import Telemetry.Proofs.Planning

/-!
# Calls

What each call on an engine comes to when it begins on an engine at rest, whatever loops and data do
meanwhile.

* `Engine.Rest`: no call is at work, no lock is held, and a pending transaction can be undone.
* `Engine.change_meets`, `Engine.abort_meets`, `Engine.expire_meets`: transactions.
* `Engine.Call.meets`: every call leaves the engine at rest again, and every change of state that it
  makes is an effect.
-/
namespace Telemetry.Engine

open Work (Meets)

/-! ## Rest -/

/-- An engine between two calls. -/
structure Rest (s : Setup) (e : Engine) : Prop extends Calm s e where
  free : e.held = []
  /-- What is pending can be undone. -/
  undoable : ∀ p, e.pending = some p → ∃ g, Ledger e.handles e.registry p.applied g

variable {s : Setup} {G : Engine → Engine → Prop} {T : Handle → Prop} {e : Engine}

theorem rest_fresh (s : Setup) (d : Datastore Event) : Rest s (fresh d) where
  sound := sound_fresh s d
  resting _ hr := by cases hr
  free := rfl
  undoable _ hp := by cases hp

theorem Rest.of_core {e' : Engine} (hr : Rest s e) (hs : Sound s e') (hc : e'.core = e.core) :
    Rest s e' where
  toCalm := hr.toCalm.of_core hs hc
  free := (congrArg Core.held hc).trans hr.free
  undoable p hp := by
    rw [show e'.registry = e.registry from congrArg Core.registry hc,
      show e'.handles = e.handles from congrArg Core.handles hc]
    exact hr.undoable p ((congrArg Core.pending hc).symm.trans hp)

/-- Locks and what is pending do not matter to calm. -/
theorem Calm.of_same {e' : Engine} (hc : Calm s e) (hr : e'.registry = e.registry)
    (hlives : e'.lives = e.lives) (hh : e'.handles = e.handles) (hcache : e'.cache = e.cache)
    (hloops : e'.loops = e.loops) (hn : e'.loopsStarted = e.loopsStarted) : Calm s e' where
  sound := hc.sound.of_same hr hlives hh hcache (fun k => loopAt_congr hloops) fun hl => by
    rw [hn]
    rw [hloops] at hl
    exact hc.sound.numbered hl
  resting h hreg hrun hm := by
    have hlife : e'.life h = e.life h := by
      unfold life
      rw [hlives]
    rw [hlife]
    refine hc.resting h ?_ ?_ hm
    · rw [Registered, ← hr]
      exact hreg
    · rw [status, ← hlife]
      exact hrun

/-- Nothing is registered or kept under an id. -/
structure Vacant (e : Engine) (id : Nat) : Prop where
  unregistered : e.registry.find? id = none
  leaves : ∀ sid, e.cache.bucket id sid = .empty
  loops : ∀ {ref l}, e.loops.find? ref = some l → l.plan.request ≠ id

theorem Sound.vacant (hs : Sound s e) {id : Nat} (hf : e.registry.find? id = none) :
    Vacant e id where
  unregistered := hf
  leaves := hs.uncached hf
  loops hl heq := by
    obtain ⟨h, hr, -, -, -, sub, -, hserves⟩ := hs.owner hl
    have hid : h.id = id := by
      rw [← heq, hserves.plan]
      rfl
    rw [Registered, hid, hf] at hr
    cases hr

/-- What was registered before is registered again, nothing is pending, and nothing is kept for any
other request. -/
structure Restored (e e' : Engine) : Prop where
  registry : e'.registry = e.registry
  pending : e'.pending = none
  vacant : ∀ {id}, e.registry.find? id = none → Vacant e' id
  owner : ∀ {ref l}, e'.loops.find? ref = some l → ∃ h, e.Registered h ∧ l.owner = h.key

theorem Restored.of_registry {e' : Engine} (hs : Sound s e') (registry : e'.registry = e.registry)
    (pending : e'.pending = none) : Restored e e' where
  registry := registry
  pending := pending
  vacant hf := hs.vacant (by rw [registry, hf])
  owner hl := by
    obtain ⟨h, hr, -, -, -, sub, -, hserves⟩ := hs.owner hl
    rw [Registered, registry] at hr
    exact ⟨h, hr, hserves.owner⟩

/-! ## Under the lock of the pending transaction -/

/-- The lock is given back. -/
theorem Calm.rest (hc : Calm s e) (hheld : e.held = [.pending])
    (hund : ∀ p, e.pending = some p → ∃ g, Ledger e.handles e.registry p.applied g) :
    Rest s (e.free .pending) where
  toCalm := hc.of_same rfl rfl rfl rfl rfl rfl
  free := by simp [Engine.free, hheld]
  undoable := hund

/-- A call that began on an engine at rest has taken the lock of the pending transaction. -/
structure Locked (s : Setup) (e x : Engine) : Prop where
  calm : Calm s x
  core : x.core = { e.core with held := [.pending] }
  now : e.now ≤ x.now

namespace Locked

variable {x : Engine}

theorem registry (l : Locked s e x) : x.registry = e.registry := congrArg Core.registry l.core

theorem handles (l : Locked s e x) : x.handles = e.handles := congrArg Core.handles l.core

theorem pending (l : Locked s e x) : x.pending = e.pending := congrArg Core.pending l.core

theorem held (l : Locked s e x) : x.held = [.pending] := congrArg Core.held l.core

/-- If nothing has happened but that the lock was taken, giving it back leaves things as they
were. -/
theorem free (l : Locked s e x) (hr : Rest s e) :
    (x.free .pending).core = e.core ∧ Rest s (x.free .pending) := by
  have hcore : (x.free .pending).core = e.core := by
    have hfree : (x.free .pending).core = { x.core with held := x.held.erase .pending } := rfl
    rw [hfree, l.held, l.core, List.erase_cons_head, ← hr.free]
    rfl
  exact ⟨hcore, hr.of_core (l.calm.sound.free _) hcore⟩

end Locked

/-- A call that changes nothing: it takes a lock and gives it back, and reads nothing. -/
structure Unmoved (e : Engine) (ns : List Note) (e' : Engine) : Prop where
  writes : ∀ {x y}, .wrote x y ∈ ns → y = { x with held := y.held }
  reads : Note.reads ns = []
  core : e'.core = e.core

/-- A call that only takes the pending transaction off the list: what that did stays. -/
structure Dismissed (e : Engine) (ns : List Note) (e' : Engine) : Prop where
  writes : ∀ {x y}, .wrote x y ∈ ns → y = { x with pending := y.pending, held := y.held }
  reads : Note.reads ns = []
  core : e'.core = { e.core with pending := none }

namespace Unmoved

variable {e' : Engine} {ns : List Note}

theorem registry (hu : Unmoved e ns e') : e'.registry = e.registry := congrArg Core.registry hu.core

theorem lives (hu : Unmoved e ns e') : e'.lives = e.lives := congrArg Core.lives hu.core

theorem handles (hu : Unmoved e ns e') : e'.handles = e.handles := congrArg Core.handles hu.core

theorem pending (hu : Unmoved e ns e') : e'.pending = e.pending := congrArg Core.pending hu.core

end Unmoved

namespace Dismissed

variable {e' : Engine} {ns : List Note}

theorem registry (hd : Dismissed e ns e') : e'.registry = e.registry := congrArg Core.registry hd.core

theorem lives (hd : Dismissed e ns e') : e'.lives = e.lives := congrArg Core.lives hd.core

theorem handles (hd : Dismissed e ns e') : e'.handles = e.handles := congrArg Core.handles hd.core

theorem pending (hd : Dismissed e ns e') : e'.pending = none := congrArg Core.pending hd.core

end Dismissed

theorem lock_stirs_meets {α : Type} {k : Unit → Work α} {Q : List Note → α → Engine → Prop}
    (hr : Rest s e) (hk : ∀ {ns x}, Stirs s e ns x → Locked s e (x.hold .pending) →
      (k ()).Meets s G (fun ns' => Q (ns ++ ns')) (x.hold .pending)) :
    ((.lock .pending (.done ()) : Work Unit) >>= k).Meets s G Q e := by
  refine Meets.acquire (by rw [hr.free]; exact List.not_mem_nil) fun ns e₁ hst => ?_
  have hc₁ := hr.toCalm.of_core (hst.sound hr.sound) hst.core
  have hcore : (e₁.hold .pending).core = { e.core with held := [.pending] } := by
    rw [← hst.core, show [Lock.pending] = .pending :: e₁.held by
      rw [show e₁.held = e.held from congrArg Core.held hst.core, hr.free]]
    rfl
  exact hk hst ⟨hc₁.of_same rfl rfl rfl rfl rfl rfl, hcore, hst.now⟩

theorem lock_meets {α : Type} {k : Unit → Work α} {Q : List Note → α → Engine → Prop}
    (hr : Rest s e) (hk : ∀ {ns x}, Note.reads ns = [] → Locked s e x →
      (k ()).Meets s G (fun ns' => Q (ns ++ ns')) x) :
    ((.lock .pending (.done ()) : Work Unit) >>= k).Meets s G Q e :=
  lock_stirs_meets hr fun hst l => hk hst.reads l

/-- What work does under the lock of the pending transaction, after which the lock is free again. -/
theorem locked_stirs_meets {α : Type} {w : Work α} {Q : List Note → α → Engine → Prop}
    (hr : Rest s e) (hw : ∀ {ns x}, Stirs s e ns x → Locked s e (x.hold .pending) →
      w.Meets s (Effect s T) (fun ns' a e' => Q (ns ++ (ns' ++ [.wrote e' (e'.free .pending)])) a
        (e'.free .pending)) (x.hold .pending)) :
    (do
      .lock .pending (.done ())
      let a ← w
      .unlock .pending
      return a : Work α).Meets s (Effect s T) Q e :=
  lock_stirs_meets hr fun hst l => Meets.bind
    (Meets.mono (fun _ _ _ hq => ⟨Effect.freed _, hq⟩) (hw hst l))

theorem locked_meets {α : Type} {w : Work α} {Q : List Note → α → Engine → Prop}
    (hr : Rest s e) (hw : ∀ {ns x}, Note.reads ns = [] → Locked s e x →
      w.Meets s (Effect s T) (fun ns' a e' => Q (ns ++ (ns' ++ [.wrote e' (e'.free .pending)])) a
        (e'.free .pending)) x) :
    (do
      .lock .pending (.done ())
      let a ← w
      .unlock .pending
      return a : Work α).Meets s (Effect s T) Q e :=
  locked_stirs_meets hr fun hst l => hw hst.reads l

/-- Taking the lock and giving it back, with nothing but idle writes in between. -/
theorem Locked.unmoved {x : Engine} {ns : List Note} (l : Locked s e (x.hold .pending))
    (hst : Stirs s e ns x) (between : List Note)
    (idle : ∀ n ∈ between, ∃ y, n = .wrote y y) (hr : Rest s e) :
    Unmoved e (ns ++ (between ++ [.wrote (x.hold .pending) ((x.hold .pending).free .pending)]))
        ((x.hold .pending).free .pending) ∧
      Rest s ((x.hold .pending).free .pending) := by
  have hidle : Note.reads between = [] := by
    refine List.filterMap_eq_nil_iff.2 fun n hn => ?_
    obtain ⟨y, rfl⟩ := idle n hn
    rfl
  refine ⟨⟨fun {y z} hm => ?_, by simp [hst.reads, hidle], (l.free hr).1⟩, (l.free hr).2⟩
  rcases List.mem_append.1 hm with hm | hm
  · exact absurd hm (hst.wrote_notMem y z)
  · rcases List.mem_append.1 hm with hm | hm
    · obtain ⟨y', heq⟩ := idle _ hm
      cases heq
      rfl
    · cases List.mem_singleton.1 hm
      rfl

/-! ## Announced transactions -/

variable {txn : Nat} {cs : List Change}

theorem plan_congr {e e' : Engine} (hreg : e'.registry = e.registry) (i : Intent) :
    plan s e' i = plan s e i := by
  cases i <;> simp only [plan, hreg]

theorem planChanges_congr {e e' : Engine} (hreg : e'.registry = e.registry) (cs : List Change) :
    planChanges s e' cs = planChanges s e cs := by
  have hall (is : List Intent) : planAll s e' is = planAll s e is := by
    induction is with
    | nil => rfl
    | cons i is ih => simp only [planAll, plan_congr hreg, ih]
  simp only [planChanges, hall]

theorem Advanced.of_same {g : Registry Handle} {made : Nat} {applied : List Applied}
    {e e' : Engine} (ha : Advanced g made applied e) (hr : e'.registry = e.registry)
    (hlives : e'.lives = e.lives) (hh : e'.handles = e.handles) : Advanced g made applied e' where
  handles := by
    rw [hh]
    exact ha.handles
  same hm := by
    rw [hr]
    exact ha.same hm
  created {h} hm := by
    obtain ⟨hreg, hrun, hrest⟩ := ha.created hm
    refine ⟨?_, ?_, hrest⟩
    · rw [Registered, hr]
      exact hreg
    · rw [← hrun, status, status, life, life, hlives]
  deleted hm := by
    rw [hr]
    exact ha.deleted hm
  ledger := by
    rw [hr, hh]
    exact ha.ledger

theorem advanced_nil (e : Engine) : Advanced e.registry e.handles [] e where
  handles := Nat.le_refl _
  same _ := rfl
  created hm := by cases hm
  deleted hm := by cases hm
  ledger := rfl

/-- The requests that changes create or delete. -/
def Named (s : Setup) (cs : List Change) (h : Handle) : Prop :=
  h.id ∈ Change.created s.moduleName cs ∨ h.id ∈ Change.deleted s.moduleName cs

/-- What announcing a transaction came to while none was pending. -/
inductive Answered (s : Setup) (txn : Nat) (cs : List Change) (e : Engine) (ns : List Note)
    (e' : Engine) : Except Error Unit → Prop where
  | accepted {ps : List Planned} {applied : List Applied} {deadline : Nat}
    (plan : planChanges s e cs = .ok ps) (performed : Performed [] ps applied)
    (advanced : Advanced e.registry e.handles applied e') (fresh : Fresh [] ps)
    (read : AllRead (ps.flatMap (·.paths)) (Note.reads ns))
    (pending : e'.pending = some ⟨txn, applied, deadline⟩)
    (due : deadline = e'.now + s.revertTimeout) : Answered s txn cs e ns e' (.ok ())
  | refused {err : Error} (registry : e'.registry = e.registry) (pending : e'.pending = none)
    (cause : ¬Acceptable s e cs ∨ ReadFailed (Note.reads ns)) :
    Answered s txn cs e ns e' (.error err)

theorem change_meets (hr : Rest s e) (hp : e.pending = none) :
    (handle s (.change txn cs)).Meets s (Effect s (Named s cs))
      (fun ns r e' => Answered s txn cs e ns e' r ∧ Rest s e') e := by
  refine locked_meets hr fun {ns x} hreads l => ?_
  have hc₁ := l.calm
  have hreg₁ := l.registry
  have hhandles₁ := l.handles
  have hp₁ := l.pending.trans hp
  have hheld₁ := l.held
  unfold handleLocked
  simp only [Meets, hp₁]
  refine Meets.bind ?_
  unfold applyChanges
  simp only [Meets]
  rw [planChanges_congr hreg₁]
  cases hplan : planChanges s e cs with
  | error err =>
    refine ⟨.refused hreg₁ hp₁ (Or.inl fun ha => ?_), hc₁.rest hheld₁ (by simp [hp₁])⟩
    obtain ⟨ps, hok, -⟩ := (acceptable_iff hr.sound).1 ha
    rw [hplan] at hok
    cases hok
  | ok ps =>
    obtain ⟨-, hplans⟩ := planChanges_eq_ok.1 hplan
    obtain ⟨hcreated, hdeleted, hvalid⟩ := ids_of_plans hr.sound hplans
    refine Meets.mono (fun ns' r e₂ hq => ?_) (applyAll_meets hc₁ (advanced_nil x) hc₁.sound.proper
      (fun p hm => hreg₁ ▸ hvalid p hm) hp₁ (by rw [hheld₁]; simp) fun h hm => ?_)
    · obtain ⟨hcarried, hc₂, hp₂, hheld₂⟩ := hq
      cases hcarried with
      | @done applied performed advanced fresh read =>
        refine ⟨Effect.await _ hp₂, .accepted hplan performed ?_ fresh ?_ rfl rfl,
          Calm.rest (hc₂.of_same rfl rfl rfl rfl rfl rfl) (hheld₂.trans hheld₁) fun p hp => ?_⟩
        · rw [← hreg₁, ← hhandles₁]
          exact advanced.of_same rfl rfl rfl
        · simpa [hreads] using read
        · cases hp
          exact ⟨_, advanced.ledger⟩
      | undone registry cause =>
        refine ⟨.refused (registry.trans hreg₁) hp₂ ?_,
          hc₂.rest (hheld₂.trans hheld₁) (by simp [hp₂])⟩
        rcases cause with hnot | hread
        · refine Or.inl fun ha => ?_
          obtain ⟨ps', hok, hfresh⟩ := (acceptable_iff hr.sound).1 ha
          rw [hplan] at hok
          cases hok
          exact hnot hfresh
        · exact Or.inr (by simpa [hreads] using hread)
    · rcases hm with hm | hm
      · cases hm
      · rw [mem_planned, hcreated, hdeleted] at hm
        exact hm

/-- While a transaction is pending, no other is taken on. -/
theorem change_pending_unmoved (hr : Rest s e) {p : Pending} (hp : e.pending = some p) :
    (handle s (.change txn cs)).Meets s (Effect s T) (fun ns r e' =>
      r = .error (.transactionPending txn p.txn) ∧ Unmoved e ns e' ∧ Rest s e') e := by
  refine locked_stirs_meets hr fun {ns x} hst l => ?_
  unfold handleLocked
  simp only [Meets, l.pending.trans hp]
  exact ⟨trivial, l.unmoved hst [] (fun _ hm => by cases hm) hr⟩

theorem change_pending_meets (hr : Rest s e) {p : Pending} (hp : e.pending = some p) :
    (handle s (.change txn cs)).Meets s (Effect s T) (fun _ r e' =>
      r = .error (.transactionPending txn p.txn) ∧ e'.core = e.core ∧ Rest s e') e :=
  Meets.mono (fun _ _ _ hq => ⟨hq.1, hq.2.1.core, hq.2.2⟩) (change_pending_unmoved hr hp)

/-- Changes that have no plan are rejected before anything is done. -/
theorem change_planless_unmoved (hr : Rest s e) (hp : e.pending = none) {err : Error}
    (hplan : planChanges s e cs = .error err) :
    (handle s (.change txn cs)).Meets s (Effect s T) (fun ns r e' =>
      r = .error err ∧ Unmoved e ns e' ∧ Rest s e') e := by
  refine locked_stirs_meets hr fun {ns x} hst l => ?_
  unfold handleLocked
  simp only [Meets, l.pending.trans hp]
  refine Meets.bind ?_
  unfold applyChanges
  simp only [Meets]
  rw [planChanges_congr l.registry, hplan]
  exact ⟨rfl, l.unmoved hst [] (fun _ hm => by cases hm) hr⟩

/-! ## The end of a transaction -/

/-- A transaction that is done is pending no more, and that is all. -/
theorem done_own_meets (hr : Rest s e) {p : Pending} (hp : e.pending = some p) :
    (handle s (.done p.txn)).Meets s (Effect s T)
      (fun ns r e' => r = .ok () ∧ Dismissed e ns e' ∧ Rest s e') e := by
  refine locked_stirs_meets hr fun {ns x} hst l => ?_
  have hp₁ : (x.hold .pending).pending = some p := l.pending.trans hp
  have hstep : (if (x.hold .pending).pending.any (·.txn = p.txn) then
      { x.hold .pending with pending := none } else x.hold .pending) =
        { x.hold .pending with pending := none } := by
    rw [if_pos (by simp [hp₁])]
  unfold handleLocked
  refine Meets.change ?_ ?_ <;> rw [hstep]
  · exact .settle
  · refine ⟨rfl, ⟨fun {y z} hm => ?_, ?_, ?_⟩,
      Calm.rest (l.calm.of_same rfl rfl rfl rfl rfl rfl) l.held fun p hp => by cases hp⟩
    · rcases List.mem_append.1 hm with hm | hm
      · exact absurd hm (hst.wrote_notMem y z)
      · rcases List.mem_cons.1 hm with heq | hm
        · cases heq
          rfl
        · cases List.mem_singleton.1 hm
          rfl
    · simp [hst.reads]
    · rw [← (l.free hr).1]
      rfl

/-- Saying that any other transaction is done changes nothing. -/
theorem done_other_unmoved (hr : Rest s e) (hp : ∀ p, e.pending = some p → p.txn ≠ txn) :
    (handle s (.done txn)).Meets s (Effect s T)
      (fun ns r e' => r = .ok () ∧ Unmoved e ns e' ∧ Rest s e') e := by
  refine locked_stirs_meets hr fun {ns x} hst l => ?_
  have hstep : (if (x.hold .pending).pending.any (·.txn = txn) then
      { x.hold .pending with pending := none } else x.hold .pending) = x.hold .pending := by
    refine if_neg ?_
    cases hp₁ : (x.hold .pending).pending with
    | none => simp
    | some p => simpa using hp p (l.pending.symm.trans hp₁)
  unfold handleLocked
  refine Meets.change ?_ ?_ <;> rw [hstep]
  · exact .nothing
  · refine ⟨rfl, ?_⟩
    exact l.unmoved hst [.wrote _ _]
      (fun n hm => ⟨_, List.mem_singleton.1 hm⟩) hr

theorem done_meets (hr : Rest s e) :
    (handle s (.done txn)).Meets s (Effect s T) (fun _ r e' => r = .ok () ∧
      e'.registry = e.registry ∧ e'.lives = e.lives ∧ e'.handles = e.handles ∧
      e'.pending = (if e.pending.any (·.txn = txn) then none else e.pending) ∧ Rest s e') e := by
  by_cases hp : ∃ p, e.pending = some p ∧ p.txn = txn
  · obtain ⟨p, hp, rfl⟩ := hp
    refine Meets.mono (fun _ _ e' hq => ?_) (done_own_meets hr hp)
    obtain ⟨hok, hd, hr'⟩ := hq
    refine ⟨hok, hd.registry, hd.lives, hd.handles, ?_, hr'⟩
    rw [if_pos (by simp [hp])]
    exact hd.pending
  · have hother (p : Pending) (hp' : e.pending = some p) : p.txn ≠ txn :=
      fun htxn => hp ⟨p, hp', htxn⟩
    refine Meets.mono (fun _ _ e' hq => ?_) (done_other_unmoved hr hother)
    obtain ⟨hok, hu, hr'⟩ := hq
    refine ⟨hok, hu.registry, hu.lives, hu.handles, ?_, hr'⟩
    rw [if_neg ?_]
    · exact hu.pending
    · cases hp' : e.pending with
      | none => simp
      | some p => simpa using hother p hp'

/-- A pending transaction was undone. -/
structure Undone (s : Setup) (p : Pending) (g : Registry Handle) (ns : List Note) (e' : Engine) :
    Prop where
  registry : e'.registry = g
  pending : e'.pending = none
  retried : Retried s p.applied ns e'

theorem Restarted.finish {h : Handle} {readings : List Snapshot.Reading} {ns : List Note}
    {x y e' : Engine} (hr : Restarted s h readings ns e) (hlives : e'.lives = e.lives)
    (hcache : e'.cache = e.cache) : Restarted s h readings (ns ++ [.wrote x y]) e' where
  running := by
    rw [← hr.running, status, status, Engine.life, Engine.life, hlives]
  start := by
    obtain ⟨x, hwrote, hleaves, hkept⟩ := hr.start
    refine ⟨x, List.mem_append_left _ hwrote, hleaves, fun hno => ?_⟩
    rw [hcache]
    exact hkept fun ht => hno (Note.ticked_append.2 (Or.inl ht))

theorem Retried.finish {applied : List Applied} {ns : List Note} {x y e' : Engine}
    (hr : Retried s applied ns e) (hlives : e'.lives = e.lives) (hcache : e'.cache = e.cache) :
    Retried s applied (ns ++ [.wrote x y]) e' := by
  obtain ⟨tries, hhandles, hrs, hcame⟩ := hr
  refine ⟨tries, hhandles, by simpa using hrs, fun t ht => ?_⟩
  exact ⟨(hcame t ht).tried, fun readings hok =>
    ((hcame t ht).restarted readings hok).finish hlives hcache⟩

/-- Undoing a pending transaction under its lock. -/
theorem undo_meets {p : Pending} {g : Registry Handle} {x : Engine} (l : Locked s e x)
    (hL : Ledger e.handles e.registry p.applied g) :
    (revertAll s p.applied).Meets s (Effect s (· ∈ handled p.applied))
      (fun ns _ e' => Undone s p g (ns ++ [.wrote e' (e'.free .pending)]) (e'.free .pending) ∧
        Rest s (e'.free .pending)) { x with pending := none } := by
  have hc : Calm s { x with pending := none } := l.calm.of_same rfl rfl rfl rfl rfl rfl
  have hL' : Ledger x.handles x.registry p.applied g := by
    rw [l.registry, l.handles]
    exact hL
  refine Meets.mono (fun ns _ e' hq => ?_) (revertAll_meets hc hL' rfl (by simp [l.held]))
  obtain ⟨hretried, hc', hreg', hp', hheld', -⟩ := hq
  exact ⟨⟨hreg', hp', hretried.finish rfl rfl⟩, hc'.rest (hheld'.trans l.held) (by simp [hp'])⟩

theorem Retried.cons {applied : List Applied} {ns : List Note} {x y e' : Engine}
    (hr : Retried s applied ns e') : Retried s applied (.wrote x y :: ns) e' := by
  have hreads : Note.reads [.wrote x y] = [] := rfl
  exact hr.prepend hreads

/-- Aborting the pending transaction undoes it. -/
theorem abort_meets {p : Pending} {g : Registry Handle} (hr : Rest s e)
    (hp : e.pending = some p) (hL : Ledger e.handles e.registry p.applied g) :
    (handle s (.abort p.txn)).Meets s (Effect s (· ∈ handled p.applied))
      (fun ns r e' => r = .ok () ∧ Undone s p g ns e' ∧ Rest s e') e := by
  refine locked_meets hr fun {ns x} hreads l => ?_
  unfold handleLocked
  simp only [Meets, l.pending.trans hp, if_true]
  refine Meets.change .settle (Meets.bind (Meets.mono (fun ns' _ e' hq => ?_) (undo_meets l hL)))
  obtain ⟨hundone, hr'⟩ := hq
  refine ⟨rfl, ⟨hundone.registry, hundone.pending, ?_⟩, hr'⟩
  have := (hundone.retried.cons (x := x) (y := { x with pending := none })).prepend hreads
  simpa using this

/-- Aborting any other transaction changes nothing. -/
theorem abort_other_unmoved (hr : Rest s e) (hp : ∀ p, e.pending = some p → p.txn ≠ txn) :
    (handle s (.abort txn)).Meets s (Effect s T)
      (fun ns r e' => r = .ok () ∧ Unmoved e ns e' ∧ Rest s e') e := by
  refine locked_stirs_meets hr fun {ns x} hst l => ?_
  unfold handleLocked
  have hunmoved := l.unmoved hst [] (fun _ hm => by cases hm) hr
  cases hp' : e.pending with
  | none =>
    simp only [Meets, l.pending.trans hp']
    exact ⟨trivial, hunmoved⟩
  | some p =>
    simp only [Meets, l.pending.trans hp', hp p hp', if_false]
    exact ⟨trivial, hunmoved⟩

theorem abort_other_meets (hr : Rest s e) (hp : ∀ p, e.pending = some p → p.txn ≠ txn) :
    (handle s (.abort txn)).Meets s (Effect s T)
      (fun _ r e' => r = .ok () ∧ e'.core = e.core ∧ Rest s e') e :=
  Meets.mono (fun _ _ _ hq => ⟨hq.1, hq.2.1.core, hq.2.2⟩) (abort_other_unmoved hr hp)

/-- Calls do not turn back time. -/
theorem later_meets {α : Type} {w : Work α} {Q : List Note → α → Engine → Prop}
    (hw : w.Meets s (Effect s T) Q e) :
    w.Meets s (Effect s T) (fun ns a e' => Q ns a e' ∧ e.now ≤ e'.now) e :=
  Meets.keep [] (K := fun _ x => e.now ≤ x.now)
    (fun h f => Nat.le_trans h (Nat.le_of_eq f.now.symm)) (fun h hst => Nat.le_trans h hst.now)
    (fun h => h) (fun h => h) (Nat.le_refl _) hw

/-- A pending transaction is undone once its time is up, and not before. -/
theorem expire_unmoved_or_undone (hr : Rest s e) :
    (expire s).Meets s (Effect s fun h => ∃ p, e.pending = some p ∧ h ∈ handled p.applied)
      (fun ns _ e' => Rest s e' ∧
        ((Unmoved e ns e' ∧ ∀ p, e.pending = some p → e'.now < p.deadline) ∨
          ∃ p, e.pending = some p ∧ p.deadline ≤ e'.now ∧
            ∀ g, Ledger e.handles e.registry p.applied g → Undone s p g ns e')) e := by
  unfold expire
  refine lock_stirs_meets hr fun {ns x} hst l => Meets.look ?_
  have hunmoved := l.unmoved hst [] (fun _ hm => by cases hm) hr
  cases hp : e.pending with
  | none =>
    rw [l.pending.trans hp]
    exact ⟨.freed _, hunmoved.2, Or.inl ⟨hunmoved.1, fun p hp => by cases hp⟩⟩
  | some p =>
    rw [l.pending.trans hp]
    by_cases hdue : p.deadline ≤ x.now
    · obtain ⟨g, hL⟩ := hr.undoable p hp
      have hdue' : p.deadline ≤ (x.hold .pending).now := hdue
      simp only [hdue', if_true]
      refine Meets.change .settle (Meets.bind (Meets.mono (fun ns' _ e' hq => ?_) (Meets.weaken
        (fun _ _ hf => hf.mono fun h hm => ⟨p, rfl, hm⟩) (later_meets (undo_meets l hL)))))
      obtain ⟨⟨hundone, hr'⟩, hlater⟩ := hq
      refine ⟨Effect.freed _, hr', Or.inr ⟨p, rfl, Nat.le_trans hdue hlater, fun g' hL' => ?_⟩⟩
      obtain rfl := hL.unique hL'
      refine ⟨hundone.registry, hundone.pending, ?_⟩
      have := (hundone.retried.cons (x := x.hold .pending)
        (y := { x.hold .pending with pending := none })).prepend hst.reads
      simpa using this
    · have hdue' : ¬p.deadline ≤ (x.hold .pending).now := hdue
      simp only [hdue', if_false]
      refine ⟨.freed _, hunmoved.2, Or.inl ⟨hunmoved.1, fun p' hp' => ?_⟩⟩
      cases hp'
      exact Nat.lt_of_not_le hdue

theorem expire_meets (hr : Rest s e) :
    (expire s).Meets s (Effect s fun h => ∃ p, e.pending = some p ∧ h ∈ handled p.applied)
      (fun ns _ e' => Rest s e' ∧
        ((e'.core = e.core ∧ ∀ p, e.pending = some p → e.now < p.deadline) ∨
          ∃ p, e.pending = some p ∧
            ∀ g, Ledger e.handles e.registry p.applied g → Undone s p g ns e')) e := by
  refine Meets.mono (fun _ _ _ hq => ⟨hq.1.1, ?_⟩) (later_meets (expire_unmoved_or_undone hr))
  obtain ⟨⟨-, ⟨hu, hearly⟩ | ⟨p, hp, -, hundone⟩⟩, hlater⟩ := hq
  · exact .inl ⟨hu.core, fun p hp => Nat.lt_of_le_of_lt hlater (hearly p hp)⟩
  · exact .inr ⟨p, hp, hundone⟩

/-! ## Polls and shutdown -/

theorem pollId_meets (hr : Rest s e) (id : Nat) :
    (pollId s id).Meets s (Effect s fun _ => True) (fun _ _ e' => e'.core = e.core ∧ Rest s e') e := by
  unfold pollId Registry.get
  refine Meets.look ?_
  cases hf : e.registry.find? id with
  | none => exact ⟨rfl, hr⟩
  | some h =>
    refine Meets.mono (fun _ _ e' hq => ⟨hq.1, hr.of_core hq.2 hq.1⟩)
      (poll_meets hr.sound (hr.sound.registered hf) trivial (by rw [hr.free]; simp))

theorem stopIds_meets (ids : List Nat) (hc : Calm s e) (hheld : e.held = []) :
    (stopIds ids).Meets s (Effect s fun _ => True) (fun _ _ e' => Calm s e' ∧
      e'.registry = e.registry ∧ e'.pending = e.pending ∧ e'.held = [] ∧
      ∀ h, e.Registered h → h.id ∈ ids ∨ e.status h ≠ .running → e'.status h ≠ .running) e := by
  induction ids generalizing e with
  | nil =>
    refine ⟨hc, rfl, rfl, hheld, fun h _ hor => ?_⟩
    rcases hor with hm | hrest
    · cases hm
    · exact hrest
  | cons id rest ih =>
    refine Meets.look ?_
    cases hf : e.registry.find? id with
    | none =>
      refine Meets.mono (fun _ _ e' hq => ?_) (ih hc hheld)
      obtain ⟨hc', hreg', hp', hheld', hstopped⟩ := hq
      refine ⟨hc', hreg', hp', hheld', fun h hr hor => hstopped h hr ?_⟩
      rcases hor with hm | hrest
      · rcases List.mem_cons.1 hm with heq | hm
        · rw [Registered, heq, hf] at hr
          cases hr
        · exact Or.inl hm
      · exact Or.inr hrest
    | some h₀ =>
      have hr₀ := hc.sound.registered hf
      have hsole := hc.sound.sole hr₀
      refine Meets.bind (Meets.mono (fun ns _ e₁ hq => ?_) (stop_meets hc hsole
        (hc.sound.proper.made hf) trivial (by rw [hheld]; simp)))
      obtain ⟨-, hh, hc₁⟩ := hq
      refine Meets.mono (fun _ _ e' hq => ?_) (ih hc₁ (hh.beside.held.trans hheld))
      obtain ⟨hc', hreg', hp', hheld', hstopped⟩ := hq
      refine ⟨hc', hreg'.trans hh.registry, hp'.trans hh.beside.pending, hheld', fun h hr hor => ?_⟩
      refine hstopped h (by rw [Registered, hh.registry]; exact hr) ?_
      by_cases heq : h = h₀
      · right
        rw [heq, hh.status]
        decide
      · have hid : h.id ≠ id := fun hid =>
          heq (hsole h hr (Or.inr (hid.trans (hc.sound.proper.ids hf).symm)))
        have hkey : h.key ≠ h₀.key := fun hk => heq (hsole h hr (Or.inl hk))
        rcases hor with hm | hrest
        · exact Or.inl ((List.mem_cons.1 hm).resolve_left hid)
        · right
          rw [status, hh.beside.life hkey]
          exact hrest

/-- After a shutdown nothing is registered and nothing is kept. -/
theorem shutdown_meets (hr : Rest s e) :
    shutdown.Meets s (Effect s fun _ => True) (fun _ _ e' => Rest s e' ∧ e'.registry = .empty ∧
      e'.pending = none ∧ e'.cache.isEmpty = true) e := by
  unfold shutdown
  refine lock_meets hr fun {ns x} hreads l => Meets.change .settle (Meets.change (.freed _) ?_)
  have hc : Calm s (({ x with pending := none } : Engine).free .pending) :=
    l.calm.of_same rfl rfl rfl rfl rfl rfl
  have hheld : (({ x with pending := none } : Engine).free .pending).held = [] := by
    simp [free, l.held]
  refine Meets.look (Meets.bind (Meets.mono (fun ns' _ e₁ hq => ?_) (stopIds_meets _ hc hheld)))
  obtain ⟨hc₁, hreg₁, hp₁, hheld₁, hstopped⟩ := hq
  have hresting (h : Handle) (hr₁ : e₁.Registered h) : e₁.status h ≠ .running := by
    have hr₀ : (({ x with pending := none } : Engine).free .pending).Registered h := by
      rw [Registered, ← hreg₁]
      exact hr₁
    refine hstopped h hr₀ (Or.inl (Registry.mem_ids.2 ?_))
    rw [show _ = some h from hr₀]
    rfl
  have heffect : Effect s (fun _ => True) e₁ { e₁ with registry := .empty } :=
    .clear (fun _ => trivial) hresting hp₁
  have hs := heffect.sound hc₁.sound
  refine ⟨heffect, ⟨⟨hs, fun h hr => by cases hr⟩, hheld₁, fun p hp => ?_⟩, rfl, hp₁, ?_⟩
  · rw [show e₁.pending = none from hp₁] at hp
    cases hp
  · exact hs.tidy.isEmpty_iff.2 fun r sid => hs.uncached rfl sid

/-! ## Any call -/

/-- What an engine can be called for. -/
inductive Call where
  | phase (p : Phase)
  | expire
  | poll (id : Nat)
  | stop

def Call.work (s : Setup) : Call → Work (Except Error Unit)
  | phase p => handle s p
  | expire => do
    Engine.expire s
    return .ok ()
  | poll id => pollId s id
  | stop => do
    shutdown
    return .ok ()

/-- Some calls have only one answer. -/
theorem answering_meets {w : Work Unit} {Q : List Note → Engine → Prop}
    (hw : w.Meets s G (fun ns _ e' => Q ns e') e) :
    (do
      w
      return .ok () : Work (Except Error Unit)).Meets s G
        (fun ns r e' => r = .ok () ∧ Q ns e') e :=
  Meets.bind (Meets.mono (fun ns _ e' hq => ⟨rfl, by rwa [List.append_nil]⟩) hw)

/-- Every call leaves an engine at rest again, and every change that it makes is an effect. -/
theorem Call.meets (hr : Rest s e) (c : Call) :
    (c.work s).Meets s (Effect s fun _ => True) (fun _ _ e' => Rest s e') e := by
  have wide {α : Type} {w : Work α} {T : Handle → Prop} {Q : List Note → α → Engine → Prop}
      (hw : w.Meets s (Effect s T) Q e) : w.Meets s (Effect s fun _ => True) Q e :=
    Meets.weaken (fun _ _ hf => hf.mono fun _ _ => trivial) hw
  cases c with
  | phase p =>
    cases p with
    | change txn cs =>
      cases hp : e.pending with
      | none => exact Meets.mono (fun _ _ _ hq => hq.2) (wide (change_meets hr hp))
      | some p => exact Meets.mono (fun _ _ _ hq => hq.2.2) (change_pending_meets hr hp)
    | done txn => exact Meets.mono (fun _ _ _ hq => hq.2.2.2.2.2) (done_meets hr)
    | abort txn =>
      by_cases hp : ∃ p, e.pending = some p ∧ p.txn = txn
      · obtain ⟨p, hp, rfl⟩ := hp
        obtain ⟨g, hL⟩ := hr.undoable p hp
        exact Meets.mono (fun _ _ _ hq => hq.2.2) (wide (abort_meets hr hp hL))
      · exact Meets.mono (fun _ _ _ hq => hq.2.2) (abort_other_meets hr fun p hp' heq =>
          hp ⟨p, hp', heq⟩)
  | expire => exact Meets.mono (fun _ _ _ hq => hq.2.1) (answering_meets (wide (expire_meets hr)))
  | poll id => exact Meets.mono (fun _ _ _ hq => hq.2) (pollId_meets hr id)
  | stop => exact Meets.mono (fun _ _ _ hq => hq.2.1) (answering_meets (shutdown_meets hr))

end Telemetry.Engine
