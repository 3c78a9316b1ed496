import Telemetry.Proofs.History

/-!
# Registered requests and running requests

A registered request runs: its loops sample, and its polls are answered. There is one exception. When
the deletion of a request is undone, the request is registered again before it is started, and if it
cannot be read then, it stays registered without running. Nothing is kept for it, and nothing starts
it again but another deletion that is undone.

* `Engine.Stranded`: a request that is registered and does not run.
* `Engine.Reverted.strands`: undoing strands a request only if its restart fails.
* `Engine.Performs.strands`: so does a call.
* `registered_in_service`: the statement.
* `Small.stranded_by_restart`: that the exception occurs.
-/
namespace Telemetry

namespace Engine

open Work (Meets)

variable {s : Setup} {T : Handle → Prop} {e e₁ e₂ e' : Engine} {h : Handle} {ns ns' : List Note}

/-! ## Requests in service -/

/-- What a poll of a running request comes to: a snapshot of everything that was read. -/
inductive Polled (s : Setup) (h : Handle) (ns : List Note) : Except Error Unit → Prop where
  | burst {readings : List Snapshot.Reading} {x : Engine}
    (tried : Tried h.request.subscriptions (Note.reads ns) (.ok readings))
    (wrote : .wrote x (burst s h readings x) ∈ ns) : Polled s h ns (.ok ())
  | failed {err : Error} (tried : Tried h.request.subscriptions (Note.reads ns) (.error err)) :
    Polled s h ns (.error err)

/-- A request that runs: a STREAM request has a live loop for every subscription, and a POLL request
answers polls. -/
structure InService (s : Setup) (e : Engine) (h : Handle) : Prop where
  running : e.status h = .running
  sampled : h.request.mode = .stream → ∀ sub ∈ h.request.subscriptions, Served s e h sub
  polled : h.request.mode = .poll → Returns s (.poll h.id) e ∧
    ∀ {ns r e'}, Performs s (.poll h.id) e ns r e' → Polled s h ns r

theorem pollLocked_polled (hrun : e.status h = .running) :
    (pollLocked s h).Meets s (fun _ _ => True) (fun ns r _ => Polled s h ns r) e := by
  unfold pollLocked
  simp only [Meets, hrun, ne_eq, not_true, if_false]
  refine Meets.bind (Meets.mono (fun ns out e₁ hq => ?_) (readAll_stirs _ e))
  obtain ⟨htried, -, -⟩ := hq
  cases out with
  | error err => exact .failed (by simpa using htried)
  | ok readings => exact ⟨trivial, .burst (x := e₁) (by simpa using htried) (by simp)⟩

theorem pollId_polled (hr : Rest s e) (hreg : e.Registered h) (hm : h.request.mode = .poll)
    (hrun : e.status h = .running) :
    (pollId s h.id).Meets s (fun _ _ => True) (fun ns r _ => Polled s h ns r) e := by
  unfold pollId Registry.get
  refine Meets.look ?_
  rw [show e.registry.find? h.id = some h from hreg]
  simp only [poll, hm]
  refine Meets.acquire (by rw [hr.free]; exact List.not_mem_nil) fun ns e₁ hst => ?_
  have hrun₁ : (e₁.hold (.poll h.key)).status h = .running :=
    (congrArg Life.status (hst.life h)).trans hrun
  refine Meets.bind (Meets.mono (fun ns' r e₂ hq => ⟨trivial, ?_⟩) (pollLocked_polled hrun₁))
  cases hq with
  | burst tried wrote =>
    exact .burst (by simpa [hst.reads] using tried)
      (List.mem_append_right _ (List.mem_append_left _ wrote))
  | failed tried => exact .failed (by simpa [hst.reads] using tried)

theorem Rest.inService (hr : Rest s e) (hreg : e.Registered h) (hrun : e.status h = .running) :
    InService s e h where
  running := hrun
  sampled hm _ hsub :=
    served_of_looping (hr.sound.proper.wellMade hreg) (hr.toCalm.looping hreg hrun hm) hsub
  polled hm := ⟨hr.returns _, fun hperf => (Meets.course hperf (pollId_polled hr hreg hm hrun)).2⟩

/-! ## Stranded requests -/

/-- A request is registered and does not run. -/
def Stranded (e : Engine) (h : Handle) : Prop := e.Registered h ∧ e.status h ≠ .running

/-- A request was registered again, and when it was started then, it could not be read. -/
def RestartFailed (h : Handle) (ns : List Note) : Prop :=
  ∃ before x tries after err, ns = before ++ .wrote x (x.reenrolled h) :: (tries ++ after) ∧
    x.registry.find? h.id = none ∧ Tried h.request.subscriptions (Note.reads tries) (.error err)

theorem RestartFailed.widen (hf : RestartFailed h ns) (within : ns <:+: ns') :
    RestartFailed h ns' := by
  obtain ⟨front, back, rfl⟩ := within
  obtain ⟨before, x, tries, after, err, rfl, absent, tried⟩ := hf
  exact ⟨front ++ before, x, tries, after ++ back, err, by simp, absent, tried⟩

theorem RestartFailed.append_left (hf : RestartFailed h ns) : RestartFailed h (ns ++ ns') :=
  hf.widen (List.prefix_append ..).isInfix

theorem RestartFailed.append_right (hf : RestartFailed h ns') : RestartFailed h (ns ++ ns') :=
  hf.widen (List.suffix_append ..).isInfix

/-- A request that is stranded after something was stranded before it, unless its restart failed on
the way. -/
def Strands (h : Handle) (e : Engine) (ns : List Note) (e' : Engine) : Prop :=
  e'.Stranded h → e.Stranded h ∨ RestartFailed h ns

theorem Strands.trans (h₁ : Strands h e ns e₁) (h₂ : Strands h e₁ ns' e₂) :
    Strands h e (ns ++ ns') e₂ := by
  intro hs
  rcases h₂ hs with hs₁ | hf
  · exact (h₁ hs₁).imp_right .append_left
  · exact .inr hf.append_right

theorem stranded_of_same (hr : e'.registry = e.registry) (hl : e'.lives = e.lives)
    (hs : e'.Stranded h) : e.Stranded h := by
  refine ⟨?_, ?_⟩
  · rw [Registered, ← hr]
    exact hs.1
  · rw [status, Engine.life, ← hl]
    exact hs.2

theorem stranded_of_core (hc : e'.core = e.core) (hs : e'.Stranded h) : e.Stranded h :=
  stranded_of_same (congrArg Core.registry hc) (congrArg Core.lives hc) hs

/-- A change to one request strands no other, and not that one if it runs or is not registered
afterwards. -/
theorem stranded_of_beside {key : Nat} (hb : Beside key e e')
    (hreg : h.key ≠ key → e'.Registered h → e.Registered h)
    (hself : h.key = key → e'.Registered h → e'.status h = .running) (hs : e'.Stranded h) :
    e.Stranded h := by
  by_cases hk : h.key = key
  · exact absurd (hself hk hs.1) hs.2
  · refine ⟨hreg hk hs.1, ?_⟩
    rw [status, ← hb.life hk]
    exact hs.2

theorem registered_of_erase {id : Nat} (hreg : e'.registry = ⟨e.registry.entries.erase id⟩)
    (hr : e'.Registered h) : h.id ≠ id ∧ e.Registered h := by
  rw [Registered, hreg, Registry.find?_erase] at hr
  split at hr
  · cases hr
  · exact ⟨‹_›, hr⟩

/-! ## What strands a request -/

/-- A request that is not there strands nobody when it is created. -/
theorem Created.stranded {r : Request} {a : Except Error Applied} (hs : Sound s e)
    (hc : Created s r e ns a e') (hst : e'.Stranded h) : e.Stranded h := by
  have made (hr : e.Registered h) : h.key ≠ e.handles := Nat.ne_of_lt (hs.proper.made hr)
  cases hc with
  | taken => exact hst
  | failed absent tried registry handles beside =>
    have hreg (hr : e'.Registered h) : e.Registered h := by rwa [Registered, registry] at hr
    exact stranded_of_beside beside (fun _ => hreg) (fun hk hr => absurd hk (made (hreg hr))) hst
  | made absent tried registry handles beside running =>
    have hreg (hr : e'.Registered h) : h = ⟨e.handles, r⟩ ∨ e.Registered h := by
      rw [Registered, registry] at hr
      exact ((registered_insert e.registry ⟨e.handles, r⟩ h).1 hr).imp_right (·.2)
    refine stranded_of_beside beside (fun hk hr => ?_) (fun hk hr => ?_) hst
    · exact (hreg hr).resolve_left fun heq => hk (by rw [heq])
    · rcases hreg hr with rfl | hr
      · exact running
      · exact absurd hk (made hr)

/-- Nor does a request when it is taken out. -/
theorem stranded_of_removed {h' : Handle} (hsole : e.Sole h')
    (registry : e'.registry = ⟨e.registry.entries.erase h'.id⟩) (beside : Beside h'.key e e')
    (hst : e'.Stranded h) : e.Stranded h := by
  refine stranded_of_beside beside (fun _ hr => (registered_of_erase registry hr).2)
    (fun hk hr => ?_) hst
  obtain ⟨hid, hr⟩ := registered_of_erase registry hr
  exact absurd (congrArg Handle.id (hsole h hr (.inl hk))) hid

theorem Deleted.stranded {h' : Handle} {a : Except Error Applied} (hsole : e.Sole h')
    (hd : Deleted h' e a e') (hst : e'.Stranded h) : e.Stranded h := by
  cases hd with
  | absent absent halted =>
    have hreg (hr : e'.Registered h) : e.Registered h := by rwa [Registered, halted.registry] at hr
    refine stranded_of_beside halted.beside (fun _ => hreg) (fun hk hr => ?_) hst
    have hr := hreg hr
    rw [hsole h hr (.inl hk), Registered, absent] at hr
    cases hr
  | gone registered registry handles beside =>
    exact stranded_of_removed hsole registry beside hst

/-- Undoing strands a request only if that is started again and cannot be read. -/
theorem Reverted.strands {a : Applied} {rest : List Applied} {g : Registry Handle}
    (hs : Sound s e) (hL : Ledger e.handles e.registry (a :: rest) g)
    (hrev : Reverted s e ns e' a) : Strands h e ns e' := by
  cases hrev with
  | created reads registry handles beside =>
    exact fun hst => .inl (stranded_of_removed (hs.sole hL.1) registry beside hst)
  | nothing reads core => exact fun hst => .inl (stranded_of_core core hst)
  | @deleted h' r started first =>
    obtain ⟨habsent, hkeys, -⟩ := hL
    obtain ⟨hb, hreg, -⟩ := started.beside
    have hregistered (hr : e'.Registered h) : h = h' ∨ e.Registered h := by
      rw [Registered, hreg] at hr
      exact ((registered_insert e.registry h' h).1 hr).imp_right (·.2)
    intro hst
    by_cases heq : h = h'
    · subst heq
      right
      cases started with
      | begun => exact absurd (status_begin _) hst.2
      | failed tried =>
        obtain ⟨ns', rfl⟩ := first
        exact ⟨[], e, ns', [], _, by simp, habsent, by simpa using tried⟩
    · have beside : Beside h'.key e e' := ⟨hb.lives, hb.pending, hb.held⟩
      refine .inl (stranded_of_beside beside
        (fun _ hr => (hregistered hr).resolve_left heq) (fun hk hr => ?_) hst)
      exact absurd hk (hkeys _ _ ((hregistered hr).resolve_left heq))

theorem revertAll_strands {applied : List Applied} {g : Registry Handle} (hc : Calm s e)
    (hL : Ledger e.handles e.registry applied g) (hp : e.pending = none)
    (hheld : ∀ k, .poll k ∉ e.held) :
    (revertAll s applied).Meets s (Effect s fun _ => True) (fun ns _ e' => Strands h e ns e') e := by
  induction applied generalizing e with
  | nil => exact fun hst => .inl hst
  | cons a rest ih =>
    refine Meets.bind (Meets.mono (fun ns _ e₁ hq => ?_)
      (revert_meets hc hL hp (fun _ _ => trivial) hheld))
    obtain ⟨hrev, hc₁, hL₁, hp₁, hheld₁, -⟩ := hq
    exact Meets.mono (fun ns' _ e₂ hstrands => (hrev.strands hc.sound hL).trans hstrands)
      (ih hc₁ hL₁ hp₁ (by rw [hheld₁]; exact hheld))

/-- Making one change strands nobody. -/
theorem apply_stranded {g : Registry Handle} {made : Nat} {before : List Applied} {p : Planned}
    (hc : Calm s e) (ha : Advanced g made before e) (hg : g.Proper made) (hv : p.Valid g)
    (hp : e.pending = none) (hheld : ∀ k, .poll k ∉ e.held) :
    (apply s p).Meets s (Effect s fun _ => True)
      (fun _ _ e' => e'.Stranded h → e.Stranded h) e := by
  unfold apply
  cases hv with
  | create absent wellMade =>
    exact Meets.mono (fun _ _ _ hq => hq.1.stranded hc.sound)
      (create_meets hc wellMade hp trivial)
  | delete registered =>
    have hsole := ha.sole hg registered
    exact Meets.mono (fun _ _ _ hq => hq.2.1.stranded hsole) (delete_meets hc hsole
      (Nat.lt_of_lt_of_le (hg.made registered) ha.handles) hp trivial (hheld _))
  | nothing => exact id

/-- Making the changes of a plan strands a request only if they have to be undone. -/
theorem applyAll_strands {g : Registry Handle} {made : Nat} {before : List Applied}
    {ps : List Planned} (hc : Calm s e) (ha : Advanced g made before e) (hg : g.Proper made)
    (hv : ∀ p ∈ ps, p.Valid g) (hp : e.pending = none) (hheld : ∀ k, .poll k ∉ e.held) :
    (applyAll s before ps).Meets s (Effect s fun _ => True) (fun ns r e' => e'.Stranded h →
      e.Stranded h ∨ RestartFailed h ns ∧ ∃ err, r = .error err) e := by
  induction ps generalizing before e with
  | nil => exact fun hst => .inl hst
  | cons p ps ih =>
    refine Meets.bind (Meets.mono (fun ns r e₁ hq => ?_) (Meets.weaken (fun _ _ h => h.1)
      (Meets.and (apply_meets (T := fun _ => True) hc ha hg (hv p List.mem_cons_self) hp hheld
        fun _ _ => trivial) (apply_stranded (h := h) hc ha hg (hv p List.mem_cons_self) hp hheld))))
    obtain ⟨⟨hattempted, hc₁, hp₁, hheld₁⟩, hback⟩ := hq
    have hheld₁' : ∀ k, .poll k ∉ e₁.held := by
      rw [hheld₁]
      exact hheld
    cases hattempted with
    | failed ledger cause =>
      refine Meets.bind (Meets.mono (fun ns' _ e₂ hstrands => ?_)
        (revertAll_strands (h := h) hc₁ ledger hp₁ hheld₁'))
      intro hst
      refine (hstrands hst).imp hback fun hf => ⟨?_, _, rfl⟩
      simpa using hf.append_right
    | done done advanced fresh read =>
      refine Meets.mono (fun ns' r' e₂ hback' => ?_) (ih hc₁ advanced
        (fun p' hm => hv p' (List.mem_cons_of_mem _ hm)) hp₁ hheld₁')
      exact fun hst => (hback' hst).imp hback fun hf => ⟨hf.1.append_right, hf.2⟩

/-! ## Calls -/

/-- A call that undoes changes: an abort, an expiry, or an announcement that is rejected. -/
def Call.Undoes (c : Call) (r : Except Error Unit) : Prop :=
  (∃ txn, c = .phase (.abort txn)) ∨ c = .expire ∨
    (∃ txn cs, c = .phase (.change txn cs)) ∧ ∃ err, r = .error err

theorem change_strands {txn : Nat} {cs : List Change} (hr : Rest s e) :
    (handle s (.change txn cs)).Meets s (Effect s fun _ => True) (fun ns r e' => e'.Stranded h →
      e.Stranded h ∨ RestartFailed h ns ∧ ∃ err, r = .error err) e := by
  cases hp : e.pending with
  | some p =>
    exact Meets.mono (fun _ _ _ hq hst => .inl (stranded_of_core hq.2.1.core hst))
      (change_pending_unmoved hr hp)
  | none =>
    cases hplan : planChanges s e cs with
    | error err =>
      exact Meets.mono (fun _ _ _ hq hst => .inl (stranded_of_core hq.2.1.core hst))
        (change_planless_unmoved hr hp hplan)
    | ok ps =>
      obtain ⟨-, hplans⟩ := planChanges_eq_ok.1 hplan
      obtain ⟨-, -, hvalid⟩ := ids_of_plans hr.sound hplans
      refine locked_meets hr fun {ns x} _ l => ?_
      unfold handleLocked
      simp only [Meets, l.pending.trans hp]
      refine Meets.bind ?_
      unfold applyChanges
      simp only [Meets]
      rw [planChanges_congr l.registry, hplan]
      have hvalid₁ (p : Planned) (hm : p ∈ ps) : p.Valid x.registry := l.registry ▸ hvalid p hm
      have hheld₁ : ∀ k, .poll k ∉ x.held := by simp [l.held]
      refine Meets.mono (fun ns' r e₂ hq => ?_) (Meets.weaken (fun _ _ h => h.1) (Meets.and
        (applyAll_meets (T := fun _ => True) l.calm (advanced_nil x) l.calm.sound.proper hvalid₁
          (l.pending.trans hp) hheld₁ fun _ _ => trivial)
        (applyAll_strands (h := h) l.calm (advanced_nil x) l.calm.sound.proper hvalid₁
          (l.pending.trans hp) hheld₁)))
      obtain ⟨⟨-, -, hp₂, -⟩, hq⟩ := hq
      have hback (hst : x.Stranded h) : e.Stranded h :=
        stranded_of_same l.registry (congrArg Core.lives l.core) hst
      cases r with
      | error err =>
        exact fun hst => (hq (stranded_of_same rfl rfl hst)).imp hback fun hf =>
          ⟨hf.1.widen ⟨ns, [.wrote e₂ (e₂.free .pending)], by simp⟩, _, rfl⟩
      | ok applied =>
        refine ⟨.await _ hp₂, fun hst => ?_⟩
        rcases hq (stranded_of_same rfl rfl hst) with hst | ⟨-, err, herr⟩
        · exact .inl (hback hst)
        · cases herr

/-- Undoing a pending transaction strands a request only if its restart fails. -/
theorem undo_strands {p : Pending} {g : Registry Handle} {x : Engine} (l : Locked s e x)
    (hL : Ledger e.handles e.registry p.applied g) :
    (revertAll s p.applied).Meets s (Effect s fun _ => True) (fun ns _ e' => Strands h e ns e')
      { x with pending := none } := by
  have hc : Calm s { x with pending := none } := l.calm.of_same rfl rfl rfl rfl rfl rfl
  have hL' : Ledger x.handles x.registry p.applied g := by
    rw [l.registry, l.handles]
    exact hL
  refine Meets.mono (fun ns _ e' hstrands hst => ?_)
    (revertAll_strands (h := h) hc hL' rfl (by simp [l.held]))
  exact (hstrands hst).imp_left (stranded_of_same l.registry (congrArg Core.lives l.core))

theorem abort_strands {txn : Nat} (hr : Rest s e) :
    (handle s (.abort txn)).Meets s (Effect s fun _ => True)
      (fun ns _ e' => Strands h e ns e') e := by
  by_cases hp : ∃ p, e.pending = some p ∧ p.txn = txn
  · obtain ⟨p, hp, rfl⟩ := hp
    obtain ⟨g, hL⟩ := hr.undoable p hp
    refine locked_meets hr fun {ns x} _ l => ?_
    unfold handleLocked
    simp only [Meets, l.pending.trans hp, if_true]
    refine Meets.change .settle (Meets.bind (Meets.mono (fun ns' _ e' hstrands hst => ?_)
      (undo_strands (h := h) l hL)))
    exact (hstrands (stranded_of_same rfl rfl hst)).imp_right fun hf =>
      hf.widen ⟨ns ++ [.wrote x { x with pending := none }],
          [.wrote e' (e'.free .pending)], by simp⟩
  · exact Meets.mono (fun _ _ _ hq hst => .inl (stranded_of_core hq.2.1.core hst))
      (abort_other_unmoved hr fun p hp' htxn => hp ⟨p, hp', htxn⟩)

theorem expire_strands (hr : Rest s e) :
    (expire s).Meets s (Effect s fun _ => True) (fun ns _ e' => Strands h e ns e') e := by
  unfold expire
  refine lock_meets hr fun {ns x} _ l => Meets.look ?_
  have hback {ns} : Strands h e ns (x.free .pending) := fun hst =>
    .inl (stranded_of_core (l.free hr).1 hst)
  cases hp : e.pending with
  | none =>
    rw [l.pending.trans hp]
    exact ⟨.freed _, hback⟩
  | some p =>
    rw [l.pending.trans hp]
    by_cases hdue : p.deadline ≤ x.now
    · obtain ⟨g, hL⟩ := hr.undoable p hp
      simp only [hdue, if_true]
      refine Meets.change .settle (Meets.bind (Meets.mono (fun ns' _ e' hstrands => ?_)
        (undo_strands (h := h) l hL)))
      refine ⟨.freed _, fun hst => ?_⟩
      exact (hstrands (stranded_of_same rfl rfl hst)).imp_right fun hf =>
        hf.widen ⟨ns ++ [.wrote x { x with pending := none }],
          [.wrote e' (e'.free .pending)], by simp⟩
    · simp only [hdue, if_false]
      exact ⟨.freed _, hback⟩

/-- A call strands a request only if it undoes changes and the restart of the request fails. -/
theorem Performs.strands {c : Call} {r : Except Error Unit} (hp : Performs s c e ns r e')
    (hr : Rest s e) (hst : e'.Stranded h) :
    e.Stranded h ∨ c.Undoes r ∧ RestartFailed h ns := by
  cases c with
  | phase phase =>
    cases phase with
    | change txn cs =>
      exact ((Meets.course hp (change_strands hr)).2 hst).imp_right fun hf =>
        ⟨.inr (.inr ⟨⟨txn, cs, rfl⟩, hf.2⟩), hf.1⟩
    | done txn =>
      obtain ⟨-, -, hreg, hlives, -⟩ := Meets.course hp (done_meets (T := fun _ => True) hr)
      exact .inl (stranded_of_same hreg hlives hst)
    | abort txn =>
      exact ((Meets.course hp (abort_strands hr)).2 hst).imp_right fun hf => ⟨.inl ⟨txn, rfl⟩, hf⟩
  | expire =>
    exact ((Meets.course hp (answering_meets (expire_strands hr))).2.2 hst).imp_right fun hf =>
      ⟨.inr (.inl rfl), hf⟩
  | poll id =>
    exact .inl (stranded_of_core (Meets.course hp (pollId_meets hr id)).2.1 hst)
  | stop =>
    obtain ⟨-, -, -, hreg, -⟩ := Meets.course hp (answering_meets (shutdown_meets hr))
    rw [Stranded, Registered, hreg] at hst
    cases hst.1

end Engine

open Engine (Call Rest Registered Stranded RestartFailed InService)

variable {s : Setup} {e e' : Engine} {h : Handle} {log : List Entry}

/-- A request that is stranded was so from the start, or one of the calls failed to restart it. -/
theorem History.stranded (hist : History s e log e') (hr : Rest s e) (hst : e'.Stranded h) :
    e.Stranded h ∨ ∃ x ∈ log, x.call.Undoes x.answer ∧ RestartFailed h x.notes := by
  induction hist with
  | here => exact .inl hst
  | stir st _ ih =>
    exact (ih (hr.of_core (st.sound hr.sound) st.core) hst).imp_left
      (Engine.stranded_of_core st.core)
  | @call x e log made _ ih =>
    rcases ih (made.rest hr) hst with hst | ⟨y, hy, hf⟩
    · exact (made.strands hr hst).imp_right fun hf => ⟨x, List.mem_cons_self, hf⟩
    · exact .inr ⟨y, List.mem_cons_of_mem _ hy, hf⟩

/-- In every history of a fresh engine a request that is registered between calls is in service, or
nothing is kept for it and one of the calls, while it undid its deletion, failed to read it. -/
theorem registered_in_service {d : Datastore Event} (hist : History s (.fresh d) log e)
    (hreg : e.Registered h) :
    InService s e h ∨ (e.share h).Idle ∧
      ∃ x ∈ log, x.call.Undoes x.answer ∧ RestartFailed h x.notes := by
  have hr₀ := Engine.rest_fresh s d
  have hr := hist.rest hr₀
  by_cases hrun : e.status h = .running
  · exact .inl (hr.inService hreg hrun)
  · refine .inr ⟨(hr.sound.fit hreg).idle_of_status hrun, ?_⟩
    rcases hist.stranded hr₀ ⟨hreg, hrun⟩ with hst | hfailed
    · cases hst.1
    · exact hfailed

namespace Small

/-- A request that was created is in service. -/
theorem small_request_in_service : ∃ log e, History setup engine log e ∧
    e.Registered ⟨0, request⟩ ∧ InService setup e ⟨0, request⟩ := by
  obtain ⟨log, h, -, -⟩ := History.of_calls reachable.good.rest
    [.phase (.change 7 [creation]), .phase (.done 7)]
  have hreg : Registered (engine.runAll setup [.phase (.change 7 [creation]),
    .phase (.done 7)]).2 ⟨0, request⟩ := by decide +kernel
  refine ⟨log, _, h, hreg, (registered_in_service h hreg).resolve_right fun hidle => ?_⟩
  exact hidle.1.status (by decide +kernel)

/-- A datastore that cannot be read. -/
def mute (e : Engine) : Engine := { e with datastore := { e.datastore with failReads := true } }

/-- The deletion of a request is aborted while it cannot be read. Then it is registered and stopped,
and it has no loop. -/
theorem stranded_by_restart : ∃ e, System.Reachable setup ⟨e, none⟩ ∧
    e.Registered ⟨0, request⟩ ∧ e.status ⟨0, request⟩ = .stopped ∧ e.loops.entries = [] := by
  have hx := reachable_after reachable_established (.phase (.change 8 [deletion]))
  have hmute := hx.step (.stir (.data _ (d := (mute (after (.phase (.change 8 [deletion]))
    established)).datastore) rfl))
  exact ⟨_, reachable_after hmute (.phase (.abort 8)), by decide +kernel, by decide +kernel,
    by decide +kernel⟩

end Small

end Telemetry
