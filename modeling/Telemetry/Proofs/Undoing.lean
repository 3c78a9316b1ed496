import Telemetry.Proofs.Lifecycle

/-!
# Single changes and their undoing

A transaction keeps a list of what it did, the last change first. `Engine.Ledger` says that undoing
that list, from what is registered now, leads back to a registry.

* `Engine.create_meets`, `Engine.delete_meets`: what one change comes to.
* `Engine.revertAll_meets`: undoing leads back to the registry of the ledger, and every deleted
  request whose reads succeed runs again (`Engine.Restarted`).
-/
namespace Telemetry

/-! ## Ledgers -/

/-- The id that an applied change is about. -/
def Applied.id? : Applied → Option Nat
  | .created h | .deleted h => some h.id
  | .nothing => none

/-- The request that an applied change is about. -/
def Applied.handle? : Applied → Option Handle
  | .created h | .deleted h => some h
  | .nothing => none

/-- The request that undoing starts again. -/
def Applied.restart? : Applied → Option Handle
  | .deleted h => some h
  | _ => none

namespace Engine

open Work (Meets)

def touched (applied : List Applied) : List Nat := applied.filterMap Applied.id?

@[simp] theorem touched_created (h : Handle) (rest : List Applied) :
    touched (.created h :: rest) = h.id :: touched rest := rfl

@[simp] theorem touched_deleted (h : Handle) (rest : List Applied) :
    touched (.deleted h :: rest) = h.id :: touched rest := rfl

@[simp] theorem touched_nothing (rest : List Applied) : touched (.nothing :: rest) = touched rest :=
  rfl

/-- The requests that applied changes are about. -/
def handled (applied : List Applied) : List Handle := applied.filterMap Applied.handle?

theorem of_mem_handled {applied : List Applied} {h : Handle} (hm : h ∈ handled applied) :
    .created h ∈ applied ∨ .deleted h ∈ applied := by
  obtain ⟨a, ha, hh⟩ := List.mem_filterMap.1 hm
  cases a with
  | created =>
    cases hh
    exact .inl ha
  | deleted =>
    cases hh
    exact .inr ha
  | nothing => cases hh

theorem id_mem_touched {applied : List Applied} {h : Handle} (hm : h ∈ handled applied) :
    h.id ∈ touched applied := by
  rcases of_mem_handled hm with ha | ha
  · exact List.mem_filterMap.2 ⟨_, ha, rfl⟩
  · exact List.mem_filterMap.2 ⟨_, ha, rfl⟩

/-- Undoing changes, the first of the list first, leads from one registry to another. `made` bounds
the keys of the requests that were made. -/
def Ledger (made : Nat) : Registry Handle → List Applied → Registry Handle → Prop
  | g, [], g' => g = g'
  | g, .created h :: rest, g' =>
    g.find? h.id = some h ∧ h.id ∉ touched rest ∧ Ledger made ⟨g.entries.erase h.id⟩ rest g'
  | g, .deleted h :: rest, g' =>
    g.find? h.id = none ∧ (∀ id h', g.find? id = some h' → h'.key ≠ h.key) ∧ h.key < made ∧
      h.request.WellMade ∧ h.id ∉ touched rest ∧ Ledger made ⟨g.entries.insert h.id h⟩ rest g'
  | g, .nothing :: rest, g' => Ledger made g rest g'

theorem Ledger.mono {made made' : Nat} (hm : made ≤ made') {applied : List Applied} :
    ∀ {g g' : Registry Handle}, Ledger made g applied g' → Ledger made' g applied g' := by
  induction applied with
  | nil => exact id
  | cons a rest ih =>
    intro g g' h
    cases a with
    | created h => exact ⟨h.1, h.2.1, ih h.2.2⟩
    | deleted h =>
      obtain ⟨habsent, hkeys, hkey, hw, hid, hrest⟩ := h
      exact ⟨habsent, hkeys, Nat.lt_of_lt_of_le hkey hm, hw, hid, ih hrest⟩
    | nothing => exact ih h

/-- Undoing leads to one registry only. -/
theorem Ledger.unique {made : Nat} {applied : List Applied} : ∀ {g g₁ g₂ : Registry Handle},
    Ledger made g applied g₁ → Ledger made g applied g₂ → g₁ = g₂ := by
  induction applied with
  | nil => intro g g₁ g₂ h₁ h₂; exact Eq.trans (Eq.symm h₁) h₂
  | cons a rest ih =>
    intro g g₁ g₂ h₁ h₂
    cases a with
    | created h => exact ih h₁.2.2 h₂.2.2
    | deleted h => exact ih h₁.2.2.2.2.2 h₂.2.2.2.2.2
    | nothing => exact ih h₁ h₂

/-! ## One change -/

variable {s : Setup} {T : Handle → Prop} {e : Engine} {h : Handle}

/-- What creating a request came to. -/
inductive Created (s : Setup) (r : Request) (e : Engine) (ns : List Note) :
    Except Error Applied → Engine → Prop where
  | taken {h' : Handle} (found : e.registry.find? r.id = some h') (reads : Note.reads ns = []) :
    Created s r e ns (.error (.requestRegistered r.id)) e
  | failed {err : Error} {e' : Engine} (absent : e.registry.find? r.id = none)
    (tried : Tried r.subscriptions (Note.reads ns) (.error err))
    (registry : e'.registry = e.registry) (handles : e'.handles = e.handles + 1)
    (beside : Beside e.handles e e') : Created s r e ns (.error err) e'
  | made {readings : List Snapshot.Reading} {e' : Engine}
    (absent : e.registry.find? r.id = none)
    (tried : Tried r.subscriptions (Note.reads ns) (.ok readings))
    (registry : e'.registry = ⟨e.registry.entries.insert r.id ⟨e.handles, r⟩⟩)
    (handles : e'.handles = e.handles + 1) (beside : Beside e.handles e e')
    (running : e'.status ⟨e.handles, r⟩ = .running) :
    Created s r e ns (.ok (.created ⟨e.handles, r⟩)) e'

theorem register_eq_error {h' : Handle} (hf : e.registry.find? h.id = some h') :
    register h e = .error (.requestRegistered h.id) := by
  simp only [register, Registry.add, Registry.contains_eq, hf, Option.isSome_some, if_true]

theorem register_eq_ok (hf : e.registry.find? h.id = none) : register h e = .ok (e.reenrolled h) := by
  simp only [register, Registry.add, Registry.contains_eq, hf, Option.isSome_none,
    Bool.false_eq_true, if_false, reenrolled]

theorem forget_eq (hr : e.Registered h) : forget h e = e.withdrawn h := by
  rw [Registered] at hr
  simp only [forget, unregister, Registry.delete, hr, withdrawn]

theorem status_enrolled : (e.enrolled h).status h = .validated := by
  rw [status, life_enrolled]

theorem Calm.enrolled (hc : Calm s e) (deed : Deed s h e (e.enrolled h)) :
    Calm s (e.enrolled h) := by
  have hs₁ := deed.sound hc.sound
  refine ⟨hs₁, hc.resting.of_beside (deed.beside hc.sound) (fun h' hk hr => ?_) ?_⟩
  · rcases (registered_insert e.registry h h').1 hr with rfl | ⟨-, hr⟩
    · exact absurd rfl hk
    · exact hr
  · intro h' hk hr hrun
    have hstatus : (e.enrolled h).status h' = .validated := by
      rw [(deed.sole hc.sound).2 h' hr (Or.inl hk)]
      exact status_enrolled
    rw [hstatus] at hrun
    cases hrun

theorem Calm.withdrawn (hc : Calm s e) (deed : Deed s h e (e.withdrawn h)) :
    Calm s (e.withdrawn h) := by
  refine ⟨deed.sound hc.sound, fun h' hr => hc.resting h' ?_⟩
  simp only [Registered, Engine.withdrawn, Registry.find?_erase] at hr
  split at hr
  · cases hr
  · exact hr

theorem create_meets (hc : Calm s e) {r : Request} (hw : r.WellMade) (hp : e.pending = none)
    (ht : T ⟨e.handles, r⟩) :
    (create s r).Meets s (Effect s T) (fun ns a e' => Created s r e ns a e' ∧ Calm s e') e := by
  have born : ({ e with handles := e.handles + 1 } : Engine).setStatus ⟨e.handles, r⟩ .validated =
      e.born ⟨e.handles, r⟩ := rfl
  unfold create
  refine Meets.look ?_
  simp only [make]
  rw [born]
  cases hf : e.registry.find? r.id with
  | some h' =>
    rw [register_eq_error (e := e.born _) (h := ⟨e.handles, r⟩) hf]
    exact ⟨.taken hf rfl, hc⟩
  | none =>
    have deed : Deed s ⟨e.handles, r⟩ e (e.enrolled ⟨e.handles, r⟩) := .enroll rfl hf hw hp
    have hadd : register ⟨e.handles, r⟩ (e.born ⟨e.handles, r⟩) = .ok (e.enrolled ⟨e.handles, r⟩) :=
      register_eq_ok hf
    have hb₁ := deed.beside hc.sound
    have hr₁ : (e.enrolled ⟨e.handles, r⟩).Registered ⟨e.handles, r⟩ :=
      (Registry.find?_insert ..).trans (if_pos rfl)
    have hstatus₁ : (e.enrolled ⟨e.handles, r⟩).status ⟨e.handles, r⟩ ≠ .running := by
      rw [status_enrolled]
      decide
    rw [hadd]
    refine Meets.change (Effect.on ht deed) (Meets.bind (Meets.mono (fun ns a e₁ hq => ?_)
      (start_meets (hc.enrolled deed) hr₁ hstatus₁ ht)))
    obtain ⟨started, hc₂⟩ := hq
    obtain ⟨hb₂, hreg₂, hhandles₂⟩ := started.beside
    cases started with
    | failed tried core =>
      have hr₂ : e₁.Registered ⟨e.handles, r⟩ :=
        (registered_of_core (congrArg Core.registry core) _).2 hr₁
      have hp₂ : e₁.pending = none := hb₂.pending.trans hp
      have hstatus₂ : e₁.status ⟨e.handles, r⟩ ≠ .running := by
        rw [status, life_of_core (congrArg Core.lives core)]
        exact hstatus₁
      have deed₂ : Deed s ⟨e.handles, r⟩ e₁ (e₁.withdrawn ⟨e.handles, r⟩) :=
        .withdraw hr₂ hstatus₂ hp₂
      have hc₃ := hc₂.withdrawn deed₂
      have hb₃ := (hb₁.trans hb₂).trans (deed₂.beside hc₂.sound)
      rw [← forget_eq hr₂] at deed₂ hc₃ hb₃
      refine ⟨Effect.on ht deed₂, .failed hf (by simpa using tried) ?_ ?_ hb₃, hc₃⟩
      · rw [forget_eq hr₂]
        change (⟨e₁.registry.entries.erase r.id⟩ : Registry Handle) = _
        rw [hreg₂]
        exact Registry.erase_insert _ hf
      · rw [forget_eq hr₂]
        exact hhandles₂
    | begun tried =>
      exact ⟨.made hf (by simpa using tried) hreg₂ hhandles₂ (hb₁.trans hb₂) (status_begin _), hc₂⟩

/-- What deleting a request came to. -/
inductive Deleted (h : Handle) (e : Engine) : Except Error Applied → Engine → Prop where
  | absent {e' : Engine} (absent : e.registry.find? h.id = none) (halted : Halted h e e') :
    Deleted h e (.error (.requestUnknown h.id)) e'
  | gone {e' : Engine} (registered : e.Registered h)
    (registry : e'.registry = ⟨e.registry.entries.erase h.id⟩) (handles : e'.handles = e.handles)
    (beside : Beside h.key e e') : Deleted h e (.ok (.deleted h)) e'

theorem unregister_eq_error (hf : e.registry.find? h.id = none) :
    unregister h e = .error (.requestUnknown h.id) := by
  simp only [unregister, Registry.delete, hf]

theorem unregister_eq_ok (hr : e.Registered h) : unregister h e = .ok (e.withdrawn h) := by
  rw [Registered] at hr
  simp only [unregister, Registry.delete, hr, withdrawn]

/-- A stopped request can be withdrawn. -/
theorem Halted.withdraw {e' : Engine} (hh : Halted h e e') (hr : e.Registered h)
    (hp : e.pending = none) : Deed s h e' (e'.withdrawn h) := by
  refine .withdraw ?_ ?_ (hh.beside.pending.trans hp)
  · rw [Registered, hh.registry]
    exact hr
  · rw [hh.status]
    decide

theorem delete_meets (hc : Calm s e) (hsole : e.Sole h) (hmade : h.key < e.handles)
    (hp : e.pending = none) (ht : T h) (hheld : .poll h.key ∉ e.held) :
    (delete h).Meets s (Effect s T)
      (fun ns a e' => Note.reads ns = [] ∧ Deleted h e a e' ∧ Calm s e') e := by
  unfold delete
  refine Meets.bind (Meets.mono (fun ns _ e₁ hq => Meets.look ?_)
    (stop_meets hc hsole hmade ht hheld))
  obtain ⟨hreads, hh, hc₁⟩ := hq
  rcases hc.sound.registered_or_idle hsole with hr | ⟨hn, -⟩
  · have deed := hh.withdraw (s := s) hr hp
    have hr₁ : e₁.Registered h := by
      rw [Registered, hh.registry]
      exact hr
    rw [unregister_eq_ok hr₁]
    refine Meets.change (Effect.on ht deed) ⟨by simpa using hreads, .gone hr ?_ hh.handles ?_, ?_⟩
    · rw [← hh.registry]
      rfl
    · exact hh.beside.trans (deed.beside hc₁.sound)
    · exact hc₁.withdrawn deed
  · have hf : e.registry.find? h.id = none := by
      cases hf : e.registry.find? h.id with
      | none => rfl
      | some h' =>
        have hr := hc.sound.registered hf
        rw [hsole h' hr (Or.inr (hc.sound.proper.ids hf))] at hr
        exact absurd hr hn
    have hf₁ : e₁.registry.find? h.id = none := by rw [hh.registry, hf]
    rw [unregister_eq_error hf₁]
    exact ⟨by simpa using hreads, .absent hf hh, hc₁⟩

/-! ## Undoing one change -/

/-- What undoing a change came to. -/
inductive Reverted (s : Setup) (e : Engine) (ns : List Note) (e' : Engine) : Applied → Prop where
  | created {h : Handle} (reads : Note.reads ns = [])
    (registry : e'.registry = ⟨e.registry.entries.erase h.id⟩) (handles : e'.handles = e.handles)
    (beside : Beside h.key e e') : Reverted s e ns e' (.created h)
  | deleted {h : Handle} {r : Except Error Unit} (started : Started s h (e.reenrolled h) ns r e')
    (first : ∃ ns', ns = .wrote e (e.reenrolled h) :: ns') : Reverted s e ns e' (.deleted h)
  | nothing (reads : Note.reads ns = []) (core : e'.core = e.core) : Reverted s e ns e' .nothing

theorem Calm.reenrolled (hc : Calm s e) (deed : Deed s h e (e.reenrolled h))
    (hi : (e.share h).Idle) : Calm s (e.reenrolled h) := by
  refine ⟨deed.sound hc.sound, hc.resting.of_beside (deed.beside hc.sound) (fun h' hk hr => ?_) ?_⟩
  · rcases (registered_insert e.registry h h').1 hr with rfl | ⟨-, hr⟩
    · exact absurd rfl hk
    · exact hr
  · intro h' hk hr hrun
    rw [(deed.sole hc.sound).2 h' hr (Or.inl hk)] at hrun
    exact absurd hrun hi.status

theorem revert_meets {a : Applied} {rest : List Applied} {g : Registry Handle} (hc : Calm s e)
    (hL : Ledger e.handles e.registry (a :: rest) g) (hp : e.pending = none)
    (ht : ∀ h, a.handle? = some h → T h) (hheld : ∀ k, .poll k ∉ e.held) :
    (revert s a).Meets s (Effect s T) (fun ns _ e' => Reverted s e ns e' a ∧ Calm s e' ∧
      Ledger e'.handles e'.registry rest g ∧ e'.pending = none ∧ e'.held = e.held ∧
      e'.handles = e.handles) e := by
  unfold revert
  cases a with
  | created h =>
    obtain ⟨hr, -, hL⟩ := hL
    refine Meets.bind (Meets.mono (fun ns _ e₁ hq => ?_) (stop_meets hc (hc.sound.sole hr)
      (hc.sound.proper.made hr) (ht h rfl) (hheld _)))
    obtain ⟨hreads, hh, hc₁⟩ := hq
    have deed := hh.withdraw (s := s) hr hp
    have hr₁ : e₁.Registered h := by
      rw [Registered, hh.registry]
      exact hr
    have hb := hh.beside.trans (deed.beside hc₁.sound)
    have hc₂ := hc₁.withdrawn deed
    have hreg : (e₁.withdrawn h).registry = ⟨e.registry.entries.erase h.id⟩ := by
      rw [← hh.registry]
      rfl
    rw [← forget_eq hr₁] at deed hb hc₂ hreg
    have hhandles : (forget h e₁).handles = e.handles := by
      rw [forget_eq hr₁]
      exact hh.handles
    refine ⟨Effect.on (ht h rfl) deed, .created (by simpa using hreads) hreg hhandles hb, hc₂, ?_,
      hb.pending.trans hp, hb.held, hhandles⟩
    rw [hreg, hhandles]
    exact hL
  | deleted h =>
    obtain ⟨habsent, hkeys, hkey, hw, -, hL⟩ := hL
    have unused (h' : Handle) (hr : e.Registered h') : h'.key ≠ h.key := hkeys _ _ hr
    have deed : Deed s h e (e.reenrolled h) := .reenroll habsent unused hkey hw hp
    have hi := hc.sound.idle_of_absent habsent unused
    have hr₁ : (e.reenrolled h).Registered h := (Registry.find?_insert ..).trans (if_pos rfl)
    refine Meets.look ?_
    rw [register_eq_ok habsent]
    refine Meets.change (Effect.on (ht h rfl) deed) (Meets.bind (Meets.mono (fun ns r e₁ hq => ?_)
      (start_meets (hc.reenrolled deed hi) hr₁ hi.status (ht h rfl))))
    obtain ⟨started, hc₁⟩ := hq
    obtain ⟨hb, hreg, hhandles⟩ := started.beside
    refine ⟨.deleted (started.mono (by simp) fun n hn => by simp [hn]) ⟨_, rfl⟩, hc₁, ?_,
      hb.pending.trans hp, hb.held, hhandles⟩
    rw [hreg, hhandles]
    exact hL
  | nothing => exact ⟨.nothing rfl rfl, hc, hL, hp, rfl, rfl⟩

/-! ## Undoing all changes -/

/-- A request was started with readings. It runs, and its leaves are those that were read, up to
what its own samples did since. -/
structure Restarted (s : Setup) (h : Handle) (readings : List Snapshot.Reading) (ns : List Note)
    (e' : Engine) : Prop where
  running : e'.status h = .running
  start : ∃ x, .wrote x (begin s h readings x) ∈ ns ∧
    (∀ reading ∈ readings, (begin s h readings x).cache.bucket h.id reading.1 =
      reading.2.map fun _ v => ⟨v, x.now⟩) ∧
    (¬Note.Ticked h.key ns → e'.cache.bucket h.id = (begin s h readings x).cache.bucket h.id)

/-- A request that undoing tried to start again: the reads of that, and what they came to. -/
structure Try where
  handle : Handle
  reads : List (String × Except Error Leaves)
  out : Except Error (List Snapshot.Reading)

structure Try.Came (s : Setup) (ns : List Note) (e' : Engine) (t : Try) : Prop where
  tried : Tried t.handle.request.subscriptions t.reads t.out
  restarted : ∀ readings, t.out = .ok readings → Restarted s t.handle readings ns e'

/-- The deleted requests among those changes were tried in order, with the reads noted. -/
def Retried (s : Setup) (applied : List Applied) (ns : List Note) (e' : Engine) : Prop :=
  ∃ tries : List Try, tries.map (·.handle) = applied.filterMap Applied.restart? ∧
    Note.reads ns = tries.flatMap (·.reads) ∧ ∀ t ∈ tries, t.Came s ns e'

theorem Started.came {ns : List Note} {r : Except Error Unit} {e' : Engine}
    (st : Started s h e ns r e') (hw : h.request.WellMade) :
    ∃ t : Try, t.handle = h ∧ t.reads = Note.reads ns ∧ t.Came s ns e' := by
  cases st with
  | @failed err _ tried =>
    exact ⟨⟨h, Note.reads ns, .error err⟩, rfl, rfl, tried, fun _ hok => by cases hok⟩
  | @begun readings x tried _ idle wrote =>
    refine ⟨⟨h, Note.reads ns, .ok readings⟩, rfl, rfl, tried, fun readings' hok => ?_⟩
    cases hok
    exact ⟨status_begin _, x, wrote, fun _ hm => bucket_begin idle hw tried.of_ok.1 hm,
      fun _ => rfl⟩

/-- What was started stays so while others are touched. -/
theorem Restarted.later {readings : List Snapshot.Reading} {ns ns' : List Note} {e e' : Engine}
    (hr : Restarted s h readings ns e) (u : Untouched h ns' e e') :
    Restarted s h readings (ns ++ ns') e' where
  running := by
    rw [Engine.status, u.life]
    exact hr.running
  start := by
    obtain ⟨x, hwrote, hleaves, hkept⟩ := hr.start
    refine ⟨x, List.mem_append_left _ hwrote, hleaves, fun hno => ?_⟩
    rw [Note.ticked_append, not_or] at hno
    exact (u.leaves hno.2).trans (hkept hno.1)

theorem Restarted.prepend {readings : List Snapshot.Reading} {ns ns' : List Note} {e' : Engine}
    (hr : Restarted s h readings ns' e') : Restarted s h readings (ns ++ ns') e' where
  running := hr.running
  start := by
    obtain ⟨x, hwrote, hleaves, hkept⟩ := hr.start
    exact ⟨x, List.mem_append_right _ hwrote, hleaves, fun hno =>
      hkept fun ht => hno (Note.ticked_append.2 (Or.inr ht))⟩

theorem Retried.prepend {applied : List Applied} {ns ns' : List Note} {e' : Engine}
    (hr : Retried s applied ns' e') (hreads : Note.reads ns = []) :
    Retried s applied (ns ++ ns') e' := by
  obtain ⟨tries, hhandles, hrs, hcame⟩ := hr
  refine ⟨tries, hhandles, by rw [Note.reads_append, hreads, hrs]; rfl, fun t ht => ?_⟩
  exact ⟨(hcame t ht).tried, fun readings hok => ((hcame t ht).restarted readings hok).prepend⟩

theorem revertAll_meets {applied : List Applied} {g : Registry Handle} (hc : Calm s e)
    (hL : Ledger e.handles e.registry applied g) (hp : e.pending = none)
    (hheld : ∀ k, .poll k ∉ e.held) :
    (revertAll s applied).Meets s (Effect s (· ∈ handled applied))
      (fun ns _ e' => Retried s applied ns e' ∧ Calm s e' ∧ e'.registry = g ∧ e'.pending = none ∧
        e'.held = e.held ∧ e'.handles = e.handles) e := by
  induction applied generalizing e with
  | nil => exact ⟨⟨[], rfl, rfl, fun t ht => by cases ht⟩, hc, hL, hp, rfl, rfl⟩
  | cons a rest ih =>
    have hhead (h : Handle) (hh : a.handle? = some h) : h ∈ handled (a :: rest) :=
      List.mem_filterMap.2 ⟨a, .head _, hh⟩
    have htail (h : Handle) (hm : h ∈ handled rest) : h ∈ handled (a :: rest) := by
      obtain ⟨b, hb, hh⟩ := List.mem_filterMap.1 hm
      exact List.mem_filterMap.2 ⟨b, .tail _ hb, hh⟩
    refine Meets.bind (Meets.mono (fun ns _ e₁ hq => ?_) (revert_meets hc hL hp hhead hheld))
    obtain ⟨hrev, hc₁, hL₁, hp₁, hheld₁, hhandles₁⟩ := hq
    have hrest := ih hc₁ hL₁ hp₁ (by rw [hheld₁]; exact hheld)
    have widen {Q : List Note → Unit → Engine → Prop}
        (hw : (revertAll s rest).Meets s (Effect s (· ∈ handled rest)) Q e₁) :
        (revertAll s rest).Meets s (Effect s (· ∈ handled (a :: rest))) Q e₁ :=
      Meets.weaken (fun x y hf => hf.mono htail) hw
    cases hrev with
    | created hreads =>
      refine widen (Meets.mono (fun ns' _ e₂ hq => ?_) hrest)
      obtain ⟨hretried, hc₂, hreg₂, hp₂, hheld₂, hhandles₂⟩ := hq
      exact ⟨hretried.prepend hreads, hc₂, hreg₂, hp₂, hheld₂.trans hheld₁,
        hhandles₂.trans hhandles₁⟩
    | nothing hreads =>
      refine widen (Meets.mono (fun ns' _ e₂ hq => ?_) hrest)
      obtain ⟨hretried, hc₂, hreg₂, hp₂, hheld₂, hhandles₂⟩ := hq
      exact ⟨hretried.prepend hreads, hc₂, hreg₂, hp₂, hheld₂.trans hheld₁,
        hhandles₂.trans hhandles₁⟩
    | @deleted h r started =>
      obtain ⟨-, -, -, hw, hid, -⟩ := hL
      have hr₁ : e₁.Registered h := by
        rw [Registered, started.beside.2.1]
        exact (Registry.find?_insert ..).trans (if_pos rfl)
      have hno (h' : Handle) (hm : h' ∈ handled rest) : h'.id ≠ h.id := fun heq =>
        hid (heq ▸ id_mem_touched hm)
      refine widen (Meets.mono (fun ns' _ e₂ hq => ?_) (untouched_meets hc₁ hr₁ hno hrest))
      obtain ⟨⟨hretried, hc₂, hreg₂, hp₂, hheld₂, hhandles₂⟩, u⟩ := hq
      refine ⟨?_, hc₂, hreg₂, hp₂, hheld₂.trans hheld₁, hhandles₂.trans hhandles₁⟩
      obtain ⟨t, hhandle, hreads, hcame⟩ := started.came hw
      obtain ⟨tries, hhandles, hrs, hcames⟩ := hretried
      refine ⟨t :: tries, ?_, ?_, fun t' ht' => ?_⟩
      · rw [List.map_cons, hhandles, hhandle]
        rfl
      · rw [Note.reads_append, hrs, List.flatMap_cons, hreads]
      · rcases List.mem_cons.1 ht' with rfl | ht'
        · subst hhandle
          exact ⟨hcame.tried, fun readings hok => (hcame.restarted readings hok).later u⟩
        · exact ⟨(hcames t' ht').tried, fun readings hok =>
            ((hcames t' ht').restarted readings hok).prepend⟩

end Engine

end Telemetry
