import Telemetry.Proofs.Undoing

/-!
# Making the changes of a plan

`Engine.Advanced` says how applied changes led from a registry to an engine, and holds the ledger for
undoing them. It holds after every change that is made, whatever loops and data do meanwhile.

* `Engine.apply_meets`: one planned change is made, or nothing was changed.
* `Engine.applyAll_meets`: the changes of a plan are all made, or the registry is what it was.
-/
namespace Telemetry.Engine

open Work (Meets)

variable {s : Setup} {T : Handle → Prop} {e : Engine} {h : Handle}

/-! ## One change -/

namespace Planned

/-- The id that a planned change is about. -/
def id? : Planned → Option Nat
  | .create r => some r.id
  | .delete h => some h.id
  | .nothing => none

/-- The paths that a planned change reads. -/
def paths : Planned → List String
  | .create r => r.subscriptions.map (·.path)
  | _ => []

/-- What checks have found out about a change before anything was changed. -/
inductive Valid (g : Registry Handle) : Planned → Prop where
  | create {r : Request} (absent : g.find? r.id = none) (wellMade : r.WellMade) :
    Valid g (.create r)
  | delete {h : Handle} (registered : g.find? h.id = some h) : Valid g (.delete h)
  | nothing : Valid g .nothing

/-- What was done was planned. -/
inductive Done : Planned → Applied → Prop where
  | create (key : Nat) (r : Request) : Done (.create r) (.created ⟨key, r⟩)
  | delete (h : Handle) : Done (.delete h) (.deleted h)
  | nothing : Done .nothing .nothing

theorem Done.id?_eq {p : Planned} {a : Applied} (hd : p.Done a) : a.id? = p.id? := by
  cases hd <;> rfl

end Planned

/-- Applied changes led from a registry, and from so many requests made, to an engine. -/
structure Advanced (g : Registry Handle) (made : Nat) (applied : List Applied) (e : Engine) :
    Prop where
  handles : made ≤ e.handles
  same : ∀ {id}, id ∉ touched applied → e.registry.find? id = g.find? id
  created : ∀ {h}, .created h ∈ applied →
    e.Registered h ∧ e.status h = .running ∧ g.find? h.id = none ∧ made ≤ h.key
  deleted : ∀ {h}, .deleted h ∈ applied →
    e.registry.find? h.id = none ∧ g.find? h.id = some h
  ledger : Ledger e.handles e.registry applied g

theorem mem_touched {applied : List Applied} {id : Nat} (hm : id ∈ touched applied) :
    ∃ h, h.id = id ∧ (.created h ∈ applied ∨ .deleted h ∈ applied) := by
  obtain ⟨a, ha, hid⟩ := List.mem_filterMap.1 hm
  cases a with
  | created h => exact ⟨h, Option.some.inj hid, Or.inl ha⟩
  | deleted h => exact ⟨h, Option.some.inj hid, Or.inr ha⟩
  | nothing => cases hid

namespace Advanced

variable {g : Registry Handle} {made : Nat} {applied : List Applied}

/-- Every registered request was registered at first, or was made since. -/
theorem origin (ha : Advanced g made applied e) {h : Handle} (hr : e.Registered h) :
    g.find? h.id = some h ∨ g.find? h.id = none ∧ made ≤ h.key := by
  by_cases hm : h.id ∈ touched applied
  · obtain ⟨h', hid, hc | hd⟩ := mem_touched hm
    · obtain ⟨hr', -, hnone, hkey⟩ := ha.created hc
      rw [Registered, hid, hr] at hr'
      cases hr'
      exact Or.inr ⟨hnone, hkey⟩
    · have hnone := (ha.deleted hd).1
      rw [hid, hr] at hnone
      cases hnone
  · rw [← ha.same hm]
    exact Or.inl hr

/-- A request that was registered at first is the only one with its key and its id. -/
theorem sole (ha : Advanced g made applied e) (hg : g.Proper made) {h : Handle}
    (hr : g.find? h.id = some h) : e.Sole h := by
  intro h' hr' hk
  rcases ha.origin hr' with hg' | ⟨hnone, hkey⟩
  · rcases hk with hk | hid
    · exact hg.keys hg' hr hk
    · rw [hid, hr] at hg'
      exact (Option.some.inj hg').symm
  · have hmade := hg.made hr
    rcases hk with hk | hid
    · omega
    · rw [hid, hr] at hnone
      cases hnone

/-- A change to a request that was registered at first, or to one with its id, is its deletion. -/
theorem eq_of_registered (ha : Advanced g made applied e) {h h' : Handle}
    (hr : g.find? h.id = some h) (hid : h'.id = h.id)
    (hm : .created h' ∈ applied ∨ .deleted h' ∈ applied) :
    h' = h ∧ e.registry.find? h.id = none := by
  rcases hm with hc | hd
  · have hnone := (ha.created hc).2.2.1
    rw [hid, hr] at hnone
    cases hnone
  · obtain ⟨hnone, hsome⟩ := ha.deleted hd
    rw [hid] at hnone hsome
    rw [hr] at hsome
    exact ⟨(Option.some.inj hsome).symm, hnone⟩

/-- The ids that were touched are those whose registration has changed. -/
theorem touched_iff (ha : Advanced g made applied e) {id : Nat} :
    id ∈ touched applied ↔ e.registry.find? id ≠ g.find? id := by
  constructor
  · intro hm
    obtain ⟨h, rfl, hc | hd⟩ := mem_touched hm
    · obtain ⟨hr, -, hnone, -⟩ := ha.created hc
      rw [show e.registry.find? h.id = some h from hr, hnone]
      exact Option.some_ne_none h
    · obtain ⟨hnone, hr⟩ := ha.deleted hd
      rw [hnone, hr]
      exact (Option.some_ne_none h).symm
  · intro hne
    by_cases hm : id ∈ touched applied
    · exact hm
    · exact absurd (ha.same hm) hne

theorem nothing (ha : Advanced g made applied e) : Advanced g made (.nothing :: applied) e where
  handles := ha.handles
  same := ha.same
  created hm := by
    rcases List.mem_cons.1 hm with heq | hm
    · cases heq
    · exact ha.created hm
  deleted hm := by
    rcases List.mem_cons.1 hm with heq | hm
    · cases heq
    · exact ha.deleted hm
  ledger := ha.ledger

theorem create (ha : Advanced g made applied e) (hs : Sound s e) {r : Request} {e' : Engine}
    (hg : g.find? r.id = none) (absent : e.registry.find? r.id = none)
    (registry : e'.registry = ⟨e.registry.entries.insert r.id ⟨e.handles, r⟩⟩)
    (handles : e'.handles = e.handles + 1) (beside : Beside e.handles e e')
    (running : e'.status ⟨e.handles, r⟩ = .running) :
    Advanced g made (.created ⟨e.handles, r⟩ :: applied) e' where
  handles := by
    rw [handles]
    exact Nat.le_succ_of_le ha.handles
  same {id} hm := by
    rw [touched_created, List.mem_cons, not_or] at hm
    obtain ⟨hid : id ≠ r.id, hm⟩ := hm
    rw [registry, Registry.find?_insert, if_neg hid, ha.same hm]
  created {h} hm := by
    rcases List.mem_cons.1 hm with heq | hm
    · cases heq
      refine ⟨?_, running, hg, ha.handles⟩
      rw [Registered, registry]
      exact (Registry.find?_insert ..).trans (if_pos rfl)
    · obtain ⟨hr, hrun, hnone, hkey⟩ := ha.created hm
      have hid : h.id ≠ r.id := fun hid => by
        rw [Registered, hid, absent] at hr
        cases hr
      have hk : h.key ≠ e.handles := Nat.ne_of_lt (hs.proper.made hr)
      refine ⟨?_, ?_, hnone, hkey⟩
      · rw [Registered, registry, Registry.find?_insert, if_neg hid]
        exact hr
      · rw [status, beside.life hk]
        exact hrun
  deleted {h} hm := by
    rcases List.mem_cons.1 hm with heq | hm
    · cases heq
    · obtain ⟨hnone, hr⟩ := ha.deleted hm
      have hid : h.id ≠ r.id := fun hid => by
        rw [hid, hg] at hr
        cases hr
      rw [registry, Registry.find?_insert, if_neg hid]
      exact ⟨hnone, hr⟩
  ledger := by
    refine ⟨?_, fun hm => ha.touched_iff.1 hm (absent.trans hg.symm), ?_⟩
    · rw [registry]
      exact (Registry.find?_insert ..).trans (if_pos rfl)
    · change Ledger _ ⟨e'.registry.entries.erase r.id⟩ applied g
      rw [registry, Registry.erase_insert _ absent, handles]
      exact ha.ledger.mono (Nat.le_succ _)

theorem delete (ha : Advanced g made applied e) (hs : Sound s e) (hgp : g.Proper made)
    {e' : Engine} {h : Handle} (hg : g.find? h.id = some h) (hr : e.Registered h)
    (registry : e'.registry = ⟨e.registry.entries.erase h.id⟩) (handles : e'.handles = e.handles)
    (beside : Beside h.key e e') : Advanced g made (.deleted h :: applied) e' where
  handles := by
    rw [handles]
    exact ha.handles
  same {id} hm := by
    rw [touched_deleted, List.mem_cons, not_or] at hm
    rw [registry, Registry.find?_erase, if_neg hm.1, ha.same hm.2]
  created {h'} hm := by
    rcases List.mem_cons.1 hm with heq | hm
    · cases heq
    · obtain ⟨hr', hrun, hnone, hkey⟩ := ha.created hm
      have hid : h'.id ≠ h.id := fun hid => by
        rw [hid, hg] at hnone
        cases hnone
      have hk : h'.key ≠ h.key := by
        have := hgp.made hg
        omega
      refine ⟨?_, ?_, hnone, hkey⟩
      · rw [Registered, registry, Registry.find?_erase, if_neg hid]
        exact hr'
      · rw [status, beside.life hk]
        exact hrun
  deleted {h'} hm := by
    rw [registry, Registry.find?_erase]
    rcases List.mem_cons.1 hm with heq | hm
    · cases heq
      exact ⟨if_pos rfl, hg⟩
    · obtain ⟨hnone, hr'⟩ := ha.deleted hm
      exact ⟨by rw [hnone, ite_self], hr'⟩
  ledger := by
    refine ⟨?_, fun id h' hf hk => ?_, ?_, hgp.wellMade hg,
      fun hm => ha.touched_iff.1 hm (hr.trans hg.symm), ?_⟩
    · rw [registry, Registry.find?_erase, if_pos rfl]
    · rw [registry, Registry.find?_erase] at hf
      split at hf
      · cases hf
      · next hid =>
        obtain rfl := hs.proper.ids hf
        exact hid (congrArg Handle.id (ha.sole hgp hg h' hf (Or.inl hk)))
    · rw [handles]
      exact Nat.lt_of_lt_of_le (hgp.made hg) ha.handles
    · rw [registry, Registry.insert_erase hr, handles]
      exact ha.ledger

end Advanced

/-- What making one change came to. If it was not made, either its id was used before or a read
failed. -/
inductive Attempted (g : Registry Handle) (made : Nat) (before : List Applied) (p : Planned)
    (ns : List Note) (e' : Engine) : Except Error Applied → Prop where
  | done {a : Applied} (done : p.Done a) (advanced : Advanced g made (a :: before) e')
    (fresh : ∀ id, p.id? = some id → id ∉ touched before)
    (read : AllRead p.paths (Note.reads ns)) : Attempted g made before p ns e' (.ok a)
  | failed {err : Error} (ledger : Ledger e'.handles e'.registry before g)
    (cause : (∃ id, p.id? = some id ∧ id ∈ touched before) ∨ ReadFailed (Note.reads ns)) :
    Attempted g made before p ns e' (.error err)

theorem apply_meets {g : Registry Handle} {made : Nat} {before : List Applied} {p : Planned}
    (hc : Calm s e) (ha : Advanced g made before e) (hg : g.Proper made) (hv : p.Valid g)
    (hp : e.pending = none) (hheld : ∀ k, .poll k ∉ e.held)
    (ht : ∀ h, p.id? = some h.id → T h) :
    (apply s p).Meets s (Effect s T) (fun ns r e' => Attempted g made before p ns e' r ∧
      Calm s e' ∧ e'.pending = none ∧ e'.held = e.held) e := by
  unfold apply
  cases hv with
  | @create r absent wellMade =>
    refine Meets.mono (fun ns r' e' hq => ?_) (create_meets hc wellMade hp (ht _ rfl))
    obtain ⟨hcreated, hc'⟩ := hq
    cases hcreated with
    | taken found reads =>
      refine ⟨.failed ha.ledger (Or.inl ⟨_, rfl, ha.touched_iff.2 ?_⟩), hc', hp, rfl⟩
      rw [found, absent]
      exact Option.some_ne_none _
    | failed absent' tried registry handles beside =>
      refine ⟨.failed ?_ (Or.inr tried.of_error), hc', beside.pending.trans hp, beside.held⟩
      rw [registry, handles]
      exact ha.ledger.mono (Nat.le_succ _)
    | made absent' tried registry handles beside running =>
      refine ⟨.done (.create _ _) (ha.create hc.sound absent absent' registry handles beside running)
        (fun id hid hm => ?_) tried.of_ok.2, hc', beside.pending.trans hp, beside.held⟩
      cases hid
      exact ha.touched_iff.1 hm (absent'.trans absent.symm)
  | @delete h registered =>
    have hmade := Nat.lt_of_lt_of_le (hg.made registered) ha.handles
    refine Meets.mono (fun ns r' e' hq => ?_) (delete_meets hc (ha.sole hg registered) hmade hp
      (ht _ rfl) (hheld _))
    obtain ⟨hreads, hdeleted, hc'⟩ := hq
    cases hdeleted with
    | absent absent halted =>
      refine ⟨.failed ?_ (Or.inl ⟨_, rfl, ha.touched_iff.2 ?_⟩), hc',
        halted.beside.pending.trans hp, halted.beside.held⟩
      · rw [halted.registry, halted.handles]
        exact ha.ledger
      · rw [absent, registered]
        exact (Option.some_ne_none h).symm
    | gone hr registry handles beside =>
      refine ⟨.done (.delete _) (ha.delete hc.sound hg registered hr registry handles beside)
        (fun id hid hm => ?_) (hreads ▸ .nil), hc', beside.pending.trans hp, beside.held⟩
      cases hid
      exact ha.touched_iff.1 hm (hr.trans registered.symm)
  | nothing =>
    refine ⟨.done .nothing ⟨ha.handles, ha.same, fun hm => ?_, fun hm => ?_, ha.ledger⟩
      (fun _ hid => by cases hid) .nil, hc, hp, rfl⟩
    · rcases List.mem_cons.1 hm with heq | hm
      · cases heq
      · exact ha.created hm
    · rcases List.mem_cons.1 hm with heq | hm
      · cases heq
      · exact ha.deleted hm

/-! ## All changes -/

/-- The ids that planned changes are about. -/
def planned (ps : List Planned) : List Nat := ps.filterMap Planned.id?

@[simp] theorem planned_create (r : Request) (ps : List Planned) :
    planned (.create r :: ps) = r.id :: planned ps := rfl

@[simp] theorem planned_delete (h : Handle) (ps : List Planned) :
    planned (.delete h :: ps) = h.id :: planned ps := rfl

@[simp] theorem planned_nothing (ps : List Planned) : planned (.nothing :: ps) = planned ps := rfl

/-- Making a change moves its id from what is planned to what was touched. -/
theorem mem_touched_or_planned {before : List Applied} {p : Planned} {a : Applied}
    {ps : List Planned} (hd : p.Done a) {id : Nat} :
    id ∈ touched (a :: before) ∨ id ∈ planned ps ↔
      id ∈ touched before ∨ id ∈ planned (p :: ps) := by
  cases hd with
  | create key r =>
    rw [touched_created, planned_create, List.mem_cons, List.mem_cons,
      show (⟨key, r⟩ : Handle).id = r.id from rfl]
    grind
  | delete h =>
    rw [touched_deleted, planned_delete, List.mem_cons, List.mem_cons]
    grind
  | nothing => exact Iff.rfl

/-- No id is planned twice or was used before. -/
structure Fresh (before : List Applied) (ps : List Planned) : Prop where
  distinct : (planned ps).Nodup
  unused : ∀ id ∈ planned ps, id ∉ touched before

theorem fresh_cons {before : List Applied} {p : Planned} {a : Applied} {ps : List Planned}
    (hd : p.Done a) : Fresh before (p :: ps) ↔
      (∀ id, p.id? = some id → id ∉ touched before) ∧ Fresh (a :: before) ps := by
  have hid := hd.id?_eq
  cases hp : p.id? with
  | none =>
    have hplanned : planned (p :: ps) = planned ps := List.filterMap_cons_none hp
    have htouched : touched (a :: before) = touched before :=
      List.filterMap_cons_none (hid.trans hp)
    constructor
    · intro hf
      refine ⟨fun id h => (by cases h), hplanned ▸ hf.distinct, ?_⟩
      rw [htouched, ← hplanned]
      exact hf.unused
    · rintro ⟨-, hf⟩
      refine ⟨hplanned ▸ hf.distinct, ?_⟩
      rw [hplanned, ← htouched]
      exact hf.unused
  | some id =>
    have hplanned : planned (p :: ps) = id :: planned ps := List.filterMap_cons_some hp
    have htouched : touched (a :: before) = id :: touched before :=
      List.filterMap_cons_some (hid.trans hp)
    constructor
    · intro hf
      have hdistinct := hf.distinct
      have hunused := hf.unused
      rw [hplanned] at hdistinct hunused
      obtain ⟨hnot, hrest⟩ := List.nodup_cons.1 hdistinct
      refine ⟨fun id' h => ?_, hrest, fun id' hm => ?_⟩
      · cases h
        exact hunused _ List.mem_cons_self
      · rw [htouched, List.mem_cons, not_or]
        exact ⟨fun heq => hnot (heq ▸ hm), hunused id' (List.mem_cons_of_mem _ hm)⟩
    · rintro ⟨hnew, hf⟩
      have hunused := hf.unused
      rw [htouched] at hunused
      refine ⟨?_, ?_⟩
      · rw [hplanned]
        exact List.nodup_cons.2 ⟨fun hm => hunused id hm List.mem_cons_self, hf.distinct⟩
      · rw [hplanned]
        intro id' hm
        rcases List.mem_cons.1 hm with rfl | hm
        · exact hnew _ rfl
        · exact fun hb => hunused id' hm (List.mem_cons_of_mem _ hb)

/-- The changes of a plan were made in order, after others. -/
inductive Performed : List Applied → List Planned → List Applied → Prop where
  | nil (before : List Applied) : Performed before [] before
  | cons {before after : List Applied} {p : Planned} {a : Applied} {ps : List Planned}
    (done : p.Done a) (rest : Performed (a :: before) ps after) : Performed before (p :: ps) after

/-- What making the changes of a plan came to: all were made, or what was made is undone. -/
inductive Carried (g : Registry Handle) (made : Nat) (before : List Applied) (ps : List Planned)
    (ns : List Note) (e' : Engine) : Except Error (List Applied) → Prop where
  | done {applied : List Applied} (performed : Performed before ps applied)
    (advanced : Advanced g made applied e') (fresh : Fresh before ps)
    (read : AllRead (ps.flatMap (·.paths)) (Note.reads ns)) :
    Carried g made before ps ns e' (.ok applied)
  | undone {err : Error} (registry : e'.registry = g)
    (cause : ¬Fresh before ps ∨ ReadFailed (Note.reads ns)) :
    Carried g made before ps ns e' (.error err)

theorem applyAll_meets {g : Registry Handle} {made : Nat} {before : List Applied}
    {ps : List Planned} (hc : Calm s e) (ha : Advanced g made before e) (hg : g.Proper made)
    (hv : ∀ p ∈ ps, p.Valid g) (hp : e.pending = none) (hheld : ∀ k, .poll k ∉ e.held)
    (ht : ∀ h, h.id ∈ touched before ∨ h.id ∈ planned ps → T h) :
    (applyAll s before ps).Meets s (Effect s T) (fun ns r e' => Carried g made before ps ns e' r ∧
      Calm s e' ∧ e'.pending = none ∧ e'.held = e.held) e := by
  induction ps generalizing before e with
  | nil =>
    exact ⟨.done (.nil _) ha ⟨.nil, fun _ hm => by cases hm⟩ .nil, hc, hp, rfl⟩
  | cons p ps ih =>
    have hhead (h : Handle) (hid : p.id? = some h.id) : T h :=
      ht h (Or.inr (by simp [planned, hid]))
    refine Meets.bind (Meets.mono (fun ns r e₁ hq => ?_) (apply_meets hc ha hg
      (hv p List.mem_cons_self) hp hheld hhead))
    obtain ⟨hattempted, hc₁, hp₁, hheld₁⟩ := hq
    have hheld₁' : ∀ k, .poll k ∉ e₁.held := by
      rw [hheld₁]
      exact hheld
    cases hattempted with
    | failed ledger cause =>
      refine Meets.bind (Meets.mono (fun ns' _ e₂ hq => ?_) (Meets.weaken
        (fun x y hf => hf.mono fun h hm => ht h (Or.inl (id_mem_touched hm)))
        (revertAll_meets hc₁ ledger hp₁ hheld₁')))
      obtain ⟨-, hc₂, hreg₂, hp₂, hheld₂, -⟩ := hq
      refine ⟨.undone hreg₂ ?_, hc₂, hp₂, hheld₂.trans hheld₁⟩
      rcases cause with ⟨id, hid, hm⟩ | hread
      · refine Or.inl fun hf => hf.unused id ?_ hm
        simp [planned, hid]
      · refine Or.inr ?_
        rw [Note.reads_append]
        exact hread.append_left
    | @done a done advanced fresh read =>
      have htail (h : Handle) (hm : h.id ∈ touched (a :: before) ∨ h.id ∈ planned ps) : T h :=
        ht h ((mem_touched_or_planned done).1 hm)
      refine Meets.mono (fun ns' r' e₂ hq => ?_) (ih hc₁ advanced
        (fun p' hm => hv p' (List.mem_cons_of_mem _ hm)) hp₁ hheld₁' htail)
      obtain ⟨hcarried, hc₂, hp₂, hheld₂⟩ := hq
      refine ⟨?_, hc₂, hp₂, hheld₂.trans hheld₁⟩
      cases hcarried with
      | done performed advanced' fresh' read' =>
        refine .done (.cons done performed) advanced' ((fresh_cons done).2 ⟨fresh, fresh'⟩) ?_
        rw [Note.reads_append, List.flatMap_cons]
        exact read.append read'
      | undone registry cause =>
        refine .undone registry ?_
        rcases cause with hnot | hread
        · exact Or.inl fun hf => hnot ((fresh_cons done).1 hf).2
        · refine Or.inr ?_
          rw [Note.reads_append]
          exact hread.append_right

end Telemetry.Engine
