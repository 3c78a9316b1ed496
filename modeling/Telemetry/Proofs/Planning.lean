import Mathlib.Data.List.Forall2
import Telemetry.Proofs.Acceptance
import Telemetry.Proofs.Transactions

/-!
# Which transactions are acceptable

`Engine.Acceptable` says in terms of paths, kinds and payloads which lists of changes an engine
takes on: every change can be routed, what is created is new and valid, what is deleted is there,
and nothing is created or deleted twice. `Engine.planChanges_eq_ok` ties that to the plan that is
made of such a list.
-/
namespace Telemetry

/-! ## Requests from payloads -/

namespace Request

/-- A parsed request has the id it was parsed for, and is well made. -/
theorem of_parse {id least : Nat} {payload : Json} {r : Request}
    (h : parse id payload least = .ok r) : r.id = id ∧ r.WellMade := by
  obtain ⟨_, -, hr, hne, hnodup⟩ := parse_eq_ok.1 h
  exact ⟨hr.id, hne, hnodup⟩

end Request

/-! ## Acceptable changes -/

namespace Change

variable (m : String)

/-- What a change is about. -/
def target (c : Change) : Target := Target.ofPath m c.path

/-- A whole request is created or deleted. -/
def IsWhole (c : Change) (id : Nat) : Prop := c.target m = .request id ∧ c.kind ≠ .modified

def Creates (c : Change) (id : Nat) : Prop := c.target m = .request id ∧ c.kind = .created

def Deletes (c : Change) (id : Nat) : Prop := c.target m = .request id ∧ c.kind = .deleted

/-- Whether a server has a place for a change in a transaction: whole requests and their container
can be created and deleted; a node inside a request changes only together with the whole; anything
else can only be deleted. -/
def Routable (cs : List Change) (c : Change) : Prop :=
  match c.target m with
  | .request _ | .container => c.kind ≠ .modified
  | .nested id => c.kind ≠ .modified ∧ ∃ c' ∈ cs, c'.IsWhole m id
  | .other => c.kind = .deleted

def created? (c : Change) : Option Nat :=
  match c.target m, c.kind with
  | .request id, .created => some id
  | _, _ => none

def deleted? (c : Change) : Option Nat :=
  match c.target m, c.kind with
  | .request id, .deleted => some id
  | _, _ => none

/-- The ids that changes create, in order. -/
def created (cs : List Change) : List Nat := cs.filterMap (created? m)

/-- The ids that changes delete, in order. -/
def deleted (cs : List Change) : List Nat := cs.filterMap (deleted? m)

/-- The request that a change creates, if its data are those of one. -/
def request? (s : Setup) (c : Change) : Option Request :=
  match c.created? s.moduleName, c.value with
  | some id, some payload => (Request.parse id payload s.leastInterval).toOption
  | _, _ => none

/-- The requests that changes create, in order. -/
def requests (s : Setup) (cs : List Change) : List Request := cs.filterMap (request? s)

variable {m} {c : Change} {cs : List Change} {id : Nat}

theorem created?_eq_some : c.created? m = some id ↔ c.Creates m id := by
  unfold created? Creates
  split
  · next ht hk => simp [ht, hk]
  · next hno =>
    simp only [reduceCtorEq, false_iff, not_and]
    exact fun ht hk => hno id ht hk

theorem deleted?_eq_some : c.deleted? m = some id ↔ c.Deletes m id := by
  unfold deleted? Deletes
  split
  · next ht hk => simp [ht, hk]
  · next hno =>
    simp only [reduceCtorEq, false_iff, not_and]
    exact fun ht hk => hno id ht hk

theorem mem_wholeRequests : id ∈ Intent.wholeRequests m cs ↔ ∃ c ∈ cs, c.IsWhole m id := by
  simp only [Intent.wholeRequests, List.mem_filterMap]
  refine exists_congr fun c => and_congr_right fun _ => ?_
  unfold IsWhole target
  split
  · next hk => simp [hk]
  · next id' ht hk =>
    simp only [ht, Option.some.injEq, Target.request.injEq]
    exact ⟨fun h => ⟨h, hk⟩, And.left⟩
  · next _ hno =>
    simp only [reduceCtorEq, false_iff, not_and]
    exact fun ht => (hno id ht).elim

/-- What a change asks for. -/
inductive Asks (m : String) (c : Change) : Intent → Prop where
  | create {id : Nat} (creates : c.Creates m id) : Asks m c (.create id c.value)
  | delete {id : Nat} (deletes : c.Deletes m id) : Asks m c (.delete id)
  | nothing (part : ∀ id, ¬c.IsWhole m id) : Asks m c .nothing

theorem Creates.isWhole (hc : c.Creates m id) : c.IsWhole m id := ⟨hc.1, by rw [hc.2]; decide⟩

theorem Deletes.isWhole (hd : c.Deletes m id) : c.IsWhole m id := ⟨hd.1, by rw [hd.2]; decide⟩

variable {i : Intent}

/-- A change asks for one thing only. -/
theorem Creates.asks_iff (hc : c.Creates m id) : c.Asks m i ↔ .create id c.value = i := by
  constructor
  · intro ha
    cases ha with
    | create creates =>
      cases hc.1.symm.trans creates.1
      rfl
    | delete deletes => cases hc.2.symm.trans deletes.2
    | nothing part => exact absurd hc.isWhole (part id)
  · rintro rfl
    exact .create hc

theorem Deletes.asks_iff (hd : c.Deletes m id) : c.Asks m i ↔ .delete id = i := by
  constructor
  · intro ha
    cases ha with
    | create creates => cases hd.2.symm.trans creates.2
    | delete deletes =>
      cases hd.1.symm.trans deletes.1
      rfl
    | nothing part => exact absurd hd.isWhole (part id)
  · rintro rfl
    exact .delete hd

theorem asks_iff_nothing (part : ∀ id, ¬c.IsWhole m id) : c.Asks m i ↔ .nothing = i := by
  constructor
  · intro ha
    cases ha with
    | create creates => exact absurd creates.isWhole (part _)
    | delete deletes => exact absurd deletes.isWhole (part _)
    | nothing => rfl
  · rintro rfl
    exact .nothing part

theorem ofChange_eq_ok :
    Intent.ofChange (Intent.wholeRequests m cs) (c.target m) c = .ok i ↔
      c.Routable m cs ∧ c.Asks m i := by
  have nothing (ht : ∀ id, c.target m ≠ .request id) : c.Asks m i ↔ .nothing = i :=
    asks_iff_nothing fun id hw => ht id hw.1
  unfold Routable
  cases ht : c.target m with
  | request id =>
    cases hk : c.kind with
    | created => simp [Intent.ofChange, hk, Creates.asks_iff ⟨ht, hk⟩]
    | deleted => simp [Intent.ofChange, hk, Deletes.asks_iff ⟨ht, hk⟩]
    | modified => simp [Intent.ofChange, hk]
  | nested id =>
    rw [nothing (by simp [ht])]
    simp only [← mem_wholeRequests]
    by_cases hm : id ∈ Intent.wholeRequests m cs <;> cases hk : c.kind <;>
      simp [Intent.ofChange, hk, hm]
  | container =>
    rw [nothing (by simp [ht])]
    cases hk : c.kind <;> simp [Intent.ofChange, hk]
  | other =>
    rw [nothing (by simp [ht])]
    cases hk : c.kind <;> simp [Intent.ofChange, hk]

end Change

/-! ## Plans -/

namespace Engine

variable {s : Setup} {e : Engine} {cs : List Change} {ps : List Planned}

/-- What is planned for one change. -/
inductive PlanOf (s : Setup) (e : Engine) (c : Change) : Planned → Prop where
  | create {id : Nat} {payload : Json} {r : Request} (creates : c.Creates s.moduleName id)
    (absent : e.registry.find? id = none) (value : c.value = some payload)
    (parsed : Request.parse id payload s.leastInterval = .ok r)
    (valid : r.validate s.schema s.leastInterval = .ok ()) : PlanOf s e c (.create r)
  | delete {id : Nat} {h : Handle} (deletes : c.Deletes s.moduleName id)
    (registered : e.registry.find? id = some h) : PlanOf s e c (.delete h)
  | nothing (part : ∀ id, ¬c.IsWhole s.moduleName id) : PlanOf s e c .nothing

theorem plan_create_eq_ok {id : Nat} {value : Option Json} {p : Planned} :
    plan s e (.create id value) = .ok p ↔ e.registry.find? id = none ∧ ∃ payload r,
      value = some payload ∧ Request.parse id payload s.leastInterval = .ok r ∧
        r.validate s.schema s.leastInterval = .ok () ∧ p = .create r := by
  cases hf : e.registry.find? id with
  | some h => simp [plan, Registry.contains_eq, hf]
  | none =>
    cases value with
    | none => simp [plan, Registry.contains_eq, hf]
    | some payload =>
      cases hr : Request.parse id payload s.leastInterval with
      | error err => simp [plan, Registry.contains_eq, hf, hr]
      | ok r =>
        cases hv : r.validate s.schema s.leastInterval <;>
          simp [plan, Registry.contains_eq, hf, hr, hv, eq_comm]

theorem plan_delete_eq_ok {id : Nat} {p : Planned} :
    plan s e (.delete id) = .ok p ↔ ∃ h, e.registry.find? id = some h ∧ p = .delete h := by
  cases hf : e.registry.find? id <;> simp [plan, hf, eq_comm]

theorem planOf_iff {c : Change} {p : Planned} :
    PlanOf s e c p ↔ ∃ i, c.Asks s.moduleName i ∧ plan s e i = .ok p := by
  constructor
  · intro hp
    cases hp with
    | create creates absent value parsed valid =>
      exact ⟨_, .create creates, plan_create_eq_ok.2 ⟨absent, _, _, value, parsed, valid, rfl⟩⟩
    | delete deletes registered =>
      exact ⟨_, .delete deletes, plan_delete_eq_ok.2 ⟨_, registered, rfl⟩⟩
    | nothing part => exact ⟨_, .nothing part, rfl⟩
  · rintro ⟨i, ha, hp⟩
    cases ha with
    | create creates =>
      obtain ⟨absent, payload, r, value, parsed, valid, rfl⟩ := plan_create_eq_ok.1 hp
      exact .create creates absent value parsed valid
    | delete deletes =>
      obtain ⟨h, registered, rfl⟩ := plan_delete_eq_ok.1 hp
      exact .delete deletes registered
    | nothing part =>
      cases hp
      exact .nothing part

theorem ofEach_eq_ok {m : String} {whole : List Nat} {is : List Intent} :
    Intent.ofEach m whole cs = .ok is ↔
      List.Forall₂ (fun c i => Intent.ofChange whole (c.target m) c = .ok i) cs is := by
  induction cs generalizing is with
  | nil => simp [Intent.ofEach, eq_comm]
  | cons c cs ih =>
    unfold Intent.ofEach
    rw [← Change.target]
    cases hc : Intent.ofChange whole (c.target m) c with
    | error err => simp [List.forall₂_cons_left_iff, hc]
    | ok i =>
      cases hcs : Intent.ofEach m whole cs with
      | error err =>
        simp only [reduceCtorEq, List.forall₂_cons_left_iff, false_iff, not_exists, not_and]
        intro i' is' _ hrest
        rw [← ih, hcs] at hrest
        cases hrest
      | ok is' =>
        simp only [Except.ok.injEq, List.forall₂_cons_left_iff, hc, ← ih, hcs]
        constructor
        · rintro rfl
          exact ⟨i, is', rfl, rfl, rfl⟩
        · rintro ⟨_, _, rfl, rfl, rfl⟩
          rfl

theorem planAll_eq_ok {is : List Intent} :
    planAll s e is = .ok ps ↔ List.Forall₂ (fun i p => plan s e i = .ok p) is ps := by
  induction is generalizing ps with
  | nil => simp [planAll, eq_comm]
  | cons i is ih =>
    unfold planAll
    cases hi : plan s e i with
    | error err => simp [List.forall₂_cons_left_iff, hi]
    | ok p =>
      cases his : planAll s e is with
      | error err =>
        simp only [reduceCtorEq, List.forall₂_cons_left_iff, false_iff, not_exists, not_and]
        intro p' ps' _ hrest
        rw [← ih, his] at hrest
        cases hrest
      | ok ps' =>
        simp only [Except.ok.injEq, List.forall₂_cons_left_iff, hi, ← ih, his]
        constructor
        · rintro rfl
          exact ⟨p, ps', rfl, rfl, rfl⟩
        · rintro ⟨_, _, rfl, rfl, rfl⟩
          rfl

theorem forall₂_comp {α β γ : Type} {A : α → β → Prop} {B : β → γ → Prop} {l : List α}
    {n : List γ} : (∃ m, List.Forall₂ A l m ∧ List.Forall₂ B m n) ↔
      List.Forall₂ (fun a c => ∃ b, A a b ∧ B b c) l n := by
  constructor
  · rintro ⟨m, ha, hb⟩
    induction ha generalizing n with
    | nil => cases hb; exact .nil
    | cons ha _ ih =>
      cases hb with
      | cons hb hbs => exact .cons ⟨_, ha, hb⟩ (ih hbs)
  · intro h
    induction h with
    | nil => exact ⟨[], .nil, .nil⟩
    | cons h _ ih =>
      obtain ⟨b, ha, hb⟩ := h
      obtain ⟨m, has, hbs⟩ := ih
      exact ⟨b :: m, .cons ha has, .cons hb hbs⟩

/-- A list of changes has a plan exactly when all of it can be routed and every change can be
planned. -/
theorem planChanges_eq_ok : planChanges s e cs = .ok ps ↔
    (∀ c ∈ cs, c.Routable s.moduleName cs) ∧ List.Forall₂ (PlanOf s e) cs ps := by
  have hsteps : planChanges s e cs = .ok ps ↔
      ∃ is, Intent.ofChanges s.moduleName cs = .ok is ∧ planAll s e is = .ok ps := by
    unfold planChanges
    cases Intent.ofChanges s.moduleName cs <;> simp
  simp only [hsteps, Intent.ofChanges, ofEach_eq_ok, planAll_eq_ok, forall₂_comp,
    Change.ofChange_eq_ok, and_assoc, exists_and_left, ← planOf_iff, List.forall₂_and_left]

/-! ## What a plan is about -/

/-- The ids that planned changes create. -/
def Planned.created? : Planned → Option Nat
  | .create r => some r.id
  | _ => none

/-- The ids that planned changes delete. -/
def Planned.deleted? : Planned → Option Nat
  | .delete h => some h.id
  | _ => none

theorem PlanOf.ids (hs : Sound s e) {c : Change} {p : Planned} (hp : PlanOf s e c p) :
    p.created? = c.created? s.moduleName ∧ p.deleted? = c.deleted? s.moduleName ∧
      p.Valid e.registry := by
  have created {c : Change} {id : Nat} (h : c.Creates s.moduleName id) :
      c.created? s.moduleName = some id ∧ c.deleted? s.moduleName = none := by
    refine ⟨Change.created?_eq_some.2 h, Option.eq_none_iff_forall_ne_some.2 fun id' hd => ?_⟩
    cases h.2.symm.trans (Change.deleted?_eq_some.1 hd).2
  have deleted {c : Change} {id : Nat} (h : c.Deletes s.moduleName id) :
      c.created? s.moduleName = none ∧ c.deleted? s.moduleName = some id := by
    refine ⟨Option.eq_none_iff_forall_ne_some.2 fun id' hd => ?_, Change.deleted?_eq_some.2 h⟩
    cases h.2.symm.trans (Change.created?_eq_some.1 hd).2
  cases hp with
  | create creates absent value parsed valid =>
    obtain ⟨rfl, hw⟩ := Request.of_parse parsed
    obtain ⟨hc, hd⟩ := created creates
    exact ⟨hc.symm, hd.symm, .create absent hw⟩
  | delete deletes registered =>
    obtain rfl := hs.proper.ids registered
    obtain ⟨hc, hd⟩ := deleted deletes
    exact ⟨hc.symm, hd.symm, .delete registered⟩
  | nothing part =>
    refine ⟨(Option.eq_none_iff_forall_ne_some.2 fun id hd => ?_).symm,
      (Option.eq_none_iff_forall_ne_some.2 fun id hd => ?_).symm, .nothing⟩
    · obtain ⟨ht, hk⟩ := Change.created?_eq_some.1 hd
      exact part id ⟨ht, by rw [hk]; decide⟩
    · obtain ⟨ht, hk⟩ := Change.deleted?_eq_some.1 hd
      exact part id ⟨ht, by rw [hk]; decide⟩

/-- A plan creates and deletes what its changes do, and all of it is valid. -/
theorem ids_of_plans (hs : Sound s e) (hp : List.Forall₂ (PlanOf s e) cs ps) :
    ps.filterMap Planned.created? = Change.created s.moduleName cs ∧
      ps.filterMap Planned.deleted? = Change.deleted s.moduleName cs ∧
      ∀ p ∈ ps, p.Valid e.registry := by
  induction hp with
  | nil => exact ⟨rfl, rfl, fun _ hm => by cases hm⟩
  | cons h _ ih =>
    obtain ⟨hc, hd, hv⟩ := h.ids hs
    obtain ⟨hcs, hds, hvs⟩ := ih
    refine ⟨?_, ?_, fun p hm => ?_⟩
    · rw [Change.created, List.filterMap_cons, List.filterMap_cons, hc]
      split
      · exact hcs
      · exact congrArg _ hcs
    · rw [Change.deleted, List.filterMap_cons, List.filterMap_cons, hd]
      split
      · exact hds
      · exact congrArg _ hds
    · rcases List.mem_cons.1 hm with rfl | hm
      · exact hv
      · exact hvs p hm

/-- The request that a planned change creates. -/
def Planned.request? : Planned → Option Request
  | .create r => some r
  | _ => none

theorem PlanOf.request {c : Change} {p : Planned} (hp : PlanOf s e c p) :
    p.request? = c.request? s := by
  unfold Change.request?
  cases hp with
  | create creates absent value parsed =>
    simp only [Change.created?_eq_some.2 creates, value, parsed]
    rfl
  | delete deletes =>
    have hnone : c.created? s.moduleName = none := by
      refine Option.eq_none_iff_forall_ne_some.2 fun id hc => ?_
      cases deletes.2.symm.trans (Change.created?_eq_some.1 hc).2
    simp only [hnone]
    rfl
  | nothing part =>
    have hnone : c.created? s.moduleName = none := by
      refine Option.eq_none_iff_forall_ne_some.2 fun id hc => ?_
      obtain ⟨ht, hk⟩ := Change.created?_eq_some.1 hc
      exact part id ⟨ht, by rw [hk]; decide⟩
    simp only [hnone]
    rfl

/-- A plan creates the requests that its changes give the data of. -/
theorem requests_of_plans (hp : List.Forall₂ (PlanOf s e) cs ps) :
    ps.filterMap Planned.request? = Change.requests s cs := by
  induction hp with
  | nil => rfl
  | cons h _ ih =>
    rw [Change.requests, List.filterMap_cons, List.filterMap_cons, h.request]
    split
    · exact ih
    · exact congrArg _ ih

theorem created_of_requests (ps : List Planned) :
    ps.filterMap Planned.created? = (ps.filterMap Planned.request?).map (·.id) := by
  rw [List.map_filterMap]
  congr 1
  funext p
  cases p <;> rfl

/-- A plan reads the paths of the requests that it creates. -/
theorem paths_of_requests (ps : List Planned) : ps.flatMap Planned.paths =
    (ps.filterMap Planned.request?).flatMap fun r => r.subscriptions.map (·.path) := by
  induction ps with
  | nil => rfl
  | cons p ps ih =>
    rw [List.flatMap_cons, ih]
    cases p <;> rfl

theorem mem_planned {id : Nat} : id ∈ planned ps ↔
    id ∈ ps.filterMap Planned.created? ∨ id ∈ ps.filterMap Planned.deleted? := by
  simp only [planned, List.mem_filterMap, ← exists_or, ← and_or_left]
  refine exists_congr fun p => and_congr_right fun _ => ?_
  cases p <;> simp [Planned.id?, Planned.created?, Planned.deleted?]

/-- No id is planned twice exactly when none is created twice and none is deleted twice: what is
created is not there, and what is deleted is. -/
theorem nodup_planned {g : Registry Handle} (hv : ∀ p ∈ ps, p.Valid g) : (planned ps).Nodup ↔
    (ps.filterMap Planned.created?).Nodup ∧ (ps.filterMap Planned.deleted?).Nodup := by
  induction ps with
  | nil => simp [planned]
  | cons p ps ih =>
    have ih := ih fun p' hm => hv p' (List.mem_cons_of_mem _ hm)
    have absent {id : Nat} (hm : id ∈ ps.filterMap Planned.created?) : g.find? id = none := by
      obtain ⟨p', hp', hid⟩ := List.mem_filterMap.1 hm
      cases hv p' (List.mem_cons_of_mem _ hp') with
      | create absent => cases hid; exact absent
      | delete => cases hid
      | nothing => cases hid
    have present {id : Nat} (hm : id ∈ ps.filterMap Planned.deleted?) : g.find? id ≠ none := by
      obtain ⟨p', hp', hid⟩ := List.mem_filterMap.1 hm
      cases hv p' (List.mem_cons_of_mem _ hp') with
      | create => cases hid
      | delete registered => cases hid; rw [registered]; simp
      | nothing => cases hid
    cases hv p List.mem_cons_self with
    | @create r hnone =>
      simp only [planned_create, List.filterMap_cons, Planned.created?, Planned.deleted?,
        List.nodup_cons, ih, mem_planned, not_or]
      constructor
      · rintro ⟨⟨hc, -⟩, hcs, hds⟩
        exact ⟨⟨hc, hcs⟩, hds⟩
      · rintro ⟨⟨hc, hcs⟩, hds⟩
        exact ⟨⟨hc, fun hd => present hd hnone⟩, hcs, hds⟩
    | @delete h hsome =>
      simp only [planned_delete, List.filterMap_cons, Planned.created?, Planned.deleted?,
        List.nodup_cons, ih, mem_planned, not_or]
      constructor
      · rintro ⟨⟨-, hd⟩, hcs, hds⟩
        exact ⟨hcs, hd, hds⟩
      · rintro ⟨hcs, hd, hds⟩
        refine ⟨⟨fun hc => ?_, hd⟩, hcs, hds⟩
        rw [absent hc] at hsome
        cases hsome
    | nothing => exact ih

/-! ## What performing a plan leaves -/

theorem Performed.mem_touched {before after : List Applied} (hp : Performed before ps after)
    {id : Nat} : id ∈ touched after ↔ id ∈ planned ps ∨ id ∈ touched before := by
  induction hp with
  | nil => simp [planned]
  | cons done _ ih => rw [ih, or_comm, mem_touched_or_planned done, or_comm]

/-- Undoing starts the requests again that were deleted, the last one first. -/
theorem Performed.restarts {before after : List Applied} (hp : Performed before ps after) :
    (after.filterMap Applied.restart?).map (·.id) =
      (ps.filterMap Planned.deleted?).reverse ++ (before.filterMap Applied.restart?).map (·.id) := by
  induction hp with
  | nil => rfl
  | @cons before _ p a ps done _ ih =>
    rw [ih]
    cases done with
    | delete h =>
      have hd : (Planned.delete h :: ps).filterMap Planned.deleted? =
        h.id :: ps.filterMap Planned.deleted? := rfl
      have hr : (Applied.deleted h :: before).filterMap Applied.restart? =
        h :: before.filterMap Applied.restart? := rfl
      simp [hd, hr]
    | create | nothing => rfl

theorem Performed.created {before after : List Applied} (hp : Performed before ps after)
    {r : Request} (hm : .create r ∈ ps) : ∃ key, .created ⟨key, r⟩ ∈ after := by
  have kept {before after : List Applied} {ps : List Planned} (hp : Performed before ps after) :
      ∀ a ∈ before, a ∈ after := by
    induction hp with
    | nil => exact fun _ ha => ha
    | cons _ _ ih => exact fun a ha => ih a (List.mem_cons_of_mem _ ha)
  induction hp with
  | nil => cases hm
  | cons done rest ih =>
    rcases List.mem_cons.1 hm with rfl | hm
    · cases done with
      | create key => exact ⟨key, kept rest _ List.mem_cons_self⟩
    · exact ih hm

theorem Performed.deleted {before after : List Applied} (hp : Performed before ps after)
    {id : Nat} (hm : id ∈ ps.filterMap Planned.deleted?) :
    ∃ h, .deleted h ∈ after ∧ h.id = id := by
  have hin : id ∈ (after.filterMap Applied.restart?).map (·.id) := by
    rw [hp.restarts]
    exact List.mem_append_left _ (List.mem_reverse.2 hm)
  obtain ⟨h, hh, rfl⟩ := List.mem_map.1 hin
  obtain ⟨a, ha, hr⟩ := List.mem_filterMap.1 hh
  cases a with
  | deleted h' => exact ⟨h', ha, congrArg Handle.id (Option.some.inj hr)⟩
  | created | nothing => cases hr

/-! ## Acceptable transactions -/

/-- What a list of changes has to be for an engine to make all of them, if what is to be read can be
read. -/
structure Acceptable (s : Setup) (e : Engine) (cs : List Change) : Prop where
  routable : ∀ c ∈ cs, c.Routable s.moduleName cs
  creatable : ∀ c ∈ cs, ∀ id, c.Creates s.moduleName id → e.registry.find? id = none ∧
    ∃ payload r, c.value = some payload ∧ Request.parse id payload s.leastInterval = .ok r ∧
      r.validate s.schema s.leastInterval = .ok ()
  deletable : ∀ c ∈ cs, ∀ id, c.Deletes s.moduleName id → ∃ h, e.registry.find? id = some h
  createdOnce : (Change.created s.moduleName cs).Nodup
  deletedOnce : (Change.deleted s.moduleName cs).Nodup

/-- A change has a plan exactly when what it creates can be created and what it deletes is there. -/
theorem exists_planOf {c : Change} : (∃ p, PlanOf s e c p) ↔
    (∀ id, c.Creates s.moduleName id → e.registry.find? id = none ∧
      ∃ payload r, c.value = some payload ∧ Request.parse id payload s.leastInterval = .ok r ∧
        r.validate s.schema s.leastInterval = .ok ()) ∧
      ∀ id, c.Deletes s.moduleName id → ∃ h, e.registry.find? id = some h := by
  constructor
  · rintro ⟨p, hp⟩
    refine ⟨fun id hcreates => ?_, fun id hdeletes => ?_⟩
    · cases hp with
      | create creates absent value parsed valid =>
        cases hcreates.1.symm.trans creates.1
        exact ⟨absent, _, _, value, parsed, valid⟩
      | delete deletes => cases hcreates.2.symm.trans deletes.2
      | nothing part => exact absurd hcreates.isWhole (part id)
    · cases hp with
      | create creates => cases hdeletes.2.symm.trans creates.2
      | delete deletes registered =>
        cases hdeletes.1.symm.trans deletes.1
        exact ⟨_, registered⟩
      | nothing part => exact absurd hdeletes.isWhole (part id)
  · rintro ⟨hcreate, hdelete⟩
    by_cases hw : ∃ id, c.IsWhole s.moduleName id
    · obtain ⟨id, ht, hk⟩ := hw
      cases hk' : c.kind with
      | created =>
        obtain ⟨absent, payload, r, value, parsed, valid⟩ := hcreate id ⟨ht, hk'⟩
        exact ⟨_, .create ⟨ht, hk'⟩ absent value parsed valid⟩
      | deleted =>
        obtain ⟨h, hr⟩ := hdelete id ⟨ht, hk'⟩
        exact ⟨_, .delete ⟨ht, hk'⟩ hr⟩
      | modified => exact absurd hk' hk
    · exact ⟨_, .nothing fun id h => hw ⟨id, h⟩⟩

theorem acceptable_iff (hs : Sound s e) :
    Acceptable s e cs ↔ ∃ ps, planChanges s e cs = .ok ps ∧ Fresh [] ps := by
  have fresh {ps : List Planned} : Fresh [] ps ↔ (planned ps).Nodup :=
    ⟨Fresh.distinct, fun hd => ⟨hd, fun _ _ hm => by cases hm⟩⟩
  constructor
  · intro ha
    obtain ⟨ps, hps⟩ := exists_forall₂.2 fun c hc =>
      exists_planOf.2 ⟨ha.creatable c hc, ha.deletable c hc⟩
    obtain ⟨hcs, hds, hvs⟩ := ids_of_plans hs hps
    refine ⟨ps, planChanges_eq_ok.2 ⟨ha.routable, hps⟩, fresh.2 ((nodup_planned hvs).2 ?_)⟩
    rw [hcs, hds]
    exact ⟨ha.createdOnce, ha.deletedOnce⟩
  · rintro ⟨ps, hplan, hfresh⟩
    obtain ⟨hroutable, hps⟩ := planChanges_eq_ok.1 hplan
    obtain ⟨hcs, hds, hvs⟩ := ids_of_plans hs hps
    have hnodup := (nodup_planned hvs).1 (fresh.1 hfresh)
    rw [hcs, hds] at hnodup
    have hplans := exists_forall₂.1 ⟨ps, hps⟩
    exact ⟨hroutable, fun c hc => (exists_planOf.1 (hplans c hc)).1,
      fun c hc => (exists_planOf.1 (hplans c hc)).2, hnodup.1, hnodup.2⟩

end Engine

end Telemetry
