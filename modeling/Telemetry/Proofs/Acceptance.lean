import Mathlib.Data.List.Forall2
import Mathlib.Data.List.Nodup
import Mathlib.Data.Option.Basic
import Telemetry.Request.Validation

/-!
# Which requests are accepted

A request is read off a payload and then validated, in two passes over its subscriptions with the
options of STREAM filled in between. Here the payloads that come through both are described in terms
of the payload alone, and so is the request that comes out.

Results:
* `Request.subscription_eq_ok`, `Request.subscriptionsOf_eq_ok`: the first pass succeeds exactly
  when its outcome is the completion of what counts of the payload;
* `Subscription.validate_eq_ok`, `Request.validate_eq_ok`: what the second pass asks for;
* `Subscription.Completes.validate_iff`: the second pass asks it of the payload, for what was filled
  in is never refused;
* `Request.accepted_exactly`: the payloads that are accepted, what becomes of them, and that
  subscriptions without an id make no difference.
-/
namespace Telemetry

/-! ## Completion -/

/-- The subscription is the completion of its payload in a request of that mode: the values given,
and in a STREAM request a value for every option that was left open. -/
structure Subscription.Completes (m : RequestMode) (least : Nat) (p : SubscriptionPayload)
    (s : Subscription) : Prop where
  id : p.id = some s.id
  path : p.path = some s.path
  mode : s.mode.map StreamMode.name
    = if m = .stream ∧ p.mode = some "TARGET_DEFINED" then some "SAMPLE" else p.mode
  sampleInterval : s.sampleInterval
    = if m = .stream then some (p.sampleInterval.getD (min (2 * least) maxInterval))
      else p.sampleInterval
  suppressRedundant : s.suppressRedundant
    = if m = .stream then some (p.suppressRedundant.getD false) else p.suppressRedundant
  heartbeatInterval : s.heartbeatInterval
    = if m = .stream then some (p.heartbeatInterval.getD 0) else p.heartbeatInterval

/-- A payload has one completion. -/
theorem Subscription.Completes.unique {m : RequestMode} {least : Nat} {p : SubscriptionPayload}
    {s s' : Subscription} (h : s.Completes m least p) (h' : s'.Completes m least p) : s = s' := by
  have hid : s.id = s'.id := Option.some.inj (h.id.symm.trans h'.id)
  have hpath : s.path = s'.path := Option.some.inj (h.path.symm.trans h'.path)
  have hmode : s.mode = s'.mode :=
    (Option.map_inj_right fun _ _ => StreamMode.name_inj.1).1 (h.mode.trans h'.mode.symm)
  have hsample := h.sampleInterval.trans h'.sampleInterval.symm
  have hsuppress := h.suppressRedundant.trans h'.suppressRedundant.symm
  have hheartbeat := h.heartbeatInterval.trans h'.heartbeatInterval.symm
  cases s
  cases s'
  simp_all

/-- The mode of a payload that has a completion is one there is. -/
theorem Subscription.Completes.exists_mode {m : RequestMode} {least : Nat} {p : SubscriptionPayload}
    {s : Subscription} (h : s.Completes m least p) :
    ∃ sm : Option StreamMode, p.mode = sm.map StreamMode.name := by
  have hmode := h.mode
  split at hmode
  · next htarget => exact ⟨some .targetDefined, htarget.2⟩
  · exact ⟨s.mode, hmode.symm⟩

/-- The subscriptions that count: those with an id. -/
def Payload.counted (p : Payload) : List SubscriptionPayload := p.subscriptions.filter (·.id.isSome)

/-- The request is the completion of its payload. -/
structure Request.Completes (id least : Nat) (p : Payload) (r : Request) : Prop where
  id : r.id = id
  mode : p.mode = some r.mode.name
  updatesOnly : r.updatesOnly = p.updatesOnly.getD false
  subscriptions : List.Forall₂ (Subscription.Completes r.mode least) p.counted r.subscriptions

/-! ## The first pass -/

namespace Request

variable {m : RequestMode} {least id : Nat} {p : SubscriptionPayload} {s : Subscription}

theorem streamMode_eq_ok {text : Option String} {sm : Option StreamMode} :
    streamMode text = .ok sm ↔ text = sm.map StreamMode.name := by
  cases text with
  | none => cases sm <;> simp [streamMode]
  | some text =>
    cases h : StreamMode.ofName? text with
    | none =>
      cases sm with
      | none => simp [streamMode, h]
      | some sm =>
        have hne : text ≠ sm.name := by
          rintro rfl
          rw [StreamMode.ofName?_name] at h
          cases h
        simp [streamMode, h, hne]
    | some sm' =>
      obtain rfl := StreamMode.ofName?_eq_some.1 h
      cases sm with
      | none => simp [streamMode, h]
      | some sm => simp [streamMode, h, StreamMode.name_inj]

theorem completes_of_subscription (hid : p.id = some id) (h : subscription m least id p = .ok s) :
    s.Completes m least p := by
  unfold subscription at h
  split at h
  · cases h
  · next path hpath =>
    split at h
    · cases h
    · next sm hsm =>
      have hmode := streamMode_eq_ok.1 hsm
      cases h
      by_cases hm : m = .stream
      · rw [if_pos hm]
        refine ⟨hid, hpath, ?_, by rw [if_pos hm]; rfl, by rw [if_pos hm]; rfl,
          by rw [if_pos hm]; rfl⟩
        -- the one mode that does not stay is TARGET_DEFINED
        rw [hmode]
        cases sm with
        | none => simp [Subscription.withStreamDefaults]
        | some sm => cases sm <;> simp [Subscription.withStreamDefaults, StreamMode.name,
            StreamMode.forTarget, hm]
      · rw [if_neg hm]
        refine ⟨hid, hpath, ?_, by rw [if_neg hm], by rw [if_neg hm], by rw [if_neg hm]⟩
        rw [if_neg fun h => hm h.1, hmode]

theorem exists_subscription {path : String} {sm : Option StreamMode} (hpath : p.path = some path)
    (hmode : p.mode = sm.map StreamMode.name) : ∃ s, subscription m least id p = .ok s := by
  unfold subscription
  simp only [hpath, streamMode_eq_ok.2 hmode]
  exact ⟨_, rfl⟩

/-- A subscription is read off a payload exactly when it is the completion. -/
theorem subscription_eq_ok (hid : p.id = some id) :
    subscription m least id p = .ok s ↔ s.Completes m least p := by
  constructor
  · exact completes_of_subscription hid
  · intro h
    obtain ⟨sm, hmode⟩ := h.exists_mode
    obtain ⟨s', hs'⟩ : ∃ s', subscription m least id p = .ok s' := exists_subscription h.path hmode
    rw [hs', (completes_of_subscription hid hs').unique h]

/-- Of several subscriptions those with an id are read, if their ids are their own. -/
theorem subscriptionsOf_eq_ok {seen : List Nat} {ps : List SubscriptionPayload}
    {subs : List Subscription} :
    subscriptionsOf m least seen ps = .ok subs ↔
      List.Forall₂ (Subscription.Completes m least) (ps.filter (·.id.isSome)) subs ∧
        (subs.map (·.id)).Nodup ∧ ∀ s ∈ subs, s.id ∉ seen := by
  induction ps generalizing seen subs with
  | nil =>
    rw [subscriptionsOf, List.filter_nil, List.forall₂_nil_left_iff]
    constructor
    · intro h
      cases h
      simp
    · rintro ⟨rfl, -⟩
      rfl
  | cons p ps ih =>
    rw [subscriptionsOf]
    cases hid : p.id with
    | none => simpa [hid] using ih
    | some id =>
      have hkeep : (p :: ps).filter (·.id.isSome) = p :: ps.filter (·.id.isSome) := by simp [hid]
      rw [hkeep, List.forall₂_cons_left_iff]
      dsimp only
      constructor
      · intro h
        split at h
        · cases h
        · next hseen =>
          cases hs : subscription m least id p with
          | error err => simp [hs] at h
          | ok s =>
            cases hrest : subscriptionsOf m least (id :: seen) ps with
            | error err => simp [hs, hrest] at h
            | ok rest =>
              simp only [hs, hrest, Except.ok.injEq] at h
              obtain ⟨hall, hnodup, hnot⟩ := ih.1 hrest
              have hfirst := (subscription_eq_ok hid).1 hs
              obtain rfl : id = s.id := Option.some.inj (hid.symm.trans hfirst.id)
              refine ⟨⟨s, rest, hfirst, hall, h.symm⟩, ?_, ?_⟩
              · rw [← h, List.map_cons, List.nodup_cons]
                refine ⟨fun hmem => ?_, hnodup⟩
                obtain ⟨s', hs', heq⟩ := List.mem_map.1 hmem
                exact hnot s' hs' (heq ▸ List.mem_cons_self)
              · rw [← h]
                refine List.forall_mem_cons.2 ⟨hseen, fun s' hs' hmem => ?_⟩
                exact hnot s' hs' (List.mem_cons_of_mem _ hmem)
      · rintro ⟨⟨s, rest, hfirst, hall, rfl⟩, hnodup, hnot⟩
        obtain rfl : id = s.id := Option.some.inj (hid.symm.trans hfirst.id)
        rw [List.map_cons, List.nodup_cons] at hnodup
        obtain ⟨hseen, hnot⟩ := List.forall_mem_cons.1 hnot
        have hrest : subscriptionsOf m least (s.id :: seen) ps = .ok rest := by
          refine ih.2 ⟨hall, hnodup.2, fun s' hs' hmem => ?_⟩
          rcases List.mem_cons.1 hmem with heq | hmem
          · exact hnodup.1 (List.mem_map.2 ⟨s', hs', heq⟩)
          · exact hnot s' hs' hmem
        rw [if_neg hseen, (subscription_eq_ok hid).2 hfirst, hrest]

/-- Subscriptions without an id make no difference, also not to what is refused. -/
theorem subscriptionsOf_filter (seen : List Nat) (ps : List SubscriptionPayload) :
    subscriptionsOf m least seen (ps.filter (·.id.isSome)) = subscriptionsOf m least seen ps := by
  induction ps generalizing seen with
  | nil => rfl
  | cons p ps ih =>
    cases hid : p.id with
    | none =>
      rw [List.filter_cons_of_neg (by simp [hid]), ih]
      conv_rhs => rw [subscriptionsOf]
      simp only [hid]
    | some id =>
      rw [List.filter_cons_of_pos (by simp [hid]), subscriptionsOf, subscriptionsOf]
      simp only [hid, ih]

theorem ofPayload_eq_ok {id : Nat} {p : Payload} {r : Request} :
    ofPayload id p least = .ok r ↔
      r.Completes id least p ∧ r.subscriptions ≠ [] ∧ (r.subscriptions.map (·.id)).Nodup := by
  constructor
  · intro h
    unfold ofPayload at h
    split at h
    · cases h
    · next text hmode =>
      split at h
      · cases h
      · next m hm =>
        obtain rfl := RequestMode.ofName?_eq_some.1 hm
        split at h
        · cases h
        · cases h
        · next s rest hsubs =>
          cases h
          obtain ⟨hall, hnodup, -⟩ := subscriptionsOf_eq_ok.1 hsubs
          exact ⟨⟨rfl, hmode, rfl, hall⟩, by simp, hnodup⟩
  · rintro ⟨h, hne, hnodup⟩
    obtain ⟨s, rest, hsubs⟩ := List.exists_cons_of_ne_nil hne
    have hread : subscriptionsOf r.mode least [] p.subscriptions = .ok r.subscriptions :=
      subscriptionsOf_eq_ok.2 ⟨h.subscriptions, hnodup, by simp⟩
    unfold ofPayload
    simp only [h.mode, RequestMode.ofName?_name, hread, ← h.id, ← h.updatesOnly]
    rw [hsubs]
    simp only [← hsubs]

theorem parse_eq_ok {id : Nat} {j : Json} {r : Request} :
    parse id j least = .ok r ↔ ∃ p, Payload.ofJson? j = some p ∧ r.Completes id least p ∧
      r.subscriptions ≠ [] ∧ (r.subscriptions.map (·.id)).Nodup := by
  unfold parse
  cases Payload.ofJson? j with
  | none => simp
  | some p => simp [ofPayload_eq_ok]

end Request

/-! ## The second pass -/

namespace Subscription

variable {s : Subscription} {least : Nat}

theorem validateIntervals_eq_ok :
    s.validateIntervals least = .ok () ↔ s.mode ≠ none ∧
      (∀ h ∈ s.heartbeatInterval, h = 0 ∨ least ≤ h) ∧
      (s.mode = some .sample → least ≤ s.sampleInterval.getD 0) := by
  unfold validateIntervals
  cases s.mode with
  | none => simp
  | some mode =>
    have hheartbeat : (∀ h ∈ s.heartbeatInterval, h = 0 ∨ least ≤ h)
        ↔ ¬(s.heartbeatInterval.getD noHeartbeat ≠ noHeartbeat
          ∧ s.heartbeatInterval.getD noHeartbeat < least) := by
      cases s.heartbeatInterval with
      | none => simp
      | some h =>
        simp only [Option.mem_some_iff, forall_eq', Option.getD_some, noHeartbeat]
        omega
    rw [hheartbeat]
    dsimp only
    by_cases hshort : s.heartbeatInterval.getD noHeartbeat ≠ noHeartbeat
      ∧ s.heartbeatInterval.getD noHeartbeat < least
    · rw [if_pos hshort]
      simp [hshort]
    · rw [if_neg hshort]
      by_cases hslow : mode = .sample ∧ s.sampleInterval.getD 0 < least
      · rw [if_pos hslow]
        simp [hslow]
      · rw [if_neg hslow]
        simpa [hshort] using hslow

theorem validate_eq_ok {schema : Schema} {m : RequestMode} :
    s.validate schema m least = .ok () ↔ schema.accepts s.path = true ∧
      (m = .stream → s.mode ≠ none ∧ (∀ h ∈ s.heartbeatInterval, h = 0 ∨ least ≤ h) ∧
        (s.mode = some .sample → least ≤ s.sampleInterval.getD 0)) := by
  unfold validate
  cases schema.accepts s.path with
  | false => simp
  | true =>
    by_cases hm : m = .stream
    · simp [hm, validateIntervals_eq_ok]
    · simp [hm]

end Subscription

theorem Request.validate_eq_ok {r : Request} {schema : Schema} {least : Nat} :
    r.validate schema least = .ok () ↔
      ∀ s ∈ r.subscriptions, s.validate schema r.mode least = .ok () := by
  unfold Request.validate
  induction r.subscriptions with
  | nil => simp [validateAll]
  | cons s rest ih =>
    rw [validateAll, List.forall_mem_cons]
    cases hs : s.validate schema r.mode least with
    | error err => simp
    | ok _ => simp [ih]

/-! ## Acceptable payloads -/

/-- What is asked of a subscription with an id, in a request of that mode. -/
structure SubscriptionPayload.Acceptable (schema : Schema) (m : RequestMode) (least : Nat)
    (p : SubscriptionPayload) : Prop where
  path : ∃ path, p.path = some path ∧ schema.accepts path = true
  mode : p.mode ∈ [none, some "ON_CHANGE", some "SAMPLE", some "TARGET_DEFINED"]
  moded : m = .stream → p.mode ≠ none
  heartbeat : m = .stream → ∀ h ∈ p.heartbeatInterval, h = 0 ∨ least ≤ h
  sample : m = .stream → p.mode = some "SAMPLE" ∨ p.mode = some "TARGET_DEFINED" →
    ∀ i ∈ p.sampleInterval, least ≤ i

/-- What is asked of a payload. -/
structure Payload.Acceptable (schema : Schema) (least : Nat) (p : Payload) : Prop where
  mode : p.mode ∈ [some "STREAM", some "ONCE", some "POLL"]
  nonempty : p.counted ≠ []
  distinct : (p.counted.map (·.id)).Nodup
  each : ∀ q ∈ p.counted, ∀ m, p.mode = some (RequestMode.name m) → q.Acceptable schema m least

theorem StreamMode.mem_names {text : Option String} :
    text ∈ [none, some "ON_CHANGE", some "SAMPLE", some "TARGET_DEFINED"] ↔
      ∃ sm : Option StreamMode, text = sm.map StreamMode.name := by
  constructor
  · intro h
    simp only [List.mem_cons, List.not_mem_nil, or_false] at h
    rcases h with rfl | rfl | rfl | rfl
    exacts [⟨none, rfl⟩, ⟨some .onChange, rfl⟩, ⟨some .sample, rfl⟩, ⟨some .targetDefined, rfl⟩]
  · rintro ⟨sm, rfl⟩
    cases sm with
    | none => simp
    | some sm => cases sm <;> simp [StreamMode.name]

theorem RequestMode.mem_names {text : Option String} :
    text ∈ [some "STREAM", some "ONCE", some "POLL"] ↔ ∃ m, text = some (RequestMode.name m) := by
  constructor
  · intro h
    simp only [List.mem_cons, List.not_mem_nil, or_false] at h
    rcases h with rfl | rfl | rfl
    exacts [⟨.stream, rfl⟩, ⟨.once, rfl⟩, ⟨.poll, rfl⟩]
  · rintro ⟨m, rfl⟩
    cases m <;> simp [RequestMode.name]

namespace Subscription.Completes

variable {m : RequestMode} {least : Nat} {p : SubscriptionPayload} {s : Subscription}

theorem mode_eq_none (h : s.Completes m least p) : s.mode = none ↔ p.mode = none := by
  have hmode := h.mode
  split at hmode
  · next htarget =>
    rw [htarget.2]
    constructor
    · intro hnone
      simp [hnone] at hmode
    · simp
  · rw [← hmode, Option.map_eq_none_iff]

/-- What is sampled: TARGET_DEFINED too. -/
theorem mode_eq_sample (h : s.Completes .stream least p) :
    s.mode = some .sample ↔ p.mode = some "SAMPLE" ∨ p.mode = some "TARGET_DEFINED" := by
  have hname : s.mode = some .sample ↔ s.mode.map StreamMode.name = some "SAMPLE" := by
    cases s.mode with
    | none => simp
    | some sm => cases sm <;> simp [StreamMode.name]
  rw [hname, h.mode]
  by_cases htarget : p.mode = some "TARGET_DEFINED"
  · simp [htarget]
  · simp [htarget]

/-- No heartbeat passes for every least interval. -/
theorem heartbeat_iff (h : s.Completes .stream least p) :
    (∀ i ∈ s.heartbeatInterval, i = 0 ∨ least ≤ i) ↔ ∀ i ∈ p.heartbeatInterval, i = 0 ∨ least ≤ i := by
  rw [h.heartbeatInterval, if_pos rfl]
  cases p.heartbeatInterval <;> simp

/-- Twice the least interval passes for it, also where doubling stops at the greatest interval. -/
theorem sample_iff (h : s.Completes .stream least p) (hleast : least ≤ maxInterval) :
    least ≤ s.sampleInterval.getD 0 ↔ ∀ i ∈ p.sampleInterval, least ≤ i := by
  rw [h.sampleInterval, if_pos rfl, Option.getD_some]
  cases p.sampleInterval with
  | none =>
    have hdefault : least ≤ min (2 * least) maxInterval := by omega
    simpa using hdefault
  | some i => simp

/-- The completion is valid exactly if the payload is acceptable: no default is refused. -/
theorem validate_iff (h : s.Completes m least p) (schema : Schema) (hleast : least ≤ maxInterval) :
    s.validate schema m least = .ok () ↔ p.Acceptable schema m least := by
  rw [validate_eq_ok]
  constructor
  · rintro ⟨hpath, hstream⟩
    refine ⟨⟨s.path, h.path, hpath⟩, StreamMode.mem_names.2 h.exists_mode, ?_, ?_, ?_⟩
    · intro hm
      exact (not_congr h.mode_eq_none).1 (hstream hm).1
    · rintro rfl
      exact h.heartbeat_iff.1 (hstream rfl).2.1
    · rintro rfl hmode
      exact (h.sample_iff hleast).1 ((hstream rfl).2.2 (h.mode_eq_sample.2 hmode))
  · intro ha
    obtain ⟨path, hpath, haccepts⟩ := ha.path
    obtain rfl : path = s.path := Option.some.inj (hpath.symm.trans h.path)
    refine ⟨haccepts, ?_⟩
    rintro rfl
    refine ⟨(not_congr h.mode_eq_none).2 (ha.moded rfl), h.heartbeat_iff.2 (ha.heartbeat rfl), ?_⟩
    intro hmode
    exact (h.sample_iff hleast).2 (ha.sample rfl (h.mode_eq_sample.1 hmode))

end Subscription.Completes

/-- An acceptable payload with an id has a completion. -/
theorem SubscriptionPayload.Acceptable.exists_completes {schema : Schema} {m : RequestMode}
    {least : Nat} {p : SubscriptionPayload} (h : p.Acceptable schema m least)
    (hid : p.id.isSome = true) : ∃ s : Subscription, s.Completes m least p := by
  obtain ⟨id, hid⟩ := Option.isSome_iff_exists.1 hid
  obtain ⟨path, hpath, -⟩ := h.path
  obtain ⟨sm, hmode⟩ := StreamMode.mem_names.1 h.mode
  obtain ⟨s, hs⟩ : ∃ s, Request.subscription m least id p = .ok s :=
    Request.exists_subscription hpath hmode
  exact ⟨s, Request.completes_of_subscription hid hs⟩

/-! ## Requests -/

theorem exists_forall₂ {α β : Type} {R : α → β → Prop} {l : List α} :
    (∃ m, List.Forall₂ R l m) ↔ ∀ a ∈ l, ∃ b, R a b := by
  induction l with
  | nil => simp
  | cons a l ih =>
    rw [List.forall_mem_cons, ← ih]
    constructor
    · rintro ⟨_, h⟩
      cases h with
      | cons hab hrest => exact ⟨⟨_, hab⟩, _, hrest⟩
    · rintro ⟨⟨b, hab⟩, m, hrest⟩
      exact ⟨b :: m, .cons hab hrest⟩

section Completions

variable {m : RequestMode} {least : Nat} {ps : List SubscriptionPayload} {subs : List Subscription}

/-- Completion keeps the ids. -/
theorem ids_of_completes (h : List.Forall₂ (Subscription.Completes m least) ps subs) :
    ps.map (·.id) = (subs.map (·.id)).map some := by
  induction h with
  | nil => rfl
  | cons hfirst _ ih => rw [List.map_cons, ih, hfirst.id]; rfl

theorem nodup_ids_iff (h : List.Forall₂ (Subscription.Completes m least) ps subs) :
    (ps.map (·.id)).Nodup ↔ (subs.map (·.id)).Nodup := by
  rw [ids_of_completes h, List.nodup_map_iff (Option.some_injective _)]

theorem validateAll_iff (h : List.Forall₂ (Subscription.Completes m least) ps subs)
    (schema : Schema) (hleast : least ≤ maxInterval) :
    (∀ s ∈ subs, s.validate schema m least = .ok ()) ↔ ∀ p ∈ ps, p.Acceptable schema m least := by
  induction h with
  | nil => simp
  | cons hfirst _ ih =>
    rw [List.forall_mem_cons, List.forall_mem_cons, ih, hfirst.validate_iff schema hleast]

end Completions

namespace Request

variable {id least : Nat} {schema : Schema} {p : Payload}

/-- Subscriptions without an id make no difference to what is made of a payload. -/
theorem ofPayload_congr {p' : Payload} (hmode : p'.mode = p.mode)
    (hupdates : p'.updatesOnly = p.updatesOnly) (hcounted : p'.counted = p.counted) :
    ofPayload id p' least = ofPayload id p least := by
  have hsubs (m : RequestMode) : subscriptionsOf m least [] p'.subscriptions
      = subscriptionsOf m least [] p.subscriptions := by
    rw [← subscriptionsOf_filter, ← subscriptionsOf_filter [] p.subscriptions]
    exact congrArg _ hcounted
  unfold ofPayload
  simp only [hmode, hupdates, hsubs]

theorem acceptable_of_validate {r : Request} (h : ofPayload id p least = .ok r)
    (hv : r.validate schema least = .ok ()) (hleast : least ≤ maxInterval) :
    p.Acceptable schema least := by
  obtain ⟨hr, hne, hnodup⟩ := ofPayload_eq_ok.1 h
  refine ⟨RequestMode.mem_names.2 ⟨r.mode, hr.mode⟩, ?_, ?_, ?_⟩
  · intro hnil
    have hall := hr.subscriptions
    rw [hnil, List.forall₂_nil_left_iff] at hall
    exact hne hall
  · exact (nodup_ids_iff hr.subscriptions).2 hnodup
  · intro q hq m hm
    obtain rfl : m = r.mode := RequestMode.name_inj.1 (Option.some.inj (hm.symm.trans hr.mode))
    exact (validateAll_iff hr.subscriptions schema hleast).1 (validate_eq_ok.1 hv) q hq

theorem exists_valid (h : p.Acceptable schema least) (hleast : least ≤ maxInterval) :
    ∃ r, ofPayload id p least = .ok r ∧ r.validate schema least = .ok () := by
  obtain ⟨m, hm⟩ := RequestMode.mem_names.1 h.mode
  have hacc : ∀ q ∈ p.counted, q.Acceptable schema m least := fun q hq => h.each q hq m hm
  obtain ⟨subs, hsubs⟩ : ∃ subs, List.Forall₂ (Subscription.Completes m least) p.counted subs :=
    exists_forall₂.2 fun q hq => (hacc q hq).exists_completes (List.mem_filter.1 hq).2
  refine ⟨⟨id, m, p.updatesOnly.getD false, subs⟩, ofPayload_eq_ok.2 ⟨⟨rfl, hm, rfl, hsubs⟩, ?_, ?_⟩,
    validate_eq_ok.2 ((validateAll_iff hsubs schema hleast).2 hacc)⟩
  · rintro rfl
    exact h.nonempty (List.forall₂_nil_right_iff.1 hsubs)
  · exact (nodup_ids_iff hsubs).1 h.distinct

/-- **Acceptance is exact.** A payload makes a valid request exactly if it is acceptable, the request
is its completion, and subscriptions without an id do not matter, not even to what is answered when
the payload is refused. -/
theorem accepted_exactly {j : Json} (hj : Payload.ofJson? j = some p)
    (hleast : least ≤ maxInterval) :
    ((∃ r, parse id j least = .ok r ∧ r.validate schema least = .ok ()) ↔
      p.Acceptable schema least) ∧
    (∀ r, parse id j least = .ok r → r.Completes id least p) ∧
    (∀ j' p', Payload.ofJson? j' = some p' → p'.mode = p.mode → p'.updatesOnly = p.updatesOnly →
      p'.counted = p.counted → parse id j' least = parse id j least) := by
  have hparse {j : Json} {p : Payload} (hj : Payload.ofJson? j = some p) :
      parse id j least = ofPayload id p least := by
    unfold parse
    rw [hj]
  refine ⟨⟨?_, ?_⟩, ?_, ?_⟩
  · rintro ⟨r, hr, hv⟩
    exact acceptable_of_validate (hparse hj ▸ hr) hv hleast
  · intro h
    rw [hparse hj]
    exact exists_valid h hleast
  · intro r hr
    exact (ofPayload_eq_ok.1 (hparse hj ▸ hr)).1
  · intro j' p' hj' hmode hupdates hcounted
    rw [hparse hj', hparse hj]
    exact ofPayload_congr hmode hupdates hcounted

end Request

namespace Request.Small

def schema : Schema := ⟨[⟨"m", [⟨"x", .leaf, [], []⟩]⟩]⟩

/-- A least interval that cannot be doubled. -/
def least : Nat := Nat.pow 2 63 + 1

/-- A STREAM request with the given subscriptions. -/
def streamOf (subscriptions : List Json) : Json :=
  .object [("config", .object [("mode", .string "STREAM")]),
    ("subscriptions", .object [("subscription", .array subscriptions)])]

def targetDefined : Json :=
  .object [("id", .nat 2),
    ("config", .object [("path", .string "/m:x"), ("mode", .string "TARGET_DEFINED")])]

def sampled : Json :=
  .object [("id", .nat 1),
    ("config", .object [("path", .string "/m:x"), ("mode", .string "SAMPLE"),
      ("sample-interval", .nat least)])]

/-- Without an id, and with a mode there is not. -/
def nameless : Json := .object [("config", .object [("mode", .string "FAST")])]

def payload : Payload :=
  ⟨some "STREAM", none, [⟨some 2, some "/m:x", some "TARGET_DEFINED", none, none, none⟩,
    ⟨none, none, some "FAST", none, none, none⟩,
    ⟨some 1, some "/m:x", some "SAMPLE", some least, none, none⟩]⟩

def request : Request :=
  ⟨7, .stream, false, [⟨2, "/m:x", some .sample, some maxInterval, some false, some 0⟩,
    ⟨1, "/m:x", some .sample, some least, some false, some 0⟩]⟩

theorem stream_accepted : least ≤ maxInterval ∧
    Payload.ofJson? (streamOf [targetDefined, nameless, sampled]) = some payload ∧
    parse 7 (streamOf [targetDefined, nameless, sampled]) least = .ok request ∧
    payload.Acceptable schema least ∧ request.Completes 7 least payload ∧
    parse 7 (streamOf [targetDefined, sampled]) least = .ok request := by
  have hleast : least ≤ maxInterval := by decide +kernel
  have hread : Payload.ofJson? (streamOf [targetDefined, nameless, sampled]) = some payload := by
    decide +kernel
  have hparse : parse 7 (streamOf [targetDefined, nameless, sampled]) least = .ok request := by
    decide +kernel
  have hvalid : request.validate schema least = .ok () := by decide +kernel
  obtain ⟨haccepted, hcompletes, hnameless⟩ :=
    @accepted_exactly 7 least schema payload _ hread hleast
  refine ⟨hleast, hread, hparse, haccepted.1 ⟨_, hparse, hvalid⟩, hcompletes _ hparse, ?_⟩
  rw [hnameless _ ⟨some "STREAM", none, [payload.subscriptions[0], payload.subscriptions[2]]⟩
    (by decide +kernel) rfl rfl (by decide +kernel), hparse]

end Request.Small

end Telemetry
