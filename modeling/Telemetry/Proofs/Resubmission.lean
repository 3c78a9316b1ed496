import Mathlib.Data.List.Forall2
import Telemetry.Engine.Server
import Telemetry.Proofs.Acceptance

/-!
# Submitting a request as it is shown

The operational view writes requests with an encoding of its own, and payloads are read with another
one. Here the two are put together: what is shown of a request, submitted again, is read as the same
request.

* `Request.ShownBy`: what a view entry says about a request;
* `resubmission`: the payload that a view entry makes;
* `Payload.ofJson?_resubmission`: it is read as the payload that says all that the request says;
* `Request.Completes.asPayload`: a request that completes a payload completes that one too;
* `Request.resubmitted`: both for every request that was parsed.
-/
namespace Telemetry

namespace Json

/-! ## Members -/

/-- The object with its member `name` changed. -/
def mapMember (name : String) (f : Json → Json) : Json → Json
  | object members => object (members.map fun m => (m.1, if m.1 = name then f m.2 else m.2))
  | j => j

def mapItems (f : Json → Json) : Json → Json
  | array items => array (items.map f)
  | j => j

/-- The object with its member `old` under the name `new`. -/
def rename (old new : String) : Json → Json
  | object members => ofMembers (members.map fun m => (if m.1 = old then new else m.1, m.2))
  | j => j

theorem lookup_append (name : String) (xs ys : List (String × Json)) :
    lookup name (xs ++ ys) = (lookup name xs).or (lookup name ys) := by
  induction xs with
  | nil => rfl
  | cons m xs ih =>
    obtain ⟨k, v⟩ := m
    rw [List.cons_append, lookup, lookup, ih]
    split <;> rfl

theorem lookup_member (name k : String) (o : Option Json) :
    lookup name (member k o) = if k = name then o else none := by
  cases o <;> simp [member, lookup]

theorem repeated_eq_false {names : List String} {members : List (String × Json)}
    (h : (members.map (·.1)).Nodup) : repeated names members = false := by
  unfold repeated
  rw [List.any_eq_false]
  intro n _ hrepeated
  have hcount := List.nodup_iff_count_le_one.1 h n
  rw [List.count_eq_countP, List.countP_map, List.countP_eq_length_filter] at hcount
  simp only [decide_eq_true_eq] at hrepeated
  exact absurd hrepeated (Nat.not_lt.2 hcount)

theorem Slot.optional_given {α : Type} {read : Json → Option α} {j : Json} {a : α}
    (hne : j ≠ .null) (h : read j = some a) : (given j).optional read = some (some a) := by
  cases j with
  | null => exact absurd rfl hne
  | _ => simp [Slot.optional, h]

/-- An optional field is read as what was written into it. -/
theorem Slot.optional_slot {α : Type} (read : Json → Option α) (write : α → Json) {name : String}
    {members : List (String × Json)} {o : Option α} (hl : lookup name members = o.map write)
    (hread : ∀ a ∈ o, read (write a) = some a) (hnull : read .null = none) :
    (slot name members).optional read = some o := by
  unfold slot
  rw [hl]
  cases o with
  | none => rfl
  | some a =>
    have ha := hread a rfl
    have hne : write a ≠ .null := by
      intro hw
      rw [hw, hnull] at ha
      cases ha
    rw [Option.map_some]
    exact optional_given hne ha

theorem list?_map {α β : Type} {read : Json → Option β} {write : α → Json} {f : α → β} {l : List α}
    (h : ∀ a ∈ l, read (write a) = some (f a)) :
    list? read (.array (l.map write)) = some (l.map f) := by
  unfold list?
  induction l with
  | nil => rfl
  | cons a l ih =>
    obtain ⟨ha, hl⟩ := List.forall_mem_cons.1 h
    dsimp only at ih
    simp [ha, ih hl]

end Json

open Json (lookup mapMember mapItems member member? rename slots?)

/-! ## What is shown -/

/-- What a `state` says about a subscription: its id, its path and exactly the options that are
set. -/
structure Subscription.WrittenIn (s : Subscription) (state : Json) : Prop where
  id : state.member? "id" = some (.nat s.id)
  path : state.member? "path" = some (.string s.path)
  mode : state.member? "mode" = s.mode.map (.string ·.name)
  sampleInterval : state.member? "sample-interval" = s.sampleInterval.map .nat
  suppressRedundant : state.member? "suppress-redundant" = s.suppressRedundant.map .bool
  heartbeatInterval : state.member? "heartbeat-interval" = s.heartbeatInterval.map .nat
  others : ∀ name, name ∉ ["id", "path", "mode", "sample-interval", "suppress-redundant",
    "heartbeat-interval"] → state.member? name = none

structure Subscription.ShownBy (s : Subscription) (entry : Json) : Prop where
  id : entry.member? "id" = some (.nat s.id)
  state : ∃ state, entry.member? "state" = some state ∧ s.WrittenIn state

structure Request.WrittenIn (r : Request) (state : Json) : Prop where
  id : state.member? "id" = some (.nat r.id)
  mode : state.member? "mode" = some (.string r.mode.name)
  updatesOnly : state.member? "updates-only" = some (.bool r.updatesOnly)

/-- What a view entry says about a request, with its subscriptions in order. -/
structure Request.ShownBy (r : Request) (entry : Json) : Prop where
  id : entry.member? "id" = some (.nat r.id)
  state : ∃ state, entry.member? "state" = some state ∧ r.WrittenIn state
  subscriptions : ∃ list entries, entry.member? "subscriptions" = some list ∧
    list.member? "subscription" = some (.array entries) ∧
      List.Forall₂ Subscription.ShownBy r.subscriptions entries

theorem Subscription.writtenIn_toJson (s : Subscription) : s.WrittenIn s.toJson := by
  constructor
  case others =>
    intro name hname
    simp only [List.mem_cons, List.not_mem_nil, or_false, not_or, eq_comm (a := name)] at hname
    simp [Subscription.toJson, member?, lookup, Json.lookup_append, Json.lookup_member, hname]
  all_goals simp [Subscription.toJson, member?, lookup, Json.lookup_append, Json.lookup_member]

theorem Subscription.shownBy_view (s : Subscription) :
    s.ShownBy (SubscriptionView.toJson ⟨s.id, s⟩) :=
  ⟨rfl, s.toJson, rfl, s.writtenIn_toJson⟩

theorem Request.view_toJson {r : Request} (hne : r.subscriptions ≠ []) (status : Status) :
    (r.view status).toJson = .object [("id", .nat r.id),
      ("state", RequestState.toJson ⟨r.id, r.mode, r.updatesOnly, status⟩),
      ("subscriptions", listUnder "subscription"
        (r.subscriptions.map fun s => SubscriptionView.toJson ⟨s.id, s⟩))] := by
  have hsome : r.subscriptions.isEmpty = false := by simpa using hne
  simp [Request.view, RequestView.ofStates, RequestView.toJson, hsome, Json.member,
    Function.comp_def]

theorem Request.shownBy_view {r : Request} (hne : r.subscriptions ≠ []) (status : Status) :
    r.ShownBy (r.view status).toJson := by
  rw [view_toJson hne]
  refine ⟨rfl, ⟨_, rfl, rfl, rfl, rfl⟩, _, _, rfl, rfl, ?_⟩
  rw [List.forall₂_map_right_iff]
  exact List.forall₂_same.2 fun s _ => s.shownBy_view

/-! ## What is submitted -/

/-- The payload that a view entry makes, every `state` taken for a `config`. -/
def resubmission (entry : Json) : Json :=
  (entry.mapMember "subscriptions" fun list =>
    list.mapMember "subscription" (mapItems (rename "state" "config"))).rename "state" "config"

theorem resubmission_view {r : Request} (hne : r.subscriptions ≠ []) (status : Status) :
    resubmission (r.view status).toJson = .object [
      ("config", RequestState.toJson ⟨r.id, r.mode, r.updatesOnly, status⟩),
      ("id", .nat r.id),
      ("subscriptions", listUnder "subscription"
        (r.subscriptions.map fun s => .object [("config", s.toJson), ("id", .nat s.id)]))] := by
  have hconfig : compare "config" "id" = .lt := by decide +kernel
  have hid : compare "subscriptions" "config" = .gt := by decide +kernel
  have hsubscriptions : compare "subscriptions" "id" = .gt := by decide +kernel
  have hentry (s : Subscription) : (SubscriptionView.toJson ⟨s.id, s⟩).rename "state" "config"
      = .object [("config", s.toJson), ("id", .nat s.id)] := by
    simp [rename, SubscriptionView.toJson, Json.ofMembers, Json.putMember, hconfig]
  have hlist : (listUnder "subscription" (r.subscriptions.map fun s =>
        SubscriptionView.toJson ⟨s.id, s⟩)).mapMember "subscription"
          (mapItems (rename "state" "config"))
      = listUnder "subscription"
        (r.subscriptions.map fun s => .object [("config", s.toJson), ("id", .nat s.id)]) := by
    simp [mapMember, listUnder, mapItems, Function.comp_def, hentry]
  rw [resubmission, Request.view_toJson hne, mapMember]
  simp only [List.map_cons, List.map_nil, hlist]
  simp [rename, Json.ofMembers, Json.putMember, hconfig, hid, hsubscriptions]

/-! ## How it is read -/

/-- The payload that says all that a subscription says. -/
def Subscription.asPayload (s : Subscription) : SubscriptionPayload :=
  ⟨some s.id, some s.path, s.mode.map StreamMode.name, s.sampleInterval, s.suppressRedundant,
    s.heartbeatInterval⟩

/-- The payload that says all that a request says. -/
def Request.asPayload (r : Request) : Payload :=
  ⟨some r.mode.name, some r.updatesOnly, r.subscriptions.map Subscription.asPayload⟩

/-- The numbers of a payload fit 64 bits. -/
structure SubscriptionPayload.Fits (p : SubscriptionPayload) : Prop where
  id : ∀ i ∈ p.id, i < Nat.pow 2 64
  sampleInterval : ∀ i ∈ p.sampleInterval, i < Nat.pow 2 64
  heartbeatInterval : ∀ i ∈ p.heartbeatInterval, i < Nat.pow 2 64

namespace Subscription

variable {s : Subscription}

/-- No name is written twice. -/
theorem toJson_distinct (s : Subscription) :
    ∃ members, s.toJson = .object members ∧ (members.map (·.1)).Nodup := by
  refine ⟨_, rfl, ?_⟩
  have hsublist (name : String) (o : Option Json) :
      List.Sublist ((member name o).map (·.1)) [name] := by
    cases o with
    | none => exact List.nil_sublist _
    | some j => exact List.Sublist.refl _
  have hnames : ["heartbeat-interval", "id", "mode", "path", "sample-interval",
      "suppress-redundant"].Nodup := by decide
  refine List.Nodup.sublist ?_ hnames
  simp only [List.map_append]
  exact (((((hsublist _ _).append (.refl ["id"])).append (hsublist _ _)).append
    (.refl ["path"])).append (hsublist _ _)).append (hsublist _ _)

theorem ofConfig?_toJson (h : s.asPayload.Fits) :
    SubscriptionPayload.ofConfig? (some s.id) s.toJson = some s.asPayload := by
  have hw := s.writtenIn_toJson
  obtain ⟨members, hmembers, hnodup⟩ := s.toJson_distinct
  rw [hmembers] at hw ⊢
  have hpath : (Json.slot "path" members).optional Json.string? = some (some s.path) :=
    Json.Slot.optional_slot _ .string hw.path (fun _ _ => rfl) rfl
  have hmode : (Json.slot "mode" members).optional Json.string?
      = some (s.mode.map StreamMode.name) :=
    Json.Slot.optional_slot _ .string (hw.mode.trans (by rw [Option.map_map]; rfl))
      (fun _ _ => rfl) rfl
  have hsample : (Json.slot "sample-interval" members).optional Json.nat?
      = some s.sampleInterval :=
    Json.Slot.optional_slot _ .nat hw.sampleInterval
      (fun _ hi => Json.nat?_nat (h.sampleInterval _ hi)) rfl
  have hsuppress : (Json.slot "suppress-redundant" members).optional Json.bool?
      = some s.suppressRedundant :=
    Json.Slot.optional_slot _ .bool hw.suppressRedundant (fun _ _ => rfl) rfl
  have hheartbeat : (Json.slot "heartbeat-interval" members).optional Json.nat?
      = some s.heartbeatInterval :=
    Json.Slot.optional_slot _ .nat hw.heartbeatInterval
      (fun _ hi => Json.nat?_nat (h.heartbeatInterval _ hi)) rfl
  simp [SubscriptionPayload.ofConfig?, slots?, Json.repeated_eq_false hnodup, hpath, hmode, hsample,
    hsuppress, hheartbeat, asPayload]

end Subscription

/-- A subscription is read from an object of id and config. The id is any value that is read as one:
the bound on written ids is too large to compute with. -/
theorem SubscriptionPayload.ofJson?_object {id : Nat} {j config : Json} {p : SubscriptionPayload}
    (hid : (Json.Slot.given j).optional Json.nat? = some (some id))
    (hconfig : ofConfig? (some id) config = some p) :
    ofJson? (.object [("config", config), ("id", j)]) = some p := by
  simp [ofJson?, slots?, Json.repeated, Json.slot, lookup, hid, Json.Slot.withDefault, hconfig]

theorem Subscription.ofJson?_entry {s : Subscription} (h : s.asPayload.Fits) :
    SubscriptionPayload.ofJson? (.object [("config", s.toJson), ("id", .nat s.id)])
      = some s.asPayload :=
  SubscriptionPayload.ofJson?_object
    (Json.Slot.optional_given (by simp [Json.nat]) (Json.nat?_nat (h.id _ rfl))) (ofConfig?_toJson h)

theorem Payload.ofJson?_resubmission {r : Request} (hne : r.subscriptions ≠ [])
    (h : ∀ s ∈ r.subscriptions, s.asPayload.Fits) (status : Status) :
    Payload.ofJson? (resubmission (r.view status).toJson) = some r.asPayload := by
  rw [resubmission_view hne]
  have hentries := Json.list?_map fun s hs => Subscription.ofJson?_entry (h s hs)
  have hsubscriptions : Payload.subscriptionsOfJson? (listUnder "subscription"
      (r.subscriptions.map fun s => .object [("config", s.toJson), ("id", .nat s.id)]))
      = some (r.subscriptions.map Subscription.asPayload) := by
    simp [Payload.subscriptionsOfJson?, listUnder, slots?, Json.repeated, Json.slot, lookup,
      Json.Slot.withDefault, hentries]
  have hconfig : Payload.configOfJson? (RequestState.toJson ⟨r.id, r.mode, r.updatesOnly, status⟩)
      = some (some r.mode.name, some r.updatesOnly) := by
    simp [Payload.configOfJson?, RequestState.toJson, slots?, Json.repeated, Json.slot, lookup,
      Json.Slot.optional, Json.string?, Json.bool?]
  have hconfig' := Json.Slot.optional_given (by simp [RequestState.toJson]) hconfig
  have hsubscriptions' := Json.Slot.optional_given (by simp [listUnder]) hsubscriptions
  simp [Payload.ofJson?, slots?, Json.repeated, Json.slot, lookup, hconfig', hsubscriptions',
    Request.asPayload]

/-! ## What is made of it -/

namespace Subscription

variable {m : RequestMode} {least : Nat} {p : SubscriptionPayload} {s : Subscription}

/-- Filling in is done once: a second time there is nothing left to fill in, and no mode left that
stands for another. -/
theorem withStreamDefaults_idem (s : Subscription) (least : Nat) :
    (s.withStreamDefaults least).withStreamDefaults least = s.withStreamDefaults least := by
  unfold withStreamDefaults
  by_cases htarget : s.mode = some .targetDefined
  · simp [htarget, StreamMode.forTarget]
  · simp [htarget]

/-- What completes a payload completes the payload that says all that it says. -/
theorem Completes.asPayload (h : s.Completes m least p) : s.Completes m least s.asPayload := by
  refine ⟨rfl, rfl, ?_, ?_, ?_, ?_⟩
  · have hno : ¬(m = .stream ∧ s.asPayload.mode = some "TARGET_DEFINED") := by
      rintro ⟨hm, hmode⟩
      have hname := h.mode.symm.trans hmode
      split at hname
      · simp at hname
      · next hne => exact hne ⟨hm, hname⟩
    rw [if_neg hno]
    rfl
  · rw [Subscription.asPayload, h.sampleInterval]
    split <;> rfl
  · rw [Subscription.asPayload, h.suppressRedundant]
    split <;> rfl
  · rw [Subscription.asPayload, h.heartbeatInterval]
    split <;> rfl

end Subscription

/-! ## What fits -/

theorem Json.nat?_lt {j : Json} {n : Nat} (h : j.nat? = some n) : n < Nat.pow 2 64 := by
  unfold Json.nat? at h
  split at h
  · next i =>
    split at h
    · next hi =>
      cases h
      omega
    · cases h
  · cases h

theorem Json.Slot.read_of_optional {α : Type} {read : Json → Option α} {slot : Json.Slot} {a : α}
    (h : slot.optional read = some (some a)) : ∃ j, read j = some a := by
  unfold Json.Slot.optional at h
  split at h
  · cases h
  · next j _ =>
    obtain ⟨a', ha', heq⟩ := Option.map_eq_some_iff.1 h
    cases heq
    exact ⟨j, ha'⟩
  · cases h
  · cases h

theorem Json.Slot.lt_of_optional {slot : Json.Slot} {o : Option Nat}
    (h : slot.optional Json.nat? = some o) : ∀ n ∈ o, n < Nat.pow 2 64 := by
  rintro n rfl
  obtain ⟨_, hn⟩ := read_of_optional h
  exact Json.nat?_lt hn

namespace SubscriptionPayload

variable {j : Json} {p : SubscriptionPayload}

theorem fits_of_ofConfig? {id : Option Nat} (hid : ∀ i ∈ id, i < Nat.pow 2 64)
    (h : ofConfig? id j = some p) : p.Fits := by
  unfold ofConfig? at h
  obtain ⟨slots, -, h⟩ := Option.bind_eq_some_iff.1 h
  split at h
  · obtain ⟨path, -, h⟩ := Option.bind_eq_some_iff.1 h
    obtain ⟨mode, -, h⟩ := Option.bind_eq_some_iff.1 h
    obtain ⟨sample, hsample, h⟩ := Option.bind_eq_some_iff.1 h
    obtain ⟨suppress, -, h⟩ := Option.bind_eq_some_iff.1 h
    obtain ⟨heartbeat, hheartbeat, h⟩ := Option.bind_eq_some_iff.1 h
    cases h
    exact ⟨hid, Json.Slot.lt_of_optional hsample, Json.Slot.lt_of_optional hheartbeat⟩
  · cases h

theorem fits_of_ofJson? (h : ofJson? j = some p) : p.Fits := by
  unfold ofJson? at h
  obtain ⟨slots, -, h⟩ := Option.bind_eq_some_iff.1 h
  split at h
  · next config =>
    obtain ⟨id, hid, h⟩ := Option.bind_eq_some_iff.1 h
    have hlt := Json.Slot.lt_of_optional hid
    unfold Json.Slot.withDefault at h
    split at h
    · exact fits_of_ofConfig? hlt h
    · cases h
      exact ⟨hlt, by simp, by simp⟩
  · cases h

end SubscriptionPayload

theorem Json.read_of_list? {α : Type} {read : Json → Option α} {j : Json} {l : List α}
    (h : Json.list? read j = some l) : ∀ a ∈ l, ∃ j', read j' = some a := by
  unfold Json.list? at h
  split at h
  · next items =>
    induction items generalizing l with
    | nil =>
      cases h
      simp
    | cons j items ih =>
      rw [List.mapM_cons] at h
      obtain ⟨a, ha, h⟩ := Option.bind_eq_some_iff.1 h
      obtain ⟨rest, hrest, h⟩ := Option.bind_eq_some_iff.1 h
      cases h
      exact List.forall_mem_cons.2 ⟨⟨j, ha⟩, ih hrest⟩
  · cases h

namespace Payload

variable {j : Json} {p : Payload}

theorem fits_of_subscriptionsOfJson? {ps : List SubscriptionPayload}
    (h : subscriptionsOfJson? j = some ps) : ∀ q ∈ ps, q.Fits := by
  unfold subscriptionsOfJson? at h
  obtain ⟨slots, -, h⟩ := Option.bind_eq_some_iff.1 h
  split at h
  · unfold Json.Slot.withDefault at h
    split at h
    · intro q hq
      obtain ⟨_, hq⟩ := Json.read_of_list? h q hq
      exact SubscriptionPayload.fits_of_ofJson? hq
    · cases h
      simp
  · cases h

theorem fits_of_ofJson? (h : ofJson? j = some p) : ∀ q ∈ p.subscriptions, q.Fits := by
  unfold ofJson? at h
  obtain ⟨slots, -, h⟩ := Option.bind_eq_some_iff.1 h
  split at h
  · next subscriptions =>
    obtain ⟨config, -, h⟩ := Option.bind_eq_some_iff.1 h
    obtain ⟨ps, hps, h⟩ := Option.bind_eq_some_iff.1 h
    cases h
    cases ps with
    | none => simp
    | some ps =>
      obtain ⟨_, hps⟩ := Json.Slot.read_of_optional hps
      exact fits_of_subscriptionsOfJson? hps
  · cases h

end Payload

theorem Subscription.Completes.fits {m : RequestMode} {least : Nat} {p : SubscriptionPayload}
    {s : Subscription} (h : s.Completes m least p) (hp : p.Fits) : s.asPayload.Fits := by
  have hfilled {o : Option Nat} {n : Nat} (ho : ∀ i ∈ o, i < Nat.pow 2 64)
      (hn : n < Nat.pow 2 64) : o.getD n < Nat.pow 2 64 := by
    cases o with
    | none => exact hn
    | some i => exact ho i rfl
  have hdefault : min (2 * least) maxInterval < Nat.pow 2 64 :=
    Nat.lt_of_le_of_lt (Nat.min_le_right _ _) (by decide +kernel)
  refine ⟨fun i hi => hp.id i (h.id.trans hi), ?_, ?_⟩
  · rw [Subscription.asPayload, h.sampleInterval]
    split
    · rintro i hi
      obtain rfl := Option.some.inj hi
      exact hfilled hp.sampleInterval hdefault
    · exact hp.sampleInterval
  · rw [Subscription.asPayload, h.heartbeatInterval]
    split
    · rintro i hi
      obtain rfl := Option.some.inj hi
      exact hfilled hp.heartbeatInterval (by decide +kernel)
    · exact hp.heartbeatInterval

theorem exists_of_forall₂ {α β : Type} {R : α → β → Prop} {l : List α} {m : List β}
    (h : List.Forall₂ R l m) : ∀ b ∈ m, ∃ a ∈ l, R a b := by
  induction h with
  | nil => simp
  | cons hab _ ih =>
    refine List.forall_mem_cons.2 ⟨⟨_, List.mem_cons_self, hab⟩, fun b hb => ?_⟩
    obtain ⟨a, ha, hab⟩ := ih b hb
    exact ⟨a, List.mem_cons_of_mem _ ha, hab⟩

namespace Request

variable {id least : Nat} {p : Payload} {r : Request}

/-- What completes a payload completes the payload that says all that it says. -/
theorem Completes.asPayload (h : r.Completes id least p) : r.Completes id least r.asPayload := by
  refine ⟨h.id, rfl, rfl, ?_⟩
  have hcounted : r.asPayload.counted = r.subscriptions.map Subscription.asPayload := by
    refine List.filter_eq_self.2 fun q hq => ?_
    obtain ⟨s, -, rfl⟩ := List.mem_map.1 hq
    rfl
  rw [hcounted, List.forall₂_map_left_iff]
  refine List.forall₂_same.2 fun s hs => ?_
  obtain ⟨q, -, hq⟩ := exists_of_forall₂ h.subscriptions s hs
  exact hq.asPayload

theorem Completes.fits (h : r.Completes id least p) (hp : ∀ q ∈ p.subscriptions, q.Fits) :
    ∀ s ∈ r.subscriptions, s.asPayload.Fits := by
  intro s hs
  obtain ⟨q, hq, hcompletes⟩ := exists_of_forall₂ h.subscriptions s hs
  exact hcompletes.fits (hp q (List.mem_filter.1 hq).1)

end Request

/-- Every registered request has its entry in the operational view. -/
theorem Engine.viewOf_mem_view {e : Engine} {h : Handle} {key : Nat}
    (hkey : e.registry.find? key = some h) : ∃ list entries,
      e.view.toJson.member? "subscribe-requests" = some list ∧
      list.member? "subscribe-request" = some (.array entries) ∧
      (e.viewOf h).toJson ∈ entries := by
  have hmem : (key, h) ∈ e.registry.entries.entries := SortedMap.find?_eq_some.1 hkey
  have hviews : e.viewOf h ∈ e.registry.entries.entries.map fun r => e.viewOf r.2 :=
    List.mem_map.2 ⟨_, hmem, rfl⟩
  have hsome : (e.registry.entries.entries.map fun r => e.viewOf r.2).isEmpty = false :=
    List.isEmpty_eq_false_iff.2 (List.ne_nil_of_mem hviews)
  unfold Engine.view View.ofRequests
  rw [hsome]
  exact ⟨_, _, rfl, rfl, List.mem_map.2 ⟨_, hviews, rfl⟩⟩

/-- **What is shown can be submitted.** The operational view says of a request what parsing made of
its payload, neither more nor less of its options, and submitted again under the same id it is parsed
as the same request: filling in a second time changes nothing. -/
theorem Request.resubmitted {id least : Nat} {payload : Json} {r : Request}
    (hr : parse id payload least = .ok r) :
    (∀ (e : Engine) (h : Handle), h.request = r →
      r.ShownBy (e.viewOf h).toJson ∧
      parse id (resubmission (e.viewOf h).toJson) least = .ok r ∧
      ∀ key, e.registry.find? key = some h → ∃ list entries,
        e.view.toJson.member? "subscribe-requests" = some list ∧
        list.member? "subscribe-request" = some (.array entries) ∧
        (e.viewOf h).toJson ∈ entries) ∧
    ∀ s : Subscription,
      (s.withStreamDefaults least).withStreamDefaults least = s.withStreamDefaults least := by
  obtain ⟨p, hp, hcompletes, hne, hnodup⟩ := parse_eq_ok.1 hr
  refine ⟨?_, fun s => s.withStreamDefaults_idem least⟩
  rintro e h rfl
  refine ⟨shownBy_view hne _, ?_, fun key hkey => Engine.viewOf_mem_view hkey⟩
  have hfits := hcompletes.fits (Payload.fits_of_ofJson? hp)
  have hread : Payload.ofJson? (resubmission (e.viewOf h).toJson) = some h.request.asPayload :=
    Payload.ofJson?_resubmission hne hfits _
  exact parse_eq_ok.2 ⟨_, hread, hcompletes.asPayload, hne, hnodup⟩

namespace Request.Small

def handle : Handle := ⟨0, request⟩

/-- An engine with one request. -/
def engine : Engine :=
  { Engine.fresh Datastore.empty with registry := ⟨SortedMap.empty.insert 7 handle⟩, handles := 1 }

theorem stream_resubmitted :
    parse 7 (streamOf [targetDefined, nameless, sampled]) least = .ok request ∧
    request.ShownBy (engine.viewOf handle).toJson ∧
    parse 7 (resubmission (engine.viewOf handle).toJson) least = .ok request ∧
    (∃ list entries, engine.view.toJson.member? "subscribe-requests" = some list ∧
      list.member? "subscribe-request" = some (.array entries) ∧
      (engine.viewOf handle).toJson ∈ entries) := by
  have hparse : parse 7 (streamOf [targetDefined, nameless, sampled]) least = .ok request := by
    decide +kernel
  obtain ⟨hshown, hagain, hlisted⟩ := (resubmitted hparse).1 engine handle rfl
  exact ⟨hparse, hshown, hagain, hlisted 7 rfl⟩

end Request.Small

end Telemetry
