import Telemetry.Datastore.StandIn
import Telemetry.Proofs.Answers
import Telemetry.Proofs.Reading
import Telemetry.Proofs.System

/-!
# Servers that follow each other

Servers of one module come and go on a datastore: each registers for changes, calls and reads,
serves and drops its endpoints, and then the next one registers. A subscription and the registration
of an operation replace those before them, but readers are asked in the order in which they
registered.

Results:
* `Datastore.Succession`: what has happened on a datastore, as far as the servers of a module go;
  `Succession.serve` and `Succession.finish` tie it to the server of a timeline, and
  `Succession.enlist_other` to the servers of other modules;
* `Datastore.Succession.kept`: what is so after every succession;
* `Datastore.Succession.deliver_newest`, `Datastore.Succession.deliver_read`: where messages arrive;
* `Timeline.newest_registrant`: changes and calls reach the newest server and are answered by it,
  and so are reads as long as it is the first one; from the second server on every read fails,
  because it is sent to the first;
* `Small.restarted_unread`: this does happen.
-/
namespace Telemetry

/-! ## Posts -/

/-- Where a server receives. -/
structure Post where
  changes : Endpoint
  calls : Endpoint
  reads : Endpoint
  deriving DecidableEq, Repr

namespace Post

def endpoint (p : Post) : Channel → Endpoint
  | .change => p.changes
  | .operation => p.calls
  | .operationalRead => p.reads

def endpoints (p : Post) : List Endpoint := [p.changes, p.calls, p.reads]

theorem endpoint_mem (p : Post) (c : Channel) : p.endpoint c ∈ p.endpoints := by
  cases c <;> simp [endpoint, endpoints]

end Post

/-- The message is for the servers of a module. -/
def Message.For (m : String) : Message → Prop
  | .phase m' _ => m' = m
  | .call name _ => name = pollOperation m
  | .read path => (requestsPath m).toList <+: path.toList

namespace Datastore

variable {ε : Type} {m : String} {d d' : Datastore ε} {former : List Post} {current : Option Post}
  {p : Post}

/-- Registers a server of a module. -/
def enlist (d : Datastore ε) (m : String) : Post × Datastore ε :=
  let (c, d) := d.subscribe m
  let (o, d) := d.registerOperation (pollOperation m)
  let (r, d) := d.registerReader (requestsPath m)
  (⟨c, o, r⟩, d)

/-! ## Successions -/

/-- Readers of one of the paths are asked about something below the other. -/
def Near (m path : String) : Prop :=
  path.toList <+: (requestsPath m).toList ∨ (requestsPath m).toList <+: path.toList

instance (m path : String) : Decidable (Near m path) := inferInstanceAs (Decidable (_ ∨ _))

/-- Nobody else has registered or dropped anything. -/
structure Quiet (d d' : Datastore ε) : Prop where
  subscribers : d'.subscribers = d.subscribers
  operations : d'.operations = d.operations
  readers : d'.readers = d.readers
  closed : d'.closed = d.closed
  endpoints : d'.endpoints = d.endpoints

/-- What others do beside the servers of a module: anything with data, reads and notifications,
registrations of their own, and dropping endpoints that are not those of a server at work. -/
inductive Aside (m : String) (current : Option Post) (d : Datastore ε) : Datastore ε → Prop where
  | quiet {d' : Datastore ε} (quiet : Quiet d d') : Aside m current d d'
  | subscribe {m' : String} (other : m' ≠ m) : Aside m current d (d.subscribe m').2
  | operation {name : String} (other : name ≠ pollOperation m) :
    Aside m current d (d.registerOperation name).2
  | reader {path : String} (apart : ¬Near m path) : Aside m current d (d.registerReader path).2
  | close {es : List Endpoint} (known : ∀ e : Nat, e ∈ es → e < d.endpoints)
    (others : ∀ p ∈ current, ∀ e ∈ es, e ∉ p.endpoints) : Aside m current d (d.close es)

/-- A datastore on which servers of a module have come and gone: those that have finished, the first
one first, and the one that serves now, if there is one. -/
inductive Succession (m : String) : Datastore ε → List Post → Option Post → Prop where
  | start {d : Datastore ε} (known : ∀ e : Nat, e ∈ d.closed → e < d.endpoints)
    (unread : ∀ r ∈ d.readers, ¬Near m r.1) : Succession m d [] none
  | enlist {d : Datastore ε} {former : List Post} (h : Succession m d former none) :
    Succession m (d.enlist m).2 former (some (d.enlist m).1)
  | leave {d : Datastore ε} {former : List Post} {p : Post} (h : Succession m d former (some p)) :
    Succession m (d.close p.endpoints) (former ++ [p]) none
  | aside {d d' : Datastore ε} {former : List Post} {current : Option Post}
    (h : Succession m d former current) (a : Aside m current d d') : Succession m d' former current

theorem succession_empty (m : String) : Succession m (empty : Datastore ε) [] none :=
  .start (by simp [empty]) (by simp [empty])

/-! ## What every succession keeps -/

/-- The servers as the registrations show them. -/
structure Kept (m : String) (d : Datastore ε) (former : List Post) (current : Option Post) :
    Prop where
  subscriber : ∀ p ∈ current, d.subscribers.find? m = some p.changes
  operation : ∀ p ∈ current, d.operations.find? (pollOperation m) = some p.calls
  /-- All of them, the first one first. -/
  readers : d.readers.filter (fun r => decide (Near m r.1))
    = (former ++ current.toList).map fun p => (requestsPath m, p.reads)
  gone : ∀ p ∈ former, ∀ e ∈ p.endpoints, e ∈ d.closed
  receiving : ∀ p ∈ current, ∀ e ∈ p.endpoints, e ∉ d.closed
  known : ∀ e : Nat, e ∈ d.closed → e < d.endpoints
  posted : ∀ p ∈ current, ∀ e : Nat, e ∈ p.endpoints → e < d.endpoints

theorem near_self (m : String) : Near m (requestsPath m) := .inl List.prefix_rfl

/-- The endpoints of a new server are the next three. -/
theorem mem_endpoints_enlist {e : Nat} (h : e ∈ (d.enlist m).1.endpoints) :
    d.endpoints ≤ e ∧ e < (d.enlist m).2.endpoints := by
  have hnew : (d.enlist m).1.endpoints = [d.endpoints, d.endpoints + 1, d.endpoints + 2] := rfl
  have hafter : (d.enlist m).2.endpoints = d.endpoints + 3 := rfl
  rw [hnew, List.mem_cons, List.mem_cons, List.mem_singleton] at h
  rw [hafter]
  omega

theorem Kept.enlist (k : Kept m d former none) :
    Kept m (d.enlist m).2 former (some (d.enlist m).1) where
  subscriber p hp := by
    cases hp
    exact SortedMap.find?_insert_self ..
  operation p hp := by
    cases hp
    exact SortedMap.find?_insert_self ..
  readers := by
    have hreaders : (d.enlist m).2.readers = d.readers ++ [(requestsPath m, (d.enlist m).1.reads)] :=
      rfl
    rw [hreaders, List.filter_append, k.readers, List.filter_cons_of_pos (by simpa using near_self m)]
    simp
  gone := k.gone
  receiving p hp e he hclosed := by
    cases hp
    exact absurd (k.known e hclosed) (Nat.not_lt.2 (mem_endpoints_enlist he).1)
  known e he := Nat.lt_trans (k.known e he) (Nat.lt_add_of_pos_right (by decide : 0 < 3))
  posted p hp e he := by
    cases hp
    exact (mem_endpoints_enlist he).2

theorem Kept.leave (k : Kept m d former (some p)) :
    Kept m (d.close p.endpoints) (former ++ [p]) none where
  subscriber q hq := by cases hq
  operation q hq := by cases hq
  readers := by simpa [close] using k.readers
  gone q hq e he := by
    rcases List.mem_append.1 hq with hq | hq
    · exact List.mem_append_right _ (k.gone q hq e he)
    · cases List.mem_singleton.1 hq
      exact List.mem_append_left _ he
  receiving q hq := by cases hq
  known e he := by
    rcases List.mem_append.1 he with he | he
    · exact k.posted p rfl e he
    · exact k.known e he
  posted q hq := by cases hq

theorem Kept.aside (k : Kept m d former current) (a : Aside m current d d') :
    Kept m d' former current := by
  have hnext : ∀ e : Nat, e < d.endpoints → e < d.endpoints + 1 := fun e h => Nat.lt_succ_of_lt h
  cases a with
  | quiet q =>
    refine ⟨?_, ?_, ?_, ?_, ?_, ?_, ?_⟩
    · rw [q.subscribers]; exact k.subscriber
    · rw [q.operations]; exact k.operation
    · rw [q.readers]; exact k.readers
    · rw [q.closed]; exact k.gone
    · rw [q.closed]; exact k.receiving
    · rw [q.closed, q.endpoints]; exact k.known
    · rw [q.endpoints]; exact k.posted
  | subscribe other =>
    refine { k with subscriber := fun p hp => ?_, known := fun e he => hnext e (k.known e he),
                    posted := fun p hp e he => hnext e (k.posted p hp e he) }
    exact (SortedMap.find?_insert_of_ne _ (Ne.symm other)).trans (k.subscriber p hp)
  | operation other =>
    refine { k with operation := fun p hp => ?_, known := fun e he => hnext e (k.known e he),
                    posted := fun p hp e he => hnext e (k.posted p hp e he) }
    exact (SortedMap.find?_insert_of_ne _ (Ne.symm other)).trans (k.operation p hp)
  | @reader path apart =>
    refine { k with readers := ?_, known := fun e he => hnext e (k.known e he),
                    posted := fun p hp e he => hnext e (k.posted p hp e he) }
    change (d.readers ++ [(path, d.endpoints)]).filter _ = _
    rw [List.filter_append, k.readers, List.filter_cons_of_neg (by simpa using apart)]
    simp
  | @close es known others =>
    refine { k with gone := fun p hp e he => List.mem_append_right _ (k.gone p hp e he),
                    receiving := fun p hp e he hclosed => ?_, known := fun e he => ?_ }
    · rcases List.mem_append.1 hclosed with hclosed | hclosed
      · exact others p hp e hclosed he
      · exact k.receiving p hp e he hclosed
    · rcases List.mem_append.1 he with he | he
      · exact known e he
      · exact k.known e he

theorem Succession.kept (h : Succession m d former current) : Kept m d former current := by
  induction h with
  | start known unread =>
    refine ⟨fun _ hp => ?_, fun _ hp => ?_, ?_, fun _ hp => ?_, fun _ hp => ?_, known,
      fun _ hp => ?_⟩
    · cases hp
    · cases hp
    · exact List.filter_eq_nil_iff.2 fun r hr => by simpa using unread r hr
    · cases hp
    · cases hp
    · cases hp
  | enlist _ ih => exact ih.enlist
  | leave _ ih => exact ih.leave
  | aside _ a ih => exact ih.aside a

/-! ## Where messages arrive -/

/-- The first server that ever registered is asked. -/
theorem Kept.addressee_read (k : Kept m d former current) {path : String}
    (hpath : (requestsPath m).toList <+: path.toList) {q : Post}
    (hq : (former ++ current.toList).head? = some q) : d.addressee (.read path) = .ok q.reads := by
  let asked (r : String × Endpoint) : Bool := r.1.toList.isPrefixOf path.toList
  have hnear (r : String × Endpoint) (hr : asked r = true) : Near m r.1 :=
    List.prefix_or_prefix_of_prefix (List.isPrefixOf_iff_prefix.1 hr) hpath
  have hboth : (fun r => decide (decide (Near m r.1) = true ∧ asked r = true)) = asked := by
    funext r
    cases hr : asked r with
    | false => simp
    | true => simp [hnear r hr]
  have hasked : asked (requestsPath m, q.reads) = true := List.isPrefixOf_iff_prefix.2 hpath
  obtain ⟨rest, hposts⟩ := List.head?_eq_some_iff.1 hq
  have hfind : d.readers.find? (fun r => r.1.toList.isPrefixOf path.toList)
      = some (requestsPath m, q.reads) := by
    change d.readers.find? asked = _
    rw [← hboth, ← List.find?_filter, k.readers, hposts, List.map_cons,
      List.find?_cons_of_pos hasked]
  simp only [addressee, hfind]

theorem deliver_of_addressee {msg : Message} {e : Endpoint} (h : d.addressee msg = .ok e) :
    d.deliver msg = if e ∈ d.closed then .error (.receiverGone msg.channel) else .ok e := by
  rw [deliver, h]

/-- Changes and calls arrive at the newest server; so do reads, if it is the first. -/
theorem Succession.deliver_newest (h : Succession m d former (some p)) {msg : Message} (hm : msg.For m)
    (hfirst : msg.channel = .operationalRead → former = []) :
    d.deliver msg = .ok (p.endpoint msg.channel) := by
  have k := h.kept
  have haddressee : d.addressee msg = .ok (p.endpoint msg.channel) := by
    cases msg with
    | phase m' ph =>
      obtain rfl : m' = m := hm
      simp only [addressee, k.subscriber p rfl]
      rfl
    | call name input =>
      obtain rfl : name = pollOperation m := hm
      simp only [addressee, k.operation p rfl]
      rfl
    | read path =>
      obtain rfl := hfirst rfl
      exact k.addressee_read hm rfl
  rw [deliver_of_addressee haddressee, if_neg (k.receiving p rfl _ (p.endpoint_mem _))]

/-- Reads are sent to the first server, long after it has finished. -/
theorem Succession.deliver_read (h : Succession m d former (some p)) {path : String}
    (hpath : (requestsPath m).toList <+: path.toList) (hformer : former ≠ []) :
    d.deliver (.read path) = .error (.receiverGone .operationalRead) := by
  have k := h.kept
  obtain ⟨q, former, rfl⟩ := List.exists_cons_of_ne_nil hformer
  have hgone : q.reads ∈ d.closed :=
    k.gone q List.mem_cons_self _ (q.endpoint_mem .operationalRead)
  rw [deliver_of_addressee (k.addressee_read hpath rfl), if_pos hgone]
  rfl

/-! ## Servers -/

theorem takeWhile_requestsPath (hm : ':' ∉ m.toList) (rest : List Char) :
    ((requestsPath m).toList ++ rest).takeWhile (· ≠ ':') = '/' :: m.toList := by
  have hpath : (requestsPath m).toList ++ rest
      = ('/' :: m.toList) ++ ':' :: (Target.containerName.toList ++ rest) := by
    have hprinted : requestsPath m = "/" ++ m ++ ":" ++ Target.containerName := rfl
    simp [hprinted]
  have hname : ∀ c ∈ '/' :: m.toList, decide (c ≠ ':') = true := by
    intro c hc
    rcases List.mem_cons.1 hc with rfl | hc
    · decide
    · simpa using fun heq : c = ':' => hm (heq ▸ hc)
  rw [hpath, List.takeWhile_append_of_pos hname, List.takeWhile_cons_of_neg (by decide),
    List.append_nil]

theorem eq_of_requestsPath_front {m' : String} (hm : ':' ∉ m.toList) (hm' : ':' ∉ m'.toList)
    (h : (requestsPath m).toList <+: (requestsPath m').toList) : m = m' := by
  obtain ⟨rest, heq⟩ := h
  have hname := takeWhile_requestsPath hm rest
  rw [heq, ← List.append_nil (requestsPath m').toList, takeWhile_requestsPath hm' []] at hname
  exact (String.toList_inj.1 (List.cons.inj hname).2).symm

/-- Servers of other modules do not disturb, as long as no name has a colon. -/
theorem Succession.enlist_other (h : Succession m d former current) {m' : String}
    (hm : ':' ∉ m.toList) (hm' : ':' ∉ m'.toList) (other : m' ≠ m) :
    Succession m (d.enlist m').2 former current := by
  have operation : pollOperation m' ≠ pollOperation m := fun heq => other (by
    have hprinted (m : String) : pollOperation m = "/" ++ m ++ ":poll" := rfl
    simpa [hprinted, ← String.toList_inj] using heq)
  have apart : ¬Near m (requestsPath m') := by
    rintro (above | below)
    · exact other (eq_of_requestsPath_front hm' hm above)
    · exact other (eq_of_requestsPath_front hm hm' below).symm
  exact ((h.aside (.subscribe other)).aside (.operation operation)).aside (.reader apart)

/-- A server that starts is the newest one. -/
theorem Succession.serve {t : Timeline}
    (h : Succession t.setup.moduleName t.engine.datastore former none) :
    ∃ p, t.serve.endpoints = p.endpoints ∧
      Succession t.setup.moduleName t.serve.engine.datastore former (some p) :=
  ⟨_, rfl, h.enlist⟩

/-- A server that has finished is a former one. -/
theorem Succession.finish {t : Timeline} (h : Succession m t.engine.datastore former (some p))
    (here : t.endpoints = p.endpoints) :
    Succession m t.finish.engine.datastore (former ++ [p]) none := by
  obtain ⟨calls, heq⟩ := t.finish_eq
  rw [heq, here]
  exact h.leave

end Datastore

/-! ## Who is served -/

namespace Timeline

open Datastore

variable {t : Timeline} {m : String} {former : List Post} {p : Post}

/-- While the newest server of a module receives, changes and calls for the module reach it, and
what their senders get is what its own work on them came to. So it is with reads below the view of
the requests if it is the first server of the module. If it is not, every such read is sent to the
first one and fails. -/
theorem newest_registrant (h : Succession m t.engine.datastore former (some p))
    (here : t.endpoints = p.endpoints) (fair : t.traffic.Fair) :
    (∀ msg : Message, msg.For m → (msg.channel = .operationalRead → former = []) →
      t.engine.datastore.deliver msg = .ok (p.endpoint msg.channel) ∧
      (∀ standIns, t.engine.datastore.ask standIns msg =
        ((standIns.find? (p.endpoint msg.channel)).getD .silent).answer msg) ∧
      ∀ i next wait fuel, t.Next i (.ask msg next) → t.current = some ⟨.call i, wait⟩ →
        Traffic.Followed i (p.endpoint msg.channel) msg next
          ((t.course fuel).map fun x => x.2.traffic)) ∧
    (former ≠ [] → ∀ path : String, (requestsPath m).toList <+: path.toList →
      t.engine.datastore.deliver (.read path) = .error (.receiverGone .operationalRead) ∧
      (∀ standIns, t.engine.datastore.ask standIns (.read path) =
        .error (.receiverGone .operationalRead)) ∧
      ∀ i next wait, t.Next i (.ask (.read path) next) →
        (t.takeCall i wait).calls[i]? =
          some (.script (next (.error (.receiverGone .operationalRead))))) := by
  constructor
  · intro msg hm hfirst
    have arrives := h.deliver_newest hm hfirst
    refine ⟨arrives, fun standIns => ?_, fun i next wait fuel hnext current => ?_⟩
    · rw [ask, arrives]
    · exact followed_course fair (here ▸ p.endpoint_mem _) arrives hnext current fuel
  · intro hformer path hpath
    have refused := h.deliver_read hpath hformer
    refine ⟨refused, fun standIns => ?_, fun i next wait hnext => ?_⟩
    · rw [ask, refused]
    · exact refused_takeCall refused hnext wait

end Timeline

namespace Small

open Datastore

/-- A second server has started after the first one had finished. A poll is to be sent, and a read
of the view of all requests. -/
def restarted : Timeline :=
  { (Timeline.ofEngine setup engine).serve.finish.serve with
    calls := [.script (.poll "t" 1), .script (.send (.read "/t:subscribe-requests"))]
    current := some ⟨.call 0, .ready⟩ }

theorem succession_restarted :
    Succession "t" restarted.engine.datastore [⟨0, 1, 2⟩] (some ⟨3, 4, 5⟩) :=
  have first : Succession "t" engine.datastore [] none :=
    (succession_empty "t").aside (.quiet ⟨rfl, rfl, rfl, rfl, rfl⟩)
  first.enlist.leave.enlist

/-- The poll is answered by the second server, and the read fails. -/
theorem restarted_polled :
    Succession "t" restarted.engine.datastore [⟨0, 1, 2⟩] (some ⟨3, 4, 5⟩) ∧
    restarted.endpoints = [3, 4, 5] ∧ restarted.traffic.Fair ∧
    (∀ fuel, Traffic.Followed 0 4 (.call "/t:poll" (.object [("id", Json.nat 1)])) .done
      ((restarted.course fuel).map fun x => x.2.traffic)) ∧
    (restarted.takeCall 1 .ready).calls[1]? =
      some (.script (.done (.error (.receiverGone .operationalRead)))) := by
  have fair : restarted.traffic.Fair := Traffic.fair_of_quiet rfl nofun
  obtain ⟨served, unread⟩ := Timeline.newest_registrant succession_restarted rfl fair
  have polled := served (.call "/t:poll" (.object [("id", Json.nat 1)])) rfl nofun
  refine ⟨succession_restarted, rfl, fair, fun fuel => ?_, ?_⟩
  · exact polled.2.2 0 .done .ready fuel (.inl rfl) rfl
  · exact (unread (by decide) "/t:subscribe-requests" List.prefix_rfl).2.2 1 .done .ready (.inl rfl)

/-- A server is receiving, and yet the view of the requests cannot be read. -/
theorem restarted_unread :
    Succession "t" restarted.engine.datastore [⟨0, 1, 2⟩] (some ⟨3, 4, 5⟩) ∧
    (∀ e ∈ restarted.endpoints, e ∉ restarted.engine.datastore.closed) ∧
    Message.For "t" (.read "/t:subscribe-requests") ∧
    restarted.engine.datastore.deliver (.read "/t:subscribe-requests") ≠ .ok 5 ∧
    restarted.engine.datastore.deliver (.read "/t:subscribe-requests") =
      .error (.receiverGone .operationalRead) := by
  have unread : restarted.engine.datastore.deliver (.read "/t:subscribe-requests") =
      .error (.receiverGone .operationalRead) := by rfl
  exact ⟨succession_restarted, by decide, List.prefix_rfl, unread ▸ nofun, unread⟩

end Small

end Telemetry
