import Telemetry.Proofs.Calls

/-!
# Runs

An engine, the calls made on it and everything that happens without a call are a `System`. One call
is at work at a time; loops sample, time passes and data change between its steps and between calls.

* `System.Good`: what holds of a system at every moment, whatever steps led there
  (`Reachable.good`).
* `System.Turn`: what one step can do to the engine (`Good.turn`). Whatever is to hold along a run
  is shown for turns.
* `Engine.Returns`: however far a call has come, it can be brought to its end.
-/
namespace Telemetry

open Engine (Call Sound Rest Effect Registered)
open Work (Meets Course Move)

/-- An engine and the call that is at work on it, if there is one. -/
structure System where
  engine : Engine
  call : Option (Work (Except Error Unit))

namespace System

variable {s : Setup}

/-! ## Steps -/

inductive Step (s : Setup) : System → List Note → System → Prop where
  | call (e : Engine) (c : Call) : Step s ⟨e, none⟩ [] ⟨e, some (c.work s)⟩
  | move {w w' : Work (Except Error Unit)} {e e' : Engine} {ns : List Note}
    (m : Move s w e ns w' e') : Step s ⟨e, some w⟩ ns ⟨e', some w'⟩
  | answer (e : Engine) (r : Except Error Unit) : Step s ⟨e, some (.done r)⟩ [] ⟨e, none⟩
  | stir {e e' : Engine} {ns : List Note} (h : Stir s e ns e') : Step s ⟨e, none⟩ ns ⟨e', none⟩

/-- Any number of steps, with `P` at every moment. -/
inductive Run (s : Setup) (P : System → Prop) (x : System) : List Note → System → Prop where
  | here (first : P x) : Run s P x [] x
  | step {y z : System} {ns ns' : List Note} (before : Run s P x ns y) (st : Step s y ns' z)
    (next : P z) : Run s P x (ns ++ ns') z

theorem Run.last {P : System → Prop} {x y : System} {ns : List Note} (r : Run s P x ns y) : P y := by
  cases r with
  | here first => exact first
  | step _ _ next => exact next

/-- What does not hold at first and does at last begins with some step. -/
theorem Run.turning {P Q : System → Prop} {x z : System} {ns : List Note} (r : Run s P x ns z)
    (first : ¬Q x) (last : Q z) :
    ∃ ns₁ y ns₂ y', Run s P x ns₁ y ∧ Step s y ns₂ y' ∧ ¬Q y ∧ Q y' := by
  induction r with
  | here => exact absurd last first
  | @step y _ _ _ before st _ ih =>
    by_cases hy : Q y
    · exact ih hy
    · exact ⟨_, _, _, _, before, st, hy, last⟩

/-- The systems that a fresh engine can come to. -/
def Reachable (s : Setup) (x : System) : Prop :=
  ∃ d ns, Run s (fun _ => True) ⟨.fresh d, none⟩ ns x

theorem Reachable.step {x y : System} {ns : List Note} (hx : Reachable s x) (st : Step s x ns y) :
    Reachable s y :=
  let ⟨d, _, r⟩ := hx
  ⟨d, _, r.step st trivial⟩

theorem Reachable.run {P : System → Prop} {x y : System} {ns : List Note} (hx : Reachable s x)
    (r : Run s P x ns y) : Reachable s y := by
  induction r with
  | here => exact hx
  | step _ st _ ih => exact ih.step st

/-! ## What one step does -/

/-- What holds of a system at every moment: the engine is sound, and a call that is at work will
leave it at rest. -/
inductive Good (s : Setup) : System → Prop where
  | idle {e : Engine} (rest : Rest s e) : Good s ⟨e, none⟩
  | busy {e : Engine} {w : Work (Except Error Unit)} (sound : Sound s e)
    (meets : w.Meets s (Effect s fun _ => True) (fun _ _ e' => Rest s e') e) : Good s ⟨e, some w⟩

theorem Good.sound {x : System} (g : Good s x) : Sound s x.engine := by
  cases g with
  | idle rest => exact rest.sound
  | busy sound => exact sound

theorem Good.rest {e : Engine} (g : Good s ⟨e, none⟩) : Rest s e := by
  cases g with
  | idle rest => exact rest

/-- What a step can do to the engine, if calls may touch only the requests in `T`. -/
inductive Turn (s : Setup) (T : Handle → Prop) (x : Engine) : List Note → Engine → Prop where
  | still {ns : List Note} (reads : ∀ n ∈ ns, ∃ path a, n = .read path a) : Turn s T x ns x
  | effect {y : Engine} (f : Effect s T x y) : Turn s T x [.wrote x y] y
  | hold (l : Lock) : Turn s T x [] (x.hold l)
  | stir {y : Engine} {ns : List Note} (h : Stir s x ns y) : Turn s T x ns y

variable {T : Handle → Prop}

theorem turn_of_move {w w' : Work (Except Error Unit)} {e e' : Engine} {ns : List Note}
    {Q : List Note → Except Error Unit → Engine → Prop} (meets : w.Meets s (Effect s T) Q e)
    (m : Move s w e ns w' e') : Turn s T e ns e' := by
  obtain ⟨hwrites, -⟩ := Meets.move m meets
  cases m with
  | look | joined | gaveUp => exact .still fun _ hm => by cases hm
  | update => exact .effect (hwrites _ _ (List.mem_singleton.2 rfl))
  | read => exact .still fun n hm => ⟨_, _, List.mem_singleton.1 hm⟩
  | lock => exact .hold _
  | stir _ h => exact .stir h

theorem Good.turn {x y : System} {ns : List Note} (g : Good s x) (st : Step s x ns y) :
    Turn s (fun _ => True) x.engine ns y.engine := by
  cases st with
  | call | answer => exact .still fun _ hm => by cases hm
  | stir h => exact .stir h
  | move m =>
    cases g with
    | busy sound meets => exact turn_of_move meets m

theorem Turn.sound {x y : Engine} {ns : List Note} (hx : Sound s x) (t : Turn s T x ns y) :
    Sound s y := by
  cases t with
  | still => exact hx
  | effect f => exact f.sound hx
  | hold l => exact hx.hold l
  | stir h => exact h.sound hx

/-- Only registered requests are reported on. -/
theorem Turn.sent {x y : Engine} {ns : List Note} (hx : Sound s x) (t : Turn s T x ns y) :
    ∃ new, y.datastore.sent = x.datastore.sent ++ new ∧
      ∀ n ∈ new, ∃ h, x.Registered h ∧ n.event.request = h.id := by
  cases t with
  | still | hold => exact Engine.sent_same rfl
  | effect f =>
    obtain ⟨new, hnew, hn⟩ := f.sent hx
    exact ⟨new, hnew, fun n hm => let ⟨h, _, hr, hid⟩ := hn n hm; ⟨h, hr, hid⟩⟩
  | stir h => exact h.sent hx

/-- While a transaction is pending nothing is registered or deregistered. -/
theorem Turn.registry_of_pending {x y : Engine} {ns : List Note} (t : Turn s T x ns y) {p : Pending}
    (hp : x.pending = some p) : y.registry = x.registry ∧ y.handles = x.handles := by
  cases t with
  | still | hold => exact ⟨rfl, rfl⟩
  | effect f => exact f.registry_of_pending hp
  | stir h => exact ⟨congrArg Engine.Core.registry h.core, congrArg Engine.Core.handles h.core⟩

/-! ## What holds at every moment -/

theorem Good.step {x y : System} {ns : List Note} (g : Good s x) (st : Step s x ns y) :
    Good s y := by
  have hs := (g.turn st).sound g.sound
  cases st with
  | call e c => exact .busy hs (c.meets g.rest)
  | stir h => exact .idle (g.rest.of_core hs h.core)
  | move m =>
    cases g with
    | busy sound meets => exact .busy hs (Meets.move m meets).2
  | answer =>
    cases g with
    | busy sound meets => exact .idle meets

theorem Good.run {P : System → Prop} {x y : System} {ns : List Note} (g : Good s x)
    (r : Run s P x ns y) : Good s y := by
  induction r with
  | here => exact g
  | step _ st _ ih => exact ih.step st

theorem Reachable.good {x : System} (hx : Reachable s x) : Good s x :=
  let ⟨d, _, r⟩ := hx
  (Good.idle (Engine.rest_fresh s d)).run r

/-- While one transaction is pending, what is registered stays so. -/
theorem Good.registry_of_pending {x y : System} {ns : List Note} {p : Pending} (g : Good s x)
    (r : Run s (fun z => z.engine.pending = some p) x ns y) :
    y.engine.registry = x.engine.registry ∧ y.engine.handles = x.engine.handles := by
  induction r with
  | here => exact ⟨rfl, rfl⟩
  | step before st _ ih =>
    obtain ⟨hreg, hhandles⟩ := ((g.run before).turn st).registry_of_pending before.last
    exact ⟨hreg.trans ih.1, hhandles.trans ih.2⟩

end System

/-! ## Whole calls -/

namespace Engine

variable {s : Setup} {c : Call} {e : Engine}

/-- The call takes this course to its end. -/
def Performs (s : Setup) (c : Call) (e : Engine) (ns : List Note) (r : Except Error Unit)
    (e' : Engine) : Prop := Course s (c.work s) e ns (.done r) e'

/-- Whichever course the call takes, and however far it has come, it can be brought to its end. -/
def Returns (s : Setup) (c : Call) (e : Engine) : Prop :=
  ∀ {ns w e₁}, Course s (c.work s) e ns w e₁ → ∃ ns' r e₂, Course s w e₁ ns' (.done r) e₂

theorem Rest.returns (hr : Rest s e) (c : Call) : Returns s c e := by
  intro ns w e₁ hc
  obtain ⟨ns', hrun⟩ := Meets.run (Meets.along hc (c.meets hr)).2
  exact ⟨ns', _, _, hrun⟩

/-- Running the call with nothing in between is one of its courses. -/
theorem Rest.performs (hr : Rest s e) (c : Call) :
    ∃ ns, Performs s c e ns ((c.work s).run s e).2 ((c.work s).run s e).1 :=
  Meets.run (c.meets hr)

/-- A whole call is a run. -/
theorem Performs.run {ns : List Note} {r : Except Error Unit} {e' : Engine}
    (hp : Performs s c e ns r e') :
    System.Run s (fun _ => True) ⟨e, none⟩ ns ⟨e', none⟩ := by
  have moves {w w' : Work (Except Error Unit)} {x y : Engine} {ns ns' : List Note}
      (hc : Course s w x ns w' y) (before : System.Run s (fun _ => True) ⟨e, none⟩ ns' ⟨x, some w⟩) :
      System.Run s (fun _ => True) ⟨e, none⟩ (ns' ++ ns) ⟨y, some w'⟩ := by
    induction hc generalizing ns' with
    | refl => rwa [List.append_nil]
    | head m _ ih =>
      rw [← List.append_assoc]
      exact ih (before.step (.move m) trivial)
  have hrun := (moves hp ((System.Run.here trivial).step (.call e c) trivial)).step (.answer e' r)
    trivial
  simpa using hrun

theorem Performs.reachable {ns : List Note} {r : Except Error Unit} {e' : Engine}
    (hp : Performs s c e ns r e') (he : System.Reachable s ⟨e, none⟩) :
    System.Reachable s ⟨e', none⟩ := he.run hp.run

end Engine

/-! ## A small engine -/

namespace Small

/-- One container with one leaf. -/
def setup : Setup where
  schema := ⟨[⟨"m", [⟨"c", .container, [], [⟨"x", .leaf, [], []⟩]⟩]⟩]⟩
  least := 1_000_000_000
  readTimeout := 1_000_000_000
  stopTimeout := 1_000_000_000
  revertTimeout := 1_000_000_000
  moduleName := "t"
  topic := "t"

def engine : Engine := .fresh { Datastore.empty with
  trees := .ofList [("c", .object [("x", Json.nat 3)])] }

/-- A STREAM request for all there is. -/
def request : Request where
  id := 1
  mode := .stream
  updatesOnly := false
  subscriptions := [⟨5, "/m:c", some .sample, some (2 * 1_000_000_000), some false, some 0⟩]

def payload : Json := .object [
  ("config", .object [("mode", .string "STREAM")]),
  ("subscriptions", .object [("subscription", .array [.object [
    ("id", Json.nat 5),
    ("config", .object [("path", .string "/m:c"), ("mode", .string "SAMPLE")])]])])]

def creation : Change :=
  .creation "/t:subscribe-requests/subscribe-request[id='1']" payload

def deletion : Change := .deletion "/t:subscribe-requests/subscribe-request[id='1']"

theorem reachable : System.Reachable setup ⟨engine, none⟩ := ⟨_, _, .here trivial⟩

/-- The engine after a call with nothing in between. -/
def after (c : Call) (e : Engine) : Engine := ((c.work setup).run setup e).1

theorem reachable_after {e : Engine} (he : System.Reachable setup ⟨e, none⟩) (c : Call) :
    System.Reachable setup ⟨after c e, none⟩ :=
  let ⟨_, hp⟩ := he.good.rest.performs c
  hp.reachable he

/-- The engine once the request was created. -/
def established : Engine := after (.phase (.done 7)) (after (.phase (.change 7 [creation])) engine)

theorem reachable_established : System.Reachable setup ⟨established, none⟩ :=
  reachable_after (reachable_after reachable _) _

end Small

end Telemetry
