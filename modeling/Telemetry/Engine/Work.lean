import Telemetry.Engine.State

/-!
# Work on an engine

What an engine does in answer to a call is a `Work`: a tree of single steps that says where other
work may come in between. Looking at the state and changing it are immediate. Reading from the
datastore, taking a lock and waiting for a loop to end are not: there, and nowhere else, work can be
suspended.

Work is run in two ways. `Work.run` runs it to its end with nothing in between. `Work.advance` runs
it up to the next change of state, as far as it goes without waiting and within a budget, and
`Work.resume` takes it past the point it waits at; every interleaving is made of these two.
-/
namespace Telemetry

inductive Work (α : Type) where
  | done (a : α)
  | look (k : Engine → Work α)
  | update (f : Engine → Engine) (k : Work α)
  /-- Reads the leaves under a path. -/
  | read (path : String) (k : Except Error Leaves → Work α)
  /-- Waits for a lock and takes it. -/
  | lock (l : Lock) (k : Work α)
  /-- Waits for a loop to end, within the stop timeout; tells whether it did. -/
  | join (ref : Nat) (k : Bool → Work α)

namespace Work

variable {α β : Type}

def bind : Work α → (α → Work β) → Work β
  | done a, f => f a
  | look k, f => look fun e => (k e).bind f
  | update g k, f => update g (k.bind f)
  | read path k, f => read path fun r => (k r).bind f
  | lock l k, f => lock l (k.bind f)
  | join ref k, f => join ref fun ended => (k ended).bind f

instance : Monad Work where
  pure := done
  bind := bind

def change (f : Engine → Engine) : Work Unit := update f (done ())

def unlock (l : Lock) : Work Unit := change (·.free l)

@[simp] theorem pure_bind (a : α) (f : α → Work β) : (pure a : Work α) >>= f = f a := rfl

@[simp] theorem bind_pure (w : Work α) : w >>= pure = w := by
  show w.bind done = w
  induction w with
  | done => rfl
  | look k ih => simp [bind, ih]
  | update g k ih => simp [bind, ih]
  | read path k ih => simp [bind, ih]
  | lock l k ih => simp [bind, ih]
  | join ref k ih => simp [bind, ih]

theorem bind_assoc {γ : Type} (w : Work α) (f : α → Work β) (g : β → Work γ) :
    w >>= f >>= g = w >>= fun a => f a >>= g := by
  show (w.bind f).bind g = w.bind fun a => (f a).bind g
  induction w with
  | done => rfl
  | look k ih => simp [bind, ih]
  | update g k ih => simp [bind, ih]
  | read path k ih => simp [bind, ih]
  | lock l k ih => simp [bind, ih]
  | join ref k ih => simp [bind, ih]

/-! ## Uninterrupted -/

/-- How long the datastore needs for a read. -/
def readDelay (e : Engine) : Nat := Cadence.bounded (e.datastore.readDelay.getD 0)

/-- How long a read takes: as long as the datastore needs, but no longer than it may. -/
def readTime (s : Setup) (e : Engine) : Nat := min (readDelay e) (Cadence.bounded s.readTimeout)

/-- Whether a read takes longer than it may. -/
def tooSlow (s : Setup) (e : Engine) : Bool :=
  decide (Cadence.bounded s.readTimeout < readDelay e)

/-- How long a stop waits for a loop. -/
def stopTime (s : Setup) : Nat := Cadence.bounded s.stopTimeout

/-- The engine later by so much time. -/
def later (e : Engine) (ns : Nat) : Engine := { e with now := Cadence.firing (e.now + ns) }

/-- A loop that was told to end does so at once; one that was not is waited for in vain. -/
def joinNow (s : Setup) (ref : Nat) (e : Engine) : Engine × Bool :=
  match e.loops.find? ref with
  | none => (e, true)
  | some l => if l.cancelled then (e.endLoop ref, true) else (later e (stopTime s), false)

/-- Runs work to its end with nothing else going on. -/
def run (s : Setup) : Work α → Engine → Engine × α
  | done a, e => (e, a)
  | look k, e => (k e).run s e
  | update f k, e => k.run s (f e)
  | read path k, e =>
    (k ((later e (readTime s e)).answer s path (tooSlow s e))).run s (later e (readTime s e))
  | lock l k, e => k.run s (e.hold l)
  | join ref k, e => (k (joinNow s ref e).2).run s (joinNow s ref e).1

theorem run_bind (s : Setup) (w : Work α) (f : α → Work β) (e : Engine) :
    (w >>= f).run s e = (f (w.run s e).2).run s (w.run s e).1 := by
  show (w.bind f).run s e = _
  induction w generalizing e with
  | done => rfl
  | look k ih => simp only [bind, run, ih]
  | update g k ih => simp only [bind, run, ih]
  | read path k ih => simp only [bind, run, ih]
  | lock l k ih => simp only [bind, run, ih]
  | join ref k ih => simp only [bind, run, ih]

/-! ## In steps -/

/-- What suspended work waits for. -/
inductive Wait where
  /-- The end of a read, which then has its answer or has run out of time. -/
  | reading (time : Nat) (expired : Bool)
  | lock (l : Lock)
  /-- The end of a loop, or else a time. -/
  | loop (ref : Nat) (time : Nat)
  deriving DecidableEq, Repr

/-- How far work has come. -/
inductive Reached (α : Type) where
  | done (a : α)
  /-- It has changed the state and can go on at once. -/
  | going (w : Work α)
  | waiting (w : Work α) (wait : Wait)
  /-- Its budget is used up. What it tries next may be a wait that has begun already. -/
  | yielding (w : Work α) (wait : Option Wait)

/-- Runs work until it is done, has changed the state, has to wait or has used up its budget, and
gives what is left of that. Everything that work could have had to wait for takes one from the
budget, and nothing of that kind is tried without. Whether a lock can be taken is for the caller to
say. -/
def advance (s : Setup) (canTake : Engine → Lock → Bool) :
    Work α → Nat → Engine → Engine × Nat × Reached α
  | done a, n, e => (e, n, .done a)
  | look k, n, e => (k e).advance s canTake n e
  | update f k, n, e => (f e, n, .going k)
  | read path k, n, e =>
    let wait := .reading (Cadence.firing (e.now + readTime s e)) (tooSlow s e)
    match e.datastore.readDelay, n with
    | none, n => (k (e.answer s path false)).advance s canTake n e
    | some _, 0 => (e, 0, .yielding (read path k) (some wait))
    | some _, n + 1 =>
      if readTime s e = 0 then (k (e.answer s path (tooSlow s e))).advance s canTake n e
      else (e, n + 1, .waiting (read path k) wait)
  | lock l k, 0, e => (e, 0, .yielding (lock l k) none)
  | lock l k, n + 1, e =>
    if canTake e l then k.advance s canTake n (e.hold l)
    else (e, n + 1, .waiting (lock l k) (.lock l))
  | join ref k, 0, e => (e, 0, .yielding (join ref k) none)
  | join ref k, n + 1, e =>
    if !e.loops.contains ref then (k true).advance s canTake n e
    else if stopTime s = 0 then (k false).advance s canTake n e
    else (e, n + 1, .waiting (join ref k) (.loop ref (Cadence.firing (e.now + stopTime s))))

/-- Takes work past the point it waits at, the wait being over. -/
def resume (s : Setup) (expired : Bool) : Work α → Engine → Engine × Work α
  | read path k, e => (e, k (e.answer s path expired))
  | lock l k, e => (e.hold l, k)
  | join ref k, e => (e, k (!e.loops.contains ref))
  | w, e => (e, w)

end Work

end Telemetry
