import Telemetry.Proofs.Operations

/-!
# The course of a call

A call on an engine is `Work`, and `Work` says where it can be suspended. `Work.Move` is one step of
a call: its own next step, or, while it is suspended, something that happens without it (`Stir`):
time passes, the data of the datastore or the way it answers changes, a loop takes a sample, a
cancelled loop ends. A `Work.Course` is any number of moves, with notes of the reads, the changes of
state and the samples on the way.

Waiting for a loop that was told to end is over when the loop has ended; only a loop that nobody
told to end is given up. Apart from that nothing is assumed about the order of things.

`Work.Meets` says of a call, whichever course it takes, that every change of state it makes is
within `G` and that at its end `Q` holds of the notes, the answer and the engine.

* `Work.Meets.course`: what `Meets` promises holds along every course.
* `Work.Meets.bind`, `Work.Meets.mono`, `Work.Meets.along`: how such promises are composed.
* `Work.Meets.run`: a call that meets something is never stuck, and running it with nothing in
  between (`Work.run`) is one of its courses.
* `Work.advance_course`, `Work.resume_course`: what a turn of a timeline does with a call is a
  course of it.
-/
namespace Telemetry

/-- What is noted on the way. -/
inductive Note where
  /-- A call was given this answer to a read. -/
  | read (path : String) (answer : Except Error Leaves)
  /-- A call changed the engine. -/
  | wrote (before after : Engine)
  /-- A loop was given this answer for its sample. -/
  | ticked (l : SamplingLoop) (answer : Except Error Leaves) (before after : Engine)

namespace Note

/-- The reads of a call, in order. -/
def reads (notes : List Note) : List (String × Except Error Leaves) :=
  notes.filterMap fun
    | read path answer => some (path, answer)
    | _ => none

/-- Whether a loop of the request with that key took a sample. -/
def Ticked (key : Nat) (notes : List Note) : Prop :=
  ∃ l answer before after, l.owner = key ∧ ticked l answer before after ∈ notes

@[simp] theorem reads_nil : reads [] = [] := rfl

@[simp] theorem reads_append (ns ns' : List Note) : reads (ns ++ ns') = reads ns ++ reads ns' :=
  List.filterMap_append ..

@[simp] theorem reads_read (path : String) (answer : Except Error Leaves) (ns : List Note) :
    reads (read path answer :: ns) = (path, answer) :: reads ns := rfl

@[simp] theorem reads_wrote (x y : Engine) (ns : List Note) : reads (wrote x y :: ns) = reads ns :=
  rfl

theorem ticked_append {key : Nat} {ns ns' : List Note} :
    Ticked key (ns ++ ns') ↔ Ticked key ns ∨ Ticked key ns' := by
  simp only [Ticked, List.mem_append]
  grind

end Note

/-! ## What happens without a call -/

/-- What a loop makes of the answer to its read. -/
def Engine.sampled (s : Setup) (p : Sampling) (e : Engine) : Except Error Leaves → Engine
  | .error _ => e
  | .ok leaves => e.observe s p leaves

theorem Engine.held_sampled (s : Setup) (p : Sampling) (e : Engine) (a : Except Error Leaves) :
    (e.sampled s p a).held = e.held := by
  cases a with
  | error => rfl
  | ok leaves => simp only [sampled, observe_eq]

inductive Stir (s : Setup) : Engine → List Note → Engine → Prop where
  /-- Time passes. -/
  | wait (e : Engine) {t : Nat} (later : e.now ≤ t) : Stir s e [] { e with now := t }
  /-- The data change, or the way the datastore answers. -/
  | data (e : Engine) {d : Datastore Event} (same : d.sent = e.datastore.sent) :
    Stir s e [] { e with datastore := d }
  /-- A loop begins a sample and has its next deadline. -/
  | due {e : Engine} {ref : Nat} {l : SamplingLoop} (live : e.loops.find? ref = some l)
    (deadline : Nat) : Stir s e [] { e with loops := e.loops.insert ref { l with deadline } }
  /-- The read of a sample is answered, perhaps with a failure. -/
  | tick {e : Engine} {ref : Nat} {l : SamplingLoop} (live : e.loops.find? ref = some l)
    (expired : Bool) :
    Stir s e [.ticked l (e.answer s l.plan.path expired) e
        (e.sampled s l.plan (e.answer s l.plan.path expired))]
      (e.sampled s l.plan (e.answer s l.plan.path expired))
  /-- A loop that was told to end does so. -/
  | ends {e : Engine} {ref : Nat} {l : SamplingLoop} (live : e.loops.find? ref = some l)
    (told : l.cancelled = true) : Stir s e [] (e.endLoop ref)

/-- Any number of them. -/
inductive Stirs (s : Setup) : Engine → List Note → Engine → Prop where
  | refl (e : Engine) : Stirs s e [] e
  | head {e e₁ e₂ : Engine} {ns ns' : List Note} (h : Stir s e ns e₁) (t : Stirs s e₁ ns' e₂) :
    Stirs s e (ns ++ ns') e₂

theorem Stirs.single {s : Setup} {e e' : Engine} {ns : List Note} (h : Stir s e ns e') :
    Stirs s e ns e' := by
  have := Stirs.head h (.refl e')
  rwa [List.append_nil] at this

theorem Stirs.trans {s : Setup} {e e₁ e₂ : Engine} {ns ns' : List Note} (h : Stirs s e ns e₁)
    (h' : Stirs s e₁ ns' e₂) : Stirs s e (ns ++ ns') e₂ := by
  induction h with
  | refl => exact h'
  | head h₁ _ ih => rw [List.append_assoc]; exact .head h₁ (ih h')

/-- Only calls change an engine for themselves. -/
theorem Stirs.wrote_notMem {s : Setup} {e e' : Engine} {ns : List Note} (h : Stirs s e ns e')
    (x y : Engine) : .wrote x y ∉ ns := by
  induction h with
  | refl => simp
  | head h _ ih =>
    rw [List.mem_append, not_or]
    exact ⟨by cases h <;> simp, ih⟩

/-- Only calls read for themselves. -/
theorem Stirs.reads {s : Setup} {e e' : Engine} {ns : List Note} (h : Stirs s e ns e') :
    Note.reads ns = [] := by
  induction h with
  | refl => rfl
  | head h _ ih => rw [Note.reads_append, ih]; cases h <;> rfl

/-- The answer to a sample's read, and the sample, are what the loop's own work makes of them. -/
theorem resume_sample (s : Setup) (p : Sampling) (expired : Bool) (e : Engine) :
    ∃ w, (Engine.sample s p).resume s expired e = (e, w) ∧
      w.run s e = (e.sampled s p (e.answer s p.path expired), ()) := by
  refine ⟨_, rfl, ?_⟩
  cases e.answer s p.path expired <;> rfl

namespace Work

variable {α β : Type} {s : Setup}

/-! ## Courses -/

/-- Whether work stands at a point where it can be suspended. -/
def waits : Work α → Bool
  | read .. | lock .. | join .. => true
  | _ => false

inductive Move (s : Setup) {α : Type} : Work α → Engine → List Note → Work α → Engine → Prop where
  | look (k : Engine → Work α) (e : Engine) : Move s (.look k) e [] (k e) e
  | update (f : Engine → Engine) (k : Work α) (e : Engine) :
    Move s (.update f k) e [.wrote e (f e)] k (f e)
  | read (path : String) (k : Except Error Leaves → Work α) (e : Engine) (expired : Bool) :
    Move s (.read path k) e [.read path (e.answer s path expired)]
      (k (e.answer s path expired)) e
  | lock {l : Lock} {e : Engine} (free : l ∉ e.held) (k : Work α) :
    Move s (.lock l k) e [] k (e.hold l)
  | joined {ref : Nat} {e : Engine} (ended : e.loops.find? ref = none) (k : Bool → Work α) :
    Move s (.join ref k) e [] (k true) e
  | gaveUp {ref : Nat} {l : SamplingLoop} {e : Engine} (live : e.loops.find? ref = some l)
    (untold : l.cancelled = false) (k : Bool → Work α) : Move s (.join ref k) e [] (k false) e
  | stir {w : Work α} {e e' : Engine} {ns : List Note} (waiting : w.waits = true)
    (h : Stir s e ns e') : Move s w e ns w e'

inductive Course (s : Setup) {α : Type} :
    Work α → Engine → List Note → Work α → Engine → Prop where
  | refl (w : Work α) (e : Engine) : Course s w e [] w e
  | head {w w₁ w₂ : Work α} {e e₁ e₂ : Engine} {ns ns' : List Note} (h : Move s w e ns w₁ e₁)
    (t : Course s w₁ e₁ ns' w₂ e₂) : Course s w e (ns ++ ns') w₂ e₂

theorem Course.trans {w w₁ w₂ : Work α} {e e₁ e₂ : Engine} {ns ns' : List Note}
    (h : Course s w e ns w₁ e₁) (h' : Course s w₁ e₁ ns' w₂ e₂) :
    Course s w e (ns ++ ns') w₂ e₂ := by
  induction h with
  | refl => exact h'
  | head m _ ih => rw [List.append_assoc]; exact .head m (ih h')

/-! ## What work meets -/

/-- Whichever course the work takes, each change of state it makes is within `G`, no lock it takes
is held, and at its end `Q` holds. -/
def Meets (s : Setup) (G : Engine → Engine → Prop) :
    Work α → (List Note → α → Engine → Prop) → Engine → Prop
  | .done a, Q, e => Q [] a e
  | .look k, Q, e => (k e).Meets s G Q e
  | .update f k, Q, e => G e (f e) ∧ k.Meets s G (fun ns => Q (.wrote e (f e) :: ns)) (f e)
  | .read path k, Q, e => ∀ ns e₁ expired, Stirs s e ns e₁ →
    (k (e₁.answer s path expired)).Meets s G
      (fun ns' => Q (ns ++ .read path (e₁.answer s path expired) :: ns')) e₁
  | .lock l k, Q, e => l ∉ e.held ∧ ∀ ns e₁, Stirs s e ns e₁ → l ∉ e₁.held →
    k.Meets s G (fun ns' => Q (ns ++ ns')) (e₁.hold l)
  | .join ref k, Q, e => ∀ ns e₁, Stirs s e ns e₁ →
    (e₁.loops.find? ref = none → (k true).Meets s G (fun ns' => Q (ns ++ ns')) e₁) ∧
    ∀ l, e₁.loops.find? ref = some l → l.cancelled = false →
      (k false).Meets s G (fun ns' => Q (ns ++ ns')) e₁

namespace Meets

variable {G : Engine → Engine → Prop}

theorem mono {Q Q' : List Note → α → Engine → Prop} (h : ∀ ns a e, Q ns a e → Q' ns a e) :
    ∀ {w : Work α} {e : Engine}, w.Meets s G Q e → w.Meets s G Q' e := by
  intro w
  induction w generalizing Q Q' with
  | done a => intro e hw; exact h _ _ _ hw
  | look k ih => intro e hw; exact ih e h hw
  | update f k ih => intro e hw; exact ⟨hw.1, ih (fun _ => h _) hw.2⟩
  | read path k ih =>
    intro e hw ns e₁ expired hs
    exact ih _ (fun _ => h _) (hw ns e₁ expired hs)
  | lock l k ih =>
    intro e hw
    exact ⟨hw.1, fun ns e₁ hs hl => ih (fun _ => h _) (hw.2 ns e₁ hs hl)⟩
  | join ref k ih =>
    intro e hw ns e₁ hs
    exact ⟨fun hn => ih _ (fun _ => h _) ((hw ns e₁ hs).1 hn),
      fun l hl hc => ih _ (fun _ => h _) ((hw ns e₁ hs).2 l hl hc)⟩

theorem weaken {G' : Engine → Engine → Prop} (hg : ∀ x y, G x y → G' x y)
    {Q : List Note → α → Engine → Prop} :
    ∀ {w : Work α} {e : Engine}, w.Meets s G Q e → w.Meets s G' Q e := by
  intro w
  induction w generalizing Q with
  | done a => intro e hw; exact hw
  | look k ih => intro e hw; exact ih e hw
  | update f k ih => intro e hw; exact ⟨hg _ _ hw.1, ih hw.2⟩
  | read path k ih => intro e hw ns e₁ expired hs; exact ih _ (hw ns e₁ expired hs)
  | lock l k ih => intro e hw; exact ⟨hw.1, fun ns e₁ hs hl => ih (hw.2 ns e₁ hs hl)⟩
  | join ref k ih =>
    intro e hw ns e₁ hs
    exact ⟨fun hn => ih _ ((hw ns e₁ hs).1 hn), fun l hl hc => ih _ ((hw ns e₁ hs).2 l hl hc)⟩

/-- Two promises are kept at once. -/
theorem and {G' : Engine → Engine → Prop} {Q Q' : List Note → α → Engine → Prop} :
    ∀ {w : Work α} {e : Engine}, w.Meets s G Q e → w.Meets s G' Q' e →
      w.Meets s (fun x y => G x y ∧ G' x y) (fun ns a e' => Q ns a e' ∧ Q' ns a e') e := by
  intro w
  induction w generalizing Q Q' with
  | done a => intro e h h'; exact ⟨h, h'⟩
  | look k ih => intro e h h'; exact ih e h h'
  | update f k ih => intro e h h'; exact ⟨⟨h.1, h'.1⟩, ih h.2 h'.2⟩
  | read path k ih =>
    intro e h h' ns e₁ expired hs
    exact ih _ (h ns e₁ expired hs) (h' ns e₁ expired hs)
  | lock l k ih =>
    intro e h h'
    exact ⟨h.1, fun ns e₁ hs hl => ih (h.2 ns e₁ hs hl) (h'.2 ns e₁ hs hl)⟩
  | join ref k ih =>
    intro e h h' ns e₁ hs
    exact ⟨fun hn => ih _ ((h ns e₁ hs).1 hn) ((h' ns e₁ hs).1 hn),
      fun l hl hc => ih _ ((h ns e₁ hs).2 l hl hc) ((h' ns e₁ hs).2 l hl hc)⟩

theorem bind {Q : List Note → β → Engine → Prop} {f : α → Work β} :
    ∀ {w : Work α} {e : Engine},
      w.Meets s G (fun ns a e' => (f a).Meets s G (fun ns' => Q (ns ++ ns')) e') e →
      (w >>= f).Meets s G Q e := by
  intro w
  change ∀ {e}, _ → (w.bind f).Meets s G Q e
  induction w generalizing Q with
  | done a => intro e hw; exact hw
  | look k ih => intro e hw; exact ih e hw
  | update g k ih => intro e hw; exact ⟨hw.1, ih hw.2⟩
  | read path k ih =>
    intro e hw ns e₁ expired hs
    exact ih _ (by simpa only [List.append_assoc, List.cons_append] using hw ns e₁ expired hs)
  | lock l k ih =>
    intro e hw
    exact ⟨hw.1, fun ns e₁ hs hl =>
      ih (by simpa only [List.append_assoc] using hw.2 ns e₁ hs hl)⟩
  | join ref k ih =>
    intro e hw ns e₁ hs
    obtain ⟨hj, hg⟩ := hw ns e₁ hs
    exact ⟨fun hn => ih _ (by simpa only [List.append_assoc] using hj hn),
      fun l hl hc => ih _ (by simpa only [List.append_assoc] using hg l hl hc)⟩

theorem look {Q : List Note → α → Engine → Prop} {k : Engine → Work α} {e : Engine}
    (hk : (k e).Meets s G Q e) : (Work.look k).Meets s G Q e := hk

theorem change {Q : List Note → α → Engine → Prop} {f : Engine → Engine} {k : Unit → Work α}
    {e : Engine} (hg : G e (f e))
    (hk : (k ()).Meets s G (fun ns => Q (.wrote e (f e) :: ns)) (f e)) :
    (Work.change f >>= k).Meets s G Q e := ⟨hg, hk⟩

theorem acquire {Q : List Note → α → Engine → Prop} {l : Lock} {k : Unit → Work α} {e : Engine}
    (free : l ∉ e.held) (hk : ∀ ns e₁, Stirs s e ns e₁ →
      (k ()).Meets s G (fun ns' => Q (ns ++ ns')) (e₁.hold l)) :
    ((Work.lock l (Work.done ())) >>= k).Meets s G Q e := ⟨free, fun ns e₁ hst _ => hk ns e₁ hst⟩

/-- One move keeps the promise: the change it makes is within `G`, and the rest of the work meets
what is left of `Q`. -/
theorem move {Q : List Note → α → Engine → Prop} {w w' : Work α} {e e' : Engine} {ns : List Note}
    (m : Move s w e ns w' e') (h : w.Meets s G Q e) :
    (∀ x y, .wrote x y ∈ ns → G x y) ∧ w'.Meets s G (fun ns' => Q (ns ++ ns')) e' := by
  cases m with
  | look k => exact ⟨by simp, h⟩
  | update f k => exact ⟨by simpa using h.1, h.2⟩
  | read path k _ expired => exact ⟨by simp, h [] e expired (.refl e)⟩
  | lock free k => exact ⟨by simp, h.2 [] e (.refl e) free⟩
  | joined ended k => exact ⟨by simp, (h [] e (.refl e)).1 ended⟩
  | gaveUp live untold k => exact ⟨by simp, (h [] e (.refl e)).2 _ live untold⟩
  | stir waiting hs =>
    refine ⟨fun x y hm => by cases hs <;> simp at hm, ?_⟩
    cases w with
    | done a => cases waiting
    | look k => cases waiting
    | update f k => cases waiting
    | read path k =>
      intro ns' e₁ expired hs'
      simpa only [List.append_assoc] using h _ e₁ expired (.head hs hs')
    | lock l k =>
      refine ⟨?_, fun ns' e₁ hs' hl => ?_⟩
      · cases hs with
        | wait => exact h.1
        | data => exact h.1
        | due => exact h.1
        | ends live =>
          simpa only [Engine.endLoop, live] using h.1
        | tick live expired =>
          rw [Engine.held_sampled]; exact h.1
      · simpa only [List.append_assoc] using h.2 _ e₁ (.head hs hs') hl
    | join ref k =>
      intro ns' e₁ hs'
      simpa only [List.append_assoc] using h _ e₁ (.head hs hs')

/-- However far the work has come: its changes were within `G`, and the rest meets what is left of
`Q`. -/
theorem along {Q : List Note → α → Engine → Prop} {w w' : Work α} {e e' : Engine} {ns : List Note}
    (c : Course s w e ns w' e') (h : w.Meets s G Q e) :
    (∀ x y, .wrote x y ∈ ns → G x y) ∧ w'.Meets s G (fun ns' => Q (ns ++ ns')) e' := by
  induction c generalizing Q with
  | refl => exact ⟨by simp, h⟩
  | head m _ ih =>
    obtain ⟨hm, h₁⟩ := move m h
    obtain ⟨ht, h₂⟩ := ih h₁
    refine ⟨fun x y hxy => ?_, by simpa only [List.append_assoc] using h₂⟩
    rcases List.mem_append.1 hxy with hxy | hxy
    · exact hm x y hxy
    · exact ht x y hxy

/-- Along a whole course every change is within `G`, and at its end `Q` holds. -/
theorem course {Q : List Note → α → Engine → Prop} {w : Work α} {a : α} {e e' : Engine}
    {ns : List Note} (c : Course s w e ns (.done a) e') (h : w.Meets s G Q e) :
    (∀ x y, .wrote x y ∈ ns → G x y) ∧ Q ns a e' := by
  obtain ⟨hw, hq⟩ := along c h
  exact ⟨hw, by simpa only [Meets, List.append_nil] using hq⟩

/-- What every change within `G`, every stir, every read and every lock keeps is there at the end. -/
theorem keep (before : List Note) {K : List Note → Engine → Prop} (hwrite : ∀ {ns x y}, K ns x → G x y →
      K (ns ++ [.wrote x y]) y)
    (hstir : ∀ {ns x ns' y}, K ns x → Stir s x ns' y → K (ns ++ ns') y)
    (hread : ∀ {ns x path a}, K ns x → K (ns ++ [.read path a]) x)
    (hlock : ∀ {ns x l}, K ns x → K ns (x.hold l)) {Q : List Note → α → Engine → Prop}
    {w : Work α} {e : Engine} (hk : K before e) (h : w.Meets s G Q e) :
    w.Meets s G (fun ns a e' => Q ns a e' ∧ K (before ++ ns) e') e := by
  have hstirs {ns' : List Note} {x y : Engine} (hst : Stirs s x ns' y) :
      ∀ {ns}, K ns x → K (ns ++ ns') y := by
    induction hst with
    | refl => intro ns hx; rwa [List.append_nil]
    | head h₁ _ ih => intro ns hx; rw [← List.append_assoc]; exact ih (hstir hx h₁)
  induction w generalizing e Q before with
  | done a => exact ⟨h, by rwa [List.append_nil]⟩
  | look k ih => exact ih e before hk h
  | update f k ih =>
    refine ⟨h.1, mono (fun ns a e' hq => ?_) (ih _ (hwrite hk h.1) h.2)⟩
    rwa [List.append_assoc] at hq
  | read path k ih =>
    intro ns e₁ expired hs
    have hk' : K (before ++ ns ++ [.read path (e₁.answer s path expired)]) e₁ :=
      hread (hstirs hs hk)
    refine mono (fun ns' a e' hq => ?_) (ih _ _ hk' (h ns e₁ expired hs))
    simpa only [List.append_assoc, List.singleton_append] using hq
  | lock l k ih =>
    refine ⟨h.1, fun ns e₁ hs hl => ?_⟩
    refine mono (fun ns' a e' hq => ?_) (ih _ (hlock (hstirs hs hk)) (h.2 ns e₁ hs hl))
    rwa [List.append_assoc] at hq
  | join ref k ih =>
    intro ns e₁ hs
    obtain ⟨hj, hg⟩ := h ns e₁ hs
    refine ⟨fun hn => ?_, fun l hl hc => ?_⟩
    · refine mono (fun ns' a e' hq => ?_) (ih _ _ (hstirs hs hk) (hj hn))
      rwa [List.append_assoc] at hq
    · refine mono (fun ns' a e' hq => ?_) (ih _ _ (hstirs hs hk) (hg l hl hc))
      rwa [List.append_assoc] at hq

/-- Work that meets something is never stuck: it can be run to its end with nothing in between. -/
theorem run {Q : List Note → α → Engine → Prop} {w : Work α} {e : Engine} (h : w.Meets s G Q e) :
    ∃ ns, Course s w e ns (.done (w.run s e).2) (w.run s e).1 := by
  induction w generalizing e Q with
  | done a => exact ⟨[], .refl _ _⟩
  | look k ih =>
    obtain ⟨ns, c⟩ := ih e h
    exact ⟨_, .head (.look k e) c⟩
  | update f k ih =>
    obtain ⟨ns, c⟩ := ih h.2
    exact ⟨_, .head (.update f k e) c⟩
  | read path k ih =>
    have wait : Stir s e [] (later e (readTime s e)) :=
      .wait e (Nat.le_trans (Nat.le_add_right ..) (Cadence.le_firing _))
    obtain ⟨ns, c⟩ := ih _ (h [] _ (tooSlow s e) (.single wait))
    exact ⟨_, .head (.stir rfl wait) (.head (.read path k _ (tooSlow s e)) c)⟩
  | lock l k ih =>
    obtain ⟨ns, c⟩ := ih (h.2 [] e (.refl e) h.1)
    exact ⟨_, .head (.lock h.1 k) c⟩
  | join ref k ih =>
    cases hl : e.loops.find? ref with
    | none =>
      obtain ⟨ns, c⟩ := ih true ((h [] e (.refl e)).1 hl)
      simp only [Work.run, joinNow, hl]
      exact ⟨_, .head (.joined hl k) c⟩
    | some l =>
      cases hc : l.cancelled with
      | true =>
        have ends : Stir s e [] (e.endLoop ref) := .ends hl hc
        have hgone : (e.endLoop ref).loops.find? ref = none := by
          simp only [Engine.endLoop, hl, SortedMap.find?_erase_self]
        obtain ⟨ns, c⟩ := ih true ((h [] _ (.single ends)).1 hgone)
        simp only [Work.run, joinNow, hl, hc, if_true]
        exact ⟨_, .head (.stir rfl ends) (.head (.joined hgone k) c)⟩
      | false =>
        have wait : Stir s e [] (later e (stopTime s)) :=
          .wait e (Nat.le_trans (Nat.le_add_right ..) (Cadence.le_firing _))
        obtain ⟨ns, c⟩ := ih false ((h [] _ (.single wait)).2 l hl hc)
        simp only [Work.run, joinNow, hl, hc, Bool.false_eq_true, if_false]
        exact ⟨_, .head (.stir rfl wait) (.head (.gaveUp (e := later e (stopTime s)) hl hc k) c)⟩

end Meets

/-! ## Turns of a timeline -/

/-- The work that is left, if there is any but the answer. -/
def Reached.rest : Reached α → Work α
  | .done a => Work.done a
  | .going w | .waiting w _ | .yielding w _ => w

/-- What work does in one turn is a course of it, as long as locks are taken only when they are
free and a stop waits for loops at all. -/
theorem advance_course {canTake : Engine → Lock → Bool} (hstop : stopTime s ≠ 0)
    (hfree : ∀ e l, canTake e l = true → l ∉ e.held) (w : Work α) (n : Nat) (e : Engine) :
    ∃ ns, Course s w e ns (w.advance s canTake n e).2.2.rest (w.advance s canTake n e).1 := by
  induction w generalizing n e with
  | done a => exact ⟨[], .refl _ _⟩
  | look k ih =>
    obtain ⟨ns, c⟩ := ih e n e
    exact ⟨_, .head (.look k e) c⟩
  | update f k => exact ⟨_, .head (.update f k e) (.refl _ _)⟩
  | read path k ih =>
    cases hd : e.datastore.readDelay with
    | none =>
      simp only [advance, hd]
      obtain ⟨ns, c⟩ := ih (e.answer s path false) n e
      exact ⟨_, .head (.read path k e false) c⟩
    | some t =>
      cases n with
      | zero =>
        simp only [advance, hd]
        exact ⟨[], .refl _ _⟩
      | succ n =>
        simp only [advance, hd]
        split
        · obtain ⟨ns, c⟩ := ih (e.answer s path (tooSlow s e)) n e
          exact ⟨_, .head (.read path k e (tooSlow s e)) c⟩
        · exact ⟨[], .refl _ _⟩
  | lock l k ih =>
    cases n with
    | zero => exact ⟨[], .refl _ _⟩
    | succ n =>
      unfold advance
      split
      · next ht =>
        obtain ⟨ns, c⟩ := ih n (e.hold l)
        exact ⟨_, .head (.lock (hfree e l ht) k) c⟩
      · exact ⟨[], .refl _ _⟩
  | join ref k ih =>
    cases n with
    | zero => exact ⟨[], .refl _ _⟩
    | succ n =>
      unfold advance
      split
      · next hc =>
        obtain ⟨ns, c⟩ := ih true n e
        have hgone : e.loops.find? ref = none := by simpa [SortedMap.contains] using hc
        exact ⟨_, .head (.joined hgone k) c⟩
      · exact ⟨[], .refl _ _⟩

/-- So is what it does when its wait is over: a lock that is free, or a loop that has ended or that
nobody told to end. -/
theorem resume_course (expired : Bool) (w : Work α) (e : Engine)
    (hlock : ∀ l k, w = .lock l k → l ∉ e.held)
    (hjoin : ∀ ref k l, w = .join ref k → e.loops.find? ref = some l → l.cancelled = false) :
    ∃ ns, Course s w e ns (w.resume s expired e).2 (w.resume s expired e).1 := by
  cases w with
  | done | look | update => exact ⟨[], .refl _ _⟩
  | read path k => exact ⟨_, .head (.read path k e expired) (.refl _ _)⟩
  | lock l k => exact ⟨_, .head (.lock (hlock l k rfl) k) (.refl _ _)⟩
  | join ref k =>
    simp only [resume, SortedMap.contains]
    cases hl : e.loops.find? ref with
    | none => exact ⟨_, .head (.joined hl k) (.refl _ _)⟩
    | some l => exact ⟨_, .head (.gaveUp hl (hjoin ref k l rfl hl) k) (.refl _ _)⟩

end Work

end Telemetry
