import Telemetry.Proofs.Crew

/-!
# Work beside other work

What work comes to while other work changes the same engine. A `Pact` says what holds at every moment,
what a part may do in one change, and what it has to bear with while it waits; beside the engine it
speaks of a tally that the parts keep of each other. `Work.Keeps` says of work that it keeps a pact,
whatever happens within it meanwhile, and that at its end `Q` holds.

* `Work.Keeps.bind`, `Work.Keeps.mono`: how such promises are composed.
* `Work.Keeps.bear`: a promise stays while work waits.
* `Work.Keeps.turn`: what one turn of a call does.
-/
namespace Telemetry

/-- What one of several parts keeps, with a tally in `Γ` beside the engine. -/
structure Pact (Γ : Type) where
  /-- What holds at every moment. -/
  inv : Γ → Engine → Prop
  /-- What the part does in one change, or without any in its tally alone. -/
  does : Γ → Engine → Γ → Engine → Prop
  /-- What it bears with while it waits. -/
  bears : Γ → Engine → Γ → Engine → Prop
  bears_refl : ∀ t e, bears t e t e
  bears_trans : ∀ {t e t₁ e₁ t₂ e₂}, bears t e t₁ e₁ → bears t₁ e₁ t₂ e₂ → bears t e t₂ e₂
  /-- Which locks are held does not matter. -/
  inv_hold : ∀ {t e} l, inv t e → inv t (e.hold l)

/-- What a part does one after the other, while the engine comes through those engines. -/
inductive Pact.Along {Γ : Type} (P : Pact Γ) : Γ → Engine → List Engine → Γ → Engine → Prop where
  | refl (t : Γ) (e : Engine) : P.Along t e [] t e
  | note {t t₁ t₂ : Γ} {e e₂ : Engine} {es : List Engine} (h : P.does t e t₁ e)
    (rest : P.Along t₁ e es t₂ e₂) : P.Along t e es t₂ e₂
  | change {t t₁ t₂ : Γ} {e e₁ e₂ : Engine} {es : List Engine} (h : P.does t e t₁ e₁)
    (rest : P.Along t₁ e₁ es t₂ e₂) : P.Along t e (e₁ :: es) t₂ e₂

namespace Work

variable {α β Γ : Type}

/-- Beginning with that tally on that engine, work keeps the pact, and `Q` holds at its end. -/
def Keeps (P : Pact Γ) (Q : Γ → α → Engine → Prop) : Work α → Γ → Engine → Prop
  | done a, t, e => Q t a e
  | look k, t, e => ∃ t', P.does t e t' e ∧ P.inv t' e ∧ (k e).Keeps P Q t' e
  | update f k, t, e => ∃ t', P.does t e t' (f e) ∧ P.inv t' (f e) ∧ k.Keeps P Q t' (f e)
  | read _ k, t, e => ∀ t' e' a, P.bears t e t' e' → P.inv t' e' → (k a).Keeps P Q t' e'
  | lock l k, t, e => ∀ t' e', P.bears t e t' e' → P.inv t' e' → k.Keeps P Q t' (e'.hold l)
  | join ref k, t, e => ∀ t' e', P.bears t e t' e' → P.inv t' e' →
    (e'.loops.find? ref = none →
      ∃ t₂, P.does t' e' t₂ e' ∧ P.inv t₂ e' ∧ (k true).Keeps P Q t₂ e') ∧
    ∀ l, e'.loops.find? ref = some l → l.cancelled = false → (k false).Keeps P Q t' e'

namespace Keeps

variable {P : Pact Γ} {Q Q' : Γ → α → Engine → Prop} {w : Work α} {t t' : Γ} {e e' : Engine}

theorem mono (h : ∀ t a e, Q t a e → Q' t a e) (hw : w.Keeps P Q t e) : w.Keeps P Q' t e := by
  induction w generalizing t e with
  | done a => exact h _ _ _ hw
  | look k ih =>
    obtain ⟨t', hdoes, hinv, hk⟩ := hw
    exact ⟨t', hdoes, hinv, ih e hk⟩
  | update f k ih =>
    obtain ⟨t', hdoes, hinv, hk⟩ := hw
    exact ⟨t', hdoes, hinv, ih hk⟩
  | read path k ih => exact fun t' e' a hbears hinv => ih a (hw t' e' a hbears hinv)
  | lock l k ih => exact fun t' e' hbears hinv => ih (hw t' e' hbears hinv)
  | join ref k ih =>
    intro t' e' hbears hinv
    obtain ⟨hended, hlive⟩ := hw t' e' hbears hinv
    refine ⟨fun hn => ?_, fun l hl hc => ih false (hlive l hl hc)⟩
    obtain ⟨t₂, hdoes, hinv₂, hk⟩ := hended hn
    exact ⟨t₂, hdoes, hinv₂, ih true hk⟩

theorem bind {R : Γ → β → Engine → Prop} {f : α → Work β}
    (hw : w.Keeps P (fun t a e => (f a).Keeps P R t e) t e) : (w >>= f).Keeps P R t e := by
  change (w.bind f).Keeps P R t e
  induction w generalizing t e with
  | done a => exact hw
  | look k ih =>
    obtain ⟨t', hdoes, hinv, hk⟩ := hw
    exact ⟨t', hdoes, hinv, ih e hk⟩
  | update g k ih =>
    obtain ⟨t', hdoes, hinv, hk⟩ := hw
    exact ⟨t', hdoes, hinv, ih hk⟩
  | read path k ih => exact fun t' e' a hbears hinv => ih a (hw t' e' a hbears hinv)
  | lock l k ih => exact fun t' e' hbears hinv => ih (hw t' e' hbears hinv)
  | join ref k ih =>
    intro t' e' hbears hinv
    obtain ⟨hended, hlive⟩ := hw t' e' hbears hinv
    refine ⟨fun hn => ?_, fun l hl hc => ih false (hlive l hl hc)⟩
    obtain ⟨t₂, hdoes, hinv₂, hk⟩ := hended hn
    exact ⟨t₂, hdoes, hinv₂, ih true hk⟩

theorem look {k : Engine → Work α} (t' : Γ) (hdoes : P.does t e t' e) (hinv : P.inv t' e)
    (hk : (k e).Keeps P Q t' e) : (Work.look k).Keeps P Q t e := ⟨t', hdoes, hinv, hk⟩

theorem change {f : Engine → Engine} {k : Unit → Work α} (t' : Γ) (hdoes : P.does t e t' (f e))
    (hinv : P.inv t' (f e)) (hk : (k ()).Keeps P Q t' (f e)) :
    (Work.change f >>= k).Keeps P Q t e := ⟨t', hdoes, hinv, hk⟩

theorem acquire {l : Lock} {k : Unit → Work α}
    (hk : ∀ t' e', P.bears t e t' e' → P.inv t' e' → (k ()).Keeps P Q t' (e'.hold l)) :
    ((Work.lock l (Work.done ())) >>= k).Keeps P Q t e := hk

/-- What has been promised stays so while work waits. -/
theorem bear (hrests : w.Rests) (hbears : P.bears t e t' e')
    (hdone : ∀ {a}, Q t a e → Q t' a e') (hw : w.Keeps P Q t e) : w.Keeps P Q t' e' := by
  cases w with
  | done a => exact hdone hw
  | look | update => exact hrests.elim
  | read path k => exact fun t₂ e₂ a h hinv => hw t₂ e₂ a (P.bears_trans hbears h) hinv
  | lock l k => exact fun t₂ e₂ h hinv => hw t₂ e₂ (P.bears_trans hbears h) hinv
  | join ref k => exact fun t₂ e₂ h hinv => hw t₂ e₂ (P.bears_trans hbears h) hinv

/-- Work that goes on by itself does so within the pact. -/
theorem flow (hw : w.Keeps P Q t e) (hinv : P.inv t e) :
    ∃ t', P.Along t e (w.track e) t' (w.flow e).1 ∧ P.inv t' (w.flow e).1 ∧
      (w.flow e).2.Keeps P Q t' (w.flow e).1 := by
  induction w generalizing t e with
  | look k ih =>
    obtain ⟨t₁, hdoes, hinv₁, hk⟩ := hw
    obtain ⟨t', halong, hrest⟩ := ih e hk hinv₁
    exact ⟨t', .note hdoes halong, hrest⟩
  | update f k ih =>
    obtain ⟨t₁, hdoes, hinv₁, hk⟩ := hw
    obtain ⟨t', halong, hrest⟩ := ih hk hinv₁
    exact ⟨t', .change hdoes halong, hrest⟩
  | done | read | lock | join => exact ⟨t, .refl t e, hinv, hw⟩

/-- So does work whose turn it is. -/
theorem turn {s : Setup} (expired : Bool) (hrests : w.Rests) (hready : w.Ready e)
    (hw : w.Keeps P Q t e) (hinv : P.inv t e) : ∃ t',
      P.Along t (w.resume s expired e).1
        ((w.resume s expired e).2.track (w.resume s expired e).1) t' (w.go s expired e).1 ∧
      P.inv t' (w.go s expired e).1 ∧ (w.go s expired e).2.Keeps P Q t' (w.go s expired e).1 := by
  cases w with
  | done => exact hready.elim
  | look | update => exact hrests.elim
  | read path k => exact flow (hw t e _ (P.bears_refl t e) hinv) hinv
  | lock l k => exact flow (hw t e (P.bears_refl t e) hinv) (P.inv_hold l hinv)
  | join ref k =>
    obtain ⟨hended, hlive⟩ := hw t e (P.bears_refl t e) hinv
    unfold go
    simp only [resume, SortedMap.contains]
    cases hl : e.loops.find? ref with
    | none =>
      obtain ⟨t₁, hdoes, hinv₁, hk⟩ := hended hl
      obtain ⟨t', halong, hrest⟩ := flow hk hinv₁
      exact ⟨t', .note hdoes halong, hrest⟩
    | some l => exact flow (hlive l hl (hready l hl)) hinv

end Keeps

end Work

end Telemetry
