import Telemetry.Proofs.Acceptance
import Telemetry.Proofs.System

/-!
# The least interval

Settings state the least interval in milliseconds. Requests are checked against it in nanoseconds
and 64 bits, sampling loops are built from it as a span of time, and the two meet again in the
period of a loop. Here the conversions are written in machine words and shown to agree, and an
accepted request is followed from its subscriptions to the loops that sample them.

Results:
* `Span.toNanos_ofMillis`, `toNat_clampWord`, `saturatingMul_eq`: what the conversions compute;
* `Settings.agree`: they agree with each other, also where they stop at the greatest word;
* `Subscription.keeps`: the plan of a valid STREAM subscription;
* `Settings.accepted_keeps_least`: every loop that is built for an accepted request, and every loop
  it ever has, keeps to the least interval.
-/
namespace Telemetry

/-! ## Milliseconds in machine words -/

/-- The number as a word, or the greatest word if it is too great for one. -/
def clampWord (n : Nat) : UInt64 :=
  if n ≤ maxInterval then UInt64.ofNat n else UInt64.ofNat maxInterval

theorem toNat_clampWord (n : Nat) : (clampWord n).toNat = min n maxInterval := by
  have hmax : maxInterval = 18446744073709551615 := by decide
  unfold clampWord
  split
  · next hfits =>
    rw [UInt64.toNat_ofNat', Nat.min_eq_left hfits, Nat.mod_eq_of_lt]
    omega
  · next hexceeds =>
    rw [UInt64.toNat_ofNat', Nat.min_eq_right (by omega), Nat.mod_eq_of_lt]
    omega

/-- The product of two words, or the greatest word if multiplying them overflows. -/
def saturatingMul (a b : UInt64) : UInt64 :=
  if a.toNat * b.toNat ≤ maxInterval then a * b else UInt64.ofNat maxInterval

theorem saturatingMul_eq (a b : UInt64) : saturatingMul a b = clampWord (a.toNat * b.toNat) := by
  have hproduct : UInt64.ofNat (a.toNat * b.toNat) = a * b := by
    rw [UInt64.ofNat_mul, UInt64.ofNat_toNat, UInt64.ofNat_toNat]
  rw [saturatingMul, clampWord, hproduct]

/-- A span of time: whole seconds, and the nanoseconds that are left. -/
structure Span where
  secs : UInt64
  nanos : UInt32
  deriving DecidableEq, Repr

namespace Span

def ofMillis (ms : UInt64) : Span := ⟨ms / 1000, (ms % 1000).toUInt32 * 1_000_000⟩

/-- All of it in nanoseconds, which need not fit 64 bits. -/
def toNanos (d : Span) : Nat := d.secs.toNat * 1_000_000_000 + d.nanos.toNat

/-- Less than a second fits 32 bits as nanoseconds, so nothing is lost. -/
theorem toNanos_ofMillis (ms : UInt64) : (ofMillis ms).toNanos = ms.toNat * 1_000_000 := by
  have hnanos : (ofMillis ms).nanos.toNat = ms.toNat % 1000 * 1_000_000 := by
    have hrest := Nat.mod_lt ms.toNat (show 0 < 1000 by decide)
    simp only [ofMillis, UInt32.toNat_mul, UInt64.toNat_toUInt32, UInt64.toNat_mod,
      UInt64.reduceToNat, UInt32.reduceToNat]
    omega
  have hsecs : (ofMillis ms).secs.toNat = ms.toNat / 1000 := UInt64.toNat_div ..
  rw [toNanos, hnanos, hsecs]
  omega

end Span

namespace Settings

/-- What the words compute of the milliseconds in the settings is what the settings are used as: the
span that loops are built from, the least interval in 64 bits that is made of this span for the
checks, and the one that is made of the milliseconds. The last two are one word. -/
structure Agree (x : Settings) (schema : Schema) (ms : UInt64) : Prop where
  span : (x.setup schema).least = (Span.ofMillis ms).toNanos
  checked : (x.setup schema).leastInterval = (clampWord (Span.ofMillis ms).toNanos).toNat
  stated : x.minIntervalNs = (saturatingMul ms 1_000_000).toNat
  same : clampWord (Span.ofMillis ms).toNanos = saturatingMul ms 1_000_000

theorem agree {x : Settings} {ms : UInt64} (schema : Schema) (h : x.minIntervalMs = ms.toNat) :
    x.Agree schema ms := by
  have hspan : (x.setup schema).least = (Span.ofMillis ms).toNanos := by
    rw [Span.toNanos_ofMillis, ← h]
    rfl
  have hsame : clampWord (Span.ofMillis ms).toNanos = saturatingMul ms 1_000_000 := by
    rw [saturatingMul_eq, Span.toNanos_ofMillis]
    rfl
  refine ⟨hspan, ?_, ?_, hsame⟩
  · rw [toNat_clampWord, ← hspan]
    rfl
  · rw [← hsame, toNat_clampWord, ← hspan]
    rfl

theorem minInterval_pos {x : Settings} (h : x.validate = .ok ()) : 0 < x.minIntervalMs := by
  unfold validate at h
  split at h
  · cases h
  · omega

end Settings

/-! ## From subscriptions to loops -/

/-- The plan of a subscription keeps to the least interval of the settings. -/
structure Sampling.KeepsLeast (x : Settings) (sub : Subscription) (p : Sampling) : Prop where
  period : x.minIntervalNs ≤ p.period
  /-- ON_CHANGE samples at the least interval itself. -/
  onChange : sub.mode = some .onChange → p.period = x.minIntervalMs * 1_000_000
  /-- Everything else samples at the interval it asks for, which is never raised. -/
  asked : sub.mode ≠ some .onChange → sub.sampleInterval = some p.period
  heartbeat : ∀ i ∈ p.heartbeat, x.minIntervalNs ≤ i

section Accepted

variable {x : Settings} {schema : Schema} {least : Nat} {sub : Subscription}

/-- An interval of zero is no heartbeat; any other interval stays. -/
theorem Sampling.mem_heartbeat_ofSubscription {r i : Nat}
    (h : i ∈ (ofSubscription r sub least).heartbeat) : sub.heartbeatInterval = some i ∧ i ≠ 0 := by
  simp only [ofSubscription, noHeartbeat, Option.mem_def] at h
  cases hgiven : sub.heartbeatInterval with
  | none => simp [hgiven] at h
  | some j =>
    by_cases hj : j = 0
    · simp [hgiven, hj] at h
    · obtain rfl : j = i := by simpa [hgiven, hj] using h
      exact ⟨rfl, hj⟩

/-- In a STREAM request the target has decided by the time the request is complete. -/
theorem Subscription.Completes.mode_ne_targetDefined {q : SubscriptionPayload}
    (hq : sub.Completes .stream least q) : sub.mode ≠ some .targetDefined := by
  intro htarget
  have hmode := hq.mode
  rw [htarget] at hmode
  by_cases hq : q.mode = some "TARGET_DEFINED"
  · simp [hq, StreamMode.name] at hmode
  · exact hq (by simpa [hq, StreamMode.name] using hmode.symm)

/-- A millisecond is the shortest period there is. -/
theorem Settings.shortestPeriod_le (hx : x.validate = .ok ()) :
    Sampling.shortestPeriod ≤ x.minIntervalNs := by
  have hpos := minInterval_pos hx
  have hmax : Nat.pow 2 64 - 1 = 18446744073709551615 := by decide
  simp only [minIntervalNs, Sampling.shortestPeriod, hmax]
  omega

theorem Subscription.keeps (hx : x.validate = .ok ())
    (hvalid : sub.validate schema .stream (x.setup schema).leastInterval = .ok ())
    {q : SubscriptionPayload} (hq : sub.Completes .stream least q) (r : Nat) :
    (Sampling.ofSubscription r sub (x.setup schema).least).KeepsLeast x sub := by
  have hmilli := Settings.shortestPeriod_le hx
  have hleast : x.minIntervalNs ≤ (x.setup schema).least := Nat.min_le_left ..
  obtain ⟨-, hstream⟩ := validate_eq_ok.1 hvalid
  obtain ⟨hmode, hheartbeat, hsample⟩ := hstream rfl
  have hbeats : ∀ i ∈ (Sampling.ofSubscription r sub (x.setup schema).least).heartbeat,
      x.minIntervalNs ≤ i := by
    intro i hi
    obtain ⟨hgiven, hne⟩ := Sampling.mem_heartbeat_ofSubscription hi
    exact (hheartbeat i hgiven).resolve_left hne
  by_cases hchange : sub.mode = some .onChange
  · have hperiod : (Sampling.ofSubscription r sub (x.setup schema).least).period
        = (x.setup schema).least := by
      simp only [Sampling.ofSubscription, hchange, if_true]
      exact Nat.max_eq_left (Nat.le_trans hmilli hleast)
    refine ⟨?_, fun _ => hperiod, fun hne => absurd hchange hne, hbeats⟩
    rw [hperiod]
    exact hleast
  · have hsampled : sub.mode = some .sample := by
      cases hm : sub.mode with
      | none => exact absurd hm hmode
      | some m =>
        cases m with
        | targetDefined => exact absurd hm hq.mode_ne_targetDefined
        | onChange => exact absurd hm hchange
        | sample => rfl
    obtain ⟨i, hi⟩ : ∃ i, sub.sampleInterval = some i := ⟨_, hq.sampleInterval.trans (if_pos rfl)⟩
    have hlong : x.minIntervalNs ≤ i := by
      have hgiven := hsample hsampled
      rwa [hi, Option.getD_some] at hgiven
    have hperiod : (Sampling.ofSubscription r sub (x.setup schema).least).period = i := by
      simp only [Sampling.ofSubscription, hchange, if_false, hi, Option.getD_some]
      exact Nat.max_eq_left (Nat.le_trans hmilli hlong)
    exact ⟨hperiod ▸ hlong, fun h => absurd h hchange, fun _ => hperiod ▸ hi, hbeats⟩

/-- An accepted STREAM request asks for nothing that a loop could not keep to. -/
theorem Request.keeps {id : Nat} {j : Json} {r : Request} (hx : x.validate = .ok ())
    (hparse : Request.parse id j least = .ok r) (hmode : r.mode = .stream)
    (hvalid : r.validate schema (x.setup schema).leastInterval = .ok ())
    (hsub : sub ∈ r.subscriptions) :
    (Sampling.ofSubscription r.id sub (x.setup schema).least).KeepsLeast x sub := by
  obtain ⟨p, -, hr, -⟩ := parse_eq_ok.1 hparse
  obtain ⟨q, hq⟩ := exists_forall₂.1 ⟨_, List.Forall₂.flip hr.subscriptions⟩ sub hsub
  rw [hmode] at hq
  exact Subscription.keeps hx (hmode ▸ validate_eq_ok.1 hvalid sub hsub) hq r.id

end Accepted

/-- **Accepted requests keep to the least interval.** Settings and a request that pass their checks
give sampling loops whose periods and heartbeats are not shorter than the least interval, whether a
start is about to build them or the engine has come to have them; and for every word of milliseconds
the two ways to the least interval in nanoseconds end in the same word. -/
theorem Settings.accepted_keeps_least {x : Settings} {schema : Schema} {id : Nat} {j : Json}
    {r : Request} (hx : x.validate = .ok ())
    (hparse : Request.parse id j (x.setup schema).leastInterval = .ok r)
    (hvalid : r.validate schema (x.setup schema).leastInterval = .ok ()) :
    (∀ (e : Engine) (h : Handle) (generation : Nat), h.request = r → r.mode = .stream →
      ∀ sub ∈ r.subscriptions,
        (e.newLoop (x.setup schema) h generation sub).plan.KeepsLeast x sub) ∧
    (∀ (y : System) (h : Handle), System.Reachable (x.setup schema) y → y.engine.Registered h →
      h.request = r → ∀ ref l, y.engine.loops.find? ref = some l → l.owner = h.key →
        ∃ sub ∈ r.subscriptions, l.plan.subscription = sub.id ∧ l.plan.KeepsLeast x sub) ∧
    ∀ (y : Settings) (ms : UInt64), y.minIntervalMs = ms.toNat → y.Agree schema ms := by
  refine ⟨?_, ?_, fun y ms h => agree schema h⟩
  · rintro e h generation rfl hmode sub hsub
    exact Request.keeps hx hparse hmode hvalid hsub
  · rintro y h hy hregistered rfl ref l hl howner
    have hat : (y.engine.share h).loops ref = some l.still :=
      Engine.loopAt_eq_some.2 ⟨l, hl, howner, rfl⟩
    obtain ⟨-, hmode, sub, hsub, hserves⟩ := (hy.good.sound.fit hregistered).serves hat
    refine ⟨sub, hsub, ?_, ?_⟩
    · exact congrArg Sampling.subscription hserves.plan
    · exact hserves.of_still.plan ▸ Request.keeps hx hparse hmode hvalid hsub

namespace Small

/-- Settings that give the small setup. -/
def settings : Settings :=
  { Settings.standard with
    minIntervalMs := 1000, revertTimeoutSecs := 1, readTimeoutMs := 1000, stopTimeoutMs := 1000
    moduleName := "t", topic := "t" }

/-- Milliseconds whose nanoseconds do not fit 64 bits. -/
def ages : UInt64 := 18_446_744_073_710

theorem established_keeps_least : settings.validate = .ok () ∧
    settings.setup setup.schema = setup ∧
    Request.parse 1 payload setup.leastInterval = .ok request ∧
    request.validate setup.schema setup.leastInterval = .ok () ∧
    (∃ l, established.loops.find? 0 = some l ∧
      ∃ sub ∈ request.subscriptions, l.plan.subscription = sub.id ∧ l.plan.KeepsLeast settings sub) ∧
    { settings with minIntervalMs := ages.toNat }.Agree setup.schema ages ∧
    saturatingMul ages 1_000_000 = UInt64.ofNat maxInterval := by
  have hvalid : settings.validate = .ok () := by decide
  have hparse : Request.parse 1 payload setup.leastInterval = .ok request := by decide +kernel
  have haccepts : request.validate setup.schema setup.leastInterval = .ok () := by decide +kernel
  obtain ⟨-, hloops, hagree⟩ :=
    @Settings.accepted_keeps_least settings setup.schema 1 payload request hvalid hparse haccepts
  have hregistered : established.Registered ⟨0, request⟩ := by decide +kernel
  have hloop : (established.loops.find? 0).map (·.owner) = some 0 := by decide +kernel
  obtain ⟨l, hl, howner⟩ := Option.map_eq_some_iff.1 hloop
  have hkeeps :=
    hloops ⟨established, none⟩ ⟨0, request⟩ reachable_established hregistered rfl 0 l hl howner
  exact ⟨hvalid, rfl, hparse, haccepts, ⟨l, hl, hkeeps⟩, hagree _ _ rfl, by decide +kernel⟩

end Small

end Telemetry
