import ChimeraMQ.Broker.Admission
import ChimeraMQ.Foundation.Run
import Mathlib.Tactic.Linarith

/-!
# Publish rates

The limiter of the publishes to a topic.  Tokens are added for every whole
second since the last time, and what is above the rate is cut off after they
have been added.
-/

namespace ChimeraMQ
namespace Flow

open Foundation

/-!
## Runs
-/

structure Publishing where
  limit : RateLimit
  clock : Int64
  allowed : Nat
deriving DecidableEq

namespace Publishing

def start (perSec created : Int64) : Publishing where
  limit := newRateLimit perSec created
  clock := created
  allowed := 0

def step (p : Publishing) (now : Int64) : Option Publishing :=
  if now < p.clock then none
  else
    some
      { limit := (p.limit.allow now).1
        clock := now
        allowed := p.allowed + if (p.limit.allow now).2 then 1 else 0 }

def seconds (created now : Int64) : Int :=
  (now.toInt - created.toInt) / 1000000000

structure Bounded (perSec created : Int64) (p : Publishing) : Prop where
  nonneg : 0 ≤ p.limit.tokens.toInt
  le_rate : p.limit.tokens.toInt ≤ perSec.toInt
  allowed_le : (p.allowed : Int) ≤
    perSec.toInt + perSec.toInt * seconds created p.clock

/-- The tokens that a call adds do not overflow before they are cut off. -/
def Fits (p : Publishing) (now : Int64) : Prop :=
  p.clock ≤ now -> second ≤ now - p.limit.lastRefill ->
    p.limit.tokens.toInt +
      ((now - p.limit.lastRefill) / second).toInt *
        p.limit.refillRate.toInt < 2 ^ 63

structure Inv (perSec created : Int64) (p : Publishing) : Prop where
  maxTokens : p.limit.maxTokens = perSec
  refillRate : p.limit.refillRate = perSec
  nonneg : 0 ≤ p.limit.tokens.toInt
  le_rate : p.limit.tokens.toInt ≤ perSec.toInt
  created_le : created.toInt ≤ p.limit.lastRefill.toInt
  refilled : p.limit.lastRefill.toInt ≤ p.clock.toInt
  taken : (p.allowed : Int) + p.limit.tokens.toInt ≤
    perSec.toInt + perSec.toInt * seconds created p.limit.lastRefill

variable {perSec created now : Int64} {p : Publishing}

theorem inv_start (hrate : 0 < perSec) :
    Inv perSec created (start perSec created) := by
  have hpos : 0 < perSec.toInt := Int64.lt_iff_toInt_lt.mp hrate
  constructor
  · rfl
  · rfl
  · exact Int.le_of_lt hpos
  · exact Int.le_refl _
  · exact Int.le_refl _
  · exact Int.le_refl _
  show ((0 : Nat) : Int) + perSec.toInt ≤ _
  have hzero : seconds created created = 0 := by
    unfold seconds
    omega
  show _ ≤ perSec.toInt + perSec.toInt * seconds created created
  rw [hzero]
  omega

theorem seconds_mono {t : Int64} (h : t.toInt ≤ now.toInt) :
    seconds created t ≤ seconds created now := by
  unfold seconds
  omega

theorem Inv.bounded (h : Inv perSec created p) (hrate : 0 < perSec) :
    Bounded perSec created p := by
  have hpos : 0 < perSec.toInt := Int64.lt_iff_toInt_lt.mp hrate
  have hmono : seconds created _ ≤ seconds created _ :=
    seconds_mono h.refilled
  have hseconds := Int.mul_le_mul_of_nonneg_left hmono (Int.le_of_lt hpos)
  have htaken := h.taken
  have hnonneg := h.nonneg
  exact ⟨h.nonneg, h.le_rate, by omega⟩

theorem toInt_elapsed {last : Int64} (hle : last.toInt ≤ now.toInt)
    (hsecond : second ≤ now - last) :
    (now - last).toInt = now.toInt - last.toInt ∧
      ((now - last) / second).toInt =
        (now.toInt - last.toInt) / 1000000000 := by
  have hlong := Int64.le_iff_toInt_le.mp hsecond
  have hunit : second.toInt = 1000000000 := rfl
  have hlast := last.le_toInt
  have hnow := now.toInt_lt
  rw [hunit, Int64.toInt_sub] at hlong
  have hdiff : (now - last).toInt = now.toInt - last.toInt := by
    rw [Int64.toInt_sub]
    apply Int.bmod_eq_of_le
    · omega
    · by_contra hover
      rw [Int.bmod_def] at hlong
      omega
  refine ⟨hdiff, ?_⟩
  rw [Int64.toInt_div_of_ne_right _ _ (by decide), hdiff, hunit]
  exact Int.tdiv_eq_ediv_of_nonneg (by omega)

structure Adds (perSec created : Int64) (p : Publishing) (now : Int64)
    (n : Int) : Prop where
  nonneg : 0 ≤ n
  small : n < 2 ^ 63
  eq : ((now - p.limit.lastRefill) / second * p.limit.refillRate).toInt = n
  rate : ((now - p.limit.lastRefill) / second).toInt *
    p.limit.refillRate.toInt = n
  seconds_le : perSec.toInt * seconds created p.limit.lastRefill + n ≤
    perSec.toInt * seconds created now

theorem Inv.adds (h : Inv perSec created p) (hrate : 0 < perSec)
    (hrange : perSec.toInt * seconds created now < 2 ^ 63)
    (hclock : p.clock ≤ now) (hsecond : second ≤ now - p.limit.lastRefill) :
    exists n, Adds perSec created p now n := by
  have hpos : 0 < perSec.toInt := Int64.lt_iff_toInt_lt.mp hrate
  have hcreated := h.created_le
  have hlast : p.limit.lastRefill.toInt ≤ now.toInt :=
    h.refilled.trans (Int64.le_iff_toInt_le.mp hclock)
  rcases toInt_elapsed hlast hsecond with ⟨_, hsecs⟩
  have hsum : seconds created p.limit.lastRefill +
      (now.toInt - p.limit.lastRefill.toInt) / 1000000000 ≤
        seconds created now := by
    unfold seconds
    omega
  have hle := Int.mul_le_mul_of_nonneg_left hsum (Int.le_of_lt hpos)
  rw [Int.mul_add] at hle
  have hbefore : 0 ≤ perSec.toInt * seconds created p.limit.lastRefill :=
    Int.mul_nonneg (Int.le_of_lt hpos) (by
      unfold seconds
      omega)
  have hnonneg : 0 ≤ perSec.toInt *
      ((now.toInt - p.limit.lastRefill.toInt) / 1000000000) :=
    Int.mul_nonneg (Int.le_of_lt hpos) (by omega)
  refine ⟨perSec.toInt *
    ((now.toInt - p.limit.lastRefill.toInt) / 1000000000), hnonneg,
    by omega, ?_, ?_, hle⟩
  · rw [Int64.toInt_mul, hsecs, h.refillRate, Int.mul_comm]
    exact Int.bmod_eq_of_le (by omega) (by omega)
  · rw [hsecs, h.refillRate, Int.mul_comm]

theorem Inv.refill (h : Inv perSec created p) (hrate : 0 < perSec)
    (hrange : perSec.toInt * seconds created now < 2 ^ 63)
    (hclock : p.clock ≤ now) (hfits : Fits p now) :
    Inv perSec created
      { p with limit := p.limit.refill now, clock := now } := by
  have hclock' := Int64.le_iff_toInt_le.mp hclock
  by_cases hsecond : second ≤ now - p.limit.lastRefill
  · rcases h.adds hrate hrange hclock hsecond with ⟨n, hadds⟩
    have hsmall := hfits hclock hsecond
    rw [hadds.rate] at hsmall
    have hnonneg := h.nonneg
    have hadded := hadds.nonneg
    have htokens : (p.limit.tokens + (now - p.limit.lastRefill) / second *
        p.limit.refillRate).toInt = p.limit.tokens.toInt + n := by
      rw [Int64.toInt_add, hadds.eq]
      exact Int.bmod_eq_of_le (by omega) (by omega)
    have hseconds := hadds.seconds_le
    have htaken := h.taken
    have hcreated := h.created_le
    have hrefilled := h.refilled
    have hpos : 0 < perSec.toInt := Int64.lt_iff_toInt_lt.mp hrate
    unfold RateLimit.refill
    simp only [ge_iff_le, if_pos hsecond]
    constructor
    · exact h.maxTokens
    · exact h.refillRate
    · simp only
      split
      · rw [h.maxTokens]
        omega
      · omega
    · simp only
      split
      · rw [h.maxTokens]
      · rename_i hover
        rw [gt_iff_lt, Int64.lt_iff_toInt_lt, h.maxTokens] at hover
        omega
    · simp only
      omega
    · exact Int.le_refl _
    · simp only
      split
      · rename_i hover
        rw [gt_iff_lt, Int64.lt_iff_toInt_lt, h.maxTokens] at hover
        rw [h.maxTokens]
        omega
      · omega
  · unfold RateLimit.refill
    simp only [ge_iff_le, if_neg hsecond]
    exact ⟨h.maxTokens, h.refillRate, h.nonneg, h.le_rate, h.created_le,
      h.refilled.trans hclock', h.taken⟩

theorem Inv.take (h : Inv perSec created p) {q : Publishing}
    (hlimit : q.limit = if p.limit.tokens ≤ 0 then p.limit
      else { p.limit with tokens := p.limit.tokens - 1 })
    (hclock : q.clock = p.clock)
    (hallowed : q.allowed = p.allowed + if p.limit.tokens ≤ 0 then 0 else 1) :
    Inv perSec created q := by
  have hnonneg := h.nonneg
  have hle := h.le_rate
  have htaken := h.taken
  by_cases hnone : p.limit.tokens ≤ 0
  · rw [if_pos hnone] at hlimit hallowed
    constructor
    · rw [hlimit]
      exact h.maxTokens
    · rw [hlimit]
      exact h.refillRate
    · rw [hlimit]
      exact hnonneg
    · rw [hlimit]
      exact hle
    · rw [hlimit]
      exact h.created_le
    · rw [hlimit, hclock]
      exact h.refilled
    · rw [hlimit, hallowed]
      exact htaken
  have hsome : ¬ p.limit.tokens.toInt ≤ 0 :=
    fun hle => hnone (Int64.le_iff_toInt_le.mpr hle)
  have hone : (p.limit.tokens - 1).toInt = p.limit.tokens.toInt - 1 := by
    have hlt := p.limit.tokens.toInt_lt
    rw [Int64.toInt_sub]
    exact Int.bmod_eq_of_le (by
      show _ ≤ p.limit.tokens.toInt - 1
      omega) (by
      show p.limit.tokens.toInt - 1 < _
      omega)
  rw [if_neg hnone] at hlimit hallowed
  constructor
  · rw [hlimit]
    exact h.maxTokens
  · rw [hlimit]
    exact h.refillRate
  · rw [hlimit]
    show 0 ≤ (p.limit.tokens - 1).toInt
    omega
  · rw [hlimit]
    show (p.limit.tokens - 1).toInt ≤ _
    omega
  · rw [hlimit]
    exact h.created_le
  · rw [hlimit, hclock]
    exact h.refilled
  · rw [hlimit, hallowed]
    show ((p.allowed + 1 : Nat) : Int) + (p.limit.tokens - 1).toInt ≤ _
    rw [hone]
    push_cast
    show _ ≤ perSec.toInt + perSec.toInt *
      seconds created p.limit.lastRefill
    omega

theorem Inv.overflow (h : Inv perSec created p) (hrate : 0 < perSec)
    (hrange : perSec.toInt * seconds created now < 2 ^ 63)
    (hfits : ¬ Fits p now) :
    exists q, step p now = some q ∧ q.limit.tokens.toInt < 0 := by
  unfold Fits at hfits
  simp only [not_forall, Int.not_lt] at hfits
  rcases hfits with ⟨hclock, hsecond, hover⟩
  rcases h.adds hrate hrange hclock hsecond with ⟨n, hadds⟩
  rw [hadds.rate] at hover
  have hsmall := hadds.small
  have hle := p.limit.tokens.toInt_lt
  have hpos : 0 < perSec.toInt := Int64.lt_iff_toInt_lt.mp hrate
  have htokens : (p.limit.tokens + (now - p.limit.lastRefill) / second *
      p.limit.refillRate).toInt = p.limit.tokens.toInt + n - 2 ^ 64 := by
    rw [Int64.toInt_add, hadds.eq, Int.bmod_def]
    omega
  have hcut : ¬ p.limit.tokens + (now - p.limit.lastRefill) / second *
      p.limit.refillRate > p.limit.maxTokens := by
    rw [gt_iff_lt, Int64.lt_iff_toInt_lt, h.maxTokens, htokens]
    omega
  have hlimit : (p.limit.refill now).tokens =
      p.limit.tokens + (now - p.limit.lastRefill) / second *
        p.limit.refillRate := by
    unfold RateLimit.refill
    simp only [ge_iff_le, if_pos hsecond, if_neg hcut]
  have hnone : (p.limit.refill now).tokens ≤ 0 := by
    rw [Int64.le_iff_toInt_le, hlimit, htokens]
    show _ ≤ (0 : Int)
    omega
  refine ⟨_, if_neg (fun hlt => absurd hclock (Int64.not_le.mpr hlt)), ?_⟩
  unfold RateLimit.allow
  simp only [if_pos hnone]
  rw [hlimit, htokens]
  omega

/--
The tokens stay within the rate, and the calls allowed within it and the seconds
that have passed, exactly as long as no refill overflows.
-/
theorem bounded_throughout_iff (perSec created : Int64) (hrate : 0 < perSec)
    (readings : List Int64)
    (hrange : forall now, now ∈ readings ->
      perSec.toInt * seconds created now < 2 ^ 63) :
    (forall front, front <+: readings -> forall p,
      run? step (start perSec created) front = some p ->
        Bounded perSec created p) <->
      Meets step Fits (start perSec created) readings := by
  have hkeep : forall (n : Nat) p now q, n < readings.length ->
      Inv perSec created p -> perSec.toInt * seconds created now < 2 ^ 63 ->
      Fits p now -> step p now = some q -> Inv perSec created q := by
    intro _ p now q _ hinv hrange hfits hstep
    unfold step at hstep
    split at hstep
    · cases hstep
    rename_i hclock
    cases hstep
    apply (hinv.refill hrate hrange (Int64.not_lt.mp hclock) hfits).take
    · unfold RateLimit.allow
      simp only
      split <;> rfl
    · rfl
    · unfold RateLimit.allow
      simp only
      split <;> rfl
  have hbreak : forall (n : Nat) p now, n < readings.length ->
      Inv perSec created p -> perSec.toInt * seconds created now < 2 ^ 63 ->
      ¬ Fits p now ->
      exists q, step p now = some q ∧ ¬ Bounded perSec created q := by
    intro _ p now _ hinv hrange hfits
    rcases hinv.overflow hrate hrange hfits with ⟨q, hstep, hneg⟩
    refine ⟨q, hstep, fun hbounded => ?_⟩
    have hnonneg := hbounded.nonneg
    omega
  exact @run?_always_iff_meets_of_forall Publishing Int64 step Fits
    (fun now => perSec.toInt * seconds created now < 2 ^ 63)
    (fun _ => Inv perSec created) (Bounded perSec created) readings.length
    (fun _ _ h => h.bounded hrate) hkeep hbreak 0 _ (inv_start hrate) readings
    hrange (by omega)

theorem bounded_throughout_two :
    (forall front, front <+: [second, second + second] -> forall p,
      run? step (start 1 0) front = some p -> Bounded 1 0 p) <->
      Meets step Fits (start 1 0) [second, second + second] :=
  bounded_throughout_iff 1 0 (by decide) [second, second + second] (by
    rw [List.forall_mem_cons, List.forall_mem_singleton]
    decide)

/-- Of a rate of half the range the first refill overflows. -/
theorem not_bounded_overflow :
    ¬ forall (perSec created : Int64) (readings : List Int64),
      0 < perSec ->
      (forall now, now ∈ readings ->
        perSec.toInt * seconds created now < 2 ^ 63) ->
      forall p, run? step (start perSec created) readings = some p ->
        Bounded perSec created p := by
  intro h
  have hrun := h 4611686018427387904 0 [second] (by decide)
    (by rw [List.forall_mem_singleton]; decide)
    ((step (start 4611686018427387904 0) second).getD (start 1 0)) (by decide)
  exact absurd hrun.nonneg (by decide)

end Publishing
end Flow
end ChimeraMQ
