import ChimeraMQ.Processing.Window

/-!
# Overlapping windows

Sliding and hopping windows begin at the multiples of the slide and may overlap.
An event of a sliding type goes to all of them that it falls into; the hopping
type is handled like the tumbling one.
-/

namespace ChimeraMQ
namespace Processing

open Foundation

inductive OverlapType where
  | sliding
  | hopping
deriving DecidableEq

structure OverlapConfig where
  type : OverlapType
  size : Int64
  slide : Int64

namespace Overlap

abbrev Windows := List (Int64 × Window)

structure Event where
  key : Bytes
  timestamp : Int64
  data : Bytes

def append (size : Int64) (e : Event) (openTime : Int64) (windows : Windows) :
    Window :=
  WindowManager.appendToKey
    ((getEntry openTime windows).getD
      (WindowManager.emptyWindow openTime (openTime + size)))
    e.key e.data e.timestamp

/-- Walk backward to the first window, in a number of rounds at most. -/
def earliest (cfg : OverlapConfig) (timestamp : Int64) :
    Nat -> Int64 -> Option Int64
  | 0, _ => none
  | fuel + 1, start =>
    if start > 0 ∧ start - cfg.slide + cfg.size > timestamp ∧
        start - cfg.slide ≤ timestamp then
      earliest cfg timestamp fuel (start - cfg.slide)
    else some start

def addFrom (cfg : OverlapConfig) (e : Event) :
    Nat -> Int64 -> Windows -> Option Windows
  | 0, _, _ => none
  | fuel + 1, openTime, windows =>
    if openTime ≤ e.timestamp then
      addFrom cfg e fuel (openTime + cfg.slide)
        (if e.timestamp ≥ openTime ∧ e.timestamp < openTime + cfg.size then
          setEntry openTime (append cfg.size e openTime windows) windows
        else windows)
    else some windows

def addToSlidingWindow (cfg : OverlapConfig) (fuel : Nat) (e : Event)
    (windows : Windows) : Option Windows :=
  let cfg := if cfg.slide = 0 then { cfg with slide := cfg.size } else cfg
  (earliest cfg e.timestamp fuel (e.timestamp / cfg.slide * cfg.slide)).bind
    (fun start => addFrom cfg e fuel start windows)

def manager (cfg : OverlapConfig) (windows : Windows) : WindowManager where
  config := { type := .hopping, size := cfg.size, gap := 0 }
  windows := some windows
  lastTick := 0

def addEvent (cfg : OverlapConfig) (fuel : Nat) (e : Event)
    (windows : Windows) : Option Windows :=
  match cfg.type with
  | .hopping =>
    ((manager cfg windows).addToFixedWindow e.key e.timestamp
      e.data).toOption.bind WindowManager.windows
  | .sliding => addToSlidingWindow cfg fuel e windows

/-- The windows that begin at a multiple of the slide and contain a time. -/
def Covers (cfg : OverlapConfig) (timestamp openTime : Int64) : Prop :=
  (exists k : Int, 0 ≤ k ∧ openTime.toInt = k * cfg.slide.toInt) ∧
    openTime.toInt ≤ timestamp.toInt ∧
      timestamp.toInt < openTime.toInt + cfg.size.toInt

def AddedToCovering (cfg : OverlapConfig) (e : Event)
    (windows windows' : Windows) : Prop :=
  forall p, (Covers cfg e.timestamp p ->
      getEntry p windows' = some (append cfg.size e p windows)) ∧
    (¬ Covers cfg e.timestamp p -> getEntry p windows' = getEntry p windows)

/-- Where the windows of a time end, and the next one begins, fits an `int64`. -/
def InRange (cfg : OverlapConfig) (timestamp : Int64) : Prop :=
  match cfg.type with
  | .hopping =>
    timestamp.toInt / cfg.size.toInt * cfg.size.toInt + cfg.size.toInt < 2 ^ 63
  | .sliding =>
  timestamp.toInt / cfg.slide.toInt * cfg.slide.toInt + cfg.size.toInt <
      2 ^ 63 ∧
    timestamp.toInt / cfg.slide.toInt * cfg.slide.toInt +
      cfg.slide.toInt < 2 ^ 63

def Alone (size slide timestamp : Int) : Prop :=
  let openTime := timestamp / size * size
  openTime % slide = 0 ∧ timestamp < openTime + slide ∧
    (openTime < slide ∨ openTime - slide + size ≤ timestamp)

/-!
## Sliding windows
-/

theorem toInt_add_of {a b : Int64} (hlow : -2 ^ 63 ≤ a.toInt + b.toInt)
    (hhigh : a.toInt + b.toInt < 2 ^ 63) :
    (a + b).toInt = a.toInt + b.toInt := by
  rw [Int64.toInt_add]
  exact Int.bmod_eq_of_le (by omega) (by omega)

theorem toInt_sub_of {a b : Int64} (hlow : -2 ^ 63 ≤ a.toInt - b.toInt)
    (hhigh : a.toInt - b.toInt < 2 ^ 63) :
    (a - b).toInt = a.toInt - b.toInt := by
  rw [Int64.toInt_sub]
  exact Int.bmod_eq_of_le (by omega) (by omega)

theorem toInt_floor {t n : Int64} (ht : 0 ≤ t.toInt) (hn : 0 < n.toInt) :
    (t / n * n).toInt = t.toInt / n.toInt * n.toInt := by
  have hne : n ≠ -1 := by
    intro h
    rw [h] at hn
    exact absurd hn (by decide)
  have hlt := t.toInt_lt
  have hfloor := Int.ediv_mul_le t.toInt (Int.ne_of_gt hn)
  have hnonneg : 0 ≤ t.toInt / n.toInt * n.toInt :=
    Int.mul_nonneg (Int.ediv_nonneg ht (Int.le_of_lt hn)) (Int.le_of_lt hn)
  rw [Int64.toInt_mul, Int64.toInt_div_of_ne_right _ _ hne,
    Int.tdiv_eq_ediv_of_nonneg ht]
  exact Int.bmod_eq_of_le (by omega) (by omega)

variable {cfg : OverlapConfig} {e : Event} {t : Int64}

theorem earliest_spec (hslide : 0 < cfg.slide.toInt) (k : Nat) {start : Int64}
    (hstart : start.toInt = k * cfg.slide.toInt) (hle : start.toInt ≤ t.toInt)
    (hend : start.toInt + cfg.size.toInt < 2 ^ 63)
    (hsize : 0 < cfg.size.toInt) {fuel : Nat} (hfuel : k < fuel) :
    exists (m : Nat) (s : Int64), m ≤ k ∧ earliest cfg t fuel start = some s ∧
      s.toInt = m * cfg.slide.toInt ∧
      (m = 0 ∨ s.toInt - cfg.slide.toInt + cfg.size.toInt ≤ t.toInt) := by
  induction k generalizing start fuel with
  | zero =>
    cases fuel with
    | zero => cases hfuel
    | succ fuel =>
    have hzero : ¬ start > 0 := by
      rw [gt_iff_lt, Int64.lt_iff_toInt_lt, hstart]
      show ¬ (0 : Int) < _
      omega
    refine ⟨0, start, Nat.le_refl 0, ?_, hstart, Or.inl rfl⟩
    rw [earliest, if_neg (fun h => hzero h.left)]
  | succ k ih =>
  cases fuel with
  | zero => cases hfuel
  | succ fuel =>
  have hk : start.toInt = k * cfg.slide.toInt + cfg.slide.toInt := by
    rw [hstart]
    push_cast
    rw [Int.add_mul, Int.one_mul]
  have hknonneg : (0 : Int) ≤ k * cfg.slide.toInt :=
    Int.mul_nonneg (Int.natCast_nonneg k) (Int.le_of_lt hslide)
  have hlt := t.toInt_lt
  have hback : (start - cfg.slide).toInt = k * cfg.slide.toInt := by
    rw [toInt_sub_of (by omega) (by omega)]
    omega
  have hreach : (start - cfg.slide + cfg.size).toInt =
      k * cfg.slide.toInt + cfg.size.toInt := by
    rw [toInt_add_of (by omega) (by omega), hback]
  rw [earliest]
  by_cases hstay : t.toInt < k * cfg.slide.toInt + cfg.size.toInt
  · have hcond : start > 0 ∧ start - cfg.slide + cfg.size > t ∧
        start - cfg.slide ≤ t := by
      refine ⟨?_, ?_, ?_⟩
      · rw [gt_iff_lt, Int64.lt_iff_toInt_lt]
        show (0 : Int) < _
        omega
      · rw [gt_iff_lt, Int64.lt_iff_toInt_lt, hreach]
        exact hstay
      · rw [Int64.le_iff_toInt_le, hback]
        omega
    rw [if_pos hcond]
    rcases ih hback (by omega) (by omega) (Nat.lt_of_succ_lt_succ hfuel)
      with ⟨m, s, hm, hs⟩
    exact ⟨m, s, Nat.le_succ_of_le hm, hs⟩
  · rw [if_neg (by
      intro h
      have hmore := Int64.lt_iff_toInt_lt.mp h.right.left
      rw [hreach] at hmore
      exact hstay hmore)]
    exact ⟨k + 1, start, Nat.le_refl _, rfl, hstart, Or.inr (by omega)⟩

/-- The last windows of a number that begin up to a time, as far as they reach. -/
def Within (cfg : OverlapConfig) (t : Int64) (last : Int) (n : Nat)
    (p : Int64) : Prop :=
  (exists j : Nat, j < n ∧ p.toInt = last - j * cfg.slide.toInt) ∧
    t.toInt < p.toInt + cfg.size.toInt

theorem append_congr {p : Int64} {windows windows' : Windows}
    (h : getEntry p windows' = getEntry p windows) :
    append cfg.size e p windows' = append cfg.size e p windows := by
  unfold append
  rw [h]

theorem addFrom_spec (hslide : 0 < cfg.slide.toInt) {last : Int}
    (hlast : last ≤ e.timestamp.toInt)
    (hnext : e.timestamp.toInt < last + cfg.slide.toInt)
    (hend : last + cfg.size.toInt < 2 ^ 63)
    (hstep : last + cfg.slide.toInt < 2 ^ 63) (hsize : 0 < cfg.size.toInt)
    (n : Nat) {p : Int64}
    (hp : p.toInt = last + cfg.slide.toInt - n * cfg.slide.toInt)
    (windows : Windows) {fuel : Nat} (hfuel : n < fuel) :
    exists windows', addFrom cfg e fuel p windows = some windows' ∧
      forall q, (Within cfg e.timestamp last n q ->
          getEntry q windows' = some (append cfg.size e q windows)) ∧
        (¬ Within cfg e.timestamp last n q ->
          getEntry q windows' = getEntry q windows) := by
  induction n generalizing p windows fuel with
  | zero =>
    cases fuel with
    | zero => cases hfuel
    | succ fuel =>
    have hover : ¬ p ≤ e.timestamp := by
      rw [Int64.le_iff_toInt_le]
      omega
    refine ⟨windows, by rw [addFrom, if_neg hover], ?_⟩
    intro q
    refine ⟨fun hwithin => ?_, fun _ => rfl⟩
    rcases hwithin with ⟨⟨j, hj, _⟩, _⟩
    cases hj
  | succ n ih =>
  cases fuel with
  | zero => cases hfuel
  | succ fuel =>
  have hn : ((n + 1 : Nat) : Int) * cfg.slide.toInt =
      n * cfg.slide.toInt + cfg.slide.toInt := by
    push_cast
    rw [Int.add_mul, Int.one_mul]
  have hnonneg : (0 : Int) ≤ n * cfg.slide.toInt :=
    Int.mul_nonneg (Int.natCast_nonneg n) (Int.le_of_lt hslide)
  have hbelow := p.le_toInt
  have hopen : p ≤ e.timestamp := by
    rw [Int64.le_iff_toInt_le]
    omega
  have hreach : e.timestamp ≥ p ∧ e.timestamp < p + cfg.size <->
      e.timestamp.toInt < p.toInt + cfg.size.toInt := by
    rw [Int64.lt_iff_toInt_lt, toInt_add_of (by omega) (by omega)]
    exact and_iff_right hopen
  rw [addFrom, if_pos hopen]
  generalize hone : (if e.timestamp ≥ p ∧ e.timestamp < p + cfg.size then
    setEntry p (append cfg.size e p windows) windows
      else windows) = next
  have hother : forall q, q ≠ p ->
      getEntry q next = getEntry q windows := by
    intro q hq
    rw [← hone]
    split
    · exact getEntry_setEntry_ne hq _ _
    · rfl
  rcases ih (p := p + cfg.slide) (by
      rw [toInt_add_of (by omega) (by omega)]
      omega) next (Nat.lt_of_succ_lt_succ hfuel) with
    ⟨windows', hrun, hspec⟩
  refine ⟨windows', hrun, fun q => ?_⟩
  have hfirst : q.toInt = p.toInt -> ¬ Within cfg e.timestamp last n q := by
    rintro hq ⟨⟨j, hj, heq⟩, _⟩
    have hlt : (j : Int) * cfg.slide.toInt < n * cfg.slide.toInt :=
      Int.mul_lt_mul_of_pos_right (by omega) hslide
    omega
  constructor
  · rintro ⟨⟨j, hj, heq⟩, hlong⟩
    by_cases hq : q = p
    · have hkept := (hspec q).right (hfirst (by rw [hq]))
      rw [hkept, hq, ← hone, if_pos (hreach.mpr (hq ▸ hlong))]
      exact getEntry_setEntry _ _ _
    have hj' : j < n := by
      rcases Nat.lt_succ_iff_lt_or_eq.mp hj with hlt | hsame
      · exact hlt
      exfalso
      apply hq
      apply Int64.toInt_inj.mp
      rw [hsame] at heq
      omega
    rw [(hspec q).left ⟨⟨j, hj', heq⟩, hlong⟩,
      append_congr (hother q hq)]
  intro hnot
  have hrest : ¬ Within cfg e.timestamp last n q := by
    rintro ⟨⟨j, hj, heq⟩, hlong⟩
    exact hnot ⟨⟨j, Nat.lt_succ_of_lt hj, heq⟩, hlong⟩
  rw [(hspec q).right hrest]
  by_cases hq : q = p
  · rw [← hone, if_neg]
    intro hlong
    rw [hreach] at hlong
    exact hnot ⟨⟨n, Nat.lt_succ_self n, by
      rw [hq]
      omega⟩, hq ▸ hlong⟩
  · exact hother q hq

theorem addToSlidingWindow_spec (ht : 0 ≤ e.timestamp.toInt)
    (hsize : 0 < cfg.size.toInt) (hslide : 0 < cfg.slide.toInt)
    (hend : e.timestamp.toInt / cfg.slide.toInt * cfg.slide.toInt +
      cfg.size.toInt < 2 ^ 63)
    (hstep : e.timestamp.toInt / cfg.slide.toInt * cfg.slide.toInt +
      cfg.slide.toInt < 2 ^ 63) {fuel : Nat}
    (hfuel : (e.timestamp.toInt / cfg.slide.toInt).toNat + 1 < fuel)
    (windows : Windows) :
    exists windows', addToSlidingWindow cfg fuel e windows = some windows' ∧
      AddedToCovering cfg e windows windows' := by
  have hne : cfg.slide ≠ 0 := by
    intro hzero
    rw [hzero] at hslide
    exact absurd hslide (by decide)
  have hquot : 0 ≤ e.timestamp.toInt / cfg.slide.toInt :=
    Int.ediv_nonneg ht (Int.le_of_lt hslide)
  rcases Int.eq_ofNat_of_zero_le hquot with ⟨k, hk⟩
  have hfloor := toInt_floor ht hslide
  have hle := Int.ediv_mul_le e.timestamp.toInt (Int.ne_of_gt hslide)
  have hlt := Int.lt_ediv_add_one_mul_self e.timestamp.toInt hslide
  rw [Int.add_mul, Int.one_mul] at hlt
  rw [hk] at hfloor hle hlt hend hstep hfuel
  rw [Int.toNat_natCast] at hfuel
  rcases earliest_spec (t := e.timestamp) hslide k hfloor (by omega) (by omega) hsize
      (Nat.lt_of_succ_lt hfuel) with ⟨m, s, hm, hwalk, hs, hbelow⟩
  have hcount : s.toInt = (k : Int) * cfg.slide.toInt + cfg.slide.toInt -
      ((k - m + 1 : Nat) : Int) * cfg.slide.toInt := by
    rw [hs]
    push_cast [Nat.cast_sub hm]
    ring
  rcases addFrom_spec hslide hle hlt hend hstep hsize (k - m + 1) hcount windows
      (show k - m + 1 < fuel by omega) with ⟨windows', hrun, hspec⟩
  refine ⟨windows', ?_, fun q => ?_⟩
  · unfold addToSlidingWindow
    simp only [if_neg hne, hwalk, Option.bind_some, hrun]
  have hsame : Covers cfg e.timestamp q <->
      Within cfg e.timestamp ((k : Int) * cfg.slide.toInt) (k - m + 1) q := by
    constructor
    · rintro ⟨⟨i, hi, heq⟩, hopen, hlong⟩
      rcases Int.eq_ofNat_of_zero_le hi with ⟨i, rfl⟩
      have hik : i ≤ k := by
        have hdiv := Int.le_ediv_of_mul_le hslide (heq ▸ hopen)
        omega
      have hmi : m ≤ i := by
        by_contra hless
        rcases hbelow with hzero | hbelow
        · omega
        have hprev : ((i + 1 : Nat) : Int) * cfg.slide.toInt ≤
            m * cfg.slide.toInt :=
          Int.mul_le_mul_of_nonneg_right (by omega) (Int.le_of_lt hslide)
        push_cast at hprev
        rw [Int.add_mul, Int.one_mul] at hprev
        omega
      refine ⟨⟨k - i, by omega, ?_⟩, hlong⟩
      rw [heq]
      push_cast [Nat.cast_sub hik]
      ring
    · rintro ⟨⟨j, hj, heq⟩, hlong⟩
      have hjk : j ≤ k := by omega
      have hnonneg : (0 : Int) ≤ j * cfg.slide.toInt :=
        Int.mul_nonneg (Int.natCast_nonneg j) (Int.le_of_lt hslide)
      refine ⟨⟨((k - j : Nat) : Int), Int.natCast_nonneg _, ?_⟩, by omega,
        hlong⟩
      rw [heq]
      push_cast [Nat.cast_sub hjk]
      ring
  rw [hsame]
  exact hspec q

/-!
## Hopping windows
-/

theorem append_ne (size : Int64) (e : Event) (p : Int64) {windows : Windows}
    {w : Window} (hw : getEntry p windows = some w) :
    append size e p windows ≠ w := by
  intro heq
  have hcount := WindowHistory.countOf_appendToKey w e.key e.data e.timestamp
    e.key
  rw [if_pos rfl] at hcount
  unfold append at heq
  rw [hw, Option.getD_some] at heq
  rw [heq] at hcount
  omega

theorem addedToCovering_setEntry_iff (openTime : Int64) (windows : Windows) :
    AddedToCovering cfg e windows
        (setEntry openTime (append cfg.size e openTime windows) windows) <->
      forall p, Covers cfg e.timestamp p <-> p = openTime := by
  constructor
  · intro h p
    rcases h p with ⟨hcovers, hnot⟩
    by_cases hp : p = openTime
    · subst hp
      refine iff_of_true ?_ rfl
      by_contra hnone
      have hsame := hnot hnone
      rw [getEntry_setEntry] at hsame
      exact append_ne cfg.size e p hsame.symm rfl
    refine iff_of_false ?_ hp
    intro hyes
    have hsame := hcovers hyes
    rw [getEntry_setEntry_ne hp] at hsame
    exact append_ne cfg.size e p hsame rfl
  · intro h p
    rw [h p]
    constructor
    · intro hp
      rw [hp, getEntry_setEntry]
    · intro hp
      rw [getEntry_setEntry_ne hp]

theorem forall_covers_iff {openTime : Int64} (ht : 0 ≤ e.timestamp.toInt)
    (hsize : 0 < cfg.size.toInt) (hslide : 0 < cfg.slide.toInt)
    (hopen : openTime.toInt =
      e.timestamp.toInt / cfg.size.toInt * cfg.size.toInt) :
    (forall p, Covers cfg e.timestamp p <-> p = openTime) <->
      Alone cfg.size.toInt cfg.slide.toInt e.timestamp.toInt := by
  have hle := Int.ediv_mul_le e.timestamp.toInt (Int.ne_of_gt hsize)
  have hlt := Int.lt_ediv_add_one_mul_self e.timestamp.toInt hsize
  rw [Int.add_mul, Int.one_mul] at hlt
  have hnonneg : 0 ≤ openTime.toInt := by
    rw [hopen]
    exact Int.mul_nonneg (Int.ediv_nonneg ht (Int.le_of_lt hsize))
      (Int.le_of_lt hsize)
  have hmax := e.timestamp.toInt_lt
  have hslideMax := cfg.slide.toInt_lt
  unfold Alone
  simp only
  rw [← hopen] at hle hlt ⊢
  constructor
  · intro h
    rcases (h openTime).mpr rfl with ⟨⟨k, hk, heq⟩, _, _⟩
    refine ⟨by rw [heq, Int.mul_emod_left], ?_, ?_⟩
    · by_contra hlater
      have hnext : (openTime + cfg.slide).toInt =
          openTime.toInt + cfg.slide.toInt := toInt_add_of (by omega) (by omega)
      have hsame := (h (openTime + cfg.slide)).mp ⟨⟨k + 1, by omega, by
        rw [hnext, heq, Int.add_mul, Int.one_mul]⟩, by omega, by omega⟩
      rw [hsame] at hnext
      omega
    by_contra hearlier
    have hprev : (openTime - cfg.slide).toInt =
        openTime.toInt - cfg.slide.toInt := toInt_sub_of (by omega) (by omega)
    have hk' : 1 ≤ k := by
      by_contra hless
      have hzero : k = 0 := by omega
      rw [hzero, Int.zero_mul] at heq
      omega
    have hsame := (h (openTime - cfg.slide)).mp ⟨⟨k - 1, by omega, by
      rw [hprev, heq, Int.sub_mul, Int.one_mul]⟩, by omega, by omega⟩
    rw [hsame] at hprev
    omega
  rintro ⟨hgrid, hnext, hprev⟩ p
  rcases Int.dvd_of_emod_eq_zero hgrid with ⟨i, hi⟩
  have hi' : openTime.toInt = i * cfg.slide.toInt := by
    rw [hi, Int.mul_comm]
  have hinonneg : 0 ≤ i := by
    by_contra hneg
    have hless := Int.mul_lt_mul_of_pos_right (show i < 0 by omega) hslide
    rw [Int.zero_mul] at hless
    omega
  constructor
  · rintro ⟨⟨k, hk, heq⟩, hstarted, hlong⟩
    apply Int64.toInt_inj.mp
    rcases Int.lt_trichotomy k i with hki | hki | hki
    · have hstep := Int.mul_le_mul_of_nonneg_right
        (show k + 1 ≤ i by omega) (Int.le_of_lt hslide)
      rw [Int.add_mul, Int.one_mul] at hstep
      have hfirst : 0 ≤ k * cfg.slide.toInt :=
        Int.mul_nonneg hk (Int.le_of_lt hslide)
      omega
    · rw [heq, hi', hki]
    · have hstep := Int.mul_le_mul_of_nonneg_right
        (show i + 1 ≤ k by omega) (Int.le_of_lt hslide)
      rw [Int.add_mul, Int.one_mul] at hstep
      omega
  · intro hp
    subst hp
    exact ⟨⟨i, hinonneg, hi'⟩, hle, hlt⟩

theorem addEvent_hopping (htype : cfg.type = .hopping) (fuel : Nat)
    (hsize : 0 < cfg.size.toInt) (windows : Windows) :
    addEvent cfg fuel e windows =
      some (setEntry (e.timestamp / cfg.size * cfg.size)
        (append cfg.size e (e.timestamp / cfg.size * cfg.size) windows)
        windows) := by
  have hne : cfg.size ≠ 0 := by
    intro hzero
    rw [hzero] at hsize
    exact absurd hsize (by decide)
  have hfixed : (manager cfg windows).addToFixedWindow e.key e.timestamp
      e.data = .ok { manager cfg windows with
        windows := some (setEntry (e.timestamp / cfg.size * cfg.size)
          (append cfg.size e (e.timestamp / cfg.size * cfg.size) windows)
          windows) } := if_neg hne
  unfold addEvent
  simp only [htype, hfixed]
  rfl

/--
Where no time overflows an event goes to the windows that it falls into, but of
the hopping type only if the tumbling window of its time is the only one.
-/
theorem addEvent_covering_iff (cfg : OverlapConfig) (e : Event)
    (windows : Windows) (hsize : 0 < cfg.size.toInt)
    (hslide : 0 < cfg.slide.toInt) (ht : 0 ≤ e.timestamp.toInt)
    (hrange : InRange cfg e.timestamp) {fuel : Nat}
    (hfuel : (e.timestamp.toInt / cfg.slide.toInt).toNat + 1 < fuel) :
    (exists windows', addEvent cfg fuel e windows = some windows' ∧
        AddedToCovering cfg e windows windows') <->
      (cfg.type = .hopping ->
        Alone cfg.size.toInt cfg.slide.toInt e.timestamp.toInt) := by
  cases htype : cfg.type with
  | sliding =>
    unfold InRange at hrange
    rw [htype] at hrange
    refine iff_of_true ?_ (fun h => by cases h)
    unfold addEvent
    simp only [htype]
    exact addToSlidingWindow_spec ht hsize hslide hrange.left hrange.right
      hfuel windows
  | hopping =>
  rw [addEvent_hopping htype fuel hsize, forall_prop_of_true rfl,
    ← forall_covers_iff ht hsize hslide (toInt_floor ht hsize),
    ← addedToCovering_setEntry_iff]
  constructor
  · rintro ⟨windows', hsome, hadded⟩
    cases hsome
    exact hadded
  · intro hadded
    exact ⟨_, rfl, hadded⟩

theorem addEvent_covering_sliding :
    (exists windows', addEvent ⟨.sliding, 10, 5⟩ 3 ⟨[107], 7, []⟩ [] =
        some windows' ∧
        AddedToCovering ⟨.sliding, 10, 5⟩ ⟨[107], 7, []⟩ [] windows') <->
      (OverlapType.sliding = .hopping -> Alone 10 5 7) :=
  addEvent_covering_iff ⟨.sliding, 10, 5⟩ ⟨[107], 7, []⟩ [] (by decide)
    (by decide) (by decide) ⟨by decide, by decide⟩ (by decide)

/-- Of two hopping windows that a time falls into one gets the event. -/
theorem not_addEvent_covering_hopping :
    ¬ forall (cfg : OverlapConfig) (e : Event) (windows : Windows),
      0 < cfg.size.toInt -> 0 < cfg.slide.toInt -> 0 ≤ e.timestamp.toInt ->
      exists fuel windows', addEvent cfg fuel e windows = some windows' ∧
        AddedToCovering cfg e windows windows' := by
  intro h
  rcases h ⟨.hopping, 10, 5⟩ ⟨[107], 7, []⟩ [] (by decide) (by decide)
      (by decide) with ⟨fuel, windows', hrun, hadded⟩
  rw [addEvent_hopping rfl fuel (by decide)] at hrun
  cases hrun
  have hsecond := (hadded 5).left ⟨⟨1, by decide, by decide⟩, by decide,
    by decide⟩
  exact absurd hsecond (by decide)

end Overlap
end Processing
end ChimeraMQ
