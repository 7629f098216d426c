import Mathlib.Data.List.Basic
import Mathlib.Data.List.Range

/-!
# Values at consecutive numbers

A partial function on numbers is read from a number on, either up to the first
number where it has no value or past those numbers.
-/

namespace ChimeraMQ
namespace Foundation

variable {α : Type}

/-- The values from a number on, up to the first number without one. -/
def takeRun (f : Nat -> Option α) : Nat -> Nat -> List α
  | _, 0 => []
  | i, n + 1 =>
    match f i with
    | none => []
    | some x => x :: takeRun f (i + 1) n

def valuesFrom (f : Nat -> Option α) (i n : Nat) : List α :=
  (List.range' i n).filterMap f

/-!
## Runs
-/

variable {f : Nat -> Option α} {i : Nat}

theorem takeRun_of_none (h : f i = none) (n : Nat) : takeRun f i n = [] := by
  cases n with
  | zero => rfl
  | succ n =>
  unfold takeRun
  rw [h]

theorem takeRun_of_some {x : α} (h : f i = some x) (n : Nat) :
    takeRun f i (n + 1) = x :: takeRun f (i + 1) n := by
  conv => lhs; unfold takeRun
  rw [h]

theorem length_takeRun_le (f : Nat -> Option α) (i n : Nat) :
    (takeRun f i n).length ≤ n := by
  induction n generalizing i with
  | zero => exact Nat.le_refl 0
  | succ n ih =>
  cases h : f i with
  | none =>
    rw [takeRun_of_none h]
    exact Nat.zero_le _
  | some x =>
  rw [takeRun_of_some h, List.length_cons]
  exact Nat.succ_le_succ (ih (i + 1))

theorem none_of_length_lt {f : Nat -> Option α} {i n : Nat}
    (h : (takeRun f i n).length < n) :
    f (i + (takeRun f i n).length) = none := by
  induction n generalizing i with
  | zero => exact absurd h (Nat.not_lt_zero _)
  | succ n ih =>
  cases hi : f i with
  | none =>
    rw [takeRun_of_none hi]
    exact hi
  | some x =>
  rw [takeRun_of_some hi, List.length_cons] at h ⊢
  have hrest := ih (Nat.lt_of_succ_lt_succ h)
  rwa [Nat.succ_add_eq_add_succ] at hrest

variable {n : Nat}

theorem isSome_of_lt_length {j : Nat} (h : j < (takeRun f i n).length) :
    (f (i + j)).isSome := by
  induction n generalizing i j with
  | zero => exact absurd h (Nat.not_lt_zero j)
  | succ n ih =>
  cases hi : f i with
  | none =>
    rw [takeRun_of_none hi] at h
    exact absurd h (Nat.not_lt_zero j)
  | some x =>
  cases j with
  | zero =>
    rw [Nat.add_zero, hi]
    rfl
  | succ j =>
  rw [takeRun_of_some hi, List.length_cons] at h
  have hrest := ih (Nat.lt_of_succ_lt_succ h)
  rwa [Nat.succ_add_eq_add_succ] at hrest

theorem takeRun_add (m : Nat) (h : (takeRun f i n).length = n) :
    takeRun f i (n + m) = takeRun f i n ++ takeRun f (i + n) m := by
  induction n generalizing i with
  | zero =>
    rw [Nat.zero_add, Nat.add_zero]
    rfl
  | succ n ih =>
  cases hi : f i with
  | none =>
    rw [takeRun_of_none hi] at h
    cases h
  | some x =>
  rw [takeRun_of_some hi, List.length_cons] at h
  rw [Nat.succ_add_eq_add_succ, Nat.add_succ, takeRun_of_some hi,
    takeRun_of_some hi, ih (Nat.succ.inj h), List.cons_append]
  congr 3
  omega

theorem takeRun_of_length_lt (m : Nat) (h : (takeRun f i n).length < n) :
    takeRun f i (n + m) = takeRun f i n := by
  induction n generalizing i with
  | zero => exact absurd h (Nat.not_lt_zero _)
  | succ n ih =>
  cases hi : f i with
  | none => rw [takeRun_of_none hi, takeRun_of_none hi]
  | some x =>
  rw [takeRun_of_some hi, List.length_cons] at h
  rw [Nat.succ_add_eq_add_succ, Nat.add_succ, takeRun_of_some hi,
    takeRun_of_some hi, ih (Nat.lt_of_succ_lt_succ h)]

theorem takeRun_congr {f g : Nat -> Option α} {i n : Nat}
    (h : forall j, i ≤ j -> j < i + n -> f j = g j) :
    takeRun f i n = takeRun g i n := by
  induction n generalizing i with
  | zero => rfl
  | succ n ih =>
  have hi := h i (Nat.le_refl i) (by omega)
  have hrest := @ih (i + 1) (fun j hj hlt => h j (by omega) (by omega))
  cases hf : f i with
  | none => rw [takeRun_of_none hf, takeRun_of_none (hi.symm.trans hf)]
  | some x =>
    rw [takeRun_of_some hf, takeRun_of_some (hi.symm.trans hf), hrest]

/-!
## All values
-/

theorem valuesFrom_succ (f : Nat -> Option α) (i n : Nat) :
    valuesFrom f i (n + 1) =
      (f i).toList ++ valuesFrom f (i + 1) n := by
  rw [valuesFrom, List.range'_succ, valuesFrom]
  cases h : f i with
  | none => rw [List.filterMap_cons_none h]; rfl
  | some x => rw [List.filterMap_cons_some h]; rfl

theorem length_valuesFrom_le (f : Nat -> Option α) (i n : Nat) :
    (valuesFrom f i n).length ≤ n := by
  have h := List.length_filterMap_le f (List.range' i n)
  rwa [List.length_range'] at h

theorem valuesFrom_eq_nil :
    valuesFrom f i n = [] <-> forall j, i ≤ j -> j < i + n -> f j = none := by
  unfold valuesFrom
  rw [List.filterMap_eq_nil_iff]
  constructor
  · intro h j hle hlt
    exact h j (List.mem_range'_1.mpr ⟨hle, hlt⟩)
  · intro h j hj
    rcases List.mem_range'_1.mp hj with ⟨hle, hlt⟩
    exact h j hle hlt

theorem takeRun_getElem? (xs : List α) (i n : Nat) :
    takeRun (fun j => xs[j]?) i n = (xs.drop i).take n := by
  induction n generalizing i with
  | zero => rfl
  | succ n ih =>
  by_cases hlt : i < xs.length
  · rw [takeRun_of_some (List.getElem?_eq_getElem hlt), ih,
      List.drop_eq_getElem_cons hlt, List.take_succ_cons]
  · rw [takeRun_of_none (List.getElem?_eq_none (by omega)),
      List.drop_eq_nil_of_le (by omega), List.take_nil]

theorem valuesFrom_getElem? (xs : List α) (i n : Nat) :
    valuesFrom (fun j => xs[j]?) i n = (xs.drop i).take n := by
  induction n generalizing i with
  | zero => rfl
  | succ n ih =>
  rw [valuesFrom_succ, ih]
  by_cases hlt : i < xs.length
  · rw [List.getElem?_eq_getElem hlt, List.drop_eq_getElem_cons hlt,
      List.take_succ_cons]
    rfl
  · rw [List.getElem?_eq_none (by omega), List.drop_eq_nil_of_le (by omega),
      List.drop_eq_nil_of_le (by omega), List.take_nil, List.take_nil]
    rfl

/-!
## Runs without a gap
-/

theorem takeRun_take (f : Nat -> Option α) (i : Nat) {m : Nat} (h : m ≤ n) :
    takeRun f i m = (takeRun f i n).take m := by
  induction m generalizing i n with
  | zero => rfl
  | succ m ih =>
  cases n with
  | zero => exact absurd h (Nat.not_succ_le_zero m)
  | succ n =>
  cases hi : f i with
  | none => rw [takeRun_of_none hi, takeRun_of_none hi, List.take_nil]
  | some x =>
  rw [takeRun_of_some hi, takeRun_of_some hi, List.take_succ_cons,
    ih (i + 1) (Nat.le_of_succ_le_succ h)]

theorem takeRun_drop {k : Nat} (h : k ≤ (takeRun f i n).length) :
    takeRun f (i + k) (n - k) = (takeRun f i n).drop k := by
  have hn := length_takeRun_le f i n
  have hk : (takeRun f i k).length = k := by
    rw [takeRun_take f i (h.trans hn), List.length_take]
    omega
  have hsplit := takeRun_add (n - k) hk
  rw [Nat.add_sub_cancel' (h.trans hn)] at hsplit
  rw [hsplit, List.drop_append_of_le_length (Nat.le_of_eq hk.symm),
    List.drop_of_length_le (Nat.le_of_eq hk), List.nil_append]

def Unbroken (f : Nat -> Option α) (i n : Nat) : Prop :=
  forall j, j < i + n -> (f j).isSome -> forall k, i ≤ k -> k < j ->
    (f k).isSome

theorem Unbroken.eq_nil (h : Unbroken f i n) (hnone : f i = none) :
    valuesFrom f i n = [] := by
  apply valuesFrom_eq_nil.mpr
  intro j hle hlt
  cases hj : f j with
  | none => rfl
  | some x =>
  rcases Nat.eq_or_lt_of_le hle with hsame | hless
  · rw [← hsame, hnone] at hj
    cases hj
  · have hi := h j hlt (by rw [hj]; rfl) i (Nat.le_refl i) hless
    rw [hnone] at hi
    cases hi

theorem valuesFrom_eq_takeRun_iff :
    valuesFrom f i n = takeRun f i n <-> Unbroken f i n := by
  induction n generalizing i with
  | zero =>
    constructor
    · intro _ j hj _ k hk hlt
      omega
    · intro _
      rfl
  | succ n ih =>
  rw [valuesFrom_succ]
  cases hi : f i with
  | none =>
    rw [takeRun_of_none hi]
    change valuesFrom f (i + 1) n = [] <-> _
    constructor
    · intro hnil j hj hsome k hk hlt
      have hnone := valuesFrom_eq_nil.mp hnil j (by omega) (by omega)
      rw [hnone] at hsome
      cases hsome
    intro h
    have hnil := h.eq_nil hi
    rw [valuesFrom_succ, hi] at hnil
    exact hnil
  | some x =>
  rw [takeRun_of_some hi]
  change x :: valuesFrom f (i + 1) n = _ <-> _
  rw [List.cons.injEq]
  constructor
  · rintro ⟨_, hrest⟩ j hj hsome k hk hlt
    rcases Nat.eq_or_lt_of_le hk with hsame | hless
    · rw [← hsame, hi]
      rfl
    · exact ih.mp hrest j (by omega) hsome k hless hlt
  intro h
  refine ⟨rfl, ih.mpr ?_⟩
  intro j hj hsome k hk hlt
  exact h j (by omega) hsome k (by omega) hlt

end Foundation
end ChimeraMQ
