import Mathlib.Data.List.Basic

/-!
# Binary search

The loop over two inclusive bounds that halves a list until an element
compares equal.  On a list that the comparison splits into a front, a middle
and a back it finds an element of the middle if there is one.
-/

namespace ChimeraMQ
namespace Foundation

variable {α : Type}

/--
Search between two inclusive bounds.  The comparison says where the target
lies from an element; the first argument bounds the number of rounds.
-/
def searchBetween (cmp : α -> Ordering) (xs : List α) :
    Nat -> Int -> Int -> Option α
  | 0, _, _ => none
  | k + 1, lo, hi =>
    if lo ≤ hi then
      let mid := (lo + hi) / 2
      match xs[mid.toNat]? with
      | none => none
      | some x =>
      match cmp x with
      | .eq => some x
      | .gt => searchBetween cmp xs k (mid + 1) hi
      | .lt => searchBetween cmp xs k lo (mid - 1)
    else none

def binarySearch (cmp : α -> Ordering) (xs : List α) : Option α :=
  searchBetween cmp xs (xs.length + 1) 0 (xs.length - 1)

/-- Elements after the target come last, elements before it first. -/
structure Splits (cmp : α -> Ordering) (xs : List α) : Prop where
  after : forall (i j : Nat) (x y : α), i ≤ j -> xs[i]? = some x ->
    xs[j]? = some y -> cmp x = .lt -> cmp y = .lt
  before : forall (i j : Nat) (x y : α), i ≤ j -> xs[i]? = some x ->
    xs[j]? = some y -> cmp y = .gt -> cmp x = .gt

variable {cmp : α -> Ordering} {xs : List α}

theorem splits_of_pairwise (hpair : xs.Pairwise (fun x y =>
      (cmp x = .lt -> cmp y = .lt) ∧ (cmp y = .gt -> cmp x = .gt))) :
    Splits cmp xs := by
  have hrel : forall (i j : Nat) (x y : α), i < j -> xs[i]? = some x ->
      xs[j]? = some y ->
      (cmp x = .lt -> cmp y = .lt) ∧ (cmp y = .gt -> cmp x = .gt) := by
    intro i j x y hij hx hy
    rcases List.getElem?_eq_some_iff.mp hx with ⟨hi, hxi⟩
    rcases List.getElem?_eq_some_iff.mp hy with ⟨hj, hyj⟩
    rw [← hxi, ← hyj]
    exact List.pairwise_iff_getElem.mp hpair i j hi hj hij
  constructor
  · intro i j x y hij hx hy hcmp
    rcases Nat.lt_or_eq_of_le hij with hlt | heq
    · exact (hrel i j x y hlt hx hy).left hcmp
    · subst heq
      rw [hx] at hy
      rwa [← Option.some.inj hy]
  intro i j x y hij hx hy hcmp
  rcases Nat.lt_or_eq_of_le hij with hlt | heq
  · exact (hrel i j x y hlt hx hy).right hcmp
  · subst heq
    rw [hx] at hy
    rwa [Option.some.inj hy]

theorem searchBetween_eq {k : Nat} {lo hi : Int} {x : α}
    (h : searchBetween cmp xs k lo hi = some x) :
    x ∈ xs ∧ cmp x = .eq := by
  induction k generalizing lo hi with
  | zero => cases h
  | succ k ih =>
  unfold searchBetween at h
  by_cases hle : lo ≤ hi
  · simp only [hle, if_true] at h
    cases hget : xs[((lo + hi) / 2).toNat]? with
    | none => simp [hget] at h
    | some y =>
    simp only [hget] at h
    cases hcmp : cmp y with
    | eq =>
      simp only [hcmp, Option.some.injEq] at h
      subst h
      exact ⟨List.mem_of_getElem? hget, hcmp⟩
    | gt =>
      simp only [hcmp] at h
      exact ih h
    | lt =>
    simp only [hcmp] at h
    exact ih h
  · simp [hle] at h

theorem binarySearch_eq {x : α} (h : binarySearch cmp xs = some x) :
    x ∈ xs ∧ cmp x = .eq :=
  searchBetween_eq h

theorem searchBetween_isSome (hsplit : Splits cmp xs) {k : Nat} {lo hi : Int}
    {i : Nat} {x : α} (hlo : 0 ≤ lo) (hhi : hi < xs.length) (hi1 : lo ≤ i)
    (hi2 : (i : Int) ≤ hi) (hx : xs[i]? = some x) (heq : cmp x = .eq)
    (hk : hi - lo < k) :
    (searchBetween cmp xs k lo hi).isSome := by
  induction k generalizing lo hi with
  | zero => omega
  | succ k ih =>
  unfold searchBetween
  have hle : lo ≤ hi := by omega
  have hmid1 : lo ≤ (lo + hi) / 2 := by omega
  have hmid2 : (lo + hi) / 2 ≤ hi := by omega
  have hlt : ((lo + hi) / 2).toNat < xs.length := by omega
  simp only [hle, if_true, List.getElem?_eq_getElem hlt]
  have hget : xs[((lo + hi) / 2).toNat]? =
      some xs[((lo + hi) / 2).toNat] := List.getElem?_eq_getElem hlt
  cases hcmp : cmp xs[((lo + hi) / 2).toNat] with
  | eq => rfl
  | gt =>
    -- the element found lies before the target, so go right
    have hright : ((lo + hi) / 2).toNat < i := by
      by_contra hge
      have hgt := hsplit.before i _ x _ (Nat.le_of_not_lt hge) hx hget hcmp
      rw [heq] at hgt
      cases hgt
    exact ih (by omega) hhi (by omega) hi2 (by omega)
  | lt =>
  have hleft : i < ((lo + hi) / 2).toNat := by
    by_contra hge
    have hltx := hsplit.after _ i _ x (Nat.le_of_not_lt hge) hget hx hcmp
    rw [heq] at hltx
    cases hltx
  exact ih hlo (by omega) hi1 (by omega) (by omega)

theorem exists_binarySearch (hsplit : Splits cmp xs) {x : α} (hx : x ∈ xs)
    (heq : cmp x = .eq) :
    exists y, binarySearch cmp xs = some y ∧ y ∈ xs ∧ cmp y = .eq := by
  rcases List.mem_iff_getElem?.mp hx with ⟨i, hi⟩
  have hlt : i < xs.length := (List.getElem?_eq_some_iff.mp hi).1
  have hsome : (binarySearch cmp xs).isSome :=
    searchBetween_isSome hsplit (Int.le_refl 0) (by omega) (by omega)
      (by omega) hi heq (by omega)
  rcases Option.isSome_iff_exists.mp hsome with ⟨y, hy⟩
  exact ⟨y, hy, binarySearch_eq hy⟩

theorem binarySearch_none (hnone : forall x, x ∈ xs -> cmp x ≠ .eq) :
    binarySearch cmp xs = none := by
  cases h : binarySearch cmp xs with
  | none => rfl
  | some x =>
  rcases binarySearch_eq h with ⟨hx, heq⟩
  exact absurd heq (hnone x hx)

theorem searchBetween_map {β : Type} (f : α -> β) (cmp : β -> Ordering)
    (xs : List α) (k : Nat) (lo hi : Int) :
    (searchBetween (fun x => cmp (f x)) xs k lo hi).map f =
      searchBetween cmp (xs.map f) k lo hi := by
  induction k generalizing lo hi with
  | zero => rfl
  | succ k ih =>
  unfold searchBetween
  by_cases hle : lo ≤ hi
  · simp only [hle, if_true, List.getElem?_map]
    cases xs[((lo + hi) / 2).toNat]? with
    | none => rfl
    | some x =>
    simp only [Option.map_some]
    cases cmp (f x) with
    | eq => rfl
    | gt => exact ih _ _
    | lt => exact ih _ _
  · simp only [hle, if_false, Option.map_none]

theorem binarySearch_map {β : Type} (f : α -> β) (cmp : β -> Ordering)
    (xs : List α) :
    (binarySearch (fun x => cmp (f x)) xs).map f =
      binarySearch cmp (xs.map f) := by
  unfold binarySearch
  rw [searchBetween_map, List.length_map]

end Foundation
end ChimeraMQ
