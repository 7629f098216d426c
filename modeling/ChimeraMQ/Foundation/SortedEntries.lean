import Mathlib.Data.List.Lex
import Mathlib.Order.Compare
import Mathlib.Order.CountableDenseLinearOrder
import ChimeraMQ.Foundation.Bytes
import ChimeraMQ.Foundation.Entries

/-!
# Maps as sorted lists of entries

A map whose entries are sorted by key, and how a new entry is put in its place.
Byte strings are keys in their lexicographic order.
-/

namespace ChimeraMQ
namespace Foundation

instance linearOrderUInt8 : LinearOrder UInt8 where
  le_refl := UInt8.le_refl
  le_trans := fun _ _ _ => UInt8.le_trans
  le_antisymm := fun _ _ => UInt8.le_antisymm
  le_total := UInt8.le_total
  lt_iff_le_not_ge := fun a b => by
    rw [UInt8.lt_iff_toNat_lt, UInt8.le_iff_toNat_le, UInt8.le_iff_toNat_le]
    omega
  toDecidableLE := inferInstance
  toDecidableEq := inferInstance
  toDecidableLT := inferInstance

variable {κ α : Type} [LinearOrder κ]

/-- The entries are in the order of their keys, and no key stands twice. -/
def SortedEntries (entries : List (κ × α)) : Prop :=
  entries.Pairwise (fun a b => a.1 < b.1)

/-- Put an entry in its place, or in the place of the one with its key. -/
def insertSorted (k : κ) (v : α) : List (κ × α) -> List (κ × α)
  | [] => [(k, v)]
  | e :: rest =>
    match cmp k e.1 with
    | .lt => (k, v) :: e :: rest
    | .eq => (e.1, v) :: rest
    | .gt => e :: insertSorted k v rest

variable {k : κ}

theorem mem_keys_insertSorted {x : κ} {v : α} {entries : List (κ × α)}
    (h : x ∈ (insertSorted k v entries).map Prod.fst) :
    x = k ∨ x ∈ entries.map Prod.fst := by
  induction entries with
  | nil => simpa [insertSorted] using h
  | cons e rest ih =>
  unfold insertSorted at h
  cases hcmp : cmp k e.1 with
  | lt =>
    rw [hcmp] at h
    exact List.mem_cons.mp h
  | eq =>
    rw [hcmp] at h
    exact Or.inr h
  | gt =>
  rw [hcmp] at h
  simp only [List.map_cons, List.mem_cons] at h
  rcases h with hhead | hrest
  · exact Or.inr (List.mem_cons.mpr (Or.inl hhead))
  · rcases ih hrest with hkey | hold
    · exact Or.inl hkey
    · exact Or.inr (List.mem_cons_of_mem _ hold)

theorem SortedEntries.insertSorted {entries : List (κ × α)}
    (hsorted : SortedEntries entries) (k : κ) (v : α) :
    SortedEntries (insertSorted k v entries) := by
  induction entries with
  | nil => exact List.pairwise_singleton _ _
  | cons e rest ih =>
  rcases List.pairwise_cons.mp hsorted with ⟨hhead, hrest⟩
  unfold Foundation.insertSorted
  cases hcmp : cmp k e.1 with
  | lt =>
    have hlt : k < e.1 := cmp_eq_lt_iff _ _ |>.mp hcmp
    apply List.pairwise_cons.mpr
    refine ⟨?_, hsorted⟩
    intro x hx
    rcases List.mem_cons.mp hx with hxe | hxrest
    · rw [hxe]
      exact hlt
    · exact hlt.trans (hhead x hxrest)
  | eq =>
    apply List.pairwise_cons.mpr
    exact ⟨hhead, hrest⟩
  | gt =>
  have hgt : e.1 < k := cmp_eq_gt_iff _ _ |>.mp hcmp
  apply List.pairwise_cons.mpr
  refine ⟨?_, ih hrest⟩
  intro x hx
  rcases mem_keys_insertSorted (List.mem_map_of_mem hx) with hxk | hold
  · rw [hxk]
    exact hgt
  · rcases List.mem_map.mp hold with ⟨y, hy, hyx⟩
    rw [← hyx]
    exact hhead y hy

theorem getEntry_insertSorted {entries : List (κ × α)}
    (hsorted : SortedEntries entries) (k j : κ) (v : α) :
    getEntry j (insertSorted k v entries) =
      if j = k then some v else getEntry j entries := by
  induction entries with
  | nil =>
    by_cases hj : j = k
    · rw [if_pos hj, hj]
      exact getEntry_cons_self k v []
    · rw [if_neg hj]
      exact getEntry_cons_ne (fun h => hj h.symm) []
  | cons e rest ih =>
  rcases List.pairwise_cons.mp hsorted with ⟨hhead, hrest⟩
  unfold insertSorted
  cases hcmp : cmp k e.1 with
  | lt =>
    by_cases hj : j = k
    · rw [if_pos hj, hj]
      exact getEntry_cons_self k v _
    · rw [if_neg hj]
      exact getEntry_cons_ne (fun h => hj h.symm) _
  | eq =>
    have hek : k = e.1 := cmp_eq_eq_iff _ _ |>.mp hcmp
    by_cases hj : j = k
    · rw [if_pos hj, hj, hek]
      exact getEntry_cons_self e.1 v rest
    have hje : e.1 ≠ j := by
      rw [← hek]
      exact fun h => hj h.symm
    rw [if_neg hj, getEntry_cons_ne hje]
    have hsame : (e.1, v).1 ≠ j := hje
    exact getEntry_cons_ne hsame rest
  | gt =>
  have hgt : e.1 < k := cmp_eq_gt_iff _ _ |>.mp hcmp
  by_cases hje : e.1 = j
  · have hj : j ≠ k := by
      rw [← hje]
      exact ne_of_lt hgt
    rw [if_neg hj, ← hje]
    exact (getEntry_cons_self e.1 e.2 _).trans
      (getEntry_cons_self e.1 e.2 rest).symm
  · rw [getEntry_cons_ne hje, getEntry_cons_ne hje]
    exact ih hrest

theorem insertSorted_append_of_lt {x : κ × α} (hlt : k < x.1) (v : α)
    (front back : List (κ × α)) :
    insertSorted k v (front ++ x :: back) =
      insertSorted k v front ++ x :: back := by
  induction front with
  | nil =>
    have hcmp : cmp k x.1 = .lt := cmp_eq_lt_iff _ _ |>.mpr hlt
    rw [List.nil_append, insertSorted, insertSorted, hcmp]
    rfl
  | cons e front ih =>
  rw [List.cons_append, insertSorted, insertSorted]
  cases cmp k e.1 with
  | lt => rfl
  | eq => rfl
  | gt =>
  simp only
  rw [ih]
  rfl

theorem insertSorted_append_of_gt {front : List (κ × α)}
    (hgt : forall e, e ∈ front -> e.1 < k) (v : α) (back : List (κ × α)) :
    insertSorted k v (front ++ back) = front ++ insertSorted k v back := by
  induction front with
  | nil => rfl
  | cons e front ih =>
  have hcmp : cmp k e.1 = .gt :=
    cmp_eq_gt_iff _ _ |>.mpr (hgt e (List.mem_cons_self ..))
  rw [List.cons_append, insertSorted, hcmp]
  simp only
  rw [ih (fun x hx => hgt x (List.mem_cons_of_mem e hx))]
  rfl

theorem getEntry_append_of_lt {x : κ × α} {front back : List (κ × α)}
    (hsorted : SortedEntries (front ++ x :: back)) (hlt : k < x.1) :
    getEntry k (front ++ x :: back) = getEntry k front := by
  rcases List.pairwise_append.mp hsorted with ⟨_, hback, _⟩
  rcases List.pairwise_cons.mp hback with ⟨hx, _⟩
  unfold getEntry
  rw [List.find?_append]
  have hnone : (x :: back).find? (fun e => e.1 = k) = none := by
    rw [List.find?_eq_none]
    intro e he
    rcases List.mem_cons.mp he with hex | hrest
    · rw [hex]
      simpa using (ne_of_lt hlt).symm
    · simpa using (ne_of_lt (hlt.trans (hx e hrest))).symm
  rw [hnone, Option.or_none]

theorem getEntry_append_of_gt {front back : List (κ × α)}
    (hgt : forall e, e ∈ front -> e.1 < k) :
    getEntry k (front ++ back) = getEntry k back := by
  unfold getEntry
  rw [List.find?_append]
  have hnone : front.find? (fun e => e.1 = k) = none := by
    rw [List.find?_eq_none]
    intro e he
    simpa using ne_of_lt (hgt e he)
  rw [hnone, Option.none_or]

end Foundation
end ChimeraMQ
