import Mathlib.Data.List.Nodup
import Mathlib.Logic.Function.Basic

/-!
# Allotments

Things are dealt out to holders.  Who holds a thing is known twice: a map says
who its owner is, and every holder has a list of the things it holds.
-/

namespace ChimeraMQ
namespace Foundation

structure Allotment (κ μ : Type) where
  owner : κ -> Option μ
  held : μ -> List κ

namespace Allotment

variable {κ μ : Type}

/-- The lists say the same as the map, and nothing is listed twice. -/
structure Sound (a : Allotment κ μ) : Prop where
  nodup : forall holder, (a.held holder).Nodup
  listed : forall holder x, x ∈ a.held holder <-> a.owner x = some holder

def empty : Allotment κ μ where
  owner := fun _ => none
  held := fun _ => []

theorem sound_empty : (empty : Allotment κ μ).Sound where
  nodup := fun _ => List.nodup_nil
  listed := by
    intro holder x
    constructor
    · intro h
      cases h
    · intro h
      cases h

variable [DecidableEq κ] [DecidableEq μ]

def give (a : Allotment κ μ) (x : κ) (holder : μ) : Allotment κ μ where
  owner := Function.update a.owner x (some holder)
  held := Function.update a.held holder (a.held holder ++ [x])

/-- Hand the last thing of one holder to another one. -/
def pass (a : Allotment κ μ) (x : κ) (giver taker : μ) : Allotment κ μ where
  owner := Function.update a.owner x (some taker)
  held := Function.update
    (Function.update a.held giver (a.held giver).dropLast) taker
      (a.held taker ++ [x])

theorem Sound.give {a : Allotment κ μ} (h : a.Sound) {x : κ}
    (hnew : a.owner x = none) (holder : μ) : (a.give x holder).Sound := by
  have hunlisted : forall other, x ∉ a.held other := by
    intro other hx
    rw [h.listed, hnew] at hx
    cases hx
  constructor
  · intro other
    unfold Allotment.give
    by_cases hother : other = holder
    · rw [hother]
      simp only [Function.update_self]
      rw [List.nodup_append_comm]
      exact List.nodup_cons.mpr ⟨hunlisted holder, h.nodup holder⟩
    · simp only [Function.update_of_ne hother]
      exact h.nodup other
  intro other y
  unfold Allotment.give
  by_cases hy : y = x
  · rw [hy]
    simp only [Function.update_self, Option.some.injEq]
    by_cases hother : other = holder
    · rw [hother]
      simp
    · simp only [Function.update_of_ne hother]
      exact iff_of_false (hunlisted other) (fun heq => hother heq.symm)
  simp only [Function.update_of_ne hy]
  rw [← h.listed]
  by_cases hother : other = holder
  · rw [hother]
    simp [hy]
  · simp only [Function.update_of_ne hother]

theorem not_mem_dropLast {α : Type} {l : List α} (hnodup : l.Nodup) {x : α}
    (hlast : l.getLast? = some x) : x ∉ l.dropLast := by
  rw [← List.dropLast_append_getLast? x hlast, List.nodup_append_comm] at hnodup
  exact (List.nodup_cons.mp hnodup).left

theorem mem_dropLast_iff {α : Type} {l : List α} (hnodup : l.Nodup) {x : α}
    (hlast : l.getLast? = some x) (y : α) :
    y ∈ l.dropLast <-> y ∈ l ∧ y ≠ x := by
  constructor
  · intro hy
    refine ⟨(List.dropLast_sublist l).subset hy, ?_⟩
    intro heq
    rw [heq] at hy
    exact not_mem_dropLast hnodup hlast hy
  intro h
  have hy := h.left
  rw [← List.dropLast_append_getLast? x hlast] at hy
  rcases List.mem_append.mp hy with hfront | hsame
  · exact hfront
  · exact absurd (List.mem_singleton.mp hsame) h.right

theorem Sound.pass {a : Allotment κ μ} (h : a.Sound) {x : κ} {giver taker : μ}
    (hlast : (a.held giver).getLast? = some x) (hne : giver ≠ taker) :
    (a.pass x giver taker).Sound := by
  have howner : a.owner x = some giver :=
    (h.listed giver x).mp (List.mem_of_getLast? hlast)
  have hunlisted : forall other, other ≠ giver -> x ∉ a.held other := by
    intro other hother hx
    rw [h.listed, howner, Option.some.injEq] at hx
    exact hother hx.symm
  constructor
  · intro other
    unfold Allotment.pass
    by_cases htaker : other = taker
    · rw [htaker]
      simp only [Function.update_self]
      rw [List.nodup_append_comm]
      exact List.nodup_cons.mpr ⟨hunlisted taker hne.symm, h.nodup taker⟩
    simp only [Function.update_of_ne htaker]
    by_cases hgiver : other = giver
    · rw [hgiver]
      simp only [Function.update_self]
      exact (h.nodup giver).sublist (List.dropLast_sublist _)
    · simp only [Function.update_of_ne hgiver]
      exact h.nodup other
  intro other y
  unfold Allotment.pass
  by_cases htaker : other = taker
  · rw [htaker]
    simp only [Function.update_self, List.mem_append, List.mem_singleton]
    by_cases hy : y = x
    · rw [hy]
      simp
    · simp only [Function.update_of_ne hy, hy, or_false]
      exact h.listed taker y
  simp only [Function.update_of_ne htaker]
  by_cases hgiver : other = giver
  · rw [hgiver]
    simp only [Function.update_self]
    rw [mem_dropLast_iff (h.nodup giver) hlast]
    by_cases hy : y = x
    · rw [hy]
      simp [hne.symm]
    · simp only [Function.update_of_ne hy, ne_eq, hy, not_false_iff,
        and_true]
      exact h.listed giver y
  simp only [Function.update_of_ne hgiver]
  by_cases hy : y = x
  · rw [hy]
    simp only [Function.update_self, Option.some.injEq]
    exact iff_of_false (hunlisted other hgiver)
      (fun heq => htaker heq.symm)
  · simp only [Function.update_of_ne hy]
    exact h.listed other y

end Allotment

end Foundation
end ChimeraMQ
