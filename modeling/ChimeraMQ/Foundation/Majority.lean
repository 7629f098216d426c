import Mathlib.Data.Finset.Card

/-!
# Majorities of a finite set of members

Two majorities of the same members always share a member.
-/

namespace ChimeraMQ
namespace Foundation

variable {Node : Type}

structure Majority (members Q : Finset Node) : Prop where
  subset : Q ⊆ members
  card : members.card < 2 * Q.card

theorem Majority.exists_mem_inter [DecidableEq Node] {members Q R : Finset Node}
    (hQ : Majority members Q) (hR : Majority members R) :
    exists a, a ∈ Q ∧ a ∈ R := by
  by_contra hnone
  have hdisjoint : Disjoint Q R := by
    rw [Finset.disjoint_left]
    intro a haQ haR
    exact hnone ⟨a, haQ, haR⟩
  have hunion : (Q ∪ R).card = Q.card + R.card :=
    Finset.card_union_of_disjoint hdisjoint
  have hle : (Q ∪ R).card ≤ members.card :=
    Finset.card_le_card (Finset.union_subset hQ.subset hR.subset)
  have hcardQ := hQ.card
  have hcardR := hR.card
  omega

end Foundation
end ChimeraMQ
