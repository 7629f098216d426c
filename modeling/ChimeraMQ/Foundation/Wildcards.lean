import Mathlib.Data.List.Forall2
import Mathlib.Data.List.Infix

/-!
# Patterns with wildcards

Patterns whose items stand for themselves, except for one that stands for any
single item and one that stands for any number of them.
-/

namespace ChimeraMQ
namespace Foundation

variable {α : Type} {one many : α}

def StandsFor (one many w : α) (ws : List α) : Prop :=
  w = many ∨ w = one ∧ (exists v, ws = [v]) ∨
    w ≠ many ∧ w ≠ one ∧ ws = [w]

def Expands (one many : α) (pattern items : List α) : Prop :=
  exists parts, List.Forall₂ (StandsFor one many) pattern parts ∧
    parts.flatten = items

theorem standsFor_one (hne : one ≠ many) {ws : List α} :
    StandsFor one many one ws <-> exists v, ws = [v] := by
  simp [StandsFor, hne]

theorem standsFor_item {w : α} (hmany : w ≠ many) (hone : w ≠ one)
    {ws : List α} : StandsFor one many w ws <-> ws = [w] := by
  simp [StandsFor, hmany, hone]

theorem standsFor_self (w : α) : StandsFor one many w [w] := by
  by_cases hmany : w = many
  · exact Or.inl hmany
  · by_cases hone : w = one
    · exact Or.inr (Or.inl ⟨hone, w, rfl⟩)
    · exact (standsFor_item hmany hone).mpr rfl

variable {pattern items : List α} {w v : α}

theorem expands_nil : Expands one many [] items <-> items = [] := by
  constructor
  · intro h
    rcases h with ⟨parts, hparts, hitems⟩
    cases hparts
    exact hitems.symm
  · intro h
    exact ⟨[], List.Forall₂.nil, h.symm⟩

theorem expands_cons :
    Expands one many (w :: pattern) items <->
      exists ws rest, StandsFor one many w ws ∧
        Expands one many pattern rest ∧ ws ++ rest = items := by
  constructor
  · intro h
    rcases h with ⟨parts, hparts, hitems⟩
    cases hparts with
    | cons hw hparts => exact ⟨_, _, hw, ⟨_, hparts, rfl⟩, hitems⟩
  intro h
  rcases h with ⟨ws, rest, hw, ⟨parts, hparts, hrest⟩, hitems⟩
  exact ⟨ws :: parts, List.Forall₂.cons hw hparts, by
    rw [List.flatten_cons, hrest, hitems]⟩

theorem expands_refl (pattern : List α) :
    Expands one many pattern pattern := by
  induction pattern with
  | nil => exact expands_nil.mpr rfl
  | cons w pattern ih =>
    exact expands_cons.mpr ⟨[w], pattern, standsFor_self w, ih, rfl⟩

theorem expands_many :
    Expands one many (many :: pattern) items <->
      exists rest, rest <:+ items ∧ Expands one many pattern rest := by
  rw [expands_cons]
  constructor
  · intro h
    rcases h with ⟨ws, rest, _, hrest, hitems⟩
    exact ⟨rest, ⟨ws, hitems⟩, hrest⟩
  · intro h
    rcases h with ⟨rest, ⟨ws, hitems⟩, hrest⟩
    exact ⟨ws, rest, Or.inl rfl, hrest, hitems⟩

theorem expands_one (hne : one ≠ many) :
    Expands one many (one :: pattern) (v :: items) <->
      Expands one many pattern items := by
  rw [expands_cons]
  constructor
  · intro h
    rcases h with ⟨ws, rest, hw, hrest, hitems⟩
    rcases (standsFor_one hne).mp hw with ⟨u, hu⟩
    subst hu
    rcases List.cons.inj hitems with ⟨_, heq⟩
    exact heq ▸ hrest
  · intro h
    exact ⟨[v], items, (standsFor_one hne).mpr ⟨v, rfl⟩, h, rfl⟩

theorem expands_item (hmany : w ≠ many) (hone : w ≠ one) :
    Expands one many (w :: pattern) (v :: items) <->
      w = v ∧ Expands one many pattern items := by
  rw [expands_cons]
  constructor
  · intro h
    rcases h with ⟨ws, rest, hw, hrest, hitems⟩
    rw [(standsFor_item hmany hone).mp hw] at hitems
    rcases List.cons.inj hitems with ⟨hv, heq⟩
    exact ⟨hv, heq ▸ hrest⟩
  · intro h
    exact ⟨[w], items, (standsFor_item hmany hone).mpr rfl, h.right,
      h.left ▸ rfl⟩

theorem expands_nil_right (hne : one ≠ many) :
    Expands one many pattern [] <-> forall w, w ∈ pattern -> w = many := by
  induction pattern with
  | nil => simp [expands_nil]
  | cons w pattern ih =>
  rw [List.forall_mem_cons]
  by_cases hmany : w = many
  · subst hmany
    simp [expands_many, ih]
  constructor
  · intro h
    rcases expands_cons.mp h with ⟨ws, rest, hw, _, hitems⟩
    rw [(List.append_eq_nil_iff.mp hitems).left] at hw
    simp [StandsFor, hmany] at hw
  · intro h
    exact absurd h.left hmany

end Foundation
end ChimeraMQ
