import Mathlib.Algebra.Order.BigOperators.Group.List
import Mathlib.Algebra.Order.Ring.Nat
import Mathlib.Data.List.MinMax
import Mathlib.Logic.Function.Basic

/-!
# Leveling

Holders have numbers of things.  How much they have above a level and how much
they lack up to it says how far they are from having equally much, and things
that are given to who has the fewest fill up the levels from below.
-/

namespace ChimeraMQ
namespace Foundation

variable {α : Type}

def excess (level : Nat) (f : α -> Nat) (l : List α) : Nat :=
  (l.map (fun x => f x - level)).sum

def lacking (level : Nat) (f : α -> Nat) (l : List α) : Nat :=
  (l.map (fun x => level - f x)).sum

/-- No two holders have numbers that differ by more than one. -/
def Leveled (f : α -> Nat) (l : List α) : Prop :=
  forall x y, x ∈ l -> y ∈ l -> f x ≤ f y + 1

variable {f : α -> Nat} {l : List α}

theorem sum_map_eq_zero_iff :
    (l.map f).sum = 0 <-> forall x, x ∈ l -> f x = 0 := by
  rw [List.sum_eq_zero_iff]
  exact List.forall_mem_map

variable {level : Nat}

theorem excess_congr {f' : α -> Nat} (h : forall x, x ∈ l -> f x = f' x) :
    excess level f l = excess level f' l :=
  congrArg List.sum (List.map_congr_left (fun x hx => by rw [h x hx]))

theorem lacking_congr {f' : α -> Nat} (h : forall x, x ∈ l -> f x = f' x) :
    lacking level f l = lacking level f' l :=
  congrArg List.sum (List.map_congr_left (fun x hx => by rw [h x hx]))

theorem excess_eq_zero_iff :
    excess level f l = 0 <-> forall x, x ∈ l -> f x ≤ level := by
  unfold excess
  rw [sum_map_eq_zero_iff]
  simp only [Nat.sub_eq_zero_iff_le]

theorem lacking_eq_zero_iff :
    lacking level f l = 0 <-> forall x, x ∈ l -> level ≤ f x := by
  unfold lacking
  rw [sum_map_eq_zero_iff]
  simp only [Nat.sub_eq_zero_iff_le]

theorem exists_le_of_sum_lt (h : (l.map f).sum < (level + 1) * l.length) :
    exists x, x ∈ l ∧ f x ≤ level := by
  by_contra hnone
  push Not at hnone
  have hle : (l.map (fun _ => level + 1)).sum ≤ (l.map f).sum :=
    List.sum_le_sum hnone
  rw [List.map_const', List.sum_replicate_nat, Nat.mul_comm] at hle
  omega

theorem exists_ge_of_le_sum (hsome : l ≠ [])
    (h : level * l.length ≤ (l.map f).sum) :
    exists x, x ∈ l ∧ level ≤ f x := by
  by_contra hnone
  push Not at hnone
  have hlt : (l.map f).sum < (l.map (fun _ => level)).sum :=
    List.sum_lt_sum_of_ne_nil hsome f (fun _ => level) hnone
  rw [List.map_const', List.sum_replicate_nat, Nat.mul_comm] at hlt
  omega

/--
The numbers are level exactly if nobody has more than one above what everybody
would have, and nobody has less.
-/
theorem leveled_iff {n : Nat} (hsum : (l.map f).sum = n) (hsome : l ≠ []) :
    Leveled f l <->
      excess (n / l.length + 1) f l = 0 ∧ lacking (n / l.length) f l = 0 := by
  have hpos : 0 < l.length := List.length_pos_of_ne_nil hsome
  rw [excess_eq_zero_iff, lacking_eq_zero_iff]
  constructor
  · intro h
    have hlow : exists x, x ∈ l ∧ f x ≤ n / l.length := by
      apply exists_le_of_sum_lt
      rw [hsum, Nat.mul_comm]
      exact Nat.lt_mul_div_succ n hpos
    have hhigh : exists x, x ∈ l ∧ n / l.length ≤ f x := by
      apply exists_ge_of_le_sum hsome
      rw [hsum]
      exact Nat.div_mul_le_self n l.length
    rcases hlow with ⟨low, hlow, hle⟩
    constructor
    · intro x hx
      have hone := h x low hx hlow
      omega
    by_contra hless
    push Not at hless
    rcases hless with ⟨x, hx, hless⟩
    -- whoever has less than the share leaves nobody above it
    have hall : forall y, y ∈ l -> f y ≤ n / l.length := by
      intro y hy
      have hone := h y x hy hx
      omega
    have hlt : (l.map f).sum < (l.map (fun _ => n / l.length)).sum :=
      List.sum_lt_sum f (fun _ => n / l.length) hall ⟨x, hx, hless⟩
    rw [List.map_const', List.sum_replicate_nat, hsum] at hlt
    have hdiv := Nat.div_mul_le_self n l.length
    rw [Nat.mul_comm] at hdiv
    omega
  · intro h x y hx hy
    have hmany := h.left x hx
    have hfew := h.right y hy
    omega

theorem exists_fewest (hsome : l ≠ []) (f : α -> Nat) :
    exists x, l.argmin f = some x ∧ x ∈ l ∧ forall y, y ∈ l -> f x ≤ f y := by
  have hfound : exists x, l.argmin f = some x := by
    cases h : l.argmin f with
    | none => exact absurd (List.argmin_eq_none.mp h) hsome
    | some x => exact ⟨x, rfl⟩
  rcases hfound with ⟨x, hx⟩
  exact ⟨x, hx, List.argmin_mem hx,
    fun y hy => List.le_of_mem_argmin hy hx⟩

variable {x : α}

theorem fewest_lt_of_lacking (h : 0 < lacking level f l)
    (hfewest : forall y, y ∈ l -> f x ≤ f y) : f x < level := by
  by_contra hfull
  have hzero : lacking level f l = 0 := by
    rw [lacking_eq_zero_iff]
    intro y hy
    have hle := hfewest y hy
    omega
  omega

/-!
## Giving and passing
-/

variable [DecidableEq α]

theorem sum_map_of_lower (hnodup : l.Nodup) (hx : x ∈ l) {f' : α -> Nat}
    (hlower : f' x + 1 = f x) (hsame : forall y, y ≠ x -> f' y = f y) :
    (l.map f').sum + 1 = (l.map f).sum := by
  have hperm := List.perm_cons_erase hx
  have hrest : (l.erase x).map f' = (l.erase x).map f := by
    apply List.map_congr_left
    intro y hy
    exact hsame y (fun heq => hnodup.not_mem_erase (heq ▸ hy))
  rw [(hperm.map f').sum_eq, (hperm.map f).sum_eq, List.map_cons,
    List.map_cons, List.sum_cons, List.sum_cons, hrest]
  omega

def give (f : α -> Nat) (x : α) : α -> Nat := Function.update f x (f x + 1)

@[simp] theorem give_self (f : α -> Nat) (x : α) : give f x x = f x + 1 :=
  Function.update_self ..

@[simp] theorem give_of_ne (f : α -> Nat) {x y : α} (h : y ≠ x) :
    give f x y = f y :=
  Function.update_of_ne h ..

theorem le_give (f : α -> Nat) (x y : α) : f y ≤ give f x y := by
  by_cases h : y = x
  · rw [h, give_self]
    exact Nat.le_succ _
  · rw [give_of_ne f h]

theorem sum_give (f : α -> Nat) (hnodup : l.Nodup) (hx : x ∈ l) :
    (l.map (give f x)).sum = (l.map f).sum + 1 :=
  (sum_map_of_lower hnodup hx (give_self f x).symm
    (fun _ h => (give_of_ne f h).symm)).symm

theorem excess_give (h : f x < level) (l : List α) :
    excess level (give f x) l = excess level f l := by
  unfold excess
  congr 1
  apply List.map_congr_left
  intro y _
  by_cases hy : y = x
  · rw [hy, give_self]
    omega
  · rw [give_of_ne f hy]

theorem lacking_give (hnodup : l.Nodup) (hx : x ∈ l)
    (hfewest : forall y, y ∈ l -> f x ≤ f y) (level : Nat) :
    lacking level (give f x) l = lacking level f l - 1 := by
  by_cases hless : f x < level
  · have hlower : lacking level (give f x) l + 1 = lacking level f l := by
      apply sum_map_of_lower hnodup hx
      · rw [give_self]
        omega
      · intro y hy
        rw [give_of_ne f hy]
    omega
  have hfull : lacking level f l = 0 := by
    rw [lacking_eq_zero_iff]
    intro y hy
    have hy := hfewest y hy
    omega
  have hstill : lacking level (give f x) l = 0 := by
    rw [lacking_eq_zero_iff] at hfull ⊢
    exact fun y hy => Nat.le_trans (hfull y hy) (le_give f x y)
  omega

def pass (f : α -> Nat) (x y : α) : α -> Nat :=
  give (Function.update f x (f x - 1)) y

variable {y : α}

theorem pass_taker (f : α -> Nat) (h : y ≠ x) :
    pass f x y y = f y + 1 := by
  unfold pass
  rw [give_self, Function.update_of_ne h]

theorem pass_giver (f : α -> Nat) (h : y ≠ x) :
    pass f x y x = f x - 1 := by
  unfold pass
  rw [give_of_ne _ h.symm, Function.update_self]

theorem pass_of_ne (f : α -> Nat) {z : α} (hx : z ≠ x) (hy : z ≠ y) :
    pass f x y z = f z := by
  unfold pass
  rw [give_of_ne _ hy, Function.update_of_ne hx]

theorem sum_pass (hnodup : l.Nodup) (hx : x ∈ l) (hy : y ∈ l) (hpos : 0 < f x) :
    (l.map (pass f x y)).sum = (l.map f).sum := by
  have htaken : (l.map (Function.update f x (f x - 1))).sum + 1 =
      (l.map f).sum := by
    apply sum_map_of_lower hnodup hx
    · rw [Function.update_self]
      omega
    · exact fun z hz => Function.update_of_ne hz ..
  unfold pass
  rw [sum_give _ hnodup hy, htaken]

theorem lacking_pass (hnodup : l.Nodup) (hy : y ∈ l) (hmany : level < f x)
    (hfew : f y < level) :
    lacking level (pass f x y) l + 1 = lacking level f l := by
  have hne : y ≠ x := by
    intro heq
    rw [heq] at hfew
    omega
  apply sum_map_of_lower hnodup hy
  · rw [pass_taker f hne]
    omega
  intro z hz
  by_cases hzx : z = x
  · rw [hzx, pass_giver f hne]
    omega
  · rw [pass_of_ne f hzx hz]

theorem excess_pass (hnodup : l.Nodup) (hx : x ∈ l) (hmany : level < f x)
    (hfew : f y < level) :
    excess level (pass f x y) l + 1 = excess level f l := by
  have hne : y ≠ x := by
    intro heq
    rw [heq] at hfew
    omega
  apply sum_map_of_lower hnodup hx
  · rw [pass_giver f hne]
    omega
  intro z hz
  by_cases hzy : z = y
  · rw [hzy, pass_taker f hne]
    omega
  · rw [pass_of_ne f hz hzy]

/-- The first of those who have the fewest is given one more, several times. -/
def giveFewest (l : List α) : Nat -> (α -> Nat) -> α -> Nat
  | 0, f => f
  | k + 1, f =>
    match l.argmin f with
    | none => f
    | some x => giveFewest l k (give f x)

theorem giveFewest_succ (h : l.argmin f = some x) (k : Nat) :
    giveFewest l (k + 1) f = giveFewest l k (give f x) := by
  show (match l.argmin f with
    | none => f
    | some x => giveFewest l k (give f x)) = _
  rw [h]

theorem lacking_giveFewest (hnodup : l.Nodup) (hsome : l ≠ []) (level k : Nat)
    (f : α -> Nat) :
    lacking level (giveFewest l k f) l = lacking level f l - k := by
  induction k generalizing f with
  | zero => rfl
  | succ k ih =>
  rcases exists_fewest hsome f with ⟨x, hx, hmem, hfewest⟩
  rw [giveFewest_succ hx, ih, lacking_give hnodup hmem hfewest]
  omega

theorem excess_giveFewest (hnodup : l.Nodup) (hsome : l ≠ []) {k : Nat}
    (hroom : (l.map f).sum + k < (level + 1) * l.length) :
    excess (level + 1) (giveFewest l k f) l = excess (level + 1) f l := by
  induction k generalizing f with
  | zero => rfl
  | succ k ih =>
  rcases exists_fewest hsome f with ⟨x, hx, hmem, hfewest⟩
  have hlow : exists y, y ∈ l ∧ f y ≤ level :=
    exists_le_of_sum_lt (by omega)
  rcases hlow with ⟨y, hy, hle⟩
  have hless : f x < level + 1 :=
    Nat.lt_succ_of_le (Nat.le_trans (hfewest y hy) hle)
  rw [giveFewest_succ hx, ih, excess_give hless]
  rw [sum_give f hnodup hmem]
  omega

theorem sum_giveFewest (hnodup : l.Nodup) (hsome : l ≠ []) (k : Nat)
    (f : α -> Nat) :
    (l.map (giveFewest l k f)).sum = (l.map f).sum + k := by
  induction k generalizing f with
  | zero => rfl
  | succ k ih =>
  rcases exists_fewest hsome f with ⟨x, hx, hmem, _⟩
  rw [giveFewest_succ hx, ih, sum_give f hnodup hmem]
  omega

theorem giveFewest_le_iff (hnodup : l.Nodup) (hsome : l ≠ []) {k : Nat}
    (hlacking : k ≤ lacking level f l) (y : α) {bound : Nat}
    (hbound : level ≤ bound) :
    giveFewest l k f y ≤ bound <-> f y ≤ bound := by
  induction k generalizing f with
  | zero => rfl
  | succ k ih =>
  rcases exists_fewest hsome f with ⟨x, hx, hmem, hfewest⟩
  have hless : f x < level := fewest_lt_of_lacking (by omega) hfewest
  rw [giveFewest_succ hx, ih]
  · by_cases hy : y = x
    · rw [hy, give_self]
      omega
    · rw [give_of_ne f hy]
  · rw [lacking_give hnodup hmem hfewest]
    omega

/--
The first holder gets to a level exactly if it was there or there is more than
enough for everybody to get to the level below.
-/
theorem le_giveFewest_first_iff (hnodup : (x :: l).Nodup) {k : Nat} :
    level ≤ giveFewest (x :: l) k f x <->
      level ≤ f x ∨ lacking (level - 1) f (x :: l) < k := by
  have hsome : x :: l ≠ [] := List.cons_ne_nil x l
  induction k generalizing f with
  | zero =>
    show level ≤ f x <-> _
    omega
  | succ k ih =>
  rcases exists_fewest hsome f with ⟨y, hy, hmem, hfewest⟩
  rw [giveFewest_succ hy]
  refine ih.trans ?_
  rw [lacking_give hnodup hmem hfewest]
  by_cases hzero : lacking (level - 1) f (x :: l) = 0
  · -- the next one is the first holder's if it is still below the level
    have hlow := lacking_eq_zero_iff.mp hzero x (List.mem_cons_self ..)
    have hlift : level ≤ give f y x := by
      by_cases hfull : level ≤ f x
      · exact Nat.le_trans hfull (le_give f y x)
      have hfirst : y = x := by
        rw [List.argmin_cons] at hy
        cases hrest : l.argmin f with
        | none =>
          rw [hrest] at hy
          exact (Option.some.inj hy).symm
        | some z =>
        have hz := lacking_eq_zero_iff.mp hzero z
          (List.mem_cons_of_mem x (List.argmin_mem hrest))
        have hkeep : ¬ f z < f x := by omega
        rw [hrest] at hy
        simp only [hkeep, if_false] at hy
        exact (Option.some.inj hy).symm
      rw [hfirst, give_self]
      omega
    constructor
    · intro _
      right
      omega
    · intro _
      exact Or.inl hlift
  · have hless : f y < level - 1 :=
      fewest_lt_of_lacking (Nat.pos_of_ne_zero hzero) hfewest
    have hsame : level ≤ give f y x <-> level ≤ f x := by
      by_cases hx : x = y
      · rw [hx, give_self]
        omega
      · rw [give_of_ne f hx]
    rw [hsame]
    omega

end Foundation
end ChimeraMQ
