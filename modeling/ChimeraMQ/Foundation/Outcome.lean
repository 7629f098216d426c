import Mathlib.Data.List.Basic

/-!
# Outcomes of calls that may panic

A call returns a result or an error, or it panics because an index or a length
is out of range.
-/

namespace ChimeraMQ
namespace Foundation

inductive Outcome (ε α : Type) where
  | ok (a : α)
  | error (err : ε)
  | panic
deriving DecidableEq

namespace Outcome

variable {ε α β : Type}

protected def bind : Outcome ε α -> (α -> Outcome ε β) -> Outcome ε β
  | .ok a, f => f a
  | .error err, _ => .error err
  | .panic, _ => .panic

instance : Monad (Outcome ε) where
  pure := .ok
  bind := Outcome.bind

def ofExcept : Except ε α -> Outcome ε α
  | .ok a => .ok a
  | .error err => .error err

/-- The call comes back, with a result or with an error. -/
def Returns (x : Outcome ε α) : Prop :=
  match x with
  | .ok _ | .error _ => True
  | .panic => False

/-!
## Slices

Indices and lengths are signed, as the language has them.
-/

def index (xs : List α) (i : Int) : Outcome ε α :=
  if i < 0 then .panic
  else
    match xs[i.toNat]? with
    | some x => .ok x
    | none => .panic

def sliceFrom (xs : List α) (i : Int) : Outcome ε (List α) :=
  if 0 ≤ i ∧ i ≤ xs.length then .ok (xs.drop i.toNat) else .panic

def makeSlice (limit : Nat) (n : Int) : Outcome ε Unit :=
  if 0 ≤ n ∧ n ≤ limit then .ok () else .panic

/-!
## Rules
-/

@[simp] theorem returns_ok (a : α) : (.ok a : Outcome ε α).Returns :=
  trivial

@[simp] theorem returns_error (err : ε) : (.error err : Outcome ε α).Returns :=
  trivial

@[simp] theorem not_returns_panic : ¬ (.panic : Outcome ε α).Returns :=
  not_false

theorem returns_pure (a : α) : (pure a : Outcome ε α).Returns :=
  trivial

@[simp] theorem pure_eq (a : α) : (pure a : Outcome ε α) = .ok a :=
  rfl

@[simp] theorem returns_ofExcept (x : Except ε α) : (ofExcept x).Returns := by
  cases x with
  | ok a => trivial
  | error err => trivial

@[simp] theorem ok_bind (a : α) (f : α -> Outcome ε β) :
    ((.ok a : Outcome ε α) >>= f) = f a :=
  rfl

@[simp] theorem error_bind (err : ε) (f : α -> Outcome ε β) :
    ((.error err : Outcome ε α) >>= f) = .error err :=
  rfl

@[simp] theorem panic_bind (f : α -> Outcome ε β) :
    ((.panic : Outcome ε α) >>= f) = .panic :=
  rfl

theorem returns_bind_iff {x : Outcome ε α} {f : α -> Outcome ε β} :
    (x >>= f).Returns <-> x.Returns ∧ forall a, x = .ok a -> (f a).Returns := by
  cases x with
  | ok a => simp
  | error err => simp [error_bind]
  | panic => simp [panic_bind]

theorem returns_ofExcept_bind_iff {x : Except ε α} {f : α -> Outcome ε β} :
    (ofExcept x >>= f).Returns <-> forall a, x = .ok a -> (f a).Returns := by
  cases x with
  | ok a => simp [ofExcept]
  | error err => simp [ofExcept, error_bind]

theorem index_natCast {xs : List α} {i : Nat} (h : i < xs.length) :
    (index xs i : Outcome ε α) = .ok xs[i] := by
  unfold index
  rw [if_neg (by omega), Int.toNat_natCast, List.getElem?_eq_getElem h]

theorem returns_index_iff {xs : List α} {i : Int} :
    (index xs i : Outcome ε α).Returns <-> 0 ≤ i ∧ i < xs.length := by
  unfold index
  by_cases hneg : i < 0
  · rw [if_pos hneg]
    simp
    omega
  rw [if_neg hneg]
  by_cases hin : i.toNat < xs.length
  · rw [List.getElem?_eq_getElem hin]
    simp
    omega
  · rw [List.getElem?_eq_none (by omega)]
    simp
    omega

@[simp] theorem returns_makeSlice_iff {limit : Nat} {n : Int} :
    (makeSlice limit n : Outcome ε Unit).Returns <-> 0 ≤ n ∧ n ≤ limit := by
  unfold makeSlice
  split
  · rename_i hin
    exact ⟨fun _ => hin, fun _ => trivial⟩
  · rename_i hout
    exact ⟨False.elim, hout⟩

end Outcome

end Foundation
end ChimeraMQ
