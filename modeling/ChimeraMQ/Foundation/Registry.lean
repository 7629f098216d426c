import Mathlib.Data.List.Basic
import Mathlib.Logic.Function.Basic

/-!
# Registries

Parties take names, and a registry says for each name who has it.  A party that
takes a name which is taken becomes the one that has it, and may give it up
again; others that still have the name have been accepted before it.
-/

namespace ChimeraMQ
namespace Foundation

/--
The name that each party has, the parties in the order in which they have been
accepted, the latest first, and the entries.
-/
@[ext] structure Registry (ι κ : Type) where
  held : ι -> Option κ
  accepted : List ι
  entry : κ -> Option ι

namespace Registry

variable {ι κ : Type} [DecidableEq ι] [DecidableEq κ]

def latest (r : Registry ι κ) (k : κ) : Option ι :=
  r.accepted.find? (fun c => r.held c = some k)

def Faithful (r : Registry ι κ) : Prop :=
  forall c k, r.held c = some k ->
    exists d, r.latest k = some d ∧ r.entry k = some d

def leave (r : Registry ι κ) (c : ι) : Registry ι κ :=
  { r with held := Function.update r.held c none }

def erase (r : Registry ι κ) (k : κ) : Registry ι κ :=
  { r with entry := Function.update r.entry k none }

/-- A party is accepted under a name, unless it has gone already. -/
def accept (r : Registry ι κ) (c : ι) (k : κ) (present : Bool) :
    Registry ι κ where
  held := if present then Function.update r.held c (some k) else r.held
  accepted := c :: r.accepted
  entry := Function.update r.entry k (some c)

/-!
## What an operation changes
-/

omit [DecidableEq κ] in
@[simp] theorem held_leave_self (r : Registry ι κ) (c : ι) :
    (r.leave c).held c = none :=
  Function.update_self ..

omit [DecidableEq κ] in
theorem held_leave_of_ne (r : Registry ι κ) {c d : ι} (hd : d ≠ c) :
    (r.leave c).held d = r.held d :=
  Function.update_of_ne hd ..

omit [DecidableEq ι] in
@[simp] theorem entry_erase_self (r : Registry ι κ) (k : κ) :
    (r.erase k).entry k = none :=
  Function.update_self ..

omit [DecidableEq ι] in
theorem entry_erase_of_ne (r : Registry ι κ) {k j : κ} (hj : j ≠ k) :
    (r.erase k).entry j = r.entry j :=
  Function.update_of_ne hj ..

@[simp] theorem entry_accept_self (r : Registry ι κ) (c : ι) (k : κ)
    (present : Bool) : (r.accept c k present).entry k = some c :=
  Function.update_self ..

theorem entry_accept_of_ne (r : Registry ι κ) (c : ι) {k j : κ}
    (hj : j ≠ k) (present : Bool) :
    (r.accept c k present).entry j = r.entry j :=
  Function.update_of_ne hj ..

@[simp] theorem held_accept_self (r : Registry ι κ) (c : ι) (k : κ) :
    (r.accept c k true).held c = some k :=
  Function.update_self ..

theorem held_accept_of_ne (r : Registry ι κ) {c d : ι} (hd : d ≠ c) (k : κ)
    (present : Bool) : (r.accept c k present).held d = r.held d := by
  cases present with
  | false => rfl
  | true => exact Function.update_of_ne hd ..

omit [DecidableEq ι] in
theorem held_of_latest {r : Registry ι κ} {k : κ} {c : ι}
    (h : r.latest k = some c) : r.held c = some k := by
  have hfound := List.find?_some h
  exact of_decide_eq_true hfound

omit [DecidableEq ι] in
theorem latest_of_latest {r r' : Registry ι κ} {k : κ} {c : ι} {new : List ι}
    (h : r.latest k = some c) (haccepted : r'.accepted = new ++ r.accepted)
    (hnew : forall d, d ∈ new -> r'.held d ≠ some k)
    (hkeeps : r'.held c = some k)
    (htakes : forall d, r'.held d = some k -> r.held d = some k) :
    r'.latest k = some c := by
  rcases List.find?_eq_some_iff_append.mp h with
    ⟨_, front, back, hsplit, hbefore⟩
  apply List.find?_eq_some_iff_append.mpr
  refine ⟨decide_eq_true hkeeps, new ++ front, back, ?_, ?_⟩
  · rw [haccepted, hsplit, List.append_assoc]
  intro d hd
  rw [Bool.not_eq_true', decide_eq_false_iff_not]
  rcases List.mem_append.mp hd with hfirst | hold
  · exact hnew d hfirst
  intro hdk
  have hnot := hbefore d hold
  rw [Bool.not_eq_true', decide_eq_false_iff_not] at hnot
  exact hnot (htakes d hdk)

theorem latest_accept (r : Registry ι κ) (c : ι) (k : κ) :
    (r.accept c k true).latest k = some c :=
  List.find?_cons_of_pos (decide_eq_true (held_accept_self r c k))

omit [DecidableEq κ] in
theorem held_of_held_leave {r : Registry ι κ} {c d : ι} {k : κ}
    (h : (r.leave c).held d = some k) : d ≠ c ∧ r.held d = some k := by
  have hd : d ≠ c := by
    intro hsame
    rw [hsame, held_leave_self] at h
    cases h
  rw [held_leave_of_ne r hd] at h
  exact ⟨hd, h⟩

theorem latest_leave {r : Registry ι κ} {c d : ι} {k : κ} (hd : d ≠ c)
    (h : r.latest k = some d) : (r.leave c).latest k = some d := by
  have hnew : forall x, x ∈ [] -> (r.leave c).held x ≠ some k := by
    intro x hx
    cases hx
  refine latest_of_latest h rfl hnew ?_ ?_
  · rw [held_leave_of_ne r hd]
    exact held_of_latest h
  · intro x hx
    exact (held_of_held_leave hx).right

/-!
## When the registry stays faithful
-/

theorem Faithful.leave_iff {r : Registry ι κ} (h : r.Faithful) (c : ι) :
    (r.leave c).Faithful <->
      forall k, r.held c = some k -> r.entry k = some c ->
        forall d, d ≠ c -> r.held d ≠ some k := by
  constructor
  · intro hleave k _ hentry d hd hdk
    rcases hleave d k (by rw [held_leave_of_ne r hd]; exact hdk) with
      ⟨e, hlatest, hregistered⟩
    have hsame : r.entry k = some e := hregistered
    rw [hentry] at hsame
    cases hsame
    have hheld := held_of_latest hlatest
    rw [held_leave_self] at hheld
    cases hheld
  intro hlast d k hdk
  rcases held_of_held_leave hdk with ⟨hd, hold⟩
  rcases h d k hold with ⟨e, hlatest, hregistered⟩
  have he : e ≠ c := by
    intro hsame
    rw [hsame] at hlatest hregistered
    exact hlast k (held_of_latest hlatest) hregistered d hd hold
  exact ⟨e, latest_leave he hlatest, hregistered⟩

omit [DecidableEq ι] in
theorem Faithful.erase_iff {r : Registry ι κ} (h : r.Faithful) (k : κ) :
    (r.erase k).Faithful <-> forall d, r.held d ≠ some k := by
  constructor
  · intro herase d hdk
    rcases herase d k hdk with ⟨e, _, hregistered⟩
    rw [entry_erase_self] at hregistered
    cases hregistered
  intro hnone d j hdj
  have hj : j ≠ k := by
    intro hsame
    exact hnone d (hsame ▸ hdj)
  rw [entry_erase_of_ne r hj]
  exact h d j hdj

theorem Faithful.giveUp_iff {r : Registry ι κ} (h : r.Faithful) {c : ι} {k : κ}
    (honly : forall j, r.held c = some j -> j = k) :
    ((r.leave c).erase k).Faithful <->
      forall d, d ≠ c -> r.held d ≠ some k := by
  constructor
  · intro hgiven d hd hdk
    have hstill : (r.leave c).held d = some k := by
      rw [held_leave_of_ne r hd]
      exact hdk
    rcases hgiven d k hstill with ⟨e, _, hregistered⟩
    rw [entry_erase_self] at hregistered
    cases hregistered
  intro hnone d j hdj
  rcases held_of_held_leave hdj with ⟨hd, hold⟩
  have hj : j ≠ k := by
    intro hsame
    exact hnone d hd (hsame ▸ hold)
  rcases h d j hold with ⟨e, hlatest, hregistered⟩
  have he : e ≠ c := by
    intro hsame
    exact hj (honly j (hsame ▸ held_of_latest hlatest))
  refine ⟨e, latest_leave he hlatest, ?_⟩
  rw [entry_erase_of_ne _ hj]
  exact hregistered

/--
A party without a name may be accepted, but one that has gone already only if
no other one has the name.
-/
theorem Faithful.accept_iff {r : Registry ι κ} (h : r.Faithful) {c : ι}
    (hfree : r.held c = none) (k : κ) (present : Bool) :
    (r.accept c k present).Faithful <->
      (present = false -> forall d, r.held d ≠ some k) := by
  have hnot : forall j, r.held c ≠ some j := by
    intro j
    rw [hfree]
    exact (Option.some_ne_none j).symm
  cases present with
  | false =>
    constructor
    · intro haccept _ d hdk
      rcases haccept d k hdk with ⟨e, hlatest, hregistered⟩
      rw [entry_accept_self] at hregistered
      cases hregistered
      have hheld : r.held c = some k :=
        held_of_latest (r := r.accept c k false) hlatest
      exact hnot k hheld
    intro hnone d j hdj
    have hj : j ≠ k := by
      intro hsame
      exact hnone rfl d (hsame ▸ hdj)
    rcases h d j hdj with ⟨e, hlatest, hregistered⟩
    have hheld := held_of_latest hlatest
    refine ⟨e, ?_, ?_⟩
    · refine @latest_of_latest _ _ _ r (r.accept c k false) j e [c]
        hlatest rfl ?_ hheld (fun x hx => hx)
      intro x hx
      rw [List.mem_singleton.mp hx]
      exact hnot j
    · rw [entry_accept_of_ne r c hj]
      exact hregistered
  | true =>
  constructor
  · intro _ hfalse
    cases hfalse
  intro _ d j hdj
  by_cases hj : j = k
  · rw [hj]
    exact ⟨c, latest_accept r c k, entry_accept_self r c k true⟩
  have hold : forall x, (r.accept c k true).held x = some j ->
      x ≠ c ∧ r.held x = some j := by
    intro x hx
    have hxc : x ≠ c := by
      intro hsame
      rw [hsame, held_accept_self] at hx
      exact hj (Option.some.inj hx).symm
    rw [held_accept_of_ne r hxc] at hx
    exact ⟨hxc, hx⟩
  rcases h d j (hold d hdj).right with ⟨e, hlatest, hregistered⟩
  have he : e ≠ c := by
    intro hsame
    exact hnot j (hsame ▸ held_of_latest hlatest)
  refine ⟨e, ?_, ?_⟩
  · refine @latest_of_latest _ _ _ r (r.accept c k true) j e [c]
      hlatest rfl ?_ ?_ (fun x hx => (hold x hx).right)
    · intro x hx hxj
      exact (hold x hxj).left (List.mem_singleton.mp hx)
    · rw [held_accept_of_ne r he]
      exact held_of_latest hlatest
  · rw [entry_accept_of_ne r c hj]
    exact hregistered

end Registry
end Foundation
end ChimeraMQ
