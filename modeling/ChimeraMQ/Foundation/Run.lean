import Mathlib.Data.List.Basic

/-!
# Runs of a partial step function

A component is modelled by a state type, an action type and a function that says
what one action does, or that the action is not possible. Here it is folded over
a list of actions, with the induction over runs.
-/

namespace ChimeraMQ
namespace Foundation

variable {State Action : Type}

def run? (step : State -> Action -> Option State) :
    State -> List Action -> Option State
  | s, [] => some s
  | s, a :: rest =>
    match step s a with
    | none => none
    | some s' => run? step s' rest

def Meets (step : State -> Action -> Option State)
    (C : State -> Action -> Prop) : State -> List Action -> Prop
  | _, [] => True
  | s, a :: rest =>
    C s a ∧ forall s', step s a = some s' -> Meets step C s' rest

variable {step : State -> Action -> Option State}
  {C : State -> Action -> Prop}

theorem run?_cons_some {s t : State} {a : Action} {rest : List Action}
    (h : run? step s (a :: rest) = some t) :
    exists s', step s a = some s' ∧ run? step s' rest = some t := by
  unfold run? at h
  cases hstep : step s a with
  | none =>
    rw [hstep] at h
    cases h
  | some s' =>
  rw [hstep] at h
  exact ⟨s', rfl, h⟩

theorem run?_append {s s' : State} {front : List Action}
    (hfront : run? step s front = some s') (back : List Action) :
    run? step s (front ++ back) = run? step s' back := by
  induction front generalizing s with
  | nil =>
    cases hfront
    rfl
  | cons a front ih =>
  rcases run?_cons_some hfront with ⟨s1, hstep, hrest⟩
  rw [List.cons_append, run?, hstep]
  exact ih hrest

theorem run?_invariant {Inv : State -> Prop}
    (hstep : forall s a s', Inv s -> step s a = some s' -> Inv s')
    {s t : State} {actions : List Action}
    (hs : Inv s) (hrun : run? step s actions = some t) : Inv t := by
  induction actions generalizing s with
  | nil =>
    cases hrun
    exact hs
  | cons a rest ih =>
  rcases run?_cons_some hrun with ⟨s', hone, hrest⟩
  exact ih (hstep s a s' hs hone) hrest

theorem run?_invariant_of_meets {Inv : State -> Prop}
    (hstep : forall s a s', Inv s -> C s a -> step s a = some s' -> Inv s')
    {s t : State} {actions : List Action}
    (hs : Inv s) (hmeets : Meets step C s actions)
    (hrun : run? step s actions = some t) : Inv t := by
  induction actions generalizing s with
  | nil =>
    cases hrun
    exact hs
  | cons a rest ih =>
  rcases run?_cons_some hrun with ⟨s', hone, hrest⟩
  exact ih (hstep s a s' hs hmeets.left hone)
    (hmeets.right s' hone) hrest

theorem run?_trace_of_meets {Inv : State -> List Action -> Prop}
    (hstep : forall s past a s', Inv s past -> C s a -> step s a = some s' ->
      Inv s' (past ++ [a]))
    {s t : State} {past actions : List Action}
    (hs : Inv s past) (hmeets : Meets step C s actions)
    (hrun : run? step s actions = some t) : Inv t (past ++ actions) := by
  induction actions generalizing s past with
  | nil =>
    cases hrun
    rw [List.append_nil]
    exact hs
  | cons a rest ih =>
  rcases run?_cons_some hrun with ⟨s', hone, hrest⟩
  have hnext := ih (hstep s past a s' hs hmeets.left hone)
    (hmeets.right s' hone) hrest
  rwa [List.append_assoc] at hnext

theorem meets_cons {s s' : State} {a : Action} {rest : List Action}
    (hfirst : C s a) (hstep : step s a = some s')
    (hrest : Meets step C s' rest) : Meets step C s (a :: rest) := by
  refine ⟨hfirst, ?_⟩
  intro t ht
  rw [hstep, Option.some.injEq] at ht
  rw [← ht]
  exact hrest

theorem Meets.append_right {s s' : State} {front back : List Action}
    (h : Meets step C s (front ++ back)) (hfront : run? step s front = some s') :
    Meets step C s' back := by
  induction front generalizing s with
  | nil =>
    cases hfront
    exact h
  | cons a front ih =>
  rcases run?_cons_some hfront with ⟨s1, hstep, hrest⟩
  exact ih (h.right s1 hstep) hrest

theorem Meets.of_prefix {s : State} {front actions : List Action}
    (h : Meets step C s actions) (hfront : front <+: actions) :
    Meets step C s front := by
  induction front generalizing s actions with
  | nil => trivial
  | cons a front ih =>
  cases actions with
  | nil => cases List.prefix_nil.mp hfront
  | cons b rest =>
  rcases List.cons_prefix_cons.mp hfront with ⟨hb, hprefix⟩
  rw [hb]
  exact ⟨h.left, fun s' hone => ih (h.right s' hone) hprefix⟩

theorem Meets.mono {D : State -> Action -> Prop}
    (hweak : forall s a, C s a -> D s a)
    {s : State} {actions : List Action} (h : Meets step C s actions) :
    Meets step D s actions := by
  induction actions generalizing s with
  | nil => trivial
  | cons a rest ih =>
    exact ⟨hweak s a h.left, fun s' hone => ih (h.right s' hone)⟩

theorem meets_of_forall {P : Action -> Prop} {s : State} {actions : List Action}
    (hall : forall a, a ∈ actions -> P a) :
    Meets step (fun _ a => P a) s actions := by
  induction actions generalizing s with
  | nil => trivial
  | cons a rest ih =>
  exact ⟨hall a (List.mem_cons_self ..), fun s' _ =>
    ih (fun x hx => hall x (List.mem_cons_of_mem a hx))⟩

theorem meets_iff_of_invariant {D : State -> Action -> Prop}
    {Inv : State -> Prop}
    (hkeep : forall s a s', Inv s -> step s a = some s' -> Inv s')
    (hsame : forall s a, Inv s -> (C s a <-> D s a)) {s : State} (hs : Inv s)
    {actions : List Action} :
    Meets step C s actions <-> Meets step D s actions := by
  induction actions generalizing s with
  | nil => exact Iff.rfl
  | cons a rest ih =>
  constructor
  · intro h
    exact ⟨(hsame s a hs).mp h.left, fun s' hone =>
      (ih (hkeep s a s' hs hone)).mp (h.right s' hone)⟩
  · intro h
    exact ⟨(hsame s a hs).mpr h.left, fun s' hone =>
      (ih (hkeep s a s' hs hone)).mpr (h.right s' hone)⟩

theorem meets_iff_of_run {F D : State -> Action -> Prop} {Inv : State -> Prop}
    (hkeep : forall s a s', Inv s -> F s a -> step s a = some s' -> Inv s')
    (hsame : forall s a s', Inv s -> F s a -> step s a = some s' ->
      (C s a <-> D s a)) {s t : State} (hs : Inv s) {actions : List Action}
    (hmeets : Meets step F s actions) (hrun : run? step s actions = some t) :
    Meets step C s actions <-> Meets step D s actions := by
  induction actions generalizing s with
  | nil => exact Iff.rfl
  | cons a rest ih =>
  rcases run?_cons_some hrun with ⟨s', hone, hrest⟩
  have hnext := ih (hkeep s a s' hs hmeets.left hone)
    (hmeets.right s' hone) hrest
  have hfirst := hsame s a s' hs hmeets.left hone
  constructor
  · intro h
    exact meets_cons (hfirst.mp h.left) hone
      (hnext.mp (h.right s' hone))
  · intro h
    exact meets_cons (hfirst.mpr h.left) hone
      (hnext.mpr (h.right s' hone))

theorem Meets.and {P : Action -> Prop} {s : State} {actions : List Action}
    (hmeets : Meets step C s actions)
    (hall : forall a, a ∈ actions -> P a) :
    Meets step (fun s a => C s a ∧ P a) s actions := by
  induction actions generalizing s with
  | nil => trivial
  | cons a rest ih =>
  refine ⟨⟨hmeets.left, hall a (List.mem_cons_self ..)⟩, ?_⟩
  intro s' hs'
  exact ih (hmeets.right s' hs')
    (fun x hx => hall x (List.mem_cons_of_mem a hx))

instance decidableMeets (step : State -> Action -> Option State)
    (C : State -> Action -> Prop) [forall s a, Decidable (C s a)] :
    forall (s : State) (actions : List Action),
      Decidable (Meets step C s actions)
  | _, [] => isTrue trivial
  | s, a :: rest =>
    match hstep : step s a with
    | none =>
      decidable_of_iff (C s a)
        ⟨fun h => ⟨h, by intro s' hs'; rw [hstep] at hs'; cases hs'⟩,
          fun h => h.left⟩
    | some s' =>
    haveI := decidableMeets step C s' rest
    decidable_of_iff (C s a ∧ Meets step C s' rest)
      ⟨fun h => ⟨h.left, by
          intro t ht
          rw [hstep] at ht
          cases ht
          exact h.right⟩,
        fun h => ⟨h.left, h.right s' hstep⟩⟩

theorem run?_good_iff_meets {Inv Good : State -> Prop}
    (hkeep : forall s a s', Inv s -> step s a = some s' -> Inv s')
    (hstep : forall s a s', Inv s -> step s a = some s' ->
      (Good s' <-> Good s ∧ C s a))
    {s t : State} {actions : List Action} (hs : Inv s)
    (hrun : run? step s actions = some t) :
    Good t <-> Good s ∧ Meets step C s actions := by
  induction actions generalizing s with
  | nil =>
    cases hrun
    exact ⟨fun h => ⟨h, trivial⟩, And.left⟩
  | cons a rest ih =>
  rcases run?_cons_some hrun with ⟨s', hone, hrest⟩
  rw [ih (hkeep s a s' hs hone) hrest, hstep s a s' hs hone]
  constructor
  · intro h
    exact ⟨h.left.left, meets_cons h.left.right hone h.right⟩
  · intro h
    exact ⟨⟨h.left, h.right.left⟩, h.right.right s' hone⟩

/--
If steps that meet a condition keep an invariant which makes states good, and
any other step leads to a state that is not good, a run goes through good states
only exactly when all its steps meet it.
-/
theorem run?_always_iff_meets_of_forall {P : Action -> Prop}
    {Inv : Nat -> State -> Prop} {Good : State -> Prop} {bound : Nat}
    (hgood : forall n s, Inv n s -> Good s)
    (hkeep : forall n s a s', n < bound -> Inv n s -> P a -> C s a ->
      step s a = some s' -> Inv (n + 1) s')
    (hbreak : forall n s a, n < bound -> Inv n s -> P a -> ¬ C s a ->
      exists s', step s a = some s' ∧ ¬ Good s')
    {n : Nat} {s : State} (hs : Inv n s) {actions : List Action}
    (hall : forall a, a ∈ actions -> P a) (hfew : n + actions.length ≤ bound) :
    (forall front, front <+: actions -> forall t,
      run? step s front = some t -> Good t) <-> Meets step C s actions := by
  induction actions generalizing n s with
  | nil =>
    constructor
    · intro _
      trivial
    intro _ front hfront t ht
    rw [List.prefix_nil.mp hfront] at ht
    cases ht
    exact hgood n s hs
  | cons a rest ih =>
  rw [List.length_cons] at hfew
  have hfirst := hall a (List.mem_cons_self ..)
  have hnext : forall s', C s a -> step s a = some s' ->
      ((forall front, front <+: rest -> forall t,
        run? step s' front = some t -> Good t) <->
          Meets step C s' rest) := by
    intro s' hmeets hone
    exact ih (hkeep n s a s' (by omega) hs hfirst hmeets hone)
      (fun x hx => hall x (List.mem_cons_of_mem a hx)) (by omega)
  constructor
  · intro halways
    have hmeets : C s a := by
      by_contra hnot
      rcases hbreak n s a (by omega) hs hfirst hnot with ⟨s', hone, hbad⟩
      apply hbad
      apply halways [a] ⟨rest, rfl⟩
      rw [run?, hone]
      rfl
    refine ⟨hmeets, ?_⟩
    intro s' hone
    apply (hnext s' hmeets hone).mp
    intro front hfront t ht
    apply halways (a :: front) (List.cons_prefix_cons.mpr ⟨rfl, hfront⟩)
    rw [run?, hone]
    exact ht
  · intro hmeets front hfront t ht
    cases front with
    | nil =>
      cases ht
      exact hgood n s hs
    | cons b front =>
    rcases List.cons_prefix_cons.mp hfront with ⟨hb, hprefix⟩
    rcases run?_cons_some ht with ⟨s', hone, hrest⟩
    rw [hb] at hone
    exact (hnext s' hmeets.left hone).mpr (hmeets.right s' hone) front
      hprefix t hrest

theorem run?_always_iff_meets {Inv : Nat -> State -> Prop}
    {Good : State -> Prop} {bound : Nat}
    (hgood : forall n s, Inv n s -> Good s)
    (hkeep : forall n s a s', n < bound -> Inv n s -> C s a ->
      step s a = some s' -> Inv (n + 1) s')
    (hbreak : forall n s a, n < bound -> Inv n s -> ¬ C s a ->
      exists s', step s a = some s' ∧ ¬ Good s')
    {n : Nat} {s : State} (hs : Inv n s) {actions : List Action}
    (hfew : n + actions.length ≤ bound) :
    (forall front, front <+: actions -> forall t,
      run? step s front = some t -> Good t) <-> Meets step C s actions :=
  @run?_always_iff_meets_of_forall State Action step C (fun _ => True) Inv Good
    bound hgood (fun n s a s' hn hinv _ => hkeep n s a s' hn hinv)
    (fun n s a hn hinv _ => hbreak n s a hn hinv) n s hs actions
    (fun _ _ => trivial) hfew

theorem run?_throughout_iff_meets {Good : State -> Prop}
    (hstep : forall s a s', Good s -> step s a = some s' -> (Good s' <-> C s a))
    (hpossible : forall s a, exists s', step s a = some s')
    {s : State} (hs : Good s) (actions : List Action) :
    (forall front, front <+: actions -> forall t,
      run? step s front = some t -> Good t) <-> Meets step C s actions := by
  have hkeep : forall (n : Nat) s a s', n < actions.length -> Good s ->
      C s a -> step s a = some s' -> Good s' :=
    fun _ s a s' _ hgood hmeets hone => (hstep s a s' hgood hone).mpr hmeets
  have hbreak : forall (n : Nat) s a, n < actions.length -> Good s ->
      ¬ C s a -> exists s', step s a = some s' ∧ ¬ Good s' := by
    intro _ s a _ hgood hnot
    rcases hpossible s a with ⟨s', hone⟩
    exact ⟨s', hone, fun hbad => hnot ((hstep s a s' hgood hone).mp hbad)⟩
  exact @run?_always_iff_meets State Action step C (fun _ => Good) Good
    actions.length (fun _ _ h => h) hkeep hbreak 0 s hs actions (by omega)

theorem foldl_finds {α β : Type} {f : β -> α -> β} {S Q : β -> Prop}
    {R : α -> Prop} {xs : List α}
    (hinv : forall b x, x ∈ xs -> S b -> S (f b x))
    (hkeep : forall b x, x ∈ xs -> Q b -> Q (f b x))
    (hfind : forall b x, x ∈ xs -> S b -> R x -> Q (f b x))
    {b : β} (hb : S b) (h : exists x, x ∈ xs ∧ R x) :
    Q (xs.foldl f b) := by
  induction xs generalizing b with
  | nil =>
    rcases h with ⟨x, hx, _⟩
    cases hx
  | cons y rest ih =>
  have hrest : forall x, x ∈ rest -> x ∈ y :: rest :=
    fun x => List.mem_cons_of_mem y
  have hy := List.mem_cons_self (a := y) (l := rest)
  rw [List.foldl_cons]
  by_cases hfirst : R y
  · exact List.foldlRecOn rest f (hfind b y hy hb hfirst)
      (fun b' hb' x hx => hkeep b' x (hrest x hx) hb')
  apply ih
  · exact fun b' x hx => hinv b' x (hrest x hx)
  · exact fun b' x hx => hkeep b' x (hrest x hx)
  · exact fun b' x hx => hfind b' x (hrest x hx)
  · exact hinv b y hy hb
  rcases h with ⟨x, hx, hR⟩
  rcases List.mem_cons.mp hx with heq | hmem
  · rw [heq] at hR
    exact absurd hR hfirst
  · exact ⟨x, hmem, hR⟩

/-!
## Leaving actions out

In every state a part of an action may be permitted, or nothing of it.  Where
every action of a run does just what is permitted of it, the run comes to the
same as one in which nothing else was tried.
-/

section Erasure

variable (step : State -> Action -> Option State)
  (permit : State -> Action -> Option Action)

def permitted : State -> List Action -> List Action
  | _, [] => []
  | s, a :: rest =>
    match permit s a with
    | none => permitted s rest
    | some b =>
      match step s b with
      | none => [b]
      | some s' => b :: permitted s' rest

def Obeys (s : State) (a : Action) : Prop :=
  step s a =
    match permit s a with
    | none => some s
    | some b => step s b

variable {step permit}

theorem run?_permitted {s : State} {actions : List Action}
    (h : Meets step (Obeys step permit) s actions) :
    run? step s (permitted step permit s actions) = run? step s actions := by
  induction actions generalizing s with
  | nil => rfl
  | cons a rest ih =>
  have hobeys : step s a = _ := h.left
  unfold permitted
  cases hpermit : permit s a with
  | none =>
    rw [hpermit] at hobeys
    simp only [run?, hobeys]
    exact ih (h.right s hobeys)
  | some b =>
  rw [hpermit] at hobeys
  simp only at hobeys
  cases hstep : step s b with
  | none => simp only [run?, hstep, hobeys]
  | some s' =>
  rw [hstep] at hobeys
  simp only [run?, hstep, hobeys]
  exact ih (h.right s' hobeys)

end Erasure

end Foundation
end ChimeraMQ
