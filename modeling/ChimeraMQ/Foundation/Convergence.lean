import Mathlib.Data.List.Basic
import Mathlib.Data.List.Induction

/-!
# Updates in any order

A state is changed by updates, one after the other.  The updates of a set reach
it in any order and any number of times, and it converges if the order and the
repetitions do not show in the end.
-/

namespace ChimeraMQ
namespace Foundation

variable {State Update View : Type}

def Covers (updates arrived : List Update) : Prop :=
  forall u, u ∈ arrived <-> u ∈ updates

/-- What can be seen in the end is the same however the updates arrive. -/
def Converges (step : State -> Update -> State) (view : State -> View)
    (s : State) (updates : List Update) : Prop :=
  forall arrived arrived', Covers updates arrived -> Covers updates arrived' ->
    view (arrived.foldl step s) = view (arrived'.foldl step s)

theorem Covers.refl (updates : List Update) : Covers updates updates :=
  fun _ => Iff.rfl

theorem Covers.concat {updates arrived : List Update} {u : Update}
    (h : Covers updates arrived) (hu : u ∈ updates) :
    Covers updates (arrived ++ [u]) := by
  intro v
  rw [List.mem_append, List.mem_singleton, h v]
  constructor
  · rintro (hv | hv)
    · exact hv
    · rw [hv]
      exact hu
  · exact Or.inl

theorem Covers.cons {updates arrived : List Update} {u : Update}
    (h : Covers updates arrived) (hu : u ∈ updates) :
    Covers updates (u :: arrived) := by
  intro v
  rw [List.mem_cons, h v]
  constructor
  · rintro (hv | hv)
    · rw [hv]
      exact hu
    · exact hv
  · exact Or.inr

theorem covers_filter_append (updates : List Update) (p : Update -> Bool) :
    Covers updates
      (updates.filter p ++ updates.filter (fun u => !p u)) := by
  intro u
  rw [List.mem_append, List.mem_filter, List.mem_filter]
  cases hp : p u with
  | false => simp
  | true => simp

theorem foldl_arrived {step : State -> Update -> State} {updates : List Update}
    {Inv : List Update -> State -> Prop} {s : State} (hstart : Inv [] s)
    (hstep : forall past t u, (forall v, v ∈ past -> v ∈ updates) ->
      u ∈ updates -> Inv past t -> Inv (past ++ [u]) (step t u))
    (arrived : List Update) (hsub : forall u, u ∈ arrived -> u ∈ updates) :
    Inv arrived (arrived.foldl step s) := by
  induction arrived using List.reverseRecOn with
  | nil => exact hstart
  | append_singleton past u ih =>
  have hpast : forall v, v ∈ past -> v ∈ updates :=
    fun v hv => hsub v (List.mem_append_left [u] hv)
  rw [List.foldl_concat]
  exact hstep past _ u hpast
    (hsub u (List.mem_append_right past (List.mem_singleton_self u)))
    (ih hpast)

theorem converges_view_iff {step : State -> Update -> State}
    {view : State -> View} {step' : View -> Update -> View} {s : State}
    {updates : List Update} {Inv : State -> Prop} (hs : Inv s)
    (hkeeps : forall t u, u ∈ updates -> Inv t -> Inv (step t u))
    (hview : forall t u, u ∈ updates -> Inv t ->
      view (step t u) = step' (view t) u) :
    Converges step view s updates <-> Converges step' id (view s) updates := by
  have hfold : forall arrived : List Update,
      (forall u, u ∈ arrived -> u ∈ updates) ->
        Inv (arrived.foldl step s) ∧
          view (arrived.foldl step s) = arrived.foldl step' (view s) := by
    refine @foldl_arrived _ _ step updates (fun arrived t =>
      Inv t ∧ view t = arrived.foldl step' (view s)) s ?_ ?_
    · exact ⟨hs, rfl⟩
    intro past t u _ hu h
    constructor
    · exact hkeeps t u hu h.left
    · rw [hview t u hu h.left, h.right, List.foldl_concat]
  constructor
  · intro h arrived arrived' ha ha'
    have hsame := h arrived arrived' ha ha'
    rw [(hfold arrived (fun u hu => (ha u).mp hu)).right,
      (hfold arrived' (fun u hu => (ha' u).mp hu)).right] at hsame
    exact hsame
  intro h arrived arrived' ha ha'
  rw [(hfold arrived (fun u hu => (ha u).mp hu)).right,
    (hfold arrived' (fun u hu => (ha' u).mp hu)).right]
  exact h arrived arrived' ha ha'

end Foundation
end ChimeraMQ
