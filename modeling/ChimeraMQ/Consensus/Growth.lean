import Mathlib.Logic.Relation
import ChimeraMQ.Consensus.Completeness

/-!
# What steps keep

What a step never takes back, and that a step of one member leaves the others
alone.
-/

namespace ChimeraMQ
namespace Consensus

open Foundation
open History

variable {Node Entry : Type}

structure Grows (h h' : History Node Entry) : Prop where
  term : forall n, h.term n ≤ h'.term n
  ballot : forall v t c, h.ballot v t = some c -> h'.ballot v t = some c
  bid : forall c t log, h.bid c t = some log -> h'.bid c t = some log
  leader : forall t n, h.leader t = some n -> h'.leader t = some n
  lead : forall t, h.lead t <+: h'.lead t

structure Frame (n : Node) (h h' : History Node Entry) : Prop where
  term : forall m, m ≠ n -> h'.term m = h.term m
  log : forall m, m ≠ n -> h'.log m = h.log m
  ballot : forall m, m ≠ n -> h'.ballot m = h.ballot m
  bid : forall m, m ≠ n -> h'.bid m = h.bid m
  leader : forall m, m ≠ n -> forall t,
    h'.leader t = some m -> h.leader t = some m

theorem Grows.refl (h : History Node Entry) : Grows h h where
  term := fun _ => Nat.le_refl _
  ballot := fun _ _ _ hballot => hballot
  bid := fun _ _ _ hbid => hbid
  leader := fun _ _ hleader => hleader
  lead := fun _ => List.prefix_rfl

theorem Grows.trans {h h' h'' : History Node Entry} (hg : Grows h h')
    (hg' : Grows h' h'') : Grows h h'' where
  term := fun n => (hg.term n).trans (hg'.term n)
  ballot := fun v t c hballot => hg'.ballot v t c (hg.ballot v t c hballot)
  bid := fun c t log hbid => hg'.bid c t log (hg.bid c t log hbid)
  leader := fun t n hleader => hg'.leader t n (hg.leader t n hleader)
  lead := fun t => (hg.lead t).trans (hg'.lead t)

theorem Frame.refl (n : Node) (h : History Node Entry) : Frame n h h where
  term := fun _ _ => rfl
  log := fun _ _ => rfl
  ballot := fun _ _ => rfl
  bid := fun _ _ => rfl
  leader := fun _ _ _ hleader => hleader

theorem Frame.trans {n : Node} {h h' h'' : History Node Entry}
    (hf : Frame n h h') (hf' : Frame n h' h'') : Frame n h h'' where
  term := fun m hm => (hf'.term m hm).trans (hf.term m hm)
  log := fun m hm => (hf'.log m hm).trans (hf.log m hm)
  ballot := fun m hm => (hf'.ballot m hm).trans (hf.ballot m hm)
  bid := fun m hm => (hf'.bid m hm).trans (hf.bid m hm)
  leader := fun m hm t hleader => hf.leader m hm t (hf'.leader m hm t hleader)

section Frames

variable [DecidableEq Node]

variable (h : History Node Entry)

include h

theorem frame_advance (n : Node) (t : Nat) :
    Frame n h (h.advance n t) where
  term := by intro m hm; simp [advance, hm]
  log := by intro m _; rfl
  ballot := by intro m _; rfl
  bid := by intro m _; rfl
  leader := by intro m _ t hleader; exact hleader

theorem frame_campaign (n : Node) :
    Frame n h (h.campaign n) where
  term := by intro m hm; simp [campaign, hm]
  log := by intro m _; rfl
  ballot := by intro m hm; simp [campaign, hm]
  bid := by intro m hm; simp [campaign, hm]
  leader := by intro m _ t hleader; exact hleader

theorem frame_vote (v c : Node) :
    Frame v h (h.vote v c) where
  term := by intro m _; rfl
  log := by intro m _; rfl
  ballot := by intro m hm; simp [vote, hm]
  bid := by intro m _; rfl
  leader := by intro m _ t hleader; exact hleader

theorem frame_win (n : Node) :
    Frame n h (h.win n) where
  term := by intro m _; rfl
  log := by intro m _; rfl
  ballot := by intro m _; rfl
  bid := by intro m _; rfl
  leader := by
    intro m hm t hleader
    by_cases ht : t = h.term n
    · subst ht
      have heq : n = m := by
        simpa [win] using hleader
      exact absurd heq.symm hm
    · simpa [win, ht] using hleader

theorem frame_extend (n : Node) (e : Entry) :
    Frame n h (h.extend n e) where
  term := by intro m _; rfl
  log := by intro m hm; simp [extend, hm]
  ballot := by intro m _; rfl
  bid := by intro m _; rfl
  leader := by intro m _ t hleader; exact hleader

theorem frame_accept [DecidableEq Entry] (n : Node) (offered : List Entry) :
    Frame n h (h.accept n offered) where
  term := by intro m _; rfl
  log := by intro m hm; simp [accept, hm]
  ballot := by intro m _; rfl
  bid := by intro m _; rfl
  leader := by intro m _ t hleader; exact hleader

end Frames

section Steps

variable {termOf : Entry -> Nat} {members : Finset Node}
variable [DecidableEq Node] [DecidableEq Entry]
variable {offers : History Node Entry -> Node -> List Entry -> Prop}

variable {h h' : History Node Entry}

theorem Coherent.grows (hc : Coherent termOf members h)
    (hstep : Step termOf members offers h h') : Grows h h' := by
  have hlead := hc.lead_mono hstep
  cases hstep with
  | @advance n t hle =>
    refine ⟨?_, ?_, ?_, ?_, hlead⟩
    · intro m
      by_cases hm : m = n
      · subst hm
        simpa [advance] using hle
      · simp [advance, hm]
    · exact fun _ _ _ hballot => hballot
    · exact fun _ _ _ hbid => hbid
    · exact fun _ _ hleader => hleader
  | campaign n =>
    refine ⟨?_, ?_, ?_, ?_, hlead⟩
    · intro m
      by_cases hm : m = n
      · subst hm
        simp [campaign]
      · simp [campaign, hm]
    · intro v t c hballot
      by_cases hv : v = n
      · subst hv
        have hle := hc.ballot_term v t c hballot
        have hne : t ≠ h.term v + 1 := by omega
        simpa [campaign, hne] using hballot
      · simpa [campaign, hv] using hballot
    · intro v t log hbid
      by_cases hv : v = n
      · subst hv
        have hle := (hc.bid_term v t log hbid).right
        have hne : t ≠ h.term v + 1 := by omega
        simpa [campaign, hne] using hbid
      · simpa [campaign, hv] using hbid
    · exact fun _ _ hleader => hleader
  | @vote v c log hbid hlog hfree =>
    refine ⟨fun _ => Nat.le_refl _, ?_, ?_, ?_, hlead⟩
    · intro w t d hballot
      by_cases hw : w = v
      · subst hw
        by_cases ht : t = h.term w
        · subst ht
          rw [hballot] at hfree
          rcases hfree with hnone | hsame
          · cases hnone
          · simpa [vote] using hsame.symm
        · simpa [vote, ht] using hballot
      · simpa [vote, hw] using hballot
    · exact fun _ _ _ hbid => hbid
    · exact fun _ _ hleader => hleader
  | @win n Q hbid hnone hQ hvotes =>
    refine ⟨fun _ => Nat.le_refl _, ?_, ?_, ?_, hlead⟩
    · exact fun _ _ _ hballot => hballot
    · exact fun _ _ _ hbid => hbid
    intro t m hleader
    have hne : t ≠ h.term n := by
      intro ht
      rw [ht, hnone] at hleader
      cases hleader
    simpa [win, hne] using hleader
  | extend _ _ =>
    refine ⟨fun _ => Nat.le_refl _, ?_, ?_, ?_, hlead⟩
    · exact fun _ _ _ hballot => hballot
    · exact fun _ _ _ hbid => hbid
    · exact fun _ _ hleader => hleader
  | accept _ _ _ =>
    refine ⟨fun _ => Nat.le_refl _, ?_, ?_, ?_, hlead⟩
    · exact fun _ _ _ hballot => hballot
    · exact fun _ _ _ hbid => hbid
    · exact fun _ _ hleader => hleader

variable (termOf members offers)

structure Moves (n : Node) (h h' : History Node Entry) : Prop where
  path : Relation.ReflTransGen (Step termOf members offers) h h'
  frame : Frame n h h'

variable {termOf members offers}

theorem Moves.refl (n : Node) (h : History Node Entry) :
    Moves termOf members offers n h h :=
  ⟨Relation.ReflTransGen.refl, Frame.refl n h⟩

theorem Moves.trans {n : Node} {h'' : History Node Entry}
    (hm : Moves termOf members offers n h h')
    (hm' : Moves termOf members offers n h' h'') :
    Moves termOf members offers n h h'' :=
  ⟨hm.path.trans hm'.path, hm.frame.trans hm'.frame⟩

theorem Moves.single {n : Node} (hstep : Step termOf members offers h h')
    (hframe : Frame n h h') :
    Moves termOf members offers n h h' :=
  ⟨Relation.ReflTransGen.single hstep, hframe⟩

theorem Reachable.of_path (hreach : Reachable termOf members offers h)
    (hpath : Relation.ReflTransGen (Step termOf members offers) h h') :
    Reachable termOf members offers h' := by
  induction hpath with
  | refl => exact hreach
  | tail _ hstep ih => exact Reachable.step ih hstep

theorem Reachable.grows (hreach : Reachable termOf members offers h)
    (hpath : Relation.ReflTransGen (Step termOf members offers) h h') :
    Grows h h' := by
  induction hpath with
  | refl => exact Grows.refl h
  | tail hpath hstep ih =>
    exact ih.trans ((hreach.of_path hpath).coherent.grows hstep)

end Steps

section Strict

variable {termOf : Entry -> Nat} {members : Finset Node}
variable [DecidableEq Node] [DecidableEq Entry]

/--
The offers of a protocol that may or may not be strict: if it is, members are
offered only the log of their term's leader.
-/
def StrictOffer (strict : Prop) (h : History Node Entry) (n : Node)
    (log : List Entry) : Prop :=
  strict -> LeaderLog h n log

variable {strict : Prop}

theorem Reachable.secure_of_strict (hstrict : strict) {h : History Node Entry}
    (hreach : Reachable termOf members (StrictOffer strict) h) :
    Secure termOf members h := by
  have hreach' : Reachable termOf members LeaderLog h :=
    Reachable.mono (fun _ _ _ hoffer => hoffer hstrict) hreach
  exact hreach'.secure

theorem Reachable.acked_mono (hstrict : strict) {h h' : History Node Entry}
    (hreach : Reachable termOf members (StrictOffer strict) h)
    (hpath :
      Relation.ReflTransGen (Step termOf members (StrictOffer strict)) h h')
    (a : Node) (t : Nat) : h.acked a t ≤ h'.acked a t := by
  induction hpath with
  | refl => exact Nat.le_refl _
  | @tail h1 h2 hpath hstep ih =>
  have hmid := hreach.of_path hpath
  have hlead : Step termOf members LeaderLog h1 h2 :=
    hstep.mono (fun _ _ _ hoffer => hoffer hstrict)
  exact ih.trans
    ((hmid.secure_of_strict hstrict).acked_mono hmid.coherent hlead a t)

end Strict

end Consensus
end ChimeraMQ
