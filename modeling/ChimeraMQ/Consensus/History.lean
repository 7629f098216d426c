import Mathlib.Data.List.Infix
import Mathlib.Logic.Function.Basic
import ChimeraMQ.Foundation.Majority

/-!
# Leader-based log replication, abstractly

A fixed set of members elects at most one leader for each term; the leader of a
term extends one log and the members copy prefixes of logs.  The history keeps,
besides each member's current term and log, what a proof needs to remember of
the past: every ballot, the log with which a candidate stood, the winner of each
term with the log it started from and the log it has built, and how much of a
term's log each member has acknowledged.
-/

namespace ChimeraMQ
namespace Consensus

open Foundation

variable {Node Entry : Type}

/-- What has happened so far in a replicated log. -/
structure History (Node Entry : Type) where
  term : Node -> Nat
  log : Node -> List Entry
  /-- The member for which a member voted in a term. -/
  ballot : Node -> Nat -> Option Node
  /-- The log of a member when it stood as a candidate in a term. -/
  bid : Node -> Nat -> Option (List Entry)
  /-- The winner of a term. -/
  leader : Nat -> Option Node
  /-- The log of the winner when it won. -/
  base : Nat -> List Entry
  /-- The log the winner has built in its term. -/
  lead : Nat -> List Entry
  /-- The length of the longest prefix of a term's log that a member holds. -/
  acked : Node -> Nat -> Nat

def History.initial : History Node Entry where
  term := fun _ => 0
  log := fun _ => []
  ballot := fun _ _ => none
  bid := fun _ _ => none
  leader := fun _ => none
  base := fun _ => []
  lead := fun _ => []
  acked := fun _ _ => 0

/-!
## Adopting a log

A member that is offered a log keeps its own when it already extends the offer
and takes the offer otherwise.
-/

def adopt [DecidableEq Entry] (own offered : List Entry) : List Entry :=
  if offered <+: own then own else offered

theorem adopt_cases [DecidableEq Entry] (own offered : List Entry) :
    adopt own offered = own ∨ adopt own offered = offered := by
  unfold adopt
  by_cases h : offered <+: own
  · exact Or.inl (if_pos h)
  · exact Or.inr (if_neg h)

theorem prefix_adopt [DecidableEq Entry] (own offered : List Entry) :
    offered <+: adopt own offered := by
  unfold adopt
  by_cases h : offered <+: own
  · rw [if_pos h]
    exact h
  · rw [if_neg h]

/--
A prefix of the member's log that also belongs to a log extending the offer is
not lost.
-/
theorem prefix_adopt_of_common [DecidableEq Entry]
    {P own offered whole : List Entry}
    (hown : P <+: own) (hwhole : P <+: whole) (hoffered : offered <+: whole) :
    P <+: adopt own offered := by
  unfold adopt
  by_cases h : offered <+: own
  · rw [if_pos h]
    exact hown
  rw [if_neg h]
  rcases List.prefix_or_prefix_of_prefix hwhole hoffered with hP | hP
  · exact hP
  · exact absurd (hP.trans hown) h

/-!
## The steps

Each step is a function on histories; the relation below adds the condition
under which a member takes it.
-/

section Operations

variable [DecidableEq Node]

def History.advance (h : History Node Entry) (n : Node) (t : Nat) :
    History Node Entry :=
  { h with term := Function.update h.term n t }

def History.campaign (h : History Node Entry) (n : Node) :
    History Node Entry :=
  { h with
    term := Function.update h.term n (h.term n + 1)
    ballot := Function.update h.ballot n
      (Function.update (h.ballot n) (h.term n + 1) (some n))
    bid := Function.update h.bid n
      (Function.update (h.bid n) (h.term n + 1) (some (h.log n))) }

def History.vote (h : History Node Entry) (v c : Node) :
    History Node Entry :=
  { h with
    ballot := Function.update h.ballot v
      (Function.update (h.ballot v) (h.term v) (some c)) }

def History.win (h : History Node Entry) (n : Node) : History Node Entry :=
  { h with
    leader := Function.update h.leader (h.term n) (some n)
    base := Function.update h.base (h.term n) (h.log n)
    lead := Function.update h.lead (h.term n) (h.log n)
    acked := Function.update h.acked n
      (Function.update (h.acked n) (h.term n) (h.log n).length) }

def History.extend (h : History Node Entry) (n : Node) (e : Entry) :
    History Node Entry :=
  { h with
    log := Function.update h.log n (h.log n ++ [e])
    lead := Function.update h.lead (h.term n) (h.log n ++ [e])
    acked := Function.update h.acked n
      (Function.update (h.acked n) (h.term n) ((h.log n).length + 1)) }

def History.accept [DecidableEq Entry] (h : History Node Entry) (n : Node)
    (offered : List Entry) : History Node Entry :=
  { h with
    log := Function.update h.log n (adopt (h.log n) offered)
    acked := Function.update h.acked n
      (Function.update (h.acked n) (h.term n)
        (max (h.acked n (h.term n)) offered.length)) }

end Operations

section Steps

variable (termOf : Entry -> Nat)

def lastTerm (log : List Entry) : Nat :=
  match log.getLast? with
  | none => 0
  | some e => termOf e

def UpToDate (candidate voter : List Entry) : Prop :=
  lastTerm termOf voter < lastTerm termOf candidate ∨
    lastTerm termOf voter = lastTerm termOf candidate ∧
      voter.length ≤ candidate.length

/-- Every prefix of the log is a prefix of the log of its last entry's term. -/
def Traceable (h : History Node Entry) (log : List Entry) : Prop :=
  forall front e, front ++ [e] <+: log -> front ++ [e] <+: h.lead (termOf e)

variable [DecidableEq Node] [DecidableEq Entry] (members : Finset Node)
variable (offers : History Node Entry -> Node -> List Entry -> Prop)

/--
One step of the protocol.  The predicate `offers` says which logs a member
may be offered in a given history.
-/
inductive Step : History Node Entry -> History Node Entry -> Prop where
  | advance {h : History Node Entry} {n : Node} {t : Nat} :
      h.term n ≤ t -> Step h (h.advance n t)
  | campaign {h : History Node Entry} (n : Node) : Step h (h.campaign n)
  | vote {h : History Node Entry} {v c : Node} {log : List Entry} :
      h.bid c (h.term v) = some log ->
      UpToDate termOf log (h.log v) ->
      (h.ballot v (h.term v) = none ∨ h.ballot v (h.term v) = some c) ->
      Step h (h.vote v c)
  | win {h : History Node Entry} {n : Node} {Q : Finset Node} :
      h.bid n (h.term n) = some (h.log n) ->
      h.leader (h.term n) = none ->
      Majority members Q ->
      (forall v, v ∈ Q -> h.ballot v (h.term n) = some n) ->
      Step h (h.win n)
  | extend {h : History Node Entry} {n : Node} {e : Entry} :
      h.leader (h.term n) = some n ->
      termOf e = h.term n ->
      Step h (h.extend n e)
  | accept {h : History Node Entry} {n : Node} {offered : List Entry} :
      h.leader (h.term n) ≠ some n ->
      Traceable termOf h offered ->
      offers h n offered ->
      Step h (h.accept n offered)

inductive Reachable : History Node Entry -> Prop where
  | initial : Reachable History.initial
  | step {h h' : History Node Entry} :
      Reachable h -> Step termOf members offers h h' -> Reachable h'

end Steps

/-- Only the log of the leader of the member's current term may be offered. -/
def LeaderLog (h : History Node Entry) (n : Node) (log : List Entry) : Prop :=
  h.leader (h.term n) ≠ none ∧ log <+: h.lead (h.term n)

theorem Step.mono [DecidableEq Node] [DecidableEq Entry]
    {termOf : Entry -> Nat} {members : Finset Node}
    {offers offers' : History Node Entry -> Node -> List Entry -> Prop}
    (hsub : forall h n log, offers h n log -> offers' h n log)
    {h h' : History Node Entry} (hstep : Step termOf members offers h h') :
    Step termOf members offers' h h' := by
  cases hstep with
  | advance hle => exact Step.advance hle
  | campaign n => exact Step.campaign n
  | vote hbid hlog hfree => exact Step.vote hbid hlog hfree
  | win hbid hnone hQ hvotes => exact Step.win hbid hnone hQ hvotes
  | extend hleader hterm => exact Step.extend hleader hterm
  | accept hleader htrace hoffer =>
    exact Step.accept hleader htrace (hsub _ _ _ hoffer)

theorem Reachable.mono [DecidableEq Node] [DecidableEq Entry]
    {termOf : Entry -> Nat} {members : Finset Node}
    {offers offers' : History Node Entry -> Node -> List Entry -> Prop}
    (hsub : forall h n log, offers h n log -> offers' h n log)
    {h : History Node Entry} (hreach : Reachable termOf members offers h) :
    Reachable termOf members offers' h := by
  induction hreach with
  | initial => exact Reachable.initial
  | step _ hstep ih => exact Reachable.step ih (hstep.mono hsub)

end Consensus
end ChimeraMQ
