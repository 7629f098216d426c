import ChimeraMQ.Message.Envelope

/-!
# Dispatching to consumers

The two dispatchers of the queue engine hand a message to the next consumer in
turn that has room for it.  The one with priorities keeps what it cannot hand
out in a queue for each level.  The times at which offsets were handed out,
which nothing reads, are left out.
-/

namespace ChimeraMQ
namespace Queue

open Foundation
open Message

structure QueueConsumer where
  id : Bytes
  prefetch : Int
  inFlight : List Nat
deriving DecidableEq

namespace QueueConsumer

def inFlightCount (c : QueueConsumer) : Nat :=
  c.inFlight.length

def hasRoom (c : QueueConsumer) : Bool :=
  (c.inFlightCount : Int) < c.prefetch

def take (c : QueueConsumer) (offset : Nat) : QueueConsumer :=
  { c with
    inFlight :=
      if offset ∈ c.inFlight then c.inFlight else c.inFlight ++ [offset] }

@[simp] theorem id_take (c : QueueConsumer) (offset : Nat) :
    (c.take offset).id = c.id := rfl

@[simp] theorem mem_inFlight_take {c : QueueConsumer} {offset o : Nat} :
    o ∈ (c.take offset).inFlight <-> o = offset ∨ o ∈ c.inFlight := by
  unfold take
  by_cases hmem : offset ∈ c.inFlight
  · simp only [hmem, if_true]
    constructor
    · exact Or.inr
    intro h
    rcases h with heq | hold
    · rw [heq]
      exact hmem
    · exact hold
  · simp only [hmem, if_false, List.mem_append, List.mem_singleton]
    exact or_comm

end QueueConsumer

/-- Why a message is not handed out. -/
inductive DispatchError where
  | noConsumers
  | allConsumersBusy
deriving DecidableEq

/-!
## Taking turns
-/

/--
Ask the given number of consumers in turn, from an index on.  Returns the
consumers, the next index and the consumer that took the offset.
-/
def takeTurns (eligible : QueueConsumer -> Bool) (offset : Nat) :
    Nat -> List QueueConsumer -> Nat ->
      List QueueConsumer × Nat × Option Bytes
  | 0, consumers, nextIdx => (consumers, nextIdx, none)
  | k + 1, consumers, nextIdx =>
    match consumers[nextIdx]? with
    | none => (consumers, nextIdx, none)
    | some c =>
    let next := (nextIdx + 1) % consumers.length
    if eligible c && c.hasRoom then
      (consumers.set nextIdx (c.take offset), next, some c.id)
    else takeTurns eligible offset k consumers next

theorem takeTurns_cases (eligible : QueueConsumer -> Bool) (offset k : Nat)
    (consumers : List QueueConsumer) (nextIdx : Nat) :
    ((takeTurns eligible offset k consumers nextIdx).2.2 = none ∧
        (takeTurns eligible offset k consumers nextIdx).1 = consumers) ∨
      exists front c back, consumers = front ++ c :: back ∧
        eligible c = true ∧ c.hasRoom = true ∧
        (takeTurns eligible offset k consumers nextIdx).2.2 = some c.id ∧
        (takeTurns eligible offset k consumers nextIdx).1 =
          front ++ c.take offset :: back := by
  induction k generalizing nextIdx with
  | zero => exact Or.inl ⟨rfl, rfl⟩
  | succ k ih =>
  unfold takeTurns
  cases hget : consumers[nextIdx]? with
  | none => exact Or.inl ⟨rfl, rfl⟩
  | some c =>
  by_cases htakes : (eligible c && c.hasRoom) = true
  · rw [Bool.and_eq_true] at htakes
    simp only [htakes.left, htakes.right, Bool.and_true, if_true]
    apply Or.inr
    rcases List.getElem?_eq_some_iff.mp hget with ⟨hlt, hc⟩
    refine ⟨consumers.take nextIdx, c, consumers.drop (nextIdx + 1),
      ?_, htakes.left, htakes.right, rfl, ?_⟩
    · rw [← hc, ← List.drop_eq_getElem_cons hlt,
        List.take_append_drop]
    · rw [List.set_eq_take_append_cons_drop, if_pos hlt]
  · simp only [htakes, Bool.false_eq_true, if_false]
    exact ih _

variable {nextIdx : Nat}

theorem nextIdx_takeTurns (eligible : QueueConsumer -> Bool) (offset k : Nat)
    {consumers : List QueueConsumer} (hlt : nextIdx < consumers.length) :
    (takeTurns eligible offset k consumers nextIdx).2.1 <
      consumers.length := by
  induction k generalizing nextIdx with
  | zero => exact hlt
  | succ k ih =>
  have hnext : (nextIdx + 1) % consumers.length < consumers.length :=
    Nat.mod_lt _ (Nat.zero_lt_of_lt hlt)
  unfold takeTurns
  rw [List.getElem?_eq_getElem hlt]
  by_cases htakes : (eligible consumers[nextIdx] &&
      consumers[nextIdx].hasRoom) = true
  · simp only [htakes, if_true]
    exact hnext
  · simp only [htakes, Bool.false_eq_true, if_false]
    exact ih hnext

theorem asked_of_takeTurns_none {eligible : QueueConsumer -> Bool}
    {offset k : Nat} {consumers : List QueueConsumer}
    (hlt : nextIdx < consumers.length)
    (hnone : (takeTurns eligible offset k consumers nextIdx).2.2 = none)
    {j : Nat} (hj : j < k) {c : QueueConsumer}
    (hget : consumers[(nextIdx + j) % consumers.length]? = some c) :
    (eligible c && c.hasRoom) = false := by
  induction k generalizing nextIdx j with
  | zero => cases hj
  | succ k ih =>
  have hpos := Nat.zero_lt_of_lt hlt
  have hnext : (nextIdx + 1) % consumers.length < consumers.length :=
    Nat.mod_lt _ hpos
  unfold takeTurns at hnone
  rw [List.getElem?_eq_getElem hlt] at hnone
  by_cases htakes : (eligible consumers[nextIdx] &&
      consumers[nextIdx].hasRoom) = true
  · simp only [htakes, if_true] at hnone
    cases hnone
  simp only [htakes, Bool.false_eq_true, if_false] at hnone
  cases j with
  | zero =>
    rw [Nat.add_zero, Nat.mod_eq_of_lt hlt,
      List.getElem?_eq_getElem hlt, Option.some.injEq] at hget
    rw [← hget]
    exact Bool.eq_false_iff.mpr htakes
  | succ j =>
  apply ih hnext hnone (Nat.lt_of_succ_lt_succ hj)
  rw [Nat.mod_add_mod, Nat.add_assoc, Nat.add_comm 1 j]
  exact hget

theorem takeTurns_none_iff {eligible : QueueConsumer -> Bool} {offset : Nat}
    {consumers : List QueueConsumer} {nextIdx : Nat}
    (hlt : nextIdx < consumers.length) :
    (takeTurns eligible offset consumers.length consumers nextIdx).2.2 = none <->
      forall c, c ∈ consumers -> (eligible c && c.hasRoom) = false := by
  constructor
  · intro hnone c hc
    rcases List.getElem?_of_mem hc with ⟨i, hget⟩
    have hi : i < consumers.length :=
      (List.getElem?_eq_some_iff.mp hget).choose
    have hplace : (nextIdx + (i + consumers.length - nextIdx) %
        consumers.length) % consumers.length = i := by
      rw [Nat.add_mod_mod, Nat.add_sub_cancel' (by omega),
        Nat.add_mod_right, Nat.mod_eq_of_lt hi]
    apply asked_of_takeTurns_none hlt hnone
      (Nat.mod_lt (i + consumers.length - nextIdx) (Nat.zero_lt_of_lt hlt))
    rw [hplace]
    exact hget
  · intro hbusy
    rcases takeTurns_cases eligible offset consumers.length consumers nextIdx
      with ⟨hnone, _⟩ | ⟨front, c, back, hsplit, heligible, hroom, _, _⟩
    · exact hnone
    · have hc := hbusy c (by rw [hsplit]; simp)
      rw [heligible, hroom] at hc
      cases hc

/-!
## The plain dispatcher
-/

structure Dispatcher where
  consumers : List QueueConsumer
  nextIdx : Nat
deriving DecidableEq

def newPlainDispatcher : Dispatcher where
  consumers := []
  nextIdx := 0

def removeFirst (id : Bytes) (consumers : List QueueConsumer) (nextIdx : Nat) :
    List QueueConsumer × Nat :=
  if consumers.any (fun c => c.id = id) then
    let rest := consumers.eraseP (fun c => c.id = id)
    (rest, if nextIdx ≥ rest.length ∧ rest.length > 0 then 0 else nextIdx)
  else (consumers, nextIdx)

def InTurn (consumers : List QueueConsumer) (nextIdx : Nat) : Prop :=
  nextIdx < consumers.length ∨ consumers = [] ∧ nextIdx = 0

theorem InTurn.lt {consumers : List QueueConsumer}
    (h : InTurn consumers nextIdx) (hne : ¬ consumers.length = 0) :
    nextIdx < consumers.length := by
  rcases h with hlt | ⟨hnil, _⟩
  · exact hlt
  · exact absurd (List.length_eq_zero_iff.mpr hnil) hne

theorem InTurn.removeFirst {cs : List QueueConsumer} (h : InTurn cs nextIdx)
    (id : Bytes) :
    InTurn (removeFirst id cs nextIdx).1 (removeFirst id cs nextIdx).2 := by
  unfold Queue.removeFirst
  by_cases hany : cs.any (fun c => c.id = id) = true
  · have hlength : (cs.eraseP (fun c => c.id = id)).length =
        cs.length - 1 := by
      rcases List.any_eq_true.mp hany with ⟨c, hc, hid⟩
      exact List.length_eraseP_of_mem hc hid
    have hlt : nextIdx < cs.length := by
      apply h.lt
      intro hzero
      rw [List.length_eq_zero_iff.mp hzero] at hany
      cases hany
    rw [if_pos hany]
    simp only
    by_cases hlast : nextIdx ≥
        (cs.eraseP (fun c => c.id = id)).length ∧
        (cs.eraseP (fun c => c.id = id)).length > 0
    · rw [if_pos hlast]
      exact Or.inl hlast.right
    rw [if_neg hlast]
    by_cases hnil : cs.eraseP (fun c => c.id = id) = []
    · rw [hnil, List.length_nil] at hlength
      exact Or.inr ⟨hnil, by omega⟩
    · have hpos := List.length_pos_iff.mpr hnil
      exact Or.inl (by omega)
  · rw [if_neg hany]
    exact h

theorem sublist_removeFirst (id : Bytes) (cs : List QueueConsumer)
    (nextIdx : Nat) : (removeFirst id cs nextIdx).1.Sublist cs := by
  unfold Queue.removeFirst
  split
  · exact List.eraseP_sublist
  · exact List.Sublist.refl cs

namespace Dispatcher

def dispatch (d : Dispatcher) (offset : Nat) (_env : Envelope) :
    Dispatcher × Except DispatchError Bytes :=
  if d.consumers.length = 0 then (d, .error .noConsumers)
  else
    let r := takeTurns (fun _ => true) offset d.consumers.length d.consumers
      d.nextIdx
    ({ d with consumers := r.1, nextIdx := r.2.1 },
      match r.2.2 with
      | none => .error .allConsumersBusy
      | some id => .ok id)

def addConsumer (d : Dispatcher) (c : QueueConsumer) : Dispatcher :=
  { d with consumers := d.consumers ++ [c] }

def removeConsumer (d : Dispatcher) (id : Bytes) : Dispatcher :=
  let r := removeFirst id d.consumers d.nextIdx
  { d with consumers := r.1, nextIdx := r.2 }

end Dispatcher

/-!
## The dispatcher with priorities
-/

def maxPriorityLevels : Nat := 10

/--
The messages that wait at each priority, the consumers, the highest priority
that each of them handles, and the one whose turn is next.
-/
structure PriorityDispatcher where
  levels : List (List Nat)
  consumers : List QueueConsumer
  consumerMaxP : List (Bytes × Nat)
  nextIdx : Nat
deriving DecidableEq

def newPriorityDispatcher : PriorityDispatcher where
  levels := List.replicate maxPriorityLevels []
  consumers := []
  consumerMaxP := []
  nextIdx := 0

namespace PriorityDispatcher

def level (pd : PriorityDispatcher) (priority : Nat) : List Nat :=
  (pd.levels[priority]?).getD []

def handles (pd : PriorityDispatcher) (priority : Nat) (c : QueueConsumer) :
    Bool :=
  let maxP := (getEntry c.id pd.consumerMaxP).getD 0
  let maxP := if maxP = 0 then 9 else maxP
  priority ≤ maxP

def tryDispatchToConsumer (pd : PriorityDispatcher) (offset priority : Nat) :
    PriorityDispatcher × Bytes :=
  let r := takeTurns (pd.handles priority) offset pd.consumers.length
    pd.consumers pd.nextIdx
  ({ pd with consumers := r.1, nextIdx := r.2.1 }, r.2.2.getD [])

/-- Hand out waiting messages; returns those that go on waiting. -/
def flushLevel (priority : Nat) :
    List Nat -> PriorityDispatcher -> PriorityDispatcher × List Nat
  | [], pd => (pd, [])
  | offset :: queue, pd =>
    let r := pd.tryDispatchToConsumer offset priority
    let rest := flushLevel priority queue r.1
    if r.2 ≠ [] then rest else (rest.1, offset :: rest.2)

def flushLevels : Nat -> PriorityDispatcher -> PriorityDispatcher
  | 0, pd => pd
  | priority + 1, pd =>
    let r := flushLevel priority (pd.level priority) pd
    flushLevels priority { r.1 with levels := r.1.levels.set priority r.2 }

def flushQueued (pd : PriorityDispatcher) : PriorityDispatcher :=
  flushLevels maxPriorityLevels pd

def priorityOf (env : Envelope) : Nat :=
  if env.priority > 9 then 9 else env.priority.toNat

def dispatch (pd : PriorityDispatcher) (offset : Nat) (env : Envelope) :
    PriorityDispatcher × Except DispatchError Bytes :=
  if pd.consumers.length = 0 then (pd, .error .noConsumers)
  else
    let priority := priorityOf env
    let r := pd.tryDispatchToConsumer offset priority
    if r.2 ≠ [] then (r.1, .ok r.2)
    else
      let r := r.1.flushQueued.tryDispatchToConsumer offset priority
      if r.2 ≠ [] then (r.1, .ok r.2)
      else
        ({ r.1 with
            levels := r.1.levels.set priority
              (r.1.level priority ++ [offset]) },
          .error .allConsumersBusy)

def register (pd : PriorityDispatcher) (c : QueueConsumer) :
    PriorityDispatcher :=
  { pd with
    consumers := pd.consumers ++ [c]
    consumerMaxP :=
      match getEntry c.id pd.consumerMaxP with
      | none => setEntry c.id 9 pd.consumerMaxP
      | some _ => pd.consumerMaxP }

def addConsumer (pd : PriorityDispatcher) (c : QueueConsumer) :
    PriorityDispatcher :=
  (pd.register c).flushQueued

def removeConsumer (pd : PriorityDispatcher) (id : Bytes) :
    PriorityDispatcher :=
  let r := removeFirst id pd.consumers pd.nextIdx
  { pd with
    consumers := r.1
    nextIdx := r.2
    consumerMaxP := deleteEntry id pd.consumerMaxP }

end PriorityDispatcher

end Queue
end ChimeraMQ
