import ChimeraMQ.Queue.AckTracker
import ChimeraMQ.Queue.Dispatcher

/-!
# The queue engine

The queues of all topics.  A queue has its consumers in a dispatcher, a tracker
of what they were given, and a scheduler of delayed messages once there is one.
Every consumer that is added is an object of its own.  The report of the depth
of a queue is left out.
-/

namespace ChimeraMQ
namespace Queue

open Foundation
open Message

inductive AnyDispatcher where
  | plain (d : Dispatcher)
  | priority (pd : PriorityDispatcher)
deriving DecidableEq

namespace AnyDispatcher

def consumers : AnyDispatcher -> List QueueConsumer
  | .plain d => d.consumers
  | .priority pd => pd.consumers

def dispatch (offset : Nat) (env : Envelope) :
    AnyDispatcher -> AnyDispatcher × Except DispatchError Bytes
  | .plain d => ((.plain (d.dispatch offset env).1), (d.dispatch offset env).2)
  | .priority pd =>
    ((.priority (pd.dispatch offset env).1), (pd.dispatch offset env).2)

def addConsumer (c : QueueConsumer) : AnyDispatcher -> AnyDispatcher
  | .plain d => .plain (d.addConsumer c)
  | .priority pd => .priority (pd.addConsumer c)

def removeConsumer (id : Bytes) : AnyDispatcher -> AnyDispatcher
  | .plain d => .plain (d.removeConsumer id)
  | .priority pd => .priority (pd.removeConsumer id)

end AnyDispatcher

/-!
## Delayed messages
-/

structure DelayScheduler where
  heap : List (Int × Envelope)
  readyCh : List Envelope
deriving DecidableEq

def readyCap : Nat := 10000

def newDelayScheduler : DelayScheduler where
  heap := []
  readyCh := []

namespace DelayScheduler

def schedule (ds : DelayScheduler) (env : Envelope) : DelayScheduler :=
  { ds with heap := ds.heap ++ [(env.deliverAt.toInt, env)] }

/--
Move a message whose time has come to the channel; a full channel drops it.  It
is one of those that are due first, given by its place in the heap.
-/
def promote (ds : DelayScheduler) (i : Nat) (now : Int) :
    Option DelayScheduler :=
  match ds.heap[i]? with
  | none => none
  | some (deliverAt, env) =>
  if deliverAt < now ∧ ds.heap.all (fun e => deliverAt ≤ e.1) then
    some
      { heap := ds.heap.eraseIdx i
        readyCh :=
          if ds.readyCh.length < readyCap then ds.readyCh ++ [env]
          else ds.readyCh }
  else none

end DelayScheduler

/-!
## Queues
-/

structure QueueState where
  consumers : List Bytes
  dispatcher : AnyDispatcher
  ackTracker : AckTracker
  delayHeap : Option DelayScheduler
deriving DecidableEq

def visibilityTimeout : Int := 30 * 1000000000

namespace QueueState

def addConsumer (q : QueueState) (c : QueueConsumer) : QueueState :=
  { q with
    consumers := if c.id ∈ q.consumers then q.consumers
      else q.consumers ++ [c.id]
    dispatcher := q.dispatcher.addConsumer c }

def removeConsumer (q : QueueState) (id : Bytes) : QueueState :=
  { q with
    consumers := q.consumers.filter (fun c => c ≠ id)
    dispatcher := q.dispatcher.removeConsumer id }

def dispatch (q : QueueState) (offset : Nat) (env : Envelope) (now : Int) :
    QueueState × Except DispatchError Bytes :=
  let r := q.dispatcher.dispatch offset env
  match r.2 with
  | .error err => ({ q with dispatcher := r.1 }, .error err)
  | .ok id =>
  ({ q with
      dispatcher := r.1
      ackTracker := q.ackTracker.track offset id env.deliverCount.toNat
        env.maxRetries.toNat now },
    .ok id)

def scheduleDelayed (q : QueueState) (env : Envelope) : QueueState :=
  { q with
    delayHeap := some ((q.delayHeap.getD newDelayScheduler).schedule env) }

def promote (q : QueueState) (i : Nat) (now : Int) : Option QueueState :=
  match q.delayHeap with
  | none => none
  | some ds => (ds.promote i now).map (fun ds => { q with delayHeap := some ds })

/--
Take a promoted message and dispatch it under its sequence number; without
consumers it is scheduled again.
-/
def drainDelayQueue (q : QueueState) (now : Int) : Option QueueState :=
  match q.delayHeap with
  | none => none
  | some ds =>
  match ds.readyCh with
  | [] => none
  | env :: rest =>
  let q := { q with delayHeap := some { ds with readyCh := rest } }
  if q.consumers.length = 0 then
    some (q.scheduleDelayed { env with deliverAt := 1 })
  else
    let env := { env with deliverAt := 0 }
    some (q.dispatch env.sequence.toNat env now).1

end QueueState

/-!
## The engine
-/

structure QueueEngine where
  queues : List (Bytes × QueueState)
  priorityEnabled : Bool

def newQueueEngine (priorityEnabled : Bool) : QueueEngine where
  queues := []
  priorityEnabled := priorityEnabled

namespace QueueEngine

def newDispatcher (e : QueueEngine) : AnyDispatcher :=
  if e.priorityEnabled then .priority newPriorityDispatcher
  else .plain newPlainDispatcher

def newQueueState (e : QueueEngine) : QueueState where
  consumers := []
  dispatcher := e.newDispatcher
  ackTracker := newAckTracker visibilityTimeout
  delayHeap := none

def queue? (e : QueueEngine) (topic : Bytes) : Option QueueState :=
  getEntry topic e.queues

def putQueue (e : QueueEngine) (topic : Bytes) (q : QueueState) :
    QueueEngine :=
  { e with queues := setEntry topic q e.queues }

def addConsumer (e : QueueEngine) (topic : Bytes) (c : QueueConsumer) :
    QueueEngine :=
  e.putQueue topic (((e.queue? topic).getD e.newQueueState).addConsumer c)

def removeConsumer (e : QueueEngine) (topic : Bytes) (id : Bytes) :
    QueueEngine :=
  match e.queue? topic with
  | none => e
  | some q => e.putQueue topic (q.removeConsumer id)

def tryDispatch (e : QueueEngine) (topic : Bytes) (_partID offset : Nat)
    (env : Envelope) (now : Int) : QueueEngine × Except DispatchError Bytes :=
  match e.queue? topic with
  | none => (e, .error .noConsumers)
  | some q =>
    let r := q.dispatch offset env now
    (e.putQueue topic r.1, r.2)

def handleAck (e : QueueEngine) (topic : Bytes) (offset : Nat) :
    QueueEngine × Bool :=
  match e.queue? topic with
  | none => (e, false)
  | some q =>
    let r := q.ackTracker.ack offset
    (e.putQueue topic { q with ackTracker := r.1 }, r.2)

def handleNack (e : QueueEngine) (topic : Bytes) (offset : Nat) :
    QueueEngine × Bool × Nat :=
  match e.queue? topic with
  | none => (e, false, 0)
  | some q =>
    let r := q.ackTracker.nack offset
    (e.putQueue topic { q with ackTracker := r.1 }, r.2)

def scheduleDelayed (e : QueueEngine) (topic : Bytes) (env : Envelope) :
    QueueEngine :=
  e.putQueue topic
    (((e.queue? topic).getD e.newQueueState).scheduleDelayed env)

def onQueue (e : QueueEngine) (topic : Bytes)
    (f : QueueState -> Option QueueState) : Option QueueEngine :=
  match e.queue? topic with
  | none => none
  | some q => (f q).map (e.putQueue topic)

end QueueEngine

inductive QueueAction where
  | addConsumer (topic : Bytes) (c : QueueConsumer)
  | removeConsumer (topic id : Bytes)
  | tryDispatch (topic : Bytes) (partID offset : Nat) (env : Envelope)
      (now : Int)
  | handleAck (topic : Bytes) (offset : Nat)
  | handleNack (topic : Bytes) (offset : Nat)
  | visibilityTimeout (topic : Bytes) (order : MapOrder (Nat × PendingMsg))
      (now : Int)
  | receive (topic : Bytes)
  | scheduleDelayed (topic : Bytes) (env : Envelope)
  | promote (topic : Bytes) (i : Nat) (now : Int)
  | drainDelayQueue (topic : Bytes) (now : Int)

def QueueEngine.step (e : QueueEngine) : QueueAction -> Option QueueEngine
  | .addConsumer topic c => some (e.addConsumer topic c)
  | .removeConsumer topic id => some (e.removeConsumer topic id)
  | .tryDispatch topic partID offset env now =>
    some (e.tryDispatch topic partID offset env now).1
  | .handleAck topic offset => some (e.handleAck topic offset).1
  | .handleNack topic offset => some (e.handleNack topic offset).1
  | .visibilityTimeout topic order now =>
    e.onQueue topic (fun q =>
      some { q with
        ackTracker := q.ackTracker.visibilityTimeout order now })
  | .receive topic =>
    e.onQueue topic (fun q =>
      q.ackTracker.receive.map (fun r => { q with ackTracker := r.1 }))
  | .scheduleDelayed topic env => some (e.scheduleDelayed topic env)
  | .promote topic i now => e.onQueue topic (fun q => q.promote i now)
  | .drainDelayQueue topic now =>
    e.onQueue topic (fun q => q.drainDelayQueue now)

theorem QueueState.dispatch_spec (q : QueueState) (offset : Nat)
    (env : Envelope) (now : Int) :
    (exists err, (q.dispatcher.dispatch offset env).2 = .error err ∧
      q.dispatch offset env now =
        ({ q with dispatcher := (q.dispatcher.dispatch offset env).1 },
          .error err)) ∨
    exists id, (q.dispatcher.dispatch offset env).2 = .ok id ∧
      q.dispatch offset env now =
        ({ q with
            dispatcher := (q.dispatcher.dispatch offset env).1
            ackTracker := q.ackTracker.track offset id
              env.deliverCount.toNat env.maxRetries.toNat now },
          .ok id) := by
  unfold dispatch
  cases hr : (q.dispatcher.dispatch offset env).2 with
  | error err => exact Or.inl ⟨err, rfl, by simp only [hr]⟩
  | ok id => exact Or.inr ⟨id, rfl, by simp only [hr]⟩

/-!
## What a step does
-/

inductive Moves (a : QueueAction) (q : QueueState) : QueueState -> Prop where
  | addConsumer (topic : Bytes) (c : QueueConsumer)
      (h : a = .addConsumer topic c) : Moves a q (q.addConsumer c)
  | removeConsumer (id : Bytes) : Moves a q (q.removeConsumer id)
  | dispatch (ds : Option DelayScheduler) (offset : Nat) (env : Envelope)
      (now : Int) :
      Moves a q (QueueState.dispatch { q with delayHeap := ds } offset env
        now).1
  | track (b : AckAction) (tracker : AckTracker)
      (h : q.ackTracker.step b = some tracker) :
      Moves a q { q with ackTracker := tracker }
  | delay (ds : Option DelayScheduler) : Moves a q { q with delayHeap := ds }

namespace QueueEngine

variable {e e' : QueueEngine} {a : QueueAction} {topic : Bytes}

theorem queue?_putQueue (e : QueueEngine) (topic other : Bytes)
    (q : QueueState) :
    (e.putQueue other q).queue? topic =
      if topic = other then some q else e.queue? topic := by
  unfold QueueEngine.putQueue QueueEngine.queue?
  by_cases hsame : topic = other
  · rw [if_pos hsame, hsame, getEntry_setEntry]
  · rw [if_neg hsame, getEntry_setEntry_ne hsame]

theorem moves_found {q q' : QueueState} (hq : e.queue? topic = some q)
    (h : Moves a q q') :
    exists other q0, e.putQueue topic q' = e.putQueue other q0 ∧
      Moves a ((e.queue? other).getD e.newQueueState) q0 := by
  refine ⟨topic, q', rfl, ?_⟩
  rw [hq]
  exact h

theorem moves_onQueue {f : QueueState -> Option QueueState}
    (hf : forall q q', f q = some q' -> Moves a q q')
    (h : e.onQueue topic f = some e') :
    exists other q0, e' = e.putQueue other q0 ∧
      Moves a ((e.queue? other).getD e.newQueueState) q0 := by
  unfold QueueEngine.onQueue at h
  cases hq : e.queue? topic with
  | none =>
    rw [hq] at h
    cases h
  | some q =>
  simp only [hq] at h
  rcases Option.map_eq_some_iff.mp h with ⟨q', hq', he⟩
  rw [← he]
  exact moves_found hq (hf q q' hq')

theorem moves_drainDelayQueue {q q' : QueueState} {now : Int}
    (h : q.drainDelayQueue now = some q') : Moves a q q' := by
  unfold QueueState.drainDelayQueue at h
  cases hds : q.delayHeap with
  | none =>
    rw [hds] at h
    cases h
  | some ds =>
  cases hready : ds.readyCh with
  | nil =>
    simp only [hds, hready] at h
    cases h
  | cons env rest =>
  simp only [hds, hready] at h
  by_cases hnone : q.consumers.length = 0
  · rw [if_pos hnone, Option.some.injEq] at h
    rw [← h]
    exact .delay _
  · rw [if_neg hnone, Option.some.injEq] at h
    rw [← h]
    exact .dispatch (some { ds with readyCh := rest }) _ _ now

/-- An action changes one queue, or makes it. -/
theorem step_moves (h : e.step a = some e') :
    e' = e ∨ exists topic q, e' = e.putQueue topic q ∧
      Moves a ((e.queue? topic).getD e.newQueueState) q := by
  cases a with
  | addConsumer topic c =>
    cases h
    exact Or.inr ⟨topic, _, rfl, .addConsumer topic c rfl⟩
  | removeConsumer topic id =>
    cases h
    unfold QueueEngine.removeConsumer
    cases hq : e.queue? topic with
    | none => exact Or.inl rfl
    | some q => exact Or.inr (moves_found hq (.removeConsumer id))
  | tryDispatch topic partID offset env now =>
    cases h
    unfold QueueEngine.tryDispatch
    cases hq : e.queue? topic with
    | none => exact Or.inl rfl
    | some q =>
      exact Or.inr (moves_found hq (.dispatch q.delayHeap offset env now))
  | handleAck topic offset =>
    cases h
    unfold QueueEngine.handleAck
    cases hq : e.queue? topic with
    | none => exact Or.inl rfl
    | some q => exact Or.inr (moves_found hq (.track (.ack offset) _ rfl))
  | handleNack topic offset =>
    cases h
    unfold QueueEngine.handleNack
    cases hq : e.queue? topic with
    | none => exact Or.inl rfl
    | some q => exact Or.inr (moves_found hq (.track (.nack offset) _ rfl))
  | visibilityTimeout topic order now =>
    refine Or.inr (moves_onQueue ?_ h)
    intro q q' hq
    cases hq
    exact .track (.visibilityTimeout order now) _ rfl
  | receive topic =>
    refine Or.inr (moves_onQueue ?_ h)
    intro q q' hq
    rcases Option.map_eq_some_iff.mp hq with ⟨r, hr, hr1⟩
    rw [← hr1]
    refine .track .receive _ ?_
    rw [AckTracker.step, hr]
    rfl
  | scheduleDelayed topic env =>
    cases h
    exact Or.inr ⟨topic, _, rfl, .delay _⟩
  | promote topic i now =>
    refine Or.inr (moves_onQueue ?_ h)
    intro q q' hq
    unfold QueueState.promote at hq
    cases hds : q.delayHeap with
    | none =>
      rw [hds] at hq
      cases hq
    | some ds =>
    simp only [hds] at hq
    rcases Option.map_eq_some_iff.mp hq with ⟨ds', _, hds'⟩
    rw [← hds']
    exact .delay _
  | drainDelayQueue topic now =>
    refine Or.inr (moves_onQueue ?_ h)
    intro q q' hq
    exact moves_drainDelayQueue hq

end QueueEngine

end Queue
end ChimeraMQ
