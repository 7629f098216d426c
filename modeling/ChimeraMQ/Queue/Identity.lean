import ChimeraMQ.Queue.Engine
import ChimeraMQ.Queue.Ledger

/-!
# The message that is acknowledged

A topic with its partitions and its queue.  The tracker knows a message by its
offset, and the ledger beside it knows which message of which partition is
meant.
-/

namespace ChimeraMQ
namespace Queue

open Foundation
open Message

inductive MessageID where
  | stored (partID offset : Nat)
  | delayed (env : Envelope)
deriving DecidableEq

/--
A topic in queue mode: the next offsets of its partitions, its queue once there
is one, and the places of the messages that were handed out.
-/
structure TopicState where
  priorityEnabled : Bool
  nextOffset : Nat -> Nat
  queue : Option QueueState
  ledger : Ledger MessageID

namespace TopicState

def start (priorityEnabled : Bool) : TopicState where
  priorityEnabled := priorityEnabled
  nextOffset := fun _ => 0
  queue := none
  ledger := .empty

def queueState (s : TopicState) : QueueState :=
  s.queue.getD (newQueueEngine s.priorityEnabled).newQueueState

def recorded (s : TopicState) (q : QueueState) : Recorded MessageID where
  tracker := q.ackTracker
  ledger := s.ledger

def record (s : TopicState) (q : QueueState) (r : Recorded MessageID) :
    TopicState :=
  { s with queue := some { q with ackTracker := r.tracker }, ledger := r.ledger }

def dispatch (s : TopicState) (q : QueueState) (offset : Nat) (env : Envelope)
    (now : Int) (m : MessageID) : TopicState :=
  let r := q.dispatcher.dispatch offset env
  let q' := { q with dispatcher := r.1 }
  match r.2 with
  | .error _ => { s with queue := some q' }
  | .ok id =>
    s.record q' ((s.recorded q).track offset id env.deliverCount.toNat
      env.maxRetries.toNat now m)

/--
A delayed message is scheduled; any other is stored at the next offset, which
becomes its sequence number, and dispatched.
-/
def publish (s : TopicState) (partID : Nat) (env : Envelope) (now : Int) :
    TopicState :=
  if 0 < env.deliverAt ∧ now < env.deliverAt.toInt then
    { s with queue := some (s.queueState.scheduleDelayed env) }
  else
    let offset := s.nextOffset partID
    let env := { env with sequence := UInt64.ofNat offset }
    let s := { s with
      nextOffset := fun p => if p = partID then offset + 1 else s.nextOffset p }
    match s.queue with
    | none => s
    | some q => s.dispatch q offset env now (.stored partID offset)

def drainDelayQueue (s : TopicState) (now : Int) : Option TopicState :=
  match s.queue with
  | none => none
  | some q =>
  match q.delayHeap with
  | none => none
  | some ds =>
  match ds.readyCh with
  | [] => none
  | env :: rest =>
  let q := { q with delayHeap := some { ds with readyCh := rest } }
  if q.consumers.length = 0 then
    some { s with
      queue := some (q.scheduleDelayed { env with deliverAt := 1 }) }
  else
    let env := { env with deliverAt := 0 }
    some (s.dispatch q env.sequence.toNat env now (.delayed env))

def handleAck (s : TopicState) (_partID offset : Nat) : TopicState :=
  match s.queue with
  | none => s
  | some q => s.record q ((s.recorded q).ack offset)

def handleNack (s : TopicState) (_partID offset : Nat) : TopicState :=
  match s.queue with
  | none => s
  | some q => s.record q ((s.recorded q).nack offset)

end TopicState

inductive TopicAction where
  | addConsumer (c : QueueConsumer)
  | removeConsumer (id : Bytes)
  | publish (partID : Nat) (env : Envelope) (now : Int)
  | promote (i : Nat) (now : Int)
  | drainDelayQueue (now : Int)
  | handleAck (partID offset : Nat)
  | handleNack (partID offset : Nat)
  | visibilityTimeout (order : MapOrder (Nat × PendingMsg)) (now : Int)
  | receive

def TopicState.step (s : TopicState) : TopicAction -> Option TopicState
  | .addConsumer c =>
    some { s with queue := some (s.queueState.addConsumer c) }
  | .removeConsumer id =>
    some { s with queue := s.queue.map (fun q => q.removeConsumer id) }
  | .publish partID env now => some (s.publish partID env now)
  | .promote i now =>
    match s.queue with
    | none => none
    | some q => (q.promote i now).map (fun q => { s with queue := some q })
  | .drainDelayQueue now => s.drainDelayQueue now
  | .handleAck partID offset => some (s.handleAck partID offset)
  | .handleNack partID offset => some (s.handleNack partID offset)
  | .visibilityTimeout order now =>
    match s.queue with
    | none => none
    | some q =>
      some (s.record q ((s.recorded q).visibilityTimeout order now))
  | .receive =>
    match s.queue with
    | none => none
    | some q => (s.recorded q).receive.map (s.record q)

namespace TopicState

/-!
## The queue under the ledger
-/

def engine (s : TopicState) (topic : Bytes) : QueueEngine where
  queues := s.queue.toList.map (fun q => (topic, q))
  priorityEnabled := s.priorityEnabled

def queueAction (s : TopicState) (topic : Bytes) : TopicAction -> QueueAction
  | .addConsumer c => .addConsumer topic c
  | .removeConsumer id => .removeConsumer topic id
  | .publish partID env now =>
    if 0 < env.deliverAt ∧ now < env.deliverAt.toInt then
      .scheduleDelayed topic env
    else
      .tryDispatch topic partID (s.nextOffset partID)
        { env with sequence := UInt64.ofNat (s.nextOffset partID) } now
  | .promote i now => .promote topic i now
  | .drainDelayQueue now => .drainDelayQueue topic now
  | .handleAck _ offset => .handleAck topic offset
  | .handleNack _ offset => .handleNack topic offset
  | .visibilityTimeout order now => .visibilityTimeout topic order now
  | .receive => .receive topic

/-- The ledger has an entry for what the tracker holds, and no others. -/
def Matched (s : TopicState) : Prop :=
  match s.queue with
  | none => s.ledger = .empty
  | some q => (s.recorded q).Matched

theorem queue?_engine (s : TopicState) (topic : Bytes) :
    (s.engine topic).queue? topic = s.queue := by
  unfold engine QueueEngine.queue?
  cases s.queue with
  | none => rfl
  | some q => exact getEntry_cons_self topic q []

theorem putQueue_engine (s s' : TopicState) (topic : Bytes) (q : QueueState)
    (hqueue : s'.queue = some q)
    (hpriority : s'.priorityEnabled = s.priorityEnabled) :
    (s.engine topic).putQueue topic q = s'.engine topic := by
  unfold engine QueueEngine.putQueue
  rw [hqueue, hpriority]
  cases s.queue with
  | none => rfl
  | some q' => simp [setEntry]

theorem dispatch_queue (s : TopicState) (q : QueueState) (offset : Nat)
    (env : Envelope) (now : Int) (m : MessageID) :
    (s.dispatch q offset env now m).queue =
        some (q.dispatch offset env now).1 ∧
      (s.dispatch q offset env now m).priorityEnabled = s.priorityEnabled := by
  simp only [dispatch, QueueState.dispatch]
  cases (q.dispatcher.dispatch offset env).2 with
  | error err => exact ⟨rfl, rfl⟩
  | ok id => exact ⟨rfl, rfl⟩

variable {s s' : TopicState} {q q' : QueueState}

/-- What a step of the delay heap does to the topic. -/
theorem of_drainDelayQueue {now : Int}
    (hstep : s.drainDelayQueue now = some s') :
    exists q ds env rest, s.queue = some q ∧ q.delayHeap = some ds ∧
      ds.readyCh = env :: rest ∧
      s' = (if q.consumers.length = 0 then
          { s with queue := some (QueueState.scheduleDelayed
            { q with delayHeap := some { ds with readyCh := rest } }
            { env with deliverAt := 1 }) }
        else
          s.dispatch { q with delayHeap := some { ds with readyCh := rest } }
            env.sequence.toNat { env with deliverAt := 0 } now
            (.delayed { env with deliverAt := 0 })) := by
  unfold drainDelayQueue at hstep
  cases hqueue : s.queue with
  | none => simp [hqueue] at hstep
  | some q =>
  cases hheap : q.delayHeap with
  | none => simp [hqueue, hheap] at hstep
  | some ds =>
  cases hready : ds.readyCh with
  | nil => simp [hqueue, hheap, hready] at hstep
  | cons env rest =>
  refine ⟨q, ds, env, rest, rfl, hheap, hready, ?_⟩
  simp only [hqueue, hheap, hready] at hstep
  split at hstep
  · rename_i hnone
    rw [if_pos hnone]
    exact (Option.some.inj hstep).symm
  · rename_i hsome
    rw [if_neg hsome]
    exact (Option.some.inj hstep).symm

theorem onQueue_engine {f : QueueState -> Option QueueState} (topic : Bytes)
    (hqueue : s.queue = some q) (hf : f q = some q')
    (hnew : s'.queue = some q')
    (hpriority : s'.priorityEnabled = s.priorityEnabled) :
    (s.engine topic).onQueue topic f = some (s'.engine topic) := by
  unfold QueueEngine.onQueue
  rw [queue?_engine, hqueue]
  simp only [hf, Option.map_some]
  exact congrArg some (putQueue_engine s s' topic q' hnew hpriority)

theorem engine_removeConsumer (s : TopicState) (topic id : Bytes) :
    (s.engine topic).removeConsumer topic id = TopicState.engine
      { s with queue := s.queue.map (fun q => q.removeConsumer id) } topic := by
  unfold QueueEngine.removeConsumer
  rw [queue?_engine]
  cases hqueue : s.queue with
  | none =>
    unfold engine
    rw [hqueue]
    rfl
  | some q => exact putQueue_engine s _ topic _ rfl rfl

theorem engine_publish (s : TopicState) (topic : Bytes) (partID : Nat)
    (env : Envelope) (now : Int) :
    (s.engine topic).step (s.queueAction topic (.publish partID env now)) =
      some ((s.publish partID env now).engine topic) := by
  simp only [queueAction, publish]
  by_cases hdelayed : 0 < env.deliverAt ∧ now < env.deliverAt.toInt
  · rw [if_pos hdelayed, if_pos hdelayed]
    simp only [QueueEngine.step, QueueEngine.scheduleDelayed, queue?_engine]
    exact congrArg some (putQueue_engine s _ topic _ rfl rfl)
  rw [if_neg hdelayed, if_neg hdelayed]
  simp only [QueueEngine.step, QueueEngine.tryDispatch, queue?_engine]
  cases hqueue : s.queue with
  | none =>
    refine congrArg some ?_
    unfold engine
    rw [hqueue]
  | some q =>
  rcases dispatch_queue { s with
      nextOffset := fun p => if p = partID
        then s.nextOffset partID + 1 else s.nextOffset p } q
    (s.nextOffset partID)
    { env with sequence := UInt64.ofNat (s.nextOffset partID) } now
    (.stored partID (s.nextOffset partID)) with
    ⟨hnew, hpriority⟩
  rw [hqueue] at hnew hpriority
  exact congrArg some (putQueue_engine s _ topic _ hnew hpriority)

theorem engine_drainDelayQueue (topic : Bytes) {now : Int}
    (hstep : s.drainDelayQueue now = some s') :
    (s.engine topic).onQueue topic (fun q => q.drainDelayQueue now) =
      some (s'.engine topic) := by
  rcases of_drainDelayQueue hstep with
    ⟨q, ds, env, rest, hqueue, hheap, hready, hs'⟩
  subst hs'
  by_cases hnone : q.consumers.length = 0
  · have hdrain : q.drainDelayQueue now = some (QueueState.scheduleDelayed
        { q with delayHeap := some { ds with readyCh := rest } }
        { env with deliverAt := 1 }) := by
      simp only [QueueState.drainDelayQueue, hheap, hready]
      rw [if_pos hnone]
    rw [if_pos hnone]
    exact onQueue_engine topic hqueue hdrain rfl rfl
  rw [if_neg hnone]
  rcases dispatch_queue s
    { q with delayHeap := some { ds with readyCh := rest } }
    env.sequence.toNat { env with deliverAt := 0 } now
    (.delayed { env with deliverAt := 0 }) with ⟨hnew, hpriority⟩
  apply onQueue_engine topic hqueue ?_ hnew hpriority
  simp only [QueueState.drainDelayQueue, hheap, hready]
  rw [if_neg hnone]

theorem engine_handleAck (s : TopicState) (topic : Bytes)
    (partID offset : Nat) :
    ((s.engine topic).handleAck topic offset).1 =
      (s.handleAck partID offset).engine topic := by
  unfold QueueEngine.handleAck handleAck
  rw [queue?_engine]
  cases hqueue : s.queue with
  | none => rfl
  | some q => exact putQueue_engine s _ topic _ rfl rfl

theorem engine_handleNack (s : TopicState) (topic : Bytes)
    (partID offset : Nat) :
    ((s.engine topic).handleNack topic offset).1 =
      (s.handleNack partID offset).engine topic := by
  unfold QueueEngine.handleNack handleNack
  rw [queue?_engine]
  cases hqueue : s.queue with
  | none => rfl
  | some q =>
  refine putQueue_engine s _ topic _ ?_ rfl
  simp only [record, Recorded.tracker_nack, recorded]

/-- The ledger does not change what the engine does. -/
theorem engine_step {a : TopicAction} (topic : Bytes)
    (hstep : s.step a = some s') :
    (s.engine topic).step (s.queueAction topic a) =
      some (s'.engine topic) := by
  cases a with
  | addConsumer c =>
    cases hstep
    simp only [queueAction, QueueEngine.step, QueueEngine.addConsumer,
      queue?_engine]
    exact congrArg some (putQueue_engine s _ topic _ rfl rfl)
  | removeConsumer id =>
    cases hstep
    exact congrArg some (s.engine_removeConsumer topic id)
  | publish partID env now =>
    cases hstep
    exact s.engine_publish topic partID env now
  | drainDelayQueue now => exact engine_drainDelayQueue topic hstep
  | handleAck partID offset =>
    cases hstep
    exact congrArg some (s.engine_handleAck topic partID offset)
  | handleNack partID offset =>
    cases hstep
    exact congrArg some (s.engine_handleNack topic partID offset)
  | promote i now =>
    simp only [TopicState.step] at hstep
    split at hstep
    · cases hstep
    rename_i q hqueue
    rcases Option.map_eq_some_iff.mp hstep with ⟨q', hq', hs'⟩
    exact onQueue_engine topic hqueue hq' (hs' ▸ rfl) (hs' ▸ rfl)
  | visibilityTimeout order now =>
    simp only [TopicState.step] at hstep
    split at hstep
    · cases hstep
    rename_i q hqueue
    cases hstep
    refine onQueue_engine topic hqueue rfl ?_ rfl
    simp only [record, Recorded.tracker_visibilityTimeout, recorded]
  | receive =>
  simp only [TopicState.step] at hstep
  split at hstep
  · cases hstep
  rename_i q hqueue
  rcases Option.map_eq_some_iff.mp hstep with ⟨r, hr, hs'⟩
  rcases Recorded.tracker_receive hr with ⟨offset, hreceive⟩
  replace hreceive : q.ackTracker.receive = some (r.tracker, offset) :=
    hreceive
  subst hs'
  exact onQueue_engine topic hqueue (congrArg (Option.map _) hreceive) rfl
    rfl

/-!
## Outcomes
-/

structure Outcome where
  pending : List (Nat × Option PendingMsg)
  acked : Nat
  deadLettered : Nat
  queued : Nat
  received : Nat
  lost : Nat
deriving DecidableEq

def outcome (s : TopicState) (m : MessageID) : Outcome where
  pending := (s.ledger.pending.filter (fun e => e.2 = m)).map
    (fun e => (e.1, s.queue.bind
      (fun q => getEntry e.1 q.ackTracker.pending)))
  acked := s.ledger.acked.count m
  deadLettered := s.ledger.deadLettered.count m
  queued := (s.ledger.queued.map Prod.snd).count m
  received := s.ledger.received.count m
  lost := s.ledger.lost.count m

def Isolated (s s' : TopicState) (m : MessageID) : Prop :=
  forall other, other ≠ m -> s'.outcome other = s.outcome other

/-- Nothing but the message itself is pending under its offset. -/
def OwnPending (s : TopicState) (partID offset : Nat) : Prop :=
  forall m, m ∈ getEntry offset s.ledger.pending -> m = .stored partID offset

instance (s : TopicState) (partID offset : Nat) :
    Decidable (s.OwnPending partID offset) :=
  inferInstanceAs (Decidable (forall m, m ∈ getEntry offset s.ledger.pending ->
    m = .stored partID offset))

/--
A step that takes what is pending under an offset out of the tracker and puts
it in one other place of the ledger.
-/
structure Moves (s s' : TopicState) (offset : Nat) : Prop where
  nodup : (s.ledger.pending.map Prod.fst).Nodup
  pending : s'.ledger.pending = deleteEntry offset s.ledger.pending
  tracker : forall o, o ≠ offset ->
    s'.queue.bind (fun q => getEntry o q.ackTracker.pending) =
      s.queue.bind (fun q => getEntry o q.ackTracker.pending)
  places : forall m, m ∉ s.ledger.at? offset ->
    s'.ledger.acked.count m = s.ledger.acked.count m ∧
      s'.ledger.deadLettered.count m = s.ledger.deadLettered.count m ∧
      (s'.ledger.queued.map Prod.snd).count m =
        (s.ledger.queued.map Prod.snd).count m ∧
      s'.ledger.received.count m = s.ledger.received.count m ∧
      s'.ledger.lost.count m = s.ledger.lost.count m

theorem count_append_of_not_mem {α : Type} [DecidableEq α] {m : α}
    {xs ys : List α} (h : m ∉ xs) : (xs ++ ys).count m = ys.count m := by
  rw [List.count_append, List.count_eq_zero_of_not_mem h, Nat.zero_add]

theorem Moves.isolated_iff {partID offset : Nat}
    (h : Moves s s' offset) :
    Isolated s s' (.stored partID offset) <-> s.OwnPending partID offset := by
  constructor
  · intro hisolated m hm
    by_contra hother
    have hsame := congrArg (fun o => o.pending.map Prod.fst)
      (hisolated m hother)
    have hin : offset ∈ (s.outcome m).pending.map Prod.fst := by
      simp only [outcome, List.map_map]
      apply List.mem_map.mpr
      refine ⟨(offset, m), List.mem_filter.mpr ⟨?_, ?_⟩, rfl⟩
      · exact mem_of_getEntry hm
      · exact decide_eq_true rfl
    rw [← hsame] at hin
    simp only [outcome, h.pending, List.map_map] at hin
    rcases List.mem_map.mp hin with ⟨e, he, hkey⟩
    exact (mem_deleteEntry.mp (List.mem_filter.mp he).left).right hkey
  intro hown m hother
  have hnot : m ∉ s.ledger.at? offset := by
    intro hmem
    apply hother
    exact hown m (Option.mem_toList.mp hmem)
  rcases h.places m hnot with ⟨hacked, hdead, hqueued, hreceived, hlost⟩
  have hkeys : forall e, e ∈ s.ledger.pending -> e.2 = m ->
      e.1 ≠ offset := by
    intro e he htag hkey
    apply hother
    apply hown m
    rw [← hkey, ← htag]
    exact getEntry_of_mem h.nodup he
  have hkept : (s'.ledger.pending.filter (fun e => e.2 = m)) =
      s.ledger.pending.filter (fun e => e.2 = m) := by
    rw [h.pending, deleteEntry, List.filter_filter]
    apply List.filter_congr
    intro e he
    by_cases htag : e.2 = m
    · simp [htag, hkeys e he htag]
    · simp [htag]
  unfold outcome
  rw [hkept, hacked, hdead, hqueued, hreceived, hlost]
  congr 1
  apply List.map_congr_left
  intro e he
  rcases List.mem_filter.mp he with ⟨hin, htag⟩
  rw [h.tracker e.1 (hkeys e hin (of_decide_eq_true htag))]

/-!
## Steps
-/

theorem moves_ack (hqueue : s.queue = some q) (h : (s.recorded q).Matched)
    (offset : Nat) :
    Moves s (s.record q ((s.recorded q).ack offset)) offset := by
  constructor
  · exact h.nodup_ledger
  · rfl
  · intro o ho
    simp only [record, hqueue, Option.bind_some, Recorded.ack, recorded,
      AckTracker.pending_ack]
    exact getEntry_deleteEntry_ne ho _
  · intro m hm
    exact ⟨count_append_of_not_mem hm, rfl, rfl, rfl, rfl⟩

theorem moves_nack (hqueue : s.queue = some q) (h : (s.recorded q).Matched)
    (offset : Nat) :
    Moves s (s.record q ((s.recorded q).nack offset)) offset := by
  have htracker : forall o, o ≠ offset ->
      (s.record q ((s.recorded q).nack offset)).queue.bind
          (fun q => getEntry o q.ackTracker.pending) =
        s.queue.bind (fun q => getEntry o q.ackTracker.pending) := by
    intro o ho
    simp only [record, hqueue, Option.bind_some, Recorded.tracker_nack,
      recorded, AckTracker.pending_nack]
    exact getEntry_deleteEntry_ne ho _
  have hnone := h.at?_eq_nil_iff offset
  unfold Recorded.nack at htracker ⊢
  cases hget : getEntry offset (s.recorded q).tracker.pending with
  | none =>
    simp only [hget] at htracker
    have hempty : getEntry offset s.ledger.pending = none :=
      Option.toList_eq_nil_iff.mp (hnone.mpr hget)
    exact ⟨h.nodup_ledger,
      (deleteEntry_of_not_mem (getEntry_eq_none_iff.mp hempty)).symm,
      htracker, fun _ _ => ⟨rfl, rfl, rfl, rfl, rfl⟩⟩
  | some msg =>
  by_cases hlast : AckTracker.exhausted msg = true
  · simp only [hget, hlast, if_true] at htracker ⊢
    exact ⟨h.nodup_ledger, rfl, htracker,
      fun m hm => ⟨rfl, count_append_of_not_mem hm, rfl, rfl, rfl⟩⟩
  simp only [hget, hlast, Bool.false_eq_true, if_false] at htracker ⊢
  unfold Recorded.release at htracker ⊢
  by_cases hroom : (s.recorded q).tracker.hasRoom = true
  · simp only [hroom, if_true] at htracker ⊢
    refine ⟨h.nodup_ledger, rfl, htracker, ?_⟩
    intro m hm
    refine ⟨rfl, rfl, ?_, rfl, rfl⟩
    simp only [record, recorded, List.map_append,
      Recorded.map_snd_tagged]
    rw [List.count_append, List.count_eq_zero_of_not_mem hm,
      Nat.add_zero]
  · simp only [hroom, Bool.false_eq_true, if_false] at htracker ⊢
    exact ⟨h.nodup_ledger, rfl, htracker,
      fun m hm => ⟨rfl, rfl, rfl, rfl, count_append_of_not_mem hm⟩⟩

/-- An acknowledgement or a rejection leaves all other messages alone. -/
def IsolatedStep (s : TopicState) (a : TopicAction) : Prop :=
  forall s', s.step a = some s' ->
    match a with
    | .handleAck partID offset => Isolated s s' (.stored partID offset)
    | .handleNack partID offset => Isolated s s' (.stored partID offset)
    | _ => True

def OwnStep (s : TopicState) : TopicAction -> Prop
  | .handleAck partID offset => s.OwnPending partID offset
  | .handleNack partID offset => s.OwnPending partID offset
  | _ => True

instance (s : TopicState) (a : TopicAction) : Decidable (s.OwnStep a) :=
  match a with
  | .handleAck partID offset =>
    inferInstanceAs (Decidable (s.OwnPending partID offset))
  | .handleNack partID offset =>
    inferInstanceAs (Decidable (s.OwnPending partID offset))
  | .addConsumer _ => inferInstanceAs (Decidable True)
  | .removeConsumer _ => inferInstanceAs (Decidable True)
  | .publish _ _ _ => inferInstanceAs (Decidable True)
  | .promote _ _ => inferInstanceAs (Decidable True)
  | .drainDelayQueue _ => inferInstanceAs (Decidable True)
  | .visibilityTimeout _ _ => inferInstanceAs (Decidable True)
  | .receive => inferInstanceAs (Decidable True)

theorem isolated_of_no_queue (h : s.Matched) (hqueue : s.queue = none)
    (partID offset : Nat) :
    Isolated s s (.stored partID offset) <-> s.OwnPending partID offset := by
  unfold Matched at h
  rw [hqueue] at h
  constructor
  · intro _ m hm
    rw [h] at hm
    cases hm
  · intro _ other _
    rfl

theorem isolatedStep_iff (h : s.Matched) (a : TopicAction) :
    IsolatedStep s a <-> OwnStep s a := by
  unfold IsolatedStep OwnStep
  cases a with
  | handleAck partID offset =>
    simp only [TopicState.step, Option.some.injEq, forall_eq', handleAck]
    cases hqueue : s.queue with
    | none => exact isolated_of_no_queue h hqueue partID offset
    | some q =>
    unfold Matched at h
    rw [hqueue] at h
    exact (moves_ack hqueue h offset).isolated_iff
  | handleNack partID offset =>
    simp only [TopicState.step, Option.some.injEq, forall_eq', handleNack]
    cases hqueue : s.queue with
    | none => exact isolated_of_no_queue h hqueue partID offset
    | some q =>
    unfold Matched at h
    rw [hqueue] at h
    exact (moves_nack hqueue h offset).isolated_iff
  | addConsumer c => simp
  | removeConsumer id => simp
  | publish partID env now => simp
  | promote i now => simp
  | drainDelayQueue now => simp
  | visibilityTimeout order now => simp
  | receive => simp

/-!
## Runs
-/

theorem matched_start (priorityEnabled : Bool) :
    (start priorityEnabled).Matched := rfl

theorem Matched.of_queue (h : s.Matched)
    (hsame : q.ackTracker = s.queueState.ackTracker) :
    ({ s with queue := some q } : TopicState).Matched := by
  unfold Matched at h ⊢
  unfold queueState at hsame
  cases hqueue : s.queue with
  | none =>
    rw [hqueue] at h hsame
    simp only [recorded, hsame, h]
    exact Recorded.matched_start visibilityTimeout
  | some q' =>
  rw [hqueue] at h hsame
  simp only [recorded] at h ⊢
  rw [hsame]
  exact h

theorem matched_dispatch (h : (s.recorded q).Matched) (offset : Nat)
    (env : Envelope) (now : Int) (m : MessageID) :
    (s.dispatch q offset env now m).Matched := by
  simp only [dispatch]
  cases (q.dispatcher.dispatch offset env).2 with
  | error err => exact h
  | ok id => exact h.track offset id _ _ now m

theorem matched_iff (hqueue : s.queue = some q) :
    s.Matched <-> (s.recorded q).Matched := by
  unfold Matched
  rw [hqueue]

theorem Matched.publish (h : s.Matched) (partID : Nat) (env : Envelope)
    (now : Int) : (s.publish partID env now).Matched := by
  unfold TopicState.publish
  split
  · exact h.of_queue rfl
  simp only
  unfold Matched at h
  cases hqueue : s.queue with
  | none =>
    rw [hqueue] at h
    exact h
  | some q =>
  rw [hqueue] at h
  change (TopicState.dispatch _ q _ _ now _).Matched
  apply matched_dispatch
  exact h

theorem Matched.promote (h : s.Matched) (hqueue : s.queue = some q) {i : Nat}
    {now : Int} (hq' : q.promote i now = some q') :
    ({ s with queue := some q' } : TopicState).Matched := by
  apply h.of_queue
  unfold queueState
  rw [hqueue]
  unfold QueueState.promote at hq'
  cases hheap : q.delayHeap with
  | none => simp [hheap] at hq'
  | some ds =>
  simp only [hheap] at hq'
  rcases Option.map_eq_some_iff.mp hq' with ⟨ds', _, hds'⟩
  rw [← hds']
  rfl

theorem Matched.drainDelayQueue (h : s.Matched) {now : Int}
    (hstep : s.drainDelayQueue now = some s') : s'.Matched := by
  rcases of_drainDelayQueue hstep with ⟨q, ds, env, rest, hqueue, -, -, hs'⟩
  subst hs'
  split
  · apply h.of_queue
    unfold queueState
    rw [hqueue]
    rfl
  · apply matched_dispatch
    exact (matched_iff hqueue).mp h

theorem Matched.step {a : TopicAction} (h : s.Matched)
    (hstep : s.step a = some s') : s'.Matched := by
  cases a with
  | addConsumer c =>
    cases hstep
    exact h.of_queue rfl
  | removeConsumer id =>
    cases hstep
    cases hqueue : s.queue with
    | none =>
      unfold Matched at h ⊢
      rw [hqueue] at h
      exact h
    | some q =>
    apply h.of_queue
    unfold queueState
    rw [hqueue]
    rfl
  | publish partID env now =>
    cases hstep
    exact h.publish partID env now
  | drainDelayQueue now => exact h.drainDelayQueue hstep
  | handleAck partID offset =>
    cases hstep
    unfold handleAck
    split
    · exact h
    · rename_i q hqueue
      exact ((matched_iff hqueue).mp h).ack offset
  | handleNack partID offset =>
    cases hstep
    unfold handleNack
    split
    · exact h
    · rename_i q hqueue
      exact ((matched_iff hqueue).mp h).nack offset
  | promote i now =>
    simp only [TopicState.step] at hstep
    split at hstep
    · cases hstep
    rename_i q hqueue
    rcases Option.map_eq_some_iff.mp hstep with ⟨q', hq', hs'⟩
    exact hs' ▸ h.promote hqueue hq'
  | visibilityTimeout order now =>
    simp only [TopicState.step] at hstep
    split at hstep
    · cases hstep
    rename_i q hqueue
    cases hstep
    exact ((matched_iff hqueue).mp h).visibilityTimeout order now
  | receive =>
  simp only [TopicState.step] at hstep
  split at hstep
  · cases hstep
  rename_i q hqueue
  rcases Option.map_eq_some_iff.mp hstep with ⟨r, hr, hs'⟩
  exact hs' ▸ ((matched_iff hqueue).mp h).receive hr

/--
Acknowledgements and rejections leave all other messages alone if and only if
each finds nothing but its own message pending under its offset.
-/
theorem isolated_iff_ownPending (priorityEnabled : Bool)
    (actions : List TopicAction) :
    Meets step IsolatedStep (start priorityEnabled) actions <->
      Meets step OwnStep (start priorityEnabled) actions :=
  meets_iff_of_invariant (fun _ _ _ h hs => Matched.step h hs)
    (fun _ a h => isolatedStep_iff h a) (matched_start priorityEnabled)

def twoPartitions : List TopicAction :=
  [.addConsumer ⟨[1], 10, []⟩, .publish 0 .zero 10, .publish 1 .zero 11,
    .handleAck 0 0]

/-- The message of the other partition is no longer pending. -/
theorem acknowledged_other :
    ¬ forall (priorityEnabled : Bool) (actions : List TopicAction),
      Meets step IsolatedStep (start priorityEnabled) actions := by
  intro hall
  have hown := (meets_iff_of_invariant (fun _ _ _ h hs => Matched.step h hs)
    (fun _ a h => isolatedStep_iff h a) (matched_start false)).mp
    (hall false twoPartitions)
  revert hown
  decide +kernel

end TopicState

end Queue
end ChimeraMQ
