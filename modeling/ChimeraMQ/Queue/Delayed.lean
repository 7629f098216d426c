import ChimeraMQ.Queue.Takers

/-!
# Where delayed messages are

A delayed message is stored nowhere but in the queue engine: in the heap until
its time has come, then in a channel, then in the hands of the loop that drains
the channel, and at last with a consumer.
-/

namespace ChimeraMQ
namespace Queue

open Foundation
open Message

/-!
## The delayed messages of a queue
-/

namespace QueueState

def inHeap (q : QueueState) : List Envelope :=
  match q.delayHeap with
  | none => []
  | some ds => ds.heap.map Prod.snd

def inChannel (q : QueueState) : List Envelope :=
  match q.delayHeap with
  | none => []
  | some ds => ds.readyCh

/-- The time of a message in the heap has come, and no other is due before. -/
def Due (q : QueueState) (i : Nat) (now : Int) : Prop :=
  exists ds e, q.delayHeap = some ds ∧ ds.heap[i]? = some e ∧ e.1 < now ∧
    forall e', e' ∈ ds.heap -> e.1 ≤ e'.1

@[simp] theorem inHeap_scheduleDelayed (q : QueueState) (env : Envelope) :
    (q.scheduleDelayed env).inHeap = q.inHeap ++ [env] := by
  unfold scheduleDelayed inHeap
  cases q.delayHeap with
  | none => rfl
  | some ds => exact List.map_append ..

@[simp] theorem inChannel_scheduleDelayed (q : QueueState) (env : Envelope) :
    (q.scheduleDelayed env).inChannel = q.inChannel := by
  unfold scheduleDelayed inChannel
  cases q.delayHeap with
  | none => rfl
  | some ds => rfl

structure Promoted (q : QueueState) (env : Envelope) (q' : QueueState) :
    Prop where
  inHeap : q.inHeap.Perm (env :: q'.inHeap)
  inChannel : q'.inChannel =
    if q.inChannel.length < readyCap then q.inChannel ++ [env]
    else q.inChannel
  consumers : q'.consumers = q.consumers
  dispatcher : q'.dispatcher = q.dispatcher
  ackTracker : q'.ackTracker = q.ackTracker

theorem promote_of_due {q : QueueState} {i : Nat} {now : Int}
    (h : q.Due i now) : exists env q', q.promote i now = some q' ∧
      Promoted q env q' := by
  rcases h with ⟨ds, e, hds, hget, hdue, hfirst⟩
  have hall : e.1 < now ∧ ds.heap.all (fun e' => e.1 ≤ e'.1) = true :=
    ⟨hdue, List.all_eq_true.mpr (fun e' he' => decide_eq_true (hfirst e' he'))⟩
  rcases List.getElem?_eq_some_iff.mp hget with ⟨hlt, he⟩
  have hperm := List.getElem_cons_eraseIdx_perm hlt
  rw [he] at hperm
  have hpromote : ds.promote i now = some
      (DelayScheduler.mk (ds.heap.eraseIdx i)
        (if ds.readyCh.length < readyCap then ds.readyCh ++ [e.2]
          else ds.readyCh)) := by
    unfold DelayScheduler.promote
    rw [hget]
    exact if_pos hall
  refine ⟨e.2, { q with
    delayHeap := some (DelayScheduler.mk (ds.heap.eraseIdx i)
      (if ds.readyCh.length < readyCap then ds.readyCh ++ [e.2]
        else ds.readyCh)) }, ?_, ?_⟩
  · unfold promote
    simp only [hds, hpromote, Option.map_some]
  constructor
  · unfold QueueState.inHeap
    rw [hds]
    exact (hperm.map Prod.snd).symm
  · unfold QueueState.inChannel
    rw [hds]
  · rfl
  · rfl
  · rfl

theorem due_of_promote {q q' : QueueState} {i : Nat} {now : Int}
    (h : q.promote i now = some q') : q.Due i now := by
  unfold promote at h
  cases hds : q.delayHeap with
  | none =>
    rw [hds] at h
    cases h
  | some ds =>
  simp only [hds, DelayScheduler.promote] at h
  cases hget : ds.heap[i]? with
  | none =>
    simp only [hget] at h
    cases h
  | some e =>
  simp only [hget] at h
  by_cases hall : e.1 < now ∧
      ds.heap.all (fun e' => e.1 ≤ e'.1) = true
  · refine ⟨ds, e, hds, hget, hall.left, ?_⟩
    intro e' he'
    exact of_decide_eq_true (List.all_eq_true.mp hall.right e' he')
  · rw [if_neg hall] at h
    cases h

theorem due_iff {q : QueueState} {i : Nat} {now : Int} :
    q.Due i now <-> (q.promote i now).isSome := by
  constructor
  · intro h
    rcases promote_of_due h with ⟨env, q', hq', _⟩
    rw [hq']
    rfl
  · intro h
    rcases Option.isSome_iff_exists.mp h with ⟨q', hq'⟩
    exact due_of_promote hq'

instance (q : QueueState) (i : Nat) (now : Int) : Decidable (q.Due i now) :=
  decidable_of_iff _ due_iff.symm

theorem dispatch_cases (q : QueueState) (offset : Nat) (env : Envelope)
    (now : Int) :
    (q.dispatch offset env now).1.inHeap = q.inHeap ∧
      (q.dispatch offset env now).1.inChannel = q.inChannel ∧
      (q.dispatch offset env now).1.dispatcher =
        (q.dispatcher.dispatch offset env).1 ∧
      (((exists err, (q.dispatch offset env now).2 = .error err) ∧
          ¬ (exists id, (q.dispatcher.dispatch offset env).2 = .ok id) ∧
          (q.dispatch offset env now).1.ackTracker = q.ackTracker) ∨
        exists id, (q.dispatch offset env now).2 = .ok id ∧
          (q.dispatcher.dispatch offset env).2 = .ok id ∧
          (q.dispatch offset env now).1.ackTracker =
            q.ackTracker.track offset id env.deliverCount.toNat
              env.maxRetries.toNat now) := by
  rcases q.dispatch_spec offset env now with
    ⟨err, hr, hdispatch⟩ | ⟨id, hr, hdispatch⟩
  · rw [hdispatch, hr]
    refine ⟨rfl, rfl, rfl, Or.inl ⟨⟨err, rfl⟩, ?_, rfl⟩⟩
    rintro ⟨id, hid⟩
    cases hid
  · rw [hdispatch]
    exact ⟨rfl, rfl, rfl, Or.inr ⟨id, rfl, hr, rfl⟩⟩

end QueueState

inductive DrainLoop where
  | idle
  | holding (env : Envelope)
  | rescheduling (env : Envelope)
deriving DecidableEq

def DrainLoop.held : DrainLoop -> List Envelope
  | .idle => []
  | .holding env => [env]
  | .rescheduling env => [env]

structure DelayedQueue where
  queue : QueueState
  loop : DrainLoop
  accepted : List Envelope
  tracked : List (Envelope × Bytes)

/-- What happens to the queue, step by step. -/
inductive DelayedAction where
  | scheduleDelayed (env : Envelope)
  | promote (i : Nat) (now : Int)
  | receive
  | handOver (now : Int)
  | reschedule
  | addConsumer (c : QueueConsumer)
  | removeConsumer (id : Bytes)
  | tryDispatch (offset : Nat) (env : Envelope) (now : Int)

namespace DelayedQueue

/-- The delayed messages that a message tracked under an offset leaves. -/
def untracked (s : DelayedQueue) (offset : Nat) : List (Envelope × Bytes) :=
  s.tracked.filter (fun e => e.1.sequence.toNat ≠ offset)

/-- The loop gives its message to a consumer, or is to schedule it again. -/
def handOver (s : DelayedQueue) (env : Envelope) (now : Int) : DelayedQueue :=
  if s.queue.consumers.length = 0 then
    { s with loop := .rescheduling { env with deliverAt := 1 } }
  else
    let r := s.queue.dispatch env.sequence.toNat env now
    match r.2 with
    | .error _ => { s with queue := r.1, loop := .idle }
    | .ok id =>
    { s with
      queue := r.1
      loop := .idle
      tracked := s.untracked env.sequence.toNat ++ [(env, id)] }

def tryDispatch (s : DelayedQueue) (offset : Nat) (env : Envelope)
    (now : Int) : DelayedQueue :=
  let r := s.queue.dispatch offset env now
  match r.2 with
  | .error _ => { s with queue := r.1 }
  | .ok _ => { s with queue := r.1, tracked := s.untracked offset }

def step (s : DelayedQueue) : DelayedAction -> Option DelayedQueue
  | .scheduleDelayed env =>
    some { s with
      queue := s.queue.scheduleDelayed env
      accepted := s.accepted ++ [env] }
  | .promote i now =>
    (s.queue.promote i now).map (fun q => { s with queue := q })
  | .receive =>
    match s.loop, s.queue.delayHeap with
    | .idle, some ds =>
      match ds.readyCh with
      | [] => none
      | env :: rest =>
      some { s with
        queue :=
          { s.queue with delayHeap := some { ds with readyCh := rest } }
        loop := .holding { env with deliverAt := 0 } }
    | _, _ => none
  | .handOver now =>
    match s.loop with
    | .holding env => some (s.handOver env now)
    | _ => none
  | .reschedule =>
    match s.loop with
    | .rescheduling env =>
      some { s with queue := s.queue.scheduleDelayed env, loop := .idle }
    | _ => none
  | .addConsumer c => some { s with queue := s.queue.addConsumer c }
  | .removeConsumer id => some { s with queue := s.queue.removeConsumer id }
  | .tryDispatch offset env now => some (s.tryDispatch offset env now)

def new (priorityEnabled : Bool) : DelayedQueue where
  queue := (newQueueEngine priorityEnabled).newQueueState
  loop := .idle
  accepted := []
  tracked := []

variable {s : DelayedQueue}

variable {env : Envelope}

/-!
## Where the messages are
-/

def undelayed (env : Envelope) : Envelope :=
  { env with deliverAt := 0 }

/-- The messages in the heap, the channel, the loop and the tracker. -/
def whereabouts (s : DelayedQueue) : List Envelope :=
  s.queue.inHeap ++ s.queue.inChannel ++ s.loop.held ++
    s.tracked.map Prod.fst

structure NoneLost (s : DelayedQueue) : Prop where
  placed : (s.whereabouts.map undelayed).Perm (s.accepted.map undelayed)
  pending : forall e, e ∈ s.tracked -> exists m,
    getEntry e.1.sequence.toNat s.queue.ackTracker.pending = some m ∧
      m.consumerID = e.2

/--
The channel has room for a due message and a consumer for the one that the loop
holds; no offset of a pending delayed message is handed out.
-/
def Keeps (s : DelayedQueue) : DelayedAction -> Prop
  | .promote i now => s.queue.Due i now ->
      s.queue.inChannel.length < readyCap
  | .handOver _ => forall env, s.loop = .holding env ->
      s.queue.consumers.length ≠ 0 ->
        s.queue.dispatcher.Takes env ∧
          forall e, e ∈ s.tracked -> e.1.sequence ≠ env.sequence
  | .tryDispatch offset env _ => s.queue.dispatcher.Takes env ->
      forall e, e ∈ s.tracked -> e.1.sequence.toNat ≠ offset
  | _ => True

instance (s : DelayedQueue) (a : DelayedAction) : Decidable (s.Keeps a) :=
  match a with
  | .promote i now =>
    inferInstanceAs (Decidable (s.queue.Due i now -> _))
  | .handOver _ =>
    match hloop : s.loop with
    | .holding env =>
      decidable_of_iff (s.queue.consumers.length ≠ 0 ->
        s.queue.dispatcher.Takes env ∧
          forall e, e ∈ s.tracked -> e.1.sequence ≠ env.sequence)
        ⟨fun h env' hloop' hne => by
            rw [hloop] at hloop'
            cases hloop'
            exact h hne,
          fun h => h env hloop⟩
    | .idle =>
      isTrue (fun _ hloop' => by rw [hloop] at hloop'; cases hloop')
    | .rescheduling _ =>
      isTrue (fun _ hloop' => by rw [hloop] at hloop'; cases hloop')
  | .tryDispatch offset env _ =>
    inferInstanceAs (Decidable (s.queue.dispatcher.Takes env -> _))
  | .scheduleDelayed _ => isTrue trivial
  | .receive => isTrue trivial
  | .reschedule => isTrue trivial
  | .addConsumer _ => isTrue trivial
  | .removeConsumer _ => isTrue trivial

def Named : DelayedAction -> Prop
  | .addConsumer c => c.id ≠ []
  | _ => True

/-!
## One step
-/

theorem count_whereabouts (s : DelayedQueue) (env : Envelope) :
    (s.whereabouts.map undelayed).count env =
      (s.queue.inHeap.map undelayed).count env +
        (s.queue.inChannel.map undelayed).count env +
        (s.loop.held.map undelayed).count env +
        ((s.tracked.map Prod.fst).map undelayed).count env := by
  unfold whereabouts
  rw [List.map_append, List.map_append, List.map_append, List.count_append,
    List.count_append, List.count_append]

theorem length_whereabouts (s : DelayedQueue) :
    s.whereabouts.length = s.queue.inHeap.length + s.queue.inChannel.length +
      s.loop.held.length + s.tracked.length := by
  unfold whereabouts
  rw [List.length_append, List.length_append, List.length_append,
    List.length_map]

theorem NoneLost.length (h : s.NoneLost) :
    s.whereabouts.length = s.accepted.length := by
  have hlength := h.placed.length_eq
  rwa [List.length_map, List.length_map] at hlength

variable {offset : Nat}

theorem untracked_of_ne
    (h : forall e, e ∈ s.tracked -> e.1.sequence.toNat ≠ offset) :
    s.untracked offset = s.tracked :=
  List.filter_eq_self.mpr (fun e he => decide_eq_true (h e he))

theorem length_untracked_lt {e : Envelope × Bytes} (he : e ∈ s.tracked)
    (hsame : e.1.sequence.toNat = offset) :
    (s.untracked offset).length < s.tracked.length := by
  apply List.length_filter_lt_length_iff_exists.mpr
  exact ⟨e, he, by simp [hsame]⟩

variable (h : s.NoneLost)

include h

theorem NoneLost.pending_track
    (hother : forall e, e ∈ s.tracked -> e.1.sequence.toNat ≠ offset)
    (id : Bytes) (deliverCount maxRetries : Nat) (now : Int)
    {e : Envelope × Bytes} (he : e ∈ s.tracked) :
    exists m, getEntry e.1.sequence.toNat
        (s.queue.ackTracker.track offset id deliverCount maxRetries
          now).pending = some m ∧ m.consumerID = e.2 := by
  rcases h.pending e he with ⟨m, hm, hid⟩
  refine ⟨m, ?_, hid⟩
  rw [AckTracker.track, getEntry_setEntry_ne (hother e he)]
  exact hm

theorem NoneLost.scheduleDelayed (env : Envelope) :
    NoneLost { s with
      queue := s.queue.scheduleDelayed env
      accepted := s.accepted ++ [env] } where
  placed := by
    apply List.perm_iff_count.mpr
    intro x
    have hcount := List.perm_iff_count.mp h.placed x
    rw [count_whereabouts] at hcount ⊢
    simp only [QueueState.inHeap_scheduleDelayed,
      QueueState.inChannel_scheduleDelayed, List.map_append, List.count_append]
    omega
  pending := h.pending

theorem NoneLost.promote {q : QueueState} (hq : s.queue.Promoted env q)
    (hroom : s.queue.inChannel.length < readyCap) :
    NoneLost { s with queue := q } where
  placed := by
    apply List.perm_iff_count.mpr
    intro x
    have hcount := List.perm_iff_count.mp h.placed x
    have hheap := List.perm_iff_count.mp (hq.inHeap.map undelayed) x
    rw [count_whereabouts] at hcount ⊢
    simp only [hq.inChannel, if_pos hroom, List.map_append, List.count_append]
    rw [hheap, List.map_cons, List.count_cons] at hcount
    rw [List.map_singleton, List.count_singleton]
    omega
  pending := by
    rw [hq.ackTracker]
    exact h.pending

theorem NoneLost.receive {ds : DelayScheduler} {rest : List Envelope}
    (hidle : s.loop = .idle) (hds : s.queue.delayHeap = some ds)
    (hready : ds.readyCh = env :: rest) :
    NoneLost { s with
      queue := { s.queue with delayHeap := some { ds with readyCh := rest } }
      loop := .holding { env with deliverAt := 0 } } where
  placed := by
    apply List.perm_iff_count.mpr
    intro x
    have hcount := List.perm_iff_count.mp h.placed x
    have hheap : s.queue.inHeap = ds.heap.map Prod.snd := by
      unfold QueueState.inHeap
      rw [hds]
    have hchannel : s.queue.inChannel = env :: rest := by
      unfold QueueState.inChannel
      rw [hds]
      exact hready
    rw [count_whereabouts, hheap, hchannel, hidle] at hcount
    rw [count_whereabouts]
    change ((ds.heap.map Prod.snd).map undelayed).count x +
      (rest.map undelayed).count x + [undelayed env].count x + _ = _
    simp only [List.map_cons, List.count_cons, DrainLoop.held, List.map_nil,
      List.count_nil] at hcount ⊢
    omega
  pending := h.pending

theorem NoneLost.handOver (hserving : s.queue.dispatcher.Serving)
    (hholding : s.loop = .holding env)
    (hkeeps : s.queue.consumers.length ≠ 0 ->
      s.queue.dispatcher.Takes env ∧
        forall e, e ∈ s.tracked -> e.1.sequence ≠ env.sequence) (now : Int) :
    (s.handOver env now).NoneLost := by
  unfold DelayedQueue.handOver
  by_cases hempty : s.queue.consumers.length = 0
  · rw [if_pos hempty]
    constructor
    · apply List.perm_iff_count.mpr
      intro x
      have hcount := List.perm_iff_count.mp h.placed x
      rw [count_whereabouts, hholding] at hcount
      rw [count_whereabouts]
      exact hcount
    · exact h.pending
  rcases hkeeps hempty with ⟨htakes, hother⟩
  have hne : forall e, e ∈ s.tracked ->
      e.1.sequence.toNat ≠ env.sequence.toNat :=
    fun e he hsame => hother e he (UInt64.toNat_inj.mp hsame)
  rw [if_neg hempty]
  rcases s.queue.dispatch_cases env.sequence.toNat env now with
    ⟨hheap, hchannel, _, ⟨_, hnot, _⟩ | ⟨id, hok, _, htracker⟩⟩
  · exact absurd ((AnyDispatcher.dispatch_ok_iff hserving _ env).mpr htakes)
      hnot
  simp only [hok, untracked_of_ne hne]
  constructor
  · apply List.perm_iff_count.mpr
    intro x
    have hcount := List.perm_iff_count.mp h.placed x
    rw [count_whereabouts, hholding] at hcount
    rw [count_whereabouts]
    simp only [hheap, hchannel, DrainLoop.held, List.map_append,
      List.map_nil, List.count_nil, List.count_append, List.map_cons]
      at hcount ⊢
    omega
  · intro e he
    simp only [htracker]
    rcases List.mem_append.mp he with hold | hlast
    · exact h.pending_track hne id _ _ now hold
    · rw [List.mem_singleton.mp hlast]
      exact ⟨_, getEntry_setEntry _ _ _, rfl⟩

theorem NoneLost.reschedule (hloop : s.loop = .rescheduling env) :
    NoneLost { s with queue := s.queue.scheduleDelayed env, loop := .idle }
    where
  placed := by
    apply List.perm_iff_count.mpr
    intro x
    have hcount := List.perm_iff_count.mp h.placed x
    rw [count_whereabouts, hloop] at hcount
    rw [count_whereabouts]
    simp only [QueueState.inHeap_scheduleDelayed,
      QueueState.inChannel_scheduleDelayed, DrainLoop.held, List.map_append,
      List.map_nil, List.count_nil, List.count_append] at hcount ⊢
    omega
  pending := h.pending

theorem NoneLost.tryDispatch (hserving : s.queue.dispatcher.Serving)
    (hkeeps : s.queue.dispatcher.Takes env ->
      forall e, e ∈ s.tracked -> e.1.sequence.toNat ≠ offset) (now : Int) :
    (s.tryDispatch offset env now).NoneLost := by
  have hcount := fun x => List.perm_iff_count.mp h.placed x
  unfold DelayedQueue.tryDispatch
  rcases s.queue.dispatch_cases offset env now with
    ⟨hheap, hchannel, _, ⟨⟨err, herr⟩, _, htracker⟩ | ⟨id, hok, hdok, htracker⟩⟩
  · simp only [herr]
    constructor
    · apply List.perm_iff_count.mpr
      intro x
      rw [← hcount x, count_whereabouts, count_whereabouts]
      simp only [hheap, hchannel]
    · simp only [htracker]
      exact h.pending
  have hne := hkeeps
    ((AnyDispatcher.dispatch_ok_iff hserving offset env).mp ⟨id, hdok⟩)
  simp only [hok, untracked_of_ne hne]
  constructor
  · apply List.perm_iff_count.mpr
    intro x
    rw [← hcount x, count_whereabouts, count_whereabouts]
    simp only [hheap, hchannel]
  · simp only [htracker]
    intro e he
    exact h.pending_track hne id _ _ now he

theorem NoneLost.step {s' : DelayedQueue}
    (hserving : s.queue.dispatcher.Serving) {a : DelayedAction}
    (hkeeps : s.Keeps a) (hstep : s.step a = some s') : s'.NoneLost := by
  cases a with
  | scheduleDelayed env =>
    cases hstep
    exact h.scheduleDelayed env
  | promote i now =>
    simp only [DelayedQueue.step] at hstep
    rcases Option.map_eq_some_iff.mp hstep with ⟨q, hpromote, hq⟩
    have hdue := QueueState.due_of_promote hpromote
    rcases QueueState.promote_of_due hdue with ⟨env, q', hsame, hpromoted⟩
    rw [hpromote] at hsame
    cases hsame
    cases hq
    exact h.promote hpromoted (hkeeps hdue)
  | receive =>
    simp only [DelayedQueue.step] at hstep
    cases hloop : s.loop with
    | idle =>
      cases hds : s.queue.delayHeap with
      | none =>
        simp only [hloop, hds] at hstep
        cases hstep
      | some ds =>
      cases hready : ds.readyCh with
      | nil =>
        simp only [hloop, hds, hready] at hstep
        cases hstep
      | cons env rest =>
      simp only [hloop, hds, hready] at hstep
      cases hstep
      exact h.receive hloop hds hready
    | holding env =>
      simp only [hloop] at hstep
      cases hstep
    | rescheduling env =>
    simp only [hloop] at hstep
    cases hstep
  | handOver now =>
    simp only [DelayedQueue.step] at hstep
    cases hloop : s.loop with
    | idle =>
      simp only [hloop] at hstep
      cases hstep
    | holding env =>
      simp only [hloop] at hstep
      cases hstep
      exact h.handOver hserving hloop (hkeeps env hloop) now
    | rescheduling env =>
    simp only [hloop] at hstep
    cases hstep
  | reschedule =>
    simp only [DelayedQueue.step] at hstep
    cases hloop : s.loop with
    | idle =>
      simp only [hloop] at hstep
      cases hstep
    | holding env =>
      simp only [hloop] at hstep
      cases hstep
    | rescheduling env =>
    simp only [hloop] at hstep
    cases hstep
    exact h.reschedule hloop
  | addConsumer c =>
    cases hstep
    exact ⟨h.placed, h.pending⟩
  | removeConsumer id =>
    cases hstep
    exact ⟨h.placed, h.pending⟩
  | tryDispatch offset env now =>
    cases hstep
    exact h.tryDispatch hserving hkeeps now

theorem NoneLost.lost (hserving : s.queue.dispatcher.Serving)
    {a : DelayedAction} (hnot : ¬ s.Keeps a) :
    exists s', s.step a = some s' ∧ ¬ s'.NoneLost := by
  have hlength := h.length
  rw [length_whereabouts] at hlength
  cases a with
  | promote i now =>
    rcases Classical.not_imp.mp hnot with ⟨hdue, hfull⟩
    rcases QueueState.promote_of_due hdue with ⟨env, q, hpromote, hq⟩
    refine ⟨{ s with queue := q }, by
      simp only [DelayedQueue.step, hpromote, Option.map_some], ?_⟩
    intro hnone
    have hless := hnone.length
    have hheap := hq.inHeap.length_eq
    rw [length_whereabouts] at hless
    simp only [hq.inChannel, if_neg hfull] at hless
    rw [List.length_cons] at hheap
    omega
  | handOver now =>
    simp only [Keeps, Classical.not_forall] at hnot
    rcases hnot with ⟨env, hloop, hconsumers, hbad⟩
    refine ⟨s.handOver env now, by simp only [DelayedQueue.step, hloop], ?_⟩
    rw [hloop] at hlength
    unfold DelayedQueue.handOver
    rw [if_neg hconsumers]
    rcases s.queue.dispatch_cases env.sequence.toNat env now with
      ⟨hheap, hchannel, _, ⟨⟨err, herr⟩, _, _⟩ | ⟨id, hok, hdok, _⟩⟩
    · simp only [herr]
      intro hnone
      have hless := hnone.length
      rw [length_whereabouts] at hless
      simp only [hheap, hchannel, DrainLoop.held, List.length_nil,
        List.length_singleton] at hless hlength
      omega
    have htakes := (AnyDispatcher.dispatch_ok_iff hserving
      env.sequence.toNat env).mp ⟨id, hdok⟩
    have hshared : exists e, e ∈ s.tracked ∧
        e.1.sequence = env.sequence := by
      by_contra hnone
      exact hbad ⟨htakes, fun e he hsame => hnone ⟨e, he, hsame⟩⟩
    rcases hshared with ⟨e, he, hsame⟩
    have hshort := length_untracked_lt he (congrArg UInt64.toNat hsame)
    simp only [hok]
    intro hnone
    have hless := hnone.length
    rw [length_whereabouts] at hless
    simp only [hheap, hchannel, DrainLoop.held, List.length_nil,
      List.length_singleton, List.length_append] at hless hlength
    omega
  | tryDispatch offset env now =>
    simp only [Keeps, Classical.not_forall, not_not] at hnot
    rcases hnot with ⟨htakes, e, he, hsame⟩
    refine ⟨s.tryDispatch offset env now, rfl, ?_⟩
    have hshort := length_untracked_lt he hsame
    rcases (AnyDispatcher.dispatch_ok_iff hserving offset env).mpr htakes
      with ⟨id, hid⟩
    unfold DelayedQueue.tryDispatch
    rcases s.queue.dispatch_cases offset env now with
      ⟨hheap, hchannel, _, ⟨_, hno, _⟩ | ⟨id, hok, _, _⟩⟩
    · exact absurd ⟨id, hid⟩ hno
    simp only [hok]
    intro hnone
    have hless := hnone.length
    rw [length_whereabouts] at hless
    simp only [hheap, hchannel] at hless
    omega
  | scheduleDelayed env => exact absurd trivial hnot
  | receive => exact absurd trivial hnot
  | reschedule => exact absurd trivial hnot
  | addConsumer c => exact absurd trivial hnot
  | removeConsumer id => exact absurd trivial hnot

omit h

/-!
## Every run
-/

end DelayedQueue

end Queue
end ChimeraMQ
