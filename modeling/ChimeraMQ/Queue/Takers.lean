import ChimeraMQ.Queue.Prefetch

/-!
# When a message is handed out

A dispatcher hands a message to a consumer exactly if one that handles its
priority has room. Flushing what waits only takes room away, and no consumer
takes more than it asked for.
-/

namespace ChimeraMQ
namespace Queue

open Foundation
open Message

def Fuller (consumers consumers' : List QueueConsumer) : Prop :=
  List.Forall₂ (fun c c' => c'.id = c.id ∧
    (c'.hasRoom = true -> c.hasRoom = true)) consumers consumers'

theorem Fuller.refl (consumers : List QueueConsumer) :
    Fuller consumers consumers :=
  List.forall₂_same.mpr (fun _ _ => ⟨rfl, id⟩)

theorem Fuller.trans {xs ys zs : List QueueConsumer} (h : Fuller xs ys)
    (h' : Fuller ys zs) : Fuller xs zs := by
  induction h generalizing zs with
  | nil => exact h'
  | cons hone _ ih =>
  cases h' with
  | cons hone' hrest' =>
    exact List.Forall₂.cons ⟨hone'.left.trans hone.left,
      fun hroom => hone.right (hone'.right hroom)⟩ (ih hrest')

theorem Fuller.exists_mem {xs ys : List QueueConsumer} (h : Fuller xs ys)
    {c' : QueueConsumer} (hc' : c' ∈ ys) :
    exists c, c ∈ xs ∧ c'.id = c.id ∧
      (c'.hasRoom = true -> c.hasRoom = true) := by
  induction h with
  | nil => cases hc'
  | cons hone _ ih =>
  rcases List.mem_cons.mp hc' with hfirst | hrest
  · rw [hfirst]
    exact ⟨_, List.mem_cons_self .., hone⟩
  · rcases ih hrest with ⟨c, hc, hsame⟩
    exact ⟨c, List.mem_cons_of_mem _ hc, hsame⟩

theorem QueueConsumer.hasRoom_of_take {c : QueueConsumer} {offset : Nat}
    (h : (c.take offset).hasRoom = true) : c.hasRoom = true := by
  have hroom : ((c.take offset).inFlight.length : Int) < c.prefetch :=
    of_decide_eq_true h
  have hle : c.inFlight.length ≤ (c.take offset).inFlight.length := by
    unfold QueueConsumer.take
    by_cases hmem : offset ∈ c.inFlight
    · rw [if_pos hmem]
    · rw [if_neg hmem, List.length_append]
      exact Nat.le_add_right _ _
  exact decide_eq_true (show (c.inFlight.length : Int) < c.prefetch by omega)

theorem fuller_takeTurns (eligible : QueueConsumer -> Bool) (offset k : Nat)
    (consumers : List QueueConsumer) (nextIdx : Nat) :
    Fuller consumers (takeTurns eligible offset k consumers nextIdx).1 := by
  rcases takeTurns_cases eligible offset k consumers nextIdx with
    ⟨_, hsame⟩ | ⟨front, c, back, hsplit, _, _, _, htaken⟩
  · rw [hsame]
    exact Fuller.refl consumers
  rw [htaken, hsplit]
  apply List.rel_append (Fuller.refl front)
  exact List.Forall₂.cons ⟨rfl, QueueConsumer.hasRoom_of_take⟩
    (Fuller.refl back)

def AllWithin (consumers : List QueueConsumer) : Prop :=
  forall c, c ∈ consumers -> (c.inFlightCount : Int) ≤ max c.prefetch 0

theorem AllWithin.takeTurns {consumers : List QueueConsumer}
    (h : AllWithin consumers) (eligible : QueueConsumer -> Bool)
    (offset k nextIdx : Nat) :
    AllWithin (takeTurns eligible offset k consumers nextIdx).1 := by
  rcases takeTurns_cases eligible offset k consumers nextIdx with
    ⟨_, hsame⟩ | ⟨front, c, back, hsplit, _, hroom, _, htaken⟩
  · rw [hsame]
    exact h
  have htake : ((c.take offset).inFlightCount : Int) ≤ max c.prefetch 0 := by
    have hlt : (c.inFlightCount : Int) < c.prefetch := of_decide_eq_true hroom
    have hle : (c.take offset).inFlightCount ≤ c.inFlightCount + 1 := by
      unfold QueueConsumer.take QueueConsumer.inFlightCount
      split <;> simp
    omega
  unfold AllWithin at h ⊢
  rw [hsplit, List.forall_mem_append, List.forall_mem_cons] at h
  rw [htaken, List.forall_mem_append, List.forall_mem_cons]
  exact ⟨h.left, htake, h.right.right⟩

theorem InTurn.takeTurns {consumers : List QueueConsumer} {nextIdx : Nat}
    (h : InTurn consumers nextIdx) (eligible : QueueConsumer -> Bool)
    (offset k : Nat) :
    InTurn (takeTurns eligible offset k consumers nextIdx).1
      (takeTurns eligible offset k consumers nextIdx).2.1 := by
  rcases h with hlt | ⟨hnil, hzero⟩
  · have hfuller := fuller_takeTurns eligible offset k consumers nextIdx
    apply Or.inl
    rw [← hfuller.length_eq]
    exact nextIdx_takeTurns eligible offset k hlt
  apply Or.inr
  rw [hnil, hzero]
  cases k with
  | zero => exact ⟨rfl, rfl⟩
  | succ k => exact ⟨rfl, rfl⟩

namespace PriorityDispatcher

structure Followed (pd pd' : PriorityDispatcher) : Prop where
  fuller : Fuller pd.consumers pd'.consumers
  maxP : pd'.consumerMaxP = pd.consumerMaxP
  turn : InTurn pd.consumers pd.nextIdx -> InTurn pd'.consumers pd'.nextIdx
  within : AllWithin pd.consumers -> AllWithin pd'.consumers

theorem Followed.refl (pd : PriorityDispatcher) : Followed pd pd where
  fuller := Fuller.refl _
  maxP := rfl
  turn := id
  within := id

variable {pd : PriorityDispatcher}

theorem Followed.trans {pd' pd'' : PriorityDispatcher} (h : Followed pd pd')
    (h' : Followed pd' pd'') : Followed pd pd'' where
  fuller := h.fuller.trans h'.fuller
  maxP := h'.maxP.trans h.maxP
  turn := fun hturn => h'.turn (h.turn hturn)
  within := fun hwithin => h'.within (h.within hwithin)

theorem followed_levels (pd : PriorityDispatcher) (levels : List (List Nat)) :
    Followed pd { pd with levels := levels } where
  fuller := Fuller.refl _
  maxP := rfl
  turn := id
  within := id

theorem followed_tryDispatchToConsumer (pd : PriorityDispatcher)
    (offset priority : Nat) :
    Followed pd (pd.tryDispatchToConsumer offset priority).1 where
  fuller := fuller_takeTurns _ _ _ _ _
  maxP := rfl
  turn := fun hturn => hturn.takeTurns _ _ _
  within := fun hwithin => hwithin.takeTurns _ _ _ _

theorem followed_flushLevel (priority : Nat) (queue : List Nat)
    (pd : PriorityDispatcher) :
    Followed pd (flushLevel priority queue pd).1 := by
  induction queue generalizing pd with
  | nil => exact Followed.refl pd
  | cons offset queue ih =>
  have hfirst := followed_tryDispatchToConsumer pd offset priority
  have hrest := hfirst.trans
    (ih (pd.tryDispatchToConsumer offset priority).1)
  unfold flushLevel
  simp only
  split
  · exact hrest
  · exact hrest

theorem followed_flushLevels (n : Nat) (pd : PriorityDispatcher) :
    Followed pd (flushLevels n pd) := by
  induction n generalizing pd with
  | zero => exact Followed.refl pd
  | succ n ih =>
  have hlevel := followed_flushLevel n (pd.level n) pd
  exact (hlevel.trans (followed_levels _ _)).trans (ih _)

theorem followed_flushQueued (pd : PriorityDispatcher) :
    Followed pd pd.flushQueued :=
  followed_flushLevels maxPriorityLevels pd

theorem Followed.busy {pd' : PriorityDispatcher} (h : Followed pd pd')
    {priority : Nat} (hbusy : forall c, c ∈ pd.consumers ->
      (pd.handles priority c && c.hasRoom) = false) {c' : QueueConsumer}
    (hc' : c' ∈ pd'.consumers) :
    (pd'.handles priority c' && c'.hasRoom) = false := by
  rcases h.fuller.exists_mem hc' with ⟨c, hc, hid, hroom⟩
  have hold := hbusy c hc
  have hsame : pd'.handles priority c' = pd.handles priority c := by
    unfold handles
    rw [h.maxP, hid]
  rw [hsame]
  rw [Bool.and_eq_false_iff] at hold ⊢
  rcases hold with hhandles | hfull
  · exact Or.inl hhandles
  apply Or.inr
  rw [Bool.eq_false_iff]
  intro hhas
  rw [hroom hhas] at hfull
  cases hfull

theorem tryDispatchToConsumer_eq_nil_iff
    (hlt : pd.nextIdx < pd.consumers.length)
    (hnamed : forall c, c ∈ pd.consumers -> c.id ≠ []) (offset priority : Nat) :
    (pd.tryDispatchToConsumer offset priority).2 = [] <->
      forall c, c ∈ pd.consumers ->
        (pd.handles priority c && c.hasRoom) = false := by
  rw [← takeTurns_none_iff hlt]
  unfold tryDispatchToConsumer
  simp only
  rcases takeTurns_cases (pd.handles priority) offset pd.consumers.length
    pd.consumers pd.nextIdx with
    ⟨hnone, _⟩ | ⟨front, c, back, hsplit, _, _, htaken, _⟩
  · rw [hnone]
    exact ⟨fun _ => rfl, fun _ => rfl⟩
  have hname : c.id ≠ [] := hnamed c (by rw [hsplit]; simp)
  rw [htaken]
  constructor
  · intro hnil
    exact absurd hnil hname
  · intro hnone
    cases hnone

theorem Followed.named {pd' : PriorityDispatcher} (h : Followed pd pd')
    (hnamed : forall c, c ∈ pd.consumers -> c.id ≠ []) :
    forall c, c ∈ pd'.consumers -> c.id ≠ [] := by
  intro c' hc'
  rcases h.fuller.exists_mem hc' with ⟨c, hc, hid, _⟩
  rw [hid]
  exact hnamed c hc

theorem followed_dispatch (pd : PriorityDispatcher) (offset : Nat)
    (env : Envelope) : Followed pd (pd.dispatch offset env).1 := by
  have hfirst := pd.followed_tryDispatchToConsumer offset (priorityOf env)
  have hagain := (hfirst.trans (followed_flushQueued _)).trans
    (followed_tryDispatchToConsumer _ offset (priorityOf env))
  unfold dispatch
  split
  · exact Followed.refl pd
  simp only
  split
  · exact hfirst
  · split
    · exact hagain
    · exact hagain.trans (followed_levels _ _)

theorem dispatch_ok_iff (hturn : InTurn pd.consumers pd.nextIdx)
    (hnamed : forall c, c ∈ pd.consumers -> c.id ≠ []) (offset : Nat)
    (env : Envelope) :
    (exists id, (pd.dispatch offset env).2 = .ok id) <->
      ¬ forall c, c ∈ pd.consumers ->
        (pd.handles (priorityOf env) c && c.hasRoom) = false := by
  unfold dispatch
  by_cases hempty : pd.consumers.length = 0
  · rw [if_pos hempty, List.length_eq_zero_iff.mp hempty]
    constructor
    · rintro ⟨id, hid⟩
      cases hid
    · intro hnot
      exact absurd (fun c hc => by cases hc) hnot
  have hlt := hturn.lt hempty
  have hiff := tryDispatchToConsumer_eq_nil_iff hlt hnamed offset
    (priorityOf env)
  rw [if_neg hempty, ← hiff]
  simp only
  by_cases hfirst : (pd.tryDispatchToConsumer offset (priorityOf env)).2 = []
  · have hflushed := (pd.followed_tryDispatchToConsumer offset
      (priorityOf env)).trans (followed_flushQueued _)
    have hlt' := (hflushed.turn hturn).lt (by
      rw [← hflushed.fuller.length_eq]
      exact hempty)
    have hagain := (tryDispatchToConsumer_eq_nil_iff hlt'
      (hflushed.named hnamed) offset (priorityOf env)).mpr
        (fun c' hc' => hflushed.busy (hiff.mp hfirst) hc')
    rw [if_neg (not_not.mpr hfirst), if_neg (not_not.mpr hagain)]
    constructor
    · rintro ⟨id, hid⟩
      cases hid
    · intro hnot
      exact absurd hfirst hnot
  · rw [if_pos hfirst]
    exact ⟨fun _ => hfirst, fun _ => ⟨_, rfl⟩⟩

end PriorityDispatcher

namespace AnyDispatcher

def handles (env : Envelope) : AnyDispatcher -> QueueConsumer -> Bool
  | .plain _, _ => true
  | .priority pd, c => pd.handles (PriorityDispatcher.priorityOf env) c

def Takes (d : AnyDispatcher) (env : Envelope) : Prop :=
  exists c, c ∈ d.consumers ∧ d.handles env c = true ∧ c.hasRoom = true

instance (d : AnyDispatcher) (env : Envelope) : Decidable (d.Takes env) :=
  inferInstanceAs (Decidable (exists c, c ∈ d.consumers ∧ _))

structure Serving (d : AnyDispatcher) : Prop where
  turn : InTurn d.consumers d.nextIdx
  named : forall c, c ∈ d.consumers -> c.id ≠ []

variable {d : AnyDispatcher}

theorem takes_iff {env : Envelope} :
    d.Takes env <-> ¬ forall c, c ∈ d.consumers ->
      (d.handles env c && c.hasRoom) = false := by
  constructor
  · rintro ⟨c, hc, hhandles, hroom⟩ hbusy
    have hone := hbusy c hc
    rw [hhandles, hroom] at hone
    cases hone
  intro hnot
  by_contra hnone
  apply hnot
  intro c hc
  rw [Bool.eq_false_iff]
  intro hboth
  rw [Bool.and_eq_true] at hboth
  exact hnone ⟨c, hc, hboth.left, hboth.right⟩

theorem serving_dispatch (h : d.Serving) (offset : Nat) (env : Envelope) :
    (d.dispatch offset env).1.Serving := by
  cases d with
  | plain p =>
    change (plain (p.dispatch offset env).1).Serving
    unfold Dispatcher.dispatch
    split
    · exact h
    constructor
    · exact h.turn.takeTurns _ _ _
    intro c' hc'
    rcases (fuller_takeTurns _ _ _ _ _).exists_mem hc' with
      ⟨c, hc, hid, _⟩
    rw [hid]
    exact h.named c hc
  | priority pd =>
  have hfollowed := pd.followed_dispatch offset env
  exact ⟨hfollowed.turn h.turn, hfollowed.named h.named⟩

theorem dispatch_ok_iff (h : d.Serving) (offset : Nat) (env : Envelope) :
    (exists id, (d.dispatch offset env).2 = .ok id) <-> d.Takes env := by
  rw [takes_iff]
  cases d with
  | plain p =>
    simp only [dispatch, Dispatcher.dispatch, handles, consumers]
    by_cases hempty : p.consumers.length = 0
    · rw [if_pos hempty, List.length_eq_zero_iff.mp hempty]
      constructor
      · rintro ⟨id, hid⟩
        cases hid
      · intro hnot
        exact absurd (fun c hc => by cases hc) hnot
    have hlt := InTurn.lt h.turn hempty
    rw [if_neg hempty, ← @takeTurns_none_iff (fun _ => true) offset
      p.consumers p.nextIdx hlt]
    cases (takeTurns (fun _ => true) offset p.consumers.length
        p.consumers p.nextIdx).2.2 with
    | none =>
      constructor
      · rintro ⟨id, hid⟩
        cases hid
      · intro hnot
        exact absurd rfl hnot
    | some id =>
    constructor
    · intro _ hnone
      cases hnone
    · intro _
      exact ⟨id, rfl⟩
  | priority pd =>
    exact PriorityDispatcher.dispatch_ok_iff h.turn h.named offset env

/-!
## Consumers that come and go
-/

theorem Serving.addConsumer (h : d.Serving) {c : QueueConsumer}
    (hname : c.id ≠ []) : (d.addConsumer c).Serving := by
  have hturn : InTurn (d.consumers ++ [c]) d.nextIdx := by
    apply Or.inl
    rw [List.length_append, List.length_singleton]
    rcases h.turn with hlt | ⟨_, hzero⟩
    · exact Nat.lt_succ_of_lt hlt
    · rw [hzero]
      exact Nat.succ_pos _
  have hnamed : forall x, x ∈ d.consumers ++ [c] -> x.id ≠ [] := by
    intro x hx
    rcases List.mem_append.mp hx with hold | hlast
    · exact h.named x hold
    · rw [List.mem_singleton.mp hlast]
      exact hname
  cases d with
  | plain p => exact ⟨hturn, hnamed⟩
  | priority pd =>
  have hflush := PriorityDispatcher.followed_flushQueued (pd.register c)
  exact ⟨hflush.turn hturn, hflush.named hnamed⟩

theorem Serving.removeConsumer (h : d.Serving) (id : Bytes) :
    (d.removeConsumer id).Serving := by
  have hsub := sublist_removeFirst id d.consumers d.nextIdx
  have hturn := InTurn.removeFirst h.turn id
  cases d with
  | plain p => exact ⟨hturn, fun c hc => h.named c (hsub.subset hc)⟩
  | priority pd => exact ⟨hturn, fun c hc => h.named c (hsub.subset hc)⟩

/-!
## Every queue of the engine
-/

structure Fair (d : AnyDispatcher) : Prop where
  serving : d.Serving
  within : AllWithin d.consumers

theorem fair_dispatch (h : d.Fair) (offset : Nat) (env : Envelope) :
    (d.dispatch offset env).1.Fair := by
  refine ⟨serving_dispatch h.serving offset env, ?_⟩
  cases d with
  | plain p =>
    change AllWithin (p.dispatch offset env).1.consumers
    unfold Dispatcher.dispatch
    split
    · exact h.within
    · exact h.within.takeTurns _ _ _ _
  | priority pd => exact (pd.followed_dispatch offset env).within h.within

theorem Fair.addConsumer (h : d.Fair) {c : QueueConsumer}
    (hname : c.id ≠ []) (hnone : c.inFlight = []) : (d.addConsumer c).Fair := by
  refine ⟨h.serving.addConsumer hname, ?_⟩
  have hadded : AllWithin (d.consumers ++ [c]) := by
    apply List.forall_mem_append.mpr ⟨h.within, ?_⟩
    rw [List.forall_mem_singleton, QueueConsumer.inFlightCount, hnone]
    exact le_max_right _ _
  cases d with
  | plain p => exact hadded
  | priority pd =>
  exact (PriorityDispatcher.followed_flushQueued (pd.register c)).within
    hadded

theorem Fair.removeConsumer (h : d.Fair) (id : Bytes) :
    (d.removeConsumer id).Fair := by
  refine ⟨h.serving.removeConsumer id, ?_⟩
  have hsub := sublist_removeFirst id d.consumers d.nextIdx
  cases d with
  | plain p => exact fun c hc => h.within c (hsub.subset hc)
  | priority pd => exact fun c hc => h.within c (hsub.subset hc)

end AnyDispatcher

def QueueAction.Joins : QueueAction -> Prop
  | .addConsumer _ c => c.id ≠ [] ∧ c.inFlight = []
  | _ => True

theorem Moves.fair {a : QueueAction} {q q' : QueueState} (h : Moves a q q')
    (hjoins : a.Joins) (hq : q.dispatcher.Fair) : q'.dispatcher.Fair := by
  cases h with
  | addConsumer topic c ha =>
    rw [ha] at hjoins
    exact hq.addConsumer hjoins.left hjoins.right
  | removeConsumer id => exact hq.removeConsumer id
  | dispatch ds offset env now =>
    have hfair := AnyDispatcher.fair_dispatch hq offset env
    rcases QueueState.dispatch_spec { q with delayHeap := ds } offset env now
      with ⟨_, _, hdispatch⟩ | ⟨_, _, hdispatch⟩
    · rw [hdispatch]
      exact hfair
    · rw [hdispatch]
      exact hfair
  | track b tracker _ => exact hq
  | delay ds => exact hq

namespace QueueEngine

theorem fair_newQueueState (e : QueueEngine) :
    e.newQueueState.dispatcher.Fair := by
  unfold newQueueState newDispatcher
  split
  · exact ⟨⟨Or.inr ⟨rfl, rfl⟩, List.forall_mem_nil _⟩, List.forall_mem_nil _⟩
  · exact ⟨⟨Or.inr ⟨rfl, rfl⟩, List.forall_mem_nil _⟩, List.forall_mem_nil _⟩

variable {priorityEnabled : Bool} {actions : List QueueAction} {e : QueueEngine}
  {topic : Bytes} {q : QueueState}

theorem fair_run (hjoins : forall a, a ∈ actions -> a.Joins)
    (hrun : run? step (newQueueEngine priorityEnabled) actions = some e)
    (hq : e.queue? topic = some q) : q.dispatcher.Fair := by
  have hall : forall topic q, e.queue? topic = some q -> q.dispatcher.Fair := by
    refine @run?_invariant_of_meets _ _ step _ (fun e => forall topic q,
      e.queue? topic = some q -> q.dispatcher.Fair) ?_ _ _ _
      (fun _ _ h => by cases h) (meets_of_forall hjoins) hrun
    intro e a e' h hjoins hstep other q hq
    rcases step_moves hstep with he | ⟨topic, q', he, hmoves⟩
    · rw [he] at hq
      exact h other q hq
    rw [he, queue?_putQueue] at hq
    split at hq
    · cases hq
      apply hmoves.fair hjoins
      cases hold : e.queue? topic with
      | none => exact e.fair_newQueueState
      | some q0 => exact h topic q0 hold
    · exact h other q hq
  exact hall topic q hq

/--
In every run whose consumers are new when they are added, none has more in
flight than it asked for, and a message is handed out exactly if one that
handles its priority has room.
-/
theorem within_and_served (hjoins : forall a, a ∈ actions -> a.Joins)
    (hrun : run? step (newQueueEngine priorityEnabled) actions = some e)
    (hq : e.queue? topic = some q) :
    (forall c, c ∈ q.dispatcher.consumers ->
        (c.inFlightCount : Int) ≤ max c.prefetch 0) ∧
      forall partID offset env now,
        (exists id, (e.tryDispatch topic partID offset env now).2 = .ok id) <->
          q.dispatcher.Takes env := by
  have hfair := fair_run hjoins hrun hq
  refine ⟨hfair.within, ?_⟩
  intro partID offset env now
  rw [← AnyDispatcher.dispatch_ok_iff hfair.serving offset env]
  unfold tryDispatch
  rw [hq]
  rcases q.dispatch_spec offset env now with
    ⟨_, hr, hdispatch⟩ | ⟨_, hr, hdispatch⟩
  · simp only [hdispatch, hr]
  · simp only [hdispatch, hr]

def sharedRun : List QueueAction :=
  [.addConsumer [7] ⟨[1], 1, []⟩, .addConsumer [7] ⟨[2], 1, []⟩,
    .tryDispatch [7] 0 0 .zero 10, .tryDispatch [7] 0 1 .zero 11]

/-- Two messages are handed out, one to each consumer, and no third one. -/
theorem within_and_served_sharedRun :
    exists e q, run? step (newQueueEngine true) sharedRun = some e ∧
      e.queue? [7] = some q ∧
      q.dispatcher.consumers = [⟨[1], 1, [0]⟩, ⟨[2], 1, [1]⟩] ∧
      (forall c, c ∈ q.dispatcher.consumers ->
        (c.inFlightCount : Int) ≤ max c.prefetch 0) ∧
      forall partID offset env now,
        ¬ exists id, (e.tryDispatch [7] partID offset env now).2 = .ok id := by
  have hboth : ((run? step (newQueueEngine true) sharedRun).bind
      (fun e => e.queue? [7])).map (fun q => q.dispatcher.consumers) =
        some [⟨[1], 1, [0]⟩, ⟨[2], 1, [1]⟩] := by
    decide +kernel
  rcases Option.map_eq_some_iff.mp hboth with ⟨q, hbind, hconsumers⟩
  rcases Option.bind_eq_some_iff.mp hbind with ⟨e, hrun, hq⟩
  have hboth := @within_and_served true sharedRun e [7] q
    (by
      simp only [sharedRun, List.forall_mem_cons]
      exact ⟨⟨List.cons_ne_nil _ _, rfl⟩, ⟨List.cons_ne_nil _ _, rfl⟩, trivial,
        trivial, List.forall_mem_nil _⟩) hrun hq
  refine ⟨e, q, hrun, hq, hconsumers, hboth.left, ?_⟩
  intro partID offset env now
  rw [hboth.right]
  rintro ⟨c, hc, -, hroom⟩
  have hfull : forall c, c ∈ q.dispatcher.consumers -> c.hasRoom = false := by
    rw [hconsumers]
    decide
  rw [hfull c hc] at hroom
  cases hroom

end QueueEngine

end Queue
end ChimeraMQ
