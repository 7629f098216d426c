import ChimeraMQ.Queue.Engine

/-!
# Prefetch accounting

The offsets in flight at a consumer are those that are pending with its id, as
long as no message of a registered consumer leaves the tracker, no offset is
handed out while it is pending and no waiting message is handed out by a flush.
-/

namespace ChimeraMQ
namespace Queue

open Foundation
open Message

/-!
## Dispatching
-/

namespace PriorityDispatcher

def NoneTakesWaiting (pd : PriorityDispatcher) : Prop :=
  forall priority, priority < maxPriorityLevels -> pd.level priority ≠ [] ->
    forall c, c ∈ pd.consumers ->
      (pd.handles priority c && c.hasRoom) = false

instance (pd : PriorityDispatcher) : Decidable pd.NoneTakesWaiting :=
  inferInstanceAs (Decidable (forall _, _ -> _))

variable {pd : PriorityDispatcher}

theorem tryDispatchToConsumer_busy {priority : Nat}
    (hbusy : forall c, c ∈ pd.consumers ->
      (pd.handles priority c && c.hasRoom) = false) (offset : Nat) :
    exists nextIdx, pd.tryDispatchToConsumer offset priority =
        ({ pd with nextIdx := nextIdx }, []) ∧
      (pd.nextIdx < pd.consumers.length -> nextIdx < pd.consumers.length) := by
  rcases takeTurns_cases (pd.handles priority) offset pd.consumers.length
    pd.consumers pd.nextIdx with
    ⟨hnone, hsame⟩ | ⟨front, c, back, hsplit, hhandles, hroom, _, _⟩
  · refine ⟨_, ?_, fun hlt => nextIdx_takeTurns (pd.handles priority) offset
      pd.consumers.length hlt⟩
    unfold tryDispatchToConsumer
    simp only [hnone, hsame, Option.getD_none]
  · have hc := hbusy c (by rw [hsplit]; simp)
    rw [hhandles, hroom] at hc
    cases hc

theorem flushLevel_busy {priority : Nat} (hbusy : forall c, c ∈ pd.consumers ->
      (pd.handles priority c && c.hasRoom) = false) (queue : List Nat) :
    exists nextIdx, flushLevel priority queue pd =
        ({ pd with nextIdx := nextIdx }, queue) ∧
      (pd.nextIdx < pd.consumers.length -> nextIdx < pd.consumers.length) := by
  induction queue generalizing pd with
  | nil => exact ⟨pd.nextIdx, rfl, id⟩
  | cons offset queue ih =>
  rcases tryDispatchToConsumer_busy hbusy offset with
    ⟨first, hfirst, hturn⟩
  have hrest : forall c,
      c ∈ ({ pd with nextIdx := first } : PriorityDispatcher).consumers ->
      (({ pd with nextIdx := first } : PriorityDispatcher).handles
        priority c && c.hasRoom) = false := hbusy
  rcases ih hrest with ⟨last, hlast, hturns⟩
  refine ⟨last, ?_, fun hlt => hturns (hturn hlt)⟩
  unfold flushLevel
  rw [hfirst]
  simp only [ne_eq, not_true, if_false, hlast]

theorem set_level (pd : PriorityDispatcher) (priority : Nat) :
    pd.levels.set priority (pd.level priority) = pd.levels := by
  unfold level
  by_cases hlt : priority < pd.levels.length
  · rw [List.getElem?_eq_getElem hlt]
    exact List.set_getElem_self hlt
  · exact List.set_eq_of_length_le (Nat.le_of_not_lt hlt)

theorem flushLevels_busy (hbusy : pd.NoneTakesWaiting) {n : Nat}
    (hn : n ≤ maxPriorityLevels) :
    exists nextIdx, flushLevels n pd = { pd with nextIdx := nextIdx } ∧
      (pd.nextIdx < pd.consumers.length -> nextIdx < pd.consumers.length) := by
  induction n generalizing pd with
  | zero => exact ⟨pd.nextIdx, rfl, id⟩
  | succ n ih =>
  have hlevel : exists nextIdx, flushLevel n (pd.level n) pd =
      ({ pd with nextIdx := nextIdx }, pd.level n) ∧
      (pd.nextIdx < pd.consumers.length ->
        nextIdx < pd.consumers.length) := by
    by_cases hempty : pd.level n = []
    · rw [hempty]
      exact ⟨pd.nextIdx, rfl, id⟩
    · exact flushLevel_busy (hbusy n hn hempty) _
  rcases hlevel with ⟨first, hfirst, hturn⟩
  have hrest : ({ pd with nextIdx := first } :
      PriorityDispatcher).NoneTakesWaiting := hbusy
  rcases ih hrest (Nat.le_of_succ_le hn) with ⟨last, hlast, hturns⟩
  refine ⟨last, ?_, fun hlt => hturns (hturn hlt)⟩
  unfold flushLevels
  rw [hfirst]
  simp only [set_level]
  exact hlast

theorem flushQueued_busy (hbusy : pd.NoneTakesWaiting) :
    exists nextIdx, pd.flushQueued = { pd with nextIdx := nextIdx } ∧
      (pd.nextIdx < pd.consumers.length -> nextIdx < pd.consumers.length) :=
  flushLevels_busy hbusy (Nat.le_refl _)

def HandlesAll (pd : PriorityDispatcher) : Prop :=
  forall e, e ∈ pd.consumerMaxP -> e.2 = 9

theorem HandlesAll.handles (h : pd.HandlesAll) {priority : Nat}
    (hpriority : priority ≤ 9) (c : QueueConsumer) :
    pd.handles priority c = true := by
  unfold PriorityDispatcher.handles
  cases hget : getEntry c.id pd.consumerMaxP with
  | none => exact decide_eq_true hpriority
  | some maxP =>
  have hmax := h (c.id, maxP) (mem_of_getEntry hget)
  simp only at hmax
  rw [hmax]
  exact decide_eq_true hpriority

theorem priorityOf_le (env : Envelope) : priorityOf env ≤ 9 := by
  unfold priorityOf
  by_cases hhigh : env.priority > 9
  · rw [if_pos hhigh]
  · rw [if_neg hhigh]
    exact UInt8.le_iff_toNat_le.mp (UInt8.not_lt.mp hhigh)

end PriorityDispatcher

namespace AnyDispatcher

def HasTaker (d : AnyDispatcher) : Prop :=
  exists c, c ∈ d.consumers ∧ c.hasRoom = true

instance (d : AnyDispatcher) : Decidable d.HasTaker :=
  inferInstanceAs (Decidable (exists c, c ∈ d.consumers ∧ c.hasRoom = true))

def nextIdx : AnyDispatcher -> Nat
  | .plain d => d.nextIdx
  | .priority pd => pd.nextIdx

structure Orderly (d : AnyDispatcher) : Prop where
  ids : (d.consumers.map QueueConsumer.id).Nodup
  turn : d.nextIdx < d.consumers.length ∨ d.consumers = [] ∧ d.nextIdx = 0
  named : forall pd, d = .priority pd ->
    pd.HandlesAll ∧ forall c, c ∈ pd.consumers -> c.id ≠ []

variable {d : AnyDispatcher}

theorem Orderly.of_ids {d' : AnyDispatcher} (h : d.Orderly)
    (hids : d'.consumers.map QueueConsumer.id =
      d.consumers.map QueueConsumer.id)
    (hturn : d'.nextIdx < d'.consumers.length)
    (hnamed : forall pd', d' = .priority pd' -> exists pd, d = .priority pd ∧
      pd'.consumerMaxP = pd.consumerMaxP) : d'.Orderly := by
  constructor
  · rw [hids]
    exact h.ids
  · exact Or.inl hturn
  intro pd' hpd'
  rcases hnamed pd' hpd' with ⟨pd, hpd, hsame⟩
  rcases h.named pd hpd with ⟨hall, hnames⟩
  constructor
  · intro e he
    rw [hsame] at he
    exact hall e he
  intro x hx
  have hmem : x.id ∈ d.consumers.map QueueConsumer.id := by
    rw [← hids, hpd']
    exact List.mem_map_of_mem hx
  rcases List.mem_map.mp hmem with ⟨y, hy, hyx⟩
  rw [← hyx]
  rw [hpd] at hy
  exact hnames y hy

theorem map_id_take (front back : List QueueConsumer) (c : QueueConsumer)
    (offset : Nat) :
    (front ++ c.take offset :: back).map QueueConsumer.id =
      (front ++ c :: back).map QueueConsumer.id := by
  rw [List.map_append, List.map_append, List.map_cons, List.map_cons,
    QueueConsumer.id_take]

structure Dispatched (d : AnyDispatcher) (offset : Nat)
    (r : AnyDispatcher × Except DispatchError Bytes) : Prop where
  orderly : r.1.Orderly
  cases :
    (¬ d.HasTaker ∧ (exists err, r.2 = .error err) ∧
        r.1.consumers = d.consumers) ∨
      exists front c back, d.consumers = front ++ c :: back ∧
        c.hasRoom = true ∧ r.2 = .ok c.id ∧
        r.1.consumers = front ++ c.take offset :: back

theorem not_hasTaker_of_busy
    (hbusy : forall c, c ∈ d.consumers -> c.hasRoom = false) :
    ¬ d.HasTaker := by
  intro htaker
  rcases htaker with ⟨c, hc, hroom⟩
  rw [hbusy c hc] at hroom
  cases hroom

theorem dispatched_plain {p : Dispatcher} (h : (plain p).Orderly)
    (offset : Nat) (env : Envelope) :
    Dispatched (.plain p) offset ((plain p).dispatch offset env) := by
  simp only [dispatch, Dispatcher.dispatch]
  by_cases hempty : p.consumers.length = 0
  · rw [if_pos hempty]
    refine ⟨h, Or.inl ⟨?_, ⟨_, rfl⟩, rfl⟩⟩
    apply not_hasTaker_of_busy
    intro c hc
    change c ∈ p.consumers at hc
    rw [List.length_eq_zero_iff.mp hempty] at hc
    cases hc
  have hlt := InTurn.lt h.turn hempty
  have hnext := nextIdx_takeTurns (fun _ => true) offset p.consumers.length
    hlt
  rw [if_neg hempty]
  rcases takeTurns_cases (fun _ => true) offset p.consumers.length
    p.consumers p.nextIdx with
    ⟨hnone, hsame⟩ | ⟨front, c, back, hsplit, _, hroom, htaken, hafter⟩
  · constructor
    · apply h.of_ids
      · exact congrArg _ hsame
      · simp only [AnyDispatcher.nextIdx, consumers, hsame]
        exact hnext
      · intro pd' hpd'
        cases hpd'
    refine Or.inl ⟨?_, ?_, hsame⟩
    · apply not_hasTaker_of_busy
      intro c hc
      have hbusy := (takeTurns_none_iff hlt).mp hnone c hc
      rw [Bool.true_and] at hbusy
      exact hbusy
    · simp only [hnone]
      exact ⟨_, rfl⟩
  have hids := map_id_take front back c offset
  constructor
  · apply h.of_ids
    · simp only [consumers, hafter, hids, ← hsplit]
    · have hlen := congrArg List.length hids
      rw [List.length_map, List.length_map, ← hsplit] at hlen
      simp only [AnyDispatcher.nextIdx, consumers, hafter, hlen]
      exact hnext
    · intro pd' hpd'
      cases hpd'
  · refine Or.inr ⟨front, c, back, hsplit, hroom, ?_, hafter⟩
    simp only [htaken]

theorem dispatched_priority {pd : PriorityDispatcher}
    (h : (priority pd).Orderly) (offset : Nat) (env : Envelope) :
    Dispatched (.priority pd) offset ((priority pd).dispatch offset env) := by
  rcases h.named pd rfl with ⟨hall, hnames⟩
  have hhandles := fun c => hall.handles (PriorityDispatcher.priorityOf_le env) c
  simp only [dispatch, PriorityDispatcher.dispatch]
  by_cases hempty : pd.consumers.length = 0
  · rw [if_pos hempty]
    refine ⟨h, Or.inl ⟨?_, ⟨_, rfl⟩, rfl⟩⟩
    apply not_hasTaker_of_busy
    intro c hc
    change c ∈ pd.consumers at hc
    rw [List.length_eq_zero_iff.mp hempty] at hc
    cases hc
  have hlt := InTurn.lt h.turn hempty
  rw [if_neg hempty]
  generalize PriorityDispatcher.priorityOf env = priority at hhandles ⊢
  have hnext := nextIdx_takeTurns (pd.handles priority) offset
    pd.consumers.length hlt
  rcases takeTurns_cases (pd.handles priority) offset pd.consumers.length
    pd.consumers pd.nextIdx with
    ⟨hnone, hsame⟩ | ⟨front, c, back, hsplit, _, hroom, htaken, hafter⟩
  · have hbusy := (takeTurns_none_iff hlt).mp hnone
    have hfull : forall c, c ∈ pd.consumers -> c.hasRoom = false := by
      intro c hc
      have hfull := hbusy c hc
      rw [hhandles c, Bool.true_and] at hfull
      exact hfull
    have hnoTaker : ¬ (AnyDispatcher.priority pd).HasTaker :=
      not_hasTaker_of_busy hfull
    have hwaiting : pd.NoneTakesWaiting := by
      intro _ _ _ c hc
      rw [hfull c hc, Bool.and_false]
    rcases PriorityDispatcher.tryDispatchToConsumer_busy hbusy offset with
      ⟨first, hfirst, hlt1⟩
    have hbusy1 : ({ pd with nextIdx := first } :
        PriorityDispatcher).NoneTakesWaiting := hwaiting
    rcases PriorityDispatcher.flushQueued_busy hbusy1 with
      ⟨second, hsecond, hlt2⟩
    have hbusy2 : forall c, c ∈ ({ pd with nextIdx := second } :
        PriorityDispatcher).consumers ->
        (({ pd with nextIdx := second } : PriorityDispatcher).handles
          priority c && c.hasRoom) = false := hbusy
    rcases PriorityDispatcher.tryDispatchToConsumer_busy hbusy2 offset with
      ⟨third, hthird, hlt3⟩
    simp only [hfirst, hsecond, hthird, ne_eq, not_true, if_false]
    constructor
    · apply h.of_ids
      · rfl
      · exact hlt3 (hlt2 (hlt1 hlt))
      · intro pd' hpd'
        cases hpd'
        exact ⟨pd, rfl, rfl⟩
    · exact Or.inl ⟨hnoTaker, ⟨_, rfl⟩, rfl⟩
  · have hids := map_id_take front back c offset
    have hname : c.id ≠ [] := hnames c (by rw [hsplit]; simp)
    have htry : pd.tryDispatchToConsumer offset priority =
        ({ pd with
            consumers := front ++ c.take offset :: back
            nextIdx := (takeTurns (pd.handles priority) offset
              pd.consumers.length pd.consumers pd.nextIdx).2.1 },
          c.id) := by
      unfold PriorityDispatcher.tryDispatchToConsumer
      simp only [htaken, hafter, Option.getD_some]
    simp only [htry, ne_eq, hname, not_false_iff, if_true]
    constructor
    · apply h.of_ids
      · simp only [consumers, hids, ← hsplit]
      · have hlen := congrArg List.length hids
        rw [List.length_map, List.length_map, ← hsplit] at hlen
        simp only [AnyDispatcher.nextIdx, consumers, hlen]
        exact hnext
      · intro pd' hpd'
        cases hpd'
        exact ⟨pd, rfl, rfl⟩
    · exact Or.inr ⟨front, c, back, hsplit, hroom, rfl, rfl⟩

theorem dispatched (h : d.Orderly) (offset : Nat) (env : Envelope) :
    Dispatched d offset (d.dispatch offset env) := by
  cases d with
  | plain p => exact dispatched_plain h offset env
  | priority pd => exact dispatched_priority h offset env

theorem Orderly.addConsumer (h : d.Orderly) {c : QueueConsumer}
    (hnew : c.id ∉ d.consumers.map QueueConsumer.id)
    (hclean : forall pd, d = .priority pd ->
      c.id ≠ [] ∧ (pd.register c).NoneTakesWaiting) :
    (d.addConsumer c).consumers = d.consumers ++ [c] ∧
      (d.addConsumer c).Orderly := by
  have hids : ((d.consumers ++ [c]).map QueueConsumer.id).Nodup := by
    rw [List.map_append, List.map_singleton]
    apply List.nodup_append.mpr
    refine ⟨h.ids, by simp, ?_⟩
    intro x hx y hy hxy
    rw [List.mem_singleton.mp hy] at hxy
    rw [hxy] at hx
    exact hnew hx
  have hlt : d.nextIdx < (d.consumers ++ [c]).length := by
    rw [List.length_append, List.length_singleton]
    rcases h.turn with hlt | ⟨_, hzero⟩
    · exact Nat.lt_succ_of_lt hlt
    · rw [hzero]
      exact Nat.succ_pos _
  cases d with
  | plain p =>
    refine ⟨rfl, hids, Or.inl hlt, ?_⟩
    intro pd hpd
    cases hpd
  | priority pd =>
  rcases h.named pd rfl with ⟨hall, hnames⟩
  rcases hclean pd rfl with ⟨hname, hwaiting⟩
  rcases PriorityDispatcher.flushQueued_busy hwaiting with
    ⟨next, hflush, hnext⟩
  have hadd : (AnyDispatcher.priority pd).addConsumer c =
      .priority { pd.register c with nextIdx := next } :=
    congrArg AnyDispatcher.priority hflush
  rw [hadd]
  refine ⟨rfl, hids, Or.inl (hnext hlt), ?_⟩
  intro pd' hpd'
  cases hpd'
  constructor
  · intro e he
    unfold PriorityDispatcher.register at he
    cases hget : getEntry c.id pd.consumerMaxP with
    | none =>
      simp only [hget] at he
      rcases mem_setEntry he with heq | hold
      · rw [heq]
      · exact hall e hold
    | some maxP =>
    simp only [hget] at he
    exact hall e he
  · intro x hx
    rcases List.mem_append.mp hx with hold | hlast
    · exact hnames x hold
    · rw [List.mem_singleton.mp hlast]
      exact hname

theorem Orderly.removeConsumer (h : d.Orderly) (id : Bytes) :
    (d.removeConsumer id).consumers.Sublist d.consumers ∧
      (d.removeConsumer id).Orderly := by
  have hsub := sublist_removeFirst id d.consumers d.nextIdx
  have hturn := InTurn.removeFirst h.turn id
  cases d with
  | plain p =>
    refine ⟨hsub, h.ids.sublist (hsub.map _), hturn, ?_⟩
    intro pd hpd
    cases hpd
  | priority pd =>
  rcases h.named pd rfl with ⟨hall, hnames⟩
  refine ⟨hsub, h.ids.sublist (hsub.map _), hturn, ?_⟩
  intro pd' hpd'
  cases hpd'
  constructor
  · intro e he
    exact hall e (mem_deleteEntry.mp he).left
  · intro x hx
    exact hnames x (hsub.subset hx)

end AnyDispatcher

/-!
## Accounts
-/

def AckTracker.pendingFor (tracker : AckTracker) (id : Bytes) : List Nat :=
  (tracker.pending.filter (fun e => e.2.consumerID = id)).map Prod.fst

theorem AckTracker.mem_pendingFor {tracker : AckTracker} {id : Bytes}
    {o : Nat} :
    o ∈ tracker.pendingFor id <->
      exists m, (o, m) ∈ tracker.pending ∧ m.consumerID = id := by
  unfold AckTracker.pendingFor
  constructor
  · intro hmem
    rcases List.mem_map.mp hmem with ⟨e, he, ho⟩
    rcases List.mem_filter.mp he with ⟨hin, hid⟩
    refine ⟨e.2, ?_, of_decide_eq_true hid⟩
    rw [← ho]
    exact hin
  · intro h
    rcases h with ⟨m, hin, hid⟩
    exact List.mem_map.mpr
      ⟨(o, m), List.mem_filter.mpr ⟨hin, decide_eq_true hid⟩, rfl⟩

def Balanced (tracker : AckTracker) (c : QueueConsumer) : Prop :=
  (forall o, o ∈ c.inFlight -> o ∈ tracker.pendingFor c.id) ∧
    (forall o, o ∈ tracker.pendingFor c.id -> o ∈ c.inFlight)

instance (tracker : AckTracker) (c : QueueConsumer) :
    Decidable (Balanced tracker c) :=
  inferInstanceAs (Decidable (_ ∧ _))

theorem balanced_iff {tracker : AckTracker} {c : QueueConsumer} :
    Balanced tracker c <-> forall o, o ∈ c.inFlight <->
      exists m, (o, m) ∈ tracker.pending ∧ m.consumerID = c.id := by
  constructor
  · intro h o
    rw [← AckTracker.mem_pendingFor]
    exact ⟨h.left o, h.right o⟩
  intro h
  constructor
  · intro o ho
    exact AckTracker.mem_pendingFor.mpr ((h o).mp ho)
  · intro o ho
    exact (h o).mpr (AckTracker.mem_pendingFor.mp ho)

theorem Balanced.of_same {tracker tracker' : AckTracker} {c : QueueConsumer}
    (h : Balanced tracker c)
    (hsame : forall e, e.2.consumerID = c.id ->
      (e ∈ tracker'.pending <-> e ∈ tracker.pending)) :
    Balanced tracker' c := by
  rw [balanced_iff] at h ⊢
  intro o
  rw [h o]
  constructor
  · intro hm
    rcases hm with ⟨m, hin, hid⟩
    exact ⟨m, (hsame (o, m) hid).mpr hin, hid⟩
  · intro hm
    rcases hm with ⟨m, hin, hid⟩
    exact ⟨m, (hsame (o, m) hid).mp hin, hid⟩

namespace QueueState

def Accounted (q : QueueState) : Prop :=
  forall c, c ∈ q.dispatcher.consumers -> Balanced q.ackTracker c

structure Kept (q : QueueState) : Prop where
  orderly : q.dispatcher.Orderly
  keys : (q.ackTracker.pending.map Prod.fst).Nodup
  accounted : q.Accounted

def Unheld (q : QueueState) (offset : Nat) : Prop :=
  forall e, e ∈ q.ackTracker.pending -> e.1 = offset ->
    forall c, c ∈ q.dispatcher.consumers -> e.2.consumerID ≠ c.id

instance (q : QueueState) (offset : Nat) : Decidable (q.Unheld offset) :=
  inferInstanceAs (Decidable (forall _, _ -> _))

/-- If the message is handed out, no registered consumer has its offset. -/
def DispatchesCleanly (q : QueueState) (offset : Nat) : Prop :=
  q.dispatcher.HasTaker -> q.Unheld offset

instance (q : QueueState) (offset : Nat) :
    Decidable (q.DispatchesCleanly offset) :=
  inferInstanceAs (Decidable (_ -> _))

/--
A consumer that is added with a balanced account under a new id, and with which
none of the waiting messages finds a taker.
-/
def AddsCleanly (q : QueueState) (c : QueueConsumer) : Prop :=
  c.id ∉ q.dispatcher.consumers.map QueueConsumer.id ∧
    Balanced q.ackTracker c ∧
    match q.dispatcher with
    | .plain _ => True
    | .priority pd => c.id ≠ [] ∧ (pd.register c).NoneTakesWaiting

instance (q : QueueState) (c : QueueConsumer) : Decidable (q.AddsCleanly c) :=
  haveI : Decidable (match q.dispatcher with
      | .plain _ => True
      | .priority pd => c.id ≠ [] ∧ (pd.register c).NoneTakesWaiting) :=
    match q.dispatcher with
    | .plain _ => inferInstanceAs (Decidable True)
    | .priority _ => inferInstanceAs (Decidable (_ ∧ _))
  inferInstanceAs (Decidable (_ ∧ _ ∧ _))

def NoneExpired (q : QueueState) (now : Int) : Prop :=
  forall e, e ∈ q.ackTracker.pending -> q.ackTracker.expired now e.2 = true ->
    forall c, c ∈ q.dispatcher.consumers -> e.2.consumerID ≠ c.id

instance (q : QueueState) (now : Int) : Decidable (q.NoneExpired now) :=
  inferInstanceAs (Decidable (forall _, _ -> _))

variable {q : QueueState}

theorem Kept.of_tracker (h : q.Kept) {tracker : AckTracker}
    (hkeys : (tracker.pending.map Prod.fst).Nodup)
    (hsame : forall e c, c ∈ q.dispatcher.consumers ->
      e.2.consumerID = c.id ->
      (e ∈ tracker.pending <-> e ∈ q.ackTracker.pending)) :
    ({ q with ackTracker := tracker } : QueueState).Kept := by
  constructor
  · exact h.orderly
  · exact hkeys
  · intro c hc
    exact (h.accounted c hc).of_same (fun e he => hsame e c hc he)

theorem Kept.of_deleteEntry (h : q.Kept) {offset : Nat}
    (hfree : q.Unheld offset) {tracker : AckTracker}
    (hpending : tracker.pending = deleteEntry offset q.ackTracker.pending) :
    ({ q with ackTracker := tracker } : QueueState).Kept := by
  apply h.of_tracker
  · rw [hpending]
    exact AckTracker.nodup_deleteEntry h.keys offset
  intro e c hc hid
  rw [hpending, mem_deleteEntry]
  constructor
  · exact And.left
  · intro hin
    exact ⟨hin, fun heq => hfree e hin heq c hc hid⟩

theorem Kept.visibilityTimeout (h : q.Kept)
    (order : MapOrder (Nat × PendingMsg)) {now : Int}
    (hnone : q.NoneExpired now) :
    ({ q with
        ackTracker := q.ackTracker.visibilityTimeout order now } :
      QueueState).Kept := by
  apply h.of_tracker
  · exact AckTracker.nodup_visibilityTimeout h.keys order now
  intro e c hc hid
  rw [AckTracker.mem_pending_visibilityTimeout h.keys]
  constructor
  · exact And.left
  intro hin
  refine ⟨hin, Bool.eq_false_iff.mpr ?_⟩
  intro hpast
  exact hnone e hin hpast c hc hid

theorem Kept.removeConsumer (h : q.Kept) (id : Bytes) :
    (q.removeConsumer id).Kept := by
  rcases h.orderly.removeConsumer id with ⟨hsub, horderly⟩
  constructor
  · exact horderly
  · exact h.keys
  · intro c hc
    exact h.accounted c (hsub.subset hc)

theorem Kept.addConsumer (h : q.Kept) {c : QueueConsumer}
    (hclean : q.AddsCleanly c) : (q.addConsumer c).Kept := by
  rcases hclean with ⟨hnew, hbalanced, hflush⟩
  rcases h.orderly.addConsumer hnew
    (by intro pd hpd; rw [hpd] at hflush; exact hflush) with
    ⟨hsame, horderly⟩
  constructor
  · exact horderly
  · exact h.keys
  intro x hx
  change x ∈ (q.dispatcher.addConsumer c).consumers at hx
  rw [hsame] at hx
  rcases List.mem_append.mp hx with hold | hlast
  · exact h.accounted x hold
  · rw [List.mem_singleton.mp hlast]
    exact hbalanced

theorem Kept.dispatch (h : q.Kept) {offset : Nat} {env : Envelope} {now : Int}
    (hclean : q.DispatchesCleanly offset) :
    (q.dispatch offset env now).1.Kept := by
  have hdispatched := AnyDispatcher.dispatched h.orderly offset env
  unfold QueueState.dispatch
  rcases hdispatched.cases with
    ⟨_, ⟨err, herr⟩, hsame⟩ |
    ⟨front, c, back, hsplit, hroom, hok, hafter⟩
  · simp only [herr]
    constructor
    · exact hdispatched.orderly
    · exact h.keys
    intro x hx
    change x ∈ (q.dispatcher.dispatch offset env).1.consumers at hx
    rw [hsame] at hx
    exact h.accounted x hx
  have hmem : c ∈ q.dispatcher.consumers := by
    rw [hsplit]
    simp
  have hfree := hclean ⟨c, hmem, hroom⟩
  simp only [hok]
  constructor
  · exact hdispatched.orderly
  · exact nodup_keys_setEntry h.keys
  intro x hx
  change x ∈ (q.dispatcher.dispatch offset env).1.consumers at hx
  rw [hafter] at hx
  have hcase : x = c.take offset ∨ x ∈ q.dispatcher.consumers ∧
      x.id ≠ c.id := by
    have hids := h.orderly.ids
    rw [hsplit, List.map_append, List.map_cons, List.nodup_append] at hids
    rcases hids with ⟨_, hright, hapart⟩
    rw [List.nodup_cons] at hright
    rcases List.mem_append.mp hx with hfront | hrest
    · refine Or.inr ⟨by rw [hsplit]; exact List.mem_append_left _ hfront,
        ?_⟩
      exact hapart x.id (List.mem_map_of_mem hfront) c.id
        (List.mem_cons_self ..)
    rcases List.mem_cons.mp hrest with heq | hback
    · exact Or.inl heq
    refine Or.inr ⟨by
      rw [hsplit]
      exact List.mem_append_right _ (List.mem_cons_of_mem c hback),
      ?_⟩
    intro heq
    apply hright.left
    rw [← heq]
    exact List.mem_map_of_mem hback
  rw [balanced_iff]
  intro o
  simp only [AckTracker.track, mem_setEntry_iff h.keys]
  rcases hcase with heq | ⟨hold, hne⟩
  · rw [heq, QueueConsumer.mem_inFlight_take, QueueConsumer.id_take,
      balanced_iff.mp (h.accounted c hmem) o]
    constructor
    · intro ho
      by_cases hsame : o = offset
      · exact ⟨_, Or.inl ⟨hsame, rfl⟩, rfl⟩
      · rcases ho.resolve_left hsame with ⟨m, hin, hid⟩
        exact ⟨m, Or.inr ⟨hsame, hin⟩, hid⟩
    intro ho
    rcases ho with ⟨m, ⟨hsame, _⟩ | ⟨_, hin⟩, hid⟩
    · exact Or.inl hsame
    · exact Or.inr ⟨m, hin, hid⟩
  rw [balanced_iff.mp (h.accounted x hold) o]
  constructor
  · intro ho
    rcases ho with ⟨m, hin, hid⟩
    refine ⟨m, Or.inr ⟨?_, hin⟩, hid⟩
    intro hsame
    exact hfree (o, m) hin hsame x hold hid
  intro ho
  rcases ho with ⟨m, ⟨_, hm⟩ | ⟨_, hin⟩, hid⟩
  · rw [hm] at hid
    exact absurd hid.symm hne
  · exact ⟨m, hin, hid⟩

def DrainsCleanly (q : QueueState) : Prop :=
  forall env, (q.delayHeap.bind (fun ds => ds.readyCh.head?)) = some env ->
    q.consumers.length ≠ 0 -> q.DispatchesCleanly env.sequence.toNat

instance (q : QueueState) : Decidable q.DrainsCleanly :=
  match h : q.delayHeap.bind (fun ds => ds.readyCh.head?) with
  | none => isTrue (by intro env henv; rw [h] at henv; cases henv)
  | some env =>
  decidable_of_iff (q.consumers.length ≠ 0 ->
      q.DispatchesCleanly env.sequence.toNat)
    ⟨fun hclean env' henv => by
        rw [h, Option.some.injEq] at henv
        rw [← henv]
        exact hclean,
      fun hclean => hclean env h⟩

theorem Kept.of_delayHeap (h : q.Kept) (delayHeap : Option DelayScheduler) :
    ({ q with delayHeap := delayHeap } : QueueState).Kept where
  orderly := h.orderly
  keys := h.keys
  accounted := h.accounted

theorem Kept.drainDelayQueue {q' : QueueState} (h : q.Kept) {now : Int}
    (hclean : q.DrainsCleanly) (hdrain : q.drainDelayQueue now = some q') :
    q'.Kept := by
  unfold QueueState.drainDelayQueue at hdrain
  unfold DrainsCleanly at hclean
  cases hheap : q.delayHeap with
  | none => simp [hheap] at hdrain
  | some ds =>
  cases hready : ds.readyCh with
  | nil => simp [hheap, hready] at hdrain
  | cons env rest =>
  simp only [hheap, hready] at hdrain
  by_cases hnone : q.consumers.length = 0
  · rw [if_pos hnone, Option.some.injEq] at hdrain
    rw [← hdrain]
    exact (h.of_delayHeap _).of_delayHeap _
  rw [if_neg hnone, Option.some.injEq] at hdrain
  rw [← hdrain]
  have hhead : (q.delayHeap.bind (fun ds => ds.readyCh.head?)) =
      some env := by
    rw [hheap, Option.bind_some, hready]
    rfl
  apply (h.of_delayHeap _).dispatch
  exact hclean env hhead hnone

theorem Kept.dispatch_ok (h : q.Kept) {c : QueueConsumer}
    (hc : c ∈ q.dispatcher.consumers) (hprefetch : 0 < c.prefetch)
    (hnone : q.ackTracker.pendingFor c.id = []) (offset : Nat) (env : Envelope) :
    exists id, (q.dispatcher.dispatch offset env).2 = .ok id := by
  have hempty : c.inFlight = [] := by
    apply List.eq_nil_iff_forall_not_mem.mpr
    intro o ho
    have hmem := (h.accounted c hc).left o ho
    rw [hnone] at hmem
    cases hmem
  have htaker : q.dispatcher.HasTaker := by
    refine ⟨c, hc, decide_eq_true ?_⟩
    rw [QueueConsumer.inFlightCount, hempty]
    exact hprefetch
  rcases (AnyDispatcher.dispatched h.orderly offset env).cases with
    ⟨hnoTaker, _, _⟩ | ⟨_, taker, _, _, _, hok, _⟩
  · exact absurd htaker hnoTaker
  · exact ⟨taker.id, hok⟩

end QueueState

/-!
## Runs
-/

namespace QueueEngine

def Kept (e : QueueEngine) : Prop :=
  forall topic q, e.queue? topic = some q -> q.Kept

def AtQueue (e : QueueEngine) (topic : Bytes) (P : QueueState -> Prop) : Prop :=
  forall q, q ∈ e.queue? topic -> P q

/--
No message of a registered consumer is acknowledged, rejected or expires, none
of its offsets is handed out again, and no flush hands anything out.
-/
def StaysBalanced (e : QueueEngine) : QueueAction -> Prop
  | .addConsumer topic c =>
    ((e.queue? topic).getD e.newQueueState).AddsCleanly c
  | .tryDispatch topic _ offset _ _ =>
    e.AtQueue topic (fun q => q.DispatchesCleanly offset)
  | .handleAck topic offset => e.AtQueue topic (fun q => q.Unheld offset)
  | .handleNack topic offset => e.AtQueue topic (fun q => q.Unheld offset)
  | .visibilityTimeout topic _ now =>
    e.AtQueue topic (fun q => q.NoneExpired now)
  | .drainDelayQueue topic _ =>
    e.AtQueue topic (fun q => q.DrainsCleanly)
  | .removeConsumer _ _ => True
  | .receive _ => True
  | .scheduleDelayed _ _ => True
  | .promote _ _ _ => True

instance (e : QueueEngine) (topic : Bytes) (P : QueueState -> Prop)
    [DecidablePred P] : Decidable (e.AtQueue topic P) :=
  inferInstanceAs (Decidable (forall q, q ∈ e.queue? topic -> P q))

instance (e : QueueEngine) (a : QueueAction) : Decidable (e.StaysBalanced a) :=
  match a with
  | .addConsumer topic c =>
    inferInstanceAs (Decidable
      (((e.queue? topic).getD e.newQueueState).AddsCleanly c))
  | .tryDispatch topic _ offset _ _ =>
    inferInstanceAs (Decidable
      (e.AtQueue topic (fun q => q.DispatchesCleanly offset)))
  | .handleAck topic offset =>
    inferInstanceAs (Decidable (e.AtQueue topic (fun q => q.Unheld offset)))
  | .handleNack topic offset =>
    inferInstanceAs (Decidable (e.AtQueue topic (fun q => q.Unheld offset)))
  | .visibilityTimeout topic _ now =>
    inferInstanceAs (Decidable (e.AtQueue topic (fun q => q.NoneExpired now)))
  | .drainDelayQueue topic _ =>
    inferInstanceAs (Decidable (e.AtQueue topic (fun q => q.DrainsCleanly)))
  | .removeConsumer _ _ => inferInstanceAs (Decidable True)
  | .receive _ => inferInstanceAs (Decidable True)
  | .scheduleDelayed _ _ => inferInstanceAs (Decidable True)
  | .promote _ _ _ => inferInstanceAs (Decidable True)

theorem kept_newQueueState (e : QueueEngine) : e.newQueueState.Kept := by
  have hnil : e.newQueueState.dispatcher.consumers = [] := by
    simp only [newQueueState, newDispatcher]
    by_cases hpriority : e.priorityEnabled = true
    · rw [if_pos hpriority]
      rfl
    · rw [if_neg hpriority]
      rfl
  constructor
  · constructor
    · rw [hnil]
      exact List.nodup_nil
    · refine Or.inr ⟨hnil, ?_⟩
      simp only [newQueueState, newDispatcher]
      by_cases hpriority : e.priorityEnabled = true
      · rw [if_pos hpriority]
        rfl
      · rw [if_neg hpriority]
        rfl
    intro pd hpd
    simp only [newQueueState, newDispatcher] at hpd
    by_cases hpriority : e.priorityEnabled = true
    · rw [if_pos hpriority] at hpd
      cases hpd
      constructor
      · intro x hx
        cases hx
      · intro x hx
        cases hx
    · rw [if_neg hpriority] at hpd
      cases hpd
  · exact List.nodup_nil
  · intro c hc
    rw [hnil] at hc
    cases hc

variable {e : QueueEngine}

theorem Kept.getD (h : e.Kept) (topic : Bytes) :
    ((e.queue? topic).getD e.newQueueState).Kept := by
  cases hq : e.queue? topic with
  | none => exact e.kept_newQueueState
  | some q => exact h topic q hq

theorem Kept.putQueue (h : e.Kept) (topic : Bytes) {q : QueueState}
    (hq : q.Kept) : (e.putQueue topic q).Kept := by
  intro other q' hq'
  rw [queue?_putQueue] at hq'
  split at hq'
  · cases hq'
    exact hq
  · exact h other q' hq'

theorem Kept.onQueue {e' : QueueEngine} (h : e.Kept) {topic : Bytes}
    {f : QueueState -> Option QueueState}
    (hf : forall q q', e.queue? topic = some q -> q.Kept -> f q = some q' ->
      q'.Kept) (hdo : e.onQueue topic f = some e') : e'.Kept := by
  unfold QueueEngine.onQueue at hdo
  cases hq : e.queue? topic with
  | none => simp [hq] at hdo
  | some q =>
  simp only [hq] at hdo
  rcases Option.map_eq_some_iff.mp hdo with ⟨q', hq', he'⟩
  rw [← he']
  exact h.putQueue topic (hf q q' hq (h topic q hq) hq')

theorem Kept.step {e' : QueueEngine} {a : QueueAction} (h : e.Kept)
    (hclean : e.StaysBalanced a) (hstep : e.step a = some e') : e'.Kept := by
  cases a with
  | addConsumer topic c =>
    cases hstep
    exact h.putQueue topic ((h.getD topic).addConsumer hclean)
  | removeConsumer topic id =>
    cases hstep
    unfold QueueEngine.removeConsumer
    cases hq : e.queue? topic with
    | none => exact h
    | some q =>
      exact h.putQueue topic ((h topic q hq).removeConsumer id)
  | tryDispatch topic partID offset env now =>
    cases hstep
    unfold QueueEngine.tryDispatch
    cases hq : e.queue? topic with
    | none => exact h
    | some q =>
      exact h.putQueue topic ((h topic q hq).dispatch (hclean q hq))
  | handleAck topic offset =>
    cases hstep
    unfold QueueEngine.handleAck
    cases hq : e.queue? topic with
    | none => exact h
    | some q =>
    exact h.putQueue topic ((h topic q hq).of_deleteEntry (hclean q hq)
      (q.ackTracker.pending_ack offset))
  | handleNack topic offset =>
    cases hstep
    unfold QueueEngine.handleNack
    cases hq : e.queue? topic with
    | none => exact h
    | some q =>
    exact h.putQueue topic ((h topic q hq).of_deleteEntry (hclean q hq)
      (q.ackTracker.pending_nack offset))
  | visibilityTimeout topic order now =>
    refine h.onQueue ?_ hstep
    intro q q' hq hkept hq'
    cases hq'
    exact hkept.visibilityTimeout order (hclean q hq)
  | receive topic =>
    refine h.onQueue ?_ hstep
    intro q q' _ hkept hq'
    rcases Option.map_eq_some_iff.mp hq' with ⟨r, hr, hq'⟩
    rw [← hq']
    have hsame : r.1.pending = q.ackTracker.pending := by
      unfold AckTracker.receive at hr
      cases hchan : q.ackTracker.redeliverChan with
      | nil => simp [hchan] at hr
      | cons offset rest =>
      simp only [hchan, Option.some.injEq] at hr
      rw [← hr]
    apply hkept.of_tracker
    · rw [hsame]
      exact hkept.keys
    · intro x c _ _
      rw [hsame]
  | scheduleDelayed topic env =>
    cases hstep
    exact h.putQueue topic ((h.getD topic).of_delayHeap _)
  | promote topic i now =>
    refine h.onQueue ?_ hstep
    intro q q' _ hkept hq'
    unfold QueueState.promote at hq'
    cases hheap : q.delayHeap with
    | none => simp [hheap] at hq'
    | some ds =>
    simp only [hheap] at hq'
    rcases Option.map_eq_some_iff.mp hq' with ⟨ds', _, hds'⟩
    rw [← hds']
    exact hkept.of_delayHeap _
  | drainDelayQueue topic now =>
    refine h.onQueue ?_ hstep
    intro q q' hq hkept hq'
    exact hkept.drainDelayQueue (hclean q hq) hq'

/--
If steps leave the accounts balanced, what is in flight at a registered consumer
is what is pending with its id.
-/
theorem accounted_of_staysBalanced {priorityEnabled : Bool}
    {actions : List QueueAction} {e : QueueEngine}
    (hmeets : Meets step StaysBalanced (newQueueEngine priorityEnabled) actions)
    (hrun : run? step (newQueueEngine priorityEnabled) actions = some e)
    (topic : Bytes) (q : QueueState) (hq : e.queue? topic = some q) :
    (forall c, c ∈ q.dispatcher.consumers -> forall o,
      o ∈ c.inFlight <-> o ∈ q.ackTracker.pendingFor c.id) ∧
    forall c, c ∈ q.dispatcher.consumers -> 0 < c.prefetch ->
      q.ackTracker.pendingFor c.id = [] -> forall offset env,
        exists id, (q.dispatcher.dispatch offset env).2 = .ok id := by
  have hkept : e.Kept := by
    refine run?_invariant_of_meets (fun _ _ _ h hc hs => Kept.step h hc hs)
      ?_ hmeets hrun
    intro other q' hq'
    cases hq'
  constructor
  · intro c hc o
    exact ⟨((hkept topic q hq).accounted c hc).left o,
      ((hkept topic q hq).accounted c hc).right o⟩
  · intro c hc hprefetch hnone offset env
    exact (hkept topic q hq).dispatch_ok hc hprefetch hnone offset env

def leavingRun : List QueueAction :=
  [.addConsumer [7] ⟨[1], 1, []⟩, .addConsumer [7] ⟨[2], 1, []⟩,
    .tryDispatch [7] 0 0 .zero 10, .tryDispatch [7] 0 1 .zero 11,
    .tryDispatch [7] 0 2 .zero 12, .removeConsumer [7] [1],
    .handleAck [7] 0]

/-- The one who stays has its message in its account. -/
theorem accounted_leavingRun :
    exists e q, run? step (newQueueEngine true) leavingRun = some e ∧
      e.queue? [7] = some q ∧
      forall c, c ∈ q.dispatcher.consumers -> forall o,
        o ∈ c.inFlight <-> o ∈ q.ackTracker.pendingFor c.id := by
  have hsome : ((run? step (newQueueEngine true) leavingRun).bind
      (fun e => e.queue? [7])).isSome = true := by
    decide +kernel
  rcases Option.isSome_iff_exists.mp hsome with ⟨q, hbind⟩
  rcases Option.bind_eq_some_iff.mp hbind with ⟨e, hrun, hq⟩
  exact ⟨e, q, hrun, hq,
    (accounted_of_staysBalanced (by decide +kernel) hrun [7] q hq).left⟩

/-- An acknowledged message stays in flight at its consumer. -/
theorem acknowledged_inFlight :
    ¬ forall (priorityEnabled : Bool) (actions : List QueueAction)
      (e : QueueEngine),
      run? step (newQueueEngine priorityEnabled) actions = some e ->
      forall topic q, e.queue? topic = some q ->
        forall c, c ∈ q.dispatcher.consumers -> forall o,
          o ∈ c.inFlight <-> o ∈ q.ackTracker.pendingFor c.id := by
  intro hall
  have hcheck : ((run? step (newQueueEngine false)
      [.addConsumer [7] ⟨[1], 1, []⟩, .tryDispatch [7] 0 0 .zero 10,
        .handleAck [7] 0]).bind (fun e => e.queue? [7])).map
      (fun q => decide (q.dispatcher.consumers = [⟨[1], 1, [0]⟩] ∧
        q.ackTracker.pendingFor [1] = [])) = some true := by
    decide +kernel
  rcases Option.map_eq_some_iff.mp hcheck with ⟨q, hbind, hq⟩
  rcases Option.bind_eq_some_iff.mp hbind with ⟨e, hrun, hqueue⟩
  rcases of_decide_eq_true hq with ⟨hconsumers, hpending⟩
  have hmem := (hall false _ e hrun [7] q hqueue ⟨[1], 1, [0]⟩
    (by rw [hconsumers]; exact List.mem_singleton_self _) 0).mp
    (List.mem_singleton_self _)
  rw [hpending] at hmem
  cases hmem

end QueueEngine

end Queue
end ChimeraMQ
