import ChimeraMQ.Foundation.Bytes
import ChimeraMQ.Foundation.Entries
import ChimeraMQ.Foundation.Run

/-!
# Acknowledgements

The messages of a queue that wait for an acknowledgement, by their offsets, and
the channel of offsets to deliver again.  A send to the channel does not block:
a full channel drops the offset.
-/

namespace ChimeraMQ
namespace Queue

open Foundation

structure PendingMsg where
  offset : Nat
  consumerID : Bytes
  deliveredAt : Int
  deliverCount : Nat
  maxRetries : Nat
deriving DecidableEq

/-- The pending messages and the channel of offsets to deliver again. -/
structure AckTracker where
  pending : List (Nat × PendingMsg)
  visTimeout : Int
  redeliverChan : List Nat
deriving DecidableEq

def redeliverCap : Nat := 10000

def newAckTracker (visTimeout : Int) : AckTracker where
  pending := []
  visTimeout := visTimeout
  redeliverChan := []

namespace AckTracker

/-- Add a message to the pending ones. -/
def track (tracker : AckTracker) (offset : Nat) (consumerID : Bytes)
    (deliverCount maxRetries : Nat) (now : Int) : AckTracker :=
  { tracker with
    pending := setEntry offset
      { offset := offset
        consumerID := consumerID
        deliveredAt := now
        deliverCount := deliverCount
        maxRetries := maxRetries } tracker.pending }

def untrack (tracker : AckTracker) (offset : Nat) : AckTracker :=
  { tracker with pending := deleteEntry offset tracker.pending }

def ack (tracker : AckTracker) (offset : Nat) : AckTracker × Bool :=
  match getEntry offset tracker.pending with
  | none => (tracker, false)
  | some _ => (tracker.untrack offset, true)

def hasRoom (tracker : AckTracker) : Bool :=
  tracker.redeliverChan.length < redeliverCap

def redeliver (tracker : AckTracker) (offset : Nat) : AckTracker :=
  if tracker.hasRoom then
    { tracker with redeliverChan := tracker.redeliverChan ++ [offset] }
  else tracker

/-- Whether a message that is rejected once more has no retries left. -/
def exhausted (m : PendingMsg) : Bool :=
  m.maxRetries > 0 ∧ (m.deliverCount + 1) % 2 ^ 32 ≥ m.maxRetries

/--
Mark a message for another delivery; returns whether it is a dead letter and
how often it was delivered.
-/
def nack (tracker : AckTracker) (offset : Nat) : AckTracker × Bool × Nat :=
  match getEntry offset tracker.pending with
  | none => (tracker, false, 0)
  | some m =>
    let deliverCount := (m.deliverCount + 1) % 2 ^ 32
    if exhausted m then (tracker.untrack offset, true, deliverCount)
    else ((tracker.untrack offset).redeliver offset, false, deliverCount)

def expired (tracker : AckTracker) (now : Int) (m : PendingMsg) : Bool :=
  now - m.deliveredAt > tracker.visTimeout

def expire (now : Int) (tracker : AckTracker) (e : Nat × PendingMsg) :
    AckTracker :=
  if tracker.expired now e.2 then (tracker.untrack e.1).redeliver e.1
  else tracker

def visibilityTimeout (tracker : AckTracker)
    (order : MapOrder (Nat × PendingMsg)) (now : Int) : AckTracker :=
  (order.order tracker.pending).foldl (expire now) tracker

def receive (tracker : AckTracker) : Option (AckTracker × Nat) :=
  match tracker.redeliverChan with
  | [] => none
  | offset :: rest => some ({ tracker with redeliverChan := rest }, offset)

/-!
## What stays pending
-/

@[simp] theorem pending_redeliver (tracker : AckTracker) (offset : Nat) :
    (tracker.redeliver offset).pending = tracker.pending := by
  unfold redeliver
  by_cases hroom : tracker.hasRoom = true
  · rw [if_pos hroom]
  · rw [if_neg hroom]

@[simp] theorem visTimeout_redeliver (tracker : AckTracker) (offset : Nat) :
    (tracker.redeliver offset).visTimeout = tracker.visTimeout := by
  unfold redeliver
  by_cases hroom : tracker.hasRoom = true
  · rw [if_pos hroom]
  · rw [if_neg hroom]

theorem pending_ack (tracker : AckTracker) (offset : Nat) :
    (tracker.ack offset).1.pending = deleteEntry offset tracker.pending := by
  unfold ack
  cases hget : getEntry offset tracker.pending with
  | none => exact (deleteEntry_of_not_mem (getEntry_eq_none_iff.mp hget)).symm
  | some m => rfl

theorem pending_nack (tracker : AckTracker) (offset : Nat) :
    (tracker.nack offset).1.pending = deleteEntry offset tracker.pending := by
  unfold nack
  cases hget : getEntry offset tracker.pending with
  | none => exact (deleteEntry_of_not_mem (getEntry_eq_none_iff.mp hget)).symm
  | some m =>
  by_cases hlast : exhausted m = true
  · simp only [hlast, if_true]
    rfl
  · simp only [hlast, Bool.false_eq_true, if_false, pending_redeliver]
    rfl

theorem pending_foldl_expire (now : Int) (tracker : AckTracker)
    (entries : List (Nat × PendingMsg)) :
    (entries.foldl (expire now) tracker).pending =
      tracker.pending.filter (fun x => x.1 ∉
        (entries.filter (fun e => tracker.expired now e.2)).map Prod.fst) := by
  induction entries generalizing tracker with
  | nil =>
    apply Eq.symm
    apply List.filter_eq_self.mpr
    intro x _
    exact decide_eq_true (List.not_mem_nil)
  | cons e entries ih =>
  have hexpired : (fun x : Nat × PendingMsg =>
      (expire now tracker e).expired now x.2) =
        fun x => tracker.expired now x.2 := by
    funext x
    unfold expire expired
    by_cases hpast : decide (now - e.2.deliveredAt >
        tracker.visTimeout) = true
    · rw [if_pos hpast, visTimeout_redeliver]
      rfl
    · rw [if_neg hpast]
  rw [List.foldl_cons, ih, hexpired]
  unfold expire
  by_cases hpast : tracker.expired now e.2 = true
  · rw [if_pos hpast, pending_redeliver, untrack, deleteEntry,
      List.filter_filter, List.filter_cons_of_pos (by simpa using hpast)]
    apply List.filter_congr
    intro x _
    simp only [List.map_cons, List.mem_cons, not_or, Bool.decide_and,
      Bool.and_comm]
  · rw [if_neg hpast,
      List.filter_cons_of_neg (by simpa using hpast)]

theorem mem_pending_visibilityTimeout {tracker : AckTracker}
    (hkeys : (tracker.pending.map Prod.fst).Nodup)
    (order : MapOrder (Nat × PendingMsg)) (now : Int) {e : Nat × PendingMsg} :
    e ∈ (tracker.visibilityTimeout order now).pending <->
      e ∈ tracker.pending ∧ tracker.expired now e.2 = false := by
  unfold visibilityTimeout
  rw [pending_foldl_expire, List.mem_filter, decide_eq_true_eq]
  constructor
  · intro h
    refine ⟨h.left, ?_⟩
    apply Bool.eq_false_iff.mpr
    intro hpast
    apply h.right
    apply List.mem_map_of_mem
    apply List.mem_filter.mpr
    exact ⟨(order.perm tracker.pending).mem_iff.mpr h.left, hpast⟩
  intro h
  refine ⟨h.left, ?_⟩
  intro hmem
  rcases List.mem_map.mp hmem with ⟨x, hx, hkey⟩
  rcases List.mem_filter.mp hx with ⟨hxmem, hpast⟩
  have hin := (order.perm tracker.pending).mem_iff.mp hxmem
  have hsame : x.2 = e.2 := by
    have hget := getEntry_of_mem hkeys hin
    rw [hkey, getEntry_of_mem hkeys h.left, Option.some.injEq] at hget
    exact hget.symm
  rw [hsame, h.right] at hpast
  cases hpast

theorem nodup_visibilityTimeout {tracker : AckTracker}
    (hkeys : (tracker.pending.map Prod.fst).Nodup)
    (order : MapOrder (Nat × PendingMsg)) (now : Int) :
    ((tracker.visibilityTimeout order now).pending.map Prod.fst).Nodup := by
  unfold visibilityTimeout
  rw [pending_foldl_expire]
  exact hkeys.sublist (List.filter_sublist.map _)

theorem nodup_deleteEntry {tracker : AckTracker}
    (hkeys : (tracker.pending.map Prod.fst).Nodup) (offset : Nat) :
    ((deleteEntry offset tracker.pending).map Prod.fst).Nodup :=
  hkeys.sublist (List.filter_sublist.map _)

end AckTracker

inductive AckAction where
  | track (offset : Nat) (consumerID : Bytes) (deliverCount maxRetries : Nat)
      (now : Int)
  | ack (offset : Nat)
  | nack (offset : Nat)
  | visibilityTimeout (order : MapOrder (Nat × PendingMsg)) (now : Int)
  | receive

def AckTracker.step (tracker : AckTracker) : AckAction -> Option AckTracker
  | .track offset consumerID deliverCount maxRetries now =>
    some (tracker.track offset consumerID deliverCount maxRetries now)
  | .ack offset => some (tracker.ack offset).1
  | .nack offset => some (tracker.nack offset).1
  | .visibilityTimeout order now => some (tracker.visibilityTimeout order now)
  | .receive => tracker.receive.map Prod.fst

end Queue
end ChimeraMQ
