import ChimeraMQ.Queue.AckTracker

/-!
# Where deliveries are

A ledger beside the tracker that says of every delivery where it is: a delivery
is pending, acknowledged, a dead letter, queued to be delivered again or
received from the channel, or it is lost.
-/

namespace ChimeraMQ
namespace Queue

open Foundation

structure Ledger (τ : Type) where
  pending : List (Nat × τ)
  acked : List τ
  deadLettered : List τ
  queued : List (Nat × τ)
  received : List τ
  lost : List τ

structure Recorded (τ : Type) where
  tracker : AckTracker
  ledger : Ledger τ

namespace Ledger

variable {τ : Type}

def empty : Ledger τ where
  pending := []
  acked := []
  deadLettered := []
  queued := []
  received := []
  lost := []

def at? (l : Ledger τ) (offset : Nat) : List τ :=
  (getEntry offset l.pending).toList

/-- Take what is pending under an offset out of the pending deliveries. -/
def untrack (l : Ledger τ) (offset : Nat) : Ledger τ :=
  { l with pending := deleteEntry offset l.pending }

def placed (l : Ledger τ) : List τ :=
  l.pending.map Prod.snd ++ l.acked ++ l.deadLettered ++
    l.queued.map Prod.snd ++ l.received

end Ledger

namespace Recorded

variable {τ : Type}

def start (visTimeout : Int) : Recorded τ where
  tracker := newAckTracker visTimeout
  ledger := .empty

def track (r : Recorded τ) (offset : Nat) (consumerID : Bytes)
    (deliverCount maxRetries : Nat) (now : Int) (tag : τ) : Recorded τ where
  tracker := r.tracker.track offset consumerID deliverCount maxRetries now
  ledger :=
    { r.ledger with
      pending := setEntry offset tag r.ledger.pending
      lost := r.ledger.at? offset ++ r.ledger.lost }

def ack (r : Recorded τ) (offset : Nat) : Recorded τ where
  tracker := (r.tracker.ack offset).1
  ledger :=
    { r.ledger.untrack offset with
      acked := r.ledger.at? offset ++ r.ledger.acked }

/--
What is pending under the offset goes to the channel, or is lost if the channel
is full.
-/
def release (r : Recorded τ) (offset : Nat) : Recorded τ where
  tracker := (r.tracker.untrack offset).redeliver offset
  ledger :=
    if r.tracker.hasRoom then
      { r.ledger.untrack offset with
        queued := r.ledger.queued ++
          (r.ledger.at? offset).map (fun tag => (offset, tag)) }
    else
      { r.ledger.untrack offset with
        lost := r.ledger.at? offset ++ r.ledger.lost }

/-- What is pending under the offset is a dead letter. -/
def bury (r : Recorded τ) (offset : Nat) : Recorded τ where
  tracker := r.tracker.untrack offset
  ledger :=
    { r.ledger.untrack offset with
      deadLettered := r.ledger.at? offset ++ r.ledger.deadLettered }

/-- What is pending under the offset is a dead letter or delivered again. -/
def nack (r : Recorded τ) (offset : Nat) : Recorded τ :=
  match getEntry offset r.tracker.pending with
  | none => r
  | some m =>
    if AckTracker.exhausted m then r.bury offset else r.release offset

def expire (now : Int) (r : Recorded τ) (e : Nat × PendingMsg) : Recorded τ :=
  if r.tracker.expired now e.2 then r.release e.1 else r

def visibilityTimeout (r : Recorded τ) (order : MapOrder (Nat × PendingMsg))
    (now : Int) : Recorded τ :=
  (order.order r.tracker.pending).foldl (expire now) r

def receive (r : Recorded τ) : Option (Recorded τ) :=
  match r.tracker.receive, r.ledger.queued with
  | some (tracker, _), (_, tag) :: rest =>
    some
      { tracker := tracker
        ledger :=
          { r.ledger with
            queued := rest
            received := tag :: r.ledger.received } }
  | _, _ => none

@[simp] theorem tracker_release (r : Recorded τ) (offset : Nat) :
    (r.release offset).tracker =
      (r.tracker.untrack offset).redeliver offset := rfl

theorem tracker_nack (r : Recorded τ) (offset : Nat) :
    (r.nack offset).tracker = (r.tracker.nack offset).1 := by
  unfold nack AckTracker.nack
  cases hget : getEntry offset r.tracker.pending with
  | none => rfl
  | some m =>
  by_cases hlast : AckTracker.exhausted m = true
  · simp only [hlast, if_true]
    rfl
  · simp only [hlast, Bool.false_eq_true, if_false]
    rfl

theorem tracker_expire (now : Int) (r : Recorded τ) (e : Nat × PendingMsg) :
    (r.expire now e).tracker = r.tracker.expire now e := by
  unfold expire AckTracker.expire
  by_cases hpast : r.tracker.expired now e.2 = true
  · rw [if_pos hpast, if_pos hpast]
    rfl
  · rw [if_neg hpast, if_neg hpast]

theorem tracker_foldl_expire (now : Int) (r : Recorded τ)
    (entries : List (Nat × PendingMsg)) :
    (entries.foldl (expire now) r).tracker =
      entries.foldl (AckTracker.expire now) r.tracker := by
  induction entries generalizing r with
  | nil => rfl
  | cons e entries ih => rw [List.foldl_cons, ih, tracker_expire]; rfl

theorem tracker_receive {r r' : Recorded τ} (h : r.receive = some r') :
    exists offset, r.tracker.receive = some (r'.tracker, offset) := by
  unfold receive at h
  split at h
  · rename_i tracker offset _ _ _ hreceive _
    cases h
    exact ⟨offset, hreceive⟩
  · cases h

theorem tracker_visibilityTimeout (r : Recorded τ)
    (order : MapOrder (Nat × PendingMsg)) (now : Int) :
    (r.visibilityTimeout order now).tracker =
      r.tracker.visibilityTimeout order now :=
  tracker_foldl_expire now r _

/-!
## The ledger keeps to the tracker
-/

/--
The ledger has an entry for every pending message and every offset in the
channel, and no others.
-/
structure Matched (r : Recorded τ) : Prop where
  pending : r.ledger.pending.map Prod.fst = r.tracker.pending.map Prod.fst
  nodup : (r.tracker.pending.map Prod.fst).Nodup
  queued : r.ledger.queued.map Prod.fst = r.tracker.redeliverChan

theorem matched_start (visTimeout : Int) :
    (start visTimeout : Recorded τ).Matched where
  pending := rfl
  nodup := List.nodup_nil
  queued := rfl

variable {r : Recorded τ}

variable (h : r.Matched)

include h

theorem Matched.nodup_ledger : (r.ledger.pending.map Prod.fst).Nodup := by
  rw [h.pending]
  exact h.nodup

theorem Matched.at?_eq_nil_iff (offset : Nat) :
    r.ledger.at? offset = [] <->
      getEntry offset r.tracker.pending = none := by
  rw [getEntry_eq_none_iff, ← h.pending, ← getEntry_eq_none_iff, Ledger.at?,
    Option.toList_eq_nil_iff]

theorem Matched.length_at? {offset : Nat}
    (hmem : offset ∈ r.tracker.pending.map Prod.fst) :
    (r.ledger.at? offset).length = 1 := by
  rw [← h.pending] at hmem
  cases hget : getEntry offset r.ledger.pending with
  | none => exact absurd hmem (getEntry_eq_none_iff.mp hget)
  | some tag => rw [Ledger.at?, hget]; rfl

theorem Matched.untrack (offset : Nat) :
    (r.ledger.untrack offset).pending.map Prod.fst =
        (r.tracker.untrack offset).pending.map Prod.fst ∧
      ((r.tracker.untrack offset).pending.map Prod.fst).Nodup := by
  constructor
  · rw [Ledger.untrack, AckTracker.untrack, map_fst_deleteEntry,
      map_fst_deleteEntry, h.pending]
  · rw [AckTracker.untrack, map_fst_deleteEntry]
    exact h.nodup.filter _

theorem Matched.track (offset : Nat) (consumerID : Bytes)
    (deliverCount maxRetries : Nat) (now : Int) (tag : τ) :
    (r.track offset consumerID deliverCount maxRetries now tag).Matched where
  pending := by
    simp only [Recorded.track, AckTracker.track, map_fst_setEntry, h.pending]
  nodup := nodup_keys_setEntry h.nodup
  queued := h.queued

theorem Matched.ack (offset : Nat) :
    (r.ack offset).Matched := by
  rcases h.untrack offset with ⟨hpending, hnodup⟩
  cases hget : getEntry offset r.tracker.pending with
  | none =>
    have hsame : (r.tracker.ack offset).1 = r.tracker := by
      rw [AckTracker.ack, hget]
    have hkept : (r.ledger.untrack offset).pending = r.ledger.pending := by
      apply deleteEntry_of_not_mem
      rw [h.pending]
      exact getEntry_eq_none_iff.mp hget
    refine ⟨?_, ?_, ?_⟩
    · rw [Recorded.ack, hsame, ← h.pending, ← hkept]
    · rw [Recorded.ack, hsame]
      exact h.nodup
    · rw [Recorded.ack, hsame]
      exact h.queued
  | some m =>
  have htaken : (r.tracker.ack offset).1 = r.tracker.untrack offset := by
    rw [AckTracker.ack, hget]
  refine ⟨?_, ?_, ?_⟩
  · rw [Recorded.ack, htaken]
    exact hpending
  · rw [Recorded.ack, htaken]
    exact hnodup
  · rw [Recorded.ack, htaken]
    exact h.queued

theorem Matched.bury (offset : Nat) :
    (r.bury offset).Matched where
  pending := (h.untrack offset).left
  nodup := (h.untrack offset).right
  queued := h.queued

omit h in
theorem hasRoom_untrack (tracker : AckTracker) (offset : Nat) :
    (tracker.untrack offset).hasRoom = tracker.hasRoom := rfl

theorem Matched.release {offset : Nat}
    (hmem : offset ∈ r.tracker.pending.map Prod.fst) :
    (r.release offset).Matched := by
  rcases h.untrack offset with ⟨hpending, hnodup⟩
  have hone := h.length_at? hmem
  rcases List.length_eq_one_iff.mp hone with ⟨tag, htag⟩
  unfold Recorded.release AckTracker.redeliver
  by_cases hroom : r.tracker.hasRoom = true
  · rw [hasRoom_untrack, if_pos hroom, if_pos hroom]
    refine ⟨hpending, hnodup, ?_⟩
    simp only [htag, List.map_append, h.queued, AckTracker.untrack]
    rfl
  · rw [hasRoom_untrack, if_neg hroom, if_neg hroom]
    exact ⟨hpending, hnodup, h.queued⟩

omit h in
theorem mem_keys_of_getEntry {tracker : AckTracker} {offset : Nat}
    {m : PendingMsg} (hget : getEntry offset tracker.pending = some m) :
    offset ∈ tracker.pending.map Prod.fst := by
  by_contra hnot
  rw [getEntry_eq_none_iff.mpr hnot] at hget
  cases hget

theorem Matched.nack (offset : Nat) :
    (r.nack offset).Matched := by
  unfold Recorded.nack
  cases hget : getEntry offset r.tracker.pending with
  | none => exact h
  | some m =>
  by_cases hlast : AckTracker.exhausted m = true
  · simp only [hlast, if_true]
    exact h.bury offset
  · simp only [hlast, Bool.false_eq_true, if_false]
    exact h.release (mem_keys_of_getEntry hget)

theorem Matched.receive {r' : Recorded τ} (hreceive : r.receive = some r') :
    r'.Matched := by
  have hqueued := h.queued
  unfold Recorded.receive AckTracker.receive at hreceive
  cases hchan : r.tracker.redeliverChan with
  | nil => simp [hchan] at hreceive
  | cons offset rest =>
  cases hledger : r.ledger.queued with
  | nil => simp [hchan, hledger] at hreceive
  | cons e queue =>
  simp only [hchan, hledger, Option.some.injEq] at hreceive
  rw [hchan, hledger, List.map_cons, List.cons.injEq] at hqueued
  rw [← hreceive]
  exact ⟨h.pending, h.nodup, hqueued.right⟩

omit h

/-!
## Passes of the timeout loop
-/

theorem keys_release (r : Recorded τ) (offset : Nat) :
    (r.release offset).tracker.pending.map Prod.fst =
      (r.tracker.pending.map Prod.fst).filter (fun x => x ≠ offset) := by
  have hpending : ((r.tracker.untrack offset).redeliver offset).pending =
      (r.tracker.untrack offset).pending := by
    unfold AckTracker.redeliver
    by_cases hroom : (r.tracker.untrack offset).hasRoom = true
    · rw [if_pos hroom]
    · rw [if_neg hroom]
  rw [tracker_release, hpending, AckTracker.untrack, map_fst_deleteEntry]

theorem mem_keys_expire {now : Int} {e x : Nat × PendingMsg} (hne : x.1 ≠ e.1)
    (hmem : x.1 ∈ r.tracker.pending.map Prod.fst) :
    x.1 ∈ (r.expire now e).tracker.pending.map Prod.fst := by
  unfold Recorded.expire
  by_cases hpast : r.tracker.expired now e.2 = true
  · rw [if_pos hpast, keys_release]
    exact List.mem_filter.mpr ⟨hmem, by simpa using hne⟩
  · rw [if_neg hpast]
    exact hmem

theorem Matched.expire (h : r.Matched) (now : Int) {e : Nat × PendingMsg}
    (hmem : e.1 ∈ r.tracker.pending.map Prod.fst) :
    (r.expire now e).Matched := by
  unfold Recorded.expire
  by_cases hpast : r.tracker.expired now e.2 = true
  · rw [if_pos hpast]
    exact h.release hmem
  · rw [if_neg hpast]
    exact h

theorem foldl_expire_induction {now : Int} {P : Recorded τ -> Prop}
    (hkeep : forall r e, r.Matched -> P r ->
      e.1 ∈ r.tracker.pending.map Prod.fst -> P (r.expire now e))
    (hmatched : r.Matched) (hr : P r) {entries : List (Nat × PendingMsg)}
    (hnodup : (entries.map Prod.fst).Nodup)
    (hmem : forall e, e ∈ entries -> e.1 ∈ r.tracker.pending.map Prod.fst) :
    (entries.foldl (Recorded.expire now) r).Matched ∧
      P (entries.foldl (Recorded.expire now) r) := by
  induction entries generalizing r with
  | nil => exact ⟨hmatched, hr⟩
  | cons e entries ih =>
  have he := hmem e (List.mem_cons_self ..)
  rw [List.map_cons, List.nodup_cons] at hnodup
  apply ih (hmatched.expire now he) (hkeep r e hmatched hr he)
    hnodup.right
  intro x hx
  apply mem_keys_expire
  · intro hxe
    apply hnodup.left
    rw [← hxe]
    exact List.mem_map_of_mem hx
  · exact hmem x (List.mem_cons_of_mem e hx)

theorem nodup_order (h : r.Matched) (order : MapOrder (Nat × PendingMsg)) :
    ((order.order r.tracker.pending).map Prod.fst).Nodup :=
  ((order.perm r.tracker.pending).map Prod.fst).nodup_iff.mpr h.nodup

theorem mem_order (order : MapOrder (Nat × PendingMsg)) {e : Nat × PendingMsg}
    (he : e ∈ order.order r.tracker.pending) :
    e.1 ∈ r.tracker.pending.map Prod.fst :=
  List.mem_map_of_mem ((order.perm r.tracker.pending).subset he)

theorem visibilityTimeout_induction {now : Int} {P : Recorded τ -> Prop}
    (hkeep : forall r e, r.Matched -> P r ->
      e.1 ∈ r.tracker.pending.map Prod.fst -> P (r.expire now e))
    (hmatched : r.Matched) (hr : P r) (order : MapOrder (Nat × PendingMsg)) :
    (r.visibilityTimeout order now).Matched ∧
      P (r.visibilityTimeout order now) :=
  foldl_expire_induction hkeep hmatched hr (nodup_order hmatched order)
    (fun _ he => mem_order order he)

theorem Matched.visibilityTimeout (h : r.Matched)
    (order : MapOrder (Nat × PendingMsg)) (now : Int) :
    (r.visibilityTimeout order now).Matched := by
  have hkeep : forall (s : Recorded τ) (e : Nat × PendingMsg), s.Matched ->
      True -> e.1 ∈ s.tracker.pending.map Prod.fst -> True :=
    fun _ _ _ _ _ => trivial
  exact (visibilityTimeout_induction hkeep h trivial order).left

/-!
## No delivery is forgotten
-/

theorem perm_of_count {xs ys : List τ}
    (h : forall [DecidableEq τ] (x : τ), xs.count x = ys.count x) :
    xs.Perm ys := by
  classical
  exact List.perm_iff_count.mpr h

def every (r : Recorded τ) : List τ :=
  r.ledger.placed ++ r.ledger.lost

theorem every_track (r : Recorded τ) (offset : Nat) (consumerID : Bytes)
    (deliverCount maxRetries : Nat) (now : Int) (tag : τ) :
    (r.track offset consumerID deliverCount maxRetries now tag).every.Perm
      (tag :: r.every) := by
  have hset := perm_setEntry offset tag r.ledger.pending
  apply perm_of_count
  intro _ x
  have hcount := hset.count_eq x
  simp only [every, Ledger.placed, Recorded.track, Ledger.at?,
    List.count_append, List.count_cons] at hcount ⊢
  omega

theorem Matched.perm_untrack (h : r.Matched) (offset : Nat) :
    (r.ledger.at? offset ++
      (r.ledger.untrack offset).pending.map Prod.snd).Perm
        (r.ledger.pending.map Prod.snd) :=
  perm_deleteEntry h.nodup_ledger

theorem every_ack (h : r.Matched) (offset : Nat) :
    (r.ack offset).every.Perm r.every := by
  have hperm := h.perm_untrack offset
  apply perm_of_count
  intro _ x
  have hcount := hperm.count_eq x
  simp only [every, Ledger.placed, Recorded.ack, Ledger.untrack,
    List.count_append] at hcount ⊢
  omega

theorem every_bury (h : r.Matched) (offset : Nat) :
    (r.bury offset).every.Perm r.every := by
  have hperm := h.perm_untrack offset
  apply perm_of_count
  intro _ x
  have hcount := hperm.count_eq x
  simp only [every, Ledger.placed, Recorded.bury, Ledger.untrack,
    List.count_append] at hcount ⊢
  omega

theorem map_snd_tagged (offset : Nat) (tags : List τ) :
    (tags.map (fun tag => (offset, tag))).map Prod.snd = tags := by
  rw [List.map_map]
  exact List.map_id tags

theorem every_release (h : r.Matched) (offset : Nat) :
    (r.release offset).every.Perm r.every := by
  have hperm := h.perm_untrack offset
  apply perm_of_count
  intro _ x
  have hcount := hperm.count_eq x
  unfold every Recorded.release
  by_cases hroom : r.tracker.hasRoom = true
  · simp only [hroom, if_true, Ledger.placed, Ledger.untrack, List.map_append,
      map_snd_tagged, List.count_append] at hcount ⊢
    omega
  · simp only [hroom, Bool.false_eq_true, if_false, Ledger.placed,
      Ledger.untrack, List.count_append] at hcount ⊢
    omega

theorem every_nack (h : r.Matched) (offset : Nat) :
    (r.nack offset).every.Perm r.every := by
  unfold Recorded.nack
  cases hget : getEntry offset r.tracker.pending with
  | none => exact List.Perm.refl _
  | some m =>
  by_cases hlast : AckTracker.exhausted m = true
  · simp only [hlast, if_true]
    exact every_bury h offset
  · simp only [hlast, Bool.false_eq_true, if_false]
    exact every_release h offset

theorem every_visibilityTimeout (h : r.Matched)
    (order : MapOrder (Nat × PendingMsg)) (now : Int) :
    (r.visibilityTimeout order now).every.Perm r.every := by
  have hkeep : forall (s : Recorded τ) e, s.Matched -> s.every.Perm r.every ->
      e.1 ∈ s.tracker.pending.map Prod.fst ->
      (s.expire now e).every.Perm r.every := by
    intro s e hs hperm _
    unfold Recorded.expire
    by_cases hpast : s.tracker.expired now e.2 = true
    · rw [if_pos hpast]
      exact (every_release hs e.1).trans hperm
    · rw [if_neg hpast]
      exact hperm
  exact (visibilityTimeout_induction hkeep h (List.Perm.refl _) order).right

theorem every_receive {r' : Recorded τ} (hreceive : r.receive = some r') :
    r'.every.Perm r.every := by
  unfold Recorded.receive at hreceive
  cases htracker : r.tracker.receive with
  | none => simp [htracker] at hreceive
  | some t =>
  cases hledger : r.ledger.queued with
  | nil => simp [htracker, hledger] at hreceive
  | cons e queue =>
  simp only [htracker, hledger, Option.some.injEq] at hreceive
  rw [← hreceive]
  apply perm_of_count
  intro _ x
  simp only [every, Ledger.placed, hledger, List.map_cons,
    List.count_append, List.count_cons]
  omega

end Recorded

end Queue
end ChimeraMQ
