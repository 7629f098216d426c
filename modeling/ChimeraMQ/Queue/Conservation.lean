import ChimeraMQ.Queue.Ledger

/-!
# Conservation of deliveries

Every tracked message is in exactly one place as long as nothing is sent to a
full channel and no offset is tracked while it is pending.  The deliveries are
numbered in the order in which they are tracked.
-/

namespace ChimeraMQ
namespace Queue

open Foundation
open Recorded

structure Deliveries where
  recorded : Recorded Nat
  tracked : Nat

namespace Deliveries

def start (visTimeout : Int) : Deliveries where
  recorded := .start visTimeout
  tracked := 0

def step (s : Deliveries) : AckAction -> Option Deliveries
  | .track offset consumerID deliverCount maxRetries now =>
    some
      { recorded := s.recorded.track offset consumerID deliverCount
          maxRetries now s.tracked
        tracked := s.tracked + 1 }
  | .ack offset => some { s with recorded := s.recorded.ack offset }
  | .nack offset => some { s with recorded := s.recorded.nack offset }
  | .visibilityTimeout order now =>
    some { s with recorded := s.recorded.visibilityTimeout order now }
  | .receive => s.recorded.receive.map (fun r => { s with recorded := r })

/--
Every delivery that was tracked is in exactly one place: it is pending,
acknowledged, a dead letter, in the channel or received from it.
-/
def Conserved (s : Deliveries) : Prop :=
  s.recorded.ledger.placed.Perm (List.range s.tracked)

variable {s : Deliveries}

theorem step_tracker (h : s.recorded.Matched) (a : AckAction) :
    (s.step a).map (fun s' => s'.recorded.tracker) =
      s.recorded.tracker.step a := by
  cases a with
  | track offset consumerID deliverCount maxRetries now => rfl
  | ack offset => rfl
  | nack offset =>
    exact congrArg some (tracker_nack s.recorded offset)
  | visibilityTimeout order now =>
    exact congrArg some
      (tracker_visibilityTimeout s.recorded order now)
  | receive =>
  have hqueued := h.queued
  simp only [step, AckTracker.step, Option.map_map, Recorded.receive,
    AckTracker.receive]
  cases hchan : s.recorded.tracker.redeliverChan with
  | nil => rfl
  | cons offset rest =>
  cases hledger : s.recorded.ledger.queued with
  | nil =>
    rw [hchan, hledger] at hqueued
    cases hqueued
  | cons e queue => rfl

/-!
## Steps
-/

structure Inv (s : Deliveries) : Prop where
  matched : s.recorded.Matched
  room : s.recorded.tracker.redeliverChan.length ≤ redeliverCap
  every : s.recorded.every.Perm (List.range s.tracked)

theorem inv_start (visTimeout : Int) : (start visTimeout).Inv where
  matched := matched_start visTimeout
  room := Nat.zero_le _
  every := List.Perm.refl _

variable {tracker : AckTracker}

theorem room_redeliver (h : tracker.redeliverChan.length ≤ redeliverCap)
    (offset : Nat) :
    (tracker.redeliver offset).redeliverChan.length ≤ redeliverCap := by
  unfold AckTracker.redeliver
  by_cases hroom : tracker.hasRoom = true
  · rw [if_pos hroom, List.length_append, List.length_singleton]
    exact of_decide_eq_true hroom
  · rw [if_neg hroom]
    exact h

theorem room_nack (h : tracker.redeliverChan.length ≤ redeliverCap)
    (offset : Nat) :
    (tracker.nack offset).1.redeliverChan.length ≤ redeliverCap := by
  unfold AckTracker.nack
  cases hget : getEntry offset tracker.pending with
  | none => exact h
  | some m =>
  by_cases hlast : AckTracker.exhausted m = true
  · simp only [hlast, if_true]
    exact h
  · simp only [hlast, Bool.false_eq_true, if_false]
    apply room_redeliver
    exact h

theorem room_visibilityTimeout (h : tracker.redeliverChan.length ≤ redeliverCap)
    (order : MapOrder (Nat × PendingMsg)) (now : Int) :
    (tracker.visibilityTimeout order now).redeliverChan.length ≤
      redeliverCap := by
  unfold AckTracker.visibilityTimeout
  generalize order.order tracker.pending = entries
  induction entries generalizing tracker with
  | nil => exact h
  | cons e entries ih =>
  rw [List.foldl_cons]
  apply ih
  unfold AckTracker.expire
  by_cases hpast : tracker.expired now e.2 = true
  · rw [if_pos hpast]
    apply room_redeliver
    exact h
  · rw [if_neg hpast]
    exact h

theorem Inv.step {s' : Deliveries} {a : AckAction} (h : s.Inv)
    (hstep : s.step a = some s') : s'.Inv := by
  have htracker := step_tracker h.matched a
  rw [hstep] at htracker
  cases a with
  | track offset consumerID deliverCount maxRetries now =>
    cases hstep
    constructor
    · exact h.matched.track offset consumerID deliverCount maxRetries now _
    · exact h.room
    · rw [List.range_succ]
      exact (every_track ..).trans
        ((h.every.cons _).trans (List.perm_append_singleton _ _).symm)
  | ack offset =>
    cases hstep
    constructor
    · exact h.matched.ack offset
    · have hroom := h.room
      simp only [Recorded.ack, AckTracker.ack]
      cases getEntry offset s.recorded.tracker.pending with
      | none => exact hroom
      | some m => exact hroom
    · exact (every_ack h.matched offset).trans h.every
  | nack offset =>
    cases hstep
    constructor
    · exact h.matched.nack offset
    · simp only [tracker_nack]
      exact room_nack h.room offset
    · exact (every_nack h.matched offset).trans h.every
  | visibilityTimeout order now =>
    cases hstep
    constructor
    · exact h.matched.visibilityTimeout order now
    · simp only [tracker_visibilityTimeout]
      exact room_visibilityTimeout h.room order now
    · exact (every_visibilityTimeout h.matched order now).trans
        h.every
  | receive =>
  rcases Option.map_eq_some_iff.mp hstep with ⟨r, hreceive, hr⟩
  rw [← hr] at htracker ⊢
  constructor
  · exact h.matched.receive hreceive
  · have hroom := h.room
    simp only [Option.map_some, AckTracker.step, AckTracker.receive]
      at htracker
    cases hchan : s.recorded.tracker.redeliverChan with
    | nil =>
      rw [hchan] at htracker
      cases htracker
    | cons offset rest =>
    simp only [hchan, Option.map_some, Option.some.injEq] at htracker
    rw [hchan, List.length_cons] at hroom
    simp only [htracker]
    omega
  · exact (every_receive hreceive).trans h.every

theorem Inv.conserved_iff (h : s.Inv) :
    s.Conserved <-> s.recorded.ledger.lost = [] := by
  constructor
  · intro hplaced
    have hlen := h.every.length_eq
    rw [Recorded.every, List.length_append, hplaced.length_eq] at hlen
    exact List.length_eq_zero_iff.mp (by omega)
  intro hlost
  have hevery := h.every
  rw [Recorded.every, hlost, List.append_nil] at hevery
  exact hevery

/-!
## What is lost
-/

/--
A step that loses nothing: an offset is tracked when it is not pending, and
what is sent to the channel finds room in it.
-/
def LosesNothing (tracker : AckTracker) : AckAction -> Prop
  | .track offset _ _ _ _ => getEntry offset tracker.pending = none
  | .nack offset =>
    (getEntry offset tracker.pending).all
      (fun m => AckTracker.exhausted m || tracker.hasRoom) = true
  | .visibilityTimeout _ now =>
    tracker.redeliverChan.length +
      (tracker.pending.filter
        (fun e => tracker.expired now e.2)).length ≤ redeliverCap
  | .ack _ => True
  | .receive => True

instance (tracker : AckTracker) (a : AckAction) :
    Decidable (LosesNothing tracker a) :=
  match a with
  | .track offset _ _ _ _ =>
    inferInstanceAs (Decidable (getEntry offset tracker.pending = none))
  | .nack offset =>
    inferInstanceAs (Decidable ((getEntry offset tracker.pending).all
      (fun m => AckTracker.exhausted m || tracker.hasRoom) = true))
  | .visibilityTimeout _ now =>
    inferInstanceAs (Decidable (tracker.redeliverChan.length +
      (tracker.pending.filter
        (fun e => tracker.expired now e.2)).length ≤ redeliverCap))
  | .ack _ => inferInstanceAs (Decidable True)
  | .receive => inferInstanceAs (Decidable True)

theorem lost_release_iff {r : Recorded Nat} (h : r.Matched) {offset : Nat}
    (hmem : offset ∈ r.tracker.pending.map Prod.fst) :
    (r.release offset).ledger.lost = [] <->
      r.ledger.lost = [] ∧ r.tracker.hasRoom = true := by
  have hone := h.length_at? hmem
  unfold Recorded.release
  by_cases hroom : r.tracker.hasRoom = true
  · simp only [hroom, if_true, and_true, Ledger.untrack]
  simp only [hroom, Bool.false_eq_true, if_false, and_false, iff_false]
  intro hlost
  rw [List.append_eq_nil_iff] at hlost
  rw [hlost.left] at hone
  cases hone

theorem expired_release (r : Recorded Nat) (offset : Nat) (now : Int)
    (m : PendingMsg) :
    (r.release offset).tracker.expired now m = r.tracker.expired now m := by
  rw [tracker_release]
  unfold AckTracker.redeliver
  by_cases hfits : (r.tracker.untrack offset).hasRoom = true
  · rw [if_pos hfits]
    rfl
  · rw [if_neg hfits]
    rfl

/-- A whole pass loses nothing exactly when all it sends finds room. -/
theorem lost_foldl_expire_iff {now : Int} {r : Recorded Nat} (h : r.Matched)
    (hroom : r.tracker.redeliverChan.length ≤ redeliverCap)
    {entries : List (Nat × PendingMsg)}
    (hnodup : (entries.map Prod.fst).Nodup)
    (hmem : forall e, e ∈ entries ->
      e.1 ∈ r.tracker.pending.map Prod.fst) :
    (entries.foldl (expire now) r).ledger.lost = [] <->
      r.ledger.lost = [] ∧
        r.tracker.redeliverChan.length +
          (entries.filter (fun e => r.tracker.expired now e.2)).length ≤
            redeliverCap := by
  induction entries generalizing r with
  | nil =>
    simp only [List.foldl_nil, List.filter_nil, List.length_nil,
      Nat.add_zero]
    exact ⟨fun hlost => ⟨hlost, hroom⟩, And.left⟩
  | cons e entries ih =>
  have he := hmem e (List.mem_cons_self ..)
  rw [List.map_cons, List.nodup_cons] at hnodup
  have hrest : forall x, x ∈ entries ->
      x.1 ∈ (r.expire now e).tracker.pending.map Prod.fst := by
    intro x hx
    apply mem_keys_expire
    · intro hxe
      apply hnodup.left
      rw [← hxe]
      exact List.mem_map_of_mem hx
    · exact hmem x (List.mem_cons_of_mem e hx)
  rw [List.foldl_cons]
  by_cases hpast : r.tracker.expired now e.2 = true
  · have hexpire : r.expire now e = r.release e.1 := by
      rw [expire, if_pos hpast]
    have hsame : (fun x : Nat × PendingMsg =>
        (r.release e.1).tracker.expired now x.2) =
          fun x => r.tracker.expired now x.2 := by
      funext x
      exact expired_release r e.1 now x.2
    have hlength : (r.release e.1).tracker.redeliverChan.length ≤
        redeliverCap := by
      rw [tracker_release]
      apply room_redeliver
      exact hroom
    rw [hexpire] at hrest ⊢
    rw [ih (h.release he) hlength hnodup.right hrest,
      lost_release_iff h he, hsame,
      List.filter_cons_of_pos (by simpa using hpast), List.length_cons]
    by_cases hfits : r.tracker.hasRoom = true
    · have hsent : (r.release e.1).tracker.redeliverChan =
          r.tracker.redeliverChan ++ [e.1] := by
        rw [tracker_release, AckTracker.redeliver,
          hasRoom_untrack, if_pos hfits]
        rfl
      rw [hsent, List.length_append, List.length_singleton]
      constructor
      · intro hall
        exact ⟨hall.left.left, by omega⟩
      · intro hall
        exact ⟨⟨hall.left, hfits⟩, by omega⟩
    · have hfull : ¬ r.tracker.redeliverChan.length < redeliverCap := by
        intro hless
        exact hfits (decide_eq_true hless)
      constructor
      · intro hall
        exact absurd hall.left.right hfits
      · intro hall
        omega
  · have hexpire : r.expire now e = r := by
      rw [expire, if_neg hpast]
    rw [hexpire] at hrest ⊢
    rw [ih h hroom hnodup.right hrest,
      List.filter_cons_of_neg (by simpa using hpast)]

theorem Inv.lost_iff {s' : Deliveries} {a : AckAction} (h : s.Inv)
    (hstep : s.step a = some s') :
    s'.recorded.ledger.lost = [] <->
      s.recorded.ledger.lost = [] ∧ LosesNothing s.recorded.tracker a := by
  cases a with
  | track offset consumerID deliverCount maxRetries now =>
    cases hstep
    simp only [Recorded.track, List.append_eq_nil_iff, LosesNothing]
    rw [h.matched.at?_eq_nil_iff, and_comm]
  | ack offset =>
    cases hstep
    simp only [Recorded.ack, Ledger.untrack, LosesNothing, and_true]
  | nack offset =>
    cases hstep
    simp only [Recorded.nack, LosesNothing]
    cases hget : getEntry offset s.recorded.tracker.pending with
    | none => simp
    | some m =>
    by_cases hlast : AckTracker.exhausted m = true
    · simp [hlast, bury, Ledger.untrack]
    simp only [hlast, Bool.false_eq_true, if_false]
    rw [lost_release_iff h.matched
      (mem_keys_of_getEntry hget)]
    simp [hlast]
  | visibilityTimeout order now =>
    cases hstep
    have hlength : ((order.order s.recorded.tracker.pending).filter
        (fun e => s.recorded.tracker.expired now e.2)).length =
          (s.recorded.tracker.pending.filter
            (fun e => s.recorded.tracker.expired now e.2)).length :=
      ((order.perm s.recorded.tracker.pending).filter _).length_eq
    simp only [Recorded.visibilityTimeout, LosesNothing]
    rw [lost_foldl_expire_iff h.matched h.room
      (nodup_order h.matched order)
      (fun _ he => mem_order order he), hlength]
  | receive =>
  rcases Option.map_eq_some_iff.mp hstep with ⟨r, hreceive, hr⟩
  rw [← hr]
  simp only [LosesNothing, and_true]
  unfold Recorded.receive at hreceive
  cases htracker : s.recorded.tracker.receive with
  | none => simp [htracker] at hreceive
  | some t =>
  cases hledger : s.recorded.ledger.queued with
  | nil => simp [htracker, hledger] at hreceive
  | cons e queue =>
  simp only [htracker, hledger, Option.some.injEq] at hreceive
  rw [← hreceive]

/-!
## Runs
-/

theorem inv_run {visTimeout : Int} {actions : List AckAction}
    (hrun : run? step (start visTimeout) actions = some s) : Inv s :=
  run?_invariant (fun _ _ _ h hs => Inv.step h hs) (inv_start visTimeout) hrun

theorem lost_run_iff {visTimeout : Int} {actions : List AckAction}
    (hrun : run? step (start visTimeout) actions = some s) :
    s.recorded.ledger.lost = [] <->
      Meets step (fun s a => LosesNothing s.recorded.tracker a)
        (start visTimeout) actions := by
  have hgood := @run?_good_iff_meets _ _ step
    (fun s a => LosesNothing s.recorded.tracker a) Inv
    (fun s => s.recorded.ledger.lost = [])
    (fun _ _ _ h hs => Inv.step h hs) (fun _ _ _ h hs => Inv.lost_iff h hs)
    (start visTimeout) s actions (inv_start visTimeout) hrun
  rw [hgood]
  constructor
  · exact And.right
  · intro hmeets
    exact ⟨rfl, hmeets⟩

/--
After every run each tracked message is in exactly one place if and only if no
step of the run lost anything.
-/
theorem conserved_iff_losesNothing {visTimeout : Int} {actions : List AckAction}
    {s : Deliveries} (hrun : run? step (start visTimeout) actions = some s) :
    s.Conserved <->
      Meets step (fun s a => LosesNothing s.recorded.tracker a)
        (start visTimeout) actions := by
  rw [(inv_run hrun).conserved_iff, lost_run_iff hrun]

def redelivered : List AckAction :=
  [.track 0 [1] 0 3 0, .track 1 [1] 0 3 0, .ack 0, .nack 1, .receive,
    .track 1 [2] 1 3 5, .visibilityTimeout (.listed _) 40]

/-- All three deliveries are in one place each. -/
theorem conserved_redelivered :
    exists s, run? step (start 30) redelivered = some s ∧ s.Conserved := by
  have hsome : (run? step (start 30) redelivered).isSome = true := by
    decide +kernel
  rcases Option.isSome_iff_exists.mp hsome with ⟨s, hrun⟩
  exact ⟨s, hrun, (conserved_iff_losesNothing hrun).mpr (by decide +kernel)⟩

/-!
## A full channel
-/

def rejected (offset : Nat) : List AckAction :=
  [.track offset [] 0 0 0, .nack offset]

theorem nack_track (hempty : tracker.pending = []) (offset : Nat) :
    ((tracker.track offset [] 0 0 0).nack offset).1 =
      tracker.redeliver offset := by
  have huntracked : (tracker.track offset [] 0 0 0).untrack offset =
      tracker := by
    rcases tracker with ⟨pending, visTimeout, redeliverChan⟩
    simp only at hempty
    simp [AckTracker.track, AckTracker.untrack, hempty, setEntry, deleteEntry]
  have hget : getEntry offset (tracker.track offset [] 0 0 0).pending =
      some ⟨offset, [], 0, 0, 0⟩ :=
    getEntry_setEntry ..
  unfold AckTracker.nack
  rw [hget]
  simp only [AckTracker.exhausted, huntracked]
  rfl

theorem run_rejected (visTimeout : Int) {n : Nat} (hn : n ≤ redeliverCap) :
    exists s, run? step (start visTimeout)
        ((List.range n).flatMap rejected) = some s ∧
      s.recorded.tracker.pending = [] ∧
      s.recorded.tracker.redeliverChan.length = n := by
  induction n with
  | zero => exact ⟨start visTimeout, rfl, rfl, rfl⟩
  | succ n ih =>
  rcases ih (Nat.le_of_succ_le hn) with ⟨s, hrun, hempty, hlen⟩
  exists
    { recorded := (s.recorded.track n [] 0 0 0 s.tracked).nack n
      tracked := s.tracked + 1 }
  refine ⟨?_, ?_, ?_⟩
  · rw [List.range_succ, List.flatMap_append, run?_append hrun]
    rfl
  · simp only [tracker_nack, Recorded.track]
    rw [nack_track hempty]
    unfold AckTracker.redeliver
    by_cases hroom : s.recorded.tracker.hasRoom = true
    · rw [if_pos hroom]
      exact hempty
    · rw [if_neg hroom]
      exact hempty
  · have hroom : s.recorded.tracker.hasRoom = true := by
      apply decide_eq_true
      omega
    simp only [tracker_nack, Recorded.track]
    rw [nack_track hempty, AckTracker.redeliver, if_pos hroom,
      List.length_append, hlen]
    rfl

theorem not_losesNothing_nack
    (hfull : tracker.redeliverChan.length = redeliverCap) (offset : Nat) :
    ¬ LosesNothing (tracker.track offset [] 0 0 0) (.nack offset) := by
  have hroom : (tracker.track offset [] 0 0 0).hasRoom = false := by
    apply decide_eq_false
    simp only [AckTracker.track]
    omega
  have hget : getEntry offset (tracker.track offset [] 0 0 0).pending =
      some ⟨offset, [], 0, 0, 0⟩ :=
    getEntry_setEntry ..
  rw [LosesNothing, hget, hroom]
  simp [AckTracker.exhausted]

/-- The message that is rejected when the channel is full disappears. -/
theorem rejected_disappears :
    ¬ forall (visTimeout : Int) (actions : List AckAction) (s : Deliveries),
      run? step (start visTimeout) actions = some s -> s.Conserved := by
  intro hall
  rcases (⟨redeliverCap, rfl⟩ : exists n, n = redeliverCap) with ⟨n, hn⟩
  rcases run_rejected 30 (Nat.le_of_eq hn) with ⟨s, hrun, _, hlen⟩
  have hmore : run? step (start 30)
      ((List.range n).flatMap rejected ++ rejected n) =
        run? step s (rejected n) :=
    run?_append hrun _
  have hconserved := hall 30 _ _ hmore
  rw [(inv_run hmore).conserved_iff] at hconserved
  have hmeets := (lost_run_iff hmore).mp hconserved
  have hlast := ((hmeets.append_right hrun).right _ rfl).left
  exact not_losesNothing_nack (hlen.trans hn) n hlast

end Deliveries

end Queue
end ChimeraMQ
