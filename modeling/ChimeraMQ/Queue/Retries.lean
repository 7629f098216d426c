import ChimeraMQ.Message.RoundTrip
import ChimeraMQ.Queue.Engine

/-!
# Retries

A message whose consumers only reject it or let it time out.  Its offset goes
from the pending messages to the channel; whoever takes it from there dispatches
the message as it was stored.
-/

namespace ChimeraMQ
namespace Queue

open Foundation
open Message
open AckTracker

/-!
## Copies of an offset
-/

namespace AckTracker

def pends (tracker : AckTracker) (offset : Nat) : Bool :=
  (getEntry offset tracker.pending).isSome

def copies (tracker : AckTracker) (offset : Nat) : Nat :=
  (tracker.pends offset).toNat + tracker.redeliverChan.count offset

theorem pends_untrack (tracker : AckTracker) (offset : Nat) :
    (tracker.untrack offset).pends offset = false := by
  rw [pends, untrack, getEntry_deleteEntry]
  rfl

variable {offset other : Nat}

theorem pends_untrack_ne (hne : offset ≠ other) (tracker : AckTracker) :
    (tracker.untrack other).pends offset = tracker.pends offset := by
  rw [pends, untrack, getEntry_deleteEntry_ne hne]
  rfl

theorem pends_redeliver (tracker : AckTracker) (offset other : Nat) :
    (tracker.redeliver other).pends offset = tracker.pends offset := by
  rw [pends, pending_redeliver]
  rfl

theorem count_redeliver_le (tracker : AckTracker) (offset other : Nat) :
    (tracker.redeliver other).redeliverChan.count offset ≤
      tracker.redeliverChan.count offset + if offset = other then 1 else 0 := by
  unfold redeliver
  by_cases hroom : tracker.hasRoom = true
  · rw [if_pos hroom, List.count_append, List.count_singleton]
    apply Nat.add_le_add_left
    by_cases hsame : offset = other
    · rw [hsame, if_pos (beq_self_eq_true other), if_pos rfl]
    · rw [if_neg (by simpa using Ne.symm hsame), if_neg hsame]
  · rw [if_neg hroom]
    exact Nat.le_add_right _ _

variable {tracker : AckTracker}

theorem copies_release_le (hpends : tracker.pends other = true) (offset : Nat) :
    ((tracker.untrack other).redeliver other).copies offset ≤
      tracker.copies offset := by
  have hcount := count_redeliver_le (tracker.untrack other) offset other
  unfold copies
  rw [pends_redeliver]
  by_cases hsame : offset = other
  · rw [if_pos hsame] at hcount
    rw [hsame, pends_untrack, hpends]
    rw [hsame] at hcount
    exact Nat.le_trans (Nat.add_le_add_left hcount _) (by
      show 0 + (_ + 1) ≤ 1 + tracker.redeliverChan.count other
      rw [Nat.zero_add, Nat.add_comm]
      exact Nat.le_refl _)
  · rw [if_neg hsame] at hcount
    rw [pends_untrack_ne hsame]
    exact Nat.add_le_add_left hcount _

structure Lessens (offset : Nat) (tracker tracker' : AckTracker) : Prop where
  kept : forall m, getEntry offset tracker'.pending = some m ->
    getEntry offset tracker.pending = some m
  copies : tracker'.copies offset ≤ tracker.copies offset

theorem Lessens.refl (offset : Nat) (tracker : AckTracker) :
    Lessens offset tracker tracker where
  kept := fun _ hm => hm
  copies := Nat.le_refl _

theorem Lessens.trans {t t' t'' : AckTracker} (h : Lessens offset t t')
    (h' : Lessens offset t' t'') :
    Lessens offset t t'' where
  kept := fun m hm => h.kept m (h'.kept m hm)
  copies := Nat.le_trans h'.copies h.copies

theorem Lessens.pends_eq {t t' : AckTracker} (h : Lessens offset t t')
    (hstays : ¬ (t.pends offset && !t'.pends offset) = true) :
    t'.pends offset = t.pends offset := by
  cases hpends : t.pends offset with
  | true =>
    rw [hpends, Bool.true_and, Bool.not_eq_true', Bool.not_eq_false]
      at hstays
    exact hstays
  | false =>
  cases hpends' : t'.pends offset with
  | false => rfl
  | true =>
  rcases Option.isSome_iff_exists.mp hpends' with ⟨m, hm⟩
  rw [pends, h.kept m hm] at hpends
  cases hpends

theorem kept_untrack {m : PendingMsg}
    (hm : getEntry offset (tracker.untrack other).pending = some m) :
    getEntry offset tracker.pending = some m := by
  by_cases hsame : offset = other
  · rw [hsame, untrack, getEntry_deleteEntry] at hm
    cases hm
  · rwa [untrack, getEntry_deleteEntry_ne hsame] at hm

theorem lessens_untrack (offset other : Nat) (tracker : AckTracker) :
    Lessens offset tracker (tracker.untrack other) where
  kept := fun _ hm => kept_untrack hm
  copies := by
    apply Nat.add_le_add_right
    by_cases hsame : offset = other
    · rw [hsame, pends_untrack]
      exact Nat.zero_le _
    · rw [pends_untrack_ne hsame]

theorem lessens_release (hpends : tracker.pends other = true) (offset : Nat) :
    Lessens offset tracker ((tracker.untrack other).redeliver other) where
  kept := by
    intro m hm
    rw [pending_redeliver] at hm
    exact kept_untrack hm
  copies := copies_release_le hpends offset

theorem lessens_ack (offset other : Nat) (tracker : AckTracker) :
    Lessens offset tracker (tracker.ack other).1 := by
  unfold ack
  cases getEntry other tracker.pending with
  | none => exact Lessens.refl offset tracker
  | some m => exact lessens_untrack offset other tracker

theorem lessens_nack (offset other : Nat) (tracker : AckTracker) :
    Lessens offset tracker (tracker.nack other).1 := by
  unfold nack
  cases hget : getEntry other tracker.pending with
  | none => exact Lessens.refl offset tracker
  | some m =>
  have hpends : tracker.pends other = true := by
    rw [pends, hget]
    rfl
  by_cases hlast : exhausted m = true
  · simp only [hlast, if_true]
    exact lessens_untrack offset other tracker
  · simp only [hlast, Bool.false_eq_true, if_false]
    exact lessens_release hpends offset

theorem lessens_track (hne : offset ≠ other) (tracker : AckTracker)
    (consumerID : Bytes) (deliverCount maxRetries : Nat) (now : Int) :
    Lessens offset tracker
      (tracker.track other consumerID deliverCount maxRetries now) where
  kept := by
    intro m hm
    rwa [track, getEntry_setEntry_ne hne] at hm
  copies := by
    unfold copies pends track
    rw [getEntry_setEntry_ne hne]

theorem pends_expire_ne {e : Nat × PendingMsg} (hne : offset ≠ e.1) (now : Int)
    (tracker : AckTracker) :
    (expire now tracker e).pends offset = tracker.pends offset := by
  unfold expire
  by_cases hpast : tracker.expired now e.2 = true
  · rw [if_pos hpast, pends_redeliver, pends_untrack_ne hne]
  · rw [if_neg hpast]

theorem lessens_expire {e : Nat × PendingMsg}
    (hpends : tracker.pends e.1 = true) (now : Int) (offset : Nat) :
    Lessens offset tracker (expire now tracker e) := by
  unfold expire
  by_cases hpast : tracker.expired now e.2 = true
  · rw [if_pos hpast]
    exact lessens_release hpends offset
  · rw [if_neg hpast]
    exact Lessens.refl offset tracker

theorem lessens_foldl_expire {entries : List (Nat × PendingMsg)}
    (hkeys : (entries.map Prod.fst).Nodup)
    (hpend : forall e, e ∈ entries -> tracker.pends e.1 = true) (now : Int)
    (offset : Nat) :
    Lessens offset tracker (entries.foldl (expire now) tracker) := by
  induction entries generalizing tracker with
  | nil => exact Lessens.refl offset tracker
  | cons e entries ih =>
  rw [List.map_cons, List.nodup_cons] at hkeys
  have hfirst := lessens_expire (hpend e (List.mem_cons_self ..)) now offset
  apply hfirst.trans
  apply ih hkeys.right
  intro x hx
  have hne : x.1 ≠ e.1 := by
    intro heq
    apply hkeys.left
    rw [← heq]
    exact List.mem_map_of_mem hx
  rw [pends_expire_ne hne]
  exact hpend x (List.mem_cons_of_mem e hx)

theorem pends_of_mem {e : Nat × PendingMsg}
    (hkeys : (tracker.pending.map Prod.fst).Nodup) (he : e ∈ tracker.pending) :
    tracker.pends e.1 = true := by
  rw [pends, getEntry_of_mem hkeys he]
  rfl

theorem lessens_visibilityTimeout (hkeys : (tracker.pending.map Prod.fst).Nodup)
    (order : MapOrder (Nat × PendingMsg)) (now : Int) (offset : Nat) :
    Lessens offset tracker (tracker.visibilityTimeout order now) := by
  have hperm := order.perm tracker.pending
  apply lessens_foldl_expire
  · exact (hperm.map Prod.fst).nodup_iff.mpr hkeys
  · intro e he
    exact pends_of_mem hkeys (hperm.mem_iff.mp he)

theorem pends_visibilityTimeout (hkeys : (tracker.pending.map Prod.fst).Nodup)
    (order : MapOrder (Nat × PendingMsg)) (now : Int) {m : PendingMsg}
    (hm : getEntry offset tracker.pending = some m) :
    (tracker.visibilityTimeout order now).pends offset =
      !tracker.expired now m := by
  have hkeys' := nodup_visibilityTimeout hkeys order now
  have hmem : (offset, m) ∈ (tracker.visibilityTimeout order now).pending <->
      tracker.expired now m = false := by
    rw [mem_pending_visibilityTimeout hkeys]
    exact and_iff_right (mem_of_getEntry hm)
  cases hpast : tracker.expired now m with
  | false => exact pends_of_mem hkeys' (hmem.mpr hpast)
  | true =>
  rw [Bool.not_true, pends, Option.isSome_eq_false_iff,
    Option.isNone_iff_eq_none]
  cases hget : getEntry offset
      (tracker.visibilityTimeout order now).pending with
  | none => rfl
  | some m' =>
  have hsame := (lessens_visibilityTimeout hkeys order now
    offset).kept m' hget
  rw [hm, Option.some.injEq] at hsame
  rw [← hsame] at hget
  rw [hmem.mp (mem_of_getEntry hget)] at hpast
  cases hpast

end AckTracker

/-!
## A message that fails
-/

def storedEnvelope (env : Envelope) : Option Envelope :=
  match marshal env with
  | .error _ => none
  | .ok data => (unmarshal data).toOption

/--
The tracker, and of one message: whether its offset has been taken from the
channel, its deliveries, failures and reports.
-/
structure Retries where
  tracker : AckTracker
  inHand : Bool
  delivered : Nat
  failed : Nat
  reported : List Nat
deriving DecidableEq

inductive RetryAction where
  | deliver (consumerID : Bytes) (now : Int)
  | redeliver (consumerID : Bytes) (now : Int)
  | tracker (a : AckAction)

namespace Retries

def start (visTimeout : Int) : Retries where
  tracker := newAckTracker visTimeout
  inHand := false
  delivered := 0
  failed := 0
  reported := []

def deliver (s : Retries) (offset : Nat) (env : Envelope) (consumerID : Bytes)
    (now : Int) : Retries :=
  { s with
    tracker := s.tracker.track offset consumerID env.deliverCount.toNat
      env.maxRetries.toNat now
    inHand := false
    delivered := s.delivered + 1 }

/--
The tracker has changed.  If the message has been pending and is no longer, its
delivery has failed.
-/
def turn (s : Retries) (offset : Nat) (tracker : AckTracker) (report : Bool) :
    Retries :=
  if s.tracker.pends offset && !tracker.pends offset then
    { s with
      tracker := tracker
      failed := s.failed + 1
      reported := if report then s.reported ++ [s.failed + 1] else s.reported }
  else { s with tracker := tracker }

def trackerStep (offset : Nat) (s : Retries) : AckAction -> Option Retries
  | .track other consumerID deliverCount maxRetries now =>
    if other = offset then none
    else
      some (s.turn offset
        (s.tracker.track other consumerID deliverCount maxRetries now) false)
  | .ack other =>
    if other = offset then none
    else some (s.turn offset (s.tracker.ack other).1 false)
  | .nack other =>
    let r := s.tracker.nack other
    some (s.turn offset r.1 r.2.1)
  | .visibilityTimeout order now =>
    some (s.turn offset (s.tracker.visibilityTimeout order now) false)
  | .receive =>
    s.tracker.receive.map (fun r =>
      { s with tracker := r.1, inHand := s.inHand || r.2 = offset })

def step (env : Envelope) (offset : Nat) (s : Retries) :
    RetryAction -> Option Retries
  | .deliver consumerID now =>
    if s.delivered = 0 then some (s.deliver offset env consumerID now)
    else none
  | .redeliver consumerID now =>
    if s.inHand then
      (storedEnvelope env).map (fun stored =>
        s.deliver offset stored consumerID now)
    else none
  | .tracker a => s.trackerStep offset a

structure Limited (n : Nat) (s : Retries) : Prop where
  reached : n ≤ s.failed -> n ∈ s.reported
  notBefore : forall i, i ∈ s.reported -> n ≤ i
  bounded : s.delivered ≤ n

/-!
## What a delivery counts
-/

def counts (env : Envelope) (delivery : Nat) : Nat × Nat :=
  if delivery = 1 then (env.deliverCount.toNat, env.maxRetries.toNat)
  else (env.carried.deliverCount.toNat, env.carried.maxRetries.toNat)

/--
The count that the message has been published with leaves it no retry, and it
still has this count and its limit when it is delivered for this time.
-/
def Spent (env : Envelope) (delivery : Nat) : Prop :=
  env.maxRetries.toNat ≤ (env.deliverCount.toNat + 1) % 2 ^ 32 ∧
    (delivery = 1 ∨ env.ttl ≤ 0 ∧ env.deliverAt ≤ 0)

instance (env : Envelope) (delivery : Nat) : Decidable (Spent env delivery) :=
  inferInstanceAs (Decidable (_ ∧ _))

theorem storedEnvelope_counts {env stored : Envelope}
    (h : storedEnvelope env = some stored) :
    stored.deliverCount = env.carried.deliverCount ∧
      stored.maxRetries = env.carried.maxRetries := by
  unfold storedEnvelope at h
  cases hdata : marshal env with
  | error err =>
    rw [hdata] at h
    cases h
  | ok data =>
  simp only [hdata, unmarshal_marshal hdata] at h
  cases h
  exact ⟨rfl, rfl⟩

theorem carried_maxRetries (env : Envelope) :
    env.ttl ≤ 0 ∧ env.deliverAt ≤ 0 ∧
        env.carried.deliverCount = env.deliverCount ∧
        env.carried.maxRetries = env.maxRetries ∨
      ¬ (env.ttl ≤ 0 ∧ env.deliverAt ≤ 0) ∧ env.carried.maxRetries = 0 := by
  unfold Envelope.carried
  by_cases httl : env.ttl > 0
  · rw [if_pos httl]
    exact Or.inr ⟨fun h => absurd h.left (Int64.not_le.mpr httl), rfl⟩
  rw [if_neg httl]
  by_cases hdelay : env.deliverAt > 0
  · rw [if_pos hdelay]
    exact Or.inr ⟨fun h => absurd h.right (Int64.not_le.mpr hdelay), rfl⟩
  · rw [if_neg hdelay]
    exact Or.inl ⟨Int64.not_lt.mp httl, Int64.not_lt.mp hdelay, rfl, rfl⟩

theorem exhausted_iff {env : Envelope} (hn : 0 < env.maxRetries.toNat)
    {delivery : Nat} {m : PendingMsg}
    (hm : (m.deliverCount, m.maxRetries) = counts env delivery) :
    exhausted m = true <-> Spent env delivery := by
  unfold counts at hm
  unfold exhausted Spent
  rw [decide_eq_true_eq]
  by_cases hfirst : delivery = 1
  · rw [if_pos hfirst, Prod.mk.injEq] at hm
    rw [hm.left, hm.right]
    constructor
    · intro h
      exact ⟨h.right, Or.inl hfirst⟩
    · intro h
      exact ⟨hn, h.left⟩
  rw [if_neg hfirst, Prod.mk.injEq] at hm
  rw [hm.left, hm.right]
  rcases carried_maxRetries env with ⟨httl, hdelay, hcount, hmax⟩ | ⟨hnot, hmax⟩
  · rw [hcount, hmax]
    constructor
    · intro h
      exact ⟨h.right, Or.inr ⟨httl, hdelay⟩⟩
    · intro h
      exact ⟨hn, h.left⟩
  rw [hmax]
  constructor
  · intro h
    exact absurd h.left (Nat.lt_irrefl 0)
  intro h
  rcases h.right with hone | hkept
  · exact absurd hone hfirst
  · exact absurd hkept hnot

/-!
## The invariant
-/

def held (s : Retries) (offset : Nat) : Nat :=
  s.tracker.copies offset + s.inHand.toNat

/--
The message is in at most one place.  As long as it may fail again nothing is
reported, and once the last delivery was reported it is nowhere.
-/
structure Inv (env : Envelope) (offset : Nat) (s : Retries) : Prop where
  keys : (s.tracker.pending.map Prod.fst).Nodup
  one : s.held offset ≤ 1
  fresh : s.delivered = 0 -> s.held offset = 0
  count : s.delivered = s.failed + (s.tracker.pends offset).toNat
  entry : forall m, getEntry offset s.tracker.pending = some m ->
    (m.deliverCount, m.maxRetries) = counts env s.delivered
  alive : s.failed < env.maxRetries.toNat ∧ s.reported = [] ∨
    s.failed = env.maxRetries.toNat ∧ s.reported = [env.maxRetries.toNat] ∧
      s.held offset = 0

variable {env : Envelope} {offset : Nat} {s : Retries}

theorem inv_start (hn : 0 < env.maxRetries.toNat) (visTimeout : Int) :
    Inv env offset (start visTimeout) where
  keys := List.nodup_nil
  one := Nat.zero_le 1
  fresh := fun _ => rfl
  count := rfl
  entry := fun _ hm => by cases hm
  alive := Or.inl ⟨hn, rfl⟩

theorem pends_le_held (s : Retries) (offset : Nat) :
    (s.tracker.pends offset).toNat ≤ s.held offset := by
  unfold held copies
  omega

variable (h : Inv env offset s)

include h

theorem Inv.failed_lt (hheld : s.held offset ≠ 0) :
    s.failed < env.maxRetries.toNat ∧ s.reported = [] := by
  rcases h.alive with halive | ⟨_, _, hnone⟩
  · exact halive
  · exact absurd hnone hheld

theorem Inv.failed_lt_of_pends (hpends : s.tracker.pends offset = true) :
    s.failed < env.maxRetries.toNat ∧ s.reported = [] := by
  apply h.failed_lt
  have hle := pends_le_held s offset
  rw [hpends, Bool.toNat_true] at hle
  exact Nat.ne_of_gt hle

theorem Inv.limited : s.Limited env.maxRetries.toNat := by
  have hle := pends_le_held s offset
  have hcount := h.count
  rcases h.alive with ⟨hlt, hnone⟩ | ⟨hall, hreported, hheld⟩
  · have hone := h.one
    constructor
    · intro hreached
      exact absurd hreached (Nat.not_le.mpr hlt)
    · intro i hi
      rw [hnone] at hi
      cases hi
    · omega
  constructor
  · intro _
    rw [hreported]
    exact List.mem_singleton_self _
  · intro i hi
    rw [hreported] at hi
    exact Nat.le_of_eq (List.mem_singleton.mp hi).symm
  · omega

/-!
## One step
-/

variable {tracker : AckTracker}

omit h in
theorem turn_failed (report : Bool) (hpends : s.tracker.pends offset = true)
    (hnot : tracker.pends offset = false) :
    s.turn offset tracker report =
      { s with
        tracker := tracker
        failed := s.failed + 1
        reported :=
          if report then s.reported ++ [s.failed + 1] else s.reported } := by
  have hfails : (s.tracker.pends offset && !tracker.pends offset) = true := by
    rw [hpends, hnot]
    rfl
  exact if_pos hfails

theorem Inv.turn_gone {report : Bool} (hless : Lessens offset s.tracker tracker)
    (hkeys : (tracker.pending.map Prod.fst).Nodup)
    (hpends : s.tracker.pends offset = true)
    (hnot : tracker.pends offset = false)
    (hlast : report = true <-> s.failed + 1 = env.maxRetries.toNat)
    (hgone : report = true -> tracker.copies offset = 0) :
    Inv env offset (s.turn offset tracker report) := by
  have hcopies := hless.copies
  have hone := h.one
  have hcount := h.count
  unfold held at hone
  rcases h.failed_lt_of_pends hpends with ⟨hlt, hnone⟩
  rw [hpends, Bool.toNat_true] at hcount
  rw [turn_failed report hpends hnot]
  refine ⟨hkeys, ?_, ?_, ?_, ?_, ?_⟩
  · show tracker.copies offset + s.inHand.toNat ≤ 1
    omega
  · intro hzero
    have hzero' : s.delivered = 0 := hzero
    omega
  · show s.delivered = s.failed + 1 + (tracker.pends offset).toNat
    rw [hnot]
    exact hcount
  · intro m hm
    rw [pends, hm] at hnot
    cases hnot
  show s.failed + 1 < _ ∧ _ ∨ s.failed + 1 = _ ∧ _ ∧
    tracker.copies offset + s.inHand.toNat = 0
  by_cases hreported : report = true
  · have hhand : s.inHand.toNat = 0 := by
      have hle : 1 ≤ s.tracker.copies offset := by
        unfold copies
        rw [hpends, Bool.toNat_true]
        exact Nat.le_add_right 1 _
      omega
    refine Or.inr ⟨hlast.mp hreported, ?_, ?_⟩
    · rw [if_pos hreported, hnone, List.nil_append, hlast.mp hreported]
    · rw [hgone hreported, hhand]
  · have hne : s.failed + 1 ≠ env.maxRetries.toNat :=
      fun heq => hreported (hlast.mpr heq)
    refine Or.inl ⟨by omega, ?_⟩
    rw [if_neg hreported, hnone]

theorem Inv.turn {report : Bool} (hless : Lessens offset s.tracker tracker)
    (hkeys : (tracker.pending.map Prod.fst).Nodup)
    (hreport : s.tracker.pends offset = true ->
      tracker.pends offset = false ->
        (report = true <-> s.failed + 1 = env.maxRetries.toNat))
    (hgone : s.tracker.pends offset = true -> report = true ->
      tracker.copies offset = 0) :
    Inv env offset (s.turn offset tracker report) := by
  by_cases hfails : (s.tracker.pends offset && !tracker.pends offset) = true
  · rw [Bool.and_eq_true, Bool.not_eq_true'] at hfails
    rcases hfails with ⟨hpends, hnot⟩
    exact h.turn_gone hless hkeys hpends hnot (hreport hpends hnot)
      (hgone hpends)
  have hcopies := hless.copies
  have hone := h.one
  have hfresh := h.fresh
  unfold held at hone hfresh
  unfold Retries.turn
  rw [if_neg hfails]
  refine ⟨hkeys, ?_, ?_, ?_, ?_, ?_⟩
  · show tracker.copies offset + s.inHand.toNat ≤ 1
    omega
  · intro hzero
    have hheld := hfresh hzero
    show tracker.copies offset + s.inHand.toNat = 0
    omega
  · show s.delivered = s.failed + (tracker.pends offset).toNat
    rw [hless.pends_eq hfails]
    exact h.count
  · intro m hm
    exact h.entry m (hless.kept m hm)
  · rcases h.alive with halive | ⟨hall, hreported, hheld⟩
    · exact Or.inl halive
    refine Or.inr ⟨hall, hreported, ?_⟩
    unfold held at hheld
    show tracker.copies offset + s.inHand.toNat = 0
    omega

theorem Inv.turn_silent (hless : Lessens offset s.tracker tracker)
    (hkeys : (tracker.pending.map Prod.fst).Nodup)
    (hfew : s.tracker.pends offset = true -> tracker.pends offset = false ->
      s.failed + 1 ≠ env.maxRetries.toNat) :
    Inv env offset (s.turn offset tracker false) := by
  apply h.turn hless hkeys
  · intro hpends hnot
    constructor
    · intro hno
      cases hno
    · intro hlast
      exact absurd hlast (hfew hpends hnot)
  · intro _ hno
    cases hno

theorem Inv.deliver (hnowhere : s.tracker.copies offset = 0)
    (hfailed : s.failed < env.maxRetries.toNat ∧ s.reported = [])
    {given : Envelope}
    (hgiven : (given.deliverCount.toNat, given.maxRetries.toNat) =
      counts env (s.delivered + 1)) (consumerID : Bytes) (now : Int) :
    Inv env offset (s.deliver offset given consumerID now) := by
  have hcount := h.count
  have hnone : (s.tracker.pends offset).toNat = 0 ∧
      s.tracker.redeliverChan.count offset = 0 :=
    Nat.add_eq_zero_iff.mp hnowhere
  have hpends : (s.deliver offset given consumerID now).tracker.pends offset =
      true := by
    unfold Retries.deliver pends AckTracker.track
    rw [getEntry_setEntry]
    rfl
  have hheld : (s.deliver offset given consumerID now).held offset = 1 := by
    unfold held copies
    rw [hpends]
    show 1 + s.tracker.redeliverChan.count offset + 0 = 1
    rw [hnone.right]
  refine ⟨nodup_keys_setEntry h.keys, Nat.le_of_eq hheld, ?_, ?_, ?_, ?_⟩
  · intro hzero
    cases hzero
  · rw [hpends]
    show s.delivered + 1 = s.failed + 1
    omega
  · intro m hm
    unfold Retries.deliver AckTracker.track at hm
    rw [getEntry_setEntry, Option.some.injEq] at hm
    rw [← hm]
    exact hgiven
  · exact Or.inl hfailed

theorem Inv.receive {r : AckTracker × Nat} (hr : s.tracker.receive = some r) :
    Inv env offset
      { s with tracker := r.1, inHand := s.inHand || r.2 = offset } := by
  unfold AckTracker.receive at hr
  cases hchan : s.tracker.redeliverChan with
  | nil =>
    rw [hchan] at hr
    cases hr
  | cons other rest =>
  simp only [hchan, Option.some.injEq] at hr
  rw [← hr]
  have hle : held { s with
      tracker := { s.tracker with redeliverChan := rest }
      inHand := s.inHand || other = offset } offset ≤ s.held offset := by
    have hpends : ({ s.tracker with redeliverChan := rest } :
        AckTracker).pends offset = s.tracker.pends offset := rfl
    unfold held copies
    rw [hchan, hpends, List.count_cons]
    by_cases hsame : other = offset
    · rw [if_pos (by simpa using hsame), decide_eq_true hsame,
        Bool.or_true, Bool.toNat_true]
      show _ + rest.count offset + 1 ≤ _
      omega
    · rw [if_neg (by simpa using hsame), decide_eq_false hsame,
        Bool.or_false]
      exact Nat.le_refl _
  refine ⟨h.keys, Nat.le_trans hle h.one, ?_, h.count, h.entry, ?_⟩
  · intro hzero
    exact Nat.le_zero.mp (h.fresh hzero ▸ hle)
  · rcases h.alive with halive | ⟨hall, hreported, hheld⟩
    · exact Or.inl halive
    · exact Or.inr ⟨hall, hreported, Nat.le_zero.mp (hheld ▸ hle)⟩

omit h

/-!
## When the limit is kept
-/

/--
What a step must meet.  A message is rejected with spent counts exactly when the
delivery is the last, and the last delivery does not time out.
-/
def CountsRight (env : Envelope) (offset : Nat) (s : Retries) :
    RetryAction -> Prop
  | .tracker (.nack other) =>
    other = offset -> s.tracker.pends offset = true ->
      (Spent env (s.failed + 1) <-> s.failed + 1 = env.maxRetries.toNat)
  | .tracker (.visibilityTimeout _ now) =>
    forall m, m ∈ getEntry offset s.tracker.pending ->
      s.tracker.expired now m = true ->
        s.failed + 1 ≠ env.maxRetries.toNat
  | _ => True

instance (env : Envelope) (offset : Nat) (s : Retries) (a : RetryAction) :
    Decidable (s.CountsRight env offset a) := by
  unfold CountsRight
  split <;> infer_instance

theorem Inv.spent_iff (h : Inv env offset s) (hn : 0 < env.maxRetries.toNat)
    {m : PendingMsg} (hm : getEntry offset s.tracker.pending = some m) :
    exhausted m = true <-> Spent env (s.failed + 1) := by
  have hcount := h.count
  rw [pends, hm, Option.isSome_some, Bool.toNat_true] at hcount
  rw [← hcount]
  exact exhausted_iff hn (h.entry m hm)

theorem pends_nack (tracker : AckTracker) (offset : Nat) :
    (tracker.nack offset).1.pends offset = false := by
  rw [pends, pending_nack, getEntry_deleteEntry]
  rfl

theorem nack_cases (tracker : AckTracker) {m : PendingMsg}
    (hm : getEntry offset tracker.pending = some m) :
    (tracker.nack offset).2.1 = exhausted m ∧
      (exhausted m = true ->
        (tracker.nack offset).1.copies offset + 1 = tracker.copies offset) := by
  have hpends : tracker.pends offset = true := by
    rw [pends, hm]
    rfl
  have hgone : (tracker.untrack offset).copies offset + 1 =
      tracker.copies offset := by
    unfold copies
    rw [pends_untrack, hpends, Bool.toNat_true]
    show 0 + tracker.redeliverChan.count offset + 1 = _
    omega
  unfold AckTracker.nack
  rw [hm]
  cases hlast : exhausted m with
  | true =>
    simp only [hlast, if_true]
    exact ⟨trivial, fun _ => hgone⟩
  | false =>
  simp only [hlast, Bool.false_eq_true, if_false]
  exact ⟨trivial, fun hno => by cases hno⟩

theorem Inv.nack (h : Inv env offset s) (hn : 0 < env.maxRetries.toNat)
    (other : Nat) (hmeets : s.CountsRight env offset (.tracker (.nack other))) :
    Inv env offset
      (s.turn offset (s.tracker.nack other).1 (s.tracker.nack other).2.1) := by
  have hless := lessens_nack offset other s.tracker
  have hkeys : ((s.tracker.nack other).1.pending.map Prod.fst).Nodup := by
    rw [pending_nack]
    exact nodup_deleteEntry h.keys other
  by_cases hsame : other = offset
  · have hentry : s.tracker.pends offset = true -> exists m,
        getEntry offset s.tracker.pending = some m :=
      Option.isSome_iff_exists.mp
    apply h.turn hless hkeys
    · intro hpends _
      rcases hentry hpends with ⟨m, hm⟩
      rw [hsame, (nack_cases s.tracker hm).left, h.spent_iff hn hm]
      exact hmeets hsame hpends
    intro hpends hreport
    rcases hentry hpends with ⟨m, hm⟩
    rcases nack_cases s.tracker hm with ⟨hcase, hgone⟩
    rw [hsame, hcase] at hreport
    have hone := h.one
    unfold held at hone
    have hcopies := hgone hreport
    rw [hsame]
    omega
  have hpends : (s.tracker.nack other).1.pends offset =
      s.tracker.pends offset := by
    unfold pends
    rw [pending_nack, getEntry_deleteEntry_ne (Ne.symm hsame)]
  have hturn : s.turn offset (s.tracker.nack other).1
      (s.tracker.nack other).2.1 =
        s.turn offset (s.tracker.nack other).1 false := by
    unfold Retries.turn
    rw [hpends, Bool.and_not_self]
    rfl
  rw [hturn]
  apply h.turn_silent hless hkeys
  intro hbefore hafter
  rw [hpends, hbefore] at hafter
  cases hafter

theorem Inv.visibilityTimeout (h : Inv env offset s)
    (order : MapOrder (Nat × PendingMsg)) (now : Int)
    (hmeets : s.CountsRight env offset
      (.tracker (.visibilityTimeout order now))) :
    Inv env offset
      (s.turn offset (s.tracker.visibilityTimeout order now) false) := by
  apply h.turn_silent
    (lessens_visibilityTimeout h.keys order now offset)
    (nodup_visibilityTimeout h.keys order now)
  intro hpends hnot
  rcases Option.isSome_iff_exists.mp hpends with ⟨m, hm⟩
  apply hmeets m hm
  rw [pends_visibilityTimeout h.keys order now hm,
    Bool.not_eq_false'] at hnot
  exact hnot

theorem Inv.trackerStep (h : Inv env offset s)
    (hn : 0 < env.maxRetries.toNat) {a : AckAction} {s' : Retries}
    (hmeets : s.CountsRight env offset (.tracker a))
    (hs : s.trackerStep offset a = some s') : Inv env offset s' := by
  cases a with
  | track other consumerID deliverCount maxRetries now =>
    simp only [Retries.trackerStep] at hs
    by_cases hsame : other = offset
    · rw [if_pos hsame] at hs
      cases hs
    rw [if_neg hsame, Option.some.injEq] at hs
    rw [← hs]
    have hless := lessens_track (Ne.symm hsame) s.tracker
      consumerID deliverCount maxRetries now
    apply h.turn_silent hless (nodup_keys_setEntry h.keys)
    intro hpends hnot
    unfold pends AckTracker.track at hnot
    rw [getEntry_setEntry_ne (Ne.symm hsame)] at hnot
    rw [pends, hnot] at hpends
    cases hpends
  | ack other =>
    simp only [Retries.trackerStep] at hs
    by_cases hsame : other = offset
    · rw [if_pos hsame] at hs
      cases hs
    rw [if_neg hsame, Option.some.injEq] at hs
    rw [← hs]
    apply h.turn_silent (lessens_ack offset other s.tracker)
    · rw [pending_ack]
      exact nodup_deleteEntry h.keys other
    intro hpends hnot
    unfold pends at hnot
    rw [pending_ack,
      getEntry_deleteEntry_ne (Ne.symm hsame)] at hnot
    rw [pends, hnot] at hpends
    cases hpends
  | nack other =>
    cases hs
    exact h.nack hn other hmeets
  | visibilityTimeout order now =>
    cases hs
    exact h.visibilityTimeout order now hmeets
  | receive =>
    rcases Option.map_eq_some_iff.mp hs with ⟨r, hr, hs'⟩
    rw [← hs']
    exact h.receive hr

theorem Inv.step (h : Inv env offset s) (hn : 0 < env.maxRetries.toNat)
    {a : RetryAction} {s' : Retries} (hmeets : s.CountsRight env offset a)
    (hs : Retries.step env offset s a = some s') : Inv env offset s' := by
  cases a with
  | deliver consumerID now =>
    simp only [Retries.step] at hs
    by_cases hfirst : s.delivered = 0
    · rw [if_pos hfirst, Option.some.injEq] at hs
      rw [← hs]
      have hcount := h.count
      have hheld := h.fresh hfirst
      have hnowhere : s.tracker.copies offset = 0 :=
        (Nat.add_eq_zero_iff.mp hheld).left
      have hfailed : s.failed < env.maxRetries.toNat ∧ s.reported = [] := by
        rcases h.alive with halive | ⟨hall, _, _⟩
        · exact halive
        · omega
      apply h.deliver hnowhere hfailed
      rw [hfirst]
      rfl
    · rw [if_neg hfirst] at hs
      cases hs
  | redeliver consumerID now =>
    simp only [Retries.step] at hs
    by_cases hhand : s.inHand = true
    · rw [if_pos hhand] at hs
      rcases Option.map_eq_some_iff.mp hs with ⟨stored, hstored, hs'⟩
      rw [← hs']
      rcases storedEnvelope_counts hstored with ⟨hcount, hmax⟩
      have hone := h.one
      have hheld : s.held offset = s.tracker.copies offset + 1 := by
        rw [held, hhand]
        rfl
      have hlater : s.delivered + 1 ≠ 1 := by
        intro hfirst
        have hnone := h.fresh (by omega)
        omega
      apply h.deliver (by omega) (h.failed_lt (by omega))
      rw [counts, if_neg hlater, hcount, hmax]
    · rw [if_neg hhand] at hs
      cases hs
  | tracker a => exact h.trackerStep hn hmeets hs

theorem Inv.not_limited (h : Inv env offset s) (hn : 0 < env.maxRetries.toNat)
    {a : RetryAction} (hmeets : ¬ s.CountsRight env offset a) :
    exists s', Retries.step env offset s a = some s' ∧
      ¬ s'.Limited env.maxRetries.toNat := by
  cases a with
  | deliver consumerID now => exact absurd trivial hmeets
  | redeliver consumerID now => exact absurd trivial hmeets
  | tracker a =>
  cases a with
  | track other consumerID deliverCount maxRetries now =>
    exact absurd trivial hmeets
  | ack other => exact absurd trivial hmeets
  | receive => exact absurd trivial hmeets
  | nack other =>
    unfold CountsRight at hmeets
    rw [Classical.not_imp, Classical.not_imp] at hmeets
    rcases hmeets with ⟨hsame, hpends, hwrong⟩
    refine ⟨_, rfl, ?_⟩
    rcases h.failed_lt_of_pends hpends with ⟨hlt, hnone⟩
    rcases Option.isSome_iff_exists.mp hpends with ⟨m, hm⟩
    have hreport := (nack_cases s.tracker hm).left
    rw [← h.spent_iff hn hm, ← hreport] at hwrong
    rw [hsame]
    rw [turn_failed _ hpends (pends_nack s.tracker offset), hnone]
    intro hlimited
    apply hwrong
    constructor
    · intro hlast
      have hle := hlimited.notBefore (s.failed + 1) (by
        show s.failed + 1 ∈ if _ then _ else _
        rw [if_pos hlast]
        exact List.mem_singleton_self _)
      exact Nat.le_antisymm hlt hle
    intro hlast
    by_contra hsilent
    have hmem := hlimited.reached (Nat.le_of_eq hlast.symm)
    have hmem' : env.maxRetries.toNat ∈
      if (s.tracker.nack offset).2.1 = true then
        [] ++ [s.failed + 1] else [] := hmem
    rw [if_neg hsilent] at hmem'
    cases hmem'
  | visibilityTimeout order now =>
  unfold CountsRight at hmeets
  push Not at hmeets
  rcases hmeets with ⟨m, hm, hpast, hlast⟩
  refine ⟨_, rfl, ?_⟩
  have hpends : s.tracker.pends offset = true := by
    rw [pends, Option.mem_def.mp hm]
    rfl
  rcases h.failed_lt_of_pends hpends with ⟨_, hnone⟩
  have hafter := pends_visibilityTimeout h.keys order now hm
  rw [hpast, Bool.not_true] at hafter
  rw [turn_failed _ hpends hafter, hnone]
  intro hlimited
  cases hlimited.reached (Nat.le_of_eq hlast.symm)

/--
The last delivery within the limit is the one that is reported, throughout a
run, if and only if every step of the run counts right.
-/
theorem limited_iff_countsRight (env : Envelope) (offset : Nat)
    (visTimeout : Int) (hn : 0 < env.maxRetries.toNat)
    (actions : List RetryAction) :
    (forall front, front <+: actions -> forall s,
      run? (step env offset) (start visTimeout) front = some s ->
        s.Limited env.maxRetries.toNat) <->
      Meets (step env offset) (CountsRight env offset) (start visTimeout)
        actions :=
  @run?_always_iff_meets Retries RetryAction (step env offset)
    (CountsRight env offset) (fun _ => Inv env offset)
    (Limited env.maxRetries.toNat) actions.length
    (fun _ _ h => h.limited)
    (fun _ _ _ _ _ h hmeets hs => h.step hn hmeets hs)
    (fun _ _ _ _ h hmeets => h.not_limited hn hmeets)
    0 (start visTimeout) (inv_start hn visTimeout) actions (Nat.zero_add _).le

def limitedMessage (maxRetries : UInt32) : Envelope :=
  { Envelope.zero with maxRetries := maxRetries }

def rejectedOnce (offset : Nat) : List RetryAction :=
  [.deliver [] 0, .tracker (.nack offset)]

/-- The message with a limit of one is reported when it is rejected. -/
theorem limited_once :
    exists s,
      run? (step (limitedMessage 1) 7) (start 30) (rejectedOnce 7) = some s ∧
        s.reported = [1] ∧ s.Limited 1 := by
  have hrun : run? (step (limitedMessage 1) 7) (start 30) (rejectedOnce 7) =
      some (Retries.mk (newAckTracker 30) false 1 1 [1]) := by
    decide +kernel
  have hmeets : Meets (step (limitedMessage 1) 7)
      (CountsRight (limitedMessage 1) 7) (start 30) (rejectedOnce 7) := by
    decide +kernel
  exact ⟨_, hrun, rfl, (limited_iff_countsRight (limitedMessage 1) 7 30
    (by decide) (rejectedOnce 7)).mpr hmeets (rejectedOnce 7)
      (List.prefix_refl _) _ hrun⟩

def rejectedAgain (offset : Nat) : List RetryAction :=
  [.tracker (.nack offset), .tracker .receive, .redeliver [] 0]

/--
The message with a limit of two is rejected twice and not reported, but
delivered for the third time.
-/
theorem not_limited_twice :
    exists s,
      run? (step (limitedMessage 2) 7) (start 30)
          (.deliver [] 0 :: (rejectedAgain 7 ++ rejectedAgain 7)) = some s ∧
        s.failed = 2 ∧ s.reported = [] ∧ s.delivered = 3 ∧ ¬ s.Limited 2 := by
  refine ⟨Retries.mk (((newAckTracker 30).track 7 [] 0 2 0)) false 3 2 [],
    by decide +kernel, rfl, rfl, rfl, ?_⟩
  intro hlimited
  exact absurd hlimited.bounded (by decide)

end Retries

end Queue
end ChimeraMQ
