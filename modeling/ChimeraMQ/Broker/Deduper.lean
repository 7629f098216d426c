import ChimeraMQ.Foundation.Bytes
import ChimeraMQ.Foundation.Entries

/-!
# Deduplication of idempotent producers

For every producer the deduper keeps the sequence numbers it has seen and when.
A number seen within the window is a duplicate; a new one is recorded at once.
Times are nanoseconds.
-/

namespace ChimeraMQ
namespace Broker

open Foundation

def maxProducers : Nat := 100000

def producerTTL : Int := 24 * 3600 * 1000000000

structure DedupWindow where
  seen : List (Bytes × Int)
  lastSeq : Nat
  lastActivity : Int
deriving DecidableEq

structure Deduper where
  windows : List (Bytes × DedupWindow)
  windowSize : Int
  maxEntries : Nat
  enabled : Bool
  windowSize_pos : 0 < windowSize
  maxEntries_pos : 0 < maxEntries
deriving DecidableEq

/--
The time of a check, the later time that an eviction within it reads, and the
orders in which its loops see the maps.
-/
structure CheckContext where
  now : Int
  later : Int
  seen : MapOrder (Bytes × Int)
  windows : MapOrder (Bytes × DedupWindow)

namespace Deduper

/-- A new deduper; sizes that are not positive get their default. -/
def newDeduper (enabled : Bool) (windowSize maxEntries : Int) : Deduper where
  windows := []
  windowSize := if windowSize ≤ 0 then 5 * 60 * 1000000000 else windowSize
  maxEntries := if maxEntries ≤ 0 then 10000 else maxEntries.toNat
  enabled := enabled
  windowSize_pos := by
    split <;> omega
  maxEntries_pos := by
    split <;> omega

def evictExpired (d : Deduper) (w : DedupWindow) (now : Int) : DedupWindow :=
  { w with seen := w.seen.filter (fun e => now - e.2 < d.windowSize) }

/--
The keys that the loop over a window collects: each one is older than all keys
before it, and there are at most a quarter of the entries.
-/
def oldestKeys (toRemove : Nat) (oldestTime : Int) (entries : List (Bytes × Int)) :
    List Bytes :=
  (entries.foldl
    (fun (acc : Int × List Bytes) e =>
      if e.2 < acc.1 then
        (e.2, if acc.2.length < toRemove then acc.2 ++ [e.1] else acc.2)
      else acc)
    (oldestTime, [])).2

def evictOldest (d : Deduper) (w : DedupWindow) (c : CheckContext) :
    DedupWindow :=
  let toRemove := if d.maxEntries / 4 < 1 then 1 else d.maxEntries / 4
  let oldest := oldestKeys toRemove c.later (c.seen.order w.seen)
  { w with seen := w.seen.filter (fun e => e.1 ∉ oldest) }

def oldestProducer (windows : List (Bytes × DedupWindow)) : Option Bytes :=
  (windows.foldl
    (fun (acc : Option (Bytes × Int)) e =>
      match acc with
      | none => some (e.1, e.2.lastActivity)
      | some (id, oldest) =>
        if e.2.lastActivity < oldest then some (e.1, e.2.lastActivity)
        else some (id, oldest)) none).map Prod.fst

def evictOldestProducer (d : Deduper) (c : CheckContext) : Deduper :=
  match oldestProducer (c.windows.order d.windows) with
  | some id =>
    if id = [] then d
    else { d with windows := deleteEntry id d.windows }
  | none => d

def evictExpiredAll (d : Deduper) (now : Int) : Deduper :=
  let windows :=
    d.windows.filter (fun e => now - e.2.lastActivity ≤ producerTTL)
  { d with windows := windows.map (fun e => (e.1, d.evictExpired e.2 now)) }

/-!
## Checking
-/

def newWindow (now : Int) : DedupWindow where
  seen := []
  lastSeq := 0
  lastActivity := now

/--
The window of a producer, created if there is none; at the limit the oldest
producer makes room, or the producer is not tracked.
-/
def track (d : Deduper) (producerID : Bytes) (c : CheckContext) :
    Deduper × Option DedupWindow :=
  match getEntry producerID d.windows with
  | some w => (d, some w)
  | none =>
  let d :=
    if d.windows.length ≥ maxProducers then d.evictOldestProducer c else d
  if d.windows.length ≥ maxProducers then (d, none)
  else (d, some (newWindow c.now))

def putWindow (d : Deduper) (producerID : Bytes) (w : DedupWindow) : Deduper :=
  { d with windows := setEntry producerID w d.windows }

def seenRecently (d : Deduper) (w : DedupWindow) (key : Bytes) (now : Int) :
    Bool :=
  match getEntry key w.seen with
  | some seenAt => decide (now - seenAt < d.windowSize)
  | none => false

def makeRoom (d : Deduper) (w : DedupWindow) (c : CheckContext) : DedupWindow :=
  if w.seen.length ≥ d.maxEntries then
    let w := d.evictExpired w c.now
    if w.seen.length ≥ d.maxEntries then d.evictOldest w c else w
  else w

def record (w : DedupWindow) (seq : Nat) (key : Bytes) (now : Int) :
    DedupWindow :=
  { w with
    seen := setEntry key now w.seen
    lastSeq := if seq > w.lastSeq then seq else w.lastSeq }

def check (d : Deduper) (producerID : Bytes) (seq : Nat) (key : Bytes)
    (c : CheckContext) : Deduper × Bool :=
  if !d.enabled then (d, false)
  else
    match d.track producerID c with
    | (d, none) => (d, false)
    | (d, some w) =>
    let w := { w with lastActivity := c.now }
    if d.seenRecently w key c.now then (d.putWindow producerID w, true)
    else
      (d.putWindow producerID (record (d.makeRoom w c) seq key c.now),
        false)

def seqToKey (seq : Nat) : Bytes :=
  (Nat.toDigits 10 seq).map (fun c => UInt8.ofNat c.toNat)

def isDuplicate (d : Deduper) (producerID : Bytes) (seq : Nat)
    (c : CheckContext) : Deduper × Bool :=
  d.check producerID seq (seqToKey seq) c

def removeProducer (d : Deduper) (producerID : Bytes) : Deduper :=
  { d with windows := deleteEntry producerID d.windows }

/-!
## What a check leaves behind
-/

def Tracks (d : Deduper) (producerID : Bytes) (c : CheckContext) : Prop :=
  (d.track producerID c).2.isSome

instance (d : Deduper) (producerID : Bytes) (c : CheckContext) :
    Decidable (d.Tracks producerID c) :=
  inferInstanceAs (Decidable ((d.track producerID c).2.isSome = true))

variable {d : Deduper}

theorem check_disabled (hoff : d.enabled = false) (producerID : Bytes)
    (seq : Nat) (key : Bytes) (c : CheckContext) :
    d.check producerID seq key c = (d, false) := by
  unfold check
  rw [hoff]
  rfl

theorem track_windowSize (d : Deduper) (producerID : Bytes)
    (c : CheckContext) :
    (d.track producerID c).1.windowSize = d.windowSize ∧
      (d.track producerID c).1.enabled = d.enabled := by
  have hevict : (d.evictOldestProducer c).windowSize = d.windowSize ∧
      (d.evictOldestProducer c).enabled = d.enabled := by
    unfold evictOldestProducer
    cases oldestProducer (c.windows.order d.windows) with
    | none => exact ⟨rfl, rfl⟩
    | some id =>
    simp only
    split
    · exact ⟨rfl, rfl⟩
    · exact ⟨rfl, rfl⟩
  unfold track
  cases getEntry producerID d.windows with
  | some w => exact ⟨rfl, rfl⟩
  | none =>
  simp only
  by_cases hfull : d.windows.length ≥ maxProducers
  · simp only [hfull, if_true]
    split
    · exact hevict
    · exact hevict
  · simp only [hfull, if_false]
    exact ⟨trivial, trivial⟩

theorem check_recorded {producerID key : Bytes} {seq : Nat} {c : CheckContext}
    (hon : d.enabled = true) (htracks : d.Tracks producerID c)
    (hnew : (d.check producerID seq key c).2 = false) :
    ((d.check producerID seq key c).1.check producerID seq key c).2 = true := by
  have hsame := d.track_windowSize producerID c
  cases htrack : d.track producerID c with
  | mk d' w =>
    rw [htrack] at hsame
    cases w with
    | none =>
      unfold Tracks at htracks
      rw [htrack] at htracks
      cases htracks
    | some w =>
    unfold check at hnew
    simp only [hon, htrack, Bool.not_true, Bool.false_eq_true,
      if_false] at hnew
    by_cases hseen : d'.seenRecently { w with lastActivity := c.now } key
        c.now
    · simp only [hseen, if_true] at hnew
      cases hnew
    have hone : (d.check producerID seq key c).1 =
        d'.putWindow producerID
          (record (d'.makeRoom { w with lastActivity := c.now } c) seq
            key c.now) := by
      unfold check
      simp only [hon, htrack, hseen, Bool.not_true, Bool.false_eq_true,
        if_false]
    rw [hone]
    unfold check
    have hon' : (d'.putWindow producerID
        (record (d'.makeRoom { w with lastActivity := c.now } c) seq
          key c.now)).enabled = true := hsame.right.trans hon
    rw [hon']
    simp only [Bool.not_true, Bool.false_eq_true, if_false, track,
      putWindow, getEntry_setEntry, seenRecently, record, sub_self]
    simp only [d'.windowSize_pos, decide_true, if_true]

/-!
## The limit on producers
-/

def Bounded (d : Deduper) : Prop :=
  d.windows.length ≤ maxProducers

theorem mem_of_oldestProducer {windows : List (Bytes × DedupWindow)}
    {id : Bytes} (h : oldestProducer windows = some id) :
    id ∈ windows.map Prod.fst := by
  -- the loop returns the producer it started with or one that it has met
  have hloop : forall (rest : List (Bytes × DedupWindow))
      (acc : Option (Bytes × Int)) (r : Bytes × Int),
      rest.foldl
        (fun (acc : Option (Bytes × Int)) e =>
          match acc with
          | none => some (e.1, e.2.lastActivity)
          | some (id, oldest) =>
            if e.2.lastActivity < oldest then some (e.1, e.2.lastActivity)
            else some (id, oldest)) acc = some r ->
        acc = some r ∨ r.1 ∈ rest.map Prod.fst ∨
          exists x, acc = some x ∧ x.1 = r.1 := by
    intro rest
    induction rest with
    | nil =>
      intro acc r hr
      exact Or.inl hr
    | cons e rest ih =>
    intro acc r hr
    rw [List.foldl_cons] at hr
    have hnext : forall y : Bytes × Int, y.1 = e.1 ->
        y.1 = r.1 -> r.1 ∈ (e :: rest).map Prod.fst := by
      intro y hye hyr
      rw [← hyr, hye]
      exact List.mem_cons_self ..
    rcases ih _ r hr with hsame | hlater | ⟨y, hy, hyr⟩
    · cases acc with
      | none =>
        cases hsame
        exact Or.inr (Or.inl (List.mem_cons_self ..))
      | some x =>
      simp only at hsame
      split at hsame
      · cases hsame
        exact Or.inr (Or.inl (List.mem_cons_self ..))
      · exact Or.inl hsame
    · exact Or.inr (Or.inl (List.mem_cons_of_mem _ hlater))
    cases acc with
    | none =>
      cases hy
      exact Or.inr (Or.inl (hnext _ rfl hyr))
    | some x =>
    simp only at hy
    split at hy
    · cases hy
      exact Or.inr (Or.inl (hnext _ rfl hyr))
    · cases hy
      exact Or.inr (Or.inr ⟨x, rfl, hyr⟩)
  unfold oldestProducer at h
  rcases Option.map_eq_some_iff.mp h with ⟨r, hr, hid⟩
  rw [← hid]
  rcases hloop windows none r hr with hnone | hmem | ⟨x, hx, _⟩
  · cases hnone
  · exact hmem
  · cases hx

theorem evictOldestProducer_cases (d : Deduper) (c : CheckContext) :
    d.evictOldestProducer c = d ∨
      (d.evictOldestProducer c).windows.length < d.windows.length := by
  unfold evictOldestProducer
  cases hold : oldestProducer (c.windows.order d.windows) with
  | none => exact Or.inl rfl
  | some id =>
  simp only
  by_cases hid : id = []
  · rw [if_pos hid]
    exact Or.inl rfl
  rw [if_neg hid]
  have hmem := mem_of_oldestProducer hold
  rw [((c.windows.perm d.windows).map Prod.fst).mem_iff] at hmem
  exact Or.inr (length_deleteEntry_lt hmem)

theorem Bounded.track (hd : d.Bounded) (producerID : Bytes) (c : CheckContext) :
    ((d.track producerID c).2 = none -> (d.track producerID c).1 = d) ∧
      forall w w', (d.track producerID c).2 = some w ->
        ((d.track producerID c).1.putWindow producerID w').Bounded := by
  unfold Deduper.track
  cases hget : getEntry producerID d.windows with
  | some w =>
    simp only
    refine ⟨?_, ?_⟩
    · intro h
      cases h
    intro w1 w' _
    have hlength := length_setEntry_of_getEntry (v := w') hget
    unfold Bounded putWindow
    simp only
    rw [hlength]
    exact hd
  | none =>
  by_cases hfull : d.windows.length ≥ maxProducers
  · simp only [hfull, if_true]
    rcases d.evictOldestProducer_cases c with hsame | hless
    · rw [hsame]
      simp only [hfull, if_true]
      refine ⟨fun _ => trivial, ?_⟩
      intro w w' h
      cases h
    have hroom : ¬ (d.evictOldestProducer c).windows.length ≥
        maxProducers := by
      unfold Bounded at hd
      omega
    simp only [hroom, if_false]
    refine ⟨?_, ?_⟩
    · intro h
      cases h
    intro w w' _
    have hle := length_setEntry_le producerID w'
      (d.evictOldestProducer c).windows
    unfold Bounded putWindow
    simp only
    omega
  · simp only [hfull, if_false]
    refine ⟨?_, ?_⟩
    · intro h
      cases h
    intro w w' _
    have hle := length_setEntry_le producerID w' d.windows
    unfold Bounded putWindow
    simp only
    omega

theorem Bounded.check_untracked (hd : d.Bounded) {producerID : Bytes}
    {c : CheckContext} (huntracked : ¬ d.Tracks producerID c) (seq : Nat)
    (key : Bytes) :
    d.check producerID seq key c = (d, false) := by
  have htrack := (hd.track producerID c).left
  unfold Deduper.check
  cases hon : d.enabled with
  | false => rfl
  | true =>
  unfold Tracks at huntracked
  cases hresult : d.track producerID c with
  | mk d' w =>
    rw [hresult] at htrack huntracked
    cases w with
    | none =>
      have hsame : d' = d := htrack rfl
      simp only [Bool.not_true, Bool.false_eq_true, if_false, hsame]
    | some w => exact absurd rfl huntracked

theorem Bounded.check (hd : d.Bounded) (producerID : Bytes) (seq : Nat)
    (key : Bytes) (c : CheckContext) :
    (d.check producerID seq key c).1.Bounded := by
  rcases hd.track producerID c with ⟨hsame, hput⟩
  unfold Deduper.check
  cases d.enabled with
  | false => exact hd
  | true =>
  rw [if_neg (by decide)]
  cases hresult : d.track producerID c with
  | mk d' w =>
    rw [hresult] at hsame hput
    cases w with
    | none =>
      rw [show d' = d from hsame rfl]
      exact hd
    | some w =>
    simp only
    split
    · exact hput w _ rfl
    · exact hput w _ rfl

theorem bounded_newDeduper (enabled : Bool) (windowSize maxEntries : Int) :
    (newDeduper enabled windowSize maxEntries).Bounded :=
  Nat.zero_le _

end Deduper

end Broker
end ChimeraMQ
