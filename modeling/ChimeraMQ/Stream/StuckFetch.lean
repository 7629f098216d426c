import ChimeraMQ.Stream.Fetch
import ChimeraMQ.Storage.CompactionKeeps
import ChimeraMQ.Tier.Mixing

/-!
# Fetching across missing records

Retention, expiry, compaction and the tier migrator take segments out of a
partition.  A fetch from an offset that the partition does not have any more
gives nothing and stays where it is, whatever there is at later offsets or in
the lower tiers, which a fetch never looks at.
-/

namespace ChimeraMQ
namespace Stream

open Foundation
open Message
open Storage
open Tier
open Warm
open Cold
open Engine

structure TieredStream where
  engine : Engine
  policy : TierPolicy
  warm : Option LSMTree
  cold : Option ColdManager

inductive StreamAction where
  | append (key : PartitionKey) (data : Bytes) (now : Nat)
  | fetch (key : PartitionKey) (fromOffset : Nat) (maxMessages : Int)
      (c : FetchContext)
  | enforceRetention (key : PartitionKey) (policy : RetentionPolicy)
  | advanceLogStart (key : PartitionKey) (targetOffset : Nat)
  | compact (key : PartitionKey) (order : List Bytes) (now : Nat)
  | background (a : LSMAction)
  | migrateHotToWarm (env : Circumstances)
  | migrateWarmToCold (now : Nat) (clock : Nat -> Nat)
  | restart

namespace TieredStream

def migrator (s : TieredStream) : Migrator where
  policy := s.policy
  hot := s.engine.storage
  warm := s.warm
  cold := s.cold

def setMigrator (s : TieredStream) (m : Migrator) : TieredStream where
  engine := { s.engine with storage := m.hot }
  policy := m.policy
  warm := m.warm
  cold := m.cold

def onPartition (s : TieredStream) (key : PartitionKey)
    (f : Partition -> Option Partition) : Option TieredStream :=
  match getEntry key s.engine.storage.partitions with
  | none => none
  | some p =>
  (f p).map (fun p =>
    { s with
      engine :=
        { s.engine with storage := s.engine.storage.putPartition key p } })

def step (lc : LogCompactor) (s : TieredStream) :
    StreamAction -> Option TieredStream
  | .append key data now =>
    some { s with
      engine :=
        { s.engine with
          storage := (s.engine.storage.append key data now).1 } }
  | .fetch key fromOffset maxMessages c =>
    some { s with
      engine := (s.engine.fetch key.1 key.2 fromOffset maxMessages c).1 }
  | .enforceRetention key policy =>
    s.onPartition key (fun p => some (p.enforceRetention policy).1)
  | .advanceLogStart key targetOffset =>
    s.onPartition key (fun p => some (p.advanceLogStart targetOffset).1)
  | .compact key order now =>
    s.onPartition key (fun p => lc.step p (.compact order now))
  | .background a =>
    match s.warm with
    | none => none
    | some w => (background w a).map (fun w => { s with warm := some w })
  | .migrateHotToWarm env =>
    some (s.setMigrator (s.migrator.migrateHotToWarm env).1)
  | .migrateWarmToCold now clock =>
    (s.migrator.migrateWarmToCold now clock).map s.setMigrator
  | .restart => some { s with engine := s.engine.restart }

/-!
## Getting ahead
-/

def StoredAhead (s : TieredStream) (p : Partition) (fromOffset : Nat) : Prop :=
  exists offset, fromOffset ≤ offset ∧ offset ≤ p.highWater ∧
    ((p.record offset).isSome ∨
      exists order data, s.migrator.readBelow offset order = .ok data)

def Advances (fromOffset : Nat) :
    Except FetchError (List Envelope × Nat) -> Prop
  | .error _ => True
  | .ok (msgs, nextOffset) => msgs ≠ [] ∨ fromOffset < nextOffset

def Fetched (s : TieredStream) (key : PartitionKey) (now : Nat)
    (p : Partition) : Prop :=
  p.highWater < 2 ^ 64 ∧
    exists storage, s.engine.storage.getOrCreatePartition key now =
      .ok (storage, p)

/-- No fetch stays where it is while something is stored ahead of it. -/
def NeverStuck (s : TieredStream) : Prop :=
  forall topic partitionID fromOffset (maxMessages : Int)
      (c : FetchContext) p,
    1 ≤ maxMessages -> maxMessages ≤ (maxInt : Int) ->
    s.Fetched (topic, partitionID) c.now p -> s.StoredAhead p fromOffset ->
    Advances fromOffset
      (s.engine.fetch topic partitionID fromOffset maxMessages c).2

/--
Before everything stored there is a message in the partition at every offset,
so that a batch from there does not go beyond the last offset there can be.
-/
def NothingMissing (s : TieredStream) : Prop :=
  s.engine.closed = true ∨
    forall topic partitionID fromOffset now p,
      s.Fetched (topic, partitionID) now p -> s.StoredAhead p fromOffset ->
      (messageAt s.engine.encryptor topic partitionID p
          fromOffset).isSome ∧
        fromOffset + maxInt ≤ 2 ^ 64

variable {topic : Bytes} {p : Partition} {fromOffset : Nat}

theorem Fetched.fetch {s : TieredStream} {partitionID : Nat} {now : Nat}
    (h : s.Fetched (topic, partitionID) now p) (hopen : s.engine.closed = false)
    (hle : fromOffset ≤ p.highWater) (maxMessages : Int)
    (notified : Option Partition) :
    (s.engine.fetch topic partitionID fromOffset maxMessages
        { now := now, notified := notified }).2 =
      .ok (Engine.readMessages s.engine.encryptor p topic partitionID
        fromOffset p.highWater maxMessages) := by
  rcases h with ⟨_, storage, hget⟩
  unfold Engine.fetch
  rw [if_neg (by rw [hopen]; exact Bool.false_ne_true), hget]
  simp only
  rw [if_pos hle]

theorem advances_iff {encryptor : Option Decryptor} {partID : Nat}
    (hbound : p.highWater < 2 ^ 64) (hle : fromOffset ≤ p.highWater)
    (maxMessages : Int) :
    Advances fromOffset
        (.ok (Engine.readMessages encryptor p topic partID fromOffset
          p.highWater maxMessages)) <->
      decodeAll encryptor topic partID fromOffset
        (p.readRange fromOffset
          (lastOffset fromOffset p.highWater maxMessages)
          maxMessages) ≠ [] := by
  constructor
  · intro hadvances hnone
    rcases hadvances with hmsgs | hlater
    · exact hmsgs hnone
    change fromOffset < (fromOffset + (decodeAll encryptor topic
      partID fromOffset (p.readRange fromOffset
        (lastOffset fromOffset p.highWater maxMessages)
        maxMessages)).length) % 2 ^ 64 at hlater
    rw [hnone, List.length_nil] at hlater
    omega
  · intro hmsgs
    exact Or.inl hmsgs

theorem isSome_of_decodeAll {encryptor : Option Decryptor} {partID : Nat}
    (hbound : p.highWater < 2 ^ 64) (hle : fromOffset ≤ p.highWater)
    (hmsgs : decodeAll encryptor topic partID fromOffset
      (p.readRange fromOffset (lastOffset fromOffset p.highWater 1)
        1) ≠ []) :
    (messageAt encryptor topic partID p fromOffset).isSome := by
  have hend := @lastOffset_eq fromOffset p.highWater 1 (by decide)
    (by decide) (by omega)
  have hfrom : fromOffset ≤ lastOffset fromOffset p.highWater 1 := by
    rw [hend]
    omega
  have hhead := @Partition.readRange_head p _ _ 1 hfrom (by decide)
  have hlength := p.length_readRange_le fromOffset
    (lastOffset fromOffset p.highWater 1) 1
  cases hraw : p.readRange fromOffset
      (lastOffset fromOffset p.highWater 1) 1 with
  | nil =>
    rw [hraw] at hmsgs
    exact absurd rfl hmsgs
  | cons data rest =>
  rw [hraw] at hmsgs hhead hlength
  have hrest : rest = [] := by
    apply List.length_eq_zero_iff.mp
    change rest.length + 1 ≤ 1 at hlength
    omega
  rw [hrest, decodeAll, decodeAll] at hmsgs
  rw [messageAt_of_some hhead.symm]
  cases hdecode : decode encryptor topic partID data with
  | none =>
    rw [hdecode] at hmsgs
    exact absurd rfl hmsgs
  | some env => rfl

theorem decodeAll_of_isSome {encryptor : Option Decryptor} {partID : Nat}
    (hle : fromOffset ≤ p.highWater)
    (hsome : (messageAt encryptor topic partID p fromOffset).isSome)
    (hroom : fromOffset + maxInt ≤ 2 ^ 64) {maxMessages : Int}
    (hpos : 1 ≤ maxMessages) (hmax : maxMessages ≤ (maxInt : Int)) :
    decodeAll encryptor topic partID fromOffset
      (p.readRange fromOffset
        (lastOffset fromOffset p.highWater maxMessages)
        maxMessages) ≠ [] := by
  have hend := @lastOffset_eq fromOffset p.highWater maxMessages hpos
    hmax (by omega)
  have hfrom : fromOffset ≤
      lastOffset fromOffset p.highWater maxMessages := by
    rw [hend]
    omega
  have hhead := @Partition.readRange_head p _ _ _ hfrom hpos
  cases hread : p.record fromOffset with
  | none =>
    rw [messageAt_of_none hread] at hsome
    cases hsome
  | some data =>
  rw [messageAt_of_some hread] at hsome
  rw [hread] at hhead
  rcases List.head?_eq_some_iff.mp hhead with ⟨rest, hraw⟩
  rw [hraw, decodeAll]
  cases hdecode : decode encryptor topic partID data with
  | none =>
    rw [hdecode] at hsome
    cases hsome
  | some env => exact List.cons_ne_nil _ _

/--
In any state fetches get ahead exactly if there is a message in the partition
wherever something is stored ahead.
-/
theorem neverStuck_iff (s : TieredStream) :
    s.NeverStuck <-> s.NothingMissing := by
  cases hclosed : s.engine.closed with
  | true =>
    constructor
    · intro _
      exact Or.inl hclosed
    · intro _ topic partitionID fromOffset maxMessages c p _ _ _ _
      rw [fetch_closed hclosed]
      trivial
  | false =>
  constructor
  · intro h
    refine Or.inr ?_
    intro topic partitionID fromOffset now p hfetched hahead
    have hle : fromOffset ≤ p.highWater := by
      rcases hahead with ⟨offset, hfrom, hlast, _⟩
      exact hfrom.trans hlast
    have hall : forall maxMessages : Int, 1 ≤ maxMessages ->
        maxMessages ≤ (maxInt : Int) ->
        decodeAll s.engine.encryptor topic partitionID fromOffset
          (p.readRange fromOffset
            (lastOffset fromOffset p.highWater maxMessages)
            maxMessages) ≠ [] := by
      intro maxMessages hpos hmax
      have hadvances := h topic partitionID fromOffset maxMessages
        { now := now, notified := none } p hpos hmax hfetched hahead
      rw [hfetched.fetch hclosed hle] at hadvances
      exact (advances_iff hfetched.left hle maxMessages).mp hadvances
    constructor
    · exact isSome_of_decodeAll hfetched.left hle
        (hall 1 (by decide) (by decide))
    by_contra hlong
    have hlast := @lastOffset_lt fromOffset p.highWater
      maxInt hle hfetched.left (Int.le_refl _) (by omega)
    apply hall maxInt (by decide) (Int.le_refl _)
    rw [p.readRange_of_lt hlast]
    rfl
  · intro h topic partitionID fromOffset maxMessages c p hpos hmax
      hfetched hahead
    rcases h with hopen | h
    · rw [hclosed] at hopen
      cases hopen
    rcases h topic partitionID fromOffset c.now p hfetched hahead with
      ⟨hsome, hroom⟩
    have hle : fromOffset ≤ p.highWater := by
      rcases hahead with ⟨offset, hfrom, hlast, _⟩
      exact hfrom.trans hlast
    have hfetch := hfetched.fetch hclosed hle maxMessages c.notified
    change (s.engine.fetch topic partitionID fromOffset maxMessages c).2
      = _ at hfetch
    rw [hfetch]
    exact (advances_iff hfetched.left hle maxMessages).mpr
      (decodeAll_of_isSome hle hsome hroom hpos hmax)

/-!
## Runs
-/

def emptyStream (segmentSize : Nat) : TieredStream where
  engine := newEngine (HotEngine.newEngine segmentSize [])
    (OffsetStore.newOffsetStore []) none
  policy := { hotRetention := 0, warmRetention := 0 }
  warm := none
  cold := none

/--
Along a run fetches get ahead in every state exactly if in every state there is
a message in the partition wherever something is stored ahead.
-/
theorem neverStuck_run_iff (lc : LogCompactor) (s : TieredStream)
    (actions : List StreamAction) :
    (forall front, front <+: actions -> forall t,
        run? (step lc) s front = some t -> t.NeverStuck) <->
      forall front, front <+: actions -> forall t,
        run? (step lc) s front = some t -> t.NothingMissing := by
  constructor
  · intro h front hfront t hrun
    exact (neverStuck_iff t).mp (h front hfront t hrun)
  · intro h front hfront t hrun
    exact (neverStuck_iff t).mpr (h front hfront t hrun)

def firstExpires : List StreamAction :=
  [.append ([], 0) (payloadRecord 1) 0,
    .append ([], 0) (payloadRecord 2) 0, .advanceLogStart ([], 0) 1]

/-- The second message is there, but a fetch from the start never gets to it. -/
theorem not_neverStuck_firstExpires :
    exists t p, run? (step (LogCompactor.newLogCompactor .keyBased))
        (emptyStream 110) firstExpires = some t ∧
      getEntry ([], 0) t.engine.storage.partitions = some p ∧
      (messageAt none [] 0 p 1).isSome ∧
      ¬ t.NeverStuck := by
  have hcheck : (run? (step (LogCompactor.newLogCompactor .keyBased))
      (emptyStream 110) firstExpires).bind (fun t =>
        (getEntry ([], 0) t.engine.storage.partitions).map (fun p =>
          decide (p.highWater = 1 ∧ (p.record 1).isSome ∧
            (messageAt none [] 0 p 1).isSome ∧
            (t.engine.fetch [] 0 0 10 { now := 0, notified := none }).2 =
              .ok ([], 0)))) = some true := by
    decide +kernel
  rcases Option.bind_eq_some_iff.mp hcheck with ⟨t, hrun, hrest⟩
  rcases Option.map_eq_some_iff.mp hrest with ⟨p, hget, hdecide⟩
  rcases of_decide_eq_true hdecide with ⟨hhw, hstored, hmessage, hfetch⟩
  refine ⟨t, p, hrun, hget, hmessage, ?_⟩
  intro hnever
  have hfetched : t.Fetched ([], 0) 0 p := by
    refine ⟨by omega, t.engine.storage, ?_⟩
    unfold HotEngine.getOrCreatePartition
    rw [hget]
  have hahead : t.StoredAhead p 0 :=
    ⟨1, by decide, by omega, Or.inl hstored⟩
  have hadvances := hnever [] 0 0 10 { now := 0, notified := none } p
    (by decide) (by decide) hfetched hahead
  rw [hfetch] at hadvances
  rcases hadvances with hmsgs | hlater
  · exact hmsgs rfl
  · exact Nat.lt_irrefl 0 hlater

end TieredStream

end Stream
end ChimeraMQ
