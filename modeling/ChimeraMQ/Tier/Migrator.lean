import ChimeraMQ.Cold.Archive
import ChimeraMQ.Storage.Engine

/-!
# The tier migrator

Records move from the hot engine to the warm tree and from there to cold
archives; a read falls through the tiers.  The warm and the cold tier know a
record by its offset alone.  The clock, the order of the loops over maps and
what fails while records are copied are arguments.
-/

namespace ChimeraMQ
namespace Tier

open Foundation
open Storage
open Warm
open Cold

/-- How long records stay in a tier; zero stands for forever. -/
structure TierPolicy where
  hotRetention : Int
  warmRetention : Int
deriving DecidableEq

structure ColdManager where
  disk : Disk
  archives : List (List Char × ColdArchive)
deriving DecidableEq

def ColdManager.empty : ColdManager where
  disk := .empty
  archives := []

structure Migrator where
  policy : TierPolicy
  hot : HotEngine
  warm : Option LSMTree
  cold : Option ColdManager

inductive TierError where
  | deleted (offset : Nat)
  | notFound (offset : Nat)
deriving DecidableEq

def ColdManager.get (cold : ColdManager)
    (order : MapOrder (List Char × ColdArchive)) (offset : Nat) :
    Option Bytes :=
  (order.order cold.archives).findSome? (fun e =>
    if offset ≥ e.2.minOff ∧ offset ≤ e.2.maxOff then
      e.2.get (cold.disk.content e.2.file) offset
    else none)

namespace Migrator

def readBelow (m : Migrator) (offset : Nat)
    (order : MapOrder (List Char × ColdArchive)) : Except TierError Bytes :=
  match m.warm.bind (fun w => w.get (be 8 offset)) with
  | some (_, true) => .error (.deleted offset)
  | some (value, false) => .ok value
  | none =>
    match m.cold.bind (fun c => c.get order offset) with
    | some value => .ok value
    | none => .error (.notFound offset)

def read (m : Migrator) (key : PartitionKey) (offset now : Nat)
    (order : MapOrder (List Char × ColdArchive)) :
    Migrator × Except TierError Bytes :=
  match m.hot.getOrCreatePartition key now with
  | .error _ => (m, m.readBelow offset order)
  | .ok (hot, p) =>
  let m := { m with hot := hot }
  match p.read offset with
  | .ok data => (m, .ok data)
  | .error _ => (m, m.readBelow offset order)

end Migrator

/-!
## From hot to warm
-/

/-- What a migration cannot choose: the clock, map orders, and failures. -/
structure Circumstances where
  now : Nat
  order : MapOrder (PartitionKey × Partition)
  created : PartitionKey -> Segment -> Nat
  readFails : PartitionKey -> Nat -> Bool
  putFails : PartitionKey -> Nat -> Bool

def copyRecord (env : Circumstances) (key : PartitionKey) (p : Partition)
    (c : LSMTree × List Nat) (offset : Nat) : LSMTree × List Nat :=
  if env.readFails key offset then c
  else
    match p.read offset with
    | .error _ => c
    | .ok data =>
    if env.putFails key offset then c
    else
      match c.1.put (be 8 offset) data env.now with
      | none => c
      | some warm => (warm, c.2 ++ [offset])

def segmentOffsets (s : Segment) : List Nat :=
  List.range' s.baseOff (s.nextOff - s.baseOff)

def dropSegment (p : Partition) (s : Segment) : Partition :=
  { p with dir := p.dir.remove s.path, older := p.older.erase s }

/-- Copy a segment that is old enough; it goes if a record was copied. -/
def migrateSegment (env : Circumstances) (cutoff : Int) (key : PartitionKey)
    (c : LSMTree × Partition × List Nat) (s : Segment) :
    LSMTree × Partition × List Nat :=
  if (env.created key s : Int) > cutoff then c
  else
    let r := (segmentOffsets s).foldl (copyRecord env key c.2.1) (c.1, [])
    if 0 < r.2.length then (r.1, dropSegment c.2.1 s, c.2.2 ++ r.2)
    else (r.1, c.2.1, c.2.2)

def migratePartition (env : Circumstances) (cutoff : Int)
    (c : LSMTree × HotEngine × List (PartitionKey × Nat))
    (q : PartitionKey × Partition) :
    LSMTree × HotEngine × List (PartitionKey × Nat) :=
  let r := q.2.older.foldl (migrateSegment env cutoff q.1) (c.1, q.2, [])
  (r.1, c.2.1.putPartition q.1 r.2.1,
    c.2.2 ++ r.2.2.map (fun offset => (q.1, offset)))

/--
Copy the old segments of all partitions to the warm tree.  Returns the records
that it accepted, too.
-/
def Migrator.migrateHotToWarm (m : Migrator) (env : Circumstances) :
    Migrator × List (PartitionKey × Nat) :=
  match m.warm with
  | none => (m, [])
  | some warm =>
  if m.policy.hotRetention = 0 then (m, [])
  else
    let r := (env.order.order m.hot.partitions).foldl
      (migratePartition env (env.now - m.policy.hotRetention))
      (warm, m.hot, [])
    ({ m with warm := some r.1, hot := r.2.1 }, r.2.2)

/-!
## From warm to cold
-/

def oldSSTables (lsm : LSMTree) (olderThan now : Int) : List SSTable :=
  if 0 < now - olderThan then (lsm.levels.drop 1).flatten else []

def removeSSTable (lsm : LSMTree) (sst : SSTable) : LSMTree :=
  { lsm with
    dir := removeTable lsm.dir sst
    levels := lsm.levels.map (fun level => level.erase sst) }

def batchSize : Nat := 10

def batches {α : Type} (xs : List α) : List (List α) :=
  (List.range ((xs.length + (batchSize - 1)) / batchSize)).map
    (fun i => (xs.drop (batchSize * i)).take batchSize)

def archiveName (now : Nat) : List Char :=
  "cold-".toList ++ Nat.toDigits 10 now ++ ".dat".toList

/--
Make an archive of some tables and take them from the tree; if there is an
error they stay.
-/
def archiveBatch (c : LSMTree × ColdManager) (now : Nat)
    (batch : List SSTable) : Option (LSMTree × ColdManager) :=
  match createColdArchive c.2.disk (archiveName now) c.1.dir.disk batch with
  | none => none
  | some (disk, .error _) => some (c.1, { c.2 with disk := disk })
  | some (disk, .ok ca) =>
    some (batch.foldl removeSSTable c.1,
      { disk := disk
        archives := setEntry (archiveName now) ca c.2.archives })

def archiveBatches (clock : Nat -> Nat) :
    LSMTree × ColdManager -> Nat -> List (List SSTable) ->
      Option (LSMTree × ColdManager)
  | c, _, [] => some c
  | c, i, batch :: rest =>
    match archiveBatch c (clock i) batch with
    | none => none
    | some c => archiveBatches clock c (i + 1) rest

/--
Move the old tables of the warm tree to archives.  A migrator with a cold tier
and no warm one panics, and the loop over a table may not end.
-/
def Migrator.migrateWarmToCold (m : Migrator) (now : Nat)
    (clock : Nat -> Nat) : Option Migrator :=
  match m.cold with
  | none => some m
  | some cold =>
  if m.policy.warmRetention = 0 then some m
  else
    match m.warm with
    | none => none
    | some warm =>
      (archiveBatches clock (warm, cold) 0
        (batches (oldSSTables warm m.policy.warmRetention now))).map
          (fun c => { m with warm := some c.1, cold := some c.2 })

end Tier
end ChimeraMQ
