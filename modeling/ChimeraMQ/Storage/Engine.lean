import ChimeraMQ.Foundation.Entries
import ChimeraMQ.Storage.Partition
import Mathlib.Logic.Function.Basic

/-!
# The hot storage engine

The partitions of all topics, each in a directory of its own, opened when they
are first used.
-/

namespace ChimeraMQ
namespace Storage

open Foundation

abbrev PartitionKey := Bytes × Nat

/--
The open partitions and the directories as they were when the engine was
started; the directory of an open partition is its own.
-/
structure HotEngine where
  segmentSize : Nat
  dirs : List (PartitionKey × Disk)
  partitions : List (PartitionKey × Partition)

namespace HotEngine

def newEngine (segmentSize : Nat) (dirs : List (PartitionKey × Disk)) :
    HotEngine where
  segmentSize := segmentSize
  dirs := dirs
  partitions := []

def directory (e : HotEngine) (key : PartitionKey) : Disk :=
  (getEntry key e.dirs).getD Disk.empty

def getOrCreatePartition (e : HotEngine) (key : PartitionKey) (now : Nat) :
    Except SegmentError (HotEngine × Partition) :=
  match getEntry key e.partitions with
  | some p => .ok (e, p)
  | none =>
  match Partition.openPartition (e.directory key) key.1 key.2
    e.segmentSize now with
  | .error err => .error err
  | .ok p =>
    .ok ({ e with partitions := setEntry key p e.partitions }, p)

def putPartition (e : HotEngine) (key : PartitionKey) (p : Partition) :
    HotEngine :=
  { e with partitions := setEntry key p e.partitions }

section

variable {α : Type} {e : HotEngine} {key key' : PartitionKey} {p : Partition}
variable {values : PartitionKey -> α} {v : α}

theorem opened_putPartition {P : Partition -> α -> Prop} (hp : P p v)
    (hopened : forall key p, getEntry key e.partitions = some p ->
      P p (values key)) {p' : Partition}
    (hget : getEntry key' (e.putPartition key p).partitions = some p') :
    P p' (Function.update values key v key') := by
  by_cases hkey : key' = key
  · rw [hkey, putPartition, getEntry_setEntry] at hget
    cases hget
    rw [hkey, Function.update_self]
    exact hp
  · rw [putPartition, getEntry_setEntry_ne hkey] at hget
    rw [Function.update_of_ne hkey]
    exact hopened key' p' hget

theorem closed_putPartition {P : PartitionKey -> α -> Prop}
    (hclosed : forall key, getEntry key e.partitions = none ->
      P key (values key))
    (hget : getEntry key' (e.putPartition key p).partitions = none) :
    P key' (Function.update values key v key') := by
  by_cases hkey : key' = key
  · rw [hkey, putPartition, getEntry_setEntry] at hget
    cases hget
  · rw [putPartition, getEntry_setEntry_ne hkey] at hget
    rw [Function.update_of_ne hkey]
    exact hclosed key' hget

end

def append (e : HotEngine) (key : PartitionKey) (data : Bytes) (now : Nat) :
    HotEngine × Except SegmentError Nat :=
  match e.getOrCreatePartition key now with
  | .error err => (e, .error err)
  | .ok (e, p) =>
    let r := p.append data now
    (e.putPartition key r.1, r.2)

def allDirs (e : HotEngine) : List (PartitionKey × Disk) :=
  e.partitions.foldl (fun dirs q => setEntry q.1 q.2.dir dirs) e.dirs

end HotEngine

end Storage
end ChimeraMQ
