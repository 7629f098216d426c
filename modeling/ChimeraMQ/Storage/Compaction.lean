import ChimeraMQ.Message.Envelope
import ChimeraMQ.Storage.Partition
import ChimeraMQ.Foundation.Run

/-!
# Log compaction

The compactor rewrites the frozen segments of a partition into one that keeps
the messages without a routing key and the last message of every routing key.
The order in which the program loops over the keys is an argument, and so is
the time of the new segment's header.
-/

namespace ChimeraMQ
namespace Storage

open Foundation
open Message

def maxCompactionKeys : Nat := 1000000

def maxCompactionRecord : Nat := 16 * 1024 * 1024

inductive CompactionMode where
  | none
  | keyBased
deriving DecidableEq

structure LogCompactor where
  mode : CompactionMode
  enabled : Bool
  encryptor : Option (Bytes -> Bytes -> Option Bytes)

structure Compacting where
  latest : List (Bytes × Bytes)
  keyless : List Bytes
  totalRead : Nat
  keysExceeded : Bool

namespace LogCompactor

def newLogCompactor (mode : CompactionMode) : LogCompactor where
  mode := mode
  enabled := mode ≠ .none
  encryptor := none

def frozenSegments (p : Partition) : List Segment :=
  p.segments.filter (fun s => s.frozen)

/--
The records of a segment file from a position on, up to one that is empty, too
long or cut short.
-/
def readRecords (f : Bytes) : Nat -> Nat -> List Bytes
  | 0, _ => []
  | k + 1, pos =>
    match readAt f pos 4 with
    | none => []
    | some lenBuf =>
    let dataLen := ofBe lenBuf
    if dataLen = 0 ∨ dataLen > maxCompactionRecord then []
    else
      match readAt f (pos + 4) dataLen with
      | none => []
      | some data => data :: readRecords f k (pos + 4 + dataLen)

def readAllRecords (f : Bytes) : List Bytes :=
  readRecords f f.length segmentHeaderLen

/-- The name that a partition's records are encrypted under. -/
def segID (p : Partition) : Bytes :=
  p.topicName ++ ("/".toList ++ Nat.toDigits 10 p.partitionID).map
    (fun c => UInt8.ofNat c.toNat)

def decrypt (lc : LogCompactor) (id data : Bytes) : Option Bytes :=
  match lc.encryptor with
  | none => some data
  | some dec => dec data id

def collect (lc : LogCompactor) (id : Bytes) (c : Compacting) (data : Bytes) :
    Compacting :=
  let c := { c with totalRead := c.totalRead + 1 }
  match lc.decrypt id data with
  | none => c
  | some data =>
  match unmarshal data with
  | .error _ => c
  | .ok env =>
  if env.routingKey = [] then
    { c with keyless := c.keyless ++ [data] }
  else
    let exceeded :=
      c.keysExceeded || decide (c.latest.length ≥ maxCompactionKeys)
    let c := { c with keysExceeded := exceeded }
    if exceeded then c
    else { c with latest := setEntry env.routingKey data c.latest }

def collectAll (lc : LogCompactor) (p : Partition) : Compacting :=
  ((frozenSegments p).flatMap (fun s => readAllRecords (p.content s))).foldl
    (lc.collect (segID p))
    { latest := [], keyless := [], totalRead := 0, keysExceeded := false }

def compactedName (baseOffset : Nat) : List Char :=
  zeroPadded 20 baseOffset ++ ".compacted.log".toList

def writeCompacted (dir : Disk) (baseOffset now : Nat) (recs : List Bytes) :
    Disk :=
  let r := dir.create (compactedName baseOffset)
  r.1.setContent r.2
    (Segment.header baseOffset now ++ recs.flatMap Segment.record)

/--
Compact a partition.  The order says how the loop over the last messages of
the keys runs; the compaction is not possible with an order that leaves out or
adds one.
-/
def compact (lc : LogCompactor) (p : Partition) (order : List Bytes)
    (now : Nat) : Option (Except SegmentError Partition) :=
  let frozen := frozenSegments p
  match frozen with
  | first :: _ :: _ =>
    let c := lc.collectAll p
    if c.totalRead = 0 then some (.ok p)
    else if order.Perm (c.latest.map Prod.snd) then
      let dir := writeCompacted p.dir first.baseOff now (c.keyless ++ order)
      let dir := frozen.foldl (fun dir s => dir.remove s.path) dir
      match Partition.openFile dir (compactedName first.baseOff)
        first.baseOff p.maxSegSize now with
      | .error e => some (.error e)
      | .ok (dir, s) =>
        let s := s.freeze
        some (.ok
          { p with
            dir := dir
            older := s :: p.older.filter (fun s => !s.frozen)
            logStart := s.baseOff })
    else none
  | _ => some (.ok p)

end LogCompactor

/-!
## The phases of a compaction

A compaction takes the partition's lock twice: to note the frozen segments, and
to put the compacted segment in their place.  In between it reads the segments
and writes the compacted file, and other goroutines append to the partition.
-/

namespace LogCompactor

def collectFrom (lc : LogCompactor) (p : Partition) (frozen : List Segment) :
    Compacting :=
  (frozen.flatMap (fun s => readAllRecords (p.content s))).foldl
    (lc.collect (segID p))
    { latest := [], keyless := [], totalRead := 0, keysExceeded := false }

def firstBase (frozen : List Segment) : Nat :=
  match frozen with
  | [] => 0
  | s :: _ => s.baseOff

/--
The second phase: read the segments and write the compacted file, unless there
is nothing in them.
-/
def rewrite (lc : LogCompactor) (p : Partition) (frozen : List Segment)
    (order : List Bytes) (now : Nat) : Option (Option Disk) :=
  let c := lc.collectFrom p frozen
  if c.totalRead = 0 then some none
  else if order.Perm (c.latest.map Prod.snd) then
    some (some
      (writeCompacted p.dir (firstBase frozen) now (c.keyless ++ order)))
  else none

/-- The third phase: the compacted segment for all segments that are frozen. -/
def swap (p : Partition) (baseOffset now : Nat) :
    Except SegmentError Partition :=
  let dir := (frozenSegments p).foldl (fun dir s => dir.remove s.path) p.dir
  match Partition.openFile dir (compactedName baseOffset) baseOffset
    p.maxSegSize now with
  | .error e => .error e
  | .ok (dir, s) =>
    let s := s.freeze
    .ok
      { p with
        dir := dir
        older := s :: p.older.filter (fun s => !s.frozen)
        logStart := s.baseOff }

theorem compact_eq_phases (lc : LogCompactor) (p : Partition)
    (order : List Bytes) (now : Nat) :
    lc.compact p order now =
      if (frozenSegments p).length < 2 then some (.ok p)
      else
        (lc.rewrite p (frozenSegments p) order now).map (fun written =>
          match written with
          | none => .ok p
          | some dir =>
            swap { p with dir := dir } (firstBase (frozenSegments p)) now) := by
  unfold compact rewrite
  cases hfrozen : frozenSegments p with
  | nil => rfl
  | cons s rest =>
  cases rest with
  | nil => rfl
  | cons t rest =>
  have hlong : ¬ (s :: t :: rest).length < 2 := by
    simp
  have hall : lc.collectFrom p (s :: t :: rest) = lc.collectAll p := by
    rw [← hfrozen]
    rfl
  have hsame : forall dir, frozenSegments { p with dir := dir } =
      s :: t :: rest := fun _ => hfrozen
  simp only [if_neg hlong, hall, swap, hsame, firstBase]
  by_cases hread : (lc.collectAll p).totalRead = 0
  · simp only [hread, if_true, Option.map_some]
  simp only [hread, if_false]
  by_cases horder : order.Perm ((lc.collectAll p).latest.map Prod.snd)
  · simp only [horder, if_true, Option.map_some]
    split
    · simp only
    · simp only
  · simp only [horder, if_false, Option.map_none]

end LogCompactor

/-!
## A partition that is shared
-/

/-- How far a compaction is; it remembers the frozen segments it has noted. -/
inductive CompactionPhase where
  | idle
  | noted (frozen : List Segment)
  | written (frozen : List Segment)

/--
A partition while a compaction may be under way, and the records with their
offsets that were appended and that no compaction has noted.
-/
structure SharedPartition where
  partition : Partition
  phase : CompactionPhase
  outside : List (Nat × Bytes)

inductive SharedAction where
  | append (data : Bytes) (now : Nat)
  | note
  | rewrite (order : List Bytes) (now : Nat)
  | swap (now : Nat)
  | reopen (now : Nat)

namespace SharedPartition

def covers (segments : List Segment) (offset : Nat) : Bool :=
  segments.any (fun s => decide (s.baseOff ≤ offset ∧ offset < s.nextOff))

/-- One step of whoever is next; a partition is reopened between compactions. -/
def step (lc : LogCompactor) (s : SharedPartition) :
    SharedAction -> Option SharedPartition
  | .append data now =>
    let r := s.partition.append data now
    match r.2 with
    | .ok offset =>
      some { s with
        partition := r.1
        outside := s.outside ++ [(offset, data)] }
    | .error _ => some { s with partition := r.1 }
  | .note =>
    match s.phase with
    | .idle =>
      let frozen := LogCompactor.frozenSegments s.partition
      if frozen.length < 2 then some s
      else
        some { s with
          phase := .noted frozen
          outside := s.outside.filter (fun e => !covers frozen e.1) }
    | _ => none
  | .rewrite order now =>
    match s.phase with
    | .noted frozen =>
      match lc.rewrite s.partition frozen order now with
      | none => none
      | some none => some { s with phase := .idle }
      | some (some dir) =>
        some { s with
          partition := { s.partition with dir := dir }
          phase := .written frozen }
    | _ => none
  | .swap now =>
    match s.phase with
    | .written frozen =>
      match LogCompactor.swap s.partition (LogCompactor.firstBase frozen)
        now with
      | .error _ => none
      | .ok p => some { s with partition := p, phase := .idle }
    | _ => none
  | .reopen now =>
    match s.phase with
    | .idle =>
      match Partition.openPartition s.partition.dir s.partition.topicName
        s.partition.partitionID s.partition.maxSegSize now with
      | .error _ => none
      | .ok p => some { s with partition := p }
    | _ => none

end SharedPartition

end Storage
end ChimeraMQ
