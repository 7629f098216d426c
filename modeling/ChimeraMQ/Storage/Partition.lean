import ChimeraMQ.Foundation.Decimal
import ChimeraMQ.Foundation.Disk
import ChimeraMQ.Storage.Segment

/-!
# Partitions

A partition is a chain of segments in a directory of its own.  Records go to
the last segment, which is frozen and followed by a new one when it is full.
The index files written when a segment is frozen, which nothing reads, and
failing file operations are left out.
-/

namespace ChimeraMQ
namespace Storage

open Foundation

/--
An open partition: its directory and its segments, of which the last one is
the active segment.
-/
structure Partition where
  topicName : Bytes
  partitionID : Nat
  dir : Disk
  older : List Segment
  active : Segment
  highWater : Nat
  logStart : Nat
  maxSegSize : Nat
deriving DecidableEq

namespace Partition

def segments (p : Partition) : List Segment :=
  p.older ++ [p.active]

def content (p : Partition) (s : Segment) : Bytes :=
  p.dir.content s.file

/-!
## Opening
-/

def logSuffix : List Char := ".log".toList

def segmentName (baseOffset : Nat) : List Char :=
  zeroPadded 20 baseOffset ++ logSuffix

def openFile (dir : Disk) (name : List Char) (baseOffset maxSize now : Nat) :
    Except SegmentError (Disk × Segment) :=
  let r := dir.openCreate name
  match Segment.openSegment name r.2 (r.1.content r.2) baseOffset maxSize now
    with
  | .error e => .error e
  | .ok (s, f) => .ok (r.1.setContent r.2 f, s)

def scanBaseOffset (name : List Char) : Option Nat :=
  let digits := name.takeWhile Char.isDigit
  match parseDecimal (2 ^ 64) digits with
  | none => none
  | some baseOff =>
    if logSuffix.isPrefixOf (name.drop digits.length) then some baseOff
    else none

/-- The base offset of a directory entry that is loaded as a segment. -/
def loadable (name : List Char) : Option Nat :=
  if name.length < 5 ∨ ¬ logSuffix.isSuffixOf name then none
  else scanBaseOffset name

def loadEntries (maxSegSize now : Nat) :
    List (List Char × Nat) -> Disk -> Except SegmentError (Disk × List Segment)
  | [], dir => .ok (dir, [])
  | (name, _) :: rest, dir =>
    match loadable name with
    | none => loadEntries maxSegSize now rest dir
    | some baseOff =>
    match openFile dir name baseOff maxSegSize now with
    | .error e => .error e
    | .ok (dir, s) =>
      match loadEntries maxSegSize now rest dir with
      | .error e => .error e
      | .ok (dir, segments) => .ok (dir, s :: segments)

def loadSegments (dir : Disk) (maxSegSize now : Nat) :
    Except SegmentError (Disk × List Segment) :=
  loadEntries maxSegSize now dir.readDir dir

def ofSegments (topic : Bytes) (id maxSegSize : Nat) (dir : Disk)
    (older : List Segment) (active : Segment) : Partition where
  topicName := topic
  partitionID := id
  dir := dir
  older := older
  active := active
  highWater := if active.nextOff > 0 then active.nextOff - 1 else 0
  logStart := 0
  maxSegSize := maxSegSize

def openPartition (dir : Disk) (topic : Bytes) (id maxSegSize now : Nat) :
    Except SegmentError Partition :=
  match loadSegments dir maxSegSize now with
  | .error e => .error e
  | .ok (dir, segments) =>
  match segments.getLast? with
  | some active =>
    .ok (ofSegments topic id maxSegSize dir segments.dropLast active)
  | none =>
    match openFile dir (segmentName 0) 0 maxSegSize now with
    | .error e => .error e
    | .ok (dir, s) => .ok (ofSegments topic id maxSegSize dir [] s)

/-!
## Writing
-/

def createNewSegment (p : Partition) (baseOffset now : Nat) :
    Except SegmentError Partition :=
  match openFile p.dir (segmentName baseOffset) baseOffset p.maxSegSize now with
  | .error e => .error e
  | .ok (dir, s) =>
    .ok { p with dir := dir, older := p.segments, active := s }

def appendActive (p : Partition) (data : Bytes) :
    Except SegmentError (Partition × Nat) :=
  match p.active.append (p.content p.active) data with
  | .error e => .error e
  | .ok (s, f, offset, _) =>
  .ok
    ({ p with
        dir := p.dir.setContent s.file f
        active := s
        highWater := offset },
      offset)

def append (p : Partition) (data : Bytes) (now : Nat) :
    Partition × Except SegmentError Nat :=
  match p.appendActive data with
  | .ok (p, offset) => (p, .ok offset)
  | .error .segmentFull =>
    let p := { p with active := p.active.freeze }
    match p.createNewSegment p.active.nextOff now with
    | .error e => (p, .error e)
    | .ok p =>
      match p.appendActive data with
      | .error e => (p, .error e)
      | .ok (p, offset) => (p, .ok offset)
  | .error e => (p, .error e)

/-!
## Reading
-/

def findSegment (p : Partition) (offset : Nat) : Option Segment :=
  binarySearch
    (fun s : Segment =>
      if offset ≥ s.baseOff ∧ offset < s.nextOff then .eq
      else if offset < s.baseOff then .lt
      else .gt) p.segments

/-- The same segment with its place in the list of segments. -/
def findSegmentAt (p : Partition) (offset : Nat) : Option (Segment × Nat) :=
  binarySearch
    (fun e : Segment × Nat =>
      if offset ≥ e.1.baseOff ∧ offset < e.1.nextOff then .eq
      else if offset < e.1.baseOff then .lt
      else .gt) p.segments.zipIdx

inductive ReadError where
  | offsetNotFound (offset : Nat)
  | segment (e : SegmentError)
deriving DecidableEq

def read (p : Partition) (offset : Nat) : Except ReadError Bytes :=
  match p.findSegment offset with
  | none => .error (.offsetNotFound offset)
  | some s =>
    match s.read (p.content s) offset with
    | .error e => .error (.segment e)
    | .ok data => .ok data

/--
Read the records of a segment one after the other, at most as many as there is
room for.  Returns them with the offset after them.
-/
def scanSegment (s : Segment) (f : Bytes) (endOffset : Nat) :
    Nat -> Nat -> Nat -> List Bytes × Nat
  | 0, offset, _ => ([], offset)
  | room + 1, offset, pos =>
    if offset ≤ endOffset ∧ offset < s.nextOff then
      match s.readAtSequential f pos with
      | .error _ => ([], offset)
      | .ok (data, nextPos) =>
        let r := scanSegment s f endOffset room ((offset + 1) % 2 ^ 64)
          nextPos
        (data :: r.1, r.2)
    else ([], offset)

/--
Scan the segments from an offset on until one is found twice in a row, which
its place tells.  The first number bounds the rounds.
-/
def scanSegments (p : Partition) (endOffset : Nat) :
    Nat -> Nat -> Nat -> Option Nat -> List Bytes
  | 0, _, _, _ => []
  | k + 1, room, offset, lastSeg =>
    if offset ≤ endOffset ∧ 0 < room then
      match p.findSegmentAt offset with
      | none => []
      | some (s, place) =>
      if lastSeg = some place then []
      else
        match s.findPosition (p.content s) offset with
        | .error _ => []
        | .ok pos =>
          let r := scanSegment s (p.content s) endOffset room offset pos
          r.1 ++ scanSegments p endOffset k (room - r.1.length) r.2
            (some place)
    else []

def readRange (p : Partition) (startOffset endOffset : Nat)
    (maxMessages : Int) : List Bytes :=
  -- a round without a record is the last one but one
  p.scanSegments endOffset (maxMessages.toNat + 2) maxMessages.toNat startOffset
    none

def logStartOffset (p : Partition) : Nat :=
  match p.segments.head? with
  | none => 0
  | some s => s.baseOff

end Partition

/-!
## Retention

Old segments of a partition are removed because there are too many, because
they are too large, or because the log is to start later.  A segment is removed
from the partition and its file from the directory, by its path.  The active
segment is never frozen, so only the segments before it are looked through.
-/

/-- How much of a partition is kept; zero stands for no limit. -/
structure RetentionPolicy where
  maxSize : Int
  maxSegments : Int
deriving DecidableEq

namespace Partition

def countFrozen (segments : List Segment) : Nat :=
  segments.countP (fun s => s.frozen)

def findOldestFrozen (segments : List Segment) : Option Segment :=
  segments.find? (fun s => s.frozen)

def totalSize (segments : List Segment) : Nat :=
  (segments.map Segment.size).sum

def removeSegment (p : Partition) (s : Segment) : Partition :=
  let older := p.older.erase s
  { p with
    dir := p.dir.remove s.path
    older := older
    logStart := (older.headD p.active).baseOff }

/--
Remove the oldest frozen segment again and again while the segments exceed a
limit.  Returns the number of removed segments; the first argument bounds it.
-/
def removeFrozen (exceeded : List Segment -> Bool) :
    Nat -> Partition -> Partition × Nat
  | 0, p => (p, 0)
  | k + 1, p =>
    if exceeded p.segments then
      match findOldestFrozen p.older with
      | none => (p, 0)
      | some s =>
        let r := removeFrozen exceeded k (p.removeSegment s)
        (r.1, r.2 + 1)
    else (p, 0)

def tooMany (policy : RetentionPolicy) (segments : List Segment) : Bool :=
  decide (0 < policy.maxSegments ∧
    policy.maxSegments < (countFrozen segments : Int))

def tooLarge (policy : RetentionPolicy) (segments : List Segment) : Bool :=
  decide (0 < policy.maxSize ∧ policy.maxSize < (totalSize segments : Int))

/-- Remove old segments; returns how many. -/
def enforceRetention (p : Partition) (policy : RetentionPolicy) :
    Partition × Nat :=
  let r := removeFrozen (tooMany policy) p.older.length p
  let r' := removeFrozen (tooLarge policy) r.1.older.length r.1
  (r'.1, r.2 + r'.2)

/-- Remove leading segments whose offsets all come before the target. -/
def removeBefore (target : Nat) :
    List Segment -> Disk -> List Segment × Disk × Nat
  | [], dir => ([], dir, 0)
  | s :: rest, dir =>
    if s.nextOff ≤ target then
      let r := removeBefore target rest (dir.remove s.path)
      (r.1, r.2.1, r.2.2 + 1)
    else (s :: rest, dir, 0)

/-- Move the start of the log towards the target, by whole segments. -/
def advanceLogStart (p : Partition) (targetOffset : Nat) : Partition × Nat :=
  let r := removeBefore targetOffset p.older p.dir
  ({ p with
      dir := r.2.1
      older := r.1
      logStart := (r.1.headD p.active).baseOff },
    r.2.2)

end Partition

inductive RetentionAction where
  | append (data : Bytes) (now : Nat)
  | enforceRetention (policy : RetentionPolicy)
  | advanceLogStart (targetOffset : Nat)
  | reopen (now : Nat)

namespace Partition

def retentionStep (s : Partition × List (Nat × Bytes)) :
    RetentionAction -> Option (Partition × List (Nat × Bytes))
  | .append data now =>
    let r := s.1.append data now
    match r.2 with
    | .ok offset => some (r.1, s.2 ++ [(offset, data)])
    | .error _ => some (r.1, s.2)
  | .enforceRetention policy => some ((s.1.enforceRetention policy).1, s.2)
  | .advanceLogStart target => some ((s.1.advanceLogStart target).1, s.2)
  | .reopen now =>
    match openPartition s.1.dir s.1.topicName s.1.partitionID s.1.maxSegSize
      now with
    | .ok q => some (q, s.2)
    | .error _ => none

end Partition

end Storage
end ChimeraMQ
