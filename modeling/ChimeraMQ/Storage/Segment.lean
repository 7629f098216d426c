import ChimeraMQ.Foundation.BinarySearch
import ChimeraMQ.Foundation.Bytes

/-!
# Hot segments

A segment file is a header followed by records, each with a length prefix.  The
functions take the bytes of the file beside the state of the segment and give
back the new bytes where they write.  Offsets are 64-bit numbers and the
positions of the sparse index 32-bit numbers, as in the program.  Index
timestamps, which no read uses, are left out.
-/

namespace ChimeraMQ
namespace Storage

open Foundation

def segmentMagic : Nat := 0x43534731

def segmentVersion : Nat := 1

def segmentHeaderLen : Nat := 32

def indexInterval : Nat := 256

/-- Why a segment operation fails. -/
inductive SegmentError where
  | segmentReadOnly
  | segmentFull
  | offsetTooOld
  | badMagic
  | positionOutOfRange (position size : Nat)
  | corruptRecord (dataLen position : Nat)
  | eof
deriving DecidableEq

structure IndexEntry where
  offset : Nat
  position : Nat
deriving DecidableEq

structure Segment where
  path : List Char
  file : Nat
  size : Nat
  maxSize : Nat
  baseOff : Nat
  nextOff : Nat
  index : List IndexEntry
  frozen : Bool
deriving DecidableEq

namespace Segment

/-!
## Opening
-/

def header (baseOff created : Nat) : Bytes :=
  be 4 segmentMagic ++ be 4 segmentVersion ++ be 8 baseOff ++ be 8 created ++
    List.replicate 8 0

def addIndex (index : List IndexEntry) (count offset position : Nat) :
    List IndexEntry :=
  if count % indexInterval = 0 then
    index ++ [{ offset := offset, position := position % 2 ^ 32 }]
  else index

/--
Walk over the length prefixes of a file.  Returns the position after the last
record, the number of records and the index.
-/
def scanRecords (f : Bytes) (baseOff : Nat) :
    Nat -> Nat -> Nat -> List IndexEntry -> Nat × Nat × List IndexEntry
  | 0, pos, count, index => (pos, count, index)
  | k + 1, pos, count, index =>
    match readAt f pos 4 with
    | none => (pos, count, index)
    | some lenBuf =>
      scanRecords f baseOff k (pos + 4 + ofBe lenBuf) (count + 1)
        (addIndex index count ((baseOff + count) % 2 ^ 64) pos)

/-- Rebuild index, next offset and size from the records of the file. -/
def rebuildIndex (s : Segment) (f : Bytes) : Segment :=
  let r := scanRecords f s.baseOff f.length segmentHeaderLen 0 []
  { s with
    index := r.2.2
    nextOff := (s.baseOff + r.2.1) % 2 ^ 64
    size := r.1 }

def readHeader (s : Segment) (f : Bytes) : Except SegmentError Segment :=
  match readAt f 0 segmentHeaderLen with
  | none => .error .eof
  | some header =>
  if ofBe (header.take 4) ≠ segmentMagic then .error .badMagic
  else
    let baseOff := ofBe ((header.drop 8).take 8)
    .ok { s with baseOff := baseOff, nextOff := baseOff, size := f.length }

def openSegment (path : List Char) (file : Nat) (f : Bytes)
    (baseOffset maxSize created : Nat) :
    Except SegmentError (Segment × Bytes) :=
  let s : Segment :=
    { path := path, file := file, size := f.length, maxSize := maxSize
      baseOff := baseOffset, nextOff := baseOffset, index := []
      frozen := false }
  if f.length = 0 then
    .ok ({ s with size := segmentHeaderLen },
      writeAt f 0 (header s.baseOff created))
  else
    match s.readHeader f with
    | .error e => .error e
    | .ok s => .ok (s.rebuildIndex f, f)

/-!
## Writing
-/

def record (data : Bytes) : Bytes :=
  be 4 data.length ++ data

def append (s : Segment) (f : Bytes) (data : Bytes) :
    Except SegmentError (Segment × Bytes × Nat × Nat) :=
  if s.frozen then .error .segmentReadOnly
  else
    let recordSize := 4 + data.length
    if s.size + recordSize > s.maxSize then .error .segmentFull
    else
      let position := s.size
      let offset := s.nextOff
      let f := writeAt f position (record data)
      let msgCount := (offset + 2 ^ 64 - s.baseOff) % 2 ^ 64
      .ok
        ({ s with
            size := s.size + recordSize
            nextOff := (s.nextOff + 1) % 2 ^ 64
            index := addIndex s.index msgCount offset position },
          f, offset, position)

def freeze (s : Segment) : Segment :=
  { s with frozen := true }

/-!
## Reading
-/

def readAt (s : Segment) (f : Bytes) (position : Nat) :
    Except SegmentError Bytes :=
  if position < segmentHeaderLen ∨ position ≥ s.size then
    .error (.positionOutOfRange position s.size)
  else
    match Foundation.readAt f position 4 with
    | none => .error .eof
    | some lenBuf =>
    let dataLen := ofBe lenBuf
    if position + 4 + dataLen > s.size then
      .error (.corruptRecord dataLen position)
    else
      match Foundation.readAt f (position + 4) dataLen with
      | none => .error .eof
      | some data => .ok data

def readAtSequential (s : Segment) (f : Bytes) (position : Nat) :
    Except SegmentError (Bytes × Nat) :=
  if position < segmentHeaderLen ∨ position ≥ s.size then
    .error (.positionOutOfRange position s.size)
  else
    match Foundation.readAt f position 4 with
    | none => .error .eof
    | some lenBuf =>
    let dataLen := ofBe lenBuf
    let endPos := position + 4 + dataLen
    if endPos > s.size then .error (.corruptRecord dataLen position)
    else
      match Foundation.readAt f (position + 4) dataLen with
      | none => .error .eof
      | some data => .ok (data, endPos)

def search (index : List IndexEntry) (targetOffset : Nat) : Option Nat :=
  (binarySearch
    (fun e : IndexEntry =>
      if e.offset = targetOffset then .eq
      else if e.offset < targetOffset then .gt
      else .lt) index).map IndexEntry.position

/-- Walk over a number of records from a position of 32 bits. -/
def skipRecords (f : Bytes) : Nat -> Nat -> Except SegmentError Nat
  | 0, pos => .ok pos
  | k + 1, pos =>
    match Foundation.readAt f pos 4 with
    | none => .error .eof
    | some lenBuf => skipRecords f k ((pos + 4 + ofBe lenBuf) % 2 ^ 32)

def findPosition (s : Segment) (f : Bytes) (targetOffset : Nat) :
    Except SegmentError Nat :=
  if targetOffset < s.baseOff then .error .offsetTooOld
  else
    match search s.index targetOffset with
    | some pos => .ok pos
    | none =>
    if s.index = [] then
      skipRecords f (targetOffset - s.baseOff) segmentHeaderLen
    else
      match s.index.reverse.find? (fun e => e.offset ≤ targetOffset) with
      | some e => skipRecords f (targetOffset - e.offset) e.position
      | none => skipRecords f (targetOffset - s.baseOff) 0

def read (s : Segment) (f : Bytes) (offset : Nat) :
    Except SegmentError Bytes :=
  match s.findPosition f offset with
  | .error e => .error e
  | .ok pos => s.readAt f pos

end Segment

end Storage
end ChimeraMQ
