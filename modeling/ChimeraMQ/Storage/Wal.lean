import ChimeraMQ.Foundation.Decimal
import ChimeraMQ.Foundation.Disk
import ChimeraMQ.Foundation.Run

/-!
# The write-ahead log

Entries are framed by a header with their type, size, time and checksum and
written to numbered segment files.  Failing reads and writes are left out.  The
time of an append is an argument.
-/

namespace ChimeraMQ
namespace Storage

open Foundation

/-- The size of an entry's header: type, size, timestamp and checksum. -/
def walHeaderSize : Nat := 17

def maxEntrySize : Nat := 16 * 1024 * 1024

def reasonableMinSize : Nat := 1024 * 1024

def writeBufSize : Nat := 64 * 1024

inductive SyncMode where
  | immediate
  | interval
  | os
deriving DecidableEq

/--
An open log.  The position and the write buffer belong to the active file; a
maximal size of zero stands for every size below one.
-/
structure WAL where
  disk : Disk
  activeFile : Nat
  pos : Nat
  writeBuf : Bytes
  activeSize : Nat
  maxSize : Nat
  syncMode : SyncMode
  offset : Nat
  segmentSeq : Nat
deriving DecidableEq

def segmentPath (seq : Nat) : List Char :=
  zeroPadded 12 seq ++ ".wal".toList

def listSegments (d : Disk) : List (List Char × Nat) :=
  d.readDir.filter (fun e => ".wal".toList.isSuffixOf e.1)

/-- Why a log cannot be opened. -/
inductive OpenError where
  | parseSegmentFilename (name : List Char)

inductive RecoverError (Err : Type) where
  | entryExceedsMaximum (size : Nat) (segment : List Char)
  | entryExceedsMaxSize (size : Nat) (segment : List Char)
  | callback (e : Err)

namespace WAL

def writer (w : WAL) : BufferedWriter where
  file := w.disk.content w.activeFile
  pos := w.pos
  buf := w.writeBuf

def withWriter (w : WAL) (b : BufferedWriter) : WAL :=
  { w with
    disk := w.disk.setContent w.activeFile b.file
    pos := b.pos
    writeBuf := b.buf }

def parseSegmentName (name : List Char) : Option Nat :=
  parseDecimal (2 ^ 64) (name.take (name.length - ".wal".length))

def openOrCreateSegment (d : Disk) (maxSize : Nat) (mode : SyncMode) :
    Except OpenError WAL :=
  match (listSegments d).getLast? with
  | some (name, file) =>
    match parseSegmentName name with
    | none => .error (.parseSegmentFilename name)
    | some seq =>
    .ok
      { disk := d
        activeFile := file
        pos := 0
        writeBuf := []
        activeSize := (d.content file).length
        maxSize := maxSize
        syncMode := mode
        offset := (d.content file).length
        segmentSeq := seq }
  | none =>
  let r := d.openCreate (segmentPath 1)
  .ok
    { disk := r.1
      activeFile := r.2
      pos := 0
      writeBuf := []
      activeSize := 0
      maxSize := maxSize
      syncMode := mode
      offset := 0
      segmentSeq := 1 }

def newWAL (d : Disk) (maxSize : Nat) (mode : SyncMode) :
    Except OpenError WAL :=
  openOrCreateSegment d maxSize mode

def rotate (w : WAL) : WAL :=
  let w := w.withWriter w.writer.flush
  let seq := (w.segmentSeq + 1) % 2 ^ 64
  let r := w.disk.openCreate (segmentPath seq)
  { w with
    disk := r.1
    activeFile := r.2
    pos := 0
    writeBuf := []
    activeSize := 0
    segmentSeq := seq }

def headerFields (entryType : UInt8) (size now : Nat) : Bytes :=
  [entryType] ++ be 4 size ++ be 8 now

def header (entryType : UInt8) (data : Bytes) (now : Nat) : Bytes :=
  let fields := headerFields entryType data.length now
  fields ++ be 4 (crc32c (fields ++ data)).toNat

def makeRoom (w : WAL) (entrySize : Nat) : WAL :=
  if w.activeSize + entrySize > w.maxSize then w.rotate else w

def writeEntry (w : WAL) (entryType : UInt8) (data : Bytes) (now : Nat) :
    WAL × Nat :=
  let entrySize := walHeaderSize + data.length
  let b := w.writer.write writeBufSize (header entryType data now)
  let b := b.write writeBufSize data
  let offset := w.offset
  let w :=
    { w.withWriter b with
      offset := (w.offset + entrySize) % 2 ^ 64
      activeSize := w.activeSize + entrySize }
  match w.syncMode with
  | .immediate => (w.withWriter w.writer.flush, offset)
  | .interval | .os => (w, offset)

def append (w : WAL) (entryType : UInt8) (data : Bytes) (now : Nat) :
    WAL × Nat :=
  (w.makeRoom (walHeaderSize + data.length)).writeEntry entryType data now

def tick (w : WAL) : WAL :=
  w.withWriter w.writer.flush

def close (w : WAL) : Disk :=
  (w.withWriter w.writer.flush).disk

/-!
## Recovery
-/

/--
Read one entry.  Nothing is read at the end of the file, from an entry cut
short and from one with a wrong checksum.
-/
def readEntry {Err : Type} (maxSize : Nat) (segment : List Char)
    (bytes : Bytes) :
    Except (RecoverError Err) (Option (UInt8 × Bytes × Bytes)) :=
  match bytes with
  | [] => .ok none
  | entryType :: _ =>
  if bytes.length < walHeaderSize then .ok none
  else
    let dataSize := ofBe ((bytes.drop 1).take 4)
    let storedCRC := ofBe ((bytes.drop 13).take 4)
    if dataSize > maxEntrySize then
      .error (.entryExceedsMaximum dataSize segment)
    else if 0 < maxSize ∧ maxSize < reasonableMinSize ∧
        dataSize > maxSize then
      .error (.entryExceedsMaxSize dataSize segment)
    else if (bytes.drop walHeaderSize).length < dataSize then .ok none
    else
      let data := (bytes.drop walHeaderSize).take dataSize
      if (crc32c (bytes.take 13 ++ data)).toNat ≠ storedCRC then .ok none
      else
        .ok (some (entryType, data, bytes.drop (walHeaderSize + dataSize)))

variable {State Err : Type}

/--
Hand the entries of a segment to the callback.  The first argument bounds the
number of entries; the length of the segment is always enough.
-/
def recoverSegment (maxSize : Nat) (segment : List Char)
    (fn : UInt8 -> Bytes -> State -> Except Err State) :
    Nat -> Bytes -> State -> Except (RecoverError Err) State
  | 0, _, s => .ok s
  | k + 1, bytes, s =>
    match readEntry maxSize segment bytes with
    | .error e => .error e
    | .ok none => .ok s
    | .ok (some (entryType, data, rest)) =>
      match fn entryType data s with
      | .error e => .error (.callback e)
      | .ok s' => recoverSegment maxSize segment fn k rest s'

def recoverSegments (d : Disk) (maxSize : Nat)
    (fn : UInt8 -> Bytes -> State -> Except Err State) :
    List (List Char × Nat) -> State -> Except (RecoverError Err) State
  | [], s => .ok s
  | (name, file) :: rest, s =>
    match recoverSegment maxSize name fn (d.content file).length
        (d.content file) s with
    | .error e => .error e
    | .ok s' => recoverSegments d maxSize fn rest s'

def recover (w : WAL) (fn : UInt8 -> Bytes -> State -> Except Err State)
    (s : State) : Except (RecoverError Err) State :=
  recoverSegments w.disk w.maxSize fn (listSegments w.disk) s

end WAL

/-!
## Cycles
-/

/-- A directory with its log closed, or an open log. -/
inductive WalSession where
  | closed (d : Disk)
  | opened (w : WAL)
deriving DecidableEq

inductive WalAction where
  | newWAL (mode : SyncMode)
  | append (entryType : UInt8) (data : Bytes) (now : Nat)
  | tick
  | close

def WalSession.step (maxSize : Nat) :
    WalSession -> WalAction -> Option WalSession
  | .closed d, .newWAL mode =>
    match WAL.newWAL d maxSize mode with
    | .error _ => none
    | .ok w => some (.opened w)
  | .opened w, .append entryType data now =>
    some (.opened (w.append entryType data now).1)
  | .opened w, .tick =>
    if w.syncMode = .interval then some (.opened w.tick) else none
  | .opened w, .close => some (.closed w.close)
  | _, _ => none

def appended (actions : List WalAction) : List (UInt8 × Bytes) :=
  actions.filterMap (fun a =>
    match a with
    | .append entryType data _ => some (entryType, data)
    | _ => none)

end Storage
end ChimeraMQ
