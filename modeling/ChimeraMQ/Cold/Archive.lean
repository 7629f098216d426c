import ChimeraMQ.Warm.LSMTree

/-!
# Cold archives

An archive file is a header, segments of up to a thousand entries each, an
index of the segments and a footer.  It is made from tables of the warm tier
and read by scanning its segments.  Archives are written without compression,
and file operations do not fail.
-/

namespace ChimeraMQ
namespace Cold

open Foundation
open Warm

def archiveMagic : Nat := 0x434F4C44

def archiveVersion : Nat := 1

def archiveHeader : Nat := 64

def archiveFooter : Nat := 16

def segmentEntries : Nat := 1000

abbrev ArchiveEntry := Nat × (Bytes × Bool)

structure ArchiveSegIndex where
  offset : Nat
  position : Nat
  length : Nat
deriving DecidableEq

structure ColdArchive where
  path : List Char
  file : Nat
  minOff : Nat
  maxOff : Nat
  segIndex : List ArchiveSegIndex
deriving DecidableEq

/-- Why an archive cannot be made or opened. -/
inductive ArchiveError where
  | noSSTables
  | noEntries
  | notExist
  | tooSmall
  | invalidMagic
  | readSegmentIndex
deriving DecidableEq

/-!
## Writing
-/

def serializeEntry (e : ArchiveEntry) : Bytes :=
  be 8 e.1 ++ [if e.2.2 then 1 else 0] ++ be 4 e.2.1.length ++ e.2.1

/--
The complete segments, their index, and the segment under way with its first
offset and the number of its entries.
-/
structure ArchiveBuilder where
  dataBuf : Bytes
  segIdx : List ArchiveSegIndex
  segData : Bytes
  segFirstOff : Nat
  count : Nat

namespace ArchiveBuilder

def empty : ArchiveBuilder where
  dataBuf := []
  segIdx := []
  segData := []
  segFirstOff := 0
  count := 0

/-- Write an entry; a segment ends when it is long or at the last offset. -/
def add (maxOff : Nat) (b : ArchiveBuilder) (e : ArchiveEntry) :
    ArchiveBuilder :=
  let segFirstOff := if b.count = 0 then e.1 else b.segFirstOff
  let segData := b.segData ++ serializeEntry e
  if b.count + 1 ≥ segmentEntries ∨ e.1 = maxOff then
    { dataBuf := b.dataBuf ++ segData
      segIdx := b.segIdx ++
        [{ offset := segFirstOff
           position := b.dataBuf.length
           length := segData.length }]
      segData := []
      segFirstOff := segFirstOff
      count := 0 }
  else
    { b with
      segData := segData
      segFirstOff := segFirstOff
      count := b.count + 1 }

end ArchiveBuilder

def entriesBetween (minOff maxOff : Nat) (all : List ArchiveEntry) :
    List ArchiveEntry :=
  (List.range' minOff (maxOff + 1 - minOff)).filterMap
    (fun off => (getEntry off all).map (fun r => (off, r)))

def buildSegments (maxOff : Nat) (entries : List ArchiveEntry) :
    ArchiveBuilder :=
  entries.foldl (ArchiveBuilder.add maxOff) .empty

def serializeSegIndex (si : ArchiveSegIndex) : Bytes :=
  be 8 si.offset ++ be 4 si.position ++ be 4 si.length

def header (minOff maxOff segCount : Nat) : Bytes :=
  be 4 archiveMagic ++ be 4 archiveVersion ++ be 8 minOff ++ be 8 maxOff ++
    be 8 0 ++ be 8 0 ++ be 4 segCount ++ List.replicate 20 0

def footer : Bytes :=
  be 4 archiveMagic ++ List.replicate 12 0

def archiveBytes (minOff maxOff : Nat) (entries : List ArchiveEntry) : Bytes :=
  let built := buildSegments maxOff entries
  header minOff maxOff built.segIdx.length ++ built.dataBuf ++
    built.segIdx.flatMap serializeSegIndex ++ footer

/-!
## Opening
-/

def parseSegIndex : Nat -> Bytes -> List ArchiveSegIndex
  | 0, _ => []
  | n + 1, data =>
    { offset := ofBe (data.take 8)
      position := ofBe ((data.drop 8).take 4)
      length := ofBe ((data.drop 12).take 4) } ::
        parseSegIndex n (data.drop 16)

def openArchive (path : List Char) (file : Nat) (content : Bytes) :
    Except ArchiveError ColdArchive :=
  if content.length < archiveHeader + archiveFooter then .error .tooSmall
  else
    let header := content.take archiveHeader
    if ofBe (header.take 4) ≠ archiveMagic then .error .invalidMagic
    else
      let segCount := ofBe ((header.drop 40).take 4)
      if content.length < archiveFooter + segCount * 16 then
        .error .readSegmentIndex
      else
        let start := content.length - archiveFooter - segCount * 16
        .ok
          { path := path
            file := file
            minOff := ofBe ((header.drop 8).take 8)
            maxOff := ofBe ((header.drop 16).take 8)
            segIndex := parseSegIndex segCount (content.drop start) }

def openColdArchive (d : Disk) (path : List Char) :
    Except ArchiveError ColdArchive :=
  match d.lookup path with
  | none => .error .notExist
  | some i => openArchive path i (d.content i)

/-!
## Creating
-/

def tablesRange : List SSTable -> Nat × Nat
  | [] => (0, 0)
  | sst :: rest =>
    rest.foldl
      (fun r t =>
        (if t.minOffset < r.1 then t.minOffset else r.1,
          if t.maxOffset > r.2 then t.maxOffset else r.2))
      (sst.minOffset, sst.maxOffset)

/--
Create an archive from tables; later tables win.  The loop over a range does not
end when the range reaches the largest offset.
-/
def createColdArchive (d : Disk) (path : List Char) (warm : Disk)
    (sstables : List SSTable) :
    Option (Disk × Except ArchiveError ColdArchive) :=
  if sstables.length = 0 then some (d, .error .noSSTables)
  else
    match mergeTables warm [] sstables with
    | none => none
    | some allEntries =>
    if allEntries.length = 0 then some (d, .error .noEntries)
    else
      let range := tablesRange sstables
      let r := d.create path
      let d := r.1.setContent r.2 (archiveBytes range.1 range.2
        (entriesBetween range.1 range.2 allEntries))
      some (d, openColdArchive d path)

/-!
## Reading
-/

/--
Scan a segment for an offset.  The first argument bounds the number of entries;
the length of the segment is always enough.
-/
def scanArchive (offset : Nat) : Nat -> Bytes -> Option Bytes
  | 0, _ => none
  | k + 1, segData =>
    if segData.length < 13 then none
    else
      let valLen := ofBe ((segData.drop 9).take 4)
      if segData.length < 13 + valLen then none
      else if ofBe (segData.take 8) = offset then
        if (segData.drop 8).head? = some 1 then some []
        else some ((segData.drop 13).take valLen)
      else scanArchive offset k (segData.drop (13 + valLen))

def getFromSegment (content : Bytes) (offset : Nat) (si : ArchiveSegIndex) :
    Option Bytes :=
  match readAt content (archiveHeader + si.position) si.length with
  | none => none
  | some segData => scanArchive offset segData.length segData

/--
Look up an offset in the archive with the given bytes; a deleted offset gives
no bytes, and nothing is an error.
-/
def ColdArchive.get (ca : ColdArchive) (content : Bytes) (offset : Nat) :
    Option Bytes :=
  if offset < ca.minOff ∨ offset > ca.maxOff then none
  else ca.segIndex.findSome? (getFromSegment content offset)

end Cold
end ChimeraMQ
