import ChimeraMQ.Foundation.Decimal
import ChimeraMQ.Foundation.Disk
import ChimeraMQ.Warm.SSTable

/-!
# The log-structured merge tree

Writes go to a memtable; a full memtable waits as an immutable one until the
background loop has flushed it to a table of level 0, and four tables of
level 0 are merged into one of level 1.  The manifest lists the tables with
their levels.  Its file is replaced as a whole, and files are written and
renamed; none of these operations fails.
-/

namespace ChimeraMQ
namespace Warm

open Foundation

structure LSMConfig where
  memTableCapacity : Int
  sizing : BloomSizing
  maxLevel : Nat
  maxSSTables : Int

/-- A table's place in the tree. -/
structure ManifestEntry where
  level : Nat
  sstPath : List Char
  minOff : Nat
  maxOff : Nat
  entryCount : Nat
deriving DecidableEq

structure LSMDir where
  disk : Disk
  manifest : List ManifestEntry
deriving DecidableEq

def LSMDir.empty : LSMDir where
  disk := .empty
  manifest := []

def tempSSTPath (seq now : Nat) : List Char :=
  "sst-".toList ++ zeroPadded 8 seq ++ "-".toList ++ hexPadded 8 now ++
    ".dat".toList

def openSSTable (d : Disk) (path : List Char) : Option SSTable :=
  match d.lookup path with
  | none => none
  | some i => openTable path i (d.content i)

namespace LSMDir

def add (dir : LSMDir) (level : Nat) (sst : SSTable) : LSMDir :=
  { dir with
    manifest := dir.manifest ++
      [{ level := level
         sstPath := sst.path
         minOff := sst.minOffset
         maxOff := sst.maxOffset
         entryCount := sst.entryCount }] }

def removeEntry (dir : LSMDir) (path : List Char) : LSMDir :=
  { dir with manifest := dir.manifest.filter (fun e => e.sstPath ≠ path) }

def removeFile (dir : LSMDir) (path : List Char) : LSMDir :=
  { dir with disk := dir.disk.remove path }

def writeTable (dir : LSMDir) (sizing : BloomSizing) (path : List Char)
    (entries : List MemTableEntry) : LSMDir :=
  { dir with disk := dir.disk.writeFile path (tableBytes sizing entries) }

end LSMDir

/-- Recover a table into its level; one that cannot be opened is skipped. -/
def loadEntry (d : Disk) (levels : List (List SSTable)) (e : ManifestEntry) :
    List (List SSTable) :=
  if e.level ≥ levels.length then levels
  else
    match openSSTable d e.sstPath with
    | none => levels
    | some sst => levels.modify e.level (fun ssts => ssts ++ [sst])

def loadLevels (dir : LSMDir) (maxLevel : Nat) : List (List SSTable) :=
  dir.manifest.foldl (loadEntry dir.disk) (List.replicate maxLevel [])

inductive FlushPhase where
  | idle
  | taken (mt : MemTable)
  | written (sst : SSTable)

/--
A tree with its background work: the flush under way, the signal that there is
something to flush, and the merges that have not run.
-/
structure LSMTree where
  dir : LSMDir
  config : LSMConfig
  memtable : MemTable
  immutables : List MemTable
  levels : List (List SSTable)
  closed : Bool
  flush : FlushPhase
  flushSignal : Bool
  stopped : Bool
  merges : Nat
  sstSeq : Nat

def newLSMTree (dir : LSMDir) (config : LSMConfig) (sstSeq : Nat) :
    LSMTree where
  dir := dir
  config :=
    { config with
      maxSSTables := if config.maxSSTables ≤ 0 then 100 else config.maxSSTables }
  memtable := newMemTable config.memTableCapacity
  immutables := []
  levels := loadLevels dir config.maxLevel
  closed := false
  flush := .idle
  flushSignal := false
  stopped := false
  merges := 0
  sstSeq := sstSeq

def getFrom (d : Disk) (key : Bytes) (sst : SSTable) : Option (Bytes × Bool) :=
  if sst.keyRangeMayContain key then sst.get (d.content sst.file) key else none

def getFromLevel (d : Disk) (key : Bytes) (level : List SSTable) :
    Option (Bytes × Bool) :=
  level.reverse.findSome? (getFrom d key)

namespace LSMTree

def put (lsm : LSMTree) (key value : Bytes) (now : Nat) : Option LSMTree :=
  if lsm.closed then none
  else
    match lsm.memtable.put key value now with
    | none => none
    | some mt =>
    if mt.atCapacity then
      some { lsm with
        immutables := lsm.immutables ++ [mt]
        memtable := newMemTable lsm.config.memTableCapacity
        flushSignal := true }
    else some { lsm with memtable := mt }

def delete (lsm : LSMTree) (key : Bytes) (now : Nat) : Option LSMTree :=
  if lsm.closed then none
  else
    (lsm.memtable.delete key now).map (fun mt => { lsm with memtable := mt })

def get (lsm : LSMTree) (key : Bytes) : Option (Bytes × Bool) :=
  (lsm.memtable.get key).or
    ((lsm.immutables.reverse.findSome? (fun mt => mt.get key)).or
      (lsm.levels.findSome? (getFromLevel lsm.dir.disk key)))

def totalSSTables (lsm : LSMTree) : Nat :=
  (lsm.levels.map List.length).sum

/-- The loop takes the oldest immutable memtable, if there is room for it. -/
def takeImmutable (lsm : LSMTree) : Option LSMTree :=
  if lsm.stopped || !lsm.flushSignal then none
  else
    match lsm.flush, lsm.immutables with
    | .idle, [] => some { lsm with flushSignal := false }
    | .idle, mt :: rest =>
      if (lsm.totalSSTables : Int) ≥ lsm.config.maxSSTables then
        some { lsm with flushSignal := false }
      else
        some { lsm with
          flushSignal := false
          immutables := rest
          flush := .taken mt.freeze }
    | _, _ => none

/-- The memtable that was taken is written to a table file. -/
def writeImmutable (lsm : LSMTree) (now : Nat) : Option LSMTree :=
  match lsm.flush with
  | .taken mt =>
    let seq := lsm.sstSeq + 1
    let path := tempSSTPath seq now
    let dir := lsm.dir.writeTable lsm.config.sizing path mt.entries
    match openSSTable dir.disk path with
    | none => some { lsm with dir := dir, flush := .idle, sstSeq := seq }
    | some sst =>
      some { lsm with dir := dir, flush := .written sst, sstSeq := seq }
  | _ => none

/--
The table is put into level 0, and a merge is started when there are many.  A
closed tree drops the table; a tree without levels panics.
-/
def installTable (lsm : LSMTree) : Option LSMTree :=
  match lsm.flush with
  | .written sst =>
    if lsm.closed then some { lsm with flush := .idle }
    else
      match lsm.levels with
      | [] => none
      | l0 :: rest =>
      some { lsm with
        dir := lsm.dir.add 0 sst
        levels := (l0 ++ [sst]) :: rest
        flush := .idle
        merges :=
          if (l0 ++ [sst]).length ≥ 4 then lsm.merges + 1
          else lsm.merges }
  | _ => none

end LSMTree

/-!
## Merging level 0
-/

/--
The entries of a table whose keys are offsets.  The loop over the range does
not end when the range reaches the largest offset.
-/
def collectEntries (d : Disk) (sst : SSTable) :
    Option (List (Nat × (Bytes × Bool))) :=
  if sst.maxOffset + 1 = 2 ^ 64 then none
  else
    some ((List.range' sst.minOffset (sst.maxOffset + 1 - sst.minOffset)).filterMap
      (fun off =>
        (sst.get (d.content sst.file) (be 8 off)).map (fun r => (off, r))))

def mergeTables (d : Disk) (merged : List (Nat × (Bytes × Bool))) :
    List SSTable -> Option (List (Nat × (Bytes × Bool)))
  | [] => some merged
  | sst :: rest =>
    match collectEntries d sst with
    | none => none
    | some found =>
      mergeTables d (found.foldl (fun m e => setEntry e.1 e.2 m) merged) rest

def putMerged (now : Nat) (mt : MemTable) (e : Nat × (Bytes × Bool)) :
    MemTable :=
  if e.2.2 then (mt.delete (be 8 e.1) now).getD mt
  else (mt.put (be 8 e.1) e.2.1 now).getD mt

def mergedTable (order : List (Nat × (Bytes × Bool))) (now : Nat) : MemTable :=
  order.foldl (putMerged now) (newMemTable ((order.length : Int) * 256))

def removeTable (dir : LSMDir) (sst : SSTable) : LSMDir :=
  (dir.removeEntry sst.path).removeFile sst.path

def removalDirs (dir : LSMDir) : List SSTable -> List LSMDir
  | [] => []
  | sst :: rest =>
    dir.removeEntry sst.path :: removeTable dir sst ::
      removalDirs (removeTable dir sst) rest

/-- What a merge has made: the directory with the new table file, the table. -/
structure Merge where
  inputs : List SSTable
  dir : LSMDir
  table : Option SSTable

namespace LSMTree

/-- The first part of a merge: everything up to the new table file. -/
def mergeL0 (lsm : LSMTree) (order : List (Nat × (Bytes × Bool)))
    (now : Nat) : Option Merge :=
  match lsm.levels with
  | [] => none
  | l0 :: _ =>
  match mergeTables lsm.dir.disk [] l0 with
  | none => none
  | some merged =>
  if order.Perm merged then
    let path := tempSSTPath (lsm.sstSeq + 1) now
    let dir := lsm.dir.writeTable lsm.config.sizing path
      (mergedTable order now).entries
    some { inputs := l0, dir := dir, table := openSSTable dir.disk path }
  else none

/--
A merge of level 0, all of it under the lock.  The order is that of the loop
over the merged map.  A tree without level 1 panics.
-/
def compactL0 (lsm : LSMTree) (order : List (Nat × (Bytes × Bool)))
    (now : Nat) : Option LSMTree :=
  if lsm.merges = 0 then none
  else
    match lsm.levels with
    | [] => none
    | l0 :: rest =>
    if l0.length < 4 then some { lsm with merges := lsm.merges - 1 }
    else
      match lsm.mergeL0 order now with
      | none => none
      | some m =>
      match m.table, rest with
      | none, _ =>
        some { lsm with
          dir := m.dir
          merges := lsm.merges - 1
          sstSeq := lsm.sstSeq + 1 }
      | some _, [] => none
      | some sst, l1 :: rest =>
      some { lsm with
        dir := (l0.foldl removeTable m.dir).add 1 sst
        levels := [] :: (l1 ++ [sst]) :: rest
        merges := lsm.merges - 1
        sstSeq := lsm.sstSeq + 1 }

/--
The directories between the durable effects of a merge, from the one before it
to the one after it.
-/
def compactionDirs (lsm : LSMTree) (order : List (Nat × (Bytes × Bool)))
    (now : Nat) : Option (List LSMDir) :=
  match lsm.mergeL0 order now with
  | none => none
  | some m =>
  match m.table with
  | none => some [lsm.dir, m.dir]
  | some sst =>
    let removed := m.inputs.foldl removeTable m.dir
    some (lsm.dir :: m.dir :: removalDirs m.dir m.inputs ++
      (if lsm.levels.length < 2 then [] else [removed.add 1 sst]))

/-!
## Closing
-/

def beginClose (lsm : LSMTree) : Option LSMTree :=
  if lsm.closed then none else some { lsm with closed := true }

/-- Closing ends when the loop has stopped: all tables are closed. -/
def endClose (lsm : LSMTree) : Option LSMTree :=
  if lsm.closed && !lsm.stopped then
    match lsm.flush with
    | .idle =>
      some { lsm with
        stopped := true
        levels := lsm.levels.map
          (fun level => level.map (fun sst => { sst with closed := true })) }
    | _ => none
  else none

end LSMTree

inductive LSMAction where
  | put (key value : Bytes) (now : Nat)
  | delete (key : Bytes) (now : Nat)
  | takeImmutable
  | writeImmutable (now : Nat)
  | installTable
  | compactL0 (order : List (Nat × (Bytes × Bool))) (now : Nat)
  | beginClose
  | endClose

def LSMTree.step (lsm : LSMTree) : LSMAction -> Option LSMTree
  | .put key value now => lsm.put key value now
  | .delete key now => lsm.delete key now
  | .takeImmutable => lsm.takeImmutable
  | .writeImmutable now => lsm.writeImmutable now
  | .installTable => lsm.installTable
  | .compactL0 order now => lsm.compactL0 order now
  | .beginClose => lsm.beginClose
  | .endClose => lsm.endClose

end Warm
end ChimeraMQ
