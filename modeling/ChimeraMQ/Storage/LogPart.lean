import ChimeraMQ.Storage.PartitionCrash

/-!
# A partition without its compacted segments

The file that a compaction writes has a name that is not loaded. Without such
files a partition appends and opens in the same way.
-/

namespace ChimeraMQ
namespace Storage

open Foundation

namespace Partition

def isLog (name : List Char) : Bool :=
  (loadable name).isSome

def logFiles (dir : Disk) : Disk :=
  { dir with names := dir.names.filter (fun e => isLog e.1) }

def logPart (p : Partition) : Partition :=
  { p with
    dir := logFiles p.dir
    older := p.older.filter (fun s => isLog s.path) }

theorem isLog_segmentName {b : Nat} (hb : b < 2 ^ 64) :
    isLog (segmentName b) = true := by
  rw [isLog, loadable_segmentName hb]
  rfl

variable {name : List Char}

theorem lookup_logFiles (dir : Disk) (hname : isLog name = true) :
    (logFiles dir).lookup name = dir.lookup name := by
  unfold Disk.lookup logFiles
  rw [List.find?_filter]
  congr 2
  funext e
  by_cases he : e.1 = name
  · simp [he, hname]
  · simp [he]

theorem openCreate_logFiles (dir : Disk) (hname : isLog name = true) :
    (logFiles dir).openCreate name =
      (logFiles (dir.openCreate name).1, (dir.openCreate name).2) := by
  cases hlook : dir.lookup name with
  | some i =>
    rw [Disk.openCreate_of_lookup_some hlook,
      Disk.openCreate_of_lookup_some ((lookup_logFiles dir hname).trans hlook)]
  | none =>
  rw [Disk.openCreate_of_lookup_none hlook,
    Disk.openCreate_of_lookup_none ((lookup_logFiles dir hname).trans hlook)]
  simp [logFiles, hname]

theorem openFile_logFiles (dir : Disk) (hname : isLog name = true)
    (baseOffset maxSize now : Nat) :
    openFile (logFiles dir) name baseOffset maxSize now =
      (openFile dir name baseOffset maxSize now).map
        (fun r => (logFiles r.1, r.2)) := by
  have hcontent : (logFiles (dir.openCreate name).1).content
      (dir.openCreate name).2 =
        (dir.openCreate name).1.content (dir.openCreate name).2 := rfl
  unfold openFile
  rw [openCreate_logFiles dir hname]
  simp only [hcontent]
  cases Segment.openSegment name (dir.openCreate name).2
      ((dir.openCreate name).1.content (dir.openCreate name).2) baseOffset
      maxSize now with
  | error e => rfl
  | ok r => rfl

/-!
## Appending
-/

theorem appendActive_logPart (p : Partition) (data : Bytes) :
    p.logPart.appendActive data =
      (p.appendActive data).map (fun r => (r.1.logPart, r.2)) := by
  have hsame : p.logPart.active.append (p.logPart.content p.logPart.active)
      data = p.active.append (p.content p.active) data := rfl
  unfold Partition.appendActive
  rw [hsame]
  cases p.active.append (p.content p.active) data with
  | error e => rfl
  | ok r => rfl

theorem segments_logPart (p : Partition) (hactive : isLog p.active.path = true) :
    p.logPart.segments = p.segments.filter (fun s => isLog s.path) := by
  rw [segments, segments, List.filter_append]
  simp [logPart, hactive]

theorem createNewSegment_logPart (p : Partition)
    (hactive : isLog p.active.path = true) {baseOffset : Nat}
    (hbase : baseOffset < 2 ^ 64) (now : Nat) :
    p.logPart.createNewSegment baseOffset now =
      (p.createNewSegment baseOffset now).map logPart := by
  have hopen := openFile_logFiles p.dir (isLog_segmentName hbase) baseOffset
    p.maxSegSize now
  have hsame : openFile p.logPart.dir (segmentName baseOffset) baseOffset
      p.logPart.maxSegSize now = _ := hopen
  unfold createNewSegment
  rw [hsame, segments_logPart p hactive]
  cases openFile p.dir (segmentName baseOffset) baseOffset p.maxSegSize now with
  | error e => rfl
  | ok r => rfl

theorem append_logPart (p : Partition) (hactive : isLog p.active.path = true)
    (hnext : p.active.nextOff < 2 ^ 64) (data : Bytes) (now : Nat) :
    p.logPart.append data now =
      ((p.append data now).1.logPart, (p.append data now).2) := by
  have hnew := createNewSegment_logPart { p with active := p.active.freeze }
    hactive hnext now
  have hsame : { p.logPart with
      active := p.logPart.active.freeze }.createNewSegment
        p.logPart.active.freeze.nextOff now = _ := hnew
  unfold Partition.append
  rw [appendActive_logPart]
  cases p.appendActive data with
  | ok r => rfl
  | error e =>
  cases e with
  | segmentFull =>
    simp only [Except.map, hsame]
    have hnext : p.active.freeze.nextOff = p.active.nextOff := rfl
    rw [hnext]
    cases { p with active := p.active.freeze }.createNewSegment
        p.active.nextOff now with
    | error e => rfl
    | ok q =>
    simp only [appendActive_logPart]
    cases q.appendActive data with
    | error e => rfl
    | ok r => rfl
  | _ => rfl

/-!
## Opening
-/

theorem openSegment_named {path : List Char} {file : Nat} {f f' : Bytes}
    {baseOffset maxSize now : Nat} {s : Segment}
    (h : Segment.openSegment path file f baseOffset maxSize now =
      .ok (s, f')) : s.path = path ∧ s.file = file := by
  unfold Segment.openSegment Segment.readHeader at h
  by_cases hempty : f.length = 0
  · simp only [hempty, if_true] at h
    cases h
    exact ⟨rfl, rfl⟩
  simp only [hempty, if_false] at h
  cases hread : readAt f 0 segmentHeaderLen with
  | none =>
    simp only [hread] at h
    cases h
  | some header =>
  simp only [hread] at h
  split at h
  · rename_i hmagic
    split at hmagic
    · cases h
    · cases hmagic
  rename_i hmagic
  split at hmagic
  · cases hmagic
  · cases hmagic
    cases h
    exact ⟨rfl, rfl⟩

variable {dir : Disk}

theorem openFile_path {dir' : Disk} {baseOffset maxSize now : Nat} {s : Segment}
    (h : openFile dir name baseOffset maxSize now = .ok (dir', s)) :
    s.path = name := by
  unfold openFile at h
  simp only at h
  split at h
  · cases h
  · rename_i hopen
    cases h
    exact (openSegment_named hopen).left

theorem isLog_of_loadEntries {maxSegSize now : Nat}
    {entries : List (List Char × Nat)} {dir' : Disk} {segments : List Segment}
    (h : loadEntries maxSegSize now entries dir = .ok (dir', segments))
    {s : Segment} (hs : s ∈ segments) : isLog s.path = true := by
  induction entries generalizing dir dir' segments with
  | nil =>
    cases h
    cases hs
  | cons e rest ih =>
  unfold loadEntries at h
  cases hname : loadable e.1 with
  | none =>
    simp only [hname] at h
    exact ih h hs
  | some baseOff =>
  simp only [hname] at h
  cases hopen : openFile dir e.1 baseOff maxSegSize now with
  | error e =>
    simp only [hopen] at h
    cases h
  | ok r =>
  simp only [hopen] at h
  cases hrest : loadEntries maxSegSize now rest r.1 with
  | error e =>
    simp only [hrest] at h
    cases h
  | ok r' =>
  simp only [hrest] at h
  cases h
  rcases List.mem_cons.mp hs with hfirst | hother
  · rw [hfirst, openFile_path hopen, isLog, hname]
    rfl
  · exact ih hrest hother

theorem loadEntries_logFiles (maxSegSize now : Nat)
    (entries : List (List Char × Nat)) (dir : Disk) :
    loadEntries maxSegSize now (entries.filter (fun e => isLog e.1))
        (logFiles dir) =
      (loadEntries maxSegSize now entries dir).map
        (fun r => (logFiles r.1, r.2)) := by
  induction entries generalizing dir with
  | nil => rfl
  | cons e rest ih =>
  cases hname : loadable e.1 with
  | none =>
    have hskip : isLog e.1 = false := by
      rw [isLog, hname]
      rfl
    rw [List.filter_cons, hskip]
    conv => rhs; unfold loadEntries
    simp only [hname]
    exact ih dir
  | some baseOff =>
  have htake : isLog e.1 = true := by
    rw [isLog, hname]
    rfl
  rw [List.filter_cons, htake]
  simp only [if_true]
  unfold loadEntries
  simp only [hname, openFile_logFiles dir htake]
  cases openFile dir e.1 baseOff maxSegSize now with
  | error e => rfl
  | ok r =>
  simp only [Except.map, ih r.1]
  cases loadEntries maxSegSize now rest r.1 with
  | error e => rfl
  | ok r' => rfl

theorem readDir_logFiles (hd : dir.Proper) :
    (logFiles dir).readDir = dir.readDir.filter (fun e => isLog e.1) := by
  have : IsTrans (List Char × Nat) (fun a b => a.1 ≤ b.1) :=
    ⟨fun _ _ _ h h' => le_trans h h'⟩
  have : Std.Total (α := List Char × Nat) (fun a b => a.1 ≤ b.1) :=
    ⟨fun a b => le_total a.1 b.1⟩
  have hleft : (logFiles dir).readDir.Perm (logFiles dir).names :=
    List.perm_insertionSort _ _
  have hright : (dir.readDir.filter (fun e => isLog e.1)).Perm
      (logFiles dir).names :=
    (List.perm_insertionSort _ dir.names).filter _
  apply List.Perm.eq_of_pairwise _ (List.pairwise_insertionSort _ _)
    ((List.pairwise_insertionSort _ dir.names).filter _)
    (hleft.trans hright.symm)
  intro a b ha hb hab hba
  have ha' := List.mem_of_mem_filter (hleft.mem_iff.mp ha)
  have hb' := List.mem_of_mem_filter (hright.mem_iff.mp hb)
  exact hd.eq_of_name_eq ha' hb' (le_antisymm hab hba)

theorem openPartition_logFiles (hd : dir.Proper) (topic : Bytes)
    (id maxSegSize now : Nat) :
    openPartition (logFiles dir) topic id maxSegSize now =
      (openPartition dir topic id maxSegSize now).map logPart := by
  have hload : loadSegments (logFiles dir) maxSegSize now =
      (loadSegments dir maxSegSize now).map (fun r => (logFiles r.1, r.2)) := by
    unfold loadSegments
    rw [readDir_logFiles hd, loadEntries_logFiles]
  unfold openPartition
  rw [hload]
  cases hsegments : loadSegments dir maxSegSize now with
  | error e => rfl
  | ok r =>
  have hall : forall s, s ∈ r.2 -> isLog s.path = true :=
    fun s hs => isLog_of_loadEntries hsegments hs
  simp only [Except.map]
  cases hlast : r.2.getLast? with
  | some active =>
    simp only
    congr 1
    have holder : r.2.dropLast.filter (fun s => isLog s.path) =
        r.2.dropLast :=
      List.filter_eq_self.mpr
        (fun s hs => hall s (List.dropLast_subset _ hs))
    simp only [ofSegments, logPart, holder]
  | none =>
  simp only [openFile_logFiles r.1 (isLog_segmentName (by decide : 0 < 2 ^ 64))]
  cases openFile r.1 (segmentName 0) 0 maxSegSize now with
  | error e => rfl
  | ok r' => rfl

/-!
## Reading
-/

theorem read_of_logPart {p : Partition}
    (hactive : isLog p.active.path = true)
    (hordered : p.segments.Pairwise (fun s t => s.nextOff ≤ t.baseOff))
    (hrange : forall s, s ∈ p.segments -> s.baseOff ≤ s.nextOff)
    {offset : Nat} {data : Bytes} (h : p.logPart.read offset = .ok data) :
    p.read offset = .ok data := by
  unfold Partition.read at h
  cases hfind : p.logPart.findSegment offset with
  | none =>
    rw [hfind] at h
    cases h
  | some s =>
  rcases binarySearch_eq hfind with ⟨hs, hcmp⟩
  rw [segments_logPart p hactive] at hs
  have hin : offset ≥ s.baseOff ∧ offset < s.nextOff := by
    by_contra hout
    rw [if_neg hout] at hcmp
    split at hcmp
    · cases hcmp
    · cases hcmp
  have hsame := findSegment_of_mem hordered hrange
    (List.mem_of_mem_filter hs) hin.left hin.right
  rw [hfind] at h
  unfold Partition.read
  rw [hsame]
  exact h

end Partition

end Storage
end ChimeraMQ
