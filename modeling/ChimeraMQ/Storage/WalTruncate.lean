import ChimeraMQ.Storage.WalAccept
import ChimeraMQ.Storage.WalOffsets

/-!
# Truncation of the write-ahead log

A checkpoint is an offset in the whole log; a truncation removes the segments
whose own size is not above it.  The checkpoint file is taken to hold a number.
The log is followed from its creation in an empty directory on.
-/

namespace ChimeraMQ
namespace Storage

open Foundation

namespace WAL

def segmentEndOffset (d : Disk) (file : Nat) : Nat :=
  (d.content file).length % 2 ^ 64

def removeEnded (cpOffset : Nat) (original d : Disk) (seg : List Char × Nat) :
    Disk :=
  if segmentEndOffset original seg.2 ≤ cpOffset then d.remove seg.1 else d

def truncate (w : WAL) (checkpoint : Option UInt64) : WAL :=
  match checkpoint with
  | none => w
  | some cpOffset =>
  let segments := listSegments w.disk
  if segments.length ≤ 1 then w
  else
    { w with
      disk := segments.dropLast.foldl (removeEnded cpOffset.toNat w.disk)
        w.disk }

/-!
## Names
-/

def allNamed (w : WAL) : WAL :=
  { w with disk := segmentDisk w.disk.files }

theorem allNamed_withWriter (w : WAL) (b : BufferedWriter) :
    (w.withWriter b).allNamed = w.allNamed.withWriter b := by
  unfold withWriter allNamed
  simp only [setContent_segmentDisk]
  rfl

theorem allNamed_writeEntry (w : WAL) (entryType : UInt8) (data : Bytes)
    (now : Nat) :
    (w.writeEntry entryType data now).1.allNamed =
        (w.allNamed.writeEntry entryType data now).1 ∧
      (w.writeEntry entryType data now).1.disk.names = w.disk.names ∧
      (w.writeEntry entryType data now).2 = w.offset := by
  cases w with
  | mk disk activeFile pos writeBuf activeSize maxSize mode offset segmentSeq =>
    cases mode with
    | immediate =>
      refine ⟨?_, rfl, rfl⟩
      simp only [writeEntry, allNamed, withWriter, setContent_segmentDisk]
      rfl
    | interval =>
      refine ⟨?_, rfl, rfl⟩
      simp only [writeEntry, allNamed, withWriter, setContent_segmentDisk]
      rfl
    | os =>
    refine ⟨?_, rfl, rfl⟩
    simp only [writeEntry, allNamed, withWriter, setContent_segmentDisk]
    rfl

theorem allNamed_rotate (w : WAL)
    (hseq : (w.segmentSeq + 1) % 2 ^ 64 = w.disk.files.length + 1)
    (hfree : w.disk.lookup (segmentPath (w.disk.files.length + 1)) = none) :
    w.rotate.allNamed = w.allNamed.rotate ∧
      w.rotate.disk.names = w.disk.names ++
        [(segmentPath (w.disk.files.length + 1), w.disk.files.length)] ∧
      w.rotate.offset = w.offset := by
  have hlen : (w.disk.files.set w.activeFile w.writer.flush.file).length =
      w.disk.files.length := List.length_set
  have hopen : (w.withWriter w.writer.flush).disk.openCreate
      (segmentPath (w.disk.files.length + 1)) =
        ({ names := w.disk.names ++
             [(segmentPath (w.disk.files.length + 1), w.disk.files.length)]
           files := w.disk.files.set w.activeFile w.writer.flush.file ++ [[]] },
          w.disk.files.length) := by
    have hnone : (w.withWriter w.writer.flush).disk.lookup
        (segmentPath (w.disk.files.length + 1)) = none := hfree
    rw [Disk.openCreate_of_lookup_none hnone]
    simp only [withWriter, Disk.setContent, hlen]
  have hopenAll : (w.allNamed.withWriter w.allNamed.writer.flush).disk.openCreate
      (segmentPath (w.disk.files.length + 1)) =
        (segmentDisk (w.disk.files.set w.activeFile w.writer.flush.file ++
          [[]]), w.disk.files.length) := by
    have hcreate := openCreate_segmentDisk
      (w.disk.files.set w.activeFile w.writer.flush.file)
    rw [hlen] at hcreate
    rw [← hcreate, ← setContent_segmentDisk]
    rfl
  have hnumber : ((w.withWriter w.writer.flush).segmentSeq + 1) % 2 ^ 64 =
      w.disk.files.length + 1 := hseq
  have hnumberAll : ((w.allNamed.withWriter
      w.allNamed.writer.flush).segmentSeq + 1) % 2 ^ 64 =
        w.disk.files.length + 1 := hseq
  unfold rotate
  simp only [hnumber, hnumberAll, hopen, hopenAll]
  exact ⟨rfl, trivial, rfl⟩

theorem allNamed_append (w : WAL) (entryType : UInt8) (data : Bytes)
    (now : Nat)
    (hseq : (w.segmentSeq + 1) % 2 ^ 64 = w.disk.files.length + 1)
    (hfree : w.disk.lookup (segmentPath (w.disk.files.length + 1)) = none) :
    (w.append entryType data now).1.allNamed =
        (w.allNamed.append entryType data now).1 ∧
      (w.append entryType data now).1.disk.names =
        (if w.activeSize + (walHeaderSize + data.length) > w.maxSize then
          w.disk.names ++
            [(segmentPath (w.disk.files.length + 1), w.disk.files.length)]
        else w.disk.names) ∧
      (w.append entryType data now).2 = w.offset := by
  have hsize : w.allNamed.activeSize = w.activeSize := rfl
  have hmax : w.allNamed.maxSize = w.maxSize := rfl
  unfold append makeRoom
  rw [hsize, hmax]
  by_cases hfull : w.activeSize + (walHeaderSize + data.length) > w.maxSize
  · rw [if_pos hfull, if_pos hfull, if_pos hfull]
    rcases w.allNamed_rotate hseq hfree with ⟨hrotate, hnames, hoffset⟩
    rcases w.rotate.allNamed_writeEntry entryType data now with
      ⟨hwrite, hsame, hreturned⟩
    rw [hwrite, hrotate, hsame, hnames, hreturned, hoffset]
    exact ⟨rfl, rfl, rfl⟩
  · rw [if_neg hfull, if_neg hfull, if_neg hfull]
    exact w.allNamed_writeEntry entryType data now

theorem foldl_removeEnded (cpOffset : Nat) (original : Disk)
    (segs : List (List Char × Nat)) (d : Disk) :
    (segs.foldl (removeEnded cpOffset original) d).names =
        d.names.filter (fun e => decide (forall seg, seg ∈ segs ->
          segmentEndOffset original seg.2 ≤ cpOffset -> e.1 ≠ seg.1)) ∧
      (segs.foldl (removeEnded cpOffset original) d).files = d.files := by
  induction segs generalizing d with
  | nil =>
    constructor
    · exact (List.filter_eq_self.mpr (by simp)).symm
    · rfl
  | cons seg segs ih =>
  rw [List.foldl_cons]
  rcases ih (removeEnded cpOffset original d seg) with ⟨hnames, hfiles⟩
  rw [hnames, hfiles]
  unfold removeEnded
  by_cases hended : segmentEndOffset original seg.2 ≤ cpOffset
  · rw [if_pos hended]
    constructor
    · rw [Disk.remove, List.filter_filter]
      apply List.filter_congr
      intro e _
      rw [Bool.eq_iff_iff]
      simp [hended, and_comm]
    · rfl
  · rw [if_neg hended]
    constructor
    · apply List.filter_congr
      intro e _
      simp [hended]
    · rfl

theorem truncate_some (w : WAL) (cpOffset : UInt64) :
    w.truncate (some cpOffset) =
      { w with
        disk := (listSegments w.disk).dropLast.foldl
          (removeEnded cpOffset.toNat w.disk) w.disk } := by
  unfold truncate
  simp only
  split
  · rename_i hfew
    have hnil : (listSegments w.disk).dropLast = [] := by
      apply List.length_eq_zero_iff.mp
      rw [List.length_dropLast]
      omega
    rw [hnil]
    rfl
  · rfl

end WAL

/-!
## Segments of entries with their offsets
-/

def entriesOf (seg : List (Nat × WalEntry)) : List WalEntry :=
  seg.map Prod.snd

def segmentSize (seg : List (Nat × WalEntry)) : Nat :=
  (encode (entriesOf seg)).length

def totalSize (segs : List (List (Nat × WalEntry))) : Nat :=
  (segs.map segmentSize).sum

/-- Every offset is below the end of its segment in the whole log. -/
def Within (start : Nat) : List (List (Nat × WalEntry)) -> Prop
  | [] => True
  | seg :: segs =>
    (forall r, r ∈ seg -> r.1 < start + segmentSize seg) ∧
      Within (start + segmentSize seg) segs

theorem within_concat {start : Nat} {segs : List (List (Nat × WalEntry))}
    {seg : List (Nat × WalEntry)} :
    Within start (segs ++ [seg]) <-> Within start segs ∧
      forall r, r ∈ seg -> r.1 < start + totalSize segs + segmentSize seg := by
  induction segs generalizing start with
  | nil => simp [Within, totalSize]
  | cons first segs ih =>
  have hsum : start + totalSize (first :: segs) =
      start + segmentSize first + totalSize segs := by
    simp [totalSize, Nat.add_assoc]
  rw [List.cons_append, Within, Within, ih, hsum, and_assoc]

theorem Within.lt {start : Nat} {segs : List (List (Nat × WalEntry))}
    (h : Within start segs) {i : Nat} {seg : List (Nat × WalEntry)}
    (hseg : segs[i]? = some seg) {r : Nat × WalEntry} (hr : r ∈ seg) :
    r.1 < start + totalSize (segs.take (i + 1)) := by
  induction segs generalizing start i with
  | nil => cases hseg
  | cons first segs ih =>
  rw [List.take_succ_cons, totalSize, List.map_cons, List.sum_cons]
  cases i with
  | zero =>
    rw [List.getElem?_cons_zero, Option.some.injEq] at hseg
    rw [← hseg] at hr
    have hfirst := h.left r hr
    omega
  | succ i =>
  rw [List.getElem?_cons_succ] at hseg
  have hrest := ih h.right hseg
  rw [totalSize] at hrest
  omega

theorem segmentSize_concat (seg : List (Nat × WalEntry))
    (r : Nat × WalEntry) :
    segmentSize (seg ++ [r]) = segmentSize seg + r.2.frame.length := by
  rw [segmentSize, entriesOf, List.map_append, List.map_singleton,
    encode_concat, List.length_append]
  rfl

theorem totalSize_concat (segs : List (List (Nat × WalEntry)))
    (seg : List (Nat × WalEntry)) :
    totalSize (segs ++ [seg]) = totalSize segs + segmentSize seg := by
  simp [totalSize]

/-!
## Histories
-/

deriving instance DecidableEq for WalEntry

structure TruncateHistory where
  wal : WAL
  checkpoint : Option UInt64
  appends : List (Nat × WalEntry)
  truncated : List Nat
deriving DecidableEq

/-- What is done to an open log. -/
inductive TruncateAction where
  | append (entryType : UInt8) (data : Bytes) (now : Nat)
  | tick
  | checkpoint (offset : UInt64)
  | truncate

namespace TruncateHistory

def start (w : WAL) : TruncateHistory where
  wal := w
  checkpoint := none
  appends := []
  truncated := []

def step (h : TruncateHistory) : TruncateAction -> Option TruncateHistory
  | .append entryType data now =>
    let r := h.wal.append entryType data now
    some
      { h with
        wal := r.1
        appends := h.appends ++ [(r.2, ⟨entryType, data, now⟩)] }
  | .tick =>
    if h.wal.syncMode = .interval then some { h with wal := h.wal.tick }
    else none
  | .checkpoint offset => some { h with checkpoint := some offset }
  | .truncate =>
    some
      { h with
        wal := h.wal.truncate h.checkpoint
        truncated := h.truncated ++
          (h.checkpoint.map UInt64.toNat).toList }

def AtOrAbove (h : TruncateHistory) (offset : Nat) : Prop :=
  forall c, c ∈ h.truncated -> c ≤ offset

instance (h : TruncateHistory) (offset : Nat) :
    Decidable (h.AtOrAbove offset) :=
  inferInstanceAs (Decidable (forall c, c ∈ h.truncated -> c ≤ offset))

/-- A recovery hands over all entries at or above the checkpoints. -/
def StillDelivers (h : TruncateHistory) : Prop :=
  exists delivered, HandsOver h.wal delivered ∧
    ((h.appends.filter (fun r => h.AtOrAbove r.1)).map
      (fun r => r.2.key)).Sublist delivered

def endsAt (d : Disk) (file : Nat) : Nat :=
  ((d.files.take (file + 1)).map List.length).sum

/--
The entry can be recovered, and its segment has a number; a segment of no more
bytes than the checkpoint ends at the checkpoint or before it.
-/
def Safe (h : TruncateHistory) : TruncateAction -> Prop
  | .append _ data _ =>
    Recoverable h.wal.maxSize data ∧
      (h.wal.activeSize + (walHeaderSize + data.length) > h.wal.maxSize ->
        h.wal.segmentSeq + 1 < segmentLimit)
  | .truncate =>
    forall cpOffset, cpOffset ∈ h.checkpoint ->
      forall seg, seg ∈ (listSegments h.wal.disk).dropLast ->
        WAL.segmentEndOffset h.wal.disk seg.2 ≤ cpOffset.toNat ->
          endsAt h.wal.disk seg.2 ≤ cpOffset.toNat
  | _ => True

instance (h : TruncateHistory) (a : TruncateAction) : Decidable (h.Safe a) := by
  unfold Safe
  split
  · exact inferInstance
  · exact Option.decidableForallMem h.checkpoint
  · exact inferInstance

/-!
## What a truncation may remove
-/

def keptNumbers (count : Nat) (removed : List Nat) : List Nat :=
  (List.range count).filter (fun i => decide (i ∉ removed))

/--
The log would have lost nothing if all its segments still had names, and those
that have none held entries below the checkpoints only.
-/
structure Whole (maxSize : Nat) (h : TruncateHistory)
    (old : List (List (Nat × WalEntry))) (cur : List (Nat × WalEntry))
    (f : Bytes) (removed : List Nat) : Prop where
  lined : Lined maxSize h.wal.allNamed (old.map entriesOf) (entriesOf cur) f
  pos : h.wal.pos = f.length
  appends : h.appends = (old ++ [cur]).flatten
  names : h.wal.disk.names = (keptNumbers (old.length + 1) removed).map
    (fun i => (segmentPath (i + 1), i))
  removed_lt : forall i, i ∈ removed -> i < old.length
  below : forall i, i ∈ removed -> forall seg, old[i]? = some seg ->
    forall r, r ∈ seg -> ¬ h.AtOrAbove r.1
  within : Within 0 (old ++ [cur])
  offset : h.wal.offset ≤ totalSize (old ++ [cur])
  sound : forall r, r ∈ h.appends -> Recoverable maxSize r.2.data

theorem mem_keptNumbers {count : Nat} {removed : List Nat} {i : Nat} :
    i ∈ keptNumbers count removed <-> i < count ∧ i ∉ removed := by
  simp [keptNumbers]

theorem pairwise_keptNumbers (count : Nat) (removed : List Nat) :
    (keptNumbers count removed).Pairwise (fun i j => i < j) :=
  List.pairwise_lt_range.filter _

theorem keptNumbers_succ {count : Nat} {removed : List Nat}
    (hlt : forall i, i ∈ removed -> i < count) :
    keptNumbers (count + 1) removed =
      keptNumbers count removed ++ [count] := by
  have hnew : count ∉ removed := by
    intro hmem
    exact Nat.lt_irrefl _ (hlt count hmem)
  rw [keptNumbers, List.range_succ, List.filter_append]
  simp [keptNumbers, hnew]

theorem length_frame_pos (e : WalEntry) : 0 < e.frame.length := by
  rw [length_frame, walHeaderSize]
  omega

theorem truncate_of_none {h : TruncateHistory} (hnone : h.checkpoint = none) :
    { h with
      wal := h.wal.truncate h.checkpoint
      truncated := h.truncated ++
        (h.checkpoint.map UInt64.toNat).toList } = h := by
  cases h with
  | mk wal checkpoint appends truncated =>
    cases hnone
    simp [WAL.truncate]

theorem filter_flatMap_sublist {α β : Type} (p : β -> Bool) (keep : α -> Bool)
    (part : α -> List β) (xs : List α)
    (hleft : forall x, x ∈ xs -> keep x = false ->
      (part x).filter p = []) :
    ((xs.flatMap part).filter p).Sublist ((xs.filter keep).flatMap part) := by
  induction xs with
  | nil => exact List.Sublist.slnil
  | cons x xs ih =>
  have hrest := ih (fun y hy => hleft y (List.mem_cons_of_mem x hy))
  rw [List.flatMap_cons, List.filter_append, List.filter_cons]
  cases hkeep : keep x with
  | true =>
    rw [if_pos rfl, List.flatMap_cons]
    exact List.Sublist.append List.filter_sublist hrest
  | false =>
  rw [hleft x (List.mem_cons_self ..) hkeep, if_neg Bool.false_ne_true]
  exact hrest

section Whole

variable {maxSize : Nat} {h : TruncateHistory}
variable {old : List (List (Nat × WalEntry))} {cur : List (Nat × WalEntry)}
variable {f : Bytes} {removed : List Nat}
variable (hw : Whole maxSize h old cur f removed)

include hw

theorem Whole.files :
    h.wal.disk.files = (old.map entriesOf).map encode ++ [f] :=
  congrArg Disk.files hw.lined.disk

theorem Whole.length_files : h.wal.disk.files.length = old.length + 1 := by
  rw [hw.files]
  simp

theorem Whole.few : old.length + 1 < segmentLimit := by
  have hfew := hw.lined.few
  rwa [List.length_map] at hfew

theorem Whole.listSegments :
    listSegments h.wal.disk = (keptNumbers (old.length + 1) removed).map
      (fun i => (segmentPath (i + 1), i)) := by
  have hfew := hw.few
  rw [listSegments_of_names hw.names (pairwise_keptNumbers _ _), hw.names]
  intro i hi
  have hlt := (mem_keptNumbers.mp hi).left
  omega

theorem Whole.lt_of_mem_dropLast
    {i : Nat} (hi : i ∈ (keptNumbers (old.length + 1) removed).dropLast) :
    i < old.length := by
  rw [keptNumbers_succ hw.removed_lt, List.dropLast_concat] at hi
  exact (mem_keptNumbers.mp hi).left

theorem Whole.endsAt_eq {i : Nat}
    (hi : i < old.length) :
    endsAt h.wal.disk i = totalSize (old.take (i + 1)) := by
  have hlength : i + 1 ≤ ((old.map entriesOf).map encode).length := by
    rw [List.length_map, List.length_map]
    exact hi
  unfold endsAt totalSize
  rw [hw.files, List.take_append_of_le_length hlength,
    ← List.map_take, ← List.map_take, List.map_map, List.map_map]
  rfl

theorem Whole.lookup_next :
    h.wal.disk.lookup (segmentPath (h.wal.disk.files.length + 1)) = none := by
  apply Disk.lookup_eq_none
  intro e he heq
  rw [hw.names] at he
  rcases List.mem_map.mp he with ⟨i, hi, hie⟩
  rw [← hie] at heq
  have hnumber := segmentPath_inj heq
  rw [hw.length_files] at hnumber
  have hlt := (mem_keptNumbers.mp hi).left
  omega

theorem Whole.next_number :
    (h.wal.segmentSeq + 1) % 2 ^ 64 = h.wal.disk.files.length + 1 := by
  have hfew := hw.few
  have hcurrent : h.wal.segmentSeq = old.length + 1 := by
    have hlined := hw.lined.seq
    rwa [List.length_map] at hlined
  have hsmall : segmentLimit + 1 < 2 ^ 64 := by decide
  rw [hw.length_files, hcurrent]
  exact Nat.mod_eq_of_lt (by omega)

variable {e : WalEntry}

theorem Whole.sound_append (hrecoverable : Recoverable maxSize e.data) :
    forall r, r ∈ h.appends ++ [(h.wal.offset, e)] ->
      Recoverable maxSize r.2.data := by
  intro r hr
  rcases List.mem_append.mp hr with hold | hnew
  · exact hw.sound r hold
  · rw [List.mem_singleton.mp hnew]
    exact hrecoverable

theorem Whole.names_rotate :
    h.wal.disk.names ++ [(segmentPath (h.wal.disk.files.length + 1),
        h.wal.disk.files.length)] =
      (keptNumbers ((old ++ [cur]).length + 1) removed).map
        (fun i => (segmentPath (i + 1), i)) := by
  have hkept := @keptNumbers_succ (old.length + 1) removed
    (fun i hi => Nat.lt_succ_of_lt (hw.removed_lt i hi))
  rw [hw.names, List.length_append, List.length_singleton, hkept,
    List.map_append, hw.length_files]
  rfl

theorem Whole.within_rotate :
    Within 0 (old ++ [cur] ++ [[(h.wal.offset, e)]]) := by
  have hbefore := hw.offset
  have hframe := length_frame_pos e
  have hone : segmentSize [(h.wal.offset, e)] = e.frame.length := by
    simp [segmentSize, entriesOf, encode]
  rw [within_concat]
  refine ⟨hw.within, ?_⟩
  intro r hr
  rw [List.mem_singleton.mp hr, hone]
  change h.wal.offset < _
  omega

theorem Whole.within_grow : Within 0 (old ++ [cur ++ [(h.wal.offset, e)]]) := by
  have hbefore := hw.offset
  have hframe := length_frame_pos e
  have hgrown : segmentSize (cur ++ [(h.wal.offset, e)]) =
      segmentSize cur + e.frame.length := segmentSize_concat ..
  rcases within_concat.mp hw.within with ⟨hold, hcur⟩
  rw [within_concat]
  refine ⟨hold, ?_⟩
  intro r hr
  rw [hgrown]
  rw [totalSize_concat] at hbefore
  rcases List.mem_append.mp hr with hearlier | hnew
  · have hlt := hcur r hearlier
    omega
  · rw [List.mem_singleton.mp hnew]
    change h.wal.offset < _
    omega

theorem Whole.append (hrecoverable : Recoverable maxSize e.data)
    (hnumber : h.wal.activeSize + (walHeaderSize + e.data.length) >
      h.wal.maxSize -> h.wal.segmentSeq + 1 < segmentLimit) :
    exists old' cur' f', Whole maxSize
      { h with
        wal := (h.wal.append e.entryType e.data e.now).1
        appends := h.appends ++
          [((h.wal.append e.entryType e.data e.now).2, e)] }
      old' cur' f' removed := by
  rcases h.wal.allNamed_append e.entryType e.data e.now hw.next_number
    hw.lookup_next with ⟨hall, hnames, hreturned⟩
  have hlands : LandsAtEnd h.wal.allNamed e.data :=
    hw.lined.landsAtEnd hw.pos hnumber
  rcases hw.lined.append_cases hlands with ⟨f', hpos, hlined⟩
  rw [← hall] at hlined hpos
  have hsize : (h.wal.append e.entryType e.data e.now).1.offset ≤
      totalSize (old ++ [cur]) + e.frame.length := by
    rw [(h.wal.offset_append e.entryType e.data e.now).right, length_frame]
    exact Nat.le_trans (Nat.mod_le _ _) (Nat.add_le_add_right hw.offset _)
  have hsound := hw.sound_append hrecoverable
  by_cases hfull : h.wal.activeSize + (walHeaderSize + e.data.length) >
      h.wal.maxSize
  · have hfullAll : h.wal.allNamed.activeSize +
        (walHeaderSize + e.data.length) > h.wal.allNamed.maxSize := hfull
    rw [if_pos hfullAll] at hlined
    rw [if_pos hfull] at hnames
    refine ⟨old ++ [cur], [(h.wal.offset, e)], f',
      { lined := ?_, pos := hpos, appends := ?_
        names := hnames.trans hw.names_rotate, removed_lt := ?_, below := ?_
        within := hreturned ▸ hw.within_rotate, offset := ?_
        sound := hreturned ▸ hsound }⟩
    · rw [List.map_append]
      exact hlined
    · rw [hreturned, List.flatten_append, hw.appends]
      rfl
    · intro i hi
      rw [List.length_append]
      exact Nat.lt_succ_of_lt (hw.removed_lt i hi)
    · intro i hi seg hseg
      rw [List.getElem?_append_left (hw.removed_lt i hi)] at hseg
      exact hw.below i hi seg hseg
    · rw [totalSize_concat]
      simpa [segmentSize, entriesOf, encode] using hsize
  have hroom : ¬ h.wal.allNamed.activeSize +
      (walHeaderSize + e.data.length) > h.wal.allNamed.maxSize := hfull
  rw [if_neg hroom] at hlined
  rw [if_neg hfull] at hnames
  refine ⟨old, cur ++ [(h.wal.offset, e)], f',
    { lined := ?_, pos := hpos, appends := ?_
      names := hnames.trans hw.names, removed_lt := hw.removed_lt
      below := hw.below, within := hw.within_grow, offset := ?_
      sound := hreturned ▸ hsound }⟩
  · rw [entriesOf, List.map_append]
    exact hlined
  · rw [hreturned, hw.appends]
    simp
  have hgrown : segmentSize (cur ++ [(h.wal.offset, e)]) =
      segmentSize cur + e.frame.length := segmentSize_concat ..
  rw [totalSize_concat] at hsize
  rw [totalSize_concat, hgrown, ← Nat.add_assoc]
  exact hsize

theorem Whole.tick :
    Whole maxSize { h with wal := h.wal.tick } old cur
      (encode (entriesOf cur)) removed where
  lined := by
    change Lined maxSize (h.wal.withWriter h.wal.writer.flush).allNamed _ _ _
    rw [WAL.allNamed_withWriter]
    exact hw.lined.flush
  pos := hw.lined.pos_flush hw.pos
  appends := hw.appends
  names := hw.names
  removed_lt := hw.removed_lt
  below := hw.below
  within := hw.within
  offset := hw.offset
  sound := hw.sound

theorem Whole.truncate
    {cpOffset : UInt64} (hcheckpoint : h.checkpoint = some cpOffset)
    (hsafe : forall seg, seg ∈ (Storage.listSegments h.wal.disk).dropLast ->
      WAL.segmentEndOffset h.wal.disk seg.2 ≤ cpOffset.toNat ->
        endsAt h.wal.disk seg.2 ≤ cpOffset.toNat) :
    exists removed', Whole maxSize
      { h with
        wal := h.wal.truncate h.checkpoint
        truncated := h.truncated ++
          (h.checkpoint.map UInt64.toNat).toList }
      old cur f removed' := by
  rw [hcheckpoint, h.wal.truncate_some]
  have hlist : (Storage.listSegments h.wal.disk).dropLast =
      (keptNumbers (old.length + 1) removed).dropLast.map
        (fun i => (segmentPath (i + 1), i)) := by
    rw [hw.listSegments, List.map_dropLast]
  rw [hlist] at hsafe ⊢
  rcases WAL.foldl_removeEnded cpOffset.toNat h.wal.disk
    ((keptNumbers (old.length + 1) removed).dropLast.map
      (fun i => (segmentPath (i + 1), i))) h.wal.disk with ⟨hnames, hfiles⟩
  have hlater : forall r : Nat × WalEntry, ¬ h.AtOrAbove r.1 ->
      ¬ forall c, c ∈ h.truncated ++ [cpOffset.toNat] -> c ≤ r.1 := by
    intro r hbelow hall
    apply hbelow
    intro c hc
    exact hall c (List.mem_append_left _ hc)
  exists removed ++ (keptNumbers (old.length + 1) removed).dropLast.filter
    (fun i => WAL.segmentEndOffset h.wal.disk i ≤ cpOffset.toNat)
  exact
    { lined := by
        unfold WAL.allNamed
        simp only [hfiles]
        exact hw.lined
      pos := hw.pos
      appends := hw.appends
      names := by
        change Disk.names (List.foldl _ _ _) = _
        rw [hnames, hw.names, List.filter_map, keptNumbers, keptNumbers,
          List.filter_filter]
        congr 1
        apply List.filter_congr
        intro i hi
        rw [Bool.eq_iff_iff]
        simp only [Function.comp, Bool.and_eq_true, decide_eq_true_eq,
          List.forall_mem_map, List.mem_append, List.mem_filter, not_or,
          not_and]
        constructor
        · rintro ⟨hall, hkept⟩
          exact ⟨hkept, fun hmem hended => hall i hmem hended rfl⟩
        rintro ⟨hkept, hall⟩
        refine ⟨?_, hkept⟩
        intro j hj hended heq
        have hnumber := segmentPath_inj heq
        have hsame : i = j := by omega
        rw [hsame] at hall
        exact hall hj hended
      removed_lt := by
        intro i hi
        rcases List.mem_append.mp hi with hold | hnew
        · exact hw.removed_lt i hold
        · exact hw.lt_of_mem_dropLast (List.mem_filter.mp hnew).left
      below := by
        intro i hi seg hseg r hr
        rcases List.mem_append.mp hi with hold | hnew
        · exact hlater r (hw.below i hold seg hseg r hr)
        rcases List.mem_filter.mp hnew with ⟨hlisted, hended⟩
        have hlt := hw.lt_of_mem_dropLast hlisted
        have hends := hsafe _ (List.mem_map_of_mem hlisted)
          (of_decide_eq_true hended)
        have hseg' : (old ++ [cur])[i]? = some seg := by
          rw [List.getElem?_append_left hlt, hseg]
        have hbelow := hw.within.lt hseg' hr
        rw [hw.endsAt_eq hlt] at hends
        rw [List.take_append_of_le_length hlt, Nat.succ_eq_add_one] at hbelow
        intro hall
        have habove := hall cpOffset.toNat
          (List.mem_append_right _ (List.mem_singleton_self _))
        omega
      within := hw.within
      offset := hw.offset
      sound := hw.sound }

theorem Whole.stillDelivers
    (hflushed : h.wal.writeBuf = []) : h.StillDelivers := by
  have hwritten := hw.lined.written
  have hbuf : h.wal.allNamed.writeBuf = [] := hflushed
  rw [hbuf, List.append_nil] at hwritten
  have hall : (old ++ [cur]).length = old.length + 1 := by
    simp
  have hmem : forall (i : Nat) (r : Nat × WalEntry), r ∈ ((old ++
      [cur])[i]?).getD [] -> r ∈ h.appends := by
    intro i r hr
    rw [hw.appends]
    cases hseg : (old ++ [cur])[i]? with
    | none =>
      rw [hseg] at hr
      cases hr
    | some seg =>
    rw [hseg] at hr
    exact List.mem_flatten.mpr ⟨seg, List.mem_of_getElem? hseg, hr⟩
  have hcontent : forall i, h.wal.disk.content i =
      encode (entriesOf (((old ++ [cur])[i]?).getD [])) := by
    intro i
    have hfiles : h.wal.disk.files =
        (old ++ [cur]).map (fun seg => encode (entriesOf seg)) := by
      rw [hw.files, hwritten, List.map_append, List.map_map]
      rfl
    rw [Disk.content, hfiles, List.getElem?_map]
    cases (old ++ [cur])[i]? with
    | none => rfl
    | some seg => rfl
  exists (((keptNumbers (old.length + 1) removed).flatMap
    (fun i => ((old ++ [cur])[i]?).getD [])).map (fun r => r.2.key))
  constructor
  · intro State Err fn s
    have hlimit : h.wal.maxSize = maxSize := hw.lined.limit
    unfold WAL.recover
    rw [hw.listSegments, hlimit,
      @recoverSegments_encode State Err maxSize fn h.wal.disk
        (fun i => entriesOf (((old ++ [cur])[i]?).getD []))
        (keptNumbers (old.length + 1) removed)]
    · congr 1
      simp only [entriesOf, List.map_flatMap, List.map_map]
      rfl
    · intro i _ e he
      rcases List.mem_map.mp he with ⟨r, hr, hre⟩
      rw [← hre]
      exact hw.sound r (hmem i r hr)
    · intro i _
      exact hcontent i
  · apply List.Sublist.map
    rw [hw.appends, ← flatMap_range_getD, hall]
    apply filter_flatMap_sublist
    intro i hi hremoved
    rw [decide_eq_false_iff_not, not_not] at hremoved
    rw [List.filter_eq_nil_iff]
    intro r hr
    rw [decide_eq_true_eq]
    have hlt := hw.removed_lt i hremoved
    rw [List.getElem?_append_left hlt, List.getElem?_eq_getElem hlt] at hr
    exact hw.below i hremoved _ (List.getElem?_eq_getElem hlt) r hr

end Whole

/-!
## Runs
-/

theorem whole_start {maxSize : Nat} {mode : SyncMode} {w : WAL}
    (hopen : WAL.newWAL .empty maxSize mode = .ok w) :
    Whole maxSize (start w) [] [] [] [] := by
  rcases lined_created hopen with ⟨hlined, hpos⟩
  cases hopen
  exact
    { lined := hlined
      pos := hpos
      appends := rfl
      names := rfl
      removed_lt := by
        intro i hi
        cases hi
      below := by
        intro i hi
        cases hi
      within := by
        constructor
        · intro r hr
          cases hr
        · trivial
      offset := Nat.le_refl 0
      sound := by
        intro r hr
        cases hr }

theorem whole_step {maxSize : Nat} {h h' : TruncateHistory}
    {a : TruncateAction}
    (hw : exists old cur f removed, Whole maxSize h old cur f removed)
    (hsafe : h.Safe a) (hstep : h.step a = some h') :
    exists old cur f removed, Whole maxSize h' old cur f removed := by
  rcases hw with ⟨old, cur, f, removed, hw⟩
  cases a with
  | append entryType data now =>
    have hlimit : h.wal.maxSize = maxSize := hw.lined.limit
    rcases hsafe with ⟨hrecoverable, hnumber⟩
    rw [hlimit] at hrecoverable
    cases hstep
    rcases hw.append (e := ⟨entryType, data, now⟩) hrecoverable hnumber with ⟨old', cur', f', hw'⟩
    exact ⟨old', cur', f', removed, hw'⟩
  | tick =>
    by_cases hmode : h.wal.syncMode = .interval
    · simp only [step, hmode, if_true, Option.some.injEq] at hstep
      rw [← hstep]
      exact ⟨old, cur, _, removed, hw.tick⟩
    · simp [step, hmode] at hstep
  | checkpoint offset =>
    cases hstep
    exact ⟨old, cur, f, removed,
      { lined := hw.lined
        pos := hw.pos
        appends := hw.appends
        names := hw.names
        removed_lt := hw.removed_lt
        below := hw.below
        within := hw.within
        offset := hw.offset
        sound := hw.sound }⟩
  | truncate =>
  simp only [step, Option.some.injEq] at hstep
  rw [← hstep]
  cases hcheckpoint : h.checkpoint with
  | none =>
    rw [← hcheckpoint, truncate_of_none hcheckpoint]
    exact ⟨old, cur, f, removed, hw⟩
  | some cpOffset =>
  rcases hw.truncate hcheckpoint (hsafe cpOffset hcheckpoint) with
    ⟨removed', hw'⟩
  rw [← hcheckpoint]
  exact ⟨old, cur, f, removed', hw'⟩

/--
If every segment of no more bytes than the checkpoint ends before it, a recovery
hands over every entry at or above the checkpoints.
-/
theorem stillDelivers_of_safe {maxSize : Nat} {mode : SyncMode} {w : WAL}
    {actions : List TruncateAction} {h : TruncateHistory}
    (hopen : WAL.newWAL .empty maxSize mode = .ok w)
    (hsafe : Meets step Safe (start w) actions)
    (hrun : run? step (start w) actions = some h)
    (hflushed : h.wal.writeBuf = []) : h.StillDelivers := by
  have hstart : exists old cur f removed,
      Whole maxSize (start w) old cur f removed :=
    ⟨[], [], [], [], whole_start hopen⟩
  rcases run?_invariant_of_meets (fun _ _ _ => whole_step) hstart hsafe hrun
    with ⟨old, cur, f, removed, hw⟩
  exact hw.stillDelivers hflushed

def smallSegments : WAL where
  disk := segmentDisk [[]]
  activeFile := 0
  pos := 0
  writeBuf := []
  activeSize := 0
  maxSize := 20
  syncMode := .immediate
  offset := 0
  segmentSeq := 1

def firstSegmentEnded : TruncateHistory where
  wal :=
    { smallSegments with
      disk :=
        { names := [(segmentPath 2, 1)]
          files := [encode [⟨1, [65], 7⟩], encode [⟨1, [66], 8⟩]] }
      activeFile := 1
      pos := 18
      activeSize := 18
      offset := 36
      segmentSeq := 2 }
  checkpoint := some 18
  appends := [(0, ⟨1, [65], 7⟩), (18, ⟨1, [66], 8⟩)]
  truncated := [18]

theorem stillDelivers_firstSegmentEnded :
    run? step (start smallSegments) [.append 1 [65] 7, .append 1 [66] 8,
        .checkpoint 18, .truncate] = some firstSegmentEnded ∧
      firstSegmentEnded.StillDelivers := by
  have hrun : run? step (start smallSegments) [.append 1 [65] 7,
      .append 1 [66] 8, .checkpoint 18, .truncate] =
        some firstSegmentEnded := by
    decide +kernel
  have hopen : WAL.newWAL .empty 20 .immediate = .ok smallSegments := rfl
  exact ⟨hrun, stillDelivers_of_safe hopen (by decide +kernel) hrun rfl⟩

def secondSegmentEnded : TruncateHistory where
  wal :=
    { smallSegments with
      disk :=
        { names := [(segmentPath 3, 2)]
          files := [encode [⟨1, [65], 7⟩], encode [⟨1, [66], 8⟩],
            encode [⟨1, [67], 9⟩]] }
      activeFile := 2
      pos := 18
      activeSize := 18
      offset := 54
      segmentSeq := 3 }
  checkpoint := some 18
  appends := [(0, ⟨1, [65], 7⟩), (18, ⟨1, [66], 8⟩), (36, ⟨1, [67], 9⟩)]
  truncated := [18]

/-- The checkpoint is the offset of the second entry, which is removed. -/
theorem not_stillDelivers_secondSegmentEnded :
    run? step (start smallSegments) [.append 1 [65] 7, .append 1 [66] 8,
        .append 1 [67] 9, .checkpoint 18, .truncate] =
          some secondSegmentEnded ∧
      (18, ⟨1, [66], 8⟩) ∈ secondSegmentEnded.appends ∧
      secondSegmentEnded.wal.reading.entries = [(1, [67])] ∧
      ¬ secondSegmentEnded.StillDelivers := by
  have hentries : secondSegmentEnded.wal.reading.entries = [(1, [67])] := by
    decide +kernel
  constructor
  · decide +kernel
  constructor
  · decide
  constructor
  · exact hentries
  rintro ⟨delivered, hdelivered, hsublist⟩
  have hsame := hdelivered.reading
  rw [hentries] at hsame
  rw [← hsame] at hsublist
  have hlength := hsublist.length_le
  revert hlength
  decide +kernel

end TruncateHistory

end Storage
end ChimeraMQ
