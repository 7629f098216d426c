import ChimeraMQ.Storage.CompactionFiles
import ChimeraMQ.Storage.LogPart
import ChimeraMQ.Storage.RetentionSuffix

/-!
# The log beside the compacted segments

A partition that has been compacted is a log like any other, and beside it
segments whose files are not loaded again.
-/

namespace ChimeraMQ
namespace Storage

open Foundation

namespace Partition

/-!
## What an append leaves alone
-/

structure AppendFrame (p q : Partition) : Prop where
  topicName : q.topicName = p.topicName
  partitionID : q.partitionID = p.partitionID
  maxSegSize : q.maxSegSize = p.maxSegSize
  older : q.older = p.older ∧ q.active.baseOff = p.active.baseOff ∨
    q.older = p.older ++ [p.active.freeze]
  names : forall e, e ∈ p.dir.names -> e ∈ q.dir.names
  content : forall i, i < p.dir.files.length -> i ≠ p.active.file ->
    i ≠ q.active.file -> q.dir.content i = p.dir.content i

theorem AppendFrame.refl (p : Partition) : AppendFrame p p where
  topicName := rfl
  partitionID := rfl
  maxSegSize := rfl
  older := Or.inl ⟨rfl, rfl⟩
  names := fun _ he => he
  content := fun _ _ _ _ => rfl

variable {s : Segment} {data : Bytes} {offset : Nat}

theorem segment_append_same {s' : Segment} {f f' : Bytes} {position : Nat}
    (h : s.append f data = .ok (s', f', offset, position)) :
    s'.file = s.file ∧ s'.baseOff = s.baseOff := by
  unfold Segment.append at h
  split at h
  · cases h
  simp only at h
  split at h
  · cases h
  · cases h
    exact ⟨rfl, rfl⟩

variable {p q : Partition}

theorem appendActive_frame (h : p.appendActive data = .ok (q, offset)) :
    AppendFrame p q ∧ q.older = p.older ∧ q.active.file = p.active.file := by
  unfold appendActive at h
  cases hone : p.active.append (p.content p.active) data with
  | error e =>
    rw [hone] at h
    cases h
  | ok r =>
  rcases r with ⟨s, f, position⟩
  rw [hone] at h
  cases h
  rcases segment_append_same hone with ⟨hfile, hbase⟩
  refine ⟨?_, rfl, hfile⟩
  exact
    { topicName := rfl
      partitionID := rfl
      maxSegSize := rfl
      older := Or.inl ⟨rfl, hbase⟩
      names := fun _ he => he
      content := fun i _ _ hne =>
        Disk.content_setContent_ne _ (Ne.symm hne) f }

variable {dir dir' : Disk} {now : Nat}

theorem openFile_frame {name : List Char} {baseOffset maxSize : Nat}
    (h : openFile dir name baseOffset maxSize now = .ok (dir', s)) :
    (forall e, e ∈ dir.names -> e ∈ dir'.names) ∧
      dir.files.length ≤ dir'.files.length ∧
      forall i, i < dir.files.length -> i ≠ s.file ->
        dir'.content i = dir.content i := by
  unfold openFile at h
  simp only at h
  split at h
  · cases h
  rename_i hopen
  cases h
  have hfile := (openSegment_named hopen).right
  cases hlook : dir.lookup name with
  | some i =>
    rw [Disk.openCreate_of_lookup_some hlook] at hfile ⊢
    refine ⟨fun _ he => he, ?_, ?_⟩
    · rw [Disk.setContent, List.length_set]
    · intro j _ hne
      exact Disk.content_setContent_ne _ (by rw [← hfile]; exact hne.symm) _
  | none =>
  rw [Disk.openCreate_of_lookup_none hlook] at hfile ⊢
  refine ⟨fun _ he => List.mem_append_left _ he, ?_, ?_⟩
  · show dir.files.length ≤ ((dir.files ++ [[]]).set _ _).length
    rw [List.length_set, List.length_append]
    exact Nat.le_add_right _ _
  · intro j hj hne
    rw [Disk.content_setContent_ne _ (by rw [← hfile]; exact hne.symm)]
    exact Disk.content_addFile_of_lt hj name []

theorem createNewSegment_frame {baseOffset : Nat}
    (h : { p with active := p.active.freeze }.createNewSegment baseOffset now =
      .ok q) :
    AppendFrame p q ∧ q.older = p.older ++ [p.active.freeze] ∧
      p.dir.files.length ≤ q.dir.files.length := by
  unfold createNewSegment at h
  cases hopen : openFile p.dir (segmentName baseOffset) baseOffset p.maxSegSize
      now with
  | error e =>
    simp only [hopen] at h
    cases h
  | ok r =>
  simp only [hopen] at h
  cases h
  rcases openFile_frame hopen with ⟨hnames, hlength, hcontent⟩
  refine ⟨?_, rfl, hlength⟩
  exact
    { topicName := rfl
      partitionID := rfl
      maxSegSize := rfl
      older := Or.inr rfl
      names := hnames
      content := fun i hi _ hne => hcontent i hi hne }

theorem append_frame (p : Partition) (data : Bytes) (now : Nat) :
    AppendFrame p (p.append data now).1 := by
  unfold Partition.append
  cases hone : p.appendActive data with
  | ok r => exact (appendActive_frame hone).left
  | error e =>
  cases e with
  | segmentFull =>
    simp only
    cases hnew : { p with active := p.active.freeze }.createNewSegment
        p.active.freeze.nextOff now with
    | error e =>
        exact
          { AppendFrame.refl p with
            older := Or.inl ⟨rfl, rfl⟩ }
    | ok q =>
    rcases createNewSegment_frame hnew with ⟨hframe, holder, hlength⟩
    simp only
    cases htwo : q.appendActive data with
    | error e => exact hframe
    | ok r =>
    rcases appendActive_frame htwo with ⟨hframe', hsame, hfile⟩
    exact
      { topicName := hframe'.topicName.trans hframe.topicName
        partitionID :=
          hframe'.partitionID.trans hframe.partitionID
        maxSegSize := hframe'.maxSegSize.trans hframe.maxSegSize
        older := Or.inr (hsame.trans holder)
        names := fun e he => hframe'.names e (hframe.names e he)
        content := by
          intro i hi hne hne'
          rw [hfile] at hne'
          rw [hframe'.content i (hi.trans_le hlength) hne'
            (by rw [hfile]; exact hne')]
          exact hframe.content i hi hne hne' }
  | _ => exact AppendFrame.refl p

theorem InOrder.append_error (h : p.InOrder) {e : SegmentError}
    (herror : (p.append data now).2 = .error e) :
    (p.append data now).1.InOrder := by
  unfold Partition.append at herror ⊢
  cases hone : p.appendActive data with
  | ok r =>
    rw [hone] at herror
    cases herror
  | error e =>
  cases e with
  | segmentFull =>
    rcases h.createNewSegment now with ⟨p', hnew, h'⟩
    change { p with active := p.active.freeze }.createNewSegment
      p.active.freeze.nextOff now = .ok p' at hnew
    simp only [hone, hnew] at herror ⊢
    cases htwo : p'.appendActive data with
    | ok r =>
      rw [htwo] at herror
      cases herror
    | error e => exact h'
  | _ => exact h

/-!
## The log and the compacted segments
-/

/--
The log is open without the segments whose files are not loaded, and together
with them the segments are in order.
-/
structure MixedLog (p : Partition) (front : List Chunk) (last : Chunk) :
    Prop where
  log : OpenLog p.logPart front last
  inOrder : p.InOrder
  ordered : p.segments.Pairwise (fun s t => s.nextOff ≤ t.baseOff)
  range : forall s, s ∈ p.segments -> s.baseOff ≤ s.nextOff
  named : forall s, s ∈ p.older -> isLog s.path = true ->
    (s.path, s.file) ∈ p.dir.names

structure Compacted (dir : Disk) (s : Segment) (recs : List Bytes) : Prop where
  file : exists created,
    dir.content s.file = segmentFile s.baseOff created recs []
  short : forall d, d ∈ recs -> d.length < 2 ^ 32
  nextOff : s.nextOff = s.baseOff + recs.length
  nextOff_lt : s.nextOff < 2 ^ 64
  size : s.size = endOfRecords recs
  index : s.index = sparseIndex s.baseOff recs

def Filled (p : Partition) : Prop :=
  forall s, s ∈ p.older -> isLog s.path = false ->
    exists recs, Compacted p.dir s recs

theorem Compacted.congr {recs : List Bytes} (h : Compacted dir s recs)
    (hsame : dir'.content s.file = dir.content s.file) :
    Compacted dir' s recs :=
  { h with
    file := by
      rw [hsame]
      exact h.file }

theorem Compacted.freeze {recs : List Bytes} (h : Compacted dir s recs) :
    Compacted dir s.freeze recs where
  file := h.file
  short := h.short
  nextOff := h.nextOff
  nextOff_lt := h.nextOff_lt
  size := h.size
  index := h.index

theorem Compacted.stands {recs : List Bytes} (h : Compacted dir s recs)
    (hend : endOfRecords recs < 2 ^ 32) :
    Stands s (dir.content s.file) s.baseOff recs where
  written := by
    rcases h.file with ⟨created, hbytes⟩
    have hlt := h.nextOff_lt
    rw [h.nextOff] at hlt
    apply FileHolds.written
    exact
      { bytes := ⟨created, [], hbytes, by decide⟩
        base_lt := hlt
        end_lt := hend }
  baseOff := rfl
  size := h.size
  nextOff := h.nextOff
  index := h.index

variable {front : List Chunk} {last : Chunk}

theorem MixedLog.isLog_active (h : MixedLog p front last) :
    isLog p.active.path = true := by
  have hpath : p.active.path = segmentName last.base := h.log.active.path
  rw [hpath]
  exact isLog_segmentName (h.log.dir.base_lt last
    (List.mem_append_right _ (List.mem_singleton_self last)))

theorem MixedLog.active_mem (h : MixedLog p front last) :
    (p.active.path, p.active.file) ∈ p.dir.names := by
  have hpath : p.active.path = segmentName last.base := h.log.active.path
  have hfile : p.active.file = last.file := h.log.active.file
  have hmem : (segmentName last.base, last.file) ∈
      (logFiles p.dir).names := by
    have hnames : (logFiles p.dir).names = _ := h.log.dir.names
    rw [hnames]
    exact List.mem_map_of_mem
      (List.mem_append_right front (List.mem_singleton_self last))
  rw [hpath, hfile]
  exact List.mem_of_mem_filter hmem

theorem active_mem_segments (p : Partition) : p.active ∈ p.segments :=
  List.mem_append_right _ (List.mem_singleton_self _)

theorem older_mem_segments (hs : s ∈ p.older) :
    s ∈ p.segments :=
  List.mem_append_left _ hs

theorem InOrder.file_ne (h : p.InOrder) {t : Segment} (hs : s ∈ p.segments)
    (ht : t ∈ p.segments) (hkind : isLog s.path ≠ isLog t.path) :
    s.file ≠ t.file := by
  intro hfile
  exact hkind (congrArg isLog (h.files.same s hs t ht hfile))

theorem MixedLog.read (h : MixedLog p front last)
    (hat : At (logFiles p.dir) (front ++ [last]) offset data) :
    p.read offset = .ok data :=
  read_of_logPart h.isLog_active h.ordered h.range (h.log.read hat)

/-!
## Appending
-/

theorem LogDir.length_lt {chunks : List Chunk} (h : LogDir dir chunks)
    (hat : At dir chunks offset data) : data.length < 2 ^ 32 := by
  rcases hat with ⟨c, hc, i, _, hd, _⟩
  rcases h.written c hc with hwritten | ⟨_, hnil⟩
  · exact length_lt_of_end_lt hwritten.padded.end_lt (List.mem_of_getElem? hd)
  · rw [hnil] at hd
    cases hd

/-- What an append makes of the log beside the compacted segments. -/
structure MixedGrown (p : Partition) (front : List Chunk) (last : Chunk)
    (data : Bytes) (r : Partition × Except SegmentError Nat)
    (front' : List Chunk) (last' : Chunk) : Prop where
  grown : Grown p.logPart front last data (r.1.logPart, r.2) front' last'
  mixed : MixedLog r.1 front' last'
  frame : AppendFrame p r.1

theorem AppendFrame.ordered (hframe : AppendFrame p q)
    (hlog : OpenLog q.logPart front last) (hactive : isLog p.active.path = true)
    (hactive' : isLog q.active.path = true)
    (hordered : p.segments.Pairwise (fun s t => s.nextOff ≤ t.baseOff))
    (hrange : forall s, s ∈ p.segments -> s.baseOff ≤ s.nextOff) :
    q.segments.Pairwise (fun s t => s.nextOff ≤ t.baseOff) := by
  rcases hframe.older with ⟨holder, hbase⟩ | holder
  · rcases List.pairwise_append.mp hordered with ⟨hold, _, hcross⟩
    rw [segments, holder]
    refine List.pairwise_append.mpr ⟨hold, List.pairwise_singleton .., ?_⟩
    intro s hs t ht
    rw [List.mem_singleton.mp ht, hbase]
    exact hcross s hs p.active (List.mem_singleton_self _)
  have hlast := hlog.ordered
  rw [segments_logPart q hactive', segments, holder, List.filter_append,
    List.filter_append] at hlast
  have hfreeze : isLog p.active.freeze.path = true := hactive
  simp only [List.filter_cons, hfreeze, hactive', if_true, List.filter_nil]
    at hlast
  rw [segments, holder]
  apply ordered_roll hordered (hrange _ (active_mem_segments p))
  exact (List.pairwise_append.mp hlast).right.right p.active.freeze
    (List.mem_append_right _ (List.mem_singleton_self _)) q.active
    (List.mem_singleton_self _)

theorem MixedLog.append (h : MixedLog p front last)
    (hsmall : p.maxSegSize < 2 ^ 32) (hroom : last.next + 1 < 2 ^ 64)
    (data : Bytes) (now : Nat) :
    exists front' last',
      MixedGrown p front last data (p.append data now) front' last' := by
  have hsmall' : p.logPart.maxSegSize < 2 ^ 32 := hsmall
  have hframe := append_frame p data now
  rcases h.log.append data now (Or.inl hsmall') hroom with
    ⟨front', last', hgrown⟩
  rw [append_logPart p h.isLog_active h.inOrder.active.nextOff_lt data now]
    at hgrown
  have hlog : OpenLog (p.append data now).1.logPart front' last' := hgrown.log
  have hinOrder : (p.append data now).1.InOrder := by
    cases hr : (p.append data now).2 with
    | ok offset =>
      exact h.inOrder.append
        (hlog.dir.length_lt (hgrown.stored hr).right) now
    | error e => exact h.inOrder.append_error hr
  have hactive : isLog (p.append data now).1.active.path = true := by
    have hpath : (p.append data now).1.active.path =
        segmentName last'.base := hlog.active.path
    rw [hpath]
    exact isLog_segmentName (hlog.dir.base_lt last'
      (List.mem_append_right _ (List.mem_singleton_self last')))
  refine ⟨front', last', hgrown, ?_, hframe⟩
  exact
    { log := hlog
      inOrder := hinOrder
      ordered := hframe.ordered hlog h.isLog_active hactive h.ordered h.range
      range := by
        intro s hs
        rcases List.mem_append.mp hs with hold | hlast
        · rcases hframe.older with ⟨holder, _⟩ | holder
          · rw [holder] at hold
            exact h.range s (older_mem_segments hold)
          rw [holder] at hold
          rcases List.mem_append.mp hold with hold | hfreeze
          · exact h.range s (older_mem_segments hold)
          · rw [List.mem_singleton.mp hfreeze]
            exact h.range p.active (active_mem_segments p)
        · rw [List.mem_singleton.mp hlast]
          exact hlog.base_le_next
            (active_mem_segments (p.append data now).1.logPart)
      named := by
        intro s hs hname
        apply hframe.names
        rcases hframe.older with ⟨holder, _⟩ | holder
        · rw [holder] at hs
          exact h.named s hs hname
        rw [holder] at hs
        rcases List.mem_append.mp hs with hold | hfreeze
        · exact h.named s hold hname
        · rw [List.mem_singleton.mp hfreeze]
          exact h.active_mem }

theorem MixedGrown.mem_older {front' : List Chunk} {last' : Chunk}
    {r : Partition × Except SegmentError Nat} (h : MixedLog p front last)
    (hgrown : MixedGrown p front last data r front' last') (hs : s ∈ r.1.older)
    (hname : isLog s.path = false) : s ∈ p.older := by
  rcases hgrown.frame.older with ⟨holder, _⟩ | holder
  · rwa [holder] at hs
  rw [holder] at hs
  rcases List.mem_append.mp hs with hold | hfreeze
  · exact hold
  have hlog : isLog s.path = true := by
    rw [List.mem_singleton.mp hfreeze]
    exact h.isLog_active
  rw [hname] at hlog
  cases hlog

theorem MixedGrown.content {front' : List Chunk} {last' : Chunk}
    {r : Partition × Except SegmentError Nat} (h : MixedLog p front last)
    (hgrown : MixedGrown p front last data r front' last') (hs : s ∈ r.1.older)
    (hname : isLog s.path = false) :
    r.1.dir.content s.file = p.dir.content s.file := by
  have hold := older_mem_segments (hgrown.mem_older h hs hname)
  apply hgrown.frame.content
  · exact h.inOrder.files.file_lt hold
  · apply h.inOrder.file_ne hold (active_mem_segments p)
    rw [hname, h.isLog_active]
    exact Bool.false_ne_true
  apply hgrown.mixed.inOrder.file_ne (older_mem_segments hs)
    (active_mem_segments r.1)
  rw [hname, hgrown.mixed.isLog_active]
  exact Bool.false_ne_true

theorem MixedGrown.filled {front' : List Chunk} {last' : Chunk}
    {r : Partition × Except SegmentError Nat} (h : MixedLog p front last)
    (hgrown : MixedGrown p front last data r front' last') (hfilled : Filled p) :
    Filled r.1 := by
  intro s hs hname
  rcases hfilled s (hgrown.mem_older h hs hname) hname with ⟨recs, hrecs⟩
  exact ⟨recs, hrecs.congr (hgrown.content h hs hname)⟩

/-!
## Opening again
-/

theorem openFile_named {name : List Char} {baseOffset maxSize : Nat}
    (h : openFile dir name baseOffset maxSize now = .ok (dir', s)) :
    (name, s.file) ∈ dir'.names := by
  unfold openFile at h
  simp only at h
  split at h
  · cases h
  rename_i hopen
  cases h
  rw [(openSegment_named hopen).right]
  cases hlook : dir.lookup name with
  | some i =>
    rw [Disk.openCreate_of_lookup_some hlook]
    exact Disk.mem_names_of_lookup hlook
  | none =>
  rw [Disk.openCreate_of_lookup_none hlook]
  exact List.mem_append_right _ (List.mem_singleton_self _)

variable {maxSegSize : Nat}

theorem named_of_loadEntries {entries : List (List Char × Nat)}
    {segments : List Segment}
    (h : loadEntries maxSegSize now entries dir = .ok (dir', segments)) :
    (forall e, e ∈ dir.names -> e ∈ dir'.names) ∧
      forall s, s ∈ segments -> (s.path, s.file) ∈ dir'.names := by
  induction entries generalizing dir segments with
  | nil =>
    cases h
    refine ⟨fun _ he => he, ?_⟩
    intro s hs
    cases hs
  | cons e rest ih =>
  unfold loadEntries at h
  cases hname : loadable e.1 with
  | none =>
    simp only [hname] at h
    exact ih h
  | some baseOff =>
  simp only [hname] at h
  cases hopen : openFile dir e.1 baseOff maxSegSize now with
  | error e =>
    simp only [hopen] at h
    cases h
  | ok r =>
  simp only [hopen] at h
  cases hrest : loadEntries maxSegSize now rest r.1 with
  | error e =>
    simp only [hrest] at h
    cases h
  | ok r' =>
  simp only [hrest] at h
  cases h
  rcases ih hrest with ⟨hnames, hnamed⟩
  refine ⟨fun x hx =>
    hnames x ((openFile_frame hopen).left x hx), ?_⟩
  intro s hs
  rcases List.mem_cons.mp hs with hfirst | hother
  · rw [hfirst, openFile_path hopen]
    exact hnames _ (openFile_named hopen)
  · exact hnamed s hother

theorem named_of_openPartition {topic : Bytes} {id : Nat}
    (h : openPartition dir topic id maxSegSize now = .ok q) (hs : s ∈ q.older) :
    isLog s.path = true ∧ (s.path, s.file) ∈ q.dir.names := by
  unfold openPartition at h
  cases hload : loadSegments dir maxSegSize now with
  | error e =>
    rw [hload] at h
    cases h
  | ok r =>
  simp only [hload] at h
  cases hlast : r.2.getLast? with
  | some active =>
    simp only [hlast] at h
    cases h
    have hmem : s ∈ r.2 := List.dropLast_subset _ hs
    exact ⟨isLog_of_loadEntries hload hmem,
      (named_of_loadEntries hload).right s hmem⟩
  | none =>
  simp only [hlast] at h
  cases hnew : openFile r.1 (segmentName 0) 0 maxSegSize now with
  | error e =>
    rw [hnew] at h
    cases h
  | ok r' =>
  simp only [hnew] at h
  cases h
  cases hs

theorem LogDir.mixedLog {chunks : List Chunk} (h : LogDir (logFiles dir) chunks)
    (hload : Loadable dir) {topic : Bytes} {id : Nat}
    (hopen : Partition.openPartition dir topic id maxSegSize now = .ok q) :
    exists front last,
      Reloaded (logFiles dir) chunks maxSegSize q.logPart front last ∧
        MixedLog q front last ∧ Filled q := by
  have hparts := openPartition_logFiles hload.proper topic id maxSegSize now
  rw [hopen] at hparts
  rcases h.openPartition topic id maxSegSize now with
    ⟨q', front, last, hopen', hreloaded⟩
  rw [hparts] at hopen'
  cases hopen'
  have hlog := hreloaded.log
  have hactive : isLog q.active.path = true := by
    have hpath : q.active.path = segmentName last.base := hlog.active.path
    rw [hpath]
    exact isLog_segmentName (hlog.dir.base_lt last
      (List.mem_append_right _ (List.mem_singleton_self last)))
  have hsegments : q.logPart.segments = q.segments := by
    rw [segments_logPart q hactive]
    apply List.filter_eq_self.mpr
    intro s hs
    rcases List.mem_append.mp hs with hold | hlast
    · exact (named_of_openPartition hopen hold).left
    · rw [List.mem_singleton.mp hlast]
      exact hactive
  refine ⟨front, last, hreloaded, ?_, ?_⟩
  · exact
      { log := hlog
        inOrder := by
          rcases hload.openPartition topic id maxSegSize now with
            ⟨r, hr, hreopened⟩
          rw [hopen] at hr
          cases hr
          exact hreopened.inOrder
        ordered := by
          rw [← hsegments]
          exact hlog.ordered
        range := by
          intro s hs
          rw [← hsegments] at hs
          exact hlog.base_le_next hs
        named := fun s hs _ => (named_of_openPartition hopen hs).right }
  · intro s hs hname
    rw [(named_of_openPartition hopen hs).left] at hname
    cases hname

theorem MixedLog.reopen (h : MixedLog p front last) {topic : Bytes} {id : Nat}
    (hopen : openPartition p.dir topic id maxSegSize now = .ok q) :
    exists front' last',
      Reloaded (logFiles p.dir) (front ++ [last]) maxSegSize q.logPart front'
        last' ∧ MixedLog q front' last' ∧ Filled q := by
  have hdir : LogDir (logFiles p.dir) (front ++ [last]) := h.log.dir
  exact hdir.mixedLog h.inOrder.files.toLoadable hopen

end Partition

end Storage
end ChimeraMQ
