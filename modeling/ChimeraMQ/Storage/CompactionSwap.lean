import Mathlib.Algebra.Order.BigOperators.Group.List
import ChimeraMQ.Storage.CompactionLog

/-!
# A compaction and the log

A compaction writes a file that the log does not see, and then takes the frozen
segments from the front of the log.  What it writes fits the offsets of the
frozen segments if each of them has its file for itself.
-/

namespace ChimeraMQ
namespace Storage

open Foundation
open LogCompactor

namespace Partition

/-!
## Writing the file
-/

variable {p : Partition} {front : List Chunk} {last : Chunk}

theorem OpenLog.setDir (h : OpenLog p front last) {dir : Disk}
    (hnames : dir.names = p.dir.names)
    (hlength : p.dir.files.length ≤ dir.files.length)
    (hcontent : forall c, c ∈ front ++ [last] ->
      dir.content c.file = p.dir.content c.file) :
    OpenLog { p with dir := dir } front last where
  dir :=
    { names := hnames.trans h.dir.names
      follows := h.dir.follows
      file_lt := fun c hc => (h.dir.file_lt c hc).trans_le hlength
      base_lt := h.dir.base_lt
      written := by
        intro c hc
        show Storage.Written (dir.content c.file) c.base c.recs ∨
          dir.content c.file = [] ∧ c.recs = []
        rw [hcontent c hc]
        exact h.dir.written c hc }
  ordered := h.ordered
  segment := by
    intro s hs
    rcases h.segment s hs with hstale | ⟨c, hc, hserves⟩
    · exact Or.inl hstale
    · exact Or.inr ⟨c, hc,
        hserves.congr (hcontent c (List.mem_append_left _ hc))⟩
  chunk := by
    intro c hc
    rcases h.chunk c hc with ⟨s, hs, hserves⟩
    exact ⟨s, hs, hserves.congr (hcontent c (List.mem_append_left _ hc))⟩
  active := h.active.congr
    (hcontent last (List.mem_append_right _ (List.mem_singleton_self last)))
  unfrozen := h.unfrozen
  maxSize := h.maxSize

theorem names_openCreate {dir : Disk} {name : List Char}
    (hname : isLog name = false) :
    (logFiles (dir.openCreate name).1).names = (logFiles dir).names := by
  cases hlook : dir.lookup name with
  | some i => rw [Disk.openCreate_of_lookup_some hlook]
  | none =>
  rw [Disk.openCreate_of_lookup_none hlook]
  show (dir.names ++ [(name, dir.files.length)]).filter _ =
    dir.names.filter _
  rw [List.filter_append]
  simp [hname]

theorem isLog_compactedName (b : Nat) :
    isLog (compactedName b) = false := by
  rw [isLog, loadable_compactedName]
  rfl

theorem MixedLog.file_ne (h : MixedLog p front last) {c : Chunk}
    (hc : c ∈ front ++ [last]) {name : List Char} (hname : isLog name = false)
    {i : Nat} (hi : (name, i) ∈ p.dir.names ∨ p.dir.files.length ≤ i) :
    c.file ≠ i := by
  intro hfile
  have hlt : c.file < p.dir.files.length := h.log.dir.file_lt c hc
  rcases hi with hold | hnew
  · have hmem : (segmentName c.base, c.file) ∈ (logFiles p.dir).names := by
      have hnames : (logFiles p.dir).names = _ := h.log.dir.names
      rw [hnames]
      exact List.mem_map_of_mem hc
    have hsame := h.inOrder.files.proper.eq_of_file_eq
      (List.mem_of_mem_filter hmem) hold hfile
    have hlog := (List.mem_filter.mp hmem).right
    rw [hsame] at hlog
    simp only at hlog
    rw [hname] at hlog
    cases hlog
  · omega

theorem MixedLog.content_written (h : MixedLog p front last) {dir : Disk}
    {name : List Char} {i : Nat} {f : Bytes}
    (hw : LogCompactor.Written p.dir dir name i f) (hname : isLog name = false)
    {c : Chunk} (hc : c ∈ front ++ [last]) :
    dir.content c.file = p.dir.content c.file := by
  have hlt : c.file < p.dir.files.length := h.log.dir.file_lt c hc
  apply hw.content_ne c.file hlt
  apply h.file_ne hc hname
  rcases hw.fresh with hold | hnew
  · exact Or.inl hold
  · exact Or.inr (Nat.le_of_eq hnew.symm)

theorem MixedLog.written (h : MixedLog p front last) {dir : Disk}
    {name : List Char} {i : Nat} {f : Bytes}
    (hw : LogCompactor.Written p.dir dir name i f) (hname : isLog name = false)
    (hnames : (logFiles dir).names = (logFiles p.dir).names) (hf : RecordFile f) :
    MixedLog { p with dir := dir } front last := by
  have hload : loadable name = none := Option.not_isSome_iff_eq_none.mp
    (Bool.eq_false_iff.mp hname)
  refine
    { log := ?_
      inOrder := ?_
      ordered := h.ordered
      range := h.range
      named := fun s hs hlog => hw.names_of _ (h.named s hs hlog) }
  · have hset : OpenLog { p.logPart with dir := logFiles dir } front last :=
      h.log.setDir hnames hw.length_le
        (fun _ hc => h.content_written hw hname hc)
    exact hset
  exact
    { files :=
        { proper := hw.proper
          owned := by
            intro s hs e he hfile
            rcases hw.names e he with hold | hnew
            · exact h.inOrder.files.owned s hs e hold hfile
            rw [hnew] at hfile ⊢
            rcases hw.fresh with hold | hnew'
            · exact h.inOrder.files.owned s hs _ hold hfile
            · have hlt := h.inOrder.files.file_lt hs
              simp only at hfile
              omega
          same := h.inOrder.files.same
          records := by
            intro s hs
            by_cases heq : s.file = i
            · rw [heq, hw.content]
              exact hf
            · rw [hw.content_ne _ (h.inOrder.files.file_lt hs) heq]
              exact h.inOrder.files.records s hs
          loadable := h.inOrder.files.loadable
          base_lt := h.inOrder.files.base_lt
          named := by
            intro e he hlog
            rcases hw.names e he with hold | hnew
            · exact h.inOrder.files.named e hold hlog
            · rw [hnew, hload] at hlog
              cases hlog }
      active := by
        have hlt := h.inOrder.files.file_lt (active_mem_segments p)
        show AtEnd p.active (dir.content p.active.file)
        rw [hw.content_ne _ hlt (file_ne_of_not_loadable
          h.inOrder hw hload (active_mem_segments p) h.inOrder.unfrozen)]
        exact h.inOrder.active
      unfrozen := h.inOrder.unfrozen }

/-!
## What is read fits
-/

def FrozenFirst (p : Partition) : Prop :=
  p.segments.Pairwise (fun s t => t.frozen = true -> s.frozen = true)

instance (p : Partition) : Decidable (FrozenFirst p) := by
  unfold FrozenFirst
  infer_instance

def OwnFiles (p : Partition) : Prop :=
  p.segments.Pairwise
    (fun s t => s.frozen = true ∨ t.frozen = true -> s.path ≠ t.path)

instance (p : Partition) : Decidable (OwnFiles p) := by
  unfold OwnFiles
  infer_instance

theorem OwnFiles.path_ne (h : OwnFiles p) {s t : Segment} (hs : s ∈ p.segments)
    (ht : t ∈ p.segments) (hfrozen : s.frozen = true) (hne : s ≠ t) :
    s.path ≠ t.path := by
  rcases Disk.eq_or_rel_of_pairwise h hs ht with hsame | hrel | hrel
  · exact absurd hsame hne
  · exact hrel (Or.inl hfrozen)
  · exact (hrel (Or.inr hfrozen)).symm

theorem filter_append_filter_not {segments : List Segment}
    (h : segments.Pairwise (fun s t => t.frozen = true -> s.frozen = true)) :
    segments.filter (fun s => s.frozen) ++
      segments.filter (fun s => !s.frozen) = segments := by
  induction segments with
  | nil => rfl
  | cons s rest ih =>
  rcases List.pairwise_cons.mp h with ⟨hhead, htail⟩
  cases hs : s.frozen with
  | true =>
    have hrest := ih htail
    simp only [List.filter_cons, hs, if_true, Bool.not_true,
      Bool.false_eq_true, if_false, List.cons_append, hrest]
  | false =>
  have hnone : forall t, t ∈ rest -> t.frozen = false := by
    intro t ht
    cases hf : t.frozen with
    | false => rfl
    | true =>
    have hcontra := hhead t ht hf
    rw [hs] at hcontra
    cases hcontra
  have hempty : rest.filter (fun s => s.frozen) = [] := by
    apply List.filter_eq_nil_iff.mpr
    intro t ht
    rw [hnone t ht]
    exact Bool.false_ne_true
  have hall : rest.filter (fun s => !s.frozen) = rest := by
    apply List.filter_eq_self.mpr
    intro t ht
    rw [hnone t ht]
    rfl
  simp only [List.filter_cons, hs, Bool.false_eq_true, if_false,
    Bool.not_false, if_true, hempty, hall, List.nil_append]

theorem length_readRecords_le {f : Bytes} {recs : List Bytes}
    (hf : Prefixed f recs) (hshort : forall d, d ∈ recs -> d.length < 2 ^ 32)
    (hend : readAt f (endOfRecords recs) 4 = none) (k : Nat) {i : Nat}
    (hi : i ≤ recs.length) :
    (readRecords f k (endOfRecords (recs.take i))).length ≤
      recs.length - i := by
  induction k generalizing i with
  | zero => exact Nat.zero_le _
  | succ k ih =>
  unfold readRecords
  rcases Nat.eq_or_lt_of_le hi with hlast | hlt
  · rw [hlast, List.take_length, hend]
    exact Nat.zero_le _
  have hd : recs[i]? = some recs[i] := List.getElem?_eq_getElem hlt
  have hlen : ofBe (be 4 recs[i].length) = recs[i].length :=
    ofBe_be_of_lt (hshort _ (List.getElem_mem hlt))
  rw [hf i _ hd]
  simp only [hlen]
  split
  · exact Nat.zero_le _
  split
  · exact Nat.zero_le _
  · rw [← endOfRecords_take_succ hd, List.length_cons]
    have hrest := ih (i := i + 1) hlt
    omega

theorem MixedLog.records_le (h : MixedLog p front last) (hfilled : Filled p)
    (hown : OwnFiles p) {s : Segment} (hs : s ∈ frozenSegments p) :
    (readAllRecords (p.content s)).length ≤
      s.nextOff - s.baseOff := by
  rcases mem_frozenSegments.mp hs with ⟨hmem, hfrozen⟩
  have hold : s ∈ p.older := by
    rcases List.mem_append.mp hmem with hold | hlast
    · exact hold
    · rw [List.mem_singleton.mp hlast, h.inOrder.unfrozen] at hfrozen
      cases hfrozen
  cases hname : isLog s.path with
  | false =>
    rcases hfilled s hold hname with ⟨recs, hrecs⟩
    rcases hrecs.file with ⟨created, hbytes⟩
    have hle := length_readRecords_le
      (prefixed_segmentFile s.baseOff created recs []) hrecs.short
      (readAt_segmentFile_end (by decide))
      (segmentFile s.baseOff created recs []).length (Nat.zero_le _)
    rw [hrecs.nextOff, Nat.add_sub_cancel_left, content, hbytes]
    exact hle
  | true =>
  -- a segment without a chunk of its own would have the name of another
  have hserves : exists c, c ∈ front ++ [last] ∧ Serves p.dir s c := by
    have hnames : (logFiles p.dir).names = _ := h.log.dir.names
    have hmemName : (s.path, s.file) ∈ (logFiles p.dir).names :=
      List.mem_filter.mpr ⟨h.named s hold hname, hname⟩
    rw [hnames] at hmemName
    rcases List.mem_map.mp hmemName with ⟨c, hc, heq⟩
    rw [Prod.mk.injEq] at heq
    rcases h.log.exists_segment hc with ⟨t, ht, hserves⟩
    rw [segments_logPart p h.isLog_active] at ht
    have hsame : s = t := by
      by_contra hne
      exact hown.path_ne hmem (List.mem_of_mem_filter ht) hfrozen hne
        (heq.left.symm.trans hserves.path.symm)
    have hserves' : Serves p.dir t c := ⟨hserves.path, hserves.file,
      hserves.stands⟩
    rw [hsame]
    exact ⟨c, hc, hserves'⟩
  rcases hserves with ⟨c, _, hc⟩
  have hle := length_readRecords_le hc.stands.written.prefixed
    (fun _ hd => length_lt_of_end_lt hc.stands.written.padded.end_lt hd)
    hc.stands.written.readPrefix_end (p.dir.content c.file).length
    (Nat.zero_le _)
  rw [hc.stands.nextOff, hc.stands.baseOff, Nat.add_sub_cancel_left,
    content, hc.file]
  exact hle

def offsets (segments : List Segment) : Nat :=
  (segments.map (fun s => s.nextOff - s.baseOff)).sum

theorem offsets_le {segments : List Segment} {t : Segment} {b : Nat}
    (hordered : (segments ++ [t]).Pairwise (fun s t => s.nextOff ≤ t.baseOff))
    (hrange : forall s, s ∈ segments -> s.baseOff ≤ s.nextOff)
    (hfirst : forall s, s ∈ segments ++ [t] -> b ≤ s.baseOff) :
    b + offsets segments ≤ t.baseOff := by
  induction segments generalizing b with
  | nil => exact hfirst t (List.mem_singleton_self t)
  | cons s rest ih =>
  rcases List.pairwise_cons.mp hordered with ⟨hhead, htail⟩
  have hrest := ih htail (fun x hx => hrange x (List.mem_cons_of_mem _ hx))
    hhead
  have hs := hrange s (List.mem_cons_self ..)
  have hb := hfirst s (List.mem_cons_self ..)
  have hsum : offsets (s :: rest) =
      s.nextOff - s.baseOff + offsets rest := by
    rw [offsets, List.map_cons, List.sum_cons, offsets]
  omega

theorem firstBase_add_offsets_le (hfirst : FrozenFirst p)
    (hordered : p.segments.Pairwise (fun s t => s.nextOff ≤ t.baseOff))
    (hrange : forall s, s ∈ p.segments -> s.baseOff ≤ s.nextOff)
    (hsome : frozenSegments p ≠ []) {t : Segment}
    (ht : t ∈ p.segments) (hunfrozen : t.frozen = false) :
    firstBase (frozenSegments p) +
      offsets (frozenSegments p) ≤ t.baseOff := by
  have hsub : (frozenSegments p ++ [t]).Sublist p.segments := by
    have hsplit := filter_append_filter_not hfirst
    conv => rhs; rw [← hsplit]
    apply List.Sublist.append (List.Sublist.refl _)
    exact List.singleton_sublist.mpr (mem_unfrozen.mpr
      ⟨ht, hunfrozen⟩)
  have hsorted := hordered.sublist hsub
  have hbase : forall s, s ∈ frozenSegments p ++ [t] ->
      firstBase (frozenSegments p) ≤ s.baseOff := by
    cases hfrozen : frozenSegments p with
    | nil => exact absurd hfrozen hsome
    | cons first rest =>
    rw [hfrozen] at hsorted
    have hmem : first ∈ p.segments :=
      List.mem_of_mem_filter (p := fun s : Segment => s.frozen)
        (by
          show first ∈ frozenSegments p
          rw [hfrozen]
          exact List.mem_cons_self ..)
    intro s hs
    show first.baseOff ≤ s.baseOff
    rcases List.mem_cons.mp hs with hsame | hother
    · rw [hsame]
    · exact (hrange first hmem).trans
        ((List.pairwise_cons.mp hsorted).left s hother)
  apply offsets_le hsorted _ hbase
  exact fun s hs => hrange s (mem_frozenSegments.mp hs).left

end Partition

namespace LogCompactor

theorem length_collect_le (lc : LogCompactor) (id : Bytes) (c : Compacting)
    (data : Bytes) :
    (lc.collect id c data).keyless.length +
      (lc.collect id c data).latest.length ≤
        c.keyless.length + c.latest.length + 1 := by
  unfold collect
  cases lc.decrypt id data with
  | none => exact Nat.le_succ _
  | some plain =>
  cases henv : Message.unmarshal plain with
  | error e =>
    simp only [henv]
    exact Nat.le_succ _
  | ok env =>
  simp only [henv]
  split
  · simp only [List.length_append, List.length_singleton]
    omega
  split
  · exact Nat.le_succ _
  · have hle := length_setEntry_le env.routingKey plain c.latest
    simp only
    omega

theorem length_foldl_collect_le (lc : LogCompactor) (id : Bytes)
    (recs : List Bytes) (c : Compacting) :
    (recs.foldl (lc.collect id) c).keyless.length +
      (recs.foldl (lc.collect id) c).latest.length ≤
        c.keyless.length + c.latest.length + recs.length := by
  induction recs generalizing c with
  | nil => exact Nat.le_refl _
  | cons d recs ih =>
  have hone := length_collect_le lc id c d
  have hrest := ih (lc.collect id c d)
  rw [List.foldl_cons, List.length_cons]
  omega

theorem collected_collectFrom {lc : LogCompactor} (hdec : lc.ShortDecrypt)
    (p : Partition) (frozen : List Segment) :
    Collected (lc.collectFrom p frozen) := by
  apply collected_empty.foldl hdec
  intro d hd
  rcases List.mem_flatMap.mp hd with ⟨s, _, hread⟩
  exact length_readRecords hread

end LogCompactor

namespace Partition

variable {p : Partition} {front : List Chunk} {last : Chunk}

theorem MixedLog.collected_le (h : MixedLog p front last) (hfilled : Filled p)
    (hown : OwnFiles p) (lc : LogCompactor) {frozen : List Segment}
    (hfrozen : forall s, s ∈ frozen -> s ∈ frozenSegments p) :
    (lc.collectFrom p frozen).keyless.length +
      (lc.collectFrom p frozen).latest.length ≤ offsets frozen := by
  have hread : (frozen.flatMap (fun s =>
      readAllRecords (p.content s))).length ≤ offsets frozen := by
    rw [List.length_flatMap, offsets]
    apply List.sum_le_sum
    intro s hs
    exact h.records_le hfilled hown (hfrozen s hs)
  have hle := length_foldl_collect_le lc (segID p)
    (frozen.flatMap (fun s => readAllRecords (p.content s)))
    { latest := [], keyless := [], totalRead := 0, keysExceeded := false }
  simp only [List.length_nil] at hle
  exact hle.trans (by omega)

/-!
## Opening the compacted file
-/

variable {s : Segment}

theorem exists_compacted {dir : Disk} (hd : dir.Proper) {name : List Char}
    {base created : Nat} {recs : List Bytes}
    (hfile : forall i, (name, i) ∈ dir.names ->
      dir.content i = segmentFile base created recs [])
    (hshort : forall d, d ∈ recs -> d.length < 2 ^ 32)
    (hnext : base + recs.length < 2 ^ 64) {maxSize now : Nat} {dir' : Disk}
    (hopen : openFile dir name base maxSize now = .ok (dir', s)) :
    exists recs', Compacted dir' s recs' ∧ s.baseOff = base ∧
      recs'.length ≤ recs.length := by
  have hbase : base < 2 ^ 64 := by omega
  unfold openFile at hopen
  cases hlook : dir.lookup name with
  | some i =>
    have hmem := Disk.mem_names_of_lookup hlook
    have hscan := @scanRecords_whole base created recs [] hshort (by decide)
    simp only [Disk.openCreate_of_lookup_some hlook, hfile i hmem,
      openSegment_segmentFile name i base maxSize now hbase] at hopen
    cases hopen
    refine ⟨recs, ?_, rfl, Nat.le_refl _⟩
    unfold Segment.rebuildIndex
    simp only [hscan]
    exact
      { file := ⟨created,
          Disk.content_setContent (hd.files_lt _ hmem) _⟩
        short := hshort
        nextOff := Nat.mod_eq_of_lt hnext
        nextOff_lt := Nat.mod_lt _ (by decide)
        size := rfl
        index := rfl }
  | none =>
  have hcreate : dir.openCreate name =
      (dir.addFile name [], dir.files.length) :=
    Disk.openCreate_of_lookup_none hlook
  simp only [hcreate, Disk.content_addFile] at hopen
  cases hopen
  refine ⟨[], ?_, rfl, Nat.zero_le _⟩
  exact
    { file := by
        refine ⟨now, ?_⟩
        rw [Disk.setContent_addFile, Disk.content_addFile]
        rfl
      short := by
        intro d hd
        cases hd
      nextOff := rfl
      nextOff_lt := hbase
      size := rfl
      index := rfl }

/-!
## Taking the frozen segments away
-/

def frozenLog (p : Partition) : List Segment :=
  p.logPart.older.filter (fun s => s.frozen)

theorem mem_frozenLog :
    s ∈ frozenLog p <-> s ∈ p.older ∧ isLog s.path = true ∧
      s.frozen = true := by
  rw [frozenLog, List.mem_filter, logPart, List.mem_filter, and_assoc]

def unfrozenLog (p : Partition) : Partition :=
  { p.logPart with
    dir := removeFiles p.logPart.dir (frozenLog p)
    older := p.logPart.older.filter (fun s => !s.frozen) }

theorem FrozenFirst.trimmed (h : FrozenFirst p) :
    Trimmed p.logPart (frozenLog p)
      (p.logPart.older.filter (fun s => !s.frozen)) (unfrozenLog p) where
  split := by
    have hsub : p.logPart.older.Sublist p.segments :=
      List.filter_sublist.trans (List.sublist_append_left _ _)
    exact (filter_append_filter_not (h.sublist hsub)).symm
  older := rfl
  dir := rfl
  active := rfl
  maxSegSize := rfl

theorem OwnFiles.path_ne_frozenLog (h : OwnFiles p)
    (hactive : p.active.frozen = false) (hs : s ∈ frozenLog p) {t : Segment}
    (ht : t ∈ (unfrozenLog p).segments) : t.path ≠ s.path := by
  rcases mem_frozenLog.mp hs with ⟨hold, _, hfrozen⟩
  have hstays : t ∈ p.segments ∧ t.frozen = false := by
    rcases List.mem_append.mp ht with hrest | hlast
    · rcases List.mem_filter.mp hrest with ⟨hmem, hfree⟩
      refine ⟨older_mem_segments (List.mem_of_mem_filter hmem), ?_⟩
      simpa using hfree
    · rw [List.mem_singleton.mp hlast]
      exact ⟨active_mem_segments p, hactive⟩
  apply (h.path_ne (older_mem_segments hold) hstays.left hfrozen _).symm
  intro heq
  rw [heq, hstays.right] at hfrozen
  cases hfrozen

theorem names_removeAll_frozen (hactive : p.active.frozen = false) :
    (logFiles (removeAll p.dir
      (frozenSegments p))).names =
        (unfrozenLog p).dir.names := by
  have hall : removeAll p.dir (frozenSegments p) =
      removeFiles p.dir (frozenSegments p) := rfl
  rw [hall, unfrozenLog, names_removeFiles]
  show (removeFiles p.dir _).names.filter _ = (p.dir.names.filter _).filter _
  rw [names_removeFiles, List.filter_filter, List.filter_filter]
  apply List.filter_congr
  intro e _
  cases hlog : isLog e.1 with
  | false => simp only [Bool.false_and, Bool.and_false]
  | true =>
  simp only [Bool.true_and, Bool.and_true]
  apply Bool.eq_iff_iff.mpr
  simp only [List.all_eq_true, decide_eq_true_eq]
  constructor
  · intro hfree s hs
    rcases mem_frozenLog.mp hs with ⟨hold, _, hfrozen⟩
    exact hfree s (mem_frozenSegments.mpr
      ⟨older_mem_segments hold, hfrozen⟩)
  intro hfree s hs heq
  rcases mem_frozenSegments.mp hs with ⟨hmem, hfrozen⟩
  rcases List.mem_append.mp hmem with hold | hlast
  · rw [heq] at hlog
    exact hfree s (mem_frozenLog.mpr ⟨hold, hlog, hfrozen⟩) heq
  · rw [List.mem_singleton.mp hlast, hactive] at hfrozen
    cases hfrozen

theorem names_openFile {dir dir' : Disk} {name : List Char}
    {baseOffset maxSize now : Nat}
    (hopen : openFile dir name baseOffset maxSize now = .ok (dir', s))
    (hname : isLog name = false) :
    (logFiles dir').names = (logFiles dir).names := by
  unfold openFile at hopen
  simp only at hopen
  split at hopen
  · cases hopen
  · cases hopen
    exact @names_openCreate dir name hname

structure Taken (p : Partition) (s : Segment) (q : Partition) : Prop where
  result : q =
    { p with
      dir := q.dir
      older := s.freeze :: p.older.filter (fun s => !s.frozen)
      logStart := s.freeze.baseOff }
  names : (logFiles q.dir).names = (unfrozenLog p).dir.names
  names_of : forall e, e ∈ p.dir.names ->
    (forall s, s ∈ frozenSegments p -> e.1 ≠ s.path) ->
      e ∈ q.dir.names
  length_le : p.dir.files.length ≤ q.dir.files.length
  content : forall i, i < p.dir.files.length ->
    q.dir.content i = p.dir.content i
  inOrder : q.InOrder
  isLog : isLog s.path = false

variable {q : Partition}

theorem Taken.segments (h : Taken p s q) (hactive : p.active.frozen = false) :
    q.segments = s.freeze :: p.segments.filter (fun s => !s.frozen) := by
  rw [h.result, Partition.segments, Partition.segments, List.filter_append]
  simp [hactive]

theorem Taken.older (h : Taken p s q) :
    q.older = s.freeze :: p.older.filter (fun s => !s.frozen) := by
  rw [h.result]

theorem Taken.openLog (h : Taken p s q) (hp : MixedLog p front last)
    (hfirst : FrozenFirst p) (hown : OwnFiles p) :
    OpenLog q.logPart (chunksLeft (frozenLog p) front) last := by
  have hleft := hp.log.trimmed hfirst.trimmed (fun t ht u hu =>
    hown.path_ne_frozenLog hp.inOrder.unfrozen ht hu)
  have hfiles : (unfrozenLog p).dir.files = p.dir.files :=
    files_removeFiles _ _
  have hset : OpenLog { unfrozenLog p with dir := logFiles q.dir }
      (chunksLeft (frozenLog p) front) last := by
    apply hleft.setDir h.names
    · rw [hfiles]
      exact h.length_le
    intro c hc
    have hlt : c.file < p.dir.files.length := by
      rw [← hfiles]
      exact hleft.dir.file_lt c hc
    have hsame : (unfrozenLog p).dir.content c.file =
        p.dir.content c.file := content_removeFiles _ _ _
    rw [hsame]
    exact h.content _ hlt
  have hsame : q.logPart.older =
      p.logPart.older.filter (fun s => !s.frozen) := by
    have hnew : Partition.isLog s.freeze.path = false := h.isLog
    show q.older.filter _ = (p.older.filter _).filter _
    rw [h.older, List.filter_cons, hnew, List.filter_comm]
    rfl
  have hlog : q.logPart = { unfrozenLog p with
      dir := logFiles q.dir
      logStart := s.freeze.baseOff } := by
    rw [show q.logPart = { q with
      dir := logFiles q.dir
      older := q.logPart.older } from rfl, hsame, h.result]
    rfl
  rw [hlog]
  exact
    { dir := hset.dir
      ordered := hset.ordered
      segment := hset.segment
      chunk := hset.chunk
      active := hset.active
      unfrozen := hset.unfrozen
      maxSize := hset.maxSize }

theorem Taken.at (h : Taken p s q) (hp : MixedLog p front last)
    (hown : OwnFiles p) {offset : Nat} {data : Bytes}
    (hat : At (logFiles p.dir) (front ++ [last]) offset data)
    (houtside : forall t, t ∈ frozenSegments p ->
      ¬ (t.baseOff ≤ offset ∧ offset < t.nextOff)) :
    At (logFiles q.dir) (chunksLeft (frozenLog p) front ++ [last]) offset
      data := by
  rcases hat with ⟨c, hc, i, hoff, hd, hinside⟩
  have hlt : c.file < p.dir.files.length := hp.log.dir.file_lt c hc
  have hi := (List.getElem?_eq_some_iff.mp hd).1
  refine ⟨c, ?_, i, hoff, hd, ?_⟩
  · rcases List.mem_append.mp hc with hold | hlast
    · apply List.mem_append_left
      rcases hp.log.chunk c hold with ⟨t, ht, hserves⟩
      refine mem_chunksLeft.mpr ⟨hold, ?_⟩
      intro g hg hname
      rcases mem_frozenLog.mp hg with ⟨hmem, _, hfrozen⟩
      have hsame : g = t := by
        by_contra hne
        exact hown.path_ne (older_mem_segments hmem)
          (older_mem_segments (List.mem_of_mem_filter ht)) hfrozen hne
          (hname.symm.trans hserves.path.symm)
      apply houtside g (mem_frozenSegments.mpr
        ⟨older_mem_segments hmem, hfrozen⟩)
      rw [hsame, hserves.stands.baseOff, hserves.stands.nextOff]
      omega
    · exact List.mem_append_right _ hlast
  · show _ ≤ (q.dir.content c.file).length
    rw [h.content _ hlt]
    exact hinside

theorem MixedLog.taken (hp : MixedLog p front last) (h : Taken p s q)
    (hfirst : FrozenFirst p) (hown : OwnFiles p)
    (hsome : frozenSegments p ≠ [])
    (hbase : s.baseOff = firstBase (frozenSegments p))
    (hrange : s.baseOff ≤ s.nextOff)
    (hfits : s.nextOff ≤ s.baseOff + offsets (frozenSegments p)) :
    MixedLog q (chunksLeft (frozenLog p) front) last where
  log := h.openLog hp hfirst hown
  inOrder := h.inOrder
  ordered := by
    rw [h.segments hp.inOrder.unfrozen]
    refine List.pairwise_cons.mpr ⟨?_, hp.ordered.filter _⟩
    intro t ht
    rcases mem_unfrozen.mp ht with ⟨hmem, hfree⟩
    have hle := firstBase_add_offsets_le hfirst hp.ordered hp.range hsome hmem
      hfree
    show s.nextOff ≤ t.baseOff
    omega
  range := by
    rw [h.segments hp.inOrder.unfrozen]
    intro t ht
    rcases List.mem_cons.mp ht with hnew | hold
    · rw [hnew]
      exact hrange
    · exact hp.range t (mem_unfrozen.mp hold).left
  named := by
    rw [h.older]
    intro t ht hlog
    rcases List.mem_cons.mp ht with hnew | hold
    · have hnot : isLog t.path = false := by
        rw [hnew]
        exact h.isLog
      rw [hnot] at hlog
      cases hlog
    have hmem := List.mem_of_mem_filter hold
    have hfree : t.frozen = false := by
      simpa using (List.mem_filter.mp hold).right
    apply h.names_of _ (hp.named t hmem hlog)
    intro g hg hname
    rcases mem_frozenSegments.mp hg with ⟨hg', hfrozen⟩
    apply hown.path_ne hg' (older_mem_segments hmem) hfrozen _ hname.symm
    intro heq
    rw [heq, hfree] at hfrozen
    cases hfrozen

end Partition

end Storage
end ChimeraMQ
