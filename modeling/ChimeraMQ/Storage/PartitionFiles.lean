import ChimeraMQ.Storage.Partition
import ChimeraMQ.Storage.RecordFile

/-!
# The files of a partition

What connects the open segments of a partition with the files of its directory,
whatever records there are in them.
-/

namespace ChimeraMQ
namespace Storage

open Foundation

namespace Partition

/--
The segments stand for files of records, a file is open under one name only,
and every file that would be loaded is open.
-/
structure FilesOf (dir : Disk) (segments : List Segment) : Prop where
  proper : dir.Proper
  owned : forall s, s ∈ segments -> forall e, e ∈ dir.names ->
    s.file = e.2 -> s.path = e.1
  same : forall s, s ∈ segments -> forall t, t ∈ segments ->
    s.file = t.file -> s.path = t.path
  records : forall s, s ∈ segments -> RecordFile (dir.content s.file)
  loadable : forall s, s ∈ segments -> s.frozen = false ->
    (loadable s.path).isSome
  base_lt : forall s, s ∈ segments -> s.baseOff < 2 ^ 64
  named : forall e, e ∈ dir.names -> (Partition.loadable e.1).isSome ->
    exists s, s ∈ segments ∧ s.path = e.1 ∧ s.file = e.2

structure InOrder (p : Partition) : Prop where
  files : FilesOf p.dir p.segments
  active : AtEnd p.active (p.content p.active)
  unfrozen : p.active.frozen = false

def Holds (p : Partition) (data : Bytes) : Prop :=
  exists s, s ∈ p.segments ∧ data ∈ fileRecords (p.content s)

instance (p : Partition) (data : Bytes) : Decidable (p.Holds data) :=
  inferInstanceAs (Decidable (exists s, s ∈ p.segments ∧ _))

theorem takeWhile_isDigit_zeroPadded {w n : Nat} {rest : List Char}
    (hrest : rest.takeWhile Char.isDigit = []) :
    (zeroPadded w n ++ rest).takeWhile Char.isDigit = zeroPadded w n := by
  rw [List.takeWhile_append_of_pos, hrest, List.append_nil]
  intro c hc
  exact isDigit_of_mem_zeroPadded hc

theorem loadable_segmentName {b : Nat} (hb : b < 2 ^ 64) :
    loadable (segmentName b) = some b := by
  have hlength : (segmentName b).length = 24 := by
    rw [segmentName, List.length_append,
      length_zeroPadded (by omega) (by decide)]
    rfl
  have hsuffix : logSuffix.isSuffixOf (segmentName b) :=
    List.isSuffixOf_iff_suffix.mpr (List.suffix_append ..)
  have hdigits : (segmentName b).takeWhile Char.isDigit = zeroPadded 20 b :=
    takeWhile_isDigit_zeroPadded rfl
  have hrest : logSuffix.isPrefixOf
      ((segmentName b).drop (zeroPadded 20 b).length) := by
    rw [segmentName, List.drop_left]
    rfl
  unfold loadable
  rw [if_neg (by simp [hlength, hsuffix])]
  unfold scanBaseOffset
  simp only [hdigits, parseDecimal_zeroPadded hb, hrest, if_true]

/-!
## Opening a file
-/

structure Opened (dir : Disk) (name : List Char) (dir' : Disk) (s : Segment) :
    Prop where
  proper : dir'.Proper
  names : forall e, e ∈ dir'.names <-> e ∈ dir.names ∨ e = (name, s.file)
  content : forall i, i < dir.files.length ->
    dir'.content i = dir.content i
  fresh : (name, s.file) ∈ dir.names ∧
      dir'.content s.file = dir.content s.file ∨
    s.file = dir.files.length ∧ fileRecords (dir'.content s.file) = []
  record : RecordFile (dir'.content s.file)
  atEnd : AtEnd s (dir'.content s.file)
  path : s.path = name

variable {dir : Disk} {name : List Char}

theorem openFile_existing {i : Nat} (hd : dir.Proper)
    (hmem : (name, i) ∈ dir.names) (hf : RecordFile (dir.content i))
    (baseOffset maxSize now : Nat) :
    exists s, openFile dir name baseOffset maxSize now = .ok (dir, s) ∧
      AtEnd s (dir.content i) ∧ s.path = name ∧ s.file = i ∧
      s.frozen = false := by
  rcases hf.openSegment name i baseOffset maxSize now with
    ⟨s, hopen, hend, hpath, hfile, hfrozen⟩
  refine ⟨s, ?_, hend, hpath, hfile, hfrozen⟩
  unfold openFile
  simp only [Disk.openCreate_of_lookup_some (hd.lookup_eq_some hmem), hopen,
    Disk.setContent_content]

theorem openFile_new (hd : dir.Proper) (hnone : dir.lookup name = none)
    {baseOffset : Nat} (maxSize now : Nat) (hbase : baseOffset < 2 ^ 64) :
    exists s, openFile dir name baseOffset maxSize now =
        .ok (dir.addFile name (segmentFile baseOffset now [] []), s) ∧
      Opened dir name (dir.addFile name (segmentFile baseOffset now [] [])) s ∧
      s.frozen = false := by
  rcases openSegment_nil name dir.files.length maxSize now hbase with
    ⟨s, hopen, hend, hpath, hfile, hfrozen⟩
  refine ⟨s, ?_, ?_, hfrozen⟩
  · have hcreate : dir.openCreate name =
        (dir.addFile name [], dir.files.length) :=
      Disk.openCreate_of_lookup_none hnone
    unfold openFile
    simp only [hcreate, Disk.content_addFile, hopen, Disk.setContent_addFile]
  have hcontent : (dir.addFile name
      (segmentFile baseOffset now [] [])).content s.file =
        segmentFile baseOffset now [] [] := by
    rw [hfile, Disk.content_addFile]
  exact
    { proper := hd.addFile hnone _
      names := by
        intro e
        rw [hfile]
        simp [Disk.addFile]
      content := fun i hi => Disk.content_addFile_of_lt hi name _
      fresh := by
        rw [hcontent]
        exact Or.inr ⟨hfile, fileRecords_nil baseOffset now⟩
      record := by
        rw [hcontent]
        exact recordFile_nil hbase
      atEnd := by
        rw [hcontent]
        exact hend
      path := hpath }

theorem exists_openFile (hd : dir.Proper)
    (hf : forall i, (name, i) ∈ dir.names -> RecordFile (dir.content i))
    {baseOffset : Nat} (maxSize now : Nat) (hbase : baseOffset < 2 ^ 64) :
    exists dir' s, openFile dir name baseOffset maxSize now =
        .ok (dir', s) ∧ Opened dir name dir' s ∧ s.frozen = false := by
  cases hlook : dir.lookup name with
  | some i =>
    have hmem := Disk.mem_names_of_lookup hlook
    rcases openFile_existing hd hmem (hf i hmem) baseOffset maxSize now with
      ⟨s, hopen, hend, hpath, hfile, hfrozen⟩
    subst hfile
    refine ⟨dir, s, hopen, ?_, hfrozen⟩
    exact
      { proper := hd
        names := by
          intro e
          constructor
          · exact Or.inl
          rintro (hold | hnew)
          · exact hold
          · rw [hnew]
            exact hmem
        content := fun _ _ => rfl
        fresh := Or.inl ⟨hmem, rfl⟩
        record := hf _ hmem
        atEnd := hend
        path := hpath }
  | none =>
  rcases openFile_new hd hlook maxSize now hbase with
    ⟨s, hopen, hopened, hfrozen⟩
  exact ⟨_, s, hopen, hopened, hfrozen⟩

/-!
## Segments and files
-/

variable {segments : List Segment}

theorem FilesOf.file_lt (h : FilesOf dir segments) {s : Segment}
    (hs : s ∈ segments) :
    s.file < dir.files.length :=
  Disk.lt_of_content_ne_nil (h.records s hs).ne_nil

theorem FilesOf.congr {segments' : List Segment} (h : FilesOf dir segments)
    (hfrom : forall t, t ∈ segments' -> exists s, s ∈ segments ∧
      t.path = s.path ∧ t.file = s.file ∧ t.baseOff = s.baseOff ∧
      (t.frozen = false -> s.frozen = false))
    (hto : forall s, s ∈ segments -> exists t, t ∈ segments' ∧
      t.path = s.path ∧ t.file = s.file) : FilesOf dir segments' where
  proper := h.proper
  owned := by
    intro t ht e he hfile
    rcases hfrom t ht with ⟨s, hs, hpath, hsame, _⟩
    rw [hpath]
    exact h.owned s hs e he (hsame.symm.trans hfile)
  same := by
    intro t ht t' ht' hfile
    rcases hfrom t ht with ⟨s, hs, hpath, hsame, _⟩
    rcases hfrom t' ht' with ⟨s', hs', hpath', hsame', _⟩
    rw [hpath, hpath']
    exact h.same s hs s' hs' (by rw [← hsame, ← hsame', hfile])
  records := by
    intro t ht
    rcases hfrom t ht with ⟨s, hs, _, hsame, _⟩
    rw [hsame]
    exact h.records s hs
  loadable := by
    intro t ht hfrozen
    rcases hfrom t ht with ⟨s, hs, hpath, _, _, hunfrozen⟩
    rw [hpath]
    exact h.loadable s hs (hunfrozen hfrozen)
  base_lt := by
    intro t ht
    rcases hfrom t ht with ⟨s, hs, _, _, hbase, _⟩
    rw [hbase]
    exact h.base_lt s hs
  named := by
    intro e he hload
    rcases h.named e he hload with ⟨s, hs, hpath, hfile⟩
    rcases hto s hs with ⟨t, ht, htpath, htfile⟩
    exact ⟨t, ht, htpath.trans hpath, htfile.trans hfile⟩

theorem FilesOf.setContent (h : FilesOf dir segments) (i : Nat) {f : Bytes}
    (hf : RecordFile f) :
    FilesOf (dir.setContent i f) segments :=
  { h with
    proper := h.proper.setContent i f
    records := by
      intro s hs
      by_cases heq : i = s.file
      · rw [heq, Disk.content_setContent (h.file_lt hs)]
        exact hf
      · rw [Disk.content_setContent_ne _ heq]
        exact h.records s hs }

theorem FilesOf.concat {dir' : Disk} {s : Segment} (h : FilesOf dir segments)
    (hopen : Opened dir name dir' s)
    (hload : s.frozen = false -> (Partition.loadable name).isSome) :
    FilesOf dir' (segments ++ [s]) := by
  -- whoever has the file of the new segment open has it under its name
  have hshared : forall t, t ∈ segments -> t.file = s.file ->
      t.path = s.path := by
    intro t ht hfile
    rw [hopen.path]
    rcases hopen.fresh with ⟨hold, _⟩ | ⟨hnew, _⟩
    · exact h.owned t ht _ hold hfile
    · have hlt := h.file_lt ht
      omega
  exact
    { proper := hopen.proper
      owned := by
        intro t ht e he hfile
        rcases List.mem_append.mp ht with hold | hnew
        · rcases (hopen.names e).mp he with heold | henew
          · exact h.owned t hold e heold hfile
          · rw [henew] at hfile ⊢
            rw [hshared t hold hfile, hopen.path]
        rw [List.mem_singleton.mp hnew] at hfile ⊢
        have hmem := (hopen.names (name, s.file)).mpr (Or.inr rfl)
        rw [hopen.path]
        exact congrArg Prod.fst (hopen.proper.eq_of_file_eq hmem he hfile)
      same := by
        intro t ht t' ht' hfile
        rcases List.mem_append.mp ht with hold | hnew
        · rcases List.mem_append.mp ht' with hold' | hnew'
          · exact h.same t hold t' hold' hfile
          · rw [List.mem_singleton.mp hnew'] at hfile ⊢
            exact hshared t hold hfile
        rw [List.mem_singleton.mp hnew] at hfile ⊢
        rcases List.mem_append.mp ht' with hold' | hnew'
        · exact (hshared t' hold' hfile.symm).symm
        · rw [List.mem_singleton.mp hnew']
      records := by
        intro t ht
        rcases List.mem_append.mp ht with hold | hnew
        · rw [hopen.content _ (h.file_lt hold)]
          exact h.records t hold
        · rw [List.mem_singleton.mp hnew]
          exact hopen.record
      loadable := by
        intro t ht hfrozen
        rcases List.mem_append.mp ht with hold | hnew
        · exact h.loadable t hold hfrozen
        · rw [List.mem_singleton.mp hnew] at hfrozen ⊢
          rw [hopen.path]
          exact hload hfrozen
      base_lt := by
        intro t ht
        rcases List.mem_append.mp ht with hold | hnew
        · exact h.base_lt t hold
        · rw [List.mem_singleton.mp hnew]
          exact hopen.atEnd.baseOff_lt
      named := by
        intro e he hname
        rcases (hopen.names e).mp he with hold | hnew
        · rcases h.named e hold hname with ⟨t, ht, hpath, hfile⟩
          exact ⟨t, List.mem_append_left _ ht, hpath, hfile⟩
        · refine ⟨s, List.mem_append_right _ (List.mem_singleton_self s), ?_⟩
          rw [hnew]
          exact ⟨hopen.path, rfl⟩ }

/-!
## Appending
-/

theorem InOrder.appendActive {p p' : Partition} {data : Bytes} {offset : Nat}
    (h : p.InOrder) (hshort : data.length < 2 ^ 32)
    (happend : p.appendActive data = .ok (p', offset)) : p'.InOrder := by
  unfold Partition.appendActive at happend
  cases hone : p.active.append (p.content p.active) data with
  | error e =>
    rw [hone] at happend
    cases happend
  | ok r =>
  rcases r with ⟨s, f, position⟩
  rw [hone] at happend
  cases happend
  have hactive : p.active ∈ p.segments :=
    List.mem_append_right _ (List.mem_singleton_self _)
  rcases (h.files.records _ hactive).append h.active hshort hone with
    ⟨hrecord, hend, _, hpath, hfile, hbase, hfrozen⟩
  have hlt := h.files.file_lt hactive
  rw [← hfile] at hlt
  refine
    { files := ?_
      active := ?_
      unfrozen := hfrozen.trans h.unfrozen }
  · apply (h.files.setContent s.file hrecord).congr
    · intro t ht
      rcases List.mem_append.mp ht with hold | hnew
      · exact ⟨t, List.mem_append_left _ hold, rfl, rfl, rfl, id⟩
      · rw [List.mem_singleton.mp hnew]
        exact ⟨p.active, hactive, hpath, hfile, hbase,
          fun _ => h.unfrozen⟩
    intro t ht
    rcases List.mem_append.mp ht with hold | hnew
    · exact ⟨t, List.mem_append_left _ hold, rfl, rfl⟩
    · rw [List.mem_singleton.mp hnew]
      exact ⟨s, List.mem_append_right _ (List.mem_singleton_self _),
        hpath, hfile⟩
  · change AtEnd s ((p.dir.setContent s.file f).content s.file)
    rw [Disk.content_setContent hlt]
    exact hend

theorem InOrder.createNewSegment {p : Partition} (h : p.InOrder) (now : Nat) :
    exists p', { p with active := p.active.freeze }.createNewSegment
        p.active.nextOff now = .ok p' ∧ p'.InOrder := by
  have hbase := h.active.nextOff_lt
  have hload := loadable_segmentName hbase
  have hfiles : FilesOf p.dir (p.older ++ [p.active.freeze]) := by
    apply h.files.congr
    · intro t ht
      rcases List.mem_append.mp ht with hold | hnew
      · exact ⟨t, List.mem_append_left _ hold, rfl, rfl, rfl, id⟩
      · rw [List.mem_singleton.mp hnew]
        exact ⟨p.active, List.mem_append_right _ (List.mem_singleton_self _),
          rfl, rfl, rfl, fun _ => h.unfrozen⟩
    intro t ht
    rcases List.mem_append.mp ht with hold | hnew
    · exact ⟨t, List.mem_append_left _ hold, rfl, rfl⟩
    · rw [List.mem_singleton.mp hnew]
      exact ⟨p.active.freeze,
        List.mem_append_right _ (List.mem_singleton_self _), rfl, rfl⟩
  have hrecord : forall i, (segmentName p.active.nextOff, i) ∈ p.dir.names ->
      RecordFile (p.dir.content i) := by
    intro i hi
    rcases hfiles.named _ hi (by rw [hload]; rfl) with ⟨s, hs, _, hfile⟩
    have hrec := hfiles.records s hs
    rw [hfile] at hrec
    exact hrec
  rcases exists_openFile hfiles.proper hrecord p.maxSegSize now hbase with
    ⟨dir', s, hopen, hopened, hfrozen⟩
  refine ⟨{ p with
    dir := dir'
    older := p.older ++ [p.active.freeze]
    active := s }, ?_, ?_⟩
  · unfold Partition.createNewSegment
    simp only [hopen, segments]
  exact
    { files := hfiles.concat hopened (fun _ => by rw [hload]; rfl)
      active := hopened.atEnd
      unfrozen := hfrozen }

theorem InOrder.append {p : Partition} {data : Bytes} (h : p.InOrder)
    (hshort : data.length < 2 ^ 32) (now : Nat) :
    (p.append data now).1.InOrder := by
  unfold Partition.append
  cases hone : p.appendActive data with
  | ok r =>
    rcases r with ⟨p', offset⟩
    exact h.appendActive hshort hone
  | error e =>
  cases e with
  | segmentFull =>
    rcases h.createNewSegment now with ⟨p', hnew, h'⟩
    change { p with active := p.active.freeze }.createNewSegment
      p.active.freeze.nextOff now = .ok p' at hnew
    simp only [hnew]
    cases htwo : p'.appendActive data with
    | ok r =>
      rcases r with ⟨p'', offset⟩
      exact h'.appendActive hshort htwo
    | error e => exact h'
  | _ => exact h

/-!
## Opening again
-/

/-- All files that a directory would load are files of records. -/
structure Loadable (dir : Disk) : Prop where
  proper : dir.Proper
  records : forall e, e ∈ dir.names -> (Partition.loadable e.1).isSome ->
    RecordFile (dir.content e.2)

theorem FilesOf.toLoadable (h : FilesOf dir segments) : Loadable dir where
  proper := h.proper
  records := by
    intro e he hload
    rcases h.named e he hload with ⟨s, hs, _, hfile⟩
    rw [← hfile]
    exact h.records s hs

structure Loaded (dir : Disk) (s : Segment) : Prop where
  mem : (s.path, s.file) ∈ dir.names
  loadable : (Partition.loadable s.path).isSome
  atEnd : AtEnd s (dir.content s.file)
  unfrozen : s.frozen = false

theorem Loadable.loadEntries (h : Loadable dir) (maxSegSize now : Nat)
    {entries : List (List Char × Nat)}
    (hsub : forall e, e ∈ entries -> e ∈ dir.names) :
    exists segments, loadEntries maxSegSize now entries dir =
        .ok (dir, segments) ∧
      (forall s, s ∈ segments -> Loaded dir s) ∧
      forall e, e ∈ entries -> (Partition.loadable e.1).isSome ->
        exists s, s ∈ segments ∧ s.path = e.1 ∧ s.file = e.2 := by
  induction entries with
  | nil =>
    refine ⟨[], rfl, ?_, ?_⟩
    · intro s hs
      cases hs
    · intro e he
      cases he
  | cons e rest ih =>
  rcases e with ⟨name, i⟩
  rcases ih (fun x hx => hsub x (List.mem_cons_of_mem _ hx)) with
    ⟨segments, hrest, hloaded, hall⟩
  unfold Partition.loadEntries
  cases hname : Partition.loadable name with
  | none =>
    refine ⟨segments, hrest, hloaded, ?_⟩
    intro x hx hload
    rcases List.mem_cons.mp hx with hfirst | hother
    · rw [hfirst, hname] at hload
      cases hload
    · exact hall x hother hload
  | some baseOff =>
  have hmem := hsub _ (List.mem_cons_self ..)
  have hload : (Partition.loadable name).isSome := by
    rw [hname]
    rfl
  rcases openFile_existing h.proper hmem (h.records _ hmem hload)
    baseOff maxSegSize now with
    ⟨s, hopen, hend, hpath, hfile, hfrozen⟩
  subst hpath
  subst hfile
  refine ⟨s :: segments, ?_, ?_, ?_⟩
  · simp only [hopen, hrest]
  · intro t ht
    rcases List.mem_cons.mp ht with hfirst | hother
    · subst hfirst
      exact
        { mem := hmem
          loadable := hload
          atEnd := hend
          unfrozen := hfrozen }
    · exact hloaded t hother
  · intro x hx hxload
    rcases List.mem_cons.mp hx with hfirst | hother
    · rw [hfirst]
      exact ⟨s, List.mem_cons_self .., rfl, rfl⟩
    · rcases hall x hother hxload with ⟨t, ht, hrest⟩
      exact ⟨t, List.mem_cons_of_mem _ ht, hrest⟩

theorem Loadable.filesOf (h : Loadable dir)
    (hloaded : forall s, s ∈ segments -> Loaded dir s)
    (hall : forall e, e ∈ dir.names -> (Partition.loadable e.1).isSome ->
      exists s, s ∈ segments ∧ s.path = e.1 ∧ s.file = e.2) :
    FilesOf dir segments where
  proper := h.proper
  owned := by
    intro s hs e he hfile
    exact congrArg Prod.fst
      (h.proper.eq_of_file_eq (hloaded s hs).mem he hfile)
  same := by
    intro s hs t ht hfile
    exact congrArg Prod.fst
      (h.proper.eq_of_file_eq (hloaded s hs).mem (hloaded t ht).mem hfile)
  records := fun s hs =>
    h.records _ (hloaded s hs).mem (hloaded s hs).loadable
  loadable := fun s hs _ => (hloaded s hs).loadable
  base_lt := fun s hs => (hloaded s hs).atEnd.baseOff_lt
  named := hall

structure Reopened (dir : Disk) (q : Partition) : Prop where
  inOrder : q.InOrder
  holds : forall data, q.Holds data <-> exists e, e ∈ dir.names ∧
    (Partition.loadable e.1).isSome ∧ data ∈ fileRecords (dir.content e.2)
  segments : forall s, s ∈ q.segments -> Loaded dir s ∨
    fileRecords (q.content s) = []

theorem Loadable.reopened (h : Loadable dir) {older : List Segment}
    {active : Segment}
    (hloaded : forall s, s ∈ older ++ [active] -> Loaded dir s)
    (hall : forall e, e ∈ dir.names -> (Partition.loadable e.1).isSome ->
      exists s, s ∈ older ++ [active] ∧ s.path = e.1 ∧ s.file = e.2)
    (topic : Bytes) (id maxSegSize : Nat) :
    Reopened dir (ofSegments topic id maxSegSize dir older active) := by
  have hactive := hloaded active
    (List.mem_append_right _ (List.mem_singleton_self active))
  exact
    { inOrder :=
        { files := h.filesOf hloaded hall
          active := hactive.atEnd
          unfrozen := hactive.unfrozen }
      holds := by
        intro data
        constructor
        · rintro ⟨s, hs, hdata⟩
          exact ⟨_, (hloaded s hs).mem, (hloaded s hs).loadable, hdata⟩
        rintro ⟨e, he, hname, hdata⟩
        rcases hall e he hname with ⟨s, hs, _, hfile⟩
        refine ⟨s, hs, ?_⟩
        rw [← hfile] at hdata
        exact hdata
      segments := fun s hs => Or.inl (hloaded s hs) }

theorem Loadable.reopened_new (h : Loadable dir)
    (hnone : forall e, e ∈ dir.names -> ¬ (Partition.loadable e.1).isSome)
    (topic : Bytes) (id maxSegSize now : Nat) :
    exists dir' s, openFile dir (segmentName 0) 0 maxSegSize now =
        .ok (dir', s) ∧
      Reopened dir (ofSegments topic id maxSegSize dir' [] s) := by
  have hzero : (Partition.loadable (segmentName 0)).isSome := by
    rw [loadable_segmentName (by decide)]
    rfl
  have hlook : dir.lookup (segmentName 0) = none := by
    apply Disk.lookup_eq_none
    intro e he hname
    apply hnone e he
    rw [hname]
    exact hzero
  rcases openFile_new h.proper hlook maxSegSize now
    (by decide : 0 < 2 ^ 64) with ⟨s, hopen, hopened, hfrozen⟩
  have hempty : fileRecords ((dir.addFile (segmentName 0)
      (segmentFile 0 now [] [])).content s.file) = [] := by
    rcases hopened.fresh with ⟨hmem, _⟩ | ⟨_, hnil⟩
    · exact absurd hzero (hnone _ hmem)
    · exact hnil
  have hfiles : FilesOf dir [] := h.filesOf (by
    intro s hs
    cases hs) (by
    intro e he hname
    exact absurd hname (hnone e he))
  refine ⟨_, s, hopen, ?_⟩
  exact
    { inOrder :=
        { files := hfiles.concat hopened (fun _ => hzero)
          active := hopened.atEnd
          unfrozen := hfrozen }
      holds := by
        intro data
        constructor
        · rintro ⟨t, ht, hdata⟩
          rw [List.mem_singleton.mp ht] at hdata
          change data ∈ fileRecords ((dir.addFile (segmentName 0)
            (segmentFile 0 now [] [])).content s.file) at hdata
          rw [hempty] at hdata
          cases hdata
        · rintro ⟨e, he, hname, _⟩
          exact absurd hname (hnone e he)
      segments := by
        intro t ht
        rw [List.mem_singleton.mp ht]
        exact Or.inr hempty }

theorem Loadable.openPartition (h : Loadable dir) (topic : Bytes)
    (id maxSegSize now : Nat) :
    exists q, openPartition dir topic id maxSegSize now = .ok q ∧
      Reopened dir q := by
  have hmem : forall e, e ∈ dir.readDir <-> e ∈ dir.names :=
    fun e => List.mem_insertionSort _
  rcases h.loadEntries maxSegSize now (fun e he => (hmem e).mp he) with
    ⟨segments, hload, hloaded, hall⟩
  have hsegments : loadSegments dir maxSegSize now = .ok (dir, segments) :=
    hload
  cases hlast : segments.getLast? with
  | some active =>
    have hsplit : segments.dropLast ++ [active] = segments :=
      List.dropLast_append_getLast? active hlast
    rw [← hsplit] at hloaded hall
    refine ⟨_, ?_, h.reopened hloaded
      (fun e he => hall e ((hmem e).mpr he)) topic id maxSegSize⟩
    unfold Partition.openPartition
    simp only [hsegments, hlast]
  | none =>
  have hnone : forall e, e ∈ dir.names ->
      ¬ (Partition.loadable e.1).isSome := by
    intro e he hname
    rcases hall e ((hmem e).mpr he) hname with ⟨s, hs, _⟩
    rw [List.getLast?_eq_none_iff.mp hlast] at hs
    cases hs
  rcases h.reopened_new hnone topic id maxSegSize now with
    ⟨dir', s, hopen, hreopened⟩
  refine ⟨_, ?_, hreopened⟩
  unfold Partition.openPartition
  simp only [hsegments, hlast, hopen]

end Partition

end Storage
end ChimeraMQ
