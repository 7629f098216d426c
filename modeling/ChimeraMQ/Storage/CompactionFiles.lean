import ChimeraMQ.Storage.Compaction
import ChimeraMQ.Storage.PartitionFiles

/-!
# The files of a compaction

What a compaction collects, and what it does to the files of the partition: it
takes the frozen segments from the directory and adds one whose name is not
loaded again.
-/

namespace ChimeraMQ
namespace Storage

open Foundation
open Message
open Storage.Partition

namespace LogCompactor

def ShortDecrypt (lc : LogCompactor) : Prop :=
  forall id data plain, lc.decrypt id data = some plain ->
    plain.length ≤ data.length

def Compacts (p : Partition) : Prop :=
  2 ≤ (frozenSegments p).length ∧
    exists s, s ∈ frozenSegments p ∧ readAllRecords (p.content s) ≠ []

instance (p : Partition) : Decidable (Compacts p) :=
  inferInstanceAs (Decidable (_ ∧ _))

/-!
## Collecting
-/

variable {f : Bytes}

theorem length_readRecords {data : Bytes} {k pos : Nat}
    (h : data ∈ readRecords f k pos) : data.length ≤ maxCompactionRecord := by
  induction k generalizing pos with
  | zero => cases h
  | succ k ih =>
  unfold readRecords at h
  cases hlen : readAt f pos 4 with
  | none =>
    rw [hlen] at h
    cases h
  | some lenBuf =>
  simp only [hlen] at h
  by_cases hbad : ofBe lenBuf = 0 ∨ ofBe lenBuf > maxCompactionRecord
  · rw [if_pos hbad] at h
    cases h
  rw [if_neg hbad] at h
  cases hread : readAt f (pos + 4) (ofBe lenBuf) with
  | none =>
    rw [hread] at h
    cases h
  | some d =>
  simp only [hread] at h
  rcases List.mem_cons.mp h with hfirst | hother
  · rw [hfirst, readAt_length hread]
    omega
  · exact ih hother

structure Collected (c : Compacting) : Prop where
  keyless : forall data, data ∈ c.keyless ->
    data.length ≤ maxCompactionRecord ∧
      exists env, unmarshal data = .ok env ∧ env.routingKey = []
  latest : forall e, e ∈ c.latest -> e.2.length ≤ maxCompactionRecord ∧
    exists env, unmarshal e.2 = .ok env ∧ env.routingKey = e.1 ∧ e.1 ≠ []
  distinct : (c.latest.map Prod.fst).Nodup

theorem collected_empty : Collected
    { latest := [], keyless := [], totalRead := 0, keysExceeded := false } where
  keyless := by
    intro data hdata
    cases hdata
  latest := by
    intro e he
    cases he
  distinct := List.nodup_nil

variable {lc : LogCompactor} {c : Compacting}

theorem Collected.collect (hdec : lc.ShortDecrypt) (h : Collected c)
    (id : Bytes) {data : Bytes} (hshort : data.length ≤ maxCompactionRecord) :
    Collected (lc.collect id c data) := by
  unfold LogCompactor.collect
  cases hplain : lc.decrypt id data with
  | none => exact { h with }
  | some plain =>
  have hle := Nat.le_trans (hdec id data plain hplain) hshort
  cases henv : unmarshal plain with
  | error e =>
    simp only [henv]
    exact { h with }
  | ok env =>
  simp only [henv]
  by_cases hkey : env.routingKey = []
  · rw [if_pos hkey]
    refine { h with keyless := ?_ }
    intro d hd
    rcases List.mem_append.mp hd with hold | hnew
    · exact h.keyless d hold
    · rw [List.mem_singleton.mp hnew]
      exact ⟨hle, env, henv, hkey⟩
  rw [if_neg hkey]
  split
  · exact { h with }
  refine { h with latest := ?_, distinct := ?_ }
  · intro e he
    rcases mem_setEntry he with hnew | hold
    · rw [hnew]
      exact ⟨hle, env, henv, rfl, hkey⟩
    · exact h.latest e hold
  · exact nodup_keys_setEntry h.distinct

theorem Collected.foldl (hdec : lc.ShortDecrypt) (id : Bytes)
    {recs : List Bytes} (h : Collected c)
    (hshort : forall d, d ∈ recs -> d.length ≤ maxCompactionRecord) :
    Collected (recs.foldl (lc.collect id) c) := by
  induction recs generalizing c with
  | nil => exact h
  | cons d recs ih =>
  rw [List.foldl_cons]
  apply ih
  · exact h.collect hdec id (hshort d (List.mem_cons_self ..))
  · exact fun x hx => hshort x (List.mem_cons_of_mem _ hx)

theorem collected_collectAll (hdec : lc.ShortDecrypt) (p : Partition) :
    Collected (lc.collectAll p) := by
  apply collected_empty.foldl hdec
  intro d hd
  rcases List.mem_flatMap.mp hd with ⟨s, _, hread⟩
  exact length_readRecords hread

def DistinctKeys (recs : List Bytes) : Prop :=
  (recs.filterMap (fun data =>
    match unmarshal data with
    | .error _ => none
    | .ok env =>
      if env.routingKey = [] then none else some env.routingKey)).Nodup

variable {order : List Bytes}

theorem Collected.distinctKeys (h : Collected c)
    (horder : order.Perm (c.latest.map Prod.snd)) :
    DistinctKeys (c.keyless ++ order) := by
  unfold DistinctKeys
  rw [List.filterMap_append]
  have hkeyless : c.keyless.filterMap (fun data =>
      match unmarshal data with
      | .error _ => none
      | .ok env =>
        if env.routingKey = [] then none else some env.routingKey) = [] := by
    rw [List.filterMap_eq_nil_iff]
    intro data hdata
    rcases h.keyless data hdata with ⟨_, env, henv, hkey⟩
    simp only [henv, hkey, if_true]
  have hlatest : (c.latest.map Prod.snd).filterMap (fun data =>
      match unmarshal data with
      | .error _ => none
      | .ok env =>
        if env.routingKey = [] then none else some env.routingKey) =
      c.latest.map Prod.fst := by
    rw [List.filterMap_map, ← List.filterMap_eq_map]
    apply List.filterMap_congr
    intro e he
    rcases h.latest e he with ⟨_, env, henv, hkey, hne⟩
    simp only [Function.comp_apply, henv, hkey, hne, if_false]
  rw [hkeyless, List.nil_append]
  have hperm := horder.filterMap (fun data =>
    match unmarshal data with
    | .error _ => none
    | .ok env =>
      if env.routingKey = [] then none else some env.routingKey)
  rw [hlatest] at hperm
  exact hperm.nodup_iff.mpr h.distinct

theorem totalRead_foldl (lc : LogCompactor) (id : Bytes) (recs : List Bytes)
    (c : Compacting) :
    (recs.foldl (lc.collect id) c).totalRead = c.totalRead + recs.length := by
  induction recs generalizing c with
  | nil => rfl
  | cons d recs ih =>
  have hone : (lc.collect id c d).totalRead = c.totalRead + 1 := by
    unfold LogCompactor.collect
    cases lc.decrypt id d with
    | none => rfl
    | some plain =>
    cases henv : unmarshal plain with
    | error e => simp only [henv]
    | ok env =>
    simp only [henv]
    split
    · rfl
    · split
      · rfl
      · rfl
  rw [List.foldl_cons, ih, hone, List.length_cons]
  omega

theorem totalRead_collectAll (lc : LogCompactor) (p : Partition) :
    (lc.collectAll p).totalRead = 0 <->
      forall s, s ∈ frozenSegments p -> readAllRecords (p.content s) = [] := by
  unfold collectAll
  rw [totalRead_foldl, Nat.zero_add, List.length_eq_zero_iff,
    List.flatMap_eq_nil_iff]

/-!
## The new file
-/

theorem loadable_compactedName (b : Nat) :
    loadable (compactedName b) = none := by
  have hdigits : (compactedName b).takeWhile Char.isDigit =
      zeroPadded 20 b := takeWhile_isDigit_zeroPadded rfl
  have hscan : scanBaseOffset (compactedName b) = none := by
    have hrest : (compactedName b).drop (zeroPadded 20 b).length =
        ".compacted.log".toList := by
      rw [compactedName, List.drop_left]
    have hnot : logSuffix.isPrefixOf ".compacted.log".toList =
        false := by
      decide
    unfold scanBaseOffset
    simp only [hdigits, hrest, hnot]
    cases parseDecimal (2 ^ 64) (zeroPadded 20 b) with
    | none => rfl
    | some n => rfl
  unfold loadable
  rw [hscan]
  split
  · rfl
  · rfl

/-- The name stands for a file that is new to the directory or was its own. -/
structure Written (dir dir' : Disk) (name : List Char) (i : Nat) (f : Bytes) :
    Prop where
  proper : dir'.Proper
  mem : (name, i) ∈ dir'.names
  names : forall e, e ∈ dir'.names -> e ∈ dir.names ∨ e = (name, i)
  names_of : forall e, e ∈ dir.names -> e ∈ dir'.names
  fresh : (name, i) ∈ dir.names ∨ i = dir.files.length
  content : dir'.content i = f
  content_ne : forall j, j < dir.files.length -> j ≠ i ->
    dir'.content j = dir.content j
  length_le : dir.files.length ≤ dir'.files.length

variable {dir : Disk}

theorem exists_written (hd : dir.Proper) (name : List Char) (f : Bytes) :
    exists i, Written dir
        (((dir.create name).1).setContent (dir.create name).2 f) name i f := by
  unfold Disk.create
  cases hlook : dir.lookup name with
  | some i =>
    have hmem := Disk.mem_names_of_lookup hlook
    refine ⟨i, ?_⟩
    simp only [Disk.openCreate_of_lookup_some hlook,
      Disk.setContent_setContent]
    exact
      { proper := hd.setContent i f
        mem := hmem
        names := fun _ he => Or.inl he
        names_of := fun _ he => he
        fresh := Or.inl hmem
        content := Disk.content_setContent (hd.files_lt _ hmem) f
        content_ne := fun j _ hne =>
          Disk.content_setContent_ne _ (Ne.symm hne) f
        length_le := by
          rw [Disk.setContent, List.length_set] }
  | none =>
  refine ⟨dir.files.length, ?_⟩
  have hcreate : dir.openCreate name =
      (dir.addFile name [], dir.files.length) :=
    Disk.openCreate_of_lookup_none hlook
  simp only [hcreate, Disk.setContent_addFile]
  exact
    { proper := hd.addFile hlook f
      mem := List.mem_append_right _ (List.mem_singleton_self _)
      names := by
        intro e he
        rcases List.mem_append.mp he with hold | hnew
        · exact Or.inl hold
        · exact Or.inr (List.mem_singleton.mp hnew)
      names_of := fun _ he => List.mem_append_left _ he
      fresh := Or.inr rfl
      content := Disk.content_addFile dir name f
      content_ne := fun j hj _ => Disk.content_addFile_of_lt hj name f
      length_le := by
        rw [Disk.addFile, List.length_append]
        exact Nat.le_add_right _ _ }

def removeAll (dir : Disk) (segments : List Segment) : Disk :=
  segments.foldl (fun dir s => dir.remove s.path) dir

theorem removeAll_spec (hd : dir.Proper) (segments : List Segment) :
    (removeAll dir segments).Proper ∧
      (forall i, (removeAll dir segments).content i = dir.content i) ∧
      (removeAll dir segments).files = dir.files ∧
      forall e, e ∈ (removeAll dir segments).names <->
        e ∈ dir.names ∧ forall s, s ∈ segments -> e.1 ≠ s.path := by
  induction segments generalizing dir with
  | nil =>
    refine ⟨hd, fun _ => rfl, rfl, ?_⟩
    intro e
    simp [removeAll]
  | cons s segments ih =>
  rcases ih (hd.remove s.path) with ⟨hproper, hcontent, hfiles, hnames⟩
  refine ⟨hproper, hcontent, hfiles, ?_⟩
  intro e
  change e ∈ (removeAll (dir.remove s.path) segments).names <-> _
  rw [hnames, Disk.mem_names_remove]
  constructor
  · rintro ⟨⟨he, hne⟩, hall⟩
    refine ⟨he, ?_⟩
    intro t ht
    rcases List.mem_cons.mp ht with hfirst | hother
    · rw [hfirst]
      exact hne
    · exact hall t hother
  · rintro ⟨he, hall⟩
    exact ⟨⟨he, hall s (List.mem_cons_self ..)⟩,
      fun t ht => hall t (List.mem_cons_of_mem _ ht)⟩

/-!
## The swap
-/

/-- What a compaction that has something to compact makes of a partition. -/
structure Swapped (p q : Partition) : Prop where
  inOrder : q.InOrder
  segments : exists s, q.segments =
      s :: p.segments.filter (fun t => !t.frozen) ∧
    loadable s.path = none ∧
    DistinctKeys (fileRecords (q.content s))
  names : forall e, (loadable e.1).isSome ->
    (e ∈ q.dir.names <-> e ∈ p.dir.names ∧
      forall s, s ∈ p.segments -> s.frozen = true -> e.1 ≠ s.path)
  content : forall s, s ∈ p.segments -> s.frozen = false ->
    q.dir.content s.file = p.dir.content s.file

variable {p : Partition} {s : Segment}

theorem mem_frozenSegments :
    s ∈ frozenSegments p <-> s ∈ p.segments ∧ s.frozen = true :=
  List.mem_filter

theorem mem_unfrozen :
    s ∈ p.segments.filter (fun t => !t.frozen) <->
      s ∈ p.segments ∧ s.frozen = false := by
  simp

variable {name : List Char} {i : Nat}

theorem file_ne_of_not_loadable (hp : p.InOrder)
    (hw : Written p.dir dir name i f) (hname : loadable name = none)
    (hs : s ∈ p.segments) (hfrozen : s.frozen = false) :
    s.file ≠ i := by
  intro hfile
  rcases hw.fresh with hold | hnew
  · have hload := hp.files.loadable s hs hfrozen
    rw [hp.files.owned s hs _ hold hfile, hname] at hload
    cases hload
  · have hlt := hp.files.file_lt hs
    omega

theorem filesOf_unfrozen (hp : p.InOrder) (hw : Written p.dir dir name i f)
    (hname : loadable name = none) :
    FilesOf (removeAll dir (frozenSegments p))
      (p.segments.filter (fun t => !t.frozen)) := by
  rcases removeAll_spec hw.proper (frozenSegments p) with
    ⟨hproper, hcontent, _, hnames⟩
  exact
    { proper := hproper
      owned := by
        intro s hs e he hfile
        rcases mem_unfrozen.mp hs with ⟨hmem, hfrozen⟩
        rcases hw.names e ((hnames e).mp he).left with hold | hnew
        · exact hp.files.owned s hmem e hold hfile
        · rw [hnew] at hfile
          exact absurd hfile
            (file_ne_of_not_loadable hp hw hname hmem hfrozen)
      same := by
        intro s hs t ht hfile
        exact hp.files.same s (mem_unfrozen.mp hs).left t
          (mem_unfrozen.mp ht).left hfile
      records := by
        intro s hs
        rcases mem_unfrozen.mp hs with ⟨hmem, hfrozen⟩
        rw [hcontent, hw.content_ne _ (hp.files.file_lt hmem)
          (file_ne_of_not_loadable hp hw hname hmem hfrozen)]
        exact hp.files.records s hmem
      loadable := fun s hs hfrozen =>
        hp.files.loadable s (mem_unfrozen.mp hs).left hfrozen
      base_lt := fun s hs => hp.files.base_lt s (mem_unfrozen.mp hs).left
      named := by
        intro e he hload
        rcases (hnames e).mp he with ⟨hdir, hfree⟩
        rcases hw.names e hdir with hold | hnew
        · rcases hp.files.named e hold hload with ⟨s, hs, hpath, hfile⟩
          have hfrozen : s.frozen = false := by
            by_contra hf
            have hmem := mem_frozenSegments.mpr
              ⟨hs, Bool.not_eq_false _ ▸ hf⟩
            exact hfree s hmem hpath.symm
          exact ⟨s, mem_unfrozen.mpr ⟨hs, hfrozen⟩, hpath, hfile⟩
        · rw [hnew, hname] at hload
          cases hload }

theorem swapped (hp : p.InOrder) {dir' : Disk} (hw : Written p.dir dir name i f)
    (hkeys : DistinctKeys (fileRecords f))
    (hname : loadable name = none)
    (hopen : Opened (removeAll dir (frozenSegments p)) name dir' s) :
    Swapped p
      { p with
        dir := dir'
        older := s.freeze :: p.older.filter (fun s => !s.frozen)
        logStart := s.freeze.baseOff } := by
  have hfiles := filesOf_unfrozen hp hw hname
  rcases removeAll_spec hw.proper (frozenSegments p) with
    ⟨hproper, hcontent, hlength, hnames⟩
  have hopen' : Opened (removeAll dir (frozenSegments p)) name dir'
      s.freeze :=
    { hopen with
      atEnd :=
        { size := hopen.atEnd.size
          baseOff_lt := hopen.atEnd.baseOff_lt
          nextOff_lt := hopen.atEnd.nextOff_lt } }
  have hfilter : p.segments.filter (fun t => !t.frozen) =
      p.older.filter (fun t => !t.frozen) ++ [p.active] := by
    rw [segments, List.filter_append]
    simp [hp.unfrozen]
  have hsame : forall t, t ∈ p.segments -> t.frozen = false ->
      dir'.content t.file = p.dir.content t.file := by
    intro t ht hfrozen
    have hlt := hp.files.file_lt ht
    have hlt' : t.file < (removeAll dir (frozenSegments p)).files.length := by
      rw [hlength]
      exact Nat.lt_of_lt_of_le hlt hw.length_le
    rw [hopen.content _ hlt', hcontent, hw.content_ne _ hlt
      (file_ne_of_not_loadable hp hw hname ht hfrozen)]
  have hactive : p.active ∈ p.segments :=
    List.mem_append_right _ (List.mem_singleton_self _)
  refine
    { inOrder :=
        { files := ?_
          active := ?_
          unfrozen := hp.unfrozen }
      segments := ⟨s.freeze, ?_, ?_, ?_⟩
      names := ?_
      content := hsame }
  · apply (hfiles.concat hopen' (by
      intro h
      cases h)).congr
    · intro t ht
      refine ⟨t, ?_, rfl, rfl, rfl, id⟩
      rw [hfilter]
      rcases List.mem_cons.mp ht with hfirst | hother
      · rw [hfirst]
        exact List.mem_append_right _ (List.mem_singleton_self _)
      · exact List.mem_append_left _ hother
    intro t ht
    refine ⟨t, ?_, rfl, rfl⟩
    rw [hfilter] at ht
    rcases List.mem_append.mp ht with hold | hnew
    · exact List.mem_cons_of_mem _ hold
    · rw [List.mem_singleton.mp hnew]
      exact List.mem_cons_self ..
  · change AtEnd p.active (dir'.content p.active.file)
    rw [hsame _ hactive hp.unfrozen]
    exact hp.active
  · rw [hfilter]
    rfl
  · change loadable s.path = none
    rw [hopen.path]
    exact hname
  · change DistinctKeys (fileRecords (dir'.content s.file))
    rcases hopen.fresh with ⟨hmem, hold⟩ | ⟨_, hnil⟩
    · have hfile : s.file = i := by
        have heq := hw.proper.eq_of_name_eq ((hnames _).mp hmem).left
          hw.mem rfl
        exact congrArg Prod.snd heq
      rw [hold, hcontent, hfile, hw.content]
      exact hkeys
    · rw [hnil]
      exact List.nodup_nil
  · intro e hload
    have hne : e.1 ≠ name := by
      intro heq
      rw [heq, hname] at hload
      cases hload
    constructor
    · intro he
      rcases (hopen.names e).mp he with hold | hnew
      · rcases (hnames e).mp hold with ⟨hdir, hfree⟩
        rcases hw.names e hdir with hp' | hnew
        · exact ⟨hp', fun t ht hfrozen =>
            hfree t (mem_frozenSegments.mpr ⟨ht, hfrozen⟩)⟩
        · exact absurd (congrArg Prod.fst hnew) hne
      · exact absurd (congrArg Prod.fst hnew) hne
    rintro ⟨he, hfree⟩
    apply (hopen.names e).mpr
    apply Or.inl
    apply (hnames e).mpr
    refine ⟨hw.names_of e he, ?_⟩
    intro t ht
    rcases mem_frozenSegments.mp ht with ⟨hmem, hfrozen⟩
    exact hfree t hmem hfrozen

theorem Written.exists_openFile (hw : Written p.dir dir name i f)
    (hf : RecordFile f) {baseOffset : Nat} (hbase : baseOffset < 2 ^ 64)
    (now : Nat) :
    exists dir' s, openFile (removeAll dir (frozenSegments p)) name
        baseOffset p.maxSegSize now = .ok (dir', s) ∧
      Opened (removeAll dir (frozenSegments p)) name dir' s := by
  rcases removeAll_spec hw.proper (frozenSegments p) with
    ⟨hproper, hcontent, _, hnames⟩
  have hwritten : forall j,
      (name, j) ∈ (removeAll dir (frozenSegments p)).names ->
        RecordFile ((removeAll dir (frozenSegments p)).content j) := by
    intro j hj
    have heq := hw.proper.eq_of_name_eq ((hnames _).mp hj).left hw.mem rfl
    have hji : j = i := congrArg Prod.snd heq
    rw [hji, hcontent, hw.content]
    exact hf
  rcases Partition.exists_openFile hproper hwritten p.maxSegSize now hbase
    with ⟨dir', s, hopen, hopened, _⟩
  exact ⟨dir', s, hopen, hopened⟩

theorem exists_swapped (hp : p.InOrder) (hw : Written p.dir dir name i f)
    (hf : RecordFile f) (hkeys : DistinctKeys (fileRecords f))
    (hname : loadable name = none) {baseOffset : Nat}
    (hbase : baseOffset < 2 ^ 64) (now : Nat) :
    exists dir' s, openFile (removeAll dir (frozenSegments p)) name
        baseOffset p.maxSegSize now = .ok (dir', s) ∧
      Swapped p
        { p with
          dir := dir'
          older := s.freeze :: p.older.filter (fun s => !s.frozen)
          logStart := s.freeze.baseOff } := by
  rcases hw.exists_openFile hf hbase now with ⟨dir', s, hopen, hopened⟩
  exact ⟨dir', s, hopen, swapped hp hw hkeys hname hopened⟩

theorem exists_written_writeCompacted (hd : dir.Proper) (baseOffset now : Nat)
    (recs : List Bytes) :
    exists i, Written dir (writeCompacted dir baseOffset now recs)
      (compactedName baseOffset) i (segmentFile baseOffset now recs []) := by
  have hbytes : Segment.header baseOffset now ++
      recs.flatMap Segment.record = segmentFile baseOffset now recs [] := by
    rw [segmentFile, List.append_nil]
    rfl
  unfold writeCompacted
  simp only [hbytes]
  exact exists_written hd _ _

theorem Collected.length_lt (h : Collected c)
    (horder : order.Perm (c.latest.map Prod.snd)) {data : Bytes}
    (hdata : data ∈ c.keyless ++ order) :
    data.length < 2 ^ 32 := by
  have hle : data.length ≤ maxCompactionRecord := by
    rcases List.mem_append.mp hdata with hkeyless | hlatest
    · exact (h.keyless data hkeyless).left
    · rcases List.mem_map.mp (horder.mem_iff.mp hlatest) with ⟨e, he, hed⟩
      rw [← hed]
      exact (h.latest e he).left
  exact Nat.lt_of_le_of_lt hle (by decide)

variable {now : Nat}

theorem compact_few (hfew : (frozenSegments p).length < 2) :
    lc.compact p order now = some (.ok p) := by
  unfold compact
  rcases hfrozen : frozenSegments p with _ | ⟨first, _ | ⟨second, rest⟩⟩
  · rfl
  · rfl
  · rw [hfrozen, List.length_cons, List.length_cons] at hfew
    omega

theorem compact_many {first second : Segment} {rest : List Segment}
    (hfrozen : frozenSegments p = first :: second :: rest) :
    lc.compact p order now =
      if (lc.collectAll p).totalRead = 0 then some (.ok p)
      else if order.Perm ((lc.collectAll p).latest.map Prod.snd) then
        match openFile
          (removeAll (writeCompacted p.dir first.baseOff now
            ((lc.collectAll p).keyless ++ order)) (frozenSegments p))
          (compactedName first.baseOff) first.baseOff p.maxSegSize now with
        | .error e => some (.error e)
        | .ok (dir, s) =>
          some (.ok
            { p with
              dir := dir
              older := s.freeze :: p.older.filter (fun s => !s.frozen)
              logStart := s.freeze.baseOff })
      else none := by
  unfold compact
  simp only [hfrozen]
  rfl

theorem compact_idle (hnothing : ¬ Compacts p) :
    lc.compact p order now = some (.ok p) := by
  by_cases hfew : (frozenSegments p).length < 2
  · exact compact_few hfew
  rcases hfrozen : frozenSegments p with _ | ⟨first, _ | ⟨second, rest⟩⟩
  · rw [hfrozen] at hfew
    exact absurd Nat.zero_lt_two hfew
  · rw [hfrozen] at hfew
    exact absurd Nat.one_lt_two hfew
  have hzero : (lc.collectAll p).totalRead = 0 := by
    rw [totalRead_collectAll]
    intro s hs
    by_contra hread
    exact hnothing ⟨Nat.not_lt.mp hfew, s, hs, hread⟩
  rw [compact_many hfrozen, if_pos hzero]

theorem exists_opened (hp : p.InOrder) (hdec : lc.ShortDecrypt)
    (hcompacts : Compacts p) {r : Except SegmentError Partition}
    (hcompact : lc.compact p order now = some r) :
    order.Perm ((lc.collectAll p).latest.map Prod.snd) ∧
      exists dir i dir' s,
        Written p.dir dir (compactedName (firstBase (frozenSegments p))) i
          (segmentFile (firstBase (frozenSegments p)) now
            ((lc.collectAll p).keyless ++ order) []) ∧
        Opened (removeAll dir (frozenSegments p))
          (compactedName (firstBase (frozenSegments p))) dir' s ∧
        r = .ok
          { p with
            dir := dir'
            older := s.freeze :: p.older.filter (fun s => !s.frozen)
            logStart := s.freeze.baseOff } := by
  rcases hcompacts with ⟨hmany, t, ht, hread⟩
  rcases hfrozen : frozenSegments p with _ | ⟨first, _ | ⟨second, rest⟩⟩
  · rw [hfrozen] at hmany
    cases hmany
  · rw [hfrozen, List.length_singleton] at hmany
    omega
  have hfirst : first ∈ p.segments := by
    have hmem : first ∈ frozenSegments p := by
      rw [hfrozen]
      exact List.mem_cons_self ..
    exact (mem_frozenSegments.mp hmem).left
  have hbase := hp.files.base_lt first hfirst
  have hsome : (lc.collectAll p).totalRead ≠ 0 := fun hzero =>
    hread ((totalRead_collectAll lc p).mp hzero t ht)
  rw [compact_many hfrozen, if_neg hsome] at hcompact
  by_cases horder : order.Perm ((lc.collectAll p).latest.map Prod.snd)
  · rw [if_pos horder] at hcompact
    have hshort : forall d, d ∈ (lc.collectAll p).keyless ++ order ->
        d.length < 2 ^ 32 :=
      fun _ hd => (collected_collectAll hdec p).length_lt horder hd
    rcases exists_written_writeCompacted hp.files.proper first.baseOff now
      ((lc.collectAll p).keyless ++ order) with ⟨i, hw⟩
    rcases hw.exists_openFile ⟨_, _, _, hbase, hshort, rfl⟩ hbase now with
      ⟨dir', s, hopen, hopened⟩
    rw [hopen] at hcompact
    cases hcompact
    rw [← hfrozen]
    have hsame : firstBase (frozenSegments p) = first.baseOff := by
      rw [hfrozen]
      rfl
    rw [hsame]
    exact ⟨horder, _, i, dir', s, hw, hopened, rfl⟩
  · rw [if_neg horder] at hcompact
    cases hcompact

theorem compact_spec (hp : p.InOrder) (hdec : lc.ShortDecrypt)
    {r : Except SegmentError Partition}
    (hcompact : lc.compact p order now = some r) :
    (¬ Compacts p ∧ r = .ok p) ∨
      (Compacts p ∧ exists q, r = .ok q ∧ Swapped p q) := by
  by_cases hcompacts : Compacts p
  · right
    rcases exists_opened hp hdec hcompacts hcompact with
      ⟨horder, dir, i, dir', s, hw, hopened, hr⟩
    have hcollected := collected_collectAll hdec p
    have hshort : forall d, d ∈ (lc.collectAll p).keyless ++ order ->
        d.length < 2 ^ 32 := fun _ hd => hcollected.length_lt horder hd
    have hkeys : DistinctKeys (fileRecords (segmentFile
        (firstBase (frozenSegments p)) now
          ((lc.collectAll p).keyless ++ order) [])) := by
      rw [fileRecords_segmentFile _ _ hshort]
      exact hcollected.distinctKeys horder
    exact ⟨hcompacts, _, hr, swapped hp hw hkeys
      (loadable_compactedName _) hopened⟩
  · left
    rw [compact_idle hcompacts] at hcompact
    cases hcompact
    exact ⟨hcompacts, rfl⟩

end LogCompactor

end Storage
end ChimeraMQ
