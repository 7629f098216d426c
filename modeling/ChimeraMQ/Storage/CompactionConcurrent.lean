import ChimeraMQ.Storage.CompactionKeeps
import ChimeraMQ.Storage.CompactionSwap

/-!
# Appending while a compaction is under way

Between its phases a compaction leaves the partition to others.  What they
append stays readable as long as the frozen segments that the swap removes are
those that the compaction has noted and read, come before all other segments
and have their files for themselves.
-/

namespace ChimeraMQ
namespace Storage

open Foundation
open LogCompactor
open Storage.Partition

def CompactionPhase.segments : CompactionPhase -> List Segment
  | .idle => []
  | .noted frozen => frozen
  | .written frozen => frozen

namespace SharedPartition

def start (p : Partition) : SharedPartition where
  partition := p
  phase := .idle
  outside := []

/-- What was appended outside the noted segments is read at its offset. -/
def KeepsOutside (s : SharedPartition) : Prop :=
  forall e, e ∈ s.outside -> s.partition.read e.1 = .ok e.2

/--
The compaction takes away what it has noted, from the front, and no other
segment has a file of that.
-/
def Undisturbed (s : SharedPartition) : SharedAction -> Prop
  | .append _ _ => True
  | .note => True
  | .rewrite _ _ => OwnFiles s.partition
  | .swap _ =>
    frozenSegments s.partition = s.phase.segments ∧
      FrozenFirst s.partition ∧ OwnFiles s.partition
  | .reopen _ => True

instance (s : SharedPartition) (a : SharedAction) :
    Decidable (Undisturbed s a) := by
  cases a with
  | append data now => exact instDecidableTrue
  | note => exact instDecidableTrue
  | rewrite order now => exact inferInstanceAs (Decidable (OwnFiles _))
  | swap now => exact inferInstanceAs (Decidable (_ ∧ _ ∧ _))
  | reopen now => exact instDecidableTrue

structure FileWritten (dir : Disk) (frozen : List Segment) (i created : Nat)
    (recs : List Bytes) : Prop where
  mem : (compactedName (firstBase frozen), i) ∈
    dir.names
  content : dir.content i =
    segmentFile (firstBase frozen) created recs []
  short : forall d, d ∈ recs -> d.length < 2 ^ 32
  keys : DistinctKeys recs
  fits : recs.length ≤ offsets frozen

structure Noted (p : Partition) (outside : List (Nat × Bytes))
    (frozen : List Segment) : Prop where
  nonempty : frozen ≠ []
  older : forall t, t ∈ frozen -> t ∈ p.older ∧ t.frozen = true
  apart : forall e, e ∈ outside -> forall t, t ∈ frozen ->
    ¬ (t.baseOff ≤ e.1 ∧ e.1 < t.nextOff)

def PhaseHolds (p : Partition) (outside : List (Nat × Bytes)) :
    CompactionPhase -> Prop
  | .idle => Filled p
  | .noted frozen => Filled p ∧ Noted p outside frozen
  | .written frozen => Noted p outside frozen ∧
      exists i created recs, FileWritten p.dir frozen i created recs

structure Sheltered (s : SharedPartition) (front : List Chunk)
    (last : Chunk) : Prop where
  mixed : MixedLog s.partition front last
  small : s.partition.maxSegSize < 2 ^ 32
  kept : forall e, e ∈ s.outside -> At
    (logFiles s.partition.dir) (front ++ [last]) e.1 e.2
  phase : PhaseHolds s.partition s.outside s.phase

variable {s : SharedPartition} {front : List Chunk}
  {last : Chunk}

theorem Sheltered.keepsOutside (h : Sheltered s front last) : KeepsOutside s :=
  fun e he => h.mixed.read (h.kept e he)

/-!
## Appending
-/

variable {p : Partition}

theorem nextOff_le_next (h : MixedLog p front last) {t : Segment}
    (ht : t ∈ p.older) : t.nextOff ≤ last.next := by
  have hcross := (List.pairwise_append.mp h.ordered).right.right t ht p.active
    (List.mem_singleton_self _)
  have hbase : p.active.baseOff = last.base := h.log.active.stands.baseOff
  rw [hbase] at hcross
  exact hcross.trans (Nat.le_add_right _ _)

theorem Noted.append {front front' : List Chunk} {last last' : Chunk}
    {outside : List (Nat × Bytes)} {frozen : List Segment}
    (h : Noted p outside frozen) (hmixed : MixedLog p front last) {data : Bytes}
    {r : Partition × Except SegmentError Nat}
    (hgrown : MixedGrown p front last data r front' last')
    {new : List (Nat × Bytes)} (hnew : forall e, e ∈ new -> e.1 = last.next) :
    Noted r.1 (outside ++ new) frozen where
  nonempty := h.nonempty
  older := by
    intro t ht
    rcases h.older t ht with ⟨hmem, hfrozen⟩
    refine ⟨?_, hfrozen⟩
    rcases hgrown.frame.older with ⟨hsame, _⟩ | hrolled
    · rw [hsame]
      exact hmem
    · rw [hrolled]
      exact List.mem_append_left _ hmem
  apart := by
    intro e he t ht
    rcases List.mem_append.mp he with hold | hlast
    · exact h.apart e hold t ht
    · have hle := nextOff_le_next hmixed (h.older t ht).left
      rw [hnew e hlast]
      omega

theorem FileWritten.append {front front' : List Chunk} {last last' : Chunk}
    {frozen : List Segment} {i created : Nat} {recs : List Bytes}
    (h : FileWritten p.dir frozen i created recs)
    (hmixed : MixedLog p front last) {data : Bytes}
    {r : Partition × Except SegmentError Nat}
    (hgrown : MixedGrown p front last data r front' last') :
    FileWritten r.1.dir frozen i created recs := by
  have hname := isLog_compactedName (firstBase frozen)
  have hmem := hgrown.frame.names _ h.mem
  have hactive : p.active.file ≠ i := by
    have hfile : p.active.file = last.file := hmixed.log.active.file
    rw [hfile]
    exact hmixed.file_ne
      (List.mem_append_right _ (List.mem_singleton_self last)) hname
      (Or.inl h.mem)
  have hactive' : r.1.active.file ≠ i := by
    have hfile : r.1.active.file = last'.file := hgrown.mixed.log.active.file
    rw [hfile]
    exact hgrown.mixed.file_ne
      (List.mem_append_right _ (List.mem_singleton_self last')) hname
      (Or.inl hmem)
  have hlt := hmixed.inOrder.files.proper.files_lt _ h.mem
  exact
    { mem := hmem
      content := by
        rw [hgrown.frame.content i hlt hactive.symm hactive'.symm]
        exact h.content
      short := h.short
      keys := h.keys
      fits := h.fits }

theorem PhaseHolds.append {front front' : List Chunk} {last last' : Chunk}
    {outside : List (Nat × Bytes)} {phase : CompactionPhase}
    (h : PhaseHolds p outside phase) (hmixed : MixedLog p front last)
    {data : Bytes} {r : Partition × Except SegmentError Nat}
    (hgrown : MixedGrown p front last data r front' last')
    {new : List (Nat × Bytes)} (hnew : forall e, e ∈ new -> e.1 = last.next) :
    PhaseHolds r.1 (outside ++ new) phase := by
  cases phase with
  | idle => exact hgrown.filled hmixed h
  | noted frozen =>
    exact ⟨hgrown.filled hmixed h.left, h.right.append hmixed hgrown hnew⟩
  | written frozen =>
  rcases h with ⟨hnoted, i, created, recs, hwritten⟩
  exact ⟨hnoted.append hmixed hgrown hnew, i, created, recs,
    hwritten.append hmixed hgrown⟩

variable (h : Sheltered s front last)

include h

theorem Sheltered.append (hroom : last.next + 1 < 2 ^ 64) {lc : LogCompactor}
    {data : Bytes} {now : Nat} {s' : SharedPartition}
    (hstep : step lc s (.append data now) = some s') :
    exists front' last', Sheltered s' front' last' ∧
      last'.next ≤ last.next + 1 := by
  rcases h.mixed.append h.small hroom data now with ⟨front', last', hgrown⟩
  refine ⟨front', last', ?_, hgrown.grown.next_le⟩
  have hold : forall e, e ∈ s.outside -> At
      (logFiles (s.partition.append data now).1.dir)
      (front' ++ [last']) e.1 e.2 :=
    fun e he => hgrown.grown.keeps e.1 e.2 (h.kept e he)
  have hsmall : (s.partition.append data now).1.maxSegSize < 2 ^ 32 := by
    rw [hgrown.frame.maxSegSize]
    exact h.small
  unfold step at hstep
  simp only at hstep
  cases hr : (s.partition.append data now).2 with
  | error e =>
    rw [hr] at hstep
    cases hstep
    have hphase : PhaseHolds (s.partition.append data now).1
        (s.outside ++ []) s.phase := by
      apply h.phase.append h.mixed hgrown
      intro e he
      cases he
    rw [List.append_nil] at hphase
    exact
      { mixed := hgrown.mixed
        small := hsmall
        kept := hold
        phase := hphase }
  | ok offset =>
  rw [hr] at hstep
  cases hstep
  rcases hgrown.grown.stored hr with ⟨hoffset, hat⟩
  exact
    { mixed := hgrown.mixed
      small := hsmall
      kept := by
        intro e he
        rcases List.mem_append.mp he with hmem | hnew
        · exact hold e hmem
        · rw [List.mem_singleton.mp hnew]
          exact hat
      phase := by
        apply h.phase.append h.mixed hgrown
        intro e he
        rw [List.mem_singleton.mp he]
        exact hoffset }

/-!
## The phases of a compaction
-/

variable {lc : LogCompactor} {s' : SharedPartition}

theorem Sheltered.note (hstep : step lc s .note = some s') :
    Sheltered s' front last := by
  have hphase := h.phase
  unfold step at hstep
  simp only at hstep
  cases hp : s.phase with
  | idle =>
    rw [hp] at hstep hphase
    simp only at hstep
    split at hstep
    · cases hstep
      exact h
    rename_i hmany
    cases hstep
    refine
      { mixed := h.mixed
        small := h.small
        kept := fun e he => h.kept e (List.mem_of_mem_filter he)
        phase := ⟨hphase, ?_⟩ }
    exact
      { nonempty := by
          intro hnil
          rw [hnil] at hmany
          exact hmany Nat.zero_lt_two
        older := by
          intro t ht
          rcases mem_frozenSegments.mp ht with ⟨hmem, hfrozen⟩
          refine ⟨?_, hfrozen⟩
          rcases List.mem_append.mp hmem with hold | hlast
          · exact hold
          · rw [List.mem_singleton.mp hlast,
              h.mixed.inOrder.unfrozen] at hfrozen
            cases hfrozen
        apart := by
          intro e he t ht hin
          have hfree := (List.mem_filter.mp he).right
          simp only [covers, Bool.not_eq_true', List.any_eq_false,
            decide_eq_true_eq] at hfree
          exact hfree t ht hin }
  | noted frozen =>
    rw [hp] at hstep
    cases hstep
  | written frozen =>
    rw [hp] at hstep
    cases hstep

variable {now : Nat}

omit h in
theorem exists_fileWritten (h : MixedLog p front last)
    (hfilled : Filled p) (hown : OwnFiles p)
    (hdec : lc.ShortDecrypt) {outside : List (Nat × Bytes)}
    {frozen : List Segment} (hnoted : Noted p outside frozen)
    {order : List Bytes} {dir : Disk}
    (hrewrite : lc.rewrite p frozen order now = some (some dir)) :
    exists i recs, FileWritten dir frozen i now recs ∧
      LogCompactor.Written p.dir dir
        (compactedName (firstBase frozen)) i
        (segmentFile (firstBase frozen) now recs []) ∧
      (logFiles dir).names = (logFiles p.dir).names := by
  have hcollected := collected_collectFrom hdec p frozen
  have hle := h.collected_le hfilled hown lc (by
    intro t ht
    rcases hnoted.older t ht with ⟨hmem, hfrozen⟩
    exact mem_frozenSegments.mpr
      ⟨older_mem_segments hmem, hfrozen⟩)
  unfold LogCompactor.rewrite at hrewrite
  simp only at hrewrite
  split at hrewrite
  · cases hrewrite
  split at hrewrite
  · rename_i horder
    cases hrewrite
    rcases exists_written_writeCompacted
      h.inOrder.files.proper (firstBase frozen) now
      ((lc.collectFrom p frozen).keyless ++ order) with ⟨i, hw⟩
    refine ⟨i, (lc.collectFrom p frozen).keyless ++ order, ?_, hw, ?_⟩
    · exact
        { mem := hw.mem
          content := hw.content
          short := fun _ hd => hcollected.length_lt horder hd
          keys := hcollected.distinctKeys horder
          fits := by
            have hlength := horder.length_eq
            rw [List.length_map] at hlength
            rw [List.length_append, hlength]
            exact hle }
    · exact names_openCreate (isLog_compactedName _)
  · cases hrewrite

theorem Sheltered.rewrite (hdec : lc.ShortDecrypt) {order : List Bytes}
    (hown : OwnFiles s.partition)
    (hstep : step lc s (.rewrite order now) = some s') :
    Sheltered s' front last := by
  have hphase := h.phase
  unfold step at hstep
  simp only at hstep
  cases hp : s.phase with
  | idle =>
    rw [hp] at hstep
    cases hstep
  | noted frozen =>
    rw [hp] at hstep hphase
    rcases hphase with ⟨hfilled, hnoted⟩
    simp only at hstep
    cases hrewrite : lc.rewrite s.partition frozen order now with
    | none =>
      rw [hrewrite] at hstep
      cases hstep
    | some written =>
    cases written with
    | none =>
      rw [hrewrite] at hstep
      cases hstep
      exact
        { mixed := h.mixed
          small := h.small
          kept := h.kept
          phase := hfilled }
    | some dir =>
    rw [hrewrite] at hstep
    cases hstep
    rcases exists_fileWritten h.mixed hfilled hown hdec hnoted
      hrewrite with ⟨i, recs, hfile, hw, hnames⟩
    have hname := isLog_compactedName
      (firstBase frozen)
    have hbase : firstBase frozen < 2 ^ 64 := by
      cases hfrozen : frozen with
      | nil => exact absurd hfrozen hnoted.nonempty
      | cons t rest =>
      have hmem := (hnoted.older t (by
        rw [hfrozen]
        exact List.mem_cons_self ..)).left
      exact h.mixed.inOrder.files.base_lt t
        (older_mem_segments hmem)
    exact
      { mixed := h.mixed.written hw hname hnames
          ⟨_, _, _, hbase, hfile.short, rfl⟩
        small := h.small
        kept := by
          intro e he
          rcases h.kept e he with ⟨c, hc, k, hoff, hd, hinside⟩
          refine ⟨c, hc, k, hoff, hd, ?_⟩
          show _ ≤ (dir.content c.file).length
          rw [h.mixed.content_written hw hname hc]
          exact hinside
        phase := by
          refine ⟨?_, i, now, recs, hfile⟩
          exact
            { nonempty := hnoted.nonempty
              older := hnoted.older
              apart := hnoted.apart } }
  | written frozen =>
    rw [hp] at hstep
    cases hstep

omit h in
theorem FileWritten.written (hp : p.InOrder) {frozen : List Segment}
    {i created : Nat} {recs : List Bytes}
    (h : FileWritten p.dir frozen i created recs) :
    LogCompactor.Written p.dir p.dir
      (compactedName (firstBase frozen)) i
      (segmentFile (firstBase frozen) created recs []) where
  proper := hp.files.proper
  mem := h.mem
  names := fun _ he => Or.inl he
  names_of := fun _ he => he
  fresh := Or.inl h.mem
  content := h.content
  content_ne := fun _ _ _ => rfl
  length_le := Nat.le_refl _

omit h in
theorem exists_taken (h : MixedLog p front last)
    (hfirst : FrozenFirst p)
    (hsome : frozenSegments p ≠ []) {i created : Nat}
    {recs : List Bytes}
    (hfile : FileWritten p.dir (frozenSegments p) i created recs)
    {q : Partition} (hswap : LogCompactor.swap p
      (firstBase (frozenSegments p)) now = .ok q) :
    exists s recs', Taken p s q ∧
      Compacted q.dir s recs' ∧
      s.baseOff = firstBase (frozenSegments p) ∧
      recs'.length ≤ recs.length := by
  have hname := isLog_compactedName
    (firstBase (frozenSegments p))
  have hle := firstBase_add_offsets_le hfirst h.ordered h.range hsome
    (active_mem_segments p) h.inOrder.unfrozen
  have hactive := h.inOrder.files.base_lt p.active
    (active_mem_segments p)
  have hfits := hfile.fits
  have hnext : firstBase (frozenSegments p) +
      recs.length < 2 ^ 64 := by
    omega
  have hbase : firstBase (frozenSegments p) <
      2 ^ 64 := by
    omega
  have hkeys : DistinctKeys (fileRecords (segmentFile
      (firstBase (frozenSegments p)) created recs
        [])) := by
    rw [fileRecords_segmentFile _ _ hfile.short]
    exact hfile.keys
  have hw := hfile.written h.inOrder
  rcases removeAll_spec h.inOrder.files.proper
    (frozenSegments p) with ⟨hproper, hcontent, hfiles, hnames⟩
  rcases exists_swapped h.inOrder hw
    ⟨_, _, _, hbase, hfile.short, rfl⟩ hkeys
    (loadable_compactedName _) hbase now with
    ⟨dir', s, hopen, hswapped⟩
  have hstands : forall j,
      (compactedName
        (firstBase (frozenSegments p)), j) ∈
          (removeAll p.dir
            (frozenSegments p)).names ->
        (removeAll p.dir
          (frozenSegments p)).content j = segmentFile
            (firstBase (frozenSegments p)) created
            recs [] := by
    intro j hj
    have heq := hw.proper.eq_of_name_eq ((hnames _).mp hj).left hw.mem rfl
    have hji : j = i := congrArg Prod.snd heq
    rw [hji, hcontent, hfile.content]
  rcases exists_compacted hproper hstands hfile.short hnext hopen
    with ⟨recs', hrecs, hsbase, hlength⟩
  rcases openFile_frame hopen with ⟨hframe, hlonger, _⟩
  have hopened : Opened (removeAll p.dir
      (frozenSegments p)) (compactedName
        (firstBase (frozenSegments p))) dir' s := by
    have hrecord : forall j,
        (compactedName
          (firstBase (frozenSegments p)), j) ∈
            (removeAll p.dir
              (frozenSegments p)).names ->
          RecordFile ((removeAll p.dir
            (frozenSegments p)).content j) := by
      intro j hj
      rw [hstands j hj]
      exact ⟨_, _, _, hbase, hfile.short, rfl⟩
    rcases exists_openFile hproper hrecord p.maxSegSize now hbase
      with ⟨dir'', s'', hopen'', hopened, _⟩
    rw [hopen] at hopen''
    cases hopen''
    exact hopened
  rw [removeAll] at hopen
  simp only [LogCompactor.swap, hopen] at hswap
  cases hswap
  refine ⟨s, recs', ?_, hrecs, hsbase, hlength⟩
  exact
    { result := rfl
      names := by
        rw [← names_removeAll_frozen h.inOrder.unfrozen]
        exact names_openFile hopen hname
      names_of := fun e he hfree => hframe e ((hnames e).mpr ⟨he, hfree⟩)
      length_le := by
        rw [← hfiles]
        exact hlonger
      content := by
        intro j hj
        rw [hopened.content j (by rw [hfiles]; exact hj), hcontent]
      inOrder := hswapped.inOrder
      isLog := by
        rw [openFile_path hopen]
        exact hname }

theorem Sheltered.swap (hsame : frozenSegments s.partition = s.phase.segments)
    (hfirst : FrozenFirst s.partition) (hown : OwnFiles s.partition)
    (hstep : step lc s (.swap now) = some s') :
    exists front', Sheltered s' front' last := by
  have hphase := h.phase
  unfold step at hstep
  simp only at hstep
  cases hp : s.phase with
  | idle =>
    rw [hp] at hstep
    cases hstep
  | noted frozen =>
    rw [hp] at hstep
    cases hstep
  | written frozen =>
  rw [hp] at hstep hphase hsame
  have hnoted := hphase.left
  rcases hphase.right with ⟨i, created, recs, hfile⟩
  change frozenSegments s.partition = frozen at hsame
  subst hsame
  simp only at hstep
  cases hswap : LogCompactor.swap s.partition (firstBase
      (frozenSegments s.partition)) now with
  | error e =>
    rw [hswap] at hstep
    cases hstep
  | ok q =>
  rw [hswap] at hstep
  cases hstep
  rcases exists_taken h.mixed hfirst hnoted.nonempty hfile hswap with
    ⟨t, recs', htaken, hrecs, hbase, hlength⟩
  have hfits := hfile.fits
  have hnext := hrecs.nextOff
  refine ⟨chunksLeft (frozenLog s.partition) front,
    ?_⟩
  exact
    { mixed := h.mixed.taken htaken hfirst hown hnoted.nonempty hbase
        (by omega) (by omega)
      small := by
        rw [htaken.result]
        exact h.small
      kept := fun e he => htaken.at h.mixed hown (h.kept e he)
        (hnoted.apart e he)
      phase := by
        intro u hu hname
        rw [htaken.older] at hu
        rcases List.mem_cons.mp hu with hnew | hold
        · rw [hnew]
          exact ⟨recs', hrecs.freeze⟩
        have hfree : u.frozen = false := by
          simpa using (List.mem_filter.mp hold).right
        have hload := h.mixed.inOrder.files.loadable u
          (older_mem_segments
            (List.mem_of_mem_filter hold)) hfree
        rw [isLog] at hname
        rw [hname] at hload
        cases hload }

theorem Sheltered.reopen (hstep : step lc s (.reopen now) = some s') :
    exists front' last', Sheltered s' front' last' ∧ last'.next = last.next := by
  unfold step at hstep
  simp only at hstep
  cases hp : s.phase with
  | idle =>
    rw [hp] at hstep
    simp only at hstep
    cases hopen : openPartition s.partition.dir
        s.partition.topicName s.partition.partitionID s.partition.maxSegSize
        now with
    | error e =>
      rw [hopen] at hstep
      cases hstep
    | ok q =>
    rw [hopen] at hstep
    cases hstep
    rcases h.mixed.reopen hopen with
      ⟨front', last', hreloaded, hmixed, hfilled⟩
    refine ⟨front', last', ?_, ?_⟩
    · exact
        { mixed := hmixed
          small := by
            have hsize : q.maxSegSize = s.partition.maxSegSize :=
              hreloaded.maxSegSize
            show q.maxSegSize < 2 ^ 32
            rw [hsize]
            exact h.small
          kept := fun e he => hreloaded.keeps e.1 e.2 (h.kept e he)
          phase := hfilled }
    · rw [hreloaded.next, endOffset_concat]
  | noted frozen =>
    rw [hp] at hstep
    cases hstep
  | written frozen =>
    rw [hp] at hstep
    cases hstep

/-!
## Runs
-/

theorem Sheltered.step (hdec : lc.ShortDecrypt) (hroom : last.next + 1 < 2 ^ 64)
    {a : SharedAction} (hone : Undisturbed s a)
    (hstep : SharedPartition.step lc s a = some s') :
    exists front' last', Sheltered s' front' last' ∧
      last'.next ≤ last.next + 1 := by
  cases a with
  | append data now => exact h.append hroom hstep
  | note => exact ⟨front, last, h.note hstep, Nat.le_succ _⟩
  | rewrite order now =>
    exact ⟨front, last, h.rewrite hdec hone hstep, Nat.le_succ _⟩
  | swap now =>
    rcases hone with ⟨hsame, hfirst, hown⟩
    rcases h.swap hsame hfirst hown hstep with ⟨front', hnext⟩
    exact ⟨front', last, hnext, Nat.le_succ _⟩
  | reopen now =>
  rcases h.reopen hstep with ⟨front', last', hnext, hend⟩
  exact ⟨front', last', hnext, by omega⟩

omit h

theorem sheltered_start {topic : Bytes} {id maxSegSize opened : Nat}
    (hsmall : maxSegSize < 2 ^ 32)
    (hopen : openPartition Disk.empty topic id maxSegSize opened =
      .ok p) :
    exists front last, Sheltered (start p) front last ∧ last.next = 0 := by
  have hempty : Loadable Disk.empty :=
    { proper := Disk.proper_empty
      records := by
        intro e he
        cases he }
  have hlog : LogDir (logFiles Disk.empty) [] :=
    LogDir.nil
  rcases hlog.mixedLog hempty hopen with
    ⟨front, last, hreloaded, hmixed, hfilled⟩
  refine ⟨front, last, ?_, hreloaded.next⟩
  exact
    { mixed := hmixed
      small := by
        have hsize : p.maxSegSize = maxSegSize := hreloaded.maxSegSize
        show p.maxSegSize < 2 ^ 32
        rw [hsize]
        exact hsmall
      kept := by
        intro e he
        cases he
      phase := hfilled }

def ShelteredAfter (s : SharedPartition) (past : List SharedAction) : Prop :=
  past.length < 2 ^ 64 -> exists front last, Sheltered s front last ∧
    last.next ≤ past.length

/--
In every run in which every compaction takes away what it has noted, from the
front and with files of its own, the records outside the noted segments stay
readable at their offsets.
-/
theorem keepsOutside_of_undisturbed {lc : LogCompactor}
    (hdec : lc.ShortDecrypt) {topic : Bytes} {id maxSegSize opened : Nat}
    {p : Partition} {actions : List SharedAction} {s : SharedPartition}
    (hsmall : maxSegSize < 2 ^ 32)
    (hopen : openPartition Disk.empty topic id maxSegSize opened =
      .ok p)
    (hfew : actions.length < 2 ^ 64)
    (hundisturbed : Meets (SharedPartition.step lc) Undisturbed (start p)
      actions)
    (hrun : run? (SharedPartition.step lc) (start p) actions = some s) :
    KeepsOutside s := by
  have hinv : ShelteredAfter s ([] ++ actions) := by
    apply run?_trace_of_meets _ _ hundisturbed hrun
    · intro s past a s' h hone hstep hlength
      rw [List.length_append, List.length_singleton] at hlength ⊢
      rcases h (by omega) with ⟨front, last, hsheltered, hle⟩
      rcases hsheltered.step hdec (by omega) hone hstep with
        ⟨front', last', hnext, hle'⟩
      exact ⟨front', last', hnext, by omega⟩
    · intro _
      rcases sheltered_start hsmall hopen with ⟨front, last, h, hnext⟩
      exact ⟨front, last, h, Nat.le_of_eq hnext⟩
  rcases hinv hfew with ⟨front, last, hsheltered, _⟩
  exact hsheltered.keepsOutside

def appendsBetween : List SharedAction :=
  [.append (keyedRecord 1) 0,
    .append (keyedRecord 2) 0,
    .append (keyedRecord 1) 0,
    .append (keyedRecord 2) 0,
    .append (keyedRecord 1) 0, .note,
    .append (keyedRecord 3) 0,
    .rewrite [keyedRecord 1, keyedRecord 2] 0,
    .swap 0, .append (keyedRecord 4) 0, .reopen 0]

theorem keepsOutside_appendsBetween :
    exists p s, openPartition Disk.empty [] 0 170 0 = .ok p ∧
      run? (SharedPartition.step (newLogCompactor .keyBased))
        (start p) appendsBetween = some s ∧
      s.outside = [(4, keyedRecord 1),
        (5, keyedRecord 3), (6, keyedRecord 4)] ∧
      KeepsOutside s := by
  have hcheck : (openPartition Disk.empty [] 0 170 0).toOption.bind
      (fun p => (run? (SharedPartition.step
        (newLogCompactor .keyBased)) (start p)
          appendsBetween).map (fun s =>
            decide (Meets (SharedPartition.step
              (newLogCompactor .keyBased)) Undisturbed (start p)
                appendsBetween ∧
              s.outside = [(4, keyedRecord 1),
                (5, keyedRecord 3),
                (6, keyedRecord 4)]))) = some true := by
    decide +kernel
  have hdec : (newLogCompactor .keyBased).ShortDecrypt := by
    intro id data plain hplain
    cases hplain
    exact Nat.le_refl _
  rcases hp : openPartition Disk.empty [] 0 170 0 with e | p
  · rw [hp] at hcheck
    cases hcheck
  rw [hp] at hcheck
  rcases Option.map_eq_some_iff.mp hcheck with ⟨s, hrun, hdecide⟩
  rcases of_decide_eq_true hdecide with ⟨hundisturbed, houtside⟩
  exact ⟨p, s, rfl, hrun, houtside, keepsOutside_of_undisturbed hdec
    (by decide) hp (by decide) hundisturbed hrun⟩

def freezesBetween : List SharedAction :=
  [.append (keyedRecord 1) 0,
    .append (keyedRecord 2) 0,
    .append (keyedRecord 3) 0, .note,
    .append (keyedRecord 4) 0,
    .rewrite [keyedRecord 1, keyedRecord 2] 0,
    .swap 0]

/-- The swap removes it, and its record is not in the compacted segment. -/
theorem not_keepsOutside_freezesBetween :
    exists p s, openPartition Disk.empty [] 0 110 0 = .ok p ∧
      run? (SharedPartition.step (newLogCompactor .keyBased))
        (start p) freezesBetween = some s ∧
      s.outside = [(2, keyedRecord 3),
        (3, keyedRecord 4)] ∧
      s.partition.read 2 = .error (.offsetNotFound 2) ∧
      s.partition.read 3 = .ok (keyedRecord 4) ∧
      ¬ KeepsOutside s := by
  have hcheck : (openPartition Disk.empty [] 0 110 0).toOption.bind
      (fun p => (run? (SharedPartition.step
        (newLogCompactor .keyBased)) (start p)
          freezesBetween).map (fun s =>
            decide (s.outside = [(2, keyedRecord 3),
                (3, keyedRecord 4)] ∧
              s.partition.read 2 = .error (.offsetNotFound 2) ∧
              s.partition.read 3 = .ok (keyedRecord 4)))) =
        some true := by
    decide +kernel
  rcases hp : openPartition Disk.empty [] 0 110 0 with e | p
  · rw [hp] at hcheck
    cases hcheck
  rw [hp] at hcheck
  rcases Option.map_eq_some_iff.mp hcheck with ⟨s, hrun, hdecide⟩
  rcases of_decide_eq_true hdecide with ⟨houtside, htwo, hthree⟩
  refine ⟨p, s, rfl, hrun, houtside, htwo, hthree, ?_⟩
  intro hkeeps
  have hread := hkeeps (2, keyedRecord 3) (by
    rw [houtside]
    exact List.mem_cons_self ..)
  rw [htwo] at hread
  cases hread

end SharedPartition

end Storage
end ChimeraMQ
