import ChimeraMQ.Storage.CompactionConcurrent
import ChimeraMQ.Storage.CompactionReads

/-!
# Offsets after a compaction

The records that a compaction keeps are written one after the other from the
first offset of the frozen segments on, whatever offsets they had.
-/

namespace ChimeraMQ
namespace Storage

open Foundation
open Message
open LogCompactor
open Storage.Partition

/--
A partition, what has been appended to it under which offsets, and how it was
before the last action if that was a compaction.
-/
structure GivenPartition where
  partition : Partition
  given : List (Nat × Bytes)
  before : Option Partition

namespace GivenPartition

def start (p : Partition) : GivenPartition where
  partition := p
  given := []
  before := none

def step (lc : LogCompactor) (s : GivenPartition) :
    PartitionAction -> Option GivenPartition
  | .append data now =>
    let r := s.partition.append data now
    match r.2 with
    | .ok offset =>
      some
        { partition := r.1
          given := s.given ++ [(offset, data)]
          before := none }
    | .error _ => some { s with partition := r.1, before := none }
  | .compact order now =>
    match lc.compact s.partition order now with
    | some (.ok p) =>
      some { s with partition := p, before := some s.partition }
    | _ => none
  | .reopen now =>
    match openPartition s.partition.dir s.partition.topicName
      s.partition.partitionID s.partition.maxSegSize now with
    | .error _ => none
    | .ok p => some { s with partition := p, before := none }

/--
Whatever is read has been given under this offset and no other record has, and
what is read after a compaction was read before it.
-/
structure KeepsAddresses (s : GivenPartition) : Prop where
  given : forall offset data, s.partition.read offset = .ok data ->
    (offset, data) ∈ s.given
  distinct : (s.given.map Prod.fst).Nodup
  same : forall p, s.before = some p -> forall offset data,
    s.partition.read offset = .ok data -> p.read offset = .ok data

end GivenPartition

namespace LogCompactor

def keylessRecord (lc : LogCompactor) (id data : Bytes) : Option Bytes :=
  match lc.decrypt id data with
  | none => none
  | some plain =>
    match unmarshal plain with
    | .error _ => none
    | .ok env => if env.routingKey = [] then some plain else none

/-- The frozen records without a routing key, and then the given ones. -/
def keptInOrder (lc : LogCompactor) (p : Partition) (order : List Bytes) :
    List Bytes :=
  (readFrozen p).filterMap (lc.keylessRecord (segID p)) ++ order

/--
The records that are kept stand at the first offsets of the frozen segments in
the order in which they are written, and fit into a file below 4 GiB.
-/
def KeptFirst (lc : LogCompactor) (p : Partition) (order : List Bytes) :
    Prop :=
  endOfRecords (lc.keptInOrder p order) < 2 ^ 32 ∧
    forall e, e ∈ (lc.keptInOrder p order).zipIdx
        (firstBase (frozenSegments p)) ->
      p.read e.2 = .ok e.1

instance (lc : LogCompactor) (p : Partition) (order : List Bytes) :
    Decidable (lc.KeptFirst p order) :=
  inferInstanceAs (Decidable (_ ∧ forall e, e ∈ List.zipIdx _ _ -> _))

theorem keyless_collect (lc : LogCompactor) (id : Bytes) (c : Compacting)
    (data : Bytes) :
    (lc.collect id c data).keyless =
      c.keyless ++ (lc.keylessRecord id data).toList := by
  unfold collect keylessRecord
  cases lc.decrypt id data with
  | none => exact (List.append_nil _).symm
  | some plain =>
  cases henv : unmarshal plain with
  | error e =>
    simp only [henv]
    exact (List.append_nil _).symm
  | ok env =>
  simp only [henv]
  by_cases hkey : env.routingKey = []
  · rw [if_pos hkey, if_pos hkey]
    rfl
  rw [if_neg hkey, if_neg hkey]
  split
  · exact (List.append_nil _).symm
  · exact (List.append_nil _).symm

theorem keyless_foldl (lc : LogCompactor) (id : Bytes) (recs : List Bytes)
    (c : Compacting) :
    (recs.foldl (lc.collect id) c).keyless =
      c.keyless ++ recs.filterMap (lc.keylessRecord id) := by
  induction recs generalizing c with
  | nil => exact (List.append_nil _).symm
  | cons data recs ih =>
  rw [List.foldl_cons, ih, keyless_collect, List.append_assoc]
  cases hone : lc.keylessRecord id data with
  | none =>
    rw [List.filterMap_cons_none hone]
    rfl
  | some plain =>
  rw [List.filterMap_cons_some hone]
  rfl

theorem keptInOrder_eq (lc : LogCompactor) (p : Partition)
    (order : List Bytes) :
    lc.keptInOrder p order = (lc.collectAll p).keyless ++ order := by
  have hall := lc.keyless_foldl (segID p) (readFrozen p)
    (Compacting.mk [] [] 0 false)
  unfold keptInOrder
  congr 1
  exact hall.symm

end LogCompactor

namespace GivenPartition

/--
A compaction that has something to compact takes segments away from the front
that have their files for themselves, and what it keeps comes first, unless the
swap removes the new file as well.
-/
def Spared (lc : LogCompactor) (s : GivenPartition) :
    PartitionAction -> Prop
  | .append _ _ => True
  | .compact order _ => Compacts s.partition ->
      FrozenFirst s.partition ∧ OwnFiles s.partition ∧
        (Overwrites s.partition ∨ lc.KeptFirst s.partition order)
  | .reopen _ => True

instance (lc : LogCompactor) (s : GivenPartition) (a : PartitionAction) :
    Decidable (Spared lc s a) := by
  cases a with
  | append data now => exact instDecidableTrue
  | compact order now => exact inferInstanceAs (Decidable (_ -> _ ∧ _ ∧ _))
  | reopen now => exact instDecidableTrue

end GivenPartition

namespace Partition

theorem exists_segment_of_read {p : Partition} {offset : Nat} {data : Bytes}
    (h : p.read offset = .ok data) :
    exists t, t ∈ p.segments ∧ t.baseOff ≤ offset ∧ offset < t.nextOff ∧
      t.read (p.content t) offset = .ok data := by
  unfold Partition.read at h
  cases hfind : p.findSegment offset with
  | none =>
    rw [hfind] at h
    cases h
  | some t =>
  rcases binarySearch_eq hfind with ⟨ht, hcmp⟩
  have hrange : offset ≥ t.baseOff ∧ offset < t.nextOff := by
    by_contra hout
    rw [if_neg hout] at hcmp
    split at hcmp
    · cases hcmp
    · cases hcmp
  refine ⟨t, ht, hrange.left, hrange.right, ?_⟩
  simp only [hfind] at h
  split at h
  · cases h
  · rename_i hread
    cases h
    exact hread

theorem read_of_segment {p : Partition}
    (hordered : p.segments.Pairwise (fun s t => s.nextOff ≤ t.baseOff))
    (hrange : forall s, s ∈ p.segments -> s.baseOff ≤ s.nextOff) {t : Segment}
    (ht : t ∈ p.segments) {offset : Nat} (hle : t.baseOff ≤ offset)
    (hlt : offset < t.nextOff) {data : Bytes}
    (hread : t.read (p.content t) offset = .ok data) :
    p.read offset = .ok data := by
  unfold Partition.read
  simp only [findSegment_of_mem hordered hrange ht hle hlt, hread]

theorem Compacted.read {dir : Disk} {t : Segment} {recs : List Bytes}
    (h : Compacted dir t recs) (hend : endOfRecords recs < 2 ^ 32)
    {i : Nat} {d : Bytes} (hd : recs[i]? = some d) :
    t.read (dir.content t.file) (t.baseOff + i) = .ok d := by
  apply (h.stands hend).read hd
  rcases h.file with ⟨created, hfile⟩
  rw [hfile, length_segmentFile]
  exact (endOfRecords_take_le recs (i + 1)).trans (Nat.le_add_right _ _)

end Partition

namespace GivenPartition

/-!
## The invariant
-/

def CompactedGiven (p : Partition) (given : List (Nat × Bytes)) : Prop :=
  forall t, t ∈ p.older -> isLog t.path = false ->
    exists recs, Compacted p.dir t recs ∧
      endOfRecords recs < 2 ^ 32 ∧
      forall i d, recs[i]? = some d -> (t.baseOff + i, d) ∈ given

structure Numbered (p : Partition) (given : List (Nat × Bytes))
    (front : List Chunk) (last : Chunk) : Prop where
  mixed : MixedLog p front last
  retained : Retained p.logPart front last given
  compacted : CompactedGiven p given

variable {p q : Partition} {given : List (Nat × Bytes)}
  {front : List Chunk} {last : Chunk}

variable (h : Numbered p given front last)

include h

theorem Numbered.filled : Filled p := by
  intro t ht hname
  rcases h.compacted t ht hname with ⟨recs, hrecs, _⟩
  exact ⟨recs, hrecs⟩

theorem Numbered.distinct : (given.map Prod.fst).Nodup := by
  have hrange : given.map Prod.fst = List.range given.length := by
    apply List.ext_getElem?
    intro i
    rw [List.getElem?_map]
    by_cases hi : i < given.length
    · have hget := List.getElem?_eq_getElem hi
      rw [List.getElem?_range hi, hget, Option.map_some,
        h.retained.numbered i _ hget]
    rw [List.getElem?_eq_none (Nat.not_lt.mp hi),
      List.getElem?_eq_none (by
        rw [List.length_range]
        exact Nat.not_lt.mp hi)]
    rfl
  rw [hrange]
  exact List.nodup_range

theorem Numbered.given_of_read {offset : Nat} {data : Bytes}
    (hread : p.read offset = .ok data) :
    (offset, data) ∈ given := by
  rcases exists_segment_of_read hread with
    ⟨t, ht, hle, hlt, hsegment⟩
  cases hname : isLog t.path with
  | true =>
    have hlog : t ∈ p.logPart.segments := by
      rw [segments_logPart p h.mixed.isLog_active]
      exact List.mem_filter.mpr ⟨ht, hname⟩
    have hpart : p.logPart.read offset = .ok data :=
      read_of_segment h.mixed.log.ordered
        (fun s hs => h.mixed.log.base_le_next hs) hlog hle hlt hsegment
    exact List.mem_of_mem_drop
      ((h.retained.read_iff offset data).mp hpart)
  | false =>
  have hold : t ∈ p.older := by
    rcases List.mem_append.mp ht with hold | hlast
    · exact hold
    · rw [List.mem_singleton.mp hlast, h.mixed.isLog_active] at hname
      cases hname
  rcases h.compacted t hold hname with ⟨recs, hrecs, hend, hgiven⟩
  have hnext := hrecs.nextOff
  have hi : offset - t.baseOff < recs.length := by omega
  have hd := List.getElem?_eq_getElem hi
  have hoff : t.baseOff + (offset - t.baseOff) = offset := by omega
  have hsame := hrecs.read hend hd
  rw [hoff] at hsame
  have heq : recs[offset - t.baseOff] = data := by
    rw [content, hsame] at hsegment
    exact Except.ok.inj hsegment
  rw [heq] at hd
  have hmem := hgiven _ _ hd
  rwa [hoff] at hmem

/-!
## Appending and opening again
-/

theorem Numbered.append (hroom : given.length + 1 < 2 ^ 64) {lc : LogCompactor}
    {data : Bytes} {now : Nat} {before : Option Partition} {s : GivenPartition}
    (hstep : step lc ⟨p, given, before⟩ (.append data now) = some s) :
    exists front' last', Numbered s.partition s.given front' last' ∧
      s.given.length ≤ given.length + 1 ∧ s.before = none := by
  have hnext : last.next + 1 < 2 ^ 64 := by
    rw [h.retained.length]
    exact hroom
  rcases h.mixed.append h.retained.small hnext data now with
    ⟨front', last', hgrown⟩
  have hgrown' := hgrown.grown
  have hcompacted : forall more, CompactedGiven (p.append data now).1
      (given ++ more) := by
    intro more t ht hname
    rcases h.compacted t (hgrown.mem_older h.mixed ht hname) hname with
      ⟨recs, hrecs, hend, hgiven⟩
    exact ⟨recs, hrecs.congr (hgrown.content h.mixed ht hname), hend,
      fun i d hd => List.mem_append_left more (hgiven i d hd)⟩
  unfold step at hstep
  simp only at hstep
  cases hr : (p.append data now).2 with
  | error e =>
    rw [hr] at hstep hgrown'
    cases hstep
    have hnone := hcompacted []
    rw [List.append_nil] at hnone
    exact ⟨front', last', ⟨hgrown.mixed, h.retained.of_grown_error hgrown',
      hnone⟩, Nat.le_succ _, rfl⟩
  | ok offset =>
  rw [hr] at hstep hgrown'
  cases hstep
  exact ⟨front', last', ⟨hgrown.mixed, h.retained.of_grown_ok hgrown',
    hcompacted _⟩, Nat.le_of_eq List.length_append, rfl⟩

variable {now : Nat}

theorem Numbered.reopen {topic : Bytes} {id : Nat}
    (hopen : openPartition p.dir topic id p.maxSegSize now = .ok q) :
    Numbered q given front last := by
  rcases h.mixed.reopen hopen with ⟨front', last', hreloaded, hmixed, _⟩
  rcases h.retained.of_reloaded hreloaded with ⟨hfront, hlast, hretained⟩
  subst hfront
  subst hlast
  refine ⟨hmixed, hretained, ?_⟩
  intro t ht hname
  rw [(named_of_openPartition hopen ht).left] at hname
  cases hname

omit h

/-!
## Compacting
-/

theorem retained_congr (h : Retained p front last given)
    (hopened : OpenLog q front last)
    (hsize : q.maxSegSize = p.maxSegSize)
    (hcontent : forall c, c ∈ front ++ [last] ->
      q.dir.content c.file = p.dir.content c.file) :
    Retained q front last given where
  opened := hopened
  small := by
    rw [hsize]
    exact h.small
  length := h.length
  numbered := h.numbered
  stored := by
    intro i e he hstart
    rcases h.stored i e he hstart with ⟨c, hc, k, hoff, hd, hinside⟩
    refine ⟨c, hc, k, hoff, hd, ?_⟩
    rw [hcontent c hc]
    exact hinside

theorem noted_frozenSegments (h : MixedLog p front last)
    (hsome : frozenSegments p ≠ []) :
    SharedPartition.Noted p [] (frozenSegments p) where
  nonempty := hsome
  older := by
    intro t ht
    rcases mem_frozenSegments.mp ht with ⟨hmem, hfrozen⟩
    refine ⟨?_, hfrozen⟩
    rcases List.mem_append.mp hmem with hold | hlast
    · exact hold
    · rw [List.mem_singleton.mp hlast, h.inOrder.unfrozen] at hfrozen
      cases hfrozen
  apart := by
    intro e he
    cases he

variable {lc : LogCompactor} {order : List Bytes}

theorem exists_phases (hcompacts : Compacts p)
    (hcompact : lc.compact p order now = some (.ok q)) :
    exists dir,
      lc.rewrite p (frozenSegments p) order now =
        some (some dir) ∧
      swap { p with dir := dir }
        (firstBase (frozenSegments p)) now =
          .ok q := by
  rcases hcompacts with ⟨hmany, t, ht, hread⟩
  rw [compact_eq_phases, if_neg (Nat.not_lt.mpr hmany)]
    at hcompact
  rcases Option.map_eq_some_iff.mp hcompact with ⟨written, hwritten, hq⟩
  cases written with
  | none =>
    have hsome : (lc.collectFrom p
        (frozenSegments p)).totalRead ≠ 0 := fun hzero =>
      hread ((totalRead_collectAll lc p).mp hzero t ht)
    unfold rewrite at hwritten
    simp only [hsome, if_false] at hwritten
    split at hwritten
    · cases hwritten
    · cases hwritten
  | some dir => exact ⟨dir, hwritten, hq⟩

structure Compaction (lc : LogCompactor) (p : Partition) (order : List Bytes)
    (front : List Chunk) (last : Chunk) (q : Partition)
    (s : Segment) (recs : List Bytes) : Prop where
  mixed : MixedLog q
    (chunksLeft (frozenLog p) front) last
  segments : q.segments = s.freeze :: p.segments.filter (fun t => !t.frozen)
  compacted : Compacted q.dir s recs
  baseOff : s.baseOff =
    firstBase (frozenSegments p)
  records : recs =
    if Overwrites p then [] else lc.keptInOrder p order

theorem Numbered.exists_compaction (h : Numbered p given front last)
    (hdec : lc.ShortDecrypt) (hcompacts : Compacts p)
    (hfirst : FrozenFirst p) (hown : OwnFiles p)
    (hcompact : lc.compact p order now = some (.ok q)) :
    exists s recs, Compaction lc p order front last q s recs ∧
      Retained q.logPart
        (chunksLeft (frozenLog p) front) last given := by
  have hsome : frozenSegments p ≠ [] := by
    intro hnil
    have hmany := hcompacts.left
    rw [hnil] at hmany
    cases hmany
  have hnoted := noted_frozenSegments h.mixed hsome
  rcases exists_phases hcompacts hcompact with ⟨dir, hrewrite, hswap⟩
  rcases SharedPartition.exists_fileWritten h.mixed h.filled hown hdec hnoted
    hrewrite with ⟨i, written, hfile, hw, hnames⟩
  have hname := isLog_compactedName
    (firstBase (frozenSegments p))
  have hbase : firstBase (frozenSegments p) <
      2 ^ 64 := by
    have hle := firstBase_add_offsets_le hfirst h.mixed.ordered
      h.mixed.range hsome (active_mem_segments p)
      h.mixed.inOrder.unfrozen
    have hlt := h.mixed.inOrder.files.base_lt p.active
      (active_mem_segments p)
    omega
  have hmixed := h.mixed.written hw hname hnames
    ⟨_, _, _, hbase, hfile.short, rfl⟩
  rcases SharedPartition.exists_taken hmixed hfirst hsome hfile hswap with
    ⟨s, recs, htaken, hrecs, hsbase, hlength⟩
  have hfits := hfile.fits
  have hnext := hrecs.nextOff
  have hq := hmixed.taken htaken hfirst hown hsome hsbase (by omega)
    (by
      show s.nextOff ≤ s.baseOff +
        offsets (frozenSegments p)
      omega)
  refine ⟨s, recs, ?_, ?_⟩
  · rcases exists_rewritten h.mixed.inOrder hdec hcompacts
      hcompact with ⟨q', s', hq', hrewritten⟩
    cases hq'
    have hsegments := htaken.segments h.mixed.inOrder.unfrozen
    have hsame : s' = s.freeze := by
      have hboth := hrewritten.segments.symm.trans hsegments
      exact (List.cons.inj hboth).left
    have hrecords := hrewritten.records
    rcases hrecs.file with ⟨created, hcontent⟩
    rw [hsame] at hrecords
    change fileRecords (q.dir.content s.file) = _ at hrecords
    rw [hcontent, fileRecords_segmentFile _ _ hrecs.short] at hrecords
    exact
      { mixed := hq
        segments := hsegments
        compacted := hrecs
        baseOff := hsbase
        records := by
          rw [keptInOrder_eq]
          exact hrecords }
  have hwritten : Retained
      (logPart { p with dir := dir }) front last given :=
    retained_congr h.retained hmixed.log rfl
      (fun c hc => h.mixed.content_written hw hname hc)
  have hleft := hwritten.trimmed
    (FrozenFirst.trimmed (p := { p with dir := dir }) hfirst)
    (fun t ht u hu => OwnFiles.path_ne_frozenLog
      (p := { p with dir := dir }) hown h.mixed.inOrder.unfrozen ht hu)
  apply retained_congr hleft (htaken.openLog hmixed hfirst hown)
  · show q.maxSegSize = p.maxSegSize
    rw [htaken.result]
  intro c hc
  have hlt := hleft.opened.dir.file_lt c hc
  have hfiles : (unfrozenLog { p with dir := dir }).dir.files =
      dir.files := files_removeFiles _ _
  rw [hfiles] at hlt
  have hsame : (unfrozenLog { p with dir := dir }).dir.content
      c.file = dir.content c.file := content_removeFiles _ _ _
  rw [hsame]
  exact htaken.content c.file hlt

theorem Compaction.kept {s : Segment} {recs : List Bytes}
    (h : Compaction lc p order front last q s recs)
    (hkept : Overwrites p ∨ lc.KeptFirst p order) :
    endOfRecords recs < 2 ^ 32 ∧ forall i d, recs[i]? = some d ->
      p.read (s.baseOff + i) = .ok d := by
  have hrecords := h.records
  by_cases hover : Overwrites p
  · rw [if_pos hover] at hrecords
    rw [hrecords]
    refine ⟨by decide, ?_⟩
    intro i d hd
    cases hd
  rw [if_neg hover] at hrecords
  rcases hkept.resolve_left hover with ⟨hend, hread⟩
  rw [hrecords, h.baseOff]
  refine ⟨hend, ?_⟩
  intro i d hd
  exact hread (d, _) (List.mk_add_mem_zipIdx_iff_getElem?.mpr hd)

theorem Compaction.same {s : Segment} {recs : List Bytes}
    (h : Compaction lc p order front last q s recs)
    (hp : MixedLog p front last)
    (hcontent : forall t, t ∈ p.segments -> t.frozen = false ->
      q.dir.content t.file = p.dir.content t.file)
    (hend : endOfRecords recs < 2 ^ 32)
    (hkept : forall i d, recs[i]? = some d -> p.read (s.baseOff + i) = .ok d)
    {offset : Nat} {data : Bytes} (hread : q.read offset = .ok data) :
    p.read offset = .ok data := by
  rcases exists_segment_of_read hread with
    ⟨t, ht, hle, hlt, hsegment⟩
  rw [h.segments] at ht
  rcases List.mem_cons.mp ht with hnew | hold
  · subst hnew
    have hrecs := h.compacted.freeze
    have hnext := hrecs.nextOff
    change s.baseOff ≤ offset at hle
    change offset < s.nextOff at hlt
    change s.nextOff = s.baseOff + recs.length at hnext
    have hi : offset - s.baseOff < recs.length := by omega
    have hd := List.getElem?_eq_getElem hi
    have hoff : s.baseOff + (offset - s.baseOff) = offset := by omega
    have hsame := hrecs.read hend hd
    change s.freeze.read _ (s.baseOff + (offset - s.baseOff)) = _ at hsame
    rw [hoff] at hsame
    have heq : recs[offset - s.baseOff] = data := by
      rw [content, hsame] at hsegment
      exact Except.ok.inj hsegment
    have hbefore := hkept _ _ hd
    rw [hoff, heq] at hbefore
    exact hbefore
  · rcases mem_unfrozen.mp hold with ⟨hmem, hfrozen⟩
    apply read_of_segment hp.ordered hp.range hmem hle hlt
    rw [content, ← hcontent t hmem hfrozen]
    exact hsegment

theorem Numbered.compact (h : Numbered p given front last)
    (hdec : lc.ShortDecrypt)
    (hspared : Compacts p -> FrozenFirst p ∧
      OwnFiles p ∧
        (Overwrites p ∨ lc.KeptFirst p order))
    (hcompact : lc.compact p order now = some (.ok q)) :
    exists front', Numbered q given front' last ∧
      forall offset data, q.read offset = .ok data ->
        p.read offset = .ok data := by
  rcases compact_spec h.mixed.inOrder hdec hcompact with
    ⟨_, hq⟩ | ⟨hcompacts, q', hq, hswapped⟩
  · cases hq
    exact ⟨front, h, fun _ _ hread => hread⟩
  cases hq
  rcases hspared hcompacts with ⟨hfirst, hown, hkept⟩
  rcases h.exists_compaction hdec hcompacts hfirst hown hcompact with
    ⟨s, recs, hcompaction, hretained⟩
  rcases hcompaction.kept hkept with ⟨hend, hreads⟩
  refine ⟨_, ⟨hcompaction.mixed, hretained, ?_⟩, ?_⟩
  · intro t ht hname
    have hsegments := hcompaction.segments
    have hmem : t ∈ q.segments := older_mem_segments ht
    rw [hsegments] at hmem
    rcases List.mem_cons.mp hmem with hnew | hold
    · subst hnew
      exact ⟨recs, hcompaction.compacted.freeze, hend,
        fun i d hd => h.given_of_read (hreads i d hd)⟩
    rcases mem_unfrozen.mp hold with ⟨hold, hfrozen⟩
    have hload := h.mixed.inOrder.files.loadable t hold hfrozen
    rw [isLog] at hname
    rw [hname] at hload
    cases hload
  · exact fun offset data hread => hcompaction.same h.mixed
      hswapped.content hend hreads hread

/-!
## Runs
-/

theorem Numbered.step (h : Numbered p given front last) (hdec : lc.ShortDecrypt)
    (hroom : given.length + 1 < 2 ^ 64) {before : Option Partition}
    {a : PartitionAction} (hspared : Spared lc ⟨p, given, before⟩ a)
    {s : GivenPartition}
    (hstep : GivenPartition.step lc ⟨p, given, before⟩ a = some s) :
    exists front' last', Numbered s.partition s.given front' last' ∧
      s.given.length ≤ given.length + 1 ∧ s.KeepsAddresses := by
  cases a with
  | append data now =>
    rcases h.append hroom hstep with
      ⟨front', last', hnext, hlength, hbefore⟩
    refine ⟨front', last', hnext, hlength, ?_⟩
    exact
      { given := fun _ _ hread => hnext.given_of_read hread
        distinct := hnext.distinct
        same := by
          intro p' hp'
          rw [hbefore] at hp'
          cases hp' }
  | compact order now =>
    unfold GivenPartition.step at hstep
    simp only at hstep
    split at hstep
    · rename_i q hcompact
      cases hstep
      rcases h.compact hdec hspared hcompact with ⟨front', hnext, hsame⟩
      refine ⟨front', last, hnext, Nat.le_succ _, ?_⟩
      exact
        { given := fun _ _ hread => hnext.given_of_read hread
          distinct := hnext.distinct
          same := by
            intro p' hp'
            cases hp'
            exact hsame }
    · cases hstep
  | reopen now =>
  unfold GivenPartition.step at hstep
  simp only at hstep
  split at hstep
  · cases hstep
  rename_i q hopen
  cases hstep
  have hnext := h.reopen hopen
  refine ⟨front, last, hnext, Nat.le_succ _, ?_⟩
  exact
    { given := fun _ _ hread => hnext.given_of_read hread
      distinct := hnext.distinct
      same := by
        intro p' hp'
        cases hp' }

theorem numbered_start {topic : Bytes} {id maxSegSize opened : Nat}
    (hsmall : maxSegSize < 2 ^ 32)
    (hopen : openPartition Disk.empty topic id maxSegSize opened =
      .ok p) :
    exists front last, Numbered p [] front last := by
  have hempty : Loadable Disk.empty :=
    { proper := Disk.proper_empty
      records := by
        intro e he
        cases he }
  have hlog : LogDir (logFiles Disk.empty) [] :=
    LogDir.nil
  rcases hlog.mixedLog hempty hopen with
    ⟨front, last, hreloaded, hmixed, _⟩
  refine ⟨front, last, ?_⟩
  exact
    { mixed := hmixed
      retained :=
        { opened := hreloaded.log
          small := by
            rw [hreloaded.maxSegSize]
            exact hsmall
          length := hreloaded.next
          numbered := by
            intro i e he
            cases he
          stored := by
            intro i e he
            cases he }
      compacted := by
        intro t ht hname
        rw [(named_of_openPartition hopen ht).left] at hname
        cases hname }

/-- What a run keeps while the offsets do not run out. -/
def NumberedAfter (s : GivenPartition) (past : List PartitionAction) : Prop :=
  past.length < 2 ^ 64 -> (exists front last,
    Numbered s.partition s.given front last) ∧
      s.given.length ≤ past.length ∧ s.KeepsAddresses

/--
If compactions take away what stands in front and what they keep comes first,
every offset stands for its record, or for none any more.
-/
theorem keepsAddresses_of_spared {lc : LogCompactor}
    (hdec : lc.ShortDecrypt) {topic : Bytes} {id maxSegSize opened : Nat}
    {p : Partition} {actions : List PartitionAction} {s : GivenPartition}
    (hsmall : maxSegSize < 2 ^ 32)
    (hopen : openPartition Disk.empty topic id maxSegSize opened =
      .ok p)
    (hfew : actions.length < 2 ^ 64)
    (hspared : Meets (GivenPartition.step lc) (Spared lc) (start p) actions)
    (hrun : run? (GivenPartition.step lc) (start p) actions = some s) :
    s.KeepsAddresses := by
  have hinv : NumberedAfter s ([] ++ actions) := by
    apply run?_trace_of_meets _ _ hspared hrun
    · intro s past a s' h hone hstep hlength
      rw [List.length_append, List.length_singleton] at hlength ⊢
      rcases h (Nat.lt_of_succ_lt hlength) with
        ⟨⟨front, last, hnumbered⟩, hle, _⟩
      rcases hnumbered.step hdec (by omega) hone hstep with
        ⟨front', last', hnext, hone, hkeeps⟩
      exact ⟨⟨front', last', hnext⟩, by omega, hkeeps⟩
    intro _
    have hnumbered := numbered_start hsmall hopen
    refine ⟨hnumbered, Nat.le_refl _, ?_⟩
    rcases hnumbered with ⟨front, last, hstart⟩
    exact
      { given := fun _ _ hread => hstart.given_of_read hread
        distinct := List.nodup_nil
        same := by
          intro p' hp'
          cases hp' }
  rw [List.nil_append] at hinv
  exact (hinv hfew).right.right

def unkeyedRecord : Bytes :=
  match marshal Envelope.zero with
  | .ok data => data
  | .error _ => []

def repeatedKey : List PartitionAction :=
  [.append unkeyedRecord 0, .append (keyedRecord 1) 0,
    .append (keyedRecord 1) 0,
    .append (keyedRecord 2) 0,
    .compact [keyedRecord 1] 0,
    .append (keyedRecord 3) 0]

theorem keepsAddresses_repeatedKey :
    exists p s, openPartition Disk.empty [] 0 110 0 = .ok p ∧
      run? (GivenPartition.step (newLogCompactor .keyBased))
        (start p) repeatedKey = some s ∧
      s.partition.read 0 = .ok unkeyedRecord ∧
      s.partition.read 1 = .ok (keyedRecord 1) ∧
      s.KeepsAddresses := by
  have hcheck : (openPartition Disk.empty [] 0 110 0).toOption.bind
      (fun p => (run? (GivenPartition.step
        (newLogCompactor .keyBased)) (start p)
          repeatedKey).map (fun s =>
            decide (Meets (GivenPartition.step
              (newLogCompactor .keyBased))
                (Spared (newLogCompactor .keyBased)) (start p)
                repeatedKey ∧
              s.partition.read 0 = .ok unkeyedRecord ∧
              s.partition.read 1 = .ok (keyedRecord 1)))) =
        some true := by
    decide +kernel
  have hdec : (newLogCompactor .keyBased).ShortDecrypt := by
    intro id data plain hplain
    cases hplain
    exact Nat.le_refl _
  rcases hp : openPartition Disk.empty [] 0 110 0 with e | p
  · rw [hp] at hcheck
    cases hcheck
  rw [hp] at hcheck
  rcases Option.map_eq_some_iff.mp hcheck with ⟨s, hrun, hdecide⟩
  rcases of_decide_eq_true hdecide with ⟨hspared, hzero, hone⟩
  exact ⟨p, s, rfl, hrun, hzero, hone, keepsAddresses_of_spared hdec
    (by decide) hp (by decide) hspared hrun⟩

def unkeyedLast : List PartitionAction :=
  [.append (keyedRecord 1) 0, .append unkeyedRecord 0,
    .append (keyedRecord 2) 0,
    .compact [keyedRecord 1] 0]

/-- The two messages change places. -/
theorem not_keepsAddresses_unkeyedLast :
    exists p s, openPartition Disk.empty [] 0 110 0 = .ok p ∧
      run? (GivenPartition.step (newLogCompactor .keyBased))
        (start p) unkeyedLast = some s ∧
      s.given = [(0, keyedRecord 1), (1, unkeyedRecord),
        (2, keyedRecord 2)] ∧
      s.partition.read 0 = .ok unkeyedRecord ∧
      s.partition.read 1 = .ok (keyedRecord 1) ∧
      ¬ s.KeepsAddresses := by
  have hcheck : (openPartition Disk.empty [] 0 110 0).toOption.bind
      (fun p => (run? (GivenPartition.step
        (newLogCompactor .keyBased)) (start p)
          unkeyedLast).map (fun s =>
            decide (s.given = [(0, keyedRecord 1),
                (1, unkeyedRecord), (2, keyedRecord 2)] ∧
              s.partition.read 0 = .ok unkeyedRecord ∧
              s.partition.read 1 = .ok (keyedRecord 1) ∧
              (0, unkeyedRecord) ∉ s.given))) = some true := by
    decide +kernel
  rcases hp : openPartition Disk.empty [] 0 110 0 with e | p
  · rw [hp] at hcheck
    cases hcheck
  rw [hp] at hcheck
  rcases Option.map_eq_some_iff.mp hcheck with ⟨s, hrun, hdecide⟩
  rcases of_decide_eq_true hdecide with ⟨hgiven, hzero, hone, hnot⟩
  refine ⟨p, s, rfl, hrun, hgiven, hzero, hone, ?_⟩
  intro hkeeps
  exact hnot (hkeeps.given 0 unkeyedRecord hzero)

end GivenPartition

end Storage
end ChimeraMQ
