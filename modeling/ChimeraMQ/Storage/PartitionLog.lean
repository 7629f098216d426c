import ChimeraMQ.Storage.PartitionFiles
import ChimeraMQ.Storage.TornFile

/-!
# The log of a partition

The log that the files of a partition make up: every file holds a chunk of it,
from a base offset on.  An append puts a record at the end, opening the
partition again finds the same log, and a crash takes records from the ends of
chunks.
-/

namespace ChimeraMQ
namespace Storage

open Foundation

namespace Partition

structure Chunk where
  file : Nat
  base : Nat
  recs : List Bytes

def Chunk.next (c : Chunk) : Nat :=
  c.base + c.recs.length

structure Follows (a b : Chunk) : Prop where
  base_lt : a.base < b.base
  next_le : a.next ≤ b.base
  file_ne : a.file ≠ b.file

/-- The directory has a file for every chunk; a new one may still be empty. -/
structure LogDir (dir : Disk) (chunks : List Chunk) : Prop where
  names : dir.names = chunks.map (fun c => (segmentName c.base, c.file))
  follows : chunks.Pairwise Follows
  file_lt : forall c, c ∈ chunks -> c.file < dir.files.length
  base_lt : forall c, c ∈ chunks -> c.base < 2 ^ 64
  written : forall c, c ∈ chunks ->
    Written (dir.content c.file) c.base c.recs ∨
      dir.content c.file = [] ∧ c.recs = []

/-- The log has the data at the offset, wholly inside its file. -/
def At (dir : Disk) (chunks : List Chunk) (offset : Nat) (data : Bytes) :
    Prop :=
  exists c, c ∈ chunks ∧ exists i, offset = c.base + i ∧
    c.recs[i]? = some data ∧
    endOfRecords (c.recs.take (i + 1)) ≤ (dir.content c.file).length

def endOffset (chunks : List Chunk) : Nat :=
  match chunks.getLast? with
  | none => 0
  | some c => c.next

def startOffset (chunks : List Chunk) : Nat :=
  match chunks.head? with
  | none => 0
  | some c => c.base

structure Serves (dir : Disk) (s : Segment) (c : Chunk) : Prop where
  path : s.path = segmentName c.base
  file : s.file = c.file
  stands : Stands s (dir.content c.file) c.base c.recs

structure OpenLog (p : Partition) (front : List Chunk) (last : Chunk) :
    Prop where
  dir : LogDir p.dir (front ++ [last])
  ordered : p.segments.Pairwise (fun s t => s.nextOff ≤ t.baseOff)
  segment : forall s, s ∈ p.older -> s.baseOff = s.nextOff ∨
    exists c, c ∈ front ∧ Serves p.dir s c
  chunk : forall c, c ∈ front -> exists s, s ∈ p.older ∧ Serves p.dir s c
  active : Serves p.dir p.active last
  unfrozen : p.active.frozen = false
  maxSize : p.active.maxSize = p.maxSegSize

/-!
## Chunks
-/

theorem endOffset_concat (front : List Chunk) (last : Chunk) :
    endOffset (front ++ [last]) = last.next := by
  rw [endOffset, List.getLast?_concat]

theorem LogDir.nil : LogDir Disk.empty [] where
  names := rfl
  follows := List.Pairwise.nil
  file_lt := by
    intro c hc
    cases hc
  base_lt := by
    intro c hc
    cases hc
  written := by
    intro c hc
    cases hc

variable {dir : Disk} {chunks : List Chunk} {c : Chunk}

theorem LogDir.next_le (h : LogDir dir chunks) (hc : c ∈ chunks) :
    c.next ≤ endOffset chunks := by
  rcases List.eq_nil_or_concat' chunks with hnil | ⟨front, last, hsplit⟩
  · rw [hnil] at hc
    cases hc
  subst hsplit
  rw [endOffset_concat]
  rcases List.mem_append.mp hc with hold | hlast
  · have hfollows := (List.pairwise_append.mp h.follows).right.right c hold
      last (List.mem_singleton_self last)
    exact hfollows.next_le.trans (Nat.le_add_right _ _)
  · rw [List.mem_singleton.mp hlast]

theorem LogDir.lt_of_at (h : LogDir dir chunks) {offset : Nat} {data : Bytes}
    (hat : At dir chunks offset data) : offset < endOffset chunks := by
  rcases hat with ⟨c, hc, i, hoff, hdata, _⟩
  have hlt := (List.getElem?_eq_some_iff.mp hdata).1
  have hle := h.next_le hc
  rw [Chunk.next] at hle
  omega

theorem LogDir.eq_of_offset (h : LogDir dir chunks) {c' : Chunk}
    (hc : c ∈ chunks) (hc' : c' ∈ chunks) (offset : Nat) (hle : c.base ≤ offset)
    (hlt : offset < c.next) (hle' : c'.base ≤ offset) (hlt' : offset < c'.next) :
    c = c' := by
  rcases Disk.eq_or_rel_of_pairwise h.follows hc hc' with hsame | hrel | hrel
  · exact hsame
  · have hnext := hrel.next_le
    omega
  · have hnext := hrel.next_le
    omega

theorem segmentName_inj {a b : Nat} (h : segmentName a = segmentName b) :
    a = b :=
  zeroPadded_inj (List.append_cancel_right h)

theorem segmentName_lt {a b : Nat} (hb : b < 2 ^ 64) (hlt : a < b) :
    segmentName a < segmentName b := by
  have hb' : b < 10 ^ 20 := by omega
  apply append_lt_append (zeroPadded_lt (by decide) hb' hlt)
  rw [length_zeroPadded (by omega) (by decide), length_zeroPadded hb' (by decide)]

theorem LogDir.readDir (h : LogDir dir chunks) :
    dir.readDir = chunks.map (fun c => (segmentName c.base, c.file)) := by
  rw [← h.names]
  apply Disk.readDir_of_sorted
  rw [h.names, List.pairwise_map]
  apply h.follows.imp_of_mem
  intro a b _ hb hrel
  exact segmentName_lt (h.base_lt b hb) hrel.base_lt

theorem LogDir.lookup_eq_some (h : LogDir dir chunks) (hc : c ∈ chunks) :
    dir.lookup (segmentName c.base) = some c.file := by
  cases hlook : dir.lookup (segmentName c.base) with
  | none =>
    have hmem : (segmentName c.base, c.file) ∈ dir.names := by
      rw [h.names]
      exact List.mem_map_of_mem hc
    exact absurd rfl (Disk.names_ne_of_lookup_none hlook hmem)
  | some i =>
  have hmem := Disk.mem_names_of_lookup hlook
  rw [h.names] at hmem
  rcases List.mem_map.mp hmem with ⟨c', hc', heq⟩
  rw [Prod.mk.injEq] at heq
  have hbase := segmentName_inj heq.left
  rcases Disk.eq_or_rel_of_pairwise h.follows hc hc' with
    hsame | hrel | hrel
  · rw [hsame, heq.right]
  · have hlt := hrel.base_lt
    omega
  · have hlt := hrel.base_lt
    omega

theorem LogDir.lookup_eq_none (h : LogDir dir chunks) {base : Nat}
    (hnew : forall c, c ∈ chunks -> c.base ≠ base) :
    dir.lookup (segmentName base) = none := by
  apply Disk.lookup_eq_none
  rw [h.names]
  intro e he
  rcases List.mem_map.mp he with ⟨c, hc, heq⟩
  rw [← heq]
  exact fun hname => hnew c hc (segmentName_inj hname)

variable {front : List Chunk} {last : Chunk}

theorem LogDir.content_setContent (h : LogDir dir (front ++ [last]))
    (hc : c ∈ front) (f : Bytes) :
    (dir.setContent last.file f).content c.file = dir.content c.file := by
  have hrel := (List.pairwise_append.mp h.follows).right.right c hc last
    (List.mem_singleton_self last)
  exact Disk.content_setContent_ne dir hrel.file_ne.symm f

theorem LogDir.setLast (h : LogDir dir (front ++ [last])) {f : Bytes}
    {recs : List Bytes} (hf : Written f last.base recs) :
    LogDir (dir.setContent last.file f)
      (front ++ [{ last with recs := recs }]) := by
  have hlast : last ∈ front ++ [last] :=
    List.mem_append_right _ (List.mem_singleton_self last)
  rcases List.pairwise_append.mp h.follows with ⟨hfront, _, hcross⟩
  exact
    { names := by
        change dir.names = _
        rw [h.names]
        simp
      follows := by
        refine List.pairwise_append.mpr
          ⟨hfront, List.pairwise_singleton .., ?_⟩
        intro a ha b hb
        rw [List.mem_singleton.mp hb]
        have hrel := hcross a ha last (List.mem_singleton_self last)
        exact ⟨hrel.base_lt, hrel.next_le, hrel.file_ne⟩
      file_lt := by
        intro c hc
        rw [Disk.setContent, List.length_set]
        rcases List.mem_append.mp hc with hold | hnew
        · exact h.file_lt c (List.mem_append_left _ hold)
        · rw [List.mem_singleton.mp hnew]
          exact h.file_lt last hlast
      base_lt := by
        intro c hc
        rcases List.mem_append.mp hc with hold | hnew
        · exact h.base_lt c (List.mem_append_left _ hold)
        · rw [List.mem_singleton.mp hnew]
          exact h.base_lt last hlast
      written := by
        intro c hc
        rcases List.mem_append.mp hc with hold | hnew
        · rw [h.content_setContent hold]
          exact h.written c (List.mem_append_left _ hold)
        · rw [List.mem_singleton.mp hnew,
            Disk.content_setContent (h.file_lt last hlast)]
          exact Or.inl hf }

theorem LogDir.addFile (h : LogDir dir chunks) {base : Nat}
    (hbase : base < 2 ^ 64)
    (hnext : forall c, c ∈ chunks -> c.base < base ∧ c.next ≤ base) {f : Bytes}
    (hf : Written f base []) :
    LogDir (dir.addFile (segmentName base) f)
      (chunks ++ [{ file := dir.files.length, base := base, recs := [] }]) where
  names := by
    rw [List.map_append, ← h.names]
    rfl
  follows := by
    refine List.pairwise_append.mpr
      ⟨h.follows, List.pairwise_singleton .., ?_⟩
    intro a ha b hb
    rw [List.mem_singleton.mp hb]
    exact ⟨(hnext a ha).left, (hnext a ha).right,
      Nat.ne_of_lt (h.file_lt a ha)⟩
  file_lt := by
    intro c hc
    rw [Disk.addFile, List.length_append, List.length_singleton]
    rcases List.mem_append.mp hc with hold | hnew
    · exact Nat.lt_succ_of_lt (h.file_lt c hold)
    · rw [List.mem_singleton.mp hnew]
      exact Nat.lt_succ_self _
  base_lt := by
    intro c hc
    rcases List.mem_append.mp hc with hold | hnew
    · exact h.base_lt c hold
    · rw [List.mem_singleton.mp hnew]
      exact hbase
  written := by
    intro c hc
    rcases List.mem_append.mp hc with hold | hnew
    · rw [Disk.content_addFile_of_lt (h.file_lt c hold)]
      exact h.written c hold
    · rw [List.mem_singleton.mp hnew, Disk.content_addFile]
      exact Or.inl hf

/-!
## Reading
-/

variable {p : Partition}

variable (h : OpenLog p front last)

include h

theorem OpenLog.mem_segment {s : Segment} (hs : s ∈ p.segments) : s.baseOff =
    s.nextOff ∨
      exists c, c ∈ front ++ [last] ∧ Serves p.dir s c := by
  rcases List.mem_append.mp hs with hold | hactive
  · rcases h.segment s hold with hstale | ⟨c, hc, hserves⟩
    · exact Or.inl hstale
    · exact Or.inr ⟨c, List.mem_append_left _ hc, hserves⟩
  · rw [List.mem_singleton.mp hactive]
    exact Or.inr ⟨last, List.mem_append_right _ (List.mem_singleton_self last),
      h.active⟩

theorem OpenLog.exists_segment (hc : c ∈ front ++ [last]) :
    exists s, s ∈ p.segments ∧ Serves p.dir s c := by
  rcases List.mem_append.mp hc with hold | hlast
  · rcases h.chunk c hold with ⟨s, hs, hserves⟩
    exact ⟨s, List.mem_append_left _ hs, hserves⟩
  · rw [List.mem_singleton.mp hlast]
    exact ⟨p.active, List.mem_append_right _ (List.mem_singleton_self _),
      h.active⟩

theorem OpenLog.base_le_next {s : Segment} (hs : s ∈ p.segments) : s.baseOff ≤
    s.nextOff := by
  rcases h.mem_segment hs with hstale | ⟨c, _, hserves⟩
  · exact Nat.le_of_eq hstale
  · rw [hserves.stands.baseOff, hserves.stands.nextOff]
    exact Nat.le_add_right _ _

omit h in
theorem findSegment_of_mem
    (hordered : p.segments.Pairwise (fun s t => s.nextOff ≤ t.baseOff))
    (hrange : forall s, s ∈ p.segments -> s.baseOff ≤ s.nextOff) {s : Segment}
    (hs : s ∈ p.segments) {offset : Nat} (hle : s.baseOff ≤ offset)
    (hlt : offset < s.nextOff) : p.findSegment offset = some s := by
  have hin : offset ≥ s.baseOff ∧ offset < s.nextOff := ⟨hle, hlt⟩
  have hsplits : Splits
      (fun s : Segment =>
        if offset ≥ s.baseOff ∧ offset < s.nextOff then .eq
        else if offset < s.baseOff then .lt
        else .gt) p.segments := by
    apply splits_of_pairwise
    apply hordered.imp_of_mem
    intro x y hx hy hxy
    have hxle := hrange x hx
    have hyle := hrange y hy
    constructor
    · intro hcmp
      split at hcmp
      · cases hcmp
      · split at hcmp
        · rw [if_neg (by omega), if_pos (by omega)]
        · cases hcmp
    intro hcmp
    split at hcmp
    · cases hcmp
    · split at hcmp
      · cases hcmp
      · rw [if_neg (by omega), if_neg (by omega)]
  rcases exists_binarySearch hsplits hs (by rw [if_pos hin]) with
    ⟨t, hfind, ht, hcmp⟩
  have hin' : offset ≥ t.baseOff ∧ offset < t.nextOff := by
    by_contra hout
    rw [if_neg hout] at hcmp
    split at hcmp
    · cases hcmp
    · cases hcmp
  rcases Disk.eq_or_rel_of_pairwise hordered hs ht with hsame | hrel | hrel
  · rw [hsame]
    exact hfind
  · omega
  · omega

theorem OpenLog.findSegment (hc : c ∈ front ++ [last]) {i : Nat}
    (hi : i < c.recs.length) :
    exists s, p.findSegment (c.base + i) = some s ∧ Serves p.dir s c := by
  rcases h.exists_segment hc with ⟨s, hs, hserves⟩
  refine ⟨s, ?_, hserves⟩
  apply findSegment_of_mem h.ordered (fun t ht => h.base_le_next ht) hs
  · rw [hserves.stands.baseOff]
    exact Nat.le_add_right _ _
  · rw [hserves.stands.nextOff]
    exact Nat.add_lt_add_left hi _

theorem OpenLog.read {offset : Nat} {data : Bytes}
    (hat : At p.dir (front ++ [last]) offset data) :
    p.read offset = .ok data := by
  rcases hat with ⟨c, hc, i, hoff, hdata, hinside⟩
  have hlt := (List.getElem?_eq_some_iff.mp hdata).1
  rcases h.findSegment hc hlt with ⟨s, hfind, hserves⟩
  subst hoff
  have hread : s.read (p.content s) (c.base + i) = .ok data := by
    rw [content, hserves.file]
    exact hserves.stands.read hdata hinside
  unfold Partition.read
  simp only [hfind, hread]

end Partition

end Storage
end ChimeraMQ
