import Mathlib.Data.List.Forall2
import ChimeraMQ.Storage.PartitionSteps

/-!
# A partition after a crash

A crash cuts the files of a directory.  If every file keeps its header or
nothing at all, the partition can be opened again, and it has all records that
lie before the cuts.
-/

namespace ChimeraMQ
namespace Foundation

/-- A directory whose files have been cut to the given lengths. -/
def Disk.truncate (d : Disk) (kept : Nat -> Nat) : Disk :=
  { d with files := d.files.mapIdx (fun i b => b.take (kept i)) }

theorem Disk.content_truncate (d : Disk) (kept : Nat -> Nat) (i : Nat) :
    (d.truncate kept).content i = (d.content i).take (kept i) := by
  unfold Disk.content Disk.truncate
  rw [List.getElem?_mapIdx]
  cases d.files[i]? with
  | none => simp
  | some b => rfl

theorem exists_of_forall₂ {α β : Type} {R : α -> β -> Prop} {xs : List α}
    {ys : List β} (h : List.Forall₂ R xs ys) {x : α} (hx : x ∈ xs) :
    exists y, y ∈ ys ∧ R x y := by
  induction h with
  | nil => cases hx
  | cons hxy _ ih =>
  rcases List.mem_cons.mp hx with hfirst | hrest
  · rw [hfirst]
    exact ⟨_, List.mem_cons_self .., hxy⟩
  · rcases ih hrest with ⟨y, hy, hrel⟩
    exact ⟨y, List.mem_cons_of_mem _ hy, hrel⟩

theorem pairwise_of_forall₂ {α β : Type} {R : α -> β -> Prop}
    {S : α -> α -> Prop} {T : β -> β -> Prop}
    (hst : forall x x' y y', R x y -> R x' y' -> T y y' -> S x x')
    {xs : List α} {ys : List β} (h : List.Forall₂ R xs ys)
    (hys : ys.Pairwise T) : xs.Pairwise S := by
  induction h with
  | nil => exact List.Pairwise.nil
  | cons hxy hrest ih =>
  rcases List.pairwise_cons.mp hys with ⟨hhead, htail⟩
  refine List.pairwise_cons.mpr ⟨?_, ih htail⟩
  intro x' hx'
  rcases exists_of_forall₂ hrest hx' with ⟨y', hy', hrel⟩
  exact hst _ _ _ _ hxy hrel (hhead y' hy')

theorem forall₂_concat_right {α β : Type} {R : α -> β -> Prop} {xs : List α}
    {ys : List β} {y : β} (h : List.Forall₂ R xs (ys ++ [y])) :
    exists front x, xs = front ++ [x] ∧ List.Forall₂ R front ys ∧ R x y := by
  have hfront := List.forall₂_take_append xs ys [y] h
  have hlast := List.forall₂_drop_append xs ys [y] h
  rcases List.forall₂_cons_right_iff.mp hlast with ⟨x, rest, hx, hnil, hdrop⟩
  rw [List.forall₂_nil_right_iff.mp hnil] at hdrop
  refine ⟨xs.take ys.length, x, ?_, hfront, hx⟩
  rw [← hdrop, List.take_append_drop]

end Foundation

namespace Storage

open Foundation

namespace Partition

/-!
## Opening
-/

structure Fresh (maxSegSize : Nat) (dir : Disk) (s : Segment) (c : Chunk) :
    Prop where
  serves : Serves dir s c
  unfrozen : s.frozen = false
  maxSize : s.maxSize = maxSegSize

/-- A directory whose empty files have got headers. -/
structure Headed (dir dir' : Disk) : Prop where
  names : dir'.names = dir.names
  files : dir'.files.length = dir.files.length
  content : forall i, dir.content i ≠ [] -> dir'.content i = dir.content i

theorem Headed.refl (dir : Disk) : Headed dir dir :=
  ⟨rfl, rfl, fun _ _ => rfl⟩

variable {dir : Disk}

theorem Headed.trans {dir' dir'' : Disk} (h : Headed dir dir')
    (h' : Headed dir' dir'') : Headed dir dir'' where
  names := h'.names.trans h.names
  files := h'.files.trans h.files
  content := by
    intro i hi
    have hsame := h.content i hi
    rw [← hsame] at hi
    rw [h'.content i hi, hsame]

theorem Headed.keeps {dir' : Disk} (h : Headed dir dir') (chunks : List Chunk) :
    Keeps dir chunks dir' chunks := by
  rintro offset data ⟨c, hc, i, hoff, hdata, hinside⟩
  refine ⟨c, hc, i, hoff, hdata, ?_⟩
  rw [h.content]
  · exact hinside
  intro hnil
  have hlt := Nat.le_add_right segmentHeaderLen
    (frames (c.recs.take (i + 1))).length
  rw [← endOfRecords] at hlt
  rw [hnil, List.length_nil] at hinside
  rw [segmentHeaderLen] at hlt
  omega

variable {chunks : List Chunk}

theorem LogDir.openFile (h : LogDir dir chunks) {c : Chunk} (hc : c ∈ chunks)
    (maxSegSize now : Nat) :
    exists dir' s, openFile dir (segmentName c.base) c.base maxSegSize now =
        .ok (dir', s) ∧
      Headed dir dir' ∧ LogDir dir' chunks ∧ Fresh maxSegSize dir' s c := by
  have hcreate := Disk.openCreate_of_lookup_some (h.lookup_eq_some hc)
  have hlt := h.file_lt c hc
  rcases h.written c hc with hwritten | ⟨hnil, hrecs⟩
  · rcases hwritten.openSegment (segmentName c.base) c.file c.base maxSegSize
      now with ⟨s, hopen, hstands, hsize, hpath, hfile, hfrozen⟩
    refine ⟨dir, s, ?_, Headed.refl dir, h, ⟨hpath, hfile, hstands⟩, hfrozen,
      hsize⟩
    unfold Partition.openFile
    simp only [hcreate, hopen, Disk.setContent_content]
  rcases openSegment_empty (segmentName c.base) c.file maxSegSize now
    (h.base_lt c hc) with
    ⟨s, f, hopen, hstands, hsize, hpath, hfile, hfrozen⟩
  have hsame := Disk.content_setContent hlt f
  have hother : forall x, x ∈ chunks -> x ≠ c ->
      (dir.setContent c.file f).content x.file = dir.content x.file := by
    intro x hx hne
    apply Disk.content_setContent_ne
    rcases Disk.eq_or_rel_of_pairwise h.follows hx hc with heq | hrel | hrel
    · exact absurd heq hne
    · exact hrel.file_ne.symm
    · exact hrel.file_ne
  refine ⟨dir.setContent c.file f, s, ?_, ?_, ?_, ?_⟩
  · unfold Partition.openFile
    simp only [hcreate, hnil, hopen]
  · refine ⟨rfl, List.length_set, ?_⟩
    intro i hi
    apply Disk.content_setContent_ne
    intro heq
    rw [← heq] at hi
    exact hi hnil
  · exact
      { names := h.names
        follows := h.follows
        file_lt := by
          intro x hx
          rw [Disk.setContent, List.length_set]
          exact h.file_lt x hx
        base_lt := h.base_lt
        written := by
          intro x hx
          by_cases heq : x = c
          · rw [heq, hsame, hrecs]
            exact Or.inl hstands.written
          · rw [hother x hx heq]
            exact h.written x hx }
  · refine ⟨⟨hpath, hfile, ?_⟩, hfrozen, hsize⟩
    rw [hsame, hrecs]
    exact hstands

theorem Fresh.headed {maxSegSize : Nat} {dir' : Disk} {s : Segment} {c : Chunk}
    (h : Fresh maxSegSize dir s c) (hheaded : Headed dir dir') :
    Fresh maxSegSize dir' s c where
  serves := by
    apply h.serves.congr
    apply hheaded.content
    intro hnil
    have hle := h.serves.stands.written.header_le
    rw [hnil, List.length_nil, segmentHeaderLen] at hle
    omega
  unfrozen := h.unfrozen
  maxSize := h.maxSize

theorem LogDir.loadEntries (maxSegSize now : Nat) (rest : List Chunk)
    (hsub : forall c, c ∈ rest -> c ∈ chunks) (h : LogDir dir chunks) :
    exists dir' segments, loadEntries maxSegSize now
        (rest.map (fun c => (segmentName c.base, c.file))) dir =
          .ok (dir', segments) ∧
      Headed dir dir' ∧ LogDir dir' chunks ∧
      List.Forall₂ (Fresh maxSegSize dir') segments rest := by
  induction rest generalizing dir with
  | nil =>
    exact ⟨dir, [], rfl, Headed.refl dir, h, List.Forall₂.nil⟩
  | cons c rest ih =>
  have hc := hsub c (List.mem_cons_self ..)
  rcases h.openFile hc maxSegSize now with
    ⟨dir₁, s, hopen, hheaded, h₁, hfresh⟩
  rcases ih (fun x hx => hsub x (List.mem_cons_of_mem _ hx)) h₁ with
    ⟨dir', segments, hload, hheaded', h', hall⟩
  refine ⟨dir', s :: segments, ?_, hheaded.trans hheaded', h',
    List.Forall₂.cons (hfresh.headed hheaded') hall⟩
  rw [List.map_cons, Partition.loadEntries,
    loadable_segmentName (h.base_lt c hc)]
  simp only [hopen, hload]

structure Reloaded (dir : Disk) (chunks : List Chunk) (maxSegSize : Nat)
    (p : Partition) (front : List Chunk) (last : Chunk) : Prop where
  log : OpenLog p front last
  maxSegSize : p.maxSegSize = maxSegSize
  next : last.next = endOffset chunks
  same : chunks = [] ∨ front ++ [last] = chunks
  keeps : Keeps dir chunks p.dir (front ++ [last])

theorem openLog_of_fresh {topic : Bytes} {id maxSegSize : Nat}
    {older : List Segment} {active : Segment} {front : List Chunk}
    {last : Chunk} (h : LogDir dir (front ++ [last]))
    (holder : List.Forall₂ (Fresh maxSegSize dir) older front)
    (hactive : Fresh maxSegSize dir active last) :
    OpenLog (ofSegments topic id maxSegSize dir older active) front last where
  dir := h
  ordered := by
    have hall : List.Forall₂ (Fresh maxSegSize dir) (older ++ [active])
        (front ++ [last]) :=
      List.rel_append holder (List.Forall₂.cons hactive List.Forall₂.nil)
    refine pairwise_of_forall₂ ?_ hall h.follows
    intro s t c c' hs ht hrel
    rw [hs.serves.stands.nextOff, ht.serves.stands.baseOff]
    exact hrel.next_le
  segment := by
    intro s hs
    rcases exists_of_forall₂ holder hs with ⟨c, hc, hfresh⟩
    exact Or.inr ⟨c, hc, hfresh.serves⟩
  chunk := by
    intro c hc
    rcases exists_of_forall₂ holder.flip hc with ⟨s, hs, hfresh⟩
    exact ⟨s, hs, hfresh.serves⟩
  active := hactive.serves
  unfrozen := hactive.unfrozen
  maxSize := hactive.maxSize

theorem LogDir.openNew (h : LogDir dir []) (topic : Bytes)
    (id maxSegSize now : Nat) :
    exists dir' s last,
      Partition.openFile dir (segmentName 0) 0 maxSegSize now = .ok (dir', s) ∧
      Reloaded dir [] maxSegSize (ofSegments topic id maxSegSize dir' [] s) []
        last := by
  have hnone : dir.lookup (segmentName 0) = none := by
    apply h.lookup_eq_none
    intro c hc
    cases hc
  rcases openSegment_empty (segmentName 0) dir.files.length maxSegSize now
    (by decide : 0 < 2 ^ 64) with
    ⟨s, f, hopen, hstands, hsize, hpath, hfile, hfrozen⟩
  have hcreate : dir.openCreate (segmentName 0) =
      (dir.addFile (segmentName 0) [], dir.files.length) :=
    Disk.openCreate_of_lookup_none hnone
  refine ⟨dir.addFile (segmentName 0) f, s,
    { file := dir.files.length, base := 0, recs := [] }, ?_, ?_⟩
  · unfold Partition.openFile
    simp only [hcreate, Disk.content_addFile, hopen, Disk.setContent_addFile]
  exact
    { log := by
        apply openLog_of_fresh
        · apply h.addFile (by decide) _ hstands.written
          intro c hc
          cases hc
        · exact List.Forall₂.nil
        · refine ⟨⟨hpath, hfile, ?_⟩, hfrozen, hsize⟩
          rw [Disk.content_addFile]
          exact hstands
      maxSegSize := rfl
      next := rfl
      same := Or.inl rfl
      keeps := by
        rintro offset data ⟨c, hc, _⟩
        cases hc }

theorem LogDir.openPartition (h : LogDir dir chunks) (topic : Bytes)
    (id maxSegSize now : Nat) :
    exists p front last,
      openPartition dir topic id maxSegSize now = .ok p ∧
        Reloaded dir chunks maxSegSize p front last := by
  rcases h.loadEntries maxSegSize now chunks (fun _ hc => hc) with
    ⟨dir', segments, hload, hheaded, h', hall⟩
  have hsegments : loadSegments dir maxSegSize now = .ok (dir', segments) := by
    unfold loadSegments
    rw [h.readDir]
    exact hload
  unfold Partition.openPartition
  simp only [hsegments]
  rcases List.eq_nil_or_concat' chunks with hnil | ⟨front, last, hsplit⟩
  · subst hnil
    have hnone := List.forall₂_nil_right_iff.mp hall
    subst hnone
    rcases h'.openNew topic id maxSegSize now with
      ⟨dir'', s, last, hopen, hreloaded⟩
    refine ⟨ofSegments topic id maxSegSize dir'' [] s, [], last, ?_, ?_⟩
    · simp only [List.getLast?_nil, hopen]
    exact
      { log := hreloaded.log
        maxSegSize := hreloaded.maxSegSize
        next := hreloaded.next
        same := Or.inl rfl
        keeps := (hheaded.keeps []).trans hreloaded.keeps }
  subst hsplit
  rcases forall₂_concat_right hall with
    ⟨older, active, hsplit, holder, hactive⟩
  subst hsplit
  refine ⟨ofSegments topic id maxSegSize dir' older active, front, last, ?_,
    ?_⟩
  · simp only [List.getLast?_concat, List.dropLast_concat]
  exact
    { log := openLog_of_fresh h' holder hactive
      maxSegSize := rfl
      next := (endOffset_concat front last).symm
      same := Or.inr rfl
      keeps := hheaded.keeps _ }

/-!
## Cutting the files
-/

def KeepsHeaders (chunks : List Chunk) (kept : Nat -> Nat) : Prop :=
  forall c, c ∈ chunks -> kept c.file = 0 ∨ segmentHeaderLen ≤ kept c.file

def BeforeCut (chunks : List Chunk) (kept : Nat -> Nat) (offset : Nat) : Prop :=
  forall c, c ∈ chunks -> forall i, offset = c.base + i ->
    i < c.recs.length -> endOfRecords (c.recs.take (i + 1)) ≤ kept c.file

structure CutChunk (dir : Disk) (kept : Nat -> Nat) (c c' : Chunk) : Prop where
  file : c'.file = c.file
  base : c'.base = c.base
  length_le : c'.recs.length ≤ c.recs.length
  written : Written ((dir.content c.file).take (kept c.file)) c.base c'.recs ∨
    (dir.content c.file).take (kept c.file) = [] ∧ c'.recs = []
  keeps : forall i d, c.recs[i]? = some d ->
    endOfRecords (c.recs.take (i + 1)) ≤ (dir.content c.file).length ->
    endOfRecords (c.recs.take (i + 1)) ≤ kept c.file ->
      c'.recs[i]? = some d ∧
        c'.recs.take (i + 1) = c.recs.take (i + 1)

theorem LogDir.exists_cutChunk (h : LogDir dir chunks) {kept : Nat -> Nat}
    {c : Chunk} (hc : c ∈ chunks)
    (hheader : kept c.file = 0 ∨ segmentHeaderLen ≤ kept c.file) :
    exists c', CutChunk dir kept c c' := by
  have hnothing : (dir.content c.file).take (kept c.file) = [] ->
      (forall i, endOfRecords (c.recs.take (i + 1)) ≤
        (dir.content c.file).length ->
          ¬ endOfRecords (c.recs.take (i + 1)) ≤ kept c.file) ->
        exists c', CutChunk dir kept c c' := by
    intro hnil hnone
    refine ⟨{ c with recs := [] }, rfl, rfl, Nat.zero_le _,
      Or.inr ⟨hnil, rfl⟩, ?_⟩
    intro i d _ hinside hkept
    exact absurd hkept (hnone i hinside)
  have hpos : forall i, segmentHeaderLen ≤
      endOfRecords (c.recs.take (i + 1)) := fun i => Nat.le_add_right _ _
  rcases hheader with hzero | hlarge
  · apply hnothing
    · rw [hzero, List.take_zero]
    intro i _ hle
    have hheader := hpos i
    rw [segmentHeaderLen] at hheader
    omega
  rcases h.written c hc with hwritten | ⟨hnil, _⟩
  · rcases hwritten.cutTo hlarge with ⟨recs', hcut⟩
    refine ⟨{ c with recs := recs' }, rfl, rfl, hcut.length_le,
      Or.inl hcut.written, ?_⟩
    intro i d hd hinside hkept
    apply hcut.keeps i d hd
    rw [List.length_take]
    omega
  apply hnothing
  · rw [hnil, List.take_nil]
  intro i hinside
  have hheader := hpos i
  rw [hnil, List.length_nil] at hinside
  rw [segmentHeaderLen] at hheader
  omega

structure Truncated (dir : Disk) (chunks : List Chunk) (kept : Nat -> Nat)
    (chunks' : List Chunk) : Prop where
  log : LogDir (dir.truncate kept) chunks'
  next_le : endOffset chunks' ≤ endOffset chunks
  keeps : forall offset data, At dir chunks offset data ->
    BeforeCut chunks kept offset ->
      At (dir.truncate kept) chunks' offset data

theorem LogDir.truncate (h : LogDir dir chunks) {kept : Nat -> Nat}
    (hheaders : KeepsHeaders chunks kept) :
    exists chunks', Truncated dir chunks kept chunks' := by
  have hcut : forall c, exists c', c ∈ chunks -> CutChunk dir kept c c' := by
    intro c
    by_cases hc : c ∈ chunks
    · rcases h.exists_cutChunk hc (hheaders c hc) with ⟨c', hcut⟩
      exact ⟨c', fun _ => hcut⟩
    · exact ⟨c, fun hmem => absurd hmem hc⟩
  choose cut hcut using hcut
  have hlength : (dir.truncate kept).files.length = dir.files.length :=
    List.length_mapIdx
  refine ⟨chunks.map cut, ?_⟩
  exact
    { log :=
        { names := by
            change dir.names = _
            rw [h.names, List.map_map]
            apply List.map_congr_left
            intro c hc
            simp only [Function.comp, (hcut c hc).file, (hcut c hc).base]
          follows := by
            rw [List.pairwise_map]
            apply h.follows.imp_of_mem
            intro a b ha hb hrel
            have hle := hrel.next_le
            have hlen := (hcut a ha).length_le
            rw [Chunk.next] at hle
            refine ⟨?_, ?_, ?_⟩
            · rw [(hcut a ha).base, (hcut b hb).base]
              exact hrel.base_lt
            · rw [Chunk.next, (hcut a ha).base, (hcut b hb).base]
              omega
            · rw [(hcut a ha).file, (hcut b hb).file]
              exact hrel.file_ne
          file_lt := by
            intro c' hc'
            rcases List.mem_map.mp hc' with ⟨c, hc, heq⟩
            rw [← heq, (hcut c hc).file, hlength]
            exact h.file_lt c hc
          base_lt := by
            intro c' hc'
            rcases List.mem_map.mp hc' with ⟨c, hc, heq⟩
            rw [← heq, (hcut c hc).base]
            exact h.base_lt c hc
          written := by
            intro c' hc'
            rcases List.mem_map.mp hc' with ⟨c, hc, heq⟩
            rw [← heq, (hcut c hc).file, (hcut c hc).base,
              Disk.content_truncate]
            exact (hcut c hc).written }
      next_le := by
        rcases List.eq_nil_or_concat' chunks with hnil | ⟨front, last, hsplit⟩
        · rw [hnil]
          exact Nat.le_refl _
        have hlast : last ∈ chunks := by
          rw [hsplit]
          exact List.mem_append_right _ (List.mem_singleton_self last)
        have hlen := (hcut last hlast).length_le
        rw [hsplit, List.map_append, List.map_singleton, endOffset_concat,
          endOffset_concat, Chunk.next, Chunk.next, (hcut last hlast).base]
        omega
      keeps := by
        rintro offset data ⟨c, hc, i, hoff, hdata, hinside⟩ hbefore
        have hlt := (List.getElem?_eq_some_iff.mp hdata).1
        have hkept := hbefore c hc i hoff hlt
        rcases (hcut c hc).keeps i data hdata hinside hkept with ⟨hdata', htake⟩
        refine ⟨cut c, List.mem_map_of_mem hc, i, ?_, hdata', ?_⟩
        · rw [(hcut c hc).base]
          exact hoff
        · rw [htake, (hcut c hc).file, Disk.content_truncate,
            List.length_take]
          omega }

end Partition

end Storage
end ChimeraMQ
