import ChimeraMQ.Storage.PartitionLog

/-!
# What happens to the log of a partition

Appending, rolling over, a crash that cuts the files, and opening the directory
again.
-/

namespace ChimeraMQ
namespace Storage

open Foundation

namespace Partition

def Keeps (dir : Disk) (chunks : List Chunk) (dir' : Disk)
    (chunks' : List Chunk) : Prop :=
  forall offset data, At dir chunks offset data ->
    At dir' chunks' offset data

theorem Keeps.refl (dir : Disk) (chunks : List Chunk) :
    Keeps dir chunks dir chunks :=
  fun _ _ h => h

theorem Keeps.trans {dir dir' dir'' : Disk}
    {chunks chunks' chunks'' : List Chunk} (h : Keeps dir chunks dir' chunks')
    (h' : Keeps dir' chunks' dir'' chunks'') :
    Keeps dir chunks dir'' chunks'' :=
  fun offset data hat => h' offset data (h offset data hat)

/-!
## Appending to the active segment
-/

structure Appended (p : Partition) (front : List Chunk) (last : Chunk)
    (data : Bytes) (p' : Partition) (last' : Chunk) : Prop where
  log : OpenLog p' front last'
  maxSegSize : p'.maxSegSize = p.maxSegSize
  next : last'.next = last.next + 1
  start : startOffset (front ++ [last']) = startOffset (front ++ [last])
  keeps : Keeps p.dir (front ++ [last]) p'.dir (front ++ [last'])
  at_next : At p'.dir (front ++ [last']) last.next data

theorem Serves.congr {dir dir' : Disk} {s : Segment} {c : Chunk}
    (h : Serves dir s c) (hsame : dir'.content c.file = dir.content c.file) :
    Serves dir' s c where
  path := h.path
  file := h.file
  stands := by
    rw [hsame]
    exact h.stands

variable {p : Partition} {front : List Chunk} {last : Chunk} {data : Bytes}

theorem OpenLog.appendActive (h : OpenLog p front last)
    (hroom : last.next + 1 < 2 ^ 64)
    (hfits : p.active.size + (4 + data.length) ≤ p.active.maxSize)
    (hsmall : p.active.size + (4 + data.length) < 2 ^ 32) :
    exists p' last', p.appendActive data = .ok (p', last.next) ∧
      Appended p front last data p' last' := by
  have hlt := h.dir.file_lt last
    (List.mem_append_right _ (List.mem_singleton_self last))
  rcases h.active.stands.append h.unfrozen hfits hsmall hroom with
    ⟨s', f', happend, hstands, hholds, hsize, hpath, hfile, hfrozen⟩
  have hlast' : s'.file = last.file := hfile.trans h.active.file
  have hnext : last.base + (last.recs ++ [data]).length = last.next + 1 := by
    rw [List.length_append, List.length_singleton, Chunk.next, Nat.add_assoc]
  have hcontent : p.content p.active = p.dir.content last.file := by
    rw [content, h.active.file]
  have hnew : (p.dir.setContent last.file f').content last.file = f' :=
    Disk.content_setContent hlt f'
  refine ⟨{ p with
      dir := p.dir.setContent s'.file f'
      active := s'
      highWater := last.next },
    { last with recs := last.recs ++ [data] }, ?_, ?_⟩
  · unfold Partition.appendActive
    rw [hcontent, happend]
    rfl
  rw [hlast']
  refine
    { log := ?_
      maxSegSize := rfl
      next := hnext
      start := by
        cases front with
        | nil => rfl
        | cons c rest => rfl
      keeps := ?_
      at_next := ?_ }
  · exact
      { dir := h.dir.setLast hholds.written
        ordered := by
          rcases List.pairwise_append.mp h.ordered with ⟨hold, _, hcross⟩
          refine List.pairwise_append.mpr
            ⟨hold, List.pairwise_singleton .., ?_⟩
          intro s hs t ht
          rw [List.mem_singleton.mp ht, hstands.baseOff,
            ← h.active.stands.baseOff]
          exact hcross s hs p.active (List.mem_singleton_self _)
        segment := by
          intro s hs
          rcases h.segment s hs with hstale | ⟨c, hc, hserves⟩
          · exact Or.inl hstale
          · exact Or.inr ⟨c, hc,
              hserves.congr (h.dir.content_setContent hc f')⟩
        chunk := by
          intro c hc
          rcases h.chunk c hc with ⟨s, hs, hserves⟩
          exact ⟨s, hs, hserves.congr (h.dir.content_setContent hc f')⟩
        active :=
          { path := hpath.trans h.active.path
            file := hlast'
            stands := by
              rw [hnew]
              exact hstands }
        unfrozen := hfrozen
        maxSize := hsize.trans h.maxSize }
  · rintro offset d ⟨c, hc, i, hoff, hd, hinside⟩
    rcases List.mem_append.mp hc with hold | hlast
    · refine ⟨c, List.mem_append_left _ hold, i, hoff, hd, ?_⟩
      rw [h.dir.content_setContent hold]
      exact hinside
    rw [List.mem_singleton.mp hlast] at hoff hd hinside
    have hi := (List.getElem?_eq_some_iff.mp hd).1
    refine ⟨_, List.mem_append_right _ (List.mem_singleton_self _), i, hoff,
      ?_, ?_⟩
    · rw [List.getElem?_append_left hi]
      exact hd
    · rw [hnew]
      exact (endOfRecords_take_le _ _).trans hholds.length_ge
  · refine ⟨_, List.mem_append_right _ (List.mem_singleton_self _),
      last.recs.length, rfl, ?_, ?_⟩
    · rw [List.getElem?_append_right (Nat.le_refl _), Nat.sub_self]
      rfl
    · rw [hnew]
      exact (endOfRecords_take_le _ _).trans hholds.length_ge

/-!
## Rolling over
-/

structure Rolled (p : Partition) (front : List Chunk) (last : Chunk)
    (p' : Partition) (front' : List Chunk) (last' : Chunk) : Prop where
  log : OpenLog p' front' last'
  maxSegSize : p'.maxSegSize = p.maxSegSize
  next : last'.next = last.next
  start : startOffset (front' ++ [last']) = startOffset (front ++ [last])
  keeps : Keeps p.dir (front ++ [last]) p'.dir (front' ++ [last'])

theorem ordered_roll
    (hordered : p.segments.Pairwise (fun s t => s.nextOff ≤ t.baseOff))
    (hactive : p.active.baseOff ≤ p.active.nextOff) {s : Segment}
    (hbase : p.active.nextOff ≤ s.baseOff) :
    ((p.older ++ [p.active.freeze]) ++ [s]).Pairwise
      (fun s t => s.nextOff ≤ t.baseOff) := by
  rcases List.pairwise_append.mp hordered with ⟨hold, _, hcross⟩
  refine List.pairwise_append.mpr ⟨?_, List.pairwise_singleton .., ?_⟩
  · refine List.pairwise_append.mpr ⟨hold, List.pairwise_singleton .., ?_⟩
    intro x hx y hy
    rw [List.mem_singleton.mp hy]
    exact hcross x hx p.active (List.mem_singleton_self _)
  intro x hx y hy
  rw [List.mem_singleton.mp hy]
  rcases List.mem_append.mp hx with hx | hx
  · exact (hcross x hx p.active (List.mem_singleton_self _)).trans
      (hactive.trans hbase)
  · rw [List.mem_singleton.mp hx]
    exact hbase

theorem OpenLog.ordered_roll (h : OpenLog p front last) {s : Segment}
    (hbase : p.active.nextOff ≤ s.baseOff) :
    ((p.older ++ [p.active.freeze]) ++ [s]).Pairwise
      (fun s t => s.nextOff ≤ t.baseOff) :=
  Partition.ordered_roll h.ordered
    (h.base_le_next (List.mem_append_right _ (List.mem_singleton_self p.active)))
    hbase

theorem OpenLog.rollEmpty (h : OpenLog p front last) (hempty : last.recs = [])
    (now : Nat) :
    exists p', { p with active := p.active.freeze }.createNewSegment
        p.active.nextOff now = .ok p' ∧
      Rolled p front last p' front last := by
  have hmem : last ∈ front ++ [last] :=
    List.mem_append_right _ (List.mem_singleton_self last)
  have hnext : p.active.nextOff = last.base := by
    rw [h.active.stands.nextOff, hempty]
    rfl
  rcases h.active.stands.written.openSegment (segmentName last.base) last.file
    last.base p.maxSegSize now with
    ⟨s, hopen, hstands, hsize, hpath, hfile, hfrozen⟩
  have hfileOpen : openFile p.dir (segmentName last.base) last.base
      p.maxSegSize now = .ok (p.dir, s) := by
    unfold openFile
    simp only [Disk.openCreate_of_lookup_some (h.dir.lookup_eq_some hmem),
      hopen, Disk.setContent_content]
  refine ⟨{ p with older := p.older ++ [p.active.freeze], active := s }, ?_, ?_⟩
  · rw [hnext]
    unfold createNewSegment
    simp only [hfileOpen]
    rfl
  exact
    { log :=
        { dir := h.dir
          ordered := by
            apply h.ordered_roll
            rw [hstands.baseOff, hnext]
          segment := by
            intro x hx
            rcases List.mem_append.mp hx with hold | hactive
            · exact h.segment x hold
            · rw [List.mem_singleton.mp hactive]
              exact Or.inl (h.active.stands.baseOff.trans hnext.symm)
          chunk := by
            intro c hc
            rcases h.chunk c hc with ⟨x, hx, hserves⟩
            exact ⟨x, List.mem_append_left _ hx, hserves⟩
          active := { path := hpath, file := hfile, stands := hstands }
          unfrozen := hfrozen
          maxSize := hsize }
      maxSegSize := rfl
      next := rfl
      start := rfl
      keeps := Keeps.refl _ _ }

theorem OpenLog.rollFull (h : OpenLog p front last) (hrecs : last.recs ≠ [])
    (now : Nat) :
    exists p' last', { p with active := p.active.freeze }.createNewSegment
        p.active.nextOff now = .ok p' ∧
      Rolled p front last p' (front ++ [last]) last' := by
  have hlast : last ∈ front ++ [last] :=
    List.mem_append_right _ (List.mem_singleton_self last)
  have hnext : p.active.nextOff = last.next := h.active.stands.nextOff
  have hpos : 0 < last.recs.length := List.length_pos_iff.mpr hrecs
  have hbase : last.next < 2 ^ 64 := h.active.stands.written.padded.base_lt
  have hafter : forall c, c ∈ front ++ [last] ->
      c.base < last.next ∧ c.next ≤ last.next := by
    intro c hc
    have hle := h.dir.next_le hc
    rw [endOffset_concat] at hle
    refine ⟨?_, hle⟩
    rcases List.mem_append.mp hc with hold | hsame
    · have hrel := (List.pairwise_append.mp h.dir.follows).right.right c hold
        last (List.mem_singleton_self last)
      have hlt := hrel.base_lt
      rw [Chunk.next]
      omega
    · rw [List.mem_singleton.mp hsame, Chunk.next]
      omega
  have hnone : p.dir.lookup (segmentName last.next) = none :=
    h.dir.lookup_eq_none (fun c hc => Nat.ne_of_lt (hafter c hc).left)
  rcases openSegment_empty (segmentName last.next) p.dir.files.length
    p.maxSegSize now hbase with
    ⟨s, f, hopen, hstands, hsize, hpath, hfile, hfrozen⟩
  have hfileOpen : openFile p.dir (segmentName last.next) last.next
      p.maxSegSize now =
        .ok (p.dir.addFile (segmentName last.next) f, s) := by
    have hcreate : p.dir.openCreate (segmentName last.next) =
        (p.dir.addFile (segmentName last.next) [], p.dir.files.length) :=
      Disk.openCreate_of_lookup_none hnone
    unfold openFile
    simp only [hcreate, Disk.content_addFile, hopen, Disk.setContent_addFile]
  have hsame : forall c, c ∈ front ++ [last] ->
      (p.dir.addFile (segmentName last.next) f).content c.file =
        p.dir.content c.file :=
    fun c hc => Disk.content_addFile_of_lt (h.dir.file_lt c hc) _ f
  refine ⟨{ p with
      dir := p.dir.addFile (segmentName last.next) f
      older := p.older ++ [p.active.freeze]
      active := s },
    { file := p.dir.files.length, base := last.next, recs := [] }, ?_, ?_⟩
  · rw [hnext]
    unfold createNewSegment
    simp only [hfileOpen]
    rfl
  exact
    { log :=
        { dir := h.dir.addFile hbase hafter hstands.written
          ordered := by
            apply h.ordered_roll
            rw [hstands.baseOff, hnext]
          segment := by
            intro x hx
            rcases List.mem_append.mp hx with hold | hactive
            · rcases h.segment x hold with hstale | ⟨c, hc, hserves⟩
              · exact Or.inl hstale
              · exact Or.inr ⟨c, List.mem_append_left _ hc,
                  hserves.congr (hsame c (List.mem_append_left _ hc))⟩
            rw [List.mem_singleton.mp hactive]
            refine Or.inr ⟨last, hlast, ?_⟩
            exact
              { path := h.active.path
                file := h.active.file
                stands := by
                  rw [hsame last hlast]
                  exact h.active.stands.freeze }
          chunk := by
            intro c hc
            rcases List.mem_append.mp hc with hold | hnew
            · rcases h.chunk c hold with ⟨x, hx, hserves⟩
              exact ⟨x, List.mem_append_left _ hx, hserves.congr (hsame c hc)⟩
            rw [List.mem_singleton.mp hnew]
            refine ⟨p.active.freeze,
              List.mem_append_right _ (List.mem_singleton_self _), ?_⟩
            exact
              { path := h.active.path
                file := h.active.file
                stands := by
                  rw [hsame last hlast]
                  exact h.active.stands.freeze }
          active :=
            { path := hpath
              file := hfile
              stands := by
                rw [Disk.content_addFile]
                exact hstands }
          unfrozen := hfrozen
          maxSize := hsize }
      maxSegSize := rfl
      next := rfl
      start := by
        cases front with
        | nil => rfl
        | cons c rest => rfl
      keeps := by
        rintro offset d ⟨c, hc, i, hoff, hd, hinside⟩
        refine ⟨c, List.mem_append_left _ hc, i, hoff, hd, ?_⟩
        rw [hsame c hc]
        exact hinside }

structure Grown (p : Partition) (front : List Chunk) (last : Chunk)
    (data : Bytes) (r : Partition × Except SegmentError Nat)
    (front' : List Chunk) (last' : Chunk) : Prop where
  log : OpenLog r.1 front' last'
  maxSegSize : r.1.maxSegSize = p.maxSegSize
  start : startOffset (front' ++ [last']) = startOffset (front ++ [last])
  keeps : Keeps p.dir (front ++ [last]) r.1.dir (front' ++ [last'])
  outcome : match r.2 with
    | .ok offset => offset = last.next ∧ last'.next = last.next + 1 ∧
        At r.1.dir (front' ++ [last']) offset data
    | .error _ => last'.next = last.next

theorem Grown.next_le {front' : List Chunk} {last' : Chunk}
    {r : Partition × Except SegmentError Nat}
    (h : Grown p front last data r front' last') :
    last'.next ≤ last.next + 1 := by
  have houtcome := h.outcome
  cases hr : r.2 with
  | ok offset =>
    rw [hr] at houtcome
    exact Nat.le_of_eq houtcome.right.left
  | error e =>
  rw [hr] at houtcome
  exact Nat.le_succ_of_le (Nat.le_of_eq houtcome)

theorem Grown.stored {front' : List Chunk} {last' : Chunk}
    {r : Partition × Except SegmentError Nat}
    (h : Grown p front last data r front' last') {offset : Nat}
    (hr : r.2 = .ok offset) :
    offset = last.next ∧ At r.1.dir (front' ++ [last']) offset data := by
  have houtcome := h.outcome
  rw [hr] at houtcome
  exact ⟨houtcome.left, houtcome.right.right⟩

theorem OpenLog.roll (h : OpenLog p front last) (now : Nat) :
    exists p' front' last', { p with active := p.active.freeze }.createNewSegment
        p.active.nextOff now = .ok p' ∧
      Rolled p front last p' front' last' := by
  by_cases hempty : last.recs = []
  · rcases h.rollEmpty hempty now with ⟨p', hnew, hrolled⟩
    exact ⟨p', front, last, hnew, hrolled⟩
  · rcases h.rollFull hempty now with ⟨p', last', hnew, hrolled⟩
    exact ⟨p', front ++ [last], last', hnew, hrolled⟩

theorem Appended.grown {q p' : Partition} {front' : List Chunk}
    {mid last' : Chunk} (hrolled : Rolled p front last q front' mid)
    (happended : Appended q front' mid data p' last') :
    Grown p front last data (p', .ok mid.next) front' last' where
  log := happended.log
  maxSegSize := happended.maxSegSize.trans hrolled.maxSegSize
  start := happended.start.trans hrolled.start
  keeps := hrolled.keeps.trans happended.keeps
  outcome := by
    refine ⟨hrolled.next, ?_, happended.at_next⟩
    rw [happended.next, hrolled.next]

theorem OpenLog.appendActive_long (h : OpenLog p front last)
    (hfits : p.active.size + (4 + data.length) ≤ p.active.maxSize) :
    exists p' offset, p.appendActive data = .ok (p', offset) ∧
      p.active.size + (4 + data.length) ≤
        (p'.dir.content last.file).length := by
  have hlt := h.dir.file_lt last
    (List.mem_append_right _ (List.mem_singleton_self last))
  unfold Partition.appendActive Segment.append
  rw [h.unfrozen, if_neg Bool.false_ne_true,
    if_neg (Nat.not_lt.mpr hfits)]
  refine ⟨_, _, rfl, ?_⟩
  have hrecord : Segment.record data ≠ [] :=
    List.ne_nil_of_length_pos (by rw [length_record]; omega)
  rw [h.active.file, Disk.content_setContent hlt,
    length_writeAt _ _ hrecord, length_record]
  exact Nat.le_max_right _ _

/-- No segment file is to become longer than what 32 bits can tell. -/
def SmallFiles (dir : Disk) : Prop :=
  forall i, (dir.content i).length < 2 ^ 32

theorem OpenLog.append (h : OpenLog p front last) (data : Bytes) (now : Nat)
    (hsmall : p.maxSegSize < 2 ^ 32 ∨ SmallFiles (p.append data now).1.dir)
    (hroom : last.next + 1 < 2 ^ 64) :
    exists front' last',
      Grown p front last data (p.append data now) front' last' := by
  have hsame : Rolled p front last p front last :=
    { log := h
      maxSegSize := rfl
      next := rfl
      start := rfl
      keeps := Keeps.refl _ _ }
  unfold Partition.append at hsmall ⊢
  by_cases hfits : p.active.size + (4 + data.length) ≤ p.active.maxSize
  · rcases h.appendActive_long hfits with ⟨p', offset, hone, hlong⟩
    have hshort : p.active.size + (4 + data.length) < 2 ^ 32 := by
      rcases hsmall with hmax | hfiles
      · rw [h.maxSize] at hfits
        exact hfits.trans_lt hmax
      · rw [hone] at hfiles
        exact hlong.trans_lt (hfiles last.file)
    rcases h.appendActive hroom hfits hshort with
      ⟨p', last', hone, happended⟩
    rw [hone]
    exact ⟨front, last', happended.grown hsame⟩
  have hone : p.appendActive data = .error .segmentFull := by
    unfold Partition.appendActive
    rw [Stands.append_full _ h.unfrozen hfits]
  rcases h.roll now with ⟨q, front', mid, hnew, hrolled⟩
  change { p with active := p.active.freeze }.createNewSegment
    p.active.freeze.nextOff now = .ok q at hnew
  simp only [hone, hnew] at hsmall ⊢
  by_cases hfits' : q.active.size + (4 + data.length) ≤ q.active.maxSize
  · rcases hrolled.log.appendActive_long hfits' with
      ⟨p', offset, htwo, hlong⟩
    have hshort : q.active.size + (4 + data.length) < 2 ^ 32 := by
      rcases hsmall with hmax | hfiles
      · rw [hrolled.log.maxSize, hrolled.maxSegSize] at hfits'
        exact hfits'.trans_lt hmax
      · rw [htwo] at hfiles
        exact hlong.trans_lt (hfiles mid.file)
    rcases hrolled.log.appendActive (by rw [hrolled.next]; exact hroom)
      hfits' hshort with ⟨p', last', htwo, happended⟩
    simp only [htwo]
    exact ⟨front', last', happended.grown hrolled⟩
  have htwo : q.appendActive data = .error .segmentFull := by
    unfold Partition.appendActive
    rw [Stands.append_full _ hrolled.log.unfrozen hfits']
  simp only [htwo]
  refine ⟨front', mid, ?_⟩
  exact
    { log := hrolled.log
      maxSegSize := hrolled.maxSegSize
      start := hrolled.start
      keeps := hrolled.keeps
      outcome := hrolled.next }

end Partition

end Storage
end ChimeraMQ
