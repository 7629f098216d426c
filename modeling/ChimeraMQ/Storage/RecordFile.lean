import ChimeraMQ.Storage.SegmentRecords

/-!
# Files of whole records

What a segment file holds, read in the order of the file, and what opening a
segment and appending to it do to that.
-/

namespace ChimeraMQ
namespace Storage

open Foundation

def recordsFrom (f : Bytes) : Nat -> Nat -> List Bytes
  | 0, _ => []
  | k + 1, pos =>
    match readAt f pos 4 with
    | none => []
    | some lenBuf =>
      match readAt f (pos + 4) (ofBe lenBuf) with
      | none => []
      | some data => data :: recordsFrom f k (pos + 4 + ofBe lenBuf)

def fileRecords (f : Bytes) : List Bytes :=
  recordsFrom f f.length segmentHeaderLen

def RecordFile (f : Bytes) : Prop :=
  exists base created recs, base < 2 ^ 64 ∧
    (forall d, d ∈ recs -> d.length < 2 ^ 32) ∧
    f = segmentFile base created recs []

structure AtEnd (s : Segment) (f : Bytes) : Prop where
  size : s.size = f.length
  baseOff_lt : s.baseOff < 2 ^ 64
  nextOff_lt : s.nextOff < 2 ^ 64

theorem recordsFrom_segmentFile (base created : Nat) {recs : List Bytes}
    (hshort : forall d, d ∈ recs -> d.length < 2 ^ 32) {n i k : Nat}
    (hn : i + n = recs.length) :
    recordsFrom (segmentFile base created recs []) (n + k)
      (endOfRecords (recs.take i)) = recs.drop i := by
  induction n generalizing i with
  | zero =>
    rw [Nat.add_zero] at hn
    rw [hn, List.take_length, List.drop_length]
    have hend : readAt (segmentFile base created recs [])
        (endOfRecords recs) 4 = none := readAt_segmentFile_end (by decide)
    cases k with
    | zero => rfl
    | succ k =>
      rw [Nat.zero_add, recordsFrom, hend]
  | succ n ih =>
  have hlt : i < recs.length := by omega
  have hd : recs[i]? = some recs[i] := List.getElem?_eq_getElem hlt
  have hdata : ofBe (be 4 recs[i].length) = recs[i].length :=
    ofBe_be_of_lt (hshort _ (List.getElem_mem hlt))
  rw [Nat.succ_add, recordsFrom, readAt_segmentFile hd]
  simp only [hdata, readData_segmentFile hd]
  rw [← endOfRecords_take_succ hd, ih (by omega),
    List.getElem_cons_drop]

theorem fileRecords_segmentFile (base created : Nat) {recs : List Bytes}
    (hshort : forall d, d ∈ recs -> d.length < 2 ^ 32) :
    fileRecords (segmentFile base created recs []) = recs := by
  have hmany := length_le_endOfRecords recs
  have hlength := length_segmentFile base created recs []
  rw [endOfRecords] at hlength
  have hfuel : (segmentFile base created recs []).length = recs.length +
      ((segmentFile base created recs []).length - recs.length) := by
    omega
  rw [fileRecords, hfuel]
  exact recordsFrom_segmentFile base created hshort (Nat.zero_add _)

theorem fileRecords_nil (base created : Nat) :
    fileRecords (segmentFile base created [] []) = [] := by
  apply fileRecords_segmentFile
  intro d hd
  cases hd

theorem RecordFile.ne_nil {f : Bytes} (hf : RecordFile f) : f ≠ [] := by
  rcases hf with ⟨base, created, recs, _, _, hbytes⟩
  intro hnil
  have hlength := length_segmentFile base created recs []
  rw [← hbytes, hnil, endOfRecords, segmentHeaderLen, List.length_nil]
    at hlength
  omega

theorem RecordFile.openSegment {f : Bytes} (hf : RecordFile f)
    (path : List Char) (file baseOffset maxSize now : Nat) :
    exists s, Segment.openSegment path file f baseOffset maxSize now =
        .ok (s, f) ∧ AtEnd s f ∧ s.path = path ∧ s.file = file ∧
      s.frozen = false := by
  rcases hf with ⟨base, created, recs, hbase, hshort, hbytes⟩
  subst hbytes
  have hempty : ([] : Bytes).length < 4 := by
    decide
  have hscan := scanRecords_whole base created hshort hempty
  rw [openSegment_segmentFile path file baseOffset maxSize now hbase]
  refine ⟨_, rfl, ?_, rfl, rfl, rfl⟩
  exact
    { size := by
        unfold Segment.rebuildIndex
        simp only [hscan]
        rw [length_segmentFile, List.length_nil, Nat.add_zero]
      baseOff_lt := hbase
      nextOff_lt := Nat.mod_lt _ (by decide) }

theorem openSegment_nil (path : List Char) (file : Nat) {baseOffset : Nat}
    (maxSize now : Nat) (hbase : baseOffset < 2 ^ 64) :
    exists s, Segment.openSegment path file [] baseOffset maxSize now =
        .ok (s, segmentFile baseOffset now [] []) ∧
      AtEnd s (segmentFile baseOffset now [] []) ∧ s.path = path ∧
      s.file = file ∧ s.frozen = false := by
  refine ⟨_, rfl, ?_, rfl, rfl, rfl⟩
  exact { size := rfl, baseOff_lt := hbase, nextOff_lt := hbase }

theorem recordFile_nil {base now : Nat} (hbase : base < 2 ^ 64) :
    RecordFile (segmentFile base now [] []) := by
  refine ⟨base, now, [], hbase, ?_, rfl⟩
  intro d hd
  cases hd

/-!
## Appending
-/

theorem RecordFile.append {s s' : Segment} {f f' data : Bytes}
    {offset position : Nat} (hf : RecordFile f) (hs : AtEnd s f)
    (hshort : data.length < 2 ^ 32)
    (happend : s.append f data = .ok (s', f', offset, position)) :
    RecordFile f' ∧ AtEnd s' f' ∧ fileRecords f' = fileRecords f ++ [data] ∧
      s'.path = s.path ∧ s'.file = s.file ∧ s'.baseOff = s.baseOff ∧
      s'.frozen = s.frozen := by
  rcases hf with ⟨base, created, recs, hbase, hrecs, hbytes⟩
  have hall : forall d, d ∈ recs ++ [data] -> d.length < 2 ^ 32 := by
    intro d hd
    rcases List.mem_append.mp hd with hold | hnew
    · exact hrecs d hold
    · rw [List.mem_singleton.mp hnew]
      exact hshort
  have hfile : writeAt f s.size (Segment.record data) =
      segmentFile base created (recs ++ [data]) [] := by
    rw [hs.size, writeAt_length, hbytes, segmentFile, segmentFile,
      frames_append]
    simp [frames]
  unfold Segment.append at happend
  by_cases hfrozen : s.frozen
  · rw [if_pos hfrozen] at happend
    cases happend
  rw [if_neg hfrozen] at happend
  by_cases hfull : s.size + (4 + data.length) > s.maxSize
  · simp only [hfull, if_true] at happend
    cases happend
  simp only [hfull, if_false, hfile] at happend
  cases happend
  refine ⟨⟨base, created, _, hbase, hall, rfl⟩, ?_, ?_, rfl, rfl, rfl, rfl⟩
  · exact
      { size := by
          change s.size + (4 + data.length) = _
          rw [hs.size, hbytes, length_segmentFile, length_segmentFile,
            endOfRecords_concat]
          simp only [List.length_nil]
          omega
        baseOff_lt := hs.baseOff_lt
        nextOff_lt := Nat.mod_lt _ (by decide) }
  · rw [hbytes, fileRecords_segmentFile base created hall,
      fileRecords_segmentFile base created hrecs]

end Storage
end ChimeraMQ
