import ChimeraMQ.Storage.Segment

/-!
# The records of a segment

A segment that holds a list of records reads every record back at its offset
and nothing else, takes further records, and is found again by opening its
file.
-/

namespace ChimeraMQ
namespace Storage

open Foundation
open Segment

def frames (recs : List Bytes) : Bytes :=
  recs.flatMap record

def endOfRecords (recs : List Bytes) : Nat :=
  segmentHeaderLen + (frames recs).length

def segmentFile (base created : Nat) (recs : List Bytes) (tail : Bytes) :
    Bytes :=
  header base created ++ (frames recs ++ tail)

def sparseIndex (base : Nat) (recs : List Bytes) : List IndexEntry :=
  ((List.range recs.length).filter (fun i => i % indexInterval = 0)).map
    (fun i =>
      { offset := (base + i) % 2 ^ 64
        position := endOfRecords (recs.take i) % 2 ^ 32 })

structure FileHolds (f : Bytes) (base : Nat) (recs : List Bytes) : Prop where
  bytes : exists created tail,
    f = segmentFile base created recs tail ∧ tail.length < 4
  base_lt : base + recs.length < 2 ^ 64
  end_lt : endOfRecords recs < 2 ^ 32

structure Holds (s : Segment) (f : Bytes) (base : Nat) (recs : List Bytes) :
    Prop where
  file : FileHolds f base recs
  baseOff : s.baseOff = base
  size : s.size = endOfRecords recs
  nextOff : s.nextOff = base + recs.length
  index : s.index = sparseIndex base recs
  frozen : s.frozen = false

/-!
## Positions
-/

theorem length_segment_header (base created : Nat) :
    (header base created).length = segmentHeaderLen := by
  simp [header, segmentHeaderLen]

@[simp] theorem length_record (data : Bytes) :
    (record data).length = 4 + data.length := by
  simp [record]

theorem frames_append (front back : List Bytes) :
    frames (front ++ back) = frames front ++ frames back := by
  simp [frames]

theorem endOfRecords_concat (recs : List Bytes) (d : Bytes) :
    endOfRecords (recs ++ [d]) = endOfRecords recs + 4 + d.length := by
  rw [endOfRecords, frames_append, List.length_append, endOfRecords]
  simp [frames]
  omega

theorem endOfRecords_append_le (front back : List Bytes) :
    endOfRecords front ≤ endOfRecords (front ++ back) := by
  rw [endOfRecords, endOfRecords, frames_append, List.length_append]
  omega

theorem endOfRecords_take_le (recs : List Bytes) (i : Nat) :
    endOfRecords (recs.take i) ≤ endOfRecords recs := by
  have hle := endOfRecords_append_le (recs.take i) (recs.drop i)
  rwa [List.take_append_drop] at hle

theorem length_le_endOfRecords (recs : List Bytes) :
    4 * recs.length ≤ (frames recs).length := by
  induction recs with
  | nil => exact Nat.zero_le _
  | cons d recs ih =>
  have hcons : frames (d :: recs) = record d ++ frames recs := rfl
  rw [hcons, List.length_append, length_record, List.length_cons]
  omega

theorem length_segmentFile (base created : Nat) (recs : List Bytes)
    (tail : Bytes) :
    (segmentFile base created recs tail).length =
      endOfRecords recs + tail.length := by
  rw [segmentFile, List.length_append, List.length_append,
    length_segment_header, endOfRecords, Nat.add_assoc]

variable {recs : List Bytes} {i : Nat} {d : Bytes}

theorem segmentFile_split (base created : Nat) (tail : Bytes)
    (hd : recs[i]? = some d) :
    exists front back, segmentFile base created recs tail =
        front ++ (be 4 d.length ++ (d ++ back)) ∧
      front.length = endOfRecords (recs.take i) := by
  have hsplit : recs = recs.take i ++ d :: recs.drop (i + 1) := by
    have hget := (List.getElem?_eq_some_iff.mp hd).2
    rw [← hget, List.getElem_cons_drop, List.take_append_drop]
  refine ⟨header base created ++ frames (recs.take i),
    frames (recs.drop (i + 1)) ++ tail, ?_, ?_⟩
  · have hcons : frames (d :: recs.drop (i + 1)) =
        be 4 d.length ++ (d ++ frames (recs.drop (i + 1))) := by
      simp [frames, record]
    have hframes : frames recs = frames (recs.take i) ++
        (be 4 d.length ++ (d ++ frames (recs.drop (i + 1)))) := by
      rw [← hcons, ← frames_append, ← hsplit]
    rw [segmentFile, hframes]
    simp only [List.append_assoc]
  · rw [List.length_append, length_segment_header, endOfRecords]

variable {base created : Nat} {tail : Bytes}

theorem readAt_segmentFile (hd : recs[i]? = some d) :
    readAt (segmentFile base created recs tail) (endOfRecords (recs.take i))
      4 = some (be 4 d.length) := by
  rcases segmentFile_split base created tail hd with
    ⟨front, back, hbytes, hfront⟩
  rw [hbytes, ← List.append_assoc]
  exact readAt_eq hfront (length_be _ _)

def Prefixed (f : Bytes) (recs : List Bytes) : Prop :=
  forall (i : Nat) (d : Bytes), recs[i]? = some d ->
    readAt f (endOfRecords (recs.take i)) 4 = some (be 4 d.length)

variable {f : Bytes}

theorem FileHolds.prefixed (hf : FileHolds f base recs) : Prefixed f recs := by
  intro i d hd
  rcases hf.bytes with ⟨created, tail, hbytes, _⟩
  rw [hbytes]
  exact readAt_segmentFile hd

theorem readData_segmentFile (hd : recs[i]? = some d) :
    readAt (segmentFile base created recs tail)
      (endOfRecords (recs.take i) + 4) d.length = some d := by
  rcases segmentFile_split base created tail hd with
    ⟨front, back, hbytes, hfront⟩
  rw [hbytes, ← List.append_assoc, ← List.append_assoc]
  apply readAt_eq
  · rw [List.length_append, hfront, length_be]
  · rfl

theorem FileHolds.readData (hf : FileHolds f base recs) (hd : recs[i]? = some d) :
    readAt f (endOfRecords (recs.take i) + 4) d.length = some d := by
  rcases hf.bytes with ⟨created, tail, hbytes, _⟩
  rw [hbytes]
  exact readData_segmentFile hd

theorem readAt_segmentFile_end (htail : tail.length < 4) :
    readAt (segmentFile base created recs tail) (endOfRecords recs) 4 =
      none := by
  apply readAt_of_lt (by decide)
  rw [length_segmentFile]
  omega

theorem FileHolds.readPrefix_end (hf : FileHolds f base recs) :
    readAt f (endOfRecords recs) 4 = none := by
  rcases hf.bytes with ⟨created, tail, hbytes, htail⟩
  rw [hbytes]
  exact readAt_segmentFile_end htail

theorem take_succ_of_getElem? (hd : recs[i]? = some d) :
    recs.take (i + 1) = recs.take i ++ [d] := by
  rw [List.take_add_one, hd]
  rfl

theorem endOfRecords_take_succ (hd : recs[i]? = some d) :
    endOfRecords (recs.take (i + 1)) =
      endOfRecords (recs.take i) + 4 + d.length := by
  rw [take_succ_of_getElem? hd, endOfRecords_concat]

theorem length_lt_of_end_lt (hend : endOfRecords recs < 2 ^ 32) (hd : d ∈ recs) :
    d.length < 2 ^ 32 := by
  rcases List.mem_iff_getElem?.mp hd with ⟨i, hi⟩
  have hle := endOfRecords_take_le recs (i + 1)
  rw [endOfRecords_take_succ hi] at hle
  omega

theorem ofBe_length_of_end_lt (hend : endOfRecords recs < 2 ^ 32)
    (hd : recs[i]? = some d) : ofBe (be 4 d.length) = d.length :=
  ofBe_be_of_lt (length_lt_of_end_lt hend (List.mem_of_getElem? hd))

/-!
## The index
-/

theorem FileHolds.mem_sparseIndex (hf : FileHolds f base recs) {e : IndexEntry} :
    e ∈ sparseIndex base recs <-> exists i, i < recs.length ∧
      i % indexInterval = 0 ∧
      e = { offset := base + i, position := endOfRecords (recs.take i) } := by
  have hbase := hf.base_lt
  have hend := hf.end_lt
  have hentry : forall i, i < recs.length ->
      ({ offset := (base + i) % 2 ^ 64
         position := endOfRecords (recs.take i) % 2 ^ 32 } : IndexEntry) =
        { offset := base + i, position := endOfRecords (recs.take i) } := by
    intro i hi
    have hle := endOfRecords_take_le recs i
    rw [Nat.mod_eq_of_lt (by omega), Nat.mod_eq_of_lt (by omega)]
  constructor
  · intro he
    rcases List.mem_map.mp he with ⟨i, hi, hie⟩
    rcases List.mem_filter.mp hi with ⟨hrange, hkept⟩
    have hlt := List.mem_range.mp hrange
    rw [hentry i hlt] at hie
    exact ⟨i, hlt, by simpa using hkept, hie.symm⟩
  intro he
  rcases he with ⟨i, hlt, hkept, hie⟩
  rw [hie, ← hentry i hlt]
  apply List.mem_map.mpr
  refine ⟨i, List.mem_filter.mpr ⟨List.mem_range.mpr hlt, ?_⟩, rfl⟩
  simpa using hkept

theorem FileHolds.sorted_sparseIndex (hf : FileHolds f base recs) :
    (sparseIndex base recs).Pairwise (fun a b => a.offset ≤ b.offset) := by
  have hbase := hf.base_lt
  rw [sparseIndex, List.pairwise_map]
  apply (List.pairwise_lt_range.filter _).imp_of_mem
  intro i j hi hj hij
  have hjn := List.mem_range.mp (List.mem_filter.mp hj).left
  simp only
  rw [Nat.mod_eq_of_lt (by omega), Nat.mod_eq_of_lt (by omega)]
  omega

theorem FileHolds.search_eq (hf : FileHolds f base recs) (target : Nat) :
    search (sparseIndex base recs) target =
      ((sparseIndex base recs).find? (fun e => e.offset = target)).map
        IndexEntry.position := by
  unfold search
  cases hfind : (sparseIndex base recs).find? (fun e => e.offset = target) with
  | none =>
    rw [binarySearch_none]
    intro e he
    have hne := List.find?_eq_none.mp hfind e he
    have hoff : e.offset ≠ target := by
      simpa using hne
    simp only [hoff, if_false]
    by_cases hlt : e.offset < target <;> simp [hlt]
  | some e =>
  have he := List.mem_of_find?_eq_some hfind
  have hoff : e.offset = target := by
    simpa using List.find?_some hfind
  have hsplit : Splits (fun e : IndexEntry =>
      if e.offset = target then Ordering.eq
      else if e.offset < target then .gt else .lt)
      (sparseIndex base recs) := by
    apply splits_of_pairwise
    apply hf.sorted_sparseIndex.imp
    intro a b hab
    constructor
    · intro ha
      have hgt : target < a.offset := by
        by_contra hle
        rcases Nat.lt_or_eq_of_le (Nat.le_of_not_lt hle) with hlt | heq
        · simp [Nat.ne_of_lt hlt, hlt] at ha
        · simp [heq] at ha
      have hb1 : b.offset ≠ target := by omega
      have hb2 : ¬ b.offset < target := by omega
      simp [hb1, hb2]
    intro hb
    have hlt : b.offset < target := by
      by_contra hge
      rcases Nat.lt_or_eq_of_le (Nat.le_of_not_lt hge) with hgt | heq
      · simp [Nat.ne_of_gt hgt, Nat.not_lt_of_lt hgt] at hb
      · simp [heq] at hb
    have ha1 : a.offset ≠ target := by omega
    have ha2 : a.offset < target := by omega
    simp [ha1, ha2]
  rcases exists_binarySearch hsplit he (by simp [hoff]) with
    ⟨y, hy, hmem, hcmp⟩
  rw [hy]
  have hyoff : y.offset = target := by
    by_contra hne
    simp only [hne, if_false] at hcmp
    by_cases hlt : y.offset < target
    · simp [hlt] at hcmp
    · simp [hlt] at hcmp
  rcases hf.mem_sparseIndex.mp he with ⟨i, _, _, hie⟩
  rcases hf.mem_sparseIndex.mp hmem with ⟨j, _, _, hje⟩
  have hij : i = j := by
    rw [hie] at hoff
    rw [hje] at hyoff
    simp only at hoff hyoff
    omega
  rw [hie, hje, hij]

/-!
## Reading
-/

theorem skip_step (hend : endOfRecords recs < 2 ^ 32) (hd : recs[i]? = some d) :
    (endOfRecords (recs.take i) + 4 + d.length) % 2 ^ 32 =
      endOfRecords (recs.take (i + 1)) := by
  have hbound := endOfRecords_take_le recs (i + 1)
  rw [← endOfRecords_take_succ hd, Nat.mod_eq_of_lt (by omega)]

variable {k : Nat}

theorem Prefixed.skipRecords_take (hf : Prefixed f recs)
    (hend : endOfRecords recs < 2 ^ 32) (hle : i + k ≤ recs.length) :
    skipRecords f k (endOfRecords (recs.take i)) =
      .ok (endOfRecords (recs.take (i + k))) := by
  induction k generalizing i with
  | zero => rfl
  | succ k ih =>
  have hlt : i < recs.length := by omega
  have hd : recs[i]? = some recs[i] := List.getElem?_eq_getElem hlt
  rw [skipRecords, hf i _ hd]
  simp only [ofBe_length_of_end_lt hend hd, skip_step hend hd]
  rw [ih (by omega), Nat.add_right_comm, Nat.add_assoc]

theorem FileHolds.skipRecords_beyond (hf : FileHolds f base recs)
    (hi : i ≤ recs.length) (hlt : recs.length < i + k) :
    skipRecords f k (endOfRecords (recs.take i)) = .error .eof := by
  induction k generalizing i with
  | zero => omega
  | succ k ih =>
  rcases Nat.lt_or_eq_of_le hi with hless | heq
  · have hd : recs[i]? = some recs[i] := List.getElem?_eq_getElem hless
    rw [skipRecords, hf.prefixed i _ hd]
    simp only [ofBe_length_of_end_lt hf.end_lt hd, skip_step hf.end_lt hd]
    exact ih hless (by omega)
  · rw [heq, List.take_length, skipRecords, hf.readPrefix_end]

variable {s : Segment}

variable (hs : Holds s f base recs)

include hs

theorem Holds.findPosition_eq (g : Bytes) (k : Nat) :
    exists i, i ≤ k ∧ i ≤ recs.length ∧
      s.findPosition g (base + k) =
        skipRecords g (k - i) (endOfRecords (recs.take i)) := by
  have hf := hs.file
  have hnot : ¬ base + k < s.baseOff := by
    rw [hs.baseOff]
    omega
  unfold Segment.findPosition
  rw [if_neg hnot, hs.index, hf.search_eq, hs.baseOff]
  cases hfind : (sparseIndex base recs).find?
      (fun e => e.offset = base + k) with
  | some e =>
    have hoff : e.offset = base + k := by
      simpa using List.find?_some hfind
    rcases hf.mem_sparseIndex.mp (List.mem_of_find?_eq_some hfind) with
      ⟨i, hi, _, hie⟩
    have hik : i = k := by
      rw [hie] at hoff
      exact Nat.add_left_cancel hoff
    subst hik
    refine ⟨i, Nat.le_refl _, Nat.le_of_lt hi, ?_⟩
    rw [Nat.sub_self, hie]
    rfl
  | none =>
  by_cases hnil : sparseIndex base recs = []
  · refine ⟨0, Nat.zero_le _, Nat.zero_le _, ?_⟩
    simp [hnil, endOfRecords, frames]
  simp only [Option.map_none, hnil, if_false]
  have hpos : 0 < recs.length := by
    by_contra hzero
    apply hnil
    rw [List.eq_nil_of_length_eq_zero (Nat.eq_zero_of_not_pos hzero)]
    rfl
  have hfirst : { offset := base + 0
                  position := endOfRecords (recs.take 0) } ∈
      sparseIndex base recs :=
    hf.mem_sparseIndex.mpr ⟨0, hpos, rfl, rfl⟩
  cases hnear : (sparseIndex base recs).reverse.find?
      (fun e => e.offset ≤ base + k) with
  | none =>
    have hfar := List.find?_eq_none.mp hnear _
      (List.mem_reverse.mpr hfirst)
    simp at hfar
  | some e =>
  have hmem := List.mem_reverse.mp (List.mem_of_find?_eq_some hnear)
  have hle : e.offset ≤ base + k := by
    simpa using List.find?_some hnear
  rcases hf.mem_sparseIndex.mp hmem with ⟨i, hi, _, hie⟩
  rw [hie] at hle
  refine ⟨i, Nat.le_of_add_le_add_left hle, Nat.le_of_lt hi, ?_⟩
  rw [hie]
  simp only
  rw [Nat.add_sub_add_left]

theorem Holds.findPosition (hk : k ≤ recs.length) :
    s.findPosition f (base + k) = .ok (endOfRecords (recs.take k)) := by
  rcases hs.findPosition_eq f k with ⟨i, hik, _, hfind⟩
  have hadd : i + (k - i) = k := by omega
  rw [hfind, hs.file.prefixed.skipRecords_take hs.file.end_lt (by omega), hadd]

theorem Holds.readAt (hd : recs[k]? = some d) :
    s.readAt f (endOfRecords (recs.take k)) = .ok d := by
  have hend := endOfRecords_take_le recs (k + 1)
  rw [endOfRecords_take_succ hd] at hend
  have hrange : ¬ (endOfRecords (recs.take k) < segmentHeaderLen ∨
      endOfRecords (recs.take k) ≥ s.size) := by
    have hge : segmentHeaderLen ≤ endOfRecords (recs.take k) :=
      Nat.le_add_right _ _
    rw [hs.size]
    omega
  have hwhole : ¬ endOfRecords (recs.take k) + 4 + d.length > s.size := by
    rw [hs.size]
    omega
  unfold Segment.readAt
  rw [if_neg hrange, hs.file.prefixed k d hd]
  simp only [ofBe_length_of_end_lt hs.file.end_lt hd]
  rw [if_neg hwhole, hs.file.readData hd]

theorem Holds.read (hd : recs[k]? = some d) :
    s.read f (base + k) = .ok d := by
  have hlt := (List.getElem?_eq_some_iff.mp hd).1
  unfold Segment.read
  rw [hs.findPosition (Nat.le_of_lt hlt)]
  exact hs.readAt hd

theorem Holds.read_none {offset : Nat}
    (hout : offset < base ∨ base + recs.length ≤ offset) :
    exists e, s.read f offset = .error e := by
  unfold Segment.read
  rcases Nat.lt_or_ge offset base with hold | hge
  · refine ⟨.offsetTooOld, ?_⟩
    rw [Segment.findPosition, hs.baseOff, if_pos hold]
  rcases Nat.exists_eq_add_of_le hge with ⟨k, hk⟩
  subst hk
  have hfar : recs.length ≤ k := by omega
  rcases hs.findPosition_eq f k with ⟨i, hik, hin, hfind⟩
  rcases Nat.lt_or_eq_of_le hfar with hlt | heq
  · refine ⟨.eof, ?_⟩
    rw [hfind, hs.file.skipRecords_beyond hin (by omega)]
  subst heq
  rw [hs.findPosition (Nat.le_refl _), List.take_length]
  refine ⟨.positionOutOfRange (endOfRecords recs) s.size, ?_⟩
  have hrange : endOfRecords recs < segmentHeaderLen ∨
      endOfRecords recs ≥ s.size := by
    rw [hs.size]
    exact Or.inr (Nat.le_refl _)
  simp only [Segment.readAt, hrange, if_true]

/-!
## Appending
-/

omit hs in
theorem sparseIndex_concat (base : Nat) (recs : List Bytes) (d : Bytes) :
    sparseIndex base (recs ++ [d]) =
      addIndex (sparseIndex base recs) recs.length
        ((base + recs.length) % 2 ^ 64) (endOfRecords recs) := by
  have hold : ((List.range recs.length).filter
        (fun i => i % indexInterval = 0)).map
        (fun i => ({ offset := (base + i) % 2 ^ 64
                     position := endOfRecords ((recs ++ [d]).take i) %
                       2 ^ 32 } : IndexEntry)) = sparseIndex base recs := by
    apply List.map_congr_left
    intro i hi
    have hlt := List.mem_range.mp (List.mem_filter.mp hi).left
    rw [List.take_append_of_le_length (Nat.le_of_lt hlt)]
  have hlast : (recs ++ [d]).take recs.length = recs := by
    simp
  rw [sparseIndex, List.length_append, List.length_singleton, List.range_succ,
    List.filter_append, List.map_append, hold]
  unfold addIndex
  by_cases hkept : recs.length % indexInterval = 0
  · rw [if_pos hkept]
    simp [hkept, hlast]
  · rw [if_neg hkept]
    simp [hkept]

omit hs in
theorem writeAt_tail {front data : Bytes} (hlong : tail.length ≤ data.length) :
    writeAt (front ++ tail) front.length data = front ++ data := by
  cases data with
  | nil =>
    have hnil : tail = [] := List.eq_nil_of_length_eq_zero
      (Nat.eq_zero_of_le_zero hlong)
    simp [writeAt, hnil]
  | cons x rest =>
  have hzero : front.length - (front ++ tail).length = 0 := by
    simp
  have hdrop : (front ++ tail).drop (front.length + (x :: rest).length) =
      [] := by
    apply List.drop_eq_nil_of_le
    rw [List.length_append]
    omega
  unfold writeAt
  simp only [hzero, List.replicate_zero, List.append_nil, List.take_left,
    hdrop]

theorem Holds.append (hfits : s.size + (4 + d.length) ≤ s.maxSize)
    (hbase : base + recs.length + 1 < 2 ^ 64)
    (hend : endOfRecords (recs ++ [d]) < 2 ^ 32) :
    exists s' f', s.append f d =
        .ok (s', f', base + recs.length, endOfRecords recs) ∧
      Holds s' f' base (recs ++ [d]) ∧ s'.maxSize = s.maxSize ∧
      s'.path = s.path ∧ s'.file = s.file := by
  have hnot : ¬ endOfRecords recs + (4 + d.length) > s.maxSize := by
    rw [← hs.size]
    exact Nat.not_lt.mpr hfits
  have hcount : (base + recs.length + 2 ^ 64 - base) % 2 ^ 64 =
      recs.length := by
    have hsub : base + recs.length + 2 ^ 64 - base = recs.length + 2 ^ 64 := by
      omega
    rw [hsub, Nat.add_mod_right, Nat.mod_eq_of_lt (by omega)]
  unfold Segment.append
  simp only [hs.frozen, Bool.false_eq_true, if_false, hnot, hs.nextOff,
    hs.size, hs.baseOff, hcount]
  refine ⟨_, _, rfl, ?_, rfl, rfl, rfl⟩
  rcases hs.file.bytes with ⟨created, tail, hbytes, htail⟩
  have hwrite : writeAt f (endOfRecords recs) (record d) =
      segmentFile base created (recs ++ [d]) [] := by
    have hfront : (header base created ++ frames recs).length =
        endOfRecords recs := by
      rw [List.length_append, length_segment_header, endOfRecords]
    have htail' : tail.length ≤ (record d).length := by
      rw [length_record]
      omega
    rw [hbytes, segmentFile, ← List.append_assoc, ← hfront,
      writeAt_tail htail', segmentFile, frames_append]
    simp [frames]
  exact
    { file :=
        { bytes := ⟨created, [], hwrite, by decide⟩
          base_lt := by
            rw [List.length_append]
            exact hbase
          end_lt := hend }
      baseOff := rfl
      size := by
        rw [endOfRecords_concat]
        exact (Nat.add_assoc ..).symm
      nextOff := by
        rw [List.length_append]
        exact Nat.mod_eq_of_lt hbase
      index := by
        have hnext : (base + recs.length) % 2 ^ 64 = base + recs.length :=
          Nat.mod_eq_of_lt (by omega)
        rw [sparseIndex_concat, hnext, ← hs.index]
      frozen := rfl }

omit hs

/-!
## Opening
-/

theorem scanRecords_stop {pos count : Nat} {index : List IndexEntry}
    (hnone : readAt f pos 4 = none) :
    Segment.scanRecords f base k pos count index = (pos, count, index) := by
  cases k with
  | zero => rfl
  | succ k => rw [Segment.scanRecords, hnone]

theorem Prefixed.scanRecords (hf : Prefixed f recs)
    (hshort : forall d, d ∈ recs -> d.length < 2 ^ 32) (base : Nat) {n : Nat}
    (k : Nat) (hn : i + n = recs.length) :
    Segment.scanRecords f base (n + k) (endOfRecords (recs.take i)) i
        (sparseIndex base (recs.take i)) =
      Segment.scanRecords f base k (endOfRecords recs) recs.length
        (sparseIndex base recs) := by
  induction n generalizing i with
  | zero =>
    rw [Nat.add_zero] at hn
    rw [hn, List.take_length, Nat.zero_add]
  | succ n ih =>
  have hlt : i < recs.length := by omega
  have hd : recs[i]? = some recs[i] := List.getElem?_eq_getElem hlt
  have hdata : ofBe (be 4 recs[i].length) = recs[i].length :=
    ofBe_be_of_lt (hshort _ (List.getElem_mem hlt))
  have hlength : (recs.take i).length = i := by
    rw [List.length_take]
    omega
  have hindex : addIndex (sparseIndex base (recs.take i)) i
      ((base + i) % 2 ^ 64) (endOfRecords (recs.take i)) =
        sparseIndex base (recs.take (i + 1)) := by
    rw [take_succ_of_getElem? hd, sparseIndex_concat, hlength]
  rw [Nat.succ_add, Segment.scanRecords, hf i _ hd]
  simp only [hdata]
  rw [hindex, ← endOfRecords_take_succ hd]
  exact ih (by omega)

theorem Prefixed.scanRecords_stop (hf : Prefixed f recs)
    (hshort : forall d, d ∈ recs -> d.length < 2 ^ 32) (base : Nat)
    (hk : recs.length ≤ k) (hstop : readAt f (endOfRecords recs) 4 = none) :
    Segment.scanRecords f base k segmentHeaderLen 0 [] =
      (endOfRecords recs, recs.length, sparseIndex base recs) := by
  have hwalk := hf.scanRecords hshort base (k - recs.length) (Nat.zero_add _)
  rw [Nat.add_sub_cancel' hk, Storage.scanRecords_stop hstop] at hwalk
  exact hwalk

theorem prefixed_segmentFile (base created : Nat) (recs : List Bytes)
    (tail : Bytes) : Prefixed (segmentFile base created recs tail) recs :=
  fun _ _ hd => readAt_segmentFile hd

theorem scanRecords_whole (base created : Nat) {recs : List Bytes}
    {tail : Bytes} (hshort : forall d, d ∈ recs -> d.length < 2 ^ 32)
    (htail : tail.length < 4) :
    Segment.scanRecords (segmentFile base created recs tail) base
        (segmentFile base created recs tail).length segmentHeaderLen 0 [] =
      (endOfRecords recs, recs.length, sparseIndex base recs) := by
  apply (prefixed_segmentFile base created recs tail).scanRecords_stop hshort
  · have hmany := length_le_endOfRecords recs
    rw [length_segmentFile, endOfRecords]
    omega
  · exact readAt_segmentFile_end htail

theorem readHeader_segmentFile (hbase : base < 2 ^ 64) :
    s.readHeader (segmentFile base created recs tail) =
      .ok { s with
        baseOff := base
        nextOff := base
        size := (segmentFile base created recs tail).length } := by
  have hread : readAt (segmentFile base created recs tail) 0
      segmentHeaderLen = some (header base created) := by
    have hsplit : segmentFile base created recs tail =
        [] ++ header base created ++ (frames recs ++ tail) := by
      rw [segmentFile, List.nil_append]
    rw [hsplit]
    exact readAt_eq rfl (length_segment_header _ _)
  have hmagic : (header base created).take 4 = be 4 segmentMagic := by
    simp only [header, List.append_assoc]
    exact List.take_left' (length_be _ _)
  have hoffset : ((header base created).drop 8).take 8 = be 8 base := by
    have hfront : (be 4 segmentMagic ++ be 4 segmentVersion).length = 8 := by
      decide
    simp only [header, List.append_assoc]
    rw [← List.append_assoc, List.drop_left' hfront]
    exact List.take_left' (length_be _ _)
  have hnumber : ofBe (be 4 segmentMagic) = segmentMagic := by
    decide
  have hvalue : ofBe (be 8 base) = base := ofBe_be_of_lt hbase
  unfold readHeader
  simp only [hread, hmagic, hnumber, hoffset, hvalue, ne_eq,
    not_true_eq_false, if_false]

theorem openSegment_segmentFile (path : List Char) (file : Nat)
    (baseOffset maxSize now : Nat) (hbase : base < 2 ^ 64) :
    Segment.openSegment path file (segmentFile base created recs tail)
        baseOffset maxSize now =
      .ok (rebuildIndex
          { path := path, file := file
            size := (segmentFile base created recs tail).length
            maxSize := maxSize, baseOff := base, nextOff := base, index := []
            frozen := false } (segmentFile base created recs tail),
        segmentFile base created recs tail) := by
  have hlength : (segmentFile base created recs tail).length ≠ 0 := by
    rw [length_segmentFile, endOfRecords, segmentHeaderLen]
    omega
  unfold Segment.openSegment
  simp only [hlength, if_false, readHeader_segmentFile hbase]

theorem FileHolds.openSegment (hf : FileHolds f base recs) (path : List Char)
    (file : Nat) (baseOffset maxSize now : Nat) :
    exists s, Segment.openSegment path file f baseOffset maxSize now =
        .ok (s, f) ∧ Holds s f base recs ∧ s.maxSize = maxSize ∧
      s.path = path ∧ s.file = file := by
  have hbase := hf.base_lt
  rcases hf.bytes with ⟨created, tail, hbytes, htail⟩
  have hscan : Segment.scanRecords f base f.length segmentHeaderLen 0 [] =
      (endOfRecords recs, recs.length, sparseIndex base recs) := by
    rw [hbytes]
    exact scanRecords_whole base created
      (fun _ hd => length_lt_of_end_lt hf.end_lt hd) htail
  rw [hbytes, openSegment_segmentFile path file baseOffset maxSize now
    (by omega), ← hbytes]
  refine ⟨_, rfl, ?_, rfl, rfl, rfl⟩
  exact
    { file := hf
      baseOff := rfl
      size := by
        unfold rebuildIndex
        simp only [hscan]
      nextOff := by
        unfold rebuildIndex
        simp only [hscan]
        exact Nat.mod_eq_of_lt hbase
      index := by
        unfold rebuildIndex
        simp only [hscan]
      frozen := rfl }

theorem openSegment_torn (path : List Char) (file : Nat) {part : Bytes}
    (baseOffset maxSize now : Nat) (hbase : base < 2 ^ 64)
    (hshort : forall x, x ∈ recs ++ [d] -> x.length < 2 ^ 32)
    (hpart : part.length < d.length) :
    exists s, Segment.openSegment path file
        (segmentFile base created recs (be 4 d.length ++ part)) baseOffset
        maxSize now =
      .ok (s, segmentFile base created recs (be 4 d.length ++ part)) ∧
      s.nextOff = (base + (recs.length + 1)) % 2 ^ 64 := by
  have hlength : (segmentFile base created recs
      (be 4 d.length ++ part)).length =
        endOfRecords recs + (4 + part.length) := by
    rw [length_segmentFile, List.length_append, length_be]
  have hmany := length_le_endOfRecords recs
  have hfuel : (segmentFile base created recs
      (be 4 d.length ++ part)).length =
        recs.length + (endOfRecords recs + 3 + part.length - recs.length +
          1) := by
    rw [hlength, endOfRecords]
    omega
  have hlen : readAt (segmentFile base created recs
      (be 4 d.length ++ part)) (endOfRecords recs) 4 =
        some (be 4 d.length) := by
    have hsplit : segmentFile base created recs (be 4 d.length ++ part) =
        (header base created ++ frames recs) ++ be 4 d.length ++
          part := by
      simp only [segmentFile, List.append_assoc]
    rw [hsplit]
    apply readAt_eq _ (length_be _ _)
    rw [List.length_append, length_segment_header, endOfRecords]
  have hvalue : ofBe (be 4 d.length) = d.length :=
    ofBe_be_of_lt (hshort d (by simp))
  have hbeyond : readAt (segmentFile base created recs
      (be 4 d.length ++ part)) (endOfRecords recs + 4 + d.length) 4 =
        none := by
    apply readAt_of_lt (by decide)
    rw [hlength]
    omega
  have hscan : (Segment.scanRecords (segmentFile base created recs
      (be 4 d.length ++ part)) base (segmentFile base created recs
      (be 4 d.length ++ part)).length segmentHeaderLen 0 []).2.1 =
        recs.length + 1 := by
    have hwalk := (prefixed_segmentFile base created recs
      (be 4 d.length ++ part)).scanRecords
      (fun x hx => hshort x (List.mem_append_left _ hx)) base
      (endOfRecords recs + 3 + part.length - recs.length + 1)
      (Nat.zero_add _)
    rw [← hfuel, Segment.scanRecords, hlen] at hwalk
    simp only [hvalue] at hwalk
    rw [scanRecords_stop hbeyond] at hwalk
    exact congrArg (fun r => r.2.1) hwalk
  rw [openSegment_segmentFile path file baseOffset maxSize now hbase]
  refine ⟨_, rfl, ?_⟩
  unfold rebuildIndex
  simp only [hscan]

end Storage
end ChimeraMQ
