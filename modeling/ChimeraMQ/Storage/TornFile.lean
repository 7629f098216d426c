import ChimeraMQ.Storage.SegmentRecovery

/-!
# Segment files with a torn end

After a crash the last record of a segment file may have lost a part of its
data.  The program goes on with such a file as if the missing bytes were zeros.
-/

namespace ChimeraMQ
namespace Storage

open Foundation

def padTo (f : Bytes) (n : Nat) : Bytes :=
  f ++ List.replicate (n - f.length) 0

theorem length_padTo (f : Bytes) (n : Nat) :
    (padTo f n).length = max f.length n := by
  rw [padTo, List.length_append, List.length_replicate]
  omega

variable {f : Bytes} {n : Nat}

theorem padTo_of_le (hle : n ≤ f.length) :
    padTo f n = f := by
  rw [padTo, Nat.sub_eq_zero_of_le hle, List.replicate_zero, List.append_nil]

theorem take_padTo {m : Nat} (hle : m ≤ f.length) :
    (padTo f n).take m = f.take m := by
  rw [padTo, List.take_append_of_le_length hle]

theorem readAt_padTo {pos : Nat} (m : Nat) (hle : pos + n ≤ f.length) :
    readAt (padTo f m) pos n = readAt f pos n := by
  unfold readAt
  have hlong : pos + n ≤ (padTo f m).length := by
    rw [length_padTo]
    omega
  rw [if_pos hle, if_pos hlong, padTo,
    List.drop_append_of_le_length (by omega),
    List.take_append_of_le_length (by rw [List.length_drop]; omega)]

theorem writeAt_padTo (f : Bytes) (n : Nat) {data : Bytes}
    (hdata : data ≠ []) : writeAt (padTo f n) n data = writeAt f n data := by
  rcases Nat.lt_or_ge n f.length with hlt | hge
  · rw [padTo_of_le (Nat.le_of_lt hlt)]
  have hlength : (padTo f n).length = n := by
    rw [length_padTo]
    omega
  cases data with
  | nil => exact absurd rfl hdata
  | cons x rest =>
  have hdrop : (padTo f n).drop (n + (x :: rest).length) = [] :=
    List.drop_eq_nil_of_le (by omega)
  have hdrop' : f.drop (n + (x :: rest).length) = [] :=
    List.drop_eq_nil_of_le (by omega)
  have hgap : n - (padTo f n).length = 0 := by omega
  unfold writeAt
  simp only [hdrop, hdrop', hgap, List.replicate_zero, List.append_nil]
  rfl

/-!
## Files with a torn end
-/

structure Written (f : Bytes) (base : Nat) (recs : List Bytes) : Prop where
  padded : FileHolds (padTo f (endOfRecords recs)) base recs
  header_le : segmentHeaderLen ≤ f.length
  prefix_le : forall i, i < recs.length ->
    endOfRecords (recs.take i) + 4 ≤ f.length

/-- The segment, frozen or not, is open on such a file. -/
structure Stands (s : Segment) (f : Bytes) (base : Nat) (recs : List Bytes) :
    Prop where
  written : Written f base recs
  baseOff : s.baseOff = base
  size : s.size = endOfRecords recs
  nextOff : s.nextOff = base + recs.length
  index : s.index = sparseIndex base recs

variable {base : Nat} {recs : List Bytes}

theorem FileHolds.length_ge (hf : FileHolds f base recs) :
    endOfRecords recs ≤ f.length := by
  rcases hf.bytes with ⟨created, tail, hbytes, _⟩
  rw [hbytes, length_segmentFile]
  exact Nat.le_add_right _ _

theorem FileHolds.written (hf : FileHolds f base recs) :
    Written f base recs where
  padded := by
    rw [padTo_of_le hf.length_ge]
    exact hf
  header_le := (Nat.le_add_right _ _).trans hf.length_ge
  prefix_le := by
    intro i hi
    have hd : recs[i]? = some recs[i] := List.getElem?_eq_getElem hi
    have hle := endOfRecords_take_le recs (i + 1)
    rw [endOfRecords_take_succ hd] at hle
    have hlong := hf.length_ge
    omega

theorem Written.prefixed (hf : Written f base recs) : Prefixed f recs := by
  intro i d hd
  have hlt := (List.getElem?_eq_some_iff.mp hd).1
  rw [← readAt_padTo (endOfRecords recs) (hf.prefix_le i hlt)]
  exact hf.padded.prefixed i d hd

theorem Written.readPrefix_end (hf : Written f base recs) :
    readAt f (endOfRecords recs) 4 = none := by
  rcases Nat.lt_or_ge f.length (endOfRecords recs + 4) with hlt | hge
  · exact readAt_of_lt (by decide) hlt
  · rw [← readAt_padTo (endOfRecords recs) hge]
    exact hf.padded.readPrefix_end

variable {s : Segment}

variable (hs : Stands s f base recs)

include hs

theorem Stands.holds :
    Holds { s with frozen := false } (padTo f (endOfRecords recs)) base
      recs where
  file := hs.written.padded
  baseOff := hs.baseOff
  size := hs.size
  nextOff := hs.nextOff
  index := hs.index
  frozen := rfl

theorem Stands.freeze : Stands s.freeze f base recs :=
  { hs with }

/-!
## Reading
-/

theorem Stands.findPosition {k : Nat} (hk : k ≤ recs.length) :
    s.findPosition f (base + k) = .ok (endOfRecords (recs.take k)) := by
  rcases hs.holds.findPosition_eq f k with ⟨i, hik, _, hfind⟩
  have hadd : i + (k - i) = k := by omega
  change s.findPosition f (base + k) = _ at hfind
  rw [hfind, hs.written.prefixed.skipRecords_take hs.written.padded.end_lt
    (by omega), hadd]

variable {d : Bytes}

theorem Stands.readAt {k : Nat} (hd : recs[k]? = some d)
    (hinside : endOfRecords (recs.take (k + 1)) ≤ f.length) :
    s.readAt f (endOfRecords (recs.take k)) = .ok d := by
  have hwhole := hs.holds.readAt hd
  rw [endOfRecords_take_succ hd] at hinside
  have hsame : Segment.readAt { s with frozen := false }
      (padTo f (endOfRecords recs)) (endOfRecords (recs.take k)) =
        s.readAt f (endOfRecords (recs.take k)) := by
    unfold Segment.readAt
    rw [readAt_padTo _ (by omega), hs.written.prefixed k d hd]
    simp only [ofBe_length_of_end_lt hs.written.padded.end_lt hd]
    rw [readAt_padTo _ hinside]
  rw [← hsame]
  exact hwhole

theorem Stands.read {k : Nat} (hd : recs[k]? = some d)
    (hinside : endOfRecords (recs.take (k + 1)) ≤ f.length) :
    s.read f (base + k) = .ok d := by
  have hlt := (List.getElem?_eq_some_iff.mp hd).1
  unfold Segment.read
  rw [hs.findPosition (Nat.le_of_lt hlt)]
  exact hs.readAt hd hinside

omit hs in
theorem readAtSequential_of_readAt {pos : Nat} (h : s.readAt f pos = .ok d) :
    s.readAtSequential f pos = .ok (d, pos + (4 + d.length)) := by
  unfold Segment.readAt at h
  unfold Segment.readAtSequential
  by_cases hrange : pos < segmentHeaderLen ∨ pos ≥ s.size
  · rw [if_pos hrange] at h
    cases h
  rw [if_neg hrange] at h ⊢
  cases hlen : Foundation.readAt f pos 4 with
  | none =>
    rw [hlen] at h
    cases h
  | some lenBuf =>
  simp only [hlen] at h ⊢
  by_cases hlong : pos + 4 + ofBe lenBuf > s.size
  · rw [if_pos hlong] at h
    cases h
  rw [if_neg hlong] at h ⊢
  cases hdata : Foundation.readAt f (pos + 4) (ofBe lenBuf) with
  | none =>
    rw [hdata] at h
    cases h
  | some d' =>
  rw [hdata] at h
  cases h
  simp only [readAt_length hdata, Nat.add_assoc]

/-!
## Appending
-/

theorem Stands.append (hopen : s.frozen = false)
    (hfits : s.size + (4 + d.length) ≤ s.maxSize)
    (hsmall : s.size + (4 + d.length) < 2 ^ 32)
    (hbase : base + recs.length + 1 < 2 ^ 64) :
    exists s' f', s.append f d =
        .ok (s', f', base + recs.length, endOfRecords recs) ∧
      Stands s' f' base (recs ++ [d]) ∧ FileHolds f' base (recs ++ [d]) ∧
      s'.maxSize = s.maxSize ∧ s'.path = s.path ∧ s'.file = s.file ∧
      s'.frozen = false := by
  have hend : endOfRecords (recs ++ [d]) < 2 ^ 32 := by
    rw [endOfRecords_concat, ← hs.size]
    omega
  have hholds := hs.holds
  have hunfrozen : { s with frozen := false } = s := by
    rw [← hopen]
  rw [hunfrozen] at hholds
  rcases hholds.append hfits hbase hend with
    ⟨s', f', happend, hholds', hsize, hpath, hfile⟩
  have hsame : s.append (padTo f (endOfRecords recs)) d = s.append f d := by
    have hrecord : Segment.record d ≠ [] := by
      intro hnil
      have hlength := length_record d
      rw [hnil, List.length_nil] at hlength
      omega
    have hwrite := writeAt_padTo f (endOfRecords recs) hrecord
    unfold Segment.append
    simp only [hs.size, hwrite]
  rw [hsame] at happend
  refine ⟨s', f', happend, ?_, hholds'.file, hsize, hpath, hfile,
    hholds'.frozen⟩
  exact
    { written := hholds'.file.written
      baseOff := hholds'.baseOff
      size := hholds'.size
      nextOff := hholds'.nextOff
      index := hholds'.index }

omit hs

theorem Stands.append_full (f : Bytes) (hopen : s.frozen = false)
    (hfull : ¬ s.size + (4 + d.length) ≤ s.maxSize) :
    s.append f d = .error .segmentFull := by
  unfold Segment.append
  rw [hopen, if_neg Bool.false_ne_true]
  simp only [Nat.lt_of_not_le hfull, if_true]

/-!
## Opening
-/

theorem readHeader_congr (s : Segment) {g : Bytes}
    (hsame : readAt g 0 segmentHeaderLen = readAt f 0 segmentHeaderLen) :
    s.readHeader f =
      (s.readHeader g).map (fun s => { s with size := f.length }) := by
  unfold Segment.readHeader
  rw [hsame]
  cases readAt f 0 segmentHeaderLen with
  | none => rfl
  | some header =>
  simp only
  split
  · rfl
  · rfl

theorem Written.readHeader (hf : Written f base recs) (s : Segment) :
    s.readHeader f =
      .ok { s with baseOff := base, nextOff := base, size := f.length } := by
  have hbase := hf.padded.base_lt
  have hheader := hf.header_le
  rcases hf.padded.bytes with ⟨created, tail, hbytes, _⟩
  rw [readHeader_congr s (readAt_padTo (endOfRecords recs) (by omega)), hbytes,
    readHeader_segmentFile (by omega)]
  rfl

theorem Written.scanRecords (hf : Written f base recs) :
    Segment.scanRecords f base f.length segmentHeaderLen 0 [] =
      (endOfRecords recs, recs.length, sparseIndex base recs) := by
  apply hf.prefixed.scanRecords_stop
    (fun _ hd => length_lt_of_end_lt hf.padded.end_lt hd) base _
    hf.readPrefix_end
  -- the length prefixes alone are more bytes than there are records
  rcases Nat.eq_zero_or_pos recs.length with hzero | hpos
  · omega
  have hlast := hf.prefix_le (recs.length - 1) (by omega)
  have hmany := length_le_endOfRecords (recs.take (recs.length - 1))
  rw [List.length_take] at hmany
  rw [endOfRecords] at hlast
  omega

theorem Written.openSegment (hf : Written f base recs) (path : List Char)
    (file : Nat) (baseOffset maxSize now : Nat) :
    exists s, Segment.openSegment path file f baseOffset maxSize now =
        .ok (s, f) ∧ Stands s f base recs ∧ s.maxSize = maxSize ∧
      s.path = path ∧ s.file = file ∧ s.frozen = false := by
  have hlength : f.length ≠ 0 := by
    have hheader := hf.header_le
    rw [segmentHeaderLen] at hheader
    omega
  have hscan := hf.scanRecords
  unfold Segment.openSegment
  simp only [hlength, if_false, hf.readHeader]
  refine ⟨_, rfl, ?_, rfl, rfl, rfl, rfl⟩
  exact
    { written := hf
      baseOff := rfl
      size := by
        unfold Segment.rebuildIndex
        simp only [hscan]
      nextOff := by
        unfold Segment.rebuildIndex
        simp only [hscan]
        exact Nat.mod_eq_of_lt hf.padded.base_lt
      index := by
        unfold Segment.rebuildIndex
        simp only [hscan] }

theorem openSegment_empty (path : List Char) (file maxSize now : Nat)
    (hbase : base < 2 ^ 64) :
    exists s f, Segment.openSegment path file [] base maxSize now =
        .ok (s, f) ∧ Stands s f base [] ∧ s.maxSize = maxSize ∧
      s.path = path ∧ s.file = file ∧ s.frozen = false := by
  have hholds : FileHolds (segmentFile base now [] []) base [] :=
    { bytes := ⟨now, [], rfl, by decide⟩
      base_lt := hbase
      end_lt := by decide }
  refine ⟨_, _, rfl, ?_, rfl, rfl, rfl, rfl⟩
  exact
    { written := hholds.written
      baseOff := rfl
      size := rfl
      nextOff := rfl
      index := rfl }

/-!
## Cutting
-/

structure CutTo (g : Bytes) (base : Nat) (recs recs' : List Bytes) :
    Prop where
  written : Written g base recs'
  length_le : recs'.length ≤ recs.length
  keeps : forall i d, recs[i]? = some d ->
    endOfRecords (recs.take (i + 1)) ≤ g.length ->
      recs'[i]? = some d ∧ recs'.take (i + 1) = recs.take (i + 1)

theorem lt_of_endOfRecords_le {before after : List Bytes} {i : Nat}
    (hend : endOfRecords ((before ++ d :: after).take (i + 1)) ≤ n)
    (hcut : n < endOfRecords before + 4 + d.length) : i < before.length := by
  by_contra hge
  rw [List.append_cons, List.take_append,
    List.take_of_length_le (by simp; omega)] at hend
  have hle := endOfRecords_append_le (before ++ [d])
    (after.take (i + 1 - (before ++ [d]).length))
  rw [endOfRecords_concat] at hle
  omega

theorem keeps_before {before after last : List Bytes} {i : Nat}
    (hi : i < before.length) (hd : (before ++ after)[i]? = some d) :
    (before ++ last)[i]? = some d ∧
      (before ++ last).take (i + 1) = (before ++ after).take (i + 1) := by
  rw [List.getElem?_append_left hi] at hd ⊢
  rw [List.take_append_of_le_length (by omega),
    List.take_append_of_le_length (by omega)]
  exact ⟨hd, rfl⟩

theorem written_torn {created : Nat} {before : List Bytes} {part : Bytes}
    (hpart : part.length < d.length) (hbase : base + before.length + 1 < 2 ^ 64)
    (hend : endOfRecords (before ++ [d]) < 2 ^ 32) :
    Written (segmentFile base created before (be 4 d.length ++ part)) base
      (before ++ [padTo part d.length]) := by
  have hlength : (segmentFile base created before
      (be 4 d.length ++ part)).length =
        endOfRecords before + 4 + part.length := by
    rw [length_segmentFile, List.length_append, length_be, Nat.add_assoc]
  have hdata : (padTo part d.length).length = d.length := by
    rw [length_padTo]
    omega
  have hsame : endOfRecords (before ++ [padTo part d.length]) =
      endOfRecords (before ++ [d]) := by
    rw [endOfRecords_concat, endOfRecords_concat, hdata]
  have hbytes : padTo (segmentFile base created before
      (be 4 d.length ++ part)) (endOfRecords (before ++ [d])) =
        segmentFile base created (before ++ [padTo part d.length]) [] := by
    have hgap : endOfRecords (before ++ [d]) - (segmentFile base created before
        (be 4 d.length ++ part)).length = d.length - part.length := by
      rw [hlength, endOfRecords_concat]
      omega
    have hrecord : frames [padTo part d.length] = be 4 d.length ++
        (part ++ List.replicate (d.length - part.length) 0) := by
      rw [frames, List.flatMap_singleton, Segment.record, hdata, padTo]
    rw [padTo, hgap, segmentFile, segmentFile, frames_append, hrecord]
    simp only [List.append_assoc, List.append_nil]
  exact
    { padded :=
        { bytes := ⟨created, [], by rw [hsame, hbytes], by decide⟩
          base_lt := by
            rw [List.length_append, List.length_singleton]
            omega
          end_lt := by
            rw [hsame]
            exact hend }
      header_le := by
        rw [hlength, endOfRecords]
        omega
      prefix_le := by
        intro i hi
        rw [List.length_append, List.length_singleton] at hi
        have hle := endOfRecords_take_le before i
        rw [List.take_append_of_le_length (by omega), hlength]
        omega }

theorem FileHolds.cutTo (hf : FileHolds f base recs)
    (hheader : segmentHeaderLen ≤ n) (hn : n ≤ f.length) :
    exists recs', CutTo (f.take n) base recs recs' := by
  have hlength : (f.take n).length = n := by
    rw [List.length_take]
    omega
  have hbase := hf.base_lt
  by_cases hinside : InsidePayload recs n
  · rcases hinside with ⟨before, d, after, hsplit, hle, hlt⟩
    subst hsplit
    rcases hf.bytes with ⟨created, tail, hbytes, _⟩
    have htorn : exists part, part.length < d.length ∧
        (segmentFile base created (before ++ d :: after) tail).take n =
          segmentFile base created before (be 4 d.length ++ part) :=
      take_segmentFile_inside hle hlt
    rcases htorn with ⟨part, hpart, htake⟩
    have hend := hf.end_lt
    have hshort := endOfRecords_append_le (before ++ [d]) after
    rw [← List.append_cons] at hshort
    rw [List.length_append, List.length_cons] at hbase
    refine ⟨before ++ [padTo part d.length], ?_⟩
    exact
      { written := by
          rw [hbytes, htake]
          exact written_torn hpart (by omega) (by omega)
        length_le := by
          simp
        keeps := by
          intro i x hx hinside
          rw [hlength] at hinside
          exact keeps_before (lt_of_endOfRecords_le hinside hlt) hx }
  rcases exists_before_cut recs (n - segmentHeaderLen) with
    ⟨before, after, hsplit, hroom, hnext⟩
  have hcut := hf.cut hheader hinside
  subst hsplit
  rw [wholeRecords_append hroom hnext] at hcut
  refine ⟨before, hcut.written, by simp, ?_⟩
  intro i x hx hinside
  rw [hlength] at hinside
  have hi : i < before.length := by
    cases after with
    | nil =>
      have hlt := (List.getElem?_eq_some_iff.mp hx).1
      rwa [List.append_nil] at hlt
    | cons d rest =>
    apply lt_of_endOfRecords_le hinside
    have hlt := hnext d rest rfl
    rw [endOfRecords]
    omega
  have hkept : (before ++ [])[i]? = some x ∧
      (before ++ []).take (i + 1) = (before ++ after).take (i + 1) :=
    keeps_before hi hx
  rw [List.append_nil] at hkept
  exact hkept

theorem Written.cutTo (hf : Written f base recs)
    (hheader : segmentHeaderLen ≤ n) :
    exists recs', CutTo (f.take n) base recs recs' := by
  have hle := hf.header_le
  have htake : (padTo f (endOfRecords recs)).take (min n f.length) =
      f.take n := by
    rw [take_padTo (Nat.min_le_right ..), ← List.take_eq_take_min]
  rcases hf.padded.cutTo (n := min n f.length) (by omega) (by
    rw [length_padTo]
    omega) with ⟨recs', hcut⟩
  rw [htake] at hcut
  exact ⟨recs', hcut⟩

end Storage
end ChimeraMQ
