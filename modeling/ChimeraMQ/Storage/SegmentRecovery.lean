import ChimeraMQ.Storage.SegmentRecords

/-!
# Recovery of a cut segment

A segment file that a crash has cut at some length is opened again.  The
segment recovers the records that lie wholly inside what is left, unless the
cut falls inside the data of a record: its length prefix is then complete and
the record is counted although it cannot be read.
-/

namespace ChimeraMQ
namespace Storage

open Foundation

def Segment.appendAll :
    Segment -> Bytes -> List Bytes ->
      Except SegmentError (Segment × Bytes × List Nat)
  | s, f, [] => .ok (s, f, [])
  | s, f, d :: rest =>
    match s.append f d with
    | .error e => .error e
    | .ok (s, f, offset, _) =>
      match Segment.appendAll s f rest with
      | .error e => .error e
      | .ok (s, f, offsets) => .ok (s, f, offset :: offsets)

def wholeRecords : Nat -> List Bytes -> List Bytes
  | _, [] => []
  | room, d :: rest =>
    if 4 + d.length ≤ room then
      d :: wholeRecords (room - (4 + d.length)) rest
    else []

/-- The cut falls inside the data of a record, behind its length prefix. -/
def InsidePayload (recs : List Bytes) (cut : Nat) : Prop :=
  exists before d after, recs = before ++ d :: after ∧
    endOfRecords before + 4 ≤ cut ∧ cut < endOfRecords before + 4 + d.length

structure Serves (s : Segment) (f : Bytes) (base : Nat) (recs : List Bytes) :
    Prop where
  nextOff : s.nextOff = base + recs.length
  reads : forall k d, recs[k]? = some d -> s.read f (base + k) = .ok d
  none_else : forall offset, offset < base ∨ base + recs.length ≤ offset ->
    exists e, s.read f offset = .error e

/--
Opening recovers exactly the records, and records appended afterwards get the
next offsets and read back.
-/
def Recovers (path : List Char) (file : Nat) (f : Bytes) (maxSize base : Nat)
    (recs : List Bytes) : Prop :=
  forall baseOffset now, exists s,
    Segment.openSegment path file f baseOffset maxSize now = .ok (s, f) ∧
    Serves s f base recs ∧
    forall more s' f' offsets, s.appendAll f more = .ok (s', f', offsets) ->
      offsets = List.range' (base + recs.length) more.length ∧
      Serves s' f' base (recs ++ more) ∧
      forall baseOffset' now', exists t,
        Segment.openSegment path file f' baseOffset' maxSize now' =
          .ok (t, f') ∧
        Serves t f' base (recs ++ more)

/-!
## Segments that hold their records
-/

theorem Holds.serves {s : Segment} {f : Bytes} {base : Nat}
    {recs : List Bytes} (hs : Holds s f base recs) : Serves s f base recs :=
  { nextOff := hs.nextOff
    reads := fun _ _ hd => hs.read hd
    none_else := fun _ hout => hs.read_none hout }

theorem Holds.append_ok {s s' : Segment} {f f' : Bytes} {base : Nat}
    {recs : List Bytes} {d : Bytes} {offset position : Nat}
    (hs : Holds s f base recs) (hmax : s.maxSize < 2 ^ 32)
    (hbase : base + s.maxSize ≤ 2 ^ 64)
    (happend : s.append f d = .ok (s', f', offset, position)) :
    offset = base + recs.length ∧ Holds s' f' base (recs ++ [d]) ∧
      s'.maxSize = s.maxSize := by
  have hfits : s.size + (4 + d.length) ≤ s.maxSize := by
    by_contra hfull
    unfold Segment.append at happend
    rw [if_neg (by simp [hs.frozen])] at happend
    simp only [Nat.lt_of_not_le hfull, if_true] at happend
    cases happend
  have hend : endOfRecords (recs ++ [d]) ≤ s.maxSize := by
    rw [endOfRecords_concat, ← hs.size]
    omega
  have hmany := length_le_endOfRecords (recs ++ [d])
  rw [endOfRecords, segmentHeaderLen] at hend
  rw [List.length_append, List.length_singleton] at hmany
  rcases hs.append hfits (by omega) (by
    rw [endOfRecords, segmentHeaderLen]
    omega) with ⟨s1, f1, hone, hholds, hsame, _⟩
  rw [hone] at happend
  cases happend
  exact ⟨rfl, hholds, hsame⟩

theorem Holds.appendAll {s s' : Segment} {f f' : Bytes} {base : Nat}
    {recs more : List Bytes} {offsets : List Nat} (hs : Holds s f base recs)
    (hmax : s.maxSize < 2 ^ 32) (hbase : base + s.maxSize ≤ 2 ^ 64)
    (happend : s.appendAll f more = .ok (s', f', offsets)) :
    offsets = List.range' (base + recs.length) more.length ∧
      Holds s' f' base (recs ++ more) := by
  induction more generalizing s f recs offsets with
  | nil =>
    cases happend
    rw [List.append_nil]
    exact ⟨rfl, hs⟩
  | cons d more ih =>
  unfold Segment.appendAll at happend
  cases hone : s.append f d with
  | error e =>
    rw [hone] at happend
    cases happend
  | ok r =>
  rcases r with ⟨s1, f1, offset, position⟩
  rw [hone] at happend
  rcases hs.append_ok hmax hbase hone with ⟨hoffset, hs1, hsame⟩
  cases hrest : s1.appendAll f1 more with
  | error e =>
    simp only [hrest] at happend
    cases happend
  | ok r =>
  rcases r with ⟨s2, f2, rest⟩
  simp only [hrest] at happend
  cases happend
  rw [← hsame] at hmax hbase
  rcases ih hs1 hmax hbase hrest with ⟨hoffsets, hs2⟩
  rw [List.append_assoc] at hs2
  refine ⟨?_, hs2⟩
  rw [hoffset, hoffsets, List.length_append, List.length_singleton,
    List.length_cons, List.range'_succ, Nat.add_assoc]

theorem Recovers.nextOff {path : List Char} {file : Nat} {f : Bytes}
    {maxSize base : Nat} {recs : List Bytes}
    (hrecovers : Recovers path file f maxSize base recs) :
    (Segment.openSegment path file f 0 maxSize 0).toOption.map
      (fun r => r.1.nextOff) = some (base + recs.length) := by
  rcases hrecovers 0 0 with ⟨s, hopen, hserves, _⟩
  rw [hopen]
  exact congrArg some hserves.nextOff

theorem FileHolds.recovers {f : Bytes} {base maxSize : Nat}
    {recs : List Bytes} (hf : FileHolds f base recs)
    (hmax : maxSize < 2 ^ 32) (hbase : base + maxSize ≤ 2 ^ 64)
    (path : List Char) (file : Nat) :
    Recovers path file f maxSize base recs := by
  intro baseOffset now
  rcases hf.openSegment path file baseOffset maxSize now with
    ⟨s, hopen, hs, hsize, _⟩
  refine ⟨s, hopen, hs.serves, ?_⟩
  intro more s' f' offsets happend
  rw [← hsize] at hmax hbase
  rcases hs.appendAll hmax hbase happend with ⟨hoffsets, hs'⟩
  refine ⟨hoffsets, hs'.serves, ?_⟩
  intro baseOffset' now'
  rcases hs'.file.openSegment path file baseOffset' maxSize now' with
    ⟨t, hopen', ht, _⟩
  exact ⟨t, hopen', ht.serves⟩

theorem holds_created (path : List Char) (file maxSize created : Nat)
    {base : Nat} (hbase : base < 2 ^ 64) :
    exists s, Segment.openSegment path file [] base maxSize created =
        .ok (s, segmentFile base created [] []) ∧
      Holds s (segmentFile base created [] []) base [] ∧
      s.maxSize = maxSize := by
  refine ⟨_, rfl, ?_, rfl⟩
  exact
    { file :=
        { bytes := ⟨created, [], rfl, by decide⟩
          base_lt := hbase
          end_lt := by decide }
      baseOff := rfl
      size := rfl
      nextOff := rfl
      index := rfl
      frozen := rfl }

/-!
## Cutting a file
-/

theorem wholeRecords_append {before after : List Bytes} {room : Nat}
    (hroom : (frames before).length ≤ room)
    (hnext : forall d rest, after = d :: rest ->
      room < (frames before).length + (4 + d.length)) :
    wholeRecords room (before ++ after) = before := by
  induction before generalizing room with
  | nil =>
    cases after with
    | nil => rfl
    | cons d rest =>
    have hlt := hnext d rest rfl
    simp only [frames, List.flatMap_nil, List.length_nil,
      Nat.zero_add] at hlt
    rw [List.nil_append, wholeRecords, if_neg (Nat.not_le.mpr hlt)]
  | cons x before ih =>
  have hcons : (frames (x :: before)).length =
      (4 + x.length) + (frames before).length := by
    have hsplit : frames (x :: before) =
        Segment.record x ++ frames before := rfl
    rw [hsplit, List.length_append, length_record]
  rw [hcons] at hroom
  rw [List.cons_append, wholeRecords, if_pos (by omega), ih (by omega)]
  intro d rest hafter
  have hlt := hnext d rest hafter
  rw [hcons] at hlt
  omega

theorem exists_before_cut (recs : List Bytes) (room : Nat) :
    exists before after, recs = before ++ after ∧
      (frames before).length ≤ room ∧
      forall d rest, after = d :: rest ->
        room < (frames before).length + (4 + d.length) := by
  induction recs generalizing room with
  | nil =>
    refine ⟨[], [], rfl, Nat.zero_le _, ?_⟩
    intro d rest h
    cases h
  | cons x recs ih =>
  by_cases hfits : 4 + x.length ≤ room
  · rcases ih (room - (4 + x.length)) with
      ⟨before, after, hsplit, hroom, hnext⟩
    have hcons : (frames (x :: before)).length =
        (4 + x.length) + (frames before).length := by
      have hframes : frames (x :: before) =
          Segment.record x ++ frames before := rfl
      rw [hframes, List.length_append, length_record]
    refine ⟨x :: before, after, by rw [hsplit]; rfl, by omega, ?_⟩
    intro d rest hafter
    have hlt := hnext d rest hafter
    omega
  · refine ⟨[], x :: recs, rfl, Nat.zero_le _, ?_⟩
    intro d rest hafter
    cases hafter
    simp only [frames, List.flatMap_nil, List.length_nil]
    omega

theorem take_segmentFile {base created cut : Nat} {before after : List Bytes}
    {tail : Bytes} (hle : endOfRecords before ≤ cut) :
    (segmentFile base created (before ++ after) tail).take cut =
      segmentFile base created before
        ((frames after ++ tail).take (cut - endOfRecords before)) := by
  have hfront : (Segment.header base created ++ frames before).length =
      endOfRecords before := by
    rw [List.length_append, length_segment_header, endOfRecords]
  have hbytes : segmentFile base created (before ++ after) tail =
      (Segment.header base created ++ frames before) ++
        (frames after ++ tail) := by
    simp only [segmentFile, frames_append, List.append_assoc]
  rw [hbytes, List.take_append, hfront, List.take_of_length_le (by omega),
    segmentFile, List.append_assoc]

theorem FileHolds.cut {f : Bytes} {base cut : Nat} {recs : List Bytes}
    (hf : FileHolds f base recs) (hcut : segmentHeaderLen ≤ cut)
    (houtside : ¬ InsidePayload recs cut) :
    FileHolds (f.take cut) base
      (wholeRecords (cut - segmentHeaderLen) recs) := by
  rcases exists_before_cut recs (cut - segmentHeaderLen) with
    ⟨before, after, hsplit, hroom, hnext⟩
  subst hsplit
  rcases hf.bytes with ⟨created, tail, hbytes, htail⟩
  have hbase := hf.base_lt
  have hend := hf.end_lt
  have hle := endOfRecords_append_le before after
  rw [List.length_append] at hbase
  have hstart : endOfRecords before ≤ cut := by
    rw [endOfRecords]
    omega
  rw [wholeRecords_append hroom hnext, hbytes, take_segmentFile hstart]
  refine
    { bytes := ⟨created, _, rfl, ?_⟩
      base_lt := by omega
      end_lt := by omega }
  rw [List.length_take]
  cases after with
  | nil =>
    simp only [frames, List.flatMap_nil, List.nil_append]
    omega
  | cons d rest =>
  have hlt := hnext d rest rfl
  by_contra hlong
  apply houtside
  refine ⟨before, d, rest, rfl, by omega, ?_⟩
  rw [endOfRecords]
  omega

theorem take_segmentFile_inside {base created cut : Nat}
    {before after : List Bytes} {d tail : Bytes}
    (hcut : endOfRecords before + 4 ≤ cut)
    (hlt : cut < endOfRecords before + 4 + d.length) :
    exists part, part.length < d.length ∧
      (segmentFile base created (before ++ d :: after) tail).take cut =
        segmentFile base created before (be 4 d.length ++ part) := by
  refine ⟨d.take (cut - endOfRecords before - 4), ?_, ?_⟩
  · rw [List.length_take]
    omega
  have hstart : (frames (d :: after) ++ tail).take
      (cut - endOfRecords before) =
        be 4 d.length ++ d.take (cut - endOfRecords before - 4) := by
    have hcons : frames (d :: after) ++ tail =
        be 4 d.length ++ (d ++ (frames after ++ tail)) := by
      simp [frames, Segment.record]
    rw [hcons, List.take_append, length_be,
      List.take_of_length_le (by rw [length_be]; omega),
      List.take_append_of_le_length (by omega)]
  rw [take_segmentFile (by omega), hstart]

theorem FileHolds.not_recovers_cut {f : Bytes} {base cut maxSize : Nat}
    {recs : List Bytes} (hf : FileHolds f base recs)
    (hinside : InsidePayload recs cut) (path : List Char) (file : Nat) :
    ¬ Recovers path file (f.take cut) maxSize base
        (wholeRecords (cut - segmentHeaderLen) recs) := by
  intro hrecovers
  rcases hinside with ⟨before, d, after, hsplit, hcut, hlt⟩
  subst hsplit
  rcases hf.bytes with ⟨created, tail, hbytes, htail⟩
  have hwhole : wholeRecords (cut - segmentHeaderLen) (before ++ d :: after) =
      before := by
    rw [endOfRecords] at hcut hlt
    apply wholeRecords_append (by omega)
    intro x rest hafter
    cases hafter
    omega
  have hshort : forall x, x ∈ before ++ [d] -> x.length < 2 ^ 32 := by
    intro x hx
    apply length_lt_of_end_lt hf.end_lt
    rw [List.append_cons]
    exact List.mem_append_left _ hx
  rcases take_segmentFile_inside hcut hlt with ⟨part, hpart, htake⟩
  have hbase := hf.base_lt
  rcases openSegment_torn path file 0 maxSize 0
    (Nat.lt_of_le_of_lt (Nat.le_add_right ..) hbase) hshort hpart with
    ⟨s, hopen, hnext⟩
  have hoff := hrecovers.nextOff
  rw [hbytes, htake, hopen, hwhole] at hoff
  have hskip : s.nextOff = base + before.length := Option.some.inj hoff
  omega

/-!
## Recovery
-/

/--
A segment filled from nothing and cut at some length recovers the records that
lie wholly inside the cut exactly if the cut is not inside the data of a
record.
-/
theorem recovers_cut_iff {path : List Char} {file base maxSize created : Nat}
    (recs : List Bytes) {s0 s1 : Segment} {f0 f1 : Bytes}
    {offsets : List Nat} {cut : Nat} (hmax : maxSize < 2 ^ 32)
    (hbase : base + maxSize < 2 ^ 64)
    (hcreate : Segment.openSegment path file [] base maxSize created =
      .ok (s0, f0))
    (happend : s0.appendAll f0 recs = .ok (s1, f1, offsets))
    (hcut : segmentHeaderLen ≤ cut) :
    Recovers path file (f1.take cut) maxSize base
        (wholeRecords (cut - segmentHeaderLen) recs) <->
      ¬ InsidePayload recs cut := by
  rcases holds_created path file maxSize created (by omega : base < 2 ^ 64)
    with ⟨s, hopen, hs, hsize⟩
  rw [hopen] at hcreate
  cases hcreate
  have hall := hs.appendAll (by omega) (by omega) happend
  have hf := hall.right.file
  rw [List.nil_append] at hf
  constructor
  · intro hrecovers hinside
    exact hf.not_recovers_cut hinside path file hrecovers
  · intro houtside
    exact (hf.cut hcut houtside).recovers hmax (Nat.le_of_lt hbase) path file

/-- Two records, cut inside the length prefix of the second one. -/
theorem recovers_cut_insideLength :
    exists s f offsets,
      ((Segment.openSegment [] 0 [] 5 4096 0).bind
        (fun r => r.1.appendAll r.2 [[1, 2, 3], [4]])) = .ok (s, f, offsets) ∧
      Recovers [] 0 (f.take 41) 4096 5 [[1, 2, 3]] := by
  refine ⟨_, _, _, rfl, ?_⟩
  refine (recovers_cut_iff [[1, 2, 3], [4]] (by decide) (by decide) rfl rfl
    (by decide)).mpr ?_
  rintro ⟨before, d, after, hsplit, hcut, hlt⟩
  cases before with
  | nil =>
    rw [List.nil_append] at hsplit
    injection hsplit with hd _
    subst hd
    exact absurd hlt (by decide)
  | cons x before =>
  rw [List.cons_append] at hsplit
  injection hsplit with hx _
  subst hx
  have hle := endOfRecords_append_le [[1, 2, 3]] before
  have hfirst : endOfRecords [[1, 2, 3]] = 39 := rfl
  rw [List.singleton_append] at hle
  omega

/--
One record, cut inside its data: the next offset skips the offset of the
record.
-/
theorem recovers_cut_insidePayload :
    exists s f offsets,
      ((Segment.openSegment [] 0 [] 0 4096 0).bind
        (fun r => r.1.appendAll r.2 [[1, 2, 3]])) = .ok (s, f, offsets) ∧
      ¬ Recovers [] 0 (f.take 38) 4096 0 (wholeRecords 6 [[1, 2, 3]]) := by
  refine ⟨_, _, _, rfl, ?_⟩
  intro hrecovers
  exact absurd hrecovers.nextOff (by decide +kernel)

end Storage
end ChimeraMQ
