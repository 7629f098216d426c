import ChimeraMQ.Foundation.Consecutive
import ChimeraMQ.Storage.PartitionCrash

/-!
# Reading a range of offsets

A range is read segment by segment, without looking up every offset.  If the
segments stand on their files and follow one another it gives what reading one
offset after the other gives, up to the first one that cannot be read.
-/

namespace ChimeraMQ
namespace Storage

open Foundation

namespace Segment

theorem readAtSequential_eq (s : Segment) (f : Bytes) (pos : Nat) :
    s.readAtSequential f pos =
      (s.readAt f pos).map (fun d => (d, pos + (4 + d.length))) := by
  cases h : s.readAt f pos with
  | ok d => exact readAtSequential_of_readAt h
  | error e =>
  unfold readAt at h
  unfold readAtSequential
  by_cases hrange : pos < segmentHeaderLen ∨ pos ≥ s.size
  · rw [if_pos hrange] at h ⊢
    cases h
    rfl
  rw [if_neg hrange] at h ⊢
  cases hlen : Foundation.readAt f pos 4 with
  | none =>
    rw [hlen] at h
    cases h
    rfl
  | some lenBuf =>
  rw [hlen] at h
  simp only at h ⊢
  by_cases hend : pos + 4 + ofBe lenBuf > s.size
  · rw [if_pos hend] at h ⊢
    cases h
    rfl
  rw [if_neg hend] at h ⊢
  cases hdata : Foundation.readAt f (pos + 4) (ofBe lenBuf) with
  | none =>
    rw [hdata] at h
    cases h
    rfl
  | some data =>
  rw [hdata] at h
  cases h

end Segment

theorem Stands.readAt_torn {s : Segment} {f : Bytes} {base : Nat}
    {recs : List Bytes} (hs : Stands s f base recs) {k : Nat} {d : Bytes}
    (hd : recs[k]? = some d)
    (htorn : f.length < endOfRecords (recs.take (k + 1))) :
    exists e, s.readAt f (endOfRecords (recs.take k)) = .error e := by
  have hk := (List.getElem?_eq_some_iff.mp hd).1
  have hprefix := hs.written.prefix_le k hk
  rw [endOfRecords_take_succ hd] at htorn
  unfold Segment.readAt
  rw [hs.written.prefixed k d hd]
  simp only [ofBe_length_of_end_lt hs.written.padded.end_lt hd]
  rw [readAt_of_lt (by omega) (by omega)]
  by_cases hrange : endOfRecords (recs.take k) < segmentHeaderLen ∨
      endOfRecords (recs.take k) ≥ s.size
  · rw [if_pos hrange]
    exact ⟨_, rfl⟩
  rw [if_neg hrange]
  split
  · exact ⟨_, rfl⟩
  · exact ⟨_, rfl⟩

theorem Stands.eq_of_readAt {s : Segment} {f : Bytes} {base : Nat}
    {recs : List Bytes} (hs : Stands s f base recs) {k : Nat} {d data : Bytes}
    (hd : recs[k]? = some d)
    (hread : s.readAt f (endOfRecords (recs.take k)) = .ok data) :
    data = d := by
  rcases Nat.lt_or_ge f.length (endOfRecords (recs.take (k + 1)))
    with htorn | hinside
  · rcases hs.readAt_torn hd htorn with ⟨e, he⟩
    rw [hread] at he
    cases he
  · rw [hs.readAt hd hinside] at hread
    exact (Except.ok.inj hread).symm

namespace Partition

/-- The segments follow one another, and each stands on a file of records. -/
structure InPlace (p : Partition) : Prop where
  ordered : p.segments.Pairwise (fun s t => s.nextOff ≤ t.baseOff)
  stands : forall s, s ∈ p.segments -> s.baseOff = s.nextOff ∨
    exists recs, Stands s (p.content s) s.baseOff recs

def record (p : Partition) (offset : Nat) : Option Bytes :=
  (p.read offset).toOption

variable {p : Partition}

theorem OpenLog.inPlace {front : List Chunk} {last : Chunk}
    (h : OpenLog p front last) : InPlace p where
  ordered := h.ordered
  stands := by
    intro s hs
    rcases h.mem_segment hs with hstale | ⟨c, _, hserves⟩
    · exact Or.inl hstale
    · refine Or.inr ⟨c.recs, ?_⟩
      rw [content, hserves.file, hserves.stands.baseOff]
      exact hserves.stands

variable {s : Segment}

theorem InPlace.base_le (h : p.InPlace) (hs : s ∈ p.segments) :
    s.baseOff ≤ s.nextOff := by
  rcases h.stands s hs with hstale | ⟨recs, hstands⟩
  · exact Nat.le_of_eq hstale
  · rw [hstands.nextOff]
    exact Nat.le_add_right _ _

/-!
## Scanning a segment
-/

def recordOf (s : Segment) (f : Bytes) (offset : Nat) : Option Bytes :=
  (s.read f offset).toOption

theorem scanSegment_eq {f : Bytes} {recs : List Bytes}
    (hs : Stands s f s.baseOff recs) (endOffset room : Nat) {k : Nat}
    (hk : k ≤ recs.length) :
    scanSegment s f endOffset room (s.baseOff + k)
        (endOfRecords (recs.take k)) =
      (takeRun (recordOf s f) (s.baseOff + k)
          (min (min room (endOffset + 1 - (s.baseOff + k))) (recs.length - k)),
        s.baseOff + k + (takeRun (recordOf s f) (s.baseOff + k)
          (min (min room (endOffset + 1 - (s.baseOff + k)))
            (recs.length - k))).length) := by
  induction room generalizing k with
  | zero =>
    simp only [Nat.zero_min]
    rfl
  | succ room ih =>
  have hnext := hs.nextOff
  unfold scanSegment
  by_cases hgo : s.baseOff + k ≤ endOffset ∧ s.baseOff + k < s.nextOff
  · have hlt : k < recs.length := by omega
    have hd := List.getElem?_eq_getElem hlt
    have hroom : min (min (room + 1) (endOffset + 1 - (s.baseOff + k)))
        (recs.length - k) =
        min (min room (endOffset + 1 - (s.baseOff + (k + 1))))
          (recs.length - (k + 1)) + 1 := by
      omega
    have hread : recordOf s f (s.baseOff + k) =
        (s.readAt f (endOfRecords (recs.take k))).toOption := by
      unfold recordOf Segment.read
      rw [hs.findPosition hk]
    rw [if_pos hgo, Segment.readAtSequential_eq, hroom]
    cases hat : s.readAt f (endOfRecords (recs.take k)) with
    | error e =>
      rw [hat] at hread
      simp only [Except.map]
      rw [takeRun_of_none hread]
      rfl
    | ok data =>
    have hsame := hs.eq_of_readAt hd hat
    have hbase := hs.written.padded.base_lt
    have hwrap : (s.baseOff + k + 1) % 2 ^ 64 =
        s.baseOff + (k + 1) :=
      Nat.mod_eq_of_lt (by omega)
    have hpos : endOfRecords (recs.take k) + (4 + data.length) =
        endOfRecords (recs.take (k + 1)) := by
      rw [endOfRecords_take_succ hd, hsame, Nat.add_assoc]
    rw [hat] at hread
    simp only [Except.map, hwrap, hpos, ih hlt]
    rw [takeRun_of_some hread, List.length_cons]
    exact Prod.ext rfl (Nat.succ_add_eq_add_succ _ _)
  · have hzero : min (min (room + 1) (endOffset + 1 - (s.baseOff + k)))
        (recs.length - k) = 0 := by
      omega
    rw [if_neg hgo, hzero]
    rfl

/-!
## Scanning the segments
-/

theorem findSegmentAt_fst (p : Partition) (offset : Nat) :
    (p.findSegmentAt offset).map Prod.fst = p.findSegment offset := by
  unfold findSegmentAt findSegment
  rw [binarySearch_map Prod.fst (fun s : Segment =>
    if offset ≥ s.baseOff ∧ offset < s.nextOff then .eq
    else if offset < s.baseOff then .lt
    else .gt), List.zipIdx_map_fst]

variable {offset : Nat}

theorem findSegment_of_at {place : Nat}
    (h : p.findSegmentAt offset = some (s, place)) :
    p.findSegment offset = some s := by
  rw [← findSegmentAt_fst, h]
  rfl

theorem findSegmentAt_spec (h : p.findSegment offset = some s) :
    exists place, p.findSegmentAt offset = some (s, place) ∧
      p.segments[place]? = some s := by
  rw [← findSegmentAt_fst] at h
  rcases Option.map_eq_some_iff.mp h with ⟨⟨t, place⟩, hfind, hsame⟩
  subst hsame
  exact ⟨place, hfind, List.mk_mem_zipIdx_iff_getElem?.mp
    (binarySearch_eq hfind).left⟩

theorem record_of_findSegment (h : p.findSegment offset = some s) :
    p.record offset = recordOf s (p.content s) offset := by
  unfold record recordOf Partition.read
  rw [h]
  simp only
  cases s.read (p.content s) offset with
  | error e => rfl
  | ok data => rfl

theorem mem_of_findSegment (h : p.findSegment offset = some s) :
    s ∈ p.segments ∧ s.baseOff ≤ offset ∧ offset < s.nextOff := by
  rcases binarySearch_eq h with ⟨hs, hcmp⟩
  have hrange : offset ≥ s.baseOff ∧ offset < s.nextOff := by
    by_contra hout
    rw [if_neg hout] at hcmp
    split at hcmp
    · cases hcmp
    · cases hcmp
  exact ⟨hs, hrange⟩

theorem scanSegment_of_error {f : Bytes} {pos : Nat}
    (hpos : s.findPosition f offset = .ok pos)
    (hnone : recordOf s f offset = none) (endOffset room : Nat) :
    scanSegment s f endOffset room offset pos = ([], offset) := by
  cases room with
  | zero => rfl
  | succ room =>
  unfold recordOf Segment.read at hnone
  rw [hpos] at hnone
  unfold scanSegment
  rw [Segment.readAtSequential_eq]
  cases hat : s.readAt f pos with
  | ok data =>
    simp only [hat] at hnone
    cases hnone
  | error e =>
  simp only [Except.map]
  split
  · rfl
  · rfl

theorem scanSegments_of_none (hnone : p.record offset = none)
    (endOffset k room : Nat) (lastSeg : Option Nat) :
    p.scanSegments endOffset k room offset lastSeg = [] := by
  induction k generalizing lastSeg with
  | zero => rfl
  | succ k ih =>
  unfold scanSegments
  by_cases hgo : offset ≤ endOffset ∧ 0 < room
  · rw [if_pos hgo]
    cases hat : p.findSegmentAt offset with
    | none => rfl
    | some found =>
    rcases found with ⟨s, place⟩
    have hrecord := record_of_findSegment (findSegment_of_at hat)
    rw [hnone] at hrecord
    simp only
    by_cases hsame : lastSeg = some place
    · rw [if_pos hsame]
    rw [if_neg hsame]
    cases hpos : s.findPosition (p.content s) offset with
    | error e => rfl
    | ok pos =>
    have hscan := scanSegment_of_error hpos hrecord.symm
      endOffset room
    simp only [hscan]
    exact ih (some place)
  · rw [if_neg hgo]

/--
The scan over the segments gives what can be read at consecutive offsets, if
the segment scanned last has nothing more to give.
-/
theorem InPlace.scanSegments (h : p.InPlace) (endOffset k room offset : Nat)
    (lastSeg : Option Nat) (hk : room < k)
    (hlast : forall place, lastSeg = some place -> offset ≤ endOffset ->
      0 < room -> exists s, p.segments[place]? = some s ∧ s.nextOff ≤ offset) :
    p.scanSegments endOffset k room offset lastSeg =
      takeRun p.record offset (min room (endOffset + 1 - offset)) := by
  induction k generalizing room offset lastSeg with
  | zero => omega
  | succ k ih =>
  cases hread : p.record offset with
  | none => rw [scanSegments_of_none hread, takeRun_of_none hread]
  | some data =>
  unfold Partition.scanSegments
  by_cases hgo : offset ≤ endOffset ∧ 0 < room
  · rw [if_pos hgo]
    cases hfind : p.findSegment offset with
    | none =>
      unfold record Partition.read at hread
      rw [hfind] at hread
      cases hread
    | some s =>
    rcases mem_of_findSegment hfind with ⟨hs, hle, hlt⟩
    rcases findSegmentAt_spec hfind with ⟨place, hat, hplace⟩
    have hne : lastSeg ≠ some place := by
      intro hsame
      rcases hlast place hsame hgo.left hgo.right
        with ⟨t, ht, hend⟩
      rw [hplace] at ht
      cases ht
      omega
    have hstands : exists recs,
        Stands s (p.content s) s.baseOff recs := by
      rcases h.stands s hs with hstale | hstands
      · omega
      · exact hstands
    rcases hstands with ⟨recs, hstands⟩
    have hnext := hstands.nextOff
    have hoff : offset = s.baseOff + (offset - s.baseOff) := by
      omega
    have hpos := hstands.findPosition (k := offset - s.baseOff)
      (by omega)
    have hscan := scanSegment_eq hstands endOffset room
      (k := offset - s.baseOff) (by omega)
    rw [← hoff] at hpos hscan
    simp only [hat, if_neg hne, hpos, hscan]
    have hsame : forall j, offset ≤ j -> j < s.nextOff ->
        recordOf s (p.content s) j = p.record j := by
      intro j hj hjlt
      exact (record_of_findSegment (findSegment_of_mem h.ordered
        (fun t ht => h.base_le ht) hs (by omega) hjlt)).symm
    have hrun := @takeRun_congr _ (recordOf s (p.content s))
      p.record offset
      (min (min room (endOffset + 1 - offset))
        (recs.length - (offset - s.baseOff)))
      (fun j hj hjlt => hsame j hj (by omega))
    rw [hrun]
    generalize hm : min (min room (endOffset + 1 - offset))
      (recs.length - (offset - s.baseOff)) = m
    have hsplit : min room (endOffset + 1 - offset) =
        m + min (room - m) (endOffset + 1 - (offset + m)) := by
      omega
    rcases Nat.lt_or_eq_of_le
        (length_takeRun_le p.record offset m) with hshort | hwhole
    · rw [scanSegments_of_none (none_of_length_lt hshort),
        List.append_nil, hsplit, takeRun_of_length_lt _ hshort]
    rw [hwhole, ih _ _ _ (by omega), hsplit,
      takeRun_add _ hwhole]
    intro place' hplace' hle' hroom'
    cases hplace'
    exact ⟨s, hplace, by omega⟩
  · rw [if_neg hgo]
    have hzero : min room (endOffset + 1 - offset) = 0 := by omega
    rw [hzero]
    rfl

theorem InPlace.readRange (h : p.InPlace) (startOffset endOffset : Nat)
    (maxMessages : Int) :
    p.readRange startOffset endOffset maxMessages =
      takeRun p.record startOffset
        (min maxMessages.toNat (endOffset + 1 - startOffset)) := by
  apply h.scanSegments
  · omega
  · intro place hnone
    cases hnone

theorem readRange_head {startOffset endOffset : Nat} {maxMessages : Int}
    (hle : startOffset ≤ endOffset) (hmax : 1 ≤ maxMessages) :
    (p.readRange startOffset endOffset maxMessages).head? =
      p.record startOffset := by
  cases hread : p.record startOffset with
  | none =>
    unfold readRange
    rw [scanSegments_of_none hread]
    rfl
  | some data =>
  cases hfind : p.findSegment startOffset with
  | none =>
    unfold record Partition.read at hread
    rw [hfind] at hread
    cases hread
  | some s =>
  rcases findSegmentAt_spec hfind with ⟨place, hat, _⟩
  have hrecord := record_of_findSegment hfind
  have hlt := (mem_of_findSegment hfind).right.right
  rw [hread] at hrecord
  unfold recordOf Segment.read at hrecord
  cases hpos : s.findPosition (p.content s) startOffset with
  | error e =>
    rw [hpos] at hrecord
    cases hrecord
  | ok pos =>
  rw [hpos] at hrecord
  have hroom : maxMessages.toNat = maxMessages.toNat - 1 + 1 := by
    omega
  unfold readRange Partition.scanSegments
  rw [if_pos ⟨hle, by omega⟩, hroom]
  simp only [hat, hpos, reduceCtorEq, if_false]
  unfold scanSegment
  rw [if_pos ⟨hle, hlt⟩, Segment.readAtSequential_eq]
  cases hread' : s.readAt (p.content s) pos with
  | error e =>
    simp only [hread'] at hrecord
    cases hrecord
  | ok data' =>
  simp only [hread'] at hrecord
  cases hrecord
  rfl

theorem length_scanSegment_le (s : Segment) (f : Bytes) (endOffset room : Nat)
    (offset pos : Nat) :
    (scanSegment s f endOffset room offset pos).1.length ≤ room := by
  induction room generalizing offset pos with
  | zero => exact Nat.le_refl 0
  | succ room ih =>
  unfold scanSegment
  split
  · split
    · exact Nat.zero_le _
    · exact Nat.succ_le_succ (ih _ _)
  · exact Nat.zero_le _

theorem length_scanSegments_le (p : Partition) (endOffset k room offset : Nat)
    (lastSeg : Option Nat) :
    (p.scanSegments endOffset k room offset lastSeg).length ≤ room := by
  induction k generalizing room offset lastSeg with
  | zero => exact Nat.zero_le _
  | succ k ih =>
  unfold scanSegments
  split
  · split
    · exact Nat.zero_le _
    rename_i s place _
    split
    · exact Nat.zero_le _
    split
    · exact Nat.zero_le _
    rename_i pos _
    have hscan := length_scanSegment_le s (p.content s) endOffset
      room offset pos
    have hrest := ih (room - (scanSegment s (p.content s) endOffset
      room offset pos).1.length)
      (scanSegment s (p.content s) endOffset room offset pos).2
      (some place)
    simp only [List.length_append]
    omega
  · exact Nat.zero_le _

theorem length_readRange_le (p : Partition) (startOffset endOffset : Nat)
    (maxMessages : Int) :
    (p.readRange startOffset endOffset maxMessages).length ≤
      maxMessages.toNat :=
  length_scanSegments_le p endOffset _ _ startOffset none

theorem readRange_of_lt (p : Partition) {startOffset endOffset : Nat}
    (hlt : endOffset < startOffset) (maxMessages : Int) :
    p.readRange startOffset endOffset maxMessages = [] := by
  unfold readRange scanSegments
  rw [if_neg (fun h => Nat.not_le.mpr hlt h.left)]

end Partition
end Storage
end ChimeraMQ
