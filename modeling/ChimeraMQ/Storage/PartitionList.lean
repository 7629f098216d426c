import ChimeraMQ.Storage.RangeRead

/-!
# A partition is an append-only list

As long as the segment files stay below 4 GiB, a partition that is appended to
acts as a list of records: a record is read at its place in the list, and a
range of records is a part of the list.
-/

namespace ChimeraMQ
namespace Storage

open Foundation

namespace Partition

structure ActsAs (p : Partition) (log : List Bytes) : Prop where
  read : forall offset, p.read offset =
    match log[offset]? with
    | some data => .ok data
    | none => .error (.offsetNotFound offset)
  readRange : forall startOffset endOffset maxMessages,
    p.readRange startOffset endOffset maxMessages =
      ((List.range' startOffset (endOffset + 1 - startOffset)).filterMap
        (fun offset => (p.read offset).toOption)).take maxMessages.toNat

/--
Append records one after the other.  Returns those that were appended with
their offsets.
-/
def appendAll (p : Partition) :
    List (Bytes × Nat) -> Partition × List (Nat × Bytes)
  | [] => (p, [])
  | (data, now) :: rest =>
    let r := p.append data now
    let s := appendAll r.1 rest
    match r.2 with
    | .ok offset => (s.1, (offset, data) :: s.2)
    | .error _ => s

structure ListLog (p : Partition) (front : List Chunk) (last : Chunk)
    (log : List Bytes) : Prop where
  opened : OpenLog p front last
  length : last.next = log.length
  stored : forall offset data, log[offset]? = some data ->
    At p.dir (front ++ [last]) offset data

variable {p : Partition} {front : List Chunk} {last : Chunk}

theorem OpenLog.nextOff_le (h : OpenLog p front last) {s : Segment}
    (hs : s ∈ p.segments) :
    s.nextOff ≤ last.next := by
  have hactive : p.active.nextOff = last.next := h.active.stands.nextOff
  rw [← hactive]
  rcases List.mem_append.mp hs with hold | hlast
  · have hrel := (List.pairwise_append.mp h.ordered).right.right s hold
      p.active (List.mem_singleton_self _)
    exact hrel.trans (h.base_le_next
      (List.mem_append_right _ (List.mem_singleton_self _)))
  · rw [List.mem_singleton.mp hlast]

/-!
## Reading
-/

variable {log : List Bytes}

variable (h : ListLog p front last log)

include h

theorem ListLog.read (offset : Nat) :
    p.read offset =
      match log[offset]? with
      | some data => .ok data
      | none => .error (.offsetNotFound offset) := by
  cases hget : log[offset]? with
  | some data => exact h.opened.read (h.stored offset data hget)
  | none =>
  have hge := List.getElem?_eq_none_iff.mp hget
  have hnone : p.findSegment offset = none := by
    apply binarySearch_none
    intro s hs hcmp
    have hle := h.opened.nextOff_le hs
    rw [h.length] at hle
    rw [if_neg (by omega)] at hcmp
    split at hcmp
    · cases hcmp
    · cases hcmp
  unfold Partition.read
  rw [hnone]

theorem ListLog.record : p.record = fun offset => log[offset]? := by
  funext offset
  unfold Partition.record
  rw [h.read]
  cases log[offset]? with
  | none => rfl
  | some data => rfl

theorem ListLog.readRange (startOffset endOffset : Nat) (maxMessages : Int) :
    p.readRange startOffset endOffset maxMessages =
      (log.drop startOffset).take
        (min maxMessages.toNat (endOffset + 1 - startOffset)) := by
  rw [h.opened.inPlace.readRange, h.record, takeRun_getElem?]

theorem ListLog.actsAs : ActsAs p log where
  read := h.read
  readRange := by
    intro startOffset endOffset maxMessages
    have hall := valuesFrom_getElem? log startOffset
      (endOffset + 1 - startOffset)
    rw [← h.record] at hall
    change (List.range' _ _).filterMap (fun offset => (p.read offset).toOption)
      = _ at hall
    rw [h.readRange, hall, List.take_take]

/-!
## Appending
-/

theorem ListLog.grown {front' : List Chunk} {last' : Chunk} {data : Bytes}
    {r : Partition × Except SegmentError Nat}
    (hgrown : Grown p front last data r front' last') :
    match r.2 with
    | .ok offset => offset = log.length ∧
        ListLog r.1 front' last' (log ++ [data])
    | .error _ => ListLog r.1 front' last' log := by
  have houtcome := hgrown.outcome
  cases hr : r.2 with
  | error e =>
    rw [hr] at houtcome
    exact
      { opened := hgrown.log
        length := houtcome.trans h.length
        stored := fun offset d hd =>
          hgrown.keeps offset d (h.stored offset d hd) }
  | ok offset =>
  rw [hr] at houtcome
  rcases houtcome with ⟨hoff, hnext, hat⟩
  refine ⟨hoff.trans h.length, ?_⟩
  exact
    { opened := hgrown.log
      length := by
        rw [hnext, h.length, List.length_append, List.length_singleton]
      stored := by
        intro o d hd
        by_cases hlt : o < log.length
        · rw [List.getElem?_append_left hlt] at hd
          exact hgrown.keeps o d (h.stored o d hd)
        have hlast : o = log.length := by
          have hle := (List.getElem?_eq_some_iff.mp hd).1
          rw [List.length_append, List.length_singleton] at hle
          omega
        rw [hlast, List.getElem?_concat_length] at hd
        cases hd
        rw [hlast, ← h.length, ← hoff]
        exact hat }

theorem ListLog.append (data : Bytes) (now : Nat)
    (hsmall : SmallFiles (p.append data now).1.dir)
    (hroom : log.length + 1 < 2 ^ 64) :
    exists front' last', match p.append data now with
    | (q, .ok offset) => offset = log.length ∧
        ListLog q front' last' (log ++ [data])
    | (q, .error _) => ListLog q front' last' log := by
  rcases h.opened.append data now (Or.inr hsmall) (by rw [h.length]; exact hroom)
    with ⟨front', last', hgrown⟩
  have hlist := h.grown hgrown
  refine ⟨front', last', ?_⟩
  rcases hr : p.append data now with ⟨q, e | offset⟩
  · rw [hr] at hlist
    exact hlist
  · rw [hr] at hlist
    exact hlist

omit h

/-!
## Files only grow
-/

def Longer (dir dir' : Disk) : Prop :=
  forall i, (dir.content i).length ≤ (dir'.content i).length

theorem Longer.refl (dir : Disk) : Longer dir dir :=
  fun _ => Nat.le_refl _

variable {dir : Disk}

theorem Longer.trans {dir' dir'' : Disk} (h : Longer dir dir')
    (h' : Longer dir' dir'') : Longer dir dir'' :=
  fun i => (h i).trans (h' i)

theorem longer_setContent {i : Nat} {f : Bytes}
    (hle : (dir.content i).length ≤ f.length) :
    Longer dir (dir.setContent i f) := by
  intro j
  by_cases hsame : i = j
  · subst hsame
    by_cases hlt : i < dir.files.length
    · rw [Disk.content_setContent hlt]
      exact hle
    · rw [Disk.setContent, List.set_eq_of_length_le (Nat.le_of_not_lt hlt)]
  · rw [Disk.content_setContent_ne _ hsame]

theorem longer_openCreate (dir : Disk) (name : List Char) :
    Longer dir (dir.openCreate name).1 := by
  cases hlook : dir.lookup name with
  | some i =>
    rw [Disk.openCreate_of_lookup_some hlook]
    exact Longer.refl dir
  | none =>
  rw [Disk.openCreate_of_lookup_none hlook]
  intro i
  by_cases hlt : i < dir.files.length
  · exact Nat.le_of_eq (congrArg List.length
      (Disk.content_addFile_of_lt hlt name []).symm)
  have hnil : dir.content i = [] := by
    simp [Disk.content, Nat.le_of_not_lt hlt]
  rw [hnil]
  exact Nat.zero_le _

theorem length_le_openSegment {path : List Char} {file : Nat} {f f' : Bytes}
    {baseOffset maxSize now : Nat} {s : Segment}
    (h : Segment.openSegment path file f baseOffset maxSize now =
      .ok (s, f')) : f.length ≤ f'.length := by
  unfold Segment.openSegment at h
  by_cases hempty : f.length = 0
  · rw [hempty]
    exact Nat.zero_le _
  simp only [hempty, if_false] at h
  split at h
  · cases h
  · cases h
    exact Nat.le_refl _

theorem longer_openFile {dir' : Disk} {name : List Char}
    {baseOffset maxSize now : Nat} {s : Segment}
    (h : openFile dir name baseOffset maxSize now = .ok (dir', s)) :
    Longer dir dir' := by
  unfold openFile at h
  simp only at h
  split at h
  · cases h
  rename_i hopen
  cases h
  exact (longer_openCreate dir name).trans
    (longer_setContent (length_le_openSegment hopen))

theorem longer_appendActive {q : Partition} {data : Bytes} {offset : Nat}
    (h : p.appendActive data = .ok (q, offset)) : Longer p.dir q.dir := by
  unfold Partition.appendActive Segment.append at h
  by_cases hfrozen : p.active.frozen = true
  · rw [if_pos hfrozen] at h
    cases h
  rw [if_neg hfrozen] at h
  by_cases hfull : p.active.size + (4 + data.length) > p.active.maxSize
  · rw [if_pos hfull] at h
    cases h
  rw [if_neg hfull] at h
  cases h
  apply longer_setContent
  have hrecord : Segment.record data ≠ [] :=
    List.ne_nil_of_length_pos (by rw [length_record]; omega)
  change (p.content p.active).length ≤ _
  rw [length_writeAt _ _ hrecord]
  exact Nat.le_max_left _ _

theorem longer_append (p : Partition) (data : Bytes) (now : Nat) :
    Longer p.dir (p.append data now).1.dir := by
  unfold Partition.append createNewSegment
  cases hone : p.appendActive data with
  | ok r => exact longer_appendActive hone
  | error e =>
  cases e with
  | segmentFull =>
    simp only
    cases hopen : openFile p.dir (segmentName p.active.freeze.nextOff)
        p.active.freeze.nextOff p.maxSegSize now with
    | error e => exact Longer.refl _
    | ok r =>
    have hnew := longer_openFile hopen
    simp only
    split
    · exact hnew
    · rename_i htwo
      exact hnew.trans (longer_appendActive htwo)
  | _ => exact Longer.refl _

theorem longer_appendAll (p : Partition) (appends : List (Bytes × Nat)) :
    Longer p.dir (p.appendAll appends).1.dir := by
  induction appends generalizing p with
  | nil => exact Longer.refl _
  | cons a rest ih =>
  have hlonger := (longer_append p a.1 a.2).trans (ih (p.append a.1 a.2).1)
  unfold Partition.appendAll
  simp only
  split
  · exact hlonger
  · exact hlonger

theorem smallFiles_iff :
    SmallFiles dir <-> forall f, f ∈ dir.files -> f.length < 2 ^ 32 := by
  constructor
  · intro h f hf
    rcases List.mem_iff_getElem?.mp hf with ⟨i, hi⟩
    have hlt := h i
    rw [Disk.content, hi] at hlt
    exact hlt
  intro h i
  unfold Disk.content
  cases hi : dir.files[i]? with
  | none =>
    change 0 < 2 ^ 32
    decide
  | some f => exact h f (List.mem_of_getElem? hi)

instance (dir : Disk) : Decidable (SmallFiles dir) :=
  decidable_of_iff _ smallFiles_iff.symm

theorem SmallFiles.of_longer {dir' : Disk} (h : SmallFiles dir')
    (hlonger : Longer dir dir') : SmallFiles dir :=
  fun i => (hlonger i).trans_lt (h i)

/-!
## Runs
-/

theorem ListLog.appendAll (h : ListLog p front last log)
    (appends : List (Bytes × Nat))
    (hsmall : SmallFiles (p.appendAll appends).1.dir)
    (hroom : log.length + appends.length < 2 ^ 64) :
    exists front' last',
      ListLog (p.appendAll appends).1 front' last'
          (log ++ (p.appendAll appends).2.map Prod.snd) ∧
        (p.appendAll appends).2.map Prod.fst =
          List.range' log.length (p.appendAll appends).2.length := by
  induction appends generalizing p front last log with
  | nil =>
    refine ⟨front, last, ?_, rfl⟩
    rw [Partition.appendAll, List.map_nil, List.append_nil]
    exact h
  | cons a rest ih =>
  rcases a with ⟨data, now⟩
  rw [List.length_cons] at hroom
  unfold Partition.appendAll at hsmall ⊢
  rcases hr : p.append data now with ⟨q, e | offset⟩
  · simp only [hr] at hsmall ⊢
    have hone : SmallFiles (p.append data now).1.dir := by
      rw [hr]
      exact hsmall.of_longer (longer_appendAll q rest)
    rcases h.append data now hone (by omega) with ⟨front', last', hlist⟩
    rw [hr] at hlist
    exact ih hlist hsmall (by omega)
  simp only [hr] at hsmall ⊢
  have hone : SmallFiles (p.append data now).1.dir := by
    rw [hr]
    exact hsmall.of_longer (longer_appendAll q rest)
  rcases h.append data now hone (by omega) with ⟨front', last', hlist⟩
  rw [hr] at hlist
  rcases hlist with ⟨hoff, hlist⟩
  rcases ih hlist hsmall (by
    rw [List.length_append, List.length_singleton]
    omega) with ⟨front'', last'', hlist', hrange⟩
  refine ⟨front'', last'', ?_, ?_⟩
  · rw [List.map_cons, List.append_cons]
    exact hlist'
  · rw [List.map_cons, List.length_cons, List.range'_succ, hoff, hrange,
      List.length_append, List.length_singleton]

theorem length_appendAll_le (p : Partition) (appends : List (Bytes × Nat)) :
    (p.appendAll appends).2.length ≤ appends.length := by
  induction appends generalizing p with
  | nil => exact Nat.le_refl _
  | cons a rest ih =>
  have hle := ih (p.append a.1 a.2).1
  unfold Partition.appendAll
  simp only
  split
  · exact Nat.succ_le_succ hle
  · exact Nat.le_succ_of_le hle

theorem listLog_openPartition {topic : Bytes} {id maxSegSize opened : Nat}
    (hopen : openPartition Disk.empty topic id maxSegSize opened = .ok p) :
    exists front last, ListLog p front last [] := by
  rcases LogDir.nil.openPartition topic id maxSegSize opened with
    ⟨q, front, last, hq, hreloaded⟩
  rw [hopen] at hq
  cases hq
  refine ⟨front, last, ?_⟩
  exact
    { opened := hreloaded.log
      length := hreloaded.next
      stored := by
        intro offset d hd
        cases hd }

/--
A partition that has been appended to acts as the list of the records whose
append succeeded, which got consecutive offsets.
-/
theorem appendAll_actsAs {topic : Bytes} {id maxSegSize opened : Nat}
    {p : Partition} {appends : List (Bytes × Nat)}
    (hopen : openPartition Disk.empty topic id maxSegSize opened = .ok p)
    (hsmall : SmallFiles (p.appendAll appends).1.dir)
    (hfew : appends.length + 1 < 2 ^ 64) :
    let q := (p.appendAll appends).1
    let log := (p.appendAll appends).2.map Prod.snd
    (p.appendAll appends).2.map Prod.fst = List.range log.length ∧
      ActsAs q log ∧
      forall data now, SmallFiles (q.append data now).1.dir ->
        match q.append data now with
        | (q', .ok offset) => offset = log.length ∧ ActsAs q' (log ++ [data])
        | (q', .error _) =>
        (forall offset, q'.read offset = q.read offset) ∧
        forall startOffset endOffset maxMessages,
          q'.readRange startOffset endOffset maxMessages =
            q.readRange startOffset endOffset maxMessages := by
  intro q log
  rcases listLog_openPartition hopen with ⟨front, last, hnil⟩
  have hlength := length_appendAll_le p appends
  rcases hnil.appendAll appends hsmall (by rw [List.length_nil]; omega) with
    ⟨front', last', hlist, hrange⟩
  rw [List.nil_append] at hlist
  refine ⟨?_, hlist.actsAs, ?_⟩
  · rw [hrange, List.length_map, List.range_eq_range']
    rfl
  intro data now hone
  have hroom : log.length + 1 < 2 ^ 64 := by
    rw [List.length_map]
    omega
  rcases hlist.append data now hone hroom with ⟨front'', last'', hstep⟩
  rcases hr : q.append data now with ⟨q', e | offset⟩
  · rw [hr] at hstep
    have hsame := hstep.actsAs
    refine ⟨?_, ?_⟩
    · intro offset
      rw [hsame.read, hlist.actsAs.read]
    · intro startOffset endOffset maxMessages
      rw [hstep.readRange, hlist.readRange]
  · rw [hr] at hstep
    exact ⟨hstep.left, hstep.right.actsAs⟩

/-- The second record is too long for any segment. -/
theorem appendAll_actsAs_rolled :
    exists p, openPartition Disk.empty [] 0 40 0 = .ok p ∧
      ActsAs (p.appendAll [([1], 0), (List.replicate 9 2, 0), ([3], 0)]).1
        [[1], [3]] := by
  have hcheck : (openPartition Disk.empty [] 0 40 0).toOption.map (fun p =>
      decide (SmallFiles (p.appendAll
          [([1], 0), (List.replicate 9 2, 0), ([3], 0)]).1.dir ∧
        (p.appendAll [([1], 0), (List.replicate 9 2, 0), ([3], 0)]).2.map
          Prod.snd = [[1], [3]])) = some true := by
    decide +kernel
  rcases hp : openPartition Disk.empty [] 0 40 0 with e | p
  · rw [hp] at hcheck
    cases hcheck
  rw [hp] at hcheck
  rcases of_decide_eq_true (Option.some.inj hcheck) with ⟨hsmall, hlog⟩
  have hacts := (appendAll_actsAs hp hsmall (by decide)).right.left
  rw [hlog] at hacts
  exact ⟨p, rfl, hacts⟩

end Partition

end Storage
end ChimeraMQ
