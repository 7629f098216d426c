import ChimeraMQ.Storage.Wal

/-!
# Recovery of the write-ahead log

What a log hands to its callback on recovery is what was appended to it, as
long as every append lands at the end of a segment.  The first append after a
reopen does not when the last segment already has entries: the file is opened
at its start and the append writes over them.
-/

namespace ChimeraMQ
namespace Storage

open Foundation

structure WalEntry where
  entryType : UInt8
  data : Bytes
  now : Nat

namespace WalEntry

def key (e : WalEntry) : UInt8 × Bytes :=
  (e.entryType, e.data)

def frame (e : WalEntry) : Bytes :=
  WAL.header e.entryType e.data e.now ++ e.data

/-- The entry is one that a log of the given segment size takes whole. -/
structure Fits (maxSize : Nat) (e : WalEntry) : Prop where
  size : e.data.length ≤ maxEntrySize
  segment : walHeaderSize + e.data.length ≤ maxSize

end WalEntry

structure Recoverable (maxSize : Nat) (data : Bytes) : Prop where
  size : data.length ≤ maxEntrySize
  small : ¬ (0 < maxSize ∧ maxSize < reasonableMinSize ∧
    data.length > maxSize)

variable {maxSize : Nat}

theorem WalEntry.Fits.recoverable {e : WalEntry} (h : e.Fits maxSize) :
    Recoverable maxSize e.data where
  size := h.size
  small := by
    have hsegment := h.segment
    omega

def encode (seg : List WalEntry) : Bytes :=
  seg.flatMap WalEntry.frame

/-!
## Framing
-/

theorem length_header (entryType : UInt8) (data : Bytes) (now : Nat) :
    (WAL.header entryType data now).length = walHeaderSize := by
  simp [WAL.header, WAL.headerFields, walHeaderSize]

theorem length_frame (e : WalEntry) :
    e.frame.length = walHeaderSize + e.data.length := by
  rw [WalEntry.frame, List.length_append, length_header]

theorem header_append (entryType : UInt8) (data : Bytes) (now : Nat)
    (rest : Bytes) :
    WAL.header entryType data now ++ rest =
      entryType :: (be 4 data.length ++ (be 8 now ++
        (be 4 (crc32c (WAL.headerFields entryType data.length now ++
          data)).toNat ++ rest))) := by
  simp [WAL.header, WAL.headerFields]

theorem readEntry_frame {Err : Type} {segment : List Char} {e : WalEntry}
    (hentry : Recoverable maxSize e.data) (rest : Bytes) :
    WAL.readEntry maxSize segment (e.frame ++ rest) =
      (.ok (some (e.entryType, e.data, rest)) :
        Except (RecoverError Err) (Option (UInt8 × Bytes × Bytes))) := by
  have hsize := hentry.size
  have hbytes : e.frame ++ rest =
      WAL.header e.entryType e.data e.now ++ (e.data ++ rest) := by
    rw [WalEntry.frame, List.append_assoc]
  have hlong : ¬ (e.frame ++ rest).length < walHeaderSize := by
    rw [List.length_append, length_frame]
    omega
  have hfields : (e.frame ++ rest).take 13 =
      WAL.headerFields e.entryType e.data.length e.now := by
    rw [hbytes, WAL.header, List.append_assoc]
    exact List.take_left' (by simp [WAL.headerFields])
  have hdata : ofBe (((e.frame ++ rest).drop 1).take 4) = e.data.length := by
    rw [hbytes, header_append, List.drop_one, List.tail_cons,
      List.take_left' (length_be _ _)]
    exact ofBe_be_of_lt (Nat.lt_of_le_of_lt hsize (by decide))
  have hcrc : ofBe (((e.frame ++ rest).drop 13).take 4) =
      (crc32c (WAL.headerFields e.entryType e.data.length e.now ++
        e.data)).toNat := by
    rw [hbytes, WAL.header, List.append_assoc,
      List.drop_left' (by simp [WAL.headerFields]),
      List.take_left' (length_be _ _)]
    exact ofBe_be_of_lt (UInt32.toNat_lt _)
  have hbody : (e.frame ++ rest).drop walHeaderSize = e.data ++ rest := by
    rw [hbytes]
    exact List.drop_left' (length_header _ _ _)
  have hrest : (e.frame ++ rest).drop (walHeaderSize + e.data.length) =
      rest :=
    List.drop_left' (length_frame e)
  have hshape : exists tail, e.frame ++ rest = e.entryType :: tail :=
    ⟨_, by rw [hbytes, header_append]⟩
  rcases hshape with ⟨tail, htail⟩
  unfold WAL.readEntry
  rw [htail] at hlong hfields hdata hcrc hbody hrest ⊢
  simp only [hlong, if_false, hdata, hbody, hcrc, hfields, hrest,
    List.take_left]
  have hmax : ¬ e.data.length > maxEntrySize := Nat.not_lt.mpr hsize
  have hwhole : ¬ (e.data ++ rest).length < e.data.length := by
    simp
  rw [if_neg hmax, if_neg hentry.small, if_neg hwhole]
  simp

/-!
## Segments
-/

variable {State Err : Type}

def deliver (fn : UInt8 -> Bytes -> State -> Except Err State) :
    List (UInt8 × Bytes) -> State -> Except (RecoverError Err) State
  | [], s => .ok s
  | (entryType, data) :: rest, s =>
    match fn entryType data s with
    | .error e => .error (.callback e)
    | .ok s' => deliver fn rest s'

theorem deliver_append (fn : UInt8 -> Bytes -> State -> Except Err State)
    (front back : List (UInt8 × Bytes)) (s : State) :
    deliver fn (front ++ back) s =
      match deliver fn front s with
      | .error e => .error e
      | .ok s' => deliver fn back s' := by
  induction front generalizing s with
  | nil => rfl
  | cons entry front ih =>
  rcases entry with ⟨entryType, data⟩
  simp only [List.cons_append, deliver]
  cases fn entryType data s with
  | error e => rfl
  | ok s' => exact ih s'

theorem length_le_encode (seg : List WalEntry) :
    seg.length ≤ (encode seg).length := by
  induction seg with
  | nil => exact Nat.zero_le _
  | cons e seg ih =>
  rw [encode, List.flatMap_cons, List.length_append, length_frame,
    List.length_cons]
  change seg.length + 1 ≤ _ + (encode seg).length
  have hpos : 1 ≤ walHeaderSize := by decide
  omega

theorem recoverSegment_encode {segment : List Char}
    (fn : UInt8 -> Bytes -> State -> Except Err State) {seg : List WalEntry}
    (hall : forall e, e ∈ seg -> Recoverable maxSize e.data) {k : Nat}
    (hk : seg.length ≤ k) (s : State) :
    WAL.recoverSegment maxSize segment fn k (encode seg) s =
      deliver fn (seg.map WalEntry.key) s := by
  induction seg generalizing k s with
  | nil => cases k <;> rfl
  | cons e seg ih =>
  cases k with
  | zero => cases hk
  | succ k =>
  have hread : WAL.readEntry maxSize segment (e.frame ++ encode seg) =
      (.ok (some (e.entryType, e.data, encode seg)) :
        Except (RecoverError Err) _) :=
    readEntry_frame (hall e (List.mem_cons_self ..)) (encode seg)
  have hcons : encode (e :: seg) = e.frame ++ encode seg := rfl
  rw [WAL.recoverSegment, hcons, hread]
  simp only [List.map_cons, WalEntry.key, deliver]
  cases fn e.entryType e.data s with
  | error err => rfl
  | ok s' =>
  exact ih (fun x hx => hall x (List.mem_cons_of_mem e hx))
    (Nat.le_of_succ_le_succ hk) s'

/-!
## The directory
-/

def segmentDisk (contents : List Bytes) : Disk where
  names := (List.range contents.length).map
    (fun i => (segmentPath (i + 1), i))
  files := contents

/-- The numbers that fit the width of a segment's name. -/
def segmentLimit : Nat := 10 ^ 12

theorem segmentPath_lt {n m : Nat} (hm : m < segmentLimit) (hlt : n < m) :
    segmentPath n < segmentPath m := by
  have hn : n < segmentLimit := Nat.lt_trans hlt hm
  apply append_lt_append (zeroPadded_lt (by decide) hm hlt)
  rw [length_zeroPadded hn (by decide), length_zeroPadded hm (by decide)]

theorem segmentPath_inj {n m : Nat} (h : segmentPath n = segmentPath m) :
    n = m :=
  zeroPadded_inj (List.append_cancel_right h)

theorem listSegments_of_names {d : Disk} {numbers : List Nat}
    (hnames : d.names = numbers.map (fun i => (segmentPath (i + 1), i)))
    (hsorted : numbers.Pairwise (fun i j => i < j))
    (hfew : forall i, i ∈ numbers -> i + 1 < segmentLimit) :
    listSegments d = d.names := by
  have hordered : d.names.Pairwise (fun a b => a.1 < b.1) := by
    rw [hnames, List.pairwise_map]
    apply hsorted.imp_of_mem
    intro i j _ hj hij
    exact segmentPath_lt (hfew j hj) (by omega)
  rw [listSegments, Disk.readDir_of_sorted hordered]
  apply List.filter_eq_self.mpr
  intro e he
  rw [hnames] at he
  rcases List.mem_map.mp he with ⟨i, _, hi⟩
  rw [← hi]
  simp [segmentPath]

theorem listSegments_segmentDisk (contents : List Bytes)
    (hfew : contents.length < segmentLimit) :
    listSegments (segmentDisk contents) =
      (List.range contents.length).map (fun i => (segmentPath (i + 1), i)) := by
  apply listSegments_of_names rfl List.pairwise_lt_range
  intro i hi
  have hlt := List.mem_range.mp hi
  omega

theorem parseSegmentName_segmentPath {seq : Nat} (hseq : seq < 2 ^ 64) :
    WAL.parseSegmentName (segmentPath seq) = some seq := by
  have hname : (segmentPath seq).take
      ((segmentPath seq).length - ".wal".length) = zeroPadded 12 seq := by
    rw [segmentPath, List.length_append]
    exact List.take_left' (Nat.add_sub_cancel ..).symm
  unfold WAL.parseSegmentName
  rw [hname, parseDecimal_zeroPadded hseq]

theorem setContent_segmentDisk (contents : List Bytes) (i : Nat) (b : Bytes) :
    (segmentDisk contents).setContent i b = segmentDisk (contents.set i b) := by
  simp [Disk.setContent, segmentDisk]

theorem openCreate_segmentDisk (contents : List Bytes) :
    (segmentDisk contents).openCreate (segmentPath (contents.length + 1)) =
      (segmentDisk (contents ++ [[]]), contents.length) := by
  rw [Disk.openCreate_of_lookup_none]
  · simp [segmentDisk, List.range_succ]
  apply Disk.lookup_eq_none
  intro e he
  rcases List.mem_map.mp he with ⟨i, hi, hie⟩
  have hlt := List.mem_range.mp hi
  rw [← hie]
  intro heq
  have hnumber := segmentPath_inj heq
  omega

theorem recoverSegments_encode {maxSize : Nat}
    (fn : UInt8 -> Bytes -> State -> Except Err State) {d : Disk}
    {segOf : Nat -> List WalEntry} {numbers : List Nat}
    (hall : forall i, i ∈ numbers ->
      forall e, e ∈ segOf i -> Recoverable maxSize e.data)
    (hcontent : forall i, i ∈ numbers -> d.content i = encode (segOf i))
    (s : State) :
    WAL.recoverSegments d maxSize fn
        (numbers.map (fun i => (segmentPath (i + 1), i))) s =
      deliver fn ((numbers.flatMap segOf).map WalEntry.key) s := by
  induction numbers generalizing s with
  | nil => rfl
  | cons i numbers ih =>
  rw [List.map_cons, List.flatMap_cons, List.map_append, deliver_append,
    WAL.recoverSegments, hcontent i (List.mem_cons_self ..),
    recoverSegment_encode fn (hall i (List.mem_cons_self ..))
      (length_le_encode (segOf i))]
  cases deliver fn ((segOf i).map WalEntry.key) s with
  | error e => rfl
  | ok s' =>
  exact ih (fun j hj => hall j (List.mem_cons_of_mem i hj))
    (fun j hj => hcontent j (List.mem_cons_of_mem i hj)) s'

theorem flatMap_range_getD {α : Type} (segs : List (List α)) :
    (List.range segs.length).flatMap (fun i => (segs[i]?).getD []) =
      segs.flatten := by
  rw [List.flatMap_def]
  congr 1
  apply List.ext_getElem
  · simp
  · intro i hi hj
    simp [hj]

/-!
## Writing
-/

/--
An open log that has lost nothing: the earlier segments are complete, and the
active file and the buffer hold the entries of the last one.
-/
structure Lined (maxSize : Nat) (w : WAL) (old : List (List WalEntry))
    (cur : List WalEntry) (f : Bytes) : Prop where
  disk : w.disk = segmentDisk (old.map encode ++ [f])
  active : w.activeFile = old.length
  seq : w.segmentSeq = old.length + 1
  written : f ++ w.writeBuf = encode cur
  size : w.activeSize = (encode cur).length
  position : w.pos = f.length ∨ w.pos = 0 ∧ w.writeBuf = []
  limit : w.maxSize = maxSize
  few : old.length + 1 < segmentLimit

section Writing

variable {maxSize : Nat} {w : WAL} {old : List (List WalEntry)}
variable {cur : List WalEntry} {f : Bytes}

variable (hw : Lined maxSize w old cur f)

include hw

theorem Lined.content : w.disk.content w.activeFile = f := by
  rw [hw.disk, hw.active]
  simp [Disk.content, segmentDisk]

theorem Lined.writer_eq :
    w.writer = { file := f, pos := w.pos, buf := w.writeBuf } := by
  rw [WAL.writer, hw.content]

theorem Lined.withWriter (b : BufferedWriter) (next : List WalEntry)
    (offset size : Nat) (hwritten : b.written = encode next)
    (hsize : size = (encode next).length)
    (hposition : b.Appends ∨ b.pos = 0 ∧ b.buf = []) :
    Lined maxSize
      { w.withWriter b with offset := offset, activeSize := size }
      old next b.file where
  disk := by
    change w.disk.setContent w.activeFile b.file = _
    have hlen : old.length = (old.map encode).length := by
      simp
    rw [hw.disk, hw.active, setContent_segmentDisk, hlen,
      List.set_append_right _ _ (Nat.le_refl _), Nat.sub_self]
    rfl
  active := hw.active
  seq := hw.seq
  written := hwritten
  size := hsize
  position := hposition
  limit := hw.limit
  few := hw.few

theorem Lined.flush :
    Lined maxSize (w.withWriter w.writer.flush) old cur (encode cur) := by
  have hwritten := hw.written
  rcases hw.position with hend | ⟨hstart, hempty⟩
  · have happends : w.writer.Appends := by
      rw [hw.writer_eq]
      exact hend
    rcases happends.flush with ⟨hflush, hfile, hbuf⟩
    have hall : w.writer.flush.file = encode cur := by
      rw [hfile, hw.writer_eq]
      exact hwritten
    have hnext := hw.withWriter w.writer.flush cur w.offset w.activeSize
      (by rw [BufferedWriter.written, hbuf, List.append_nil, hall])
      hw.size (Or.inl hflush)
    rwa [hall] at hnext
  · rw [hempty, List.append_nil] at hwritten
    have hnothing : w.writer.flush = { file := f, pos := 0, buf := [] } := by
      rw [hw.writer_eq, hstart, hempty]
      rfl
    rw [hnothing, ← hwritten]
    exact hw.withWriter { file := f, pos := 0, buf := [] } cur w.offset
      w.activeSize (by rw [BufferedWriter.written, List.append_nil, hwritten])
      hw.size (Or.inr ⟨rfl, rfl⟩)

theorem Lined.pos_flush (hend : w.pos = f.length) :
    (w.withWriter w.writer.flush).pos = (encode cur).length := by
  have happends : w.writer.Appends := by
    rw [hw.writer_eq]
    exact hend
  rcases happends.flush with ⟨hflush, hfile, _⟩
  have hwritten := hw.written
  have hall : w.writer.flush.file = encode cur := by
    rw [hfile, hw.writer_eq]
    exact hwritten
  rw [← hall]
  exact hflush

theorem Lined.rotate (hnext : w.segmentSeq + 1 < segmentLimit) :
    Lined maxSize w.rotate (old ++ [cur]) [] [] := by
  have hflush := hw.flush
  have hseq : (w.segmentSeq + 1) % 2 ^ 64 = (old ++ [cur]).length + 1 := by
    have hsmall : segmentLimit < 2 ^ 64 := by decide
    rw [Nat.mod_eq_of_lt (Nat.lt_trans hnext hsmall), hw.seq,
      List.length_append]
    rfl
  have hdisk : (w.withWriter w.writer.flush).disk =
      segmentDisk ((old ++ [cur]).map encode) := by
    rw [hflush.disk, List.map_append]
    rfl
  have hopen : (w.withWriter w.writer.flush).disk.openCreate
      (segmentPath ((old ++ [cur]).length + 1)) =
      (segmentDisk ((old ++ [cur]).map encode ++ [[]]),
        (old ++ [cur]).length) := by
    have hcreate := openCreate_segmentDisk ((old ++ [cur]).map encode)
    rw [List.length_map] at hcreate
    rw [hdisk, hcreate]
  have hrotate : w.rotate =
      { w.withWriter w.writer.flush with
        disk := segmentDisk ((old ++ [cur]).map encode ++ [[]])
        activeFile := (old ++ [cur]).length
        pos := 0
        writeBuf := []
        activeSize := 0
        segmentSeq := (old ++ [cur]).length + 1 } := by
    have hseq' : ((w.withWriter w.writer.flush).segmentSeq + 1) % 2 ^ 64 =
        (old ++ [cur]).length + 1 := hseq
    unfold WAL.rotate
    simp only [hseq', hopen]
  rw [hrotate]
  exact
    { disk := rfl
      active := rfl
      seq := rfl
      written := rfl
      size := rfl
      position := Or.inl rfl
      limit := hw.limit
      few := by
        rw [hw.seq] at hnext
        rw [List.length_append]
        exact hnext }

omit hw in
theorem encode_concat (cur : List WalEntry) (e : WalEntry) :
    encode (cur ++ [e]) = encode cur ++ e.frame := by
  simp [encode]

theorem Lined.write (hend : w.pos = f.length) (e : WalEntry) (offset : Nat) :
    exists f', Lined maxSize
      { w.withWriter ((w.writer.write writeBufSize
          (WAL.header e.entryType e.data e.now)).write writeBufSize e.data) with
        offset := offset
        activeSize := w.activeSize + (walHeaderSize + e.data.length) }
      old (cur ++ [e]) f' ∧
        (w.withWriter ((w.writer.write writeBufSize
          (WAL.header e.entryType e.data e.now)).write writeBufSize
            e.data)).pos = f'.length := by
  have happends : w.writer.Appends := by
    rw [hw.writer_eq]
    exact hend
  rcases happends.write writeBufSize
    (WAL.header e.entryType e.data e.now) with ⟨hheader, hheaderWritten⟩
  rcases hheader.write writeBufSize e.data with ⟨hdata, hdataWritten⟩
  have hwritten : w.writer.written = encode cur := by
    rw [hw.writer_eq]
    exact hw.written
  refine ⟨_, hw.withWriter _ (cur ++ [e]) offset _ ?_ ?_ (Or.inl hdata),
    hdata⟩
  · rw [hdataWritten, hheaderWritten, hwritten, encode_concat,
      List.append_assoc]
    rfl
  · rw [encode_concat, List.length_append, length_frame, hw.size]

theorem Lined.writeEntry (hend : w.pos = f.length) (e : WalEntry) :
    exists f', Lined maxSize (w.writeEntry e.entryType e.data e.now).1 old
      (cur ++ [e]) f' ∧
        (w.writeEntry e.entryType e.data e.now).1.pos = f'.length := by
  rcases hw.write hend e
    ((w.offset + (walHeaderSize + e.data.length)) % 2 ^ 64) with
    ⟨f', hw', hpos⟩
  have hflush := hw'.flush
  have hposFlush := hw'.pos_flush hpos
  cases hmode : w.syncMode with
  | immediate =>
    refine ⟨encode (cur ++ [e]), ?_, ?_⟩
    · simpa [WAL.writeEntry, WAL.withWriter, hmode] using hflush
    · simpa [WAL.writeEntry, WAL.withWriter, hmode] using hposFlush
  | interval =>
    refine ⟨f', ?_, ?_⟩
    · simpa [WAL.writeEntry, WAL.withWriter, hmode] using hw'
    · simpa [WAL.writeEntry, WAL.withWriter, hmode] using hpos
  | os =>
  refine ⟨f', ?_, ?_⟩
  · simpa [WAL.writeEntry, WAL.withWriter, hmode] using hw'
  · simpa [WAL.writeEntry, WAL.withWriter, hmode] using hpos

omit hw

/--
The append either starts a new segment or finds the writer, with what is
buffered, at the end of the active one.
-/
def LandsAtEnd (w : WAL) (data : Bytes) : Prop :=
  if w.activeSize + (walHeaderSize + data.length) > w.maxSize then
    w.segmentSeq + 1 < segmentLimit
  else w.pos + w.writeBuf.length = w.activeSize

instance (w : WAL) (data : Bytes) : Decidable (LandsAtEnd w data) :=
  inferInstanceAs (Decidable
    (if w.activeSize + (walHeaderSize + data.length) > w.maxSize then
      w.segmentSeq + 1 < segmentLimit
    else w.pos + w.writeBuf.length = w.activeSize))

/--
An append that lands at the end of a segment adds its entry to the active
segment, or to a new one if that would grow too large.
-/
theorem Lined.append_cases (hw : Lined maxSize w old cur f) {e : WalEntry}
    (hlands : LandsAtEnd w e.data) :
    exists f', (w.append e.entryType e.data e.now).1.pos = f'.length ∧
      if w.activeSize + (walHeaderSize + e.data.length) > w.maxSize then
        Lined maxSize (w.append e.entryType e.data e.now).1 (old ++ [cur]) [e]
          f'
      else
        Lined maxSize (w.append e.entryType e.data e.now).1 old (cur ++ [e])
          f' := by
  unfold LandsAtEnd at hlands
  unfold WAL.append WAL.makeRoom
  by_cases hfull : w.activeSize + (walHeaderSize + e.data.length) > w.maxSize
  · rw [if_pos hfull] at hlands
    simp only [if_pos hfull]
    rcases (hw.rotate hlands).writeEntry rfl e with ⟨f', hw', hpos⟩
    exact ⟨f', hpos, hw'⟩
  rw [if_neg hfull] at hlands
  simp only [if_neg hfull]
  have hlength := congrArg List.length hw.written
  rw [List.length_append, ← hw.size] at hlength
  rcases hw.writeEntry (show w.pos = f.length by omega) e with
    ⟨f', hw', hpos⟩
  exact ⟨f', hpos, hw'⟩

theorem Lined.append (hw : Lined maxSize w old cur f) {e : WalEntry}
    (hlands : LandsAtEnd w e.data) :
    exists old' cur' f',
      Lined maxSize (w.append e.entryType e.data e.now).1 old' cur' f' ∧
        (w.append e.entryType e.data e.now).1.pos = f'.length ∧
        (old' ++ [cur']).flatten = (old ++ [cur]).flatten ++ [e] := by
  rcases hw.append_cases hlands with ⟨f', hpos, hlined⟩
  by_cases hfull : w.activeSize + (walHeaderSize + e.data.length) > w.maxSize
  · rw [if_pos hfull] at hlined
    exact ⟨old ++ [cur], [e], f', hlined, hpos, by simp⟩
  · rw [if_neg hfull] at hlined
    exact ⟨old, cur ++ [e], f', hlined, hpos, by simp⟩

theorem Lined.close (hw : Lined maxSize w old cur f) :
    w.close = segmentDisk ((old ++ [cur]).map encode) := by
  rw [WAL.close, hw.flush.disk, List.map_append]
  rfl

theorem lined_newWAL (maxSize : Nat) {segs : List (List WalEntry)}
    (mode : SyncMode)
    (hfew : segs.length < segmentLimit) :
    exists w old cur f,
      WAL.newWAL (segmentDisk (segs.map encode)) maxSize mode = .ok w ∧
        Lined maxSize w old cur f ∧ f = encode cur ∧
        (old ++ [cur]).flatten = segs.flatten := by
  have hlist := listSegments_segmentDisk (segs.map encode)
    (by rw [List.length_map]; exact hfew)
  unfold WAL.newWAL WAL.openOrCreateSegment
  rw [hlist]
  rcases List.eq_nil_or_concat segs with hnil | ⟨old, cur, hconcat⟩
  · subst hnil
    refine ⟨_, [], [], [], rfl, ?_, rfl, rfl⟩
    have hopen := openCreate_segmentDisk []
    exact
      { disk := congrArg Prod.fst hopen
        active := congrArg Prod.snd hopen
        seq := rfl
        written := rfl
        size := rfl
        position := Or.inl rfl
        limit := rfl
        few := by decide }
  rw [List.concat_eq_append] at hconcat
  subst hconcat
  have hlen : (old ++ [cur]).length = old.length + 1 := by
    simp
  have hlast : ((List.range ((old ++ [cur]).map encode).length).map
      (fun i => (segmentPath (i + 1), i))).getLast? =
      some (segmentPath (old.length + 1), old.length) := by
    rw [List.length_map, hlen, List.range_succ]
    simp
  have hparse : WAL.parseSegmentName (segmentPath (old.length + 1)) =
      some (old.length + 1) := by
    apply parseSegmentName_segmentPath
    rw [hlen] at hfew
    exact Nat.lt_trans hfew (by decide)
  have hcontent : (segmentDisk ((old ++ [cur]).map encode)).content
      old.length = encode cur := by
    simp [Disk.content, segmentDisk]
  rw [hlast]
  simp only [hparse, hcontent]
  refine ⟨_, old, cur, encode cur, rfl, ?_, rfl, rfl⟩
  exact
    { disk := by
        rw [List.map_append]
        rfl
      active := rfl
      seq := rfl
      written := List.append_nil _
      size := rfl
      position := Or.inr ⟨rfl, rfl⟩
      limit := rfl
      few := by
        rw [hlen] at hfew
        exact hfew }

end Writing

/-!
## Cycles
-/

def Keeps (maxSize : Nat) (s : WalSession) (actions : List WalAction) : Prop :=
  match s with
  | .closed d => exists segs : List (List WalEntry),
      d = segmentDisk (segs.map encode) ∧ segs.length < segmentLimit ∧
        segs.flatten.map WalEntry.key = appended actions
  | .opened w => exists old cur f, Lined maxSize w old cur f ∧
      (old ++ [cur]).flatten.map WalEntry.key = appended actions

def WalAction.Fits (maxSize : Nat) : WalAction -> Prop
  | .append _ data _ =>
    data.length ≤ maxEntrySize ∧ walHeaderSize + data.length ≤ maxSize
  | _ => True

def Lands : WalSession -> WalAction -> Prop
  | .opened w, .append _ data _ => LandsAtEnd w data
  | _, _ => True

instance (s : WalSession) (a : WalAction) : Decidable (Lands s a) :=
  match s, a with
  | .opened w, .append _ data _ => inferInstanceAs (Decidable (LandsAtEnd w data))
  | .opened _, .newWAL _ | .opened _, .tick | .opened _, .close
  | .closed _, _ => isTrue trivial

theorem appended_append (front back : List WalAction) :
    appended (front ++ back) = appended front ++ appended back :=
  List.filterMap_append

theorem keeps_step {s s' : WalSession} {past : List WalAction} {a : WalAction}
    (hs : Keeps maxSize s past) (hlands : Lands s a)
    (hstep : s.step maxSize a = some s') :
    Keeps maxSize s' (past ++ [a]) := by
  unfold Keeps
  rw [appended_append]
  cases s with
  | closed d =>
    rcases hs with ⟨segs, hd, hfew, hkeys⟩
    cases a with
    | newWAL mode =>
      rcases lined_newWAL maxSize mode hfew with
        ⟨w, old, cur, f, hopen, hlined, _, hflat⟩
      simp only [WalSession.step, hd, hopen, Option.some.injEq] at hstep
      subst hstep
      refine ⟨old, cur, f, hlined, ?_⟩
      rw [hflat, hkeys]
      exact (List.append_nil _).symm
    | append entryType data now => cases hstep
    | tick => cases hstep
    | close => cases hstep
  | opened w =>
  rcases hs with ⟨old, cur, f, hlined, hkeys⟩
  cases a with
  | newWAL mode => cases hstep
  | append entryType data now =>
    cases hstep
    rcases hlined.append (e := ⟨entryType, data, now⟩) hlands with
      ⟨old', cur', f', hlined', _, hflat⟩
    refine ⟨old', cur', f', hlined', ?_⟩
    rw [hflat, List.map_append, hkeys]
    rfl
  | tick =>
    by_cases hmode : w.syncMode = .interval
    · simp only [WalSession.step, hmode, if_true,
        Option.some.injEq] at hstep
      subst hstep
      refine ⟨old, cur, encode cur, hlined.flush, ?_⟩
      rw [hkeys]
      exact (List.append_nil _).symm
    · simp [WalSession.step, hmode] at hstep
  | close =>
  cases hstep
  refine ⟨old ++ [cur], hlined.close, ?_, ?_⟩
  · rw [List.length_append]
    exact hlined.few
  · rw [hkeys]
    exact (List.append_nil _).symm

theorem keeps_run {actions : List WalAction} {s : WalSession}
    (hlands : Meets (WalSession.step maxSize) Lands (.closed Disk.empty)
      actions)
    (hrun : run? (WalSession.step maxSize) (.closed Disk.empty) actions =
      some s) : Keeps maxSize s actions := by
  have hstart : Keeps maxSize (.closed Disk.empty) [] :=
    ⟨[], rfl, by decide, rfl⟩
  exact run?_trace_of_meets (fun s past a s' => keeps_step) hstart hlands hrun

theorem fits_of_appended {actions : List WalAction}
    {segs : List (List WalEntry)}
    (hfits : forall a, a ∈ actions -> a.Fits maxSize)
    (hkeys : segs.flatten.map WalEntry.key = appended actions) :
    forall seg, seg ∈ segs -> forall e, e ∈ seg -> e.Fits maxSize := by
  intro seg hseg e he
  have hmem : e.key ∈ appended actions := by
    rw [← hkeys]
    exact List.mem_map_of_mem (List.mem_flatten.mpr ⟨seg, hseg, he⟩)
  rcases List.mem_filterMap.mp hmem with ⟨a, ha, hkey⟩
  have hfit := hfits a ha
  cases a with
  | append entryType data now =>
    have hdata : data = e.data :=
      congrArg Prod.snd (Option.some.inj hkey)
    rw [hdata] at hfit
    exact ⟨hfit.left, hfit.right⟩
  | newWAL mode => cases hkey
  | tick => cases hkey
  | close => cases hkey

theorem Lined.recover {w : WAL} {old : List (List WalEntry)}
    {cur : List WalEntry} (hw : Lined maxSize w old cur (encode cur))
    (hall : forall seg, seg ∈ old ++ [cur] -> forall e, e ∈ seg ->
      Recoverable maxSize e.data)
    (fn : UInt8 -> Bytes -> State -> Except Err State) (s : State) :
    w.recover fn s = deliver fn ((old ++ [cur]).flatten.map WalEntry.key) s := by
  have hdisk : w.disk = segmentDisk ((old ++ [cur]).map encode) := by
    rw [hw.disk, List.map_append]
    rfl
  have hlist := listSegments_segmentDisk ((old ++ [cur]).map encode)
    (by rw [List.length_map, List.length_append]; exact hw.few)
  unfold WAL.recover
  rw [hdisk, hw.limit, hlist, List.length_map,
    @recoverSegments_encode State Err maxSize fn _
      (fun i => ((old ++ [cur])[i]?).getD []), flatMap_range_getD]
  · intro i hi e he
    rw [List.getElem?_eq_getElem (List.mem_range.mp hi)] at he
    exact hall _ (List.getElem_mem _) e he
  intro i hi
  change (((old ++ [cur]).map encode)[i]?).getD [] = _
  rw [List.getElem?_map, List.getElem?_eq_getElem (List.mem_range.mp hi)]
  rfl

/--
In every run of cycles whose appends all land at the end of a segment, the
reopened log hands to its callback exactly what was appended, in order.
-/
theorem recover_appended {maxSize : Nat} {actions : List WalAction} {d : Disk}
    (hfits : forall a, a ∈ actions -> a.Fits maxSize)
    (hlands : Meets (WalSession.step maxSize) Lands (.closed Disk.empty)
      actions)
    (hrun : run? (WalSession.step maxSize) (.closed Disk.empty) actions =
      some (.closed d)) (mode : SyncMode) :
    exists w, WAL.newWAL d maxSize mode = .ok w ∧
      forall (State Err : Type)
        (fn : UInt8 -> Bytes -> State -> Except Err State) (s : State),
        w.recover fn s = deliver fn (appended actions) s := by
  rcases keeps_run hlands hrun with ⟨segs, hd, hfew, hkeys⟩
  subst hd
  rcases lined_newWAL maxSize mode hfew with
    ⟨w, old, cur, f, hopen, hlined, hf, hflat⟩
  refine ⟨w, hopen, ?_⟩
  intro State Err fn s
  have hall := fits_of_appended hfits
    ((congrArg (List.map WalEntry.key) hflat).trans hkeys)
  rw [hf] at hlined
  rw [hlined.recover (fun seg hseg e he => (hall seg hseg e he).recoverable),
    hflat, hkeys]

def rotatingCycles : List WalAction :=
  [.newWAL .immediate, .append 1 [65, 66] 7, .close,
    .newWAL .immediate, .append 1 [67, 68] 8, .close]

theorem recover_rotatingCycles :
    exists w, WAL.newWAL (segmentDisk [encode [⟨1, [65, 66], 7⟩],
        encode [⟨1, [67, 68], 8⟩]]) 20 .immediate = .ok w ∧
      forall (State Err : Type)
        (fn : UInt8 -> Bytes -> State -> Except Err State) (s : State),
        w.recover fn s = deliver fn [(1, [65, 66]), (1, [67, 68])] s :=
  recover_appended
    (by simp [rotatingCycles, WalAction.Fits, maxEntrySize, walHeaderSize] :
      forall a, a ∈ rotatingCycles -> a.Fits 20)
    (by decide +kernel) (by decide +kernel) .immediate

def reopenedSegment : List WalAction :=
  [.newWAL .immediate, .append 1 [65] 7, .close,
    .newWAL .immediate, .append 1 [66] 8, .close]

def collect (entryType : UInt8) (data : Bytes) (s : List (UInt8 × Bytes)) :
    Except Unit (List (UInt8 × Bytes)) :=
  .ok (s ++ [(entryType, data)])

def recovered (d : Disk) (maxSize : Nat) (mode : SyncMode) :
    Option (List (UInt8 × Bytes)) :=
  match WAL.newWAL d maxSize mode with
  | .error _ => none
  | .ok w => (w.recover collect []).toOption

/-- The entry of the second cycle has replaced that of the first. -/
theorem recover_reopenedSegment :
    ¬ forall (maxSize : Nat) (actions : List WalAction) (d : Disk),
      (forall a, a ∈ actions -> a.Fits maxSize) ->
      run? (WalSession.step maxSize) (.closed Disk.empty) actions =
        some (.closed d) ->
      forall mode, exists w, WAL.newWAL d maxSize mode = .ok w ∧
        forall (State Err : Type)
          (fn : UInt8 -> Bytes -> State -> Except Err State) (s : State),
          w.recover fn s = deliver fn (appended actions) s := by
  intro hall
  rcases hall 4096 reopenedSegment (segmentDisk [encode [⟨1, [66], 8⟩]])
    (by simp [reopenedSegment, WalAction.Fits, maxEntrySize, walHeaderSize])
    (by decide +kernel) .immediate with ⟨w, hopen, hrecover⟩
  have hfound : recovered (segmentDisk [encode [⟨1, [66], 8⟩]]) 4096
      .immediate = some [(1, [66])] := by
    decide +kernel
  have hsame := hrecover _ Unit collect []
  unfold recovered at hfound
  rw [hopen] at hfound
  simp only [hsame] at hfound
  revert hfound
  decide +kernel

end Storage
end ChimeraMQ
