import ChimeraMQ.Storage.WalRecovery

/-!
# Recovery of a damaged log

A recovery leaves a damaged segment at the first entry that it cannot read and
goes on with the next segment.  What it hands over is in order as long as
nothing can be read behind the damage.
-/

namespace ChimeraMQ
namespace Storage

open Foundation

def RecoverError.widen {Err : Type} : RecoverError Empty -> RecoverError Err
  | .entryExceedsMaximum size segment => .entryExceedsMaximum size segment
  | .entryExceedsMaxSize size segment => .entryExceedsMaxSize size segment

structure WalReading where
  entries : List (UInt8 × Bytes)
  stop : Option (RecoverError Empty)

namespace WalReading

variable {State Err : Type}

def hand (fn : UInt8 -> Bytes -> State -> Except Err State) (r : WalReading)
    (s : State) : Except (RecoverError Err) State :=
  match deliver fn r.entries s with
  | .error e => .error e
  | .ok s' =>
    match r.stop with
    | none => .ok s'
    | some e => .error e.widen

end WalReading

namespace WAL

theorem readEntry_widen (Err : Type) (maxSize : Nat) (segment : List Char)
    (bytes : Bytes) :
    (readEntry maxSize segment bytes :
        Except (RecoverError Err) (Option (UInt8 × Bytes × Bytes))) =
      (readEntry maxSize segment bytes).mapError
        (RecoverError.widen : RecoverError Empty -> RecoverError Err) := by
  unfold readEntry
  cases bytes with
  | nil => rfl
  | cons entryType tail =>
  simp only
  by_cases hshort : (entryType :: tail).length < walHeaderSize
  · rw [if_pos hshort, if_pos hshort]
    rfl
  rw [if_neg hshort, if_neg hshort]
  split
  · rfl
  split
  · rfl
  · split
    · rfl
    · split <;> rfl

def readSegment (maxSize : Nat) (segment : List Char) :
    Nat -> Bytes -> WalReading
  | 0, _ => { entries := [], stop := none }
  | k + 1, bytes =>
    match readEntry maxSize segment bytes with
    | .error e => { entries := [], stop := some e }
    | .ok none => { entries := [], stop := none }
    | .ok (some (entryType, data, rest)) =>
      let r := readSegment maxSize segment k rest
      { r with entries := (entryType, data) :: r.entries }

def readSegments (d : Disk) (maxSize : Nat) :
    List (List Char × Nat) -> WalReading
  | [] => { entries := [], stop := none }
  | (name, file) :: rest =>
    let r := readSegment maxSize name (d.content file).length
      (d.content file)
    match r.stop with
    | some _ => r
    | none =>
      let next := readSegments d maxSize rest
      { next with entries := r.entries ++ next.entries }

def reading (w : WAL) : WalReading :=
  readSegments w.disk w.maxSize (listSegments w.disk)

variable {State Err : Type}

theorem recoverSegment_eq (maxSize : Nat) (segment : List Char)
    (fn : UInt8 -> Bytes -> State -> Except Err State) (k : Nat)
    (bytes : Bytes) (s : State) :
    recoverSegment maxSize segment fn k bytes s =
      (readSegment maxSize segment k bytes).hand fn s := by
  induction k generalizing bytes s with
  | zero => rfl
  | succ k ih =>
  rw [recoverSegment, readSegment, readEntry_widen Err]
  cases readEntry maxSize segment bytes with
  | error e => rfl
  | ok found =>
  cases found with
  | none => rfl
  | some r =>
  rcases r with ⟨entryType, data, rest⟩
  simp only [Except.mapError, WalReading.hand, deliver]
  cases fn entryType data s with
  | error e => rfl
  | ok s' => exact ih rest s'

theorem recoverSegments_eq (d : Disk) (maxSize : Nat)
    (fn : UInt8 -> Bytes -> State -> Except Err State)
    (segments : List (List Char × Nat)) (s : State) :
    recoverSegments d maxSize fn segments s =
      (readSegments d maxSize segments).hand fn s := by
  induction segments generalizing s with
  | nil => rfl
  | cons segment rest ih =>
  rcases segment with ⟨name, file⟩
  rw [recoverSegments, readSegments, recoverSegment_eq]
  simp only [WalReading.hand]
  cases hstop : (readSegment maxSize name (d.content file).length
      (d.content file)).stop with
  | some e =>
    simp only [hstop]
    cases deliver fn (readSegment maxSize name (d.content file).length
      (d.content file)).entries s <;> rfl
  | none =>
  simp only [deliver_append]
  cases deliver fn (readSegment maxSize name (d.content file).length
      (d.content file)).entries s with
  | error e => rfl
  | ok s' => exact ih s'

theorem recover_eq (w : WAL)
    (fn : UInt8 -> Bytes -> State -> Except Err State) (s : State) :
    w.recover fn s = w.reading.hand fn s :=
  recoverSegments_eq w.disk w.maxSize fn (listSegments w.disk) s

end WAL

/-!
## Damage
-/

def readFront (maxSize : Nat) (bytes : Bytes) :
    Except Unit (Option (UInt8 × Bytes × Bytes)) :=
  (WAL.readEntry maxSize [] bytes :
    Except (RecoverError Empty) _).mapError (fun _ => ())

theorem readEntry_front (maxSize : Nat) (segment : List Char) (bytes : Bytes) :
    (WAL.readEntry maxSize segment bytes :
        Except (RecoverError Empty) _).mapError (fun _ => ()) =
      readFront maxSize bytes := by
  unfold readFront WAL.readEntry
  cases bytes with
  | nil => rfl
  | cons entryType tail =>
  simp only
  by_cases hshort : (entryType :: tail).length < walHeaderSize
  · rw [if_pos hshort, if_pos hshort]
  rw [if_neg hshort, if_neg hshort]
  split
  · rfl
  split
  · rfl
  · split
    · rfl
    · split <;> rfl

variable {maxSize : Nat}

theorem readFront_length {bytes data rest : Bytes} {entryType : UInt8}
    (h : readFront maxSize bytes = .ok (some (entryType, data, rest))) :
    rest.length < bytes.length := by
  unfold readFront WAL.readEntry at h
  cases bytes with
  | nil => cases h
  | cons first tail =>
  simp only at h
  by_cases hshort : (first :: tail).length < walHeaderSize
  · rw [if_pos hshort] at h
    cases h
  rw [if_neg hshort] at h
  split at h
  · cases h
  split at h
  · cases h
  split at h
  · cases h
  split at h
  · cases h
  cases h
  rw [List.length_drop, List.length_cons]
  have hpos : 0 < walHeaderSize := by decide
  omega

def Detects (maxSize : Nat) : List WalEntry -> Bytes -> Prop
  | [], _ => True
  | e :: seg, bytes =>
    match readFront maxSize bytes with
    | .ok (some (entryType, data, rest)) =>
      entryType = e.entryType ∧ data = e.data ∧
        bytes = e.frame ++ rest ∧ Detects maxSize seg rest
    | _ => True

inductive SegmentEnd where
  | complete
  | damaged
  | refused
deriving DecidableEq

def segmentEnd (maxSize : Nat) : List WalEntry -> Bytes -> SegmentEnd
  | [], _ => .complete
  | _ :: seg, bytes =>
    match readFront maxSize bytes with
    | .error _ => .refused
    | .ok none => .damaged
    | .ok (some (_, _, rest)) => segmentEnd maxSize seg rest

def survivors (maxSize : Nat) : List WalEntry -> Bytes -> Nat
  | [], _ => 0
  | _ :: seg, bytes =>
    match readFront maxSize bytes with
    | .ok (some (_, _, rest)) => survivors maxSize seg rest + 1
    | _ => 0

/-- The segments with the number of their entries that are handed over. -/
def kept (maxSize : Nat) :
    List (List WalEntry × Bytes) -> List (List WalEntry × Nat)
  | [] => []
  | (seg, bytes) :: rest =>
    (seg, survivors maxSize seg bytes) ::
      (match segmentEnd maxSize seg bytes with
      | .refused => rest.map (fun p => (p.1, 0))
      | _ => kept maxSize rest)

def InOrder (segs : List (List WalEntry × Nat)) : Prop :=
  segs.Pairwise (fun p q => p.2 < p.1.length -> q.2 = 0)

def Silent (maxSize : Nat) : List (List WalEntry × Bytes) -> Prop
  | [] => True
  | (seg, bytes) :: rest =>
    match seg, readFront maxSize bytes with
    | [], _ => Silent maxSize rest
    | _ :: _, .error _ => True
    | _ :: _, .ok none => Silent maxSize rest
    | _ :: _, .ok (some _) => False

def NothingBehindDamage (maxSize : Nat) :
    List (List WalEntry × Bytes) -> Prop
  | [] => True
  | (seg, bytes) :: rest =>
    match segmentEnd maxSize seg bytes with
    | .complete => NothingBehindDamage maxSize rest
    | .refused => True
    | .damaged => Silent maxSize rest

theorem survivors_of_segmentEnd (maxSize : Nat) (seg : List WalEntry)
    (bytes : Bytes) :
    match segmentEnd maxSize seg bytes with
    | .complete => survivors maxSize seg bytes = seg.length
    | _ => survivors maxSize seg bytes < seg.length := by
  induction seg generalizing bytes with
  | nil => rfl
  | cons e seg ih =>
  rw [segmentEnd, survivors]
  cases readFront maxSize bytes with
  | error _ => exact Nat.zero_lt_succ _
  | ok found =>
  cases found with
  | none => exact Nat.zero_lt_succ _
  | some r =>
  rcases r with ⟨entryType, data, rest⟩
  have hrest := ih rest
  simp only
  cases hend : segmentEnd maxSize seg rest with
  | complete =>
    simp only [hend] at hrest
    simp only [List.length_cons]
    omega
  | damaged =>
    simp only [hend] at hrest
    simp only [List.length_cons]
    omega
  | refused =>
  simp only [hend] at hrest
  simp only [List.length_cons]
  omega

theorem readSegment_survivors (segment : List Char) {seg : List WalEntry}
    {bytes : Bytes} {k : Nat} (hlen : bytes.length ≤ (encode seg).length)
    (hdetects : Detects maxSize seg bytes) (hk : bytes.length ≤ k) :
    (WAL.readSegment maxSize segment k bytes).entries =
        (seg.take (survivors maxSize seg bytes)).map WalEntry.key ∧
      ((WAL.readSegment maxSize segment k bytes).stop.isSome = true <->
        segmentEnd maxSize seg bytes = .refused) := by
  induction seg generalizing bytes k with
  | nil =>
    have hnil : bytes = [] := List.length_eq_zero_iff.mp (Nat.le_zero.mp hlen)
    rw [hnil]
    cases k <;> exact ⟨rfl, by simp [WAL.readSegment, WAL.readEntry, segmentEnd]⟩
  | cons e seg ih =>
  cases k with
  | zero =>
    have hnil : bytes = [] :=
      List.length_eq_zero_iff.mp (Nat.le_zero.mp hk)
    rw [hnil]
    exact ⟨rfl, by simp [WAL.readSegment, segmentEnd, readFront,
      WAL.readEntry, Except.mapError]⟩
  | succ k =>
  have hfront := readEntry_front maxSize segment bytes
  rw [WAL.readSegment, segmentEnd, survivors]
  rw [Detects] at hdetects
  cases hread : (WAL.readEntry maxSize segment bytes :
    Except (RecoverError Empty) _) with
  | error err =>
    rw [hread] at hfront
    rw [← hfront]
    exact ⟨rfl, by simp [Except.mapError]⟩
  | ok found =>
  rw [hread] at hfront
  cases found with
  | none =>
    rw [← hfront]
    exact ⟨rfl, by simp [Except.mapError]⟩
  | some r =>
  rcases r with ⟨entryType, data, rest⟩
  have hok : readFront maxSize bytes =
      .ok (some (entryType, data, rest)) := hfront.symm
  have hshort := readFront_length hok
  rw [hok] at hdetects
  rcases hdetects with ⟨htype, hdata, hbytes, hdetects⟩
  have hfits : rest.length ≤ (encode seg).length := by
    rw [hbytes, encode, List.flatMap_cons, List.length_append,
      List.length_append] at hlen
    exact Nat.le_of_add_le_add_left hlen
  rcases ih hfits hdetects (by omega : rest.length ≤ k) with
    ⟨hentries, hstop⟩
  simp only [hok]
  refine ⟨?_, hstop⟩
  rw [hentries, htype, hdata, List.take_succ_cons, List.map_cons]
  rfl

def handedOver (segs : List (List WalEntry × Nat)) : List WalEntry :=
  segs.flatMap (fun p => p.1.take p.2)

theorem handedOver_none {segs : List (List WalEntry × Nat)}
    (hnone : forall p, p ∈ segs -> p.2 = 0) : handedOver segs = [] := by
  apply List.flatMap_eq_nil_iff.mpr
  intro p hp
  rw [hnone p hp, List.take_zero]

theorem readSegments_kept {d : Disk} {segs : List (List WalEntry)}
    {contents : List Bytes} {start : Nat} (hdamaged : List.Forall₂
      (fun seg bytes => bytes.length ≤ (encode seg).length) segs contents)
    (hdetects : forall p, p ∈ segs.zip contents -> Detects maxSize p.1 p.2)
    (hcontent : forall i bytes, contents[i]? = some bytes ->
      d.content (start + i) = bytes) :
    (WAL.readSegments d maxSize ((List.range' start contents.length).map
        (fun i => (segmentPath (i + 1), i)))).entries =
      (handedOver (kept maxSize (segs.zip contents))).map WalEntry.key := by
  induction hdamaged generalizing start with
  | nil => rfl
  | @cons seg bytes segs contents hlen hdamaged ih =>
  have hfirst : d.content start = bytes := hcontent 0 bytes rfl
  have hlater : forall i b, contents[i]? = some b ->
      d.content (start + 1 + i) = b := by
    intro i b hb
    have hnext := hcontent (i + 1) b hb
    rwa [Nat.add_assoc, Nat.add_comm 1 i]
  have hnext := ih (fun p hp => hdetects p (List.mem_cons_of_mem _ hp))
    hlater
  rcases readSegment_survivors (segmentPath (start + 1)) hlen
    (hdetects (seg, bytes) (List.mem_cons_self ..)) (Nat.le_refl _) with
    ⟨hentries, hstop⟩
  rw [List.length_cons, List.range'_succ, List.map_cons,
    WAL.readSegments, hfirst, List.zip_cons_cons, kept, handedOver,
    List.flatMap_cons, List.map_append, ← hentries]
  cases hread : (WAL.readSegment maxSize (segmentPath (start + 1))
      bytes.length bytes).stop with
  | some e =>
    rw [hread] at hstop
    have hend := hstop.mp rfl
    have hnone : forall p,
        p ∈ (segs.zip contents).map (fun p => (p.1, 0)) -> p.2 = 0 := by
      intro p hp
      rcases List.mem_map.mp hp with ⟨q, _, hq⟩
      rw [← hq]
    have hnothing := handedOver_none hnone
    rw [handedOver] at hnothing
    simp only [hend, hnothing, List.map_nil, List.append_nil]
  | none =>
  rw [hread] at hstop
  have hgoesOn : segmentEnd maxSize seg bytes ≠ .refused := by
    intro hend
    exact absurd (hstop.mpr hend) (by decide)
  have hrest : (match segmentEnd maxSize seg bytes with
      | .refused => (segs.zip contents).map (fun p => (p.1, 0))
      | _ => kept maxSize (segs.zip contents)) =
      kept maxSize (segs.zip contents) := by
    cases hend : segmentEnd maxSize seg bytes with
    | complete => rfl
    | damaged => rfl
    | refused => exact absurd hend hgoesOn
  rw [hrest]
  simp only [hnext, handedOver]

/-!
## Order
-/

theorem kept_none_iff (pairs : List (List WalEntry × Bytes)) :
    (forall p, p ∈ kept maxSize pairs -> p.2 = 0) <->
      Silent maxSize pairs := by
  induction pairs with
  | nil => simp [kept, Silent]
  | cons pair rest ih =>
  rcases pair with ⟨seg, bytes⟩
  rw [kept, List.forall_mem_cons]
  cases seg with
  | nil => simpa [segmentEnd, survivors, Silent] using ih
  | cons e seg =>
  cases hread : readFront maxSize bytes with
  | error _ =>
    simp only [Silent, survivors, segmentEnd, hread, true_and,
      iff_true]
    intro p hp
    rcases List.mem_map.mp hp with ⟨q, _, hq⟩
    rw [← hq]
  | ok found =>
  cases found with
  | none => simpa [Silent, survivors, segmentEnd, hread] using ih
  | some r => simp [Silent, survivors, hread]

theorem inOrder_kept_iff (pairs : List (List WalEntry × Bytes)) :
    InOrder (kept maxSize pairs) <-> NothingBehindDamage maxSize pairs := by
  induction pairs with
  | nil => simp [kept, InOrder, NothingBehindDamage]
  | cons pair rest ih =>
  rcases pair with ⟨seg, bytes⟩
  have hcount := survivors_of_segmentEnd maxSize seg bytes
  rw [InOrder, kept, List.pairwise_cons, NothingBehindDamage]
  cases hend : segmentEnd maxSize seg bytes with
  | complete =>
    simp only [hend] at hcount
    constructor
    · intro h
      exact ih.mp h.right
    intro h
    refine ⟨?_, ih.mpr h⟩
    intro q _ hless
    exact absurd hcount (Nat.ne_of_lt hless)
  | refused =>
    constructor
    · intro _
      trivial
    intro _
    refine ⟨?_, ?_⟩
    · intro q hq _
      rcases List.mem_map.mp hq with ⟨p, _, hp⟩
      rw [← hp]
    · rw [List.pairwise_map]
      exact List.pairwise_of_forall (fun _ _ _ => rfl)
  | damaged =>
  simp only [hend] at hcount
  constructor
  · intro h
    exact (kept_none_iff rest).mp (fun q hq => h.left q hq hcount)
  intro h
  have hnone := (kept_none_iff rest).mpr h
  refine ⟨fun q hq _ => hnone q hq, ?_⟩
  apply List.Pairwise.imp_of_mem _
    (List.pairwise_of_forall (R := fun _ _ => True)
      (fun _ _ => trivial))
  intro p q _ hq _ _
  exact hnone q hq

theorem handedOver_isPrefix {segs : List (List WalEntry × Nat)}
    (horder : InOrder segs) :
    handedOver segs <+: (segs.map Prod.fst).flatten := by
  induction segs with
  | nil => exact List.prefix_refl _
  | cons p segs ih =>
  rcases List.pairwise_cons.mp horder with ⟨hfirst, hrest⟩
  rw [handedOver, List.flatMap_cons, List.map_cons, List.flatten_cons]
  by_cases hall : p.2 < p.1.length
  · have hnone := handedOver_none (fun q hq => hfirst q hq hall)
    rw [handedOver] at hnone
    rw [hnone, List.append_nil]
    exact (List.take_prefix _ _).trans (List.prefix_append _ _)
  · rw [List.take_of_length_le (Nat.le_of_not_lt hall)]
    exact List.prefix_append_right_inj _ |>.mpr (ih hrest)

theorem kept_fst (maxSize : Nat) (pairs : List (List WalEntry × Bytes)) :
    (kept maxSize pairs).map Prod.fst = pairs.map Prod.fst := by
  induction pairs with
  | nil => rfl
  | cons pair rest ih =>
  rcases pair with ⟨seg, bytes⟩
  rw [kept, List.map_cons, List.map_cons]
  cases segmentEnd maxSize seg bytes with
  | complete => rw [ih]
  | damaged => rw [ih]
  | refused =>
  rw [List.map_map]
  rfl

theorem newWAL_segmentDisk (contents : List Bytes) (maxSize : Nat)
    (mode : SyncMode) (hfew : contents.length < segmentLimit) :
    exists w, WAL.newWAL (segmentDisk contents) maxSize mode = .ok w ∧
      w.maxSize = maxSize ∧
      (w.disk = segmentDisk contents ∨
        contents = [] ∧ w.disk = segmentDisk [[]]) := by
  have hlist := listSegments_segmentDisk contents hfew
  unfold WAL.newWAL WAL.openOrCreateSegment
  rw [hlist]
  cases hcount : contents.length with
  | zero =>
    have hnil : contents = [] := List.length_eq_zero_iff.mp hcount
    subst hnil
    refine ⟨_, rfl, rfl, Or.inr ⟨rfl, ?_⟩⟩
    exact congrArg Prod.fst (openCreate_segmentDisk [])
  | succ n =>
  have hlast : ((List.range (n + 1)).map
      (fun i => (segmentPath (i + 1), i))).getLast? =
      some (segmentPath (n + 1), n) := by
    rw [List.range_succ]
    simp
  have hparse : WAL.parseSegmentName (segmentPath (n + 1)) =
      some (n + 1) := by
    apply parseSegmentName_segmentPath
    rw [hcount] at hfew
    exact Nat.lt_trans hfew (by decide)
  rw [hlast]
  simp only [hparse]
  exact ⟨_, rfl, rfl, Or.inl rfl⟩

theorem reading_kept {segs : List (List WalEntry)} {contents : List Bytes}
    (hfew : segs.length < segmentLimit) (hdamaged : List.Forall₂
      (fun seg bytes => bytes.length ≤ (encode seg).length) segs contents)
    (hdetects : forall p, p ∈ segs.zip contents -> Detects maxSize p.1 p.2)
    (mode : SyncMode) :
    exists w, WAL.newWAL (segmentDisk contents) maxSize mode = .ok w ∧
      w.reading.entries =
        (handedOver (kept maxSize (segs.zip contents))).map WalEntry.key := by
  rw [hdamaged.length_eq] at hfew
  rcases newWAL_segmentDisk contents maxSize mode hfew with
    ⟨w, hopen, hsize, hdisk⟩
  refine ⟨w, hopen, ?_⟩
  rcases hdisk with hdisk | ⟨hnil, hdisk⟩
  · rw [WAL.reading, hdisk, hsize, listSegments_segmentDisk contents hfew,
      List.range_eq_range']
    apply readSegments_kept hdamaged hdetects
    intro i bytes hbytes
    rw [Nat.zero_add]
    simp [Disk.content, segmentDisk, hbytes]
  · rw [WAL.reading, hdisk, hsize, hnil,
      listSegments_segmentDisk [[]] (by decide), List.zip_nil_right]
    rfl

/-!
## Runs
-/

instance decidableDetects (maxSize : Nat) :
    forall (seg : List WalEntry) (bytes : Bytes),
      Decidable (Detects maxSize seg bytes)
  | [], _ => isTrue trivial
  | e :: seg, bytes =>
    match hread : readFront maxSize bytes with
    | .error _ => isTrue (by simp [Detects, hread])
    | .ok none => isTrue (by simp [Detects, hread])
    | .ok (some (entryType, data, rest)) =>
    have := decidableDetects maxSize seg rest
    decidable_of_iff (entryType = e.entryType ∧ data = e.data ∧
      bytes = e.frame ++ rest ∧ Detects maxSize seg rest)
      (by simp only [Detects, hread])

instance decidableSilent (maxSize : Nat) :
    forall pairs : List (List WalEntry × Bytes),
      Decidable (Silent maxSize pairs)
  | [] => isTrue trivial
  | ([], _) :: rest =>
    have := decidableSilent maxSize rest
    decidable_of_iff (Silent maxSize rest) (by simp only [Silent])
  | (_ :: _, bytes) :: rest =>
    match hread : readFront maxSize bytes with
    | .error _ => isTrue (by simp [Silent, hread])
    | .ok none =>
      have := decidableSilent maxSize rest
      decidable_of_iff (Silent maxSize rest) (by simp only [Silent, hread])
    | .ok (some _) => isFalse (by simp [Silent, hread])

instance decidableNothingBehindDamage (maxSize : Nat) :
    forall pairs : List (List WalEntry × Bytes),
      Decidable (NothingBehindDamage maxSize pairs)
  | [] => isTrue trivial
  | (seg, bytes) :: rest =>
    match hend : segmentEnd maxSize seg bytes with
    | .complete =>
      have := decidableNothingBehindDamage maxSize rest
      decidable_of_iff (NothingBehindDamage maxSize rest)
        (by simp only [NothingBehindDamage, hend])
    | .refused => isTrue (by simp only [NothingBehindDamage, hend])
    | .damaged =>
      decidable_of_iff (Silent maxSize rest)
        (by simp only [NothingBehindDamage, hend])

/--
When files are altered and the checksums detect it, a recovery hands over a
front part of what was appended exactly when nothing can be read behind the
damage.
-/
theorem recover_inOrder_iff {maxSize : Nat} {actions : List WalAction}
    {segs : List (List WalEntry)} {contents : List Bytes}
    (hlands : Meets (WalSession.step maxSize) Lands (.closed Disk.empty)
      actions)
    (hrun : run? (WalSession.step maxSize) (.closed Disk.empty) actions =
      some (.closed (segmentDisk (segs.map encode))))
    (hkeys : segs.flatten.map WalEntry.key = appended actions)
    (hdamaged : List.Forall₂
      (fun seg bytes => bytes.length ≤ (encode seg).length) segs contents)
    (hdetects : forall p, p ∈ segs.zip contents -> Detects maxSize p.1 p.2)
    (mode : SyncMode) :
    exists w, WAL.newWAL (segmentDisk contents) maxSize mode = .ok w ∧
      (forall (State Err : Type)
        (fn : UInt8 -> Bytes -> State -> Except Err State) (s : State),
        w.recover fn s = w.reading.hand fn s) ∧
      w.reading.entries =
        (handedOver (kept maxSize (segs.zip contents))).map WalEntry.key ∧
      (InOrder (kept maxSize (segs.zip contents)) <->
        NothingBehindDamage maxSize (segs.zip contents)) ∧
      (InOrder (kept maxSize (segs.zip contents)) ->
        w.reading.entries <+: appended actions) := by
  have hfew : segs.length < segmentLimit := by
    rcases keeps_run hlands hrun with ⟨written, hsame, hfew, _⟩
    have hcount := congrArg (fun d => d.files.length) hsame
    simp only [segmentDisk, List.length_map] at hcount
    rwa [hcount]
  rcases reading_kept hfew hdamaged hdetects mode with ⟨w, hopen, hentries⟩
  refine ⟨w, hopen, ?_, hentries, inOrder_kept_iff _, ?_⟩
  · intro State Err fn s
    exact w.recover_eq fn s
  intro horder
  have hfront := handedOver_isPrefix horder
  rw [kept_fst, List.map_fst_zip (Nat.le_of_eq hdamaged.length_eq)] at hfront
  rw [hentries, ← hkeys]
  exact hfront.map WalEntry.key

/-- The entry of the second segment is damaged. -/
theorem recover_inOrder_damagedLast :
    exists w, WAL.newWAL (segmentDisk [encode [⟨1, [65, 66], 7⟩],
        (encode [⟨1, [67, 68], 8⟩]).set 17 99]) 20 .immediate = .ok w ∧
      (forall (State Err : Type)
        (fn : UInt8 -> Bytes -> State -> Except Err State) (s : State),
        w.recover fn s = w.reading.hand fn s) ∧
      w.reading.entries <+: [(1, [65, 66]), (1, [67, 68])] := by
  have hall : forall p, p ∈ [[(⟨1, [65, 66], 7⟩ : WalEntry)],
      [⟨1, [67, 68], 8⟩]].zip [encode [⟨1, [65, 66], 7⟩],
        (encode [⟨1, [67, 68], 8⟩]).set 17 99] -> Detects 20 p.1 p.2 := by
    decide +kernel
  rcases @recover_inOrder_iff 20 rotatingCycles
    [[⟨1, [65, 66], 7⟩], [⟨1, [67, 68], 8⟩]] _
    (by decide +kernel) (by decide +kernel) rfl
    (by simp [encode, length_frame]) hall .immediate with
    ⟨w, hopen, hhand, _, hiff, hfront⟩
  exact ⟨w, hopen, hhand, hfront (hiff.mpr (by decide +kernel))⟩

/-- The entry of the first segment is damaged; that of the second is read. -/
theorem recover_skips_damaged :
    ¬ forall (maxSize : Nat) (actions : List WalAction)
        (segs : List (List WalEntry)) (contents : List Bytes)
        (mode : SyncMode),
      run? (WalSession.step maxSize) (.closed Disk.empty) actions =
        some (.closed (segmentDisk (segs.map encode))) ->
      segs.flatten.map WalEntry.key = appended actions ->
      List.Forall₂ (fun seg bytes => bytes.length ≤ (encode seg).length)
        segs contents ->
      (forall p, p ∈ segs.zip contents -> Detects maxSize p.1 p.2) ->
      forall found, recovered (segmentDisk contents) maxSize mode =
        some found -> found <+: appended actions := by
  intro hall
  have hfront := hall 20 rotatingCycles
    [[⟨1, [65, 66], 7⟩], [⟨1, [67, 68], 8⟩]]
    [(encode [⟨1, [65, 66], 7⟩]).set 17 99, encode [⟨1, [67, 68], 8⟩]]
    .immediate (by decide +kernel) rfl (by simp [encode, length_frame])
    (by decide +kernel) [(1, [67, 68])] (by decide +kernel)
  revert hfront
  decide

end Storage
end ChimeraMQ
