import ChimeraMQ.Storage.WalDamage

/-!
# What the write-ahead log accepts

An append takes an entry of any size, and a recovery hands over small ones only.
A log that was never closed is followed from its creation in an empty directory
on.
-/

namespace ChimeraMQ
namespace Storage

open Foundation

/-!
## What a recovery can hand over
-/

def entrySize (p : UInt8 × Bytes) : Nat :=
  walHeaderSize + p.2.length

namespace WAL

theorem readEntry_ok {Err : Type} {maxSize : Nat} {segment : List Char}
    {bytes data rest : Bytes} {entryType : UInt8}
    (h : (readEntry maxSize segment bytes :
      Except (RecoverError Err) (Option (UInt8 × Bytes × Bytes))) =
        .ok (some (entryType, data, rest))) :
    Recoverable maxSize data ∧
      bytes.length = walHeaderSize + data.length + rest.length := by
  unfold readEntry at h
  cases bytes with
  | nil => cases h
  | cons first tail =>
  simp only at h
  split at h
  · cases h
  split at h
  · cases h
  rename_i hsize
  split at h
  · cases h
  rename_i hsmall
  split at h
  · cases h
  rename_i hwhole
  split at h
  · cases h
  simp only [Except.ok.injEq, Option.some.injEq, Prod.mk.injEq] at h
  rcases h with ⟨_, hdata, hrest⟩
  have hlength : data.length =
      ofBe (((first :: tail).drop 1).take 4) := by
    rw [← hdata, List.length_take]
    omega
  rw [List.length_drop] at hwhole
  constructor
  · constructor
    · omega
    · rw [hlength]
      exact hsmall
  · rw [← hrest, List.length_drop, hlength]
    omega

theorem readSegment_entries (maxSize : Nat) (segment : List Char) (k : Nat)
    (bytes : Bytes) :
    (forall p, p ∈ (readSegment maxSize segment k bytes).entries ->
      Recoverable maxSize p.2) ∧
    (((readSegment maxSize segment k bytes).entries).map entrySize).sum ≤
      bytes.length := by
  induction k generalizing bytes with
  | zero => simp [readSegment]
  | succ k ih =>
  rw [readSegment]
  cases hread : (readEntry maxSize segment bytes :
    Except (RecoverError Empty) _) with
  | error e => simp
  | ok found =>
  cases found with
  | none => simp
  | some entry =>
  rcases entry with ⟨entryType, data, rest⟩
  rcases readEntry_ok hread with ⟨hfirst, hlength⟩
  rcases ih rest with ⟨hall, hsum⟩
  constructor
  · intro p hp
    rcases List.mem_cons.mp hp with hhead | hlater
    · rw [hhead]
      exact hfirst
    · exact hall p hlater
  · simp only [List.map_cons, List.sum_cons, entrySize] at hsum ⊢
    omega

theorem readSegments_entries (d : Disk) (maxSize : Nat)
    (segments : List (List Char × Nat)) :
    (forall p, p ∈ (readSegments d maxSize segments).entries ->
      Recoverable maxSize p.2) ∧
    ((readSegments d maxSize segments).entries.map entrySize).sum ≤
      (segments.map (fun e => (d.content e.2).length)).sum := by
  induction segments with
  | nil => simp [readSegments]
  | cons segment rest ih =>
  rcases segment with ⟨name, file⟩
  rcases readSegment_entries maxSize name (d.content file).length
    (d.content file) with ⟨hfirst, hsize⟩
  rcases ih with ⟨hrest, hsum⟩
  simp only [readSegments, List.map_cons, List.sum_cons]
  split
  · constructor
    · exact hfirst
    · omega
  constructor
  · intro p hp
    rcases List.mem_append.mp hp with hold | hnew
    · exact hfirst p hold
    · exact hrest p hnew
  · simp only [List.map_append, List.sum_append]
    omega

end WAL

theorem deliver_collect (entries s : List (UInt8 × Bytes)) :
    deliver collect entries s = .ok (s ++ entries) := by
  induction entries generalizing s with
  | nil => rw [List.append_nil]; rfl
  | cons p rest ih =>
  rcases p with ⟨entryType, data⟩
  rw [deliver, collect]
  simp only
  rw [ih, List.append_assoc]
  rfl

def HandsOver (w : WAL) (entries : List (UInt8 × Bytes)) : Prop :=
  forall (State Err : Type) (fn : UInt8 -> Bytes -> State -> Except Err State)
    (s : State), w.recover fn s = deliver fn entries s

theorem HandsOver.reading {w : WAL} {entries : List (UInt8 × Bytes)}
    (h : HandsOver w entries) : w.reading.entries = entries := by
  have hone := h (List (UInt8 × Bytes)) Unit collect []
  rw [WAL.recover_eq, WalReading.hand] at hone
  rw [deliver_collect, deliver_collect] at hone
  simp only [List.nil_append] at hone
  split at hone
  · cases hone
    rfl
  · cases hone

/-!
## Sizes
-/

theorem length_encode (seg : List WalEntry) :
    (encode seg).length = ((seg.map WalEntry.key).map entrySize).sum := by
  induction seg with
  | nil => rfl
  | cons e seg ih =>
  rw [encode, List.flatMap_cons, List.length_append, length_frame,
    List.map_cons, List.map_cons, List.sum_cons, ← ih]
  rfl

theorem sum_entrySize_flatten (segs : List (List WalEntry)) :
    ((segs.flatten.map WalEntry.key).map entrySize).sum =
      ((segs.map encode).map List.length).sum := by
  induction segs with
  | nil => rfl
  | cons seg segs ih =>
  rw [List.flatten_cons, List.map_append, List.map_append, List.sum_append,
    ih, List.map_cons, List.map_cons, List.sum_cons, length_encode]

theorem sum_contents (contents : List Bytes)
    (hfew : contents.length < segmentLimit) :
    ((listSegments (segmentDisk contents)).map
      (fun e => ((segmentDisk contents).content e.2).length)).sum =
        (contents.map List.length).sum := by
  rw [listSegments_segmentDisk contents hfew, List.map_map]
  congr 1
  apply List.ext_getElem
  · simp
  · intro i hi hj
    rw [List.length_map] at hj
    simp [Disk.content, segmentDisk, hj]

/-!
## A log from its creation on
-/

def WalAction.Writes : WalAction -> Prop
  | .append _ _ _ | .tick => True
  | .newWAL _ | .close => False

instance (a : WalAction) : Decidable a.Writes := by
  cases a with
  | append entryType data now => exact isTrue trivial
  | tick => exact isTrue trivial
  | newWAL mode => exact isFalse (fun h => h)
  | close => exact isFalse (fun h => h)

/-- The number of a new segment fits the width of its name. -/
def NumbersFit : WalSession -> WalAction -> Prop
  | .opened w, .append _ data _ =>
    w.activeSize + (walHeaderSize + data.length) > w.maxSize ->
      w.segmentSeq + 1 < segmentLimit
  | _, _ => True

instance (s : WalSession) (a : WalAction) : Decidable (NumbersFit s a) := by
  unfold NumbersFit
  split
  · exact inferInstance
  · exact inferInstance

def WalAction.Recoverable (maxSize : Nat) : WalAction -> Prop
  | .append _ data _ => Storage.Recoverable maxSize data
  | _ => True

instance (maxSize : Nat) (data : Bytes) :
    Decidable (Storage.Recoverable maxSize data) :=
  decidable_of_iff (data.length ≤ maxEntrySize ∧ ¬ (0 < maxSize ∧
      maxSize < reasonableMinSize ∧ data.length > maxSize))
    ⟨fun h => ⟨h.left, h.right⟩, fun h => ⟨h.size, h.small⟩⟩

instance (maxSize : Nat) (a : WalAction) : Decidable (a.Recoverable maxSize) := by
  unfold WalAction.Recoverable
  split
  · exact inferInstance
  · exact inferInstance

/-- An open log whose writer stands at the end and that has lost nothing. -/
def Lossless (maxSize : Nat) (s : WalSession) (actions : List WalAction) :
    Prop :=
  exists w old cur f, s = .opened w ∧ Lined maxSize w old cur f ∧
    w.pos = f.length ∧
    (old ++ [cur]).flatten.map WalEntry.key = appended actions

variable {maxSize : Nat}

theorem Lined.landsAtEnd {w : WAL} {old : List (List WalEntry)}
    {cur : List WalEntry} {f data : Bytes} (hw : Lined maxSize w old cur f)
    (hend : w.pos = f.length)
    (hnumber : w.activeSize + (walHeaderSize + data.length) > w.maxSize ->
      w.segmentSeq + 1 < segmentLimit) : LandsAtEnd w data := by
  unfold LandsAtEnd
  split
  · rename_i hfull
    exact hnumber hfull
  · have hlength := congrArg List.length hw.written
    rw [List.length_append, ← hw.size] at hlength
    omega

theorem lined_created {mode : SyncMode} {w : WAL}
    (hopen : WAL.newWAL .empty maxSize mode = .ok w) :
    Lined maxSize w [] [] [] ∧ w.pos = 0 := by
  cases hopen
  constructor
  · exact
      { disk := rfl
        active := rfl
        seq := rfl
        written := rfl
        size := rfl
        position := Or.inl rfl
        limit := rfl
        few := by decide }
  · rfl

theorem lossless_newWAL (maxSize : Nat) (mode : SyncMode) {s : WalSession}
    (hstep : (WalSession.closed .empty).step maxSize (.newWAL mode) = some s) :
    Lossless maxSize s [.newWAL mode] := by
  simp only [WalSession.step] at hstep
  cases hopen : WAL.newWAL .empty maxSize mode with
  | error e => simp [hopen] at hstep
  | ok w =>
  rw [hopen, Option.some.injEq] at hstep
  rcases lined_created hopen with ⟨hlined, hpos⟩
  exact ⟨w, [], [], [], hstep.symm, hlined, hpos, rfl⟩

theorem lossless_step {s s' : WalSession} {past : List WalAction}
    {a : WalAction} (hs : Lossless maxSize s past) (hnumber : NumbersFit s a)
    (hwrites : a.Writes) (hstep : s.step maxSize a = some s') :
    Lossless maxSize s' (past ++ [a]) := by
  rcases hs with ⟨w, old, cur, f, hopen, hlined, hend, hkeys⟩
  subst hopen
  cases a with
  | newWAL mode => cases hwrites
  | close => cases hwrites
  | append entryType data now =>
    cases hstep
    rcases hlined.append (e := ⟨entryType, data, now⟩)
      (hlined.landsAtEnd hend hnumber) with
      ⟨old', cur', f', hlined', hend', hflat⟩
    refine ⟨_, old', cur', f', rfl, hlined', hend', ?_⟩
    rw [hflat, List.map_append, hkeys, appended_append]
    rfl
  | tick =>
  by_cases hmode : w.syncMode = .interval
  · simp only [WalSession.step, hmode, if_true, Option.some.injEq] at hstep
    refine ⟨w.tick, old, cur, encode cur, hstep.symm, hlined.flush,
      hlined.pos_flush hend, ?_⟩
    rw [hkeys, appended_append]
    exact (List.append_nil _).symm
  · simp [WalSession.step, hmode] at hstep

theorem lossless_run {mode : SyncMode} {actions : List WalAction}
    {s : WalSession} (hwrites : forall a, a ∈ actions -> a.Writes)
    (hnumbers : Meets (WalSession.step maxSize) NumbersFit (.closed .empty)
      (.newWAL mode :: actions))
    (hrun : run? (WalSession.step maxSize) (.closed .empty)
      (.newWAL mode :: actions) = some s) :
    Lossless maxSize s (.newWAL mode :: actions) := by
  rcases run?_cons_some hrun with ⟨s1, hopen, hrest⟩
  exact run?_trace_of_meets
    (fun _ _ _ _ hs hboth hstep => lossless_step hs hboth.left hboth.right hstep)
    (lossless_newWAL maxSize mode hopen)
    ((hnumbers.right s1 hopen).and hwrites) hrest

theorem recoverable_of_appended {actions : List WalAction}
    {segs : List (List WalEntry)}
    (hall : forall a, a ∈ actions -> a.Recoverable maxSize)
    (hkeys : segs.flatten.map WalEntry.key = appended actions) :
    forall seg, seg ∈ segs -> forall e, e ∈ seg ->
      Recoverable maxSize e.data := by
  intro seg hseg e he
  have hmem : e.key ∈ appended actions := by
    rw [← hkeys]
    exact List.mem_map_of_mem (List.mem_flatten.mpr ⟨seg, hseg, he⟩)
  rcases List.mem_filterMap.mp hmem with ⟨a, ha, hkey⟩
  have hone := hall a ha
  cases a with
  | append entryType data now =>
    have hdata : data = e.data :=
      congrArg Prod.snd (Option.some.inj hkey)
    rw [hdata] at hone
    exact hone
  | newWAL mode => cases hkey
  | tick => cases hkey
  | close => cases hkey

/--
A log created in an empty directory recovers everything exactly if its buffer is
empty and every entry passes the checks of a recovery.
-/
theorem handsOver_appended_iff {maxSize : Nat} {mode : SyncMode}
    {actions : List WalAction} {w : WAL}
    (hwrites : forall a, a ∈ actions -> a.Writes)
    (hnumbers : Meets (WalSession.step maxSize) NumbersFit (.closed .empty)
      (.newWAL mode :: actions))
    (hrun : run? (WalSession.step maxSize) (.closed .empty)
      (.newWAL mode :: actions) = some (.opened w)) :
    HandsOver w (appended actions) <->
      w.writeBuf = [] ∧ forall a, a ∈ actions -> a.Recoverable maxSize := by
  rcases lossless_run hwrites hnumbers hrun with
    ⟨w', old, cur, f, hopen, hlined, _, hkeys⟩
  cases hopen
  have hsame : appended (.newWAL mode :: actions) = appended actions := rfl
  rw [hsame] at hkeys
  constructor
  · intro hgives
    have hentries := hgives.reading
    have hfew : (old.map encode ++ [f]).length < segmentLimit := by
      rw [List.length_append, List.length_map]
      exact hlined.few
    rcases WAL.readSegments_entries w.disk w.maxSize (listSegments w.disk) with
      ⟨hall, hsum⟩
    change forall p, p ∈ w.reading.entries -> _ at hall
    change (w.reading.entries.map entrySize).sum ≤ _ at hsum
    rw [hentries] at hall hsum
    constructor
    · rw [hlined.disk, sum_contents _ hfew, ← hkeys, sum_entrySize_flatten,
        List.map_append, List.map_append, List.map_append, List.sum_append,
        List.sum_append] at hsum
      have hwritten := congrArg List.length hlined.written
      rw [List.length_append] at hwritten
      simp only [List.map_cons, List.map_nil, List.sum_cons,
        List.sum_nil] at hsum
      exact List.length_eq_zero_iff.mp (by omega)
    intro a ha
    cases a with
    | append entryType data now =>
      rw [hlined.limit] at hall
      exact hall (entryType, data)
        (List.mem_filterMap.mpr ⟨_, ha, rfl⟩)
    | newWAL mode => trivial
    | tick => trivial
    | close => trivial
  · rintro ⟨hempty, hall⟩
    intro State Err fn s
    have hwritten := hlined.written
    rw [hempty, List.append_nil] at hwritten
    rw [hwritten] at hlined
    rw [hlined.recover (recoverable_of_appended hall hkeys), hkeys]

def flushedWrites : List WalAction :=
  [.append 1 [65, 66] 7, .append 1 [67] 8]

def flushedLog : WAL where
  disk := segmentDisk [encode [⟨1, [65, 66], 7⟩], encode [⟨1, [67], 8⟩]]
  activeFile := 1
  pos := 18
  writeBuf := []
  activeSize := 18
  maxSize := 20
  syncMode := .immediate
  offset := 37
  segmentSeq := 2

theorem handsOver_flushedWrites :
    run? (WalSession.step 20) (.closed .empty)
        (.newWAL .immediate :: flushedWrites) = some (.opened flushedLog) ∧
      HandsOver flushedLog [(1, [65, 66]), (1, [67])] := by
  have hrun : run? (WalSession.step 20) (.closed .empty)
      (.newWAL .immediate :: flushedWrites) = some (.opened flushedLog) := by
    decide +kernel
  exact ⟨hrun, (handsOver_appended_iff
    (by decide : forall a, a ∈ flushedWrites -> a.Writes)
    (by decide +kernel) hrun).mpr ⟨rfl, by decide +kernel⟩⟩

def largeEntry : Bytes := List.replicate 11 65

def largeEntryLog : WAL where
  disk := segmentDisk [[], encode [⟨1, largeEntry, 7⟩]]
  activeFile := 1
  pos := 28
  writeBuf := []
  activeSize := 28
  maxSize := 10
  syncMode := .immediate
  offset := 28
  segmentSeq := 2

/-- The entry is taken, and the recovery fails at it. -/
theorem not_handsOver_largeEntry :
    run? (WalSession.step 10) (.closed .empty)
        [.newWAL .immediate, .append 1 largeEntry 7] =
          some (.opened largeEntryLog) ∧
      largeEntryLog.reading.stop =
        some (.entryExceedsMaxSize 11 (segmentPath 2)) ∧
      ¬ HandsOver largeEntryLog [(1, largeEntry)] := by
  constructor
  · decide +kernel
  have hreading : largeEntryLog.reading =
      { entries := []
        stop := some (.entryExceedsMaxSize 11 (segmentPath 2)) } := by
    rfl
  constructor
  · rw [hreading]
  intro hgives
  have hentries := hgives.reading
  rw [hreading] at hentries
  cases hentries

end Storage
end ChimeraMQ
