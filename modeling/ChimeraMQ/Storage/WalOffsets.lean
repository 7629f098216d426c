import ChimeraMQ.Storage.WalDamage

/-!
# Offsets of the write-ahead log

An append returns a counter that lives in memory.  When a log is opened the
counter starts again at the size of its last segment alone, whatever is in the
segments before it and whatever was returned before.
-/

namespace ChimeraMQ
namespace Storage

open Foundation

namespace WAL

theorem offset_rotate (w : WAL) : w.rotate.offset = w.offset := rfl

theorem offset_makeRoom (w : WAL) (entrySize : Nat) :
    (w.makeRoom entrySize).offset = w.offset := by
  unfold makeRoom
  split
  · exact w.offset_rotate
  · rfl

theorem offset_append (w : WAL) (entryType : UInt8) (data : Bytes)
    (now : Nat) :
    (w.append entryType data now).2 = w.offset ∧
      (w.append entryType data now).1.offset =
        (w.offset + (walHeaderSize + data.length)) % 2 ^ 64 := by
  have hroom := w.offset_makeRoom (walHeaderSize + data.length)
  unfold append writeEntry
  simp only [hroom]
  split
  · exact ⟨rfl, rfl⟩
  · exact ⟨rfl, rfl⟩
  · exact ⟨rfl, rfl⟩

end WAL

def lastSegmentSize (d : Disk) : Nat :=
  match (listSegments d).getLast? with
  | none => 0
  | some (_, file) => (d.content file).length

theorem offset_newWAL {d : Disk} {maxSize : Nat} {mode : SyncMode} {w : WAL}
    (hopen : WAL.newWAL d maxSize mode = .ok w) :
    w.offset = lastSegmentSize d := by
  unfold WAL.newWAL WAL.openOrCreateSegment at hopen
  unfold lastSegmentSize
  cases hlast : (listSegments d).getLast? with
  | none =>
    rw [hlast] at hopen
    cases hopen
    rfl
  | some seg =>
  rcases seg with ⟨name, file⟩
  simp only [hlast] at hopen ⊢
  cases hparse : WAL.parseSegmentName name with
  | none => simp [hparse] at hopen
  | some seq =>
  rw [hparse] at hopen
  cases hopen
  rfl

/-!
## Histories
-/

/--
A log over its openings, with the offset and size of every entry and the size of
the last segment when it was opened.
-/
structure OffsetHistory where
  session : WalSession
  appends : List (Nat × Nat)
  opened : Option Nat
deriving DecidableEq

namespace OffsetHistory

def start (d : Disk) : OffsetHistory where
  session := .closed d
  appends := []
  opened := none

def returned : WalSession -> WalAction -> List (Nat × Nat)
  | .opened w, .append entryType data now =>
    [((w.append entryType data now).2, walHeaderSize + data.length)]
  | _, _ => []

def openedBy (h : OffsetHistory) : WalAction -> Option Nat
  | .newWAL _ =>
    match h.session with
    | .closed d => some (lastSegmentSize d)
    | .opened _ => h.opened
  | .append _ _ _ => none
  | .tick | .close => h.opened

def dataFits : WalAction -> Bool
  | .append _ data _ => data.length < 2 ^ 63
  | _ => true

def step (maxSize : Nat) (h : OffsetHistory) (a : WalAction) :
    Option OffsetHistory :=
  if dataFits a then
    (h.session.step maxSize a).map (fun s =>
      { session := s
        appends := h.appends ++ returned h.session a
        opened := h.openedBy a })
  else none

/-- The offsets returned are strictly increasing, so none comes twice. -/
def Increasing (h : OffsetHistory) : Prop :=
  (h.appends.map Prod.fst).Pairwise (fun a b => a < b)

instance (h : OffsetHistory) : Decidable h.Increasing :=
  inferInstanceAs (Decidable
    ((h.appends.map Prod.fst).Pairwise (fun a b => a < b)))

/--
The first append after an opening finds a last segment larger than all offsets
returned before; any other one does not take the counter out of its width.
-/
def Continues (h : OffsetHistory) : WalAction -> Prop
  | .append _ _ _ =>
    match h.opened with
    | some size => forall r, r ∈ h.appends -> r.1 < size
    | none => forall r, r ∈ h.appends.getLast? -> r.1 + r.2 < 2 ^ 64
  | _ => True

instance (h : OffsetHistory) (a : WalAction) : Decidable (h.Continues a) :=
  match h, a with
  | ⟨_, appends, some _⟩, .append _ _ _ => List.decidableBAll _ appends
  | ⟨_, appends, none⟩, .append _ _ _ =>
    Option.decidableForallMem appends.getLast?
  | _, .newWAL _ => instDecidableTrue
  | _, .tick => instDecidableTrue
  | _, .close => instDecidableTrue

/-!
## The counter over a run
-/

/--
The counter of an open log stands at the size of its last segment or, after an
append, past the entry.
-/
def Counts (h : OffsetHistory) : Prop :=
  forall w, h.session = .opened w ->
    match h.opened with
    | some size => w.offset = size
    | none => exists r, h.appends.getLast? = some r ∧ 0 < r.2 ∧
        r.2 < 2 ^ 64 ∧ w.offset = (r.1 + r.2) % 2 ^ 64

theorem counts_start (d : Disk) : (start d).Counts := by
  intro w hw
  cases hw

theorem counts_append (h : OffsetHistory) (w : WAL) (entryType : UInt8)
    (data : Bytes) (now : Nat) (hfits : data.length < 2 ^ 63) :
    Counts
      { session := .opened (w.append entryType data now).1
        appends := h.appends ++
          [((w.append entryType data now).2, walHeaderSize + data.length)]
        opened := none } := by
  intro w' hw'
  cases hw'
  rcases w.offset_append entryType data now with ⟨hreturned, hnext⟩
  refine ⟨_, List.getLast?_concat, ?_, ?_, ?_⟩
  · simp only [walHeaderSize]
    omega
  · simp only [walHeaderSize]
    omega
  · rw [hreturned]
    exact hnext

variable {h : OffsetHistory}

theorem step_some {maxSize : Nat} {h' : OffsetHistory} {a : WalAction}
    (hstep : h.step maxSize a = some h') :
    dataFits a = true ∧ exists s, h.session.step maxSize a = some s ∧
      h' =
        { session := s
          appends := h.appends ++ returned h.session a
          opened := h.openedBy a } := by
  unfold step at hstep
  split at hstep
  · rename_i hfits
    rcases Option.map_eq_some_iff.mp hstep with ⟨s, hs, hs'⟩
    exact ⟨hfits, s, hs, hs'.symm⟩
  · cases hstep

theorem counts_step {maxSize : Nat} {h' : OffsetHistory} {a : WalAction}
    (hcounts : h.Counts) (hstep : h.step maxSize a = some h') :
    h'.Counts := by
  rcases step_some hstep with ⟨hfits, s, hone, hafter⟩
  rw [hafter]
  cases hsession : h.session with
  | closed d =>
    rw [hsession] at hone
    cases a with
    | newWAL mode =>
      simp only [WalSession.step] at hone
      cases hopen : WAL.newWAL d maxSize mode with
      | error e => simp [hopen] at hone
      | ok w =>
      simp only [hopen, Option.some.injEq] at hone
      intro w' hw'
      have hsame : w = w' := by
        rw [← hone] at hw'
        exact WalSession.opened.inj hw'
      simp only [openedBy, hsession]
      rw [← hsame]
      exact offset_newWAL hopen
    | append entryType data now => cases hone
    | tick => cases hone
    | close => cases hone
  | opened w =>
  rw [hsession] at hone
  cases a with
  | newWAL mode => cases hone
  | append entryType data now =>
    cases hone
    exact h.counts_append w entryType data now (of_decide_eq_true hfits)
  | tick =>
    by_cases hmode : w.syncMode = .interval
    · simp only [WalSession.step, hmode, if_true,
        Option.some.injEq] at hone
      intro w' hw'
      have hsame : w.tick = w' := by
        rw [← hone] at hw'
        exact WalSession.opened.inj hw'
      have hbefore := hcounts w hsession
      simp only [openedBy, returned, List.append_nil]
      rw [← hsame]
      exact hbefore
    · simp [WalSession.step, hmode] at hone
  | close =>
  cases hone
  intro w' hw'
  cases hw'

theorem forall_lt_offset_iff (hcounts : h.Counts) (hinc : h.Increasing)
    {w : WAL} (hw : h.session = .opened w) (entryType : UInt8) (data : Bytes)
    (now : Nat) :
    (forall o, o ∈ h.appends.map Prod.fst -> o < w.offset) <->
      h.Continues (.append entryType data now) := by
  have hbefore := hcounts w hw
  unfold Continues
  cases hopened : h.opened with
  | some size =>
    simp only [hopened] at hbefore
    simp only [hbefore, List.forall_mem_map]
  | none =>
  simp only [hopened] at hbefore
  rcases hbefore with ⟨last, hlast, hpos, hsmall, hoffset⟩
  simp only [hlast, Option.mem_some_iff, forall_eq']
  rw [hoffset]
  constructor
  · intro hall
    have hlt := hall last.1
      (List.mem_map_of_mem (List.mem_of_getLast? hlast))
    by_contra hwide
    have hmod : (last.1 + last.2) % 2 ^ 64 ≤ last.1 := by omega
    omega
  intro hfits o ho
  rw [Nat.mod_eq_of_lt hfits]
  rcases List.getLast?_eq_some_iff.mp hlast with ⟨front, hfront⟩
  unfold Increasing at hinc
  rw [hfront, List.map_append] at hinc ho
  rcases List.mem_append.mp ho with hearlier | hsame
  · have hlt := (List.pairwise_append.mp hinc).right.right o hearlier
      last.1 (List.mem_singleton_self _)
    omega
  · rw [List.mem_singleton.mp hsame]
    omega

theorem increasing_step {maxSize : Nat} {h' : OffsetHistory} {a : WalAction}
    (hcounts : h.Counts) (hstep : h.step maxSize a = some h') :
    h'.Increasing <-> h.Increasing ∧ h.Continues a := by
  rcases step_some hstep with ⟨_, s, hone, hafter⟩
  rw [hafter]
  have hother : returned h.session a = [] -> h.Continues a ->
      ((OffsetHistory.mk s (h.appends ++ returned h.session a)
        (h.openedBy a)).Increasing <-> h.Increasing ∧ h.Continues a) := by
    intro hnone hcontinues
    unfold Increasing
    simp only [hnone, List.append_nil, hcontinues, and_true]
  cases a with
  | newWAL mode => exact hother (by cases h.session <;> rfl) trivial
  | tick => exact hother (by cases h.session <;> rfl) trivial
  | close => exact hother (by cases h.session <;> rfl) trivial
  | append entryType data now =>
  cases hsession : h.session with
  | closed d =>
    rw [hsession] at hone
    cases hone
  | opened w =>
  have hreturned := (w.offset_append entryType data now).left
  have hgrown : (OffsetHistory.mk s
      (h.appends ++ returned (.opened w) (.append entryType data now))
      (h.openedBy (.append entryType data now))).Increasing <->
        h.Increasing ∧
          forall o, o ∈ h.appends.map Prod.fst -> o < w.offset := by
    unfold Increasing
    simp [returned, hreturned, List.pairwise_append]
  rw [hgrown]
  constructor
  · rintro ⟨hinc, hall⟩
    exact ⟨hinc, (forall_lt_offset_iff hcounts hinc hsession
      entryType data now).mp hall⟩
  · rintro ⟨hinc, hcontinues⟩
    exact ⟨hinc, (forall_lt_offset_iff hcounts hinc hsession
      entryType data now).mpr hcontinues⟩

/--
In every run of appends, closings and openings of the log of a directory the
offsets returned are strictly increasing exactly if every append continues
those before it.
-/
theorem increasing_iff_continues {maxSize : Nat} {d : Disk}
    {actions : List WalAction} {h : OffsetHistory}
    (hrun : run? (step maxSize) (start d) actions = some h) :
    h.Increasing <-> Meets (step maxSize) Continues (start d) actions := by
  have hgood := run?_good_iff_meets (fun _ _ _ => counts_step)
    (fun _ _ _ => increasing_step) (counts_start d) hrun
  have hstart : (start d).Increasing := List.Pairwise.nil
  rw [hgood]
  exact and_iff_right hstart

def oneSegmentCycles : List WalAction :=
  [.newWAL .immediate, .append 1 [65] 7, .close,
    .newWAL .immediate, .append 1 [66] 8]

def oneEach (segs : List WalEntry) (offset : Nat) : WAL where
  disk := segmentDisk (segs.map (fun e => encode [e]))
  activeFile := segs.length - 1
  pos := 18
  writeBuf := []
  activeSize := 18
  maxSize := 20
  syncMode := .immediate
  offset := offset
  segmentSeq := segs.length

theorem increasing_oneSegmentCycles :
    run? (step 20) (start .empty) oneSegmentCycles =
        some ⟨.opened (oneEach [⟨1, [65], 7⟩, ⟨1, [66], 8⟩] 36),
          [(0, 18), (18, 18)], none⟩ ∧
      OffsetHistory.Increasing
        ⟨.opened (oneEach [⟨1, [65], 7⟩, ⟨1, [66], 8⟩] 36),
          [(0, 18), (18, 18)], none⟩ := by
  have hrun : run? (step 20) (start .empty) oneSegmentCycles =
      some ⟨.opened (oneEach [⟨1, [65], 7⟩, ⟨1, [66], 8⟩] 36),
        [(0, 18), (18, 18)], none⟩ := by
    decide +kernel
  exact ⟨hrun, (increasing_iff_continues hrun).mpr (by decide +kernel)⟩

def threeSegmentCycles : List WalAction :=
  [.newWAL .immediate, .append 1 [65] 7, .append 1 [66] 8, .append 1 [67] 9,
    .close, .newWAL .immediate, .append 1 [68] 10]

def threeSegmentLog : WAL :=
  oneEach [⟨1, [65], 7⟩, ⟨1, [66], 8⟩, ⟨1, [67], 9⟩, ⟨1, [68], 10⟩] 36

/-- The last entry gets the offset of the second one; both are in the log. -/
theorem not_increasing_threeSegmentCycles :
    run? (step 20) (start .empty) threeSegmentCycles =
        some ⟨.opened threeSegmentLog,
          [(0, 18), (18, 18), (36, 18), (18, 18)], none⟩ ∧
      threeSegmentLog.reading.entries =
        [(1, [65]), (1, [66]), (1, [67]), (1, [68])] ∧
      ¬ OffsetHistory.Increasing ⟨.opened threeSegmentLog,
        [(0, 18), (18, 18), (36, 18), (18, 18)], none⟩ := by
  constructor
  · decide +kernel
  constructor
  · decide +kernel
  · decide

end OffsetHistory

end Storage
end ChimeraMQ
