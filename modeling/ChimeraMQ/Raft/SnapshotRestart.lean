import ChimeraMQ.Raft.LogIndex
import Mathlib.Tactic.IntervalCases

/-!
# Snapshots and restarts

A restart restores the state machine from the data of the snapshot and counts
the entries up to the index of its metadata as applied.
-/

namespace ChimeraMQ
namespace Raft

open Foundation
open RunningNode

variable {NodeID : Type}

section Committed

variable (decode : List UInt8 -> Option (Command NodeID))
variable (committed : Nat -> LogEntry)

/-- The state machine after the first committed entries, each applied once. -/
def committedFSM : Nat -> MetadataFSM NodeID
  | 0 => newMetadataFSM
  | k + 1 =>
    if (committed (k + 1)).type = EntryType.command then
      (committedFSM k).apply decode (committed (k + 1))
    else committedFSM k

def AppliedOnce (s : SnapshotNode NodeID) : Prop :=
  s.fsm decode = committedFSM decode committed s.node.lastApplied

/-- An entry that is applied is that of the committed sequence. -/
def Commits (s : RunningNode NodeID) : RunningAction NodeID -> Prop
  | .resume =>
    match s.handling with
    | .applyEntry => forall e,
        s.snap.node.log.get s.snap.node.lastApplied = some e ->
          e = committed s.snap.node.lastApplied
    | _ => True
  | .handleInstallSnapshot req => forall data, req.data = some data ->
      MetadataFSM.restore data =
        committedFSM decode committed req.lastIncludedIndex
  | _ => True

/--
The entry has the index of its place, is in the log or comes right behind it,
and contradicts the log only above what is committed and applied.
-/
structure FitsAt (n : RaftNode NodeID) (e : LogEntry) (idx : Nat) : Prop where
  index : e.index = idx
  next : n.log.get idx = none -> idx = n.log.lastIndex + 1
  conflict : forall x, n.log.get idx = some x -> x.term ≠ e.term ->
    max n.commitIndex n.lastApplied < idx

def EntriesFit (s : RunningNode NodeID) : RunningAction NodeID -> Prop
  | .handle (.handleAppendEntries req) =>
    Accepts s.snap.node req -> req.prevLogIndex ≤ s.snap.node.log.lastIndex
  | .resume =>
    match s.handling with
    | .entries req i => forall e, req.entries[i]? = some e ->
        FitsAt s.snap.node e (req.prevLogIndex + i + 1)
    | _ => True
  | _ => True

def SnapshotFiles.index (files : SnapshotFiles NodeID) : Nat :=
  match files.metadata with
  | none => 0
  | some info => info.lastIncludedIndex

/--
A snapshot has all the entries of the log applied when the state was read, and
a crash comes between the two files only if the older metadata agrees.
-/
def SnapshotsWhole (s : RunningNode NodeID) : RunningAction NodeID -> Prop
  | .takeSnapshot =>
    match s.snap.phase with
    | .taken _ applied => s.snap.node.log.lastIndex = applied
    | _ => True
  | .restart =>
    (forall info, s.snap.phase = .dataWritten info ->
      forall old, s.snap.files.metadata = some old ->
        old.lastIncludedIndex = info.lastIncludedIndex) ∧
    (s.snap.node.disk.log.getD newRaftLog).firstIndex ≤ s.snap.files.index + 1
  | _ => True

end Committed

/-!
## What a handler applies
-/

/--
A handler applies the next entries of its log, up to the commit index or none,
to the state machine that it found.
-/
def Applies (n n' : RaftNode NodeID) : Prop :=
  exists (m : RaftNode NodeID) (k : Nat), m.fsm = n.fsm ∧ m.lastApplied = n.lastApplied ∧
    m.log.firstIndex = n.log.firstIndex ∧ n' = m.applyNext k ∧
    (k = 0 ∨ m.lastApplied + k = m.commitIndex)

theorem Applies.none {n n' : RaftNode NodeID} (hfsm : n'.fsm = n.fsm)
    (happlied : n'.lastApplied = n.lastApplied)
    (hlog : n'.log.firstIndex = n.log.firstIndex) : Applies n n' :=
  ⟨n', 0, hfsm, happlied, hlog, rfl, Or.inl rfl⟩

theorem Applies.applyCommitted {n m : RaftNode NodeID} (hfsm : m.fsm = n.fsm)
    (happlied : m.lastApplied = n.lastApplied)
    (hlog : m.log.firstIndex = n.log.firstIndex) :
    Applies n m.applyCommitted := by
  refine ⟨m, m.commitIndex - m.lastApplied, hfsm, happlied, hlog, rfl, ?_⟩
  omega

namespace RaftLog

theorem firstIndex_truncateAfter (l : RaftLog) (i : Nat) :
    (l.truncateAfter i).firstIndex = l.firstIndex := by
  unfold truncateAfter
  simp only
  split
  · rfl
  · split <;> rfl

theorem firstIndex_appendEntries (l : RaftLog) (idx : Nat)
    (entries : List LogEntry) :
    (l.appendEntries idx entries).firstIndex = l.firstIndex := by
  induction entries generalizing l idx with
  | nil => rfl
  | cons e rest ih =>
  rw [appendEntries, ih]
  split
  · split
    · exact firstIndex_truncateAfter l _
    · rfl
  · rfl

theorem firstIndex_compact_le {l : RaftLog} {i k : Nat}
    (hl : l.firstIndex ≤ k + 1) (hi : i ≤ k) :
    (l.compact i).firstIndex ≤ k + 1 := by
  unfold compact
  split
  · exact hl
  simp only
  split
  · exact hl
  · exact Nat.succ_le_succ hi

end RaftLog

namespace RaftNode

variable {n : RaftNode NodeID}

theorem fsm_becomeFollower (n : RaftNode NodeID) (term : Nat) :
    (n.becomeFollower term).fsm = n.fsm := by
  unfold becomeFollower saveState
  simp only
  split <;> rfl

theorem fsm_follow (n : RaftNode NodeID) (term : Nat) :
    (if term > n.currentTerm then n.becomeFollower term else n).fsm =
      n.fsm := by
  split
  · exact fsm_becomeFollower n term
  · rfl

theorem applies_becomeFollower (n : RaftNode NodeID) (term : Nat) :
    Applies n (n.becomeFollower term) := by
  have hsame := sameLog_becomeFollower n term
  exact .none (fsm_becomeFollower n term) hsame.applied (by rw [hsame.log])

variable [DecidableEq NodeID]

theorem applies_becomeLeader {n m : RaftNode NodeID} (hfsm : m.fsm = n.fsm)
    (happlied : m.lastApplied = n.lastApplied)
    (hlog : m.log.firstIndex = n.log.firstIndex) :
    Applies n m.becomeLeader := by
  unfold becomeLeader
  split
  · exact .none hfsm happlied hlog
  · exact .none hfsm happlied hlog

omit [DecidableEq NodeID] in
theorem applies_advanceCommitIndex {n m : RaftNode NodeID}
    (hfsm : m.fsm = n.fsm) (happlied : m.lastApplied = n.lastApplied)
    (hlog : m.log.firstIndex = n.log.firstIndex) :
    Applies n m.advanceCommitIndex := by
  unfold advanceCommitIndex
  split
  · exact .none hfsm happlied hlog
  · exact .applyCommitted hfsm happlied hlog

theorem applies_step {n' : RaftNode NodeID} {a : NodeAction NodeID}
    (hstep : n.step a = some n') : Applies n n' := by
  cases a with
  | startElection =>
    cases hstep
    unfold startElection
    simp only
    split
    · exact applies_becomeLeader (m := n.becomeCandidate) rfl rfl rfl
    · exact .none rfl rfl rfl
  | voteResponse req resp =>
    cases hstep
    unfold voteResponse
    split
    · exact applies_becomeFollower n resp.term
    split
    · exact .none rfl rfl rfl
    split
    · simp only
      split
      · exact applies_becomeLeader
          (m := { n with votesReceived := n.votesReceived + 1 })
          rfl rfl rfl
      · exact .none rfl rfl rfl
    · exact .none rfl rfl rfl
  | handleRequestVote req =>
    cases hstep
    unfold handleRequestVote
    split
    · exact .none rfl rfl rfl
    have hfollow := sameLog_follow n req.term
    have hfsm := fsm_follow n req.term
    revert hfollow hfsm
    generalize (if req.term > n.currentTerm then n.becomeFollower req.term
      else n) = m
    intro hfollow hfsm
    simp only
    split
    · exact .none hfsm hfollow.applied (by
        show m.log.firstIndex = _
        rw [hfollow.log])
    · exact .none hfsm hfollow.applied (by rw [hfollow.log])
  | becomeFollower term =>
    cases hstep
    exact applies_becomeFollower n term
  | propose data =>
    rcases Option.map_eq_some_iff.mp hstep with ⟨r, hr, hn⟩
    unfold propose at hr
    split at hr
    · cases hr
    · rw [Option.some.injEq] at hr
      rw [← hn, ← hr]
      exact .none rfl rfl rfl
  | handleAppendEntries req =>
    cases hstep
    unfold handleAppendEntries
    split
    · exact .none rfl rfl rfl
    have hfollow := sameLog_follow n req.term
    have hfsm := fsm_follow n req.term
    revert hfollow hfsm
    generalize (if req.term > n.currentTerm then n.becomeFollower req.term
      else n) = m
    intro hfollow hfsm
    have hlog : m.log.firstIndex = n.log.firstIndex := by
      rw [hfollow.log]
    have hmerged : (m.log.appendEntries (req.prevLogIndex + 1)
        req.entries).firstIndex = n.log.firstIndex := by
      rw [RaftLog.firstIndex_appendEntries, hlog]
    simp only
    split
    · exact .none hfsm hfollow.applied hlog
    unfold advanceTo
    split
    · exact .applyCommitted hfsm hfollow.applied hmerged
    · exact .none hfsm hfollow.applied hmerged
  | appendResponse peer req resp =>
  cases hstep
  unfold appendResponse
  split
  · exact applies_becomeFollower n resp.term
  split
  · refine applies_advanceCommitIndex ?_ ?_ ?_
    · split <;> rfl
    · split <;> rfl
    · split <;> rfl
  split
  · exact .none rfl rfl rfl
  · split
    · exact .none rfl rfl rfl
    · exact .none rfl rfl rfl

/-!
## How a handler begins
-/

/-- What a handler leaves alone until it changes the log. -/
structure Begins (n m : RaftNode NodeID) : Prop where
  log : m.log = n.log
  applied : m.lastApplied = n.lastApplied
  saved : m.disk.log = n.disk.log
  fsm : m.fsm = n.fsm
  commit : m.commitIndex ≤ max n.commitIndex n.log.lastIndex

/-- The first change that a handler has to make. -/
inductive First (n : RaftNode NodeID) (a : NodeAction NodeID) :
    Handling NodeID -> Prop where
  | idle : First n a .idle
  | apply : First n a .apply
  | append {e : LogEntry} (he : e.index = n.log.lastIndex + 1) :
      First n a (.append e)
  | entries {req : AppendEntriesRequest NodeID}
      (ha : a = .handleAppendEntries req) (h : Accepts n req) :
      First n a (.entries req 0)

omit [DecidableEq NodeID] in
theorem Begins.of_sameLog {m : RaftNode NodeID} (hsame : SameLog n m)
    (hfsm : m.fsm = n.fsm) : Begins n m :=
  ⟨hsame.log, hsame.applied, hsame.saved, hfsm,
    Nat.le_trans (Nat.le_of_eq hsame.commit) (Nat.le_max_left _ _)⟩

theorem begins_lead {m : RaftNode NodeID} (hsame : SameLog n m)
    (hfsm : m.fsm = n.fsm) (a : NodeAction NodeID) :
    Begins n m.lead.1 ∧ First n a m.lead.2 := by
  unfold lead
  split
  · exact ⟨.of_sameLog hsame hfsm, .idle⟩
  · refine ⟨.of_sameLog (hsame.trans ⟨rfl, rfl, rfl, rfl⟩) hfsm, .append ?_⟩
    rw [← hsame.log]

omit [DecidableEq NodeID] in
theorem begins_advance {m : RaftNode NodeID} (hsame : SameLog n m)
    (hfsm : m.fsm = n.fsm) (a : NodeAction NodeID) :
    Begins n m.advance.1 ∧ First n a m.advance.2 := by
  unfold advance
  split
  · exact ⟨.of_sameLog hsame hfsm, .idle⟩
  rename_i idx hfind
  have hbounds := findCommit_bounds hfind
  rw [hsame.log, hsame.commit] at hbounds
  refine ⟨⟨hsame.log, hsame.applied, hsame.saved, hfsm, ?_⟩, .apply⟩
  show idx ≤ _
  omega

theorem begins {a : NodeAction NodeID} {m : RaftNode NodeID}
    {h : Handling NodeID} (hbegin : n.begin a = some (m, h)) :
    Begins n m ∧ First n a h := by
  have hrefl : Begins n n := .of_sameLog (SameLog.refl n) rfl
  cases a with
  | startElection =>
    rw [begin, Option.some.injEq] at hbegin
    split at hbegin
    · have hlead := begins_lead (n := n) (m := n.becomeCandidate)
        ⟨rfl, rfl, rfl, rfl⟩ rfl .startElection
      rwa [hbegin] at hlead
    · cases hbegin
      exact ⟨.of_sameLog ⟨rfl, rfl, rfl, rfl⟩ rfl, .idle⟩
  | voteResponse req resp =>
    rw [begin, Option.some.injEq] at hbegin
    split at hbegin
    · cases hbegin
      exact ⟨.of_sameLog (sameLog_becomeFollower n _)
        (fsm_becomeFollower n _), .idle⟩
    split at hbegin
    · cases hbegin
      exact ⟨hrefl, .idle⟩
    split at hbegin
    · simp only at hbegin
      split at hbegin
      · have hlead := begins_lead (n := n)
          (m := { n with votesReceived := n.votesReceived + 1 })
          ⟨rfl, rfl, rfl, rfl⟩ rfl (.voteResponse req resp)
        rwa [hbegin] at hlead
      · cases hbegin
        exact ⟨.of_sameLog ⟨rfl, rfl, rfl, rfl⟩ rfl, .idle⟩
    · cases hbegin
      exact ⟨hrefl, .idle⟩
  | handleRequestVote req =>
    cases hbegin
    refine ⟨?_, .idle⟩
    unfold handleRequestVote
    split
    · exact hrefl
    have hfollow := sameLog_follow n req.term
    have hfsm := fsm_follow n req.term
    revert hfollow hfsm
    generalize (if req.term > n.currentTerm then n.becomeFollower req.term
      else n) = m
    intro hfollow hfsm
    simp only
    split
    · exact .of_sameLog (hfollow.trans ⟨rfl, rfl, rfl, rfl⟩) hfsm
    · exact .of_sameLog hfollow hfsm
  | becomeFollower term =>
    cases hbegin
    exact ⟨.of_sameLog (sameLog_becomeFollower n _) (fsm_becomeFollower n _),
      .idle⟩
  | propose data =>
    rw [begin] at hbegin
    split at hbegin
    · cases hbegin
    · cases hbegin
      exact ⟨hrefl, .append rfl⟩
  | handleAppendEntries req =>
    rw [begin, Option.some.injEq] at hbegin
    split at hbegin
    · cases hbegin
      exact ⟨hrefl, .idle⟩
    rename_i hstale
    have hfollow := sameLog_follow n req.term
    have hfsm := fsm_follow n req.term
    revert hbegin hfollow hfsm
    generalize (if req.term > n.currentTerm then n.becomeFollower req.term
      else n) = x
    intro hbegin hfollow hfsm
    simp only at hbegin
    split at hbegin
    · cases hbegin
      exact ⟨.of_sameLog hfollow hfsm, .idle⟩
    rename_i hreject
    cases hbegin
    refine ⟨.of_sameLog hfollow hfsm, .entries rfl ?_⟩
    rw [hfollow.log, not_and_or, not_not] at hreject
    exact ⟨Nat.le_of_not_lt hstale, hreject.imp_left Nat.eq_zero_of_not_pos⟩
  | appendResponse peer req resp =>
  rw [begin, Option.some.injEq] at hbegin
  split at hbegin
  · rename_i hrefused
    cases hbegin
    refine ⟨?_, .idle⟩
    unfold appendResponse
    split
    · exact .of_sameLog (sameLog_becomeFollower n _) (fsm_becomeFollower n _)
    rename_i hlater
    rw [if_neg (by simp [hrefused.resolve_left hlater])]
    split
    · exact .of_sameLog ⟨rfl, rfl, rfl, rfl⟩ rfl
    · split
      · exact .of_sameLog ⟨rfl, rfl, rfl, rfl⟩ rfl
      · exact hrefl
  · split at hbegin
    · have hadvance := begins_advance (SameLog.refl n) rfl
        (.appendResponse peer req resp)
      rwa [hbegin] at hadvance
    rename_i e _
    have hadvance := begins_advance (n := n) (m := { n with
      nextIndex := Function.update n.nextIndex peer (e.index + 1)
      matchIndex := Function.update n.matchIndex peer e.index })
      ⟨rfl, rfl, rfl, rfl⟩ rfl (.appendResponse peer req resp)
    rwa [hbegin] at hadvance

end RaftNode

/-!
## The invariant
-/

def HandlingFits (n : RaftNode NodeID) : Handling NodeID -> Prop
  | .append e => e.index = n.log.lastIndex + 1
  | .entries req i => req.prevLogIndex + i ≤ n.log.lastIndex
  | .truncate req i => max n.commitIndex n.lastApplied ≤ req.prevLogIndex + i ∧
      req.prevLogIndex + i ≤ n.log.lastIndex ∧
      forall e, req.entries[i]? = some e -> e.index = req.prevLogIndex + i + 1
  | .add req i => req.prevLogIndex + i = n.log.lastIndex ∧
      forall e, req.entries[i]? = some e -> e.index = req.prevLogIndex + i + 1
  | .save req => forall r, req = some r ->
      r.prevLogIndex + r.entries.length ≤ n.log.lastIndex
  | .write log req => Indexed log ∧ forall r, req = some r ->
      r.prevLogIndex + r.entries.length ≤ n.log.lastIndex
  | .applyEntry => 1 ≤ n.lastApplied ∧ n.lastApplied ≤ n.log.lastIndex
  | _ => True

theorem HandlingFits.congr {n m : RaftNode NodeID} {h : Handling NodeID}
    (hfits : HandlingFits n h) (hlast : m.log.lastIndex = n.log.lastIndex)
    (hcommit : m.commitIndex = n.commitIndex)
    (happlied : m.lastApplied = n.lastApplied) : HandlingFits m h := by
  unfold HandlingFits at hfits ⊢
  rw [hlast, hcommit, happlied]
  exact hfits

section Invariant

variable (decode : List UInt8 -> Option (Command NodeID))
variable (committed : Nat -> LogEntry)

def SnapshotOf (data : SnapshotData NodeID) (index : Nat) : Prop :=
  MetadataFSM.restore data = committedFSM decode committed index

def DataAt (files : SnapshotFiles NodeID) (index : Nat) : Prop :=
  exists data, files.data = some data ∧ SnapshotOf decode committed data index

/-- What the snapshot that is being taken has read and written. -/
def PhaseOf (s : SnapshotNode NodeID) (applied : Nat) : Prop :=
  match s.phase with
  | .taken data index =>
    SnapshotOf decode committed data index ∧ index ≤ applied
  | .indexed data _ info =>
    SnapshotOf decode committed data info.lastIncludedIndex ∧
      info.lastIncludedIndex ≤ applied
  | .dataWritten info =>
    DataAt decode committed s.files info.lastIncludedIndex ∧
      info.lastIncludedIndex ≤ applied
  | .metaWritten info => info.lastIncludedIndex ≤ applied
  | _ => True

/-- A node that a restart would give a committed state of the machine. -/
structure Restorable (s : RunningNode NodeID) : Prop where
  log : Indexed s.snap.node.log
  saved : Indexed (s.snap.node.disk.log.getD newRaftLog)
  encoded : forall log, s.saving = .encoded log -> Indexed log
  commit : s.snap.node.commitIndex ≤ max s.applied s.snap.node.log.lastIndex
  low : s.snap.node.log.firstIndex ≤ s.applied + 1
  given : s.snap.fsm decode = committedFSM decode committed s.applied
  handling : HandlingFits s.snap.node s.handling
  phase : PhaseOf decode committed s.snap s.applied
  files : (forall info, s.snap.phase ≠ .dataWritten info) ->
    forall info, s.snap.files.metadata = some info ->
      DataAt decode committed s.snap.files info.lastIncludedIndex

end Invariant

variable {decode : List UInt8 -> Option (Command NodeID)}
variable {committed : Nat -> LogEntry}
variable {s s' : RunningNode NodeID}

theorem PhaseOf.mono {t : SnapshotNode NodeID} {k l : Nat}
    (h : PhaseOf decode committed t k) (hle : k ≤ l) :
    PhaseOf decode committed t l := by
  unfold PhaseOf at h ⊢
  split at h
  · exact ⟨h.left, Nat.le_trans h.right hle⟩
  · exact ⟨h.left, Nat.le_trans h.right hle⟩
  · exact ⟨h.left, Nat.le_trans h.right hle⟩
  · exact Nat.le_trans h hle
  · trivial

/-- A handler that leaves the log and the state machine alone. -/
theorem Restorable.keep {snap : SnapshotNode NodeID} {before h : Handling NodeID}
    {saving : LogSaving} (hr : Restorable decode committed ⟨snap, before, saving⟩)
    {m : RaftNode NodeID} (hbegins : RaftNode.Begins snap.node m)
    (happlied : (applied ⟨{ snap with node := m }, h, saving⟩) =
      applied ⟨snap, before, saving⟩)
    (hfits : HandlingFits m h) :
    Restorable decode committed ⟨{ snap with node := m }, h, saving⟩ := by
  have hcommit := hbegins.commit
  have hbefore := hr.commit
  simp only at hbefore
  refine
    { log := ?_, saved := ?_, encoded := hr.encoded, commit := ?_, low := ?_
      given := ?_, handling := hfits, phase := ?_, files := hr.files }
  · simp only
    rw [hbegins.log]
    exact hr.log
  · simp only
    rw [hbegins.saved]
    exact hr.saved
  · rw [happlied]
    simp only
    rw [hbegins.log]
    omega
  · rw [happlied]
    simp only
    rw [hbegins.log]
    exact hr.low
  · rw [happlied]
    have hgiven := hr.given
    unfold SnapshotNode.fsm at hgiven ⊢
    simp only
    rw [hbegins.fsm]
    exact hgiven
  · rw [happlied]
    exact hr.phase

theorem Restorable.handle [DecidableEq NodeID]
    (hr : Restorable decode committed s) {a : NodeAction NodeID}
    (hfits : EntriesFit s (.handle a))
    (hstep : s.step decode (.handle a) = some s') :
    Restorable decode committed s' := by
  rcases s with ⟨snap, handling, saving⟩
  cases handling with
  | idle =>
    rcases Option.map_eq_some_iff.mp hstep with ⟨⟨m, h⟩, hbegin, heq⟩
    subst heq
    rcases RaftNode.begins hbegin with ⟨hbegins, hfirst⟩
    refine hr.keep (h := h) hbegins ?_ ?_
    · cases hfirst <;> exact hbegins.applied
    cases hfirst with
    | idle => trivial
    | apply => trivial
    | append he =>
      show _ = m.log.lastIndex + 1
      rw [hbegins.log]
      exact he
    | entries ha haccepts =>
    subst ha
    show _ + 0 ≤ m.log.lastIndex
    rw [hbegins.log]
    exact hfits haccepts
  | _ => cases hstep

theorem Restorable.handleInstallSnapshot
    (hr : Restorable decode committed s) {req : InstallSnapshotRequest NodeID}
    (hcommits : forall data, req.data = some data ->
      MetadataFSM.restore data =
        committedFSM decode committed req.lastIncludedIndex)
    (hidle : s.handling = .idle) :
    Restorable decode committed (s.handleInstallSnapshot req) := by
  rcases s with ⟨snap, handling, saving⟩
  subst hidle
  unfold handleInstallSnapshot
  simp only
  split
  · exact hr
  have hfollow := RaftNode.sameLog_follow snap.node req.term
  have hfsm := RaftNode.fsm_follow snap.node req.term
  revert hfollow hfsm
  generalize (if req.term > snap.node.currentTerm then
    snap.node.becomeFollower req.term else snap.node) = n
  intro hfollow hfsm
  have hbegins := RaftNode.Begins.of_sameLog hfollow hfsm
  have hkept := hr.keep (h := .idle) hbegins hbegins.applied trivial
  split
  · exact hkept
  rename_i hahead
  split
  · exact hkept
  rename_i data hdata
  have hcommit := hkept.commit
  have hlow := hkept.low
  simp only [applied] at hcommit hlow
  refine
    { log := hkept.log, saved := hkept.saved, encoded := hkept.encoded
      commit := ?_, low := ?_, given := hcommits data hdata
      handling := trivial, phase := hkept.phase.mono ?_
      files := hkept.files }
  · simp only [applied]
    omega
  · simp only [applied]
    omega
  · simp only [applied]
    omega

/-- A handler that changes the end of the log. -/
theorem Restorable.changeLog {snap : SnapshotNode NodeID}
    {before h : Handling NodeID} {saving : LogSaving}
    (hr : Restorable decode committed ⟨snap, before, saving⟩) {l : RaftLog}
    (hl : Indexed l) (hfirst : l.firstIndex = snap.node.log.firstIndex)
    (hcommit : snap.node.commitIndex ≤
      max (applied ⟨snap, before, saving⟩) l.lastIndex)
    (happlied : applied
        ⟨{ snap with node := { snap.node with log := l } }, h, saving⟩ =
      applied ⟨snap, before, saving⟩)
    (hfits : HandlingFits { snap.node with log := l } h) :
    Restorable decode committed
      ⟨{ snap with node := { snap.node with log := l } }, h, saving⟩ where
  log := hl
  saved := hr.saved
  encoded := hr.encoded
  commit := happlied ▸ hcommit
  low := by
    rw [happlied]
    simp only
    rw [hfirst]
    exact hr.low
  given := happlied ▸ hr.given
  handling := hfits
  phase := happlied ▸ hr.phase
  files := hr.files

section Resume

variable {snap : SnapshotNode NodeID} {saving : LogSaving}
variable {m : RaftNode NodeID} {h : Handling NodeID}
variable {req : AppendEntriesRequest NodeID} {i : Nat}

/-- An entry of the request is compared with the log. -/
theorem Restorable.entries
    (hr : Restorable decode committed ⟨snap, .entries req i, saving⟩)
    (hfits : EntriesFit ⟨snap, .entries req i, saving⟩ .resume)
    (hresume : snap.node.resume (.entries req i) = some (m, h)) :
    Restorable decode committed ⟨{ snap with node := m }, h, saving⟩ := by
  have hrefl : RaftNode.Begins snap.node snap.node :=
    .of_sameLog (SameLog.refl _) rfl
  have hplace : req.prevLogIndex + i ≤ snap.node.log.lastIndex := hr.handling
  simp only [RaftNode.resume] at hresume
  cases he : req.entries[i]? with
  | none =>
    rw [he] at hresume
    cases hresume
    refine hr.keep hrefl rfl ?_
    intro r hr'
    cases hr'
    have hlength := List.getElem?_eq_none_iff.mp he
    exact Nat.le_trans (Nat.add_le_add_left hlength _) hplace
  | some e =>
  have hfit := hfits e he
  have hindex : forall e', req.entries[i]? = some e' ->
      e'.index = req.prevLogIndex + i + 1 := by
    intro e' he'
    rw [he, Option.some.injEq] at he'
    exact he' ▸ hfit.index
  rw [he] at hresume
  simp only at hresume
  cases hget : snap.node.log.get (req.prevLogIndex + i + 1) with
  | none =>
    rw [hget] at hresume
    cases hresume
    exact hr.keep hrefl rfl ⟨Nat.succ.inj (hfit.next hget), hindex⟩
  | some existing =>
  have hin := (RaftLog.index_of_get hr.log hget).right.right
  rw [hget] at hresume
  simp only at hresume
  split at hresume
  · rename_i hterm
    cases hresume
    have habove := hfit.conflict existing hget hterm
    exact hr.keep hrefl rfl ⟨Nat.le_of_lt_succ habove, Nat.le_of_succ_le hin,
      hindex⟩
  · cases hresume
    exact hr.keep hrefl rfl hin

theorem Restorable.truncate
    (hr : Restorable decode committed ⟨snap, .truncate req i, saving⟩) :
    Restorable decode committed ⟨{ snap with node := { snap.node with
      log := snap.node.log.truncateAfter (req.prevLogIndex + i) } },
        .add req i, saving⟩ := by
  have hlog : Indexed snap.node.log := hr.log
  have hlow := hr.low
  rcases hr.handling with ⟨habove, hin, hindex⟩
  simp only [applied] at habove hin hlow
  rcases RaftLog.indexed_truncateAfter hlog (i := req.prevLogIndex + i)
    (by omega) hin with ⟨hcut, hlast, hfirst⟩
  refine hr.changeLog hcut hfirst ?_ rfl ⟨hlast.symm, hindex⟩
  omega

theorem Restorable.add
    (hr : Restorable decode committed ⟨snap, .add req i, saving⟩)
    (hresume : snap.node.resume (.add req i) = some (m, h)) :
    Restorable decode committed ⟨{ snap with node := m }, h, saving⟩ := by
  have hcommit := hr.commit
  rcases hr.handling with ⟨hend, hindex⟩
  simp only [RaftNode.resume] at hresume hend hcommit
  cases he : req.entries[i]? with
  | none => simp [he] at hresume
  | some e =>
  rw [he] at hresume
  cases hresume
  rcases RaftLog.indexed_append hr.log (e := e) (by
    rw [hindex e he, hend]) with ⟨happ, hlast⟩
  simp only at hlast
  refine hr.changeLog happ rfl (by omega) rfl ?_
  show _ + (i + 1) ≤ (snap.node.log.append e).lastIndex
  omega

/-- The log is in its file; a request then moves the commit index. -/
theorem Restorable.write {log : RaftLog}
    {req : Option (AppendEntriesRequest NodeID)}
    (hr : Restorable decode committed ⟨snap, .write log req, saving⟩)
    (hresume : snap.node.resume (.write log req) = some (m, h)) :
    Restorable decode committed ⟨{ snap with node := m }, h, saving⟩ := by
  rcases hr.handling with ⟨hindexed, hend⟩
  have hwritten : Restorable decode committed ⟨{ snap with node :=
      { snap.node with disk := { snap.node.disk with log := some log } } },
      .idle, saving⟩ :=
    { hr with saved := hindexed, handling := trivial }
  cases req with
  | none =>
    cases hresume
    exact hwritten
  | some req =>
  have hlast := hend req rfl
  simp only [RaftNode.resume, RaftNode.commitTo] at hresume
  split at hresume
  · cases hresume
    refine hwritten.keep ⟨rfl, rfl, rfl, rfl, ?_⟩ rfl trivial
    simp only at hlast ⊢
    split <;> omega
  · cases hresume
    exact hwritten

theorem Restorable.apply
    (hr : Restorable decode committed ⟨snap, .apply, saving⟩)
    (hresume : snap.node.resume .apply = some (m, h)) :
    Restorable decode committed ⟨{ snap with node := m }, h, saving⟩ := by
  have hcommit := hr.commit
  simp only [RaftNode.resume, applied] at hresume hcommit
  split at hresume
  · rename_i hmore
    cases hresume
    refine { hr with handling := ⟨Nat.succ_le_succ (Nat.zero_le _), ?_⟩ }
    show snap.node.lastApplied + 1 ≤ snap.node.log.lastIndex
    omega
  · cases hresume
    exact hr.keep (.of_sameLog (SameLog.refl _) rfl) rfl trivial

/-- The machine is given the entry that counts as applied already. -/
theorem Restorable.applyEntry
    (hr : Restorable decode committed ⟨snap, .applyEntry, saving⟩)
    (hcommits : Commits decode committed ⟨snap, .applyEntry, saving⟩ .resume)
    (hresume : snap.node.resume .applyEntry = some (m, h)) :
    Restorable decode committed ⟨{ snap with node := m }, h, saving⟩ := by
  have hcommit := hr.commit
  have hlow := hr.low
  have hgiven := hr.given
  rcases hr.handling with ⟨hone, hlast⟩
  simp only [applied, RaftNode.resume] at *
  cases hget : snap.node.log.get snap.node.lastApplied with
  | none =>
    have hend := RaftLog.lastIndex_lt_of_get_none hr.log
      (by simp only; omega) hget
    simp only at hend
    omega
  | some e =>
  rw [hget] at hresume
  cases hresume
  have he := hcommits e hget
  simp only [SnapshotNode.fsm] at he hgiven
  have hsucc : snap.node.lastApplied = snap.node.lastApplied - 1 + 1 := by
    omega
  refine
    { hr with
      commit := ?_, low := ?_, given := ?_, handling := trivial
      phase := hr.phase.mono (Nat.sub_le _ _) }
  · simp only [applied]
    omega
  · simp only [applied]
    omega
  simp only [applied, SnapshotNode.fsm]
  rw [hsucc, committedFSM, ← hsucc, ← he]
  by_cases hcommand : e.type = EntryType.command
  · rw [if_pos hcommand, if_pos hcommand, List.foldl_append, hgiven]
    rfl
  · rw [if_neg hcommand, if_neg hcommand, hgiven]

theorem Restorable.resume [DecidableEq NodeID]
    (hr : Restorable decode committed s) (hfits : EntriesFit s .resume)
    (hcommits : Commits decode committed s .resume)
    (hstep : s.step decode .resume = some s') :
    Restorable decode committed s' := by
  rcases s with ⟨snap, handling, saving⟩
  rcases Option.map_eq_some_iff.mp hstep with ⟨⟨m, h⟩, hresume, heq⟩
  subst heq
  replace hresume : snap.node.resume handling = some (m, h) := hresume
  cases handling with
  | idle => cases hresume
  | append e =>
    cases hresume
    have hcommit := hr.commit
    rcases RaftLog.indexed_append hr.log hr.handling with ⟨happ, hlast⟩
    simp only at hlast hcommit
    refine hr.changeLog happ rfl ?_ rfl (fun _ hnone => nomatch hnone)
    omega
  | entries req i => exact hr.entries hfits hresume
  | truncate req i =>
    cases hresume
    exact hr.truncate
  | add req i => exact hr.add hresume
  | save req =>
    cases hresume
    exact hr.keep (.of_sameLog (SameLog.refl _) rfl) rfl ⟨hr.log, hr.handling⟩
  | write log req => exact hr.write hresume
  | apply => exact hr.apply hresume
  | applyEntry => exact hr.applyEntry hcommits hresume
  | restored req =>
  cases hresume
  rcases RaftLog.indexed_compact hr.log req.lastIncludedIndex with
    ⟨hindexed, _⟩
  refine
    { hr with
      log := hindexed, commit := ?_, low := ?_
      handling := fun _ hnone => nomatch hnone }
  · exact Nat.le_max_left _ _
  · exact RaftLog.firstIndex_compact_le hr.low (Nat.le_refl _)

end Resume

theorem Restorable.takeSnapshot (hr : Restorable decode committed s)
    (hwhole : SnapshotsWhole s .takeSnapshot)
    (hstep : s.takeSnapshot decode = some s') :
    Restorable decode committed s' := by
  have hphase := hr.phase
  have hfiles := hr.files
  unfold PhaseOf at hphase
  unfold RunningNode.takeSnapshot at hstep
  unfold SnapshotsWhole at hwhole
  cases hp : s.snap.phase with
  | idle => simp [hp, SnapshotNode.takeSnapshot] at hstep
  | started =>
    rw [hp] at hstep
    cases hstep
    exact
      { hr with
        phase := ⟨hr.given, Nat.le_refl _⟩
        files := fun _ => hfiles (by simp [hp]) }
  | taken data index =>
    simp only [hp, SnapshotNode.takeSnapshot, Option.map_some,
      Option.some.injEq] at hstep hwhole hphase
    subst hstep
    refine
      { hr with
        phase := ?_
        files := fun _ => hfiles (by simp [hp]) }
    show SnapshotOf decode committed data s.snap.node.log.lastIndex ∧
      s.snap.node.log.lastIndex ≤ s.applied
    rw [hwhole]
    exact hphase
  | indexed data index info =>
    simp only [hp, SnapshotNode.takeSnapshot, Option.map_some,
      Option.some.injEq] at hstep hphase
    subst hstep
    exact
      { hr with
        phase := ⟨⟨data, rfl, hphase.left⟩, hphase.right⟩
        files := fun hnot => absurd rfl (hnot info) }
  | dataWritten info =>
    simp only [hp, SnapshotNode.takeSnapshot, Option.map_some,
      Option.some.injEq] at hstep hphase
    subst hstep
    refine { hr with phase := hphase.right, files := ?_ }
    intro _ other hother
    cases hother
    exact hphase.left
  | metaWritten info =>
  replace hfiles := hfiles (by simp [hp])
  simp only [hp] at hstep hphase
  cases hsaving : s.saving with
  | none =>
    simp only [hsaving] at hstep
    split at hstep
    · cases hstep
      rcases RaftLog.indexed_compact hr.log info.lastIncludedIndex with
        ⟨hindexed, hlast⟩
      refine
        { hr with
          log := hindexed
          encoded := fun _ hnone => nomatch hnone
          commit := ?_
          low := RaftLog.firstIndex_compact_le hr.low hphase
          handling := hr.handling.congr hlast rfl rfl
          phase := hphase
          files := fun _ => hfiles }
      show s.snap.node.commitIndex ≤ max s.applied
        (s.snap.node.log.compact info.lastIncludedIndex).lastIndex
      rw [hlast]
      exact hr.commit
    · cases hstep
      exact
        { hr with
          encoded := fun _ hnone => nomatch hnone
          phase := trivial
          files := fun _ => hfiles }
  | compacted =>
    simp only [hsaving, Option.some.injEq] at hstep
    subst hstep
    refine { hr with encoded := ?_, phase := ?_, files := ?_ }
    · intro log hlog
      cases hlog
      exact hr.log
    · simp only [PhaseOf, hp]
      exact hphase
    · exact fun _ => hfiles
  | encoded log =>
  simp only [hsaving, Option.some.injEq] at hstep
  subst hstep
  exact
    { hr with
      saved := hr.encoded log hsaving
      encoded := fun _ hnone => nomatch hnone
      phase := trivial
      files := fun _ => hfiles }

theorem Restorable.restart [DecidableEq NodeID]
    (hr : Restorable decode committed s) (hwhole : SnapshotsWhole s .restart)
    (hstep : s.step decode .restart = some s') :
    Restorable decode committed s' := by
  rcases Option.map_eq_some_iff.mp hstep with ⟨snap, hsnap, heq⟩
  subst heq
  rcases @SnapshotNode.indices_start NodeID _ s.snap.node.id
    s.snap.node.peers s.snap.node.disk s.snap.node.passed hr.saved with
    ⟨hlog, hdisk, hindices⟩
  have hfresh : (RaftNode.newRaftNode s.snap.node.id s.snap.node.peers
        s.snap.node.disk s.snap.node.passed).start.fsm = [] ∧
      (RaftNode.newRaftNode s.snap.node.id s.snap.node.peers
        s.snap.node.disk s.snap.node.passed).start.lastApplied = 0 ∧
      (RaftNode.newRaftNode s.snap.node.id s.snap.node.peers
        s.snap.node.disk s.snap.node.passed).start.commitIndex = 0 := by
    unfold RaftNode.start RaftNode.load RaftNode.initPeers
    rcases s.snap.node.disk with ⟨state, log⟩
    cases log <;> cases state <;> exact ⟨rfl, rfl, rfl⟩
  revert hlog hdisk hindices hfresh
  rcases hwhole with ⟨hbetween, hlow⟩
  unfold SnapshotFiles.index at hlow
  unfold SnapshotNode.restart SnapshotNode.start
    SnapshotNode.newSnapshotNode at hsnap
  simp only at hsnap
  revert hsnap
  generalize (RaftNode.newRaftNode s.snap.node.id s.snap.node.peers
    s.snap.node.disk s.snap.node.passed).start = n
  rintro hsnap hlog hdisk hindices ⟨hfsm, happlied, hcommit⟩
  cases hmeta : s.snap.files.metadata with
  | none =>
    rw [hmeta] at hsnap hlow
    cases hsnap
    refine
      { log := hindices.log, saved := ?_
        encoded := (fun _ hnone => nomatch hnone), commit := ?_, low := ?_
        given := ?_, handling := trivial, phase := trivial, files := ?_ }
    · simp only
      rw [hdisk]
      exact hr.saved
    · simp only
      rw [hcommit]
      exact Nat.zero_le _
    · simp only [applied]
      rw [hlog, happlied]
      exact hlow
    · simp only [applied, SnapshotNode.fsm]
      rw [hfsm, happlied]
      rfl
    · intro _ info hinfo
      rw [show s.snap.files.metadata = some info from hinfo] at hmeta
      cases hmeta
  | some info =>
  rw [hmeta] at hsnap hlow
  have hdata : DataAt decode committed s.snap.files
      info.lastIncludedIndex := by
    by_cases hwritten : exists info', s.snap.phase = .dataWritten info'
    · rcases hwritten with ⟨info', hp⟩
      rw [hbetween info' hp info hmeta]
      have hphase := hr.phase
      unfold PhaseOf at hphase
      rw [hp] at hphase
      exact hphase.left
    · exact hr.files (fun info' hp => hwritten ⟨info', hp⟩) info hmeta
  rcases hdata with ⟨data, hfile, hof⟩
  rw [hfile] at hsnap
  cases hsnap
  refine
    { log := hindices.log, saved := ?_
      encoded := (fun _ hnone => nomatch hnone)
      commit := Nat.le_max_left _ _, low := ?_, given := ?_
      handling := trivial, phase := trivial, files := ?_ }
  · simp only
    rw [hdisk]
    exact hr.saved
  · simp only [applied]
    rw [hlog]
    exact hlow
  · simp only [applied, SnapshotNode.fsm]
    rw [hfsm]
    exact hof
  · intro _ other hother
    rw [show s.snap.files.metadata = some other from hother,
      Option.some.injEq] at hmeta
    rw [hmeta]
    exact ⟨data, hfile, hof⟩

/-- The conditions under which snapshots and restarts are right. -/
def Faithful [DecidableEq NodeID]
    (decode : List UInt8 -> Option (Command NodeID))
    (committed : Nat -> LogEntry) (s : RunningNode NodeID)
    (a : RunningAction NodeID) : Prop :=
  EntriesFit s a ∧ Commits decode committed s a ∧ SnapshotsWhole s a

instance (n : RaftNode NodeID) (e : LogEntry) (idx : Nat) :
    Decidable (FitsAt n e idx) :=
  decidable_of_iff
    (e.index = idx ∧ (n.log.get idx = none -> idx = n.log.lastIndex + 1) ∧
      forall x, x ∈ n.log.get idx -> x.term ≠ e.term ->
        max n.commitIndex n.lastApplied < idx)
    ⟨fun h => ⟨h.left, h.right.left, h.right.right⟩,
      fun h => ⟨h.index, h.next, h.conflict⟩⟩

instance (n : RaftNode NodeID) (req : AppendEntriesRequest NodeID) :
    Decidable (Accepts n req) :=
  inferInstanceAs (Decidable (_ ∧ _))

instance (s : RunningNode NodeID) (a : RunningAction NodeID) :
    Decidable (EntriesFit s a) :=
  decidable_of_iff
    ((match a, s.handling with
      | .handle (.handleAppendEntries req), _ =>
        decide (Accepts s.snap.node req ->
          req.prevLogIndex ≤ s.snap.node.log.lastIndex)
      | .resume, .entries req i => decide (forall e, e ∈ req.entries[i]? ->
          FitsAt s.snap.node e (req.prevLogIndex + i + 1))
      | _, _ => true) = true)
    (by
      rcases s with ⟨snap, handling, saving⟩
      cases a with
      | handle a => cases a <;> simp [EntriesFit, imp_iff_not_or]
      | resume => cases handling <;> simp [EntriesFit]
      | _ => simp [EntriesFit])

instance [DecidableEq NodeID] (s : RunningNode NodeID)
    (a : RunningAction NodeID) : Decidable (Commits decode committed s a) :=
  decidable_of_iff
    ((match a, s.handling with
      | .resume, .applyEntry =>
        decide (forall e, e ∈ s.snap.node.log.get s.snap.node.lastApplied ->
          e = committed s.snap.node.lastApplied)
      | .handleInstallSnapshot req, _ =>
        decide (forall data, data ∈ req.data -> MetadataFSM.restore data =
          committedFSM decode committed req.lastIncludedIndex)
      | _, _ => true) = true)
    (by
      rcases s with ⟨snap, handling, saving⟩
      cases a with
      | resume => cases handling <;> simp [Commits]
      | _ => simp [Commits])

instance (s : RunningNode NodeID) (a : RunningAction NodeID) :
    Decidable (SnapshotsWhole s a) :=
  decidable_of_iff
    ((match a, s.snap.phase with
      | .takeSnapshot, .taken _ applied =>
        decide (s.snap.node.log.lastIndex = applied)
      | .restart, .dataWritten info =>
        decide (forall old, old ∈ s.snap.files.metadata ->
            old.lastIncludedIndex = info.lastIncludedIndex) &&
          decide ((s.snap.node.disk.log.getD newRaftLog).firstIndex ≤
            s.snap.files.index + 1)
      | .restart, _ =>
        decide ((s.snap.node.disk.log.getD newRaftLog).firstIndex ≤
          s.snap.files.index + 1)
      | _, _ => true) = true)
    (by
      cases a with
      | takeSnapshot => cases h : s.snap.phase <;> simp [SnapshotsWhole, h]
      | restart => cases h : s.snap.phase <;> simp [SnapshotsWhole, h]
      | _ => simp [SnapshotsWhole])

instance [DecidableEq NodeID] (s : RunningNode NodeID)
    (a : RunningAction NodeID) : Decidable (Faithful decode committed s a) :=
  inferInstanceAs (Decidable (_ ∧ _ ∧ _))

theorem Restorable.step [DecidableEq NodeID]
    (hr : Restorable decode committed s) {a : RunningAction NodeID}
    (hfaithful : Faithful decode committed s a)
    (hstep : s.step decode a = some s') : Restorable decode committed s' := by
  rcases hfaithful with ⟨hfits, hcommits, hwhole⟩
  cases a with
  | handle a => exact hr.handle hfits hstep
  | handleInstallSnapshot req =>
    simp only [RunningNode.step] at hstep
    split at hstep
    · rename_i hidle
      cases hstep
      exact hr.handleInstallSnapshot hcommits hidle
    · cases hstep
  | resume => exact hr.resume hfits hcommits hstep
  | maybeSnapshot =>
    simp only [RunningNode.step, SnapshotNode.maybeSnapshot] at hstep
    split at hstep
    · split at hstep
      · rename_i hp
        split at hstep
        · cases hstep
          exact
            { hr with
              phase := trivial
              files := fun _ => hr.files (by simp [hp]) }
        · cases hstep
      · cases hstep
    · cases hstep
  | takeSnapshot => exact hr.takeSnapshot hwhole hstep
  | restart => exact hr.restart hwhole hstep

/--
In every run that meets the conditions the state machine is, whenever no handler
runs, that of the committed entries that count as applied, each applied once.
-/
theorem appliedOnce_of_faithful [DecidableEq NodeID] {id : NodeID}
    {peers : List NodeID} {maxLogEntries : Int}
    {actions : List (RunningAction NodeID)}
    (hfaithful : Meets (RunningNode.step decode)
      (Faithful decode committed)
      (RunningNode.initial id peers maxLogEntries) actions)
    (hrun : run? (RunningNode.step decode)
      (RunningNode.initial id peers maxLogEntries) actions = some s)
    (hidle : s.handling = .idle) : AppliedOnce decode committed s.snap := by
  have hstart : Restorable decode committed
      (RunningNode.initial id peers maxLogEntries) :=
    { log := RaftLog.indexed_new
      saved := RaftLog.indexed_new
      encoded := fun _ hnone => nomatch hnone
      commit := Nat.zero_le _
      low := Nat.le_refl 1
      given := rfl
      handling := trivial
      phase := trivial
      files := fun _ _ hinfo => nomatch hinfo }
  have hgiven := (run?_invariant_of_meets
    (fun t a t' ht hcond hone => Restorable.step ht hcond hone)
    hstart hfaithful hrun).given
  unfold applied at hgiven
  rw [hidle] at hgiven
  exact hgiven

def topicT : TopicEntry Nat where
  name := "t".toList
  mode := "stream".toList
  partitions := 1
  replicaSet := []

def createTopicT : List UInt8 :=
  ("\x7b\"type\":\"create_topic\",\"data\":\x7b\"name\":\"t\"," ++
    "\"mode\":\"stream\",\"partitions\":1,\"replica_set\":[]\x7d\x7d").toList.map
      (fun c => UInt8.ofNat c.toNat)

def decodeTopicT (data : List UInt8) : Option (Command Nat) :=
  if data = createTopicT then some (.createTopic topicT) else none

def commandFirst (i : Nat) : LogEntry :=
  if i = 1 then { index := 1, term := 1, type := .command, data := createTopicT }
  else { index := i, term := 1, type := .noOp, data := [] }

def commandLeader : RaftNode Nat :=
  { RaftNode.newRaftNode 1 [0] { state := none, log := none } [] with
    log := { entries := [commandFirst 1, commandFirst 2], firstIndex := 1 }
    nextIndex := fun _ => 1 }

theorem fromLeader_commandLeader (commitIdx : Nat) :
    FromLeader (commandLeader.appendRequest 1 commitIdx 0) := by
  refine ⟨commandLeader, 1, commitIdx, 0, ⟨Nat.le_refl 1, ?_⟩, Nat.le_refl 1,
    rfl⟩
  intro k e he
  match k with
  | 0 => cases he; rfl
  | 1 => cases he; rfl
  | k + 2 => cases he

/-- A follower handles the request, takes a snapshot and starts again. -/
def snapshotRun (commitIdx steps : Nat) : List (RunningAction Nat) :=
  .handle (.handleAppendEntries (commandLeader.appendRequest 1 commitIdx 0)) ::
    List.replicate steps .resume ++
      .maybeSnapshot :: List.replicate 7 .takeSnapshot ++ [.restart]

/-- A snapshot of committed entries restores the topic. -/
theorem appliedOnce_snapshotRun :
    exists s, run? (RunningNode.step decodeTopicT)
        (RunningNode.initial 0 [1] 1) (snapshotRun 2 12) = some s ∧
      AppliedOnce decodeTopicT commandFirst s.snap := by
  have hidle : (run? (RunningNode.step decodeTopicT)
      (RunningNode.initial 0 [1] 1) (snapshotRun 2 12)).map
        (fun s => s.handling.isIdle) = some true := by
    decide +kernel
  rcases Option.map_eq_some_iff.mp hidle with ⟨s, hrun, hs⟩
  exact ⟨s, hrun, appliedOnce_of_faithful (by decide +kernel) hrun
    (Handling.eq_idle hs)⟩

/-- A snapshot of entries that are not committed loses the topic. -/
theorem appliedOnce_fails_uncommitted :
    ¬ forall (decode : List UInt8 -> Option (Command Nat))
        (committed : Nat -> LogEntry) (actions : List (RunningAction Nat))
        (s : RunningNode Nat),
      (forall req, .handle (.handleAppendEntries req) ∈ actions ->
        FromLeader req) ->
      Meets (RunningNode.step decode) (Commits decode committed)
        (RunningNode.initial 0 [1] 1) actions ->
      run? (RunningNode.step decode) (RunningNode.initial 0 [1] 1) actions =
        some s ->
      s.handling = .idle -> AppliedOnce decode committed s.snap := by
  intro hall
  have hlost : (run? (RunningNode.step decodeTopicT)
      (RunningNode.initial 0 [1] 1) (snapshotRun 0 7)).map (fun s =>
        (s.handling.isIdle,
          decide (s.snap.fsm decodeTopicT = committedFSM decodeTopicT
            commandFirst s.snap.node.lastApplied))) = some (true, false) := by
    decide +kernel
  rcases Option.map_eq_some_iff.mp hlost with ⟨s, hrun, hs⟩
  rcases Prod.mk.inj hs with ⟨hidle, hnot⟩
  refine of_decide_eq_false hnot (hall decodeTopicT commandFirst
    (snapshotRun 0 7) s ?_ (by decide +kernel) hrun (Handling.eq_idle hidle))
  intro req hreq
  simp only [snapshotRun, List.cons_append, List.mem_cons, List.mem_append,
    RunningAction.handle.injEq, NodeAction.handleAppendEntries.injEq,
    List.mem_replicate, reduceCtorEq, and_false, List.not_mem_nil,
    or_false] at hreq
  rw [hreq]
  exact fromLeader_commandLeader 0

end Raft
end ChimeraMQ
