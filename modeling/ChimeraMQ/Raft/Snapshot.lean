import ChimeraMQ.Foundation.Run
import ChimeraMQ.Raft.MetadataFSM
import ChimeraMQ.Raft.Node

/-!
# A Raft node with snapshots

A snapshot is taken beside the handlers of the node: the state of the machine,
the end of the log, the two files and the compaction of the log are read and
written one after the other, and handlers may run in between.  A restart loads
the files.
-/

namespace ChimeraMQ
namespace Raft

variable {NodeID : Type} [DecidableEq NodeID]

structure SnapshotMeta where
  lastIncludedIndex : Nat
  lastIncludedTerm : Nat
deriving DecidableEq

structure SnapshotFiles (NodeID : Type) where
  data : Option (SnapshotData NodeID)
  metadata : Option SnapshotMeta

/--
How far the snapshot is; the index beside the data, of the last entry applied
when it was read, is not in the program.
-/
inductive SnapshotPhase (NodeID : Type) where
  | idle
  | started
  | taken (data : SnapshotData NodeID) (applied : Nat)
  | indexed (data : SnapshotData NodeID) (applied : Nat) (info : SnapshotMeta)
  | dataWritten (info : SnapshotMeta)
  | metaWritten (info : SnapshotMeta)

structure InstallSnapshotRequest (NodeID : Type) where
  term : Nat
  leaderID : NodeID
  lastIncludedIndex : Nat
  lastIncludedTerm : Nat
  data : Option (SnapshotData NodeID)

/--
A node with its snapshots.  The state machine is given by the state that was
restored last and the commands that the node has applied since.
-/
structure SnapshotNode (NodeID : Type) where
  node : RaftNode NodeID
  base : MetadataFSM NodeID
  files : SnapshotFiles NodeID
  phase : SnapshotPhase NodeID
  maxLogEntries : Int

namespace SnapshotNode

def fsm (decode : List UInt8 -> Option (Command NodeID))
    (s : SnapshotNode NodeID) : MetadataFSM NodeID :=
  s.node.fsm.foldl (MetadataFSM.apply decode) s.base

/--
Start the node: the log is loaded, then the snapshot, then term and vote.  A
snapshot without its data file is an error.
-/
def start (s : SnapshotNode NodeID) : Option (SnapshotNode NodeID) :=
  match s.files.metadata with
  | none => some { s with node := s.node.start }
  | some info =>
  match s.files.data with
  | none => none
  | some data =>
  some { s with
    base := MetadataFSM.restore data
    node := { s.node.start with
      commitIndex := info.lastIncludedIndex
      lastApplied := info.lastIncludedIndex } }

def newSnapshotNode (id : NodeID) (peers : List NodeID) (maxLogEntries : Int)
    (disk : Disk NodeID) (files : SnapshotFiles NodeID)
    (passed : List LogEntry) : SnapshotNode NodeID where
  node := RaftNode.newRaftNode id peers disk passed
  base := newMetadataFSM
  files := files
  phase := .idle
  maxLogEntries := maxLogEntries

/-- Crash: everything but the files is lost; then start again. -/
def restart (s : SnapshotNode NodeID) : Option (SnapshotNode NodeID) :=
  (newSnapshotNode s.node.id s.node.peers s.maxLogEntries s.node.disk s.files
    s.node.passed).start

/-!
## Taking a snapshot
-/

/-- A snapshot is triggered when the log is long enough. -/
def maybeSnapshot (s : SnapshotNode NodeID) : Option (SnapshotNode NodeID) :=
  match s.phase with
  | .idle =>
    if (s.node.log.entries.length : Int) > s.maxLogEntries then
      some { s with phase := .started }
    else none
  | _ => none

def takeSnapshot (decode : List UInt8 -> Option (Command NodeID))
    (s : SnapshotNode NodeID) : Option (SnapshotNode NodeID) :=
  match s.phase with
  | .idle => none
  | .started =>
    some { s with
      phase := .taken (s.fsm decode).snapshot s.node.lastApplied }
  | .taken data applied =>
    some { s with
      phase := .indexed data applied
        { lastIncludedIndex := s.node.log.lastIndex
          lastIncludedTerm := s.node.log.lastTerm } }
  | .indexed data _ info =>
    some { s with
      files := { s.files with data := some data }
      phase := .dataWritten info }
  | .dataWritten info =>
    some { s with
      files := { s.files with metadata := some info }
      phase := .metaWritten info }
  | .metaWritten info =>
  if info.lastIncludedIndex > 0 then
    some { s with
      node := { s.node with
        log := s.node.log.compact info.lastIncludedIndex }.saveLog
      phase := .idle }
  else some { s with phase := .idle }

def handleInstallSnapshot (s : SnapshotNode NodeID)
    (req : InstallSnapshotRequest NodeID) : SnapshotNode NodeID :=
  if req.term < s.node.currentTerm then s
  else
    let s :=
      if req.term > s.node.currentTerm then
        { s with node := s.node.becomeFollower req.term }
      else s
    if req.lastIncludedIndex ≤ s.node.lastApplied then s
    else
      match req.data with
      | none => s
      | some data =>
      { s with
        base := MetadataFSM.restore data
        node := { s.node with
          fsm := []
          log := s.node.log.compact req.lastIncludedIndex
          commitIndex := req.lastIncludedIndex
          lastApplied := req.lastIncludedIndex }.saveLog }

end SnapshotNode

inductive NodeAction (NodeID : Type) where
  | startElection
  | voteResponse (req : RequestVoteRequest NodeID) (resp : RequestVoteResponse)
  | handleRequestVote (req : RequestVoteRequest NodeID)
  | becomeFollower (term : Nat)
  | propose (data : List UInt8)
  | handleAppendEntries (req : AppendEntriesRequest NodeID)
  | appendResponse (peer : NodeID) (req : AppendEntriesRequest NodeID)
      (resp : AppendEntriesResponse)

def RaftNode.step (n : RaftNode NodeID) :
    NodeAction NodeID -> Option (RaftNode NodeID)
  | .startElection => some n.startElection.1
  | .voteResponse req resp => some (n.voteResponse req resp)
  | .handleRequestVote req => some (n.handleRequestVote req).1
  | .becomeFollower term => some (n.becomeFollower term)
  | .propose data => (n.propose data).map Prod.fst
  | .handleAppendEntries req => some (n.handleAppendEntries req).1
  | .appendResponse peer req resp => some (n.appendResponse peer req resp).1

inductive SnapshotAction (NodeID : Type) where
  | handle (a : NodeAction NodeID)
  | handleInstallSnapshot (req : InstallSnapshotRequest NodeID)
  | maybeSnapshot
  | takeSnapshot
  | restart

def SnapshotNode.step (decode : List UInt8 -> Option (Command NodeID))
    (s : SnapshotNode NodeID) :
    SnapshotAction NodeID -> Option (SnapshotNode NodeID)
  | .handle a => (s.node.step a).map (fun node => { s with node := node })
  | .handleInstallSnapshot req => some (s.handleInstallSnapshot req)
  | .maybeSnapshot => s.maybeSnapshot
  | .takeSnapshot => s.takeSnapshot decode
  | .restart => s.restart

def SnapshotNode.initial (id : NodeID) (peers : List NodeID)
    (maxLogEntries : Int) : SnapshotNode NodeID :=
  { newSnapshotNode id peers maxLogEntries { state := none, log := none }
      { data := none, metadata := none } [] with
    node := (RaftNode.newRaftNode id peers
      { state := none, log := none } []).start }

/-!
## Handlers in steps

`TakeSnapshot` does not take the mutex of the node, so it meets a handler in the
middle.  A handler is cut here where it uses the log or the state machine, which
have locks of their own, and where it writes the file of the log.
-/

/-- What the handler that has the mutex of the node has still to do. -/
inductive Handling (NodeID : Type) where
  | idle
  | append (e : LogEntry)
  | entries (req : AppendEntriesRequest NodeID) (i : Nat)
  | truncate (req : AppendEntriesRequest NodeID) (i : Nat)
  | add (req : AppendEntriesRequest NodeID) (i : Nat)
  | save (req : Option (AppendEntriesRequest NodeID))
  | write (log : RaftLog) (req : Option (AppendEntriesRequest NodeID))
  | apply
  | applyEntry
  | restored (req : InstallSnapshotRequest NodeID)

def Handling.isIdle {α : Type} : Handling α -> Bool
  | .idle => true
  | _ => false

theorem Handling.eq_idle {α : Type} {h : Handling α}
    (hidle : h.isIdle = true) : h = .idle := by
  cases h with
  | idle => rfl
  | _ => cases hidle

namespace RaftNode

/-- `becomeLeader` up to the append of its entry. -/
def lead (n : RaftNode NodeID) : RaftNode NodeID × Handling NodeID :=
  if n.state ≠ .candidate then (n, .idle)
  else
    let n := { n with state := .leader }
    let lastIdx := n.log.lastIndex
    (n.initPeers (lastIdx + 1),
      .append { index := lastIdx + 1, term := n.currentTerm
                type := EntryType.noOp, data := [] })

/-- `advanceCommitIndex` up to the loop that applies. -/
def advance (n : RaftNode NodeID) : RaftNode NodeID × Handling NodeID :=
  match n.findCommit (n.log.lastIndex - n.commitIndex) with
  | none => (n, .idle)
  | some idx => ({ n with commitIndex := idx }, .apply)

/-- A handler up to its first change of the log or the state machine. -/
def begin (n : RaftNode NodeID) :
    NodeAction NodeID -> Option (RaftNode NodeID × Handling NodeID)
  | .startElection =>
    let n := n.becomeCandidate
    some (if n.votesReceived ≥ n.quorum then n.lead else (n, .idle))
  | .voteResponse req resp =>
    some (
      if resp.term > n.currentTerm then (n.becomeFollower resp.term, .idle)
      else if n.state ≠ .candidate ∨ n.currentTerm ≠ req.term then (n, .idle)
      else if resp.voteGranted then
        let n := { n with votesReceived := n.votesReceived + 1 }
        if n.votesReceived ≥ n.quorum then n.lead else (n, .idle)
      else (n, .idle))
  | .handleRequestVote req => some ((n.handleRequestVote req).1, .idle)
  | .becomeFollower term => some (n.becomeFollower term, .idle)
  | .propose data =>
    if n.state ≠ .leader then none
    else
      some (n, .append { index := n.log.lastIndex + 1, term := n.currentTerm
                         type := EntryType.command, data := data })
  | .handleAppendEntries req =>
    some (
      if req.term < n.currentTerm then (n, .idle)
      else
        let n :=
          if req.term > n.currentTerm then n.becomeFollower req.term else n
        if req.prevLogIndex > 0 ∧
            n.log.termAt req.prevLogIndex ≠ req.prevLogTerm then (n, .idle)
        else (n, .entries req 0))
  | .appendResponse peer req resp =>
    some (
      if resp.term > n.currentTerm ∨ resp.success = false then
        ((n.appendResponse peer req resp).1, .idle)
      else
        match req.entries.getLast? with
        | none => n.advance
        | some e =>
          { n with
            nextIndex := Function.update n.nextIndex peer (e.index + 1)
            matchIndex := Function.update n.matchIndex peer e.index }.advance)

/-- The rest of `HandleAppendEntries` after the log is saved. -/
def commitTo (n : RaftNode NodeID) (req : AppendEntriesRequest NodeID) :
    RaftNode NodeID × Handling NodeID :=
  if req.leaderCommit > n.commitIndex then
    let lastNewIdx := req.prevLogIndex + req.entries.length
    ({ n with
      commitIndex :=
        if req.leaderCommit < lastNewIdx then req.leaderCommit
        else lastNewIdx }, .apply)
  else (n, .idle)

/-- The next step of a handler. -/
def resume (n : RaftNode NodeID) :
    Handling NodeID -> Option (RaftNode NodeID × Handling NodeID)
  | .idle => none
  | .append e => some ({ n with log := n.log.append e }, .save none)
  | .entries req i =>
    match req.entries[i]? with
    | none => some (n, .save (some req))
    | some e =>
    match n.log.get (req.prevLogIndex + i + 1) with
    | none => some (n, .add req i)
    | some existing =>
      if existing.term ≠ e.term then some (n, .truncate req i)
      else some (n, .entries req (i + 1))
  | .truncate req i =>
    some ({ n with log := n.log.truncateAfter (req.prevLogIndex + i) },
      .add req i)
  | .add req i =>
    match req.entries[i]? with
    | none => none
    | some e => some ({ n with log := n.log.append e }, .entries req (i + 1))
  | .save req => some (n, .write n.log req)
  | .write log req =>
    let n := { n with disk := { n.disk with log := some log } }
    match req with
    | none => some (n, .idle)
    | some req => some (n.commitTo req)
  | .apply =>
    if n.lastApplied < n.commitIndex then
      some ({ n with lastApplied := n.lastApplied + 1 }, .applyEntry)
    else some (n, .idle)
  | .applyEntry =>
    match n.log.get n.lastApplied with
    | none => some (n, .apply)
    | some e =>
      some ({ n with
        fsm := if e.type = EntryType.command then n.fsm ++ [e] else n.fsm
        passed := n.passed ++ [e] }, .apply)
  | .restored req =>
    some ({ n with
      log := n.log.compact req.lastIncludedIndex
      commitIndex := req.lastIncludedIndex
      lastApplied := req.lastIncludedIndex }, .save none)

end RaftNode

/-- How far `TakeSnapshot` is with the log. -/
inductive LogSaving where
  | none
  | compacted
  | encoded (log : RaftLog)

structure RunningNode (NodeID : Type) where
  snap : SnapshotNode NodeID
  handling : Handling NodeID
  saving : LogSaving

inductive RunningAction (NodeID : Type) where
  | handle (a : NodeAction NodeID)
  | handleInstallSnapshot (req : InstallSnapshotRequest NodeID)
  | resume
  | maybeSnapshot
  | takeSnapshot
  | restart

namespace RunningNode

def initial (id : NodeID) (peers : List NodeID) (maxLogEntries : Int) :
    RunningNode NodeID where
  snap := SnapshotNode.initial id peers maxLogEntries
  handling := .idle
  saving := .none

/-- The last entry that the state machine has been given. -/
def applied (s : RunningNode NodeID) : Nat :=
  match s.handling with
  | .applyEntry => s.snap.node.lastApplied - 1
  | .restored req => req.lastIncludedIndex
  | _ => s.snap.node.lastApplied

def setNode (s : RunningNode NodeID)
    (r : RaftNode NodeID × Handling NodeID) : RunningNode NodeID :=
  { s with snap := { s.snap with node := r.1 }, handling := r.2 }

def handleInstallSnapshot (s : RunningNode NodeID)
    (req : InstallSnapshotRequest NodeID) : RunningNode NodeID :=
  if req.term < s.snap.node.currentTerm then s
  else
    let n :=
      if req.term > s.snap.node.currentTerm then
        s.snap.node.becomeFollower req.term
      else s.snap.node
    if req.lastIncludedIndex ≤ n.lastApplied then s.setNode (n, .idle)
    else
      match req.data with
      | none => s.setNode (n, .idle)
      | some data =>
      { s with
        snap := { s.snap with
          base := MetadataFSM.restore data
          node := { n with fsm := [] } }
        handling := .restored req }

def takeSnapshot (decode : List UInt8 -> Option (Command NodeID))
    (s : RunningNode NodeID) : Option (RunningNode NodeID) :=
  match s.snap.phase with
  | .started =>
    some { s with snap := { s.snap with
      phase := .taken (s.snap.fsm decode).snapshot s.applied } }
  | .metaWritten info =>
    let n := s.snap.node
    match s.saving with
    | .none =>
      if info.lastIncludedIndex > 0 then
        some { s with
          snap := { s.snap with node := { n with
            log := n.log.compact info.lastIncludedIndex } }
          saving := .compacted }
      else some { s with snap := { s.snap with phase := .idle } }
    | .compacted => some { s with saving := .encoded n.log }
    | .encoded log =>
    some { s with
      snap := { s.snap with
        node := { n with disk := { n.disk with log := some log } }
        phase := .idle }
      saving := .none }
  | _ => (s.snap.takeSnapshot decode).map (fun snap => { s with snap := snap })

/--
One step of the node.  A handler and the trigger of a snapshot need the mutex.
-/
def step (decode : List UInt8 -> Option (Command NodeID))
    (s : RunningNode NodeID) :
    RunningAction NodeID -> Option (RunningNode NodeID)
  | .handle a =>
    match s.handling with
    | .idle => (s.snap.node.begin a).map s.setNode
    | _ => none
  | .handleInstallSnapshot req =>
    match s.handling with
    | .idle => some (s.handleInstallSnapshot req)
    | _ => none
  | .resume => (s.snap.node.resume s.handling).map s.setNode
  | .maybeSnapshot =>
    match s.handling with
    | .idle => s.snap.maybeSnapshot.map (fun snap => { s with snap := snap })
    | _ => none
  | .takeSnapshot => s.takeSnapshot decode
  | .restart => s.snap.restart.map (fun snap => ⟨snap, .idle, .none⟩)

end RunningNode

/-!
## Undisturbed handlers
-/

namespace RaftNode

variable {n m : RaftNode NodeID}

/-- The handler, resumed until nothing is left, leaves the node. -/
inductive Finishes : RaftNode NodeID × Handling NodeID -> RaftNode NodeID -> Prop
    where
  | idle (n : RaftNode NodeID) : Finishes (n, .idle) n
  | resume {n r : RaftNode NodeID} {h : Handling NodeID}
      {p : RaftNode NodeID × Handling NodeID}
      (hstep : n.resume h = some p) (hrest : Finishes p r) :
      Finishes (n, h) r

omit [DecidableEq NodeID] in
theorem finishes_apply (n : RaftNode NodeID) :
    Finishes (n, .apply) n.applyCommitted := by
  unfold applyCommitted
  generalize hk : n.commitIndex - n.lastApplied = k
  induction k generalizing n with
  | zero =>
    refine .resume (p := (n, .idle)) ?_ (.idle n)
    rw [resume, if_neg (by omega)]
  | succ k ih =>
  refine .resume (p := ({ n with lastApplied := n.lastApplied + 1 },
    .applyEntry)) ?_ ?_
  · rw [resume, if_pos (by omega)]
  rw [applyNext]
  cases hget : n.log.get (n.lastApplied + 1) with
  | none =>
    refine .resume (by simp only [resume, hget]) (ih _ ?_)
    show n.commitIndex - (n.lastApplied + 1) = k
    omega
  | some e =>
  refine .resume (by simp only [resume, hget]) (ih _ ?_)
  show n.commitIndex - (n.lastApplied + 1) = k
  omega

omit [DecidableEq NodeID] in
theorem finishes_save_none (n : RaftNode NodeID) :
    Finishes (n, .save none) n.saveLog :=
  .resume rfl (.resume rfl (.idle _))

omit [DecidableEq NodeID] in
theorem finishes_save_some (n : RaftNode NodeID)
    (req : AppendEntriesRequest NodeID) :
    Finishes (n, .save (some req)) (n.saveLog.advanceTo req) := by
  refine .resume rfl (.resume (p := n.saveLog.commitTo req) rfl ?_)
  unfold commitTo advanceTo
  split
  · exact finishes_apply _
  · exact .idle _

omit [DecidableEq NodeID] in
theorem finishes_entries {req : AppendEntriesRequest NodeID}
    {rest : List LogEntry} {i : Nat} (hrest : req.entries.drop i = rest) :
    Finishes (n, .entries req i)
      ({ n with
        log := n.log.appendEntries (req.prevLogIndex + i + 1) rest
      }.saveLog.advanceTo req) := by
  induction rest generalizing n i with
  | nil =>
    have hnone : req.entries[i]? = none := by
      rw [← List.head?_drop, hrest]
      rfl
    exact .resume (p := (n, .save (some req)))
      (by simp only [resume, hnone]) (finishes_save_some n req)
  | cons e rest ih =>
  have he : req.entries[i]? = some e := by
    rw [← List.head?_drop, hrest]
    rfl
  have hnext : req.entries.drop (i + 1) = rest := by
    rw [← List.tail_drop, hrest]
    rfl
  rw [RaftLog.appendEntries]
  cases hget : n.log.get (req.prevLogIndex + i + 1) with
  | none =>
    refine .resume (p := (n, .add req i)) ?_
      (.resume (by simp only [resume, he])
        (@ih { n with log := n.log.append e } (i + 1) hnext))
    simp only [resume, he, hget]
  | some existing =>
  by_cases hterm : existing.term ≠ e.term
  · simp only [if_pos hterm]
    refine .resume (p := (n, .truncate req i)) ?_ (.resume rfl
      (.resume (by simp only [resume, he])
        (@ih { n with log := (n.log.truncateAfter
          (req.prevLogIndex + i)).append e } (i + 1) hnext)))
    simp only [resume, he, hget, if_pos hterm]
  · simp only [if_neg hterm]
    refine .resume (p := (n, .entries req (i + 1))) ?_ (ih hnext)
    simp only [resume, he, hget, if_neg hterm]

theorem finishes_lead (n : RaftNode NodeID) : Finishes n.lead n.becomeLeader := by
  unfold lead becomeLeader
  split
  · exact .idle n
  · exact .resume rfl (finishes_save_none _)

omit [DecidableEq NodeID] in
theorem finishes_advance (n : RaftNode NodeID) :
    Finishes n.advance n.advanceCommitIndex := by
  unfold advance advanceCommitIndex
  cases n.findCommit (n.log.lastIndex - n.commitIndex) with
  | none => exact .idle n
  | some idx => exact finishes_apply _

/-- Undisturbed, a handler does what it does as one step. -/
theorem step_of_begin {a : NodeAction NodeID}
    {r : RaftNode NodeID × Handling NodeID} (hbegin : n.begin a = some r) :
    exists m, n.step a = some m ∧ Finishes r m := by
  cases a with
  | startElection =>
    cases hbegin
    refine ⟨_, rfl, ?_⟩
    unfold startElection
    simp only
    split
    · exact finishes_lead _
    · exact .idle _
  | voteResponse req resp =>
    cases hbegin
    refine ⟨_, rfl, ?_⟩
    unfold voteResponse
    split
    · exact .idle _
    split
    · exact .idle _
    split
    · simp only
      split
      · exact finishes_lead _
      · exact .idle _
    · exact .idle _
  | handleRequestVote req =>
    cases hbegin
    exact ⟨_, rfl, .idle _⟩
  | becomeFollower term =>
    cases hbegin
    exact ⟨_, rfl, .idle _⟩
  | propose data =>
    rw [begin] at hbegin
    split at hbegin
    · cases hbegin
    rename_i hleader
    cases hbegin
    refine ⟨_, by rw [step, propose, if_neg hleader]; rfl, ?_⟩
    exact .resume rfl (finishes_save_none _)
  | handleAppendEntries req =>
    cases hbegin
    refine ⟨_, rfl, ?_⟩
    unfold handleAppendEntries
    split
    · exact .idle n
    generalize (if req.term > n.currentTerm then n.becomeFollower req.term
      else n) = x
    simp only
    split
    · exact .idle x
    · exact finishes_entries (i := 0) List.drop_zero
  | appendResponse peer req resp =>
  cases hbegin
  refine ⟨_, rfl, ?_⟩
  split
  · exact .idle _
  rename_i htaken
  rw [not_or, Bool.not_eq_false] at htaken
  unfold appendResponse
  rw [if_neg htaken.left, if_pos htaken.right]
  cases req.entries.getLast? with
  | none => exact finishes_advance _
  | some e => exact finishes_advance _

end RaftNode

end Raft
end ChimeraMQ
