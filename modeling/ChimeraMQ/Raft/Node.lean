import ChimeraMQ.Raft.Log

/-!
# A Raft node

The handlers of one node, each as a function from the node's state to its next
state.  Every handler runs under the node's mutex, so it is one step; the send
half and the response half of `replicateLog`, between which the mutex is
released, are two functions, and so are the two halves of a vote, as the mutex
can be lost between them.  Timers and the heartbeat loop decide only when a
handler runs and are left out.
-/

namespace ChimeraMQ
namespace Raft

/-- The files of a node: `state.json` and `log.bin`, if they exist. -/
structure Disk (NodeID : Type) where
  state : Option (Nat × Option NodeID)
  log : Option RaftLog

/--
The last two fields are not in the program: `fsm` has the commands applied, and
`passed` every entry ever handed to `applyCommitted`.
-/
structure RaftNode (NodeID : Type) where
  id : NodeID
  state : NodeState
  currentTerm : Nat
  votedFor : Option NodeID
  log : RaftLog
  commitIndex : Nat
  lastApplied : Nat
  nextIndex : NodeID -> Nat
  matchIndex : NodeID -> Nat
  peers : List NodeID
  votesReceived : Nat
  disk : Disk NodeID
  fsm : List LogEntry
  passed : List LogEntry

namespace RaftNode

variable {NodeID : Type}

def saveState (n : RaftNode NodeID) : RaftNode NodeID :=
  { n with disk := { n.disk with state := some (n.currentTerm, n.votedFor) } }

def saveLog (n : RaftNode NodeID) : RaftNode NodeID :=
  { n with disk := { n.disk with log := some n.log } }

def newRaftNode (id : NodeID) (peers : List NodeID) (disk : Disk NodeID)
    (passed : List LogEntry) : RaftNode NodeID where
  id := id
  state := .follower
  currentTerm := 0
  votedFor := none
  log := newRaftLog
  commitIndex := 0
  lastApplied := 0
  nextIndex := fun _ => 0
  matchIndex := fun _ => 0
  peers := peers
  votesReceived := 0
  disk := disk
  fsm := []
  passed := passed

section Peers

variable [DecidableEq NodeID]

def initPeers (n : RaftNode NodeID) (next : Nat) : RaftNode NodeID :=
  { n with
    nextIndex := fun p => if p ∈ n.peers then next else n.nextIndex p
    matchIndex := fun p => if p ∈ n.peers then 0 else n.matchIndex p }

def load (n : RaftNode NodeID) : RaftNode NodeID :=
  let n :=
    match n.disk.log with
    | none => n
    | some log => { n with log := log }
  match n.disk.state with
  | none => n
  | some (term, vote) => { n with currentTerm := term, votedFor := vote }

def start (n : RaftNode NodeID) : RaftNode NodeID :=
  let n := n.load
  n.initPeers (n.log.lastIndex + 1)

/-- Crash: everything but the files is lost; then start again. -/
def restart (n : RaftNode NodeID) : RaftNode NodeID :=
  (newRaftNode n.id n.peers n.disk n.passed).start

/-!
## Elections
-/

def quorum (n : RaftNode NodeID) : Nat :=
  (n.peers.length + 1) / 2 + 1

/-- Step down; a higher term is adopted without a vote. -/
def becomeFollower (n : RaftNode NodeID) (term : Nat) : RaftNode NodeID :=
  let n := { n with state := .follower }
  if term > n.currentTerm then
    { n with currentTerm := term, votedFor := none }.saveState
  else n

/-- A candidate becomes leader and appends a no-op entry. -/
def becomeLeader (n : RaftNode NodeID) : RaftNode NodeID :=
  if n.state ≠ .candidate then n
  else
    let n := { n with state := .leader }
    let lastIdx := n.log.lastIndex
    let n := n.initPeers (lastIdx + 1)
    let noop : LogEntry :=
      { index := lastIdx + 1, term := n.currentTerm
        type := EntryType.noOp, data := [] }
    { n with log := n.log.append noop }.saveLog

def becomeCandidate (n : RaftNode NodeID) : RaftNode NodeID :=
  { n with
    state := .candidate
    currentTerm := n.currentTerm + 1
    votedFor := some n.id
    votesReceived := 1 }.saveState

def requestVote (n : RaftNode NodeID) : RequestVoteRequest NodeID where
  term := n.currentTerm
  candidateID := n.id
  lastLogIndex := n.log.lastIndex
  lastLogTerm := n.log.lastTerm

/--
Start an election.  Returns the request and the peers it is sent to; a node
whose own vote is a quorum leads at once and asks nobody.
-/
def startElection (n : RaftNode NodeID) :
    RaftNode NodeID × RequestVoteRequest NodeID × List NodeID :=
  let n := n.becomeCandidate
  if n.votesReceived ≥ n.quorum then (n.becomeLeader, n.requestVote, [])
  else (n, n.requestVote, n.peers)

def voteResponse (n : RaftNode NodeID) (req : RequestVoteRequest NodeID)
    (resp : RequestVoteResponse) : RaftNode NodeID :=
  if resp.term > n.currentTerm then n.becomeFollower resp.term
  else if n.state ≠ .candidate ∨ n.currentTerm ≠ req.term then n
  else if resp.voteGranted then
    let n := { n with votesReceived := n.votesReceived + 1 }
    if n.votesReceived ≥ n.quorum then n.becomeLeader else n
  else n

def upToDate (n : RaftNode NodeID) (req : RequestVoteRequest NodeID) : Prop :=
  req.lastLogTerm > n.log.lastTerm ∨
    req.lastLogTerm = n.log.lastTerm ∧ req.lastLogIndex ≥ n.log.lastIndex

instance (n : RaftNode NodeID) (req : RequestVoteRequest NodeID) :
    Decidable (n.upToDate req) :=
  inferInstanceAs (Decidable (_ ∨ _))

def handleRequestVote (n : RaftNode NodeID) (req : RequestVoteRequest NodeID) :
    RaftNode NodeID × RequestVoteResponse :=
  if req.term < n.currentTerm then
    (n, { term := n.currentTerm, voteGranted := false })
  else
    let n := if req.term > n.currentTerm then n.becomeFollower req.term else n
    if (n.votedFor = none ∨ n.votedFor = some req.candidateID) ∧
        n.upToDate req then
      ({ n with votedFor := some req.candidateID }.saveState,
        { term := req.term, voteGranted := true })
    else (n, { term := req.term, voteGranted := false })

/-- `HandleRequestVote` up to the write of the vote, if it is granted. -/
def checkVote (n : RaftNode NodeID) (req : RequestVoteRequest NodeID) :
    Option (RaftNode NodeID) :=
  if req.term < n.currentTerm then none
  else
    let n := if req.term > n.currentTerm then n.becomeFollower req.term else n
    if (n.votedFor = none ∨ n.votedFor = some req.candidateID) ∧
        n.upToDate req then some n
    else none

/-- The rest of it. -/
def grantVote (n : RaftNode NodeID) (req : RequestVoteRequest NodeID) :
    RaftNode NodeID × RequestVoteResponse :=
  ({ n with votedFor := some req.candidateID }.saveState,
    { term := req.term, voteGranted := true })

/-!
## Commit and apply
-/

/-- Hand the next entries of the log to the state machine. -/
def applyNext (n : RaftNode NodeID) : Nat -> RaftNode NodeID
  | 0 => n
  | k + 1 =>
    let idx := n.lastApplied + 1
    let n := { n with lastApplied := idx }
    match n.log.get idx with
    | none => n.applyNext k
    | some e =>
      { n with
        fsm := if e.type = EntryType.command then n.fsm ++ [e] else n.fsm
        passed := n.passed ++ [e] }.applyNext k

def applyCommitted (n : RaftNode NodeID) : RaftNode NodeID :=
  n.applyNext (n.commitIndex - n.lastApplied)

/-- The node and the peers known to hold the log up to the index. -/
def replicated (n : RaftNode NodeID) (idx : Nat) : Nat :=
  1 + n.peers.countP (fun p => n.matchIndex p ≥ idx)

/--
The highest of the given number of indices above the commit index that a
majority holds and whose entry is of the current term.
-/
def findCommit (n : RaftNode NodeID) : Nat -> Option Nat
  | 0 => none
  | k + 1 =>
    let idx := n.commitIndex + (k + 1)
    if n.log.termAt idx ≠ n.currentTerm then n.findCommit k
    else if n.replicated idx > (n.peers.length + 1) / 2 then some idx
    else n.findCommit k

def advanceCommitIndex (n : RaftNode NodeID) : RaftNode NodeID :=
  match n.findCommit (n.log.lastIndex - n.commitIndex) with
  | none => n
  | some idx => { n with commitIndex := idx }.applyCommitted

/-!
## Replication
-/

/-- Append a command to the leader's log. -/
def propose (n : RaftNode NodeID) (data : List UInt8) :
    Option (RaftNode NodeID × Nat) :=
  if n.state ≠ .leader then none
  else
    let idx := n.log.lastIndex + 1
    let entry : LogEntry :=
      { index := idx, term := n.currentTerm
        type := EntryType.command, data := data }
    some ({ n with log := n.log.append entry }.saveLog, idx)

/--
The send half of `replicateLog` for one peer.  Term and commit index were read
when the loop over the peers began.
-/
def appendRequest (n : RaftNode NodeID) (term : Nat) (commitIdx : Nat)
    (peer : NodeID) : AppendEntriesRequest NodeID :=
  let nextIdx := n.nextIndex peer
  let prevIdx := nextIdx - 1
  { term := term
    leaderID := n.id
    prevLogIndex := prevIdx
    prevLogTerm := n.log.termAt prevIdx
    entries := n.log.range nextIdx (n.log.lastIndex + 1)
    leaderCommit := commitIdx }

/--
The response half of `replicateLog` for one peer.  The flag tells whether the
loop goes on to the next peer.
-/
def appendResponse (n : RaftNode NodeID) (peer : NodeID)
    (req : AppendEntriesRequest NodeID) (resp : AppendEntriesResponse) :
    RaftNode NodeID × Bool :=
  if resp.term > n.currentTerm then (n.becomeFollower resp.term, false)
  else if resp.success then
    let n :=
      match req.entries.getLast? with
      | none => n
      | some e =>
        { n with
          nextIndex := Function.update n.nextIndex peer (e.index + 1)
          matchIndex := Function.update n.matchIndex peer e.index }
    (n.advanceCommitIndex, true)
  else if resp.conflictIndex > 0 then
    ({ n with
        nextIndex := Function.update n.nextIndex peer resp.conflictIndex },
      true)
  else if n.nextIndex peer > 1 then
    ({ n with
        nextIndex := Function.update n.nextIndex peer (n.nextIndex peer - 1) },
      true)
  else (n, true)

/-- The first index, going down, at which a new term begins. -/
def findConflictIndex (n : RaftNode NodeID) : Nat -> Nat
  | 0 => 1
  | i + 1 =>
    match n.log.get (i + 1) with
    | none => n.findConflictIndex i
    | some e =>
    match n.log.get i with
    | none => i + 1
    | some prev =>
      if prev.term ≠ e.term then i + 1 else n.findConflictIndex i

def advanceTo (n : RaftNode NodeID) (req : AppendEntriesRequest NodeID) :
    RaftNode NodeID :=
  if req.leaderCommit > n.commitIndex then
    let lastNewIdx := req.prevLogIndex + req.entries.length
    let commit :=
      if req.leaderCommit < lastNewIdx then req.leaderCommit else lastNewIdx
    { n with commitIndex := commit }.applyCommitted
  else n

def handleAppendEntries (n : RaftNode NodeID)
    (req : AppendEntriesRequest NodeID) :
    RaftNode NodeID × AppendEntriesResponse :=
  if req.term < n.currentTerm then
    (n, { term := n.currentTerm, success := false
          conflictIndex := 0, conflictTerm := 0 })
  else
    let n := if req.term > n.currentTerm then n.becomeFollower req.term else n
    if req.prevLogIndex > 0 ∧
        n.log.termAt req.prevLogIndex ≠ req.prevLogTerm then
      (n, { term := req.term, success := false
            conflictIndex := n.findConflictIndex req.prevLogIndex
            conflictTerm := n.log.termAt req.prevLogIndex })
    else
      let n :=
        { n with
          log := n.log.appendEntries (req.prevLogIndex + 1) req.entries
        }.saveLog
      (n.advanceTo req,
        { term := req.term, success := true
          conflictIndex := 0, conflictTerm := 0 })

end Peers

end RaftNode

end Raft
end ChimeraMQ
