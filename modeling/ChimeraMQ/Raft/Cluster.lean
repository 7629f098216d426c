import ChimeraMQ.Raft.Node
import ChimeraMQ.Foundation.Run

/-!
# A cluster of Raft nodes

The nodes of a cluster and the network between them.  A sent request and a sent
response stay in the network for ever, so either may arrive late, twice, out of
order or not at all.  An RPC returns to its caller at most once: the calls that
have not returned are remembered, and a response is processed only for such a
call.  A crash forgets the calls of the node, as their goroutines are gone.
-/

namespace ChimeraMQ
namespace Raft

structure Membership (NodeID : Type) where
  peers : NodeID -> List NodeID
  nodup : forall n, (peers n).Nodup
  mem_peers : forall n m, m ∈ peers n <-> m ≠ n

structure VoteCall (NodeID : Type) where
  caller : NodeID
  peer : NodeID
  req : RequestVoteRequest NodeID

/--
An AppendEntries call, with the peers that the caller's `replicateLog` has
still to serve after this one.
-/
structure AppendCall (NodeID : Type) where
  caller : NodeID
  peer : NodeID
  req : AppendEntriesRequest NodeID
  rest : List NodeID

/--
The nodes and the network.  A call is named by its position in the list of its
kind; a reply names the call that it answers.
-/
structure Cluster (NodeID : Type) where
  nodes : NodeID -> RaftNode NodeID
  voteCalls : List (VoteCall NodeID)
  voteWaiting : List Nat
  voteReplies : List (Nat × RequestVoteResponse)
  appendCalls : List (AppendCall NodeID)
  appendWaiting : List Nat
  appendReplies : List (Nat × AppendEntriesResponse)

/-- What can happen next in a cluster. -/
inductive Action (NodeID : Type) where
  | startElection (n : NodeID)
  | handleRequestVote (call : Nat)
  | voteResponse (reply : Nat)
  | propose (n : NodeID) (data : List UInt8)
  | replicateLog (n : NodeID)
  | handleAppendEntries (call : Nat)
  | appendResponse (reply : Nat)
  | becomeFollower (n : NodeID) (term : Nat)
  | restart (n : NodeID)

namespace Cluster

variable {NodeID : Type} [DecidableEq NodeID]

def initial (M : Membership NodeID) : Cluster NodeID where
  nodes := fun n =>
    (RaftNode.newRaftNode n (M.peers n) { state := none, log := none } []).start
  voteCalls := []
  voteWaiting := []
  voteReplies := []
  appendCalls := []
  appendWaiting := []
  appendReplies := []

def setNode (c : Cluster NodeID) (n : NodeID) (node : RaftNode NodeID) :
    Cluster NodeID :=
  { c with nodes := Function.update c.nodes n node }

def sendRequestVote (c : Cluster NodeID) (n : NodeID)
    (req : RequestVoteRequest NodeID) (peers : List NodeID) :
    Cluster NodeID :=
  { c with
    voteCalls := c.voteCalls ++ peers.map (fun p => ⟨n, p, req⟩)
    voteWaiting :=
      c.voteWaiting ++ List.range' c.voteCalls.length peers.length }

/--
The next send half of a `replicateLog` that runs with the given term and commit
index, if there is a peer left to serve.
-/
def sendAppendEntries (c : Cluster NodeID) (n : NodeID) (term : Nat)
    (commitIdx : Nat) : List NodeID -> Cluster NodeID
  | [] => c
  | p :: rest =>
    { c with
      appendCalls := c.appendCalls ++
        [⟨n, p, (c.nodes n).appendRequest term commitIdx p, rest⟩]
      appendWaiting := c.appendWaiting ++ [c.appendCalls.length] }

def startElection (c : Cluster NodeID) (n : NodeID) : Cluster NodeID :=
  let r := (c.nodes n).startElection
  (c.setNode n r.1).sendRequestVote n r.2.1 r.2.2

def handleRequestVote (c : Cluster NodeID) (call : Nat) :
    Option (Cluster NodeID) :=
  match c.voteCalls[call]? with
  | none => none
  | some m =>
    let r := (c.nodes m.peer).handleRequestVote m.req
    let c := c.setNode m.peer r.1
    some { c with voteReplies := c.voteReplies ++ [(call, r.2)] }

def voteResponse (c : Cluster NodeID) (reply : Nat) :
    Option (Cluster NodeID) :=
  match c.voteReplies[reply]? with
  | none => none
  | some (call, resp) =>
  if call ∉ c.voteWaiting then none
  else
    match c.voteCalls[call]? with
    | none => none
    | some m =>
    let c := { c with
      voteWaiting := c.voteWaiting.filter (fun i => i ≠ call) }
    some (c.setNode m.caller
      ((c.nodes m.caller).voteResponse m.req resp))

def propose (c : Cluster NodeID) (n : NodeID) (data : List UInt8) :
    Option (Cluster NodeID) :=
  match (c.nodes n).propose data with
  | none => none
  | some (node, _) => some (c.setNode n node)

/-- A leader begins to send its log to its peers. -/
def replicateLog (c : Cluster NodeID) (n : NodeID) : Cluster NodeID :=
  if (c.nodes n).state ≠ .leader then c
  else
    c.sendAppendEntries n (c.nodes n).currentTerm (c.nodes n).commitIndex
      (c.nodes n).peers

def handleAppendEntries (c : Cluster NodeID) (call : Nat) :
    Option (Cluster NodeID) :=
  match c.appendCalls[call]? with
  | none => none
  | some m =>
    let r := (c.nodes m.peer).handleAppendEntries m.req
    let c := c.setNode m.peer r.1
    some { c with appendReplies := c.appendReplies ++ [(call, r.2)] }

/--
The reply to an AppendEntries request that has not returned reaches the caller,
which goes on to its next peer before it releases its mutex.
-/
def appendResponse (c : Cluster NodeID) (reply : Nat) :
    Option (Cluster NodeID) :=
  match c.appendReplies[reply]? with
  | none => none
  | some (call, resp) =>
  if call ∉ c.appendWaiting then none
  else
    match c.appendCalls[call]? with
    | none => none
    | some m =>
    let c := { c with
      appendWaiting := c.appendWaiting.filter (fun i => i ≠ call) }
    let r := (c.nodes m.caller).appendResponse m.peer m.req resp
    let c := c.setNode m.caller r.1
    some (if r.2 then
      c.sendAppendEntries m.caller m.req.term m.req.leaderCommit m.rest
    else c)

def restart (c : Cluster NodeID) (n : NodeID) : Cluster NodeID :=
  let c := c.setNode n (c.nodes n).restart
  { c with
    voteWaiting := c.voteWaiting.filter
      (fun i => (c.voteCalls[i]?.map VoteCall.caller) ≠ some n)
    appendWaiting := c.appendWaiting.filter
      (fun i => (c.appendCalls[i]?.map AppendCall.caller) ≠ some n) }

def step (c : Cluster NodeID) : Action NodeID -> Option (Cluster NodeID)
  | .startElection n => some (c.startElection n)
  | .handleRequestVote call => c.handleRequestVote call
  | .voteResponse reply => c.voteResponse reply
  | .propose n data => c.propose n data
  | .replicateLog n => some (c.replicateLog n)
  | .handleAppendEntries call => c.handleAppendEntries call
  | .appendResponse reply => c.appendResponse reply
  | .becomeFollower n term =>
    some (c.setNode n ((c.nodes n).becomeFollower term))
  | .restart n => some (c.restart n)

/-- The node whose mutex an action takes. -/
def mutexOf (c : Cluster NodeID) : Action NodeID -> Option NodeID
  | .startElection n | .propose n _ | .replicateLog n | .becomeFollower n _ =>
    some n
  | .handleRequestVote call => (c.voteCalls[call]?).map VoteCall.peer
  | .voteResponse reply => c.voteReplies[reply]?.bind
      (fun r => c.voteCalls[r.1]?.map VoteCall.caller)
  | .handleAppendEntries call => c.appendCalls[call]?.map AppendCall.peer
  | .appendResponse reply => c.appendReplies[reply]?.bind
      (fun r => c.appendCalls[r.1]?.map AppendCall.caller)
  | .restart _ => none

end Cluster

/-!
## Mutexes

A call that fails makes `replicateLog` go on without the mutex of its node and
unlock it once more, before the next call or at its end.  If the mutex is free
then, the process dies; if a goroutine has it, that one goes on as if it still
had it.
-/

/--
A goroutine between the lock and the unlock of the mutex of a node: one that
grants the vote of a call, or one that has only read.
-/
structure Holder (NodeID : Type) where
  node : NodeID
  vote : Option Nat
deriving DecidableEq

structure MutexCluster (NodeID : Type) where
  cluster : Cluster NodeID
  locked : NodeID -> Bool
  holders : List (Holder NodeID)

/--
What can happen next: an action that takes the mutex, runs and releases it, or
a part of one during which something else may happen.
-/
inductive MutexAction (NodeID : Type) where
  | run (a : Action NodeID)
  | lock (n : NodeID)
  | unlock (n : NodeID)
  | checkVote (call : Nat)
  | grantVote (call : Nat)
  | appendFailed (call : Nat)

namespace MutexCluster

variable {NodeID : Type} [DecidableEq NodeID]

def initial (M : Membership NodeID) : MutexCluster NodeID where
  cluster := Cluster.initial M
  locked := fun _ => false
  holders := []

def setLocked (s : MutexCluster NodeID) (n : NodeID) (b : Bool) :
    MutexCluster NodeID :=
  { s with locked := Function.update s.locked n b }

/-- Crash: the mutex and the goroutines are gone as well. -/
def restart (s : MutexCluster NodeID) (n : NodeID) : MutexCluster NodeID :=
  { s.setLocked n false with
    cluster := s.cluster.restart n
    holders := s.holders.filter (fun h => h.node ≠ n) }

def lock (s : MutexCluster NodeID) (h : Holder NodeID) :
    Option (MutexCluster NodeID) :=
  if s.locked h.node then none
  else some { s.setLocked h.node true with holders := h :: s.holders }

/--
The unlock of a mutex that is free ends the process; otherwise the goroutine
goes on, and the cluster becomes what it makes of it.
-/
def unlock (s : MutexCluster NodeID) (n : NodeID) (after : Cluster NodeID) :
    MutexCluster NodeID :=
  if s.locked n then { s.setLocked n false with cluster := after }
  else s.restart n

def leave (s : MutexCluster NodeID) (h : Holder NodeID)
    (after : Cluster NodeID) : Option (MutexCluster NodeID) :=
  if h ∉ s.holders then none
  else some ({ s with holders := s.holders.erase h }.unlock h.node after)

def checkVote (s : MutexCluster NodeID) (call : Nat) :
    Option (MutexCluster NodeID) :=
  match s.cluster.voteCalls[call]? with
  | none => none
  | some m =>
  match (s.cluster.nodes m.peer).checkVote m.req with
  | none => none
  | some node =>
    { s with cluster := s.cluster.setNode m.peer node }.lock
      ⟨m.peer, some call⟩

def grantVote (s : MutexCluster NodeID) (call : Nat) :
    Option (MutexCluster NodeID) :=
  match s.cluster.voteCalls[call]? with
  | none => none
  | some m =>
  let r := (s.cluster.nodes m.peer).grantVote m.req
  let c := s.cluster.setNode m.peer r.1
  { s with cluster := c }.leave ⟨m.peer, some call⟩
    { c with voteReplies := c.voteReplies ++ [(call, r.2)] }

/--
A call fails, and the loop that made it unlocks the mutex: with the request to
its next peer, if there is one, or at its end.
-/
def appendFailed (s : MutexCluster NodeID) (call : Nat) :
    Option (MutexCluster NodeID) :=
  if call ∉ s.cluster.appendWaiting then none
  else
    match s.cluster.appendCalls[call]? with
    | none => none
    | some m =>
    let c := { s.cluster with
      appendWaiting := s.cluster.appendWaiting.filter (fun i => i ≠ call) }
    some (s.unlock m.caller (c.sendAppendEntries m.caller m.req.term
      m.req.leaderCommit m.rest))

def step (s : MutexCluster NodeID) :
    MutexAction NodeID -> Option (MutexCluster NodeID)
  | .run (.restart n) => some (s.restart n)
  | .run a =>
    if (s.cluster.mutexOf a).any s.locked then none
    else (s.cluster.step a).map (fun c => { s with cluster := c })
  | .lock n => s.lock ⟨n, none⟩
  | .unlock n => s.leave ⟨n, none⟩ s.cluster
  | .checkVote call => s.checkVote call
  | .grantVote call => s.grantVote call
  | .appendFailed call => s.appendFailed call

end MutexCluster

end Raft
end ChimeraMQ
