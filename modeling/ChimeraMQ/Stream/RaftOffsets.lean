import ChimeraMQ.Raft.Snapshot
import ChimeraMQ.Stream.OffsetStore

/-!
# Offsets through Raft

A store that proposes offsets to the Raft node of the process and remembers
them.  When the entry is committed, the state machine does nothing with it, so
that the offset gets neither to the files nor to the other nodes.
-/

namespace ChimeraMQ
namespace Stream

open Foundation
open Raft

variable {NodeID : Type}

structure OffsetCommand where
  group : Bytes
  partitionID : Nat
  offset : Nat
deriving DecidableEq

structure RaftOffsetStore (NodeID : Type) where
  localStore : OffsetStore
  raftNode : Option (SnapshotNode NodeID)

namespace RaftOffsetStore

def saveLocal (s : RaftOffsetStore NodeID) (group : Bytes)
    (partitionID offset : Nat) :
    RaftOffsetStore NodeID × Option GroupNameError :=
  let r := s.localStore.save group partitionID offset
  ({ s with localStore := r.1 }, r.2)

/--
Save an offset: a leader proposes it and remembers it, and all others write it
to the local store.
-/
def save (encode : OffsetCommand -> Option Bytes) (s : RaftOffsetStore NodeID)
    (group : Bytes) (partitionID offset : Nat) :
    RaftOffsetStore NodeID × Option GroupNameError :=
  match s.raftNode with
  | none => s.saveLocal group partitionID offset
  | some r =>
  if r.node.state ≠ .leader then s.saveLocal group partitionID offset
  else
    match encode
      { group := group, partitionID := partitionID, offset := offset }
      with
    | none => s.saveLocal group partitionID offset
    | some cmdBytes =>
      match r.node.propose cmdBytes with
      | none => s.saveLocal group partitionID offset
      | some (node, _) =>
        ({ localStore := s.localStore.remember group partitionID offset
           raftNode := some { r with node := node } }, none)

def get (s : RaftOffsetStore NodeID) (group : Bytes) (partitionID : Nat) :
    Nat :=
  s.localStore.get group partitionID

def reopened (s : RaftOffsetStore NodeID) : OffsetStore :=
  OffsetStore.newOffsetStore s.localStore.files

/-!
## Steps of a node
-/


/--
What happens to a node: an offset is saved, the Raft node handles a message or
goes on with a snapshot, or the node crashes and starts again.
-/
inductive Action (NodeID : Type) where
  | save (group : Bytes) (partitionID offset : Nat)
  | raft (a : SnapshotAction NodeID)
  | restart

/--
One step of a node.  The Raft node applies what it commits to its metadata only;
there is no way from it to the store.
-/
def step [DecidableEq NodeID] (encode : OffsetCommand -> Option Bytes)
    (decode : Bytes -> Option (Command NodeID)) (s : RaftOffsetStore NodeID) :
    Action NodeID -> Option (RaftOffsetStore NodeID)
  | .save group partitionID offset =>
    some (s.save encode group partitionID offset).1
  | .raft a =>
    match s.raftNode with
    | none => none
    | some r =>
      match r.step decode a with
      | none => none
      | some r => some { s with raftNode := some r }
  | .restart =>
    match s.raftNode with
    | none => some { s with localStore := s.reopened }
    | some r =>
      match r.restart with
      | none => none
      | some r => some { localStore := s.reopened, raftNode := some r }

def Proposed (encode : OffsetCommand -> Option Bytes)
    (s : RaftOffsetStore NodeID) : Action NodeID -> Prop
  | .save group partitionID offset => exists r cmdBytes node,
      s.raftNode = some r ∧ r.node.state = .leader ∧
      encode { group := group, partitionID := partitionID, offset := offset } =
        some cmdBytes ∧ r.node.propose cmdBytes = some node
  | .raft _ | .restart => True

def savedBy (group : Bytes) (partitionID : Nat) : Action NodeID -> Option Nat
  | .save g id offset =>
    if g = group ∧ id = partitionID then some offset else none
  | .raft _ | .restart => none

def lastSaved (actions : List (Action NodeID)) (group : Bytes)
    (partitionID : Nat) : Option Nat :=
  (actions.filterMap (savedBy group partitionID)).getLast?

/--
What was saved last is read after a restart of the node, and on another node.
-/
def Durable (actions : List (Action NodeID))
    (s other : RaftOffsetStore NodeID) : Prop :=
  forall group partitionID offset,
    lastSaved actions group partitionID = some offset ->
      s.reopened.get group partitionID = offset ∧
        other.get group partitionID = offset

/-!
## Where offsets are written
-/

variable {encode : OffsetCommand -> Option Bytes} {s : RaftOffsetStore NodeID}

theorem files_save_proposed {group : Bytes} {partitionID offset : Nat}
    (h : Proposed encode s (.save group partitionID offset)) :
    (s.save encode group partitionID offset).1.localStore.files =
      s.localStore.files := by
  rcases h with ⟨r, cmdBytes, node, hr, hleader, hencode, hpropose⟩
  unfold save
  simp only [hr, hleader, hencode, hpropose, ne_eq, not_true_eq_false, if_false]
  rfl

variable [DecidableEq NodeID]

variable {decode : Bytes -> Option (Command NodeID)}

theorem localStore_step_raft {s' : RaftOffsetStore NodeID}
    {a : SnapshotAction NodeID}
    (hstep : s.step encode decode (.raft a) = some s') :
    s'.localStore = s.localStore := by
  unfold step at hstep
  cases hr : s.raftNode with
  | none =>
    rw [hr] at hstep
    cases hstep
  | some r =>
  simp only [hr] at hstep
  cases hnext : r.step decode a with
  | none =>
    rw [hnext] at hstep
    cases hstep
  | some r' =>
  rw [hnext] at hstep
  cases hstep
  rfl

theorem files_step {s' : RaftOffsetStore NodeID} {a : Action NodeID}
    (hproposed : Proposed encode s a) (hstep : s.step encode decode a = some s') :
    s'.localStore.files = s.localStore.files := by
  cases a with
  | save group partitionID offset =>
    cases hstep
    exact files_save_proposed hproposed
  | raft a => rw [localStore_step_raft hstep]
  | restart =>
  unfold step at hstep
  cases hr : s.raftNode with
  | none =>
    simp only [hr] at hstep
    cases hstep
    rfl
  | some r =>
  simp only [hr] at hstep
  cases hnext : r.restart with
  | none =>
    rw [hnext] at hstep
    cases hstep
  | some r' =>
  rw [hnext] at hstep
  cases hstep
  rfl

theorem files_run {t : RaftOffsetStore NodeID} {actions : List (Action NodeID)}
    (hproposed : Meets (step encode decode) (Proposed encode) s actions)
    (hrun : run? (step encode decode) s actions = some t) :
    t.localStore.files = s.localStore.files := by
  have hkeep : forall (u : RaftOffsetStore NodeID) a u',
      u.localStore.files = s.localStore.files -> Proposed encode u a ->
      step encode decode u a = some u' ->
      u'.localStore.files = s.localStore.files := by
    intro u a u' hu hprop hone
    exact (files_step hprop hone).trans hu
  exact run?_invariant_of_meets hkeep rfl hproposed hrun

theorem localStore_run_raft {t : RaftOffsetStore NodeID}
    {actions : List (SnapshotAction NodeID)}
    (hrun : run? (step encode decode) s (actions.map .raft) = some t) :
    t.localStore = s.localStore := by
  induction actions generalizing s with
  | nil =>
    cases hrun
    rfl
  | cons a rest ih =>
  rcases run?_cons_some hrun with ⟨s', hone, hrest⟩
  exact (ih hrest).trans (localStore_step_raft hone)

/--
Offsets that the leader proposes are durable exactly if they are those that its
files and the other node had before.
-/
theorem durable_iff_held {encode : OffsetCommand -> Option Bytes}
    {decode : Bytes -> Option (Command NodeID)}
    {s t u v : RaftOffsetStore NodeID} {actions : List (Action NodeID)}
    {others : List (SnapshotAction NodeID)}
    (hproposed : Meets (step encode decode) (Proposed encode) s actions)
    (hrun : run? (step encode decode) s actions = some t)
    (hother : run? (step encode decode) u (others.map .raft) = some v) :
    Durable actions t v <-> Durable actions s u := by
  have hreopened : t.reopened = s.reopened := by
    unfold reopened
    rw [files_run hproposed hrun]
  have hsame : v.localStore = u.localStore := localStore_run_raft hother
  unfold Durable get
  rw [hreopened, hsame]

/-- The JSON of the command for an offset, if the group needs no escapes. -/
def encodeOffset (c : OffsetCommand) : Option Bytes :=
  some (ascii "\x7b\"type\":\"commit_offset\",\"data\":\x7b\"group\":\"" ++
    c.group ++ ascii "\",\"partition_id\":" ++
    ascii (String.ofList (Nat.toDigits 10 c.partitionID)) ++
    ascii ",\"offset\":" ++
    ascii (String.ofList (Nat.toDigits 10 c.offset)) ++ ascii "\x7d\x7d")

def decodeOffset (_ : Bytes) : Option (Command Nat) :=
  some .commitOffset

def newNode (files : List (Bytes × Offsets)) (id : Nat) (peers : List Nat) :
    RaftOffsetStore Nat where
  localStore := OffsetStore.newOffsetStore files
  raftNode := some (SnapshotNode.initial id peers 1000)

def savedRun : List (Action Nat) :=
  [.raft (.handle .startElection),
    .raft (.handle (.voteResponse
      { term := 1, candidateID := 0, lastLogIndex := 0, lastLogTerm := 0 }
      { term := 1, voteGranted := true })),
    .save (ascii "g") 0 7]

def requestTo (s : RaftOffsetStore Nat) : AppendEntriesRequest Nat :=
  match s.raftNode with
  | none =>
    { term := 0, leaderID := 0, prevLogIndex := 0, prevLogTerm := 0,
      entries := [], leaderCommit := 0 }
  | some r => r.node.appendRequest r.node.currentTerm r.node.commitIndex 1

def leaderAfter (actions : List (Action Nat)) : RaftOffsetStore Nat :=
  (run? (step encodeOffset decodeOffset) (newNode [] 0 [1, 2])
    actions).getD (newNode [] 0 [1, 2])

def committedRun : List (Action Nat) :=
  savedRun ++
    [.raft (.handle (.appendResponse 1 (requestTo (leaderAfter savedRun))
      { term := 1, success := true, conflictIndex := 0, conflictTerm := 0 }))]

def followerRun : List (SnapshotAction Nat) :=
  [.handle (.handleAppendEntries (requestTo (leaderAfter savedRun))),
    .handle (.handleAppendEntries (requestTo (leaderAfter committedRun)))]

/-- How much a node has committed and applied, and the commands among it. -/
def appliedBy (s : RaftOffsetStore Nat) : Option (Nat × Nat × Nat) :=
  s.raftNode.map (fun r =>
    (r.node.commitIndex, r.node.lastApplied, r.node.fsm.length))

theorem meets_proposed_committedRun (files : List (Bytes × Offsets)) :
    Meets (step encodeOffset decodeOffset) (Proposed encodeOffset)
      (newNode files 0 [1, 2]) committedRun := by
  apply meets_cons trivial rfl
  apply meets_cons trivial rfl
  apply meets_cons ⟨_, _, _, rfl, rfl, rfl, rfl⟩ rfl
  exact meets_cons trivial rfl trivial

theorem exists_committedRun (files : List (Bytes × Offsets)) :
    exists t, run? (step encodeOffset decodeOffset) (newNode files 0 [1, 2])
      committedRun = some t :=
  ⟨_, rfl⟩

theorem exists_followerRun (files : List (Bytes × Offsets)) :
    exists v, run? (step encodeOffset decodeOffset) (newNode files 1 [0, 2])
      (followerRun.map .raft) = some v :=
  ⟨_, rfl⟩

/-- Two nodes that have the offset from before. -/
theorem durable_held : exists t v : RaftOffsetStore Nat,
    run? (step encodeOffset decodeOffset)
        (newNode [(ascii "g", [(0, 7)])] 0 [1, 2]) committedRun = some t ∧
      run? (step encodeOffset decodeOffset)
        (newNode [(ascii "g", [(0, 7)])] 1 [0, 2])
        (followerRun.map .raft) = some v ∧
      Durable committedRun t v := by
  rcases exists_committedRun [(ascii "g", [(0, 7)])] with ⟨t, ht⟩
  rcases exists_followerRun [(ascii "g", [(0, 7)])] with ⟨v, hv⟩
  refine ⟨t, v, ht, hv, ?_⟩
  apply (durable_iff_held (meets_proposed_committedRun _) ht hv).mpr
  intro group partitionID offset hlast
  have hsaved : committedRun.filterMap (savedBy group partitionID) =
      if ascii "g" = group ∧ 0 = partitionID then [7] else [] := by
    by_cases hkey : ascii "g" = group ∧ 0 = partitionID
    · simp only [committedRun, savedRun, List.cons_append, List.nil_append,
        List.filterMap_cons, List.filterMap_nil, savedBy, if_pos hkey]
    · simp only [committedRun, savedRun, List.cons_append, List.nil_append,
        List.filterMap_cons, List.filterMap_nil, savedBy, if_neg hkey]
  unfold lastSaved at hlast
  rw [hsaved] at hlast
  by_cases hkey : ascii "g" = group ∧ 0 = partitionID
  · rw [if_pos hkey] at hlast
    cases hlast
    rw [← hkey.left, ← hkey.right]
    exact ⟨by decide, by decide⟩
  · rw [if_neg hkey] at hlast
    cases hlast

/--
A saved offset that both nodes have committed and applied is lost in a restart,
and the other node does not know it.
-/
theorem not_durable_committed :
    (run? (step encodeOffset decodeOffset) (newNode [] 0 [1, 2])
        committedRun).bind appliedBy = some (2, 2, 1) ∧
      (run? (step encodeOffset decodeOffset) (newNode [] 1 [0, 2])
        (followerRun.map .raft)).bind appliedBy = some (2, 2, 1) ∧
      lastSaved committedRun (ascii "g") 0 = some 7 ∧
      ¬ forall t v : RaftOffsetStore Nat,
        run? (step encodeOffset decodeOffset) (newNode [] 0 [1, 2])
          committedRun = some t ->
        run? (step encodeOffset decodeOffset) (newNode [] 1 [0, 2])
          (followerRun.map .raft) = some v ->
        Durable committedRun t v := by
  have hlast : lastSaved committedRun (ascii "g") 0 = some 7 := by
    rfl
  refine ⟨by rfl, by rfl, hlast, ?_⟩
  intro h
  rcases exists_committedRun [] with ⟨t, ht⟩
  rcases exists_followerRun [] with ⟨v, hv⟩
  have hread := (h t v ht hv (ascii "g") 0 7 hlast).left
  have hfiles := files_run (meets_proposed_committedRun []) ht
  unfold reopened at hread
  rw [hfiles] at hread
  cases hread

end RaftOffsetStore

end Stream
end ChimeraMQ
