import ChimeraMQ.Replication.Follower

/-!
# Replication by the leader

The set of in-sync replicas and the replicator of a partition.  A write is
replicated in three parts, between which other things may happen: it begins,
the answers of the followers arrive one by one, and it ends.  Only whether a
transport has been set is modelled of it here.
-/

namespace ChimeraMQ
namespace Replication

open Foundation

inductive AckPolicy where
  | ackLeader
  | ackQuorum
  | ackAll
deriving DecidableEq

structure ReplicaState (NodeID : Type) where
  nodeID : NodeID
  leo : UInt64
  active : Bool
deriving DecidableEq

structure ISRSet (NodeID : Type) where
  leaderID : NodeID
  replicas : List (NodeID × ReplicaState NodeID)
  isr : List NodeID
  maxLag : Int64

namespace ISRSet

variable {NodeID : Type} [DecidableEq NodeID]

def newISRSet (leaderID : NodeID) (maxLag : Int64) : ISRSet NodeID where
  leaderID := leaderID
  replicas := []
  isr := []
  maxLag := maxLag

def addReplica (isr : ISRSet NodeID) (nodeID : NodeID) : ISRSet NodeID :=
  { isr with
    replicas := setEntry nodeID ⟨nodeID, 0, true⟩ isr.replicas
    isr := isr.isr.insert nodeID }

def removeReplica (isr : ISRSet NodeID) (nodeID : NodeID) : ISRSet NodeID :=
  { isr with
    replicas := deleteEntry nodeID isr.replicas
    isr := isr.isr.erase nodeID }

def updateLEO (isr : ISRSet NodeID) (nodeID : NodeID) (leo : UInt64) :
    ISRSet NodeID :=
  match getEntry nodeID isr.replicas with
  | none => isr
  | some state =>
    { isr with
      replicas := setEntry nodeID { state with leo := leo, active := true }
        isr.replicas }

def shrinkISR (isr : ISRSet NodeID) (nodeID : NodeID) : ISRSet NodeID :=
  { isr with isr := isr.isr.erase nodeID }

def expandISR (isr : ISRSet NodeID) (nodeID : NodeID) : ISRSet NodeID × Bool :=
  match getEntry nodeID isr.replicas with
  | none => (isr, false)
  | some state =>
    if state.active then
      ({ isr with isr := isr.isr.insert nodeID }, true)
    else (isr, false)

/-- Leave a replica that lags behind out, or let one that does not in. -/
def updateReplica (leaderHW : UInt64) (isr : ISRSet NodeID)
    (e : NodeID × ReplicaState NodeID) : ISRSet NodeID :=
  if e.1 = isr.leaderID then isr
  else
    let lag := leaderHW.toInt64 - e.2.leo.toInt64
    if e.1 ∈ isr.isr ∧ isr.maxLag < lag then
      { isr with isr := isr.isr.erase e.1 }
    else if e.1 ∉ isr.isr ∧ lag ≤ isr.maxLag ∧ e.2.active then
      { isr with isr := isr.isr.insert e.1 }
    else isr

def updateISR (isr : ISRSet NodeID) (leaderHW : UInt64) : ISRSet NodeID :=
  isr.replicas.foldl (updateReplica leaderHW) isr

def reached (isr : ISRSet NodeID) (offset : UInt64) : List NodeID :=
  isr.isr.filter (fun id =>
    id ≠ isr.leaderID &&
      match getEntry id isr.replicas with
      | none => false
      | some state => offset ≤ state.leo)

def hasQuorum (isr : ISRSet NodeID) (offset : UInt64) : Bool :=
  let count := 1 + (isr.reached offset).length
  let isrSize := isr.isr.length + 1
  count > isrSize / 2

def leoOf (isr : ISRSet NodeID) (nodeID : NodeID) : UInt64 :=
  ((getEntry nodeID isr.replicas).map ReplicaState.leo).getD 0

theorem leoOf_updateLEO_ne {isr : ISRSet NodeID} {nodeID id : NodeID}
    (hne : id ≠ nodeID) (leo : UInt64) :
    (isr.updateLEO nodeID leo).leoOf id = isr.leoOf id := by
  unfold updateLEO leoOf
  cases getEntry nodeID isr.replicas with
  | none => rfl
  | some state =>
  simp only
  rw [getEntry_setEntry_ne hne]

theorem leoOf_addReplica_le (isr : ISRSet NodeID) (nodeID id : NodeID) :
    (isr.addReplica nodeID).leoOf id ≤ isr.leoOf id := by
  unfold addReplica leoOf
  by_cases heq : id = nodeID
  · rw [heq, getEntry_setEntry]
    exact UInt64.zero_le
  · rw [getEntry_setEntry_ne heq]
    exact UInt64.le_refl _

theorem leoOf_removeReplica_le (isr : ISRSet NodeID) (nodeID id : NodeID) :
    (isr.removeReplica nodeID).leoOf id ≤ isr.leoOf id := by
  unfold removeReplica leoOf
  by_cases heq : id = nodeID
  · rw [heq, getEntry_deleteEntry]
    exact UInt64.zero_le
  · rw [getEntry_deleteEntry_ne heq]
    exact UInt64.le_refl _

theorem replicas_updateReplica (leaderHW : UInt64) (isr : ISRSet NodeID)
    (e : NodeID × ReplicaState NodeID) :
    (updateReplica leaderHW isr e).replicas = isr.replicas := by
  simp only [updateReplica]
  split
  · rfl
  split
  · rfl
  · split
    · rfl
    · rfl

theorem replicas_foldl_updateReplica (leaderHW : UInt64)
    (entries : List (NodeID × ReplicaState NodeID)) (isr : ISRSet NodeID) :
    (entries.foldl (updateReplica leaderHW) isr).replicas = isr.replicas := by
  induction entries generalizing isr with
  | nil => rfl
  | cons e rest ih =>
    rw [List.foldl_cons, ih, replicas_updateReplica]

theorem leoOf_updateISR (isr : ISRSet NodeID) (leaderHW : UInt64)
    (id : NodeID) : (isr.updateISR leaderHW).leoOf id = isr.leoOf id := by
  unfold leoOf updateISR
  rw [replicas_foldl_updateReplica]

theorem le_leoOf_of_mem_reached {isr : ISRSet NodeID} {offset : UInt64}
    {id : NodeID} (h : id ∈ isr.reached offset) : offset ≤ isr.leoOf id := by
  have hcounted := (Bool.and_eq_true_iff.mp (List.mem_filter.mp h).right).right
  unfold leoOf
  cases hget : getEntry id isr.replicas with
  | none =>
    rw [hget] at hcounted
    cases hcounted
  | some state =>
  rw [hget] at hcounted
  exact of_decide_eq_true hcounted

end ISRSet

structure Replicator (NodeID : Type) where
  topic : Bytes
  partition : UInt32
  leaderID : NodeID
  epoch : UInt64
  policy : AckPolicy
  isr : ISRSet NodeID
  hw : UInt64
  transport : Bool

/-- Why a write was not acknowledged. -/
inductive AckError where
  | quorumNotReached (topic : Bytes) (partition : UInt32) (offset : UInt64)
  | notAllConfirmed (topic : Bytes) (partition : UInt32)
deriving DecidableEq

namespace Replicator

variable {NodeID : Type} [DecidableEq NodeID]

def newReplicator (topic : Bytes) (partition : UInt32) (leaderID : NodeID)
    (policy : AckPolicy) (maxLag : Int64) : Replicator NodeID where
  topic := topic
  partition := partition
  leaderID := leaderID
  epoch := 0
  policy := policy
  isr := .newISRSet leaderID maxLag
  hw := 0
  transport := false

def setTransport (r : Replicator NodeID) (present : Bool) : Replicator NodeID :=
  { r with transport := present }

def setEpoch (r : Replicator NodeID) (epoch : UInt64) : Replicator NodeID :=
  { r with epoch := epoch }

def checkISRHealth (r : Replicator NodeID) : Replicator NodeID :=
  { r with isr := r.isr.updateISR r.hw }

def request (r : Replicator NodeID) (data : Bytes) (offset : UInt64) :
    ReplicateRequest where
  topic := r.topic
  partition := r.partition
  epoch := r.epoch
  offset := offset
  data := data

def targets (r : Replicator NodeID) : List NodeID :=
  r.isr.isr.filter (fun id => id ≠ r.leaderID)

def beginWrite (r : Replicator NodeID) (offset : UInt64) : Replicator NodeID :=
  { r with hw := offset + 1 }

def confirm (r : Replicator NodeID) (nodeID : NodeID) (offset : UInt64) :
    Replicator NodeID :=
  { r with isr := r.isr.updateLEO nodeID (offset + 1) }

def endWrite (r : Replicator NodeID) (offset : UInt64) (errors : Nat) :
    Except AckError Unit :=
  match r.policy with
  | .ackLeader => .ok ()
  | .ackQuorum =>
    if r.isr.hasQuorum (offset + 1) then .ok ()
    else .error (.quorumNotReached r.topic r.partition offset)
  | .ackAll =>
    if errors = 0 then .ok ()
    else .error (.notAllConfirmed r.topic r.partition)

end Replicator

end Replication
end ChimeraMQ
