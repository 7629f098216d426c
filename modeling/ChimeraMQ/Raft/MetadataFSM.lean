import ChimeraMQ.Foundation.Decimal
import ChimeraMQ.Foundation.Entries
import ChimeraMQ.Raft.Log

/-!
# The metadata state machine

The cluster metadata that the committed commands build: topics, partition
assignments and consumer groups.  The maps are lists of entries; the JSON of a
command and of a snapshot is taken as the data that it stands for.
-/

namespace ChimeraMQ
namespace Raft

open Foundation

variable {NodeID : Type}

structure TopicEntry (NodeID : Type) where
  name : List Char
  mode : List Char
  partitions : Nat
  replicaSet : List NodeID
deriving DecidableEq

structure PartitionAssignment (NodeID : Type) where
  topic : List Char
  partition : Nat
  leader : NodeID
  replicas : List NodeID
deriving DecidableEq

structure GroupMember where
  id : List Char
  topics : List (List Char)
  partitions : List Nat
deriving DecidableEq

structure GroupEntry where
  name : List Char
  members : List (List Char × GroupMember)
deriving DecidableEq

/-- A metadata operation; commands of other types change nothing. -/
inductive Command (NodeID : Type) where
  | createTopic (entry : TopicEntry NodeID)
  | deleteTopic (name : List Char)
  | assignPartition (assignment : PartitionAssignment NodeID)
  | joinGroup (group member : List Char) (topics : List (List Char))
  | leaveGroup (group member : List Char)
  | commitOffset
  | other

structure MetadataFSM (NodeID : Type) where
  topics : List (List Char × TopicEntry NodeID)
  assignments : List (List Char × PartitionAssignment NodeID)
  groups : List (List Char × GroupEntry)
deriving DecidableEq

def newMetadataFSM : MetadataFSM NodeID where
  topics := []
  assignments := []
  groups := []

namespace MetadataFSM

def applyCreateTopic (f : MetadataFSM NodeID) (entry : TopicEntry NodeID) :
    MetadataFSM NodeID :=
  { f with topics := setEntry entry.name entry f.topics }

def applyDeleteTopic (f : MetadataFSM NodeID) (name : List Char) :
    MetadataFSM NodeID :=
  let start := name ++ [':']
  { f with
    topics := deleteEntry name f.topics
    assignments := f.assignments.filter (fun e =>
      ¬ (e.1.length > start.length ∧ e.1.take start.length = start)) }

def applyAssignPartition (f : MetadataFSM NodeID)
    (pa : PartitionAssignment NodeID) : MetadataFSM NodeID :=
  let key := pa.topic ++ [':'] ++ Nat.toDigits 10 pa.partition
  { f with assignments := setEntry key pa f.assignments }

def applyJoinGroup (f : MetadataFSM NodeID) (group member : List Char)
    (topics : List (List Char)) : MetadataFSM NodeID :=
  let grp := (getEntry group f.groups).getD { name := group, members := [] }
  let joined : GroupMember := { id := member, topics := topics, partitions := [] }
  { f with
    groups := setEntry group
      { grp with members := setEntry member joined grp.members } f.groups }

def applyLeaveGroup (f : MetadataFSM NodeID) (group member : List Char) :
    MetadataFSM NodeID :=
  match getEntry group f.groups with
  | none => f
  | some grp =>
  let members := deleteEntry member grp.members
  { f with
    groups :=
      if members.length = 0 then deleteEntry group f.groups
      else setEntry group { grp with members := members } f.groups }

def apply (decode : List UInt8 -> Option (Command NodeID))
    (f : MetadataFSM NodeID) (entry : LogEntry) : MetadataFSM NodeID :=
  match decode entry.data with
  | none => f
  | some (.createTopic topic) => f.applyCreateTopic topic
  | some (.deleteTopic name) => f.applyDeleteTopic name
  | some (.assignPartition pa) => f.applyAssignPartition pa
  | some (.joinGroup group member topics) => f.applyJoinGroup group member topics
  | some (.leaveGroup group member) => f.applyLeaveGroup group member
  | some .commitOffset => f
  | some .other => f

end MetadataFSM

structure SnapshotData (NodeID : Type) where
  topics : List (List Char × TopicEntry NodeID)
  assignments : List (List Char × PartitionAssignment NodeID)
  groups : List (List Char × GroupEntry)
deriving DecidableEq

namespace MetadataFSM

def snapshot (f : MetadataFSM NodeID) : SnapshotData NodeID where
  topics := f.topics
  assignments := f.assignments
  groups := f.groups

def restore (data : SnapshotData NodeID) : MetadataFSM NodeID where
  topics := data.topics
  assignments := data.assignments
  groups := data.groups

end MetadataFSM

end Raft
end ChimeraMQ
