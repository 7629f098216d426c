import ChimeraMQ.Foundation.SortedEntries
import ChimeraMQ.Stream.OffsetStore
import Mathlib.Data.List.Sort

/-!
# Consumer groups

The members of a group share the partitions of a topic.  Whoever joins or leaves
has the group rebalanced after that; until then the partitions are assigned as
they were.
-/

namespace ChimeraMQ
namespace Stream

open Foundation

/-- How the partitions are assigned to the members. -/
inductive RebalanceStrategy where
  | range
  | roundRobin
  | sticky
deriving DecidableEq

structure GroupMember where
  id : Bytes
  partitions : List Nat
  lastHeartbeat : Int
deriving DecidableEq

structure ConsumerGroup where
  name : Bytes
  topic : Bytes
  partitionCount : Nat
  members : List (Bytes × GroupMember)
  assignments : List (Nat × Bytes)
  committed : Offsets
  strategy : RebalanceStrategy
  sessionTimeout : Int
  pending : Nat
deriving DecidableEq

namespace ConsumerGroup

def loadCommittedOffsets (offsetStore : OffsetStore) (name : Bytes)
    (partitionCount : Nat) : Offsets :=
  (List.range partitionCount).foldl (fun committed i =>
    if 0 < offsetStore.get name i then
      setEntry i (offsetStore.get name i) committed
    else committed) []

def newConsumerGroup (name topic : Bytes) (partitionCount : Nat)
    (strategy : RebalanceStrategy) (offsetStore : OffsetStore) :
    ConsumerGroup where
  name := name
  topic := topic
  partitionCount := partitionCount
  members := []
  assignments := []
  committed := loadCommittedOffsets offsetStore name partitionCount
  strategy := strategy
  sessionTimeout := 30000000000
  pending := 0

def join (g : ConsumerGroup) (memberID : Bytes) (now : Int) : ConsumerGroup :=
  { g with
    members := setEntry memberID
      { id := memberID, partitions := [], lastHeartbeat := now } g.members
    pending := g.pending + 1 }

def leave (g : ConsumerGroup) (memberID : Bytes) : ConsumerGroup :=
  { g with
    members := deleteEntry memberID g.members
    pending := g.pending + 1 }

def modifyMember (g : ConsumerGroup) (memberID : Bytes)
    (f : GroupMember -> GroupMember) : ConsumerGroup :=
  { g with
    members := g.members.map (fun e =>
      (e.1, if e.1 = memberID then f e.2 else e.2)) }

def heartbeat (g : ConsumerGroup) (memberID : Bytes) (now : Int) :
    ConsumerGroup :=
  g.modifyMember memberID (fun m => { m with lastHeartbeat := now })

def Expired (g : ConsumerGroup) (now : Int) (m : GroupMember) : Prop :=
  now - m.lastHeartbeat > g.sessionTimeout

instance (g : ConsumerGroup) (now : Int) (m : GroupMember) :
    Decidable (g.Expired now m) :=
  inferInstanceAs (Decidable (_ > _))

def expire (g : ConsumerGroup) (now : Int) : ConsumerGroup :=
  if g.members.any (fun e => decide (g.Expired now e.2)) then
    { g with
      members := g.members.filter (fun e => ¬ g.Expired now e.2)
      pending := g.pending + 1 }
  else g

/-!
## Offsets
-/

def commitOffset (g : ConsumerGroup) (offsetStore : OffsetStore)
    (partitionID offset : Nat) :
    ConsumerGroup × OffsetStore × Option GroupNameError :=
  ({ g with committed := setEntry partitionID offset g.committed },
    offsetStore.save g.name partitionID offset)

def getCommittedOffset (g : ConsumerGroup) (partitionID : Nat) : Nat :=
  (getEntry partitionID g.committed).getD 0

/-!
## Rebalancing
-/

def partitionsOf (g : ConsumerGroup) (memberID : Bytes) : List Nat :=
  ((getEntry memberID g.members).map GroupMember.partitions).getD []

def assign (g : ConsumerGroup) (partID : Nat) (memberID : Bytes) :
    ConsumerGroup :=
  { g with assignments := setEntry partID memberID g.assignments }.modifyMember
    memberID (fun m => { m with partitions := m.partitions ++ [partID] })

def clear (g : ConsumerGroup) : ConsumerGroup :=
  { g with
    assignments := []
    members := g.members.map (fun e => (e.1, { e.2 with partitions := [] })) }

def assignRun (partitions : List Nat) (memberID : Bytes) :
    Nat -> ConsumerGroup × Nat -> ConsumerGroup × Nat
  | 0, s => s
  | count + 1, (g, idx) =>
    match partitions[idx]? with
    | none => (g, idx)
    | some partID =>
      assignRun partitions memberID count
        (g.assign partID memberID, idx + 1)

/-- How many partitions in a row the members get that come at a given place. -/
def runLength (perMember remainder i : Nat) : Nat :=
  if i < remainder then perMember + 1 else perMember

def rebalanceRange (g : ConsumerGroup) (partitions : List Nat)
    (members : List Bytes) : ConsumerGroup :=
  let perMember := partitions.length / members.length
  let remainder := partitions.length % members.length
  (members.zipIdx.foldl (fun s e =>
    assignRun partitions e.1 (runLength perMember remainder e.2) s) (g, 0)).1

def rebalanceRoundRobin (g : ConsumerGroup) (partitions : List Nat)
    (members : List Bytes) : ConsumerGroup :=
  partitions.zipIdx.foldl (fun g e =>
    g.assign e.1 ((members[e.2 % members.length]?).getD [])) g

def keepAssigned (g : ConsumerGroup) (partitions : List Nat)
    (members : List Bytes) (prev : List (Nat × Bytes)) : ConsumerGroup :=
  partitions.foldl (fun g partID =>
    match getEntry partID prev with
    | none => g
    | some prevMember =>
      if prevMember ∈ members then g.assign partID prevMember else g) g

/--
The first of the members with the fewest partitions; where no number has been
found yet there is none.
-/
def memberWithFewest (g : ConsumerGroup) (members : List Bytes) : Bytes :=
  (members.foldl (fun (chosen : Option Nat × Bytes) memberID =>
    let cnt := (g.partitionsOf memberID).length
    match chosen.1 with
    | none => (some cnt, memberID)
    | some minCount =>
      if cnt < minCount then (some cnt, memberID) else chosen)
    (none, [])).2

/-- The partitions that nobody has kept go to the members with the fewest. -/
def distribute (g : ConsumerGroup) (partitions : List Nat)
    (members : List Bytes) : ConsumerGroup :=
  (partitions.filter (fun partID =>
    (getEntry partID g.assignments).isNone)).foldl
    (fun g partID => g.assign partID (g.memberWithFewest members)) g

/-- The members with the most and with the fewest partitions, if any. -/
structure Extremes where
  overMember : Bytes
  overCount : Nat
  underMember : Bytes
  underCount : Nat

def Extremes.look (target : Nat) (memberID : Bytes) (cnt : Nat)
    (e : Extremes) : Extremes :=
  let e :=
    if cnt > target + 1 ∧ cnt > e.overCount then
      { e with overMember := memberID, overCount := cnt }
    else e
  if cnt < target ∧ cnt < e.underCount then
    { e with underMember := memberID, underCount := cnt }
  else e

def extremes (g : ConsumerGroup) (partitions : List Nat)
    (members : List Bytes) (target : Nat) : Extremes :=
  members.foldl (fun e memberID =>
    e.look target memberID (g.partitionsOf memberID).length)
    { overMember := [], overCount := 0, underMember := [],
      underCount := partitions.length + 1 }

def steal (g : ConsumerGroup) (overMember underMember : Bytes) :
    ConsumerGroup :=
  match (g.partitionsOf overMember).getLast? with
  | none => g
  | some stolenPart =>
  let g := g.modifyMember overMember (fun m =>
    { m with partitions := m.partitions.dropLast })
  let g := g.modifyMember underMember (fun m =>
    { m with partitions := m.partitions ++ [stolenPart] })
  { g with assignments := setEntry stolenPart underMember g.assignments }

/-- Steal until nobody has too many or nobody too few; the number bounds this. -/
def stealLoop (partitions : List Nat) (members : List Bytes) (target : Nat) :
    Nat -> ConsumerGroup -> ConsumerGroup
  | 0, g => g
  | bound + 1, g =>
    let e := g.extremes partitions members target
    if e.overMember = [] ∨ e.underMember = [] then g
    else
      stealLoop partitions members target bound
        (g.steal e.overMember e.underMember)

def rebalanceSticky (g : ConsumerGroup) (partitions : List Nat)
    (members : List Bytes) (prev : List (Nat × Bytes)) : ConsumerGroup :=
  stealLoop partitions members (partitions.length / members.length)
    (partitions.length + 1)
    ((g.keepAssigned partitions members prev).distribute partitions members)

def memberIDs (g : ConsumerGroup) : List Bytes :=
  (g.members.map Prod.fst).insertionSort (· ≤ ·)

def reassign (g : ConsumerGroup) : ConsumerGroup :=
  if g.members = [] then g.clear
  else
    let partitions := List.range g.partitionCount
    match g.strategy with
    | .range => g.clear.rebalanceRange partitions g.memberIDs
    | .sticky =>
      g.clear.rebalanceSticky partitions g.memberIDs g.assignments
    | .roundRobin => g.clear.rebalanceRoundRobin partitions g.memberIDs

def rebalance (g : ConsumerGroup) : ConsumerGroup :=
  { g.reassign with pending := g.pending - 1 }

end ConsumerGroup

end Stream
end ChimeraMQ
