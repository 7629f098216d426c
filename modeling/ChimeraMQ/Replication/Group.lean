import Mathlib.Logic.Function.Basic
import ChimeraMQ.Foundation.Run
import ChimeraMQ.Replication.Replicator

/-!
# The replicas of a partition

The nodes that hold a partition: each of them may act as its leader, also after
it was deposed, and as a follower.  A request that was sent stays in the network
for ever, so it may arrive late, twice or not at all, and an answer reaches the
replicator as long as it waits for one.  A replicator works on one write at a
time, as it holds its mutex.
-/

namespace ChimeraMQ
namespace Replication

open Foundation

structure Write (NodeID : Type) where
  leader : NodeID
  req : ReplicateRequest
  before : ISRSet NodeID
  sent : List NodeID

def Write.next {NodeID : Type} (w : Write NodeID) : UInt64 :=
  w.req.offset + 1

structure Delivery (NodeID : Type) where
  write : Nat
  peer : NodeID
  ok : Bool
  stored : Bool
deriving DecidableEq

structure Progress (NodeID : Type) where
  write : Nat
  waiting : List NodeID
  confirmed : List NodeID
  errors : Nat

structure Outcome (NodeID : Type) where
  write : Nat
  policy : AckPolicy
  result : Except AckError Unit
  reached : List NodeID

structure Group (NodeID : Type) where
  replicators : NodeID -> Replicator NodeID
  followers : NodeID -> FollowerReplica NodeID
  busy : NodeID -> Option (Progress NodeID)
  writes : List (Write NodeID)
  deliveries : List (Delivery NodeID)
  outcomes : List (Outcome NodeID)

inductive ISRChange (NodeID : Type) where
  | addReplica (id : NodeID)
  | removeReplica (id : NodeID)
  | shrinkISR (id : NodeID)
  | expandISR (id : NodeID)

inductive GroupAction (NodeID : Type) where
  | setTransport (n : NodeID) (present : Bool)
  | setEpoch (n : NodeID) (epoch : UInt64)
  | followerSetEpoch (n : NodeID) (epoch : UInt64)
  | changeISR (n : NodeID) (change : ISRChange NodeID)
  | checkISRHealth (n : NodeID)
  | beginWrite (n : NodeID) (data : Bytes) (offset : UInt64)
  | replicate (write : Nat) (peer : NodeID) (failure : Option Bytes)
  | respond (delivery : Nat)
  | fail (n peer : NodeID)
  | endWrite (n : NodeID)

variable {NodeID : Type} [DecidableEq NodeID]

def ISRSet.change (isr : ISRSet NodeID) : ISRChange NodeID -> ISRSet NodeID
  | .addReplica id => isr.addReplica id
  | .removeReplica id => isr.removeReplica id
  | .shrinkISR id => isr.shrinkISR id
  | .expandISR id => (isr.expandISR id).1

namespace Group

def start (topic : Bytes) (partition : UInt32) (maxLag : Int64)
    (policy : NodeID -> AckPolicy) (storage : NodeID -> Option LocalStorage)
    (leaderID : NodeID -> NodeID) : Group NodeID where
  replicators := fun n =>
    .newReplicator topic partition n (policy n) maxLag
  followers := fun n =>
    .newFollowerReplica topic partition (leaderID n) (storage n)
  busy := fun _ => none
  writes := []
  deliveries := []
  outcomes := []

def setReplicator (s : Group NodeID) (n : NodeID) (r : Replicator NodeID) :
    Group NodeID :=
  { s with replicators := Function.update s.replicators n r }

def setFollower (s : Group NodeID) (n : NodeID) (f : FollowerReplica NodeID) :
    Group NodeID :=
  { s with followers := Function.update s.followers n f }

def setBusy (s : Group NodeID) (n : NodeID) (p : Option (Progress NodeID)) :
    Group NodeID :=
  { s with busy := Function.update s.busy n p }

def locked (s : Group NodeID) (n : NodeID)
    (f : Replicator NodeID -> Replicator NodeID) : Option (Group NodeID) :=
  match s.busy n with
  | some _ => none
  | none => some (s.setReplicator n (f (s.replicators n)))

/-- The replicator of a node sends a write to the followers in sync. -/
def beginWrite (s : Group NodeID) (n : NodeID) (data : Bytes)
    (offset : UInt64) : Option (Group NodeID) :=
  match s.busy n with
  | some _ => none
  | none =>
  let r := s.replicators n
  let sent := if r.transport then r.targets else []
  let s := s.setReplicator n (r.beginWrite offset)
  let s := s.setBusy n (some ⟨s.writes.length, sent, [], 0⟩)
  some { s with
    writes := s.writes ++ [⟨n, r.request data offset, r.isr, sent⟩] }

def replicate (s : Group NodeID) (write : Nat) (peer : NodeID)
    (failure : Option Bytes) : Option (Group NodeID) :=
  match s.writes[write]? with
  | none => none
  | some w =>
  if peer ∉ w.sent then none
  else
    let f := s.followers peer
    let r := f.replicate w.req failure
    let stored := decide (f.Stored r.1 w.req)
    let s := s.setFollower peer r.1
    some { s with
      deliveries := s.deliveries ++ [⟨write, peer, r.2.isOk, stored⟩] }

def answer (s : Group NodeID) (n peer : NodeID) (p : Progress NodeID)
    (w : Write NodeID) (ok : Bool) : Group NodeID :=
  let waiting := p.waiting.erase peer
  if ok then
    let s := s.setReplicator n ((s.replicators n).confirm peer w.req.offset)
    s.setBusy n
      (some { p with waiting := waiting, confirmed := p.confirmed ++ [peer] })
  else
    s.setBusy n (some { p with waiting := waiting, errors := p.errors + 1 })

def respond (s : Group NodeID) (delivery : Nat) : Option (Group NodeID) :=
  match s.deliveries[delivery]? with
  | none => none
  | some d =>
  match s.writes[d.write]? with
  | none => none
  | some w =>
  match s.busy w.leader with
  | none => none
  | some p =>
    if p.write = d.write ∧ d.peer ∈ p.waiting then
      some (s.answer w.leader d.peer p w d.ok)
    else none

def fail (s : Group NodeID) (n peer : NodeID) : Option (Group NodeID) :=
  match s.busy n with
  | none => none
  | some p =>
  match s.writes[p.write]? with
  | none => none
  | some w =>
    if peer ∈ p.waiting then some (s.answer n peer p w false) else none

def endWrite (s : Group NodeID) (n : NodeID) : Option (Group NodeID) :=
  match s.busy n with
  | none => none
  | some p =>
  match s.writes[p.write]?, p.waiting with
  | some w, [] =>
    let r := s.replicators n
    let s := s.setBusy n none
    some { s with
      outcomes := s.outcomes ++ [⟨p.write, r.policy,
        r.endWrite w.req.offset p.errors, r.isr.reached w.next⟩] }
  | _, _ => none

def step (s : Group NodeID) : GroupAction NodeID -> Option (Group NodeID)
  | .setTransport n present => s.locked n (fun r => r.setTransport present)
  | .setEpoch n epoch => s.locked n (fun r => r.setEpoch epoch)
  | .followerSetEpoch n epoch =>
    some (s.setFollower n ((s.followers n).setEpoch epoch))
  | .changeISR n change =>
    let r := s.replicators n
    some (s.setReplicator n { r with isr := r.isr.change change })
  | .checkISRHealth n => s.locked n Replicator.checkISRHealth
  | .beginWrite n data offset => s.beginWrite n data offset
  | .replicate write peer failure => s.replicate write peer failure
  | .respond delivery => s.respond delivery
  | .fail n peer => s.fail n peer
  | .endWrite n => s.endWrite n

/-!
## What a step does
-/

theorem locked_some {s s' : Group NodeID} {n : NodeID}
    {f : Replicator NodeID -> Replicator NodeID}
    (hstep : s.locked n f = some s') :
    s' = s.setReplicator n (f (s.replicators n)) := by
  unfold locked at hstep
  cases hbusy : s.busy n with
  | some p =>
    rw [hbusy] at hstep
    cases hstep
  | none =>
  rw [hbusy] at hstep
  cases hstep
  rfl

variable {s s' : Group NodeID}

theorem beginWrite_some {n : NodeID} {data : Bytes} {offset : UInt64}
    (hstep : s.beginWrite n data offset = some s') :
    exists w : Write NodeID,
      w.before = (s.replicators n).isr ∧
      s' = ({ s with writes := s.writes ++ [w] }.setReplicator n
        ((s.replicators n).beginWrite offset)).setBusy n
          (some ⟨s.writes.length, w.sent, [], 0⟩) := by
  unfold beginWrite at hstep
  cases hbusy : s.busy n with
  | some p =>
    rw [hbusy] at hstep
    cases hstep
  | none =>
  rw [hbusy] at hstep
  cases hstep
  exists ⟨n, (s.replicators n).request data offset, (s.replicators n).isr,
    if (s.replicators n).transport then (s.replicators n).targets else []⟩

theorem replicate_some {write : Nat} {peer : NodeID} {failure : Option Bytes}
    (hstep : s.replicate write peer failure = some s') :
    exists w, s.writes[write]? = some w ∧
      s' = { s.setFollower peer ((s.followers peer).replicate w.req failure).1 with
        deliveries := s.deliveries ++ [⟨write, peer,
          ((s.followers peer).replicate w.req failure).2.isOk,
          decide ((s.followers peer).Stored
            ((s.followers peer).replicate w.req failure).1 w.req)⟩] } := by
  unfold replicate at hstep
  cases hwrite : s.writes[write]? with
  | none =>
    rw [hwrite] at hstep
    cases hstep
  | some w =>
  simp only [hwrite] at hstep
  by_cases hsent : peer ∈ w.sent
  · rw [if_neg (not_not_intro hsent), Option.some.injEq] at hstep
    exact ⟨w, rfl, hstep.symm⟩
  · rw [if_pos hsent] at hstep
    cases hstep

theorem respond_some {delivery : Nat} (hstep : s.respond delivery = some s') :
    exists d w p, d ∈ s.deliveries ∧ s.writes[d.write]? = some w ∧
      s.busy w.leader = some p ∧ p.write = d.write ∧
      s' = s.answer w.leader d.peer p w d.ok := by
  unfold respond at hstep
  cases hd : s.deliveries[delivery]? with
  | none =>
    rw [hd] at hstep
    cases hstep
  | some d =>
  cases hw : s.writes[d.write]? with
  | none =>
    simp only [hd, hw] at hstep
    cases hstep
  | some w =>
  cases hbusy : s.busy w.leader with
  | none =>
    simp only [hd, hw, hbusy] at hstep
    cases hstep
  | some p =>
  simp only [hd, hw, hbusy] at hstep
  by_cases hwaits : p.write = d.write ∧ d.peer ∈ p.waiting
  · rw [if_pos hwaits, Option.some.injEq] at hstep
    exact ⟨d, w, p, List.mem_of_getElem? hd, hw, hbusy, hwaits.left,
      hstep.symm⟩
  · rw [if_neg hwaits] at hstep
    cases hstep

theorem fail_some {n peer : NodeID} (hstep : s.fail n peer = some s') :
    exists p w, s.busy n = some p ∧ s.writes[p.write]? = some w ∧
      s' = s.answer n peer p w false := by
  unfold fail at hstep
  cases hbusy : s.busy n with
  | none =>
    rw [hbusy] at hstep
    cases hstep
  | some p =>
  cases hw : s.writes[p.write]? with
  | none =>
    simp only [hbusy, hw] at hstep
    cases hstep
  | some w =>
  simp only [hbusy, hw] at hstep
  by_cases hwaits : peer ∈ p.waiting
  · rw [if_pos hwaits, Option.some.injEq] at hstep
    exact ⟨p, w, rfl, hw, hstep.symm⟩
  · rw [if_neg hwaits] at hstep
    cases hstep

theorem endWrite_some {n : NodeID} (hstep : s.endWrite n = some s') :
    exists p w, s.busy n = some p ∧ s.writes[p.write]? = some w ∧
      p.waiting = [] ∧
      s' = { s.setBusy n none with
        outcomes := s.outcomes ++ [⟨p.write, (s.replicators n).policy,
          (s.replicators n).endWrite w.req.offset p.errors,
          (s.replicators n).isr.reached w.next⟩] } := by
  unfold endWrite at hstep
  cases hbusy : s.busy n with
  | none =>
    rw [hbusy] at hstep
    cases hstep
  | some p =>
  cases hw : s.writes[p.write]? with
  | none =>
    simp only [hbusy, hw] at hstep
    cases hstep
  | some w =>
  cases hwaiting : p.waiting with
  | cons m rest =>
    simp only [hbusy, hw, hwaiting] at hstep
    cases hstep
  | nil =>
  simp only [hbusy, hw, hwaiting, Option.some.injEq] at hstep
  exact ⟨p, w, rfl, hw, hwaiting, hstep.symm⟩

@[simp] theorem deliveries_answer (s : Group NodeID) (n peer : NodeID)
    (p : Progress NodeID) (w : Write NodeID) (ok : Bool) :
    (s.answer n peer p w ok).deliveries = s.deliveries := by
  cases ok with
  | true => rfl
  | false => rfl

end Group

end Replication
end ChimeraMQ
