import ChimeraMQ.Foundation.Bytes
import ChimeraMQ.Foundation.Convergence
import ChimeraMQ.Foundation.Entries

/-!
# Gossip

What a node believes of the members of the cluster, and how the messages of
the other nodes change it.  What is sent in answer, the failure detector, the
times of the last contact and the removal of members that have been dead for a
while are left out.
-/

namespace ChimeraMQ
namespace Cluster

open Foundation

structure MemberState where
  code : Int
deriving DecidableEq

namespace MemberState

def alive : MemberState := ⟨0⟩

def suspect : MemberState := ⟨1⟩

def dead : MemberState := ⟨2⟩

end MemberState

structure Member where
  id : Bytes
  addr : Bytes
  port : Int
  state : MemberState
  incarnation : Nat
deriving DecidableEq

structure MemberMsg where
  id : Bytes
  addr : Bytes
  port : Int
  state : MemberState
  incarnation : Nat
deriving DecidableEq

structure SWIM where
  nodeID : Bytes
  allowedNodes : List Bytes
  members : List (Bytes × Member)

/--
What a message tells of a member: an entry of a list of members, or a message of
its own.
-/
inductive GossipUpdate where
  | member (m : MemberMsg)
  | suspect (targetID : Bytes) (incarnation : Nat)
  | alive (senderID : Bytes) (incarnation : Nat)
  | dead (targetID : Bytes) (incarnation : Nat)
deriving DecidableEq

def GossipUpdate.id : GossipUpdate -> Bytes
  | .member m => m.id
  | .suspect id _ | .alive id _ | .dead id _ => id

namespace SWIM

/-!
## The handlers
-/

def setState (s : SWIM) (id : Bytes) (state : MemberState)
    (incarnation : Nat) : SWIM :=
  match getEntry id s.members with
  | none => s
  | some m =>
  if incarnation ≥ m.incarnation then
    { s with
      members := setEntry id
        { m with state := state, incarnation := incarnation } s.members }
  else s

def refute (s : SWIM) : SWIM :=
  match getEntry s.nodeID s.members with
  | none => s
  | some m =>
  { s with
    members := setEntry s.nodeID
      { m with
        state := .alive
        incarnation := (m.incarnation + 1) % 2 ^ 64 } s.members }

def markSuspect (s : SWIM) (id : Bytes) (incarnation : Nat) : SWIM :=
  s.setState id .suspect incarnation

/-- A dead member gets incarnation zero, whatever the message said. -/
def markDead (s : SWIM) (id : Bytes) : SWIM :=
  s.setState id .dead 0

def handleSuspect (s : SWIM) (targetID : Bytes) (incarnation : Nat) : SWIM :=
  if targetID = s.nodeID then s.refute
  else
    match getEntry targetID s.members with
    | none => s
    | some m =>
      if incarnation ≥ m.incarnation then s.markSuspect targetID incarnation
      else s

def handleAlive (s : SWIM) (senderID : Bytes) (incarnation : Nat) : SWIM :=
  match getEntry senderID s.members with
  | none => s
  | some m =>
    if incarnation ≥ m.incarnation then
      s.setState senderID .alive incarnation
    else s

def handleDead (s : SWIM) (targetID : Bytes) : SWIM :=
  if targetID = s.nodeID then s.refute else s.markDead targetID

/-- A node that is not known yet is accepted if the list allows it. -/
def Allows (s : SWIM) (id : Bytes) : Prop :=
  s.allowedNodes = [] ∨ id ∈ s.allowedNodes

instance (s : SWIM) (id : Bytes) : Decidable (s.Allows id) :=
  inferInstanceAs (Decidable (_ ∨ _))

def mergeMember (s : SWIM) (m : MemberMsg) : SWIM :=
  match getEntry m.id s.members with
  | none =>
    if s.Allows m.id then
      { s with
        members := setEntry m.id
          { id := m.id
            addr := m.addr
            port := m.port
            state := m.state
            incarnation := m.incarnation } s.members }
    else s
  | some existing =>
    if m.incarnation > existing.incarnation then
      s.setState m.id m.state m.incarnation
    else s

def handle (s : SWIM) : GossipUpdate -> SWIM
  | .member m => s.mergeMember m
  | .suspect targetID incarnation => s.handleSuspect targetID incarnation
  | .alive senderID incarnation => s.handleAlive senderID incarnation
  | .dead targetID _ => s.handleDead targetID

end SWIM

/-!
## What is believed of one member
-/

structure Standing where
  state : MemberState
  incarnation : Nat
deriving DecidableEq

def SWIM.standing (s : SWIM) (id : Bytes) : Option Standing :=
  (getEntry id s.members).map (fun m => ⟨m.state, m.incarnation⟩)

namespace GossipUpdate

def tells : GossipUpdate -> Standing
  | .member m => ⟨m.state, m.incarnation⟩
  | .suspect _ incarnation => ⟨.suspect, incarnation⟩
  | .alive _ incarnation => ⟨.alive, incarnation⟩
  | .dead _ _ => ⟨.dead, 0⟩

def IsEntry : GossipUpdate -> Prop
  | .member _ => True
  | .suspect _ _ | .alive _ _ | .dead _ _ => False

instance (u : GossipUpdate) : Decidable u.IsEntry :=
  match u with
  | .member _ => isTrue trivial
  | .suspect _ _ | .alive _ _ | .dead _ _ => isFalse not_false

/--
The update changes what is believed: an entry has to be of a later incarnation,
any other message may also be of the same one.
-/
def Beats (u : GossipUpdate) (v : Standing) : Prop :=
  v.incarnation < u.tells.incarnation ∨
    ¬ u.IsEntry ∧ v.incarnation = u.tells.incarnation

instance (u : GossipUpdate) (v : Standing) : Decidable (u.Beats v) :=
  inferInstanceAs (Decidable (_ ∨ _))

end GossipUpdate

def merge (allowed : Bool) :
    Option Standing -> GossipUpdate -> Option Standing
  | none, u => if u.IsEntry ∧ allowed = true then some u.tells else none
  | some v, u => if u.Beats v then some u.tells else some v

variable {s : SWIM}

theorem standing_setState {id : Bytes} {v : Standing}
    (hv : s.standing id = some v) (state : MemberState) (incarnation : Nat) :
    (s.setState id state incarnation).standing id =
      if v.incarnation ≤ incarnation then some ⟨state, incarnation⟩
      else some v := by
  rcases Option.map_eq_some_iff.mp hv with ⟨m, hget, hm⟩
  have hinc : m.incarnation = v.incarnation := by rw [← hm]
  unfold SWIM.setState
  rw [hget]
  simp only [hinc, ge_iff_le]
  by_cases hle : v.incarnation ≤ incarnation
  · rw [if_pos hle, if_pos hle]
    unfold SWIM.standing
    rw [getEntry_setEntry]
    rfl
  · rw [if_neg hle, if_neg hle]
    exact hv

theorem standing_handle_some {u : GossipUpdate} (hremote : u.id ≠ s.nodeID)
    {v : Standing} (hv : s.standing u.id = some v) :
    (s.handle u).standing u.id = if u.Beats v then some u.tells else some v := by
  rcases Option.map_eq_some_iff.mp hv with ⟨m, hget, hm⟩
  have hinc : m.incarnation = v.incarnation := by rw [← hm]
  cases u with
  | member e =>
    have hset := standing_setState hv e.state e.incarnation
    simp only [GossipUpdate.id] at hget hset hv
    simp only [SWIM.handle, SWIM.mergeMember, GossipUpdate.id, hget, hinc,
      GossipUpdate.Beats, GossipUpdate.tells, GossipUpdate.IsEntry,
      not_true_eq_false, false_and, or_false, gt_iff_lt]
    split
    · rename_i hlt
      rw [hset, if_pos (Nat.le_of_lt hlt)]
    · exact hv
  | suspect id incarnation =>
    have hset := standing_setState hv .suspect incarnation
    simp only [GossipUpdate.id] at hget hset hv hremote
    simp only [SWIM.handle, SWIM.handleSuspect, GossipUpdate.id, hget, hinc,
      if_neg hremote, GossipUpdate.Beats, GossipUpdate.tells,
      GossipUpdate.IsEntry, not_false_eq_true, true_and, ge_iff_le,
      ← Nat.le_iff_lt_or_eq]
    split
    · rename_i hle
      rw [SWIM.markSuspect, hset, if_pos hle]
    · exact hv
  | alive id incarnation =>
    have hset := standing_setState hv .alive incarnation
    simp only [GossipUpdate.id] at hget hset hv
    simp only [SWIM.handle, SWIM.handleAlive, GossipUpdate.id, hget, hinc,
      GossipUpdate.Beats, GossipUpdate.tells, GossipUpdate.IsEntry,
      not_false_eq_true, true_and, ge_iff_le, ← Nat.le_iff_lt_or_eq]
    split
    · rename_i hle
      rw [hset, if_pos hle]
    · exact hv
  | dead id incarnation =>
  have hset := standing_setState hv .dead 0
  simp only [GossipUpdate.id] at hset hv hremote
  simp only [SWIM.handle, SWIM.handleDead, GossipUpdate.id,
    if_neg hremote, GossipUpdate.Beats, GossipUpdate.tells,
    GossipUpdate.IsEntry, not_false_eq_true, true_and,
    ← Nat.le_iff_lt_or_eq]
  rw [SWIM.markDead, hset]

theorem setState_of_unknown {id : Bytes} (hget : getEntry id s.members = none)
    (state : MemberState) (incarnation : Nat) :
    s.setState id state incarnation = s := by
  unfold SWIM.setState
  rw [hget]

theorem standing_handle_none {u : GossipUpdate} (hremote : u.id ≠ s.nodeID)
    (hv : s.standing u.id = none) :
    (s.handle u).standing u.id =
      if u.IsEntry ∧ s.Allows u.id then some u.tells else none := by
  have hget := Option.map_eq_none_iff.mp hv
  cases u with
  | member e =>
    simp only [GossipUpdate.id] at hget hv
    simp only [SWIM.handle, SWIM.mergeMember, GossipUpdate.id, hget,
      GossipUpdate.IsEntry, true_and]
    split
    · unfold SWIM.standing
      rw [getEntry_setEntry]
      rfl
    · exact hv
  | suspect id incarnation =>
    simp only [GossipUpdate.id] at hget hv hremote
    simp only [SWIM.handle, SWIM.handleSuspect, GossipUpdate.id, hget,
      if_neg hremote, GossipUpdate.IsEntry, false_and, if_false]
    exact hv
  | alive id incarnation =>
    simp only [GossipUpdate.id] at hget hv
    simp only [SWIM.handle, SWIM.handleAlive, GossipUpdate.id, hget,
      GossipUpdate.IsEntry, false_and, if_false]
    exact hv
  | dead id incarnation =>
  simp only [GossipUpdate.id] at hget hv hremote
  simp only [SWIM.handle, SWIM.handleDead, SWIM.markDead, GossipUpdate.id,
    if_neg hremote, setState_of_unknown hget, GossipUpdate.IsEntry,
    false_and, if_false]
  exact hv

theorem standing_handle {u : GossipUpdate} (hremote : u.id ≠ s.nodeID) :
    (s.handle u).standing u.id =
      merge (decide (s.Allows u.id)) (s.standing u.id) u := by
  cases hv : s.standing u.id with
  | none =>
    rw [standing_handle_none hremote hv]
    simp only [merge, decide_eq_true_iff]
  | some v => exact standing_handle_some hremote hv

theorem setState_settings (s : SWIM) (id : Bytes) (state : MemberState)
    (incarnation : Nat) :
    (s.setState id state incarnation).nodeID = s.nodeID ∧
      (s.setState id state incarnation).allowedNodes = s.allowedNodes := by
  unfold SWIM.setState
  split
  · exact ⟨rfl, rfl⟩
  · split
    · exact ⟨rfl, rfl⟩
    · exact ⟨rfl, rfl⟩

theorem refute_settings (s : SWIM) :
    s.refute.nodeID = s.nodeID ∧ s.refute.allowedNodes = s.allowedNodes := by
  unfold SWIM.refute
  split
  · exact ⟨rfl, rfl⟩
  · exact ⟨rfl, rfl⟩

theorem handle_settings (s : SWIM) (u : GossipUpdate) :
    (s.handle u).nodeID = s.nodeID ∧
      (s.handle u).allowedNodes = s.allowedNodes := by
  cases u with
  | member m =>
    simp only [SWIM.handle, SWIM.mergeMember]
    split
    · split
      · exact ⟨rfl, rfl⟩
      · exact ⟨rfl, rfl⟩
    · split
      · exact setState_settings ..
      · exact ⟨rfl, rfl⟩
  | suspect id incarnation =>
    simp only [SWIM.handle, SWIM.handleSuspect]
    split
    · exact refute_settings s
    split
    · exact ⟨rfl, rfl⟩
    · split
      · exact setState_settings ..
      · exact ⟨rfl, rfl⟩
  | alive id incarnation =>
    simp only [SWIM.handle, SWIM.handleAlive]
    split
    · exact ⟨rfl, rfl⟩
    · split
      · exact setState_settings ..
      · exact ⟨rfl, rfl⟩
  | dead id incarnation =>
  simp only [SWIM.handle, SWIM.handleDead]
  split
  · exact refute_settings s
  · exact setState_settings ..

end Cluster
end ChimeraMQ
