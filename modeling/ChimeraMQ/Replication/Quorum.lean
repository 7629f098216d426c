import ChimeraMQ.Foundation.Majority
import ChimeraMQ.Replication.HighWatermark

/-!
# Quorums of the in-sync replicas

A write has a quorum when more than half of the leader and the replicas in sync
have reached its offset.  The replicas are counted in a set in which the leader
may be or not.
-/

namespace ChimeraMQ
namespace Replication

open Foundation

inductive ISRAction (NodeID : Type) where
  | change (change : ISRChange NodeID)
  | updateLEO (id : NodeID) (leo : UInt64)
  | updateISR (leaderHW : UInt64)

namespace ISRSet

variable {NodeID : Type} [DecidableEq NodeID]

def act (isr : ISRSet NodeID) : ISRAction NodeID -> ISRSet NodeID
  | .change change => isr.change change
  | .updateLEO id leo => isr.updateLEO id leo
  | .updateISR leaderHW => isr.updateISR leaderHW

def members (isr : ISRSet NodeID) : Finset NodeID :=
  insert isr.leaderID isr.isr.toFinset

def holding (isr : ISRSet NodeID) (offset : UInt64) : Finset NodeID :=
  isr.members.filter (fun id => id = isr.leaderID ∨ offset ≤ isr.leoOf id)

/-!
## The replicas in sync
-/

structure Known (leaderID : NodeID) (isr : ISRSet NodeID) : Prop where
  leader : isr.leaderID = leaderID
  nodup : isr.isr.Nodup
  known : forall id, id ∈ isr.isr -> id ∈ isr.replicas.map Prod.fst

variable {leaderID : NodeID} {isr : ISRSet NodeID}

omit [DecidableEq NodeID] in
theorem known_newISRSet (leaderID : NodeID) (maxLag : Int64) :
    (newISRSet leaderID maxLag).Known leaderID where
  leader := rfl
  nodup := List.nodup_nil
  known := by
    intro id hid
    cases hid

variable (h : isr.Known leaderID)

include h

theorem Known.addReplica (nodeID : NodeID) :
    (isr.addReplica nodeID).Known leaderID where
  leader := h.leader
  nodup := h.nodup.insert
  known := by
    intro id hid
    show id ∈ (setEntry nodeID _ isr.replicas).map Prod.fst
    rw [mem_keys_setEntry]
    rcases List.mem_insert_iff.mp hid with hnew | hold
    · exact Or.inl hnew
    · exact Or.inr (h.known id hold)

theorem Known.shrinkISR (nodeID : NodeID) :
    (isr.shrinkISR nodeID).Known leaderID where
  leader := h.leader
  nodup := h.nodup.erase nodeID
  known := fun id hid => h.known id (List.mem_of_mem_erase hid)

theorem Known.removeReplica (nodeID : NodeID) :
    (isr.removeReplica nodeID).Known leaderID where
  leader := h.leader
  nodup := h.nodup.erase nodeID
  known := by
    intro id hid
    show id ∈ (deleteEntry nodeID isr.replicas).map Prod.fst
    rw [map_fst_deleteEntry, List.mem_filter, decide_eq_true_eq]
    rcases (h.nodup.mem_erase_iff).mp hid with ⟨hne, hold⟩
    exact ⟨h.known id hold, hne⟩

theorem Known.insert {nodeID : NodeID}
    (hmem : nodeID ∈ isr.replicas.map Prod.fst) :
    ({ isr with isr := isr.isr.insert nodeID } : ISRSet NodeID).Known
      leaderID where
  leader := h.leader
  nodup := h.nodup.insert
  known := by
    intro id hid
    rcases List.mem_insert_iff.mp hid with hnew | hold
    · rw [hnew]
      exact hmem
    · exact h.known id hold

theorem Known.expandISR (nodeID : NodeID) :
    (isr.expandISR nodeID).1.Known leaderID := by
  unfold ISRSet.expandISR
  cases hget : getEntry nodeID isr.replicas with
  | none => exact h
  | some state =>
  simp only
  split
  · apply h.insert
    exact List.mem_map_of_mem (mem_of_getEntry hget)
  · exact h

theorem Known.updateLEO (nodeID : NodeID) (leo : UInt64) :
    (isr.updateLEO nodeID leo).Known leaderID := by
  rcases isr_updateLEO isr nodeID leo with ⟨hisr, hleader⟩
  constructor
  · exact hleader.trans h.leader
  · rw [hisr]
    exact h.nodup
  intro id hid
  rw [hisr] at hid
  by_contra hout
  have hnone := getEntry_eq_none_iff.mpr hout
  rw [getEntry_updateLEO, Option.map_eq_none_iff] at hnone
  exact getEntry_eq_none_iff.mp hnone (h.known id hid)

theorem Known.updateReplica (leaderHW : UInt64)
    {e : NodeID × ReplicaState NodeID}
    (hmem : e.1 ∈ isr.replicas.map Prod.fst) :
    (updateReplica leaderHW isr e).Known leaderID := by
  simp only [ISRSet.updateReplica]
  split
  · exact h
  split
  · exact h.shrinkISR e.1
  · split
    · exact h.insert hmem
    · exact h

omit h

theorem Known.foldl_updateReplica (leaderHW : UInt64)
    (entries : List (NodeID × ReplicaState NodeID)) (h : isr.Known leaderID)
    (hmem : forall e, e ∈ entries -> e.1 ∈ isr.replicas.map Prod.fst) :
    (entries.foldl (ISRSet.updateReplica leaderHW) isr).Known leaderID := by
  induction entries generalizing isr with
  | nil => exact h
  | cons e rest ih =>
  apply ih (h.updateReplica leaderHW (hmem e (List.mem_cons_self ..)))
  intro x hx
  rw [replicas_updateReplica]
  exact hmem x (List.mem_cons_of_mem e hx)

theorem Known.act (h : isr.Known leaderID) (a : ISRAction NodeID) :
    (isr.act a).Known leaderID := by
  cases a with
  | change change =>
    cases change with
    | addReplica id => exact h.addReplica id
    | removeReplica id => exact h.removeReplica id
    | shrinkISR id => exact h.shrinkISR id
    | expandISR id => exact h.expandISR id
  | updateLEO id leo => exact h.updateLEO id leo
  | updateISR leaderHW =>
  apply h.foldl_updateReplica leaderHW
  exact fun e he => List.mem_map_of_mem he

theorem known_foldl_act (maxLag : Int64) (actions : List (ISRAction NodeID)) :
    (actions.foldl act (newISRSet leaderID maxLag)).Known leaderID := by
  apply List.foldlRecOn actions act (known_newISRSet leaderID maxLag)
  intro isr h a _
  exact h.act a

/-!
## Counting
-/

theorem length_isr (h : isr.Known leaderID) :
    isr.isr.length + 1 =
      isr.members.card + if leaderID ∈ isr.isr then 1 else 0 := by
  have hleader := h.leader
  subst hleader
  unfold members
  by_cases hin : isr.leaderID ∈ isr.isr
  · rw [if_pos hin, Finset.insert_eq_of_mem (List.mem_toFinset.mpr hin),
      List.toFinset_card_of_nodup h.nodup]
  · rw [if_neg hin, Finset.card_insert_of_notMem
      (fun hmem => hin (List.mem_toFinset.mp hmem)),
      List.toFinset_card_of_nodup h.nodup]

theorem mem_reached (h : isr.Known leaderID) (offset : UInt64) (id : NodeID) :
    id ∈ isr.reached offset <->
      id ∈ isr.isr ∧ id ≠ leaderID ∧ offset ≤ isr.leoOf id := by
  unfold reached
  rw [List.mem_filter, h.leader, Bool.and_eq_true, decide_eq_true_eq]
  constructor
  · rintro ⟨hin, hne, hcounted⟩
    refine ⟨hin, hne, ?_⟩
    apply le_leoOf_of_mem_reached
    unfold reached
    rw [List.mem_filter, h.leader, Bool.and_eq_true, decide_eq_true_eq]
    exact ⟨hin, hne, hcounted⟩
  rintro ⟨hin, hne, hle⟩
  refine ⟨hin, hne, ?_⟩
  cases hget : getEntry id isr.replicas with
  | none => exact absurd (h.known id hin) (getEntry_eq_none_iff.mp hget)
  | some state =>
  unfold leoOf at hle
  rw [hget] at hle
  exact decide_eq_true hle

theorem length_reached (h : isr.Known leaderID) (offset : UInt64) :
    (isr.reached offset).length + 1 = (isr.holding offset).card := by
  have hnodup : (isr.reached offset).Nodup := h.nodup.filter _
  have hout : leaderID ∉ (isr.reached offset).toFinset := by
    rw [List.mem_toFinset, mem_reached h]
    exact fun hin => hin.right.left rfl
  rw [← List.toFinset_card_of_nodup hnodup,
    ← Finset.card_insert_of_notMem hout]
  congr 1
  ext id
  unfold holding members
  rw [Finset.mem_insert, List.mem_toFinset, mem_reached h, Finset.mem_filter,
    Finset.mem_insert, List.mem_toFinset, h.leader]
  by_cases hid : id = leaderID
  · simp [hid]
  · simp [hid]

/--
The quorum is a strict majority of the leader and the replicas in sync exactly
unless the leader is one of these and a bare majority has reached the offset.
-/
theorem hasQuorum_iff_majority (leaderID : NodeID) (maxLag : Int64)
    (actions : List (ISRAction NodeID)) (offset : UInt64) :
    let isr := actions.foldl act (newISRSet leaderID maxLag)
    (isr.hasQuorum offset = true <->
        Majority isr.members (isr.holding offset)) <->
      ¬ (leaderID ∈ isr.isr ∧
        2 * (isr.holding offset).card = isr.members.card + 1) := by
  intro isr
  have h : isr.Known leaderID := known_foldl_act maxLag actions
  have hmembers := length_isr h
  have hholding := length_reached h offset
  have hquorum : isr.hasQuorum offset = true <->
      1 + (isr.reached offset).length > (isr.isr.length + 1) / 2 :=
    decide_eq_true_iff
  have hmajority : Majority isr.members (isr.holding offset) <->
      isr.members.card < 2 * (isr.holding offset).card :=
    ⟨fun hm => hm.card, fun hcard => ⟨Finset.filter_subset _ _, hcard⟩⟩
  rw [hquorum, hmajority]
  by_cases hin : leaderID ∈ isr.isr
  · rw [if_pos hin] at hmembers
    simp only [hin, true_and]
    omega
  · rw [if_neg hin] at hmembers
    simp only [hin, false_and, not_false_iff, iff_true]
    omega

/-- A leader that is alone, and one of the replicas in sync. -/
theorem not_hasQuorum_alone :
    let isr := [ISRAction.change (.addReplica (ascii "leader"))].foldl act
      (newISRSet (ascii "leader") 100)
    isr.members = {ascii "leader"} ∧ isr.hasQuorum 0 = false ∧
      Majority isr.members (isr.holding 0) := by
  refine ⟨by decide, by decide, Finset.filter_subset _ _, by decide⟩

end ISRSet

end Replication
end ChimeraMQ
