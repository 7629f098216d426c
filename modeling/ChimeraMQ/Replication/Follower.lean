import ChimeraMQ.Foundation.Bytes
import ChimeraMQ.Foundation.Entries

/-!
# A follower replica

A follower receives the writes of a leader and appends them to its own storage.
The storage is the node's: it holds the records of every partition, and an
append that fails leaves it as it is.
-/

namespace ChimeraMQ
namespace Replication

open Foundation

/-- The records that a node stores, for each topic and partition. -/
structure LocalStorage where
  logs : List ((Bytes × UInt32) × List Bytes)
deriving DecidableEq

namespace LocalStorage

def log (s : LocalStorage) (topic : Bytes) (partition : UInt32) : List Bytes :=
  (getEntry (topic, partition) s.logs).getD []

def append (s : LocalStorage) (topic : Bytes) (partition : UInt32)
    (data : Bytes) : LocalStorage × UInt64 :=
  let records := s.log topic partition
  ({ logs := setEntry (topic, partition) (records ++ [data]) s.logs },
    UInt64.ofNat records.length)

@[simp] theorem log_append (s : LocalStorage) (topic : Bytes)
    (partition : UInt32) (data : Bytes) :
    (s.append topic partition data).1.log topic partition =
      s.log topic partition ++ [data] := by
  unfold log append
  rw [getEntry_setEntry]
  rfl

end LocalStorage

structure ReplicateRequest where
  topic : Bytes
  partition : UInt32
  epoch : UInt64
  offset : UInt64
  data : Bytes
deriving DecidableEq

/-- Why a write was refused. -/
inductive ReplicateError where
  | localAppend (err : Bytes)
deriving DecidableEq

structure FollowerReplica (NodeID : Type) where
  topic : Bytes
  partition : UInt32
  leaderID : NodeID
  localEpoch : UInt64
  leo : UInt64
  storage : Option LocalStorage

namespace FollowerReplica

variable {NodeID : Type}

def newFollowerReplica (topic : Bytes) (partition : UInt32) (leaderID : NodeID)
    (storage : Option LocalStorage) : FollowerReplica NodeID where
  topic := topic
  partition := partition
  leaderID := leaderID
  localEpoch := 0
  leo := 0
  storage := storage

/--
Receive a write from the leader.  If the write is given to the storage, the
storage fails with `failure` if there is one.
-/
def replicate (f : FollowerReplica NodeID) (req : ReplicateRequest)
    (failure : Option Bytes) :
    FollowerReplica NodeID × Except ReplicateError Unit :=
  if req.epoch < f.localEpoch then (f, .ok ())
  else
    let f := { f with localEpoch := req.epoch }
    match f.storage with
    | none => ({ f with leo := req.offset + 1 }, .ok ())
    | some storage =>
    if req.data.length = 0 then
      ({ f with leo := req.offset + 1 }, .ok ())
    else
      match failure with
      | some err => (f, .error (.localAppend err))
      | none =>
        let r := storage.append req.topic req.partition req.data
        ({ f with storage := some r.1, leo := r.2 + 1 }, .ok ())

def setEpoch (f : FollowerReplica NodeID) (epoch : UInt64) :
    FollowerReplica NodeID :=
  if f.localEpoch < epoch then { f with localEpoch := epoch } else f

def log (f : FollowerReplica NodeID) (topic : Bytes) (partition : UInt32) :
    List Bytes :=
  match f.storage with
  | none => []
  | some storage => storage.log topic partition

def Stored (f f' : FollowerReplica NodeID) (req : ReplicateRequest) : Prop :=
  f'.log req.topic req.partition = f.log req.topic req.partition ++ [req.data]

instance (f f' : FollowerReplica NodeID) (req : ReplicateRequest) :
    Decidable (Stored f f' req) :=
  inferInstanceAs (Decidable (_ = _))

def Storable (f : FollowerReplica NodeID) (req : ReplicateRequest) : Prop :=
  f.localEpoch ≤ req.epoch ∧ f.storage.isSome = true ∧ req.data ≠ []

instance (f : FollowerReplica NodeID) (req : ReplicateRequest) :
    Decidable (f.Storable req) :=
  inferInstanceAs (Decidable (_ ∧ _ ∧ _))

theorem replicate_of_storable {f : FollowerReplica NodeID}
    {req : ReplicateRequest} (h : f.Storable req) (failure : Option Bytes) :
    exists storage, f.storage = some storage ∧
      f.replicate req failure =
        match failure with
        | some err =>
          ({ f with localEpoch := req.epoch }, .error (.localAppend err))
        | none =>
        ({ f with
            localEpoch := req.epoch
            storage := some
              (storage.append req.topic req.partition req.data).1
            leo := (storage.append req.topic req.partition req.data).2 + 1 },
          .ok ()) := by
  rcases h with ⟨hepoch, hsome, hdata⟩
  rcases Option.isSome_iff_exists.mp hsome with ⟨storage, hstorage⟩
  have hlength : req.data.length ≠ 0 :=
    fun h => hdata (List.length_eq_zero_iff.mp h)
  exists storage
  constructor
  · exact hstorage
  · unfold replicate
    rw [if_neg (UInt64.not_lt.mpr hepoch)]
    simp only [hstorage, if_neg hlength]

theorem replicate_of_not_storable {f : FollowerReplica NodeID}
    {req : ReplicateRequest} (h : ¬ f.Storable req) (failure : Option Bytes) :
    (f.replicate req failure).2 = .ok () ∧
      (f.replicate req failure).1.storage = f.storage := by
  unfold replicate
  by_cases hepoch : req.epoch < f.localEpoch
  · rw [if_pos hepoch]
    exact ⟨rfl, rfl⟩
  rw [if_neg hepoch]
  cases hstorage : f.storage with
  | none => exact ⟨rfl, rfl⟩
  | some storage =>
  have hempty : req.data.length = 0 := by
    apply Decidable.byContradiction
    intro hlength
    apply h
    constructor
    · exact UInt64.not_lt.mp hepoch
    constructor
    · rw [hstorage]
      rfl
    · intro hnil
      exact hlength (List.length_eq_zero_iff.mpr hnil)
  simp only [hempty, if_true, and_self]

theorem stored_iff_storable {f : FollowerReplica NodeID}
    {req : ReplicateRequest} {failure : Option Bytes}
    (hok : (f.replicate req failure).2 = .ok ()) :
    Stored f (f.replicate req failure).1 req <-> f.Storable req := by
  constructor
  · intro hstored
    apply Decidable.byContradiction
    intro hnot
    have hsame := (replicate_of_not_storable hnot failure).right
    unfold Stored log at hstored
    rw [hsame] at hstored
    exact List.cons_ne_nil _ _ (List.self_eq_append_right.mp hstored)
  intro h
  rcases replicate_of_storable h failure with ⟨storage, hstorage, hreplicate⟩
  cases failure with
  | some err =>
    rw [hreplicate] at hok
    cases hok
  | none =>
  rw [hreplicate]
  unfold Stored log
  rw [hstorage]
  exact storage.log_append _ _ _

theorem stored_of_isOk_iff (f : FollowerReplica NodeID)
    (req : ReplicateRequest) (failure : Option Bytes) :
    ((f.replicate req failure).2.isOk = true ->
      decide (f.Stored (f.replicate req failure).1 req) = true) <->
      f.Storable req := by
  constructor
  · intro h
    apply Decidable.byContradiction
    intro hnot
    have hok := (f.replicate_of_not_storable hnot failure).left
    rw [hok] at h
    exact hnot ((stored_iff_storable hok).mp
      (of_decide_eq_true (h rfl)))
  intro hstorable hisOk
  cases hresult : (f.replicate req failure).2 with
  | error err =>
    rw [hresult] at hisOk
    cases hisOk
  | ok u =>
  exact decide_eq_true
    ((stored_iff_storable hresult).mpr hstorable)

end FollowerReplica

end Replication
end ChimeraMQ
