import ChimeraMQ.Foundation.Run
import ChimeraMQ.Replication.Replicator

/-!
# The log of a follower

The requests of one leader reach a follower in any order, any number of times or
not at all.  The follower appends each of them at its own next offset, so its log
agrees with the one of the leader as long as the next offset is the requested one.
-/

namespace ChimeraMQ
namespace Replication

open Foundation

variable {NodeID : Type}

namespace FollowerReplica

theorem log_replicate (f : FollowerReplica NodeID) (req : ReplicateRequest)
    (failure : Option Bytes) :
    (f.replicate req failure).1.log req.topic req.partition =
      if f.Storable req ∧ failure = none then
        f.log req.topic req.partition ++ [req.data]
      else f.log req.topic req.partition := by
  by_cases hstorable : f.Storable req
  · rcases replicate_of_storable hstorable failure with ⟨storage, hstorage, hrep⟩
    rw [hrep]
    cases failure with
    | none =>
      rw [if_pos ⟨hstorable, rfl⟩]
      unfold log
      rw [hstorage]
      exact storage.log_append _ _ _
    | some err =>
    rw [if_neg (by simp)]
    rfl
  · rw [if_neg (fun h => hstorable h.left)]
    unfold log
    rw [(replicate_of_not_storable hstorable failure).right]

theorem isOk_replicate (f : FollowerReplica NodeID) (req : ReplicateRequest)
    (failure : Option Bytes) :
    (f.replicate req failure).2.isOk = true <->
      ¬ (f.Storable req ∧ failure ≠ none) := by
  by_cases hstorable : f.Storable req
  · rcases replicate_of_storable hstorable failure with ⟨storage, _, hrep⟩
    rw [hrep]
    cases failure with
    | none => simp [Except.isOk, Except.toBool]
    | some err => simp [Except.isOk, Except.toBool, hstorable]
  rw [(replicate_of_not_storable hstorable failure).left]
  constructor
  · exact fun _ h => hstorable h.left
  · intro _
    rfl

end FollowerReplica

/-- A follower and the offsets for which it has returned without an error. -/
structure Following (NodeID : Type) where
  follower : FollowerReplica NodeID
  answered : List UInt64

structure Arrival where
  offset : UInt64
  failure : Option Bytes

namespace Following

section Leader

/-! The leader, and its record at each offset. -/

variable (leader : Replicator NodeID) (record : UInt64 -> Bytes)

def requestAt (offset : UInt64) : ReplicateRequest :=
  leader.request (record offset) offset

def step (s : Following NodeID) (a : Arrival) : Option (Following NodeID) :=
  let r := s.follower.replicate (requestAt leader record a.offset) a.failure
  some
    { follower := r.1
      answered := if r.2.isOk then s.answered ++ [a.offset] else s.answered }

def log (s : Following NodeID) : List Bytes :=
  s.follower.log leader.topic leader.partition

/-- The follower holds the leader's record at every offset it has answered. -/
def Agrees (s : Following NodeID) : Prop :=
  forall o, o ∈ s.answered -> (s.log leader)[o.toNat]? = some (record o)

/--
The follower holds the record at the offset already, or it gives the data to its
storage, which fails or has the offset as its next one.
-/
def InPlace (s : Following NodeID) (a : Arrival) : Prop :=
  (s.log leader)[a.offset.toNat]? = some (record a.offset) ∨
    s.follower.Storable (requestAt leader record a.offset) ∧
      (a.failure ≠ none ∨ a.offset.toNat = (s.log leader).length)

variable {leader : Replicator NodeID} {record : UInt64 -> Bytes}

variable {s s' : Following NodeID}

theorem log_step {a : Arrival} (hstep : s.step leader record a = some s') :
    s'.log leader =
      if s.follower.Storable (requestAt leader record a.offset) ∧
        a.failure = none then s.log leader ++ [record a.offset]
      else s.log leader := by
  cases hstep
  exact s.follower.log_replicate (requestAt leader record a.offset) a.failure

theorem answered_step {a : Arrival} (hstep : s.step leader record a = some s') :
    s'.answered =
      if s.follower.Storable (requestAt leader record a.offset) ∧
        a.failure ≠ none then s.answered
      else s.answered ++ [a.offset] := by
  have hok := s.follower.isOk_replicate (requestAt leader record a.offset)
    a.failure
  cases hstep
  by_cases hfails : s.follower.Storable (requestAt leader record a.offset) ∧
      a.failure ≠ none
  · rw [if_pos hfails]
    exact if_neg (fun h => hok.mp h hfails)
  · rw [if_neg hfails]
    exact if_pos (hok.mpr hfails)

theorem agrees_of_append (h : s.Agrees leader record) {offset : UInt64}
    {back : List Bytes} (hlog : s'.log leader = s.log leader ++ back)
    (hanswered : s'.answered = s.answered ++ [offset]) :
    s'.Agrees leader record <->
      (s.log leader ++ back)[offset.toNat]? = some (record offset) := by
  unfold Agrees
  rw [hlog, hanswered]
  simp only [List.forall_mem_append, List.forall_mem_singleton]
  constructor
  · exact And.right
  intro hnew
  constructor
  · intro o ho
    have hold := h o ho
    rw [List.getElem?_append_left (List.getElem?_eq_some_iff.mp hold).1]
    exact hold
  · exact hnew

theorem getElem?_concat_iff {xs : List Bytes} {i : Nat} {x : Bytes} :
    (xs ++ [x])[i]? = some x <-> xs[i]? = some x ∨ i = xs.length := by
  rcases Nat.lt_trichotomy i xs.length with hlt | heq | hgt
  · rw [List.getElem?_append_left hlt]
    constructor
    · exact Or.inl
    · intro h
      exact h.resolve_right (Nat.ne_of_lt hlt)
  · rw [heq, List.getElem?_concat_length]
    exact iff_of_true rfl (Or.inr rfl)
  rw [List.getElem?_eq_none (by rw [List.length_append]; exact hgt),
    List.getElem?_eq_none (Nat.le_of_lt hgt)]
  constructor
  · intro h
    cases h
  intro h
  rcases h with h | h
  · cases h
  · exact absurd h (Nat.ne_of_gt hgt)

theorem agrees_step_iff {a : Arrival} (h : s.Agrees leader record)
    (hstep : s.step leader record a = some s') :
    s'.Agrees leader record <-> s.InPlace leader record a := by
  have hlog := log_step hstep
  have hanswered := answered_step hstep
  unfold InPlace
  by_cases hstorable : s.follower.Storable (requestAt leader record a.offset)
  · cases hfailure : a.failure with
    | none =>
      rw [if_pos ⟨hstorable, hfailure⟩] at hlog
      rw [if_neg (fun hf => hf.right hfailure)] at hanswered
      rw [agrees_of_append h hlog hanswered, getElem?_concat_iff]
      simp [hstorable]
    | some err =>
    have hne : a.failure ≠ none := by simp [hfailure]
    rw [if_neg (fun hf => hne hf.right)] at hlog
    rw [if_pos ⟨hstorable, hne⟩] at hanswered
    unfold Agrees
    rw [hlog, hanswered]
    exact iff_of_true h (Or.inr ⟨hstorable, Or.inl (by simp)⟩)
  · rw [if_neg (fun hf => hstorable hf.left), ← List.append_nil (s.log leader)]
      at hlog
    rw [if_neg (fun hf => hstorable hf.left)] at hanswered
    rw [agrees_of_append h hlog hanswered, List.append_nil]
    exact ⟨Or.inl, fun hor => hor.resolve_right (fun hs => hstorable hs.left)⟩

end Leader

def start (f : FollowerReplica NodeID) : Following NodeID where
  follower := f
  answered := []

/--
The follower holds the leader's record at every offset that it has answered
without an error if and only if every delivery is in place.
-/
theorem agrees_iff_inPlace (leader : Replicator NodeID)
    (record : UInt64 -> Bytes) (f : FollowerReplica NodeID)
    (arrivals : List Arrival) :
    (forall front, front <+: arrivals -> forall s,
      run? (step leader record) (start f) front = some s ->
        s.Agrees leader record) <->
      Meets (step leader record) (InPlace leader record) (start f) arrivals :=
  run?_throughout_iff_meets (fun _ _ _ h hs => agrees_step_iff h hs)
    (fun _ _ => ⟨_, rfl⟩) (fun _ ho => absurd ho List.not_mem_nil) arrivals

/-- A request that arrives twice moves what comes after it by one offset. -/
theorem not_agrees_repeated :
    ¬ forall (leader : Replicator Nat) (record : UInt64 -> Bytes)
        (f : FollowerReplica Nat) (arrivals : List Arrival) (s : Following Nat),
      f.storage.isSome = true ->
      run? (step leader record) (start f) arrivals = some s ->
        s.Agrees leader record := by
  intro hall
  let leader : Replicator Nat := .newReplicator [] 0 1 .ackQuorum 10
  let record : UInt64 -> Bytes := fun o => [o.toUInt8]
  let f : FollowerReplica Nat := .newFollowerReplica [] 0 1 (some ⟨[]⟩)
  have hagrees := hall leader record f
    [⟨0, none⟩, ⟨0, none⟩, ⟨1, none⟩] _ rfl rfl 1 (by decide)
  revert hagrees
  decide

end Following

end Replication
end ChimeraMQ
