import ChimeraMQ.Replication.Group

/-!
# The high watermark of a partition

One replicator and the writes it is given, one after the other.  Between two
calls of `ReplicateWrite` the replicas on record may change and the transport
may come and go; every call brings along how the transport answers its requests.
-/

namespace ChimeraMQ
namespace Replication

open Foundation

variable {NodeID : Type} [DecidableEq NodeID]

/-!
## Confirmations
-/

namespace ISRSet

theorem getEntry_updateLEO (isr : ISRSet NodeID) (nodeID id : NodeID)
    (leo : UInt64) :
    getEntry id (isr.updateLEO nodeID leo).replicas =
      (getEntry id isr.replicas).map (fun state =>
        if id = nodeID then { state with leo := leo, active := true }
        else state) := by
  unfold updateLEO
  cases hget : getEntry nodeID isr.replicas with
  | none =>
    by_cases heq : id = nodeID
    · rw [heq, hget]
      rfl
    · simp [heq]
  | some state =>
  by_cases heq : id = nodeID
  · rw [heq, getEntry_setEntry, hget]
    simp
  · simp [heq, getEntry_setEntry_ne]

theorem isr_updateLEO (isr : ISRSet NodeID) (nodeID : NodeID) (leo : UInt64) :
    (isr.updateLEO nodeID leo).isr = isr.isr ∧
      (isr.updateLEO nodeID leo).leaderID = isr.leaderID := by
  unfold updateLEO
  split
  · exact ⟨rfl, rfl⟩
  · exact ⟨rfl, rfl⟩

/-- A replica is known before the confirmations of some others exactly if it is
after them, and only those that confirmed have another offset. -/
theorem getEntry_foldl_updateLEO (leo : UInt64) (ids : List NodeID)
    (isr : ISRSet NodeID) (id : NodeID) :
    getEntry id
        (ids.foldl (fun isr n => isr.updateLEO n leo) isr).replicas =
      (getEntry id isr.replicas).map (fun state =>
        if id ∈ ids then { state with leo := leo, active := true }
        else state) := by
  induction ids generalizing isr with
  | nil => simp
  | cons n rest ih =>
  rw [List.foldl_cons, ih, getEntry_updateLEO, Option.map_map]
  congr 1
  funext state
  by_cases heq : id = n
  · by_cases hmem : n ∈ rest
    · simp [heq, hmem]
    · simp [heq, hmem]
  · simp [heq]

theorem isr_foldl_updateLEO (leo : UInt64) (ids : List NodeID)
    (isr : ISRSet NodeID) :
    (ids.foldl (fun isr n => isr.updateLEO n leo) isr).isr = isr.isr ∧
      (ids.foldl (fun isr n => isr.updateLEO n leo) isr).leaderID =
        isr.leaderID := by
  induction ids generalizing isr with
  | nil => exact ⟨rfl, rfl⟩
  | cons n rest ih =>
  rcases isr_updateLEO isr n leo with ⟨hisr, hleader⟩
  rcases ih (isr.updateLEO n leo) with ⟨hisrs, hleaders⟩
  exact ⟨hisrs.trans hisr, hleaders.trans hleader⟩

end ISRSet

namespace Replicator

/-!
## A write from its begin to its end
-/

/-- The follower is sent the request and answers it without an error. -/
def confirms (r : Replicator NodeID) (req : ReplicateRequest)
    (answer : NodeID -> ReplicateRequest -> Bool) (id : NodeID) : Bool :=
  r.transport && (id ≠ r.leaderID && answer id req)

def refuses (r : Replicator NodeID) (req : ReplicateRequest)
    (answer : NodeID -> ReplicateRequest -> Bool) (id : NodeID) : Bool :=
  r.transport && (id ≠ r.leaderID && !answer id req)

/--
`ReplicateWrite`, given how the transport answers.  The high watermark is set
before the first request goes out.
-/
def replicateWrite (r : Replicator NodeID) (data : Bytes) (offset : UInt64)
    (answer : NodeID -> ReplicateRequest -> Bool) :
    Replicator NodeID × Except AckError Unit :=
  let isrMembers := r.isr.isr
  let req := r.request data offset
  let confirmed := isrMembers.filter (r.confirms req answer)
  let errors := isrMembers.filter (r.refuses req answer)
  let r := confirmed.foldl (fun r id => r.confirm id offset)
    (r.beginWrite offset)
  (r, r.endWrite offset errors.length)

theorem foldl_confirm (r : Replicator NodeID) (offset : UInt64)
    (ids : List NodeID) :
    ids.foldl (fun r id => r.confirm id offset) r =
      { r with
        isr := ids.foldl (fun isr n => isr.updateLEO n (offset + 1)) r.isr } := by
  induction ids generalizing r with
  | nil => rfl
  | cons n rest ih => exact ih (r.confirm n offset)

theorem hw_replicateWrite (r : Replicator NodeID) (data : Bytes)
    (offset : UInt64) (answer : NodeID -> ReplicateRequest -> Bool) :
    (r.replicateWrite data offset answer).1.hw = offset + 1 := by
  unfold replicateWrite
  simp only [foldl_confirm]
  rfl

/-- The follower is known and confirms the request or has the offset already. -/
def counted (r : Replicator NodeID) (req : ReplicateRequest)
    (answer : NodeID -> ReplicateRequest -> Bool) (id : NodeID) : Bool :=
  id ≠ r.isr.leaderID &&
    match getEntry id r.isr.replicas with
    | none => false
    | some state =>
      r.confirms req answer id || decide (req.offset + 1 ≤ state.leo)

/-- What the policy asks for: nothing, enough followers, or no refusal. -/
def Acknowledged (r : Replicator NodeID) (data : Bytes) (offset : UInt64)
    (answer : NodeID -> ReplicateRequest -> Bool) : Prop :=
  match r.policy with
  | .ackLeader => True
  | .ackQuorum =>
    (r.isr.isr.length + 1) / 2 <
      1 + r.isr.isr.countP (r.counted (r.request data offset) answer)
  | .ackAll =>
    forall id, id ∈ r.isr.isr ->
      r.refuses (r.request data offset) answer id = false

instance (r : Replicator NodeID) (data : Bytes) (offset : UInt64)
    (answer : NodeID -> ReplicateRequest -> Bool) :
    Decidable (r.Acknowledged data offset answer) := by
  unfold Acknowledged
  split
  · exact inferInstance
  · exact inferInstance
  · exact inferInstance

theorem reached_foldl_confirm (r : Replicator NodeID) (data : Bytes)
    (offset : UInt64) (answer : NodeID -> ReplicateRequest -> Bool) :
    ISRSet.reached
        ((r.isr.isr.filter (r.confirms (r.request data offset) answer)).foldl
          (fun isr n => isr.updateLEO n (offset + 1)) r.isr) (offset + 1) =
      r.isr.isr.filter (r.counted (r.request data offset) answer) := by
  unfold ISRSet.reached
  rw [(ISRSet.isr_foldl_updateLEO ..).left, (ISRSet.isr_foldl_updateLEO ..).right]
  apply List.filter_congr
  intro id hid
  unfold counted
  rw [ISRSet.getEntry_foldl_updateLEO]
  cases getEntry id r.isr.replicas with
  | none => rfl
  | some state =>
  cases hconfirms : r.confirms (r.request data offset) answer id with
  | true => simp [List.mem_filter, hid, hconfirms]
  | false =>
  simp only [Option.map_some, List.mem_filter, hid, hconfirms]
  rfl

theorem replicateWrite_ok_iff (r : Replicator NodeID) (data : Bytes)
    (offset : UInt64) (answer : NodeID -> ReplicateRequest -> Bool) :
    (r.replicateWrite data offset answer).2 = .ok () <->
      r.Acknowledged data offset answer := by
  unfold replicateWrite endWrite Acknowledged
  simp only [foldl_confirm]
  change (match r.policy with
    | .ackLeader => _
    | .ackQuorum => _
    | .ackAll => _) = _ <-> _
  cases hpolicy : r.policy with
  | ackLeader => simp
  | ackQuorum =>
    have hreached := congrArg List.length
      (reached_foldl_confirm r data offset answer)
    have hisr := (ISRSet.isr_foldl_updateLEO (offset + 1)
      (r.isr.isr.filter (r.confirms (r.request data offset) answer))
      r.isr).left
    rw [← List.countP_eq_length_filter] at hreached
    simp only [ISRSet.hasQuorum, beginWrite, hreached, hisr]
    simp
  | ackAll =>
  simp only [List.length_eq_zero_iff, List.filter_eq_nil_iff,
    Bool.not_eq_true]
  split
  · rename_i hnone
    exact ⟨fun _ => hnone, fun _ => rfl⟩
  · rename_i hsome
    exact ⟨fun h => (by cases h), fun h => absurd h hsome⟩

end Replicator

/-!
## Runs of a replicator
-/

structure WriteHistory (NodeID : Type) where
  replicator : Replicator NodeID
  /-- The offsets of the writes that were acknowledged. -/
  acked : List UInt64
  /-- The high watermark before the last write. -/
  before : UInt64
  /-- The last write returned an error. -/
  failed : Bool

inductive WriteAction (NodeID : Type) where
  | setTransport (present : Bool)
  | setEpoch (epoch : UInt64)
  | changeISR (change : ISRChange NodeID)
  | updateLEO (id : NodeID) (leo : UInt64)
  | checkISRHealth
  | replicateWrite (data : Bytes) (offset : UInt64)
      (answer : NodeID -> ReplicateRequest -> Bool)

namespace WriteHistory

def start (topic : Bytes) (partition : UInt32) (leaderID : NodeID)
    (policy : AckPolicy) (maxLag : Int64) : WriteHistory NodeID where
  replicator := .newReplicator topic partition leaderID policy maxLag
  acked := []
  before := 0
  failed := false

def withISR (h : WriteHistory NodeID) (isr : ISRSet NodeID) :
    WriteHistory NodeID :=
  { h with replicator := { h.replicator with isr := isr } }

def step (h : WriteHistory NodeID) :
    WriteAction NodeID -> Option (WriteHistory NodeID)
  | .setTransport present =>
    some { h with replicator := h.replicator.setTransport present }
  | .setEpoch epoch =>
    some { h with replicator := h.replicator.setEpoch epoch }
  | .changeISR change => some (h.withISR (h.replicator.isr.change change))
  | .updateLEO id leo => some (h.withISR (h.replicator.isr.updateLEO id leo))
  | .checkISRHealth =>
    some { h with replicator := h.replicator.checkISRHealth }
  | .replicateWrite data offset answer =>
    let result := h.replicator.replicateWrite data offset answer
    some {
      replicator := result.1
      acked := if result.2.isOk then h.acked ++ [offset] else h.acked
      before := h.replicator.hw
      failed := !result.2.isOk }

def nextAfter (offsets : List UInt64) : Nat :=
  offsets.foldl (fun next offset => max next (offset.toNat + 1)) 0

/--
The watermark is one more than the largest acknowledged offset; an error has
left it where it was, and it has not gone back.
-/
structure Follows (h : WriteHistory NodeID) : Prop where
  largest : h.replicator.hw.toNat = nextAfter h.acked
  unchanged : h.failed = true -> h.replicator.hw = h.before
  forward : h.before ≤ h.replicator.hw

/--
A write that is acknowledged is not below the high watermark and has an offset
after it, and one that is not acknowledged is the one right below it.
-/
def InOrder (h : WriteHistory NodeID) : WriteAction NodeID -> Prop
  | .replicateWrite data offset answer =>
    if h.replicator.Acknowledged data offset answer then
      h.replicator.hw.toNat ≤ offset.toNat + 1 ∧
        offset.toNat + 1 < UInt64.size
    else h.replicator.hw = offset + 1
  | _ => True

theorem nextAfter_append (offsets : List UInt64) (offset : UInt64) :
    nextAfter (offsets ++ [offset]) =
      max (nextAfter offsets) (offset.toNat + 1) := by
  unfold nextAfter
  rw [List.foldl_append]
  rfl

theorem toNat_add_one (offset : UInt64) :
    (offset + 1).toNat = (offset.toNat + 1) % UInt64.size :=
  UInt64.toNat_add offset 1

theorem follows_replicateWrite {h h' : WriteHistory NodeID} (hgood : Follows h)
    {data : Bytes} {offset : UInt64}
    {answer : NodeID -> ReplicateRequest -> Bool}
    (hstep : step h (.replicateWrite data offset answer) = some h') :
    Follows h' <-> InOrder h (.replicateWrite data offset answer) := by
  have hok := h.replicator.replicateWrite_ok_iff data offset answer
  have hhw := h.replicator.hw_replicateWrite data offset answer
  have hlargest := hgood.largest
  have hnext := toNat_add_one offset
  simp only [InOrder]
  simp only [step, Option.some.injEq] at hstep
  cases hresult : (h.replicator.replicateWrite data offset answer).2 with
  | ok u =>
    have hack := hok.mp hresult
    rw [if_pos hack]
    rw [hresult] at hstep
    cases hstep
    constructor
    · intro hfollows
      have hone := hfollows.largest
      simp only [hhw, Except.isOk, Except.toBool, if_true,
        nextAfter_append] at hone
      have hsmall : offset.toNat + 1 ≤ UInt64.size := offset.toNat_lt
      rcases Nat.lt_or_eq_of_le hsmall with hlt | heq
      · rw [Nat.mod_eq_of_lt hlt] at hnext
        exact ⟨by omega, hlt⟩
      · rw [heq, Nat.mod_self] at hnext
        omega
    rintro ⟨hle, hlt⟩
    rw [Nat.mod_eq_of_lt hlt] at hnext
    constructor
    · simp only [hhw, Except.isOk, Except.toBool, if_true,
        nextAfter_append]
      omega
    · intro hfailed
      cases hfailed
    · change h.replicator.hw ≤ _
      rw [UInt64.le_iff_toNat_le, hhw]
      omega
  | error e =>
  have hnot : ¬ h.replicator.Acknowledged data offset answer := by
    intro hack
    rw [hok.mpr hack] at hresult
    cases hresult
  rw [if_neg hnot]
  rw [hresult] at hstep
  cases hstep
  constructor
  · intro hfollows
    exact (hfollows.unchanged rfl).symm.trans hhw
  intro heq
  constructor
  · simp only [hhw, Except.isOk, Except.toBool]
    rw [← heq]
    exact hlargest
  · intro _
    rw [hhw]
    exact heq.symm
  · rw [hhw, heq]
    exact UInt64.le_refl _

theorem follows_step {h h' : WriteHistory NodeID} (hgood : Follows h)
    {a : WriteAction NodeID} (hstep : step h a = some h') :
    Follows h' <-> InOrder h a := by
  have hsame : h'.replicator.hw = h.replicator.hw -> h'.acked = h.acked ->
      h'.before = h.before -> h'.failed = h.failed -> Follows h' := by
    intro hhw hacked hbefore hfailed
    constructor
    · rw [hhw, hacked]
      exact hgood.largest
    · rw [hhw, hbefore, hfailed]
      exact hgood.unchanged
    · rw [hhw, hbefore]
      exact hgood.forward
  cases a with
  | setTransport present =>
    cases hstep
    exact iff_of_true (hsame rfl rfl rfl rfl) trivial
  | setEpoch epoch =>
    cases hstep
    exact iff_of_true (hsame rfl rfl rfl rfl) trivial
  | changeISR change =>
    cases hstep
    exact iff_of_true (hsame rfl rfl rfl rfl) trivial
  | updateLEO id leo =>
    cases hstep
    exact iff_of_true (hsame rfl rfl rfl rfl) trivial
  | checkISRHealth =>
    cases hstep
    exact iff_of_true (hsame rfl rfl rfl rfl) trivial
  | replicateWrite data offset answer => exact follows_replicateWrite hgood hstep

omit [DecidableEq NodeID] in
theorem follows_start (topic : Bytes) (partition : UInt32) (leaderID : NodeID)
    (policy : AckPolicy) (maxLag : Int64) :
    Follows (start topic partition leaderID policy maxLag) where
  largest := rfl
  unchanged := fun _ => rfl
  forward := UInt64.le_refl _

/--
The watermark follows the acknowledged writes exactly if each acknowledged write
is at or above it and each refused one right below it.
-/
theorem follows_iff_inOrder (topic : Bytes) (partition : UInt32)
    (leaderID : NodeID) (policy : AckPolicy) (maxLag : Int64)
    (actions : List (WriteAction NodeID)) :
    (forall front, front <+: actions -> forall h,
      run? step (start topic partition leaderID policy maxLag) front = some h ->
        Follows h) <->
      Meets step InOrder (start topic partition leaderID policy maxLag)
        actions := by
  apply run?_throughout_iff_meets
  · exact fun _ _ _ hgood hstep => follows_step hgood hstep
  · intro h a
    cases a with
    | setTransport present => exact ⟨_, rfl⟩
    | setEpoch epoch => exact ⟨_, rfl⟩
    | changeISR change => exact ⟨_, rfl⟩
    | updateLEO id leo => exact ⟨_, rfl⟩
    | checkISRHealth => exact ⟨_, rfl⟩
    | replicateWrite data offset answer => exact ⟨_, rfl⟩
  · exact follows_start topic partition leaderID policy maxLag

def unanswered : List (WriteAction Nat) :=
  [.changeISR (.addReplica 2), .changeISR (.addReplica 3), .setTransport true,
    .replicateWrite [7] 0 (fun _ _ => false)]

/-- A write without a quorum moves the high watermark all the same. -/
theorem not_follows_unanswered :
    exists h, run? step (start [116] 0 1 .ackQuorum 10) unanswered = some h ∧
      h.acked = [] ∧ h.replicator.hw = 1 ∧ ¬ Follows h := by
  have hcheck : (run? step (start [116] 0 1 .ackQuorum 10) unanswered).map
      (fun h => (h.acked, h.replicator.hw)) = some ([], 1) := by decide +kernel
  rcases Option.map_eq_some_iff.mp hcheck with ⟨h, hrun, hvalues⟩
  rcases Prod.mk.inj hvalues with ⟨hacked, hhw⟩
  refine ⟨h, hrun, hacked, hhw, ?_⟩
  intro hfollows
  have hone := hfollows.largest
  rw [hacked, hhw] at hone
  cases hone

end WriteHistory

end Replication
end ChimeraMQ
