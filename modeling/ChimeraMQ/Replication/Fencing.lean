import ChimeraMQ.Replication.Group

/-!
# Fencing of deposed leaders

A follower that answers a write without an error has stored it, and a replicator
counts no follower that has not, as long as every write that arrives is one that
the follower gives to its storage.  A write from an older epoch is not, but it is
answered without an error all the same.
-/

namespace ChimeraMQ
namespace Replication

open Foundation

variable {NodeID : Type} [DecidableEq NodeID]

theorem ISRSet.leoOf_change_le (isr : ISRSet NodeID) (change : ISRChange NodeID)
    (id : NodeID) : (isr.change change).leoOf id ≤ isr.leoOf id := by
  cases change with
  | addReplica nodeID => exact isr.leoOf_addReplica_le nodeID id
  | removeReplica nodeID => exact isr.leoOf_removeReplica_le nodeID id
  | shrinkISR nodeID => exact UInt64.le_refl _
  | expandISR nodeID =>
  change (isr.expandISR nodeID).1.leoOf id ≤ isr.leoOf id
  unfold expandISR
  cases getEntry nodeID isr.replicas with
  | none => exact UInt64.le_refl _
  | some state =>
  by_cases hactive : state.active = true
  · simp only [hactive, if_true]
    exact UInt64.le_refl _
  · simp only [hactive, Bool.false_eq_true, if_false]
    exact UInt64.le_refl _

/--
A replicator that counts a follower for a write has a reason to, or the follower
had been recorded beyond the write before.
-/
structure Outcome.Sound (o : Outcome NodeID) (w : Write NodeID)
    (reason : NodeID -> Prop) : Prop where
  quorum : o.policy = .ackQuorum -> forall m, m ∈ o.reached ->
    w.next ≤ w.before.leoOf m ∨ reason m
  all : o.policy = .ackAll -> o.result = .ok () -> forall m, m ∈ w.sent ->
    reason m

theorem Outcome.Sound.mono {o : Outcome NodeID} {w : Write NodeID}
    {reason reason' : NodeID -> Prop} (h : o.Sound w reason)
    (himp : forall m, reason m -> reason' m) : o.Sound w reason' where
  quorum := fun hpolicy m hm => (h.quorum hpolicy m hm).imp_right (himp m)
  all := fun hpolicy hok m hm => himp m (h.all hpolicy hok m hm)

namespace Group

def StoredBy (s : Group NodeID) (write : Nat) (m : NodeID) : Prop :=
  exists d, d ∈ s.deliveries ∧ d.write = write ∧ d.peer = m ∧ d.stored = true

/-- Some execution of the write by the follower ended without an error. -/
def Answered (s : Group NodeID) (write : Nat) (m : NodeID) : Prop :=
  exists d, d ∈ s.deliveries ∧ d.write = write ∧ d.peer = m ∧ d.ok = true

def AnswersStored (s : Group NodeID) : Prop :=
  forall d, d ∈ s.deliveries -> d.ok = true -> d.stored = true

/--
A follower that answers without an error has stored the write, and so has every
follower that a replicator counts.
-/
structure Fenced (s : Group NodeID) : Prop where
  answers : s.AnswersStored
  counted : forall o, o ∈ s.outcomes ->
    exists w, s.writes[o.write]? = some w ∧ o.Sound w (s.StoredBy o.write)

def Storable (s : Group NodeID) : GroupAction NodeID -> Prop
  | .replicate write peer _ =>
    match s.writes[write]? with
    | none => True
    | some w => (s.followers peer).Storable w.req
  | _ => True

instance (s : Group NodeID) (a : GroupAction NodeID) :
    Decidable (s.Storable a) :=
  match a with
  | .replicate write peer _ =>
    match h : s.writes[write]? with
    | none => isTrue (by simp only [Storable, h])
    | some w =>
      decidable_of_iff ((s.followers peer).Storable w.req)
        (by simp only [Storable, h])
  | .setTransport _ _ => inferInstanceAs (Decidable True)
  | .setEpoch _ _ => inferInstanceAs (Decidable True)
  | .followerSetEpoch _ _ => inferInstanceAs (Decidable True)
  | .changeISR _ _ => inferInstanceAs (Decidable True)
  | .checkISRHealth _ => inferInstanceAs (Decidable True)
  | .beginWrite _ _ _ => inferInstanceAs (Decidable True)
  | .respond _ => inferInstanceAs (Decidable True)
  | .fail _ _ => inferInstanceAs (Decidable True)
  | .endWrite _ => inferInstanceAs (Decidable True)

/--
What a replicator that is busy with a write has recorded: it took no answer that
was not given, and it has raised no other replica beyond the write.
-/
structure Tracks (w : Write NodeID) (p : Progress NodeID) (isr : ISRSet NodeID)
    (answered : NodeID -> Prop) : Prop where
  confirmed : forall m, m ∈ p.confirmed -> answered m
  reached : forall m, w.next ≤ isr.leoOf m ->
    w.next ≤ w.before.leoOf m ∨ m ∈ p.confirmed
  sent : p.errors = 0 -> forall m, m ∈ w.sent ->
    m ∈ p.waiting ∨ m ∈ p.confirmed

structure Inv (s : Group NodeID) : Prop where
  busy : forall n p, s.busy n = some p ->
    exists w, s.writes[p.write]? = some w ∧
      Tracks w p (s.replicators n).isr (s.Answered p.write)
  outcomes : forall o, o ∈ s.outcomes ->
    exists w, s.writes[o.write]? = some w ∧ o.Sound w (s.Answered o.write)

variable {w : Write NodeID} {p : Progress NodeID} {answered : NodeID -> Prop}

theorem Tracks.mono {isr isr' : ISRSet NodeID} {answered' : NodeID -> Prop}
    (h : Tracks w p isr answered) (hle : forall m, isr'.leoOf m ≤ isr.leoOf m)
    (himp : forall m, answered m -> answered' m) :
    Tracks w p isr' answered' where
  confirmed := fun m hm => himp m (h.confirmed m hm)
  reached := fun m hm => h.reached m (UInt64.le_trans hm (hle m))
  sent := h.sent

/-!
## Steps
-/

variable {s s' : Group NodeID}

variable (h : Inv s)

include h

/--
What holds after a step: writes and executions are only added, and whatever a
replicator is busy with now or has ended now is accounted for.
-/
theorem Inv.of_step (hwrites : forall (i : Nat) w, s.writes[i]? = some w ->
      s'.writes[i]? = some w)
    (hanswered : forall i m, s.Answered i m -> s'.Answered i m)
    (hbusy : forall n p, s'.busy n = some p ->
      (s.busy n = some p ∧ forall m, (s'.replicators n).isr.leoOf m ≤
        (s.replicators n).isr.leoOf m) ∨
      exists w, s'.writes[p.write]? = some w ∧
        Tracks w p (s'.replicators n).isr (s'.Answered p.write))
    (houtcomes : forall o, o ∈ s'.outcomes -> o ∈ s.outcomes ∨
      exists w, s'.writes[o.write]? = some w ∧
        o.Sound w (s'.Answered o.write)) : Inv s' where
  busy := by
    intro n p hp
    rcases hbusy n p hp with ⟨hold, hle⟩ | hnew
    · rcases h.busy n p hold with ⟨w, hw, htracks⟩
      exact ⟨w, hwrites _ w hw, htracks.mono hle (hanswered _)⟩
    · exact hnew
  outcomes := by
    intro o ho
    rcases houtcomes o ho with hold | hnew
    · rcases h.outcomes o hold with ⟨w, hw, hsound⟩
      exact ⟨w, hwrites _ w hw, hsound.mono (hanswered _)⟩
    · exact hnew

theorem Inv.of_replicators (hle : forall n, s'.busy n = s.busy n ∧ forall m,
      (s'.replicators n).isr.leoOf m ≤ (s.replicators n).isr.leoOf m)
    (hwrites : s'.writes = s.writes)
    (hdeliveries : s'.deliveries = s.deliveries)
    (houtcomes : s'.outcomes = s.outcomes) : Inv s' := by
  apply h.of_step
  · intro i w hw
    rw [hwrites]
    exact hw
  · intro i m hm
    unfold Answered
    rw [hdeliveries]
    exact hm
  · intro n p hp
    rw [(hle n).left] at hp
    exact Or.inl ⟨hp, (hle n).right⟩
  · intro o ho
    rw [houtcomes] at ho
    exact Or.inl ho

variable {n : NodeID}

theorem Inv.setReplicator {r : Replicator NodeID}
    (hle : forall m, r.isr.leoOf m ≤ (s.replicators n).isr.leoOf m) :
    Inv (s.setReplicator n r) := by
  apply h.of_replicators
  · intro k
    constructor
    · rfl
    intro m
    change (Function.update s.replicators n r k).isr.leoOf m ≤ _
    by_cases hk : k = n
    · rw [hk, Function.update_self]
      exact hle m
    · rw [Function.update_of_ne hk]
      exact UInt64.le_refl _
  · rfl
  · rfl
  · rfl

theorem Inv.locked {f : Replicator NodeID -> Replicator NodeID}
    (hle : forall m, (f (s.replicators n)).isr.leoOf m ≤
      (s.replicators n).isr.leoOf m) (hstep : s.locked n f = some s') :
    Inv s' := by
  rw [locked_some hstep]
  exact h.setReplicator hle

theorem Inv.setFollower (n : NodeID) (f : FollowerReplica NodeID) :
    Inv (s.setFollower n f) :=
  h.of_replicators (fun _ => ⟨rfl, fun _ => UInt64.le_refl _⟩) rfl rfl rfl

theorem Inv.addWrite (w : Write NodeID) :
    Inv { s with writes := s.writes ++ [w] } := by
  apply h.of_step
  · intro i v hv
    change (s.writes ++ [w])[i]? = some v
    rw [List.getElem?_append_left (List.getElem?_eq_some_iff.mp hv).1]
    exact hv
  · exact fun _ _ hm => hm
  · exact fun _ _ hp => Or.inl ⟨hp, fun _ => UInt64.le_refl _⟩
  · exact fun _ ho => Or.inl ho

theorem Inv.setBusy {q : Option (Progress NodeID)}
    (hq : forall p, q = some p -> exists w, s.writes[p.write]? = some w ∧
      Tracks w p (s.replicators n).isr (s.Answered p.write)) :
    Inv (s.setBusy n q) := by
  apply h.of_step
  · exact fun _ _ hw => hw
  · exact fun _ _ hm => hm
  · intro k p hp
    change Function.update s.busy n q k = some p at hp
    by_cases hk : k = n
    · rw [hk, Function.update_self] at hp
      rw [hk]
      exact Or.inr (hq p hp)
    · rw [Function.update_of_ne hk] at hp
      exact Or.inl ⟨hp, fun _ => UInt64.le_refl _⟩
  · exact fun _ ho => Or.inl ho

omit h in
theorem tracks_new (w : Write NodeID) (i : Nat) (answered : NodeID -> Prop) :
    Tracks w ⟨i, w.sent, [], 0⟩ w.before answered where
  confirmed := fun _ hm => absurd hm List.not_mem_nil
  reached := fun _ hm => Or.inl hm
  sent := fun _ _ hm => Or.inl hm

theorem Inv.beginWrite {data : Bytes} {offset : UInt64}
    (hstep : s.beginWrite n data offset = some s') : Inv s' := by
  rcases beginWrite_some hstep with ⟨w, hbefore, hs'⟩
  have hset : Inv (({ s with writes := s.writes ++ [w] } :
      Group NodeID).setReplicator n ((s.replicators n).beginWrite offset)) :=
    (h.addWrite w).setReplicator (fun _ => UInt64.le_refl _)
  rw [hs']
  apply hset.setBusy
  intro p hp
  rw [← Option.some.inj hp]
  exists w
  constructor
  · exact List.getElem?_concat_length
  change Tracks w _ (Function.update s.replicators n
    ((s.replicators n).beginWrite offset) n).isr _
  rw [Function.update_self]
  change Tracks w _ (s.replicators n).isr _
  rw [← hbefore]
  exact tracks_new w _ _

variable {peer : NodeID}

theorem Inv.replicate {write : Nat} {failure : Option Bytes}
    (hstep : s.replicate write peer failure = some s') : Inv s' := by
  rcases replicate_some hstep with ⟨w, _, hs'⟩
  rw [hs']
  apply h.of_step
  · exact fun _ _ hw => hw
  · intro i m hm
    rcases hm with ⟨d, hd, hrest⟩
    exact ⟨d, List.mem_append_left _ hd, hrest⟩
  · exact fun _ _ hp => Or.inl ⟨hp, fun _ => UInt64.le_refl _⟩
  · exact fun _ ho => Or.inl ho

omit h in
theorem Tracks.answer {isr : ISRSet NodeID} (h : Tracks w p isr answered)
    (hpeer : answered peer) :
    Tracks w { p with
        waiting := p.waiting.erase peer
        confirmed := p.confirmed ++ [peer] }
      (isr.updateLEO peer w.next) answered where
  confirmed := by
    intro m hm
    rcases List.mem_append.mp hm with hold | hnew
    · exact h.confirmed m hold
    · rw [List.mem_singleton.mp hnew]
      exact hpeer
  reached := by
    intro m hm
    by_cases heq : m = peer
    · rw [heq]
      exact Or.inr (List.mem_append_right _ (List.mem_singleton_self peer))
    · rw [ISRSet.leoOf_updateLEO_ne heq] at hm
      exact (h.reached m hm).imp_right (List.mem_append_left _)
  sent := by
    intro hzero m hm
    rcases h.sent hzero m hm with hwaiting | hconfirmed
    · by_cases heq : m = peer
      · rw [heq]
        exact Or.inr (List.mem_append_right _ (List.mem_singleton_self peer))
      · exact Or.inl ((List.mem_erase_of_ne heq).mpr hwaiting)
    · exact Or.inr (List.mem_append_left _ hconfirmed)

omit h in
theorem Tracks.error {isr : ISRSet NodeID} (h : Tracks w p isr answered)
    (waiting : List NodeID) :
    Tracks w { p with waiting := waiting, errors := p.errors + 1 } isr
      answered where
  confirmed := h.confirmed
  reached := h.reached
  sent := fun hzero => absurd hzero (Nat.succ_ne_zero _)

theorem Inv.answer {ok : Bool} (hbusy : s.busy n = some p)
    (hw : s.writes[p.write]? = some w)
    (hok : ok = true -> s.Answered p.write peer) :
    Inv (s.answer n peer p w ok) := by
  rcases h.busy n p hbusy with ⟨w', hw', htracks⟩
  rw [hw, Option.some.injEq] at hw'
  rw [← hw'] at htracks
  cases ok with
  | true =>
    apply h.of_step
    · exact fun _ _ hold => hold
    · exact fun _ _ hold => hold
    · intro k q hq
      change Function.update s.busy n _ k = some q at hq
      change (_ ∧ forall m, (Function.update s.replicators n
        ((s.replicators n).confirm peer w.req.offset) k).isr.leoOf m ≤ _) ∨
        exists v, _ ∧ Tracks v q (Function.update s.replicators n
          ((s.replicators n).confirm peer w.req.offset) k).isr _
      by_cases hk : k = n
      · rw [hk, Function.update_self, Option.some.injEq] at hq
        rw [hk, Function.update_self, ← hq]
        exact Or.inr ⟨w, hw, htracks.answer (hok rfl)⟩
      · rw [Function.update_of_ne hk] at hq
        rw [Function.update_of_ne hk]
        exact Or.inl ⟨hq, fun _ => UInt64.le_refl _⟩
    · exact fun _ ho => Or.inl ho
  | false =>
  apply h.setBusy
  intro q hq
  rw [← Option.some.inj hq]
  exact ⟨w, hw, htracks.error _⟩

theorem Inv.respond {delivery : Nat} (hstep : s.respond delivery = some s') :
    Inv s' := by
  rcases respond_some hstep with ⟨d, w, p, hd, hw, hbusy, hwrite, hs'⟩
  rw [← hwrite] at hw
  rw [hs']
  apply h.answer hbusy hw
  intro hok
  exact ⟨d, hd, hwrite.symm, rfl, hok⟩

theorem Inv.fail (hstep : s.fail n peer = some s') : Inv s' := by
  rcases fail_some hstep with ⟨p, w, hbusy, hw, hs'⟩
  rw [hs']
  apply h.answer hbusy hw
  intro hok
  cases hok

omit h in
theorem Tracks.sound {r : Replicator NodeID} (h : Tracks w p r.isr answered)
    (hdone : p.waiting = []) :
    Outcome.Sound ⟨p.write, r.policy, r.endWrite w.req.offset p.errors,
      r.isr.reached w.next⟩ w answered where
  quorum := by
    intro _ m hm
    exact (h.reached m (ISRSet.le_leoOf_of_mem_reached hm)).imp_right
      (h.confirmed m)
  all := by
    intro hpolicy hresult m hm
    change r.policy = .ackAll at hpolicy
    simp only [Replicator.endWrite, hpolicy] at hresult
    by_cases hzero : p.errors = 0
    · rcases h.sent hzero m hm with hwaiting | hconfirmed
      · rw [hdone] at hwaiting
        cases hwaiting
      · exact h.confirmed m hconfirmed
    · rw [if_neg hzero] at hresult
      cases hresult

theorem Inv.endWrite (hstep : s.endWrite n = some s') : Inv s' := by
  rcases endWrite_some hstep with ⟨p, w, hbusy, hw, hwaiting, hs'⟩
  rcases h.busy n p hbusy with ⟨w', hw', htracks⟩
  rw [hw, Option.some.injEq] at hw'
  rw [← hw'] at htracks
  have hfree : Inv (s.setBusy n none) := by
    apply h.setBusy
    intro q hq
    cases hq
  rw [hs']
  apply hfree.of_step
  · exact fun _ _ hold => hold
  · exact fun _ _ hold => hold
  · exact fun _ _ hq => Or.inl ⟨hq, fun _ => UInt64.le_refl _⟩
  intro o ho
  rcases List.mem_append.mp ho with hold | hnew
  · exact Or.inl hold
  · rw [List.mem_singleton.mp hnew]
    exact Or.inr ⟨w, hw, htracks.sound hwaiting⟩

theorem Inv.step {a : GroupAction NodeID} (hstep : s.step a = some s') : Inv s'
    := by
  cases a with
  | setTransport n present =>
    change s.locked n (fun r => r.setTransport present) = some s' at hstep
    refine h.locked ?_ hstep
    exact fun _ => UInt64.le_refl _
  | setEpoch n epoch =>
    change s.locked n (fun r => r.setEpoch epoch) = some s' at hstep
    refine h.locked ?_ hstep
    exact fun _ => UInt64.le_refl _
  | followerSetEpoch n epoch =>
    cases hstep
    exact h.setFollower n _
  | changeISR n change =>
    cases hstep
    exact h.setReplicator (ISRSet.leoOf_change_le _ change)
  | checkISRHealth n =>
    change s.locked n Replicator.checkISRHealth = some s' at hstep
    apply h.locked _ hstep
    intro m
    exact Nat.le_of_eq (congrArg UInt64.toNat (ISRSet.leoOf_updateISR ..))
  | beginWrite n data offset => exact h.beginWrite hstep
  | replicate write peer failure => exact h.replicate hstep
  | respond delivery => exact h.respond hstep
  | fail n peer => exact h.fail hstep
  | endWrite n => exact h.endWrite hstep

omit h

/--
Answers go on being backed by what is stored exactly when the step is a write
that the follower gives to its storage, or no write at all.
-/
theorem answersStored_step_iff {a : GroupAction NodeID}
    (hstep : s.step a = some s') :
    s'.AnswersStored <-> s.AnswersStored ∧ s.Storable a := by
  have hsame : s'.deliveries = s.deliveries ->
      (s'.AnswersStored <-> s.AnswersStored ∧ True) := by
    intro hdeliveries
    unfold AnswersStored
    rw [hdeliveries]
    exact (and_iff_left trivial).symm
  cases a with
  | setTransport n present =>
    have hs' := @locked_some _ _ s s' n (fun r => r.setTransport present) hstep
    exact hsame (by rw [hs']; rfl)
  | setEpoch n epoch =>
    have hs' := @locked_some _ _ s s' n (fun r => r.setEpoch epoch) hstep
    exact hsame (by rw [hs']; rfl)
  | followerSetEpoch n epoch =>
    cases hstep
    exact hsame rfl
  | changeISR n change =>
    cases hstep
    exact hsame rfl
  | checkISRHealth n =>
    have hs' := @locked_some _ _ s s' n Replicator.checkISRHealth hstep
    exact hsame (by rw [hs']; rfl)
  | beginWrite n data offset =>
    rcases beginWrite_some hstep with ⟨w, _, hs'⟩
    exact hsame (by rw [hs']; rfl)
  | replicate write peer failure =>
    rcases replicate_some hstep with ⟨w, hw, hs'⟩
    simp only [Storable, hw]
    rw [hs', ← (s.followers peer).stored_of_isOk_iff w.req failure]
    unfold AnswersStored
    simp only [List.forall_mem_append, List.forall_mem_singleton]
  | respond delivery =>
    rcases respond_some hstep with ⟨d, w, p, _, _, _, _, hs'⟩
    exact hsame (by rw [hs', deliveries_answer])
  | fail n peer =>
    rcases fail_some hstep with ⟨p, w, _, _, hs'⟩
    exact hsame (by rw [hs', deliveries_answer])
  | endWrite n =>
    rcases endWrite_some hstep with ⟨p, w, _, _, _, hs'⟩
    exact hsame (by rw [hs']; rfl)

/-!
## Runs
-/

section Runs

variable {topic : Bytes} {partition : UInt32} {maxLag : Int64}
variable {policy : NodeID -> AckPolicy} {storage : NodeID -> Option LocalStorage}
variable {leaderID : NodeID -> NodeID}

theorem inv_start :
    Inv (start topic partition maxLag policy storage leaderID) where
  busy := fun _ _ hp => nomatch hp
  outcomes := fun _ ho => absurd ho List.not_mem_nil

theorem Inv.fenced_iff (h : Inv s) :
    s.Fenced <-> s.AnswersStored := by
  constructor
  · exact Fenced.answers
  intro hanswers
  constructor
  · exact hanswers
  intro o ho
  rcases h.outcomes o ho with ⟨w, hw, hsound⟩
  refine ⟨w, hw, hsound.mono ?_⟩
  intro m hm
  rcases hm with ⟨d, hd, hwrite, hpeer, hok⟩
  exact ⟨d, hd, hwrite, hpeer, hanswers d hd hok⟩

/--
Answers without an error mean stored data, and counted followers have stored the
write, if and only if every write arrives at a follower that stores it.
-/
theorem fenced_iff_storable {actions : List (GroupAction NodeID)}
    {s : Group NodeID}
    (hrun : run? step (start topic partition maxLag policy storage leaderID)
      actions = some s) :
    s.Fenced <->
      Meets step Storable
        (start topic partition maxLag policy storage leaderID) actions := by
  have hinv := run?_invariant (fun _ _ _ h hs => Inv.step h hs) inv_start hrun
  rw [hinv.fenced_iff, @run?_good_iff_meets _ _ step Storable Inv AnswersStored
    (fun _ _ _ h hs => Inv.step h hs)
    (fun _ _ _ _ hs => answersStored_step_iff hs) _ s actions inv_start hrun]
  constructor
  · exact And.right
  · intro hmeets
    exact ⟨fun d hd => absurd hd List.not_mem_nil, hmeets⟩

end Runs

def twoNodes : Group Nat :=
  start [] 0 10 (fun _ => .ackQuorum) (fun _ => some ⟨[]⟩) (fun _ => 1)

def writesInEpoch (epoch : UInt64) : List (GroupAction Nat) :=
  [.setTransport 1 true, .changeISR 1 (.addReplica 2), .setEpoch 1 1,
    .followerSetEpoch 2 epoch, .beginWrite 1 [7] 0, .replicate 0 2 none,
    .respond 0, .endWrite 1]

/-- The write of the current leader is stored and counted. -/
theorem fenced_writesInEpoch :
    exists s, run? step twoNodes (writesInEpoch 1) = some s ∧ s.Fenced := by
  have hsome : (run? step twoNodes (writesInEpoch 1)).isSome = true := by
    decide +kernel
  rcases Option.isSome_iff_exists.mp hsome with ⟨s, hrun⟩
  exact ⟨s, hrun, (fenced_iff_storable hrun).mpr (by decide +kernel)⟩

/--
The write of a deposed leader is ignored by the follower, which answers without
an error and is counted towards the quorum.
-/
theorem not_fenced_deposed :
    ¬ forall (topic : Bytes) (partition : UInt32) (maxLag : Int64)
        (policy : Nat -> AckPolicy) (storage : Nat -> Option LocalStorage)
        (leaderID : Nat -> Nat) (actions : List (GroupAction Nat))
        (s : Group Nat),
      run? step (start topic partition maxLag policy storage leaderID)
        actions = some s -> s.Fenced := by
  intro hall
  have hsome : (run? step twoNodes (writesInEpoch 2)).isSome = true := by
    decide +kernel
  rcases Option.isSome_iff_exists.mp hsome with ⟨s, hrun⟩
  have hdeliveries : (run? step twoNodes (writesInEpoch 2)).map
      Group.deliveries = some [⟨0, 2, true, false⟩] := by
    decide +kernel
  rw [hrun, Option.map_some, Option.some.injEq] at hdeliveries
  have hfenced := hall _ _ _ _ _ _ _ s hrun
  have hstored := hfenced.answers ⟨0, 2, true, false⟩
  rw [hdeliveries] at hstored
  exact Bool.false_ne_true (hstored (List.mem_singleton_self _) rfl)

end Group

end Replication
end ChimeraMQ
