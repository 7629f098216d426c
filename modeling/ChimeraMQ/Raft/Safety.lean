import ChimeraMQ.Raft.Invariant
import ChimeraMQ.Raft.SnapshotRestart

/-!
# Safety of the cluster

Election safety and log matching hold in the runs in which no failed call
releases the mutex that another goroutine has; one such release breaks both.
State-machine safety holds if, besides, a leader does not process the response
to a request that it sent in an earlier term of its own; a run with such a
response breaks it.
-/

namespace ChimeraMQ
namespace Raft

open Foundation
open Consensus

variable {NodeID : Type}

/-!
## What state machines are given
-/

section Given

variable {n n' r : RaftNode NodeID}

/--
The state machine was given the commands of all entries up to the last one
applied, in their order.
-/
def Given (r : RaftNode NodeID) : Prop :=
  exists es : List LogEntry, es.length = r.lastApplied ∧
    r.fsm = es.filter (fun e => e.type = EntryType.command) ∧
    forall k e, es[k]? = some e -> e ∈ r.passed ∧ e.index = k + 1

theorem applyNext_eq {k : Nat} (hnum : RaftLog.Numbered r.log)
    (hle : k = 0 ∨ r.lastApplied + k ≤ r.log.entries.length) :
    r.applyNext k =
      { r with
        lastApplied := r.lastApplied + k
        fsm := r.fsm ++ ((r.log.entries.drop r.lastApplied).take k).filter
          (fun e => e.type = EntryType.command)
        passed :=
          r.passed ++ (r.log.entries.drop r.lastApplied).take k } := by
  induction k generalizing r with
  | zero => simp [RaftNode.applyNext]
  | succ k ih =>
  have hlt : r.lastApplied < r.log.entries.length := by
    omega
  have hget : r.log.get (r.lastApplied + 1) =
      some r.log.entries[r.lastApplied] := by
    rw [hnum.get_succ, List.getElem?_eq_getElem hlt]
  have hrest := @ih { r with
    lastApplied := r.lastApplied + 1
    fsm := if (r.log.entries[r.lastApplied]).type = EntryType.command then
        r.fsm ++ [r.log.entries[r.lastApplied]] else r.fsm
    passed := r.passed ++ [r.log.entries[r.lastApplied]] } hnum
    (Or.inr (by
      show r.lastApplied + 1 + k ≤ r.log.entries.length
      omega))
  unfold RaftNode.applyNext
  simp only [hget]
  rw [hrest, List.drop_eq_getElem_cons hlt, List.take_succ_cons,
    List.filter_cons]
  by_cases hcommand :
      (r.log.entries[r.lastApplied]).type = EntryType.command
  · simp [hcommand, Nat.add_assoc, Nat.add_comm 1]
  · simp [hcommand, Nat.add_assoc, Nat.add_comm 1]

theorem Given.applyNext {m : RaftNode NodeID} (h : Given n) {k : Nat}
    (hfsm : m.fsm = n.fsm) (happlied : m.lastApplied = n.lastApplied)
    (hnum : RaftLog.Numbered m.log)
    (hle : k = 0 ∨ m.lastApplied + k ≤ m.log.entries.length)
    (hpassed : forall e, e ∈ n.passed -> e ∈ (m.applyNext k).passed) :
    Given (m.applyNext k) := by
  rcases h with ⟨es, hlength, hgiven, hes⟩
  rw [applyNext_eq hnum hle] at hpassed ⊢
  refine ⟨es ++ (m.log.entries.drop m.lastApplied).take k, ?_, ?_, ?_⟩
  · simp only [List.length_append, List.length_take, List.length_drop]
    omega
  · rw [List.filter_append, ← hgiven, ← hfsm]
  intro j e hj
  rw [List.getElem?_append] at hj
  split at hj
  · exact ⟨hpassed e (hes j e hj).left, (hes j e hj).right⟩
  refine ⟨List.mem_append_right _ (List.mem_of_getElem? hj), ?_⟩
  rw [List.getElem?_take] at hj
  split at hj
  · rw [List.getElem?_drop] at hj
    have hindex := hnum.index _ e hj
    omega
  · cases hj

theorem passed_becomeFollower (r : RaftNode NodeID) (term : Nat) :
    (r.becomeFollower term).passed = r.passed := by
  unfold RaftNode.becomeFollower RaftNode.saveState
  simp only
  split
  · rfl
  · rfl

theorem mem_passed_applyCommitted {e : LogEntry} (he : e ∈ r.passed) :
    e ∈ r.applyCommitted.passed := by
  unfold RaftNode.applyCommitted
  generalize r.commitIndex - r.lastApplied = k
  induction k generalizing r with
  | zero => exact he
  | succ k ih =>
  unfold RaftNode.applyNext
  cases hget : r.log.get (r.lastApplied + 1) with
  | none =>
    simp only [hget]
    exact ih he
  | some x =>
  simp only [hget]
  exact ih (List.mem_append_left [x] he)

variable [DecidableEq NodeID]

theorem passed_becomeLeader (r : RaftNode NodeID) :
    r.becomeLeader.passed = r.passed := by
  unfold RaftNode.becomeLeader
  split
  · rfl
  · rfl

theorem mem_passed_step {a : NodeAction NodeID} {e : LogEntry}
    (hstep : n.step a = some n') (he : e ∈ n.passed) : e ∈ n'.passed := by
  cases a with
  | startElection =>
    cases hstep
    unfold RaftNode.startElection
    simp only
    split
    · rw [passed_becomeLeader]
      exact he
    · exact he
  | voteResponse req resp =>
    cases hstep
    unfold RaftNode.voteResponse
    grind [passed_becomeFollower, passed_becomeLeader]
  | handleRequestVote req =>
    cases hstep
    unfold RaftNode.handleRequestVote RaftNode.saveState
    grind [passed_becomeFollower]
  | becomeFollower term =>
    cases hstep
    rw [passed_becomeFollower]
    exact he
  | propose data =>
    rcases Option.map_eq_some_iff.mp hstep with ⟨x, hx, hn⟩
    unfold RaftNode.propose at hx
    split at hx
    · cases hx
    · rw [Option.some.injEq] at hx
      rw [← hn, ← hx]
      exact he
  | handleAppendEntries req =>
    cases hstep
    unfold RaftNode.handleAppendEntries RaftNode.advanceTo RaftNode.saveLog
    grind [passed_becomeFollower, mem_passed_applyCommitted]
  | appendResponse peer req resp =>
    cases hstep
    unfold RaftNode.appendResponse RaftNode.advanceCommitIndex
    grind [passed_becomeFollower, mem_passed_applyCommitted]

theorem given_restart (r : RaftNode NodeID) : Given r.restart := by
  refine ⟨[], ?_, ?_, by simp⟩
  · unfold RaftNode.restart RaftNode.start RaftNode.load RaftNode.initPeers
    grind [RaftNode.newRaftNode]
  · unfold RaftNode.restart RaftNode.start RaftNode.load RaftNode.initPeers
    grind [RaftNode.newRaftNode]

end Given

/-!
## Clusters
-/

variable [DecidableEq NodeID] [Fintype NodeID]
variable {M : Membership NodeID}

def fiveNodes : Membership (Fin 5) where
  peers := fun n =>
    match n with
    | 0 => [1, 2, 3, 4]
    | 1 => [3, 4, 0, 2]
    | 2 => [0, 1, 3, 4]
    | 3 => [0, 1, 2, 4]
    | 4 => [0, 1, 2, 3]
  nodup := by decide
  mem_peers := by decide

/-!
## Elections
-/

/-- No two nodes lead the same term while failed calls spare the mutexes. -/
theorem leader_terms_differ {s : MutexCluster NodeID}
    {actions : List (MutexAction NodeID)}
    (hmeets : Meets MutexCluster.step SparesMutex (MutexCluster.initial M)
      actions)
    (hrun : run? MutexCluster.step (MutexCluster.initial M) actions = some s)
    {n m : NodeID} (hne : n ≠ m)
    (hn : (s.cluster.nodes n).state = .leader)
    (hm : (s.cluster.nodes m).state = .leader) :
    (s.cluster.nodes n).currentTerm ≠ (s.cluster.nodes m).currentTerm := by
  rcases exists_clusterSim hmeets hrun with ⟨h, hc⟩
  intro hterm
  have hleadN := (hc.node n).leader hn
  have hleadM := (hc.node m).leader hm
  rw [hterm, hleadM] at hleadN
  exact hne (Option.some.inj hleadN).symm

def twoLeaders : List (MutexAction (Fin 5)) :=
  [.run (.startElection 0), .run (.handleRequestVote 1), .checkVote 2,
    .lock 1, .run (.voteResponse 0), .unlock 1, .grantVote 2,
    .run (.voteResponse 1), .run (.replicateLog 0),
    .run (.startElection 2), .run (.handleRequestVote 6), .checkVote 7,
    .lock 0, .grantVote 7, .run (.voteResponse 2), .unlock 0,
    .run (.voteResponse 3)]

def endOf (actions : List (MutexAction (Fin 5))) : MutexCluster (Fin 5) :=
  (run? MutexCluster.step (MutexCluster.initial fiveNodes) actions).getD
    (MutexCluster.initial fiveNodes)

theorem run_endOf {actions : List (MutexAction (Fin 5))}
    (hsome : (run? MutexCluster.step (MutexCluster.initial fiveNodes)
      actions).isSome) :
    run? MutexCluster.step (MutexCluster.initial fiveNodes) actions =
      some (endOf actions) := by
  rcases Option.isSome_iff_exists.mp hsome with ⟨s, hs⟩
  rw [endOf, hs]
  rfl

theorem leader_terms_differ_twoLeaders :
    ((endOf twoLeaders).cluster.nodes 0).currentTerm ≠
      ((endOf twoLeaders).cluster.nodes 2).currentTerm :=
  leader_terms_differ (by decide +kernel) (run_endOf (by decide +kernel))
    (by decide) (by decide +kernel) (by decide +kernel)

/--
Node 0 decides to vote for node 1.  The call of its earlier term fails and
releases the mutex, so it votes for node 2 as well before it writes the vote.
-/
def releasedMutex : List (MutexAction (Fin 5)) :=
  [.run (.startElection 0), .run (.handleRequestVote 0),
    .run (.handleRequestVote 1), .run (.voteResponse 0),
    .run (.voteResponse 1), .run (.replicateLog 0),
    .run (.handleAppendEntries 0), .run (.appendResponse 0),
    .run (.handleAppendEntries 1),
    .run (.startElection 1), .run (.startElection 2),
    .run (.handleRequestVote 4), .run (.handleRequestVote 11),
    .checkVote 6, .appendFailed 1, .run (.handleRequestVote 8), .lock 0,
    .grantVote 6, .run (.voteResponse 2), .run (.voteResponse 3),
    .run (.voteResponse 4), .run (.voteResponse 5)]

theorem leader_terms_equal_releasedMutex :
    ¬ forall (actions : List (MutexAction (Fin 5))) (s : MutexCluster (Fin 5)),
      run? MutexCluster.step (MutexCluster.initial fiveNodes) actions =
        some s ->
      forall n m, n ≠ m -> (s.cluster.nodes n).state = .leader ->
        (s.cluster.nodes m).state = .leader ->
        (s.cluster.nodes n).currentTerm ≠ (s.cluster.nodes m).currentTerm := by
  intro hall
  have hrun : run? MutexCluster.step (MutexCluster.initial fiveNodes)
      releasedMutex = some (endOf releasedMutex) :=
    run_endOf (by decide +kernel)
  exact hall releasedMutex _ hrun 1 2 (by decide) (by decide +kernel)
    (by decide +kernel) (by decide +kernel)

/-!
## Logs
-/

omit [DecidableEq NodeID] [Fintype NodeID] in
theorem get_eq_of_take {l l' : RaftLog} {k idx : Nat}
    (hl : RaftLog.Numbered l) (hl' : RaftLog.Numbered l')
    (htake : l.entries.take k = l'.entries.take k) (hidx : idx ≤ k) :
    l.get idx = l'.get idx := by
  cases idx with
  | zero => rw [hl.get_zero, hl'.get_zero]
  | succ i =>
  have hlt : i < k := Nat.lt_of_succ_le hidx
  rw [hl.get_succ, hl'.get_succ, ← List.getElem?_take_of_lt hlt, htake,
    List.getElem?_take_of_lt hlt]

/--
Logs that share the index and the term of an entry are equal up to it, while
failed calls spare the mutexes.
-/
theorem logs_match {s : MutexCluster NodeID}
    {actions : List (MutexAction NodeID)}
    (hmeets : Meets MutexCluster.step SparesMutex (MutexCluster.initial M)
      actions)
    (hrun : run? MutexCluster.step (MutexCluster.initial M) actions = some s)
    {n m : NodeID} {e e' : LogEntry}
    (he : e ∈ (s.cluster.nodes n).log.entries)
    (he' : e' ∈ (s.cluster.nodes m).log.entries) (hindex : e.index = e'.index)
    (hterm : e.term = e'.term) :
    forall idx, idx ≤ e.index ->
      (s.cluster.nodes n).log.get idx = (s.cluster.nodes m).log.get idx := by
  rcases exists_clusterSim hmeets hrun with ⟨h, hc⟩
  have hn := hc.node n
  have hm := hc.node m
  rcases List.mem_iff_getElem?.mp he with ⟨k, hk⟩
  rcases List.mem_iff_getElem?.mp he' with ⟨k', hk'⟩
  have hek := hn.numbered.index k e hk
  have hek' := hm.numbered.index k' e' hk'
  have hsame : k' = k := by
    omega
  subst hsame
  have htrace : Traceable LogEntry.term h (s.cluster.nodes n).log.entries := by
    rw [hn.log]
    exact hc.legal.coherent.log_traceable n
  have htrace' : Traceable LogEntry.term h (s.cluster.nodes m).log.entries := by
    rw [hm.log]
    exact hc.legal.coherent.log_traceable m
  have htake := agrees_of_traceable htrace htrace' k' e e' hk hk' hterm
  intro idx hidx
  rw [hek] at hidx
  exact get_eq_of_take hn.numbered hm.numbered htake hidx

/-- The second call of the loop fails; its process ends and starts again. -/
def copiedLog : List (MutexAction (Fin 5)) :=
  [.run (.startElection 0), .run (.handleRequestVote 1),
    .run (.handleRequestVote 2), .run (.voteResponse 0),
    .run (.voteResponse 1), .run (.propose 0 [7]), .run (.replicateLog 0),
    .run (.handleAppendEntries 0), .run (.appendResponse 0),
    .appendFailed 1]

theorem logs_match_copiedLog :
    ((endOf copiedLog).cluster.nodes 0).log.get 1 =
      ((endOf copiedLog).cluster.nodes 1).log.get 1 :=
  logs_match (e := ⟨2, 1, .command, [7]⟩) (by decide +kernel)
    (run_endOf (by decide +kernel)) (by decide +kernel) (by decide +kernel)
    rfl rfl 1 (by decide)

/-- The two leaders of one term put different commands at one index. -/
theorem logs_differ_releasedMutex :
    ¬ forall (actions : List (MutexAction (Fin 5))) (s : MutexCluster (Fin 5)),
      run? MutexCluster.step (MutexCluster.initial fiveNodes) actions =
        some s ->
      forall n m e e', e ∈ (s.cluster.nodes n).log.entries ->
        e' ∈ (s.cluster.nodes m).log.entries -> e.index = e'.index ->
        e.term = e'.term -> forall idx, idx ≤ e.index ->
          (s.cluster.nodes n).log.get idx = (s.cluster.nodes m).log.get idx := by
  intro hall
  have hrun : run? MutexCluster.step (MutexCluster.initial fiveNodes)
      (releasedMutex ++ [.run (.propose 1 [7]), .run (.propose 2 [8])]) =
        some (endOf (releasedMutex ++
          [.run (.propose 1 [7]), .run (.propose 2 [8])])) :=
    run_endOf (by decide +kernel)
  have hsame := hall _ _ hrun 1 2 ⟨3, 2, .command, [7]⟩ ⟨3, 2, .command, [8]⟩
    (by decide +kernel) (by decide +kernel) rfl rfl 3 (Nat.le_refl 3)
  revert hsame
  decide +kernel

/-!
## State machines
-/

theorem Final.unique {h : NodeHistory NodeID} (hlegal : Legal True h)
    {t t' : Nat} {e e' : LogEntry} (he : Final h t e) (he' : Final h t' e')
    (hindex : e.index = e'.index) : e = e' := by
  rcases he with ⟨P, k, hP, hk, hek⟩
  rcases he' with ⟨P', k', hP', hk', hek'⟩
  have hsame : k' = k := by
    omega
  subst hsame
  have hsecure := hlegal.secure_of_strict trivial
  have hboth : some e = some e' := by
    rcases hsecure.settled_comparable hlegal.coherent hP hP' with hpre | hpre
    · rcases hpre with ⟨back, hback⟩
      rw [← hk', ← hback, List.getElem?_append_left
        (List.getElem?_eq_some_iff.mp hk).1, hk]
    · rcases hpre with ⟨back, hback⟩
      rw [← hk, ← hback, List.getElem?_append_left
        (List.getElem?_eq_some_iff.mp hk').1, hk']
  exact Option.some.inj hboth

theorem Given.step {a : Action NodeID} {c c' : Cluster NodeID}
    {h' : NodeHistory NodeID} (hgiven : forall n, Given (c.nodes n))
    (hc' : ClusterSim True M c' h') (hstep : c.step a = some c') (n : NodeID) :
    Given (c'.nodes n) := by
  rcases step_at hstep with ⟨p, ⟨r, hnodes, hr⟩, _, _⟩
  by_cases hn : n = p
  · subst hn
    have hsim := hc'.node n
    rw [hnodes, Function.update_self] at hsim ⊢
    rcases hr with hsame | hcrash | ⟨b, hb⟩
    · rw [hsame]
      exact hgiven n
    · rw [hcrash.right]
      exact given_restart _
    rcases RaftNode.applies_step hb with ⟨m, k, hfsm, happlied, _, hm, hk⟩
    have hpassed := fun e (he : e ∈ (c.nodes n).passed) =>
      mem_passed_step hb he
    rcases applyNext_spec m k with ⟨_, _, _, heq, _⟩
    subst hm
    have hnum := hsim.numbered
    have hle := (hsim.safe trivial).commit_le
    rw [heq] at hnum hle
    exact (hgiven n).applyNext hfsm happlied hnum
      (hk.imp_right (fun hlast => by
        rw [hlast]
        exact hle)) hpassed
  · rw [hnodes, Function.update_of_ne hn]
    exact hgiven n

theorem sim_and_given {s : MutexCluster NodeID}
    {actions : List (MutexAction NodeID)}
    (hmeets : Meets MutexCluster.step Orderly (MutexCluster.initial M) actions)
    (hrun : run? MutexCluster.step (MutexCluster.initial M) actions = some s) :
    (exists h, ClusterSim True M s.cluster h) ∧
      forall n, Given (s.cluster.nodes n) := by
  refine cluster_invariant (D := OwnTerm) (I := fun c =>
    (exists h, ClusterSim True M c h) ∧ forall n, Given (c.nodes n))
    (fun _ _ h => h.left) (fun _ _ _ h hb => h.ownTerm hb) ?_
    ⟨⟨History.initial, clusterSim_initial⟩, fun _ => ⟨[], rfl, rfl, by simp⟩⟩
    hmeets hrun
  rintro c a c' ⟨⟨h, hc⟩, hgiven⟩ hin hstep
  rcases hc.step (fun _ => hin) hstep with ⟨h', hc'⟩
  exact ⟨⟨h', hc'⟩, Given.step hgiven hc' hstep⟩

/--
In every run in which failed calls spare the mutexes and all AppendEntries
responses reach a node that still leads the term of the request, nodes apply the
same entry at the same index.
-/
theorem applied_agree {s : MutexCluster NodeID}
    {actions : List (MutexAction NodeID)}
    (hmeets : Meets MutexCluster.step Orderly (MutexCluster.initial M) actions)
    (hrun : run? MutexCluster.step (MutexCluster.initial M) actions = some s)
    {n m : NodeID} {e e' : LogEntry} (he : e ∈ (s.cluster.nodes n).passed)
    (he' : e' ∈ (s.cluster.nodes m).passed) (hindex : e.index = e'.index) :
    e = e' := by
  rcases sim_and_given hmeets hrun with ⟨⟨h, hc⟩, _⟩
  have hfinal := ((hc.node n).safe trivial).passed e he
  have hfinal' := ((hc.node m).safe trivial).passed e' he'
  exact hfinal.unique hc.legal hfinal' hindex

def committedCommand : List (MutexAction (Fin 5)) :=
  [.run (.startElection 0), .run (.handleRequestVote 1),
    .run (.handleRequestVote 2), .run (.voteResponse 0),
    .run (.voteResponse 1), .run (.propose 0 [7]), .run (.replicateLog 0),
    .run (.handleAppendEntries 0), .run (.appendResponse 0),
    .run (.handleAppendEntries 1), .run (.appendResponse 1),
    .run (.replicateLog 0), .run (.handleAppendEntries 3)]

theorem applied_agree_committedCommand :
    ((endOf committedCommand).cluster.nodes 0).passed.get
        ⟨1, by decide +kernel⟩ =
      ((endOf committedCommand).cluster.nodes 1).passed.get
        ⟨1, by decide +kernel⟩ :=
  applied_agree (by decide +kernel)
    (run_endOf (by decide +kernel : (run? MutexCluster.step
      (MutexCluster.initial fiveNodes) committedCommand).isSome))
    (List.get_mem _ _) (List.get_mem _ _) (by decide +kernel)

/--
In such a run state machines are given the same commands in the same order, also
after a crash: one that has applied less has a front part of what another has.
-/
theorem fsm_prefix {s : MutexCluster NodeID}
    {actions : List (MutexAction NodeID)}
    (hmeets : Meets MutexCluster.step Orderly (MutexCluster.initial M) actions)
    (hrun : run? MutexCluster.step (MutexCluster.initial M) actions = some s)
    {n m : NodeID}
    (hle : (s.cluster.nodes n).lastApplied ≤ (s.cluster.nodes m).lastApplied) :
    (s.cluster.nodes n).fsm <+: (s.cluster.nodes m).fsm := by
  rcases sim_and_given hmeets hrun with ⟨⟨h, hc⟩, hgiven⟩
  rcases hgiven n with ⟨es, hlength, hfsm, hes⟩
  rcases hgiven m with ⟨es', hlength', hfsm', hes'⟩
  rw [hfsm, hfsm']
  apply List.IsPrefix.filter
  rw [List.prefix_iff_getElem?]
  intro k hk
  have hk' : k < es'.length := by
    omega
  rw [List.getElem?_eq_getElem hk', Option.some.injEq]
  have hone := hes k _ (List.getElem?_eq_getElem hk)
  have hother := hes' k _ (List.getElem?_eq_getElem hk')
  have hfinal := ((hc.node n).safe trivial).passed _ hone.left
  have hfinal' := ((hc.node m).safe trivial).passed _ hother.left
  exact hfinal'.unique hc.legal hfinal (hother.right.trans hone.right.symm)

theorem fsm_prefix_committedCommand :
    ((endOf committedCommand).cluster.nodes 1).fsm <+:
      ((endOf committedCommand).cluster.nodes 0).fsm :=
  fsm_prefix (by decide +kernel)
    (run_endOf (by decide +kernel : (run? MutexCluster.step
      (MutexCluster.initial fiveNodes) committedCommand).isSome))
    (by decide +kernel)

/--
In such a run the log of a leader has every entry that was applied by a node
whose term is not later.
-/
theorem leader_has_applied {s : MutexCluster NodeID}
    {actions : List (MutexAction NodeID)}
    (hmeets : Meets MutexCluster.step Orderly (MutexCluster.initial M) actions)
    (hrun : run? MutexCluster.step (MutexCluster.initial M) actions = some s)
    {n m : NodeID} (hm : (s.cluster.nodes m).state = .leader)
    (hterm : (s.cluster.nodes n).currentTerm ≤ (s.cluster.nodes m).currentTerm)
    {e : LogEntry} (he : e ∈ (s.cluster.nodes n).passed) :
    (s.cluster.nodes m).log.get e.index = some e := by
  rcases sim_and_given hmeets hrun with ⟨⟨h, hc⟩, _⟩
  have hsim := hc.node m
  have hleader := hsim.leader hm
  rcases ((hc.node n).safe trivial).passed e he with ⟨P, k, hP, hk, hindex⟩
  have hlater := hP.mono (fun _ => List.prefix_rfl) (fun _ _ => Nat.le_refl _)
    hterm
  have hlead := (hc.legal.secure_of_strict trivial).settled_lead hlater
    (by rw [hleader]; exact Option.some_ne_none m)
  rw [hsim.term] at hleader hlead
  rw [← hc.legal.coherent.leader_log m hleader, ← hsim.log] at hlead
  rcases hlead with ⟨back, hback⟩
  rw [hindex, hsim.numbered.get_succ, ← hback,
    List.getElem?_append_left (List.getElem?_eq_some_iff.mp hk).1, hk]

theorem leader_has_applied_committedCommand :
    ((endOf committedCommand).cluster.nodes 0).log.get 2 = some ⟨2, 1, .command, [7]⟩ :=
  leader_has_applied (n := 1) (e := ⟨2, 1, .command, [7]⟩) (by decide +kernel)
    (run_endOf (by decide +kernel : (run? MutexCluster.step
      (MutexCluster.initial fiveNodes) committedCommand).isSome))
    (by decide +kernel) (by decide +kernel) (by decide +kernel)

/--
Node 0 loses its leadership and its log to node 2, then leads term three and
takes the late response to its first request for one to its present log.
-/
def lateResponse : List (Action (Fin 5)) :=
  [.startElection 0, .handleRequestVote 1, .handleRequestVote 2,
    .voteResponse 0, .voteResponse 1, .propose 0 [7],
    .replicateLog 0, .handleAppendEntries 0,
    .startElection 2, .handleRequestVote 6, .handleRequestVote 7,
    .voteResponse 2, .voteResponse 3,
    .replicateLog 2, .handleAppendEntries 1,
    .startElection 0, .handleRequestVote 8, .handleRequestVote 10,
    .voteResponse 4, .voteResponse 5,
    .replicateLog 0, .handleAppendEntries 2, .appendResponse 2,
    .handleAppendEntries 3, .appendResponse 3,
    .appendResponse 0,
    .startElection 1, .handleRequestVote 12, .handleRequestVote 13,
    .voteResponse 6, .voteResponse 7,
    .replicateLog 1, .handleAppendEntries 6, .appendResponse 4,
    .handleAppendEntries 7, .appendResponse 5,
    .handleAppendEntries 8, .appendResponse 6,
    .handleAppendEntries 9, .appendResponse 7,
    .replicateLog 1, .handleAppendEntries 10, .appendResponse 8,
    .handleAppendEntries 11, .appendResponse 9]

/-- After the late response two nodes apply different entries at an index. -/
theorem applied_disagree_lateResponse :
    ¬ forall (actions : List (MutexAction (Fin 5))) (s : MutexCluster (Fin 5)),
      run? MutexCluster.step (MutexCluster.initial fiveNodes) actions =
        some s ->
      forall n m e e', e ∈ (s.cluster.nodes n).passed ->
        e' ∈ (s.cluster.nodes m).passed -> e.index = e'.index -> e = e' := by
  intro hall
  have hrun : run? MutexCluster.step (MutexCluster.initial fiveNodes)
      (lateResponse.map .run) = some (endOf (lateResponse.map .run)) :=
    run_endOf (by decide +kernel)
  have hsame := hall _ _ hrun 0 1 ⟨1, 2, .noOp, []⟩
    ⟨1, 1, .noOp, []⟩ (by decide +kernel) (by decide +kernel) rfl
  cases hsame

end Raft
end ChimeraMQ
