import ChimeraMQ.Raft.Replication
import ChimeraMQ.Raft.Snapshot

/-!
# The cluster simulates the protocol

The invariant of a cluster: its nodes are the members of one history, the
requests and responses in the network say nothing that the history does not
bear out, and the votes a candidate has counted are ballots of distinct members
that no pending response can repeat.
-/

namespace ChimeraMQ
namespace Raft

open Foundation
open Consensus

variable {NodeID : Type} [DecidableEq NodeID] [Fintype NodeID]

section Definitions

variable (strict : Prop) (M : Membership NodeID)

def Tally (c : Cluster NodeID) (h : NodeHistory NodeID) (n : NodeID)
    (r : RaftNode NodeID) : Prop :=
  exists V : Finset NodeID, V.card = r.votesReceived ∧
    (forall v, v ∈ V -> h.ballot v r.currentTerm = some n) ∧
    forall (i : Nat) (m : VoteCall NodeID), i ∈ c.voteWaiting ->
      c.voteCalls[i]? = some m -> m.caller = n -> m.req.term = r.currentTerm -> m.peer ∉ V

structure NetworkSim (c : Cluster NodeID) (h : NodeHistory NodeID) :
    Prop where
  voteCall : forall (i : Nat) (m : VoteCall NodeID), c.voteCalls[i]? = some m ->
    m.peer ∈ M.peers m.caller ∧ VoteSim h m.caller m.req
  voteOnce : forall (i j : Nat) (a b : VoteCall NodeID),
    c.voteCalls[i]? = some a -> c.voteCalls[j]? = some b -> a.caller = b.caller ->
    a.req.term = b.req.term -> a.peer = b.peer -> i = j
  voteReply : forall i resp, (i, resp) ∈ c.voteReplies ->
    exists m, c.voteCalls[i]? = some m ∧ (resp.voteGranted = true ->
      h.ballot m.peer m.req.term = some m.caller)
  appendCall : forall (i : Nat) (m : AppendCall NodeID), c.appendCalls[i]? = some m ->
    m.peer ∈ M.peers m.caller ∧ (forall p, p ∈ m.rest -> p ∈ M.peers m.caller) ∧
      RequestSim strict h m.caller m.req
  appendReply : forall i resp, (i, resp) ∈ c.appendReplies ->
    exists m, c.appendCalls[i]? = some m ∧
      ResponseSim strict h m.peer m.req resp

structure ClusterSim (c : Cluster NodeID) (h : NodeHistory NodeID) :
    Prop where
  legal : Legal strict h
  node : forall n, NodeSim strict M h n (c.nodes n)
  tally : forall n, (c.nodes n).state = .candidate ->
    Tally c h n (c.nodes n)
  network : NetworkSim strict M c h

end Definitions

variable {strict : Prop} {M : Membership NodeID}
variable {c : Cluster NodeID} {h h' : NodeHistory NodeID}

variable {n : NodeID} {r : RaftNode NodeID}

omit [DecidableEq NodeID] [Fintype NodeID] in
theorem Tally.mono (hgrows : Grows h h') (htally : Tally c h n r) :
    Tally c h' n r := by
  rcases htally with ⟨V, hcard, hvotes, hwaiting⟩
  exact ⟨V, hcard, fun v hv => hgrows.ballot _ _ _ (hvotes v hv), hwaiting⟩

omit [DecidableEq NodeID] [Fintype NodeID] in
theorem Tally.congr {r' : RaftNode NodeID}
    (hterm : r'.currentTerm = r.currentTerm)
    (hvotes : r'.votesReceived = r.votesReceived) (htally : Tally c h n r) :
    Tally c h n r' := by
  unfold Tally
  rw [hterm, hvotes]
  exact htally

theorem NetworkSim.mono (hlegal : Legal strict h) (hmoved : Moved strict n h h')
    (hnet : NetworkSim strict M c h) :
    NetworkSim strict M c h' where
  voteCall := fun i m hm =>
    ⟨(hnet.voteCall i m hm).left,
      (hnet.voteCall i m hm).right.mono (hmoved.grows hlegal)⟩
  voteOnce := hnet.voteOnce
  voteReply := by
    intro i resp hresp
    rcases hnet.voteReply i resp hresp with ⟨m, hm, hgrant⟩
    exact ⟨m, hm, fun hyes =>
      (hmoved.grows hlegal).ballot _ _ _ (hgrant hyes)⟩
  appendCall := by
    intro i m hm
    rcases hnet.appendCall i m hm with ⟨hpeer, hrest, hreq⟩
    exact ⟨hpeer, hrest, hreq.mono hlegal hmoved⟩
  appendReply := by
    intro i resp hresp
    rcases hnet.appendReply i resp hresp with ⟨m, hm, hsim⟩
    exact ⟨m, hm, hsim.mono hlegal hmoved⟩

variable (hc : ClusterSim strict M c h)

include hc

theorem ClusterSim.setNode (hmoved : Moved strict n h h')
    (hsim : NodeSim strict M h' n r)
    (htally : r.state = .candidate -> Tally c h' n r) :
    ClusterSim strict M (c.setNode n r) h' where
  legal := hmoved.legal hc.legal
  node := by
    intro m
    by_cases hm : m = n
    · subst hm
      simpa [Cluster.setNode] using hsim
    · simpa [Cluster.setNode, hm] using (hc.node m).frame hc.legal hmoved hm
  tally := by
    intro m hstate
    by_cases hm : m = n
    · subst hm
      simp only [Cluster.setNode, Function.update_self] at hstate ⊢
      exact htally hstate
    · simp only [Cluster.setNode, ne_eq, hm, not_false_eq_true,
        Function.update_of_ne] at hstate ⊢
      exact (hc.tally m hstate).mono (hmoved.grows hc.legal)
  network := { hc.network.mono hc.legal hmoved with }

theorem ClusterSim.dropWaiting (votes appends : List Nat)
    (hsub : forall i, i ∈ votes -> i ∈ c.voteWaiting) :
    ClusterSim strict M
      { c with voteWaiting := votes, appendWaiting := appends } h where
  legal := hc.legal
  node := hc.node
  tally := by
    intro n hstate
    rcases hc.tally n hstate with ⟨V, hcard, hvotes, hwaiting⟩
    exact ⟨V, hcard, hvotes, fun i m hi => hwaiting i m (hsub i hi)⟩
  network := { hc.network with }

/-!
## Elections
-/

omit [DecidableEq NodeID] [Fintype NodeID] hc in
theorem getElem?_append_map {α β : Type} {calls : List α} {f : β -> α}
    {items : List β} {i : Nat} {a : α}
    (ha : (calls ++ items.map f)[i]? = some a) :
    calls[i]? = some a ∨
      exists k b, i = calls.length + k ∧ items[k]? = some b ∧ f b = a := by
  by_cases hi : i < calls.length
  · rw [List.getElem?_append_left hi] at ha
    exact Or.inl ha
  have hge := Nat.le_of_not_lt hi
  rw [List.getElem?_append_right hge, List.getElem?_map] at ha
  rcases Option.map_eq_some_iff.mp ha with ⟨b, hb, hfb⟩
  exact Or.inr ⟨i - calls.length, b, by omega, hb, hfb⟩

theorem ClusterSim.sendRequestVote {req : RequestVoteRequest NodeID}
    {peers : List NodeID}
    (hpeers : forall p, p ∈ peers -> p ∈ M.peers n) (hnodup : peers.Nodup)
    (hreq : VoteSim h n req) (hnew : forall (i : Nat) (m : VoteCall NodeID),
      c.voteCalls[i]? = some m -> m.caller = n -> m.req.term < req.term)
    (hself : (c.nodes n).state = .candidate -> (c.nodes n).votesReceived = 1 ∧
      h.ballot n (c.nodes n).currentTerm = some n) :
    ClusterSim strict M (c.sendRequestVote n req peers) h where
  legal := hc.legal
  node := hc.node
  tally := by
    intro k hstate
    change (c.nodes k).state = .candidate at hstate
    by_cases hk : k = n
    · subst hk
      rcases hself hstate with ⟨hone, hballot⟩
      refine ⟨{k}, ?_, ?_, ?_⟩
      · rw [Finset.card_singleton]
        exact hone.symm
      · intro v hv
        rw [Finset.mem_singleton.mp hv]
        exact hballot
      intro i m _ hm hcaller _ hin
      have hne : m.peer ≠ m.caller := by
        rcases getElem?_append_map hm with hold | ⟨j, p, _, hp, hpm⟩
        · exact (M.mem_peers _ _).mp (hc.network.voteCall i m hold).left
        · rw [← hpm]
          exact (M.mem_peers _ _).mp (hpeers p (List.mem_of_getElem? hp))
      rw [hcaller] at hne
      exact hne (Finset.mem_singleton.mp hin)
    · rcases hc.tally k hstate with ⟨V, hcard, hvotes, hwaiting⟩
      refine ⟨V, hcard, hvotes, ?_⟩
      intro i m hi hm hcaller hterm
      rcases getElem?_append_map hm with hold | ⟨j, p, hj, hp, hpm⟩
      · rcases List.mem_append.mp hi with hwait | hlate
        · exact hwaiting i m hwait hold hcaller hterm
        · have hlt := (List.getElem?_eq_some_iff.mp hold).1
          have hge := (List.mem_range'_1.mp hlate).left
          exact absurd hlt (Nat.not_lt.mpr hge)
      · rw [← hpm] at hcaller
        exact absurd hcaller.symm hk
  network :=
    { hc.network with
      voteCall := by
        intro i m hm
        rcases getElem?_append_map hm with hold | ⟨j, p, _, hp, hpm⟩
        · exact hc.network.voteCall i m hold
        · rw [← hpm]
          exact ⟨hpeers p (List.mem_of_getElem? hp), hreq⟩
      voteOnce := by
        intro i j a b ha hb hcaller hterm hpeer
        rcases getElem?_append_map ha with hoa | ⟨k, p, hk, hp, hpa⟩
        · rcases getElem?_append_map hb with hob | ⟨k', p', hk', hp', hpb⟩
          · exact hc.network.voteOnce i j a b hoa hob hcaller hterm hpeer
          · rw [← hpb] at hcaller hterm
            have hlt := hnew i a hoa hcaller
            exact absurd hterm (Nat.ne_of_lt hlt)
        rcases getElem?_append_map hb with hob | ⟨k', p', hk', hp', hpb⟩
        · rw [← hpa] at hcaller hterm
          have hlt := hnew j b hob hcaller.symm
          exact absurd hterm.symm (Nat.ne_of_lt hlt)
        rw [← hpa, ← hpb] at hpeer
        change p = p' at hpeer
        rw [← hpeer] at hp'
        have hkk := (List.getElem?_inj
          (List.getElem?_eq_some_iff.mp hp).1 hnodup).mp
          (hp.trans hp'.symm)
        omega
      voteReply := by
        intro i resp hresp
        rcases hc.network.voteReply i resp hresp with ⟨m, hm, hgrant⟩
        refine ⟨m, ?_, hgrant⟩
        change (c.voteCalls ++ _)[i]? = some m
        rw [List.getElem?_append_left (List.getElem?_eq_some_iff.mp hm).1, hm] }

omit [Fintype NodeID] hc in
@[simp] theorem setNode_nodes_self (c : Cluster NodeID) (n : NodeID)
    (r : RaftNode NodeID) : (c.setNode n r).nodes n = r := by
  simp [Cluster.setNode]

theorem ClusterSim.voteCall_term {i : Nat} {m : VoteCall NodeID}
    (hm : c.voteCalls[i]? = some m) :
    m.req.term ≤ (c.nodes m.caller).currentTerm := by
  rcases (hc.network.voteCall i m hm).right.bid with ⟨log, hbid, _⟩
  rw [(hc.node m.caller).term]
  exact (hc.legal.coherent.bid_term _ _ _ hbid).right

theorem ClusterSim.startElection (n : NodeID) :
    exists h', ClusterSim strict M (c.startElection n) h' := by
  rcases (hc.node n).becomeCandidate hc.legal with
    ⟨h1, hmoved, hsim, hreq, hballot⟩
  have hnew : forall (i : Nat) (m : VoteCall NodeID),
      c.voteCalls[i]? = some m -> m.caller = n ->
        m.req.term < (c.nodes n).becomeCandidate.requestVote.term := by
    intro i m hm hcaller
    have hle := hc.voteCall_term hm
    rw [hcaller] at hle
    exact Nat.lt_succ_of_le hle
  have htally : Tally c h1 n (c.nodes n).becomeCandidate := by
    refine ⟨{n}, rfl, ?_, ?_⟩
    · intro v hv
      rw [Finset.mem_singleton.mp hv]
      exact hballot
    · intro i m _ hm hcaller hterm
      exact absurd hterm (Nat.ne_of_lt (hnew i m hm hcaller))
  unfold Cluster.startElection RaftNode.startElection
  by_cases hquorum : (c.nodes n).becomeCandidate.votesReceived ≥
      (c.nodes n).becomeCandidate.quorum
  · simp only [hquorum, if_true]
    rcases hsim.becomeLeader (hmoved.legal hc.legal) rfl
      (V := {n}) hquorum (by
        intro v hv
        rw [Finset.mem_singleton.mp hv]
        exact hballot) with ⟨h2, hmoved2, hsim2⟩
    have hstate : (c.nodes n).becomeCandidate.becomeLeader.state ≠
        .candidate := by
      rw [becomeLeader_eq hsim rfl]
      intro hstate
      cases hstate
    refine ⟨h2, ?_⟩
    apply ClusterSim.sendRequestVote
    · exact hc.setNode (hmoved.trans hmoved2) hsim2
        (fun hcand => absurd hcand hstate)
    · intro p hp
      cases hp
    · exact List.nodup_nil
    · exact hreq.mono (hmoved2.grows (hmoved.legal hc.legal))
    · exact hnew
    · intro hcand
      rw [setNode_nodes_self] at hcand
      exact absurd hcand hstate
  · simp only [hquorum, if_false]
    refine ⟨h1, ?_⟩
    have hpeers := hsim.peers
    apply ClusterSim.sendRequestVote
    · exact hc.setNode hmoved hsim (fun _ => htally)
    · intro p hp
      rwa [hpeers] at hp
    · rw [hpeers]
      exact M.nodup n
    · exact hreq
    · exact hnew
    · intro _
      rw [setNode_nodes_self]
      exact ⟨rfl, hballot⟩

variable {call : Nat} {c' : Cluster NodeID}

theorem ClusterSim.handleRequestVote
    (hstep : c.handleRequestVote call = some c') :
    exists h', ClusterSim strict M c' h' := by
  unfold Cluster.handleRequestVote at hstep
  cases hm : c.voteCalls[call]? with
  | none =>
    rw [hm] at hstep
    cases hstep
  | some m =>
  simp only [hm, Option.some.injEq] at hstep
  subst hstep
  rcases (hc.node m.peer).handleRequestVote hc.legal
    (hc.network.voteCall call m hm).right with
    ⟨h', hmoved, hsim, hgrant⟩
  have hset := hc.setNode hmoved hsim (by
    intro hstate
    rcases handleRequestVote_candidate hstate with
      ⟨hcand, hterm, hvotes⟩
    exact ((hc.tally m.peer hcand).mono
      (hmoved.grows hc.legal)).congr hterm hvotes)
  refine ⟨h', { hset with network := { hset.network with voteReply := ?_ } }⟩
  intro i resp hresp
  rcases List.mem_append.mp hresp with hold | hlast
  · exact hset.network.voteReply i resp hold
  · rcases Prod.mk.inj (List.mem_singleton.mp hlast) with ⟨hi, hr⟩
    rw [hi, hr]
    exact ⟨m, hm, hgrant⟩

omit [Fintype NodeID] hc in
theorem Tally.count {m : VoteCall NodeID} (htally : Tally c h n r)
    (hm : c.voteCalls[call]? = some m) (hcall : call ∈ c.voteWaiting)
    (hcaller : m.caller = n) (hterm : m.req.term = r.currentTerm)
    (hballot : h.ballot m.peer r.currentTerm = some n)
    (honce : forall (i : Nat) (a : VoteCall NodeID),
      c.voteCalls[i]? = some a -> a.caller = n ->
        a.req.term = r.currentTerm -> a.peer = m.peer -> i = call) :
    Tally { c with voteWaiting := c.voteWaiting.filter (fun i => i ≠ call) }
      h n { r with votesReceived := r.votesReceived + 1 } := by
  rcases htally with ⟨V, hcard, hvotes, hwaiting⟩
  have hnot : m.peer ∉ V := hwaiting call m hcall hm hcaller hterm
  refine ⟨insert m.peer V, ?_, ?_, ?_⟩
  · rw [Finset.card_insert_of_notMem hnot, hcard]
  · intro v hv
    rcases Finset.mem_insert.mp hv with hpeer | hold
    · rw [hpeer]
      exact hballot
    · exact hvotes v hold
  intro i a hi ha hacaller haterm hin
  rcases List.mem_filter.mp hi with ⟨hwait, hne⟩
  rcases Finset.mem_insert.mp hin with hpeer | hold
  · have hicall := honce i a ha hacaller haterm hpeer
    rw [hicall] at hne
    simp at hne
  · exact hwaiting i a hwait ha hacaller haterm hold

theorem ClusterSim.voteResponse {reply : Nat}
    (hstep : c.voteResponse reply = some c') :
    exists h', ClusterSim strict M c' h' := by
  unfold Cluster.voteResponse at hstep
  cases hreply : c.voteReplies[reply]? with
  | none => simp [hreply] at hstep
  | some pair =>
  rcases pair with ⟨call, resp⟩
  by_cases hwait : call ∈ c.voteWaiting
  · rcases hc.network.voteReply call resp (List.mem_of_getElem? hreply) with
      ⟨m, hm, hgrant⟩
    simp only [hreply, hwait, not_true_eq_false, if_false, hm,
      Option.some.injEq] at hstep
    subst hstep
    have hdrop := hc.dropWaiting (c.voteWaiting.filter (fun i => i ≠ call))
      c.appendWaiting (fun i hi => (List.mem_filter.mp hi).left)
    have hsim := hc.node m.caller
    unfold RaftNode.voteResponse
    by_cases hlater : resp.term > (c.nodes m.caller).currentTerm
    · simp only [hlater, if_true]
      rcases hsim.becomeFollower hc.legal resp.term with ⟨h', hmoved, hsim'⟩
      refine ⟨h', hdrop.setNode hmoved hsim' ?_⟩
      intro hstate
      rw [becomeFollower_state] at hstate
      cases hstate
    simp only [hlater, if_false]
    by_cases hstale : (c.nodes m.caller).state ≠ .candidate ∨
        (c.nodes m.caller).currentTerm ≠ m.req.term
    · simp only [hstale, if_true]
      exact ⟨h, hdrop.setNode (Moves.refl _ h) hsim (hdrop.tally m.caller)⟩
    simp only [hstale, if_false]
    have hcand : (c.nodes m.caller).state = .candidate := by
      by_contra hne
      exact hstale (Or.inl hne)
    have hterm : m.req.term = (c.nodes m.caller).currentTerm := by
      by_contra hne
      exact hstale (Or.inr (fun heq => hne heq.symm))
    by_cases hyes : resp.voteGranted = true
    · simp only [hyes, if_true]
      have hballot := hgrant hyes
      rw [hterm] at hballot
      have hcount := (hc.tally m.caller hcand).count hm hwait rfl hterm hballot
        (by
          intro i a ha hacaller haterm hapeer
          exact hc.network.voteOnce i call a m ha hm hacaller
            (haterm.trans hterm.symm) hapeer)
      have hvotes := hsim.withVotes ((c.nodes m.caller).votesReceived + 1)
      by_cases hquorum : (c.nodes m.caller).votesReceived + 1 ≥
          RaftNode.quorum { c.nodes m.caller with
            votesReceived := (c.nodes m.caller).votesReceived + 1 }
      · simp only [hquorum, if_true]
        rcases hcount with ⟨V, hcard, hballots, _⟩
        rcases hvotes.becomeLeader hc.legal hcand (V := V)
          (by rw [hcard]; exact hquorum) hballots with ⟨h', hmoved, hsim'⟩
        refine ⟨h', hdrop.setNode hmoved hsim' ?_⟩
        intro hstate
        rw [becomeLeader_eq hvotes hcand] at hstate
        cases hstate
      · simp only [hquorum, if_false]
        exact ⟨h, hdrop.setNode (Moves.refl _ h) hvotes (fun _ => hcount)⟩
    · rw [if_neg hyes]
      exact ⟨h, hdrop.setNode (Moves.refl _ h) hsim (hdrop.tally m.caller)⟩
  · simp [hreply, hwait] at hstep

/-!
## Replication
-/

theorem ClusterSim.propose {data : List UInt8}
    (hstep : c.propose n data = some c') :
    exists h', ClusterSim strict M c' h' := by
  unfold Cluster.propose at hstep
  cases hpropose : (c.nodes n).propose data with
  | none => simp [hpropose] at hstep
  | some result =>
  rcases result with ⟨r, idx⟩
  simp only [hpropose, Option.some.injEq] at hstep
  subst hstep
  rcases (hc.node n).propose hc.legal hpropose with ⟨h', hmoved, hsim⟩
  refine ⟨h', hc.setNode hmoved hsim ?_⟩
  intro hstate
  unfold RaftNode.propose at hpropose
  by_cases hleader : (c.nodes n).state = .leader
  · simp only [hleader, ne_eq, not_true_eq_false, if_false,
      Option.some.injEq, Prod.mk.injEq] at hpropose
    rw [← hpropose.left] at hstate
    cases hstate
  · simp [hleader] at hpropose

theorem ClusterSim.sendAppendEntries {t k : Nat} {peers : List NodeID}
    (hpeers : forall p, p ∈ peers -> p ∈ M.peers n)
    (hlead : h.leader t = some n)
    (hstrict : strict -> (c.nodes n).state = .leader ∧
      (c.nodes n).currentTerm = t ∧ exists P, Chosen h t P ∧ P.length = k) :
    ClusterSim strict M (c.sendAppendEntries n t k peers) h := by
  cases peers with
  | nil => exact hc
  | cons p rest =>
  have hreq := (hc.node n).appendRequest hc.legal
    (hpeers p (List.mem_cons_self ..)) hlead hstrict
  refine
    { legal := hc.legal
      node := hc.node
      tally := hc.tally
      network := { hc.network with appendCall := ?_, appendReply := ?_ } }
  · intro i m hm
    by_cases hi : i < c.appendCalls.length
    · apply hc.network.appendCall i m
      rw [← hm]
      exact (List.getElem?_append_left hi).symm
    have hlast : m = ⟨n, p, (c.nodes n).appendRequest t k p, rest⟩ := by
      change (c.appendCalls ++ _)[i]? = some m at hm
      rw [List.getElem?_append_right (Nat.le_of_not_lt hi)] at hm
      exact List.mem_singleton.mp (List.mem_of_getElem? hm)
    rw [hlast]
    exact ⟨hpeers p (List.mem_cons_self ..),
      fun q hq => hpeers q (List.mem_cons_of_mem p hq), hreq⟩
  · intro i resp hresp
    rcases hc.network.appendReply i resp hresp with ⟨m, hm, hsim⟩
    refine ⟨m, ?_, hsim⟩
    change (c.appendCalls ++ _)[i]? = some m
    rw [List.getElem?_append_left (List.getElem?_eq_some_iff.mp hm).1, hm]

theorem ClusterSim.chosen_commit (hstrict : strict) (n : NodeID) :
    exists P, Chosen h (c.nodes n).currentTerm P ∧
      P.length = (c.nodes n).commitIndex := by
  have hcom := (hc.node n).safe hstrict
  refine ⟨_, hcom.commit, ?_⟩
  rw [List.length_take, Nat.min_eq_left hcom.commit_le]

theorem ClusterSim.replicateLog (n : NodeID) :
    ClusterSim strict M (c.replicateLog n) h := by
  unfold Cluster.replicateLog
  by_cases hleader : (c.nodes n).state = .leader
  · simp only [hleader, ne_eq, not_true_eq_false, if_false]
    apply hc.sendAppendEntries
    · intro p hp
      rwa [(hc.node n).peers] at hp
    · exact (hc.node n).leader hleader
    · exact fun hstrict => ⟨hleader, rfl, hc.chosen_commit hstrict n⟩
  · simp only [hleader, ne_eq, not_false_eq_true, if_true]
    exact hc

theorem ClusterSim.handleAppendEntries
    (hstep : c.handleAppendEntries call = some c') :
    exists h', ClusterSim strict M c' h' := by
  unfold Cluster.handleAppendEntries at hstep
  cases hm : c.appendCalls[call]? with
  | none =>
    rw [hm] at hstep
    cases hstep
  | some m =>
  simp only [hm, Option.some.injEq] at hstep
  subst hstep
  rcases hc.network.appendCall call m hm with ⟨hpeer, _, hreq⟩
  have hne : m.caller ≠ m.peer :=
    fun heq => (M.mem_peers _ _).mp hpeer heq.symm
  rcases (hc.node m.peer).handleAppendEntries hc.legal hreq hne with
    ⟨h', hmoved, hsim, hanswer⟩
  have hset := hc.setNode hmoved hsim (by
    intro hstate
    rcases handleAppendEntries_candidate hstate with
      ⟨hcand, hterm, hvotes⟩
    exact ((hc.tally m.peer hcand).mono
      (hmoved.grows hc.legal)).congr hterm hvotes)
  refine ⟨h',
    { hset with network := { hset.network with appendReply := ?_ } }⟩
  intro i resp hresp
  rcases List.mem_append.mp hresp with hold | hlast
  · exact hset.network.appendReply i resp hold
  · rcases Prod.mk.inj (List.mem_singleton.mp hlast) with ⟨hi, hr⟩
    rw [hi, hr]
    exact ⟨m, hm, hanswer⟩

omit hc

/-- The step condition of a strict run. -/
def AnswersOwnTerm (c : Cluster NodeID) (reply : Nat) : Prop :=
  match c.appendReplies[reply]? with
  | none => True
  | some (call, resp) =>
  match c.appendCalls[call]? with
  | none => True
  | some m =>
    resp.term > (c.nodes m.caller).currentTerm ∨
      (c.nodes m.caller).state = .leader ∧
        (c.nodes m.caller).currentTerm = m.req.term

omit [DecidableEq NodeID] [Fintype NodeID] in
theorem answersOwnTerm_iff {resp : AppendEntriesResponse}
    {m : AppendCall NodeID} {reply : Nat}
    (hreply : c.appendReplies[reply]? = some (call, resp))
    (hm : c.appendCalls[call]? = some m) :
    AnswersOwnTerm c reply <->
      resp.term > (c.nodes m.caller).currentTerm ∨
        (c.nodes m.caller).state = .leader ∧
          (c.nodes m.caller).currentTerm = m.req.term := by
  simp only [AnswersOwnTerm, hreply, hm]

instance (c : Cluster NodeID) (reply : Nat) :
    Decidable (AnswersOwnTerm c reply) :=
  match hreply : c.appendReplies[reply]? with
  | none => isTrue (by simp [AnswersOwnTerm, hreply])
  | some (call, resp) =>
    match hm : c.appendCalls[call]? with
    | none => isTrue (by simp [AnswersOwnTerm, hreply, hm])
    | some m => decidable_of_iff _ (answersOwnTerm_iff hreply hm).symm

theorem ClusterSim.appendResponse (hc : ClusterSim strict M c h) {reply : Nat}
    (hin : strict -> AnswersOwnTerm c reply)
    (hstep : c.appendResponse reply = some c') :
    exists h', ClusterSim strict M c' h' := by
  unfold Cluster.appendResponse at hstep
  cases hreply : c.appendReplies[reply]? with
  | none => simp [hreply] at hstep
  | some pair =>
  rcases pair with ⟨call, resp⟩
  by_cases hwait : call ∈ c.appendWaiting
  · rcases hc.network.appendReply call resp (List.mem_of_getElem? hreply) with
      ⟨m, hm, hresp⟩
    rcases hc.network.appendCall call m hm with ⟨hpeer, hrest, hreq⟩
    simp only [hreply, hwait, not_true_eq_false, if_false, hm,
      Option.some.injEq] at hstep
    subst hstep
    have hdrop := hc.dropWaiting c.voteWaiting
      (c.appendWaiting.filter (fun i => i ≠ call)) (fun _ hi => hi)
    rcases (hc.node m.caller).appendResponse hc.legal hpeer hreq hresp (by
      intro hstrict hle
      rcases (answersOwnTerm_iff hreply hm).mp (hin hstrict) with
        hlater | hnow
      · exact absurd hle (Nat.not_le.mpr hlater)
      · exact hnow) with ⟨h', hmoved, hsim, hgoes⟩
    have hset := hdrop.setNode hmoved hsim (by
      intro hstate
      by_cases hlater : resp.term > (c.nodes m.caller).currentTerm
      · unfold RaftNode.appendResponse at hstate
        rw [if_pos hlater, becomeFollower_state] at hstate
        cases hstate
      rcases appendResponse_frame m.peer m.req hlater with
        ⟨hst, hterm, hvotes⟩
      rw [hst] at hstate
      exact ((hdrop.tally m.caller hstate).mono
        (hmoved.grows hc.legal)).congr hterm hvotes)
    refine ⟨h', ?_⟩
    by_cases hflag :
        ((c.nodes m.caller).appendResponse m.peer m.req resp).2 = true
    · simp only [hflag, if_true]
      have hreq' := hreq.mono hc.legal hmoved
      apply hset.sendAppendEntries hrest hreq'.leader
      intro hstrict
      rw [setNode_nodes_self]
      rcases hgoes hflag hstrict with ⟨hleader, hterm⟩
      rcases hreq'.carries with ⟨l, hcarries⟩
      exact ⟨hleader, hterm, (hcarries.fresh hstrict).commit⟩
    · rw [if_neg hflag]
      exact hset
  · simp [hreply, hwait] at hstep

/-!
## Runs
-/

theorem ClusterSim.restart (hc : ClusterSim strict M c h) (n : NodeID) :
    ClusterSim strict M (c.restart n) h := by
  have hsim := (hc.node n).restart
  have hset := hc.setNode (Moves.refl n h) hsim (by
    intro hstate
    rw [restart_eq (hc.node n)] at hstate
    cases hstate)
  exact hset.dropWaiting _ _ (fun i hi => (List.mem_filter.mp hi).left)

theorem ClusterSim.becomeFollower (hc : ClusterSim strict M c h) (n : NodeID)
    (t : Nat) :
    exists h', ClusterSim strict M
      (c.setNode n ((c.nodes n).becomeFollower t)) h' := by
  rcases (hc.node n).becomeFollower hc.legal t with ⟨h', hmoved, hsim⟩
  refine ⟨h', hc.setNode hmoved hsim ?_⟩
  intro hstate
  rw [becomeFollower_state] at hstate
  cases hstate

/--
The condition on a step: a response to an AppendEntries request either carries
a later term or finds its caller still leading the term of the request.
-/
def OwnTerm (c : Cluster NodeID) : Action NodeID -> Prop
  | .appendResponse reply => AnswersOwnTerm c reply
  | _ => True

instance (c : Cluster NodeID) (a : Action NodeID) : Decidable (OwnTerm c a) :=
  match a with
  | .appendResponse reply => inferInstanceAs (Decidable (AnswersOwnTerm c reply))
  | .startElection _ | .handleRequestVote _ | .voteResponse _ | .propose _ _
  | .replicateLog _ | .handleAppendEntries _ | .becomeFollower _ _
  | .restart _ => isTrue trivial

theorem ClusterSim.step (hc : ClusterSim strict M c h) {a : Action NodeID}
    (hin : strict -> OwnTerm c a) (hstep : c.step a = some c') :
    exists h', ClusterSim strict M c' h' := by
  cases a with
  | startElection n =>
    cases hstep
    exact hc.startElection n
  | handleRequestVote call => exact hc.handleRequestVote hstep
  | voteResponse reply => exact hc.voteResponse hstep
  | propose n data => exact hc.propose hstep
  | replicateLog n =>
    cases hstep
    exact ⟨h, hc.replicateLog n⟩
  | handleAppendEntries call => exact hc.handleAppendEntries hstep
  | appendResponse reply => exact hc.appendResponse hin hstep
  | becomeFollower n t =>
    cases hstep
    exact hc.becomeFollower n t
  | restart n =>
  cases hstep
  exact ⟨h, hc.restart n⟩

theorem clusterSim_initial :
    ClusterSim strict M (Cluster.initial M) History.initial where
  legal := Consensus.Reachable.initial
  node := nodeSim_initial
  tally := by intro n hstate; cases hstate
  network :=
    { voteCall := by intro i m hm; cases hm
      voteOnce := by intro i j a b ha; cases ha
      voteReply := by intro i resp hresp; cases hresp
      appendCall := by intro i m hm; cases hm
      appendReply := by intro i resp hresp; cases hresp }

/-!
## One step of a cluster
-/

omit [DecidableEq NodeID] [Fintype NodeID] in
theorem sendAppendEntries_frame (c : Cluster NodeID) (n : NodeID) (t k : Nat)
    (peers : List NodeID) :
    (c.sendAppendEntries n t k peers).nodes = c.nodes ∧
      (c.sendAppendEntries n t k peers).voteCalls = c.voteCalls := by
  cases peers with
  | nil => exact ⟨rfl, rfl⟩
  | cons p rest => exact ⟨rfl, rfl⟩

/-- The handler that runs at one node, or a crash, in a step of a cluster. -/
structure StepAt (c c' : Cluster NodeID) (a : Action NodeID) (p : NodeID) :
    Prop where
  nodes : exists r, c'.nodes = Function.update c.nodes p r ∧
    (r = c.nodes p ∨ (a = .restart p ∧ r = (c.nodes p).restart) ∨
      exists b, (c.nodes p).step b = some r)
  mutex : (forall n, a ≠ .restart n) -> c.mutexOf a = some p
  calls : c.voteCalls <+: c'.voteCalls

omit [Fintype NodeID] in
theorem StepAt.of_handler {a : Action NodeID} {p : NodeID}
    {b : NodeAction NodeID} (hb : (c.nodes p).step b = some r)
    (hnodes : c'.nodes = Function.update c.nodes p r)
    (hmutex : c.mutexOf a = some p) (hcalls : c.voteCalls <+: c'.voteCalls) :
    StepAt c c' a p :=
  ⟨⟨r, hnodes, Or.inr (Or.inr ⟨b, hb⟩)⟩, fun _ => hmutex, hcalls⟩

omit [Fintype NodeID] in
theorem step_at {a : Action NodeID} (hstep : c.step a = some c') :
    exists p, StepAt c c' a p := by
  cases a with
  | startElection p =>
    cases hstep
    exact ⟨p, .of_handler (b := .startElection) rfl rfl rfl
      (List.prefix_append _ _)⟩
  | handleRequestVote call =>
    simp only [Cluster.step, Cluster.handleRequestVote] at hstep
    cases hm : c.voteCalls[call]? with
    | none => simp [hm] at hstep
    | some m =>
    simp only [hm, Option.some.injEq] at hstep
    subst hstep
    exact ⟨m.peer, .of_handler (b := .handleRequestVote m.req) rfl rfl
      (by simp [Cluster.mutexOf, hm]) List.prefix_rfl⟩
  | voteResponse reply =>
    simp only [Cluster.step, Cluster.voteResponse] at hstep
    split at hstep
    · cases hstep
    rename_i call resp hreply
    split at hstep
    · cases hstep
    cases hm : c.voteCalls[call]? with
    | none => simp [hm] at hstep
    | some m =>
    simp only [hm, Option.some.injEq] at hstep
    subst hstep
    exact ⟨m.caller, .of_handler (b := .voteResponse m.req resp) rfl rfl
      (by simp [Cluster.mutexOf, hreply, hm]) List.prefix_rfl⟩
  | propose p data =>
    simp only [Cluster.step, Cluster.propose] at hstep
    cases hr : (c.nodes p).propose data with
    | none => simp [hr] at hstep
    | some r =>
    simp only [hr, Option.some.injEq] at hstep
    subst hstep
    exact ⟨p, .of_handler (b := .propose data)
      (by rw [RaftNode.step, hr, Option.map]) rfl rfl List.prefix_rfl⟩
  | replicateLog p =>
    cases hstep
    have hsame : (c.replicateLog p).nodes = c.nodes ∧
        (c.replicateLog p).voteCalls = c.voteCalls := by
      unfold Cluster.replicateLog
      split
      · exact ⟨rfl, rfl⟩
      · exact sendAppendEntries_frame ..
    exact ⟨p, ⟨c.nodes p, by rw [hsame.left, Function.update_eq_self],
      Or.inl rfl⟩, fun _ => rfl, by rw [hsame.right]⟩
  | handleAppendEntries call =>
    simp only [Cluster.step, Cluster.handleAppendEntries] at hstep
    cases hm : c.appendCalls[call]? with
    | none => simp [hm] at hstep
    | some m =>
    simp only [hm, Option.some.injEq] at hstep
    subst hstep
    exact ⟨m.peer, .of_handler (b := .handleAppendEntries m.req) rfl rfl
      (by simp [Cluster.mutexOf, hm]) List.prefix_rfl⟩
  | appendResponse reply =>
    simp only [Cluster.step, Cluster.appendResponse] at hstep
    split at hstep
    · cases hstep
    rename_i call resp hreply
    split at hstep
    · cases hstep
    cases hm : c.appendCalls[call]? with
    | none => simp [hm] at hstep
    | some m =>
    simp only [hm, Option.some.injEq] at hstep
    subst hstep
    refine ⟨m.caller, .of_handler (b := .appendResponse m.peer m.req resp)
      rfl ?_ (by simp [Cluster.mutexOf, hreply, hm]) ?_⟩
    · split
      · exact (sendAppendEntries_frame ..).left
      · rfl
    split
    · rw [(sendAppendEntries_frame ..).right]
      exact List.prefix_rfl
    · exact List.prefix_rfl
  | becomeFollower p term =>
    cases hstep
    exact ⟨p, .of_handler (b := .becomeFollower term) rfl rfl rfl
      List.prefix_rfl⟩
  | restart p =>
    cases hstep
    exact ⟨p, ⟨_, rfl, Or.inr (Or.inl ⟨rfl, rfl⟩)⟩,
      fun hnot => absurd rfl (hnot p), List.prefix_rfl⟩

/-!
## Mutexes
-/

/-- A goroutine that grants a vote finds its node as it left it. -/
def Voting (c : Cluster NodeID) (g : Holder NodeID) : Prop :=
  forall call, g.vote = some call -> exists m, c.voteCalls[call]? = some m ∧
    m.peer = g.node ∧
      (c.nodes g.node).checkVote m.req = some (c.nodes g.node)

/-- Every mutex does its work. -/
structure Exclusive (s : MutexCluster NodeID) : Prop where
  once : (s.holders.map Holder.node).Nodup
  locked : forall g, g ∈ s.holders -> s.locked g.node = true
  voting : forall g, g ∈ s.holders -> Voting s.cluster g

/--
The condition on a step: a call that fails finds the mutex of its node free
when the loop unlocks it once more.
-/
def SparesMutex (s : MutexCluster NodeID) : MutexAction NodeID -> Prop
  | .appendFailed call =>
    (s.cluster.appendCalls[call]?).all (fun m => !s.locked m.caller)
  | _ => True

instance (s : MutexCluster NodeID) (a : MutexAction NodeID) :
    Decidable (SparesMutex s a) :=
  match a with
  | .appendFailed _ => inferInstanceAs (Decidable (_ = true))
  | .run _ | .lock _ | .unlock _ | .checkVote _ | .grantVote _ =>
    isTrue trivial

variable {s s' : MutexCluster NodeID} {g : Holder NodeID}

omit [Fintype NodeID] in
theorem Voting.frame (h : Voting c g) (hnode : c'.nodes g.node = c.nodes g.node)
    (hcalls : c.voteCalls <+: c'.voteCalls) : Voting c' g := by
  intro call hcall
  rcases h call hcall with ⟨m, hm, hpeer, hcheck⟩
  rcases hcalls with ⟨back, hback⟩
  refine ⟨m, ?_, hpeer, ?_⟩
  · rw [← hback, List.getElem?_append_left
      (List.getElem?_eq_some_iff.mp hm).1, hm]
  · rw [hnode]
    exact hcheck

omit [Fintype NodeID] in
theorem checkVote_some {n r : RaftNode NodeID} {req : RequestVoteRequest NodeID}
    (h : n.checkVote req = some r) :
    (r = n ∨ r = n.becomeFollower req.term) ∧ r.checkVote req = some r ∧
      r.handleRequestVote req = r.grantVote req := by
  unfold RaftNode.checkVote at h
  by_cases hstale : req.term < n.currentTerm
  · rw [if_pos hstale] at h
    cases h
  rw [if_neg hstale] at h
  simp only at h
  have hfollow : forall x : RaftNode NodeID, ¬ req.term < x.currentTerm ->
      ¬ req.term > x.currentTerm ->
      ((x.votedFor = none ∨ x.votedFor = some req.candidateID) ∧
        x.upToDate req) -> x.checkVote req = some x ∧
          x.handleRequestVote req = x.grantVote req := by
    intro x hlow hhigh hcan
    unfold RaftNode.checkVote RaftNode.handleRequestVote
    simp only [if_neg hlow, if_neg hhigh, if_pos hcan]
    exact ⟨trivial, rfl⟩
  by_cases hlater : req.term > n.currentTerm
  · simp only [if_pos hlater] at h
    split at h
    · rename_i hcan
      rw [Option.some.injEq] at h
      subst h
      have hterm := becomeFollower_term_of_gt hlater
      exact ⟨Or.inr rfl, hfollow _ (by omega) (by omega) hcan⟩
    · cases h
  simp only [if_neg hlater] at h
  split at h
  · rename_i hcan
    rw [Option.some.injEq] at h
    subst h
    exact ⟨Or.inl rfl, hfollow _ hstale hlater hcan⟩
  · cases h

omit [Fintype NodeID] in
theorem Exclusive.run (hs : Exclusive s) {a : Action NodeID}
    (hfree : (s.cluster.mutexOf a).any s.locked = false)
    (hcrash : forall n, a ≠ .restart n) (hstep : s.cluster.step a = some c') :
    Exclusive { s with cluster := c' } where
  once := hs.once
  locked := hs.locked
  voting := by
    intro g hg
    rcases step_at hstep with ⟨p, ⟨r, hnodes, _⟩, hmutex, hcalls⟩
    rw [hmutex hcrash, Option.any_some] at hfree
    refine (hs.voting g hg).frame ?_ hcalls
    show c'.nodes g.node = _
    rw [hnodes, Function.update_of_ne]
    intro heq
    rw [← heq, hs.locked g hg] at hfree
    cases hfree

omit [Fintype NodeID] in
theorem Exclusive.restart (hs : Exclusive s) (n : NodeID) :
    Exclusive (s.restart n) where
  once := hs.once.sublist (List.filter_sublist.map _)
  locked := by
    intro g hg
    rcases List.mem_filter.mp hg with ⟨hin, hne⟩
    show Function.update s.locked n false g.node = true
    rw [Function.update_of_ne (of_decide_eq_true hne)]
    exact hs.locked g hin
  voting := by
    intro g hg
    rcases List.mem_filter.mp hg with ⟨hin, hne⟩
    refine (hs.voting g hin).frame ?_ List.prefix_rfl
    exact Function.update_of_ne (of_decide_eq_true hne) _ _

omit [Fintype NodeID] in
theorem Exclusive.lock (hs : Exclusive s) {d : Cluster NodeID}
    (hlock : ({ s with cluster := d } : MutexCluster NodeID).lock g = some s')
    (hnodes : forall p, p ≠ g.node -> d.nodes p = s.cluster.nodes p)
    (hcalls : s.cluster.voteCalls <+: d.voteCalls) (hvoting : Voting d g) :
    Exclusive s' ∧ s'.cluster = d := by
  unfold MutexCluster.lock at hlock
  split at hlock
  · cases hlock
  rename_i hfree
  cases hlock
  have hother : forall x, x ∈ s.holders -> x.node ≠ g.node := by
    intro x hx heq
    rw [← heq] at hfree
    exact hfree (hs.locked x hx)
  refine ⟨⟨List.nodup_cons.mpr ⟨?_, hs.once⟩, ?_, ?_⟩, rfl⟩
  · intro hin
    rcases List.mem_map.mp hin with ⟨x, hx, heq⟩
    exact hother x hx heq
  · intro x hx
    rcases List.mem_cons.mp hx with heq | hold
    · subst heq
      exact Function.update_self ..
    · show Function.update s.locked g.node true x.node = true
      rw [Function.update_of_ne (hother x hold)]
      exact hs.locked x hold
  · intro x hx
    rcases List.mem_cons.mp hx with heq | hold
    · subst heq
      exact hvoting
    · exact (hs.voting x hold).frame (hnodes _ (hother x hold))
        hcalls

omit [Fintype NodeID] in
theorem Exclusive.leave (hs : Exclusive s) {d : Cluster NodeID}
    (hleave : ({ s with cluster := d } : MutexCluster NodeID).leave g c' =
      some s')
    (hnodes : forall p, p ≠ g.node -> c'.nodes p = s.cluster.nodes p)
    (hcalls : s.cluster.voteCalls <+: c'.voteCalls) :
    g ∈ s.holders ∧ s'.cluster = c' ∧ Exclusive s' := by
  unfold MutexCluster.leave MutexCluster.unlock at hleave
  split at hleave
  · cases hleave
  rename_i hin
  rw [not_not] at hin
  simp only [hs.locked g hin, if_true, Option.some.injEq] at hleave
  subst hleave
  have hkept : forall x, x ∈ s.holders.erase g ->
      x ∈ s.holders ∧ x.node ≠ g.node := by
    intro x hx
    have hmem := List.mem_of_mem_erase hx
    refine ⟨hmem, fun heq => ?_⟩
    have hsame := List.inj_on_of_nodup_map hs.once hmem hin heq
    subst hsame
    exact (List.Nodup.mem_erase_iff hs.once.of_map).mp hx |>.left rfl
  refine ⟨hin, rfl, hs.once.sublist (List.erase_sublist.map _), ?_, ?_⟩
  · intro x hx
    show Function.update s.locked g.node false x.node = true
    rw [Function.update_of_ne (hkept x hx).right]
    exact hs.locked x (hkept x hx).left
  · intro x hx
    exact (hs.voting x (hkept x hx).left).frame (hnodes _ (hkept x hx).right)
      hcalls

/--
While every mutex does its work, the cluster takes a step of its own or none.
-/
theorem Exclusive.step (hs : Exclusive s) {a : MutexAction NodeID}
    (hspares : SparesMutex s a) (hstep : s.step a = some s') :
    Exclusive s' ∧ (s'.cluster = s.cluster ∨
      exists b, (a = .run b ∨ forall reply, b ≠ .appendResponse reply) ∧
        s.cluster.step b = some s'.cluster) := by
  have hback : forall {r : RaftNode NodeID} {p q : NodeID}, q ≠ p ->
      Function.update s.cluster.nodes p r q = s.cluster.nodes q :=
    fun hne => Function.update_of_ne hne _ _
  cases a with
  | run b =>
    by_cases hcrash : exists n, b = .restart n
    · rcases hcrash with ⟨n, hn⟩
      subst hn
      cases hstep
      exact ⟨hs.restart n, Or.inr ⟨.restart n, Or.inl rfl, rfl⟩⟩
    have hcrash' : forall n, b ≠ .restart n := fun n hn => hcrash ⟨n, hn⟩
    have hrun : s.step (.run b) =
        if (s.cluster.mutexOf b).any s.locked then none
        else (s.cluster.step b).map (fun c => { s with cluster := c }) := by
      cases b with
      | restart n => exact absurd rfl (hcrash' n)
      | _ => rfl
    rw [hrun] at hstep
    split at hstep
    · cases hstep
    rename_i hfree
    rcases Option.map_eq_some_iff.mp hstep with ⟨c', hc', heq⟩
    subst heq
    exact ⟨hs.run (Bool.eq_false_of_not_eq_true hfree) hcrash' hc',
      Or.inr ⟨b, Or.inl rfl, hc'⟩⟩
  | lock n =>
    rcases hs.lock (d := s.cluster) hstep (fun _ _ => rfl) List.prefix_rfl
      (fun _ hcall => nomatch hcall) with ⟨hs', hc⟩
    exact ⟨hs', Or.inl hc⟩
  | unlock n =>
    rcases hs.leave (d := s.cluster) hstep (fun _ _ => rfl) List.prefix_rfl with ⟨_, hc, hs'⟩
    exact ⟨hs', Or.inl hc⟩
  | checkVote call =>
    simp only [MutexCluster.step, MutexCluster.checkVote] at hstep
    cases hm : s.cluster.voteCalls[call]? with
    | none => simp [hm] at hstep
    | some m =>
    cases hcheck : (s.cluster.nodes m.peer).checkVote m.req with
    | none => simp [hm, hcheck] at hstep
    | some node =>
    simp only [hm, hcheck] at hstep
    rcases checkVote_some hcheck with ⟨hnode, hagain, _⟩
    rcases hs.lock hstep (fun _ hne => hback hne) List.prefix_rfl (by
      intro i hi
      cases hi
      refine ⟨m, hm, rfl, ?_⟩
      rw [setNode_nodes_self]
      exact hagain) with ⟨hs', hc⟩
    refine ⟨hs', ?_⟩
    rw [hc]
    rcases hnode with hsame | hfollows
    · left
      rw [hsame, Cluster.setNode, Function.update_eq_self]
    right
    refine ⟨.becomeFollower m.peer m.req.term,
      Or.inr (fun _ hno => nomatch hno), ?_⟩
    rw [hfollows]
    rfl
  | grantVote call =>
    simp only [MutexCluster.step, MutexCluster.grantVote] at hstep
    cases hm : s.cluster.voteCalls[call]? with
    | none => simp [hm] at hstep
    | some m =>
    simp only [hm] at hstep
    rcases hs.leave hstep (fun _ hne => hback hne) List.prefix_rfl with
      ⟨hin, hc, hs'⟩
    refine ⟨hs', Or.inr ⟨.handleRequestVote call,
      Or.inr (fun _ hno => nomatch hno), ?_⟩⟩
    rcases hs.voting _ hin call rfl with ⟨m', hm', _, hcheck⟩
    rw [hm, Option.some.injEq] at hm'
    subst hm'
    rw [hc]
    simp only [Cluster.step, Cluster.handleRequestVote, hm,
      (checkVote_some hcheck).right.right]
  | appendFailed call =>
  simp only [MutexCluster.step, MutexCluster.appendFailed] at hstep
  split at hstep
  · cases hstep
  cases hm : s.cluster.appendCalls[call]? with
  | none => simp [hm] at hstep
  | some m =>
  simp only [SparesMutex, hm, Option.all_some,
    Bool.not_eq_true'] at hspares
  simp only [hm, MutexCluster.unlock, hspares, Option.some.injEq] at hstep
  subst hstep
  exact ⟨hs.restart m.caller, Or.inr ⟨.restart m.caller,
    Or.inr (fun _ hno => nomatch hno), rfl⟩⟩

omit [Fintype NodeID] in
theorem exclusive_initial : Exclusive (MutexCluster.initial M) where
  once := List.nodup_nil
  locked := by intro g hg; cases hg
  voting := by intro g hg; cases hg

/--
The condition on a step: besides, a response to an AppendEntries request either
carries a later term or finds its caller still leading the term of the request.
-/
def Orderly (s : MutexCluster NodeID) (a : MutexAction NodeID) : Prop :=
  SparesMutex s a ∧
    match a with
    | .run b => OwnTerm s.cluster b
    | _ => True

instance (s : MutexCluster NodeID) (a : MutexAction NodeID) :
    Decidable (Orderly s a) :=
  match a with
  | .run _ | .lock _ | .unlock _ | .checkVote _ | .grantVote _
  | .appendFailed _ => inferInstanceAs (Decidable (_ ∧ _))

omit [DecidableEq NodeID] [Fintype NodeID] in
theorem Orderly.ownTerm {a : MutexAction NodeID} {b : Action NodeID}
    (h : Orderly s a)
    (hb : a = .run b ∨ forall reply, b ≠ .appendResponse reply) :
    OwnTerm s.cluster b := by
  rcases hb with heq | hnot
  · subst heq
    exact h.right
  · cases b with
    | appendResponse reply => exact absurd rfl (hnot reply)
    | _ => trivial

/-- What every step of the cluster keeps holds while mutexes do their work. -/
theorem cluster_invariant {I : Cluster NodeID -> Prop}
    {C : MutexCluster NodeID -> MutexAction NodeID -> Prop}
    {D : Cluster NodeID -> Action NodeID -> Prop}
    (hspares : forall s a, C s a -> SparesMutex s a)
    (hown : forall s a b, C s a ->
      (a = .run b ∨ forall reply, b ≠ .appendResponse reply) -> D s.cluster b)
    (hkeep : forall c a c', I c -> D c a -> c.step a = some c' -> I c')
    (hinit : I (Cluster.initial M)) {actions : List (MutexAction NodeID)}
    (hmeets : Meets MutexCluster.step C (MutexCluster.initial M) actions)
    (hrun : run? MutexCluster.step (MutexCluster.initial M) actions = some s) :
    I s.cluster := by
  have hboth : forall (s : MutexCluster NodeID) (a : MutexAction NodeID)
      (s' : MutexCluster NodeID), Exclusive s ∧ I s.cluster -> C s a ->
      s.step a = some s' -> Exclusive s' ∧ I s'.cluster := by
    intro s a s' hs hC hstep
    rcases hs.left.step (hspares s a hC) hstep with ⟨hs', hcluster⟩
    refine ⟨hs', ?_⟩
    rcases hcluster with hsame | ⟨b, hb, hone⟩
    · rw [hsame]
      exact hs.right
    · exact hkeep _ _ _ hs.right (hown s a b hC hb) hone
  exact (run?_invariant_of_meets hboth ⟨exclusive_initial, hinit⟩ hmeets
    hrun).right

theorem exists_clusterSim {actions : List (MutexAction NodeID)}
    (hmeets : Meets MutexCluster.step SparesMutex (MutexCluster.initial M)
      actions)
    (hrun : run? MutexCluster.step (MutexCluster.initial M) actions = some s) :
    exists h, ClusterSim False M s.cluster h :=
  cluster_invariant (I := fun c => exists h, ClusterSim False M c h)
    (D := fun _ _ => True) (fun _ _ h => h) (fun _ _ _ _ _ => trivial)
    (fun _ _ _ ⟨_, hc⟩ _ hstep => hc.step False.elim hstep)
    ⟨History.initial, clusterSim_initial⟩ hmeets hrun

end Raft
end ChimeraMQ
