import ChimeraMQ.Raft.Simulation

/-!
# Elections

Stepping down, standing, voting and winning, as steps of the protocol.
-/

namespace ChimeraMQ
namespace Raft

open Foundation
open Consensus

variable {NodeID : Type}
variable {strict : Prop} {M : Membership NodeID}
variable {h : NodeHistory NodeID} {n : NodeID} {r : RaftNode NodeID}

/-!
## Stepping down
-/

@[simp] theorem becomeFollower_state (r : RaftNode NodeID) (t : Nat) :
    (r.becomeFollower t).state = .follower := by
  unfold RaftNode.becomeFollower
  by_cases ht : t > r.currentTerm <;> simp [ht, RaftNode.saveState]

theorem becomeFollower_term_of_gt {t : Nat} (ht : t > r.currentTerm) :
    (r.becomeFollower t).currentTerm = t := by
  simp [RaftNode.becomeFollower, ht, RaftNode.saveState]

variable [DecidableEq NodeID] [Fintype NodeID]

variable (hlegal : Legal strict h) (hsim : NodeSim strict M h n r)

include hlegal hsim

theorem NodeSim.ballot_later {t : Nat} (ht : r.currentTerm < t) :
    h.ballot n t = none := by
  cases hballot : h.ballot n t with
  | none => rfl
  | some c =>
  have hle := hlegal.coherent.ballot_term n t c hballot
  rw [← hsim.term] at hle
  exact absurd ht (Nat.not_lt.mpr hle)

theorem NodeSim.becomeFollower (t : Nat) :
    exists h', Moved strict n h h' ∧
      NodeSim strict M h' n (r.becomeFollower t) := by
  by_cases ht : t > r.currentTerm
  · have hle : h.term n ≤ t := by
      rw [← hsim.term]
      exact Nat.le_of_lt ht
    have hmoved : Moved strict n h (h.advance n t) :=
      Moves.single (Step.advance hle) (frame_advance h n t)
    refine ⟨h.advance n t, hmoved, ?_⟩
    have hr : r.becomeFollower t =
        { r with
          state := .follower, currentTerm := t, votedFor := none
          disk := { r.disk with state := some (t, none) } } := by
      simp [RaftNode.becomeFollower, ht, RaftNode.saveState]
    rw [hr]
    exact
      { id := hsim.id
        peers := hsim.peers
        term := by simp [History.advance]
        vote := (hsim.ballot_later hlegal ht).symm
        numbered := hsim.numbered
        log := hsim.log
        diskState := rfl
        diskLog := hsim.diskLog
        next_pos := hsim.next_pos
        leader := by intro hstate; cases hstate
        candidate := by intro hstate; cases hstate
        safe := fun hstrict =>
          ((hsim.safe hstrict).mono (hmoved.grows hlegal)
            (hmoved.acked_mono hlegal hstrict)).of_le rfl (Nat.le_refl _) rfl
            (Nat.le_of_lt ht) (by intro hstate; cases hstate) }
  · refine ⟨h, Moves.refl n h, ?_⟩
    have hr : r.becomeFollower t = { r with state := .follower } := by
      simp [RaftNode.becomeFollower, ht]
    rw [hr]
    exact
      { hsim with
        leader := by intro hstate; cases hstate
        candidate := by intro hstate; cases hstate
        safe := fun hstrict =>
          (hsim.safe hstrict).of_le rfl (Nat.le_refl _) rfl (Nat.le_refl _)
            (by intro hstate; cases hstate) }

omit [DecidableEq NodeID] [Fintype NodeID] hlegal hsim in
theorem catchUp_term {t : Nat} (ht : ¬ t < r.currentTerm) :
    (if t > r.currentTerm then r.becomeFollower t else r).currentTerm = t := by
  by_cases hgt : t > r.currentTerm
  · rw [if_pos hgt, becomeFollower_term_of_gt hgt]
  · rw [if_neg hgt]
    exact Nat.le_antisymm (Nat.not_lt.mp ht) (Nat.not_lt.mp hgt)

theorem NodeSim.catchUp (t : Nat) :
    exists h', Moved strict n h h' ∧
      NodeSim strict M h' n
        (if t > r.currentTerm then r.becomeFollower t else r) := by
  by_cases hgt : t > r.currentTerm
  · rw [if_pos hgt]
    exact hsim.becomeFollower hlegal t
  · rw [if_neg hgt]
    exact ⟨h, Moves.refl n h, hsim⟩

omit [DecidableEq NodeID] [Fintype NodeID] hlegal hsim in
theorem catchUp_candidate {t : Nat}
    (hstate : (if t > r.currentTerm then r.becomeFollower t else r).state =
      .candidate) :
    (if t > r.currentTerm then r.becomeFollower t else r) = r := by
  by_cases hgt : t > r.currentTerm
  · rw [if_pos hgt, becomeFollower_state] at hstate
    cases hstate
  · rw [if_neg hgt]

/-!
## Standing
-/

theorem NodeSim.becomeCandidate :
    exists h', Moved strict n h h' ∧
      NodeSim strict M h' n r.becomeCandidate ∧
      VoteSim h' n r.becomeCandidate.requestVote ∧
      h'.ballot n r.becomeCandidate.currentTerm = some n := by
  have hmoved : Moved strict n h (h.campaign n) :=
    Moves.single (Step.campaign n) (frame_campaign h n)
  have hr : r.becomeCandidate =
      { r with
        state := .candidate, currentTerm := r.currentTerm + 1
        votedFor := some n, votesReceived := 1
        disk := { r.disk with state := some (r.currentTerm + 1, some n) } } := by
    simp [RaftNode.becomeCandidate, RaftNode.saveState, hsim.id]
  have hballot : (h.campaign n).ballot n (r.currentTerm + 1) = some n := by
    simp [History.campaign, hsim.term]
  have hbid : (h.campaign n).bid n (r.currentTerm + 1) =
      some r.log.entries := by
    simp [History.campaign, hsim.term, hsim.log]
  refine ⟨h.campaign n, hmoved, ?_, ?_, ?_⟩
  · rw [hr]
    exact
      { id := hsim.id
        peers := hsim.peers
        term := by simp [History.campaign, hsim.term]
        vote := hballot.symm
        numbered := hsim.numbered
        log := hsim.log
        diskState := rfl
        diskLog := hsim.diskLog
        next_pos := hsim.next_pos
        leader := by intro hstate; cases hstate
        candidate := by
          intro _
          refine ⟨?_, fun _ => hbid⟩
          intro hleader
          have hle := (hlegal.coherent.leader_term _ _ hleader).right
          rw [← hsim.term] at hle
          exact absurd hle (Nat.not_succ_le_self _)
        safe := fun hstrict =>
          ((hsim.safe hstrict).mono (hmoved.grows hlegal)
            (hmoved.acked_mono hlegal hstrict)).of_le rfl (Nat.le_refl _) rfl
            (Nat.le_succ _) (by intro hstate; cases hstate) }
  · rw [hr]
    exact
      { candidate := hsim.id
        bid := ⟨r.log.entries, hbid, hsim.numbered.lastIndex,
          RaftLog.lastTerm_eq r.log⟩ }
  · rw [hr]
    exact hballot

/-!
## Winning
-/

omit hlegal hsim in
theorem quorum_majority {V : Finset NodeID} (hpeers : r.peers = M.peers n)
    (hcard : r.quorum ≤ V.card) : Majority Finset.univ V where
  subset := Finset.subset_univ V
  card := by
    rw [M.card n]
    rw [RaftNode.quorum, hpeers] at hcard
    omega

omit hlegal in
theorem becomeLeader_eq (hcandidate : r.state = .candidate) :
    r.becomeLeader =
      { r with
        state := .leader
        nextIndex := fun p =>
          if p ∈ M.peers n then r.log.entries.length + 1 else r.nextIndex p
        matchIndex := fun p =>
          if p ∈ M.peers n then 0 else r.matchIndex p
        log := r.log.append ⟨r.log.entries.length + 1, r.currentTerm,
          EntryType.noOp, []⟩
        disk := { r.disk with
          log := some (r.log.append ⟨r.log.entries.length + 1, r.currentTerm,
            EntryType.noOp, []⟩) } } := by
  unfold RaftNode.becomeLeader
  simp [hcandidate, RaftNode.initPeers, RaftNode.saveLog, hsim.peers,
    hsim.numbered.lastIndex]

theorem NodeSim.unled (hcandidate : r.state = .candidate) {V : Finset NodeID}
    (hV : Majority Finset.univ V)
    (hvotes : forall v, v ∈ V -> h.ballot v r.currentTerm = some n) :
    h.leader r.currentTerm = none := by
  cases hleader : h.leader r.currentTerm with
  | none => rfl
  | some m =>
  have hm := hlegal.coherent.leader_unique hleader hV hvotes
  rw [hm] at hleader
  exact absurd hleader (hsim.candidate hcandidate).left

theorem NodeSim.becomeLeader (hcandidate : r.state = .candidate)
    {V : Finset NodeID} (hcard : r.quorum ≤ V.card)
    (hvotes : forall v, v ∈ V -> h.ballot v r.currentTerm = some n) :
    exists h', Moved strict n h h' ∧
      NodeSim strict M h' n r.becomeLeader := by
  have hV : Majority Finset.univ V := quorum_majority hsim.peers hcard
  have hnone := hsim.unled hlegal hcandidate hV hvotes
  have hbid := (hsim.candidate hcandidate).right hnone
  let noop : LogEntry :=
    ⟨r.log.entries.length + 1, r.currentTerm, EntryType.noOp, []⟩
  have hwin : Moved strict n h (h.win n) := by
    apply Moves.single
    · apply Step.win
      · rw [← hsim.term, ← hsim.log]
        exact hbid
      · rw [← hsim.term]
        exact hnone
      · exact hV
      · rw [← hsim.term]
        exact hvotes
    · exact frame_win h n
  have hextend : Moved strict n (h.win n) ((h.win n).extend n noop) := by
    apply Moves.single
    · apply Step.extend
      · simp [History.win]
      · exact hsim.term
    · exact frame_extend (h.win n) n noop
  have hmoved : Moved strict n h ((h.win n).extend n noop) :=
    hwin.trans hextend
  refine ⟨(h.win n).extend n noop, hmoved, ?_⟩
  rw [becomeLeader_eq hsim hcandidate]
  exact
    { id := hsim.id
      peers := hsim.peers
      term := hsim.term
      vote := hsim.vote
      numbered := hsim.numbered.append rfl
      log := by
        simp [History.extend, History.win, RaftLog.append, hsim.log, noop]
      diskState := hsim.diskState
      diskLog := rfl
      next_pos := by
        intro p hp
        simp [hp]
      leader := by
        intro _
        simp [History.extend, History.win, hsim.term]
      candidate := by intro hstate; cases hstate
      safe := by
        intro hstrict
        have hcom := (hsim.safe hstrict).mono (hmoved.grows hlegal)
          (hmoved.acked_mono hlegal hstrict)
        exact
          { commit_le := hcom.commit_le.trans (by simp [RaftLog.append])
            commit := by
              have htake : (r.log.entries ++ [noop]).take r.commitIndex =
                  r.log.entries.take r.commitIndex :=
                List.take_append_of_le_length hcom.commit_le
              simpa [RaftLog.append, htake, noop] using hcom.commit
            passed := hcom.passed
            next_le := by
              intro _ p hp
              simp [hp, RaftLog.append]
            matched := by
              intro _ p hp
              simp [hp]
            own := by
              intro _
              simp [RaftLog.append, History.extend, History.win, hsim.term,
                hsim.log] } }

/-!
## Voting
-/

theorem NodeSim.handleRequestVote {c : NodeID} {req : RequestVoteRequest NodeID}
    (hreq : VoteSim h c req) :
    exists h', Moved strict n h h' ∧
      NodeSim strict M h' n (r.handleRequestVote req).1 ∧
      ((r.handleRequestVote req).2.voteGranted = true ->
        h'.ballot n req.term = some c) := by
  unfold RaftNode.handleRequestVote
  by_cases hold : req.term < r.currentTerm
  · rw [if_pos hold]
    exact ⟨h, Moves.refl n h, hsim, by intro hgrant; cases hgrant⟩
  rw [if_neg hold]
  rcases hsim.catchUp hlegal req.term with ⟨h1, hmoved, hsim1⟩
  have hterm := catchUp_term hold
  have hreq1 := hreq.mono (hmoved.grows hlegal)
  generalize (if req.term > r.currentTerm then r.becomeFollower req.term
    else r) = r1 at hsim1 hterm
  by_cases hvote : (r1.votedFor = none ∨ r1.votedFor = some req.candidateID) ∧
      r1.upToDate req
  · simp only [hvote, and_self, if_true]
    rcases hreq1.bid with ⟨log, hbid, hindex, hlast⟩
    have hc := hreq1.candidate
    have hterm1 : h1.term n = req.term := by
      rw [← hsim1.term, hterm]
    have hbid1 : h1.bid c (h1.term n) = some log := by
      rw [hterm1]
      exact hbid
    have hup : UpToDate LogEntry.term log (h1.log n) := by
      have hup := hvote.right
      unfold RaftNode.upToDate at hup
      rw [hindex, hlast, hsim1.numbered.lastIndex, RaftLog.lastTerm_eq,
        hsim1.log] at hup
      rcases hup with hlater | ⟨hsame, hlong⟩
      · exact Or.inl hlater
      · exact Or.inr ⟨hsame.symm, hlong⟩
    have hfree : h1.ballot n (h1.term n) = none ∨
        h1.ballot n (h1.term n) = some c := by
      have hfree := hvote.left
      rw [hsim1.vote, hsim1.term, hc] at hfree
      exact hfree
    have hmoved' : Moved strict n h1 (h1.vote n c) :=
      Moves.single (Step.vote hbid1 hup hfree) (frame_vote h1 n c)
    have hlegal1 := hmoved.legal hlegal
    have hballot : (h1.vote n c).ballot n req.term = some c := by
      simp [History.vote, hterm1]
    refine ⟨h1.vote n c, hmoved.trans hmoved', ?_, fun _ => hballot⟩
    exact
      { hsim1 with
        vote := by
          change some req.candidateID = (h1.vote n c).ballot n r1.currentTerm
          rw [hterm, hballot, hc]
        diskState := rfl
        leader := hsim1.leader
        candidate := hsim1.candidate
        safe := fun hstrict =>
          { (hsim1.safe hstrict).mono (hmoved'.grows hlegal1)
              (hmoved'.acked_mono hlegal1 hstrict) with } }
  · simp only [hvote, if_false]
    exact ⟨h1, hmoved, hsim1, by intro hgrant; cases hgrant⟩

omit hlegal hsim

omit [Fintype NodeID] in
theorem handleRequestVote_candidate
    {req : RequestVoteRequest NodeID}
    (hstate : (r.handleRequestVote req).1.state = .candidate) :
    r.state = .candidate ∧
      (r.handleRequestVote req).1.currentTerm = r.currentTerm ∧
      (r.handleRequestVote req).1.votesReceived = r.votesReceived := by
  unfold RaftNode.handleRequestVote at hstate ⊢
  by_cases hold : req.term < r.currentTerm
  · rw [if_pos hold] at hstate ⊢
    exact ⟨hstate, rfl, rfl⟩
  rw [if_neg hold] at hstate ⊢
  have hsame := catchUp_candidate (r := r) (t := req.term)
  generalize (if req.term > r.currentTerm then r.becomeFollower req.term
    else r) = r1 at hsame hstate
  by_cases hvote : (r1.votedFor = none ∨ r1.votedFor = some req.candidateID) ∧
      r1.upToDate req
  · simp only [hvote, and_self, if_true] at hstate ⊢
    have heq : r1 = r := hsame hstate
    subst heq
    exact ⟨hstate, rfl, rfl⟩
  simp only [hvote, if_false] at hstate ⊢
  have heq : r1 = r := hsame hstate
  subst heq
  exact ⟨hstate, rfl, rfl⟩

/-!
## Counting votes
-/

omit [DecidableEq NodeID] in
theorem NodeSim.withVotes (hsim : NodeSim strict M h n r) (k : Nat) :
    NodeSim strict M h n { r with votesReceived := k } :=
  { hsim with
    safe := fun hstrict => { hsim.safe hstrict with } }

end Raft
end ChimeraMQ
