import ChimeraMQ.Raft.Election

/-!
# Replication

Appending, accepting, committing and applying entries, as steps of the
protocol, and what a request or a response says about the logs it came from.
-/

namespace ChimeraMQ
namespace Raft

open Foundation
open Consensus

variable {NodeID : Type}
variable {strict : Prop} {M : Membership NodeID}
variable {h : NodeHistory NodeID} {n : NodeID} {r : RaftNode NodeID}

/-!
## Applying
-/

theorem applyNext_spec (r : RaftNode NodeID) (k : Nat) :
    exists last fsm passed,
      r.applyNext k =
        { r with lastApplied := last, fsm := fsm, passed := passed } ∧
      forall e, e ∈ passed -> e ∈ r.passed ∨
        exists idx, idx ≤ r.lastApplied + k ∧ r.log.get idx = some e := by
  induction k generalizing r with
  | zero => exact ⟨r.lastApplied, r.fsm, r.passed, rfl, fun e he => Or.inl he⟩
  | succ k ih =>
  unfold RaftNode.applyNext
  cases hget : r.log.get (r.lastApplied + 1) with
  | none =>
    rcases ih { r with lastApplied := r.lastApplied + 1 } with
      ⟨last, fsm, passed, heq, hpassed⟩
    refine ⟨last, fsm, passed, by simpa [hget] using heq, ?_⟩
    intro e he
    rcases hpassed e he with hold | ⟨idx, hidx, hlog⟩
    · exact Or.inl hold
    · refine Or.inr ⟨idx, ?_, hlog⟩
      change idx ≤ r.lastApplied + 1 + k at hidx
      omega
  | some x =>
  rcases ih { r with
    lastApplied := r.lastApplied + 1
    fsm := if x.type = EntryType.command then r.fsm ++ [x] else r.fsm
    passed := r.passed ++ [x] } with
    ⟨last, fsm, passed, heq, hpassed⟩
  refine ⟨last, fsm, passed, by simpa [hget] using heq, ?_⟩
  intro e he
  rcases hpassed e he with hold | ⟨idx, hidx, hlog⟩
  · rcases List.mem_append.mp hold with hold | hnew
    · exact Or.inl hold
    · rw [List.mem_singleton.mp hnew]
      exact Or.inr ⟨r.lastApplied + 1, by omega, hget⟩
  · refine Or.inr ⟨idx, ?_, hlog⟩
    change idx ≤ r.lastApplied + 1 + k at hidx
    omega

theorem applyCommitted_spec (r : RaftNode NodeID) :
    exists last fsm passed,
      r.applyCommitted =
        { r with lastApplied := last, fsm := fsm, passed := passed } ∧
      forall e, e ∈ passed -> e ∈ r.passed ∨
        exists idx, idx ≤ r.commitIndex ∧ r.log.get idx = some e := by
  unfold RaftNode.applyCommitted
  by_cases hle : r.commitIndex ≤ r.lastApplied
  · rw [Nat.sub_eq_zero_of_le hle]
    exact ⟨r.lastApplied, r.fsm, r.passed, rfl, fun e he => Or.inl he⟩
  have hadd : r.lastApplied + (r.commitIndex - r.lastApplied) =
      r.commitIndex := by
    omega
  rcases applyNext_spec r (r.commitIndex - r.lastApplied) with
    ⟨last, fsm, passed, heq, hpassed⟩
  rw [hadd] at hpassed
  exact ⟨last, fsm, passed, heq, hpassed⟩

theorem applyCommitted_frame (r : RaftNode NodeID) :
    r.applyCommitted.state = r.state ∧
      r.applyCommitted.currentTerm = r.currentTerm ∧
      r.applyCommitted.votesReceived = r.votesReceived := by
  rcases applyCommitted_spec r with ⟨last, fsm, passed, heq, _⟩
  rw [heq]
  exact ⟨rfl, rfl, rfl⟩

variable [Fintype NodeID] {idx : Nat}

theorem Committing.final_of_get (hcom : Committing M h n r)
    (hnum : RaftLog.Numbered r.log) {e : LogEntry} (hidx : idx ≤ r.commitIndex)
    (hget : r.log.get idx = some e) :
    Final h r.currentTerm e := by
  cases idx with
  | zero =>
    rw [hnum.get_zero] at hget
    cases hget
  | succ k =>
  rw [hnum.get_succ] at hget
  have htake : (r.log.entries.take r.commitIndex)[k]? = some e := by
    rw [List.getElem?_take, if_pos (Nat.lt_of_succ_le hidx), hget]
  exact ⟨_, k, hcom.commit, htake, hnum.index k e hget⟩

theorem NodeSim.applyCommitted (hsim : NodeSim strict M h n r) :
    NodeSim strict M h n r.applyCommitted := by
  rcases applyCommitted_spec r with ⟨last, fsm, passed, heq, hpassed⟩
  rw [heq]
  refine { hsim with safe := ?_ }
  intro hstrict
  have hcom := hsim.safe hstrict
  refine { hcom with passed := ?_ }
  intro e he
  rcases hpassed e he with hold | ⟨idx, hidx, hget⟩
  · exact hcom.passed e hold
  · exact hcom.final_of_get hsim.numbered hidx hget

theorem NodeSim.commit (hsim : NodeSim strict M h n r) (idx : Nat)
    (hidx : strict -> idx ≤ r.log.entries.length ∧
      Chosen h r.currentTerm (r.log.entries.take idx)) :
    NodeSim strict M h n { r with commitIndex := idx } := by
  refine { hsim with safe := ?_ }
  intro hstrict
  exact
    { hsim.safe hstrict with
      commit_le := (hidx hstrict).left
      commit := (hidx hstrict).right }

/-!
## Committing as a leader
-/

variable {k : Nat}

omit [Fintype NodeID] in
theorem findCommit_spec (r : RaftNode NodeID)
    (hfind : r.findCommit k = some idx) :
    r.commitIndex < idx ∧ idx ≤ r.commitIndex + k ∧
      r.log.termAt idx = r.currentTerm ∧
      (r.peers.length + 1) / 2 < r.replicated idx := by
  induction k with
  | zero => cases hfind
  | succ k ih =>
  unfold RaftNode.findCommit at hfind
  by_cases hterm : r.log.termAt (r.commitIndex + (k + 1)) = r.currentTerm
  · by_cases hmany : r.replicated (r.commitIndex + (k + 1)) >
        (r.peers.length + 1) / 2
    · simp only [hterm, ne_eq, not_true_eq_false, hmany, if_true,
        if_false] at hfind
      cases hfind
      exact ⟨by omega, Nat.le_refl _, hterm, hmany⟩
    simp only [hterm, ne_eq, not_true_eq_false, hmany,
      if_false] at hfind
    rcases ih hfind with ⟨hlt, hle, hrest⟩
    exact ⟨hlt, by omega, hrest⟩
  · simp only [hterm, ne_eq, not_false_eq_true, if_true] at hfind
    rcases ih hfind with ⟨hlt, hle, hrest⟩
    exact ⟨hlt, by omega, hrest⟩

variable [DecidableEq NodeID]

def holders (r : RaftNode NodeID) (n : NodeID) (idx : Nat) :
    Finset NodeID :=
  insert n (r.peers.filter (fun p => r.matchIndex p ≥ idx)).toFinset

omit [Fintype NodeID] in
theorem card_holders (hpeers : r.peers = M.peers n)
    (idx : Nat) : (holders r n idx).card = r.replicated idx := by
  have hnot : n ∉ (r.peers.filter (fun p => r.matchIndex p ≥ idx)).toFinset := by
    simp [hpeers, M.mem_peers]
  have hnodup : (r.peers.filter (fun p => r.matchIndex p ≥ idx)).Nodup := by
    rw [hpeers]
    exact (M.nodup n).filter _
  rw [holders, Finset.card_insert_of_notMem hnot,
    List.toFinset_card_of_nodup hnodup, RaftNode.replicated,
    List.countP_eq_length_filter, Nat.add_comm]

variable (hlegal : Legal strict h) (hsim : NodeSim strict M h n r)

include hlegal hsim

theorem NodeSim.chosen_of_replicated (hstrict : strict)
    (hleader : r.state = .leader) (hpos : 0 < idx)
    (hle : idx ≤ r.log.entries.length)
    (hterm : r.log.termAt idx = r.currentTerm)
    (hmany : (r.peers.length + 1) / 2 < r.replicated idx) :
    Chosen h r.currentTerm (r.log.entries.take idx) := by
  have hcom := hsim.safe hstrict
  have hlead := hsim.leader hleader
  have hlog : r.log.entries = h.lead r.currentTerm := by
    rw [hsim.log, hsim.term]
    apply hlegal.coherent.leader_log
    rw [← hsim.term]
    exact hlead
  rcases Nat.exists_eq_succ_of_ne_zero (Nat.ne_of_gt hpos) with ⟨k, hk⟩
  subst hk
  have hget : r.log.entries[k]? = some r.log.entries[k] :=
    List.getElem?_eq_getElem hle
  have hentry : (r.log.entries[k]).term = r.currentTerm := by
    rw [hsim.numbered.termAt_succ, hget] at hterm
    exact hterm
  have hmark : Mark LogEntry.term h r.currentTerm
      (r.log.entries.take (k + 1)) := by
    refine ⟨?_, r.log.entries.take k, r.log.entries[k], ?_, hentry⟩
    · rw [← hlog]
      exact List.take_prefix _ _
    · rw [List.take_add_one, hget]
      rfl
  have hmajority : Majority Finset.univ (holders r n (k + 1)) := by
    refine ⟨Finset.subset_univ _, ?_⟩
    rw [card_holders hsim.peers, M.card n]
    rw [hsim.peers, Nat.succ_eq_add_one] at hmany
    omega
  refine Or.inr ⟨r.currentTerm, _, Nat.le_refl _, ⟨hmark, _, hmajority, ?_⟩,
    List.prefix_rfl⟩
  intro a ha
  rw [List.length_take, Nat.min_eq_left hle]
  rcases Finset.mem_insert.mp ha with hself | hpeer
  · rw [hself]
    exact hle.trans (hcom.own hleader)
  have hin := List.mem_filter.mp (List.mem_toFinset.mp hpeer)
  have hmatch : k + 1 ≤ r.matchIndex a := by
    simpa using hin.right
  rw [hsim.peers] at hin
  exact hmatch.trans (hcom.matched hleader a hin.left)

theorem NodeSim.advanceCommitIndex (hleader : strict -> r.state = .leader) :
    NodeSim strict M h n r.advanceCommitIndex := by
  unfold RaftNode.advanceCommitIndex
  cases hfind : r.findCommit (r.log.lastIndex - r.commitIndex) with
  | none => exact hsim
  | some idx =>
  rcases findCommit_spec r hfind with ⟨hlt, hle, hterm, hmany⟩
  rw [hsim.numbered.lastIndex] at hle
  have hlen : idx ≤ r.log.entries.length := by
    omega
  apply NodeSim.applyCommitted
  apply hsim.commit
  intro hstrict
  exact ⟨hlen, hsim.chosen_of_replicated hlegal hstrict
    (hleader hstrict) (Nat.zero_lt_of_lt hlt) hlen hterm hmany⟩

/-!
## Appending
-/

theorem NodeSim.propose {data : List UInt8} {r' : RaftNode NodeID}
    (hpropose : r.propose data = some (r', idx)) :
    exists h', Moved strict n h h' ∧ NodeSim strict M h' n r' := by
  unfold RaftNode.propose at hpropose
  by_cases hleader : r.state = .leader
  · simp only [hleader, ne_eq, not_true_eq_false, if_false,
      hsim.numbered.lastIndex, RaftNode.saveLog, Option.some.injEq,
      Prod.mk.injEq] at hpropose
    rw [← hpropose.left]
    let entry : LogEntry :=
      ⟨r.log.entries.length + 1, r.currentTerm, EntryType.command, data⟩
    have hlead := hsim.leader hleader
    have hmoved : Moved strict n h (h.extend n entry) := by
      apply Moves.single
      · apply Step.extend
        · rw [← hsim.term]
          exact hlead
        · exact hsim.term
      · exact frame_extend h n entry
    refine ⟨h.extend n entry, hmoved, ?_⟩
    exact
      { hsim with
        numbered := hsim.numbered.append rfl
        log := by
          simp [History.extend, RaftLog.append, hsim.log, entry]
        diskLog := rfl
        leader := fun _ => hlead
        candidate := by intro hstate; cases hstate
        safe := by
          intro hstrict
          have hcom := (hsim.safe hstrict).mono (hmoved.grows hlegal)
            (hmoved.acked_mono hlegal hstrict)
          exact
            { hcom with
              commit_le := hcom.commit_le.trans (by simp [RaftLog.append])
              commit := by
                have htake : (r.log.entries ++ [entry]).take r.commitIndex =
                    r.log.entries.take r.commitIndex :=
                  List.take_append_of_le_length hcom.commit_le
                simpa [RaftLog.append, htake, entry] using hcom.commit
              next_le := by
                intro _ p hp
                exact (hcom.next_le hleader p hp).trans
                  (by simp [RaftLog.append])
              matched := fun _ => hcom.matched hleader
              own := by
                intro _
                simp [RaftLog.append, History.extend, hsim.term, hsim.log] } }
  · simp [hleader] at hpropose

omit hlegal hsim

/-!
## Sending
-/

variable {p : NodeID}

theorem NodeSim.appendRequest (hsim : NodeSim strict M h n r)
    (hlegal : Legal strict h) (hp : p ∈ M.peers n) {t c : Nat}
    (hlead : h.leader t = some n)
    (hstrict : strict -> r.state = .leader ∧ r.currentTerm = t ∧
      exists P, Chosen h t P ∧ P.length = c) :
    RequestSim strict h n (r.appendRequest t c p) := by
  refine ⟨hlead, r.log, ?_⟩
  have hpos := hsim.next_pos p hp
  rcases Nat.exists_eq_succ_of_ne_zero (Nat.ne_of_gt hpos) with ⟨k, hk⟩
  exact
    { numbered := hsim.numbered
      traceable := by
        rw [hsim.log]
        exact hlegal.coherent.log_traceable n
      entries := by
        simp only [RaftNode.appendRequest, hk, Nat.succ_eq_add_one,
          Nat.add_sub_cancel]
        exact hsim.numbered.range_last k
      prevTerm := rfl
      fresh := by
        intro hst
        rcases hstrict hst with ⟨hleader, hterm, hcommit⟩
        have hnext := (hsim.safe hst).next_le hleader p hp
        refine ⟨?_, ?_, hcommit⟩
        · simp only [RaftNode.appendRequest]
          omega
        change r.log.entries <+: h.lead t
        have hlog := hlegal.coherent.leader_log n
        rw [← hsim.term, hterm] at hlog
        rw [hsim.log, hlog hlead] }

/-!
## Accepting
-/

omit [DecidableEq NodeID] [Fintype NodeID] in
theorem findConflictIndex_le (r : RaftNode NodeID) (idx : Nat) :
    r.findConflictIndex idx ≤ max idx 1 := by
  induction idx with
  | zero => exact Nat.le_max_right _ _
  | succ i ih =>
  have hle : max i 1 ≤ max (i + 1) 1 := by
    omega
  unfold RaftNode.findConflictIndex
  cases hentry : r.log.get (i + 1) with
  | none => exact ih.trans hle
  | some e =>
  cases hprev : r.log.get i with
  | none => exact Nat.le_max_left _ _
  | some x =>
  by_cases hterm : x.term = e.term
  · simp only [hterm, ne_eq, not_true_eq_false, if_false]
    exact ih.trans hle
  · simp only [hterm, ne_eq, not_false_eq_true, if_true]
    exact Nat.le_max_left _ _

theorem take_eq_of_le_length {α : Type} {own whole : List α}
    (hpre : own <+: whole) (hk : k ≤ own.length) :
    whole.take k = own.take k := by
  rcases hpre with ⟨back, hback⟩
  rw [← hback, List.take_append_of_le_length hk]

omit [DecidableEq NodeID] [Fintype NodeID] in
theorem agrees_of_traceable {own offered : List LogEntry}
    (hown : Traceable LogEntry.term h own)
    (hoffered : Traceable LogEntry.term h offered) :
    RaftLog.Agrees own offered := by
  intro k a b ha hb hterm
  have htakeOwn : own.take k ++ [a] = own.take (k + 1) := by
    rw [List.take_add_one, ha]
    rfl
  have htakeOffered : offered.take k ++ [b] = offered.take (k + 1) := by
    rw [List.take_add_one, hb]
    rfl
  have hlen : (own.take k).length = (offered.take k).length := by
    have hka : k < own.length := (List.getElem?_eq_some_iff.mp ha).1
    have hkb : k < offered.length := (List.getElem?_eq_some_iff.mp hb).1
    rw [List.length_take, List.length_take, Nat.min_eq_left (Nat.le_of_lt hka),
      Nat.min_eq_left (Nat.le_of_lt hkb)]
  rw [← htakeOwn, ← htakeOffered]
  apply hown.matching hoffered
  · rw [htakeOwn]
    exact List.take_prefix _ _
  · rw [htakeOffered]
    exact List.take_prefix _ _
  · exact hlen
  · exact hterm

variable {req : AppendEntriesRequest NodeID} {l : RaftLog}

include hlegal hsim

theorem take_eq_of_check (hcarries : Carries strict h req l)
    (hshort : req.prevLogIndex ≤ l.entries.length)
    (hcheck : ¬ (req.prevLogIndex > 0 ∧
      r.log.termAt req.prevLogIndex ≠ req.prevLogTerm)) :
    req.prevLogIndex ≤ r.log.entries.length ∧
      r.log.entries.take req.prevLogIndex =
        l.entries.take req.prevLogIndex := by
  have htrace : Traceable LogEntry.term h r.log.entries := by
    rw [hsim.log]
    exact hlegal.coherent.log_traceable n
  apply RaftLog.take_eq_of_check hsim.numbered hcarries.numbered
  · exact fun e he => hlegal.coherent.term_pos hcarries.traceable he
  · exact agrees_of_traceable htrace hcarries.traceable
  · exact hshort
  · rw [← hcarries.prevTerm]
    exact hcheck

theorem NodeSim.advanceTo (hterm : r.currentTerm = req.term)
    (hleader : h.leader req.term ≠ none) (hcarries : Carries strict h req l)
    (haccepted : strict -> l.entries <+: r.log.entries) :
    NodeSim strict M h n (r.advanceTo req) := by
  unfold RaftNode.advanceTo
  by_cases hmore : req.leaderCommit > r.commitIndex
  · rw [if_pos hmore]
    apply NodeSim.applyCommitted
    apply hsim.commit
    intro hstrict
    have hfresh := hcarries.fresh hstrict
    rcases hfresh.commit with ⟨P, hP, hlength⟩
    have hlast : req.prevLogIndex + req.entries.length =
        l.entries.length := by
      have hshort := hfresh.short
      rw [hcarries.entries, List.length_drop]
      omega
    have hPlead := (hlegal.secure_of_strict hstrict).settled_lead hP hleader
    rw [hlast]
    generalize hk : (if req.leaderCommit < l.entries.length
      then req.leaderCommit else l.entries.length) = k
    have hkl : k ≤ l.entries.length := by
      split at hk <;> omega
    have hkP : k ≤ P.length := by
      split at hk <;> omega
    have hsame : r.log.entries.take k = P.take k := by
      rw [take_eq_of_le_length (haccepted hstrict) hkl,
        ← take_eq_of_le_length hfresh.lead hkl, take_eq_of_le_length hPlead hkP]
    refine ⟨hkl.trans (haccepted hstrict).length_le, ?_⟩
    rw [hsame, hterm]
    exact hP.prefix_closed (List.take_prefix _ _)
  · rw [if_neg hmore]
    exact hsim

theorem NodeSim.accept {c : NodeID} (hterm : r.currentTerm = req.term)
    (hleader : h.leader req.term = some c) (hne : c ≠ n)
    (hcarries : Carries strict h req l)
    (hshort : req.prevLogIndex ≤ l.entries.length)
    (hcheck : ¬ (req.prevLogIndex > 0 ∧
      r.log.termAt req.prevLogIndex ≠ req.prevLogTerm)) :
    exists h', Moved strict n h h' ∧
      NodeSim strict M h' n { r with
        log := r.log.appendEntries (req.prevLogIndex + 1) req.entries
        }.saveLog ∧
      l.entries <+:
        (r.log.appendEntries (req.prevLogIndex + 1) req.entries).entries ∧
      l.entries.length ≤ h'.acked n req.term := by
  have hterm' : h.term n = req.term := by
    rw [← hsim.term, hterm]
  have hother : h.leader (h.term n) ≠ some n := by
    rw [hterm', hleader]
    exact fun heq => hne (Option.some.inj heq)
  have hoffer : StrictOffer strict h n l.entries := by
    intro hstrict
    refine ⟨?_, ?_⟩
    · rw [hterm', hleader]
      exact Option.some_ne_none c
    · rw [hterm']
      exact (hcarries.fresh hstrict).lead
  have hmoved : Moved strict n h (h.accept n l.entries) :=
    Moves.single (Step.accept hother hcarries.traceable hoffer)
      (frame_accept h n l.entries)
  have htrace : Traceable LogEntry.term h r.log.entries := by
    rw [hsim.log]
    exact hlegal.coherent.log_traceable n
  rcases take_eq_of_check hlegal hsim hcarries hshort hcheck with
    ⟨hlong, htake⟩
  have hmerge := RaftLog.appendEntries_eq_adopt hsim.numbered
    hcarries.numbered.index (agrees_of_traceable htrace hcarries.traceable)
    hlong hshort htake
  rw [← hcarries.entries] at hmerge
  rcases hmerge with ⟨hnum, hentries⟩
  refine ⟨h.accept n l.entries, hmoved, ?_, ?_, ?_⟩
  · exact
      { hsim with
        numbered := hnum
        log := by
          change (r.log.appendEntries _ _).entries = _
          rw [hentries, hsim.log]
          simp [History.accept]
        diskLog := rfl
        candidate := by
          intro _
          change h.leader r.currentTerm ≠ some n ∧
            (h.leader r.currentTerm = none -> _)
          rw [hterm, hleader]
          refine ⟨fun heq => hne (Option.some.inj heq), ?_⟩
          intro hnone
          cases hnone
        safe := by
          intro hstrict
          have hcom := hsim.safe hstrict
          have hmono := hcom.mono (hmoved.grows hlegal)
            (hmoved.acked_mono hlegal hstrict)
          have hkeep : r.log.entries.take r.commitIndex <+:
              adopt r.log.entries l.entries := by
            have hchosen := hcom.commit
            rw [hsim.term] at hchosen
            have hkeep := (hlegal.secure_of_strict hstrict).settled_adopt
              hchosen (by rw [← hsim.log]; exact List.take_prefix _ _)
              (hoffer hstrict)
            rw [← hsim.log] at hkeep
            exact hkeep
          have hlength : (r.log.entries.take r.commitIndex).length =
              r.commitIndex := by
            rw [List.length_take, Nat.min_eq_left hcom.commit_le]
          have hnot : r.state ≠ .leader := by
            intro hstate
            have hlead := hsim.leader hstate
            rw [hsim.term] at hlead
            exact hother hlead
          exact
            { commit_le := by
                change r.commitIndex ≤ (r.log.appendEntries _ _).entries.length
                rw [hentries, ← hlength]
                exact hkeep.length_le
              commit := by
                change Chosen _ r.currentTerm
                  ((r.log.appendEntries _ _).entries.take r.commitIndex)
                have htakeNew := take_eq_of_le_length hkeep
                  (Nat.le_of_eq hlength.symm)
                rw [List.take_take, Nat.min_self] at htakeNew
                rw [hentries, htakeNew]
                exact hmono.commit
              passed := hmono.passed
              next_le := fun hstate => absurd hstate hnot
              matched := fun hstate => absurd hstate hnot
              own := fun hstate => absurd hstate hnot } }
  · rw [hentries]
    exact prefix_adopt _ _
  · rw [← hterm']
    simp [History.accept]

omit [DecidableEq NodeID] hlegal hsim in
theorem Carries.entries_nil (hcarries : Carries strict h req l)
    (hlong : l.entries.length < req.prevLogIndex) : req.entries = [] := by
  rw [hcarries.entries, List.drop_eq_nil_of_le (Nat.le_of_lt hlong)]

theorem NodeSim.handleAppendEntries {c : NodeID}
    (hreq : RequestSim strict h c req) (hne : c ≠ n) :
    exists h', Moved strict n h h' ∧
      NodeSim strict M h' n (r.handleAppendEntries req).1 ∧
      ResponseSim strict h' n req (r.handleAppendEntries req).2 := by
  unfold RaftNode.handleAppendEntries
  by_cases hold : req.term < r.currentTerm
  · rw [if_pos hold]
    exact ⟨h, Moves.refl n h, hsim, Nat.zero_le _,
      by intro _ hsuccess; cases hsuccess⟩
  rw [if_neg hold]
  rcases hsim.catchUp hlegal req.term with ⟨h1, hmoved, hsim1⟩
  have hterm := catchUp_term hold
  have hreq1 := hreq.mono hlegal hmoved
  have hlegal1 := hmoved.legal hlegal
  generalize (if req.term > r.currentTerm then r.becomeFollower req.term
    else r) = r1 at hsim1 hterm
  by_cases hcheck : req.prevLogIndex > 0 ∧
      r1.log.termAt req.prevLogIndex ≠ req.prevLogTerm
  · rw [if_pos hcheck]
    refine ⟨h1, hmoved, hsim1, ?_, by intro _ hsuccess; cases hsuccess⟩
    have hle := findConflictIndex_le r1 req.prevLogIndex
    rwa [Nat.max_eq_left hcheck.left] at hle
  rw [if_neg hcheck]
  rcases hreq1.carries with ⟨l, hcarries⟩
  have hsome : h1.leader req.term ≠ none := by
    rw [hreq1.leader]
    exact Option.some_ne_none c
  by_cases hshort : req.prevLogIndex ≤ l.entries.length
  · rcases hsim1.accept hlegal1 hterm hreq1.leader hne hcarries hshort
      hcheck with ⟨h2, hmoved2, hsim2, haccepted, hacked⟩
    have hsome2 : h2.leader req.term ≠ none := by
      rw [(hmoved2.grows hlegal1).leader _ _ hreq1.leader]
      exact Option.some_ne_none c
    refine ⟨h2, hmoved.trans hmoved2, ?_, Nat.zero_le _, ?_⟩
    · exact hsim2.advanceTo (hmoved2.legal hlegal1) hterm hsome2
        (hcarries.mono hlegal1 hmoved2) (fun _ => haccepted)
    · intro _ _
      rw [hcarries.entries, List.length_drop]
      omega
  have hlong := Nat.lt_of_not_le hshort
  have hnil := hcarries.entries_nil hlong
  have hlog : { r1 with
      log := r1.log.appendEntries (req.prevLogIndex + 1) req.entries
      }.saveLog = r1.saveLog := by
    rw [hnil]
    rfl
  have hsim2 : NodeSim strict M h1 n r1.saveLog :=
    { hsim1 with
      diskLog := rfl
      safe := fun hstrict => { hsim1.safe hstrict with } }
  refine ⟨h1, hmoved, ?_, Nat.zero_le _, ?_⟩
  · rw [hlog]
    exact hsim2.advanceTo hlegal1 hterm hsome hcarries
      (fun hstrict => absurd (hcarries.fresh hstrict).short hshort)
  · intro hstrict _
    exact absurd (hcarries.fresh hstrict).short hshort

omit hlegal hsim

omit [DecidableEq NodeID] [Fintype NodeID] in
theorem advanceTo_frame (r : RaftNode NodeID)
    (req : AppendEntriesRequest NodeID) :
    (r.advanceTo req).state = r.state ∧
      (r.advanceTo req).currentTerm = r.currentTerm ∧
      (r.advanceTo req).votesReceived = r.votesReceived := by
  unfold RaftNode.advanceTo
  by_cases hmore : req.leaderCommit > r.commitIndex
  · rw [if_pos hmore]
    exact applyCommitted_frame _
  · rw [if_neg hmore]
    exact ⟨rfl, rfl, rfl⟩

omit [DecidableEq NodeID] [Fintype NodeID] in
theorem handleAppendEntries_candidate
    (hstate : (r.handleAppendEntries req).1.state = .candidate) :
    r.state = .candidate ∧
      (r.handleAppendEntries req).1.currentTerm = r.currentTerm ∧
      (r.handleAppendEntries req).1.votesReceived = r.votesReceived := by
  unfold RaftNode.handleAppendEntries at hstate ⊢
  by_cases hold : req.term < r.currentTerm
  · rw [if_pos hold] at hstate ⊢
    exact ⟨hstate, rfl, rfl⟩
  rw [if_neg hold] at hstate ⊢
  have hsame := catchUp_candidate (r := r) (t := req.term)
  generalize (if req.term > r.currentTerm then r.becomeFollower req.term
    else r) = r1 at hsame hstate
  by_cases hcheck : req.prevLogIndex > 0 ∧
      r1.log.termAt req.prevLogIndex ≠ req.prevLogTerm
  · rw [if_pos hcheck] at hstate ⊢
    have heq : r1 = r := hsame hstate
    subst heq
    exact ⟨hstate, rfl, rfl⟩
  rw [if_neg hcheck] at hstate ⊢
  rcases advanceTo_frame { r1 with
    log := r1.log.appendEntries (req.prevLogIndex + 1) req.entries
    }.saveLog req with ⟨hst, hterm, hvotes⟩
  have hst1 : r1.state = .candidate := by
    rw [hst] at hstate
    exact hstate
  have heq : r1 = r := hsame hst1
  subst heq
  exact ⟨hst1, hterm, hvotes⟩

/-!
## Responses
-/

omit [DecidableEq NodeID] [Fintype NodeID] in
theorem advanceCommitIndex_frame (r : RaftNode NodeID) :
    r.advanceCommitIndex.state = r.state ∧
      r.advanceCommitIndex.currentTerm = r.currentTerm ∧
      r.advanceCommitIndex.votesReceived = r.votesReceived := by
  unfold RaftNode.advanceCommitIndex
  cases r.findCommit (r.log.lastIndex - r.commitIndex) with
  | none => exact ⟨rfl, rfl, rfl⟩
  | some idx => exact applyCommitted_frame { r with commitIndex := idx }

omit [Fintype NodeID] in
theorem appendResponse_frame (p : NodeID) (req : AppendEntriesRequest NodeID)
    {resp : AppendEntriesResponse} (hterm : ¬ resp.term > r.currentTerm) :
    (r.appendResponse p req resp).1.state = r.state ∧
      (r.appendResponse p req resp).1.currentTerm = r.currentTerm ∧
      (r.appendResponse p req resp).1.votesReceived = r.votesReceived := by
  unfold RaftNode.appendResponse
  rw [if_neg hterm]
  by_cases hsuccess : resp.success = true
  · rw [if_pos hsuccess]
    cases req.entries.getLast? with
    | none => exact advanceCommitIndex_frame r
    | some e => exact advanceCommitIndex_frame { r with
        nextIndex := Function.update r.nextIndex p (e.index + 1)
        matchIndex := Function.update r.matchIndex p e.index }
  rw [if_neg hsuccess]
  by_cases hconflict : resp.conflictIndex > 0
  · rw [if_pos hconflict]
    exact ⟨rfl, rfl, rfl⟩
  rw [if_neg hconflict]
  by_cases hback : r.nextIndex p > 1
  · rw [if_pos hback]
    exact ⟨rfl, rfl, rfl⟩
  · rw [if_neg hback]
    exact ⟨rfl, rfl, rfl⟩

omit [DecidableEq NodeID] in
theorem Carries.last_index (hcarries : Carries strict h req l) {e : LogEntry}
    (hlast : req.entries.getLast? = some e) :
    e.index = l.entries.length ∧ l.entries.length =
      req.prevLogIndex + req.entries.length := by
  rw [hcarries.entries, List.getLast?_drop] at hlast
  by_cases hshort : l.entries.length ≤ req.prevLogIndex
  · rw [if_pos hshort] at hlast
    cases hlast
  rw [if_neg hshort] at hlast
  refine ⟨?_, ?_⟩
  · rw [← hcarries.numbered.lastIndex, RaftLog.lastIndex, hlast]
  · rw [hcarries.entries, List.length_drop]
    omega

theorem NodeSim.request_le (hlegal : Legal strict h)
    (hsim : NodeSim strict M h n r) (hstrict : strict)
    (hcarries : Carries strict h req l) (hterm : r.currentTerm = req.term)
    (hleader : r.state = .leader) :
    l.entries.length ≤ r.log.entries.length := by
  have hlead := hsim.leader hleader
  rw [hsim.term] at hlead
  rw [hsim.log, hlegal.coherent.leader_log n hlead, ← hsim.term, hterm]
  exact (hcarries.fresh hstrict).lead.length_le

omit [Fintype NodeID] in
theorem update_pos {next : NodeID -> Nat} {q : NodeID}
    (hk : 0 < k) (hq : 0 < next q) :
    0 < Function.update next p k q := by
  by_cases hqp : q = p
  · subst hqp
    simpa using hk
  · simpa [hqp] using hq

omit [Fintype NodeID] in
theorem update_le {next : NodeID -> Nat}
    (bound : NodeID -> Nat) {q : NodeID} (hk : k ≤ bound p)
    (hq : next q ≤ bound q) :
    Function.update next p k q ≤ bound q := by
  by_cases hqp : q = p
  · subst hqp
    simpa using hk
  · simpa [hqp] using hq

theorem NodeSim.withNext (hsim : NodeSim strict M h n r)
    (p : NodeID) (hpos : 0 < k)
    (hle : strict -> r.state = .leader -> k ≤ r.log.entries.length + 1) :
    NodeSim strict M h n
      { r with nextIndex := Function.update r.nextIndex p k } :=
  { hsim with
    next_pos := fun q hq => update_pos hpos (hsim.next_pos q hq)
    safe := fun hstrict =>
      { hsim.safe hstrict with
        next_le := fun hleader q hq =>
          update_le (fun _ => r.log.entries.length + 1)
            (hle hstrict hleader) ((hsim.safe hstrict).next_le hleader q hq) } }

theorem NodeSim.withMatch (hsim : NodeSim strict M h n r)
    (p : NodeID)
    (hle : strict -> r.state = .leader -> k ≤ h.acked p r.currentTerm) :
    NodeSim strict M h n
      { r with matchIndex := Function.update r.matchIndex p k } :=
  { hsim with
    safe := fun hstrict =>
      { hsim.safe hstrict with
        matched := fun hleader q hq =>
          update_le (fun a => h.acked a r.currentTerm)
            (hle hstrict hleader) ((hsim.safe hstrict).matched hleader q hq) } }

/--
Processing a response keeps the simulation; a strict run demands that the node
leads the term of the request unless the response makes it step down.
-/
theorem NodeSim.appendResponse (hlegal : Legal strict h)
    (hsim : NodeSim strict M h n r) (hp : p ∈ M.peers n)
    {resp : AppendEntriesResponse} (hreq : RequestSim strict h n req)
    (hresp : ResponseSim strict h p req resp)
    (hin : strict -> resp.term ≤ r.currentTerm ->
      r.state = .leader ∧ r.currentTerm = req.term) :
    exists h', Moved strict n h h' ∧
      NodeSim strict M h' n (r.appendResponse p req resp).1 ∧
      ((r.appendResponse p req resp).2 = true -> strict ->
        (r.appendResponse p req resp).1.state = .leader ∧
          (r.appendResponse p req resp).1.currentTerm = req.term) := by
  by_cases hlater : resp.term > r.currentTerm
  · unfold RaftNode.appendResponse
    rw [if_pos hlater]
    rcases hsim.becomeFollower hlegal resp.term with ⟨h', hmoved, hsim'⟩
    exact ⟨h', hmoved, hsim', by intro hflag; cases hflag⟩
  have hnow := fun hstrict => hin hstrict (Nat.not_lt.mp hlater)
  have hframe := appendResponse_frame p req hlater
  refine ⟨h, Moves.refl n h, ?_, ?_⟩
  · rcases hreq.carries with ⟨l, hcarries⟩
    unfold RaftNode.appendResponse
    rw [if_neg hlater]
    by_cases hsuccess : resp.success = true
    · rw [if_pos hsuccess]
      cases hlast : req.entries.getLast? with
      | none =>
        exact hsim.advanceCommitIndex hlegal
          (fun hstrict => (hnow hstrict).left)
      | some e =>
      rcases hcarries.last_index hlast with ⟨hindex, hlength⟩
      have hnext := hsim.withNext p (Nat.succ_pos e.index) (by
        intro hstrict hleader
        rw [hindex]
        exact Nat.succ_le_succ (hsim.request_le hlegal hstrict hcarries
          (hnow hstrict).right hleader))
      have hboth := hnext.withMatch p (k := e.index) (by
        intro hstrict _
        change e.index ≤ h.acked p r.currentTerm
        rw [(hnow hstrict).right, hindex, hlength]
        exact hresp.success hstrict hsuccess)
      exact hboth.advanceCommitIndex hlegal
        (fun hstrict => (hnow hstrict).left)
    rw [if_neg hsuccess]
    by_cases hconflict : resp.conflictIndex > 0
    · rw [if_pos hconflict]
      apply hsim.withNext p hconflict
      intro hstrict hleader
      have hreach := hsim.request_le hlegal hstrict hcarries
        (hnow hstrict).right hleader
      have hshort := (hcarries.fresh hstrict).short
      have hle := hresp.conflict
      omega
    rw [if_neg hconflict]
    by_cases hback : r.nextIndex p > 1
    · rw [if_pos hback]
      apply hsim.withNext p (Nat.sub_pos_of_lt hback)
      intro hstrict hleader
      exact (Nat.sub_le _ _).trans ((hsim.safe hstrict).next_le hleader p hp)
    · rw [if_neg hback]
      exact hsim
  · intro _ hstrict
    rw [hframe.left, hframe.right.left]
    exact hnow hstrict

/-!
## Restarting
-/

omit [DecidableEq NodeID] [Fintype NodeID] in
theorem load_newRaftNode (n : NodeID)
    (peers : List NodeID) (disk : Disk NodeID) (passed : List LogEntry) :
    (RaftNode.newRaftNode n peers disk passed).load =
      { RaftNode.newRaftNode n peers disk passed with
        currentTerm := (disk.state.getD (0, none)).1
        votedFor := (disk.state.getD (0, none)).2
        log := disk.log.getD newRaftLog } := by
  rcases disk with ⟨state, log⟩
  cases state <;> cases log <;> rfl

theorem restart_eq (hsim : NodeSim strict M h n r) :
    r.restart =
      { r with
        state := .follower, commitIndex := 0, lastApplied := 0
        nextIndex := fun p =>
          if p ∈ r.peers then r.log.lastIndex + 1 else 0
        matchIndex := fun _ => 0
        votesReceived := 0, fsm := [] } := by
  unfold RaftNode.restart RaftNode.start
  rw [load_newRaftNode, hsim.diskState, hsim.diskLog]
  simp only [RaftNode.initPeers, RaftNode.newRaftNode, RaftNode.mk.injEq,
    true_and, and_true]
  constructor
  · funext p
    by_cases hp : p ∈ r.peers <;> simp [hp]
  · funext p
    exact ite_self 0

theorem nodeSim_initial (n : NodeID) :
    NodeSim strict M History.initial n
      (RaftNode.newRaftNode n (M.peers n) ⟨none, none⟩ []).start := by
  unfold RaftNode.start
  rw [load_newRaftNode]
  exact
    { id := rfl
      peers := rfl
      term := rfl
      vote := rfl
      numbered := RaftLog.numbered_new
      log := rfl
      diskState := rfl
      diskLog := rfl
      next_pos := by
        intro p hp
        simp [RaftNode.initPeers, RaftNode.newRaftNode, hp]
      leader := by intro hstate; cases hstate
      candidate := by intro hstate; cases hstate
      safe := fun _ =>
        { commit_le := Nat.zero_le _
          commit := Or.inl rfl
          passed := by intro e he; cases he
          next_le := by intro hstate; cases hstate
          matched := by intro hstate; cases hstate
          own := by intro hstate; cases hstate } }

theorem NodeSim.restart (hsim : NodeSim strict M h n r) : NodeSim strict M h n r.restart := by
  rw [restart_eq hsim]
  exact
    { hsim with
      next_pos := by
        intro p hp
        rw [← hsim.peers] at hp
        simp [hp]
      leader := by intro hstate; cases hstate
      candidate := by intro hstate; cases hstate
      safe := fun hstrict =>
        (hsim.safe hstrict).of_le rfl (Nat.zero_le _) rfl (Nat.le_refl _)
          (by intro hstate; cases hstate) }

end Raft
end ChimeraMQ
