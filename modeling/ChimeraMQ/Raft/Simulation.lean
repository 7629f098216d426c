import Mathlib.Data.Fintype.Card
import ChimeraMQ.Consensus.Growth
import ChimeraMQ.Raft.Cluster

/-!
# Nodes simulate members

Every handler of a node is matched by steps of the member with its name in the
abstract replication protocol.  The flag `strict` selects what is tracked: the
facts outside it hold in every run; those under it need the responses to
AppendEntries requests to be processed by the leader of their term only.
-/

namespace ChimeraMQ
namespace Raft

open Foundation
open Consensus

variable {NodeID : Type} [DecidableEq NodeID] [Fintype NodeID]

theorem Membership.card (M : Membership NodeID) (n : NodeID) :
    (Finset.univ : Finset NodeID).card = (M.peers n).length + 1 := by
  have huniv :
      (Finset.univ : Finset NodeID) = insert n (M.peers n).toFinset := by
    ext m
    by_cases hm : m = n
    · simp [hm]
    · simp [hm, (M.mem_peers n m).mpr hm]
  have hnot : n ∉ (M.peers n).toFinset := by
    simp [M.mem_peers]
  rw [huniv, Finset.card_insert_of_notMem hnot,
    List.toFinset_card_of_nodup (M.nodup n)]

/-- The history of a replicated log whose members are the nodes. -/
abbrev NodeHistory (NodeID : Type) := History NodeID LogEntry

section Definitions

variable (strict : Prop)

abbrev Legal (h : NodeHistory NodeID) : Prop :=
  Consensus.Reachable LogEntry.term Finset.univ (StrictOffer strict) h

abbrev Moved (n : NodeID) (h h' : NodeHistory NodeID) : Prop :=
  Moves LogEntry.term Finset.univ (StrictOffer strict) n h h'

abbrev Chosen (h : NodeHistory NodeID) (t : Nat) (P : List LogEntry) : Prop :=
  Settled LogEntry.term Finset.univ h t P

def Final (h : NodeHistory NodeID) (t : Nat) (e : LogEntry) : Prop :=
  exists P k, Chosen h t P ∧ P[k]? = some e ∧ e.index = k + 1

/-- What a strict run adds to the simulation of a node. -/
structure Committing (M : Membership NodeID) (h : NodeHistory NodeID)
    (n : NodeID) (r : RaftNode NodeID) : Prop where
  commit_le : r.commitIndex ≤ r.log.entries.length
  commit : Chosen h r.currentTerm (r.log.entries.take r.commitIndex)
  passed : forall e, e ∈ r.passed -> Final h r.currentTerm e
  next_le : r.state = .leader -> forall p, p ∈ M.peers n ->
    r.nextIndex p ≤ r.log.entries.length + 1
  matched : r.state = .leader -> forall p, p ∈ M.peers n ->
    r.matchIndex p ≤ h.acked p r.currentTerm
  own : r.state = .leader ->
    r.log.entries.length ≤ h.acked n r.currentTerm

structure NodeSim (M : Membership NodeID) (h : NodeHistory NodeID)
    (n : NodeID) (r : RaftNode NodeID) : Prop where
  id : r.id = n
  peers : r.peers = M.peers n
  term : r.currentTerm = h.term n
  vote : r.votedFor = h.ballot n r.currentTerm
  numbered : RaftLog.Numbered r.log
  log : r.log.entries = h.log n
  diskState : r.disk.state.getD (0, none) = (r.currentTerm, r.votedFor)
  diskLog : r.disk.log.getD newRaftLog = r.log
  next_pos : forall p, p ∈ M.peers n -> 0 < r.nextIndex p
  leader : r.state = .leader -> h.leader r.currentTerm = some n
  candidate : r.state = .candidate ->
    h.leader r.currentTerm ≠ some n ∧
      (h.leader r.currentTerm = none ->
        h.bid n r.currentTerm = some r.log.entries)
  safe : strict -> Committing M h n r

/-- What a strict run adds to the facts about a request that carries a log. -/
structure Fresh (h : NodeHistory NodeID) (req : AppendEntriesRequest NodeID)
    (l : RaftLog) : Prop where
  short : req.prevLogIndex ≤ l.entries.length
  lead : l.entries <+: h.lead req.term
  commit : exists P, Chosen h req.term P ∧ P.length = req.leaderCommit

structure Carries (h : NodeHistory NodeID) (req : AppendEntriesRequest NodeID)
    (l : RaftLog) : Prop where
  numbered : RaftLog.Numbered l
  traceable : Traceable LogEntry.term h l.entries
  entries : req.entries = l.entries.drop req.prevLogIndex
  prevTerm : req.prevLogTerm = l.termAt req.prevLogIndex
  fresh : strict -> Fresh h req l

structure RequestSim (h : NodeHistory NodeID) (n : NodeID)
    (req : AppendEntriesRequest NodeID) : Prop where
  leader : h.leader req.term = some n
  carries : exists l, Carries strict h req l

/-- What a response says about the peer that sent it. -/
structure ResponseSim (h : NodeHistory NodeID) (p : NodeID)
    (req : AppendEntriesRequest NodeID) (resp : AppendEntriesResponse) :
    Prop where
  conflict : resp.conflictIndex ≤ req.prevLogIndex
  success : strict -> resp.success = true ->
    req.prevLogIndex + req.entries.length ≤ h.acked p req.term

structure VoteSim (h : NodeHistory NodeID) (n : NodeID)
    (req : RequestVoteRequest NodeID) : Prop where
  candidate : req.candidateID = n
  bid : exists log, h.bid n req.term = some log ∧
    req.lastLogIndex = log.length ∧
    req.lastLogTerm = Consensus.lastTerm LogEntry.term log

end Definitions

variable {strict : Prop} {M : Membership NodeID}

/-!
## Growth
-/

variable {h h' : NodeHistory NodeID}

omit [DecidableEq NodeID] in
theorem Final.mono {t t' : Nat} {e : LogEntry}
    (hlead : forall T, h.lead T <+: h'.lead T)
    (hacked : forall a T, h.acked a T ≤ h'.acked a T) (hle : t ≤ t')
    (hfinal : Final h t e) : Final h' t' e := by
  rcases hfinal with ⟨P, k, hP, hk, hindex⟩
  exact ⟨P, k, hP.mono hlead hacked hle, hk, hindex⟩

variable {n : NodeID}

variable (hlegal : Legal strict h)

include hlegal

theorem Moved.grows (hmoved : Moved strict n h h') :
    Grows h h' :=
  hlegal.grows hmoved.path

theorem Moved.legal (hmoved : Moved strict n h h') :
    Legal strict h' :=
  hlegal.of_path hmoved.path

theorem Moved.acked_mono (hmoved : Moved strict n h h') (hstrict : strict)
    (a : NodeID) (t : Nat) :
    h.acked a t ≤ h'.acked a t :=
  hlegal.acked_mono hstrict hmoved.path a t

omit [DecidableEq NodeID] hlegal in
theorem Committing.mono {r : RaftNode NodeID} (hgrows : Grows h h')
    (hacked : forall a T, h.acked a T ≤ h'.acked a T)
    (hcom : Committing M h n r) : Committing M h' n r where
  commit_le := hcom.commit_le
  commit := hcom.commit.mono hgrows.lead hacked (Nat.le_refl _)
  passed := fun e he =>
    (hcom.passed e he).mono hgrows.lead hacked (Nat.le_refl _)
  next_le := hcom.next_le
  matched := fun hstate p hp =>
    (hcom.matched hstate p hp).trans (hacked p _)
  own := fun hstate => (hcom.own hstate).trans (hacked n _)

omit [DecidableEq NodeID] hlegal in
theorem Committing.of_le {r r' : RaftNode NodeID} (hcom : Committing M h n r)
    (hlog : r'.log = r.log) (hcommit : r'.commitIndex ≤ r.commitIndex)
    (hpassed : r'.passed = r.passed) (hterm : r.currentTerm ≤ r'.currentTerm)
    (hstate : r'.state ≠ .leader) : Committing M h n r' where
  commit_le := by
    rw [hlog]
    exact hcommit.trans hcom.commit_le
  commit := by
    rw [hlog]
    have hmono := hcom.commit.mono (fun _ => List.prefix_rfl)
      (fun _ _ => Nat.le_refl _) hterm
    exact hmono.prefix_closed (List.take_prefix_take_left hcommit)
  passed := by
    intro e he
    rw [hpassed] at he
    exact (hcom.passed e he).mono (fun _ => List.prefix_rfl)
      (fun _ _ => Nat.le_refl _) hterm
  next_le := fun hleader => absurd hleader hstate
  matched := fun hleader => absurd hleader hstate
  own := fun hleader => absurd hleader hstate

theorem NodeSim.frame {m : NodeID} {r : RaftNode NodeID}
    (hmoved : Moved strict n h h') (hm : m ≠ n) (hsim : NodeSim strict M h m r) :
    NodeSim strict M h' m r where
  id := hsim.id
  peers := hsim.peers
  term := by rw [hmoved.frame.term m hm, hsim.term]
  vote := by rw [hmoved.frame.ballot m hm, hsim.vote]
  numbered := hsim.numbered
  log := by rw [hmoved.frame.log m hm, hsim.log]
  diskState := hsim.diskState
  diskLog := hsim.diskLog
  next_pos := hsim.next_pos
  leader := fun hstate =>
    (hmoved.grows hlegal).leader _ _ (hsim.leader hstate)
  candidate := by
    intro hstate
    rcases hsim.candidate hstate with ⟨hnot, hbid⟩
    refine ⟨fun hleader => hnot (hmoved.frame.leader m hm _ hleader), ?_⟩
    intro hnone
    rw [hmoved.frame.bid m hm]
    apply hbid
    cases hleader : h.leader r.currentTerm with
    | none => rfl
    | some k =>
    have hkeep := (hmoved.grows hlegal).leader _ _ hleader
    rw [hnone] at hkeep
    cases hkeep
  safe := fun hstrict =>
    (hsim.safe hstrict).mono (hmoved.grows hlegal)
      (hmoved.acked_mono hlegal hstrict)

theorem Carries.mono {req : AppendEntriesRequest NodeID} {l : RaftLog}
    (hmoved : Moved strict n h h') (hcarries : Carries strict h req l) : Carries
    strict h' req l where
  numbered := hcarries.numbered
  traceable := hcarries.traceable.mono (hmoved.grows hlegal).lead
  entries := hcarries.entries
  prevTerm := hcarries.prevTerm
  fresh := by
    intro hstrict
    have hfresh := hcarries.fresh hstrict
    have hgrows := hmoved.grows hlegal
    refine ⟨hfresh.short, hfresh.lead.trans (hgrows.lead _), ?_⟩
    rcases hfresh.commit with ⟨P, hP, hlength⟩
    exact ⟨P, hP.mono hgrows.lead (hmoved.acked_mono hlegal hstrict)
      (Nat.le_refl _), hlength⟩

theorem RequestSim.mono {m : NodeID} {req : AppendEntriesRequest NodeID}
    (hmoved : Moved strict n h h') (hreq : RequestSim strict h m req) :
    RequestSim strict h' m req := by
  rcases hreq.carries with ⟨l, hl⟩
  exact ⟨(hmoved.grows hlegal).leader _ _ hreq.leader,
    l, hl.mono hlegal hmoved⟩

theorem ResponseSim.mono {p : NodeID} {req : AppendEntriesRequest NodeID}
    {resp : AppendEntriesResponse}
    (hmoved : Moved strict n h h') (hresp : ResponseSim strict h p req resp) :
    ResponseSim strict h' p req resp where
  conflict := hresp.conflict
  success := fun hstrict hsuccess =>
    (hresp.success hstrict hsuccess).trans
      (hmoved.acked_mono hlegal hstrict p _)

omit hlegal

omit [DecidableEq NodeID] [Fintype NodeID] in
theorem VoteSim.mono {m : NodeID} {req : RequestVoteRequest NodeID}
    (hgrows : Grows h h') (hvote : VoteSim h m req) : VoteSim h' m req := by
  rcases hvote.bid with ⟨log, hbid, hlog⟩
  exact ⟨hvote.candidate, log, hgrows.bid _ _ _ hbid, hlog⟩

end Raft
end ChimeraMQ
