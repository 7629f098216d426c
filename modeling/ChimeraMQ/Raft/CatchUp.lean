import ChimeraMQ.Raft.Replication

/-!
# Catching up with a leader

The requests of a leader to one follower in its term.  What the follower has
accepted stays, whichever requests arrive late or once more; and the requests
that it rejects lead back to where the two logs agree.
-/

namespace ChimeraMQ
namespace Raft

open Consensus

variable {NodeID : Type}

structure RaftLog.WellFormed (l : RaftLog) : Prop where
  numbered : l.Numbered
  positive : forall e, e ∈ l.entries -> 0 < e.term

/-!
## Requests and what they offer
-/

/--
The request offers a version of the leader's log; the log only grows, so that
the version is a prefix of what it has become.
-/
structure Offers (term : Nat) (whole l : RaftLog)
    (req : AppendEntriesRequest NodeID) : Prop where
  numbered : l.Numbered
  version : l.entries <+: whole.entries
  term : req.term = term
  short : req.prevLogIndex ≤ l.entries.length
  prevTerm : req.prevLogTerm = l.termAt req.prevLogIndex
  entries : req.entries = l.entries.drop req.prevLogIndex

def Built (term : Nat) (whole : RaftLog) (req : AppendEntriesRequest NodeID) :
    Prop :=
  exists (n : RaftNode NodeID) (peer : NodeID) (commitIdx : Nat),
    n.log.firstIndex = 1 ∧ n.log.entries <+: whole.entries ∧
      1 ≤ n.nextIndex peer ∧ n.nextIndex peer ≤ n.log.lastIndex + 1 ∧
      req = n.appendRequest term commitIdx peer

section

variable {term : Nat} {whole l : RaftLog} {req : AppendEntriesRequest NodeID}

theorem Offers.last (h : Offers term whole l req) :
    req.prevLogIndex + req.entries.length = l.entries.length := by
  have hshort := h.short
  rw [h.entries, List.length_drop]
  omega

theorem RaftLog.Numbered.of_prefix (h : whole.Numbered)
    (hfirst : l.firstIndex = 1) (hpre : l.entries <+: whole.entries) :
    l.Numbered where
  first := hfirst
  index := by
    intro k e he
    rcases hpre with ⟨back, hback⟩
    apply h.index k e
    have hlt := (List.getElem?_eq_some_iff.mp he).1
    rw [← hback, List.getElem?_append_left hlt, he]

theorem offers_appendRequest {n : RaftNode NodeID} {peer : NodeID}
    (hnum : n.log.Numbered) (hpre : n.log.entries <+: whole.entries)
    (hpos : 1 ≤ n.nextIndex peer)
    (hle : n.nextIndex peer ≤ n.log.lastIndex + 1) (term commitIdx : Nat) :
    Offers term whole n.log (n.appendRequest term commitIdx peer) where
  numbered := hnum
  version := hpre
  term := rfl
  short := by
    rw [hnum.lastIndex] at hle
    exact Nat.sub_le_of_le_add hle
  prevTerm := rfl
  entries := by
    rcases Nat.exists_eq_succ_of_ne_zero (Nat.ne_of_gt hpos) with ⟨k, hk⟩
    simp only [RaftNode.appendRequest, hk, Nat.succ_eq_add_one,
      Nat.add_sub_cancel]
    exact hnum.range_last k

theorem Built.offers (hwhole : whole.Numbered) (h : Built term whole req) :
    exists l, Offers term whole l req := by
  rcases h with ⟨n, peer, commitIdx, hfirst, hpre, hpos, hle, hreq⟩
  rw [hreq]
  exact ⟨n.log, offers_appendRequest (hwhole.of_prefix hfirst hpre) hpre hpos
    hle term commitIdx⟩

end

/-!
## Handling a request
-/

structure Matches (term : Nat) (whole : RaftLog) (f : RaftNode NodeID) :
    Prop where
  term : f.currentTerm ≤ term
  numbered : f.log.Numbered
  agrees : RaftLog.Agrees f.log.entries whole.entries

structure Rejected (req : AppendEntriesRequest NodeID) (f f' : RaftNode NodeID)
    (resp : AppendEntriesResponse) : Prop where
  failure : resp.success = false
  log : f'.log = f.log
  positive : 1 ≤ resp.conflictIndex
  before : resp.conflictIndex ≤ req.prevLogIndex

/-- The follower accepts the request and adopts the version that it offers. -/
structure Accepted (l : RaftLog) (f f' : RaftNode NodeID)
    (resp : AppendEntriesResponse) : Prop where
  success : resp.success = true
  entries : f'.log.entries = adopt f.log.entries l.entries

theorem findConflictIndex_pos (r : RaftNode NodeID) (idx : Nat) :
    1 ≤ r.findConflictIndex idx := by
  induction idx with
  | zero => exact Nat.le_refl 1
  | succ i ih =>
  unfold RaftNode.findConflictIndex
  cases r.log.get (i + 1) with
  | none => exact ih
  | some e =>
  cases r.log.get i with
  | none => exact Nat.le_add_left 1 i
  | some prev =>
  simp only
  split
  · exact Nat.le_add_left 1 i
  · exact ih

theorem catchUp_log (f : RaftNode NodeID) (term : Nat) :
    (if term > f.currentTerm then f.becomeFollower term else f).log =
      f.log := by
  split
  · unfold RaftNode.becomeFollower
    simp only
    split
    · rfl
    · rfl
  · rfl

theorem advanceTo_log (f : RaftNode NodeID)
    (req : AppendEntriesRequest NodeID) : (f.advanceTo req).log = f.log := by
  unfold RaftNode.advanceTo
  split
  · rcases applyCommitted_spec { f with
      commitIndex :=
        if req.leaderCommit < req.prevLogIndex + req.entries.length then
          req.leaderCommit
        else req.prevLogIndex + req.entries.length } with
      ⟨last, fsm, passed, heq, _⟩
    simp only
    rw [heq]
  · rfl

theorem Matches.handle {term : Nat} {whole l : RaftLog}
    {req : AppendEntriesRequest NodeID} {f : RaftNode NodeID}
    (h : Matches term whole f)
    (hpositive : forall e, e ∈ whole.entries -> 0 < e.term)
    (hoffer : Offers term whole l req) :
    Matches term whole (f.handleAppendEntries req).1 ∧
      (f.handleAppendEntries req).1.currentTerm = term ∧
      (f.handleAppendEntries req).2.term = term ∧
      (Rejected req f (f.handleAppendEntries req).1
          (f.handleAppendEntries req).2 ∨
        Accepted l f (f.handleAppendEntries req).1
          (f.handleAppendEntries req).2) := by
  have hold : ¬ req.term < f.currentTerm := by
    rw [hoffer.term]
    exact Nat.not_lt.mpr h.term
  have hlog := catchUp_log f req.term
  have hterm := catchUp_term hold
  unfold RaftNode.handleAppendEntries
  rw [if_neg hold]
  generalize (if req.term > f.currentTerm then f.becomeFollower req.term
    else f) = f1 at hlog hterm
  by_cases hcheck : req.prevLogIndex > 0 ∧
      f1.log.termAt req.prevLogIndex ≠ req.prevLogTerm
  · simp only [if_pos hcheck]
    refine ⟨⟨Nat.le_of_eq (hterm.trans hoffer.term), ?_, ?_⟩,
      hterm.trans hoffer.term, hoffer.term, Or.inl ⟨rfl, hlog, ?_, ?_⟩⟩
    · rw [hlog]
      exact h.numbered
    · rw [hlog]
      exact h.agrees
    · exact findConflictIndex_pos f1 req.prevLogIndex
    · have hle := findConflictIndex_le f1 req.prevLogIndex
      rwa [Nat.max_eq_left hcheck.left] at hle
  simp only [if_neg hcheck]
  rw [hoffer.prevTerm, hlog] at hcheck
  have hagrees := h.agrees.of_prefix hoffer.version
  rcases RaftLog.take_eq_of_check h.numbered hoffer.numbered
    (fun e he => hpositive e (hoffer.version.subset he)) hagrees
    hoffer.short hcheck with ⟨hlong, htake⟩
  have hmerge := RaftLog.appendEntries_eq_adopt h.numbered
    hoffer.numbered.index hagrees hlong hoffer.short htake
  rw [← hoffer.entries, ← hlog] at hmerge
  rcases hmerge with ⟨hnum, hentries⟩
  rw [hlog] at hentries
  have hsame := advanceTo_log { f1 with
    log := f1.log.appendEntries (req.prevLogIndex + 1) req.entries
    }.saveLog req
  have hframe := (advanceTo_frame { f1 with
    log := f1.log.appendEntries (req.prevLogIndex + 1) req.entries
    }.saveLog req).right.left
  have hafter := hframe.trans (hterm.trans hoffer.term)
  refine ⟨⟨Nat.le_of_eq hafter, ?_, ?_⟩, hafter, hoffer.term,
    Or.inr ⟨rfl, ?_⟩⟩
  · rw [hsame]
    exact hnum
  · rw [hsame]
    show RaftLog.Agrees (f1.log.appendEntries _ _).entries _
    rw [hlog, hentries]
    exact h.agrees.adopt hoffer.version
  · rw [hsame]
    show (f1.log.appendEntries _ _).entries = _
    rw [hlog, hentries]

/-!
## Stale and repeated requests
-/

def RaftNode.deliverAll (f : RaftNode NodeID)
    (reqs : List (AppendEntriesRequest NodeID)) : RaftNode NodeID :=
  reqs.foldl (fun f req => (f.handleAppendEntries req).1) f

section

variable {term : Nat} {whole : RaftLog} {f : RaftNode NodeID}

theorem Matches.keeps {req : AppendEntriesRequest NodeID}
    (h : Matches term whole f) (hwhole : whole.WellFormed)
    (hbuilt : Built term whole req) {P : List LogEntry}
    (hown : P <+: f.log.entries) (hpre : P <+: whole.entries) :
    P <+: (f.handleAppendEntries req).1.log.entries := by
  rcases hbuilt.offers hwhole.numbered with ⟨l, hoffer⟩
  rcases (h.handle hwhole.positive hoffer).right.right.right with
    hrejected | haccepted
  · rw [hrejected.log]
    exact hown
  · rw [haccepted.entries]
    exact prefix_adopt_of_common hown hpre hoffer.version

theorem Matches.deliverAll (h : Matches term whole f)
    (hwhole : whole.WellFormed) {reqs : List (AppendEntriesRequest NodeID)}
    (hbuilt : forall req, req ∈ reqs -> Built term whole req) :
    Matches term whole (f.deliverAll reqs) ∧
      (f.currentTerm = term -> (f.deliverAll reqs).currentTerm = term) ∧
      forall P : List LogEntry, P <+: f.log.entries -> P <+: whole.entries ->
        P <+: (f.deliverAll reqs).log.entries := by
  induction reqs generalizing f with
  | nil => exact ⟨h, id, fun P hown _ => hown⟩
  | cons req rest ih =>
  have hfirst := hbuilt req (List.mem_cons_self ..)
  rcases hfirst.offers hwhole.numbered with ⟨l, hoffer⟩
  rcases h.handle hwhole.positive hoffer with ⟨hnext, hterm, _, _⟩
  rcases ih hnext (fun r hr => hbuilt r (List.mem_cons_of_mem req hr)) with
    ⟨hmatches, hkeep, hstarts⟩
  refine ⟨hmatches, fun _ => hkeep hterm, ?_⟩
  intro P hown hpre
  exact hstarts P (h.keeps hwhole hfirst hown hpre) hpre

theorem get_of_prefix {own whole l : RaftLog} (hown : own.Numbered)
    (hwhole : whole.Numbered) (hpre : l.entries <+: own.entries)
    (hversion : l.entries <+: whole.entries) {k : Nat} (hpos : 1 ≤ k)
    (hle : k ≤ l.entries.length) :
    exists e, own.get k = some e ∧ whole.get k = some e := by
  rcases Nat.exists_eq_succ_of_ne_zero (Nat.ne_of_gt hpos) with ⟨i, hi⟩
  subst hi
  rcases hpre with ⟨back, hback⟩
  rcases hversion with ⟨rest, hrest⟩
  refine ⟨l.entries[i], ?_, ?_⟩
  · rw [hown.get_succ, ← hback, List.getElem?_append_left hle]
    exact List.getElem?_eq_getElem hle
  · rw [hwhole.get_succ, ← hrest, List.getElem?_append_left hle]
    exact List.getElem?_eq_getElem hle

/--
What a follower has accepted from the leader of its term stays as in the
leader's log, whichever requests arrive after that.
-/
theorem accepted_stays (hwhole : whole.WellFormed) (hlog : f.log.WellFormed)
    (hterm : f.currentTerm = term)
    (hmatch : RaftLog.Agrees f.log.entries whole.entries)
    {before after : List (AppendEntriesRequest NodeID)}
    {req : AppendEntriesRequest NodeID}
    (hbuilt : forall r, r ∈ before ++ req :: after -> Built term whole r)
    (hsuccess :
      ((f.deliverAll before).handleAppendEntries req).2.success = true)
    {i : Nat} (hi : i ≤ req.prevLogIndex + req.entries.length) :
    (f.deliverAll (before ++ req :: after)).currentTerm = term ∧
      forall k, 1 ≤ k -> k ≤ i -> exists e,
        (f.deliverAll (before ++ req :: after)).log.get k = some e ∧
          whole.get k = some e := by
  have h : Matches term whole f :=
    ⟨Nat.le_of_eq hterm, hlog.numbered, hmatch⟩
  rcases h.deliverAll hwhole
    (fun r hr => hbuilt r (List.mem_append_left _ hr)) with ⟨hbefore, _, _⟩
  rcases (hbuilt req (by simp)).offers hwhole.numbered with ⟨l, hoffer⟩
  rcases hbefore.handle hwhole.positive hoffer with
    ⟨hnext, hnow, _, hrejected | haccepted⟩
  · rw [hrejected.failure] at hsuccess
    cases hsuccess
  rcases hnext.deliverAll hwhole
    (fun r hr => hbuilt r (List.mem_append_right _
      (List.mem_cons_of_mem req hr))) with ⟨hafter, hstays, hstarts⟩
  have hsplit : f.deliverAll (before ++ req :: after) =
      ((f.deliverAll before).handleAppendEntries req).1.deliverAll after := by
    unfold RaftNode.deliverAll
    rw [List.foldl_append]
    rfl
  have hin : l.entries <+:
      ((f.deliverAll before).handleAppendEntries req).1.log.entries := by
    rw [haccepted.entries]
    exact prefix_adopt _ _
  rw [hsplit]
  refine ⟨hstays hnow, ?_⟩
  intro k hpos hk
  apply get_of_prefix hafter.numbered hwhole.numbered
    (hstarts _ hin hoffer.version) hoffer.version hpos
  rw [← hoffer.last]
  exact hk.trans hi

def leaderLog : RaftLog :=
  ((newRaftLog.append ⟨1, 1, .noOp, []⟩).append ⟨2, 2, .noOp, []⟩).append
    ⟨3, 2, .command, [7]⟩

def followerLog : RaftLog :=
  (newRaftLog.append ⟨1, 1, .noOp, []⟩).append ⟨2, 1, .command, [9]⟩

theorem wellFormed_leaderLog : leaderLog.WellFormed where
  numbered := ((RaftLog.numbered_new.append rfl).append rfl).append rfl
  positive := by decide

theorem wellFormed_followerLog : followerLog.WellFormed where
  numbered := (RaftLog.numbered_new.append rfl).append rfl
  positive := by decide

theorem agrees_followerLog :
    RaftLog.Agrees followerLog.entries leaderLog.entries := by
  intro k a b ha hb hterm
  rcases k with _ | _ | k
  · rfl
  · cases ha
    cases hb
    cases hterm
  · cases ha

def leaderNode (count next : Nat) : RaftNode Nat :=
  { RaftNode.newRaftNode 1 [2] ⟨none, none⟩ [] with
    state := .leader
    currentTerm := 2
    log := { leaderLog with entries := leaderLog.entries.take count }
    nextIndex := fun _ => next }

def followerNode : RaftNode Nat :=
  { RaftNode.newRaftNode 2 [1] ⟨none, none⟩ [] with
    currentTerm := 2
    log := followerLog }

theorem built_leaderNode {count next : Nat}
    (h : 1 ≤ next ∧ next ≤ (leaderNode count next).log.lastIndex + 1) :
    Built 2 leaderLog ((leaderNode count next).appendRequest 2 0 2) :=
  ⟨leaderNode count next, 2, 0, rfl, List.take_prefix _ _, h.left, h.right, rfl⟩

/-- Two entries are accepted, after which an earlier request arrives twice. -/
theorem accepted_stays_late :
    (followerNode.deliverAll ([(leaderNode 3 4).appendRequest 2 0 2] ++
      (leaderNode 3 2).appendRequest 2 0 2 ::
        [(leaderNode 2 2).appendRequest 2 0 2,
          (leaderNode 2 1).appendRequest 2 0 2])).currentTerm = 2 ∧
      forall k, 1 ≤ k -> k ≤ 3 -> exists e,
        (followerNode.deliverAll ([(leaderNode 3 4).appendRequest 2 0 2] ++
          (leaderNode 3 2).appendRequest 2 0 2 ::
            [(leaderNode 2 2).appendRequest 2 0 2,
              (leaderNode 2 1).appendRequest 2 0 2])).log.get k = some e ∧
          leaderLog.get k = some e := by
  apply accepted_stays wellFormed_leaderLog wellFormed_followerLog rfl
    agrees_followerLog
  · intro r hr
    simp only [List.cons_append, List.nil_append, List.mem_cons,
      List.not_mem_nil, or_false] at hr
    rcases hr with hr | hr | hr | hr
    · rw [hr]
      exact built_leaderNode (by decide)
    · rw [hr]
      exact built_leaderNode (by decide)
    · rw [hr]
      exact built_leaderNode (by decide)
    · rw [hr]
      exact built_leaderNode (by decide)
  · decide
  · decide

end

/-!
## Backing off
-/

structure Exchange (NodeID : Type) where
  leader : RaftNode NodeID
  follower : RaftNode NodeID
  answer : Option AppendEntriesResponse

section

variable [DecidableEq NodeID]

def Exchange.round (peer : NodeID) (s : Exchange NodeID) : Exchange NodeID :=
  if s.leader.state ≠ .leader then s
  else
    let req := s.leader.appendRequest s.leader.currentTerm
      s.leader.commitIndex peer
    let r := s.follower.handleAppendEntries req
    { leader := (s.leader.appendResponse peer req r.2).1
      follower := r.1
      answer := some r.2 }

def Exchange.rounds (peer : NodeID) (s : Exchange NodeID) :
    Nat -> Exchange NodeID
  | 0 => s
  | k + 1 => (s.rounds peer k).round peer

structure Exchange.Goes (s : Exchange NodeID) (peer : NodeID) (log : RaftLog) :
    Prop where
  state : s.leader.state = .leader
  same : s.leader.log = log
  positive : 1 ≤ s.leader.nextIndex peer
  within : s.leader.nextIndex peer ≤ log.lastIndex + 1
  matching : Matches s.leader.currentTerm log s.follower

omit [DecidableEq NodeID] in
theorem advanceCommitIndex_log (n : RaftNode NodeID) :
    n.advanceCommitIndex.log = n.log ∧
      n.advanceCommitIndex.nextIndex = n.nextIndex := by
  unfold RaftNode.advanceCommitIndex
  cases n.findCommit (n.log.lastIndex - n.commitIndex) with
  | none => exact ⟨rfl, rfl⟩
  | some idx =>
  rcases applyCommitted_spec { n with commitIndex := idx } with
    ⟨last, fsm, passed, heq, _⟩
  simp only
  rw [heq]
  exact ⟨rfl, rfl⟩

theorem appendResponse_rejected {n : RaftNode NodeID} (peer : NodeID)
    (req : AppendEntriesRequest NodeID) {resp : AppendEntriesResponse}
    (hterm : resp.term = n.currentTerm) (hfailure : resp.success = false)
    (hpos : 1 ≤ resp.conflictIndex) :
    (n.appendResponse peer req resp).1 = { n with
      nextIndex := Function.update n.nextIndex peer resp.conflictIndex } := by
  unfold RaftNode.appendResponse
  have hsome : resp.conflictIndex > 0 := hpos
  rw [if_neg (by omega), if_neg (by simp [hfailure]), if_pos hsome]

theorem appendResponse_accepted {n : RaftNode NodeID} (peer : NodeID)
    (req : AppendEntriesRequest NodeID) {resp : AppendEntriesResponse}
    (hterm : resp.term = n.currentTerm) (hsuccess : resp.success = true) :
    (n.appendResponse peer req resp).1.log = n.log ∧
      ((n.appendResponse peer req resp).1.nextIndex peer =
          n.nextIndex peer ∨
        exists e, req.entries.getLast? = some e ∧
          (n.appendResponse peer req resp).1.nextIndex peer = e.index + 1) := by
  unfold RaftNode.appendResponse
  rw [if_neg (by omega), if_pos hsuccess]
  cases hlast : req.entries.getLast? with
  | none =>
    rcases advanceCommitIndex_log n with ⟨hlog, hnext⟩
    simp only
    exact ⟨hlog, Or.inl (by rw [hnext])⟩
  | some e =>
  rcases advanceCommitIndex_log { n with
    nextIndex := Function.update n.nextIndex peer (e.index + 1)
    matchIndex := Function.update n.matchIndex peer e.index } with
    ⟨hlog, hnext⟩
  simp only
  refine ⟨hlog, Or.inr ⟨e, rfl, ?_⟩⟩
  rw [hnext]
  exact Function.update_self ..

theorem Exchange.Goes.round {s : Exchange NodeID} {peer : NodeID}
    {log : RaftLog} (h : s.Goes peer log) (hlog : log.WellFormed) :
    (s.round peer).Goes peer log ∧ exists resp,
      (s.round peer).answer = some resp ∧
        (resp.success = false ∧ (s.round peer).leader.nextIndex peer <
            s.leader.nextIndex peer ∨
          resp.success = true ∧
            log.entries <+: (s.round peer).follower.log.entries) := by
  have hnum : s.leader.log.Numbered := by
    rw [h.same]
    exact hlog.numbered
  have hoffer : Offers s.leader.currentTerm log s.leader.log
      (s.leader.appendRequest s.leader.currentTerm s.leader.commitIndex
        peer) := by
    apply offers_appendRequest hnum _ h.positive
    · rw [h.same]
      exact h.within
    · rw [h.same]
  have hreq : (s.leader.appendRequest s.leader.currentTerm
      s.leader.commitIndex peer).prevLogIndex =
        s.leader.nextIndex peer - 1 := rfl
  unfold Exchange.round
  rw [if_neg (not_not_intro h.state)]
  simp only
  generalize s.leader.appendRequest s.leader.currentTerm
    s.leader.commitIndex peer = req at hoffer hreq
  rcases h.matching.handle hlog.positive hoffer with
    ⟨hnext, _, hterm, hcases⟩
  have hframe := appendResponse_frame peer req
    (Nat.not_lt.mpr (Nat.le_of_eq hterm))
  rcases hcases with hrejected | haccepted
  · have hback := appendResponse_rejected peer req hterm
      hrejected.failure hrejected.positive
    have hindex : (s.leader.appendResponse peer req
        (s.follower.handleAppendEntries req).2).1.nextIndex peer =
          (s.follower.handleAppendEntries req).2.conflictIndex := by
      rw [hback]
      exact Function.update_self ..
    have hlower := hrejected.before
    have hpositive := h.positive
    have hwithin := h.within
    have hconflict := hrejected.positive
    refine ⟨⟨hframe.left.trans h.state, ?_, ?_, ?_, ?_⟩, _, rfl,
      Or.inl ⟨hrejected.failure, ?_⟩⟩
    · rw [hback]
      exact h.same
    · rw [hindex]
      exact hconflict
    · rw [hindex]
      omega
    · rw [hframe.right.left]
      exact hnext
    · rw [hindex]
      omega
  rcases appendResponse_accepted peer req hterm
    haccepted.success with ⟨hsame, hindex⟩
  have hbounds : 1 ≤ (s.leader.appendResponse peer req
      (s.follower.handleAppendEntries req).2).1.nextIndex peer ∧
      (s.leader.appendResponse peer req
        (s.follower.handleAppendEntries req).2).1.nextIndex peer ≤
          log.lastIndex + 1 := by
    rcases hindex with hold | ⟨e, hlast, hend⟩
    · rw [hold]
      exact ⟨h.positive, h.within⟩
    rw [hend]
    rw [hoffer.entries, List.getLast?_drop] at hlast
    split at hlast
    · cases hlast
    have he : log.lastIndex = e.index := by
      rw [← h.same, RaftLog.lastIndex, hlast]
    rw [he]
    exact ⟨Nat.le_add_left 1 e.index, Nat.le_refl _⟩
  refine ⟨⟨hframe.left.trans h.state, hsame.trans h.same, hbounds.left,
    hbounds.right, ?_⟩, _, rfl, Or.inr ⟨haccepted.success, ?_⟩⟩
  · rw [hframe.right.left]
    exact hnext
  · rw [haccepted.entries, h.same]
    exact prefix_adopt _ _

theorem Exchange.Goes.rounds {s : Exchange NodeID} {peer : NodeID}
    {log : RaftLog} (h : s.Goes peer log) (hlog : log.WellFormed) (k : Nat) :
    (s.rounds peer k).Goes peer log := by
  induction k with
  | zero => exact h
  | succ k ih => exact (ih.round hlog).left

theorem Exchange.Goes.accepted {s : Exchange NodeID} {peer : NodeID}
    {log : RaftLog} (h : s.Goes peer log) (hlog : log.WellFormed)
    (bound : Nat) {k : Nat}
    (hbound : (s.rounds peer k).leader.nextIndex peer ≤ bound) :
    exists j resp, (s.rounds peer (j + 1)).answer = some resp ∧
      resp.success = true := by
  induction bound generalizing k with
  | zero =>
    have hpos := (h.rounds hlog k).positive
    omega
  | succ bound ih =>
  rcases ((h.rounds hlog k).round hlog).right with
    ⟨resp, hanswer, ⟨_, hlower⟩ | ⟨hsuccess, _⟩⟩
  · apply ih (k := k + 1)
    show ((s.rounds peer k).round peer).leader.nextIndex peer ≤ bound
    omega
  · exact ⟨k, resp, hanswer, hsuccess⟩

/--
Each rejected round lowers the next index, which stays positive; one round is
accepted, and then the follower has all entries.
-/
theorem rounds_converge {leader follower : RaftNode NodeID} {peer : NodeID}
    (hleader : leader.state = .leader) (hlog : leader.log.WellFormed)
    (hfollower : follower.log.WellFormed)
    (hmatch : RaftLog.Agrees follower.log.entries leader.log.entries)
    (hterm : follower.currentTerm ≤ leader.currentTerm)
    (hpos : 1 ≤ leader.nextIndex peer)
    (hle : leader.nextIndex peer ≤ leader.log.lastIndex + 1) :
    let s : Exchange NodeID := ⟨leader, follower, none⟩
    (forall k resp, (s.rounds peer (k + 1)).answer = some resp ->
      resp.success = false ->
        1 ≤ (s.rounds peer (k + 1)).leader.nextIndex peer ∧
          (s.rounds peer (k + 1)).leader.nextIndex peer <
            (s.rounds peer k).leader.nextIndex peer) ∧
      (exists k resp, (s.rounds peer (k + 1)).answer = some resp ∧
        resp.success = true) ∧
      forall k resp, (s.rounds peer (k + 1)).answer = some resp ->
        resp.success = true ->
          forall idx, 1 ≤ idx -> idx ≤ leader.log.lastIndex -> exists e,
            (s.rounds peer (k + 1)).follower.log.get idx = some e ∧
              leader.log.get idx = some e := by
  intro s
  have h : s.Goes peer leader.log :=
    ⟨hleader, rfl, hpos, hle, hterm, hfollower.numbered, hmatch⟩
  refine ⟨?_, h.accepted hlog _ (k := 0) (Nat.le_refl _), ?_⟩
  · intro k resp hanswer hfailure
    rcases (h.rounds hlog k).round hlog with
      ⟨hnext, resp', hanswer', ⟨_, hlower⟩ | ⟨hsuccess, _⟩⟩
    · exact ⟨hnext.positive, hlower⟩
    · have hsame : some resp' = some resp := hanswer'.symm.trans hanswer
      rw [Option.some.inj hsame, hfailure] at hsuccess
      cases hsuccess
  intro k resp hanswer hsuccess idx hidx hlast
  rcases (h.rounds hlog k).round hlog with
    ⟨hnext, resp', hanswer', ⟨hfailure, _⟩ | ⟨_, hpre⟩⟩
  · have hsame : some resp' = some resp := hanswer'.symm.trans hanswer
    rw [Option.some.inj hsame, hsuccess] at hfailure
    cases hfailure
  · rw [hlog.numbered.lastIndex] at hlast
    exact get_of_prefix hnext.matching.numbered hlog.numbered hpre
      List.prefix_rfl hidx hlast

/-- The first request is rejected, the second one accepted. -/
theorem rounds_converge_conflict :
    let s : Exchange Nat := ⟨leaderNode 3 4, followerNode, none⟩
    (forall k resp, (s.rounds 2 (k + 1)).answer = some resp ->
      resp.success = false ->
        1 ≤ (s.rounds 2 (k + 1)).leader.nextIndex 2 ∧
          (s.rounds 2 (k + 1)).leader.nextIndex 2 <
            (s.rounds 2 k).leader.nextIndex 2) ∧
      (exists k resp, (s.rounds 2 (k + 1)).answer = some resp ∧
        resp.success = true) ∧
      forall k resp, (s.rounds 2 (k + 1)).answer = some resp ->
        resp.success = true ->
          forall idx, 1 ≤ idx -> idx ≤ (leaderNode 3 4).log.lastIndex ->
            exists e, (s.rounds 2 (k + 1)).follower.log.get idx = some e ∧
              (leaderNode 3 4).log.get idx = some e := by
  have hleader : (leaderNode 3 4).state = .leader := rfl
  exact rounds_converge hleader wellFormed_leaderLog wellFormed_followerLog
    agrees_followerLog (by decide) (by decide) (by decide)

end

end Raft
end ChimeraMQ
