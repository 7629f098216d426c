import ChimeraMQ.Raft.Snapshot

/-!
# Indices of the log

Positions in the log are computed from its first index, and entries carry their
indices.  The two agree as long as the requests that a node accepts fit its
log.
-/

namespace ChimeraMQ
namespace Raft

open Foundation
open RaftNode

structure Indexed (l : RaftLog) : Prop where
  first : 1 ≤ l.firstIndex
  index : forall k e, l.entries[k]? = some e -> e.index = l.firstIndex + k

namespace RaftLog

theorem indexed_new : Indexed newRaftLog where
  first := Nat.le_refl 1
  index := by
    intro k e he
    simp [newRaftLog] at he

variable {l : RaftLog}

variable (hl : Indexed l)

include hl

theorem lastIndex_add_one :
    l.lastIndex + 1 = l.firstIndex + l.entries.length := by
  have hfirst := hl.first
  unfold lastIndex
  cases hlast : l.entries.getLast? with
  | none =>
    rw [List.getLast?_eq_none_iff.mp hlast, List.length_nil]
    simp only
    omega
  | some e =>
  rcases List.getLast?_eq_some_iff.mp hlast with ⟨front, hsplit⟩
  have he := hl.index front.length e (by simp [hsplit])
  rw [hsplit, List.length_append, List.length_singleton]
  simp only
  omega

theorem index_of_get {i : Nat} {e : LogEntry} (he : l.get i = some e) :
    e.index = i ∧ l.firstIndex ≤ i ∧ i ≤ l.lastIndex := by
  unfold get at he
  by_cases hlow : i < l.firstIndex
  · rw [if_pos hlow] at he
    cases he
  rw [if_neg hlow] at he
  have hindex := hl.index _ e he
  have hlt := (List.getElem?_eq_some_iff.mp he).choose
  have hlast := lastIndex_add_one hl
  omega

theorem lastIndex_lt_of_get_none {i : Nat} (hlow : l.firstIndex ≤ i)
    (hnone : l.get i = none) :
    l.lastIndex + 1 ≤ i := by
  rw [get, if_neg (Nat.not_lt.mpr hlow)] at hnone
  have hge := List.getElem?_eq_none_iff.mp hnone
  rw [lastIndex_add_one hl]
  omega

theorem indexed_append {e : LogEntry} (he : e.index = l.lastIndex + 1) :
    Indexed (l.append e) ∧ (l.append e).lastIndex = l.lastIndex + 1 := by
  rw [lastIndex_add_one hl] at he
  have hindexed : Indexed (l.append e) := by
    refine ⟨hl.first, ?_⟩
    intro k x hx
    rcases Nat.lt_trichotomy k l.entries.length with hlt | heq | hgt
    · apply hl.index k x
      rwa [append, List.getElem?_append_left hlt] at hx
    · subst heq
      have hxe : e = x := by
        simpa [append] using hx
      rw [← hxe, he]
      rfl
    have hnone : (l.append e).entries[k]? = none := by
      apply List.getElem?_eq_none
      simp [append]
      omega
    rw [hnone] at hx
    cases hx
  refine ⟨hindexed, ?_⟩
  have hafter := lastIndex_add_one hindexed
  have hbefore := lastIndex_add_one hl
  simp only [append, List.length_append, List.length_singleton] at hafter
  show (l.append e).lastIndex = _
  unfold append
  omega

theorem indexed_truncateAfter {i : Nat} (hlow : l.firstIndex ≤ i + 1)
    (hhigh : i ≤ l.lastIndex) :
    Indexed (l.truncateAfter i) ∧ (l.truncateAfter i).lastIndex = i ∧
      (l.truncateAfter i).firstIndex = l.firstIndex := by
  have hlast := lastIndex_add_one hl
  have hcut : l.truncateAfter i =
      { l with entries := l.entries.take (i + 1 - l.firstIndex) } := by
    unfold truncateAfter
    have hshort : ¬ (i : Int) - l.firstIndex + 1 > l.entries.length := by
      omega
    have hpos : ¬ (i : Int) - l.firstIndex + 1 < 0 := by omega
    simp only [if_neg hshort, if_neg hpos]
    have hnat : ((i : Int) - l.firstIndex + 1).toNat =
        i + 1 - l.firstIndex := by
      omega
    rw [hnat]
  have hindexed : Indexed
      { l with entries := l.entries.take (i + 1 - l.firstIndex) } := by
    refine ⟨hl.first, ?_⟩
    intro k e he
    apply hl.index k e
    rw [List.getElem?_take] at he
    by_cases hk : k < i + 1 - l.firstIndex
    · rwa [if_pos hk] at he
    · rw [if_neg hk] at he
      cases he
  rw [hcut]
  refine ⟨hindexed, ?_, rfl⟩
  have hafter := lastIndex_add_one hindexed
  simp only [List.length_take] at hafter
  omega

theorem indexed_compact (i : Nat) :
    Indexed (l.compact i) ∧ (l.compact i).lastIndex = l.lastIndex := by
  have hlast := lastIndex_add_one hl
  unfold compact
  by_cases hlow : i < l.firstIndex
  · rw [if_pos hlow]
    exact ⟨hl, rfl⟩
  rw [if_neg hlow]
  simp only
  by_cases hall : i - l.firstIndex + 1 ≥ l.entries.length
  · rw [if_pos hall]
    exact ⟨hl, rfl⟩
  rw [if_neg hall]
  have hindexed : Indexed
      { entries := l.entries.drop (i - l.firstIndex + 1)
        firstIndex := i + 1 } := by
    refine ⟨Nat.succ_le_succ (Nat.zero_le i), ?_⟩
    intro k e he
    rw [List.getElem?_drop] at he
    have hindex := hl.index _ e he
    simp only
    omega
  refine ⟨hindexed, ?_⟩
  have hafter := lastIndex_add_one hindexed
  simp only [List.length_drop] at hafter
  omega

theorem indexed_appendEntries {idx commit : Nat} {entries : List LogEntry}
    (hindex : forall i e, entries[i]? = some e -> e.index = idx + i)
    (hlow : l.firstIndex ≤ idx) (hhigh : idx ≤ l.lastIndex + 1)
    (hcommit : commit ≤ l.lastIndex)
    (hconflict : forall i e x, entries[i]? = some e ->
      l.get (idx + i) = some x -> x.term ≠ e.term -> commit < idx + i) :
    Indexed (l.appendEntries idx entries) ∧
      idx + entries.length ≤ (l.appendEntries idx entries).lastIndex + 1 ∧
      commit ≤ (l.appendEntries idx entries).lastIndex := by
  induction entries generalizing l idx with
  | nil => exact ⟨hl, hhigh, hcommit⟩
  | cons e rest ih =>
  have he := hindex 0 e rfl
  have hrest : forall i x, rest[i]? = some x -> x.index = idx + 1 + i := by
    intro i x hx
    have hnext := hindex (i + 1) x hx
    omega
  have hfirst := hl.first
  rw [appendEntries]
  have hlength : idx + (e :: rest).length = idx + 1 + rest.length := by
    rw [List.length_cons]
    omega
  rw [hlength]
  cases hget : l.get idx with
  | none =>
    have hend := lastIndex_lt_of_get_none hl hlow hget
    have hat : e.index = l.lastIndex + 1 := by omega
    rcases indexed_append hl hat with ⟨happ, hlast⟩
    refine ih happ hrest (Nat.le_succ_of_le hlow) (by omega) (by omega) ?_
    intro i x y _ hy _
    have hle := (index_of_get happ hy).right.right
    omega
  | some existing =>
  have hin := (index_of_get hl hget).right.right
  simp only
  by_cases hterm : existing.term ≠ e.term
  · rw [if_pos hterm]
    have habove := hconflict 0 e existing rfl hget hterm
    rcases indexed_truncateAfter (i := idx - 1) hl (by omega) (by omega)
      with ⟨hcut, hcutLast, hcutFirst⟩
    have hat : e.index = (l.truncateAfter (idx - 1)).lastIndex + 1 := by
      omega
    rcases indexed_append hcut hat with ⟨happ, hlast⟩
    refine ih happ hrest ?_ (by omega) (by omega) ?_
    · show (l.truncateAfter (idx - 1)).firstIndex ≤ idx + 1
      omega
    · intro i x y _ hy _
      have hle := (index_of_get happ hy).right.right
      omega
  · rw [if_neg hterm]
    refine ih hl hrest (Nat.le_succ_of_le hlow) (by omega) hcommit ?_
    intro i x y hx hy hne
    have hshift : idx + (i + 1) = idx + 1 + i := by omega
    rw [← hshift] at hy
    have habove := hconflict (i + 1) x y hx hy hne
    omega

theorem index_of_range (lo hi : Nat) :
    exists start, forall (i : Nat) (e : LogEntry),
      (l.range lo hi)[i]? = some e -> e.index = start + i := by
  unfold range
  generalize (if lo < l.firstIndex then l.firstIndex else lo) = low
  simp only
  generalize (if hi - l.firstIndex > l.entries.length then l.entries.length
    else hi - l.firstIndex) = stop
  refine ⟨l.firstIndex + (low - l.firstIndex), ?_⟩
  intro i e he
  split at he
  · simp at he
  rw [List.getElem?_take] at he
  split at he
  · rw [List.getElem?_drop] at he
    rw [hl.index _ e he]
    omega
  · cases he

end RaftLog

/-!
## The handlers of a node
-/

variable {NodeID : Type}

structure Indices (n : RaftNode NodeID) : Prop where
  log : Indexed n.log
  commit : n.commitIndex ≤ n.log.lastIndex
  applied : n.lastApplied ≤ n.log.lastIndex
  saved : n.disk.log.getD newRaftLog = n.log

structure SameLog (n n' : RaftNode NodeID) : Prop where
  log : n'.log = n.log
  commit : n'.commitIndex = n.commitIndex
  applied : n'.lastApplied = n.lastApplied
  saved : n'.disk.log = n.disk.log

theorem SameLog.refl (n : RaftNode NodeID) : SameLog n n :=
  ⟨rfl, rfl, rfl, rfl⟩

theorem SameLog.trans {a b c : RaftNode NodeID} (hab : SameLog a b)
    (hbc : SameLog b c) : SameLog a c :=
  ⟨hbc.log.trans hab.log, hbc.commit.trans hab.commit,
    hbc.applied.trans hab.applied, hbc.saved.trans hab.saved⟩

theorem Indices.same {n n' : RaftNode NodeID} (h : Indices n)
    (hsame : SameLog n n') : Indices n' where
  log := by
    rw [hsame.log]
    exact h.log
  commit := by
    rw [hsame.log, hsame.commit]
    exact h.commit
  applied := by
    rw [hsame.log, hsame.applied]
    exact h.applied
  saved := by
    rw [hsame.log, hsame.saved]
    exact h.saved

namespace RaftNode

variable {n : RaftNode NodeID}

theorem sameLog_becomeFollower (n : RaftNode NodeID) (term : Nat) :
    SameLog n (n.becomeFollower term) := by
  unfold becomeFollower saveState
  simp only
  split <;> exact ⟨rfl, rfl, rfl, rfl⟩

theorem sameLog_follow (n : RaftNode NodeID) (term : Nat) :
    SameLog n (if term > n.currentTerm then n.becomeFollower term else n) := by
  split
  · exact sameLog_becomeFollower n term
  · exact SameLog.refl n

theorem indices_append (h : Indices n) {e : LogEntry}
    (he : e.index = n.log.lastIndex + 1) :
    Indices { n with log := n.log.append e }.saveLog := by
  rcases RaftLog.indexed_append h.log he with ⟨hindexed, hlast⟩
  refine ⟨hindexed, ?_, ?_, rfl⟩
  · show n.commitIndex ≤ (n.log.append e).lastIndex
    rw [hlast]
    exact Nat.le_succ_of_le h.commit
  · show n.lastApplied ≤ (n.log.append e).lastIndex
    rw [hlast]
    exact Nat.le_succ_of_le h.applied

theorem applyNext_indices (n : RaftNode NodeID) (k : Nat) :
    (n.applyNext k).log = n.log ∧ (n.applyNext k).commitIndex = n.commitIndex ∧
      (n.applyNext k).lastApplied = n.lastApplied + k ∧
      (n.applyNext k).disk = n.disk := by
  induction k generalizing n with
  | zero => exact ⟨rfl, rfl, rfl, rfl⟩
  | succ k ih =>
  rw [applyNext]
  simp only
  split
  · rcases ih { n with lastApplied := n.lastApplied + 1 } with
      ⟨hlog, hcommit, happlied, hdisk⟩
    refine ⟨hlog, hcommit, ?_, hdisk⟩
    rw [happlied]
    simp only
    omega
  rename_i e _
  rcases ih { n with
    lastApplied := n.lastApplied + 1
    fsm := if e.type = EntryType.command then n.fsm ++ [e] else n.fsm
    passed := n.passed ++ [e] } with ⟨hlog, hcommit, happlied, hdisk⟩
  refine ⟨hlog, hcommit, ?_, hdisk⟩
  rw [happlied]
  simp only
  omega

theorem indices_applyCommitted (hlog : Indexed n.log)
    (hcommit : n.commitIndex ≤ n.log.lastIndex)
    (happlied : n.lastApplied ≤ n.log.lastIndex)
    (hsaved : n.disk.log.getD newRaftLog = n.log) :
    Indices n.applyCommitted := by
  rcases applyNext_indices n (n.commitIndex - n.lastApplied) with
    ⟨hlog', hcommit', happlied', hdisk'⟩
  unfold applyCommitted
  refine ⟨?_, ?_, ?_, ?_⟩
  · rw [hlog']
    exact hlog
  · rw [hlog', hcommit']
    exact hcommit
  · rw [hlog', happlied']
    omega
  · rw [hlog', hdisk']
    exact hsaved

theorem le_lastApplied_applyCommitted {k : Nat} (hk : k ≤ n.lastApplied) :
    k ≤ n.applyCommitted.lastApplied := by
  unfold applyCommitted
  rw [(applyNext_indices n _).right.right.left]
  exact Nat.le_add_right_of_le hk

structure Keeps (n n' : RaftNode NodeID) : Prop where
  indices : Indices n'
  applied : n.lastApplied ≤ n'.lastApplied

theorem Keeps.same {n n' : RaftNode NodeID} (h : Indices n)
    (hsame : SameLog n n') : Keeps n n' where
  indices := h.same hsame
  applied := Nat.le_of_eq hsame.applied.symm

theorem keeps_propose (h : Indices n) {data : List UInt8}
    {r : RaftNode NodeID × Nat} (hr : n.propose data = some r) :
    Keeps n r.1 := by
  unfold propose at hr
  split at hr
  · cases hr
  · rw [Option.some.injEq] at hr
    subst hr
    exact ⟨indices_append h rfl, Nat.le_refl _⟩

theorem findCommit_bounds {k idx : Nat}
    (hfind : n.findCommit k = some idx) :
    n.commitIndex < idx ∧ idx ≤ n.commitIndex + k := by
  induction k with
  | zero => cases hfind
  | succ k ih =>
  rw [findCommit] at hfind
  split at hfind
  · have hle := ih hfind
    omega
  split at hfind
  · rw [Option.some.injEq] at hfind
    omega
  · have hle := ih hfind
    omega

variable [DecidableEq NodeID]

theorem indices_becomeLeader (h : Indices n) : Indices n.becomeLeader := by
  unfold becomeLeader
  split
  · exact h
  have hsame : SameLog n
      (({ n with state := .leader } : RaftNode NodeID).initPeers
        (n.log.lastIndex + 1)) := ⟨rfl, rfl, rfl, rfl⟩
  exact indices_append (h.same hsame) rfl

omit [DecidableEq NodeID] in
theorem indices_advanceCommitIndex (h : Indices n) :
    Indices n.advanceCommitIndex := by
  unfold advanceCommitIndex
  split
  · exact h
  rename_i idx hfind
  have hbounds := findCommit_bounds hfind
  have hcommit := h.commit
  refine indices_applyCommitted h.log ?_ h.applied h.saved
  show idx ≤ n.log.lastIndex
  omega

end RaftNode

def FromLeader [DecidableEq NodeID] (req : AppendEntriesRequest NodeID) :
    Prop :=
  exists (leader : RaftNode NodeID) (term commitIdx : Nat) (peer : NodeID),
    Indexed leader.log ∧ 1 ≤ leader.nextIndex peer ∧
      req = leader.appendRequest term commitIdx peer

def Accepts (n : RaftNode NodeID) (req : AppendEntriesRequest NodeID) : Prop :=
  n.currentTerm ≤ req.term ∧
    (req.prevLogIndex = 0 ∨ n.log.termAt req.prevLogIndex = req.prevLogTerm)

/--
The entries of the request follow its previous index, which is in the log or
right before it, and contradict the log only behind what is committed and
applied.
-/
structure Fits (n : RaftNode NodeID) (req : AppendEntriesRequest NodeID) :
    Prop where
  next : forall e, req.entries[0]? = some e -> e.index = req.prevLogIndex + 1
  low : n.log.firstIndex ≤ req.prevLogIndex + 1
  high : req.prevLogIndex ≤ n.log.lastIndex
  conflict : forall i e x, req.entries[i]? = some e ->
    n.log.get (req.prevLogIndex + 1 + i) = some x -> x.term ≠ e.term ->
    max n.commitIndex n.lastApplied < req.prevLogIndex + 1 + i

theorem FromLeader.index [DecidableEq NodeID]
    {req : AppendEntriesRequest NodeID} (h : FromLeader req)
    (hnext : forall e, req.entries[0]? = some e ->
      e.index = req.prevLogIndex + 1) :
    forall i e, req.entries[i]? = some e ->
      e.index = req.prevLogIndex + 1 + i := by
  rcases h with ⟨leader, term, commitIdx, peer, hlog, hone, hreq⟩
  rcases RaftLog.index_of_range hlog (leader.nextIndex peer)
    (leader.log.lastIndex + 1) with ⟨start, hrange⟩
  intro i e he
  subst hreq
  simp only [appendRequest] at he hnext ⊢
  have hlength := (List.getElem?_eq_some_iff.mp he).choose
  have hfirst : exists x, (leader.log.range (leader.nextIndex peer)
      (leader.log.lastIndex + 1))[0]? = some x := by
    exact ⟨_, List.getElem?_eq_getElem (Nat.lt_of_le_of_lt (Nat.zero_le i)
      hlength)⟩
  rcases hfirst with ⟨x, hx⟩
  have hat := hnext x hx
  have hx0 := hrange 0 x hx
  have hi := hrange i e he
  omega

namespace RaftNode

variable {n : RaftNode NodeID} [DecidableEq NodeID]

theorem indices_handleAppendEntries (h : Indices n)
    {req : AppendEntriesRequest NodeID} (hleader : FromLeader req)
    (hfits : Accepts n req -> Fits n req) :
    Indices (n.handleAppendEntries req).1 := by
  unfold handleAppendEntries
  by_cases hstale : req.term < n.currentTerm
  · rw [if_pos hstale]
    exact h
  rw [if_neg hstale]
  have hfollow := sameLog_follow n req.term
  revert hfollow
  generalize (if req.term > n.currentTerm then n.becomeFollower req.term
    else n) = m
  intro hfollow
  have hm := h.same hfollow
  simp only
  by_cases hreject : req.prevLogIndex > 0 ∧
      m.log.termAt req.prevLogIndex ≠ req.prevLogTerm
  · rw [if_pos hreject]
    exact hm
  rw [if_neg hreject]
  have haccepts : Accepts n req := by
    refine ⟨Nat.le_of_not_lt hstale, ?_⟩
    rw [hfollow.log] at hreject
    by_cases hzero : req.prevLogIndex = 0
    · exact Or.inl hzero
    · refine Or.inr ?_
      by_contra hne
      exact hreject ⟨Nat.pos_of_ne_zero hzero, hne⟩
  have hfit := hfits haccepts
  have hlow := hfit.low
  have hhigh := hfit.high
  have hconflict := hfit.conflict
  rw [← hfollow.log] at hlow hhigh hconflict
  rw [← hfollow.commit, ← hfollow.applied] at hconflict
  rcases RaftLog.indexed_appendEntries hm.log
    (hleader.index hfit.next) hlow (Nat.succ_le_succ hhigh)
    (Nat.max_le.mpr ⟨hm.commit, hm.applied⟩) hconflict with
    ⟨hindexed, hlast, hmax⟩
  rcases Nat.max_le.mp hmax with ⟨hcommit, happlied⟩
  show Indices (advanceTo _ req)
  unfold advanceTo
  split
  · refine indices_applyCommitted hindexed ?_ happlied rfl
    show (if req.leaderCommit < req.prevLogIndex + req.entries.length
      then req.leaderCommit
      else req.prevLogIndex + req.entries.length) ≤
        (m.log.appendEntries (req.prevLogIndex + 1) req.entries).lastIndex
    split <;> omega
  · exact ⟨hindexed, hcommit, happlied, rfl⟩

/-!
## One step of a node
-/

omit [DecidableEq NodeID] in
theorem lastApplied_le_advanceCommitIndex (n : RaftNode NodeID) :
    n.lastApplied ≤ n.advanceCommitIndex.lastApplied := by
  unfold advanceCommitIndex
  split
  · exact Nat.le_refl _
  · exact le_lastApplied_applyCommitted (Nat.le_refl _)

theorem lastApplied_becomeLeader (n : RaftNode NodeID) :
    n.becomeLeader.lastApplied = n.lastApplied := by
  unfold becomeLeader
  split <;> rfl

theorem Keeps.becomeLeader {n n' : RaftNode NodeID} (h : Indices n)
    (hsame : SameLog n n') : Keeps n n'.becomeLeader where
  indices := indices_becomeLeader (h.same hsame)
  applied := by
    rw [lastApplied_becomeLeader, hsame.applied]

theorem keeps_startElection (h : Indices n) : Keeps n n.startElection.1 := by
  have hsame : SameLog n n.becomeCandidate := ⟨rfl, rfl, rfl, rfl⟩
  unfold startElection
  simp only
  split
  · exact .becomeLeader h hsame
  · exact .same h hsame

theorem keeps_voteResponse (h : Indices n) (req : RequestVoteRequest NodeID)
    (resp : RequestVoteResponse) : Keeps n (n.voteResponse req resp) := by
  unfold voteResponse
  split
  · exact .same h (sameLog_becomeFollower n resp.term)
  split
  · exact .same h (SameLog.refl n)
  split
  · simp only
    split
    · exact .becomeLeader h ⟨rfl, rfl, rfl, rfl⟩
    · exact .same h ⟨rfl, rfl, rfl, rfl⟩
  · exact .same h (SameLog.refl n)

theorem keeps_handleRequestVote (h : Indices n)
    (req : RequestVoteRequest NodeID) :
    Keeps n (n.handleRequestVote req).1 := by
  unfold handleRequestVote
  split
  · exact .same h (SameLog.refl n)
  have hfollow := sameLog_follow n req.term
  revert hfollow
  generalize (if req.term > n.currentTerm then n.becomeFollower req.term
    else n) = m
  intro hfollow
  simp only
  split
  · exact .same h (hfollow.trans ⟨rfl, rfl, rfl, rfl⟩)
  · exact .same h hfollow

omit [DecidableEq NodeID] in
theorem keeps_advanceCommitIndex (h : Indices n) {m : RaftNode NodeID}
    (hsame : SameLog n m) : Keeps n m.advanceCommitIndex := by
  have hadvance := lastApplied_le_advanceCommitIndex m
  rw [hsame.applied] at hadvance
  exact ⟨indices_advanceCommitIndex (h.same hsame), hadvance⟩

theorem keeps_appendResponse (h : Indices n) (peer : NodeID)
    (req : AppendEntriesRequest NodeID) (resp : AppendEntriesResponse) :
    Keeps n (n.appendResponse peer req resp).1 := by
  unfold appendResponse
  split
  · exact .same h (sameLog_becomeFollower n resp.term)
  split
  · refine keeps_advanceCommitIndex h ?_
    split
    · exact SameLog.refl n
    · exact ⟨rfl, rfl, rfl, rfl⟩
  split
  · exact .same h ⟨rfl, rfl, rfl, rfl⟩
  · split
    · exact .same h ⟨rfl, rfl, rfl, rfl⟩
    · exact .same h (SameLog.refl n)

omit [DecidableEq NodeID] in
theorem lastApplied_le_handleAppendEntries (n : RaftNode NodeID)
    (req : AppendEntriesRequest NodeID) :
    n.lastApplied ≤ (n.handleAppendEntries req).1.lastApplied := by
  unfold handleAppendEntries
  split
  · exact Nat.le_refl _
  have hfollow := sameLog_follow n req.term
  revert hfollow
  generalize (if req.term > n.currentTerm then n.becomeFollower req.term
    else n) = m
  intro hfollow
  rw [← hfollow.applied]
  simp only
  split
  · exact Nat.le_refl _
  unfold advanceTo
  split
  · exact le_lastApplied_applyCommitted (Nat.le_refl _)
  · exact Nat.le_refl _

end RaftNode

def FitsLog [DecidableEq NodeID] (s : SnapshotNode NodeID) :
    SnapshotAction NodeID -> Prop
  | .handle (.handleAppendEntries req) =>
    FromLeader req ∧ (Accepts s.node req -> Fits s.node req)
  | .handleInstallSnapshot req =>
    s.node.currentTerm ≤ req.term ->
      s.node.lastApplied < req.lastIncludedIndex ->
      req.lastIncludedIndex ≤ s.node.log.lastIndex
  | .takeSnapshot =>
    match s.phase with
    | .taken _ _ => s.node.log.lastIndex ≤ s.node.lastApplied
    | _ => True
  | _ => True

structure SnapshotIndices (s : SnapshotNode NodeID) : Prop where
  node : Indices s.node
  metadata : forall info, s.files.metadata = some info ->
    info.lastIncludedIndex ≤ s.node.lastApplied
  phase : match s.phase with
    | .indexed _ _ info | .dataWritten info | .metaWritten info =>
      info.lastIncludedIndex ≤ s.node.lastApplied
    | _ => True

namespace SnapshotNode

variable {s s' : SnapshotNode NodeID}

variable (h : SnapshotIndices s)

include h

theorem indices_node {n : RaftNode NodeID} (hkeeps : Keeps s.node n) :
    SnapshotIndices { s with node := n } where
  node := hkeeps.indices
  metadata := fun info hinfo =>
    Nat.le_trans (h.metadata info hinfo) hkeeps.applied
  phase := by
    have hphase := h.phase
    cases hp : s.phase with
    | idle => trivial
    | started => trivial
    | taken data applied => trivial
    | indexed data applied info =>
      rw [hp] at hphase
      exact Nat.le_trans hphase hkeeps.applied
    | dataWritten info =>
      rw [hp] at hphase
      exact Nat.le_trans hphase hkeeps.applied
    | metaWritten info =>
    rw [hp] at hphase
    exact Nat.le_trans hphase hkeeps.applied

variable [DecidableEq NodeID]

theorem indices_handle {a : NodeAction NodeID} (hfits : FitsLog s (.handle a))
    {n : RaftNode NodeID} (hstep : s.node.step a = some n) : Keeps s.node n :=
    by
  cases a with
  | startElection =>
    cases hstep
    exact keeps_startElection h.node
  | voteResponse req resp =>
    cases hstep
    exact keeps_voteResponse h.node req resp
  | handleRequestVote req =>
    cases hstep
    exact keeps_handleRequestVote h.node req
  | becomeFollower term =>
    cases hstep
    exact .same h.node (sameLog_becomeFollower s.node term)
  | propose data =>
    rcases Option.map_eq_some_iff.mp hstep with ⟨r, hr, hn⟩
    rw [← hn]
    exact keeps_propose h.node hr
  | handleAppendEntries req =>
    cases hstep
    exact ⟨indices_handleAppendEntries h.node hfits.left hfits.right,
      lastApplied_le_handleAppendEntries s.node req⟩
  | appendResponse peer req resp =>
  cases hstep
  exact keeps_appendResponse h.node peer req resp

theorem indices_handleInstallSnapshot {req : InstallSnapshotRequest NodeID}
    (hfits : FitsLog s (.handleInstallSnapshot req)) :
    SnapshotIndices (s.handleInstallSnapshot req) := by
  unfold handleInstallSnapshot
  split
  · exact h
  rename_i hstale
  have hfollow : SameLog s.node
      (if req.term > s.node.currentTerm then
        { s with node := s.node.becomeFollower req.term } else s).node := by
    split
    · exact sameLog_becomeFollower s.node req.term
    · exact SameLog.refl s.node
  have hkept : SnapshotIndices
      (if req.term > s.node.currentTerm then
        { s with node := s.node.becomeFollower req.term } else s) := by
    split
    · exact indices_node h (.same h.node
        (sameLog_becomeFollower s.node req.term))
    · exact h
  revert hfollow hkept
  generalize (if req.term > s.node.currentTerm then
    { s with node := s.node.becomeFollower req.term } else s) = t
  intro hfollow hkept
  simp only
  split
  · exact hkept
  rename_i hahead
  rw [hfollow.applied] at hahead
  split
  · exact hkept
  have hin := hfits (Nat.le_of_not_lt hstale) (Nat.lt_of_not_le hahead)
  rcases RaftLog.indexed_compact hkept.node.log req.lastIncludedIndex with
    ⟨hindexed, hlast⟩
  rw [← hfollow.log, ← hlast] at hin
  have hmore : t.node.lastApplied ≤ req.lastIncludedIndex := by
    rw [hfollow.applied]
    exact Nat.le_of_not_le hahead
  refine ⟨⟨hindexed, hin, hin, rfl⟩, ?_, ?_⟩
  · intro info hinfo
    exact Nat.le_trans (hkept.metadata info hinfo) hmore
  have hphase := hkept.phase
  cases hp : t.phase with
  | idle => trivial
  | started => trivial
  | taken data applied => trivial
  | indexed data applied info =>
    rw [hp] at hphase
    exact Nat.le_trans hphase hmore
  | dataWritten info =>
    rw [hp] at hphase
    exact Nat.le_trans hphase hmore
  | metaWritten info =>
  rw [hp] at hphase
  exact Nat.le_trans hphase hmore

theorem indices_takeSnapshot {decode : List UInt8 -> Option (Command NodeID)}
    (hfits : FitsLog s .takeSnapshot)
    (hstep : s.takeSnapshot decode = some s') :
    SnapshotIndices s' := by
  have hphase := h.phase
  unfold takeSnapshot at hstep
  unfold FitsLog at hfits
  cases hp : s.phase with
  | idle =>
    rw [hp] at hstep
    cases hstep
  | started =>
    rw [hp] at hstep
    cases hstep
    exact ⟨h.node, h.metadata, trivial⟩
  | taken data applied =>
    rw [hp] at hstep hfits
    cases hstep
    exact ⟨h.node, h.metadata, hfits⟩
  | indexed data applied info =>
    rw [hp] at hstep hphase
    cases hstep
    exact ⟨h.node, h.metadata, hphase⟩
  | dataWritten info =>
    rw [hp] at hstep hphase
    cases hstep
    refine ⟨h.node, ?_, hphase⟩
    intro other hother
    cases hother
    exact hphase
  | metaWritten info =>
  rw [hp] at hstep
  simp only at hstep
  split at hstep
  · cases hstep
    rcases RaftLog.indexed_compact h.node.log info.lastIncludedIndex with
      ⟨hindexed, hlast⟩
    refine ⟨⟨hindexed, ?_, ?_, rfl⟩, h.metadata, trivial⟩
    · show s.node.commitIndex ≤
        (s.node.log.compact info.lastIncludedIndex).lastIndex
      rw [hlast]
      exact h.node.commit
    show s.node.lastApplied ≤
      (s.node.log.compact info.lastIncludedIndex).lastIndex
    rw [hlast]
    exact h.node.applied
  · cases hstep
    exact ⟨h.node, h.metadata, trivial⟩

omit h in
theorem indices_start {id : NodeID} {peers : List NodeID} {disk : Disk NodeID}
    {passed : List LogEntry} (hlog : Indexed (disk.log.getD newRaftLog)) :
    (newRaftNode id peers disk passed).start.log =
        disk.log.getD newRaftLog ∧
      (newRaftNode id peers disk passed).start.disk = disk ∧
      Indices (newRaftNode id peers disk passed).start := by
  have hload : SameLog
      { newRaftNode id peers disk passed with
        log := disk.log.getD newRaftLog }
      (newRaftNode id peers disk passed).start ∧
      (newRaftNode id peers disk passed).start.disk = disk := by
    unfold RaftNode.start RaftNode.load initPeers
    rcases disk with ⟨state, log⟩
    cases log <;> cases state <;> exact ⟨⟨rfl, rfl, rfl, rfl⟩, rfl⟩
  refine ⟨hload.left.log, hload.right, ?_⟩
  refine Indices.same ⟨hlog, Nat.zero_le _, Nat.zero_le _, rfl⟩ hload.left

theorem indices_restart (hstep : s.restart = some s') :
    SnapshotIndices s' := by
  have hsaved : Indexed (s.node.disk.log.getD newRaftLog) := by
    rw [h.node.saved]
    exact h.node.log
  rcases @indices_start NodeID _ s.node.id s.node.peers s.node.disk
    s.node.passed hsaved with ⟨hlog, hdisk, hindices⟩
  unfold restart start newSnapshotNode at hstep
  simp only at hstep
  cases hmeta : s.files.metadata with
  | none =>
    rw [hmeta] at hstep
    cases hstep
    refine ⟨hindices, ?_, trivial⟩
    intro info hinfo
    rw [show s.files.metadata = some info from hinfo] at hmeta
    cases hmeta
  | some info =>
  rw [hmeta] at hstep
  cases hdata : s.files.data with
  | none =>
    rw [hdata] at hstep
    cases hstep
  | some data =>
  rw [hdata] at hstep
  cases hstep
  have hin : info.lastIncludedIndex ≤
      (newRaftNode s.node.id s.node.peers s.node.disk
        s.node.passed).start.log.lastIndex := by
    rw [hlog, h.node.saved]
    exact Nat.le_trans (h.metadata info hmeta) h.node.applied
  refine ⟨⟨hindices.log, hin, hin, hindices.saved⟩, ?_, trivial⟩
  intro other hother
  rw [show s.files.metadata = some other from hother,
    Option.some.injEq] at hmeta
  rw [hmeta]

theorem indices_step {decode : List UInt8 -> Option (Command NodeID)}
    {a : SnapshotAction NodeID} (hfits : FitsLog s a)
    (hstep : s.step decode a = some s') : SnapshotIndices s' := by
  cases a with
  | handle a =>
    rcases Option.map_eq_some_iff.mp hstep with ⟨n, hn, hs⟩
    rw [← hs]
    exact indices_node h (indices_handle h hfits hn)
  | handleInstallSnapshot req =>
    cases hstep
    exact indices_handleInstallSnapshot h hfits
  | maybeSnapshot =>
    simp only [SnapshotNode.step, SnapshotNode.maybeSnapshot] at hstep
    split at hstep
    · split at hstep
      · cases hstep
        exact ⟨h.node, h.metadata, trivial⟩
      · cases hstep
    · cases hstep
  | takeSnapshot => exact indices_takeSnapshot h hfits hstep
  | restart => exact indices_restart h hstep

omit h

theorem indices_initial (id : NodeID) (peers : List NodeID)
    (maxLogEntries : Int) : SnapshotIndices (initial id peers maxLogEntries) where
  node := (@indices_start NodeID _ id peers { state := none, log := none } []
    RaftLog.indexed_new).right.right
  metadata := by
    intro info hinfo
    cases hinfo
  phase := trivial

end SnapshotNode

/--
Entries carry the indices of their positions, a lookup gives the entry of the
index, and nothing behind the end of the log is committed or applied.
-/
structure LogInvariant (n : RaftNode NodeID) : Prop where
  index : forall k e, n.log.entries[k]? = some e ->
    e.index = n.log.firstIndex + k
  get : forall i e, n.log.get i = some e -> e.index = i
  commit : n.commitIndex ≤ n.log.lastIndex
  applied : n.lastApplied ≤ n.log.lastIndex

/-- In every run whose requests fit the log the invariant of the log holds. -/
theorem logInvariant_of_fitsLog [DecidableEq NodeID]
    {decode : List UInt8 -> Option (Command NodeID)} {id : NodeID}
    {peers : List NodeID} {maxLogEntries : Int}
    {actions : List (SnapshotAction NodeID)} {s : SnapshotNode NodeID}
    (hfits : Meets (SnapshotNode.step decode) FitsLog
      (SnapshotNode.initial id peers maxLogEntries) actions)
    (hrun : run? (SnapshotNode.step decode)
      (SnapshotNode.initial id peers maxLogEntries) actions = some s) :
    LogInvariant s.node := by
  have hindices : SnapshotIndices s :=
    run?_invariant_of_meets
      (fun t a t' ht hcond hone => SnapshotNode.indices_step ht hcond hone)
      (SnapshotNode.indices_initial id peers maxLogEntries) hfits hrun
  exact ⟨hindices.node.log.index,
    fun i e he => (RaftLog.index_of_get hindices.node.log he).left,
    hindices.node.commit, hindices.node.applied⟩

def fourEntries : RaftLog where
  entries := [1, 2, 3, 4].map (fun i =>
    { index := i, term := 1, type := .noOp, data := [] })
  firstIndex := 1

def fourLeader : RaftNode Nat :=
  { newRaftNode 1 [0] { state := none, log := none } [] with
    log := fourEntries
    nextIndex := fun _ => 1 }

def fourRequest : AppendEntriesRequest Nat :=
  fourLeader.appendRequest 1 2 0

theorem fromLeader_fourRequest : FromLeader fourRequest := by
  refine ⟨fourLeader, 1, 2, 0, ⟨Nat.le_refl 1, ?_⟩, Nat.le_refl 1, rfl⟩
  intro k e he
  match k with
  | 0 => cases he; rfl
  | 1 => cases he; rfl
  | 2 => cases he; rfl
  | 3 => cases he; rfl
  | k + 4 => cases he

/-- The request fits the log of a new node. -/
theorem logInvariant_fourRequest :
    exists s, run? (SnapshotNode.step (fun _ => none))
        (SnapshotNode.initial 0 [1] 100)
        [.handle (.handleAppendEntries fourRequest)] = some s ∧
      LogInvariant s.node := by
  refine ⟨_, rfl, ?_⟩
  refine @logInvariant_of_fitsLog Nat _ (fun _ => none) 0 [1] 100
    [.handle (.handleAppendEntries fourRequest)] _
    ⟨⟨fromLeader_fourRequest, fun _ => ?_⟩, fun _ _ => trivial⟩ rfl
  refine ⟨?_, Nat.le_refl 1, Nat.zero_le _, ?_⟩
  · intro e he
    cases he
    rfl
  intro i e x _ hx _
  have hnone : (SnapshotNode.initial 0 [1] 100).node.log.get
      (fourRequest.prevLogIndex + 1 + i) = none := by
    simp [RaftLog.get, SnapshotNode.initial, RaftNode.start, RaftNode.load,
      initPeers, newRaftNode, newRaftLog]
  rw [hnone] at hx
  cases hx

/-- A request that arrives again behind a snapshot repeats entries. -/
theorem logInvariant_fails_repeated :
    ¬ forall (decode : List UInt8 -> Option (Command Nat))
        (actions : List (SnapshotAction Nat)) (s : SnapshotNode Nat),
      (forall req, .handle (.handleAppendEntries req) ∈ actions ->
        FromLeader req) ->
      run? (SnapshotNode.step decode) (SnapshotNode.initial 0 [1] 100)
        actions = some s ->
      LogInvariant s.node := by
  intro hall
  have hinv := hall (fun _ => none)
    [.handle (.handleAppendEntries fourRequest),
      .handleInstallSnapshot
        { term := 1
          leaderID := 1
          lastIncludedIndex := 3
          lastIncludedTerm := 1
          data := some (newMetadataFSM : MetadataFSM Nat).snapshot },
      .handle (.handleAppendEntries fourRequest)] _
    (by
      intro req hreq
      simp only [List.mem_cons, SnapshotAction.handle.injEq,
        NodeAction.handleAppendEntries.injEq, reduceCtorEq, List.not_mem_nil,
        or_false, false_or, or_self] at hreq
      rw [hreq]
      exact fromLeader_fourRequest) rfl
  have hsecond := hinv.index 1 { index := 1, term := 1, type := .noOp, data := [] }
    rfl
  revert hsecond
  decide

end Raft
end ChimeraMQ
