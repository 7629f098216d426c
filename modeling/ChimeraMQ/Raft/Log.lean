import Mathlib.Data.List.Basic
import ChimeraMQ.Consensus.History

/-!
# The replicated log

The operations of the in-memory log and the loop with which a follower merges
the entries of an AppendEntries request.  On a log whose entries carry their
own positions the loop is the adoption step of the replication protocol.
-/

namespace ChimeraMQ
namespace Raft

open Consensus

/-!
## Raft records

The data types of the Raft package: log entries, the requests and responses of
the two RPCs and the role of a node.  Terms and indices are counters that the
program never wraps.  A node id is an element of an arbitrary type; the empty
string, which the program uses for "no node", is the missing value of an
optional id.
-/

section

inductive NodeState where
  | follower
  | candidate
  | leader
  | shutdown
deriving DecidableEq

inductive EntryType where
  | command
  | configChange
  | noOp
deriving DecidableEq

structure LogEntry where
  index : Nat
  term : Nat
  type : EntryType
  data : List UInt8
deriving DecidableEq

variable {NodeID : Type}

structure AppendEntriesRequest (NodeID : Type) where
  term : Nat
  leaderID : NodeID
  prevLogIndex : Nat
  prevLogTerm : Nat
  entries : List LogEntry
  leaderCommit : Nat

structure AppendEntriesResponse where
  term : Nat
  success : Bool
  conflictIndex : Nat
  conflictTerm : Nat

structure RequestVoteRequest (NodeID : Type) where
  term : Nat
  candidateID : NodeID
  lastLogIndex : Nat
  lastLogTerm : Nat

structure RequestVoteResponse where
  term : Nat
  voteGranted : Bool

end

/-!
## The log
-/

structure RaftLog where
  entries : List LogEntry
  firstIndex : Nat
deriving DecidableEq

def newRaftLog : RaftLog where
  entries := []
  firstIndex := 1

namespace RaftLog

def append (l : RaftLog) (e : LogEntry) : RaftLog :=
  { l with entries := l.entries ++ [e] }

def lastIndex (l : RaftLog) : Nat :=
  match l.entries.getLast? with
  | none => l.firstIndex - 1
  | some e => e.index

def lastTerm (l : RaftLog) : Nat :=
  match l.entries.getLast? with
  | none => 0
  | some e => e.term

def get (l : RaftLog) (idx : Nat) : Option LogEntry :=
  if idx < l.firstIndex then none
  else l.entries[idx - l.firstIndex]?

/-- The entries from the first index up to, not including, the second. -/
def range (l : RaftLog) (lo hi : Nat) : List LogEntry :=
  let lo := if lo < l.firstIndex then l.firstIndex else lo
  let start := lo - l.firstIndex
  let stop := if hi - l.firstIndex > l.entries.length then l.entries.length
    else hi - l.firstIndex
  if start ≥ stop then [] else (l.entries.drop start).take (stop - start)

def truncateAfter (l : RaftLog) (idx : Nat) : RaftLog :=
  let stop : Int := (idx : Int) - l.firstIndex + 1
  if stop > l.entries.length then l
  else if stop < 0 then { l with entries := [] }
  else { l with entries := l.entries.take stop.toNat }

/--
Remove all entries up to the given index and that one, if an entry is left and
the index is in the log.
-/
def compact (l : RaftLog) (throughIndex : Nat) : RaftLog :=
  if throughIndex < l.firstIndex then l
  else
    let cut := throughIndex - l.firstIndex + 1
    if cut ≥ l.entries.length then l
    else { entries := l.entries.drop cut, firstIndex := throughIndex + 1 }

def termAt (l : RaftLog) (idx : Nat) : Nat :=
  match l.get idx with
  | none => 0
  | some e => e.term

/--
The loop over the entries of an AppendEntries request; the index is that of the
first entry of the list.
-/
def appendEntries (l : RaftLog) (idx : Nat) : List LogEntry -> RaftLog
  | [] => l
  | e :: rest =>
    let l' :=
      match l.get idx with
      | some existing =>
        if existing.term ≠ e.term then
          (l.truncateAfter (idx - 1)).append e
        else l
      | none => l.append e
    appendEntries l' (idx + 1) rest

/-!
## Numbered logs

Without snapshots the log starts at index one and the entry at a position
carries the index one above it.
-/

structure Numbered (l : RaftLog) : Prop where
  first : l.firstIndex = 1
  index : forall k e, l.entries[k]? = some e -> e.index = k + 1

theorem numbered_new : Numbered newRaftLog where
  first := rfl
  index := by
    intro k e he
    simp [newRaftLog] at he

theorem Numbered.append {l : RaftLog} (hl : Numbered l) {e : LogEntry}
    (he : e.index = l.entries.length + 1) : Numbered (l.append e) where
  first := hl.first
  index := by
    intro k x hx
    rcases Nat.lt_trichotomy k l.entries.length with hlt | heq | hgt
    · apply hl.index k x
      rwa [RaftLog.append, List.getElem?_append_left hlt] at hx
    · subst heq
      have hxe : e = x := by
        simpa [RaftLog.append] using hx
      rw [← hxe, he]
    have hnone : (l.append e).entries[k]? = none := by
      apply List.getElem?_eq_none
      simp [RaftLog.append]
      omega
    rw [hnone] at hx
    cases hx

variable {l : RaftLog}

theorem Numbered.take (hl : Numbered l) (k : Nat) :
    Numbered { l with entries := l.entries.take k } where
  first := hl.first
  index := by
    intro i e he
    apply hl.index i e
    rw [List.getElem?_take] at he
    by_cases hik : i < k
    · simpa [hik] using he
    · simp [hik] at he

@[simp] theorem Numbered.lastIndex {l : RaftLog} (hl : Numbered l) :
    l.lastIndex = l.entries.length := by
  unfold RaftLog.lastIndex
  cases hlast : l.entries.getLast? with
  | none =>
    have hnil := List.getLast?_eq_none_iff.mp hlast
    simp [hnil, hl.first]
  | some e =>
  rcases List.getLast?_eq_some_iff.mp hlast with ⟨front, hsplit⟩
  have he := hl.index front.length e (by simp [hsplit])
  simp [hsplit, he]

theorem lastTerm_eq (l : RaftLog) :
    l.lastTerm = Consensus.lastTerm LogEntry.term l.entries := by
  unfold RaftLog.lastTerm Consensus.lastTerm
  cases l.entries.getLast? <;> rfl

theorem Numbered.get_succ (hl : Numbered l) (k : Nat) :
    l.get (k + 1) = l.entries[k]? := by
  have hge : ¬ k + 1 < 1 := by omega
  rw [RaftLog.get, hl.first, if_neg hge, Nat.add_sub_cancel]

theorem Numbered.get_zero (hl : Numbered l) :
    l.get 0 = none := by
  rw [RaftLog.get, hl.first, if_pos Nat.zero_lt_one]

theorem Numbered.termAt_succ (hl : Numbered l) (k : Nat) :
    l.termAt (k + 1) = (l.entries[k]?.map LogEntry.term).getD 0 := by
  unfold RaftLog.termAt
  rw [hl.get_succ]
  cases l.entries[k]? <;> rfl

theorem Numbered.range_last (hl : Numbered l) (k : Nat) :
    l.range (k + 1) (l.lastIndex + 1) = l.entries.drop k := by
  unfold RaftLog.range
  rw [hl.lastIndex, hl.first]
  have hlo : ¬ k + 1 < 1 := by omega
  simp only [hlo, if_false, Nat.add_sub_cancel, gt_iff_lt, Nat.lt_irrefl]
  by_cases hk : l.entries.length ≤ k
  · rw [if_pos hk, List.drop_eq_nil_of_le hk]
  · rw [if_neg hk]
    apply List.take_of_length_le
    simp

theorem Numbered.truncateAfter (hl : Numbered l) (k : Nat) :
    l.truncateAfter k = { l with entries := l.entries.take k } := by
  unfold RaftLog.truncateAfter
  rw [hl.first]
  have hstop : (k : Int) - ((1 : Nat) : Int) + 1 = k := by omega
  simp only [hstop]
  by_cases hlong : (k : Int) > l.entries.length
  · rw [if_pos hlong, List.take_of_length_le (by omega), ← hl.first]
  · have hpos : ¬ (k : Int) < 0 := by omega
    rw [if_neg hlong, if_neg hpos, ← hl.first]
    rfl

/-!
## Merging entries
-/

/--
The two lists agree up to every position at which they carry the same term.
-/
def Agrees (own offered : List LogEntry) : Prop :=
  forall k a b, own[k]? = some a -> offered[k]? = some b ->
    a.term = b.term -> own.take (k + 1) = offered.take (k + 1)

theorem Agrees.of_prefix {own offered whole : List LogEntry}
    (h : Agrees own whole) (hpre : offered <+: whole) : Agrees own offered := by
  intro k a b ha hb hterm
  rcases hpre with ⟨back, hback⟩
  have hlt : k < offered.length := (List.getElem?_eq_some_iff.mp hb).1
  have hwhole : whole[k]? = some b := by
    rw [← hback, List.getElem?_append_left hlt, hb]
  rw [h k a b ha hwhole hterm, ← hback, List.take_append_of_le_length hlt]

theorem agrees_take (offered : List LogEntry) (k : Nat) :
    Agrees (offered.take k) offered := by
  intro i a b ha _ _
  have hik : i < k := by
    by_contra hge
    rw [List.getElem?_take, if_neg hge] at ha
    cases ha
  rw [List.take_take, Nat.min_eq_left (by omega)]

theorem Agrees.adopt {own offered whole : List LogEntry}
    (h : Agrees own whole) (hpre : offered <+: whole) :
    Agrees (adopt own offered) whole := by
  rcases adopt_cases own offered with hown | hoffered
  · rw [hown]
    exact h
  · rw [hoffered, List.prefix_iff_eq_take.mp hpre]
    exact agrees_take whole offered.length

theorem take_eq_of_check {own offered : RaftLog} (hown : Numbered own)
    (hoffered : Numbered offered)
    (hpositive : forall e, e ∈ offered.entries -> 0 < e.term)
    (hagrees : Agrees own.entries offered.entries) {prev : Nat}
    (hshort : prev ≤ offered.entries.length)
    (hcheck : ¬ (prev > 0 ∧ own.termAt prev ≠ offered.termAt prev)) :
    prev ≤ own.entries.length ∧
      own.entries.take prev = offered.entries.take prev := by
  cases prev with
  | zero => exact ⟨Nat.zero_le _, by simp⟩
  | succ k =>
  have hterm : own.termAt (k + 1) = offered.termAt (k + 1) := by
    by_contra hne
    exact hcheck ⟨Nat.succ_pos k, hne⟩
  have hget : offered.entries[k]? = some offered.entries[k] :=
    List.getElem?_eq_getElem hshort
  have hpos := hpositive _ (List.getElem_mem hshort)
  rw [hown.termAt_succ, hoffered.termAt_succ, hget] at hterm
  cases hentry : own.entries[k]? with
  | none =>
    rw [hentry] at hterm
    simp only [Option.map_none, Option.getD_none, Option.map_some,
      Option.getD_some] at hterm
    rw [← hterm] at hpos
    exact absurd hpos (Nat.lt_irrefl 0)
  | some a =>
  rw [hentry] at hterm
  exact ⟨(List.getElem?_eq_some_iff.mp hentry).1,
    hagrees k a _ hentry hget hterm⟩

theorem adopt_take (offered : List LogEntry) (k : Nat) :
    adopt (offered.take k) offered = offered := by
  unfold adopt
  by_cases h : offered <+: offered.take k
  · rw [if_pos h]
    exact (List.take_prefix k offered).eq_of_length_le h.length_le
  · rw [if_neg h]

theorem appendEntries_eq_adopt {offered : List LogEntry} {k : Nat}
    (hl : Numbered l)
    (hnumber : forall i e, offered[i]? = some e -> e.index = i + 1)
    (hagrees : Agrees l.entries offered) (hlong : k ≤ l.entries.length)
    (hk : k ≤ offered.length) (htake : l.entries.take k = offered.take k) :
    Numbered (l.appendEntries (k + 1) (offered.drop k)) ∧
      (l.appendEntries (k + 1) (offered.drop k)).entries =
        adopt l.entries offered := by
  induction hrest : offered.drop k generalizing l k with
  | nil =>
    have hle : offered.length ≤ k := List.drop_eq_nil_iff.mp hrest
    have hin : offered <+: l.entries := by
      rw [List.take_of_length_le hle] at htake
      rw [← htake]
      exact List.take_prefix _ _
    refine ⟨hl, ?_⟩
    rw [adopt, if_pos hin]
    rfl
  | cons e rest ih =>
  have hlt : k < offered.length := by
    by_contra hge
    rw [List.drop_eq_nil_of_le (by omega)] at hrest
    cases hrest
  have he : offered[k]? = some e := by
    have hhead := congrArg List.head? hrest
    simpa using hhead
  have hdrop : offered.drop (k + 1) = rest := by
    have htail := congrArg List.tail hrest
    simpa using htail
  have hsucc : offered.take k ++ [e] = offered.take (k + 1) := by
    rw [List.take_add_one, he]
    rfl
  unfold RaftLog.appendEntries
  rw [hl.get_succ]
  cases hown : l.entries[k]? with
  | some existing =>
    have hklt : k < l.entries.length := by
      by_contra hge
      rw [List.getElem?_eq_none (by omega)] at hown
      cases hown
    by_cases hterm : existing.term = e.term
    · -- the entry is already there
      have hsame := hagrees k existing e hown he hterm
      simp only [hterm, ne_eq, not_true_eq_false, if_false]
      exact ih hl hagrees hklt hlt hsame hdrop
    -- a conflict: cut here and continue on a prefix of the offer
    have hcut : (l.truncateAfter k).append e =
        { l with entries := offered.take (k + 1) } := by
      rw [hl.truncateAfter, RaftLog.append]
      simp [htake, hsucc]
    have hnum : Numbered ((l.truncateAfter k).append e) := by
      rw [hl.truncateAfter]
      apply (hl.take k).append
      simp [hnumber k e he, Nat.min_eq_left hlong]
    have hnot : ¬ offered <+: l.entries := by
      intro hin
      rcases hin with ⟨back, hback⟩
      rw [← hback, List.getElem?_append_left hlt, he] at hown
      exact hterm (by rw [Option.some.inj hown])
    simp only [hterm, ne_eq, not_false_eq_true, if_true,
      Nat.add_sub_cancel]
    rw [hcut] at hnum ⊢
    have hlen : (offered.take (k + 1)).length = k + 1 := by
      simp
      omega
    rcases ih (l := { l with entries := offered.take (k + 1) }) hnum
      (agrees_take offered (k + 1)) (Nat.le_of_eq hlen.symm) hlt
      (by simp) hdrop with ⟨hnum', hent⟩
    refine ⟨hnum', ?_⟩
    rw [hent, adopt_take, adopt, if_neg hnot]
  | none =>
  have hlen : l.entries.length = k := by
    have hge := List.getElem?_eq_none_iff.mp hown
    omega
  have hentries : l.entries = offered.take k := by
    rw [← htake, ← hlen, List.take_length]
  have happ : l.append e =
      { l with entries := offered.take (k + 1) } := by
    simp [RaftLog.append, hentries, hsucc]
  have hnum : Numbered (l.append e) := by
    apply hl.append
    rw [hnumber k e he, hlen]
  have hlen' : (offered.take (k + 1)).length = k + 1 := by
    simp
    omega
  simp only
  rw [happ] at hnum ⊢
  rcases ih (l := { l with entries := offered.take (k + 1) }) hnum
    (agrees_take offered (k + 1)) (Nat.le_of_eq hlen'.symm) hlt
    (by simp) hdrop with ⟨hnum', hent⟩
  refine ⟨hnum', ?_⟩
  rw [hent, adopt_take, hentries, adopt_take]

end RaftLog

end Raft
end ChimeraMQ
