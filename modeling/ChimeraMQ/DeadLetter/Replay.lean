import ChimeraMQ.DeadLetter.MirrorRuns
import Mathlib.Data.List.Sigma

/-!
# The two passes of a replay

A replay first lists the entries that match and then goes through the queue
again, with an index into the list that is moved on whenever the entry at hand
is the one that the index points to.  Entries are compared as pointers, and each
is asked about at most once, so the answers of the filter, the transform and the
publisher are functions of the pointer.  In the queues in memory the messages of
the entries may be changed meanwhile.
-/

namespace ChimeraMQ
namespace DeadLetter

open Foundation Message
open DLQ (ReplayError ReplayResult)

structure Pointers (Ref : Type) where
  refs : List Ref
  nodup : refs.Nodup

/-- The options of a replay, and what is answered about each entry. -/
structure Replay (Ref : Type) where
  id : Ref -> UInt64
  topic : Ref -> Bytes
  condition : Ref -> Bool
  transform : Ref -> Option Original
  publish : Ref -> Original -> Bytes -> Option Bytes
  maxMessages : Int
  dryRun : Bool
  targetTopic : Bytes
  deleteAfterReplay : Bool

/-- How far the second pass has come, and what has been published. -/
structure ReplayPass (Ref : Type) where
  remaining : List Ref
  replayIndex : Nat
  result : ReplayResult
  calls : List (Ref × Original × Bytes)

namespace Replay

variable {Ref : Type}

def select (r : Replay Ref) : List Ref -> List Ref -> List Ref
  | toReplay, [] => toReplay
  | toReplay, entry :: rest =>
    if r.condition entry = true then
      let toReplay := toReplay ++ [entry]
      if r.maxMessages > 0 ∧ toReplay.length ≥ r.maxMessages then toReplay
      else select r toReplay rest
    else select r toReplay rest

def target (r : Replay Ref) (entry : Ref) : Bytes :=
  if r.targetTopic ≠ [] then r.targetTopic else r.topic entry

def step [DecidableEq Ref] (r : Replay Ref) (toReplay : List Ref)
    (st : ReplayPass Ref) (entry : Ref) : ReplayPass Ref :=
  if toReplay[st.replayIndex]? = some entry then
    match r.transform entry with
    | none =>
      { st with
        remaining := st.remaining ++ [entry]
        replayIndex := st.replayIndex + 1
        result :=
          { st.result with
            failedCount := st.result.failedCount + 1
            errors := st.result.errors ++ [.transformNil (r.id entry)] } }
    | some msg =>
    let calls := st.calls ++ [(entry, msg, r.target entry)]
    match r.publish entry msg (r.target entry) with
    | some err =>
      { remaining := st.remaining ++ [entry]
        replayIndex := st.replayIndex + 1
        result :=
          { st.result with
            failedCount := st.result.failedCount + 1
            errors := st.result.errors ++ [.publish (r.id entry) err] }
        calls := calls }
    | none =>
    { remaining :=
        if r.deleteAfterReplay = true then st.remaining
        else st.remaining ++ [entry]
      replayIndex := st.replayIndex + 1
      result :=
        { st.result with
          replayedCount := st.result.replayedCount + 1 }
      calls := calls }
  else { st with remaining := st.remaining ++ [entry] }

def pass [DecidableEq Ref] (r : Replay Ref) (toReplay : List Ref)
    (st : ReplayPass Ref) (entries : List Ref) : ReplayPass Ref :=
  entries.foldl (r.step toReplay) st

def begin (result : ReplayResult) : ReplayPass Ref where
  remaining := []
  replayIndex := 0
  result := result
  calls := []

/-!
## What is exact
-/

def chosen (r : Replay Ref) (entries : List Ref) : List Ref :=
  if r.maxMessages > 0 then
    (entries.filter r.condition).take r.maxMessages.toNat
  else entries.filter r.condition

def call (r : Replay Ref) (entry : Ref) : Option (Ref × Original × Bytes) :=
  (r.transform entry).map (fun msg => (entry, msg, r.target entry))

def failure (r : Replay Ref) (entry : Ref) : Option ReplayError :=
  match r.transform entry with
  | none => some (.transformNil (r.id entry))
  | some msg =>
    (r.publish entry msg (r.target entry)).map (.publish (r.id entry))

def stays [DecidableEq Ref] (r : Replay Ref) (picked : List Ref)
    (entry : Ref) : Bool :=
  decide (¬ (r.deleteAfterReplay = true ∧ entry ∈ picked ∧
    r.failure entry = none))

theorem select_eq (r : Replay Ref) (toReplay entries : List Ref)
    (hroom : r.maxMessages > 0 -> toReplay.length < r.maxMessages) :
    r.select toReplay entries = toReplay ++
      if r.maxMessages > 0 then
        (entries.filter r.condition).take
          (r.maxMessages.toNat - toReplay.length)
      else entries.filter r.condition := by
  induction entries generalizing toReplay with
  | nil => simp [select]
  | cons entry rest ih =>
  rw [select]
  by_cases hmatch : r.condition entry = true
  · rw [if_pos hmatch, List.filter_cons_of_pos hmatch]
    simp only
    by_cases hlimit : r.maxMessages > 0
    · have hlength := hroom hlimit
      have hleft : r.maxMessages.toNat - toReplay.length =
          (r.maxMessages.toNat - (toReplay.length + 1)) + 1 := by
        omega
      rw [if_pos hlimit, hleft, List.take_succ_cons]
      by_cases hfull :
          ((toReplay ++ [entry]).length : Int) ≥ r.maxMessages
      · rw [if_pos ⟨hlimit, hfull⟩]
        rw [List.length_append, List.length_singleton] at hfull
        have hnone : r.maxMessages.toNat - (toReplay.length + 1) = 0 := by
          omega
        rw [hnone, List.take_zero]
      · rw [if_neg (fun h => hfull h.2), ih _ (fun _ => by omega),
          if_pos hlimit, List.length_append, List.length_singleton,
          List.append_assoc, List.singleton_append]
    · rw [if_neg (fun h => hlimit h.1), if_neg hlimit,
        ih _ (fun h => absurd h hlimit), if_neg hlimit, List.append_assoc,
        List.singleton_append]
  · rw [if_neg hmatch, List.filter_cons_of_neg hmatch]
    exact ih toReplay hroom

theorem select_nil (r : Replay Ref) (entries : List Ref) :
    r.select [] entries = r.chosen entries := by
  rw [select_eq r [] entries (fun h => by simpa using h)]
  unfold chosen
  simp

theorem chosen_sublist (r : Replay Ref) (entries : List Ref) :
    (r.chosen entries).Sublist entries := by
  unfold chosen
  split
  · exact (List.take_sublist _ _).trans List.filter_sublist
  · exact List.filter_sublist

/-!
## The second pass
-/

def addResults (r : Replay Ref) (picked : List Ref) (result : ReplayResult) :
    ReplayResult :=
  { result with
    replayedCount := result.replayedCount +
      picked.countP (fun e => decide (r.failure e = none))
    failedCount := result.failedCount +
      picked.countP (fun e => decide (r.failure e ≠ none))
    errors := result.errors ++ picked.filterMap r.failure }

theorem addResults_cons (r : Replay Ref) (entry : Ref) (picked : List Ref)
    (result : ReplayResult) :
    r.addResults picked (r.addResults [entry] result) =
      r.addResults (entry :: picked) result := by
  unfold addResults
  cases hfailure : r.failure entry with
  | none => simp [hfailure, Nat.add_assoc, Nat.add_comm 1]
  | some err => simp [hfailure, Nat.add_assoc, Nat.add_comm 1]

variable {entry : Ref}

theorem step_of_picked [DecidableEq Ref] (r : Replay Ref) {toReplay : List Ref}
    {st : ReplayPass Ref} (hpicked : toReplay[st.replayIndex]? = some entry) :
    r.step toReplay st entry =
      { remaining := st.remaining ++
          if r.deleteAfterReplay = true ∧ r.failure entry = none then []
          else [entry]
        replayIndex := st.replayIndex + 1
        result := r.addResults [entry] st.result
        calls := st.calls ++ (r.call entry).toList } := by
  unfold step addResults failure call
  rw [if_pos hpicked]
  cases htransform : r.transform entry with
  | none => simp [htransform]
  | some msg =>
  cases hpublish : r.publish entry msg (r.target entry) with
  | some err => simp [htransform, hpublish]
  | none =>
  by_cases hdelete : r.deleteAfterReplay = true
  · simp [htransform, hpublish, hdelete]
  · simp [htransform, hpublish, hdelete]

theorem filter_stays_cons [DecidableEq Ref] (r : Replay Ref) {rest : List Ref}
    (picked : List Ref) (hfresh : entry ∉ rest) :
    (entry :: rest).filter (r.stays (entry :: picked)) =
      (if r.deleteAfterReplay = true ∧ r.failure entry = none then []
        else [entry]) ++ rest.filter (r.stays picked) := by
  have hrest : rest.filter (r.stays (entry :: picked)) =
      rest.filter (r.stays picked) := by
    refine List.filter_congr (fun e he => ?_)
    have hne : e ≠ entry := fun hsame => hfresh (hsame ▸ he)
    simp [stays, hne]
  by_cases hgone : r.deleteAfterReplay = true ∧ r.failure entry = none
  · rw [List.filter_cons_of_neg (by simp [stays, hgone]), hrest, if_pos hgone,
      List.nil_append]
  have hstays : r.stays (entry :: picked) entry = true := by
    refine decide_eq_true (fun h => hgone ⟨h.1, h.2.2⟩)
  rw [List.filter_cons_of_pos hstays, hrest, if_neg hgone,
    List.singleton_append]

theorem stays_of_notMem [DecidableEq Ref] (r : Replay Ref) {picked : List Ref}
    (h : entry ∉ picked) : r.stays picked entry = true :=
  decide_eq_true (fun hgone => h hgone.2.1)

theorem pass_eq [DecidableEq Ref] (r : Replay Ref) (toReplay : List Ref)
    {entries : List Ref} (hnodup : entries.Nodup) (st : ReplayPass Ref)
    (hsub : (toReplay.drop st.replayIndex).Sublist entries) :
    r.pass toReplay st entries =
      { remaining := st.remaining ++
          entries.filter (r.stays (toReplay.drop st.replayIndex))
        replayIndex :=
          st.replayIndex + (toReplay.drop st.replayIndex).length
        result := r.addResults (toReplay.drop st.replayIndex) st.result
        calls := st.calls ++
          (toReplay.drop st.replayIndex).filterMap r.call } := by
  induction entries generalizing st with
  | nil =>
    have hnone := List.sublist_nil.mp hsub
    rw [hnone]
    simp [pass, addResults]
  | cons entry rest ih =>
  rw [List.nodup_cons] at hnodup
  have hnext : r.pass toReplay st (entry :: rest) =
      r.pass toReplay (r.step toReplay st entry) rest := rfl
  by_cases hpicked : toReplay[st.replayIndex]? = some entry
  · have hdrop : toReplay.drop st.replayIndex =
        entry :: toReplay.drop (st.replayIndex + 1) := by
      rw [List.drop_eq_getElem?_toList_append, hpicked]
      rfl
    rw [hdrop] at hsub ⊢
    rw [hnext, step_of_picked r hpicked,
      ih hnodup.2 _ (List.cons_sublist_cons.mp hsub),
      filter_stays_cons r _ hnodup.1, List.append_assoc, addResults_cons,
      List.append_assoc, List.length_cons]
    have hcalls : (r.call entry).toList ++
          (toReplay.drop (st.replayIndex + 1)).filterMap r.call =
        (entry :: toReplay.drop (st.replayIndex + 1)).filterMap
          r.call := by
      cases hcall : r.call entry with
      | none => simp [hcall]
      | some c => simp [hcall]
    rw [hcalls, Nat.add_assoc, Nat.add_comm 1]
  -- the list goes on with an entry that is further back
  have hrest : (toReplay.drop st.replayIndex).Sublist rest := by
    rcases List.sublist_cons_iff.mp hsub with h | ⟨tail, htail, -⟩
    · exact h
    · rw [← List.head?_drop, htail] at hpicked
      exact absurd rfl hpicked
  have hstays : r.stays (toReplay.drop st.replayIndex) entry = true :=
    stays_of_notMem r (fun h => hnodup.1 (hrest.subset h))
  have hstep : r.step toReplay st entry =
      { st with remaining := st.remaining ++ [entry] } :=
    if_neg hpicked
  rw [hnext, hstep,
    ih hnodup.2 { st with remaining := st.remaining ++ [entry] } hrest,
    List.filter_cons_of_pos hstays, List.append_assoc,
    List.singleton_append]

theorem pass_begin [DecidableEq Ref] (r : Replay Ref) (q : Pointers Ref)
    (result : ReplayResult) :
    r.pass (r.chosen q.refs) (begin result) q.refs =
      { remaining := q.refs.filter (r.stays (r.chosen q.refs))
        replayIndex := (r.chosen q.refs).length
        result := r.addResults (r.chosen q.refs) result
        calls := (r.chosen q.refs).filterMap r.call } := by
  rw [pass_eq r _ q.nodup (begin result)]
  · simp [begin]
  · exact r.chosen_sublist q.refs

theorem nodup_remaining [DecidableEq Ref] (r : Replay Ref) (q : Pointers Ref)
    (result : ReplayResult) :
    (r.pass (r.select [] q.refs) (begin result) q.refs).remaining.Nodup := by
  rw [select_nil, pass_begin]
  exact q.nodup.filter _

/-!
## A replay
-/

structure Replayed (Ref : Type) where
  queue : Option (Pointers Ref)
  result : Option ReplayResult
  calls : List (Ref × Original × Bytes)

def replayWithOptions [DecidableEq Ref] (r : Replay Ref) (enabled : Bool)
    (queue : Option (Pointers Ref)) : Replayed Ref :=
  if !enabled then ⟨queue, none, []⟩
  else
    match queue with
    | none => ⟨queue, some ReplayResult.zero, []⟩
    | some q =>
    if q.refs = [] then ⟨queue, some ReplayResult.zero, []⟩
    else
      let toReplay := r.select [] q.refs
      let result := { ReplayResult.zero with
        totalEntries := q.refs.length
        matchedEntries := toReplay.length }
      if r.dryRun then
        ⟨queue, some { result with skippedCount := toReplay.length }, []⟩
      else
        let st := r.pass toReplay (begin result) q.refs
        ⟨some ⟨st.remaining, r.nodup_remaining q result⟩, some st.result,
          st.calls⟩

theorem counts_addResults (r : Replay Ref) (picked : List Ref)
    (result : ReplayResult) :
    (r.addResults picked result).replayedCount +
        (r.addResults picked result).failedCount =
      result.replayedCount + result.failedCount + picked.length := by
  have hlength := List.length_eq_countP_add_countP
    (fun e => decide (r.failure e = none)) (l := picked)
  have hfailed : picked.countP (fun e => decide (r.failure e ≠ none)) =
      picked.countP (fun e => decide ¬ decide (r.failure e = none) = true) := by
    simp
  unfold addResults
  simp only
  omega

theorem chosen_nil (r : Replay Ref) :
    r.chosen [] = [] :=
  List.sublist_nil.mp (r.chosen_sublist [])

def found (r : Replay Ref) (q : Pointers Ref) : ReplayResult :=
  { ReplayResult.zero with
    totalEntries := q.refs.length
    matchedEntries := (r.chosen q.refs).length }

theorem replayWithOptions_of_empty [DecidableEq Ref] (r : Replay Ref)
    {q : Pointers Ref} (hempty : q.refs = []) :
    r.replayWithOptions true (some q) =
      ⟨some q, some ReplayResult.zero, []⟩ := by
  simp [replayWithOptions, hempty]

theorem replayWithOptions_of_dryRun [DecidableEq Ref] {r : Replay Ref}
    {q : Pointers Ref} (hne : q.refs ≠ []) (hdry : r.dryRun = true) :
    r.replayWithOptions true (some q) =
      ⟨some q,
        some { r.found q with skippedCount := (r.chosen q.refs).length },
        []⟩ := by
  unfold replayWithOptions found
  simp [hne, hdry, select_nil]

theorem replayWithOptions_of_not_dryRun [DecidableEq Ref] {r : Replay Ref}
    {q : Pointers Ref} (hne : q.refs ≠ []) (hdry : r.dryRun = false) :
    (r.replayWithOptions true (some q)).result =
        some (r.addResults (r.chosen q.refs) (r.found q)) ∧
      (r.replayWithOptions true (some q)).queue.map Pointers.refs =
        some (q.refs.filter (r.stays (r.chosen q.refs))) ∧
      (r.replayWithOptions true (some q)).calls =
        (r.chosen q.refs).filterMap r.call := by
  unfold replayWithOptions found
  simp [hne, hdry, pass_begin, select_nil]

/-!
## The replay of the queues in memory

An entry of a queue is known by its position there.
-/

def ofOptions (opts : DLQ.ReplayOptions) (p : DLQ.Publisher) :
    Replay (DLQEntry × Nat) where
  id := fun e => e.1.id
  topic := fun e => e.1.topic
  condition := fun e => opts.condition e.1
  transform := fun e => opts.transform e.2 e.1
  publish := fun e => p.publish e.2
  maxMessages := opts.maxMessages
  dryRun := opts.dryRun
  targetTopic := opts.targetTopic
  deleteAfterReplay := opts.deleteAfterReplay

theorem failure_ofOptions (opts : DLQ.ReplayOptions) (p : DLQ.Publisher)
    (i : Nat) (e : DLQEntry) :
    (ofOptions opts p).failure (e, i) = DLQ.attempt opts p i e := by
  unfold failure DLQ.attempt DLQ.targetTopic target ofOptions
  cases htransform : opts.transform i e with
  | none => simp [htransform]
  | some msg =>
  by_cases hempty : opts.targetTopic = []
  · simp [htransform, hempty]
  · simp [htransform, hempty]

def marked : Nat -> List (DLQEntry × Bool) -> List (DLQEntry × Nat)
  | _, [] => []
  | i, (e, true) :: rest => (e, i) :: marked (i + 1) rest
  | i, (_, false) :: rest => marked (i + 1) rest

theorem marked_sublist (i : Nat) (selected : List (DLQEntry × Bool)) :
    (marked i selected).Sublist
      ((selected.map (fun e => e.1)).zipIdx i) := by
  induction selected generalizing i with
  | nil => exact List.Sublist.refl []
  | cons e rest ih =>
  rcases e with ⟨e, mark⟩
  rw [List.map_cons, List.zipIdx_cons]
  cases mark with
  | true => exact (ih (i + 1)).cons_cons (e, i)
  | false => exact (ih (i + 1)).cons (e, i)

theorem notMem_zipIdx_succ {α : Type} (e : α) (i : Nat) (l : List α) :
    (e, i) ∉ l.zipIdx (i + 1) := by
  intro h
  have hle := List.le_snd_of_mem_zipIdx h
  exact Nat.not_succ_le_self i hle

theorem marked_select (opts : DLQ.ReplayOptions) (p : DLQ.Publisher)
    (n i : Nat) (messages : List DLQEntry) :
    marked i (DLQ.select opts n messages) =
      if opts.maxMessages > 0 then
        ((messages.zipIdx i).filter (ofOptions opts p).condition).take
          (opts.maxMessages.toNat - n)
      else (messages.zipIdx i).filter (ofOptions opts p).condition := by
  induction messages generalizing n i with
  | nil => simp [DLQ.select, marked]
  | cons e rest ih =>
  rw [DLQ.select, List.zipIdx_cons, List.filter_cons]
  by_cases hover : 0 < opts.maxMessages ∧ opts.maxMessages ≤ n
  · have hnone : opts.maxMessages.toNat - n = 0 := by omega
    rw [if_pos hover, marked, ih, if_pos hover.1, hnone, if_pos hover.1,
      List.take_zero, List.take_zero]
  rw [if_neg hover]
  by_cases hmatch : opts.condition e = true
  · have hcondition : (ofOptions opts p).condition (e, i) = true :=
      hmatch
    rw [if_pos hmatch, marked, ih, if_pos hcondition]
    by_cases hlimit : opts.maxMessages > 0
    · have hleft : opts.maxMessages.toNat - n =
          (opts.maxMessages.toNat - (n + 1)) + 1 := by
        omega
      rw [if_pos hlimit, if_pos hlimit, hleft, List.take_succ_cons]
    · rw [if_neg hlimit, if_neg hlimit]
  · have hcondition : ¬ (ofOptions opts p).condition (e, i) = true :=
      hmatch
    rw [if_neg hmatch, marked, ih, if_neg hcondition]

theorem marked_select_zero (opts : DLQ.ReplayOptions) (p : DLQ.Publisher)
    (messages : List DLQEntry) :
    marked 0 (DLQ.select opts 0 messages) =
      (ofOptions opts p).chosen messages.zipIdx := by
  rw [marked_select opts p]
  rfl

theorem countP_eq_length_marked (i : Nat)
    (selected : List (DLQEntry × Bool)) :
    selected.countP (fun e => e.2) = (marked i selected).length := by
  induction selected generalizing i with
  | nil => rfl
  | cons e rest ih =>
  rcases e with ⟨e, mark⟩
  cases mark with
  | true => rw [List.countP_cons_of_pos rfl, ih (i + 1)]; rfl
  | false => rw [List.countP_cons_of_neg (by simp), ih (i + 1)]; rfl

theorem replayLoop_eq (opts : DLQ.ReplayOptions) (p : DLQ.Publisher)
    (i : Nat) (selected : List (DLQEntry × Bool)) (result : ReplayResult) :
    DLQ.replayLoop opts p i selected result =
      ((ofOptions opts p).addResults (marked i selected) result,
        (((selected.map (fun e => e.1)).zipIdx i).filter
          ((ofOptions opts p).stays (marked i selected))).map
            (fun e => p.entry e.2 e.1),
        (marked i selected).filterMap (fun e => DLQ.call opts e.2 e.1)) := by
  induction selected generalizing i result with
  | nil => simp [DLQ.replayLoop, marked, addResults]
  | cons e rest ih =>
  rcases e with ⟨e, mark⟩
  have hfresh := notMem_zipIdx_succ e i (rest.map (fun e => e.1))
  rw [List.map_cons, List.zipIdx_cons]
  cases mark with
  | false =>
    have hstays : (ofOptions opts p).stays (marked (i + 1) rest)
        (e, i) = true :=
      stays_of_notMem _
        (fun h => hfresh ((marked_sublist _ _).subset h))
    rw [DLQ.replayLoop, ih, marked, List.filter_cons_of_pos hstays,
      List.map_cons]
  | true =>
  have hattempt := failure_ofOptions opts p i e
  have hcalls : ((e, i) :: marked (i + 1) rest).filterMap
      (fun e => DLQ.call opts e.2 e.1) =
        (DLQ.call opts i e).toList ++ (marked (i + 1) rest).filterMap
          (fun e => DLQ.call opts e.2 e.1) := by
    cases hcall : DLQ.call opts i e with
    | none => simp [hcall]
    | some c => simp [hcall]
  rw [marked, filter_stays_cons _ _ hfresh, ← addResults_cons,
    List.map_append, DLQ.replayLoop, hcalls]
  cases hfailure : DLQ.attempt opts p i e with
  | some err =>
    rw [hfailure] at hattempt
    simp [ih, hattempt, addResults]
  | none =>
  rw [hfailure] at hattempt
  have hmode : (ofOptions opts p).deleteAfterReplay =
      opts.deleteAfterReplay := rfl
  by_cases hdelete : opts.deleteAfterReplay = true
  · simp [ih, hattempt, hmode, hdelete, addResults]
  · simp [ih, hattempt, hmode, hdelete, addResults]

theorem nodup_zipIdx {α : Type} (l : List α) : l.zipIdx.Nodup :=
  List.Nodup.of_map Prod.snd (List.nodup_zipIdx_map_snd l)

def pointers (messages : List DLQEntry) : Pointers (DLQEntry × Nat) where
  refs := messages.zipIdx
  nodup := nodup_zipIdx messages

theorem queues_foldl_persistEntry (es : List DLQEntry) (d : DLQ) :
    (es.foldl DLQ.persistEntry d).queues = d.queues := by
  induction es generalizing d with
  | nil => rfl
  | cons e es ih => exact ih (d.persistEntry e)

theorem queues_rewriteTopicFile (d : DLQ) (topic : Bytes) :
    (d.rewriteTopicFile topic).queues = d.queues := by
  unfold DLQ.rewriteTopicFile
  cases getEntry topic d.queues with
  | none => rfl
  | some q => exact queues_foldl_persistEntry q.messages d

theorem entries_of_queues {d : DLQ} {topic : Bytes}
    {messages : List DLQEntry} {offset : UInt64}
    {queues : List (Bytes × DeadQueue)}
    (h : d.queues = setEntry topic ⟨messages, offset⟩ queues) :
    d.entries topic = messages := by
  unfold DLQ.entries DLQ.queueOf
  rw [h, getEntry_setEntry]
  rfl

theorem replayWithCalls_of_dryRun {d : DLQ} {topic : Bytes} {q : DeadQueue}
    (henabled : d.enabled = true) (hget : getEntry topic d.queues = some q)
    (hne : q.messages ≠ []) {opts : DLQ.ReplayOptions}
    (hdry : opts.dryRun = true) (p : DLQ.Publisher) :
    d.replayWithCalls topic opts p =
      (d, some { (ofOptions opts p).found (pointers q.messages) with
        skippedCount :=
          ((ofOptions opts p).chosen q.messages.zipIdx).length }, []) := by
  have hmatched : (DLQ.select opts 0 q.messages).countP (fun e => e.2) =
      ((ofOptions opts p).chosen q.messages.zipIdx).length := by
    rw [countP_eq_length_marked 0, marked_select_zero opts p]
  unfold DLQ.replayWithCalls
  simp [henabled, hget, hne, hdry, hmatched, found, pointers]

theorem replayWithCalls_of_get {d : DLQ} {topic : Bytes} {q : DeadQueue}
    (henabled : d.enabled = true) (hget : getEntry topic d.queues = some q)
    (hne : q.messages ≠ []) {opts : DLQ.ReplayOptions}
    (hdry : opts.dryRun = false) (p : DLQ.Publisher) :
    (d.replayWithCalls topic opts p).2 =
        (some ((ofOptions opts p).addResults
            ((ofOptions opts p).chosen q.messages.zipIdx)
            ((ofOptions opts p).found (pointers q.messages))),
          ((ofOptions opts p).chosen q.messages.zipIdx).filterMap
            (fun e => DLQ.call opts e.2 e.1)) ∧
      (d.replayWithCalls topic opts p).1.entries topic =
        (q.messages.zipIdx.filter ((ofOptions opts p).stays
          ((ofOptions opts p).chosen q.messages.zipIdx))).map
            (fun e => p.entry e.2 e.1) := by
  have hchosen : marked 0 (DLQ.select opts 0 q.messages) =
      (ofOptions opts p).chosen q.messages.zipIdx :=
    marked_select_zero opts p q.messages
  have hmatched : (DLQ.select opts 0 q.messages).countP (fun e => e.2) =
      ((ofOptions opts p).chosen (pointers q.messages).refs).length := by
    rw [countP_eq_length_marked 0, hchosen]
    rfl
  have htotal : q.messages.length = (pointers q.messages).refs.length :=
    List.length_zipIdx.symm
  unfold DLQ.replayWithCalls
  simp only [henabled, hget, hne, hdry, Bool.not_true, Bool.false_eq_true,
    if_false, replayLoop_eq, hchosen, hmatched, htotal, DLQ.map_fst_select]
  refine ⟨rfl, ?_⟩
  split
  · exact entries_of_queues (queues_rewriteTopicFile _ topic)
  · exact entries_of_queues rfl

/--
A replay of a queue in memory is one of the entries at their positions; what it
leaves is there with what is left of the messages.
-/
theorem replayWithOptions_refines {d : DLQ} {topic : Bytes} {q : DeadQueue}
    (henabled : d.enabled = true) (hget : getEntry topic d.queues = some q)
    (opts : DLQ.ReplayOptions) (p : DLQ.Publisher) :
    (d.replayWithOptions topic opts p).2 =
        ((ofOptions opts p).replayWithOptions true
          (some (pointers q.messages))).result ∧
      (opts.dryRun = false ->
        some ((d.replayWithOptions topic opts p).1.entries topic) =
          (((ofOptions opts p).replayWithOptions true
            (some (pointers q.messages))).queue.map Pointers.refs).map
              (List.map (fun e => p.entry e.2 e.1))) := by
  by_cases hempty : q.messages = []
  · have hrefs : (pointers q.messages).refs = [] := by
      rw [hempty]
      rfl
    rw [replayWithOptions_of_empty _ hrefs, Option.map_some, hrefs]
    constructor
    · simp [DLQ.replayWithOptions, DLQ.replayWithCalls, henabled, hget, hempty]
    · intro _
      simp [DLQ.replayWithOptions, DLQ.replayWithCalls, henabled, hget, hempty,
        DLQ.entries, DLQ.queueOf]
  have hrefs : (pointers q.messages).refs ≠ [] := by
    simpa [pointers] using hempty
  have hmode : (ofOptions opts p).dryRun = opts.dryRun := rfl
  cases hdry : opts.dryRun with
  | true =>
    rw [replayWithOptions_of_dryRun hrefs (hmode.trans hdry),
      DLQ.replayWithOptions,
      replayWithCalls_of_dryRun henabled hget hempty hdry]
    exact ⟨rfl, fun h => Bool.noConfusion h⟩
  | false =>
  rcases replayWithOptions_of_not_dryRun hrefs (hmode.trans hdry) with
    ⟨hresult, hqueue, -⟩
  rcases replayWithCalls_of_get henabled hget hempty hdry p with
    ⟨hreplayed, hentries⟩
  rw [hresult, hqueue]
  exact ⟨congrArg Prod.fst hreplayed, fun _ => congrArg some hentries⟩

open DLQ (replayAll takesFirst)

def deadEntry (id : UInt64) (reason : Bytes) : DLQEntry :=
  ⟨id, (DLQ.failure reason).msg, [116], 0, reason, 0, []⟩

def deadLetters (entries : List DLQEntry) : DLQ :=
  ⟨true, [], [([116], ⟨entries, 3⟩)], []⟩

def notTimedOut : DLQ.ReplayOptions :=
  { replayAll with condition := fun e => e.reason ≠ ascii "timeout" }

/-- One entry is published, one fails, and one is not asked for. -/
theorem replayWithOptions_refines_threeEntries :
    let entries :=
      [deadEntry 1 [97], deadEntry 2 (ascii "timeout"), deadEntry 3 [98]]
    let after :=
      (deadLetters entries).replayWithOptions [116] notTimedOut takesFirst
    let replayed := (ofOptions notTimedOut takesFirst).replayWithOptions true
      (some (pointers entries))
    after.2 = replayed.result ∧
      some (after.1.entries [116]) =
        (replayed.queue.map Pointers.refs).map
          (List.map (fun e => takesFirst.entry e.2 e.1)) ∧
      after.1.entries [116] =
        [deadEntry 2 (ascii "timeout"), deadEntry 3 [98]] := by
  intro entries after replayed
  have hrefines := @replayWithOptions_refines (deadLetters entries) [116]
    ⟨entries, 3⟩ rfl (by decide +kernel) notTimedOut takesFirst
  exact ⟨hrefines.left, hrefines.right rfl, by decide +kernel⟩

end Replay

/-!
## Exact replays
-/

namespace DLQ

open Replay (ofOptions)

/-- The entries that are replayed, with their positions. -/
def picked (d : DLQ) (topic : Bytes) (opts : ReplayOptions) (p : Publisher) :
    List (DLQEntry × Nat) :=
  (ofOptions opts p).chosen (d.entries topic).zipIdx

def Publisher.published (p : Publisher)
    (calls : List (Nat × Original × Bytes)) (i : Nat) : Bool :=
  calls.any (fun c => decide (c.1 = i) && (p.publish c.1 c.2.1 c.2.2).isNone)

structure ReplaysExactly (d : DLQ) (topic : Bytes) (opts : ReplayOptions)
    (p : Publisher) : Prop where
  calls : (d.replayWithCalls topic opts p).2.2 =
    if d.enabled = true ∧ opts.dryRun = false then
      (d.picked topic opts p).filterMap (fun e => call opts e.2 e.1)
    else []
  queue : (d.replayWithOptions topic opts p).1.entries topic =
    if d.enabled = true ∧ opts.dryRun = false ∧
        opts.deleteAfterReplay = true then
      ((d.entries topic).zipIdx.filter (fun e =>
        !p.published (d.replayWithCalls topic opts p).2.2 e.2)).map Prod.fst
    else d.entries topic
  counts : d.enabled = true -> exists result,
    (d.replayWithOptions topic opts p).2 = some result ∧
      result.matchedEntries = (d.picked topic opts p).length ∧
      (opts.dryRun = false ->
        result.replayedCount + result.failedCount = result.matchedEntries)
  unchanged : ¬ (d.enabled = true ∧ opts.dryRun = false) ->
    (d.replayWithOptions topic opts p).1 = d

/--
The transform and the publisher leave the messages as they were, but for those
of the entries that are published and deleted.
-/
def LeavesMessages (d : DLQ) (topic : Bytes) (opts : ReplayOptions)
    (p : Publisher) : Prop :=
  d.enabled = true -> opts.dryRun = false ->
    forall e i, (e, i) ∈ (d.entries topic).zipIdx ->
      ¬ (opts.deleteAfterReplay = true ∧ (e, i) ∈ d.picked topic opts p ∧
        attempt opts p i e = none) -> p.entry i e = e

theorem attempt_eq_none_iff {opts : ReplayOptions} {p : Publisher} {i : Nat}
    {e : DLQEntry} :
    attempt opts p i e = none <->
      exists c, call opts i e = some c ∧ p.publish c.1 c.2.1 c.2.2 = none := by
  unfold attempt call
  cases opts.transform i e with
  | none => simp
  | some msg => simp

theorem published_iff {d : DLQ} {topic : Bytes} {opts : ReplayOptions}
    {p : Publisher} {e : DLQEntry} {i : Nat}
    (hmem : (e, i) ∈ (d.entries topic).zipIdx) :
    p.published ((d.picked topic opts p).filterMap
        (fun e => call opts e.2 e.1)) i = true <->
      (e, i) ∈ d.picked topic opts p ∧ attempt opts p i e = none := by
  have hposition : forall j e' c, call opts j e' = some c -> c.1 = j := by
    intro j e' c hc
    rcases Option.map_eq_some_iff.mp hc with ⟨msg, -, rfl⟩
    rfl
  unfold Publisher.published
  rw [List.any_eq_true, attempt_eq_none_iff]
  simp only [Bool.and_eq_true, decide_eq_true_eq, Option.isNone_iff_eq_none,
    List.mem_filterMap]
  constructor
  · rintro ⟨c, ⟨⟨e', j⟩, hpicked, hcall⟩, hi, hnone⟩
    have hj : j = i := (hposition j e' c hcall).symm.trans hi
    rw [hj] at hpicked hcall
    have hsame : e' = e := by
      have hmem' := ((ofOptions opts p).chosen_sublist _).subset hpicked
      rw [List.mk_mem_zipIdx_iff_getElem?] at hmem hmem'
      exact Option.some.inj (hmem'.symm.trans hmem)
    rw [hsame] at hpicked hcall
    exact ⟨hpicked, c, hcall, hnone⟩
  · rintro ⟨hpicked, c, hcall, hnone⟩
    exact ⟨c, ⟨(e, i), hpicked, hcall⟩, hposition i e c hcall, hnone⟩

variable {d : DLQ} {topic : Bytes} {opts : ReplayOptions}

theorem entries_of_get {q : DeadQueue}
    (hget : getEntry topic d.queues = some q) :
    d.entries topic = q.messages := by
  unfold entries queueOf
  rw [hget]
  rfl

theorem replayWithCalls_of_entries_nil (h : d.entries topic = [])
    (henabled : d.enabled = true) (opts : ReplayOptions) (p : Publisher) :
    d.replayWithCalls topic opts p = (d, some ReplayResult.zero, []) := by
  unfold replayWithCalls
  rw [henabled, if_neg (by decide)]
  cases hget : getEntry topic d.queues with
  | none => rfl
  | some q => exact if_pos ((entries_of_get hget).symm.trans h)

theorem get_of_entries_ne_nil (h : d.entries topic ≠ []) :
    exists q, getEntry topic d.queues = some q ∧
      d.entries topic = q.messages := by
  cases hget : getEntry topic d.queues with
  | none =>
    refine absurd ?_ h
    unfold entries queueOf
    rw [hget]
    rfl
  | some q => exact ⟨q, rfl, entries_of_get hget⟩

theorem picked_of_entries_nil (h : d.entries topic = []) (p : Publisher) :
    d.picked topic opts p = [] := by
  unfold picked
  rw [h]
  exact Replay.chosen_nil _

/-- A replay that does not go through the entries counts and does nothing. -/
theorem replayWithCalls_of_not (h : ¬ d.Replays topic opts) (p : Publisher) :
    exists result, d.replayWithCalls topic opts p = (d, result, []) ∧
      (d.enabled = true -> exists r, result = some r ∧
        r.matchedEntries = (d.picked topic opts p).length ∧
        (opts.dryRun = false ->
          r.replayedCount + r.failedCount = r.matchedEntries)) := by
  cases henabled : d.enabled with
  | false =>
    refine ⟨none, ?_, fun h => nomatch h⟩
    simp [replayWithCalls, henabled]
  | true =>
  by_cases hempty : d.entries topic = []
  · rw [replayWithCalls_of_entries_nil hempty henabled,
      picked_of_entries_nil hempty]
    exact ⟨_, rfl, fun _ => ⟨_, rfl, rfl, fun _ => rfl⟩⟩
  have hdry : opts.dryRun = true := by
    by_contra hdry
    exact h ⟨henabled, hempty, Bool.not_eq_true _ ▸ hdry⟩
  rcases get_of_entries_ne_nil hempty with ⟨q, hget, hentries⟩
  rw [hentries] at hempty
  rw [Replay.replayWithCalls_of_dryRun henabled hget hempty hdry, picked,
    hentries, hdry]
  exact ⟨_, rfl, fun _ => ⟨_, rfl, rfl, fun h => nomatch h⟩⟩

theorem replaysExactly_of_not (h : ¬ d.Replays topic opts) (p : Publisher) :
    d.ReplaysExactly topic opts p := by
  have hempty : d.enabled = true ∧ opts.dryRun = false ->
      d.entries topic = [] := by
    intro hruns
    by_contra hne
    exact h ⟨hruns.left, hne, hruns.right⟩
  rcases replayWithCalls_of_not h p with ⟨result, hsame, hcounts⟩
  constructor
  · rw [hsame]
    split
    · rename_i hruns
      rw [picked_of_entries_nil (hempty hruns)]
      rfl
    · rfl
  · rw [replayWithOptions, hsame]
    split
    · rename_i hruns
      rw [hempty ⟨hruns.left, hruns.right.left⟩]
      rfl
    · rfl
  · rw [replayWithOptions, hsame]
    exact hcounts
  · rw [replayWithOptions, hsame]
    exact fun _ => rfl

theorem leavesMessages_of_not (h : ¬ d.Replays topic opts) (p : Publisher) :
    d.LeavesMessages topic opts p := by
  intro henabled hdry e i hmem
  have hempty : d.entries topic = [] := by
    by_contra hne
    exact h ⟨henabled, hne, hdry⟩
  rw [hempty] at hmem
  cases hmem

/-- What is left of the queue is what stays, as the condition has it. -/
theorem filter_published_eq (d : DLQ) (topic : Bytes) (opts : ReplayOptions)
    (p : Publisher) :
    (if opts.deleteAfterReplay = true then
        ((d.entries topic).zipIdx.filter (fun e =>
          !p.published ((d.picked topic opts p).filterMap
            (fun e => call opts e.2 e.1)) e.2)).map Prod.fst
      else d.entries topic) =
      ((d.entries topic).zipIdx.filter
        ((ofOptions opts p).stays (d.picked topic opts p))).map Prod.fst := by
  have hmode : (ofOptions opts p).deleteAfterReplay =
      opts.deleteAfterReplay := rfl
  by_cases hdelete : opts.deleteAfterReplay = true
  · rw [if_pos hdelete]
    refine congrArg (List.map Prod.fst) (List.filter_congr ?_)
    rintro ⟨e, i⟩ hmem
    rw [Bool.eq_iff_iff, Bool.not_eq_true', ← Bool.not_eq_true,
      published_iff hmem, ← Replay.failure_ofOptions]
    simp [Replay.stays, hmode, hdelete, imp_iff_not_or]
  · rw [if_neg hdelete, List.filter_eq_self.mpr, List.zipIdx_map_fst]
    intro e _
    simp [Replay.stays, hmode, hdelete]

theorem leavesMessages_iff_forall_stays (henabled : d.enabled = true)
    (hdry : opts.dryRun = false) (p : Publisher) :
    d.LeavesMessages topic opts p <->
      forall e, e ∈ (d.entries topic).zipIdx.filter
        ((ofOptions opts p).stays (d.picked topic opts p)) ->
          p.entry e.2 e.1 = e.1 := by
  simp only [LeavesMessages, henabled, hdry, forall_const, Prod.forall,
    List.mem_filter, and_imp, Replay.stays, decide_eq_true_eq,
    Replay.failure_ofOptions]
  exact Iff.rfl

/--
A replay is exact exactly if nothing changes the message of an entry that stays
in the queue.
-/
theorem replaysExactly_iff (d : DLQ) (topic : Bytes) (opts : ReplayOptions)
    (p : Publisher) :
    d.ReplaysExactly topic opts p <-> d.LeavesMessages topic opts p := by
  by_cases hruns : d.Replays topic opts
  · rcases hruns with ⟨henabled, hne, hdry⟩
    rcases get_of_entries_ne_nil hne with ⟨q, hget, hentries⟩
    rcases Replay.replayWithCalls_of_get henabled hget (hentries ▸ hne) hdry p
      with ⟨hreplayed, hqueue⟩
    rw [← hentries] at hreplayed hqueue
    have hcalls : (d.replayWithCalls topic opts p).2.2 =
        (d.picked topic opts p).filterMap (fun e => call opts e.2 e.1) := by
      rw [hreplayed]
      rfl
    have hleft : (d.replayWithOptions topic opts p).1.entries topic =
        (if d.enabled = true ∧ opts.dryRun = false ∧
            opts.deleteAfterReplay = true then
          ((d.entries topic).zipIdx.filter (fun e =>
            !p.published (d.replayWithCalls topic opts p).2.2 e.2)).map
              Prod.fst
        else d.entries topic) <-> d.LeavesMessages topic opts p := by
      rw [leavesMessages_iff_forall_stays henabled hdry, hcalls]
      simp only [henabled, hdry, true_and]
      rw [filter_published_eq, replayWithOptions, hqueue]
      exact List.map_inj_left
    refine ⟨fun h => hleft.mp h.queue, fun h => ⟨?_, hleft.mpr h, ?_, ?_⟩⟩
    · rw [if_pos ⟨henabled, hdry⟩, hcalls]
    · refine fun _ => ⟨_, congrArg Prod.fst hreplayed, rfl, fun _ => ?_⟩
      rw [Replay.counts_addResults]
      simp [Replay.found, ReplayResult.zero, Replay.addResults,
        Replay.pointers]
    · exact fun hnot => absurd ⟨henabled, hdry⟩ hnot
  · exact ⟨fun _ => leavesMessages_of_not hruns p,
      fun _ => replaysExactly_of_not hruns p⟩

/-- The publisher of the admin server, which gives the message the topic. -/
def adminPublisher (topic : Bytes) : Publisher where
  publish := fun _ _ _ => none
  leaves := fun _ m =>
    { m with
      env := { m.env with topic := topic }
      no_headers := m.no_headers
      no_payload := m.no_payload }

/-- A message that is not deleted has another topic after its replay. -/
theorem not_replaysExactly_targetTopic :
    ¬ (Replay.deadLetters [Replay.deadEntry 1 [97]]).ReplaysExactly [116]
      { replayAll with deleteAfterReplay := false, targetTopic := [117] }
      (adminPublisher [117]) := by
  intro h
  have hqueue := h.queue
  revert hqueue
  decide +kernel

end DLQ
end DeadLetter
end ChimeraMQ
