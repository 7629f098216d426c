import ChimeraMQ.DeadLetter.FileMirror

/-!
# Runs of the dead letter queues

From an empty data directory the files are as the queues in memory after every
operation of a run exactly if every operation is one that keeps them so.
-/

namespace ChimeraMQ
namespace DeadLetter

open Foundation Message

namespace DLQ

/-- The operations that keep the files as the queues are. -/
def Keeps (d : DLQ) : Action -> Prop
  | .push f =>
    d.enabled = true -> ValidTopic f.topic ->
      (d.entryFor f).Readable ∧ (Line.ofEntry (d.entryFor f)).Fits
  | .pop topic => d.entries topic = []
  | .clear topic =>
    ValidTopic topic ∨
      forall t, ValidTopic t ->
        topicPath d.dataDir t = topicPath d.dataDir topic -> d.entries t = []
  | .replay topic opts p =>
    d.enabled = true -> d.entries topic ≠ [] -> opts.dryRun = false ->
      opts.deleteAfterReplay = false ∧
        forall i e, (d.entries topic)[i]? = some e -> p.entry i e = e
  | .restart _ => True

structure InStep (d : DLQ) : Prop where
  lines : forall topic, ValidTopic topic ->
    d.linesAt (topicPath d.dataDir topic) =
      (d.entries topic).map Line.ofEntry
  fits : forall topic e, e ∈ d.entries topic -> (Line.ofEntry e).Fits
  readable : forall topic e, e ∈ d.entries topic -> e.Readable
  topic : forall topic e, e ∈ d.entries topic -> e.topic = topic
  others : forall topic, ¬ ValidTopic topic -> d.entries topic = []

theorem scan_map_ofEntry {entries : List DLQEntry}
    (hfits : forall e, e ∈ entries -> (Line.ofEntry e).Fits)
    (hreadable : forall e, e ∈ entries -> e.Readable) :
    scan (entries.map Line.ofEntry) = entries := by
  rw [scan_of_fits, List.filterMap_map]
  · calc entries.filterMap (Line.entry ∘ Line.ofEntry)
        = entries.filterMap some := by
          apply List.filterMap_congr
          intro e he
          exact congrArg some
            (DLQEntry.reread_eq_self_iff.mpr (hreadable e he))
      _ = entries := List.filterMap_some
  · intro l hl
    rcases List.mem_map.mp hl with ⟨e, he, heq⟩
    rw [← heq]
    exact hfits e he

variable {d : DLQ}

theorem InStep.scan_append (h : d.InStep) (topic : Bytes) (back : List Line) :
    scan ((d.entries topic).map Line.ofEntry ++ back) =
      d.entries topic ++ scan back := by
  have hall : forall l, l ∈ (d.entries topic).map Line.ofEntry -> l.Fits := by
    intro l hl
    rcases List.mem_map.mp hl with ⟨e, he, heq⟩
    rw [← heq]
    exact h.fits topic e he
  rw [DeadLetter.scan_append hall, ← scan_of_fits hall,
    scan_map_ofEntry (h.fits topic) (h.readable topic)]

variable {topic : Bytes}

theorem InStep.stored (h : d.InStep) (hvalid : ValidTopic topic) :
    d.stored topic = d.entries topic := by
  rw [DLQ.stored, h.lines topic hvalid,
    scan_map_ofEntry (h.fits topic) (h.readable topic)]

theorem InStep.mirrors (h : d.InStep) : d.Mirrors := by
  apply mirrors_iff_stored.mpr
  intro topic
  by_cases hvalid : ValidTopic topic
  · rw [if_pos hvalid, h.stored hvalid]
  · rw [if_neg hvalid, h.others topic hvalid]

theorem Mirrors.stored (h : d.Mirrors) (hvalid : ValidTopic topic) :
    d.stored topic = d.entries topic := by
  have hone := mirrors_iff_stored.mp h topic
  rwa [if_pos hvalid] at hone

theorem InStep.of_eq {d' : DLQ} (h : d.InStep) (hdir : d'.dataDir = d.dataDir)
    (hfiles : d'.files = d.files)
    (hentries : forall topic, d'.entries topic = d.entries topic) :
    d'.InStep := by
  constructor
  · intro topic hvalid
    rw [hentries, hdir, linesAt, hfiles]
    exact h.lines topic hvalid
  · intro topic e he
    rw [hentries] at he
    exact h.fits topic e he
  · intro topic e he
    rw [hentries] at he
    exact h.readable topic e he
  · intro topic e he
    rw [hentries] at he
    exact h.topic topic e he
  · intro topic hnot
    rw [hentries]
    exact h.others topic hnot

/-!
## Pushing
-/

variable {f : Failure}

theorem push_stores (henabled : d.enabled = true) (hvalid : ValidTopic f.topic) :
    (forall topic, (d.push f).entries topic =
      if topic = f.topic then d.entries f.topic ++ [d.entryFor f]
      else d.entries topic) ∧
    (d.push f).dataDir = d.dataDir ∧
      forall topic, ValidTopic topic ->
        (d.push f).linesAt (topicPath d.dataDir topic) =
          d.linesAt (topicPath d.dataDir topic) ++
            if topic = f.topic then [Line.ofEntry (d.entryFor f)] else [] := by
  have hpush : d.push f = persistEntry
      { d with
        queues := setEntry f.topic
          ⟨d.entries f.topic ++ [d.entryFor f], (d.queueOf f.topic).offset + 1⟩
          d.queues } (d.entryFor f) := by
    unfold push
    rw [henabled, if_neg (by decide), if_neg (by rwa [not_not])]
    rfl
  rw [hpush]
  constructor
  · intro topic
    exact entries_setEntry d f.topic _ topic
  constructor
  · rfl
  intro topic htopic
  unfold persistEntry linesAt
  simp only
  by_cases hsame : topic = f.topic
  · rw [hsame, if_pos rfl]
    change (getEntry (topicPath d.dataDir f.topic)
      (setEntry (topicPath d.dataDir f.topic) _ _)).getD [] = _
    rw [getEntry_setEntry]
    rfl
  have hne : topicPath d.dataDir topic ≠
      topicPath d.dataDir (d.entryFor f).topic :=
    fun h => hsame (topicPath_inj htopic hvalid h)
  rw [if_neg hsame, getEntry_setEntry_ne hne, List.append_nil]

theorem push_of_not (h : ¬ (d.enabled = true ∧ ValidTopic f.topic)) :
    d.push f = d := by
  unfold push
  by_cases henabled : d.enabled = true
  · rw [henabled, if_neg (by decide), if_pos]
    exact fun hvalid => h ⟨henabled, hvalid⟩
  · rw [Bool.not_eq_true] at henabled
    rw [henabled]
    rfl

theorem InStep.push (h : d.InStep) (hkeeps : d.Keeps (.push f)) :
    (d.push f).InStep := by
  by_cases hstores : d.enabled = true ∧ ValidTopic f.topic
  · rcases hstores with ⟨henabled, hvalid⟩
    rcases hkeeps henabled hvalid with ⟨hreadable, hfits⟩
    rcases push_stores henabled hvalid with ⟨hentries, hdir, hlines⟩
    have hmem : forall topic e, e ∈ (d.push f).entries topic ->
        e ∈ d.entries topic ∨ topic = f.topic ∧ e = d.entryFor f := by
      intro topic e he
      rw [hentries] at he
      split at he
      · rename_i htopic
        rw [htopic]
        rcases List.mem_append.mp he with hold | hnew
        · left
          exact hold
        · right
          exact ⟨rfl, List.mem_singleton.mp hnew⟩
      · left
        exact he
    constructor
    · intro topic htopic
      rw [hdir, hlines topic htopic, h.lines topic htopic, hentries]
      split
      · rename_i hsame
        rw [hsame, List.map_append]
        rfl
      · rw [List.append_nil]
    · intro topic e he
      rcases hmem topic e he with hold | ⟨_, hnew⟩
      · exact h.fits topic e hold
      · rw [hnew]
        exact hfits
    · intro topic e he
      rcases hmem topic e he with hold | ⟨_, hnew⟩
      · exact h.readable topic e hold
      · rw [hnew]
        exact hreadable
    · intro topic e he
      rcases hmem topic e he with hold | ⟨htopic, hnew⟩
      · exact h.topic topic e hold
      · rw [hnew, htopic]
        rfl
    · intro topic hnot
      rw [hentries, if_neg]
      · exact h.others topic hnot
      · intro hsame
        exact hnot (hsame ▸ hvalid)
  · rw [push_of_not hstores]
    exact h

theorem InStep.keeps_push (h : d.InStep) (hmirrors : (d.push f).Mirrors) :
    d.Keeps (.push f) := by
  intro henabled hvalid
  rcases push_stores henabled hvalid with ⟨hentries, hdir, hlines⟩
  have hstored := hmirrors.stored hvalid
  rw [DLQ.stored, hdir, hlines f.topic hvalid, h.lines f.topic hvalid, hentries,
    if_pos rfl, if_pos rfl, h.scan_append, List.append_right_inj] at hstored
  by_cases hfits : (Line.ofEntry (d.entryFor f)).Fits
  · rw [scan_cons_of_fits hfits] at hstored
    have hsame : [(d.entryFor f).reread] = [d.entryFor f] := hstored
    constructor
    · exact DLQEntry.reread_eq_self_iff.mp (List.singleton_inj.mp hsame)
    · exact hfits
  · rw [scan_cons_of_not_fits hfits] at hstored
    cases hstored

/-!
## Popping
-/

theorem entries_pop (d : DLQ) (topic u : Bytes) :
    (d.pop topic).1.entries u =
      if u = topic then (d.entries topic).tail else d.entries u := by
  unfold pop
  cases hget : getEntry topic d.queues with
  | none =>
    have hnone : d.entries topic = [] := by
      unfold entries queueOf
      rw [hget]
      rfl
    rw [hnone]
    change d.entries u = _
    split
    · rename_i hu
      rw [hu, hnone]
      rfl
    · rfl
  | some q =>
  have hsome : d.entries topic = q.messages := by
    unfold entries queueOf
    rw [hget]
    rfl
  rw [hsome]
  simp only
  cases hmessages : q.messages with
  | nil =>
    change d.entries u = _
    split
    · rename_i hu
      rw [hu, hsome, hmessages]
      rfl
    · rfl
  | cons e rest => exact entries_setEntry d topic _ u

theorem files_pop (d : DLQ) (topic : Bytes) :
    (d.pop topic).1.files = d.files ∧ (d.pop topic).1.dataDir = d.dataDir := by
  unfold pop
  cases getEntry topic d.queues with
  | none => exact ⟨rfl, rfl⟩
  | some q =>
  simp only
  cases q.messages with
  | nil => exact ⟨rfl, rfl⟩
  | cons e rest => exact ⟨rfl, rfl⟩

theorem InStep.pop (h : d.InStep) (hkeeps : d.Keeps (.pop topic)) :
    (d.pop topic).1.InStep := by
  have hnone : d.entries topic = [] := hkeeps
  rcases files_pop d topic with ⟨hfiles, hdir⟩
  apply h.of_eq hdir hfiles
  intro u
  rw [entries_pop]
  split
  · rename_i hu
    rw [hu, hnone]
    rfl
  · rfl

theorem InStep.keeps_pop (h : d.InStep) (hmirrors : (d.pop topic).1.Mirrors) :
    d.Keeps (.pop topic) := by
  change d.entries topic = []
  by_cases hvalid : ValidTopic topic
  · rcases files_pop d topic with ⟨hfiles, hdir⟩
    have hstored := hmirrors.stored hvalid
    rw [stored_congr hfiles hdir, h.stored hvalid, entries_pop,
      if_pos rfl] at hstored
    have hlength := congrArg List.length hstored
    rw [List.length_tail] at hlength
    apply List.eq_nil_of_length_eq_zero
    omega
  · exact h.others topic hvalid

/-!
## Clearing
-/

theorem entries_clear (d : DLQ) (topic u : Bytes) :
    (d.clear topic).entries u = if u = topic then [] else d.entries u := by
  unfold clear entries queueOf
  simp only
  split
  · rename_i hu
    rw [hu, getEntry_deleteEntry]
    rfl
  · rename_i hu
    rw [getEntry_deleteEntry_ne hu]

theorem linesAt_clear (d : DLQ) (topic : Bytes) (path : Path) :
    (d.clear topic).linesAt path =
      if path = topicPath d.dataDir topic then [] else d.linesAt path := by
  unfold clear linesAt
  simp only
  split
  · rename_i hpath
    rw [hpath, getEntry_deleteEntry]
    rfl
  · rename_i hpath
    rw [getEntry_deleteEntry_ne hpath]

theorem InStep.clear (h : d.InStep) (hkeeps : d.Keeps (.clear topic)) :
    (d.clear topic).InStep := by
  have hmem : forall u e, e ∈ (d.clear topic).entries u -> e ∈ d.entries u := by
    intro u e he
    rw [entries_clear] at he
    split at he
    · cases he
    · exact he
  constructor
  · intro u hu
    change (d.clear topic).linesAt (topicPath d.dataDir u) = _
    rw [linesAt_clear, entries_clear]
    by_cases hsame : u = topic
    · rw [hsame, if_pos rfl, if_pos rfl]
      rfl
    rw [if_neg hsame]
    by_cases hpath : topicPath d.dataDir u = topicPath d.dataDir topic
    · rw [if_pos hpath]
      rcases hkeeps with hvalid | hnone
      · exact absurd (topicPath_inj hu hvalid hpath) hsame
      · rw [hnone u hu hpath]
        rfl
    · rw [if_neg hpath, h.lines u hu]
  · intro u e he
    exact h.fits u e (hmem u e he)
  · intro u e he
    exact h.readable u e (hmem u e he)
  · intro u e he
    exact h.topic u e (hmem u e he)
  · intro u hu
    rw [entries_clear, h.others u hu, ite_self]

theorem InStep.keeps_clear (hmirrors : (d.clear topic).Mirrors) :
    d.Keeps (.clear topic) := by
  by_cases hvalid : ValidTopic topic
  · left
    exact hvalid
  right
  intro t ht hpath
  have hne : t ≠ topic := fun hsame => hvalid (hsame ▸ ht)
  have hstored := hmirrors.stored ht
  rw [entries_clear, if_neg hne] at hstored
  rw [← hstored]
  change scan ((d.clear topic).linesAt (topicPath d.dataDir t)) = []
  rw [linesAt_clear, if_pos hpath]
  rfl

/-!
## Replaying
-/

variable {opts : ReplayOptions}

theorem remaining_of_not_delete (hdelete : opts.deleteAfterReplay = false)
    (p : Publisher) (i : Nat) (marked : List (DLQEntry × Bool))
    (result : ReplayResult) :
    (replayLoop opts p i marked result).2.1 =
      (marked.map Prod.fst).mapIdx (fun j e => p.entry (i + j) e) := by
  induction marked generalizing i result with
  | nil => rfl
  | cons m marked ih =>
  have hshift : (fun j e => p.entry (i + 1 + j) e) =
      fun j e => p.entry (i + (j + 1)) e := by
    funext j e
    rw [Nat.add_assoc, Nat.add_comm 1 j]
  rcases m with ⟨e, chosen⟩
  rw [List.map_cons, List.mapIdx_cons, Nat.add_zero]
  cases chosen with
  | false => simp only [replayLoop, ih, hshift]
  | true =>
  unfold replayLoop
  cases attempt opts p i e with
  | some error => simp only [ih, hshift]
  | none =>
    simp only [hdelete, ih, hshift, Bool.false_eq_true, if_false]

theorem map_topic_remaining_sublist (opts : ReplayOptions) (p : Publisher)
    (i : Nat) (marked : List (DLQEntry × Bool)) (result : ReplayResult) :
    ((replayLoop opts p i marked result).2.1.map DLQEntry.topic).Sublist
      ((marked.map Prod.fst).map DLQEntry.topic) := by
  induction marked generalizing i result with
  | nil => exact List.Sublist.refl _
  | cons m marked ih =>
  rcases m with ⟨e, chosen⟩
  rw [List.map_cons, List.map_cons]
  cases chosen with
  | false => exact (ih (i + 1) result).cons_cons _
  | true =>
  unfold replayLoop
  cases attempt opts p i e with
  | some error => exact (ih (i + 1) _).cons_cons _
  | none =>
  simp only
  split
  · exact (ih (i + 1) _).cons _
  · exact (ih (i + 1) _).cons_cons _

def Replays (d : DLQ) (topic : Bytes) (opts : ReplayOptions) : Prop :=
  d.enabled = true ∧ d.entries topic ≠ [] ∧ opts.dryRun = false

theorem replay_of_not (h : ¬ d.Replays topic opts) (p : Publisher) :
    (d.replayWithOptions topic opts p).1 = d := by
  unfold replayWithOptions replayWithCalls
  cases henabled : d.enabled with
  | false => rfl
  | true =>
  rw [if_neg (by decide)]
  cases hget : getEntry topic d.queues with
  | none => rfl
  | some q =>
  simp only
  have hentries : d.entries topic = q.messages := by
    unfold entries queueOf
    rw [hget]
    rfl
  by_cases hnone : q.messages = []
  · rw [if_pos hnone]
  rw [if_neg hnone, if_pos]
  by_contra hdry
  apply h
  rw [Bool.not_eq_true] at hdry
  exact ⟨henabled, hentries ▸ hnone, hdry⟩

theorem replay_of_replays (h : d.Replays topic opts) (p : Publisher) :
    exists result q,
      q.messages = (replayLoop opts p 0 (select opts 0 (d.entries topic))
        result).2.1 ∧
      (d.replayWithOptions topic opts p).1 =
        if opts.deleteAfterReplay then
          q.messages.foldl persistEntry
            { d with queues := setEntry topic q d.queues }
        else { d with queues := setEntry topic q d.queues } := by
  rcases h with ⟨henabled, hne, hdry⟩
  let found (q : DeadQueue) : ReplayResult :=
    { ReplayResult.zero with
      totalEntries := q.messages.length
      matchedEntries := (select opts 0 q.messages).countP (fun e => e.2) }
  let loop (q : DeadQueue) :=
    replayLoop opts p 0 (select opts 0 q.messages) (found q)
  cases hget : getEntry topic d.queues with
  | none =>
    refine absurd ?_ hne
    unfold entries queueOf
    rw [hget]
    rfl
  | some q =>
  have hentries : d.entries topic = q.messages := by
    unfold entries queueOf
    rw [hget]
    rfl
  rw [hentries] at hne ⊢
  have hmatch : (d.replayWithOptions topic opts p).1 =
      (let d' := { d with
        queues := setEntry topic { q with messages := (loop q).2.1 }
          d.queues }
      if opts.deleteAfterReplay then d'.rewriteTopicFile topic
      else d') := by
    unfold replayWithOptions replayWithCalls
    rw [henabled, hget, if_neg (by decide)]
    simp only
    rw [if_neg hne, hdry, if_neg (by decide)]
  rw [hmatch]
  refine ⟨found q, { q with messages := (loop q).2.1 }, rfl, ?_⟩
  simp only [rewriteTopicFile, getEntry_setEntry]

theorem foldl_persistEntry (es : List DLQEntry)
    (htopic : forall e, e ∈ es -> e.topic = topic) (d : DLQ) :
    (es.foldl persistEntry d).linesAt (topicPath d.dataDir topic) =
        d.linesAt (topicPath d.dataDir topic) ++ es.map Line.ofEntry ∧
      (es.foldl persistEntry d).dataDir = d.dataDir ∧
        (es.foldl persistEntry d).queues = d.queues := by
  induction es generalizing d with
  | nil => exact ⟨(List.append_nil _).symm, rfl, rfl⟩
  | cons e es ih =>
  rcases ih (fun x hx => htopic x (List.mem_cons_of_mem e hx))
    (d.persistEntry e) with ⟨hlines, hdir, hqueues⟩
  refine ⟨?_, hdir, hqueues⟩
  have hfirst : (d.persistEntry e).linesAt (topicPath d.dataDir topic) =
      d.linesAt (topicPath d.dataDir topic) ++ [Line.ofEntry e] := by
    rw [← htopic e (List.mem_cons_self ..)]
    unfold persistEntry linesAt
    simp only
    rw [getEntry_setEntry]
    rfl
  rw [List.foldl_cons, List.map_cons, ← List.singleton_append,
    ← List.append_assoc, ← hfirst]
  exact hlines

theorem InStep.replay (h : d.InStep) {p : Publisher}
    (hkeeps : d.Keeps (.replay topic opts p)) :
    (d.replayWithOptions topic opts p).1.InStep := by
  by_cases hreplays : d.Replays topic opts
  · rcases hkeeps hreplays.left hreplays.right.left hreplays.right.right with
      ⟨hdelete, hleaves⟩
    rcases replay_of_replays hreplays p with ⟨result, q, hq, hreplay⟩
    rw [hreplay, hdelete, if_neg (by decide)]
    rw [remaining_of_not_delete hdelete, map_fst_select] at hq
    have hsame : q.messages = d.entries topic := by
      rw [hq]
      apply List.ext_getElem?
      intro i
      rw [List.getElem?_mapIdx]
      cases hget : (d.entries topic)[i]? with
      | none => rfl
      | some e =>
        rw [Option.map_some, Nat.zero_add, hleaves i e hget]
    refine h.of_eq rfl rfl ?_
    intro u
    rw [entries_setEntry]
    split
    · rename_i hu
      rw [hu, hsame]
    · rfl
  · rw [replay_of_not hreplays]
    exact h

theorem InStep.not_mirrors_delete (h : d.InStep) {p : Publisher}
    (hreplays : d.Replays topic opts) (hdelete : opts.deleteAfterReplay = true) :
    ¬ (d.replayWithOptions topic opts p).1.Mirrors := by
  intro hmirrors
  rcases replay_of_replays hreplays p with ⟨result, q, hq, hreplay⟩
  rw [hdelete, if_pos rfl] at hreplay
  have hsub := map_topic_remaining_sublist opts p 0
    (select opts 0 (d.entries topic)) result
  rw [← hq, map_fst_select] at hsub
  have htopic : forall e, e ∈ q.messages -> e.topic = topic := by
    intro e he
    rcases List.mem_map.mp (hsub.subset (List.mem_map_of_mem he)) with
      ⟨e', he', heq⟩
    rw [← heq]
    exact h.topic topic e' he'
  have hvalid : ValidTopic topic := by
    by_contra hnot
    exact hreplays.right.left (h.others topic hnot)
  let d1 : DLQ := { d with queues := setEntry topic q d.queues }
  rcases foldl_persistEntry q.messages htopic d1 with
    ⟨hlines, hdir, hqueues⟩
  have hstored := hmirrors.stored hvalid
  have hafter : (q.messages.foldl persistEntry d1).entries topic =
      q.messages := by
    unfold entries queueOf
    rw [hqueues, getEntry_setEntry]
    rfl
  have hbefore : d1.linesAt (topicPath d1.dataDir topic) =
      (d.entries topic).map Line.ofEntry := h.lines topic hvalid
  rw [hreplay, hafter, DLQ.stored, hdir, hlines, hbefore,
    h.scan_append] at hstored
  have hle := hsub.length_le
  rw [List.length_map, List.length_map] at hle
  have hlength := congrArg List.length hstored
  rw [List.length_append] at hlength
  have hnone : scan (q.messages.map Line.ofEntry) = [] :=
    List.eq_nil_of_length_eq_zero (by omega)
  rw [hnone, List.append_nil] at hstored
  rw [← hstored, scan_map_ofEntry (h.fits topic) (h.readable topic)] at hnone
  exact hreplays.right.left hnone

theorem InStep.keeps_replay (h : d.InStep) {p : Publisher}
    (hmirrors : (d.replayWithOptions topic opts p).1.Mirrors) :
    d.Keeps (.replay topic opts p) := by
  intro henabled hne hdry
  have hreplays : d.Replays topic opts := ⟨henabled, hne, hdry⟩
  cases hdelete : opts.deleteAfterReplay with
  | true => exact absurd hmirrors (h.not_mirrors_delete hreplays hdelete)
  | false =>
  refine ⟨rfl, ?_⟩
  have hvalid : ValidTopic topic := by
    by_contra hnot
    exact hne (h.others topic hnot)
  rcases replay_of_replays hreplays p with ⟨result, q, hq, hreplay⟩
  rw [hdelete, if_neg (by decide)] at hreplay
  have hstored := hmirrors.stored hvalid
  rw [hreplay, entries_setEntry, if_pos rfl] at hstored
  have hbefore : d.stored topic = q.messages := hstored
  rw [h.stored hvalid, hq, remaining_of_not_delete hdelete,
    map_fst_select] at hbefore
  intro i e hget
  have hone := congrArg (fun l => l[i]?) hbefore
  simp only [List.getElem?_mapIdx, hget, Option.map_some, Nat.zero_add,
    Option.some.injEq] at hone
  exact hone.symm

/-!
## Runs
-/

theorem InStep.restart (h : d.InStep) (enabled : Bool) :
    (newDLQ enabled d.dataDir d.files).InStep := by
  rcases files_foldl_loadFile
    (readDir { enabled, dataDir := d.dataDir, queues := [], files := d.files })
    { enabled, dataDir := d.dataDir, queues := [], files := d.files } with
    ⟨hfiles, hdir⟩
  refine h.of_eq hdir hfiles ?_
  intro topic
  rw [entries_newDLQ]
  exact mirrors_iff_stored.mp h.mirrors topic

theorem InStep.apply (h : d.InStep) {a : Action} (hkeeps : d.Keeps a) :
    (d.apply a).InStep := by
  cases a with
  | push f => exact h.push hkeeps
  | pop topic => exact h.pop hkeeps
  | clear topic => exact h.clear hkeeps
  | replay topic opts p => exact h.replay hkeeps
  | restart enabled => exact h.restart enabled

theorem InStep.keeps_of_mirrors (h : d.InStep) {a : Action}
    (hmirrors : (d.apply a).Mirrors) : d.Keeps a := by
  cases a with
  | push f => exact h.keeps_push hmirrors
  | pop topic => exact h.keeps_pop hmirrors
  | clear topic => exact InStep.keeps_clear hmirrors
  | replay topic opts p => exact h.keeps_replay hmirrors
  | restart enabled => trivial

theorem inStep_newDLQ (enabled : Bool) (dataDir : Path) :
    (newDLQ enabled dataDir []).InStep := by
  constructor
  · intro topic _
    rfl
  · intro topic e he
    cases he
  · intro topic e he
    cases he
  · intro topic e he
    cases he
  · intro topic _
    rfl

/--
From an empty data directory on, the files have the entries that are in memory
after every operation exactly if every operation keeps them so.
-/
theorem always_mirrors_iff (enabled : Bool) (dataDir : Path)
    (actions : List Action) :
    (forall front, front <+: actions -> forall d,
      run? step (newDLQ enabled dataDir []) front = some d -> d.Mirrors) <->
      Meets step Keeps (newDLQ enabled dataDir []) actions := by
  apply @run?_always_iff_meets _ _ step Keeps (fun _ d => d.InStep) Mirrors
    actions.length (fun _ d h => h.mirrors) ?_ ?_ 0 _
    (inStep_newDLQ enabled dataDir) actions (Nat.le_of_eq (Nat.zero_add _))
  · intro _ d a d' _ h hkeeps hstep
    rw [← Option.some.inj hstep]
    exact h.apply hkeeps
  · intro _ d a _ h hnot
    exact ⟨d.apply a, rfl, fun hmirrors => hnot (h.keeps_of_mirrors hmirrors)⟩

/-!
## Two messages, of which one is replayed
-/

/-- A message without a body that has failed in the topic `t`. -/
def failure (reason : Bytes) : Failure where
  msg := some
    { env := Envelope.zero
      headers := none
      payload := none
      no_headers := rfl
      no_payload := rfl }
  topic := [116]
  partition := 0
  reason := reason
  retryCount := 3
  now := ascii "2024-05-01T10:00:00Z"

def replayAll : ReplayOptions where
  condition := fun _ => true
  transform := fun _ e => e.originalMsg
  maxMessages := 0
  dryRun := false
  targetTopic := []
  deleteAfterReplay := true

def takesFirst : Publisher where
  publish := fun i _ _ => if i = 0 then none else some (ascii "closed")
  leaves := fun _ m => m

/--
One message is published and deleted, and three come back: this one, and the
other one twice.
-/
theorem not_mirrors_replayAll :
    ¬ forall (dataDir : Path) (actions : List Action) (d : DLQ),
      run? step (newDLQ true dataDir []) actions = some d -> d.Mirrors := by
  intro h
  have hcheck : (run? step (newDLQ true [ascii "data"] [])
      [.push (failure [97]), .push (failure [98]),
        .replay [116] replayAll takesFirst]).map (fun d =>
          ((d.entries [116]).map DLQEntry.id,
            ((newDLQ true d.dataDir d.files).entries [116]).map
              DLQEntry.id)) = some ([2], [1, 2, 2]) := by
    decide +kernel
  rcases Option.map_eq_some_iff.mp hcheck with ⟨d, hrun, hids⟩
  rcases Prod.mk.inj hids with ⟨hmemory, hfile⟩
  rw [h _ _ d hrun [116], hmemory] at hfile
  cases hfile

end DLQ
end DeadLetter
end ChimeraMQ
