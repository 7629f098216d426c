import ChimeraMQ.DeadLetter.Queue
import ChimeraMQ.Foundation.Run
import Mathlib.Data.List.TakeWhile

/-!
# The files of the dead letter queues

When the files of a data directory have the entries that are in memory.
-/

namespace ChimeraMQ
namespace DeadLetter

open Foundation Message

theorem not_separator_of_validTopic {topic : Bytes} (h : ValidTopic topic) :
    47 ∉ topic := by
  unfold ValidTopic validateTopicName at h
  split_ifs at h with hempty hlong hparent hseparator hbytes
  intro hmem
  apply hseparator
  rw [Bool.or_eq_true]
  left
  exact List.contains_iff_mem.mpr hmem

theorem splitOn_of_not_mem {sep : UInt8} {s : Bytes} (h : sep ∉ s) :
    splitOn sep s = [s] := by
  induction s with
  | nil => rfl
  | cons c s ih =>
  rw [List.mem_cons, not_or] at h
  rw [splitOn, if_neg (Ne.symm h.left), ih h.right]

theorem topicPath_of_validTopic {topic : Bytes} (h : ValidTopic topic)
    (dataDir : Path) :
    topicPath dataDir topic = dataDir ++ [topic ++ extension] := by
  have hname : (47 : UInt8) ∉ topic ++ extension := by
    rw [List.mem_append, not_or]
    constructor
    · exact not_separator_of_validTopic h
    · decide
  have hlength : (topic ++ extension).length = topic.length + 6 :=
    List.length_append
  have hne : forall part : Bytes, part.length < 6 ->
      topic ++ extension ≠ part := by
    intro part hpart heq
    rw [heq] at hlength
    omega
  unfold topicPath joinPath
  rw [splitOn_of_not_mem hname]
  change cleanPart dataDir (topic ++ extension) = _
  unfold cleanPart
  rw [if_neg, if_neg]
  · exact hne _ (by decide)
  rw [not_or]
  constructor
  · exact hne _ (by decide)
  · exact hne _ (by decide)

theorem topicPath_inj {t u : Bytes} (ht : ValidTopic t) (hu : ValidTopic u)
    {dataDir : Path} (h : topicPath dataDir t = topicPath dataDir u) :
    t = u := by
  rw [topicPath_of_validTopic ht, topicPath_of_validTopic hu,
    List.append_right_inj, List.singleton_inj] at h
  exact List.append_left_injective _ h

/-!
## Lines that are scanned
-/

theorem scan_append {front : List Line} (hfront : forall l, l ∈ front -> l.Fits)
    (back : List Line) :
    scan (front ++ back) = front.filterMap Line.entry ++ scan back := by
  unfold scan
  rw [List.takeWhile_append_of_pos, List.filterMap_append]
  intro l hl
  exact decide_eq_true (hfront l hl)

theorem scan_of_fits {lines : List Line}
    (hlines : forall l, l ∈ lines -> l.Fits) :
    scan lines = lines.filterMap Line.entry := by
  have h := scan_append hlines []
  rwa [List.append_nil, show scan [] = [] from rfl, List.append_nil] at h

theorem scan_cons_of_fits {l : Line} (hl : l.Fits) (rest : List Line) :
    scan (l :: rest) = l.entry.toList ++ scan rest := by
  have hone : forall l', l' ∈ [l] -> l'.Fits := by
    intro l' hl'
    rwa [List.mem_singleton.mp hl']
  rw [← List.singleton_append, scan_append hone, List.filterMap_cons]
  cases l.entry with
  | none => rfl
  | some e => rfl

theorem scan_cons_of_not_fits {l : Line} (hl : ¬ l.Fits) (rest : List Line) :
    scan (l :: rest) = [] := by
  unfold scan
  rw [List.takeWhile_cons_of_neg]
  · rfl
  · exact fun h => hl (of_decide_eq_true h)

namespace DLQ

/-!
## What is loaded
-/

@[simp] theorem files_loadTopic (d : DLQ) (topic : Bytes) :
    (d.loadTopic topic).files = d.files ∧
      (d.loadTopic topic).dataDir = d.dataDir := by
  unfold loadTopic
  cases getEntry (topicPath d.dataDir topic) d.files with
  | none => exact ⟨rfl, rfl⟩
  | some lines =>
  simp only
  split
  · exact ⟨rfl, rfl⟩
  · exact ⟨rfl, rfl⟩

theorem files_loadFile (d : DLQ) (name : Bytes) :
    (d.loadFile name).files = d.files ∧
      (d.loadFile name).dataDir = d.dataDir := by
  unfold loadFile
  split
  · simp only
    split
    · exact files_loadTopic d _
    · exact ⟨rfl, rfl⟩
  · exact ⟨rfl, rfl⟩

theorem files_foldl_loadFile (names : List Bytes) (d : DLQ) :
    (names.foldl loadFile d).files = d.files ∧
      (names.foldl loadFile d).dataDir = d.dataDir := by
  induction names generalizing d with
  | nil => exact ⟨rfl, rfl⟩
  | cons name names ih =>
  rcases ih (d.loadFile name) with ⟨hfiles, hdir⟩
  rcases files_loadFile d name with ⟨hfiles', hdir'⟩
  exact ⟨hfiles.trans hfiles', hdir.trans hdir'⟩

def stored (d : DLQ) (topic : Bytes) : List DLQEntry :=
  scan (d.linesAt (topicPath d.dataDir topic))

theorem stored_congr {d d' : DLQ} (hfiles : d'.files = d.files)
    (hdir : d'.dataDir = d.dataDir) (topic : Bytes) :
    d'.stored topic = d.stored topic := by
  unfold stored linesAt
  rw [hfiles, hdir]

theorem entries_setEntry (d : DLQ) (topic : Bytes) (q : DeadQueue)
    (u : Bytes) :
    ({ d with queues := setEntry topic q d.queues } : DLQ).entries u =
      if u = topic then q.messages else d.entries u := by
  unfold entries queueOf
  simp only
  by_cases hu : u = topic
  · rw [if_pos hu, hu, getEntry_setEntry]
    rfl
  · rw [if_neg hu, getEntry_setEntry_ne hu]

theorem entries_loadTopic (d : DLQ) (topic u : Bytes) :
    (d.loadTopic topic).entries u =
      if u = topic ∧ d.stored topic ≠ [] then d.stored topic
      else d.entries u := by
  unfold loadTopic stored linesAt
  cases getEntry (topicPath d.dataDir topic) d.files with
  | none =>
    rw [if_neg]
    exact fun h => h.right rfl
  | some lines =>
  simp only [Option.getD_some]
  by_cases hnone : scan lines = []
  · rw [if_pos hnone, if_neg]
    exact fun h => h.right hnone
  · rw [if_neg hnone, entries_setEntry]
    simp only [hnone, ne_eq, not_false_eq_true, and_true]

theorem entries_loadFile (d : DLQ) (name u : Bytes) :
    (d.loadFile name).entries u =
      if name = u ++ extension ∧ ValidTopic u ∧ d.stored u ≠ [] then d.stored u
      else d.entries u := by
  unfold loadFile
  by_cases hext : extension <:+ name
  · rcases hext with ⟨topic, hname⟩
    have htake : name.take (name.length - extension.length) = topic := by
      rw [← hname, List.length_append, Nat.add_sub_cancel, List.take_left]
    rw [if_pos ⟨topic, hname⟩]
    simp only [htake]
    have hsame : name = u ++ extension <-> u = topic := by
      rw [← hname, List.append_left_inj, eq_comm]
    simp only [hsame]
    by_cases hvalid : ValidTopic topic
    · rw [if_pos hvalid, entries_loadTopic]
      by_cases hu : u = topic
      · rw [hu]
        simp only [hvalid, true_and]
      · rw [if_neg (fun h => hu h.left), if_neg (fun h => hu h.left)]
    · rw [if_neg hvalid, if_neg]
      rintro ⟨hu, hvalid', _⟩
      exact hvalid (hu ▸ hvalid')
  · rw [if_neg hext, if_neg]
    rintro ⟨hname, _⟩
    exact hext ⟨u, hname.symm⟩

theorem entries_foldl_loadFile (names : List Bytes) (d : DLQ) (u : Bytes) :
    (names.foldl loadFile d).entries u =
      if u ++ extension ∈ names ∧ ValidTopic u ∧ d.stored u ≠ [] then
        d.stored u
      else d.entries u := by
  induction names generalizing d with
  | nil => simp
  | cons name names ih =>
  rcases files_loadFile d name with ⟨hfiles, hdir⟩
  rw [List.foldl_cons, ih, stored_congr hfiles hdir, entries_loadFile]
  have hmem : u ++ extension ∈ name :: names <->
      name = u ++ extension ∨ u ++ extension ∈ names := by
    rw [List.mem_cons, eq_comm]
  simp only [hmem]
  by_cases hloads : ValidTopic u ∧ d.stored u ≠ []
  · by_cases hname : name = u ++ extension
    · simp [hname, hloads]
    · simp [hname]
  · simp [hloads]

theorem mem_readDir {d : DLQ} {name : Bytes} {lines : List Line}
    (h : getEntry (d.dataDir ++ [name]) d.files = some lines) :
    name ∈ d.readDir := by
  unfold readDir
  apply List.mem_filterMap.mpr
  exists (d.dataDir ++ [name], lines)
  constructor
  · exact mem_of_getEntry h
  · simp

theorem entries_newDLQ (enabled : Bool) (d : DLQ) (u : Bytes) :
    (newDLQ enabled d.dataDir d.files).entries u =
      if ValidTopic u then d.stored u else [] := by
  let start : DLQ :=
    { enabled, dataDir := d.dataDir, queues := [], files := d.files }
  have hstored : start.stored u = d.stored u := stored_congr rfl rfl u
  change (start.readDir.foldl loadFile start).entries u = _
  rw [entries_foldl_loadFile, hstored]
  have hnone : start.entries u = [] := rfl
  rw [hnone]
  by_cases hvalid : ValidTopic u
  · rw [if_pos hvalid]
    by_cases hlisted : u ++ extension ∈ start.readDir
    · by_cases hempty : d.stored u = []
      · rw [hempty, ite_self]
      · rw [if_pos ⟨hlisted, hvalid, hempty⟩]
    rw [if_neg (fun h => hlisted h.left)]
    have hfile : getEntry (topicPath d.dataDir u) d.files = none := by
      cases hget : getEntry (topicPath d.dataDir u) d.files with
      | none => rfl
      | some lines =>
      rw [topicPath_of_validTopic hvalid] at hget
      exact absurd (@mem_readDir start _ _ hget) hlisted
    unfold stored linesAt
    rw [hfile]
    rfl
  · rw [if_neg hvalid, if_neg (fun h => hvalid h.right.left)]

theorem mirrors_iff_stored {d : DLQ} :
    d.Mirrors <->
      forall u, (if ValidTopic u then d.stored u else []) = d.entries u := by
  unfold Mirrors
  simp only [entries_newDLQ]

end DLQ
end DeadLetter
end ChimeraMQ
