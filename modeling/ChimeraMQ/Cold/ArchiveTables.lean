import ChimeraMQ.Cold.ArchiveReads
import ChimeraMQ.Warm.LSMTables

/-!
# Archives of tables

An archive made of tables gives for an offset what the newest of the tables
does, except that a deleted offset gives no bytes.
-/

namespace ChimeraMQ
namespace Cold

open Foundation
open Warm

structure Covers (range : Nat × Nat) (tables : List SSTable) : Prop where
  within : forall t, t ∈ tables ->
    range.1 ≤ t.minOffset ∧ t.maxOffset ≤ range.2
  reached : exists t, t ∈ tables ∧ t.maxOffset = range.2

theorem Covers.add {range : Nat × Nat} {tables : List SSTable}
    (h : Covers range tables) (t : SSTable) :
    Covers (if t.minOffset < range.1 then t.minOffset else range.1,
      if t.maxOffset > range.2 then t.maxOffset else range.2)
      (tables ++ [t]) where
  within := by
    intro x hx
    simp only
    rcases List.mem_append.mp hx with hold | hnew
    · have hin := h.within x hold
      constructor
      · split <;> omega
      · split <;> omega
    rw [List.mem_singleton.mp hnew]
    constructor
    · split <;> omega
    · split <;> omega
  reached := by
    by_cases hmax : t.maxOffset > range.2
    · refine ⟨t, List.mem_append_right _ (List.mem_singleton_self t), ?_⟩
      simp only [if_pos hmax]
    rcases h.reached with ⟨x, hx, heq⟩
    refine ⟨x, List.mem_append_left _ hx, ?_⟩
    simp only [if_neg hmax]
    exact heq

theorem covers_foldl {range : Nat × Nat} {tables rest : List SSTable}
    (h : Covers range tables) :
    Covers (rest.foldl
        (fun r t =>
          (if t.minOffset < r.1 then t.minOffset else r.1,
            if t.maxOffset > r.2 then t.maxOffset else r.2)) range)
      (tables ++ rest) := by
  induction rest generalizing range tables with
  | nil =>
    rw [List.append_nil]
    exact h
  | cons t rest ih =>
  have hnext := ih (h.add t)
  rw [List.append_assoc] at hnext
  exact hnext

theorem covers_tablesRange {tables : List SSTable} (hne : tables ≠ []) :
    Covers (tablesRange tables) tables := by
  cases tables with
  | nil => exact absurd rfl hne
  | cons t rest =>
  have hfirst : Covers (t.minOffset, t.maxOffset) [t] :=
    { within := by
        intro x hx
        rw [List.mem_singleton.mp hx]
        exact ⟨Nat.le_refl _, Nat.le_refl _⟩
      reached := ⟨t, List.mem_singleton_self t, rfl⟩ }
  exact covers_foldl hfirst

theorem entriesBetween_concat {minOff maxOff : Nat} (hle : minOff ≤ maxOff)
    {all : List ArchiveEntry} {r : Bytes × Bool}
    (hget : getEntry maxOff all = some r) :
    exists front, entriesBetween minOff maxOff all =
      front ++ [(maxOff, r)] := by
  have hcount : maxOff + 1 - minOff = (maxOff - minOff) + 1 := by omega
  have hlast : minOff + (maxOff - minOff) = maxOff := by omega
  unfold entriesBetween
  rw [hcount, List.range'_1_concat, hlast, List.filterMap_append]
  have htail : [maxOff].filterMap
      (fun off => (getEntry off all).map (fun r => (off, r))) =
        [(maxOff, r)] := by
    rw [List.filterMap_cons, hget]
    rfl
  rw [htail]
  exact ⟨_, rfl⟩

/-- The archive that tables make is small enough for its index. -/
def BatchFits (warm : Disk) (batch : List SSTable) : Prop :=
  match mergeTables warm [] batch with
  | none => True
  | some all =>
    ArchiveFits (tablesRange batch).2
      (entriesBetween (tablesRange batch).1 (tablesRange batch).2 all)

instance (warm : Disk) (batch : List SSTable) :
    Decidable (BatchFits warm batch) := by
  unfold BatchFits
  split
  · exact isTrue trivial
  · infer_instance

variable {d : Disk}

theorem getFrom_outside {sst : SSTable} {offset : Nat}
    (hoffset : offset < 2 ^ 64)
    (hout : ¬ (sst.minOffset ≤ offset ∧ offset ≤ sst.maxOffset)) :
    getFrom d (be 8 offset) sst = none := by
  have hkey : ofBe (be 8 offset) = offset := ofBe_be_of_lt hoffset
  unfold getFrom SSTable.keyRangeMayContain
  rw [length_be, hkey]
  simp [hout]

def lookIn (content : Bytes) (ca : ColdArchive) (offset : Nat) :
    Option Bytes :=
  if offset ≥ ca.minOff ∧ offset ≤ ca.maxOff then ca.get content offset
  else none

theorem lookIn_eq (content : Bytes) (ca : ColdArchive) (offset : Nat) :
    lookIn content ca offset = ca.get content offset := by
  unfold lookIn ColdArchive.get
  by_cases hrange : offset < ca.minOff ∨ offset > ca.maxOff
  · rw [if_neg (by omega), if_pos hrange]
  · rw [if_pos (by omega)]

/-- A new archive is in a file of its own and holds the newest entries. -/
structure Archived (d : Disk) (path : List Char) (warm : Disk)
    (batch : List SSTable) (d' : Disk) (ca : ColdArchive) : Prop where
  file : ca.file = d.files.length
  disk : exists b, d' = d.addFile path b
  holds : forall offset, offset < 2 ^ 64 ->
    lookIn (d'.content ca.file) ca offset =
      (getFromLevel warm (be 8 offset) batch).map answer

theorem create_setContent {path : List Char} (hfresh : d.lookup path = none)
    (b : Bytes) :
    (d.create path).1.setContent (d.create path).2 b = d.addFile path b := by
  have hcreate : d.openCreate path = (d.addFile path [], d.files.length) :=
    Disk.openCreate_of_lookup_none hfresh
  unfold Disk.create
  rw [hcreate]
  simp only
  rw [Disk.setContent_addFile, Disk.setContent_addFile]

theorem openColdArchive_addFile {path : List Char}
    (hfresh : d.lookup path = none) (b : Bytes) :
    openColdArchive (d.addFile path b) path =
      openArchive path d.files.length b := by
  unfold openColdArchive
  rw [Disk.lookup_addFile hfresh]
  simp only [Disk.content_addFile]

theorem openArchive_tables {warm : Disk} {batch : List SSTable}
    (hne : batch ≠ [])
    (hbounds : forall t, t ∈ batch -> t.maxOffset < 2 ^ 64)
    (hanchored : forall t, t ∈ batch -> Anchored warm t)
    {all : List ArchiveEntry} (hmerged : mergeTables warm [] batch = some all)
    (hfits : ArchiveFits (tablesRange batch).2
      (entriesBetween (tablesRange batch).1 (tablesRange batch).2 all)) :
    all.length ≠ 0 ∧ forall path file, exists ca,
      openArchive path file (archiveBytes (tablesRange batch).1
        (tablesRange batch).2 (entriesBetween (tablesRange batch).1
          (tablesRange batch).2 all)) = .ok ca ∧
      ca.file = file ∧ forall offset, offset < 2 ^ 64 ->
        lookIn (archiveBytes (tablesRange batch).1 (tablesRange batch).2
            (entriesBetween (tablesRange batch).1 (tablesRange batch).2 all))
            ca offset =
          (getFromLevel warm (be 8 offset) batch).map answer := by
  have hcovers := covers_tablesRange hne
  have hget : forall offset, offset < 2 ^ 64 -> getEntry offset all =
      getFromLevel warm (be 8 offset) batch := by
    intro offset hoffset
    rw [getEntry_mergeTables hmerged hoffset]
    exact Option.or_none
  rcases hcovers.reached with ⟨t, ht, hmax⟩
  have hlt := hbounds t ht
  have hminle := (hanchored t ht).minOffset_le hlt
  have hin := hcovers.within t ht
  have hsome : getEntry (tablesRange batch).2 all ≠ none := by
    rw [← hmax, hget _ hlt]
    intro hnone
    exact hanchored t ht (List.findSome?_eq_none_iff.mp hnone t
      (List.mem_reverse.mpr ht))
  rcases Option.ne_none_iff_exists'.mp hsome with ⟨r, hr⟩
  constructor
  · intro hzero
    rw [List.eq_nil_of_length_eq_zero hzero] at hr
    cases hr
  intro path file
  rcases entriesBetween_concat
    (show (tablesRange batch).1 ≤ (tablesRange batch).2 by omega) hr with
    ⟨front, hfront⟩
  have hoffs : forall e, e ∈ front ++ [((tablesRange batch).2, r)] ->
      e.1 < 2 ^ 64 := by
    intro e he
    rw [← hfront] at he
    rcases List.mem_filterMap.mp he with ⟨off, hoff, hentry⟩
    rcases Option.map_eq_some_iff.mp hentry with ⟨x, _, hx⟩
    rcases List.mem_range'_1.mp hoff with ⟨_, hless⟩
    rw [← hx]
    simp only
    omega
  simp only [hfront] at hfits ⊢
  rcases openArchive_holds (show (tablesRange batch).1 < 2 ^ 64 by omega)
    hoffs hfits path file with ⟨hopen, hanswers⟩
  refine ⟨_, hopen, rfl, ?_⟩
  intro offset hoffset
  rw [lookIn_eq, hanswers]
  by_cases hrange : (tablesRange batch).1 ≤ offset ∧
      offset ≤ (tablesRange batch).2
  · have hentry := getEntry_filterMap_range (fun off => getEntry off all)
      (tablesRange batch).1
      ((tablesRange batch).2 + 1 - (tablesRange batch).1) offset
    rw [if_pos (by omega)] at hentry
    rw [if_pos hrange, ← hfront, entriesBetween, hentry, hget offset hoffset]
  have hnone : getFromLevel warm (be 8 offset) batch = none := by
    apply List.findSome?_eq_none_iff.mpr
    intro x hx
    have hxin := hcovers.within x (List.mem_reverse.mp hx)
    apply getFrom_outside hoffset
    omega
  rw [hnone, if_neg hrange]
  rfl

theorem createColdArchive_holds {path : List Char} {warm : Disk}
    {sizing : BloomSizing} {batch : List SSTable} (hne : batch ≠ [])
    (hread : forall t, t ∈ batch -> Readable warm sizing t)
    (hanchored : forall t, t ∈ batch -> Anchored warm t)
    (hfits : BatchFits warm batch) (hfresh : d.lookup path = none)
    {result : Disk × Except ArchiveError ColdArchive}
    (hmake : createColdArchive d path warm batch = some result) :
    exists ca, result.2 = .ok ca ∧ Archived d path warm batch result.1 ca := by
  unfold createColdArchive at hmake
  rw [if_neg (by simpa using hne)] at hmake
  unfold BatchFits at hfits
  cases hmerged : mergeTables warm [] batch with
  | none =>
    rw [hmerged] at hmake
    cases hmake
  | some all =>
  rw [hmerged] at hmake hfits
  rcases openArchive_tables hne (fun t ht => (hread t ht).maxOffset_lt)
    hanchored hmerged hfits with ⟨hnonempty, hopens⟩
  rcases hopens path d.files.length with ⟨ca, hopen, hfile, hanswers⟩
  simp only [if_neg hnonempty, Option.some.injEq] at hmake
  simp only [create_setContent hfresh, openColdArchive_addFile hfresh]
    at hmake
  have hdisk := congrArg Prod.fst hmake
  have hresult := congrArg Prod.snd hmake
  simp only at hdisk hresult
  refine ⟨ca, ?_, hfile, ⟨_, hdisk.symm⟩, ?_⟩
  · rw [← hresult]
    exact hopen
  · intro offset hoffset
    rw [hfile, ← hdisk, Disk.content_addFile]
    exact hanswers offset hoffset

end Cold
end ChimeraMQ
