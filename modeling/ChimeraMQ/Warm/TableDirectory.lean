import ChimeraMQ.Warm.TableStore

/-!
# The tables of a directory

What a tree finds when it is created over a directory: the tables of the
manifest, level by level.
-/

namespace ChimeraMQ
namespace Warm

open Foundation

namespace LSMDir

def tableAt (d : Disk) (level : Nat) (e : ManifestEntry) : Option SSTable :=
  if e.level = level then openSSTable d e.sstPath else none

def tablesAt (dir : LSMDir) (level : Nat) : List SSTable :=
  dir.manifest.filterMap (tableAt dir.disk level)

def paths (dir : LSMDir) : List (List Char) :=
  dir.manifest.map ManifestEntry.sstPath

/-- The manifest has different names of files that are tables. -/
structure Sound (dir : LSMDir) (sizing : BloomSizing) : Prop where
  nodup : dir.paths.Nodup
  opens : forall e, e ∈ dir.manifest ->
    exists sst, openSSTable dir.disk e.sstPath = some sst ∧
      Readable dir.disk sizing sst

end LSMDir

theorem openTable_fields {path : List Char} {file : Nat} {b : Bytes}
    {sst : SSTable} (hopen : openTable path file b = some sst) :
    sst.path = path ∧ sst.file = file ∧ sst.closed = false := by
  unfold openTable at hopen
  split at hopen
  · cases hopen
  simp only at hopen
  split at hopen
  · cases hopen
  split at hopen
  · cases hopen
    exact ⟨rfl, rfl, rfl⟩
  · cases hopen

theorem openSSTable_fields {d : Disk} {path : List Char} {sst : SSTable}
    (hopen : openSSTable d path = some sst) :
    sst.path = path ∧ d.lookup path = some sst.file ∧
      sst.closed = false := by
  unfold openSSTable at hopen
  cases hlookup : d.lookup path with
  | none =>
    rw [hlookup] at hopen
    cases hopen
  | some i =>
  rw [hlookup] at hopen
  rcases openTable_fields hopen with ⟨hpath, hfile, hclosed⟩
  rw [hfile]
  exact ⟨hpath, rfl, hclosed⟩

theorem foldl_loadEntry (d : Disk) (maxLevel : Nat)
    (entries : List ManifestEntry) (f : Nat -> List SSTable) :
    entries.foldl (loadEntry d) ((List.range maxLevel).map f) =
      (List.range maxLevel).map
        (fun level => f level ++ entries.filterMap (LSMDir.tableAt d level)) := by
  induction entries generalizing f with
  | nil => simp
  | cons e entries ih =>
  have hone : loadEntry d ((List.range maxLevel).map f) e =
      (List.range maxLevel).map
        (fun level => f level ++ (LSMDir.tableAt d level e).toList) := by
    unfold loadEntry
    apply List.ext_getElem?
    intro i
    by_cases hhigh : e.level ≥ ((List.range maxLevel).map f).length
    · rw [if_pos hhigh]
      rw [List.length_map, List.length_range] at hhigh
      by_cases hi : i < maxLevel
      · have hne : e.level ≠ i := by omega
        simp [hi, LSMDir.tableAt, hne]
      · simp [hi]
    rw [if_neg hhigh]
    cases hopen : openSSTable d e.sstPath with
    | none =>
      by_cases hi : i < maxLevel
      · simp [hi, LSMDir.tableAt, hopen]
      · simp [hi]
    | some sst =>
    simp only [List.getElem?_modify]
    by_cases hi : i < maxLevel
    · by_cases hlevel : e.level = i
      · simp [hi, LSMDir.tableAt, hlevel, hopen]
      · simp [hi, LSMDir.tableAt, hlevel]
    · simp [hi]
  rw [List.foldl_cons, hone, ih]
  apply List.map_congr_left
  intro level _
  rw [List.append_assoc, List.filterMap_cons]
  cases LSMDir.tableAt d level e <;> rfl

theorem loadLevels_eq (dir : LSMDir) (maxLevel : Nat) :
    loadLevels dir maxLevel = (List.range maxLevel).map dir.tablesAt := by
  have hstart : List.replicate maxLevel ([] : List SSTable) =
      (List.range maxLevel).map (fun _ => []) := by
    simp
  rw [loadLevels, hstart, foldl_loadEntry]
  rfl

namespace LSMDir

variable {dir : LSMDir} {sizing : BloomSizing}

variable {level : Nat} {sst : SSTable}

theorem mem_tablesAt :
    sst ∈ dir.tablesAt level <->
      exists e, e ∈ dir.manifest ∧ e.level = level ∧
        openSSTable dir.disk e.sstPath = some sst := by
  unfold tablesAt
  rw [List.mem_filterMap]
  constructor
  · intro h
    rcases h with ⟨e, he, hopen⟩
    unfold tableAt at hopen
    by_cases hlevel : e.level = level
    · rw [if_pos hlevel] at hopen
      exact ⟨e, he, hlevel, hopen⟩
    · rw [if_neg hlevel] at hopen
      cases hopen
  · intro h
    rcases h with ⟨e, he, hlevel, hopen⟩
    refine ⟨e, he, ?_⟩
    rw [tableAt, if_pos hlevel]
    exact hopen

theorem Sound.readable (h : dir.Sound sizing) (hsst : sst ∈ dir.tablesAt level) :
    Readable dir.disk sizing sst := by
  rcases mem_tablesAt.mp hsst with ⟨e, he, _, hopen⟩
  rcases h.opens e he with ⟨other, hother, hread⟩
  rw [hopen, Option.some.injEq] at hother
  rw [hother]
  exact hread

theorem Sound.map_path (h : dir.Sound sizing) (level : Nat) :
    (dir.tablesAt level).map SSTable.path =
      (dir.manifest.filter (fun e => e.level = level)).map
        ManifestEntry.sstPath := by
  have hall : forall entries : List ManifestEntry,
      (forall e, e ∈ entries -> exists sst,
        openSSTable dir.disk e.sstPath = some sst) ->
      (entries.filterMap (tableAt dir.disk level)).map SSTable.path =
        (entries.filter (fun e => e.level = level)).map
          ManifestEntry.sstPath := by
    intro entries
    induction entries with
    | nil => exact fun _ => rfl
    | cons e entries ih =>
    intro hopens
    have hrest := ih (fun x hx => hopens x (List.mem_cons_of_mem e hx))
    rcases hopens e (List.mem_cons_self ..) with ⟨sst, hopen⟩
    have hpath := (openSSTable_fields hopen).left
    by_cases hlevel : e.level = level
    · have htable : tableAt dir.disk level e = some sst := by
        rw [tableAt, if_pos hlevel]
        exact hopen
      rw [List.filterMap_cons_some htable,
        List.filter_cons_of_pos (by simpa using hlevel), List.map_cons,
        List.map_cons, hpath, hrest]
    · have htable : tableAt dir.disk level e = none := by
        rw [tableAt, if_neg hlevel]
      rw [List.filterMap_cons_none htable,
        List.filter_cons_of_neg (by simpa using hlevel), hrest]
  apply hall
  intro e he
  rcases h.opens e he with ⟨sst, hopen, _⟩
  exact ⟨sst, hopen⟩

theorem Sound.nodup_tablesAt (h : dir.Sound sizing) (level : Nat) :
    ((dir.tablesAt level).map SSTable.path).Nodup := by
  rw [h.map_path]
  exact (List.filter_sublist.map _).nodup h.nodup

theorem Sound.path_ne (h : dir.Sound sizing) {k : Nat} (hlevel : k ≠ level)
    {a b : SSTable} (ha : a ∈ dir.tablesAt k) (hb : b ∈ dir.tablesAt level) :
    a.path ≠ b.path := by
  rcases mem_tablesAt.mp ha with ⟨ea, hea, hka, hopena⟩
  rcases mem_tablesAt.mp hb with ⟨eb, heb, hkb, hopenb⟩
  intro heq
  rw [(openSSTable_fields hopena).left, (openSSTable_fields hopenb).left]
    at heq
  have hsame := List.inj_on_of_nodup_map h.nodup hea heb heq
  rw [← hka, ← hkb, hsame] at hlevel
  exact hlevel rfl

theorem path_mem (hsst : sst ∈ dir.tablesAt level) : sst.path ∈ dir.paths := by
  rcases mem_tablesAt.mp hsst with ⟨e, he, _, hopen⟩
  rw [(openSSTable_fields hopen).left]
  exact List.mem_map_of_mem he

variable {path : List Char}

theorem Sound.fresh (h : dir.Sound sizing) (hnone : dir.disk.lookup path = none) :
    path ∉ dir.paths := by
  intro hmem
  rcases List.mem_map.mp hmem with ⟨e, he, hpath⟩
  rcases h.opens e he with ⟨sst, hopen, _⟩
  rw [hpath, openSSTable, hnone] at hopen
  cases hopen

/-!
## Disks that agree on the tables
-/

def SameTables (dir : LSMDir) (d : Disk) : Prop :=
  dir.disk.Extends d ∧ forall path, path ∈ dir.paths ->
    openSSTable d path = openSSTable dir.disk path

variable {d : Disk}

theorem SameTables.sound (hsame : dir.SameTables d) (h : dir.Sound sizing) :
    ({ dir with disk := d } : LSMDir).Sound sizing where
  nodup := h.nodup
  opens := by
    intro e he
    rcases h.opens e he with ⟨sst, hopen, hread⟩
    refine ⟨sst, ?_, hread.extends hsame.left⟩
    rw [← hopen]
    exact hsame.right e.sstPath (List.mem_map_of_mem he)

theorem SameTables.tablesAt (hsame : dir.SameTables d) (level : Nat) :
    ({ dir with disk := d } : LSMDir).tablesAt level = dir.tablesAt level := by
  apply List.filterMap_congr
  intro e he
  unfold tableAt
  rw [hsame.right e.sstPath (List.mem_map_of_mem he)]

theorem openSSTable_extends {d' : Disk} (hext : d.Extends d')
    (hlookup : d'.lookup path = d.lookup path)
    (hopen : openSSTable d path = some sst) (hread : Readable d sizing sst) :
    openSSTable d' path = some sst := by
  rcases hread with ⟨entries, hholds, _⟩
  have hfile := (openSSTable_fields hopen).right.left
  rw [openSSTable, hfile] at hopen
  rw [openSSTable, hlookup, hfile]
  simp only at hopen ⊢
  rw [hext.right sst.file hholds.file_lt]
  exact hopen

variable (h : dir.Sound sizing)

include h

theorem Sound.sameTables (hext : dir.disk.Extends d)
    (hlookup : forall path, path ∈ dir.paths ->
      d.lookup path = dir.disk.lookup path) : dir.SameTables d := by
  refine ⟨hext, ?_⟩
  intro path hpath
  rcases List.mem_map.mp hpath with ⟨e, he, heq⟩
  rcases h.opens e he with ⟨sst, hopen, hread⟩
  rw [heq] at hopen
  rw [hopen]
  exact openSSTable_extends hext (hlookup path hpath) hopen hread

theorem Sound.sameTables_writeFile (hpath : path ∉ dir.paths) (b : Bytes) :
    dir.SameTables (dir.disk.writeFile path b) := by
  apply h.sameTables (Disk.extends_writeFile _ _ _)
  intro other hother
  apply Disk.lookup_writeFile_ne
  intro heq
  rw [heq] at hother
  exact hpath hother

theorem Sound.sameTables_remove (hpath : path ∉ dir.paths) : dir.SameTables
    (dir.disk.remove path) := by
  apply h.sameTables (Disk.extends_remove _ _)
  intro other hother
  apply Disk.lookup_remove_ne
  intro heq
  rw [heq] at hother
  exact hpath hother

/-!
## Effects on the manifest
-/

theorem Sound.add (hnew : sst.path ∉ dir.paths)
    (hopen : openSSTable dir.disk sst.path = some sst)
    (hread : Readable dir.disk sizing sst) (level : Nat) :
    (dir.add level sst).Sound sizing where
  nodup := by
    unfold paths LSMDir.add
    rw [List.map_append]
    refine List.nodup_append.mpr ⟨h.nodup, List.nodup_singleton _, ?_⟩
    intro a ha b hb heq
    rw [List.map_singleton, List.mem_singleton] at hb
    rw [heq, hb] at ha
    exact hnew ha
  opens := by
    intro e he
    rcases List.mem_append.mp he with hold | hlast
    · exact h.opens e hold
    · rw [List.mem_singleton.mp hlast]
      exact ⟨sst, hopen, hread⟩

omit h in
theorem tablesAt_add (hopen : openSSTable dir.disk sst.path = some sst)
    (level k : Nat) :
    (dir.add level sst).tablesAt k =
      if k = level then dir.tablesAt k ++ [sst] else dir.tablesAt k := by
  unfold tablesAt LSMDir.add
  rw [List.filterMap_append]
  by_cases hk : k = level
  · rw [if_pos hk]
    simp [tableAt, hk, hopen]
  · rw [if_neg hk]
    have hne : level ≠ k := fun h => hk h.symm
    simp [tableAt, hne]

theorem Sound.removeEntry (path : List Char) :
    (dir.removeEntry path).Sound sizing where
  nodup := (List.filter_sublist.map _).nodup h.nodup
  opens := fun e he => h.opens e (List.mem_of_mem_filter he)

omit h in
theorem not_mem_paths_removeEntry (dir : LSMDir) (path : List Char) :
    path ∉ (dir.removeEntry path).paths := by
  intro hmem
  rcases List.mem_map.mp hmem with ⟨e, he, hpath⟩
  have hne := List.of_mem_filter he
  simp [hpath] at hne

theorem Sound.tablesAt_removeEntry (path : List Char) (level : Nat) :
    (dir.removeEntry path).tablesAt level =
      (dir.tablesAt level).filter (fun sst => sst.path ≠ path) := by
  have hall : forall entries : List ManifestEntry,
      (forall e, e ∈ entries -> exists sst,
        openSSTable dir.disk e.sstPath = some sst) ->
      (entries.filter (fun e => e.sstPath ≠ path)).filterMap
          (tableAt dir.disk level) =
        (entries.filterMap (tableAt dir.disk level)).filter
          (fun sst => sst.path ≠ path) := by
    intro entries
    induction entries with
    | nil => exact fun _ => rfl
    | cons e entries ih =>
    intro hopens
    have hrest := ih (fun x hx => hopens x (List.mem_cons_of_mem e hx))
    rcases hopens e (List.mem_cons_self ..) with ⟨sst, hopen⟩
    have hpath := (openSSTable_fields hopen).left
    by_cases hlevel : e.level = level
    · have htable : tableAt dir.disk level e = some sst := by
        rw [tableAt, if_pos hlevel]
        exact hopen
      rw [List.filterMap_cons_some htable]
      by_cases hne : e.sstPath = path
      · rw [List.filter_cons_of_neg (by simpa using hne),
          List.filter_cons_of_neg (by simpa [hpath] using hne), hrest]
      · rw [List.filter_cons_of_pos (by simpa using hne),
          List.filter_cons_of_pos (by simpa [hpath] using hne),
          List.filterMap_cons_some htable, hrest]
    · have htable : tableAt dir.disk level e = none := by
        rw [tableAt, if_neg hlevel]
      rw [List.filterMap_cons_none htable]
      by_cases hne : e.sstPath = path
      · rw [List.filter_cons_of_neg (by simpa using hne), hrest]
      · rw [List.filter_cons_of_pos (by simpa using hne),
          List.filterMap_cons_none htable, hrest]
  apply hall
  intro e he
  rcases h.opens e he with ⟨sst, hopen, _⟩
  exact ⟨sst, hopen⟩

theorem Sound.removeTable (sst : SSTable) :
    (removeTable dir sst).Sound sizing ∧
      forall level, (removeTable dir sst).tablesAt level =
        (dir.tablesAt level).filter (fun t => t.path ≠ sst.path) := by
  have hentry := h.removeEntry sst.path
  have hsame := hentry.sameTables_remove
    (not_mem_paths_removeEntry dir sst.path)
  refine ⟨hsame.sound hentry, ?_⟩
  intro level
  rw [← h.tablesAt_removeEntry]
  exact hsame.tablesAt level

omit h in
theorem paths_removeTable_subset (dir : LSMDir) (sst : SSTable) :
    (Warm.removeTable dir sst).paths ⊆ dir.paths := by
  intro path hpath
  rcases List.mem_map.mp hpath with ⟨e, he, heq⟩
  exact List.mem_map.mpr ⟨e, List.mem_of_mem_filter he, heq⟩

theorem Sound.foldl_removeTable (tables : List SSTable) :
    (tables.foldl Warm.removeTable dir).Sound sizing ∧
      forall level, (tables.foldl Warm.removeTable dir).tablesAt level =
        (dir.tablesAt level).filter
          (fun t => t.path ∉ tables.map SSTable.path) := by
  induction tables generalizing dir with
  | nil =>
    refine ⟨h, ?_⟩
    intro level
    simp
  | cons sst tables ih =>
  have hone := h.removeTable sst
  rcases ih hone.left with ⟨hsound, htables⟩
  refine ⟨hsound, ?_⟩
  intro level
  rw [List.foldl_cons, htables level, hone.right level, List.filter_filter]
  apply List.filter_congr
  intro t _
  by_cases hpath : t.path = sst.path <;> simp [hpath]

omit h

theorem paths_foldl_removeTable_subset (tables : List SSTable)
    (dir : LSMDir) : (tables.foldl Warm.removeTable dir).paths ⊆ dir.paths := by
  induction tables generalizing dir with
  | nil => exact List.Subset.refl _
  | cons sst tables ih =>
    exact List.Subset.trans (ih _) (paths_removeTable_subset dir sst)

theorem lookup_foldl_removeTable {tables : List SSTable}
    (hpath : path ∉ tables.map SSTable.path) (dir : LSMDir) :
    (tables.foldl Warm.removeTable dir).disk.lookup path =
      dir.disk.lookup path := by
  induction tables generalizing dir with
  | nil => rfl
  | cons sst tables ih =>
  rw [List.map_cons, List.mem_cons, not_or] at hpath
  rw [List.foldl_cons, ih hpath.right]
  exact Disk.lookup_remove_ne dir.disk hpath.left

theorem extends_foldl_removeTable (tables : List SSTable) (dir : LSMDir) :
    dir.disk.Extends (tables.foldl Warm.removeTable dir).disk := by
  induction tables generalizing dir with
  | nil => exact Disk.Extends.refl _
  | cons sst tables ih =>
  exact (Disk.extends_remove dir.disk sst.path).trans
    (ih (Warm.removeTable dir sst))

theorem filter_not_mem_take {α β : Type} [BEq β] [LawfulBEq β] {f : α -> β}
    {xs : List α} (h : (xs.map f).Nodup) (j : Nat) :
    xs.filter (fun x => f x ∉ (xs.map f).take j) = xs.drop j := by
  induction xs generalizing j with
  | nil => simp
  | cons x xs ih =>
  rw [List.map_cons, List.nodup_cons] at h
  cases j with
  | zero => simp
  | succ j =>
  rw [List.map_cons, List.take_succ_cons, List.drop_succ_cons,
    ← ih h.right j, List.filter_cons_of_neg (by simp)]
  apply List.filter_congr
  intro y hy
  have hne : f y ≠ f x := by
    intro heq
    apply h.left
    rw [← heq]
    exact List.mem_map_of_mem hy
  simp [hne]

theorem Sound.filter_take (h : dir.Sound sizing) {tables : List SSTable}
    (htables : tables.map SSTable.path =
      (dir.tablesAt 0).map SSTable.path) (j level : Nat) :
    (dir.tablesAt level).filter
        (fun t => t.path ∉ (tables.take j).map SSTable.path) =
      if level = 0 then (dir.tablesAt 0).drop j else dir.tablesAt level := by
  rw [List.map_take, htables]
  by_cases hlevel : level = 0
  · rw [if_pos hlevel, hlevel]
    exact filter_not_mem_take (h.nodup_tablesAt 0) j
  rw [if_neg hlevel, List.filter_eq_self]
  intro t ht
  rw [decide_eq_true_eq]
  intro hmem
  rcases List.mem_map.mp (List.mem_of_mem_take hmem) with ⟨other, hother, heq⟩
  exact h.path_ne (fun h0 => hlevel h0.symm) hother ht heq

theorem length_removalDirs (dir : LSMDir) (tables : List SSTable) :
    (removalDirs dir tables).length = 2 * tables.length := by
  induction tables generalizing dir with
  | nil => rfl
  | cons sst tables ih =>
  rw [removalDirs, List.length_cons, List.length_cons, ih,
    List.length_cons]
  omega

theorem Sound.removalDirs (h : dir.Sound sizing) (tables : List SSTable)
    {i : Nat} {d : LSMDir} (hd : (removalDirs dir tables)[i]? = some d) :
    d.Sound sizing ∧ dir.disk.Extends d.disk ∧ i / 2 < tables.length ∧
      forall level, d.tablesAt level = (dir.tablesAt level).filter
        (fun t => t.path ∉ (tables.take (i / 2 + 1)).map SSTable.path) := by
  induction tables generalizing dir i with
  | nil => simp [Warm.removalDirs] at hd
  | cons sst tables ih =>
  rw [Warm.removalDirs] at hd
  have hone := h.removeTable sst
  match i with
  | 0 =>
    cases hd
    refine ⟨h.removeEntry sst.path, Disk.Extends.refl _,
      Nat.succ_pos _, ?_⟩
    intro level
    rw [h.tablesAt_removeEntry]
    simp
  | 1 =>
    cases hd
    refine ⟨hone.left, Disk.extends_remove _ _, Nat.succ_pos _, ?_⟩
    intro level
    rw [hone.right]
    simp
  | i + 2 =>
  rcases ih hone.left hd with ⟨hsound, hext, hlt, htables⟩
  refine ⟨hsound, (Disk.extends_remove _ _).trans hext, ?_, ?_⟩
  · rw [List.length_cons]
    omega
  intro level
  have hhalf : (i + 2) / 2 + 1 = i / 2 + 1 + 1 := by omega
  rw [htables, hone.right, List.filter_filter, hhalf,
    List.take_succ_cons]
  apply List.filter_congr
  intro t _
  by_cases hpath : t.path = sst.path <;> simp [hpath]

end LSMDir

end Warm
end ChimeraMQ
