import ChimeraMQ.Warm.LSMReads

/-!
# What a merge of level 0 does to reads

A merge goes through the offsets of the tables of level 0, so it keeps the keys
of eight bytes.  A key of another length is kept only if it is read from
somewhere else.
-/

namespace ChimeraMQ
namespace Warm

open Foundation

theorem foldl_putMerged_of_length_ne (now : Nat) {key : Bytes}
    (hkey : key.length ≠ 8) (entries : List (Nat × (Bytes × Bool)))
    {mt : MemTable} (h : mt.Ordered) (hopen : mt.frozen = false) :
    (entries.foldl (putMerged now) mt).get key = mt.get key := by
  induction entries generalizing mt with
  | nil => rfl
  | cons e entries ih =>
  have hne : key ≠ be 8 e.1 := by
    intro heq
    rw [heq] at hkey
    exact hkey (length_be 8 e.1)
  rw [List.foldl_cons,
    ih (ordered_putMerged h now e) (frozen_putMerged hopen now e),
    get_putMerged h hopen, if_neg hne]

theorem get_mergedTable_of_length_ne (order : List (Nat × (Bytes × Bool)))
    (now : Nat) {key : Bytes} (hkey : key.length ≠ 8) :
    (mergedTable order now).get key = none := by
  unfold mergedTable
  rw [foldl_putMerged_of_length_ne now hkey order
    (MemTable.ordered_newMemTable _) rfl]
  rfl

theorem mergeTables_isSome_iff (d : Disk) (tables : List SSTable)
    (start : List (Nat × (Bytes × Bool))) :
    (exists merged, mergeTables d start tables = some merged) <->
      forall sst, sst ∈ tables -> sst.maxOffset + 1 ≠ 2 ^ 64 := by
  induction tables generalizing start with
  | nil =>
    constructor
    · intro _ sst hsst
      cases hsst
    · intro _
      exact ⟨start, rfl⟩
  | cons sst tables ih =>
  rw [mergeTables, collectEntries]
  by_cases hend : sst.maxOffset + 1 = 2 ^ 64
  · rw [if_pos hend]
    constructor
    · rintro ⟨merged, hmerged⟩
      cases hmerged
    · intro hall
      exact absurd hend (hall sst (List.mem_cons_self ..))
  rw [if_neg hend]
  constructor
  · intro hmerged x hx
    rcases List.mem_cons.mp hx with hfirst | hrest
    · rw [hfirst]
      exact hend
    · exact (ih _).mp hmerged x hrest
  · intro hall
    exact (ih _).mpr (fun x hx => hall x (List.mem_cons_of_mem sst hx))

namespace LSMTree

variable {lsm lsm' : LSMTree}

theorem exists_compactL0 {l0 l1 : List SSTable} {deeper : List (List SSTable)}
    (hlevels : lsm.levels = l0 :: l1 :: deeper) (hfour : 4 ≤ l0.length)
    (hmerges : lsm.merges ≠ 0) {order : List (Nat × (Bytes × Bool))}
    {now : Nat}
    (hfits : TableFits lsm.config.sizing (mergedTable order now).entries)
    {merged : List (Nat × (Bytes × Bool))}
    (hmerged : mergeTables lsm.dir.disk [] l0 = some merged)
    (horder : order.Perm merged) :
    exists lsm', lsm.compactL0 order now = some lsm' := by
  have hmerge : exists m, lsm.mergeL0 order now = some m := by
    unfold mergeL0
    rw [hlevels]
    simp only [hmerged, if_pos horder]
    exact ⟨_, rfl⟩
  rcases hmerge with ⟨m, hm⟩
  rcases mergeL0_spec hlevels hfits hm with ⟨_, sst, _, _, _, htable, _⟩
  unfold compactL0
  rw [if_neg hmerges, hlevels]
  simp only [if_neg (Nat.not_lt.mpr hfour), hm, htable]
  exact ⟨_, rfl⟩

theorem tablesGet_compactL0_of_length_ne (h : lsm.Sound)
    {l0 l1 : List SSTable} {deeper : List (List SSTable)}
    (hlevels : lsm.levels = l0 :: l1 :: deeper) (hfour : 4 ≤ l0.length)
    {order : List (Nat × (Bytes × Bool))} {now : Nat}
    (hfits : TablesFit lsm (.compactL0 order now))
    (hstep : lsm.compactL0 order now = some lsm') {key : Bytes}
    (hkey : key.length ≠ 8) :
    lsm'.tablesGet key =
      (l1 :: deeper).findSome? (getFromLevel lsm.dir.disk key) := by
  rcases compactL0_of_fits hfits hstep with ⟨l0', rest, hlevels', hfew | hmany⟩
  · rw [hlevels, List.cons.injEq] at hlevels'
    rw [← hlevels'.left] at hfew
    exact absurd hfew.left (Nat.not_lt.mpr hfour)
  rw [hlevels, List.cons.injEq] at hlevels'
  rcases hlevels' with ⟨hfirst, hlater⟩
  subst hfirst hlater
  rcases hmany with ⟨_, m, sst, l1', deeper', hmerge, htable, hrest, hlsm⟩
  rw [List.cons.injEq] at hrest
  rcases hrest with ⟨hl1, hdeeper⟩
  subst hl1 hdeeper
  rcases mergeL0_spec hlevels hfits hmerge with
    ⟨_, sst', _, _, _, htable', _, hdir, _, hread, hget⟩
  rw [htable, Option.some.injEq] at htable'
  subst htable'
  have hwritten : lsm.dir.disk.Extends m.dir.disk := by
    rw [hdir]
    exact Disk.extends_writeFile _ _ _
  have hremoved := LSMDir.extends_foldl_removeTable l0 m.dir
  have hext := hwritten.trans hremoved
  have hall := h.levels
  rw [hlevels] at hall
  have hnew : getFrom (l0.foldl removeTable m.dir).disk key sst = none := by
    rw [hread.getFrom_extends hremoved, hget]
    exact get_mergedTable_of_length_ne order now hkey
  have hsame : forall level, level ∈ l1 :: deeper ->
      getFromLevel (l0.foldl removeTable m.dir).disk key level =
        getFromLevel lsm.dir.disk key level := by
    intro level hlevel
    exact getFromLevel_extends
      (hall level (List.mem_cons_of_mem l0 hlevel)) hext key
  have hl1 : getFromLevel (l0.foldl removeTable m.dir).disk key
      (l1 ++ [sst]) = getFromLevel lsm.dir.disk key l1 := by
    rw [← hsame l1 (List.mem_cons_self ..)]
    unfold getFromLevel
    rw [List.reverse_append, List.findSome?_append]
    simp only [List.reverse_singleton, List.findSome?_cons,
      List.findSome?_nil, hnew]
    rfl
  rw [hlsm]
  change ([] :: (l1 ++ [sst]) :: deeper).findSome?
    (getFromLevel (l0.foldl removeTable m.dir).disk key) = _
  have hnil : getFromLevel (l0.foldl removeTable m.dir).disk key [] =
    none := rfl
  rw [List.findSome?_cons, hnil, List.findSome?_cons, List.findSome?_cons,
    hl1]
  simp only
  rw [findSome?_congr (fun level hlevel =>
    hsame level (List.mem_cons_of_mem l1 hlevel))]

theorem memoryGet_compactL0 {order : List (Nat × (Bytes × Bool))} {now : Nat}
    (hfits : TablesFit lsm (.compactL0 order now))
    (hstep : lsm.compactL0 order now = some lsm') (key : Bytes) :
    lsm'.memoryGet key = lsm.memoryGet key := by
  rcases compactL0_of_fits hfits hstep with ⟨l0, rest, hlevels, hfew | hmany⟩
  · rw [hfew.right]
    rfl
  · rcases hmany with ⟨_, m, sst, l1, deeper, _, _, _, hlsm⟩
    rw [hlsm]
    rfl

/--
No table ends at the largest offset, there is a level to merge into, and what
has no offset is in memory or the same in a deeper level.
-/
structure MergeKeeps (lsm : LSMTree)
    (tables : List (SSTable × List MemTableEntry))
    (deeper : List (List SSTable)) : Prop where
  ends : forall t, t ∈ tables -> t.1.maxOffset + 1 ≠ 2 ^ 64
  level1 : deeper ≠ []
  elsewhere : forall t, t ∈ tables -> forall e, e ∈ t.2 -> e.key.length ≠ 8 ->
    lsm.memoryGet e.key ≠ none ∨
      deeper.findSome? (getFromLevel lsm.dir.disk e.key) =
        getFromLevel lsm.dir.disk e.key (tables.map Prod.fst)

instance (lsm : LSMTree) (tables : List (SSTable × List MemTableEntry))
    (deeper : List (List SSTable)) : Decidable (MergeKeeps lsm tables deeper) :=
  decidable_of_iff
    ((forall t, t ∈ tables -> t.1.maxOffset + 1 ≠ 2 ^ 64) ∧ deeper ≠ [] ∧
      forall t, t ∈ tables -> forall e, e ∈ t.2 -> e.key.length ≠ 8 ->
        lsm.memoryGet e.key ≠ none ∨
          deeper.findSome? (getFromLevel lsm.dir.disk e.key) =
            getFromLevel lsm.dir.disk e.key (tables.map Prod.fst))
    ⟨fun h => ⟨h.left, h.right.left, h.right.right⟩,
      fun h => ⟨h.ends, h.level1, h.elsewhere⟩⟩

theorem exists_of_getFromLevel
    {tables : List (SSTable × List MemTableEntry)}
    (hholds : forall t, t ∈ tables ->
      Holds lsm.dir.disk lsm.config.sizing t.1 t.2) {key : Bytes}
    {r : Bytes × Bool}
    (hget : getFromLevel lsm.dir.disk key (tables.map Prod.fst) = some r) :
    exists t e, t ∈ tables ∧ e ∈ t.2 ∧ e.key = key := by
  rcases List.exists_of_findSome?_eq_some hget with ⟨sst, hsst, hfrom⟩
  rcases List.mem_map.mp (List.mem_reverse.mp hsst) with ⟨t, ht, hsame⟩
  rw [← hsame, (hholds t ht).getFrom] at hfrom
  rcases mem_of_lookup hfrom with ⟨e, he, hkey⟩
  exact ⟨t, e, ht, he, hkey⟩

theorem getFromLevel_ne_none
    {tables : List (SSTable × List MemTableEntry)}
    (hholds : forall t, t ∈ tables ->
      Holds lsm.dir.disk lsm.config.sizing t.1 t.2)
    {t : SSTable × List MemTableEntry} (ht : t ∈ tables) {e : MemTableEntry}
    (he : e ∈ t.2) :
    getFromLevel lsm.dir.disk e.key (tables.map Prod.fst) ≠ none := by
  intro hnone
  have hfrom := List.findSome?_eq_none_iff.mp hnone t.1
    (List.mem_reverse.mpr (List.mem_map.mpr ⟨t, ht, rfl⟩))
  rw [(hholds t ht).getFrom, lookup, Option.map_eq_none_iff,
    List.find?_eq_none] at hfrom
  exact hfrom e he (by simp)

theorem or_eq_right_iff {α : Type} (memory upper lower : Option α) :
    memory.or lower = memory.or (upper.or lower) <->
      upper = none ∨ memory ≠ none ∨ lower = upper := by
  cases memory with
  | some m => simp
  | none =>
  cases upper with
  | none => simp
  | some u => simp

/--
A merge of level 0 that returns gives every key what it had, exactly if level 0
has only offsets, or what can be read elsewhere.
-/
theorem get_compactL0_iff (h : lsm.Sound)
    {tables : List (SSTable × List MemTableEntry)}
    (hholds : forall t, t ∈ tables ->
      Holds lsm.dir.disk lsm.config.sizing t.1 t.2)
    {deeper : List (List SSTable)}
    (hlevels : lsm.levels = tables.map Prod.fst :: deeper)
    (hfour : 4 ≤ tables.length) (hmerges : lsm.merges ≠ 0)
    {order : List (Nat × (Bytes × Bool))} {now : Nat}
    (horder : forall merged, mergeTables lsm.dir.disk []
      (tables.map Prod.fst) = some merged -> order.Perm merged)
    (hfits : TablesFit lsm (.compactL0 order now)) :
    (exists lsm', lsm.compactL0 order now = some lsm' ∧
      forall key, lsm'.get key = lsm.get key) <->
        MergeKeeps lsm tables deeper := by
  have hlong : 4 ≤ (tables.map Prod.fst).length := by
    rw [List.length_map]
    exact hfour
  cases deeper with
  | nil =>
    constructor
    · rintro ⟨lsm', hstep, _⟩
      rcases compactL0_of_fits hfits hstep with
        ⟨l0, rest, hlevels', hfew | hmany⟩
      · rw [hlevels, List.cons.injEq] at hlevels'
        rw [← hlevels'.left] at hfew
        exact absurd hfew.left (Nat.not_lt.mpr hlong)
      · rcases hmany with ⟨_, m, sst, l1, deeper, _, _, hrest, _⟩
        rw [hlevels, List.cons.injEq, hrest] at hlevels'
        cases hlevels'.right
    · intro hkeeps
      exact absurd rfl hkeeps.level1
  | cons l1 deeper =>
  have hsplit : forall key, lsm.get key = (lsm.memoryGet key).or
      ((getFromLevel lsm.dir.disk key (tables.map Prod.fst)).or
        ((l1 :: deeper).findSome? (getFromLevel lsm.dir.disk key))) := by
    intro key
    rw [lsm.get_eq, tablesGet, hlevels, List.findSome?_cons]
    cases getFromLevel lsm.dir.disk key (tables.map Prod.fst) <;> rfl
  have hafter : forall lsm', lsm.compactL0 order now = some lsm' ->
      forall key, key.length ≠ 8 ->
        lsm'.get key = (lsm.memoryGet key).or
          ((l1 :: deeper).findSome? (getFromLevel lsm.dir.disk key)) := by
    intro lsm' hstep key hkey
    rw [lsm'.get_eq, memoryGet_compactL0 hfits hstep,
      tablesGet_compactL0_of_length_ne h hlevels hlong hfits hstep hkey]
  constructor
  · rintro ⟨lsm', hstep, hsame⟩
    constructor
    · intro t ht
      rcases compactL0_cases hstep with
        ⟨l0, rest, hlevels', hfew | hmany⟩
      · rw [hlevels, List.cons.injEq] at hlevels'
        rw [← hlevels'.left] at hfew
        exact absurd hfew.left (Nat.not_lt.mpr hlong)
      rcases hmany with ⟨_, m, hmerge, _⟩
      rcases mergeL0_spec hlevels hfits hmerge with ⟨merged, _, hfound, _⟩
      exact (mergeTables_isSome_iff _ _ _).mp ⟨merged, hfound⟩ t.1
        (List.mem_map.mpr ⟨t, ht, rfl⟩)
    · exact List.cons_ne_nil l1 deeper
    · intro t ht e he hkey
      have hone := hsame e.key
      rw [hafter lsm' hstep e.key hkey, hsplit, or_eq_right_iff] at hone
      exact hone.resolve_left (getFromLevel_ne_none hholds ht he)
  intro hkeeps
  have hends : exists merged, mergeTables lsm.dir.disk []
      (tables.map Prod.fst) = some merged := by
    apply (mergeTables_isSome_iff _ _ _).mpr
    intro sst hsst
    rcases List.mem_map.mp hsst with ⟨t, ht, hsame⟩
    rw [← hsame]
    exact hkeeps.ends t ht
  rcases hends with ⟨merged, hmerged⟩
  rcases exists_compactL0 hlevels hlong hmerges hfits hmerged
    (horder merged hmerged) with ⟨lsm', hstep⟩
  refine ⟨lsm', hstep, ?_⟩
  intro key
  by_cases hkey : key.length = 8
  · rw [lsm'.get_eq, memoryGet_compactL0 hfits hstep,
      (h.compactL0 hfits hstep).right key hkey, lsm.get_eq]
  rw [hafter lsm' hstep key hkey, hsplit, or_eq_right_iff]
  cases hget : getFromLevel lsm.dir.disk key (tables.map Prod.fst) with
  | none => exact Or.inl rfl
  | some r =>
  rcases exists_of_getFromLevel hholds hget with
    ⟨t, e, ht, he, hsame⟩
  rw [← hget, ← hsame]
  rw [← hsame] at hkey
  exact Or.inr (hkeeps.elsewhere t ht e he hkey)

/--
What level 0 has under a key that is no offset is in memory or in the flush
under way as well, or a deeper level has the same.
-/
def MergeSpares (lsm : LSMTree) : Prop :=
  forall l0 deeper, lsm.levels = l0 :: deeper -> 4 ≤ l0.length ->
    forall key, key.length ≠ 8 ->
      getFromLevel lsm.dir.disk key l0 = none ∨
        (lsm.memoryGet key).or (lsm.flushGet key) ≠ none ∨
        deeper.findSome? (getFromLevel lsm.dir.disk key) =
          getFromLevel lsm.dir.disk key l0

theorem flushGet_compactL0 (h : lsm.Sound)
    {order : List (Nat × (Bytes × Bool))} {now : Nat}
    (hfits : TablesFit lsm (.compactL0 order now))
    (hstep : lsm.compactL0 order now = some lsm') (key : Bytes) :
    lsm'.flushGet key = lsm.flushGet key := by
  rcases compactL0_of_fits hfits hstep with ⟨l0, rest, hlevels, hfew | hmany⟩
  · rw [hfew.right]
    rfl
  rcases hmany with ⟨_, m, _, _, _, hmerge, _, _, hlsm⟩
  rcases mergeL0_spec hlevels hfits hmerge with
    ⟨_, _, _, _, _, _, _, hdir, _⟩
  apply h.flushGet_extends (by rw [hlsm])
  rw [hlsm]
  exact Disk.Extends.trans (hdir ▸ Disk.extends_writeFile _ _ _)
    (LSMDir.extends_foldl_removeTable l0 m.dir)

theorem holds_compactL0_iff (h : lsm.Sound)
    {order : List (Nat × (Bytes × Bool))} {now : Nat}
    (hfits : TablesFit lsm (.compactL0 order now))
    (hstep : lsm.compactL0 order now = some lsm') :
    (forall key, lsm'.holds key = lsm.holds key) <-> lsm.MergeSpares := by
  rcases compactL0_of_fits hfits hstep with ⟨l0, rest, hlevels, hfew | hmany⟩
  · rcases hfew with ⟨hfew, hsame⟩
    constructor
    · intro _ l0' rest' hlevels' hfour
      rw [hlevels, List.cons.injEq] at hlevels'
      rw [← hlevels'.left] at hfour
      exact absurd hfew (Nat.not_lt.mpr hfour)
    · intro _ key
      rw [hsame]
      rfl
  rcases hmany with ⟨hfour, _, _, l1, deeper, _, _, hrest, _⟩
  subst hrest
  -- only a key that is no offset depends on where else it is found
  have hother : forall key, key.length ≠ 8 ->
      (lsm'.holds key = lsm.holds key <->
        getFromLevel lsm.dir.disk key l0 = none ∨
          (lsm.memoryGet key).or (lsm.flushGet key) ≠ none ∨
          (l1 :: deeper).findSome? (getFromLevel lsm.dir.disk key) =
            getFromLevel lsm.dir.disk key l0) := by
    intro key hkey
    have hsplit : lsm.tablesGet key =
        (getFromLevel lsm.dir.disk key l0).or
          ((l1 :: deeper).findSome? (getFromLevel lsm.dir.disk key)) := by
      rw [tablesGet, hlevels, List.findSome?_cons]
      cases getFromLevel lsm.dir.disk key l0 <;> rfl
    rw [LSMTree.holds, LSMTree.holds, memoryGet_compactL0 hfits hstep,
      flushGet_compactL0 h hfits hstep,
      tablesGet_compactL0_of_length_ne h hlevels hfour hfits hstep hkey,
      hsplit, ← Option.or_assoc, ← Option.or_assoc]
    exact or_eq_right_iff _ _ _
  constructor
  · intro hsame l0' rest' hlevels' _ key hkey
    rw [hlevels, List.cons.injEq] at hlevels'
    rw [← hlevels'.left, ← hlevels'.right]
    exact (hother key hkey).mp (hsame key)
  intro hspares key
  by_cases hkey : key.length = 8
  · exact (h.compactL0 hfits hstep).left.holds key hkey
  · exact (hother key hkey).mpr
      (hspares l0 (l1 :: deeper) hlevels hfour key hkey)

end LSMTree

/-!
## Four tables
-/

def flushed (key : Bytes) (value : UInt8) (now : Nat) : List LSMAction :=
  [.put key [value] now, .takeImmutable, .writeImmutable (now + 1),
    .installTable]

def mixedKeys : List LSMAction :=
  flushed (be 8 5) 1 10 ++ flushed (be 8 6) 2 20 ++ flushed [97] 3 30 ++
    flushed (be 8 5) 4 40 ++ [.put [97] [9] 50]

def tableNumbered (seq now : Nat) (e : MemTableEntry) :
    SSTable × List MemTableEntry :=
  (tableOf tinyConfig.sizing (tempSSTPath seq now) (seq - 1) [e], [e])

def mixedTables : List (SSTable × List MemTableEntry) :=
  [tableNumbered 1 11 ⟨be 8 5, [1], 10, false⟩,
    tableNumbered 2 21 ⟨be 8 6, [2], 20, false⟩,
    tableNumbered 3 31 ⟨[97], [3], 30, false⟩,
    tableNumbered 4 41 ⟨be 8 5, [4], 40, false⟩]

def mixedMerged : List (Nat × (Bytes × Bool)) :=
  [(5, ([4], false)), (6, ([2], false))]

instance decidableSortedTable (entries : List MemTableEntry) :
    Decidable (SortedTable entries) := by
  unfold SortedTable
  exact inferInstance

instance decidableHolds (d : Disk) (sizing : BloomSizing) (sst : SSTable)
    (entries : List MemTableEntry) : Decidable (Holds d sizing sst entries) :=
  decidable_of_iff (sst.file < d.files.length ∧
      d.content sst.file = tableBytes sizing entries ∧
      SortedTable entries ∧ TableFits sizing entries ∧
      sst = tableOf sizing sst.path sst.file entries)
    ⟨fun h => ⟨h.left, h.right.left, h.right.right.left,
        h.right.right.right.left, h.right.right.right.right⟩,
      fun h => ⟨h.file_lt, h.content, h.sorted, h.fits, h.table⟩⟩

def MixedTree (lsm : LSMTree) : Prop :=
  (forall t, t ∈ mixedTables ->
    Holds lsm.dir.disk lsm.config.sizing t.1 t.2) ∧
  lsm.levels = mixedTables.map Prod.fst :: List.replicate 6 [] ∧
  lsm.merges ≠ 0 ∧
  mergeTables lsm.dir.disk [] (mixedTables.map Prod.fst) = some mixedMerged ∧
  TablesFit lsm (.compactL0 mixedMerged 60) ∧
  LSMTree.MergeKeeps lsm mixedTables (List.replicate 6 [])

instance (lsm : LSMTree) : Decidable (MixedTree lsm) :=
  inferInstanceAs (Decidable (_ ∧ _ ∧ _ ∧ _ ∧ _ ∧ _))

theorem get_compactL0_mixedKeys :
    exists lsm, run? LSMTree.step (newLSMTree .empty tinyConfig 0) mixedKeys =
        some lsm ∧
      exists lsm', lsm.compactL0 mixedMerged 60 = some lsm' ∧
        forall key, lsm'.get key = lsm.get key := by
  have hcheck : (run? LSMTree.step (newLSMTree .empty tinyConfig 0)
      mixedKeys).map (fun lsm => decide (MixedTree lsm)) = some true := by
    decide +kernel
  rcases Option.map_eq_some_iff.mp hcheck with ⟨lsm, hrun, hmixed⟩
  rcases of_decide_eq_true hmixed with
    ⟨hholds, hlevels, hmerges, hmerged, hfits, hkeeps⟩
  have hsound := (keepsLatest_run
    (by decide : forall a, a ∈ mixedKeys -> a.Runs)
    (by decide +kernel) hrun).left
  refine ⟨lsm, hrun, ?_⟩
  apply (LSMTree.get_compactL0_iff hsound hholds hlevels (by decide) hmerges _
    hfits).mpr hkeeps
  intro merged hsame
  rw [hmerged, Option.some.injEq] at hsame
  rw [hsame]

/-- A key that is no offset is gone after the merge. -/
theorem get_compactL0_loses :
    exists lsm lsm', run? LSMTree.step (newLSMTree .empty tinyConfig 0)
        (flushed [97] 1 10 ++ flushed [97] 2 20 ++ flushed [97] 3 30 ++
          flushed [97] 4 40) = some lsm ∧
      lsm.compactL0 [] 50 = some lsm' ∧
      lsm.get [97] = some ([4], false) ∧ lsm'.get [97] = none := by
  have hcheck : (run? LSMTree.step (newLSMTree .empty tinyConfig 0)
      (flushed [97] 1 10 ++ flushed [97] 2 20 ++ flushed [97] 3 30 ++
        flushed [97] 4 40)).map (fun lsm => (lsm.get [97],
          (lsm.compactL0 [] 50).map (fun lsm' => lsm'.get [97]))) =
        some (some ([4], false), some none) := by
    decide +kernel
  rcases Option.map_eq_some_iff.mp hcheck with ⟨lsm, hrun, hvalues⟩
  rcases Prod.mk.inj hvalues with ⟨hbefore, hafter⟩
  rcases Option.map_eq_some_iff.mp hafter with ⟨lsm', hstep, hnone⟩
  exact ⟨lsm, lsm', hrun, hstep, hbefore, hnone⟩

end Warm
end ChimeraMQ
