import ChimeraMQ.Warm.LSMTree
import ChimeraMQ.Warm.TableLookup

/-!
# Tables on disk

A table that was written keeps what it holds while other files come and go, and
a merge of tables holds what the tables hold, the newest first.
-/

namespace ChimeraMQ
namespace Warm

open Foundation

/-!
## Tables that hold their entries
-/

structure Holds (d : Disk) (sizing : BloomSizing) (sst : SSTable)
    (entries : List MemTableEntry) : Prop where
  file_lt : sst.file < d.files.length
  content : d.content sst.file = tableBytes sizing entries
  sorted : SortedTable entries
  fits : TableFits sizing entries
  table : sst = tableOf sizing sst.path sst.file entries

def Blank (r : Bytes × Bool) : Prop :=
  r.2 = true -> r.1 = []

def Readable (d : Disk) (sizing : BloomSizing) (sst : SSTable) : Prop :=
  exists entries, Holds d sizing sst entries ∧
    forall key r, lookup entries key = some r -> Blank r

variable {d d' : Disk} {sizing : BloomSizing} {sst : SSTable}
  {entries : List MemTableEntry}

theorem Holds.extends (h : Holds d sizing sst entries) (hext : d.Extends d') :
    Holds d' sizing sst entries where
  file_lt := Nat.lt_of_lt_of_le h.file_lt hext.left
  content := by
    rw [hext.right _ h.file_lt]
    exact h.content
  sorted := h.sorted
  fits := h.fits
  table := h.table

theorem Readable.extends (h : Readable d sizing sst) (hext : d.Extends d') :
    Readable d' sizing sst := by
  rcases h with ⟨entries, hholds, hblank⟩
  exact ⟨entries, hholds.extends hext, hblank⟩

theorem Holds.getFrom (h : Holds d sizing sst entries) (key : Bytes) :
    getFrom d key sst = lookup entries key := by
  have hget := get_tableOf h.sorted h.fits sst.path sst.file key
  rw [← h.table, ← h.content] at hget
  unfold Warm.getFrom
  by_cases hrange : sst.keyRangeMayContain key = true
  · rw [if_pos hrange]
    exact hget
  rw [if_neg hrange]
  cases hlookup : lookup entries key with
  | none => rfl
  | some r =>
  have hmay := keyRangeMayContain_tableOf sizing sst.path sst.file hlookup
  rw [← h.table] at hmay
  exact absurd hmay hrange

theorem Readable.getFrom_extends (h : Readable d sizing sst)
    (hext : d.Extends d') (key : Bytes) :
    getFrom d' key sst = getFrom d key sst := by
  rcases h with ⟨entries, hholds, _⟩
  rw [hholds.getFrom, (hholds.extends hext).getFrom]

theorem Readable.blank (h : Readable d sizing sst) {key : Bytes}
    {r : Bytes × Bool} (hget : getFrom d key sst = some r) : Blank r := by
  rcases h with ⟨entries, hholds, hblank⟩
  rw [hholds.getFrom] at hget
  exact hblank key r hget

theorem Holds.maxOffset_lt (h : Holds d sizing sst entries) :
    sst.maxOffset < 2 ^ 64 := by
  rw [h.table]
  cases entries with
  | nil => exact Nat.two_pow_pos 64
  | cons first rest => exact (offsetRange_lt (first :: rest)).right

theorem Readable.maxOffset_lt (h : Readable d sizing sst) :
    sst.maxOffset < 2 ^ 64 := by
  rcases h with ⟨entries, hholds, _⟩
  exact hholds.maxOffset_lt

theorem findSome?_congr {α β : Type} {f g : α -> Option β} {xs : List α}
    (h : forall x, x ∈ xs -> f x = g x) : xs.findSome? f = xs.findSome? g := by
  induction xs with
  | nil => rfl
  | cons x xs ih =>
  rw [List.findSome?_cons, List.findSome?_cons, h x (List.mem_cons_self ..),
    ih (fun y hy => h y (List.mem_cons_of_mem x hy))]

theorem getFromLevel_extends {level : List SSTable}
    (h : forall sst, sst ∈ level -> Readable d sizing sst) (hext : d.Extends d')
    (key : Bytes) :
    getFromLevel d' key level = getFromLevel d key level := by
  unfold getFromLevel
  apply findSome?_congr
  intro sst hsst
  exact (h sst (List.mem_reverse.mp hsst)).getFrom_extends hext key

theorem path_tableOf (sizing : BloomSizing) (path : List Char) (file : Nat)
    (entries : List MemTableEntry) :
    (tableOf sizing path file entries).path = path ∧
      (tableOf sizing path file entries).file = file := by
  cases entries <;> exact ⟨rfl, rfl⟩

theorem holds_writeFile (hsorted : SortedTable entries)
    (hfits : TableFits sizing entries) (d : Disk) (path : List Char) :
    exists sst,
      openSSTable (d.writeFile path (tableBytes sizing entries)) path =
        some sst ∧
      sst.path = path ∧ sst.file = d.files.length ∧
      Holds (d.writeFile path (tableBytes sizing entries)) sizing sst
        entries := by
  have hpath := path_tableOf sizing path d.files.length entries
  refine ⟨tableOf sizing path d.files.length entries, ?_, hpath.left,
    hpath.right, ?_⟩
  · unfold openSSTable
    rw [Disk.lookup_writeFile_self]
    simp only [Disk.content_writeFile_self]
    exact openTable_tableBytes hfits path d.files.length
  constructor
  · rw [hpath.right]
    simp [Disk.writeFile, Disk.addFile, Disk.remove]
  · rw [hpath.right]
    exact Disk.content_writeFile_self d path _
  · exact hsorted
  · exact hfits
  · rw [hpath.left, hpath.right]

/-!
## Merging
-/

theorem getEntry_filterMap_range (f : Nat -> Option (Bytes × Bool))
    (start count off : Nat) :
    getEntry off ((List.range' start count).filterMap
        (fun i => (f i).map (fun r => (i, r)))) =
      if start ≤ off ∧ off < start + count then f off else none := by
  induction count generalizing start with
  | zero =>
    have hnot : ¬ (start ≤ off ∧ off < start + 0) := by omega
    rw [if_neg hnot]
    rfl
  | succ count ih =>
  rw [List.range'_succ, List.filterMap_cons]
  by_cases hoff : off = start
  · subst hoff
    rw [if_pos ⟨Nat.le_refl _, by omega⟩]
    cases hf : f off with
    | none =>
      simp only [Option.map_none]
      rw [ih, if_neg (by omega)]
    | some r =>
    simp only [Option.map_some]
    exact getEntry_cons_self off r _
  have hrest : getEntry off ((List.range' (start + 1) count).filterMap
      (fun i => (f i).map (fun r => (i, r)))) =
      if start ≤ off ∧ off < start + (count + 1) then f off
      else none := by
    rw [ih]
    by_cases hin : start ≤ off ∧ off < start + (count + 1)
    · rw [if_pos hin, if_pos (by omega)]
    · rw [if_neg hin, if_neg (by omega)]
  cases hf : f start with
  | none =>
    simp only [Option.map_none]
    exact hrest
  | some r =>
  simp only [Option.map_some]
  rw [← hrest]
  exact getEntry_cons_ne (fun h => hoff h.symm) _

theorem getEntry_collectEntries {found : List (Nat × (Bytes × Bool))}
    (hfound : collectEntries d sst = some found) {off : Nat}
    (hoff : off < 2 ^ 64) :
    getEntry off found = getFrom d (be 8 off) sst := by
  unfold collectEntries at hfound
  by_cases hend : sst.maxOffset + 1 = 2 ^ 64
  · rw [if_pos hend] at hfound
    cases hfound
  rw [if_neg hend, Option.some.injEq] at hfound
  have hkey : ofBe (be 8 off) = off := ofBe_be_of_lt hoff
  have hrange := getEntry_filterMap_range
    (fun off => sst.get (d.content sst.file) (be 8 off)) sst.minOffset
    (sst.maxOffset + 1 - sst.minOffset) off
  rw [hfound] at hrange
  rw [hrange, getFrom, SSTable.keyRangeMayContain, length_be, hkey]
  by_cases hin : off ≥ sst.minOffset ∧ off ≤ sst.maxOffset
  · rw [if_pos (by omega)]
    simp [hin]
  · rw [if_neg (by omega)]
    simp [hin]

theorem nodup_keys_filterMap_range (f : Nat -> Option (Bytes × Bool))
    (start count : Nat) :
    (((List.range' start count).filterMap
      (fun i => (f i).map (fun r => (i, r)))).map Prod.fst).Nodup := by
  rw [List.map_filterMap]
  apply List.Nodup.filterMap _ (List.nodup_range')
  intro i j b hi hj
  rw [Option.mem_def, Option.map_map, Option.map_eq_some_iff] at hi hj
  rcases hi with ⟨x, _, hx⟩
  rcases hj with ⟨y, _, hy⟩
  exact hx.trans hy.symm

theorem nodup_collectEntries {found : List (Nat × (Bytes × Bool))}
    (hfound : collectEntries d sst = some found) :
    (found.map Prod.fst).Nodup := by
  unfold collectEntries at hfound
  by_cases hend : sst.maxOffset + 1 = 2 ^ 64
  · rw [if_pos hend] at hfound
    cases hfound
  · rw [if_neg hend, Option.some.injEq] at hfound
    rw [← hfound]
    exact nodup_keys_filterMap_range _ _ _

theorem offset_lt_of_mem_collectEntries {found : List (Nat × (Bytes × Bool))}
    (hmax : sst.maxOffset < 2 ^ 64) (hfound : collectEntries d sst = some found)
    {e : Nat × (Bytes × Bool)} (he : e ∈ found) : e.1 < 2 ^ 64 := by
  unfold collectEntries at hfound
  split at hfound
  · cases hfound
  rw [Option.some.injEq] at hfound
  rw [← hfound] at he
  rcases List.mem_filterMap.mp he with ⟨off, hoff, hentry⟩
  rcases Option.map_eq_some_iff.mp hentry with ⟨r, _, hr⟩
  rcases List.mem_range'_1.mp hoff with ⟨_, hlt⟩
  rw [← hr]
  simp only
  omega

variable {tables : List SSTable} {start merged : List (Nat × (Bytes × Bool))}

theorem mergeTables_cons_some
    (hmerged : mergeTables d start (sst :: tables) = some merged) :
    exists found, collectEntries d sst = some found ∧
      mergeTables d (found.foldl (fun m e => setEntry e.1 e.2 m) start)
        tables = some merged := by
  rw [mergeTables] at hmerged
  cases hfound : collectEntries d sst with
  | none =>
    rw [hfound] at hmerged
    cases hmerged
  | some found =>
  rw [hfound] at hmerged
  exact ⟨found, rfl, hmerged⟩

theorem getEntry_mergeTables
    (hmerged : mergeTables d start tables = some merged) {off : Nat}
    (hoff : off < 2 ^ 64) :
    getEntry off merged =
      (getFromLevel d (be 8 off) tables).or (getEntry off start) := by
  induction tables generalizing start with
  | nil =>
    cases hmerged
    rfl
  | cons sst tables ih =>
  rcases mergeTables_cons_some hmerged with ⟨found, hfound, hrest⟩
  have hset : getEntry off
      (found.foldl (fun m e => setEntry e.1 e.2 m) start) =
      (getEntry off found).or (getEntry off start) := by
    have hset := getEntry_foldl_setEntry id
      (nodup_collectEntries hfound) off start
    rw [Option.map_id_apply] at hset
    exact hset
  rw [ih hrest, hset, getEntry_collectEntries hfound hoff]
  unfold getFromLevel
  rw [List.reverse_cons, List.findSome?_append, Option.or_assoc]
  simp [List.findSome?_cons]
  cases getFrom d (be 8 off) sst <;> rfl

theorem nodup_mergeTables (hmerged : mergeTables d start tables = some merged)
    (hstart : (start.map Prod.fst).Nodup) : (merged.map Prod.fst).Nodup := by
  induction tables generalizing start with
  | nil =>
    cases hmerged
    exact hstart
  | cons sst tables ih =>
  rcases mergeTables_cons_some hmerged with ⟨found, _, hrest⟩
  exact ih hrest (nodup_keys_foldl_setEntry found hstart)

theorem offset_lt_of_mem_mergeTables
    (hmerged : mergeTables d start tables = some merged)
    (hstart : forall e, e ∈ start -> e.1 < 2 ^ 64)
    (hranges : forall sst, sst ∈ tables -> sst.maxOffset < 2 ^ 64) :
    forall e, e ∈ merged -> e.1 < 2 ^ 64 := by
  induction tables generalizing start with
  | nil =>
    cases hmerged
    exact hstart
  | cons sst tables ih =>
  rcases mergeTables_cons_some hmerged with ⟨found, hfound, hrest⟩
  apply ih hrest
  · intro e he
    rcases mem_foldl_setEntry he with hnew | hold
    · exact offset_lt_of_mem_collectEntries
        (hranges sst (List.mem_cons_self ..)) hfound hnew
    · exact hstart e hold
  · exact fun s hs => hranges s (List.mem_cons_of_mem sst hs)

/-!
## The memtable of a merge
-/

theorem be_eight_inj {a b : Nat} (ha : a < 2 ^ 64) (hb : b < 2 ^ 64)
    (h : be 8 a = be 8 b) : a = b := by
  have hvalue := congrArg ofBe h
  rwa [ofBe_be_of_lt ha, ofBe_be_of_lt hb] at hvalue

variable {mt : MemTable}

theorem frozen_putMerged (hopen : mt.frozen = false) (now : Nat)
    (e : Nat × (Bytes × Bool)) : (putMerged now mt e).frozen = false := by
  unfold putMerged MemTable.put MemTable.delete
  simp only [hopen, Bool.false_eq_true, if_false, Option.getD_some]
  split <;> exact hopen

theorem ordered_putMerged (h : mt.Ordered) (now : Nat)
    (e : Nat × (Bytes × Bool)) : (putMerged now mt e).Ordered := by
  unfold putMerged
  split
  · cases hdelete : mt.delete (be 8 e.1) now with
    | none => exact h
    | some mt' => exact h.delete hdelete
  · cases hput : mt.put (be 8 e.1) e.2.1 now with
    | none => exact h
    | some mt' => exact h.put hput

theorem get_putMerged (h : mt.Ordered) (hopen : mt.frozen = false) (now : Nat)
    (e : Nat × (Bytes × Bool)) (key : Bytes) :
    (putMerged now mt e).get key =
      if key = be 8 e.1 then some (if e.2.2 then [] else e.2.1, e.2.2)
      else mt.get key := by
  unfold putMerged
  cases hdeleted : e.2.2 with
  | true =>
    cases hdelete : mt.delete (be 8 e.1) now with
    | none => simp [MemTable.delete, hopen] at hdelete
    | some mt' =>
    simp only [if_true, Option.getD_some]
    exact MemTable.get_delete h hdelete key
  | false =>
  cases hput : mt.put (be 8 e.1) e.2.1 now with
  | none => simp [MemTable.put, hopen] at hput
  | some mt' =>
  simp only [Bool.false_eq_true, if_false, Option.getD_some]
  exact MemTable.get_put h hput key

theorem blank_value {r : Bytes × Bool} (h : Blank r) :
    (if r.2 then [] else r.1, r.2) = r := by
  rcases r with ⟨value, deleted⟩
  cases deleted with
  | true => rw [Prod.mk.injEq]; exact ⟨(h rfl).symm, rfl⟩
  | false => rfl

theorem foldl_putMerged {entries : List (Nat × (Bytes × Bool))} (now : Nat)
    (h : mt.Ordered) (hopen : mt.frozen = false)
    (hoffs : forall e, e ∈ entries -> e.1 < 2 ^ 64)
    (hblank : forall e, e ∈ entries -> Blank e.2)
    (hkeys : (entries.map Prod.fst).Nodup) :
    (entries.foldl (putMerged now) mt).Ordered ∧
      forall off, off < 2 ^ 64 ->
        (entries.foldl (putMerged now) mt).get (be 8 off) =
          (getEntry off entries).or (mt.get (be 8 off)) := by
  induction entries generalizing mt with
  | nil => exact ⟨h, fun _ _ => rfl⟩
  | cons e entries ih =>
  rw [List.map_cons, List.nodup_cons] at hkeys
  rcases ih (ordered_putMerged h now e) (frozen_putMerged hopen now e)
    (fun x hx => hoffs x (List.mem_cons_of_mem e hx))
    (fun x hx => hblank x (List.mem_cons_of_mem e hx)) hkeys.right with
    ⟨hordered, hall⟩
  refine ⟨hordered, ?_⟩
  intro off hoff
  rw [List.foldl_cons, hall off hoff, get_putMerged h hopen]
  by_cases hkey : off = e.1
  · have hnone : getEntry off entries = none := by
      apply getEntry_of_not_mem
      rw [hkey]
      exact hkeys.left
    have hvalue := blank_value (hblank e (List.mem_cons_self ..))
    have hfirst : getEntry off (e :: entries) = some e.2 := by
      rw [hkey]
      exact getEntry_cons_self e.1 e.2 entries
    rw [hnone, Option.none_or, if_pos (by rw [hkey]), hvalue, hfirst]
    rfl
  · have hne : be 8 off ≠ be 8 e.1 := by
      intro heq
      exact hkey (be_eight_inj hoff (hoffs e (List.mem_cons_self ..)) heq)
    rw [if_neg hne, getEntry_cons_ne (fun heq => hkey heq.symm)]

/-!
## Memtables on their way to disk
-/

/-- A memtable is a search tree whose tombstones have no value. -/
structure MemTable.Sound (mt : MemTable) : Prop where
  ordered : mt.Ordered
  blank : forall key r, mt.get key = some r -> Blank r

namespace MemTable

theorem sound_newMemTable (capacity : Int) : (newMemTable capacity).Sound where
  ordered := ordered_newMemTable capacity
  blank := by
    intro key r h
    cases h

theorem Sound.put {mt' : MemTable} (h : mt.Sound) {key value : Bytes}
    {now : Nat} (hput : mt.put key value now = some mt') : mt'.Sound where
  ordered := h.ordered.put hput
  blank := by
    intro j r hget
    rw [get_put h.ordered hput] at hget
    by_cases hj : j = key
    · rw [if_pos hj, Option.some.injEq] at hget
      rw [← hget]
      intro hfalse
      cases hfalse
    · rw [if_neg hj] at hget
      exact h.blank j r hget

theorem Sound.delete {mt' : MemTable} (h : mt.Sound) {key : Bytes} {now : Nat}
    (hdelete : mt.delete key now = some mt') : mt'.Sound where
  ordered := h.ordered.delete hdelete
  blank := by
    intro j r hget
    rw [get_delete h.ordered hdelete] at hget
    by_cases hj : j = key
    · rw [if_pos hj, Option.some.injEq] at hget
      rw [← hget]
      exact fun _ => rfl
    · rw [if_neg hj] at hget
      exact h.blank j r hget

theorem Sound.freeze (h : mt.Sound) : mt.freeze.Sound where
  ordered := h.ordered
  blank := h.blank

theorem Sound.putMerged (h : mt.Sound) (now : Nat) (e : Nat × (Bytes × Bool)) :
    (putMerged now mt e).Sound := by
  unfold Warm.putMerged
  split
  · cases hdelete : mt.delete (be 8 e.1) now with
    | none => exact h
    | some mt' => exact h.delete hdelete
  · cases hput : mt.put (be 8 e.1) e.2.1 now with
    | none => exact h
    | some mt' => exact h.put hput

end MemTable

theorem readable_writeFile (hmt : mt.Sound)
    (hfits : TableFits sizing mt.entries) (d : Disk) (path : List Char) :
    exists sst,
      openSSTable (d.writeFile path (tableBytes sizing mt.entries)) path =
        some sst ∧
      sst.path = path ∧
      Readable (d.writeFile path (tableBytes sizing mt.entries)) sizing sst ∧
      forall key, getFrom (d.writeFile path (tableBytes sizing mt.entries))
        key sst = mt.get key := by
  rcases holds_writeFile hmt.ordered.sortedTable hfits d path with
    ⟨sst, hopen, hpath, _, hholds⟩
  refine ⟨sst, hopen, hpath, ⟨mt.entries, hholds, ?_⟩, ?_⟩
  · intro key r hlookup
    rw [← MemTable.get_eq_lookup hmt.ordered] at hlookup
    exact hmt.blank key r hlookup
  · intro key
    rw [hholds.getFrom, MemTable.get_eq_lookup hmt.ordered]

theorem sound_mergedTable (order : List (Nat × (Bytes × Bool))) (now : Nat) :
    (mergedTable order now).Sound := by
  have hsound : forall (xs : List (Nat × (Bytes × Bool))) (mt : MemTable),
      mt.Sound -> (xs.foldl (putMerged now) mt).Sound := by
    intro xs
    induction xs with
    | nil => exact fun mt h => h
    | cons e xs ih => exact fun mt h => ih _ (h.putMerged now e)
  exact hsound order _ (MemTable.sound_newMemTable _)

theorem get_mergedTable {order : List (Nat × (Bytes × Bool))}
    (hread : forall sst, sst ∈ tables -> Readable d sizing sst)
    (hmerged : mergeTables d [] tables = some merged)
    (horder : order.Perm merged) (now : Nat) {key : Bytes}
    (hkey : key.length = 8) :
    (mergedTable order now).get key = getFromLevel d key tables := by
  have hkeys := nodup_mergeTables hmerged List.nodup_nil
  have hfrom : forall off, off < 2 ^ 64 ->
      getEntry off merged = getFromLevel d (be 8 off) tables := by
    intro off hoff
    rw [getEntry_mergeTables hmerged hoff]
    exact Option.or_none
  have hoffs : forall e, e ∈ order -> e.1 < 2 ^ 64 :=
    fun e he => offset_lt_of_mem_mergeTables hmerged
      (by intro x hx; cases hx)
      (fun sst hsst => (hread sst hsst).maxOffset_lt) e (horder.mem_iff.mp he)
  have hblank : forall e, e ∈ order -> Blank e.2 := by
    intro e he
    have hget := getEntry_of_mem hkeys (horder.mem_iff.mp he)
    rw [hfrom e.1 (hoffs e he)] at hget
    rcases List.exists_of_findSome?_eq_some hget with ⟨sst, hsst, hvalue⟩
    exact (hread sst (List.mem_reverse.mp hsst)).blank hvalue
  have horderKeys : (order.map Prod.fst).Nodup :=
    (horder.map Prod.fst).nodup_iff.mpr hkeys
  have hoff := ofBe_lt key
  rw [hkey] at hoff
  have hbytes := be_ofBe key
  rw [hkey] at hbytes
  have hget := (foldl_putMerged now
    (MemTable.ordered_newMemTable ((order.length : Int) * 256)) rfl hoffs
    hblank horderKeys).right (ofBe key) hoff
  rw [hbytes, getEntry_perm horder hkeys, hfrom _ hoff, hbytes] at hget
  rw [mergedTable, hget]
  exact Option.or_none

end Warm
end ChimeraMQ
