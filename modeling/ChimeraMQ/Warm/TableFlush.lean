import ChimeraMQ.Warm.TableLookup

/-!
# Flushing

A memtable that is written to a table and opened again gives for every key what
the memtable gives.  The number of bits of the filter is rounded up to whole
words in 32 bits; from `2 ^ 32 - 63` bits on it becomes zero, and adding the
first key divides by it.
-/

namespace ChimeraMQ
namespace Warm

open Foundation
open MemTable

inductive MemTableAction where
  | put (key value : Bytes) (now : Nat)
  | delete (key : Bytes) (now : Nat)
  | freeze
deriving DecidableEq

namespace MemTable

def apply (mt : MemTable) : MemTableAction -> MemTable
  | .put key value now => (mt.put key value now).getD mt
  | .delete key now => (mt.delete key now).getD mt
  | .freeze => mt.freeze

def filled (capacity : Int) (actions : List MemTableAction) : MemTable :=
  actions.foldl apply (newMemTable capacity)

theorem ordered_apply {mt : MemTable} (h : mt.Ordered)
    (action : MemTableAction) : (mt.apply action).Ordered := by
  cases action with
  | put key value now =>
    rw [MemTable.apply]
    cases hput : mt.put key value now with
    | none => exact h
    | some mt' => exact h.put hput
  | delete key now =>
    rw [MemTable.apply]
    cases hdelete : mt.delete key now with
    | none => exact h
    | some mt' => exact h.delete hdelete
  | freeze => exact h

theorem ordered_foldl_apply {mt : MemTable} (h : mt.Ordered)
    (actions : List MemTableAction) : (actions.foldl apply mt).Ordered := by
  induction actions generalizing mt with
  | nil => exact h
  | cons action actions ih => exact ih (ordered_apply h action)

theorem ordered_filled (capacity : Int) (actions : List MemTableAction) :
    (filled capacity actions).Ordered :=
  ordered_foldl_apply (ordered_newMemTable capacity) actions

end MemTable

/-!
## Tables
-/

/--
Write the entries of a memtable to a table.  Adding a key to a filter without
bits divides by zero.
-/
def flushMemTable (sizing : BloomSizing) (mt : MemTable) : Option Bytes :=
  match mt.entries with
  | [] => some emptyTable
  | entries =>
    if (newBloomFilter sizing (entries.length % 2 ^ 32)).numBits = 0 then none
    else some (tableBytes sizing entries)

/-- Flush a memtable, open the table and look up a key. -/
def readBack (sizing : BloomSizing) (path : List Char) (file : Nat)
    (mt : MemTable) (key : Bytes) : Option (Option (Bytes × Bool)) :=
  match flushMemTable sizing mt with
  | none => none
  | some content =>
    (openTable path file content).map (fun sst => sst.get content key)

variable {sizing : BloomSizing}

theorem numBits_newBloomFilter_eq_zero_iff {n : Nat} (hn : n ≠ 0)
    (hword : sizing.numBits n < 2 ^ 32) :
    (newBloomFilter sizing n).numBits = 0 <->
      2 ^ 32 - 63 ≤ sizing.numBits n := by
  have hbits : (newBloomFilter sizing n).numBits =
      ((if sizing.numBits n < 64 then 64 else sizing.numBits n) + 63) %
        2 ^ 32 / 64 * 64 := by
    rw [newBloomFilter]
    simp only [if_neg hn]
  rw [hbits]
  by_cases hfew : sizing.numBits n < 64
  · rw [if_pos hfew]
    omega
  · rw [if_neg hfew]
    omega

theorem flushMemTable_of_ne_nil {mt : MemTable} (hne : mt.entries ≠ []) :
    flushMemTable sizing mt =
      if (newBloomFilter sizing (mt.entries.length % 2 ^ 32)).numBits = 0
      then none
      else some (tableBytes sizing mt.entries) := by
  unfold flushMemTable
  cases hentries : mt.entries with
  | nil => exact absurd hentries hne
  | cons e entries => rfl

theorem length_lt_of_tableBytes {entries : List MemTableEntry}
    (hsmall : (tableBytes sizing entries).length < 2 ^ 32) :
    entries.length < 2 ^ 32 := by
  cases entries with
  | nil => decide
  | cons first rest =>
  rcases @addAll_eq first rest with ⟨_, _, _, hdata, _⟩
  have hcount := length_le_serializeAll (first :: rest)
  unfold tableBytes at hsmall
  simp only [hdata, List.length_append] at hsmall
  omega

theorem readBack_eq_get {mt : MemTable} (hordered : mt.Ordered)
    (hne : mt.entries ≠ []) (hfits : TableFits sizing mt.entries)
    (path : List Char) (file : Nat) (key : Bytes) :
    readBack sizing path file mt key = some (mt.get key) := by
  unfold readBack
  rw [flushMemTable_of_ne_nil hne, if_neg (Nat.ne_of_gt hfits.bits)]
  simp only [openTable_tableBytes hfits path file, Option.map_some]
  rw [get_tableOf hordered.sortedTable hfits,
    get_eq_lookup hordered key]

theorem readBack_of_nil {mt : MemTable} (hordered : mt.Ordered)
    (hnil : mt.entries = []) (path : List Char) (file : Nat) (key : Bytes) :
    readBack sizing path file mt key = some (mt.get key) := by
  unfold readBack flushMemTable
  rw [get_eq_lookup hordered key, hnil]
  simp only [openTable_emptyTable, Option.map_some]
  rfl

/--
For a table below 4 GiB, reading back gives for every key what the memtable
gives exactly when the memtable is empty or the formula for the filter stays
clear of the last 63 numbers of bits.
-/
theorem readBack_iff {sizing : BloomSizing}
    (hword : forall n, sizing.numBits n < 2 ^ 32) (capacity : Int)
    (actions : List MemTableAction)
    (hsmall : (tableBytes sizing
      (filled capacity actions).entries).length < 2 ^ 32)
    (path : List Char) (file : Nat) :
    (forall key, readBack sizing path file (filled capacity actions)
        key = some ((filled capacity actions).get key)) <->
      (filled capacity actions).entries = [] ∨
        sizing.numBits (filled capacity actions).entries.length <
          2 ^ 32 - 63 := by
  have hordered := ordered_filled capacity actions
  generalize filled capacity actions = mt at hordered hsmall ⊢
  have hcount := length_lt_of_tableBytes hsmall
  by_cases hnil : mt.entries = []
  · constructor
    · intro _
      exact Or.inl hnil
    · intro _ key
      exact readBack_of_nil hordered hnil path file key
  have hsome : mt.entries.length ≠ 0 := by
    intro hzero
    exact hnil (List.length_eq_zero_iff.mp hzero)
  have hzero := numBits_newBloomFilter_eq_zero_iff hsome
    (hword mt.entries.length)
  constructor
  · intro hall
    apply Or.inr
    apply Nat.lt_of_not_le
    intro hmany
    have hread := hall []
    unfold readBack at hread
    rw [flushMemTable_of_ne_nil hnil, Nat.mod_eq_of_lt hcount,
      if_pos (hzero.mpr hmany)] at hread
    cases hread
  intro hcase key
  rcases hcase with hempty | hfew
  · exact absurd hempty hnil
  have hbits : 0 < (newBloomFilter sizing
      (mt.entries.length % 2 ^ 32)).numBits := by
    rw [Nat.mod_eq_of_lt hcount]
    apply Nat.pos_of_ne_zero
    intro hnone
    exact absurd (hzero.mp hnone) (Nat.not_le_of_lt hfew)
  exact readBack_eq_get hordered hnil ⟨hsmall, hbits⟩ path file key

/-!
## A filter without bits
-/

theorem length_bits_foldl_add (keys : List Bytes) (bf : BloomFilter) :
    (keys.foldl BloomFilter.add bf).bits.length = bf.bits.length := by
  induction keys generalizing bf with
  | nil => rfl
  | cons key keys ih =>
    rw [List.foldl_cons, ih, BloomFilter.add, length_foldl_setBit]

theorem length_flatMap_marshalEntry_le (start : Nat)
    {blocks : List (List MemTableEntry)}
    (hnonempty : forall block, block ∈ blocks -> block ≠ []) :
    ((blocksOf start blocks).flatMap BlockIndex.marshalEntry).length ≤
      (serializeAll blocks.flatten).length := by
  induction blocks generalizing start with
  | nil => exact Nat.le_refl _
  | cons block blocks ih =>
  have hrest := ih (start + (serializeAll block).length)
    (fun b hb => hnonempty b (List.mem_cons_of_mem block hb))
  cases block with
  | nil => exact absurd rfl (hnonempty [] (List.mem_cons_self ..))
  | cons e block =>
  have hfirst := @length_serializeEntry_le e (e :: block)
    (List.mem_cons_self ..)
  rw [length_serializeEntry] at hfirst
  rw [blocksOf, List.flatMap_cons, List.length_append,
    List.flatten_cons, serializeAll_append, List.length_append]
  have hentry : (BlockIndex.marshalEntry
      (blockOf start (e :: block))).length = e.key.length + 12 := by
    simp only [BlockIndex.marshalEntry, blockOf, List.length_append,
      length_be, List.head?_cons, Option.map_some, Option.getD_some]
    omega
  omega

theorem length_tableBytes_le (sizing : BloomSizing)
    (entries : List MemTableEntry) :
    (tableBytes sizing entries).length ≤ 2 * (serializeAll entries).length +
      8 * (newBloomFilter sizing (entries.length % 2 ^ 32)).bits.length +
      61 := by
  cases entries with
  | nil =>
    have hlen : emptyTable.length = 48 := by
      decide +kernel
    change emptyTable.length ≤ _
    omega
  | cons first rest =>
  rcases @addAll_eq first rest with
    ⟨blocks, hflat, hnonempty, hdata, hindex⟩
  have hblocks := @length_flatMap_marshalEntry_le 0 blocks hnonempty
  have hbits := length_bits_foldl_add
    ((first :: rest).map MemTableEntry.key)
    (newBloomFilter sizing ((first :: rest).length % 2 ^ 32))
  have hfooter : sstFooterSize = 48 := rfl
  unfold tableBytes
  simp only [hdata, hindex, List.length_append, length_footer, keyFilter,
    BloomFilter.length_marshalBinary, BlockIndex.marshalBinary, length_be]
  rw [hflat] at hblocks
  rw [hbits]
  omega

def manyKeys (n : Nat) : List MemTableAction :=
  (List.range n).map (fun i => .put (be 8 i) [] 0)

def keyEntry (i : Nat) : MemTableEntry where
  key := be 8 i
  value := []
  timestamp := 0
  deleted := false

theorem entries_manyKeys (capacity : Int) {n : Nat} (hn : n < 2 ^ 64) :
    (filled capacity (manyKeys n)).frozen = false ∧
      (filled capacity (manyKeys n)).root.inorder =
        (List.range n).map (fun i => (be 8 i,
          { value := [], timestamp := 0, deleted := false })) := by
  induction n with
  | zero => exact ⟨rfl, rfl⟩
  | succ n ih =>
  rcases ih (by omega) with ⟨hopen, hroot⟩
  have hordered := ordered_filled capacity (manyKeys n)
  have hlast : filled capacity (manyKeys (n + 1)) =
      (filled capacity (manyKeys n)).apply
        (.put (be 8 n) [] 0) := by
    rw [manyKeys, List.range_succ, List.map_append, filled,
      List.foldl_append]
    rfl
  generalize filled capacity (manyKeys n) = mt at *
  rw [hlast, MemTable.apply, MemTable.put, hopen]
  refine ⟨hopen, ?_⟩
  have hbelow : forall e, e ∈ mt.root.inorder -> e.1 < be 8 n := by
    intro e he
    rw [hroot] at he
    rcases List.mem_map.mp he with ⟨i, hi, heq⟩
    rw [← heq]
    exact be_lt_be (List.mem_range.mp hi) (by omega)
  have hinsert := insertSorted_append_of_gt hbelow
    ({ value := [], timestamp := 0, deleted := false } : MemTableValue) []
  rw [List.append_nil] at hinsert
  simp only [Bool.false_eq_true, if_false, Option.getD_some,
    MemTable.insert, RedBlackTree.inorder_paint]
  rw [RedBlackTree.inorder_insert hordered, hinsert, hroot,
    List.range_succ, List.map_append]
  rfl

theorem entries_filled_manyKeys (capacity : Int) {n : Nat}
    (hn : n < 2 ^ 64) :
    (filled capacity (manyKeys n)).entries =
      (List.range n).map keyEntry := by
  rw [entries, (entries_manyKeys capacity hn).right, List.map_map]
  rfl

theorem length_serializeAll_range (n : Nat) :
    (serializeAll ((List.range n).map keyEntry)).length = 25 * n := by
  induction n with
  | zero => rfl
  | succ n ih =>
  rw [List.range_succ, List.map_append, serializeAll_append,
    List.length_append, ih, serializeAll, List.map_singleton,
    List.flatMap_singleton, length_serializeEntry]
  simp only [keyEntry, length_be, List.length_nil]
  omega

theorem length_bits_newBloomFilter (sizing : BloomSizing) (n : Nat) :
    (newBloomFilter sizing n).bits.length =
      (newBloomFilter sizing n).numBits / 64 := by
  simp only [newBloomFilter, List.length_replicate]

theorem length_tableBytes_manyKeys {n : Nat} (hn : n < 2 ^ 32)
    (hbits : (newBloomFilter sizing n).numBits = 0) (capacity : Int) :
    (tableBytes sizing
      (filled capacity (manyKeys n)).entries).length ≤
        50 * n + 61 := by
  rw [entries_filled_manyKeys capacity (by omega)]
  have hsize := length_tableBytes_le sizing ((List.range n).map keyEntry)
  rw [length_serializeAll_range, List.length_map, List.length_range,
    Nat.mod_eq_of_lt hn, length_bits_newBloomFilter, hbits] at hsize
  omega

theorem readBack_manyKeys {n : Nat} (hsome : n ≠ 0) (hn : n < 2 ^ 32)
    (hbits : (newBloomFilter sizing n).numBits = 0) (capacity : Int)
    (path : List Char) (file : Nat) (key : Bytes) :
    readBack sizing path file (filled capacity (manyKeys n)) key =
      none := by
  have hentries := @entries_filled_manyKeys capacity n (by omega)
  have hlen : (filled capacity (manyKeys n)).entries.length = n := by
    rw [hentries, List.length_map, List.length_range]
  have hne : (filled capacity (manyKeys n)).entries ≠ [] := by
    intro hnil
    rw [hnil] at hlen
    exact hsome hlen.symm
  unfold readBack
  rw [flushMemTable_of_ne_nil hne, hlen, Nat.mod_eq_of_lt hn, if_pos hbits]

/--
The formula at the rate `1.8768983156753662e-299`, at which three million items
get `2 ^ 32 - 32` bits.
-/
def rareSizing : BloomSizing where
  numBits := fun n => n * (2 ^ 32 - 32) / 3000000 % 2 ^ 32
  numHash := fun bits n => (bits * 693147 / 1000000 + n / 2) / n

def centSizing : BloomSizing where
  numBits := fun n => n * 9585058 / 1000000 % 2 ^ 32
  numHash := fun bits n => (bits * 693147 / 1000000 + n / 2) / n

/-- A key that has been overwritten reads back. -/
theorem readBack_three :
    readBack centSizing ['t'] 0
        (filled 0 [.put [1] [7] 10, .put [2] [8] 11,
          .put [1] [9] 12, .delete [3] 13, .freeze]) [1] =
      some ((filled 0 [.put [1] [7] 10, .put [2] [8] 11,
        .put [1] [9] 12, .delete [3] 13, .freeze]).get [1]) :=
  (readBack_iff (fun _ => Nat.mod_lt _ (by decide)) 0
    [.put [1] [7] 10, .put [2] [8] 11, .put [1] [9] 12, .delete [3] 13,
      .freeze] (by decide +kernel) ['t'] 0).mpr
    (Or.inr (by decide +kernel)) [1]

/-- Three million keys cannot be flushed at a very small rate. -/
theorem flush_without_bits :
    ¬ forall (sizing : BloomSizing), (forall n, sizing.numBits n < 2 ^ 32) ->
      forall (capacity : Int) (actions : List MemTableAction),
      (tableBytes sizing (filled capacity actions).entries).length <
        2 ^ 32 ->
      forall path file key,
        readBack sizing path file (filled capacity actions) key =
          some ((filled capacity actions).get key) := by
  intro hall
  have hword : forall n, rareSizing.numBits n < 2 ^ 32 :=
    fun n => Nat.mod_lt _ (by decide)
  have hbits : (newBloomFilter rareSizing 3000000).numBits = 0 :=
    (numBits_newBloomFilter_eq_zero_iff (by decide) (hword 3000000)).mpr
      (by decide)
  have hlarge : 50 * 3000000 + 61 < 2 ^ 32 := by decide
  have hcount : 3000000 < 2 ^ 32 := by decide
  have hsome : 3000000 ≠ 0 := by decide
  generalize 3000000 = n at hbits hlarge hcount hsome
  have hread := hall rareSizing hword 0 (manyKeys n)
    ((length_tableBytes_manyKeys hcount hbits 0).trans_lt hlarge) ['t'] 0 []
  rw [readBack_manyKeys hsome hcount hbits] at hread
  cases hread

end Warm
end ChimeraMQ
