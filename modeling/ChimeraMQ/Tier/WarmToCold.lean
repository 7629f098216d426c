import ChimeraMQ.Cold.ArchiveTables
import ChimeraMQ.Tier.Migrator

/-!
# Reads before and after archiving

Archiving takes the tables below level 0 from the warm tree.  A read of an
offset that they held then gives what some archive answers: any version of it
that is in one, and success if that is a tombstone.
-/

namespace ChimeraMQ
namespace Tier

open Foundation
open Storage
open Warm
open Cold

/-!
## What a read can give
-/

def answers (cold : ColdManager) (offset : Nat) : List Bytes :=
  cold.archives.filterMap
    (fun e => lookIn (cold.disk.content e.2.file) e.2 offset)

def hotRead (m : Migrator) (key : PartitionKey) (opened offset : Nat) :
    Option Bytes :=
  match m.hot.getOrCreatePartition key opened with
  | .error _ => none
  | .ok (_, p) => (p.read offset).toOption

/-- A read of the offset can give a value, or fail, in some order of loops. -/
def CanRead (m : Migrator) (key : PartitionKey) (opened offset : Nat)
    (r : Option Bytes) : Prop :=
  exists order, (m.read key offset opened order).2.toOption = r

theorem read_toOption (m : Migrator) (key : PartitionKey)
    (opened offset : Nat) (order : MapOrder (List Char × ColdArchive)) :
    (m.read key offset opened order).2.toOption =
      (hotRead m key opened offset).or (m.readBelow offset order).toOption := by
  unfold Migrator.read hotRead
  cases m.hot.getOrCreatePartition key opened with
  | error e => rfl
  | ok r =>
  rcases r with ⟨hot, p⟩
  simp only
  cases p.read offset with
  | error e => rfl
  | ok data => rfl

theorem exists_order_get (cold : ColdManager) (offset : Nat)
    (r : Option Bytes) :
    (exists order, cold.get order offset = r) <->
      (r = none ∧ answers cold offset = []) ∨
        exists b, b ∈ answers cold offset ∧ r = some b :=
  exists_order_findSome? _ cold.archives r

def Gives (hot : Option Bytes) (warm : Option (Bytes × Bool))
    (cold : List Bytes) (r : Option Bytes) : Prop :=
  match hot, warm with
  | some v, _ => r = some v
  | none, some (_, true) => r = none
  | none, some (v, false) => r = some v
  | none, none => (r = none ∧ cold = []) ∨ exists b, b ∈ cold ∧ r = some b

variable {m : Migrator} {c : ColdManager}

theorem canRead_iff {w : LSMTree} (hwarm : m.warm = some w)
    (hcold : m.cold = some c) (key : PartitionKey) (opened offset : Nat)
    (r : Option Bytes) :
    CanRead m key opened offset r <-> Gives (hotRead m key opened offset)
      (w.get (be 8 offset)) (answers c offset) r := by
  unfold CanRead Gives
  simp only [read_toOption, Migrator.readBelow, hwarm, hcold,
    Option.bind_some]
  cases hotRead m key opened offset with
  | some v =>
    simp only [Option.some_or]
    exact ⟨fun ⟨_, h⟩ => h.symm, fun h => ⟨.listed _, h.symm⟩⟩
  | none =>
  simp only [Option.none_or]
  cases hget : w.get (be 8 offset) with
  | some entry =>
    rcases entry with ⟨v, deleted⟩
    cases deleted with
    | true => exact ⟨fun ⟨_, h⟩ => h.symm, fun h => ⟨.listed _, h.symm⟩⟩
    | false => exact ⟨fun ⟨_, h⟩ => h.symm, fun h => ⟨.listed _, h.symm⟩⟩
  | none =>
  rw [← exists_order_get]
  constructor
  · rintro ⟨order, h⟩
    refine ⟨order, ?_⟩
    rw [← h]
    cases c.get order offset <;> rfl
  rintro ⟨order, h⟩
  refine ⟨order, ?_⟩
  rw [← h]
  cases c.get order offset <;> rfl

/-!
## Batches
-/

variable {α : Type}

theorem flatten_batches (xs : List α) :
    (batches xs).flatten = xs := by
  have htake : forall k, ((List.range k).map
      (fun i => (xs.drop (batchSize * i)).take batchSize)).flatten =
        xs.take (batchSize * k) := by
    intro k
    induction k with
    | zero => rfl
    | succ k ih =>
    rw [List.range_succ, List.map_append, List.flatten_append, ih,
      Nat.mul_succ, List.take_add]
    simp
  unfold batches
  rw [htake]
  apply List.take_of_length_le
  unfold batchSize
  omega

theorem batch_ne_nil {xs batch : List α} (hbatch : batch ∈ batches xs) :
    batch ≠ [] := by
  rcases List.mem_map.mp hbatch with ⟨i, hi, heq⟩
  rw [List.mem_range] at hi
  intro hnil
  rw [hnil] at heq
  have hlength := congrArg List.length heq
  rw [List.length_take, List.length_drop, List.length_nil] at hlength
  unfold batchSize at hi hlength
  omega

/-!
## Removing tables
-/

structure Removed (w : LSMTree) (tables : List SSTable) (w' : LSMTree) :
    Prop where
  memtable : w'.memtable = w.memtable
  immutables : w'.immutables = w.immutables
  flush : w'.flush = w.flush
  closed : w'.closed = w.closed
  config : w'.config = w.config
  files : w'.dir.disk.files = w.dir.disk.files
  levels : w'.levels = w.levels.map (fun level => level.diff tables)

theorem removed_foldl (w : LSMTree) (tables : List SSTable) :
    Removed w tables (tables.foldl removeSSTable w) := by
  induction tables generalizing w with
  | nil =>
    exact
      { memtable := rfl
        immutables := rfl
        flush := rfl
        closed := rfl
        config := rfl
        files := rfl
        levels := by simp }
  | cons t tables ih =>
  have hrest := ih (removeSSTable w t)
  exact
    { memtable := hrest.memtable
      immutables := hrest.immutables
      flush := hrest.flush
      closed := hrest.closed
      config := hrest.config
      files := hrest.files
      levels := by
        rw [List.foldl_cons, hrest.levels, removeSSTable, List.map_map]
        apply List.map_congr_left
        intro level _
        exact (List.diff_cons level tables t).symm }

variable {d : Disk}

theorem getFrom_of_files {d' : Disk} (h : d'.files = d.files) :
    getFrom d' = getFrom d := by
  funext key sst
  unfold getFrom
  rw [Disk.content_of_files h]

theorem mergeTables_of_files {d' : Disk} (h : d'.files = d.files)
    (merged : List (Nat × (Bytes × Bool))) (tables : List SSTable) :
    mergeTables d' merged tables = mergeTables d merged tables := by
  have hcollect : collectEntries d' = collectEntries d := by
    funext sst
    unfold collectEntries
    rw [Disk.content_of_files h]
  induction tables generalizing merged with
  | nil => rfl
  | cons t tables ih =>
  unfold mergeTables
  rw [hcollect]
  cases collectEntries d t with
  | none => rfl
  | some found => exact ih _

theorem createColdArchive_of_files {warm warm' : Disk}
    (h : warm'.files = warm.files) (d : Disk) (path : List Char)
    (tables : List SSTable) :
    createColdArchive d path warm' tables =
      createColdArchive d path warm tables := by
  unfold createColdArchive
  rw [mergeTables_of_files h]

/-!
## Making archives
-/

def ColdSound (c : ColdManager) : Prop :=
  forall e, e ∈ c.archives ->
    e.2.file < c.disk.files.length ∧ c.disk.lookup e.1 ≠ none

def archiveNames (clock : Nat -> Nat) (i n : Nat) : List (List Char) :=
  (List.range' i n).map (fun j => archiveName (clock j))

structure FreshNames (c : ColdManager) (clock : Nat -> Nat) (i n : Nat) :
    Prop where
  nodup : (archiveNames clock i n).Nodup
  lookup : forall name, name ∈ archiveNames clock i n ->
    c.disk.lookup name = none

instance (c : ColdManager) (clock : Nat -> Nat) (i n : Nat) :
    Decidable (FreshNames c clock i n) :=
  decidable_of_iff ((archiveNames clock i n).Nodup ∧
      forall name, name ∈ archiveNames clock i n -> c.disk.lookup name = none)
    ⟨fun h => ⟨h.left, h.right⟩, fun h => ⟨h.nodup, h.lookup⟩⟩

def batchAnswers (d : Disk) (batches : List (List SSTable)) (offset : Nat) :
    List Bytes :=
  batches.filterMap (fun b => (getFromLevel d (be 8 offset) b).map answer)

structure ArchivesOf (d : Disk) (c : ColdManager)
    (batches : List (List SSTable)) (c' : ColdManager) : Prop where
  sound : ColdSound c'
  answers : forall offset, offset < 2 ^ 64 ->
    answers c' offset = answers c offset ++ batchAnswers d batches offset

theorem archivesOf_archived (hsound : ColdSound c) {path : List Char}
    (hfresh : c.disk.lookup path = none) {warm disk : Disk}
    {batch : List SSTable} {ca : ColdArchive}
    (h : Archived c.disk path warm batch disk ca) :
    ArchivesOf warm c [batch]
      { disk := disk, archives := setEntry path ca c.archives } := by
  rcases h.disk with ⟨b, hdisk⟩
  have hnew : path ∉ c.archives.map Prod.fst := by
    intro hmem
    rcases List.mem_map.mp hmem with ⟨e, he, hpath⟩
    have hlookup := (hsound e he).right
    rw [hpath] at hlookup
    exact hlookup hfresh
  have hadd := setEntry_of_not_mem ca hnew
  constructor
  · intro e he
    rw [hadd] at he
    rcases List.mem_append.mp he with hold | hlast
    · rcases hsound e hold with ⟨hlt, hlookup⟩
      constructor
      · rw [hdisk]
        simp only [Disk.addFile, List.length_append, List.length_singleton]
        omega
      rw [hdisk]
      simp only
      rw [Disk.lookup_addFile_ne]
      · exact hlookup
      · intro heq
        rw [heq] at hlookup
        exact hlookup hfresh
    · rw [List.mem_singleton.mp hlast, hdisk]
      constructor
      · rw [h.file]
        simp [Disk.addFile]
      · rw [Disk.lookup_addFile hfresh]
        exact Option.some_ne_none _
  · intro offset hoffset
    have hholds := h.holds offset hoffset
    unfold Tier.answers batchAnswers
    simp only
    rw [hadd, List.filterMap_append]
    congr 1
    · apply List.filterMap_congr
      intro e he
      rw [hdisk, Disk.content_addFile_of_lt (hsound e he).left]
    · rw [List.filterMap_cons, hholds, List.filterMap_cons]
      rfl

theorem ArchivesOf.refl (d : Disk) (h : ColdSound c) :
    ArchivesOf d c [] c where
  sound := h
  answers := by
    intro offset _
    rw [batchAnswers, List.filterMap_nil, List.append_nil]

variable {c' : ColdManager}

theorem ArchivesOf.trans {c'' : ColdManager} {xs ys : List (List SSTable)}
    (h : ArchivesOf d c xs c') (h' : ArchivesOf d c' ys c'') :
    ArchivesOf d c (xs ++ ys) c'' where
  sound := h'.sound
  answers := by
    intro offset hoffset
    rw [h'.answers offset hoffset, h.answers offset hoffset, batchAnswers,
      batchAnswers, batchAnswers, List.filterMap_append, List.append_assoc]

structure Archivable (d : Disk) (sizing : BloomSizing) (batch : List SSTable) :
    Prop where
  ne_nil : batch ≠ []
  readable : forall t, t ∈ batch -> Readable d sizing t
  anchored : forall t, t ∈ batch -> Anchored d t
  fits : BatchFits d batch

theorem archiveBatch_holds {sizing : BloomSizing} {w w' : LSMTree} {now : Nat}
    {batch : List SSTable} (hfiles : w.dir.disk.files = d.files)
    (hsound : ColdSound c) (hfresh : c.disk.lookup (archiveName now) = none)
    (hbatch : Archivable d sizing batch)
    (hmake : archiveBatch (w, c) now batch = some (w', c')) :
    w' = batch.foldl removeSSTable w ∧ ArchivesOf d c [batch] c' ∧
      exists b, c'.disk = c.disk.addFile (archiveName now) b := by
  unfold archiveBatch at hmake
  rw [createColdArchive_of_files hfiles] at hmake
  cases hcreate : createColdArchive c.disk (archiveName now) d batch with
  | none =>
    rw [hcreate] at hmake
    cases hmake
  | some result =>
  rcases createColdArchive_holds hbatch.ne_nil hbatch.readable
    hbatch.anchored hbatch.fits hfresh hcreate with ⟨ca, hok, harchived⟩
  rcases result with ⟨disk, made⟩
  simp only at hok
  subst hok
  simp only [hcreate, Option.some.injEq, Prod.mk.injEq] at hmake
  rcases hmake with ⟨hw, hc⟩
  subst hw hc
  exact ⟨rfl, archivesOf_archived hsound hfresh harchived, harchived.disk⟩

variable {bs : List (List SSTable)}

theorem archiveBatches_holds {sizing : BloomSizing} {clock : Nat -> Nat}
    {w w' : LSMTree} {i : Nat} (hfiles : w.dir.disk.files = d.files)
    (hsound : ColdSound c) (hfresh : FreshNames c clock i bs.length)
    (hbatches : forall b, b ∈ bs -> Archivable d sizing b)
    (hmake : archiveBatches clock (w, c) i bs = some (w', c')) :
    w' = bs.flatten.foldl removeSSTable w ∧ ArchivesOf d c bs c' := by
  induction bs generalizing w c i with
  | nil =>
    cases hmake
    exact ⟨rfl, ArchivesOf.refl d hsound⟩
  | cons batch bs ih =>
  unfold archiveBatches at hmake
  cases hone : archiveBatch (w, c) (clock i) batch with
  | none =>
    rw [hone] at hmake
    cases hmake
  | some mid =>
  rcases mid with ⟨w₁, c₁⟩
  rw [hone] at hmake
  have hnames : archiveNames clock i (batch :: bs).length =
      archiveName (clock i) ::
        archiveNames clock (i + 1) bs.length := by
    unfold archiveNames
    rw [List.length_cons, List.range'_succ, List.map_cons]
  have hnodup := hfresh.nodup
  have hlookup := hfresh.lookup
  rw [hnames] at hnodup hlookup
  rcases List.nodup_cons.mp hnodup with ⟨hnotin, hnodup'⟩
  rcases archiveBatch_holds hfiles hsound
    (hlookup _ (List.mem_cons_self ..))
    (hbatches batch (List.mem_cons_self ..)) hone with
    ⟨hw₁, hc₁, b, hdisk⟩
  have hfiles₁ : w₁.dir.disk.files = d.files := by
    rw [hw₁, (removed_foldl w batch).files]
    exact hfiles
  have hfresh₁ : FreshNames c₁ clock (i + 1) bs.length :=
    { nodup := hnodup'
      lookup := by
        intro name hname
        rw [hdisk, Disk.lookup_addFile_ne]
        · exact hlookup name (List.mem_cons_of_mem _ hname)
        · intro heq
          rw [heq] at hname
          exact hnotin hname }
  rcases ih hfiles₁ hc₁.sound hfresh₁
    (fun x hx => hbatches x (List.mem_cons_of_mem batch hx)) hmake with
    ⟨hw', hc'⟩
  refine ⟨?_, hc₁.trans hc'⟩
  rw [hw', hw₁, List.flatten_cons, List.foldl_append]

/-!
## The tree without its lower levels
-/

def upperGet (w : LSMTree) (key : Bytes) : Option (Bytes × Bool) :=
  (w.memoryGet key).or
    ((w.levels.take 1).findSome? (getFromLevel w.dir.disk key))

def lowerGet (w : LSMTree) (key : Bytes) : Option (Bytes × Bool) :=
  (w.levels.drop 1).findSome? (getFromLevel w.dir.disk key)

theorem get_eq_upper (w : LSMTree) (key : Bytes) :
    w.get key = (upperGet w key).or (lowerGet w key) := by
  have hsplit := List.take_append_drop 1 w.levels
  rw [w.get_eq, LSMTree.tablesGet, upperGet, lowerGet, Option.or_assoc]
  conv_lhs => rw [← hsplit]
  rw [List.findSome?_append]

theorem lower_sublist (w : LSMTree) :
    (w.levels.drop 1).flatten.Sublist w.levels.flatten := by
  conv_rhs => rw [← List.take_append_drop 1 w.levels, List.flatten_append]
  exact List.sublist_append_right _ _

theorem lowerGet_eq_none_iff (w : LSMTree) (key : Bytes) :
    lowerGet w key = none <-> forall t, t ∈ (w.levels.drop 1).flatten ->
      getFrom w.dir.disk key t = none := by
  unfold lowerGet getFromLevel
  simp only [List.findSome?_eq_none_iff, List.mem_reverse, List.mem_flatten]
  constructor
  · rintro h t ⟨level, hlevel, ht⟩
    exact h level hlevel t ht
  · intro h level hlevel t ht
    exact h t ⟨level, hlevel, ht⟩

theorem diff_of_disjoint [DecidableEq α] {xs ys : List α}
    (h : forall x, x ∈ xs -> x ∉ ys) : xs.diff ys = xs := by
  induction ys with
  | nil => rfl
  | cons y ys ih =>
  have hy : y ∉ xs := fun hmem => h y hmem (List.mem_cons_self ..)
  rw [List.diff_cons, List.erase_of_not_mem hy]
  exact ih (fun x hx hmem => h x hx (List.mem_cons_of_mem y hmem))

theorem diff_eq_nil [DecidableEq α] {xs ys : List α} (hnodup : xs.Nodup)
    (h : forall x, x ∈ xs -> x ∈ ys) :
    xs.diff ys = [] := by
  apply List.eq_nil_iff_forall_not_mem.mpr
  intro x hx
  rcases hnodup.mem_sdiff_iff.mp hx with ⟨hmem, hnot⟩
  exact hnot (h x hmem)

theorem flatten_map_diff_sublist [DecidableEq α] (levels : List (List α))
    (ys : List α) :
    (levels.map (fun level => level.diff ys)).flatten.Sublist
      levels.flatten := by
  induction levels with
  | nil => exact List.Sublist.refl _
  | cons level levels ih => exact (List.diff_sublist level ys).append ih

variable {w w' : LSMTree} {tables : List SSTable}

theorem Removed.extends (h : Removed w tables w') :
    w.dir.disk.Extends w'.dir.disk :=
  ⟨Nat.le_of_eq (congrArg List.length h.files).symm,
    fun i _ => Disk.content_of_files h.files i⟩

theorem Removed.pending (h : Removed w tables w') :
    w'.pending = w.pending := by
  unfold LSMTree.pending
  rw [h.flush]

theorem Removed.tables_sublist (h : Removed w tables w') :
    (w'.levels.flatten ++ w'.pending).Sublist
      (w.levels.flatten ++ w.pending) := by
  rw [h.levels, h.pending]
  exact (flatten_map_diff_sublist w.levels tables).append
    (List.Sublist.refl _)

theorem Removed.tidy (h : Removed w tables w') (htidy : w.Tidy) :
    w'.Tidy where
  sound :=
    { memtable := by
        rw [h.memtable]
        exact htidy.sound.memtable
      immutables := by
        rw [h.immutables]
        exact htidy.sound.immutables
      levels := by
        intro level hlevel sst hsst
        rw [h.levels] at hlevel
        rcases List.mem_map.mp hlevel with ⟨old, hold, heq⟩
        rw [← heq] at hsst
        rw [h.config]
        exact (htidy.sound.levels old hold sst
          (List.diff_subset old tables hsst)).extends h.extends
      flush := by
        have hflush := htidy.sound.flush
        rw [h.flush, h.config]
        cases hphase : w.flush with
        | idle => trivial
        | taken mt =>
          rw [hphase] at hflush
          exact hflush
        | written t =>
        rw [hphase] at hflush
        exact hflush.extends h.extends }
  immutables := by
    rw [h.immutables]
    exact htidy.immutables
  taken := by
    rw [h.flush]
    exact htidy.taken
  anchored := by
    intro t ht
    unfold Anchored
    rw [getFrom_of_files h.files]
    exact htidy.anchored t (h.tables_sublist.subset ht)
  files := (h.tables_sublist.map SSTable.file).nodup htidy.files

theorem Removed.get_lower (h : Removed w (w.levels.drop 1).flatten w')
    (htidy : w.Tidy) (key : Bytes) : w'.get key = upperGet w key := by
  have hnodup : w.levels.flatten.Nodup :=
    (List.nodup_append.mp htidy.files.of_map).left
  rw [← List.take_append_drop 1 w.levels, List.flatten_append] at hnodup
  rcases List.nodup_append.mp hnodup with ⟨_, hlower, hdisjoint⟩
  have htake : w'.levels.take 1 = w.levels.take 1 := by
    rw [h.levels, ← List.map_take]
    conv_rhs => rw [← List.map_id (w.levels.take 1)]
    apply List.map_congr_left
    intro level hlevel
    apply diff_of_disjoint
    intro t ht hmem
    exact hdisjoint t (List.mem_flatten.mpr ⟨level, hlevel, ht⟩) t hmem rfl
  have hdrop : forall level, level ∈ w'.levels.drop 1 -> level = [] := by
    intro level hlevel
    rw [h.levels, ← List.map_drop] at hlevel
    rcases List.mem_map.mp hlevel with ⟨old, hold, heq⟩
    rw [← heq]
    exact diff_eq_nil
      (hlower.sublist (List.sublist_flatten_of_mem hold))
      (fun t ht => List.mem_flatten.mpr ⟨old, hold, ht⟩)
  have hnone : lowerGet w' key = none := by
    apply List.findSome?_eq_none_iff.mpr
    intro level hlevel
    rw [hdrop level hlevel]
    rfl
  have hupper : upperGet w' key = upperGet w key := by
    unfold upperGet LSMTree.memoryGet getFromLevel
    rw [htake, h.memtable, h.immutables, getFrom_of_files h.files]
  rw [get_eq_upper, hnone, hupper, Option.or_none]

/-!
## One archiving
-/

/--
The newest version of an offset that no memtable and no table of level 0 holds
is a value, and so is every version in an archive, new or old.
-/
def KeepsOffset (w : LSMTree) (c : ColdManager) (bs : List (List SSTable))
    (offset : Nat) : Prop :=
  match upperGet w (be 8 offset), lowerGet w (be 8 offset) with
  | none, some (v, deleted) =>
    deleted = false ∧
      (forall b, b ∈ batchAnswers w.dir.disk bs offset -> b = v) ∧
      forall b, b ∈ answers c offset -> b = v
  | _, _ => True

instance (w : LSMTree) (c : ColdManager) (bs : List (List SSTable))
    (offset : Nat) : Decidable (KeepsOffset w c bs offset) := by
  unfold KeepsOffset
  split <;> infer_instance

theorem gives_iff_forall {v : Bytes} {deleted : Bool} {bs : List Bytes}
    (hne : bs ≠ []) :
    (forall r, Gives none (some (v, deleted)) [] r <-> Gives none none bs r) <->
      deleted = false ∧ forall b, b ∈ bs -> b = v := by
  rcases List.exists_mem_of_ne_nil bs hne with ⟨b₀, hb₀⟩
  unfold Gives
  cases deleted with
  | true =>
    constructor
    · intro h
      rcases (h none).mp rfl with ⟨_, hnil⟩ | ⟨b, _, hb⟩
      · exact absurd hnil hne
      · cases hb
    · rintro ⟨hfalse, _⟩
      cases hfalse
  | false =>
  constructor
  · intro h
    refine ⟨rfl, ?_⟩
    intro b hb
    exact Option.some.inj ((h (some b)).mpr (Or.inr ⟨b, hb, rfl⟩))
  rintro ⟨_, hall⟩ r
  constructor
  · intro hr
    refine Or.inr ⟨b₀, hb₀, ?_⟩
    rw [hall b₀ hb₀]
    exact hr
  · rintro (⟨_, hnil⟩ | ⟨b, hb, hr⟩)
    · exact absurd hnil hne
    · rw [hr, hall b hb]

theorem batchAnswers_eq_nil {offset : Nat} :
    batchAnswers d bs offset = [] <->
      forall t, t ∈ bs.flatten -> getFrom d (be 8 offset) t = none := by
  unfold batchAnswers getFromLevel
  simp only [List.filterMap_eq_nil_iff, Option.map_eq_none_iff,
    List.findSome?_eq_none_iff, List.mem_reverse, List.mem_flatten]
  constructor
  · rintro h t ⟨b, hb, ht⟩
    exact h b hb t ht
  · intro h b hb t ht
    exact h t ⟨b, hb, ht⟩

theorem gives_archived_iff (htidy : w.Tidy)
    (hremoved : Removed w (w.levels.drop 1).flatten w')
    (hbs : bs.flatten = (w.levels.drop 1).flatten)
    (harchives : ArchivesOf w.dir.disk c bs c') {offset : Nat}
    (hoffset : offset < 2 ^ 64) :
    (forall r, Gives none (w.get (be 8 offset)) (answers c offset) r <->
      Gives none (w'.get (be 8 offset)) (answers c' offset) r) <->
        KeepsOffset w c bs offset := by
  rw [get_eq_upper w, hremoved.get_lower htidy,
    harchives.answers offset hoffset]
  have hempty := lowerGet_eq_none_iff w (be 8 offset)
  rw [← hbs, ← batchAnswers_eq_nil] at hempty
  unfold KeepsOffset
  cases hupper : upperGet w (be 8 offset) with
  | some e =>
    simp only [iff_true]
    intro r
    rcases e with ⟨v, deleted⟩
    cases deleted <;> exact Iff.rfl
  | none =>
  cases hlower : lowerGet w (be 8 offset) with
  | none =>
    rw [hempty.mp hlower, List.append_nil]
    simp
  | some e =>
  rcases e with ⟨v, deleted⟩
  have hne : answers c offset ++ batchAnswers w.dir.disk bs offset ≠
      [] := by
    intro hnil
    have hnone := hempty.mpr (List.append_eq_nil_iff.mp hnil).right
    rw [hlower] at hnone
    cases hnone
  have hgives := @gives_iff_forall v deleted _ hne
  have hcold : forall r, Gives none ((none : Option (Bytes × Bool)).or
      (some (v, deleted))) (answers c offset) r <->
        Gives none (some (v, deleted)) [] r := by
    intro r
    cases deleted <;> exact Iff.rfl
  simp only [hcold, hgives, List.mem_append]
  constructor
  · rintro ⟨hdeleted, hall⟩
    exact ⟨hdeleted, fun b hb => hall b (Or.inr hb),
      fun b hb => hall b (Or.inl hb)⟩
  rintro ⟨hdeleted, hnew, hold⟩
  refine ⟨hdeleted, ?_⟩
  rintro b (hb | hb)
  · exact hold b hb
  · exact hnew b hb

inductive TierAction where
  | warm (a : LSMAction)
  | migrateWarmToCold (now : Nat) (clock : Nat -> Nat)

def Migrator.tierStep (m : Migrator) : TierAction -> Option Migrator
  | .warm a =>
    match m.warm with
    | none => none
    | some w => (w.step a).map (fun w => { m with warm := some w })
  | .migrateWarmToCold now clock => m.migrateWarmToCold now clock

def Migrator.oldBatches (m : Migrator) (w : LSMTree) (now : Nat) :
    List (List SSTable) :=
  if m.policy.warmRetention = 0 then []
  else batches (oldSSTables w m.policy.warmRetention now)

def ArchivesFit (m : Migrator) : TierAction -> Prop
  | .warm a =>
    match m.warm with
    | none => True
    | some w => TablesFit w a
  | .migrateWarmToCold now clock =>
    match m.warm, m.cold with
    | some w, some c =>
      (forall b, b ∈ m.oldBatches w now -> BatchFits w.dir.disk b) ∧
        FreshNames c clock 0 (m.oldBatches w now).length
    | _, _ => True

instance (m : Migrator) (a : TierAction) : Decidable (ArchivesFit m a) := by
  unfold ArchivesFit
  split
  · split <;> infer_instance
  · split <;> infer_instance

structure Archiving (m : Migrator) (w : LSMTree) (c : ColdManager) : Prop where
  warm : m.warm = some w
  cold : m.cold = some c
  tidy : w.Tidy
  opened : w.closed = false
  sound : ColdSound c

theorem archivable_of_tidy {b : List SSTable} (htidy : w.Tidy)
    (hbs : bs.flatten.Sublist w.levels.flatten) (hb : b ∈ bs) (hne : b ≠ [])
    (hfits : BatchFits w.dir.disk b) :
    Archivable w.dir.disk w.config.sizing b := by
  have hmem : forall t, t ∈ b -> t ∈ w.levels.flatten ++ w.pending := by
    intro t ht
    exact List.mem_append_left _
      (hbs.subset (List.mem_flatten.mpr ⟨b, hb, ht⟩))
  exact
    { ne_nil := hne
      readable := fun t ht => htidy.sound.readable (hmem t ht)
      anchored := fun t ht => htidy.anchored t (hmem t ht)
      fits := hfits }

structure ArchivedTo (m : Migrator) (w : LSMTree) (c : ColdManager)
    (bs : List (List SSTable)) (m' : Migrator) (w' : LSMTree)
    (c' : ColdManager) : Prop where
  hot : m'.hot = m.hot
  archiving : Archiving m' w' c'
  moved : (bs = [] ∧ w' = w ∧ c' = c) ∨
    (bs.flatten = (w.levels.drop 1).flatten ∧
      Removed w (w.levels.drop 1).flatten w' ∧
      ArchivesOf w.dir.disk c bs c')

theorem oldBatches_flatten (m : Migrator) (w : LSMTree) (now : Nat) :
    m.oldBatches w now = [] ∨
      (m.policy.warmRetention ≠ 0 ∧
        m.oldBatches w now = batches (w.levels.drop 1).flatten) := by
  unfold Migrator.oldBatches oldSSTables
  by_cases hzero : m.policy.warmRetention = 0
  · rw [if_pos hzero]
    exact Or.inl rfl
  rw [if_neg hzero]
  by_cases hcutoff : 0 < (now : Int) - m.policy.warmRetention
  · rw [if_pos hcutoff]
    exact Or.inr ⟨hzero, rfl⟩
  · rw [if_neg hcutoff]
    exact Or.inl rfl

theorem Archiving.migrate {m' : Migrator} (h : Archiving m w c) {now : Nat}
    {clock : Nat -> Nat} (hfits : ArchivesFit m (.migrateWarmToCold now clock))
    (hstep : m.migrateWarmToCold now clock = some m') :
    exists w' c', ArchivedTo m w c (m.oldBatches w now) m' w' c' := by
  unfold ArchivesFit at hfits
  simp only [h.warm, h.cold] at hfits
  rcases hfits with ⟨hbatchFits, hfresh⟩
  unfold Migrator.migrateWarmToCold at hstep
  simp only [h.cold, h.warm] at hstep
  by_cases hzero : m.policy.warmRetention = 0
  · rw [if_pos hzero, Option.some.injEq] at hstep
    subst hstep
    have hnone : m.oldBatches w now = [] := if_pos hzero
    exact ⟨w, c, rfl, h, Or.inl ⟨hnone, rfl, rfl⟩⟩
  rw [if_neg hzero] at hstep
  have hbs : m.oldBatches w now =
      batches (oldSSTables w m.policy.warmRetention now) := if_neg hzero
  rw [← hbs] at hstep
  rcases Option.map_eq_some_iff.mp hstep with ⟨⟨w', c'⟩, hmake, hm'⟩
  subst hm'
  refine ⟨w', c', ?_⟩
  rcases oldBatches_flatten m w now with hnil | ⟨_, hall⟩
  · rw [hnil] at hmake
    cases hmake
    exact
      { hot := rfl
        archiving := ⟨rfl, rfl, h.tidy, h.opened, h.sound⟩
        moved := Or.inl ⟨hnil, rfl, rfl⟩ }
  have hflatten : (m.oldBatches w now).flatten =
      (w.levels.drop 1).flatten := by
    rw [hall, flatten_batches]
  have hsub : (m.oldBatches w now).flatten.Sublist w.levels.flatten := by
    rw [hflatten]
    exact lower_sublist w
  have harchivable : forall b, b ∈ m.oldBatches w now ->
      Archivable w.dir.disk w.config.sizing b := by
    intro b hb
    apply archivable_of_tidy h.tidy hsub hb _ (hbatchFits b hb)
    rw [hall] at hb
    exact batch_ne_nil hb
  rcases archiveBatches_holds rfl h.sound hfresh harchivable hmake with
    ⟨hw', hc'⟩
  have hremoved := removed_foldl w (w.levels.drop 1).flatten
  rw [← hflatten, ← hw', hflatten] at hremoved
  exact
    { hot := rfl
      archiving := ⟨rfl, rfl, hremoved.tidy h.tidy,
        hremoved.closed.trans h.opened, hc'.sound⟩
      moved := Or.inr ⟨hflatten, hremoved, hc'⟩ }

def ReadsUnchanged (key : PartitionKey) (opened : Nat) (m : Migrator) :
    TierAction -> Prop
  | .warm _ => True
  | .migrateWarmToCold now clock =>
    forall m', m.migrateWarmToCold now clock = some m' ->
      forall offset, offset < 2 ^ 64 -> forall r,
        CanRead m key opened offset r <-> CanRead m' key opened offset r

/--
Every offset of the tables to be archived that the hot tier does not have has
one version in the archives, and that is its newest.
-/
def KeepsOffsets (key : PartitionKey) (opened : Nat) (m : Migrator) :
    TierAction -> Prop
  | .warm _ => True
  | .migrateWarmToCold now _ =>
    match m.warm, m.cold with
    | some w, some c =>
      forall t, t ∈ (m.oldBatches w now).flatten -> forall offset,
        offset ∈ List.range' t.minOffset
          (t.maxOffset + 1 - t.minOffset) ->
        hotRead m key opened offset = none ->
          KeepsOffset w c (m.oldBatches w now) offset
    | _, _ => True

instance (key : PartitionKey) (opened : Nat) (m : Migrator) (a : TierAction) :
    Decidable (KeepsOffsets key opened m a) := by
  unfold KeepsOffsets
  split
  · infer_instance
  · split <;> infer_instance

theorem ArchivedTo.unchanged_iff {m' : Migrator} (h : Archiving m w c)
    (hto : ArchivedTo m w c bs m' w' c') (key : PartitionKey) (opened : Nat) :
    (forall offset, offset < 2 ^ 64 -> forall r,
      CanRead m key opened offset r <-> CanRead m' key opened offset r) <->
      forall t, t ∈ bs.flatten -> forall offset,
        offset ∈ List.range' t.minOffset (t.maxOffset + 1 - t.minOffset) ->
        hotRead m key opened offset = none -> KeepsOffset w c bs offset := by
  have hhot : forall offset, hotRead m' key opened offset =
      hotRead m key opened offset := by
    intro offset
    unfold hotRead
    rw [hto.hot]
  simp only [canRead_iff h.warm h.cold,
    canRead_iff hto.archiving.warm hto.archiving.cold, hhot]
  rcases hto.moved with ⟨hbs, hw, hc⟩ | ⟨hflatten, hremoved, harchives⟩
  · subst hbs hw hc
    simp
  constructor
  · intro hsame t ht offset hoffset hnone
    have hmem : t ∈ w.levels.flatten ++ w.pending := by
      rw [hflatten] at ht
      exact List.mem_append_left _ ((lower_sublist w).subset ht)
    have hmax := (h.tidy.sound.readable hmem).maxOffset_lt
    rcases List.mem_range'_1.mp hoffset with ⟨_, hlt⟩
    have hone := hsame offset (by omega)
    rw [hnone] at hone
    exact (gives_archived_iff h.tidy hremoved hflatten harchives
      (by omega)).mp hone
  intro hkeeps offset hoffset
  cases hread : hotRead m key opened offset with
  | some v => exact fun r => Iff.rfl
  | none =>
  apply (gives_archived_iff h.tidy hremoved hflatten harchives
    hoffset).mpr
  by_cases hin : exists t, t ∈ bs.flatten ∧ offset ∈
      List.range' t.minOffset (t.maxOffset + 1 - t.minOffset)
  · rcases hin with ⟨t, ht, hmem⟩
    exact hkeeps t ht offset hmem hread
  have hlower : lowerGet w (be 8 offset) = none := by
    rw [lowerGet_eq_none_iff, ← hflatten]
    intro t ht
    apply getFrom_outside hoffset
    intro hrange
    exact hin ⟨t, ht, List.mem_range'_1.mpr (by omega)⟩
  unfold KeepsOffset
  rw [hlower]
  cases upperGet w (be 8 offset) <;> trivial

/-!
## Runs
-/

def TierAction.OnOffsets : TierAction -> Prop
  | .warm a => a.Runs ∧ LSMTree.WritesOffsets a
  | .migrateWarmToCold _ _ => True

instance (a : TierAction) : Decidable a.OnOffsets := by
  unfold TierAction.OnOffsets
  split <;> infer_instance

def startMigrator (policy : TierPolicy) (hot : HotEngine)
    (config : LSMConfig) : Migrator where
  policy := policy
  hot := hot
  warm := some (newLSMTree .empty config 0)
  cold := some .empty

theorem Archiving.step {m' : Migrator} (h : Archiving m w c) {a : TierAction}
    (hfits : ArchivesFit m a ∧ a.OnOffsets) (hstep : m.tierStep a = some m') :
    exists w' c', Archiving m' w' c' := by
  cases a with
  | warm a =>
    unfold Migrator.tierStep at hstep
    simp only [h.warm] at hstep
    rcases Option.map_eq_some_iff.mp hstep with ⟨w', hw', hm'⟩
    subst hm'
    have hfit : TablesFit w a := by
      have hboth := hfits.left
      unfold ArchivesFit at hboth
      simpa only [h.warm] using hboth
    have htidy := h.tidy.step h.opened hfit hfits.right.left
      hfits.right.right hw'
    have hsteps := h.tidy.sound.step h.opened hfit hfits.right.left hw'
    exact ⟨w', c, rfl, h.cold, htidy, hsteps.closed.trans h.opened,
      h.sound⟩
  | migrateWarmToCold now clock =>
  rcases h.migrate hfits.left hstep with ⟨w', c', hto⟩
  exact ⟨w', c', hto.archiving⟩

/--
Archiving changes no read exactly if every archiving finds, of the offsets that
it moves, only the newest versions, all of them values.
-/
theorem readsUnchanged_iff_keepsOffsets {policy : TierPolicy}
    {hot : HotEngine} {config : LSMConfig} {actions : List TierAction}
    {m : Migrator} (key : PartitionKey) (opened : Nat)
    (hoffsets : forall a, a ∈ actions -> a.OnOffsets)
    (hfits : Meets Migrator.tierStep ArchivesFit
      (startMigrator policy hot config) actions)
    (hrun : run? Migrator.tierStep (startMigrator policy hot config) actions =
      some m) :
    Meets Migrator.tierStep (ReadsUnchanged key opened)
        (startMigrator policy hot config) actions <->
      Meets Migrator.tierStep (KeepsOffsets key opened)
        (startMigrator policy hot config) actions := by
  have hkeep : forall s a s', (exists w c, Archiving s w c) ->
      ArchivesFit s a ∧ a.OnOffsets -> s.tierStep a = some s' ->
      exists w c, Archiving s' w c := by
    rintro s a s' ⟨w, c, hs⟩ hcond hone
    exact hs.step hcond hone
  have hsame : forall s a s', (exists w c, Archiving s w c) ->
      ArchivesFit s a ∧ a.OnOffsets -> s.tierStep a = some s' ->
      (ReadsUnchanged key opened s a <-> KeepsOffsets key opened s a) := by
    rintro s a s' ⟨w, c, hs⟩ hcond hone
    cases a with
    | warm a => exact Iff.rfl
    | migrateWarmToCold now clock =>
    change s.migrateWarmToCold now clock = some s' at hone
    rcases hs.migrate hcond.left hone with ⟨w', c', hto⟩
    have hstep := hto.unchanged_iff hs key opened
    unfold ReadsUnchanged KeepsOffsets
    simp only [hs.warm, hs.cold, hone, Option.some.injEq, forall_eq']
    exact hstep
  have hstart : exists w c,
      Archiving (startMigrator policy hot config) w c := by
    refine ⟨_, _, rfl, rfl, LSMTree.tidy_newLSMTree config 0, rfl, ?_⟩
    intro e he
    cases he
  exact meets_iff_of_run hkeep hsame hstart (hfits.and hoffsets) hrun

def putFlushed (offset : Nat) (value : Bytes) : List TierAction :=
  [.warm (.put (be 8 offset) value 0), .warm .takeImmutable,
    .warm (.writeImmutable 0), .warm .installTable]

def emptyMigrator : Migrator :=
  startMigrator { hotRetention := 0, warmRetention := 1 } (.newEngine 1000 [])
    tinyConfig

def archivedValues : List TierAction :=
  putFlushed 5 [1] ++ putFlushed 5 [2] ++ putFlushed 6 [3] ++
    putFlushed 7 [4] ++
    [.warm (.compactL0
      [(5, ([2], false)), (6, ([3], false)), (7, ([4], false))] 0),
      .migrateWarmToCold 10 id]

theorem readsUnchanged_archivedValues :
    exists m, run? Migrator.tierStep emptyMigrator archivedValues = some m ∧
      Meets Migrator.tierStep (ReadsUnchanged ([], 0) 0) emptyMigrator
        archivedValues ∧
      (m.read ([], 0) 5 0 (.listed _)).2 = .ok [2] := by
  have hcheck : (run? Migrator.tierStep emptyMigrator archivedValues).map
      (fun m => decide ((m.read ([], 0) 5 0 (.listed _)).2 = .ok [2])) =
        some true := by
    decide +kernel
  rcases Option.map_eq_some_iff.mp hcheck with ⟨m, hrun, hread⟩
  exact ⟨m, hrun,
    (readsUnchanged_iff_keepsOffsets ([], 0) 0 (by decide) (by decide +kernel)
      hrun).mpr (by decide +kernel),
    of_decide_eq_true hread⟩

def mergedTombstone : List TierAction :=
  putFlushed 5 [1] ++ [.warm (.delete (be 8 5) 0)] ++ putFlushed 6 [3] ++
    putFlushed 7 [4] ++ putFlushed 8 [5] ++
    [.warm (.compactL0 [(5, ([], true)), (6, ([3], false)), (7, ([4], false)),
      (8, ([5], false))] 0)]

/-- A read of a deleted offset fails before it is archived, and not after. -/
theorem not_readsUnchanged_tombstone :
    exists m m',
      run? Migrator.tierStep emptyMigrator mergedTombstone = some m ∧
      (forall a, a ∈ mergedTombstone -> a.OnOffsets) ∧
      Meets Migrator.tierStep ArchivesFit emptyMigrator
        (mergedTombstone ++ [.migrateWarmToCold 10 id]) ∧
      m.migrateWarmToCold 10 id = some m' ∧
      (m.read ([], 0) 5 0 (.listed _)).2 = .error (.deleted 5) ∧
      (m'.read ([], 0) 5 0 (.listed _)).2 = .ok [] ∧
      ¬ Meets Migrator.tierStep (ReadsUnchanged ([], 0) 0) emptyMigrator
        (mergedTombstone ++ [.migrateWarmToCold 10 id]) := by
  have hcheck : (run? Migrator.tierStep emptyMigrator mergedTombstone).bind
      (fun m => (m.migrateWarmToCold 10 id).map (fun m' =>
        decide ((m.read ([], 0) 5 0 (.listed _)).2 = .error (.deleted 5) ∧
          (m'.read ([], 0) 5 0 (.listed _)).2 = .ok [] ∧
          hotRead m ([], 0) 0 5 = none ∧
          m.warm.bind (fun w => w.get (be 8 5)) = some ([], true)))) =
        some true := by
    decide +kernel
  rcases Option.bind_eq_some_iff.mp hcheck with ⟨m, hrun, hmap⟩
  rcases Option.map_eq_some_iff.mp hmap with ⟨m', hstep, hdecide⟩
  rcases of_decide_eq_true hdecide with ⟨hbefore, hafter, hhot, hget⟩
  refine ⟨m, m', hrun, by decide, by decide +kernel, hstep, hbefore, hafter,
    ?_⟩
  intro hmeets
  have hlast := (hmeets.append_right hrun).left m' hstep 5 (by decide)
    (some [])
  rcases hlast.mpr ⟨.listed _, by rw [hafter]; rfl⟩ with ⟨order, hread⟩
  rw [read_toOption, hhot, Migrator.readBelow, hget] at hread
  cases hread

end Tier
end ChimeraMQ
