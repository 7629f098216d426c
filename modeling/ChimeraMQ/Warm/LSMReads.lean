import ChimeraMQ.Warm.TableDirectory

/-!
# Reads of the tree

The memtables, the flush under way and the tables together always hold the
latest write of every key.  A read sees all of them but the flush under way: it
misses a key from the moment its memtable is taken until the table is
installed.
-/

namespace ChimeraMQ
namespace Warm

open Foundation
open LSMTree

namespace LSMTree

def memoryGet (lsm : LSMTree) (key : Bytes) : Option (Bytes × Bool) :=
  (lsm.memtable.get key).or
    (lsm.immutables.reverse.findSome? (fun mt => mt.get key))

def flushGet (lsm : LSMTree) (key : Bytes) : Option (Bytes × Bool) :=
  match lsm.flush with
  | .idle => none
  | .taken mt => mt.get key
  | .written sst => getFrom lsm.dir.disk key sst

def tablesGet (lsm : LSMTree) (key : Bytes) : Option (Bytes × Bool) :=
  lsm.levels.findSome? (getFromLevel lsm.dir.disk key)

def holds (lsm : LSMTree) (key : Bytes) : Option (Bytes × Bool) :=
  (lsm.memoryGet key).or ((lsm.flushGet key).or (lsm.tablesGet key))

theorem get_eq (lsm : LSMTree) (key : Bytes) :
    lsm.get key = (lsm.memoryGet key).or (lsm.tablesGet key) := by
  rw [get, memoryGet, tablesGet, Option.or_assoc]

/-- Memtables are search trees and tables hold their entries. -/
structure Sound (lsm : LSMTree) : Prop where
  memtable : lsm.memtable.Sound
  immutables : forall mt, mt ∈ lsm.immutables -> mt.Sound
  levels : forall level, level ∈ lsm.levels -> forall sst, sst ∈ level ->
    Readable lsm.dir.disk lsm.config.sizing sst
  flush : match lsm.flush with
    | .idle => True
    | .taken mt => mt.Sound
    | .written sst => Readable lsm.dir.disk lsm.config.sizing sst

end LSMTree

instance decidableTableFits (sizing : BloomSizing)
    (entries : List MemTableEntry) : Decidable (TableFits sizing entries) :=
  decidable_of_iff ((tableBytes sizing entries).length < 2 ^ 32 ∧
      0 < (newBloomFilter sizing (entries.length % 2 ^ 32)).numBits)
    ⟨fun h => ⟨h.left, h.right⟩, fun h => ⟨h.small, h.bits⟩⟩

/-- A table that is written is below 4 GiB, and so is its filter. -/
def TablesFit (lsm : LSMTree) : LSMAction -> Prop
  | .writeImmutable _ =>
    match lsm.flush with
    | .taken mt => TableFits lsm.config.sizing mt.entries
    | _ => True
  | .compactL0 order now =>
    TableFits lsm.config.sizing (mergedTable order now).entries
  | _ => True

instance decidableTablesFit (lsm : LSMTree) (a : LSMAction) :
    Decidable (TablesFit lsm a) := by
  unfold TablesFit
  cases a with
  | writeImmutable now =>
    simp only
    split <;> infer_instance
  | compactL0 order now =>
    simp only
    infer_instance
  | _ =>
  simp only
  infer_instance

def afterAction (key : Bytes) (r : Option (Bytes × Bool)) :
    LSMAction -> Option (Bytes × Bool)
  | .put k v _ => if key = k then some (v, false) else r
  | .delete k _ => if key = k then some ([], true) else r
  | _ => r

def latestWrite (actions : List LSMAction) (key : Bytes) :
    Option (Bytes × Bool) :=
  actions.foldl (afterAction key) none

theorem latestWrite_concat (actions : List LSMAction) (a : LSMAction)
    (key : Bytes) :
    latestWrite (actions ++ [a]) key =
      afterAction key (latestWrite actions key) a := by
  rw [latestWrite, List.foldl_append]
  rfl

def LSMAction.Runs : LSMAction -> Prop
  | .beginClose | .endClose => False
  | _ => True

instance (a : LSMAction) : Decidable a.Runs :=
  match a with
  | .beginClose | .endClose => isFalse (fun h => h)
  | .put _ _ _ | .delete _ _ | .takeImmutable | .writeImmutable _
  | .installTable | .compactL0 _ _ => isTrue trivial

structure Steps (lsm lsm' : LSMTree) (a : LSMAction) : Prop where
  sound : lsm'.Sound
  closed : lsm'.closed = lsm.closed
  stopped : lsm'.stopped = lsm.stopped
  config : lsm'.config = lsm.config
  holds : forall key, key.length = 8 ->
    lsm'.holds key = afterAction key (lsm.holds key) a

structure Moves (lsm lsm' : LSMTree) (a : LSMAction) : Prop
    extends Steps lsm lsm' a where
  all : forall key, lsm'.holds key = afterAction key (lsm.holds key) a

/-- The trees differ in nothing that is read or flushed. -/
structure SameData (lsm lsm' : LSMTree) : Prop where
  dir : lsm'.dir = lsm.dir
  config : lsm'.config = lsm.config
  memtable : lsm'.memtable = lsm.memtable
  immutables : lsm'.immutables = lsm.immutables
  levels : lsm'.levels = lsm.levels
  flush : lsm'.flush = lsm.flush
  closed : lsm'.closed = lsm.closed
  stopped : lsm'.stopped = lsm.stopped

variable {lsm lsm' : LSMTree}

theorem Moves.of {a : LSMAction} (sound : lsm'.Sound)
    (closed : lsm'.closed = lsm.closed) (stopped : lsm'.stopped = lsm.stopped)
    (config : lsm'.config = lsm.config)
    (all : forall key, lsm'.holds key = afterAction key (lsm.holds key) a) :
    Moves lsm lsm' a :=
  ⟨⟨sound, closed, stopped, config, fun key _ => all key⟩, all⟩

namespace LSMTree

variable (h : lsm.Sound)

include h

theorem Sound.same (hsame : SameData lsm lsm') {a : LSMAction}
    (hafter : forall key r, afterAction key r a = r) : Moves lsm lsm' a := by
  refine .of ⟨?_, ?_, ?_, ?_⟩ hsame.closed hsame.stopped hsame.config ?_
  · rw [hsame.memtable]
    exact h.memtable
  · rw [hsame.immutables]
    exact h.immutables
  · rw [hsame.levels, hsame.dir, hsame.config]
    exact h.levels
  · rw [hsame.flush, hsame.dir, hsame.config]
    exact h.flush
  · intro key
    rw [hafter, holds, holds, memoryGet, memoryGet, flushGet,
      flushGet, tablesGet, tablesGet, hsame.memtable, hsame.immutables,
      hsame.flush, hsame.levels, hsame.dir]

variable {key : Bytes} {now : Nat}

theorem Sound.put (hopen : lsm.closed = false) {value : Bytes}
    (hstep : lsm.put key value now = some lsm') :
    Moves lsm lsm' (.put key value now) := by
  unfold LSMTree.put at hstep
  rw [hopen] at hstep
  simp only [Bool.false_eq_true, if_false] at hstep
  cases hput : lsm.memtable.put key value now with
  | none =>
    rw [hput] at hstep
    cases hstep
  | some mt =>
  rw [hput] at hstep
  have hmt := h.memtable.put hput
  have hget := MemTable.get_put h.memtable.ordered hput
  simp only at hstep
  by_cases hfull : mt.atCapacity = true
  · rw [if_pos hfull, Option.some.injEq] at hstep
    subst hstep
    refine .of ⟨MemTable.sound_newMemTable _, ?_, h.levels, h.flush⟩
      hopen.symm rfl rfl ?_
    · intro x hx
      rcases List.mem_append.mp hx with hold | hnew
      · exact h.immutables x hold
      · rw [List.mem_singleton.mp hnew]
        exact hmt
    intro j
    have hempty : (newMemTable lsm.config.memTableCapacity).get j = none :=
      rfl
    simp only [holds, memoryGet, List.reverse_append,
      List.reverse_singleton, List.singleton_append,
      List.findSome?_cons, hempty, Option.none_or,
      hget, afterAction]
    by_cases hj : j = key
    · simp only [hj, if_true, Option.some_or]
    · simp only [hj, if_false]
      cases lsm.memtable.get j <;> rfl
  · rw [if_neg hfull, Option.some.injEq] at hstep
    subst hstep
    refine .of ⟨hmt, h.immutables, h.levels, h.flush⟩ hopen.symm rfl rfl ?_
    intro j
    simp only [holds, memoryGet, hget, afterAction]
    by_cases hj : j = key
    · simp only [hj, if_true, Option.some_or]
    · simp only [hj, if_false]
      rfl

theorem Sound.delete (hopen : lsm.closed = false)
    (hstep : lsm.delete key now = some lsm') :
    Moves lsm lsm' (.delete key now) := by
  unfold LSMTree.delete at hstep
  rw [hopen] at hstep
  simp only [Bool.false_eq_true, if_false] at hstep
  rcases Option.map_eq_some_iff.mp hstep with ⟨mt, hdelete, hmt⟩
  have hget := MemTable.get_delete h.memtable.ordered hdelete
  subst hmt
  refine .of ⟨h.memtable.delete hdelete, h.immutables, h.levels, h.flush⟩
    hopen.symm rfl rfl ?_
  intro j
  simp only [holds, memoryGet, hget, afterAction]
  by_cases hj : j = key
  · simp only [hj, if_true, Option.some_or]
  · simp only [hj, if_false]
    rfl

theorem Sound.takeImmutable (hstep : lsm.takeImmutable = some lsm') :
    Moves lsm lsm' .takeImmutable := by
  unfold LSMTree.takeImmutable at hstep
  split at hstep
  · cases hstep
  cases hflush : lsm.flush with
  | taken mt =>
    simp only [hflush] at hstep
    cases hstep
  | written sst =>
    simp only [hflush] at hstep
    cases hstep
  | idle =>
  cases himm : lsm.immutables with
  | nil =>
    simp only [hflush, himm, Option.some.injEq] at hstep
    subst hstep
    refine h.same ?_ (fun _ _ => rfl)
    exact ⟨rfl, rfl, rfl, himm.symm, rfl, hflush.symm, rfl, rfl⟩
  | cons mt rest =>
  simp only [hflush, himm] at hstep
  split at hstep
  · rw [Option.some.injEq] at hstep
    subst hstep
    refine h.same ?_ (fun _ _ => rfl)
    exact ⟨rfl, rfl, rfl, himm.symm, rfl, hflush.symm, rfl, rfl⟩
  rw [Option.some.injEq] at hstep
  subst hstep
  have hmt := h.immutables mt (by
    rw [himm]
    exact List.mem_cons_self ..)
  refine .of ⟨h.memtable, ?_, h.levels, hmt.freeze⟩ rfl rfl rfl ?_
  · intro x hx
    apply h.immutables x
    rw [himm]
    exact List.mem_cons_of_mem mt hx
  intro key
  simp only [holds, memoryGet, flushGet, hflush, himm,
    List.reverse_cons, List.findSome?_append, afterAction]
  have hsame : mt.freeze.get key = mt.get key := rfl
  rw [hsame]
  simp only [List.findSome?_cons, List.findSome?_nil,
    Option.none_or]
  cases lsm.memtable.get key <;>
    cases rest.reverse.findSome? (fun mt => mt.get key) <;>
    cases mt.get key <;> rfl

theorem tablesGet_extends {d : Disk} (hext : lsm.dir.disk.Extends d)
    (key : Bytes) :
    lsm.levels.findSome? (getFromLevel d key) = lsm.tablesGet key := by
  apply findSome?_congr
  intro level hlevel
  exact getFromLevel_extends (h.levels level hlevel) hext key

theorem Sound.writeImmutable_spec (hfits : TablesFit lsm (.writeImmutable now))
    (hstep : lsm.writeImmutable now = some lsm') :
    exists mt sst dir, lsm.flush = .taken mt ∧
      sst.path = tempSSTPath (lsm.sstSeq + 1) now ∧
      dir = lsm.dir.writeTable lsm.config.sizing sst.path mt.entries ∧
      openSSTable dir.disk sst.path = some sst ∧
      Readable dir.disk lsm.config.sizing sst ∧
      (forall key, getFrom dir.disk key sst = mt.get key) ∧
      lsm' = { lsm with
        dir := dir, flush := .written sst, sstSeq := lsm.sstSeq + 1 } := by
  unfold writeImmutable at hstep
  cases hflush : lsm.flush with
  | idle =>
    rw [hflush] at hstep
    cases hstep
  | written sst =>
    rw [hflush] at hstep
    cases hstep
  | taken mt =>
  have hmt := h.flush
  rw [TablesFit, hflush] at hfits
  rw [hflush] at hstep hmt
  rcases readable_writeFile hmt hfits lsm.dir.disk
    (tempSSTPath (lsm.sstSeq + 1) now) with
    ⟨sst, hsst, hpath, hread, hget⟩
  simp only [LSMDir.writeTable, hsst, Option.some.injEq] at hstep
  rw [← hpath] at hstep hsst hread hget
  exact ⟨mt, sst, _, rfl, hpath, rfl, hsst, hread, hget, hstep.symm⟩

theorem Sound.writeImmutable (hfits : TablesFit lsm (.writeImmutable now))
    (hstep : lsm.writeImmutable now = some lsm') :
    Moves lsm lsm' (.writeImmutable now) := by
  rcases h.writeImmutable_spec hfits hstep with
    ⟨mt, sst, dir, hflush, _, hdir, _, hread, hget, hlsm⟩
  have hext : lsm.dir.disk.Extends dir.disk := by
    rw [hdir]
    exact Disk.extends_writeFile _ _ _
  subst hlsm
  refine .of ⟨h.memtable, h.immutables, ?_, hread⟩ rfl rfl rfl ?_
  · intro level hlevel x hx
    exact (h.levels level hlevel x hx).extends hext
  intro key
  simp only [holds, memoryGet, flushGet, hflush, tablesGet,
    hget, afterAction]
  rw [tablesGet_extends h hext]
  rfl

omit h in
theorem installTable_cases (hstep : lsm.installTable = some lsm') :
    exists sst, lsm.flush = .written sst ∧
      (lsm.closed = true ∧ lsm' = { lsm with flush := .idle } ∨
        lsm.closed = false ∧ exists l0 rest, lsm.levels = l0 :: rest ∧
          lsm' = { lsm with
            dir := lsm.dir.add 0 sst
            levels := (l0 ++ [sst]) :: rest
            flush := .idle
            merges :=
              if (l0 ++ [sst]).length ≥ 4 then lsm.merges + 1
              else lsm.merges }) := by
  unfold installTable at hstep
  split at hstep
  · rename_i sst hflush
    refine ⟨sst, hflush, ?_⟩
    split at hstep
    · rename_i hclosed
      cases hstep
      exact Or.inl ⟨hclosed, rfl⟩
    rename_i hopen
    split at hstep
    · cases hstep
    · rename_i l0 rest hlevels
      cases hstep
      exact Or.inr ⟨by simpa using hopen, l0, rest, hlevels, rfl⟩
  · cases hstep

theorem Sound.installTable (hopen : lsm.closed = false)
    (hstep : lsm.installTable = some lsm') :
    Moves lsm lsm' .installTable := by
  rcases installTable_cases hstep with ⟨sst, hflush, hshut | hput⟩
  · rw [hshut.left] at hopen
    cases hopen
  rcases hput with ⟨_, l0, rest, hlevels, hlsm⟩
  subst hlsm
  have hsst := h.flush
  rw [hflush] at hsst
  have hall := h.levels
  rw [hlevels] at hall
  refine .of ⟨h.memtable, h.immutables, ?_, trivial⟩ rfl rfl rfl ?_
  · intro level hlevel x hx
    rcases List.mem_cons.mp hlevel with hfirst | hrest
    · rw [hfirst] at hx
      rcases List.mem_append.mp hx with hold | hnew
      · exact hall l0 (List.mem_cons_self ..) x hold
      · rw [List.mem_singleton.mp hnew]
        exact hsst
    · exact hall level (List.mem_cons_of_mem l0 hrest) x hx
  · intro key
    simp only [holds, memoryGet, flushGet, hflush, tablesGet,
      hlevels, List.findSome?_cons, getFromLevel, List.reverse_append,
      List.reverse_singleton, List.singleton_append, LSMDir.add,
      afterAction, Option.none_or]
    cases getFrom lsm.dir.disk key sst <;> rfl

variable {order : List (Nat × (Bytes × Bool))}

omit h in
theorem mergeL0_spec {l0 : List SSTable} {rest : List (List SSTable)}
    (hlevels : lsm.levels = l0 :: rest) {m : Merge}
    (hfits : TableFits lsm.config.sizing (mergedTable order now).entries)
    (hmerge : lsm.mergeL0 order now = some m) :
    exists merged sst, mergeTables lsm.dir.disk [] l0 = some merged ∧
      order.Perm merged ∧ m.inputs = l0 ∧ m.table = some sst ∧
      sst.path = tempSSTPath (lsm.sstSeq + 1) now ∧
      m.dir = lsm.dir.writeTable lsm.config.sizing sst.path
        (mergedTable order now).entries ∧
      openSSTable m.dir.disk sst.path = some sst ∧
      Readable m.dir.disk lsm.config.sizing sst ∧
      forall key, getFrom m.dir.disk key sst =
        (mergedTable order now).get key := by
  unfold mergeL0 at hmerge
  rw [hlevels] at hmerge
  simp only at hmerge
  cases hmerged : mergeTables lsm.dir.disk [] l0 with
  | none =>
    rw [hmerged] at hmerge
    cases hmerge
  | some merged =>
  rw [hmerged] at hmerge
  simp only at hmerge
  by_cases horder : order.Perm merged
  · rw [if_pos horder, Option.some.injEq] at hmerge
    rcases readable_writeFile (sound_mergedTable order now) hfits
      lsm.dir.disk (tempSSTPath (lsm.sstSeq + 1) now) with
      ⟨sst, hsst, hpath, hsound, hfrom⟩
    subst hmerge
    refine ⟨merged, sst, rfl, horder, rfl, hsst, hpath, ?_, ?_, hsound,
      hfrom⟩
    · rw [hpath]
    · rw [hpath]
      exact hsst
  · rw [if_neg horder] at hmerge
    cases hmerge

omit h in
theorem compactL0_cases (hstep : lsm.compactL0 order now = some lsm') :
    exists l0 rest, lsm.levels = l0 :: rest ∧
      ((l0.length < 4 ∧ lsm' = { lsm with merges := lsm.merges - 1 }) ∨
        4 ≤ l0.length ∧ exists m, lsm.mergeL0 order now = some m ∧
          (m.table = none ∨ exists sst l1 deeper,
            m.table = some sst ∧ rest = l1 :: deeper ∧
            lsm' = { lsm with
              dir := (l0.foldl removeTable m.dir).add 1 sst
              levels := [] :: (l1 ++ [sst]) :: deeper
              merges := lsm.merges - 1
              sstSeq := lsm.sstSeq + 1 })) := by
  unfold compactL0 at hstep
  split at hstep
  · cases hstep
  cases hlevels : lsm.levels with
  | nil =>
    rw [hlevels] at hstep
    cases hstep
  | cons l0 rest =>
  rw [hlevels] at hstep
  simp only at hstep
  refine ⟨l0, rest, rfl, ?_⟩
  by_cases hfew : l0.length < 4
  · rw [if_pos hfew, Option.some.injEq] at hstep
    exact Or.inl ⟨hfew, hlevels ▸ hstep.symm⟩
  rw [if_neg hfew] at hstep
  refine Or.inr ⟨Nat.le_of_not_lt hfew, ?_⟩
  cases hmerge : lsm.mergeL0 order now with
  | none =>
    rw [hmerge] at hstep
    cases hstep
  | some m =>
  rw [hmerge] at hstep
  refine ⟨m, rfl, ?_⟩
  cases htable : m.table with
  | none => exact Or.inl rfl
  | some sst =>
  simp only [htable] at hstep
  cases rest with
  | nil => cases hstep
  | cons l1 deeper =>
  rw [Option.some.injEq] at hstep
  exact Or.inr ⟨sst, l1, deeper, rfl, rfl, hstep.symm⟩

omit h in
theorem compactL0_of_fits (hfits : TablesFit lsm (.compactL0 order now))
    (hstep : lsm.compactL0 order now = some lsm') :
    exists l0 rest, lsm.levels = l0 :: rest ∧
      ((l0.length < 4 ∧ lsm' = { lsm with merges := lsm.merges - 1 }) ∨
        4 ≤ l0.length ∧ exists m sst l1 deeper,
          lsm.mergeL0 order now = some m ∧ m.table = some sst ∧
          rest = l1 :: deeper ∧
          lsm' = { lsm with
            dir := (l0.foldl removeTable m.dir).add 1 sst
            levels := [] :: (l1 ++ [sst]) :: deeper
            merges := lsm.merges - 1
            sstSeq := lsm.sstSeq + 1 }) := by
  rcases compactL0_cases hstep with ⟨l0, rest, hlevels, hfew | hmany⟩
  · exact ⟨l0, rest, hlevels, Or.inl hfew⟩
  rcases hmany with ⟨hfour, m, hmerge, hnone | hmerged⟩
  · rcases mergeL0_spec hlevels hfits hmerge with
      ⟨_, sst, _, _, _, htable, _⟩
    rw [hnone] at htable
    cases htable
  · rcases hmerged with ⟨sst, l1, deeper, htable, hrest, hlsm⟩
    exact ⟨l0, rest, hlevels,
      Or.inr ⟨hfour, m, sst, l1, deeper, hmerge, htable, hrest, hlsm⟩⟩

theorem Sound.flushGet_extends (hflush : lsm'.flush = lsm.flush)
    (hext : lsm.dir.disk.Extends lsm'.dir.disk) (key : Bytes) :
    lsm'.flushGet key = lsm.flushGet key := by
  have hphase := h.flush
  unfold flushGet
  rw [hflush]
  cases hcase : lsm.flush with
  | idle => rfl
  | taken mt => rfl
  | written t =>
  rw [hcase] at hphase
  exact hphase.getFrom_extends hext key

omit h in
theorem findSome?_merge {d : Disk} {sst : SSTable} {l0 : List SSTable}
    (l1 : List SSTable) (rest : List (List SSTable))
    (hsame : getFrom d key sst = getFromLevel d key l0) :
    ([] :: (l1 ++ [sst]) :: rest).findSome? (getFromLevel d key) =
      (l0 :: l1 :: rest).findSome? (getFromLevel d key) := by
  have hnil : getFromLevel d key [] = none := rfl
  have hlevel : getFromLevel d key (l1 ++ [sst]) =
      (getFromLevel d key l0).or (getFromLevel d key l1) := by
    rw [← hsame]
    unfold getFromLevel
    rw [List.reverse_append, List.findSome?_append]
    simp only [List.reverse_singleton, List.findSome?_cons, List.findSome?_nil]
    cases getFrom d key sst <;> rfl
  rw [List.findSome?_cons, hnil, List.findSome?_cons, hlevel,
    List.findSome?_cons, List.findSome?_cons]
  cases getFromLevel d key l0 <;> rfl

theorem Sound.tablesGet_merged {l0 l1 : List SSTable}
    {deeper : List (List SSTable)} (hlevels : lsm.levels = l0 :: l1 :: deeper)
    {m : Merge}
    (hfits : TableFits lsm.config.sizing (mergedTable order now).entries)
    (hmerge : lsm.mergeL0 order now = some m) {sst : SSTable}
    (htable : m.table = some sst) (hkey : key.length = 8) :
    ([] :: (l1 ++ [sst]) :: deeper).findSome?
        (getFromLevel (l0.foldl removeTable m.dir).disk key) =
      lsm.tablesGet key := by
  rcases mergeL0_spec hlevels hfits hmerge with
    ⟨merged, sst', hfound, horder, _, htable', _, hdir, _, hread, hget⟩
  rw [htable, Option.some.injEq] at htable'
  subst htable'
  have hwritten : lsm.dir.disk.Extends m.dir.disk := by
    rw [hdir]
    exact Disk.extends_writeFile _ _ _
  have hremoved := LSMDir.extends_foldl_removeTable l0 m.dir
  have hext := hwritten.trans hremoved
  have hl0 := h.levels l0 (by
    rw [hlevels]
    exact List.mem_cons_self ..)
  have hold := tablesGet_extends h hext key
  rw [hlevels] at hold
  have hnew := hread.getFrom_extends hremoved key
  rw [hget key, get_mergedTable hl0 hfound horder now hkey,
    ← getFromLevel_extends hl0 hext key] at hnew
  rw [← hold]
  exact findSome?_merge l1 deeper hnew

theorem Sound.compactL0 (hfits : TablesFit lsm (.compactL0 order now))
    (hstep : lsm.compactL0 order now = some lsm') :
    Steps lsm lsm' (.compactL0 order now) ∧
      forall key, key.length = 8 -> lsm'.tablesGet key = lsm.tablesGet key := by
  rcases compactL0_of_fits hfits hstep with ⟨l0, rest, hlevels, hfew | hmany⟩
  · rcases hfew with ⟨_, hsame⟩
    subst hsame
    refine ⟨(h.same ?_ (fun _ _ => rfl)).toSteps, fun _ _ => rfl⟩
    exact ⟨rfl, rfl, rfl, rfl, rfl, rfl, rfl, rfl⟩
  rcases hmany with ⟨_, m, sst, l1, deeper, hmerge, htable, hrest, hlsm⟩
  rcases mergeL0_spec hlevels hfits hmerge with
    ⟨_, sst', _, _, _, htable', _, hdir, _, hread, _⟩
  rw [htable, Option.some.injEq] at htable'
  subst htable' hrest
  have hwritten : lsm.dir.disk.Extends m.dir.disk := by
    rw [hdir]
    exact Disk.extends_writeFile _ _ _
  have hremoved := LSMDir.extends_foldl_removeTable l0 m.dir
  have hext := hwritten.trans hremoved
  have hall := h.levels
  rw [hlevels] at hall
  have htables : forall key, key.length = 8 ->
      lsm'.tablesGet key = lsm.tablesGet key := by
    intro key hkey
    rw [← h.tablesGet_merged hlevels hfits hmerge htable hkey, hlsm]
    rfl
  have hflush : forall key, lsm'.flushGet key = lsm.flushGet key :=
    h.flushGet_extends (by rw [hlsm]) (by rw [hlsm]; exact hext)
  refine ⟨?_, htables⟩
  subst hlsm
  refine ⟨⟨h.memtable, h.immutables, ?_, ?_⟩, rfl, rfl, rfl, ?_⟩
  · intro level hlevel x hx
    rcases List.mem_cons.mp hlevel with hfirst | hlevel
    · rw [hfirst] at hx
      cases hx
    rcases List.mem_cons.mp hlevel with hsecond | hlater
    · rw [hsecond] at hx
      rcases List.mem_append.mp hx with hold | hnew
      · exact (hall l1 (List.mem_cons_of_mem _
          (List.mem_cons_self ..)) x hold).extends hext
      · rw [List.mem_singleton.mp hnew]
        exact hread.extends hremoved
    · exact (hall level (List.mem_cons_of_mem _
        (List.mem_cons_of_mem _ hlater)) x hx).extends hext
  · have hflush := h.flush
    cases hphase : lsm.flush with
    | idle => trivial
    | taken mt =>
      rw [hphase] at hflush
      exact hflush
    | written t =>
    rw [hphase] at hflush
    exact hflush.extends hext
  · intro key hkey
    rw [holds, hflush, htables key hkey]
    rfl

theorem Sound.step (hopen : lsm.closed = false) {a : LSMAction}
    (hfits : TablesFit lsm a) (hruns : a.Runs) (hstep : lsm.step a = some lsm') :
    Steps lsm lsm' a := by
  cases a with
  | put key value now => exact (h.put hopen hstep).toSteps
  | delete key now => exact (h.delete hopen hstep).toSteps
  | takeImmutable => exact (h.takeImmutable hstep).toSteps
  | writeImmutable now => exact (h.writeImmutable hfits hstep).toSteps
  | installTable => exact (h.installTable hopen hstep).toSteps
  | compactL0 order now => exact (h.compactL0 hfits hstep).left
  | beginClose => cases hruns
  | endClose => cases hruns

omit h

theorem sound_newLSMTree (config : LSMConfig) (seq : Nat) :
    (newLSMTree .empty config seq).Sound where
  memtable := MemTable.sound_newMemTable _
  immutables := by
    intro mt hmt
    cases hmt
  levels := by
    intro level hlevel sst hsst
    rw [List.eq_of_mem_replicate hlevel] at hsst
    cases hsst
  flush := trivial

end LSMTree

/-!
## Runs
-/

/-- What a run keeps: the tree holds the latest write of every key. -/
def KeepsLatest (config : LSMConfig) (lsm : LSMTree)
    (actions : List LSMAction) : Prop :=
  lsm.Sound ∧ lsm.closed = false ∧
    lsm.config = (newLSMTree .empty config 0).config ∧
    forall key, key.length = 8 -> lsm.holds key = latestWrite actions key

/--
A read of the key does not depend on the flush under way: the key is in memory,
or not in the flush, or the tables give for it what the flush does.
-/
def Uncovered (lsm : LSMTree) (key : Bytes) : Prop :=
  lsm.memoryGet key ≠ none ∨ lsm.flushGet key = none ∨
    lsm.flushGet key = lsm.tablesGet key

theorem get_eq_holds_iff (lsm : LSMTree) (key : Bytes) :
    lsm.get key = lsm.holds key <-> Uncovered lsm key := by
  rw [lsm.get_eq, holds, Uncovered]
  cases lsm.memoryGet key with
  | some r => simp
  | none =>
  cases lsm.flushGet key with
  | none => simp
  | some r =>
  simp only [Option.none_or, Option.some_or, ne_eq, not_true,
    reduceCtorEq, false_or]
  exact eq_comm

theorem keepsLatest_run {config : LSMConfig} {actions : List LSMAction}
    (hruns : forall a, a ∈ actions -> a.Runs)
    (hfits : Meets LSMTree.step TablesFit (newLSMTree .empty config 0) actions)
    (hrun : run? LSMTree.step (newLSMTree .empty config 0) actions =
      some lsm) : KeepsLatest config lsm actions := by
  have hstart : KeepsLatest config (newLSMTree .empty config 0) [] := by
    refine ⟨sound_newLSMTree config 0, rfl, rfl, ?_⟩
    intro key _
    have hnone : (newLSMTree .empty config 0).tablesGet key = none := by
      unfold tablesGet
      rw [List.findSome?_eq_none_iff]
      intro level hlevel
      rw [List.eq_of_mem_replicate hlevel]
      rfl
    rw [holds, hnone]
    rfl
  have hstep : forall s past a s', KeepsLatest config s past ->
      TablesFit s a ∧ a.Runs -> s.step a = some s' ->
      KeepsLatest config s' (past ++ [a]) := by
    intro s past a s' hs hcond hone
    rcases hs with ⟨hsound, hopen, hconfig, hlatest⟩
    have hsteps := hsound.step hopen hcond.left hcond.right hone
    refine ⟨hsteps.sound, hsteps.closed.trans hopen,
      hsteps.config.trans hconfig, ?_⟩
    intro key hkey
    rw [hsteps.holds key hkey, hlatest key hkey, latestWrite_concat]
  exact run?_trace_of_meets hstep hstart (hfits.and hruns) hrun

/--
In every run of writes, flush steps and merges, a read of an eight-byte key
gives its latest write exactly when it does not depend on the flush under way.
-/
theorem get_latestWrite_iff {config : LSMConfig} {actions : List LSMAction}
    {lsm : LSMTree} (hruns : forall a, a ∈ actions -> a.Runs)
    (hfits : Meets LSMTree.step TablesFit (newLSMTree .empty config 0) actions)
    (hrun : run? LSMTree.step (newLSMTree .empty config 0) actions = some lsm)
    {key : Bytes} (hkey : key.length = 8) :
    lsm.get key = latestWrite actions key <-> Uncovered lsm key := by
  rcases keepsLatest_run hruns hfits hrun with ⟨_, _, _, hlatest⟩
  rw [← hlatest key hkey]
  exact get_eq_holds_iff lsm key

def tinyConfig : LSMConfig where
  memTableCapacity := 1
  sizing := { numBits := fun _ => 64, numHash := fun _ _ => 2 }
  maxLevel := 7
  maxSSTables := 100

def flushedOnce : List LSMAction :=
  [.put (be 8 5) [1] 10, .takeImmutable, .writeImmutable 11, .installTable,
    .put (be 8 5) [2] 12, .takeImmutable, .writeImmutable 13, .installTable]

/-- The key is read from its second table. -/
theorem get_flushedOnce :
    exists lsm, run? LSMTree.step (newLSMTree .empty tinyConfig 0) flushedOnce =
        some lsm ∧
      lsm.get (be 8 5) = some ([2], false) := by
  have hcheck : (run? LSMTree.step (newLSMTree .empty tinyConfig 0)
      flushedOnce).map (fun lsm => decide (lsm.flushGet (be 8 5) = none)) =
        some true := by
    decide +kernel
  rcases Option.map_eq_some_iff.mp hcheck with ⟨lsm, hrun, hidle⟩
  refine ⟨lsm, hrun, ?_⟩
  exact (get_latestWrite_iff
    (by decide : forall a, a ∈ flushedOnce -> a.Runs)
    (by decide +kernel) hrun (by decide : (be 8 5).length = 8)).mpr
    (Or.inr (Or.inl (of_decide_eq_true hidle)))

/-- The key is not found while its memtable is written to a table. -/
theorem get_misses_taken :
    ¬ forall (config : LSMConfig) (actions : List LSMAction) (lsm : LSMTree),
      (forall a, a ∈ actions -> a.Runs) ->
      run? LSMTree.step (newLSMTree .empty config 0) actions = some lsm ->
      forall key, key.length = 8 ->
        lsm.get key = latestWrite actions key := by
  intro hall
  have hcheck : (run? LSMTree.step (newLSMTree .empty tinyConfig 0)
      [.put (be 8 5) [1] 10, .takeImmutable]).map
        (fun lsm => decide (lsm.get (be 8 5) = none)) = some true := by
    decide +kernel
  rcases Option.map_eq_some_iff.mp hcheck with ⟨lsm, hrun, hnone⟩
  have hget := hall tinyConfig [.put (be 8 5) [1] 10, .takeImmutable] lsm
    (by decide) hrun (be 8 5) (by decide)
  rw [of_decide_eq_true hnone] at hget
  revert hget
  decide

end Warm
end ChimeraMQ
