import ChimeraMQ.Warm.LSMReopen

/-!
# Crashes in a merge

A merge removes the tables of level 0 from the manifest, the oldest first, and
adds the merged table at the end.  A crash between the two loses what the tables
removed so far gave and no other table gives.
-/

namespace ChimeraMQ
namespace Warm

open Foundation

namespace LSMTree

/-- What the tables of level 0 give without the first of them. -/
def leftGet (lsm : LSMTree) (j : Nat) (key : Bytes) : Option (Bytes × Bool) :=
  getFromLevel lsm.dir.disk key ((lsm.levels.headD []).drop j)

def removedGet (lsm : LSMTree) (j : Nat) (key : Bytes) :
    Option (Bytes × Bool) :=
  getFromLevel lsm.dir.disk key ((lsm.levels.headD []).take j)

def deeperGet (lsm : LSMTree) (key : Bytes) : Option (Bytes × Bool) :=
  lsm.levels.tail.findSome? (getFromLevel lsm.dir.disk key)

def MergeDone (lsm : LSMTree) (k : Nat) : Prop :=
  k = 2 * (lsm.levels.headD []).length + 2

def TablesKept (lsm : LSMTree) (k : Nat) (key : Bytes) : Prop :=
  lsm.MergeDone k ∨ lsm.leftGet (k / 2) key ≠ none ∨
    lsm.removedGet (k / 2) key = none ∨
    lsm.removedGet (k / 2) key = lsm.deeperGet key

instance (lsm : LSMTree) (k : Nat) : Decidable (lsm.MergeDone k) :=
  inferInstanceAs (Decidable (k = _))

def survivorsGet (lsm : LSMTree) (k : Nat) (key : Bytes) :
    Option (Bytes × Bool) :=
  if lsm.MergeDone k then lsm.tablesGet key
  else (lsm.leftGet (k / 2) key).or (lsm.deeperGet key)

variable {lsm : LSMTree}

theorem getFromLevel_split (d : Disk) (key : Bytes) (level : List SSTable)
    (j : Nat) :
    getFromLevel d key level =
      (getFromLevel d key (level.drop j)).or
        (getFromLevel d key (level.take j)) := by
  unfold getFromLevel
  rw [← List.findSome?_append, ← List.reverse_append, List.take_append_drop]

theorem tablesGet_split (lsm : LSMTree) (j : Nat) (key : Bytes) :
    lsm.tablesGet key =
      (lsm.leftGet j key).or
        ((lsm.removedGet j key).or (lsm.deeperGet key)) := by
  unfold tablesGet leftGet removedGet deeperGet
  cases lsm.levels with
  | nil => simp [getFromLevel]
  | cons l0 rest =>
  rw [List.findSome?_cons, getFromLevel_split lsm.dir.disk key l0 j,
    List.headD_cons, List.tail_cons, ← Option.or_assoc]
  cases (getFromLevel lsm.dir.disk key (l0.drop j)).or
    (getFromLevel lsm.dir.disk key (l0.take j)) <;> rfl

theorem survivorsGet_eq_tablesGet_iff (lsm : LSMTree) (k : Nat) (key : Bytes) :
    lsm.survivorsGet k key = lsm.tablesGet key <-> lsm.TablesKept k key := by
  unfold survivorsGet TablesKept
  by_cases hdone : lsm.MergeDone k
  · simp [hdone]
  rw [if_neg hdone, tablesGet_split lsm (k / 2)]
  cases lsm.leftGet (k / 2) key with
  | some r => simp
  | none =>
  cases lsm.removedGet (k / 2) key with
  | none => simp
  | some r =>
  simp only [hdone, Option.none_or, Option.some_or, ne_eq, not_true,
    reduceCtorEq, false_or]
  exact eq_comm

theorem get_newLSMTree (dir : LSMDir) (config : LSMConfig) (seq : Nat)
    (key : Bytes) :
    (newLSMTree dir config seq).get key =
      (loadLevels dir config.maxLevel).findSome?
        (getFromLevel dir.disk key) := rfl

theorem Serving.get_crash (h : lsm.Serving) (hopen : lsm.stopped = false)
    {order : List (Nat × (Bytes × Bool))} {now : Nat}
    (hwrites : WritesTable lsm (.compactL0 order now)) {dirs : List LSMDir}
    (hdirs : lsm.compactionDirs order now = some dirs) {k : Nat} {d : LSMDir}
    (hd : dirs[k]? = some d) (seq : Nat) {key : Bytes} (hkey : key.length = 8) :
    (newLSMTree d lsm.config seq).get key = lsm.survivorsGet k key := by
  have hsound := h.sound hopen
  have hload := h.backed.levels_eq hsound
  rw [loadLevels_eq] at hload
  rw [get_newLSMTree, loadLevels_eq]
  cases hlevels : lsm.levels with
  | nil => simp [LSMTree.compactionDirs, mergeL0, hlevels] at hdirs
  | cons l0 rest =>
  rw [hlevels, cons_eq_map_range_iff] at hload
  rcases hload with ⟨n, hn, hl0, hrest⟩
  have hmergeDone : lsm.MergeDone k <-> k = 2 * l0.length + 2 := by
    rw [MergeDone, hlevels, List.headD_cons]
  unfold survivorsGet
  rcases h.backed.compactionDirs hlevels hwrites hdirs hd with
    hpart | hdone
  · rcases hpart with ⟨hk, _, hext, htables⟩
    have hnot : ¬ lsm.MergeDone k := by
      rw [hmergeDone]
      omega
    have hcons : (List.range lsm.config.maxLevel).map d.tablesAt =
        l0.drop (k / 2) :: rest := by
      symm
      rw [cons_eq_map_range_iff]
      refine ⟨n, hn, ?_, ?_⟩
      · rw [htables, if_pos rfl, hl0]
      rw [hrest]
      apply List.map_congr_left
      intro i _
      rw [htables, if_neg (Nat.succ_ne_zero i)]
    have hl0read := hsound.levels l0 (by
      rw [hlevels]
      exact List.mem_cons_self ..)
    have hleft : getFromLevel d.disk key (l0.drop (k / 2)) =
        lsm.leftGet (k / 2) key := by
      rw [leftGet, hlevels, List.headD_cons]
      exact getFromLevel_extends
        (fun sst hsst => hl0read sst (List.mem_of_mem_drop hsst)) hext key
    have hdeeper : rest.findSome? (getFromLevel d.disk key) =
        lsm.deeperGet key := by
      rw [deeperGet, hlevels, List.tail_cons]
      apply findSome?_congr
      intro level hlevel
      refine getFromLevel_extends (hsound.levels level ?_) hext key
      rw [hlevels]
      exact List.mem_cons_of_mem l0 hlevel
    rw [if_neg hnot, hcons, List.findSome?_cons, hleft, hdeeper]
    cases lsm.leftGet (k / 2) key <;> rfl
  rcases hdone with ⟨hk, htwo, m, sst, hmerge, hm, hdir⟩
  rw [if_pos (hmergeDone.mpr hk)]
  cases rest with
  | nil =>
    rw [hlevels] at htwo
    simp at htwo
  | cons l1 deeper =>
  rw [cons_eq_map_range_iff] at hrest
  rcases hrest with ⟨i, hi, hl1, hdeeper⟩
  have htables := (hm.merged h.backed).right
  have hcons : (List.range lsm.config.maxLevel).map d.tablesAt =
      [] :: (l1 ++ [sst]) :: deeper := by
    symm
    rw [cons_eq_map_range_iff]
    refine ⟨n, hn, ?_, ?_⟩
    · rw [hdir, htables, if_pos rfl]
    rw [cons_eq_map_range_iff]
    refine ⟨i, hi, ?_, ?_⟩
    · rw [hdir, htables, if_neg (by omega), if_pos (by omega), hl1]
    rw [hdeeper]
    apply List.map_congr_left
    intro x _
    rw [hdir, htables, if_neg (by omega), if_neg (by omega)]
  rw [hcons, ← hsound.tablesGet_merged hlevels hwrites.left hmerge
    hm.table hkey, hdir]
  rfl

end LSMTree

/-- The memtables add nothing to what the tables that a crash leaves give. -/
def MemoryKept (lsm : LSMTree) (k : Nat) (key : Bytes) : Prop :=
  lsm.memoryGet key = none ∨ lsm.memoryGet key = lsm.survivorsGet k key

/--
A crash within a merge leaves a key as it was exactly when the memtables add
nothing and, unless it is in them, nor do the removed tables.
-/
theorem get_crash_iff {config : LSMConfig} {seq : Nat}
    {events : List LSMEvent} {lsm : LSMTree}
    (hwrites : Meets LSMTree.event EventWrites (newLSMTree .empty config seq)
      events)
    (hrun : run? LSMTree.event (newLSMTree .empty config seq) events =
      some lsm)
    (hopen : lsm.stopped = false)
    {order : List (Nat × (Bytes × Bool))} {now : Nat}
    (hmerge : WritesTable lsm (.compactL0 order now)) {dirs : List LSMDir}
    (hdirs : lsm.compactionDirs order now = some dirs) {k : Nat} {dir : LSMDir}
    (hdir : dirs[k]? = some dir) (seq' : Nat) {key : Bytes}
    (hkey : key.length = 8) :
    (newLSMTree dir lsm.config seq').get key = lsm.get key <->
      MemoryKept lsm k key ∧
        (lsm.memoryGet key ≠ none ∨ lsm.TablesKept k key) := by
  have hserving := LSMTree.serving_run hwrites hrun
  rw [hserving.get_crash hopen hmerge hdirs hdir seq' hkey, lsm.get_eq,
    ← LSMTree.survivorsGet_eq_tablesGet_iff, MemoryKept]
  cases lsm.memoryGet key with
  | none => simp
  | some r => simp [eq_comm]

def fourTables : List LSMEvent :=
  ([1, 2, 3, 4].flatMap (fun i =>
    [.put (be 8 i) [7] i, .takeImmutable, .writeImmutable i,
      .installTable])).map LSMEvent.act

def fourEntries : List (Nat × (Bytes × Bool)) :=
  [1, 2, 3, 4].map (fun i => (i, ([7], false)))

/-- A crash after the last effect leaves the first key as it was. -/
theorem get_crash_done :
    exists lsm dirs dir, run? LSMTree.event (newLSMTree .empty tinyConfig 0)
        fourTables = some lsm ∧
      lsm.compactionDirs fourEntries 9 = some dirs ∧
      dirs[10]? = some dir ∧
      (newLSMTree dir lsm.config 0).get (be 8 1) = lsm.get (be 8 1) := by
  have hcheck : (run? LSMTree.event (newLSMTree .empty tinyConfig 0)
      fourTables).map (fun lsm => decide (lsm.stopped = false ∧
        WritesTable lsm (.compactL0 fourEntries 9) ∧
        ((lsm.compactionDirs fourEntries 9).bind
          (fun dirs => dirs[10]?)).isSome ∧
        lsm.memoryGet (be 8 1) = none ∧ lsm.MergeDone 10)) = some true := by
    decide +kernel
  rcases Option.map_eq_some_iff.mp hcheck with ⟨lsm, hrun, hfacts⟩
  rcases of_decide_eq_true hfacts with
    ⟨hopen, hmerge, hsome, hmemory, hdone⟩
  rcases Option.isSome_iff_exists.mp hsome with ⟨dir, hdir⟩
  rcases Option.bind_eq_some_iff.mp hdir with ⟨dirs, hdirs, hget⟩
  refine ⟨lsm, dirs, dir, hrun, hdirs, hget, ?_⟩
  exact (get_crash_iff (by decide +kernel) hrun hopen hmerge hdirs hget 0
    (by decide : (be 8 1).length = 8)).mpr
    ⟨Or.inl hmemory, Or.inr (Or.inl hdone)⟩

/-- A crash after the first removal from the manifest loses a key. -/
theorem get_crash_removed :
    ¬ forall (config : LSMConfig) (seq : Nat) (events : List LSMEvent)
        (lsm : LSMTree),
      Meets LSMTree.event EventWrites (newLSMTree .empty config seq) events ->
      run? LSMTree.event (newLSMTree .empty config seq) events = some lsm ->
      lsm.stopped = false -> lsm.merges ≠ 0 ->
      forall (order : List (Nat × (Bytes × Bool))) (now : Nat),
        WritesTable lsm (.compactL0 order now) ->
        forall (dirs : List LSMDir),
          lsm.compactionDirs order now = some dirs ->
          forall (k : Nat) (dir : LSMDir), dirs[k]? = some dir ->
            forall (key : Bytes), key.length = 8 ->
              lsm.memoryGet key = none -> lsm.tablesGet key ≠ none ->
              (newLSMTree dir lsm.config seq).get key = lsm.get key := by
  intro hall
  have hcheck : (run? LSMTree.event (newLSMTree .empty tinyConfig 0)
      fourTables).map (fun lsm => decide (lsm.stopped = false ∧
        lsm.merges ≠ 0 ∧ WritesTable lsm (.compactL0 fourEntries 9) ∧
        lsm.memoryGet (be 8 1) = none ∧ lsm.tablesGet (be 8 1) ≠ none ∧
        ((lsm.compactionDirs fourEntries 9).bind
          (fun dirs => dirs[2]?)).map (fun dir =>
            decide ((newLSMTree dir lsm.config 0).get (be 8 1) =
              lsm.get (be 8 1))) = some false)) = some true := by
    decide +kernel
  rcases Option.map_eq_some_iff.mp hcheck with ⟨lsm, hrun, hfacts⟩
  rcases of_decide_eq_true hfacts with
    ⟨hopen, hstarted, hmerge, hmemory, htables, hlost⟩
  rcases Option.map_eq_some_iff.mp hlost with ⟨dir, hdir, hne⟩
  rcases Option.bind_eq_some_iff.mp hdir with ⟨dirs, hdirs, hget⟩
  apply of_decide_eq_false hne
  exact hall tinyConfig 0 fourTables lsm (by decide +kernel) hrun hopen
    hstarted fourEntries 9 hmerge dirs hdirs 2 dir hget (be 8 1) (by decide)
    hmemory htables

end Warm
end ChimeraMQ
