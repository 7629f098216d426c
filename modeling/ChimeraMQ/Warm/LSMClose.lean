import ChimeraMQ.Warm.LSMCrash

/-!
# Closing a tree

Closing a tree does not flush its memtables, and the merges that have been
started may run when the tables are closed: they find nothing in them and remove
them.
-/

namespace ChimeraMQ
namespace Warm

open Foundation

namespace LSMTree

variable {lsm lsm' : LSMTree}

def dirGet (lsm : LSMTree) (key : Bytes) : Option (Bytes × Bool) :=
  (loadLevels lsm.dir lsm.config.maxLevel).findSome?
    (getFromLevel lsm.dir.disk key)

def dirDeeperGet (lsm : LSMTree) (key : Bytes) : Option (Bytes × Bool) :=
  (loadLevels lsm.dir lsm.config.maxLevel).tail.findSome?
    (getFromLevel lsm.dir.disk key)

theorem Serving.tablesGet_eq (h : lsm.Serving) (hopen : lsm.stopped = false)
    (key : Bytes) :
    lsm.tablesGet key = lsm.dirGet key ∧
      lsm.deeperGet key = lsm.dirDeeperGet key := by
  unfold tablesGet deeperGet dirGet dirDeeperGet
  rw [← h.backed.levels_eq (h.sound hopen)]
  exact ⟨rfl, rfl⟩

/-!
## From the beginning of the close to its end
-/

theorem writeImmutable_cases {now : Nat}
    (hstep : lsm.writeImmutable now = some lsm') :
    lsm'.levels = lsm.levels ∧ lsm'.closed = lsm.closed ∧
      lsm'.stopped = lsm.stopped ∧
      lsm.dir.disk.Extends lsm'.dir.disk := by
  unfold LSMTree.writeImmutable at hstep
  split at hstep
  · simp only at hstep
    split at hstep
    · cases hstep
      exact ⟨rfl, rfl, rfl, Disk.extends_writeFile _ _ _⟩
    · cases hstep
      exact ⟨rfl, rfl, rfl, Disk.extends_writeFile _ _ _⟩
  · cases hstep

structure Closing (lsm c : LSMTree) : Prop where
  serving : c.Serving
  config : c.config = lsm.config
  closed : c.closed = true
  opened : c.stopped = false
  tables : forall key, key.length = 8 -> c.tablesGet key = lsm.tablesGet key
  deeper : c.levels.headD [] = [] ∨
    forall key, c.deeperGet key = lsm.deeperGet key

theorem Closing.of_levels {c c' : LSMTree} (h : Closing lsm c)
    (hserving : c'.Serving) (hconfig : c'.config = c.config)
    (hclosed : c'.closed = c.closed) (hopened : c'.stopped = c.stopped)
    (hlevels : c'.levels = c.levels)
    (hext : c.dir.disk.Extends c'.dir.disk) : Closing lsm c' where
  serving := hserving
  config := hconfig.trans h.config
  closed := hclosed.trans h.closed
  opened := hopened.trans h.opened
  tables := by
    intro key hkey
    rw [← h.tables key hkey, tablesGet, hlevels]
    exact tablesGet_extends (h.serving.sound h.opened) hext key
  deeper := by
    rw [hlevels]
    refine h.deeper.imp_right ?_
    intro hsame key
    rw [← hsame key, deeperGet, deeperGet, hlevels]
    apply findSome?_congr
    intro level hlevel
    exact getFromLevel_extends ((h.serving.sound h.opened).levels level
      (List.mem_of_mem_tail hlevel)) hext key

theorem Closing.step {c c' : LSMTree} (h : Closing lsm c) {a : LSMAction}
    (hwrites : WritesTable c a) (ha : a ≠ .endClose)
    (hstep : c.step a = some c') : Closing lsm c' := by
  have hsound := h.serving.sound h.opened
  rcases h.serving.step hwrites hstep with ⟨hserving, hconfig⟩
  cases a with
  | put key value now =>
    have hopen := (put_cases hstep).left
    rw [h.closed] at hopen
    cases hopen
  | delete key now =>
    have hopen := (delete_cases hstep).left
    rw [h.closed] at hopen
    cases hopen
  | takeImmutable =>
    have hsteps := hsound.takeImmutable hstep
    rcases takeImmutable_cases hstep with ⟨_, hdir, hlevels, _⟩
    refine h.of_levels hserving hconfig hsteps.closed hsteps.stopped
      hlevels ?_
    rw [hdir]
    exact Disk.Extends.refl _
  | writeImmutable now =>
    rcases writeImmutable_cases hstep with ⟨hlevels, hclosed, hopened, hext⟩
    exact h.of_levels hserving hconfig hclosed hopened hlevels hext
  | installTable =>
    rcases installTable_cases hstep with ⟨_, _, hshut | hput⟩
    · rw [hshut.right] at hserving ⊢
      exact h.of_levels hserving rfl rfl rfl rfl (Disk.Extends.refl _)
    · have hclosed := h.closed
      rw [hput.left] at hclosed
      cases hclosed
  | compactL0 order now =>
    rcases hsound.compactL0 hwrites.left hstep with ⟨hsteps, htables⟩
    refine ⟨hserving, hconfig.trans h.config, hsteps.closed.trans h.closed,
      hsteps.stopped.trans h.opened, ?_, ?_⟩
    · intro key hkey
      rw [htables key hkey, h.tables key hkey]
    rcases compactL0_of_fits hwrites.left hstep with
      ⟨l0, rest, hlevels, hfew | hmany⟩
    · rw [hfew.right]
      exact h.deeper
    · rcases hmany with ⟨_, m, sst, l1, deeper, _, _, _, hlsm⟩
      rw [hlsm]
      exact Or.inl rfl
  | beginClose =>
    simp [LSMTree.step, LSMTree.beginClose, h.closed] at hstep
  | endClose => exact absurd rfl ha

theorem Closing.beginClose (h : lsm.Serving)
    (hstep : lsm.step .beginClose = some lsm') : Closing lsm lsm' := by
  have hserving := (h.step (a := .beginClose) ⟨trivial, trivial⟩ hstep).left
  simp only [LSMTree.step, LSMTree.beginClose] at hstep
  split at hstep
  · cases hstep
  rename_i hopen
  have hstopped := (h.sound_of_open (by simpa using hopen)).left
  cases hstep
  exact ⟨hserving, rfl, rfl, hstopped, fun _ _ => rfl, Or.inr fun _ => rfl⟩

/-!
## After the close
-/

theorem collectEntries_closed {d : Disk} {sst : SSTable}
    {found : List (Nat × (Bytes × Bool))} (hclosed : sst.closed = true)
    (hfound : collectEntries d sst = some found) : found = [] := by
  unfold collectEntries at hfound
  split at hfound
  · cases hfound
  cases hfound
  rw [List.filterMap_eq_nil_iff]
  intro off _
  simp [SSTable.get, hclosed]

theorem mergeTables_closed {d : Disk} {tables : List SSTable}
    {merged : List (Nat × (Bytes × Bool))}
    (hclosed : forall sst, sst ∈ tables -> sst.closed = true)
    (hmerged : mergeTables d [] tables = some merged) : merged = [] := by
  induction tables with
  | nil =>
    cases hmerged
    rfl
  | cons sst tables ih =>
  rcases mergeTables_cons_some hmerged with ⟨found, hfound, hrest⟩
  rw [collectEntries_closed (hclosed sst (List.mem_cons_self ..))
    hfound] at hrest
  exact ih (fun x hx => hclosed x (List.mem_cons_of_mem sst hx)) hrest

theorem Serving.compactL0_of_stopped (h : lsm.Serving)
    (hstopped : lsm.stopped = true) {a : LSMAction}
    (hstep : lsm.step a = some lsm') :
    exists order now, a = .compactL0 order now := by
  rcases h.shut hstopped with ⟨hclosed, hidle, _⟩
  cases a with
  | put key value now =>
    have hopen := (put_cases hstep).left
    rw [hclosed] at hopen
    cases hopen
  | delete key now =>
    have hopen := (delete_cases hstep).left
    rw [hclosed] at hopen
    cases hopen
  | takeImmutable =>
    have hopen := (takeImmutable_cases hstep).left
    rw [hstopped] at hopen
    cases hopen
  | writeImmutable now =>
    simp [LSMTree.step, LSMTree.writeImmutable, hidle] at hstep
  | installTable =>
    simp [LSMTree.step, LSMTree.installTable, hidle] at hstep
  | compactL0 order now => exact ⟨order, now, rfl⟩
  | beginClose => simp [LSMTree.step, LSMTree.beginClose, hclosed] at hstep
  | endClose => simp [LSMTree.step, LSMTree.endClose, hstopped] at hstep

theorem Serving.late_merge (h : lsm.Serving) (hstopped : lsm.stopped = true)
    {order : List (Nat × (Bytes × Bool))} {now : Nat}
    (hwrites : WritesTable lsm (.compactL0 order now))
    (hstep : lsm.compactL0 order now = some lsm') :
    lsm'.stopped = true ∧
      ((lsm.levels.headD []).length < 4 ∧ lsm'.dir = lsm.dir ∧
          lsm'.levels = lsm.levels ∨
        4 ≤ (lsm.levels.headD []).length ∧ lsm'.levels.headD [] = [] ∧
          forall key, lsm'.dirGet key = lsm.dirDeeperGet key) := by
  rcases compactL0_of_fits hwrites.left hstep with
    ⟨l0, rest, hlevels, hfew | hmany⟩
  · rcases hfew with ⟨hfew, hlsm⟩
    rw [hlsm, hlevels]
    exact ⟨hstopped, Or.inl ⟨hfew, rfl, rfl⟩⟩
  rcases hmany with
    ⟨hmany, m, sst', l1, deeper, hmerge, hsome, hrest, hlsm⟩
  rcases h.backed.wrote hlevels hwrites hmerge with ⟨sst, hm⟩
  rw [hm.table, Option.some.injEq] at hsome
  subst hsome
  rw [hlevels, List.headD_cons]
  refine ⟨by rw [hlsm]; exact hstopped, Or.inr ⟨hmany, by rw [hlsm]; rfl,
    ?_⟩⟩
  intro key
  -- the merged map is empty, and so is the new table
  have hempty : getFrom m.dir.disk key sst = none := by
    rcases mergeL0_spec hlevels hwrites.left hmerge with
      ⟨merged, t, hfound, horder, _, ht, _, _, _, _, hget⟩
    rw [hm.table, Option.some.injEq] at ht
    subst ht
    have hclosed := (h.shut hstopped).right.right
    rw [hlevels, List.headD_cons] at hclosed
    rw [mergeTables_closed hclosed hfound] at horder
    rw [hget, horder.eq_nil]
    rfl
  have hremoved := LSMDir.extends_foldl_removeTable l0 m.dir
  have hext := hm.grows.trans hremoved
  have hnew := hm.readable.getFrom_extends hremoved key
  rw [hempty] at hnew
  have hbacked := h.backed.levels
  rw [hlevels, List.map_cons, cons_eq_map_range_iff] at hbacked
  rcases hbacked with ⟨n, hn, hl0, hbacked⟩
  rw [hrest, List.map_cons, cons_eq_map_range_iff] at hbacked
  rcases hbacked with ⟨i, hi, hl1, hdeeper⟩
  have htables := (hm.merged h.backed).right
  have hafter : loadLevels lsm'.dir lsm'.config.maxLevel =
      [] :: (lsm.dir.tablesAt 1 ++ [sst]) ::
        (List.range i).map (fun k => lsm.dir.tablesAt (k + 1 + 1)) := by
    rw [loadLevels_eq, hlsm]
    symm
    rw [cons_eq_map_range_iff]
    refine ⟨n, hn, ?_, ?_⟩
    · rw [htables, if_pos rfl]
    rw [cons_eq_map_range_iff]
    refine ⟨i, hi, ?_, ?_⟩
    · rw [htables, if_neg (by omega), if_pos (by omega)]
    · apply List.map_congr_left
      intro k _
      rw [htables, if_neg (by omega), if_neg (by omega)]
  have hbefore : loadLevels lsm.dir lsm.config.maxLevel =
      lsm.dir.tablesAt 0 :: lsm.dir.tablesAt 1 ::
        (List.range i).map (fun k => lsm.dir.tablesAt (k + 1 + 1)) := by
    rw [loadLevels_eq, hn, hi, List.range_succ_eq_map,
      List.range_succ_eq_map]
    simp [Function.comp_def]
  have hdisk : lsm'.dir.disk = (l0.foldl removeTable m.dir).disk := by
    rw [hlsm]
    rfl
  have hsame : forall k, getFromLevel lsm'.dir.disk key
      (lsm.dir.tablesAt k) =
        getFromLevel lsm.dir.disk key (lsm.dir.tablesAt k) := by
    intro k
    rw [hdisk]
    exact getFromLevel_extends
      (fun t ht => h.backed.dir.readable ht) hext key
  have hlast : getFromLevel lsm'.dir.disk key
      (lsm.dir.tablesAt 1 ++ [sst]) =
        getFromLevel lsm.dir.disk key (lsm.dir.tablesAt 1) := by
    rw [← hsame 1, getFromLevel, List.reverse_append,
      List.reverse_singleton, List.singleton_append, List.findSome?_cons,
      hdisk, hnew]
    rfl
  have hnil : getFromLevel lsm'.dir.disk key [] = none := rfl
  rw [dirGet, dirDeeperGet, hafter, hbefore, List.tail_cons,
    List.findSome?_cons, hnil, List.findSome?_cons, List.findSome?_cons,
    hlast]
  have hrest : ((List.range i).map
      (fun k => lsm.dir.tablesAt (k + 1 + 1))).findSome?
        (getFromLevel lsm'.dir.disk key) =
      ((List.range i).map
        (fun k => lsm.dir.tablesAt (k + 1 + 1))).findSome?
          (getFromLevel lsm.dir.disk key) := by
    apply findSome?_congr
    intro level hlevel
    rcases List.mem_map.mp hlevel with ⟨k, _, hk⟩
    rw [← hk]
    exact hsame (k + 1 + 1)
  rw [hrest]

/-- A merge that runs after the close removes level 0. -/
def Wiped (shut : LSMTree) (late : List LSMAction) : Prop :=
  0 < late.length ∧ 4 ≤ (shut.levels.headD []).length

instance (shut : LSMTree) (late : List LSMAction) :
    Decidable (Wiped shut late) :=
  inferInstanceAs (Decidable (_ ∧ _))

theorem Serving.late_run_few (h : lsm.Serving) (hstopped : lsm.stopped = true)
    (hfew : (lsm.levels.headD []).length < 4) {late : List LSMAction}
    (hwrites : Meets LSMTree.step WritesTable lsm late)
    (hrun : run? LSMTree.step lsm late = some lsm') (key : Bytes) :
    lsm'.dirGet key = lsm.dirGet key := by
  have hinv : lsm'.Serving ∧ lsm'.stopped = true ∧
      lsm'.levels = lsm.levels ∧ lsm'.dirGet key = lsm.dirGet key := by
    refine @run?_invariant_of_meets LSMTree LSMAction LSMTree.step WritesTable
      (fun s => s.Serving ∧ s.stopped = true ∧ s.levels = lsm.levels ∧
        s.dirGet key = lsm.dirGet key) ?_ lsm lsm' late
      ⟨h, hstopped, rfl, rfl⟩ hwrites hrun
    intro s a s' hs hcond hone
    rcases hs with ⟨hserving, hstop, hlevels, hget⟩
    rcases hserving.step hcond hone with ⟨hserving', hconfig⟩
    rcases hserving.compactL0_of_stopped hstop hone with ⟨order, now, ha⟩
    subst ha
    rcases hserving.late_merge hstop hcond hone with ⟨hstop', hsame | hmany⟩
    · rcases hsame with ⟨_, hdir, hlevels'⟩
      refine ⟨hserving', hstop', hlevels'.trans hlevels, ?_⟩
      rw [← hget, dirGet, dirGet, hdir, hconfig]
    · have hmany := hmany.left
      rw [hlevels] at hmany
      omega
  exact hinv.right.right.right

theorem Serving.late_run (h : lsm.Serving) (hstopped : lsm.stopped = true)
    {late : List LSMAction}
    (hwrites : Meets LSMTree.step WritesTable lsm late)
    (hrun : run? LSMTree.step lsm late = some lsm') (key : Bytes) :
    lsm'.dirGet key =
      if Wiped lsm late then lsm.dirDeeperGet key else lsm.dirGet key := by
  by_cases hfew : (lsm.levels.headD []).length < 4
  · rw [if_neg (fun hw => by have := hw.right; omega)]
    exact h.late_run_few hstopped hfew hwrites hrun key
  cases late with
  | nil =>
    cases hrun
    rw [if_neg (fun hw => absurd hw.left (Nat.lt_irrefl 0))]
  | cons a rest =>
  rw [if_pos ⟨Nat.succ_pos _, Nat.le_of_not_lt hfew⟩]
  rcases run?_cons_some hrun with ⟨s, hone, hrest⟩
  have hserving := (h.step hwrites.left hone).left
  rcases h.compactL0_of_stopped hstopped hone with ⟨order, now, ha⟩
  subst ha
  rcases h.late_merge hstopped hwrites.left hone with
    ⟨hstop, hsame | hmany⟩
  · exact absurd hsame.left hfew
  rw [← hmany.right.right key]
  refine hserving.late_run_few hstop ?_ (hwrites.right s hone) hrest key
  rw [hmany.right.left]
  decide

theorem Serving.close_run (h : lsm.Serving) {during : List LSMAction}
    {shut : LSMTree}
    (hwrites : Meets LSMTree.step WritesTable lsm
      (.beginClose :: during ++ [.endClose]))
    (hrun : run? LSMTree.step lsm (.beginClose :: during ++ [.endClose]) =
      some shut) :
    shut.Serving ∧ shut.stopped = true ∧ shut.config = lsm.config ∧
      exists c, Closing lsm c ∧ shut.dir = c.dir ∧
        (shut.levels.headD []).length = (c.levels.headD []).length := by
  rcases run?_cons_some hrun with ⟨begun, hbegin, hrest⟩
  have hclosing := Closing.beginClose h hbegin
  have hmeets := hwrites.right begun hbegin
  have hmid : forall (actions : List LSMAction) (s : LSMTree),
      Closing lsm s ∨ s.Serving ∧ s.stopped = true ->
      Meets LSMTree.step WritesTable s (actions ++ [.endClose]) ->
      run? LSMTree.step s (actions ++ [.endClose]) = some shut ->
      exists c, Closing lsm c ∧ c.step .endClose = some shut := by
    intro actions
    induction actions with
    | nil =>
      intro s hs _ hone
      rcases run?_cons_some hone with ⟨s', hend, hnil⟩
      cases hnil
      rcases hs with hs | hs
      · exact ⟨s, hs, hend⟩
      · simp [LSMTree.step, LSMTree.endClose, hs.right] at hend
    | cons a actions ih =>
    intro s hs hw hall
    rcases run?_cons_some hall with ⟨s', hone, hnext⟩
    refine ih s' ?_ (hw.right s' hone) hnext
    rcases hs with hs | ⟨hserving, hstop⟩
    · cases a with
      | endClose =>
        have hserving' := (hs.serving.step hw.left hone).left
        rcases endClose_cases hone with ⟨_, _, _, hlsm⟩
        subst hlsm
        exact Or.inr ⟨hserving', rfl⟩
      | _ => exact Or.inl (hs.step hw.left (by simp) hone)
    · have hserving' := (hserving.step hw.left hone).left
      rcases hserving.compactL0_of_stopped hstop hone with
        ⟨order, now, ha⟩
      subst ha
      exact Or.inr ⟨hserving', (hserving.late_merge hstop hw.left hone).left⟩
  rcases hmid during begun (Or.inl hclosing) hmeets hrest with ⟨c, hc, hend⟩
  have hserving := (hc.serving.step (a := .endClose) ⟨trivial, trivial⟩ hend).left
  rcases endClose_cases hend with ⟨_, _, _, hlsm⟩
  subst hlsm
  refine ⟨hserving, rfl, hc.config, c, hc, rfl, ?_⟩
  cases c.levels with
  | nil => rfl
  | cons l0 rest => simp

def keptGet (lsm shut : LSMTree) (late : List LSMAction) (key : Bytes) :
    Option (Bytes × Bool) :=
  if Wiped shut late then lsm.deeperGet key else lsm.tablesGet key

theorem Serving.get_reopened (h : lsm.Serving) {during late : List LSMAction} {shut t : LSMTree}
    (hclosing : Meets LSMTree.step WritesTable lsm
      (.beginClose :: during ++ [.endClose]))
    (hclose : run? LSMTree.step lsm (.beginClose :: during ++ [.endClose]) =
      some shut)
    (hmerging : Meets LSMTree.step WritesTable shut late)
    (hlate : run? LSMTree.step shut late = some t) (seq : Nat) {key : Bytes}
    (hkey : key.length = 8) :
    (newLSMTree t.dir lsm.config seq).get key =
      lsm.keptGet shut late key := by
  rcases h.close_run hclosing hclose with
    ⟨hserving, hstopped, hconfig, c, hc, hdir, hlength⟩
  have hafter := hserving.late_run hstopped hmerging hlate key
  have htconfig : t.config = lsm.config := by
    have hinv := @run?_invariant_of_meets LSMTree LSMAction LSMTree.step
      WritesTable (fun s => s.Serving ∧ s.config = shut.config)
      (fun s a s' hs hcond hone =>
        ⟨(hs.left.step hcond hone).left,
          (hs.left.step hcond hone).right.trans hs.right⟩)
      shut t late ⟨hserving, rfl⟩ hmerging hlate
    exact hinv.right.trans hconfig
  have hget : (newLSMTree t.dir lsm.config seq).get key = t.dirGet key := by
    rw [get_newLSMTree, dirGet, htconfig]
  have htables := hc.serving.tablesGet_eq hc.opened key
  rw [hget, hafter, keptGet]
  by_cases hwiped : Wiped shut late
  · rw [if_pos hwiped, if_pos hwiped, dirDeeperGet, hdir, hconfig, ← hc.config]
    rcases hc.deeper with hempty | hdeeper
    · have hmany := hwiped.right
      rw [hlength, hempty] at hmany
      cases hmany
    · rw [← hdeeper key, htables.right]
      rfl
  · rw [if_neg hwiped, if_neg hwiped, dirGet, hdir, hconfig, ← hc.config,
      ← hc.tables key hkey, htables.left]
    rfl

end LSMTree

/--
What the memtables hold of the key, and what level 0 holds if it is removed, is
nothing that the tables that are left do not give.
-/
def CloseKeeps (lsm shut : LSMTree) (late : List LSMAction) (key : Bytes) :
    Prop :=
  (lsm.memoryGet key = none ∨
    lsm.memoryGet key = lsm.keptGet shut late key) ∧
  (lsm.memoryGet key ≠ none ∨ ¬ LSMTree.Wiped shut late ∨
    lsm.leftGet 0 key = none ∨ lsm.leftGet 0 key = lsm.deeperGet key)

/--
In every run, closing the tree and creating it again leaves a key as it was
exactly when neither the memtables nor a level 0 that a late merge removes add
anything to it.
-/
theorem get_reopened_iff {config : LSMConfig} {seq : Nat}
    {events : List LSMEvent} {lsm : LSMTree}
    (hwrites : Meets LSMTree.event EventWrites (newLSMTree .empty config seq)
      events)
    (hrun : run? LSMTree.event (newLSMTree .empty config seq) events =
      some lsm)
    {during late : List LSMAction} {shut t : LSMTree}
    (hclosing : Meets LSMTree.step WritesTable lsm
      (.beginClose :: during ++ [.endClose]))
    (hclose : run? LSMTree.step lsm (.beginClose :: during ++ [.endClose]) =
      some shut)
    (hmerging : Meets LSMTree.step WritesTable shut late)
    (hlate : run? LSMTree.step shut late = some t) (seq' : Nat) {key : Bytes}
    (hkey : key.length = 8) :
    (newLSMTree t.dir lsm.config seq').get key = lsm.get key <->
      CloseKeeps lsm shut late key := by
  have hserving := LSMTree.serving_run hwrites hrun
  rw [hserving.get_reopened hclosing hclose hmerging hlate seq' hkey,
    lsm.get_eq, CloseKeeps]
  cases lsm.memoryGet key with
  | some r => simp [eq_comm]
  | none =>
  have hsplit := lsm.tablesGet_split 0 key
  have hnone : lsm.removedGet 0 key = none := by
    simp [LSMTree.removedGet, getFromLevel]
  rw [hnone, Option.none_or] at hsplit
  unfold LSMTree.keptGet
  by_cases hwiped : LSMTree.Wiped shut late
  · rw [if_pos hwiped, hsplit]
    cases lsm.leftGet 0 key with
    | none => simp
    | some r => simp [hwiped, eq_comm]
  · simp [hwiped]

def flushedPut : List LSMEvent :=
  [.act (.put (be 8 5) [1] 10), .act .takeImmutable,
    .act (.writeImmutable 11), .act .installTable]

/-- A flushed key is there after the close. -/
theorem get_reopened_flushedPut :
    exists lsm t, run? LSMTree.event (newLSMTree .empty tinyConfig 0)
        flushedPut = some lsm ∧
      run? LSMTree.step lsm [.beginClose, .endClose] = some t ∧
      (newLSMTree t.dir lsm.config 0).get (be 8 5) = lsm.get (be 8 5) := by
  have hcheck : (run? LSMTree.event (newLSMTree .empty tinyConfig 0)
      flushedPut).map (fun lsm => decide (lsm.memoryGet (be 8 5) = none ∧
        Meets LSMTree.step WritesTable lsm [.beginClose, .endClose] ∧
        (run? LSMTree.step lsm [.beginClose, .endClose]).isSome)) =
          some true := by
    decide +kernel
  rcases Option.map_eq_some_iff.mp hcheck with ⟨lsm, hrun, hfacts⟩
  rcases of_decide_eq_true hfacts with ⟨hmemory, hclosing, hsome⟩
  rcases Option.isSome_iff_exists.mp hsome with ⟨t, hclose⟩
  refine ⟨lsm, t, hrun, hclose, ?_⟩
  exact (@get_reopened_iff tinyConfig 0 flushedPut lsm (by decide +kernel) hrun
    [] [] t t hclosing hclose trivial rfl 0 (be 8 5) (by decide)).mpr
    ⟨Or.inl hmemory, Or.inr (Or.inl (fun hw => absurd hw.left (by decide)))⟩

/-- A key that was put is gone after the close. -/
theorem get_reopened_loses :
    ¬ forall (config : LSMConfig) (seq : Nat) (events : List LSMEvent)
        (lsm t : LSMTree),
      Meets LSMTree.event EventWrites (newLSMTree .empty config seq) events ->
      run? LSMTree.event (newLSMTree .empty config seq) events = some lsm ->
      run? LSMTree.step lsm [.beginClose, .endClose] = some t ->
      forall key, key.length = 8 ->
        (newLSMTree t.dir lsm.config seq).get key = lsm.get key := by
  intro hall
  have hcheck : (run? LSMTree.event
      (newLSMTree .empty { tinyConfig with memTableCapacity := 100 } 0)
      [.act (.put (be 8 5) [1] 10)]).map (fun lsm =>
        (run? LSMTree.step lsm [.beginClose, .endClose]).map (fun t =>
          decide ((newLSMTree t.dir lsm.config 0).get (be 8 5) =
            lsm.get (be 8 5)))) = some (some false) := by
    decide +kernel
  rcases Option.map_eq_some_iff.mp hcheck with ⟨lsm, hrun, hsome⟩
  rcases Option.map_eq_some_iff.mp hsome with ⟨t, hclose, hne⟩
  apply of_decide_eq_false hne
  exact hall _ 0 _ lsm t (by decide +kernel) hrun hclose (be 8 5) (by decide)

end Warm
end ChimeraMQ
