import ChimeraMQ.Warm.LSMReads

/-!
# Creating a tree again

The tables of a tree are those of its directory, whatever happens to it.  So a
tree that is created again over the directory has the tables that the tree had,
and none of its memtables.
-/

namespace ChimeraMQ
namespace Warm

open Foundation

def SSTable.reopened (sst : SSTable) : SSTable :=
  { sst with closed := false }

/-- A new table file is given a name that is not in use. -/
def FreshName (lsm : LSMTree) : LSMAction -> Prop
  | .writeImmutable now | .compactL0 _ now =>
    lsm.dir.disk.lookup (tempSSTPath (lsm.sstSeq + 1) now) = none
  | _ => True

instance decidableFreshName (lsm : LSMTree) (a : LSMAction) :
    Decidable (FreshName lsm a) :=
  match a with
  | .writeImmutable _ | .compactL0 _ _ => inferInstanceAs (Decidable (_ = _))
  | .put _ _ _ | .delete _ _ | .takeImmutable | .installTable | .beginClose
  | .endClose => isTrue trivial

/-- A new table file fits and has a name of its own. -/
def WritesTable (lsm : LSMTree) (a : LSMAction) : Prop :=
  TablesFit lsm a ∧ FreshName lsm a

instance (lsm : LSMTree) (a : LSMAction) : Decidable (WritesTable lsm a) :=
  inferInstanceAs (Decidable (_ ∧ _))

theorem cons_eq_map_range_iff {α : Type} {f : Nat -> α} {n : Nat} {x : α}
    {xs : List α} :
    x :: xs = (List.range n).map f <->
      exists m, n = m + 1 ∧ x = f 0 ∧
        xs = (List.range m).map (fun k => f (k + 1)) := by
  cases n with
  | zero => simp
  | succ m =>
  rw [List.range_succ_eq_map, List.map_cons, List.map_map,
    List.cons.injEq]
  constructor
  · intro h
    exact ⟨m, rfl, h.left, h.right⟩
  intro h
  rcases h with ⟨k, hk, hx, hxs⟩
  rw [Nat.succ.inj hk]
  exact ⟨hx, hxs⟩

namespace LSMTree

variable {lsm lsm' : LSMTree}

structure Backed (lsm : LSMTree) : Prop where
  dir : lsm.dir.Sound lsm.config.sizing
  levels : lsm.levels.map (List.map SSTable.reopened) =
    (List.range lsm.config.maxLevel).map lsm.dir.tablesAt
  pending : forall sst, lsm.flush = .written sst ->
    openSSTable lsm.dir.disk sst.path = some sst ∧
      Readable lsm.dir.disk lsm.config.sizing sst ∧ sst.path ∉ lsm.dir.paths

theorem reopened_of_readable {d : Disk} {sizing : BloomSizing} {sst : SSTable}
    (h : Readable d sizing sst) : sst.reopened = sst := by
  rcases h with ⟨entries, hholds, _⟩
  rw [hholds.table]
  cases entries <;> rfl

theorem map_reopened {d : Disk} {sizing : BloomSizing} {level : List SSTable}
    (h : forall sst, sst ∈ level -> Readable d sizing sst) :
    level.map SSTable.reopened = level := by
  rw [List.map_congr_left (fun sst hsst => reopened_of_readable (h sst hsst))]
  exact List.map_id level

theorem Backed.levels_eq (h : lsm.Backed) (hsound : lsm.Sound) :
    lsm.levels = loadLevels lsm.dir lsm.config.maxLevel := by
  rw [loadLevels_eq, ← h.levels]
  symm
  rw [List.map_congr_left
    (fun level hlevel => map_reopened (hsound.levels level hlevel))]
  exact List.map_id lsm.levels

theorem Backed.same (h : lsm.Backed) (hdir : lsm'.dir = lsm.dir)
    (hconfig : lsm'.config = lsm.config)
    (hlevels : lsm'.levels.map (List.map SSTable.reopened) =
      lsm.levels.map (List.map SSTable.reopened))
    (hflush : forall sst, lsm'.flush = .written sst ->
      lsm.flush = .written sst) : lsm'.Backed where
  dir := by
    rw [hdir, hconfig]
    exact h.dir
  levels := by
    rw [hdir, hconfig, hlevels]
    exact h.levels
  pending := by
    intro sst hsst
    rw [hdir, hconfig]
    exact h.pending sst (hflush sst hsst)

theorem Backed.writeTable (h : lsm.Backed) {path : List Char}
    (hfresh : lsm.dir.disk.lookup path = none) (entries : List MemTableEntry) :
    lsm.dir.SameTables
      (lsm.dir.writeTable lsm.config.sizing path entries).disk :=
  h.dir.sameTables_writeFile (h.dir.fresh hfresh) _

variable {now : Nat}

theorem Backed.writeImmutable (h : lsm.Backed) (hsound : lsm.Sound)
    (hwrites : WritesTable lsm (.writeImmutable now))
    (hstep : lsm.writeImmutable now = some lsm') : lsm'.Backed := by
  rcases hwrites with ⟨hfits, hfresh⟩
  rcases hsound.writeImmutable_spec hfits hstep with
    ⟨mt, sst, dir, _, hpath, hdir, hsst, hread, _, hlsm⟩
  have hsame := h.writeTable hfresh mt.entries
  rw [← hpath] at hsame
  subst hdir hlsm
  refine ⟨hsame.sound h.dir, ?_, ?_⟩
  · show lsm.levels.map (List.map SSTable.reopened) = _
    rw [h.levels]
    apply List.map_congr_left
    intro level _
    exact (hsame.tablesAt level).symm
  intro t ht
  cases ht
  refine ⟨hsst, hread, ?_⟩
  rw [hpath]
  exact h.dir.fresh hfresh

theorem Backed.installTable (h : lsm.Backed)
    (hstep : lsm.installTable = some lsm') : lsm'.Backed := by
  rcases installTable_cases hstep with ⟨sst, hflush, hshut | hput⟩
  · rw [hshut.right]
    refine h.same rfl rfl rfl ?_
    intro t ht
    cases ht
  rcases hput with ⟨_, l0, rest, hlevels, hlsm⟩
  rcases h.pending sst hflush with ⟨hopen, hread, hnew⟩
  have hbacked := h.levels
  rw [hlevels, List.map_cons, cons_eq_map_range_iff] at hbacked
  rcases hbacked with ⟨m, hm, hfirst, hrest⟩
  subst hlsm
  refine ⟨h.dir.add hnew hopen hread 0, ?_, ?_⟩
  · show ((l0 ++ [sst]) :: rest).map (List.map SSTable.reopened) =
      (List.range lsm.config.maxLevel).map (lsm.dir.add 0 sst).tablesAt
    rw [List.map_cons, cons_eq_map_range_iff]
    refine ⟨m, hm, ?_, ?_⟩
    · rw [LSMDir.tablesAt_add hopen, if_pos rfl, List.map_append,
        hfirst, List.map_singleton, reopened_of_readable hread]
    rw [hrest]
    apply List.map_congr_left
    intro k _
    rw [LSMDir.tablesAt_add hopen, if_neg (Nat.succ_ne_zero k)]
  · intro t ht
    cases ht

/-!
## Merges
-/

/-- A merge has written its table beside those of the directory. -/
structure Wrote (lsm : LSMTree) (l0 : List SSTable) (m : Merge)
    (sst : SSTable) : Prop where
  inputs : m.inputs = l0
  table : m.table = some sst
  dir : m.dir.Sound lsm.config.sizing
  grows : lsm.dir.disk.Extends m.dir.disk
  tablesAt : forall level, m.dir.tablesAt level = lsm.dir.tablesAt level
  paths : m.dir.paths = lsm.dir.paths
  names : l0.map SSTable.path = (m.dir.tablesAt 0).map SSTable.path
  opens : openSSTable m.dir.disk sst.path = some sst
  readable : Readable m.dir.disk lsm.config.sizing sst
  fresh : lsm.dir.disk.lookup sst.path = none
  lookup : forall path, path ≠ sst.path ->
    m.dir.disk.lookup path = lsm.dir.disk.lookup path

variable {l0 : List SSTable}

theorem Backed.map_path (h : lsm.Backed) {rest : List (List SSTable)}
    (hlevels : lsm.levels = l0 :: rest) :
    l0.map SSTable.path = (lsm.dir.tablesAt 0).map SSTable.path := by
  have hbacked := h.levels
  rw [hlevels, List.map_cons, cons_eq_map_range_iff] at hbacked
  rcases hbacked with ⟨_, _, hfirst, _⟩
  rw [← hfirst, List.map_map]
  rfl

variable {order : List (Nat × (Bytes × Bool))}

theorem Backed.wrote (h : lsm.Backed) {rest : List (List SSTable)}
    (hlevels : lsm.levels = l0 :: rest) {m : Merge}
    (hwrites : WritesTable lsm (.compactL0 order now))
    (hmerge : lsm.mergeL0 order now = some m) :
    exists sst, Wrote lsm l0 m sst := by
  rcases mergeL0_spec hlevels hwrites.left hmerge with
    ⟨_, sst, _, _, hinputs, htable, hpath, hdir, hopen, hread, _⟩
  have hfresh : lsm.dir.disk.lookup sst.path = none := by
    rw [hpath]
    exact hwrites.right
  have hsame := h.writeTable hfresh (mergedTable order now).entries
  have htables := hsame.tablesAt
  have hsound := hsame.sound h.dir
  have hmdir : ({ lsm.dir with
      disk := (lsm.dir.writeTable lsm.config.sizing sst.path
        (mergedTable order now).entries).disk } : LSMDir) = m.dir := by
    rw [hdir]
    rfl
  rw [hmdir] at htables hsound
  refine ⟨sst, hinputs, htable, hsound, ?_, htables, ?_, ?_, hopen, hread,
    hfresh, ?_⟩
  · rw [hdir]
    exact hsame.left
  · rw [hdir]
    rfl
  · rw [htables 0]
    exact h.map_path hlevels
  · intro path hne
    rw [hdir]
    exact Disk.lookup_writeFile_ne lsm.dir.disk hne _

theorem Wrote.opens_removed {m : Merge} {sst t : SSTable}
    (hm : Wrote lsm l0 m sst) (hnot : t.path ∉ lsm.dir.paths)
    (hopen : openSSTable m.dir.disk t.path = some t)
    (hread : Readable m.dir.disk lsm.config.sizing t) :
    openSSTable (l0.foldl removeTable m.dir).disk t.path = some t := by
  refine LSMDir.openSSTable_extends (LSMDir.extends_foldl_removeTable l0 m.dir) ?_
    hopen hread
  apply LSMDir.lookup_foldl_removeTable
  intro hmem
  rw [hm.names] at hmem
  rcases List.mem_map.mp hmem with ⟨other, hother, heq⟩
  apply hnot
  rw [← heq, ← hm.paths]
  exact LSMDir.path_mem hother

theorem Wrote.merged {m : Merge} {sst : SSTable} (h : lsm.Backed)
    (hm : Wrote lsm l0 m sst) :
    ((l0.foldl removeTable m.dir).add 1 sst).Sound lsm.config.sizing ∧
      forall level,
        ((l0.foldl removeTable m.dir).add 1 sst).tablesAt level =
          if level = 0 then [] else
            if level = 1 then lsm.dir.tablesAt 1 ++ [sst]
            else lsm.dir.tablesAt level := by
  rcases hm.dir.foldl_removeTable l0 with ⟨hsound, htables⟩
  have hnot := h.dir.fresh hm.fresh
  have hopen := hm.opens_removed hnot hm.opens hm.readable
  have hnew : sst.path ∉ (l0.foldl removeTable m.dir).paths := by
    intro hmem
    apply hnot
    rw [← hm.paths]
    exact LSMDir.paths_foldl_removeTable_subset l0 m.dir hmem
  refine ⟨hsound.add hnew hopen (hm.readable.extends
    (LSMDir.extends_foldl_removeTable l0 m.dir)) 1, ?_⟩
  intro level
  have hlength : l0.length = (m.dir.tablesAt 0).length := by
    have hmap := congrArg List.length hm.names
    rwa [List.length_map, List.length_map] at hmap
  have hfilter := hm.dir.filter_take hm.names l0.length level
  rw [List.take_length, hlength, List.drop_length, ← htables level] at hfilter
  rw [LSMDir.tablesAt_add hopen]
  by_cases hone : level = 1
  · rw [hone] at hfilter
    rw [if_pos hone, hone, hfilter, if_neg Nat.one_ne_zero,
      if_neg Nat.one_ne_zero, if_pos rfl, hm.tablesAt]
  · rw [if_neg hone, hfilter, if_neg hone, hm.tablesAt]

theorem Backed.compactL0 (h : lsm.Backed)
    (hwrites : WritesTable lsm (.compactL0 order now))
    (hstep : lsm.compactL0 order now = some lsm') : lsm'.Backed := by
  rcases compactL0_of_fits hwrites.left hstep with
    ⟨l0, rest, hlevels, hfew | hmany⟩
  · rcases hfew with ⟨_, hsame⟩
    subst hsame
    exact h.same rfl rfl rfl (fun t ht => ht)
  rcases hmany with ⟨_, m, sst', l1, deeper, hmerge, hsome, hrest, hlsm⟩
  rcases h.wrote hlevels hwrites hmerge with ⟨sst, hm⟩
  rw [hm.table, Option.some.injEq] at hsome
  subst hsome hrest
  rcases hm.merged h with ⟨hsound, htables⟩
  have hbacked := h.levels
  rw [hlevels, List.map_cons, cons_eq_map_range_iff] at hbacked
  rcases hbacked with ⟨k, hk, _, hrest⟩
  rw [List.map_cons, cons_eq_map_range_iff] at hrest
  rcases hrest with ⟨n, hn, hfirst, hdeeper⟩
  subst hlsm
  refine ⟨hsound, ?_, ?_⟩
  · show ([] :: (l1 ++ [sst]) :: deeper).map (List.map SSTable.reopened) =
      (List.range lsm.config.maxLevel).map
        ((l0.foldl removeTable m.dir).add 1 sst).tablesAt
    rw [List.map_cons, cons_eq_map_range_iff]
    refine ⟨k, hk, ?_, ?_⟩
    · rw [htables]
      rfl
    rw [List.map_cons, cons_eq_map_range_iff]
    refine ⟨n, hn, ?_, ?_⟩
    · rw [htables, List.map_append, hfirst, List.map_singleton,
        reopened_of_readable hm.readable]
      rfl
    rw [hdeeper]
    apply List.map_congr_left
    intro i _
    rw [htables]
    rfl
  intro t ht
  rcases h.pending t ht with ⟨hopen, hread, hnot⟩
  have hne : t.path ≠ sst.path := by
    intro heq
    have hfile := (openSSTable_fields hopen).right.left
    rw [heq, hm.fresh] at hfile
    cases hfile
  have hthere := LSMDir.openSSTable_extends hm.grows (hm.lookup t.path hne)
    hopen hread
  have hstill := hread.extends hm.grows
  refine ⟨hm.opens_removed hnot hthere hstill,
    hstill.extends (LSMDir.extends_foldl_removeTable l0 m.dir), ?_⟩
  unfold LSMDir.paths LSMDir.add
  rw [List.map_append, List.mem_append, not_or]
  constructor
  · intro hmem
    apply hnot
    rw [← hm.paths]
    exact LSMDir.paths_foldl_removeTable_subset l0 m.dir hmem
  · simpa using hne

/-!
## Steps
-/

theorem put_cases {key value : Bytes}
    (hstep : lsm.put key value now = some lsm') :
    lsm.closed = false ∧ lsm'.dir = lsm.dir ∧ lsm'.levels = lsm.levels ∧
      lsm'.flush = lsm.flush := by
  unfold LSMTree.put at hstep
  split at hstep
  · cases hstep
  rename_i hopen
  refine ⟨by simpa using hopen, ?_⟩
  split at hstep
  · cases hstep
  split at hstep
  · cases hstep
    exact ⟨rfl, rfl, rfl⟩
  · cases hstep
    exact ⟨rfl, rfl, rfl⟩

theorem delete_cases {key : Bytes} (hstep : lsm.delete key now = some lsm') :
    lsm.closed = false ∧ lsm'.dir = lsm.dir ∧ lsm'.levels = lsm.levels ∧
      lsm'.flush = lsm.flush := by
  unfold LSMTree.delete at hstep
  split at hstep
  · cases hstep
  rename_i hopen
  rcases Option.map_eq_some_iff.mp hstep with ⟨mt, _, hlsm⟩
  cases hlsm
  exact ⟨by simpa using hopen, rfl, rfl, rfl⟩

theorem takeImmutable_cases (hstep : lsm.takeImmutable = some lsm') :
    lsm.stopped = false ∧ lsm'.dir = lsm.dir ∧ lsm'.levels = lsm.levels ∧
      forall sst, lsm'.flush ≠ .written sst := by
  unfold LSMTree.takeImmutable at hstep
  split at hstep
  · cases hstep
  rename_i hgo
  have hstopped : lsm.stopped = false := by
    cases hflag : lsm.stopped with
    | false => rfl
    | true => simp [hflag] at hgo
  refine ⟨hstopped, ?_⟩
  split at hstep
  · rename_i hflush _
    cases hstep
    exact ⟨rfl, rfl, by simp [hflush]⟩
  · rename_i hflush _
    split at hstep
    · cases hstep
      exact ⟨rfl, rfl, by simp [hflush]⟩
    · cases hstep
      exact ⟨rfl, rfl, by simp⟩
  · cases hstep

theorem endClose_cases (hstep : lsm.endClose = some lsm') :
    lsm.closed = true ∧ lsm.stopped = false ∧ lsm.flush = .idle ∧
      lsm' = { lsm with
        stopped := true
        levels := lsm.levels.map
          (fun level => level.map (fun sst => { sst with closed := true })) } := by
  unfold LSMTree.endClose at hstep
  split at hstep
  · rename_i hgo
    rw [Bool.and_eq_true, Bool.not_eq_true'] at hgo
    split at hstep
    · rename_i hflush
      cases hstep
      exact ⟨hgo.left, hgo.right, hflush, rfl⟩
    · cases hstep
  · cases hstep

structure Serving (lsm : LSMTree) : Prop where
  backed : lsm.Backed
  sound : lsm.stopped = false -> lsm.Sound
  shut : lsm.stopped = true -> lsm.closed = true ∧ lsm.flush = .idle ∧
    forall sst, sst ∈ lsm.levels.headD [] -> sst.closed = true

theorem Serving.sound_of_open (h : lsm.Serving) (hopen : lsm.closed = false) :
    lsm.stopped = false ∧ lsm.Sound := by
  cases hstopped : lsm.stopped with
  | false => exact ⟨rfl, h.sound hstopped⟩
  | true =>
  have hclosed := (h.shut hstopped).left
  rw [hopen] at hclosed
  cases hclosed

theorem Serving.of_steps {a : LSMAction} (hstopped : lsm.stopped = false)
    (hbacked : lsm'.Backed) (hsteps : Steps lsm lsm' a) : lsm'.Serving where
  backed := hbacked
  sound := fun _ => hsteps.sound
  shut := by
    intro htrue
    rw [hsteps.stopped, hstopped] at htrue
    cases htrue

theorem Serving.compactL0 (h : lsm.Serving)
    (hwrites : WritesTable lsm (.compactL0 order now))
    (hstep : lsm.compactL0 order now = some lsm') : lsm'.Serving := by
  have hbacked := h.backed.compactL0 hwrites hstep
  cases hstopped : lsm.stopped with
  | false =>
    exact .of_steps hstopped hbacked
      ((h.sound hstopped).compactL0 hwrites.left hstep).left
  | true =>
  rcases h.shut hstopped with ⟨hclosed, hidle, htables⟩
  rcases compactL0_of_fits hwrites.left hstep with
    ⟨l0, rest, hlevels, hfew | hmany⟩
  · rcases hfew with ⟨_, hlsm⟩
    subst hlsm
    refine ⟨hbacked, ?_, fun _ => ⟨hclosed, hidle, htables⟩⟩
    intro hfalse
    rw [show lsm.stopped = false from hfalse] at hstopped
    cases hstopped
  rcases hmany with ⟨_, m, sst, l1, deeper, _, _, _, hlsm⟩
  subst hlsm
  refine ⟨hbacked, ?_, fun _ => ⟨hclosed, hidle, ?_⟩⟩
  · intro hfalse
    rw [show lsm.stopped = false from hfalse] at hstopped
    cases hstopped
  · intro t ht
    cases ht

theorem Serving.step (h : lsm.Serving) {a : LSMAction}
    (hwrites : WritesTable lsm a) (hstep : lsm.step a = some lsm') :
    lsm'.Serving ∧ lsm'.config = lsm.config := by
  cases a with
  | put key value now =>
    rcases put_cases hstep with ⟨hopen, hdir, hlevels, hflush⟩
    rcases h.sound_of_open hopen with ⟨hstopped, hsound⟩
    have hsteps := hsound.put hopen hstep
    refine ⟨.of_steps hstopped ?_ hsteps.toSteps, hsteps.config⟩
    refine h.backed.same hdir hsteps.config (by rw [hlevels]) ?_
    intro sst hsst
    rwa [hflush] at hsst
  | delete key now =>
    rcases delete_cases hstep with ⟨hopen, hdir, hlevels, hflush⟩
    rcases h.sound_of_open hopen with ⟨hstopped, hsound⟩
    have hsteps := hsound.delete hopen hstep
    refine ⟨.of_steps hstopped ?_ hsteps.toSteps, hsteps.config⟩
    refine h.backed.same hdir hsteps.config (by rw [hlevels]) ?_
    intro sst hsst
    rwa [hflush] at hsst
  | takeImmutable =>
    rcases takeImmutable_cases hstep with ⟨hstopped, hdir, hlevels, hflush⟩
    have hsteps := (h.sound hstopped).takeImmutable hstep
    refine ⟨.of_steps hstopped ?_ hsteps.toSteps, hsteps.config⟩
    refine h.backed.same hdir hsteps.config (by rw [hlevels]) ?_
    intro sst hsst
    exact absurd hsst (hflush sst)
  | writeImmutable now =>
    cases hstopped : lsm.stopped with
    | true =>
      have hidle := (h.shut hstopped).right.left
      simp [LSMTree.step, LSMTree.writeImmutable, hidle] at hstep
    | false =>
    have hsteps := (h.sound hstopped).writeImmutable hwrites.left hstep
    exact ⟨.of_steps hstopped
      (h.backed.writeImmutable (h.sound hstopped) hwrites hstep)
      hsteps.toSteps, hsteps.config⟩
  | installTable =>
    have hbacked := h.backed.installTable hstep
    rcases installTable_cases hstep with ⟨sst, hflush, hinstall⟩
    cases hstopped : lsm.stopped with
    | true =>
      rw [(h.shut hstopped).right.left] at hflush
      cases hflush
    | false =>
    have hsound := h.sound hstopped
    rcases hinstall with ⟨_, hlsm⟩ | ⟨hopen, _⟩
    · subst hlsm
      refine ⟨⟨hbacked, fun _ => ?_, ?_⟩, rfl⟩
      · exact ⟨hsound.memtable, hsound.immutables, hsound.levels,
          trivial⟩
      · intro htrue
        rw [show lsm.stopped = true from htrue] at hstopped
        cases hstopped
    · have hsteps := hsound.installTable hopen hstep
      exact ⟨.of_steps hstopped hbacked hsteps.toSteps, hsteps.config⟩
  | compactL0 order now =>
    refine ⟨h.compactL0 hwrites hstep, ?_⟩
    rcases compactL0_of_fits hwrites.left hstep with
      ⟨l0, rest, hlevels, hfew | hmany⟩
    · rw [hfew.right]
    · rcases hmany with ⟨_, m, sst, l1, deeper, _, _, _, hlsm⟩
      rw [hlsm]
  | beginClose =>
    simp only [LSMTree.step, LSMTree.beginClose] at hstep
    split at hstep
    · cases hstep
    rename_i hopen
    rcases h.sound_of_open (by simpa using hopen) with ⟨hstopped, hsound⟩
    cases hstep
    refine ⟨⟨h.backed.same rfl rfl rfl (fun t ht => ht), fun _ => ?_, ?_⟩,
      rfl⟩
    · exact ⟨hsound.memtable, hsound.immutables, hsound.levels,
        hsound.flush⟩
    · intro htrue
      rw [show lsm.stopped = true from htrue] at hstopped
      cases hstopped
  | endClose =>
  rcases endClose_cases hstep with ⟨hclosed, hstopped, hidle, hlsm⟩
  subst hlsm
  refine ⟨⟨h.backed.same rfl rfl ?_ (fun t ht => ht), ?_, ?_⟩, rfl⟩
  · show (lsm.levels.map
      (fun level => level.map (fun sst => { sst with closed := true }))).map
        (List.map SSTable.reopened) = _
    rw [List.map_map]
    apply List.map_congr_left
    intro level _
    rw [Function.comp_apply, List.map_map]
    rfl
  · intro hfalse
    cases hfalse
  intro _
  refine ⟨hclosed, hidle, ?_⟩
  intro sst hsst
  cases hlevels : lsm.levels with
  | nil =>
    simp [hlevels] at hsst
  | cons l0 rest =>
  simp only [hlevels, List.map_cons, List.headD_cons,
    List.mem_map] at hsst
  rcases hsst with ⟨t, _, ht⟩
  rw [← ht]

theorem serving_newLSMTree {dir : LSMDir} {config : LSMConfig}
    (h : dir.Sound config.sizing) (seq : Nat) :
    (newLSMTree dir config seq).Serving where
  backed :=
    { dir := h
      levels := by
        show (loadLevels dir config.maxLevel).map
          (List.map SSTable.reopened) = _
        rw [loadLevels_eq, List.map_map]
        apply List.map_congr_left
        intro level _
        exact map_reopened (fun sst hsst => h.readable hsst)
      pending := by
        intro sst hsst
        cases hsst }
  sound := by
    intro _
    refine ⟨MemTable.sound_newMemTable _, ?_, ?_, trivial⟩
    · intro mt hmt
      cases hmt
    intro level hlevel sst hsst
    have hmem : level ∈ loadLevels dir config.maxLevel := hlevel
    rw [loadLevels_eq] at hmem
    rcases List.mem_map.mp hmem with ⟨k, _, hk⟩
    rw [← hk] at hsst
    exact h.readable hsst
  shut := by
    intro htrue
    cases htrue

/-!
## Crashes in a merge
-/

theorem Backed.compactionDirs (h : lsm.Backed) {rest : List (List SSTable)}
    (hlevels : lsm.levels = l0 :: rest)
    (hwrites : WritesTable lsm (.compactL0 order now)) {dirs : List LSMDir}
    (hdirs : lsm.compactionDirs order now = some dirs) {k : Nat} {d : LSMDir}
    (hd : dirs[k]? = some d) :
    (k < 2 * l0.length + 2 ∧ d.Sound lsm.config.sizing ∧
      lsm.dir.disk.Extends d.disk ∧
      forall level, d.tablesAt level =
        if level = 0 then (lsm.dir.tablesAt 0).drop (k / 2)
        else lsm.dir.tablesAt level) ∨
    (k = 2 * l0.length + 2 ∧ 2 ≤ lsm.levels.length ∧
      exists m sst, lsm.mergeL0 order now = some m ∧ Wrote lsm l0 m sst ∧
        d = (l0.foldl removeTable m.dir).add 1 sst) := by
  unfold LSMTree.compactionDirs at hdirs
  cases hmerge : lsm.mergeL0 order now with
  | none =>
    rw [hmerge] at hdirs
    cases hdirs
  | some m =>
  rcases h.wrote hlevels hwrites hmerge with ⟨sst, hm⟩
  rw [hmerge] at hdirs
  simp only [hm.table, hm.inputs, Option.some.injEq] at hdirs
  subst hdirs
  match k with
  | 0 =>
    cases hd
    refine Or.inl ⟨by omega, h.dir, Disk.Extends.refl _, ?_⟩
    intro level
    by_cases hlevel : level = 0 <;> simp [hlevel]
  | 1 =>
    cases hd
    refine Or.inl ⟨by omega, hm.dir, hm.grows, ?_⟩
    intro level
    rw [hm.tablesAt]
    by_cases hlevel : level = 0 <;> simp [hlevel]
  | i + 2 =>
  rw [List.cons_append, List.cons_append, List.getElem?_cons_succ,
    List.getElem?_cons_succ] at hd
  by_cases hi : i < 2 * l0.length
  · rw [List.getElem?_append_left
      (by rw [LSMDir.length_removalDirs]; exact hi)] at hd
    rcases hm.dir.removalDirs l0 hd with
      ⟨hsound, hext, _, htables⟩
    refine Or.inl ⟨by omega, hsound, hm.grows.trans hext, ?_⟩
    intro level
    have hhalf : (i + 2) / 2 = i / 2 + 1 := by omega
    rw [htables, hm.dir.filter_take hm.names, hhalf, hm.tablesAt,
      hm.tablesAt]
  rw [List.getElem?_append_right
    (by rw [LSMDir.length_removalDirs]; omega),
    LSMDir.length_removalDirs] at hd
  by_cases hshort : lsm.levels.length < 2
  · rw [if_pos hshort] at hd
    cases hd
  rw [if_neg hshort] at hd
  have hlast : i - 2 * l0.length = 0 := by
    cases hsub : i - 2 * l0.length with
    | zero => rfl
    | succ n =>
    rw [hsub] at hd
    cases hd
  rw [hlast] at hd
  cases hd
  exact Or.inr ⟨by omega, by omega, m, sst, rfl, hm, rfl⟩

end LSMTree

/-!
## Runs of several processes
-/

/-- An action of a tree, a new process, or a crash in a merge. -/
inductive LSMEvent where
  | act (a : LSMAction)
  | reopen (seq : Nat)
  | crash (order : List (Nat × (Bytes × Bool))) (now k seq : Nat)

def LSMTree.event (lsm : LSMTree) : LSMEvent -> Option LSMTree
  | .act a => lsm.step a
  | .reopen seq => some (newLSMTree lsm.dir lsm.config seq)
  | .crash order now k seq =>
    match lsm.compactionDirs order now with
    | none => none
    | some dirs =>
      (dirs[k]?).map (fun dir => newLSMTree dir lsm.config seq)

/-- The tables written in an event fit and have names of their own. -/
def EventWrites (lsm : LSMTree) : LSMEvent -> Prop
  | .act a => WritesTable lsm a
  | .reopen _ => True
  | .crash order now _ _ => WritesTable lsm (.compactL0 order now)

instance (lsm : LSMTree) (e : LSMEvent) : Decidable (EventWrites lsm e) :=
  match e with
  | .act a => inferInstanceAs (Decidable (WritesTable lsm a))
  | .reopen _ => isTrue trivial
  | .crash order now _ _ =>
    inferInstanceAs (Decidable (WritesTable lsm (.compactL0 order now)))

namespace LSMTree

theorem Serving.event {lsm lsm' : LSMTree} (h : lsm.Serving) {e : LSMEvent}
    (hwrites : EventWrites lsm e) (hevent : lsm.event e = some lsm') :
    lsm'.Serving := by
  cases e with
  | act a => exact (h.step hwrites hevent).left
  | reopen seq =>
    cases hevent
    exact serving_newLSMTree h.backed.dir seq
  | crash order now k seq =>
  simp only [LSMTree.event] at hevent
  cases hdirs : lsm.compactionDirs order now with
  | none =>
    rw [hdirs] at hevent
    cases hevent
  | some dirs =>
  rw [hdirs] at hevent
  rcases Option.map_eq_some_iff.mp hevent with ⟨d, hd, hlsm⟩
  rw [← hlsm]
  apply serving_newLSMTree
  cases hlevels : lsm.levels with
  | nil => simp [LSMTree.compactionDirs, mergeL0, hlevels] at hdirs
  | cons l0 rest =>
  rcases h.backed.compactionDirs hlevels hwrites hdirs hd with
    hpart | hdone
  · exact hpart.right.left
  · rcases hdone with ⟨_, _, m, sst, _, hm, hdir⟩
    rw [hdir]
    exact (hm.merged h.backed).left

theorem serving_run {config : LSMConfig} {seq : Nat} {events : List LSMEvent}
    {lsm : LSMTree}
    (hwrites : Meets LSMTree.event EventWrites (newLSMTree .empty config seq)
      events)
    (hrun : run? LSMTree.event (newLSMTree .empty config seq) events =
      some lsm) : lsm.Serving := by
  refine run?_invariant_of_meets
    (fun s e s' hs hcond hone => Serving.event hs hcond hone) ?_ hwrites hrun
  apply serving_newLSMTree
  constructor
  · exact List.nodup_nil
  · intro e he
    cases he

end LSMTree

end Warm
end ChimeraMQ
