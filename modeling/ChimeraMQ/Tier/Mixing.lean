import ChimeraMQ.Storage.EngineRecords
import ChimeraMQ.Tier.HotToWarm
import ChimeraMQ.Warm.LSMReopen

/-!
# Records of different partitions

The warm tier has one key for the same offset of all partitions.  From the
first record that is copied to it, a partition without that offset reads a
record of another partition.
-/

namespace ChimeraMQ
namespace Tier

open Foundation
open Storage
open Warm
open Cold

abbrev Records := PartitionKey -> List (Nat × Bytes)

/-- What happens to the tiers; no one but the migrator writes to the warm one. -/
inductive MigratorAction where
  | append (key : PartitionKey) (data : Bytes) (now : Nat)
  | read (key : PartitionKey) (offset now : Nat)
      (order : MapOrder (List Char × ColdArchive))
  | background (a : LSMAction)
  | migrateHotToWarm (env : Circumstances)
  | migrateWarmToCold (now : Nat) (clock : Nat -> Nat)

def background (w : LSMTree) : LSMAction -> Option LSMTree
  | .put _ _ _ | .delete _ _ => none
  | a => w.step a

def migratorStep (s : Migrator × Records) :
    MigratorAction -> Option (Migrator × Records)
  | .append key data now =>
    let r := s.1.hot.append key data now
    some ({ s.1 with hot := r.1 }, HotEngine.recorded s.2 key data r.2)
  | .read key offset now order => some ((s.1.read key offset now order).1, s.2)
  | .background a =>
    match s.1.warm with
    | none => none
    | some w =>
      (background w a).map (fun w => ({ s.1 with warm := some w }, s.2))
  | .migrateHotToWarm env => some ((s.1.migrateHotToWarm env).1, s.2)
  | .migrateWarmToCold now clock =>
    (s.1.migrateWarmToCold now clock).map (fun m => (m, s.2))

/--
Every read gives the record that was appended to the partition at the offset,
and nothing but such a record.
-/
def ReadsRecords (s : Migrator × Records) : Prop :=
  forall key offset now order, offset < 2 ^ 64 -> forall data,
    (s.1.read key offset now order).2 = .ok data <->
      (offset, data) ∈ s.2 key

def CopiesNothing (s : Migrator × Records) : MigratorAction -> Prop
  | .migrateHotToWarm env =>
    forall q, q ∈ s.1.hot.partitions -> forall t, t ∈ q.2.older ->
      s.1.expires env q.1 t -> forall offset, offset ∈ segmentOffsets t ->
        s.1.accepts env q.1 q.2 offset = false
  | _ => True

instance (s : Migrator × Records) (a : MigratorAction) :
    Decidable (CopiesNothing s a) := by
  unfold CopiesNothing
  split <;> infer_instance

/-!
## A warm tree that was never written to
-/

structure Idle (w : LSMTree) : Prop where
  memtable : w.memtable.Sound
  nothing : forall key, w.memtable.get key = none
  immutables : w.immutables = []
  levels : w.levels.flatten = []
  flush : w.flush = .idle
  flushSignal : w.flushSignal = false
  merges : w.merges = 0

theorem idle_newLSMTree (config : LSMConfig) (seq : Nat) :
    Idle (newLSMTree .empty config seq) where
  memtable := MemTable.sound_newMemTable _
  nothing := fun _ => rfl
  immutables := rfl
  levels := List.flatten_eq_nil_iff.mpr
    (fun _ hlevel => List.eq_of_mem_replicate hlevel)
  flush := rfl
  flushSignal := rfl
  merges := rfl

variable {w w' : LSMTree}

theorem findSome?_levels (h : w.levels.flatten = []) (key : Bytes) :
    w.tablesGet key = none := by
  apply List.findSome?_eq_none_iff.mpr
  intro level hlevel
  rw [List.flatten_eq_nil_iff.mp h level hlevel]
  rfl

theorem Idle.get (h : Idle w) (key : Bytes) : w.get key = none := by
  rw [w.get_eq, findSome?_levels h.levels, LSMTree.memoryGet, h.nothing,
    h.immutables]
  rfl

theorem Idle.background (h : Idle w) {a : LSMAction}
    (hstep : background w a = some w') : Idle w' := by
  cases a with
  | put key value now => cases hstep
  | delete key now => cases hstep
  | takeImmutable =>
    change w.takeImmutable = some w' at hstep
    unfold LSMTree.takeImmutable at hstep
    rw [h.flushSignal] at hstep
    simp at hstep
  | writeImmutable now =>
    change w.writeImmutable now = some w' at hstep
    unfold LSMTree.writeImmutable at hstep
    rw [h.flush] at hstep
    cases hstep
  | installTable =>
    rcases LSMTree.installTable_cases hstep with ⟨sst, hflush, _⟩
    rw [h.flush] at hflush
    cases hflush
  | compactL0 order now =>
    change w.compactL0 order now = some w' at hstep
    unfold LSMTree.compactL0 at hstep
    rw [if_pos h.merges] at hstep
    cases hstep
  | beginClose =>
    change w.beginClose = some w' at hstep
    unfold LSMTree.beginClose at hstep
    split at hstep
    · cases hstep
    · cases hstep
      exact ⟨h.memtable, h.nothing, h.immutables, h.levels, h.flush,
        h.flushSignal, h.merges⟩
  | endClose =>
  rcases LSMTree.endClose_cases hstep with ⟨_, _, _, hw'⟩
  subst hw'
  refine ⟨h.memtable, h.nothing, h.immutables, ?_, h.flush, h.flushSignal,
    h.merges⟩
  apply List.flatten_eq_nil_iff.mpr
  intro level hlevel
  rcases List.mem_map.mp hlevel with ⟨old, hold, heq⟩
  rw [← heq, List.flatten_eq_nil_iff.mp h.levels old hold]
  rfl

/-!
## Copying nothing
-/

variable {env : Circumstances} {offset : Nat}

theorem copyRecord_of_not_copies {key : PartitionKey} {p : Partition}
    (h : copies env key p (takesWrites w) offset = false) (done : List Nat) :
    copyRecord env key p (w, done) offset = (w, done) := by
  unfold copies at h
  unfold copyRecord
  cases hreadFails : env.readFails key offset with
  | true => rfl
  | false =>
  cases hread : p.read offset with
  | error e => simp
  | ok data =>
  cases hputFails : env.putFails key offset with
  | true => simp
  | false =>
  have htakes : takesWrites w = false := by
    simpa [hreadFails, hread, hputFails, Except.isOk,
      Except.toBool] using h
  have hput := (@put_takesWrites w (be 8 offset) data env.now).left
  rw [htakes, Option.isSome_eq_false_iff,
    Option.isNone_iff_eq_none] at hput
  simp [hput]

theorem copyRecords_of_not_copies {key : PartitionKey} {p : Partition}
    {offsets : List Nat} (h : forall offset, offset ∈ offsets ->
      copies env key p (takesWrites w) offset = false) :
    offsets.foldl (copyRecord env key p) (w, []) = (w, []) := by
  induction offsets with
  | nil => rfl
  | cons offset offsets ih =>
  rw [List.foldl_cons,
    copyRecord_of_not_copies (h offset (List.mem_cons_self ..))]
  exact ih (fun o ho => h o (List.mem_cons_of_mem offset ho))

theorem migrateSegments_of_not_copies {cutoff : Int} {key : PartitionKey}
    {p : Partition} {segments : List Segment}
    (h : forall t, t ∈ segments -> (env.created key t : Int) ≤ cutoff ->
      forall offset, offset ∈ segmentOffsets t ->
        copies env key p (takesWrites w) offset = false) :
    segments.foldl (migrateSegment env cutoff key) (w, p, []) =
      (w, p, []) := by
  induction segments with
  | nil => rfl
  | cons t segments ih =>
  have hsame : migrateSegment env cutoff key (w, p, []) t =
      (w, p, []) := by
    unfold migrateSegment
    by_cases hold : (env.created key t : Int) > cutoff
    · rw [if_pos hold]
    · rw [if_neg hold, copyRecords_of_not_copies
        (h t (List.mem_cons_self ..) (by omega))]
      rfl
  rw [List.foldl_cons, hsame]
  exact ih (fun x hx => h x (List.mem_cons_of_mem t hx))

theorem migratePartitions_of_not_copies {env : Circumstances} {cutoff : Int}
    {e : HotEngine} {partitions : List (PartitionKey × Partition)}
    (hopen : forall q, q ∈ partitions ->
      getEntry q.1 e.partitions = some q.2)
    (h : forall q, q ∈ partitions -> forall t, t ∈ q.2.older ->
      (env.created q.1 t : Int) ≤ cutoff ->
        forall offset, offset ∈ segmentOffsets t ->
          copies env q.1 q.2 (takesWrites w) offset = false) :
    partitions.foldl (migratePartition env cutoff) (w, e, []) =
      (w, e, []) := by
  induction partitions with
  | nil => rfl
  | cons q partitions ih =>
  have hsame : migratePartition env cutoff (w, e, []) q = (w, e, []) := by
    have hput : e.putPartition q.1 q.2 = e := by
      unfold HotEngine.putPartition
      rw [setEntry_of_getEntry (hopen q (List.mem_cons_self ..))]
    unfold migratePartition
    rw [migrateSegments_of_not_copies (h q (List.mem_cons_self ..))]
    change (w, e.putPartition q.1 q.2, []) = (w, e, [])
    rw [hput]
  rw [List.foldl_cons, hsame]
  exact ih (fun x hx => hopen x (List.mem_cons_of_mem q hx))
    (fun x hx => h x (List.mem_cons_of_mem q hx))

variable {m : Migrator}

theorem migrateHotToWarm_of_copiesNothing {records : Records}
    (hnodup : (m.hot.partitions.map Prod.fst).Nodup)
    (h : CopiesNothing (m, records) (.migrateHotToWarm env)) :
    (m.migrateHotToWarm env).1 = m := by
  by_cases hidle : m.warm = none ∨ m.policy.hotRetention = 0
  · rw [migrateHotToWarm_idle hidle]
  rcases not_or.mp hidle with ⟨hsome, hpolicy⟩
  rcases Option.ne_none_iff_exists'.mp hsome with ⟨w, hw⟩
  have hmem : forall q, q ∈ env.order.order m.hot.partitions ->
      q ∈ m.hot.partitions :=
    fun q hq => (env.order.perm m.hot.partitions).mem_iff.mp hq
  have hsame := @migratePartitions_of_not_copies w env
    (env.now - m.policy.hotRetention) m.hot
    (env.order.order m.hot.partitions)
    (fun q hq => getEntry_of_mem hnodup (hmem q hq))
    (by
      intro q hq t ht hcutoff offset hoffset
      have hnot := h q (hmem q hq) t ht ⟨hpolicy, hcutoff⟩ offset hoffset
      unfold Migrator.accepts at hnot
      simp only [hw] at hnot
      exact hnot)
  unfold Migrator.migrateHotToWarm
  simp only [hw, if_neg hpolicy, hsame]
  rw [← hw]

/-!
## Copying something
-/

structure InMemory (w : LSMTree) : Prop where
  sound : w.Sound
  levels : w.levels.flatten = []
  flush : w.flush = .idle

def Live (w : LSMTree) (offset : Nat) : Prop :=
  exists v, w.memoryGet (be 8 offset) = some (v, false)

theorem Live.get (h : Live w offset) :
    exists v, w.get (be 8 offset) = some (v, false) := by
  rcases h with ⟨v, hv⟩
  refine ⟨v, ?_⟩
  rw [w.get_eq, hv]
  rfl

theorem InMemory.holds (h : InMemory w) (key : Bytes) :
    w.holds key = w.memoryGet key := by
  rw [LSMTree.holds, LSMTree.flushGet, h.flush, findSome?_levels h.levels]
  cases w.memoryGet key <;> rfl

structure Writes (w w' : LSMTree) (offsets : List Nat) : Prop where
  inMemory : InMemory w'
  keeps : forall offset, Live w offset -> Live w' offset
  live : forall offset, offset ∈ offsets -> Live w' offset

theorem Writes.refl (h : InMemory w) : Writes w w [] where
  inMemory := h
  keeps := fun _ hlive => hlive
  live := by
    intro offset hoffset
    cases hoffset

theorem Writes.trans {w'' : LSMTree} {xs ys : List Nat}
    (h : Writes w w' xs) (h' : Writes w' w'' ys) :
    Writes w w'' (xs ++ ys) where
  inMemory := h'.inMemory
  keeps := fun offset hlive => h'.keeps offset (h.keeps offset hlive)
  live := by
    intro offset hoffset
    rcases List.mem_append.mp hoffset with hfirst | hsecond
    · exact h'.keeps offset (h.live offset hfirst)
    · exact h'.live offset hsecond

theorem InMemory.put (h : InMemory w) {now : Nat} {data : Bytes}
    (hput : w.put (be 8 offset) data now = some w') :
    Writes w w' [offset] := by
  rcases LSMTree.put_cases hput with ⟨hopen, _, hlevels, hflush⟩
  have hsteps := h.sound.put hopen hput
  have hmemory : InMemory w' :=
    { sound := hsteps.sound
      levels := by
        rw [hlevels]
        exact h.levels
      flush := by
        rw [hflush]
        exact h.flush }
  have hget : forall o, w'.memoryGet (be 8 o) =
      if be 8 o = be 8 offset then some (data, false)
      else w.memoryGet (be 8 o) := by
    intro o
    have hafter := hsteps.holds (be 8 o) (length_be 8 o)
    rw [hmemory.holds, h.holds] at hafter
    exact hafter
  exact
    { inMemory := hmemory
      keeps := by
        rintro o ⟨v, hv⟩
        unfold Live
        rw [hget]
        split
        · exact ⟨data, rfl⟩
        · exact ⟨v, hv⟩
      live := by
        intro o ho
        rw [List.mem_singleton.mp ho]
        unfold Live
        rw [hget, if_pos rfl]
        exact ⟨data, rfl⟩ }

theorem writes_foldl {γ ι : Type} {tree : γ -> LSMTree}
    {written : γ -> List Nat} {f : γ -> ι -> γ}
    (hstep : forall c x, InMemory (tree c) -> exists xs,
      written (f c x) = written c ++ xs ∧ Writes (tree c) (tree (f c x)) xs)
    (rounds : List ι) {c : γ} (hc : InMemory (tree c)) :
    exists xs, written (rounds.foldl f c) = written c ++ xs ∧
      Writes (tree c) (tree (rounds.foldl f c)) xs := by
  induction rounds generalizing c with
  | nil => exact ⟨[], (List.append_nil _).symm, Writes.refl hc⟩
  | cons x rounds ih =>
  rcases hstep c x hc with ⟨xs, hxs, hwrites⟩
  rcases ih hwrites.inMemory with ⟨ys, hys, hrest⟩
  refine ⟨xs ++ ys, ?_, hwrites.trans hrest⟩
  rw [List.foldl_cons, hys, hxs, List.append_assoc]

theorem writes_copyRecord (env : Circumstances) (key : PartitionKey)
    (p : Partition) (c : LSMTree × List Nat) (offset : Nat)
    (hc : InMemory c.1) :
    exists xs, (copyRecord env key p c offset).2 = c.2 ++ xs ∧
      Writes c.1 (copyRecord env key p c offset).1 xs := by
  have hnone : exists xs, c.2 = c.2 ++ xs ∧ Writes c.1 c.1 xs :=
    ⟨[], (List.append_nil _).symm, Writes.refl hc⟩
  unfold copyRecord
  split
  · exact hnone
  split
  · exact hnone
  split
  · exact hnone
  split
  · exact hnone
  · rename_i hput
    exact ⟨[offset], rfl, hc.put hput⟩

theorem writes_migrateSegment (env : Circumstances) (cutoff : Int)
    (key : PartitionKey) (c : LSMTree × Partition × List Nat) (s : Segment)
    (hc : InMemory c.1) :
    exists xs, (migrateSegment env cutoff key c s).2.2 = c.2.2 ++ xs ∧
      Writes c.1 (migrateSegment env cutoff key c s).1 xs := by
  unfold migrateSegment
  split
  · exact ⟨[], (List.append_nil _).symm, Writes.refl hc⟩
  rcases @writes_foldl _ _ Prod.fst Prod.snd _
    (writes_copyRecord env key c.2.1) (segmentOffsets s) (c.1, []) hc with
    ⟨xs, hxs, hwrites⟩
  simp only
  rw [List.nil_append] at hxs
  split
  · exact ⟨xs, by rw [hxs], hwrites⟩
  rename_i hzero
  rw [hxs] at hzero
  have hnil : xs = [] := List.eq_nil_of_length_eq_zero (by omega)
  rw [hnil] at hwrites
  exact ⟨[], (List.append_nil _).symm, hwrites⟩

theorem writes_migratePartition (env : Circumstances) (cutoff : Int)
    (c : LSMTree × HotEngine × List (PartitionKey × Nat))
    (q : PartitionKey × Partition) (hc : InMemory c.1) :
    exists xs, (migratePartition env cutoff c q).2.2.map Prod.snd =
        c.2.2.map Prod.snd ++ xs ∧
      Writes c.1 (migratePartition env cutoff c q).1 xs := by
  rcases @writes_foldl _ _ Prod.fst (fun c => c.2.2) _
    (writes_migrateSegment env cutoff q.1) q.2.older (c.1, q.2, []) hc with
    ⟨xs, hxs, hwrites⟩
  refine ⟨xs, ?_, hwrites⟩
  rw [List.nil_append] at hxs
  unfold migratePartition
  simp only [List.map_append, List.map_map, hxs]
  congr 1
  exact List.map_id xs

theorem live_of_accepted (hw : m.warm = some w) (hmemory : InMemory w)
    {e : PartitionKey × Nat} (he : e ∈ (m.migrateHotToWarm env).2) :
    exists w', (m.migrateHotToWarm env).1.warm = some w' ∧ Live w' e.2 := by
  unfold Migrator.migrateHotToWarm at he ⊢
  simp only [hw] at he ⊢
  by_cases hpolicy : m.policy.hotRetention = 0
  · rw [if_pos hpolicy] at he
    cases he
  rw [if_neg hpolicy] at he ⊢
  rcases @writes_foldl _ _ Prod.fst (fun c => c.2.2.map Prod.snd) _
    (writes_migratePartition env (env.now - m.policy.hotRetention))
    (env.order.order m.hot.partitions) (w, m.hot, []) hmemory with
    ⟨xs, hxs, hwrites⟩
  refine ⟨_, rfl, hwrites.live e.2 ?_⟩
  rw [List.map_nil, List.nil_append] at hxs
  rw [← hxs]
  exact List.mem_map_of_mem he

/-!
## Runs
-/

/--
After `n` actions the hot tier has all records, and the others have nothing.
-/
structure Untouched (n : Nat) (s : Migrator × Records) : Prop where
  hot : s.1.hot.Stores s.2
  length : forall key, (s.2 key).length ≤ n
  warm : exists w, s.1.warm = some w ∧ Idle w
  cold : exists c, s.1.cold = some c ∧ c.archives = []

theorem Idle.inMemory (h : Idle w) : InMemory w where
  sound :=
    { memtable := h.memtable
      immutables := by
        intro mt hmt
        rw [h.immutables] at hmt
        cases hmt
      levels := by
        intro level hlevel sst hsst
        rw [List.flatten_eq_nil_iff.mp h.levels level hlevel] at hsst
        cases hsst
      flush := by
        rw [h.flush]
        trivial }
  levels := h.levels
  flush := h.flush

variable {n : Nat} {s : Migrator × Records}

theorem Untouched.readsRecords (h : Untouched n s) : ReadsRecords s := by
  intro key offset now order _ data
  rcases h.warm with ⟨w, hw, hidle⟩
  rcases h.cold with ⟨c, hc, hempty⟩
  rcases h.hot.getOrCreatePartition key now with ⟨e, p, hget, _, hp⟩
  have hcold : c.get order offset = none := by
    have hperm := order.perm c.archives
    rw [hempty] at hperm
    unfold ColdManager.get
    rw [hempty, hperm.eq_nil]
    rfl
  have hbelow : forall m : Migrator, m.warm = s.1.warm -> m.cold = s.1.cold ->
      m.readBelow offset order = .error (.notFound offset) := by
    intro m hmw hmc
    unfold Migrator.readBelow
    simp only [hmw, hmc, hw, hc, Option.bind_some, hidle.get, hcold]
  rw [← hp.read_iff]
  unfold Migrator.read
  simp only [hget]
  cases hread : p.read offset with
  | ok found => simp
  | error err =>
  simp only
  rw [hbelow { s.1 with hot := e } rfl rfl]
  simp

theorem exists_longer {α : Type} (xss : List (List α)) :
    exists n, forall xs, xs ∈ xss -> xs.length < n := by
  induction xss with
  | nil => exact ⟨0, fun xs hxs => by cases hxs⟩
  | cons ys xss ih =>
  rcases ih with ⟨n, hn⟩
  refine ⟨ys.length + 1 + n, ?_⟩
  intro xs hxs
  rcases List.mem_cons.mp hxs with heq | hrest
  · rw [heq]
    omega
  · have hlt := hn xs hrest
    omega

theorem exists_partition_without_records {e : HotEngine} {records : Records}
    (h : e.Stores records) : exists key, records key = [] := by
  rcases exists_longer (e.partitions.map (fun q => q.1.1)) with ⟨n, hn⟩
  refine ⟨(List.replicate n 97, 0), ?_⟩
  apply (h.closed _ _).left
  cases hget : getEntry (List.replicate n 97, 0) e.partitions with
  | none => rfl
  | some p =>
  have hlt := hn _ (List.mem_map_of_mem (mem_of_getEntry hget))
  simp at hlt

theorem exists_read_of_live (hw : m.warm = some w) (hlive : Live w offset)
    (key : PartitionKey) :
    exists data, (m.read key offset 0 (.listed _)).2 = .ok data := by
  rcases hlive.get with ⟨v, hv⟩
  have hbelow : forall hot : HotEngine,
      ({ m with hot := hot } : Migrator).readBelow offset (.listed _) =
        .ok v := by
    intro hot
    unfold Migrator.readBelow
    simp only [hw, Option.bind_some, hv]
  unfold Migrator.read
  cases m.hot.getOrCreatePartition key 0 with
  | error err => exact ⟨v, hbelow m.hot⟩
  | ok r =>
  rcases r with ⟨hot, p⟩
  simp only
  cases p.read offset with
  | error err => exact ⟨v, hbelow hot⟩
  | ok data => exact ⟨data, rfl⟩

theorem Untouched.engineInOrder (h : Untouched n s) :
    EngineInOrder s.1.hot where
  nodup := h.hot.nodup
  inOrder := by
    intro key p hget
    rcases h.hot.opened key p hget with ⟨front, last, hretained, _⟩
    exact inOrder_of_openLog hretained.opened

theorem Untouched.mixes (hn : n < 2 ^ 64) (h : Untouched n s)
    {a : MigratorAction} (hnot : ¬ CopiesNothing s a) :
    exists s', migratorStep s a = some s' ∧ ¬ ReadsRecords s' := by
  cases a with
  | append key data now => exact absurd trivial hnot
  | read key offset now order => exact absurd trivial hnot
  | background a => exact absurd trivial hnot
  | migrateWarmToCold now clock => exact absurd trivial hnot
  | migrateHotToWarm env =>
  refine ⟨_, rfl, ?_⟩
  rcases h.warm with ⟨w, hw, hidle⟩
  unfold CopiesNothing at hnot
  simp only [not_forall, Bool.not_eq_false] at hnot
  rcases hnot with ⟨⟨key, p⟩, hq, t, ht, hexpires, offset, hoffset,
    haccepts⟩
  have hget := getEntry_of_mem h.hot.nodup hq
  have hcopies : copies env key p (takesWrites w) offset = true := by
    unfold Migrator.accepts at haccepts
    simpa only [hw] using haccepts
  rcases @migrateHotToWarm_eq s.1 env w h.engineInOrder hw hexpires.left
    key p hget with ⟨_, _, _, haccepted⟩
  have hmem : (key, offset) ∈ (s.1.migrateHotToWarm env).2 := by
    rw [haccepted]
    exact List.mem_flatMap.mpr ⟨t, ht, mem_copiedOffsets.mpr
      ⟨hexpires.right, hoffset, hcopies⟩⟩
  have hlt : offset < 2 ^ 64 := by
    have hp := h.hot.opened key p hget
    cases hread : p.read offset with
    | error err => simp [copies, hread, Except.isOk, Except.toBool]
        at hcopies
    | ok data =>
    have hin := hp.offset_lt ((hp.read_iff offset data).mp hread)
    have hle := h.length key
    simp only at hin
    omega
  rcases live_of_accepted hw hidle.inMemory hmem with ⟨w', hw', hlive⟩
  rcases exists_partition_without_records h.hot with ⟨other, hother⟩
  rcases exists_read_of_live hw' hlive other with ⟨data, hread⟩
  intro hreads
  have hfound := (hreads other offset 0 (.listed _) hlt data).mp hread
  simp only [hother] at hfound
  cases hfound

theorem Untouched.migrateWarmToCold (h : Untouched n s) {now : Nat}
    {clock : Nat -> Nat} (hstep : s.1.migrateWarmToCold now clock = some m) :
    Untouched n (m, s.2) := by
  rcases h.warm with ⟨w, hw, hidle⟩
  rcases h.cold with ⟨c, hc, hempty⟩
  have hold : oldSSTables w s.1.policy.warmRetention now = [] := by
    unfold oldSSTables
    split
    · apply List.flatten_eq_nil_iff.mpr
      intro level hlevel
      exact List.flatten_eq_nil_iff.mp hidle.levels level
        (List.mem_of_mem_drop hlevel)
    · rfl
  unfold Migrator.migrateWarmToCold at hstep
  simp only [hc, hw, hold] at hstep
  split at hstep
  · cases hstep
    exact h
  cases hstep
  exact
    { hot := h.hot
      length := h.length
      warm := ⟨w, rfl, hidle⟩
      cold := ⟨c, rfl, hempty⟩ }

theorem Untouched.succ (h : Untouched n s) : Untouched (n + 1) s where
  hot := h.hot
  length := fun key => (h.length key).trans (Nat.le_succ n)
  warm := h.warm
  cold := h.cold

theorem Untouched.step {s' : Migrator × Records} (hn : n + 1 < 2 ^ 64)
    (h : Untouched n s) {a : MigratorAction} (hnothing : CopiesNothing s a)
    (hstep : migratorStep s a = some s') :
    Untouched (n + 1) s' := by
  cases a with
  | append key data now =>
    cases hstep
    have hle := h.length key
    exact
      { hot := h.hot.append key (by omega) data now
        length := by
          intro key'
          have hrecorded := HotEngine.length_recorded s.2 key data
            (s.1.hot.append key data now).2 key'
          exact hrecorded.trans (Nat.succ_le_succ (h.length key'))
        warm := h.warm
        cold := h.cold }
  | read key offset now order =>
    cases hstep
    rcases h.hot.getOrCreatePartition key now with ⟨e, p, hget, he, _⟩
    have hread : (s.1.read key offset now order).1 =
        { s.1 with hot := e } := by
      unfold Migrator.read
      simp only [hget]
      cases p.read offset <;> rfl
    rw [hread]
    exact
      { hot := he
        length := h.succ.length
        warm := h.warm
        cold := h.cold }
  | background a =>
    rcases h.warm with ⟨w, hw, hidle⟩
    unfold migratorStep at hstep
    simp only [hw] at hstep
    rcases Option.map_eq_some_iff.mp hstep with ⟨w', hback, hs'⟩
    cases hs'
    exact
      { hot := h.hot
        length := h.succ.length
        warm := ⟨w', rfl, hidle.background hback⟩
        cold := h.cold }
  | migrateHotToWarm env =>
    cases hstep
    rw [migrateHotToWarm_of_copiesNothing h.hot.nodup hnothing]
    exact h.succ
  | migrateWarmToCold now clock =>
    rcases Option.map_eq_some_iff.mp hstep with ⟨m, hm, hs'⟩
    cases hs'
    exact (h.migrateWarmToCold hm).succ

def emptyTiers (policy : TierPolicy) (size : Nat) (config : LSMConfig) :
    Migrator where
  policy := policy
  hot := .newEngine size []
  warm := some (newLSMTree .empty config 0)
  cold := some .empty

theorem untouched_emptyTiers (policy : TierPolicy) {size : Nat}
    (hsize : size < 2 ^ 32) (config : LSMConfig) :
    Untouched 0 (emptyTiers policy size config, fun _ => []) where
  hot := HotEngine.stores_newEngine hsize
  length := fun _ => Nat.le_refl _
  warm := ⟨_, rfl, idle_newLSMTree config 0⟩
  cold := ⟨_, rfl, rfl⟩

/--
Reads give the records of their partition and nothing else, all through a run,
exactly if no migration copies a record to the warm tier.
-/
theorem readsRecords_iff_copiesNothing (policy : TierPolicy) {size : Nat}
    (hsize : size < 2 ^ 32) (config : LSMConfig)
    {actions : List MigratorAction} (hfew : actions.length < 2 ^ 64) :
    (forall front, front <+: actions -> forall s,
      run? migratorStep (emptyTiers policy size config, fun _ => []) front =
        some s -> ReadsRecords s) <->
      Meets migratorStep CopiesNothing
        (emptyTiers policy size config, fun _ => []) actions := by
  have hkeep : forall n s a s', n < actions.length -> Untouched n s ->
      CopiesNothing s a -> migratorStep s a = some s' ->
      Untouched (n + 1) s' :=
    fun n s a s' hn hs hnothing hone => hs.step (by omega) hnothing hone
  have hbreak : forall n s a, n < actions.length -> Untouched n s ->
      ¬ CopiesNothing s a ->
      exists s', migratorStep s a = some s' ∧ ¬ ReadsRecords s' :=
    fun n s a hn hs hnot => hs.mixes (by omega) hnot
  exact run?_always_iff_meets (fun _ _ h => h.readsRecords) hkeep hbreak
    (untouched_emptyTiers policy hsize config) (by omega)

def twoTopics : List MigratorAction :=
  [.append ([97], 0) [1] 0, .append ([97], 0) [2] 0, .append ([97], 0) [3] 0,
    .append ([98], 0) [4] 0, .append ([98], 0) [5] 0, .append ([98], 0) [6] 0]

/-- Nothing fails, and all segments are old. -/
def noFailures : Circumstances where
  now := 10
  order := .listed _
  created := fun _ _ => 0
  readFails := fun _ _ => false
  putFails := fun _ _ => false

def keptFor (hotRetention : Int) : Migrator :=
  emptyTiers { hotRetention := hotRetention, warmRetention := 1 } 42 tinyConfig

theorem readsRecords_notYetOld :
    exists s, run? migratorStep (keptFor 20, fun _ => [])
        (twoTopics ++ [.migrateHotToWarm noFailures]) = some s ∧
      ReadsRecords s := by
  have hcheck : (run? migratorStep (keptFor 20, fun _ => [])
      (twoTopics ++ [.migrateHotToWarm noFailures])).isSome = true := by
    decide +kernel
  rcases Option.isSome_iff_exists.mp hcheck with ⟨s, hrun⟩
  exact ⟨s, hrun, (readsRecords_iff_copiesNothing
    { hotRetention := 20, warmRetention := 1 } (by decide) tinyConfig
    (by decide)).mpr (by decide +kernel) _ (List.prefix_refl _) s hrun⟩

/-- After a migration a topic reads the records of the other one. -/
theorem not_readsRecords_migrated :
    exists s, run? migratorStep (keptFor 1, fun _ => [])
        (twoTopics ++ [.migrateHotToWarm noFailures]) = some s ∧
      (0, [1]) ∈ s.2 ([97], 0) ∧
      (s.1.read ([97], 0) 0 0 (.listed _)).2 = .ok [4] ∧
      ¬ ReadsRecords s := by
  have hcheck : (run? migratorStep (keptFor 1, fun _ => [])
      (twoTopics ++ [.migrateHotToWarm noFailures])).map (fun s =>
        decide ((0, [1]) ∈ s.2 ([97], 0) ∧ (0, [4]) ∉ s.2 ([97], 0) ∧
          (s.1.read ([97], 0) 0 0 (.listed _)).2 = .ok [4])) = some true := by
    decide +kernel
  rcases Option.map_eq_some_iff.mp hcheck with ⟨s, hrun, hdecide⟩
  rcases of_decide_eq_true hdecide with ⟨hfirst, hother, hread⟩
  refine ⟨s, hrun, hfirst, hread, ?_⟩
  intro hreads
  exact hother ((hreads ([97], 0) 0 0 (.listed _) (by decide) [4]).mp hread)

end Tier
end ChimeraMQ
