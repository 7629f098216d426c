import ChimeraMQ.Storage.EngineLog
import ChimeraMQ.Tier.Migrator

/-!
# What is copied before a segment goes

A migration removes a segment when one of its records was copied.  The others
are gone unless all of them were.
-/

namespace ChimeraMQ
namespace Tier

open Foundation
open Storage
open Warm

structure InOrder (p : Partition) : Prop where
  pairwise : p.segments.Pairwise (fun s t => s.nextOff ≤ t.baseOff)
  base_le_next : forall s, s ∈ p.segments -> s.baseOff ≤ s.nextOff

structure EngineInOrder (e : HotEngine) : Prop where
  nodup : (e.partitions.map Prod.fst).Nodup
  inOrder : forall key p, getEntry key e.partitions = some p -> InOrder p

variable {p : Partition}

theorem inOrder_of_openLog {front : List Partition.Chunk}
    {last : Partition.Chunk} (h : p.OpenLog front last) : InOrder p where
  pairwise := h.ordered
  base_le_next := fun _ hs => h.base_le_next hs

theorem engineInOrder_of_forall {e : HotEngine}
    (hnodup : (e.partitions.map Prod.fst).Nodup)
    (h : forall q, q ∈ e.partitions -> InOrder q.2) : EngineInOrder e where
  nodup := hnodup
  inOrder := fun key p hget => h (key, p) (mem_of_getEntry hget)

instance (p : Partition) : Decidable (InOrder p) :=
  decidable_of_iff
    (p.segments.Pairwise (fun s t => s.nextOff ≤ t.baseOff) ∧
      forall s, s ∈ p.segments -> s.baseOff ≤ s.nextOff)
    ⟨fun h => ⟨h.left, h.right⟩, fun h => ⟨h.pairwise, h.base_le_next⟩⟩

/-!
## What a migration accepts
-/

def takesWrites (w : LSMTree) : Bool :=
  !w.closed && !w.memtable.frozen

/-- Whether the record at an offset reaches a tree that takes writes or not. -/
def copies (env : Circumstances) (key : PartitionKey) (p : Partition)
    (writable : Bool) (offset : Nat) : Bool :=
  !env.readFails key offset && (p.read offset).isOk &&
    !env.putFails key offset && writable

def copiedOffsets (env : Circumstances) (cutoff : Int) (key : PartitionKey)
    (p : Partition) (writable : Bool) (s : Segment) : List Nat :=
  if (env.created key s : Int) > cutoff then []
  else (segmentOffsets s).filter (copies env key p writable)

def stays (env : Circumstances) (cutoff : Int) (key : PartitionKey)
    (p : Partition) (writable : Bool) (s : Segment) : Bool :=
  (copiedOffsets env cutoff key p writable s).isEmpty

theorem put_takesWrites {w : LSMTree} (key value : Bytes) (now : Nat) :
    (w.put key value now).isSome = takesWrites w ∧
      forall w', w.put key value now = some w' ->
        takesWrites w' = takesWrites w := by
  unfold LSMTree.put MemTable.put takesWrites
  cases hclosed : w.closed with
  | true => simp
  | false =>
  cases hfrozen : w.memtable.frozen with
  | true => simp
  | false =>
  simp only [Bool.false_eq_true, if_false]
  split
  · simp [newMemTable]
  · simp [hfrozen, MemTable.insert]

theorem copyRecord_eq (env : Circumstances) (key : PartitionKey)
    (p : Partition) (w : LSMTree) (done : List Nat) (offset : Nat) :
    takesWrites (copyRecord env key p (w, done) offset).1 = takesWrites w ∧
      (copyRecord env key p (w, done) offset).2 =
        if copies env key p (takesWrites w) offset then done ++ [offset]
        else done := by
  unfold copyRecord copies
  cases hreadFails : env.readFails key offset with
  | true => simp
  | false =>
  cases hread : p.read offset with
  | error e => simp [Except.isOk, Except.toBool]
  | ok data =>
  cases hputFails : env.putFails key offset with
  | true => simp
  | false =>
  have hput := @put_takesWrites w (be 8 offset) data env.now
  cases hw : w.put (be 8 offset) data env.now with
  | none =>
    rw [hw] at hput
    simp [hw, ← hput.left]
  | some w' =>
  rw [hw] at hput
  have hsame := hput.right w' rfl
  simp [hw, ← hput.left, hsame, Except.isOk, Except.toBool]

theorem copyRecords_eq (env : Circumstances) (key : PartitionKey)
    (p : Partition) (offsets : List Nat) (w : LSMTree) (done : List Nat) :
    takesWrites (offsets.foldl (copyRecord env key p) (w, done)).1 =
        takesWrites w ∧
      (offsets.foldl (copyRecord env key p) (w, done)).2 =
        done ++ offsets.filter (copies env key p (takesWrites w)) := by
  induction offsets generalizing w done with
  | nil => exact ⟨rfl, (List.append_nil _).symm⟩
  | cons offset offsets ih =>
  rcases copyRecord_eq env key p w done offset with ⟨hwritable, hdone⟩
  rcases ih (copyRecord env key p (w, done) offset).1
    (copyRecord env key p (w, done) offset).2 with ⟨hleft, hright⟩
  rw [hwritable] at hleft hright
  rw [List.foldl_cons]
  refine ⟨hleft, hright.trans ?_⟩
  rw [hdone]
  cases hcopies : copies env key p (takesWrites w) offset with
  | true => simp [hcopies]
  | false => simp [hcopies]

/-!
## Removing segments
-/

variable {s : Segment}

theorem mem_segmentOffsets {offset : Nat} :
    offset ∈ segmentOffsets s <-> s.baseOff ≤ offset ∧ offset < s.nextOff := by
  unfold segmentOffsets
  rw [List.mem_range'_1]
  omega

structure Thinned (p q : Partition) : Prop where
  older : q.older.Sublist p.older
  active : q.active = p.active
  content : forall i, q.dir.content i = p.dir.content i

theorem Thinned.refl (p : Partition) : Thinned p p :=
  ⟨List.Sublist.refl _, rfl, fun _ => rfl⟩

variable {q : Partition}

theorem Thinned.segments (h : Thinned p q) :
    q.segments.Sublist p.segments := by
  unfold Partition.segments
  rw [h.active]
  exact h.older.append (List.Sublist.refl _)

theorem Thinned.inOrder (h : Thinned p q) (hp : InOrder p) : InOrder q where
  pairwise := hp.pairwise.sublist h.segments
  base_le_next := fun s hs => hp.base_le_next s (h.segments.subset hs)

theorem Thinned.read (h : Thinned p q) (hp : InOrder p) (hs : s ∈ q.segments)
    {offset : Nat} (hoffset : offset ∈ segmentOffsets s) :
    q.read offset = p.read offset := by
  rcases mem_segmentOffsets.mp hoffset with ⟨hle, hlt⟩
  have hq := h.inOrder hp
  have hfind := Partition.findSegment_of_mem hp.pairwise hp.base_le_next
    (h.segments.subset hs) hle hlt
  have hfind' := Partition.findSegment_of_mem hq.pairwise hq.base_le_next hs
    hle hlt
  unfold Partition.read Partition.content
  rw [hfind, hfind']
  simp only [h.content]

/--
A partition some of whose segments have been migrated: those of `done` that do
not stay are gone, and the records that were accepted are listed.
-/
structure Migrating (env : Circumstances) (cutoff : Int) (key : PartitionKey)
    (p : Partition) (writable : Bool) (done rest : List Segment)
    (c : LSMTree × Partition × List Nat) : Prop where
  takes : takesWrites c.1 = writable
  thinned : Thinned p c.2.1
  older : c.2.1.older =
    done.filter (stays env cutoff key p writable) ++ rest
  accepted : c.2.2 = done.flatMap (copiedOffsets env cutoff key p writable)

variable {env : Circumstances} {cutoff : Int} {key : PartitionKey}
  {writable : Bool}

theorem Migrating.keep {done rest : List Segment}
    {c : LSMTree × Partition × List Nat} {w : LSMTree}
    (h : Migrating env cutoff key p writable done (s :: rest) c)
    (htakes : takesWrites w = writable)
    (hnone : copiedOffsets env cutoff key p writable s = []) :
    Migrating env cutoff key p writable (done ++ [s]) rest
      (w, c.2.1, c.2.2) where
  takes := htakes
  thinned := h.thinned
  older := by
    have hstays : stays env cutoff key p writable s = true := by
      rw [stays, hnone]
      rfl
    rw [h.older, List.filter_append, List.filter_cons_of_pos hstays,
      List.append_assoc]
    rfl
  accepted := by
    rw [h.accepted, List.flatMap_append, List.flatMap_singleton, hnone,
      List.append_nil]

theorem Migrating.step {done rest : List Segment}
    {c : LSMTree × Partition × List Nat} (hp : InOrder p)
    (h : Migrating env cutoff key p writable done (s :: rest) c) :
    Migrating env cutoff key p writable (done ++ [s]) rest
      (migrateSegment env cutoff key c s) := by
  by_cases hold : (env.created key s : Int) > cutoff
  · have hsame : migrateSegment env cutoff key c s = c := if_pos hold
    rw [hsame]
    exact h.keep h.takes (if_pos hold)
  have hoffsets : copiedOffsets env cutoff key p writable s =
      (segmentOffsets s).filter (copies env key p writable) := if_neg hold
  have hs : s ∈ c.2.1.segments := by
    apply List.mem_append_left
    rw [h.older]
    exact List.mem_append_right _ (List.mem_cons_self ..)
  have hcopies : (segmentOffsets s).filter
      (copies env key c.2.1 (takesWrites c.1)) =
        copiedOffsets env cutoff key p writable s := by
    rw [hoffsets]
    apply List.filter_congr
    intro offset hoffset
    unfold copies
    rw [h.thinned.read hp hs hoffset, h.takes]
  rcases copyRecords_eq env key c.2.1 (segmentOffsets s) c.1 [] with
    ⟨htakes, hlist⟩
  rw [List.nil_append, hcopies] at hlist
  rw [h.takes] at htakes
  unfold migrateSegment
  rw [if_neg hold]
  simp only [hlist]
  by_cases hany : 0 < (copiedOffsets env cutoff key p writable s).length
  · have hgoes : stays env cutoff key p writable s = false := by
      rw [stays, List.isEmpty_eq_false_iff]
      exact List.ne_nil_of_length_pos hany
    have hbefore : s ∉ done.filter (stays env cutoff key p writable) := by
      intro hmem
      have hstays := (List.mem_filter.mp hmem).right
      rw [hgoes] at hstays
      cases hstays
    have holder : (dropSegment c.2.1 s).older =
        done.filter (stays env cutoff key p writable) ++ rest := by
      unfold dropSegment
      rw [h.older, List.erase_append_right _ hbefore, List.erase_cons_head]
    rw [if_pos hany]
    exact
      { takes := htakes
        thinned :=
          { older := (List.erase_sublist ..).trans h.thinned.older
            active := h.thinned.active
            content := h.thinned.content }
        older := by
          rw [holder, List.filter_append,
            List.filter_cons_of_neg (by simp [hgoes]), List.filter_nil,
            List.append_nil]
        accepted := by
          rw [h.accepted, List.flatMap_append, List.flatMap_singleton] }
  · rw [if_neg hany]
    exact h.keep htakes (List.eq_nil_of_length_eq_zero (by omega))

theorem migrateSegments (hp : InOrder p) {done rest : List Segment}
    {c : LSMTree × Partition × List Nat}
    (h : Migrating env cutoff key p writable done rest c) :
    Migrating env cutoff key p writable (done ++ rest) []
      (rest.foldl (migrateSegment env cutoff key) c) := by
  induction rest generalizing done c with
  | nil =>
    rw [List.append_nil]
    exact h
  | cons s rest ih =>
  have hstep := ih (h.step hp)
  rw [List.append_assoc] at hstep
  exact hstep

theorem migratedPartition (env : Circumstances) (cutoff : Int)
    (key : PartitionKey) (hp : InOrder p) (w : LSMTree) :
    Migrating env cutoff key p (takesWrites w) p.older []
      (p.older.foldl (migrateSegment env cutoff key) (w, p, [])) := by
  have hstart : Migrating env cutoff key p (takesWrites w) [] p.older
      (w, p, []) :=
    { takes := rfl
      thinned := Thinned.refl p
      older := rfl
      accepted := rfl }
  exact migrateSegments hp hstart

/-!
## All partitions
-/

structure MigratedTo (env : Circumstances) (cutoff : Int) (key : PartitionKey)
    (writable : Bool) (p q : Partition) : Prop where
  thinned : Thinned p q
  older : q.older = p.older.filter (stays env cutoff key p writable)

structure EngineMigrating (env : Circumstances) (cutoff : Int)
    (writable : Bool) (done : List (PartitionKey × Partition))
    (c : LSMTree × HotEngine × List (PartitionKey × Nat)) : Prop where
  takes : takesWrites c.1 = writable
  migrated : forall q, q ∈ done ->
    exists p', getEntry q.1 c.2.1.partitions = some p' ∧
      MigratedTo env cutoff q.1 writable q.2 p'
  accepted : c.2.2 = done.flatMap (fun q =>
    (q.2.older.flatMap (copiedOffsets env cutoff q.1 q.2 writable)).map
      (fun offset => (q.1, offset)))

theorem EngineMigrating.step {done : List (PartitionKey × Partition)}
    {q : PartitionKey × Partition}
    {c : LSMTree × HotEngine × List (PartitionKey × Nat)} (hq : InOrder q.2)
    (hnew : q.1 ∉ done.map Prod.fst)
    (h : EngineMigrating env cutoff writable done c) :
    EngineMigrating env cutoff writable (done ++ [q])
      (migratePartition env cutoff c q) := by
  have hp := migratedPartition env cutoff q.1 hq c.1
  rw [h.takes] at hp
  exact
    { takes := hp.takes
      migrated := by
        intro r hr
        rcases List.mem_append.mp hr with hdone | hlast
        · have hne : r.1 ≠ q.1 := by
            intro heq
            apply hnew
            rw [← heq]
            exact List.mem_map_of_mem hdone
          rcases h.migrated r hdone with ⟨p', hget, hp'⟩
          refine ⟨p', ?_, hp'⟩
          change getEntry r.1 (setEntry q.1 _ c.2.1.partitions) = some p'
          rw [getEntry_setEntry_ne hne]
          exact hget
        · rw [List.mem_singleton.mp hlast]
          refine ⟨_, getEntry_setEntry .., hp.thinned, ?_⟩
          rw [hp.older, List.append_nil]
      accepted := by
        change c.2.2 ++ _ = _
        rw [h.accepted, hp.accepted, List.flatMap_append,
          List.flatMap_singleton] }

theorem migratePartitions {done rest : List (PartitionKey × Partition)}
    {c : LSMTree × HotEngine × List (PartitionKey × Nat)}
    (hrest : forall q, q ∈ rest -> InOrder q.2)
    (hnodup : ((done ++ rest).map Prod.fst).Nodup)
    (h : EngineMigrating env cutoff writable done c) :
    EngineMigrating env cutoff writable (done ++ rest)
      (rest.foldl (migratePartition env cutoff) c) := by
  induction rest generalizing done c with
  | nil =>
    rw [List.append_nil]
    exact h
  | cons q rest ih =>
  have hnew : q.1 ∉ done.map Prod.fst := by
    intro hmem
    rw [List.map_append, List.map_cons] at hnodup
    exact (List.nodup_append.mp hnodup).right.right q.1 hmem q.1
      (List.mem_cons_self ..) rfl
  have hshape : done ++ q :: rest = done ++ [q] ++ rest := by
    rw [List.append_assoc]
    rfl
  have hstep := h.step (hrest q (List.mem_cons_self ..)) hnew
  rw [hshape] at hnodup ⊢
  exact ih (fun r hr => hrest r (List.mem_cons_of_mem _ hr)) hnodup hstep

theorem migrateHotToWarm_eq {m : Migrator} {env : Circumstances} {w : LSMTree}
    (horder : EngineInOrder m.hot) (hwarm : m.warm = some w)
    (hpolicy : m.policy.hotRetention ≠ 0) {key : PartitionKey} {p : Partition}
    (hget : getEntry key m.hot.partitions = some p) :
    exists q, getEntry key (m.migrateHotToWarm env).1.hot.partitions = some q ∧
      MigratedTo env (env.now - m.policy.hotRetention) key (takesWrites w) p q ∧
      forall offset, (key, offset) ∈ (m.migrateHotToWarm env).2 <->
        offset ∈ p.older.flatMap (copiedOffsets env
          (env.now - m.policy.hotRetention) key p (takesWrites w)) := by
  have hperm := env.order.perm m.hot.partitions
  have hnodup : ((env.order.order m.hot.partitions).map Prod.fst).Nodup :=
    (hperm.map Prod.fst).nodup_iff.mpr horder.nodup
  have hinOrder : forall q, q ∈ env.order.order m.hot.partitions ->
      InOrder q.2 := by
    intro q hq
    exact horder.inOrder q.1 q.2
      (getEntry_of_mem horder.nodup (hperm.mem_iff.mp hq))
  have hstart : EngineMigrating env (env.now - m.policy.hotRetention)
      (takesWrites w) [] (w, m.hot, []) :=
    { takes := rfl
      migrated := by
        intro q hq
        cases hq
      accepted := rfl }
  have hall := migratePartitions hinOrder hnodup hstart
  have hmem : (key, p) ∈ env.order.order m.hot.partitions :=
    hperm.mem_iff.mpr (mem_of_getEntry hget)
  rcases hall.migrated (key, p) hmem with ⟨q, hq, hmigrated⟩
  unfold Migrator.migrateHotToWarm
  simp only [hwarm, if_neg hpolicy]
  refine ⟨q, hq, hmigrated, ?_⟩
  intro offset
  rw [hall.accepted]
  constructor
  · intro haccepted
    rcases List.mem_flatMap.mp haccepted with ⟨r, hr, hoffset⟩
    rcases List.mem_map.mp hoffset with ⟨o, ho, heq⟩
    cases heq
    have hsame := getEntry_of_mem horder.nodup (hperm.mem_iff.mp hr)
    rw [hget] at hsame
    cases hsame
    exact ho
  · intro hoffset
    exact List.mem_flatMap.mpr
      ⟨(key, p), hmem, List.mem_map.mpr ⟨offset, hoffset, rfl⟩⟩

/-!
## When nothing is lost
-/

/--
Every segment of the partition that the migration removes was copied whole, and
the records of the others are read as before.
-/
def RemovesCopied (m : Migrator) (env : Circumstances) (key : PartitionKey)
    (p : Partition) : Prop :=
  exists q, getEntry key (m.migrateHotToWarm env).1.hot.partitions = some q ∧
    forall s, s ∈ p.older ->
      (s ∉ q.older -> forall offset, offset ∈ segmentOffsets s ->
        (key, offset) ∈ (m.migrateHotToWarm env).2) ∧
      (s ∈ q.older -> forall offset, offset ∈ segmentOffsets s ->
        q.read offset = p.read offset)

def Migrator.expires (m : Migrator) (env : Circumstances) (key : PartitionKey)
    (s : Segment) : Prop :=
  m.policy.hotRetention ≠ 0 ∧
    (env.created key s : Int) ≤ env.now - m.policy.hotRetention

instance (m : Migrator) (env : Circumstances) (key : PartitionKey)
    (s : Segment) : Decidable (m.expires env key s) :=
  inferInstanceAs (Decidable (_ ∧ _))

/-- The record at an offset can be read, and the warm tier accepts it. -/
def Migrator.accepts (m : Migrator) (env : Circumstances) (key : PartitionKey)
    (p : Partition) (offset : Nat) : Bool :=
  match m.warm with
  | none => false
  | some w => copies env key p (takesWrites w) offset

/-- Of a segment that is old enough, all records are accepted or none is. -/
def AllOrNone (m : Migrator) (env : Circumstances) (key : PartitionKey)
    (p : Partition) : Prop :=
  forall s, s ∈ p.older -> m.expires env key s ->
    (forall offset, offset ∈ segmentOffsets s ->
      m.accepts env key p offset = true) ∨
    forall offset, offset ∈ segmentOffsets s ->
      m.accepts env key p offset = false

instance (m : Migrator) (env : Circumstances) (key : PartitionKey)
    (p : Partition) : Decidable (AllOrNone m env key p) := by
  unfold AllOrNone
  infer_instance

theorem migrateHotToWarm_idle {m : Migrator}
    (h : m.warm = none ∨ m.policy.hotRetention = 0) :
    m.migrateHotToWarm env = (m, []) := by
  unfold Migrator.migrateHotToWarm
  cases hwarm : m.warm with
  | none => rfl
  | some w =>
  rcases h with hnone | hzero
  · rw [hwarm] at hnone
    cases hnone
  · simp only [if_pos hzero]

theorem mem_copiedOffsets {offset : Nat} :
    offset ∈ copiedOffsets env cutoff key p writable s <->
      (env.created key s : Int) ≤ cutoff ∧ offset ∈ segmentOffsets s ∧
        copies env key p writable offset = true := by
  unfold copiedOffsets
  by_cases hold : (env.created key s : Int) > cutoff
  · rw [if_pos hold]
    constructor
    · intro h
      cases h
    · intro h
      exact absurd h.left (by omega)
  rw [if_neg hold, List.mem_filter]
  constructor
  · intro h
    exact ⟨by omega, h⟩
  · intro h
    exact h.right

theorem stays_eq_false_iff :
    stays env cutoff key p writable s = false <->
      exists offset, offset ∈ copiedOffsets env cutoff key p writable s := by
  rw [stays, List.isEmpty_eq_false_iff]
  constructor
  · exact List.exists_mem_of_ne_nil _
  · rintro ⟨offset, hoffset⟩
    exact List.ne_nil_of_mem hoffset

theorem MigratedTo.mem_older (h : MigratedTo env cutoff key writable p q)
    (hs : s ∈ p.older) :
    s ∉ q.older <->
      exists offset, offset ∈ copiedOffsets env cutoff key p writable s := by
  rw [← stays_eq_false_iff, h.older, List.mem_filter, Bool.eq_false_iff]
  constructor
  · intro hnot hstays
    exact hnot ⟨hs, hstays⟩
  · intro hstays hboth
    exact hstays hboth.right

/--
A migration removes nothing but what it has copied exactly if the records of
every old segment are accepted together.
-/
theorem removesCopied_iff_allOrNone {m : Migrator} (env : Circumstances)
    (horder : EngineInOrder m.hot) {key : PartitionKey} {p : Partition}
    (hget : getEntry key m.hot.partitions = some p) :
    RemovesCopied m env key p <-> AllOrNone m env key p := by
  by_cases hidle : m.warm = none ∨ m.policy.hotRetention = 0
  · constructor
    · intro _ s _ hexpires
      rcases hidle with hnone | hzero
      · right
        intro offset _
        unfold Migrator.accepts
        rw [hnone]
      · exact absurd hzero hexpires.left
    intro _
    refine ⟨p, ?_, ?_⟩
    · rw [migrateHotToWarm_idle hidle]
      exact hget
    · intro s hs
      exact ⟨fun hnot => absurd hs hnot, fun _ _ _ => rfl⟩
  rcases not_or.mp hidle with ⟨hsome, hpolicy⟩
  rcases Option.ne_none_iff_exists'.mp hsome with ⟨w, hw⟩
  rcases @migrateHotToWarm_eq m env w horder hw hpolicy key p hget with
    ⟨q, hq, hto, haccepted⟩
  have haccepts : forall offset, m.accepts env key p offset =
      copies env key p (takesWrites w) offset := by
    intro offset
    unfold Migrator.accepts
    rw [hw]
  constructor
  · rintro ⟨q', hq', hsafe⟩ s hs hexpires
    rw [hq] at hq'
    cases hq'
    by_cases hgone : s ∈ q.older
    · right
      intro offset hoffset
      apply Bool.eq_false_iff.mpr
      intro hcopies
      rw [haccepts] at hcopies
      exact (hto.mem_older hs).mpr
        ⟨offset, mem_copiedOffsets.mpr ⟨hexpires.right, hoffset, hcopies⟩⟩
        hgone
    left
    intro offset hoffset
    have hmem := (haccepted offset).mp
      ((hsafe s hs).left hgone offset hoffset)
    rcases List.mem_flatMap.mp hmem with ⟨t, _, ht⟩
    rw [haccepts]
    exact (mem_copiedOffsets.mp ht).right.right
  intro hall
  refine ⟨q, hq, ?_⟩
  intro s hs
  constructor
  · intro hgone offset hoffset
    rcases (hto.mem_older hs).mp hgone with ⟨o, ho⟩
    rcases mem_copiedOffsets.mp ho with ⟨hcutoff, hos, hcopies⟩
    rw [haccepted]
    rcases hall s hs ⟨hpolicy, hcutoff⟩ with hevery | hnone
    · have hcopied := hevery offset hoffset
      rw [haccepts] at hcopied
      exact List.mem_flatMap.mpr ⟨s, hs, mem_copiedOffsets.mpr
        ⟨hcutoff, hoffset, hcopied⟩⟩
    · have hnot := hnone o hos
      rw [haccepts, hcopies] at hnot
      cases hnot
  · intro hleft offset hoffset
    exact hto.thinned.read (horder.inOrder key p hget)
      (List.mem_append_left _ hleft) hoffset

def threeRecords : HotEngine :=
  [[1], [2], [3]].foldl (fun e data => (e.append ([], 0) data 0).1)
    (.newEngine 42 [])

def warmConfig : LSMConfig where
  memTableCapacity := 1000
  sizing := { numBits := fun _ => 64, numHash := fun _ _ => 2 }
  maxLevel := 2
  maxSSTables := 0

def overThreeRecords : Migrator where
  policy := { hotRetention := 1, warmRetention := 0 }
  hot := threeRecords
  warm := some (newLSMTree .empty warmConfig 0)
  cold := none

def failingReads (failing : Option Nat) : Circumstances where
  now := 10
  order := .listed _
  created := fun _ _ => 0
  readFails := fun _ offset => failing = some offset
  putFails := fun _ _ => false

theorem removesCopied_threeRecords :
    exists p, getEntry ([], 0) overThreeRecords.hot.partitions = some p ∧
      RemovesCopied overThreeRecords (failingReads none) ([], 0) p ∧
      (overThreeRecords.migrateHotToWarm (failingReads none)).2 =
        [(([], 0), 0), (([], 0), 1)] := by
  have hcheck : (getEntry ([], 0) overThreeRecords.hot.partitions).map
      (fun p => decide (AllOrNone overThreeRecords (failingReads none)
        ([], 0) p)) = some true := by
    decide +kernel
  have horder : EngineInOrder overThreeRecords.hot :=
    engineInOrder_of_forall (by decide +kernel) (by decide +kernel)
  rcases Option.map_eq_some_iff.mp hcheck with ⟨p, hget, hall⟩
  exact ⟨p, hget,
    (removesCopied_iff_allOrNone (failingReads none) horder hget).mpr
      (of_decide_eq_true hall),
    by decide +kernel⟩

/--
The first record of a segment cannot be read; the segment goes as soon as the
second has been copied, and no tier has the first.
-/
theorem not_removesCopied_failingRead :
    exists p, EngineInOrder overThreeRecords.hot ∧
      getEntry ([], 0) overThreeRecords.hot.partitions = some p ∧
      p.read 0 = .ok [1] ∧
      ((overThreeRecords.migrateHotToWarm (failingReads (some 0))).1.read
        ([], 0) 0 0 (.listed _)).2 = .error (.notFound 0) ∧
      ¬ RemovesCopied overThreeRecords (failingReads (some 0)) ([], 0) p := by
  have hcheck : (getEntry ([], 0) overThreeRecords.hot.partitions).bind
      (fun p => (getEntry ([], 0) (overThreeRecords.migrateHotToWarm
        (failingReads (some 0))).1.hot.partitions).map (fun q =>
          decide (p.read 0 = .ok [1] ∧
            exists s, s ∈ p.older ∧ s ∉ q.older ∧ 0 ∈ segmentOffsets s))) =
      some true := by
    decide +kernel
  have horder : EngineInOrder overThreeRecords.hot :=
    engineInOrder_of_forall (by decide +kernel) (by decide +kernel)
  rcases Option.bind_eq_some_iff.mp hcheck with ⟨p, hget, hmap⟩
  rcases Option.map_eq_some_iff.mp hmap with ⟨q, hq, hdecide⟩
  rcases of_decide_eq_true hdecide with ⟨hread, s, hs, hgone, hoffset⟩
  refine ⟨p, horder, hget, hread, by decide +kernel, ?_⟩
  rintro ⟨q', hq', hsafe⟩
  rw [hq] at hq'
  cases hq'
  have haccepted := (hsafe s hs).left hgone 0 hoffset
  exact absurd haccepted (by decide +kernel)

end Tier
end ChimeraMQ
