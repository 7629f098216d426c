import ChimeraMQ.Stream.GroupOffsets

/-!
# Committing offsets to a disk that may fail

An offset is put into the map of the group, then into the cache of the store,
and then the file of the group is replaced.  Each group has a directory, which
is made before its file is written.
-/

namespace ChimeraMQ
namespace Stream

open Foundation

/-!
## The store
-/

inductive OffsetsText where
  | json (offsets : Offsets)
  | unreadable
deriving DecidableEq

/-- What goes wrong when the offsets of a group are written. -/
inductive PersistFault where
  | directory
  | file (fault : ReplaceFault OffsetsText)
deriving DecidableEq

/-- Why an offset is not saved. -/
inductive SaveError where
  | name (err : GroupNameError)
  | disk (fault : PersistFault)
deriving DecidableEq

structure DiskStore where
  dirs : List (Bytes × FilePair OffsetsText)
  cache : List (Bytes × Offsets)
deriving DecidableEq

namespace DiskStore

def readOffsets (dir : FilePair OffsetsText) : Option Offsets :=
  match dir.current with
  | some (.json offsets) => some offsets
  | some .unreadable => none
  | none => none

def loadGroup (e : Bytes × FilePair OffsetsText) : Option (Bytes × Offsets) :=
  match validateGroupName e.1 with
  | some _ => none
  | none => (readOffsets e.2).map (fun offsets => (e.1, offsets))

def loadAll (dirs : List (Bytes × FilePair OffsetsText)) :
    List (Bytes × Offsets) :=
  dirs.filterMap loadGroup

def newOffsetStore (dirs : List (Bytes × FilePair OffsetsText)) : DiskStore where
  dirs := dirs
  cache := loadAll dirs

def reopened (s : DiskStore) : DiskStore :=
  newOffsetStore s.dirs

def view (s : DiskStore) : OffsetStore where
  files := loadAll s.dirs
  cache := s.cache

def offsetsOf (s : DiskStore) (group : Bytes) : Offsets :=
  s.view.offsetsOf group

def get (s : DiskStore) (group : Bytes) (partitionID : Nat) : Nat :=
  s.view.get group partitionID

def remember (s : DiskStore) (group : Bytes) (partitionID offset : Nat) :
    DiskStore :=
  { s with cache := (s.view.remember group partitionID offset).cache }

def dirOf (s : DiskStore) (group : Bytes) : FilePair OffsetsText :=
  (getEntry group s.dirs).getD .empty

def writeOffsets (s : DiskStore) (group : Bytes)
    (fault : Option (ReplaceFault OffsetsText)) :
    DiskStore × Option PersistFault :=
  let r := (s.dirOf group).replace (.json (s.offsetsOf group)) fault
  ({ s with dirs := setEntry group r.1 s.dirs }, r.2.map .file)

def persist (s : DiskStore) (group : Bytes) :
    Option PersistFault -> DiskStore × Option PersistFault
  | some .directory => (s, some .directory)
  | some (.file fault) => s.writeOffsets group (some fault)
  | none => s.writeOffsets group none

def save (s : DiskStore) (group : Bytes) (partitionID offset : Nat)
    (fault : Option PersistFault) : DiskStore × Option SaveError :=
  match validateGroupName group with
  | some err => (s, some (.name err))
  | none =>
    let r := (s.remember group partitionID offset).persist group fault
    (r.1, r.2.map .disk)

/-!
## What a new store loads
-/

variable {dirs : List (Bytes × FilePair OffsetsText)} {group : Bytes}
  {dir : FilePair OffsetsText}

theorem loadAll_cons (e : Bytes × FilePair OffsetsText)
    (dirs : List (Bytes × FilePair OffsetsText)) :
    loadAll (e :: dirs) = (loadGroup e).toList ++ loadAll dirs := by
  unfold loadAll
  rw [List.filterMap_cons]
  cases loadGroup e with
  | none => rfl
  | some loaded => rfl

theorem loadGroup_of_current {d d' : FilePair OffsetsText}
    (hcurrent : d.current = d'.current) (group : Bytes) :
    loadGroup (group, d) = loadGroup (group, d') := by
  unfold loadGroup readOffsets
  rw [hcurrent]

theorem loadGroup_of_valid (hvalid : validateGroupName group = none)
    {offsets : Offsets} (hread : dir.current = some (.json offsets)) :
    loadGroup (group, dir) = some (group, offsets) := by
  unfold loadGroup readOffsets
  rw [hvalid, hread]
  rfl

theorem loadGroup_empty (group : Bytes) :
    loadGroup (group, .empty) = none := by
  unfold loadGroup
  cases validateGroupName group with
  | some err => rfl
  | none => rfl

theorem getEntry_loadGroup_ne {other : Bytes} (hne : other ≠ group) :
    getEntry other (loadGroup (group, dir)).toList = none := by
  unfold loadGroup
  cases validateGroupName group with
  | some err => rfl
  | none =>
  cases readOffsets dir with
  | none => rfl
  | some offsets =>
  have hkey : (group, offsets).1 ≠ other := Ne.symm hne
  exact getEntry_cons_ne hkey []

theorem loadAll_setEntry_same
    (hsame : dir.current = ((getEntry group dirs).getD .empty).current) :
    loadAll (setEntry group dir dirs) = loadAll dirs := by
  induction dirs with
  | nil =>
    unfold setEntry
    rw [loadAll_cons, loadGroup_of_current hsame]
    exact congrArg (fun o => Option.toList o ++ loadAll [])
      (loadGroup_empty group)
  | cons e rest ih =>
  unfold setEntry
  by_cases he : e.1 = group
  · subst he
    rw [getEntry_cons_self] at hsame
    rw [if_pos rfl, loadAll_cons, loadAll_cons, loadGroup_of_current hsame]
    rfl
  · rw [getEntry_cons_ne he] at hsame
    rw [if_neg he, loadAll_cons, loadAll_cons, ih hsame]

theorem getEntry_loadAll_setEntry (hvalid : validateGroupName group = none)
    {offsets : Offsets} (hread : dir.current = some (.json offsets)) :
    getEntry group (loadAll (setEntry group dir dirs)) = some offsets := by
  have hloaded := loadGroup_of_valid hvalid hread
  induction dirs with
  | nil =>
    unfold setEntry
    rw [loadAll_cons, hloaded]
    exact getEntry_cons_self group offsets _
  | cons e rest ih =>
  unfold setEntry
  by_cases he : e.1 = group
  · rw [if_pos he, loadAll_cons, hloaded]
    exact getEntry_cons_self group offsets _
  have hskip : getEntry group (loadGroup e).toList = none :=
    getEntry_loadGroup_ne (Ne.symm he)
  rw [if_neg he, loadAll_cons, getEntry_append, hskip, ih]
  rfl

/-!
## Saving
-/

theorem offsetsOf_reopened (s : DiskStore) (group : Bytes) :
    s.reopened.offsetsOf group = (getEntry group (loadAll s.dirs)).getD [] :=
  rfl

theorem persist_snd (s : DiskStore) (group : Bytes)
    (fault : Option PersistFault) : (s.persist group fault).2 = fault := by
  cases fault with
  | none => rfl
  | some fault =>
  cases fault with
  | directory => rfl
  | file fault =>
  show ((s.dirOf group).replace _ (some fault)).2.map _ = _
  rw [FilePair.replace_snd]
  rfl

theorem reopened_persist_some (s : DiskStore) (group : Bytes)
    (fault : PersistFault) (other : Bytes) :
    (s.persist group (some fault)).1.reopened.offsetsOf other =
      s.reopened.offsetsOf other := by
  cases fault with
  | directory => rfl
  | file fault =>
  rw [offsetsOf_reopened, offsetsOf_reopened]
  have hsame : loadAll (s.persist group (some (.file fault))).1.dirs =
      loadAll s.dirs :=
    loadAll_setEntry_same (FilePair.current_replace_some _ _ fault)
  rw [hsame]

theorem reopened_persist_none (s : DiskStore)
    (hvalid : validateGroupName group = none) :
    (s.persist group none).1.reopened.offsetsOf group = s.offsetsOf group := by
  have hload : getEntry group (loadAll (s.persist group none).1.dirs) =
      some (s.offsetsOf group) :=
    getEntry_loadAll_setEntry hvalid (FilePair.current_replace_none _ _)
  rw [offsetsOf_reopened, hload]
  rfl

theorem get_eq (s : DiskStore) (group : Bytes) (partitionID : Nat) :
    s.get group partitionID =
      (getEntry partitionID (s.offsetsOf group)).getD 0 := rfl

theorem save_of_valid (s : DiskStore) (hvalid : validateGroupName group = none)
    (partitionID offset : Nat) (fault : Option PersistFault) :
    s.save group partitionID offset fault =
      (((s.remember group partitionID offset).persist group fault).1,
        fault.map .disk) := by
  unfold save
  rw [hvalid]
  simp only [persist_snd]

theorem save_of_invalid (s : DiskStore) {err : GroupNameError}
    (hvalid : validateGroupName group = some err) (partitionID offset : Nat)
    (fault : Option PersistFault) :
    s.save group partitionID offset fault = (s, some (.name err)) := by
  unfold save
  rw [hvalid]

theorem save_eq_none_iff {s : DiskStore} {partitionID offset : Nat}
    {fault : Option PersistFault} :
    (s.save group partitionID offset fault).2 = none <->
      validateGroupName group = none ∧ fault = none := by
  cases hvalid : validateGroupName group with
  | some err =>
    rw [save_of_invalid s hvalid]
    constructor
    · intro h
      cases h
    · intro h
      cases h.left
  | none =>
  rw [save_of_valid s hvalid, Option.map_eq_none_iff]
  exact (and_iff_right rfl).symm

theorem save_ok {s : DiskStore} {partitionID offset : Nat}
    {fault : Option PersistFault}
    (h : (s.save group partitionID offset fault).2 = none) :
    (s.save group partitionID offset fault).1.get group partitionID = offset ∧
      (s.save group partitionID offset fault).1.reopened.get group
        partitionID = offset := by
  rcases save_eq_none_iff.mp h with ⟨hvalid, hfault⟩
  have hget := OffsetStore.get_remember s.view group partitionID offset
  rw [save_of_valid s hvalid, hfault]
  constructor
  · exact hget
  · rw [get_eq, reopened_persist_none _ hvalid]
    exact hget

theorem save_failed {s : DiskStore} {partitionID offset : Nat}
    {fault : Option PersistFault}
    (h : (s.save group partitionID offset fault).2 ≠ none) (other : Bytes)
    (otherID : Nat) :
    (s.save group partitionID offset fault).1.reopened.get other otherID =
      s.reopened.get other otherID := by
  cases hvalid : validateGroupName group with
  | some err => rw [save_of_invalid s hvalid]
  | none =>
  cases fault with
  | none => exact absurd (save_eq_none_iff.mpr ⟨hvalid, rfl⟩) h
  | some fault =>
  rw [save_of_valid s hvalid, get_eq, reopened_persist_some]
  rfl

end DiskStore

/-!
## The engine
-/

/--
The groups and the store of the offsets.  A group is found by the name that it
was made with, under which its offsets are saved.
-/
structure CommitEngine where
  groups : List (Bytes × ConsumerGroup)
  offsets : DiskStore
  closed : Bool
  named : forall e, e ∈ groups -> e.2.name = e.1

namespace CommitEngine

def newEngine (dirs : List (Bytes × FilePair OffsetsText)) : CommitEngine where
  groups := []
  offsets := DiskStore.newOffsetStore dirs
  closed := false
  named := by
    intro e he
    cases he

def getGroup (se : CommitEngine) (name : Bytes) : Option ConsumerGroup :=
  getEntry name se.groups

variable {se : CommitEngine}

theorem named_of_getGroup {name : Bytes} {cg : ConsumerGroup}
    (hcg : se.getGroup name = some cg) : cg.name = name :=
  se.named (name, cg) (mem_of_getEntry hcg)

def putGroup (se : CommitEngine) (name : Bytes) (cg : ConsumerGroup)
    (hname : cg.name = name) : CommitEngine :=
  { se with
    groups := setEntry name cg se.groups
    named := by
      intro e he
      rcases mem_setEntry he with hnew | hold
      · rw [hnew]
        exact hname
      · exact se.named e hold }

def groupFor (se : CommitEngine) (groupName topic : Bytes)
    (partitionCount : Nat) (strategy : RebalanceStrategy) : ConsumerGroup :=
  (se.getGroup groupName).getD
    (ConsumerGroup.newConsumerGroup groupName topic partitionCount strategy
      se.offsets.view)

theorem name_groupFor (se : CommitEngine) (groupName topic : Bytes)
    (partitionCount : Nat) (strategy : RebalanceStrategy) :
    (se.groupFor groupName topic partitionCount strategy).name =
      groupName := by
  unfold groupFor
  cases hcg : se.getGroup groupName with
  | none => rfl
  | some cg => exact named_of_getGroup hcg

def joinGroup (se : CommitEngine) (groupName topic memberID : Bytes)
    (partitionCount : Nat) (strategy : RebalanceStrategy) (now : Int) :
    CommitEngine :=
  let cg := se.groupFor groupName topic partitionCount strategy
  if se.closed then se
  else
    se.putGroup groupName (cg.join memberID now).rebalance
      ((cg.sameOffsets_join_rebalance memberID now).name.trans
        (se.name_groupFor groupName topic partitionCount strategy))

def commitOffset (se : CommitEngine) (groupName : Bytes)
    (partitionID offset : Nat) (fault : Option PersistFault) :
    CommitEngine × Option SaveError :=
  match hcg : se.getGroup groupName with
  | none => (se, none)
  | some cg =>
  let r := se.offsets.save cg.name partitionID offset fault
  ({ se.putGroup groupName
      { cg with committed := setEntry partitionID offset cg.committed }
      (show cg.name = groupName from named_of_getGroup hcg) with
    offsets := r.1 }, r.2)

def getCommittedOffset (se : CommitEngine) (groupName : Bytes)
    (partitionID : Nat) : Option Nat :=
  (se.getGroup groupName).map (fun cg => cg.getCommittedOffset partitionID)

theorem commitOffset_of_none {groupName : Bytes}
    (hcg : se.getGroup groupName = none) (partitionID offset : Nat)
    (fault : Option PersistFault) :
    se.commitOffset groupName partitionID offset fault = (se, none) := by
  unfold commitOffset
  split
  · rfl
  · rename_i cg hsome
    rw [hcg] at hsome
    cases hsome

theorem commitOffset_of_some {groupName : Bytes} {cg : ConsumerGroup}
    (hcg : se.getGroup groupName = some cg) (partitionID offset : Nat)
    (fault : Option PersistFault) :
    (se.commitOffset groupName partitionID offset fault).1.groups =
        setEntry groupName
          { cg with committed := setEntry partitionID offset cg.committed }
          se.groups ∧
      ((se.commitOffset groupName partitionID offset fault).1.offsets,
          (se.commitOffset groupName partitionID offset fault).2) =
        se.offsets.save groupName partitionID offset fault := by
  have hname := named_of_getGroup hcg
  unfold commitOffset
  split
  · rename_i hnone
    rw [hcg] at hnone
    cases hnone
  rename_i cg' hsome
  rw [hcg, Option.some.injEq] at hsome
  subst hsome
  refine ⟨rfl, ?_⟩
  show se.offsets.save cg.name partitionID offset fault = _
  rw [hname]

theorem getCommittedOffset_commitOffset {groupName : Bytes}
    (hcg : se.getGroup groupName ≠ none) (partitionID offset : Nat)
    (fault : Option PersistFault) :
    (se.commitOffset groupName partitionID offset fault).1.getCommittedOffset
      groupName partitionID = some offset := by
  rcases Option.ne_none_iff_exists'.mp hcg with ⟨cg, hsome⟩
  have hgroups := (commitOffset_of_some hsome partitionID offset fault).left
  unfold CommitEngine.getCommittedOffset getGroup
  rw [hgroups, getEntry_setEntry, Option.map_some,
    ConsumerGroup.getCommittedOffset, getEntry_setEntry]
  rfl

/-- The groups and the cache are those of an engine whose store cannot fail. -/
structure Matches (e : Engine) (se : CommitEngine) : Prop where
  groups : e.groups = se.groups
  cache : e.offsets.cache = se.offsets.cache

/-- Without a fault a commit is that of the engine whose store cannot fail. -/
theorem Matches.commitOffset {e : Engine} (h : Matches e se) (groupName : Bytes)
    (partitionID offset : Nat) :
    Matches (e.commitOffset groupName partitionID offset).1
        (se.commitOffset groupName partitionID offset none).1 ∧
      (se.commitOffset groupName partitionID offset none).2 =
        (e.commitOffset groupName partitionID offset).2.map .name := by
  have hgroup : e.getGroup groupName = se.getGroup groupName :=
    congrArg (getEntry groupName) h.groups
  cases hcg : se.getGroup groupName with
  | none =>
    rw [commitOffset_of_none hcg, Engine.commitOffset, hgroup, hcg]
    exact ⟨h, rfl⟩
  | some cg =>
  rcases commitOffset_of_some hcg partitionID offset none with ⟨hgroups, hsave⟩
  rcases Prod.ext_iff.mp hsave with ⟨hoffsets, herror⟩
  simp only at hoffsets herror
  rw [Engine.commitOffset, hgroup, hcg]
  simp only [ConsumerGroup.commitOffset, named_of_getGroup hcg] at hgroups ⊢
  rw [herror]
  cases hvalid : validateGroupName groupName with
  | some err =>
    rw [DiskStore.save_of_invalid _ hvalid] at hoffsets ⊢
    simp only [OffsetStore.save, hvalid]
    refine ⟨⟨?_, ?_⟩, rfl⟩
    · rw [hgroups, h.groups]
    · rw [hoffsets]
      exact h.cache
  | none =>
  rw [DiskStore.save_of_valid _ hvalid] at hoffsets ⊢
  rw [OffsetStore.save_eq_of_valid _ hvalid]
  refine ⟨⟨?_, ?_⟩, rfl⟩
  · rw [hgroups, h.groups]
  rw [hoffsets]
  show setEntry groupName (setEntry partitionID offset
    ((getEntry groupName e.offsets.cache).getD [])) e.offsets.cache = _
  rw [h.cache]
  rfl

/--
A commit without an error can be read from the group, the store and a new store;
one for an unknown group changes nothing and reports no error.
-/
theorem commitOffset_durable (se : CommitEngine) (groupName : Bytes)
    (partitionID offset : Nat) (fault : Option PersistFault) :
    (se.getGroup groupName ≠ none ->
      (se.commitOffset groupName partitionID offset fault).2 = none ->
        (se.commitOffset groupName partitionID offset
            fault).1.getCommittedOffset groupName partitionID = some offset ∧
          (se.commitOffset groupName partitionID offset fault).1.offsets.get
            groupName partitionID = offset ∧
          (se.commitOffset groupName partitionID offset
            fault).1.offsets.reopened.get groupName partitionID = offset) ∧
      (se.getGroup groupName = none ->
        se.commitOffset groupName partitionID offset fault = (se, none)) ∧
      ((se.commitOffset groupName partitionID offset fault).2 ≠ none ->
        (forall other otherID,
          (se.commitOffset groupName partitionID offset
              fault).1.offsets.reopened.get other otherID =
            se.offsets.reopened.get other otherID) ∧
          (validateGroupName groupName ≠ none ->
            (se.commitOffset groupName partitionID offset fault).1.offsets =
              se.offsets)) := by
  cases hcg : se.getGroup groupName with
  | none =>
    rw [commitOffset_of_none hcg]
    exact ⟨fun hno => absurd rfl hno, fun _ => rfl, fun hno => absurd rfl hno⟩
  | some cg =>
  have hknown : se.getGroup groupName ≠ none := by
    rw [hcg]
    exact Option.some_ne_none cg
  have hsave := (commitOffset_of_some hcg partitionID offset fault).right
  have hoffsets := congrArg Prod.fst hsave
  have herror := congrArg Prod.snd hsave
  simp only at hoffsets herror
  rw [hoffsets, herror]
  refine ⟨?_, ?_, ?_⟩
  · intro _ hnone
    exact ⟨getCommittedOffset_commitOffset hknown partitionID offset fault,
      DiskStore.save_ok hnone⟩
  · intro hno
    cases hno
  intro hfailed
  refine ⟨DiskStore.save_failed hfailed, ?_⟩
  intro hinvalid
  rcases Option.ne_none_iff_exists'.mp hinvalid with ⟨err, herr⟩
  rw [DiskStore.save_of_invalid _ herr]

def joinedEngine : CommitEngine :=
  (newEngine []).joinGroup (ascii "g") (ascii "t") (ascii "m") 4 .range 0

theorem committed_joined :
    (joinedEngine.commitOffset (ascii "g") 0 42 none).1.getCommittedOffset
        (ascii "g") 0 = some 42 ∧
      (joinedEngine.commitOffset (ascii "g") 0 42 none).1.offsets.get
        (ascii "g") 0 = 42 ∧
      (joinedEngine.commitOffset (ascii "g") 0 42 none).1.offsets.reopened.get
        (ascii "g") 0 = 42 :=
  (commitOffset_durable joinedEngine (ascii "g") 0 42 none).left
    (by decide +kernel) (by decide +kernel)

/-- An offset for a group that nobody has joined is not committed. -/
theorem not_committed_unknown :
    ((newEngine []).commitOffset (ascii "g") 0 42 none).2 = none ∧
      ((newEngine []).commitOffset (ascii "g") 0 42 none).1.getCommittedOffset
          (ascii "g") 0 ≠ some 42 ∧
        ((newEngine []).commitOffset (ascii "g") 0 42
          none).1.offsets.reopened.get (ascii "g") 0 ≠ 42 := by
  rw [commitOffset_of_none rfl]
  decide +kernel

end CommitEngine

end Stream
end ChimeraMQ
