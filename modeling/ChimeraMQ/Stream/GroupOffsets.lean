import ChimeraMQ.Foundation.Run
import ChimeraMQ.Stream.Engine

/-!
# Committed offsets and topics

The offsets of a group are kept by partition alone.  They are those of a topic
as long as the group is used for one topic only.
-/

namespace ChimeraMQ
namespace Stream

open Foundation
open Storage

/-!
## What rebalancing leaves alone
-/

namespace ConsumerGroup

structure SameOffsets (g g' : ConsumerGroup) : Prop where
  name : g'.name = g.name
  committed : g'.committed = g.committed

theorem SameOffsets.refl (g : ConsumerGroup) : SameOffsets g g where
  name := rfl
  committed := rfl

theorem SameOffsets.trans {g g1 g2 : ConsumerGroup} (h : SameOffsets g g1)
    (h' : SameOffsets g1 g2) : SameOffsets g g2 where
  name := h'.name.trans h.name
  committed := h'.committed.trans h.committed

theorem sameOffsets_foldl {ε : Type} {f : ConsumerGroup -> ε -> ConsumerGroup}
    (hone : forall g e, SameOffsets g (f g e)) (items : List ε)
    (g : ConsumerGroup) : SameOffsets g (items.foldl f g) := by
  apply List.foldlRecOn items f (SameOffsets.refl g)
  intro g' h e _
  exact h.trans (hone g' e)

theorem sameOffsets_assign (g : ConsumerGroup) (partID : Nat)
    (memberID : Bytes) : SameOffsets g (g.assign partID memberID) :=
  ⟨rfl, rfl⟩

theorem sameOffsets_assignRun (partitions : List Nat) (memberID : Bytes)
    (count : Nat) (s : ConsumerGroup × Nat) :
    SameOffsets s.1 (assignRun partitions memberID count s).1 := by
  induction count generalizing s with
  | zero => exact SameOffsets.refl s.1
  | succ count ih =>
  unfold assignRun
  cases partitions[s.2]? with
  | none => exact SameOffsets.refl s.1
  | some partID =>
  exact (s.1.sameOffsets_assign partID memberID).trans
    (ih (s.1.assign partID memberID, s.2 + 1))

theorem sameOffsets_rebalanceRange (g : ConsumerGroup) (partitions : List Nat)
    (members : List Bytes) :
    SameOffsets g (g.rebalanceRange partitions members) := by
  apply List.foldlRecOn (motive := fun s : ConsumerGroup × Nat =>
    SameOffsets g s.1) members.zipIdx _ (SameOffsets.refl g)
  intro s h e _
  exact h.trans (sameOffsets_assignRun partitions e.1 _ s)

theorem sameOffsets_keepAssigned (g : ConsumerGroup) (partitions : List Nat)
    (members : List Bytes) (prev : List (Nat × Bytes)) :
    SameOffsets g (g.keepAssigned partitions members prev) := by
  apply sameOffsets_foldl
  intro g' partID
  cases getEntry partID prev with
  | none => exact SameOffsets.refl g'
  | some prevMember =>
  simp only
  split
  · exact g'.sameOffsets_assign partID prevMember
  · exact SameOffsets.refl g'

theorem sameOffsets_steal (g : ConsumerGroup)
    (overMember underMember : Bytes) :
    SameOffsets g (g.steal overMember underMember) := by
  unfold steal
  cases (g.partitionsOf overMember).getLast? with
  | none => exact SameOffsets.refl g
  | some stolenPart => exact ⟨rfl, rfl⟩

theorem sameOffsets_stealLoop (partitions : List Nat) (members : List Bytes)
    (target bound : Nat) (g : ConsumerGroup) :
    SameOffsets g (stealLoop partitions members target bound g) := by
  induction bound generalizing g with
  | zero => exact SameOffsets.refl g
  | succ bound ih =>
  unfold stealLoop
  simp only
  split
  · exact SameOffsets.refl g
  · exact (g.sameOffsets_steal _ _).trans (ih _)

theorem sameOffsets_reassign (g : ConsumerGroup) :
    SameOffsets g g.reassign := by
  have hclear : SameOffsets g g.clear := ⟨rfl, rfl⟩
  unfold reassign
  split
  · exact hclear
  cases g.strategy with
  | range => exact hclear.trans (sameOffsets_rebalanceRange _ _ _)
  | roundRobin =>
    exact hclear.trans
      (sameOffsets_foldl (fun g' e => g'.sameOffsets_assign _ _) _ _)
  | sticky =>
  exact hclear.trans
    (((sameOffsets_keepAssigned _ _ _ _).trans
      (sameOffsets_foldl (fun g' _ => g'.sameOffsets_assign _ _)
        _ _)).trans (sameOffsets_stealLoop _ _ _ _ _))

theorem sameOffsets_join_rebalance (g : ConsumerGroup) (memberID : Bytes)
    (now : Int) : SameOffsets g (g.join memberID now).rebalance := by
  have hjoin := (g.join memberID now).sameOffsets_reassign
  exact ⟨hjoin.name, hjoin.committed⟩

theorem sameOffsets_leave_rebalance (g : ConsumerGroup) (memberID : Bytes) :
    SameOffsets g (g.leave memberID).rebalance := by
  have hleave := (g.leave memberID).sameOffsets_reassign
  exact ⟨hleave.name, hleave.committed⟩

/-!
## Loading
-/

theorem getEntry_loadCommitted (offsetStore : OffsetStore) (name : Bytes)
    (partitionID : Nat) (ids : List Nat) (committed : Offsets) :
    (getEntry partitionID (ids.foldl (fun committed i =>
      if 0 < offsetStore.get name i then
        setEntry i (offsetStore.get name i) committed
      else committed) committed)).getD 0 =
      if partitionID ∈ ids ∧ 0 < offsetStore.get name partitionID then
        offsetStore.get name partitionID
      else (getEntry partitionID committed).getD 0 := by
  induction ids generalizing committed with
  | nil =>
    rw [if_neg (fun h => List.not_mem_nil h.left)]
    rfl
  | cons i rest ih =>
  rw [List.foldl_cons, ih]
  by_cases hrest : partitionID ∈ rest ∧
      0 < offsetStore.get name partitionID
  · rw [if_pos hrest,
      if_pos ⟨List.mem_cons_of_mem i hrest.left, hrest.right⟩]
  rw [if_neg hrest]
  by_cases hsame : partitionID = i
  · rw [hsame]
    by_cases hpos : 0 < offsetStore.get name i
    · rw [if_pos hpos, if_pos ⟨List.mem_cons_self .., hpos⟩,
        getEntry_setEntry]
      rfl
    · rw [if_neg hpos, if_neg (fun h => hpos h.right)]
  have hout : ¬ (partitionID ∈ i :: rest ∧
      0 < offsetStore.get name partitionID) := by
    rintro ⟨hmem, hpos⟩
    rcases List.mem_cons.mp hmem with heq | hin
    · exact hsame heq
    · exact hrest ⟨hin, hpos⟩
  rw [if_neg hout]
  split
  · rw [getEntry_setEntry_ne hsame]
  · rfl

theorem getCommittedOffset_new (name topic : Bytes) (partitionCount : Nat)
    (strategy : RebalanceStrategy) (offsetStore : OffsetStore)
    (partitionID : Nat) :
    (newConsumerGroup name topic partitionCount strategy
      offsetStore).getCommittedOffset partitionID =
        if partitionID < partitionCount then offsetStore.get name partitionID
        else 0 := by
  show (getEntry partitionID (loadCommittedOffsets offsetStore name
    partitionCount)).getD 0 = _
  unfold loadCommittedOffsets
  rw [getEntry_loadCommitted]
  by_cases hlt : partitionID < partitionCount
  · rw [if_pos hlt]
    by_cases hpos : 0 < offsetStore.get name partitionID
    · rw [if_pos ⟨List.mem_range.mpr hlt, hpos⟩]
    · rw [if_neg (fun h => hpos h.right), Nat.eq_zero_of_not_pos hpos]
      rfl
  · rw [if_neg hlt, if_neg (fun h => hlt (List.mem_range.mp h.left))]
    rfl

end ConsumerGroup

/-!
## Using groups for topics
-/

/--
The engine with what it was used for: the topics of the groups, and the offset
that was committed last for a group, a topic and a partition.
-/
structure Usage where
  engine : Engine
  used : List (Bytes × Bytes)
  last : List ((Bytes × Bytes × Nat) × Nat)

inductive Use where
  | join (group topic memberID : Bytes) (partitionCount : Nat)
      (strategy : RebalanceStrategy) (now : Int)
  | leave (group memberID : Bytes)
  | commit (group topic : Bytes) (partitionID offset : Nat)
  | restart

namespace Usage

def start (storage : HotEngine) (encryptor : Option Decryptor) : Usage where
  engine := Engine.newEngine storage (OffsetStore.newOffsetStore []) encryptor
  used := []
  last := []

def lastCommitted (s : Usage) (group topic : Bytes) (partitionID : Nat) :
    Nat :=
  (getEntry (group, topic, partitionID) s.last).getD 0

def use (s : Usage) (group topic : Bytes) : Usage :=
  { s with used := (group, topic) :: s.used }

def step (s : Usage) : Use -> Option Usage
  | .join group topic memberID partitionCount strategy now =>
    some
      { s.use group topic with
        engine := s.engine.joinGroup group topic memberID partitionCount
          strategy now }
  | .leave group memberID =>
    some { s with engine := s.engine.leaveGroup group memberID }
  | .commit group topic partitionID offset =>
    let r := s.engine.commitOffset group partitionID offset
    some
      { s.use group topic with
        engine := r.1
        last :=
          if r.2 = none then
            setEntry (group, topic, partitionID) offset s.last
          else s.last }
  | .restart => some { s with engine := s.engine.restart }

/-- What is read for a topic is what was committed last for it. -/
def Separate (s : Usage) : Prop :=
  forall group topic, (group, topic) ∈ s.used -> forall cg,
    s.engine.getGroup group = some cg -> forall partitionID,
      cg.getCommittedOffset partitionID =
        s.lastCommitted group topic partitionID

def OwnTopic (s : Usage) (group topic : Bytes) : Prop :=
  forall e, e ∈ s.used -> e.1 = group -> e.2 = topic

instance (s : Usage) (group topic : Bytes) :
    Decidable (s.OwnTopic group topic) :=
  inferInstanceAs (Decidable (forall e, e ∈ s.used -> _))

def Covers (offsets : Offsets) (partitionCount : Nat) : Prop :=
  forall e, e ∈ offsets -> e.2 ≠ 0 -> e.1 < partitionCount

instance (offsets : Offsets) (partitionCount : Nat) :
    Decidable (Covers offsets partitionCount) :=
  inferInstanceAs (Decidable (forall e, e ∈ offsets -> _))

/--
A group is used for one topic and gets back all its partitions, and offsets are
committed to existing groups with valid names.
-/
def Confined (s : Usage) : Use -> Prop
  | .join group topic _ partitionCount _ _ =>
    s.OwnTopic group topic ∧ (s.engine.getGroup group = none ->
      Covers (s.engine.offsets.offsetsOf group) partitionCount)
  | .commit group topic _ _ =>
    s.OwnTopic group topic ∧ validateGroupName group = none ∧
      s.engine.getGroup group ≠ none
  | .leave _ _ | .restart => True

instance (s : Usage) (a : Use) : Decidable (s.Confined a) :=
  match a with
  | .join _ _ _ _ _ _ => inferInstanceAs (Decidable (_ ∧ (_ -> _)))
  | .commit _ _ _ _ => inferInstanceAs (Decidable (_ ∧ _ ∧ _))
  | .leave _ _ | .restart => instDecidableTrue

/-!
## One topic for each group
-/

/--
What confined uses keep: the offsets in the store are those of the only topic
of their group, and the groups have the same offsets as the store.
-/
structure Inv (s : Usage) : Prop where
  oneTopic : forall group topic topic', (group, topic) ∈ s.used ->
    (group, topic') ∈ s.used -> topic = topic'
  stored : forall group topic, (group, topic) ∈ s.used ->
    forall partitionID, s.engine.offsets.get group partitionID =
      s.lastCommitted group topic partitionID
  fresh : forall group, (forall topic, (group, topic) ∉ s.used) ->
    forall partitionID, s.engine.offsets.get group partitionID = 0
  unused : forall group topic, (group, topic) ∉ s.used ->
    forall partitionID, s.lastCommitted group topic partitionID = 0
  groups : forall group cg, s.engine.getGroup group = some cg ->
    cg.name = group ∧ forall partitionID, cg.getCommittedOffset partitionID =
      s.engine.offsets.get group partitionID
  synced : s.engine.offsets.Synced

variable {s : Usage}

theorem Inv.separate (h : s.Inv) : s.Separate := by
  intro group topic hused cg hcg partitionID
  rw [(h.groups group cg hcg).right, h.stored group topic hused]

theorem inv_start (storage : HotEngine) (encryptor : Option Decryptor) :
    (start storage encryptor).Inv where
  oneTopic := by
    intro group topic topic' hused
    cases hused
  stored := by
    intro group topic hused
    cases hused
  fresh := fun _ _ _ => rfl
  unused := fun _ _ _ _ => rfl
  groups := by
    intro group cg hcg
    cases hcg
  synced := OffsetStore.synced_empty

variable {group : Bytes}

theorem Inv.use (h : s.Inv) {topic : Bytes} (hown : s.OwnTopic group topic) :
    (s.use group topic).Inv where
  oneTopic := by
    intro g t t' ht ht'
    rcases List.mem_cons.mp ht with hnew | hold
    · rw [Prod.mk.injEq] at hnew
      rcases List.mem_cons.mp ht' with hnew' | hold'
      · rw [Prod.mk.injEq] at hnew'
        rw [hnew.right, hnew'.right]
      · rw [hnew.right]
        exact (hown (g, t') hold' hnew.left).symm
    rcases List.mem_cons.mp ht' with hnew' | hold'
    · rw [Prod.mk.injEq] at hnew'
      rw [hnew'.right]
      exact hown (g, t) hold hnew'.left
    · exact h.oneTopic g t t' hold hold'
  stored := by
    intro g t ht partitionID
    by_cases hold : (g, t) ∈ s.used
    · exact h.stored g t hold partitionID
    have hnew := (List.mem_cons.mp ht).resolve_right hold
    rw [Prod.mk.injEq] at hnew
    have hnever : forall t', (g, t') ∉ s.used := by
      intro t' ht'
      have heq : t' = topic := hown (g, t') ht' hnew.left
      rw [hnew.right, ← heq] at hold
      exact hold ht'
    exact (h.fresh g hnever partitionID).trans
      (h.unused g t hold partitionID).symm
  fresh := by
    intro g hnever partitionID
    exact h.fresh g (fun t ht => hnever t (List.mem_cons_of_mem _ ht))
      partitionID
  unused := by
    intro g t ht partitionID
    exact h.unused g t (fun hold => ht (List.mem_cons_of_mem _ hold))
      partitionID
  groups := h.groups
  synced := h.synced

theorem Inv.setGroup (h : s.Inv) {cg : ConsumerGroup} (hname : cg.name = group)
    (hoffsets : forall partitionID, cg.getCommittedOffset partitionID =
      s.engine.offsets.get group partitionID) :
    Inv { s with
      engine :=
        { s.engine with groups := setEntry group cg s.engine.groups } } where
  oneTopic := h.oneTopic
  stored := h.stored
  fresh := h.fresh
  unused := h.unused
  groups := by
    intro g cg' hcg'
    unfold Engine.getGroup at hcg'
    by_cases hg : g = group
    · rw [hg] at hcg' ⊢
      rw [getEntry_setEntry, Option.some.injEq] at hcg'
      rw [← hcg']
      exact ⟨hname, hoffsets⟩
    · rw [getEntry_setEntry_ne hg] at hcg'
      exact h.groups g cg' hcg'
  synced := h.synced

theorem Covers.get_eq_zero {offsetStore : OffsetStore} {partitionCount : Nat}
    (h : Covers (offsetStore.offsetsOf group) partitionCount)
    {partitionID : Nat} (hout : ¬ partitionID < partitionCount) :
    offsetStore.get group partitionID = 0 := by
  unfold OffsetStore.get
  cases hget : getEntry partitionID (offsetStore.offsetsOf group) with
  | none => rfl
  | some offset =>
  by_contra hne
  exact hout (h (partitionID, offset) (mem_of_getEntry hget) hne)

theorem Inv.join (h : s.Inv) {topic : Bytes} (memberID : Bytes)
    {partitionCount : Nat} (strategy : RebalanceStrategy) (now : Int)
    (hcovers : s.engine.getGroup group = none ->
      Covers (s.engine.offsets.offsetsOf group) partitionCount) :
    Inv { s with
      engine := s.engine.joinGroup group topic memberID partitionCount strategy
        now } := by
  unfold Engine.joinGroup
  by_cases hclosed : s.engine.closed = true
  · simp only [if_pos hclosed]
    exact h
  simp only [if_neg hclosed]
  have hgroup : ((s.engine.getGroup group).getD
        (ConsumerGroup.newConsumerGroup group topic partitionCount strategy
          s.engine.offsets)).name = group ∧
      forall partitionID, ((s.engine.getGroup group).getD
        (ConsumerGroup.newConsumerGroup group topic partitionCount strategy
          s.engine.offsets)).getCommittedOffset partitionID =
        s.engine.offsets.get group partitionID := by
    cases hcg : s.engine.getGroup group with
    | some cg => exact h.groups group cg hcg
    | none =>
    constructor
    · rfl
    intro partitionID
    rw [Option.getD_none, ConsumerGroup.getCommittedOffset_new]
    split
    · rfl
    · rename_i hout
      exact ((hcovers hcg).get_eq_zero hout).symm
  have hsame := ConsumerGroup.sameOffsets_join_rebalance
    ((s.engine.getGroup group).getD
      (ConsumerGroup.newConsumerGroup group topic partitionCount strategy
        s.engine.offsets)) memberID now
  apply h.setGroup
  · rw [hsame.name]
    exact hgroup.left
  intro partitionID
  unfold ConsumerGroup.getCommittedOffset
  rw [hsame.committed]
  exact hgroup.right partitionID

theorem Inv.leave (h : s.Inv) (group memberID : Bytes) :
    Inv { s with engine := s.engine.leaveGroup group memberID } := by
  unfold Engine.leaveGroup
  cases hcg : s.engine.getGroup group with
  | none => exact h
  | some cg =>
  have hold := h.groups group cg hcg
  have hsame := cg.sameOffsets_leave_rebalance memberID
  apply h.setGroup
  · rw [hsame.name]
    exact hold.left
  intro partitionID
  unfold ConsumerGroup.getCommittedOffset
  rw [hsame.committed]
  exact hold.right partitionID

theorem Inv.restart (h : s.Inv) :
    Inv { s with engine := s.engine.restart } := by
  have hoffsets : s.engine.restart.offsets = s.engine.offsets :=
    h.synced.reopened
  constructor
  · exact h.oneTopic
  · simp only [hoffsets]
    exact h.stored
  · simp only [hoffsets]
    exact h.fresh
  · exact h.unused
  · intro group cg hcg
    cases hcg
  · simp only [hoffsets]
    exact h.synced

theorem Inv.commit (h : s.Inv) {topic : Bytes} (hused : (group, topic) ∈ s.used)
    (hvalid : validateGroupName group = none) {cg : ConsumerGroup}
    (hcg : s.engine.getGroup group = some cg) (partitionID offset : Nat) :
    Inv { s with
      engine :=
        { s.engine with
          groups := setEntry group
            { cg with
              committed := setEntry partitionID offset cg.committed }
            s.engine.groups
          offsets := (s.engine.offsets.save group partitionID offset).1 }
      last := setEntry (group, topic, partitionID) offset s.last } := by
  have hname := (h.groups group cg hcg).left
  have hsame : (s.engine.offsets.save group partitionID offset).1.get group
      partitionID = offset := by
    rw [OffsetStore.save_eq_of_valid _ hvalid]
    exact OffsetStore.get_remember _ group partitionID offset
  have hother : forall g id, (g, id) ≠ (group, partitionID) ->
      (s.engine.offsets.save group partitionID offset).1.get g id =
        s.engine.offsets.get g id := by
    intro g id hne
    rw [OffsetStore.save_eq_of_valid _ hvalid]
    exact OffsetStore.get_remember_ne _ hne offset
  constructor
  · exact h.oneTopic
  · intro g t ht id
    unfold lastCommitted
    by_cases hkey : (g, id) = (group, partitionID)
    · rw [Prod.mk.injEq] at hkey
      rw [hkey.left] at ht
      rw [hkey.left, hkey.right, h.oneTopic group t topic ht hused,
        getEntry_setEntry]
      exact hsame
    have hne : (g, t, id) ≠ (group, topic, partitionID) := by
      intro heq
      rw [Prod.mk.injEq, Prod.mk.injEq] at heq
      exact hkey (by rw [heq.left, heq.right.right])
    rw [getEntry_setEntry_ne hne]
    exact (hother g id hkey).trans (h.stored g t ht id)
  · intro g hnever id
    have hkey : (g, id) ≠ (group, partitionID) := by
      intro heq
      rw [Prod.mk.injEq] at heq
      rw [heq.left] at hnever
      exact hnever topic hused
    exact (hother g id hkey).trans (h.fresh g hnever id)
  · intro g t ht id
    unfold lastCommitted
    have hne : (g, t, id) ≠ (group, topic, partitionID) := by
      intro heq
      rw [Prod.mk.injEq, Prod.mk.injEq] at heq
      rw [heq.left, heq.right.left] at ht
      exact ht hused
    rw [getEntry_setEntry_ne hne]
    exact h.unused g t ht id
  · intro g cg' hcg'
    unfold Engine.getGroup at hcg'
    by_cases hg : g = group
    · rw [hg] at hcg' ⊢
      rw [getEntry_setEntry, Option.some.injEq] at hcg'
      rw [← hcg']
      refine ⟨hname, ?_⟩
      intro id
      unfold ConsumerGroup.getCommittedOffset
      by_cases hid : id = partitionID
      · rw [hid, getEntry_setEntry]
        exact hsame.symm
      rw [getEntry_setEntry_ne hid]
      have hkey : (group, id) ≠ (group, partitionID) := by
        intro heq
        rw [Prod.mk.injEq] at heq
        exact hid heq.right
      exact ((h.groups group cg hcg).right id).trans (hother group id hkey).symm
    · rw [getEntry_setEntry_ne hg] at hcg'
      refine ⟨(h.groups g cg' hcg').left, ?_⟩
      intro id
      have hkey : (g, id) ≠ (group, partitionID) := by
        intro heq
        rw [Prod.mk.injEq] at heq
        exact hg heq.left
      exact ((h.groups g cg' hcg').right id).trans (hother g id hkey).symm
  · exact h.synced.save group partitionID offset

theorem Inv.step {s' : Usage} (h : s.Inv) {a : Use} (hconfined : s.Confined a)
    (hstep : s.step a = some s') : s'.Inv := by
  cases a with
  | join group topic memberID partitionCount strategy now =>
    cases hstep
    exact (h.use hconfined.left).join memberID strategy now hconfined.right
  | leave group memberID =>
    cases hstep
    exact h.leave group memberID
  | commit group topic partitionID offset =>
    rcases hconfined with ⟨hown, hvalid, hexists⟩
    rcases Option.ne_none_iff_exists'.mp hexists with ⟨cg, hcg⟩
    have hname := (h.groups group cg hcg).left
    subst hname
    have hcommit : s.engine.commitOffset cg.name partitionID offset =
        ({ s.engine with
            groups := setEntry cg.name
              { cg with
                committed := setEntry partitionID offset cg.committed }
              s.engine.groups
            offsets :=
              (s.engine.offsets.save cg.name partitionID offset).1 },
          none) := by
      unfold Engine.commitOffset ConsumerGroup.commitOffset
      rw [hcg]
      simp only [OffsetStore.save_eq_of_valid _ hvalid]
    simp only [Usage.step, hcommit, if_true] at hstep
    cases hstep
    exact (h.use hown).commit (List.mem_cons_self ..) hvalid hcg partitionID
      offset
  | restart =>
    cases hstep
    exact h.restart

/--
As long as groups are used for one topic each, the offset that is read for a
group, a topic and a partition is the one that was committed last.
-/
theorem separate_of_confined (storage : HotEngine)
    (encryptor : Option Decryptor) {uses : List Use} {s : Usage}
    (hconfined : Meets step Confined (start storage encryptor) uses)
    (hrun : run? step (start storage encryptor) uses = some s) :
    s.Separate :=
  (run?_invariant_of_meets (fun _ _ _ h hc hstep => Inv.step h hc hstep)
    (inv_start storage encryptor) hconfined hrun).separate

def emptyUsage : Usage :=
  start (HotEngine.newEngine 1024 []) none

def oneTopicUses : List Use :=
  [.join (ascii "g") (ascii "a") (ascii "m") 4 .range 0,
    .commit (ascii "g") (ascii "a") 1 5, .restart,
    .join (ascii "g") (ascii "a") (ascii "m") 4 .range 1]

theorem separate_oneTopic : exists s : Usage,
    Meets step Confined emptyUsage oneTopicUses ∧
      run? step emptyUsage oneTopicUses = some s ∧
      (s.engine.getGroup (ascii "g")).map (fun cg =>
        cg.getCommittedOffset 1) = some 5 ∧ s.Separate := by
  have hmeets : Meets step Confined emptyUsage oneTopicUses := by
    decide +kernel
  have hview : (run? step emptyUsage oneTopicUses).map (fun s =>
      (s.engine.getGroup (ascii "g")).map (fun cg =>
        cg.getCommittedOffset 1)) = some (some 5) := by
    decide +kernel
  rcases Option.map_eq_some_iff.mp hview with ⟨s, hrun, hs⟩
  exact ⟨s, hmeets, hrun, hs,
    separate_of_confined (HotEngine.newEngine 1024 []) none hmeets hrun⟩

def twoTopicUses : List Use :=
  [.join (ascii "g") (ascii "a") (ascii "m") 4 .range 0,
    .commit (ascii "g") (ascii "a") 0 5,
    .join (ascii "g") (ascii "b") (ascii "n") 8 .range 1,
    .commit (ascii "g") (ascii "b") 0 9]

/-- The commit for the topic `b` is read back for the topic `a`. -/
theorem not_separate_twoTopics : exists s : Usage,
    run? step emptyUsage twoTopicUses = some s ∧
      (s.engine.getGroup (ascii "g")).map (fun cg =>
        cg.getCommittedOffset 0) = some 9 ∧
      s.lastCommitted (ascii "g") (ascii "a") 0 = 5 ∧ ¬ s.Separate := by
  have hview : (run? step emptyUsage twoTopicUses).map (fun s =>
      ((s.engine.getGroup (ascii "g")).map (fun cg =>
          cg.getCommittedOffset 0),
        s.lastCommitted (ascii "g") (ascii "a") 0,
        decide ((ascii "g", ascii "a") ∈ s.used))) =
        some (some 9, 5, true) := by
    decide +kernel
  rcases Option.map_eq_some_iff.mp hview with ⟨s, hrun, hs⟩
  rw [Prod.mk.injEq, Prod.mk.injEq] at hs
  refine ⟨s, hrun, hs.left, hs.right.left, ?_⟩
  intro h
  rcases Option.map_eq_some_iff.mp hs.left with ⟨cg, hcg, hread⟩
  have hsame := h (ascii "g") (ascii "a")
    (of_decide_eq_true hs.right.right) cg hcg 0
  rw [hread, hs.right.left] at hsame
  cases hsame

end Usage

end Stream
end ChimeraMQ
