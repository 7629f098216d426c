import ChimeraMQ.Warm.TableLookup
import Mathlib.Logic.Function.Basic

/-!
# The cache of blocks

Blocks of a table that were read are kept in a ring of slots, in which a hand
looks for one to give up; what was used since the hand last passed gets a second
chance.  The map of the cache and its slots share their entries.
-/

namespace ChimeraMQ
namespace Warm

open Foundation

structure CacheEntry where
  offset : Nat
  data : Bytes
  referenced : Bool

/--
The entries are in a heap; the map, by the offsets of the blocks, and the slots
hold places in it.
-/
structure BlockCache where
  heap : Nat -> CacheEntry
  fresh : Nat
  blocks : List (Nat × Nat)
  slots : List (Option Nat)
  hand : Nat
  max : Nat

def newBlockCache (max : Nat) : BlockCache where
  heap := fun _ => { offset := 0, data := [], referenced := false }
  fresh := 0
  blocks := []
  slots := List.replicate max none
  hand := 0
  max := max

namespace BlockCache

def setReferenced (c : BlockCache) (p : Nat) (referenced : Bool) :
    BlockCache :=
  { c with
    heap := Function.update c.heap p
      { c.heap p with referenced := referenced } }

def slotAt (c : BlockCache) (i : Nat) : Option Nat :=
  (c.slots[i]?).join

def get (c : BlockCache) (offset : Nat) : BlockCache × Option Bytes :=
  match getEntry offset c.blocks with
  | none => (c, none)
  | some p => (c.setReferenced p true, some (c.heap p).data)

/-- Move the hand until there is room, in a number of rounds at most. -/
def sweep : Nat -> BlockCache -> Option BlockCache
  | 0, _ => none
  | fuel + 1, c =>
    if c.blocks.length < c.max then some c
    else
      match c.slotAt c.hand with
      | none => sweep fuel { c with hand := (c.hand + 1) % c.max }
      | some p =>
      if (c.heap p).referenced then
        sweep fuel
          { c.setReferenced p false with hand := (c.hand + 1) % c.max }
      else
        some { c with
          blocks := deleteEntry (c.heap p).offset c.blocks
          slots := c.slots.set c.hand none }

def freeSlot (c : BlockCache) : Option Nat :=
  ((List.range c.max).map (fun i => (c.hand + i) % c.max)).find?
    (fun idx => c.slotAt idx = none)

def putAt (c : BlockCache) (slot offset : Nat) (data : Bytes) : BlockCache :=
  { c with
    heap := Function.update c.heap c.fresh
      { offset := offset, data := data, referenced := true }
    fresh := c.fresh + 1
    blocks := setEntry offset c.fresh c.blocks
    slots := c.slots.set slot (some c.fresh)
    hand := (slot + 1) % c.max }

def put (fuel : Nat) (c : BlockCache) (offset : Nat) (data : Bytes) :
    Option BlockCache :=
  if (getEntry offset c.blocks).isSome then some c
  else
    (c.sweep fuel).map (fun c =>
      match c.freeSlot with
      | some slot => c.putAt slot offset data
      | none =>
      match c.slotAt c.hand with
      | none => c.putAt c.hand offset data
      | some p =>
        { c with
          blocks := deleteEntry (c.heap p).offset c.blocks }.putAt c.hand
            offset data)

def clear (c : BlockCache) : BlockCache :=
  { c with
    blocks := []
    slots := List.replicate c.slots.length none
    hand := 0 }

end BlockCache

def SSTable.getCached (sst : SSTable) (content : Bytes) (fuel : Nat)
    (c : BlockCache) (key : Bytes) :
    Option (BlockCache × Option (Bytes × Bool)) :=
  if sst.closed then some (c, none)
  else if !sst.bloom.mayContain key then some (c, none)
  else
    match sst.index.search key with
    | none => some (c, none)
    | some block =>
    match c.get block.offset with
    | (c, some data) => some (c, scanBlockForKey key data.length data)
    | (c, none) =>
    match readAt content block.offset block.length with
    | none => some (c, none)
    | some data =>
      (c.put fuel block.offset data).map
        (fun c => (c, scanBlockForKey key data.length data))

inductive CacheOp where
  | get (offset : Nat)
  | put (offset : Nat) (data : Bytes)
  | clear

namespace BlockCache

def step (fuel : Nat) (c : BlockCache) : CacheOp -> Option BlockCache
  | .get offset => some (c.get offset).1
  | .put offset data => c.put fuel offset data
  | .clear => some c.clear

def Stores (block : Nat -> Option Bytes) : CacheOp -> Prop
  | .put offset data => block offset = some data
  | _ => True

structure Mirrored (c : BlockCache) : Prop where
  same : (c.slots.filterMap id).Perm (c.blocks.map Prod.snd)
  once : (c.slots.filterMap id).Nodup
  atMost : c.blocks.length ≤ c.max

structure Sound (block : Nat -> Option Bytes) (c : BlockCache) : Prop where
  length : c.slots.length = c.max
  hand : c.hand < c.max
  nodup : (c.blocks.map Prod.fst).Nodup
  same : (c.slots.filterMap id).Perm (c.blocks.map Prod.snd)
  offset : forall e, e ∈ c.blocks -> (c.heap e.2).offset = e.1
  data : forall e, e ∈ c.blocks -> block e.1 = some (c.heap e.2).data
  fresh : forall e, e ∈ c.blocks -> e.2 < c.fresh

/-!
## Slots
-/

theorem perm_set {slots : List (Option Nat)} {i : Nat} {x : Option Nat}
    (h : slots[i]? = some x) (y : Option Nat) :
    exists rest, (slots.filterMap id).Perm (x.toList ++ rest) ∧
      ((slots.set i y).filterMap id).Perm (y.toList ++ rest) := by
  rcases List.getElem?_eq_some_iff.mp h with ⟨hi, hx⟩
  have hsplit : exists front back, slots = front ++ slots[i] :: back ∧
      front.length = i ∧ slots.set i y = front ++ y :: back :=
    List.exists_of_set hi
  rcases hsplit with ⟨front, back, hslots, _, hset⟩
  rw [hx] at hslots
  have hmove : forall z : Option Nat,
      ((front ++ z :: back).filterMap id).Perm
        (z.toList ++ (front ++ back).filterMap id) := by
    intro z
    have hmiddle : (front ++ z :: back).Perm (z :: (front ++ back)) :=
      List.perm_middle
    have hfront := hmiddle.filterMap id
    cases z with
    | none => exact hfront
    | some p => exact hfront
  refine ⟨(front ++ back).filterMap id, ?_, ?_⟩
  · rw [hslots]
    exact hmove x
  · rw [hset]
    exact hmove y

theorem none_mem_of_length_lt {slots : List (Option Nat)}
    (h : (slots.filterMap id).length < slots.length) : none ∈ slots := by
  induction slots with
  | nil => cases h
  | cons x slots ih =>
  cases x with
  | none => exact List.mem_cons_self ..
  | some p =>
  apply List.mem_cons_of_mem
  apply ih
  simpa using h

theorem none_not_mem_of_length_eq {slots : List (Option Nat)}
    (h : (slots.filterMap id).length = slots.length) : none ∉ slots := by
  intro hmem
  rcases List.append_of_mem hmem with ⟨front, back, hsplit⟩
  have hfront := List.length_filterMap_le id front
  have hback := List.length_filterMap_le id back
  rw [hsplit] at h
  simp only [List.filterMap_append, List.filterMap_cons, id, List.length_append,
    List.length_cons] at h
  change (front.filterMap id).length + (back.filterMap id).length = _ at h
  omega

variable {block : Nat -> Option Bytes} {c : BlockCache}

variable (h : Sound block c)

include h

theorem Sound.length_blocks :
    (c.slots.filterMap id).length = c.blocks.length := by
  rw [h.same.length_eq, List.length_map]

theorem Sound.mirrored : Mirrored c where
  same := h.same
  once := by
    apply h.same.nodup_iff.mpr
    have hkeys : c.blocks.map Prod.fst =
        (c.blocks.map Prod.snd).map (fun p => (c.heap p).offset) := by
      rw [List.map_map]
      exact List.map_congr_left (fun e he => (h.offset e he).symm)
    have hnodup := h.nodup
    rw [hkeys] at hnodup
    exact hnodup.of_map
  atMost := by
    rw [← h.length_blocks, ← h.length]
    exact List.length_filterMap_le id c.slots

omit h in
theorem sound_new {max : Nat} (hmax : 1 ≤ max) :
    Sound block (newBlockCache max) where
  length := List.length_replicate
  hand := hmax
  nodup := List.nodup_nil
  same := by
    rw [show ((newBlockCache max).slots.filterMap id) = [] by
      simp [newBlockCache]]
    exact List.Perm.refl _
  offset := by
    intro e he
    cases he
  data := by
    intro e he
    cases he
  fresh := by
    intro e he
    cases he

theorem Sound.clear : Sound block c.clear where
  length := List.length_replicate.trans h.length
  hand := Nat.lt_of_le_of_lt (Nat.zero_le _) h.hand
  nodup := List.nodup_nil
  same := by
    rw [show (c.clear.slots.filterMap id) = [] by simp [BlockCache.clear]]
    exact List.Perm.refl _
  offset := by
    intro e he
    cases he
  data := by
    intro e he
    cases he
  fresh := by
    intro e he
    cases he

theorem Sound.setReferenced (p : Nat) (referenced : Bool) {hand : Nat}
    (hhand : hand < c.max) :
    Sound block { c.setReferenced p referenced with hand := hand } := by
  have hheap : forall q, ((c.setReferenced p referenced).heap q).offset =
        (c.heap q).offset ∧
      ((c.setReferenced p referenced).heap q).data = (c.heap q).data := by
    intro q
    unfold BlockCache.setReferenced
    by_cases hq : q = p
    · subst hq
      simp
    · simp [Function.update_of_ne hq]
  constructor
  · exact h.length
  · exact hhand
  · exact h.nodup
  · exact h.same
  · intro e he
    exact (hheap e.2).left.trans (h.offset e he)
  · intro e he
    exact (h.data e he).trans (congrArg some (hheap e.2).right.symm)
  · exact h.fresh

theorem Sound.get (offset : Nat) :
    Sound block (c.get offset).1 ∧
      forall data, (c.get offset).2 = some data -> block offset = some data := by
  unfold BlockCache.get
  cases hentry : getEntry offset c.blocks with
  | none => exact ⟨h, fun _ hdata => by cases hdata⟩
  | some p =>
  constructor
  · exact h.setReferenced p true h.hand
  · intro data hdata
    cases hdata
    exact h.data (offset, p) (mem_of_getEntry hentry)

/-!
## Eviction
-/

theorem Sound.mem_of_slotAt {i p : Nat} (hslot : c.slotAt i = some p) :
    c.slots[i]? = some (some p) ∧ ((c.heap p).offset, p) ∈ c.blocks := by
  have hget : c.slots[i]? = some (some p) := Option.join_eq_some_iff.mp hslot
  refine ⟨hget, ?_⟩
  have hmem : p ∈ c.slots.filterMap id :=
    List.mem_filterMap.mpr ⟨some p, List.mem_of_getElem? hget, rfl⟩
  rcases List.mem_map.mp (h.same.mem_iff.mp hmem) with ⟨e, he, hp⟩
  subst hp
  rw [h.offset e he]
  exact he

theorem Sound.evict {p : Nat} (hslot : c.slotAt c.hand = some p) :
    Sound block
      { c with
        blocks := deleteEntry (c.heap p).offset c.blocks
        slots := c.slots.set c.hand none } ∧
      (deleteEntry (c.heap p).offset c.blocks).length < c.blocks.length := by
  rcases h.mem_of_slotAt hslot with ⟨hget, hmem⟩
  rcases perm_set hget none with ⟨rest, hbefore, hafter⟩
  have hperm := @perm_deleteEntry _ _ _ (c.heap p).offset _ h.nodup
  rw [getEntry_of_mem h.nodup hmem] at hperm
  have hold : forall e, e ∈ deleteEntry (c.heap p).offset c.blocks ->
      e ∈ c.blocks := fun e he => (List.mem_filter.mp he).left
  constructor
  · constructor
    · exact List.length_set.trans h.length
    · exact h.hand
    · show ((deleteEntry _ c.blocks).map Prod.fst).Nodup
      rw [map_fst_deleteEntry]
      exact h.nodup.filter _
    · exact hafter.trans (hbefore.symm.trans
        (h.same.trans hperm.symm)).cons_inv
    · exact fun e he => h.offset e (hold e he)
    · exact fun e he => h.data e (hold e he)
    · exact fun e he => h.fresh e (hold e he)
  · exact length_deleteEntry_lt (List.mem_map.mpr ⟨_, hmem, rfl⟩)

omit h

def chances (c : BlockCache) : Nat :=
  (c.slots.filterMap id).countP (fun p => (c.heap p).referenced)

theorem Sound.chances_lt (h : Sound block c) {p : Nat}
    (hslot : c.slotAt c.hand = some p) (hreferenced : (c.heap p).referenced) :
    (c.setReferenced p false).chances < c.chances := by
  rcases perm_set (h.mem_of_slotAt hslot).left none with ⟨rest, hslots, _⟩
  have hrest : rest.countP
      (fun q => ((c.setReferenced p false).heap q).referenced) ≤
        rest.countP (fun q => (c.heap q).referenced) := by
    apply List.countP_mono_left
    intro q _ hq
    unfold BlockCache.setReferenced at hq
    by_cases hpq : q = p
    · subst hpq
      simp at hq
    · simpa [Function.update_of_ne hpq] using hq
  have hafter : (c.setReferenced p false).chances =
      (p :: rest).countP
        (fun q => ((c.setReferenced p false).heap q).referenced) :=
    hslots.countP_eq _
  have hbefore : c.chances =
      (p :: rest).countP (fun q => (c.heap q).referenced) :=
    hslots.countP_eq _
  have hcleared : ((c.setReferenced p false).heap p).referenced = false := by
    simp [BlockCache.setReferenced]
  have hkept : (p :: rest).countP (fun q => (c.heap q).referenced) =
      rest.countP (fun q => (c.heap q).referenced) + 1 :=
    List.countP_cons_of_pos hreferenced
  rw [hafter, hbefore, hkept, List.countP_cons_of_neg (by simp [hcleared])]
  omega

theorem Sound.sweep (h : Sound block c) {fuel : Nat} (hfuel : c.chances < fuel) :
    exists c', c.sweep fuel = some c' ∧ Sound block c' ∧ c'.max = c.max ∧
      c'.blocks.length < c'.max ∧ forall e, e ∈ c'.blocks -> e ∈ c.blocks := by
  induction fuel generalizing c with
  | zero => cases hfuel
  | succ fuel ih =>
  unfold BlockCache.sweep
  by_cases hroom : c.blocks.length < c.max
  · rw [if_pos hroom]
    exact ⟨c, rfl, h, rfl, hroom, fun _ he => he⟩
  rw [if_neg hroom]
  have hatMost := h.mirrored.atMost
  have hfull : none ∉ c.slots := none_not_mem_of_length_eq (by
    rw [h.length_blocks, h.length]
    omega)
  have hlt : c.hand < c.slots.length := by
    rw [h.length]
    exact h.hand
  cases hslot : c.slotAt c.hand with
  | none =>
    unfold slotAt at hslot
    rw [List.getElem?_eq_getElem hlt] at hslot
    exact absurd (List.mem_of_getElem (h := hlt) hslot) hfull
  | some p =>
  simp only
  by_cases hreferenced : (c.heap p).referenced = true
  · rw [if_pos hreferenced]
    have hless := h.chances_lt hslot hreferenced
    have hnext := ih (h.setReferenced p false
      (Nat.mod_lt (c.hand + 1) (Nat.lt_of_le_of_lt (Nat.zero_le _)
        h.hand))) (by
      show (c.setReferenced p false).chances < fuel
      omega)
    exact hnext
  · rw [if_neg hreferenced]
    rcases h.evict hslot with ⟨hsound, hfewer⟩
    refine ⟨_, rfl, hsound, rfl, ?_, ?_⟩
    · show (deleteEntry _ c.blocks).length < c.max
      omega
    · exact fun e he => (List.mem_filter.mp he).left

theorem Sound.freeSlot (h : Sound block c) (hroom : c.blocks.length < c.max) :
    exists slot, c.freeSlot = some slot ∧ c.slots[slot]? = some none ∧
      slot < c.max := by
  have hnone : none ∈ c.slots := none_mem_of_length_lt (by
    rw [h.length_blocks, h.length]
    exact hroom)
  rcases List.getElem?_of_mem hnone with ⟨idx, hidx⟩
  have hlt : idx < c.max := by
    rw [← h.length]
    exact (List.getElem?_eq_some_iff.mp hidx).choose
  have hhand := h.hand
  have hreach : exists i, i < c.max ∧ (c.hand + i) % c.max = idx := by
    by_cases hle : c.hand ≤ idx
    · refine ⟨idx - c.hand, by omega, ?_⟩
      rw [Nat.add_sub_cancel' hle, Nat.mod_eq_of_lt hlt]
    · refine ⟨idx + c.max - c.hand, by omega, ?_⟩
      rw [show c.hand + (idx + c.max - c.hand) = idx + c.max by omega,
        Nat.add_mod_right, Nat.mod_eq_of_lt hlt]
  rcases hreach with ⟨i, hi, heq⟩
  have hsome : c.freeSlot.isSome = true := by
    unfold BlockCache.freeSlot
    rw [List.find?_isSome]
    refine ⟨idx, List.mem_map.mpr ⟨i, List.mem_range.mpr hi, heq⟩, ?_⟩
    rw [slotAt, hidx]
    rfl
  rcases Option.isSome_iff_exists.mp hsome with ⟨slot, hslot⟩
  have hfree := List.find?_some hslot
  rcases List.mem_map.mp (List.mem_of_find?_eq_some hslot) with ⟨j, _, hj⟩
  have hslotLt : slot < c.max := by
    rw [← hj]
    exact Nat.mod_lt _ (by omega)
  refine ⟨slot, hslot, ?_, hslotLt⟩
  rw [decide_eq_true_iff, slotAt,
    List.getElem?_eq_getElem (by rw [h.length]; exact hslotLt)] at hfree
  rw [List.getElem?_eq_getElem (by rw [h.length]; exact hslotLt)]
  exact congrArg some hfree

theorem Sound.putAt (h : Sound block c) {slot offset : Nat} {data : Bytes}
    (hslot : c.slots[slot]? = some none) (hnew : offset ∉ c.blocks.map Prod.fst)
    (hdata : block offset = some data) :
    Sound block (c.putAt slot offset data) := by
  rcases perm_set hslot (some c.fresh) with ⟨rest, hbefore, hafter⟩
  have hblocks : (c.putAt slot offset data).blocks =
      c.blocks ++ [(offset, c.fresh)] := setEntry_of_not_mem _ hnew
  have hheap : forall e, e ∈ c.blocks ->
      (c.putAt slot offset data).heap e.2 = c.heap e.2 := by
    intro e he
    exact Function.update_of_ne (Nat.ne_of_lt (h.fresh e he)) _ _
  have hself : (c.putAt slot offset data).heap c.fresh =
      { offset := offset, data := data, referenced := true } :=
    Function.update_self ..
  constructor
  · exact List.length_set.trans h.length
  · exact Nat.mod_lt _ (Nat.lt_of_le_of_lt (Nat.zero_le _) h.hand)
  · rw [hblocks, List.map_append]
    exact List.nodup_append.mpr ⟨h.nodup, List.nodup_singleton _, by
      intro a ha b hb heq
      rw [heq, List.mem_singleton.mp hb] at ha
      exact hnew ha⟩
  · rw [hblocks, List.map_append]
    exact hafter.trans ((List.perm_append_comm.trans
      ((hbefore.symm.trans h.same).append_right [c.fresh])))
  · intro e he
    rw [hblocks] at he
    rcases List.mem_append.mp he with he | he
    · rw [hheap e he]
      exact h.offset e he
    · rw [List.mem_singleton.mp he, hself]
  · intro e he
    rw [hblocks] at he
    rcases List.mem_append.mp he with he | he
    · rw [hheap e he]
      exact h.data e he
    · rw [List.mem_singleton.mp he, hself]
      exact hdata
  · intro e he
    rw [hblocks] at he
    rcases List.mem_append.mp he with he | he
    · exact Nat.lt_succ_of_lt (h.fresh e he)
    · rw [List.mem_singleton.mp he]
      exact Nat.lt_succ_self _

theorem Sound.put (h : Sound block c) {fuel offset : Nat} {data : Bytes}
    (hfuel : c.max < fuel) (hdata : block offset = some data) :
    exists c', c.put fuel offset data = some c' ∧ Sound block c' ∧
      c'.max = c.max := by
  unfold BlockCache.put
  cases hentry : getEntry offset c.blocks with
  | some p => exact ⟨c, rfl, h, rfl⟩
  | none =>
  have hchances : c.chances < fuel := by
    have hcount := List.countP_le_length
      (p := fun p => (c.heap p).referenced) (l := c.slots.filterMap id)
    rw [h.length_blocks] at hcount
    have hatMost := h.mirrored.atMost
    unfold BlockCache.chances
    omega
  rcases h.sweep hchances with ⟨c', hsweep, hsound, hmax, hroom, hold⟩
  rcases hsound.freeSlot hroom with ⟨slot, hfree, hslot, _⟩
  have hnew : offset ∉ c'.blocks.map Prod.fst := by
    intro hmem
    rcases List.mem_map.mp hmem with ⟨e, he, hkey⟩
    exact getEntry_eq_none_iff.mp hentry
      (List.mem_map.mpr ⟨e, hold e he, hkey⟩)
  rw [hsweep]
  refine ⟨_, rfl, ?_, ?_⟩
  · simp only [hfree]
    exact hsound.putAt hslot hnew hdata
  · simp only [hfree]
    exact hmax

theorem Sound.run {fuel : Nat} {ops : List CacheOp} (h : Sound block c)
    (hfuel : c.max < fuel) (hops : forall op, op ∈ ops -> Stores block op) :
    exists c', run? (step fuel) c ops = some c' ∧ Sound block c' ∧
      c'.max = c.max := by
  induction ops generalizing c with
  | nil => exact ⟨c, rfl, h, rfl⟩
  | cons op ops ih =>
  rw [List.forall_mem_cons] at hops
  have hone : exists c', step fuel c op = some c' ∧ Sound block c' ∧
      c'.max = c.max := by
    cases op with
    | get offset =>
      refine ⟨_, rfl, (h.get offset).left, ?_⟩
      unfold BlockCache.get
      cases getEntry offset c.blocks with
      | none => rfl
      | some p => rfl
    | put offset data => exact h.put hfuel hops.left
    | clear => exact ⟨_, rfl, h.clear, rfl⟩
  rcases hone with ⟨next, hstep, hsound, hmax⟩
  rcases ih hsound (by rw [hmax]; exact hfuel) hops.right with
    ⟨c', hrun, hsound', hmax'⟩
  refine ⟨c', ?_, hsound', hmax'.trans hmax⟩
  rw [run?, hstep]
  exact hrun

/-!
## Lookups in a table
-/

def BlocksOf (sst : SSTable) (content : Bytes) (block : Nat -> Option Bytes) :
    Prop :=
  forall b, b ∈ sst.index -> readAt content b.offset b.length = block b.offset

theorem offsets_blocksOf {blocks : List (List MemTableEntry)}
    (hnonempty : forall b, b ∈ blocks -> b ≠ []) (start : Nat) :
    ((blocksOf start blocks).map BlockEntry.offset).Pairwise
        (fun i j => i < j) ∧
      forall i, i ∈ (blocksOf start blocks).map BlockEntry.offset ->
        start ≤ i := by
  induction blocks generalizing start with
  | nil => exact ⟨List.Pairwise.nil, fun i hi => by cases hi⟩
  | cons b blocks ih =>
  rw [List.forall_mem_cons] at hnonempty
  have hpos : 0 < (serializeAll b).length :=
    Nat.lt_of_lt_of_le (List.length_pos_iff.mpr hnonempty.left)
      (length_le_serializeAll b)
  rcases ih hnonempty.right (start + (serializeAll b).length) with
    ⟨hpairs, hle⟩
  rw [blocksOf, List.map_cons]
  constructor
  · refine List.pairwise_cons.mpr ⟨fun i hi => ?_, hpairs⟩
    have hlater := hle i hi
    show start < i
    omega
  rw [List.forall_mem_cons]
  refine ⟨Nat.le_refl start, fun i hi => ?_⟩
  have hlater := hle i hi
  omega

theorem exists_blocksOf_tableOf (sizing : BloomSizing) (path : List Char)
    (file : Nat) (entries : List MemTableEntry) (content : Bytes) :
    exists block, BlocksOf (tableOf sizing path file entries) content block := by
  have hnodup : ((tableOf sizing path file entries).index.map
      BlockEntry.offset).Nodup := by
    cases entries with
    | nil => exact List.nodup_nil
    | cons first rest =>
    rcases @addAll_eq first rest with ⟨blocks, _, hnonempty, _, hindex⟩
    unfold tableOf
    simp only [hindex]
    exact (offsets_blocksOf hnonempty 0).left.imp Nat.ne_of_lt
  refine ⟨fun offset => (getEntry offset
    ((tableOf sizing path file entries).index.map
      (fun b => (b.offset, readAt content b.offset b.length)))).join, ?_⟩
  intro b hb
  have hkeys : (((tableOf sizing path file entries).index.map
      (fun b => (b.offset, readAt content b.offset b.length))).map
        Prod.fst).Nodup := by
    rw [List.map_map]
    exact hnodup
  have hentry := getEntry_of_mem hkeys (List.mem_map.mpr ⟨b, hb, rfl⟩)
  exact (congrArg Option.join hentry).symm

theorem Sound.lookup (h : Sound block c) {fuel : Nat} (hfuel : c.max < fuel)
    {sst : SSTable} {content : Bytes} (hblocks : BlocksOf sst content block)
    (key : Bytes) :
    exists c', sst.getCached content fuel c key =
      some (c', sst.get content key) ∧ Sound block c' ∧ c'.max = c.max := by
  unfold SSTable.getCached SSTable.get
  by_cases hclosed : sst.closed = true
  · rw [if_pos hclosed, if_pos hclosed]
    exact ⟨c, rfl, h, rfl⟩
  rw [if_neg hclosed, if_neg hclosed]
  by_cases hbloom : (!sst.bloom.mayContain key) = true
  · rw [if_pos hbloom, if_pos hbloom]
    exact ⟨c, rfl, h, rfl⟩
  rw [if_neg hbloom, if_neg hbloom]
  cases hsearch : sst.index.search key with
  | none => exact ⟨c, rfl, h, rfl⟩
  | some b =>
  have hmem : b ∈ sst.index := by
    unfold BlockIndex.search at hsearch
    split at hsearch
    · cases hsearch
    · exact List.mem_of_getElem? hsearch
  have hread := hblocks b hmem
  have hget := h.get b.offset
  cases hcached : c.get b.offset with
  | mk c' found =>
    have hmax : c'.max = c.max := by
      have hfirst := congrArg (fun r => r.1.max) hcached
      rw [← hfirst]
      unfold BlockCache.get
      cases getEntry b.offset c.blocks with
      | none => rfl
      | some p => rfl
    rw [hcached] at hget
    cases found with
    | some data =>
      rw [hget.right data rfl] at hread
      simp only [hread, hcached]
      exact ⟨c', rfl, hget.left, hmax⟩
    | none =>
    cases hcontent : readAt content b.offset b.length with
    | none =>
      simp only [hcached, hcontent]
      exact ⟨c', rfl, hget.left, hmax⟩
    | some data =>
    rw [hcontent] at hread
    rcases hget.left.put (by rw [hmax]; exact hfuel)
      hread.symm with ⟨c'', hput, hsound, hmax'⟩
    simp only [hcached, hcontent, hput]
    exact ⟨c'', rfl, hsound, hmax'.trans hmax⟩

theorem Sound.getCached (h : Sound block c) {fuel : Nat} (hfuel : c.max < fuel)
    {sst : SSTable} {content : Bytes} (hblocks : BlocksOf sst content block)
    (key : Bytes) :
    exists c', sst.getCached content fuel c key =
      some (c', sst.get content key) := by
  rcases h.lookup hfuel hblocks key with ⟨c', hget, _⟩
  exact ⟨c', hget⟩

/--
The cache gives out only the block of an offset, its map and its slots agree,
the sweep ends, and a table gives for a key what it gives without a cache.
-/
theorem blockCache_transparent {max : Nat} (hmax : 1 ≤ max)
    (block : Nat -> Option Bytes) {fuel : Nat} (hfuel : max < fuel)
    (ops : List CacheOp) (hops : forall op, op ∈ ops -> Stores block op) :
    exists c, run? (step fuel) (newBlockCache max) ops = some c ∧
      Mirrored c ∧
      (forall offset data, (c.get offset).2 = some data ->
        block offset = some data) ∧
      forall sst content, BlocksOf sst content block ->
        forall key, exists c', sst.getCached content fuel c key =
          some (c', sst.get content key) := by
  have hnew : Sound block (newBlockCache max) := sound_new hmax
  rcases hnew.run hfuel hops with ⟨c, hrun, hsound, hmax'⟩
  refine ⟨c, hrun, hsound.mirrored, fun offset => (hsound.get offset).right, ?_⟩
  intro sst content hblocks key
  exact hsound.getCached (by rw [hmax']; exact hfuel) hblocks key

theorem blockCache_transparent_full :
    exists c, run? (step 2) (newBlockCache 1)
        [.put 0 [1], .get 0, .put 5 [2]] = some c ∧
      Mirrored c ∧
      (forall offset data, (c.get offset).2 = some data ->
        (if offset = 0 then some [1] else some [2]) = some data) ∧
      forall sst content, BlocksOf sst content
          (fun offset => if offset = 0 then some [1] else some [2]) ->
        forall key, exists c', sst.getCached content 2 c key =
          some (c', sst.get content key) :=
  blockCache_transparent (Nat.le_refl 1)
    (fun offset => if offset = 0 then some [1] else some [2]) (by decide) _ (by
      intro op hop
      simp only [List.mem_cons, List.not_mem_nil, or_false] at hop
      rcases hop with rfl | rfl | rfl
      · rfl
      · trivial
      · rfl)

def getAllCached (sst : SSTable) (content : Bytes) (fuel : Nat) :
    BlockCache -> List Bytes -> Option (List (Option (Bytes × Bool)))
  | _, [] => some []
  | c, key :: keys =>
    match sst.getCached content fuel c key with
    | none => none
    | some (c, found) =>
      (getAllCached sst content fuel c keys).map (fun rest => found :: rest)

theorem Sound.getAllCached (h : Sound block c) {fuel : Nat}
    (hfuel : c.max < fuel) {sst : SSTable} {content : Bytes}
    (hblocks : BlocksOf sst content block) (keys : List Bytes) :
    BlockCache.getAllCached sst content fuel c keys =
      some (keys.map (sst.get content)) := by
  induction keys generalizing c with
  | nil => rfl
  | cons key keys ih =>
  rcases h.lookup hfuel hblocks key with ⟨c', hget, hsound, hmax⟩
  rw [BlockCache.getAllCached, hget]
  simp only [ih hsound (by rw [hmax]; exact hfuel), Option.map_some,
    List.map_cons]

/--
Lookups one after the other in a table that was written, with a cache of any
size, give for every key what the entries of the table have.
-/
theorem getAllCached_tableOf {sizing : BloomSizing}
    {entries : List MemTableEntry} (hsorted : SortedTable entries)
    (hfits : TableFits sizing entries) (path : List Char) (file : Nat)
    {max fuel : Nat} (hmax : 1 ≤ max) (hfuel : max < fuel) (keys : List Bytes) :
    getAllCached (tableOf sizing path file entries) (tableBytes sizing entries)
        fuel (newBlockCache max) keys =
      some (keys.map (lookup entries)) := by
  rcases exists_blocksOf_tableOf sizing path file entries
    (tableBytes sizing entries) with ⟨block, hblocks⟩
  rw [Sound.getAllCached (sound_new hmax) hfuel hblocks]
  exact congrArg some (List.map_congr_left (fun key _ =>
    get_tableOf hsorted hfits path file key))

def twoEntries : List MemTableEntry :=
  [⟨[1], [5], 0, false⟩, ⟨[2], [], 0, true⟩]

theorem getAllCached_twoEntries :
    getAllCached (tableOf ⟨fun _ => 64, fun _ _ => 2⟩ [] 0 twoEntries)
        (tableBytes ⟨fun _ => 64, fun _ _ => 2⟩ twoEntries) 2 (newBlockCache 1)
          [[1], [2], [3]] =
      some [some ([5], false), some ([], true), none] :=
  getAllCached_tableOf (by unfold SortedTable; decide)
    ⟨by decide +kernel, by decide +kernel⟩ [] 0 (Nat.le_refl 1) (by decide)
    [[1], [2], [3]]

end BlockCache

end Warm
end ChimeraMQ
