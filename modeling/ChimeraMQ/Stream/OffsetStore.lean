import ChimeraMQ.Foundation.Bytes
import ChimeraMQ.Foundation.Entries

/-!
# The store of committed offsets

The offsets that consumer groups have committed are kept in a file for each
group, and in a cache that is filled from the files at the start.
-/

namespace ChimeraMQ
namespace Stream

open Foundation

inductive GroupNameError where
  | empty
  | tooLong
  | invalid (group : Bytes)
deriving DecidableEq

def isGroupNameByte (b : UInt8) : Bool :=
  (97 ≤ b && b ≤ 122) || (65 ≤ b && b ≤ 90) || (48 ≤ b && b ≤ 57) ||
    b = 95 || b = 45

def validateGroupName (group : Bytes) : Option GroupNameError :=
  if group = [] then some .empty
  else if group.length > 256 then some .tooLong
  else if group.all isGroupNameByte then none
  else some (.invalid group)

abbrev Offsets := List (Nat × Nat)

structure OffsetStore where
  files : List (Bytes × Offsets)
  cache : List (Bytes × Offsets)
deriving DecidableEq

namespace OffsetStore

/-- Open the store; what is in a directory with an invalid name is skipped. -/
def newOffsetStore (files : List (Bytes × Offsets)) : OffsetStore where
  files := files
  cache := files.filter (fun e => (validateGroupName e.1).isNone)

def offsetsOf (s : OffsetStore) (group : Bytes) : Offsets :=
  (getEntry group s.cache).getD []

def remember (s : OffsetStore) (group : Bytes) (partitionID offset : Nat) :
    OffsetStore :=
  { s with
    cache := setEntry group (setEntry partitionID offset (s.offsetsOf group))
      s.cache }

def persist (s : OffsetStore) (group : Bytes) : OffsetStore :=
  { s with files := setEntry group (s.offsetsOf group) s.files }

def save (s : OffsetStore) (group : Bytes) (partitionID offset : Nat) :
    OffsetStore × Option GroupNameError :=
  match validateGroupName group with
  | some err => (s, some err)
  | none => ((s.remember group partitionID offset).persist group, none)

def get (s : OffsetStore) (group : Bytes) (partitionID : Nat) : Nat :=
  (getEntry partitionID (s.offsetsOf group)).getD 0

/-!
## Saving and opening again
-/

theorem offsetsOf_remember (s : OffsetStore) (group : Bytes)
    (partitionID offset : Nat) :
    (s.remember group partitionID offset).offsetsOf group =
      setEntry partitionID offset (s.offsetsOf group) := by
  unfold remember offsetsOf
  rw [getEntry_setEntry]
  rfl

theorem offsetsOf_remember_ne (s : OffsetStore) {group other : Bytes}
    (hne : other ≠ group) (partitionID offset : Nat) :
    (s.remember group partitionID offset).offsetsOf other =
      s.offsetsOf other := by
  unfold remember offsetsOf
  rw [getEntry_setEntry_ne hne]

theorem get_remember (s : OffsetStore) (group : Bytes)
    (partitionID offset : Nat) :
    (s.remember group partitionID offset).get group partitionID = offset := by
  unfold get
  rw [offsetsOf_remember, getEntry_setEntry]
  rfl

theorem get_remember_ne (s : OffsetStore) {group other : Bytes}
    {partitionID otherID : Nat}
    (hne : (other, otherID) ≠ (group, partitionID)) (offset : Nat) :
    (s.remember group partitionID offset).get other otherID =
      s.get other otherID := by
  unfold get
  by_cases hgroup : other = group
  · have hid : otherID ≠ partitionID := fun hid => hne (by rw [hgroup, hid])
    rw [hgroup, offsetsOf_remember, getEntry_setEntry_ne hid]
  · rw [offsetsOf_remember_ne s hgroup]

theorem save_eq_of_valid (s : OffsetStore) {group : Bytes}
    (hvalid : validateGroupName group = none) (partitionID offset : Nat) :
    s.save group partitionID offset =
      ((s.remember group partitionID offset).persist group, none) := by
  unfold save
  rw [hvalid]

structure Synced (s : OffsetStore) : Prop where
  same : s.files = s.cache
  valid : forall e, e ∈ s.files -> validateGroupName e.1 = none

theorem synced_empty : (newOffsetStore []).Synced where
  same := rfl
  valid := by
    intro e he
    cases he

theorem Synced.save {s : OffsetStore} (h : s.Synced) (group : Bytes)
    (partitionID offset : Nat) : (s.save group partitionID offset).1.Synced := by
  cases hvalid : validateGroupName group with
  | some err =>
    unfold OffsetStore.save
    rw [hvalid]
    exact h
  | none =>
  rw [save_eq_of_valid s hvalid]
  constructor
  · show setEntry group ((s.remember group partitionID offset).offsetsOf
      group) s.files = _
    rw [offsetsOf_remember, h.same]
    rfl
  intro e he
  rcases mem_setEntry he with hnew | hold
  · rw [hnew]
    exact hvalid
  · exact h.valid e hold

theorem Synced.reopened {s : OffsetStore} (h : s.Synced) :
    newOffsetStore s.files = s := by
  have hall : s.files.filter (fun e => (validateGroupName e.1).isNone) =
      s.files := by
    apply List.filter_eq_self.mpr
    intro e he
    rw [h.valid e he]
    rfl
  unfold newOffsetStore
  rw [hall]
  conv_lhs => rw [h.same]
  have hfiles := h.same
  cases s
  cases hfiles
  rfl

end OffsetStore

end Stream
end ChimeraMQ
