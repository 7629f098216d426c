import ChimeraMQ.Foundation.RedBlackTree
import ChimeraMQ.Foundation.Run

/-!
# Memtables

The sorted in-memory map of the warm tier.  A deleted key keeps its place with
a tombstone.  The clock is an argument.
-/

namespace ChimeraMQ
namespace Warm

open Foundation

structure MemTableValue where
  value : Bytes
  timestamp : Nat
  deleted : Bool
deriving DecidableEq

structure MemTableEntry where
  key : Bytes
  value : Bytes
  timestamp : Nat
  deleted : Bool
deriving DecidableEq

/-- A sorted map with the number of bytes put into it. -/
structure MemTable where
  root : RedBlackTree Bytes MemTableValue
  size : Nat
  capacity : Nat
  frozen : Bool

def defaultCapacity : Nat := 4 * 1024 * 1024

def newMemTable (capacity : Int) : MemTable where
  root := .nil
  size := 0
  capacity := if capacity ≤ 0 then defaultCapacity else capacity.toNat
  frozen := false

namespace MemTable

def insert (mt : MemTable) (key value : Bytes) (deleted : Bool) (now : Nat) :
    MemTable :=
  { mt with
    root := (mt.root.insert key
      { value := value, timestamp := now, deleted := deleted }).paint false }

def put (mt : MemTable) (key value : Bytes) (now : Nat) : Option MemTable :=
  if mt.frozen then none
  else
    some { mt.insert key value false now with
      size := mt.size + (key.length + value.length) }

def delete (mt : MemTable) (key : Bytes) (now : Nat) : Option MemTable :=
  if mt.frozen then none
  else
    some { mt.insert key [] true now with size := mt.size + key.length }

def get (mt : MemTable) (key : Bytes) : Option (Bytes × Bool) :=
  (mt.root.search key).map (fun v => (v.value, v.deleted))

def atCapacity (mt : MemTable) : Bool :=
  mt.size ≥ mt.capacity

def freeze (mt : MemTable) : MemTable :=
  { mt with frozen := true }

def entries (mt : MemTable) : List MemTableEntry :=
  mt.root.inorder.map (fun e =>
    { key := e.1
      value := e.2.value
      timestamp := e.2.timestamp
      deleted := e.2.deleted })

end MemTable

def lookup (entries : List MemTableEntry) (key : Bytes) :
    Option (Bytes × Bool) :=
  (entries.find? (fun e => e.key = key)).map (fun e => (e.value, e.deleted))

def SortedTable (entries : List MemTableEntry) : Prop :=
  entries.Pairwise (fun a b => a.key < b.key)

namespace MemTable

def Ordered (mt : MemTable) : Prop :=
  mt.root.Ordered

theorem ordered_newMemTable (capacity : Int) :
    (newMemTable capacity).Ordered :=
  RedBlackTree.ordered_nil

variable {mt : MemTable}

variable (h : mt.Ordered)

include h

theorem Ordered.insert (key value : Bytes) (deleted : Bool) (now : Nat) :
    (mt.insert key value deleted now).Ordered :=
  (RedBlackTree.Ordered.insert h key _).paint false

theorem get_insert (key value : Bytes) (deleted : Bool) (now : Nat)
    (j : Bytes) :
    (mt.insert key value deleted now).get j =
      if j = key then some (value, deleted) else mt.get j := by
  have hinsert := RedBlackTree.Ordered.insert h key
    { value := value, timestamp := now, deleted := deleted }
  have hpaint : (mt.insert key value deleted now).root.search j =
      (mt.root.insert key
        { value := value, timestamp := now, deleted := deleted }).search j := by
    rw [RedBlackTree.search_eq hinsert, ← RedBlackTree.inorder_paint false]
    exact RedBlackTree.search_eq (hinsert.paint false) j
  rw [get, hpaint, RedBlackTree.search_insert h]
  by_cases hj : j = key
  · rw [if_pos hj, if_pos hj]
    rfl
  · rw [if_neg hj, if_neg hj]
    rfl

variable {mt' : MemTable} {key : Bytes} {now : Nat}

theorem Ordered.put {value : Bytes} (hput : mt.put key value now = some mt') :
    mt'.Ordered := by
  unfold MemTable.put at hput
  cases hfrozen : mt.frozen with
  | true => simp [hfrozen] at hput
  | false =>
  simp only [hfrozen, Bool.false_eq_true, if_false,
    Option.some.injEq] at hput
  rw [← hput]
  exact h.insert key value false now

theorem get_put {value : Bytes} (hput : mt.put key value now = some mt')
    (j : Bytes) :
    mt'.get j = if j = key then some (value, false) else mt.get j := by
  unfold MemTable.put at hput
  cases hfrozen : mt.frozen with
  | true => simp [hfrozen] at hput
  | false =>
  simp only [hfrozen, Bool.false_eq_true, if_false,
    Option.some.injEq] at hput
  rw [← hput]
  exact get_insert h key value false now j

theorem Ordered.delete (hdelete : mt.delete key now = some mt') :
    mt'.Ordered := by
  unfold MemTable.delete at hdelete
  cases hfrozen : mt.frozen with
  | true => simp [hfrozen] at hdelete
  | false =>
  simp only [hfrozen, Bool.false_eq_true, if_false,
    Option.some.injEq] at hdelete
  rw [← hdelete]
  exact h.insert key [] true now

theorem get_delete (hdelete : mt.delete key now = some mt') (j : Bytes) :
    mt'.get j = if j = key then some ([], true) else mt.get j := by
  unfold MemTable.delete at hdelete
  cases hfrozen : mt.frozen with
  | true => simp [hfrozen] at hdelete
  | false =>
  simp only [hfrozen, Bool.false_eq_true, if_false,
    Option.some.injEq] at hdelete
  rw [← hdelete]
  exact get_insert h key [] true now j

theorem Ordered.sortedTable : SortedTable mt.entries := by
  unfold SortedTable entries
  rw [List.pairwise_map]
  exact h

theorem get_eq_lookup (key : Bytes) :
    mt.get key = lookup mt.entries key := by
  rw [get, RedBlackTree.search_eq h]
  unfold lookup entries getEntry
  rw [List.find?_map, Option.map_map, Option.map_map]
  refine congrArg (Option.map (fun e : Bytes × MemTableValue =>
    (e.2.value, e.2.deleted))) (congrArg (fun p => mt.root.inorder.find? p) ?_)
  funext e
  exact decide_eq_decide.mpr Iff.rfl

omit h

/-!
## Sequences of writes
-/

inductive Write where
  | put (key value : Bytes) (now : Nat)
  | delete (key : Bytes) (now : Nat)

namespace Write

def written : Write -> Bytes
  | put key _ _ => key
  | delete key _ => key

def content : Write -> Bytes × Bool
  | put _ value _ => (value, false)
  | delete _ _ => ([], true)

end Write

def write (mt : MemTable) : Write -> Option MemTable
  | .put key value now => mt.put key value now
  | .delete key now => mt.delete key now

def lastWrite (writes : List Write) (key : Bytes) : Option (Bytes × Bool) :=
  (writes.reverse.find? (fun w => w.written = key)).map Write.content

structure Written (mt : MemTable) (writes : List Write) : Prop where
  ordered : mt.Ordered
  balanced : exists n, RedBlackTree.Balanced n mt.root
  black : mt.root.isRed = false
  open_ : mt.frozen = false
  get_eq : forall key, mt.get key = lastWrite writes key

theorem written_newMemTable (capacity : Int) :
    Written (newMemTable capacity) [] where
  ordered := RedBlackTree.ordered_nil
  balanced := ⟨0, RedBlackTree.Balanced.nil⟩
  black := rfl
  open_ := rfl
  get_eq := fun _ => rfl

theorem lastWrite_concat (writes : List Write) (w : Write) (key : Bytes) :
    lastWrite (writes ++ [w]) key =
      if key = w.written then some w.content else lastWrite writes key := by
  unfold lastWrite
  rw [List.reverse_append, List.reverse_singleton, List.singleton_append]
  by_cases hkey : w.written = key
  · rw [List.find?_cons_of_pos (by simp [hkey]), if_pos hkey.symm]
    rfl
  · rw [List.find?_cons_of_neg (by simp [hkey]), if_neg (Ne.symm hkey)]

theorem Written.insert {writes : List Write} (h : Written mt writes)
    (w : Write) (now size : Nat) :
    Written
      { mt.insert w.written w.content.1 w.content.2 now with size := size }
      (writes ++ [w]) where
  ordered := h.ordered.insert _ _ _ _
  balanced := by
    rcases h.balanced with ⟨n, hn⟩
    exact ((hn.insert_cases _ _).left h.black).paint_black
  black := by
    show (RedBlackTree.paint false _).isRed = false
    cases mt.root.insert w.written ⟨w.content.1, now, w.content.2⟩ with
    | nil => rfl
    | node red l k v r => rfl
  open_ := h.open_
  get_eq := by
    intro key
    rw [lastWrite_concat, ← h.get_eq]
    exact get_insert h.ordered w.written w.content.1 w.content.2 now key

theorem Written.write {writes : List Write} (h : Written mt writes)
    (w : Write) : exists mt', mt.write w = some mt' ∧
      Written mt' (writes ++ [w]) := by
  cases w with
  | put key value now =>
    refine ⟨_, ?_, h.insert (.put key value now) now
      (mt.size + (key.length + value.length))⟩
    rw [MemTable.write, MemTable.put, h.open_]
    rfl
  | delete key now =>
  refine ⟨_, ?_, h.insert (.delete key now) now
    (mt.size + key.length)⟩
  rw [MemTable.write, MemTable.delete, h.open_]
  rfl

theorem Written.run {past : List Write} (h : Written mt past)
    (writes : List Write) : exists mt', run? MemTable.write mt writes = some mt' ∧
      Written mt' (past ++ writes) := by
  induction writes generalizing mt past with
  | nil => exact ⟨mt, rfl, by rwa [List.append_nil]⟩
  | cons w writes ih =>
  rcases h.write w with ⟨next, hnext, hwritten⟩
  rcases ih hwritten with ⟨mt', hrun, hall⟩
  rw [List.append_assoc] at hall
  refine ⟨mt', ?_, hall⟩
  rw [run?, hnext]
  exact hrun

/--
After any writes the tree leans left and is balanced, the entries are in order,
one for every key that was written, and hold what was written last.
-/
theorem written_leftLeaning (capacity : Int) (writes : List Write) :
    exists mt, run? MemTable.write (newMemTable capacity) writes = some mt ∧
      mt.Ordered ∧ mt.root.LeftLeaning ∧ SortedTable mt.entries ∧
      forall key, lookup mt.entries key = lastWrite writes key ∧
        mt.get key = lastWrite writes key := by
  rcases (written_newMemTable capacity).run writes with ⟨mt, hrun, hall⟩
  rcases hall.balanced with ⟨n, hn⟩
  refine ⟨mt, hrun, hall.ordered, hn.leftLeaning hall.black,
    hall.ordered.sortedTable, ?_⟩
  intro key
  rw [← get_eq_lookup hall.ordered]
  exact ⟨hall.get_eq key, hall.get_eq key⟩

end MemTable

end Warm
end ChimeraMQ
