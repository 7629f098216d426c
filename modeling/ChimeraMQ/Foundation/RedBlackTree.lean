import ChimeraMQ.Foundation.SortedEntries

/-!
# Left-leaning red-black trees

A search tree that is balanced by rotations on the way back from an insertion.
Rotations and colour flips do not move an entry, so that a tree is a sorted
list of entries to whoever searches it or walks through it.
-/

namespace ChimeraMQ
namespace Foundation

inductive RedBlackTree (κ α : Type) where
  | nil
  | node (red : Bool) (left : RedBlackTree κ α) (key : κ) (value : α)
      (right : RedBlackTree κ α)

namespace RedBlackTree

variable {κ α : Type}

def isRed : RedBlackTree κ α -> Bool
  | nil => false
  | node red _ _ _ _ => red

def left : RedBlackTree κ α -> RedBlackTree κ α
  | nil => nil
  | node _ l _ _ _ => l

def right : RedBlackTree κ α -> RedBlackTree κ α
  | nil => nil
  | node _ _ _ _ r => r

def paint (red : Bool) : RedBlackTree κ α -> RedBlackTree κ α
  | nil => nil
  | node _ l k v r => node red l k v r

def flip : RedBlackTree κ α -> RedBlackTree κ α
  | nil => nil
  | node red l k v r => node (!red) l k v r

def rotateLeft : RedBlackTree κ α -> RedBlackTree κ α
  | node red l k v (node _ rl rk rv rr) =>
    node red (node true l k v rl) rk rv rr
  | h => h

def rotateRight : RedBlackTree κ α -> RedBlackTree κ α
  | node red (node _ ll lk lv lr) k v r =>
    node red ll lk lv (node true lr k v r)
  | h => h

def flipColors : RedBlackTree κ α -> RedBlackTree κ α
  | nil => nil
  | node red l k v r => node (!red) l.flip k v r.flip

/-- Right-leaning reds and two reds in a row on the left are repaired. -/
def fixUp (h : RedBlackTree κ α) : RedBlackTree κ α :=
  let h := if h.right.isRed && !h.left.isRed then h.rotateLeft else h
  let h := if h.left.isRed && h.left.left.isRed then h.rotateRight else h
  if h.left.isRed && h.right.isRed then h.flipColors else h

def inorder : RedBlackTree κ α -> List (κ × α)
  | nil => []
  | node _ l k v r => l.inorder ++ (k, v) :: r.inorder

@[simp] theorem inorder_paint (red : Bool) (h : RedBlackTree κ α) :
    (h.paint red).inorder = h.inorder := by
  cases h with
  | nil => rfl
  | node _ l k v r => rfl

@[simp] theorem inorder_flip (h : RedBlackTree κ α) :
    h.flip.inorder = h.inorder := by
  cases h with
  | nil => rfl
  | node _ l k v r => rfl

@[simp] theorem inorder_rotateLeft (h : RedBlackTree κ α) :
    h.rotateLeft.inorder = h.inorder := by
  cases h with
  | nil => rfl
  | node red l k v r =>
  cases r with
  | nil => rfl
  | node rred rl rk rv rr => simp [rotateLeft, inorder]

@[simp] theorem inorder_rotateRight (h : RedBlackTree κ α) :
    h.rotateRight.inorder = h.inorder := by
  cases h with
  | nil => rfl
  | node red l k v r =>
  cases l with
  | nil => rfl
  | node lred ll lk lv lr => simp [rotateRight, inorder]

@[simp] theorem inorder_flipColors (h : RedBlackTree κ α) :
    h.flipColors.inorder = h.inorder := by
  cases h with
  | nil => rfl
  | node red l k v r => simp [flipColors, inorder]

@[simp] theorem inorder_fixUp (h : RedBlackTree κ α) :
    h.fixUp.inorder = h.inorder := by
  have hpick : forall (b : Bool) (f : RedBlackTree κ α -> RedBlackTree κ α)
      (t : RedBlackTree κ α), (f t).inorder = t.inorder ->
      (if b then f t else t).inorder = t.inorder := by
    intro b f t hf
    cases b with
    | false => rfl
    | true => exact hf
  unfold fixUp
  rw [hpick _ _ _ (inorder_flipColors _), hpick _ _ _ (inorder_rotateRight _),
    hpick _ _ _ (inorder_rotateLeft _)]

variable [LinearOrder κ]

def insert (key : κ) (value : α) : RedBlackTree κ α -> RedBlackTree κ α
  | nil => node true nil key value nil
  | node red l k v r =>
    match cmp key k with
    | .lt => fixUp (node red (l.insert key value) k v r)
    | .gt => fixUp (node red l k v (r.insert key value))
    | .eq => fixUp (node red l k value r)

def search (key : κ) : RedBlackTree κ α -> Option α
  | nil => none
  | node _ l k v r =>
    match cmp key k with
    | .lt => l.search key
    | .gt => r.search key
    | .eq => some v

def Ordered (h : RedBlackTree κ α) : Prop :=
  SortedEntries h.inorder

theorem ordered_nil : (nil : RedBlackTree κ α).Ordered :=
  List.Pairwise.nil

variable {h : RedBlackTree κ α}

theorem inorder_insert (hordered : h.Ordered) (key : κ) (value : α) :
    (h.insert key value).inorder = insertSorted key value h.inorder := by
  induction h with
  | nil => rfl
  | node red l k v r ihl ihr =>
  rcases List.pairwise_append.mp hordered with ⟨hl, hright, hbelow⟩
  rcases List.pairwise_cons.mp hright with ⟨_, hr⟩
  unfold insert
  cases hcmp : cmp key k with
  | lt =>
    have hlt : key < (k, v).1 := (cmp_eq_lt_iff _ _).mp hcmp
    simp only [inorder_fixUp, inorder]
    rw [ihl hl, insertSorted_append_of_lt hlt]
  | eq =>
    have heq : key = k := (cmp_eq_eq_iff _ _).mp hcmp
    have hgt : forall e, e ∈ l.inorder -> e.1 < key := by
      intro e he
      rw [heq]
      exact hbelow e he (k, v) (List.mem_cons_self ..)
    simp only [inorder_fixUp, inorder]
    rw [insertSorted_append_of_gt hgt, insertSorted, hcmp]
  | gt =>
  have hkey : k < key := (cmp_eq_gt_iff _ _).mp hcmp
  have hgt : forall e, e ∈ l.inorder -> e.1 < key := by
    intro e he
    exact (hbelow e he (k, v) (List.mem_cons_self ..)).trans hkey
  simp only [inorder_fixUp, inorder]
  rw [ihr hr, insertSorted_append_of_gt hgt, insertSorted, hcmp]

theorem Ordered.insert (hordered : h.Ordered) (key : κ) (value : α) :
    (h.insert key value).Ordered := by
  rw [Ordered, inorder_insert hordered]
  exact SortedEntries.insertSorted hordered key value

theorem Ordered.paint (hordered : h.Ordered) (red : Bool) :
    (h.paint red).Ordered := by
  rw [Ordered, inorder_paint]
  exact hordered

theorem search_eq (hordered : h.Ordered) (key : κ) :
    h.search key = getEntry key h.inorder := by
  induction h with
  | nil => rfl
  | node red l k v r ihl ihr =>
  rcases List.pairwise_append.mp hordered with ⟨hl, hright, hbelow⟩
  rcases List.pairwise_cons.mp hright with ⟨_, hr⟩
  unfold search
  cases hcmp : cmp key k with
  | lt =>
    have hlt : key < (k, v).1 := (cmp_eq_lt_iff _ _).mp hcmp
    rw [inorder, getEntry_append_of_lt hordered hlt]
    exact ihl hl
  | eq =>
    have heq : key = k := (cmp_eq_eq_iff _ _).mp hcmp
    have hgt : forall e, e ∈ l.inorder -> e.1 < key := by
      intro e he
      rw [heq]
      exact hbelow e he (k, v) (List.mem_cons_self ..)
    rw [inorder, getEntry_append_of_gt hgt, heq, getEntry_cons_self]
  | gt =>
  have hkey : k < key := (cmp_eq_gt_iff _ _).mp hcmp
  have hgt : forall e, e ∈ l.inorder -> e.1 < key := by
    intro e he
    exact (hbelow e he (k, v) (List.mem_cons_self ..)).trans hkey
  have hne : (k, v).1 ≠ key := ne_of_lt hkey
  rw [inorder, getEntry_append_of_gt hgt, getEntry_cons_ne hne]
  exact ihr hr

theorem search_insert (hordered : h.Ordered) (key j : κ) (value : α) :
    (h.insert key value).search j =
      if j = key then some value else h.search j := by
  rw [search_eq (hordered.insert key value), inorder_insert hordered,
    getEntry_insertSorted hordered, search_eq hordered]

/-!
## Balance
-/

omit [LinearOrder κ]

def subtrees : RedBlackTree κ α -> List (RedBlackTree κ α)
  | nil => [nil]
  | node red l k v r => node red l k v r :: (l.subtrees ++ r.subtrees)

def blackLinks : RedBlackTree κ α -> List Nat
  | nil => [0]
  | node _ l _ _ r =>
    l.blackLinks.map (fun n => if l.isRed then n else n + 1) ++
      r.blackLinks.map (fun n => if r.isRed then n else n + 1)

structure LeftLeaning (h : RedBlackTree κ α) : Prop where
  root_black : h.isRed = false
  right_black : forall t, t ∈ h.subtrees -> t.right.isRed = false
  no_two_red : forall t, t ∈ h.subtrees ->
    ¬ (t.left.isRed = true ∧ t.left.left.isRed = true)
  balanced : forall m n, m ∈ h.blackLinks -> n ∈ h.blackLinks -> m = n

section

variable (red : Bool) (l : RedBlackTree κ α) (k : κ) (v : α)
  (r : RedBlackTree κ α)

theorem isRed_node : (node red l k v r).isRed = red := rfl

@[simp] theorem left_node : (node red l k v r).left = l := rfl

theorem right_node : (node red l k v r).right = r := rfl

end

/-- Trees of a black height that lean left; the root may be red. -/
inductive Balanced : Nat -> RedBlackTree κ α -> Prop where
  | nil : Balanced 0 nil
  | red {n : Nat} {l r : RedBlackTree κ α} {k : κ} {v : α} (hl : Balanced n l)
      (hr : Balanced n r) (hlred : l.isRed = false) (hrred : r.isRed = false) :
      Balanced n (node true l k v r)
  | black {n : Nat} {l r : RedBlackTree κ α} {k : κ} {v : α}
      (hl : Balanced n l) (hr : Balanced n r) (hrred : r.isRed = false) :
      Balanced (n + 1) (node false l k v r)

/-- A red root, whose left child may be red as well. -/
inductive Leaning (n : Nat) : RedBlackTree κ α -> Prop where
  | mk {l r : RedBlackTree κ α} {k : κ} {v : α} (hl : Balanced n l)
      (hr : Balanced n r) (hrred : r.isRed = false) :
      Leaning n (node true l k v r)

variable {n : Nat} {l r : RedBlackTree κ α}

theorem Balanced.left_left (h : Balanced n l) (hred : l.isRed = true) :
    l.left.isRed = false := by
  cases h with
  | nil => cases hred
  | red hl hr hlred hrred => exact hlred
  | black hl hr hrred => cases hred

theorem Balanced.blackLinks_eq (h : Balanced n l) {m : Nat}
    (hm : m ∈ l.blackLinks) : m = if l.isRed then n + 1 else n := by
  induction h generalizing m with
  | nil => exact List.mem_singleton.mp hm
  | red hl hr hlred hrred ihl ihr =>
    rcases List.mem_append.mp hm with hm | hm
    · rcases List.mem_map.mp hm with ⟨i, hi, heq⟩
      have hlinks := ihl hi
      rw [hlred] at heq hlinks
      exact heq.symm.trans (congrArg (fun j => j + 1) hlinks)
    rcases List.mem_map.mp hm with ⟨i, hi, heq⟩
    have hlinks := ihr hi
    rw [hrred] at heq hlinks
    exact heq.symm.trans (congrArg (fun j => j + 1) hlinks)
  | @black n l r k v hl hr hrred ihl ihr =>
  rcases List.mem_append.mp hm with hm | hm
  · rcases List.mem_map.mp hm with ⟨i, hi, heq⟩
    have hlinks := ihl hi
    cases hlred : l.isRed with
    | true =>
      rw [hlred] at heq hlinks
      exact heq.symm.trans hlinks
    | false =>
    rw [hlred] at heq hlinks
    exact heq.symm.trans (congrArg (fun j => j + 1) hlinks)
  · rcases List.mem_map.mp hm with ⟨i, hi, heq⟩
    have hlinks := ihr hi
    rw [hrred] at heq hlinks
    exact heq.symm.trans (congrArg (fun j => j + 1) hlinks)

theorem Balanced.of_mem_subtrees (h : Balanced n l) {t : RedBlackTree κ α}
    (ht : t ∈ l.subtrees) : exists m, Balanced m t := by
  induction h with
  | nil => exact ⟨0, List.mem_singleton.mp ht ▸ nil⟩
  | red hl hr hlred hrred ihl ihr =>
    rcases List.mem_cons.mp ht with heq | ht
    · exact ⟨_, heq ▸ hl.red hr hlred hrred⟩
    · rcases List.mem_append.mp ht with ht | ht
      · exact ihl ht
      · exact ihr ht
  | black hl hr hrred ihl ihr =>
  rcases List.mem_cons.mp ht with heq | ht
  · exact ⟨_, heq ▸ hl.black hr hrred⟩
  · rcases List.mem_append.mp ht with ht | ht
    · exact ihl ht
    · exact ihr ht

theorem Balanced.right_black (h : Balanced n l) : l.right.isRed = false := by
  cases h with
  | nil => rfl
  | red hl hr hlred hrred => exact hrred
  | black hl hr hrred => exact hrred

theorem Balanced.no_two_red (h : Balanced n l) :
    ¬ (l.left.isRed = true ∧ l.left.left.isRed = true) := by
  intro hboth
  cases h with
  | nil => cases hboth.left
  | red hl hr hlred hrred =>
    rw [left_node, hlred] at hboth
    cases hboth.left
  | black hl hr hrred =>
  have hblack := hl.left_left hboth.left
  rw [left_node, hblack] at hboth
  cases hboth.right

theorem Balanced.leftLeaning (h : Balanced n l) (hblack : l.isRed = false) :
    LeftLeaning l where
  root_black := hblack
  right_black := by
    intro t ht
    rcases h.of_mem_subtrees ht with ⟨m, hm⟩
    exact hm.right_black
  no_two_red := by
    intro t ht
    rcases h.of_mem_subtrees ht with ⟨m, hm⟩
    exact hm.no_two_red
  balanced := by
    intro i j hi hj
    rw [h.blackLinks_eq hi, h.blackLinks_eq hj]

theorem fixUp_of_leaning {red : Bool} {k : κ} {v : α} (hr : r.isRed = false)
    (hl : l.isRed = true -> l.left.isRed = false) :
    (node red l k v r).fixUp = node red l k v r := by
  cases hlred : l.isRed with
  | false => simp [fixUp, right_node, hr, hlred]
  | true => simp [fixUp, right_node, hr, hlred, hl hlred]

theorem Balanced.paint_black (h : Balanced n l) :
    exists m, Balanced m (l.paint false) := by
  cases h with
  | nil => exact ⟨0, nil⟩
  | red hl hr hlred hrred => exact ⟨_, hl.black hr hrred⟩
  | black hl hr hrred => exact ⟨_, hl.black hr hrred⟩

theorem Balanced.flip_red (h : Balanced n l) (hred : l.isRed = true) :
    Balanced (n + 1) l.flip ∧ l.flip.isRed = false := by
  cases h with
  | nil => cases hred
  | red hl hr hlred hrred => exact ⟨hl.black hr hrred, rfl⟩
  | black hl hr hrred => cases hred

theorem leaning_fixUp_left {k : κ} {v : α} (hl : Balanced n l)
    (hr : Balanced n r) (hrred : r.isRed = false) :
    Leaning n (node true l k v r).fixUp := by
  rw [fixUp_of_leaning hrred hl.left_left]
  exact ⟨hl, hr, hrred⟩

theorem leaning_fixUp_right {k : κ} {v : α} (hl : Balanced n l)
    (hlred : l.isRed = false) (hr : Balanced n r) :
    Leaning n (node true l k v r).fixUp := by
  cases hr with
  | nil => exact leaning_fixUp_left hl .nil rfl
  | black hrl hrr hred => exact leaning_fixUp_left hl (hrl.black hrr hred) rfl
  | @red n rl rr rk rv hrl hrr hlblack hrblack =>
  have hfix : (node true l k v (node true rl rk rv rr)).fixUp =
      node true (node true l k v rl) rk rv rr := by
    simp [fixUp, rotateLeft, isRed_node, right_node, hlred, hrblack]
  rw [hfix]
  exact ⟨hl.red hrl hlred hlblack, hrr, hrblack⟩

theorem balanced_fixUp_leaning {k : κ} {v : α} (hl : Leaning n l)
    (hr : Balanced n r) (hrred : r.isRed = false) :
    Balanced (n + 1) (node false l k v r).fixUp := by
  cases hl with
  | @mk ll lr lk lv hll hlr hlrred =>
    cases hllred : ll.isRed with
    | false =>
      rw [fixUp_of_leaning hrred (fun _ => by rw [left_node, hllred])]
      exact (hll.red hlr hllred hlrred).black hr hrred
    | true =>
    have hfix : (node false (node true ll lk lv lr) k v r).fixUp =
        node true ll.flip lk lv (node false lr k v r) := by
      simp [fixUp, rotateRight, flipColors, flip, isRed_node, right_node, hrred,
        hllred]
    rw [hfix]
    rcases hll.flip_red hllred with ⟨hflip, hblack⟩
    exact hflip.red (hlr.black hr hrred) hblack rfl

theorem balanced_fixUp_left {k : κ} {v : α} (hl : Balanced n l)
    (hr : Balanced n r) (hrred : r.isRed = false) :
    Balanced (n + 1) (node false l k v r).fixUp := by
  rw [fixUp_of_leaning hrred hl.left_left]
  exact hl.black hr hrred

theorem balanced_fixUp_right {k : κ} {v : α} (hl : Balanced n l)
    (hr : Balanced n r) : Balanced (n + 1) (node false l k v r).fixUp := by
  cases hr with
  | nil => exact balanced_fixUp_left hl .nil rfl
  | black hrl hrr hred => exact balanced_fixUp_left hl (hrl.black hrr hred) rfl
  | @red n rl rr rk rv hrl hrr hlblack hrblack =>
  cases hlred : l.isRed with
  | false =>
    have hfix : (node false l k v (node true rl rk rv rr)).fixUp =
        node false (node true l k v rl) rk rv rr := by
      simp [fixUp, rotateLeft, isRed_node, right_node, hlred, hrblack]
    rw [hfix]
    exact (hl.red hrl hlred hlblack).black hrr hrblack
  | true =>
  have hfix : (node false l k v (node true rl rk rv rr)).fixUp =
      node true l.flip k v (node false rl rk rv rr) := by
    simp [fixUp, flipColors, flip, isRed_node, right_node, hlred,
      hl.left_left hlred]
  rw [hfix]
  rcases hl.flip_red hlred with ⟨hflip, hblack⟩
  exact hflip.red (hrl.black hrr hrblack) hblack rfl

/-- Below a red root two reds may follow each other; the node above repairs it. -/
theorem Balanced.insert_cases [LinearOrder κ] (h : Balanced n l) (key : κ)
    (value : α) :
    (l.isRed = false -> Balanced n (l.insert key value)) ∧
      (l.isRed = true -> Leaning n (l.insert key value)) := by
  induction h with
  | nil => exact ⟨fun _ => nil.red nil rfl rfl, fun hred => by cases hred⟩
  | @red n l r k v hl hr hlred hrred ihl ihr =>
    refine ⟨fun hred => (by cases hred), fun _ => ?_⟩
    unfold RedBlackTree.insert
    cases cmp key k with
    | lt => exact leaning_fixUp_left (ihl.left hlred) hr hrred
    | gt => exact leaning_fixUp_right hl hlred (ihr.left hrred)
    | eq => exact leaning_fixUp_left hl hr hrred
  | @black n l r k v hl hr hrred ihl ihr =>
  refine ⟨fun _ => ?_, fun hred => (by cases hred)⟩
  unfold RedBlackTree.insert
  cases cmp key k with
  | lt =>
    cases hlred : l.isRed with
    | false => exact balanced_fixUp_left (ihl.left hlred) hr hrred
    | true => exact balanced_fixUp_leaning (ihl.right hlred) hr hrred
  | gt => exact balanced_fixUp_right hl (ihr.left hrred)
  | eq => exact balanced_fixUp_left hl hr hrred

end RedBlackTree

end Foundation
end ChimeraMQ
