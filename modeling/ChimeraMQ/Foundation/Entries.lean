import Mathlib.Data.List.Perm.Basic

/-!
# Maps as lists of entries

A map is a list of keys with their values.  Setting a key replaces its value or
adds it at the end; a loop over the map sees the entries in an order that it
does not choose.
-/

namespace ChimeraMQ
namespace Foundation

variable {κ α : Type} [DecidableEq κ]

def getEntry (k : κ) (entries : List (κ × α)) : Option α :=
  (entries.find? (fun e => e.1 = k)).map Prod.snd

def setEntry (k : κ) (v : α) : List (κ × α) -> List (κ × α)
  | [] => [(k, v)]
  | e :: rest => if e.1 = k then (k, v) :: rest else e :: setEntry k v rest

def deleteEntry (k : κ) (entries : List (κ × α)) : List (κ × α) :=
  entries.filter (fun e => e.1 ≠ k)

structure MapOrder (ε : Type) where
  order : List ε -> List ε
  perm : forall entries, (order entries).Perm entries

def MapOrder.listed (ε : Type) : MapOrder ε where
  order := id
  perm := List.Perm.refl

def MapOrder.first {ε : Type} [DecidableEq ε] (x : ε) : MapOrder ε where
  order := fun entries =>
    if x ∈ entries then x :: entries.erase x else entries
  perm := by
    intro entries
    by_cases hx : x ∈ entries
    · rw [if_pos hx]
      exact (List.perm_cons_erase hx).symm
    · rw [if_neg hx]

theorem MapOrder.first_order {ε : Type} [DecidableEq ε] {x : ε}
    {entries : List ε} (hx : x ∈ entries) :
    (MapOrder.first x).order entries = x :: entries.erase x :=
  if_pos hx

theorem exists_order_findSome? {ε β : Type} [DecidableEq ε]
    (f : ε -> Option β) (entries : List ε) (r : Option β) :
    (exists order : MapOrder ε, (order.order entries).findSome? f = r) <->
      (r = none ∧ entries.filterMap f = []) ∨
        exists b, b ∈ entries.filterMap f ∧ r = some b := by
  constructor
  · rintro ⟨order, hfind⟩
    have hperm := order.perm entries
    cases r with
    | none =>
      left
      refine ⟨rfl, List.filterMap_eq_nil_iff.mpr ?_⟩
      intro x hx
      exact List.findSome?_eq_none_iff.mp hfind x (hperm.mem_iff.mpr hx)
    | some b =>
    rcases List.exists_of_findSome?_eq_some hfind with ⟨x, hx, hfx⟩
    exact Or.inr ⟨b, List.mem_filterMap.mpr
      ⟨x, hperm.mem_iff.mp hx, hfx⟩, rfl⟩
  · rintro (⟨hnone, hempty⟩ | ⟨b, hb, hr⟩)
    · refine ⟨MapOrder.listed ε, ?_⟩
      rw [hnone]
      exact List.findSome?_eq_none_iff.mpr (List.filterMap_eq_nil_iff.mp hempty)
    · rcases List.mem_filterMap.mp hb with ⟨x, hx, hfx⟩
      refine ⟨MapOrder.first x, ?_⟩
      rw [MapOrder.first_order hx, List.findSome?_cons, hfx, hr]

theorem getEntry_setEntry (k : κ) (v : α) (entries : List (κ × α)) :
    getEntry k (setEntry k v entries) = some v := by
  induction entries with
  | nil => simp [getEntry, setEntry]
  | cons e rest ih =>
  unfold setEntry
  by_cases he : e.1 = k
  · rw [if_pos he]
    simp [getEntry]
  rw [if_neg he]
  unfold getEntry at ih ⊢
  rw [List.find?_cons_of_neg (by simpa using he)]
  exact ih

variable {k : κ}

theorem getEntry_setEntry_ne {j : κ} (hne : j ≠ k) (v : α)
    (entries : List (κ × α)) :
    getEntry j (setEntry k v entries) = getEntry j entries := by
  induction entries with
  | nil => simp [getEntry, setEntry, hne.symm]
  | cons e rest ih =>
  unfold setEntry
  by_cases he : e.1 = k
  · have hej : e.1 ≠ j := by
      rw [he]
      exact hne.symm
    rw [if_pos he]
    simp [getEntry, hne.symm, hej]
  rw [if_neg he]
  unfold getEntry at ih ⊢
  by_cases hej : e.1 = j
  · simp [hej]
  · rw [List.find?_cons_of_neg (by simpa using hej),
      List.find?_cons_of_neg (by simpa using hej)]
    exact ih

theorem getEntry_cons_self (k : κ) (v : α) (rest : List (κ × α)) :
    getEntry k ((k, v) :: rest) = some v := by
  simp [getEntry]

variable {e : κ × α}

theorem getEntry_cons_ne (hne : e.1 ≠ k) (rest : List (κ × α)) :
    getEntry k (e :: rest) = getEntry k rest := by
  simp [getEntry, hne]

variable {entries : List (κ × α)}

theorem getEntry_of_not_mem (h : k ∉ entries.map Prod.fst) :
    getEntry k entries = none := by
  unfold getEntry
  rw [Option.map_eq_none_iff, List.find?_eq_none]
  intro e he hk
  exact h (List.mem_map.mpr ⟨e, he, by simpa using hk⟩)

theorem getEntry_map {β : Type} (k : κ) (f : κ -> α -> β)
    (entries : List (κ × α)) :
    getEntry k (entries.map (fun e => (e.1, f e.1 e.2))) =
      (getEntry k entries).map (f k) := by
  induction entries with
  | nil => rfl
  | cons e rest ih =>
  rw [List.map_cons]
  by_cases hkey : e.1 = k
  · subst hkey
    rw [getEntry_cons_self]
    exact (congrArg (Option.map (f e.1))
      (getEntry_cons_self e.1 e.2 rest)).symm
  · rw [getEntry_cons_ne hkey, ← ih]
    exact getEntry_cons_ne (by exact hkey) _

theorem map_setEntry {β : Type} (k : κ) (v : α) (f : α -> β)
    (entries : List (κ × α)) :
    (setEntry k v entries).map (fun e => (e.1, f e.2)) =
      setEntry k (f v) (entries.map (fun e => (e.1, f e.2))) := by
  induction entries with
  | nil => rfl
  | cons e rest ih =>
  rw [setEntry, List.map_cons, setEntry]
  by_cases he : e.1 = k
  · rw [if_pos he, if_pos he]
    rfl
  · rw [if_neg he, if_neg he, List.map_cons, ih]

variable {v : α}

theorem filter_values_setEntry {p : α -> Bool} (hv : p v = false)
    (hk : forall e, e ∈ entries -> e.1 = k -> p e.2 = false) :
    ((setEntry k v entries).map Prod.snd).filter p =
      (entries.map Prod.snd).filter p := by
  induction entries with
  | nil => simp [setEntry, hv]
  | cons e rest ih =>
  rw [setEntry]
  by_cases he : e.1 = k
  · have hold := hk e List.mem_cons_self he
    rw [if_pos he]
    simp [hv, hold]
  · have hrest := ih (fun x hx => hk x (List.mem_cons_of_mem e hx))
    rw [if_neg he, List.map_cons, List.filter_cons, hrest, List.map_cons,
      List.filter_cons]

theorem setEntry_of_not_mem (v : α) (hnew : k ∉ entries.map Prod.fst) :
    setEntry k v entries = entries ++ [(k, v)] := by
  induction entries with
  | nil => rfl
  | cons e rest ih =>
  rw [List.map_cons, List.mem_cons, not_or] at hnew
  rw [setEntry, if_neg (Ne.symm hnew.left), ih hnew.right,
    List.cons_append]

theorem setEntry_of_getEntry (h : getEntry k entries = some v) :
    setEntry k v entries = entries := by
  induction entries with
  | nil => cases h
  | cons e rest ih =>
  unfold setEntry
  by_cases he : e.1 = k
  · rw [← he, getEntry_cons_self, Option.some.injEq] at h
    rw [if_pos he, ← he, ← h]
  · rw [getEntry_cons_ne he] at h
    rw [if_neg he, ih h]

theorem length_setEntry_le (k : κ) (v : α) (entries : List (κ × α)) :
    (setEntry k v entries).length ≤ entries.length + 1 := by
  induction entries with
  | nil => exact Nat.le_refl _
  | cons e rest ih =>
  unfold setEntry
  by_cases he : e.1 = k
  · rw [if_pos he]
    exact Nat.le_succ _
  · rw [if_neg he]
    exact Nat.succ_le_succ ih

theorem length_setEntry_of_getEntry {w : α} (h : getEntry k entries = some w) :
    (setEntry k v entries).length = entries.length := by
  induction entries with
  | nil => cases h
  | cons e rest ih =>
  unfold setEntry
  by_cases he : e.1 = k
  · rw [if_pos he]
    rfl
  rw [if_neg he]
  unfold getEntry at h ih
  rw [List.find?_cons_of_neg (by simpa using he)] at h
  exact congrArg Nat.succ (ih h)

theorem length_deleteEntry_lt (h : k ∈ entries.map Prod.fst) :
    (deleteEntry k entries).length < entries.length := by
  rcases List.mem_map.mp h with ⟨e, he, hk⟩
  apply List.length_filter_lt_length_iff_exists.mpr
  exact ⟨e, he, by simpa using hk⟩

theorem mem_setEntry (h : e ∈ setEntry k v entries) :
    e = (k, v) ∨ e ∈ entries := by
  induction entries with
  | nil => exact Or.inl (List.mem_singleton.mp h)
  | cons x rest ih =>
  unfold setEntry at h
  by_cases hx : x.1 = k
  · rw [if_pos hx] at h
    rcases List.mem_cons.mp h with hfirst | hother
    · exact Or.inl hfirst
    · exact Or.inr (List.mem_cons_of_mem _ hother)
  rw [if_neg hx] at h
  rcases List.mem_cons.mp h with hfirst | hother
  · rw [hfirst]
    exact Or.inr (List.mem_cons_self ..)
  · rcases ih hother with hnew | hold
    · exact Or.inl hnew
    · exact Or.inr (List.mem_cons_of_mem _ hold)

theorem mem_keys_setEntry {x : κ} :
    x ∈ (setEntry k v entries).map Prod.fst <->
      x = k ∨ x ∈ entries.map Prod.fst := by
  induction entries with
  | nil => simp [setEntry]
  | cons e rest ih =>
  unfold setEntry
  by_cases he : e.1 = k
  · rw [if_pos he, List.map_cons, List.map_cons, he]
    simp
  · rw [if_neg he, List.map_cons, List.mem_cons, ih, List.map_cons,
      List.mem_cons]
    exact or_left_comm

theorem nodup_keys_setEntry (h : (entries.map Prod.fst).Nodup) :
    ((setEntry k v entries).map Prod.fst).Nodup := by
  induction entries with
  | nil => simp [setEntry]
  | cons e rest ih =>
  rw [List.map_cons, List.nodup_cons] at h
  unfold setEntry
  by_cases he : e.1 = k
  · rw [if_pos he, List.map_cons, ← he]
    exact List.nodup_cons.mpr h
  rw [if_neg he, List.map_cons]
  apply List.nodup_cons.mpr
  refine ⟨?_, ih h.right⟩
  intro hmem
  rcases mem_keys_setEntry.mp hmem with heq | hold
  · exact he heq
  · exact h.left hold

/-!
## Keys and values
-/

theorem getEntry_eq_none_iff :
    getEntry k entries = none <-> k ∉ entries.map Prod.fst := by
  constructor
  · intro hnone hmem
    rcases List.mem_map.mp hmem with ⟨e, he, hk⟩
    unfold getEntry at hnone
    rw [Option.map_eq_none_iff, List.find?_eq_none] at hnone
    exact hnone e he (by simpa using hk)
  · exact getEntry_of_not_mem

theorem map_fst_setEntry (k : κ) (v : α) (entries : List (κ × α)) :
    (setEntry k v entries).map Prod.fst =
      if k ∈ entries.map Prod.fst then entries.map Prod.fst
      else entries.map Prod.fst ++ [k] := by
  induction entries with
  | nil => rfl
  | cons e rest ih =>
  unfold setEntry
  by_cases he : e.1 = k
  · rw [if_pos he, if_pos (by rw [← he]; exact List.mem_cons_self ..)]
    rw [List.map_cons, List.map_cons, he]
  have hmem : k ∈ (e :: rest).map Prod.fst <->
      k ∈ rest.map Prod.fst := by
    rw [List.map_cons, List.mem_cons]
    exact ⟨fun h => h.resolve_left (Ne.symm he), Or.inr⟩
  rw [if_neg he, List.map_cons, ih]
  by_cases hin : k ∈ rest.map Prod.fst
  · rw [if_pos hin, if_pos (hmem.mpr hin)]
    rfl
  · rw [if_neg hin, if_neg (fun h => hin (hmem.mp h))]
    rfl

theorem map_fst_deleteEntry (k : κ) (entries : List (κ × α)) :
    (deleteEntry k entries).map Prod.fst =
      (entries.map Prod.fst).filter (fun x => x ≠ k) := by
  rw [deleteEntry, List.filter_map]
  rfl

theorem deleteEntry_of_not_mem (h : k ∉ entries.map Prod.fst) :
    deleteEntry k entries = entries := by
  apply List.filter_eq_self.mpr
  intro e he
  simp only [decide_eq_true_eq]
  intro hk
  exact h (List.mem_map.mpr ⟨e, he, hk⟩)

theorem perm_deleteEntry (hnodup : (entries.map Prod.fst).Nodup) :
    ((getEntry k entries).toList ++
      (deleteEntry k entries).map Prod.snd).Perm (entries.map Prod.snd) := by
  induction entries with
  | nil => exact List.Perm.refl _
  | cons e rest ih =>
  rw [List.map_cons, List.nodup_cons] at hnodup
  by_cases he : e.1 = k
  · have hrest : k ∉ rest.map Prod.fst := by
      rw [← he]
      exact hnodup.left
    have hdelete : deleteEntry k (e :: rest) = rest := by
      rw [deleteEntry, List.filter_cons_of_neg (by simpa using he)]
      exact deleteEntry_of_not_mem hrest
    rw [hdelete, getEntry, List.find?_cons_of_pos (by simpa using he)]
    exact List.Perm.refl _
  · have hdelete : deleteEntry k (e :: rest) =
        e :: deleteEntry k rest := by
      rw [deleteEntry, List.filter_cons_of_pos (by simpa using he)]
      rfl
    rw [hdelete, getEntry_cons_ne he, List.map_cons, List.map_cons]
    exact List.perm_middle.trans ((ih hnodup.right).cons e.2)

theorem perm_entries_setEntry (k : κ) (v : α) (entries : List (κ × α)) :
    (((getEntry k entries).map (fun w => (k, w))).toList ++
      setEntry k v entries).Perm ((k, v) :: entries) := by
  induction entries with
  | nil => exact List.Perm.refl _
  | cons e rest ih =>
  unfold setEntry
  by_cases he : e.1 = k
  · rw [if_pos he, getEntry, List.find?_cons_of_pos (by simpa using he),
      ← he]
    exact List.Perm.swap (e.1, v) e rest
  · rw [if_neg he, getEntry_cons_ne he]
    exact (List.perm_middle.trans (ih.cons e)).trans
      (List.Perm.swap (k, v) e rest)

theorem perm_setEntry (k : κ) (v : α) (entries : List (κ × α)) :
    ((getEntry k entries).toList ++
      (setEntry k v entries).map Prod.snd).Perm
        (v :: entries.map Prod.snd) := by
  have hperm := (perm_entries_setEntry k v entries).map Prod.snd
  have hold : ((getEntry k entries).map (fun w => (k, w))).toList.map
      Prod.snd = (getEntry k entries).toList := by
    cases getEntry k entries with
    | none => rfl
    | some w => rfl
  rw [List.map_append, hold] at hperm
  exact hperm

theorem getEntry_of_mem (hkeys : (entries.map Prod.fst).Nodup)
    (he : e ∈ entries) : getEntry e.1 entries = some e.2 := by
  induction entries with
  | nil => cases he
  | cons x entries ih =>
  rw [List.map_cons, List.nodup_cons] at hkeys
  rcases List.mem_cons.mp he with hex | hrest
  · rw [hex]
    exact getEntry_cons_self x.1 x.2 entries
  have hne : x.1 ≠ e.1 := by
    intro heq
    apply hkeys.left
    rw [heq]
    exact List.mem_map_of_mem hrest
  rw [getEntry_cons_ne hne]
  exact ih hkeys.right hrest

theorem mem_of_getEntry (h : getEntry k entries = some v) :
    (k, v) ∈ entries := by
  unfold getEntry at h
  rcases Option.map_eq_some_iff.mp h with ⟨e, he, hv⟩
  have hk : e.1 = k := by
    simpa using List.find?_some he
  rw [← hk, ← hv]
  exact List.mem_of_find?_eq_some he

theorem getEntry_perm {xs ys : List (κ × α)}
    (hperm : xs.Perm ys) (hkeys : (ys.map Prod.fst).Nodup) (k : κ) :
    getEntry k xs = getEntry k ys := by
  have hxs : (xs.map Prod.fst).Nodup := (hperm.map Prod.fst).nodup_iff.mpr hkeys
  cases hget : getEntry k ys with
  | some r =>
    exact getEntry_of_mem hxs (hperm.mem_iff.mpr (mem_of_getEntry hget))
  | none =>
  cases hgetx : getEntry k xs with
  | none => rfl
  | some r =>
  have hmem := hperm.mem_iff.mp (mem_of_getEntry hgetx)
  rw [getEntry_of_mem hkeys hmem] at hget
  cases hget

theorem getEntry_eq_some_iff (hkeys : (entries.map Prod.fst).Nodup) :
    getEntry k entries = some v <-> (k, v) ∈ entries := by
  constructor
  · exact mem_of_getEntry
  · intro hmem
    exact getEntry_of_mem hkeys hmem

theorem mem_setEntry_iff (hkeys : (entries.map Prod.fst).Nodup) {j : κ} {w : α} :
    (j, w) ∈ setEntry k v entries <->
      j = k ∧ w = v ∨ j ≠ k ∧ (j, w) ∈ entries := by
  rw [← getEntry_eq_some_iff (nodup_keys_setEntry hkeys)]
  by_cases hj : j = k
  · rw [hj, getEntry_setEntry, Option.some.injEq]
    constructor
    · intro hv
      exact Or.inl ⟨rfl, hv.symm⟩
    intro h
    rcases h with ⟨_, hw⟩ | ⟨hne, _⟩
    · exact hw.symm
    · exact absurd rfl hne
  rw [getEntry_setEntry_ne hj, getEntry_eq_some_iff hkeys]
  constructor
  · intro hmem
    exact Or.inr ⟨hj, hmem⟩
  intro h
  rcases h with ⟨heq, _⟩ | ⟨_, hmem⟩
  · exact absurd heq hj
  · exact hmem

theorem mem_deleteEntry :
    e ∈ deleteEntry k entries <-> e ∈ entries ∧ e.1 ≠ k := by
  rw [deleteEntry, List.mem_filter, decide_eq_true_eq]

theorem getEntry_filter_of_some (h : getEntry k entries = some v)
    {p : κ × α -> Bool} (hp : p (k, v) = true) :
    getEntry k (entries.filter p) = some v := by
  induction entries with
  | nil => cases h
  | cons e rest ih =>
  by_cases he : e.1 = k
  · subst he
    have hv : e.2 = v :=
      Option.some.inj ((getEntry_cons_self e.1 e.2 rest).symm.trans h)
    rw [← hv] at hp ⊢
    rw [List.filter_cons_of_pos hp]
    exact getEntry_cons_self e.1 e.2 _
  rw [getEntry_cons_ne he] at h
  by_cases hkeep : p e = true
  · rw [List.filter_cons_of_pos hkeep, getEntry_cons_ne he]
    exact ih h
  · rw [List.filter_cons_of_neg hkeep]
    exact ih h

theorem getEntry_filter_of_none (h : getEntry k entries = none)
    (p : κ × α -> Bool) :
    getEntry k (entries.filter p) = none := by
  rw [getEntry_eq_none_iff] at h ⊢
  intro hmem
  exact h ((List.filter_sublist.map Prod.fst).subset hmem)

@[simp] theorem getEntry_deleteEntry (k : κ) (entries : List (κ × α)) :
    getEntry k (deleteEntry k entries) = none := by
  apply getEntry_of_not_mem
  intro hk
  rcases List.mem_map.mp hk with ⟨e, he, hek⟩
  exact (mem_deleteEntry.mp he).right hek

theorem getEntry_deleteEntry_ne {j : κ} (hne : j ≠ k) (entries : List (κ × α)) :
    getEntry j (deleteEntry k entries) = getEntry j entries := by
  unfold getEntry deleteEntry
  rw [List.find?_filter]
  refine congrArg (fun p => Option.map Prod.snd (List.find? p entries)) ?_
  funext e
  by_cases he : e.1 = j
  · simp [he, hne]
  · simp [he]

theorem getEntry_append (k : κ) (xs ys : List (κ × α)) :
    getEntry k (xs ++ ys) = (getEntry k xs).or (getEntry k ys) := by
  unfold getEntry
  rw [List.find?_append]
  cases xs.find? (fun e => e.1 = k) with
  | none => rfl
  | some e => rfl

theorem nodup_keys_foldl_setEntry (found : List (κ × α))
    (hkeys : (entries.map Prod.fst).Nodup) :
    ((found.foldl (fun m e => setEntry e.1 e.2 m) entries).map
      Prod.fst).Nodup := by
  induction found generalizing entries with
  | nil => exact hkeys
  | cons e found ih => exact ih (nodup_keys_setEntry hkeys)

theorem mem_foldl_setEntry {found : List (κ × α)} {x : κ × α}
    (hx : x ∈ found.foldl (fun m e => setEntry e.1 e.2 m) entries) :
    x ∈ found ∨ x ∈ entries := by
  induction found generalizing entries with
  | nil => exact Or.inr hx
  | cons e found ih =>
  rcases ih hx with hlater | hset
  · exact Or.inl (List.mem_cons_of_mem e hlater)
  rcases mem_setEntry hset with hnew | hold
  · rw [hnew]
    exact Or.inl (List.mem_cons_self ..)
  · exact Or.inr hold

theorem getEntry_foldl_setEntry {β : Type} (g : β -> α)
    {found : List (κ × β)} (hkeys : (found.map Prod.fst).Nodup) (k : κ)
    (entries : List (κ × α)) :
    getEntry k (found.foldl (fun m e => setEntry e.1 (g e.2) m) entries) =
      ((getEntry k found).map g).or (getEntry k entries) := by
  induction found generalizing entries with
  | nil => rfl
  | cons e found ih =>
  rw [List.map_cons, List.nodup_cons] at hkeys
  rw [List.foldl_cons, ih hkeys.right]
  by_cases hkey : e.1 = k
  · subst hkey
    have hfirst : getEntry e.1 (e :: found) = some e.2 :=
      getEntry_cons_self e.1 e.2 found
    rw [getEntry_of_not_mem hkeys.left, hfirst, getEntry_setEntry]
    rfl
  · rw [getEntry_setEntry_ne (Ne.symm hkey), getEntry_cons_ne hkey]

end Foundation
end ChimeraMQ
