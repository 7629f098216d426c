import ChimeraMQ.Foundation.SortedEntries

/-!
# Block indexes

The first key of every block of a table with the place of the block in the
file.  A search gives the last block that starts at or before the key, or the
first block.
-/

namespace ChimeraMQ
namespace Warm

open Foundation

def compareKeys : Bytes -> Bytes -> Ordering
  | [], [] => .eq
  | [], _ :: _ => .lt
  | _ :: _, [] => .gt
  | a :: as, b :: bs =>
    if a < b then .lt
    else if b < a then .gt
    else compareKeys as bs

theorem compareKeys_lt_iff (a b : Bytes) :
    compareKeys a b = .lt <-> a < b := by
  induction a generalizing b with
  | nil =>
    cases b with
    | nil => simp [compareKeys]
    | cons y bs => simp [compareKeys]
  | cons x as ih =>
  cases b with
  | nil => simp [compareKeys]
  | cons y bs =>
  rw [compareKeys, List.cons_lt_cons_iff]
  by_cases hlt : x < y
  · simp [hlt]
  by_cases hgt : y < x
  · have hne : x ≠ y := ne_of_gt hgt
    simp [hlt, hgt, hne]
  · have heq : x = y := le_antisymm (not_lt.mp hgt) (not_lt.mp hlt)
    subst heq
    simp [ih]

theorem compareKeys_eq_iff (a b : Bytes) :
    compareKeys a b = .eq <-> a = b := by
  induction a generalizing b with
  | nil =>
    cases b with
    | nil => simp [compareKeys]
    | cons y bs => simp [compareKeys]
  | cons x as ih =>
  cases b with
  | nil => simp [compareKeys]
  | cons y bs =>
  rw [compareKeys]
  by_cases hlt : x < y
  · simp [hlt, ne_of_lt hlt]
  by_cases hgt : y < x
  · simp [hlt, hgt, ne_of_gt hgt]
  · have heq : x = y := le_antisymm (not_lt.mp hgt) (not_lt.mp hlt)
    subst heq
    simp [ih]

theorem compareKeys_gt_iff (a b : Bytes) :
    compareKeys a b = .gt <-> b < a := by
  have hlt := compareKeys_lt_iff a b
  have heq := compareKeys_eq_iff a b
  rcases lt_trichotomy a b with h | h | h
  · simp [hlt.mpr h, List.lt_asymm h]
  · rw [heq.mpr h, h]
    simp
  cases hcmp : compareKeys a b with
  | lt => exact absurd (hlt.mp hcmp) (List.lt_asymm h)
  | eq =>
    rw [heq.mp hcmp] at h
    exact absurd h (List.lt_irrefl _)
  | gt => exact iff_of_true rfl h

structure BlockEntry where
  firstKey : Bytes
  offset : Nat
  length : Nat
deriving DecidableEq

abbrev BlockIndex := List BlockEntry

namespace BlockIndex

def searchLoop (entries : BlockIndex) (key : Bytes) :
    Nat -> Nat -> Nat -> Nat
  | 0, lo, _ => lo
  | k + 1, lo, hi =>
    if lo < hi then
      let mid := lo + (hi - lo + 1) / 2
      match entries[mid]? with
      | none => lo
      | some e =>
        match compareKeys e.firstKey key with
        | .gt => searchLoop entries key k lo (mid - 1)
        | .lt | .eq => searchLoop entries key k mid hi
    else lo

def search (entries : BlockIndex) (key : Bytes) : Option BlockEntry :=
  if entries.length = 0 then none
  else entries[searchLoop entries key entries.length 0 (entries.length - 1)]?

def marshalEntry (e : BlockEntry) : Bytes :=
  be 4 e.firstKey.length ++ e.firstKey ++ be 4 e.offset ++ be 4 e.length

def marshalBinary (entries : BlockIndex) : Bytes :=
  be 4 entries.length ++ entries.flatMap marshalEntry

def readEntries : Nat -> Bytes -> Option BlockIndex
  | 0, _ => some []
  | n + 1, data =>
    if data.length < 4 then none
    else
      let keyLen := ofBe (data.take 4)
      let data := data.drop 4
      if data.length < keyLen + 8 then none
      else
        let e :=
          { firstKey := data.take keyLen
            offset := ofBe ((data.drop keyLen).take 4)
            length := ofBe ((data.drop (keyLen + 4)).take 4) }
        match readEntries n (data.drop (keyLen + 8)) with
        | none => none
        | some rest => some (e :: rest)

def unmarshalBinary (data : Bytes) : Option BlockIndex :=
  if data.length < 4 then none
  else readEntries (ofBe (data.take 4)) (data.drop 4)

/-!
## Searching
-/

theorem searchLoop_lt {entries : BlockIndex} {key : Bytes} {k lo hi : Nat}
    (hlo : lo < entries.length) (hhi : hi < entries.length) :
    searchLoop entries key k lo hi < entries.length := by
  induction k generalizing lo hi with
  | zero => exact hlo
  | succ k ih =>
  unfold searchLoop
  by_cases hlt : lo < hi
  · rw [if_pos hlt]
    have hmid : lo + (hi - lo + 1) / 2 < entries.length := by omega
    simp only [List.getElem?_eq_getElem hmid]
    cases compareKeys entries[lo + (hi - lo + 1) / 2].firstKey key with
    | lt => exact ih hmid hhi
    | eq => exact ih hmid hhi
    | gt => exact ih hlo (by omega)
  · rw [if_neg hlt]
    exact hlo

variable {entries : BlockIndex}

theorem searchLoop_eq {key : Bytes} {c : Nat}
    (hsplit : forall j e, entries[j]? = some e ->
      (j ≤ c <-> compareKeys e.firstKey key ≠ .gt)) {k lo hi : Nat}
    (hlo : lo ≤ c) (hhi : c ≤ hi) (hbound : hi < entries.length)
    (hk : hi - lo ≤ k) :
    searchLoop entries key k lo hi = c := by
  induction k generalizing lo hi with
  | zero =>
    rw [searchLoop]
    omega
  | succ k ih =>
  unfold searchLoop
  by_cases hlt : lo < hi
  · rw [if_pos hlt]
    have hmid : lo + (hi - lo + 1) / 2 < entries.length := by omega
    have hget := List.getElem?_eq_getElem hmid
    have hside := hsplit _ _ hget
    simp only [hget]
    cases hcmp : compareKeys entries[lo + (hi - lo + 1) / 2].firstKey
      key with
    | lt =>
      have hle := hside.mpr (by rw [hcmp]; decide)
      exact ih hle hhi hbound (by omega)
    | eq =>
      have hle := hside.mpr (by rw [hcmp]; decide)
      exact ih hle hhi hbound (by omega)
    | gt =>
    have hnot : ¬ lo + (hi - lo + 1) / 2 ≤ c := by
      intro hle
      exact hside.mp hle hcmp
    exact ih hlo (by omega) (by omega) (by omega)
  · rw [if_neg hlt]
    omega

theorem search_mem {key : Bytes} {e : BlockEntry}
    (h : search entries key = some e) : e ∈ entries := by
  unfold search at h
  by_cases hnil : entries.length = 0
  · rw [if_pos hnil] at h
    cases h
  · rw [if_neg hnil] at h
    exact List.mem_of_getElem? h

theorem search_isSome (hne : entries ≠ []) (key : Bytes) :
    exists e, search entries key = some e := by
  have hpos : 0 < entries.length := List.length_pos_iff.mpr hne
  have hlt := @searchLoop_lt entries key entries.length 0
    (entries.length - 1) hpos (by omega)
  unfold search
  rw [if_neg (Nat.ne_of_gt hpos)]
  exact ⟨_, List.getElem?_eq_getElem hlt⟩

theorem search_eq {key : Bytes} {c : Nat} {e : BlockEntry}
    (hget : entries[c]? = some e) (hsplit : forall j e, entries[j]? = some e ->
      (j ≤ c <-> compareKeys e.firstKey key ≠ .gt)) :
    search entries key = some e := by
  have hlt := (List.getElem?_eq_some_iff.mp hget).1
  unfold search
  rw [if_neg (by omega), searchLoop_eq hsplit (Nat.zero_le c) (by omega)
    (by omega) (by omega), hget]

/-!
## Reading back
-/

structure Fits (e : BlockEntry) : Prop where
  key : e.firstKey.length < 2 ^ 32
  offset : e.offset < 2 ^ 32
  length : e.length < 2 ^ 32

theorem readEntries_flatMap (hfits : forall e, e ∈ entries -> Fits e)
    (rest : Bytes) :
    readEntries entries.length (entries.flatMap marshalEntry ++ rest) =
      some entries := by
  induction entries with
  | nil => rfl
  | cons e entries ih =>
  have he := hfits e (List.mem_cons_self ..)
  have hshape : (e :: entries).flatMap marshalEntry ++ rest =
      be 4 e.firstKey.length ++ (e.firstKey ++ (be 4 e.offset ++
        (be 4 e.length ++ (entries.flatMap marshalEntry ++ rest)))) := by
    simp [marshalEntry]
  have hkeyLen : ofBe (be 4 e.firstKey.length) = e.firstKey.length :=
    ofBe_be_of_lt he.key
  rw [hshape, List.length_cons, readEntries]
  simp only [List.take_left' (length_be 4 e.firstKey.length),
    List.drop_left' (length_be 4 e.firstKey.length), hkeyLen]
  have hlong : ¬ (be 4 e.firstKey.length ++ (e.firstKey ++
      (be 4 e.offset ++ (be 4 e.length ++
        (entries.flatMap marshalEntry ++ rest))))).length < 4 := by
    simp
  have hroom : ¬ (e.firstKey ++ (be 4 e.offset ++ (be 4 e.length ++
      (entries.flatMap marshalEntry ++ rest)))).length <
      e.firstKey.length + 8 := by
    simp only [List.length_append, length_be]
    omega
  have hoffset : (e.firstKey ++ (be 4 e.offset ++ (be 4 e.length ++
      (entries.flatMap marshalEntry ++ rest)))).drop
      e.firstKey.length = be 4 e.offset ++ (be 4 e.length ++
        (entries.flatMap marshalEntry ++ rest)) :=
    List.drop_left' rfl
  have hlength : (e.firstKey ++ (be 4 e.offset ++ (be 4 e.length ++
      (entries.flatMap marshalEntry ++ rest)))).drop
      (e.firstKey.length + 4) = be 4 e.length ++
        (entries.flatMap marshalEntry ++ rest) := by
    rw [← List.drop_drop, hoffset]
    exact List.drop_left' (length_be 4 _)
  have hrest : (e.firstKey ++ (be 4 e.offset ++ (be 4 e.length ++
      (entries.flatMap marshalEntry ++ rest)))).drop
      (e.firstKey.length + 8) = entries.flatMap marshalEntry ++ rest := by
    have hsum : e.firstKey.length + 8 = e.firstKey.length + 4 + 4 := by
      omega
    rw [hsum, ← List.drop_drop, hlength]
    exact List.drop_left' (length_be 4 _)
  rw [if_neg hlong, if_neg hroom, hoffset, hlength, hrest,
    ih (fun x hx => hfits x (List.mem_cons_of_mem e hx)),
    List.take_left' rfl, List.take_left' (length_be 4 _),
    List.take_left' (length_be 4 _), ofBe_be_of_lt he.offset,
    ofBe_be_of_lt he.length]

theorem unmarshalBinary_marshalBinary (hcount : entries.length < 2 ^ 32)
    (hfits : forall e, e ∈ entries -> Fits e) :
    unmarshalBinary (marshalBinary entries) = some entries := by
  have hread := readEntries_flatMap hfits []
  rw [List.append_nil] at hread
  have hlong : ¬ (marshalBinary entries).length < 4 := by
    rw [marshalBinary, List.length_append, length_be]
    omega
  unfold unmarshalBinary
  rw [if_neg hlong, marshalBinary, List.take_left' (length_be 4 _),
    List.drop_left' (length_be 4 _), ofBe_be_of_lt hcount, hread]

end BlockIndex

end Warm
end ChimeraMQ
