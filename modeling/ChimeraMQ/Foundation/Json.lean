import ChimeraMQ.Foundation.JsonText
import ChimeraMQ.Foundation.SortedEntries
import Mathlib.Algebra.Order.BigOperators.Group.List
import Mathlib.Tactic.Convert

/-!
# JSON values

The values that a decoder of JSON gives.  A number is a finite floating-point
number of 64 bits, a string is valid UTF-8, and an object is a map, whose
entries are listed in the order of their keys.
-/

namespace ChimeraMQ
namespace Foundation

/-- A floating-point number of 64 bits that is neither infinite nor NaN. -/
structure Double where
  bits : UInt64
  finite : bits.toNat / 2 ^ 52 % 2048 ≠ 2047
deriving DecidableEq

namespace Double

/-- Every finite number is a multiple of the smallest positive one. -/
def units (x : Double) : Int :=
  let exponent := x.bits.toNat / 2 ^ 52 % 2048
  let fraction := x.bits.toNat % 2 ^ 52
  let magnitude : Nat :=
    if exponent = 0 then fraction
    else (2 ^ 52 + fraction) * 2 ^ (exponent - 1)
  if x.bits.toNat < 2 ^ 63 then magnitude else -magnitude

def one : Int := 2 ^ 1074

def IsInteger (x : Double) : Prop :=
  x.units % one = 0

instance : DecidablePred IsInteger :=
  fun x => inferInstanceAs (Decidable (x.units % one = 0))

end Double

/-!
## Values
-/

inductive Json where
  | null
  | bool (b : Bool)
  | num (x : Double)
  | str (s : Bytes)
  | arr (l : List Json)
  | obj (o : List (Bytes × Json))

abbrev Fields := List (Bytes × Json)

namespace Json

mutual

def same : Json -> Json -> Bool
  | .null, .null => true
  | .bool a, .bool b => a = b
  | .num x, .num y => x = y
  | .str s, .str t => s = t
  | .arr l, .arr m => sameItems l m
  | .obj o, .obj p => sameFields o p
  | _, _ => false

def sameItems : List Json -> List Json -> Bool
  | [], [] => true
  | v :: l, w :: m => same v w && sameItems l m
  | _, _ => false

def sameFields : Fields -> Fields -> Bool
  | [], [] => true
  | (k, v) :: o, (j, w) :: p => k = j && same v w && sameFields o p
  | _, _ => false

end

mutual

theorem same_iff (v w : Json) : same v w = true <-> v = w := by
  cases v <;> cases w <;> simp [same]
  case arr.arr l m => exact sameItems_iff l m
  case obj.obj o p => exact sameFields_iff o p

theorem sameItems_iff (l m : List Json) : sameItems l m = true <-> l = m := by
  cases l with
  | nil => cases m <;> simp [sameItems]
  | cons v l =>
  cases m with
  | nil => simp [sameItems]
  | cons w m => simp [sameItems, same_iff v w, sameItems_iff l m]

theorem sameFields_iff (o p : Fields) : sameFields o p = true <-> o = p := by
  cases o with
  | nil => cases p <;> simp [sameFields]
  | cons e o =>
  rcases e with ⟨k, v⟩
  cases p with
  | nil => simp [sameFields]
  | cons f p =>
  rcases f with ⟨j, w⟩
  simp [sameFields, same_iff v w, sameFields_iff o p]

end

instance : DecidableEq Json :=
  fun v w => decidable_of_iff _ (same_iff v w)

/-- A value that a decoder gives. -/
inductive Proper : Json -> Prop where
  | null : Proper .null
  | bool (b : Bool) : Proper (.bool b)
  | num (x : Double) : Proper (.num x)
  | str {s : Bytes} (h : ValidUtf8 s) : Proper (.str s)
  | arr {l : List Json} (h : forall v, v ∈ l -> Proper v) : Proper (.arr l)
  | obj {o : Fields} (hsorted : SortedEntries o)
      (hkeys : forall e, e ∈ o -> ValidUtf8 e.1)
      (h : forall e, e ∈ o -> Proper e.2) : Proper (.obj o)

instance (o : Fields) : Decidable (SortedEntries o) :=
  inferInstanceAs (Decidable (o.Pairwise (fun a b => a.1 < b.1)))

mutual

def isProper : Json -> Bool
  | .null => true
  | .bool _ => true
  | .num _ => true
  | .str s => decide (ValidUtf8 s)
  | .arr l => areProper l
  | .obj o => decide (SortedEntries o) && fieldsProper o

def areProper : List Json -> Bool
  | [] => true
  | v :: l => isProper v && areProper l

def fieldsProper : Fields -> Bool
  | [] => true
  | (k, v) :: o => decide (ValidUtf8 k) && isProper v && fieldsProper o

end

mutual

theorem isProper_iff (v : Json) : isProper v = true <-> v.Proper := by
  cases v with
  | null => exact ⟨fun _ => .null, fun _ => rfl⟩
  | bool b => exact ⟨fun _ => .bool b, fun _ => rfl⟩
  | num x => exact ⟨fun _ => .num x, fun _ => rfl⟩
  | str s =>
    constructor
    · intro h
      exact .str (of_decide_eq_true h)
    · intro h
      cases h with
      | str hs => exact decide_eq_true hs
  | arr l =>
    constructor
    · intro h
      exact .arr ((areProper_iff l).mp h)
    · intro h
      cases h with
      | arr hl => exact (areProper_iff l).mpr hl
  | obj o =>
  have hfields := fieldsProper_iff o
  constructor
  · intro h
    rcases Bool.and_eq_true_iff.mp h with ⟨hsorted, hall⟩
    exact .obj (of_decide_eq_true hsorted)
      (fun e he => (hfields.mp hall e he).left)
      (fun e he => (hfields.mp hall e he).right)
  intro h
  cases h with
  | obj hsorted hkeys hvalues =>
    apply Bool.and_eq_true_iff.mpr
    exact ⟨decide_eq_true hsorted, hfields.mpr
      (fun e he => ⟨hkeys e he, hvalues e he⟩)⟩

theorem areProper_iff (l : List Json) :
    areProper l = true <-> forall v, v ∈ l -> v.Proper := by
  cases l with
  | nil => simp [areProper]
  | cons v l => simp [areProper, isProper_iff v, areProper_iff l]

theorem fieldsProper_iff (o : Fields) :
    fieldsProper o = true <->
      forall e, e ∈ o -> ValidUtf8 e.1 ∧ e.2.Proper := by
  cases o with
  | nil => simp [fieldsProper]
  | cons e o =>
  rcases e with ⟨k, v⟩
  rw [fieldsProper, Bool.and_eq_true, Bool.and_eq_true, decide_eq_true_eq,
    isProper_iff v, fieldsProper_iff o, List.forall_mem_cons]

end

instance : DecidablePred Proper :=
  fun v => decidable_of_iff _ (isProper_iff v)

/-- A value that is decoded into a map; null leaves the map empty. -/
def fields : Json -> Option Fields
  | .null => some []
  | .obj o => some o
  | _ => none

theorem Proper.fields {v : Json} (h : v.Proper) {o : Fields}
    (ho : v.fields = some o) : (Json.obj o).Proper := by
  cases v with
  | null =>
    cases ho
    exact Proper.obj List.Pairwise.nil (by simp) (by simp)
  | obj p =>
    cases ho
    exact h
  | bool b => cases ho
  | num x => cases ho
  | str s => cases ho
  | arr l => cases ho

def asObject : Json -> Option Fields
  | .obj o => some o
  | _ => none

theorem eq_of_asObject {v : Json} {o : Fields} (h : v.asObject = some o) :
    v = .obj o := by
  cases v with
  | obj p => exact congrArg Json.obj (Option.some.inj h)
  | null => cases h
  | bool b => cases h
  | num x => cases h
  | str s => cases h
  | arr l => cases h

def length : Json -> Nat
  | .arr l => l.length
  | _ => 0

/-!
## Objects
-/

theorem Proper.sorted {o : Fields} (h : (Json.obj o).Proper) :
    SortedEntries o := by
  cases h with
  | obj hsorted hkeys h => exact hsorted

theorem Proper.key {o : Fields} (h : (Json.obj o).Proper) {e : Bytes × Json}
    (he : e ∈ o) : ValidUtf8 e.1 := by
  cases h with
  | obj hsorted hkeys h => exact hkeys e he

theorem Proper.value {o : Fields} (h : (Json.obj o).Proper) {e : Bytes × Json}
    (he : e ∈ o) : e.2.Proper := by
  cases h with
  | obj hsorted hkeys h => exact h e he

theorem Proper.item {l : List Json} (h : (Json.arr l).Proper) {v : Json}
    (hv : v ∈ l) : v.Proper := by
  cases h with
  | arr h => exact h v hv

theorem Proper.getEntry {o : Fields} (h : (Json.obj o).Proper) {k : Bytes}
    {v : Json} (hget : getEntry k o = some v) : v.Proper :=
  h.value (mem_of_getEntry hget)

theorem nodup_keys_of_sorted {o : Fields} (h : SortedEntries o) :
    (o.map Prod.fst).Nodup := by
  apply List.Pairwise.map Prod.fst _ h
  intro a b hlt
  exact ne_of_lt hlt

theorem Proper.nodup_keys {o : Fields} (h : (Json.obj o).Proper) :
    (o.map Prod.fst).Nodup :=
  nodup_keys_of_sorted h.sorted

theorem getEntry_set {o : Fields} (h : SortedEntries o) (k j : Bytes)
    (v : Json) :
    Foundation.getEntry j (insertSorted k v o) =
      if j = k then some v else Foundation.getEntry j o := by
  -- names are compared here without the order of the keys
  convert getEntry_insertSorted h k j v

theorem mem_set {o : Fields} (h : SortedEntries o) {k : Bytes} {v : Json}
    {e : Bytes × Json} (he : e ∈ insertSorted k v o) :
    e = (k, v) ∨ e ∈ o := by
  have hget := getEntry_of_mem
    (nodup_keys_of_sorted (h.insertSorted k v)) he
  rw [getEntry_set h] at hget
  split at hget
  · rename_i hkey
    left
    exact Prod.ext hkey (Option.some.inj hget).symm
  · right
    exact mem_of_getEntry hget

theorem Proper.set {o : Fields} (h : (Json.obj o).Proper) {k : Bytes}
    (hk : ValidUtf8 k) {v : Json} (hv : v.Proper) :
    (Json.obj (insertSorted k v o)).Proper := by
  apply Proper.obj (h.sorted.insertSorted k v)
  · intro e he
    rcases mem_set h.sorted he with hnew | hold
    · rw [hnew]
      exact hk
    · exact h.key hold
  intro e he
  rcases mem_set h.sorted he with hnew | hold
  · rw [hnew]
    exact hv
  · exact h.value hold

theorem Proper.erase {o : Fields} (h : (Json.obj o).Proper) (k : Bytes) :
    (Json.obj (deleteEntry k o)).Proper := by
  apply Proper.obj (List.Pairwise.filter _ h.sorted)
  · intro e he
    exact h.key (mem_deleteEntry.mp he).left
  · intro e he
    exact h.value (mem_deleteEntry.mp he).left

/-!
## Names that are not taken
-/

theorem validUtf8_replicate (n : Nat) {b : UInt8} (hb : isAscii b) :
    ValidUtf8 (List.replicate n b) := by
  induction n with
  | zero => rfl
  | succ n ih =>
  unfold ValidUtf8
  rw [List.replicate_succ, runes_cons_ascii hb, List.all_cons,
    Bool.and_eq_true]
  constructor
  · have hne : b.toNat ≠ runeError := by
      unfold isAscii at hb
      unfold runeError
      omega
    simp [isBadRune, hne]
  · exact ih

theorem exists_validUtf8_not_mem (keys : List Bytes) :
    exists k, ValidUtf8 k ∧ k ∉ keys := by
  exists List.replicate ((keys.map List.length).sum + 1) 97
  constructor
  · exact validUtf8_replicate _ (by decide)
  intro hmem
  have hle := List.le_sum_of_mem (List.mem_map_of_mem (f := List.length) hmem)
  rw [List.length_replicate] at hle
  omega

end Json

structure Text where
  bytes : Bytes
  json : Option Json
  proper : forall v, json = some v -> v.Proper

namespace Text

def ofJson (v : Json) (h : v.Proper) : Text where
  bytes := []
  json := some v
  proper := by
    intro w hw
    rwa [← Option.some.inj hw]

def ofBytes (b : Bytes) : Text where
  bytes := b
  json := none
  proper := by
    intro w hw
    cases hw

def fields (t : Text) : Option Fields :=
  t.json.bind Json.fields

theorem proper_fields {t : Text} {o : Fields} (h : t.fields = some o) :
    (Json.obj o).Proper := by
  rcases Option.bind_eq_some_iff.mp h with ⟨v, hv, ho⟩
  exact (t.proper v hv).fields ho

end Text

end Foundation
end ChimeraMQ
