import ChimeraMQ.Schema.JsonSchema

/-!
# Avro

The fields of an Avro record, how a payload of JSON is checked for them, and
what is compared of two records when a schema is registered.
-/

namespace ChimeraMQ
namespace Schema

open Foundation

/-!
## Validation
-/

def isNullableUnion : Option Json -> Bool
  | some (.arr types) => decide (Json.str (ascii "null") ∈ types)
  | _ => false

def avroErrors (schema data : Fields) : List Bytes :=
  ((arrayAt (ascii "fields") schema).getD []).filterMap (fun f =>
    match f with
    | .obj field =>
      let name := (stringAt (ascii "name") field).getD []
      if getEntry (ascii "default") field ≠ none then none
      else if getEntry name data = none then
        if isNullableUnion (getEntry (ascii "type") field) then none
        else some name
      else none
    | _ => none)

def avroRequired (schema : Fields) : List Bytes :=
  ((arrayAt (ascii "fields") schema).getD []).filterMap (fun f =>
    match f with
    | .obj field =>
      if getEntry (ascii "default") field = none ∧
          isNullableUnion (getEntry (ascii "type") field) = false then
        some ((stringAt (ascii "name") field).getD [])
      else none
    | _ => none)

theorem avroErrors_eq_nil_iff {schema data : Fields} :
    avroErrors schema data = [] <->
      forall name, name ∈ avroRequired schema -> getEntry name data ≠ none := by
  unfold avroErrors avroRequired
  generalize (arrayAt (ascii "fields") schema).getD [] = fields
  rw [List.filterMap_eq_nil_iff]
  constructor
  · intro h name hname
    rcases List.mem_filterMap.mp hname with ⟨f, hf, hsome⟩
    have hnone := h f hf
    cases f with
    | obj field =>
      simp only at hsome hnone
      split at hsome
      · rename_i hrequired
        cases hsome
        rw [if_neg (not_not_intro hrequired.left)] at hnone
        intro hmissing
        rw [if_pos hmissing, hrequired.right] at hnone
        cases hnone
      · cases hsome
    | null => cases hsome
    | bool b => cases hsome
    | num x => cases hsome
    | str s => cases hsome
    | arr l => cases hsome
  intro h f hf
  cases f with
  | obj field =>
    simp only
    split
    · rfl
    rename_i hdefault
    split
    · rename_i hmissing
      cases hunion : isNullableUnion
          (getEntry (ascii "type") field) with
      | true => rfl
      | false =>
      refine absurd hmissing (h _ ?_)
      apply List.mem_filterMap.mpr
      refine ⟨.obj field, hf, ?_⟩
      simp only
      rw [if_pos ⟨not_not.mp hdefault, hunion⟩]
    · rfl
  | null => rfl
  | bool b => rfl
  | num x => rfl
  | str s => rfl
  | arr l => rfl

/-!
## Compatibility
-/

inductive AvroError where
  | removesField (name : Bytes)
  | addsFieldWithoutDefault (name : Bytes)
deriving DecidableEq

def avroFields (schema : Fields) : List (Bytes × Bool) :=
  ((arrayAt (ascii "fields") schema).getD []).foldl (fun fields f =>
    match f with
    | .obj field =>
      setEntry ((stringAt (ascii "name") field).getD [])
        (decide (getEntry (ascii "default") field ≠ none)) fields
    | _ => fields) []

def avroBackward (old new : Fields) : Option AvroError :=
  (avroFields old).findSome? (fun f =>
    if getEntry f.1 (avroFields new) = none then some (.removesField f.1)
    else none)

def avroForward (old new : Fields) : Option AvroError :=
  (avroFields new).findSome? (fun f =>
    if getEntry f.1 (avroFields old) = none ∧ f.2 = false then
      some (.addsFieldWithoutDefault f.1)
    else none)

/-!
## Records that are accepted
-/

def AvroIncludes (s t : Fields) : Prop :=
  forall data, (Json.obj data).Proper -> avroErrors s data = [] ->
    avroErrors t data = []

theorem validUtf8_of_mem_avroRequired {schema : Fields}
    (h : (Json.obj schema).Proper) {name : Bytes}
    (hname : name ∈ avroRequired schema) : ValidUtf8 name := by
  unfold avroRequired arrayAt at hname
  rcases List.mem_filterMap.mp hname with ⟨f, hf, hsome⟩
  split at hf
  · rename_i l hget
    have hproper := (h.getEntry hget).item hf
    cases f with
    | obj field =>
      simp only at hsome
      split at hsome
      · cases hsome
        unfold stringAt
        cases hentry : getEntry (ascii "name") field with
        | none => rfl
        | some v =>
        have hv := hproper.getEntry hentry
        cases hv with
        | str hs => exact hs
        | null => rfl
        | bool b => rfl
        | num x => rfl
        | arr _ => rfl
        | obj _ _ _ => rfl
      · cases hsome
    | null => cases hsome
    | bool b => cases hsome
    | num x => cases hsome
    | str s => cases hsome
    | arr l => cases hsome
  · cases hf

theorem exists_record {names : List Bytes}
    (hnames : forall name, name ∈ names -> ValidUtf8 name) :
    exists data, (Json.obj data).Proper ∧
      forall name, getEntry name data ≠ none <-> name ∈ names := by
  induction names with
  | nil =>
    refine ⟨[], Json.Proper.obj List.Pairwise.nil (by simp) (by simp), ?_⟩
    intro name
    simp [getEntry]
  | cons n names ih =>
  rcases ih (fun name h => hnames name (List.mem_cons_of_mem n h)) with
    ⟨data, hproper, hdata⟩
  refine ⟨insertSorted n .null data,
    hproper.set (hnames n (List.mem_cons_self ..)) .null, ?_⟩
  intro name
  rw [Json.getEntry_set hproper.sorted, List.mem_cons, ← hdata]
  by_cases hname : name = n
  · simp [hname]
  · simp [hname]

theorem avroIncludes_iff {s t : Fields} (hs : (Json.obj s).Proper) :
    AvroIncludes s t <->
      forall name, name ∈ avroRequired t -> name ∈ avroRequired s := by
  constructor
  · intro h name hname
    rcases exists_record (fun n hn => validUtf8_of_mem_avroRequired hs hn) with
      ⟨data, hproper, hdata⟩
    have hvalid := h data hproper (avroErrors_eq_nil_iff.mpr
      (fun n hn => (hdata n).mpr hn))
    exact (hdata name).mp (avroErrors_eq_nil_iff.mp hvalid name hname)
  · intro h data _ hvalid
    apply avroErrors_eq_nil_iff.mpr
    intro name hname
    exact avroErrors_eq_nil_iff.mp hvalid name (h name hname)

end Schema
end ChimeraMQ
