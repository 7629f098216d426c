import ChimeraMQ.Foundation.Json

/-!
# JSON Schema

How a payload is validated against a JSON Schema: the keywords that are known,
and the nested schemas down to a given depth.
-/

namespace ChimeraMQ
namespace Schema

open Foundation

def stringAt (k : Bytes) (schema : Fields) : Option Bytes :=
  match getEntry k schema with
  | some (.str s) => some s
  | _ => none

def arrayAt (k : Bytes) (schema : Fields) : Option (List Json) :=
  match getEntry k schema with
  | some (.arr l) => some l
  | _ => none

def objectAt (k : Bytes) (schema : Fields) : Option Fields :=
  match getEntry k schema with
  | some (.obj o) => some o
  | _ => none

def numberAt (k : Bytes) (schema : Fields) : Option Double :=
  match getEntry k schema with
  | some (.num x) => some x
  | _ => none

def asString : Json -> Bytes
  | .str s => s
  | _ => []

def typeOf (schema : Fields) : Option Bytes :=
  stringAt (ascii "type") schema

def requiredOf (schema : Fields) : Option (List Json) :=
  arrayAt (ascii "required") schema

def propertiesOf (schema : Fields) : Option Fields :=
  objectAt (ascii "properties") schema

def itemsOf (schema : Fields) : Option Fields :=
  objectAt (ascii "items") schema

def enumOf (schema : Fields) : Option (List Json) :=
  arrayAt (ascii "enum") schema

def noAdditional (schema : Fields) : Bool :=
  getEntry (ascii "additionalProperties") schema = some (.bool false)

/-!
## Types
-/

def checkType (expected : Bytes) (data : Json) : Bool :=
  if expected = ascii "object" then
    match data with
    | .obj _ => true
    | _ => false
  else if expected = ascii "array" then
    match data with
    | .arr _ => true
    | _ => false
  else if expected = ascii "string" then
    match data with
    | .str _ => true
    | _ => false
  else if expected = ascii "number" then
    match data with
    | .num _ => true
    | _ => false
  else if expected = ascii "integer" then
    match data with
    | .num x => decide x.IsInteger
    | _ => false
  else if expected = ascii "boolean" then
    match data with
    | .bool _ => true
    | _ => false
  else if expected = ascii "null" then
    match data with
    | .null => true
    | _ => false
  else true

def typeName : Json -> Bytes
  | .obj _ => ascii "object"
  | .arr _ => ascii "array"
  | .str _ => ascii "string"
  | .num _ => ascii "number"
  | .bool _ => ascii "boolean"
  | .null => ascii "null"

/-!
## Validation
-/

inductive ValidationError where
  | depthExceeded (path : Bytes)
  | expectedType (path type got : Bytes)
  | requiredMissing (path field : Bytes)
  | additionalProperty (path key : Bytes)
  | notInEnum (path : Bytes)
  | belowMinimum (path : Bytes) (num min : Double)
  | aboveMaximum (path : Bytes) (num max : Double)
  | tooShort (path : Bytes) (length : Nat) (min : Double)
  | tooLong (path : Bytes) (length : Nat) (max : Double)
deriving DecidableEq

def propertyPath (path name : Bytes) : Bytes :=
  if path.length = 0 then name else path ++ 46 :: name

def itemPath (path : Bytes) (i : Nat) : Bytes :=
  path ++ 91 :: formatUint i ++ [93]

section Node

-- how a nested value is validated
variable (node : Fields -> Json -> Bytes -> List ValidationError)

def requiredErrors (schema obj : Fields) (path : Bytes) :
    List ValidationError :=
  ((requiredOf schema).getD []).filterMap (fun r =>
    let field := asString r
    if getEntry field obj = none then some (.requiredMissing path field)
    else none)

def propertyErrors (schema obj : Fields) (path : Bytes) :
    List ValidationError :=
  ((propertiesOf schema).getD []).flatMap (fun e =>
    match e.2 with
    | .obj propSchema =>
      match getEntry e.1 obj with
      | some val => node propSchema val (propertyPath path e.1)
      | none => []
    | _ => [])

def additionalErrors (schema obj : Fields) (path : Bytes) :
    List ValidationError :=
  if noAdditional schema then
    match propertiesOf schema with
    | some props =>
      obj.filterMap (fun e =>
        if getEntry e.1 props = none then
          some (.additionalProperty path e.1)
        else none)
    | none => []
  else []

def itemErrors (schema : Fields) (arr : List Json) (path : Bytes) :
    List ValidationError :=
  match itemsOf schema with
  | some items =>
    arr.zipIdx.flatMap (fun e => node items e.1 (itemPath path e.2))
  | none => []

def enumErrors (schema : Fields) (data : Json) (path : Bytes) :
    List ValidationError :=
  match enumOf schema with
  | some enum => if data ∈ enum then [] else [.notInEnum path]
  | none => []

def numberErrors (schema : Fields) (num : Double) (path : Bytes) :
    List ValidationError :=
  (match numberAt (ascii "minimum") schema with
    | some min =>
      if num.units < min.units then [.belowMinimum path num min] else []
    | none => []) ++
  (match numberAt (ascii "maximum") schema with
    | some max =>
      if max.units < num.units then [.aboveMaximum path num max] else []
    | none => [])

def lengthErrors (schema : Fields) (str : Bytes) (path : Bytes) :
    List ValidationError :=
  (match numberAt (ascii "minLength") schema with
    | some min =>
      if str.length * Double.one < min.units then
        [.tooShort path str.length min]
      else []
    | none => []) ++
  (match numberAt (ascii "maxLength") schema with
    | some max =>
      if max.units < str.length * Double.one then
        [.tooLong path str.length max]
      else []
    | none => [])

def valueErrors (schema : Fields) (data : Json) (path : Bytes) :
    List ValidationError :=
  (match data with
    | .obj obj =>
      requiredErrors schema obj path ++ propertyErrors node schema obj path ++
        additionalErrors schema obj path
    | .arr arr => itemErrors node schema arr path
    | _ => []) ++
  enumErrors schema data path ++
  (match data with
    | .num num => numberErrors schema num path
    | .str str => lengthErrors schema str path
    | _ => [])

end Node

def validateNode : Nat -> Fields -> Json -> Bytes -> List ValidationError
  | 0, _, _, path => [.depthExceeded path]
  | levels + 1, schema, data, path =>
    match typeOf schema with
    | some type =>
      if checkType type data then
        valueErrors (validateNode levels) schema data path
      else [.expectedType path type (typeName data)]
    | none => valueErrors (validateNode levels) schema data path

def maxValidationDepth : Nat := 100

/-!
## Values that are valid
-/

/-- What a schema says about a value without looking into it. -/
structure Plain (schema : Fields) (data : Json) : Prop where
  type : forall type, typeOf schema = some type -> checkType type data = true
  enum : forall enum, enumOf schema = some enum -> data ∈ enum
  minimum : forall num min, data = .num num ->
    numberAt (ascii "minimum") schema = some min -> min.units ≤ num.units
  maximum : forall num max, data = .num num ->
    numberAt (ascii "maximum") schema = some max -> num.units ≤ max.units
  minLength : forall str min, data = .str str ->
    numberAt (ascii "minLength") schema = some min ->
      min.units ≤ str.length * Double.one
  maxLength : forall str max, data = .str str ->
    numberAt (ascii "maxLength") schema = some max ->
      str.length * Double.one ≤ max.units

section Nested

variable (valid : Fields -> Json -> Prop)

structure ObjectOk (schema obj : Fields) : Prop where
  required : forall required, requiredOf schema = some required ->
    forall r, r ∈ required -> getEntry (asString r) obj ≠ none
  properties : forall props, propertiesOf schema = some props ->
    forall name propSchema val, (name, .obj propSchema) ∈ props ->
      getEntry name obj = some val -> valid propSchema val
  additional : forall props, propertiesOf schema = some props ->
    noAdditional schema = true -> forall e, e ∈ obj ->
      getEntry e.1 props ≠ none

def ArrayOk (schema : Fields) (arr : List Json) : Prop :=
  forall items, itemsOf schema = some items ->
    forall item, item ∈ arr -> valid items item

end Nested

def Valid : Nat -> Fields -> Json -> Prop
  | 0, _, _ => False
  | levels + 1, schema, data =>
    Plain schema data ∧
      (forall obj, data = .obj obj -> ObjectOk (Valid levels) schema obj) ∧
        forall arr, data = .arr arr -> ArrayOk (Valid levels) schema arr

section Nested

variable {node : Fields -> Json -> Bytes -> List ValidationError}
  {valid : Fields -> Json -> Prop}

variable {schema : Fields} {path : Bytes}

theorem propertyErrors_eq_nil
    (hnode : forall s v path, node s v path = [] <-> valid s v) {obj : Fields} :
    propertyErrors node schema obj path = [] <->
      forall props, propertiesOf schema = some props ->
        forall name propSchema val, (name, .obj propSchema) ∈ props ->
          getEntry name obj = some val -> valid propSchema val := by
  unfold propertyErrors
  rw [List.flatMap_eq_nil_iff]
  constructor
  · intro h props hprops name propSchema val hmem hget
    rw [hprops] at h
    have hone := h _ hmem
    simp only [hget] at hone
    exact (hnode ..).mp hone
  intro h e he
  cases hprops : propertiesOf schema with
  | none =>
    rw [hprops] at he
    cases he
  | some props =>
  rw [hprops] at he
  rcases e with ⟨name, def_⟩
  cases def_ with
  | obj propSchema =>
    simp only
    cases hget : getEntry name obj with
    | none => rfl
    | some val =>
      exact (hnode ..).mpr (h props hprops name propSchema val he hget)
  | null => rfl
  | bool b => rfl
  | num x => rfl
  | str s => rfl
  | arr l => rfl

theorem requiredErrors_eq_nil {obj : Fields} :
    requiredErrors schema obj path = [] <->
      forall required, requiredOf schema = some required ->
        forall r, r ∈ required -> getEntry (asString r) obj ≠ none := by
  unfold requiredErrors
  rw [List.filterMap_eq_nil_iff]
  cases hrequired : requiredOf schema with
  | none => simp
  | some required => simp

theorem additionalErrors_eq_nil {obj : Fields} :
    additionalErrors schema obj path = [] <->
      forall props, propertiesOf schema = some props ->
        noAdditional schema = true -> forall e, e ∈ obj ->
          getEntry e.1 props ≠ none := by
  unfold additionalErrors
  cases hclosed : noAdditional schema with
  | false => simp
  | true =>
  rw [if_pos rfl]
  cases hprops : propertiesOf schema with
  | none => simp
  | some props => simp

theorem itemErrors_eq_nil
    (hnode : forall s v path, node s v path = [] <-> valid s v)
    {arr : List Json} :
    itemErrors node schema arr path = [] <-> ArrayOk valid schema arr := by
  unfold itemErrors ArrayOk
  cases hitems : itemsOf schema with
  | none => simp
  | some items =>
  simp only [List.flatMap_eq_nil_iff, hnode, Option.some.injEq,
    forall_eq']
  constructor
  · intro h item hitem
    rcases List.mem_iff_getElem.mp hitem with ⟨i, hi, hget⟩
    exact h (item, i) (List.mk_mem_zipIdx_iff_getElem?.mpr
      (List.getElem?_eq_some_iff.mpr ⟨hi, hget⟩))
  · intro h e he
    exact h e.1 (List.fst_mem_of_mem_zipIdx he)

theorem enumErrors_eq_nil {data : Json} :
    enumErrors schema data path = [] <->
      forall enum, enumOf schema = some enum -> data ∈ enum := by
  unfold enumErrors
  cases henum : enumOf schema with
  | none => simp
  | some enum => simp

theorem numberErrors_eq_nil {num : Double} :
    numberErrors schema num path = [] <->
      (forall min, numberAt (ascii "minimum") schema = some min ->
        min.units ≤ num.units) ∧
      forall max, numberAt (ascii "maximum") schema = some max ->
        num.units ≤ max.units := by
  unfold numberErrors
  rw [List.append_eq_nil_iff]
  apply and_congr
  · cases numberAt (ascii "minimum") schema <;> simp
  · cases numberAt (ascii "maximum") schema <;> simp

theorem lengthErrors_eq_nil {str : Bytes} :
    lengthErrors schema str path = [] <->
      (forall min, numberAt (ascii "minLength") schema = some min ->
        min.units ≤ str.length * Double.one) ∧
      forall max, numberAt (ascii "maxLength") schema = some max ->
        str.length * Double.one ≤ max.units := by
  unfold lengthErrors
  rw [List.append_eq_nil_iff]
  apply and_congr
  · cases numberAt (ascii "minLength") schema <;> simp
  · cases numberAt (ascii "maxLength") schema <;> simp

theorem valueErrors_eq_nil
    (hnode : forall s v path, node s v path = [] <-> valid s v) {data : Json}
    (htype : forall type, typeOf schema = some type ->
      checkType type data = true) :
    valueErrors node schema data path = [] <->
      Plain schema data ∧
        (forall obj, data = .obj obj -> ObjectOk valid schema obj) ∧
          forall arr, data = .arr arr -> ArrayOk valid schema arr := by
  unfold valueErrors
  rw [List.append_eq_nil_iff, List.append_eq_nil_iff, enumErrors_eq_nil]
  constructor
  · rintro ⟨⟨hnested, henum⟩, hscalar⟩
    refine ⟨⟨htype, henum, ?_, ?_, ?_, ?_⟩, ?_, ?_⟩
    · intro num min hdata
      rw [hdata] at hscalar
      exact (numberErrors_eq_nil.mp hscalar).left min
    · intro num max hdata
      rw [hdata] at hscalar
      exact (numberErrors_eq_nil.mp hscalar).right max
    · intro str min hdata
      rw [hdata] at hscalar
      exact (lengthErrors_eq_nil.mp hscalar).left min
    · intro str max hdata
      rw [hdata] at hscalar
      exact (lengthErrors_eq_nil.mp hscalar).right max
    · intro obj hdata
      rw [hdata] at hnested
      simp only [List.append_eq_nil_iff] at hnested
      exact ⟨requiredErrors_eq_nil.mp hnested.left.left,
        (propertyErrors_eq_nil hnode).mp hnested.left.right,
        additionalErrors_eq_nil.mp hnested.right⟩
    · intro arr hdata
      rw [hdata] at hnested
      exact (itemErrors_eq_nil hnode).mp hnested
  rintro ⟨hplain, hobj, harr⟩
  refine ⟨⟨?_, hplain.enum⟩, ?_⟩
  · cases data with
    | obj obj =>
      have h := hobj obj rfl
      simp only [List.append_eq_nil_iff]
      exact ⟨⟨requiredErrors_eq_nil.mpr h.required,
        (propertyErrors_eq_nil hnode).mpr h.properties⟩,
        additionalErrors_eq_nil.mpr h.additional⟩
    | arr arr => exact (itemErrors_eq_nil hnode).mpr (harr arr rfl)
    | null => rfl
    | bool b => rfl
    | num x => rfl
    | str s => rfl
  cases data with
  | num x =>
    exact numberErrors_eq_nil.mpr
      ⟨fun min => hplain.minimum x min rfl,
        fun max => hplain.maximum x max rfl⟩
  | str s =>
    exact lengthErrors_eq_nil.mpr
      ⟨fun min => hplain.minLength s min rfl,
        fun max => hplain.maxLength s max rfl⟩
  | null => rfl
  | bool b => rfl
  | obj o => rfl
  | arr l => rfl

end Nested

theorem validateNode_eq_nil_iff (levels : Nat) (schema : Fields) (data : Json)
    (path : Bytes) :
    validateNode levels schema data path = [] <->
      Valid levels schema data := by
  induction levels generalizing schema data path with
  | zero =>
    constructor
    · intro h
      cases h
    · intro h
      exact h.elim
  | succ levels ih =>
  unfold validateNode Valid
  cases htype : typeOf schema with
  | none =>
    apply valueErrors_eq_nil ih
    intro type hsome
    rw [htype] at hsome
    cases hsome
  | some type =>
  simp only
  by_cases hcheck : checkType type data = true
  · rw [if_pos hcheck]
    apply valueErrors_eq_nil ih
    intro type' hsome
    rw [htype] at hsome
    rwa [← Option.some.inj hsome]
  rw [if_neg hcheck]
  constructor
  · intro h
    cases h
  · intro h
    exact absurd (h.left.type type htype) hcheck

end Schema
end ChimeraMQ
