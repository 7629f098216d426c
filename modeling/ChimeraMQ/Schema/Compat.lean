import ChimeraMQ.Schema.Avro
import ChimeraMQ.Schema.Inclusion
import ChimeraMQ.Schema.Protobuf

/-!
# Compatibility of schema versions

What is checked when a schema follows another one, and when the payloads that
are valid under one of them are valid under the other.
-/

namespace ChimeraMQ
namespace Schema

open Foundation

inductive SchemaType where
  | avro
  | protobuf
  | json
  | unknown (n : UInt8)
deriving DecidableEq

structure SchemaVersion where
  type : SchemaType
  schema : Text

inductive ValidationResult where
  | invalidSchema
  | payloadNotJson
  | json (errors : List ValidationError)
  | avro (missing : List Bytes)
  | protobuf (outcome : ProtobufOutcome)
  | unknownType
deriving DecidableEq

def ValidationResult.IsValid : ValidationResult -> Prop
  | .json errors => errors = []
  | .avro missing => missing = []
  | .protobuf outcome => outcome = .valid
  | _ => False

def validateJSONSchema (schema payload : Text) : ValidationResult :=
  match schema.fields with
  | none => .invalidSchema
  | some fields =>
  match payload.json with
  | none => .payloadNotJson
  | some data =>
    .json (validateNode (maxValidationDepth + 1) fields data [])

def validateAvroStructural (schema payload : Text) : ValidationResult :=
  match schema.fields with
  | none => .invalidSchema
  | some fields =>
    match payload.fields with
    | none => .payloadNotJson
    | some data => .avro (avroErrors fields data)

/-- What the enforcer says about a payload under a version. -/
def SchemaVersion.validate (sv : SchemaVersion) (payload : Text) :
    ValidationResult :=
  match sv.type with
  | .json => validateJSONSchema sv.schema payload
  | .avro => validateAvroStructural sv.schema payload
  | .protobuf =>
    .protobuf (validateProtobufStructural sv.schema.bytes payload.bytes)
  | .unknown _ => .unknownType

/-!
## The check
-/

inductive CompatibilityMode where
  | none
  | backward
  | forward
  | full
deriving DecidableEq

def CompatibilityMode.isBackward : CompatibilityMode -> Bool
  | .backward => true
  | .full => true
  | _ => false

def CompatibilityMode.isForward : CompatibilityMode -> Bool
  | .forward => true
  | .full => true
  | _ => false

inductive JsonError where
  | missingRequired (field : Bytes)
  | typeChanged (field old new : Bytes)
  | addsRequired (field : Bytes)
deriving DecidableEq

inductive CompatError where
  | schemaType (old new : SchemaType)
  | parseOld
  | parseNew
  | backward (error : JsonError)
  | forward (error : JsonError)
  | avro (error : AvroError)
  | protobuf (error : ProtobufError)
deriving DecidableEq

def toStringSlice (items : Option (List Json)) : List Bytes :=
  (items.getD []).filterMap (fun item =>
    match item with
    | .str s => some s
    | _ => none)

def getType : Json -> Bytes
  | .obj m => (typeOf m).getD []
  | _ => []

def jsonSchemaBackward (old new : Fields) : Option JsonError :=
  let newProps := (propertiesOf new).getD []
  ((toStringSlice (requiredOf old)).findSome? (fun field =>
    if getEntry field newProps = none then some (.missingRequired field)
    else none)).or
  (((propertiesOf old).getD []).findSome? (fun e =>
    match getEntry e.1 newProps with
    | none => none
    | some newDef =>
    let oldType := getType e.2
    let newType := getType newDef
    if oldType ≠ [] ∧ newType ≠ [] ∧ oldType ≠ newType then
      some (.typeChanged e.1 oldType newType)
    else none))

def jsonSchemaForward (old new : Fields) : Option JsonError :=
  (toStringSlice (requiredOf new)).findSome? (fun field =>
    if getEntry field ((propertiesOf old).getD []) = none then
      some (.addsRequired field)
    else none)

def modeErrors {ε : Type} (mode : CompatibilityMode)
    (backward forward : Option ε) : Option ε :=
  (if mode.isBackward then backward else none).or
    (if mode.isForward then forward else none)

def checkParsed (oldText newText : Text)
    (check : Fields -> Fields -> Option CompatError) : Option CompatError :=
  match oldText.fields with
  | none => some .parseOld
  | some old =>
    match newText.fields with
    | none => some .parseNew
    | some new => check old new

def checkJSONSchemaCompat (oldText newText : Text) (mode : CompatibilityMode) :
    Option CompatError :=
  checkParsed oldText newText (fun old new =>
    modeErrors mode ((jsonSchemaBackward old new).map .backward)
      ((jsonSchemaForward old new).map .forward))

def checkAvroCompat (oldText newText : Text) (mode : CompatibilityMode) :
    Option CompatError :=
  checkParsed oldText newText (fun old new =>
    modeErrors mode ((avroBackward old new).map .avro)
      ((avroForward old new).map .avro))

def checkProtobufCompat (oldText newText : Bytes) (mode : CompatibilityMode) :
    Option CompatError :=
  modeErrors mode ((protobufBackward oldText newText).map .protobuf)
    ((protobufForward oldText newText).map .protobuf)

def checkCompatibility (mode : CompatibilityMode)
    (oldSchema newSchema : SchemaVersion) : Option CompatError :=
  if mode = .none then none
  else if oldSchema.type ≠ newSchema.type then
    some (.schemaType oldSchema.type newSchema.type)
  else
    match oldSchema.type with
    | .json => checkJSONSchemaCompat oldSchema.schema newSchema.schema mode
    | .avro => checkAvroCompat oldSchema.schema newSchema.schema mode
    | .protobuf =>
      checkProtobufCompat oldSchema.schema.bytes newSchema.schema.bytes mode
    | .unknown _ => none

/-!
## Versions that can be compared
-/

namespace SchemaVersion

structure Comparable (s t : SchemaVersion) : Prop where
  type : s.type = t.type
  parsed : s.type = .json ∨ s.type = .avro ->
    exists old new, s.schema.fields = some old ∧ t.schema.fields = some new

variable {s t : SchemaVersion}

theorem Comparable.symm (h : s.Comparable t) :
    t.Comparable s := by
  constructor
  · exact h.type.symm
  intro htype
  rw [← h.type] at htype
  rcases h.parsed htype with ⟨old, new, hold, hnew⟩
  exact ⟨new, old, hnew, hold⟩

theorem exists_of_checkParsed {oldText newText : Text}
    {check : Fields -> Fields -> Option CompatError}
    (h : checkParsed oldText newText check = none) :
    exists old new, oldText.fields = some old ∧ newText.fields = some new := by
  unfold checkParsed at h
  cases hold : oldText.fields with
  | none =>
    rw [hold] at h
    cases h
  | some old =>
  cases hnew : newText.fields with
  | none =>
    rw [hold, hnew] at h
    cases h
  | some new => exact ⟨old, new, rfl, rfl⟩

theorem comparable_of_check {mode : CompatibilityMode} (hmode : mode ≠ .none)
    (h : checkCompatibility mode s t = none) :
    s.Comparable t := by
  unfold checkCompatibility at h
  rw [if_neg hmode] at h
  split at h
  · cases h
  rename_i htype
  constructor
  · exact not_not.mp htype
  rintro (hjson | havro)
  · rw [hjson] at h
    exact exists_of_checkParsed h
  · rw [havro] at h
    exact exists_of_checkParsed h

/-!
## Payloads
-/

/-- Every payload that is valid under the first version is so under the other. -/
def Sound (s t : SchemaVersion) : Prop :=
  forall payload, (s.validate payload).IsValid -> (t.validate payload).IsValid

/-- The second version asks for no more than the first one. -/
def Covers (s t : SchemaVersion) : Prop :=
  match s.type with
  | .json => forall old, s.schema.fields = some old -> forall new,
      t.schema.fields = some new ->
        Schema.Covers (maxValidationDepth + 1) old new
  | .avro => forall old, s.schema.fields = some old -> forall new,
      t.schema.fields = some new ->
        forall name, name ∈ avroRequired new -> name ∈ avroRequired old
  | .protobuf =>
    extractProtoFieldNums t.schema.bytes = [] ∨
      extractProtoFieldNums s.schema.bytes ≠ [] ∧
        forall num, num ∈ extractProtoFieldNums t.schema.bytes ->
          num ∈ extractProtoFieldNums s.schema.bytes
  | .unknown _ => True

theorem isValid_json_iff {sv : SchemaVersion} {fields : Fields}
    (htype : sv.type = .json) (hfields : sv.schema.fields = some fields)
    {payload : Text} :
    (sv.validate payload).IsValid <->
      exists data, payload.json = some data ∧
        Valid (maxValidationDepth + 1) fields data := by
  unfold validate
  rw [htype]
  simp only [validateJSONSchema, hfields]
  cases payload.json with
  | none => simp [ValidationResult.IsValid]
  | some data =>
  simp only [Option.some.injEq, exists_eq_left']
  exact validateNode_eq_nil_iff _ fields data []

theorem isValid_avro_iff {sv : SchemaVersion} {fields : Fields}
    (htype : sv.type = .avro) (hfields : sv.schema.fields = some fields)
    {payload : Text} :
    (sv.validate payload).IsValid <->
      exists data, payload.fields = some data ∧
        avroErrors fields data = [] := by
  unfold validate
  rw [htype]
  simp only [validateAvroStructural, hfields]
  cases payload.fields with
  | none => simp [ValidationResult.IsValid]
  | some data =>
  simp only [Option.some.injEq, exists_eq_left']
  exact Iff.rfl

theorem sound_json_iff {old new : Fields} (hs : s.type = .json)
    (ht : t.type = .json) (hold : s.schema.fields = some old)
    (hnew : t.schema.fields = some new) :
    s.Sound t <-> Schema.Covers (maxValidationDepth + 1) old new := by
  rw [covers_iff_includes (Text.proper_fields hold) (Text.proper_fields hnew)]
  unfold Sound Includes
  simp only [isValid_json_iff hs hold, isValid_json_iff ht hnew]
  constructor
  · intro h v hv hvalid
    rcases h (Text.ofJson v hv) ⟨v, rfl, hvalid⟩ with ⟨data, hdata, hnew⟩
    cases hdata
    exact hnew
  · rintro h payload ⟨data, hdata, hvalid⟩
    exact ⟨data, hdata, h data (payload.proper data hdata) hvalid⟩

theorem sound_avro_iff {old new : Fields} (hs : s.type = .avro)
    (ht : t.type = .avro) (hold : s.schema.fields = some old)
    (hnew : t.schema.fields = some new) :
    s.Sound t <->
      forall name, name ∈ avroRequired new -> name ∈ avroRequired old := by
  rw [← avroIncludes_iff (Text.proper_fields hold)]
  unfold Sound AvroIncludes
  simp only [isValid_avro_iff hs hold, isValid_avro_iff ht hnew]
  constructor
  · intro h data hdata hvalid
    rcases h (Text.ofJson (.obj data) hdata) ⟨data, rfl, hvalid⟩ with
      ⟨data', hdata', hnew⟩
    cases hdata'
    exact hnew
  · rintro h payload ⟨data, hdata, hvalid⟩
    exact ⟨data, hdata, h data (Text.proper_fields hdata) hvalid⟩

theorem sound_protobuf_iff (hs : s.type = .protobuf) (ht : t.type = .protobuf) :
    s.Sound t <-> ProtobufIncludes s.schema.bytes t.schema.bytes := by
  unfold Sound ProtobufIncludes validate
  rw [hs, ht]
  constructor
  · intro h payload hvalid
    exact h (Text.ofBytes payload) hvalid
  · intro h payload hvalid
    exact h payload.bytes hvalid

theorem Comparable.sound_iff_covers (h : s.Comparable t) :
    s.Sound t <-> s.Covers t := by
  have htype := h.type
  unfold Covers
  cases hs : s.type with
  | json =>
    rw [hs] at htype
    rcases h.parsed (Or.inl hs) with ⟨old, new, hold, hnew⟩
    simp only [hold, hnew, Option.some.injEq, forall_eq']
    exact sound_json_iff hs htype.symm hold hnew
  | avro =>
    rw [hs] at htype
    rcases h.parsed (Or.inr hs) with ⟨old, new, hold, hnew⟩
    simp only [hold, hnew, Option.some.injEq, forall_eq']
    exact sound_avro_iff hs htype.symm hold hnew
  | protobuf =>
    rw [hs] at htype
    rw [sound_protobuf_iff hs htype.symm]
    exact protobufIncludes_iff
  | unknown n =>
  constructor
  · intro _
    trivial
  intro _ payload hvalid
  unfold validate at hvalid
  rw [hs] at hvalid
  exact hvalid.elim

/-!
## The two modes
-/

/--
A version that passes the check for new readers accepts the payloads of the old
one exactly if it covers it.
-/
theorem backward_sound_iff {old new : SchemaVersion}
    (h : checkCompatibility .backward old new = none) :
    old.Sound new <-> old.Covers new :=
  (comparable_of_check (by decide) h).sound_iff_covers

/--
A version that passes the check for old readers has its payloads accepted by the
old one exactly if that covers it.
-/
theorem forward_sound_iff {old new : SchemaVersion}
    (h : checkCompatibility .forward old new = none) :
    new.Sound old <-> new.Covers old :=
  (comparable_of_check (by decide) h).symm.sound_iff_covers

/-!
## Integers and numbers
-/

def typeVersion (type : Bytes)
    (h : (Json.obj [(ascii "type", .str type)]).Proper) : SchemaVersion where
  type := .json
  schema := Text.ofJson _ h

theorem plain_typeVersion_iff {type : Bytes} {v : Json} :
    Plain [(ascii "type", .str type)] v <-> checkType type v = true := by
  constructor
  · intro h
    exact h.type type rfl
  intro h
  constructor
  · intro type' htype
    have hsame : some type = some type' := htype
    rwa [← Option.some.inj hsame]
  all_goals
    intros
    contradiction

def integerVersion : SchemaVersion :=
  typeVersion (ascii "integer") (by decide +kernel)

def numberVersion : SchemaVersion :=
  typeVersion (ascii "number") (by decide +kernel)

theorem covers_integerVersion : integerVersion.Covers numberVersion := by
  have hinteger : forall v, checkType (ascii "integer") v = true ->
      exists x, v = .num x := by
    intro v hv
    cases v with
    | num x => exact ⟨x, rfl⟩
    | null => cases hv
    | bool b => cases hv
    | str s => cases hv
    | arr l => cases hv
    | obj o => cases hv
  intro old hold new hnew
  cases hold
  cases hnew
  refine ⟨?_, ?_, ?_⟩
  · intro v _ _ hplain
    rcases hinteger v (plain_typeVersion_iff.mp hplain) with ⟨x, hv⟩
    rw [plain_typeVersion_iff, hv]
    rfl
  · intro hplain
    rcases hinteger _ (plain_typeVersion_iff.mp hplain) with ⟨x, hv⟩
    cases hv
  · rintro ⟨obj, _, hvalid⟩
    rcases hinteger _ (plain_typeVersion_iff.mp hvalid.left) with ⟨x, hv⟩
    cases hv

/-- A reader of numbers may follow one of integers. -/
theorem backward_sound_integerVersion :
    checkCompatibility .backward integerVersion numberVersion = none ∧
      integerVersion.Sound numberVersion := by
  have hcheck : checkCompatibility .backward integerVersion numberVersion =
      none := by decide +kernel
  exact ⟨hcheck, (backward_sound_iff hcheck).mpr covers_integerVersion⟩

/-- A writer of integers may follow one of numbers. -/
theorem forward_sound_integerVersion :
    checkCompatibility .forward numberVersion integerVersion = none ∧
      integerVersion.Sound numberVersion := by
  have hcheck : checkCompatibility .forward numberVersion integerVersion =
      none := by decide +kernel
  exact ⟨hcheck, (forward_sound_iff hcheck).mpr covers_integerVersion⟩

/-!
## Records with one and with two fields
-/

def stringField (name : Bytes) : Json :=
  .obj [(ascii "name", .str name), (ascii "type", .str (ascii "string"))]

def recordVersion (fields : List Json)
    (h : (Json.obj [(ascii "fields", .arr fields), (ascii "name",
      .str (ascii "r")), (ascii "type", .str (ascii "record"))]).Proper) :
    SchemaVersion where
  type := .avro
  schema := Text.ofJson _ h

def oneField : SchemaVersion :=
  recordVersion [stringField [97]] (by decide +kernel)

def twoFields : SchemaVersion :=
  recordVersion [stringField [97], stringField [98]] (by decide +kernel)

def oneFieldPayload : Text :=
  Text.ofJson (.obj [([97], .str [120])]) (by decide +kernel)

/-- A field without a default may be added, but old records do not have it. -/
theorem not_backward_sound :
    ¬ forall old new : SchemaVersion,
      checkCompatibility .backward old new = none -> old.Sound new := by
  intro h
  have hvalid := h oneField twoFields (by decide +kernel) oneFieldPayload
  have hone : oneField.validate oneFieldPayload = .avro [] := by
    decide +kernel
  have htwo : twoFields.validate oneFieldPayload = .avro [[98]] := by
    decide +kernel
  rw [hone, htwo] at hvalid
  cases hvalid rfl

/-!
## An object with a property that is required, and any object
-/

def requiringVersion (required : List Json)
    (h : (Json.obj [(ascii "properties", .obj [([97], .obj [])]),
      (ascii "required", .arr required)]).Proper) : SchemaVersion where
  type := .json
  schema := Text.ofJson _ h

/-- The property need not be required any more, but old readers require it. -/
theorem not_forward_sound :
    ¬ forall old new : SchemaVersion,
      checkCompatibility .forward old new = none -> new.Sound old := by
  intro h
  let old : SchemaVersion := requiringVersion [.str [97]] (by decide +kernel)
  let new : SchemaVersion := requiringVersion [] (by decide +kernel)
  let payload : Text := Text.ofJson (.obj []) (by decide +kernel)
  have hvalid := h old new (by decide +kernel) payload
  have hold : old.validate payload = .json [.requiredMissing [] [97]] := by
    decide +kernel
  have hnew : new.validate payload = .json [] := by decide +kernel
  rw [hold, hnew] at hvalid
  cases hvalid rfl

end SchemaVersion

end Schema
end ChimeraMQ
