import ChimeraMQ.Foundation.Address
import ChimeraMQ.Foundation.Runes
import ChimeraMQ.Foundation.SortedEntries
import ChimeraMQ.Foundation.Decimal
import ChimeraMQ.Foundation.Varint

/-!
# Protocol buffers

The numbers of the fields that are read from the text of a message type, the
check of a payload for them, and what is compared of two texts when a schema is
registered.
-/

namespace ChimeraMQ
namespace Schema

open Foundation

def leadingDigits (s : Bytes) : Bytes :=
  s.takeWhile (fun b => 48 ≤ b && b ≤ 57)

def scanUint32 (s : Bytes) : Option Nat :=
  parseDecimal (2 ^ 32) (digitChars (leadingDigits s))

/-- The integer that a string begins with, with or without a sign. -/
def scanInt : Bytes -> Option Int
  | [] => none
  | b :: rest =>
    if b = 45 ∨ b = 43 then atoi (b :: leadingDigits rest)
    else atoi (leadingDigits (b :: rest))

def afterLast (b : UInt8) (s : Bytes) : Bytes :=
  (s.reverse.takeWhile (fun x => x ≠ b)).reverse

/-!
## The numbers of the fields
-/

def messageStart (line : Bytes) : Bool :=
  (ascii "message ").isPrefixOf line ||
    (ascii "message" ++ [123]).isPrefixOf line

def fieldNumber (line : Bytes) : Option Nat :=
  if 61 ∈ line then
    let rest := trimSpace (afterLast 61 line)
    match scanUint32 (rest.rdropWhile (fun b => b = 59 || b = 32)) with
    | some num => if 0 < num then some num else none
    | none => none
  else none

/-- Go through the lines; the first argument is whether one is in a message. -/
def fieldNumbersFrom : Bool -> List Bytes -> List Nat
  | _, [] => []
  | inMessage, line :: rest =>
    let trimmed := trimSpace line
    if messageStart trimmed then fieldNumbersFrom true rest
    else if trimmed = [125] then fieldNumbersFrom false rest
    else if inMessage then
      (fieldNumber trimmed).toList ++ fieldNumbersFrom true rest
    else fieldNumbersFrom false rest

def extractProtoFieldNums (schema : Bytes) : List Nat :=
  fieldNumbersFrom false (splitOn 10 schema)

/-!
## Validation
-/

inductive SkipError where
  | unterminatedVarint
  | truncated64
  | invalidSize
  | exceedsPayload
  | truncated32
  | unknownWireType (wireType : Nat)
deriving DecidableEq

def signed (n : Nat) : Int :=
  if n % 2 ^ 64 < 2 ^ 63 then (n % 2 ^ 64 : Nat)
  else (n % 2 ^ 64 : Nat) - 2 ^ 64

/-- The number of bytes of a value, which a size may make negative. -/
def skipField (buf : Bytes) (wireType : Nat) : Except SkipError Int :=
  if wireType = 0 then
    match (buf.take 10).findIdx? (fun b => b.toNat < 128) with
    | some i => .ok (i + 1 : Nat)
    | none => .error .unterminatedVarint
  else if wireType = 1 then
    if buf.length < 8 then .error .truncated64 else .ok 8
  else if wireType = 2 then
    match decodeVarint buf with
    | none => .error .invalidSize
    | some (length, n) =>
      let total := signed (n + length)
      if buf.length < total then .error .exceedsPayload else .ok total
  else if wireType = 5 then
    if buf.length < 4 then .error .truncated32 else .ok 4
  else .error (.unknownWireType wireType)

/-- Why a payload cannot be parsed; a negative size ends the program. -/
inductive ParseFailure where
  | invalidVarint
  | field (error : SkipError)
  | panic
deriving DecidableEq

/--
The numbers of the fields of a payload.  Every field takes a byte at least, so
the length of the payload is enough fuel.
-/
def parseFields : Nat -> Bytes -> Except ParseFailure (List Nat)
  | _, [] => .ok []
  | 0, _ => .ok []
  | fuel + 1, buf =>
    match decodeVarint buf with
    | none => .error .invalidVarint
    | some (tag, n) =>
    match skipField (buf.drop n) (tag % 8) with
    | .error error => .error (.field error)
    | .ok consumed =>
    if consumed < 0 then .error .panic
    else
      (parseFields fuel
        ((buf.drop n).drop consumed.toNat)).map
          (fun seen => tag / 8 % 2 ^ 32 :: seen)

inductive ProtobufOutcome where
  | valid
  | emptyPayload
  | failed (failure : ParseFailure)
  | missing (nums : List Nat)
deriving DecidableEq

def validateProtobufStructural (schema payload : Bytes) : ProtobufOutcome :=
  if payload = [] then .emptyPayload
  else
    let fieldNums := extractProtoFieldNums schema
    if fieldNums = [] then .valid
    else
      match parseFields payload.length payload with
      | .error failure => .failed failure
      | .ok seen =>
        let missing := fieldNums.filter (fun num => num ∉ seen)
        if missing = [] then .valid else .missing missing

/-!
## Compatibility
-/

def protoField (line : Bytes) : Option (Int × Bytes) :=
  let line := trimSpace line
  if 61 ∉ line ∨ 59 ∉ line then none
  else
    match fields line with
    | typ :: _ :: _ :: _ :: _ =>
      let eqIdx := line.idxOf 61
      let semiIdx := line.idxOf 59
      if semiIdx ≤ eqIdx then none
      else
        let numStr := trimSpace ((line.take semiIdx).drop (eqIdx + 1))
        let num := (scanInt numStr).getD 0
        if 0 < num then some (num, typ) else none
    | _ => none

def protoFields (protoText : Bytes) : List (Int × Bytes) :=
  ((splitOn 10 protoText).filterMap protoField).foldl
    (fun types f => setEntry f.1 f.2 types) []

inductive ProtobufError where
  | typeChanged (num : Int) (old new : Bytes)
  | numberRemoved (num : Int)
deriving DecidableEq

def protobufBackward (old new : Bytes) : Option ProtobufError :=
  (protoFields old).findSome? (fun f =>
    match getEntry f.1 (protoFields new) with
    | some typ =>
      if typ ≠ f.2 then some (.typeChanged f.1 f.2 typ) else none
    | none => none)

def protobufForward (old new : Bytes) : Option ProtobufError :=
  (protoFields old).findSome? (fun f =>
    if getEntry f.1 (protoFields new) = none then some (.numberRemoved f.1)
    else none)

/-!
## Payloads that are accepted
-/

/-- Every payload that is valid under the one schema is so under the other. -/
def ProtobufIncludes (s t : Bytes) : Prop :=
  forall payload, validateProtobufStructural s payload = .valid ->
    validateProtobufStructural t payload = .valid

theorem validate_eq_valid_iff {schema payload : Bytes} :
    validateProtobufStructural schema payload = .valid <->
      payload ≠ [] ∧ (extractProtoFieldNums schema = [] ∨
        exists seen, parseFields payload.length payload = .ok seen ∧
          forall num, num ∈ extractProtoFieldNums schema -> num ∈ seen) := by
  unfold validateProtobufStructural
  by_cases hempty : payload = []
  · rw [if_pos hempty]
    constructor
    · intro h
      cases h
    · intro h
      exact absurd hempty h.left
  rw [if_neg hempty]
  simp only
  by_cases hnums : extractProtoFieldNums schema = []
  · rw [if_pos hnums]
    exact ⟨fun _ => ⟨hempty, Or.inl hnums⟩, fun _ => rfl⟩
  rw [if_neg hnums]
  cases hparse : parseFields payload.length payload with
  | error failure => simp [hnums]
  | ok seen =>
  have hmissing : (extractProtoFieldNums schema).filter
      (fun num => num ∉ seen) = [] <->
        forall num, num ∈ extractProtoFieldNums schema ->
          num ∈ seen := by
    simp [List.filter_eq_nil_iff]
  simp only
  split
  · rename_i hnone
    exact ⟨fun _ => ⟨hempty, Or.inr ⟨seen, rfl, hmissing.mp hnone⟩⟩,
      fun _ => rfl⟩
  rename_i hsome
  constructor
  · intro h
    cases h
  rintro ⟨_, hnone | ⟨seen', hseen, hall⟩⟩
  · exact absurd hnone hnums
  · cases hseen
    exact absurd (hmissing.mpr hall) hsome

/-!
## A payload with given fields
-/

def zeroField (num : Nat) : Bytes :=
  putVarint 5 (num * 8) ++ [0]

theorem length_zeroField_pos (num : Nat) : 0 < (zeroField num).length := by
  unfold zeroField
  rw [List.length_append]
  exact Nat.succ_pos _

theorem parseFields_zeroFields {nums : List Nat}
    (hnums : forall num, num ∈ nums -> num < 2 ^ 32) {fuel : Nat}
    (hfuel : (nums.flatMap zeroField).length ≤ fuel) :
    parseFields fuel (nums.flatMap zeroField) = .ok nums := by
  induction nums generalizing fuel with
  | nil => cases fuel <;> rfl
  | cons num nums ih =>
  have hnum := hnums num (List.mem_cons_self ..)
  rw [List.flatMap_cons, List.length_append] at hfuel
  have hpos := length_zeroField_pos num
  cases fuel with
  | zero => omega
  | succ fuel =>
  have hfirst : (num :: nums).flatMap zeroField =
      putVarint 5 (num * 8) ++ 0 :: nums.flatMap zeroField := by
    rw [List.flatMap_cons, zeroField, List.append_assoc,
      List.singleton_append]
  have htag := decodeVarint_putVarint (k := 5) (n := num * 8)
    (by decide) (by decide) (by omega) (by omega)
    (0 :: nums.flatMap zeroField)
  have hskip : skipField (0 :: nums.flatMap zeroField) 0 = .ok 1 := by
    simp [skipField, List.findIdx?_cons]
  rw [hfirst, parseFields, htag]
  · simp only [List.drop_left, Nat.mul_mod_left, hskip]
    rw [if_neg (by decide)]
    change Except.map _ (parseFields fuel (nums.flatMap zeroField)) = _
    rw [ih (fun n hn => hnums n (List.mem_cons_of_mem num hn)) (by omega)]
    change Except.ok _ = Except.ok _
    rw [Nat.mul_div_cancel num (by decide), Nat.mod_eq_of_lt hnum]
  · intro hnil
    exact absurd (List.append_eq_nil_iff.mp hnil).right
      (List.cons_ne_nil _ _)

theorem lt_of_parseDecimal {bound n : Nat} {s : List Char}
    (h : parseDecimal bound s = some n) : n < bound := by
  unfold parseDecimal at h
  split at h
  · rename_i hall
    rw [← Option.some.inj h]
    exact hall.right.right
  · cases h

theorem lt_of_fieldNumber {line : Bytes} {num : Nat}
    (h : fieldNumber line = some num) : num < 2 ^ 32 := by
  unfold fieldNumber at h
  split at h
  · simp only at h
    split at h
    · rename_i n hscan
      split at h
      · rw [← Option.some.inj h]
        exact lt_of_parseDecimal hscan
      · cases h
    · cases h
  · cases h

theorem lt_of_mem_extractProtoFieldNums {schema : Bytes} {num : Nat}
    (h : num ∈ extractProtoFieldNums schema) : num < 2 ^ 32 := by
  unfold extractProtoFieldNums at h
  generalize false = inMessage at h
  generalize splitOn 10 schema = lines at h
  induction lines generalizing inMessage with
  | nil => cases h
  | cons line lines ih =>
  unfold fieldNumbersFrom at h
  simp only at h
  split at h
  · exact ih true h
  split at h
  · exact ih false h
  split at h
  · rcases List.mem_append.mp h with hline | hrest
    · exact lt_of_fieldNumber (Option.mem_toList.mp hline)
    · exact ih true hrest
  · exact ih false h

/--
A schema without numbers accepts every payload, and one with numbers those of
another one that has these numbers and perhaps more.
-/
theorem protobufIncludes_iff {s t : Bytes} :
    ProtobufIncludes s t <->
      extractProtoFieldNums t = [] ∨
        extractProtoFieldNums s ≠ [] ∧
          forall num, num ∈ extractProtoFieldNums t ->
            num ∈ extractProtoFieldNums s := by
  constructor
  · intro h
    by_cases ht : extractProtoFieldNums t = []
    · left
      exact ht
    right
    have hs : extractProtoFieldNums s ≠ [] := by
      intro hs
      -- the wire type of this field is unknown
      rcases (validate_eq_valid_iff.mp (h [7] (validate_eq_valid_iff.mpr
        ⟨by decide, Or.inl hs⟩))).right with hnone | ⟨seen, hseen, _⟩
      · exact ht hnone
      have hfails : parseFields [(7 : UInt8)].length [7] =
          .error (.field (.unknownWireType 7)) := by decide
      rw [hfails] at hseen
      cases hseen
    refine ⟨hs, ?_⟩
    intro num hnum
    have hparse := parseFields_zeroFields
      (fun n hn => @lt_of_mem_extractProtoFieldNums s n hn)
      (Nat.le_refl _)
    have hne : (extractProtoFieldNums s).flatMap zeroField ≠ [] := by
      intro hnil
      cases hnums : extractProtoFieldNums s with
      | nil => exact hs hnums
      | cons n rest =>
      rw [hnums, List.flatMap_cons] at hnil
      have hpos := length_zeroField_pos n
      rw [(List.append_eq_nil_iff.mp hnil).left] at hpos
      exact Nat.lt_irrefl 0 hpos
    rcases (validate_eq_valid_iff.mp (h _ (validate_eq_valid_iff.mpr
      ⟨hne, Or.inr ⟨_, hparse, fun n hn => hn⟩⟩))).right with
      hnone | ⟨seen, hseen, hall⟩
    · exact absurd hnone ht
    · rw [hparse] at hseen
      cases hseen
      exact hall num hnum
  · intro h payload hvalid
    rcases validate_eq_valid_iff.mp hvalid with ⟨hne, hpayload⟩
    apply validate_eq_valid_iff.mpr
    refine ⟨hne, ?_⟩
    rcases h with hnone | ⟨hs, hall⟩
    · left
      exact hnone
    right
    rcases hpayload with hnone | ⟨seen, hseen, hsall⟩
    · exact absurd hnone hs
    · exact ⟨seen, hseen, fun num hnum => hsall num (hall num hnum)⟩

end Schema
end ChimeraMQ
