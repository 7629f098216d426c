import ChimeraMQ.Schema.Protobuf
import ChimeraMQ.Foundation.Outcome
import Mathlib.Logic.Relation

/-!
# Scanning a payload

The loop over the fields of a payload with the slices that it takes.  A payload
is cut at the tag of a field and behind its value, and a cut panics if it is not
inside of what is left.
-/

namespace ChimeraMQ
namespace Schema

open Foundation

def scanField (buf : Bytes) : Outcome ParseFailure (Nat × Bytes) :=
  match decodeVarint buf with
  | none => .error .invalidVarint
  | some (tag, n) => do
      let buf ← Outcome.sliceFrom buf n
      let consumed ← Outcome.ofExcept
        ((skipField buf (tag % 8)).mapError ParseFailure.field)
      let buf ← Outcome.sliceFrom buf consumed
      return (tag / 8 % 2 ^ 32, buf)

/-- The loop, if it ends within some number of rounds. -/
def scanFields :
    Nat -> List Nat -> Bytes -> Option (Outcome ParseFailure (List Nat))
  | _, seen, [] => some (.ok seen)
  | 0, _, _ => none
  | rounds + 1, seen, buf =>
    match scanField buf with
    | .ok (num, buf) => scanFields rounds (seen ++ [num]) buf
    | .error failure => some (.error failure)
    | .panic => some .panic

/-- The check of a payload, if it ends within some number of rounds. -/
def scanPayload (rounds : Nat) (schema payload : Bytes) :
    Option (Outcome Empty ProtobufOutcome) :=
  if payload = [] then some (.ok .emptyPayload)
  else
    let fieldNums := extractProtoFieldNums schema
    if fieldNums = [] then some (.ok .valid)
    else
      (scanFields rounds [] payload).map (fun parsed =>
        match parsed with
        | .panic => .panic
        | .error failure => .ok (.failed failure)
        | .ok seen =>
          let missing := fieldNums.filter (fun num => num ∉ seen)
          .ok (if missing = [] then .valid else .missing missing))

/-- The check ends with a result, and every slice is inside of the payload. -/
def StaysInBounds (schema payload : Bytes) : Prop :=
  exists rounds result,
    scanPayload rounds schema payload = some (.ok result)

/-!
## Fields
-/

/-- A buffer that begins with a value of a wire type, and what is behind it. -/
inductive Value : Nat -> Bytes -> Bytes -> Prop
  | varint (e : Varint) (rest : Bytes) : Value 0 (e.bytes ++ rest) rest
  | fixed64 (value rest : Bytes) (hlength : value.length = 8) :
      Value 1 (value ++ rest) rest
  | delimited (size : Varint) (value rest : Bytes)
      (hlength : value.length = size.value)
      (hsize : size.bytes.length + size.value < 2 ^ 63) :
      Value 2 (size.bytes ++ (value ++ rest)) rest
  /-- The sum of the size and its own length begins again at zero. -/
  | wrapped (size : Varint) (rest : Bytes)
      (hsize : 2 ^ 64 ≤ size.bytes.length + size.value) :
      Value 2 (size.bytes ++ rest)
        ((size.bytes ++ rest).drop
          (size.bytes.length + size.value - 2 ^ 64))
  | fixed32 (value rest : Bytes) (hlength : value.length = 4) :
      Value 5 (value ++ rest) rest

def Skipped (buf rest : Bytes) : Prop :=
  exists (tag : Varint) (behind : Bytes),
    buf = tag.bytes ++ behind ∧ Value (tag.value % 8) behind rest

/-- A size that gives a negative number together with its own length. -/
def NegativeSize (size : Varint) : Prop :=
  2 ^ 63 ≤ size.bytes.length + size.value ∧
    size.bytes.length + size.value < 2 ^ 64

/-- A buffer begins with a field whose size is negative. -/
def Oversized (buf : Bytes) : Prop :=
  exists (tag size : Varint) (rest : Bytes),
    buf = tag.bytes ++ (size.bytes ++ rest) ∧ tag.value % 8 = 2 ∧
      NegativeSize size

/-- A field with a negative size comes behind fields that are skipped. -/
def ReachesOversized (buf : Bytes) : Prop :=
  exists rest, Relation.ReflTransGen Skipped buf rest ∧ Oversized rest

def Harmless (schema payload : Bytes) : Prop :=
  extractProtoFieldNums schema = [] ∨ ¬ ReachesOversized payload

/-!
## Values
-/

theorem signed_of_lt {m : Nat} (h : m < 2 ^ 63) : signed m = m := by
  unfold signed
  rw [if_pos (by omega)]
  omega

theorem signed_of_ge {m : Nat} (h : 2 ^ 63 ≤ m) (hm : m < 2 ^ 64) :
    signed m = m - 2 ^ 64 := by
  unfold signed
  rw [if_neg (by omega)]
  omega

theorem signed_of_wrapped {m : Nat} (h : 2 ^ 64 ≤ m)
    (hm : m < 2 ^ 64 + 2 ^ 63) : signed m = (m - 2 ^ 64 : Nat) := by
  unfold signed
  rw [if_pos (by omega)]
  omega

theorem map_findIdx?_take (k i val : Nat) (buf : Bytes) :
    ((buf.take k).findIdx? (fun b => b.toNat < 128)).map
        (fun j => i + (j + 1)) =
      (decodeVarintFrom k i val buf).map (fun e => e.2) := by
  induction k generalizing i val buf with
  | zero => simp [decodeVarintFrom]
  | succ k ih =>
  cases buf with
  | nil => simp [decodeVarintFrom]
  | cons b rest =>
  rw [List.take_succ_cons, List.findIdx?_cons, decodeVarintFrom]
  by_cases hlow : b.toNat < 128
  · simp [hlow]
  simp only [hlow, decide_false, Bool.false_eq_true, if_false]
  rw [← ih (i + 1), Option.map_map]
  congr 1
  funext j
  simp only [Function.comp_apply]
  omega

variable {buf : Bytes}

theorem skipField_varint_none (h : decodeVarint buf = none) :
    skipField buf 0 = .error .unterminatedVarint := by
  have hfind := map_findIdx?_take 10 0 0 buf
  rw [show decodeVarintFrom 10 0 0 buf = none from h, Option.map_none,
    Option.map_eq_none_iff] at hfind
  unfold skipField
  rw [if_pos rfl, hfind]

theorem skipField_varint (e : Varint) (rest : Bytes) :
    skipField (e.bytes ++ rest) 0 = .ok e.bytes.length := by
  have hfind := map_findIdx?_take 10 0 0 (e.bytes ++ rest)
  rw [show decodeVarintFrom 10 0 0 (e.bytes ++ rest) = _ from
      decodeVarint_bytes e rest, Option.map_some, Option.map_eq_some_iff]
    at hfind
  rcases hfind with ⟨j, hj, hn⟩
  unfold skipField
  rw [if_pos rfl, hj]
  simp only at hn ⊢
  rw [← hn, Nat.zero_add]

theorem skipField_delimited (size : Varint) (rest : Bytes) :
    skipField (size.bytes ++ rest) 2 =
      if (size.bytes ++ rest).length <
          signed (size.bytes.length + size.value) then .error .exceedsPayload
      else .ok (signed (size.bytes.length + size.value)) := by
  unfold skipField
  rw [if_neg (by decide), if_neg (by decide), if_pos rfl, decodeVarint_bytes]

theorem size_lt (size : Varint) :
    size.bytes.length + size.value < 2 ^ 64 + 2 ^ 63 := by
  have hlength := size.length_bytes_le
  have hvalue := size.value_lt
  omega

variable {rest : Bytes}

theorem Value.skipField {wireType : Nat} (h : Value wireType buf rest) :
    exists n : Nat, skipField buf wireType = .ok (n : Int) ∧
      n ≤ buf.length ∧ rest = buf.drop n := by
  cases h with
  | varint e =>
    refine ⟨e.bytes.length, skipField_varint e rest, ?_, ?_⟩
    · rw [List.length_append]
      exact Nat.le_add_right _ _
    · rw [List.drop_left]
  | fixed64 value _ hlength =>
    refine ⟨8, ?_, ?_, ?_⟩
    · simp [Schema.skipField, hlength]
    · rw [List.length_append]
      omega
    · rw [← hlength, List.drop_left]
  | delimited size value _ hlength hsize =>
    refine ⟨size.bytes.length + size.value, ?_, ?_, ?_⟩
    · rw [skipField_delimited, signed_of_lt hsize, if_neg]
      rw [List.length_append, List.length_append]
      omega
    · rw [List.length_append, List.length_append]
      omega
    · rw [← hlength, ← List.length_append, ← List.append_assoc,
        List.drop_left]
  | wrapped size rest hsize =>
    have hlt := size_lt size
    have hvalue := size.value_lt
    refine ⟨size.bytes.length + size.value - 2 ^ 64, ?_, ?_, rfl⟩
    · rw [skipField_delimited, signed_of_wrapped hsize hlt, if_neg]
      rw [List.length_append]
      omega
    · rw [List.length_append]
      omega
  | fixed32 value _ hlength =>
  refine ⟨4, ?_, ?_, ?_⟩
  · simp [Schema.skipField, hlength]
  · rw [List.length_append]
    omega
  · rw [← hlength, List.drop_left]

variable {c : Int}

theorem value_of_skipField_delimited {size : Varint}
    (h : skipField (size.bytes ++ rest) 2 = .ok c) :
    (exists behind, Value 2 (size.bytes ++ rest) behind) ∨
      NegativeSize size ∧
        c = (size.bytes.length + size.value : Nat) - 2 ^ 64 := by
  rw [skipField_delimited] at h
  by_cases hsmall : size.bytes.length + size.value < 2 ^ 63
  · left
    rw [signed_of_lt hsmall, List.length_append] at h
    have hroom : ¬ ((size.bytes.length + rest.length : Nat) : Int) <
        (size.bytes.length + size.value : Nat) := by
      intro hover
      rw [if_pos hover] at h
      cases h
    have hvalue := Value.delimited size (rest.take size.value)
      (rest.drop size.value) (by rw [List.length_take]; omega) hsmall
    rw [List.take_append_drop] at hvalue
    exact ⟨_, hvalue⟩
  · by_cases hbig : size.bytes.length + size.value < 2 ^ 64
    · right
      rw [signed_of_ge (Nat.le_of_not_lt hsmall) hbig,
        if_neg (by rw [List.length_append]; omega)] at h
      exact ⟨⟨Nat.le_of_not_lt hsmall, hbig⟩, (Except.ok.inj h).symm⟩
    · left
      exact ⟨_, Value.wrapped size rest (Nat.le_of_not_lt hbig)⟩

theorem value_of_skipField {wireType : Nat} (h : skipField buf wireType = .ok c) :
    (exists rest, Value wireType buf rest) ∨
      wireType = 2 ∧ exists (size : Varint) (rest : Bytes),
        buf = size.bytes ++ rest ∧ NegativeSize size ∧
          c = (size.bytes.length + size.value : Nat) - 2 ^ 64 := by
  by_cases hvarint : wireType = 0
  · left
    subst hvarint
    cases hdecode : decodeVarint buf with
    | none =>
      rw [skipField_varint_none hdecode] at h
      cases h
    | some e =>
    rcases decodeVarint_eq_some_iff.mp hdecode with ⟨e, rest, rfl, -, -⟩
    exact ⟨rest, .varint e rest⟩
  by_cases hfixed64 : wireType = 1
  · left
    subst hfixed64
    have hlength : ¬ buf.length < 8 := by
      intro hshort
      simp [skipField, hshort] at h
    refine ⟨buf.drop 8, ?_⟩
    have hvalue := Value.fixed64 (buf.take 8) (buf.drop 8)
      (by rw [List.length_take]; omega)
    rwa [List.take_append_drop] at hvalue
  by_cases hdelimited : wireType = 2
  · subst hdelimited
    cases hdecode : decodeVarint buf with
    | none => simp [skipField, hdecode] at h
    | some e =>
    rcases decodeVarint_eq_some_iff.mp hdecode with
      ⟨size, rest, rfl, -, -⟩
    exact (value_of_skipField_delimited h).imp id (fun hneg =>
      ⟨rfl, size, rest, rfl, hneg⟩)
  by_cases hfixed32 : wireType = 5
  · left
    subst hfixed32
    have hlength : ¬ buf.length < 4 := by
      intro hshort
      simp [skipField, hshort] at h
    refine ⟨buf.drop 4, ?_⟩
    have hvalue := Value.fixed32 (buf.take 4) (buf.drop 4)
      (by rw [List.length_take]; omega)
    rwa [List.take_append_drop] at hvalue
  · unfold skipField at h
    rw [if_neg hvarint, if_neg hfixed64, if_neg hdelimited,
      if_neg hfixed32] at h
    cases h

/-!
## Rounds
-/

theorem scanField_bytes (tag : Varint) (behind : Bytes) :
    scanField (tag.bytes ++ behind) =
      ((Outcome.ofExcept
        ((skipField behind (tag.value % 8)).mapError ParseFailure.field)) >>=
          fun consumed => Outcome.sliceFrom behind consumed >>= fun rest =>
            (.ok (tag.value / 8 % 2 ^ 32, rest))) := by
  have hcut : (Outcome.sliceFrom (tag.bytes ++ behind) tag.bytes.length :
      Outcome ParseFailure Bytes) = .ok behind := by
    unfold Outcome.sliceFrom
    rw [if_pos, Int.toNat_natCast, List.drop_left]
    rw [List.length_append]
    omega
  unfold scanField
  rw [decodeVarint_bytes]
  simp only [hcut, Outcome.ok_bind]
  rfl

theorem scanField_of_skipped (h : Skipped buf rest) :
    exists num, scanField buf = .ok (num, rest) := by
  rcases h with ⟨tag, behind, rfl, hvalue⟩
  rcases hvalue.skipField with ⟨n, hskip, hn, hrest⟩
  refine ⟨tag.value / 8 % 2 ^ 32, ?_⟩
  have hcut : (Outcome.sliceFrom behind n : Outcome ParseFailure Bytes) =
      .ok rest := by
    unfold Outcome.sliceFrom
    rw [if_pos (by omega), Int.toNat_natCast, hrest]
  rw [scanField_bytes, hskip]
  simp [Except.mapError, Outcome.ofExcept, hcut]

theorem scanField_of_oversized (h : Oversized buf) :
    scanField buf = .panic := by
  rcases h with ⟨tag, size, rest, rfl, htype, hsize⟩
  have hskip : skipField (size.bytes ++ rest) 2 =
      .ok (signed (size.bytes.length + size.value)) := by
    rw [skipField_delimited, signed_of_ge hsize.1 hsize.2, if_neg]
    have hlt := hsize.2
    omega
  have hcut : (Outcome.sliceFrom (size.bytes ++ rest)
      (signed (size.bytes.length + size.value)) :
        Outcome ParseFailure Bytes) = .panic := by
    unfold Outcome.sliceFrom
    rw [signed_of_ge hsize.1 hsize.2, if_neg]
    have hlt := hsize.2
    omega
  rw [scanField_bytes, htype, hskip]
  simp [Except.mapError, Outcome.ofExcept, hcut]

theorem scanField_cases (buf : Bytes) :
    (exists num rest, scanField buf = .ok (num, rest) ∧ Skipped buf rest) ∨
      (scanField buf = .panic ∧ Oversized buf) ∨
        exists failure, scanField buf = .error failure := by
  cases hdecode : decodeVarint buf with
  | none =>
    right
    right
    exact ⟨.invalidVarint, by rw [scanField, hdecode]⟩
  | some e =>
  rcases decodeVarint_eq_some_iff.mp hdecode with ⟨tag, behind, rfl, -, -⟩
  cases hskip : skipField behind (tag.value % 8) with
  | error err =>
    right
    right
    refine ⟨.field err, ?_⟩
    rw [scanField_bytes, hskip]
    rfl
  | ok c =>
  rcases value_of_skipField hskip with
    ⟨rest, hvalue⟩ | ⟨htype, size, rest, rfl, hsize, -⟩
  · left
    have hskipped : Skipped (tag.bytes ++ behind) rest :=
      ⟨tag, behind, rfl, hvalue⟩
    rcases scanField_of_skipped hskipped with ⟨num, hnum⟩
    exact ⟨num, rest, hnum, hskipped⟩
  right
  left
  have hover : Oversized (tag.bytes ++ (size.bytes ++ rest)) :=
    ⟨tag, size, rest, rfl, htype, hsize⟩
  exact ⟨scanField_of_oversized hover, hover⟩

theorem length_lt_of_skipped (h : Skipped buf rest) :
    rest.length < buf.length := by
  rcases h with ⟨tag, behind, rfl, hvalue⟩
  rcases hvalue.skipField with ⟨n, -, -, hrest⟩
  rw [hrest, List.length_drop, List.length_append, tag.length_bytes]
  omega

theorem eq_of_skipped {num : Nat} (hscan : scanField buf = .ok (num, rest))
    {rest' : Bytes} (h : Skipped buf rest') : rest' = rest := by
  rcases scanField_of_skipped h with ⟨num', hnum⟩
  rw [hscan] at hnum
  cases hnum
  rfl

/-!
## Whole payloads
-/

theorem reachesOversized_of_ok {num : Nat}
    (hscan : scanField buf = .ok (num, rest)) (hskipped : Skipped buf rest) :
    ReachesOversized buf <-> ReachesOversized rest := by
  constructor
  · rintro ⟨last, hreach, hover⟩
    rcases Relation.ReflTransGen.cases_head hreach with
      rfl | ⟨mid, hfirst, hrest⟩
    · rw [scanField_of_oversized hover] at hscan
      cases hscan
    · rw [eq_of_skipped hscan hfirst] at hrest
      exact ⟨last, hrest, hover⟩
  · rintro ⟨last, hreach, hover⟩
    exact ⟨last, Relation.ReflTransGen.head hskipped hreach, hover⟩

theorem not_reachesOversized_of_error {failure : ParseFailure}
    (hscan : scanField buf = .error failure) : ¬ ReachesOversized buf := by
  rintro ⟨last, hreach, hover⟩
  rcases Relation.ReflTransGen.cases_head hreach with rfl | ⟨mid, hfirst, -⟩
  · rw [scanField_of_oversized hover] at hscan
    cases hscan
  · rcases scanField_of_skipped hfirst with ⟨num, hnum⟩
    rw [hscan] at hnum
    cases hnum

theorem not_reachesOversized_nil : ¬ ReachesOversized [] := by
  have hscan : scanField [] = .error .invalidVarint := rfl
  exact not_reachesOversized_of_error hscan

theorem scanFields_ends {rounds : Nat} (hrounds : buf.length ≤ rounds)
    (seen : List Nat) :
    exists parsed, scanFields rounds seen buf = some parsed := by
  induction rounds generalizing seen buf with
  | zero =>
    have hnil : buf = [] := List.length_eq_zero_iff.mp (by omega)
    rw [hnil]
    exact ⟨.ok seen, rfl⟩
  | succ rounds ih =>
  cases buf with
  | nil => exact ⟨.ok seen, rfl⟩
  | cons b buf =>
  rw [scanFields]
  · rcases scanField_cases (b :: buf) with
      ⟨num, rest, hscan, hskipped⟩ | ⟨hscan, -⟩ | ⟨failure, hscan⟩
    · have hless := length_lt_of_skipped hskipped
      simp only [hscan]
      exact ih (by omega) (seen ++ [num])
    · simp only [hscan]
      exact ⟨.panic, rfl⟩
    · simp only [hscan]
      exact ⟨.error failure, rfl⟩
  · intro h
    cases h

theorem scanFields_eq_panic_iff {rounds : Nat} {seen : List Nat}
    {parsed : Outcome ParseFailure (List Nat)}
    (h : scanFields rounds seen buf = some parsed) :
    parsed = .panic <-> ReachesOversized buf := by
  induction rounds generalizing seen buf with
  | zero =>
    cases buf with
    | nil =>
      cases h
      simp only [reduceCtorEq, false_iff]
      exact not_reachesOversized_nil
    | cons b buf => cases h
  | succ rounds ih =>
  cases buf with
  | nil =>
    cases h
    simp only [reduceCtorEq, false_iff]
    exact not_reachesOversized_nil
  | cons b buf =>
  rw [scanFields] at h
  · rcases scanField_cases (b :: buf) with
      ⟨num, rest, hscan, hskipped⟩ | ⟨hscan, hover⟩ | ⟨failure, hscan⟩
    · simp only [hscan] at h
      rw [reachesOversized_of_ok hscan hskipped]
      exact ih h
    · simp only [hscan] at h
      cases h
      exact ⟨fun _ => ⟨_, .refl, hover⟩, fun _ => rfl⟩
    · simp only [hscan] at h
      cases h
      simp only [reduceCtorEq, false_iff]
      exact not_reachesOversized_of_error hscan
  · intro h
    cases h

/--
The check comes back with a result exactly if the schema has no numbers or no
field with a negative size is reached.
-/
theorem staysInBounds_iff (schema payload : Bytes) :
    StaysInBounds schema payload <-> Harmless schema payload := by
  unfold StaysInBounds Harmless scanPayload
  by_cases hempty : payload = []
  · simp only [if_pos hempty]
    refine ⟨fun _ => Or.inr ?_, fun _ => ⟨0, _, rfl⟩⟩
    rw [hempty]
    exact not_reachesOversized_nil
  by_cases hnums : extractProtoFieldNums schema = []
  · simp only [if_neg hempty, if_pos hnums]
    exact ⟨fun _ => Or.inl hnums, fun _ => ⟨0, _, rfl⟩⟩
  simp only [if_neg hempty, if_neg hnums]
  constructor
  · rintro ⟨rounds, result, h⟩
    rcases Option.map_eq_some_iff.mp h with ⟨parsed, hparsed, hresult⟩
    refine Or.inr (fun hreach => ?_)
    rw [(scanFields_eq_panic_iff hparsed).mpr hreach] at hresult
    cases hresult
  intro h
  have hreach := h.resolve_left hnums
  rcases scanFields_ends (Nat.le_refl payload.length) [] with
    ⟨parsed, hparsed⟩
  have hreturns := mt (scanFields_eq_panic_iff hparsed).mp hreach
  refine ⟨payload.length, ?_⟩
  rw [hparsed]
  cases parsed with
  | ok seen => exact ⟨_, rfl⟩
  | error failure => exact ⟨_, rfl⟩
  | panic => exact absurd rfl hreturns

/-- A field of a length whose size is the largest number with a sign. -/
def hugeSize : Bytes :=
  10 :: (List.replicate 8 255 ++ [127])

theorem not_staysInBounds_hugeSize :
    ¬ StaysInBounds (ascii "message M \x7b\n  string a = 1;\n\x7d")
      hugeSize := by
  rintro ⟨rounds, result, h⟩
  cases rounds with
  | zero => cases h
  | succ rounds => cases h

/-!
## The check without slices
-/

def seenBehind (seen : List Nat) :
    Except ParseFailure (List Nat) -> Outcome ParseFailure (List Nat)
  | .ok more => .ok (seen ++ more)
  | .error .panic => .panic
  | .error failure => .error failure

def ProtobufOutcome.returned : ProtobufOutcome -> Outcome Empty ProtobufOutcome
  | .failed .panic => .panic
  | result => .ok result

theorem seenBehind_map (seen : List Nat) (num : Nat)
    (parsed : Except ParseFailure (List Nat)) :
    seenBehind seen (parsed.map (fun more => num :: more)) =
      seenBehind (seen ++ [num]) parsed := by
  cases parsed with
  | ok more => simp [Except.map, seenBehind]
  | error failure => cases failure <;> rfl

theorem skipField_le_length {wireType : Nat}
    (h : skipField buf wireType = .ok c) : c ≤ buf.length := by
  rcases value_of_skipField h with
    ⟨rest, hvalue⟩ | ⟨-, size, rest, -, hsize, hc⟩
  · rcases hvalue.skipField with ⟨n, hskip, hn, -⟩
    rw [h] at hskip
    rw [Except.ok.inj hskip]
    omega
  · have hlt := hsize.2
    omega

theorem scanField_of_skip (tag : Varint) {behind : Bytes}
    (h : skipField behind (tag.value % 8) = .ok c) :
    scanField (tag.bytes ++ behind) =
      if c < 0 then .panic
      else .ok (tag.value / 8 % 2 ^ 32, behind.drop c.toNat) := by
  have hle := skipField_le_length h
  rw [scanField_bytes, h]
  by_cases hneg : c < 0
  · have hcut : (Outcome.sliceFrom behind c : Outcome ParseFailure Bytes) =
        .panic :=
      if_neg (by omega)
    rw [if_pos hneg]
    simp [Except.mapError, Outcome.ofExcept, hcut]
  have hcut : (Outcome.sliceFrom behind c : Outcome ParseFailure Bytes) =
      .ok (behind.drop c.toNat) :=
    if_pos (by omega)
  rw [if_neg hneg]
  simp [Except.mapError, Outcome.ofExcept, hcut]

theorem bytes_append_ne_nil (e : Varint) (rest : Bytes) :
    e.bytes ++ rest ≠ [] := by
  intro hnil
  have hbytes := (List.append_eq_nil_iff.mp hnil).1
  have hlength := e.length_bytes
  rw [hbytes] at hlength
  cases hlength

theorem parseFields_of_skip (tag : Varint) {behind : Bytes}
    (h : skipField behind (tag.value % 8) = .ok c) (rounds : Nat) :
    parseFields (rounds + 1) (tag.bytes ++ behind) =
      if c < 0 then .error .panic
      else (parseFields rounds (behind.drop c.toNat)).map
        (fun more => tag.value / 8 % 2 ^ 32 :: more) := by
  rw [parseFields, decodeVarint_bytes]
  · simp only [List.drop_left, h]
  · exact bytes_append_ne_nil tag behind

theorem fails_of_skip_error (tag : Varint) {behind : Bytes} {err : SkipError}
    (h : skipField behind (tag.value % 8) = .error err) (rounds : Nat) :
    scanField (tag.bytes ++ behind) = .error (.field err) ∧
      parseFields (rounds + 1) (tag.bytes ++ behind) =
        .error (.field err) := by
  constructor
  · rw [scanField_bytes, h]
    rfl
  · rw [parseFields, decodeVarint_bytes]
    · simp only [List.drop_left, h]
    · exact bytes_append_ne_nil tag behind

theorem scanFields_refines {rounds : Nat} {seen : List Nat}
    {parsed : Outcome ParseFailure (List Nat)}
    (h : scanFields rounds seen buf = some parsed) :
    parsed = seenBehind seen (parseFields rounds buf) := by
  induction rounds generalizing seen buf with
  | zero =>
    cases buf with
    | nil =>
      cases h
      simp [parseFields, seenBehind]
    | cons b buf => cases h
  | succ rounds ih =>
  cases buf with
  | nil =>
    cases h
    simp [parseFields, seenBehind]
  | cons b buf =>
  rw [scanFields] at h
  · cases hdecode : decodeVarint (b :: buf) with
    | none =>
      rw [scanField, hdecode] at h
      cases h
      rw [parseFields, hdecode]
      · rfl
      · intro hnil
        cases hnil
    | some e =>
    rcases decodeVarint_eq_some_iff.mp hdecode with
      ⟨tag, behind, hbuf, -, -⟩
    rw [hbuf] at h ⊢
    cases hskip : skipField behind (tag.value % 8) with
    | error err =>
      rcases fails_of_skip_error tag hskip rounds with
        ⟨hscan, hparse⟩
      rw [hscan] at h
      rw [hparse]
      cases h
      rfl
    | ok c =>
    rw [scanField_of_skip tag hskip] at h
    rw [parseFields_of_skip tag hskip]
    by_cases hneg : c < 0
    · rw [if_pos hneg] at h ⊢
      cases h
      rfl
    · rw [if_neg hneg] at h ⊢
      rw [seenBehind_map]
      exact ih h
  · intro hnil
    cases hnil

theorem scanPayload_refines (schema payload : Bytes) :
    scanPayload payload.length schema payload =
      some (validateProtobufStructural schema payload).returned := by
  unfold scanPayload validateProtobufStructural
  by_cases hempty : payload = []
  · rw [if_pos hempty, if_pos hempty]
    rfl
  rw [if_neg hempty, if_neg hempty]
  simp only
  by_cases hnums : extractProtoFieldNums schema = []
  · rw [if_pos hnums, if_pos hnums]
    rfl
  rw [if_neg hnums, if_neg hnums]
  rcases scanFields_ends (Nat.le_refl payload.length) [] with
    ⟨parsed, hparsed⟩
  rw [hparsed, scanFields_refines hparsed]
  cases parseFields payload.length payload with
  | ok seen =>
    simp only [seenBehind, Option.map_some, List.nil_append]
    split <;> rfl
  | error failure => cases failure <;> rfl

end Schema
end ChimeraMQ
