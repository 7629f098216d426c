import ChimeraMQ.Foundation.Reading
import Mathlib.Data.List.Forall2

/-!
# Values of AMQP

A value is a type code with what follows it, and the fields of a frame are a
list of values behind a descriptor.  The length of a string is written in a
single byte, whatever the length is, so longer strings are not read back.
-/

namespace ChimeraMQ
namespace Amqp

open Foundation

def typeNull : UInt8 := 0x40
def typeBoolean : UInt8 := 0x56
def typeUbyte : UInt8 := 0x50
def typeUshort : UInt8 := 0x60
def typeUint : UInt8 := 0x70
def typeUlong : UInt8 := 0x80
def typeByte : UInt8 := 0x51
def typeShort : UInt8 := 0x61
def typeInt : UInt8 := 0x71
def typeLong : UInt8 := 0x81
def typeFloat : UInt8 := 0x72
def typeDouble : UInt8 := 0x82
def typeVbin32 : UInt8 := 0xA0
def typeStr32 : UInt8 := 0xA1
def typeSymbol : UInt8 := 0xA3
def typeTimestamp : UInt8 := 0x83
def typeList0 : UInt8 := 0x45
def typeList32 : UInt8 := 0xD0

def describedMarker : UInt8 := 0x00

/-!
## Values
-/

inductive Value where
  | null
  | bool (b : Bool)
  | ubyte (n : UInt8)
  | ushort (n : UInt16)
  | uint (n : UInt32)
  | ulong (n : UInt64)
  | byte (n : Int8)
  | short (n : Int16)
  | int32 (n : Int32)
  | long (n : Int64)
  | binary (b : Bytes)
  | list (items : List Value)

/-- What is written; a value of any other type is written as null. -/
inductive Field where
  | null
  | bool (b : Bool)
  | ubyte (n : UInt8)
  | ushort (n : UInt16)
  | uint (n : UInt32)
  | ulong (n : UInt64)
  | int (n : Int64)
  | string (s : Bytes)
  | binary (b : Bytes)
  | byte (n : Int8)
  | short (n : Int16)
  | int32 (n : Int32)
  | long (n : Int64)
  | other
deriving DecidableEq

/-- Why bytes are no value. -/
inductive TypeError where
  | stream (err : StreamError)
  | unsupportedType (typeCode : UInt8)
  | expectedMarker (marker : UInt8)
  | descriptorType
deriving DecidableEq

/-!
## Reading
-/

def readByte : Reader TypeError UInt8 :=
  takeByte (.stream .eof)

def readBytes (n : Nat) : Reader TypeError Bytes :=
  takeBytes (fun _ => .stream .unexpectedEOF) n

def readUint16 : Reader TypeError UInt16 :=
  UInt16.ofNat <$> takeBe (fun _ => .stream .unexpectedEOF) 2

def readUint32 : Reader TypeError UInt32 :=
  UInt32.ofNat <$> takeBe (fun _ => .stream .unexpectedEOF) 4

def readUint64 : Reader TypeError UInt64 :=
  UInt64.ofNat <$> takeBe (fun _ => .stream .unexpectedEOF) 8

def readShortBytes : Reader TypeError Value := do
  let length <- readByte
  Value.binary <$> readBytes length.toNat

def readListItems (readItem : Reader TypeError Value) :
    Nat -> Reader TypeError (List Value)
  | 0 => pure []
  | n + 1 => do
      let v <- readItem
      let items <- readListItems readItem n
      pure (v :: items)

def readTyped (readItem : Reader TypeError Value) (typeCode : UInt8) :
    Reader TypeError Value :=
  if typeCode = typeNull then pure .null
  else if typeCode = typeBoolean then (fun b => .bool (b ≠ 0)) <$> readByte
  else if typeCode = typeUbyte then .ubyte <$> readByte
  else if typeCode = typeUshort then .ushort <$> readUint16
  else if typeCode = typeUint then .uint <$> readUint32
  else if typeCode = typeUlong then .ulong <$> readUint64
  else if typeCode = typeByte then (fun b => .byte b.toInt8) <$> readByte
  else if typeCode = typeShort then (fun v => .short v.toInt16) <$> readUint16
  else if typeCode = typeInt then (fun v => .int32 v.toInt32) <$> readUint32
  else if typeCode = typeLong then (fun v => .long v.toInt64) <$> readUint64
  else if typeCode = typeFloat then .uint <$> readUint32
  else if typeCode = typeDouble then .ulong <$> readUint64
  else if typeCode = typeStr32 then readShortBytes
  else if typeCode = typeSymbol then readShortBytes
  else if typeCode = typeVbin32 then readShortBytes
  else if typeCode = typeTimestamp then .ulong <$> readUint64
  else if typeCode = typeList0 then pure (.list [])
  else if typeCode = typeList32 then do
    let _ <- readUint32
    let count <- readUint32
    .list <$> readListItems readItem count.toNat
  else if typeCode = describedMarker then do
    let _ <- readItem
    readItem
  else Reader.fail (.unsupportedType typeCode)

def readNested : Nat -> Reader TypeError Value
  | 0 => Reader.fail (.stream .eof)
  | k + 1 => do
      let typeCode <- readByte
      readTyped (readNested k) typeCode

def readAny : Reader TypeError Value :=
  fun s => readNested (s.length + 1) s

def readDescriptor : Reader TypeError UInt64 := do
  let marker <- readByte
  if marker ≠ describedMarker then Reader.fail (.expectedMarker marker)
  else do
    match <- readAny with
    | .ulong d => pure d
    | .long d => pure d.toUInt64
    | _ => Reader.fail .descriptorType

def parseDescribedType (data : Bytes) : Except TypeError (UInt64 × Bytes) :=
  readDescriptor data

/-!
## Writing
-/

def appendAMQPValue : Field -> Bytes
  | .null => [typeNull]
  | .bool b => [typeBoolean, if b then 0x01 else 0x00]
  | .ubyte n => [typeUbyte, n]
  | .ushort n => typeUshort :: be 2 n.toNat
  | .uint n => typeUint :: be 4 n.toNat
  | .ulong n => typeUlong :: be 8 n.toNat
  | .int n => typeUint :: be 4 n.toUInt64.toNat
  | .string s => typeStr32 :: UInt8.ofNat s.length :: s
  | .binary b => typeVbin32 :: UInt8.ofNat b.length :: b
  | .byte n => [typeByte, n.toUInt8]
  | .short n => typeShort :: be 2 n.toUInt16.toNat
  | .int32 n => typeInt :: be 4 n.toUInt32.toNat
  | .long n => typeLong :: be 8 n.toUInt64.toNat
  | .other => [typeNull]

def buildDescribedList (descriptor : UInt64) (fields : List Field) : Bytes :=
  let listBody := fields.flatMap appendAMQPValue
  describedMarker :: typeUlong :: (be 8 descriptor.toNat ++
    typeList32 :: (be 4 (4 + 4 + listBody.length) ++
      (be 4 fields.length ++ listBody)))

/-!
## What is read back
-/

def Value.number : Value -> Option Int
  | .ubyte n => some n.toNat
  | .ushort n => some n.toNat
  | .uint n => some n.toNat
  | .ulong n => some n.toNat
  | .byte n => some n.toInt
  | .short n => some n.toInt
  | .int32 n => some n.toInt
  | .long n => some n.toInt
  | _ => none

/--
A value is the one that was written: strings are read as bytes, and integers
without a width of their own as any that is the same number.
-/
def SameValue : Field -> Value -> Prop
  | .null, w => w = .null
  | .bool b, w => w = .bool b
  | .ubyte n, w => w = .ubyte n
  | .ushort n, w => w = .ushort n
  | .uint n, w => w = .uint n
  | .ulong n, w => w = .ulong n
  | .int n, w => w.number = some n.toInt
  | .string s, w => w = .binary s
  | .binary b, w => w = .binary b
  | .byte n, w => w = .byte n
  | .short n, w => w = .short n
  | .int32 n, w => w = .int32 n
  | .long n, w => w = .long n
  | .other, _ => False

/-- The value is read back from its encoding, whatever follows it. -/
def RoundTrips (v : Field) : Prop :=
  exists w, SameValue v w ∧ Reads readAny (appendAMQPValue v) w

/-- The descriptor and the fields are read back, and nothing is left. -/
def ListRoundTrips (descriptor : UInt64) (fields : List Field) : Prop :=
  exists value items,
    parseDescribedType (buildDescribedList descriptor fields) =
        .ok (descriptor, value) ∧
      readAny value = .ok (.list items, []) ∧
      List.Forall₂ SameValue fields items

/-- Strings are shorter than 256 bytes, and integers fit 32 bits. -/
def Fits : Field -> Prop
  | .int n => 0 ≤ n.toInt ∧ n.toInt < 2 ^ 32
  | .string s => s.length < 256
  | .binary b => b.length < 256
  | .other => False
  | _ => True

variable {r : Reader TypeError Value}

variable {s : Bytes}

/-!
## Single values
-/

theorem reads_readUint16 (n : UInt16) : Reads readUint16 (be 2 n.toNat) n := by
  have hread := (reads_takeBe_of_lt (fun _ => TypeError.stream .unexpectedEOF)
    (w := 2) n.toNat_lt).map UInt16.ofNat
  rwa [UInt16.ofNat_toNat] at hread

theorem reads_readUint64 (n : UInt64) : Reads readUint64 (be 8 n.toNat) n := by
  have hread := (reads_takeBe_of_lt (fun _ => TypeError.stream .unexpectedEOF)
    (w := 8) n.toNat_lt).map UInt64.ofNat
  rwa [UInt64.ofNat_toNat] at hread

theorem reads_readUint32_ofNat (n : Nat) :
    Reads readUint32 (be 4 n) (UInt32.ofNat n) := by
  have hread := (reads_takeBe (fun _ => TypeError.stream .unexpectedEOF)
    4 n).map UInt32.ofNat
  have hsame : UInt32.ofNat (n % 256 ^ 4) = UInt32.ofNat n := by
    apply UInt32.toNat_inj.mp
    rw [UInt32.toNat_ofNat', UInt32.toNat_ofNat']
    omega
  rwa [hsame] at hread

theorem reads_readUint32 (n : UInt32) : Reads readUint32 (be 4 n.toNat) n := by
  have hread := reads_readUint32_ofNat n.toNat
  rwa [UInt32.ofNat_toNat] at hread

theorem reads_readShortBytes {b : Bytes} (h : b.length < 256) :
    Reads readShortBytes (UInt8.ofNat b.length :: b) (.binary b) := by
  have hlength : (UInt8.ofNat b.length).toNat = b.length := by
    rw [UInt8.toNat_ofNat', Nat.mod_eq_of_lt h]
  have hbytes := (reads_takeBytes (fun _ => TypeError.stream .unexpectedEOF)
    b).map Value.binary
  rw [← hlength] at hbytes
  exact (reads_takeByte _ _).bind hbytes

variable {t : Bytes}

theorem length_lt_of_readShortBytes {b : Bytes}
    (h : readShortBytes (UInt8.ofNat b.length :: s) = .ok (.binary b, t)) :
    b.length < 256 := by
  have hread : readShortBytes (UInt8.ofNat b.length :: s) =
      (Value.binary <$> readBytes (UInt8.ofNat b.length).toNat) s := rfl
  rw [hread] at h
  rcases Reader.map_eq_ok h with ⟨b', htake, hb'⟩
  cases hb'
  rcases length_of_takeBytes htake with ⟨hlength, -⟩
  have hbyte := (UInt8.ofNat b.length).toNat_lt
  omega

theorem Reads.nested {k : Nat} {typeCode : UInt8} {enc : Bytes} {w : Value}
    (h : Reads (readTyped (readNested k) typeCode) enc w) :
    Reads (readNested (k + 1)) (typeCode :: enc) w :=
  (reads_takeByte _ typeCode).bind h

theorem reads_int (k : Nat) (n : Int64) :
    Reads (readNested (k + 1)) (appendAMQPValue (.int n))
      (.uint (UInt32.ofNat n.toUInt64.toNat)) :=
  Reads.nested ((reads_readUint32_ofNat n.toUInt64.toNat).map Value.uint)

theorem number_int_iff (n : Int64) :
    (Value.uint (UInt32.ofNat n.toUInt64.toNat)).number = some n.toInt <->
      0 ≤ n.toInt ∧ n.toInt < 2 ^ 32 := by
  have hbits : n.toInt = if 2 * n.toUInt64.toNat < 2 ^ 64
      then (n.toUInt64.toNat : Int)
      else (n.toUInt64.toNat : Int) - (2 ^ 64 : Nat) :=
    BitVec.toInt_eq_toNat_cond n.toBitVec
  have hlt := n.toUInt64.toNat_lt
  rw [Value.number, UInt32.toNat_ofNat', Option.some.injEq, hbits]
  split <;> omega

theorem field_reads {f : Field} (h : Fits f) :
    exists w, SameValue f w ∧
      forall k, Reads (readNested (k + 1)) (appendAMQPValue f) w := by
  cases f with
  | null => exact ⟨.null, rfl, fun k => Reads.nested (Reads.pure _)⟩
  | bool b =>
    refine ⟨.bool b, rfl, fun k => Reads.nested ?_⟩
    have hread := (reads_takeByte (TypeError.stream .eof)
      (if b then 0x01 else 0x00)).map (fun b => Value.bool (b ≠ 0))
    cases b with
    | true => exact hread
    | false => exact hread
  | ubyte n =>
    exact ⟨.ubyte n, rfl, fun k =>
      Reads.nested ((reads_takeByte _ n).map Value.ubyte)⟩
  | ushort n =>
    exact ⟨.ushort n, rfl, fun k =>
      Reads.nested ((reads_readUint16 n).map Value.ushort)⟩
  | uint n =>
    exact ⟨.uint n, rfl, fun k =>
      Reads.nested ((reads_readUint32 n).map Value.uint)⟩
  | ulong n =>
    exact ⟨.ulong n, rfl, fun k =>
      Reads.nested ((reads_readUint64 n).map Value.ulong)⟩
  | int n => exact ⟨_, (number_int_iff n).mpr h, fun k => reads_int k n⟩
  | string s =>
    exact ⟨.binary s, rfl, fun k =>
      Reads.nested (reads_readShortBytes h)⟩
  | binary b =>
    exact ⟨.binary b, rfl, fun k =>
      Reads.nested (reads_readShortBytes h)⟩
  | byte n =>
    refine ⟨.byte n, rfl, fun k => Reads.nested ?_⟩
    have hread := (reads_takeByte (TypeError.stream .eof) n.toUInt8).map
      (fun b => Value.byte b.toInt8)
    exact hread
  | short n =>
    refine ⟨.short n, rfl, fun k => Reads.nested ?_⟩
    have hread := (reads_readUint16 n.toUInt16).map
      (fun v => Value.short v.toInt16)
    exact hread
  | int32 n =>
    refine ⟨.int32 n, rfl, fun k => Reads.nested ?_⟩
    have hread := (reads_readUint32 n.toUInt32).map
      (fun v => Value.int32 v.toInt32)
    exact hread
  | long n =>
    refine ⟨.long n, rfl, fun k => Reads.nested ?_⟩
    have hread := (reads_readUint64 n.toUInt64).map
      (fun v => Value.long v.toInt64)
    exact hread
  | other => exact h.elim

theorem fits_of_read {k : Nat} {f : Field} {w : Value}
    (h : readNested (k + 1) (appendAMQPValue f ++ s) = .ok (w, t))
    (hsame : SameValue f w) : Fits f := by
  cases f with
  | int n =>
    have hread := (reads_int k n s).symm.trans h
    cases hread
    exact (number_int_iff n).mp hsame
  | string b =>
    have hw : w = .binary b := hsame
    rw [hw] at h
    exact length_lt_of_readShortBytes (s := b ++ s) h
  | binary b =>
    have hw : w = .binary b := hsame
    rw [hw] at h
    exact length_lt_of_readShortBytes (s := b ++ s) h
  | other => exact hsame.elim
  | _ => exact trivial

/-!
## Lists of values
-/

variable {fields : List Field}

theorem fields_read (k : Nat) (h : forall f, f ∈ fields -> Fits f) :
    exists items, List.Forall₂ SameValue fields items ∧
      Reads (readListItems (readNested (k + 1)) fields.length)
        (fields.flatMap appendAMQPValue) items := by
  induction fields with
  | nil => exact ⟨[], .nil, Reads.pure []⟩
  | cons f fields ih =>
  rcases field_reads (h f List.mem_cons_self) with ⟨w, hsame, hread⟩
  rcases ih (fun g hg => h g (List.mem_cons_of_mem f hg)) with
    ⟨items, hitems, hreads⟩
  exact ⟨w :: items, .cons hsame hitems,
    (hread k).bind (hreads.bind_pure (Reads.pure (w :: items)))⟩

theorem fits_of_reads {k : Nat} {items : List Value}
    (h : readListItems (readNested (k + 1)) fields.length
      (fields.flatMap appendAMQPValue ++ s) = .ok (items, t))
    (hitems : List.Forall₂ SameValue fields items) :
    forall f, f ∈ fields -> Fits f := by
  induction hitems generalizing t with
  | nil =>
    intro f hf
    cases hf
  | @cons f w fields items hsame hitems ih =>
  rw [List.flatMap_cons, List.append_assoc] at h
  rcases Reader.bind_eq_ok h with ⟨v, u, hfirst, hrest⟩
  rcases Reader.bind_eq_ok hrest with ⟨vs, u', hreads, hpure⟩
  cases hpure
  have hfits := fits_of_read hfirst hsame
  rcases field_reads hfits with ⟨v', -, hread⟩
  have hu := (hread k _).symm.trans hfirst
  cases hu
  intro g hg
  cases List.mem_cons.mp hg with
  | inl hg => exact hg ▸ hfits
  | inr hg => exact ih hreads g hg

theorem length_of_readListItems {n : Nat} {items : List Value}
    (h : readListItems r n s = .ok (items, t)) : items.length = n := by
  induction n generalizing s t items with
  | zero =>
    cases h
    rfl
  | succ n ih =>
  rcases Reader.bind_eq_ok h with ⟨v, u, -, hrest⟩
  rcases Reader.bind_eq_ok hrest with ⟨vs, u', hreads, hpure⟩
  cases hpure
  rw [List.length_cons, ih hreads]

def listOf (fields : List Field) : Bytes :=
  let listBody := fields.flatMap appendAMQPValue
  typeList32 :: (be 4 (4 + 4 + listBody.length) ++
    (be 4 fields.length ++ listBody))

theorem parseDescribedType_buildDescribedList (descriptor : UInt64)
    (fields : List Field) :
    parseDescribedType (buildDescribedList descriptor fields) =
      .ok (descriptor, listOf fields) := by
  have hnested : forall k, Reads (readNested (k + 1))
      (typeUlong :: be 8 descriptor.toNat) (.ulong descriptor) :=
    fun k => Reads.nested ((reads_readUint64 descriptor).map Value.ulong)
  have hulong : Reads readAny (typeUlong :: be 8 descriptor.toNat)
      (.ulong descriptor) := fun rest => hnested _ rest
  have hmatch : Reads readDescriptor
      ([describedMarker] ++ (typeUlong :: be 8 descriptor.toNat)) descriptor :=
    (reads_takeByte _ describedMarker).bind (hulong.bind_pure (Reads.pure _))
  have hread := hmatch (listOf fields)
  rw [List.append_assoc] at hread
  exact hread

theorem readTyped_list32 (r : Reader TypeError Value) (size count : Nat)
    (listBody : Bytes) :
    readTyped r typeList32 (be 4 size ++ (be 4 count ++ listBody)) =
      (Value.list <$> readListItems r (UInt32.ofNat count).toNat) listBody := by
  have hlist : readTyped r typeList32 = (do
      let _ <- readUint32
      let count <- readUint32
      Value.list <$> readListItems r count.toNat) := rfl
  rw [hlist, Reader.bind_ok (reads_readUint32_ofNat size _),
    Reader.bind_ok (reads_readUint32_ofNat count listBody)]

theorem readAny_listOf (fields : List Field) :
    exists k, readAny (listOf fields) =
      (Value.list <$> readListItems (readNested (k + 1))
        (UInt32.ofNat fields.length).toNat)
          (fields.flatMap appendAMQPValue) := by
  have hlength : exists k, (listOf fields).length = k + 1 := by
    refine ⟨8 + (fields.flatMap appendAMQPValue).length, ?_⟩
    simp only [listOf, List.length_cons, List.length_append, length_be]
    omega
  rcases hlength with ⟨k, hk⟩
  refine ⟨k, ?_⟩
  unfold readAny
  rw [hk, listOf]
  have htyped := readTyped_list32 (readNested (k + 1))
    (4 + 4 + (fields.flatMap appendAMQPValue).length) fields.length
    (fields.flatMap appendAMQPValue)
  have hbyte := Reader.bind_ok (f := readTyped (readNested (k + 1)))
    (reads_takeByte (TypeError.stream .eof) typeList32
      (be 4 (4 + 4 + (fields.flatMap appendAMQPValue).length) ++
        (be 4 fields.length ++ fields.flatMap appendAMQPValue)))
  exact hbyte.trans htyped

theorem roundTrips_iff_fits (v : Field) : RoundTrips v <-> Fits v := by
  constructor
  · rintro ⟨w, hsame, hread⟩
    exact fits_of_read (hread []) hsame
  · intro h
    rcases field_reads h with ⟨w, hsame, hread⟩
    exact ⟨w, hsame, fun rest => hread _ rest⟩

theorem fits_of_listRoundTrips {descriptor : UInt64}
    (h : ListRoundTrips descriptor fields) :
    (forall f, f ∈ fields -> Fits f) ∧ fields.length < 2 ^ 32 := by
  rcases h with ⟨value, items, hparse, hread, hsame⟩
  rcases readAny_listOf fields with ⟨k, hlist⟩
  rw [parseDescribedType_buildDescribedList] at hparse
  cases hparse
  rw [hlist, UInt32.toNat_ofNat'] at hread
  rcases Reader.map_eq_ok hread with ⟨items', hreads, heq⟩
  cases heq
  have hlength := length_of_readListItems hreads
  rw [← List.Forall₂.length_eq hsame] at hlength
  have hlt : fields.length < 2 ^ 32 := by omega
  rw [Nat.mod_eq_of_lt hlt,
    ← List.append_nil (fields.flatMap appendAMQPValue)] at hreads
  exact ⟨fits_of_reads hreads hsame, hlt⟩

theorem listRoundTrips_of_fits (descriptor : UInt64)
    (hfits : forall f, f ∈ fields -> Fits f) (hlt : fields.length < 2 ^ 32) :
    ListRoundTrips descriptor fields := by
  rcases readAny_listOf fields with ⟨k, hlist⟩
  rcases fields_read k hfits with ⟨items, hsame, hreads⟩
  refine ⟨listOf fields, items,
    parseDescribedType_buildDescribedList descriptor fields, ?_, hsame⟩
  have hall := hreads.map Value.list []
  rw [List.append_nil] at hall
  rw [hlist, UInt32.toNat_ofNat', Nat.mod_eq_of_lt hlt, hall]

/--
A value is read back exactly when it fits, and the fields behind a descriptor
exactly when all of them fit and their number does.
-/
theorem fields_roundTrip_iff (v : Field) (descriptor : UInt64)
    (fields : List Field) :
    (RoundTrips v <-> Fits v) ∧
      (ListRoundTrips descriptor fields <->
        (forall f, f ∈ fields -> Fits f) ∧ fields.length < 2 ^ 32) := by
  constructor
  · exact roundTrips_iff_fits v
  constructor
  · exact fits_of_listRoundTrips
  · rintro ⟨hfits, hlt⟩
    exact listRoundTrips_of_fits descriptor hfits hlt

def descAttach : UInt64 := 0x0000000060000003

def attachFields (name : Bytes) (handle : UInt32) (role : UInt8)
    (targetAddr : Bytes) : List Field :=
  [.string name, .uint handle, .ubyte role, .null, .null, .string targetAddr]

/-- A long string, a negative integer and a link with a long name are not. -/
theorem not_roundTrips_longString :
    ¬ RoundTrips (.string (List.replicate 300 0x61)) ∧
      ¬ RoundTrips (.int (-1)) ∧
      ¬ ListRoundTrips descAttach
        (attachFields (List.replicate 300 0x61) 0 1 []) := by
  refine ⟨?_, ?_, ?_⟩
  · intro h
    have hfits : (List.replicate 300 (0x61 : UInt8)).length < 256 :=
      (roundTrips_iff_fits _).mp h
    rw [List.length_replicate] at hfits
    omega
  · intro h
    have hfits : 0 ≤ (-1 : Int64).toInt ∧ (-1 : Int64).toInt < 2 ^ 32 :=
      (roundTrips_iff_fits _).mp h
    revert hfits
    decide
  · intro h
    have hfits : (List.replicate 300 (0x61 : UInt8)).length < 256 :=
      (fits_of_listRoundTrips h).1 _ List.mem_cons_self
    rw [List.length_replicate] at hfits
    omega

end Amqp
end ChimeraMQ
