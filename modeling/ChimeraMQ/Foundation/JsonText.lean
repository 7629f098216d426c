import ChimeraMQ.Foundation.Decimal
import ChimeraMQ.Foundation.Runes

/-!
# JSON text

How an encoder writes numbers, strings, byte strings, arrays and objects, and
what is left of a string that has been written and read again: a byte that
spells no character becomes the replacement character.
-/

namespace ChimeraMQ
namespace Foundation

/-!
## Strings that are valid UTF-8
-/

def isBadRune (e : Nat × Bytes) : Bool :=
  e.1 = runeError && e.2.length = 1

def ValidUtf8 (s : Bytes) : Prop :=
  (runes s).all (fun e => !isBadRune e) = true

instance : DecidablePred ValidUtf8 :=
  fun s => inferInstanceAs
    (Decidable ((runes s).all (fun e => !isBadRune e) = true))

def replacement : Bytes := [0xEF, 0xBF, 0xBD]

def rereadRune (e : Nat × Bytes) : Bytes :=
  if isBadRune e then replacement else e.2

def toValidUtf8 (s : Bytes) : Bytes :=
  (runes s).flatMap rereadRune

theorem length_rereadRune (e : Nat × Bytes) :
    (rereadRune e).length = e.2.length + if isBadRune e then 2 else 0 := by
  unfold rereadRune
  split
  · rename_i hbad
    have hlength := (Bool.and_eq_true_iff.mp hbad).right
    rw [of_decide_eq_true hlength]
    rfl
  · rfl

theorem length_flatMap_rereadRune (l : List (Nat × Bytes)) :
    (l.flatMap rereadRune).length =
      (l.flatMap Prod.snd).length + 2 * l.countP isBadRune := by
  induction l with
  | nil => rfl
  | cons e l ih =>
  rw [List.flatMap_cons, List.flatMap_cons, List.length_append,
    List.length_append, ih, length_rereadRune, List.countP_cons]
  split <;> omega

theorem toValidUtf8_eq_self_iff {s : Bytes} :
    toValidUtf8 s = s <-> ValidUtf8 s := by
  constructor
  · intro h
    have hlength := length_flatMap_rereadRune (runes s)
    rw [flatMap_runes] at hlength
    have hsame : ((runes s).flatMap rereadRune).length = s.length :=
      congrArg List.length h
    have hnone : (runes s).countP isBadRune = 0 := by omega
    apply List.all_eq_true.mpr
    intro e he
    rw [Bool.not_eq_true', Bool.eq_false_iff]
    exact List.countP_eq_zero.mp hnone e he
  intro h
  have hall : forall e, e ∈ runes s -> rereadRune e = e.2 := by
    intro e he
    have hgood := List.all_eq_true.mp h e he
    rw [Bool.not_eq_true'] at hgood
    unfold rereadRune
    rw [hgood]
    rfl
  calc toValidUtf8 s = (runes s).flatMap Prod.snd := by
        rw [toValidUtf8, List.flatMap_congr hall]
    _ = s := flatMap_runes s

theorem ValidUtf8.reread {s : Bytes} (h : ValidUtf8 s) : toValidUtf8 s = s :=
  toValidUtf8_eq_self_iff.mpr h

/-!
## The text of a value
-/

def formatInt (n : Int) : Bytes :=
  if n < 0 then 45 :: formatUint n.natAbs else formatUint n.natAbs

def unicodeEscape (r : Nat) : Bytes :=
  ascii "\\u" ++ (hexPadded 4 r).map (fun c => UInt8.ofNat c.toNat)

/-- A character inside a string, escaped for a page of HTML as well. -/
def escapeRune (e : Nat × Bytes) : Bytes :=
  if isBadRune e then unicodeEscape runeError
  else if e.1 = 34 ∨ e.1 = 92 then 92 :: e.2
  else if e.1 = 8 then ascii "\\b"
  else if e.1 = 12 then ascii "\\f"
  else if e.1 = 10 then ascii "\\n"
  else if e.1 = 13 then ascii "\\r"
  else if e.1 = 9 then ascii "\\t"
  else if e.1 < 32 ∨ e.1 = 60 ∨ e.1 = 62 ∨ e.1 = 38 ∨ e.1 = 0x2028 ∨
      e.1 = 0x2029 then unicodeEscape e.1
  else e.2

def quoted (s : Bytes) : Bytes :=
  34 :: s ++ [34]

def jsonString (s : Bytes) : Bytes :=
  quoted ((runes s).flatMap escapeRune)

def jsonNull : Bytes := ascii "null"

def commaSeparated : List Bytes -> Bytes
  | [] => []
  | [s] => s
  | s :: rest => s ++ 44 :: commaSeparated rest

def jsonArray (items : List Bytes) : Bytes :=
  91 :: commaSeparated items ++ [93]

def jsonObject (fields : List (Bytes × Bytes)) : Bytes :=
  123 :: commaSeparated (fields.map (fun f => jsonString f.1 ++ 58 :: f.2)) ++
    [125]

/-!
## Byte strings in base 64
-/

def base64Digit (n : Nat) : UInt8 :=
  if n < 26 then UInt8.ofNat (65 + n)
  else if n < 52 then UInt8.ofNat (71 + n)
  else if n < 62 then UInt8.ofNat (n - 4)
  else if n = 62 then 43
  else 47

def base64 : Bytes -> Bytes
  | [] => []
  | [a] =>
    let n := a.toNat * 16
    [base64Digit (n / 64), base64Digit (n % 64), 61, 61]
  | [a, b] =>
    let n := (a.toNat * 256 + b.toNat) * 4
    [base64Digit (n / 4096), base64Digit (n / 64 % 64),
      base64Digit (n % 64), 61]
  | a :: b :: c :: rest =>
    let n := (a.toNat * 256 + b.toNat) * 256 + c.toNat
    base64Digit (n / 262144) :: base64Digit (n / 4096 % 64) ::
      base64Digit (n / 64 % 64) :: base64Digit (n % 64) :: base64 rest

def base64Value (c : UInt8) : Option Nat :=
  if 65 ≤ c ∧ c ≤ 90 then some (c.toNat - 65)
  else if 97 ≤ c ∧ c ≤ 122 then some (c.toNat - 71)
  else if 48 ≤ c ∧ c ≤ 57 then some (c.toNat + 4)
  else if c = 43 then some 62
  else if c = 47 then some 63
  else none

def decodeQuanta : Bytes -> Option Bytes
  | [] => some []
  | a :: b :: c :: d :: rest =>
    match base64Value a, base64Value b, base64Value c, base64Value d with
    | some x, some y, some z, some w =>
      let n := ((x * 64 + y) * 64 + z) * 64 + w
      (decodeQuanta rest).map (fun tail =>
        UInt8.ofNat (n / 65536) :: UInt8.ofNat (n / 256) ::
          UInt8.ofNat n :: tail)
    | some x, some y, some z, none =>
      let n := (x * 64 + y) * 64 + z
      if d = 61 ∧ rest = [] then
        some [UInt8.ofNat (n / 1024), UInt8.ofNat (n / 4)]
      else none
    | some x, some y, none, none =>
      let n := x * 64 + y
      if c = 61 ∧ d = 61 ∧ rest = [] then some [UInt8.ofNat (n / 16)]
      else none
    | _, _, _, _ => none
  | _ => none

/-- Decode a text; line breaks in it are passed over. -/
def decodeBase64 (s : Bytes) : Option Bytes :=
  decodeQuanta (s.filter (fun c => c ≠ 10 ∧ c ≠ 13))

theorem base64Value_base64Digit {n : Nat} (hn : n < 64) :
    base64Value (base64Digit n) = some n := by
  revert n
  decide

theorem base64Digit_not_break {n : Nat} (hn : n < 64) :
    base64Digit n ≠ 10 ∧ base64Digit n ≠ 13 := by
  revert n
  decide

theorem decodeQuanta_base64 (b : Bytes) : decodeQuanta (base64 b) = some b := by
  have hpadding : base64Value 61 = none := by decide
  induction b using base64.induct with
  | case1 => rfl
  | case2 a =>
    have ha := a.toNat_lt
    have hn : ((a.toNat * 16 / 64) * 64 + a.toNat * 16 % 64) / 16 =
        a.toNat := by
      omega
    rw [base64, decodeQuanta, base64Value_base64Digit (by omega),
      base64Value_base64Digit (by omega), hpadding]
    simp only [hn, UInt8.ofNat_toNat, and_self, if_true]
  | case3 a b =>
    have ha := a.toNat_lt
    have hb := b.toNat_lt
    rw [base64, decodeQuanta, base64Value_base64Digit (by omega),
      base64Value_base64Digit (by omega), base64Value_base64Digit (by omega),
      hpadding]
    generalize hn : (a.toNat * 256 + b.toNat) * 4 = n
    have hjoin : (n / 4096 * 64 + n / 64 % 64) * 64 + n % 64 = n := by omega
    have hfirst : UInt8.ofNat (n / 1024) = a := by
      rw [show n / 1024 = a.toNat by omega, UInt8.ofNat_toNat]
    have hsecond : UInt8.ofNat (n / 4) = b := by
      apply UInt8.toNat_inj.mp
      rw [UInt8.toNat_ofNat']
      omega
    simp only [hjoin, hfirst, hsecond, and_self, if_true]
  | case4 a b c rest ih =>
  have ha := a.toNat_lt
  have hb := b.toNat_lt
  have hc := c.toNat_lt
  rw [base64, decodeQuanta, base64Value_base64Digit (by omega),
    base64Value_base64Digit (by omega), base64Value_base64Digit (by omega),
    base64Value_base64Digit (by omega), ih]
  generalize hn : (a.toNat * 256 + b.toNat) * 256 + c.toNat = n
  have hjoin : ((n / 262144 * 64 + n / 4096 % 64) * 64 + n / 64 % 64) * 64 +
      n % 64 = n := by
    omega
  have hfirst : UInt8.ofNat (n / 65536) = a := by
    rw [show n / 65536 = a.toNat by omega, UInt8.ofNat_toNat]
  have hsecond : UInt8.ofNat (n / 256) = b := by
    apply UInt8.toNat_inj.mp
    rw [UInt8.toNat_ofNat']
    omega
  have hthird : UInt8.ofNat n = c := by
    apply UInt8.toNat_inj.mp
    rw [UInt8.toNat_ofNat']
    omega
  simp only [hjoin, hfirst, hsecond, hthird, Option.map_some]

theorem not_break_of_mem_base64 {b : Bytes} {c : UInt8} (hc : c ∈ base64 b) :
    c ≠ 10 ∧ c ≠ 13 := by
  have hpadding : (61 : UInt8) ≠ 10 ∧ (61 : UInt8) ≠ 13 := by decide
  induction b using base64.induct with
  | case1 => cases hc
  | case2 x =>
    have hx := x.toNat_lt
    simp only [base64, List.mem_cons, List.not_mem_nil, or_false] at hc
    rcases hc with rfl | rfl | rfl | rfl
    · exact base64Digit_not_break (by omega)
    · exact base64Digit_not_break (by omega)
    · exact hpadding
    · exact hpadding
  | case3 x y =>
    have hx := x.toNat_lt
    have hy := y.toNat_lt
    simp only [base64, List.mem_cons, List.not_mem_nil, or_false] at hc
    rcases hc with rfl | rfl | rfl | rfl
    · exact base64Digit_not_break (by omega)
    · exact base64Digit_not_break (by omega)
    · exact base64Digit_not_break (by omega)
    · exact hpadding
  | case4 x y z rest ih =>
  have hx := x.toNat_lt
  have hy := y.toNat_lt
  have hz := z.toNat_lt
  simp only [base64, List.mem_cons] at hc
  rcases hc with rfl | rfl | rfl | rfl | hrest
  · exact base64Digit_not_break (by omega)
  · exact base64Digit_not_break (by omega)
  · exact base64Digit_not_break (by omega)
  · exact base64Digit_not_break (by omega)
  · exact ih hrest

theorem decodeBase64_base64 (b : Bytes) : decodeBase64 (base64 b) = some b := by
  have hkept : (base64 b).filter (fun c => c ≠ 10 ∧ c ≠ 13) = base64 b :=
    List.filter_eq_self.mpr (fun c hc =>
      decide_eq_true (not_break_of_mem_base64 hc))
  unfold decodeBase64
  rw [hkept, decodeQuanta_base64]

def jsonBytes : Option Bytes -> Bytes
  | none => jsonNull
  | some b => quoted (base64 b)

end Foundation
end ChimeraMQ
