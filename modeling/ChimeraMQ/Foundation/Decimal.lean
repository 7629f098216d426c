import ChimeraMQ.Foundation.Bytes

/-!
# Decimal numbers in file names

A number printed in decimal and padded with zeros to a fixed width, and the
order of such names: as long as the numbers fit the width, the names sort as
the numbers do.
-/

namespace ChimeraMQ
namespace Foundation

def zeroPadded (w n : Nat) : List Char :=
  let digits := Nat.toDigits 10 n
  List.replicate (w - digits.length) '0' ++ digits

def hexPadded (w n : Nat) : List Char :=
  let digits := Nat.toDigits 16 n
  List.replicate (w - digits.length) '0' ++ digits

/-- The number that a string of digits spells, if it is one below the bound. -/
def parseDecimal (bound : Nat) (s : List Char) : Option Nat :=
  if s ≠ [] ∧ s.all Char.isDigit = true ∧ Nat.ofDigitChars 10 s 0 < bound then
    some (Nat.ofDigitChars 10 s 0)
  else none

theorem zeroPadded_ne_nil (w n : Nat) : zeroPadded w n ≠ [] := by
  simp [zeroPadded, Nat.toDigits_ne_nil]

variable {w n : Nat}

theorem isDigit_of_mem_zeroPadded {c : Char} (hc : c ∈ zeroPadded w n) :
    c.isDigit := by
  rcases List.mem_append.mp hc with hzero | hdigit
  · rw [List.eq_of_mem_replicate hzero]
    rfl
  · exact Nat.isDigit_of_mem_toDigits (by decide) (by decide) hdigit

theorem ofDigitChars_zeroPadded (w n : Nat) :
    Nat.ofDigitChars 10 (zeroPadded w n) 0 = n := by
  unfold zeroPadded
  rw [Nat.ofDigitChars_append, Nat.ofDigitChars_replicate_zero, Nat.mul_zero,
    Nat.ofDigitChars_ten_toDigits]

theorem parseDecimal_zeroPadded {bound : Nat} (hn : n < bound) :
    parseDecimal bound (zeroPadded w n) = some n := by
  have hall : (zeroPadded w n).all Char.isDigit = true :=
    List.all_eq_true.mpr (fun c hc => isDigit_of_mem_zeroPadded hc)
  unfold parseDecimal
  rw [ofDigitChars_zeroPadded, if_pos ⟨zeroPadded_ne_nil w n, hall, hn⟩]

theorem zeroPadded_inj {m : Nat} (h : zeroPadded w n = zeroPadded w m) :
    n = m := by
  have hvalue := congrArg (fun s => Nat.ofDigitChars 10 s 0) h
  simpa only [ofDigitChars_zeroPadded] using hvalue

theorem length_zeroPadded (hn : n < 10 ^ w) (hw : 0 < w) :
    (zeroPadded w n).length = w := by
  have hle := (Nat.length_toDigits_le_iff (by decide : 1 < 10) hw).mpr hn
  rw [zeroPadded, List.length_append, List.length_replicate]
  omega

theorem toNat_of_isDigit {c : Char} (hc : c.isDigit) :
    48 ≤ c.toNat ∧ c.toNat ≤ 57 := by
  simpa [Char.isDigit, UInt32.le_iff_toNat_le] using hc

theorem ofDigitChars_cons_eq (c : Char) (s : List Char) :
    Nat.ofDigitChars 10 (c :: s) 0 =
      10 ^ s.length * (c.toNat - 48) + Nat.ofDigitChars 10 s 0 := by
  rw [Nat.ofDigitChars_cons, Nat.ofDigitChars_eq_ofDigitChars_zero]
  simp

theorem ofDigitChars_lt {s : List Char} (hs : forall c, c ∈ s -> c.isDigit) :
    Nat.ofDigitChars 10 s 0 < 10 ^ s.length := by
  induction s with
  | nil => simp
  | cons c s ih =>
  have htail := ih (fun x hx => hs x (List.mem_cons_of_mem c hx))
  have hc := toNat_of_isDigit (hs c (List.mem_cons_self ..))
  have hdigit : 10 ^ s.length * (c.toNat - 48) ≤ 10 ^ s.length * 9 :=
    Nat.mul_le_mul_left _ (by omega)
  rw [ofDigitChars_cons_eq, List.length_cons, Nat.pow_succ]
  omega

theorem lt_of_ofDigitChars_lt {s t : List Char}
    (hs : forall c, c ∈ s -> c.isDigit) (ht : forall c, c ∈ t -> c.isDigit)
    (hlength : s.length = t.length)
    (hlt : Nat.ofDigitChars 10 s 0 < Nat.ofDigitChars 10 t 0) : s < t := by
  induction s generalizing t with
  | nil =>
    rw [List.length_nil] at hlength
    rw [List.eq_nil_of_length_eq_zero hlength.symm] at hlt
    exact absurd hlt (Nat.lt_irrefl _)
  | cons c s ih =>
  cases t with
  | nil => cases hlength
  | cons d t =>
  have hlen : s.length = t.length := Nat.succ.inj hlength
  have hs' : forall x, x ∈ s -> x.isDigit :=
    fun x hx => hs x (List.mem_cons_of_mem c hx)
  have ht' : forall x, x ∈ t -> x.isDigit :=
    fun x hx => ht x (List.mem_cons_of_mem d hx)
  have hc := toNat_of_isDigit (hs c (List.mem_cons_self ..))
  have hd := toNat_of_isDigit (ht d (List.mem_cons_self ..))
  rw [ofDigitChars_cons_eq, ofDigitChars_cons_eq, hlen] at hlt
  rw [List.cons_lt_cons_iff]
  rcases Nat.lt_trichotomy c.toNat d.toNat with hcd | hcd | hcd
  · exact Or.inl hcd
  · refine Or.inr ⟨Char.toNat_inj.mp hcd, ih hs' ht' hlen ?_⟩
    rw [hcd] at hlt
    exact Nat.lt_of_add_lt_add_left hlt
  -- a larger leading digit outweighs everything after it
  have htail := ofDigitChars_lt ht'
  have hstep : 10 ^ t.length * (d.toNat - 48 + 1) ≤
      10 ^ t.length * (c.toNat - 48) :=
    Nat.mul_le_mul_left _ (by omega)
  rw [Nat.mul_succ] at hstep
  omega

theorem zeroPadded_lt {m : Nat} (hw : 0 < w) (hm : m < 10 ^ w) (hlt : n < m) :
    zeroPadded w n < zeroPadded w m := by
  apply lt_of_ofDigitChars_lt
  · exact fun c hc => isDigit_of_mem_zeroPadded hc
  · exact fun c hc => isDigit_of_mem_zeroPadded hc
  · rw [length_zeroPadded (Nat.lt_trans hlt hm) hw, length_zeroPadded hm hw]
  · rw [ofDigitChars_zeroPadded, ofDigitChars_zeroPadded]
    exact hlt

def formatUint (n : Nat) : Bytes :=
  (Nat.toDigits 10 n).map (fun ch => UInt8.ofNat ch.toNat)

def digitChars (s : Bytes) : List Char :=
  s.map (fun b => Char.ofNat b.toNat)

/-- The integer of 64 bits that a string spells, with or without a sign. -/
def atoi : Bytes -> Option Int
  | [] => none
  | b :: rest =>
    if b = 0x2D then
      (parseDecimal (2 ^ 63 + 1) (digitChars rest)).map (fun n => -(n : Int))
    else if b = 0x2B then
      (parseDecimal (2 ^ 63) (digitChars rest)).map Int.ofNat
    else (parseDecimal (2 ^ 63) (digitChars (b :: rest))).map Int.ofNat

end Foundation
end ChimeraMQ
