import Mathlib.Data.List.Basic
import Mathlib.Data.List.Induction
import Mathlib.Tactic.Ring

/-!
# Bytes

Byte strings, big-endian integers of a fixed width, the two positional
operations of a file (writing a byte string at an offset and reading a number of
bytes from one), a checksum, and replacing strings within others.
-/

namespace ChimeraMQ
namespace Foundation

abbrev Bytes := List UInt8

instance lawfulBEqByte : LawfulBEq UInt8 := inferInstance

instance lawfulBEqBytes : LawfulBEq Bytes := inferInstance

def ascii (s : String) : Bytes :=
  s.toList.map (fun c => UInt8.ofNat c.toNat)

/-- A byte string without another one that it may begin with. -/
def trimPrefix (s start : Bytes) : Bytes :=
  if start.isPrefixOf s then s.drop start.length else s

/-!
## Big-endian integers
-/

/-- The lowest `w` bytes of a number, the most significant byte first. -/
def be : Nat -> Nat -> Bytes
  | 0, _ => []
  | w + 1, n => be w (n / 256) ++ [UInt8.ofNat n]

/-- The number that a byte string spells, the most significant byte first. -/
def ofBe (b : Bytes) : Nat :=
  b.foldl (fun n x => n * 256 + x.toNat) 0

@[simp] theorem length_be (w n : Nat) : (be w n).length = w := by
  induction w generalizing n with
  | zero => rfl
  | succ w ih => simp [be, ih]

theorem ofBe_concat (b : Bytes) (x : UInt8) :
    ofBe (b ++ [x]) = ofBe b * 256 + x.toNat := by
  simp [ofBe]

theorem ofBe_be (w n : Nat) : ofBe (be w n) = n % 256 ^ w := by
  induction w generalizing n with
  | zero => simp [be, ofBe, Nat.mod_one]
  | succ w ih =>
  have hlast : (UInt8.ofNat n).toNat = n % 256 := by
    simp
  rw [be, ofBe_concat, ih, hlast, Nat.pow_succ, Nat.mul_comm (256 ^ w) 256,
    Nat.mod_mul, Nat.mul_comm, Nat.add_comm]

theorem ofBe_be_of_lt {w n : Nat} (hn : n < 256 ^ w) : ofBe (be w n) = n := by
  rw [ofBe_be, Nat.mod_eq_of_lt hn]

theorem append_lt_append {α : Type} [LT α] {s t x y : List α} (hlt : s < t)
    (hlength : s.length = t.length) : s ++ x < t ++ y := by
  induction s generalizing t with
  | nil =>
    rw [List.eq_nil_of_length_eq_zero hlength.symm] at hlt
    cases hlt
  | cons a s ih =>
  cases t with
  | nil => cases hlength
  | cons b t =>
  rw [List.cons_append, List.cons_append, List.cons_lt_cons_iff]
  rcases List.cons_lt_cons_iff.mp hlt with hab | ⟨hab, hst⟩
  · exact Or.inl hab
  · exact Or.inr ⟨hab, ih hst (Nat.succ.inj hlength)⟩

theorem be_lt_be {w i j : Nat} (hij : i < j) (hj : j < 256 ^ w) :
    be w i < be w j := by
  induction w generalizing i j with
  | zero => omega
  | succ w ih =>
  rw [Nat.pow_succ] at hj
  rw [be, be]
  by_cases hhigh : i / 256 < j / 256
  · exact append_lt_append (ih hhigh (by omega))
      (by rw [length_be, length_be])
  have hsame : i / 256 = j / 256 := by omega
  rw [hsame]
  apply List.append_left_lt
  rw [List.cons_lt_cons_iff]
  apply Or.inl
  rw [UInt8.lt_iff_toNat_lt, UInt8.toNat_ofNat', UInt8.toNat_ofNat']
  omega

theorem ofBe_lt (b : Bytes) : ofBe b < 256 ^ b.length := by
  induction b using List.reverseRecOn with
  | nil => exact Nat.one_pos
  | append_singleton b x ih =>
  have hx := UInt8.toNat_lt x
  rw [ofBe_concat, List.length_append, List.length_singleton, Nat.pow_succ]
  omega

theorem be_ofBe (b : Bytes) : be b.length (ofBe b) = b := by
  induction b using List.reverseRecOn with
  | nil => rfl
  | append_singleton b x ih =>
  have hx := UInt8.toNat_lt x
  have hdiv : (ofBe b * 256 + x.toNat) / 256 = ofBe b := by omega
  have hlast : UInt8.ofNat (ofBe b * 256 + x.toNat) = x := by
    apply UInt8.toNat_inj.mp
    rw [UInt8.toNat_ofNat']
    omega
  rw [ofBe_concat, List.length_append, List.length_singleton, be, hdiv, ih,
    hlast]

/-!
## Positional access
-/

/-- Write at an offset; a gap before it is filled with zeros. -/
def writeAt (file : Bytes) (pos : Nat) (data : Bytes) : Bytes :=
  match data with
  | [] => file
  | _ :: _ =>
    (file ++ List.replicate (pos - file.length) 0).take pos ++ data ++
      file.drop (pos + data.length)

def readAt (file : Bytes) (pos n : Nat) : Option Bytes :=
  if n = 0 then some []
  else if pos + n ≤ file.length then some ((file.drop pos).take n)
  else none

theorem writeAt_length (file data : Bytes) :
    writeAt file file.length data = file ++ data := by
  cases data with
  | nil => simp [writeAt]
  | cons x rest => simp [writeAt]

theorem length_writeAt (file : Bytes) (pos : Nat) {data : Bytes}
    (hdata : data ≠ []) : (writeAt file pos data).length =
      max file.length (pos + data.length) := by
  cases data with
  | nil => exact absurd rfl hdata
  | cons x rest =>
  simp only [writeAt, List.length_append, List.length_take,
    List.length_replicate, List.length_drop]
  omega

theorem readAt_eq {front data back : Bytes} {pos n : Nat}
    (hpos : front.length = pos) (hn : data.length = n) :
    readAt (front ++ data ++ back) pos n = some data := by
  subst hpos
  subst hn
  unfold readAt
  by_cases hzero : data.length = 0
  · rw [if_pos hzero, List.length_eq_zero_iff.mp hzero]
  have hle : front.length + data.length ≤
      (front ++ data ++ back).length := by
    simp
  rw [if_neg hzero, if_pos hle]
  simp

theorem readAt_of_lt {file : Bytes} {pos n : Nat} (hn : 0 < n)
    (hlt : file.length < pos + n) : readAt file pos n = none := by
  unfold readAt
  rw [if_neg (Nat.ne_of_gt hn), if_neg (Nat.not_le.mpr hlt)]

theorem readAt_length {file b : Bytes} {pos n : Nat}
    (hread : readAt file pos n = some b) : b.length = n := by
  unfold readAt at hread
  by_cases hzero : n = 0
  · rw [if_pos hzero] at hread
    cases hread
    simp [hzero]
  rw [if_neg hzero] at hread
  by_cases hle : pos + n ≤ file.length
  · rw [if_pos hle] at hread
    cases hread
    rw [List.length_take, List.length_drop]
    omega
  · rw [if_neg hle] at hread
    cases hread

/-!
## The Castagnoli checksum

CRC-32C, bit by bit in the reflected form.
-/

def crcBit (crc : UInt32) : UInt32 :=
  if crc &&& 1 = 1 then (crc >>> 1) ^^^ 0x82F63B78 else crc >>> 1

def crcByte (crc : UInt32) (b : UInt8) : UInt32 :=
  crcBit (crcBit (crcBit (crcBit (crcBit (crcBit (crcBit (crcBit
    (crc ^^^ b.toUInt32))))))))

def crc32c (b : Bytes) : UInt32 :=
  (b.foldl crcByte 0xFFFFFFFF) ^^^ 0xFFFFFFFF

-- the check value of the checksum: the digits one to nine
example : crc32c [49, 50, 51, 52, 53, 54, 55, 56, 57] = 0xE3069283 := by
  decide +kernel

/-!
## Replacing within a string

Every place where a string occurs within another one is replaced, from the left
and without overlap.
-/

section

variable {α : Type} [DecidableEq α]

def replaceFrom (old new : List α) : Nat -> List α -> List α
  | _, [] => []
  | 0, x :: s =>
    if old.isPrefixOf (x :: s) then
      new ++ replaceFrom old new (old.length - 1) s
    else x :: replaceFrom old new 0 s
  | k + 1, _ :: s => replaceFrom old new k s

def replaceAll (old new s : List α) : List α :=
  replaceFrom old new 0 s

theorem replaceAll_singleton (x : α) (new s : List α) :
    replaceAll [x] new s = s.flatMap (fun y => if y = x then new else [y]) := by
  unfold replaceAll
  induction s with
  | nil => rfl
  | cons y s ih =>
  rw [replaceFrom, List.flatMap_cons, ← ih]
  by_cases hy : y = x
  · rw [if_pos hy, if_pos (by simp [hy])]
    rfl
  · rw [if_neg hy, if_neg (by simp [Ne.symm hy]), List.singleton_append]

section Pair

variable {x y : α} (new : List α)

theorem replaceAll_pair (s : List α) :
    replaceAll [x, y] new (x :: y :: s) = new ++ replaceAll [x, y] new s := by
  simp [replaceAll, replaceFrom]

theorem replaceAll_pair_of_ne {z : α} (hz : z ≠ x) (s : List α) :
    replaceAll [x, y] new (z :: s) = z :: replaceAll [x, y] new s := by
  simp [replaceAll, replaceFrom, hz.symm]

theorem replaceAll_pair_of_head {s : List α} (hs : s.head? ≠ some y) :
    replaceAll [x, y] new (x :: s) = x :: replaceAll [x, y] new s := by
  cases s with
  | nil => simp [replaceAll, replaceFrom]
  | cons z s =>
  have hz : y ≠ z := fun h => hs (by rw [h]; rfl)
  simp [replaceAll, replaceFrom, hz]

theorem replaceAll_pair_of_snd {z : α} (hy : z ≠ y) (hx : z ≠ x) (s : List α) :
    replaceAll [x, y] new (x :: z :: s) =
      x :: z :: replaceAll [x, y] new s := by
  rw [replaceAll_pair_of_head new (by simpa using hy),
    replaceAll_pair_of_ne new hx]

end Pair

end

end Foundation
end ChimeraMQ
