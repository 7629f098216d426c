import ChimeraMQ.Foundation.Bytes

/-!
# Numbers of variable length

Numbers of 64 bits in groups of seven, the lowest group first, where the highest
bit of a byte says that another group follows.
-/

namespace ChimeraMQ
namespace Foundation

/--
Read groups on top of the ones before them; no more than the given number.
Groups do not overlap, and bits above the 64th are lost.
-/
def decodeVarintFrom : Nat -> Nat -> Nat -> Bytes -> Option (Nat × Nat)
  | 0, _, _, _ => none
  | _ + 1, _, _, [] => none
  | k + 1, i, val, b :: rest =>
    let val := (val + b.toNat % 128 * 2 ^ (7 * i)) % 2 ^ 64
    if b.toNat < 128 then some (val, i + 1)
    else decodeVarintFrom k (i + 1) val rest

def decodeVarint (buf : Bytes) : Option (Nat × Nat) :=
  decodeVarintFrom 10 0 0 buf

def putVarint : Nat -> Nat -> Bytes
  | 0, _ => []
  | k + 1, n =>
    if n < 128 then [UInt8.ofNat n]
    else UInt8.ofNat (n % 128 + 128) :: putVarint k (n / 128)

theorem decodeVarintFrom_putVarint {k fuel : Nat} (hk : 0 < k)
    (hfuel : k ≤ fuel) {n : Nat} (hn : n < 128 ^ k) (i val : Nat)
    (hval : val + n * 2 ^ (7 * i) < 2 ^ 64) (rest : Bytes) :
    decodeVarintFrom fuel i val (putVarint k n ++ rest) =
      some (val + n * 2 ^ (7 * i), i + (putVarint k n).length) := by
  induction k generalizing fuel n i val with
  | zero => exact absurd hk (Nat.lt_irrefl 0)
  | succ k ih =>
  cases fuel with
  | zero => exact absurd hfuel (Nat.not_succ_le_zero k)
  | succ fuel =>
  unfold putVarint
  by_cases hlast : n < 128
  · have hbyte : (UInt8.ofNat n).toNat = n :=
      UInt8.toNat_ofNat_of_lt' (Nat.lt_trans hlast (by decide))
    rw [if_pos hlast, List.singleton_append]
    unfold decodeVarintFrom
    rw [hbyte, if_pos hlast, Nat.mod_eq_of_lt hlast,
      Nat.mod_eq_of_lt hval]
    rfl
  have hbyte : (UInt8.ofNat (n % 128 + 128)).toNat = n % 128 + 128 :=
    UInt8.toNat_ofNat_of_lt' (by
      change n % 128 + 128 < 256
      omega)
  have hgroup : (n % 128 + 128) % 128 = n % 128 := by omega
  have hsum : val + n % 128 * 2 ^ (7 * i) +
      n / 128 * 2 ^ (7 * (i + 1)) = val + n * 2 ^ (7 * i) := by
    have hshift : 2 ^ (7 * (i + 1)) = 128 * 2 ^ (7 * i) := by
      rw [Nat.mul_add, Nat.pow_add, Nat.mul_comm]
    have hsplit : n % 128 + 128 * (n / 128) = n :=
      Nat.mod_add_div n 128
    calc val + n % 128 * 2 ^ (7 * i) + n / 128 * 2 ^ (7 * (i + 1))
        = val + (n % 128 + 128 * (n / 128)) * 2 ^ (7 * i) := by
          rw [hshift]
          ring
      _ = val + n * 2 ^ (7 * i) := by rw [hsplit]
  have hmore : 0 < k := by
    cases k with
    | zero =>
      rw [Nat.pow_one] at hn
      exact absurd hn hlast
    | succ k => exact Nat.succ_pos k
  have hrest : n / 128 < 128 ^ k := by
    apply Nat.div_lt_of_lt_mul
    rwa [Nat.mul_comm, ← Nat.pow_succ]
  rw [if_neg hlast, List.cons_append]
  unfold decodeVarintFrom
  rw [hbyte, hgroup, if_neg (by omega), Nat.mod_eq_of_lt (by omega),
    ih hmore (by omega) hrest (i + 1) _ (by omega), hsum,
    List.length_cons, Nat.add_assoc, Nat.add_comm 1]

theorem decodeVarint_putVarint {k n : Nat} (hk : 0 < k) (hten : k ≤ 10)
    (hn : n < 128 ^ k) (hbits : n < 2 ^ 64) (rest : Bytes) :
    decodeVarint (putVarint k n ++ rest) = some (n, (putVarint k n).length) := by
  have h := decodeVarintFrom_putVarint hk hten hn 0 0 (by omega) rest
  rw [Nat.mul_zero, Nat.pow_zero, Nat.mul_one, Nat.zero_add, Nat.zero_add] at h
  exact h

/-!
## The bytes of a number
-/

structure Varint where
  more : Bytes
  last : UInt8
  high : forall b, b ∈ more -> 128 ≤ b.toNat
  low : last.toNat < 128
  short : more.length < 10

def groups : Bytes -> Nat
  | [] => 0
  | b :: rest => b.toNat % 128 + 128 * groups rest

namespace Varint

def bytes (e : Varint) : Bytes :=
  e.more ++ [e.last]

def value (e : Varint) : Nat :=
  groups e.bytes % 2 ^ 64

theorem length_bytes (e : Varint) : e.bytes.length = e.more.length + 1 := by
  unfold bytes
  rw [List.length_append, List.length_singleton]

theorem length_bytes_le (e : Varint) : e.bytes.length ≤ 10 := by
  rw [length_bytes]
  exact e.short

theorem value_lt (e : Varint) : e.value < 2 ^ 64 :=
  Nat.mod_lt _ (by decide)

end Varint

theorem add_group (val g rest i : Nat) :
    ((val + g * 2 ^ (7 * i)) % 2 ^ 64 + rest * 2 ^ (7 * (i + 1))) % 2 ^ 64 =
      (val + (g + 128 * rest) * 2 ^ (7 * i)) % 2 ^ 64 := by
  have hshift : 2 ^ (7 * (i + 1)) = 128 * 2 ^ (7 * i) := by
    rw [Nat.mul_add, Nat.pow_add, Nat.mul_comm]
  rw [Nat.mod_add_mod, hshift]
  congr 1
  ring

theorem decodeVarintFrom_append {k : Nat} (i val : Nat) {more : Bytes}
    {last : UInt8} (hhigh : forall b, b ∈ more -> 128 ≤ b.toNat) (hlow : last.toNat < 128)
    (hlength : more.length < k) (rest : Bytes) :
    decodeVarintFrom k i val (more ++ last :: rest) =
      some ((val + groups (more ++ [last]) * 2 ^ (7 * i)) % 2 ^ 64,
        i + (more.length + 1)) := by
  induction more generalizing k i val with
  | nil =>
    cases k with
    | zero => exact absurd hlength (Nat.not_lt_zero _)
    | succ k =>
    rw [List.nil_append, decodeVarintFrom]
    simp [hlow, groups]
  | cons b more ih =>
  cases k with
  | zero => exact absurd hlength (Nat.not_lt_zero _)
  | succ k =>
  have hb := hhigh b (List.mem_cons_self ..)
  rw [List.cons_append, decodeVarintFrom, if_neg (by omega),
    ih _ _ (fun x hx => hhigh x (List.mem_cons_of_mem b hx))
      (Nat.lt_of_succ_lt_succ hlength),
    add_group, List.cons_append, groups, List.length_cons,
    Nat.add_assoc i 1, Nat.add_comm 1]

theorem exists_of_decodeVarintFrom {k i val v n : Nat} {buf : Bytes}
    (h : decodeVarintFrom k i val buf = some (v, n)) :
    exists more last rest, buf = more ++ last :: rest ∧
      (forall b, b ∈ more -> 128 ≤ b.toNat) ∧ last.toNat < 128 ∧
        more.length < k := by
  induction k generalizing i val buf with
  | zero => cases h
  | succ k ih =>
  cases buf with
  | nil => cases h
  | cons b rest =>
  rw [decodeVarintFrom] at h
  by_cases hlow : b.toNat < 128
  · refine ⟨[], b, rest, rfl, ?_, hlow, Nat.succ_pos k⟩
    intro x hx
    cases hx
  rw [if_neg hlow] at h
  rcases ih h with ⟨more, last, rest', rfl, hhigh, hlast, hlength⟩
  refine ⟨b :: more, last, rest', rfl, ?_, hlast,
    Nat.succ_lt_succ hlength⟩
  intro x hx
  rcases List.mem_cons.mp hx with rfl | hx
  · exact Nat.le_of_not_lt hlow
  · exact hhigh x hx

theorem decodeVarint_bytes (e : Varint) (rest : Bytes) :
    decodeVarint (e.bytes ++ rest) = some (e.value, e.bytes.length) := by
  have h := decodeVarintFrom_append 0 0 e.high e.low e.short rest
  simp only [Nat.mul_zero, Nat.pow_zero, Nat.mul_one, Nat.zero_add] at h
  rw [Varint.length_bytes, Varint.bytes, List.append_assoc,
    List.singleton_append]
  exact h

theorem decodeVarint_eq_some_iff {buf : Bytes} {v n : Nat} :
    decodeVarint buf = some (v, n) <->
      exists (e : Varint) (rest : Bytes), buf = e.bytes ++ rest ∧
        v = e.value ∧ n = e.bytes.length := by
  constructor
  · intro h
    rcases exists_of_decodeVarintFrom h with
      ⟨more, last, rest, rfl, hhigh, hlow, hlength⟩
    let e : Varint := ⟨more, last, hhigh, hlow, hlength⟩
    have hbytes : more ++ last :: rest = e.bytes ++ rest := by
      rw [Varint.bytes, List.append_assoc, List.singleton_append]
    rw [hbytes, decodeVarint_bytes] at h
    cases h
    exact ⟨e, rest, hbytes, rfl, rfl⟩
  · rintro ⟨e, rest, rfl, rfl, rfl⟩
    exact decodeVarint_bytes e rest

end Foundation
end ChimeraMQ
