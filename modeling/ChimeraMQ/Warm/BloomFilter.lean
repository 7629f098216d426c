import ChimeraMQ.Foundation.Bytes

/-!
# Bloom filters

A set of keys as an array of bits.  What was added is always reported; other
keys may be reported too.  The sizes come from a formula over floating-point
numbers, which is a parameter.
-/

namespace ChimeraMQ
namespace Warm

open Foundation

/--
The formulas for the number of bits for a number of items and for the number of
hashes for a number of bits and items.
-/
structure BloomSizing where
  numBits : Nat -> Nat
  numHash : Nat -> Nat -> Nat

structure BloomFilter where
  bits : List UInt64
  numBits : Nat
  numHash : Nat
deriving DecidableEq

def BloomFilter.zero : BloomFilter where
  bits := []
  numBits := 0
  numHash := 0

def newBloomFilter (sizing : BloomSizing) (expectedItems : Nat) :
    BloomFilter :=
  let items := if expectedItems = 0 then 1000 else expectedItems
  let numBits := sizing.numBits items
  let numBits := if numBits < 64 then 64 else numBits
  let numBits := (numBits + 63) % 2 ^ 32 / 64 * 64
  let numHash := sizing.numHash numBits items
  let numHash := if numHash < 1 then 1 else numHash
  let numHash := if numHash > 30 then 30 else numHash
  { bits := List.replicate (numBits / 64) 0
    numBits := numBits
    numHash := numHash }

def hashBytes (key : Bytes) (seed : UInt64) : UInt64 :=
  key.foldl
    (fun h b =>
      let h := (h ^^^ b.toUInt64) * 0x5bd1e9955bd1e995
      h ^^^ (h >>> 15))
    (seed * 0x9e3779b97f4a7c15 + 0x517cc1b727220a95)

def murmurMix (h : UInt64) : UInt64 :=
  let h := h ^^^ (h >>> 33)
  let h := h * 0xff51afd7ed558ccd
  let h := h ^^^ (h >>> 33)
  let h := h * 0xc4ceb9fe1a85ec53
  h ^^^ (h >>> 33)

def hashKernel (key : Bytes) : UInt64 × UInt64 :=
  (murmurMix (hashBytes key 0), murmurMix (hashBytes key 1))

def bitMask (idx : Nat) : UInt64 :=
  1 <<< UInt64.ofNat (idx % 64)

def setBit (bits : List UInt64) (idx : Nat) : List UInt64 :=
  bits.modify (idx / 64) (fun w => w ||| bitMask idx)

def getBit (bits : List UInt64) (idx : Nat) : Bool :=
  match bits[idx / 64]? with
  | none => false
  | some w => w &&& bitMask idx != 0

namespace BloomFilter

def index (bf : BloomFilter) (key : Bytes) (i : Nat) : Nat :=
  let h := hashKernel key
  (h.1 + UInt64.ofNat i * h.2).toNat % bf.numBits

def add (bf : BloomFilter) (key : Bytes) : BloomFilter :=
  { bf with
    bits := ((List.range bf.numHash).map (bf.index key)).foldl setBit bf.bits }

def mayContain (bf : BloomFilter) (key : Bytes) : Bool :=
  (List.range bf.numHash).all (fun i => getBit bf.bits (bf.index key i))

def marshalBinary (bf : BloomFilter) : Bytes :=
  [1] ++ be 4 bf.numBits ++ be 4 bf.numHash ++
    bf.bits.flatMap (fun w => be 8 w.toNat)

def readWords : Nat -> Bytes -> List UInt64
  | 0, _ => []
  | n + 1, data => UInt64.ofNat (ofBe (data.take 8)) :: readWords n (data.drop 8)

/--
Deserialize a filter.  Data that is too short for its bits leaves the filter
without them.
-/
def unmarshalBinary (data : Bytes) : BloomFilter :=
  if data.length < 9 ∨ data.head? ≠ some 1 then zero
  else
    let numBits := ofBe ((data.drop 1).take 4)
    let numHash := ofBe ((data.drop 5).take 4)
    let numWords := numBits / 64
    if data.length < 9 + numWords * 8 then
      { bits := [], numBits := numBits, numHash := numHash }
    else
      { bits := readWords numWords (data.drop 9)
        numBits := numBits
        numHash := numHash }

end BloomFilter

/-!
## Bits
-/

theorem bitMask_ne_zero (idx : Nat) : bitMask idx ≠ 0 := by
  have hall : forall k, k < 64 -> (1 : UInt64) <<< UInt64.ofNat k ≠ 0 := by
    decide
  exact hall _ (Nat.mod_lt idx (by decide))

theorem and_or_ne_zero {w m x : UInt64} (h : w &&& x ≠ 0 ∨ m &&& x ≠ 0) :
    (w ||| m) &&& x ≠ 0 := by
  intro hzero
  have hnat := congrArg UInt64.toNat hzero
  rw [UInt64.toNat_and, UInt64.toNat_or, Nat.and_or_distrib_right] at hnat
  have hboth := Nat.or_eq_zero_iff.mp hnat
  rcases h with hw | hm
  · apply hw
    apply UInt64.toNat_inj.mp
    rw [UInt64.toNat_and]
    exact hboth.left
  apply hm
  apply UInt64.toNat_inj.mp
  rw [UInt64.toNat_and]
  exact hboth.right

@[simp] theorem length_setBit (bits : List UInt64) (idx : Nat) :
    (setBit bits idx).length = bits.length := by
  rw [setBit, List.length_modify]

variable {bits : List UInt64}

theorem getBit_setBit_self {idx : Nat} (hlt : idx / 64 < bits.length) :
    getBit (setBit bits idx) idx = true := by
  unfold getBit setBit
  rw [List.getElem?_modify_eq, List.getElem?_eq_getElem hlt]
  have hmask : bitMask idx &&& bitMask idx ≠ 0 := by
    rw [UInt64.and_self]
    exact bitMask_ne_zero idx
  exact bne_iff_ne.mpr (and_or_ne_zero (Or.inr hmask))

theorem getBit_setBit {i j : Nat} (h : getBit bits j = true) :
    getBit (setBit bits i) j = true := by
  unfold getBit at h ⊢
  unfold setBit
  rw [List.getElem?_modify]
  cases hget : bits[j / 64]? with
  | none =>
    rw [hget] at h
    cases h
  | some w =>
  simp only [hget, bne_iff_ne] at h
  by_cases hij : i / 64 = j / 64
  · simp only [hij, if_true]
    exact bne_iff_ne.mpr (and_or_ne_zero (Or.inl h))
  · simp only [hij, if_false]
    exact bne_iff_ne.mpr h

theorem length_foldl_setBit (idxs : List Nat) (bits : List UInt64) :
    (idxs.foldl setBit bits).length = bits.length := by
  induction idxs generalizing bits with
  | nil => rfl
  | cons i idxs ih => rw [List.foldl_cons, ih, length_setBit]

theorem getBit_foldl_setBit {idxs : List Nat} {j : Nat}
    (h : getBit bits j = true) :
    getBit (idxs.foldl setBit bits) j = true := by
  induction idxs generalizing bits with
  | nil => exact h
  | cons i idxs ih => exact ih (getBit_setBit h)

theorem getBit_foldl_setBit_of_mem {idxs : List Nat} {j : Nat} (hj : j ∈ idxs)
    (hlt : j / 64 < bits.length) :
    getBit (idxs.foldl setBit bits) j = true := by
  induction idxs generalizing bits with
  | nil => cases hj
  | cons i idxs ih =>
  rcases List.mem_cons.mp hj with hji | hrest
  · rw [List.foldl_cons, ← hji]
    exact getBit_foldl_setBit (getBit_setBit_self hlt)
  · exact ih hrest (by rw [length_setBit]; exact hlt)

/-!
## Filters
-/

namespace BloomFilter

structure Sound (bf : BloomFilter) : Prop where
  pos : 0 < bf.numBits
  small : bf.numBits < 2 ^ 32
  hashes : bf.numHash < 2 ^ 32
  words : bf.bits.length = bf.numBits / 64
  whole : bf.numBits = bf.numBits / 64 * 64

theorem sound_newBloomFilter {sizing : BloomSizing} {expectedItems : Nat}
    (hpos : 0 < (newBloomFilter sizing expectedItems).numBits) :
    (newBloomFilter sizing expectedItems).Sound where
  pos := hpos
  small := by
    simp only [newBloomFilter]
    omega
  hashes := by
    have hclamp : forall n : Nat, (if n > 30 then 30 else n) < 2 ^ 32 := by
      intro n
      split <;> omega
    exact hclamp _
  words := by
    simp only [newBloomFilter, List.length_replicate]
  whole := by
    simp only [newBloomFilter]
    omega

variable {bf : BloomFilter}

theorem Sound.add (h : bf.Sound) (key : Bytes) :
    (bf.add key).Sound where
  pos := h.pos
  small := h.small
  hashes := h.hashes
  words := by
    rw [BloomFilter.add, length_foldl_setBit]
    exact h.words
  whole := h.whole

theorem mayContain_add_self (h : bf.Sound) (key : Bytes) :
    (bf.add key).mayContain key = true := by
  apply List.all_eq_true.mpr
  intro i hi
  apply getBit_foldl_setBit_of_mem (List.mem_map_of_mem hi)
  rw [h.words]
  apply Nat.div_lt_of_lt_mul
  rw [Nat.mul_comm, ← h.whole]
  exact Nat.mod_lt _ h.pos

theorem mayContain_add {key : Bytes} (h : bf.mayContain key = true)
    (other : Bytes) :
    (bf.add other).mayContain key = true := by
  apply List.all_eq_true.mpr
  intro i hi
  exact getBit_foldl_setBit (List.all_eq_true.mp h i hi)

theorem mayContain_foldl_add (h : bf.Sound) (keys : List Bytes) :
    (keys.foldl add bf).Sound ∧
      (forall key, bf.mayContain key = true ∨ key ∈ keys ->
        (keys.foldl add bf).mayContain key = true) := by
  induction keys generalizing bf with
  | nil =>
    refine ⟨h, ?_⟩
    intro key hkey
    rcases hkey with hold | hmem
    · exact hold
    · cases hmem
  | cons first keys ih =>
  rcases ih (h.add first) with ⟨hsound, hall⟩
  refine ⟨hsound, ?_⟩
  intro key hkey
  apply hall
  rcases hkey with hold | hmem
  · exact Or.inl (mayContain_add hold first)
  rcases List.mem_cons.mp hmem with heq | hrest
  · rw [heq]
    exact Or.inl (mayContain_add_self h first)
  · exact Or.inr hrest

theorem length_words (words : List UInt64) :
    (words.flatMap (fun w => be 8 w.toNat)).length = words.length * 8 := by
  induction words with
  | nil => rfl
  | cons w words ih =>
  rw [List.flatMap_cons, List.length_append, length_be, ih,
    List.length_cons]
  omega

theorem readWords_flatMap (words : List UInt64) (rest : Bytes) :
    readWords words.length (words.flatMap (fun w => be 8 w.toNat) ++ rest) =
      words := by
  induction words with
  | nil => rfl
  | cons w words ih =>
  rw [List.flatMap_cons, List.length_cons, readWords, List.append_assoc,
    List.take_left' (length_be 8 _), List.drop_left' (length_be 8 _), ih,
    ofBe_be_of_lt (UInt64.toNat_lt w)]
  rw [UInt64.ofNat_toNat]

theorem length_marshalBinary (bf : BloomFilter) :
    bf.marshalBinary.length = 9 + bf.bits.length * 8 := by
  rw [marshalBinary, List.length_append, length_words]
  simp

theorem unmarshalBinary_marshalBinary (h : bf.Sound) :
    unmarshalBinary bf.marshalBinary = bf := by
  have hlen := length_marshalBinary bf
  have hbits : ofBe ((bf.marshalBinary.drop 1).take 4) = bf.numBits := by
    have hfront : bf.marshalBinary.drop 1 = be 4 bf.numBits ++
        (be 4 bf.numHash ++ bf.bits.flatMap (fun w => be 8 w.toNat)) := by
      simp [marshalBinary]
    rw [hfront, List.take_left' (length_be 4 _)]
    exact ofBe_be_of_lt h.small
  have hhash : ofBe ((bf.marshalBinary.drop 5).take 4) = bf.numHash := by
    have hfront : bf.marshalBinary.drop 5 = be 4 bf.numHash ++
        bf.bits.flatMap (fun w => be 8 w.toNat) := by
      rw [marshalBinary, List.append_assoc]
      exact List.drop_left' (by simp)
    rw [hfront, List.take_left' (length_be 4 _)]
    exact ofBe_be_of_lt h.hashes
  have hwords : bf.marshalBinary.drop 9 =
      bf.bits.flatMap (fun w => be 8 w.toNat) := by
    rw [marshalBinary]
    exact List.drop_left' (by simp)
  have hread := readWords_flatMap bf.bits []
  rw [List.append_nil, h.words] at hread
  have hshort : ¬ (bf.marshalBinary.length < 9 ∨
      bf.marshalBinary.head? ≠ some 1) := by
    intro hbad
    rcases hbad with hless | hhead
    · omega
    · exact hhead rfl
  have hwhole : ¬ bf.marshalBinary.length < 9 + bf.numBits / 64 * 8 := by
    rw [hlen, h.words]
    exact Nat.lt_irrefl _
  unfold unmarshalBinary
  rw [if_neg hshort, hbits, hhash, if_neg hwhole, hwords, hread]

end BloomFilter

end Warm
end ChimeraMQ
