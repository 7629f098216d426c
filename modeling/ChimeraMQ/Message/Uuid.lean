import Mathlib.Data.List.Chain
import Mathlib.Data.List.Forall2
import ChimeraMQ.Foundation.Bytes

/-!
# Message ids

The generator of ids that sort by time: the milliseconds, a counter of the ids
of one millisecond, and random bits.  The counter has sixteen bits, of which an
id holds twelve.
-/

namespace ChimeraMQ
namespace Message

open Foundation

/-- A call of the generator: the clock it reads, the random bits it takes. -/
structure Draw where
  now : Int
  random : UInt64

structure UUIDv7Generator where
  lastMS : Int
  counter : UInt16

def stampFirst (keep set : UInt8) : Bytes -> Bytes
  | [] => []
  | b :: rest => (b &&& keep ||| set) :: rest

namespace UUIDv7Generator

def new : UUIDv7Generator where
  lastMS := 0
  counter := 0

def tick (g : UUIDv7Generator) (now : Int) : UUIDv7Generator :=
  if now = g.lastMS then { g with counter := g.counter + 1 }
  else { lastMS := now, counter := 0 }

def generate (g : UUIDv7Generator) (d : Draw) : UUIDv7Generator × Bytes :=
  let g := g.tick d.now
  (g, be 2 (d.now / 2 ^ 32 % 2 ^ 16).toNat ++ be 4 (d.now % 2 ^ 32).toNat ++
    stampFirst 0x0F 0x70 (be 2 g.counter.toNat) ++
    stampFirst 0x3F 0x80 (be 8 d.random.toNat))

def generateAll (g : UUIDv7Generator) : List Draw -> List Bytes
  | [] => []
  | d :: draws => (g.generate d).2 :: generateAll (g.generate d).1 draws

/-- What the first eight bytes of the last id spell. -/
def stamp (g : UUIDv7Generator) : Nat :=
  (g.lastMS % 2 ^ 48).toNat * 65536 + 28672 + g.counter.toNat % 4096

def room (g : UUIDv7Generator) : Nat :=
  4095 - g.counter.toNat % 4096

def stamps (g : UUIDv7Generator) : List Int -> List Nat
  | [] => []
  | now :: readings =>
    (g.tick now).stamp :: stamps (g.tick now) readings

end UUIDv7Generator

open UUIDv7Generator

def SortByGeneration (ids : List Bytes) : Prop :=
  ids.Pairwise (fun a b => a.take 8 ≠ b.take 8 ∧ a < b)

/-- The ids of a millisecond; a new generator has already counted for zero. -/
def idsPerMS (first : Option Int) (ms : Int) : Nat :=
  if first = some 0 ∧ ms = 0 then 4095 else 4096

/--
No millisecond has more calls than twelve bits count, and the readings still
grow in the bits of them that an id holds.
-/
def FitsCounter (readings : List Int) : Prop :=
  (forall ms, readings.count ms ≤ idsPerMS readings.head? ms) ∧
    readings.IsChain (fun a b => a = b ∨ a % 2 ^ 48 < b % 2 ^ 48)

/-!
## The bytes of an id
-/

theorem be_mod (w n : Nat) : be w (n % 256 ^ w) = be w n := by
  have h := be_ofBe (be w n)
  rwa [length_be, ofBe_be] at h

theorem be_congr {w m n : Nat} (h : m % 256 ^ w = n % 256 ^ w) :
    be w m = be w n := by
  rw [← be_mod w m, h, be_mod]

theorem be_append_be (v w n : Nat) :
    be v (n / 256 ^ w) ++ be w n = be (v + w) n := by
  induction w generalizing n with
  | zero => simp [be]
  | succ w ih =>
  rw [be, ← List.append_assoc, Nat.pow_succ', ← Nat.div_div_eq_div_mul, ih]
  rfl

theorem stampFirst_version (n : Nat) :
    stampFirst 0x0F 0x70 (be 2 n) = be 2 (28672 + n % 4096) := by
  have hlow : UInt8.ofNat n = UInt8.ofNat (28672 + n % 4096) := by
    apply UInt8.toNat_inj.mp
    rw [UInt8.toNat_ofNat', UInt8.toNat_ofNat']
    omega
  have hhigh : UInt8.ofNat (n / 256) &&& 0x0F ||| 0x70 =
      UInt8.ofNat ((28672 + n % 4096) / 256) := by
    apply UInt8.toNat_inj.mp
    rw [UInt8.toNat_or, UInt8.toNat_and, UInt8.toNat_ofNat',
      UInt8.toNat_ofNat']
    have hkeep := Nat.and_two_pow_sub_one_eq_mod (n / 256 % 2 ^ 8) 4
    have hset := Nat.two_pow_add_eq_or_of_lt (i := 4)
      (Nat.mod_lt (n / 256 % 2 ^ 8) (by decide)) 7
    show (n / 256 % 2 ^ 8) &&& 15 ||| 112 = _
    rw [show (15 : Nat) = 2 ^ 4 - 1 from rfl, hkeep, Nat.or_comm,
      show (112 : Nat) = 2 ^ 4 * 7 from rfl, ← hset]
    omega
  simp only [be, List.nil_append, List.cons_append, stampFirst, hhigh, hlow]

theorem lastMS_tick (g : UUIDv7Generator) (now : Int) :
    (g.tick now).lastMS = now := by
  unfold tick
  by_cases hnow : now = g.lastMS
  · rw [if_pos hnow, hnow]
  · rw [if_neg hnow]

theorem take_generate (g : UUIDv7Generator) (d : Draw) :
    ((g.generate d).2).take 8 = be 8 (g.tick d.now).stamp := by
  have hhigh : be 2 (d.now / 2 ^ 32 % 2 ^ 16).toNat =
      be 2 ((d.now % 2 ^ 48).toNat / 256 ^ 4) := be_congr (by omega)
  have hlow : be 4 (d.now % 2 ^ 32).toNat = be 4 (d.now % 2 ^ 48).toNat :=
    be_congr (by omega)
  have hstamp : be 6 (d.now % 2 ^ 48).toNat ++
      be 2 (28672 + (g.tick d.now).counter.toNat % 4096) =
        be 8 (g.tick d.now).stamp := by
    rw [← be_append_be 6 2]
    unfold stamp
    rw [lastMS_tick]
    congr 1
    · exact be_congr (by omega)
    · exact be_congr (by omega)
  unfold generate
  simp only
  rw [hhigh, hlow, be_append_be 2 4, stampFirst_version, hstamp]
  exact List.take_left' (length_be 8 _)

theorem stamp_lt (g : UUIDv7Generator) : g.stamp < 256 ^ 8 := by
  unfold stamp
  omega

theorem take_ne_and_lt_iff {a b : Bytes} {i j : Nat}
    (ha : a.take 8 = be 8 i) (hb : b.take 8 = be 8 j) (hi : i < 256 ^ 8)
    (hj : j < 256 ^ 8) : a.take 8 ≠ b.take 8 ∧ a < b <-> i < j := by
  have hlt : forall {a b : Bytes} {i j : Nat}, a.take 8 = be 8 i ->
      b.take 8 = be 8 j -> j < 256 ^ 8 -> i < j -> a < b := by
    intro a b i j ha hb hj hij
    rw [← List.take_append_drop 8 a, ← List.take_append_drop 8 b, ha, hb]
    exact append_lt_append (be_lt_be hij hj) (by rw [length_be, length_be])
  constructor
  · intro h
    rcases Nat.lt_trichotomy i j with hij | hij | hij
    · exact hij
    · exact absurd (by rw [ha, hb, hij]) h.left
    · exact absurd (hlt hb ha hi hij) (List.lt_asymm h.right)
  intro h
  constructor
  · rw [ha, hb]
    intro heq
    have hsame := congrArg ofBe heq
    rw [ofBe_be_of_lt hi, ofBe_be_of_lt hj] at hsame
    omega
  · exact hlt ha hb hj h

theorem pairwise_iff_of_forall₂ {α β : Type} {R : α -> α -> Prop}
    {S : β -> β -> Prop} {Q : α -> β -> Prop}
    (hQ : forall a b i j, Q a i -> Q b j -> (R a b <-> S i j)) {as : List α}
    {is : List β} (h : List.Forall₂ Q as is) :
    as.Pairwise R <-> is.Pairwise S := by
  induction h with
  | nil => simp
  | @cons a i as is ha h ih =>
  have hhead : (forall b, b ∈ as -> R a b) <->
      forall j, j ∈ is -> S i j := by
    clear ih
    induction h with
    | nil => simp
    | cons hb _ ih =>
    rw [List.forall_mem_cons, List.forall_mem_cons, ih,
      hQ _ _ _ _ ha hb]
  rw [List.pairwise_cons, List.pairwise_cons]
  exact and_congr hhead ih

theorem sortByGeneration_iff_stamps (g : UUIDv7Generator)
    (draws : List Draw) :
    SortByGeneration (g.generateAll draws) <->
      (g.stamps (draws.map Draw.now)).Pairwise (fun i j => i < j) := by
  have hids : List.Forall₂ (fun id i => id.take 8 = be 8 i ∧ i < 256 ^ 8)
      (g.generateAll draws) (g.stamps (draws.map Draw.now)) := by
    induction draws generalizing g with
    | nil => exact List.Forall₂.nil
    | cons d draws ih =>
      exact List.Forall₂.cons ⟨take_generate g d, stamp_lt _⟩ (ih _)
  exact pairwise_iff_of_forall₂ (fun _ _ _ _ ha hb =>
    take_ne_and_lt_iff ha.left hb.left ha.right hb.right) hids

/-!
## The counter
-/

theorem stamp_lt_tick_iff (g : UUIDv7Generator) {now : Int}
    (hne : now ≠ g.lastMS) :
    g.stamp < (g.tick now).stamp <-> g.lastMS % 2 ^ 48 < now % 2 ^ 48 := by
  unfold tick stamp
  rw [if_neg hne]
  have hzero : (0 : UInt16).toNat = 0 := rfl
  simp only [hzero]
  omega

theorem stamp_lt_again_iff (g : UUIDv7Generator) :
    g.stamp < (g.tick g.lastMS).stamp <-> 0 < g.room := by
  unfold tick stamp room
  rw [if_pos rfl]
  have hone : (1 : UInt16).toNat = 1 := rfl
  simp only [UInt16.toNat_add, hone]
  omega

theorem room_tick_again (g : UUIDv7Generator) (h : 0 < g.room) :
    (g.tick g.lastMS).room = g.room - 1 := by
  unfold room at h
  unfold tick room
  rw [if_pos rfl]
  have hone : (1 : UInt16).toNat = 1 := rfl
  simp only [UInt16.toNat_add, hone]
  omega

theorem room_tick_of_ne {g : UUIDv7Generator} {now : Int}
    (hne : now ≠ g.lastMS) : (g.tick now).room = 4095 := by
  unfold tick room
  rw [if_neg hne]
  rfl

theorem count_cons_le_iff (l : Int) (readings : List Int) (k : Nat) :
    (forall ms, (l :: readings).count ms ≤ if ms = l then k else 4096) <->
      0 < k ∧ forall ms, readings.count ms ≤ if ms = l then k - 1 else 4096 := by
  constructor
  · intro h
    have hl := h l
    rw [if_pos rfl, List.count_cons_self] at hl
    constructor
    · omega
    intro ms
    by_cases hms : ms = l
    · rw [if_pos hms, hms]
      omega
    · have hother := h ms
      rw [if_neg hms, List.count_cons_of_ne (Ne.symm hms)] at hother
      rwa [if_neg hms]
  · intro h ms
    rcases h with ⟨hk, h⟩
    have hms' := h ms
    by_cases hms : ms = l
    · rw [if_pos hms] at hms' ⊢
      rw [← hms, List.count_cons_self]
      omega
    · rw [if_neg hms] at hms' ⊢
      rwa [List.count_cons_of_ne (Ne.symm hms)]

theorem stamps_isChain_iff (g : UUIDv7Generator) (readings : List Int)
    (hsorted : (g.lastMS :: readings).Pairwise (fun a b => a ≤ b)) :
    (g.stamp :: g.stamps readings).IsChain (fun i j => i < j) <->
      (forall ms, readings.count ms ≤
        if ms = g.lastMS then g.room else 4096) ∧
      (g.lastMS :: readings).IsChain
        (fun a b => a = b ∨ a % 2 ^ 48 < b % 2 ^ 48) := by
  induction readings generalizing g with
  | nil => simp [stamps]
  | cons now readings ih =>
  rcases List.pairwise_cons.mp hsorted with ⟨hle, htail⟩
  have hnext := ih (g.tick now) (by rw [lastMS_tick]; exact htail)
  rw [lastMS_tick] at hnext
  rw [stamps, List.isChain_cons_cons, List.isChain_cons_cons, hnext]
  by_cases hnow : now = g.lastMS
  · rw [hnow, stamp_lt_again_iff, count_cons_le_iff]
    constructor
    · intro h
      rcases h with ⟨hroom, hcount, hchain⟩
      rw [room_tick_again g hroom] at hcount
      exact ⟨⟨hroom, hcount⟩, Or.inl rfl, hchain⟩
    intro h
    rcases h with ⟨⟨hroom, hcount⟩, _, hchain⟩
    rw [← room_tick_again g hroom] at hcount
    exact ⟨hroom, hcount, hchain⟩
  have hbefore : g.lastMS ∉ now :: readings := by
    intro hmem
    rcases List.mem_cons.mp hmem with heq | hmem
    · exact hnow heq.symm
    · have hfirst := hle now (List.mem_cons_self ..)
      have hlater := (List.pairwise_cons.mp htail).left _ hmem
      omega
  have hcounts : (forall ms, (now :: readings).count ms ≤
      if ms = g.lastMS then g.room else 4096) <->
        forall ms, (now :: readings).count ms ≤
          if ms = now then 4096 else 4096 := by
    apply forall_congr'
    intro ms
    rw [ite_self]
    by_cases hms : ms = g.lastMS
    · rw [hms, List.count_eq_zero_of_not_mem hbefore]
      simp
    · rw [if_neg hms]
  rw [stamp_lt_tick_iff g hnow, hcounts, count_cons_le_iff,
    room_tick_of_ne hnow]
  constructor
  · intro h
    exact ⟨⟨by decide, h.right.left⟩, Or.inr h.left, h.right.right⟩
  intro h
  rcases h.right.left with heq | hlt
  · exact absurd heq.symm hnow
  · exact ⟨hlt, h.left.right, h.right.right⟩

theorem stamps_pairwise_iff (readings : List Int)
    (hsorted : readings.Pairwise (fun a b => a ≤ b)) :
    (new.stamps readings).Pairwise (fun i j => i < j) <->
      FitsCounter readings := by
  cases readings with
  | nil => simp [stamps, FitsCounter]
  | cons now readings =>
  have hroom : (new.tick now).room + 1 = idsPerMS (some now) now := by
    unfold idsPerMS
    by_cases hnow : now = 0
    · subst hnow
      rfl
    · rw [room_tick_of_ne hnow, if_neg (fun h => hnow h.right)]
  have hcount := count_cons_le_iff now readings ((new.tick now).room + 1)
  have hother : (forall ms, (now :: readings).count ms ≤
      if ms = now then (new.tick now).room + 1 else 4096) <->
        forall ms, (now :: readings).count ms ≤
          idsPerMS (some now) ms := by
    apply forall_congr'
    intro ms
    by_cases hms : ms = now
    · rw [if_pos hms, hms, hroom]
    rw [if_neg hms]
    unfold idsPerMS
    rw [if_neg (fun h => hms (by
      rw [h.right, Option.some.inj h.left]))]
  have hchain := stamps_isChain_iff (new.tick now) readings
    (by rw [lastMS_tick]; exact hsorted)
  rw [lastMS_tick, List.isChain_iff_pairwise] at hchain
  rw [stamps, hchain]
  unfold FitsCounter
  rw [List.head?_cons, ← hother, hcount, Nat.add_sub_cancel]
  simp

/--
The ids of a new generator sort by generation exactly if no millisecond has more
of them than the twelve bits count.
-/
theorem sortByGeneration_iff (draws : List Draw)
    (hclock : (draws.map Draw.now).Pairwise (fun a b => a ≤ b)) :
    SortByGeneration (new.generateAll draws) <->
      FitsCounter (draws.map Draw.now) := by
  rw [sortByGeneration_iff_stamps]
  exact stamps_pairwise_iff _ hclock

theorem sortByGeneration_two :
    SortByGeneration (new.generateAll [⟨5, 9⟩, ⟨5, 3⟩]) <->
      FitsCounter [5, 5] :=
  sortByGeneration_iff [⟨5, 9⟩, ⟨5, 3⟩] (by decide)

/-- Of one more call in a millisecond the counter is the first one again. -/
theorem not_sortByGeneration_busy :
    ¬ forall draws : List Draw,
      (draws.map Draw.now).Pairwise (fun a b => a ≤ b) ->
        SortByGeneration (new.generateAll draws) := by
  intro h
  have hclock : ((List.replicate 4097 (Draw.mk 1 0)).map
      Draw.now).Pairwise (fun a b => a ≤ b) := by
    rw [List.map_replicate, List.pairwise_replicate]
    exact Or.inr (Int.le_refl 1)
  have hsort := h _ hclock
  rw [sortByGeneration_iff_stamps, stamps_pairwise_iff _ hclock] at hsort
  have hcount := hsort.left 1
  rw [List.map_replicate, List.count_replicate_self] at hcount
  exact absurd hcount (by decide)

end Message
end ChimeraMQ
