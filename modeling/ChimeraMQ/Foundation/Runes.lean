import ChimeraMQ.Foundation.Bytes
import Mathlib.Data.List.DropRight
import Mathlib.Tactic.SplitIfs

/-!
# Strings as their characters

A byte string is the characters it is cut into, one after the other.  Where a
character of ASCII begins, the characters before it and those from it on are
cut independently of each other.
-/

namespace ChimeraMQ
namespace Foundation

/-!
## Characters of byte strings

The characters that a byte string spells in UTF-8, and the string without the
white space around it.
-/

def runeError : Nat := 0xFFFD

def isContinuation (lo hi : Nat) (b : UInt8) : Bool :=
  lo ≤ b.toNat && b.toNat ≤ hi

/--
The first character of a byte string and the number of its bytes; a byte that
spells no character is taken alone.
-/
def decodeRune : Bytes -> Nat × Nat
  | [] => (runeError, 0)
  | a :: rest =>
    let n := a.toNat
    if n < 0x80 then (n, 1)
    else if 0xC2 ≤ n ∧ n ≤ 0xDF then
      match rest with
      | b :: _ =>
        if isContinuation 0x80 0xBF b then
          (n % 32 * 64 + b.toNat % 64, 2)
        else (runeError, 1)
      | _ => (runeError, 1)
    else if 0xE0 ≤ n ∧ n ≤ 0xEF then
      let lo := if n = 0xE0 then 0xA0 else 0x80
      let hi := if n = 0xED then 0x9F else 0xBF
      match rest with
      | b :: c :: _ =>
        if isContinuation lo hi b && isContinuation 0x80 0xBF c then
          (n % 16 * 4096 + b.toNat % 64 * 64 + c.toNat % 64, 3)
        else (runeError, 1)
      | _ => (runeError, 1)
    else if 0xF0 ≤ n ∧ n ≤ 0xF4 then
      let lo := if n = 0xF0 then 0x90 else 0x80
      let hi := if n = 0xF4 then 0x8F else 0xBF
      match rest with
      | b :: c :: d :: _ =>
        if isContinuation lo hi b && isContinuation 0x80 0xBF c &&
            isContinuation 0x80 0xBF d then
          (n % 8 * 262144 + b.toNat % 64 * 4096 + c.toNat % 64 * 64 +
            d.toNat % 64, 4)
        else (runeError, 1)
      | _ => (runeError, 1)
    else (runeError, 1)

def splitRunes : Nat -> Bytes -> List (Nat × Bytes)
  | 0, _ => []
  | _, [] => []
  | k + 1, s =>
    let (r, n) := decodeRune s
    (r, s.take n) :: splitRunes k (s.drop n)

def isSpace (r : Nat) : Bool :=
  (9 ≤ r && r ≤ 13) || r = 0x20 || r = 0x85 || r = 0xA0 || r = 0x1680 ||
    (0x2000 ≤ r && r ≤ 0x200A) || r = 0x2028 || r = 0x2029 || r = 0x202F ||
    r = 0x205F || r = 0x3000

def trimSpace (s : Bytes) : Bytes :=
  let runes := (splitRunes s.length s).dropWhile (fun e => isSpace e.1)
  ((runes.reverse.dropWhile (fun e => isSpace e.1)).reverse).flatMap Prod.snd

/-- A character without its case, as far as it is about the letters of ASCII. -/
def foldRune (r : Nat) : Nat :=
  if 0x41 ≤ r ∧ r ≤ 0x5A then r + 32
  else if r = 0x17F then 0x73
  else if r = 0x212A then 0x6B
  else r

def equalFold (s t : Bytes) : Bool :=
  (splitRunes s.length s).map (fun e => foldRune e.1) =
    t.map (fun b => foldRune b.toNat)

/-!
## Characters of ASCII
-/

def isAscii (b : UInt8) : Prop :=
  b.toNat < 0x80

instance : DecidablePred isAscii :=
  fun b => inferInstanceAs (Decidable (b.toNat < 0x80))

theorem exists_front_ascii (s : Bytes) :
    exists front back, s = front ++ back ∧
      (forall b, b ∈ front -> ¬ isAscii b) ∧
      forall b, b ∈ back.head? -> isAscii b := by
  induction s with
  | nil => exact ⟨[], [], rfl, by simp, by simp⟩
  | cons a s ih =>
  by_cases ha : isAscii a
  · exact ⟨[], a :: s, rfl, by simp, by simpa using ha⟩
  rcases ih with ⟨front, back, hs, hfront, hback⟩
  refine ⟨a :: front, back, by rw [hs, List.cons_append], ?_, hback⟩
  intro b hb
  cases List.mem_cons.mp hb with
  | inl hb => rwa [hb]
  | inr hb => exact hfront b hb

def runes (s : Bytes) : List (Nat × Bytes) :=
  splitRunes s.length s

/-!
## The first character
-/

variable {b : UInt8}

theorem decodeRune_cons_ascii (hb : isAscii b) (s : Bytes) :
    decodeRune (b :: s) = (b.toNat, 1) := by
  exact if_pos hb

theorem le_of_isContinuation {lo hi : Nat} (h : isContinuation lo hi b = true) :
    lo ≤ b.toNat ∧ b.toNat ≤ hi := by
  unfold isContinuation at h
  rw [Bool.and_eq_true, decide_eq_true_eq, decide_eq_true_eq] at h
  exact h

/--
A character of a number of bytes that is outside ASCII as a whole.  One of more
than one byte is the same whatever follows it.
-/
structure Wide (s : Bytes) (r n : Nat) : Prop where
  decodes : decodeRune s = (r, n)
  outside : 0x80 ≤ r
  positive : 1 ≤ n
  bytes : n ≤ s.length ∧ forall b, b ∈ s.take n -> ¬ isAscii b
  single : n = 1 -> r = runeError
  stable : 2 ≤ n -> forall t, decodeRune (s.take n ++ t) = (r, n)

section Wide

variable {a : UInt8}

theorem decodeRune_two (h1 : ¬ a.toNat < 0x80)
    (h2 : 0xC2 ≤ a.toNat ∧ a.toNat ≤ 0xDF) (b : UInt8) (t : Bytes) :
    decodeRune (a :: b :: t) =
      if isContinuation 0x80 0xBF b then
        (a.toNat % 32 * 64 + b.toNat % 64, 2)
      else (runeError, 1) :=
  (if_neg h1).trans (if_pos h2)

theorem decodeRune_three (h1 : ¬ a.toNat < 0x80)
    (h2 : ¬ (0xC2 ≤ a.toNat ∧ a.toNat ≤ 0xDF))
    (h3 : 0xE0 ≤ a.toNat ∧ a.toNat ≤ 0xEF) (b c : UInt8) (t : Bytes) :
    decodeRune (a :: b :: c :: t) =
      if isContinuation (if a.toNat = 0xE0 then 0xA0 else 0x80)
          (if a.toNat = 0xED then 0x9F else 0xBF) b &&
          isContinuation 0x80 0xBF c then
        (a.toNat % 16 * 4096 + b.toNat % 64 * 64 + c.toNat % 64, 3)
      else (runeError, 1) :=
  (if_neg h1).trans ((if_neg h2).trans (if_pos h3))

theorem decodeRune_four (h1 : ¬ a.toNat < 0x80)
    (h2 : ¬ (0xC2 ≤ a.toNat ∧ a.toNat ≤ 0xDF))
    (h3 : ¬ (0xE0 ≤ a.toNat ∧ a.toNat ≤ 0xEF))
    (h4 : 0xF0 ≤ a.toNat ∧ a.toNat ≤ 0xF4) (b c d : UInt8) (t : Bytes) :
    decodeRune (a :: b :: c :: d :: t) =
      if isContinuation (if a.toNat = 0xF0 then 0x90 else 0x80)
          (if a.toNat = 0xF4 then 0x8F else 0xBF) b &&
          isContinuation 0x80 0xBF c && isContinuation 0x80 0xBF d then
        (a.toNat % 8 * 262144 + b.toNat % 64 * 4096 + c.toNat % 64 * 64 +
          d.toNat % 64, 4)
      else (runeError, 1) :=
  (if_neg h1).trans ((if_neg h2).trans ((if_neg h3).trans (if_pos h4)))

theorem not_isAscii_of_isContinuation {lo hi : Nat} (hlo : 0x80 ≤ lo)
    (hb : isContinuation lo hi b = true) : ¬ isAscii b := by
  have hle := (le_of_isContinuation hb).1
  unfold isAscii
  omega

theorem exists_wide (ha : ¬ isAscii a) (rest : Bytes) :
    exists r n, Wide (a :: rest) r n := by
  have h1 : ¬ a.toNat < 0x80 := ha
  have hlt := a.toNat_lt
  have hbad : decodeRune (a :: rest) = (runeError, 1) ->
      exists r n, Wide (a :: rest) r n := by
    intro h
    refine ⟨runeError, 1, h, by decide, by decide, ⟨by simp, ?_⟩,
      fun _ => rfl, by omega⟩
    intro b hb
    rw [List.take_succ_cons, List.take_zero, List.mem_singleton] at hb
    rwa [hb]
  by_cases h2 : 0xC2 ≤ a.toNat ∧ a.toNat ≤ 0xDF
  · match rest with
    | [] => exact hbad ((if_neg h1).trans (if_pos h2))
    | b :: t =>
      have hrune := decodeRune_two h1 h2 b t
      split at hrune
      · rename_i hb
        have hb' := not_isAscii_of_isContinuation (by omega) hb
        exact ⟨_, 2, hrune, by omega, by decide, ⟨by simp, by simp [ha, hb']⟩,
          by omega, fun _ t => (decodeRune_two h1 h2 b t).trans (if_pos hb)⟩
      · exact hbad hrune
  by_cases h3 : 0xE0 ≤ a.toNat ∧ a.toNat ≤ 0xEF
  · match rest with
    | [] => exact hbad ((if_neg h1).trans ((if_neg h2).trans (if_pos h3)))
    | [_] => exact hbad ((if_neg h1).trans ((if_neg h2).trans (if_pos h3)))
    | b :: c :: t =>
      have hrune := decodeRune_three h1 h2 h3 b c
      generalize hlo : (if a.toNat = 0xE0 then 0xA0 else 0x80) = lo at hrune
      generalize hhi : (if a.toNat = 0xED then 0x9F else 0xBF) = hi at hrune
      have hsame := hrune t
      split at hsame
      · rename_i hall
        rcases Bool.and_eq_true_iff.mp hall with ⟨hb, hc⟩
        have hle := le_of_isContinuation hb
        have hb' : ¬ isAscii b :=
          not_isAscii_of_isContinuation (by split at hlo <;> omega) hb
        have hc' := not_isAscii_of_isContinuation (by omega) hc
        have hmost : b.toNat ≤ 0xBF := by split at hhi <;> omega
        have houtside : 0x80 ≤ a.toNat % 16 * 4096 + b.toNat % 64 * 64 +
            c.toNat % 64 := by split at hlo <;> omega
        exact ⟨_, 3, hsame, houtside, by decide,
          ⟨by simp, by simp [ha, hb', hc']⟩, by omega,
          fun _ t => (hrune t).trans (if_pos hall)⟩
      · exact hbad hsame
  by_cases h4 : 0xF0 ≤ a.toNat ∧ a.toNat ≤ 0xF4
  · match rest with
    | [] => exact hbad ((if_neg h1).trans ((if_neg h2).trans
        ((if_neg h3).trans (if_pos h4))))
    | [_] => exact hbad ((if_neg h1).trans ((if_neg h2).trans
        ((if_neg h3).trans (if_pos h4))))
    | [_, _] => exact hbad ((if_neg h1).trans ((if_neg h2).trans
        ((if_neg h3).trans (if_pos h4))))
    | b :: c :: d :: t =>
      have hrune := decodeRune_four h1 h2 h3 h4 b c d
      generalize hlo : (if a.toNat = 0xF0 then 0x90 else 0x80) = lo at hrune
      generalize hhi : (if a.toNat = 0xF4 then 0x8F else 0xBF) = hi at hrune
      have hsame := hrune t
      split at hsame
      · rename_i hall
        rcases Bool.and_eq_true_iff.mp hall with ⟨hbc, hd⟩
        rcases Bool.and_eq_true_iff.mp hbc with ⟨hb, hc⟩
        have hle := le_of_isContinuation hb
        have hb' : ¬ isAscii b :=
          not_isAscii_of_isContinuation (by split at hlo <;> omega) hb
        have hc' := not_isAscii_of_isContinuation (by omega) hc
        have hd' := not_isAscii_of_isContinuation (by omega) hd
        have hmost : b.toNat ≤ 0xBF := by split at hhi <;> omega
        have houtside : 0x80 ≤ a.toNat % 8 * 262144 + b.toNat % 64 * 4096 +
            c.toNat % 64 * 64 + d.toNat % 64 := by split at hlo <;> omega
        exact ⟨_, 4, hsame, houtside, by decide,
          ⟨by simp, by simp [ha, hb', hc', hd']⟩, by omega,
          fun _ t => (hrune t).trans (if_pos hall)⟩
      · exact hbad hsame
  · exact hbad ((if_neg h1).trans ((if_neg h2).trans
      ((if_neg h3).trans (if_neg h4))))

end Wide

variable {s : Bytes}

theorem size_decodeRune (hs : s ≠ []) :
    1 ≤ (decodeRune s).2 ∧ (decodeRune s).2 ≤ s.length := by
  cases s with
  | nil => exact absurd rfl hs
  | cons a rest =>
  by_cases ha : isAscii a
  · rw [decodeRune_cons_ascii ha]
    exact ⟨Nat.le_refl 1, by simp⟩
  · rcases exists_wide ha rest with ⟨r, n, hwide⟩
    rw [hwide.decodes]
    exact ⟨hwide.positive, hwide.bytes.1⟩

theorem decodeRune_take {k : Nat} (hs : s ≠ []) (hk : (decodeRune s).2 ≤ k) :
    decodeRune (s.take k) = decodeRune s := by
  have hpos := (size_decodeRune hs).1
  cases s with
  | nil => exact absurd rfl hs
  | cons a rest =>
  cases k with
  | zero => omega
  | succ k =>
  rw [List.take_succ_cons]
  by_cases ha : isAscii a
  · rw [decodeRune_cons_ascii ha, decodeRune_cons_ascii ha]
  rcases exists_wide ha rest with ⟨r, n, hwide⟩
  rcases exists_wide ha (rest.take k) with ⟨r', n', hwide'⟩
  rw [hwide.decodes] at hk ⊢
  rw [hwide'.decodes]
  have hrest : a :: rest.take k = (a :: rest).take (k + 1) := rfl
  rcases Nat.lt_or_ge 1 n with hlong | hshort
  · -- the character is whole in the part
    have hsame := hwide.stable hlong ((a :: rest.take k).drop n)
    have hpart : (a :: rest).take n = (a :: rest.take k).take n := by
      rw [hrest, List.take_take, Nat.min_eq_left hk]
    rw [hpart, List.take_append_drop, hwide'.decodes] at hsame
    exact hsame
  rcases Nat.lt_or_ge 1 n' with hlong | hshort'
  · -- a character of the part would be one of the string
    have hle := hwide'.bytes.1
    rw [hrest, List.length_take] at hle
    have hsame := hwide'.stable hlong ((a :: rest).drop n')
    have hpart : (a :: rest.take k).take n' =
        (a :: rest).take n' := by
      rw [hrest, List.take_take, Nat.min_eq_left (by omega)]
    rw [hpart, List.take_append_drop, hwide.decodes] at hsame
    exact hsame.symm
  · have hn := Nat.le_antisymm hshort hwide.positive
    have hn' := Nat.le_antisymm hshort' hwide'.positive
    rw [hn, hn', hwide.single hn, hwide'.single hn']

theorem decodeRune_append (hs : s ≠ []) {t : Bytes}
    (ht : forall b, b ∈ t.head? -> isAscii b) :
    decodeRune (s ++ t) = decodeRune s := by
  have hne : s ++ t ≠ [] := fun h => hs (List.append_eq_nil_iff.mp h).1
  have hwithin : (decodeRune (s ++ t)).2 ≤ s.length := by
    cases s with
    | nil => exact absurd rfl hs
    | cons a rest =>
    by_cases ha : isAscii a
    · rw [List.cons_append, decodeRune_cons_ascii ha, List.length_cons]
      exact Nat.le_add_left 1 _
    rcases exists_wide ha (rest ++ t) with ⟨r, n, hwide⟩
    rw [List.cons_append, hwide.decodes]
    rcases Nat.lt_or_ge (a :: rest).length n with hlt | hge
    · -- the byte behind the string would be of the character
      have hlength := hwide.bytes.1
      rw [← List.cons_append, List.length_append] at hlength
      cases t with
      | nil =>
        rw [List.length_nil] at hlength
        omega
      | cons x t =>
      refine absurd (ht x rfl) (hwide.bytes.2 x ?_)
      rw [← List.cons_append, List.take_append]
      refine List.mem_append_right _ ?_
      rcases Nat.exists_eq_add_of_lt hlt with ⟨k, hk⟩
      rw [hk, show (a :: rest).length + k + 1 - (a :: rest).length =
        k + 1 by omega]
      exact List.mem_cons_self
    · exact hge
  have htake := decodeRune_take hne hwithin
  rwa [List.take_left, eq_comm] at htake

/-!
## All characters
-/

theorem splitRunes_succ (k : Nat) (hs : s ≠ []) :
    splitRunes (k + 1) s = ((decodeRune s).1, s.take (decodeRune s).2) ::
      splitRunes k (s.drop (decodeRune s).2) := by
  cases s with
  | nil => exact absurd rfl hs
  | cons a rest => rfl

theorem splitRunes_eq_runes {k : Nat} (hk : s.length ≤ k) :
    splitRunes k s = runes s := by
  unfold runes
  generalize hn : s.length = n
  have hall : forall (n k : Nat) (s : Bytes), s.length ≤ n -> s.length ≤ k ->
      splitRunes k s = splitRunes n s := by
    intro n
    induction n with
    | zero =>
      intro k s hn _
      rw [List.eq_nil_of_length_eq_zero (Nat.le_zero.mp hn)]
      cases k <;> rfl
    | succ n ih =>
    intro k s hn hk
    by_cases hs : s = []
    · rw [hs]
      cases k <;> rfl
    have hpos := List.length_pos_iff.mpr hs
    cases k with
    | zero => omega
    | succ k =>
    have hsize := size_decodeRune hs
    rw [splitRunes_succ k hs, splitRunes_succ n hs, ih]
    · rw [List.length_drop]
      omega
    · rw [List.length_drop]
      omega
  exact hall n k s (Nat.le_of_eq hn) hk

@[simp] theorem runes_nil : runes [] = [] :=
  rfl

theorem runes_of_ne_nil (hs : s ≠ []) :
    runes s = ((decodeRune s).1, s.take (decodeRune s).2) ::
      runes (s.drop (decodeRune s).2) := by
  have hsize := size_decodeRune hs
  have hpos := List.length_pos_iff.mpr hs
  have hfuel : runes s = splitRunes (s.length - 1 + 1) s :=
    (splitRunes_eq_runes (by omega)).symm
  rw [hfuel, splitRunes_succ _ hs, splitRunes_eq_runes]
  rw [List.length_drop]
  omega

theorem runes_cons_ascii (hb : isAscii b) (s : Bytes) :
    runes (b :: s) = (b.toNat, [b]) :: runes s := by
  rw [runes_of_ne_nil (List.cons_ne_nil b s), decodeRune_cons_ascii hb]
  rfl

theorem runes_append (s : Bytes) {t : Bytes}
    (ht : forall b, b ∈ t.head? -> isAscii b) :
    runes (s ++ t) = runes s ++ runes t := by
  generalize hn : s.length = n
  induction n using Nat.strong_induction_on generalizing s with
  | _ n ih =>
    by_cases hs : s = []
    · rw [hs]
      rfl
    have hsize := size_decodeRune hs
    have hne : s ++ t ≠ [] := fun h => hs (List.append_eq_nil_iff.mp h).1
    rw [runes_of_ne_nil hne, runes_of_ne_nil hs, decodeRune_append hs ht,
      List.take_append_of_le_length hsize.2,
      List.drop_append_of_le_length hsize.2, List.cons_append,
      ih _ (by rw [List.length_drop]; omega) _ rfl]

theorem flatMap_runes (s : Bytes) : (runes s).flatMap Prod.snd = s := by
  generalize hn : s.length = n
  induction n using Nat.strong_induction_on generalizing s with
  | _ n ih =>
    by_cases hs : s = []
    · rw [hs]
      rfl
    have hsize := size_decodeRune hs
    have hpos := List.length_pos_iff.mpr hs
    rw [runes_of_ne_nil hs, List.flatMap_cons,
      ih _ (by rw [List.length_drop]; omega) _ rfl, List.take_append_drop]

def IsRune (e : Nat × Bytes) : Prop :=
  (exists b, isAscii b ∧ e = (b.toNat, [b])) ∨
    (0x80 ≤ e.1 ∧ e.2 ≠ [] ∧ forall b, b ∈ e.2 -> ¬ isAscii b)

variable {e : Nat × Bytes}

theorem isRune_of_mem_runes (he : e ∈ runes s) :
    IsRune e := by
  generalize hn : s.length = n at *
  induction n using Nat.strong_induction_on generalizing s with
  | _ n ih =>
    cases s with
    | nil => cases he
    | cons a rest =>
    have hsize := size_decodeRune (List.cons_ne_nil a rest)
    rw [runes_of_ne_nil (List.cons_ne_nil a rest), List.mem_cons] at he
    cases he with
    | inr he =>
      refine ih _ ?_ he rfl
      rw [List.length_drop]
      omega
    | inl he =>
    rw [he]
    by_cases ha : isAscii a
    · left
      rw [decodeRune_cons_ascii ha]
      exact ⟨a, ha, rfl⟩
    right
    rcases exists_wide ha rest with ⟨r, k, hwide⟩
    rw [hwide.decodes]
    refine ⟨hwide.outside, ?_, hwide.bytes.2⟩
    intro hnil
    have hlength := congrArg List.length hnil
    rw [List.length_take] at hlength
    have hpositive := hwide.positive
    have hbytes := hwide.bytes.1
    simp only [List.length_nil] at hlength
    omega

theorem IsRune.ne_nil (he : IsRune e) : e.2 ≠ [] := by
  rcases he with ⟨b, -, rfl⟩ | ⟨-, hne, -⟩
  · exact List.cons_ne_nil b []
  · exact hne

/-!
## Parts of a string
-/

variable {l : List (Nat × Bytes)}

theorem runes_eq_cons (h : runes s = e :: l) :
    s ≠ [] ∧ e = ((decodeRune s).1, s.take (decodeRune s).2) ∧
      l = runes (s.drop (decodeRune s).2) := by
  have hs : s ≠ [] := by
    intro hnil
    rw [hnil, runes_nil] at h
    cases h
  rw [runes_of_ne_nil hs] at h
  cases h
  exact ⟨hs, rfl, rfl⟩

theorem runes_of_append_right {l' : List (Nat × Bytes)} (h : runes s = l ++ l') :
    runes (l'.flatMap Prod.snd) = l' := by
  induction l generalizing s with
  | nil => rw [← (show runes s = l' from h), flatMap_runes]
  | cons e l ih => exact ih (runes_eq_cons h).2.2.symm

theorem runes_of_append_left {l' : List (Nat × Bytes)} (h : runes s = l ++ l') :
    runes (l.flatMap Prod.snd) = l := by
  induction l generalizing s with
  | nil => rfl
  | cons e l ih =>
  rcases runes_eq_cons h with ⟨hs, he, hrest⟩
  have hsize := size_decodeRune hs
  have hpart : (e :: l).flatMap Prod.snd =
      s.take ((decodeRune s).2 + (l.flatMap Prod.snd).length) := by
    have hwhole : (l ++ l').flatMap Prod.snd =
        (runes (s.drop (decodeRune s).2)).flatMap Prod.snd :=
      congrArg (List.flatMap Prod.snd) hrest
    rw [flatMap_runes, List.flatMap_append] at hwhole
    rw [List.flatMap_cons, he, List.take_add, ← hwhole, List.take_left]
  have hfirst : decodeRune ((e :: l).flatMap Prod.snd) = decodeRune s := by
    rw [hpart]
    exact decodeRune_take hs (Nat.le_add_right _ _)
  have htake : e.2.length = (decodeRune s).2 := by
    rw [he, List.length_take]
    omega
  have hne : (e :: l).flatMap Prod.snd ≠ [] := by
    intro hnil
    have hlength := congrArg List.length hnil
    rw [List.flatMap_cons, List.length_append] at hlength
    simp only [List.length_nil] at hlength
    omega
  rw [runes_of_ne_nil hne, hfirst, List.flatMap_cons, ← htake,
    List.take_left, List.drop_left, ih hrest.symm]
  rw [he]

theorem runes_of_infix (h : l <:+: runes s) :
    runes (l.flatMap Prod.snd) = l := by
  rcases h with ⟨front, back, h⟩
  rw [List.append_assoc] at h
  exact runes_of_append_left (runes_of_append_right h.symm)

theorem mem_of_mem_runes (he : e ∈ runes s) (hb : b ∈ e.2) : b ∈ s := by
  have hmem : b ∈ (runes s).flatMap Prod.snd := List.mem_flatMap.mpr ⟨e, he, hb⟩
  rwa [flatMap_runes] at hmem

theorem mem_runes_of_isAscii (hb : isAscii b) (hmem : b ∈ s) :
    (b.toNat, [b]) ∈ runes s := by
  rw [← flatMap_runes s] at hmem
  rcases List.mem_flatMap.mp hmem with ⟨e, he, hbe⟩
  rcases isRune_of_mem_runes he with ⟨x, -, hx⟩ | ⟨-, -, hwide⟩
  · rw [hx] at he hbe
    rw [List.mem_singleton.mp hbe]
    exact he
  · exact absurd hb (hwide b hbe)

/-!
## White space
-/

def isBlank (e : Nat × Bytes) : Bool :=
  isSpace e.1

def Solid (s : Bytes) : Prop :=
  forall e, e ∈ runes s -> isBlank e = false

theorem trimSpace_eq (s : Bytes) :
    trimSpace s =
      (((runes s).dropWhile isBlank).rdropWhile isBlank).flatMap Prod.snd :=
  rfl

theorem runes_trimSpace (s : Bytes) :
    runes (trimSpace s) =
      ((runes s).dropWhile isBlank).rdropWhile isBlank := by
  rw [trimSpace_eq]
  have hright := List.rdropWhile_prefix isBlank ((runes s).dropWhile isBlank)
  have hleft := List.dropWhile_suffix isBlank (l := runes s)
  exact runes_of_infix (hright.isInfix.trans hleft.isInfix)

theorem trimSpace_of_solid (h : Solid s) : trimSpace s = s := by
  have hleft : (runes s).dropWhile isBlank = runes s := by
    refine List.dropWhile_eq_self_iff.mpr (fun hl => ?_)
    simp [h _ (List.getElem_mem hl)]
  have hright : (runes s).rdropWhile isBlank = runes s := by
    refine List.rdropWhile_eq_self_iff.mpr (fun hl => ?_)
    simp [h _ (List.getLast_mem hl)]
  rw [trimSpace_eq, hleft, hright, flatMap_runes]

theorem trimSpace_concat (s : Bytes) (hb : isAscii b)
    (hspace : isSpace b.toNat = true) : trimSpace (s ++ [b]) = trimSpace s := by
  have hrunes : runes (s ++ [b]) = runes s ++ [(b.toNat, [b])] := by
    rw [runes_append s (by simpa using hb), runes_cons_ascii hb, runes_nil]
  rw [trimSpace_eq, trimSpace_eq, hrunes, List.dropWhile_append]
  by_cases hall : (runes s).dropWhile isBlank = []
  · rw [hall]
    simp [isBlank, hspace]
  · rw [if_neg (by simpa using hall),
      List.rdropWhile_concat_pos _ _ _ (by simpa [isBlank] using hspace)]

section FlatMap

variable {α β : Type} {f : α -> List β} {p : α -> Bool} {q : β -> Bool}

theorem dropWhile_flatMap
    (hp : forall a, p a = true -> forall b, b ∈ f a -> q b)
    (hn : forall a, p a = false -> exists b bs, f a = b :: bs ∧ q b = false)
    (l : List α) : (l.flatMap f).dropWhile q = (l.dropWhile p).flatMap f := by
  induction l with
  | nil => rfl
  | cons a l ih =>
  rw [List.flatMap_cons]
  cases ha : p a with
  | true =>
    rw [List.dropWhile_append_of_pos (hp a ha), ih,
      List.dropWhile_cons_of_pos ha]
  | false =>
  rcases hn a ha with ⟨b, bs, hf, hq⟩
  rw [List.dropWhile_cons_of_neg (by simp [ha]), List.flatMap_cons, hf,
    List.cons_append, List.dropWhile_cons_of_neg (by simp [hq])]

theorem rdropWhile_flatMap
    (hp : forall a, p a = true -> forall b, b ∈ f a -> q b)
    (hn : forall a, p a = false -> exists bs b, f a = bs ++ [b] ∧ q b = false)
    (l : List α) : (l.flatMap f).rdropWhile q = (l.rdropWhile p).flatMap f := by
  unfold List.rdropWhile
  rw [List.reverse_flatMap, dropWhile_flatMap (p := p), List.reverse_flatMap]
  · refine congrArg (fun g => List.flatMap g _) (funext fun a => ?_)
    exact List.reverse_reverse (f a)
  · intro a ha b hb
    exact hp a ha b (List.mem_reverse.mp hb)
  intro a ha
  rcases hn a ha with ⟨bs, b, hf, hq⟩
  refine ⟨b, bs.reverse, ?_, hq⟩
  change (f a).reverse = _
  rw [hf, List.reverse_append, List.reverse_singleton, List.singleton_append]

end FlatMap

/-!
## Words
-/

def wordsOf {α : Type} (p : α -> Bool) (l : List α) : List (List α) :=
  (l.splitOnP p).filter (fun w => !w.isEmpty)

variable {α : Type}

theorem wordsOf_append_cons {p : α -> Bool} (l : List α) {x : α}
    (hx : p x = true) (l' : List α) :
    wordsOf p (l ++ x :: l') = wordsOf p l ++ wordsOf p l' := by
  unfold wordsOf
  rw [List.splitOnP_append_cons l l' hx, List.filter_append]

theorem wordsOf_nil (p : α -> Bool) : wordsOf p [] = [] := by
  simp [wordsOf]

theorem wordsOf_cons {p : α -> Bool} {x : α} (hx : p x = true) (l : List α) :
    wordsOf p (x :: l) = wordsOf p l := by
  have happend := wordsOf_append_cons [] hx l
  rwa [wordsOf_nil] at happend

theorem wordsOf_concat {p : α -> Bool} (l : List α) {x : α} (hx : p x = true) :
    wordsOf p (l ++ [x]) = wordsOf p l := by
  rw [wordsOf_append_cons l hx [], wordsOf_nil, List.append_nil]

theorem wordsOf_dropWhile (p : α -> Bool) (l : List α) :
    wordsOf p (l.dropWhile p) = wordsOf p l := by
  induction l with
  | nil => rfl
  | cons x l ih =>
  cases hx : p x with
  | false => rw [List.dropWhile_cons_of_neg (by simp [hx])]
  | true => rw [List.dropWhile_cons_of_pos hx, ih, wordsOf_cons hx]

theorem wordsOf_rdropWhile (p : α -> Bool) (l : List α) :
    wordsOf p (l.rdropWhile p) = wordsOf p l := by
  induction l using List.reverseRecOn with
  | nil => rfl
  | append_singleton l x ih =>
  cases hx : p x with
  | false => rw [List.rdropWhile_concat_neg _ _ _ (by simp [hx])]
  | true =>
    rw [List.rdropWhile_concat_pos _ _ _ hx, ih, wordsOf_concat l hx]

theorem wordsOf_of_all {p : α -> Bool} {l : List α} (hl : l ≠ [])
    (h : forall x, x ∈ l -> p x = false) : wordsOf p l = [l] := by
  unfold wordsOf
  rw [List.splitOnP_eq_singleton h]
  simp [hl]

theorem flatten_wordsOf (p : α -> Bool) (l : List α) :
    (wordsOf p l).flatten = l.filter (fun x => !p x) := by
  have hflatten : forall ws : List (List α),
      (ws.filter (fun w => !w.isEmpty)).flatten = ws.flatten := by
    intro ws
    induction ws with
    | nil => rfl
    | cons w ws ih => cases w <;> simp [ih]
  unfold wordsOf
  rw [hflatten]
  induction l with
  | nil => rfl
  | cons x l ih =>
  cases hx : p x with
  | true => simp [List.splitOnP_cons_eq_if_modifyHead, hx, ih]
  | false =>
  rw [List.splitOnP_cons_eq_if_modifyHead, if_neg (by simp [hx]),
    List.filter_cons_of_pos (by simp [hx]), ← ih]
  cases hsplit : l.splitOnP p with
  | nil => exact absurd hsplit (List.splitOnP_ne_nil p l)
  | cons w ws => simp

def fields (s : Bytes) : List Bytes :=
  (wordsOf isBlank (runes s)).map (fun w => w.flatMap Prod.snd)

theorem fields_nil : fields [] = [] := by
  rw [fields, runes_nil, wordsOf_nil, List.map_nil]

theorem fields_append (s : Bytes) (hb : isAscii b)
    (hspace : isSpace b.toNat = true) (t : Bytes) :
    fields (s ++ b :: t) = fields s ++ fields t := by
  have hblank : isBlank (b.toNat, [b]) = true := hspace
  unfold fields
  rw [runes_append s (by simpa using hb), runes_cons_ascii hb,
    wordsOf_append_cons _ hblank, List.map_append]

theorem fields_of_solid (hs : s ≠ []) (h : Solid s) :
    fields s = [s] := by
  have hne : runes s ≠ [] := by
    rw [runes_of_ne_nil hs]
    exact List.cons_ne_nil _ _
  unfold fields
  rw [wordsOf_of_all hne h, List.map_singleton, flatMap_runes]

theorem fields_trimSpace (s : Bytes) : fields (trimSpace s) = fields s := by
  unfold fields
  rw [runes_trimSpace, wordsOf_rdropWhile, wordsOf_dropWhile]

theorem flatten_fields (s : Bytes) :
    (fields s).flatten =
      ((runes s).filter (fun e => !isBlank e)).flatMap Prod.snd := by
  unfold fields
  rw [← flatten_wordsOf]
  induction wordsOf isBlank (runes s) with
  | nil => rfl
  | cons w ws ih =>
  rw [List.map_cons, List.flatten_cons, List.flatten_cons,
    List.flatMap_append, ih]

theorem length_flatten_fields (s : Bytes) :
    (fields s).flatten.length ≤ s.length ∧
      ((fields s).flatten.length = s.length -> Solid s) := by
  have hpart : forall l : List (Nat × Bytes), (forall e, e ∈ l -> IsRune e) ->
      ((l.filter (fun e => !isBlank e)).flatMap Prod.snd).length ≤
          (l.flatMap Prod.snd).length ∧
        (((l.filter (fun e => !isBlank e)).flatMap Prod.snd).length =
            (l.flatMap Prod.snd).length ->
          forall e, e ∈ l -> isBlank e = false) := by
    intro l hl
    induction l with
    | nil => exact ⟨Nat.le_refl _, fun _ e he => nomatch he⟩
    | cons x l ih =>
    have hx := List.length_pos_iff.mpr (hl x List.mem_cons_self).ne_nil
    rcases ih (fun e he => hl e (List.mem_cons_of_mem x he)) with
      ⟨hle, heq⟩
    cases hblank : isBlank x with
    | true =>
      rw [List.filter_cons_of_neg (by simp [hblank]), List.flatMap_cons,
        List.length_append]
      constructor
      · omega
      · intro hsame
        omega
    | false =>
    rw [List.filter_cons_of_pos (by simp [hblank]), List.flatMap_cons,
      List.flatMap_cons, List.length_append, List.length_append]
    constructor
    · omega
    intro hsame e he
    cases List.mem_cons.mp he with
    | inl he => rw [he, hblank]
    | inr he => exact heq (by omega) e he
  have hall := hpart (runes s) (fun e he => isRune_of_mem_runes he)
  rw [flatMap_runes, ← flatten_fields] at hall
  exact hall

end Foundation
end ChimeraMQ
