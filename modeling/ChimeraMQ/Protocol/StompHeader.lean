import ChimeraMQ.Foundation.Runes
import Mathlib.Algebra.Order.BigOperators.Group.Finset

/-!
# Headers of STOMP frames

What a header line could not contain is escaped.  A header is unescaped by three
replacements in a row, and the first two of them take the second half of an
escaped backslash for an escape of its own.
-/

namespace ChimeraMQ
namespace Stomp

open Foundation

def encodeHeader (s : Bytes) : Bytes :=
  replaceAll [0x0A] [0x5C, 0x6E]
    (replaceAll [0x3A] [0x5C, 0x63] (replaceAll [0x5C] [0x5C, 0x5C] s))

def decodeHeader (s : Bytes) : Bytes :=
  replaceAll [0x5C, 0x5C] [0x5C]
    (replaceAll [0x5C, 0x63] [0x3A] (replaceAll [0x5C, 0x6E] [0x0A] s))

def readBack (s : Bytes) : Bytes :=
  decodeHeader (trimSpace (encodeHeader s))

def isTrimmed (e : Nat × Bytes) : Bool :=
  isBlank e && decide (e.1 ≠ 0x0A)

/--
A string without what the reader takes for an escape, and without white space
around it other than newlines.
-/
structure Plain (s : Bytes) : Prop where
  newline : ¬ [0x5C, 0x6E] <:+: s
  colon : ¬ [0x5C, 0x63] <:+: s
  first : forall e, e ∈ (runes s).head? -> isTrimmed e = false
  last : forall e, e ∈ (runes s).getLast? -> isTrimmed e = false

def escape (b : UInt8) : Bytes :=
  if b = 0x5C then [0x5C, 0x5C]
  else if b = 0x3A then [0x5C, 0x63]
  else if b = 0x0A then [0x5C, 0x6E]
  else [b]

theorem encodeHeader_eq (s : Bytes) : encodeHeader s = s.flatMap escape := by
  unfold encodeHeader
  rw [replaceAll_singleton, replaceAll_singleton, replaceAll_singleton,
    List.flatMap_assoc, List.flatMap_assoc]
  refine congrArg (fun f => s.flatMap f) (funext fun b => ?_)
  unfold escape
  by_cases hbackslash : b = 0x5C
  · rw [hbackslash]
    decide
  by_cases hcolon : b = 0x3A
  · rw [hcolon]
    decide
  by_cases hnewline : b = 0x0A
  · rw [hnewline]
    decide
  · simp [hbackslash, hcolon, hnewline]

theorem encodeHeader_cons (b : UInt8) (s : Bytes) :
    encodeHeader (b :: s) = escape b ++ encodeHeader s := by
  rw [encodeHeader_eq, encodeHeader_eq, List.flatMap_cons]

theorem not_mem_encodeHeader (s : Bytes) :
    0x0A ∉ encodeHeader s ∧ 0x3A ∉ encodeHeader s := by
  have hescape : forall b, 0x0A ∉ escape b ∧ 0x3A ∉ escape b := by
    intro b
    unfold escape
    split
    · decide
    split
    · decide
    rename_i hcolon
    split
    · decide
    · rename_i hnewline
      simp [Ne.symm hcolon, Ne.symm hnewline]
  rw [encodeHeader_eq]
  constructor
  · intro hmem
    rcases List.mem_flatMap.mp hmem with ⟨b, -, hb⟩
    exact (hescape b).1 hb
  · intro hmem
    rcases List.mem_flatMap.mp hmem with ⟨b, -, hb⟩
    exact (hescape b).2 hb

/-!
## Unescaping
-/

/-- A string in which bytes behind a backslash are taken for escapes. -/
def misreadAfter (backslash : Bool) : Bytes -> Bytes
  | [] => []
  | b :: s =>
    (if backslash && b = 0x6E then 0x0A
      else if backslash && b = 0x63 then 0x3A
      else b) :: misreadAfter (b = 0x5C) s

theorem misreadAfter_false_cons (b : UInt8) (s : Bytes) :
    misreadAfter false (b :: s) = b :: misreadAfter (b = 0x5C) s := by
  simp [misreadAfter]

variable {s : Bytes}

theorem misreadAfter_true_of_head (hn : s.head? ≠ some 0x6E)
    (hc : s.head? ≠ some 0x63) :
    misreadAfter true s = misreadAfter false s := by
  cases s with
  | nil => rfl
  | cons b s =>
  have hn' : b ≠ 0x6E := fun h => hn (by rw [h]; rfl)
  have hc' : b ≠ 0x63 := fun h => hc (by rw [h]; rfl)
  simp [misreadAfter, hn', hc']

theorem head?_encodeHeader {x : UInt8} (hx : x ≠ 0x5C)
    (h : (encodeHeader s).head? = some x) : s.head? = some x := by
  cases s with
  | nil => exact h
  | cons b s =>
  rw [encodeHeader_cons] at h
  unfold escape at h
  split at h
  · exact absurd (Option.some.inj h).symm hx
  split at h
  · exact absurd (Option.some.inj h).symm hx
  · split at h
    · exact absurd (Option.some.inj h).symm hx
    · exact h

theorem encodeHeader_plain {b : UInt8} (hbackslash : b ≠ 0x5C)
    (hcolon : b ≠ 0x3A) (hnewline : b ≠ 0x0A) (s : Bytes) :
    encodeHeader (b :: s) = b :: encodeHeader s := by
  rw [encodeHeader_cons, escape, if_neg hbackslash, if_neg hcolon,
    if_neg hnewline, List.singleton_append]

theorem head?_unescapeNewline
    (h : (replaceAll [0x5C, 0x6E] [0x0A] (encodeHeader s)).head? = some 0x63) :
    s.head? = some 0x63 := by
  cases s with
  | nil => exact absurd h (by decide)
  | cons b s =>
  by_cases hbackslash : b = 0x5C
  · have henc : encodeHeader (b :: s) = 0x5C :: 0x5C :: encodeHeader s := by
      rw [encodeHeader_cons, hbackslash]
      rfl
    rw [henc, replaceAll_pair_of_head _ (by simp)] at h
    exact absurd (Option.some.inj h) (by decide)
  by_cases hcolon : b = 0x3A
  · have henc : encodeHeader (b :: s) = 0x5C :: 0x63 :: encodeHeader s := by
      rw [encodeHeader_cons, hcolon]
      rfl
    rw [henc, replaceAll_pair_of_head _ (by simp)] at h
    exact absurd (Option.some.inj h) (by decide)
  by_cases hnewline : b = 0x0A
  · have henc : encodeHeader (b :: s) = 0x5C :: 0x6E :: encodeHeader s := by
      rw [encodeHeader_cons, hnewline]
      rfl
    rw [henc, replaceAll_pair] at h
    exact absurd (Option.some.inj h) (by decide)
  · rw [encodeHeader_plain hbackslash hcolon hnewline,
      replaceAll_pair_of_ne _ hbackslash] at h
    exact h

theorem decodeHeader_encodeHeader (s : Bytes) :
    decodeHeader (encodeHeader s) = misreadAfter false s := by
  generalize hlength : s.length = n
  induction n using Nat.strong_induction_on generalizing s with
  | _ n ih =>
    unfold decodeHeader at ih ⊢
    cases s with
    | nil => rfl
    | cons b s =>
    rw [List.length_cons] at hlength
    have hrest := ih s.length (by omega) s rfl
    rw [misreadAfter_false_cons]
    by_cases hbackslash : b = 0x5C
    · have henc : encodeHeader (b :: s) =
          0x5C :: 0x5C :: encodeHeader s := by
        rw [encodeHeader_cons, hbackslash]
        rfl
      rw [henc, replaceAll_pair_of_head _ (by simp), hbackslash]
      by_cases hn : s.head? = some 0x6E
      · -- the second backslash is taken for that of a newline
        rcases List.head?_eq_some_iff.mp hn with ⟨u, hu⟩
        rw [hu, List.length_cons] at hlength
        have hu' := ih u.length (by omega) u rfl
        have hnewline : forall t : Bytes,
            replaceAll [0x5C, 0x6E] [0x0A] (0x5C :: 0x6E :: t) =
              0x0A :: replaceAll [0x5C, 0x6E] [0x0A] t :=
          fun t => replaceAll_pair [0x0A] t
        rw [hu, encodeHeader_plain (by decide) (by decide) (by decide),
          hnewline, replaceAll_pair_of_snd _ (by decide) (by decide),
          replaceAll_pair_of_snd _ (by decide) (by decide), hu']
        rfl
      have hkeep : (encodeHeader s).head? ≠ some 0x6E :=
        fun h => hn (head?_encodeHeader (by decide) h)
      by_cases hc : s.head? = some 0x63
      · -- the second backslash is taken for that of a colon
        rcases List.head?_eq_some_iff.mp hc with ⟨u, hu⟩
        rw [hu, List.length_cons] at hlength
        have hu' := ih u.length (by omega) u rfl
        have hcolon : forall t : Bytes,
            replaceAll [0x5C, 0x63] [0x3A] (0x5C :: 0x5C :: 0x63 :: t) =
              0x5C :: 0x3A :: replaceAll [0x5C, 0x63] [0x3A] t := by
          intro t
          rw [replaceAll_pair_of_head _ (by simp), replaceAll_pair,
            List.singleton_append]
        rw [hu, encodeHeader_plain (by decide) (by decide) (by decide),
          replaceAll_pair_of_snd _ (by decide) (by decide), hcolon,
          replaceAll_pair_of_snd _ (by decide) (by decide), hu']
        rfl
      · have hkeep' : (replaceAll [0x5C, 0x6E] [0x0A]
            (encodeHeader s)).head? ≠ some 0x63 :=
          fun h => hc (head?_unescapeNewline h)
        rw [replaceAll_pair_of_head _ hkeep,
          replaceAll_pair_of_head _ (by simp),
          replaceAll_pair_of_head _ hkeep', replaceAll_pair,
          List.singleton_append, hrest, decide_eq_true rfl,
          misreadAfter_true_of_head hn hc]
    rw [decide_eq_false hbackslash]
    by_cases hcolon : b = 0x3A
    · have henc : encodeHeader (b :: s) =
          0x5C :: 0x63 :: encodeHeader s := by
        rw [encodeHeader_cons, hcolon]
        rfl
      rw [henc, replaceAll_pair_of_snd _ (by decide) (by decide),
        replaceAll_pair, List.singleton_append,
        replaceAll_pair_of_ne _ (by decide), hrest, hcolon]
    by_cases hnewline : b = 0x0A
    · have henc : encodeHeader (b :: s) =
          0x5C :: 0x6E :: encodeHeader s := by
        rw [encodeHeader_cons, hnewline]
        rfl
      rw [henc, replaceAll_pair, List.singleton_append,
        replaceAll_pair_of_ne _ (by decide),
        replaceAll_pair_of_ne _ (by decide), hrest, hnewline]
    · rw [encodeHeader_plain hbackslash hcolon hnewline,
        replaceAll_pair_of_ne _ hbackslash,
        replaceAll_pair_of_ne _ hbackslash,
        replaceAll_pair_of_ne _ hbackslash, hrest]

/-- The length of a string; what may be read as an escape counts twice. -/
def weight (s : Bytes) : Nat :=
  (s.map (fun b => if b = 0x6E ∨ b = 0x63 then 2 else 1)).sum

theorem weight_append (s t : Bytes) :
    weight (s ++ t) = weight s + weight t := by
  unfold weight
  rw [List.map_append, List.sum_append]

theorem weight_cons (b : UInt8) (s : Bytes) :
    weight (b :: s) = (if b = 0x6E ∨ b = 0x63 then 2 else 1) + weight s := by
  unfold weight
  rw [List.map_cons, List.sum_cons]

theorem weight_pos (hs : s ≠ []) : 0 < weight s := by
  cases s with
  | nil => exact absurd rfl hs
  | cons b s =>
  rw [weight_cons]
  split <;> omega

theorem misreadAfter_cases (backslash : Bool) (s : Bytes) :
    misreadAfter backslash s = s ∨
      weight (misreadAfter backslash s) < weight s := by
  induction s generalizing backslash with
  | nil => exact Or.inl rfl
  | cons b s ih =>
  have hle : weight (misreadAfter (b = 0x5C) s) ≤ weight s := by
    cases ih (b = 0x5C) with
    | inl h => rw [h]
    | inr h => exact Nat.le_of_lt h
  unfold misreadAfter
  rw [weight_cons, weight_cons]
  split
  · right
    rename_i hn
    have hb : b = 0x6E := by simpa using (Bool.and_eq_true_iff.mp hn).2
    rw [if_neg (by decide), if_pos (Or.inl hb)]
    omega
  split
  · right
    rename_i hc
    have hb : b = 0x63 := by simpa using (Bool.and_eq_true_iff.mp hc).2
    rw [if_neg (by decide), if_pos (Or.inr hb)]
    omega
  · cases ih (b = 0x5C) with
    | inl h => exact Or.inl (by rw [h])
    | inr h => exact Or.inr (by omega)

theorem misreadAfter_eq_self {backslash : Bool}
    (hhead : backslash = true -> s.head? ≠ some 0x6E ∧ s.head? ≠ some 0x63)
    (hn : ¬ [0x5C, 0x6E] <:+: s) (hc : ¬ [0x5C, 0x63] <:+: s) :
    misreadAfter backslash s = s := by
  induction s generalizing backslash with
  | nil => rfl
  | cons b s ih =>
  have htail : forall l : Bytes, ¬ l <:+: b :: s -> ¬ l <:+: s :=
    fun l h hl => h (List.infix_cons hl)
  have hrest : misreadAfter (b = 0x5C) s = s := by
    refine ih ?_ (htail _ hn) (htail _ hc)
    intro hbackslash
    have hb : b = 0x5C := of_decide_eq_true hbackslash
    have hpair : forall x : UInt8, s.head? = some x ->
        [0x5C, x] <:+: b :: s := by
      intro x hx
      rcases List.head?_eq_some_iff.mp hx with ⟨u, hu⟩
      exact ⟨[], u, by rw [hu, hb]; rfl⟩
    exact ⟨fun h => hn (hpair _ h), fun h => hc (hpair _ h)⟩
  unfold misreadAfter
  rw [hrest, if_neg, if_neg]
  · intro h
    rcases Bool.and_eq_true_iff.mp h with ⟨hbackslash, hb⟩
    refine (hhead hbackslash).2 ?_
    rw [List.head?_cons, of_decide_eq_true hb]
  intro h
  rcases Bool.and_eq_true_iff.mp h with ⟨hbackslash, hb⟩
  refine (hhead hbackslash).1 ?_
  rw [List.head?_cons, of_decide_eq_true hb]

@[simp] theorem length_misreadAfter (backslash : Bool) (s : Bytes) :
    (misreadAfter backslash s).length = s.length := by
  induction s generalizing backslash with
  | nil => rfl
  | cons b s ih => rw [misreadAfter, List.length_cons, List.length_cons, ih]

theorem misreadAfter_backslash (backslash : Bool) (s t : Bytes) :
    misreadAfter backslash (s ++ 0x5C :: t) =
      misreadAfter backslash s ++ 0x5C :: misreadAfter true t := by
  induction s generalizing backslash with
  | nil => simp [misreadAfter]
  | cons b s ih => rw [List.cons_append, misreadAfter, misreadAfter, ih,
      List.cons_append]

theorem misreadAfter_ne_self {backslash : Bool} {x : UInt8}
    (hx : x = 0x6E ∨ x = 0x63) (h : [0x5C, x] <:+: s) :
    misreadAfter backslash s ≠ s := by
  rcases h with ⟨front, back, rfl⟩
  intro hsame
  have hsplit : front ++ [0x5C, x] ++ back = front ++ 0x5C :: x :: back := by
    simp
  rw [hsplit, misreadAfter_backslash] at hsame
  have hback := (List.append_inj hsame (length_misreadAfter _ _)).2
  have hhead := congrArg (fun l => l[1]?) hback
  rcases hx with rfl | rfl
  · exact absurd hhead (by simp [misreadAfter])
  · exact absurd hhead (by simp [misreadAfter])

/-!
## Trimming
-/

def escapeRune (e : Nat × Bytes) : List (Nat × Bytes) :=
  if e.1 = 0x5C then [(0x5C, [0x5C]), (0x5C, [0x5C])]
  else if e.1 = 0x3A then [(0x5C, [0x5C]), (0x63, [0x63])]
  else if e.1 = 0x0A then [(0x5C, [0x5C]), (0x6E, [0x6E])]
  else [e]

theorem encodeHeader_append (s t : Bytes) :
    encodeHeader (s ++ t) = encodeHeader s ++ encodeHeader t := by
  rw [encodeHeader_eq, encodeHeader_eq, encodeHeader_eq, List.flatMap_append]

theorem encodeHeader_of_not_isAscii (h : forall b, b ∈ s -> ¬ isAscii b) :
    encodeHeader s = s := by
  induction s with
  | nil => rfl
  | cons b s ih =>
  have hb := h b List.mem_cons_self
  have hne : forall x : UInt8, isAscii x -> b ≠ x := by
    intro x hx heq
    exact hb (heq ▸ hx)
  rw [encodeHeader_plain (hne _ (by decide)) (hne _ (by decide))
    (hne _ (by decide)), ih (fun x hx => h x (List.mem_cons_of_mem b hx))]

theorem escapeRune_of_le {e : Nat × Bytes} (he : 0x80 ≤ e.1) :
    escapeRune e = [e] := by
  unfold escapeRune
  rw [if_neg (by omega), if_neg (by omega), if_neg (by omega)]

theorem runes_escape {b : UInt8} (hb : isAscii b) (s : Bytes) :
    runes (escape b ++ s) = escapeRune (b.toNat, [b]) ++ runes s := by
  have hcons : forall x : UInt8, isAscii x -> forall t,
      runes (x :: t) = (x.toNat, [x]) :: runes t :=
    fun x hx t => runes_cons_ascii hx t
  by_cases hbackslash : b = 0x5C
  · rw [hbackslash]
    exact (hcons _ (by decide) _).trans
      (congrArg _ (hcons _ (by decide) _))
  by_cases hcolon : b = 0x3A
  · rw [hcolon]
    exact (hcons _ (by decide) _).trans
      (congrArg _ (hcons _ (by decide) _))
  by_cases hnewline : b = 0x0A
  · rw [hnewline]
    exact (hcons _ (by decide) _).trans
      (congrArg _ (hcons _ (by decide) _))
  have hne : forall x : UInt8, b ≠ x -> b.toNat ≠ x.toNat :=
    fun x hx h => hx (UInt8.toNat_inj.mp h)
  have hrune : escapeRune (b.toNat, [b]) = [(b.toNat, [b])] :=
    (if_neg (hne 0x5C hbackslash)).trans
      ((if_neg (hne 0x3A hcolon)).trans (if_neg (hne 0x0A hnewline)))
  rw [hrune, escape, if_neg hbackslash, if_neg hcolon, if_neg hnewline]
  exact hcons b hb s

theorem flatMap_escapeRune_runes (h : forall b, b ∈ s -> ¬ isAscii b) :
    (runes s).flatMap escapeRune = runes s := by
  have hall : forall e, e ∈ runes s -> escapeRune e = [e] := by
    intro e he
    rcases isRune_of_mem_runes he with ⟨b, hb, rfl⟩ | ⟨hle, -, -⟩
    · exact absurd hb (h b (mem_of_mem_runes he List.mem_cons_self))
    · exact escapeRune_of_le hle
  generalize runes s = l at hall
  induction l with
  | nil => rfl
  | cons e l ih =>
  rw [List.flatMap_cons, hall e List.mem_cons_self,
    ih (fun x hx => hall x (List.mem_cons_of_mem e hx)),
    List.singleton_append]

theorem isAscii_of_mem_head?_encodeHeader
    (h : forall b, b ∈ s.head? -> isAscii b) :
    forall b, b ∈ (encodeHeader s).head? -> isAscii b := by
  cases s with
  | nil => exact h
  | cons a s =>
  intro b hb
  rw [encodeHeader_cons] at hb
  unfold escape at hb
  split at hb
  · cases hb
    decide
  split at hb
  · cases hb
    decide
  split at hb
  · cases hb
    decide
  · cases hb
    exact h a rfl

theorem runes_encodeHeader (s : Bytes) :
    runes (encodeHeader s) = (runes s).flatMap escapeRune := by
  generalize hlength : s.length = n
  induction n using Nat.strong_induction_on generalizing s with
  | _ n ih =>
    cases s with
    | nil => rfl
    | cons b s =>
    rw [List.length_cons] at hlength
    by_cases hb : isAscii b
    · rw [encodeHeader_cons, runes_escape hb, runes_cons_ascii hb,
        List.flatMap_cons, ih s.length (by omega) s rfl]
    -- what is outside ASCII at the front is not escaped
    rcases exists_front_ascii (b :: s) with
      ⟨front, back, hs, hfront, hback⟩
    have hpos : 0 < front.length := by
      cases front with
      | nil =>
        rw [List.nil_append] at hs
        exact absurd (hback b (by rw [← hs]; rfl)) hb
      | cons x front => exact Nat.succ_pos _
    have hbacklen : back.length < n := by
      have hboth := congrArg List.length hs
      rw [List.length_cons, List.length_append] at hboth
      omega
    have hsame : (runes front).flatMap escapeRune = runes front :=
      flatMap_escapeRune_runes hfront
    rw [hs, encodeHeader_append, encodeHeader_of_not_isAscii hfront,
      runes_append front (isAscii_of_mem_head?_encodeHeader hback),
      runes_append front hback, List.flatMap_append, hsame,
      ih back.length hbacklen back rfl]

theorem flatMap_escapeRune {l : List (Nat × Bytes)}
    (h : forall e, e ∈ l -> IsRune e) :
    (l.flatMap escapeRune).flatMap Prod.snd =
      encodeHeader (l.flatMap Prod.snd) := by
  induction l with
  | nil => rfl
  | cons e l ih =>
  rw [List.flatMap_cons, List.flatMap_append, List.flatMap_cons,
    encodeHeader_append, ih (fun x hx => h x (List.mem_cons_of_mem e hx))]
  congr 1
  rcases h e List.mem_cons_self with ⟨b, hb, rfl⟩ | ⟨hle, -, hwide⟩
  · have hrunes := congrArg (List.flatMap Prod.snd) (runes_escape hb [])
    rw [flatMap_runes, runes_nil, List.append_nil, List.append_nil]
      at hrunes
    rw [← hrunes, encodeHeader_eq]
    exact (List.append_nil (escape b)).symm
  · rw [escapeRune_of_le hle, encodeHeader_of_not_isAscii hwide]
    exact List.append_nil e.2

theorem isBlank_of_isTrimmed {e : Nat × Bytes} (h : isTrimmed e = true) :
    isBlank e = true ∧ escapeRune e = [e] := by
  rcases Bool.and_eq_true_iff.mp h with ⟨hblank, hnewline⟩
  have hnewline' : e.1 ≠ 0x0A := of_decide_eq_true hnewline
  have hspace : isSpace e.1 = true := hblank
  refine ⟨hblank, ?_⟩
  unfold escapeRune
  rw [if_neg, if_neg, if_neg hnewline']
  · intro hcolon
    rw [hcolon] at hspace
    exact absurd hspace (by decide)
  · intro hbackslash
    rw [hbackslash] at hspace
    exact absurd hspace (by decide)

theorem escapeRune_of_not_isTrimmed {e : Nat × Bytes}
    (h : isTrimmed e = false) :
    exists x l y, isBlank x = false ∧ isBlank y = false ∧
      (escapeRune e = [x] ∧ x = y ∨ escapeRune e = x :: l ++ [y]) := by
  unfold escapeRune
  split
  · exact ⟨_, [], _, by decide, by decide, Or.inr rfl⟩
  split
  · exact ⟨_, [], _, by decide, by decide, Or.inr rfl⟩
  split
  · exact ⟨_, [], _, by decide, by decide, Or.inr rfl⟩
  rename_i hnewline
  have hblank : isBlank e = false := by
    simpa [isTrimmed, hnewline] using h
  exact ⟨e, [], e, hblank, hblank, Or.inl ⟨rfl, rfl⟩⟩

/-- The string without white space around it, other than newlines. -/
def trimBlanks (s : Bytes) : Bytes :=
  (((runes s).dropWhile isTrimmed).rdropWhile isTrimmed).flatMap Prod.snd

theorem trimSpace_encodeHeader (s : Bytes) :
    trimSpace (encodeHeader s) = encodeHeader (trimBlanks s) := by
  have hp : forall e, isTrimmed e = true -> forall x, x ∈ escapeRune e ->
      isBlank x = true := by
    intro e he x hx
    rw [(isBlank_of_isTrimmed he).2, List.mem_singleton] at hx
    rw [hx]
    exact (isBlank_of_isTrimmed he).1
  rw [trimSpace_eq, runes_encodeHeader, dropWhile_flatMap (p := isTrimmed) hp,
    rdropWhile_flatMap (p := isTrimmed) hp, flatMap_escapeRune, trimBlanks]
  · intro e he
    refine isRune_of_mem_runes (s := s) ?_
    exact (List.dropWhile_suffix isTrimmed).subset
      ((List.rdropWhile_prefix isTrimmed _).subset he)
  · intro e he
    rcases escapeRune_of_not_isTrimmed he with
      ⟨x, l, y, hx, hy, ⟨hsame, rfl⟩ | hmany⟩
    · exact ⟨[], x, hsame, hx⟩
    · exact ⟨x :: l, y, hmany, hy⟩
  · intro e he
    rcases escapeRune_of_not_isTrimmed he with
      ⟨x, l, y, hx, hy, ⟨hsame, rfl⟩ | hmany⟩
    · exact ⟨x, [], hsame, hx⟩
    · exact ⟨x, l ++ [y], hmany, hx⟩

theorem weight_flatMap_pos {l : List (Nat × Bytes)} (hl : l ≠ [])
    (h : forall e, e ∈ l -> IsRune e) : 0 < weight (l.flatMap Prod.snd) := by
  cases l with
  | nil => exact absurd rfl hl
  | cons e l =>
  have hpos := weight_pos (h e List.mem_cons_self).ne_nil
  rw [List.flatMap_cons, weight_append]
  omega

theorem trimBlanks_cases (s : Bytes) :
    (trimBlanks s = s ∧ (forall e, e ∈ (runes s).head? -> isTrimmed e = false) ∧
        forall e, e ∈ (runes s).getLast? -> isTrimmed e = false) ∨
      weight (trimBlanks s) < weight s := by
  rcases List.dropWhile_suffix isTrimmed (l := runes s) with ⟨front, hfront⟩
  rcases List.rdropWhile_prefix isTrimmed ((runes s).dropWhile isTrimmed) with
    ⟨back, hback⟩
  have hall : runes s = front ++
      (((runes s).dropWhile isTrimmed).rdropWhile isTrimmed ++ back) := by
    rw [hback, hfront]
  have hrunes : forall e, e ∈ runes s -> IsRune e :=
    fun e he => isRune_of_mem_runes he
  have hweight : weight s = weight (front.flatMap Prod.snd) +
      (weight (trimBlanks s) + weight (back.flatMap Prod.snd)) := by
    have hbytes := congrArg (List.flatMap Prod.snd) hall
    rw [flatMap_runes, List.flatMap_append, List.flatMap_append] at hbytes
    rw [hbytes, weight_append, weight_append, trimBlanks, ← hbytes]
  by_cases hkept : front = [] ∧ back = []
  · left
    rcases hkept with ⟨hf, hb⟩
    rw [hf, List.nil_append] at hfront
    rw [hb, List.append_nil, hfront] at hback
    refine ⟨?_, ?_, ?_⟩
    · rw [trimBlanks, hfront, hback, flatMap_runes]
    · intro e he
      have hhead := List.head?_dropWhile_not isTrimmed (runes s)
      rw [hfront, Option.mem_def.mp he] at hhead
      exact hhead
    intro e he
    have hne : runes s ≠ [] := by
      intro hnil
      rw [hnil] at he
      cases he
    have hlast := List.rdropWhile_eq_self_iff.mp hback hne
    rw [List.getLast?_eq_some_getLast hne] at he
    cases he
    simpa using hlast
  · right
    by_cases hf : front = []
    · have hb : back ≠ [] := fun hb => hkept ⟨hf, hb⟩
      have hpos := weight_flatMap_pos hb (fun e he => hrunes e (by
        rw [hall]
        exact List.mem_append_right _ (List.mem_append_right _ he)))
      omega
    have hpos := weight_flatMap_pos hf (fun e he => hrunes e (by
      rw [hall]
      exact List.mem_append_left _ he))
    omega

theorem trimBlanks_of_plain (h : Plain s) : trimBlanks s = s := by
  have hleft : (runes s).dropWhile isTrimmed = runes s := by
    cases hs : runes s with
    | nil => rfl
    | cons e l =>
    rw [List.dropWhile_cons_of_neg]
    simpa using h.first e (by rw [hs]; rfl)
  have hright : (runes s).rdropWhile isTrimmed = runes s := by
    refine List.rdropWhile_eq_self_iff.mpr (fun hl => ?_)
    simpa using h.last _ (List.getLast?_eq_some_getLast hl)
  rw [trimBlanks, hleft, hright, flatMap_runes]

/-!
## What is read back
-/

theorem readBack_eq (s : Bytes) :
    readBack s = misreadAfter false (trimBlanks s) := by
  rw [readBack, trimSpace_encodeHeader, decodeHeader_encodeHeader]

theorem readBack_cases (s : Bytes) :
    (Plain s ∧ readBack s = s) ∨ weight (readBack s) < weight s := by
  rw [readBack_eq]
  rcases trimBlanks_cases s with ⟨htrim, hfirst, hlast⟩ | hlt
  · rw [htrim]
    rcases misreadAfter_cases false s with hsame | hlt
    · exact Or.inl ⟨⟨fun h => misreadAfter_ne_self (Or.inl rfl) h hsame,
        fun h => misreadAfter_ne_self (Or.inr rfl) h hsame, hfirst, hlast⟩,
        hsame⟩
    · exact Or.inr hlt
  · right
    rcases misreadAfter_cases false (trimBlanks s) with hsame | hless
    · rwa [hsame]
    · exact Nat.lt_trans hless hlt

theorem readBack_of_plain (h : Plain s) : readBack s = s := by
  rw [readBack_eq, trimBlanks_of_plain h]
  exact misreadAfter_eq_self (by simp) h.newline h.colon

theorem plain_of_readBack (h : readBack s = s) : Plain s := by
  rcases readBack_cases s with ⟨hplain, -⟩ | hlt
  · exact hplain
  · rw [h] at hlt
    exact absurd hlt (Nat.lt_irrefl _)

theorem fixes_of_reaches {α : Type} [DecidableEq α] {g : α -> α}
    {w : α -> Nat} (hg : forall a, g a = a ∨ w (g a) < w a)
    {keys : Finset α}
    (hreach : forall k, k ∈ keys -> exists j, j ∈ keys ∧ g j = k) :
    forall k, k ∈ keys -> g k = k := by
  have hsub : keys ⊆ keys.image g := by
    intro k hk
    rcases hreach k hk with ⟨j, hj, hjk⟩
    exact Finset.mem_image.mpr ⟨j, hj, hjk⟩
  have himage : keys = keys.image g :=
    Finset.eq_of_subset_of_card_le hsub Finset.card_image_le
  have hinj : Set.InjOn g keys :=
    Finset.card_image_iff.mp (congrArg Finset.card himage).symm
  have hle : forall a, a ∈ keys -> w (g a) ≤ w a := by
    intro a _
    cases hg a with
    | inl h => rw [h]
    | inr h => exact Nat.le_of_lt h
  have hsum : (keys.sum fun a => w (g a)) = keys.sum w := by
    rw [← Finset.sum_image hinj, ← himage]
  intro k hk
  have hsame := (Finset.sum_eq_sum_iff_of_le hle).mp hsum k hk
  cases hg k with
  | inl h => exact h
  | inr h => omega

end Stomp
end ChimeraMQ
