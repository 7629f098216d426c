import ChimeraMQ.Foundation.Runes

/-!
# Path patterns

Patterns for the names of files, with stars, question marks and classes of
characters.  A star stands for any characters but slashes.
-/

namespace ChimeraMQ
namespace Foundation

/-!
## Chunks
-/

def chunkLength : Bool -> Bytes -> Nat
  | _, [] => 0
  | inrange, 92 :: rest =>
    match rest with
    | [] => 1
    | _ :: rest => chunkLength inrange rest + 2
  | inrange, c :: rest =>
    if c = 42 ∧ inrange = false then 0
    else if c = 91 then chunkLength true rest + 1
    else if c = 93 then chunkLength false rest + 1
    else chunkLength inrange rest + 1

def scanChunk (pattern : Bytes) : Bool × Bytes × Bytes :=
  let rest := pattern.dropWhile (fun c => c = 42)
  let n := chunkLength false rest
  (pattern.head? = some 42, rest.take n, rest.drop n)

def getEsc (chunk : Bytes) : Option (Nat × Bytes) :=
  match chunk with
  | [] => none
  | c :: rest =>
  if c = 45 ∨ c = 93 then none
  else
    let chunk := if c = 92 then rest else chunk
    let (r, n) := decodeRune chunk
    if chunk = [] ∨ r = runeError ∧ n = 1 ∨ chunk.drop n = [] then none
    else some (r, chunk.drop n)

/--
The ranges of a class up to its end.  Returns whether one of them has the
character, and what follows the class.  The number bounds the ranges.
-/
def scanRanges (r : Nat) : Nat -> Bytes -> Option (Bool × Bytes)
  | 0, _ => none
  | k + 1, chunk =>
    match getEsc chunk with
    | none => none
    | some (lo, rest) =>
    let range :=
      match rest with
      | 45 :: rest => getEsc rest
      | _ => some (lo, rest)
    match range with
    | none => none
    | some (hi, rest) =>
    let inside := decide (lo ≤ r ∧ r ≤ hi)
    match rest with
    | 93 :: rest => some (inside, rest)
    | _ =>
      (scanRanges r k rest).map (fun m => (inside || m.1, m.2))

/--
Match a chunk with the start of a name.  Returns what is left of the name, and
nothing at all if the chunk is not well formed.
-/
def matchChunk : Nat -> Bytes -> Bytes -> Bool -> Option (Option Bytes)
  | _, [], name, failed => some (if failed then none else some name)
  | 0, _ :: _, _, _ => none
  | k + 1, c :: chunk, name, failed =>
    let failed := failed || name.isEmpty
    if c = 91 then
      let (r, n) := if failed then (0, 0) else decodeRune name
      let (negated, chunk) :=
        match chunk with
        | 94 :: chunk => (true, chunk)
        | _ => (false, chunk)
      match scanRanges r chunk.length chunk with
      | none => none
      | some (inside, chunk) =>
        matchChunk k chunk (name.drop n) (failed || inside == negated)
    else if c = 63 then
      let n := if failed then 0 else (decodeRune name).2
      matchChunk k chunk (name.drop n) (failed || name.head? = some 47)
    else if c = 92 then
      match chunk with
      | [] => none
      | b :: chunk =>
        matchChunk k chunk (name.drop 1) (failed || name.head? ≠ some b)
    else matchChunk k chunk (name.drop 1) (failed || name.head? ≠ some c)

/-!
## Patterns
-/

def skipToChunk (chunk : Bytes) (last : Bool) : Bytes -> Option Bytes
  | [] => none
  | c :: name =>
    if c = 47 then none
    else
      match matchChunk chunk.length chunk name false with
      | none => none
      | some none => skipToChunk chunk last name
      | some (some left) =>
        if last && !left.isEmpty then skipToChunk chunk last name
        else some left

def matchPattern : Nat -> Bytes -> Bytes -> Bool
  | _, [], name => name.isEmpty
  | 0, _ :: _, _ => false
  | k + 1, pattern, name =>
    let (star, chunk, rest) := scanChunk pattern
    if star && chunk.isEmpty then !name.contains 47
    else
      match matchChunk chunk.length chunk name false with
      | none => false
      | some here =>
      match here.filter (fun left => left.isEmpty || !rest.isEmpty) with
      | some left => matchPattern k rest left
      | none =>
      if star then
        match skipToChunk chunk rest.isEmpty name with
        | none => false
        | some left => matchPattern k rest left
      else false

def pathMatch (pattern name : Bytes) : Bool :=
  matchPattern pattern.length pattern name

example : pathMatch (ascii "a*[0-9]?") (ascii "abc7x") = true := by
  decide

example : pathMatch (ascii "a*b") (ascii "a/b") = false := by
  decide

/-!
## Literal patterns with a star
-/

/-- What a pattern without stars, question marks and classes stands for. -/
def unescape : Bytes -> Bytes
  | [] => []
  | 92 :: c :: rest => c :: unescape rest
  | c :: rest => c :: unescape rest

def Literal (pattern : Bytes) : Prop :=
  forall c, c ∈ pattern -> c ≠ 42 ∧ c ≠ 63 ∧ c ≠ 91

instance (pattern : Bytes) : Decidable (Literal pattern) :=
  List.decidableBAll _ pattern

theorem Literal.tail {c : UInt8} {pattern : Bytes}
    (h : Literal (c :: pattern)) : Literal pattern :=
  fun x hx => h x (List.mem_cons_of_mem c hx)

theorem escape_induction {motive : Bytes -> Prop} (nil : motive [])
    (dangling : motive [92])
    (escaped : forall c rest, motive rest -> motive (92 :: c :: rest))
    (plain : forall c rest, c ≠ 92 -> motive rest -> motive (c :: rest))
    (pattern : Bytes) : motive pattern := by
  induction hn : pattern.length using Nat.strong_induction_on
    generalizing pattern with
  | _ n ih =>
    cases pattern with
    | nil => exact nil
    | cons c rest =>
    rw [List.length_cons] at hn
    by_cases hc : c = 92
    · subst hc
      cases rest with
      | nil => exact dangling
      | cons d rest =>
      rw [List.length_cons] at hn
      exact escaped d rest (ih rest.length (by omega) rest rfl)
    · exact plain c rest hc (ih rest.length (by omega) rest rfl)

theorem unescape_cons {c : UInt8} (hc : c ≠ 92) (rest : Bytes) :
    unescape (c :: rest) = c :: unescape rest := by
  cases rest with
  | nil => simp [unescape]
  | cons d rest => simp [unescape, hc]

variable {pattern : Bytes}

theorem unescape_of_not_mem (h : 92 ∉ pattern) :
    unescape pattern = pattern := by
  induction pattern with
  | nil => rfl
  | cons c rest ih =>
  rw [List.mem_cons, not_or] at h
  rw [unescape_cons (fun hc => h.left hc.symm), ih h.right]

theorem not_prefix_escapes (pattern rest : Bytes) (j : Nat) :
    ¬ unescape (pattern ++ [46]) <+:
      92 :: (List.replicate j 92 ++ (pattern ++ [46] ++ rest)) := by
  induction pattern using escape_induction generalizing j with
  | nil => simp [unescape]
  | dangling => simp [unescape]
  | escaped c pattern ih =>
    intro h
    rw [show unescape (92 :: c :: pattern ++ [46]) =
      c :: unescape (pattern ++ [46]) from rfl,
      List.cons_prefix_cons] at h
    rcases h with ⟨hc, h⟩
    subst hc
    have hmove : List.replicate j 92 ++ (92 :: 92 :: pattern ++ [46] ++ rest) =
        92 :: (List.replicate (j + 1) 92 ++ (pattern ++ [46] ++ rest)) := by
      rw [← List.cons_append, ← List.replicate_succ,
        List.replicate_succ', List.replicate_succ']
      simp
    rw [hmove] at h
    exact ih (j + 1) h
  | plain c pattern hc _ =>
  intro h
  rw [List.cons_append, unescape_cons hc, List.cons_prefix_cons] at h
  exact hc h.left

theorem not_prefix_of_escape (h : 92 ∈ pattern) (rest : Bytes) :
    ¬ unescape (pattern ++ [46]) <+: pattern ++ [46] ++ rest := by
  induction pattern using escape_induction with
  | nil => cases h
  | dangling => simp [unescape]
  | escaped c pattern _ =>
    intro hstart
    rw [show unescape (92 :: c :: pattern ++ [46]) =
      c :: unescape (pattern ++ [46]) from rfl] at hstart
    have hcons := List.cons_prefix_cons.mp hstart
    rcases hcons with ⟨hc, hpattern⟩
    subst hc
    exact not_prefix_escapes pattern rest 0 hpattern
  | plain c pattern hc ih =>
  intro hstart
  rw [List.cons_append, unescape_cons hc] at hstart
  have hmem : 92 ∈ pattern := by
    rcases List.mem_cons.mp h with hfirst | hmem
    · exact absurd hfirst.symm hc
    · exact hmem
  exact ih hmem (List.cons_prefix_cons.mp hstart).right

theorem chunkLength_literal (h : Literal pattern) :
    chunkLength false (pattern ++ [46, 42]) = pattern.length + 1 := by
  induction pattern using escape_induction with
  | nil => rfl
  | dangling => rfl
  | escaped c rest ih =>
    show chunkLength false (rest ++ [46, 42]) + 2 = _
    rw [ih h.tail.tail, List.length_cons, List.length_cons]
  | plain c rest hc ih =>
  have hstar := (h c (List.mem_cons_self ..)).left
  have hclass := (h c (List.mem_cons_self ..)).right.right
  rw [List.cons_append, List.length_cons, ← ih h.tail]
  simp [chunkLength, hstar, hclass]

theorem prefix_cons_step (b : UInt8) (lit name : Bytes) (failed : Bool) :
    (if (failed || name.isEmpty || decide (name.head? ≠ some b)) = false ∧
        lit <+: name.drop 1 then some ((name.drop 1).drop lit.length)
      else none) =
      if failed = false ∧ b :: lit <+: name then
        some (name.drop (b :: lit).length)
      else none := by
  cases name with
  | nil => simp
  | cons d name =>
  by_cases hd : d = b
  · simp [hd, List.cons_prefix_cons]
  · have hne : ¬ b = d := fun heq => hd heq.symm
    simp [hd, hne, List.cons_prefix_cons]

theorem matchChunk_nil (k : Nat) (name : Bytes) (failed : Bool) :
    matchChunk k [] name failed =
      some (if failed then none else some name) := by
  cases k with
  | zero => rfl
  | succ k => rfl

theorem matchChunk_plain (k : Nat) {c : UInt8} (hclass : c ≠ 91) (hany : c ≠ 63)
    (hescape : c ≠ 92) (chunk name : Bytes) (failed : Bool) :
    matchChunk (k + 1) (c :: chunk) name failed =
      matchChunk k chunk (name.drop 1)
        (failed || name.isEmpty || decide (name.head? ≠ some c)) := by
  simp only [matchChunk, hclass, hany, hescape, if_false]

theorem chunk_of_single (k : Nat) (c : UInt8) (name : Bytes) (failed : Bool) :
    matchChunk k [] (name.drop 1)
        (failed || name.isEmpty || decide (name.head? ≠ some c)) =
      some (if failed = false ∧ [c] <+: name then
        some (name.drop [c].length) else none) := by
  rw [matchChunk_nil, ← prefix_cons_step c [] name failed]
  cases failed || name.isEmpty || decide (name.head? ≠ some c) with
  | true => rfl
  | false => simp

theorem matchChunk_literal (h : Literal pattern) {k : Nat}
    (hk : pattern.length + 1 ≤ k) (name : Bytes) (failed : Bool) :
    matchChunk k (pattern ++ [46]) name failed =
      some (if failed = false ∧ unescape (pattern ++ [46]) <+: name then
        some (name.drop (unescape (pattern ++ [46])).length)
      else none) := by
  induction pattern using escape_induction generalizing k name failed with
  | nil =>
    rcases Nat.exists_eq_add_of_le' hk with ⟨i, hi⟩
    subst hi
    exact chunk_of_single i 46 name failed
  | dangling =>
    rcases Nat.exists_eq_add_of_le' hk with ⟨i, hi⟩
    subst hi
    exact chunk_of_single (i + 1) 46 name failed
  | escaped c rest ih =>
    rw [List.length_cons, List.length_cons] at hk
    rcases Nat.exists_eq_add_of_le' hk with ⟨i, hi⟩
    subst hi
    have hrest := ih h.tail.tail (k := i + (rest.length + 1 + 1)) (by omega)
      (name.drop 1) (failed || name.isEmpty || name.head? ≠ some c)
    rw [prefix_cons_step] at hrest
    exact hrest
  | plain c rest hc ih =>
  rw [List.length_cons] at hk
  rcases Nat.exists_eq_add_of_le' hk with ⟨i, hi⟩
  subst hi
  rcases h c (List.mem_cons_self ..) with ⟨_, hany, hclass⟩
  have hrest := ih h.tail (k := i + (rest.length + 1)) (by omega)
    (name.drop 1) (failed || name.isEmpty || name.head? ≠ some c)
  rw [prefix_cons_step] at hrest
  rw [List.cons_append, unescape_cons hc]
  exact (matchChunk_plain _ hclass hany hc _ name failed).trans hrest

theorem scanChunk_literal (h : Literal pattern) :
    scanChunk (pattern ++ [46, 42]) = (false, pattern ++ [46], [42]) := by
  have hstars : (pattern ++ [46, 42]).dropWhile (fun c => c = 42) =
      pattern ++ [46, 42] := by
    cases pattern with
    | nil => rfl
    | cons c rest => simp [(h c (List.mem_cons_self ..)).left]
  have hhead : (pattern ++ [46, 42]).head? ≠ some 42 := by
    cases pattern with
    | nil => decide
    | cons c rest => simp [(h c (List.mem_cons_self ..)).left]
  have hsplit : pattern ++ [46, 42] = (pattern ++ [46]) ++ [42] := by
    rw [List.append_assoc]
    rfl
  have hlength : (pattern ++ [46]).length = pattern.length + 1 :=
    List.length_append
  unfold scanChunk
  simp only [hstars, chunkLength_literal h, hhead, decide_false]
  rw [hsplit, ← hlength, List.take_left, List.drop_left]

theorem matchPattern_star (k : Nat) (name : Bytes) :
    matchPattern (k + 1) [42] name = !name.contains 47 := rfl

theorem pathMatch_star {stem : Bytes} (h : Literal stem) (name : Bytes) :
    pathMatch (stem ++ [46, 42]) name = true <->
      exists rest, name = unescape (stem ++ [46]) ++ rest ∧ 47 ∉ rest := by
  have hchunk : matchChunk (stem.length + 1) (stem ++ [46]) name false =
      some (if unescape (stem ++ [46]) <+: name then
        some (name.drop (unescape (stem ++ [46])).length) else none) := by
    rw [matchChunk_literal h (Nat.le_refl _)]
    simp
  have hmatch : pathMatch (stem ++ [46, 42]) name =
      if unescape (stem ++ [46]) <+: name then
        !(name.drop (unescape (stem ++ [46])).length).contains 47
      else false := by
    unfold pathMatch
    rw [List.length_append]
    cases hpattern : stem ++ [46, 42] with
    | nil => simp at hpattern
    | cons c pattern =>
    show matchPattern (stem.length + 1 + 1) (c :: pattern) name = _
    rw [matchPattern, ← hpattern, scanChunk_literal h]
    · by_cases hstart : unescape (stem ++ [46]) <+: name
      · rw [if_pos hstart] at hchunk ⊢
        simp [hchunk, matchPattern_star, Option.filter]
      · rw [if_neg hstart] at hchunk ⊢
        simp [hchunk]
    · exact List.cons_ne_nil c pattern
  rw [hmatch]
  by_cases hstart : unescape (stem ++ [46]) <+: name
  · rw [if_pos hstart]
    rcases hstart with ⟨rest, hrest⟩
    subst hrest
    rw [List.drop_left]
    constructor
    · intro hslash
      exists rest
      constructor
      · rfl
      · simpa using hslash
    intro hex
    rcases hex with ⟨other, heq, hslash⟩
    rw [List.append_cancel_left heq]
    simpa using hslash
  · rw [if_neg hstart]
    constructor
    · intro h
      cases h
    · intro hex
      rcases hex with ⟨rest, heq, _⟩
      exact absurd ⟨rest, heq.symm⟩ hstart

end Foundation
end ChimeraMQ
