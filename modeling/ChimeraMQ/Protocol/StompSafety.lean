import ChimeraMQ.Foundation.Outcome
import ChimeraMQ.Protocol.StompFrame

/-!
# Reading frames of STOMP without a panic

The reader of frames calls itself for every blank line, and allocates the body
with the length that the headers tell.  The stack and the memory have limits, so
it comes back as long as neither of them is exceeded and the length is not
negative.
-/

namespace ChimeraMQ
namespace Stomp

open Foundation

structure Runtime where
  maxDepth : Nat
  maxAlloc : Nat

/-- Read a body of the length that its header tells, or up to a NUL byte. -/
def readBodyAt (rt : Runtime) (contentLengthStr s : Bytes) :
    Outcome FrameError (Bytes × Bytes) :=
  if contentLengthStr ≠ [] then
    match atoi contentLengthStr with
    | none => .error (.contentLength contentLengthStr)
    | some contentLength => do
        Outcome.makeSlice rt.maxAlloc contentLength
        .ofExcept ((do
          let body <- readFull .body contentLength.toNat
          let b <- takeByte .terminator
          if b ≠ 0x00 then Reader.fail .expectedTerminator
          else pure body : Reader FrameError Bytes) s)
  else
    .ofExcept ((List.dropLast <$> takeThrough (.body .eof) 0x00 :
      Reader FrameError Bytes) s)

/-- Read a frame within a number of nested calls, of which this is the first. -/
def readFrameAt (rt : Runtime) (order : MapOrder (Bytes × Bytes)) :
    Nat -> Bytes -> Outcome FrameError (Frame × Bytes)
  | 0, _ => .panic
  | depth + 1, s => do
      let (cmdLine, s) <- .ofExcept (takeThrough .command 0x0A s)
      if trimSpace cmdLine = [] then readFrameAt rt order depth s
      else do
        let (headers, s) <- .ofExcept (readHeaders s)
        let looped : Frame :=
          { command := trimSpace cmdLine
            headers := order.order headers
            body := [] }
        let (body, s) <- readBodyAt rt (looped.get contentLengthKey) s
        pure
          ({ command := trimSpace cmdLine, headers := headers, body := body },
            s)

/-- The call comes back with a frame or with an error. -/
def ReadsSafely (rt : Runtime) (order : MapOrder (Bytes × Bytes))
    (s : Bytes) : Prop :=
  (readFrameAt rt order rt.maxDepth s).Returns

/-!
## What a stream begins with
-/

def BlankLine (line : Bytes) : Prop :=
  trimSpace (line ++ [0x0A]) = []

/-- The stream begins with a number of blank lines. -/
inductive Floods : Nat -> Bytes -> Prop
  | enough (s : Bytes) : Floods 0 s
  | blank {n : Nat} {line s : Bytes} (hline : 0x0A ∉ line)
      (hblank : BlankLine line) (hrest : Floods n s) :
      Floods (n + 1) (line ++ 0x0A :: s)

def addHeader (headers : List (Bytes × Bytes)) (line : Bytes) :
    List (Bytes × Bytes) :=
  match splitHeader line with
  | none => headers
  | some (key, value) =>
    setEntry (decodeHeader (trimSpace key)) (decodeHeader (trimSpace value))
      headers

structure HeaderLine (line : Bytes) : Prop where
  nonempty : line ≠ []
  unbroken : 0x0A ∉ line
  colon : 0x3A ∈ line

def joinLines (lines : List Bytes) : Bytes :=
  lines.flatMap (fun line => line ++ [0x0A])

def toldLength (order : MapOrder (Bytes × Bytes)) (lines : List Bytes) :
    Option Int :=
  let looped : Frame :=
    { command := []
      headers := order.order (lines.foldl addHeader [])
      body := [] }
  let value := looped.get contentLengthKey
  if value ≠ [] then atoi value else none

/-- The first frame of the stream has headers that tell the length. -/
inductive Declares (order : MapOrder (Bytes × Bytes)) :
    Bytes -> Int -> Prop
  | blank {line s : Bytes} {n : Int} (hline : 0x0A ∉ line)
      (hblank : BlankLine line) (hrest : Declares order s n) :
      Declares order (line ++ 0x0A :: s) n
  | command {line rest : Bytes} {lines : List Bytes} {n : Int}
      (hline : 0x0A ∉ line) (hcommand : ¬ BlankLine line)
      (hlines : forall l, l ∈ lines -> HeaderLine l)
      (htold : toldLength order lines = some n) :
      Declares order (line ++ 0x0A :: (joinLines lines ++ 0x0A :: rest)) n

/--
There are fewer blank lines than calls that can be nested, and the length that
the first frame tells is one that can be allocated.
-/
structure Harmless (rt : Runtime) (order : MapOrder (Bytes × Bytes))
    (s : Bytes) : Prop where
  depth : ¬ Floods rt.maxDepth s
  length : forall n, Declares order s n -> 0 ≤ n ∧ n ≤ rt.maxAlloc

/-!
## Headers
-/

variable {line : Bytes}

theorem splitHeader_isSome (h : 0x3A ∈ line) :
    exists e, splitHeader line = some e := by
  rcases List.eq_append_cons_of_mem h with ⟨key, value, hline, hkey⟩
  have hall : forall b, b ∈ key -> decide (b ≠ 0x3A) = true := by
    intro b hb
    rw [decide_eq_true_eq]
    intro heq
    exact hkey (heq ▸ hb)
  unfold splitHeader
  rw [hline, List.dropWhile_append_of_pos hall,
    List.dropWhile_cons_of_neg (by simp)]
  exact ⟨_, rfl⟩

theorem colon_of_splitHeader {e : Bytes × Bytes} (h : splitHeader line = some e) :
    0x3A ∈ line := by
  by_contra hcolon
  have hdrop : line.dropWhile (fun b => b ≠ 0x3A) = [] := by
    rw [List.dropWhile_eq_nil_iff]
    intro b hb
    rw [decide_eq_true_eq]
    intro heq
    exact hcolon (heq ▸ hb)
  unfold splitHeader at h
  rw [hdrop] at h
  cases h

theorem readHeadersWithin_joinLines {k : Nat} {lines : List Bytes}
    (hk : lines.length < k) (hlines : forall l, l ∈ lines -> HeaderLine l)
    (found : List (Bytes × Bytes)) (rest : Bytes) :
    readHeadersWithin k found (joinLines lines ++ 0x0A :: rest) =
      .ok (lines.foldl addHeader found, rest) := by
  induction lines generalizing k found with
  | nil =>
    cases k with
    | zero => exact absurd hk (Nat.lt_irrefl 0)
    | succ k =>
    have hline : takeThrough FrameError.header 0x0A
        (joinLines [] ++ 0x0A :: rest) = .ok ([] ++ [0x0A], rest) :=
      takeThrough_append _ List.not_mem_nil rest
    rw [readHeadersWithin, Reader.bind_ok hline,
      rdropWhile_line List.not_mem_nil, if_pos rfl]
    rfl
  | cons line lines ih =>
  cases k with
  | zero => exact absurd hk (Nat.not_lt_zero _)
  | succ k =>
  rw [List.length_cons] at hk
  have hfirst := hlines line (List.mem_cons_self ..)
  rcases splitHeader_isSome hfirst.colon with ⟨⟨key, value⟩, hsplit⟩
  have hassoc : joinLines (line :: lines) ++ 0x0A :: rest =
      line ++ 0x0A :: (joinLines lines ++ 0x0A :: rest) := by
    simp [joinLines]
  rw [hassoc, readHeadersWithin,
    Reader.bind_ok (takeThrough_append _ hfirst.unbroken _),
    rdropWhile_line hfirst.unbroken, if_neg hfirst.nonempty, hsplit,
    List.foldl_cons, addHeader, hsplit]
  exact ih (by omega)
    (fun l hl => hlines l (List.mem_cons_of_mem line hl)) _

variable {s : Bytes}

theorem exists_lines_of_readHeadersWithin {k : Nat}
    {found headers : List (Bytes × Bytes)} {rest : Bytes}
    (h : readHeadersWithin k found s = .ok (headers, rest)) :
    exists lines, (forall l, l ∈ lines -> HeaderLine l) ∧
      s = joinLines lines ++ 0x0A :: rest ∧
      headers = lines.foldl addHeader found := by
  induction k generalizing found s with
  | zero => cases h
  | succ k ih =>
  rw [readHeadersWithin] at h
  rcases stop_cases 0x0A s with hnone | ⟨line, s', hline, hs⟩
  · rw [Reader.bind_error (takeThrough_of_not_mem _ hnone)] at h
    cases h
  rw [hs, Reader.bind_ok (takeThrough_append _ hline s'),
    rdropWhile_line hline] at h
  by_cases hempty : line = []
  · rw [if_pos hempty] at h
    cases h
    refine ⟨[], fun l hl => absurd hl List.not_mem_nil, ?_, rfl⟩
    rw [hs, hempty]
    rfl
  rw [if_neg hempty] at h
  cases hsplit : splitHeader line with
  | none =>
    rw [hsplit] at h
    cases h
  | some e =>
  rw [hsplit] at h
  rcases ih h with ⟨lines, hlines, hrest, hheaders⟩
  refine ⟨line :: lines, ?_, ?_, ?_⟩
  · intro l hl
    rcases List.mem_cons.mp hl with hsame | hlater
    · rw [hsame]
      exact ⟨hempty, hline, colon_of_splitHeader hsplit⟩
    · exact hlines l hlater
  · rw [hs, hrest]
    simp [joinLines]
  · rw [hheaders, List.foldl_cons, addHeader, hsplit]

theorem readHeaders_eq_ok_iff {rest : Bytes} {headers : List (Bytes × Bytes)} :
    readHeaders s = .ok (headers, rest) <->
      exists lines, (forall l, l ∈ lines -> HeaderLine l) ∧
        s = joinLines lines ++ 0x0A :: rest ∧
        headers = lines.foldl addHeader [] := by
  constructor
  · exact exists_lines_of_readHeadersWithin
  rintro ⟨lines, hlines, hs, hheaders⟩
  have hlength : lines.length ≤ (joinLines lines).length :=
    length_le_lines id lines
  have hread := readHeadersWithin_joinLines
    (show lines.length < s.length + 1 by
      rw [hs, List.length_append]
      omega) hlines [] rest
  rw [← hs, ← hheaders] at hread
  exact hread

/-!
## Frames
-/

variable {rt : Runtime}

theorem returns_readBodyAt_iff {value : Bytes} :
    (readBodyAt rt value s).Returns <->
      forall n, value ≠ [] -> atoi value = some n ->
        0 ≤ n ∧ n ≤ rt.maxAlloc := by
  unfold readBodyAt
  by_cases hvalue : value ≠ []
  · rw [if_pos hvalue]
    cases hlength : atoi value with
    | none => simp
    | some n =>
    simp only [Outcome.returns_bind_iff, Outcome.returns_makeSlice_iff,
      Outcome.returns_ofExcept, implies_true, and_true, hvalue,
      ne_eq, not_false_eq_true, forall_const, Option.some.injEq,
      forall_eq']
  · rw [if_neg hvalue]
    simp [hvalue]

variable {order : MapOrder (Bytes × Bytes)}

theorem toldLength_eq_some_iff {lines : List Bytes} {f : Frame} {n : Int}
    (hf : f.headers = order.order (lines.foldl addHeader [])) :
    toldLength order lines = some n <->
      f.get contentLengthKey ≠ [] ∧ atoi (f.get contentLengthKey) = some n := by
  have hget : f.get contentLengthKey =
      (⟨[], order.order (lines.foldl addHeader []), []⟩ : Frame).get
        contentLengthKey := by
    unfold Frame.get
    rw [hf]
  rw [hget]
  unfold toldLength
  by_cases hempty : (⟨[], order.order (lines.foldl addHeader []), []⟩ :
      Frame).get contentLengthKey = []
  · simp only [hempty, ne_eq, not_true_eq_false, if_false, false_and, iff_false]
    intro h
    cases h
  · simp only [hempty, ne_eq, not_false_eq_true, if_true, true_and]

theorem declares_line_iff (hline : 0x0A ∉ line) {n : Int} :
    Declares order (line ++ 0x0A :: s) n <->
      (BlankLine line ∧ Declares order s n) ∨
        (¬ BlankLine line ∧ exists lines rest,
          (forall l, l ∈ lines -> HeaderLine l) ∧
            s = joinLines lines ++ 0x0A :: rest ∧
            toldLength order lines = some n) := by
  constructor
  · generalize hs : line ++ 0x0A :: s = stream
    intro h
    cases h with
    | blank hline' hblank hrest =>
      rcases append_stop_unique hline hline' hs with ⟨hl, ht⟩
      rw [hl, ht]
      exact Or.inl ⟨hblank, hrest⟩
    | command hline' hcommand hlines htold =>
    rcases append_stop_unique hline hline' hs with ⟨hl, ht⟩
    rw [hl]
    exact Or.inr ⟨hcommand, _, _, hlines, ht, htold⟩
  · rintro (⟨hblank, hrest⟩ | ⟨hcommand, lines, rest, hlines, hs, htold⟩)
    · exact .blank hline hblank hrest
    · rw [hs]
      exact .command hline hcommand hlines htold

theorem floods_line_iff (hline : 0x0A ∉ line) {n : Nat} :
    Floods (n + 1) (line ++ 0x0A :: s) <-> BlankLine line ∧ Floods n s := by
  constructor
  · generalize hs : line ++ 0x0A :: s = stream
    intro h
    cases h with
    | blank hline' hblank hrest =>
      rcases append_stop_unique hline hline' hs with ⟨hl, ht⟩
      rw [hl, ht]
      exact ⟨hblank, hrest⟩
  · rintro ⟨hblank, hrest⟩
    exact .blank hline hblank hrest

theorem quiet_of_not_mem (h : 0x0A ∉ s) :
    (forall n, ¬ Floods (n + 1) s) ∧
      forall order n, ¬ Declares order s n := by
  constructor
  · intro n hfloods
    cases hfloods with
    | blank hline hblank hrest => simp at h
  intro order n hdeclares
  cases hdeclares with
  | blank hline hblank hrest => simp at h
  | command hline hcommand hlines htold => simp at h

/--
A call comes back exactly if the blank lines do not use up the calls that can be
nested, and the length of the body can be allocated.
-/
theorem returns_readFrameAt_iff (rt : Runtime)
    (order : MapOrder (Bytes × Bytes)) (depth : Nat) (s : Bytes) :
    (readFrameAt rt order depth s).Returns <->
      ¬ Floods depth s ∧
        forall n, Declares order s n -> 0 ≤ n ∧ n ≤ rt.maxAlloc := by
  induction depth generalizing s with
  | zero => simp [readFrameAt, Floods.enough s]
  | succ depth ih =>
  rw [readFrameAt, Outcome.returns_ofExcept_bind_iff]
  rcases stop_cases 0x0A s with hnone | ⟨line, s', hline, hs⟩
  · rw [takeThrough_of_not_mem _ hnone]
    simp [quiet_of_not_mem hnone]
  rw [hs, takeThrough_append _ hline]
  simp only [Except.ok.injEq, forall_eq', floods_line_iff hline,
    declares_line_iff hline]
  by_cases hblank : trimSpace (line ++ [0x0A]) = []
  · rw [if_pos hblank]
    have hb : BlankLine line := hblank
    simp only [hb, true_and, not_true_eq_false, false_and, or_false]
    exact ih s'
  rw [if_neg hblank]
  have hb : ¬ BlankLine line := hblank
  rw [Outcome.returns_ofExcept_bind_iff]
  simp only [hb, false_and, not_false_eq_true, true_and, false_or,
    Prod.forall, Outcome.returns_bind_iff, returns_readBodyAt_iff,
    Outcome.returns_pure, implies_true, and_true,
    readHeaders_eq_ok_iff]
  constructor
  · rintro hreads n ⟨lines, rest, hlines, hs', htold⟩
    rcases (toldLength_eq_some_iff
        (f := ⟨trimSpace (line ++ [0x0A]), _, []⟩) rfl).mp htold with
      ⟨hne, hatoi⟩
    exact hreads _ rest ⟨lines, hlines, hs', rfl⟩ n hne hatoi
  rintro hdeclared headers rest ⟨lines, hlines, hs', hheaders⟩ n hne
    hatoi
  rw [hheaders] at hne hatoi
  exact hdeclared n ⟨lines, rest, hlines, hs',
    (toldLength_eq_some_iff rfl).mpr ⟨hne, hatoi⟩⟩

/--
Every call comes back as long as the blank lines and the length of the body stay
within the limits.
-/
theorem readsSafely_iff_harmless (rt : Runtime)
    (order : MapOrder (Bytes × Bytes)) (s : Bytes) :
    ReadsSafely rt order s <-> Harmless rt order s := by
  unfold ReadsSafely
  rw [returns_readFrameAt_iff]
  exact ⟨fun h => ⟨h.1, h.2⟩, fun h => ⟨h.depth, h.length⟩⟩

def negativeLengthStream : Bytes :=
  joinLines [ascii "SEND", ascii "content-length:-1"] ++ [0x0A]

/-- A negative length cannot be allocated, whatever the limits are. -/
theorem not_readsSafely_negativeLength :
    ¬ exists rt order, ReadsSafely rt order negativeLengthStream := by
  rintro ⟨rt, order, hreads⟩
  have hlines : forall l, l ∈ [ascii "content-length:-1"] -> HeaderLine l := by
    intro l hl
    rw [List.mem_singleton.mp hl]
    exact ⟨by decide +kernel, by decide +kernel, by decide +kernel⟩
  have horder : order.order ([ascii "content-length:-1"].foldl addHeader []) =
      [(ascii "content-length", ascii "-1")] := by
    have hperm := order.perm ([ascii "content-length:-1"].foldl addHeader [])
    exact List.perm_singleton.mp hperm
  have htold : toldLength order [ascii "content-length:-1"] = some (-1) := by
    unfold toldLength
    rw [horder]
    decide +kernel
  have hline : 0x0A ∉ ascii "SEND" := by decide +kernel
  have hcommand : ¬ BlankLine (ascii "SEND") := by
    unfold BlankLine
    decide +kernel
  have hdeclares : Declares order negativeLengthStream (-1) :=
    .command hline hcommand hlines htold
  have hlength := ((returns_readFrameAt_iff rt order _ _).mp hreads).2 _
    hdeclares
  exact absurd hlength.1 (by decide)

/-!
## The frame that is read
-/

theorem readBodyAt_eq_ofExcept {value : Bytes}
    (h : (readBodyAt rt value s).Returns) :
    readBodyAt rt value s = .ofExcept (readBody value s) := by
  have hlength := returns_readBodyAt_iff.mp h
  unfold readBodyAt readBody
  by_cases hvalue : value ≠ []
  · rw [if_pos hvalue, if_pos hvalue]
    cases hatoi : atoi value with
    | none => rfl
    | some n =>
    rcases hlength n hvalue hatoi with ⟨hpos, hle⟩
    simp only [Outcome.makeSlice, hpos, hle, and_self, if_true,
      Outcome.ok_bind, if_neg (Int.not_lt.mpr hpos)]
  · rw [if_neg hvalue, if_neg hvalue]

def readRest (order : MapOrder (Bytes × Bytes)) (command : Bytes) :
    Reader FrameError Frame := do
  let headers <- readHeaders
  let looped : Frame :=
    { command := command, headers := order.order headers, body := [] }
  let body <- readBody (looped.get contentLengthKey)
  pure { command := command, headers := headers, body := body }

theorem readRest_eq_ofExcept {command : Bytes} {headers : List (Bytes × Bytes)}
    {rest : Bytes} (hheaders : readHeaders s = .ok (headers, rest))
    (h : (readBodyAt rt ((⟨command, order.order headers, []⟩ : Frame).get
      contentLengthKey) rest).Returns) :
    (do
        let (body, t) <- readBodyAt rt ((⟨command, order.order headers, []⟩ :
          Frame).get contentLengthKey) rest
        pure ((⟨command, headers, body⟩ : Frame), t)) =
      Outcome.ofExcept (readRest order command s) := by
  rw [readBodyAt_eq_ofExcept h, readRest, Reader.bind_ok hheaders]
  cases hbody : readBody ((⟨command, order.order headers, []⟩ : Frame).get
      contentLengthKey) rest with
  | error err =>
    rw [Reader.bind_error hbody]
    rfl
  | ok p =>
  rw [Reader.bind_ok hbody]
  rfl

theorem readFrameAt_eq_within {depth k : Nat} (hk : s.length < k)
    (h : (readFrameAt rt order depth s).Returns) :
    readFrameAt rt order depth s =
      .ofExcept ((readCommandWithin k >>= readRest order) s) := by
  induction depth generalizing k s with
  | zero => exact h.elim
  | succ depth ih =>
  cases k with
  | zero => exact absurd hk (Nat.not_lt_zero _)
  | succ k =>
  rw [readFrameAt] at h ⊢
  rw [readCommandWithin]
  rcases stop_cases 0x0A s with hnone | ⟨line, s', hline, hs⟩
  · rw [takeThrough_of_not_mem _ hnone, Reader.bind_error
      (Reader.bind_error (takeThrough_of_not_mem _ hnone))]
    rfl
  have htake := takeThrough_append FrameError.command hline s'
  rw [hs, List.length_append, List.length_cons] at hk
  rw [hs, htake] at h ⊢
  change (if trimSpace (line ++ [0x0A]) = [] then _ else _ :
    Outcome FrameError (Frame × Bytes)).Returns at h
  change (if trimSpace (line ++ [0x0A]) = [] then _ else _ :
    Outcome FrameError (Frame × Bytes)) = _
  rw [bind_assoc, Reader.bind_ok htake]
  by_cases hblank : trimSpace (line ++ [0x0A]) = []
  · rw [if_pos hblank] at h ⊢
    rw [if_pos hblank]
    exact ih (by omega) h
  rw [if_neg hblank] at h ⊢
  rw [if_neg hblank, pure_bind]
  cases hheaders : readHeaders s' with
  | error err =>
    rw [readRest, Reader.bind_error hheaders]
    rfl
  | ok p =>
  rw [hheaders] at h
  have hbody := Outcome.returns_ofExcept_bind_iff.mp h p rfl
  exact readRest_eq_ofExcept hheaders
    (Outcome.returns_bind_iff.mp hbody).1

theorem readFrameAt_eq_ofExcept {depth : Nat}
    (h : (readFrameAt rt order depth s).Returns) :
    readFrameAt rt order depth s = .ofExcept (readFrame order s) :=
  readFrameAt_eq_within (Nat.lt_succ_self _) h

end Stomp
end ChimeraMQ
