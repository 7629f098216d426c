import ChimeraMQ.Foundation.Reading
import ChimeraMQ.Protocol.Stomp
import ChimeraMQ.Protocol.StompHeader

/-!
# Frames of STOMP on the wire

A frame is a command, a header a line and a body that ends with a NUL byte.  A
body that contains NUL bytes is read back if a header tells its length; none is
written that does.
-/

namespace ChimeraMQ
namespace Stomp

open Foundation

def headerLine (e : Bytes × Bytes) : Bytes :=
  encodeHeader e.1 ++ 0x3A :: encodeHeader e.2

def Frame.encode (f : Frame) : Bytes :=
  (f.command ++ [0x0A]) ++
    ((f.headers.flatMap (fun e => headerLine e ++ [0x0A]) ++ [0x0A]) ++
      (f.body ++ [0x00]))

/-!
## Reading
-/

inductive FrameError where
  | command
  | header
  | invalidHeader (line : Bytes)
  | contentLength (value : Bytes)
  | negativeLength
  | body (err : StreamError)
  | terminator
  | expectedTerminator
deriving DecidableEq

/-- Read the first line that is not blank; every line takes a byte at least. -/
def readCommandWithin : Nat -> Reader FrameError Bytes
  | 0 => Reader.fail .command
  | k + 1 => do
      let cmdLine <- takeThrough .command 0x0A
      if trimSpace cmdLine = [] then readCommandWithin k
      else pure (trimSpace cmdLine)

def readCommand : Reader FrameError Bytes :=
  fun s => readCommandWithin (s.length + 1) s

def splitHeader (line : Bytes) : Option (Bytes × Bytes) :=
  match line.dropWhile (fun b => b ≠ 0x3A) with
  | [] => none
  | _ :: value => some (line.takeWhile (fun b => b ≠ 0x3A), value)

/-- Read headers up to an empty line; every line takes a byte at least. -/
def readHeadersWithin :
    Nat -> List (Bytes × Bytes) -> Reader FrameError (List (Bytes × Bytes))
  | 0, _ => Reader.fail .header
  | k + 1, headers => do
      let line <- takeThrough .header 0x0A
      let line := line.rdropWhile (fun b => b = 0x0A)
      if line = [] then pure headers
      else
        match splitHeader line with
        | none => Reader.fail (.invalidHeader line)
        | some (key, value) =>
          readHeadersWithin k
            (setEntry (decodeHeader (trimSpace key))
              (decodeHeader (trimSpace value)) headers)

def readHeaders : Reader FrameError (List (Bytes × Bytes)) :=
  fun s => readHeadersWithin (s.length + 1) [] s

/--
Read a body: of the length that its header tells, if there is one, and
otherwise up to a NUL byte.  A negative length makes the reader panic.
-/
def readBody (contentLengthStr : Bytes) : Reader FrameError Bytes :=
  if contentLengthStr ≠ [] then
    match atoi contentLengthStr with
    | none => Reader.fail (.contentLength contentLengthStr)
    | some contentLength =>
    if contentLength < 0 then Reader.fail .negativeLength
    else do
      let body <- readFull .body contentLength.toNat
      let b <- takeByte .terminator
      if b ≠ 0x00 then Reader.fail .expectedTerminator else pure body
  else List.dropLast <$> takeThrough (.body .eof) 0x00

def contentLengthKey : Bytes :=
  ascii "content-length"

def readFrame (order : MapOrder (Bytes × Bytes)) : Reader FrameError Frame := do
  let command <- readCommand
  let headers <- readHeaders
  let looped : Frame :=
    { command := command, headers := order.order headers, body := [] }
  let body <- readBody (looped.get contentLengthKey)
  pure { command := command, headers := headers, body := body }

/-!
## What is read back
-/

structure SameFrame (f g : Frame) : Prop where
  command : g.command = f.command
  headers : forall k, getEntry k g.headers = getEntry k f.headers
  body : g.body = f.body

/-- The frame is read back, whatever order the loop over its headers has. -/
def RoundTrips (f : Frame) : Prop :=
  forall order, exists g, SameFrame f g ∧ Reads (readFrame order) f.encode g

/-- What the loop over the headers may find as the length of the body. -/
def MayHaveLength (f : Frame) (value : Bytes) : Prop :=
  getEntry contentLengthKey f.headers = some value ∨
    (getEntry contentLengthKey f.headers = none ∧
      ((exists e, e ∈ f.headers ∧ equalFold e.1 contentLengthKey = true ∧
          e.2 = value) ∨
        (value = [] ∧
          forall e, e ∈ f.headers -> equalFold e.1 contentLengthKey = false)))

def Delimits (value body : Bytes) : Prop :=
  if value = [] then 0x00 ∉ body else atoi value = some (body.length : Int)

structure Survives (f : Frame) : Prop where
  headers : forall e, e ∈ f.headers -> Plain e.1 ∧ Plain e.2
  body : forall value, MayHaveLength f value -> Delimits value f.body

/-!
## Commands and headers
-/

theorem not_mem_of_solid {s : Bytes} (h : Solid s) : 0x0A ∉ s := by
  intro hmem
  have hblank := h _ (mem_runes_of_isAscii (by decide) hmem)
  exact absurd hblank (by decide)

theorem reads_readCommand {command : Bytes} (hne : command ≠ [])
    (hsolid : Solid command) :
    Reads readCommand (command ++ [0x0A]) command := by
  intro rest
  have hline := reads_takeThrough FrameError.command (not_mem_of_solid hsolid)
    rest
  have htrim : trimSpace (command ++ [0x0A]) = command := by
    rw [trimSpace_concat _ (by decide) (by decide), trimSpace_of_solid hsolid]
  unfold readCommand
  rw [readCommandWithin, Reader.bind_ok hline, htrim, if_neg hne]
  rfl

theorem splitHeader_headerLine (e : Bytes × Bytes) :
    splitHeader (headerLine e) = some (encodeHeader e.1, encodeHeader e.2) := by
  have hall : forall b, b ∈ encodeHeader e.1 -> decide (b ≠ 0x3A) = true := by
    intro b hb
    rw [decide_eq_true_eq]
    intro heq
    exact (not_mem_encodeHeader e.1).2 (heq ▸ hb)
  unfold splitHeader headerLine
  rw [List.dropWhile_append_of_pos hall, List.takeWhile_append_of_pos hall,
    List.dropWhile_cons_of_neg (by simp), List.takeWhile_cons_of_neg (by simp),
    List.append_nil]

theorem not_mem_headerLine (e : Bytes × Bytes) : 0x0A ∉ headerLine e := by
  intro hmem
  rcases List.mem_append.mp hmem with hkey | hvalue
  · exact (not_mem_encodeHeader e.1).1 hkey
  · rcases List.mem_cons.mp hvalue with hcolon | hvalue
    · exact absurd hcolon (by decide)
    · exact (not_mem_encodeHeader e.2).1 hvalue

theorem headerLine_ne_nil (e : Bytes × Bytes) : headerLine e ≠ [] := by
  unfold headerLine
  exact List.append_ne_nil_of_right_ne_nil _ (List.cons_ne_nil _ _)

theorem rdropWhile_line {line : Bytes} (h : 0x0A ∉ line) :
    (line ++ [0x0A]).rdropWhile (fun b => b = 0x0A) = line := by
  rw [List.rdropWhile_concat_pos _ _ _ (by simp)]
  refine List.rdropWhile_eq_self_iff.mpr (fun hl => ?_)
  rw [decide_eq_true_eq]
  intro hlast
  exact h (hlast ▸ List.getLast_mem hl)

theorem length_le_lines {α : Type} (line : α -> Bytes) (xs : List α) :
    xs.length ≤ (xs.flatMap (fun x => line x ++ [0x0A])).length := by
  induction xs with
  | nil => exact Nat.le_refl 0
  | cons x xs ih =>
  rw [List.flatMap_cons, List.length_append, List.length_append,
    List.length_cons, List.length_singleton]
  omega

def readHeader (headers : List (Bytes × Bytes)) (e : Bytes × Bytes) :
    List (Bytes × Bytes) :=
  setEntry (readBack e.1) (readBack e.2) headers

variable {headers : List (Bytes × Bytes)}

theorem reads_readHeadersWithin {k : Nat} (hk : headers.length < k)
    (found : List (Bytes × Bytes)) :
    Reads (readHeadersWithin k found)
      (headers.flatMap (fun e => headerLine e ++ [0x0A]) ++ [0x0A])
      (headers.foldl readHeader found) := by
  induction headers generalizing k found with
  | nil =>
    cases k with
    | zero => exact absurd hk (Nat.lt_irrefl 0)
    | succ k =>
    intro rest
    have hline : takeThrough FrameError.header 0x0A
        ([] ++ [0x0A] ++ rest) = .ok ([] ++ [0x0A], rest) :=
      reads_takeThrough FrameError.header (by simp) rest
    rw [List.flatMap_nil, readHeadersWithin, Reader.bind_ok hline,
      rdropWhile_line (by simp), if_pos rfl]
    rfl
  | cons e headers ih =>
  cases k with
  | zero => exact absurd hk (Nat.not_lt_zero _)
  | succ k =>
  rw [List.length_cons] at hk
  have hline := reads_takeThrough FrameError.header
    (not_mem_headerLine e)
  have hrest := ih (show headers.length < k by omega)
    (readHeader found e)
  intro rest
  have hassoc : forall l : Bytes,
      headerLine e ++ [0x0A] ++ l ++ [0x0A] ++ rest =
        headerLine e ++ [0x0A] ++ (l ++ [0x0A] ++ rest) :=
    fun l => by simp only [List.append_assoc]
  rw [List.flatMap_cons, hassoc, readHeadersWithin,
    Reader.bind_ok (hline _), rdropWhile_line (not_mem_headerLine e),
    if_neg (headerLine_ne_nil e), splitHeader_headerLine]
  exact hrest rest

theorem reads_readHeaders (headers : List (Bytes × Bytes)) :
    Reads readHeaders
      (headers.flatMap (fun e => headerLine e ++ [0x0A]) ++ [0x0A])
      (headers.foldl readHeader []) := by
  intro rest
  refine reads_readHeadersWithin ?_ [] rest
  have hlines := length_le_lines headerLine headers
  rw [List.length_append, List.length_append]
  omega

/-!
## Bodies
-/

theorem reads_readBody {value body : Bytes} (h : Delimits value body) :
    Reads (readBody value) (body ++ [0x00]) body := by
  unfold Delimits at h
  unfold readBody
  by_cases hvalue : value = []
  · rw [if_pos hvalue] at h
    rw [if_neg (by simpa using hvalue)]
    have hread := (reads_takeThrough (FrameError.body .eof) h).map
      List.dropLast
    rwa [List.dropLast_concat] at hread
  rw [if_neg hvalue] at h
  rw [if_pos hvalue, h]
  change Reads (if (body.length : Int) < 0 then _ else _) _ _
  rw [if_neg (by omega)]
  have hbody := reads_takeBytes (fun s => FrameError.body (endOf s)) body
  have hend := reads_takeByte FrameError.terminator 0x00
  exact hbody.bind (hend.bind_pure (Reads.pure body))

theorem delimits_of_reads {value body : Bytes}
    (h : Reads (readBody value) (body ++ [0x00]) body) :
    Delimits value body := by
  have hread := h []
  unfold readBody at hread
  unfold Delimits
  by_cases hvalue : value = []
  · rw [if_neg (by simpa using hvalue)] at hread
    rw [if_pos hvalue]
    rcases Reader.map_eq_ok hread with ⟨line, hline, hbody⟩
    unfold takeThrough at hline
    split at hline
    · cases hline
    cases hline
    rw [List.dropLast_concat] at hbody
    rw [← hbody]
    intro hmem
    have hne := List.mem_takeWhile_imp hmem
    exact absurd hne (by decide)
  rw [if_pos hvalue] at hread
  rw [if_neg hvalue]
  cases hlength : atoi value with
  | none =>
    rw [hlength] at hread
    cases hread
  | some n =>
  rw [hlength] at hread
  change (if n < 0 then _ else _ : Reader FrameError Bytes) _ = _ at hread
  by_cases hneg : n < 0
  · rw [if_pos hneg] at hread
    cases hread
  rw [if_neg hneg] at hread
  rcases Reader.bind_eq_ok hread with ⟨b, s, hfirst, hrest⟩
  rcases Reader.bind_eq_ok hrest with ⟨x, t, -, hend⟩
  have hb : b = body := by
    by_cases hx : x ≠ 0x00
    · rw [if_pos hx] at hend
      cases hend
    · rw [if_neg hx] at hend
      cases hend
      rfl
  rcases length_of_takeBytes hfirst with ⟨hlen, -⟩
  rw [hb] at hlen
  rw [hlen, Int.toNat_of_nonneg (by omega)]

/-!
## Frames
-/

variable {f : Frame}

theorem readFrame_encode (order : MapOrder (Bytes × Bytes))
    (hne : f.command ≠ []) (hsolid : Solid f.command) (rest : Bytes) :
    readFrame order (f.encode ++ rest) =
      ((fun body =>
          { command := f.command
            headers := f.headers.foldl readHeader []
            body := body }) <$>
        readBody (Frame.get
          { command := f.command
            headers := order.order (f.headers.foldl readHeader [])
            body := [] } contentLengthKey))
        (f.body ++ [0x00] ++ rest) := by
  unfold readFrame Frame.encode
  rw [List.append_assoc, Reader.bind_ok (reads_readCommand hne hsolid _),
    List.append_assoc, Reader.bind_ok (reads_readHeaders f.headers _)]
  rfl

theorem get_eq (hkeys : (f.headers.map Prod.fst).Nodup)
    (order : MapOrder (Bytes × Bytes)) (key : Bytes) :
    Frame.get
        { command := f.command, headers := order.order f.headers, body := [] }
        key =
      match getEntry key f.headers with
      | some v => v
      | none =>
        ((order.order f.headers).findSome? (fun e =>
          if equalFold e.1 key then some e.2 else none)).getD [] := by
  have hfind : forall entries : List (Bytes × Bytes),
      (entries.find? (fun e => equalFold e.1 key)).map Prod.snd =
        entries.findSome? (fun e =>
          if equalFold e.1 key then some e.2 else none) := by
    intro entries
    induction entries with
    | nil => rfl
    | cons e entries ih =>
    rw [List.find?_cons, List.findSome?_cons]
    cases he : equalFold e.1 key with
    | true => rfl
    | false => exact ih
  change (match getEntry key (order.order f.headers) with
    | some v => v
    | none =>
      (((order.order f.headers).find? (fun e : Bytes × Bytes =>
        equalFold e.1 key)).map Prod.snd).getD []) = _
  rw [getEntry_perm (order.perm f.headers) hkeys, hfind]

theorem mayHaveLength_iff (hkeys : (f.headers.map Prod.fst).Nodup)
    (value : Bytes) :
    MayHaveLength f value <->
      exists order : MapOrder (Bytes × Bytes),
        Frame.get
          { command := f.command
            headers := order.order f.headers
            body := [] } contentLengthKey = value := by
  have hmem : forall v, v ∈ f.headers.filterMap (fun e =>
      if equalFold e.1 contentLengthKey then some e.2 else none) <->
        exists e, e ∈ f.headers ∧ equalFold e.1 contentLengthKey = true ∧
          e.2 = v := by
    intro v
    rw [List.mem_filterMap]
    refine exists_congr (fun e => and_congr_right (fun _ => ?_))
    cases equalFold e.1 contentLengthKey <;> simp
  simp only [get_eq hkeys]
  unfold MayHaveLength
  cases hget : getEntry contentLengthKey f.headers with
  | some v =>
    constructor
    · rintro (hsame | ⟨hnone, -⟩)
      · exact ⟨MapOrder.listed _, Option.some.inj hsame⟩
      · cases hnone
    · rintro ⟨order, hv⟩
      exact Or.inl (congrArg some hv)
  | none =>
  constructor
  · rintro (hnone | ⟨-, hfound | ⟨hvalue, hall⟩⟩)
    · cases hnone
    · rcases (exists_order_findSome? _ f.headers (some value)).mpr
          (Or.inr ⟨value, (hmem value).mpr hfound, rfl⟩) with
        ⟨order, horder⟩
      refine ⟨order, ?_⟩
      change Option.getD _ _ = value
      rw [horder]
      rfl
    have hempty : f.headers.filterMap (fun e =>
        if equalFold e.1 contentLengthKey then some e.2 else none) =
          [] := by
      refine List.filterMap_eq_nil_iff.mpr (fun e he => ?_)
      rw [hall e he]
      rfl
    rcases (exists_order_findSome? _ f.headers none).mpr
        (Or.inl ⟨rfl, hempty⟩) with ⟨order, horder⟩
    refine ⟨order, ?_⟩
    change Option.getD _ _ = value
    rw [horder, hvalue]
    rfl
  rintro ⟨order, hvalue⟩
  refine Or.inr ⟨rfl, ?_⟩
  rcases (exists_order_findSome? _ f.headers _).mp ⟨order, rfl⟩ with
    ⟨hnone, hempty⟩ | ⟨v, hv, hsome⟩
  · right
    change Option.getD _ _ = value at hvalue
    rw [hnone] at hvalue
    refine ⟨hvalue.symm, fun e he => ?_⟩
    have hskip := List.filterMap_eq_nil_iff.mp hempty e he
    cases hfold : equalFold e.1 contentLengthKey with
    | false => rfl
    | true =>
    rw [hfold] at hskip
    cases hskip
  · left
    change Option.getD _ _ = value at hvalue
    rw [hsome] at hvalue
    exact (hmem value).mp (hvalue ▸ hv)

theorem foldl_readHeader_of_plain (hkeys : (headers.map Prod.fst).Nodup)
    (h : forall e, e ∈ headers -> Plain e.1 ∧ Plain e.2) :
    headers.foldl readHeader [] = headers := by
  have hall : forall found : List (Bytes × Bytes),
      ((found ++ headers).map Prod.fst).Nodup ->
        headers.foldl readHeader found = found ++ headers := by
    clear hkeys
    induction headers with
    | nil =>
      intro found _
      exact (List.append_nil found).symm
    | cons e headers ih =>
    intro found hnodup
    have hplain := h e List.mem_cons_self
    have hnew : e.1 ∉ found.map Prod.fst := by
      intro hmem
      rw [List.map_append, List.map_cons] at hnodup
      exact (List.disjoint_of_nodup_append hnodup) hmem List.mem_cons_self
    have hassoc : found ++ e :: headers = (found ++ [e]) ++ headers := by
      simp
    rw [hassoc] at hnodup ⊢
    rw [List.foldl_cons, readHeader, readBack_of_plain hplain.1,
      readBack_of_plain hplain.2, setEntry_of_not_mem _ hnew]
    exact ih (fun x hx => h x (List.mem_cons_of_mem e hx)) _ hnodup
  exact hall [] hkeys

theorem mem_keys_foldl_readHeader {found : List (Bytes × Bytes)} {k : Bytes}
    (h : k ∈ (headers.foldl readHeader found).map Prod.fst) :
    k ∈ found.map Prod.fst ∨ exists e, e ∈ headers ∧ readBack e.1 = k := by
  induction headers generalizing found with
  | nil => exact Or.inl h
  | cons e headers ih =>
  rcases ih h with hfound | ⟨x, hx, hxk⟩
  · rcases mem_keys_setEntry.mp hfound with hk | hk
    · exact Or.inr ⟨e, List.mem_cons_self, hk.symm⟩
    · exact Or.inl hk
  · exact Or.inr ⟨x, List.mem_cons_of_mem e hx, hxk⟩

theorem plain_of_headers (hkeys : (headers.map Prod.fst).Nodup) (h : forall k,
      getEntry k (headers.foldl readHeader []) = getEntry k headers) :
    forall e, e ∈ headers -> Plain e.1 ∧ Plain e.2 := by
  have hfixed : forall k, k ∈ (headers.map Prod.fst).toFinset ->
      readBack k = k := by
    refine fixes_of_reaches (w := weight) ?_ ?_
    · intro s
      rcases readBack_cases s with ⟨-, hsame⟩ | hlt
      · exact Or.inl hsame
      · exact Or.inr hlt
    intro k hk
    rcases List.mem_map.mp (List.mem_toFinset.mp hk) with ⟨e, he, rfl⟩
    have hget := h e.1
    rw [getEntry_of_mem hkeys he] at hget
    have hmem := List.mem_map_of_mem (f := Prod.fst) (mem_of_getEntry hget)
    rcases mem_keys_foldl_readHeader hmem with hnone | ⟨x, hx, hxk⟩
    · cases hnone
    · exact ⟨x.1, List.mem_toFinset.mpr (List.mem_map_of_mem hx), hxk⟩
  have hkey : forall e, e ∈ headers -> readBack e.1 = e.1 := fun e he =>
    hfixed e.1 (List.mem_toFinset.mpr (List.mem_map_of_mem he))
  have hfold : headers.foldl readHeader [] =
      headers.foldl (fun m e => setEntry e.1 (readBack e.2) m) [] := by
    refine List.foldl_ext _ _ _ (fun m e he => ?_)
    rw [readHeader, hkey e he]
  intro e he
  refine ⟨plain_of_readBack (hkey e he), plain_of_readBack ?_⟩
  have hget := h e.1
  rw [hfold, getEntry_foldl_setEntry readBack hkeys,
    getEntry_of_mem hkeys he] at hget
  exact Option.some.inj hget

theorem plain_of_roundTrips (hne : f.command ≠ []) (hsolid : Solid f.command)
    (hkeys : (f.headers.map Prod.fst).Nodup) (h : RoundTrips f) :
    forall e, e ∈ f.headers -> Plain e.1 ∧ Plain e.2 := by
  rcases h (MapOrder.listed _) with ⟨g, hsame, hread⟩
  have hwhole := hread []
  rw [readFrame_encode _ hne hsolid] at hwhole
  rcases Reader.map_eq_ok hwhole with ⟨body, -, hg⟩
  have hkept := hsame.headers
  rw [← hg] at hkept
  exact plain_of_headers hkeys hkept

/--
A frame is read back exactly when its headers are plain and its body is
delimited, by its NUL byte or by the length that a header tells.
-/
theorem frame_roundTrips_iff {f : Frame} (hne : f.command ≠ [])
    (hsolid : Solid f.command) (hkeys : (f.headers.map Prod.fst).Nodup) :
    RoundTrips f <-> Survives f := by
  constructor
  · intro h
    have hheaders := plain_of_roundTrips hne hsolid hkeys h
    refine ⟨hheaders, ?_⟩
    intro value hvalue
    rcases (mayHaveLength_iff hkeys value).mp hvalue with ⟨order, horder⟩
    rcases h order with ⟨g, hsame, hread⟩
    refine delimits_of_reads (fun rest => ?_)
    have hwhole := hread rest
    rw [readFrame_encode order hne hsolid,
      foldl_readHeader_of_plain hkeys hheaders, horder] at hwhole
    rcases Reader.map_eq_ok hwhole with ⟨body, hbody, hg⟩
    have hkept := hsame.body
    rw [← hg] at hkept
    rw [hbody]
    exact congrArg (fun b => Except.ok (b, rest)) hkept
  · intro h order
    refine ⟨f, ⟨rfl, fun _ => rfl, rfl⟩, fun rest => ?_⟩
    have hbody := reads_readBody
      (h.body _ ((mayHaveLength_iff hkeys _).mpr ⟨order, rfl⟩))
    rw [readFrame_encode order hne hsolid,
      foldl_readHeader_of_plain hkeys h.headers]
    exact hbody.map _ rest

def binaryFrame : Frame where
  command := cmdSend
  headers := [(ascii "destination", ascii "/topic/a"),
    (ascii "content-length", ascii "3")]
  body := [0x61, 0x00, 0x62]

/-- A body that contains NUL bytes is read back if its length is told. -/
theorem roundTrips_binaryFrame : RoundTrips binaryFrame := by
  refine (frame_roundTrips_iff (by decide +kernel) ?_ (by decide +kernel)).mpr
    ⟨?_, ?_⟩
  · unfold Solid
    decide +kernel
  · have hplain : forall s : Bytes, ¬ [0x5C, 0x6E] <:+: s ->
        ¬ [0x5C, 0x63] <:+: s ->
        (forall e, e ∈ (runes s).head? -> isTrimmed e = false) ->
        (forall e, e ∈ (runes s).getLast? -> isTrimmed e = false) -> Plain s :=
      fun s hn hc hfirst hlast => ⟨hn, hc, hfirst, hlast⟩
    intro e he
    rcases List.mem_cons.mp he with rfl | he
    · constructor
      · apply hplain <;> decide +kernel
      · apply hplain <;> decide +kernel
    rw [List.mem_singleton.mp he]
    constructor
    · apply hplain <;> decide +kernel
    · apply hplain <;> decide +kernel
  · rintro value (hsame | ⟨hnone, -⟩)
    · have hvalue : value = ascii "3" := by
        have hget : getEntry contentLengthKey binaryFrame.headers =
          some (ascii "3") := by decide +kernel
        rw [hget] at hsame
        exact (Option.some.inj hsame).symm
      rw [hvalue]
      unfold Delimits
      decide +kernel
    · exact absurd hnone (by decide +kernel)

def pathFrame : Frame where
  command := cmdSend
  headers := [(ascii "destination", ascii "/topic/a"),
    (ascii "path", ascii "C:\\new")]
  body := ascii "x"

/-- The letter behind a backslash is not read back. -/
theorem not_roundTrips_pathFrame :
    pathFrame.command ≠ [] ∧ Solid pathFrame.command ∧
      (pathFrame.headers.map Prod.fst).Nodup ∧ ¬ RoundTrips pathFrame := by
  have hne : pathFrame.command ≠ [] := by decide +kernel
  have hsolid : Solid pathFrame.command := by
    unfold Solid
    decide +kernel
  have hkeys : (pathFrame.headers.map Prod.fst).Nodup := by decide +kernel
  refine ⟨hne, hsolid, hkeys, ?_⟩
  intro h
  have hplain := plain_of_roundTrips hne hsolid hkeys h
    (ascii "path", ascii "C:\\new")
    (List.mem_cons_of_mem _ List.mem_cons_self)
  exact hplain.2.newline (by decide +kernel)

end Stomp
end ChimeraMQ
