import ChimeraMQ.Foundation.Decimal
import ChimeraMQ.Foundation.Reading
import ChimeraMQ.Foundation.Runes
import Mathlib.Data.List.Forall2

/-!
# The stream of a NATS client

A command is a line of words.  A message that is published follows its command
by its number of bytes, so that its bytes are not taken for commands.
-/

namespace ChimeraMQ
namespace Nats

open Foundation

structure Message where
  command : Bytes
  args : List Bytes
  headers : List (Bytes × Bytes)
  payload : Bytes
deriving DecidableEq

inductive ReadError where
  | eof
  | emptyCommand
  | payload (err : StreamError)
  | trailer
deriving DecidableEq

def cmdConnect : Bytes := ascii "CONNECT"
def cmdPub : Bytes := ascii "PUB"
def cmdHpub : Bytes := ascii "HPUB"
def cmdSub : Bytes := ascii "SUB"
def cmdUnsub : Bytes := ascii "UNSUB"
def cmdPing : Bytes := ascii "PING"
def cmdPong : Bytes := ascii "PONG"

/-- How many bytes follow a line, if its command is the one that publishes. -/
def payloadLen (command : Bytes) (args : List Bytes) : Nat :=
  if command = cmdPub ∧ 2 ≤ args.length then
    match args.getLast?.bind atoi with
    | some n => n.toNat
    | none => 0
  else 0

def readPayload (command : Bytes) (args : List Bytes) :
    Reader ReadError Message :=
  if 0 < payloadLen command args then do
    let payload <- readFull .payload (payloadLen command args)
    let _ <- takeThrough .trailer 0x0A
    pure
      { command := command, args := args, headers := [], payload := payload }
  else pure { command := command, args := args, headers := [], payload := [] }

def readMessageWithin : Nat -> Reader ReadError Message
  | 0 => Reader.fail .eof
  | k + 1 => do
      let line <- takeThrough .eof 0x0A
      if trimSpace line = [] then readMessageWithin k
      else
        match fields (trimSpace line) with
        | [] => Reader.fail .emptyCommand
        | command :: args => readPayload command args

def readMessage : Reader ReadError Message :=
  fun s => readMessageWithin (s.length + 1) s

def Returns (s : Bytes) : List Message -> Prop
  | [] => readMessage s = .error .eof
  | m :: ms => exists t, readMessage s = .ok (m, t) ∧ Returns t ms

/-!
## Commands of a client
-/

inductive ClientCommand where
  | connect (options : Bytes)
  | pub (subject : Bytes) (replyTo : Option Bytes) (size : Bytes)
      (payload : Bytes)
  | hpub (subject : Bytes) (replyTo : Option Bytes)
      (headerSize totalSize : Bytes) (headers : List (Bytes × Bytes))
      (payload : Bytes)
  | sub (subject : Bytes) (queue : Option Bytes) (sid : Bytes)
  | unsub (sid : Bytes) (maxMsgs : Option Bytes)
  | ping
  | pong

namespace ClientCommand

def name : ClientCommand -> Bytes
  | connect _ => cmdConnect
  | pub _ _ _ _ => cmdPub
  | hpub _ _ _ _ _ _ => cmdHpub
  | sub _ _ _ => cmdSub
  | unsub _ _ => cmdUnsub
  | ping => cmdPing
  | pong => cmdPong

def args : ClientCommand -> List Bytes
  | connect options => [options]
  | pub subject replyTo size _ => subject :: (replyTo.toList ++ [size])
  | hpub subject replyTo headerSize totalSize _ _ =>
    subject :: (replyTo.toList ++ [headerSize, totalSize])
  | sub subject queue sid => subject :: (queue.toList ++ [sid])
  | unsub sid maxMsgs => sid :: maxMsgs.toList
  | ping => []
  | pong => []

def crlf : Bytes := [0x0D, 0x0A]

def headerBlock (headers : List (Bytes × Bytes)) : Bytes :=
  ascii "NATS/1.0" ++ crlf ++
    (headers.flatMap (fun e => e.1 ++ ascii ": " ++ e.2 ++ crlf) ++ crlf)

def body : ClientCommand -> Bytes
  | pub _ _ _ payload => payload ++ crlf
  | hpub _ _ _ _ headers payload => headerBlock headers ++ (payload ++ crlf)
  | _ => []

def message (c : ClientCommand) : Message where
  command := c.name
  args := c.args
  headers :=
    match c with
    | hpub _ _ _ _ headers _ => headers
    | _ => []
  payload :=
    match c with
    | pub _ _ _ payload => payload
    | hpub _ _ _ _ _ payload => payload
    | _ => []

end ClientCommand

open ClientCommand

def IsGap (gap : Bytes) : Prop :=
  gap ≠ [] ∧ forall b, b ∈ gap -> b = 0x20 ∨ b = 0x09

inductive Spells : List Bytes -> Bytes -> Prop where
  | last (w : Bytes) : Spells [w] w
  | cons (w : Bytes) {gap : Bytes} (hgap : IsGap gap) {ws : List Bytes}
      {line : Bytes} (hline : Spells ws line) :
      Spells (w :: ws) (w ++ (gap ++ line))

def Sends (c : ClientCommand) (s : Bytes) : Prop :=
  exists line, Spells (c.name :: c.args) line ∧ s = line ++ crlf ++ c.body

def IsWord (w : Bytes) : Prop :=
  w ≠ [] ∧ 0x20 ∉ w ∧ 0x09 ∉ w ∧ 0x0D ∉ w ∧ 0x0A ∉ w

instance (w : Bytes) : Decidable (IsWord w) :=
  inferInstanceAs (Decidable (_ ∧ _))

def IsSize (s : Bytes) (n : Nat) : Prop :=
  parseDecimal (2 ^ 63) (digitChars s) = some n

instance (s : Bytes) (n : Nat) : Decidable (IsSize s n) :=
  inferInstanceAs (Decidable (_ = _))

/--
What a client sends is well formed: the options of a connection are an object on
one line, and the sizes of a message are those that are announced.
-/
def WellFormed : ClientCommand -> Prop
  | connect options =>
    options.head? = some 0x7B ∧ options.getLast? = some 0x7D ∧
      0x0D ∉ options ∧ 0x0A ∉ options
  | pub subject replyTo size payload =>
    IsWord subject ∧ (forall w, w ∈ replyTo -> IsWord w) ∧
      IsSize size payload.length
  | hpub subject replyTo headerSize totalSize headers payload =>
    IsWord subject ∧ (forall w, w ∈ replyTo -> IsWord w) ∧
      IsSize headerSize (headerBlock headers).length ∧
      IsSize totalSize ((headerBlock headers).length + payload.length)
  | sub subject queue sid =>
    IsWord subject ∧ (forall w, w ∈ queue -> IsWord w) ∧ IsWord sid
  | unsub sid maxMsgs => IsWord sid ∧ forall w, w ∈ maxMsgs -> IsWord w
  | ping => True
  | pong => True

/-- Commands are read back, in whatever way a client may send them. -/
def InSync (cs : List ClientCommand) : Prop :=
  forall chunks, List.Forall₂ Sends cs chunks ->
    Returns chunks.flatten (cs.map message)

/-- A message without headers, and words that contain no white space at all. -/
def Framed (c : ClientCommand) : Prop :=
  (forall w, w ∈ c.args -> Solid w) ∧ c.name ≠ cmdHpub

/-!
## Lines
-/

variable {s : Bytes}

theorem readMessageWithin_eq {j k : Nat} (hj : s.length < j) (hk : s.length < k) :
    readMessageWithin j s = readMessageWithin k s := by
  induction j generalizing k s with
  | zero => exact absurd hj (Nat.not_lt_zero _)
  | succ j ih =>
  cases k with
  | zero => exact absurd hk (Nat.not_lt_zero _)
  | succ k =>
  rw [readMessageWithin, readMessageWithin]
  cases hline : takeThrough ReadError.eof 0x0A s with
  | error err =>
    rw [Reader.bind_error hline, Reader.bind_error hline]
  | ok p =>
  rcases takeThrough_eq_ok hline with ⟨hs, hne⟩
  have hpos := List.length_pos_iff.mpr hne
  have hlength := congrArg List.length hs
  rw [List.length_append] at hlength
  rw [Reader.bind_ok hline, Reader.bind_ok hline]
  split
  · exact ih (by omega) (by omega)
  · rfl

theorem readMessage_crlf (s : Bytes) :
    readMessage (crlf ++ s) = readMessage s := by
  have hline : takeThrough ReadError.eof 0x0A ([0x0D] ++ [0x0A] ++ s) =
      .ok ([0x0D] ++ [0x0A], s) :=
    reads_takeThrough ReadError.eof (by decide) s
  have hblank : trimSpace ([0x0D] ++ [0x0A]) = [] := by decide +kernel
  have hassoc : crlf ++ s = [0x0D] ++ [0x0A] ++ s := rfl
  unfold readMessage
  rw [readMessageWithin, hassoc, Reader.bind_ok hline, if_pos hblank]
  have hlength : s.length < ([0x0D] ++ [0x0A] ++ s).length := by
    rw [List.length_append]
    exact Nat.lt_add_of_pos_left Nat.two_pos
  exact readMessageWithin_eq hlength (Nat.lt_succ_self _)

theorem readMessage_line {line command : Bytes} {args : List Bytes}
    (hline : 0x0A ∉ line) (hfields : fields line = command :: args)
    (s : Bytes) :
    readMessage (line ++ crlf ++ s) = readPayload command args s := by
  have hcr : 0x0A ∉ line ++ [0x0D] := by
    intro hmem
    rcases List.mem_append.mp hmem with hmem | hmem
    · exact hline hmem
    · exact absurd hmem (by decide)
  have htake := reads_takeThrough ReadError.eof hcr s
  have hassoc : line ++ crlf ++ s = line ++ [0x0D] ++ [0x0A] ++ s := by
    simp [crlf]
  have hwords : fields (trimSpace (line ++ [0x0D] ++ [0x0A])) =
      command :: args := by
    rw [fields_trimSpace, fields_append _ (by decide) (by decide),
      fields_append _ (by decide) (by decide), fields_nil, List.append_nil,
      List.append_nil, hfields]
  have hsome : trimSpace (line ++ [0x0D] ++ [0x0A]) ≠ [] := by
    intro hnil
    rw [hnil, fields_nil] at hwords
    cases hwords
  unfold readMessage
  rw [readMessageWithin, hassoc, Reader.bind_ok htake, if_neg hsome, hwords]

theorem fields_gap {gap : Bytes}
    (hgap : forall b, b ∈ gap -> b = 0x20 ∨ b = 0x09) (line : Bytes) :
    fields (gap ++ line) = fields line := by
  induction gap with
  | nil => rfl
  | cons b gap ih =>
  have happend := fields_append [] (b := b) (t := gap ++ line)
  have hb : isAscii b ∧ isSpace b.toNat = true := by
    rcases hgap b List.mem_cons_self with rfl | rfl
    · decide
    · decide
  rw [fields_nil, List.nil_append] at happend
  exact (happend hb.1 hb.2).trans
    (ih (fun x hx => hgap x (List.mem_cons_of_mem b hx)))

variable {ws : List Bytes}

theorem fields_of_spells {line : Bytes} (h : Spells ws line) :
    fields line = ws.flatMap fields := by
  induction h with
  | last w => simp
  | @cons w gap hgap ws line hline ih =>
  cases hb : gap with
  | nil => exact absurd hb hgap.1
  | cons b rest =>
  have hall := hgap.2
  rw [hb] at hall
  have hspace : isAscii b ∧ isSpace b.toNat = true := by
    rcases hall b List.mem_cons_self with rfl | rfl
    · decide
    · decide
  rw [List.cons_append, fields_append w hspace.1 hspace.2,
    fields_gap (fun x hx => hall x (List.mem_cons_of_mem b hx)), ih,
    List.flatMap_cons]

theorem not_mem_of_spells {line : Bytes} (h : Spells ws line)
    (hws : forall w, w ∈ ws -> 0x0A ∉ w) :
    0x0A ∉ line := by
  induction h with
  | last w => exact hws w List.mem_cons_self
  | @cons w gap hgap ws line hline ih =>
  intro hmem
  rcases List.mem_append.mp hmem with hmem | hmem
  · exact hws w List.mem_cons_self hmem
  rcases List.mem_append.mp hmem with hmem | hmem
  · rcases hgap.2 _ hmem with hb | hb
    · exact absurd hb (by decide)
    · exact absurd hb (by decide)
  · exact ih (fun x hx => hws x (List.mem_cons_of_mem w hx)) hmem

/-!
## Words
-/

theorem isSize_spec {n : Nat} (h : IsSize s n) :
    s ≠ [] ∧ 0x0A ∉ s ∧ atoi s = some (n : Int) := by
  have hsize := h
  unfold IsSize parseDecimal at h
  split at h
  · rename_i hdigits
    rcases hdigits with ⟨hne, hall, -⟩
    have hbyte : forall b, b ∈ s -> (Char.ofNat b.toNat).isDigit = true := by
      intro b hb
      exact List.all_eq_true.mp hall _ (List.mem_map_of_mem hb)
    cases s with
    | nil => exact absurd rfl hne
    | cons b s =>
    have hb := hbyte b List.mem_cons_self
    have hminus : b ≠ 0x2D := by
      intro heq
      rw [heq] at hb
      exact absurd hb (by decide)
    have hplus : b ≠ 0x2B := by
      intro heq
      rw [heq] at hb
      exact absurd hb (by decide)
    refine ⟨List.cons_ne_nil b s, ?_, ?_⟩
    · intro hmem
      exact absurd (hbyte 0x0A hmem) (by decide)
    · rw [atoi, if_neg hminus, if_neg hplus, hsize]
      rfl
  · cases h

def names : List Bytes :=
  [cmdConnect, cmdPub, cmdHpub, cmdSub, cmdUnsub, cmdPing, cmdPong]

theorem name_mem_names (c : ClientCommand) : c.name ∈ names := by
  cases c <;> simp [names, name]

variable {c : ClientCommand}

theorem wellFormed_words (h : WellFormed c) :
    forall w, w ∈ c.name :: c.args -> w ≠ [] ∧ 0x0A ∉ w := by
  have hword : forall {w}, IsWord w -> w ≠ [] ∧ 0x0A ∉ w :=
    fun hw => ⟨hw.1, hw.2.2.2.2⟩
  have hsize : forall {w n}, IsSize w n -> w ≠ [] ∧ 0x0A ∉ w :=
    fun hw => ⟨(isSize_spec hw).1, (isSize_spec hw).2.1⟩
  intro w hw
  rcases List.mem_cons.mp hw with rfl | hw
  · have hnames : forall w, w ∈ names -> w ≠ [] ∧ 0x0A ∉ w := by decide
    exact hnames c.name (name_mem_names c)
  cases c with
  | connect options =>
    rw [List.mem_singleton.mp hw]
    refine ⟨?_, h.2.2.2⟩
    intro hnil
    rw [hnil] at h
    exact absurd h.1 (by simp)
  | pub subject replyTo size payload =>
    rcases List.mem_cons.mp hw with rfl | hw
    · exact hword h.1
    rcases List.mem_append.mp hw with hw | hw
    · exact hword (h.2.1 w (Option.mem_toList.mp hw))
    · rw [List.mem_singleton.mp hw]
      exact hsize h.2.2
  | hpub subject replyTo headerSize totalSize headers payload =>
    rcases List.mem_cons.mp hw with rfl | hw
    · exact hword h.1
    rcases List.mem_append.mp hw with hw | hw
    · exact hword (h.2.1 w (Option.mem_toList.mp hw))
    rcases List.mem_cons.mp hw with rfl | hw
    · exact hsize h.2.2.1
    · rw [List.mem_singleton.mp hw]
      exact hsize h.2.2.2
  | sub subject queue sid =>
    rcases List.mem_cons.mp hw with rfl | hw
    · exact hword h.1
    rcases List.mem_append.mp hw with hw | hw
    · exact hword (h.2.1 w (Option.mem_toList.mp hw))
    · rw [List.mem_singleton.mp hw]
      exact hword h.2.2
  | unsub sid maxMsgs =>
    rcases List.mem_cons.mp hw with rfl | hw
    · exact hword h.1
    · exact hword (h.2 w (Option.mem_toList.mp hw))
  | ping => cases hw
  | pong => cases hw

theorem fields_name (c : ClientCommand) : fields c.name = [c.name] := by
  have hnames : forall w, w ∈ names -> fields w = [w] := by decide +kernel
  exact hnames c.name (name_mem_names c)

theorem solid_of_flatMap_fields (h : ws.flatMap fields = ws) :
    forall w, w ∈ ws -> Solid w := by
  have hall : forall ws : List Bytes,
      (ws.flatMap fields).flatten.length ≤ ws.flatten.length ∧
        ((ws.flatMap fields).flatten.length = ws.flatten.length ->
          forall w, w ∈ ws -> Solid w) := by
    intro ws
    induction ws with
    | nil => exact ⟨Nat.le_refl 0, fun _ w hw => nomatch hw⟩
    | cons w ws ih =>
    rcases length_flatten_fields w with ⟨hle, hsolid⟩
    rw [List.flatMap_cons, List.flatten_append, List.length_append,
      List.flatten_cons, List.length_append]
    refine ⟨Nat.add_le_add hle ih.1, ?_⟩
    intro hsame x hx
    have hrest := ih.1
    cases List.mem_cons.mp hx with
    | inl hx => exact hx ▸ hsolid (by omega)
    | inr hx => exact ih.2 (by omega) x hx
  exact (hall ws).2 (by rw [h])

theorem flatMap_fields_of_solid (h : forall w, w ∈ ws -> w ≠ [] ∧ Solid w) :
    ws.flatMap fields = ws := by
  induction ws with
  | nil => rfl
  | cons w ws ih =>
  rcases h w List.mem_cons_self with ⟨hne, hsolid⟩
  rw [List.flatMap_cons, fields_of_solid hne hsolid,
    ih (fun x hx => h x (List.mem_cons_of_mem w hx)),
    List.singleton_append]

/-!
## Single commands
-/

theorem readMessage_sends (hwf : WellFormed c) (h : Sends c s) (rest : Bytes) :
    readMessage (s ++ rest) =
      readPayload c.name (c.args.flatMap fields) (c.body ++ rest) := by
  rcases h with ⟨line, hline, rfl⟩
  have hfields := fields_of_spells hline
  rw [List.flatMap_cons, fields_name, List.singleton_append] at hfields
  rw [List.append_assoc, readMessage_line (not_mem_of_spells hline
    (fun w hw => (wellFormed_words hwf w hw).2)) hfields]

theorem args_of_readPayload {command : Bytes} {args : List Bytes} {t : Bytes}
    {m : Message} (h : readPayload command args s = .ok (m, t)) :
    m.command = command ∧ m.args = args := by
  unfold readPayload at h
  split at h
  · rcases Reader.bind_eq_ok h with ⟨payload, u, -, hrest⟩
    rcases Reader.bind_eq_ok hrest with ⟨b, v, -, hm⟩
    cases hm
    exact ⟨rfl, rfl⟩
  · cases h
    exact ⟨rfl, rfl⟩

theorem readPayload_of_ne {command : Bytes} (h : command ≠ cmdPub)
    (args : List Bytes) (s : Bytes) :
    readPayload command args s =
      .ok ({ command := command, args := args, headers := [], payload := [] },
        s) := by
  have hlen : payloadLen command args = 0 := if_neg (fun hpub => h hpub.1)
  unfold readPayload
  rw [if_neg (by omega)]
  rfl

theorem readPayload_of_framed (hwf : WellFormed c) (h : Framed c) (rest : Bytes) :
    exists t, readPayload c.name c.args (c.body ++ rest) = .ok (c.message, t) ∧
      readMessage t = readMessage rest := by
  cases c with
  | pub subject replyTo size payload =>
    have hlen : payloadLen cmdPub (subject :: (replyTo.toList ++ [size])) =
        payload.length := by
      have hlast : (subject :: (replyTo.toList ++ [size])).getLast? =
          some size := by
        rw [← List.cons_append, List.getLast?_concat]
      unfold payloadLen
      rw [if_pos ⟨rfl, by simp⟩, hlast, Option.bind_some,
        (isSize_spec hwf.2.2).2.2]
      rfl
    change exists t,
      readPayload cmdPub (subject :: (replyTo.toList ++ [size]))
        (payload ++ crlf ++ rest) = _ ∧ _
    unfold readPayload
    rw [hlen]
    by_cases hempty : 0 < payload.length
    · rw [if_pos hempty]
      have htake := reads_takeBytes
        (fun s => ReadError.payload (endOf s)) payload (crlf ++ rest)
      have hend : takeThrough ReadError.trailer 0x0A
          ([0x0D] ++ [0x0A] ++ rest) = .ok ([0x0D] ++ [0x0A], rest) :=
        reads_takeThrough ReadError.trailer (by decide) rest
      refine ⟨rest, ?_, rfl⟩
      rw [List.append_assoc, readFull, Reader.bind_ok htake]
      exact Reader.bind_ok hend
    · -- the end of the empty payload is a blank line
      rw [if_neg hempty]
      have hnil := List.eq_nil_of_length_eq_zero
        (Nat.eq_zero_of_not_pos hempty)
      rw [hnil]
      exact ⟨crlf ++ rest, rfl, readMessage_crlf rest⟩
  | hpub subject replyTo headerSize totalSize headers payload =>
    exact absurd rfl h.2
  | connect options =>
    exact ⟨rest,
      readPayload_of_ne (show cmdConnect ≠ cmdPub by decide) _ _, rfl⟩
  | sub subject queue sid =>
    exact ⟨rest, readPayload_of_ne (show cmdSub ≠ cmdPub by decide) _ _, rfl⟩
  | unsub sid maxMsgs =>
    exact ⟨rest,
      readPayload_of_ne (show cmdUnsub ≠ cmdPub by decide) _ _, rfl⟩
  | ping =>
    exact ⟨rest, readPayload_of_ne (show cmdPing ≠ cmdPub by decide) _ _, rfl⟩
  | pong =>
    exact ⟨rest, readPayload_of_ne (show cmdPong ≠ cmdPub by decide) _ _, rfl⟩

/-!
## Streams
-/

theorem returns_congr {t : Bytes} (h : readMessage s = readMessage t)
    (ms : List Message) : Returns s ms <-> Returns t ms := by
  cases ms with
  | nil => rw [Returns, Returns, h]
  | cons m ms => rw [Returns, Returns, h]

theorem not_returns_headerBlock (headers : List (Bytes × Bytes)) (s : Bytes)
    (cs : List ClientCommand) :
    ¬ Returns (headerBlock headers ++ s) (cs.map message) := by
  have hread : exists t, readMessage (headerBlock headers ++ s) =
      .ok ({ command := ascii "NATS/1.0", args := [], headers := [],
             payload := [] }, t) := by
    have hfields : fields (ascii "NATS/1.0") = [ascii "NATS/1.0"] := by
      decide +kernel
    have hline := readMessage_line (by decide) hfields
      (headers.flatMap (fun e => e.1 ++ ascii ": " ++ e.2 ++ crlf) ++ crlf ++ s)
    rw [readPayload_of_ne (by decide)] at hline
    refine ⟨headers.flatMap (fun e => e.1 ++ ascii ": " ++ e.2 ++ crlf) ++
      crlf ++ s, ?_⟩
    rw [headerBlock, List.append_assoc]
    exact hline
  rcases hread with ⟨t, hread⟩
  intro h
  cases cs with
  | nil =>
    rw [List.map_nil, Returns, hread] at h
    cases h
  | cons c cs =>
  rcases h with ⟨u, hfirst, -⟩
  rw [hread] at hfirst
  have hname : ascii "NATS/1.0" = c.name :=
    congrArg (fun r => match r with
      | .ok p => p.1.command
      | .error _ => []) hfirst
  have hnames : ascii "NATS/1.0" ∉ names := by decide
  exact hnames (hname ▸ name_mem_names c)

theorem body_of_name (h : c.name = cmdHpub) :
    exists headers payload,
      c.body = headerBlock headers ++ (payload ++ crlf) := by
  cases c with
  | hpub subject replyTo headerSize totalSize headers payload =>
    exact ⟨headers, payload, rfl⟩
  | connect options => exact absurd h (show cmdConnect ≠ cmdHpub by decide)
  | pub subject replyTo size payload =>
    exact absurd h (show cmdPub ≠ cmdHpub by decide)
  | sub subject queue sid => exact absurd h (show cmdSub ≠ cmdHpub by decide)
  | unsub sid maxMsgs => exact absurd h (show cmdUnsub ≠ cmdHpub by decide)
  | ping => exact absurd h (show cmdPing ≠ cmdHpub by decide)
  | pong => exact absurd h (show cmdPong ≠ cmdHpub by decide)

theorem returns_iff {cs : List ClientCommand}
    (hwf : forall c, c ∈ cs -> WellFormed c) {chunks : List Bytes}
    (h : List.Forall₂ Sends cs chunks) :
    Returns chunks.flatten (cs.map message) <->
      forall c, c ∈ cs -> Framed c := by
  induction h with
  | nil =>
    constructor
    · intro _ c hc
      cases hc
    · intro _
      rfl
  | @cons c s cs chunks hsends hrest ih =>
  have hwfc := hwf c List.mem_cons_self
  have ih' := ih (fun x hx => hwf x (List.mem_cons_of_mem c hx))
  have hread := readMessage_sends hwfc hsends chunks.flatten
  rw [List.flatten_cons, List.map_cons, Returns, hread]
  constructor
  · rintro ⟨t, hfirst, hreturns⟩
    have hargs := (args_of_readPayload hfirst).2
    have hsolid := solid_of_flatMap_fields hargs.symm
    have hwords : c.args.flatMap fields = c.args := hargs.symm
    rw [hwords] at hfirst
    have hname : c.name ≠ cmdHpub := by
      intro hname
      rcases body_of_name hname with ⟨headers, payload, hbody⟩
      rw [readPayload_of_ne (by rw [hname]; decide)] at hfirst
      have ht := congrArg Prod.snd (Except.ok.inj hfirst)
      change c.body ++ chunks.flatten = t at ht
      rw [← ht, hbody, List.append_assoc] at hreturns
      exact not_returns_headerBlock headers _ cs hreturns
    have hframed : Framed c := ⟨hsolid, hname⟩
    rcases readPayload_of_framed hwfc hframed chunks.flatten with
      ⟨u, hpayload, hnext⟩
    rw [hpayload] at hfirst
    cases hfirst
    have hall := ih'.mp ((returns_congr hnext _).mp hreturns)
    intro x hx
    cases List.mem_cons.mp hx with
    | inl hx => exact hx ▸ hframed
    | inr hx => exact hall x hx
  · intro hall
    have hframed := hall c List.mem_cons_self
    have hwords : c.args.flatMap fields = c.args :=
      flatMap_fields_of_solid (fun w hw =>
        ⟨(wellFormed_words hwfc w (List.mem_cons_of_mem _ hw)).1,
          hframed.1 w hw⟩)
    rcases readPayload_of_framed hwfc hframed chunks.flatten with
      ⟨t, hpayload, hnext⟩
    rw [hwords]
    exact ⟨t, hpayload, (returns_congr hnext _).mpr
      (ih'.mpr (fun x hx => hall x (List.mem_cons_of_mem c hx)))⟩

def joinWords : List Bytes -> Bytes
  | [] => []
  | [w] => w
  | w :: ws => w ++ ([0x20] ++ joinWords ws)

theorem spells_joinWords (w : Bytes) (ws : List Bytes) :
    Spells (w :: ws) (joinWords (w :: ws)) := by
  induction ws generalizing w with
  | nil => exact .last w
  | cons x ws ih => exact .cons w (by simp [IsGap]) (ih x)

def encode (c : ClientCommand) : Bytes :=
  joinWords (c.name :: c.args) ++ crlf ++ c.body

theorem sends_encode (c : ClientCommand) : Sends c (encode c) :=
  ⟨_, spells_joinWords c.name c.args, rfl⟩

theorem forall₂_sends_encode (cs : List ClientCommand) :
    List.Forall₂ Sends cs (cs.map encode) := by
  induction cs with
  | nil => exact .nil
  | cons c cs ih => exact .cons (sends_encode c) ih

/--
Commands are read back exactly when no message of them has headers, and no word
contains white space.
-/
theorem inSync_iff {cs : List ClientCommand}
    (hwf : forall c, c ∈ cs -> WellFormed c) :
    InSync cs <-> forall c, c ∈ cs -> Framed c := by
  constructor
  · intro h
    have hchunks := forall₂_sends_encode cs
    exact (returns_iff hwf hchunks).mp (h _ hchunks)
  · intro h chunks hchunks
    exact (returns_iff hwf hchunks).mpr h

/-- A message whose bytes look like a command, between other commands. -/
def quietCommands : List ClientCommand :=
  [.connect (ascii "\x7b\x7d"), .sub (ascii "a") none (ascii "1"),
    .pub (ascii "b") (some (ascii "c")) (ascii "6") (ascii "PING" ++ crlf),
    .pub (ascii "b") none (ascii "0") [], .unsub (ascii "1") none, .ping]

/-- The bytes of a message are not taken for a command. -/
theorem inSync_quietCommands : InSync quietCommands := by
  refine (inSync_iff ?_).mpr ?_
  · intro c hc
    simp only [quietCommands, List.mem_cons, List.not_mem_nil, or_false] at hc
    rcases hc with rfl | rfl | rfl | rfl | rfl | rfl
    · exact ⟨by decide, by decide, by decide, by decide⟩
    · refine ⟨by decide, ?_, by decide⟩
      intro w hw
      cases hw
    · refine ⟨by decide, ?_, by decide +kernel⟩
      intro w hw
      cases hw
      decide
    · refine ⟨by decide, ?_, by decide +kernel⟩
      intro w hw
      cases hw
    · refine ⟨by decide, ?_⟩
      intro w hw
      cases hw
    · trivial
  · intro c hc
    simp only [quietCommands, List.mem_cons, List.not_mem_nil, or_false] at hc
    rcases hc with rfl | rfl | rfl | rfl | rfl | rfl <;>
      simp only [Framed, Solid] <;> decide +kernel

def headerPub : ClientCommand :=
  .hpub (ascii "a") none (ascii "12") (ascii "22") []
    (ascii "PUB b 1" ++ crlf ++ ascii "x")

/-- The bytes of a message with headers are taken for commands. -/
theorem not_inSync_headerPub :
    WellFormed headerPub ∧ ¬ InSync [headerPub] ∧
      Returns (encode headerPub)
        [{ command := cmdHpub
           args := [ascii "a", ascii "12", ascii "22"]
           headers := []
           payload := [] },
         { command := ascii "NATS/1.0", args := [], headers := [],
           payload := [] },
         { command := cmdPub
           args := [ascii "b", ascii "1"]
           headers := []
           payload := ascii "x" }] := by
  have hwf : WellFormed headerPub := by
    simp only [headerPub, WellFormed, IsWord, IsSize]
    decide +kernel
  refine ⟨hwf, ?_, ?_⟩
  · intro h
    have hchunks := forall₂_sends_encode [headerPub]
    have hall := (returns_iff (by simpa using hwf) hchunks).mp (h _ hchunks)
    exact (hall headerPub List.mem_cons_self).2 rfl
  refine ⟨headerBlock [] ++ (ascii "PUB b 1" ++ crlf ++ ascii "x" ++ crlf),
    ?_, crlf ++ (ascii "PUB b 1" ++ crlf ++ ascii "x" ++ crlf), ?_, [], ?_,
    ?_⟩
  · decide +kernel
  · decide +kernel
  · decide +kernel
  · rfl

end Nats
end ChimeraMQ
