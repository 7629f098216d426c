import ChimeraMQ.Foundation.Reading

/-!
# The log file

The entries of the log as they are written to its file: a header with the number
of the entries, and each entry with the length of its data.
-/

namespace ChimeraMQ
namespace Raft
namespace LogBinary

open Foundation

def logMagic : Nat := 0x52414C54
def logVersion : Nat := 1
def logHeaderSize : Nat := 18
def entryFixedSize : Nat := 24

structure LogEntry where
  index : UInt64
  term : UInt64
  type : Int
  data : Option Bytes
deriving DecidableEq

/-- What is wrong with a file, and the numbers that its message has. -/
inductive LogError where
  | tooShort (length : Nat)
  | invalidMagic (magic : Nat)
  | unsupportedVersion (version : Nat)
  | truncatedEntry (i : Nat)
  | truncatedData (i need have_ : Nat)
deriving DecidableEq

namespace LogEntry

def bytes (e : LogEntry) : Bytes :=
  e.data.getD []

def encodeFixed (e : LogEntry) : Bytes :=
  be 8 e.index.toNat ++ (be 8 e.term.toNat ++
    (be 4 (e.type % 2 ^ 32).toNat ++ be 4 e.bytes.length))

def encode (e : LogEntry) : Bytes :=
  e.encodeFixed ++ e.bytes

def clean (e : LogEntry) : LogEntry :=
  { e with data := if e.bytes = [] then none else some e.bytes }

structure Fits (e : LogEntry) : Prop where
  type_nonneg : 0 ≤ e.type
  type_lt : e.type < 2 ^ 32
  data_lt : e.bytes.length < 2 ^ 32

end LogEntry

def encodeHeader (firstIndex : UInt64) (count : Nat) : Bytes :=
  be 4 logMagic ++ (be 2 logVersion ++ (be 8 firstIndex.toNat ++ be 4 count))

def encodeLogBinary (firstIndex : UInt64) (entries : List LogEntry) : Bytes :=
  encodeHeader firstIndex entries.length ++ entries.flatMap LogEntry.encode

def decodeHeader : Reader LogError (UInt64 × Nat) := do
  let header <- takeBytes (fun s => .tooShort s.length) logHeaderSize
  let magic := ofBe (header.take 4)
  let version := ofBe ((header.drop 4).take 2)
  if magic ≠ logMagic then Reader.fail (.invalidMagic magic)
  else if version ≠ logVersion then Reader.fail (.unsupportedVersion version)
  else pure (.ofNat (ofBe ((header.drop 6).take 8)), ofBe (header.drop 14))

def decodeEntry (i : Nat) : Reader LogError LogEntry := do
  let fixed <- takeBytes (fun _ => .truncatedEntry i) entryFixedSize
  let dataLen := ofBe (fixed.drop 20)
  let data <- takeBytes (fun s => .truncatedData i dataLen s.length) dataLen
  pure
    { index := .ofNat (ofBe (fixed.take 8))
      term := .ofNat (ofBe ((fixed.drop 8).take 8))
      type := ofBe ((fixed.drop 16).take 4)
      data := if data = [] then none else some data }

def decodeEntries : Nat -> Nat -> Reader LogError (List LogEntry)
  | _, 0 => pure []
  | i, n + 1 => do
      let e <- decodeEntry i
      let rest <- decodeEntries (i + 1) n
      pure (e :: rest)

def decodeLog : Reader LogError (UInt64 × List LogEntry) := do
  let header <- decodeHeader
  let entries <- decodeEntries 0 header.2
  pure (header.1, entries)

def decodeLogBinary (data : Bytes) :
    Except LogError (UInt64 × List LogEntry) :=
  (decodeLog data).map Prod.fst

/-!
## Round trips
-/

theorem take_be_append (w n : Nat) (b : Bytes) :
    (be w n ++ b).take w = be w n :=
  List.take_left' (length_be w n)

theorem drop_be_append (w n : Nat) (b : Bytes) : (be w n ++ b).drop w = b :=
  List.drop_left' (length_be w n)

theorem be_ofBe_take_append {w : Nat} {b : Bytes} (h : w ≤ b.length) :
    be w (ofBe (b.take w)) ++ b.drop w = b := by
  have hword := be_ofBe (b.take w)
  rw [List.length_take_of_le h] at hword
  rw [hword, List.take_append_drop]

theorem length_encodeFixed (e : LogEntry) :
    e.encodeFixed.length = entryFixedSize := by
  unfold LogEntry.encodeFixed
  simp only [List.length_append, length_be]
  rfl

variable {e : LogEntry}

theorem decode_fixed (h : e.Fits) :
    (LogEntry.mk (.ofNat (ofBe (e.encodeFixed.take 8)))
      (.ofNat (ofBe ((e.encodeFixed.drop 8).take 8)))
      (ofBe ((e.encodeFixed.drop 16).take 4))
      (if e.bytes = [] then none else some e.bytes)) = e.clean ∧
    ofBe (e.encodeFixed.drop 20) = e.bytes.length := by
  have hnonneg := h.type_nonneg
  have hlt := h.type_lt
  have htype : (((e.type % 2 ^ 32).toNat : Nat) : Int) = e.type := by omega
  have hdrop16 : e.encodeFixed.drop 16 =
      be 4 (e.type % 2 ^ 32).toNat ++ be 4 e.bytes.length := by
    unfold LogEntry.encodeFixed
    rw [show 16 = 8 + 8 from rfl, ← List.drop_drop, drop_be_append,
      drop_be_append]
  have hdrop20 : e.encodeFixed.drop 20 = be 4 e.bytes.length := by
    rw [show 20 = 16 + 4 from rfl, ← List.drop_drop, hdrop16, drop_be_append]
  constructor
  · rw [hdrop16, take_be_append, ofBe_be_of_lt (by omega), htype]
    unfold LogEntry.encodeFixed LogEntry.clean
    rw [take_be_append, drop_be_append, take_be_append,
      ofBe_be_of_lt (UInt64.toNat_lt _), ofBe_be_of_lt (UInt64.toNat_lt _),
      UInt64.ofNat_toNat, UInt64.ofNat_toNat]
  · rw [hdrop20]
    exact ofBe_be_of_lt h.data_lt

theorem reads_decodeEntry (h : e.Fits) (i : Nat) :
    Reads (decodeEntry i) e.encode e.clean := by
  rcases decode_fixed h with ⟨hclean, hlength⟩
  unfold decodeEntry
  rw [← length_encodeFixed e]
  apply (reads_takeBytes _ e.encodeFixed).bind
  simp only [hlength]
  apply (reads_takeBytes _ e.bytes).bind_pure
  rw [hclean]
  exact Reads.pure _

theorem short_decodeEntry (h : e.Fits) (i : Nat) :
    Short (decodeEntry i) e.encode := by
  rcases decode_fixed h with ⟨_, hlength⟩
  unfold decodeEntry
  rw [← length_encodeFixed e]
  apply Short.bind (reads_takeBytes _ e.encodeFixed)
    (short_takeBytes _ e.encodeFixed)
  simp only [hlength]
  exact (short_takeBytes _ e.bytes).bind_pure _

variable {entries : List LogEntry}

theorem reads_decodeEntries (h : forall e, e ∈ entries -> e.Fits) (i : Nat) :
    Reads (decodeEntries i entries.length) (entries.flatMap LogEntry.encode)
      (entries.map LogEntry.clean) := by
  induction entries generalizing i with
  | nil => exact Reads.pure _
  | cons e entries ih =>
  rw [List.forall_mem_cons] at h
  exact (reads_decodeEntry h.left i).bind
    ((ih h.right (i + 1)).bind_pure (Reads.pure _))

theorem short_decodeEntries (h : forall e, e ∈ entries -> e.Fits) (i : Nat) :
    Short (decodeEntries i entries.length)
      (entries.flatMap LogEntry.encode) := by
  induction entries generalizing i with
  | nil =>
    intro front hfront hne
    exact absurd (List.prefix_nil.mp hfront) hne
  | cons e entries ih =>
  rw [List.forall_mem_cons] at h
  exact Short.bind (reads_decodeEntry h.left i)
    (short_decodeEntry h.left i) ((ih h.right (i + 1)).bind_pure _)

theorem length_encodeHeader (firstIndex : UInt64) (count : Nat) :
    (encodeHeader firstIndex count).length = logHeaderSize := by
  unfold encodeHeader
  simp only [List.length_append, length_be]
  rfl

theorem reads_decodeHeader (firstIndex : UInt64) {count : Nat}
    (h : count < 2 ^ 32) :
    Reads decodeHeader (encodeHeader firstIndex count) (firstIndex, count) := by
  unfold decodeHeader
  rw [← length_encodeHeader firstIndex count]
  apply (reads_takeBytes _ (encodeHeader firstIndex count)).bind_pure
  have hdrop4 : (encodeHeader firstIndex count).drop 4 =
      be 2 logVersion ++ (be 8 firstIndex.toNat ++ be 4 count) := by
    unfold encodeHeader
    exact drop_be_append ..
  have hdrop6 : (encodeHeader firstIndex count).drop 6 =
      be 8 firstIndex.toNat ++ be 4 count := by
    rw [show 6 = 4 + 2 from rfl, ← List.drop_drop, hdrop4, drop_be_append]
  have hdrop14 : (encodeHeader firstIndex count).drop 14 = be 4 count := by
    rw [show 14 = 6 + 8 from rfl, ← List.drop_drop, hdrop6, drop_be_append]
  have hmagic : ofBe ((encodeHeader firstIndex count).take 4) = logMagic := by
    unfold encodeHeader
    rw [take_be_append]
    exact ofBe_be_of_lt (by decide)
  have hversion : ofBe (be 2 logVersion) = logVersion :=
    ofBe_be_of_lt (by decide)
  simp only [hdrop4, hdrop6, hdrop14, hmagic, take_be_append, hversion, ne_eq,
    not_true, if_false]
  rw [ofBe_be_of_lt (UInt64.toNat_lt _), ofBe_be_of_lt (by omega),
    UInt64.ofNat_toNat]
  exact Reads.pure _

theorem short_decodeHeader (firstIndex : UInt64) (count : Nat) :
    Short decodeHeader (encodeHeader firstIndex count) := by
  unfold decodeHeader
  rw [← length_encodeHeader firstIndex count]
  exact (short_takeBytes _ (encodeHeader firstIndex count)).bind_pure _

/-!
## What is accepted
-/

variable {s t : Bytes}

theorem toNat_ofBe {b : Bytes} (h : b.length = 8) :
    (UInt64.ofNat (ofBe b)).toNat = ofBe b := by
  have hlt := ofBe_lt b
  rw [h] at hlt
  rw [UInt64.toNat_ofNat']
  omega

theorem encode_of_decodeEntry {i : Nat} (h : decodeEntry i s = .ok (e, t)) :
    s = e.encode ++ t := by
  unfold decodeEntry at h
  rcases Reader.bind_eq_ok h with ⟨fixed, u, hfixed, h⟩
  rcases Reader.bind_eq_ok h with ⟨data, v, hdata, h⟩
  rcases length_of_takeBytes hfixed with ⟨hlength, hs⟩
  rcases length_of_takeBytes hdata with ⟨hdataLen, hu⟩
  cases h
  have hbytes : forall index term type,
      (LogEntry.mk index term type (if data = [] then none else some data)).bytes
        = data := by
    intro index term type
    unfold LogEntry.bytes
    by_cases hnil : data = []
    · rw [if_pos hnil, hnil]
      rfl
    · rw [if_neg hnil]
      rfl
  rw [hs, hu, LogEntry.encode, hbytes, List.append_assoc]
  congr 1
  have htype := ofBe_lt ((fixed.drop 16).take 4)
  rw [List.length_take, List.length_drop, hlength] at htype
  have htype' : (((ofBe ((fixed.drop 16).take 4) : Nat) : Int) %
      2 ^ 32).toNat = ofBe ((fixed.drop 16).take 4) := by
    change _ < 256 ^ 4 at htype
    omega
  have hlast := be_ofBe (fixed.drop 20)
  rw [List.length_drop, hlength] at hlast
  change be 4 _ = _ at hlast
  have hlong : forall k, k ≤ 20 -> 4 ≤ (fixed.drop k).length := by
    intro k hk
    rw [List.length_drop, hlength, entryFixedSize]
    omega
  unfold LogEntry.encodeFixed
  rw [hbytes, hdataLen, toNat_ofBe (by
      rw [List.length_take, hlength]
      rfl), toNat_ofBe (by
      rw [List.length_take, List.length_drop, hlength]
      rfl)]
  simp only
  rw [htype', hlast, show fixed.drop 20 = (fixed.drop 16).drop 4 by
      rw [List.drop_drop], be_ofBe_take_append (hlong 16 (by decide)),
    show fixed.drop 16 = (fixed.drop 8).drop 8 by
      rw [List.drop_drop], be_ofBe_take_append (by
      rw [List.length_drop, hlength]
      decide), be_ofBe_take_append (by
      rw [hlength]
      decide)]

theorem encode_of_decodeEntries {i n : Nat}
    (h : decodeEntries i n s = .ok (entries, t)) :
    entries.length = n ∧ s = entries.flatMap LogEntry.encode ++ t := by
  induction n generalizing i s entries with
  | zero =>
    cases h
    exact ⟨rfl, rfl⟩
  | succ n ih =>
  rcases Reader.bind_eq_ok h with ⟨e, u, he, h⟩
  rcases Reader.bind_eq_ok h with ⟨rest, v, hrest, h⟩
  cases h
  rcases ih hrest with ⟨hlength, hu⟩
  refine ⟨congrArg (fun k => k + 1) hlength, ?_⟩
  rw [encode_of_decodeEntry he, hu, List.flatMap_cons, List.append_assoc]

theorem encode_of_decodeHeader {header : UInt64 × Nat}
    (h : decodeHeader s = .ok (header, t)) :
    s = encodeHeader header.1 header.2 ++ t := by
  unfold decodeHeader at h
  rcases Reader.bind_eq_ok h with ⟨b, u, hb, h⟩
  rcases length_of_takeBytes hb with ⟨hlength, hs⟩
  simp only at h
  split at h
  · cases h
  rename_i hmagic
  split at h
  · cases h
  rename_i hversion
  cases h
  have hlast := be_ofBe (b.drop 14)
  rw [List.length_drop, hlength,
    show logHeaderSize - 14 = 4 from rfl] at hlast
  rw [hs]
  congr 1
  unfold encodeHeader
  simp only
  rw [toNat_ofBe (by
      rw [List.length_take, List.length_drop, hlength]
      rfl), hlast,
    ← not_not.mp hmagic, ← not_not.mp hversion,
    show b.drop 14 = (b.drop 6).drop 8 by rw [List.drop_drop],
    be_ofBe_take_append (by
      rw [List.length_drop, hlength]
      decide),
    show b.drop 6 = (b.drop 4).drop 2 by rw [List.drop_drop],
    be_ofBe_take_append (by
      rw [List.length_drop, hlength]
      decide),
    be_ofBe_take_append (by
      rw [hlength]
      decide)]

/--
A file gives back the log that was written to it, no part of it that is cut off
is accepted, and what is accepted begins with the file of what it gives.
-/
theorem decodeLogBinary_encodeLogBinary (firstIndex : UInt64)
    (entries : List LogEntry) (hcount : entries.length < 2 ^ 32)
    (hfits : forall e, e ∈ entries -> e.Fits) :
    decodeLogBinary (encodeLogBinary firstIndex entries) =
        .ok (firstIndex, entries.map LogEntry.clean) ∧
      (forall front, front <+: encodeLogBinary firstIndex entries ->
        front ≠ encodeLogBinary firstIndex entries ->
          exists err, decodeLogBinary front = .error err) ∧
      forall data first es, decodeLogBinary data = .ok (first, es) ->
        encodeLogBinary first es <+: data := by
  refine ⟨?_, ?_, ?_⟩
  · have hreads : Reads decodeLog (encodeLogBinary firstIndex entries)
        (firstIndex, entries.map LogEntry.clean) :=
      (reads_decodeHeader firstIndex hcount).bind
        ((reads_decodeEntries hfits 0).bind_pure (Reads.pure _))
    have hall := hreads []
    rw [List.append_nil] at hall
    rw [decodeLogBinary, hall]
    rfl
  · intro front hfront hne
    have hshort : Short decodeLog (encodeLogBinary firstIndex entries) :=
      Short.bind (reads_decodeHeader firstIndex hcount)
        (short_decodeHeader firstIndex _)
        ((short_decodeEntries hfits 0).bind_pure _)
    rcases hshort front hfront hne with ⟨err, herr⟩
    refine ⟨err, ?_⟩
    rw [decodeLogBinary, herr]
    rfl
  intro data first es h
  unfold decodeLogBinary at h
  cases hlog : decodeLog data with
  | error err =>
    rw [hlog] at h
    cases h
  | ok r =>
  rcases r with ⟨log, t⟩
  rw [hlog] at h
  cases h
  rcases Reader.bind_eq_ok hlog with ⟨header, u, hheader, hrest⟩
  rcases Reader.bind_eq_ok hrest with ⟨es', v, hentries, hpure⟩
  cases hpure
  rcases encode_of_decodeEntries hentries with ⟨hlength, hu⟩
  refine ⟨t, ?_⟩
  rw [encode_of_decodeHeader hheader, hu, encodeLogBinary, hlength,
    List.append_assoc]

theorem decodeLogBinary_noOp :
    decodeLogBinary (encodeLogBinary 7 [⟨7, 2, 2, some []⟩]) =
        .ok (7, [⟨7, 2, 2, none⟩]) ∧
      (forall front, front <+: encodeLogBinary 7 [⟨7, 2, 2, some []⟩] ->
        front ≠ encodeLogBinary 7 [⟨7, 2, 2, some []⟩] ->
          exists err, decodeLogBinary front = .error err) ∧
      forall data first es, decodeLogBinary data = .ok (first, es) ->
        encodeLogBinary first es <+: data :=
  decodeLogBinary_encodeLogBinary 7 [⟨7, 2, 2, some []⟩] (by decide) (by
    intro e he
    rw [List.mem_singleton.mp he]
    exact ⟨by decide, by decide, by decide⟩)

end LogBinary
end Raft
end ChimeraMQ
