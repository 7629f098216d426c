import ChimeraMQ.Foundation.Bytes
import Mathlib.Data.List.TakeWhile

/-!
# Readers

A reader takes bytes from the front of its input and returns what they stand
for, or fails. A format is read back if its reader takes exactly the encoding,
whatever comes after it, and fails on every part of the encoding that is cut
off.
-/

namespace ChimeraMQ
namespace Foundation

inductive StreamError where
  | eof
  | unexpectedEOF
deriving DecidableEq

/-- What takes bytes from the front of its input, or fails. -/
abbrev Reader (ε : Type) := StateT Bytes (Except ε)

variable {ε α β : Type}

def Reader.fail (err : ε) : Reader ε α :=
  fun _ => .error err

def takeBytes (err : Bytes -> ε) (n : Nat) : Reader ε Bytes :=
  fun s => if n ≤ s.length then .ok (s.take n, s.drop n) else .error (err s)

def takeByte (err : ε) : Reader ε UInt8
  | [] => .error err
  | b :: rest => .ok (b, rest)

def endOf (s : Bytes) : StreamError :=
  if s = [] then .eof else .unexpectedEOF

def readFull (wrap : StreamError -> ε) (n : Nat) : Reader ε Bytes :=
  takeBytes (fun s => wrap (endOf s)) n

def takeBe (err : Bytes -> ε) (w : Nat) : Reader ε Nat :=
  ofBe <$> takeBytes err w

def takeThrough (err : ε) (stop : UInt8) : Reader ε Bytes := fun s =>
  match s.dropWhile (fun b => b ≠ stop) with
  | [] => .error err
  | b :: rest => .ok (s.takeWhile (fun b => b ≠ stop) ++ [b], rest)

/-!
## Reading back
-/

/-- The reader takes exactly the encoding, whatever follows it. -/
def Reads (r : Reader ε α) (enc : Bytes) (a : α) : Prop :=
  forall rest, r (enc ++ rest) = .ok (a, rest)

def Short (r : Reader ε α) (enc : Bytes) : Prop :=
  forall front, front <+: enc -> front ≠ enc -> exists err, r front = .error err

variable {r : Reader ε α} {f : α -> Reader ε β} {s t : Bytes} {a : α}

theorem Reader.bind_ok (h : r s = .ok (a, t)) : (r >>= f) s = f a t := by
  change (r s >>= fun p => f p.1 p.2) = f a t
  rw [h]
  rfl

theorem Reader.bind_error {err : ε} (h : r s = .error err) :
    (r >>= f) s = .error err := by
  change (r s >>= fun p => f p.1 p.2) = .error err
  rw [h]
  rfl

theorem Reader.bind_eq_ok {b : β} (h : (r >>= f) s = .ok (b, t)) :
    exists a u, r s = .ok (a, u) ∧ f a u = .ok (b, t) := by
  cases hr : r s with
  | error err =>
    rw [Reader.bind_error hr] at h
    cases h
  | ok p =>
  rw [Reader.bind_ok hr] at h
  exact ⟨p.1, p.2, rfl, h⟩

theorem Reader.map_eq_ok {g : α -> β} {b : β} (h : (g <$> r) s = .ok (b, t)) :
    exists a, r s = .ok (a, t) ∧ g a = b := by
  change ((fun p => (g p.1, p.2)) <$> r s) = .ok (b, t) at h
  cases hr : r s with
  | error err =>
    rw [hr] at h
    cases h
  | ok p =>
  rw [hr] at h
  cases h
  exact ⟨p.1, rfl, rfl⟩

theorem Reads.pure (a : α) : Reads (pure a : Reader ε α) [] a :=
  fun _ => rfl

variable {enc : Bytes}

theorem Reads.bind {enc' : Bytes} {b : β} (h : Reads r enc a)
    (h' : Reads (f a) enc' b) :
    Reads (r >>= f) (enc ++ enc') b := by
  intro rest
  rw [List.append_assoc, Reader.bind_ok (h _)]
  exact h' rest

theorem Reads.bind_pure {b : β} (h : Reads r enc a) (h' : Reads (f a) [] b) :
    Reads (r >>= f) enc b := by
  have hboth := h.bind h'
  rwa [List.append_nil] at hboth

theorem Reads.map (h : Reads r enc a) (g : α -> β) :
    Reads (g <$> r) enc (g a) := by
  intro rest
  change ((fun p => (g p.1, p.2)) <$> r (enc ++ rest)) = .ok (g a, rest)
  rw [h rest]
  rfl

theorem Short.bind {enc' : Bytes} (h : Reads r enc a) (hshort : Short r enc)
    (hshort' : Short (f a) enc') : Short (r >>= f) (enc ++ enc') := by
  intro front hfront hne
  rcases List.prefix_or_prefix_of_prefix hfront
      (List.prefix_append enc enc') with hle | ⟨tail, htail⟩
  · by_cases hsame : front = enc
    · -- the first part is whole, nothing is left for the second
      have hempty : ([] : Bytes) ≠ enc' := by
        intro hnil
        rw [← hnil, List.append_nil] at hne
        exact hne hsame
      rcases hshort' [] List.nil_prefix hempty with ⟨err, herr⟩
      refine ⟨err, ?_⟩
      have hread := h []
      rw [List.append_nil] at hread
      rw [hsame, Reader.bind_ok hread, herr]
    · rcases hshort front hle hsame with ⟨err, herr⟩
      exact ⟨err, Reader.bind_error herr⟩
  · rw [← htail] at hfront hne
    have htail' : tail <+: enc' := (List.prefix_append_right_inj enc).mp hfront
    have hcut : tail ≠ enc' := fun hsame => hne (by rw [hsame])
    rcases hshort' tail htail' hcut with ⟨err, herr⟩
    refine ⟨err, ?_⟩
    rw [← htail, Reader.bind_ok (h tail), herr]

theorem Short.bind_pure (hshort : Short r enc) (f : α -> Reader ε β) :
    Short (r >>= f) enc := by
  intro front hfront hne
  rcases hshort front hfront hne with ⟨err, herr⟩
  exact ⟨err, Reader.bind_error herr⟩

/-!
## Fields
-/

variable {n : Nat}

theorem reads_takeByte (err : ε) (b : UInt8) : Reads (takeByte err) [b] b :=
  fun _ => rfl

theorem reads_takeBytes (err : Bytes -> ε) (b : Bytes) :
    Reads (takeBytes err b.length) b b := by
  intro rest
  unfold takeBytes
  rw [if_pos (by rw [List.length_append]; omega), List.take_left,
    List.drop_left]

theorem short_takeBytes (err : Bytes -> ε) (b : Bytes) :
    Short (takeBytes err b.length) b := by
  intro front hfront hne
  have hlt : front.length < b.length := by
    rcases Nat.lt_or_ge front.length b.length with hlt | hge
    · exact hlt
    · exact absurd (hfront.eq_of_length_le hge) hne
  refine ⟨err front, ?_⟩
  unfold takeBytes
  rw [if_neg (Nat.not_le.mpr hlt)]

theorem length_of_takeBytes {err : Bytes -> ε} {b : Bytes}
    (h : takeBytes err n s = .ok (b, t)) : b.length = n ∧ s = b ++ t := by
  unfold takeBytes at h
  split at h
  · rename_i hle
    cases h
    exact ⟨by rw [List.length_take]; omega, (List.take_append_drop n s).symm⟩
  · cases h

theorem reads_takeBe (err : Bytes -> ε) (w n : Nat) :
    Reads (takeBe err w) (be w n) (n % 256 ^ w) := by
  have hbytes := reads_takeBytes err (be w n)
  rw [length_be] at hbytes
  have hnumber := hbytes.map ofBe
  rwa [ofBe_be] at hnumber

theorem reads_takeBe_of_lt (err : Bytes -> ε) {w : Nat} (hn : n < 256 ^ w) :
    Reads (takeBe err w) (be w n) n := by
  have hnumber := reads_takeBe err w n
  rwa [Nat.mod_eq_of_lt hn] at hnumber

variable {stop : UInt8}

theorem takeThrough_eq_ok {err : ε} {b : Bytes}
    (h : takeThrough err stop s = .ok (b, t)) : s = b ++ t ∧ b ≠ [] := by
  unfold takeThrough at h
  split at h
  · cases h
  rename_i x rest hdrop
  cases h
  refine ⟨?_, List.append_ne_nil_of_right_ne_nil _ (List.cons_ne_nil x [])⟩
  rw [List.append_assoc, List.singleton_append, ← hdrop,
    List.takeWhile_append_dropWhile]

theorem reads_takeThrough (err : ε) {line : Bytes} (h : stop ∉ line) :
    Reads (takeThrough err stop) (line ++ [stop]) (line ++ [stop]) := by
  intro rest
  have hall : forall b, b ∈ line -> decide (b ≠ stop) = true := by
    intro b hb
    rw [decide_eq_true_eq]
    intro heq
    exact h (heq ▸ hb)
  have hdrop : (line ++ stop :: rest).dropWhile (fun b => b ≠ stop) =
      stop :: rest := by
    rw [List.dropWhile_append_of_pos hall, List.dropWhile_cons_of_neg (by simp)]
  have htake : (line ++ stop :: rest).takeWhile (fun b => b ≠ stop) = line := by
    rw [List.takeWhile_append_of_pos hall,
      List.takeWhile_cons_of_neg (by simp), List.append_nil]
  unfold takeThrough
  rw [List.append_assoc, List.singleton_append, hdrop, htake]

theorem takeThrough_append (err : ε) {line : Bytes} (h : stop ∉ line)
    (s : Bytes) :
    takeThrough err stop (line ++ stop :: s) = .ok (line ++ [stop], s) := by
  have hread := reads_takeThrough err h s
  rwa [List.append_assoc, List.singleton_append] at hread

theorem takeThrough_of_not_mem (err : ε) (h : stop ∉ s) :
    takeThrough err stop s = .error err := by
  have hdrop : s.dropWhile (fun b => b ≠ stop) = [] := by
    rw [List.dropWhile_eq_nil_iff]
    intro b hb
    rw [decide_eq_true_eq]
    intro heq
    exact h (heq ▸ hb)
  unfold takeThrough
  rw [hdrop]

theorem append_stop_unique {a b : Bytes} (ha : stop ∉ a) (hb : stop ∉ b)
    (h : a ++ stop :: s = b ++ stop :: t) : a = b ∧ s = t := by
  have hread := takeThrough_append () ha s
  rw [h, takeThrough_append () hb t] at hread
  rcases Prod.mk.inj (Except.ok.inj hread) with ⟨hline, hrest⟩
  exact ⟨(List.append_inj_left' hline rfl).symm, hrest.symm⟩

theorem stop_cases (stop : UInt8) (s : Bytes) :
    stop ∉ s ∨ exists line rest, stop ∉ line ∧ s = line ++ stop :: rest := by
  by_cases hmem : stop ∈ s
  · rcases List.eq_append_cons_of_mem hmem with ⟨line, rest, hsplit, hline⟩
    exact Or.inr ⟨line, rest, hline, hsplit⟩
  · exact Or.inl hmem

end Foundation
end ChimeraMQ
