import ChimeraMQ.Foundation.Bytes

/-!
# Cursors

A cursor is a position in a byte string that only moves forward.  Taking bytes
beyond the end of the string, or a number out of too few bytes, is not possible
at all: a scan that has a result has kept within bounds.
-/

namespace ChimeraMQ
namespace Foundation

structure Cursor where
  data : Bytes
  pos : Nat

/-- What moves a cursor, unless it leaves the bounds. -/
abbrev Scan := StateT Cursor Option

def slice (data : Bytes) (lo hi : Nat) : Option Bytes :=
  if lo ≤ hi ∧ hi ≤ data.length then some ((data.drop lo).take (hi - lo))
  else none

def uintOf (w : Nat) (b : Bytes) : Option Nat :=
  if w ≤ b.length then some (ofBe (b.take w)) else none

namespace Cursor

def start (data : Bytes) : Cursor where
  data := data
  pos := 0

def len : Scan Nat :=
  fun r => some (r.data.length - r.pos, r)

def read (n : Nat) : Scan Bytes :=
  fun r =>
    let n := if r.pos + n > r.data.length then r.data.length - r.pos else n
    (slice r.data r.pos (r.pos + n)).map (fun b =>
      (b, { r with pos := r.pos + n }))

def readUint (w : Nat) : Scan Nat := do
  let b <- read w
  liftM (uintOf w b)

def rest : Scan Bytes :=
  fun r => (slice r.data r.pos r.data.length).map (fun b => (b, r))

structure At (r : Cursor) (s : Bytes) : Prop where
  inBounds : r.pos ≤ r.data.length
  drop_eq : r.data.drop r.pos = s

theorem at_start (data : Bytes) : At (start data) data where
  inBounds := Nat.zero_le _
  drop_eq := rfl

variable {s : Bytes}

theorem At.length {r : Cursor} (h : At r s) :
    r.data.length - r.pos = s.length := by
  rw [← h.drop_eq, List.length_drop]

def Gives {α : Type} (m : Scan α) (s : Bytes) (a : α) (t : Bytes) : Prop :=
  forall r, At r s -> exists r', m r = some (a, r') ∧ At r' t

variable {α : Type}

theorem Gives.pure (a : α) (s : Bytes) :
    Gives (pure a : Scan α) s a s :=
  fun r hr => ⟨r, rfl, hr⟩

theorem Gives.bind {β : Type} {m : Scan α} {f : α -> Scan β} {t u : Bytes}
    {a : α} {b : β} (h : Gives m s a t) (h' : Gives (f a) t b u) :
    Gives (m >>= f) s b u := by
  intro r hr
  rcases h r hr with ⟨r1, hm, hr1⟩
  rcases h' r1 hr1 with ⟨r2, hf, hr2⟩
  refine ⟨r2, ?_, hr2⟩
  change (m r >>= fun p => f p.1 p.2) = some (b, r2)
  rw [hm]
  exact hf

theorem Gives.map {β : Type} {m : Scan α} {t : Bytes} {a : α}
    (h : Gives m s a t) (g : α -> β) : Gives (g <$> m) s (g a) t := by
  intro r hr
  rcases h r hr with ⟨r1, hm, hr1⟩
  refine ⟨r1, ?_, hr1⟩
  change (m r >>= fun p => some (g p.1, p.2)) = some (g a, r1)
  rw [hm]
  rfl

theorem Gives.of_start {m : Scan α} {data t : Bytes} {a : α}
    (h : Gives m data a t) : (m (start data)).map Prod.fst = some a := by
  rcases h _ (at_start data) with ⟨r, hm, _⟩
  rw [hm]
  rfl

theorem gives_len (s : Bytes) : Gives len s s.length s := by
  intro r hr
  refine ⟨r, ?_, hr⟩
  unfold len
  rw [hr.length]

theorem gives_read (n : Nat) (s : Bytes) :
    Gives (read n) s (s.take n) (s.drop n) := by
  intro r hr
  have hlength := hr.length
  have hbound := hr.inBounds
  unfold read
  simp only
  split
  · rename_i hover
    have hle : s.length ≤ n := by omega
    refine ⟨{ r with pos := r.pos + (r.data.length - r.pos) }, ?_, ?_, ?_⟩
    · unfold slice
      rw [if_pos ⟨by omega, by omega⟩, hr.drop_eq,
        List.take_of_length_le hle, List.take_of_length_le (by omega)]
      rfl
    · show r.pos + (r.data.length - r.pos) ≤ r.data.length
      omega
    · show r.data.drop (r.pos + (r.data.length - r.pos)) = s.drop n
      rw [← List.drop_drop, hr.drop_eq, List.drop_eq_nil_of_le hle,
        List.drop_eq_nil_of_le (by omega)]
  · rename_i hroom
    refine ⟨{ r with pos := r.pos + n }, ?_, ?_, ?_⟩
    · unfold slice
      rw [if_pos ⟨by omega, by omega⟩, hr.drop_eq, Nat.add_sub_cancel_left]
      rfl
    · show r.pos + n ≤ r.data.length
      omega
    · show r.data.drop (r.pos + n) = s.drop n
      rw [← List.drop_drop, hr.drop_eq]

theorem gives_readUint {w : Nat} (hw : w ≤ s.length) :
    Gives (readUint w) s (ofBe (s.take w)) (s.drop w) := by
  refine (gives_read w s).bind ?_
  intro r hr
  have hlength : (s.take w).length = w := List.length_take_of_le hw
  refine ⟨r, ?_, hr⟩
  unfold uintOf
  rw [if_pos (Nat.le_of_eq hlength.symm), List.take_take, Nat.min_self]
  rfl

theorem gives_rest (s : Bytes) : Gives rest s s s := by
  intro r hr
  refine ⟨r, ?_, hr⟩
  unfold rest slice
  rw [if_pos ⟨hr.inBounds, Nat.le_refl _⟩, hr.drop_eq, hr.length,
    List.take_length]
  rfl

theorem gives_read_append (b u : Bytes) :
    Gives (read b.length) (b ++ u) b u := by
  have h := gives_read b.length (b ++ u)
  rwa [List.take_left, List.drop_left] at h

theorem gives_readUint_be (w n : Nat) (u : Bytes) :
    Gives (readUint w) (be w n ++ u) (n % 256 ^ w) u := by
  have hle : w ≤ (be w n ++ u).length := by
    rw [List.length_append, length_be]
    omega
  have h := gives_readUint hle
  rwa [List.take_left' (length_be w n), List.drop_left' (length_be w n),
    ofBe_be] at h

theorem gives_readUint_of_lt {w n : Nat} (hn : n < 256 ^ w) (u : Bytes) :
    Gives (readUint w) (be w n ++ u) n u := by
  have h := gives_readUint_be w n u
  rwa [Nat.mod_eq_of_lt hn] at h

end Cursor

end Foundation
end ChimeraMQ
