import Mathlib.Data.Char
import Mathlib.Data.List.Sort
import Mathlib.Data.List.Lex
import Mathlib.Data.Option.Basic
import ChimeraMQ.Foundation.Bytes

/-!
# Files

Files are numbered and keep their bytes; a directory gives names to some of
them. A file that has lost its name is still there for whoever has it open, and
a number is never used again.
-/

namespace ChimeraMQ
namespace Foundation

structure Disk where
  names : List (List Char × Nat)
  files : List Bytes
deriving DecidableEq

namespace Disk

def empty : Disk where
  names := []
  files := []

def lookup (d : Disk) (name : List Char) : Option Nat :=
  (d.names.find? (fun e => e.1 = name)).map Prod.snd

def content (d : Disk) (i : Nat) : Bytes :=
  (d.files[i]?).getD []

def setContent (d : Disk) (i : Nat) (b : Bytes) : Disk :=
  { d with files := d.files.set i b }

def openCreate (d : Disk) (name : List Char) : Disk × Nat :=
  match d.lookup name with
  | some i => (d, i)
  | none =>
    ({ names := d.names ++ [(name, d.files.length)]
       files := d.files ++ [[]] }, d.files.length)

def create (d : Disk) (name : List Char) : Disk × Nat :=
  let r := d.openCreate name
  (r.1.setContent r.2 [], r.2)

def remove (d : Disk) (name : List Char) : Disk :=
  { d with names := d.names.filter (fun e => e.1 ≠ name) }

def readDir (d : Disk) : List (List Char × Nat) :=
  d.names.insertionSort (fun a b => a.1 ≤ b.1)

variable {d : Disk}

theorem readDir_of_sorted (hsorted : d.names.Pairwise (fun a b => a.1 < b.1)) :
    d.readDir = d.names := by
  apply List.Pairwise.insertionSort_eq
  exact hsorted.imp (fun h => le_of_lt h)

variable {name : List Char}

theorem openCreate_of_lookup_none (hnone : d.lookup name = none) :
    d.openCreate name =
      ({ names := d.names ++ [(name, d.files.length)]
         files := d.files ++ [[]] }, d.files.length) := by
  unfold openCreate
  rw [hnone]

theorem lookup_eq_none (hnot : forall e, e ∈ d.names -> e.1 ≠ name) :
    d.lookup name = none := by
  unfold lookup
  rw [Option.map_eq_none_iff, List.find?_eq_none]
  intro e he
  simpa using hnot e he

/-!
## Proper directories

In a proper directory every name stands for a file of its own.
-/

structure Proper (d : Disk) : Prop where
  names_ne : d.names.Pairwise (fun a b => a.1 ≠ b.1)
  files_ne : d.names.Pairwise (fun a b => a.2 ≠ b.2)
  files_lt : forall e, e ∈ d.names -> e.2 < d.files.length

theorem proper_empty : empty.Proper where
  names_ne := List.Pairwise.nil
  files_ne := List.Pairwise.nil
  files_lt := by
    intro e he
    cases he

theorem eq_or_rel_of_pairwise {α : Type} {R : α -> α -> Prop} {xs : List α}
    (h : xs.Pairwise R) {x y : α} (hx : x ∈ xs) (hy : y ∈ xs) :
    x = y ∨ R x y ∨ R y x := by
  induction xs with
  | nil => cases hx
  | cons z zs ih =>
  rcases List.pairwise_cons.mp h with ⟨hhead, htail⟩
  rcases List.mem_cons.mp hx with hxz | hxs
  · rcases List.mem_cons.mp hy with hyz | hys
    · rw [hxz, hyz]
      exact Or.inl rfl
    · subst hxz
      exact Or.inr (Or.inl (hhead y hys))
  rcases List.mem_cons.mp hy with hyz | hys
  · subst hyz
    exact Or.inr (Or.inr (hhead x hxs))
  · exact ih htail hxs hys

theorem eq_of_pairwise_ne {α β : Type} {f : α -> β} {xs : List α}
    (h : xs.Pairwise (fun a b => f a ≠ f b)) {x y : α} (hx : x ∈ xs)
    (hy : y ∈ xs) (heq : f x = f y) : x = y := by
  rcases eq_or_rel_of_pairwise h hx hy with hsame | hne | hne
  · exact hsame
  · exact absurd heq hne
  · exact absurd heq.symm hne

theorem Proper.eq_of_name_eq (hd : d.Proper) {a b : List Char × Nat}
    (ha : a ∈ d.names) (hb : b ∈ d.names) (h : a.1 = b.1) : a = b :=
  eq_of_pairwise_ne hd.names_ne ha hb h

theorem Proper.eq_of_file_eq (hd : d.Proper) {a b : List Char × Nat}
    (ha : a ∈ d.names) (hb : b ∈ d.names) (h : a.2 = b.2) : a = b :=
  eq_of_pairwise_ne hd.files_ne ha hb h

variable {i : Nat}

theorem mem_names_of_lookup (h : d.lookup name = some i) :
    (name, i) ∈ d.names := by
  unfold lookup at h
  rcases Option.map_eq_some_iff.mp h with ⟨e, he, hi⟩
  have hname : e.1 = name := by
    simpa using List.find?_some he
  rw [← hname, ← hi]
  exact List.mem_of_find?_eq_some he

theorem names_ne_of_lookup_none (h : d.lookup name = none) {e : List Char × Nat}
    (he : e ∈ d.names) :
    e.1 ≠ name := by
  unfold lookup at h
  rw [Option.map_eq_none_iff, List.find?_eq_none] at h
  simpa using h e he

theorem Proper.lookup_eq_some (hd : d.Proper) (h : (name, i) ∈ d.names) :
    d.lookup name = some i := by
  cases hlook : d.lookup name with
  | none =>
    exact absurd rfl (names_ne_of_lookup_none hlook h)
  | some j =>
  have heq := hd.eq_of_name_eq (mem_names_of_lookup hlook) h rfl
  rw [Prod.mk.injEq] at heq
  rw [heq.right]

/-!
## Adding, changing and removing files
-/

def addFile (d : Disk) (name : List Char) (b : Bytes) : Disk where
  names := d.names ++ [(name, d.files.length)]
  files := d.files ++ [b]

def writeFile (d : Disk) (name : List Char) (b : Bytes) : Disk :=
  (d.remove name).addFile name b

theorem openCreate_of_lookup_some (h : d.lookup name = some i) :
    d.openCreate name = (d, i) := by
  unfold openCreate
  rw [h]

theorem setContent_addFile (d : Disk) (name : List Char) (b c : Bytes) :
    (d.addFile name b).setContent d.files.length c = d.addFile name c := by
  simp [addFile, setContent]

theorem setContent_content (d : Disk) (i : Nat) :
    d.setContent i (d.content i) = d := by
  by_cases hlt : i < d.files.length
  · simp [setContent, content, hlt]
  · rw [setContent, List.set_eq_of_length_le (Nat.le_of_not_lt hlt)]

theorem setContent_setContent (d : Disk) (i : Nat) (b c : Bytes) :
    (d.setContent i b).setContent i c = d.setContent i c := by
  simp [setContent]

theorem content_setContent (hlt : i < d.files.length) (b : Bytes) :
    (d.setContent i b).content i = b := by
  simp [setContent, content, hlt]

theorem content_setContent_ne (d : Disk) {j : Nat} (hne : i ≠ j) (b : Bytes) :
    (d.setContent i b).content j = d.content j := by
  simp [setContent, content, hne]

theorem content_addFile (d : Disk) (name : List Char) (b : Bytes) :
    (d.addFile name b).content d.files.length = b := by
  simp [addFile, content]

theorem content_addFile_of_lt (hlt : i < d.files.length) (name : List Char)
    (b : Bytes) :
    (d.addFile name b).content i = d.content i := by
  rw [content, content, addFile, List.getElem?_append_left hlt]

theorem content_remove (d : Disk) (name : List Char) (i : Nat) :
    (d.remove name).content i = d.content i := rfl

theorem lt_of_content_ne_nil (h : d.content i ≠ []) :
    i < d.files.length := by
  by_contra hge
  apply h
  simp [content, Nat.le_of_not_lt hge]

theorem Proper.setContent (hd : d.Proper) (i : Nat) (b : Bytes) :
    (d.setContent i b).Proper where
  names_ne := hd.names_ne
  files_ne := hd.files_ne
  files_lt := by
    intro e he
    rw [Disk.setContent, List.length_set]
    exact hd.files_lt e he

theorem Proper.addFile (hd : d.Proper) (hnone : d.lookup name = none)
    (b : Bytes) : (d.addFile name b).Proper where
  names_ne := by
    apply List.pairwise_append.mpr
    refine ⟨hd.names_ne, List.pairwise_singleton .., ?_⟩
    intro e he x hx
    rw [List.mem_singleton.mp hx]
    exact names_ne_of_lookup_none hnone he
  files_ne := by
    apply List.pairwise_append.mpr
    refine ⟨hd.files_ne, List.pairwise_singleton .., ?_⟩
    intro e he x hx
    rw [List.mem_singleton.mp hx]
    exact Nat.ne_of_lt (hd.files_lt e he)
  files_lt := by
    intro e he
    rw [Disk.addFile, List.length_append, List.length_singleton]
    rcases List.mem_append.mp he with hold | hnew
    · exact Nat.lt_succ_of_lt (hd.files_lt e hold)
    · rw [List.mem_singleton.mp hnew]
      exact Nat.lt_succ_self _

theorem mem_names_remove {e : List Char × Nat} :
    e ∈ (d.remove name).names <-> e ∈ d.names ∧ e.1 ≠ name := by
  simp [remove]

theorem Proper.remove (hd : d.Proper) (name : List Char) :
    (d.remove name).Proper where
  names_ne := hd.names_ne.filter _
  files_ne := hd.files_ne.filter _
  files_lt := fun e he => hd.files_lt e (mem_names_remove.mp he).left

theorem content_of_files {d' : Disk} (h : d'.files = d.files) (i : Nat) :
    d'.content i = d.content i := by
  rw [content, content, h]

theorem lookup_addFile {path : List Char} (hfresh : d.lookup path = none)
    (b : Bytes) :
    (d.addFile path b).lookup path = some d.files.length := by
  unfold lookup at hfresh
  unfold addFile lookup
  rw [List.find?_append, Option.map_eq_none_iff.mp hfresh]
  simp

theorem lookup_addFile_ne {path other : List Char} (hne : other ≠ path)
    (b : Bytes) :
    (d.addFile path b).lookup other = d.lookup other := by
  unfold addFile lookup
  rw [List.find?_append]
  simp [hne.symm]

/-!
## Files that come and go
-/

def Extends (d d' : Disk) : Prop :=
  d.files.length ≤ d'.files.length ∧
    forall i, i < d.files.length -> d'.content i = d.content i

theorem Extends.refl (d : Disk) : d.Extends d :=
  ⟨Nat.le_refl _, fun _ _ => rfl⟩

theorem Extends.trans {a b c : Disk} (hab : a.Extends b) (hbc : b.Extends c) :
    a.Extends c := by
  refine ⟨Nat.le_trans hab.left hbc.left, ?_⟩
  intro i hi
  rw [hbc.right i (Nat.lt_of_lt_of_le hi hab.left), hab.right i hi]

theorem extends_remove (d : Disk) (name : List Char) :
    d.Extends (d.remove name) :=
  ⟨Nat.le_refl _, fun i _ => content_remove d name i⟩

theorem extends_writeFile (d : Disk) (name : List Char) (b : Bytes) :
    d.Extends (d.writeFile name b) := by
  constructor
  · simp [writeFile, addFile, remove]
  · intro i hi
    exact content_addFile_of_lt (d := d.remove name) hi name b

theorem lookup_remove_ne (d : Disk) {other : List Char} (hne : other ≠ name) :
    (d.remove name).lookup other = d.lookup other := by
  unfold lookup remove
  rw [List.find?_filter]
  congr 2
  funext e
  by_cases he : e.1 = other
  · simp [he, hne]
  · simp [he]

theorem lookup_writeFile_self (d : Disk) (name : List Char) (b : Bytes) :
    (d.writeFile name b).lookup name = some d.files.length := by
  have hnone : (d.remove name).names.find? (fun e => e.1 = name) = none := by
    rw [List.find?_eq_none]
    intro e he
    simpa using (mem_names_remove.mp he).right
  unfold writeFile addFile lookup
  rw [List.find?_append, hnone]
  simp [remove]

theorem lookup_writeFile_ne (d : Disk) {other : List Char} (hne : other ≠ name)
    (b : Bytes) :
    (d.writeFile name b).lookup other = d.lookup other := by
  rw [← lookup_remove_ne d hne]
  unfold writeFile addFile lookup
  rw [List.find?_append]
  simp [hne.symm]

theorem content_writeFile_self (d : Disk) (name : List Char) (b : Bytes) :
    (d.writeFile name b).content d.files.length = b :=
  content_addFile (d.remove name) name b

end Disk

/-!
## Replacing a file by way of a temporary one

The new text is written to a temporary file beside the old one, which it then
takes the name of.  Each of these steps may fail, and a text may be left written
in part; what the file itself holds changes in the last step only.
-/

section

variable {α : Type}

/-- A file and the temporary one beside it, neither of which need exist. -/
structure FilePair (α : Type) where
  current : Option α
  temporary : Option α
deriving DecidableEq

/-- What goes wrong when a file is replaced. -/
inductive ReplaceFault (α : Type) where
  | create
  | write (written : α)
  | rename
deriving DecidableEq

namespace FilePair

def empty : FilePair α where
  current := none
  temporary := none

def replace (f : FilePair α) (data : α) :
    Option (ReplaceFault α) -> FilePair α × Option (ReplaceFault α)
  | none => ({ current := some data, temporary := none }, none)
  | some .create => (f, some .create)
  | some (.write written) =>
    ({ f with temporary := some written }, some (.write written))
  | some .rename => ({ f with temporary := some data }, some .rename)

@[simp] theorem replace_snd (f : FilePair α) (data : α)
    (fault : Option (ReplaceFault α)) : (f.replace data fault).2 = fault := by
  cases fault with
  | none => rfl
  | some fault =>
  cases fault with
  | create => rfl
  | write written => rfl
  | rename => rfl

@[simp] theorem current_replace_none (f : FilePair α) (data : α) :
    (f.replace data none).1.current = some data := rfl

@[simp] theorem current_replace_some (f : FilePair α) (data : α)
    (fault : ReplaceFault α) :
    (f.replace data (some fault)).1.current = f.current := by
  cases fault with
  | create => rfl
  | write written => rfl
  | rename => rfl

end FilePair

end

/-!
## A buffered writer on a file

Writes go through a buffer of a fixed size to the position of an open file,
which advances with them.  A writer that stands at the end of its file appends:
what is in the file and in the buffer together is what was written.
-/

/-- An open file, its write position and the bytes not yet written to it. -/
structure BufferedWriter where
  file : Bytes
  pos : Nat
  buf : Bytes

namespace BufferedWriter

def direct (w : BufferedWriter) (p : Bytes) : BufferedWriter :=
  { w with file := writeAt w.file w.pos p, pos := w.pos + p.length }

def flush (w : BufferedWriter) : BufferedWriter :=
  { w.direct w.buf with buf := [] }

/--
Bytes that do not fit fill the buffer and flush it; what is left then goes into
the buffer or, if too long, straight to the file.
-/
def write (size : Nat) (w : BufferedWriter) (p : Bytes) : BufferedWriter :=
  if p.length ≤ size - w.buf.length then { w with buf := w.buf ++ p }
  else if w.buf = [] then w.direct p
  else
    let n := size - w.buf.length
    let w := { w with buf := w.buf ++ p.take n }.flush
    let p := p.drop n
    if p.length ≤ size then { w with buf := p } else w.direct p

def written (w : BufferedWriter) : Bytes :=
  w.file ++ w.buf

def Appends (w : BufferedWriter) : Prop :=
  w.pos = w.file.length

theorem Appends.direct {w : BufferedWriter} (hw : w.Appends) (p : Bytes) :
    (w.direct p).Appends ∧ (w.direct p).file = w.file ++ p ∧
      (w.direct p).buf = w.buf := by
  unfold Appends at hw ⊢
  unfold BufferedWriter.direct
  simp only [hw, writeAt_length, List.length_append, and_self]

theorem Appends.flush {w : BufferedWriter} (hw : w.Appends) :
    w.flush.Appends ∧ w.flush.file = w.written ∧ w.flush.buf = [] := by
  rcases hw.direct w.buf with ⟨happends, hfile, _⟩
  exact ⟨happends, hfile, rfl⟩

theorem Appends.write {w : BufferedWriter} (hw : w.Appends) (size : Nat)
    (p : Bytes) :
    (w.write size p).Appends ∧
      (w.write size p).written = w.written ++ p := by
  unfold BufferedWriter.write
  by_cases hfits : p.length ≤ size - w.buf.length
  · rw [if_pos hfits]
    exact ⟨hw, (List.append_assoc ..).symm⟩
  rw [if_neg hfits]
  by_cases hempty : w.buf = []
  · rw [if_pos hempty]
    rcases hw.direct p with ⟨happends, hfile, hbuf⟩
    refine ⟨happends, ?_⟩
    rw [written, written, hfile, hbuf, hempty, List.append_nil,
      List.append_nil]
  rw [if_neg hempty]
  have hfilled : BufferedWriter.Appends
      { w with buf := w.buf ++ p.take (size - w.buf.length) } := hw
  rcases hfilled.flush with ⟨happends, hfile, hbuf⟩
  have hall : w.file ++ (w.buf ++ p.take (size - w.buf.length)) ++
      p.drop (size - w.buf.length) = w.file ++ w.buf ++ p := by
    rw [List.append_assoc, List.append_assoc w.buf, List.take_append_drop,
      List.append_assoc]
  by_cases hrest : (p.drop (size - w.buf.length)).length ≤ size
  · simp only [hrest, if_true]
    refine ⟨happends, ?_⟩
    rw [written, hfile]
    exact hall
  simp only [hrest, if_false]
  rcases happends.direct (p.drop (size - w.buf.length)) with
    ⟨happends', hfile', hbuf'⟩
  refine ⟨happends', ?_⟩
  rw [written, hfile', hfile, hbuf', hbuf, List.append_nil]
  exact hall

end BufferedWriter

end Foundation
end ChimeraMQ
