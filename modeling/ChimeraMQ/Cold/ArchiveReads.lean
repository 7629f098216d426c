import ChimeraMQ.Cold.Archive
import ChimeraMQ.Warm.TableStore

/-!
# Reading an archive back

An archive gives for an offset what the map that it was written from holds, as
long as no segment starts beyond or is longer than 4 GiB.  A deleted offset
gives no bytes, not nothing.
-/

namespace ChimeraMQ
namespace Cold

open Foundation
open Warm

def serializeAll (entries : List ArchiveEntry) : Bytes :=
  entries.flatMap serializeEntry

def answer (r : Bytes × Bool) : Bytes :=
  if r.2 then [] else r.1

theorem length_serializeEntry (e : ArchiveEntry) :
    (serializeEntry e).length = 13 + e.2.1.length := by
  simp only [serializeEntry, List.length_append, length_be,
    List.length_singleton]

theorem serializeAll_cons (e : ArchiveEntry) (entries : List ArchiveEntry) :
    serializeAll (e :: entries) = serializeEntry e ++ serializeAll entries :=
  List.flatMap_cons

theorem serializeAll_append (xs ys : List ArchiveEntry) :
    serializeAll (xs ++ ys) = serializeAll xs ++ serializeAll ys :=
  List.flatMap_append

theorem length_le_serializeAll (entries : List ArchiveEntry) :
    entries.length ≤ (serializeAll entries).length := by
  induction entries with
  | nil => exact Nat.zero_le _
  | cons e entries ih =>
  rw [serializeAll_cons, List.length_append, length_serializeEntry,
    List.length_cons]
  omega

theorem length_value_lt {e : ArchiveEntry} {entries : List ArchiveEntry}
    (he : e ∈ entries) : e.2.1.length < (serializeAll entries).length := by
  rcases List.append_of_mem he with ⟨front, back, hsplit⟩
  rw [hsplit, serializeAll_append, serializeAll_cons, List.length_append,
    List.length_append, length_serializeEntry]
  omega

/-!
## Scanning
-/

theorem scanArchive_cons {e : ArchiveEntry} (hoff : e.1 < 2 ^ 64)
    (hvalue : e.2.1.length < 2 ^ 32) (offset k : Nat) (tail : Bytes) :
    scanArchive offset (k + 1) (serializeEntry e ++ tail) =
      if e.1 = offset then some (answer e.2) else scanArchive offset k tail := by
  rcases e with ⟨off, value, deleted⟩
  have hoff' : ofBe (be 8 off) = off := ofBe_be_of_lt hoff
  have hlen : ofBe (be 4 value.length) = value.length := ofBe_be_of_lt hvalue
  have hshape : serializeEntry (off, value, deleted) ++ tail =
      be 8 off ++ ((if deleted then 1 else 0) :: (be 4 value.length ++
        (value ++ tail))) := by
    simp [serializeEntry]
  have hflag : (be 8 off ++ ((if deleted then 1 else 0) ::
      (be 4 value.length ++ (value ++ tail)))).drop 8 =
      (if deleted then 1 else 0) :: (be 4 value.length ++ (value ++ tail)) :=
    List.drop_left' (length_be 8 off)
  have hvalLen : (be 8 off ++ ((if deleted then 1 else 0) ::
      (be 4 value.length ++ (value ++ tail)))).drop 9 =
      be 4 value.length ++ (value ++ tail) := by
    rw [← List.drop_drop (i := 1) (j := 8), hflag, List.drop_one, List.tail_cons]
  have hdata : (be 8 off ++ ((if deleted then 1 else 0) ::
      (be 4 value.length ++ (value ++ tail)))).drop 13 = value ++ tail := by
    rw [← List.drop_drop (i := 4) (j := 9), hvalLen]
    exact List.drop_left' (length_be 4 _)
  have hnext : (be 8 off ++ ((if deleted then 1 else 0) ::
      (be 4 value.length ++ (value ++ tail)))).drop (13 + value.length) =
      tail := by
    rw [← List.drop_drop, hdata]
    exact List.drop_left' rfl
  have hlong : (be 8 off ++ ((if deleted then 1 else 0) ::
      (be 4 value.length ++ (value ++ tail)))).length =
      13 + value.length + tail.length := by
    simp only [List.length_append, List.length_cons, length_be]
    omega
  rw [hshape, scanArchive]
  simp only [hlong, hvalLen, hflag, hdata, hnext, hoff', hlen,
    List.take_left' (length_be 8 off),
    List.take_left' (length_be 4 value.length), List.take_left]
  rw [if_neg (by omega), if_neg (by omega)]
  by_cases hsame : off = offset
  · rw [if_pos hsame, if_pos hsame]
    cases deleted with
    | true => rfl
    | false => rfl
  · rw [if_neg hsame, if_neg hsame]

theorem scanArchive_serializeAll (offset : Nat) {entries : List ArchiveEntry}
    (hoffs : forall e, e ∈ entries -> e.1 < 2 ^ 64)
    (hvalues : forall e, e ∈ entries -> e.2.1.length < 2 ^ 32) {k : Nat}
    (hk : entries.length ≤ k) :
    scanArchive offset k (serializeAll entries) =
      (getEntry offset entries).map answer := by
  induction entries generalizing k with
  | nil =>
    cases k with
    | zero => rfl
    | succ k => rfl
  | cons e entries ih =>
  cases k with
  | zero => cases hk
  | succ k =>
  rw [serializeAll_cons, scanArchive_cons
    (hoffs e (List.mem_cons_self ..))
    (hvalues e (List.mem_cons_self ..))]
  by_cases hsame : e.1 = offset
  · rw [if_pos hsame, ← hsame]
    have hfirst : getEntry e.1 (e :: entries) = some e.2 :=
      getEntry_cons_self e.1 e.2 entries
    rw [hfirst]
    rfl
  rw [if_neg hsame, getEntry_cons_ne hsame]
  exact ih (fun x hx => hoffs x (List.mem_cons_of_mem e hx))
    (fun x hx => hvalues x (List.mem_cons_of_mem e hx))
    (Nat.le_of_succ_le_succ hk)

/-!
## Segments
-/

def indexFrom : Nat -> List (List ArchiveEntry) -> List ArchiveSegIndex
  | _, [] => []
  | start, g :: groups =>
    { offset := (g.head?.map Prod.fst).getD 0
      position := start
      length := (serializeAll g).length } ::
        indexFrom (start + (serializeAll g).length) groups

def groupsBytes (groups : List (List ArchiveEntry)) : Bytes :=
  groups.flatMap serializeAll

theorem indexFrom_concat (start : Nat) (groups : List (List ArchiveEntry))
    (g : List ArchiveEntry) :
    indexFrom start (groups ++ [g]) = indexFrom start groups ++
      [{ offset := (g.head?.map Prod.fst).getD 0
         position := start + (groupsBytes groups).length
         length := (serializeAll g).length }] := by
  induction groups generalizing start with
  | nil => rfl
  | cons h groups ih =>
  rw [List.cons_append, indexFrom, indexFrom, ih]
  simp only [groupsBytes, List.flatMap_cons, List.length_append,
    List.cons_append, Nat.add_assoc]

structure Built (b : ArchiveBuilder) (groups : List (List ArchiveEntry))
    (pending : List ArchiveEntry) : Prop where
  dataBuf : b.dataBuf = groupsBytes groups
  segIdx : b.segIdx = indexFrom 0 groups
  segData : b.segData = serializeAll pending
  count : b.count = pending.length
  first : pending ≠ [] -> (pending.head?.map Prod.fst).getD 0 = b.segFirstOff
  nonempty : forall g, g ∈ groups -> g ≠ []

theorem built_empty : Built .empty [] [] where
  dataBuf := rfl
  segIdx := rfl
  segData := rfl
  count := rfl
  first := fun h => absurd rfl h
  nonempty := fun _ hg => absurd hg List.not_mem_nil

variable {groups : List (List ArchiveEntry)}

theorem Built.head {b : ArchiveBuilder} {pending : List ArchiveEntry}
    (h : Built b groups pending) (e : ArchiveEntry) :
    ((pending ++ [e]).head?.map Prod.fst).getD 0 =
      if b.count = 0 then e.1 else b.segFirstOff := by
  cases pending with
  | nil =>
    have hcount : b.count = 0 := h.count
    rw [if_pos hcount]
    rfl
  | cons x rest =>
  have hcount : b.count ≠ 0 := by
    rw [h.count]
    exact Nat.succ_ne_zero _
  rw [if_neg hcount]
  exact h.first (List.cons_ne_nil x rest)

theorem Built.add {b : ArchiveBuilder} {pending : List ArchiveEntry}
    (h : Built b groups pending) (maxOff : Nat) (e : ArchiveEntry) :
    exists groups' pending', Built (b.add maxOff e) groups' pending' ∧
      groups'.flatten ++ pending' = groups.flatten ++ pending ++ [e] ∧
      (e.1 = maxOff -> pending' = []) := by
  have hdata : b.segData ++ serializeEntry e = serializeAll (pending ++ [e]) := by
    rw [h.segData, serializeAll_append]
    simp [serializeAll]
  unfold ArchiveBuilder.add
  simp only [hdata]
  by_cases hends : b.count + 1 ≥ segmentEntries ∨ e.1 = maxOff
  · rw [if_pos hends]
    refine ⟨groups ++ [pending ++ [e]], [], ?_, by simp, fun _ => rfl⟩
    exact
      { dataBuf := by
          rw [h.dataBuf]
          simp [groupsBytes]
        segIdx := by
          rw [indexFrom_concat, ← h.segIdx, h.head e, h.dataBuf, Nat.zero_add]
        segData := rfl
        count := rfl
        first := fun hne => absurd rfl hne
        nonempty := by
          intro g hg
          rcases List.mem_append.mp hg with hold | hnew
          · exact h.nonempty g hold
          · rw [List.mem_singleton.mp hnew]
            simp }
  · rw [if_neg hends]
    refine ⟨groups, pending ++ [e], ?_, by simp, fun hlast =>
      absurd (Or.inr hlast) hends⟩
    exact
      { dataBuf := h.dataBuf
        segIdx := h.segIdx
        segData := rfl
        count := by rw [h.count, List.length_append, List.length_singleton]
        first := fun _ => h.head e
        nonempty := h.nonempty }

theorem Built.foldl {b : ArchiveBuilder} {pending : List ArchiveEntry}
    (h : Built b groups pending) (maxOff : Nat) (entries : List ArchiveEntry) :
    exists groups' pending',
      Built (entries.foldl (ArchiveBuilder.add maxOff) b) groups' pending' ∧
      groups'.flatten ++ pending' = groups.flatten ++ pending ++ entries := by
  induction entries generalizing b groups pending with
  | nil => exact ⟨groups, pending, h, (List.append_nil _).symm⟩
  | cons e entries ih =>
  rcases h.add maxOff e with ⟨groups', pending', hadd, hflat, _⟩
  rcases ih hadd with ⟨groups'', pending'', hfold, hall⟩
  refine ⟨groups'', pending'', hfold, ?_⟩
  rw [hall, hflat, List.append_assoc, List.singleton_append]

theorem buildSegments_concat (maxOff : Nat) (front : List ArchiveEntry)
    (r : Bytes × Bool) :
    exists groups, Built (buildSegments maxOff (front ++ [(maxOff, r)]))
        groups [] ∧
      groups.flatten = front ++ [(maxOff, r)] := by
  rcases built_empty.foldl maxOff front with ⟨groups, pending, hfold, hflat⟩
  rcases hfold.add maxOff (maxOff, r) with
    ⟨groups', pending', hadd, hall, hnone⟩
  rw [hnone rfl] at hadd hall
  refine ⟨groups', ?_, ?_⟩
  · unfold buildSegments
    rw [List.foldl_append]
    exact hadd
  · rw [List.append_nil] at hall
    rw [hall, hflat]
    rfl

/-- No segment starts beyond or is longer than 4 GiB. -/
def ArchiveFits (maxOff : Nat) (entries : List ArchiveEntry) : Prop :=
  forall si, si ∈ (buildSegments maxOff entries).segIdx ->
    si.position < 2 ^ 32 ∧ si.length < 2 ^ 32

instance (maxOff : Nat) (entries : List ArchiveEntry) :
    Decidable (ArchiveFits maxOff entries) :=
  inferInstanceAs (Decidable (forall si, si ∈ _ -> _ ∧ _))

/-!
## The file
-/

theorem parseSegIndex_flatMap {index : List ArchiveSegIndex}
    (hoffs : forall si, si ∈ index -> si.offset < 2 ^ 64)
    (hfits : forall si, si ∈ index -> si.position < 2 ^ 32 ∧
      si.length < 2 ^ 32) (tail : Bytes) :
    parseSegIndex index.length (index.flatMap serializeSegIndex ++ tail) =
      index := by
  induction index with
  | nil => rfl
  | cons si index ih =>
  have hoff : ofBe (be 8 si.offset) = si.offset :=
    ofBe_be_of_lt (hoffs si (List.mem_cons_self ..))
  have hfit := hfits si (List.mem_cons_self ..)
  have hpos : ofBe (be 4 si.position) = si.position :=
    ofBe_be_of_lt hfit.left
  have hlen : ofBe (be 4 si.length) = si.length := ofBe_be_of_lt hfit.right
  have hshape : (si :: index).flatMap serializeSegIndex ++ tail =
      be 8 si.offset ++ (be 4 si.position ++ (be 4 si.length ++
        (index.flatMap serializeSegIndex ++ tail))) := by
    simp [serializeSegIndex]
  have hsecond : (be 8 si.offset ++ (be 4 si.position ++ (be 4 si.length ++
      (index.flatMap serializeSegIndex ++ tail)))).drop 8 =
      be 4 si.position ++ (be 4 si.length ++
        (index.flatMap serializeSegIndex ++ tail)) :=
    List.drop_left' (length_be 8 _)
  have hthird : (be 8 si.offset ++ (be 4 si.position ++ (be 4 si.length ++
      (index.flatMap serializeSegIndex ++ tail)))).drop 12 =
      be 4 si.length ++ (index.flatMap serializeSegIndex ++ tail) := by
    rw [← List.drop_drop (i := 4) (j := 8), hsecond]
    exact List.drop_left' (length_be 4 _)
  have hrest : (be 8 si.offset ++ (be 4 si.position ++ (be 4 si.length ++
      (index.flatMap serializeSegIndex ++ tail)))).drop 16 =
      index.flatMap serializeSegIndex ++ tail := by
    rw [← List.drop_drop (i := 4) (j := 12), hthird]
    exact List.drop_left' (length_be 4 _)
  rw [hshape, List.length_cons, parseSegIndex, hsecond, hthird, hrest,
    List.take_left' (length_be 8 _), List.take_left' (length_be 4 _),
    List.take_left' (length_be 4 _), hoff, hpos, hlen,
    ih (fun x hx => hoffs x (List.mem_cons_of_mem si hx))
      (fun x hx => hfits x (List.mem_cons_of_mem si hx))]

variable {start : Nat}

theorem length_indexFrom {bound : Nat}
    (hnonempty : forall g, g ∈ groups -> g ≠ [])
    (hfits : forall si, si ∈ indexFrom start groups -> si.position < bound) :
    groups = [] ∨ start + 2 * (indexFrom start groups).length < bound + 2 := by
  induction groups generalizing start with
  | nil => exact Or.inl rfl
  | cons g groups ih =>
  have hlong : 2 ≤ (serializeAll g).length := by
    cases g with
    | nil => exact absurd rfl (hnonempty [] (List.mem_cons_self ..))
    | cons e g =>
    rw [serializeAll_cons, List.length_append, length_serializeEntry]
    omega
  have hfirst : start < bound := hfits _ (List.mem_cons_self ..)
  apply Or.inr
  rw [indexFrom, List.length_cons]
  rcases ih (fun x hx => hnonempty x (List.mem_cons_of_mem g hx))
    (fun si hsi => hfits si (List.mem_cons_of_mem _ hsi)) with hnil | hrest
  · rw [hnil, indexFrom, List.length_nil]
    omega
  · omega

theorem length_lt_of_indexFrom {bound : Nat}
    (hfits : forall si, si ∈ indexFrom start groups -> si.length < bound)
    {g : List ArchiveEntry} (hg : g ∈ groups) :
    (serializeAll g).length < bound := by
  induction groups generalizing start with
  | nil => cases hg
  | cons h groups ih =>
  rcases List.mem_cons.mp hg with hfirst | hrest
  · rw [hfirst]
    exact hfits _ (List.mem_cons_self ..)
  · exact ih (fun si hsi => hfits si (List.mem_cons_of_mem _ hsi)) hrest

theorem offset_lt_of_indexFrom {bound : Nat} (hbound : 0 < bound)
    (hoffs : forall e, e ∈ groups.flatten -> e.1 < bound) {si : ArchiveSegIndex}
    (hsi : si ∈ indexFrom start groups) :
    si.offset < bound := by
  induction groups generalizing start with
  | nil => cases hsi
  | cons g groups ih =>
  rcases List.mem_cons.mp hsi with hfirst | hrest
  · rw [hfirst]
    cases g with
    | nil => exact hbound
    | cons e g => exact hoffs e (List.mem_cons_self ..)
  · exact ih (fun e he => hoffs e (List.mem_append_right _ he)) hrest

def archiveOf (path : List Char) (file minOff maxOff : Nat)
    (entries : List ArchiveEntry) : ColdArchive where
  path := path
  file := file
  minOff := minOff
  maxOff := maxOff
  segIndex := (buildSegments maxOff entries).segIdx

theorem length_header (minOff maxOff segCount : Nat) :
    (header minOff maxOff segCount).length = archiveHeader := by
  simp [header, archiveHeader]

theorem header_fields (minOff maxOff segCount : Nat) :
    (header minOff maxOff segCount).take 4 = be 4 archiveMagic ∧
      ((header minOff maxOff segCount).drop 8).take 8 = be 8 minOff ∧
      ((header minOff maxOff segCount).drop 16).take 8 = be 8 maxOff ∧
      ((header minOff maxOff segCount).drop 40).take 4 = be 4 segCount := by
  have hmin : (header minOff maxOff segCount).drop 8 =
      be 8 minOff ++ (be 8 maxOff ++ (be 8 0 ++ (be 8 0 ++ (be 4 segCount ++
        List.replicate 20 0)))) := by
    simp only [header, List.append_assoc]
    rw [← List.append_assoc]
    exact List.drop_left' rfl
  have hmax : (header minOff maxOff segCount).drop 16 =
      be 8 maxOff ++ (be 8 0 ++ (be 8 0 ++ (be 4 segCount ++
        List.replicate 20 0))) := by
    rw [← List.drop_drop (i := 8) (j := 8), hmin]
    exact List.drop_left' (length_be 8 _)
  have hcount : (header minOff maxOff segCount).drop 40 =
      be 4 segCount ++ List.replicate 20 0 := by
    rw [← List.drop_drop (i := 24) (j := 16), hmax,
      ← List.drop_drop (i := 16) (j := 8), List.drop_left' (length_be 8 _),
      ← List.append_assoc (be 8 0)]
    exact List.drop_left' rfl
  refine ⟨?_, ?_, ?_, ?_⟩
  · simp only [header, List.append_assoc]
    exact List.take_left' (length_be 4 _)
  · rw [hmin]
    exact List.take_left' (length_be 8 _)
  · rw [hmax]
    exact List.take_left' (length_be 8 _)
  · rw [hcount]
    exact List.take_left' (length_be 4 _)

theorem openArchive_archiveBytes {minOff maxOff : Nat}
    {entries : List ArchiveEntry} (hmin : minOff < 2 ^ 64)
    (hmax : maxOff < 2 ^ 64)
    (hoffs : forall si, si ∈ (buildSegments maxOff entries).segIdx ->
      si.offset < 2 ^ 64)
    (hfits : ArchiveFits maxOff entries)
    (hcount : (buildSegments maxOff entries).segIdx.length < 2 ^ 32)
    (path : List Char) (file : Nat) :
    openArchive path file (archiveBytes minOff maxOff entries) =
      .ok (archiveOf path file minOff maxOff entries) := by
  have hindexLen : forall index : List ArchiveSegIndex,
      (index.flatMap serializeSegIndex).length = index.length * 16 := by
    intro index
    induction index with
    | nil => rfl
    | cons si index ih =>
    rw [List.flatMap_cons, List.length_append, ih, List.length_cons]
    simp only [serializeSegIndex, List.length_append, length_be]
    omega
  unfold archiveBytes archiveOf
  simp only
  generalize hbuilt : buildSegments maxOff entries = built at *
  unfold ArchiveFits at hfits
  rw [hbuilt] at hfits
  have hmagic : ofBe (be 4 archiveMagic) = archiveMagic :=
    ofBe_be_of_lt (by decide)
  have hcount' : ofBe (be 4 built.segIdx.length) = built.segIdx.length :=
    ofBe_be_of_lt hcount
  have hmin' : ofBe (be 8 minOff) = minOff := ofBe_be_of_lt hmin
  have hmax' : ofBe (be 8 maxOff) = maxOff := ofBe_be_of_lt hmax
  have hheader : (header minOff maxOff built.segIdx.length ++ built.dataBuf ++
      built.segIdx.flatMap serializeSegIndex ++ footer).take archiveHeader =
        header minOff maxOff built.segIdx.length := by
    rw [List.append_assoc, List.append_assoc]
    exact List.take_left' (length_header ..)
  have hlength : (header minOff maxOff built.segIdx.length ++ built.dataBuf ++
      built.segIdx.flatMap serializeSegIndex ++ footer).length =
        archiveHeader + built.dataBuf.length + built.segIdx.length * 16 +
          archiveFooter := by
    simp only [List.length_append, length_header, hindexLen]
    simp [footer, archiveFooter]
  have hindex : (header minOff maxOff built.segIdx.length ++ built.dataBuf ++
      built.segIdx.flatMap serializeSegIndex ++ footer).drop
        (archiveHeader + built.dataBuf.length + built.segIdx.length * 16 +
          archiveFooter - archiveFooter - built.segIdx.length * 16) =
        built.segIdx.flatMap serializeSegIndex ++ footer := by
    rw [List.append_assoc]
    apply List.drop_left'
    rw [List.length_append, length_header]
    omega
  rcases header_fields minOff maxOff built.segIdx.length with
    ⟨hfirst, hsecond, hthird, hfourth⟩
  unfold openArchive
  simp only [hlength, hheader, hfirst, hsecond, hthird, hfourth, hmagic,
    hcount', hmin', hmax', hindex, parseSegIndex_flatMap hoffs hfits]
  rw [if_neg (by omega), if_neg (by simp), if_neg (by omega)]

/-!
## Reading
-/

theorem findSome?_indexFrom {file before after : Bytes}
    (hbefore : before.length = archiveHeader + start)
    (hfile : file = before ++ groupsBytes groups ++ after)
    (hoffs : forall e, e ∈ groups.flatten -> e.1 < 2 ^ 64)
    (hvalues : forall e, e ∈ groups.flatten -> e.2.1.length < 2 ^ 32)
    (offset : Nat) :
    (indexFrom start groups).findSome? (getFromSegment file offset) =
      (getEntry offset groups.flatten).map answer := by
  induction groups generalizing before start with
  | nil => rfl
  | cons g groups ih =>
  have hread : readAt file (archiveHeader + start) (serializeAll g).length =
      some (serializeAll g) := by
    have hshape : file = before ++ serializeAll g ++
        (groupsBytes groups ++ after) := by
      rw [hfile]
      simp [groupsBytes]
    rw [hshape]
    exact readAt_eq hbefore rfl
  have hscan := scanArchive_serializeAll offset
    (fun e he => hoffs e (List.mem_append_left _ he))
    (fun e he => hvalues e (List.mem_append_left _ he))
    (length_le_serializeAll g)
  have hlength : (before ++ serializeAll g).length =
      archiveHeader + (start + (serializeAll g).length) := by
    rw [List.length_append, hbefore, Nat.add_assoc]
  have hrest := ih hlength
    (by
      rw [hfile]
      simp [groupsBytes])
    (fun e he => hoffs e (List.mem_append_right _ he))
    (fun e he => hvalues e (List.mem_append_right _ he))
  rw [indexFrom, List.findSome?_cons, hrest, List.flatten_cons,
    getEntry_append]
  simp only [getFromSegment, hread, hscan]
  cases getEntry offset g with
  | none => rfl
  | some r => rfl

theorem openArchive_holds {minOff maxOff : Nat} {front : List ArchiveEntry}
    {r : Bytes × Bool} (hmin : minOff < 2 ^ 64)
    (hoffs : forall e, e ∈ front ++ [(maxOff, r)] -> e.1 < 2 ^ 64)
    (hfits : ArchiveFits maxOff (front ++ [(maxOff, r)]))
    (path : List Char) (file : Nat) :
    openArchive path file (archiveBytes minOff maxOff
        (front ++ [(maxOff, r)])) =
      .ok (archiveOf path file minOff maxOff (front ++ [(maxOff, r)])) ∧
      forall offset,
        (archiveOf path file minOff maxOff (front ++ [(maxOff, r)])).get
          (archiveBytes minOff maxOff (front ++ [(maxOff, r)])) offset =
        if minOff ≤ offset ∧ offset ≤ maxOff then
          (getEntry offset (front ++ [(maxOff, r)])).map answer
        else none := by
  rcases buildSegments_concat maxOff front r with ⟨groups, hbuilt, hflat⟩
  have hmax : maxOff < 2 ^ 64 :=
    hoffs (maxOff, r) (List.mem_append_right _ (List.mem_singleton_self _))
  rw [← hflat] at hoffs
  have hindex := hbuilt.segIdx
  unfold ArchiveFits at hfits
  have hpositions : forall si, si ∈ indexFrom 0 groups ->
      si.position < 2 ^ 32 := by
    intro si hsi
    rw [← hindex] at hsi
    exact (hfits si hsi).left
  have hlengths : forall si, si ∈ indexFrom 0 groups ->
      si.length < 2 ^ 32 := by
    intro si hsi
    rw [← hindex] at hsi
    exact (hfits si hsi).right
  have hvalues : forall e, e ∈ groups.flatten -> e.2.1.length < 2 ^ 32 := by
    intro e he
    rcases List.mem_flatten.mp he with ⟨g, hg, heg⟩
    exact (length_value_lt heg).trans (length_lt_of_indexFrom hlengths hg)
  have hcount : (buildSegments maxOff
      (front ++ [(maxOff, r)])).segIdx.length < 2 ^ 32 := by
    rw [hindex]
    rcases length_indexFrom hbuilt.nonempty hpositions with hnil | hlt
    · rw [hnil]
      exact Nat.two_pow_pos 32
    · omega
  constructor
  · apply openArchive_archiveBytes hmin hmax _ hfits hcount
    intro si hsi
    rw [hindex] at hsi
    exact offset_lt_of_indexFrom (Nat.two_pow_pos 64) hoffs hsi
  intro offset
  have hbytes : archiveBytes minOff maxOff (front ++ [(maxOff, r)]) =
      header minOff maxOff (buildSegments maxOff
        (front ++ [(maxOff, r)])).segIdx.length ++ groupsBytes groups ++
      ((buildSegments maxOff (front ++ [(maxOff, r)])).segIdx.flatMap
        serializeSegIndex ++ footer) := by
    unfold archiveBytes
    simp only [hbuilt.dataBuf, List.append_assoc]
  have hlength : (header minOff maxOff (buildSegments maxOff
      (front ++ [(maxOff, r)])).segIdx.length).length = archiveHeader + 0 :=
    length_header minOff maxOff _
  have hfind := findSome?_indexFrom hlength hbytes hoffs hvalues offset
  unfold ColdArchive.get
  simp only [archiveOf, hindex]
  by_cases hrange : minOff ≤ offset ∧ offset ≤ maxOff
  · rw [if_neg (by omega), if_pos hrange, hfind, hflat]
  · rw [if_pos (by omega), if_neg hrange]

end Cold
end ChimeraMQ
