import ChimeraMQ.Cold.ArchiveTables
import ChimeraMQ.Warm.TableFlush

/-!
# From tables to an archive and back

An archive is made of tables whose keys are offsets, and gives for an offset
what the last of the tables that contains it does.
-/

namespace ChimeraMQ
namespace Cold

open Foundation
open Warm

theorem create_spec {d : Disk} (hproper : d.Proper) (path : List Char)
    (b : Bytes) :
    exists d' i, (d.create path).1.setContent (d.create path).2 b = d' ∧
      d'.lookup path = some i ∧ d'.content i = b := by
  cases hlookup : d.lookup path with
  | none =>
    exact ⟨_, _, create_setContent hlookup b, Disk.lookup_addFile hlookup b,
      Disk.content_addFile ..⟩
  | some i =>
  have hlt := hproper.files_lt _ (Disk.mem_names_of_lookup hlookup)
  have hcreate : d.create path = (d.setContent i [], i) := by
    unfold Disk.create
    rw [Disk.openCreate_of_lookup_some hlookup]
  rw [hcreate]
  simp only
  rw [Disk.setContent_setContent]
  exact ⟨_, i, rfl, hlookup, Disk.content_setContent hlt b⟩

/-!
## The data of an archive
-/

def archiveData (warm : Disk) (sstables : List SSTable) : Bytes :=
  match mergeTables warm [] sstables with
  | none => []
  | some all =>
    (buildSegments (tablesRange sstables).2
      (entriesBetween (tablesRange sstables).1 (tablesRange sstables).2
        all)).dataBuf

theorem indexFrom_within {start : Nat} {groups : List (List ArchiveEntry)}
    {si : ArchiveSegIndex} (hsi : si ∈ indexFrom start groups) :
    si.position + si.length ≤ start + (groupsBytes groups).length := by
  induction groups generalizing start with
  | nil => cases hsi
  | cons g groups ih =>
  simp only [groupsBytes, List.flatMap_cons, List.length_append]
  rcases List.mem_cons.mp hsi with hfirst | hrest
  · rw [hfirst]
    simp only
    omega
  · have hle := ih hrest
    simp only [groupsBytes] at hle
    omega

theorem archiveFits_of_small {maxOff : Nat} {entries : List ArchiveEntry}
    (hsmall : (buildSegments maxOff entries).dataBuf.length < 2 ^ 32) :
    ArchiveFits maxOff entries := by
  rcases built_empty.foldl maxOff entries with ⟨groups, pending, hbuilt, _⟩
  change Built (buildSegments maxOff entries) groups pending at hbuilt
  intro si hsi
  rw [hbuilt.segIdx] at hsi
  rw [hbuilt.dataBuf] at hsmall
  have hle := indexFrom_within hsi
  rw [Nat.zero_add] at hle
  constructor
  · omega
  · omega

/-!
## Tables of offsets
-/

/--
Tables and their entries: every key is an offset of eight bytes below the
largest one, and there is at least one in each table.
-/
structure OffsetTables (warm : Disk) (sizing : BloomSizing)
    (tables : List (SSTable × List MemTableEntry)) : Prop where
  nonempty : tables ≠ []
  holds : forall t, t ∈ tables -> Holds warm sizing t.1 t.2
  filled : forall t, t ∈ tables -> t.2 ≠ []
  offsets : forall t, t ∈ tables -> forall e, e ∈ t.2 ->
    e.key.length = 8 ∧ ofBe e.key < 2 ^ 64 - 1

variable {warm : Disk} {sizing : BloomSizing}
  {tables : List (SSTable × List MemTableEntry)}

namespace OffsetTables

theorem anchored (h : OffsetTables warm sizing tables)
    {t : SSTable × List MemTableEntry} (ht : t ∈ tables) :
    Anchored warm t.1 := by
  rcases List.exists_mem_of_ne_nil _ (h.filled t ht) with ⟨e, he⟩
  exact (h.holds t ht).anchored he (h.offsets t ht e he).left

theorem maxOffset_lt (h : OffsetTables warm sizing tables)
    {t : SSTable × List MemTableEntry} (ht : t ∈ tables) :
    t.1.maxOffset < 2 ^ 64 - 1 := by
  have hanchored := h.anchored ht
  unfold Anchored at hanchored
  rw [(h.holds t ht).getFrom] at hanchored
  rcases Option.ne_none_iff_exists'.mp hanchored with ⟨r, hr⟩
  rcases mem_of_lookup hr with ⟨e, he, hkey⟩
  have hless := (h.offsets t ht e he).right
  rw [hkey, ofBe_be_of_lt (h.holds t ht).maxOffset_lt] at hless
  exact hless

theorem exists_mergeTables
    (hmax : forall t, t ∈ tables -> t.1.maxOffset < 2 ^ 64 - 1)
    (start : List ArchiveEntry) :
    exists all, mergeTables warm start (tables.map Prod.fst) = some all := by
  induction tables generalizing start with
  | nil => exact ⟨start, rfl⟩
  | cons t rest ih =>
  have hlast := hmax t (List.mem_cons_self ..)
  rw [List.map_cons, mergeTables, collectEntries, if_neg (by omega)]
  exact ih (fun x hx => hmax x (List.mem_cons_of_mem t hx)) _

theorem getFromLevel_of_last
    (hholds : forall t, t ∈ tables -> Holds warm sizing t.1 t.2)
    {front back : List (SSTable × List MemTableEntry)}
    {t : SSTable × List MemTableEntry} (hsplit : tables = front ++ t :: back)
    {key : Bytes} {r : Bytes × Bool} (hfound : lookup t.2 key = some r)
    (hlast : forall u, u ∈ back -> lookup u.2 key = none) :
    getFromLevel warm key (tables.map Prod.fst) = some r := by
  have ht : t ∈ tables := by
    rw [hsplit]
    exact List.mem_append_right _ (List.mem_cons_self ..)
  have hnone : (back.map Prod.fst).reverse.findSome? (getFrom warm key) =
      none := by
    apply List.findSome?_eq_none_iff.mpr
    intro x hx
    rcases List.mem_map.mp (List.mem_reverse.mp hx) with ⟨u, hu, hux⟩
    have hmem : u ∈ tables := by
      rw [hsplit]
      exact List.mem_append_right _ (List.mem_cons_of_mem t hu)
    rw [← hux, (hholds u hmem).getFrom]
    exact hlast u hu
  unfold getFromLevel
  rw [hsplit, List.map_append, List.map_cons, List.reverse_append,
    List.reverse_cons, List.findSome?_append, List.findSome?_append, hnone,
    List.findSome?_cons, (hholds t ht).getFrom, hfound]
  rfl

theorem getFromLevel_of_none
    (hholds : forall t, t ∈ tables -> Holds warm sizing t.1 t.2) {key : Bytes}
    (hnone : forall t, t ∈ tables -> lookup t.2 key = none) :
    getFromLevel warm key (tables.map Prod.fst) = none := by
  apply List.findSome?_eq_none_iff.mpr
  intro x hx
  rcases List.mem_map.mp (List.mem_reverse.mp hx) with ⟨t, ht, htx⟩
  rw [← htx, (hholds t ht).getFrom]
  exact hnone t ht

end OffsetTables

/--
An archive gives for an offset the value of the last table that contains it, and
an error for an offset that no table contains.
-/
theorem createColdArchive_get (h : OffsetTables warm sizing tables)
    (hsmall : (archiveData warm (tables.map Prod.fst)).length < 2 ^ 32)
    {d : Disk} (hproper : d.Proper) (path : List Char) :
    exists d' ca,
      createColdArchive d path warm (tables.map Prod.fst) =
        some (d', .ok ca) ∧
      openColdArchive d' path = .ok ca ∧
      forall offset, offset < 2 ^ 64 ->
        (forall front t back r, tables = front ++ t :: back ->
          lookup t.2 (be 8 offset) = some r ->
          (forall u, u ∈ back -> lookup u.2 (be 8 offset) = none) ->
          ca.get (d'.content ca.file) offset = some (answer r)) ∧
        ((forall t, t ∈ tables -> lookup t.2 (be 8 offset) = none) ->
          ca.get (d'.content ca.file) offset = none) := by
  have hne : tables.map Prod.fst ≠ [] := by
    intro hnil
    exact h.nonempty (List.map_eq_nil_iff.mp hnil)
  have hbounds : forall t, t ∈ tables.map Prod.fst -> t.maxOffset < 2 ^ 64 := by
    intro t ht
    rcases List.mem_map.mp ht with ⟨p, hp, hpt⟩
    rw [← hpt]
    exact (h.holds p hp).maxOffset_lt
  have hanchored : forall t, t ∈ tables.map Prod.fst -> Anchored warm t := by
    intro t ht
    rcases List.mem_map.mp ht with ⟨p, hp, hpt⟩
    rw [← hpt]
    exact h.anchored hp
  rcases OffsetTables.exists_mergeTables (fun t ht => h.maxOffset_lt ht) [] with
    ⟨all, hmerged⟩
  rw [archiveData, hmerged] at hsmall
  rcases openArchive_tables hne hbounds hanchored hmerged
    (archiveFits_of_small hsmall) with ⟨hnonempty, hopens⟩
  rcases create_spec hproper path (archiveBytes
    (tablesRange (tables.map Prod.fst)).1 (tablesRange (tables.map Prod.fst)).2
    (entriesBetween (tablesRange (tables.map Prod.fst)).1
      (tablesRange (tables.map Prod.fst)).2 all)) with
    ⟨d', i, hcreate, hlookup, hcontent⟩
  rcases hopens path i with ⟨ca, hopen, hfile, hanswers⟩
  have hreopen := hopen
  rw [← hcontent] at hreopen
  refine ⟨d', ca, ?_, ?_, ?_⟩
  · unfold createColdArchive
    rw [if_neg (by simpa using hne), hmerged]
    simp only [if_neg hnonempty, hcreate]
    rw [openColdArchive, hlookup]
    simp only [hreopen]
  · rw [openColdArchive, hlookup]
    exact hreopen
  intro offset hoffset
  have hget := hanswers offset hoffset
  rw [lookIn_eq] at hget
  rw [hfile, hcontent, hget]
  constructor
  · intro front t back r hsplit hfound hlast
    rw [OffsetTables.getFromLevel_of_last h.holds hsplit hfound hlast]
    rfl
  · intro hnone
    rw [OffsetTables.getFromLevel_of_none h.holds hnone]
    rfl

def olderEntries : List MemTableEntry :=
  [⟨be 8 3, [7], 0, false⟩, ⟨be 8 5, [8], 0, false⟩]

def newerEntries : List MemTableEntry :=
  [⟨be 8 5, [9], 1, false⟩, ⟨be 8 6, [], 1, true⟩]

def twoTablesDisk : Disk :=
  (Disk.empty.writeFile ['a'] (tableBytes centSizing olderEntries)).writeFile
    ['b'] (tableBytes centSizing newerEntries)

def twoTables : List (SSTable × List MemTableEntry) :=
  [(tableOf centSizing ['a'] 0 olderEntries, olderEntries),
    (tableOf centSizing ['b'] 1 newerEntries, newerEntries)]

theorem offsetTables_twoTables :
    OffsetTables twoTablesDisk centSizing twoTables where
  nonempty := List.cons_ne_nil _ _
  holds := by
    intro t ht
    rcases List.mem_cons.mp ht with hfirst | hrest
    · rw [hfirst]
      exact ⟨by decide, by decide +kernel, by unfold SortedTable; decide,
        by decide +kernel, rfl⟩
    · rw [List.mem_singleton.mp hrest]
      exact ⟨by decide, by decide +kernel, by unfold SortedTable; decide,
        by decide +kernel, rfl⟩
  filled := by decide
  offsets := by decide

theorem createColdArchive_get_twoTables :
    exists d' ca,
      createColdArchive .empty ['c'] twoTablesDisk (twoTables.map Prod.fst) =
        some (d', .ok ca) ∧
      ca.get (d'.content ca.file) 5 = some [9] ∧
      ca.get (d'.content ca.file) 4 = none := by
  rcases createColdArchive_get offsetTables_twoTables (by decide +kernel)
    Disk.proper_empty ['c'] with ⟨d', ca, hcreate, _, hget⟩
  refine ⟨d', ca, hcreate, ?_, ?_⟩
  · exact (hget 5 (by decide)).left [twoTables[0]] twoTables[1] [] ([9], false)
      rfl (by decide +kernel) (by decide)
  · exact (hget 4 (by decide)).right (by decide +kernel)

end Cold
end ChimeraMQ
