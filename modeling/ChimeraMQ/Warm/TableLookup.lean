import ChimeraMQ.Warm.SSTable

/-!
# Looking up in a table

What a table gives for a key is what the entries that it was written from hold
for it, as long as the file is below 4 GiB and the filter has bits.
-/

namespace ChimeraMQ
namespace Warm

open Foundation

def serializeAll (entries : List MemTableEntry) : Bytes :=
  entries.flatMap serializeEntry

theorem serializeAll_append (xs ys : List MemTableEntry) :
    serializeAll (xs ++ ys) = serializeAll xs ++ serializeAll ys :=
  List.flatMap_append

theorem length_serializeEntry (e : MemTableEntry) :
    (serializeEntry e).length = e.key.length + e.value.length + 17 := by
  simp only [serializeEntry, List.length_append, length_be,
    List.length_singleton]
  omega

theorem length_le_serializeAll (entries : List MemTableEntry) :
    entries.length ≤ (serializeAll entries).length := by
  induction entries with
  | nil => exact Nat.zero_le _
  | cons e entries ih =>
  rw [serializeAll, List.flatMap_cons, List.length_append,
    length_serializeEntry, List.length_cons]
  change entries.length + 1 ≤ _ + (serializeAll entries).length
  omega

theorem length_serializeEntry_le {e : MemTableEntry}
    {entries : List MemTableEntry} (he : e ∈ entries) :
    (serializeEntry e).length ≤ (serializeAll entries).length := by
  rcases List.append_of_mem he with ⟨front, back, hsplit⟩
  rw [hsplit, serializeAll_append, List.length_append, serializeAll,
    serializeAll, List.flatMap_cons, List.length_append]
  omega

/-!
## Scanning
-/

variable {entries : List MemTableEntry}

theorem scanBlockForKey_serializeAll (key : Bytes)
    (hsmall : (serializeAll entries).length < 2 ^ 32) {k : Nat}
    (hk : entries.length ≤ k) :
    scanBlockForKey key k (serializeAll entries) = lookup entries key := by
  induction entries generalizing k with
  | nil => cases k <;> rfl
  | cons e entries ih =>
  cases k with
  | zero => cases hk
  | succ k =>
  have hlen := length_serializeEntry_le (List.mem_cons_self ..)
    |>.trans_lt hsmall
  rw [length_serializeEntry] at hlen
  have hkeyLen : ofBe (be 4 e.key.length) = e.key.length :=
    ofBe_be_of_lt (by omega)
  have hvalLen : ofBe (be 4 e.value.length) = e.value.length :=
    ofBe_be_of_lt (by omega)
  have hrest : (serializeAll entries).length < 2 ^ 32 := by
    rw [serializeAll, List.flatMap_cons, List.length_append] at hsmall
    exact Nat.lt_of_le_of_lt (Nat.le_add_left _ _) hsmall
  have hshape : serializeAll (e :: entries) = be 4 e.key.length ++
      (e.key ++ ((if e.deleted then 1 else 0) ::
        (be 4 e.value.length ++ (e.value ++ (be 8 e.timestamp ++
          serializeAll entries))))) := by
    simp [serializeAll, serializeEntry]
  generalize htail : serializeAll entries = tail at hshape ih
  have hfront : (e.key ++ ((if e.deleted then 1 else 0) ::
      (be 4 e.value.length ++ (e.value ++ (be 8 e.timestamp ++
        tail))))).drop e.key.length =
      (if e.deleted then 1 else 0) :: (be 4 e.value.length ++
        (e.value ++ (be 8 e.timestamp ++ tail))) :=
    List.drop_left' rfl
  have hvalue : (e.key ++ ((if e.deleted then 1 else 0) ::
      (be 4 e.value.length ++ (e.value ++ (be 8 e.timestamp ++
        tail))))).drop (e.key.length + 1) =
      be 4 e.value.length ++ (e.value ++
        (be 8 e.timestamp ++ tail)) := by
    rw [← List.drop_drop, hfront, List.drop_one, List.tail_cons]
  have hdata : (e.key ++ ((if e.deleted then 1 else 0) ::
      (be 4 e.value.length ++ (e.value ++ (be 8 e.timestamp ++
        tail))))).drop (e.key.length + 5) =
      e.value ++ (be 8 e.timestamp ++ tail) := by
    have hsum : e.key.length + 5 = e.key.length + 1 + 4 := by omega
    rw [hsum, ← List.drop_drop, hvalue]
    exact List.drop_left' (length_be 4 _)
  have hnext : (e.value ++ (be 8 e.timestamp ++ tail)).drop
      (e.value.length + 8) = tail := by
    rw [← List.drop_drop, List.drop_left' rfl]
    exact List.drop_left' (length_be 8 _)
  have hlong : ¬ (be 4 e.key.length ++ (e.key ++
      ((if e.deleted then 1 else 0) :: (be 4 e.value.length ++
        (e.value ++ (be 8 e.timestamp ++ tail)))))).length < 4 := by
    simp
  have hroom : ¬ (e.key ++ ((if e.deleted then 1 else 0) ::
      (be 4 e.value.length ++ (e.value ++ (be 8 e.timestamp ++
        tail))))).length < e.key.length + 5 := by
    simp only [List.length_append, List.length_cons, length_be]
    omega
  have hvalRoom : ¬ (e.value ++ (be 8 e.timestamp ++
      tail)).length < e.value.length := by
    simp only [List.length_append]
    omega
  rw [hshape, scanBlockForKey]
  simp only [List.take_left' (length_be 4 e.key.length),
    List.drop_left' (length_be 4 e.key.length), hkeyLen, if_neg hlong,
    if_neg hroom, hfront, hvalue, hdata, List.take_left,
    List.take_left' (length_be 4 e.value.length), hvalLen,
    if_neg hvalRoom, hnext]
  by_cases hkey : e.key = key
  · have hcmp := (compareKeys_eq_iff e.key key).mpr hkey
    rw [if_pos hcmp]
    simp [lookup, hkey]
  have hcmp : compareKeys e.key key ≠ .eq :=
    fun h => hkey ((compareKeys_eq_iff _ _).mp h)
  rw [if_neg hcmp, ih (by rw [htail] at hrest; exact hrest)
    (Nat.le_of_succ_le_succ hk)]
  simp [lookup, hkey]

/-!
## Blocks
-/

def blockOf (start : Nat) (block : List MemTableEntry) : BlockEntry where
  firstKey := (block.head?.map MemTableEntry.key).getD []
  offset := start
  length := (serializeAll block).length

def blocksOf : Nat -> List (List MemTableEntry) -> BlockIndex
  | _, [] => []
  | start, block :: blocks =>
    blockOf start block ::
      blocksOf (start + (serializeAll block).length) blocks

theorem blocksOf_concat (start : Nat) (blocks : List (List MemTableEntry))
    (block : List MemTableEntry) :
    blocksOf start (blocks ++ [block]) = blocksOf start blocks ++
      [blockOf (start + (serializeAll blocks.flatten).length) block] := by
  induction blocks generalizing start with
  | nil => rfl
  | cons first blocks ih =>
  rw [List.cons_append, blocksOf, ih, blocksOf, List.flatten_cons,
    serializeAll_append, List.length_append, Nat.add_assoc]
  rfl

theorem length_blocksOf (start : Nat) (blocks : List (List MemTableEntry)) :
    (blocksOf start blocks).length = blocks.length := by
  induction blocks generalizing start with
  | nil => rfl
  | cons block blocks ih => rw [blocksOf, List.length_cons, ih, List.length_cons]

variable {blocks : List (List MemTableEntry)}

theorem blocksOf_getElem? {start j : Nat} {e : BlockEntry}
    (h : (blocksOf start blocks)[j]? = some e) :
    exists front block back, blocks = front ++ block :: back ∧
      front.length = j ∧
      e = blockOf (start + (serializeAll front.flatten).length) block := by
  induction blocks generalizing start j with
  | nil => cases h
  | cons first blocks ih =>
  cases j with
  | zero =>
    rw [blocksOf, List.getElem?_cons_zero, Option.some.injEq] at h
    exact ⟨[], first, blocks, rfl, rfl, h.symm⟩
  | succ j =>
  rw [blocksOf, List.getElem?_cons_succ] at h
  rcases ih h with ⟨front, block, back, hsplit, hlen, he⟩
  refine ⟨first :: front, block, back, ?_, ?_, ?_⟩
  · rw [hsplit, List.cons_append]
  · rw [List.length_cons, hlen]
  · rw [he, List.flatten_cons, serializeAll_append, List.length_append,
      Nat.add_assoc]

theorem blocksOf_append_getElem? (start : Nat)
    (front : List (List MemTableEntry)) (block : List MemTableEntry)
    (back : List (List MemTableEntry)) :
    (blocksOf start (front ++ block :: back))[front.length]? =
      some (blockOf (start + (serializeAll front.flatten).length) block) := by
  induction front generalizing start with
  | nil => rfl
  | cons first front ih =>
  rw [List.cons_append, blocksOf, List.length_cons,
    List.getElem?_cons_succ, ih, List.flatten_cons, serializeAll_append,
    List.length_append, Nat.add_assoc]

structure Built (b : TableBuilder) (blocks : List (List MemTableEntry))
    (current : List MemTableEntry) (next : Option Bytes) : Prop where
  data : b.dataBuf = serializeAll blocks.flatten
  index : b.index = blocksOf 0 blocks
  block : b.blockData = serializeAll current
  nonempty : forall block, block ∈ blocks -> block ≠ []
  first : (current.head?.map MemTableEntry.key).or next = some b.firstKey ∨
    current = [] ∧ next = none

theorem Built.add {b : TableBuilder} {current : List MemTableEntry}
    {e : MemTableEntry} (h : Built b blocks current (some e.key))
    (next : Option Bytes) :
    exists blocks' current', Built (b.add e next) blocks' current' next ∧
      blocks'.flatten ++ current' = blocks.flatten ++ current ++ [e] ∧
      (next = none -> current' = []) := by
  have hdata : b.blockData ++ serializeEntry e =
      serializeAll (current ++ [e]) := by
    rw [h.block, serializeAll_append]
    simp [serializeAll]
  have hfirst : ((current ++ [e]).head?.map MemTableEntry.key) =
      some b.firstKey := by
    rcases h.first with hfirst | ⟨_, hnone⟩
    · cases current with
      | nil => exact hfirst
      | cons x current => exact hfirst
    · cases hnone
  unfold TableBuilder.add
  by_cases hfull : (b.blockData ++ serializeEntry e).length ≥
      blockSizeDefault ∨ next = none
  · refine ⟨blocks ++ [current ++ [e]], [], ?_, ?_, fun _ => rfl⟩
    · rw [if_pos hfull]
      refine ⟨?_, ?_, rfl, ?_, ?_⟩
      · simp only
        rw [h.data, hdata, List.flatten_append, List.flatten_singleton,
          serializeAll_append blocks.flatten]
      · simp only
        rw [h.index, blocksOf_concat, hdata, Nat.zero_add, h.data, blockOf,
          hfirst]
        rfl
      · intro block hblock
        rcases List.mem_append.mp hblock with hold | hnew
        · exact h.nonempty block hold
        · rw [List.mem_singleton.mp hnew]
          simp
      · cases next with
        | none => exact Or.inr ⟨rfl, rfl⟩
        | some key => exact Or.inl rfl
    · simp
  · rw [if_neg hfull]
    refine ⟨blocks, current ++ [e], ⟨h.data, h.index, hdata, h.nonempty, ?_⟩,
      ?_, ?_⟩
    · rw [hfirst]
      exact Or.inl rfl
    · rw [List.append_assoc]
    · intro hnone
      exact absurd (Or.inr hnone) hfull

theorem Built.addAll {b : TableBuilder} {current rest : List MemTableEntry}
    (h : Built b blocks current (rest.head?.map MemTableEntry.key))
    (hlast : rest = [] -> current = []) :
    exists blocks', Built (b.addAll rest) blocks' [] none ∧
      blocks'.flatten = blocks.flatten ++ current ++ rest := by
  induction rest generalizing b blocks current with
  | nil =>
    rw [hlast rfl] at h ⊢
    exact ⟨blocks, h, by simp⟩
  | cons e rest ih =>
  rcases h.add (rest.head?.map MemTableEntry.key) with
    ⟨blocks', current', hbuilt, hsame, hdone⟩
  have hend : rest = [] -> current' = [] := by
    intro hnil
    apply hdone
    rw [hnil]
    rfl
  rcases ih hbuilt hend with ⟨blocks'', hall, hflat⟩
  refine ⟨blocks'', hall, ?_⟩
  rw [hflat, hsame, List.append_assoc]
  rfl

theorem addAll_eq {first : MemTableEntry} {rest : List MemTableEntry} :
    exists blocks : List (List MemTableEntry),
      blocks.flatten = first :: rest ∧
      (forall block, block ∈ blocks -> block ≠ []) ∧
      (TableBuilder.addAll
        { dataBuf := [], index := [], blockData := [], firstKey := first.key }
        (first :: rest)).dataBuf = serializeAll (first :: rest) ∧
      (TableBuilder.addAll
        { dataBuf := [], index := [], blockData := [], firstKey := first.key }
        (first :: rest)).index = blocksOf 0 blocks := by
  have hstart : Built
      { dataBuf := [], index := [], blockData := [], firstKey := first.key }
      [] [] ((first :: rest).head?.map MemTableEntry.key) :=
    ⟨rfl, rfl, rfl, (by intro block hblock; cases hblock), Or.inl rfl⟩
  rcases hstart.addAll (by intro hnil; cases hnil) with
    ⟨blocks, hbuilt, hflat⟩
  refine ⟨blocks, hflat, hbuilt.nonempty, ?_, hbuilt.index⟩
  rw [hbuilt.data, hflat]
  rfl

/-!
## Lookups in sorted entries
-/

variable {key : Bytes}

theorem lookup_eq_none (hnot : forall e, e ∈ entries -> e.key ≠ key) :
    lookup entries key = none := by
  unfold lookup
  rw [Option.map_eq_none_iff, List.find?_eq_none]
  intro e he
  simpa using hnot e he

theorem mem_of_lookup {r : Bytes × Bool} (h : lookup entries key = some r) :
    exists e, e ∈ entries ∧ e.key = key := by
  unfold lookup at h
  rcases Option.map_eq_some_iff.mp h with ⟨e, he, _⟩
  exact ⟨e, List.mem_of_find?_eq_some he, by simpa using List.find?_some he⟩

theorem lookup_middle {front block back : List MemTableEntry}
    (hsorted : SortedTable (front ++ (block ++ back)))
    (hkey : exists e, e ∈ block ∧ e.key = key) :
    lookup (front ++ (block ++ back)) key = lookup block key := by
  rcases hkey with ⟨x, hx, hxkey⟩
  rcases List.pairwise_append.mp hsorted with ⟨_, hrest, hfront⟩
  rcases List.pairwise_append.mp hrest with ⟨_, _, hback⟩
  have hnoFront : front.find? (fun e => e.key = key) = none := by
    rw [List.find?_eq_none]
    intro e he
    have hlt := hfront e he x (List.mem_append_left _ hx)
    rw [hxkey] at hlt
    simpa using fun h : e.key = key => List.lt_irrefl key (h ▸ hlt)
  have hnoBack : back.find? (fun e => e.key = key) = none := by
    rw [List.find?_eq_none]
    intro e he
    have hlt := hback x hx e he
    rw [hxkey] at hlt
    simpa using fun h : e.key = key => List.lt_irrefl key (h ▸ hlt)
  unfold lookup
  rw [List.find?_append, List.find?_append, hnoFront, hnoBack,
    Option.none_or, Option.or_none]

theorem search_blocksOf (hsorted : SortedTable blocks.flatten)
    (hne : blocks ≠ []) (hnonempty : forall block, block ∈ blocks -> block ≠ [])
    (key : Bytes) :
    exists front block back, blocks = front ++ block :: back ∧
      (blocksOf 0 blocks).search key =
        some (blockOf (serializeAll front.flatten).length block) ∧
      lookup block key = lookup blocks.flatten key := by
  by_cases hmem : exists e, e ∈ blocks.flatten ∧ e.key = key
  · rcases hmem with ⟨e, he, hkey⟩
    rcases List.mem_flatten.mp he with ⟨block, hblock, heb⟩
    rcases List.append_of_mem hblock with ⟨front, back, hsplit⟩
    have hflat : blocks.flatten =
        front.flatten ++ (block ++ back.flatten) := by
      rw [hsplit, List.flatten_append, List.flatten_cons]
    have hget := blocksOf_append_getElem? 0 front block back
    rw [← hsplit, Nat.zero_add] at hget
    refine ⟨front, block, back, hsplit, BlockIndex.search_eq hget ?_, ?_⟩
    · intro j other hother
      rcases blocksOf_getElem? hother with
        ⟨front', block', back', hsplit', hlen', hentry⟩
      rcases List.exists_cons_of_ne_nil (hnonempty block' (by
        rw [hsplit']
        simp)) with ⟨x, tail, hx⟩
      have hfirst : other.firstKey = x.key := by
        rw [hentry, blockOf, hx]
        rfl
      rw [hfirst, Ne, compareKeys_gt_iff]
      have hpair := hsorted
      rw [hflat] at hpair
      rcases List.pairwise_append.mp hpair with ⟨_, hrest, hfront⟩
      rcases List.pairwise_append.mp hrest with ⟨hblockSorted, _, hback⟩
      have hblock' : blocks[j]? = some block' := by
        rw [hsplit', ← hlen']
        simp
      have hxblock : x ∈ block' := by
        rw [hx]
        exact List.mem_cons_self ..
      constructor
      · intro hle hlt
        rw [← hkey] at hlt
        rcases Nat.lt_or_eq_of_le hle with hbefore | hat
        · have hin : block' ∈ front := by
            rw [hsplit, List.getElem?_append_left hbefore] at hblock'
            exact List.mem_of_getElem? hblock'
          have hbelow := hfront x (List.mem_flatten.mpr ⟨block', hin, hxblock⟩)
            e (List.mem_append_left _ heb)
          exact List.lt_asymm hlt hbelow
        have hsame : block' = block := by
          rw [hsplit, hat] at hblock'
          simpa using hblock'.symm
        rw [hsame] at hx
        rw [hx] at heb hblockSorted
        rcases List.mem_cons.mp heb with hex | hetail
        · rw [hex] at hlt
          exact List.lt_irrefl _ hlt
        · have hbelow := (List.pairwise_cons.mp hblockSorted).left e hetail
          exact List.lt_asymm hlt hbelow
      · intro hnot
        by_contra hgt
        have hin : block' ∈ back := by
          rw [hsplit, List.getElem?_append_right (by omega)] at hblock'
          have hpos : j - front.length = (j - front.length - 1) + 1 := by omega
          rw [hpos, List.getElem?_cons_succ] at hblock'
          exact List.mem_of_getElem? hblock'
        have habove := hback e heb x
          (List.mem_flatten.mpr ⟨block', hin, hxblock⟩)
        rw [hkey] at habove
        exact hnot habove
    · rw [hflat] at hsorted ⊢
      exact (lookup_middle hsorted ⟨e, heb, hkey⟩).symm
  · have hnone : forall e, e ∈ blocks.flatten -> e.key ≠ key :=
      fun e he hkey => hmem ⟨e, he, hkey⟩
    have hindex : blocksOf 0 blocks ≠ [] := by
      rw [← List.length_pos_iff, length_blocksOf]
      exact List.length_pos_iff.mpr hne
    rcases BlockIndex.search_isSome hindex key with ⟨entry, hsearch⟩
    rcases List.getElem?_of_mem (BlockIndex.search_mem hsearch) with ⟨j, hj⟩
    rcases blocksOf_getElem? hj with
      ⟨front, block, back, hsplit, _, hentry⟩
    refine ⟨front, block, back, hsplit, ?_, ?_⟩
    · rw [hsearch, hentry, Nat.zero_add]
    rw [lookup_eq_none hnone, lookup_eq_none]
    intro e he
    apply hnone e
    rw [hsplit]
    simp [he]

/-!
## The range of offsets
-/

def InRange (range : Nat × Nat) (e : MemTableEntry) : Prop :=
  e.key.length = 8 -> range.1 ≤ ofBe e.key ∧ ofBe e.key ≤ range.2

theorem inRange_trackOffset (first : Bool) (range : Nat × Nat)
    (e : MemTableEntry) : InRange (trackOffset first range e) e := by
  intro hkey
  rw [trackOffset, if_pos hkey]
  cases first with
  | true => simp
  | false =>
  simp only [Bool.false_or, decide_eq_true_eq]
  constructor
  · split <;> omega
  · split <;> omega

theorem InRange.trackOffset {range : Nat × Nat} {x : MemTableEntry}
    (h : InRange range x) (e : MemTableEntry) :
    InRange (trackOffset false range e) x := by
  intro hkey
  have hx := h hkey
  unfold Warm.trackOffset
  by_cases he : e.key.length = 8
  · rw [if_pos he]
    simp only [Bool.false_or, decide_eq_true_eq]
    constructor
    · split <;> omega
    · split <;> omega
  · rw [if_neg he]
    exact hx

theorem inRange_foldl {range : Nat × Nat} {x : MemTableEntry}
    (h : InRange range x ∨ x ∈ entries) :
    InRange (entries.foldl (trackOffset false) range) x := by
  induction entries generalizing range with
  | nil =>
    rcases h with hin | hmem
    · exact hin
    · cases hmem
  | cons e entries ih =>
  apply ih
  rcases h with hin | hmem
  · exact Or.inl (hin.trackOffset e)
  rcases List.mem_cons.mp hmem with heq | hrest
  · rw [heq]
    exact Or.inl (inRange_trackOffset false range e)
  · exact Or.inr hrest

theorem inRange_offsetRange {x : MemTableEntry} (hx : x ∈ entries) :
    InRange (offsetRange entries) x := by
  cases entries with
  | nil => cases hx
  | cons e entries =>
  apply inRange_foldl
  rcases List.mem_cons.mp hx with heq | hrest
  · rw [heq]
    exact Or.inl (inRange_trackOffset true (0, 0) e)
  · exact Or.inr hrest

theorem trackOffset_lt (first : Bool) {range : Nat × Nat}
    (h : range.1 < 2 ^ 64 ∧ range.2 < 2 ^ 64) (e : MemTableEntry) :
    (trackOffset first range e).1 < 2 ^ 64 ∧
      (trackOffset first range e).2 < 2 ^ 64 := by
  unfold trackOffset
  by_cases he : e.key.length = 8
  · have hlt := ofBe_lt e.key
    rw [he] at hlt
    rw [if_pos he]
    constructor
    · simp only
      split <;> omega
    · simp only
      split <;> omega
  · rw [if_neg he]
    exact h

theorem offsetRange_lt (entries : List MemTableEntry) :
    (offsetRange entries).1 < 2 ^ 64 ∧ (offsetRange entries).2 < 2 ^ 64 := by
  cases entries with
  | nil => exact ⟨by decide, by decide⟩
  | cons e entries =>
  have hfold : forall (range : Nat × Nat),
      range.1 < 2 ^ 64 ∧ range.2 < 2 ^ 64 ->
      (entries.foldl (trackOffset false) range).1 < 2 ^ 64 ∧
        (entries.foldl (trackOffset false) range).2 < 2 ^ 64 := by
    induction entries with
    | nil => exact fun range h => h
    | cons x entries ih => exact fun range h => ih _ (trackOffset_lt false h x)
  exact hfold _ (trackOffset_lt true ⟨by decide, by decide⟩ e)

/-!
## Opening
-/

theorem length_footer (a b c d e : Nat) :
    (footer a b c d e).length = sstFooterSize := by
  simp [footer, sstFooterSize]

structure TableFits (sizing : BloomSizing) (entries : List MemTableEntry) :
    Prop where
  small : (tableBytes sizing entries).length < 2 ^ 32
  bits : 0 < (newBloomFilter sizing (entries.length % 2 ^ 32)).numBits

def tableOf (sizing : BloomSizing) (path : List Char) (file : Nat)
    (entries : List MemTableEntry) : SSTable :=
  match entries with
  | [] =>
    { path := path
      file := file
      index := []
      bloom := .zero
      minOffset := 0
      maxOffset := 0
      entryCount := 0
      closed := false }
  | first :: _ =>
  { path := path
    file := file
    index := (TableBuilder.addAll
      { dataBuf := [], index := [], blockData := [], firstKey := first.key }
      entries).index
    bloom := keyFilter sizing entries
    minOffset := (offsetRange entries).1
    maxOffset := (offsetRange entries).2
    entryCount := entries.length
    closed := false }

theorem openTable_emptyTable (path : List Char) (file : Nat) :
    openTable path file emptyTable = some
      { path := path
        file := file
        index := []
        bloom := .zero
        minOffset := 0
        maxOffset := 0
        entryCount := 0
        closed := false } := by
  have hlen : emptyTable.length = sstFooterSize := by
    decide +kernel
  have hfooter : emptyTable.drop (emptyTable.length - sstFooterSize) =
      emptyTable := by
    rw [hlen, Nat.sub_self, List.drop_zero]
  have hmagic : ofBe (emptyTable.take 4) = sstMagic := by
    decide +kernel
  have hzero : ofBe ((emptyTable.drop 8).take 4) = 0 ∧
      ofBe ((emptyTable.drop 12).take 4) = 0 ∧
      ofBe ((emptyTable.drop 16).take 4) = 0 ∧
      ofBe ((emptyTable.drop 20).take 8) = 0 ∧
      ofBe ((emptyTable.drop 28).take 8) = 0 := by
    decide +kernel
  rcases hzero with ⟨hbloom, hindex, hcount, hmin, hmax⟩
  unfold openTable
  rw [if_neg (by rw [hlen]; exact Nat.lt_irrefl _)]
  simp only [hfooter, hmagic, hbloom, hindex, hcount, hmin, hmax, readBloom,
    readIndex, Nat.lt_irrefl, false_and, if_false, ne_eq, not_true]

theorem footer_fields {a b c d e : Nat} (ha : a < 2 ^ 32) (hb : b < 2 ^ 32)
    (hc : c < 2 ^ 32) (hd : d < 2 ^ 64) (he : e < 2 ^ 64) :
    ofBe ((footer a b c d e).take 4) = sstMagic ∧
      ofBe (((footer a b c d e).drop 8).take 4) = a ∧
      ofBe (((footer a b c d e).drop 12).take 4) = b ∧
      ofBe (((footer a b c d e).drop 16).take 4) = c ∧
      ofBe (((footer a b c d e).drop 20).take 8) = d ∧
      ofBe (((footer a b c d e).drop 28).take 8) = e := by
  have hfield : forall {w n k : Nat} {front rest : Bytes}, n < 256 ^ w ->
      front.length = k ->
      ofBe (((front ++ (be w n ++ rest)).drop k).take w) = n := by
    intro w n k front rest hn hk
    rw [List.drop_left' hk, List.take_left' (length_be w n)]
    exact ofBe_be_of_lt hn
  have hshape : footer a b c d e = be 4 sstMagic ++ (be 4 sstVersion ++
      (be 4 a ++ (be 4 b ++ (be 4 c ++ (be 8 d ++ (be 8 e ++
        List.replicate 12 0)))))) := by
    simp only [footer, List.append_assoc]
  rw [hshape]
  refine ⟨?_, ?_, ?_, ?_, ?_, ?_⟩
  · rw [List.take_left' (length_be 4 _)]
    exact ofBe_be_of_lt (by decide)
  · rw [← List.append_assoc]
    exact hfield ha (by simp)
  · rw [← List.append_assoc, ← List.append_assoc]
    exact hfield hb (by simp)
  · rw [← List.append_assoc, ← List.append_assoc, ← List.append_assoc]
    exact hfield hc (by simp)
  · rw [← List.append_assoc, ← List.append_assoc, ← List.append_assoc,
      ← List.append_assoc]
    exact hfield hd (by simp)
  · rw [← List.append_assoc, ← List.append_assoc, ← List.append_assoc,
      ← List.append_assoc, ← List.append_assoc]
    exact hfield he (by simp)

theorem length_le_flatten
    (hnonempty : forall block, block ∈ blocks -> block ≠ []) :
    blocks.length ≤ blocks.flatten.length := by
  induction blocks with
  | nil => exact Nat.le_refl _
  | cons block blocks ih =>
  have hpos := List.length_pos_iff.mpr
    (hnonempty block (List.mem_cons_self ..))
  have hrest := ih (fun x hx => hnonempty x (List.mem_cons_of_mem _ hx))
  rw [List.flatten_cons, List.length_append, List.length_cons]
  omega

theorem fits_of_mem_blocksOf
    (hsmall : (serializeAll blocks.flatten).length < 2 ^ 32)
    (hnonempty : forall block, block ∈ blocks -> block ≠ []) {e : BlockEntry}
    (he : e ∈ blocksOf 0 blocks) : BlockIndex.Fits e := by
  rcases List.getElem?_of_mem he with ⟨j, hj⟩
  rcases blocksOf_getElem? hj with ⟨front, block, back, hsplit, _, hentry⟩
  have hlen : (serializeAll blocks.flatten).length =
      (serializeAll front.flatten).length + ((serializeAll block).length +
        (serializeAll back.flatten).length) := by
    rw [hsplit, List.flatten_append, List.flatten_cons, serializeAll_append,
      serializeAll_append, List.length_append, List.length_append]
  rcases List.exists_cons_of_ne_nil (hnonempty block (by
    rw [hsplit]
    simp)) with ⟨x, tail, hx⟩
  have hkey := @length_serializeEntry_le x block (by
    rw [hx]
    exact List.mem_cons_self ..)
  rw [length_serializeEntry] at hkey
  rw [hentry]
  constructor
  · rw [blockOf, hx]
    simp only [List.head?_cons, Option.map_some, Option.getD_some]
    omega
  · simp only [blockOf]
    omega
  · simp only [blockOf]
    omega

theorem openTable_tableBytes {sizing : BloomSizing}
    (hfits : TableFits sizing entries) (path : List Char) (file : Nat) :
    openTable path file (tableBytes sizing entries) =
      some (tableOf sizing path file entries) := by
  have hsmall := hfits.small
  cases entries with
  | nil => exact openTable_emptyTable path file
  | cons first rest =>
  rcases @addAll_eq first rest with
    ⟨blocks, hflat, hnonempty, hdata, hindex⟩
  have hsound := (BloomFilter.mayContain_foldl_add
    (BloomFilter.sound_newBloomFilter hfits.bits)
    ((first :: rest).map MemTableEntry.key)).left
  have hrange := offsetRange_lt (first :: rest)
  have hcount := length_le_serializeAll (first :: rest)
  have hblocks := length_le_flatten hnonempty
  have hfirst : 0 < (serializeAll (first :: rest)).length :=
    Nat.lt_of_lt_of_le (Nat.succ_pos _) hcount
  have hmarshal := BloomFilter.length_marshalBinary
    (keyFilter sizing (first :: rest))
  have hindexLen : 4 ≤ (BlockIndex.marshalBinary
      (blocksOf 0 blocks)).length := by
    rw [BlockIndex.marshalBinary, List.length_append, length_be]
    exact Nat.le_add_right _ _
  unfold tableBytes at hsmall ⊢
  simp only [hdata, hindex] at hsmall ⊢
  unfold tableOf
  simp only [hindex]
  generalize hD : serializeAll (first :: rest) = D at *
  generalize hB : (keyFilter sizing (first :: rest)).marshalBinary = B at *
  generalize hI : BlockIndex.marshalBinary (blocksOf 0 blocks) = I at *
  rw [List.length_append, List.length_append, List.length_append,
    length_footer] at hsmall
  have hfooterSize : sstFooterSize = 48 := rfl
  rcases @footer_fields D.length (D.length + B.length)
    (first :: rest).length (offsetRange (first :: rest)).1
    (offsetRange (first :: rest)).2 (by omega) (by omega) (by omega)
    hrange.left hrange.right with
    ⟨hmagic, hbloomOff, hindexOff, hentryCount, hmin, hmax⟩
  have hread : readBloom (D ++ B ++ I ++ footer D.length
      (D.length + B.length) (first :: rest).length
      (offsetRange (first :: rest)).1 (offsetRange (first :: rest)).2)
      D.length (D.length + B.length) (D.length + B.length + I.length) =
      some (keyFilter sizing (first :: rest)) := by
    have hmod : (D.length + B.length + I.length) % 2 ^ 32 =
        D.length + B.length + I.length := Nat.mod_eq_of_lt (by omega)
    have hsize : (D.length + B.length + 2 ^ 32 - D.length) % 2 ^ 32 =
        B.length := by omega
    have hat := @readAt_eq D B (I ++ footer D.length
      (D.length + B.length) (first :: rest).length
      (offsetRange (first :: rest)).1 (offsetRange (first :: rest)).2)
      D.length B.length rfl rfl
    rw [← List.append_assoc] at hat
    unfold readBloom
    rw [hmod, if_pos ⟨hfirst, by omega⟩,
      if_neg (by omega : ¬ D.length + B.length >
        D.length + B.length + I.length)]
    simp only [hsize, hat, Option.map_some]
    rw [← hB]
    exact congrArg some
      (BloomFilter.unmarshalBinary_marshalBinary hsound)
  have hreadIndex : readIndex (D ++ B ++ I ++ footer D.length
      (D.length + B.length) (first :: rest).length
      (offsetRange (first :: rest)).1 (offsetRange (first :: rest)).2)
      (D.length + B.length) (D.length + B.length + I.length) =
      some (blocksOf 0 blocks) := by
    have hmod : (D.length + B.length + I.length) % 2 ^ 32 =
        D.length + B.length + I.length := Nat.mod_eq_of_lt (by omega)
    have hat := @readAt_eq (D ++ B) I (footer D.length
      (D.length + B.length) (first :: rest).length
      (offsetRange (first :: rest)).1 (offsetRange (first :: rest)).2)
      (D.length + B.length) I.length (by simp) rfl
    unfold readIndex
    rw [hmod, if_pos ⟨by omega, by omega⟩,
      Nat.add_sub_cancel_left, hat, ← hI]
    simp only [Option.map_some]
    rw [BlockIndex.unmarshalBinary_marshalBinary
      (by rw [length_blocksOf]; rw [hflat] at hblocks; omega)
      (fun e he => fits_of_mem_blocksOf
        (by rw [hflat, hD]; omega) hnonempty he)]
    rfl
  have htotal : (D ++ B ++ I ++ footer D.length (D.length + B.length)
      (first :: rest).length (offsetRange (first :: rest)).1
      (offsetRange (first :: rest)).2).length =
      D.length + B.length + I.length + sstFooterSize := by
    rw [List.length_append, length_footer, List.length_append,
      List.length_append]
  have hdrop : (D ++ B ++ I ++ footer D.length (D.length + B.length)
      (first :: rest).length (offsetRange (first :: rest)).1
      (offsetRange (first :: rest)).2).drop
        (D.length + B.length + I.length) =
      footer D.length (D.length + B.length) (first :: rest).length
        (offsetRange (first :: rest)).1
        (offsetRange (first :: rest)).2 :=
    List.drop_left' (by rw [List.length_append, List.length_append])
  unfold openTable
  rw [if_neg (by rw [htotal]; omega), htotal]
  simp only [Nat.add_sub_cancel, hdrop, hmagic, hbloomOff, hindexOff,
    hentryCount, hmin, hmax, hread, hreadIndex, ne_eq, not_true, if_false]

/-!
## Getting
-/

theorem get_tableOf {sizing : BloomSizing} (hsorted : SortedTable entries)
    (hfits : TableFits sizing entries) (path : List Char) (file : Nat)
    (key : Bytes) :
    (tableOf sizing path file entries).get (tableBytes sizing entries) key =
      lookup entries key := by
  cases entries with
  | nil => rfl
  | cons first rest =>
  have hsmall := hfits.small
  rcases @addAll_eq first rest with
    ⟨blocks, hflat, hnonempty, hdata, hindex⟩
  have hne : blocks ≠ [] := by
    intro hnil
    rw [hnil] at hflat
    cases hflat
  have hreported := (BloomFilter.mayContain_foldl_add
    (BloomFilter.sound_newBloomFilter hfits.bits)
    ((first :: rest).map MemTableEntry.key)).right key
  unfold SSTable.get tableOf
  simp only [hindex, Bool.false_eq_true, if_false]
  by_cases hmay : (keyFilter sizing (first :: rest)).mayContain key = true
  · rw [← hflat] at hsorted
    rcases search_blocksOf hsorted hne hnonempty key with
      ⟨front, block, back, hsplit, hsearch, hlookup⟩
    have hserial : serializeAll (first :: rest) =
        serializeAll front.flatten ++ serializeAll block ++
          serializeAll back.flatten := by
      rw [← hflat, hsplit, List.flatten_append, List.flatten_cons,
        serializeAll_append, serializeAll_append, List.append_assoc]
    unfold tableBytes at hsmall ⊢
    simp only [hdata, hindex, hserial, List.append_assoc] at hsmall ⊢
    simp only [hmay, hsearch, Bool.not_true, Bool.false_eq_true, if_false]
    rw [← List.append_assoc (serializeAll front.flatten)]
    simp only [blockOf]
    rw [readAt_eq rfl rfl]
    simp only
    rw [List.length_append, List.length_append] at hsmall
    rw [scanBlockForKey_serializeAll key (by omega)
      (length_le_serializeAll block), hlookup, hflat]
  · have hnone : lookup (first :: rest) key = none := by
      apply lookup_eq_none
      intro e he hkey
      apply hmay
      apply hreported
      rw [← hkey]
      exact Or.inr (List.mem_map_of_mem he)
    simp only [hmay, Bool.not_false, if_true, hnone]

theorem keyRangeMayContain_tableOf (sizing : BloomSizing) (path : List Char)
    (file : Nat) {r : Bytes × Bool} (hlookup : lookup entries key = some r) :
    (tableOf sizing path file entries).keyRangeMayContain key = true := by
  rcases mem_of_lookup hlookup with ⟨e, he, hkey⟩
  cases entries with
  | nil => cases he
  | cons first rest =>
  unfold SSTable.keyRangeMayContain
  by_cases hlen : key.length = 8
  · have hrange := inRange_offsetRange he (by rw [hkey]; exact hlen)
    rw [hkey] at hrange
    simp only [hlen, ne_eq, not_true, if_false, tableOf, ge_iff_le,
      decide_eq_true_eq]
    exact hrange
  · simp only [ne_eq, hlen, not_false_iff, if_true]

end Warm
end ChimeraMQ
