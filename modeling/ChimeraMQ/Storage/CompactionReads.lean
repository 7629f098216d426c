import ChimeraMQ.Storage.CompactionKeeps

/-!
# What a compaction writes

A compaction writes what it has read of the records without a routing key, and
after them the last record of every key.  What it has written is in the new
segment, unless the file was one of those that the swap removes.
-/

namespace ChimeraMQ
namespace Storage

open Foundation
open Message

namespace LogCompactor

def readFrozen (p : Partition) : List Bytes :=
  (frozenSegments p).flatMap (fun s => readAllRecords (p.content s))

def newRecords (p q : Partition) : List Bytes :=
  (q.segments.filter (fun s => decide (s ∉ p.segments))).flatMap
    (fun s => fileRecords (q.content s))

/-- The new file has the name of a file that is removed with its segment. -/
def Overwrites (p : Partition) : Prop :=
  exists t, t ∈ frozenSegments p ∧
    t.path = compactedName (firstBase (frozenSegments p))

instance (p : Partition) : Decidable (Overwrites p) :=
  inferInstanceAs (Decidable (exists t, t ∈ frozenSegments p ∧ _))

theorem newRecords_self (p : Partition) : newRecords p p = [] := by
  have hnone : p.segments.filter (fun s => decide (s ∉ p.segments)) = [] := by
    rw [List.filter_eq_nil_iff]
    intro s hs
    simpa using hs
  unfold newRecords
  rw [hnone]
  rfl

/-!
## What is collected
-/

def ReadOf (lc : LogCompactor) (id : Bytes) (recs : List Bytes)
    (c : Compacting) : Prop :=
  forall raw, raw ∈ c.keyless ++ c.latest.map Prod.snd ->
    exists data, data ∈ recs ∧ lc.decrypt id data = some raw

variable {lc : LogCompactor} {id : Bytes} {recs : List Bytes} {c : Compacting}

theorem ReadOf.collect (h : lc.ReadOf id recs c) (data : Bytes) :
    lc.ReadOf id (recs ++ [data]) (lc.collect id c data) := by
  have hold : forall raw, raw ∈ c.keyless ++ c.latest.map Prod.snd ->
      exists d, d ∈ recs ++ [data] ∧ lc.decrypt id d = some raw := by
    intro raw hraw
    rcases h raw hraw with ⟨d, hd, hread⟩
    exact ⟨d, List.mem_append_left _ hd, hread⟩
  unfold LogCompactor.collect
  cases hplain : lc.decrypt id data with
  | none => exact hold
  | some plain =>
  have hnew : exists d, d ∈ recs ++ [data] ∧
      lc.decrypt id d = some plain :=
    ⟨data, List.mem_append_right _ (List.mem_singleton_self data), hplain⟩
  cases henv : unmarshal plain with
  | error e =>
    simp only [henv]
    exact hold
  | ok env =>
  simp only [henv]
  by_cases hkey : env.routingKey = []
  · rw [if_pos hkey]
    intro raw hraw
    rcases List.mem_append.mp hraw with hkeyless | hlatest
    · rcases List.mem_append.mp hkeyless with hbefore | hlast
      · exact hold raw (List.mem_append_left _ hbefore)
      · rw [List.mem_singleton.mp hlast]
        exact hnew
    · exact hold raw (List.mem_append_right _ hlatest)
  rw [if_neg hkey]
  split
  · exact hold
  intro raw hraw
  rcases List.mem_append.mp hraw with hkeyless | hlatest
  · exact hold raw (List.mem_append_left _ hkeyless)
  rcases List.mem_map.mp hlatest with ⟨e, he, hed⟩
  rw [← hed]
  rcases mem_setEntry he with hset | hbefore
  · rw [hset]
    exact hnew
  · exact hold e.2 (List.mem_append_right _
      (List.mem_map_of_mem hbefore))

theorem readOf_foldl (lc : LogCompactor) (id : Bytes) (more : List Bytes)
    (h : lc.ReadOf id recs c) :
    lc.ReadOf id (recs ++ more) (more.foldl (lc.collect id) c) := by
  induction more generalizing recs c with
  | nil =>
    rw [List.append_nil]
    exact h
  | cons data more ih =>
  have hrest := ih (h.collect data)
  rw [List.append_assoc, List.singleton_append] at hrest
  exact hrest

theorem readOf_collectAll (lc : LogCompactor) (p : Partition) :
    lc.ReadOf (segID p) (readFrozen p) (lc.collectAll p) := by
  have hstart : lc.ReadOf (segID p) [] (Compacting.mk [] [] 0 false) := by
    intro raw hraw
    cases hraw
  exact lc.readOf_foldl (segID p) (readFrozen p) hstart

theorem collect_unread {data : Bytes} (h : lc.routingKey id data = none)
    (c : Compacting) :
    lc.collect id c data = { c with totalRead := c.totalRead + 1 } := by
  unfold LogCompactor.routingKey at h
  unfold LogCompactor.collect
  cases hplain : lc.decrypt id data with
  | none => rfl
  | some plain =>
  simp only [hplain] at h
  cases henv : unmarshal plain with
  | error e => simp only [henv]
  | ok env =>
  simp only [henv] at h
  cases h

structure Uncollected (c : Compacting) : Prop where
  keyless : c.keyless = []
  latest : c.latest = []
  room : c.keysExceeded = false

theorem foldl_collect_unread
    (hrecs : forall data, data ∈ recs -> lc.routingKey id data = none)
    (h : Uncollected c) :
    Uncollected (recs.foldl (lc.collect id) c) := by
  induction recs generalizing c with
  | nil => exact h
  | cons data recs ih =>
  rw [List.foldl_cons, collect_unread (hrecs data (List.mem_cons_self ..))]
  apply ih
  · exact fun d hd => hrecs d (List.mem_cons_of_mem data hd)
  · exact ⟨h.keyless, h.latest, h.room⟩

def Found (c : Compacting) : Prop :=
  c.keyless ≠ [] ∨ c.latest ≠ []

theorem setEntry_ne_nil (key data : Bytes) (entries : List (Bytes × Bytes)) :
    setEntry key data entries ≠ [] := by
  intro hnil
  have hget := getEntry_setEntry key data entries
  rw [hnil] at hget
  cases hget

theorem Found.collect {data : Bytes} (h : Found c) :
    Found (lc.collect id c data) := by
  unfold LogCompactor.collect
  cases lc.decrypt id data with
  | none => exact h
  | some plain =>
  cases henv : unmarshal plain with
  | error e =>
    simp only [henv]
    exact h
  | ok env =>
  simp only [henv]
  by_cases hkey : env.routingKey = []
  · rw [if_pos hkey]
    exact Or.inl (List.concat_ne_nil _ _)
  rw [if_neg hkey]
  split
  · exact h
  · exact Or.inr (setEntry_ne_nil _ _ _)

theorem Uncollected.collect {data : Bytes} (h : Uncollected c)
    (hread : lc.routingKey id data ≠ none) : Found (lc.collect id c data) := by
  unfold LogCompactor.routingKey at hread
  unfold LogCompactor.collect
  cases hplain : lc.decrypt id data with
  | none =>
    rw [hplain] at hread
    exact absurd rfl hread
  | some plain =>
  simp only [hplain] at hread
  cases henv : unmarshal plain with
  | error e =>
    rw [henv] at hread
    exact absurd rfl hread
  | ok env =>
  have hroom : (c.keysExceeded ||
      decide (c.latest.length ≥ maxCompactionKeys)) = false := by
    rw [h.room, h.latest]
    rfl
  simp only [henv]
  by_cases hkey : env.routingKey = []
  · rw [if_pos hkey]
    exact Or.inl (List.concat_ne_nil _ _)
  · rw [if_neg hkey]
    simp only [hroom, Bool.false_eq_true, if_false]
    exact Or.inr (setEntry_ne_nil _ _ _)

variable {p : Partition}

theorem written_eq_nil_iff {order : List Bytes}
    (horder : order.Perm ((lc.collectAll p).latest.map Prod.snd)) :
    (lc.collectAll p).keyless ++ order = [] <->
      forall data, data ∈ readFrozen p ->
        lc.routingKey (segID p) data = none := by
  have hstart : Uncollected (Compacting.mk [] [] 0 false) := ⟨rfl, rfl, rfl⟩
  rw [List.append_eq_nil_iff]
  constructor
  · rintro ⟨hkeyless, hnil⟩
    have hlatest : (lc.collectAll p).latest = [] := by
      rw [hnil, List.nil_perm] at horder
      exact List.map_eq_nil_iff.mp horder
    by_contra hsome
    push Not at hsome
    have hfound : Found (lc.collectAll p) := by
      apply foldl_finds (S := fun c => Uncollected c ∨ Found c) _ _ _
        (Or.inl hstart) hsome
      · intro c data _ hc
        rcases hc with hnone | hc
        · by_cases hread : lc.routingKey (segID p) data = none
          · rw [collect_unread hread]
            exact Or.inl ⟨hnone.keyless, hnone.latest, hnone.room⟩
          · exact Or.inr (hnone.collect hread)
        · exact Or.inr hc.collect
      · exact fun c data _ hc => hc.collect
      · intro c data _ hc hread
        rcases hc with hnone | hc
        · exact hnone.collect hread
        · exact hc.collect
    rcases hfound with hne | hne
    · exact hne hkeyless
    · exact hne hlatest
  · intro hnone
    have hall : Uncollected (lc.collectAll p) :=
      foldl_collect_unread hnone hstart
    rw [hall.latest, List.map_nil] at horder
    exact ⟨hall.keyless, List.perm_nil.mp horder⟩

/-!
## The new segment
-/

theorem fileRecords_opened {dir dir' : Disk} {now i : Nat} {s : Segment}
    (hw : Written p.dir dir (compactedName (firstBase (frozenSegments p))) i
      (segmentFile (firstBase (frozenSegments p)) now recs []))
    (hshort : forall d, d ∈ recs -> d.length < 2 ^ 32)
    (hopen : Partition.Opened (removeAll dir (frozenSegments p))
      (compactedName (firstBase (frozenSegments p))) dir' s) :
    fileRecords (dir'.content s.file) =
      if Overwrites p then [] else recs := by
  rcases removeAll_spec hw.proper (frozenSegments p) with
    ⟨_, hcontent, hfiles, hnames⟩
  by_cases hover : Overwrites p
  · rw [if_pos hover]
    rcases hover with ⟨t, ht, hpath⟩
    rcases hopen.fresh with ⟨hmem, _⟩ | ⟨_, hnil⟩
    · exact absurd hpath.symm (((hnames _).mp hmem).right t ht)
    · exact hnil
  rw [if_neg hover]
  have hmem : (compactedName (firstBase (frozenSegments p)), i) ∈
      (removeAll dir (frozenSegments p)).names := by
    rw [hnames]
    exact ⟨hw.mem, fun t ht hpath => hover ⟨t, ht, hpath.symm⟩⟩
  have hsame := hopen.proper.eq_of_name_eq
    ((hopen.names _).mpr (Or.inl hmem)) ((hopen.names _).mpr (Or.inr rfl))
    rfl
  have hfile : i = s.file := congrArg Prod.snd hsame
  have hlt : i < (removeAll dir (frozenSegments p)).files.length := by
    rw [hfiles]
    exact hw.proper.files_lt _ hw.mem
  rw [← hfile, hopen.content i hlt, hcontent, hw.content,
    fileRecords_segmentFile _ _ hshort]

structure Rewritten (lc : LogCompactor) (p : Partition) (order : List Bytes)
    (q : Partition) (s : Segment) : Prop where
  segments : q.segments = s :: p.segments.filter (fun t => !t.frozen)
  frozen : s.frozen = true
  path : s.path = compactedName (firstBase (frozenSegments p))
  perm : order.Perm ((lc.collectAll p).latest.map Prod.snd)
  records : fileRecords (q.content s) =
    if Overwrites p then [] else (lc.collectAll p).keyless ++ order

theorem exists_rewritten (hp : p.InOrder) (hdec : lc.ShortDecrypt)
    (hcompacts : Compacts p) {order : List Bytes} {now : Nat}
    {r : Except SegmentError Partition}
    (hcompact : lc.compact p order now = some r) :
    exists q s, r = .ok q ∧ Rewritten lc p order q s := by
  rcases exists_opened hp hdec hcompacts hcompact with
    ⟨horder, dir, i, dir', s, hw, hopened, hr⟩
  have hshort : forall d, d ∈ (lc.collectAll p).keyless ++ order ->
      d.length < 2 ^ 32 :=
    fun _ hd => (collected_collectAll hdec p).length_lt horder hd
  refine ⟨_, s.freeze, hr, ?_⟩
  exact
    { segments := by
        rw [Partition.segments, Partition.segments, List.filter_append]
        simp [hp.unfrozen]
      frozen := rfl
      path := hopened.path
      perm := horder
      records := by
        change fileRecords (dir'.content s.file) = _
        exact fileRecords_opened hw hshort hopened }

theorem Rewritten.newRecords_eq {q : Partition} {order : List Bytes}
    {s : Segment} (h : Rewritten lc p order q s) :
    newRecords p q =
      if Overwrites p then [] else (lc.collectAll p).keyless ++ order := by
  have hold : (p.segments.filter (fun t => !t.frozen)).filter
      (fun t => decide (t ∉ p.segments)) = [] := by
    rw [List.filter_eq_nil_iff]
    intro t ht
    simpa using (mem_unfrozen.mp ht).left
  unfold newRecords
  rw [h.segments, List.filter_cons, hold]
  by_cases hnew : s ∈ p.segments
  · have hover : Overwrites p :=
      ⟨s, mem_frozenSegments.mpr ⟨hnew, h.frozen⟩, h.path⟩
    rw [if_neg (by simpa using hnew), if_pos hover]
    rfl
  · rw [if_pos (by simpa using hnew), List.flatMap_singleton]
    exact h.records

end LogCompactor

end Storage
end ChimeraMQ
