import ChimeraMQ.Foundation.Run
import ChimeraMQ.Storage.PartitionCrash

/-!
# Retention keeps a suffix of the log

Removing segments cuts records from the start of the log only, if no segment
stays before one that goes and no segment that stays has a file of one that
goes.
-/

namespace ChimeraMQ
namespace Storage

open Foundation

namespace Partition

/--
The readable records are the last appended ones, also after reopening, and the
active segment has its file.
-/
structure KeepsSuffix (p : Partition) (assigned : List (Nat × Bytes)) :
    Prop where
  suffix : exists cut kept, assigned = cut ++ kept ∧
    (forall offset data, p.read offset = .ok data <->
      (offset, data) ∈ kept) ∧
    forall now, exists q,
      openPartition p.dir p.topicName p.partitionID p.maxSegSize now = .ok q ∧
        forall offset data, (offset, data) ∈ kept -> q.read offset = .ok data
  active : (p.active.path, p.active.file) ∈ p.dir.names

def policyRemoves (policy : RetentionPolicy) (segments : List Segment)
    (place : Nat) : Bool :=
  match segments[place]? with
  | none => false
  | some s =>
    let left := (segments.take place).filter (fun t => !t.frozen) ++
      segments.drop place
    s.frozen && (tooMany policy left || tooLarge policy left)

def targetRemoves (target : Nat) (segments : List Segment) (place : Nat) :
    Bool :=
  decide (place + 1 < segments.length) &&
    (segments.take (place + 1)).all (fun s => decide (s.nextOff ≤ target))

def CutsUpTo (segments : List Segment) (removes : Nat -> Bool)
    (place : Nat) : Prop :=
  (forall j, j < place -> removes j = true) ∧
    forall j, j < segments.length -> removes j = false ->
      segments[place]?.map Segment.path ≠ segments[j]?.map Segment.path

instance (segments : List Segment) (removes : Nat -> Bool) (place : Nat) :
    Decidable (CutsUpTo segments removes place) := by
  unfold CutsUpTo
  infer_instance

def CutsPrefix (segments : List Segment) (removes : Nat -> Bool) : Prop :=
  forall place, place < segments.length -> removes place = true ->
    CutsUpTo segments removes place

instance (segments : List Segment) (removes : Nat -> Bool) :
    Decidable (CutsPrefix segments removes) := by
  unfold CutsPrefix
  infer_instance

def Spares (s : Partition × List (Nat × Bytes)) : RetentionAction -> Prop
  | .append _ _ => True
  | .enforceRetention policy =>
    CutsPrefix s.1.segments (policyRemoves policy s.1.segments)
  | .advanceLogStart target =>
    CutsPrefix s.1.segments (targetRemoves target s.1.segments)
  | .reopen _ => True

instance (s : Partition × List (Nat × Bytes)) (a : RetentionAction) :
    Decidable (Spares s a) := by
  cases a with
  | append data now => exact instDecidableTrue
  | enforceRetention policy => exact inferInstanceAs (Decidable (CutsPrefix _ _))
  | advanceLogStart target => exact inferInstanceAs (Decidable (CutsPrefix _ _))
  | reopen now => exact instDecidableTrue

structure Retained (p : Partition) (front : List Chunk) (last : Chunk)
    (assigned : List (Nat × Bytes)) : Prop where
  opened : OpenLog p front last
  small : p.maxSegSize < 2 ^ 32
  length : last.next = assigned.length
  numbered : forall (i : Nat) e, assigned[i]? = some e -> e.1 = i
  stored : forall (i : Nat) e, assigned[i]? = some e ->
    startOffset (front ++ [last]) ≤ i -> At p.dir (front ++ [last]) i e.2

/-!
## Reading
-/

theorem startOffset_le {dir : Disk} {chunks : List Chunk}
    (h : LogDir dir chunks) {c : Chunk} (hc : c ∈ chunks) :
    startOffset chunks ≤ c.base := by
  cases chunks with
  | nil => cases hc
  | cons c₁ rest =>
  show c₁.base ≤ c.base
  rcases List.mem_cons.mp hc with hfirst | hrest
  · rw [hfirst]
  · exact Nat.le_of_lt
      ((List.pairwise_cons.mp h.follows).left c hrest).base_lt

variable {p : Partition} {front : List Chunk} {last : Chunk} {data : Bytes}

theorem OpenLog.range_of_read (h : OpenLog p front last) {offset : Nat}
    (hread : p.read offset = .ok data) :
    startOffset (front ++ [last]) ≤ offset ∧ offset < last.next := by
  unfold Partition.read at hread
  cases hfind : p.findSegment offset with
  | none =>
    rw [hfind] at hread
    cases hread
  | some s =>
  rcases binarySearch_eq hfind with ⟨hs, hcmp⟩
  have hrange : offset ≥ s.baseOff ∧ offset < s.nextOff := by
    by_contra hout
    rw [if_neg hout] at hcmp
    split at hcmp
    · cases hcmp
    · cases hcmp
  rcases h.mem_segment hs with hstale | ⟨c, hc, hserves⟩
  · omega
  rw [hserves.stands.baseOff, hserves.stands.nextOff] at hrange
  have hstart := startOffset_le h.dir hc
  have hle := h.dir.next_le hc
  rw [endOffset_concat, Chunk.next] at hle
  constructor
  · omega
  · omega

variable {assigned : List (Nat × Bytes)}

theorem Retained.read_iff (h : Retained p front last assigned) (offset : Nat)
    (data : Bytes) :
    p.read offset = .ok data <->
      (offset, data) ∈ assigned.drop (startOffset (front ++ [last])) := by
  constructor
  · intro hread
    rcases h.opened.range_of_read hread with ⟨hstart, hlt⟩
    rw [h.length] at hlt
    have hget := List.getElem?_eq_getElem hlt
    have hsame := h.opened.read (h.stored _ _ hget hstart)
    rw [hread] at hsame
    have hentry : assigned[offset]? = some (offset, data) := by
      rw [hget, Option.some.injEq]
      exact Prod.ext (h.numbered _ _ hget) (Except.ok.inj hsame).symm
    apply List.mem_of_getElem? (i := offset - startOffset (front ++ [last]))
    rw [List.getElem?_drop, Nat.add_sub_cancel' hstart]
    exact hentry
  · intro hmem
    rcases List.mem_iff_getElem?.mp hmem with ⟨i, hi⟩
    rw [List.getElem?_drop] at hi
    have hoff : offset = startOffset (front ++ [last]) + i :=
      h.numbered _ _ hi
    rw [hoff]
    exact h.opened.read (h.stored _ _ hi (Nat.le_add_right _ _))

/-!
## Removing segments
-/

def removeFiles (dir : Disk) (gone : List Segment) : Disk :=
  gone.foldl (fun dir s => dir.remove s.path) dir

theorem files_removeFiles (dir : Disk) (gone : List Segment) :
    (removeFiles dir gone).files = dir.files := by
  induction gone generalizing dir with
  | nil => rfl
  | cons s gone ih => exact ih (dir.remove s.path)

theorem content_removeFiles (dir : Disk) (gone : List Segment) (i : Nat) :
    (removeFiles dir gone).content i = dir.content i := by
  rw [Disk.content, files_removeFiles, Disk.content]

theorem names_removeFiles (dir : Disk) (gone : List Segment) :
    (removeFiles dir gone).names =
      dir.names.filter (fun e => gone.all (fun s => e.1 ≠ s.path)) := by
  induction gone generalizing dir with
  | nil =>
    show dir.names = dir.names.filter (fun _ => true)
    rw [List.filter_true]
  | cons s gone ih =>
  have hrest := ih (dir.remove s.path)
  rw [Disk.remove, List.filter_filter] at hrest
  rw [show removeFiles dir (s :: gone) =
    removeFiles (dir.remove s.path) gone from rfl, Disk.remove, hrest]
  apply List.filter_congr
  intro e _
  rw [List.all_cons, Bool.and_comm]

structure Trimmed (p : Partition) (gone rest : List Segment) (q : Partition) :
    Prop where
  split : p.older = gone ++ rest
  older : q.older = rest
  dir : q.dir = removeFiles p.dir gone
  active : q.active = p.active
  maxSegSize : q.maxSegSize = p.maxSegSize

variable {q : Partition} {gone rest : List Segment}

theorem Trimmed.segments (h : Trimmed p gone rest q) :
    p.segments = gone ++ q.segments := by
  rw [Partition.segments, Partition.segments, h.split, h.older, h.active,
    List.append_assoc]

theorem Trimmed.refl (p : Partition) : Trimmed p [] p.older p :=
  ⟨rfl, rfl, rfl, rfl, rfl⟩

theorem Trimmed.trans {r : Partition} {mid more : List Segment}
    (h : Trimmed p gone mid q) (h' : Trimmed q more rest r) :
    Trimmed p (gone ++ more) rest r where
  split := by
    rw [h.split, ← h.older, h'.split, List.append_assoc]
  older := h'.older
  dir := by
    rw [h'.dir, h.dir, removeFiles, removeFiles, removeFiles,
      List.foldl_append]
  active := h'.active.trans h.active
  maxSegSize := h'.maxSegSize.trans h.maxSegSize

def chunksLeft (gone : List Segment) (chunks : List Chunk) : List Chunk :=
  chunks.filter (fun c => gone.all (fun s => segmentName c.base ≠ s.path))

theorem mem_chunksLeft {chunks : List Chunk} {c : Chunk} :
    c ∈ chunksLeft gone chunks <-> c ∈ chunks ∧
      forall s, s ∈ gone -> segmentName c.base ≠ s.path := by
  simp [chunksLeft]

theorem OpenLog.trimmed (h : OpenLog p front last)
    (htrim : Trimmed p gone rest q)
    (hfiles : forall s, s ∈ gone -> forall t, t ∈ q.segments -> t.path ≠ s.path) :
    OpenLog q (chunksLeft gone front) last := by
  have hactive : q.active ∈ q.segments :=
    List.mem_append_right _ (List.mem_singleton_self _)
  have hlast : chunksLeft gone [last] = [last] := by
    apply List.filter_eq_self.mpr
    intro c hc
    apply List.all_eq_true.mpr
    intro s hs
    have hne := hfiles s hs q.active hactive
    rw [htrim.active, h.active.path, ← List.mem_singleton.mp hc] at hne
    exact decide_eq_true hne
  have hchunks : chunksLeft gone (front ++ [last]) =
      chunksLeft gone front ++ [last] := by
    rw [chunksLeft, List.filter_append]
    exact congrArg (chunksLeft gone front ++ ·) hlast
  have hsub : (chunksLeft gone front ++ [last]).Sublist (front ++ [last]) := by
    rw [← hchunks]
    exact List.filter_sublist
  have hsame : forall c : Chunk, q.dir.content c.file =
      p.dir.content c.file := by
    intro c
    rw [htrim.dir, content_removeFiles]
  have hrest : forall t, t ∈ q.older -> t ∈ p.older := by
    intro t ht
    rw [htrim.older] at ht
    rw [htrim.split]
    exact List.mem_append_right _ ht
  exact
    { dir :=
        { names := by
            rw [htrim.dir, names_removeFiles, h.dir.names, List.filter_map,
              ← hchunks]
            rfl
          follows := h.dir.follows.sublist hsub
          file_lt := by
            intro c hc
            rw [htrim.dir, files_removeFiles]
            exact h.dir.file_lt c (hsub.subset hc)
          base_lt := fun c hc => h.dir.base_lt c (hsub.subset hc)
          written := by
            intro c hc
            rw [hsame]
            exact h.dir.written c (hsub.subset hc) }
      ordered := by
        have hordered := h.ordered
        rw [htrim.segments] at hordered
        exact (List.pairwise_append.mp hordered).right.left
      segment := by
        intro t ht
        rcases h.segment t (hrest t ht) with hstale | ⟨c, hc, hserves⟩
        · exact Or.inl hstale
        refine Or.inr ⟨c, mem_chunksLeft.mpr ⟨hc, ?_⟩,
          hserves.congr (hsame c)⟩
        intro s hs
        rw [← hserves.path]
        exact hfiles s hs t (List.mem_append_left _ ht)
      chunk := by
        intro c hc
        rcases mem_chunksLeft.mp hc with ⟨hold, hleft⟩
        rcases h.chunk c hold with ⟨s, hs, hserves⟩
        rw [htrim.split] at hs
        rcases List.mem_append.mp hs with hgone | hstays
        · exact absurd hserves.path.symm (hleft s hgone)
        · rw [← htrim.older] at hstays
          exact ⟨s, hstays, hserves.congr (hsame c)⟩
      active := by
        rw [htrim.active]
        exact h.active.congr (hsame last)
      unfrozen := by
        rw [htrim.active]
        exact h.unfrozen
      maxSize := by
        rw [htrim.active, htrim.maxSegSize]
        exact h.maxSize }

theorem OpenLog.left_of_start (h : OpenLog p front last)
    (htrim : Trimmed p gone rest q)
    (hfiles : forall s, s ∈ gone -> forall t, t ∈ q.segments -> t.path ≠ s.path)
    {c : Chunk} (hc : c ∈ front)
    (hstart : startOffset (chunksLeft gone front ++ [last]) < c.next) :
    c ∈ chunksLeft gone front := by
  rcases h.chunk c hc with ⟨s, hs, hserves⟩
  have hleft := h.trimmed htrim hfiles
  have hfirst : exists c₁ t, t ∈ q.segments ∧ Serves q.dir t c₁ ∧
      startOffset (chunksLeft gone front ++ [last]) = c₁.base := by
    cases hchunks : chunksLeft gone front ++ [last] with
    | nil => simp at hchunks
    | cons c₁ more =>
    have hmem : c₁ ∈ chunksLeft gone front ++ [last] := by
      rw [hchunks]
      exact List.mem_cons_self ..
    rcases hleft.exists_segment hmem with ⟨t, ht, hserves'⟩
    exact ⟨c₁, t, ht, hserves', rfl⟩
  rcases hfirst with ⟨c₁, t, ht, hserves', hbase⟩
  refine mem_chunksLeft.mpr ⟨hc, ?_⟩
  intro g hg hpath
  rw [htrim.split] at hs
  rcases List.mem_append.mp hs with hgone | hstays
  · have hordered := h.ordered
    rw [htrim.segments] at hordered
    have hle := (List.pairwise_append.mp hordered).right.right s hgone t ht
    rw [hserves.stands.nextOff, hserves'.stands.baseOff, ← hbase] at hle
    rw [Chunk.next] at hstart
    omega
  · rw [← htrim.older] at hstays
    exact hfiles g hg s (List.mem_append_left _ hstays)
      (hserves.path.trans hpath)

theorem Retained.trimmed (h : Retained p front last assigned)
    (htrim : Trimmed p gone rest q)
    (hfiles : forall s, s ∈ gone -> forall t, t ∈ q.segments -> t.path ≠ s.path) :
    Retained q (chunksLeft gone front) last assigned where
  opened := h.opened.trimmed htrim hfiles
  small := by
    rw [htrim.maxSegSize]
    exact h.small
  length := h.length
  numbered := h.numbered
  stored := by
    intro i e he hstart
    have hsub : forall c, c ∈ chunksLeft gone front ++ [last] ->
        c ∈ front ++ [last] := by
      intro c hc
      rcases List.mem_append.mp hc with hold | hlast
      · exact List.mem_append_left _ (mem_chunksLeft.mp hold).left
      · exact List.mem_append_right _ hlast
    have hle : startOffset (front ++ [last]) ≤ i := by
      cases hchunks : chunksLeft gone front ++ [last] with
      | nil => simp at hchunks
      | cons c₁ more =>
      have hmem := hsub c₁ (by rw [hchunks]; exact List.mem_cons_self ..)
      rw [hchunks] at hstart
      exact (startOffset_le h.opened.dir hmem).trans hstart
    rcases h.stored i e he hle with ⟨c, hc, k, hoff, hd, hinside⟩
    have hk := (List.getElem?_eq_some_iff.mp hd).1
    refine ⟨c, ?_, k, hoff, hd, ?_⟩
    · rcases List.mem_append.mp hc with hold | hlast
      · refine List.mem_append_left _
          (h.opened.left_of_start htrim hfiles hold ?_)
        rw [Chunk.next]
        omega
      · exact List.mem_append_right _ hlast
    · rw [htrim.dir, content_removeFiles]
      exact hinside

theorem CutsPrefix.path_ne {stays : List Segment} {removes : Nat -> Bool}
    (h : CutsPrefix (gone ++ stays) removes)
    (hgone : forall i, i < gone.length -> removes i = true)
    (hstays : forall j, j < stays.length -> removes (gone.length + j) = false)
    {s t : Segment} (hs : s ∈ gone) (ht : t ∈ stays) : t.path ≠ s.path := by
  rcases List.mem_iff_getElem?.mp hs with ⟨i, hi⟩
  rcases List.mem_iff_getElem?.mp ht with ⟨j, hj⟩
  have hilt := (List.getElem?_eq_some_iff.mp hi).1
  have hjlt := (List.getElem?_eq_some_iff.mp hj).1
  have hne := (h i (by rw [List.length_append]; omega) (hgone i hilt)).right
    (gone.length + j) (by rw [List.length_append]; omega) (hstays j hjlt)
  rw [List.getElem?_append_left hilt, hi,
    List.getElem?_append_right (Nat.le_add_right _ _), Nat.add_sub_cancel_left,
    hj] at hne
  intro hpath
  exact hne (congrArg some hpath.symm)

/-!
## Removing frozen segments
-/

variable {policy : RetentionPolicy}

theorem policyRemoves_cons {s : Segment} (hs : s.frozen = true)
    (segments : List Segment) (i : Nat) :
    policyRemoves policy (s :: segments) (i + 1) =
      policyRemoves policy segments i := by
  simp [policyRemoves, hs]

theorem policyRemoves_append (hgone : forall s, s ∈ gone -> s.frozen = true)
    (segments : List Segment) (i : Nat) :
    policyRemoves policy (gone ++ segments) (gone.length + i) =
      policyRemoves policy segments i := by
  induction gone with
  | nil => rw [List.nil_append, List.length_nil, Nat.zero_add]
  | cons s gone ih =>
  rw [List.cons_append, List.length_cons, Nat.add_right_comm,
    policyRemoves_cons (hgone s (List.mem_cons_self ..)),
    ih (fun t ht => hgone t (List.mem_cons_of_mem _ ht))]

def Downward (removes : Nat -> Bool) (n : Nat) : Prop :=
  forall i, i < n -> removes i = true -> forall j, j < i -> removes j = true

structure Cut (policy : RetentionPolicy) (exceeded : List Segment -> Bool)
    (p : Partition) (gone rest : List Segment) (q : Partition) : Prop where
  trimmed : Trimmed p gone rest q
  frozen : forall s, s ∈ gone -> s.frozen = true
  removed : forall i, i < gone.length ->
    policyRemoves policy p.segments i = true
  done : exceeded q.segments = false ∨ forall s, s ∈ rest -> s.frozen = false

theorem Cut.nothing {exceeded : List Segment -> Bool}
    (hdone : exceeded p.segments = false ∨
      forall s, s ∈ p.older -> s.frozen = false) :
    Cut policy exceeded p [] p.older p where
  trimmed := Trimmed.refl p
  frozen := by
    intro s hs
    cases hs
  removed := by
    intro i hi
    cases hi
  done := hdone

theorem removeFrozen_cut (exceeded : List Segment -> Bool)
    (hexceeded : forall segments, exceeded segments = true ->
      (tooMany policy segments || tooLarge policy segments) = true) {k : Nat}
    (hk : p.older.length ≤ k)
    (hdown : Downward (policyRemoves policy p.segments) p.segments.length) :
    exists gone rest, Cut policy exceeded p gone rest
      (removeFrozen exceeded k p).1 := by
  induction k generalizing p with
  | zero =>
    have hnil := List.length_eq_zero_iff.mp (Nat.le_zero.mp hk)
    refine ⟨[], p.older, Cut.nothing (Or.inr ?_)⟩
    intro s hs
    rw [hnil] at hs
    cases hs
  | succ k ih =>
  unfold removeFrozen
  by_cases hmore : exceeded p.segments = true
  · rw [if_pos hmore]
    cases hfind : findOldestFrozen p.older with
    | none =>
      refine ⟨[], p.older, Cut.nothing (Or.inr ?_)⟩
      intro s hs
      simpa using List.find?_eq_none.mp hfind s hs
    | some s =>
    rcases List.find?_eq_some_iff_append.mp hfind with
      ⟨hfrozen, front, back, hsplit, hfront⟩
    have hunfrozen : front.filter (fun t => !t.frozen) = front :=
      List.filter_eq_self.mpr (fun t ht => hfront t ht)
    have hsegments : p.segments = front ++ s :: (back ++ [p.active]) := by
      rw [segments, hsplit, List.append_assoc, List.cons_append]
    have hgoes : policyRemoves policy p.segments front.length = true := by
      have hleft := hexceeded _ hmore
      rw [hsegments] at hleft
      unfold policyRemoves
      simp only [hsegments, List.getElem?_append_right (Nat.le_refl _),
        Nat.sub_self, List.getElem?_cons_zero, List.take_left,
        List.drop_left, hunfrozen, hleft, hfrozen, Bool.and_self]
    -- nothing stays before it, so it is the first one
    have hfirst : front = [] := by
      cases front with
      | nil => rfl
      | cons t front =>
      have hlt : (t :: front).length < p.segments.length := by
        rw [hsegments, List.length_append, List.length_cons,
          List.length_cons]
        omega
      have hzero := hdown _ hlt hgoes 0 (Nat.succ_pos _)
      have ht := hfront t (List.mem_cons_self ..)
      rw [hsegments] at hzero
      unfold policyRemoves at hzero
      simp at hzero ht
      rw [ht] at hzero
      exact absurd hzero.left Bool.false_ne_true
    subst hfirst
    rw [List.nil_append] at hsplit
    rw [List.nil_append] at hsegments
    have hone : Trimmed p [s] back (p.removeSegment s) :=
      { split := hsplit
        older := by
          show p.older.erase s = back
          rw [hsplit, List.erase_cons_head]
        dir := rfl
        active := rfl
        maxSegSize := rfl }
    have hrest := hone.segments
    rw [List.singleton_append] at hrest
    have hdown' : Downward
        (policyRemoves policy (p.removeSegment s).segments)
        (p.removeSegment s).segments.length := by
      intro i hi hremoves j hj
      rw [← policyRemoves_cons hfrozen, ← hrest] at hremoves ⊢
      refine hdown (i + 1) ?_ hremoves (j + 1) (Nat.succ_lt_succ hj)
      rw [hrest, List.length_cons]
      exact Nat.succ_lt_succ hi
    have hk' : (p.removeSegment s).older.length ≤ k := by
      rw [hone.older]
      rw [hsplit, List.length_cons] at hk
      omega
    rcases ih hk' hdown' with ⟨gone, rest, hcut⟩
    refine ⟨s :: gone, rest, ?_⟩
    exact
      { trimmed := hone.trans hcut.trimmed
        frozen := by
          intro t ht
          rcases List.mem_cons.mp ht with hsame | hother
          · rw [hsame]
            exact hfrozen
          · exact hcut.frozen t hother
        removed := by
          intro i hi
          cases i with
          | zero => exact hgoes
          | succ i =>
          rw [hrest, policyRemoves_cons hfrozen]
          exact hcut.removed i (Nat.lt_of_succ_lt_succ hi)
        done := hcut.done }
  · rw [if_neg hmore]
    exact ⟨[], p.older, Cut.nothing (Or.inl (Bool.eq_false_iff.mpr hmore))⟩

variable {segments : List Segment}

theorem sublist_left (i : Nat) :
    ((segments.take i).filter (fun t => !t.frozen) ++
      segments.drop i).Sublist segments := by
  have hsub := List.Sublist.append
    (List.filter_sublist (p := fun t => !t.frozen) (l := segments.take i))
    (List.Sublist.refl (segments.drop i))
  rw [List.take_append_drop] at hsub
  exact hsub

theorem tooMany_of_sublist {segments' : List Segment}
    (hsub : segments.Sublist segments') (h : tooMany policy segments = true) :
    tooMany policy segments' = true := by
  have hle : countFrozen segments ≤ countFrozen segments' :=
    hsub.countP_le
  rcases of_decide_eq_true h with ⟨hpos, hlt⟩
  exact decide_eq_true ⟨hpos, by omega⟩

theorem totalSize_le_of_sublist {segments' : List Segment}
    (hsub : segments.Sublist segments') :
    totalSize segments ≤ totalSize segments' := by
  unfold totalSize
  induction hsub with
  | slnil => exact Nat.le_refl _
  | cons s _ ih =>
    rw [List.map_cons, List.sum_cons]
    exact ih.trans (Nat.le_add_left _ _)
  | cons_cons s _ ih =>
  rw [List.map_cons, List.map_cons, List.sum_cons, List.sum_cons]
  exact Nat.add_le_add_left ih _

theorem tooLarge_of_sublist {segments' : List Segment}
    (hsub : segments.Sublist segments') (h : tooLarge policy segments = true) :
    tooLarge policy segments' = true := by
  have hle := totalSize_le_of_sublist hsub
  rcases of_decide_eq_true h with ⟨hpos, hlt⟩
  exact decide_eq_true ⟨hpos, by omega⟩

theorem policyRemoves_left {r : Partition} {mid more : List Segment}
    (hmany : Cut policy (tooMany policy) p gone mid q)
    (hlarge : Cut policy (tooLarge policy) q more rest r)
    (hactive : p.active.frozen = false) (i : Nat) :
    policyRemoves policy r.segments i = false := by
  apply Bool.eq_false_iff.mpr
  intro hremoves
  unfold policyRemoves at hremoves
  cases hget : r.segments[i]? with
  | none =>
    rw [hget] at hremoves
    cases hremoves
  | some t =>
  simp only [hget, Bool.and_eq_true, Bool.or_eq_true] at hremoves
  rcases hremoves with ⟨hfrozen, hexceeded⟩
  have ht : t ∈ rest := by
    have hmem := List.mem_of_getElem? hget
    rw [segments, hlarge.trimmed.older, hlarge.trimmed.active,
      hmany.trimmed.active] at hmem
    rcases List.mem_append.mp hmem with hrest | hlast
    · exact hrest
    · rw [List.mem_singleton.mp hlast, hactive] at hfrozen
      cases hfrozen
  have hmid : t ∈ mid := by
    rw [← hmany.trimmed.older, hlarge.trimmed.split]
    exact List.mem_append_right _ ht
  have hsub : r.segments.Sublist q.segments := by
    rw [hlarge.trimmed.segments]
    exact List.sublist_append_right _ _
  rcases hexceeded with hcount | hsize
  · have hq := tooMany_of_sublist ((sublist_left i).trans hsub) hcount
    rcases hmany.done with hdone | hdone
    · rw [hdone] at hq
      cases hq
    · rw [hdone t hmid] at hfrozen
      cases hfrozen
  have hr := tooLarge_of_sublist (sublist_left i) hsize
  rcases hlarge.done with hdone | hdone
  · rw [hdone] at hr
    cases hr
  · rw [hdone t ht] at hfrozen
    cases hfrozen

variable (h : Retained p front last assigned)

include h

theorem Retained.enforceRetention
    (hcuts : CutsPrefix p.segments (policyRemoves policy p.segments)) :
    exists front', Retained (p.enforceRetention policy).1 front' last
      assigned := by
  have hdown : Downward (policyRemoves policy p.segments) p.segments.length :=
    fun i hi hremoves => (hcuts i hi hremoves).left
  rcases removeFrozen_cut (tooMany policy)
    (fun _ hmany => by rw [hmany, Bool.true_or]) (Nat.le_refl _) hdown with
    ⟨gone, mid, hmany⟩
  have hsegments := hmany.trimmed.segments
  have hshift : forall segments i,
      policyRemoves policy (gone ++ segments) (gone.length + i) =
        policyRemoves policy segments i :=
    fun segments i => policyRemoves_append hmany.frozen segments i
  have hdown' : Downward
      (policyRemoves policy
        (removeFrozen (tooMany policy) p.older.length p).1.segments)
      (removeFrozen (tooMany policy) p.older.length p).1.segments.length := by
    intro i hi hremoves j hj
    rw [← hshift, ← hsegments] at hremoves ⊢
    refine hdown (gone.length + i) ?_ hremoves _ (Nat.add_lt_add_left hj _)
    rw [hsegments, List.length_append]
    exact Nat.add_lt_add_left hi _
  rcases removeFrozen_cut (tooLarge policy)
    (fun _ hlarge => by rw [hlarge, Bool.or_true]) (Nat.le_refl _) hdown' with
    ⟨more, rest, hlarge⟩
  have htrim := hmany.trimmed.trans hlarge.trimmed
  have hfrozen : forall s, s ∈ gone ++ more -> s.frozen = true := by
    intro s hs
    rcases List.mem_append.mp hs with hone | htwo
    · exact hmany.frozen s hone
    · exact hlarge.frozen s htwo
  refine ⟨_, h.trimmed htrim ?_⟩
  intro s hs t ht
  rw [htrim.segments] at hcuts
  apply hcuts.path_ne _ _ hs ht
  · intro i hi
    rw [← htrim.segments]
    by_cases hone : i < gone.length
    · exact hmany.removed i hone
    have hadd : i = gone.length + (i - gone.length) := by omega
    rw [List.length_append] at hi
    rw [hadd, hsegments, hshift]
    exact hlarge.removed _ (by omega)
  · intro j _
    rw [policyRemoves_append hfrozen]
    exact policyRemoves_left hmany hlarge h.opened.unfrozen j

/-!
## Moving the start of the log
-/

omit h in
theorem removeBefore_eq (target : Nat) (older : List Segment) (dir : Disk) :
    (removeBefore target older dir).1 =
        older.dropWhile (fun s => decide (s.nextOff ≤ target)) ∧
      (removeBefore target older dir).2.1 = removeFiles dir
        (older.takeWhile (fun s => decide (s.nextOff ≤ target))) := by
  induction older generalizing dir with
  | nil => exact ⟨rfl, rfl⟩
  | cons s older ih =>
  unfold removeBefore
  by_cases hle : s.nextOff ≤ target
  · rw [if_pos hle, List.dropWhile_cons, List.takeWhile_cons]
    simp only [hle, decide_true, if_true]
    exact ih (dir.remove s.path)
  · rw [if_neg hle, List.dropWhile_cons, List.takeWhile_cons]
    simp only [hle, decide_false, Bool.false_eq_true, if_false, true_and]
    rfl

theorem Retained.advanceLogStart {target : Nat}
    (hcuts : CutsPrefix p.segments (targetRemoves target p.segments)) :
    exists front', Retained (p.advanceLogStart target).1 front' last
      assigned := by
  rcases removeBefore_eq target p.older p.dir with ⟨holder, hdir⟩
  have htrim : Trimmed p
      (p.older.takeWhile (fun s => decide (s.nextOff ≤ target)))
      (p.older.dropWhile (fun s => decide (s.nextOff ≤ target)))
      (p.advanceLogStart target).1 :=
    { split := List.takeWhile_append_dropWhile.symm
      older := holder
      dir := hdir
      active := rfl
      maxSegSize := rfl }
  refine ⟨_, h.trimmed htrim ?_⟩
  intro s hs t ht
  have hsegments := htrim.segments
  rw [hsegments] at hcuts
  apply hcuts.path_ne _ _ hs ht
  · intro i hi
    unfold targetRemoves
    rw [Bool.and_eq_true, List.take_append_of_le_length hi]
    constructor
    · apply decide_eq_true
      rw [List.length_append, segments, List.length_append,
        List.length_singleton]
      omega
    · apply List.all_eq_true.mpr
      intro x hx
      exact List.all_eq_true.mp List.all_takeWhile x (List.mem_of_mem_take hx)
  intro j hj
  unfold targetRemoves
  rw [Bool.and_eq_false_iff]
  cases hrest : (p.advanceLogStart target).1.older with
  | nil =>
    left
    apply decide_eq_false
    rw [List.length_append, segments, hrest, List.nil_append,
      List.length_singleton]
    omega
  | cons x rest =>
  right
  apply List.all_eq_false.mpr
  refine ⟨x, ?_, ?_⟩
  · rw [List.take_append, segments, hrest, Nat.add_assoc,
      Nat.add_sub_cancel_left, List.cons_append, List.take_succ_cons]
    exact List.mem_append_right _ (List.mem_cons_self ..)
  rw [htrim.older] at hrest
  have hfalse := List.head?_dropWhile_not
    (fun s : Segment => decide (s.nextOff ≤ target)) p.older
  rw [hrest] at hfalse
  simpa using hfalse

/-!
## Runs
-/

variable {front' : List Chunk} {last' : Chunk}

theorem Retained.stored_of_grown {r : Partition × Except SegmentError Nat}
    (hgrown : Grown p front last data r front' last') (i : Nat)
    {e : Nat × Bytes} (he : assigned[i]? = some e)
    (hstart : startOffset (front' ++ [last']) ≤ i) :
    At r.1.dir (front' ++ [last']) i e.2 := by
  rw [hgrown.start] at hstart
  exact hgrown.keeps i e.2 (h.stored i e he hstart)

theorem Retained.of_grown_error {e : SegmentError}
    (hgrown : Grown p front last data (q, .error e) front' last') :
    Retained q front' last' assigned where
  opened := hgrown.log
  small := by
    have hsize := hgrown.maxSegSize
    rw [show q.maxSegSize = p.maxSegSize from hsize]
    exact h.small
  length := hgrown.outcome.trans h.length
  numbered := h.numbered
  stored := fun i _ he hstart => h.stored_of_grown hgrown i he hstart

theorem Retained.of_grown_ok {offset : Nat}
    (hgrown : Grown p front last data (q, .ok offset) front' last') :
    Retained q front' last' (assigned ++ [(offset, data)]) := by
  rcases hgrown.outcome with ⟨hoff, hnext, hat⟩
  have hlast : forall (i : Nat) e,
      (assigned ++ [(offset, data)])[i]? = some e ->
        assigned[i]? = some e ∨ i = offset ∧ e = (offset, data) := by
    intro i e he
    by_cases hlt : i < assigned.length
    · rw [List.getElem?_append_left hlt] at he
      exact Or.inl he
    have hle := (List.getElem?_eq_some_iff.mp he).1
    rw [List.length_append, List.length_singleton] at hle
    have hi : i = assigned.length := by omega
    rw [hi, List.getElem?_concat_length] at he
    cases he
    exact Or.inr ⟨hi.trans (h.length.symm.trans hoff.symm), rfl⟩
  exact
    { opened := hgrown.log
      small := by
        have hsize := hgrown.maxSegSize
        rw [show q.maxSegSize = p.maxSegSize from hsize]
        exact h.small
      length := by
        rw [hnext, h.length, List.length_append, List.length_singleton]
      numbered := by
        intro i e he
        rcases hlast i e he with hmem | ⟨hi, hnew⟩
        · exact h.numbered i e hmem
        · rw [hi, hnew]
      stored := by
        intro i e he hstart
        rcases hlast i e he with hmem | ⟨hi, hnew⟩
        · exact h.stored_of_grown hgrown i hmem hstart
        · rw [hi, hnew]
          exact hat }

theorem Retained.append (hroom : assigned.length + 1 < 2 ^ 64) (data : Bytes)
    (now : Nat) :
    exists front' last',
      startOffset (front' ++ [last']) = startOffset (front ++ [last]) ∧
        match p.append data now with
        | (q, .ok offset) =>
          Retained q front' last' (assigned ++ [(offset, data)])
        | (q, .error _) => Retained q front' last' assigned := by
  rcases h.opened.append data now (Or.inl h.small)
    (by rw [h.length]; exact hroom) with ⟨front', last', hgrown⟩
  refine ⟨front', last', hgrown.start, ?_⟩
  rcases hr : p.append data now with ⟨q, e | offset⟩
  · rw [hr] at hgrown
    exact h.of_grown_error hgrown
  · rw [hr] at hgrown
    exact h.of_grown_ok hgrown

theorem Retained.of_reloaded
    (hreloaded : Reloaded p.dir (front ++ [last]) p.maxSegSize q front' last') :
    front' = front ∧ last' = last ∧ Retained q front last assigned := by
  rcases hreloaded.same with hnil | hsame
  · simp at hnil
  rcases List.append_inj' hsame rfl with ⟨hfront, hlast⟩
  have hlast' : last' = last := by simpa using hlast
  subst hfront
  subst hlast'
  refine ⟨rfl, rfl, ?_⟩
  exact
    { opened := hreloaded.log
      small := by
        rw [hreloaded.maxSegSize]
        exact h.small
      length := h.length
      numbered := h.numbered
      stored := fun i e he hstart =>
        hreloaded.keeps i e.2 (h.stored i e he hstart) }

theorem Retained.reopen (now : Nat) :
    exists q, openPartition p.dir p.topicName p.partitionID p.maxSegSize now =
        .ok q ∧ Retained q front last assigned := by
  rcases h.opened.dir.openPartition p.topicName p.partitionID p.maxSegSize now
    with ⟨q, front', last', hopen, hreloaded⟩
  exact ⟨q, hopen, (h.of_reloaded hreloaded).right.right⟩

theorem Retained.keepsSuffix :
    KeepsSuffix p assigned where
  suffix := by
    refine ⟨assigned.take (startOffset (front ++ [last])),
      assigned.drop (startOffset (front ++ [last])),
      (List.take_append_drop _ _).symm, h.read_iff, ?_⟩
    intro now
    rcases h.reopen now with ⟨q, hopen, hq⟩
    exact ⟨q, hopen, fun offset data hmem => (hq.read_iff offset data).mpr hmem⟩
  active := by
    rw [h.opened.dir.names, h.opened.active.path, h.opened.active.file]
    exact List.mem_map_of_mem
      (List.mem_append_right _ (List.mem_singleton_self last))

omit h

theorem retained_openPartition {topic : Bytes} {id maxSegSize opened : Nat}
    (hsmall : maxSegSize < 2 ^ 32)
    (hopen : openPartition Disk.empty topic id maxSegSize opened = .ok p) :
    exists front last, Retained p front last [] := by
  rcases LogDir.nil.openPartition topic id maxSegSize opened with
    ⟨q, front, last, hq, hreloaded⟩
  rw [hopen] at hq
  cases hq
  refine ⟨front, last, ?_⟩
  exact
    { opened := hreloaded.log
      small := by
        rw [hreloaded.maxSegSize]
        exact hsmall
      length := hreloaded.next
      numbered := by
        intro i e he
        cases he
      stored := by
        intro i e he
        cases he }

theorem Retained.step {s s' : Partition × List (Nat × Bytes)}
    (h : Retained s.1 front last s.2) {a : RetentionAction}
    (hroom : s.2.length + 1 < 2 ^ 64) (hspares : Spares s a)
    (hstep : retentionStep s a = some s') :
    (exists front' last', Retained s'.1 front' last' s'.2) ∧
      s'.2.length ≤ s.2.length + 1 := by
  cases a with
  | append data now =>
    rcases h.append hroom data now with ⟨front', last', _, happend⟩
    unfold retentionStep at hstep
    rcases hr : s.1.append data now with ⟨q, e | offset⟩
    · rw [hr] at happend
      simp only [hr] at hstep
      cases hstep
      exact ⟨⟨front', last', happend⟩, Nat.le_succ _⟩
    rw [hr] at happend
    simp only [hr] at hstep
    cases hstep
    refine ⟨⟨front', last', happend⟩, ?_⟩
    rw [List.length_append, List.length_singleton]
  | enforceRetention policy =>
    cases hstep
    rcases h.enforceRetention hspares with ⟨front', hleft⟩
    exact ⟨⟨front', last, hleft⟩, Nat.le_succ _⟩
  | advanceLogStart target =>
    cases hstep
    rcases h.advanceLogStart hspares with ⟨front', hleft⟩
    exact ⟨⟨front', last, hleft⟩, Nat.le_succ _⟩
  | reopen now =>
  rcases h.reopen now with ⟨q, hopen, hq⟩
  simp only [retentionStep, hopen] at hstep
  cases hstep
  exact ⟨⟨front, last, hq⟩, Nat.le_succ _⟩

/-- What holds after some actions, if there were not too many of them. -/
def RetainedAfter (s : Partition × List (Nat × Bytes))
    (past : List RetentionAction) : Prop :=
  past.length < 2 ^ 64 ->
    (exists front last, Retained s.1 front last s.2) ∧
      s.2.length ≤ past.length

theorem retained_run {topic : Bytes} {id maxSegSize opened : Nat}
    {actions : List RetentionAction} {s : Partition × List (Nat × Bytes)}
    (hsmall : maxSegSize < 2 ^ 32)
    (hopen : openPartition Disk.empty topic id maxSegSize opened = .ok p)
    (hfew : actions.length < 2 ^ 64)
    (hspares : Meets retentionStep Spares (p, []) actions)
    (hrun : run? retentionStep (p, []) actions = some s) :
    exists front last, Retained s.1 front last s.2 := by
  have hinv : RetainedAfter s ([] ++ actions) := by
    apply run?_trace_of_meets _ _ hspares hrun
    · intro s past a s' h hone hstep hlength
      rw [List.length_append, List.length_singleton] at hlength ⊢
      rcases h (by omega) with ⟨⟨front, last, hretained⟩, hle⟩
      rcases hretained.step (by omega) hone hstep with ⟨hnext, hle'⟩
      exact ⟨hnext, by omega⟩
    · intro _
      exact ⟨retained_openPartition hsmall hopen, Nat.le_refl _⟩
  exact (hinv hfew).left

/--
In every run in which retention removes nothing but a prefix of the segments,
it cuts nothing but a prefix of the log.
-/
theorem keepsSuffix_of_spares {topic : Bytes} {id maxSegSize opened : Nat}
    {p : Partition} {actions : List RetentionAction}
    {s : Partition × List (Nat × Bytes)} (hsmall : maxSegSize < 2 ^ 32)
    (hopen : openPartition Disk.empty topic id maxSegSize opened = .ok p)
    (hfew : actions.length < 2 ^ 64)
    (hspares : Meets retentionStep Spares (p, []) actions)
    (hrun : run? retentionStep (p, []) actions = some s) :
    KeepsSuffix s.1 s.2 := by
  rcases retained_run hsmall hopen hfew hspares hrun with
    ⟨front, last, hretained⟩
  exact hretained.keepsSuffix

def cutTwice : List RetentionAction :=
  [.append [1] 0, .append [2] 0, .append [3] 0,
    .enforceRetention { maxSize := 0, maxSegments := 1 },
    .advanceLogStart 2, .reopen 0]

theorem keepsSuffix_cutTwice :
    exists p s, openPartition Disk.empty [] 0 40 0 = .ok p ∧
      run? retentionStep (p, []) cutTwice = some s ∧
      s.1.read 2 = .ok [3] ∧ s.1.read 1 = .error (.offsetNotFound 1) ∧
      KeepsSuffix s.1 s.2 := by
  have hcheck : (openPartition Disk.empty [] 0 40 0).toOption.bind (fun p =>
      (run? retentionStep (p, []) cutTwice).map (fun s =>
        decide (Meets retentionStep Spares (p, []) cutTwice ∧
          s.1.read 2 = .ok [3] ∧
          s.1.read 1 = .error (.offsetNotFound 1)))) = some true := by
    decide +kernel
  rcases hp : openPartition Disk.empty [] 0 40 0 with e | p
  · rw [hp] at hcheck
    cases hcheck
  rw [hp] at hcheck
  rcases Option.map_eq_some_iff.mp hcheck with ⟨s, hrun, hdecide⟩
  rcases of_decide_eq_true hdecide with ⟨hspares, htwo, hone⟩
  exact ⟨p, s, rfl, hrun, htwo, hone,
    keepsSuffix_of_spares (by decide) hp (by decide) hspares hrun⟩

/-!
## Two cuts that are no prefixes
-/

/-- Two records that fit in no segment, and then the policy. -/
def cutActive : List RetentionAction :=
  [.append (List.replicate 9 0) 0, .append (List.replicate 9 0) 0,
    .enforceRetention { maxSize := 0, maxSegments := 1 }, .append [1] 0]

/-- The segment opened again is not frozen, those after it are. -/
def cutMiddle : List RetentionAction :=
  [.append [1] 0, .append [2] 0, .reopen 0, .append [3] 0, .append [4] 0,
    .enforceRetention { maxSize := 0, maxSegments := 1 }]

/--
The file of the active segment is removed, and its record with it once the
partition is opened again; or a record goes that others come before.
-/
theorem cuts_no_prefix :
    exists p, openPartition Disk.empty [] 0 40 0 = .ok p ∧
      (exists s, run? retentionStep (p, []) cutActive = some s ∧
        s.2 = [(0, [1])] ∧ s.1.dir.names = [] ∧ s.1.read 0 = .ok [1] ∧
        (exists s', run? retentionStep (p, []) (cutActive ++ [.reopen 0]) =
          some s' ∧ s'.1.read 0 = .error (.offsetNotFound 0)) ∧
        ¬ KeepsSuffix s.1 s.2) ∧
      exists s, run? retentionStep (p, []) cutMiddle = some s ∧
        s.2 = [(0, [1]), (1, [2]), (2, [3]), (3, [4])] ∧
        s.1.read 0 = .ok [1] ∧ s.1.read 1 = .error (.offsetNotFound 1) ∧
        s.1.read 2 = .ok [3] ∧ ¬ KeepsSuffix s.1 s.2 := by
  have hcheck : (openPartition Disk.empty [] 0 40 0).toOption.bind (fun p =>
      (run? retentionStep (p, []) cutActive).bind (fun s =>
        (run? retentionStep (p, []) (cutActive ++ [.reopen 0])).bind (fun s' =>
          (run? retentionStep (p, []) cutMiddle).map (fun t =>
            decide (s.2 = [(0, [1])] ∧ s.1.dir.names = [] ∧
              s.1.read 0 = .ok [1] ∧
              s'.1.read 0 = .error (.offsetNotFound 0) ∧
              t.2 = [(0, [1]), (1, [2]), (2, [3]), (3, [4])] ∧
              t.1.read 0 = .ok [1] ∧
              t.1.read 1 = .error (.offsetNotFound 1) ∧
              t.1.read 2 = .ok [3]))))) = some true := by
    decide +kernel
  rcases hp : openPartition Disk.empty [] 0 40 0 with e | p
  · rw [hp] at hcheck
    cases hcheck
  rw [hp] at hcheck
  rcases Option.bind_eq_some_iff.mp hcheck with ⟨_, hsame, h0⟩
  cases hsame
  rcases Option.bind_eq_some_iff.mp h0 with ⟨s, hactive, h1⟩
  rcases Option.bind_eq_some_iff.mp h1 with ⟨s', hreopen, h2⟩
  rcases Option.map_eq_some_iff.mp h2 with ⟨t, hmiddle, hdecide⟩
  rcases of_decide_eq_true hdecide with
    ⟨hassigned, hnames, hread, hlost, hall, hzero, hone, htwo⟩
  refine ⟨p, rfl, ⟨s, hactive, hassigned, hnames, hread,
    ⟨s', hreopen, hlost⟩, ?_⟩, t, hmiddle, hall, hzero, hone, htwo, ?_⟩
  · intro hkeeps
    have hmem := hkeeps.active
    rw [hnames] at hmem
    cases hmem
  intro hkeeps
  rcases hkeeps.suffix with ⟨cut, kept, hsplit, hkept, _⟩
  rw [hall] at hsplit
  have hfirst := (hkept 0 [1]).mp hzero
  cases cut with
  | nil =>
    have hsecond : (1, [2]) ∈ kept := by
      rw [← List.nil_append kept, ← hsplit]
      decide
    rw [(hkept 1 [2]).mpr hsecond] at hone
    cases hone
  | cons x cut =>
  have htail : [(1, [2]), (2, [3]), (3, [4])] = cut ++ kept :=
    (List.cons.inj hsplit).right
  have hmem : (0, [1]) ∈ cut ++ kept := List.mem_append_right _ hfirst
  rw [← htail] at hmem
  exact absurd hmem (by decide)

end Partition

end Storage
end ChimeraMQ
