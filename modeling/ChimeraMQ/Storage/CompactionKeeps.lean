import ChimeraMQ.Storage.CompactionFiles

/-!
# What a compaction keeps

Runs of appends, compactions and reopens of one partition.  The file that a
compaction writes is not one that is loaded when the partition is opened again,
and the next compaction removes it, so a record is kept exactly if it stands in
a file that the compaction does not touch as well.
-/

namespace ChimeraMQ
namespace Storage

open Foundation
open Message

inductive PartitionAction where
  | append (data : Bytes) (now : Nat)
  | compact (order : List Bytes) (now : Nat)
  | reopen (now : Nat)

namespace LogCompactor

def step (lc : LogCompactor) (p : Partition) :
    PartitionAction -> Option Partition
  | .append data now => some (p.append data now).1
  | .compact order now =>
    match lc.compact p order now with
    | some (.ok p) => some p
    | _ => none
  | .reopen now =>
    (Partition.openPartition p.dir p.topicName p.partitionID p.maxSegSize
      now).toOption

def reached (lc : LogCompactor) (topic : Bytes) (id maxSegSize now : Nat)
    (actions : List PartitionAction) : Option Partition :=
  match Partition.openPartition Disk.empty topic id maxSegSize now with
  | .error _ => none
  | .ok p => run? lc.step p actions

def ShortRecord : PartitionAction -> Prop
  | .append data _ => data.length < 2 ^ 32
  | _ => True

/-!
## What is to be kept
-/

def routingKey (lc : LogCompactor) (id data : Bytes) : Option Bytes :=
  match lc.decrypt id data with
  | none => none
  | some data =>
    match unmarshal data with
    | .error _ => none
    | .ok env => some env.routingKey

def newest (key : Bytes -> Option Bytes) : List Bytes -> List Bytes
  | [] => []
  | data :: rest =>
    match key data with
    | none => newest key rest
    | some k =>
      if k = [] ∨ forall d, d ∈ rest -> key d ≠ some k then
        data :: newest key rest
      else newest key rest

def kept (lc : LogCompactor) (p : Partition) : List Bytes :=
  newest (lc.routingKey (segID p))
    ((frozenSegments p).flatMap (fun s => fileRecords (p.content s)))

def compactedRecords (p q : Partition) : List Bytes :=
  (q.segments.filter (fun s =>
    p.segments.all (fun t => t.frozen || decide (t.path ≠ s.path)))).flatMap
      (fun s => fileRecords (q.content s))

structure Keeps (lc : LogCompactor) (p q : Partition) : Prop where
  holds : forall data, data ∈ lc.kept p -> q.Holds data
  distinct : DistinctKeys (compactedRecords p q)

structure KeepsData (lc : LogCompactor) (p q : Partition) : Prop where
  now : lc.Keeps p q
  reopened : forall now, exists r,
    Partition.openPartition q.dir q.topicName q.partitionID q.maxSegSize now =
      .ok r ∧ lc.Keeps p r

/-- The record stands in a file that the compaction does not touch. -/
def Untouched (p : Partition) (data : Bytes) : Prop :=
  exists s, s ∈ p.segments ∧ s.frozen = false ∧
    (s.path, s.file) ∈ p.dir.names ∧
    (forall t, t ∈ p.segments -> t.frozen = true -> t.path ≠ s.path) ∧
    data ∈ fileRecords (p.content s)

instance (p : Partition) (data : Bytes) : Decidable (Untouched p data) :=
  inferInstanceAs (Decidable (exists s, s ∈ p.segments ∧ _))

/-!
## Runs keep the files in order
-/

variable {p q : Partition}

theorem inOrder_step {lc : LogCompactor} (hdec : lc.ShortDecrypt)
    (hp : p.InOrder) {a : PartitionAction} (hshort : ShortRecord a)
    (hstep : lc.step p a = some q) : q.InOrder := by
  cases a with
  | append data now =>
    cases hstep
    exact hp.append hshort now
  | compact order now =>
    unfold step at hstep
    cases hcompact : lc.compact p order now with
    | none =>
      simp only [hcompact] at hstep
      cases hstep
    | some r =>
    rcases compact_spec hp hdec hcompact with
      ⟨_, hsame⟩ | ⟨_, q', hq, hswapped⟩
    · simp only [hcompact, hsame] at hstep
      cases hstep
      exact hp
    · simp only [hcompact, hq] at hstep
      cases hstep
      exact hswapped.inOrder
  | reopen now =>
  unfold step at hstep
  rcases hp.files.toLoadable.openPartition p.topicName p.partitionID
    p.maxSegSize now with ⟨q', hopen, hreopened⟩
  simp only [hopen, Except.toOption] at hstep
  cases hstep
  exact hreopened.inOrder

theorem inOrder_reached {lc : LogCompactor} (hdec : lc.ShortDecrypt)
    {topic : Bytes} {id maxSegSize now : Nat} {actions : List PartitionAction}
    (hshort : forall a, a ∈ actions -> ShortRecord a)
    (hreached : lc.reached topic id maxSegSize now actions = some p) :
    p.InOrder := by
  have hempty : Partition.Loadable Disk.empty :=
    { proper := Disk.proper_empty
      records := by
        intro e he
        cases he }
  have hkeep : forall s a s', s.InOrder -> ShortRecord a ->
      lc.step s a = some s' -> s'.InOrder :=
    fun _ _ _ hp hone hstep => inOrder_step hdec hp hone hstep
  rcases hempty.openPartition topic id maxSegSize now with
    ⟨q, hq, hreopened⟩
  unfold reached at hreached
  rw [hq] at hreached
  exact run?_invariant_of_meets hkeep hreopened.inOrder
    (meets_of_forall hshort) hreached

/-!
## Keeping the data
-/

theorem Swapped.holds_of_untouched (h : Swapped p q) {data : Bytes}
    (hdata : Untouched p data) : q.Holds data := by
  rcases hdata with ⟨s, hs, hfrozen, _, _, hmem⟩
  rcases h.segments with ⟨t, hsegments, _⟩
  refine ⟨s, ?_, ?_⟩
  · rw [hsegments]
    exact List.mem_cons_of_mem _ (mem_unfrozen.mpr ⟨hs, hfrozen⟩)
  · rw [Partition.content, h.content s hs hfrozen]
    exact hmem

theorem Swapped.holds_reopened {r : Partition} (hp : p.InOrder)
    (h : Swapped p q) (hr : Partition.Reopened q.dir r) {data : Bytes} :
    r.Holds data <-> Untouched p data := by
  rw [hr.holds]
  constructor
  · rintro ⟨e, he, hload, hdata⟩
    rcases (h.names e hload).mp he with ⟨hname, hfree⟩
    rcases hp.files.named e hname hload with ⟨s, hs, hpath, hfile⟩
    have hfrozen : s.frozen = false := by
      cases hf : s.frozen with
      | false => rfl
      | true => exact absurd hpath.symm (hfree s hs hf)
    have hsame := h.content s hs hfrozen
    refine ⟨s, hs, hfrozen, ?_, ?_, ?_⟩
    · rw [hpath, hfile]
      exact hname
    · intro t ht htfrozen
      rw [hpath]
      exact (hfree t ht htfrozen).symm
    · rw [Partition.content, ← hsame, hfile]
      exact hdata
  · rintro ⟨s, hs, hfrozen, hname, hfree, hdata⟩
    have hload := hp.files.loadable s hs hfrozen
    refine ⟨(s.path, s.file), ?_, hload, ?_⟩
    · exact (h.names _ hload).mpr
        ⟨hname, fun t ht htfrozen => (hfree t ht htfrozen).symm⟩
    · rw [h.content s hs hfrozen]
      exact hdata

theorem mem_compactedRecords {data : Bytes} :
    data ∈ compactedRecords p q <-> exists s, s ∈ q.segments ∧
      (forall t, t ∈ p.segments -> t.frozen = false -> t.path ≠ s.path) ∧
      data ∈ fileRecords (q.content s) := by
  unfold compactedRecords
  rw [List.mem_flatMap]
  constructor
  · rintro ⟨s, hs, hdata⟩
    rcases List.mem_filter.mp hs with ⟨hmem, hall⟩
    refine ⟨s, hmem, ?_, hdata⟩
    intro t ht hfrozen
    have hone := List.all_eq_true.mp hall t ht
    simpa [hfrozen] using hone
  rintro ⟨s, hs, hfree, hdata⟩
  refine ⟨s, List.mem_filter.mpr ⟨hs, ?_⟩, hdata⟩
  apply List.all_eq_true.mpr
  intro t ht
  cases hf : t.frozen with
  | true => rfl
  | false => simpa using hfree t ht hf

theorem Swapped.distinctKeys (hp : p.InOrder) (h : Swapped p q) :
    DistinctKeys (compactedRecords p q) := by
  rcases h.segments with ⟨s, hsegments, hname, hkeys⟩
  have hnew : p.segments.all
      (fun t => t.frozen || decide (t.path ≠ s.path)) = true := by
    apply List.all_eq_true.mpr
    intro t ht
    cases hf : t.frozen with
    | true => rfl
    | false =>
    have hload := hp.files.loadable t ht hf
    have hne : t.path ≠ s.path := by
      intro heq
      rw [heq, hname] at hload
      cases hload
    simpa using hne
  have hold : (p.segments.filter (fun t => !t.frozen)).filter (fun s =>
      p.segments.all (fun t => t.frozen || decide (t.path ≠ s.path))) =
        [] := by
    apply List.filter_eq_nil_iff.mpr
    intro t ht hall
    rcases mem_unfrozen.mp ht with ⟨hmem, hfrozen⟩
    have hself := List.all_eq_true.mp hall t hmem
    simp [hfrozen] at hself
  unfold compactedRecords
  rw [hsegments, List.filter_cons, if_pos hnew, hold, List.flatMap_cons,
    List.flatMap_nil, List.append_nil]
  exact hkeys

theorem Swapped.compactedRecords_reopened {r : Partition} (hp : p.InOrder)
    (h : Swapped p q) (hr : Partition.Reopened q.dir r) :
    compactedRecords p r = [] := by
  apply List.eq_nil_iff_forall_not_mem.mpr
  intro data hdata
  rcases mem_compactedRecords.mp hdata with ⟨s, hs, hfree, hmem⟩
  rcases hr.segments s hs with hloaded | hnil
  · rcases (h.names _ hloaded.loadable).mp hloaded.mem with ⟨hname, hgone⟩
    rcases hp.files.named _ hname hloaded.loadable with ⟨t, ht, hpath, _⟩
    cases hf : t.frozen with
    | false => exact hfree t ht hf hpath
    | true => exact hgone t ht hf hpath.symm
  · rw [hnil] at hmem
    cases hmem

theorem Swapped.keepsData_iff {lc : LogCompactor} (hp : p.InOrder)
    (h : Swapped p q) :
    lc.KeepsData p q <->
      forall data, data ∈ lc.kept p -> Untouched p data := by
  have hopen := fun now => h.inOrder.files.toLoadable.openPartition
    q.topicName q.partitionID q.maxSegSize now
  constructor
  · intro hkeeps data hdata
    rcases hopen 0 with ⟨r, hr, hreopened⟩
    rcases hkeeps.reopened 0 with ⟨r', hr', hkept⟩
    rw [hr] at hr'
    cases hr'
    exact (h.holds_reopened hp hreopened).mp (hkept.holds data hdata)
  intro huntouched
  refine
    { now :=
        { holds := fun data hdata =>
            h.holds_of_untouched (huntouched data hdata)
          distinct := h.distinctKeys hp }
      reopened := ?_ }
  intro now
  rcases hopen now with ⟨r, hr, hreopened⟩
  refine ⟨r, hr, ?_⟩
  exact
    { holds := fun data hdata =>
        (h.holds_reopened hp hreopened).mpr (huntouched data hdata)
      distinct := by
        rw [h.compactedRecords_reopened hp hreopened]
        exact List.nodup_nil }

/--
A compaction keeps the data exactly if it has nothing to compact or every record
to be kept stands in a file that it does not touch as well.
-/
theorem compact_keepsData_iff {lc : LogCompactor} (hdec : lc.ShortDecrypt)
    {topic : Bytes} {id maxSegSize opened now : Nat} {p : Partition}
    {actions : List PartitionAction} {order : List Bytes}
    {r : Except SegmentError Partition}
    (hshort : forall a, a ∈ actions -> ShortRecord a)
    (hreached : lc.reached topic id maxSegSize opened actions = some p)
    (hcompact : lc.compact p order now = some r) :
    exists q, r = .ok q ∧
      ((Compacts p -> lc.KeepsData p q) <->
        (Compacts p -> forall data, data ∈ lc.kept p -> Untouched p data)) := by
  have hp := inOrder_reached hdec hshort hreached
  rcases compact_spec hp hdec hcompact with ⟨hnothing, hr⟩ | ⟨hsome, q, hr, hq⟩
  · exact ⟨p, hr, fun _ h => absurd h hnothing, fun _ h => absurd h hnothing⟩
  refine ⟨q, hr, ?_⟩
  constructor
  · intro hkeeps _
    exact (hq.keepsData_iff hp).mp (hkeeps hsome)
  · intro huntouched _
    exact (hq.keepsData_iff hp).mpr (huntouched hsome)

def keyedRecord (key : UInt8) : Bytes :=
  match marshal { Envelope.zero with routingKey := [key] } with
  | .ok data => data
  | .error _ => []

def threeRecords (a b c : UInt8) : Option Partition :=
  (newLogCompactor .keyBased).reached [] 0 110 0
    [.append (keyedRecord a) 0, .append (keyedRecord b) 0,
      .append (keyedRecord c) 0]

/-- One message three times, the last time in the active segment. -/
theorem compact_keepsData_repeatedRecord :
    exists p q, threeRecords 1 1 1 = some p ∧
      (newLogCompactor .keyBased).compact p [keyedRecord 1] 0 =
        some (.ok q) ∧
      Compacts p ∧ (newLogCompactor .keyBased).KeepsData p q := by
  have hcheck : ((threeRecords 1 1 1).bind (fun p =>
      ((newLogCompactor .keyBased).compact p [keyedRecord 1] 0).map (fun _ =>
        decide (Compacts p ∧ forall data,
          data ∈ (newLogCompactor .keyBased).kept p ->
            Untouched p data)))) = some true := by
    decide +kernel
  rcases Option.bind_eq_some_iff.mp hcheck with ⟨p, hreached, h⟩
  rcases Option.map_eq_some_iff.mp h with ⟨r, hcompact, hdecide⟩
  rcases of_decide_eq_true hdecide with ⟨hcompacts, huntouched⟩
  have hshort : forall a, a ∈ [PartitionAction.append (keyedRecord 1) 0,
      .append (keyedRecord 1) 0, .append (keyedRecord 1) 0] ->
        ShortRecord a := by
    intro a ha
    have hone : a = .append (keyedRecord 1) 0 := by
      simpa using ha
    have hlength : (keyedRecord 1).length < 2 ^ 32 := by
      decide +kernel
    rw [hone]
    exact hlength
  have hdec : (newLogCompactor .keyBased).ShortDecrypt := by
    intro id data plain hplain
    cases hplain
    exact Nat.le_refl _
  rcases compact_keepsData_iff hdec hshort hreached hcompact with
    ⟨q, hq, hiff⟩
  subst hq
  exact ⟨p, q, hreached, hcompact, hcompacts,
    hiff.mpr (fun _ => huntouched) hcompacts⟩

/-- Three messages with different keys: two of them are not loaded again. -/
theorem compact_loses_keys :
    exists p q, threeRecords 1 2 3 = some p ∧
      (newLogCompactor .keyBased).compact p [keyedRecord 1, keyedRecord 2] 0 =
        some (.ok q) ∧
      Compacts p ∧ ¬ (newLogCompactor .keyBased).KeepsData p q := by
  have hcheck : (threeRecords 1 2 3).bind (fun p =>
      ((newLogCompactor .keyBased).compact p
        [keyedRecord 1, keyedRecord 2] 0).bind (fun r =>
          r.toOption.bind (fun q =>
            (Partition.openPartition q.dir q.topicName q.partitionID
              q.maxSegSize 0).toOption.map (fun t =>
                decide (Compacts p ∧
                  keyedRecord 1 ∈ (newLogCompactor .keyBased).kept p ∧
                  ¬ t.Holds (keyedRecord 1)))))) = some true := by
    decide +kernel
  rcases Option.bind_eq_some_iff.mp hcheck with ⟨p, hreached, h1⟩
  rcases Option.bind_eq_some_iff.mp h1 with ⟨r, hcompact, h2⟩
  rcases Option.bind_eq_some_iff.mp h2 with ⟨q, hq, h3⟩
  rcases Option.map_eq_some_iff.mp h3 with ⟨t, ht, hdecide⟩
  rcases of_decide_eq_true hdecide with ⟨hcompacts, hkept, hlost⟩
  cases r with
  | error e => cases hq
  | ok q' =>
  cases hq
  refine ⟨p, q, hreached, hcompact, hcompacts, ?_⟩
  intro hkeeps
  rcases hkeeps.reopened 0 with ⟨t', ht', hkept'⟩
  rw [ht'] at ht
  cases ht
  exact hlost (hkept'.holds _ hkept)

end LogCompactor

end Storage
end ChimeraMQ
