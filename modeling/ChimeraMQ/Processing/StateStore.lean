import ChimeraMQ.Warm.LSMCompact

/-!
# State of stream processors

Writes stay in a cache until a flush puts them into the tree, one after the
other, while the tree flushes and merges in the background.  A value that is
`none` is nil, and the key is deleted.  A flush has the store to itself.
-/

namespace ChimeraMQ
namespace Processing

open Foundation Warm

structure StateResult where
  value : Bytes
  ok : Bool
  deleted : Bool
deriving DecidableEq

structure StateStore where
  lsm : LSMTree
  cache : List (Bytes × Option Bytes)
  flushing : Option (List (Bytes × Option Bytes))

def defaultLSMConfig (sizing : BloomSizing) : LSMConfig where
  memTableCapacity := 4 * 1024 * 1024
  sizing := sizing
  maxLevel := 7
  maxSSTables := 100

namespace StateStore

def ofTree (lsm : LSMTree) : StateStore where
  lsm := lsm
  cache := []
  flushing := none

end StateStore

def newStateStore (dir : LSMDir) (sizing : BloomSizing) (sstSeq : Nat) :
    StateStore :=
  .ofTree (newLSMTree dir (defaultLSMConfig sizing) sstSeq)

def cached : Option Bytes -> StateResult
  | none => { value := [], ok := false, deleted := true }
  | some value => { value := value, ok := true, deleted := false }

def stored : Option (Bytes × Bool) -> StateResult
  | none => { value := [], ok := false, deleted := false }
  | some (value, deleted) => { value := value, ok := true, deleted := deleted }

namespace StateStore

def get (s : StateStore) (key : Bytes) : StateResult :=
  match getEntry key s.cache with
  | some v => cached v
  | none => stored (s.lsm.get key)

def put (s : StateStore) (key : Bytes) (value : Option Bytes) : StateStore :=
  { s with cache := setEntry key value s.cache }

def delete (s : StateStore) (key : Bytes) : StateStore :=
  { s with cache := setEntry key none s.cache }

def beginFlush (s : StateStore) (order : List (Bytes × Option Bytes)) :
    Option StateStore :=
  if order.Perm s.cache then some { s with flushing := some order } else none

def persist (lsm : LSMTree) (now : Nat) :
    Bytes × Option Bytes -> Option LSMTree
  | (key, none) => lsm.delete key now
  | (key, some value) => lsm.put key value now

def flushEntry (s : StateStore) (now : Nat) : Option StateStore :=
  match s.flushing with
  | some (e :: rest) =>
    match persist s.lsm now e with
    | none => some { s with flushing := none }
    | some lsm => some { s with lsm := lsm, flushing := some rest }
  | _ => none

def endFlush (s : StateStore) : Option StateStore :=
  match s.flushing with
  | some [] => some { s with cache := [], flushing := none }
  | _ => none

end StateStore

def inBackground : LSMAction -> Bool
  | .takeImmutable | .writeImmutable _ | .installTable | .compactL0 _ _ => true
  | _ => false

inductive StateAction where
  | put (key : Bytes) (value : Option Bytes)
  | delete (key : Bytes)
  | beginFlush (order : List (Bytes × Option Bytes))
  | flushEntry (now : Nat)
  | endFlush
  | background (a : LSMAction)

namespace StateStore

def step (s : StateStore) : StateAction -> Option StateStore
  | .put key value =>
    if s.flushing.isSome then none else some (s.put key value)
  | .delete key => if s.flushing.isSome then none else some (s.delete key)
  | .beginFlush order =>
    if s.flushing.isSome then none else s.beginFlush order
  | .flushEntry now => s.flushEntry now
  | .endFlush => s.endFlush
  | .background a =>
    if inBackground a then
      (s.lsm.step a).map (fun lsm => { s with lsm := lsm })
    else none

/-!
## What is read
-/

/-- What the store has of a key, in the flush of the tree under way as well. -/
def contents (s : StateStore) (key : Bytes) : StateResult :=
  match getEntry key s.cache with
  | some v => cached v
  | none => stored (s.lsm.holds key)

/-- A read of the key does not depend on the flush of the tree under way. -/
def Reads (s : StateStore) (key : Bytes) : Prop :=
  key ∈ s.cache.map Prod.fst ∨ Uncovered s.lsm key

theorem stored_injective : Function.Injective stored := by
  intro a b h
  rcases a with _ | ⟨va, da⟩ <;> rcases b with _ | ⟨vb, db⟩ <;>
    simp_all [stored]

theorem get_eq_contents_iff (s : StateStore) (key : Bytes) :
    s.get key = s.contents key <-> s.Reads key := by
  rw [get, contents, Reads]
  cases hentry : getEntry key s.cache with
  | some v =>
    have hmem : key ∈ s.cache.map Prod.fst :=
      List.mem_map_of_mem (mem_of_getEntry hentry)
    exact iff_of_true rfl (Or.inl hmem)
  | none =>
  have hnot := getEntry_eq_none_iff.mp hentry
  rw [or_iff_right hnot, ← get_eq_holds_iff]
  exact stored_injective.eq_iff

end StateStore

def afterState (key : Bytes) (r : StateResult) : StateAction -> StateResult
  | .put k v => if key = k then cached v else r
  | .delete k => if key = k then cached none else r
  | _ => r

def latestState (actions : List StateAction) (key : Bytes)
    (r : StateResult) : StateResult :=
  actions.foldl (afterState key) r

def MergesSpare (lsm : LSMTree) : LSMAction -> Prop
  | .compactL0 _ _ => lsm.MergeSpares
  | _ => True

/--
No key is deleted that a flush is about to write, tables are not too large, and
a merge of the tree spares what the tree holds.
-/
def Spares (s : StateStore) : StateAction -> Prop
  | .beginFlush _ => forall e, e ∈ s.cache -> e.2 ≠ none
  | .background a => TablesFit s.lsm a ∧ MergesSpare s.lsm a
  | _ => True

/-!
## Runs
-/

structure Tracks (start : LSMTree) (s : StateStore)
    (past : List StateAction) : Prop where
  sound : s.lsm.Sound
  opened : s.lsm.closed = false
  keys : (s.cache.map Prod.fst).Nodup
  contents : forall key,
    s.contents key = latestState past key (stored (start.holds key))
  pending : forall rest, s.flushing = some rest -> forall e, e ∈ rest ->
    e ∈ s.cache ∧ e.2 ≠ none
  written : forall rest, s.flushing = some rest -> forall key,
    key ∉ rest.map Prod.fst -> stored (s.lsm.holds key) = s.contents key

theorem tracks_ofTree {lsm : LSMTree} (hsound : lsm.Sound)
    (hopen : lsm.closed = false) : Tracks lsm (.ofTree lsm) [] where
  sound := hsound
  opened := hopen
  keys := List.nodup_nil
  contents := fun _ => rfl
  pending := fun _ h => nomatch h
  written := fun _ h => nomatch h

variable {start : LSMTree} {s s' : StateStore} {past : List StateAction}

theorem latestState_concat (a : StateAction) (key : Bytes) (r : StateResult) :
    latestState (past ++ [a]) key r =
      afterState key (latestState past key r) a := by
  rw [latestState, List.foldl_append]
  rfl

namespace Tracks

variable (h : Tracks start s past)

include h

theorem concat {a : StateAction} (ha : forall key r, afterState key r a = r) :
    Tracks start s (past ++ [a]) where
  sound := h.sound
  opened := h.opened
  keys := h.keys
  contents := by
    intro key
    rw [latestState_concat, ha]
    exact h.contents key
  pending := h.pending
  written := h.written

theorem set (hidle : s.flushing = none) {key : Bytes} {value : Option Bytes}
    {a : StateAction}
    (ha : forall j r, afterState j r a = if j = key then cached value else r) :
    Tracks start { s with cache := setEntry key value s.cache }
      (past ++ [a]) where
  sound := h.sound
  opened := h.opened
  keys := nodup_keys_setEntry h.keys
  contents := by
    intro j
    rw [latestState_concat, ha, ← h.contents, StateStore.contents]
    by_cases hj : j = key
    · rw [if_pos hj, hj, getEntry_setEntry]
    · rw [if_neg hj, getEntry_setEntry_ne hj]
      rfl
  pending := by
    intro rest hrest
    rw [hidle] at hrest
    cases hrest
  written := by
    intro rest hrest
    rw [hidle] at hrest
    cases hrest

theorem beginFlush {order : List (Bytes × Option Bytes)}
    (horder : order.Perm s.cache)
    (hvalues : forall e, e ∈ s.cache -> e.2 ≠ none) :
    Tracks start { s with flushing := some order } past where
  sound := h.sound
  opened := h.opened
  keys := h.keys
  contents := h.contents
  pending := by
    intro rest hrest e he
    cases hrest
    have hmem := horder.mem_iff.mp he
    exact ⟨hmem, hvalues e hmem⟩
  written := by
    intro rest hrest key hkey
    cases hrest
    have hnot : key ∉ s.cache.map Prod.fst := by
      intro hmem
      exact hkey ((horder.map Prod.fst).mem_iff.mpr hmem)
    show _ = StateStore.contents _ key
    rw [StateStore.contents, getEntry_of_not_mem hnot]

theorem flushEntry {key value : Bytes} {rest : List (Bytes × Option Bytes)}
    (hflush : s.flushing = some ((key, some value) :: rest)) {now : Nat}
    {lsm : LSMTree} (hput : s.lsm.put key value now = some lsm) :
    Tracks start { s with lsm := lsm, flushing := some rest } past := by
  have hmoves := h.sound.put h.opened hput
  have hentry : getEntry key s.cache = some (some value) :=
    getEntry_of_mem h.keys (h.pending _ hflush _ (List.mem_cons_self ..)).left
  have hsame : forall j, StateStore.contents
      { s with lsm := lsm, flushing := some rest } j = s.contents j := by
    intro j
    rw [StateStore.contents, StateStore.contents, hmoves.all]
    by_cases hj : j = key
    · rw [hj, hentry]
    · rw [afterAction, if_neg hj]
  refine ⟨hmoves.sound, hmoves.closed.trans h.opened, h.keys, ?_, ?_, ?_⟩
  · intro j
    rw [hsame]
    exact h.contents j
  · intro rest' hrest e he
    cases hrest
    exact h.pending _ hflush e (List.mem_cons_of_mem _ he)
  intro rest' hrest j hj
  cases hrest
  rw [hsame]
  show stored (lsm.holds j) = _
  rw [hmoves.all, afterAction]
  by_cases hkey : j = key
  · rw [if_pos hkey, StateStore.contents, hkey, hentry]
    rfl
  rw [if_neg hkey]
  apply h.written _ hflush
  rw [List.map_cons, List.mem_cons]
  rintro (hfirst | hrest)
  · exact hkey hfirst
  · exact hj hrest

theorem refuse :
    Tracks start { s with flushing := none } past where
  sound := h.sound
  opened := h.opened
  keys := h.keys
  contents := h.contents
  pending := fun _ h => nomatch h
  written := fun _ h => nomatch h

theorem endFlush (hflush : s.flushing = some []) :
    Tracks start { s with cache := [], flushing := none } past where
  sound := h.sound
  opened := h.opened
  keys := List.nodup_nil
  contents := by
    intro key
    rw [← h.contents]
    exact h.written [] hflush key List.not_mem_nil
  pending := fun _ h => nomatch h
  written := fun _ h => nomatch h

theorem background {lsm : LSMTree} (hsound : lsm.Sound)
    (hclosed : lsm.closed = s.lsm.closed)
    (hholds : forall key, lsm.holds key = s.lsm.holds key) :
    Tracks start { s with lsm := lsm } past := by
  have hsame : forall key,
      StateStore.contents { s with lsm := lsm } key = s.contents key := by
    intro key
    rw [StateStore.contents, StateStore.contents, hholds]
  refine ⟨hsound, hclosed.trans h.opened, h.keys, ?_, h.pending, ?_⟩
  · intro key
    rw [hsame]
    exact h.contents key
  · intro rest hrest key hkey
    rw [hsame, hholds]
    exact h.written rest hrest key hkey

end Tracks

theorem holds_inBackground {lsm lsm' : LSMTree} (h : lsm.Sound)
    (hopen : lsm.closed = false) {a : LSMAction} (ha : inBackground a = true)
    (hfits : TablesFit lsm a) (hspares : MergesSpare lsm a)
    (hstep : lsm.step a = some lsm') :
    lsm'.Sound ∧ lsm'.closed = lsm.closed ∧
      forall key, lsm'.holds key = lsm.holds key := by
  have hmoves : forall {b}, Moves lsm lsm' b ->
      (forall key r, afterAction key r b = r) ->
      lsm'.Sound ∧ lsm'.closed = lsm.closed ∧
        forall key, lsm'.holds key = lsm.holds key := by
    intro b hmoves hb
    exact ⟨hmoves.sound, hmoves.closed,
      fun key => (hmoves.all key).trans (hb key _)⟩
  cases a with
  | takeImmutable => exact hmoves (h.takeImmutable hstep) (fun _ _ => rfl)
  | writeImmutable now =>
    exact hmoves (h.writeImmutable hfits hstep) (fun _ _ => rfl)
  | installTable =>
    exact hmoves (h.installTable hopen hstep) (fun _ _ => rfl)
  | compactL0 order now =>
    have hsteps := (h.compactL0 hfits hstep).left
    exact ⟨hsteps.sound, hsteps.closed,
      (LSMTree.holds_compactL0_iff h hfits hstep).mpr hspares⟩
  | _ => cases ha

theorem Tracks.step (h : Tracks start s past) {a : StateAction}
    (hspares : Spares s a) (hstep : s.step a = some s') :
    Tracks start s' (past ++ [a]) := by
  cases a with
  | put key value =>
    simp only [StateStore.step] at hstep
    split at hstep
    · cases hstep
    · rename_i hidle
      cases hstep
      exact h.set (by simpa using hidle) (fun _ _ => rfl)
  | delete key =>
    simp only [StateStore.step] at hstep
    split at hstep
    · cases hstep
    · rename_i hidle
      cases hstep
      exact h.set (by simpa using hidle) (fun _ _ => rfl)
  | beginFlush order =>
    simp only [StateStore.step, StateStore.beginFlush] at hstep
    split at hstep
    · cases hstep
    split at hstep
    · rename_i horder
      cases hstep
      exact (h.beginFlush horder hspares).concat (fun _ _ => rfl)
    · cases hstep
  | flushEntry now =>
    simp only [StateStore.step, StateStore.flushEntry] at hstep
    split at hstep
    · rename_i e rest hflush
      rcases e with ⟨key, value⟩
      have hvalue :=
        (h.pending _ hflush _ (List.mem_cons_self ..)).right
      cases value with
      | none => exact absurd rfl hvalue
      | some value =>
      split at hstep
      · cases hstep
        exact h.refuse.concat (fun _ _ => rfl)
      · rename_i lsm hput
        cases hstep
        exact (h.flushEntry hflush hput).concat (fun _ _ => rfl)
    · cases hstep
  | endFlush =>
    simp only [StateStore.step, StateStore.endFlush] at hstep
    split at hstep
    · rename_i hflush
      cases hstep
      exact (h.endFlush hflush).concat (fun _ _ => rfl)
    · cases hstep
  | background a =>
  simp only [StateStore.step] at hstep
  split at hstep
  · rename_i ha
    rcases Option.map_eq_some_iff.mp hstep with ⟨lsm, hlsm, hs⟩
    rcases holds_inBackground h.sound h.opened ha hspares.left
      hspares.right hlsm with ⟨hsound, hclosed, hholds⟩
    rw [← hs]
    exact (h.background hsound hclosed hholds).concat (fun _ _ => rfl)
  · cases hstep

/--
In every run that spares what is held, a key is read as it was last written
exactly when the read does not depend on a flush under way.
-/
theorem get_latestState_iff {lsm : LSMTree} (hsound : lsm.Sound)
    (hopen : lsm.closed = false) {actions : List StateAction}
    (hspares : Meets StateStore.step Spares (.ofTree lsm) actions)
    (hrun : run? StateStore.step (.ofTree lsm) actions = some s) (key : Bytes) :
    s.get key = latestState actions key (stored (lsm.holds key)) <->
      s.Reads key := by
  have hstep : forall s past a s', Tracks lsm s past -> Spares s a ->
      StateStore.step s a = some s' -> Tracks lsm s' (past ++ [a]) :=
    fun _ _ _ _ h hc hone => h.step hc hone
  have h := run?_trace_of_meets hstep (tracks_ofTree hsound hopen) hspares hrun
  rw [List.nil_append] at h
  rw [← h.contents]
  exact s.get_eq_contents_iff key

/-- A test that tells of no run with a merge. -/
def sparesUnmerged (s : StateStore) : StateAction -> Bool
  | .beginFlush _ => s.cache.all (fun e => e.2.isSome)
  | .background (.compactL0 _ _) => false
  | .background a => decide (TablesFit s.lsm a)
  | _ => true

theorem spares_of_unmerged (s : StateStore) (a : StateAction)
    (h : sparesUnmerged s a = true) : Spares s a := by
  cases a with
  | beginFlush order =>
    intro e he hnone
    have hsome := List.all_eq_true.mp h e he
    rw [hnone] at hsome
    cases hsome
  | background a =>
    cases a with
    | compactL0 order now => cases h
    | _ => exact ⟨of_decide_eq_true h, trivial⟩
  | _ => trivial

def flushedKey : List StateAction :=
  [.put [107] (some [1]), .beginFlush [([107], some [1])], .flushEntry 10,
    .endFlush, .background .takeImmutable, .background (.writeImmutable 11),
    .background .installTable]

theorem get_latestState_flushedKey :
    exists s, run? StateStore.step
        (.ofTree (newLSMTree .empty tinyConfig 0)) flushedKey = some s ∧
      s.get [107] = { value := [1], ok := true, deleted := false } := by
  have hcheck : (run? StateStore.step
      (.ofTree (newLSMTree .empty tinyConfig 0)) flushedKey).map
        (fun s => decide (s.lsm.flushGet [107] = none)) = some true := by
    decide +kernel
  have hmeets : Meets StateStore.step
      (fun s a => sparesUnmerged s a = true)
      (.ofTree (newLSMTree .empty tinyConfig 0)) flushedKey := by
    decide +kernel
  rcases Option.map_eq_some_iff.mp hcheck with ⟨s, hrun, hidle⟩
  refine ⟨s, hrun, ?_⟩
  exact (get_latestState_iff (LSMTree.sound_newLSMTree tinyConfig 0) rfl
    (hmeets.mono spares_of_unmerged) hrun [107]).mpr
    (Or.inr (Or.inr (Or.inl (of_decide_eq_true hidle))))

/-- A key that was deleted exists again when the store has been flushed. -/
theorem not_get_flushed_deleted :
    ¬ forall (before flush : List StateAction) (s s' : StateStore),
      run? StateStore.step (newStateStore .empty tinyConfig.sizing 0) before =
        some s ->
      run? StateStore.step s flush = some s' ->
      (forall key r, latestState flush key r = r) ->
      forall key, s.Reads key -> s'.Reads key -> s'.get key = s.get key := by
  intro hall
  have hcheck : (run? StateStore.step
      ((newStateStore .empty tinyConfig.sizing 0).delete [107])
      [.beginFlush [([107], none)], .flushEntry 10, .endFlush]).map
        (fun s => (s.get [107], decide (s.lsm.flushGet [107] = none))) =
        some ({ value := [], ok := true, deleted := true }, true) := by
    decide +kernel
  rcases Option.map_eq_some_iff.mp hcheck with ⟨s', hrun, hvalues⟩
  rcases Prod.mk.inj hvalues with ⟨hget, hidle⟩
  have hsame := hall [.delete [107]] _ _ s' rfl hrun (fun _ _ => rfl) [107]
    (Or.inl (by decide)) (Or.inr (Or.inr (Or.inl (of_decide_eq_true hidle))))
  rw [hget] at hsame
  revert hsame
  decide

end Processing
end ChimeraMQ
