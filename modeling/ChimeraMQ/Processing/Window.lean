import ChimeraMQ.Foundation.Bytes
import ChimeraMQ.Foundation.Entries
import ChimeraMQ.Foundation.Run
import Mathlib.Algebra.Order.BigOperators.Group.List

/-!
# Windows

Events are counted in windows of a fixed size, or in sessions that end when a
key has been inactive for a while.  The windows stand in a map by the time at
which they were opened; the order in which the search for a session loops over
it is an argument.  Sliding windows, which put an event in several windows, are
left out.
-/

namespace ChimeraMQ
namespace Processing

open Foundation

inductive WindowType where
  | tumbling
  | session
  | hopping
deriving DecidableEq

structure WindowConfig where
  type : WindowType
  size : Int64
  gap : Int64

structure WindowState where
  key : Bytes
  data : Bytes
  count : Nat
  lastEvent : Int64
deriving DecidableEq

structure Window where
  openTime : Int64
  closeTime : Int64
  keys : List (Bytes × WindowState)
deriving DecidableEq

/-- The windows by their opening times; a closed manager has no map. -/
structure WindowManager where
  config : WindowConfig
  windows : Option (List (Int64 × Window))
  lastTick : Int64

/-- Why an event makes the program panic. -/
inductive WindowPanic where
  | divideByZero
  | nilMap
deriving DecidableEq

namespace WindowManager

def newWindowManager (cfg : WindowConfig) : WindowManager where
  config := cfg
  windows := some []
  lastTick := 0

def appendToKey (w : Window) (key data : Bytes) (timestamp : Int64) : Window :=
  let state := (getEntry key w.keys).getD
    { key := key, data := [], count := 0, lastEvent := timestamp }
  { w with
    keys := setEntry key
      { state with
        data := state.data ++ data
        count := state.count + 1
        lastEvent :=
          if timestamp > state.lastEvent then timestamp
          else state.lastEvent } w.keys }

def emptyWindow (openTime closeTime : Int64) : Window where
  openTime := openTime
  closeTime := closeTime
  keys := []

def addToFixedWindow (wm : WindowManager) (key : Bytes) (timestamp : Int64)
    (data : Bytes) : Except WindowPanic WindowManager :=
  let sizeNs := wm.config.size
  if sizeNs = 0 then .error .divideByZero
  else
    let openTime := (timestamp / sizeNs) * sizeNs
    let closeTime := openTime + sizeNs
    match wm.windows with
    | none => .error .nilMap
    | some windows =>
    let w := (getEntry openTime windows).getD
      (emptyWindow openTime closeTime)
    .ok { wm with
      windows := some
        (setEntry openTime (appendToKey w key data timestamp) windows) }

def inSession (gapNs : Int64) (key : Bytes) (timestamp : Int64) (w : Window) :
    Bool :=
  (getEntry key w.keys).isSome && decide (timestamp ≥ w.openTime - gapNs) &&
    decide (timestamp ≤ w.closeTime + gapNs)

def extendSession (w : Window) (key data : Bytes) (timestamp : Int64) :
    Window :=
  let w := appendToKey w key data timestamp
  { openTime := if timestamp < w.openTime then timestamp else w.openTime
    closeTime :=
      if timestamp ≥ w.closeTime then timestamp + 1 else w.closeTime
    keys :=
      match getEntry key w.keys with
      | none => w.keys
      | some state => setEntry key { state with lastEvent := timestamp } w.keys }

def findSession (wm : WindowManager) (order : MapOrder (Int64 × Window))
    (key : Bytes) (timestamp : Int64) : Option (Int64 × Window) :=
  (order.order (wm.windows.getD [])).find?
    (fun e => inSession wm.config.gap key timestamp e.2)

def addToSessionWindow (wm : WindowManager)
    (order : MapOrder (Int64 × Window)) (key : Bytes) (timestamp : Int64)
    (data : Bytes) : Except WindowPanic WindowManager :=
  match wm.windows with
  | none => .error .nilMap
  | some windows =>
  match wm.findSession order key timestamp with
  | some e =>
    .ok { wm with
      windows := some
        (setEntry e.1 (extendSession e.2 key data timestamp) windows) }
  | none =>
  let w := emptyWindow timestamp (timestamp + 1)
  .ok { wm with
    windows := some
      (setEntry timestamp (appendToKey w key data timestamp) windows) }

def addEvent (wm : WindowManager) (order : MapOrder (Int64 × Window))
    (key : Bytes) (timestamp : Int64) (data : Bytes) :
    Except WindowPanic WindowManager :=
  match wm.config.type with
  | .tumbling => wm.addToFixedWindow key timestamp data
  | .hopping => wm.addToFixedWindow key timestamp data
  | .session => wm.addToSessionWindow order key timestamp data

def statesOf (windows : List (Int64 × Window)) : List (Bytes × WindowState) :=
  windows.flatMap (fun e => e.2.keys)

def tick (wm : WindowManager) (now : Int64) :
    WindowManager × List (Bytes × WindowState) :=
  match wm.windows with
  | none => ({ wm with lastTick := now }, [])
  | some windows =>
  ({ wm with
      windows := some (windows.filter (fun e => !decide (now ≥ e.2.closeTime)))
      lastTick := now },
    statesOf (windows.filter (fun e => now ≥ e.2.closeTime)))

def close (wm : WindowManager) : WindowManager × List (Bytes × WindowState) :=
  ({ wm with windows := none }, statesOf (wm.windows.getD []))

end WindowManager

/-!
## Histories
-/

inductive WindowAction where
  | addEvent (order : MapOrder (Int64 × Window)) (key : Bytes)
      (timestamp : Int64) (data : Bytes)
  | tick (now : Int64)
  | close

structure WindowHistory where
  wm : WindowManager
  calls : List Bytes
  emitted : List (Bytes × WindowState)

namespace WindowHistory

def start (cfg : WindowConfig) : WindowHistory where
  wm := .newWindowManager cfg
  calls := []
  emitted := []

def step (h : WindowHistory) : WindowAction -> Option WindowHistory
  | .addEvent order key timestamp data =>
    match h.wm.addEvent order key timestamp data with
    | .error _ => some { h with calls := h.calls ++ [key] }
    | .ok wm => some { h with wm := wm, calls := h.calls ++ [key] }
  | .tick now =>
    some { h with
      wm := (h.wm.tick now).1
      emitted := h.emitted ++ (h.wm.tick now).2 }
  | .close =>
    some { h with
      wm := h.wm.close.1
      emitted := h.emitted ++ h.wm.close.2 }

def countOf (key : Bytes) (states : List (Bytes × WindowState)) : Nat :=
  (states.map (fun e => if e.1 = key then e.2.count else 0)).sum

def openStates (wm : WindowManager) : List (Bytes × WindowState) :=
  WindowManager.statesOf (wm.windows.getD [])

/-- Every call is counted in a state that was emitted or is open. -/
def Conserved (h : WindowHistory) : Prop :=
  forall key, h.calls.count key =
    countOf key h.emitted + countOf key (openStates h.wm)

/--
The program does not divide by zero, and where an event begins a session there
is no window for that opening time yet.
-/
def Spared (wm : WindowManager) (order : MapOrder (Int64 × Window))
    (key : Bytes) (timestamp : Int64) (windows : List (Int64 × Window)) :
    Prop :=
  if wm.config.type = .session then
    wm.findSession order key timestamp = none ->
      getEntry timestamp windows = none
  else wm.config.size ≠ 0

instance (wm : WindowManager) (order : MapOrder (Int64 × Window))
    (key : Bytes) (timestamp : Int64) (windows : List (Int64 × Window)) :
    Decidable (Spared wm order key timestamp windows) := by
  unfold Spared
  infer_instance

def Counted (h : WindowHistory) : WindowAction -> Prop
  | .addEvent order key timestamp _ =>
    match h.wm.windows with
    | none => False
    | some windows => Spared h.wm order key timestamp windows
  | .tick _ => True
  | .close => True

instance (h : WindowHistory) (a : WindowAction) : Decidable (Counted h a) := by
  cases a with
  | addEvent order key timestamp data =>
    unfold Counted
    cases h.wm.windows with
    | none => exact instDecidableFalse
    | some windows => exact inferInstanceAs (Decidable (Spared ..))
  | tick now => exact instDecidableTrue
  | close => exact instDecidableTrue

/-!
## Counting
-/

theorem countOf_append (key : Bytes) (a b : List (Bytes × WindowState)) :
    countOf key (a ++ b) = countOf key a + countOf key b := by
  unfold countOf
  rw [List.map_append, List.sum_append]

theorem countOf_perm {a b : List (Bytes × WindowState)} (h : a.Perm b)
    (key : Bytes) : countOf key a = countOf key b :=
  (h.map _).sum_eq

theorem countOf_cons (key : Bytes) (e : Bytes × WindowState)
    (states : List (Bytes × WindowState)) :
    countOf key (e :: states) =
      (if e.1 = key then e.2.count else 0) + countOf key states := rfl

structure Filled (w : Window) : Prop where
  states : w.keys ≠ []
  counts : forall e, e ∈ w.keys -> 0 < e.2.count

theorem countOf_appendToKey (w : Window) (key data : Bytes) (timestamp : Int64)
    (k : Bytes) :
    countOf k (WindowManager.appendToKey w key data timestamp).keys =
      countOf k w.keys + if key = k then 1 else 0 := by
  unfold WindowManager.appendToKey
  cases hget : getEntry key w.keys with
  | none =>
    have hperm := perm_entries_setEntry key
      ({ key := key
         data := data
         count := 1
         lastEvent := timestamp } : WindowState) w.keys
    rw [hget] at hperm
    have hcount := countOf_perm hperm k
    rw [countOf_cons] at hcount
    simp only [Option.getD_none, List.nil_append, Nat.zero_add, ite_self]
    change countOf k (setEntry _ _ _) = _ at hcount
    rw [hcount, Nat.add_comm]
  | some state =>
  have hperm := perm_entries_setEntry key
    ({ state with
        data := state.data ++ data
        count := state.count + 1
        lastEvent :=
          if timestamp > state.lastEvent then timestamp
          else state.lastEvent } : WindowState) w.keys
  rw [hget] at hperm
  have hcount := countOf_perm hperm k
  rw [countOf_append, countOf_cons] at hcount
  change countOf k [(key, state)] + countOf k (setEntry _ _ _) = _ at hcount
  rw [countOf_cons] at hcount
  simp only [Option.getD_some]
  simp only [countOf, List.map_nil, List.sum_nil, Nat.add_zero] at hcount ⊢
  split at hcount
  · rename_i hkey
    rw [if_pos hkey]
    omega
  · rename_i hkey
    rw [if_neg hkey]
    omega

theorem filled_appendToKey {w : Window}
    (hcounts : forall e, e ∈ w.keys -> 0 < e.2.count) (key data : Bytes)
    (timestamp : Int64) :
    Filled (WindowManager.appendToKey w key data timestamp) where
  states := by
    intro hnil
    have hmem : key ∈
        (WindowManager.appendToKey w key data timestamp).keys.map Prod.fst :=
      mem_keys_setEntry.mpr (Or.inl rfl)
    rw [hnil] at hmem
    cases hmem
  counts := by
    intro e he
    rcases mem_setEntry he with hnew | hold
    · rw [hnew]
      exact Nat.succ_pos _
    · exact hcounts e hold

theorem counts_emptyWindow {openTime closeTime : Int64} :
    forall e, e ∈ (WindowManager.emptyWindow openTime closeTime).keys ->
      0 < e.2.count := by
  intro e he
  cases he

theorem keys_extendSession (w : Window) (key data : Bytes)
    (timestamp : Int64) :
    exists state,
      getEntry key (WindowManager.appendToKey w key data timestamp).keys =
        some state ∧
      (WindowManager.extendSession w key data timestamp).keys =
        setEntry key { state with lastEvent := timestamp }
          (WindowManager.appendToKey w key data timestamp).keys := by
  have hset : exists state,
      getEntry key (WindowManager.appendToKey w key data timestamp).keys =
        some state := by
    unfold WindowManager.appendToKey
    exact ⟨_, getEntry_setEntry _ _ _⟩
  rcases hset with ⟨state, hget⟩
  refine ⟨state, hget, ?_⟩
  unfold WindowManager.extendSession
  simp only [hget]

theorem countOf_extendSession (w : Window) (key data : Bytes)
    (timestamp : Int64) (k : Bytes) :
    countOf k (WindowManager.extendSession w key data timestamp).keys =
      countOf k w.keys + if key = k then 1 else 0 := by
  rw [← countOf_appendToKey w key data timestamp k]
  rcases keys_extendSession w key data timestamp with ⟨state, hget, hkeys⟩
  rw [hkeys]
  have hperm := perm_entries_setEntry key { state with lastEvent := timestamp }
    (WindowManager.appendToKey w key data timestamp).keys
  rw [hget] at hperm
  have hcount := countOf_perm hperm k
  rw [countOf_append, countOf_cons] at hcount
  change countOf k [(key, state)] + _ = _ at hcount
  rw [countOf_cons] at hcount
  simp only [countOf, List.map_nil, List.sum_nil, Nat.add_zero] at hcount ⊢
  omega

theorem filled_extendSession {w : Window} (h : Filled w) (key data : Bytes)
    (timestamp : Int64) :
    Filled (WindowManager.extendSession w key data timestamp) := by
  have hfilled := filled_appendToKey h.counts key data timestamp
  rcases keys_extendSession w key data timestamp with ⟨state, hget, hkeys⟩
  constructor
  · intro hnil
    have hmem : key ∈ (setEntry key { state with lastEvent := timestamp }
        (WindowManager.appendToKey w key data timestamp).keys).map Prod.fst :=
      mem_keys_setEntry.mpr (Or.inl rfl)
    rw [← hkeys, hnil] at hmem
    cases hmem
  intro e he
  rw [hkeys] at he
  rcases mem_setEntry he with hnew | hold
  · rw [hnew]
    exact hfilled.counts (key, state) (mem_of_getEntry hget)
  · exact hfilled.counts e hold

/-!
## What an event adds and loses
-/

/-- The windows have different opening times, and none is empty. -/
structure Sound (wm : WindowManager) : Prop where
  nodup : ((wm.windows.getD []).map Prod.fst).Nodup
  filled : forall e, e ∈ wm.windows.getD [] -> Filled e.2

structure Adds (wm wm' : WindowManager) (key : Bytes)
    (lost : List (Bytes × WindowState)) : Prop where
  sound : Sound wm'
  count : forall k, countOf k lost + countOf k (openStates wm') =
    countOf k (openStates wm) + if key = k then 1 else 0

def standing (t : Int64) (windows : List (Int64 × Window)) :
    List (Bytes × WindowState) :=
  ((getEntry t windows).map Window.keys).getD []

theorem countOf_setEntry (t : Int64) (w : Window)
    (windows : List (Int64 × Window)) (k : Bytes) :
    countOf k (standing t windows) +
        countOf k (WindowManager.statesOf (setEntry t w windows)) =
      countOf k w.keys + countOf k (WindowManager.statesOf windows) := by
  have hperm := (perm_entries_setEntry t w windows).flatMap_right
    (fun e => e.2.keys)
  rw [List.flatMap_append, List.flatMap_cons] at hperm
  have hcount := countOf_perm hperm k
  rw [countOf_append, countOf_append] at hcount
  have hold : (((getEntry t windows).map (fun w => (t, w))).toList).flatMap
      (fun e => e.2.keys) = standing t windows := by
    unfold standing
    cases getEntry t windows with
    | none => rfl
    | some old => exact List.append_nil old.keys
  rw [hold] at hcount
  exact hcount

variable {wm : WindowManager} {windows : List (Int64 × Window)}

theorem Sound.adds (h : Sound wm) (hwindows : wm.windows = some windows)
    (t : Int64) {w : Window} (hw : Filled w) {key : Bytes}
    {lost : List (Bytes × WindowState)}
    (hcount : forall k, countOf k lost + countOf k w.keys =
      countOf k (standing t windows) + if key = k then 1 else 0) :
    Adds wm { wm with windows := some (setEntry t w windows) } key lost := by
  have hnodup := h.nodup
  have hfilled := h.filled
  rw [hwindows] at hnodup hfilled
  constructor
  · constructor
    · exact nodup_keys_setEntry hnodup
    intro e he
    rcases mem_setEntry he with hnew | hold
    · rw [hnew]
      exact hw
    · exact hfilled e hold
  intro k
  have hset := countOf_setEntry t w windows k
  have hone := hcount k
  have hopen : openStates wm = WindowManager.statesOf windows := by
    rw [openStates, hwindows]
    rfl
  rw [hopen]
  change countOf k lost +
    countOf k (WindowManager.statesOf (setEntry t w windows)) = _
  omega

theorem standing_getD (t openTime closeTime : Int64)
    (windows : List (Int64 × Window)) :
    ((getEntry t windows).getD
      (WindowManager.emptyWindow openTime closeTime)).keys =
        standing t windows := by
  unfold standing
  cases getEntry t windows with
  | none => rfl
  | some w => rfl

theorem Sound.counts_standing (h : Sound wm)
    (hwindows : wm.windows = some windows) (t : Int64) :
    forall e, e ∈ standing t windows -> 0 < e.2.count := by
  intro e he
  have hfilled := h.filled
  rw [hwindows] at hfilled
  unfold standing at he
  cases hget : getEntry t windows with
  | none =>
    rw [hget] at he
    cases he
  | some w =>
  rw [hget] at he
  exact (hfilled _ (mem_of_getEntry hget)).counts e he

theorem Sound.addToFixedWindow (h : Sound wm)
    (hwindows : wm.windows = some windows) (hsize : wm.config.size ≠ 0)
    (key : Bytes) (timestamp : Int64) (data : Bytes) :
    exists wm', wm.addToFixedWindow key timestamp data = .ok wm' ∧
      Adds wm wm' key [] := by
  unfold WindowManager.addToFixedWindow
  simp only [if_neg hsize, hwindows]
  refine ⟨_, rfl, ?_⟩
  apply h.adds hwindows
  · apply filled_appendToKey
    rw [standing_getD]
    exact h.counts_standing hwindows _
  · intro k
    rw [countOf_appendToKey, standing_getD]
    exact Nat.zero_add _

theorem Sound.getEntry_findSession (h : Sound wm)
    (hwindows : wm.windows = some windows) {order : MapOrder (Int64 × Window)}
    {key : Bytes} {timestamp : Int64} {e : Int64 × Window}
    (hfind : wm.findSession order key timestamp = some e) :
    getEntry e.1 windows = some e.2 := by
  have hnodup := h.nodup
  unfold WindowManager.findSession at hfind
  rw [hwindows] at hnodup hfind
  have hmem := List.mem_of_find?_eq_some hfind
  exact getEntry_of_mem hnodup ((order.perm _).mem_iff.mp hmem)

theorem Sound.addToSessionWindow (h : Sound wm)
    (hwindows : wm.windows = some windows) (order : MapOrder (Int64 × Window))
    (key : Bytes) (timestamp : Int64) (data : Bytes) :
    exists wm', wm.addToSessionWindow order key timestamp data = .ok wm' ∧
      Adds wm wm' key
        (if wm.findSession order key timestamp = none then
          standing timestamp windows
        else []) := by
  unfold WindowManager.addToSessionWindow
  cases hfind : wm.findSession order key timestamp with
  | none =>
    simp only [hwindows, if_true]
    refine ⟨_, rfl, ?_⟩
    apply h.adds hwindows
    · exact filled_appendToKey counts_emptyWindow key data timestamp
    intro k
    rw [countOf_appendToKey]
    change _ + (countOf k [] + _) = _
    have hnil : countOf k [] = 0 := rfl
    omega
  | some e =>
  have hget := h.getEntry_findSession hwindows hfind
  have hfilled := h.filled
  rw [hwindows] at hfilled
  simp only [hwindows, reduceCtorEq, if_false]
  refine ⟨_, rfl, ?_⟩
  apply h.adds hwindows
  · exact filled_extendSession (hfilled _ (mem_of_getEntry hget)) key data
      timestamp
  intro k
  have hstanding : standing e.1 windows = e.2.keys := by
    rw [standing, hget]
    rfl
  rw [countOf_extendSession, hstanding]
  exact Nat.zero_add _

theorem Sound.standing_eq_nil_iff (h : Sound wm)
    (hwindows : wm.windows = some windows) (t : Int64) :
    standing t windows = [] <-> getEntry t windows = none := by
  have hfilled := h.filled
  rw [hwindows] at hfilled
  unfold standing
  cases hget : getEntry t windows with
  | none => exact ⟨fun _ => rfl, fun _ => rfl⟩
  | some w =>
  constructor
  · intro hnil
    exact absurd hnil (hfilled _ (mem_of_getEntry hget)).states
  · intro hnone
    cases hnone

variable {h : WindowHistory}

theorem Sound.addEvent (hsound : Sound h.wm) (order : MapOrder (Int64 × Window))
    (key : Bytes) (timestamp : Int64) (data : Bytes) :
    ((exists e, h.wm.addEvent order key timestamp data = .error e) ∧
      ¬ Counted h (.addEvent order key timestamp data)) ∨
    exists wm' lost, h.wm.addEvent order key timestamp data = .ok wm' ∧
      Adds h.wm wm' key lost ∧ (forall e, e ∈ lost -> 0 < e.2.count) ∧
      (Counted h (.addEvent order key timestamp data) <-> lost = []) := by
  cases hwindows : h.wm.windows with
  | none =>
    left
    constructor
    · unfold WindowManager.addEvent WindowManager.addToFixedWindow
        WindowManager.addToSessionWindow
      simp only [hwindows]
      split
      · split
        · exact ⟨_, rfl⟩
        · exact ⟨_, rfl⟩
      · split
        · exact ⟨_, rfl⟩
        · exact ⟨_, rfl⟩
      · exact ⟨_, rfl⟩
    · unfold Counted
      simp only [hwindows]
      exact id
  | some windows =>
  have hcounted : Counted h (.addEvent order key timestamp data) <->
      Spared h.wm order key timestamp windows := by
    unfold Counted
    simp only [hwindows]
  by_cases hsession : h.wm.config.type = .session
  · right
    rcases hsound.addToSessionWindow hwindows order key timestamp data with
      ⟨wm', hok, hadds⟩
    refine ⟨wm', _, ?_, hadds, ?_, ?_⟩
    · unfold WindowManager.addEvent
      simp only [hsession]
      exact hok
    · intro e he
      split at he
      · exact hsound.counts_standing hwindows timestamp e he
      · cases he
    rw [hcounted, Spared, if_pos hsession]
    by_cases hfind : h.wm.findSession order key timestamp = none
    · rw [if_pos hfind, hsound.standing_eq_nil_iff hwindows]
      exact ⟨fun hone => hone hfind, fun hnone _ => hnone⟩
    · rw [if_neg hfind]
      exact ⟨fun _ => rfl, fun _ hnone => absurd hnone hfind⟩
  have hfixed : h.wm.addEvent order key timestamp data =
      h.wm.addToFixedWindow key timestamp data := by
    unfold WindowManager.addEvent
    cases htype : h.wm.config.type with
    | tumbling => rfl
    | hopping => rfl
    | session => exact absurd htype hsession
  rw [hfixed, hcounted, Spared, if_neg hsession]
  by_cases hsize : h.wm.config.size = 0
  · left
    refine ⟨⟨.divideByZero, ?_⟩, fun hne => hne hsize⟩
    unfold WindowManager.addToFixedWindow
    simp only [if_pos hsize]
  right
  rcases hsound.addToFixedWindow hwindows hsize key timestamp data with
    ⟨wm', hok, hadds⟩
  refine ⟨wm', [], hok, hadds, ?_, ?_⟩
  · intro e he
    cases he
  · exact ⟨fun _ => rfl, fun _ => hsize⟩

/-!
## Histories
-/

structure Inv (h : WindowHistory) : Prop where
  sound : Sound h.wm
  atMost : forall key, countOf key h.emitted + countOf key (openStates h.wm) ≤
    h.calls.count key

theorem inv_start (cfg : WindowConfig) : Inv (start cfg) where
  sound :=
    { nodup := List.nodup_nil
      filled := by
        intro e he
        cases he }
  atMost := fun _ => Nat.le_refl _

theorem conserved_start (cfg : WindowConfig) : Conserved (start cfg) :=
  fun _ => rfl

theorem count_concat (calls : List Bytes) (key k : Bytes) :
    (calls ++ [key]).count k = calls.count k + if key = k then 1 else 0 := by
  rw [List.count_append, List.count_singleton]
  simp only [beq_iff_eq]

variable {h' : WindowHistory}

theorem Inv.addEvent (hinv : Inv h) {order : MapOrder (Int64 × Window)}
    {key : Bytes} {timestamp : Int64} {data : Bytes}
    (hstep : step h (.addEvent order key timestamp data) = some h') :
    Inv h' ∧ (Conserved h' <->
      Conserved h ∧ Counted h (.addEvent order key timestamp data)) := by
  unfold step at hstep
  rcases hinv.sound.addEvent order key timestamp data with
    ⟨⟨e, herror⟩, hnot⟩ | ⟨wm', lost, hok, hadds, hcounts, hcounted⟩
  · simp only [herror, Option.some.injEq] at hstep
    subst hstep
    constructor
    · constructor
      · exact hinv.sound
      intro k
      have hle := hinv.atMost k
      rw [count_concat]
      exact hle.trans (Nat.le_add_right _ _)
    constructor
    · intro hconserved
      have hle := hinv.atMost key
      have hone := hconserved key
      rw [count_concat, if_pos rfl] at hone
      change _ = countOf key h.emitted + countOf key (openStates h.wm)
        at hone
      omega
    · exact fun hboth => absurd hboth.right hnot
  simp only [hok, Option.some.injEq] at hstep
  subst hstep
  constructor
  · constructor
    · exact hadds.sound
    intro k
    have hle := hinv.atMost k
    have hone := hadds.count k
    rw [count_concat]
    change countOf k h.emitted + countOf k (openStates wm') ≤ _
    omega
  rw [hcounted]
  constructor
  · intro hconserved
    have hnone : forall k, countOf k lost = 0 := by
      intro k
      have hle := hinv.atMost k
      have hone := hadds.count k
      have hafter := hconserved k
      rw [count_concat] at hafter
      change _ = countOf k h.emitted + countOf k (openStates wm') at hafter
      omega
    constructor
    · intro k
      have hone := hadds.count k
      have hafter := hconserved k
      rw [count_concat] at hafter
      change _ = countOf k h.emitted + countOf k (openStates wm') at hafter
      have hzero := hnone k
      omega
    cases hlost : lost with
    | nil => rfl
    | cons e rest =>
    have hpos := hcounts e (by
      rw [hlost]
      exact List.mem_cons_self ..)
    have hzero := hnone e.1
    rw [hlost, countOf_cons, if_pos rfl] at hzero
    omega
  · rintro ⟨hconserved, hlost⟩ k
    have hone := hadds.count k
    have hbefore := hconserved k
    rw [hlost] at hone
    change 0 + _ = _ at hone
    rw [count_concat]
    change _ = countOf k h.emitted + countOf k (openStates wm')
    omega

theorem countOf_tick (wm : WindowManager) (now : Int64) (k : Bytes) :
    countOf k (wm.tick now).2 + countOf k (openStates (wm.tick now).1) =
      countOf k (openStates wm) := by
  unfold WindowManager.tick openStates
  cases wm.windows with
  | none => rfl
  | some windows =>
  have hsplit := (List.filter_append_perm
    (fun e : Int64 × Window => decide (now ≥ e.2.closeTime))
    windows).flatMap_right (fun e => e.2.keys)
  rw [List.flatMap_append] at hsplit
  have hcount := countOf_perm hsplit k
  rw [countOf_append] at hcount
  exact hcount

theorem Inv.of_sum (hinv : Inv h) (hsound : Sound h'.wm)
    (hcalls : h'.calls = h.calls) (hsum : forall k,
      countOf k h'.emitted + countOf k (openStates h'.wm) =
        countOf k h.emitted + countOf k (openStates h.wm)) :
    Inv h' ∧ (Conserved h' <-> Conserved h) := by
  refine ⟨⟨hsound, fun k => ?_⟩, ?_⟩
  · rw [hsum k, hcalls]
    exact hinv.atMost k
  · simp only [Conserved, hsum, hcalls]

theorem Inv.tick (hinv : Inv h) {now : Int64}
    (hstep : step h (.tick now) = some h') :
    Inv h' ∧ (Conserved h' <-> Conserved h) := by
  cases hstep
  have hsum : forall k,
      countOf k (h.emitted ++ (h.wm.tick now).2) +
        countOf k (openStates (h.wm.tick now).1) =
      countOf k h.emitted + countOf k (openStates h.wm) := by
    intro k
    have hone := countOf_tick h.wm now k
    rw [countOf_append]
    omega
  have hsound := hinv.sound
  refine hinv.of_sum ?_ rfl hsum
  unfold WindowManager.tick
  cases hwindows : h.wm.windows with
  | none =>
    constructor
    · simp
    · simp
  | some windows =>
  have hnodup := hsound.nodup
  have hfilled := hsound.filled
  rw [hwindows] at hnodup hfilled
  constructor
  · exact hnodup.sublist (List.filter_sublist.map Prod.fst)
  · exact fun e he => hfilled e (List.mem_of_mem_filter he)

theorem Inv.close (hinv : Inv h) (hstep : step h .close = some h') :
    Inv h' ∧ (Conserved h' <-> Conserved h) := by
  cases hstep
  have hsum : forall k, countOf k (h.emitted ++ h.wm.close.2) +
      countOf k (openStates h.wm.close.1) =
        countOf k h.emitted + countOf k (openStates h.wm) := by
    intro k
    rw [countOf_append]
    exact Nat.add_zero _
  refine hinv.of_sum ⟨List.nodup_nil, ?_⟩ rfl hsum
  intro e he
  cases he

theorem Inv.step (hinv : Inv h) {a : WindowAction}
    (hstep : WindowHistory.step h a = some h') :
    Inv h' ∧ (Conserved h' <-> Conserved h ∧ Counted h a) := by
  cases a with
  | addEvent order key timestamp data => exact hinv.addEvent hstep
  | tick now =>
    rcases hinv.tick hstep with ⟨hnext, hiff⟩
    exact ⟨hnext, hiff.trans ⟨fun h => ⟨h, trivial⟩, And.left⟩⟩
  | close =>
  rcases hinv.close hstep with ⟨hnext, hiff⟩
  exact ⟨hnext, hiff.trans ⟨fun h => ⟨h, trivial⟩, And.left⟩⟩

/--
The calls for every key are counted exactly if every event comes before the
close, divides by no zero and begins no session where another has its opening
time.
-/
theorem conserved_iff_counted {cfg : WindowConfig}
    {actions : List WindowAction} {h : WindowHistory}
    (hrun : run? step (start cfg) actions = some h) :
    Conserved h <-> Meets step Counted (start cfg) actions := by
  have hiff := run?_good_iff_meets
    (fun _ _ _ hinv hstep => (Inv.step hinv hstep).left)
    (fun _ _ _ hinv hstep => (Inv.step hinv hstep).right)
    (inv_start cfg) hrun
  rw [hiff]
  exact ⟨And.right, fun hmeets => ⟨conserved_start cfg, hmeets⟩⟩

def sessionsOf (gap : Int64) : WindowConfig where
  type := .session
  size := 0
  gap := gap

def sessionsApart : List WindowAction :=
  [.addEvent (.listed _) [1] 5 [], .addEvent (.listed _) [2] 6 [],
    .addEvent (.listed _) [1] 9 [], .tick 12, .close]

def sessionsTogether : List WindowAction :=
  [.addEvent (.listed _) [1] 5 [], .addEvent (.listed _) [2] 5 [], .close]

theorem conserved_sessionsApart :
    exists h, run? step (start (sessionsOf 10)) sessionsApart = some h ∧
      Conserved h := by
  cases hrun : run? step (start (sessionsOf 10)) sessionsApart with
  | none =>
    have hsome : (run? step (start (sessionsOf 10))
      sessionsApart).isSome = true := by decide +kernel
    rw [hrun] at hsome
    cases hsome
  | some h =>
  refine ⟨h, rfl, (conserved_iff_counted hrun).mpr ?_⟩
  decide +kernel

/-- The session of the first key is lost to that of the second one. -/
theorem not_conserved_sessionsTogether :
    exists h, run? step (start (sessionsOf 10)) sessionsTogether = some h ∧
      ¬ Conserved h := by
  have hcheck : (run? step (start (sessionsOf 10)) sessionsTogether).map
      (fun h => (h.calls.count [1], countOf [1] h.emitted,
        countOf [1] (openStates h.wm))) = some (1, 0, 0) := by decide +kernel
  rcases Option.map_eq_some_iff.mp hcheck with ⟨h, hrun, hcounts⟩
  refine ⟨h, hrun, ?_⟩
  intro hconserved
  have hone := hconserved [1]
  rcases Prod.mk.inj hcounts with ⟨hcalls, hrest⟩
  rcases Prod.mk.inj hrest with ⟨hemitted, hopen⟩
  rw [hcalls, hemitted, hopen] at hone
  cases hone

end WindowHistory

end Processing
end ChimeraMQ
