import ChimeraMQ.Processing.Window

/-!
# Sessions

When a session is given out, and which events are counted together.  A session
is over for the timer as soon as its last event is, and not a gap later.
-/

namespace ChimeraMQ
namespace Processing

open Foundation
open WindowManager

structure Emission where
  now : Int64
  key : Bytes
  state : WindowState
  members : List Nat

/--
A manager of sessions, the events in their order, and the numbers of those that
are in the window at a place of the map.
-/
structure SessionHistory where
  wm : WindowManager
  clock : Int64
  events : List (Bytes × Int64)
  members : Int64 -> List Nat
  emitted : List Emission

inductive SessionAction where
  | addEvent (order : MapOrder (Int64 × Window)) (key : Bytes)
      (timestamp : Int64) (data : Bytes)
  | tick (now : Int64)

namespace SessionHistory

def start (gap : Int64) : SessionHistory where
  wm := .newWindowManager { type := .session, size := 0, gap := gap }
  clock := .minValue
  events := []
  members := fun _ => []
  emitted := []

def place (h : SessionHistory) (order : MapOrder (Int64 × Window))
    (key : Bytes) (timestamp : Int64) : Int64 :=
  ((h.wm.findSession order key timestamp).map Prod.fst).getD timestamp

def joined (h : SessionHistory) (order : MapOrder (Int64 × Window))
    (key : Bytes) (timestamp : Int64) : List Nat :=
  match h.wm.findSession order key timestamp with
  | none => []
  | some e => h.members e.1

def emissions (h : SessionHistory) (now : Int64) : List Emission :=
  ((h.wm.windows.getD []).filter (fun e => now ≥ e.2.closeTime)).flatMap
    (fun e => e.2.keys.map (fun s =>
      { now := now, key := s.1, state := s.2, members := h.members e.1 }))

def step (h : SessionHistory) : SessionAction -> Option SessionHistory
  | .addEvent order key timestamp data =>
    if timestamp < h.clock then none
    else
      match h.wm.addEvent order key timestamp data with
      | .error _ => none
      | .ok wm =>
      some
        { wm := wm
          clock := timestamp
          events := h.events ++ [(key, timestamp)]
          members := Function.update h.members
            (h.place order key timestamp)
            (h.joined order key timestamp ++ [h.events.length])
          emitted := h.emitted }
  | .tick now =>
    if now < h.clock then none
    else
      some { h with
        wm := (h.wm.tick now).1
        clock := now
        emitted := h.emitted ++ h.emissions now }

def windowAt (h : SessionHistory) (p : Int64) : Option Window :=
  getEntry p (h.wm.windows.getD [])

def Together (h : SessionHistory) (i j : Nat) : Prop :=
  (exists p w, h.windowAt p = some w ∧ i ∈ h.members p ∧ j ∈ h.members p) ∨
    exists em, em ∈ h.emitted ∧ i ∈ em.members ∧ j ∈ em.members

structure Consecutive (events : List (Bytes × Int64)) (key : Bytes) (i j : Nat)
    (ti tj : Int64) : Prop where
  lt : i < j
  first : events[i]? = some (key, ti)
  second : events[j]? = some (key, tj)
  between : forall m t, i < m -> m < j -> events[m]? ≠ some (key, t)

/--
Sessions were given out a gap after their events, and counted them, and
consecutive events that are no more than the gap apart are in one session.
-/
structure Honours (gap : Int64) (h : SessionHistory) : Prop where
  emitted : forall em, em ∈ h.emitted ->
    em.state.count = em.members.length ∧
      forall i, i ∈ em.members -> exists t, h.events[i]? = some (em.key, t) ∧
        t.toInt + gap.toInt ≤ em.now.toInt
  together : forall key i j ti tj, Consecutive h.events key i j ti tj ->
    tj.toInt - ti.toInt ≤ gap.toInt -> h.Together i j

/--
A timer comes no later than the last event of an open session, or a gap after
it; no session takes the place of another.
-/
def Spares (gap : Int64) (h : SessionHistory) : SessionAction -> Prop
  | .addEvent order key timestamp _ =>
    (-2 ^ 63 ≤ timestamp.toInt - (gap.toInt.natAbs : Int) ∧
        timestamp.toInt + 1 + (gap.toInt.natAbs : Int) < 2 ^ 63) ∧
      (h.wm.findSession order key timestamp = none ->
        h.windowAt timestamp = none) ∧
      forall em, em ∈ h.emitted -> em.now = timestamp ->
        em.state.lastEvent.toInt + gap.toInt = timestamp.toInt ->
          em.key ≠ key
  | .tick now =>
    forall e, e ∈ h.wm.windows.getD [] -> forall s, s ∈ e.2.keys ->
      now.toInt ≤ s.2.lastEvent.toInt ∨
        s.2.lastEvent.toInt + gap.toInt ≤ now.toInt

/-!
## Events
-/

structure LastOf (events : List (Bytes × Int64)) (key : Bytes) (i : Nat)
    (t : Int64) : Prop where
  get : events[i]? = some (key, t)
  none_after : forall j t', i < j -> events[j]? ≠ some (key, t')

variable {events : List (Bytes × Int64)} {key k : Bytes} {i j : Nat}
  {t ti tj : Int64}

theorem getElem?_concat (e : Bytes × Int64) :
    (events ++ [e])[i]? = if i = events.length then some e else events[i]? := by
  by_cases hi : i = events.length
  · rw [if_pos hi, hi]
    exact List.getElem?_concat_length
  rw [if_neg hi]
  rcases Nat.lt_or_gt_of_ne hi with hlt | hgt
  · exact List.getElem?_append_left hlt
  · rw [List.getElem?_eq_none (by simp; omega),
      List.getElem?_eq_none (by omega)]

theorem getElem?_concat_of_some {e e' : Bytes × Int64}
    (h : events[i]? = some e) : (events ++ [e'])[i]? = some e := by
  have hlt := (List.getElem?_eq_some_iff.mp h).choose
  rw [getElem?_concat, if_neg (Nat.ne_of_lt hlt), h]

theorem lastOf_concat_self :
    LastOf (events ++ [(key, t)]) key i ti <-> i = events.length ∧ ti = t := by
  constructor
  · intro h
    by_cases hi : i = events.length
    · have hget := h.get
      rw [getElem?_concat, if_pos hi] at hget
      cases hget
      exact ⟨hi, rfl⟩
    have hget := h.get
    rw [getElem?_concat, if_neg hi] at hget
    have hlt := (List.getElem?_eq_some_iff.mp hget).choose
    exact absurd List.getElem?_concat_length (h.none_after _ t hlt)
  · rintro ⟨rfl, rfl⟩
    refine ⟨List.getElem?_concat_length, fun j t' hj => ?_⟩
    rw [List.getElem?_eq_none (by simp; omega)]
    exact Option.some_ne_none _ |>.symm

theorem LastOf.of_concat (h : LastOf (events ++ [(key, t)]) k i ti)
    (hne : k ≠ key) : LastOf events k i ti := by
  have hget := h.get
  rw [getElem?_concat] at hget
  split at hget
  · cases hget
    exact absurd rfl hne
  · exact ⟨hget, fun j t' hj hsome =>
      h.none_after j t' hj (getElem?_concat_of_some hsome)⟩

theorem exists_lastOf (h : events[i]? = some (key, t)) :
    exists i t, LastOf events key i t := by
  induction events using List.reverseRecOn generalizing i t with
  | nil => cases h
  | append_singleton events e ih =>
  rcases e with ⟨k, t'⟩
  by_cases hk : key = k
  · subst hk
    exact ⟨_, _, lastOf_concat_self.mpr ⟨rfl, rfl⟩⟩
  rw [getElem?_concat] at h
  split at h
  · cases h
    exact absurd rfl hk
  rcases ih h with ⟨i, t, hlast⟩
  refine ⟨i, t, getElem?_concat_of_some hlast.get, fun j t'' hj => ?_⟩
  rw [getElem?_concat]
  split
  · intro hsome
    cases hsome
    exact hk rfl
  · exact hlast.none_after j t'' hj

/-!
## The invariant
-/

structure SessionOf (gap : Int64) (h : SessionHistory) (p : Int64) (w : Window)
    (key : Bytes) (state : WindowState) : Prop where
  keys : w.keys = [(key, state)]
  closed : w.closeTime.toInt = state.lastEvent.toInt + 1
  opened : w.openTime.toInt ≤ state.lastEvent.toInt
  late : state.lastEvent.toInt ≤ h.clock.toInt
  low : -2 ^ 63 ≤ w.openTime.toInt - (gap.toInt.natAbs : Int)
  high : w.closeTime.toInt + (gap.toInt.natAbs : Int) < 2 ^ 63
  some_member : h.members p ≠ []
  members : forall i, i ∈ h.members p ->
    exists t, h.events[i]? = some (key, t) ∧
      t.toInt ≤ state.lastEvent.toInt
  count : state.count = (h.members p).length
  current : 0 ≤ gap.toInt -> forall i t, LastOf h.events key i t ->
    (i ∈ h.members p ∧ t = state.lastEvent) ∨
      w.closeTime.toInt + gap.toInt < t.toInt

structure Inv (gap : Int64) (h : SessionHistory) : Prop where
  config : h.wm.config = { type := .session, size := 0, gap := gap }
  windows : exists ws, h.wm.windows = some ws ∧ (ws.map Prod.fst).Nodup
  session : forall p w, h.windowAt p = some w ->
    exists key state, SessionOf gap h p w key state
  disjoint : forall p q v w i, h.windowAt p = some v -> h.windowAt q = some w ->
    i ∈ h.members p -> i ∈ h.members q -> p = q
  clock : forall (i : Nat) (e : Bytes × Int64), h.events[i]? = some e ->
    e.2.toInt ≤ h.clock.toInt
  last : 0 ≤ gap.toInt -> forall key i t, LastOf h.events key i t ->
    (exists p w, h.windowAt p = some w ∧ i ∈ h.members p) ∨
      exists em, em ∈ h.emitted ∧ em.key = key ∧ em.state.lastEvent = t ∧
        t.toInt + gap.toInt ≤ em.now.toInt
  emittedClock : forall em, em ∈ h.emitted -> em.now.toInt ≤ h.clock.toInt
  sorted : forall (i j : Nat) (a b : Bytes × Int64), i < j ->
    h.events[i]? = some a -> h.events[j]? = some b -> a.2.toInt ≤ b.2.toInt
  honours : Honours gap h

theorem inv_start (gap : Int64) : Inv gap (start gap) where
  config := rfl
  windows := ⟨[], rfl, List.nodup_nil⟩
  session := fun p w hw => by cases hw
  disjoint := fun p q v w i hv => by cases hv
  clock := fun i e he => by cases he
  last := fun _ key i t hlast => by cases hlast.get
  emittedClock := fun em hem => by cases hem
  sorted := fun i j a b _ ha => by cases ha
  honours :=
    { emitted := fun em hem => by cases hem
      together := fun key i j ti tj hpair => by cases hpair.first }

structure AddsAt (gap : Int64) (h h' : SessionHistory) (p : Int64)
    (key : Bytes) (t : Int64) (old : List Nat) : Prop where
  config : h'.wm.config = h.wm.config
  windows : exists ws, h'.wm.windows = some ws ∧ (ws.map Prod.fst).Nodup
  others : forall q, q ≠ p -> h'.windowAt q = h.windowAt q
  clock : h'.clock = t
  events : h'.events = h.events ++ [(key, t)]
  members : h'.members = Function.update h.members p (old ++ [h.events.length])
  emitted : h'.emitted = h.emitted
  old_eq : forall w, h.windowAt p = some w -> old = h.members p
  old_nil : h.windowAt p = none -> old = []
  session : exists w state, h'.windowAt p = some w ∧
    w.keys = [(key, state)] ∧ state.lastEvent = t ∧
    w.closeTime.toInt = t.toInt + 1 ∧ w.openTime.toInt ≤ t.toInt ∧
    -2 ^ 63 ≤ w.openTime.toInt - (gap.toInt.natAbs : Int) ∧
    w.closeTime.toInt + (gap.toInt.natAbs : Int) < 2 ^ 63 ∧
    state.count = old.length + 1
  old_key : forall i, i ∈ old -> exists ti, h.events[i]? = some (key, ti)
  apart : 0 ≤ gap.toInt -> forall q w state, q ≠ p ->
    SessionOf gap h q w key state -> h.windowAt q = some w ->
      w.closeTime.toInt + gap.toInt < t.toInt
  near : 0 ≤ gap.toInt -> forall i ti, LastOf h.events key i ti ->
    t.toInt - ti.toInt ≤ gap.toInt -> i ∈ old

variable {gap : Int64} {h h' : SessionHistory} {p : Int64} {old : List Nat}

variable (ha : AddsAt gap h h' p key t old)

include ha

theorem AddsAt.members_self : h'.members p = old ++ [h.events.length] := by
  rw [ha.members, Function.update_self]

theorem AddsAt.members_of_ne {q : Int64} (hq : q ≠ p) : h'.members q = h.members
    q := by
  rw [ha.members, Function.update_of_ne hq]

theorem AddsAt.keeps {q : Int64} {w : Window} (hw : h.windowAt q = some w) :
    (exists w', h'.windowAt q = some w') ∧
      forall i, i ∈ h.members q -> i ∈ h'.members q := by
  by_cases hq : q = p
  · subst hq
    rcases ha.session with ⟨w', _, hw', _⟩
    refine ⟨⟨w', hw'⟩, fun i hi => ?_⟩
    rw [ha.members_self, ha.old_eq w hw]
    exact List.mem_append_left _ hi
  · refine ⟨⟨w, (ha.others q hq).trans hw⟩, fun i hi => ?_⟩
    rw [ha.members_of_ne hq]
    exact hi

omit ha in
theorem Inv.lt_length (hinv : Inv gap h) {q : Int64} {w : Window}
    (hw : h.windowAt q = some w) (hi : i ∈ h.members q) :
    i < h.events.length := by
  rcases hinv.session q w hw with ⟨k, state, hsession⟩
  rcases hsession.members i hi with ⟨ti, hget, _⟩
  exact (List.getElem?_eq_some_iff.mp hget).choose

theorem AddsAt.together (htogether : h.Together i j) : h'.Together i j := by
  rcases htogether with ⟨q, w, hw, hi, hj⟩ | ⟨em, hem, hboth⟩
  · rcases ha.keeps hw with ⟨⟨w', hw'⟩, hmembers⟩
    exact Or.inl ⟨q, w', hw', hmembers i hi, hmembers j hj⟩
  · exact Or.inr ⟨em, ha.emitted ▸ hem, hboth⟩

theorem AddsAt.honours (hinv : Inv gap h) (hclock : h.clock.toInt ≤ t.toInt) :
    Honours gap h' where
  emitted := by
    intro em hem
    rw [ha.emitted] at hem
    rcases hinv.honours.emitted em hem with ⟨hcount, hmembers⟩
    refine ⟨hcount, fun i hi => ?_⟩
    rcases hmembers i hi with ⟨ti, hget, hgap⟩
    rw [ha.events]
    exact ⟨ti, getElem?_concat_of_some hget, hgap⟩
  together := by
    intro k i j ti tj hpair hgap
    have hi := hpair.first
    have hj := hpair.second
    rw [ha.events, getElem?_concat] at hi hj
    have hlong := (List.getElem?_eq_some_iff.mp hpair.second).choose
    rw [ha.events, List.length_append, List.length_singleton] at hlong
    have hlt := hpair.lt
    rw [if_neg (by omega)] at hi
    by_cases hlast : j = h.events.length
    · rw [if_pos hlast] at hj
      cases hj
      have hle := (hinv.clock i _ hi).trans hclock
      have hlastOf : LastOf h.events key i ti := by
        refine ⟨hi, fun m t' hm hsome => ?_⟩
        have hmlt := (List.getElem?_eq_some_iff.mp hsome).choose
        refine hpair.between m t' hm (by omega) ?_
        rw [ha.events]
        exact getElem?_concat_of_some hsome
      have hold := ha.near (by
        change ti.toInt ≤ t.toInt at hle
        omega) i ti hlastOf hgap
      rcases ha.session with ⟨w, _, hw, _⟩
      refine Or.inl ⟨p, w, hw, ?_, ?_⟩
      · rw [ha.members_self]
        exact List.mem_append_left _ hold
      · rw [ha.members_self, hlast]
        exact List.mem_append_right _ (List.mem_singleton.mpr rfl)
    · rw [if_neg hlast] at hj
      apply ha.together
      apply hinv.honours.together k i j ti tj _ hgap
      refine ⟨hlt, hi, hj, fun m t' him hmj hsome => ?_⟩
      apply hpair.between m t' him hmj
      rw [ha.events]
      exact getElem?_concat_of_some hsome

theorem AddsAt.session_self (hinv : Inv gap h)
    (hclock : h.clock.toInt ≤ t.toInt) :
    exists w state, h'.windowAt p = some w ∧
      SessionOf gap h' p w key state := by
  rcases ha.session with
    ⟨w, state, hw, hkeys, hlast, hclosed, hopened, hlow, hhigh, hcount⟩
  refine ⟨w, state, hw, ⟨hkeys, ?_, ?_, ?_, hlow, hhigh, ?_, ?_, ?_, ?_⟩⟩
  · rw [hlast, hclosed]
  · rw [hlast]
    exact hopened
  · rw [hlast, ha.clock]
  · rw [ha.members_self]
    exact List.append_ne_nil_of_right_ne_nil _ (List.cons_ne_nil _ _)
  · intro i hi
    rw [ha.members_self] at hi
    rw [ha.events, hlast]
    rcases List.mem_append.mp hi with hi | hi
    · rcases ha.old_key i hi with ⟨ti, hget⟩
      exact ⟨ti, getElem?_concat_of_some hget,
        (hinv.clock i _ hget).trans hclock⟩
    · rw [List.mem_singleton.mp hi]
      exact ⟨t, List.getElem?_concat_length, Int.le_refl _⟩
  · rw [ha.members_self, List.length_append, hcount]
    rfl
  · intro _ i ti hlastOf
    rw [ha.events, lastOf_concat_self] at hlastOf
    rw [ha.members_self, hlastOf.left, hlastOf.right, hlast]
    exact Or.inl ⟨List.mem_append_right _ (List.mem_singleton.mpr rfl), rfl⟩

theorem AddsAt.session_of_ne {q : Int64} {w : Window} {state : WindowState}
    (hq : q ≠ p) (hclock : h.clock.toInt ≤ t.toInt) (hw : h.windowAt q = some w)
    (hs : SessionOf gap h q w k state) : SessionOf gap h' q w k state := by
  refine ⟨hs.keys, hs.closed, hs.opened, ?_, hs.low, hs.high, ?_, ?_, ?_, ?_⟩
  · rw [ha.clock]
    exact hs.late.trans hclock
  · rw [ha.members_of_ne hq]
    exact hs.some_member
  · intro i hi
    rw [ha.members_of_ne hq] at hi
    rcases hs.members i hi with ⟨ti, hget, hle⟩
    rw [ha.events]
    exact ⟨ti, getElem?_concat_of_some hget, hle⟩
  · rw [ha.members_of_ne hq]
    exact hs.count
  intro hgap i ti hlastOf
  rw [ha.events] at hlastOf
  rw [ha.members_of_ne hq]
  by_cases hk : k = key
  · subst hk
    rw [lastOf_concat_self] at hlastOf
    rw [hlastOf.right]
    exact Or.inr (ha.apart hgap q w state hq hs hw)
  · exact hs.current hgap i ti (hlastOf.of_concat hk)

theorem AddsAt.inv (hinv : Inv gap h) (hclock : h.clock.toInt ≤ t.toInt) : Inv
    gap h' where
  config := ha.config.trans hinv.config
  windows := ha.windows
  session := by
    intro q w hw
    by_cases hq : q = p
    · subst hq
      rcases ha.session_self hinv hclock with ⟨w', state, hw', hs⟩
      rw [hw', Option.some.injEq] at hw
      exact ⟨key, state, hw ▸ hs⟩
    · rw [ha.others q hq] at hw
      rcases hinv.session q w hw with ⟨k, state, hs⟩
      exact ⟨k, state, ha.session_of_ne hq hclock hw hs⟩
  disjoint := by
    have hself : forall q w i, q ≠ p -> h.windowAt q = some w ->
        i ∈ h.members q -> i ∉ h'.members p := by
      intro q w i hq hw hi hmem
      rw [ha.members_self] at hmem
      rcases List.mem_append.mp hmem with hmem | hmem
      · cases hp : h.windowAt p with
        | none =>
          rw [ha.old_nil hp] at hmem
          cases hmem
        | some v =>
        rw [ha.old_eq v hp] at hmem
        exact hq (hinv.disjoint q p w v i hw hp hi hmem)
      · have hlt := hinv.lt_length hw hi
        rw [List.mem_singleton.mp hmem] at hlt
        exact Nat.lt_irrefl _ hlt
    intro q r v w i hv hw hi hj
    by_cases hq : q = p
    · by_cases hr : r = p
      · rw [hq, hr]
      · rw [ha.others r hr] at hw
        rw [ha.members_of_ne hr] at hj
        exact absurd (hq ▸ hi) (hself r w i hr hw hj)
    rw [ha.others q hq] at hv
    rw [ha.members_of_ne hq] at hi
    by_cases hr : r = p
    · exact absurd (hr ▸ hj) (hself q v i hq hv hi)
    · rw [ha.others r hr] at hw
      rw [ha.members_of_ne hr] at hj
      exact hinv.disjoint q r v w i hv hw hi hj
  clock := by
    intro i e he
    rw [ha.events, getElem?_concat] at he
    rw [ha.clock]
    split at he
    · cases he
      exact Int.le_refl _
    · exact (hinv.clock i e he).trans hclock
  last := by
    intro hgap k i ti hlastOf
    rw [ha.events] at hlastOf
    by_cases hk : k = key
    · subst hk
      rw [lastOf_concat_self] at hlastOf
      rcases ha.session with ⟨w, _, hw, _⟩
      refine Or.inl ⟨p, w, hw, ?_⟩
      rw [ha.members_self, hlastOf.left]
      exact List.mem_append_right _ (List.mem_singleton.mpr rfl)
    rcases hinv.last hgap k i ti (hlastOf.of_concat hk) with
      ⟨q, w, hw, hi⟩ | hemitted
    · rcases ha.keeps hw with ⟨⟨w', hw'⟩, hmembers⟩
      exact Or.inl ⟨q, w', hw', hmembers i hi⟩
    · rw [ha.emitted]
      exact Or.inr hemitted
  emittedClock := by
    intro em hem
    rw [ha.emitted] at hem
    rw [ha.clock]
    exact (hinv.emittedClock em hem).trans hclock
  sorted := by
    intro i j a b hij hi hj
    have hlt := (List.getElem?_eq_some_iff.mp hj).choose
    rw [ha.events, List.length_append, List.length_singleton] at hlt
    rw [ha.events, getElem?_concat] at hi hj
    rw [if_neg (by omega)] at hi
    split at hj
    · cases hj
      exact (hinv.clock i a hi).trans hclock
    · exact hinv.sorted i j a b hij hi hj
  honours := ha.honours hinv hclock

omit ha

/-!
## Steps
-/

theorem SessionOf.inSession_iff {w : Window} {state : WindowState}
    (hs : SessionOf gap h p w k state) :
    inSession gap key t w = true <->
      key = k ∧ w.openTime.toInt - gap.toInt ≤ t.toInt ∧
        t.toInt ≤ w.closeTime.toInt + gap.toInt := by
  have hlow := hs.low
  have hhigh := hs.high
  have hopened := hs.opened
  have hclosed := hs.closed
  have hfrom : (w.openTime - gap).toInt = w.openTime.toInt - gap.toInt := by
    rw [Int64.toInt_sub]
    exact Int.bmod_eq_of_le (by omega) (by omega)
  have hto : (w.closeTime + gap).toInt = w.closeTime.toInt + gap.toInt := by
    rw [Int64.toInt_add]
    exact Int.bmod_eq_of_le (by omega) (by omega)
  have hkey : (getEntry key w.keys).isSome = true <-> key = k := by
    rw [hs.keys]
    by_cases hk : k = key
    · simp [getEntry, hk]
    · simp [getEntry, hk, Ne.symm hk]
  unfold inSession
  rw [Bool.and_eq_true, Bool.and_eq_true, hkey, decide_eq_true_iff,
    decide_eq_true_iff, ge_iff_le, Int64.le_iff_toInt_le,
    Int64.le_iff_toInt_le, hfrom, hto, and_assoc]

variable {order : MapOrder (Int64 × Window)} {data : Bytes}

theorem Inv.of_find (hinv : Inv gap h) {e : Int64 × Window}
    (hfind : h.wm.findSession order key t = some e) :
    h.windowAt e.1 = some e.2 ∧
      inSession gap key t e.2 = true := by
  rcases hinv.windows with ⟨ws, hws, hnodup⟩
  unfold findSession at hfind
  rw [hinv.config, hws] at hfind
  have hmem := (order.perm ws).mem_iff.mp (List.mem_of_find?_eq_some hfind)
  have hin := List.find?_some hfind
  constructor
  · rw [windowAt, hws]
    exact getEntry_of_mem hnodup hmem
  · exact hin

theorem Inv.of_find_none (hinv : Inv gap h)
    (hfind : h.wm.findSession order key t = none) {q : Int64} {w : Window}
    (hw : h.windowAt q = some w) :
    ¬ inSession gap key t w = true := by
  rcases hinv.windows with ⟨ws, hws, _⟩
  unfold findSession at hfind
  rw [hinv.config, hws] at hfind
  rw [windowAt, hws] at hw
  exact List.find?_eq_none.mp hfind (q, w)
    ((order.perm ws).mem_iff.mpr (mem_of_getEntry hw))

theorem Inv.addsAt_found (hinv : Inv gap h)
    (hspares : Spares gap h (.addEvent order key t data))
    (hclock : h.clock.toInt ≤ t.toInt) {e : Int64 × Window}
    (hfind : h.wm.findSession order key t = some e)
    (hstep : step h (.addEvent order key t data) = some h') :
    AddsAt gap h h' e.1 key t (h.members e.1) := by
  rcases hinv.windows with ⟨ws, hws, hnodup⟩
  rcases hinv.of_find hfind with ⟨hw, hin⟩
  rcases hinv.session e.1 e.2 hw with ⟨k, state, hs⟩
  rcases hs.inSession_iff.mp hin with ⟨hk, _, hto⟩
  subst hk
  have hearlier : ¬ t < h.clock := fun hlt =>
    absurd (Int64.lt_iff_toInt_lt.mp hlt) (Int.not_lt.mpr hclock)
  unfold step at hstep
  unfold addEvent addToSessionWindow at hstep
  simp only [if_neg hearlier, hinv.config, hws, hfind,
    Option.some.injEq] at hstep
  subst hstep
  have hcurrent : 0 ≤ gap.toInt -> forall i ti, LastOf h.events key i ti ->
      i ∈ h.members e.1 := by
    intro hgap i ti hlast
    rcases hs.current hgap i ti hlast with hmem | hover
    · exact hmem.left
    · have hle := (hinv.clock i _ hlast.get).trans hclock
      change ti.toInt ≤ t.toInt at hle
      omega
  refine
    { config := hinv.config.symm
      windows := ⟨_, rfl, nodup_keys_setEntry hnodup⟩
      others := ?_
      clock := rfl
      events := rfl
      members := ?_
      emitted := rfl
      old_eq := fun _ _ => rfl
      old_nil := fun hnone => absurd (hw.symm.trans hnone) (by simp)
      session := ?_
      old_key := ?_
      apart := ?_
      near := fun hgap i ti hlast _ => hcurrent hgap i ti hlast }
  · intro q hq
    unfold windowAt
    rw [hws]
    exact getEntry_setEntry_ne hq _ _
  · unfold place joined
    rw [hfind]
    rfl
  · have hlate := hs.late.trans hclock
    have hopened := hs.opened
    have hclosed := hs.closed
    have hrange := hspares.left
    have hone : (t + 1).toInt = t.toInt + 1 := by
      rw [Int64.toInt_add]
      exact Int.bmod_eq_of_le (by
        show _ ≤ t.toInt + 1
        omega) (by
        show t.toInt + 1 < _
        omega)
    have hopen : (extendSession e.2 key data t).openTime =
        e.2.openTime := by
      apply if_neg
      rw [Int64.lt_iff_toInt_lt]
      change ¬ t.toInt < e.2.openTime.toInt
      omega
    have hclose : (extendSession e.2 key data
        t).closeTime.toInt = t.toInt + 1 := by
      show (if t ≥ e.2.closeTime then t + 1 else e.2.closeTime).toInt = _
      split
      · exact hone
      · rename_i hless
        rw [ge_iff_le, Int64.le_iff_toInt_le] at hless
        omega
    have hkeys : (extendSession e.2 key data t).keys =
        [(key, { state with
          data := state.data ++ data
          count := state.count + 1
          lastEvent := t })] := by
      simp [extendSession, appendToKey, hs.keys,
        getEntry, setEntry]
    refine ⟨_, _, getEntry_setEntry _ _ _, hkeys, rfl, hclose, ?_, ?_, ?_, ?_⟩
    · rw [hopen]
      omega
    · rw [hopen]
      exact hs.low
    · rw [hclose]
      exact hrange.right
    · rw [← hs.count]
  · intro i hi
    rcases hs.members i hi with ⟨ti, hget, _⟩
    exact ⟨ti, hget⟩
  · intro hgap q w st hq hsq hwq
    rcases List.exists_mem_of_ne_nil _ hsq.some_member with ⟨i, hi⟩
    rcases hsq.members i hi with ⟨ti, hget, _⟩
    rcases exists_lastOf hget with ⟨i0, t0, hlast⟩
    rcases hsq.current hgap i0 t0 hlast with hmem | hover
    · exact absurd (hinv.disjoint q e.1 w e.2 i0 hwq hw hmem.left
        (hcurrent hgap i0 t0 hlast)) hq
    · have hle := (hinv.clock i0 _ hlast.get).trans hclock
      change t0.toInt ≤ t.toInt at hle
      omega

theorem Inv.addsAt_new (hinv : Inv gap h)
    (hspares : Spares gap h (.addEvent order key t data))
    (hclock : h.clock.toInt ≤ t.toInt)
    (hfind : h.wm.findSession order key t = none)
    (hstep : step h (.addEvent order key t data) = some h') :
    AddsAt gap h h' t key t [] := by
  rcases hinv.windows with ⟨ws, hws, hnodup⟩
  rcases hspares with ⟨hrange, hfree, hended⟩
  have hnone := hfree hfind
  have hearlier : ¬ t < h.clock := fun hlt =>
    absurd (Int64.lt_iff_toInt_lt.mp hlt) (Int.not_lt.mpr hclock)
  unfold step at hstep
  unfold addEvent addToSessionWindow at hstep
  simp only [if_neg hearlier, hinv.config, hws, hfind,
    Option.some.injEq] at hstep
  subst hstep
  have hone : (t + 1).toInt = t.toInt + 1 := by
    rw [Int64.toInt_add]
    exact Int.bmod_eq_of_le (by
      show _ ≤ t.toInt + 1
      omega) (by
      show t.toInt + 1 < _
      omega)
  refine
    { config := hinv.config.symm
      windows := ⟨_, rfl, nodup_keys_setEntry hnodup⟩
      others := ?_
      clock := rfl
      events := rfl
      members := ?_
      emitted := rfl
      old_eq := fun w hw => absurd (hnone.symm.trans hw) (by simp)
      old_nil := fun _ => rfl
      session := ?_
      old_key := fun i hi => by cases hi
      apart := ?_
      near := ?_ }
  · intro q hq
    unfold windowAt
    rw [hws]
    exact getEntry_setEntry_ne hq _ _
  · unfold place joined
    rw [hfind]
    rfl
  · refine ⟨_, ⟨key, [] ++ data, 0 + 1, t⟩, getEntry_setEntry _ _ _, ?_, rfl,
      hone, ?_, ?_, ?_, rfl⟩
    · simp [appendToKey, emptyWindow, getEntry,
        setEntry]
    · exact Int.le_refl t.toInt
    · exact hrange.left
    · show (t + 1).toInt + _ < _
      rw [hone]
      exact hrange.right
  · intro hgap q w st hq hsq hwq
    have hout := hinv.of_find_none hfind hwq
    rw [hsq.inSession_iff] at hout
    have hlate := hsq.late.trans hclock
    have hopened := hsq.opened
    by_contra hle
    exact hout ⟨rfl, by omega, by omega⟩
  · intro hgap i ti hlast hnear
    exfalso
    rcases hinv.last hgap key i ti hlast with
      ⟨q, w, hw, hi⟩ | ⟨em, hem, hkey, hstate, hover⟩
    · rcases hinv.session q w hw with ⟨k, state, hs⟩
      rcases hs.members i hi with ⟨t', hget, hle⟩
      rw [hlast.get] at hget
      cases hget
      have hout := hinv.of_find_none hfind hw
      rw [hs.inSession_iff] at hout
      have hlate := hs.late.trans hclock
      have hopened := hs.opened
      have hclosed := hs.closed
      exact hout ⟨rfl, by omega, by omega⟩
    · have hnow := (hinv.emittedClock em hem).trans hclock
      exact hended em hem (Int64.toInt_inj.mp (by omega)) (by
        rw [hstate]
        omega) hkey

def ticked (h : SessionHistory) (now : Int64) : SessionHistory :=
  { h with
    wm := (h.wm.tick now).1
    clock := now
    emitted := h.emitted ++ h.emissions now }

theorem Inv.windowAt_ticked_iff (hinv : Inv gap h) {now : Int64} {w : Window} :
    (h.ticked now).windowAt p = some w <->
      h.windowAt p = some w ∧ ¬ now ≥ w.closeTime := by
  rcases hinv.windows with ⟨ws, hws, hnodup⟩
  unfold ticked tick windowAt
  rw [hws]
  simp only [Option.getD_some]
  constructor
  · intro hget
    rcases List.mem_filter.mp (mem_of_getEntry hget) with ⟨hmem, hopen⟩
    exact ⟨getEntry_of_mem hnodup hmem, by simpa using hopen⟩
  rintro ⟨hget, hopen⟩
  have hmem : (p, w) ∈ ws.filter
      (fun e => !decide (now ≥ e.2.closeTime)) :=
    List.mem_filter.mpr ⟨mem_of_getEntry hget, by simpa using hopen⟩
  exact getEntry_of_mem
    (hnodup.sublist (List.filter_sublist.map Prod.fst)) hmem

theorem Inv.mem_emissions_iff (hinv : Inv gap h) {now : Int64}
    {em : Emission} :
    em ∈ h.emissions now <-> exists p w s, h.windowAt p = some w ∧
      now ≥ w.closeTime ∧ s ∈ w.keys ∧
        em = ⟨now, s.1, s.2, h.members p⟩ := by
  rcases hinv.windows with ⟨ws, hws, hnodup⟩
  unfold emissions windowAt
  rw [hws, Option.getD_some]
  constructor
  · intro hem
    rcases List.mem_flatMap.mp hem with ⟨e, he, hem⟩
    rcases List.mem_map.mp hem with ⟨s, hs, heq⟩
    rcases List.mem_filter.mp he with ⟨hmem, hover⟩
    exact ⟨e.1, e.2, s, getEntry_of_mem hnodup hmem, by simpa using hover, hs,
      heq.symm⟩
  rintro ⟨p, w, s, hget, hover, hs, heq⟩
  rw [heq]
  exact List.mem_flatMap.mpr ⟨(p, w), List.mem_filter.mpr
    ⟨mem_of_getEntry hget, by simpa using hover⟩,
    List.mem_map.mpr ⟨s, hs, rfl⟩⟩

theorem SessionOf.silent {w : Window} {state : WindowState} {now : Int64}
    (hs : SessionOf gap h p w k state) (hw : h.windowAt p = some w)
    (hspares : Spares gap h (.tick now)) (hover : now ≥ w.closeTime) :
    state.lastEvent.toInt + gap.toInt ≤ now.toInt := by
  have hclosed := hs.closed
  have hlate := Int64.le_iff_toInt_le.mp hover
  rcases hspares (p, w) (mem_of_getEntry hw) (k, state) (by
      rw [hs.keys]
      exact List.mem_singleton.mpr rfl) with hearly | hsilent
  · change now.toInt ≤ state.lastEvent.toInt at hearly
    omega
  · exact hsilent

theorem of_step_tick {now : Int64} (hstep : step h (.tick now) = some h') :
    h.clock.toInt ≤ now.toInt ∧ h' = h.ticked now := by
  simp only [step] at hstep
  split at hstep
  · cases hstep
  rename_i hearlier
  exact ⟨Int.not_lt.mp
    (fun hlt => hearlier (Int64.lt_iff_toInt_lt.mpr hlt)),
    (Option.some.inj hstep).symm⟩

/-- A window stays open, or its session is given out. -/
theorem Inv.open_or_emitted (hinv : Inv gap h) (now : Int64) {q : Int64}
    {w : Window} {state : WindowState} (hw : h.windowAt q = some w)
    (hs : SessionOf gap h q w k state) :
    (h.ticked now).windowAt q = some w ∨ now ≥ w.closeTime ∧
      ⟨now, k, state, h.members q⟩ ∈ (h.ticked now).emitted := by
  by_cases hover : now ≥ w.closeTime
  · refine Or.inr ⟨hover, List.mem_append_right _ (hinv.mem_emissions_iff.mpr
      ⟨q, w, (k, state), hw, hover, ?_, rfl⟩)⟩
    rw [hs.keys]
    exact List.mem_singleton_self _
  · exact Or.inl (hinv.windowAt_ticked_iff.mpr ⟨hw, hover⟩)

theorem Inv.last_ticked (hinv : Inv gap h) {now : Int64}
    (hspares : Spares gap h (.tick now)) (hgap : 0 ≤ gap.toInt)
    (hlast : LastOf h.events k i t) :
    (exists q w, (h.ticked now).windowAt q = some w ∧ i ∈ h.members q) ∨
      exists em, em ∈ (h.ticked now).emitted ∧ em.key = k ∧
        em.state.lastEvent = t ∧ t.toInt + gap.toInt ≤ em.now.toInt := by
  rcases hinv.last hgap k i t hlast with ⟨q, w, hw, hi⟩ | ⟨em, hem, hrest⟩
  · rcases hinv.session q w hw with ⟨k', state, hs⟩
    rcases hinv.open_or_emitted now hw hs with hopen | ⟨hover, hem⟩
    · exact Or.inl ⟨q, w, hopen, hi⟩
    rcases hs.members i hi with ⟨t', hget, hle⟩
    rw [hlast.get] at hget
    cases hget
    have hsilent := hs.silent hw hspares hover
    have hclosed := hs.closed
    have hlastEvent : state.lastEvent = t := by
      rcases hs.current hgap i t hlast with hmem | hlater
      · exact hmem.right.symm
      · omega
    exact Or.inr ⟨_, hem, rfl, hlastEvent, hlastEvent ▸ hsilent⟩
  · exact Or.inr ⟨em, List.mem_append_left _ hem, hrest⟩

/-- What a timer gives out counts its events, all of them a gap ago. -/
theorem Inv.given_out (hinv : Inv gap h) {now : Int64}
    (hspares : Spares gap h (.tick now)) {em : Emission}
    (hem : em ∈ h.emissions now) :
    em.state.count = em.members.length ∧
      forall i, i ∈ em.members -> exists t, h.events[i]? = some (em.key, t) ∧
        t.toInt + gap.toInt ≤ em.now.toInt := by
  rcases hinv.mem_emissions_iff.mp hem with ⟨q, w, s, hw, hover, hmem, heq⟩
  rcases hinv.session q w hw with ⟨k, state, hs⟩
  rw [hs.keys] at hmem
  have hsilent := hs.silent hw hspares hover
  rw [heq, List.mem_singleton.mp hmem]
  refine ⟨hs.count, fun i hi => ?_⟩
  rcases hs.members i hi with ⟨t, hget, hle⟩
  refine ⟨t, hget, ?_⟩
  show t.toInt + gap.toInt ≤ now.toInt
  omega

theorem Inv.together_ticked (hinv : Inv gap h) {now : Int64}
    (htogether : h.Together i j) : (h.ticked now).Together i j := by
  rcases htogether with ⟨q, w, hw, hboth⟩ | ⟨em, hem, hboth⟩
  · rcases hinv.session q w hw with ⟨k, state, hs⟩
    rcases hinv.open_or_emitted now hw hs with hopen | ⟨-, hem⟩
    · exact Or.inl ⟨q, w, hopen, hboth⟩
    · exact Or.inr ⟨_, hem, hboth⟩
  · exact Or.inr ⟨em, List.mem_append_left _ hem, hboth⟩

theorem Inv.tick (hinv : Inv gap h) {now : Int64}
    (hspares : Spares gap h (.tick now))
    (hstep : step h (.tick now) = some h') : Inv gap h' := by
  rcases of_step_tick hstep with ⟨hclock, heq⟩
  have hold : forall {q w}, (h.ticked now).windowAt q = some w ->
      h.windowAt q = some w :=
    fun hw => (hinv.windowAt_ticked_iff.mp hw).left
  rcases hinv.windows with ⟨ws, hws, hnodup⟩
  subst heq
  refine
    { config := ?_
      windows := ?_
      session := ?_
      disjoint := fun q r v w i hv hw =>
        hinv.disjoint q r v w i (hold hv) (hold hw)
      clock := fun i e he => (hinv.clock i e he).trans hclock
      last := fun hgap k i t hlast => hinv.last_ticked hspares hgap hlast
      emittedClock := ?_
      sorted := hinv.sorted
      honours := ⟨?_, ?_⟩ }
  · rw [ticked, ← hinv.config]
    unfold tick
    rw [hws]
  · unfold ticked tick
    rw [hws]
    exact ⟨_, rfl, hnodup.sublist (List.filter_sublist.map Prod.fst)⟩
  · intro q w hw
    rcases hinv.session q w (hold hw) with ⟨k, state, hs⟩
    exact ⟨k, state, { hs with late := hs.late.trans hclock }⟩
  · intro em hem
    rcases List.mem_append.mp hem with hem | hem
    · exact (hinv.emittedClock em hem).trans hclock
    · rcases hinv.mem_emissions_iff.mp hem with ⟨q, w, s, _, _, _, heq⟩
      rw [heq]
      exact Int.le_refl _
  · intro em hem
    rcases List.mem_append.mp hem with hem | hem
    · exact hinv.honours.emitted em hem
    · exact hinv.given_out hspares hem
  · intro k i j ti tj hpair hgap
    exact hinv.together_ticked (hinv.honours.together k i j ti tj hpair hgap)

theorem Inv.step (hinv : Inv gap h) {a : SessionAction}
    (hspares : Spares gap h a) (hstep : h.step a = some h') : Inv gap h' := by
  cases a with
  | addEvent order key t data =>
    have hclock : h.clock.toInt ≤ t.toInt := by
      simp only [SessionHistory.step] at hstep
      split at hstep
      · cases hstep
      · rename_i hearlier
        exact Int.not_lt.mp
          (fun hlt => hearlier (Int64.lt_iff_toInt_lt.mpr hlt))
    cases hfind : h.wm.findSession order key t with
    | none =>
      exact (hinv.addsAt_new hspares hclock hfind hstep).inv hinv hclock
    | some e =>
      exact (hinv.addsAt_found hspares hclock hfind hstep).inv hinv hclock
  | tick now => exact hinv.tick hspares hstep

/--
As long as no timer comes between an event and the gap after it, and no session
takes the place of another, sessions are given out a gap after their last event.
-/
theorem honours_of_spares (gap : Int64) {actions : List SessionAction}
    {h : SessionHistory} (hrun : run? step (start gap) actions = some h)
    (hspares : Meets step (Spares gap) (start gap) actions) :
    Honours gap h :=
  (run?_invariant_of_meets (fun _ _ _ hinv hspares hstep =>
    Inv.step hinv hspares hstep) (inv_start gap) hspares hrun).honours

instance (gap : Int64) (h : SessionHistory) (a : SessionAction) :
    Decidable (Spares gap h a) :=
  match a with
  | .addEvent _ _ _ _ => inferInstanceAs (Decidable (_ ∧ _ ∧ _))
  | .tick now => inferInstanceAs (Decidable
      (forall e, e ∈ h.wm.windows.getD [] -> forall s, s ∈ e.2.keys ->
        now.toInt ≤ s.2.lastEvent.toInt ∨
          s.2.lastEvent.toInt + gap.toInt ≤ now.toInt))

/-- Two events of one key and one of another between them. -/
def twoSessions : List SessionAction :=
  [.addEvent (.listed _) [107] 5 [], .addEvent (.listed _) [106] 9 [],
    .addEvent (.listed _) [107] 12 [], .tick 22]

theorem honours_of_spares_twoSessions :
    exists h, run? step (start 10) twoSessions = some h ∧ Honours 10 h :=
  ⟨_, rfl, @honours_of_spares 10 twoSessions _ rfl (by decide +kernel)⟩

def eventAndTimer (now : Int64) : List SessionAction :=
  [.addEvent (.listed _) [107] 5 [], .tick now]

/-- A timer right after the event of a session gives the session out. -/
theorem not_honours_early :
    ¬ forall (gap : Int64) (actions : List SessionAction) (h : SessionHistory),
      run? step (start gap) actions = some h -> Honours gap h := by
  intro hall
  have h := (hall 10 (eventAndTimer 6) _ rfl).emitted _
    (List.mem_singleton.mpr rfl)
  rcases h.right 0 (List.mem_singleton.mpr rfl) with ⟨t, hget, hgap⟩
  cases hget
  exact absurd hgap (by decide)

end SessionHistory
end Processing
end ChimeraMQ
