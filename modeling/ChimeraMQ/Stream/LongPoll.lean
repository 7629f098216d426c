import ChimeraMQ.Foundation.Run
import ChimeraMQ.Storage.PartitionList
import ChimeraMQ.Stream.Engine

/-!
# Waiting for new messages

A fetch from beyond the end of a partition registers a channel and waits for a
signal or the end of its time.  Publishes append to the partition and then
signal the registered channels, between any two steps of the fetch.
-/

namespace ChimeraMQ
namespace Stream

open Foundation
open Storage

/-!
## The registry
-/

/--
The channels of the waiters by topic and partition, those that hold a signal,
and how many have been made.  A channel holds at most one signal.
-/
structure WaiterRegistry where
  waiters : List (PartitionKey × List Nat)
  signalled : List Nat
  made : Nat
  waiting_lt : forall e, e ∈ waiters -> forall ch, ch ∈ e.2 -> ch < made
  signalled_lt : forall ch, ch ∈ signalled -> ch < made

namespace WaiterRegistry

def newWaiterRegistry : WaiterRegistry where
  waiters := []
  signalled := []
  made := 0
  waiting_lt := by
    intro e he
    cases he
  signalled_lt := by
    intro ch hch
    cases hch

def channels (wr : WaiterRegistry) (key : PartitionKey) : List Nat :=
  (getEntry key wr.waiters).getD []

theorem channels_lt (wr : WaiterRegistry) {key : PartitionKey} {ch : Nat}
    (hch : ch ∈ wr.channels key) : ch < wr.made := by
  unfold channels at hch
  cases hget : getEntry key wr.waiters with
  | none =>
    rw [hget] at hch
    cases hch
  | some registered =>
  rw [hget] at hch
  exact wr.waiting_lt _ (mem_of_getEntry hget) ch hch

def register (wr : WaiterRegistry) (key : PartitionKey) :
    WaiterRegistry × Nat :=
  ({ waiters := setEntry key (wr.channels key ++ [wr.made]) wr.waiters
     signalled := wr.signalled
     made := wr.made + 1
     waiting_lt := by
       intro e he ch hch
       rcases mem_setEntry he with hnew | hold
       · rw [hnew] at hch
         rcases List.mem_append.mp hch with hmem | hlast
         · exact Nat.lt_succ_of_lt (wr.channels_lt hmem)
         · rw [List.mem_singleton.mp hlast]
           exact Nat.lt_succ_self _
       · exact Nat.lt_succ_of_lt (wr.waiting_lt e hold ch hch)
     signalled_lt := fun ch hch =>
       Nat.lt_succ_of_lt (wr.signalled_lt ch hch) }, wr.made)

def unregister (wr : WaiterRegistry) (key : PartitionKey) (ch : Nat) :
    WaiterRegistry :=
  { wr with
    waiters := setEntry key ((wr.channels key).erase ch) wr.waiters
    waiting_lt := by
      intro e he c hc
      rcases mem_setEntry he with hnew | hold
      · rw [hnew] at hc
        exact wr.channels_lt (List.mem_of_mem_erase hc)
      · exact wr.waiting_lt e hold c hc }

/-- Signal the channels of a partition that hold no signal. -/
def notify (wr : WaiterRegistry) (key : PartitionKey) : WaiterRegistry :=
  { wr with
    signalled :=
      wr.signalled ++ (wr.channels key).filter (fun ch => ch ∉ wr.signalled)
    signalled_lt := by
      intro ch hch
      rcases List.mem_append.mp hch with hold | hnew
      · exact wr.signalled_lt ch hold
      · exact wr.channels_lt (List.mem_filter.mp hnew).left }

def receive (wr : WaiterRegistry) (ch : Nat) : WaiterRegistry :=
  { wr with
    signalled := wr.signalled.erase ch
    signalled_lt := fun c hc => wr.signalled_lt c (List.mem_of_mem_erase hc) }

theorem mem_channels_register (wr : WaiterRegistry) (key : PartitionKey) :
    (wr.register key).2 ∈ (wr.register key).1.channels key := by
  unfold register channels
  rw [getEntry_setEntry]
  exact List.mem_append_right _ (List.mem_singleton_self _)

theorem not_signalled_register (wr : WaiterRegistry) (key : PartitionKey) :
    (wr.register key).2 ∉ (wr.register key).1.signalled :=
  fun hmem => Nat.lt_irrefl _ (wr.signalled_lt _ hmem)

theorem mem_signalled_notify {wr : WaiterRegistry} {key : PartitionKey}
    {ch : Nat} :
    ch ∈ (wr.notify key).signalled <->
      ch ∈ wr.signalled ∨ ch ∈ wr.channels key := by
  unfold notify
  rw [List.mem_append, List.mem_filter, decide_eq_true_eq]
  constructor
  · intro h
    rcases h with hold | ⟨hnew, _⟩
    · exact Or.inl hold
    · exact Or.inr hnew
  intro h
  by_cases hold : ch ∈ wr.signalled
  · exact Or.inl hold
  · exact Or.inr ⟨h.resolve_left hold, hold⟩

end WaiterRegistry

/-!
## A fetch
-/

/-- How a fetch ends: there were messages, there is a signal, or time is up. -/
inductive Outcome where
  | current
  | woken
  | timedOut
deriving DecidableEq

/--
Where a fetch is: before the watermark is read, between this and the
registration, registered, in a select whose timer may have fired, waiting, or at
its end.
-/
inductive Phase where
  | start
  | checked
  | registered (ch : Nat)
  | armed (ch : Nat) (fired : Bool)
  | parked (ch : Nat)
  | done (outcome : Outcome)
deriving DecidableEq

def Phase.timeLeft : Phase -> Bool
  | .start | .checked | .registered _ | .armed _ false | .parked _ => true
  | .armed _ true | .done _ => false

/--
The partition, the offsets whose publish has not yet notified, the registry and
the fetch.
-/
structure LongPoll where
  records : Nat
  unnotified : List Nat
  registry : WaiterRegistry
  phase : Phase
  due : Bool

inductive PollAction where
  | append
  | notify (offset : Nat)
  | readWatermark
  | register
  | arm
  | fire
  | select (timer : Bool)
deriving DecidableEq

namespace LongPoll

def start (records : Nat) (registry : WaiterRegistry) : LongPoll where
  records := records
  unnotified := []
  registry := registry
  phase := .start
  due := false

/-- The last offset of the partition, and zero if there is none. -/
def highWatermark (s : LongPoll) : Nat :=
  s.records - 1

def finish (s : LongPoll) (key : PartitionKey) (ch : Nat) (outcome : Outcome) :
    LongPoll :=
  { s with
    registry := s.registry.unregister key ch
    phase := .done outcome }

def wake (s : LongPoll) (key : PartitionKey) (ch : Nat) : LongPoll :=
  { s with registry := s.registry.receive ch }.finish key ch .woken

def handOver (s : LongPoll) (key : PartitionKey) : LongPoll :=
  match s.phase with
  | .parked ch => if ch ∈ s.registry.signalled then s.wake key ch else s
  | _ => s

/-- The publish that appended a record notifies the waiters. -/
def notify (s : LongPoll) (key : PartitionKey) (fromOffset offset : Nat) :
    LongPoll :=
  { s with
    unnotified := s.unnotified.erase offset
    registry := s.registry.notify key
    due := s.due || (s.phase.timeLeft && fromOffset ≤ offset) }.handOver key

/-- If there is both a signal and the end of the time, either may be chosen. -/
def select (s : LongPoll) (key : PartitionKey) (ch : Nat)
    (fired timer : Bool) : LongPoll :=
  if ch ∈ s.registry.signalled then
    if fired && timer then s.finish key ch .timedOut else s.wake key ch
  else if fired then s.finish key ch .timedOut
  else { s with phase := .parked ch }

def step (key : PartitionKey) (fromOffset : Nat) (s : LongPoll) :
    PollAction -> Option LongPoll
  | .append =>
    some { s with
      records := s.records + 1
      unnotified := s.records :: s.unnotified }
  | .notify offset =>
    if offset ∈ s.unnotified then some (s.notify key fromOffset offset)
    else none
  | .readWatermark =>
    match s.phase with
    | .start =>
      some { s with
        phase := if fromOffset ≤ s.highWatermark then .done .current
          else .checked }
    | _ => none
  | .register =>
    match s.phase with
    | .checked =>
      let r := s.registry.register key
      some { s with registry := r.1, phase := .registered r.2 }
    | _ => none
  | .arm =>
    match s.phase with
    | .registered ch => some { s with phase := .armed ch false }
    | _ => none
  | .fire =>
    match s.phase with
    | .armed ch false => some { s with phase := .armed ch true }
    | .parked ch => some (s.finish key ch .timedOut)
    | _ => none
  | .select timer =>
    match s.phase with
    | .armed ch fired => some (s.select key ch fired timer)
    | _ => none

def Missed (s : LongPoll) : Prop :=
  s.phase = .done .timedOut ∧ s.due = true

/-!
## No signal is lost
-/

/--
No record that the fetch waits for has been notified when it registers, and a
signal in time is chosen before the end of the time.
-/
def Wakes (s : LongPoll) : PollAction -> Prop
  | .register => s.due = false
  | .select timer => timer = true -> s.due = true ->
      forall ch, s.phase = .armed ch true -> ch ∉ s.registry.signalled
  | _ => True

def PhaseInv (key : PartitionKey) (fromOffset : Nat) (s : LongPoll) :
    Phase -> Prop
  | .start => s.due = true -> fromOffset < s.records
  | .checked => True
  | .registered ch | .armed ch _ =>
    ch ∈ s.registry.channels key ∧
      (s.due = true -> ch ∈ s.registry.signalled)
  | .parked ch => ch ∈ s.registry.channels key ∧ s.due = false
  | .done outcome => outcome = .timedOut -> s.due = false

structure Inv (key : PartitionKey) (fromOffset : Nat) (s : LongPoll) :
    Prop where
  appended : forall offset, offset ∈ s.unnotified -> offset < s.records
  phase : PhaseInv key fromOffset s s.phase

variable {key : PartitionKey} {fromOffset : Nat} {s : LongPoll}

theorem inv_start (records : Nat) (registry : WaiterRegistry) :
    Inv key fromOffset (start records registry) where
  appended := by
    intro offset hmem
    cases hmem
  phase := by
    intro hno
    cases hno

variable (h : Inv key fromOffset s)

include h

theorem Inv.append :
    Inv key fromOffset
      { s with
        records := s.records + 1
        unnotified := s.records :: s.unnotified } := by
  constructor
  · intro offset hmem
    rcases List.mem_cons.mp hmem with hnew | hold
    · rw [hnew]
      exact Nat.lt_succ_self _
    · exact Nat.lt_succ_of_lt (h.appended offset hold)
  have hphase := h.phase
  show PhaseInv key fromOffset _ s.phase
  cases hp : s.phase with
  | start =>
    rw [hp] at hphase
    exact fun hdue => Nat.lt_succ_of_lt (hphase hdue)
  | checked => trivial
  | registered ch =>
    rw [hp] at hphase
    exact hphase
  | armed ch fired =>
    rw [hp] at hphase
    exact hphase
  | parked ch =>
    rw [hp] at hphase
    exact hphase
  | done outcome =>
  rw [hp] at hphase
  exact hphase

omit h in
theorem inv_finish (happended : forall offset, offset ∈ s.unnotified ->
      offset < s.records) (ch : Nat) {outcome : Outcome}
    (hend : outcome = .timedOut -> s.due = false) :
    Inv key fromOffset (s.finish key ch outcome) where
  appended := happended
  phase := hend

omit h in
theorem inv_wake (happended : forall offset, offset ∈ s.unnotified ->
      offset < s.records) (ch : Nat) : Inv key fromOffset (s.wake key ch) := by
  have hend : Outcome.woken = .timedOut ->
      ({ s with registry := s.registry.receive ch } : LongPoll).due = false :=
    fun hno => by cases hno
  exact @inv_finish key fromOffset
    { s with registry := s.registry.receive ch } happended ch .woken hend

theorem Inv.notify {offset : Nat} (hmem : offset ∈ s.unnotified) :
    Inv key fromOffset (s.notify key fromOffset offset) := by
  have hphase := h.phase
  have happended : forall o, o ∈ s.unnotified.erase offset -> o < s.records :=
    fun o ho => h.appended o (List.mem_of_mem_erase ho)
  have hsignal : forall ch, ch ∈ s.registry.channels key ->
      ch ∈ (s.registry.notify key).signalled :=
    fun ch hch => WaiterRegistry.mem_signalled_notify.mpr (Or.inr hch)
  unfold LongPoll.notify handOver
  cases hp : s.phase with
  | start =>
    rw [hp] at hphase
    refine ⟨happended, ?_⟩
    intro hdue
    rcases Bool.or_eq_true_iff.mp hdue with hold | hnew
    · exact hphase hold
    · rw [Bool.and_eq_true, decide_eq_true_eq] at hnew
      exact Nat.lt_of_le_of_lt hnew.right (h.appended offset hmem)
  | checked => exact ⟨happended, trivial⟩
  | registered ch =>
    rw [hp] at hphase
    exact ⟨happended, hphase.left, fun _ => hsignal ch hphase.left⟩
  | armed ch fired =>
    rw [hp] at hphase
    exact ⟨happended, hphase.left, fun _ => hsignal ch hphase.left⟩
  | parked ch =>
    rw [hp] at hphase
    simp only [if_pos (hsignal ch hphase.left)]
    apply inv_wake
    exact happended
  | done outcome =>
  rw [hp] at hphase
  refine ⟨happended, ?_⟩
  intro hout
  show (s.due || _) = false
  rw [hphase hout]
  rfl

theorem Inv.select {ch : Nat} {fired timer : Bool}
    (hp : s.phase = .armed ch fired)
    (hwakes : fired = true -> timer = true -> s.due = true ->
      ch ∉ s.registry.signalled) :
    Inv key fromOffset (s.select key ch fired timer) := by
  have hphase := h.phase
  rw [hp] at hphase
  have hdue : ch ∉ s.registry.signalled -> s.due = false := by
    intro hnot
    apply Bool.eq_false_iff.mpr
    intro hdue
    exact hnot (hphase.right hdue)
  unfold LongPoll.select
  by_cases hsignal : ch ∈ s.registry.signalled
  · rw [if_pos hsignal]
    by_cases htimer : (fired && timer) = true
    · rw [if_pos htimer]
      rw [Bool.and_eq_true] at htimer
      apply inv_finish h.appended
      intro _
      apply Bool.eq_false_iff.mpr
      intro hyes
      exact hwakes htimer.left htimer.right hyes hsignal
    · rw [if_neg htimer]
      exact inv_wake h.appended ch
  · rw [if_neg hsignal]
    by_cases hfired : fired = true
    · rw [if_pos hfired]
      exact inv_finish h.appended ch (fun _ => hdue hsignal)
    · rw [if_neg hfired]
      exact ⟨h.appended, hphase.left, hdue hsignal⟩

theorem Inv.readWatermark :
    Inv key fromOffset
      { s with
        phase := if fromOffset ≤ s.highWatermark then .done .current
          else .checked } := by
  by_cases hcurrent : fromOffset ≤ s.highWatermark
  · rw [if_pos hcurrent]
    refine ⟨h.appended, ?_⟩
    intro hno
    cases hno
  · rw [if_neg hcurrent]
    exact ⟨h.appended, trivial⟩

theorem Inv.register (hdue : s.due = false) :
    Inv key fromOffset
      { s with
        registry := (s.registry.register key).1
        phase := .registered (s.registry.register key).2 } := by
  refine ⟨h.appended, s.registry.mem_channels_register key, ?_⟩
  intro hyes
  rw [show ({ s with
    registry := (s.registry.register key).1
    phase := .registered (s.registry.register key).2 } : LongPoll).due =
      false from hdue] at hyes
  cases hyes

theorem Inv.fire {s' : LongPoll} (hs : step key fromOffset s .fire = some s') :
    Inv key fromOffset s' := by
  have hphase := h.phase
  simp only [LongPoll.step] at hs
  split at hs
  · rename_i ch hp
    cases hs
    rw [hp] at hphase
    exact ⟨h.appended, hphase⟩
  · rename_i ch hp
    cases hs
    rw [hp] at hphase
    exact inv_finish h.appended ch (fun _ => hphase.right)
  · cases hs

theorem Inv.step {a : PollAction} {s' : LongPoll} (hwakes : s.Wakes a)
    (hs : LongPoll.step key fromOffset s a = some s') :
    Inv key fromOffset s' := by
  have hphase := h.phase
  cases a with
  | append =>
    cases hs
    exact h.append
  | notify offset =>
    simp only [LongPoll.step] at hs
    by_cases hmem : offset ∈ s.unnotified
    · rw [if_pos hmem, Option.some.injEq] at hs
      rw [← hs]
      exact h.notify hmem
    · rw [if_neg hmem] at hs
      cases hs
  | readWatermark =>
    simp only [LongPoll.step] at hs
    split at hs
    · cases hs
      exact h.readWatermark
    · cases hs
  | register =>
    simp only [LongPoll.step] at hs
    split at hs
    · cases hs
      exact h.register hwakes
    · cases hs
  | arm =>
    simp only [LongPoll.step] at hs
    split at hs
    · rename_i ch hp
      cases hs
      rw [hp] at hphase
      exact ⟨h.appended, hphase⟩
    · cases hs
  | fire => exact h.fire hs
  | select timer =>
  simp only [LongPoll.step] at hs
  split at hs
  · rename_i ch fired hp
    cases hs
    apply h.select hp
    intro hfired htimer hdue
    rw [hfired] at hp
    exact hwakes htimer hdue ch hp
  · cases hs

theorem Inv.not_missed : ¬ s.Missed := by
  rintro ⟨hp, hdue⟩
  have hphase := h.phase
  rw [hp] at hphase
  rw [hphase rfl] at hdue
  cases hdue

omit h

/-!
## When a signal is lost
-/

theorem missed_of_register (hp : s.phase = .checked) (hdue : s.due = true) :
    exists t, run? (LongPoll.step key fromOffset) s
      [.register, .arm, .fire, .select true] = some t ∧ t.Missed := by
  have hsilent := s.registry.not_signalled_register key
  have hregister : LongPoll.step key fromOffset s .register = some { s with
      registry := (s.registry.register key).1
      phase := .registered (s.registry.register key).2 } := by
    simp only [LongPoll.step, hp]
  have hselect : forall r : LongPoll, r.registry = (s.registry.register key).1 ->
      r.select key (s.registry.register key).2 true true =
        r.finish key (s.registry.register key).2 .timedOut := by
    intro r hr
    unfold LongPoll.select
    rw [hr, if_neg hsilent, if_pos rfl]
  refine ⟨{ s with
    registry := (s.registry.register key).1.unregister key
      (s.registry.register key).2
    phase := .done .timedOut }, ?_, rfl, hdue⟩
  rw [run?, hregister]
  simp only [run?, LongPoll.step]
  rw [hselect _ rfl]
  rfl

theorem missed_of_select {ch : Nat} (hp : s.phase = .armed ch true)
    (hsignal : ch ∈ s.registry.signalled) (hdue : s.due = true) :
    exists t, run? (LongPoll.step key fromOffset) s [.select true] = some t ∧
      t.Missed := by
  refine ⟨s.finish key ch .timedOut, ?_, rfl, hdue⟩
  have hselect : s.select key ch true true = s.finish key ch .timedOut := by
    unfold LongPoll.select
    rw [if_pos hsignal]
    rfl
  simp only [run?, LongPoll.step, hp, hselect]

theorem missed_of_not_wakes {a : PollAction}
    (hpossible : LongPoll.step key fromOffset s a ≠ none)
    (hwakes : ¬ s.Wakes a) :
    exists more t, run? (LongPoll.step key fromOffset) s (a :: more) = some t ∧
      t.Missed := by
  cases a with
  | append => exact absurd trivial hwakes
  | notify offset => exact absurd trivial hwakes
  | readWatermark => exact absurd trivial hwakes
  | arm => exact absurd trivial hwakes
  | fire => exact absurd trivial hwakes
  | register =>
    have hdue : s.due = true := Bool.not_eq_false _ ▸ hwakes
    have hp : s.phase = .checked := by
      simp only [LongPoll.step] at hpossible
      split at hpossible
      · assumption
      · exact absurd rfl hpossible
    exact ⟨_, missed_of_register hp hdue⟩
  | select timer =>
  simp only [Wakes, Classical.not_imp, Classical.not_forall,
    Classical.not_not] at hwakes
  rcases hwakes with ⟨htimer, hdue, ch, hp, hsignal⟩
  rw [htimer]
  exact ⟨[], missed_of_select hp hsignal hdue⟩

/--
A fetch does not time out when a record that it waits for has been notified in
time exactly if the steps meet the condition.
-/
theorem not_missed_of_wakes (key : PartitionKey) (fromOffset records : Nat)
    (registry : WaiterRegistry) :
    (forall actions s,
      Meets (LongPoll.step key fromOffset) Wakes (start records registry)
          actions ->
        run? (LongPoll.step key fromOffset) (start records registry) actions =
            some s ->
          ¬ s.Missed) ∧
      forall (s : LongPoll) a, LongPoll.step key fromOffset s a ≠ none ->
        ¬ s.Wakes a ->
          exists more t,
            run? (LongPoll.step key fromOffset) s (a :: more) = some t ∧
              t.Missed := by
  constructor
  · intro actions s hmeets hrun
    have hinv : Inv key fromOffset s :=
      run?_invariant_of_meets (fun _ _ _ h hwakes hs => h.step hwakes hs)
        (inv_start records registry) hmeets hrun
    exact hinv.not_missed
  · intro s a hpossible hwakes
    exact missed_of_not_wakes hpossible hwakes

def publishedLate : List PollAction :=
  [.readWatermark, .register, .arm, .select false, .append, .notify 1]

theorem not_missed_publishedLate :
    exists s, run? (LongPoll.step (ascii "t", 0) 1)
        (start 1 WaiterRegistry.newWaiterRegistry) publishedLate = some s ∧
      s.phase = .done .woken ∧ ¬ s.Missed := by
  refine ⟨_, rfl, rfl, ?_⟩
  apply (not_missed_of_wakes (ascii "t", 0) 1 1
    WaiterRegistry.newWaiterRegistry).left publishedLate _ ?_ rfl
  refine meets_cons trivial rfl (meets_cons ?_ rfl (meets_cons trivial rfl
    (meets_cons ?_ rfl (meets_cons trivial rfl (meets_cons trivial rfl
      trivial)))))
  · rfl
  · intro hno
    cases hno

def publishedBetween : List PollAction :=
  [.readWatermark, .append, .notify 1, .register, .arm, .fire, .select true]

theorem missed_publishedBetween :
    exists s, run? (LongPoll.step (ascii "t", 0) 1)
        (start 1 WaiterRegistry.newWaiterRegistry) publishedBetween = some s ∧
      s.records = 2 ∧ s.unnotified = [] ∧ s.Missed :=
  ⟨_, rfl, rfl, rfl, rfl, rfl⟩

end LongPoll

end Stream
end ChimeraMQ
