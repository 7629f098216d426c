import ChimeraMQ.Queue.Takers

/-!
# Calls to the dispatcher with priorities

A call step by step: each step asks one consumer, and between two steps slots
may be freed, which the lock of the dispatcher does not prevent.  Messages carry
the number of their arrival.
-/

namespace ChimeraMQ
namespace Queue

open Foundation
open Message
open PriorityDispatcher

structure Arrived where
  offset : Nat
  arrival : Nat
deriving DecidableEq

/-- Why a message is offered; a message that arrived may come after a flush. -/
inductive Stage where
  | direct
  | flush (todo remaining : List Arrived) (after : Option (Arrived × Nat))
  | retry
deriving DecidableEq

inductive Call where
  | idle
  | offer (m : Arrived) (priority checked : Nat) (stage : Stage)
deriving DecidableEq

/-- The dispatcher, how many messages have arrived, and the call that runs. -/
structure Desk where
  levels : List (List Arrived)
  consumers : List QueueConsumer
  consumerMaxP : List (Bytes × Nat)
  nextIdx : Nat
  arrivals : Nat
  call : Call
deriving DecidableEq

namespace Desk

def newDesk : Desk where
  levels := List.replicate maxPriorityLevels []
  consumers := []
  consumerMaxP := []
  nextIdx := 0
  arrivals := 0
  call := .idle

/-- The messages that wait at a priority, apart from a call that runs. -/
def level (d : Desk) (priority : Nat) : List Arrived :=
  (d.levels[priority]?).getD []

def view (d : Desk) : PriorityDispatcher where
  levels := d.levels.map (List.map Arrived.offset)
  consumers := d.consumers
  consumerMaxP := d.consumerMaxP
  nextIdx := d.nextIdx

def handles (d : Desk) (priority : Nat) (c : QueueConsumer) : Bool :=
  d.view.handles priority c

/-!
## One step of a call
-/

def ask (d : Desk) (offset priority : Nat) : Desk × Option Bytes :=
  match d.consumers[d.nextIdx]? with
  | none => (d, none)
  | some c =>
  let next := (d.nextIdx + 1) % d.consumers.length
  if d.handles priority c && c.hasRoom then
    ({ d with
        consumers := d.consumers.set d.nextIdx (c.take offset)
        nextIdx := next }, some c.id)
  else ({ d with nextIdx := next }, none)

/-- All levels have been flushed: offer what arrived once more, if anything. -/
def flushed (d : Desk) (after : Option (Arrived × Nat)) : Desk :=
  { d with
    call :=
      match after with
      | none => .idle
      | some (m, priority) => .offer m priority 0 .retry }

def flushBelow (d : Desk) (after : Option (Arrived × Nat)) : Nat -> Desk
  | 0 => d.flushed after
  | priority + 1 =>
    match d.level priority with
    | [] => d.flushBelow after priority
    | m :: todo => { d with call := .offer m priority 0 (.flush todo [] after) }

def flushQueued (d : Desk) (after : Option (Arrived × Nat)) : Desk :=
  d.flushBelow after maxPriorityLevels

def flushOn (d : Desk) (priority : Nat) (todo remaining : List Arrived)
    (after : Option (Arrived × Nat)) : Desk :=
  match todo with
  | [] =>
    { d with levels := d.levels.set priority remaining }.flushBelow after
      priority
  | m :: todo =>
    { d with call := .offer m priority 0 (.flush todo remaining after) }

/-- Go on after a message has been offered; the empty id stands for none. -/
def resume (d : Desk) (m : Arrived) (priority : Nat) (stage : Stage)
    (id : Bytes) : Desk :=
  match stage with
  | .direct =>
    if id ≠ [] then { d with call := .idle }
    else d.flushQueued (some (m, priority))
  | .flush todo remaining after =>
    d.flushOn priority todo (if id ≠ [] then remaining else remaining ++ [m])
      after
  | .retry =>
  if id ≠ [] then { d with call := .idle }
  else
    { d with
      levels := d.levels.set priority (d.level priority ++ [m])
      call := .idle }

def advance (d : Desk) : Desk :=
  match d.call with
  | .idle => d
  | .offer m priority checked stage =>
  if checked < d.consumers.length then
    match d.ask m.offset priority with
    | (d, none) => { d with call := .offer m priority (checked + 1) stage }
    | (d, some id) => d.resume m priority stage id
  else d.resume m priority stage []

/-!
## Runs
-/

inductive Action where
  | dispatch (offset : Nat) (env : Envelope)
  | addConsumer (c : QueueConsumer)
  | removeConsumer (id : Bytes)
  | setConsumerMaxPriority (id : Bytes) (maxP : UInt8)
  | free (i offset : Nat)
  | advance

def dispatch (d : Desk) (offset : Nat) (env : Envelope) : Desk :=
  if d.consumers.length = 0 then d
  else
    { d with
      arrivals := d.arrivals + 1
      call := .offer { offset := offset, arrival := d.arrivals }
        (priorityOf env) 0 .direct }

def addConsumer (d : Desk) (c : QueueConsumer) : Desk :=
  { d with
    consumers := d.consumers ++ [c]
    consumerMaxP :=
      match getEntry c.id d.consumerMaxP with
      | none => setEntry c.id 9 d.consumerMaxP
      | some _ => d.consumerMaxP }.flushQueued none

def removeConsumer (d : Desk) (id : Bytes) : Desk :=
  let r := removeFirst id d.consumers d.nextIdx
  { d with
    consumers := r.1
    nextIdx := r.2
    consumerMaxP := deleteEntry id d.consumerMaxP }

def setConsumerMaxPriority (d : Desk) (id : Bytes) (maxP : UInt8) : Desk :=
  { d with
    consumerMaxP :=
      setEntry id (if maxP > 9 then 9 else maxP.toNat) d.consumerMaxP }

def free (d : Desk) (i offset : Nat) : Desk :=
  { d with
    consumers := d.consumers.modify i
      (fun c => { c with inFlight := c.inFlight.erase offset }) }

/-- Slots are freed at any time, all else waits for the call that runs. -/
def step (d : Desk) : Action -> Option Desk
  | .free i offset => some (d.free i offset)
  | .advance => if d.call = .idle then none else some d.advance
  | .dispatch offset env =>
    if d.call = .idle then some (d.dispatch offset env) else none
  | .addConsumer c => if d.call = .idle then some (d.addConsumer c) else none
  | .removeConsumer id =>
    if d.call = .idle then some (d.removeConsumer id) else none
  | .setConsumerMaxPriority id maxP =>
    if d.call = .idle then some (d.setConsumerMaxPriority id maxP) else none

/-!
## Calls that are not interrupted
-/

def serve (d : Desk) (consumers : List QueueConsumer) (nextIdx : Nat) : Desk :=
  { d with consumers := consumers, nextIdx := nextIdx }

theorem ask_cases {d : Desk} (hlt : d.nextIdx < d.consumers.length)
    (offset priority : Nat) :
    exists c, d.consumers[d.nextIdx]? = some c ∧
      (d.handles priority c = true ∧ c.hasRoom = true ∧
          d.ask offset priority =
            (d.serve (d.consumers.set d.nextIdx (c.take offset))
              ((d.nextIdx + 1) % d.consumers.length), some c.id) ∨
        (d.handles priority c && c.hasRoom) = false ∧
          d.ask offset priority =
            (d.serve d.consumers ((d.nextIdx + 1) % d.consumers.length),
              none)) := by
  have hget : d.consumers[d.nextIdx]? = some d.consumers[d.nextIdx] :=
    List.getElem?_eq_getElem hlt
  refine ⟨_, hget, ?_⟩
  unfold ask
  rw [hget]
  cases htakes : d.handles priority d.consumers[d.nextIdx] &&
      d.consumers[d.nextIdx].hasRoom with
  | true =>
    rw [Bool.and_eq_true] at htakes
    exact Or.inl ⟨htakes.left, htakes.right, by simp [htakes, serve]⟩
  | false => exact Or.inr ⟨rfl, by simp [htakes, serve]⟩

theorem flushBelow_call (d : Desk) (call : Call)
    (after : Option (Arrived × Nat)) (n : Nat) :
    ({ d with call := call } : Desk).flushBelow after n =
      d.flushBelow after n := by
  induction n with
  | zero => rfl
  | succ n ih =>
  unfold Desk.flushBelow
  show (match d.level n with
    | [] => ({ d with call := call } : Desk).flushBelow after n
    | m :: todo =>
      { d with call := .offer m n 0 (.flush todo [] after) }) = _
  rw [ih]

theorem resume_call (d : Desk) (call : Call) (m : Arrived) (p : Nat)
    (stage : Stage) (id : Bytes) :
    ({ d with call := call } : Desk).resume m p stage id =
      d.resume m p stage id := by
  cases stage with
  | direct =>
    show (if id ≠ [] then _ else Desk.flushBelow _ _ _) = _
    rw [flushBelow_call]
    rfl
  | flush todo remaining after =>
    cases todo with
    | nil =>
      exact flushBelow_call { d with
        levels := d.levels.set p
          (if id ≠ [] then remaining else remaining ++ [m]) } call after p
    | cons m' todo => rfl
  | retry => rfl

def Leads (d d' : Desk) : Prop :=
  exists n, advance^[n] d = d'

theorem Leads.refl (d : Desk) : d.Leads d := ⟨0, rfl⟩

variable {d : Desk}

theorem Leads.trans {d' d'' : Desk} (h : d.Leads d') (h' : d'.Leads d'') :
    d.Leads d'' := by
  rcases h with ⟨n, hn⟩
  rcases h' with ⟨n', hn'⟩
  exists n' + n
  rw [Function.iterate_add_apply, hn, hn']

theorem leads_advance {d' : Desk} (h : d.advance = d') : d.Leads d' := ⟨1, h⟩

theorem leads_offer (hlt : d.nextIdx < d.consumers.length) (m : Arrived)
    (p : Nat) (stage : Stage) {k j : Nat} (hk : k + j = d.consumers.length) :
    Leads { d with call := .offer m p k stage }
      ((d.serve (takeTurns (d.handles p) m.offset j d.consumers d.nextIdx).1
        (takeTurns (d.handles p) m.offset j d.consumers d.nextIdx).2.1).resume
          m p stage ((takeTurns (d.handles p) m.offset j d.consumers
            d.nextIdx).2.2.getD [])) := by
  induction j generalizing d k with
  | zero =>
    apply leads_advance
    have hall : ¬ k < d.consumers.length := by omega
    show (if k < d.consumers.length then _ else
      ({ d with call := .offer m p k stage } : Desk).resume m p stage []) = _
    rw [if_neg hall]
    exact resume_call d _ m p stage []
  | succ j ih =>
  have hmore : k < d.consumers.length := by omega
  have hstep : ({ d with call := .offer m p k stage } : Desk).advance =
      match ({ d with call := .offer m p k stage } : Desk).ask m.offset p
        with
      | (d, none) => { d with call := .offer m p (k + 1) stage }
      | (d, some id) => d.resume m p stage id := if_pos hmore
  have hnext : (d.nextIdx + 1) % d.consumers.length <
      d.consumers.length := Nat.mod_lt _ (Nat.zero_lt_of_lt hlt)
  unfold takeTurns
  rw [List.getElem?_eq_getElem hlt]
  rcases @ask_cases { d with call := .offer m p k stage } hlt m.offset p
    with ⟨c, hget, ⟨hhandles, hroom, htook⟩ | ⟨hcannot, hpassed⟩⟩
  · have hc : d.consumers[d.nextIdx] = c :=
      Option.some.inj ((List.getElem?_eq_getElem hlt).symm.trans hget)
    have htakes : (d.handles p c && c.hasRoom) = true := by
      rw [hroom, Bool.and_true]
      exact hhandles
    rw [hc]
    simp only [htakes, if_true, Option.getD_some]
    apply leads_advance
    rw [hstep, htook]
    exact resume_call (d.serve (d.consumers.set d.nextIdx
      (c.take m.offset)) ((d.nextIdx + 1) % d.consumers.length)) _ m p
      stage c.id
  have hc : d.consumers[d.nextIdx] = c :=
    Option.some.inj ((List.getElem?_eq_getElem hlt).symm.trans hget)
  have hno : (d.handles p c && c.hasRoom) = false := hcannot
  rw [hc]
  simp only [hno, Bool.false_eq_true, if_false]
  have hfirst : Leads { d with call := .offer m p k stage }
      { d.serve d.consumers ((d.nextIdx + 1) % d.consumers.length) with
        call := .offer m p (k + 1) stage } := by
    apply leads_advance
    rw [hstep, hpassed]
    rfl
  have hrest := @ih (d.serve d.consumers
    ((d.nextIdx + 1) % d.consumers.length)) hnext (k + 1) (by
      show k + 1 + j = d.consumers.length
      omega)
  exact hfirst.trans hrest

def offered (d : Desk) (offset p : Nat) : Desk :=
  d.serve (takeTurns (d.handles p) offset d.consumers.length d.consumers
    d.nextIdx).1 (takeTurns (d.handles p) offset d.consumers.length
      d.consumers d.nextIdx).2.1

theorem view_offered (d : Desk) (offset p : Nat) :
    (d.offered offset p).view =
      (d.view.tryDispatchToConsumer offset p).1 := rfl

variable (hlt : d.nextIdx < d.consumers.length)

include hlt

theorem inTurn_offered (offset p : Nat) :
    (d.offered offset p).nextIdx < (d.offered offset p).consumers.length := by
  have hturn := InTurn.takeTurns (Or.inl hlt) (d.handles p) offset
    d.consumers.length
  have hlength := (fuller_takeTurns (d.handles p) offset d.consumers.length
    d.consumers d.nextIdx).length_eq
  apply hturn.lt
  rw [← hlength]
  omega

theorem leads_resume (m : Arrived) (p : Nat) (stage : Stage) :
    Leads { d with call := .offer m p 0 stage }
      ((d.offered m.offset p).resume m p stage
        (d.view.tryDispatchToConsumer m.offset p).2) :=
  leads_offer hlt m p stage (Nat.zero_add _)

theorem leads_flushOn (p : Nat) (todo remaining : List Arrived)
    (after : Option (Arrived × Nat)) :
    exists (d' : Desk) (left : List Arrived),
      Leads (d.flushOn p todo remaining after)
        (d'.flushOn p [] (remaining ++ left) after) ∧
      d'.nextIdx < d'.consumers.length ∧ d'.levels = d.levels ∧
      flushLevel p (todo.map Arrived.offset) d.view =
        (d'.view, left.map Arrived.offset) := by
  induction todo generalizing d remaining with
  | nil =>
    refine ⟨d, [], ?_, hlt, rfl, rfl⟩
    rw [List.append_nil]
    exact Leads.refl _
  | cons m todo ih =>
  have hoffer := leads_resume hlt m p (.flush todo remaining after)
  rcases ih (inTurn_offered hlt m.offset p)
    (if (d.view.tryDispatchToConsumer m.offset p).2 ≠ [] then remaining
      else remaining ++ [m]) with ⟨d', left, hleads, hturn, hlevels, hview⟩
  rw [view_offered] at hview
  have hall := hoffer.trans hleads
  have hflush : flushLevel p
      ((m :: todo).map Arrived.offset) d.view =
        if (d.view.tryDispatchToConsumer m.offset p).2 ≠ [] then
          (d'.view, left.map Arrived.offset)
        else (d'.view, m.offset :: left.map Arrived.offset) := by
    rw [List.map_cons]
    unfold flushLevel
    simp only [hview]
  by_cases htook : (d.view.tryDispatchToConsumer m.offset p).2 ≠ []
  · rw [if_pos htook] at hall
    exact ⟨d', left, hall, hturn, hlevels, hflush.trans (if_pos htook)⟩
  · rw [if_neg htook, List.append_assoc] at hall
    exact ⟨d', m :: left, hall, hturn, hlevels,
      hflush.trans (if_neg htook)⟩

omit hlt in
theorem view_level (d : Desk) (p : Nat) :
    d.view.level p = (d.level p).map Arrived.offset := by
  unfold PriorityDispatcher.level level view
  rw [List.getElem?_map]
  cases d.levels[p]? with
  | none => rfl
  | some messages => rfl

omit hlt in
theorem view_set (d : Desk) (p : Nat) (messages : List Arrived) :
    ({ d with levels := d.levels.set p messages } : Desk).view =
      { d.view with
        levels := d.view.levels.set p (messages.map Arrived.offset) } := by
  unfold view
  rw [List.map_set]

theorem leads_flushBelow (after : Option (Arrived × Nat)) (n : Nat) :
    exists d' : Desk, Leads (d.flushBelow after n) (d'.flushed after) ∧
      d'.nextIdx < d'.consumers.length ∧
      flushLevels n d.view = d'.view := by
  induction n generalizing d with
  | zero => exact ⟨d, Leads.refl _, hlt, rfl⟩
  | succ n ih =>
  unfold Desk.flushBelow flushLevels
  cases hlevel : d.level n with
  | nil =>
    rcases ih hlt with ⟨d', hleads, hturn, hview⟩
    refine ⟨d', hleads, hturn, ?_⟩
    have hempty : d.view.level n = [] := by
      rw [view_level, hlevel]
      rfl
    have hsame := set_level d.view n
    rw [hempty] at hsame
    rw [hempty]
    show flushLevels n
      { d.view with levels := d.view.levels.set n [] } = _
    rw [hsame]
    exact hview
  | cons m todo =>
  rcases leads_flushOn hlt n (m :: todo) [] after with
    ⟨d1, left, hleads, hturn, hlevels, hview⟩
  rcases @ih { d1 with levels := d1.levels.set n left } hturn with
    ⟨d', hrest, hturn', hview'⟩
  refine ⟨d', ?_, hturn', ?_⟩
  · have hfirst : Leads
        { d with call := .offer m n 0 (.flush todo [] after) }
        ({ d1 with levels := d1.levels.set n left }.flushBelow after
          n) := hleads
    exact hfirst.trans hrest
  · rw [view_level, hlevel, hview, ← hview', view_set]

theorem leads_retry (m : Arrived) (p : Nat) :
    exists d' : Desk, Leads (d.flushed (some (m, p))) d' ∧ d'.call = .idle ∧
      d'.view =
        if (d.view.tryDispatchToConsumer m.offset p).2 ≠ [] then
          (d.view.tryDispatchToConsumer m.offset p).1
        else
          { (d.view.tryDispatchToConsumer m.offset p).1 with
            levels := d.view.levels.set p (d.view.level p ++ [m.offset]) } := by
  have hoffer := leads_resume hlt m p .retry
  by_cases htook : (d.view.tryDispatchToConsumer m.offset p).2 ≠ []
  · rw [if_pos htook]
    have htaken : (d.offered m.offset p).resume m p .retry
        (d.view.tryDispatchToConsumer m.offset p).2 =
          { d.offered m.offset p with call := .idle } := if_pos htook
    rw [htaken] at hoffer
    exact ⟨_, hoffer, rfl, rfl⟩
  rw [if_neg htook]
  have hqueued : (d.offered m.offset p).resume m p .retry
      (d.view.tryDispatchToConsumer m.offset p).2 =
        { d.offered m.offset p with
          levels := d.levels.set p (d.level p ++ [m])
          call := .idle } := if_neg htook
  rw [hqueued] at hoffer
  refine ⟨_, hoffer, rfl, ?_⟩
  have hset := view_set (d.offered m.offset p) p (d.level p ++ [m])
  rw [List.map_append, ← view_level] at hset
  exact hset

omit hlt

/--
A call that nothing happens in between does to the dispatcher what is said
of calls as a whole.
-/
theorem leads_dispatch (hturn : InTurn d.consumers d.nextIdx)
    (hidle : d.call = .idle) (offset : Nat) (env : Envelope) :
    exists d' : Desk, Leads (d.dispatch offset env) d' ∧ d'.call = .idle ∧
      d'.view = (d.view.dispatch offset env).1 := by
  unfold Desk.dispatch PriorityDispatcher.dispatch
  by_cases hnone : d.consumers.length = 0
  · have hview : d.view.consumers.length = 0 := hnone
    rw [if_pos hnone, if_pos hview]
    exact ⟨d, Leads.refl d, hidle, rfl⟩
  have hview : ¬ d.view.consumers.length = 0 := hnone
  have hlt : d.nextIdx < d.consumers.length := hturn.lt hnone
  rw [if_neg hnone, if_neg hview]
  generalize priorityOf env = p
  generalize hm : ({ offset := offset, arrival := d.arrivals } :
    Arrived) = m
  have hoffset : offset = m.offset := by rw [← hm]
  rw [hoffset]
  have hoffer := @leads_resume { d with arrivals := d.arrivals + 1 } hlt m p
    .direct
  by_cases htook : (d.view.tryDispatchToConsumer m.offset p).2 ≠ []
  · simp only [if_pos htook]
    have htaken : (({ d with
        arrivals := d.arrivals + 1 } : Desk).offered m.offset p).resume m p
          .direct (d.view.tryDispatchToConsumer m.offset p).2 =
        { ({ d with
          arrivals := d.arrivals + 1 } : Desk).offered m.offset p with
            call := .idle } := if_pos htook
    exact ⟨_, hoffer.trans ⟨0, htaken⟩, rfl, rfl⟩
  simp only [if_neg htook]
  have hflush : (({ d with
      arrivals := d.arrivals + 1 } : Desk).offered m.offset p).resume m p
        .direct (d.view.tryDispatchToConsumer m.offset p).2 =
      (({ d with
        arrivals := d.arrivals + 1 } : Desk).offered m.offset p).flushBelow
          (some (m, p)) maxPriorityLevels := if_neg htook
  rcases leads_flushBelow (@inTurn_offered { d with
    arrivals := d.arrivals + 1 } hlt m.offset p) (some (m, p))
      maxPriorityLevels with ⟨d1, hbelow, hlt1, hview1⟩
  rcases leads_retry hlt1 m p with ⟨d', hretry, hdone, hview'⟩
  rw [← hflush] at hbelow
  refine ⟨d', hoffer.trans (hbelow.trans hretry), hdone, ?_⟩
  have hflushed : (d.view.tryDispatchToConsumer m.offset p).1.flushQueued =
      d1.view := hview1
  rw [hflushed, hview']
  split
  · rfl
  · rfl

/-- One message waits; of two consumers one is full, and one takes less. -/
def crowded : Desk :=
  { newDesk with
    levels := newDesk.levels.set 2 [{ offset := 0, arrival := 0 }]
    consumers := [⟨[1], 1, [9]⟩, ⟨[2], 1, []⟩]
    consumerMaxP := [([1], 9), ([2], 3)]
    arrivals := 1 }

/-- The flush hands out the message that waits, and the retry is in vain. -/
theorem leads_dispatch_crowded :
    exists d' : Desk,
      Leads (crowded.dispatch 7 { Envelope.zero with priority := 9 }) d' ∧
        d'.call = .idle ∧
        d'.view.consumers.map QueueConsumer.inFlight = [[9], [0]] ∧
        d'.view.levels[2]? = some [] ∧ d'.view.levels[9]? = some [7] := by
  rcases @leads_dispatch crowded (Or.inl (by decide +kernel))
    (by decide +kernel) 7 { Envelope.zero with priority := 9 } with
    ⟨d', hleads, hidle, hview⟩
  refine ⟨d', hleads, hidle, ?_⟩
  rw [hview]
  decide +kernel

end Desk

end Queue
end ChimeraMQ
