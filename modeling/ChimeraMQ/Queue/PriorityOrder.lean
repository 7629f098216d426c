import ChimeraMQ.Queue.PriorityCall

/-!
# The order in which priorities are handed out

What waits while a call to the dispatcher runs, and whom a message may be handed
to before it.
-/

namespace ChimeraMQ
namespace Queue

open Foundation
open Message

namespace Desk

def queue (d : Desk) (priority : Nat) : List Arrived :=
  match d.call with
  | .offer m p _ (.flush todo remaining _) =>
    if priority = p then remaining ++ m :: todo else d.level priority
  | _ => d.level priority

structure Assigns (d : Desk) (m : Arrived) (priority : Nat) (stage : Stage)
    (c : QueueConsumer) : Prop where
  offered : exists checked, d.call = .offer m priority checked stage ∧
    checked < d.consumers.length
  turn : d.consumers[d.nextIdx]? = some c
  handles : d.handles priority c = true
  room : c.hasRoom = true

/--
No message of a higher priority that the consumer may take is waiting, and none
of the same priority that arrived before.
-/
def Respects (d : Desk) (m : Arrived) (priority : Nat) (c : QueueConsumer) :
    Prop :=
  forall q w, w ∈ d.queue q -> d.handles q c = true ->
    q ≤ priority ∧ (q = priority -> m.arrival ≤ w.arrival)

def askedAgo (d : Desk) (i : Nat) : Nat :=
  if i < d.nextIdx then d.nextIdx - 1 - i
  else d.nextIdx + d.consumers.length - 1 - i

/-- A consumer was asked in vain for a message of a priority in this call. -/
def PassedOver (d : Desk) (i q : Nat) : Prop :=
  match d.call with
  | .offer _ p checked (.flush _ remaining _) =>
    p < q ∧ d.level q ≠ [] ∨
      q = p ∧ (remaining ≠ [] ∨ d.askedAgo i < checked)
  | .offer _ _ _ .retry => d.level q ≠ []
  | _ => False

/--
Consumers have names, and a slot that is freed while the dispatcher flushes is
not of a consumer that handles what it has been asked for in vain.
-/
def Undisturbed (d : Desk) : Action -> Prop
  | .addConsumer c => c.id ≠ []
  | .free i _ => forall c q, d.consumers[i]? = some c -> d.PassedOver i q ->
      d.handles q c = false
  | _ => True

/-!
## What holds while a call runs
-/

def arriving (d : Desk) : Option Arrived :=
  match d.call with
  | .offer m _ _ .direct => some m
  | .offer _ _ _ (.flush _ _ after) => after.map Prod.fst
  | .offer m _ _ .retry => some m
  | .idle => none

def Busy (d : Desk) (q : Nat) : Prop :=
  forall (i : Nat) c, d.consumers[i]? = some c -> d.handles q c = true ->
    c.hasRoom = false

structure InOrder (queue : Nat -> List Arrived) (arrivals : Nat)
    (arriving : Option Arrived) : Prop where
  sorted : forall q, (queue q).Pairwise (fun a b => a.arrival < b.arrival)
  past : forall q w, w ∈ queue q -> w.arrival < arrivals
  fresh : forall m, arriving = some m -> m.arrival < arrivals ∧
    forall q w, w ∈ queue q -> w.arrival < m.arrival

structure Ready (d : Desk) : Prop where
  length : d.levels.length = maxPriorityLevels
  turn : InTurn d.consumers d.nextIdx
  named : forall c, c ∈ d.consumers -> c.id ≠ []

/--
The queues are in order, and who has been asked for a message in vain still has
no room if it handles the message.
-/
structure Ordered (d : Desk) : Prop where
  ready : d.Ready
  inOrder : InOrder d.queue d.arrivals d.arriving
  flushing : forall m p checked todo remaining after,
    d.call = .offer m p checked (.flush todo remaining after) ->
      p < maxPriorityLevels
  busy : forall (i : Nat) c q, d.consumers[i]? = some c -> d.PassedOver i q ->
    d.handles q c = true -> c.hasRoom = false

theorem InOrder.of_sublist {queue queue' : Nat -> List Arrived}
    {arrivals : Nat} {arriving arriving' : Option Arrived}
    (h : InOrder queue arrivals arriving)
    (hqueue : forall q, (queue' q).Sublist (queue q))
    (harriving : forall m, arriving' = some m -> arriving = some m) :
    InOrder queue' arrivals arriving' where
  sorted := fun q => (h.sorted q).sublist (hqueue q)
  past := fun q w hw => h.past q w ((hqueue q).subset hw)
  fresh := by
    intro m hm
    rcases h.fresh m (harriving m hm) with ⟨hlt, hall⟩
    exact ⟨hlt, fun q w hw => hall q w ((hqueue q).subset hw)⟩

structure FlushedFrom (d : Desk) (after : Option (Arrived × Nat)) (n : Nat) :
    Prop where
  ready : d.Ready
  inOrder : InOrder d.level d.arrivals (after.map Prod.fst)
  bound : n ≤ maxPriorityLevels
  busy : forall q, n ≤ q -> d.level q ≠ [] -> d.Busy q

variable {d : Desk} {after : Option (Arrived × Nat)}

theorem FlushedFrom.flushed (h : d.FlushedFrom after 0) :
    (d.flushed after).Ordered := by
  cases after with
  | none =>
    refine ⟨⟨h.ready.length, h.ready.turn, h.ready.named⟩, h.inOrder, ?_, ?_⟩
    · intro m p checked todo remaining after hcall
      cases hcall
    · intro i c q _ hpassed
      cases hpassed
  | some arrived =>
  refine ⟨⟨h.ready.length, h.ready.turn, h.ready.named⟩, h.inOrder, ?_, ?_⟩
  · intro m p checked todo remaining after hcall
    cases hcall
  · intro i c q hget hpassed hhandles
    exact h.busy q (Nat.zero_le q) hpassed i c hget hhandles

theorem queue_offer (d : Desk) (m : Arrived) (p : Nat)
    (todo remaining : List Arrived) (after : Option (Arrived × Nat)) (q : Nat) :
    ({ d with call := .offer m p 0 (.flush todo remaining after) } :
        Desk).queue q =
      if q = p then remaining ++ m :: todo else d.level q := rfl

variable {n : Nat}

theorem FlushedFrom.flushBelow (h : d.FlushedFrom after n) :
    (d.flushBelow after n).Ordered := by
  induction n with
  | zero => exact h.flushed
  | succ n ih =>
  unfold Desk.flushBelow
  cases hlevel : d.level n with
  | nil =>
    apply ih
    refine ⟨h.ready, h.inOrder, Nat.le_of_succ_le h.bound, ?_⟩
    intro q hq hsome
    rcases Nat.lt_or_eq_of_le hq with hlt | heq
    · exact h.busy q hlt hsome
    · rw [← heq] at hsome
      exact absurd hlevel hsome
  | cons m todo =>
  have hqueue : ({ d with
      call := .offer m n 0 (.flush todo [] after) } : Desk).queue =
        d.level := by
    funext q
    rw [queue_offer]
    split
    · rename_i heq
      rw [heq, hlevel]
      rfl
    · rfl
  refine ⟨⟨h.ready.length, h.ready.turn, h.ready.named⟩, ?_, ?_, ?_⟩
  · rw [hqueue]
    exact h.inOrder
  · intro m' p checked todo' remaining after' hcall
    cases hcall
    exact h.bound
  intro i c q hget hpassed hhandles
  rcases hpassed with ⟨hlt, hsome⟩ | ⟨_, hnone | hasked⟩
  · exact h.busy q hlt hsome i c hget hhandles
  · exact absurd rfl hnone
  · exact absurd hasked (Nat.not_lt_zero _)

theorem level_eq_nil (h : d.Ready) {q : Nat} (hq : maxPriorityLevels ≤ q) :
    d.level q = [] := by
  unfold level
  rw [List.getElem?_eq_none (by rw [h.length]; exact hq)]
  rfl

variable {p : Nat}

theorem level_set (d : Desk) (hp : p < d.levels.length)
    (messages : List Arrived) (q : Nat) :
    ({ d with levels := d.levels.set p messages } : Desk).level q =
      if q = p then messages else d.level q := by
  unfold level
  by_cases hq : q = p
  · rw [if_pos hq, hq, List.getElem?_set_self hp]
    rfl
  · rw [if_neg hq, List.getElem?_set_ne (fun h => hq h.symm)]

structure Flushing (d : Desk) (p : Nat) (todo remaining : List Arrived)
    (after : Option (Arrived × Nat)) : Prop where
  ready : d.Ready
  inOrder : InOrder (fun q => if q = p then remaining ++ todo else d.level q)
    d.arrivals (after.map Prod.fst)
  bound : p < maxPriorityLevels
  above : forall q, p < q -> d.level q ≠ [] -> d.Busy q
  here : remaining ≠ [] -> d.Busy p

theorem Flushing.flushOn {todo remaining : List Arrived}
    (h : d.Flushing p todo remaining after) :
    (d.flushOn p todo remaining after).Ordered := by
  have hlength : p < d.levels.length := by
    rw [h.ready.length]
    exact h.bound
  cases todo with
  | nil =>
    have hlevel := fun q => level_set d hlength remaining q
    apply FlushedFrom.flushBelow
    refine ⟨⟨?_, h.ready.turn, h.ready.named⟩, ?_, Nat.le_of_lt h.bound, ?_⟩
    · rw [List.length_set]
      exact h.ready.length
    · apply h.inOrder.of_sublist
      · intro q
        rw [hlevel, List.append_nil]
      · exact fun m hm => hm
    intro q hq hsome
    rw [hlevel] at hsome
    by_cases heq : q = p
    · rw [if_pos heq] at hsome
      rw [heq]
      exact h.here hsome
    · rw [if_neg heq] at hsome
      exact h.above q (by omega) hsome
  | cons m todo =>
  refine ⟨⟨h.ready.length, h.ready.turn, h.ready.named⟩, h.inOrder, ?_, ?_⟩
  · intro m' p' checked todo' remaining' after' hcall
    cases hcall
    exact h.bound
  intro i c q hget hpassed hhandles
  rcases hpassed with ⟨hlt, hsome⟩ | ⟨heq, hsome | hasked⟩
  · exact h.above q hlt hsome i c hget hhandles
  · rw [heq] at hhandles
    exact h.here hsome i c hget hhandles
  · exact absurd hasked (Nat.not_lt_zero _)

/-!
## The steps
-/

variable {i : Nat}

theorem getElem?_fuller {xs ys : List QueueConsumer} (h : Fuller xs ys)
    {c' : QueueConsumer} (hget : ys[i]? = some c') :
    exists c, xs[i]? = some c ∧ c'.id = c.id ∧
      (c'.hasRoom = true -> c.hasRoom = true) := by
  induction h generalizing i with
  | nil => cases hget
  | cons hone _ ih =>
  cases i with
  | zero =>
    cases hget
    exact ⟨_, rfl, hone⟩
  | succ i => exact ih hget

variable {cs : List QueueConsumer} {c : QueueConsumer}

theorem fuller_set (hget : cs[i]? = some c) (offset : Nat) :
    Fuller cs (cs.set i (c.take offset)) := by
  induction cs generalizing i with
  | nil => cases hget
  | cons x rest ih =>
  cases i with
  | zero =>
    cases hget
    exact List.Forall₂.cons ⟨rfl, QueueConsumer.hasRoom_of_take⟩
      (Fuller.refl rest)
  | succ i => exact List.Forall₂.cons ⟨rfl, id⟩ (ih hget)

theorem handles_congr (d : Desk) (q : Nat) {c' : QueueConsumer}
    (h : c'.id = c.id) : d.handles q c' = d.handles q c := by
  unfold handles PriorityDispatcher.handles
  rw [h]

theorem Ready.serve (h : d.Ready) (hfuller : Fuller d.consumers cs)
    (hturn : InTurn cs n) :
    (d.serve cs n).Ready where
  length := h.length
  turn := hturn
  named := by
    intro c' hc'
    rcases hfuller.exists_mem hc' with ⟨c, hc, hid, _⟩
    rw [hid]
    exact h.named c hc

theorem Busy.serve {q : Nat} (h : d.Busy q) (hfuller : Fuller d.consumers cs)
    (n : Nat) :
    (d.serve cs n).Busy q := by
  intro i c' hget hhandles
  rcases getElem?_fuller hfuller hget with ⟨c, hc, hid, hroom⟩
  have hfull := h i c hc ((d.handles_congr q hid).symm.trans hhandles)
  apply Bool.eq_false_iff.mpr
  intro htrue
  rw [hroom htrue] at hfull
  cases hfull

theorem askedAgo_lt (hlt : d.nextIdx < d.consumers.length)
    (hi : i < d.consumers.length) : d.askedAgo i < d.consumers.length := by
  unfold askedAgo
  split
  · omega
  · omega

theorem askedAgo_serve (hlt : d.nextIdx < d.consumers.length)
    (hi : i < d.consumers.length) (hne : i ≠ d.nextIdx) :
    (d.serve d.consumers ((d.nextIdx + 1) % d.consumers.length)).askedAgo i =
      d.askedAgo i + 1 := by
  unfold askedAgo serve
  simp only
  by_cases hlast : d.nextIdx + 1 = d.consumers.length
  · rw [hlast, Nat.mod_self, if_neg (Nat.not_lt_zero i), if_pos (by omega)]
    omega
  rw [Nat.mod_eq_of_lt (by omega)]
  by_cases hbefore : i < d.nextIdx
  · rw [if_pos (by omega), if_pos hbefore]
    omega
  · rw [if_neg (by omega), if_neg hbefore]
    omega

variable {m : Arrived} {checked : Nat}

variable (h : d.Ordered)

include h

theorem Ordered.flushingWith {todo remaining : List Arrived}
    (hcall : d.call = .offer m p checked (.flush todo remaining after))
    (hfuller : Fuller d.consumers cs) (hturn : InTurn cs n)
    {remaining' : List Arrived}
    (hsub : (remaining' ++ todo).Sublist (remaining ++ m :: todo))
    (hbusy : remaining' ≠ [] -> d.Busy p) :
    (d.serve cs n).Flushing p todo remaining' after where
  ready := h.ready.serve hfuller hturn
  inOrder := by
    apply h.inOrder.of_sublist
    · intro q
      unfold queue
      rw [hcall]
      by_cases hq : q = p
      · simp only [if_pos hq]
        exact hsub
      · simp only [if_neg hq]
        exact List.Sublist.refl _
    · intro m' hm'
      unfold arriving
      rw [hcall]
      exact hm'
  bound := h.flushing m p checked todo remaining after hcall
  above := by
    intro q hq hsome
    apply Busy.serve _ hfuller
    intro i c hget hhandles
    apply h.busy i c q hget _ hhandles
    unfold PassedOver
    rw [hcall]
    exact Or.inl ⟨hq, hsome⟩
  here := fun hsome => (hbusy hsome).serve hfuller n

theorem Ordered.done (hqueue : d.queue = d.level)
    (hfuller : Fuller d.consumers cs) (hturn : InTurn cs n) :
    ({ d.serve cs n with call := .idle } : Desk).Ordered where
  ready :=
    have hready := h.ready.serve hfuller hturn
    ⟨hready.length, hready.turn, hready.named⟩
  inOrder := by
    apply h.inOrder.of_sublist
    · intro q
      rw [hqueue]
      exact List.Sublist.refl _
    · intro m hm
      cases hm
  flushing := by
    intro m p checked todo remaining after hcall
    cases hcall
  busy := by
    intro i c q _ hpassed
    cases hpassed

theorem Ordered.taken {stage : Stage}
    (hcall : d.call = .offer m p checked stage)
    (hfuller : Fuller d.consumers cs) (hturn : InTurn cs n) {id : Bytes}
    (hid : id ≠ []) : ((d.serve cs n).resume m p stage id).Ordered := by
  cases stage with
  | direct =>
    show (if id ≠ [] then _ else _ : Desk).Ordered
    rw [if_pos hid]
    apply h.done _ hfuller hturn
    unfold queue
    rw [hcall]
  | flush todo remaining after =>
    show ((d.serve cs n).flushOn p todo
      (if id ≠ [] then remaining else remaining ++ [m]) after).Ordered
    rw [if_pos hid]
    apply Flushing.flushOn
    apply h.flushingWith hcall hfuller hturn
    · exact List.Sublist.append (List.Sublist.refl _)
        (List.sublist_cons_self m todo)
    intro hsome i c hget hhandles
    apply h.busy i c p hget _ hhandles
    unfold PassedOver
    rw [hcall]
    exact Or.inr ⟨rfl, Or.inl hsome⟩
  | retry =>
  show (if id ≠ [] then _ else _ : Desk).Ordered
  rw [if_pos hid]
  apply h.done _ hfuller hturn
  unfold queue
  rw [hcall]

theorem Ordered.passed {stage : Stage}
    (hcall : d.call = .offer m p checked stage)
    (hall : d.consumers.length ≤ checked) :
    (d.resume m p stage []).Ordered := by
  have hsame : d.serve d.consumers d.nextIdx = d := rfl
  cases stage with
  | direct =>
    show (d.flushBelow (some (m, p)) maxPriorityLevels).Ordered
    apply FlushedFrom.flushBelow
    refine ⟨h.ready, ?_, Nat.le_refl _, ?_⟩
    · apply h.inOrder.of_sublist
      · intro q
        unfold queue
        rw [hcall]
      intro m' hm'
      unfold arriving
      rw [hcall]
      exact hm'
    · intro q hq hsome
      exact absurd (level_eq_nil h.ready hq) hsome
  | flush todo remaining after =>
    show (d.flushOn p todo (remaining ++ [m]) after).Ordered
    apply Flushing.flushOn
    rw [← hsame]
    apply h.flushingWith hcall (Fuller.refl _) h.ready.turn
    · rw [List.append_assoc]
      exact List.Sublist.refl _
    intro _ i c hget hhandles
    have hi := (List.getElem?_eq_some_iff.mp hget).choose
    have hlt := h.ready.turn.lt (Nat.ne_of_gt (Nat.zero_lt_of_lt hi))
    apply h.busy i c p hget _ hhandles
    unfold PassedOver
    rw [hcall]
    exact Or.inr ⟨rfl, Or.inr
      (Nat.lt_of_lt_of_le (askedAgo_lt hlt hi) hall)⟩
  | retry =>
  have hqueue : d.queue = d.level := by
    unfold queue
    rw [hcall]
  have hinOrder := h.inOrder
  rw [hqueue] at hinOrder
  have hfresh := hinOrder.fresh m (by
    unfold arriving
    rw [hcall])
  have hlevel : forall q, ({ d with
      levels := d.levels.set p (d.level p ++ [m])
      call := .idle } : Desk).queue q = d.level q ++ [m] ∨
      ({ d with
        levels := d.levels.set p (d.level p ++ [m])
        call := .idle } : Desk).queue q = d.level q := by
    intro q
    by_cases hp : p < d.levels.length
    · have hset := level_set d hp (d.level p ++ [m]) q
      by_cases hq : q = p
      · rw [if_pos hq, ← hq] at hset
        rw [← hq]
        exact Or.inl hset
      · rw [if_neg hq] at hset
        exact Or.inr hset
    · rw [List.set_eq_of_length_le (Nat.le_of_not_lt hp)]
      exact Or.inr rfl
  show ({ d with
      levels := d.levels.set p (d.level p ++ [m])
      call := .idle } : Desk).Ordered
  refine ⟨⟨?_, h.ready.turn, h.ready.named⟩, ⟨?_, ?_, ?_⟩, ?_, ?_⟩
  · rw [List.length_set]
    exact h.ready.length
  · intro q
    rcases hlevel q with hmore | hsame
    · rw [hmore, List.pairwise_append]
      refine ⟨hinOrder.sorted q, List.pairwise_singleton _ m, ?_⟩
      intro w hw m' hm'
      rw [List.mem_singleton.mp hm']
      exact hfresh.right q w hw
    · rw [hsame]
      exact hinOrder.sorted q
  · intro q w hw
    rcases hlevel q with hmore | hsame
    · rw [hmore] at hw
      rcases List.mem_append.mp hw with hold | hnew
      · exact hinOrder.past q w hold
      · rw [List.mem_singleton.mp hnew]
        exact hfresh.left
    · rw [hsame] at hw
      exact hinOrder.past q w hw
  · intro m' hm'
    cases hm'
  · intro m' p' checked todo remaining after hidle
    cases hidle
  · intro i c q _ hpassed
    cases hpassed

theorem Ordered.asked {stage : Stage}
    (hcall : d.call = .offer m p checked stage)
    (hlt : d.nextIdx < d.consumers.length)
    (hget : d.consumers[d.nextIdx]? = some c)
    (hcannot : (d.handles p c && c.hasRoom) = false) :
    ({ d.serve d.consumers ((d.nextIdx + 1) % d.consumers.length) with
      call := .offer m p (checked + 1) stage } : Desk).Ordered := by
  have hturn : InTurn d.consumers
      ((d.nextIdx + 1) % d.consumers.length) :=
    Or.inl (Nat.mod_lt _ (Nat.zero_lt_of_lt hlt))
  have hready := h.ready.serve (Fuller.refl _) hturn
  have hqueue : ({ d.serve d.consumers
      ((d.nextIdx + 1) % d.consumers.length) with
        call := .offer m p (checked + 1) stage } : Desk).queue = d.queue := by
    funext q
    unfold queue
    rw [hcall]
    cases stage with
    | direct => rfl
    | flush todo remaining after => rfl
    | retry => rfl
  refine ⟨⟨hready.length, hready.turn, hready.named⟩, ?_, ?_, ?_⟩
  · apply h.inOrder.of_sublist
    · intro q
      rw [hqueue]
    intro m' hm'
    unfold arriving at hm' ⊢
    rw [hcall]
    cases stage with
    | direct => exact hm'
    | flush todo remaining after => exact hm'
    | retry => exact hm'
  · intro m' p' checked' todo remaining after hnext
    cases hnext
    exact h.flushing m p checked todo remaining after hcall
  intro i x q hx hpassed hhandles
  by_cases hbefore : d.PassedOver i q
  · exact h.busy i x q hx hbefore hhandles
  unfold PassedOver at hpassed hbefore
  rw [hcall] at hbefore
  cases stage with
  | direct => cases hpassed
  | retry => exact absurd hpassed hbefore
  | flush todo remaining after =>
  rcases hpassed with habove | ⟨heq, hsome | hasked⟩
  · exact absurd (Or.inl habove) hbefore
  · exact absurd (Or.inr ⟨heq, Or.inl hsome⟩) hbefore
  have hi := (List.getElem?_eq_some_iff.mp hx).choose
  by_cases hne : i = d.nextIdx
  · -- it is the consumer that has just been asked
    have hxc : x = c := by
      rw [hne] at hx
      exact Option.some.inj (hx.symm.trans hget)
    rw [← hxc, ← heq] at hcannot
    rw [Bool.and_eq_false_iff] at hcannot
    rcases hcannot with hno | hfull
    · have hyes : d.handles q x = true := hhandles
      rw [hno] at hyes
      cases hyes
    · exact hfull
  · have hback := askedAgo_serve hlt hi hne
    change (d.serve d.consumers ((d.nextIdx + 1) %
      d.consumers.length)).askedAgo i < checked + 1 at hasked
    rw [hback] at hasked
    exact absurd (Or.inr ⟨heq, Or.inr (by omega)⟩) hbefore

theorem Ordered.advance : d.advance.Ordered := by
  unfold Desk.advance
  cases hcall : d.call with
  | idle => exact h
  | offer m p checked stage =>
  simp only
  by_cases hmore : checked < d.consumers.length
  · rw [if_pos hmore]
    have hlt := h.ready.turn.lt (Nat.ne_of_gt (Nat.zero_lt_of_lt hmore))
    have hturn : InTurn d.consumers
        ((d.nextIdx + 1) % d.consumers.length) :=
      Or.inl (Nat.mod_lt _ (Nat.zero_lt_of_lt hlt))
    rcases ask_cases hlt m.offset p with
      ⟨c, hget, ⟨_, _, htook⟩ | ⟨hcannot, hpassed⟩⟩
    · rw [htook]
      apply h.taken hcall (fuller_set hget m.offset)
      · rcases hturn with hnext | ⟨hnil, hzero⟩
        · exact Or.inl (by rw [List.length_set]; exact hnext)
        · rw [hnil] at hmore
          exact absurd hmore (Nat.not_lt_zero _)
      · exact h.ready.named c (List.mem_of_getElem? hget)
    · rw [hpassed]
      exact h.asked hcall hlt hget hcannot
  · rw [if_neg hmore]
    exact h.passed hcall (Nat.le_of_not_lt hmore)

theorem Ordered.free {offset : Nat} (hquiet : d.Undisturbed (.free i offset)) :
    (d.free i offset).Ordered := by
  have hlength : (d.free i offset).consumers.length = d.consumers.length :=
    List.length_modify ..
  have hget : forall (j : Nat) c', (d.free i offset).consumers[j]? = some c' ->
      exists c, d.consumers[j]? = some c ∧ c'.id = c.id ∧
        (j ≠ i -> c' = c) := by
    intro j c' hj
    unfold Desk.free at hj
    rw [List.getElem?_modify] at hj
    rcases Option.map_eq_some_iff.mp hj with ⟨c, hc, heq⟩
    refine ⟨c, hc, ?_, ?_⟩
    · rw [← heq]
      split
      · rfl
      · rfl
    · intro hne
      rw [← heq, if_neg (fun hij => hne hij.symm)]
  have hpassed : forall j q, (d.free i offset).PassedOver j q ->
      d.PassedOver j q := by
    intro j q hj
    unfold PassedOver askedAgo at hj ⊢
    rw [hlength] at hj
    exact hj
  refine ⟨⟨h.ready.length, ?_, ?_⟩, h.inOrder, h.flushing, ?_⟩
  · rcases h.ready.turn with hlt | ⟨hnil, hzero⟩
    · left
      rw [hlength]
      exact hlt
    · right
      exact ⟨List.eq_nil_of_length_eq_zero (by rw [hlength, hnil]; rfl), hzero⟩
  · intro c' hc'
    rcases List.getElem?_of_mem hc' with ⟨j, hj⟩
    rcases hget j c' hj with ⟨c, hc, hid, _⟩
    rw [hid]
    exact h.ready.named c (List.mem_of_getElem? hc)
  intro j c' q hj hpass hhandles
  rcases hget j c' hj with ⟨c, hc, hid, hsame⟩
  have hbefore : d.handles q c = true :=
    (d.handles_congr q hid).symm.trans hhandles
  by_cases hji : j = i
  · -- a consumer that was asked in vain is not freed if it handles this
    rw [hji] at hc hpass
    have hno := hquiet c q hc (hpassed i q hpass)
    rw [hbefore] at hno
    cases hno
  · rw [hsame hji]
    exact h.busy j c q hc (hpassed j q hpass) hbefore

omit h in
theorem queue_idle (h : d.call = .idle) : d.queue = d.level := by
  funext q
  unfold queue
  rw [h]

theorem Ordered.dispatch (hidle : d.call = .idle) (offset : Nat)
    (env : Envelope) : (d.dispatch offset env).Ordered := by
  have hinOrder := h.inOrder
  rw [queue_idle hidle] at hinOrder
  unfold Desk.dispatch
  split
  · exact h
  refine ⟨⟨h.ready.length, h.ready.turn, h.ready.named⟩,
    ⟨hinOrder.sorted, ?_, ?_⟩, ?_, ?_⟩
  · intro q w hw
    exact Nat.lt_succ_of_lt (hinOrder.past q w hw)
  · intro m hm
    cases hm
    exact ⟨Nat.lt_succ_self _, hinOrder.past⟩
  · intro m p checked todo remaining after hcall
    cases hcall
  · intro i c q _ hpassed
    cases hpassed

theorem Ordered.addConsumer (hidle : d.call = .idle) (hname : c.id ≠ []) :
    (d.addConsumer c).Ordered := by
  have hinOrder := h.inOrder
  rw [queue_idle hidle] at hinOrder
  unfold Desk.addConsumer Desk.flushQueued
  have hready : forall limits, ({ d with
      consumers := d.consumers ++ [c], consumerMaxP := limits } : Desk).Ready := by
    intro limits
    refine ⟨h.ready.length, ?_, ?_⟩
    · left
      rw [List.length_append]
      rcases h.ready.turn with hlt | ⟨_, hzero⟩
      · exact Nat.lt_of_lt_of_le hlt (Nat.le_add_right _ _)
      · show d.nextIdx < _
        rw [hzero]
        exact Nat.succ_pos _
    · intro x hx
      rcases List.mem_append.mp hx with hold | hnew
      · exact h.ready.named x hold
      · rw [List.mem_singleton.mp hnew]
        exact hname
  apply FlushedFrom.flushBelow
  refine ⟨hready _, ?_, Nat.le_refl _, ?_⟩
  · apply hinOrder.of_sublist
    · exact fun q => List.Sublist.refl _
    · intro m hm
      cases hm
  · intro q hq hsome
    exact absurd (level_eq_nil (hready _) hq) hsome

theorem Ordered.of_idle {d' : Desk} (hidle : d.call = .idle)
    (hcall : d'.call = .idle) (hlevels : d'.levels = d.levels)
    (harrivals : d'.arrivals = d.arrivals)
    (hturn : InTurn d'.consumers d'.nextIdx)
    (hsub : d'.consumers ⊆ d.consumers) :
    d'.Ordered where
  ready := by
    refine ⟨?_, hturn, fun c hc => h.ready.named c (hsub hc)⟩
    rw [hlevels]
    exact h.ready.length
  inOrder := by
    have hlevel : d'.level = d.level := by
      funext q
      unfold level
      rw [hlevels]
    rw [queue_idle hcall, hlevel, ← queue_idle hidle, harrivals]
    apply h.inOrder.of_sublist
    · exact fun q => List.Sublist.refl _
    intro m hm
    unfold arriving at hm
    rw [hcall] at hm
    cases hm
  flushing := by
    intro m p checked todo remaining after hoffer
    rw [hcall] at hoffer
    cases hoffer
  busy := by
    intro i c q _ hpassed
    unfold PassedOver at hpassed
    rw [hcall] at hpassed
    cases hpassed

theorem Ordered.step {d' : Desk} {a : Action} (hquiet : d.Undisturbed a)
    (hstep : d.step a = some d') : d'.Ordered := by
  have hidle : forall {x : Desk}, (if d.call = .idle then some x else none) =
      some d' -> d.call = .idle ∧ x = d' := by
    intro x hx
    by_cases hcall : d.call = .idle
    · rw [if_pos hcall] at hx
      exact ⟨hcall, Option.some.inj hx⟩
    · rw [if_neg hcall] at hx
      cases hx
  cases a with
  | free i offset =>
    cases hstep
    exact h.free hquiet
  | advance =>
    unfold Desk.step at hstep
    by_cases hcall : d.call = .idle
    · rw [if_pos hcall] at hstep
      cases hstep
    · rw [if_neg hcall] at hstep
      rw [← Option.some.inj hstep]
      exact h.advance
  | dispatch offset env =>
    rcases hidle hstep with ⟨hcall, hnext⟩
    rw [← hnext]
    exact h.dispatch hcall offset env
  | addConsumer c =>
    rcases hidle hstep with ⟨hcall, hnext⟩
    rw [← hnext]
    exact h.addConsumer hcall hquiet
  | removeConsumer id =>
    rcases hidle hstep with ⟨hcall, hnext⟩
    rw [← hnext]
    exact h.of_idle hcall hcall rfl rfl (h.ready.turn.removeFirst id)
      (sublist_removeFirst id d.consumers d.nextIdx).subset
  | setConsumerMaxPriority id maxP =>
  rcases hidle hstep with ⟨hcall, hnext⟩
  rw [← hnext]
  exact h.of_idle hcall hcall rfl rfl h.ready.turn (List.Subset.refl _)

omit h

theorem ordered_newDesk : newDesk.Ordered := by
  have hlevel : forall q, newDesk.level q = [] := by
    intro q
    unfold level newDesk
    simp only [List.getElem?_replicate]
    split
    · rfl
    · rfl
  have hqueue : forall q, newDesk.queue q = [] := hlevel
  refine ⟨⟨List.length_replicate, Or.inr ⟨rfl, rfl⟩, ?_⟩, ⟨?_, ?_, ?_⟩,
    ?_, ?_⟩
  · intro c hc
    cases hc
  · intro q
    rw [hqueue]
    exact List.Pairwise.nil
  · intro q w hw
    rw [hqueue] at hw
    cases hw
  · intro m hm
    cases hm
  · intro m p checked todo remaining after hcall
    cases hcall
  · intro i c q _ hpassed
    cases hpassed

theorem respects_iff {actions : List Action} {d : Desk}
    (hmeets : Meets step Undisturbed newDesk actions)
    (hrun : run? step newDesk actions = some d) {m : Arrived} {p : Nat}
    {stage : Stage} {c : QueueConsumer} (h : d.Assigns m p stage c) :
    d.Respects m p c <->
      (stage = .direct -> forall q w, w ∈ d.level q ->
        d.handles q c = true -> q < p) := by
  have hordered : d.Ordered := run?_invariant_of_meets
    (fun _ _ _ hinv hquiet hone => hinv.step hquiet hone) ordered_newDesk
    hmeets hrun
  rcases h.offered with ⟨checked, hcall, hmore⟩
  have hfull : forall q, d.PassedOver d.nextIdx q -> d.handles q c = false := by
    intro q hpassed
    apply Bool.eq_false_iff.mpr
    intro hhandles
    have hroom := hordered.busy d.nextIdx c q h.turn hpassed hhandles
    rw [h.room] at hroom
    cases hroom
  unfold Respects queue
  unfold PassedOver at hfull
  rw [hcall] at hfull ⊢
  cases stage with
  | direct =>
    have hfresh := hordered.inOrder.fresh m (by
      unfold arriving
      rw [hcall])
    have hbefore : forall q w, w ∈ d.level q -> w.arrival < m.arrival := by
      intro q w hw
      apply hfresh.right q w
      unfold queue
      rw [hcall]
      exact hw
    constructor
    · intro hall _ q w hw hhandles
      rcases hall q w hw hhandles with ⟨hle, hfirst⟩
      have hlt := hbefore q w hw
      apply Nat.lt_of_le_of_ne hle
      intro heq
      have hge := hfirst heq
      omega
    · intro hbelow q w hw hhandles
      have hlt := hbelow rfl q w hw hhandles
      exact ⟨Nat.le_of_lt hlt, fun heq => absurd heq (Nat.ne_of_lt hlt)⟩
  | flush todo remaining after =>
    apply iff_of_true
    · intro q w hw hhandles
      by_cases hq : q = p
      · rw [hq] at hw hhandles
        simp only [if_true] at hw
        have hnone : remaining = [] := by
          by_contra hsome
          have hno := hfull p (Or.inr ⟨rfl, Or.inl hsome⟩)
          rw [hhandles] at hno
          cases hno
        have hsorted := hordered.inOrder.sorted p
        unfold queue at hsorted
        rw [hcall] at hsorted
        simp only [if_true, hnone, List.nil_append] at hsorted
        rw [hnone, List.nil_append] at hw
        refine ⟨Nat.le_of_eq hq, fun _ => ?_⟩
        rcases List.mem_cons.mp hw with hfirst | hlater
        · rw [hfirst]
        · exact Nat.le_of_lt ((List.pairwise_cons.mp hsorted).left w hlater)
      · simp only [if_neg hq] at hw
        have hle : q ≤ p := by
          by_contra habove
          have hno := hfull q (Or.inl ⟨by omega, List.ne_nil_of_mem hw⟩)
          rw [hhandles] at hno
          cases hno
        exact ⟨hle, fun heq => absurd heq hq⟩
    · intro hdirect
      cases hdirect
  | retry =>
  apply iff_of_true
  · intro q w hw hhandles
    have hno := hfull q (List.ne_nil_of_mem hw)
    rw [hhandles] at hno
    cases hno
  · intro hdirect
    cases hdirect

def prioritized (priority : UInt8) : Envelope :=
  { Envelope.zero with priority := priority }

def single : QueueConsumer where
  id := ascii "ws-1"
  prefetch := 1
  inFlight := []

def second : QueueConsumer where
  id := ascii "ws-2"
  prefetch := 1
  inFlight := []

/-- Two messages wait when a second consumer comes. -/
def joining : List Action :=
  [.addConsumer single, .dispatch 0 (prioritized 5), .advance,
    .dispatch 1 (prioritized 2), .advance, .advance, .advance, .advance,
    .dispatch 2 (prioritized 9), .advance, .advance, .advance, .advance,
    .advance, .advance, .addConsumer second, .advance]

def joined : Desk where
  levels := [[], [], [{ offset := 1, arrival := 1 }], [], [], [], [], [], [],
    [{ offset := 2, arrival := 2 }]]
  consumers := [single.take 0, second]
  consumerMaxP := [(ascii "ws-1", 9), (ascii "ws-2", 9)]
  nextIdx := 1
  arrivals := 3
  call := .offer { offset := 2, arrival := 2 } 9 1 (.flush [] [] none)

theorem respects_joined :
    run? step newDesk joining = some joined ∧
      joined.Assigns { offset := 2, arrival := 2 } 9 (.flush [] [] none)
        second ∧
      joined.Respects { offset := 2, arrival := 2 } 9 second := by
  have hmeets : Meets step Undisturbed newDesk joining := by
    refine ⟨List.cons_ne_nil _ _, fun _ _ => ?_⟩
    iterate 14 refine ⟨trivial, fun _ _ => ?_⟩
    exact ⟨List.cons_ne_nil _ _, fun _ _ => ⟨trivial, fun _ _ => trivial⟩⟩
  have hrun : run? step newDesk joining = some joined := by
    decide +kernel
  have hassigns : joined.Assigns { offset := 2, arrival := 2 } 9
      (.flush [] [] none) second :=
    ⟨⟨1, rfl, by decide⟩, rfl, by decide +kernel, by decide +kernel⟩
  exact ⟨hrun, hassigns,
    (respects_iff hmeets hrun hassigns).mpr (fun h => nomatch h)⟩

def overtaking : List Action :=
  [.addConsumer single, .dispatch 0 (prioritized 5), .advance,
    .dispatch 1 (prioritized 9), .advance, .advance, .advance, .advance,
    .free 0 0, .dispatch 2 (prioritized 0)]

def overtaken : Desk where
  levels := (List.replicate 9 []) ++ [[{ offset := 1, arrival := 1 }]]
  consumers := [single]
  consumerMaxP := [(ascii "ws-1", 9)]
  nextIdx := 0
  arrivals := 3
  call := .offer { offset := 2, arrival := 2 } 0 0 .direct

/-- The message of the lowest priority is handed out before the urgent one. -/
theorem not_respects_overtaking :
    run? step newDesk overtaking = some overtaken ∧
      overtaken.Assigns { offset := 2, arrival := 2 } 0 .direct single ∧
      ¬ overtaken.Respects { offset := 2, arrival := 2 } 0 single := by
  refine ⟨by decide +kernel, ⟨⟨0, rfl, by decide⟩, rfl, by decide +kernel,
    by decide⟩, ?_⟩
  intro h
  have hle := (h 9 { offset := 1, arrival := 1 } (by decide +kernel)
    (by decide +kernel)).left
  revert hle
  decide

end Desk

end Queue
end ChimeraMQ
