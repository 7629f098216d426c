import ChimeraMQ.Geo.Replica
import Mathlib.Data.List.Count

/-!
# What a retry stores again

The remote broker stores an event again if the batch is sent again after a
request that has stored it, or will.  Otherwise it stores no event more often
than the event was queued.
-/

namespace ChimeraMQ
namespace Geo

open Foundation

namespace Replica

variable {ε : Type}

/--
A retry repeats nothing: no event of a batch that is sent again was stored, and
its old request stores nothing any more.
-/
def Unrepeated (r : Replica ε) : ReplicaAction ε -> Prop
  | .lose => forall k request, r.phase = .sending k request ->
      (k : Int) < r.maxRetries -> .stored ∉ request.verdicts
  | .publishLate i .stored => forall request, r.abandoned[i]? = some request ->
      request.retried = false
  | .publishLate _ .skipped | .publishLate _ .rejected | .queue _ | .receive
  | .tick | .takeStop | .stop | .publish _ | .deliver | .refuse | .timer
  | .giveUp => True

/-- The events that the current request or the next one may store. -/
def pending (r : Replica ε) : List ε :=
  match r.phase with
  | .idle | .backoff _ => r.batch
  | .sending _ request => request.events
  | .ended => []

/-- The events that requests without a retry may still store. -/
def late (abandoned : List (Abandoned ε)) : List ε :=
  abandoned.flatMap (fun a => if a.retried then [] else a.request.events)

variable [DecidableEq ε]

/--
No event is stored, or may still be, more often than it was queued.  This goes
for the whole batch as long as its request has stored nothing.
-/
structure Bounded (r : Replica ε) : Prop where
  pending : forall e, r.stored.count e + r.buffer.count e +
    r.pending.count e + (late r.abandoned).count e ≤ r.queued.count e
  batch : forall k request, r.phase = .sending k request ->
    .stored ∉ request.verdicts -> forall e, r.stored.count e +
      r.buffer.count e + r.batch.count e + (late r.abandoned).count e ≤
        r.queued.count e

theorem bounded_createReplica (batchSize maxRetries : Int) :
    (createReplica batchSize maxRetries : Replica ε).Bounded := by
  by_cases hnegative : batchSize < 0
  · have hphase : (createReplica batchSize maxRetries : Replica ε).phase =
        .ended := if_pos hnegative
    constructor
    · intro e
      unfold Replica.pending
      rw [hphase]
      exact Nat.le_refl _
    · intro k request hsending
      rw [hphase] at hsending
      cases hsending
  have hphase : (createReplica batchSize maxRetries : Replica ε).phase =
      .idle := if_neg hnegative
  constructor
  · intro e
    unfold Replica.pending
    rw [hphase]
    exact Nat.le_refl _
  · intro k request hsending
    rw [hphase] at hsending
    cases hsending

def BatchFits (r : Replica ε) : Prop :=
  forall e, r.stored.count e + r.buffer.count e + r.batch.count e +
    (late r.abandoned).count e ≤ r.queued.count e

def RestFits (r : Replica ε) : Prop :=
  forall e, r.stored.count e + r.buffer.count e +
    (late r.abandoned).count e ≤ r.queued.count e

variable {r : Replica ε}

theorem BatchFits.rest (h : r.BatchFits) : r.RestFits := by
  intro e
  have hle := h e
  omega

theorem Bounded.rest (h : r.Bounded) : r.RestFits := by
  intro e
  have hle := h.pending e
  omega

theorem RestFits.next (h : r.RestFits) : r.next.Bounded := by
  unfold Replica.next
  split
  · constructor
    · exact h
    · intro k request hphase
      cases hphase
  constructor
  · exact h
  · intro k request hphase
    cases hphase

theorem RestFits.fail (h : r.RestFits) : r.fail.Bounded := by
  have hnext := h.next
  exact ⟨hnext.pending, hnext.batch⟩

theorem BatchFits.attempt (h : r.BatchFits) (k : Nat) :
    (r.attempt k).Bounded := by
  unfold Replica.attempt
  split
  · constructor
    · exact h
    · intro k' request hphase _
      cases hphase
      exact h
  · exact h.rest.fail

theorem BatchFits.retry (h : r.BatchFits) (k : Nat) :
    (r.retry k).Bounded := by
  unfold Replica.retry
  split
  · constructor
    · exact h
    · intro k' request hphase
      cases hphase
  · exact h.rest.fail

omit [DecidableEq ε] in
theorem successful_httpStatus (verdicts : List Verdict) :
    Successful (httpStatus verdicts) := by
  unfold httpStatus
  split
  · exact Or.inr rfl
  · exact Or.inl rfl

theorem count_stored_record (r : Replica ε) (e x : ε) (v : Verdict) :
    (r.record e v).stored.count x =
      r.stored.count x + (if v = .stored then [e] else []).count x := by
  unfold record
  simp only
  split
  · exact List.count_append
  · rfl

omit [DecidableEq ε] in
theorem late_append (front back : List (Abandoned ε)) :
    late (front ++ back) = late front ++ late back :=
  List.flatMap_append

theorem exists_split_set {α : Type} {l : List α} {i : Nat} {x : α}
    (hget : l[i]? = some x) :
    exists front back, l = front ++ x :: back ∧
      forall y, l.set i y = front ++ y :: back := by
  rcases List.getElem?_eq_some_iff.mp hget with ⟨hlt, hx⟩
  exists l.take i, l.drop (i + 1)
  constructor
  · rw [← hx, ← List.drop_eq_getElem_cons hlt, List.take_append_drop]
  · intro y
    rw [List.set_eq_take_append_cons_drop, if_pos hlt]

variable (h : r.Bounded)

include h

theorem Bounded.idle (hphase : r.phase = .idle) :
    r.BatchFits := by
  intro e
  have hle := h.pending e
  unfold Replica.pending at hle
  rw [hphase] at hle
  exact hle

theorem Bounded.backoff {k : Nat} (hphase : r.phase = .backoff k) : r.BatchFits
    := by
  intro e
  have hle := h.pending e
  unfold Replica.pending at hle
  rw [hphase] at hle
  exact hle

theorem Bounded.queue (e : ε) :
    Bounded { r with
      buffer := r.buffer ++ [e], queued := r.queued ++ [e] } := by
  constructor
  · intro x
    have hle := h.pending x
    change r.stored.count x + (r.buffer ++ [e]).count x + r.pending.count x +
      (late r.abandoned).count x ≤ (r.queued ++ [e]).count x
    rw [List.count_append, List.count_append]
    omega
  intro k request hphase hnone x
  have hle := h.batch k request hphase hnone x
  change r.stored.count x + (r.buffer ++ [e]).count x + r.batch.count x +
    (late r.abandoned).count x ≤ (r.queued ++ [e]).count x
  rw [List.count_append, List.count_append]
  omega

theorem Bounded.receive (hphase : r.phase = .idle) {e : ε} {rest : List ε}
    (hbuffer : r.buffer = e :: rest) :
    BatchFits { r with buffer := rest, batch := r.batch ++ [e] } := by
  intro x
  have hle := h.idle hphase x
  rw [hbuffer, List.count_cons] at hle
  change r.stored.count x + rest.count x + (r.batch ++ [e]).count x +
    (late r.abandoned).count x ≤ r.queued.count x
  rw [List.count_append, List.count_singleton]
  omega

theorem Bounded.publish {k : Nat} {e : ε} {rest : List ε}
    {verdicts : List Verdict}
    (hphase : r.phase = .sending k ⟨e :: rest, verdicts⟩) (v : Verdict) :
    Bounded { r.record e v with
      phase := .sending k ⟨rest, verdicts ++ [v]⟩ } := by
  constructor
  · intro x
    have hle := h.pending x
    unfold Replica.pending at hle
    rw [hphase] at hle
    simp only [List.count_cons] at hle
    change (r.record e v).stored.count x + r.buffer.count x + rest.count x +
      (late r.abandoned).count x ≤ r.queued.count x
    rw [count_stored_record]
    split
    · rw [List.count_singleton]
      omega
    · rw [List.count_nil]
      omega
  intro k' request hsending hnone x
  cases hsending
  have hle := h.batch k _ hphase
    (fun hmem => hnone (List.mem_append_left [v] hmem)) x
  have hv : v ≠ .stored := by
    intro hv
    rw [hv] at hnone
    exact hnone (List.mem_append_right verdicts (List.mem_singleton_self _))
  change (r.record e v).stored.count x + r.buffer.count x +
    r.batch.count x + (late r.abandoned).count x ≤ r.queued.count x
  rw [count_stored_record, if_neg hv, List.count_nil]
  exact hle

theorem Bounded.lose {k : Nat} {request : Request ε}
    (hphase : r.phase = .sending k request)
    (hunrepeated : (k : Int) < r.maxRetries -> .stored ∉ request.verdicts) :
    ((r.abandon request (decide ((k : Int) < r.maxRetries))).retry k).Bounded := by
  by_cases hretry : (k : Int) < r.maxRetries
  · -- the batch is sent again, and its request has stored nothing
    apply BatchFits.retry
    intro x
    have hle := h.batch k request hphase (hunrepeated hretry) x
    change r.stored.count x + r.buffer.count x + r.batch.count x +
      (late (r.abandoned ++ [⟨request, decide ((k : Int) < r.maxRetries)⟩])).count
        x ≤ r.queued.count x
    rw [late_append, decide_eq_true hretry]
    simp only [late, List.flatMap_cons, List.flatMap_nil, if_true,
      List.append_nil]
    exact hle
  -- the batch is given up, and its request may still be handled
  have hfails : (r.abandon request (decide ((k : Int) < r.maxRetries))).retry
      k = (r.abandon request (decide ((k : Int) < r.maxRetries))).fail :=
    if_neg hretry
  rw [hfails]
  apply RestFits.fail
  intro x
  have hle := h.pending x
  unfold Replica.pending at hle
  rw [hphase] at hle
  change r.stored.count x + r.buffer.count x +
    (late (r.abandoned ++ [⟨request, decide ((k : Int) < r.maxRetries)⟩])).count
      x ≤ r.queued.count x
  rw [late_append, decide_eq_false hretry, List.count_append]
  simp only [late, List.flatMap_cons, List.flatMap_nil, Bool.false_eq_true,
    if_false, List.append_nil] at hle ⊢
  omega

theorem Bounded.publishLate {i : Nat} {e : ε} {rest : List ε}
    {verdicts : List Verdict} {retried : Bool}
    (hget : r.abandoned[i]? = some ⟨⟨e :: rest, verdicts⟩, retried⟩)
    {v : Verdict} (hunrepeated : v = .stored -> retried = false) :
    Bounded { r.record e v with
      abandoned := r.abandoned.set i
        ⟨⟨rest, verdicts ++ [v]⟩, retried⟩ } := by
  rcases exists_split_set hget with ⟨front, back, hsplit, hset⟩
  have hlate : forall x, (r.record e v).stored.count x +
      (late (r.abandoned.set i ⟨⟨rest, verdicts ++ [v]⟩, retried⟩)).count x ≤
        r.stored.count x + (late r.abandoned).count x := by
    intro x
    rw [count_stored_record, hset, hsplit]
    simp only [late, List.flatMap_append, List.flatMap_cons, List.count_append]
    by_cases hv : v = .stored
    · rw [if_pos hv, hunrepeated hv, List.count_singleton]
      simp only [Bool.false_eq_true, if_false, List.count_cons]
      omega
    rw [if_neg hv, List.count_nil]
    cases retried with
    | false =>
      simp only [Bool.false_eq_true, if_false, List.count_cons]
      omega
    | true =>
    simp only [if_true]
    omega
  constructor
  · intro x
    have hle := h.pending x
    have hmore := hlate x
    change (r.record e v).stored.count x + r.buffer.count x +
      r.pending.count x +
      (late (r.abandoned.set i ⟨⟨rest, verdicts ++ [v]⟩, retried⟩)).count x ≤
        r.queued.count x
    omega
  intro k request hphase hnone x
  have hle := h.batch k request hphase hnone x
  have hmore := hlate x
  change (r.record e v).stored.count x + r.buffer.count x +
    r.batch.count x +
    (late (r.abandoned.set i ⟨⟨rest, verdicts ++ [v]⟩, retried⟩)).count x ≤
      r.queued.count x
  omega

theorem Bounded.step {r' : Replica ε} {a : ReplicaAction ε}
    (hunrepeated : r.Unrepeated a) (hstep : r.step a = some r') :
    r'.Bounded := by
  cases Replica.steps_of_step hstep with
  | queue hroom => exact h.queue _
  | receive hphase hbuffer hr' =>
    have hfits := h.receive hphase hbuffer
    rcases hr' with hr' | hr'
    · subst hr'
      exact hfits.attempt 0
    subst hr'
    constructor
    · intro x
      have hle := hfits x
      unfold Replica.pending
      simp only [hphase]
      exact hle
    · intro k request hsending
      rw [show r.phase = .sending k request from hsending] at hphase
      cases hphase
  | tick hphase => exact (h.idle hphase).attempt 0
  | leave hphase hbatch =>
    constructor
    · exact h.rest
    · intro k request hsending
      cases hsending
  | flush hphase =>
    exact BatchFits.attempt
      (show BatchFits { r with flushing := true } from h.idle hphase) 0
  | stop => exact ⟨h.pending, h.batch⟩
  | publish e hphase v => exact h.publish hphase v
  | succeed hphase hok =>
    have hnext := h.rest.next
    exact ⟨hnext.pending, hnext.batch⟩
  | reject hphase hnot => exact absurd (successful_httpStatus _) hnot
  | refuse hphase =>
    apply BatchFits.retry
    exact h.batch _ _ hphase List.not_mem_nil
  | lose hphase => exact h.lose hphase (hunrepeated _ _ hphase)
  | timer hphase => exact (h.backoff hphase).attempt _
  | giveUp hphase => exact h.rest.next
  | publishLate e hget v =>
  apply h.publishLate hget
  intro hv
  rw [hv] at hunrepeated
  exact hunrepeated _ hget

end Replica

end Geo
end ChimeraMQ
