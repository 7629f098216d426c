import ChimeraMQ.Geo.Replica
import Mathlib.Data.List.Count

/-!
# What becomes of the events of a replica

Every event that is queued to a replica is to be counted once, as sent if the
remote broker has published it and as failed otherwise.  The events of a batch
are counted together by the status of the answer, which is a success also if
some of them were rejected, and the loop leaves without counting when it is
stopped.
-/

namespace ChimeraMQ
namespace Geo

open Foundation

namespace Replica

variable {ε : Type} [DecidableEq ε]

def sentEvents (r : Replica ε) : List ε :=
  r.endings.filterMap (fun x =>
    match x.2 with
    | .sent _ => some x.1
    | .failed => none)

def failedEvents (r : Replica ε) : List ε :=
  r.endings.filterMap (fun x =>
    match x.2 with
    | .sent _ => none
    | .failed => some x.1)

structure Counted (r : Replica ε) : Prop where
  once : forall e, r.sentEvents.count e + r.failedEvents.count e +
    (r.batch.count e + r.buffer.count e) = r.queued.count e
  published : forall e, r.sentEvents.count e ≤ r.accepted.count e
  truthful : forall x, x ∈ r.endings -> x.2 ≠ .sent .rejected
  eventsSent : r.eventsSent = r.sentEvents.length
  eventsFailed : r.eventsFailed = r.failedEvents.length

/--
Each event is counted in one way, as sent only if the remote broker has
published it, and none is left when the loop ends.
-/
structure Accounted (r : Replica ε) : Prop where
  counted : r.Counted
  drained : r.phase = .ended -> r.batch = [] ∧ r.buffer = []

/--
A step loses no event: none is queued when the loop stops or after, and an
answer arrives only if no event was rejected.
-/
def Harmless (r : Replica ε) : ReplicaAction ε -> Prop
  | .queue _ => r.flushing = false ∧ r.phase ≠ .ended
  | .takeStop => r.buffer = []
  | .deliver => forall k verdicts, r.phase = .sending k ⟨[], verdicts⟩ ->
      forall v, v ∈ verdicts -> v.Accepted
  | .giveUp => False
  | .receive | .tick | .stop | .publish _ | .refuse | .lose | .timer
  | .publishLate _ _ => True

/-!
## The invariant
-/

def acceptedOf (events : List ε) (verdicts : List Verdict) : List ε :=
  ((events.zip verdicts).filter (fun x => decide x.2.Accepted)).map Prod.fst

/--
The events that a request has already published are the front of the batch, and
those that were accepted of them have not been counted yet.
-/
def Underway (r : Replica ε) : Prop :=
  forall k request, r.phase = .sending k request -> exists front,
    r.batch = front ++ request.events ∧
      front.length = request.verdicts.length ∧
      forall e, r.sentEvents.count e +
        (acceptedOf front request.verdicts).count e ≤ r.accepted.count e

structure Sound (r : Replica ε) : Prop where
  counted : r.Counted
  underway : r.Underway
  closing : r.flushing = true ∨ r.phase = .ended -> r.buffer = []
  drained : r.phase = .ended -> r.batch = []

variable {verdicts : List Verdict}

omit [DecidableEq ε] in
theorem acceptedOf_concat {front : List ε}
    (hlength : front.length = verdicts.length) (e : ε) (v : Verdict) :
    acceptedOf (front ++ [e]) (verdicts ++ [v]) =
      acceptedOf front verdicts ++ if v.Accepted then [e] else [] := by
  unfold acceptedOf
  rw [List.zip_append hlength, List.filter_append, List.map_append]
  cases v with
  | stored => rfl
  | skipped => rfl
  | rejected => rfl

omit [DecidableEq ε] in
theorem acceptedOf_all {events : List ε}
    (hlength : events.length = verdicts.length)
    (hall : forall v, v ∈ verdicts -> v.Accepted) :
    acceptedOf events verdicts = events := by
  unfold acceptedOf
  rw [List.filter_eq_self.mpr, List.map_fst_zip (Nat.le_of_eq hlength)]
  intro x hx
  exact decide_eq_true (hall x.2 (List.of_mem_zip hx).right)

theorem sound_createReplica (batchSize maxRetries : Int) :
    (createReplica batchSize maxRetries : Replica ε).Sound := by
  constructor
  · constructor
    · exact fun e => rfl
    · exact fun e => Nat.le_refl _
    · intro x hx
      cases hx
    · rfl
    · rfl
  · intro k request hphase
    unfold createReplica at hphase
    simp only at hphase
    split at hphase
    · cases hphase
    · cases hphase
  · exact fun _ => rfl
  · exact fun _ => rfl

variable {r : Replica ε}

theorem Counted.frame (h : r.Counted) {phase : Phase ε}
    {flushing stopped : Bool} {abandoned : List (Abandoned ε)} :
    Counted { r with
      phase := phase, flushing := flushing, stopped := stopped,
      abandoned := abandoned } :=
  ⟨h.once, h.published, h.truthful, h.eventsSent, h.eventsFailed⟩

theorem Sound.fail (hcounted : r.Counted)
    (hclosing : r.flushing = true ∨ r.phase = .ended -> r.buffer = []) :
    r.fail.Sound := by
  have hsent : r.fail.sentEvents = r.sentEvents := by
    simp [sentEvents, Replica.fail, List.filterMap_map]
  have hfailed : r.fail.failedEvents = r.failedEvents ++ r.batch := by
    simp [failedEvents, Replica.fail, List.filterMap_map]
  constructor
  · constructor
    · intro e
      rw [hsent, hfailed, List.count_append]
      have honce := hcounted.once e
      simp only [Replica.fail, next, List.count_nil]
      omega
    · intro e
      rw [hsent]
      exact hcounted.published e
    · intro x hx
      rcases List.mem_append.mp hx with hold | hnew
      · exact hcounted.truthful x hold
      · rcases List.mem_map.mp hnew with ⟨e, _, rfl⟩
        intro h
        cases h
    · rw [hsent]
      exact hcounted.eventsSent
    · rw [hfailed, List.length_append, ← hcounted.eventsFailed]
      rfl
  · intro k request hphase
    simp only [Replica.fail, next] at hphase
    split at hphase
    · cases hphase
    · cases hphase
  · intro hover
    apply hclosing
    rcases hover with hflush | hended
    · exact Or.inl hflush
    simp only [Replica.fail, next] at hended
    split at hended
    · rename_i hflush
      exact Or.inl hflush
    · cases hended
  · exact fun _ => rfl

theorem Sound.attempt (hcounted : r.Counted)
    (hclosing : r.flushing = true ∨ r.phase = .ended -> r.buffer = []) (k : Nat) :
    (r.attempt k).Sound := by
  unfold Replica.attempt
  split
  · constructor
    · exact hcounted.frame
    · intro k' request hphase
      cases hphase
      exists []
      constructor
      · rfl
      · constructor
        · rfl
        · exact fun e => hcounted.published e
    · rintro (hflush | hended)
      · exact hclosing (Or.inl hflush)
      · cases hended
    · intro hended
      cases hended
  · exact Sound.fail hcounted hclosing

theorem Sound.retry (hcounted : r.Counted)
    (hclosing : r.flushing = true ∨ r.phase = .ended -> r.buffer = []) (k : Nat) :
    (r.retry k).Sound := by
  unfold Replica.retry
  split
  · constructor
    · exact hcounted.frame
    · intro k' request hphase
      cases hphase
    · rintro (hflush | hended)
      · exact hclosing (Or.inl hflush)
      · cases hended
    · intro hended
      cases hended
  · exact Sound.fail hcounted hclosing

theorem Sound.succeed (h : r.Sound) {k : Nat}
    (hphase : r.phase = .sending k ⟨[], verdicts⟩)
    (hall : forall v, v ∈ verdicts -> v.Accepted) :
    (r.succeed verdicts).Sound := by
  rcases h.underway k _ hphase with ⟨front, hbatch, hlength, haccepted⟩
  rw [List.append_nil] at hbatch
  rw [← hbatch] at hlength haccepted
  simp only at hlength haccepted
  rw [acceptedOf_all hlength hall] at haccepted
  have hzip : (r.batch.zip verdicts).map Prod.fst = r.batch :=
    List.map_fst_zip (Nat.le_of_eq hlength)
  have hsent : (r.succeed verdicts).sentEvents = r.sentEvents ++ r.batch := by
    simp only [sentEvents, Replica.succeed, List.filterMap_append,
      List.filterMap_map, Function.comp_def]
    rw [show (fun x : ε × Verdict => some x.1) = some ∘ Prod.fst from rfl,
      List.filterMap_eq_map, hzip]
  have hfailed : (r.succeed verdicts).failedEvents = r.failedEvents := by
    simp [failedEvents, Replica.succeed, List.filterMap_map]
  constructor
  · constructor
    · intro e
      rw [hsent, hfailed, List.count_append]
      have honce := h.counted.once e
      simp only [Replica.succeed, next, List.count_nil]
      omega
    · intro e
      rw [hsent, List.count_append]
      exact haccepted e
    · intro x hx
      rcases List.mem_append.mp hx with hold | hnew
      · exact h.counted.truthful x hold
      rcases List.mem_map.mp hnew with ⟨y, hy, rfl⟩
      have hyes := hall y.2 (List.of_mem_zip hy).right
      intro hrejected
      rw [Ending.sent.inj hrejected] at hyes
      exact hyes
    · rw [hsent, List.length_append, ← h.counted.eventsSent]
      rfl
    · rw [hfailed]
      exact h.counted.eventsFailed
  · intro k' request hphase'
    simp only [Replica.succeed, next] at hphase'
    split at hphase'
    · cases hphase'
    · cases hphase'
  · intro hover
    apply h.closing
    rcases hover with hflush | hended
    · exact Or.inl hflush
    simp only [Replica.succeed, next] at hended
    split at hended
    · rename_i hflush
      exact Or.inl hflush
    · cases hended
  · exact fun _ => rfl

theorem count_record (r : Replica ε) (e x : ε) (v : Verdict) :
    (r.record e v).accepted.count x = r.accepted.count x +
      (if v.Accepted then [e] else []).count x := by
  unfold record
  simp only
  split
  · exact List.count_append
  · rfl

theorem Counted.record (h : r.Counted) (e : ε) (v : Verdict) :
    (r.record e v).Counted where
  once := h.once
  published := by
    intro x
    rw [count_record]
    exact Nat.le_trans (h.published x) (Nat.le_add_right _ _)
  truthful := h.truthful
  eventsSent := h.eventsSent
  eventsFailed := h.eventsFailed

theorem Sound.publish (h : r.Sound) {k : Nat} {e : ε} {rest : List ε}
    (hphase : r.phase = .sending k ⟨e :: rest, verdicts⟩) (v : Verdict) :
    Sound { r.record e v with
      phase := .sending k ⟨rest, verdicts ++ [v]⟩ } := by
  rcases h.underway k _ hphase with ⟨front, hbatch, hlength, haccepted⟩
  constructor
  · exact (h.counted.record e v).frame
  · intro k' request hphase'
    cases hphase'
    exists front ++ [e]
    constructor
    · rw [List.append_assoc]
      exact hbatch
    constructor
    · rw [List.length_append, List.length_append, hlength]
      rfl
    intro x
    have hx := haccepted x
    rw [acceptedOf_concat hlength, List.count_append]
    have hrecord := count_record r e x v
    change r.sentEvents.count x + _ ≤ (r.record e v).accepted.count x
    rw [hrecord, ← Nat.add_assoc]
    exact Nat.add_le_add_right hx _
  · rintro (hflush | hended)
    · exact h.closing (Or.inl hflush)
    · cases hended
  · intro hended
    cases hended

theorem Sound.publishLate (h : r.Sound) (e : ε) (v : Verdict)
    (abandoned : List (Abandoned ε)) :
    Sound { r.record e v with abandoned := abandoned } := by
  constructor
  · exact (h.counted.record e v).frame
  · intro k request hphase
    rcases h.underway k request hphase with
      ⟨front, hbatch, hlength, haccepted⟩
    exists front
    constructor
    · exact hbatch
    constructor
    · exact hlength
    intro x
    change r.sentEvents.count x + _ ≤ (r.record e v).accepted.count x
    rw [count_record]
    exact Nat.le_trans (haccepted x) (Nat.le_add_right _ _)
  · exact h.closing
  · exact h.drained

theorem Sound.receive (h : r.Sound) {e : ε} {rest : List ε}
    (hbuffer : r.buffer = e :: rest) :
    Counted { r with buffer := rest, batch := r.batch ++ [e] } ∧
      r.flushing = false := by
  constructor
  · constructor
    · intro x
      have honce := h.counted.once x
      rw [hbuffer, List.count_cons] at honce
      change r.sentEvents.count x + r.failedEvents.count x +
        ((r.batch ++ [e]).count x + rest.count x) = r.queued.count x
      rw [List.count_append, List.count_singleton]
      omega
    · exact h.counted.published
    · exact h.counted.truthful
    · exact h.counted.eventsSent
    · exact h.counted.eventsFailed
  · cases hflush : r.flushing with
    | false => rfl
    | true =>
    rw [h.closing (Or.inl hflush)] at hbuffer
    cases hbuffer

theorem Sound.queue (h : r.Sound) (e : ε)
    (hopen : r.flushing = false ∧ r.phase ≠ .ended) :
    Sound { r with buffer := r.buffer ++ [e], queued := r.queued ++ [e] } := by
  constructor
  · constructor
    · intro x
      have honce := h.counted.once x
      change r.sentEvents.count x + r.failedEvents.count x +
        (r.batch.count x + (r.buffer ++ [e]).count x) =
          (r.queued ++ [e]).count x
      rw [List.count_append, List.count_append]
      omega
    · exact h.counted.published
    · exact h.counted.truthful
    · exact h.counted.eventsSent
    · exact h.counted.eventsFailed
  · exact h.underway
  · rintro (hflush | hended)
    · change r.flushing = true at hflush
      rw [hopen.left] at hflush
      cases hflush
    · exact absurd hended hopen.right
  · exact h.drained

theorem Sound.step {r' : Replica ε} {a : ReplicaAction ε} (h : r.Sound)
    (hharmless : r.Harmless a) (hstep : r.step a = some r') : r'.Sound := by
  cases Replica.steps_of_step hstep with
  | queue hroom => exact h.queue _ hharmless
  | receive hphase hbuffer hr' =>
    rcases h.receive hbuffer with ⟨hcounted, hflush⟩
    have hclosing : forall {l : List ε},
        r.flushing = true ∨ r.phase = .ended -> l = [] := by
      intro l
      rw [hflush, hphase]
      rintro (hyes | hended)
      · cases hyes
      · cases hended
    rcases hr' with hr' | hr'
    · subst hr'
      exact Sound.attempt hcounted hclosing 0
    subst hr'
    constructor
    · exact hcounted
    · intro k request hsending
      rw [show r.phase = .sending k request from hsending] at hphase
      cases hphase
    · exact hclosing
    · intro hended
      rw [show r.phase = .ended from hended] at hphase
      cases hphase
  | tick hphase => exact Sound.attempt h.counted h.closing 0
  | leave hphase hbatch =>
    constructor
    · exact h.counted.frame
    · intro k request hsending
      cases hsending
    · exact fun _ => hharmless
    · exact fun _ => hbatch
  | flush hphase =>
    apply Sound.attempt
    · exact h.counted.frame
    · exact fun _ => hharmless
  | stop =>
    constructor
    · exact h.counted.frame
    · exact h.underway
    · exact h.closing
    · exact h.drained
  | publish e hphase v => exact h.publish hphase v
  | succeed hphase hok => exact h.succeed hphase (hharmless _ _ hphase)
  | reject hphase hnot => exact Sound.retry h.counted h.closing _
  | refuse hphase => exact Sound.retry h.counted h.closing _
  | lose hphase =>
    apply Sound.retry
    · exact h.counted.frame
    · exact h.closing
  | timer hphase => exact Sound.attempt h.counted h.closing _
  | giveUp hphase => exact hharmless.elim
  | publishLate e hget v => exact h.publishLate e v _

/--
In a run of harmless steps every event is accounted for, whatever the network
loses and however often batches are sent again.
-/
theorem accounted_of_harmless {batchSize maxRetries : Int}
    {actions : List (ReplicaAction ε)} {r : Replica ε}
    (hmeets : Meets Replica.step Harmless (createReplica batchSize maxRetries)
      actions)
    (hrun : run? Replica.step (createReplica batchSize maxRetries) actions =
      some r) : r.Accounted := by
  have hsound : r.Sound := run?_invariant_of_meets
    (fun _ _ _ h hharmless hstep => h.step hharmless hstep)
    (sound_createReplica batchSize maxRetries) hmeets hrun
  constructor
  · exact hsound.counted
  · intro hended
    exact ⟨hsound.drained hended, hsound.closing (Or.inr hended)⟩

/-- The first answer is lost, and the events are published once more. -/
def lostAnswer : List (ReplicaAction Nat) :=
  [.queue 1, .queue 2, .receive, .receive, .publish .stored, .publish .stored,
    .lose, .timer, .publish .stored, .publish .stored, .deliver]

theorem accounted_lostAnswer :
    exists r, run? Replica.step (createReplica 2 10) lostAnswer = some r ∧
      r.Accounted := by
  have hmeets : Meets Replica.step Harmless (createReplica 2 10)
      lostAnswer := by
    refine meets_cons ⟨rfl, by decide⟩ rfl (meets_cons ⟨rfl, by decide⟩ rfl
      (meets_cons trivial rfl (meets_cons trivial rfl (meets_cons trivial rfl
      (meets_cons trivial rfl (meets_cons trivial rfl (meets_cons trivial rfl
      (meets_cons trivial rfl (meets_cons trivial rfl
      (meets_cons ?_ rfl trivial))))))))))
    intro k verdicts hphase
    cases hphase
    decide
  exact ⟨_, rfl, accounted_of_harmless hmeets rfl⟩

/-- One of two events is rejected, and both are counted as sent. -/
theorem not_accounted_rejected :
    ¬ forall (batchSize maxRetries : Int) (actions : List (ReplicaAction Nat))
        (r : Replica Nat),
      run? Replica.step (createReplica batchSize maxRetries) actions =
        some r -> r.Accounted := by
  intro h
  have haccounted := h 2 10 [.queue 1, .queue 2, .receive, .receive,
    .publish .stored, .publish .rejected, .deliver] _ rfl
  exact haccounted.counted.truthful (2, .sent .rejected) (by decide) rfl

end Replica

end Geo
end ChimeraMQ
