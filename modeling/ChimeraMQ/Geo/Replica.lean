import ChimeraMQ.Foundation.Run

/-!
# Replication to another datacenter

A replica takes the events that are queued to it, collects them in batches and
sends every batch with retries to the broker of another datacenter, which
publishes the events of a request one after the other.  A sender that gives up
on a request does not stop the broker from handling it.  The encoding of the
requests, their authentication and what is recorded of the lag are left out.
-/

namespace ChimeraMQ
namespace Geo

open Foundation

/--
How the remote broker deals with an event: it stores it, accepts it without
storing it (delayed or filtered), or rejects it.
-/
inductive Verdict where
  | stored
  | skipped
  | rejected
deriving DecidableEq

def Verdict.Accepted : Verdict -> Prop
  | .stored | .skipped => True
  | .rejected => False

instance (v : Verdict) : Decidable v.Accepted :=
  match v with
  | .stored | .skipped => isTrue trivial
  | .rejected => isFalse not_false

/-- A request: the events still to be published, and how the others fared. -/
structure Request (ε : Type) where
  events : List ε
  verdicts : List Verdict
deriving DecidableEq

def httpStatus (verdicts : List Verdict) : Nat :=
  if verdicts.any (fun v => decide (¬ v.Accepted)) then 202 else 200

def Successful (status : Nat) : Prop :=
  status = 200 ∨ status = 202

instance (status : Nat) : Decidable (Successful status) :=
  inferInstanceAs (Decidable (_ ∨ _))

/-- What the replication loop is doing. -/
inductive Phase (ε : Type) where
  | idle
  | sending (attempt : Nat) (request : Request ε)
  | backoff (attempt : Nat)
  | ended
deriving DecidableEq

inductive Ending where
  | sent (verdict : Verdict)
  | failed
deriving DecidableEq

structure Abandoned (ε : Type) where
  request : Request ε
  retried : Bool
deriving DecidableEq

/--
A replica with the requests on their way; the lists of the events that were
queued, accepted, stored and counted are for the properties.
-/
structure Replica (ε : Type) where
  batchSize : Int
  maxRetries : Int
  bufferSize : Nat
  buffer : List ε
  batch : List ε
  phase : Phase ε
  flushing : Bool
  stopped : Bool
  eventsSent : Nat
  eventsFailed : Nat
  abandoned : List (Abandoned ε)
  queued : List ε
  accepted : List ε
  stored : List ε
  endings : List (ε × Ending)
deriving DecidableEq

/-- What happens between a replica and the remote broker. -/
inductive ReplicaAction (ε : Type) where
  | queue (event : ε)
  | receive
  | tick
  | takeStop
  | stop
  | publish (v : Verdict)
  | deliver
  | refuse
  | lose
  | timer
  | giveUp
  | publishLate (i : Nat) (v : Verdict)

namespace Replica

variable {ε : Type}

/--
A new replica.  The loop allocates a batch of the given size, and ends at once
if that is negative.
-/
def createReplica (batchSize maxRetries : Int) : Replica ε where
  batchSize := batchSize
  maxRetries := maxRetries
  bufferSize :=
    if batchSize * 10 > 100000 then 100000
    else if batchSize * 10 < 100 then 100
    else (batchSize * 10).toNat
  buffer := []
  batch := []
  phase := if batchSize < 0 then .ended else .idle
  flushing := false
  stopped := false
  eventsSent := 0
  eventsFailed := 0
  abandoned := []
  queued := []
  accepted := []
  stored := []
  endings := []

def next (r : Replica ε) : Replica ε :=
  { r with
    batch := []
    phase := if r.flushing then .ended else .idle }

def fail (r : Replica ε) : Replica ε :=
  { r.next with
    eventsFailed := r.eventsFailed + r.batch.length
    endings := r.endings ++ r.batch.map (fun e => (e, .failed)) }

def attempt (r : Replica ε) (k : Nat) : Replica ε :=
  if (k : Int) ≤ r.maxRetries then
    { r with phase := .sending k { events := r.batch, verdicts := [] } }
  else r.fail

def retry (r : Replica ε) (k : Nat) : Replica ε :=
  if (k : Int) < r.maxRetries then { r with phase := .backoff k } else r.fail

def succeed (r : Replica ε) (verdicts : List Verdict) : Replica ε :=
  { r.next with
    eventsSent := r.eventsSent + r.batch.length
    endings := r.endings ++
      (r.batch.zip verdicts).map (fun x => (x.1, .sent x.2)) }

def record (r : Replica ε) (e : ε) (v : Verdict) : Replica ε :=
  { r with
    accepted := if v.Accepted then r.accepted ++ [e] else r.accepted
    stored := if v = .stored then r.stored ++ [e] else r.stored }

def abandon (r : Replica ε) (request : Request ε) (retried : Bool) :
    Replica ε :=
  { r with abandoned := r.abandoned ++ [⟨request, retried⟩] }

def step (r : Replica ε) : ReplicaAction ε -> Option (Replica ε)
  | .queue e =>
    if r.buffer.length < r.bufferSize then
      some { r with buffer := r.buffer ++ [e], queued := r.queued ++ [e] }
    else none
  | .receive =>
    match r.phase, r.buffer with
    | .idle, e :: rest =>
      let r := { r with buffer := rest, batch := r.batch ++ [e] }
      if (r.batch.length : Int) ≥ r.batchSize then some (r.attempt 0)
      else some r
    | _, _ => none
  | .tick =>
    match r.phase with
    | .idle => if r.batch = [] then none else some (r.attempt 0)
    | _ => none
  | .takeStop =>
    match r.phase, r.stopped with
    | .idle, true =>
      if r.batch = [] then some { r with phase := .ended }
      else some ({ r with flushing := true }.attempt 0)
    | _, _ => none
  | .stop => some { r with stopped := true }
  | .publish v =>
    match r.phase with
    | .sending k ⟨e :: rest, verdicts⟩ =>
      some { r.record e v with
        phase := .sending k ⟨rest, verdicts ++ [v]⟩ }
    | _ => none
  | .deliver =>
    match r.phase with
    | .sending k ⟨[], verdicts⟩ =>
      if Successful (httpStatus verdicts) then some (r.succeed verdicts)
      else some (r.retry k)
    | _ => none
  | .refuse =>
    match r.phase with
    | .sending k ⟨_, []⟩ => some (r.retry k)
    | _ => none
  | .lose =>
    match r.phase with
    | .sending k request =>
      some ((r.abandon request (decide ((k : Int) < r.maxRetries))).retry k)
    | _ => none
  | .timer =>
    match r.phase with
    | .backoff k => some (r.attempt (k + 1))
    | _ => none
  | .giveUp =>
    match r.phase, r.stopped with
    | .backoff _, true => some r.next
    | _, _ => none
  | .publishLate i v =>
    match r.abandoned[i]? with
    | some ⟨⟨e :: rest, verdicts⟩, retried⟩ =>
      let request : Abandoned ε := ⟨⟨rest, verdicts ++ [v]⟩, retried⟩
      some { r.record e v with abandoned := r.abandoned.set i request }
    | _ => none

/-!
## What a step leaves as it is
-/

@[simp] theorem attempt_queued (r : Replica ε) (k : Nat) :
    (r.attempt k).queued = r.queued := by
  unfold attempt
  split
  · rfl
  · rfl

@[simp] theorem attempt_stored (r : Replica ε) (k : Nat) :
    (r.attempt k).stored = r.stored := by
  unfold attempt
  split
  · rfl
  · rfl

@[simp] theorem retry_queued (r : Replica ε) (k : Nat) :
    (r.retry k).queued = r.queued := by
  unfold retry
  split
  · rfl
  · rfl

@[simp] theorem retry_stored (r : Replica ε) (k : Nat) :
    (r.retry k).stored = r.stored := by
  unfold retry
  split
  · rfl
  · rfl

theorem record_stored (r : Replica ε) (e : ε) (v : Verdict) :
    (r.record e v).stored = r.stored ∨
      (r.record e v).stored = r.stored ++ [e] := by
  unfold record
  simp only
  split
  · exact Or.inr rfl
  · exact Or.inl rfl

end Replica

/-- What each action does, and where it can happen. -/
inductive Steps {ε : Type} (r : Replica ε) :
    ReplicaAction ε -> Replica ε -> Prop where
  | queue {e : ε} (hroom : r.buffer.length < r.bufferSize) :
      Steps r (.queue e)
        { r with buffer := r.buffer ++ [e], queued := r.queued ++ [e] }
  | receive {e : ε} {rest : List ε} {r' : Replica ε}
      (hphase : r.phase = .idle) (hbuffer : r.buffer = e :: rest)
      (hr' : r' = Replica.attempt
          { r with buffer := rest, batch := r.batch ++ [e] } 0 ∨
        r' = { r with buffer := rest, batch := r.batch ++ [e] }) :
      Steps r .receive r'
  | tick (hphase : r.phase = .idle) : Steps r .tick (r.attempt 0)
  | leave (hphase : r.phase = .idle) (hbatch : r.batch = []) :
      Steps r .takeStop { r with phase := .ended }
  | flush (hphase : r.phase = .idle) :
      Steps r .takeStop (Replica.attempt { r with flushing := true } 0)
  | stop : Steps r .stop { r with stopped := true }
  | publish {k : Nat} (e : ε) {rest : List ε} {verdicts : List Verdict}
      (hphase : r.phase = .sending k ⟨e :: rest, verdicts⟩) (v : Verdict) :
      Steps r (.publish v)
        { r.record e v with phase := .sending k ⟨rest, verdicts ++ [v]⟩ }
  | succeed {k : Nat} {verdicts : List Verdict}
      (hphase : r.phase = .sending k ⟨[], verdicts⟩)
      (hok : Successful (httpStatus verdicts)) :
      Steps r .deliver (r.succeed verdicts)
  | reject {k : Nat} {verdicts : List Verdict}
      (hphase : r.phase = .sending k ⟨[], verdicts⟩)
      (hnot : ¬ Successful (httpStatus verdicts)) :
      Steps r .deliver (r.retry k)
  | refuse {k : Nat} {events : List ε}
      (hphase : r.phase = .sending k ⟨events, []⟩) :
      Steps r .refuse (r.retry k)
  | lose {k : Nat} {request : Request ε}
      (hphase : r.phase = .sending k request) :
      Steps r .lose
        ((r.abandon request (decide ((k : Int) < r.maxRetries))).retry k)
  | timer {k : Nat} (hphase : r.phase = .backoff k) :
      Steps r .timer (r.attempt (k + 1))
  | giveUp {k : Nat} (hphase : r.phase = .backoff k) :
      Steps r .giveUp r.next
  | publishLate {i : Nat} (e : ε) {rest : List ε} {verdicts : List Verdict}
      {retried : Bool}
      (hget : r.abandoned[i]? = some ⟨⟨e :: rest, verdicts⟩, retried⟩)
      (v : Verdict) :
      Steps r (.publishLate i v)
        { r.record e v with
          abandoned := r.abandoned.set i ⟨⟨rest, verdicts ++ [v]⟩, retried⟩ }

namespace Replica

theorem steps_of_step {r r' : Replica ε} {a : ReplicaAction ε}
    (hstep : r.step a = some r') : Steps r a r' := by
  cases a with
  | stop =>
    cases hstep
    exact .stop
  | _ =>
  simp only [step] at hstep
  split at hstep <;> try split at hstep
  all_goals cases hstep
  all_goals first
    | exact .queue ‹_›
    | exact .receive ‹_› ‹_› (Or.inl rfl)
    | exact .receive ‹_› ‹_› (Or.inr rfl)
    | exact .tick ‹_›
    | exact .leave ‹_› ‹_›
    | exact .flush ‹_›
    | exact .publish _ ‹_› _
    | exact .succeed ‹_› ‹_›
    | exact .reject ‹_› ‹_›
    | exact .refuse ‹_›
    | exact .lose ‹_›
    | exact .timer ‹_›
    | exact .giveUp ‹_›
    | exact .publishLate _ ‹_› _

theorem step_queue {r r' : Replica ε} {e : ε}
    (hstep : r.step (.queue e) = some r') :
    r'.queued = r.queued ++ [e] ∧ r'.stored = r.stored := by
  cases steps_of_step hstep
  exact ⟨rfl, rfl⟩

theorem step_frame {r r' : Replica ε} {a : ReplicaAction ε}
    (hother : forall e, a ≠ .queue e) (hstep : r.step a = some r') :
    r'.queued = r.queued ∧
      (r'.stored = r.stored ∨ exists e, r'.stored = r.stored ++ [e]) := by
  have hrecord : forall (e : ε) (v : Verdict),
      (r.record e v).stored = r.stored ∨
        exists e', (r.record e v).stored = r.stored ++ [e'] :=
    fun e v => (record_stored r e v).imp_right (fun hnew => ⟨e, hnew⟩)
  cases steps_of_step hstep with
  | queue hroom => exact absurd rfl (hother _)
  | receive hphase hbuffer hr' =>
    rcases hr' with hr' | hr'
    · subst hr'
      exact ⟨attempt_queued .., Or.inl (attempt_stored ..)⟩
    · subst hr'
      exact ⟨rfl, Or.inl rfl⟩
  | publish e hphase v => exact ⟨rfl, hrecord e v⟩
  | publishLate e hget v => exact ⟨rfl, hrecord e v⟩
  | tick hphase => exact ⟨attempt_queued .., Or.inl (attempt_stored ..)⟩
  | flush hphase => exact ⟨attempt_queued .., Or.inl (attempt_stored ..)⟩
  | timer hphase => exact ⟨attempt_queued .., Or.inl (attempt_stored ..)⟩
  | reject hphase hnot => exact ⟨retry_queued .., Or.inl (retry_stored ..)⟩
  | refuse hphase => exact ⟨retry_queued .., Or.inl (retry_stored ..)⟩
  | lose hphase => exact ⟨retry_queued .., Or.inl (retry_stored ..)⟩
  | leave hphase hbatch => exact ⟨rfl, Or.inl rfl⟩
  | stop => exact ⟨rfl, Or.inl rfl⟩
  | succeed hphase hok => exact ⟨rfl, Or.inl rfl⟩
  | giveUp hphase => exact ⟨rfl, Or.inl rfl⟩

end Replica

end Geo
end ChimeraMQ
