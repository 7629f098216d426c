import ChimeraMQ.Geo.Event
import ChimeraMQ.Geo.StoredOnce
import Mathlib.Data.List.Zip

/-!
# A datacenter that mirrors another one

Clients publish to a topic at one datacenter, a replica takes the messages to
another one without any failure, and nobody else publishes to the topic there.
An event has neither the routing key, the headers, the priority nor the time to
live of its message, and the remote broker chooses the partition in turn.
-/

namespace ChimeraMQ
namespace Geo

open Foundation
open Message

/-!
## The order of the events
-/

namespace Replica

variable {ε : Type}

def waiting (r : Replica ε) : List ε :=
  r.pending ++ r.buffer

variable {r : Replica ε}

theorem waiting_queue {r' : Replica ε} {e : ε}
    (hstep : r.step (.queue e) = some r') :
    r'.waiting = r.waiting ++ [e] ∧ r'.maxRetries = r.maxRetries := by
  simp only [step] at hstep
  split at hstep
  · cases hstep
    exact ⟨(List.append_assoc ..).symm, rfl⟩
  · cases hstep

def LoopStep : ReplicaAction ε -> Prop
  | .receive | .tick | .deliver => True
  | .queue _ | .takeStop | .stop | .publish _ | .refuse | .lose | .timer
  | .giveUp | .publishLate _ _ => False

instance (a : ReplicaAction ε) : Decidable (LoopStep a) :=
  match a with
  | .receive | .tick | .deliver => isTrue trivial
  | .queue _ | .takeStop | .stop | .publish _ | .refuse | .lose | .timer
  | .giveUp | .publishLate _ _ => isFalse not_false

theorem waiting_attempt (hretries : 0 ≤ r.maxRetries) :
    (r.attempt 0).waiting = r.batch ++ r.buffer ∧
      (r.attempt 0).maxRetries = r.maxRetries := by
  unfold attempt
  rw [if_pos (show ((0 : Nat) : Int) ≤ r.maxRetries from hretries)]
  exact ⟨rfl, rfl⟩

theorem waiting_loop {r' : Replica ε} {a : ReplicaAction ε} (hloop : LoopStep a)
    (hretries : 0 ≤ r.maxRetries) (hstep : r.step a = some r') :
    r'.waiting = r.waiting ∧ r'.maxRetries = r.maxRetries := by
  cases a with
  | receive =>
    simp only [step] at hstep
    split at hstep
    · rename_i e rest hphase hbuffer
      have hwaiting : r.waiting = (r.batch ++ [e]) ++ rest := by
        unfold waiting pending
        rw [hphase, hbuffer, List.append_assoc]
        rfl
      rw [hwaiting]
      split at hstep
      · cases hstep
        exact waiting_attempt hretries
      · cases hstep
        unfold waiting pending
        simp only [hphase, and_self]
    · cases hstep
  | tick =>
    simp only [step] at hstep
    split at hstep
    · rename_i hphase
      split at hstep
      · cases hstep
      cases hstep
      have hwaiting : r.waiting = r.batch ++ r.buffer := by
        unfold waiting pending
        rw [hphase]
      rw [hwaiting]
      exact waiting_attempt hretries
    · cases hstep
  | deliver =>
    simp only [step] at hstep
    split at hstep
    · rename_i k verdicts hphase
      rw [if_pos (successful_httpStatus verdicts)] at hstep
      cases hstep
      have hwaiting : r.waiting = r.buffer := by
        unfold waiting pending
        rw [hphase]
        rfl
      have hpending : (r.succeed verdicts).pending = [] := by
        cases hflushing : r.flushing with
        | true =>
          have hended : (r.succeed verdicts).phase = .ended := by
            simp only [succeed, next, hflushing, if_true]
          unfold pending
          rw [hended]
        | false =>
        have hidle : (r.succeed verdicts).phase = .idle := by
          simp only [succeed, next, hflushing, Bool.false_eq_true,
            if_false]
        unfold pending
        rw [hidle]
        rfl
      constructor
      · rw [hwaiting, waiting, hpending]
        rfl
      · rfl
    · cases hstep
  | queue e => exact hloop.elim
  | takeStop => exact hloop.elim
  | stop => exact hloop.elim
  | publish v => exact hloop.elim
  | refuse => exact hloop.elim
  | lose => exact hloop.elim
  | timer => exact hloop.elim
  | giveUp => exact hloop.elim
  | publishLate i v => exact hloop.elim

theorem waiting_publish {r' : Replica ε} {v : Verdict} {k : Nat} {e : ε}
    {rest : List ε} {verdicts : List Verdict}
    (hphase : r.phase = .sending k ⟨e :: rest, verdicts⟩)
    (hstep : r.step (.publish v) = some r') :
    r.waiting = e :: r'.waiting ∧ r'.maxRetries = r.maxRetries := by
  simp only [step, hphase] at hstep
  cases hstep
  unfold waiting pending
  simp only [hphase]
  exact ⟨rfl, rfl⟩

end Replica

/-!
## The datacenters
-/

/--
The brokers of the two datacenters and the replica between them, with the
messages that were stored at either.
-/
structure Mirror where
  source : Broker
  remote : Broker
  replica : Replica ReplicationEvent
  localLog : List Envelope
  arrivals : List (Option Envelope)

inductive MirrorAction where
  | publish (env : Envelope) (c : PipelineContext)
  | loop (a : ReplicaAction ReplicationEvent)
  | handle (c : PipelineContext)

def verdict : Broker.PublishResult -> Verdict
  | .stored _ => .stored
  | .duplicate | .filtered | .scheduled => .skipped

namespace Mirror

def start (source remote : Broker) (batchSize : Int) (maxRetries : Nat) :
    Mirror where
  source := source
  remote := remote
  replica := Replica.createReplica batchSize maxRetries
  localLog := []
  arrivals := []

def step (topic : Bytes) (s : Mirror) : MirrorAction -> Option Mirror
  | .publish env c =>
    if env.topic = topic then
      let b := (s.source.publish env c.toPublishContext).1
      match s.source.outcome env c.toPublishContext with
      | none => some { s with source := b }
      | some (offset, m) =>
      match s.replica.step
          (.queue (replicationEvent m offset c.now)) with
      | none => none
      | some r =>
        some { s with
          source := b
          replica := r
          localLog := s.localLog ++ [m] }
    else none
  | .loop a =>
    if Replica.LoopStep a then
      match s.replica.step a with
      | none => none
      | some r => some { s with replica := r }
    else none
  | .handle c =>
    match s.replica.phase with
    | .sending _ ⟨e :: _, _⟩ =>
      match s.remote.publish e.envelope c.toPublishContext with
      | (_, .error _) => none
      | (b, .ok result) =>
      match s.replica.step (.publish (verdict result)) with
      | none => none
      | some r =>
      some { s with
        remote := b
        replica := r
        arrivals := s.arrivals ++
          [(s.remote.outcome e.envelope
            c.toPublishContext).map Prod.snd] }
    | _ => none

/-!
## The partitions
-/

structure Content where
  routingKey : Bytes
  headers : Headers
  priority : UInt8
  ttl : Int64
  payload : Bytes
deriving DecidableEq

def content (m : Envelope) : Content where
  routingKey := m.routingKey
  headers := m.headers
  priority := m.priority
  ttl := m.ttl
  payload := m.payload

def partition (log : List (Option Envelope)) (n : UInt32) :
    List (Nat × Content) :=
  log.zipIdx.filterMap (fun e =>
    match e.1 with
    | some m => if m.partitionID = n then some (e.2, content m) else none
    | none => none)

/-- The remote partitions have the same messages in the same order. -/
def Mirrors (s : Mirror) : Prop :=
  forall n, partition s.arrivals n = partition (s.localLog.map some) n

def Drained (s : Mirror) : Prop :=
  s.arrivals.length = s.localLog.length

/-- A message without what an event does not carry. -/
structure Plain (ttl : Int64) (m : Envelope) : Prop where
  routingKey : m.routingKey = []
  headers : m.headers = Headers.empty
  priority : m.priority = 0
  ttl : m.ttl = ttl

def eventTTL (cfg : Broker.TopicConfig) : Int64 :=
  (Broker.applyDefaultTTL Envelope.zero cfg.defaultTTL).ttl

/--
A message that is stored is plain; an event passes the pipeline of the remote
topic unchanged when it is its partition's turn.
-/
def Faithful (topic : Bytes) (cfg cfg' : Broker.TopicConfig) (s : Mirror) :
    MirrorAction -> Prop
  | .publish env c =>
    s.source.outcome env c.toPublishContext = none ∨
      Plain (eventTTL cfg') (Broker.applyDefaultTTL env cfg.defaultTTL)
  | .loop _ => True
  | .handle c => forall k e rest verdicts,
      s.replica.phase = .sending k ⟨e :: rest, verdicts⟩ ->
        (exists t, s.remote.runTransform cfg'
          (Broker.applyDefaultTTL e.envelope cfg'.defaultTTL)
            c.toPublishContext = .ok (some t) ∧ t.payload = e.message) ∧
        UInt32.ofNat (s.remote.topics.resolvePartition topic []
          cfg'.partitions).2 = e.partition

/-!
## The invariant
-/

def parcel (m : Envelope) : Bytes × UInt32 × Bytes :=
  (m.topic, m.partitionID, m.payload)

structure Inv (topic : Bytes) (cfg cfg' : Broker.TopicConfig) (s : Mirror) :
    Prop where
  source : s.source.topics.getTopic topic = some cfg
  remote : s.remote.topics.getTopic topic = some cfg'
  retries : 0 ≤ s.replica.maxRetries
  topics : forall m, m ∈ s.localLog -> m.topic = topic
  few : s.arrivals.length ≤ s.localLog.length
  waiting : s.replica.waiting.map (fun e => (e.topic, e.partition, e.message)) =
    (s.localLog.drop s.arrivals.length).map parcel
  plain : forall m, some m ∈ s.arrivals -> Plain (eventTTL cfg') m

/-- What is stored for a message at the other datacenter is the same. -/
def Copies (m : Envelope) (y : Option Envelope) : Prop :=
  exists m', y = some m' ∧ m'.partitionID = m.partitionID ∧
    content m' = content m

structure Good (cfg' : Broker.TopicConfig) (s : Mirror) : Prop where
  plain : forall m, m ∈ s.localLog -> Plain (eventTTL cfg') m
  copies : forall (i : Nat) m y, s.localLog[i]? = some m ->
    s.arrivals[i]? = some y -> Copies m y

theorem inv_start {topic : Bytes} {cfg cfg' : Broker.TopicConfig}
    {source remote : Broker} (hsource : source.topics.getTopic topic = some cfg)
    (hremote : remote.topics.getTopic topic = some cfg') (batchSize : Int)
    (maxRetries : Nat) :
    Inv topic cfg cfg' (start source remote batchSize maxRetries) := by
  constructor
  · exact hsource
  · exact hremote
  · exact Int.natCast_nonneg maxRetries
  · intro m hm
    cases hm
  · exact Nat.le_refl 0
  · have hnothing : (start source remote batchSize maxRetries).replica.waiting =
        [] := by
      unfold Replica.waiting Replica.pending
      split
      · rfl
      · rfl
      · rename_i k request hphase
        simp only [start, Replica.createReplica] at hphase
        split at hphase
        · cases hphase
        · cases hphase
      · rfl
    rw [hnothing]
    rfl
  · intro m hm
    cases hm

theorem good_start {cfg' : Broker.TopicConfig} {source remote : Broker}
    (batchSize : Int) (maxRetries : Nat) :
    Good cfg' (start source remote batchSize maxRetries) := by
  constructor
  · intro m hm
    cases hm
  · intro i m y hm
    cases hm

theorem applyDefaultTTL_eq (env : Envelope) (ttl : Int64) :
    Broker.applyDefaultTTL env ttl =
      { env with ttl := (Broker.applyDefaultTTL env ttl).ttl } := by
  unfold Broker.applyDefaultTTL
  split
  · rfl
  · rfl

theorem applyDefaultTTL_ttl (env : Envelope) (ttl : Int64) :
    (Broker.applyDefaultTTL env ttl).ttl =
      if env.ttl = 0 ∧ ttl > 0 then ttl else env.ttl := by
  unfold Broker.applyDefaultTTL
  split
  · rfl
  · rfl

theorem plain_stored_iff {b : Broker} {cfg : Broker.TopicConfig}
    {env m : Envelope} {c : Broker.PublishContext}
    (h : b.StoredFrom cfg env c m) (ttl : Int64) :
    Plain ttl m <-> Plain ttl (Broker.applyDefaultTTL env cfg.defaultTTL) := by
  rw [applyDefaultTTL_eq]
  constructor
  · intro hplain
    constructor
    · exact h.routingKey.symm.trans hplain.routingKey
    · exact h.headers.symm.trans hplain.headers
    · exact h.priority.symm.trans hplain.priority
    · exact h.ttl.symm.trans hplain.ttl
  intro hplain
  constructor
  · exact h.routingKey.trans hplain.routingKey
  · exact h.headers.trans hplain.headers
  · exact h.priority.trans hplain.priority
  · exact h.ttl.trans hplain.ttl

theorem plain_event (e : ReplicationEvent) (cfg : Broker.TopicConfig) :
    Plain (eventTTL cfg)
      (Broker.applyDefaultTTL e.envelope cfg.defaultTTL) := by
  rw [applyDefaultTTL_eq]
  constructor
  · rfl
  · rfl
  · rfl
  change (Broker.applyDefaultTTL e.envelope cfg.defaultTTL).ttl = eventTTL cfg
  unfold eventTTL
  rw [applyDefaultTTL_ttl, applyDefaultTTL_ttl]
  rfl

theorem content_plain {ttl : Int64} {m m' : Envelope} (hm : Plain ttl m)
    (hm' : Plain ttl m') (hpayload : m'.payload = m.payload) :
    content m' = content m := by
  unfold content
  rw [hm.routingKey, hm.headers, hm.priority, hm.ttl, hm'.routingKey,
    hm'.headers, hm'.priority, hm'.ttl, hpayload]

/-!
## The steps
-/

section
variable {topic : Bytes} {cfg cfg' : Broker.TopicConfig} {s s' : Mirror}

variable (hinv : Inv topic cfg cfg' s)

include hinv

theorem step_publish {env : Envelope} {c : PipelineContext}
    (hstep : s.step topic (.publish env c) = some s') :
    Inv topic cfg cfg' s' ∧
      (Good cfg' s' <-> Good cfg' s ∧
        Faithful topic cfg cfg' s (.publish env c)) := by
  simp only [step] at hstep
  split at hstep
  · rename_i htopic
    have hcfg := hinv.source
    rw [← htopic] at hcfg
    have hsource := (s.source.getTopic_publish env c.toPublishContext
      topic).trans hinv.source
    split at hstep
    · rename_i hnone
      cases hstep
      constructor
      · exact ⟨hsource, hinv.remote, hinv.retries, hinv.topics, hinv.few,
          hinv.waiting, hinv.plain⟩
      · constructor
        · exact fun h => ⟨⟨h.plain, h.copies⟩, Or.inl hnone⟩
        · exact fun h => ⟨h.left.plain, h.left.copies⟩
    rename_i offset m hsome
    split at hstep
    · cases hstep
    rename_i r hqueue
    cases hstep
    have hfrom := Broker.storedFrom_of_outcome hcfg hsome
    have hplain := plain_stored_iff hfrom (eventTTL cfg')
    rcases Replica.waiting_queue hqueue with ⟨hwaiting, hretries⟩
    constructor
    · constructor
      · exact hsource
      · exact hinv.remote
      · rw [hretries]
        exact hinv.retries
      · intro m' hm'
        rcases List.mem_append.mp hm' with hold | hnew
        · exact hinv.topics m' hold
        · rw [List.mem_singleton.mp hnew, hfrom.topic, htopic]
      · rw [List.length_append]
        exact Nat.le_add_right_of_le hinv.few
      · rw [hwaiting, List.map_append, hinv.waiting,
          List.drop_append_of_le_length hinv.few, List.map_append]
        rfl
      · exact hinv.plain
    constructor
    · intro h
      constructor
      · constructor
        · exact fun x hx => h.plain x (List.mem_append_left [m] hx)
        intro i x y hx hy
        apply h.copies i x y _ hy
        rw [List.getElem?_append_left
          (List.getElem?_eq_some_iff.mp hx).1]
        exact hx
      · exact Or.inr (hplain.mp (h.plain m
          (List.mem_append_right _ (List.mem_singleton_self m))))
    intro h
    have hm := hplain.mpr (h.right.resolve_left (by
      rw [hsome]
      exact Option.some_ne_none _))
    constructor
    · intro x hx
      rcases List.mem_append.mp hx with hold | hnew
      · exact h.left.plain x hold
      · rw [List.mem_singleton.mp hnew]
        exact hm
    intro i x y hx hy
    have hi := (List.getElem?_eq_some_iff.mp hy).1
    rw [List.getElem?_append_left
      (Nat.lt_of_lt_of_le hi hinv.few)] at hx
    exact h.left.copies i x y hx hy
  · cases hstep

theorem step_loop {a : ReplicaAction ReplicationEvent}
    (hstep : s.step topic (.loop a) = some s') :
    Inv topic cfg cfg' s' ∧
      (Good cfg' s' <-> Good cfg' s ∧ Faithful topic cfg cfg' s (.loop a)) := by
  simp only [step] at hstep
  split at hstep
  · rename_i hloop
    split at hstep
    · cases hstep
    rename_i r hr
    cases hstep
    rcases Replica.waiting_loop hloop hinv.retries hr with
      ⟨hwaiting, hretries⟩
    constructor
    · constructor
      · exact hinv.source
      · exact hinv.remote
      · rw [hretries]
        exact hinv.retries
      · exact hinv.topics
      · exact hinv.few
      · rw [hwaiting]
        exact hinv.waiting
      · exact hinv.plain
    · constructor
      · exact fun h => ⟨⟨h.plain, h.copies⟩, trivial⟩
      · exact fun h => ⟨h.left.plain, h.left.copies⟩
  · cases hstep

theorem Inv.next {e : ReplicationEvent} {rest : List ReplicationEvent}
    (hwaiting : s.replica.waiting = e :: rest) :
    exists m, s.localLog[s.arrivals.length]? = some m ∧ e.topic = topic ∧
      e.partition = m.partitionID ∧ e.message = m.payload ∧
      rest.map (fun e => (e.topic, e.partition, e.message)) =
        (s.localLog.drop (s.arrivals.length + 1)).map parcel := by
  have hmap := hinv.waiting
  rw [hwaiting] at hmap
  cases hdrop : s.localLog.drop s.arrivals.length with
  | nil =>
    rw [hdrop] at hmap
    cases hmap
  | cons m later =>
  have hget : s.localLog[s.arrivals.length]? = some m := by
    rw [← List.head?_drop, hdrop]
    rfl
  have hlater : s.localLog.drop (s.arrivals.length + 1) = later := by
    rw [← List.tail_drop, hdrop]
    rfl
  rw [hdrop, List.map_cons, List.map_cons] at hmap
  rcases List.cons.inj hmap with ⟨hparcel, hrest⟩
  rcases Prod.mk.inj hparcel with ⟨htopic, hpair⟩
  rcases Prod.mk.inj hpair with ⟨hpartition, hpayload⟩
  exists m
  constructor
  · exact hget
  constructor
  · rw [htopic]
    exact hinv.topics m (List.mem_of_getElem? hget)
  · rw [hlater]
    exact ⟨hpartition, hpayload, hrest⟩

theorem copies_iff {e : ReplicationEvent} {c : PipelineContext} {m : Envelope}
    (htopic : e.topic = topic) (hpartition : e.partition = m.partitionID)
    (hpayload : e.message = m.payload) (hm : Plain (eventTTL cfg') m)
    {result : Broker.PublishResult}
    (hresult : (s.remote.publish e.envelope c.toPublishContext).2 =
      .ok result) :
    Copies m ((s.remote.outcome e.envelope c.toPublishContext).map Prod.snd) <->
      (exists t, s.remote.runTransform cfg'
        (Broker.applyDefaultTTL e.envelope cfg'.defaultTTL)
          c.toPublishContext = .ok (some t) ∧ t.payload = e.message) ∧
      UInt32.ofNat (s.remote.topics.resolvePartition topic []
        cfg'.partitions).2 = e.partition := by
  have hcfg := hinv.remote
  rw [← htopic] at hcfg
  constructor
  · rintro ⟨m', hm', hsame, hcontent⟩
    rcases Option.map_eq_some_iff.mp hm' with ⟨⟨offset, x⟩, hsome, hx⟩
    rw [show x = m' from hx] at hsome
    have hfrom := Broker.storedFrom_of_outcome hcfg hsome
    constructor
    · rcases hfrom.payload with ⟨t, ht, hpayload'⟩
      exists t
      constructor
      · exact ht
      · rw [← hpayload', hpayload]
        exact congrArg Content.payload hcontent
    · rw [hpartition, ← hsame, hfrom.partition, ← htopic]
      rfl
  rintro ⟨⟨t, ht, hsame⟩, hturn⟩
  rcases Broker.outcome_event hcfg ht hresult with ⟨offset, m', hsome⟩
  have hfrom := Broker.storedFrom_of_outcome hcfg hsome
  have hm' := (plain_stored_iff hfrom (eventTTL cfg')).mpr
    (plain_event e cfg')
  exists m'
  constructor
  · rw [hsome]
    rfl
  constructor
  · rw [← hpartition, ← hturn, hfrom.partition, ← htopic]
    rfl
  apply content_plain hm hm'
  rcases hfrom.payload with ⟨t', ht', hpayload'⟩
  rw [ht] at ht'
  cases ht'
  rw [hpayload', hsame, hpayload]

theorem step_handle {c : PipelineContext}
    (hstep : s.step topic (.handle c) = some s') :
    Inv topic cfg cfg' s' ∧
      (Good cfg' s' <-> Good cfg' s ∧
        Faithful topic cfg cfg' s (.handle c)) := by
  simp only [step] at hstep
  split at hstep
  · rename_i k e events verdicts hphase
    split at hstep
    · cases hstep
    rename_i b result hpublish
    split at hstep
    · cases hstep
    rename_i r hr
    cases hstep
    have hresult : (s.remote.publish e.envelope c.toPublishContext).2 =
        .ok result := congrArg Prod.snd hpublish
    rcases Replica.waiting_publish hphase hr with ⟨hwaiting, hretries⟩
    rcases hinv.next hwaiting with
      ⟨m, hget, htopic, hpartition, hpayload, hrest⟩
    have hlt := (List.getElem?_eq_some_iff.mp hget).1
    constructor
    · constructor
      · exact hinv.source
      · have hsame := s.remote.getTopic_publish e.envelope
          c.toPublishContext topic
        rw [hpublish, hinv.remote] at hsame
        exact hsame
      · rw [hretries]
        exact hinv.retries
      · exact hinv.topics
      · rw [List.length_append]
        exact hlt
      · rw [List.length_append]
        exact hrest
      intro m' hm'
      rcases List.mem_append.mp hm' with hold | hnew
      · exact hinv.plain m' hold
      rcases Option.map_eq_some_iff.mp
        (List.mem_singleton.mp hnew).symm with
        ⟨⟨offset, x⟩, hsome, hx⟩
      have hcfg := hinv.remote
      rw [← htopic] at hcfg
      rw [← show x = m' from hx]
      exact (plain_stored_iff
        (Broker.storedFrom_of_outcome hcfg hsome) _).mpr
          (plain_event e cfg')
    constructor
    · intro h
      have hm := h.plain m (List.mem_of_getElem? hget)
      have hcopies := h.copies s.arrivals.length m _ hget
        List.getElem?_concat_length
      constructor
      · constructor
        · exact h.plain
        intro i x y hx hy
        apply h.copies i x y hx
        rw [List.getElem?_append_left
          (List.getElem?_eq_some_iff.mp hy).1]
        exact hy
      · intro k' e' rest' verdicts' hphase'
        rw [hphase] at hphase'
        cases hphase'
        exact (copies_iff hinv htopic hpartition hpayload hm
          hresult).mp hcopies
    intro h
    have hm := h.left.plain m (List.mem_of_getElem? hget)
    constructor
    · exact h.left.plain
    intro i x y hx hy
    rcases Nat.lt_or_ge i s.arrivals.length with hi | hi
    · rw [List.getElem?_append_left hi] at hy
      exact h.left.copies i x y hx hy
    -- the message that has just arrived
    have hlast := (List.getElem?_eq_some_iff.mp hy).1
    rw [List.length_append, List.length_singleton] at hlast
    have hi' : i = s.arrivals.length := by omega
    rw [hi', hget] at hx
    rw [hi', List.getElem?_concat_length] at hy
    cases hx
    cases hy
    exact (copies_iff hinv htopic hpartition hpayload hm
      hresult).mpr (h.right k e events verdicts hphase)
  · cases hstep

theorem step_good_iff {a : MirrorAction} (hstep : s.step topic a = some s') :
    Inv topic cfg cfg' s' ∧
      (Good cfg' s' <-> Good cfg' s ∧ Faithful topic cfg cfg' s a) := by
  cases a with
  | publish env c => exact step_publish hinv hstep
  | loop a => exact step_loop hinv hstep
  | handle c => exact step_handle hinv hstep

end

/-!
## Whole runs
-/

theorem mem_partition {log : List (Option Envelope)} {n : UInt32} {i : Nat}
    {x : Content} :
    (i, x) ∈ partition log n <-> exists m, log[i]? = some (some m) ∧
      m.partitionID = n ∧ content m = x := by
  unfold partition
  rw [List.mem_filterMap]
  constructor
  · rintro ⟨⟨y, j⟩, hmem, hy⟩
    rw [List.mem_zipIdx_iff_getElem?] at hmem
    cases y with
    | none => cases hy
    | some m =>
    simp only at hy
    split at hy
    · rename_i hn
      cases hy
      exact ⟨m, hmem, hn, rfl⟩
    · cases hy
  · rintro ⟨m, hget, hn, hx⟩
    exists (some m, i)
    constructor
    · exact List.mem_zipIdx_iff_getElem?.mpr hget
    · simp only [if_pos hn, hx]

theorem partition_congr {log log' : List (Option Envelope)}
    (h : log.map (Option.map (fun m => (m.partitionID, content m))) =
      log'.map (Option.map (fun m => (m.partitionID, content m))))
    (n : UInt32) : partition log n = partition log' n := by
  have hview : forall l : List (Option Envelope), partition l n =
      (l.map (Option.map (fun m => (m.partitionID, content m)))).zipIdx.filterMap
        (fun e => e.1.bind (fun x =>
          if x.1 = n then some (e.2, x.2) else none)) := by
    intro l
    rw [List.zipIdx_map, List.filterMap_map]
    unfold partition
    apply List.filterMap_congr
    intro e _
    cases e with
    | mk y i =>
      cases y with
      | none => rfl
      | some m => rfl
  rw [hview log, hview log', h]

theorem mirrors_iff_good {topic : Bytes} {cfg cfg' : Broker.TopicConfig}
    {s : Mirror} (hinv : Inv topic cfg cfg' s) (hdrained : s.Drained) :
    s.Mirrors <-> Good cfg' s := by
  constructor
  · intro h
    have hfound : forall (i : Nat) m, s.localLog[i]? = some m ->
        exists m', s.arrivals[i]? = some (some m') ∧
          m'.partitionID = m.partitionID ∧ content m' = content m := by
      intro i m hm
      have hlocal : (i, content m) ∈
          partition (s.localLog.map some) m.partitionID := by
        apply mem_partition.mpr
        exists m
        rw [List.getElem?_map, hm]
        exact ⟨rfl, rfl, rfl⟩
      rw [← h] at hlocal
      exact mem_partition.mp hlocal
    constructor
    · intro m hm
      rcases List.mem_iff_getElem?.mp hm with ⟨i, hi⟩
      rcases hfound i m hi with ⟨m', hm', _, hcontent⟩
      have hplain := hinv.plain m' (List.mem_of_getElem? hm')
      constructor
      · exact (congrArg Content.routingKey hcontent).symm.trans
          hplain.routingKey
      · exact (congrArg Content.headers hcontent).symm.trans hplain.headers
      · exact (congrArg Content.priority hcontent).symm.trans hplain.priority
      · exact (congrArg Content.ttl hcontent).symm.trans hplain.ttl
    · intro i m y hm hy
      rcases hfound i m hm with ⟨m', hm', hsame⟩
      rw [hy] at hm'
      exact ⟨m', Option.some.inj hm', hsame⟩
  · intro h n
    apply partition_congr
    apply List.ext_getElem?
    intro i
    rw [List.getElem?_map, List.map_map, List.getElem?_map]
    cases hm : s.localLog[i]? with
    | none =>
      have hi := List.getElem?_eq_none_iff.mp hm
      rw [← hdrained] at hi
      rw [List.getElem?_eq_none hi]
      rfl
    | some m =>
    have hi := (List.getElem?_eq_some_iff.mp hm).1
    rw [← hdrained] at hi
    have hy := List.getElem?_eq_getElem hi
    rcases h.copies i m _ hm hy with ⟨m', hm', hpartition, hcontent⟩
    rw [hy, hm']
    simp only [Option.map_some, Function.comp, hpartition, hcontent]

/--
When all events have been published, the remote partitions are the same as the
local ones exactly if every message was plain and came at the right turn.
-/
theorem mirrors_iff {source remote : Broker} {topic : Bytes}
    {cfg cfg' : Broker.TopicConfig}
    (hsource : source.topics.getTopic topic = some cfg)
    (hremote : remote.topics.getTopic topic = some cfg') {batchSize : Int}
    {maxRetries : Nat} {actions : List MirrorAction} {s : Mirror}
    (hrun : run? (step topic) (start source remote batchSize maxRetries)
      actions = some s) (hdrained : s.Drained) :
    s.Mirrors <-> Meets (step topic) (Faithful topic cfg cfg')
      (start source remote batchSize maxRetries) actions := by
  have hinv := inv_start hsource hremote batchSize maxRetries
  have hkeep : forall (s : Mirror) a s', Inv topic cfg cfg' s ->
      s.step topic a = some s' -> Inv topic cfg cfg' s' :=
    fun _ _ _ h hone => (step_good_iff h hone).left
  rw [mirrors_iff_good (run?_invariant hkeep hinv hrun) hdrained,
    run?_good_iff_meets hkeep
      (fun _ _ _ h hone => (step_good_iff h hone).right) hinv hrun]
  exact and_iff_right (good_start batchSize maxRetries)

def twoPartitions : Broker :=
  { Broker.limitedBroker with
    topics :=
      { Broker.limitedBroker.topics with
        topics := [([116], { Broker.exampleTopic with partitions := 2 })] }
    deduper := none
    flowCtrl := none }

def callAt (now : Int) : PipelineContext where
  toPublishContext := Broker.callAt now
  payloadOnly := by
    intro env env' h
    cases h
    rfl

def sendOne (env : Envelope) : List MirrorAction :=
  [.publish env (callAt 1), .loop .receive, .handle (callAt 2), .loop .deliver]

def plainMessage : Envelope :=
  { Envelope.zero with topic := [116], payload := [1, 2, 3] }

def keyedMessage : Envelope :=
  { plainMessage with routingKey := [107], priority := 5 }

def mirrorOne (now : Int) : List MirrorAction :=
  [.loop .receive, .handle (callAt now), .loop .deliver]

/-- Three messages, the second and the third of which wait for the mirror. -/
def sendThree : List MirrorAction :=
  .publish plainMessage (callAt 1) ::
    .publish { plainMessage with payload := [4] } (callAt 2) :: mirrorOne 3 ++
    .publish { plainMessage with payload := [] } (callAt 4) :: mirrorOne 5 ++
    mirrorOne 6

/-- Messages without a key and a priority are the same at both places. -/
theorem mirrors_sendThree :
    exists s, run? (step [116]) (start twoPartitions twoPartitions 1 0)
        sendThree = some s ∧ s.localLog.length = 3 ∧ s.Mirrors ∧
      Meets (step [116])
        (Faithful [116] { Broker.exampleTopic with partitions := 2 }
          { Broker.exampleTopic with partitions := 2 })
        (start twoPartitions twoPartitions 1 0) sendThree := by
  have hend : (run? (step [116]) (start twoPartitions twoPartitions 1 0)
      sendThree).map (fun s =>
        (s.localLog.length, decide (s.arrivals.length = s.localLog.length),
          decide (s.arrivals.map (Option.map (fun m =>
            (m.partitionID, content m))) = (s.localLog.map some).map
              (Option.map (fun m => (m.partitionID, content m)))))) =
        some (3, true, true) := by decide +kernel
  rcases Option.map_eq_some_iff.mp hend with ⟨s, hrun, hs⟩
  rcases Prod.mk.inj hs with ⟨hthree, hboth⟩
  rcases Prod.mk.inj hboth with ⟨hdrained, hsame⟩
  have hmirrors : s.Mirrors :=
    fun n => partition_congr (of_decide_eq_true hsame) n
  have hall : s.arrivals.length = s.localLog.length :=
    of_decide_eq_true hdrained
  exists s
  constructor
  · exact hrun
  constructor
  · exact hthree
  · constructor
    · exact hmirrors
    · exact (mirrors_iff rfl rfl hrun hall).mp hmirrors

/-- The routing key and the priority of a message are lost. -/
theorem not_mirrors_keyedMessage :
    exists s, run? (step [116]) (start twoPartitions twoPartitions 1 0)
        (sendOne keyedMessage) = some s ∧ s.Drained ∧ ¬ s.Mirrors := by
  have hend : (run? (step [116]) (start twoPartitions twoPartitions 1 0)
      (sendOne keyedMessage)).map (fun s =>
        (decide (s.arrivals.length = s.localLog.length),
          decide (partition s.arrivals 0 =
            partition (s.localLog.map some) 0))) =
        some (true, false) := by decide +kernel
  rcases Option.map_eq_some_iff.mp hend with ⟨s, hrun, hs⟩
  rcases Prod.mk.inj hs with ⟨hdrained, hdiffer⟩
  have hall : s.arrivals.length = s.localLog.length :=
    of_decide_eq_true hdrained
  exists s
  constructor
  · exact hrun
  constructor
  · exact hall
  · intro hmirrors
    exact of_decide_eq_false hdiffer (hmirrors 0)

end Mirror

end Geo
end ChimeraMQ
