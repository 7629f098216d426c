import ChimeraMQ.Broker.Backend
import ChimeraMQ.Broker.PublishRetry

/-!
# What a replica sends

The event that is made of a stored message, and the message that the broker of
another datacenter makes of it again and publishes.
-/

namespace ChimeraMQ

open Foundation
open Message

namespace Geo

structure ReplicationEvent where
  topic : Bytes
  partition : UInt32
  offset : Nat
  timestamp : Int
  message : Bytes
deriving DecidableEq

def replicationEvent (env : Envelope) (offset : Nat) (now : Int) :
    ReplicationEvent where
  topic := env.topic
  partition := env.partitionID
  offset := offset
  timestamp := now
  message := env.payload

def ReplicationEvent.envelope (e : ReplicationEvent) : Envelope :=
  { Envelope.zero with
    topic := e.topic
    partitionID := e.partition
    sequence := UInt64.ofNat e.offset
    timestamp := Int64.ofInt e.timestamp
    payload := e.message
    sourceProto := 0 }

/-- The pipeline of a topic changes nothing but the payload of a message. -/
structure PipelineContext extends Broker.PublishContext where
  payloadOnly : forall env env', transform env = .ok (some env') ->
    env' = { env with payload := env'.payload }

end Geo

namespace Broker

open Geo

def outcome (b : Broker) (env : Envelope) (c : PublishContext) :
    Option (Nat × Envelope) :=
  match (b.publish env c).2, b.accepted env c with
  | .ok (.stored offset), some (_, m) => some (offset, identify m c)
  | _, _ => none

theorem getTopic_publish (b : Broker) (env : Envelope) (c : PublishContext)
    (name : Bytes) :
    (b.publish env c).1.topics.getTopic name = b.topics.getTopic name := by
  by_cases hrefused : b.Refused env
  · rw [(publish_refused hrefused c).left]
  · rw [(publish_accepted hrefused c).left.getTopic]
    rw [(b.dedup_settings env c.check).topics]

structure StoredFrom (b : Broker) (cfg : TopicConfig) (env : Envelope)
    (c : PublishContext) (m : Envelope) : Prop where
  topic : m.topic = env.topic
  routingKey : m.routingKey = env.routingKey
  headers : m.headers = env.headers
  priority : m.priority = env.priority
  ttl : m.ttl = (applyDefaultTTL env cfg.defaultTTL).ttl
  partition : m.partitionID = UInt32.ofNat
    (b.topics.resolvePartition env.topic env.routingKey cfg.partitions).2
  payload : exists t, b.runTransform cfg
    (applyDefaultTTL env cfg.defaultTTL) c = .ok (some t) ∧
      m.payload = t.payload

variable {b : Broker} {cfg : TopicConfig} {env : Envelope}

theorem runTransform_payloadOnly {env' : Envelope} {c : PipelineContext}
    (h : b.runTransform cfg env c.toPublishContext = .ok (some env')) :
    env' = { env with payload := env'.payload } := by
  unfold runTransform at h
  split at h
  · split at h
    · cases h
    · rename_i transformed htransform
      cases h
      exact c.payloadOnly env env' htransform
  · cases h
    rfl

theorem storedFrom_of_outcome {m : Envelope} {c : PipelineContext}
    {offset : Nat} (htopic : b.topics.getTopic env.topic = some cfg)
    (h : b.outcome env c.toPublishContext = some (offset, m)) :
    b.StoredFrom cfg env c.toPublishContext m := by
  unfold outcome at h
  split at h
  · rename_i topicCfg m' _ haccepted
    cases h
    unfold accepted at haccepted
    rw [htopic] at haccepted
    simp only at haccepted
    split at haccepted
    · cases haccepted
    · cases haccepted
    rename_i t ht
    cases haccepted
    have hsame := runTransform_payloadOnly ht
    have hdefault : applyDefaultTTL env cfg.defaultTTL =
        { env with ttl := (applyDefaultTTL env cfg.defaultTTL).ttl } := by
      unfold applyDefaultTTL
      split
      · rfl
      · rfl
    rw [hdefault] at hsame
    constructor
    · rw [hsame]
      rfl
    · rw [hsame]
      rfl
    · rw [hsame]
      rfl
    · rw [hsame]
      rfl
    · rw [hsame]
      rfl
    · rw [hsame]
      rfl
    · exact ⟨t, ht, rfl⟩
  · cases h

theorem dedup_event (b : Broker) (e : ReplicationEvent) (c : CheckContext) :
    b.dedup e.envelope c = (b, false) := by
  have hnone : extractProducerInfo e.envelope = none := rfl
  unfold dedup
  rw [hnone]
  split
  · rename_i hsome
    cases hsome
  · rfl

theorem place_not_answered {b' : Broker} {c : PublishContext}
    {result : PublishResult} (hnow : ¬ Delayed cfg env c) :
    b.place cfg env c ≠ (b', .answer (.ok result)) := by
  intro h
  unfold place at h
  simp only at h
  split at h
  · rename_i hdelayed
    exact hnow hdelayed
  split at h
  · cases (Prod.mk.inj h).right
  · split at h
    · cases (Prod.mk.inj h).right
    · cases (Prod.mk.inj h).right

theorem prepareNew_not_answered {b' : Broker} {t : Envelope}
    {c : PublishContext} {result : PublishResult}
    (htransform : b.runTransform cfg (applyDefaultTTL env cfg.defaultTTL) c =
      .ok (some t)) (hnow : ¬ Delayed cfg t c) :
    b.prepareNew cfg env c ≠ (b', .answer (.ok result)) := by
  intro h
  have hflow := b.checkFlow_settings env c
  unfold prepareNew at h
  cases hf : b.checkFlow env c with
  | mk b₁ err₁ =>
    rw [hf] at h hflow
    cases err₁ with
    | some err => cases (Prod.mk.inj h).right
    | none =>
    have htenant := b₁.checkTenant_settings env c
    simp only at h
    cases ht : b₁.checkTenant env c with
    | mk b₂ err₂ =>
      rw [ht] at h htenant
      cases err₂ with
      | some err => cases (Prod.mk.inj h).right
      | none =>
      have hsame : b₂.runTransform cfg
          (applyDefaultTTL env cfg.defaultTTL) c =
            .ok (some t) := by
        unfold runTransform at htransform ⊢
        rw [(hflow.trans htenant).wasmRT]
        exact htransform
      simp only [hsame] at h
      split at h
      · cases (Prod.mk.inj h).right
      · exact place_not_answered hnow h

theorem outcome_event {e : ReplicationEvent} {t : Envelope}
    {c : PipelineContext} {result : PublishResult}
    (htopic : b.topics.getTopic e.topic = some cfg)
    (htransform : b.runTransform cfg
      (applyDefaultTTL e.envelope cfg.defaultTTL) c.toPublishContext =
        .ok (some t))
    (hresult : (b.publish e.envelope c.toPublishContext).2 = .ok result) :
    exists offset m,
      b.outcome e.envelope c.toPublishContext = some (offset, m) := by
  have hdeliverAt : t.deliverAt = 0 := by
    rw [runTransform_payloadOnly htransform]
    change (applyDefaultTTL e.envelope cfg.defaultTTL).deliverAt = 0
    unfold applyDefaultTTL
    split
    · rfl
    · rfl
  have hnow : ¬ Delayed cfg t c.toPublishContext := by
    intro hdelayed
    have hlater := hdelayed.left
    rw [hdeliverAt] at hlater
    exact absurd hlater (by decide)
  have hstored : exists offset, result = .stored offset := by
    unfold publish prepare at hresult
    split at hresult
    · rename_i b' answer hprepare
      split at hprepare
      · cases hprepare
        cases hresult
      rw [show b.topics.getTopic e.envelope.topic = some cfg from htopic,
        dedup_event] at hprepare
      simp only at hprepare hresult
      rw [hresult] at hprepare
      exact absurd hprepare (prepareNew_not_answered htransform hnow)
    · unfold appendHot at hresult
      split at hresult
      · cases hresult
      · exact ⟨_, (Except.ok.inj hresult).symm⟩
  rcases hstored with ⟨offset, hoffset⟩
  have haccepted : exists m, b.accepted e.envelope c.toPublishContext =
      some (cfg, m) := by
    unfold accepted
    rw [show b.topics.getTopic e.envelope.topic = some cfg from htopic]
    simp only [htransform]
    exact ⟨_, rfl⟩
  rcases haccepted with ⟨m, hm⟩
  exists offset, identify m c.toPublishContext
  unfold outcome
  rw [hresult, hoffset, hm]

end Broker
end ChimeraMQ
