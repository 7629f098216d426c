import ChimeraMQ.Broker.Publish

/-!
# Before anything is written

What the stages of a publish before the write-ahead log leave alone: nothing but
the deduper's memory, the rate limits, the quotas and the counters of the
partitions changes.
-/

namespace ChimeraMQ
namespace Broker

open Foundation
open Message
open Storage

structure SameView (b b' : Broker) : Prop where
  maxMessageSize : b'.maxMessageSize = b.maxMessageSize
  topics : b'.topics.topics = b.topics.topics
  deduper : b'.deduper = b.deduper

namespace SameView

theorem refl (b : Broker) : SameView b b :=
  ⟨rfl, rfl, rfl⟩

theorem trans {b₁ b₂ b₃ : Broker} (h : SameView b₁ b₂) (h' : SameView b₂ b₃) :
    SameView b₁ b₃ :=
  ⟨h'.maxMessageSize.trans h.maxMessageSize, h'.topics.trans h.topics,
    h'.deduper.trans h.deduper⟩

theorem symm {b b' : Broker} (h : SameView b b') : SameView b' b :=
  ⟨h.maxMessageSize.symm, h.topics.symm, h.deduper.symm⟩

theorem oversized_iff {b b' : Broker} (h : SameView b b') (env : Envelope) :
    b'.Oversized env ↔ b.Oversized env := by
  unfold Oversized
  rw [h.maxMessageSize]

theorem getTopic {b b' : Broker} (h : SameView b b') (name : Bytes) :
    b'.topics.getTopic name = b.topics.getTopic name := by
  unfold TopicManager.getTopic
  rw [h.topics]

end SameView

structure Untouched (b b' : Broker) : Prop extends SameView b b' where
  wal : b'.wal = b.wal
  storage : b'.storage = b.storage

theorem Untouched.refl (b : Broker) : Untouched b b :=
  ⟨SameView.refl b, rfl, rfl⟩

theorem Untouched.trans {b₁ b₂ b₃ : Broker} (h : Untouched b₁ b₂)
    (h' : Untouched b₂ b₃) : Untouched b₁ b₃ :=
  ⟨h.toSameView.trans h'.toSameView, h'.wal.trans h.wal,
    h'.storage.trans h.storage⟩

/-!
## The stages after the deduper
-/

theorem checkFlow_untouched (b : Broker) (env : Envelope) (c : PublishContext) :
    Untouched b (b.checkFlow env c).1 := by
  unfold checkFlow
  cases b.flowCtrl with
  | none => exact Untouched.refl b
  | some f => exact ⟨⟨rfl, rfl, rfl⟩, rfl, rfl⟩

theorem checkTenant_untouched (b : Broker) (env : Envelope)
    (c : PublishContext) : Untouched b (b.checkTenant env c).1 := by
  unfold checkTenant
  cases b.tenantMgr with
  | none => exact Untouched.refl b
  | some m =>
  cases hget : m.getTenant env.topic c.tenants with
  | none =>
    simp only [hget]
    exact Untouched.refl b
  | some t =>
  simp only [hget]
  exact ⟨⟨rfl, rfl, rfl⟩, rfl, rfl⟩

theorem resolvePartition_topics (tm : TopicManager) (topic routingKey : Bytes)
    (count : Nat) :
    (tm.resolvePartition topic routingKey count).1.topics = tm.topics := by
  unfold TopicManager.resolvePartition
  split
  · rfl
  · rfl

theorem place_spec (b : Broker) (topicCfg : TopicConfig) (env : Envelope)
    (c : PublishContext) :
    Untouched b (b.place topicCfg env c).1 ∧
      (b.place topicCfg env c).2 ≠ .answer (.ok .duplicate) := by
  have hview : Untouched b { b with
      topics := (b.topics.resolvePartition env.topic env.routingKey
        topicCfg.partitions).1 } :=
    ⟨⟨rfl, resolvePartition_topics _ _ _ _, rfl⟩, rfl, rfl⟩
  unfold place
  simp only
  split
  · refine ⟨hview, ?_⟩
    intro h
    cases h
  split
  · refine ⟨hview, ?_⟩
    intro h
    cases h
  · split
    · exact ⟨hview, fun h => nomatch h⟩
    · exact ⟨hview, fun h => nomatch h⟩

theorem prepareNew_spec (b : Broker) (topicCfg : TopicConfig) (env : Envelope)
    (c : PublishContext) :
    Untouched b (b.prepareNew topicCfg env c).1 ∧
      (b.prepareNew topicCfg env c).2 ≠ .answer (.ok .duplicate) := by
  have hflow := b.checkFlow_untouched env c
  unfold prepareNew
  cases hf : b.checkFlow env c with
  | mk b₁ err₁ =>
    rw [hf] at hflow
    cases err₁ with
    | some err =>
      refine ⟨hflow, ?_⟩
      intro h
      cases h
    | none =>
    have htenant := b₁.checkTenant_untouched env c
    simp only
    cases ht : b₁.checkTenant env c with
    | mk b₂ err₂ =>
      rw [ht] at htenant
      have hview : Untouched b b₂ := hflow.trans htenant
      cases err₂ with
      | some err =>
        refine ⟨hview, ?_⟩
        intro h
        cases h
      | none =>
      simp only
      split
      · refine ⟨hview, ?_⟩
        intro h
        cases h
      split
      · refine ⟨hview, ?_⟩
        intro h
        cases h
      · refine ⟨hview, ?_⟩
        intro h
        cases h
      · have hplace := b₂.place_spec topicCfg ‹_› c
        exact ⟨hview.trans hplace.left, hplace.right⟩

/-!
## All stages
-/

theorem dedup_files (b : Broker) (env : Envelope) (c : CheckContext) :
    (b.dedup env c).1.wal = b.wal ∧ (b.dedup env c).1.storage = b.storage := by
  unfold dedup
  split
  · exact ⟨rfl, rfl⟩
  · exact ⟨rfl, rfl⟩

theorem prepare_files (b : Broker) (env : Envelope) (c : PublishContext) :
    (b.prepare env c).1.wal = b.wal ∧
      (b.prepare env c).1.storage = b.storage := by
  unfold prepare
  split
  · exact ⟨rfl, rfl⟩
  cases b.topics.getTopic env.topic with
  | none => exact ⟨rfl, rfl⟩
  | some topicCfg =>
  have hfiles := b.dedup_files env c.check
  simp only
  cases hdedup : b.dedup env c.check with
  | mk b₁ duplicate =>
    rw [hdedup] at hfiles
    cases duplicate with
    | true => exact hfiles
    | false =>
    have hnew := (b₁.prepareNew_spec topicCfg env c).left
    exact ⟨hnew.wal.trans hfiles.left,
      hnew.storage.trans hfiles.right⟩

/-!
## What is published
-/

/-- The limits and the schema of the topic let a message pass. -/
structure Passes (b : Broker) (topicCfg : TopicConfig) (env : Envelope)
    (c : PublishContext) : Prop where
  flow : (b.checkFlow env c).2 = none
  tenant : (b.checkTenant env c).2 = none
  schema : b.enforceSchema topicCfg env c = none

/-- The message is scheduled, or serialized and appended to its partition. -/
def Places (b : Broker) (topicCfg : TopicConfig) (env : Envelope)
    (c : PublishContext) : Prop :=
  let partID := (b.topics.resolvePartition env.topic env.routingKey
    topicCfg.partitions).2
  let env := { env with partitionID := UInt32.ofNat partID }
  Delayed topicCfg env c ∨
    exists data, b.serialize (identify env c) c = .ok data ∧
      c.walError = none ∧ exists offset,
        (b.storage.append (env.topic, partID) data c.now.toNat).2 = .ok offset

/-- The pipeline filters the message or leaves one that can be placed. -/
def Transforms (b : Broker) (topicCfg : TopicConfig) (env : Envelope)
    (c : PublishContext) : Prop :=
  exists transformed,
    b.runTransform topicCfg (applyDefaultTTL env topicCfg.defaultTTL) c =
        .ok transformed ∧
      forall env', transformed = some env' -> b.Places topicCfg env' c

/-- The topic is known, and nothing stands against the message. -/
def Publishable (b : Broker) (env : Envelope) (c : PublishContext) : Prop :=
  ¬ b.Oversized env ∧ exists topicCfg,
    b.topics.getTopic env.topic = some topicCfg ∧
      ((b.dedup env c.check).2 = true ∨
        b.Passes topicCfg env c ∧ b.Transforms topicCfg env c)

theorem dedup_eq (b : Broker) (env : Envelope) (c : CheckContext) :
    exists deduper, (b.dedup env c).1 = { b with deduper := deduper } := by
  unfold dedup
  split
  · exact ⟨_, rfl⟩
  · exact ⟨b.deduper, rfl⟩

theorem checkFlow_eq (b : Broker) (env : Envelope) (c : PublishContext) :
    exists flowCtrl,
      (b.checkFlow env c).1 = { b with flowCtrl := flowCtrl } := by
  unfold checkFlow
  cases b.flowCtrl with
  | none => exact ⟨b.flowCtrl, rfl⟩
  | some f => exact ⟨_, rfl⟩

theorem checkTenant_eq (b : Broker) (flowCtrl : Option FlowController)
    (env : Envelope) (c : PublishContext) :
    exists tenantMgr,
      checkTenant { b with flowCtrl := flowCtrl } env c =
        ({ b with flowCtrl := flowCtrl, tenantMgr := tenantMgr },
          (b.checkTenant env c).2) := by
  unfold checkTenant
  cases hmgr : b.tenantMgr with
  | none => exact ⟨none, by simp⟩
  | some m =>
  cases hget : m.getTenant env.topic c.tenants with
  | none => exact ⟨some m, by simp [hget]⟩
  | some t => exact ⟨some (m.checkPublishQuota t.id c.now).1, by simp [hget]⟩

def finish (r : Broker × Prepared) (c : PublishContext) :
    Broker × Except PublishError PublishResult :=
  match r with
  | (b, .answer result) => (b, result)
  | (b, .record key data) => (b.appendWal data c).appendHot key data c

theorem finish_place_iff (b : Broker) (topicCfg : TopicConfig) (env : Envelope)
    (c : PublishContext) :
    (exists result, (finish (b.place topicCfg env c) c).2 = .ok result) <->
      b.Places topicCfg env c := by
  unfold place Places
  simp only
  generalize b.topics.resolvePartition env.topic env.routingKey
    topicCfg.partitions = r
  by_cases hdelayed : Delayed topicCfg
      { env with partitionID := UInt32.ofNat r.2 } c
  · rw [if_pos hdelayed]
    exact ⟨fun _ => Or.inl hdelayed, fun _ => ⟨_, rfl⟩⟩
  rw [if_neg hdelayed]
  have hserialize : forall e, { b with topics := r.1 }.serialize e c =
      b.serialize e c := fun _ => rfl
  rw [hserialize]
  cases hdata : b.serialize
      (identify { env with partitionID := UInt32.ofNat r.2 } c) c with
  | error err => simp [finish, hdelayed]
  | ok data =>
  have hstorage : forall d : Bytes,
      ({ b with topics := r.1 }.appendWal d c).storage = b.storage :=
    fun _ => rfl
  cases hwal : c.walError with
  | some err => simp [finish, hdelayed]
  | none =>
  simp only [finish, appendHot, hstorage, hdelayed, false_or, true_and,
    Except.ok.injEq, exists_eq_left']
  rcases b.storage.append (env.topic, r.2) data c.now.toNat with
    ⟨storage, err | offset⟩
  · simp
  · simp

theorem prepareNew_of_passes {b : Broker} {topicCfg : TopicConfig}
    {env : Envelope} {c : PublishContext} (h : b.Passes topicCfg env c) :
    exists flowCtrl tenantMgr,
      let b' := { b with flowCtrl := flowCtrl, tenantMgr := tenantMgr }
      b.prepareNew topicCfg env c =
        match b.runTransform topicCfg
          (applyDefaultTTL env topicCfg.defaultTTL) c with
        | .error err => (b', .answer (.error err))
        | .ok none => (b', .answer (.ok .filtered))
        | .ok (some env) => b'.place topicCfg env c := by
  rcases b.checkFlow_eq env c with ⟨flowCtrl, hflow⟩
  rcases b.checkTenant_eq flowCtrl env c with ⟨tenantMgr, htenant⟩
  have hfirst : b.checkFlow env c = ({ b with flowCtrl := flowCtrl }, none) :=
    Prod.ext hflow h.flow
  have hschema : enforceSchema
      { b with flowCtrl := flowCtrl, tenantMgr := tenantMgr } topicCfg env c =
        none :=
    h.schema
  refine ⟨flowCtrl, tenantMgr, ?_⟩
  unfold prepareNew
  rw [hfirst]
  simp only
  rw [htenant, h.tenant]
  simp only [hschema]
  rfl

theorem prepareNew_of_not_passes {b : Broker} {topicCfg : TopicConfig}
    {env : Envelope} {c : PublishContext} (h : ¬ b.Passes topicCfg env c) :
    exists b' err, b.prepareNew topicCfg env c = (b', .answer (.error err)) := by
  rcases b.checkFlow_eq env c with ⟨flowCtrl, hflow⟩
  rcases b.checkTenant_eq flowCtrl env c with ⟨tenantMgr, htenant⟩
  unfold prepareNew
  cases hfirst : (b.checkFlow env c).2 with
  | some err =>
    rw [show b.checkFlow env c = (_, some err) from Prod.ext rfl hfirst]
    exact ⟨_, err, rfl⟩
  | none =>
  rw [show b.checkFlow env c = (_, none) from Prod.ext hflow hfirst]
  simp only
  rw [htenant]
  cases hsecond : (b.checkTenant env c).2 with
  | some err => exact ⟨_, err, rfl⟩
  | none =>
  cases hschema : b.enforceSchema topicCfg env c with
  | none => exact absurd ⟨hfirst, hsecond, hschema⟩ h
  | some err =>
  have hthird : enforceSchema
      { b with flowCtrl := flowCtrl, tenantMgr := tenantMgr }
        topicCfg env c = some err :=
    hschema
  simp only [hthird]
  exact ⟨_, err, rfl⟩

theorem passes_deduper_iff (b : Broker) (deduper : Option Deduper)
    (topicCfg : TopicConfig) (env : Envelope) (c : PublishContext) :
    Passes { b with deduper := deduper } topicCfg env c <->
      b.Passes topicCfg env c := by
  have hflow : (checkFlow { b with deduper := deduper } env c).2 =
      (b.checkFlow env c).2 := by
    unfold checkFlow
    cases b.flowCtrl with
    | none => rfl
    | some f => rfl
  have htenant : (checkTenant { b with deduper := deduper } env c).2 =
      (b.checkTenant env c).2 := by
    unfold checkTenant
    cases b.tenantMgr with
    | none => rfl
    | some m =>
    cases hget : m.getTenant env.topic c.tenants with
    | none => simp only [hget]
    | some t => simp only [hget]
  constructor
  · intro h
    exact ⟨hflow.symm.trans h.flow, htenant.symm.trans h.tenant, h.schema⟩
  · intro h
    exact ⟨hflow.trans h.flow, htenant.trans h.tenant, h.schema⟩

theorem finish_prepareNew_iff (b : Broker) (topicCfg : TopicConfig)
    (env : Envelope) (c : PublishContext) :
    (exists result, (finish (b.prepareNew topicCfg env c) c).2 = .ok result) <->
      b.Passes topicCfg env c ∧ b.Transforms topicCfg env c := by
  by_cases hpasses : b.Passes topicCfg env c
  · rcases prepareNew_of_passes hpasses with ⟨flowCtrl, tenantMgr, hnew⟩
    rw [hnew]
    unfold Transforms
    cases b.runTransform topicCfg (applyDefaultTTL env topicCfg.defaultTTL)
        c with
    | error err => simp [finish]
    | ok transformed =>
    cases transformed with
    | none => simp [finish, hpasses]
    | some env' =>
    have hplace := finish_place_iff
      { b with flowCtrl := flowCtrl, tenantMgr := tenantMgr } topicCfg
      env' c
    simp only [Except.ok.injEq, exists_eq_left', Option.some.injEq,
      forall_eq', hpasses, true_and]
    exact hplace
  · rcases prepareNew_of_not_passes hpasses with ⟨b', err, hnew⟩
    rw [hnew]
    simp [finish, hpasses]

theorem publish_ok_iff (b : Broker) (env : Envelope) (c : PublishContext) :
    (exists result, (b.publish env c).2 = .ok result) <->
      b.Publishable env c := by
  have hfinish : b.publish env c = finish (b.prepare env c) c := rfl
  rw [hfinish]
  unfold prepare Publishable
  by_cases hsize : b.Oversized env
  · simp [hsize, finish]
  rw [if_neg hsize]
  cases b.topics.getTopic env.topic with
  | none => simp [finish]
  | some topicCfg =>
  simp only [hsize, not_false_eq_true, true_and, Option.some.injEq,
    exists_eq_left']
  rcases b.dedup_eq env c.check with ⟨deduper, hdedup⟩
  cases hduplicate : (b.dedup env c.check).2 with
  | true =>
    rw [show b.dedup env c.check = (_, true) from
      Prod.ext rfl hduplicate]
    simp [finish]
  | false =>
  have hnew := finish_prepareNew_iff { b with deduper := deduper }
    topicCfg env c
  rw [show b.dedup env c.check = (_, false) from
    Prod.ext hdedup hduplicate]
  simp only [Bool.false_eq_true, false_or]
  rw [passes_deduper_iff] at hnew
  exact hnew

end Broker
end ChimeraMQ
