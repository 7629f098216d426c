import ChimeraMQ.Auth.ACL
import ChimeraMQ.Broker.Node
import ChimeraMQ.Queue.Engine
import ChimeraMQ.Stream.Engine

/-!
# The broker behind the protocols

What the handlers of the protocols call: publishing with the dispatch that
follows it, the queue and the stream engine, the topics, and the access control
list.  Metrics, and the notification of fetches that wait, are left out.
-/

namespace ChimeraMQ

open Foundation
open Message
open Storage
open Auth
open Queue
open ChimeraMQ.Stream

/--
The broker with its engines; the topics for dead letters are kept beside the
configurations.
-/
structure Backend where
  broker : Broker
  metaFile : Broker.MetaFile
  dlqTopics : List (Bytes × Bytes)
  queueEngine : QueueEngine
  groups : List (Bytes × ConsumerGroup)
  offsets : OffsetStore
  decryptor : Option Decryptor
  closed : Bool
  aclEngine : Option ACLEngine
  authEnabled : Bool
  maxFetchMessages : Int

namespace Broker

def accepted (b : Broker) (env : Envelope) (c : PublishContext) :
    Option (TopicConfig × Envelope) :=
  match b.topics.getTopic env.topic with
  | none => none
  | some topicCfg =>
  match b.runTransform topicCfg
    (applyDefaultTTL env topicCfg.defaultTTL) c with
  | .error _ => none
  | .ok none => none
  | .ok (some env) =>
    let r := b.topics.resolvePartition env.topic env.routingKey
      topicCfg.partitions
    some (topicCfg, { env with partitionID := UInt32.ofNat r.2 })

structure SameSettings (b b' : Broker) : Prop where
  topics : b'.topics = b.topics
  wasmRT : b'.wasmRT = b.wasmRT
  encryptor : b'.encryptor = b.encryptor

theorem SameSettings.trans {b b' b'' : Broker} (h : SameSettings b b')
    (h' : SameSettings b' b'') : SameSettings b b'' :=
  ⟨h'.topics.trans h.topics, h'.wasmRT.trans h.wasmRT,
    h'.encryptor.trans h.encryptor⟩

theorem dedup_settings (b : Broker) (env : Envelope) (c : CheckContext) :
    SameSettings b (b.dedup env c).1 := by
  unfold dedup
  split
  · exact ⟨rfl, rfl, rfl⟩
  · exact ⟨rfl, rfl, rfl⟩

theorem checkFlow_settings (b : Broker) (env : Envelope)
    (c : PublishContext) : SameSettings b (b.checkFlow env c).1 := by
  unfold checkFlow
  split
  · exact ⟨rfl, rfl, rfl⟩
  · exact ⟨rfl, rfl, rfl⟩

theorem checkTenant_settings (b : Broker) (env : Envelope)
    (c : PublishContext) : SameSettings b (b.checkTenant env c).1 := by
  unfold checkTenant
  split
  · exact ⟨rfl, rfl, rfl⟩
  · split
    · exact ⟨rfl, rfl, rfl⟩
    · exact ⟨rfl, rfl, rfl⟩

def topicMode (mode : Bytes) : TopicMode :=
  if mode = ascii "stream" then .stream
  else if mode = ascii "queue" then .queue
  else .unified

def clientTopic (name mode : Bytes) (partitions : Nat) : TopicConfig where
  name := name
  mode := topicMode mode
  partitions := partitions
  schemaEnforcement := false
  defaultTTL := 0
  transformPipeline := false

def deleteTopic (b : Broker) (metaFile : MetaFile) (name : Bytes)
    (c : CreateContext) : Broker × MetaFile × Bool :=
  match b.topics.getTopic name with
  | none => (b, metaFile, false)
  | some _ =>
  let wal := (b.wal.append entryTopicMeta c.marshalled c.now).1
  let topics := deleteEntry name b.topics.topics
  let rrCounters := deleteEntry name b.topics.rrCounters
  ({ b with
      wal := wal
      topics :=
        { b.topics with topics := topics, rrCounters := rrCounters } },
    saveMetadata topics c, true)

def FlowController.setTopicRateLimit (c : FlowController) (topic : Bytes)
    (perSec now : Int) : FlowController :=
  { c with
    topicLimits := setEntry topic
      (Flow.newRateLimit (Int64.ofInt perSec) (Int64.ofInt now))
      c.topicLimits }

def wireTopicRateLimit (b : Broker) (topic : Bytes)
    (order : MapOrder (Bytes × Tenant)) (now : Int) : Broker :=
  match b.flowCtrl, b.tenantMgr with
  | some f, some m =>
    match m.getTenant topic order with
    | none => b
    | some t =>
    if 0 < t.maxPublishRate then
      { b with
        flowCtrl :=
          some (f.setTopicRateLimit topic t.maxPublishRate now) }
    else b
  | _, _ => b

end Broker

structure RouteContext where
  now : Int
  firstDeathTime : Bytes
  messageID : FixedBytes 16

/-- The message that is published to the topic for dead letters. -/
def route (dlqTopic : Bytes) (original : Envelope) (reason : Bytes)
    (deliverCount : UInt32) (c : RouteContext) : Option Envelope :=
  if dlqTopic = [] then none
  else
    let headers := original.headers.set (ascii "x-chimera-original-topic")
      original.topic
    let headers := headers.set (ascii "x-chimera-death-reason") reason
    let headers := headers.set (ascii "x-chimera-death-count")
      ((Nat.toDigits 10 deliverCount.toNat).map
        (fun ch => UInt8.ofNat ch.toNat))
    let headers := headers.set (ascii "x-chimera-first-death-time")
      c.firstDeathTime
    let headers :=
      if original.routingKey ≠ [] then
        headers.set (ascii "x-chimera-original-routing-key") original.routingKey
      else headers
    some { original with
      headers := headers
      topic := dlqTopic
      messageID := c.messageID
      timestamp := Int64.ofInt c.now }

namespace Backend

def allows (s : Backend) (identity : Option Identity) (rt : ResourceType)
    (name : Bytes) (op : Operation) : Bool :=
  match s.aclEngine with
  | none => true
  | some acl => acl.check identity rt name op

/-!
## Messages
-/

def enqueue (s : Backend) (topicCfg : Broker.TopicConfig) (env : Envelope)
    (c : Broker.PublishContext) : Broker.PublishResult -> Backend
  | .duplicate | .filtered => s
  | .scheduled =>
    { s with queueEngine := s.queueEngine.scheduleDelayed env.topic env }
  | .stored offset =>
    if topicCfg.mode = .queue ∨ topicCfg.mode = .unified then
      let env := { Broker.identify env c with
        sequence := UInt64.ofNat offset }
      { s with
        queueEngine := (s.queueEngine.tryDispatch env.topic
          env.partitionID.toNat offset env c.now).1 }
    else s

def publish (s : Backend) (env : Envelope) (c : Broker.PublishContext) :
    Backend × Except Broker.PublishError Broker.PublishResult :=
  let r := s.broker.publish env c
  match r.2, s.broker.accepted env c with
  | .ok result, some (topicCfg, env) =>
    ({ s with broker := r.1 }.enqueue topicCfg env c result, r.2)
  | _, _ => ({ s with broker := r.1 }, r.2)

/-!
## Topics
-/

def createTopic (s : Backend) (cfg : Broker.TopicConfig)
    (c : Broker.CreateContext) : Backend × Except Broker.CreateError Unit :=
  let r := s.broker.createTopic s.metaFile cfg c
  ({ s with broker := r.1, metaFile := r.2.1 }, r.2.2)

def deleteTopic (s : Backend) (name : Bytes) (c : Broker.CreateContext) :
    Backend × Bool :=
  let r := s.broker.deleteTopic s.metaFile name c
  ({ s with
      broker := r.1
      metaFile := r.2.1
      dlqTopics := if r.2.2 then deleteEntry name s.dlqTopics
        else s.dlqTopics }, r.2.2)

/-!
## Consumer groups and fetches
-/

def streamEngine (s : Backend) : Stream.Engine where
  groups := s.groups
  storage := s.broker.storage
  offsets := s.offsets
  encryptor := s.decryptor
  closed := s.closed

def putStreamEngine (s : Backend) (se : Stream.Engine) : Backend :=
  { s with
    broker := { s.broker with storage := se.storage }
    groups := se.groups
    offsets := se.offsets }

def joinGroup (s : Backend) (groupName topic memberID : Bytes)
    (partitionCount : Nat) (strategy : RebalanceStrategy) (now : Int) :
    Backend :=
  s.putStreamEngine (s.streamEngine.joinGroup groupName topic memberID
    partitionCount strategy now)

def leaveGroup (s : Backend) (groupName memberID : Bytes) : Backend :=
  s.putStreamEngine (s.streamEngine.leaveGroup groupName memberID)

def getOrCreatePartition (s : Backend) (key : PartitionKey) (now : Nat) :
    Backend × Except SegmentError Partition :=
  match s.broker.storage.getOrCreatePartition key now with
  | .error err => (s, .error err)
  | .ok (storage, part) =>
    ({ s with broker := { s.broker with storage := storage } }, .ok part)

def commitOffset (s : Backend) (groupName : Bytes) (partitionID offset : Nat)
    (now : Nat) : Backend × Option GroupNameError :=
  let topic :=
    match s.streamEngine.getGroup groupName with
    | none => []
    | some cg => cg.topic
  let r := s.streamEngine.commitOffset groupName partitionID offset
  let s := s.putStreamEngine r.1
  if r.2 = none ∧ topic ≠ [] then
    ((s.getOrCreatePartition (topic, partitionID) now).1, r.2)
  else (s, r.2)

def fetch (s : Backend) (topic : Bytes) (partitionID fromOffset : Nat)
    (maxMessages : Int) (c : Stream.Engine.FetchContext) :
    Backend × Except Stream.Engine.FetchError (List Envelope × Nat) :=
  let r := s.streamEngine.fetch topic partitionID fromOffset maxMessages c
  (s.putStreamEngine r.1, r.2)

/-!
## Acknowledgements
-/

def handleAck (s : Backend) (topic : Bytes) (offset : Nat) : Backend × Bool :=
  let r := s.queueEngine.handleAck topic offset
  ({ s with queueEngine := r.1 }, r.2)

def handleNack (s : Backend) (topic : Bytes) (offset : Nat) :
    Backend × Bool × Nat :=
  let r := s.queueEngine.handleNack topic offset
  ({ s with queueEngine := r.1 }, r.2)

def Pending (s : Backend) (topic : Bytes) (offset : Nat) : Prop :=
  match s.queueEngine.queue? topic with
  | none => False
  | some q => getEntry offset q.ackTracker.pending ≠ none

instance (s : Backend) (topic : Bytes) (offset : Nat) :
    Decidable (s.Pending topic offset) := by
  unfold Pending
  cases s.queueEngine.queue? topic with
  | none => exact isFalse id
  | some q => exact inferInstanceAs (Decidable (_ ≠ _))

variable {s : Backend}

theorem handleAck_of_not_pending {topic : Bytes} {offset : Nat}
    (h : ¬ s.Pending topic offset) : (s.handleAck topic offset).1 = s := by
  unfold Pending at h
  unfold handleAck QueueEngine.handleAck
  cases hq : s.queueEngine.queue? topic with
  | none => rfl
  | some q =>
  rw [hq] at h
  have hnone := not_not.mp h
  have hsame : setEntry topic q s.queueEngine.queues =
      s.queueEngine.queues := setEntry_of_getEntry hq
  simp only [AckTracker.ack, hnone, QueueEngine.putQueue, hsame]

theorem handleNack_of_not_pending {topic : Bytes} {offset : Nat}
    (h : ¬ s.Pending topic offset) :
    s.handleNack topic offset = (s, false, 0) := by
  unfold Pending at h
  unfold handleNack QueueEngine.handleNack
  cases hq : s.queueEngine.queue? topic with
  | none => rfl
  | some q =>
  rw [hq] at h
  have hnone := not_not.mp h
  have hsame : setEntry topic q s.queueEngine.queues =
      s.queueEngine.queues := setEntry_of_getEntry hq
  simp only [AckTracker.nack, hnone, QueueEngine.putQueue, hsame]

theorem pending_putQueue {topic : Bytes} {offset : Nat} {q : QueueState}
    (hq : s.queueEngine.queue? topic = some q) {tracker : AckTracker}
    (htracker : tracker.pending = deleteEntry offset q.ackTracker.pending)
    (other : Nat) :
    Pending { s with
        queueEngine := s.queueEngine.putQueue topic
          { q with ackTracker := tracker } } topic other <->
      s.Pending topic other ∧ other ≠ offset := by
  have hput : (s.queueEngine.putQueue topic
      { q with ackTracker := tracker }).queue? topic =
      some { q with ackTracker := tracker } := getEntry_setEntry _ _ _
  unfold Pending
  simp only [hput, hq, htracker]
  by_cases hsame : other = offset
  · rw [hsame, getEntry_deleteEntry]
    exact ⟨fun h => absurd rfl h, fun h => absurd rfl h.right⟩
  · rw [getEntry_deleteEntry_ne hsame]
    exact ⟨fun h => ⟨h, hsame⟩, fun h => h.left⟩

theorem pending_handleAck (s : Backend) (topic : Bytes) (offset other : Nat) :
    (s.handleAck topic offset).1.Pending topic other <->
      s.Pending topic other ∧ other ≠ offset := by
  unfold handleAck QueueEngine.handleAck
  cases hq : s.queueEngine.queue? topic with
  | none =>
    have hnone : ¬ s.Pending topic other := by
      unfold Pending
      rw [hq]
      exact id
    exact ⟨fun h => absurd h hnone, fun h => absurd h.left hnone⟩
  | some q => exact pending_putQueue hq (AckTracker.pending_ack _ _) other

theorem commitOffset_of_no_group {groupName : Bytes}
    (h : getEntry groupName s.groups = none) (partitionID offset now : Nat) :
    s.commitOffset groupName partitionID offset now = (s, none) := by
  have hgroup : s.streamEngine.getGroup groupName = none := h
  unfold commitOffset Stream.Engine.commitOffset
  simp only [hgroup]
  rfl

@[simp] theorem aclEngine_enqueue (s : Backend) (topicCfg : Broker.TopicConfig)
    (env : Envelope) (c : Broker.PublishContext)
    (result : Broker.PublishResult) :
    (s.enqueue topicCfg env c result).aclEngine = s.aclEngine := by
  cases result with
  | duplicate => rfl
  | filtered => rfl
  | scheduled => rfl
  | stored offset =>
  unfold enqueue
  simp only
  split
  · rfl
  · rfl

@[simp] theorem aclEngine_publish (s : Backend) (env : Envelope)
    (c : Broker.PublishContext) :
    (s.publish env c).1.aclEngine = s.aclEngine := by
  unfold publish
  simp only
  split
  · exact aclEngine_enqueue _ _ _ _ _
  · rfl

end Backend

end ChimeraMQ
