import ChimeraMQ.Broker.Admission
import ChimeraMQ.Broker.Deduper
import ChimeraMQ.Broker.Topic
import ChimeraMQ.Message.Envelope
import ChimeraMQ.Storage.Engine
import ChimeraMQ.Storage.Wal

/-!
# Publishing

The way of a message from a client into the log of a partition.  What the
schema registry, the transform pipeline and the encryption answer is part of
the context of a call, and so is the error of a write-ahead log that cannot take
the message; the notification of consumers, the metrics and the
replication to other sites, which come last and decide nothing, are left out.
-/

namespace ChimeraMQ

open Foundation
open Message
open Storage

structure Broker where
  maxMessageSize : Int
  topics : Broker.TopicManager
  deduper : Option Broker.Deduper
  flowCtrl : Option Broker.FlowController
  tenantMgr : Option Broker.TenantManager
  schemaEnf : Bool
  wasmRT : Bool
  encryptor : Bool
  wal : WAL
  storage : HotEngine

namespace Broker

def entryMessage : UInt8 := 1

def entryTopicMeta : UInt8 := 2

structure ValidationResult where
  valid : Bool
  errors : List Bytes

structure PublishContext where
  now : Int
  check : CheckContext
  tenants : MapOrder (Bytes × Tenant)
  validate : UInt32 -> Bytes -> Except Bytes ValidationResult
  transform : Envelope -> Except Bytes (Option Envelope)
  messageID : FixedBytes 16
  encrypt : Bytes -> Bytes -> Except Bytes Bytes
  walError : Option Bytes

inductive PublishError where
  | messageTooLarge (size : Nat) (maxSize : Int)
  | topicNotFound (topic : Bytes)
  | rateLimited (topic : Bytes)
  | tenantRateExceeded (tenantID : Bytes)
  | noSchemaID (topic : Bytes)
  | schemaValidation (err : Bytes)
  | schemaInvalid (errors : List Bytes)
  | transform (err : Bytes)
  | marshal (err : MarshalError)
  | encrypt (err : Bytes)
  | wal (err : Bytes)
  | storage (err : SegmentError)
deriving DecidableEq

/-- What becomes of a message that is accepted; only one that is stored gets
an offset, and the others are answered with zero. -/
inductive PublishResult where
  | duplicate
  | filtered
  | scheduled
  | stored (offset : Nat)
deriving DecidableEq

/-- A decimal number below a power of two. -/
def parseUint (b : Bytes) (bits : Nat) : Option Nat :=
  parseDecimal (2 ^ bits) (b.map (fun x => Char.ofNat x.toNat))

def producerIDHeader : Bytes :=
  "x-chimera-producer-id".toList.map (fun c => UInt8.ofNat c.toNat)

def producerSeqHeader : Bytes :=
  "x-chimera-producer-seq".toList.map (fun c => UInt8.ofNat c.toNat)

def schemaIDHeader : Bytes :=
  "x-chimera-schema-id".toList.map (fun c => UInt8.ofNat c.toNat)

def parseSchemaIDFromHeaders (env : Envelope) : Option UInt32 :=
  match env.headers.get schemaIDHeader with
  | none => none
  | some v => (parseUint v 32).map UInt32.ofNat

def extractProducerInfo (env : Envelope) : Option (Bytes × Nat) :=
  match env.headers.get producerIDHeader with
  | none | some [] => none
  | some pid =>
    match env.headers.get producerSeqHeader with
    | none | some [] => none
    | some seq => (parseUint seq 64).map (fun n => (pid, n))

/-- Give a message without a time to live the one of its topic. -/
def applyDefaultTTL (env : Envelope) (defaultTTL : Int64) : Envelope :=
  if env.ttl = 0 ∧ defaultTTL > 0 then { env with ttl := defaultTTL } else env

/-!
## The stages
-/

def Oversized (b : Broker) (env : Envelope) : Prop :=
  0 < b.maxMessageSize ∧ b.maxMessageSize < env.payload.length

instance (b : Broker) (env : Envelope) : Decidable (b.Oversized env) :=
  inferInstanceAs (Decidable (_ ∧ _))

def dedup (b : Broker) (env : Envelope) (c : CheckContext) : Broker × Bool :=
  match b.deduper, extractProducerInfo env with
  | some d, some (pid, seq) =>
    let r := d.isDuplicate pid seq c
    ({ b with deduper := some r.1 }, r.2)
  | _, _ => (b, false)

def checkFlow (b : Broker) (env : Envelope) (c : PublishContext) :
    Broker × Option PublishError :=
  match b.flowCtrl with
  | none => (b, none)
  | some f =>
    let r := f.allowPublish env.topic (Int64.ofInt c.now)
    ({ b with flowCtrl := some r.1 },
      if r.2 then none else some (.rateLimited env.topic))

def checkTenant (b : Broker) (env : Envelope) (c : PublishContext) :
    Broker × Option PublishError :=
  match b.tenantMgr with
  | none => (b, none)
  | some m =>
  match m.getTenant env.topic c.tenants with
  | none => (b, none)
  | some t =>
    let r := m.checkPublishQuota t.id c.now
    ({ b with tenantMgr := some r.1 },
      if r.2 then none else some (.tenantRateExceeded t.id))

def enforceSchema (b : Broker) (topicCfg : TopicConfig) (env : Envelope)
    (c : PublishContext) : Option PublishError :=
  if b.schemaEnf ∧ topicCfg.schemaEnforcement then
    let schemaID := (parseSchemaIDFromHeaders env).getD 0
    if schemaID = 0 then some (.noSchemaID env.topic)
    else
      match c.validate schemaID env.payload with
      | .error err => some (.schemaValidation err)
      | .ok result =>
        if result.valid then none else some (.schemaInvalid result.errors)
  else none

def runTransform (b : Broker) (topicCfg : TopicConfig) (env : Envelope)
    (c : PublishContext) : Except PublishError (Option Envelope) :=
  if b.wasmRT ∧ topicCfg.transformPipeline then
    match c.transform env with
    | .error err => .error (.transform err)
    | .ok transformed => .ok transformed
  else .ok (some env)

def serialize (b : Broker) (env : Envelope) (c : PublishContext) :
    Except PublishError Bytes :=
  match marshal env with
  | .error err => .error (.marshal err)
  | .ok data =>
  if b.encryptor then
    match c.encrypt data (env.topic ++ ("/".toList ++
        Nat.toDigits 10 env.partitionID.toNat).map
          (fun ch => UInt8.ofNat ch.toNat)) with
    | .error err => .error (.encrypt err)
    | .ok encrypted => .ok encrypted
  else .ok data

/-- Write the message to the write-ahead log. -/
def appendWal (b : Broker) (data : Bytes) (c : PublishContext) : Broker :=
  { b with wal := (b.wal.append entryMessage data c.now.toNat).1 }

def appendHot (b : Broker) (key : PartitionKey) (data : Bytes)
    (c : PublishContext) : Broker × Except PublishError PublishResult :=
  match b.storage.append key data c.now.toNat with
  | (storage, .error err) => ({ b with storage := storage }, .error (.storage err))
  | (storage, .ok offset) => ({ b with storage := storage }, .ok (.stored offset))

def Delayed (topicCfg : TopicConfig) (env : Envelope) (c : PublishContext) :
    Prop :=
  env.deliverAt > 0 ∧ c.now < env.deliverAt.toInt ∧
    (topicCfg.mode = .queue ∨ topicCfg.mode = .unified)

instance (topicCfg : TopicConfig) (env : Envelope) (c : PublishContext) :
    Decidable (Delayed topicCfg env c) :=
  inferInstanceAs (Decidable (_ ∧ _ ∧ _))

def identify (env : Envelope) (c : PublishContext) : Envelope :=
  { env with
    messageID := c.messageID
    timestamp := if env.timestamp = 0 then Int64.ofInt c.now else env.timestamp }

/-- What is left to do for a message: to answer, or to store its bytes. -/
inductive Prepared where
  | answer (result : Except PublishError PublishResult)
  | record (key : PartitionKey) (data : Bytes)

def place (b : Broker) (topicCfg : TopicConfig) (env : Envelope)
    (c : PublishContext) : Broker × Prepared :=
  let r := b.topics.resolvePartition env.topic env.routingKey
    topicCfg.partitions
  let b := { b with topics := r.1 }
  let env := { env with partitionID := UInt32.ofNat r.2 }
  if Delayed topicCfg env c then (b, .answer (.ok .scheduled))
  else
    match b.serialize (identify env c) c with
    | .error err => (b, .answer (.error err))
    | .ok data =>
      match c.walError with
      | some err => (b, .answer (.error (.wal err)))
      | none => (b, .record (env.topic, r.2) data)

def prepareNew (b : Broker) (topicCfg : TopicConfig) (env : Envelope)
    (c : PublishContext) : Broker × Prepared :=
  match b.checkFlow env c with
  | (b, some err) => (b, .answer (.error err))
  | (b, none) =>
  match b.checkTenant env c with
  | (b, some err) => (b, .answer (.error err))
  | (b, none) =>
  match b.enforceSchema topicCfg env c with
  | some err => (b, .answer (.error err))
  | none =>
  match b.runTransform topicCfg
    (applyDefaultTTL env topicCfg.defaultTTL) c with
  | .error err => (b, .answer (.error err))
  | .ok none => (b, .answer (.ok .filtered))
  | .ok (some env) => b.place topicCfg env c

def prepare (b : Broker) (env : Envelope) (c : PublishContext) :
    Broker × Prepared :=
  if b.Oversized env then
    (b, .answer
      (.error (.messageTooLarge env.payload.length b.maxMessageSize)))
  else
    match b.topics.getTopic env.topic with
    | none => (b, .answer (.error (.topicNotFound env.topic)))
    | some topicCfg =>
      match b.dedup env c.check with
      | (b, true) => (b, .answer (.ok .duplicate))
      | (b, false) => b.prepareNew topicCfg env c

def publish (b : Broker) (env : Envelope) (c : PublishContext) :
    Broker × Except PublishError PublishResult :=
  match b.prepare env c with
  | (b, .answer result) => (b, result)
  | (b, .record key data) => (b.appendWal data c).appendHot key data c

end Broker
end ChimeraMQ
