import ChimeraMQ.Broker.Publish
import ChimeraMQ.Storage.EngineLog

/-!
# A node that crashes and starts again

The broker with what it keeps on disk.  Of every file a part is durable, and a
crash may discard what comes after it.  The write-ahead log is synced at every
append, a segment when it is frozen, and the topic metadata never.
-/

namespace ChimeraMQ
namespace Broker

open Foundation
open Message
open Storage

/-!
## Starting
-/

/-- The configuration, with what is set up from it when the broker starts. -/
structure Settings where
  maxMessageSize : Int
  maxTopics : Int
  maxPartitionsPerTopic : Nat
  segmentSize : Nat
  walMaxSize : Nat
  deduper : Option Deduper
  flowCtrl : Option FlowController
  tenantMgr : Option TenantManager
  schemaEnf : Bool
  wasmRT : Bool
  encryptor : Bool

/--
The file with the topics.  A proper part of it is not a JSON value, so that it
is either read whole or not at all.
-/
inductive MetaFile where
  | missing
  | torn
  | written (topics : List TopicConfig)
deriving DecidableEq

structure StartContext where
  now : Nat
  order : MapOrder (Bytes × TopicConfig)

inductive StartError where
  | openWAL (err : OpenError)
  | loadMetadata
  | initPartition (err : SegmentError)

def loadMetadata : MetaFile -> Except StartError (List (Bytes × TopicConfig))
  | .missing => .ok []
  | .torn => .error .loadMetadata
  | .written topics =>
    .ok (topics.foldl (fun m t => setEntry t.name t m) [])

def initPartitions (topic : Bytes) (now : Nat) :
    HotEngine -> List Nat -> HotEngine × Except SegmentError Unit
  | e, [] => (e, .ok ())
  | e, i :: rest =>
    match e.getOrCreatePartition (topic, i) now with
    | .error err => (e, .error err)
    | .ok (e, _) => initPartitions topic now e rest

def initTopics (now : Nat) :
    HotEngine -> List (Bytes × TopicConfig) -> Except StartError HotEngine
  | e, [] => .ok e
  | e, t :: rest =>
    match initPartitions t.2.name now e (List.range t.2.partitions) with
    | (_, .error err) => .error (.initPartition err)
    | (e, .ok ()) => initTopics now e rest

def newTopicManager (s : Settings) (metaFile : MetaFile) (storage : HotEngine)
    (c : StartContext) : Except StartError (TopicManager × HotEngine) :=
  match loadMetadata metaFile with
  | .error err => .error err
  | .ok topics =>
  match initTopics c.now storage (c.order.order topics) with
  | .error err => .error err
  | .ok storage =>
  .ok ({ topics := topics
         rrCounters := []
         maxTopics := s.maxTopics
         maxPartitionsPerTopic := s.maxPartitionsPerTopic }, storage)

/--
Start the broker on what is on disk.  The entries of the write-ahead log are
not read.
-/
def start (s : Settings) (metaFile : MetaFile) (walDir : Disk)
    (dirs : List (PartitionKey × Disk)) (c : StartContext) :
    Except StartError Broker :=
  match WAL.newWAL walDir s.walMaxSize .immediate with
  | .error err => .error (.openWAL err)
  | .ok wal =>
  match newTopicManager s metaFile (HotEngine.newEngine s.segmentSize dirs)
    c with
  | .error err => .error err
  | .ok (topics, storage) =>
    .ok
      { maxMessageSize := s.maxMessageSize
        topics := topics
        deduper := s.deduper
        flowCtrl := s.flowCtrl
        tenantMgr := s.tenantMgr
        schemaEnf := s.schemaEnf
        wasmRT := s.wasmRT
        encryptor := s.encryptor
        wal := wal
        storage := storage }

/-!
## Creating topics
-/

structure CreateContext where
  now : Nat
  marshalled : Bytes
  order : MapOrder (Bytes × TopicConfig)

inductive CreateError where
  | topic (err : TopicError)
  | storage (err : SegmentError)

def saveMetadata (topics : List (Bytes × TopicConfig)) (c : CreateContext) :
    MetaFile :=
  .written ((c.order.order topics).map
    (fun t => { t.2 with transformPipeline := false }))

def createPartitions (b : Broker) (cfg : TopicConfig) (c : CreateContext)
    (count : Nat) : Broker × Except SegmentError Unit :=
  let wal := (b.wal.append entryTopicMeta c.marshalled c.now).1
  let r := initPartitions cfg.name c.now b.storage (List.range count)
  ({ b with wal := wal, storage := r.1 }, r.2)

def createTopic (b : Broker) (metaFile : MetaFile) (cfg : TopicConfig)
    (c : CreateContext) : Broker × MetaFile × Except CreateError Unit :=
  match b.topics.validate cfg with
  | .error err => (b, metaFile, .error (.topic err))
  | .ok () =>
  match b.createPartitions cfg c cfg.partitions with
  | (b, .error err) => (b, metaFile, .error (.storage err))
  | (b, .ok ()) =>
    let topics := setEntry cfg.name cfg b.topics.topics
    ({ b with topics := { b.topics with topics := topics } },
      saveMetadata topics c, .ok ())

/-!
## The node
-/

/-- A message whose publish has returned an offset, as it was stored. -/
structure Ack where
  key : PartitionKey
  offset : Nat
  data : Bytes

/--
The broker, unless it could not start, and what is on disk: the topics and the
durable length of every segment file.
-/
structure Node where
  settings : Settings
  broker : Option Broker
  metaFile : MetaFile
  metaSynced : Bool
  synced : PartitionKey -> Nat -> Nat
  acked : List Ack

/-- The durable lengths after an append, which syncs a segment it freezes. -/
def syncAppend (e : HotEngine) (key : PartitionKey) (data : Bytes) (now : Nat)
    (synced : PartitionKey -> Nat -> Nat) : PartitionKey -> Nat -> Nat :=
  match e.getOrCreatePartition key now with
  | .error _ => synced
  | .ok (_, p) =>
  match p.appendActive data with
  | .error .segmentFull =>
    Function.update synced key
      (Function.update (synced key) p.active.file
        (p.content p.active).length)
  | _ => synced

/-- What a crash leaves: the lengths of the files, and the file with topics. -/
structure Crash where
  kept : PartitionKey -> Nat -> Nat
  tornMeta : Bool

/-- When a crash strikes: between two calls or within one. -/
inductive Moment where
  | idle
  | creating (cfg : TopicConfig) (c : CreateContext) (count : Nat)
  | logged (env : Envelope) (c : PublishContext)
  | stored (env : Envelope) (c : PublishContext)

inductive Step where
  | createTopic (cfg : TopicConfig) (c : CreateContext)
  | publish (env : Envelope) (c : PublishContext)
  | crash (moment : Moment) (lost : Crash) (c : StartContext)

namespace Node

def boot (s : Settings) (c : StartContext) : Node where
  settings := s
  broker := (Broker.start s .missing Disk.empty [] c).toOption
  metaFile := .missing
  metaSynced := true
  synced := fun _ _ => 0
  acked := []

/-- The node after the part of a call that comes before the crash. -/
def reach (n : Node) (b : Broker) : Moment -> Node × Broker
  | .idle => (n, b)
  | .creating cfg c count =>
    match b.topics.validate cfg with
    | .error _ => (n, b)
    | .ok () => (n, (b.createPartitions cfg c (min count cfg.partitions)).1)
  | .logged env c =>
    match b.prepare env c with
    | (b, .answer _) => (n, b)
    | (b, .record _ data) => (n, b.appendWal data c)
  | .stored env c =>
    match b.prepare env c with
    | (b, .answer _) => (n, b)
    | (b, .record key data) =>
      ({ n with
          synced := syncAppend b.storage key data c.now.toNat n.synced },
        ((b.appendWal data c).appendHot key data c).1)

def Durable (n : Node) (b : Broker) (lost : Crash) : Prop :=
  (lost.tornMeta = true -> n.metaSynced = false) ∧
    forall d, d ∈ b.storage.allDirs -> forall i, i < d.2.files.length ->
      n.synced d.1 i ≤ lost.kept d.1 i

instance (n : Node) (b : Broker) (lost : Crash) :
    Decidable (n.Durable b lost) :=
  inferInstanceAs (Decidable (_ ∧ _))

def restart (n : Node) (b : Broker) (lost : Crash) (c : StartContext) : Node :=
  let dirs := b.storage.crashed lost.kept
  let metaFile := if lost.tornMeta then .torn else n.metaFile
  { n with
    broker := (start n.settings metaFile b.wal.disk dirs c).toOption
    metaFile := metaFile
    metaSynced := true
    synced := fun key i =>
      (((getEntry key dirs).getD Disk.empty).content i).length }

def step (n : Node) (s : Step) : Option Node :=
  match n.broker with
  | none => none
  | some b =>
  match s with
  | .createTopic cfg c =>
    match b.createTopic n.metaFile cfg c with
    | (b, _, .error _) => some { n with broker := some b }
    | (b, metaFile, .ok ()) =>
    some { n with
      broker := some b
      metaFile := metaFile
      metaSynced := false }
  | .publish env c =>
    match b.prepare env c with
    | (b, .answer _) => some { n with broker := some b }
    | (b, .record key data) =>
    let n := { n with
      synced := syncAppend b.storage key data c.now.toNat n.synced }
    match (b.appendWal data c).appendHot key data c with
    | (b, .ok (.stored offset)) =>
      some { n with
        broker := some b
        acked := n.acked ++
          [{ key := key, offset := offset, data := data }] }
    | (b, _) => some { n with broker := some b }
  | .crash moment lost c =>
    let r := n.reach b moment
    if r.1.Durable r.2 lost then some (r.1.restart r.2 lost c) else none

def read (n : Node) (key : PartitionKey) (offset now : Nat) : Option Bytes :=
  match n.broker with
  | none => none
  | some b =>
    match b.storage.getOrCreatePartition key now with
    | .error _ => none
    | .ok (_, p) => (p.read offset).toOption

end Node

end Broker
end ChimeraMQ
