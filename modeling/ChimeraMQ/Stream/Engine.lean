import ChimeraMQ.Message.Envelope
import ChimeraMQ.Storage.Engine
import ChimeraMQ.Stream.ConsumerGroup

/-!
# The stream engine

The consumer groups of all topics, and the reading of messages from the
partitions.  A group is found by its name alone; its topic and the number of its
partitions are those of whoever joined first.
-/

namespace ChimeraMQ
namespace Stream

open Foundation
open Message
open Storage

/-- What decrypts a stored message, given the name of its partition. -/
abbrev Decryptor := Bytes -> Bytes -> Option Bytes

structure Engine where
  groups : List (Bytes × ConsumerGroup)
  storage : HotEngine
  offsets : OffsetStore
  encryptor : Option Decryptor
  closed : Bool

namespace Engine

def newEngine (storage : HotEngine) (offsets : OffsetStore)
    (encryptor : Option Decryptor) : Engine where
  groups := []
  storage := storage
  offsets := offsets
  encryptor := encryptor
  closed := false

def restart (se : Engine) : Engine :=
  newEngine (HotEngine.newEngine se.storage.segmentSize se.storage.allDirs)
    (OffsetStore.newOffsetStore se.offsets.files) se.encryptor

def getGroup (se : Engine) (name : Bytes) : Option ConsumerGroup :=
  getEntry name se.groups

def joinGroup (se : Engine) (groupName topic memberID : Bytes)
    (partitionCount : Nat) (strategy : RebalanceStrategy) (now : Int) :
    Engine :=
  if se.closed then se
  else
    let cg := (se.getGroup groupName).getD
      (ConsumerGroup.newConsumerGroup groupName topic partitionCount strategy
        se.offsets)
    { se with
      groups := setEntry groupName (cg.join memberID now).rebalance se.groups }

def leaveGroup (se : Engine) (groupName memberID : Bytes) : Engine :=
  match se.getGroup groupName with
  | none => se
  | some cg =>
    { se with
      groups := setEntry groupName (cg.leave memberID).rebalance se.groups }

def commitOffset (se : Engine) (groupName : Bytes) (partitionID offset : Nat) :
    Engine × Option GroupNameError :=
  match se.getGroup groupName with
  | none => (se, none)
  | some cg =>
  let r := cg.commitOffset se.offsets partitionID offset
  ({ se with
      groups := setEntry groupName r.1 se.groups
      offsets := r.2.1 }, r.2.2)

/-!
## Messages
-/

def segmentID (topic : Bytes) (partID : Nat) : Bytes :=
  topic ++ ascii "/" ++
    (Nat.toDigits 10 partID).map (fun c => UInt8.ofNat c.toNat)

def decode (encryptor : Option Decryptor) (topic : Bytes) (partID : Nat)
    (data : Bytes) : Option Envelope :=
  match encryptor with
  | none => (unmarshal data).toOption
  | some decrypt =>
    match decrypt data (segmentID topic partID) with
    | none => none
    | some decrypted => (unmarshal decrypted).toOption

/-- The messages in the records from an offset on; the others are skipped. -/
def decodeAll (encryptor : Option Decryptor) (topic : Bytes) (partID : Nat) :
    Nat -> List Bytes -> List Envelope
  | _, [] => []
  | offset, data :: rest =>
    match decode encryptor topic partID data with
    | none => decodeAll encryptor topic partID (offset + 1) rest
    | some env =>
      { env with sequence := UInt64.ofNat offset } ::
        decodeAll encryptor topic partID (offset + 1) rest

def readMessages (encryptor : Option Decryptor) (part : Partition)
    (topic : Bytes) (partID start hw : Nat) (max : Int) :
    List Envelope × Nat :=
  let last := (start + (max % 2 ^ 64).toNat + (2 ^ 64 - 1)) % 2 ^ 64
  let rawMsgs := part.readRange start (if last < hw then last else hw) max
  let msgs := decodeAll encryptor topic partID start rawMsgs
  (msgs, (start + msgs.length) % 2 ^ 64)

inductive FetchError where
  | closed
  | partition (err : SegmentError)
deriving DecidableEq

/--
The clock, and the partition as it is when a wait for new messages is over,
unless it takes too long.
-/
structure FetchContext where
  now : Nat
  notified : Option Partition

def fetch (se : Engine) (topic : Bytes) (partitionID fromOffset : Nat)
    (maxMessages : Int) (c : FetchContext) :
    Engine × Except FetchError (List Envelope × Nat) :=
  if se.closed then (se, .error .closed)
  else
    match se.storage.getOrCreatePartition (topic, partitionID) c.now with
    | .error err => (se, .error (.partition err))
    | .ok (storage, part) =>
    let se := { se with storage := storage }
    if fromOffset ≤ part.highWater then
      (se, .ok (readMessages se.encryptor part topic partitionID fromOffset
        part.highWater maxMessages))
    else
      match c.notified with
      | none => (se, .ok ([], fromOffset))
      | some part =>
        (se, .ok (readMessages se.encryptor part topic partitionID
          fromOffset part.highWater maxMessages))

end Engine

end Stream
end ChimeraMQ
