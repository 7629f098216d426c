import ChimeraMQ.Foundation.Bytes
import ChimeraMQ.Foundation.Entries

/-!
# Topics

The configuration of topics and the choice of a partition for a message: by the
hash of its routing key, or in turn where it has none.
-/

namespace ChimeraMQ
namespace Broker

open Foundation

/-- How a topic's data is consumed. -/
inductive TopicMode where
  | stream
  | queue
  | unified
deriving DecidableEq

structure TopicConfig where
  name : Bytes
  mode : TopicMode
  partitions : Nat
  schemaEnforcement : Bool
  defaultTTL : Int64
  transformPipeline : Bool
deriving DecidableEq

structure TopicManager where
  topics : List (Bytes × TopicConfig)
  rrCounters : List (Bytes × Nat)
  maxTopics : Int
  maxPartitionsPerTopic : Nat
deriving DecidableEq

/-- Why a topic cannot be created. -/
inductive TopicError where
  | alreadyExists (name : Bytes)
  | maximumReached (maxTopics : Int)
  | nameLength
  | nameCharacter (c : UInt8)
  | nameStart
  | noPartitions
  | tooManyPartitions (partitions maxPartitions : Nat)
deriving DecidableEq

def isTopicCharacter (c : UInt8) : Bool :=
  (97 ≤ c && c ≤ 122) || (65 ≤ c && c ≤ 90) || (48 ≤ c && c ≤ 57) || c = 46 ||
    c = 45 || c = 95

def validateTopicName (name : Bytes) : Except TopicError Unit :=
  if name.length = 0 ∨ name.length > 255 then .error .nameLength
  else
    match name.find? (fun c => !isTopicCharacter c) with
    | some c => .error (.nameCharacter c)
    | none =>
      if name.head? = some 46 ∨ name.head? = some 45 then .error .nameStart
      else .ok ()

/-!
## Hashing
-/

/-- The number that up to four bytes spell, the least significant first. -/
def leUInt32 (b : Bytes) : UInt32 :=
  b.foldr (fun x n => n * 256 + x.toUInt32) 0

def rotl (x : UInt32) (n : UInt32) : UInt32 :=
  (x <<< n) ||| (x >>> (32 - n))

def murmur3Scramble (k : UInt32) : UInt32 :=
  rotl (k * 0xcc9e2d51) 15 * 0x1b873593

/-- Mix in all whole blocks, and then the bytes that are left. -/
def murmur3Body (h : UInt32) : Bytes -> UInt32
  | a :: b :: c :: d :: rest =>
    murmur3Body
      (rotl (h ^^^ murmur3Scramble (leUInt32 [a, b, c, d])) 13 * 5 +
        0xe6546b64) rest
  | [] => h
  | tail => h ^^^ murmur3Scramble (leUInt32 tail)

def murmur3Hash (data : Bytes) : UInt32 :=
  let h := murmur3Body 0 data ^^^ UInt32.ofNat data.length
  let h := (h ^^^ (h >>> 16)) * 0x85ebca6b
  let h := (h ^^^ (h >>> 13)) * 0xc2b2ae35
  h ^^^ (h >>> 16)

namespace TopicManager

/-!
## Topics and partitions
-/

def getTopic (tm : TopicManager) (name : Bytes) : Option TopicConfig :=
  getEntry name tm.topics

def validate (tm : TopicManager) (cfg : TopicConfig) :
    Except TopicError Unit := do
  if (tm.getTopic cfg.name).isSome then .error (.alreadyExists cfg.name)
  if 0 < tm.maxTopics ∧ tm.maxTopics ≤ tm.topics.length then
    .error (.maximumReached tm.maxTopics)
  validateTopicName cfg.name
  if cfg.partitions = 0 then .error .noPartitions
  if 0 < tm.maxPartitionsPerTopic ∧
      tm.maxPartitionsPerTopic < cfg.partitions then
    .error (.tooManyPartitions cfg.partitions tm.maxPartitionsPerTopic)

def roundRobinPartition (tm : TopicManager) (topic : Bytes) (count : Nat) :
    TopicManager × Nat :=
  let val := (getEntry topic tm.rrCounters).getD 0
  ({ tm with
      rrCounters := setEntry topic ((val + 1) % 2 ^ 64) tm.rrCounters },
    val % 2 ^ 32 % count)

def resolvePartition (tm : TopicManager) (topic routingKey : Bytes)
    (partitionCount : Nat) : TopicManager × Nat :=
  if routingKey = [] then tm.roundRobinPartition topic partitionCount
  else (tm, (murmur3Hash routingKey).toNat % partitionCount)

end TopicManager

end Broker
end ChimeraMQ
