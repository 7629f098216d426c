import ChimeraMQ.Foundation.Cursor
import ChimeraMQ.Protocol.Chimera

/-!
# Batches of the native protocol

The messages of a batch are written one after the other as they would be
published alone.  The body of a message has no length of its own: the decoder
takes all that is left for it, without moving on, so only a batch of one message
is read back.
-/

namespace ChimeraMQ
namespace Chimera

open Foundation
open Message
open Cursor

/-!
## Decoding
-/

/-- A text behind its length; one that is cut short is empty. -/
def readString : Scan Bytes := do
  let n <- len
  if n < 2 then pure []
  else do
    let length <- readUint 2
    let n <- len
    if n < length then pure [] else read length

def readPriority : Scan UInt8 := do
  let n <- len
  if n > 0 then UInt8.ofNat <$> readUint 1 else pure 0

def readInt64 : Scan Int64 := do
  let n <- len
  if n ≥ 8 then (fun v => (UInt64.ofNat v).toInt64) <$> readUint 8 else pure 0

def readPublish (topic routingKey : Bytes) : Scan PublishPayload := do
  let priority <- readPriority
  let ttl <- readInt64
  let deliverAt <- readInt64
  let body <- rest
  pure
    { topic := topic
      routingKey := routingKey
      priority := priority
      ttl := ttl
      deliverAt := deliverAt
      headers := Headers.empty
      body := body }

def decodePublish (data : Bytes) : Option PublishPayload :=
  let decode : Scan PublishPayload := do
    let topic <- readString
    let routingKey <- readString
    readPublish topic routingKey
  (decode (start data)).map Prod.fst

/-- The topic of a message in a batch, which ends where there is none. -/
def readTopic : Scan (Option Bytes) := do
  let n <- len
  if n < 2 then pure none
  else do
    let topicLen <- readUint 2
    let n <- len
    if n < topicLen then pure none else some <$> read topicLen

/-- The routing key of a message in a batch; one cut short is empty. -/
def readRoutingKey : Scan (Option Bytes) := do
  let n <- len
  if n < 2 then pure none
  else do
    let rkLen <- readUint 2
    let n <- len
    if n ≥ rkLen then some <$> read rkLen else pure (some [])

def readMessage : Scan (Option PublishPayload) := do
  match <- readTopic with
  | none => pure none
  | some topic =>
    match <- readRoutingKey with
    | none => pure none
    | some routingKey => some <$> readPublish topic routingKey

/-- The loop over the messages of a batch, some of which are still to come. -/
def readMessages : Nat -> List PublishPayload -> Scan (List PublishPayload)
  | 0, messages => pure messages
  | k + 1, messages => do
      let n <- len
      if n = 0 then pure messages
      else do
        match <- readMessage with
        | none => pure messages
        | some message => readMessages k (messages ++ [message])

def encodePublish (p : PublishPayload) : Bytes :=
  be 2 p.topic.length ++ (p.topic ++ (be 2 p.routingKey.length ++
    (p.routingKey ++ ([p.priority] ++ (be 8 p.ttl.toUInt64.toNat ++
      (be 8 p.deliverAt.toUInt64.toNat ++ p.body))))))

structure FitsBatch (p : PublishPayload) : Prop where
  topic : p.topic.length < 2 ^ 16
  routingKey : p.routingKey.length < 2 ^ 16
  headers : p.headers = Headers.empty

/-- The bytes that a message has copies of. -/
def copies (p : PublishPayload) : Nat :=
  p.topic.length + p.routingKey.length + p.body.length

theorem gives_readPriority {s : Bytes} (h : s.length > 0) :
    Gives readPriority s (UInt8.ofNat (ofBe (s.take 1))) (s.drop 1) := by
  refine (gives_len s).bind ?_
  rw [if_pos h]
  exact (gives_readUint h).map UInt8.ofNat

theorem gives_readPriority_cons (priority : UInt8) (u : Bytes) :
    Gives readPriority ([priority] ++ u) priority u := by
  have h : ([priority] ++ u).length > 0 := Nat.succ_pos _
  have hvalue : UInt8.ofNat (ofBe (([priority] ++ u).take 1)) = priority := by
    show UInt8.ofNat (0 * 256 + priority.toNat) = priority
    rw [Nat.zero_mul, Nat.zero_add, UInt8.ofNat_toNat]
  have hread := gives_readPriority h
  rwa [hvalue] at hread

theorem gives_readInt64_be (v : Int64) (u : Bytes) :
    Gives readInt64 (be 8 v.toUInt64.toNat ++ u) v u := by
  have hlt : v.toUInt64.toNat < 256 ^ 8 := UInt64.toNat_lt _
  have hread := (gives_readUint_of_lt hlt u).map
    (fun n => (UInt64.ofNat n).toInt64)
  rw [UInt64.ofNat_toNat, Int64.toInt64_toUInt64] at hread
  refine (gives_len _).bind ?_
  rw [if_pos (by rw [List.length_append, length_be]; omega)]
  exact hread

theorem gives_readString {s : Bytes} (hs : s.length < 2 ^ 16) (u : Bytes) :
    Gives readString (be 2 s.length ++ (s ++ u)) s u := by
  refine (gives_len _).bind ?_
  rw [if_neg (by rw [List.length_append, length_be]; omega)]
  refine (gives_readUint_of_lt hs _).bind ((gives_len _).bind ?_)
  rw [if_neg (by rw [List.length_append]; omega)]
  exact gives_read_append s u

theorem decodePublish_encodePublish {p : PublishPayload} (hp : FitsBatch p) :
    decodePublish (encodePublish p) = some p := by
  have hmessage : p =
      { topic := p.topic
        routingKey := p.routingKey
        priority := p.priority
        ttl := p.ttl
        deliverAt := p.deliverAt
        headers := Headers.empty
        body := p.body } := by
    rw [← hp.headers]
  rw [hmessage]
  refine Gives.of_start (t := p.body) ?_
  refine (gives_readString hp.topic _).bind ?_
  refine (gives_readString hp.routingKey _).bind ?_
  exact (gives_readPriority_cons _ _).bind ((gives_readInt64_be _ _).bind
    ((gives_readInt64_be _ _).bind ((gives_rest _).bind (Gives.pure _ _))))

theorem decodePublish_encodePublish_orders :
    decodePublish (encodePublish ⟨[111], [], 3, 0, 0, Headers.empty, [1, 2]⟩) =
      some ⟨[111], [], 3, 0, 0, Headers.empty, [1, 2]⟩ :=
  decodePublish_encodePublish ⟨by decide, by decide, rfl⟩

/-!
## Batches
-/

end Chimera
end ChimeraMQ
