import ChimeraMQ.Foundation.Bytes
import ChimeraMQ.Foundation.Entries

/-!
# Envelopes

The message format of the broker, independent of the protocol that a message
came in by.  Strings are byte strings, and the headers are a list of entries
with distinct keys, in the order in which a loop over the map meets them.
-/

namespace ChimeraMQ
namespace Message

open Foundation

abbrev FixedBytes (n : Nat) := { b : Bytes // b.length = n }

def FixedBytes.zero (n : Nat) : FixedBytes n :=
  ⟨List.replicate n 0, List.length_replicate ..⟩

structure Headers where
  entries : List (Bytes × Bytes)
  distinct : (entries.map Prod.fst).Nodup
deriving DecidableEq

namespace Headers

def empty : Headers where
  entries := []
  distinct := List.nodup_nil

def set (h : Headers) (k v : Bytes) : Headers where
  entries := setEntry k v h.entries
  distinct := nodup_keys_setEntry h.distinct

def get (h : Headers) (k : Bytes) : Option Bytes :=
  getEntry k h.entries

end Headers

/-!
## The envelope
-/

structure Envelope where
  messageID : FixedBytes 16
  timestamp : Int64
  sequence : UInt64
  topic : Bytes
  partitionID : UInt32
  routingKey : Bytes
  headers : Headers
  schemaID : UInt32
  contentType : Bytes
  encoding : UInt8
  payload : Bytes
  priority : UInt8
  ttl : Int64
  deliverAt : Int64
  deliverCount : UInt32
  maxRetries : UInt32
  traceID : FixedBytes 16
  spanID : FixedBytes 8
  sourceProto : UInt8
deriving DecidableEq

def Envelope.zero : Envelope where
  messageID := FixedBytes.zero 16
  timestamp := 0
  sequence := 0
  topic := []
  partitionID := 0
  routingKey := []
  headers := Headers.empty
  schemaID := 0
  contentType := []
  encoding := 0
  payload := []
  priority := 0
  ttl := 0
  deliverAt := 0
  deliverCount := 0
  maxRetries := 0
  traceID := FixedBytes.zero 16
  spanID := FixedBytes.zero 8
  sourceProto := 0

def fixedHeaderSize : Nat := 64

def flagHasHeaders : UInt8 := 1

def flagHasRoutingKey : UInt8 := 2

def flagHasTrace : UInt8 := 4

def flagHasTTL : UInt8 := 8

def flagHasDelay : UInt8 := 16

def headersSize (h : Headers) : Nat :=
  (h.entries.map (fun e => 2 + e.1.length + 4 + e.2.length)).sum

def Envelope.estimateSize (e : Envelope) : Nat :=
  fixedHeaderSize + e.topic.length + e.routingKey.length + e.payload.length +
    headersSize e.headers +
    if e.traceID ≠ FixedBytes.zero 16 then 24 else 0

/-!
## The binary format of an envelope

A fixed header of 64 bytes, whose last eight depend on the flags, and the
variable fields after it.  The content type is not written.
-/

def maxMessageSize : Nat := 16 * 1024 * 1024

/-- Why an envelope cannot be serialized. -/
inductive MarshalError where
  | topicTooLong (size : Nat)
  | routingKeyTooLong (size : Nat)
  | payloadTooLarge (size : Nat)
  | messageTooLarge (size : Nat)
deriving DecidableEq

/-- Why bytes are not an envelope. -/
inductive UnmarshalError where
  | tooShort (size : Nat)
  | topicBeyondData
  | routingKeyBeyondData
  | headersBeyondData
  | traceBeyondData
  | payloadBeyondData (need rest : Nat)
deriving DecidableEq

/-!
## Writing
-/

def flags (e : Envelope) : UInt8 :=
  (if e.headers.entries.length > 0 then flagHasHeaders else 0) |||
    (if e.routingKey ≠ [] then flagHasRoutingKey else 0) |||
    (if e.traceID ≠ FixedBytes.zero 16 then flagHasTrace else 0) |||
    (if e.ttl > 0 then flagHasTTL else 0) |||
    (if e.deliverAt > 0 then flagHasDelay else 0)

def conditionalField (e : Envelope) : Bytes :=
  if flags e &&& flagHasTTL ≠ 0 then be 8 e.ttl.toUInt64.toNat
  else if flags e &&& flagHasDelay ≠ 0 then be 8 e.deliverAt.toUInt64.toNat
  else be 4 e.deliverCount.toNat ++ be 4 e.maxRetries.toNat

def marshalHeaders (h : Headers) : Bytes :=
  h.entries.flatMap (fun e =>
    be 2 e.1.length ++ e.1 ++ be 4 e.2.length ++ e.2)

def marshalFixed (e : Envelope) : Bytes :=
  e.messageID.val ++ be 8 e.timestamp.toUInt64.toNat ++
    be 8 e.sequence.toNat ++ be 4 e.partitionID.toNat ++
    be 4 e.schemaID.toNat ++
    [e.priority, e.encoding, e.sourceProto, flags e] ++
    be 4 e.payload.length ++ be 4 (headersSize e.headers) ++
    be 2 e.topic.length ++ be 2 e.routingKey.length ++ conditionalField e

def marshal (e : Envelope) : Except MarshalError Bytes :=
  if e.topic.length > 65535 then .error (.topicTooLong e.topic.length)
  else if e.routingKey.length > 65535 then
    .error (.routingKeyTooLong e.routingKey.length)
  else if e.payload.length > 0xFFFFFFFF then
    .error (.payloadTooLarge e.payload.length)
  else if e.estimateSize > maxMessageSize then
    .error (.messageTooLarge e.estimateSize)
  else
    .ok
      (marshalFixed e ++ e.topic ++ e.routingKey ++ marshalHeaders e.headers ++
        (if e.traceID ≠ FixedBytes.zero 16 then e.traceID.val ++ e.spanID.val
          else []) ++ e.payload)

/-!
## Reading
-/

def field (data : Bytes) (pos n : Nat) : FixedBytes n :=
  ⟨((data.drop pos).take n ++ List.replicate n 0).take n, by simp⟩

def fieldNat (data : Bytes) (pos n : Nat) : Nat :=
  ofBe (field data pos n).val

/-- The headers in their binary form; reading stops where they are cut. -/
def unmarshalHeaders : Nat -> Headers -> Bytes -> Headers
  | 0, h, _ => h
  | k + 1, h, data =>
    if data.length < 2 then h
    else
      let keyLen := fieldNat data 0 2
      let data := data.drop 2
      if data.length < keyLen then h
      else
        let key := data.take keyLen
        let data := data.drop keyLen
        if data.length < 4 then h
        else
          let valLen := fieldNat data 0 4
          let data := data.drop 4
          if data.length < valLen then h
          else
            unmarshalHeaders k (h.set key (data.take valLen))
              (data.drop valLen)

def unmarshalFixed (data : Bytes) : Envelope :=
  let e : Envelope :=
    { Envelope.zero with
      messageID := field data 0 16
      timestamp := (UInt64.ofNat (fieldNat data 16 8)).toInt64
      sequence := UInt64.ofNat (fieldNat data 24 8)
      partitionID := UInt32.ofNat (fieldNat data 32 4)
      schemaID := UInt32.ofNat (fieldNat data 36 4)
      priority := UInt8.ofNat (fieldNat data 40 1)
      encoding := UInt8.ofNat (fieldNat data 41 1)
      sourceProto := UInt8.ofNat (fieldNat data 42 1) }
  let flags := UInt8.ofNat (fieldNat data 43 1)
  if flags &&& flagHasTTL ≠ 0 then
    { e with ttl := (UInt64.ofNat (fieldNat data 56 8)).toInt64 }
  else if flags &&& flagHasDelay ≠ 0 then
    { e with deliverAt := (UInt64.ofNat (fieldNat data 56 8)).toInt64 }
  else
    { e with
      deliverCount := UInt32.ofNat (fieldNat data 56 4)
      maxRetries := UInt32.ofNat (fieldNat data 60 4) }

def unmarshal (data : Bytes) : Except UnmarshalError Envelope := do
  if data.length < fixedHeaderSize then .error (.tooShort data.length)
  let e := unmarshalFixed data
  let flags := UInt8.ofNat (fieldNat data 43 1)
  let payloadLen := fieldNat data 44 4
  let headersLen := fieldNat data 48 4
  let topicLen := fieldNat data 52 2
  let rkLen := fieldNat data 54 2
  let rest := data.drop fixedHeaderSize
  if topicLen > rest.length then .error .topicBeyondData
  let e := { e with topic := rest.take topicLen }
  let rest := rest.drop topicLen
  if rkLen > rest.length then .error .routingKeyBeyondData
  let e := { e with routingKey := rest.take rkLen }
  let rest := rest.drop rkLen
  if headersLen > rest.length then .error .headersBeyondData
  let e :=
    { e with
      headers := unmarshalHeaders headersLen .empty (rest.take headersLen) }
  let rest := rest.drop headersLen
  let trace := flags &&& flagHasTrace ≠ 0
  if trace ∧ rest.length < 24 then .error .traceBeyondData
  let e :=
    if trace then { e with traceID := field rest 0 16, spanID := field rest 16 8 }
    else e
  let rest := if trace then rest.drop 24 else rest
  if payloadLen > rest.length then
    .error (.payloadBeyondData payloadLen rest.length)
  return { e with payload := rest.take payloadLen }

end Message
end ChimeraMQ
