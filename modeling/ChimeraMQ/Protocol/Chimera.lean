import ChimeraMQ.Broker.Backend

/-!
# Connections of the native protocol

The frames of a client are handled one after the other.  A frame is given by
what its payload decodes to, with the clock and the other answers that the
handler gets; what is written back to the client is left out.
-/

namespace ChimeraMQ
namespace Chimera

open Foundation
open Message
open Auth

def protoChimera : UInt8 := 0

structure ClientConn where
  identity : Option Identity
  clientID : Bytes
  subs : List (Bytes × UInt8)
  connected : Bool

structure ConnectPayload where
  clientID : Bytes
  identity : Option Identity

structure PublishPayload where
  topic : Bytes
  routingKey : Bytes
  priority : UInt8
  ttl : Int64
  deliverAt : Int64
  headers : Headers
  body : Bytes

structure FetchPayload where
  topic : Bytes
  partitionID : Nat
  fromOffset : Nat
  maxMessages : Nat

/-- A rejected message, with what is needed if it turns out to be dead. -/
structure NackOffset where
  offset : Nat
  now : Nat
  route : RouteContext
  publish : Broker.PublishContext

structure CommitPayload where
  group : Bytes
  topic : Bytes
  partitionID : Nat
  offset : Nat

inductive Frame where
  | connect (payload : ConnectPayload) (clientSeq : Nat)
  | publish (payload : PublishPayload) (c : Broker.PublishContext)
  | batchPublish (messages : List (PublishPayload × Broker.PublishContext))
  | subscribe (topic : Bytes) (mode : UInt8)
  | fetch (payload : FetchPayload) (c : Stream.Engine.FetchContext)
  | ack (topic : Bytes) (offsets : List Nat)
  | nack (topic : Bytes) (partitionID : Nat) (offsets : List NackOffset)
  | commitOffset (payload : CommitPayload) (now : Int)
  | createTopic (name mode : Bytes) (partitions : Nat)
      (c : Broker.CreateContext)
  | deleteTopic (name : Bytes) (c : Broker.CreateContext)
  | ping
  | disconnect
  | unhandled

/-!
## Handlers
-/

def PublishPayload.envelope (payload : PublishPayload) (headers : Headers) :
    Envelope :=
  { Envelope.zero with
    topic := payload.topic
    routingKey := payload.routingKey
    priority := payload.priority
    ttl := payload.ttl
    deliverAt := payload.deliverAt
    headers := headers
    payload := payload.body
    sourceProto := protoChimera }

namespace ClientConn

def handleConnect (client : ClientConn) (s : Backend)
    (payload : ConnectPayload) (clientSeq : Nat) : ClientConn :=
  if s.authEnabled ∧ payload.identity = none then
    { client with connected := false }
  else
    { identity := if s.authEnabled then payload.identity else client.identity
      clientID :=
        if payload.clientID = [] then
          ascii "client-" ++
            (Nat.toDigits 10 clientSeq).map (fun ch => UInt8.ofNat ch.toNat)
        else payload.clientID
      subs := []
      connected := true }

def handlePublish (client : ClientConn) (s : Backend)
    (payload : PublishPayload) (c : Broker.PublishContext) : Backend :=
  if !s.allows client.identity .topic payload.topic .write then s
  else (s.publish (payload.envelope payload.headers) c).1

def handleBatchMessage (client : ClientConn) (s : Backend)
    (message : PublishPayload × Broker.PublishContext) : Backend :=
  if !s.allows client.identity .topic message.1.topic .write then s
  else (s.publish (message.1.envelope Headers.empty) message.2).1

def handleBatchPublish (client : ClientConn) (s : Backend)
    (messages : List (PublishPayload × Broker.PublishContext)) : Backend :=
  messages.foldl client.handleBatchMessage s

def handleSubscribe (client : ClientConn) (s : Backend) (topic : Bytes)
    (mode : UInt8) : ClientConn :=
  if !s.allows client.identity .topic topic .read then client
  else { client with subs := setEntry topic mode client.subs }

/-- The number of messages to fetch, at most what the configuration allows. -/
def fetchLimit (s : Backend) (maxMessages : Nat) : Nat :=
  let maxFetch := (s.maxFetchMessages % 2 ^ 32).toNat
  let maxFetch := if maxFetch = 0 then 10000 else maxFetch
  let maxMessages := if maxMessages = 0 then 100 else maxMessages
  if maxMessages > maxFetch then maxFetch else maxMessages

def handleFetch (client : ClientConn) (s : Backend) (payload : FetchPayload)
    (c : Stream.Engine.FetchContext) : Backend :=
  if !s.allows client.identity .topic payload.topic .read then s
  else
    (s.fetch payload.topic payload.partitionID payload.fromOffset
      (fetchLimit s payload.maxMessages) c).1

end ClientConn

def handleAck (s : Backend) (topic : Bytes) (offsets : List Nat) : Backend :=
  offsets.foldl (fun s offset => (s.handleAck topic offset).1) s

def routeDeadLetter (s : Backend) (topic : Bytes) (partitionID : Nat)
    (o : NackOffset) : Backend :=
  match s.getOrCreatePartition (topic, partitionID) o.now with
  | (s, .error _) => s
  | (s, .ok part) =>
  match part.read o.offset with
  | .error _ => s
  | .ok data =>
  match unmarshal data, s.broker.topics.getTopic topic with
  | .ok env, some _ =>
    match ChimeraMQ.route ((getEntry topic s.dlqTopics).getD []) env
      (ascii "max-retries-exceeded") env.deliverCount o.route with
    | none => s
    | some dlqEnv => (s.publish dlqEnv o.publish).1
  | _, _ => s

def handleNackOffset (topic : Bytes) (partitionID : Nat) (s : Backend)
    (o : NackOffset) : Backend :=
  match s.handleNack topic o.offset with
  | (s, true, _) => routeDeadLetter s topic partitionID o
  | (s, false, _) => s

def handleNack (s : Backend) (topic : Bytes) (partitionID : Nat)
    (offsets : List NackOffset) : Backend :=
  offsets.foldl (handleNackOffset topic partitionID) s

namespace ClientConn

def handleCommitOffset (client : ClientConn) (s : Backend)
    (payload : CommitPayload) (now : Int) : Backend :=
  let s :=
    match s.broker.topics.getTopic payload.topic with
    | none => s
    | some topicCfg =>
      s.joinGroup payload.group payload.topic client.clientID
        topicCfg.partitions .range now
  (s.commitOffset payload.group payload.partitionID payload.offset
    now.toNat).1

def handleCreateTopic (client : ClientConn) (s : Backend) (name mode : Bytes)
    (partitions : Nat) (c : Broker.CreateContext) : Backend :=
  if !s.allows client.identity .topic name .create then s
  else (s.createTopic (Broker.clientTopic name mode partitions) c).1

def handleDeleteTopic (client : ClientConn) (s : Backend) (name : Bytes)
    (c : Broker.CreateContext) : Backend :=
  if !s.allows client.identity .topic name .delete then s
  else (s.deleteTopic name c).1

def handleFrame (client : ClientConn) (s : Backend) (frame : Frame) :
    ClientConn × Backend :=
  if !client.connected then (client, s)
  else
    match frame with
    | .connect payload clientSeq =>
      (client.handleConnect s payload clientSeq, s)
    | .publish payload c => (client, client.handlePublish s payload c)
    | .batchPublish messages => (client, client.handleBatchPublish s messages)
    | .subscribe topic mode => (client.handleSubscribe s topic mode, s)
    | .fetch payload c => (client, client.handleFetch s payload c)
    | .ack topic offsets => (client, Chimera.handleAck s topic offsets)
    | .nack topic partitionID offsets =>
      (client, Chimera.handleNack s topic partitionID offsets)
    | .commitOffset payload now =>
      (client, client.handleCommitOffset s payload now)
    | .createTopic name mode partitions c =>
      (client, client.handleCreateTopic s name mode partitions c)
    | .deleteTopic name c => (client, client.handleDeleteTopic s name c)
    | .ping => (client, s)
    | .disconnect => ({ client with connected := false }, s)
    | .unhandled => (client, s)

end ClientConn

end Chimera
end ChimeraMQ
