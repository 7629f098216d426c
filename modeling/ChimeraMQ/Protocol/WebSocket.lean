import ChimeraMQ.Broker.Backend

/-!
# Sessions of WebSocket clients

The JSON messages of a client are handled one after the other.  A subscription
to a topic that is consumed as a stream starts a loop that goes on beside them.
What is written to the client is left out.
-/

namespace ChimeraMQ
namespace WebSocket

open Foundation
open Message
open Auth
open Queue

def protoWS : UInt8 := 3

structure StreamLoop where
  topic : Bytes
  group : Bytes
  autoCommit : Bool
  offset : Nat
  cancelled : Bool
deriving DecidableEq

structure Session where
  identity : Option Identity
  consumerID : Bytes
  subTopic : Bytes
  loops : List StreamLoop

inductive Op where
  | publish
  | subscribe
  | unsubscribe
  | fetch
  | ack
  | nack
  | commit
  | createTopic
  | deleteTopic
  | ping
  | unknown
deriving DecidableEq

structure WsMessage where
  op : Op
  topic : Bytes
  payload : Bytes
  routingKey : Bytes
  offset : Nat
  partition : Nat
  mode : Bytes
  partitions : Nat
  group : Bytes
  autoCommit : Bool
  maxMessages : Int

structure MessageContext where
  now : Int
  publish : Broker.PublishContext
  create : Broker.CreateContext
  fetch : Stream.Engine.FetchContext
  tenants : MapOrder (Bytes × Broker.Tenant)

namespace Session

def handlePublishJSON (session : Session) (s : Backend) (msg : WsMessage)
    (c : MessageContext) : Backend :=
  if msg.topic = [] then s
  else if !s.allows session.identity .topic msg.topic .write then s
  else
    (s.publish
      { Envelope.zero with
        topic := msg.topic
        payload := msg.payload
        routingKey := msg.routingKey
        sourceProto := protoWS } c.publish).1

def handleCreateTopicJSON (session : Session) (s : Backend) (msg : WsMessage)
    (c : MessageContext) : Backend :=
  if msg.topic = [] then s
  else if !s.allows session.identity .topic msg.topic .create then s
  else
    let partitions := if msg.partitions = 0 then 8 else msg.partitions
    match s.createTopic (Broker.clientTopic msg.topic msg.mode partitions)
      c.create with
    | (s, .error _) => s
    | (s, .ok ()) =>
      { s with
        broker := s.broker.wireTopicRateLimit msg.topic c.tenants c.now }

def handleDeleteTopicJSON (session : Session) (s : Backend) (msg : WsMessage)
    (c : MessageContext) : Backend :=
  if msg.topic = [] then s
  else if !s.allows session.identity .topic msg.topic .delete then s
  else (s.deleteTopic msg.topic c.create).1

/-!
## Subscriptions
-/

def newConsumerID (topic : Bytes) (now : Int) : Bytes :=
  ascii "ws-" ++ topic ++ ascii "-" ++
    (toString now).toList.map (fun ch => UInt8.ofNat ch.toNat)

def runQueueSubscription (s : Backend) (topic consumerID : Bytes) : Backend :=
  { s with
    queueEngine := s.queueEngine.addConsumer topic
      { id := consumerID, prefetch := 10, inFlight := [] } }

/-- Join the group, if one is named, and start to read the stream. -/
def runStreamSubscription (session : Session) (s : Backend)
    (topicInfo : Broker.TopicConfig) (msg : WsMessage) (now : Int) :
    Session × Backend :=
  ({ session with
      loops := session.loops ++
        [{ topic := msg.topic
           group := msg.group
           autoCommit := msg.autoCommit
           offset := 0
           cancelled := false }] },
    if msg.group = [] then s
    else
      s.joinGroup msg.group msg.topic session.consumerID topicInfo.partitions
        .roundRobin now)

def startSubscription (session : Session) (s : Backend)
    (topicInfo : Broker.TopicConfig) (msg : WsMessage) (now : Int) :
    Session × Backend :=
  let session :=
    { session with
      consumerID := newConsumerID msg.topic now
      subTopic := msg.topic }
  match topicInfo.mode with
  | .queue | .unified =>
    (session, runQueueSubscription s msg.topic session.consumerID)
  | .stream => session.runStreamSubscription s topicInfo msg now

def handleSubscribeJSON (session : Session) (s : Backend) (msg : WsMessage)
    (now : Int) : Session × Backend :=
  if msg.topic = [] then (session, s)
  else if session.subTopic ≠ [] then (session, s)
  else
    match s.broker.topics.getTopic msg.topic with
    | none => (session, s)
    | some topicInfo =>
      if !s.allows session.identity .topic msg.topic .read then (session, s)
      else session.startSubscription s topicInfo msg now

/-- End the subscription; its loop notices that in its next round. -/
def stopSubscription (session : Session) (s : Backend) : Session × Backend :=
  ({ session with
      subTopic := []
      consumerID := []
      loops :=
        session.loops.map (fun loop => { loop with cancelled := true }) },
    if session.subTopic ≠ [] ∧ session.consumerID ≠ [] then
      { s with
        queueEngine := s.queueEngine.removeConsumer session.subTopic
          session.consumerID }
    else s)

def nextOffset (offset : Nat) (msgs : List Envelope) : Nat :=
  match msgs.getLast? with
  | none => offset
  | some env => (env.sequence.toNat + 1) % 2 ^ 64

/--
One round of a loop: leave the group when the subscription has ended, or else
fetch messages, and commit what is beyond the last of them.
-/
def loopRound (session : Session) (s : Backend) (i : Nat)
    (c : Stream.Engine.FetchContext) : Session × Backend :=
  match session.loops[i]? with
  | none => (session, s)
  | some loop =>
  if loop.cancelled then
    ({ session with loops := session.loops.eraseIdx i },
      if loop.group = [] then s
      else s.leaveGroup loop.group session.consumerID)
  else
    match s.fetch loop.topic 0 loop.offset 10 c with
    | (s, .error _) => (session, s)
    | (s, .ok (msgs, newOffset)) =>
    let offset := nextOffset loop.offset msgs
    ({ session with
        loops := session.loops.set i { loop with offset := offset } },
      if loop.autoCommit ∧ loop.group ≠ [] ∧ newOffset > offset then
        (s.commitOffset loop.group 0 newOffset c.now).1
      else s)

/-!
## Consuming
-/

def handleFetchJSON (session : Session) (s : Backend) (msg : WsMessage)
    (c : Stream.Engine.FetchContext) : Backend :=
  if msg.topic = [] then s
  else if !s.allows session.identity .topic msg.topic .read then s
  else
    (s.fetch msg.topic msg.partition msg.offset
      (if msg.maxMessages ≤ 0 then 10 else msg.maxMessages) c).1

end Session

def handleAckJSON (s : Backend) (msg : WsMessage) : Backend :=
  (s.handleAck msg.topic msg.offset).1

def handleNackJSON (s : Backend) (msg : WsMessage) : Backend :=
  (s.handleNack msg.topic msg.offset).1

def handleCommitJSON (s : Backend) (msg : WsMessage) (now : Nat) : Backend :=
  if msg.group = [] then s
  else (s.commitOffset msg.group msg.partition msg.offset now).1

def Session.handleMessage (session : Session) (s : Backend) (msg : WsMessage)
    (c : MessageContext) : Session × Backend :=
  match msg.op with
  | .publish => (session, session.handlePublishJSON s msg c)
  | .subscribe => session.handleSubscribeJSON s msg c.now
  | .unsubscribe => session.stopSubscription s
  | .fetch => (session, session.handleFetchJSON s msg c.fetch)
  | .ack => (session, handleAckJSON s msg)
  | .nack => (session, handleNackJSON s msg)
  | .commit => (session, handleCommitJSON s msg c.now.toNat)
  | .createTopic => (session, session.handleCreateTopicJSON s msg c)
  | .deleteTopic => (session, session.handleDeleteTopicJSON s msg c)
  | .ping => (session, s)
  | .unknown => (session, s)

def Session.handleJSON (session : Session) (s : Backend) (allowMessage : Bool)
    (msg : Option WsMessage) (c : MessageContext) : Session × Backend :=
  match allowMessage, msg with
  | true, some msg => session.handleMessage s msg c
  | _, _ => (session, s)

end WebSocket
end ChimeraMQ
