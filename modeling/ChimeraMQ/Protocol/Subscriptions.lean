import ChimeraMQ.Protocol.Delivery
import ChimeraMQ.Protocol.Nats
import ChimeraMQ.Protocol.Stomp

/-!
# The subscriptions of STOMP and NATS clients

Both protocols deliver by the same loop.  They differ in the names that a
subscription has, in what a message looks like when it is sent, and in how the
loops get at the stream engine.
-/

namespace ChimeraMQ

open Foundation
open Message

/-!
## STOMP
-/

namespace Stomp

def cmdMessage : Bytes := ascii "MESSAGE"

def Connection.sendMessage (s : Connection) (sub : Subscription)
    (env : Envelope) (c : FrameContext) : Handled :=
  let sequence := formatUint env.sequence.toNat
  let frame :=
    ((((Frame.newFrame cmdMessage).set (ascii "destination")
      (ascii "/topic/" ++ env.topic)).set (ascii "subscription") sub.id).set
      (ascii "message-id") sequence).set (ascii "content-type") env.contentType
  let frame :=
    if sub.ack ≠ ascii "auto" then frame.set (ascii "ack") sequence else frame
  s.writeFrame { frame with body := env.payload } c

structure Streaming where
  conn : Connection
  groups : List (Bytes × Stream.ConsumerGroup)
  offsets : Stream.OffsetStore
  decryptor : Option Stream.Decryptor
  engineClosed : Bool

/--
What happens to a session, or to the stream engine by other connections, or the
server is stopped.
-/
inductive Input where
  | action (a : Action)
  | elsewhere (groups : List (Bytes × Stream.ConsumerGroup))
      (offsets : Stream.OffsetStore) (engineClosed : Bool)
  | stop

namespace Streaming

def engine (s : Streaming) : Stream.Engine where
  groups := s.groups
  storage := s.conn.server.broker.storage
  offsets := s.offsets
  encryptor := s.decryptor
  closed := s.engineClosed

def putEngine (s : Streaming) (se : Stream.Engine) : Streaming :=
  { s with
    conn :=
      { s.conn with
        server :=
          { s.conn.server with
            broker := { s.conn.server.broker with storage := se.storage } } }
    groups := se.groups
    offsets := se.offsets }

def unsubscribes : Action -> Option Bytes
  | .frame frame _ =>
    if frame.command = cmdUnsubscribe ∧ frame.get (ascii "id") ≠ [] then
      some (frame.get (ascii "id"))
    else none
  | _ => none

def input (s : Streaming) :
    Input -> Option (Streaming × List Subscription × Option Bytes)
  | .action a =>
    match s.conn.step a with
    | none => none
    | some conn =>
      some ({ s with conn := conn },
        conn.delivering.drop s.conn.delivering.length, unsubscribes a)
  | .elsewhere groups offsets engineClosed =>
    some
      ({ s with
          groups := groups
          offsets := offsets
          engineClosed := engineClosed }, [], none)
  | .stop => some ({ s with conn := s.conn.close }, [], none)

end Streaming

def transport :
    Protocol.Transport Streaming Input Subscription FrameContext where
  id := Subscription.id
  topic := Subscription.destination
  group := Subscription.consumerID
  member := Subscription.consumerID
  engine := Streaming.engine
  putEngine := Streaming.putEngine
  closed := fun s => s.conn.session.closed
  input := Streaming.input
  sendMessage := fun s sub env c =>
    let r := s.conn.sendMessage sub env c
    ({ s with conn := r.1 }, r.2.isNone)

end Stomp

/-!
## NATS
-/

namespace Nats

def Connection.sendMessage (s : Connection) (sub : Subscription)
    (env : Envelope) (writable : Bool) : Handled :=
  let subject := replaceAll (ascii "/") (ascii ".") env.topic
  s.writeString
    (ascii "MSG " ++ subject ++ ascii " " ++ sub.sid ++ ascii " " ++
      formatUint env.payload.length ++ ClientCommand.crlf ++
      env.payload ++ ClientCommand.crlf) writable

/--
A command, what other connections do to the broker and the limiter, or the
server is stopped.
-/
inductive Input where
  | command (msg : Nats.Message) (c : CommandContext)
  | elsewhere (backend : Backend)
      (authLimiter : Option Auth.AuthRateLimiter)
  | stop

namespace Connection

def unsubscribes (s : Connection) (msg : Nats.Message) : Option Bytes :=
  if msg.command = cmdUnsub ∧ s.session.connected then msg.args.head? else none

def input (s : Connection) :
    Input -> Option (Connection × List Subscription × Option Bytes)
  | .command msg c =>
    match s.handleCommand msg c with
    | none => none
    | some conn =>
      some (conn, conn.delivering.drop s.delivering.length,
        s.unsubscribes msg)
  | .elsewhere backend authLimiter =>
    some
      ({ s with backend := backend, authLimiter := authLimiter }, [], none)
  | .stop => some (s.close, [], none)

end Connection

def transport : Protocol.Transport Connection Input Subscription Bool where
  id := Subscription.sid
  topic := fun sub => Connection.subscribeTopic sub.subject
  group := Subscription.group
  member := Subscription.sid
  engine := fun s => s.backend.streamEngine
  putEngine := fun s se => { s with backend := s.backend.putStreamEngine se }
  closed := fun s => s.session.closed
  input := Connection.input
  sendMessage := fun s sub env writable =>
    let r := s.sendMessage sub env writable
    (r.1, r.2.isNone)

end Nats

/-!
## The order of deliveries
-/

namespace Protocol

/--
The subscriptions of both protocols are in order exactly if no loop sends after
its first message or after the client has unsubscribed.
-/
theorem subscriptions_inOrder_iff (stomp : Stomp.Streaming)
    (frames : List (SubscriberAction Stomp.Input Stomp.FrameContext))
    (nats : Nats.Connection)
    (commands : List (SubscriberAction Nats.Input Bool)) :
    (Stomp.transport.DeliversInOrder stomp frames <->
      Meets Stomp.transport.step Stomp.transport.SendsFirst
        { conn := stomp, deliveries := [] } frames) ∧
      (Nats.transport.DeliversInOrder nats commands <->
        Meets Nats.transport.step Nats.transport.SendsFirst
          { conn := nats, deliveries := [] } commands) := by
  constructor
  · exact Transport.deliversInOrder_iff stomp frames
  · exact Transport.deliversInOrder_iff nats commands

end Protocol

/-!
## A message that is sent again
-/

namespace Stomp

/-- A client that may do everything, on a broker without groups. -/
def openStreaming : Streaming where
  conn := (authServer none).handleConnection [] []
  groups := []
  offsets := { files := [], cache := [] }
  decryptor := none
  engineClosed := false

def repeatedDelivery :
    List (Protocol.SubscriberAction Input FrameContext) :=
  [.input (.action (.frame sendFrame exampleContext)),
    .input (.action (.frame subscribeFrame exampleContext))] ++
    List.replicate 6
      (.loop 0 exampleContext { now := 0, notified := none })

/-- The client is sent the first message twice. -/
theorem not_deliversInOrder_repeated :
    ¬ transport.DeliversInOrder openStreaming repeatedDelivery := by
  intro h
  have hsent : (run? transport.step { conn := openStreaming, deliveries := [] }
      repeatedDelivery).map (fun s => s.deliveries.map (fun d =>
        d.log.filterMap Protocol.DeliveryEvent.offset?)) = some [[0, 0]] := by
    decide +kernel
  rcases Option.map_eq_some_iff.mp hsent with ⟨s, hrun, hoffsets⟩
  rcases List.map_eq_singleton_iff.mp hoffsets with ⟨d, hd, hlog⟩
  have horder := h repeatedDelivery (List.prefix_refl _) s hrun d
    (hd ▸ List.mem_singleton_self d)
  have hincreasing := horder.offsets
  rw [hlog] at hincreasing
  exact absurd hincreasing (by decide)

end Stomp

end ChimeraMQ
