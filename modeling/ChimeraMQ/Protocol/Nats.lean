import ChimeraMQ.Auth.RateLimiter
import ChimeraMQ.Broker.Backend
import ChimeraMQ.Protocol.NatsStream

/-!
# Sessions of NATS clients

The commands of a client are processed one after the other.  A client has to
connect before it publishes or subscribes; the subjects that it names are topics
with other separators.
-/

namespace ChimeraMQ
namespace Nats

open Foundation
open Auth

/-!
## Sessions
-/

structure Subscription where
  subject : Bytes
  sid : Bytes
  queue : Bytes
  group : Bytes
deriving DecidableEq

structure ClientInfo where
  user : Bytes
  pass : Bytes
  authToken : Bytes
deriving DecidableEq

structure Session where
  id : Bytes
  remoteAddr : Bytes
  subscriptions : List (Bytes × Subscription)
  closed : Bool
  connected : Bool
  info : ClientInfo
  identity : Option Identity

inductive SessionError where
  | invalidConnectJSON
  | authRateLimited
  | authViolation
  | sessionClosed
  | write
deriving DecidableEq

/--
The clock and the answers of other components while a command is processed.
-/
structure CommandContext where
  now : Int
  info : Option ClientInfo
  provider : Option (Bytes -> Bytes -> Bytes -> Option (Option Identity))
  writable : Bool
  verbose : Bool
  errorText : Broker.PublishError -> Bytes
  publish : Broker.PublishContext

structure Connection where
  backend : Backend
  authLimiter : Option AuthRateLimiter
  session : Session
  ended : Bool
  written : List Bytes
  delivering : List Subscription

abbrev Handled := Connection × Option SessionError

namespace Connection

/-!
## Writing
-/

def writeString (s : Connection) (str : Bytes) (writable : Bool) : Handled :=
  if s.session.closed then (s, some .sessionClosed)
  else if writable then ({ s with written := s.written ++ [str] }, none)
  else (s, some .write)

def sendOk (s : Connection) (c : CommandContext) : Handled :=
  s.writeString (ascii "+OK" ++ ClientCommand.crlf) c.writable

def sendError (s : Connection) (msg : Bytes) (c : CommandContext) : Handled :=
  s.writeString
    (ascii "-ERR '" ++ msg ++ ascii "'" ++ ClientCommand.crlf) c.writable

def close (s : Connection) : Connection :=
  { s with session := { s.session with closed := true } }

/-!
## Connecting
-/

def refuse (s : Connection) (msg : Bytes) (err : SessionError)
    (c : CommandContext) : Handled :=
  ((s.sendError msg c).1, some err)

def limitLogin (s : Connection) (c : CommandContext) : Connection × Bool :=
  match s.authLimiter with
  | none => (s, true)
  | some lim =>
    let r := lim.isAllowed (AuthRateLimiter.hostOf s.session.remoteAddr) c.now
    ({ s with authLimiter := some r.1 }, r.2)

def recordLogin (s : Connection) (success : Bool) (c : CommandContext) :
    Connection :=
  match s.authLimiter with
  | none => s
  | some lim =>
  let clientIP := AuthRateLimiter.hostOf s.session.remoteAddr
  { s with
    authLimiter := some
      (if success then lim.recordSuccess clientIP
      else lim.recordFailed clientIP c.now) }

def authenticate (info : ClientInfo) (c : CommandContext) :
    Option (Option Identity) :=
  match c.provider with
  | none => none
  | some provider => provider info.user info.pass info.authToken

def connected (s : Connection) (c : CommandContext) : Handled :=
  let s := { s with session := { s.session with connected := true } }
  if c.verbose then s.sendOk c else (s, none)

def logIn (s : Connection) (c : CommandContext) : Handled :=
  if s.backend.authEnabled then
    match s.limitLogin c with
    | (s, false) =>
      s.refuse (ascii "Authorization rate limited") .authRateLimited c
    | (s, true) =>
    match authenticate s.session.info c with
    | none =>
      (s.recordLogin false c).refuse (ascii "Authorization Violation")
        .authViolation c
    | some identity =>
      let s := s.recordLogin true c
      connected
        { s with session := { s.session with identity := identity } } c
  else s.connected c

def handleConnect (s : Connection) (msg : Message) (c : CommandContext) :
    Handled :=
  if msg.args = [] then s.logIn c
  else
    match c.info with
    | none => s.refuse (ascii "Invalid CONNECT JSON") .invalidConnectJSON c
    | some info => logIn { s with session := { s.session with info := info } } c

/-!
## Publishing and subscribing
-/

def publishTopic (subject : Bytes) : Bytes :=
  replaceAll (ascii ".") (ascii "/") (trimPrefix subject (ascii "foo."))

def subscribeTopic (subject : Bytes) : Bytes :=
  replaceAll (ascii ".") (ascii "/") subject

def envelopeOf (msg : Message) (topic : Bytes) : Message.Envelope :=
  { Message.Envelope.zero with
    topic := topic
    payload := msg.payload
    contentType := ascii "application/octet-stream"
    sourceProto := 6
    routingKey :=
      match msg.args with
      | _ :: replyTo :: _ => if atoi replyTo = none then replyTo else []
      | _ => [] }

def handlePub (s : Connection) (msg : Message) (c : CommandContext) : Handled :=
  if !s.session.connected then s.sendError (ascii "Not connected") c
  else
    match msg.args with
    | [] => s.sendError (ascii "PUB requires subject") c
    | subject :: _ =>
    let topic := publishTopic subject
    if !s.backend.allows s.session.identity .topic topic .write then
      s.sendError (ascii "Publish denied by ACL") c
    else
      match s.backend.publish (envelopeOf msg topic) c.publish with
      | (backend, .error err) =>
        sendError { s with backend := backend }
          (ascii "Publish failed: " ++ c.errorText err) c
      | (backend, .ok _) => sendOk { s with backend := backend } c

def handleSub (s : Connection) (msg : Message) (c : CommandContext) : Handled :=
  if !s.session.connected then s.sendError (ascii "Not connected") c
  else
    match msg.args with
    | subject :: sid :: rest =>
      if !s.backend.allows s.session.identity .topic (subscribeTopic subject)
          .read then
        s.sendError (ascii "Subscribe denied by ACL") c
      else
        let sub : Subscription :=
          { subject := subject
            sid := sid
            queue := rest.head?.getD []
            group := s.session.id ++ ascii "-" ++ sid }
        ({ s with
            session :=
              { s.session with
                subscriptions := setEntry sid sub s.session.subscriptions }
            delivering := s.delivering ++ [sub] }, none)
    | _ => s.sendError (ascii "SUB requires subject and sid") c

def handleUnsub (s : Connection) (msg : Message) (c : CommandContext) :
    Handled :=
  if !s.session.connected then s.sendError (ascii "Not connected") c
  else
    match msg.args with
    | [] => s.sendError (ascii "UNSUB requires sid") c
    | sid :: _ =>
    ({ s with
        session :=
          { s.session with
            subscriptions := deleteEntry sid s.session.subscriptions } },
      none)

/-!
## The loop of a session
-/

def processMessage (s : Connection) (msg : Message) (c : CommandContext) :
    Handled :=
  if msg.command = cmdConnect then s.handleConnect msg c
  else if msg.command = cmdPub then s.handlePub msg c
  else if msg.command = cmdSub then s.handleSub msg c
  else if msg.command = cmdUnsub then s.handleUnsub msg c
  else if msg.command = cmdPing then
    s.writeString (ascii "PONG" ++ ClientCommand.crlf) c.writable
  else if msg.command = cmdPong then (s, none)
  else if msg.command = cmdHpub then s.handlePub msg c
  else s.sendError (ascii "Unknown command: " ++ msg.command) c

def handleCommand (s : Connection) (msg : Message) (c : CommandContext) :
    Option Connection :=
  if s.ended then none
  else
    match s.processMessage msg c with
    | (s, none) => some s
    | (s, some _) => some { s with ended := true }.close

end Connection

end Nats
end ChimeraMQ
