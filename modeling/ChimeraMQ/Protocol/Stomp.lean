import ChimeraMQ.Auth.ACL
import ChimeraMQ.Auth.RateLimiter
import ChimeraMQ.Broker.PublishRetry

/-!
# Sessions of STOMP clients

The frames of a client are processed one after the other.  A frame that
connects authenticates the session if the configuration asks for it; sending
and subscribing look at the access control list only.
-/

namespace ChimeraMQ
namespace Stomp

open Foundation
open Message
open Auth

structure Frame where
  command : Bytes
  headers : List (Bytes × Bytes)
  body : Bytes
deriving DecidableEq

namespace Frame

def newFrame (command : Bytes) : Frame where
  command := command
  headers := []
  body := []

/-- The value of a header, whatever the case of its name. -/
def get (f : Frame) (key : Bytes) : Bytes :=
  match getEntry key f.headers with
  | some v => v
  | none =>
    ((f.headers.find? (fun e => equalFold e.1 key)).map Prod.snd).getD []

def set (f : Frame) (key value : Bytes) : Frame :=
  { f with headers := setEntry key value f.headers }

end Frame

def cmdConnect : Bytes := ascii "CONNECT"
def cmdStomp : Bytes := ascii "STOMP"
def cmdSend : Bytes := ascii "SEND"
def cmdSubscribe : Bytes := ascii "SUBSCRIBE"
def cmdUnsubscribe : Bytes := ascii "UNSUBSCRIBE"
def cmdAck : Bytes := ascii "ACK"
def cmdNack : Bytes := ascii "NACK"
def cmdBegin : Bytes := ascii "BEGIN"
def cmdCommit : Bytes := ascii "COMMIT"
def cmdAbort : Bytes := ascii "ABORT"
def cmdDisconnect : Bytes := ascii "DISCONNECT"
def cmdConnected : Bytes := ascii "CONNECTED"
def cmdReceipt : Bytes := ascii "RECEIPT"
def cmdError : Bytes := ascii "ERROR"

/-!
## Sessions
-/

structure Subscription where
  id : Bytes
  destination : Bytes
  ack : Bytes
  consumerID : Bytes
deriving DecidableEq

structure Session where
  id : Bytes
  remoteAddr : Bytes
  subscriptions : List (Bytes × Subscription)
  closed : Bool
  version : Bytes
  identity : Option Identity

structure Server where
  broker : Broker
  authEnabled : Bool
  authLimiter : Option AuthRateLimiter
  aclEngine : Option ACLEngine

structure FrameContext where
  now : Int
  provider : Option (Bytes -> Bytes -> Option (Option Identity))
  writable : Bool
  subscriptionID : Bytes
  errorText : Broker.PublishError -> Bytes
  publish : Broker.PublishContext

inductive SessionError where
  | authRateLimited
  | authFailed
  | sessionClosed
  | write
deriving DecidableEq

/--
A connection with what has come of its frames: the frames written, the messages
published and the subscriptions started.
-/
structure Connection where
  server : Server
  session : Session
  ended : Bool
  written : List Frame
  authenticated : Bool
  published : List Envelope
  delivering : List Subscription

def Server.handleConnection (server : Server) (id remoteAddr : Bytes) :
    Connection where
  server := server
  session :=
    { id := id
      remoteAddr := remoteAddr
      subscriptions := []
      closed := false
      version := ascii "1.2"
      identity := none }
  ended := false
  written := []
  authenticated := false
  published := []
  delivering := []

abbrev Handled := Connection × Option SessionError

namespace Connection

/-!
## Writing
-/

def writeFrame (s : Connection) (frame : Frame) (c : FrameContext) : Handled :=
  if s.session.closed then (s, some .sessionClosed)
  else if c.writable then ({ s with written := s.written ++ [frame] }, none)
  else (s, some .write)

def sendError (s : Connection) (message detail : Bytes) (c : FrameContext) :
    Handled :=
  s.writeFrame
    { (Frame.newFrame cmdError).set (ascii "message") message with
      body := detail } c

def sendReceipt (s : Connection) (frame : Frame) (c : FrameContext) : Handled :=
  if frame.get (ascii "receipt") = [] then (s, none)
  else
    s.writeFrame
      ((Frame.newFrame cmdReceipt).set (ascii "receipt-id")
        (frame.get (ascii "receipt"))) c

def close (s : Connection) : Connection :=
  { s with session := { s.session with closed := true } }

/-!
## Connecting
-/

def authenticate (username password : Bytes) (c : FrameContext) :
    Option (Option Identity) :=
  match c.provider with
  | none => none
  | some provider => provider username password

def negotiate (acceptVersion : Bytes) : Bytes :=
  let versions := (splitOn 44
    (if acceptVersion = [] then ascii "1.0,1.1,1.2" else acceptVersion)).map
      trimSpace
  if versions.contains (ascii "1.2") then ascii "1.2"
  else if versions.contains (ascii "1.1") then ascii "1.1"
  else ascii "1.0"

def sendConnected (s : Connection) (frame : Frame) (c : FrameContext) :
    Handled :=
  let version := negotiate (frame.get (ascii "accept-version"))
  let s := { s with session := { s.session with version := version } }
  s.writeFrame
    (((((Frame.newFrame cmdConnected).set (ascii "version") version).set
      (ascii "session") s.session.id).set
      (ascii "server") (ascii "ChimeraMQ/0.9.0")).set
      (ascii "heart-beat") (ascii "0,0")) c

def refuse (s : Connection) (message : Bytes) (err : SessionError)
    (c : FrameContext) : Handled :=
  ((s.writeFrame ((Frame.newFrame cmdError).set (ascii "message") message)
    c).1, some err)

def limitLogin (s : Connection) (c : FrameContext) : Connection × Bool :=
  match s.server.authLimiter with
  | none => (s, true)
  | some lim =>
    let r := lim.isAllowed (AuthRateLimiter.hostOf s.session.remoteAddr) c.now
    ({ s with server := { s.server with authLimiter := some r.1 } }, r.2)

def recordLogin (s : Connection) (success : Bool) (c : FrameContext) :
    Connection :=
  match s.server.authLimiter with
  | none => s
  | some lim =>
  let clientIP := AuthRateLimiter.hostOf s.session.remoteAddr
  { s with
    server :=
      { s.server with
        authLimiter := some
          (if success then lim.recordSuccess clientIP
          else lim.recordFailed clientIP c.now) } }

def handleConnect (s : Connection) (frame : Frame) (c : FrameContext) :
    Handled :=
  if s.server.authEnabled then
    match s.limitLogin c with
    | (s, false) =>
      s.refuse (ascii "Authentication rate limited") .authRateLimited c
    | (s, true) =>
    match authenticate (frame.get (ascii "login"))
      (frame.get (ascii "passcode")) c with
    | none =>
      (s.recordLogin false c).refuse (ascii "Authentication failed")
        .authFailed c
    | some identity =>
      let s := s.recordLogin true c
      sendConnected
        { s with
          session := { s.session with identity := identity }
          authenticated := true } frame c
  else s.sendConnected frame c

/-!
## Sending and subscribing
-/

def topicOf (destination : Bytes) : Bytes :=
  trimPrefix (trimPrefix (trimPrefix destination (ascii "/"))
    (ascii "topic/")) (ascii "queue/")

def permits (s : Connection) (topic : Bytes) (op : Operation) : Bool :=
  match s.server.aclEngine with
  | none => true
  | some acl => acl.check s.session.identity .topic topic op

def envelopeOf (frame : Frame) (topic : Bytes) : Envelope :=
  { Envelope.zero with
    topic := topic
    payload := frame.body
    contentType := frame.get (ascii "content-type")
    sourceProto := 5 }

def handleSend (s : Connection) (frame : Frame) (c : FrameContext) : Handled :=
  if frame.get (ascii "destination") = [] then
    s.sendError (ascii "Missing destination")
      (ascii "SEND frame must include destination header") c
  else
    let topic := topicOf (frame.get (ascii "destination"))
    if s.permits topic .write = false then
      s.sendError (ascii "Publish denied by ACL")
        (ascii "ACL policy prevents publishing to this destination") c
    else
      let env := envelopeOf frame topic
      match s.server.broker.publish env c.publish with
      | (broker, .error err) =>
        sendError { s with server := { s.server with broker := broker } }
          (ascii "Publish failed") (c.errorText err) c
      | (broker, .ok _) =>
      sendReceipt
        { s with
          server := { s.server with broker := broker }
          published := s.published ++ [env] } frame c

def subscriptionOf (s : Connection) (frame : Frame) (c : FrameContext) :
    Subscription :=
  let subID :=
    if frame.get (ascii "id") = [] then c.subscriptionID
    else frame.get (ascii "id")
  { id := subID
    destination := topicOf (frame.get (ascii "destination"))
    ack :=
      if frame.get (ascii "ack") = [] then ascii "auto"
      else frame.get (ascii "ack")
    consumerID := s.session.id ++ ascii "-" ++ subID }

def handleSubscribe (s : Connection) (frame : Frame) (c : FrameContext) :
    Handled :=
  if frame.get (ascii "destination") = [] then
    s.sendError (ascii "Missing destination")
      (ascii "SUBSCRIBE frame must include destination header") c
  else
    let sub := s.subscriptionOf frame c
    if s.permits sub.destination .read = false then
      s.sendError (ascii "Subscribe denied by ACL")
        (ascii "ACL policy prevents subscribing to this destination") c
    else
      sendReceipt
        { s with
          session :=
            { s.session with
              subscriptions := setEntry sub.id sub s.session.subscriptions }
          delivering := s.delivering ++ [sub] } frame c

def handleUnsubscribe (s : Connection) (frame : Frame) (c : FrameContext) :
    Handled :=
  if frame.get (ascii "id") = [] then
    s.sendError (ascii "Missing id")
      (ascii "UNSUBSCRIBE frame must include id header") c
  else
    sendReceipt
      { s with
        session :=
          { s.session with
            subscriptions :=
              deleteEntry (frame.get (ascii "id")) s.session.subscriptions } }
      frame c

def handleDisconnect (s : Connection) (frame : Frame) (c : FrameContext) :
    Handled :=
  ((s.sendReceipt frame c).1.close, none)

/-!
## The loop of a session
-/

def processFrame (s : Connection) (frame : Frame) (c : FrameContext) :
    Handled :=
  if frame.command = cmdConnect ∨ frame.command = cmdStomp then
    s.handleConnect frame c
  else if frame.command = cmdSend then s.handleSend frame c
  else if frame.command = cmdSubscribe then s.handleSubscribe frame c
  else if frame.command = cmdUnsubscribe then s.handleUnsubscribe frame c
  else if frame.command = cmdAck ∨ frame.command = cmdNack ∨
      frame.command = cmdBegin ∨ frame.command = cmdCommit ∨
      frame.command = cmdAbort then
    s.sendReceipt frame c
  else if frame.command = cmdDisconnect then s.handleDisconnect frame c
  else
    s.sendError (ascii "Invalid command")
      (ascii "Unknown command: " ++ frame.command) c

end Connection

/--
A frame of the client is processed, other connections use the broker and the
limiter, or the access control list is loaded again.
-/
inductive Action where
  | frame (frame : Frame) (c : FrameContext)
  | elsewhere (broker : Broker) (authLimiter : Option AuthRateLimiter)
  | reload (entries : List ACLEntry)

namespace Connection

def step (s : Connection) : Action -> Option Connection
  | .frame frame c =>
    if s.ended then none
    else
      match s.processFrame frame c with
      | (s, none) => some s
      | (s, some _) => some { s with ended := true }.close
  | .elsewhere broker authLimiter =>
    some
      { s with
        server :=
          { s.server with broker := broker, authLimiter := authLimiter } }
  | .reload entries =>
    some
      { s with
        server :=
          { s.server with
            aclEngine := s.server.aclEngine.map (fun acl =>
              acl.setEntries entries) } }

/-- Nothing is published or delivered before a frame has been authenticated. -/
def Guarded (s : Connection) : Prop :=
  s.authenticated = false -> s.published = [] ∧ s.delivering = []

end Connection

/-- Whatever is sent, every session is guarded at every moment. -/
def Server.RequiresAuthentication (server : Server) : Prop :=
  forall (id remoteAddr : Bytes) (actions : List Action) (s : Connection),
    run? Connection.step (server.handleConnection id remoteAddr) actions =
      some s -> s.Guarded

/-!
## What a frame can do
-/

namespace Connection

structure SameView (s s' : Connection) : Prop where
  authEnabled : s'.server.authEnabled = s.server.authEnabled
  aclEngine : s'.server.aclEngine = s.server.aclEngine
  identity : s'.session.identity = s.session.identity
  authenticated : s'.authenticated = s.authenticated
  published : s'.published = s.published
  delivering : s'.delivering = s.delivering

theorem SameView.refl (s : Connection) : SameView s s where
  authEnabled := rfl
  aclEngine := rfl
  identity := rfl
  authenticated := rfl
  published := rfl
  delivering := rfl

variable {s : Connection}

theorem SameView.trans {s1 s2 : Connection} (h : SameView s s1)
    (h' : SameView s1 s2) : SameView s s2 where
  authEnabled := h'.authEnabled.trans h.authEnabled
  aclEngine := h'.aclEngine.trans h.aclEngine
  identity := h'.identity.trans h.identity
  authenticated := h'.authenticated.trans h.authenticated
  published := h'.published.trans h.published
  delivering := h'.delivering.trans h.delivering

theorem sameView_writeFrame (s : Connection) (frame : Frame)
    (c : FrameContext) : SameView s (s.writeFrame frame c).1 := by
  unfold writeFrame
  cases s.session.closed with
  | true => exact SameView.refl s
  | false =>
  cases c.writable with
  | true => exact ⟨rfl, rfl, rfl, rfl, rfl, rfl⟩
  | false => exact SameView.refl s

theorem sameView_sendError (s : Connection) (message detail : Bytes)
    (c : FrameContext) : SameView s (s.sendError message detail c).1 :=
  s.sameView_writeFrame _ c

theorem sameView_sendReceipt (s : Connection) (frame : Frame)
    (c : FrameContext) : SameView s (s.sendReceipt frame c).1 := by
  unfold sendReceipt
  by_cases hnone : frame.get (ascii "receipt") = []
  · rw [if_pos hnone]
    exact SameView.refl s
  · rw [if_neg hnone]
    exact s.sameView_writeFrame _ c

theorem sameView_sendConnected (s : Connection) (frame : Frame)
    (c : FrameContext) : SameView s (s.sendConnected frame c).1 := by
  have hversion : SameView s
      { s with
        session :=
          { s.session with
            version := negotiate (frame.get (ascii "accept-version")) } } :=
    ⟨rfl, rfl, rfl, rfl, rfl, rfl⟩
  exact hversion.trans (sameView_writeFrame _ _ c)

theorem sameView_limitLogin (s : Connection) (c : FrameContext) :
    SameView s (s.limitLogin c).1 := by
  unfold limitLogin
  cases s.server.authLimiter with
  | none => exact SameView.refl s
  | some lim => exact ⟨rfl, rfl, rfl, rfl, rfl, rfl⟩

theorem sameView_recordLogin (s : Connection) (success : Bool)
    (c : FrameContext) : SameView s (s.recordLogin success c) := by
  unfold recordLogin
  cases s.server.authLimiter with
  | none => exact SameView.refl s
  | some lim => exact ⟨rfl, rfl, rfl, rfl, rfl, rfl⟩

/-!
## Sessions that are sealed
-/

structure Sealed (s : Connection) : Prop where
  authEnabled : s.server.authEnabled = true
  denies : exists acl, s.server.aclEngine = some acl ∧ acl.defaultPolicy = .deny
  anonymous : s.authenticated = false -> s.session.identity = none
  guarded : s.Guarded

theorem Sealed.sameView {s' : Connection} (h : s.Sealed) (hview : SameView s s') :
    s'.Sealed where
  authEnabled := hview.authEnabled.trans h.authEnabled
  denies := by
    rw [hview.aclEngine]
    exact h.denies
  anonymous := by
    rw [hview.authenticated, hview.identity]
    exact h.anonymous
  guarded := by
    intro hnot
    rw [hview.authenticated] at hnot
    rw [hview.published, hview.delivering]
    exact h.guarded hnot

theorem Sealed.authenticated_of_permits (h : s.Sealed) {topic : Bytes}
    {op : Operation} (hpermits : s.permits topic op = true) :
    s.authenticated = true := by
  rcases h.denies with ⟨acl, hacl, hdeny⟩
  cases hauth : s.authenticated with
  | true => rfl
  | false =>
  have hcheck : s.permits topic op = false := by
    unfold permits
    rw [hacl, h.anonymous hauth]
    show decide (acl.defaultPolicy = .allow) = false
    rw [hdeny]
    rfl
  rw [hcheck] at hpermits
  cases hpermits

theorem sealed_of_authenticated (hauth : s.server.authEnabled = true)
    (hdenies : exists acl, s.server.aclEngine = some acl ∧
      acl.defaultPolicy = .deny) (h : s.authenticated = true) : s.Sealed where
  authEnabled := hauth
  denies := hdenies
  anonymous := by
    intro hnot
    rw [h] at hnot
    cases hnot
  guarded := by
    intro hnot
    rw [h] at hnot
    cases hnot

theorem Sealed.handleConnect (h : s.Sealed) (frame : Frame) (c : FrameContext) :
    (s.handleConnect frame c).1.Sealed := by
  unfold Connection.handleConnect
  rw [if_pos h.authEnabled]
  have hlimit := h.sameView (s.sameView_limitLogin c)
  cases hlogin : s.limitLogin c with
  | mk s1 allowed =>
    rw [hlogin] at hlimit
    cases allowed with
    | false => exact hlimit.sameView (sameView_writeFrame _ _ c)
    | true =>
    have hrecord := fun success =>
      hlimit.sameView (s1.sameView_recordLogin success c)
    simp only
    cases authenticate (frame.get (ascii "login"))
        (frame.get (ascii "passcode")) c with
    | none =>
      exact (hrecord false).sameView (sameView_writeFrame _ _ c)
    | some identity =>
    apply Sealed.sameView _ (sameView_sendConnected _ frame c)
    exact sealed_of_authenticated (hrecord true).authEnabled
      (hrecord true).denies rfl

theorem Sealed.handleSend (h : s.Sealed) (frame : Frame) (c : FrameContext) :
    (s.handleSend frame c).1.Sealed := by
  unfold Connection.handleSend
  by_cases hdest : frame.get (ascii "destination") = []
  · rw [if_pos hdest]
    exact h.sameView (s.sameView_sendError _ _ c)
  rw [if_neg hdest]
  simp only
  cases hpermits :
      s.permits (topicOf (frame.get (ascii "destination"))) .write with
  | false => exact h.sameView (s.sameView_sendError _ _ c)
  | true =>
  rw [if_neg Bool.noConfusion]
  cases s.server.broker.publish (envelopeOf frame
      (topicOf (frame.get (ascii "destination")))) c.publish with
  | mk broker result =>
    cases result with
    | error err =>
      have hbroker : SameView s
          { s with server := { s.server with broker := broker } } :=
        ⟨rfl, rfl, rfl, rfl, rfl, rfl⟩
      exact h.sameView
        (hbroker.trans (sameView_sendError _ _ _ c))
    | ok offset =>
    apply Sealed.sameView _ (sameView_sendReceipt _ frame c)
    exact sealed_of_authenticated h.authEnabled h.denies
      (h.authenticated_of_permits hpermits)

theorem Sealed.handleSubscribe (h : s.Sealed) (frame : Frame) (c : FrameContext) :
    (s.handleSubscribe frame c).1.Sealed := by
  unfold Connection.handleSubscribe
  by_cases hdest : frame.get (ascii "destination") = []
  · rw [if_pos hdest]
    exact h.sameView (s.sameView_sendError _ _ c)
  rw [if_neg hdest]
  simp only
  cases hpermits : s.permits (s.subscriptionOf frame c).destination .read with
  | false => exact h.sameView (s.sameView_sendError _ _ c)
  | true =>
  rw [if_neg Bool.noConfusion]
  apply Sealed.sameView _ (sameView_sendReceipt _ frame c)
  exact sealed_of_authenticated h.authEnabled h.denies
    (h.authenticated_of_permits hpermits)

theorem sameView_handleUnsubscribe (s : Connection) (frame : Frame)
    (c : FrameContext) : SameView s (s.handleUnsubscribe frame c).1 := by
  unfold handleUnsubscribe
  by_cases hid : frame.get (ascii "id") = []
  · rw [if_pos hid]
    exact s.sameView_sendError _ _ c
  rw [if_neg hid]
  have hdelete : SameView s
      { s with
        session :=
          { s.session with
            subscriptions := deleteEntry (frame.get (ascii "id"))
              s.session.subscriptions } } :=
    ⟨rfl, rfl, rfl, rfl, rfl, rfl⟩
  exact hdelete.trans (sameView_sendReceipt _ frame c)

theorem sameView_handleDisconnect (s : Connection) (frame : Frame)
    (c : FrameContext) : SameView s (s.handleDisconnect frame c).1 :=
  (s.sameView_sendReceipt frame c).trans ⟨rfl, rfl, rfl, rfl, rfl, rfl⟩

theorem Sealed.processFrame (h : s.Sealed) (frame : Frame) (c : FrameContext) :
    (s.processFrame frame c).1.Sealed := by
  unfold Connection.processFrame
  split
  · exact h.handleConnect frame c
  split
  · exact h.handleSend frame c
  split
  · exact h.handleSubscribe frame c
  split
  · exact h.sameView (s.sameView_handleUnsubscribe frame c)
  split
  · exact h.sameView (s.sameView_sendReceipt frame c)
  · split
    · exact h.sameView (s.sameView_handleDisconnect frame c)
    · exact h.sameView (s.sameView_sendError _ _ c)

theorem Sealed.step {s' : Connection} (h : s.Sealed) {a : Action}
    (hstep : s.step a = some s') : s'.Sealed := by
  cases a with
  | frame frame c =>
    have hframe := h.processFrame frame c
    simp only [Connection.step] at hstep
    by_cases hended : s.ended = true
    · rw [if_pos hended] at hstep
      cases hstep
    rw [if_neg hended] at hstep
    cases hprocess : s.processFrame frame c with
    | mk s1 err =>
      rw [hprocess] at hframe hstep
      cases err with
      | none =>
        cases hstep
        exact hframe
      | some err =>
      cases hstep
      exact hframe.sameView ⟨rfl, rfl, rfl, rfl, rfl, rfl⟩
  | elsewhere broker authLimiter =>
    cases hstep
    exact h.sameView ⟨rfl, rfl, rfl, rfl, rfl, rfl⟩
  | reload entries =>
  cases hstep
  rcases h.denies with ⟨acl, hacl, hdeny⟩
  constructor
  · exact h.authEnabled
  · refine ⟨acl.setEntries entries, ?_, hdeny⟩
    rw [hacl]
    rfl
  · exact h.anonymous
  · exact h.guarded

end Connection

/-!
## Sessions that are open
-/

def subscribeFrame : Frame where
  command := cmdSubscribe
  headers := [(ascii "destination", ascii "/topic/t")]
  body := []

def exampleContext : FrameContext where
  now := 0
  provider := none
  writable := true
  subscriptionID := ascii "sub-0"
  errorText := fun _ => []
  publish := Broker.callAt 0

theorem delivering_of_permits {s : Connection} (hended : s.ended = false)
    (hpermits : s.permits (ascii "t") .read = true) :
    exists s', s.step (.frame subscribeFrame exampleContext) = some s' ∧
      s'.authenticated = s.authenticated ∧ s'.delivering ≠ [] := by
  have hallowed : s.permits
      (s.subscriptionOf subscribeFrame exampleContext).destination .read =
        true :=
    hpermits
  have hhandle : s.processFrame subscribeFrame exampleContext =
      s.handleSubscribe subscribeFrame exampleContext :=
    rfl
  simp only [Connection.step]
  rw [if_neg (by rw [hended]; exact Bool.noConfusion), hhandle]
  unfold Connection.handleSubscribe
  rw [if_neg (by decide)]
  simp only [hallowed]
  refine ⟨_, rfl, rfl, ?_⟩
  exact List.concat_ne_nil _ _

/--
A server that authenticates has all its sessions guarded exactly if it has an
access control list that denies by default.
-/
theorem requiresAuthentication_iff {server : Server}
    (hauth : server.authEnabled = true) :
    server.RequiresAuthentication <->
      exists acl, server.aclEngine = some acl ∧ acl.defaultPolicy = .deny := by
  constructor
  · intro h
    by_contra hopen
    have hpermits : (server.handleConnection [] []).permits (ascii "t") .read =
        true := by
      unfold Connection.permits
      show (match server.aclEngine with
        | none => true
        | some acl => acl.check none .topic (ascii "t") .read) = true
      cases hacl : server.aclEngine with
      | none => rfl
      | some acl =>
      cases hpolicy : acl.defaultPolicy with
      | allow =>
        show decide (acl.defaultPolicy = .allow) = true
        rw [hpolicy]
        rfl
      | deny => exact absurd ⟨acl, hacl, hpolicy⟩ hopen
    rcases delivering_of_permits rfl hpermits with
      ⟨s', hstep, hnot, hdelivering⟩
    have hrun : run? Connection.step (server.handleConnection [] [])
        [.frame subscribeFrame exampleContext] = some s' := by
      unfold run?
      rw [hstep]
      rfl
    exact hdelivering (h [] [] _ s' hrun hnot).right
  · intro hdenies id remoteAddr actions s hrun
    have hstart : (server.handleConnection id remoteAddr).Sealed :=
      ⟨hauth, hdenies, fun _ => rfl, fun _ => ⟨rfl, rfl⟩⟩
    exact (run?_invariant (fun _ _ _ h hstep => h.step hstep) hstart
      hrun).guarded

def authServer (aclEngine : Option ACLEngine) : Server where
  broker := { Broker.limitedBroker with flowCtrl := none }
  authEnabled := true
  authLimiter := some
    (AuthRateLimiter.newAuthRateLimiter 5 900000000000 1800000000000)
  aclEngine := aclEngine

/-- A server that denies everything to everybody. -/
theorem requiresAuthentication_deny :
    (authServer (some (ACLEngine.newACLEngine .deny))).authEnabled = true ∧
      (authServer
        (some (ACLEngine.newACLEngine .deny))).RequiresAuthentication := by
  constructor
  · rfl
  · apply (requiresAuthentication_iff rfl).mpr
    exact ⟨ACLEngine.newACLEngine .deny, rfl, rfl⟩

def sendFrame : Frame where
  command := cmdSend
  headers := [(ascii "destination", ascii "/topic/t")]
  body := [1]

def unconnected : List Action :=
  [.frame sendFrame exampleContext, .frame subscribeFrame exampleContext]

/-- Without an access control list both are done, and the message is stored. -/
theorem not_requiresAuthentication_unconnected :
    (authServer none).authEnabled = true ∧
      (run? Connection.step
        ((authServer none).handleConnection (ascii "s") (ascii "10.0.0.1:1"))
        unconnected).map (fun s => (s.authenticated,
          s.published.map Envelope.payload,
          s.delivering.map Subscription.destination)) =
        some (false, [[1]], [ascii "t"]) ∧
      ((authServer none).broker.publish
        (Connection.envelopeOf sendFrame (ascii "t"))
        exampleContext.publish).2 = .ok (.stored 0) ∧
      ¬ (authServer none).RequiresAuthentication := by
  have hview : (run? Connection.step
      ((authServer none).handleConnection (ascii "s") (ascii "10.0.0.1:1"))
      unconnected).map (fun s => (s.authenticated,
        s.published.map Envelope.payload,
        s.delivering.map Subscription.destination)) =
      some (false, [[1]], [ascii "t"]) := by
    decide +kernel
  refine ⟨rfl, hview, by decide +kernel, ?_⟩
  intro h
  rcases Option.map_eq_some_iff.mp hview with ⟨s, hrun, hs⟩
  rw [Prod.mk.injEq, Prod.mk.injEq] at hs
  have hguarded := (h _ _ _ s hrun hs.left).left
  rw [hguarded] at hs
  cases hs.right.left

end Stomp
end ChimeraMQ
