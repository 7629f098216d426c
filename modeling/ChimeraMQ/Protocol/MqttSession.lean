import ChimeraMQ.Protocol.Confinement
import ChimeraMQ.Protocol.MqttPacket

/-!
# Publishing in a session of MQTT

A message of the highest quality of service is acknowledged in four steps, so
that a client which has not seen the first of them may send it again. The
session keeps the message in flight until it is released.
-/

namespace ChimeraMQ
namespace Mqtt

open Foundation
open Message
open Auth

/-!
## Sessions
-/

def packetPubAck : UInt8 := 4
def packetPubRec : UInt8 := 5
def packetPubRel : UInt8 := 6
def packetPubComp : UInt8 := 7

/-- What a message in flight waits for. -/
inductive InflightState where
  | pubSent
  | pubRec
  | pubRel
deriving DecidableEq

structure InflightMessage where
  topic : Bytes
  payload : Bytes
  qos : UInt8
  state : InflightState
deriving DecidableEq

structure Session where
  clientID : Bytes
  identity : Option Identity
  inflight : List (UInt16 × InflightMessage)

namespace Session

def newSession (clientID : Bytes) : Session where
  clientID := clientID
  identity := none
  inflight := []

def addInflight (s : Session) (packetID : UInt16) (topic payload : Bytes)
    (qos : UInt8) : Session :=
  { s with
    inflight :=
      setEntry packetID
        { topic := topic, payload := payload, qos := qos, state := .pubSent }
        s.inflight }

def ackInflight (s : Session) (packetID : UInt16) : Session :=
  { s with inflight := deleteEntry packetID s.inflight }

def setInflightState (s : Session) (packetID : UInt16) (state : InflightState) :
    Session :=
  match getEntry packetID s.inflight with
  | none => s
  | some msg =>
    { s with
      inflight := setEntry packetID { msg with state := state } s.inflight }

end Session

structure RetainedMessage where
  topic : Bytes
  payload : Bytes
  qos : UInt8
deriving DecidableEq

structure RetainedStore where
  messages : List (Bytes × RetainedMessage)
  max : Nat

def RetainedStore.store (rs : RetainedStore) (topic payload : Bytes)
    (qos : UInt8) (order : MapOrder (Bytes × RetainedMessage)) :
    RetainedStore :=
  if payload = [] then { rs with messages := deleteEntry topic rs.messages }
  else
    let messages :=
      if rs.max ≤ rs.messages.length then
        match order.order rs.messages with
        | [] => rs.messages
        | e :: _ => deleteEntry e.1 rs.messages
      else rs.messages
    { rs with
      messages :=
        setEntry topic { topic := topic, payload := payload, qos := qos }
          messages }

inductive Event where
  | published (packetID : UInt16)
  | released (packetID : UInt16)
deriving DecidableEq

/--
A connection with the broker behind it: what has been written in answer to the
packets that publish and acknowledge, and what has come of them.
-/
structure Connection where
  separator : Bytes
  backend : Backend
  retained : RetainedStore
  session : Session
  written : List (UInt8 × UInt8 × Bytes)
  log : List Event

namespace Connection

def writePacket (s : Connection) (pktType flags : UInt8) (data : Bytes) :
    Connection :=
  { s with written := s.written ++ [(pktType, flags, data)] }

/-!
## Publishing
-/

def mqttToChimera (s : Connection) (mqttTopic : Bytes) : Bytes :=
  replaceAll (ascii "/") s.separator mqttTopic

def envelopeOf (pub : PublishPayload) (chimeraTopic : Bytes) : Envelope :=
  { Envelope.zero with
    topic := chimeraTopic
    payload := pub.payload
    sourceProto := 2 }

def logPublish (s : Connection) (pub : PublishPayload)
    (result : Except Broker.PublishError Broker.PublishResult) : Connection :=
  match result with
  | .error _ => s
  | .ok _ =>
    if pub.qos = 2 then
      { s with log := s.log ++ [.published pub.packetID] }
    else s

def retain (s : Connection) (pub : PublishPayload)
    (order : MapOrder (Bytes × RetainedMessage)) : Connection :=
  if pub.retain then
    { s with
      retained := s.retained.store pub.topic pub.payload pub.qos order }
  else s

def acknowledge (s : Connection) (pub : PublishPayload)
    (chimeraTopic : Bytes) : Connection :=
  if pub.packetID = 0 then s
  else if pub.qos = 1 then
    s.writePacket packetPubAck 0 (be 2 pub.packetID.toNat)
  else if pub.qos = 2 then
    writePacket
      { s with
        session :=
          s.session.addInflight pub.packetID chimeraTopic pub.payload 2 }
      packetPubRec 0 (be 2 pub.packetID.toNat)
  else s

def handlePublish (s : Connection) (pkt : Packet)
    (order : MapOrder (Bytes × RetainedMessage))
    (c : Broker.PublishContext) : Connection :=
  match parsePublish pkt with
  | .error _ => s
  | .ok pub =>
  let chimeraTopic := s.mqttToChimera pub.topic
  if s.backend.allows s.session.identity .topic chimeraTopic .write =
      false then s
  else
    let r := s.backend.publish (envelopeOf pub chimeraTopic) c
    ((logPublish { s with backend := r.1 } pub r.2).retain pub
      order).acknowledge pub chimeraTopic

/-!
## The loop of a session
-/

def ackedID : Bytes -> Option UInt16
  | a :: b :: _ => some (UInt16.ofNat (ofBe [a, b]))
  | _ => none

/--
Handle a packet that publishes or acknowledges; those of other types leave what
is modelled as it is, but for the identity.
-/
def handlePacket (s : Connection) (pkt : Packet)
    (order : MapOrder (Bytes × RetainedMessage))
    (c : Broker.PublishContext) : Connection :=
  if pkt.type = packetPublish then s.handlePublish pkt order c
  else
    match ackedID pkt.remaining with
    | none => s
    | some pid =>
    if pkt.type = packetPubAck ∨ pkt.type = packetPubComp then
      { s with session := s.session.ackInflight pid }
    else if pkt.type = packetPubRec then
      writePacket
        { s with session := s.session.setInflightState pid .pubRel }
        packetPubRel 0x02 (be 2 pid.toNat)
    else if pkt.type = packetPubRel then
      writePacket
        { s with
          session := s.session.ackInflight pid
          log := s.log ++ [.released pid] }
        packetPubComp 0 (be 2 pid.toNat)
    else s

end Connection

/--
A packet of the client is handled, other connections use the broker and the
retained messages, or the client is taken for another identity.
-/
inductive Action where
  | packet (pkt : Packet) (order : MapOrder (Bytes × RetainedMessage))
      (c : Broker.PublishContext)
  | elsewhere (backend : Backend) (retained : RetainedStore)
      (identity : Option Identity)

namespace Connection

def step (s : Connection) : Action -> Option Connection
  | .packet pkt order c => some (s.handlePacket pkt order c)
  | .elsewhere backend retained identity =>
    some
      { s with
        backend := backend
        retained := retained
        session := { s.session with identity := identity } }

end Connection

structure Server where
  separator : Bytes
  backend : Backend
  retained : RetainedStore

def Server.connect (server : Server) (clientID : Bytes)
    (identity : Option Identity) : Connection where
  separator := if server.separator = [] then ascii "." else server.separator
  backend := server.backend
  retained := server.retained
  session := { Session.newSession clientID with identity := identity }
  written := []
  log := []

/-!
## Exactly once
-/

/-- Between two messages with one packet id the first of them is released. -/
def AtMostOnce (log : List Event) : Prop :=
  forall p a b c, log = a ++ .published p :: (b ++ .published p :: c) ->
    .released p ∈ b

/-- A message with this packet id has been published and not released since. -/
def Awaits (log : List Event) (p : UInt16) : Prop :=
  exists a b, log = a ++ .published p :: b ∧ .released p ∉ b

namespace Connection

def Publishes (s : Connection) (pub : PublishPayload)
    (c : Broker.PublishContext) : Prop :=
  s.backend.allows s.session.identity .topic (s.mqttToChimera pub.topic)
      .write = true ∧
    exists result, (s.backend.publish
      (envelopeOf pub (s.mqttToChimera pub.topic)) c).2 = .ok result

/--
No message is sent again that waits to be released, unless it is denied by the
access control list or something stands against it at the broker.
-/
def SendsOnce (s : Connection) : Action -> Prop
  | .packet pkt _ c =>
    pkt.type = packetPublish -> forall pub, parsePublish pkt = .ok pub ->
      pub.qos = 2 -> Awaits s.log pub.packetID ->
        s.backend.allows s.session.identity .topic
            (s.mqttToChimera pub.topic) .write = false ∨
          ¬ s.backend.broker.Publishable
            (envelopeOf pub (s.mqttToChimera pub.topic)) c
  | .elsewhere _ _ _ => True

end Connection

/-!
## Logs
-/

theorem atMostOnce_nil : AtMostOnce [] := by
  intro p a b c h
  exact absurd h.symm (List.append_ne_nil_of_right_ne_nil _
    (List.cons_ne_nil _ _))

variable {log : List Event}

theorem concat_cases {a b c : List Event} {x y z : Event}
    (h : log ++ [x] = a ++ y :: (b ++ z :: c)) :
    (z = x ∧ log = a ++ y :: b) ∨
      exists c', log = a ++ y :: (b ++ z :: c') := by
  rcases List.eq_nil_or_concat c with hc | ⟨c', w, hc⟩
  · left
    have hsplit : log ++ [x] = (a ++ y :: b) ++ [z] := by
      rw [h, hc]
      simp
    rcases List.append_inj' hsplit rfl with ⟨hlog, hx⟩
    exact ⟨(List.singleton_inj.mp hx).symm, hlog⟩
  right
  have hsplit : log ++ [x] = (a ++ y :: (b ++ z :: c')) ++ [w] := by
    rw [h, hc]
    simp
  exact ⟨c', (List.append_inj' hsplit rfl).1⟩

theorem AtMostOnce.of_concat {x : Event} (h : AtMostOnce (log ++ [x])) :
    AtMostOnce log := by
  intro q a b c hlog
  refine h q a b (c ++ [x]) ?_
  rw [hlog]
  simp

theorem atMostOnce_published {p : UInt16} :
    AtMostOnce (log ++ [.published p]) <-> AtMostOnce log ∧ ¬ Awaits log p := by
  constructor
  · intro h
    constructor
    · exact h.of_concat
    · rintro ⟨a, b, hlog, hnot⟩
      exact hnot (h p a b [] (by rw [hlog]; simp))
  rintro ⟨honce, hnot⟩ q a b c hlog
  rcases concat_cases hlog with ⟨hq, hold⟩ | ⟨c', hold⟩
  · by_contra hmissing
    cases hq
    exact hnot ⟨a, b, hold, hmissing⟩
  · exact honce q a b c' hold

theorem atMostOnce_released {p : UInt16} :
    AtMostOnce (log ++ [.released p]) <-> AtMostOnce log := by
  constructor
  · exact AtMostOnce.of_concat
  intro honce q a b c hlog
  rcases concat_cases hlog with ⟨hq, -⟩ | ⟨c', hold⟩
  · cases hq
  · exact honce q a b c' hold

/-!
## Steps
-/

namespace Connection

@[simp] theorem log_retain (s : Connection) (pub : PublishPayload)
    (order : MapOrder (Bytes × RetainedMessage)) :
    (s.retain pub order).log = s.log := by
  unfold retain
  split
  · rfl
  · rfl

theorem logPublish_eq (s : Connection) (pub : PublishPayload)
    (result : Except Broker.PublishError Broker.PublishResult) :
    exists log, s.logPublish pub result = { s with log := log } := by
  unfold logPublish
  cases result with
  | error err => exact ⟨s.log, rfl⟩
  | ok r =>
  simp only
  split
  · exact ⟨_, rfl⟩
  · exact ⟨s.log, rfl⟩

theorem retain_eq (s : Connection) (pub : PublishPayload)
    (order : MapOrder (Bytes × RetainedMessage)) :
    exists retained, s.retain pub order = { s with retained := retained } := by
  unfold retain
  split
  · exact ⟨_, rfl⟩
  · exact ⟨s.retained, rfl⟩

@[simp] theorem log_acknowledge (s : Connection) (pub : PublishPayload)
    (chimeraTopic : Bytes) : (s.acknowledge pub chimeraTopic).log = s.log := by
  unfold acknowledge
  split
  · rfl
  split
  · rfl
  · split
    · rfl
    · rfl

theorem publishes_iff (s : Connection) (pub : PublishPayload)
    (c : Broker.PublishContext) :
    s.Publishes pub c <->
      s.backend.allows s.session.identity .topic (s.mqttToChimera pub.topic)
          .write = true ∧
        s.backend.broker.Publishable
          (envelopeOf pub (s.mqttToChimera pub.topic)) c := by
  unfold Publishes
  rw [← Broker.publish_ok_iff]
  have hresult : forall env, (s.backend.publish env c).2 =
      (s.backend.broker.publish env c).2 := by
    intro env
    unfold Backend.publish
    simp only
    split
    · rfl
    · rfl
  rw [hresult]

theorem log_handlePublish (s : Connection) (pkt : Packet)
    (order : MapOrder (Bytes × RetainedMessage))
    (c : Broker.PublishContext) :
    (exists pub, parsePublish pkt = .ok pub ∧ pub.qos = 2 ∧
        s.Publishes pub c ∧
        (s.handlePublish pkt order c).log =
          s.log ++ [.published pub.packetID]) ∨
      (forall pub, parsePublish pkt = .ok pub -> pub.qos = 2 ->
        ¬ s.Publishes pub c) ∧ (s.handlePublish pkt order c).log = s.log := by
  unfold handlePublish Publishes
  cases parsePublish pkt with
  | error err => simp
  | ok pub =>
  simp only [Except.ok.injEq, forall_eq', exists_eq_left']
  cases hallowed : s.backend.allows s.session.identity .topic
      (s.mqttToChimera pub.topic) .write with
  | false => simp
  | true =>
  rw [if_neg (by simp), log_acknowledge, log_retain]
  cases (s.backend.publish
    (envelopeOf pub (s.mqttToChimera pub.topic)) c).2 with
  | error err => simp [logPublish]
  | ok result =>
  by_cases hqos : pub.qos = 2
  · simp [logPublish, hqos]
  · simp [logPublish, hqos]

theorem log_handlePacket_of_ne (s : Connection) {pkt : Packet}
    (hpublish : pkt.type ≠ packetPublish)
    (order : MapOrder (Bytes × RetainedMessage))
    (c : Broker.PublishContext) :
    (s.handlePacket pkt order c).log = s.log ∨
      exists p, (s.handlePacket pkt order c).log = s.log ++ [.released p] := by
  unfold handlePacket
  rw [if_neg hpublish]
  cases ackedID pkt.remaining with
  | none => exact Or.inl rfl
  | some pid =>
  simp only
  split
  · exact Or.inl rfl
  split
  · exact Or.inl rfl
  · split
    · exact Or.inr ⟨pid, rfl⟩
    · exact Or.inl rfl

theorem atMostOnce_step {s s' : Connection} {a : Action}
    (honce : AtMostOnce s.log) (h : s.step a = some s') :
    AtMostOnce s'.log <-> s.SendsOnce a := by
  cases a with
  | elsewhere backend retained identity =>
    cases h
    exact ⟨fun _ => trivial, fun _ => honce⟩
  | packet pkt order c =>
  cases h
  by_cases hpublish : pkt.type = packetPublish
  · have hhandle : s.handlePacket pkt order c =
        s.handlePublish pkt order c := if_pos hpublish
    rw [hhandle]
    rcases s.log_handlePublish pkt order c with
      ⟨pub, hparse, hqos, hpublishes, hlog⟩ | ⟨hnone, hlog⟩
    · rw [hlog, atMostOnce_published]
      have hboth := (publishes_iff ..).mp hpublishes
      constructor
      · rintro ⟨-, hnot⟩ - pub' hparse' -
        cases hparse.symm.trans hparse'
        exact fun hawaits => absurd hawaits hnot
      intro hsends
      refine ⟨honce, fun hawaits => ?_⟩
      rcases hsends hpublish pub hparse hqos hawaits with hdenied | hrefused
      · rw [hboth.left] at hdenied
        cases hdenied
      · exact hrefused hboth.right
    · rw [hlog]
      constructor
      · intro _ _ pub hparse hqos _
        have hnot := hnone pub hparse hqos
        rw [publishes_iff] at hnot
        rw [← Bool.not_eq_true]
        exact not_and_or.mp hnot
      · intro _
        exact honce
  · constructor
    · intro _ h
      exact absurd h hpublish
    intro _
    rcases s.log_handlePacket_of_ne hpublish order c with
      hlog | ⟨p, hlog⟩
    · rw [hlog]
      exact honce
    · rw [hlog]
      exact atMostOnce_released.mpr honce

end Connection

/-!
## Runs
-/

/--
In a session every message is published once at most before it is released,
exactly if none is sent again while it waits.
-/
theorem atMostOnce_iff (server : Server) (clientID : Bytes)
    (identity : Option Identity) (actions : List Action) :
    (forall front, front <+: actions -> forall s,
      run? Connection.step (server.connect clientID identity) front = some s ->
        AtMostOnce s.log) <->
      Meets Connection.step Connection.SendsOnce
        (server.connect clientID identity) actions := by
  have hpossible : forall (s : Connection) (a : Action),
      exists s', s.step a = some s' := by
    intro s a
    cases a with
    | packet pkt order c => exact ⟨_, rfl⟩
    | elsewhere backend retained identity => exact ⟨_, rfl⟩
  have hstart : AtMostOnce (server.connect clientID identity).log :=
    atMostOnce_nil
  exact @run?_throughout_iff_meets Connection Action Connection.step
    Connection.SendsOnce (fun s => AtMostOnce s.log)
    (fun _ _ _ honce h => Connection.atMostOnce_step honce h) hpossible _
    hstart actions

def jobPublish : Packet :=
  publishPacket (ascii "jobs") [1] 2 false 7

def retransmission : List Action :=
  [.packet jobPublish (.listed _) (Broker.callAt 0),
    .packet { jobPublish with flags := jobPublish.flags ||| 0x08 } (.listed _)
      (Broker.callAt 1)]

def jobServer : Server where
  separator := ascii "."
  backend := Protocol.jobsBackend
  retained := { messages := [], max := 10 }

/-- The job has been published twice. -/
theorem not_atMostOnce_retransmission :
    ¬ forall front, front <+: retransmission -> forall s,
      run? Connection.step (jobServer.connect (ascii "worker") none) front =
        some s -> AtMostOnce s.log := by
  intro h
  have hlog : (run? Connection.step
      (jobServer.connect (ascii "worker") none) retransmission).map
        Connection.log = some [.published 7, .published 7] := by
    decide +kernel
  rcases Option.map_eq_some_iff.mp hlog with ⟨s, hrun, hs⟩
  have honce := h retransmission (List.prefix_refl _) s hrun
  exact absurd (honce 7 [] [] [] hs) List.not_mem_nil

/-!
## What an answer means
-/

/-- Nothing has been answered, kept for new subscribers or put in flight. -/
structure Unanswered (s s' : Connection) : Prop where
  written : s'.written = s.written
  retained : forall topic, getEntry topic s'.retained.messages =
    getEntry topic s.retained.messages
  inflight : forall id, getEntry id s'.session.inflight =
    getEntry id s.session.inflight

def RetainedStore.Keeps (rs : RetainedStore) (topic payload : Bytes)
    (qos : UInt8) (order : MapOrder (Bytes × RetainedMessage)) : Prop :=
  if payload = [] then getEntry topic rs.messages = none
  else
    getEntry topic rs.messages =
        some { topic := topic, payload := payload, qos := qos } ∧
      (rs.max ≤ rs.messages.length -> forall e,
        (order.order rs.messages).head? = some e -> e.1 = topic)

namespace Connection

def AnswersPublished (s : Connection) (pkt : Packet)
    (order : MapOrder (Bytes × RetainedMessage))
    (c : Broker.PublishContext) : Prop :=
  forall pub, parsePublish pkt = .ok pub -> pub.qos = 1 ∨ pub.qos = 2 ->
    Unanswered s (s.handlePublish pkt order c) ∨ s.Publishes pub c

/--
The message is denied, or nothing stands against it at the broker, or it has no
packet id to be answered with and nothing new to be kept.
-/
def Answerable (s : Connection) (pkt : Packet)
    (order : MapOrder (Bytes × RetainedMessage))
    (c : Broker.PublishContext) : Prop :=
  forall pub, parsePublish pkt = .ok pub -> pub.qos = 1 ∨ pub.qos = 2 ->
    s.backend.allows s.session.identity .topic (s.mqttToChimera pub.topic)
        .write = false ∨
      s.backend.broker.Publishable
        (envelopeOf pub (s.mqttToChimera pub.topic)) c ∨
      pub.packetID = 0 ∧ (pub.retain = true ->
        s.retained.Keeps pub.topic pub.payload pub.qos order)

end Connection

theorem RetainedStore.keeps_iff (rs : RetainedStore) (topic payload : Bytes)
    (qos : UInt8) (order : MapOrder (Bytes × RetainedMessage)) :
    rs.Keeps topic payload qos order <->
      forall k, getEntry k (rs.store topic payload qos order).messages =
        getEntry k rs.messages := by
  unfold Keeps store
  by_cases hempty : payload = []
  · rw [if_pos hempty, if_pos hempty]
    constructor
    · intro hnone k
      by_cases hk : k = topic
      · rw [hk, getEntry_deleteEntry, hnone]
      · exact getEntry_deleteEntry_ne hk rs.messages
    · intro hsame
      rw [← hsame topic, getEntry_deleteEntry]
  rw [if_neg hempty, if_neg hempty]
  have hset : forall messages : List (Bytes × RetainedMessage),
      (forall k, getEntry k (setEntry topic
        { topic := topic, payload := payload, qos := qos } messages) =
          getEntry k rs.messages) <->
        getEntry topic rs.messages =
            some { topic := topic, payload := payload, qos := qos } ∧
          forall k, k ≠ topic ->
            getEntry k messages = getEntry k rs.messages := by
    intro messages
    constructor
    · intro hsame
      constructor
      · rw [← hsame topic, getEntry_setEntry]
      · intro k hk
        rw [← hsame k, getEntry_setEntry_ne hk]
    rintro ⟨htopic, hother⟩ k
    by_cases hk : k = topic
    · rw [hk, getEntry_setEntry, htopic]
    · rw [getEntry_setEntry_ne hk, hother k hk]
  by_cases hfull : rs.max ≤ rs.messages.length
  · simp only [hfull, forall_const, if_true]
    cases horder : order.order rs.messages with
    | nil =>
      rw [hset]
      simp
    | cons e rest =>
    have hmem : e ∈ rs.messages := by
      rw [← (order.perm rs.messages).mem_iff, horder]
      exact List.mem_cons_self ..
    rw [hset, List.head?_cons]
    refine and_congr_right (fun _ => ⟨?_, ?_⟩)
    · intro hhead k hk
      have hke : k ≠ e.1 := by
        rw [hhead e rfl]
        exact hk
      exact getEntry_deleteEntry_ne hke rs.messages
    intro hother e' he'
    cases he'
    by_contra hne
    have hgone := hother e.1 hne
    rw [getEntry_deleteEntry] at hgone
    exact getEntry_eq_none_iff.mp hgone.symm
      (List.mem_map_of_mem hmem)
  · simp only [hfull, false_implies, and_true, if_false]
    rw [hset]
    simp

namespace Connection

theorem unanswered_acknowledge_iff {s s' : Connection}
    (hwritten : s'.written = s.written) (hretained : s'.retained = s.retained)
    (hsession : s'.session = s.session) {pub : PublishPayload}
    (hqos : pub.qos = 1 ∨ pub.qos = 2)
    (order : MapOrder (Bytes × RetainedMessage)) (chimeraTopic : Bytes) :
    Unanswered s ((s'.retain pub order).acknowledge pub chimeraTopic) <->
      pub.packetID = 0 ∧ (pub.retain = true ->
        s.retained.Keeps pub.topic pub.payload pub.qos order) := by
  have hkept : (s'.retain pub order).written = s.written ∧
      (s'.retain pub order).session = s.session := by
    rcases s'.retain_eq pub order with ⟨retained, hretain⟩
    rw [hretain]
    exact ⟨hwritten, hsession⟩
  constructor
  · intro h
    have hid : pub.packetID = 0 := by
      by_contra hid
      have hlength := congrArg List.length h.written
      unfold acknowledge writePacket at hlength
      rw [if_neg hid] at hlength
      rcases hqos with hone | htwo
      · rw [if_pos hone] at hlength
        simp [hkept.left] at hlength
      · rw [if_neg (by rw [htwo]; decide), if_pos htwo] at hlength
        simp [hkept.left] at hlength
    refine ⟨hid, ?_⟩
    intro hretain
    rw [RetainedStore.keeps_iff]
    have hstore := h.retained
    unfold acknowledge retain at hstore
    rw [if_pos hid, if_pos hretain, hretained] at hstore
    exact hstore
  · rintro ⟨hid, hkeeps⟩
    unfold acknowledge
    rw [if_pos hid]
    refine ⟨hkept.left, ?_, fun id => by rw [hkept.right]⟩
    unfold retain
    by_cases hretain : pub.retain = true
    · rw [if_pos hretain, hretained]
      exact (RetainedStore.keeps_iff ..).mp (hkeeps hretain)
    · rw [if_neg hretain, hretained]
      exact fun _ => rfl

/--
An answer means a published message exactly if the message is denied, can be
published, or leaves nothing to answer or keep.
-/
theorem answersPublished_iff (s : Connection) (pkt : Packet)
    (order : MapOrder (Bytes × RetainedMessage))
    (c : Broker.PublishContext) :
    s.AnswersPublished pkt order c <-> s.Answerable pkt order c := by
  unfold AnswersPublished Answerable
  refine forall_congr' (fun pub => ?_)
  refine imp_congr_right (fun hparse => imp_congr_right (fun hqos => ?_))
  rw [publishes_iff]
  cases hallowed : s.backend.allows s.session.identity .topic
      (s.mqttToChimera pub.topic) .write with
  | false =>
    have hsame : s.handlePublish pkt order c = s := by
      unfold handlePublish
      rw [hparse]
      simp only [hallowed, if_true]
    rw [hsame]
    exact ⟨fun _ => Or.inl rfl, fun _ =>
      Or.inl ⟨rfl, fun _ => rfl, fun _ => rfl⟩⟩
  | true =>
  have hhandled : s.handlePublish pkt order c =
      ((logPublish
        { s with
          backend := (s.backend.publish
            (envelopeOf pub (s.mqttToChimera pub.topic)) c).1 } pub
        (s.backend.publish
          (envelopeOf pub (s.mqttToChimera pub.topic)) c).2).retain pub
            order).acknowledge pub (s.mqttToChimera pub.topic) := by
    unfold handlePublish
    rw [hparse]
    simp only [hallowed, Bool.true_eq_false, if_false]
  generalize s.backend.publish
    (envelopeOf pub (s.mqttToChimera pub.topic)) c = r at hhandled ⊢
  rcases logPublish_eq { s with backend := r.1 } pub r.2 with ⟨log, hlog⟩
  have hunanswered := @unanswered_acknowledge_iff s
    { s with backend := r.1, log := log } rfl rfl rfl pub hqos order
    (s.mqttToChimera pub.topic)
  rw [hhandled, hlog, hunanswered]
  simp only [Bool.true_eq_false, false_or, true_and]
  exact or_comm

end Connection

def lostPublish : Packet :=
  publishPacket (ascii "nowhere") [1] 1 false 7

/-- The client is told that the broker has a message that is nowhere. -/
theorem not_answersPublished_unknownTopic :
    ¬ (jobServer.connect (ascii "worker") none).AnswersPublished lostPublish
      (.listed _) (Broker.callAt 0) := by
  intro h
  have hparse := parsePublish_publishPacket
    (show (ascii "nowhere").length ≤ 65535 by decide) [1]
    (show (1 : UInt8) ≤ 2 by decide) false 7
  rcases h _ hparse (Or.inl rfl) with hunanswered | hpublishes
  · have hwritten := hunanswered.written
    revert hwritten
    decide +kernel
  have hpublishable := ((Connection.publishes_iff ..).mp hpublishes).right
  rcases hpublishable.right with ⟨topicCfg, htopic, _⟩
  have hunknown : (jobServer.backend.broker.topics.getTopic
      (ascii "nowhere")).isNone = true := by
    decide +kernel
  have hnone := Option.isNone_iff_eq_none.mp hunknown
  exact Option.some_ne_none topicCfg (htopic.symm.trans hnone)

end Mqtt
end ChimeraMQ
