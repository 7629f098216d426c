import ChimeraMQ.Broker.PublishRetry
import ChimeraMQ.Protocol.Chimera
import ChimeraMQ.Protocol.WebSocket

/-!
# What the access control list keeps out

The requests of a connection, and which of them the access control list denies.
Publishing, subscribing, fetching, creating and deleting are refused where they
are denied; acknowledgements, commits and the groups of subscriptions are not
looked at.
-/

namespace ChimeraMQ
namespace Protocol

open Foundation
open Auth

inductive Connection where
  | chimera (client : Chimera.ClientConn)
  | ws (session : WebSocket.Session)

structure Server where
  backend : Backend
  connection : Connection

/--
A frame or a message of the client, a round of a loop of one of its
subscriptions, or whatever else happens to the broker.
-/
inductive Event where
  | frame (frame : Chimera.Frame)
  | json (allowMessage : Bool) (msg : Option WebSocket.WsMessage)
      (c : WebSocket.MessageContext)
  | loopRound (i : Nat) (c : Stream.Engine.FetchContext)
  | elsewhere (f : Backend -> Backend)

def Server.step (s : Server) (e : Event) : Option Server :=
  match e, s.connection with
  | .frame frame, .chimera client =>
    let r := client.handleFrame s.backend frame
    some { backend := r.2, connection := .chimera r.1 }
  | .json allowMessage msg c, .ws session =>
    let r := session.handleJSON s.backend allowMessage msg c
    some { backend := r.2, connection := .ws r.1 }
  | .loopRound i c, .ws session =>
    let r := session.loopRound s.backend i c
    some { backend := r.2, connection := .ws r.1 }
  | .elsewhere f, connection =>
    some { backend := f s.backend, connection := connection }
  | _, _ => none

/-!
## Requests
-/

structure Access where
  rt : ResourceType
  name : Bytes
  op : Operation

/-- The operations that stand for the requests which no handler checks. -/
structure Rights where
  ack : Operation
  nack : Operation
  commit : Operation
  commitTopic : Operation
  join : Operation

def frameAccesses (rights : Rights) : Chimera.Frame -> List Access
  | .publish payload _ => [⟨.topic, payload.topic, .write⟩]
  | .subscribe topic _ => [⟨.topic, topic, .read⟩]
  | .fetch payload _ => [⟨.topic, payload.topic, .read⟩]
  | .ack topic _ => [⟨.topic, topic, rights.ack⟩]
  | .nack topic _ _ => [⟨.topic, topic, rights.nack⟩]
  | .commitOffset payload _ =>
    [⟨.consumerGroup, payload.group, rights.commit⟩,
      ⟨.topic, payload.topic, rights.commitTopic⟩]
  | .createTopic name _ _ _ => [⟨.topic, name, .create⟩]
  | .deleteTopic name _ => [⟨.topic, name, .delete⟩]
  | .batchPublish _ | .connect _ _ | .ping | .disconnect | .unhandled => []

def groupAccesses (rights : Rights) (s : Backend)
    (msg : WebSocket.WsMessage) : List Access :=
  match s.broker.topics.getTopic msg.topic with
  | none => []
  | some topicInfo =>
    if topicInfo.mode = .stream ∧ msg.group ≠ [] then
      [⟨.consumerGroup, msg.group, rights.join⟩]
    else []

def messageAccesses (rights : Rights) (s : Backend)
    (msg : WebSocket.WsMessage) : List Access :=
  match msg.op with
  | .publish => [⟨.topic, msg.topic, .write⟩]
  | .subscribe => ⟨.topic, msg.topic, .read⟩ :: groupAccesses rights s msg
  | .fetch => [⟨.topic, msg.topic, .read⟩]
  | .ack => [⟨.topic, msg.topic, rights.ack⟩]
  | .nack => [⟨.topic, msg.topic, rights.nack⟩]
  | .commit => [⟨.consumerGroup, msg.group, rights.commit⟩]
  | .createTopic => [⟨.topic, msg.topic, .create⟩]
  | .deleteTopic => [⟨.topic, msg.topic, .delete⟩]
  | .unsubscribe | .ping | .unknown => []

def allowsAll (s : Backend) (identity : Option Identity)
    (accesses : List Access) : Bool :=
  accesses.all (fun a => s.allows identity a.rt a.name a.op)

def allowedMessages (s : Backend) (identity : Option Identity)
    (messages : List (Chimera.PublishPayload × Broker.PublishContext)) :
    List (Chimera.PublishPayload × Broker.PublishContext) :=
  messages.filter (fun message =>
    s.allows identity .topic message.1.topic .write)

def permitFrame (rights : Rights) (s : Backend) (identity : Option Identity) :
    Chimera.Frame -> Option Chimera.Frame
  | .batchPublish messages =>
    some (.batchPublish (allowedMessages s identity messages))
  | frame =>
    if allowsAll s identity (frameAccesses rights frame) then some frame
    else none

namespace Server

def permit (rights : Rights) (s : Server) (e : Event) : Option Event :=
  match e, s.connection with
  | .frame frame, .chimera client =>
    (permitFrame rights s.backend client.identity frame).map Event.frame
  | .json true (some msg) c, .ws session =>
    if allowsAll s.backend session.identity
        (messageAccesses rights s.backend msg) then
      some (.json true (some msg) c)
    else none
  | e, _ => some e

/--
The state of the broker is the same as if no denied request had been sent.
-/
def Confined (rights : Rights) (s : Server) (events : List Event) : Prop :=
  (run? step s (permitted step (permit rights) s events)).map Server.backend =
    (run? step s events).map Server.backend

end Server

/-!
## The condition
-/

/-- A frame that is handled unchecked finds nothing to change. -/
def IdleFrame (s : Backend) : Chimera.Frame -> Prop
  | .ack topic offsets => forall o, o ∈ offsets -> ¬ s.Pending topic o
  | .nack topic _ offsets =>
    forall o, o ∈ offsets -> ¬ s.Pending topic o.offset
  | .commitOffset payload _ =>
    (s.broker.topics.getTopic payload.topic = none ∨ s.closed = true) ∧
      getEntry payload.group s.groups = none
  | _ => True

/-- The same for messages; a subscription does not get as far as its group. -/
def IdleMessage (s : Backend) (session : WebSocket.Session)
    (msg : WebSocket.WsMessage) : Prop :=
  match msg.op with
  | .ack | .nack => ¬ s.Pending msg.topic msg.offset
  | .commit => msg.group = [] ∨ getEntry msg.group s.groups = none
  | .subscribe =>
    msg.topic = [] ∨ session.subTopic ≠ [] ∨
      s.allows session.identity .topic msg.topic .read = false
  | _ => True

instance (s : Backend) (frame : Chimera.Frame) :
    Decidable (IdleFrame s frame) :=
  match frame with
  | .ack topic offsets =>
    inferInstanceAs (Decidable (forall o, o ∈ offsets -> ¬ s.Pending topic o))
  | .nack topic _ offsets =>
    inferInstanceAs (Decidable (forall o, o ∈ offsets ->
      ¬ s.Pending topic o.offset))
  | .commitOffset payload _ =>
    decidable_of_iff
      (((s.broker.topics.getTopic payload.topic).isNone ∨ s.closed = true) ∧
        (getEntry payload.group s.groups).isNone)
      (by simp only [Option.isNone_iff_eq_none, IdleFrame])
  | .publish _ _ => isTrue trivial
  | .batchPublish _ => isTrue trivial
  | .subscribe _ _ => isTrue trivial
  | .fetch _ _ => isTrue trivial
  | .createTopic _ _ _ _ => isTrue trivial
  | .deleteTopic _ _ => isTrue trivial
  | .connect _ _ => isTrue trivial
  | .ping => isTrue trivial
  | .disconnect => isTrue trivial
  | .unhandled => isTrue trivial

instance (s : Backend) (session : WebSocket.Session)
    (msg : WebSocket.WsMessage) : Decidable (IdleMessage s session msg) := by
  unfold IdleMessage
  cases msg.op with
  | ack => exact inferInstanceAs (Decidable (¬ _))
  | nack => exact inferInstanceAs (Decidable (¬ _))
  | commit =>
    exact decidable_of_iff
      (msg.group = [] ∨ (getEntry msg.group s.groups).isNone)
      (by simp only [Option.isNone_iff_eq_none])
  | subscribe => exact inferInstanceAs (Decidable (_ ∨ _ ∨ _))
  | publish => exact isTrue trivial
  | unsubscribe => exact isTrue trivial
  | fetch => exact isTrue trivial
  | createTopic => exact isTrue trivial
  | deleteTopic => exact isTrue trivial
  | ping => exact isTrue trivial
  | unknown => exact isTrue trivial

/-- The condition once nothing of the event is permitted. -/
def Server.Idle (s : Server) (e : Event) : Prop :=
  match e, s.connection with
  | .frame frame, .chimera client =>
    client.connected = true -> IdleFrame s.backend frame
  | .json _ (some msg) _, .ws session => IdleMessage s.backend session msg
  | _, _ => True

instance (s : Server) (e : Event) : Decidable (s.Idle e) := by
  unfold Server.Idle
  split
  · exact inferInstanceAs (Decidable (_ -> _))
  · exact inferInstanceAs (Decidable (IdleMessage ..))
  · exact isTrue trivial

/-- A denied request is refused or finds nothing to change. -/
def Server.Spares (rights : Rights) (s : Server) (e : Event) : Prop :=
  s.permit rights e = none -> s.Idle e

instance (rights : Rights) (s : Server) (e : Event) :
    Decidable (s.Spares rights e) :=
  decidable_of_iff ((s.permit rights e).isNone -> s.Idle e)
    (by simp only [Option.isNone_iff_eq_none, Server.Spares])

/-!
## Denied requests
-/

theorem allowsAll_singleton (s : Backend) (identity : Option Identity)
    (rt : ResourceType) (name : Bytes) (op : Operation) :
    allowsAll s identity [⟨rt, name, op⟩] = s.allows identity rt name op := by
  unfold allowsAll
  rw [List.all_cons, List.all_nil, Bool.and_true]

variable {s : Backend} {topic : Bytes}

theorem handleAck_idle {offsets : List Nat}
    (h : forall o, o ∈ offsets -> ¬ s.Pending topic o) :
    Chimera.handleAck s topic offsets = s := by
  induction offsets with
  | nil => rfl
  | cons o rest ih =>
  have hone := Backend.handleAck_of_not_pending
    (h o (List.mem_cons_self ..))
  unfold Chimera.handleAck at ih ⊢
  rw [List.foldl_cons, hone]
  exact ih (fun o' ho' => h o' (List.mem_cons_of_mem _ ho'))

theorem handleNack_idle {partitionID : Nat} {offsets : List Chimera.NackOffset}
    (h : forall o, o ∈ offsets -> ¬ s.Pending topic o.offset) :
    Chimera.handleNack s topic partitionID offsets = s := by
  induction offsets with
  | nil => rfl
  | cons o rest ih =>
  have hone := Backend.handleNack_of_not_pending
    (h o (List.mem_cons_self ..))
  unfold Chimera.handleNack at ih ⊢
  rw [List.foldl_cons]
  unfold Chimera.handleNackOffset
  rw [hone]
  exact ih (fun o' ho' => h o' (List.mem_cons_of_mem _ ho'))

variable {client : Chimera.ClientConn}

theorem handleCommitOffset_idle {payload : Chimera.CommitPayload}
    (htopic : s.broker.topics.getTopic payload.topic = none ∨ s.closed = true)
    (hgroup : getEntry payload.group s.groups = none) (now : Int) :
    client.handleCommitOffset s payload now = s := by
  unfold Chimera.ClientConn.handleCommitOffset
  cases hcfg : s.broker.topics.getTopic payload.topic with
  | none =>
    simp only
    rw [Backend.commitOffset_of_no_group hgroup]
  | some topicCfg =>
  have hclosed : s.closed = true :=
    htopic.resolve_left (by rw [hcfg]; exact Option.some_ne_none _)
  have hjoin : s.joinGroup payload.group payload.topic client.clientID
      topicCfg.partitions .range now = s := by
    unfold Backend.joinGroup Stream.Engine.joinGroup
    rw [if_pos (show s.streamEngine.closed = true from hclosed)]
    rfl
  simp only [hjoin]
  rw [Backend.commitOffset_of_no_group hgroup]

theorem not_of_none {p : Prop} [Decidable p] {α : Type} {a : α}
    (h : (if p then some a else none) = none) : ¬ p :=
  fun hp => Option.some_ne_none a (ite_eq_right_iff.mp h hp)

theorem allows_of_denied {identity : Option Identity} {rt : ResourceType}
    {name : Bytes} {op : Operation}
    (h : ¬ allowsAll s identity [⟨rt, name, op⟩] = true) :
    (!s.allows identity rt name op) = true := by
  rw [allowsAll_singleton, Bool.not_eq_true] at h
  rw [h]
  rfl

variable {rights : Rights}

theorem handleFrame_denied {frame : Chimera.Frame}
    (hdenied : permitFrame rights s client.identity frame = none)
    (hidle : client.connected = true -> IdleFrame s frame) :
    client.handleFrame s frame = (client, s) := by
  unfold Chimera.ClientConn.handleFrame
  by_cases hconnected : client.connected = true
  · rw [if_neg (by rw [hconnected]; exact Bool.false_ne_true)]
    have hidle := hidle hconnected
    cases frame with
    | batchPublish messages => cases hdenied
    | connect payload clientSeq =>
      exact absurd hdenied (Option.some_ne_none _)
    | ping => exact absurd hdenied (Option.some_ne_none _)
    | disconnect => exact absurd hdenied (Option.some_ne_none _)
    | unhandled => exact absurd hdenied (Option.some_ne_none _)
    | publish payload c =>
      have hnot := not_of_none hdenied
      simp only [Chimera.ClientConn.handlePublish,
        if_pos (allows_of_denied hnot)]
    | subscribe topic mode =>
      have hnot := not_of_none hdenied
      simp only [Chimera.ClientConn.handleSubscribe,
        if_pos (allows_of_denied hnot)]
    | fetch payload c =>
      have hnot := not_of_none hdenied
      simp only [Chimera.ClientConn.handleFetch,
        if_pos (allows_of_denied hnot)]
    | createTopic name mode partitions c =>
      have hnot := not_of_none hdenied
      simp only [Chimera.ClientConn.handleCreateTopic,
        if_pos (allows_of_denied hnot)]
    | deleteTopic name c =>
      have hnot := not_of_none hdenied
      simp only [Chimera.ClientConn.handleDeleteTopic,
        if_pos (allows_of_denied hnot)]
    | ack topic offsets => simp only [handleAck_idle hidle]
    | nack topic partitionID offsets => simp only [handleNack_idle hidle]
    | commitOffset payload now =>
      simp only [handleCommitOffset_idle hidle.left hidle.right]
  · rw [if_pos (by rw [Bool.not_eq_true] at hconnected; rw [hconnected]; rfl)]

theorem handleMessage_denied {session : WebSocket.Session}
    {msg : WebSocket.WsMessage} (c : WebSocket.MessageContext)
    (hdenied : ¬ allowsAll s session.identity
      (messageAccesses rights s msg) = true) (hidle : IdleMessage s session msg) :
    session.handleMessage s msg c = (session, s) := by
  unfold messageAccesses at hdenied
  unfold IdleMessage at hidle
  unfold WebSocket.Session.handleMessage
  cases hop : msg.op with
  | publish =>
    rw [hop] at hdenied
    simp only [WebSocket.Session.handlePublishJSON,
      if_pos (allows_of_denied hdenied), ite_self]
  | fetch =>
    rw [hop] at hdenied
    simp only [WebSocket.Session.handleFetchJSON,
      if_pos (allows_of_denied hdenied), ite_self]
  | createTopic =>
    rw [hop] at hdenied
    simp only [WebSocket.Session.handleCreateTopicJSON,
      if_pos (allows_of_denied hdenied), ite_self]
  | deleteTopic =>
    rw [hop] at hdenied
    simp only [WebSocket.Session.handleDeleteTopicJSON,
      if_pos (allows_of_denied hdenied), ite_self]
  | ack =>
    rw [hop] at hidle
    simp only [WebSocket.handleAckJSON,
      Backend.handleAck_of_not_pending hidle]
  | nack =>
    rw [hop] at hidle
    simp only [WebSocket.handleNackJSON,
      Backend.handleNack_of_not_pending hidle]
  | commit =>
    rw [hop] at hidle
    unfold WebSocket.handleCommitJSON
    rcases hidle with hempty | hgroup
    · simp only [if_pos hempty]
    · simp only [Backend.commitOffset_of_no_group hgroup, ite_self]
  | subscribe =>
    rw [hop] at hidle
    unfold WebSocket.Session.handleSubscribeJSON
    rcases hidle with hempty | hsubscribed | hread
    · simp only [if_pos hempty]
    · simp only [if_pos hsubscribed, ite_self]
    simp only [hread, Bool.not_false, if_true]
    cases s.broker.topics.getTopic msg.topic with
    | none => simp only [ite_self]
    | some topicInfo => simp only [ite_self]
  | unsubscribe =>
    rw [hop] at hdenied
    exact absurd rfl hdenied
  | ping => rfl
  | unknown => rfl

theorem allowedMessages_congr {s' : Backend} (h : s'.aclEngine = s.aclEngine)
    (identity : Option Identity)
    (messages : List (Chimera.PublishPayload × Broker.PublishContext)) :
    allowedMessages s' identity messages =
      allowedMessages s identity messages := by
  unfold allowedMessages Backend.allows
  rw [h]

theorem aclEngine_handleBatchMessage (client : Chimera.ClientConn)
    (s : Backend) (message : Chimera.PublishPayload × Broker.PublishContext) :
    (client.handleBatchMessage s message).aclEngine = s.aclEngine := by
  unfold Chimera.ClientConn.handleBatchMessage
  split
  · rfl
  · exact Backend.aclEngine_publish _ _ _

theorem handleBatchPublish_allowed (client : Chimera.ClientConn) (s : Backend)
    (messages : List (Chimera.PublishPayload × Broker.PublishContext)) :
    client.handleBatchPublish s (allowedMessages s client.identity messages) =
      client.handleBatchPublish s messages := by
  induction messages generalizing s with
  | nil => rfl
  | cons message rest ih =>
  have hrest := ih (client.handleBatchMessage s message)
  rw [allowedMessages_congr
    (aclEngine_handleBatchMessage client s message)] at hrest
  unfold Chimera.ClientConn.handleBatchPublish at hrest ⊢
  unfold allowedMessages at hrest ⊢
  by_cases hallow :
      s.allows client.identity .topic message.1.topic .write = true
  · rw [List.filter_cons_of_pos (by exact hallow), List.foldl_cons,
      List.foldl_cons]
    exact hrest
  have hskip : client.handleBatchMessage s message = s := by
    rw [Bool.not_eq_true] at hallow
    unfold Chimera.ClientConn.handleBatchMessage
    rw [hallow]
    rfl
  rw [hskip] at hrest
  rw [List.filter_cons_of_neg (by exact hallow), List.foldl_cons, hskip]
  exact hrest

theorem handleFrame_batchPublish (client : Chimera.ClientConn) (s : Backend)
    (messages : List (Chimera.PublishPayload × Broker.PublishContext)) :
    client.handleFrame s (.batchPublish
        (allowedMessages s client.identity messages)) =
      client.handleFrame s (.batchPublish messages) := by
  unfold Chimera.ClientConn.handleFrame
  simp only [handleBatchPublish_allowed]

theorem handleFrame_permitted {frame permitted : Chimera.Frame}
    (h : permitFrame rights s client.identity frame = some permitted) :
    client.handleFrame s permitted = client.handleFrame s frame := by
  unfold permitFrame at h
  split at h
  · cases h
    exact handleFrame_batchPublish client s _
  · cases (Option.ite_none_right_eq_some.mp h).right
    rfl

theorem obeys_message {session : WebSocket.Session} {msg : WebSocket.WsMessage}
    {c : WebSocket.MessageContext}
    (h : Server.Spares rights ⟨s, .ws session⟩ (.json true (some msg) c)) :
    Obeys Server.step (Server.permit rights) ⟨s, .ws session⟩
      (.json true (some msg) c) := by
  unfold Obeys
  by_cases hall : allowsAll s session.identity
    (messageAccesses rights s msg) = true
  · have hsome : Server.permit rights ⟨s, .ws session⟩
        (.json true (some msg) c) = some (.json true (some msg) c) :=
      if_pos hall
    rw [hsome]
  have hnone : Server.permit rights ⟨s, .ws session⟩
      (.json true (some msg) c) = none := if_neg hall
  simp only [hnone, Server.step, WebSocket.Session.handleJSON,
    handleMessage_denied c hall (h hnone)]

theorem obeys_of_spares {s : Server} {e : Event} (h : s.Spares rights e) :
    Obeys Server.step (Server.permit rights) s e := by
  rcases s with ⟨s, connection⟩
  unfold Obeys
  cases e with
  | frame frame =>
    cases connection with
    | ws session => rfl
    | chimera client =>
    cases hpermit : permitFrame rights s client.identity frame with
    | none =>
      have hnone : Server.permit rights ⟨s, .chimera client⟩
          (.frame frame) = none := by
        simp only [Server.permit, hpermit,
          Option.map_none]
      simp only [hnone, Server.step,
        handleFrame_denied hpermit (h hnone)]
    | some permitted =>
    have hsome : Server.permit rights ⟨s, .chimera client⟩
        (.frame frame) = some (.frame permitted) := by
      simp only [Server.permit, hpermit,
        Option.map_some]
    simp only [hsome, Server.step, handleFrame_permitted hpermit]
  | json allowMessage msg c =>
    cases allowMessage with
    | false => cases connection <;> rfl
    | true =>
    cases msg with
    | none => cases connection <;> rfl
    | some msg =>
    cases connection with
    | chimera client => rfl
    | ws session => exact obeys_message h
  | loopRound i c => rfl
  | elsewhere f => rfl

/-!
## Unchecked requests
-/

theorem not_confined_of_changes {s t : Server} {e : Event}
    (hdenied : s.permit rights e = none) (hstep : s.step e = some t)
    (hchanged : t.backend ≠ s.backend) : ¬ s.Confined rights [e] := by
  intro h
  unfold Server.Confined permitted permitted at h
  simp only [hdenied, run?, hstep, Option.map_some, Option.some.injEq] at h
  exact hchanged h.symm

theorem pending_handleAck {offsets : List Nat} {o : Nat} :
    (Chimera.handleAck s topic offsets).Pending topic o <->
      s.Pending topic o ∧ o ∉ offsets := by
  induction offsets generalizing s with
  | nil => exact (and_iff_left List.not_mem_nil).symm
  | cons o' rest ih =>
  have hone := s.pending_handleAck topic o' o
  unfold Chimera.handleAck at ih ⊢
  rw [List.foldl_cons, ih, hone, List.mem_cons, not_or, and_assoc]

theorem not_confined_of_taken {t : Backend} {connection : Connection}
    {e : Event} (hdenied : Server.permit rights ⟨s, connection⟩ e = none)
    (hstep : Server.step ⟨s, connection⟩ e = some ⟨t, connection⟩)
    {offset : Nat} (hpending : s.Pending topic offset)
    (htaken : ¬ t.Pending topic offset) :
    ¬ Server.Confined rights ⟨s, connection⟩ [e] := by
  apply not_confined_of_changes hdenied hstep
  intro hsame
  apply htaken
  rw [show t = s from hsame]
  exact hpending

theorem not_confined_ack {offsets : List Nat} {o : Nat}
    (hconnected : client.connected = true)
    (hdenied : s.allows client.identity .topic topic rights.ack = false)
    (ho : o ∈ offsets) (hpending : s.Pending topic o) :
    ¬ Server.Confined rights ⟨s, .chimera client⟩
      [.frame (.ack topic offsets)] := by
  have hpermit : Server.permit rights ⟨s, .chimera client⟩
      (.frame (.ack topic offsets)) = none := by
    simp only [Server.permit, permitFrame, frameAccesses, allowsAll_singleton,
      hdenied, Bool.false_eq_true, if_false, Option.map_none]
  have hstep : Server.step ⟨s, .chimera client⟩ (.frame (.ack topic offsets)) =
      some ⟨Chimera.handleAck s topic offsets, .chimera client⟩ := by
    simp only [Server.step, Chimera.ClientConn.handleFrame, hconnected,
      Bool.not_true, Bool.false_eq_true, if_false]
  apply not_confined_of_taken hpermit hstep hpending
  intro hstill
  exact (pending_handleAck.mp hstill).right ho

/-!
## Runs
-/

/--
In a run whose events all meet the condition the state of the broker is always
the same as if no denied request had been sent.
-/
theorem confined_of_spares {rights : Rights} {s : Server}
    {events front : List Event}
    (h : Meets Server.step (Server.Spares rights) s events)
    (hfront : front <+: events) : s.Confined rights front := by
  have hobeys := (h.of_prefix hfront).mono (fun _ _ => obeys_of_spares)
  unfold Server.Confined
  rw [run?_permitted hobeys]

/-!
## A client that is denied a topic
-/

def jobs : Bytes := ascii "jobs"

def jobsBackend : Backend where
  broker :=
    { Broker.limitedBroker with
      topics :=
        { topics := [(jobs, Broker.clientTopic jobs (ascii "queue") 1)]
          rrCounters := []
          maxTopics := 0
          maxPartitionsPerTopic := 0 }
      flowCtrl := none }
  metaFile := .missing
  dlqTopics := []
  queueEngine := (Queue.newQueueEngine false).addConsumer jobs
    { id := ascii "worker", prefetch := 1, inFlight := [] }
  groups := []
  offsets := { files := [], cache := [] }
  decryptor := none
  closed := false
  aclEngine := some
    { entries :=
        [{ principal := ascii "mallory"
           resourceType := .topic
           resourceName := jobs
           operation := .all
           permission := .deny }]
      defaultPolicy := .allow }
  authEnabled := true
  maxFetchMessages := 10000

def mallory : Chimera.ClientConn where
  identity := some { userID := ascii "mallory", roles := [] }
  clientID := ascii "m"
  subs := []
  connected := true

def ownJob : Chimera.PublishPayload where
  topic := jobs
  routingKey := []
  priority := 0
  ttl := 0
  deliverAt := 0
  headers := Message.Headers.empty
  body := [1]

/-- What the same requests need over HTTP; a commit reads its topic as well. -/
def httpRights : Rights where
  ack := .write
  nack := .write
  commit := .write
  commitTopic := .read
  join := .write

def idleEvents : List Event :=
  [.frame (.publish ownJob (Broker.callAt 0)), .frame (.ack jobs [0])]

theorem confined_idleEvents :
    Server.Confined httpRights ⟨jobsBackend, .chimera mallory⟩ idleEvents :=
  confined_of_spares (by decide +kernel) (List.prefix_refl _)

/-- The worker has been given a job by somebody else. -/
def busyBackend : Backend :=
  (jobsBackend.publish (ownJob.envelope ownJob.headers) (Broker.callAt 0)).1

/-- The client takes the worker's job away. -/
theorem not_confined_ackedJob :
    ¬ Server.Confined httpRights ⟨busyBackend, .chimera mallory⟩
      [.frame (.ack jobs [0])] :=
  not_confined_ack rfl (by decide +kernel) (List.mem_singleton_self 0)
    (by decide +kernel)

end Protocol
end ChimeraMQ
