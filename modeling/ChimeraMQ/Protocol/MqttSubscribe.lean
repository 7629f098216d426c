import ChimeraMQ.Foundation.Address
import ChimeraMQ.Foundation.Wildcards
import ChimeraMQ.Protocol.MqttSession

/-!
# Subscribing in a session of MQTT

The messages that are kept for the topics of a subscription are delivered with
packet ids that are not in flight.
-/

namespace ChimeraMQ
namespace Mqtt

open Foundation
open Auth

def packetSubscribe : UInt8 := 8
def packetSubAck : UInt8 := 9
def packetUnsubscribe : UInt8 := 10
def packetUnsubAck : UInt8 := 11

structure SubTopic where
  filter : Bytes
  qos : UInt8
deriving DecidableEq

def readToEnd {α : Type} (item : Reader StreamError α) :
    Nat -> Reader StreamError (List α)
  | 0 => pure []
  | k + 1 => fun s =>
    if s = [] then .ok ([], s)
    else (do
      let a <- item
      let rest <- readToEnd item k
      pure (a :: rest)) s

def readSubTopic : Reader StreamError SubTopic := do
  let filter <- readString
  let qos <- takeByte .unexpectedEOF
  pure { filter := filter, qos := qos }

def parseSubscribe (data : Bytes) :
    Except StreamError (UInt16 × List SubTopic) :=
  ((do
    let packetID <- readUint16
    let topics <- readToEnd readSubTopic data.length
    pure (packetID, topics) : Reader StreamError _) data).map Prod.fst

def parseUnsubscribe (data : Bytes) :
    Except StreamError (UInt16 × List Bytes) :=
  ((do
    let packetID <- readUint16
    let topics <- readToEnd readString data.length
    pure (packetID, topics) : Reader StreamError _) data).map Prod.fst

/-!
## Topics
-/

def filterPartsMatch : List Bytes -> List Bytes -> Bool
  | [], topicParts => topicParts.isEmpty
  | filterParts, [] => filterParts.all (fun part => part = ascii "#")
  | f :: filterParts, t :: topicParts =>
    if f = ascii "#" then true
    else if f = ascii "+" then filterPartsMatch filterParts topicParts
    else if f ≠ t then false
    else filterPartsMatch filterParts topicParts

def filterMatches (filter topic : Bytes) : Bool :=
  filterPartsMatch (splitOn 47 filter) (splitOn 47 topic)

theorem plus_ne_hash : ascii "+" ≠ ascii "#" := by
  decide

theorem filterPartsMatch_iff {filterParts : List Bytes}
    (hlast : ascii "#" ∉ filterParts.dropLast) (topicParts : List Bytes) :
    filterPartsMatch filterParts topicParts = true <->
      Expands (ascii "+") (ascii "#") filterParts topicParts := by
  induction filterParts generalizing topicParts with
  | nil => simp [filterPartsMatch, expands_nil]
  | cons f filterParts ih =>
  cases topicParts with
  | nil => simp [filterPartsMatch, expands_nil_right plus_ne_hash]
  | cons t topicParts =>
  rw [filterPartsMatch]
  by_cases hhash : f = ascii "#"
  · have hnone : filterParts = [] := by
      by_contra hsome
      rw [hhash, List.dropLast_cons_of_ne_nil hsome] at hlast
      exact hlast (List.mem_cons_self ..)
    rw [if_pos hhash, hhash, hnone, expands_many]
    exact iff_of_true rfl ⟨[], List.nil_suffix, expands_nil.mpr rfl⟩
  have hrest : ascii "#" ∉ filterParts.dropLast := by
    intro hmem
    have hsome : filterParts ≠ [] := by
      intro hnone
      rw [hnone] at hmem
      cases hmem
    rw [List.dropLast_cons_of_ne_nil hsome] at hlast
    exact hlast (List.mem_cons_of_mem f hmem)
  rw [if_neg hhash]
  by_cases hplus : f = ascii "+"
  · rw [if_pos hplus, hplus, expands_one plus_ne_hash, ih hrest]
  rw [if_neg hplus, expands_item hhash hplus]
  by_cases ht : f = t
  · simp [ht, ih hrest]
  · simp [ht]

/--
A filter with a hash at its end at most matches the topics whose levels it
becomes when plus signs and the hash are replaced.
-/
theorem filterMatches_expands (filter topic : Bytes)
    (hlast : ascii "#" ∉ (splitOn 47 filter).dropLast) :
    filterMatches filter topic = true <->
      Expands (ascii "+") (ascii "#") (splitOn 47 filter)
        (splitOn 47 topic) :=
  filterPartsMatch_iff hlast _

theorem filterMatches_parent :
    filterMatches (ascii "sport/+/#") (ascii "sport/") = true <->
      Expands (ascii "+") (ascii "#") (splitOn 47 (ascii "sport/+/#"))
        (splitOn 47 (ascii "sport/")) :=
  filterMatches_expands _ _ (by decide)

def RetainedStore.matching (rs : RetainedStore) (filter : Bytes)
    (order : MapOrder (Bytes × RetainedMessage)) : List RetainedMessage :=
  ((order.order rs.messages).map Prod.snd).filter
    (fun msg => filterMatches filter msg.topic)

/-!
## Packet ids
-/

/--
Look for a packet id that is not in flight, within a number of turns: the
counter goes on by one in each of them, and its low half is the packet id.
-/
def nextPacketIDWithin (inflight : List (UInt16 × InflightMessage)) :
    Nat -> UInt32 -> Option (UInt16 × UInt32)
  | 0, _ => none
  | k + 1, nextPID =>
    let nextPID := nextPID + 1
    let id := nextPID.toUInt16
    if id = 0 then nextPacketIDWithin inflight k nextPID
    else
      match getEntry id inflight with
      | none => some (id, nextPID)
      | some _ => nextPacketIDWithin inflight k nextPID

/-- A session with its subscriptions and the counter of its packet ids. -/
structure Client where
  connection : Connection
  maxQoS : UInt8
  nextPID : UInt32
  subs : List (Bytes × UInt8)

structure PacketContext where
  retained : MapOrder (Bytes × RetainedMessage)
  matching : Nat -> MapOrder (Bytes × RetainedMessage)
  publish : Broker.PublishContext

namespace Client

def inflight (s : Client) : List (UInt16 × InflightMessage) :=
  s.connection.session.inflight

/--
The next packet id.  All of them have been looked at after 65536 turns, so there
is no result if the loop does not end.
-/
def nextPacketID (s : Client) : Option (UInt16 × UInt32) :=
  nextPacketIDWithin s.inflight 65536 s.nextPID

/-!
## Subscriptions
-/

def deliver (grantedQoS : UInt8) :
    List RetainedMessage -> Client -> Option Client
  | [], s => some s
  | rm :: rest, s =>
    match s.nextPacketID with
    | none => none
    | some (pid, nextPID) =>
    let packet := buildPublish rm.topic rm.payload grantedQoS true pid
    deliver grantedQoS rest
      { s with
        nextPID := nextPID
        connection :=
          s.connection.writePacket packetPublish packet.1 packet.2 }

/-- Subscribe to one filter; the answer is the quality of service granted. -/
def subscribeTo (s : Client) (topic : SubTopic)
    (order : MapOrder (Bytes × RetainedMessage)) : Option (Client × UInt8) :=
  let connection := s.connection
  let chimeraTopic := connection.mqttToChimera topic.filter
  if connection.backend.allows connection.session.identity .topic chimeraTopic
      .read = false then some (s, 0x80)
  else if (connection.backend.broker.topics.getTopic chimeraTopic).isNone then
    some (s, 0x80)
  else
    let grantedQoS := if topic.qos > s.maxQoS then s.maxQoS else topic.qos
    let s := { s with subs := setEntry topic.filter grantedQoS s.subs }
    (deliver grantedQoS (connection.retained.matching topic.filter order)
      s).map (fun s => (s, grantedQoS))

def subscribeAll (orders : Nat -> MapOrder (Bytes × RetainedMessage)) :
    List SubTopic -> Client -> Option (Client × List UInt8)
  | [], s => some (s, [])
  | topic :: rest, s =>
    match s.subscribeTo topic (orders rest.length) with
    | none => none
    | some (s, code) =>
      (subscribeAll orders rest s).map (fun r => (r.1, code :: r.2))

def handleSubscribe (s : Client) (pkt : Packet) (c : PacketContext) :
    Option Client :=
  match parseSubscribe pkt.remaining with
  | .error _ => some s
  | .ok (packetID, topics) =>
  (subscribeAll c.matching topics s).map (fun r =>
    { r.1 with
      connection := r.1.connection.writePacket packetSubAck 0
        (be 2 packetID.toNat ++ r.2) })

def handleUnsubscribe (s : Client) (pkt : Packet) : Client :=
  match parseUnsubscribe pkt.remaining with
  | .error _ => s
  | .ok (packetID, topics) =>
  { s with
    subs := topics.foldl (fun subs topic => deleteEntry topic subs) s.subs
    connection := s.connection.writePacket packetUnsubAck 0
      (be 2 packetID.toNat) }

def handlePacket (s : Client) (pkt : Packet) (c : PacketContext) :
    Option Client :=
  if pkt.type = packetSubscribe then s.handleSubscribe pkt c
  else if pkt.type = packetUnsubscribe then some (s.handleUnsubscribe pkt)
  else
    some
      { s with
        connection := s.connection.handlePacket pkt c.retained c.publish }

end Client

/--
A packet of the client is handled, other connections use the broker and the
retained messages, or the client is taken for another identity.
-/
inductive ClientAction where
  | packet (pkt : Packet) (c : PacketContext)
  | elsewhere (backend : Backend) (retained : RetainedStore)
      (identity : Option Identity)

namespace Client

def step (s : Client) : ClientAction -> Option Client
  | .packet pkt c => s.handlePacket pkt c
  | .elsewhere backend retained identity =>
    some
      { s with
        connection :=
          { s.connection with
            backend := backend
            retained := retained
            session := { s.connection.session with identity := identity } } }

end Client

def Server.accept (server : Server) (clientID : Bytes)
    (identity : Option Identity) (maxQoS : UInt8) : Client where
  connection := server.connect clientID identity
  maxQoS := maxQoS
  nextPID := 1
  subs := []

namespace Client

/-- The search for a packet id ends, with one that is not in use. -/
def Allocates (s : Client) : Prop :=
  exists k id nextPID,
    nextPacketIDWithin s.inflight k s.nextPID = some (id, nextPID) ∧
      id ≠ 0 ∧ getEntry id s.inflight = none

def HasFree (s : Client) : Prop :=
  exists id, id ≠ 0 ∧ getEntry id s.inflight = none

/-- The packet id that a message of the client puts in flight. -/
def takenID (s : Connection) (pkt : Packet) : Option UInt16 :=
  match parsePublish pkt with
  | .error _ => none
  | .ok pub =>
  if pub.qos = 2 ∧ pub.packetID ≠ 0 ∧
      s.backend.allows s.session.identity .topic
        (s.mqttToChimera pub.topic) .write = true then
    some pub.packetID
  else none

def LeavesFree (s : Client) : ClientAction -> Prop
  | .packet pkt _ =>
    pkt.type = packetPublish -> forall p,
      takenID s.connection pkt = some p ->
        exists id, id ≠ 0 ∧ id ≠ p ∧ getEntry id s.inflight = none
  | .elsewhere _ _ _ => True

end Client

/-!
## The search
-/

theorem nextPacketIDWithin_eq_none_iff
    {inflight : List (UInt16 × InflightMessage)} {k : Nat} {n : UInt32} :
    nextPacketIDWithin inflight k n = none <->
      forall j, j < k -> (n + 1 + UInt32.ofNat j).toUInt16 = 0 ∨
        getEntry (n + 1 + UInt32.ofNat j).toUInt16 inflight ≠ none := by
  induction k generalizing n with
  | zero => simp [nextPacketIDWithin]
  | succ k ih =>
  have hfirst : n + 1 + UInt32.ofNat 0 = n + 1 := UInt32.add_zero _
  have hrest : nextPacketIDWithin inflight k (n + 1) = none <->
      forall j, j < k ->
        (n + 1 + UInt32.ofNat (j + 1)).toUInt16 = 0 ∨
          getEntry (n + 1 + UInt32.ofNat (j + 1)).toUInt16 inflight ≠
            none := by
    rw [ih]
    refine forall_congr' (fun j => ?_)
    have hnext : n + 1 + 1 + UInt32.ofNat j =
        n + 1 + UInt32.ofNat (j + 1) := by
      rw [UInt32.ofNat_add, UInt32.add_assoc, UInt32.add_comm 1]
      rfl
    rw [hnext]
  rw [Nat.forall_lt_succ_left, hfirst, ← hrest, nextPacketIDWithin]
  by_cases hzero : (n + 1).toUInt16 = 0
  · simp only [hzero, if_true, true_or, true_and]
  cases hget : getEntry (n + 1).toUInt16 inflight with
  | none =>
    simp only [hzero, if_false, reduceCtorEq, ne_eq,
      not_true_eq_false, or_self, false_and]
  | some msg =>
  simp only [hzero, if_false, ne_eq, reduceCtorEq,
    not_false_eq_true, or_true, true_and]

theorem nextPacketIDWithin_spec
    {inflight : List (UInt16 × InflightMessage)} {k : Nat} {n m : UInt32}
    {id : UInt16} (h : nextPacketIDWithin inflight k n = some (id, m)) :
    id ≠ 0 ∧ getEntry id inflight = none := by
  induction k generalizing n with
  | zero => cases h
  | succ k ih =>
  rw [nextPacketIDWithin] at h
  by_cases hzero : (n + 1).toUInt16 = 0
  · simp only [hzero, if_true] at h
    exact ih h
  simp only [hzero, if_false] at h
  cases hget : getEntry (n + 1).toUInt16 inflight with
  | none =>
    rw [hget] at h
    cases h
    exact ⟨hzero, hget⟩
  | some msg =>
  rw [hget] at h
  exact ih h

theorem exists_turn (n : UInt32) (id : UInt16) :
    exists j, j < 65536 ∧ (n + 1 + UInt32.ofNat j).toUInt16 = id := by
  refine ⟨(id - (n + 1).toUInt16).toNat, UInt16.toNat_lt _, ?_⟩
  rw [UInt32.toUInt16_add, UInt32.toUInt16_ofNat', UInt16.ofNat_toNat,
    UInt16.add_comm, UInt16.sub_add_cancel]

namespace Client

variable {s : Client}

theorem hasFree_iff :
    s.HasFree <-> exists r, s.nextPacketID = some r := by
  constructor
  · rintro ⟨id, hid, hfree⟩
    cases hfound : s.nextPacketID with
    | some r => exact ⟨r, rfl⟩
    | none =>
    rcases exists_turn s.nextPID id with ⟨j, hj, hturn⟩
    have hused := nextPacketIDWithin_eq_none_iff.mp hfound j hj
    rw [hturn] at hused
    rcases hused with hzero | hget
    · exact absurd hzero hid
    · exact absurd hfree hget
  · rintro ⟨⟨id, nextPID⟩, h⟩
    exact ⟨id, nextPacketIDWithin_spec h⟩

theorem allocates_iff : s.Allocates <-> s.HasFree := by
  constructor
  · rintro ⟨_, id, _, _, hfree⟩
    exact ⟨id, hfree⟩
  · intro h
    rcases hasFree_iff.mp h with ⟨⟨id, nextPID⟩, hfound⟩
    exact ⟨65536, id, nextPID, hfound, nextPacketIDWithin_spec hfound⟩

/-!
## Steps
-/

theorem inflight_handlePublish (s : Connection) (pkt : Packet)
    (order : MapOrder (Bytes × RetainedMessage))
    (c : Broker.PublishContext) (id : UInt16) :
    getEntry id (s.handlePublish pkt order c).session.inflight = none <->
      getEntry id s.session.inflight = none ∧ takenID s pkt ≠ some id := by
  unfold Connection.handlePublish takenID
  cases parsePublish pkt with
  | error err => simp
  | ok pub =>
  simp only
  cases hallowed : s.backend.allows s.session.identity .topic
      (s.mqttToChimera pub.topic) .write with
  | false => simp
  | true =>
  have hkept : forall backend result,
      ((Connection.logPublish { s with backend := backend } pub
        result).retain pub order).session = s.session := by
    intro backend result
    rcases Connection.logPublish_eq { s with backend := backend } pub
      result with ⟨log, hlog⟩
    rcases Connection.retain_eq
      { s with backend := backend, log := log } pub order with
      ⟨retained, hretain⟩
    rw [hlog, hretain]
  simp only [Bool.true_eq_false, if_false]
  unfold Connection.acknowledge
  by_cases hzero : pub.packetID = 0
  · simp [hzero, hkept]
  rw [if_neg hzero]
  by_cases hone : pub.qos = 1
  · simp [hone, hkept, Connection.writePacket]
  rw [if_neg hone]
  by_cases htwo : pub.qos = 2
  · simp only [htwo, if_true, Connection.writePacket,
      Session.addInflight, hkept]
    by_cases hid : id = pub.packetID
    · rw [hid, getEntry_setEntry]
      simp [hzero]
    · rw [getEntry_setEntry_ne hid]
      simp [Ne.symm hid]
  · simp [htwo, hkept]

theorem inflight_handlePacket {s : Connection} {pkt : Packet}
    (hpublish : pkt.type ≠ packetPublish)
    (order : MapOrder (Bytes × RetainedMessage)) (c : Broker.PublishContext)
    {id : UInt16} (hfree : getEntry id s.session.inflight = none) :
    getEntry id (s.handlePacket pkt order c).session.inflight = none := by
  have hack : forall pid,
      getEntry id (s.session.ackInflight pid).inflight = none := by
    intro pid
    unfold Session.ackInflight
    by_cases hid : id = pid
    · rw [hid]
      exact getEntry_deleteEntry ..
    · exact (getEntry_deleteEntry_ne hid _).trans hfree
  unfold Connection.handlePacket
  rw [if_neg hpublish]
  cases Connection.ackedID pkt.remaining with
  | none => exact hfree
  | some pid =>
  simp only
  split
  · exact hack pid
  split
  · show getEntry id
      (s.session.setInflightState pid .pubRel).inflight = none
    unfold Session.setInflightState
    cases hget : getEntry pid s.session.inflight with
    | none => exact hfree
    | some msg =>
    have hid : id ≠ pid := by
      intro hid
      rw [hid, hget] at hfree
      cases hfree
    exact (getEntry_setEntry_ne hid _ _).trans hfree
  · split
    · exact hack pid
    · exact hfree

theorem HasFree.deliver (h : s.HasFree) (grantedQoS : UInt8)
    (retained : List RetainedMessage) :
    exists s', deliver grantedQoS retained s = some s' ∧
      s'.inflight = s.inflight := by
  induction retained generalizing s with
  | nil => exact ⟨s, rfl, rfl⟩
  | cons rm rest ih =>
  rcases hasFree_iff.mp h with ⟨⟨pid, nextPID⟩, hfound⟩
  unfold Client.deliver
  rw [hfound]
  exact ih h

theorem HasFree.subscribeTo (h : s.HasFree) (topic : SubTopic)
    (order : MapOrder (Bytes × RetainedMessage)) :
    exists r, s.subscribeTo topic order = some r ∧
      r.1.inflight = s.inflight := by
  unfold Client.subscribeTo
  simp only
  split
  · exact ⟨_, rfl, rfl⟩
  split
  · exact ⟨_, rfl, rfl⟩
  generalize (if topic.qos > s.maxQoS then s.maxQoS else topic.qos) = qos
  have hsubs : HasFree
      { s with subs := setEntry topic.filter qos s.subs } := h
  rcases hsubs.deliver qos
    (s.connection.retained.matching topic.filter order) with
    ⟨s', hdeliver, hsame⟩
  rw [hdeliver]
  exact ⟨_, rfl, hsame⟩

theorem HasFree.of_inflight {s' : Client} (h : s.HasFree)
    (hsame : s'.inflight = s.inflight) : s'.HasFree := by
  unfold HasFree
  rw [hsame]
  exact h

theorem HasFree.subscribeAll (h : s.HasFree)
    (orders : Nat -> MapOrder (Bytes × RetainedMessage))
    (topics : List SubTopic) :
    exists r, subscribeAll orders topics s = some r ∧
      r.1.inflight = s.inflight := by
  induction topics generalizing s with
  | nil => exact ⟨_, rfl, rfl⟩
  | cons topic rest ih =>
  rcases h.subscribeTo topic (orders rest.length) with
    ⟨⟨s', code⟩, hfirst, hsame⟩
  rcases ih (h.of_inflight hsame) with ⟨r, hrest, hall⟩
  unfold Client.subscribeAll
  rw [hfirst]
  simp only [hrest]
  exact ⟨_, rfl, hall.trans hsame⟩

theorem HasFree.handlePacket (h : s.HasFree) {pkt : Packet}
    (hpublish : pkt.type ≠ packetPublish) (c : PacketContext) :
    exists s', s.handlePacket pkt c = some s' ∧ s'.HasFree := by
  unfold Client.handlePacket
  split
  · unfold handleSubscribe
    cases parseSubscribe pkt.remaining with
    | error err => exact ⟨s, rfl, h⟩
    | ok sub =>
    rcases h.subscribeAll c.matching sub.2 with ⟨r, hall, hsame⟩
    simp only [hall]
    exact ⟨_, rfl, h.of_inflight hsame⟩
  split
  · refine ⟨_, rfl, h.of_inflight ?_⟩
    unfold handleUnsubscribe
    cases parseUnsubscribe pkt.remaining with
    | error err => rfl
    | ok sub => rfl
  · rcases h with ⟨id, hid, hfree⟩
    exact ⟨_, rfl, id, hid,
      inflight_handlePacket hpublish c.retained c.publish hfree⟩

theorem HasFree.step (h : s.HasFree) (a : ClientAction) :
    exists s', s.step a = some s' ∧ (s'.HasFree <-> s.LeavesFree a) := by
  cases a with
  | elsewhere backend retained identity =>
    exact ⟨_, rfl, fun _ => trivial, fun _ => h⟩
  | packet pkt c =>
  by_cases hpublish : pkt.type = packetPublish
  · have hstep : s.step (.packet pkt c) = some
        { s with
          connection :=
            s.connection.handlePublish pkt c.retained c.publish } := by
      simp only [Client.step, Client.handlePacket,
        Connection.handlePacket, hpublish]
      rfl
    refine ⟨_, hstep, ?_⟩
    have hids := inflight_handlePublish s.connection pkt c.retained
      c.publish
    unfold HasFree LeavesFree inflight
    simp only [hids, hpublish, forall_const]
    constructor
    · rintro ⟨id, hid, hfree, hother⟩ p hp
      refine ⟨id, hid, ?_, hfree⟩
      intro hsame
      rw [hsame] at hother
      exact hother hp
    intro hleaves
    cases htaken : takenID s.connection pkt with
    | none =>
      rcases h with ⟨id, hid, hfree⟩
      exact ⟨id, hid, hfree, (Option.some_ne_none id).symm⟩
    | some p =>
    rcases hleaves p htaken with ⟨id, hid, hother, hfree⟩
    refine ⟨id, hid, hfree, ?_⟩
    intro hsame
    exact hother (Option.some.inj hsame).symm
  · rcases h.handlePacket hpublish c with ⟨s', hstep, hfree⟩
    exact ⟨s', hstep, fun _ hpub => absurd hpub hpublish, fun _ => hfree⟩

/-!
## Runs
-/

/--
In a session the search for a packet id always ends, exactly if no message of
the client takes the last id that is free.
-/
theorem allocates_throughout_iff (server : Server) (clientID : Bytes)
    (identity : Option Identity) (maxQoS : UInt8)
    (actions : List ClientAction) :
    (forall front, front <+: actions -> forall s,
      run? step (server.accept clientID identity maxQoS) front = some s ->
        s.Allocates) <->
      Meets step LeavesFree (server.accept clientID identity maxQoS)
        actions := by
  have hstart : (server.accept clientID identity maxQoS).HasFree :=
    ⟨1, by decide, rfl⟩
  have hkeep : forall (n : Nat) s a s', n < actions.length -> HasFree s ->
      s.LeavesFree a -> s.step a = some s' -> s'.HasFree := by
    intro _ s a s' _ hfree hleaves hstep
    rcases hfree.step a with ⟨t, ht, hsame⟩
    cases hstep.symm.trans ht
    exact hsame.mpr hleaves
  have hbreak : forall (n : Nat) s a, n < actions.length -> HasFree s ->
      ¬ s.LeavesFree a -> exists s', s.step a = some s' ∧ ¬ s'.Allocates := by
    intro _ s a _ hfree hleaves
    rcases hfree.step a with ⟨t, ht, hsame⟩
    refine ⟨t, ht, ?_⟩
    rw [allocates_iff, hsame]
    exact hleaves
  exact @run?_always_iff_meets Client ClientAction step LeavesFree
    (fun _ => HasFree) Allocates actions.length
    (fun _ _ h => allocates_iff.mpr h) hkeep hbreak 0 _ hstart actions
    (by omega)

end Client

/-!
## A client that takes all ids
-/

def unreleased (id : UInt16) : ClientAction :=
  .packet (publishPacket (ascii "t") [] 2 false id)
    { retained := .listed _
      matching := fun _ => .listed _
      publish := Broker.callAt 0 }

theorem aclEngine_handlePublish (s : Connection) (pkt : Packet)
    (order : MapOrder (Bytes × RetainedMessage))
    (c : Broker.PublishContext) :
    (s.handlePublish pkt order c).backend.aclEngine = s.backend.aclEngine := by
  have hanswer : forall (t : Connection) pub chimeraTopic,
      (t.acknowledge pub chimeraTopic).backend = t.backend := by
    intro t pub chimeraTopic
    unfold Connection.acknowledge
    split
    · rfl
    split
    · rfl
    · split
      · rfl
      · rfl
  unfold Connection.handlePublish
  cases parsePublish pkt with
  | error err => rfl
  | ok pub =>
  simp only
  split
  · rfl
  generalize hr : s.backend.publish
    (Connection.envelopeOf pub (s.mqttToChimera pub.topic)) c = r
  rcases Connection.logPublish_eq { s with backend := r.1 } pub r.2 with
    ⟨log, hlog⟩
  rcases Connection.retain_eq
    { s with backend := r.1, log := log } pub order with
    ⟨retained, hretain⟩
  rw [hlog, hanswer, hretain, ← hr]
  exact Backend.aclEngine_publish ..

theorem run_unreleased {ids : List UInt16} (hids : 0 ∉ ids) {s : Client}
    (hacl : s.connection.backend.aclEngine = none) :
    exists s', run? Client.step s (ids.map unreleased) = some s' ∧
      forall id, id ∈ ids ∨ getEntry id s.inflight ≠ none ->
        getEntry id s'.inflight ≠ none := by
  induction ids generalizing s with
  | nil => exact ⟨s, rfl, fun id h => h.resolve_left List.not_mem_nil⟩
  | cons p rest ih =>
  rw [List.mem_cons, not_or] at hids
  rcases hids with ⟨hp, hrest⟩
  have hstep : exists s1, s.step (unreleased p) = some s1 ∧
      s1.connection.backend.aclEngine = none ∧
      forall id, id = p ∨ getEntry id s.inflight ≠ none ->
        getEntry id s1.inflight ≠ none := by
    refine ⟨_, rfl, (aclEngine_handlePublish ..).trans hacl, ?_⟩
    intro id hid hfree
    rcases (Client.inflight_handlePublish _ _ _ _ id).mp hfree with
      ⟨hbefore, htaken⟩
    rcases hid with hsame | hused
    · apply htaken
      unfold Client.takenID
      rw [parsePublish_publishPacket (by decide) [] (by decide)]
      simp [Backend.allows, hacl, hsame, Ne.symm hp]
    · exact hused hbefore
  rcases hstep with ⟨s1, hone, hnone, hused⟩
  rcases ih hrest hnone with ⟨s', hrun, hall⟩
  refine ⟨s', ?_, ?_⟩
  · rw [List.map_cons, run?, hone]
    exact hrun
  intro id hid
  apply hall
  rcases hid with hmem | hflight
  · rcases List.mem_cons.mp hmem with hsame | hlater
    · exact Or.inr (hused id (Or.inl hsame))
    · exact Or.inl hlater
  · exact Or.inr (hused id (Or.inr hflight))

def allIDs : List UInt16 :=
  (List.range 65535).map (fun n => UInt16.ofNat (n + 1))

theorem mem_allIDs {id : UInt16} : id ∈ allIDs <-> id ≠ 0 := by
  unfold allIDs
  rw [List.mem_map]
  constructor
  · rintro ⟨n, hn, hid⟩ hzero
    have hlt := List.mem_range.mp hn
    have hnat := congrArg UInt16.toNat (hid.trans hzero)
    rw [UInt16.toNat_ofNat', Nat.mod_eq_of_lt (by omega)] at hnat
    exact Nat.succ_ne_zero n hnat
  intro hid
  have hpos : id.toNat ≠ 0 := fun hzero => hid (UInt16.toNat_inj.mp hzero)
  have hlt := UInt16.toNat_lt id
  refine ⟨id.toNat - 1, List.mem_range.mpr (by omega), ?_⟩
  rw [Nat.sub_add_cancel (by omega), UInt16.ofNat_toNat]

/-- A broker without an access control list. -/
def openServer : Server :=
  { jobServer with
    backend := { jobServer.backend with aclEngine := none } }

/-- Once all ids are in flight the search for one does not end. -/
theorem not_allocates_allUnreleased :
    ¬ forall front, front <+: allIDs.map unreleased -> forall s,
      run? Client.step (openServer.accept (ascii "worker") none 2) front =
        some s -> s.Allocates := by
  intro h
  have hids : (0 : UInt16) ∉ allIDs := fun hzero => mem_allIDs.mp hzero rfl
  rcases run_unreleased hids
    (show (openServer.accept (ascii "worker") none
      2).connection.backend.aclEngine = none from rfl) with ⟨s, hrun, hused⟩
  have hallocates := h _ (List.prefix_refl _) s hrun
  rcases Client.allocates_iff.mp hallocates with ⟨id, hid, hfree⟩
  exact hused id (Or.inl (mem_allIDs.mpr hid)) hfree

end Mqtt
end ChimeraMQ
