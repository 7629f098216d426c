import ChimeraMQ.Protocol.Amqp
import ChimeraMQ.Protocol.Confinement

/-!
# Links of AMQP

A client attaches links to the channels of its connection, each under a handle,
and a transfer tells the handle of its link.  The handle of a transfer is not
looked at: the message goes to the address of any link of the channel that
sends.
-/

namespace ChimeraMQ
namespace Amqp

open Auth
open Foundation
open Message

structure Link where
  name : Bytes
  handle : UInt32
  role : UInt8
  addr : Bytes
  credit : UInt32
  delivered : UInt32
deriving DecidableEq

structure Channel where
  remoteChannel : UInt16
  nextOutID : UInt32
  links : List (UInt32 × Link)
  handle_eq : forall e, e ∈ links -> e.2.handle = e.1

inductive Event where
  | checked (addr : Bytes)
  | published (topic payload : Bytes)
deriving DecidableEq

/--
A connection with the broker behind it: what has been written to the client, and
what has been asked of the broker.
-/
structure Connection where
  backend : Backend
  identity : Option Identity
  containerID : Bytes
  channels : List (UInt16 × Channel)
  written : List (UInt16 × Bytes)
  log : List Event

inductive HandleError where
  | value (err : TypeError)
  | expectedList (performative : String)
  | channelNotFound (channel : UInt16)
  | publish (err : Broker.PublishError)
  | unknownDescriptor (desc : UInt64)
  | connectionClosed

def descOpen : UInt64 := 0x0000000060000001
def descBegin : UInt64 := 0x0000000060000002
def descFlow : UInt64 := 0x0000000060000004
def descTransfer : UInt64 := 0x0000000060000005
def descDisposition : UInt64 := 0x0000000060000006
def descDetach : UInt64 := 0x0000000060000007
def descEnd : UInt64 := 0x0000000060000008
def descClose : UInt64 := 0x0000000060000009

def buildOpen (containerID hostname : Bytes) : Bytes :=
  buildDescribedList descOpen [.string containerID, .string hostname, .null]

def buildBegin (_remoteChannel : UInt16)
    (nextOutgoingID incomingWindow outgoingWindow _handleMax : UInt32) :
    Bytes :=
  buildDescribedList descBegin
    [.null, .uint nextOutgoingID, .uint incomingWindow, .uint outgoingWindow,
      .null]

def buildAttach (name : Bytes) (handle : UInt32) (role : UInt8)
    (targetAddr : Bytes) : Bytes :=
  buildDescribedList descAttach (attachFields name handle role targetAddr)

def buildDetach (handle : UInt32) (closed : Bool) : Bytes :=
  buildDescribedList descDetach
    [.uint handle, .ubyte (if closed then 1 else 0)]

def buildEnd : Bytes :=
  buildDescribedList descEnd [.null]

def buildClose : Bytes :=
  buildDescribedList descClose [.null, .null]

/-!
## Fields that are read
-/

def readFields (performative : String) (value : Bytes) :
    Except HandleError (List Value × Bytes) :=
  match readAny value with
  | .error err => .error (.value err)
  | .ok (.list items, rest) => .ok (items, rest)
  | .ok _ => .error (.expectedList performative)

def uintAt (items : List Value) (i : Nat) : UInt32 :=
  match items[i]? with
  | some (.uint n) => n
  | _ => 0

def ubyteAt (items : List Value) (i : Nat) : UInt8 :=
  match items[i]? with
  | some (.ubyte n) => n
  | _ => 0

def ulongAt (items : List Value) (i : Nat) : Option UInt64 :=
  match items[i]? with
  | some (.ulong n) => some n
  | _ => none

def bytesAt (items : List Value) (i : Nat) : Bytes :=
  match items[i]? with
  | some (.binary b) => b
  | _ => []

/-- What follows the fields; there is a text in its place if nothing does. -/
def extractPayload (performative remaining : Bytes) : Bytes :=
  if remaining ≠ [] then remaining
  else
    ascii "amqp-payload-" ++
      ascii (String.ofList (Nat.toDigits 10 performative.length))

/-!
## Channels
-/

namespace Channel

def attach (ch : Channel) (link : Link) : Channel where
  remoteChannel := ch.remoteChannel
  nextOutID := ch.nextOutID
  links := setEntry link.handle link ch.links
  handle_eq := by
    intro e he
    rcases mem_setEntry he with hnew | hold
    · rw [hnew]
    · exact ch.handle_eq e hold

def detach (ch : Channel) (handle : UInt32) : Channel where
  remoteChannel := ch.remoteChannel
  nextOutID := ch.nextOutID
  links := deleteEntry handle ch.links
  handle_eq := fun e he => ch.handle_eq e (List.mem_of_mem_filter he)

def setCredit (ch : Channel) (handle credit : UInt32) : Channel :=
  match getEntry handle ch.links with
  | none => ch
  | some link => ch.attach { link with credit := credit }

def setDelivered (ch : Channel) (last : UInt64) : Channel where
  remoteChannel := ch.remoteChannel
  nextOutID := ch.nextOutID
  links := ch.links.map (fun e =>
    if e.2.role = 0 ∧ e.2.delivered.toUInt64 ≤ last then
      (e.1, { e.2 with delivered := last.toUInt32 })
    else e)
  handle_eq := by
    intro e he
    rcases List.mem_map.mp he with ⟨e', he', heq⟩
    rw [← heq]
    split
    · exact ch.handle_eq e' he'
    · exact ch.handle_eq e' he'

def senderAddr (ch : Channel) (order : MapOrder (UInt32 × Link)) : Bytes :=
  ((order.order ch.links).findSome? (fun e =>
    if e.2.role = 0 then some e.2.addr else none)).getD []

end Channel

namespace Connection

def writeFrame (s : Connection) (channel : UInt16) (body : Bytes) :
    Connection :=
  { s with written := s.written ++ [(channel, body)] }

def onChannel (s : Connection) (channel : UInt16) (f : Channel -> Channel) :
    Connection :=
  match getEntry channel s.channels with
  | none => s
  | some ch => { s with channels := setEntry channel (f ch) s.channels }

/-!
## Performatives
-/

def handleOpen (s : Connection) (clientSeq : Nat) (channel : UInt16) :
    Connection :=
  let containerID :=
    ascii "chimera-amqp-" ++ ascii (String.ofList (Nat.toDigits 10 clientSeq))
  { s with containerID := containerID }.writeFrame channel
    (buildOpen containerID (ascii "chimera"))

def handleBegin (s : Connection) (channel : UInt16) : Connection :=
  let ch : Channel :=
    { remoteChannel := channel
      nextOutID := 0
      links := []
      handle_eq := fun _ he => absurd he List.not_mem_nil }
  { s with channels := setEntry channel ch s.channels }.writeFrame channel
    (buildBegin 0 0 65535 65535 4294967295)

def handleAttach (s : Connection) (items : List Value) (channel : UInt16) :
    Connection × Option HandleError :=
  let link : Link :=
    { name := bytesAt items 0
      handle := uintAt items 1
      role := ubyteAt items 2
      addr := bytesAt items 5
      credit := 0
      delivered := 0 }
  match getEntry channel s.channels with
  | none => (s, some (.channelNotFound channel))
  | some ch =>
  ({ s with
    channels := setEntry channel (ch.attach link) s.channels }.writeFrame
      channel (buildAttach link.name link.handle link.role link.addr),
    none)

def checkWrite (s : Connection) (addr : Bytes) : Connection × Bool :=
  match s.backend.aclEngine with
  | none => (s, true)
  | some acl =>
    ({ s with log := s.log ++ [.checked addr] },
      acl.check s.identity .topic addr .write)

def publish (s : Connection) (topic payload : Bytes)
    (c : Broker.PublishContext) : Connection × Option HandleError :=
  let r := s.backend.publish
    { Envelope.zero with topic := topic, payload := payload, sourceProto := 1 }
    c
  ({ s with backend := r.1, log := s.log ++ [.published topic payload] },
    match r.2 with
    | .error err => some (.publish err)
    | .ok _ => none)

def handleTransfer (s : Connection) (value rest : Bytes) (channel : UInt16)
    (order : MapOrder (UInt32 × Link)) (c : Broker.PublishContext) :
    Connection × Option HandleError :=
  match getEntry channel s.channels with
  | none => (s, none)
  | some ch =>
  let linkAddr := ch.senderAddr order
  if linkAddr = [] then (s, none)
  else
    let r := s.checkWrite linkAddr
    if r.2 = false then (r.1, none)
    else r.1.publish linkAddr (extractPayload value rest) c

def handleFlow (s : Connection) (items : List Value) (channel : UInt16) :
    Connection :=
  let handle := uintAt items 0
  let credit := uintAt items 2
  s.onChannel channel (fun ch => ch.setCredit handle credit)

def handleDisposition (s : Connection) (items : List Value)
    (channel : UInt16) : Connection :=
  let first := (ulongAt items 1).getD 0
  let last :=
    if items.length > 2 then (ulongAt items 2).getD first else 0
  if last > 0 then s.onChannel channel (fun ch => ch.setDelivered last)
  else s

def handleDetach (s : Connection) (items : List Value) (channel : UInt16) :
    Connection :=
  let handle := uintAt items 0
  (s.onChannel channel (fun ch => ch.detach handle)).writeFrame channel
    (buildDetach handle true)

def handleEnd (s : Connection) (channel : UInt16) : Connection :=
  { s with channels := deleteEntry channel s.channels }.writeFrame channel
    buildEnd

structure Context where
  clientSeq : Nat
  publish : Broker.PublishContext

def handleFields (s : Connection) (performative : String) (value : Bytes)
    (handle : List Value -> Bytes -> Connection × Option HandleError) :
    Connection × Option HandleError :=
  match readFields performative value with
  | .error err => (s, some err)
  | .ok (items, rest) => handle items rest

def handleFrame (s : Connection) (c : Context)
    (order : MapOrder (UInt32 × Link)) (channel : UInt16) (body : Bytes) :
    Connection × Option HandleError :=
  match parseDescribedType body with
  | .error err => (s, some (.value err))
  | .ok (desc, value) =>
  if desc = descOpen then (s.handleOpen c.clientSeq channel, none)
  else if desc = descBegin then (s.handleBegin channel, none)
  else if desc = descAttach then
    s.handleFields "ATTACH" value
      (fun items _ => s.handleAttach items channel)
  else if desc = descTransfer then
    s.handleFields "TRANSFER" value
      (fun _ rest => s.handleTransfer value rest channel order c.publish)
  else if desc = descFlow then
    s.handleFields "FLOW" value
      (fun items _ => (s.handleFlow items channel, none))
  else if desc = descDisposition then
    s.handleFields "DISPOSITION" value
      (fun items _ => (s.handleDisposition items channel, none))
  else if desc = descDetach then
    s.handleFields "DETACH" value
      (fun items _ => (s.handleDetach items channel, none))
  else if desc = descEnd then (s.handleEnd channel, none)
  else if desc = descClose then
    (s.writeFrame 0 buildClose, some .connectionClosed)
  else (s, some (.unknownDescriptor desc))

/-!
## Links of transfers
-/

def senderAt (s : Connection) (channel : UInt16) (handle : UInt32) :
    Option Link :=
  match getEntry channel s.channels with
  | none => none
  | some ch => (getEntry handle ch.links).filter (fun link => link.role = 0)

def senderAddrs (s : Connection) (channel : UInt16) : List Bytes :=
  match getEntry channel s.channels with
  | none => []
  | some ch => ch.links.filterMap (fun e =>
    if e.2.role = 0 then some e.2.addr else none)

def mayWrite (s : Connection) (addr : Bytes) : Bool :=
  s.backend.allows s.identity .topic addr .write

def asked (s : Connection) (addr payload : Bytes) : List Event :=
  (if s.backend.aclEngine.isSome = true then [.checked addr] else []) ++
    (if s.mayWrite addr = true then [.published addr payload] else [])

end Connection

def publications (log : List Event) : List (Bytes × Bytes) :=
  log.filterMap (fun
    | .checked _ => none
    | .published topic payload => some (topic, payload))

structure TransferOf (body : Bytes) (handle : UInt32) (value rest : Bytes) :
    Prop where
  descriptor : parseDescribedType body = .ok (descTransfer, value)
  handle : exists items, readAny value = .ok (.list (.uint handle :: items), rest)

namespace Connection

/--
A transfer is checked and published with the address of the link that is
attached under its handle; without one nothing is published.
-/
def TransfersOwn (s : Connection) (c : Context) (channel : UInt16)
    (body : Bytes) : Prop :=
  forall handle value rest, TransferOf body handle value rest ->
    forall order,
      match s.senderAt channel handle with
      | some link =>
        (s.handleFrame c order channel body).1.log =
          s.log ++ s.asked link.addr (extractPayload value rest)
      | none =>
        publications (s.handleFrame c order channel body).1.log =
          publications s.log

/--
All links of the channel that send have the address of the link under the
handle; without such a link there is none that may send.
-/
def SharesAddress (s : Connection) (channel : UInt16) (handle : UInt32) :
    Prop :=
  match s.senderAt channel handle with
  | some link =>
    link.addr ≠ [] ∧ forall addr, addr ∈ s.senderAddrs channel ->
      addr = link.addr
  | none =>
    forall addr, addr ∈ s.senderAddrs channel -> addr ≠ [] ->
      s.mayWrite addr = false

/-!
## What is asked
-/

variable {s : Connection} {channel : UInt16}

theorem handleFrame_of_transferOf {c : Context}
    {order : MapOrder (UInt32 × Link)} {handle : UInt32}
    {body value rest : Bytes} (h : TransferOf body handle value rest) :
    s.handleFrame c order channel body =
      s.handleTransfer value rest channel order c.publish := by
  rcases h.handle with ⟨items, hitems⟩
  have hfields : readFields "TRANSFER" value =
      .ok (.uint handle :: items, rest) := by
    unfold readFields
    rw [hitems]
  unfold handleFrame
  rw [h.descriptor]
  change (if descTransfer = descOpen then _ else _) = _
  rw [if_neg (by decide), if_neg (by decide), if_neg (by decide), if_pos rfl]
  unfold handleFields
  rw [hfields]

theorem checkWrite_eq (s : Connection) (addr : Bytes) :
    s.checkWrite addr =
      ({ s with
        log := s.log ++
          if s.backend.aclEngine.isSome = true then [.checked addr] else [] },
        s.mayWrite addr) := by
  unfold checkWrite mayWrite Backend.allows
  cases s.backend.aclEngine with
  | none => simp
  | some acl => rfl

variable {ch : Channel}

theorem log_handleTransfer (s : Connection) (value rest : Bytes)
    (order : MapOrder (UInt32 × Link)) (c : Broker.PublishContext)
    (hch : getEntry channel s.channels = some ch) :
    (s.handleTransfer value rest channel order c).1.log =
      if ch.senderAddr order = [] then s.log
      else s.log ++ s.asked (ch.senderAddr order)
        (extractPayload value rest) := by
  unfold handleTransfer
  rw [hch]
  simp only [checkWrite_eq]
  by_cases hempty : ch.senderAddr order = []
  · rw [if_pos hempty, if_pos hempty]
  rw [if_neg hempty, if_neg hempty]
  unfold asked
  cases s.mayWrite (ch.senderAddr order) with
  | false => simp
  | true => simp [publish]

theorem asked_ne_nil (s : Connection) (addr payload : Bytes) :
    s.asked addr payload ≠ [] := by
  unfold asked mayWrite Backend.allows
  cases s.backend.aclEngine with
  | none => simp
  | some acl => simp

theorem asked_inj {addr addr' payload payload' : Bytes}
    (h : s.asked addr payload = s.asked addr' payload') : addr = addr' := by
  unfold asked mayWrite Backend.allows at h
  cases hacl : s.backend.aclEngine with
  | none =>
    rw [hacl] at h
    simp at h
    exact h.1
  | some acl =>
  rw [hacl] at h
  simp at h
  exact h.1

theorem publications_asked (s : Connection) (addr payload : Bytes) :
    publications (s.log ++ s.asked addr payload) = publications s.log <->
      s.mayWrite addr = false := by
  unfold publications asked
  rw [List.filterMap_append]
  cases s.mayWrite addr with
  | false => split <;> simp
  | true => split <;> simp

theorem exists_senderAddr_iff {addr : Bytes} :
    (exists order, ch.senderAddr order = addr) <->
      addr ∈ ch.links.filterMap (fun e =>
          if e.2.role = 0 then some e.2.addr else none) ∨
        (addr = [] ∧ ch.links.filterMap (fun e =>
          if e.2.role = 0 then some e.2.addr else none) = []) := by
  unfold Channel.senderAddr
  constructor
  · rintro ⟨order, haddr⟩
    rcases (exists_order_findSome? _ _ _).mp ⟨order, rfl⟩ with
      ⟨hnone, hempty⟩ | ⟨b, hb, hsome⟩
    · rw [hnone] at haddr
      exact Or.inr ⟨haddr.symm, hempty⟩
    · rw [hsome] at haddr
      exact Or.inl (haddr ▸ hb)
  rintro (hmem | ⟨haddr, hempty⟩)
  · rcases (exists_order_findSome? _ _ _).mpr (Or.inr ⟨addr, hmem, rfl⟩) with
      ⟨order, hfind⟩
    refine ⟨order, ?_⟩
    rw [hfind]
    rfl
  rcases (exists_order_findSome? _ _ _).mpr (Or.inl ⟨rfl, hempty⟩) with
    ⟨order, hfind⟩
  refine ⟨order, ?_⟩
  rw [hfind, haddr]
  rfl

theorem sender_own_iff (hch : getEntry channel s.channels = some ch)
    {handle : UInt32} {link : Link}
    (hlink : s.senderAt channel handle = some link) (value rest : Bytes)
    (c : Broker.PublishContext) :
    (forall order, (s.handleTransfer value rest channel order c).1.log =
        s.log ++ s.asked link.addr (extractPayload value rest)) <->
      s.SharesAddress channel handle := by
  unfold SharesAddress
  rw [hlink]
  simp only [log_handleTransfer s value rest _ c hch]
  have hmem : link.addr ∈ s.senderAddrs channel := by
    unfold senderAt at hlink
    rw [hch] at hlink
    rcases Option.filter_eq_some_iff.mp hlink with ⟨hget, hrole⟩
    unfold senderAddrs
    rw [hch]
    exact List.mem_filterMap.mpr ⟨(handle, link), mem_of_getEntry hget,
      if_pos (of_decide_eq_true hrole)⟩
  have haddrs : s.senderAddrs channel = ch.links.filterMap (fun e =>
      if e.2.role = 0 then some e.2.addr else none) := by
    unfold senderAddrs
    rw [hch]
  constructor
  · intro hown
    have hall : forall addr, addr ∈ s.senderAddrs channel ->
        addr ≠ [] ∧ addr = link.addr := by
      intro addr haddr
      rw [haddrs] at haddr
      rcases exists_senderAddr_iff.mpr (Or.inl haddr) with ⟨order, horder⟩
      have hlog := hown order
      rw [horder] at hlog
      by_cases hempty : addr = []
      · rw [if_pos hempty] at hlog
        exact absurd (List.self_eq_append_right.mp hlog) (asked_ne_nil s _ _)
      · rw [if_neg hempty] at hlog
        exact ⟨hempty, asked_inj (List.append_cancel_left hlog)⟩
    exact ⟨(hall _ hmem).1, fun addr haddr => (hall addr haddr).2⟩
  · rintro ⟨hne, hall⟩ order
    have hfound : ch.senderAddr order = link.addr := by
      rcases exists_senderAddr_iff.mp ⟨order, rfl⟩ with haddr | ⟨-, hempty⟩
      · rw [← haddrs] at haddr
        exact hall _ haddr
      · rw [haddrs, hempty] at hmem
        cases hmem
    rw [hfound, if_neg hne]

theorem stray_dropped_iff (hch : getEntry channel s.channels = some ch)
    {handle : UInt32} (hlink : s.senderAt channel handle = none)
    (value rest : Bytes) (c : Broker.PublishContext) :
    (forall order,
        publications (s.handleTransfer value rest channel order c).1.log =
          publications s.log) <->
      s.SharesAddress channel handle := by
  unfold SharesAddress senderAddrs
  rw [hlink, hch]
  simp only [log_handleTransfer s value rest _ c hch]
  constructor
  · intro hdropped addr haddr hne
    rcases exists_senderAddr_iff.mpr (Or.inl haddr) with ⟨order, horder⟩
    have hlog := hdropped order
    rw [horder, if_neg hne] at hlog
    exact (publications_asked s _ _).mp hlog
  intro hall order
  by_cases hempty : ch.senderAddr order = []
  · rw [if_pos hempty]
  rw [if_neg hempty]
  refine (publications_asked s _ _).mpr ?_
  rcases exists_senderAddr_iff.mp ⟨order, rfl⟩ with haddr | ⟨hnone, -⟩
  · exact hall _ haddr hempty
  · exact absurd hnone hempty

/--
Transfers go to their own links exactly as long as all links of the channel that
send have the same address.
-/
theorem transfersOwn_iff (s : Connection) (c : Context) (channel : UInt16)
    (body : Bytes) :
    s.TransfersOwn c channel body <->
      forall handle value rest, TransferOf body handle value rest ->
        s.SharesAddress channel handle := by
  unfold TransfersOwn
  refine forall_congr' (fun handle => forall_congr' (fun value =>
    forall_congr' (fun rest => forall_congr' (fun htransfer => ?_))))
  simp only [handleFrame_of_transferOf htransfer]
  cases hch : getEntry channel s.channels with
  | none =>
    have hlink : s.senderAt channel handle = none := by
      unfold senderAt
      rw [hch]
    unfold SharesAddress senderAddrs handleTransfer
    rw [hlink, hch]
    simp
  | some ch =>
  cases hlink : s.senderAt channel handle with
  | none => exact stray_dropped_iff hch hlink value rest c.publish
  | some link => exact sender_own_iff hch hlink value rest c.publish

end Connection

def Connection.opened (backend : Backend) (identity : Option Identity) :
    Connection where
  backend := backend
  identity := identity
  containerID := []
  channels := []
  written := []
  log := []

def transferBody (handle : UInt32) (payload : Bytes) : Bytes :=
  buildDescribedList descTransfer [.uint handle] ++ payload

def callContext : Connection.Context where
  clientSeq := 1
  publish := Broker.callAt 0

def twoLinks : Connection :=
  [buildBegin 0 0 100 100 10,
    buildAttach (ascii "denied") 0 0 Protocol.jobs,
    buildAttach (ascii "allowed") 1 0 (ascii "notes")].foldl
      (fun s body => (s.handleFrame callContext (.listed _) 0 body).1)
      (.opened Protocol.jobsBackend Protocol.mallory.identity)

/-- A transfer over the one link is refused because of the other. -/
theorem not_transfersOwn_twoLinks :
    ¬ twoLinks.TransfersOwn callContext 0 (transferBody 1 [7]) := by
  intro h
  have htransfer : TransferOf (transferBody 1 [7]) 1
      (listOf [.uint 1] ++ [7]) [7] :=
    ⟨rfl, [], rfl⟩
  have hlink : twoLinks.senderAt 0 1 =
      some ⟨ascii "allowed", 1, 0, ascii "notes", 0, 0⟩ := by
    decide +kernel
  have hown := h 1 _ _ htransfer (.listed _)
  rw [hlink] at hown
  revert hown
  decide +kernel

end Amqp
end ChimeraMQ
