import ChimeraMQ.Cluster.Gossip
import ChimeraMQ.Foundation.Run

/-!
# A node that gossips

A node with the times at which it has last heard of the members, the messages
that it answers with and the failure detector that suspects a member first and
takes it for dead later.  Without the times and the answers its handlers are
those that only change what is believed of the members.
-/

namespace ChimeraMQ
namespace Gossip

open Foundation
open Cluster (MemberState)

structure Member where
  id : Bytes
  addr : Bytes
  port : Int
  state : MemberState
  incarnation : UInt64
  lastSeen : Int
deriving DecidableEq

structure MemberMsg where
  id : Bytes
  addr : Bytes
  port : Int
  state : MemberState
  incarnation : UInt64
deriving DecidableEq

inductive MessageType where
  | ping
  | ack
  | pingReq
  | suspect
  | alive
  | dead
  | sync
deriving DecidableEq

structure Message where
  type : MessageType
  senderID : Bytes
  incarnation : UInt64
  targetID : Bytes
  targetAddr : Bytes
  members : List MemberMsg
deriving DecidableEq

structure Config where
  nodeID : Bytes
  bindAddr : Bytes
  bindPort : Int
  suspicionTimeout : Int
  allowedNodes : List Bytes
deriving DecidableEq

structure SWIM where
  cfg : Config
  members : List (Bytes × Member)
  timers : List (Bytes × Int)
deriving DecidableEq

/-- Start a node that knows only itself. -/
def newSWIM (cfg : Config) (now : Int) : SWIM where
  cfg :=
    if cfg.suspicionTimeout = 0 then
      { cfg with suspicionTimeout := 5000000000 }
    else cfg
  members :=
    [(cfg.nodeID,
      { id := cfg.nodeID
        addr := cfg.bindAddr
        port := cfg.bindPort
        state := .alive
        incarnation := 0
        lastSeen := now })]
  timers := []

namespace SWIM

def setState (s : SWIM) (now : Int) (id : Bytes) (state : MemberState)
    (incarnation : UInt64) : SWIM :=
  match getEntry id s.members with
  | none => s
  | some m =>
  if incarnation ≥ m.incarnation then
    { s with
      members := setEntry id
        { m with
          state := state
          incarnation := incarnation
          lastSeen := now } s.members }
  else s

def refute (s : SWIM) (now : Int) : SWIM × UInt64 :=
  match getEntry s.cfg.nodeID s.members with
  | none => (s, 0)
  | some m =>
  ({ s with
    members := setEntry s.cfg.nodeID
      { m with
        state := .alive
        incarnation := m.incarnation + 1
        lastSeen := now } s.members },
    m.incarnation + 1)

def localIncarnation (s : SWIM) : UInt64 :=
  ((getEntry s.cfg.nodeID s.members).map Member.incarnation).getD 0

def all (s : SWIM) (order : MapOrder (Bytes × Member)) : List Member :=
  ((order.order s.members).map Prod.snd).filter (fun m =>
    m.id ≠ s.cfg.nodeID)

def aliveMembers (s : SWIM) : List Member :=
  (s.members.map Prod.snd).filter (fun m =>
    m.id ≠ s.cfg.nodeID ∧ m.state = .alive)

def remove (s : SWIM) (id : Bytes) : SWIM :=
  { s with members := deleteEntry id s.members }

/-!
## Suspicion and death
-/

def markSuspect (s : SWIM) (now : Int) (id : Bytes) (incarnation : UInt64) :
    SWIM :=
  s.setState now id .suspect incarnation

def markDead (s : SWIM) (now : Int) (id : Bytes) : SWIM :=
  let s := s.setState now id .dead 0
  { s with timers := s.timers ++ [(id, now + 30000000000)] }

def Overdue (s : SWIM) (now : Int) (m : Member) : Prop :=
  m.state = .suspect ∧ now - m.lastSeen > s.cfg.suspicionTimeout

instance (s : SWIM) (now : Int) (m : Member) : Decidable (s.Overdue now m) :=
  inferInstanceAs (Decidable (_ ∧ _))

def checkSuspicions (s : SWIM) (now : Int)
    (order : MapOrder (Bytes × Member)) : SWIM :=
  (s.all order).foldl (fun t m =>
    if s.Overdue now m then t.markDead now m.id else t) s

/-- Probe a member; without others to ask it is suspected if that fails. -/
def probe (s : SWIM) (now : Int) (target : Member) (reached : Bool) : SWIM :=
  if reached = true then s.setState now target.id .alive target.incarnation
  else if s.aliveMembers.any (fun m => m.id ≠ target.id) = true then s
  else s.markSuspect now target.id target.incarnation

/-!
## Messages
-/

def hostPort (addr : Bytes) (port : Int) : Bytes :=
  addr ++ 0x3A :: ascii (toString port)

def emptyMessage (s : SWIM) (type : MessageType) (incarnation : UInt64) :
    Message where
  type := type
  senderID := s.cfg.nodeID
  incarnation := incarnation
  targetID := []
  targetAddr := []
  members := []

/-- Tell all members that are alive that the node itself is. -/
def refuteTo (s : SWIM) (now : Int) : SWIM × List (Bytes × Message) :=
  let r := s.refute now
  (r.1, r.1.aliveMembers.map (fun m =>
    (hostPort m.addr m.port, s.emptyMessage .alive r.2)))

def handlePing (s : SWIM) (now : Int) (addr : Bytes) (msg : Message) :
    SWIM × List (Bytes × Message) :=
  (s.setState now msg.senderID .alive msg.incarnation,
    [(addr, s.emptyMessage .ack s.localIncarnation)])

def handleAck (s : SWIM) (now : Int) (msg : Message) : SWIM :=
  s.setState now msg.senderID .alive msg.incarnation

def handlePingReq (s : SWIM) (msg : Message) : List (Bytes × Message) :=
  let targetAddr :=
    if msg.targetAddr ≠ [] then msg.targetAddr
    else
      match getEntry msg.targetID s.members with
      | none => []
      | some m => hostPort m.addr m.port
  if targetAddr = [] then []
  else [(targetAddr, s.emptyMessage .ping s.localIncarnation)]

def handleSuspect (s : SWIM) (now : Int) (msg : Message) :
    SWIM × List (Bytes × Message) :=
  if msg.targetID = s.cfg.nodeID then s.refuteTo now
  else
    match getEntry msg.targetID s.members with
    | none => (s, [])
    | some m =>
      if msg.incarnation ≥ m.incarnation then
        (s.markSuspect now msg.targetID msg.incarnation, [])
      else (s, [])

def handleAlive (s : SWIM) (now : Int) (msg : Message) : SWIM :=
  match getEntry msg.senderID s.members with
  | none => s
  | some m =>
    if msg.incarnation ≥ m.incarnation then
      s.setState now msg.senderID .alive msg.incarnation
    else s

def handleDead (s : SWIM) (now : Int) (msg : Message) :
    SWIM × List (Bytes × Message) :=
  if msg.targetID = s.cfg.nodeID then s.refuteTo now
  else (s.markDead now msg.targetID, [])

def mergeMember (s : SWIM) (now : Int) (m : MemberMsg) : SWIM :=
  match getEntry m.id s.members with
  | none =>
    if s.cfg.allowedNodes = [] ∨ m.id ∈ s.cfg.allowedNodes then
      { s with
        members := setEntry m.id
          { id := m.id
            addr := m.addr
            port := m.port
            state := m.state
            incarnation := m.incarnation
            lastSeen := now } s.members }
    else s
  | some existing =>
    if m.incarnation > existing.incarnation then
      s.setState now m.id m.state m.incarnation
    else s

def mergeMembers (s : SWIM) (now : Int) (members : List MemberMsg) : SWIM :=
  members.foldl (fun s m => s.mergeMember now m) s

/-- What a message asks for by its type, apart from the members in it. -/
def dispatch (s : SWIM) (now : Int) (addr : Bytes) (msg : Message) :
    SWIM × List (Bytes × Message) :=
  match msg.type with
  | .ping => s.handlePing now addr msg
  | .ack => (s.handleAck now msg, [])
  | .pingReq => (s, s.handlePingReq msg)
  | .suspect => s.handleSuspect now msg
  | .alive => (s.handleAlive now msg, [])
  | .dead => s.handleDead now msg
  | .sync => (s, [])

def handleMessage (s : SWIM) (now : Int) (addr : Bytes) (msg : Message) :
    SWIM × List (Bytes × Message) :=
  let s := s.mergeMembers now msg.members
  if msg.type = .sync then (s.mergeMembers now msg.members, [])
  else s.dispatch now addr msg

/-!
## Steps

The members in a message are merged one by one before its type is looked at, and
the failure detector may come in between.
-/

inductive Action where
  | merge (now : Int) (m : MemberMsg)
  | dispatch (now : Int) (addr : Bytes) (msg : Message)
  | probe (now : Int) (target : Member) (reached : Bool)
  | checkSuspicions (now : Int) (order : MapOrder (Bytes × Member))
  | remove (now : Int) (timer : Bytes × Int)

def step (s : SWIM) : Action -> Option SWIM
  | .merge now m => some (s.mergeMember now m)
  | .dispatch now addr msg => some (s.dispatch now addr msg).1
  | .probe now target reached =>
    if target ∈ s.aliveMembers then some (s.probe now target reached)
    else none
  | .checkSuspicions now order => some (s.checkSuspicions now order)
  | .remove now timer =>
    if timer ∈ s.timers ∧ timer.2 ≤ now then
      some { s.remove timer.1 with timers := s.timers.erase timer }
    else none

end SWIM

/-!
## What is believed
-/

def Member.view (m : Member) : Cluster.Member where
  id := m.id
  addr := m.addr
  port := m.port
  state := m.state
  incarnation := m.incarnation.toNat

def MemberMsg.view (m : MemberMsg) : Cluster.MemberMsg where
  id := m.id
  addr := m.addr
  port := m.port
  state := m.state
  incarnation := m.incarnation.toNat

namespace SWIM

def view (s : SWIM) : Cluster.SWIM where
  nodeID := s.cfg.nodeID
  allowedNodes := s.cfg.allowedNodes
  members := s.members.map (fun e => (e.1, e.2.view))

theorem getEntry_view (s : SWIM) (id : Bytes) :
    getEntry id s.view.members = (getEntry id s.members).map Member.view :=
  getEntry_map id (fun _ => Member.view) s.members

theorem view_setEntry (s : SWIM) (id : Bytes) (m : Member) :
    ({ s with members := setEntry id m s.members } : SWIM).view =
      { s.view with members := setEntry id m.view s.view.members } := by
  have hmap := map_setEntry id m Member.view s.members
  unfold view
  simp only [hmap]

theorem view_setState (s : SWIM) (now : Int) (id : Bytes)
    (state : MemberState) (incarnation : UInt64) :
    (s.setState now id state incarnation).view =
      s.view.setState id state incarnation.toNat := by
  unfold setState Cluster.SWIM.setState
  rw [getEntry_view]
  cases getEntry id s.members with
  | none => rfl
  | some m =>
  simp only [Option.map_some, ge_iff_le, Member.view, UInt64.le_iff_toNat_le]
  split
  · exact view_setEntry s id _
  · rfl

theorem view_refuteTo (s : SWIM) (now : Int) :
    (s.refuteTo now).1.view = s.view.refute := by
  have hget := getEntry_view s s.cfg.nodeID
  unfold refuteTo refute Cluster.SWIM.refute
  change getEntry s.view.nodeID s.view.members = _ at hget
  rw [hget]
  cases getEntry s.cfg.nodeID s.members with
  | none => rfl
  | some m =>
  have hnext : (m.incarnation + 1).toNat =
      (m.incarnation.toNat + 1) % 2 ^ 64 := by
    rw [UInt64.toNat_add]
    rfl
  simp only [Option.map_some, Member.view, ← hnext]
  exact view_setEntry s _ _

def update (msg : Message) : Option Cluster.GossipUpdate :=
  match msg.type with
  | .ping | .ack | .alive => some (.alive msg.senderID msg.incarnation.toNat)
  | .suspect => some (.suspect msg.targetID msg.incarnation.toNat)
  | .dead => some (.dead msg.targetID msg.incarnation.toNat)
  | .pingReq | .sync => none

theorem handleAlive_eq_setState (s : SWIM) (now : Int) (msg : Message) :
    s.handleAlive now msg = s.setState now msg.senderID .alive msg.incarnation := by
  unfold handleAlive setState
  cases getEntry msg.senderID s.members with
  | none => rfl
  | some m =>
  simp only
  split
  · rfl
  · rfl

theorem view_alive (s : SWIM) (now : Int) (id : Bytes) (incarnation : UInt64) :
    (s.setState now id .alive incarnation).view =
      s.view.handle (.alive id incarnation.toNat) := by
  rw [view_setState, Cluster.SWIM.handle, Cluster.SWIM.handleAlive]
  unfold Cluster.SWIM.setState
  cases getEntry id s.view.members with
  | none => rfl
  | some m =>
  simp only
  split
  · rfl
  · rfl

theorem view_handleSuspect (s : SWIM) (now : Int) (msg : Message) :
    (s.handleSuspect now msg).1.view =
      s.view.handle (.suspect msg.targetID msg.incarnation.toNat) := by
  have hget := getEntry_view s msg.targetID
  unfold handleSuspect
  rw [Cluster.SWIM.handle, Cluster.SWIM.handleSuspect]
  change (if msg.targetID = s.cfg.nodeID then _ else _ :
    SWIM × List (Bytes × Message)).1.view = if msg.targetID = s.cfg.nodeID then
      _ else _
  split
  · exact view_refuteTo s now
  rw [hget]
  cases getEntry msg.targetID s.members with
  | none => rfl
  | some m =>
  simp only [Option.map_some, ge_iff_le, UInt64.le_iff_toNat_le]
  change (if m.incarnation.toNat ≤ msg.incarnation.toNat then _ else _ :
    SWIM × List (Bytes × Message)).1.view =
      if m.incarnation.toNat ≤ msg.incarnation.toNat then _ else _
  split
  · exact view_setState s now _ _ _
  · rfl

theorem view_handleDead (s : SWIM) (now : Int) (msg : Message) :
    (s.handleDead now msg).1.view =
      s.view.handle (.dead msg.targetID msg.incarnation.toNat) := by
  unfold handleDead
  rw [Cluster.SWIM.handle, Cluster.SWIM.handleDead]
  change (if msg.targetID = s.cfg.nodeID then _ else _ :
    SWIM × List (Bytes × Message)).1.view = if msg.targetID = s.cfg.nodeID then
      _ else _
  split
  · exact view_refuteTo s now
  · exact view_setState s now msg.targetID .dead 0

theorem view_dispatch (s : SWIM) (now : Int) (addr : Bytes) (msg : Message) :
    (s.dispatch now addr msg).1.view =
      (update msg).elim s.view s.view.handle := by
  unfold dispatch update
  cases msg.type with
  | ping => exact view_alive s now _ _
  | ack => exact view_alive s now _ _
  | pingReq => rfl
  | suspect => exact view_handleSuspect s now msg
  | alive =>
    simp only [handleAlive_eq_setState]
    exact view_alive s now _ _
  | dead => exact view_handleDead s now msg
  | sync => rfl

theorem view_mergeMember (s : SWIM) (now : Int) (m : MemberMsg) :
    (s.mergeMember now m).view = s.view.handle (.member m.view) := by
  have hget : getEntry m.view.id s.view.members =
      (getEntry m.id s.members).map Member.view := getEntry_view s m.id
  unfold mergeMember
  rw [Cluster.SWIM.handle, Cluster.SWIM.mergeMember, hget]
  cases getEntry m.id s.members with
  | none =>
    change (if s.view.Allows m.id then _ else _ : SWIM).view =
      if s.view.Allows m.id then _ else _
    split
    · exact view_setEntry s m.id _
    · rfl
  | some existing =>
  simp only [Option.map_some, gt_iff_lt, UInt64.lt_iff_toNat_lt]
  change (if existing.incarnation.toNat < m.incarnation.toNat then _ else _ :
    SWIM).view =
      if existing.incarnation.toNat < m.incarnation.toNat then _ else _
  split
  · exact view_setState s now m.id m.state m.incarnation
  · rfl

theorem view_mergeMembers (s : SWIM) (now : Int) (members : List MemberMsg) :
    (s.mergeMembers now members).view =
      (members.map (fun m => Cluster.GossipUpdate.member m.view)).foldl
        Cluster.SWIM.handle s.view := by
  unfold mergeMembers
  induction members generalizing s with
  | nil => rfl
  | cons m rest ih =>
    rw [List.foldl_cons, ih, view_mergeMember, List.map_cons, List.foldl_cons]

/--
The updates of a message: those of the members in it come first, and once more
if it is there for nothing else.
-/
def updates (msg : Message) : List Cluster.GossipUpdate :=
  let members := msg.members.map (fun m => .member m.view)
  members ++ if msg.type = .sync then members else (update msg).toList

theorem view_handleMessage (s : SWIM) (now : Int) (addr : Bytes)
    (msg : Message) :
    (s.handleMessage now addr msg).1.view =
      (updates msg).foldl Cluster.SWIM.handle s.view := by
  unfold handleMessage updates
  rw [List.foldl_append, ← view_mergeMembers s now]
  by_cases hsync : msg.type = .sync
  · rw [if_pos hsync]
    simp only [hsync, if_true]
    exact view_mergeMembers _ now msg.members
  rw [if_neg hsync]
  simp only [hsync, if_false]
  rw [view_dispatch]
  cases update msg with
  | none => rfl
  | some u => rfl

/-- What a node believes after messages is what the abstract members come to. -/
theorem view_run (s : SWIM) (msgs : List (Int × Bytes × Message)) :
    (msgs.foldl (fun t m => (t.handleMessage m.1 m.2.1 m.2.2).1) s).view =
      (msgs.flatMap (fun m => updates m.2.2)).foldl Cluster.SWIM.handle
        s.view := by
  induction msgs generalizing s with
  | nil => rfl
  | cons m rest ih =>
  rw [List.foldl_cons, ih, view_handleMessage, List.flatMap_cons,
    List.foldl_append]

/-!
## What holds in every state
-/

/--
The node knows itself and was never suspected with the incarnation it begins
with; members are kept under their names.
-/
structure Sound (s : SWIM) : Prop where
  known : exists m, getEntry s.cfg.nodeID s.members = some m ∧
    (m.state = .suspect -> m.incarnation ≠ 0)
  id_eq : forall e, e ∈ s.members -> e.2.id = e.1
  timers : forall t, t ∈ s.timers -> t.1 ≠ s.cfg.nodeID

theorem sound_newSWIM (cfg : Config) (now : Int) : Sound (newSWIM cfg now) := by
  have hid : (newSWIM cfg now).cfg.nodeID = cfg.nodeID := by
    unfold newSWIM
    simp only
    split
    · rfl
    · rfl
  refine ⟨?_, ?_, fun t ht => absurd ht List.not_mem_nil⟩
  · rw [hid]
    refine ⟨_, getEntry_cons_self _ _ _, fun hsuspect => ?_⟩
    cases hsuspect
  · intro e he
    rw [List.mem_singleton.mp he]

variable {s : SWIM} {id : Bytes}

variable (h : Sound s)

include h

theorem Sound.setEntry {m : Member} (hid : m.id = id)
    (hown : id = s.cfg.nodeID -> m.state = .suspect -> m.incarnation ≠ 0) :
    Sound { s with members := Foundation.setEntry id m s.members } := by
  refine ⟨?_, ?_, h.timers⟩
  · by_cases hself : id = s.cfg.nodeID
    · exact ⟨m, hself ▸ getEntry_setEntry id m s.members, hown hself⟩
    · rcases h.known with ⟨m', hget, hsuspect⟩
      exact ⟨m', (getEntry_setEntry_ne (Ne.symm hself) m s.members).trans hget,
        hsuspect⟩
  intro e he
  rcases mem_setEntry he with hnew | hold
  · rw [hnew]
    exact hid
  · exact h.id_eq e hold

theorem Sound.id_of_getEntry {m : Member}
    (hget : getEntry id s.members = some m) : m.id = id :=
  h.id_eq _ (mem_of_getEntry hget)

theorem Sound.setState (now : Int) {state : MemberState} {incarnation : UInt64}
    (hown : id = s.cfg.nodeID -> state = .suspect -> incarnation ≠ 0) :
    Sound (s.setState now id state incarnation) := by
  unfold SWIM.setState
  cases hget : getEntry id s.members with
  | none => exact h
  | some m =>
  have hid := h.id_of_getEntry hget
  simp only
  split
  · exact h.setEntry hid hown
  · exact h

omit h in
theorem cfg_setState (s : SWIM) (now : Int) (id : Bytes) (state : MemberState)
    (incarnation : UInt64) :
    (s.setState now id state incarnation).cfg = s.cfg := by
  unfold setState
  split
  · rfl
  · split
    · rfl
    · rfl

theorem Sound.refuteTo (now : Int) :
    Sound (s.refuteTo now).1 := by
  unfold SWIM.refuteTo SWIM.refute
  rcases h.known with ⟨m, hget, -⟩
  have hid := h.id_of_getEntry hget
  simp only [hget]
  exact h.setEntry hid (fun _ hsuspect => by cases hsuspect)

theorem Sound.markDead (now : Int) (hother : id ≠ s.cfg.nodeID) :
    Sound (s.markDead now id) := by
  have hset : Sound (s.setState now id .dead 0) :=
    h.setState now (fun hself => absurd hself hother)
  refine ⟨hset.known, hset.id_eq, ?_⟩
  intro t ht
  rcases List.mem_append.mp ht with hold | hnew
  · exact hset.timers t hold
  rw [List.mem_singleton.mp hnew]
  change id ≠ (s.setState now id .dead 0).cfg.nodeID
  rw [cfg_setState]
  exact hother

omit h in
theorem cfg_markDead (s : SWIM) (now : Int) (id : Bytes) :
    (s.markDead now id).cfg = s.cfg :=
  cfg_setState s now id .dead 0

theorem Sound.checkSuspicions (now : Int) (order : MapOrder (Bytes × Member)) :
    Sound (s.checkSuspicions now order) := by
  have hloop : forall (found : List Member) (t : SWIM), Sound t ->
      t.cfg = s.cfg -> (forall m, m ∈ found -> m.id ≠ s.cfg.nodeID) ->
      Sound (found.foldl (fun t m =>
        if s.Overdue now m then t.markDead now m.id else t) t) := by
    intro found
    induction found with
    | nil => exact fun t ht _ _ => ht
    | cons m found ih =>
    intro t ht hcfg hother
    have hrest := fun x hx => hother x (List.mem_cons_of_mem m hx)
    rw [List.foldl_cons]
    split
    · refine ih _ (ht.markDead now ?_) ?_ hrest
      · rw [hcfg]
        exact hother m List.mem_cons_self
      · rw [cfg_markDead, hcfg]
    · exact ih t ht hcfg hrest
  refine hloop _ s h rfl ?_
  intro m hm
  exact of_decide_eq_true (List.mem_filter.mp hm).2

theorem Sound.mergeMember (now : Int) (m : MemberMsg) :
    Sound (s.mergeMember now m) := by
  unfold SWIM.mergeMember
  cases hget : getEntry m.id s.members with
  | none =>
    simp only
    split
    · refine h.setEntry rfl (fun hself => ?_)
      rcases h.known with ⟨own, hown, -⟩
      rw [← hself, hget] at hown
      cases hown
    · exact h
  | some existing =>
  simp only
  split
  · rename_i hlt
    refine h.setState now (fun _ _ hzero => ?_)
    rw [hzero] at hlt
    exact UInt64.not_lt_zero hlt
  · exact h

theorem Sound.probe (now : Int) {target : Member}
    (htarget : target ∈ s.aliveMembers) (reached : Bool) :
    Sound (s.probe now target reached) := by
  have hother : target.id ≠ s.cfg.nodeID :=
    (of_decide_eq_true (List.mem_filter.mp htarget).2).1
  unfold SWIM.probe
  split
  · exact h.setState now (fun hself => absurd hself hother)
  · split
    · exact h
    · exact h.setState now (fun hself => absurd hself hother)

theorem Sound.remove {timer : Bytes × Int} (htimer : timer ∈ s.timers) :
    Sound { s.remove timer.1 with timers := s.timers.erase timer } := by
  rcases h.known with ⟨m, hget, hsuspect⟩
  refine ⟨⟨m, ?_, hsuspect⟩, ?_, ?_⟩
  · exact (getEntry_deleteEntry_ne (Ne.symm (h.timers timer htimer))
      s.members).trans hget
  · intro e he
    exact h.id_eq e (List.mem_of_mem_filter he)
  · intro t ht
    exact h.timers t (List.mem_of_mem_erase ht)

theorem Sound.dispatch (now : Int) (addr : Bytes) (msg : Message) :
    Sound (s.dispatch now addr msg).1 := by
  have halive : Sound (s.setState now msg.senderID .alive msg.incarnation) :=
    h.setState now (fun _ hsuspect => by cases hsuspect)
  unfold SWIM.dispatch
  cases msg.type with
  | ping => exact halive
  | ack => exact halive
  | pingReq => exact h
  | suspect =>
    simp only [handleSuspect]
    split
    · exact h.refuteTo now
    rename_i hother
    split
    · exact h
    · split
      · exact h.setState now (fun hself => absurd hself hother)
      · exact h
  | alive =>
    simp only [handleAlive_eq_setState]
    exact halive
  | dead =>
    simp only [handleDead]
    split
    · exact h.refuteTo now
    · rename_i hother
      exact h.markDead now hother
  | sync => exact h

omit h

theorem sound_step (s : SWIM) (a : Action) (s' : SWIM) (h : Sound s)
    (hstep : s.step a = some s') : Sound s' := by
  cases a with
  | merge now m =>
    cases hstep
    exact h.mergeMember now m
  | dispatch now addr msg =>
    cases hstep
    exact h.dispatch now addr msg
  | probe now target reached =>
    simp only [step] at hstep
    split at hstep
    · rename_i htarget
      cases hstep
      exact h.probe now htarget reached
    · cases hstep
  | checkSuspicions now order =>
    cases hstep
    exact h.checkSuspicions now order
  | remove now timer =>
  simp only [step] at hstep
  split at hstep
  · rename_i htimer
    cases hstep
    exact h.remove htimer.1
  · cases hstep

end SWIM

end Gossip
end ChimeraMQ
