import ChimeraMQ.Foundation.Decimal
import ChimeraMQ.Foundation.Entries
import ChimeraMQ.Foundation.Registry
import ChimeraMQ.Foundation.Run

/-!
# The registry of clients

A server keeps its connections under the ids of their clients.  A client that
connects under an id that is taken takes its place; the handler of the old
connection deletes the id when it ends, whoever has it by then.
-/

namespace ChimeraMQ
namespace Protocol

open Foundation

/-!
## Connections
-/

inductive ServerKind where
  | chimera
  | mqtt
deriving DecidableEq

inductive RegistrationPhase where
  | unregistered
  | replacing (clientID : Bytes) (old : Nat)
  | storing (clientID : Bytes)
  | registered (clientID : Bytes)
  | reconnecting
deriving DecidableEq

/--
A connection: whether it is still open, whether its handler is still running,
and the id that the handler has deferred to delete when it ends.
-/
structure RegisteredConn where
  live : Bool
  running : Bool
  phase : RegistrationPhase
  deferred : Option Bytes
deriving DecidableEq

/--
The connections of a server, which are known by their places, and the ids in the
registry.
-/
structure ClientRegistry where
  clients : List (Bytes × Nat)
  clientSeq : Nat
  conns : List RegisteredConn
  accepted : List Nat

def newClientRegistry : ClientRegistry where
  clients := []
  clientSeq := 0
  conns := []
  accepted := []

inductive HandlerAction where
  | connect (clientID : Bytes)
  | closeOld
  | store
  | connAck
  | reConnect
  | drop
  | cleanUp

inductive RegistryAction where
  | arrive
  | handler (c : Nat) (a : HandlerAction)

def newConn : RegisteredConn where
  live := true
  running := true
  phase := .unregistered
  deferred := none

namespace ClientRegistry

def putConn (s : ClientRegistry) (c : Nat) (conn : RegisteredConn) :
    ClientRegistry :=
  { s with conns := s.conns.set c conn }

def assignID (s : ClientRegistry) (kind : ServerKind) (clientID : Bytes) :
    ClientRegistry × Bytes :=
  if kind = .chimera ∧ clientID = [] then
    let n := (s.clientSeq + 1) % 2 ^ 64
    ({ s with clientSeq := n }, ascii "client-" ++ formatUint n)
  else (s, clientID)

/--
A connection is in the registry; the handler of a Chimera client defers to
delete the id, unless it already has for an earlier one.
-/
def accept (s : ClientRegistry) (kind : ServerKind) (c : Nat)
    (conn : RegisteredConn) (clientID : Bytes) : ClientRegistry :=
  { s with
    clients := setEntry clientID c s.clients
    conns := s.conns.set c
      { conn with
        phase := .registered clientID
        deferred :=
          if kind = .chimera ∧ conn.deferred = none then some clientID
          else conn.deferred }
    accepted := c :: s.accepted }

/-- Close a connection; its handler notices when it reads again. -/
def close (s : ClientRegistry) (c : Nat) : ClientRegistry :=
  match s.conns[c]? with
  | none => s
  | some conn => s.putConn c { conn with live := false }

/-!
## Steps
-/

def connect (s : ClientRegistry) (kind : ServerKind) (c : Nat)
    (conn : RegisteredConn) (clientID : Bytes) : ClientRegistry :=
  let (s, clientID) := s.assignID kind clientID
  match getEntry clientID s.clients with
  | none => s.accept kind c conn clientID
  | some old => s.putConn c { conn with phase := .replacing clientID old }

/-- The old connection is closed for a Chimera client, and left otherwise. -/
def closeOld (s : ClientRegistry) (kind : ServerKind) (c : Nat)
    (conn : RegisteredConn) (clientID : Bytes) (old : Nat) : ClientRegistry :=
  let s := s.putConn c { conn with phase := .storing clientID }
  match kind with
  | .chimera => s.close old
  | .mqtt => s

/-- A Chimera client connects again, perhaps under another id. -/
def reConnect (s : ClientRegistry) (c : Nat) (conn : RegisteredConn)
    (clientID : Bytes) : ClientRegistry :=
  { s with
    clients := deleteEntry clientID s.clients
    conns := s.conns.set c { conn with phase := .reconnecting } }

/-- The handler of a connection ends, and deletes the id it has deferred. -/
def cleanUp (s : ClientRegistry) (c : Nat) (conn : RegisteredConn) :
    ClientRegistry :=
  { s with
    clients :=
      match conn.deferred with
      | none => s.clients
      | some clientID => deleteEntry clientID s.clients
    conns := s.conns.set c { conn with running := false } }

def stepConn (s : ClientRegistry) (kind : ServerKind) (c : Nat)
    (conn : RegisteredConn) : HandlerAction -> Option ClientRegistry
  | .connect clientID =>
    if conn.running ∧
        (conn.phase = .unregistered ∨ conn.phase = .reconnecting) then
      some (s.connect kind c conn clientID)
    else none
  | .closeOld =>
    match conn.phase with
    | .replacing clientID old => some (s.closeOld kind c conn clientID old)
    | _ => none
  | .store =>
    match conn.phase with
    | .storing clientID => some (s.accept kind c conn clientID)
    | _ => none
  | .connAck =>
    match conn.phase with
    | .registered clientID =>
      if kind = .mqtt ∧ conn.running ∧ conn.deferred = none then
        some (s.putConn c { conn with deferred := some clientID })
      else none
    | _ => none
  | .reConnect =>
    match conn.phase with
    | .registered clientID =>
      if kind = .chimera ∧ conn.running then
        some (s.reConnect c conn clientID)
      else none
    | _ => none
  | .drop => some (s.close c)
  | .cleanUp =>
    match conn.phase with
    | .unregistered | .registered _ =>
      if conn.running ∧ conn.live = false then some (s.cleanUp c conn)
      else none
    | _ => none

def step (kind : ServerKind) (s : ClientRegistry) :
    RegistryAction -> Option ClientRegistry
  | .arrive => some { s with conns := s.conns ++ [newConn] }
  | .handler c a =>
    match s.conns[c]? with
    | none => none
    | some conn => s.stepConn kind c conn a

/-!
## Who has an id
-/

end ClientRegistry

def RegisteredConn.held (conn : RegisteredConn) : Option Bytes :=
  match conn.live, conn.phase with
  | true, .registered clientID => some clientID
  | _, _ => none

namespace ClientRegistry

def view (s : ClientRegistry) : Registry Nat Bytes where
  held := fun c => s.conns[c]?.bind RegisteredConn.held
  accepted := s.accepted
  entry := fun clientID => getEntry clientID s.clients

/--
Every id that an open connection has is registered for the one of these that
has been accepted last.
-/
def Current (s : ClientRegistry) : Prop :=
  s.view.Faithful

def OnlyHolder (s : ClientRegistry) (c : Nat) (clientID : Bytes) : Prop :=
  forall d, d ≠ c -> s.view.held d ≠ some clientID

def MayGo (s : ClientRegistry) (c : Nat) : Prop :=
  forall clientID, s.view.held c = some clientID ->
    getEntry clientID s.clients = some c -> s.OnlyHolder c clientID

/--
No connection goes, no id is deleted and none is taken by a connection that has
gone, while another open connection has the id.
-/
def SparesOthers (kind : ServerKind) (s : ClientRegistry) (c : Nat)
    (conn : RegisteredConn) : HandlerAction -> Prop
  | .connect _ | .connAck => True
  | .closeOld =>
    kind = .chimera -> forall clientID old,
      conn.phase = .replacing clientID old -> s.MayGo old
  | .store =>
    conn.live = false -> forall clientID, conn.phase = .storing clientID ->
      s.OnlyHolder c clientID
  | .reConnect =>
    forall clientID, conn.phase = .registered clientID ->
      s.OnlyHolder c clientID
  | .drop => s.MayGo c
  | .cleanUp =>
    forall clientID, conn.deferred = some clientID ->
      s.OnlyHolder c clientID

def Spares (kind : ServerKind) (s : ClientRegistry) : RegistryAction -> Prop
  | .arrive => True
  | .handler c a =>
    forall conn, s.conns[c]? = some conn ->
      (s.stepConn kind c conn a).isSome -> s.SparesOthers kind c conn a

/-!
## What an operation changes
-/

variable {s : ClientRegistry} {c : Nat} {conn : RegisteredConn}

theorem held_view (hconn : s.conns[c]? = some conn) :
    s.view.held c = conn.held := by
  change s.conns[c]?.bind RegisteredConn.held = conn.held
  rw [hconn]
  rfl

theorem held_of_not_live (hgone : conn.live = false) :
    conn.held = none := by
  unfold RegisteredConn.held
  rw [hgone]

theorem held_set {conns : List RegisteredConn} {conn' : RegisteredConn}
    (hconn : conns[c]? = some conn) :
    (fun (d : Nat) => (conns.set c conn')[d]?.bind RegisteredConn.held) =
      Function.update (fun (d : Nat) => conns[d]?.bind RegisteredConn.held) c
        conn'.held := by
  funext d
  by_cases hd : d = c
  · have hlt := (List.getElem?_eq_some_iff.mp hconn).1
    rw [hd, Function.update_self, List.getElem?_set_self hlt]
    rfl
  · rw [Function.update_of_ne hd, List.getElem?_set_ne (Ne.symm hd)]

theorem held_set_same {conns : List RegisteredConn} {conn' : RegisteredConn}
    (hconn : conns[c]? = some conn) (hsame : conn'.held = conn.held) :
    (fun (d : Nat) => (conns.set c conn')[d]?.bind RegisteredConn.held) =
      fun (d : Nat) => conns[d]?.bind RegisteredConn.held := by
  rw [held_set hconn, hsame]
  apply Function.update_eq_self_iff.mpr
  rw [hconn]
  rfl

theorem view_putConn {s : ClientRegistry} {c : Nat}
    {conn conn' : RegisteredConn} (hconn : s.conns[c]? = some conn)
    (hsame : conn'.held = conn.held) : (s.putConn c conn').view = s.view :=
  Registry.ext (held_set_same hconn hsame) rfl rfl

theorem entry_setEntry (clients : List (Bytes × Nat)) (clientID : Bytes)
    (c : Nat) :
    (fun k => getEntry k (setEntry clientID c clients)) =
      Function.update (fun k => getEntry k clients) clientID (some c) := by
  funext k
  by_cases hk : k = clientID
  · rw [hk, Function.update_self, getEntry_setEntry]
  · rw [Function.update_of_ne hk, getEntry_setEntry_ne hk]

theorem entry_deleteEntry (clients : List (Bytes × Nat)) (clientID : Bytes) :
    (fun k => getEntry k (deleteEntry clientID clients)) =
      Function.update (fun k => getEntry k clients) clientID none := by
  funext k
  by_cases hk : k = clientID
  · rw [hk, Function.update_self, getEntry_deleteEntry]
  · rw [Function.update_of_ne hk, getEntry_deleteEntry_ne hk]

theorem view_accept (hconn : s.conns[c]? = some conn) (kind : ServerKind)
    (clientID : Bytes) :
    (s.accept kind c conn clientID).view =
      s.view.accept c clientID conn.live := by
  apply Registry.ext
  · cases hlive : conn.live with
    | false =>
      refine held_set_same hconn ?_
      unfold RegisteredConn.held
      rw [hlive]
    | true =>
    refine (held_set hconn).trans ?_
    unfold RegisteredConn.held
    rw [hlive]
    rfl
  · rfl
  · exact entry_setEntry ..

theorem view_close (s : ClientRegistry) (c : Nat) :
    (s.close c).view = s.view.leave c := by
  unfold close
  cases hconn : s.conns[c]? with
  | none =>
    refine Registry.ext ?_ rfl rfl
    refine (Function.update_eq_self_iff.mpr ?_).symm
    change none = s.conns[c]?.bind RegisteredConn.held
    rw [hconn]
    rfl
  | some conn => exact Registry.ext (held_set hconn) rfl rfl

theorem view_reConnect (hconn : s.conns[c]? = some conn) (clientID : Bytes) :
    (s.reConnect c conn clientID).view = (s.view.leave c).erase clientID := by
  apply Registry.ext
  · refine (held_set hconn).trans ?_
    unfold RegisteredConn.held
    cases conn.live with
    | false => rfl
    | true => rfl
  · rfl
  · exact entry_deleteEntry ..

theorem view_cleanUp (hconn : s.conns[c]? = some conn) :
    (s.cleanUp c conn).view =
      match conn.deferred with
      | none => s.view
      | some clientID => s.view.erase clientID := by
  unfold cleanUp
  cases conn.deferred with
  | none => exact Registry.ext (held_set_same hconn rfl) rfl rfl
  | some clientID =>
    exact Registry.ext (held_set_same hconn rfl) rfl (entry_deleteEntry ..)

theorem view_arrive (s : ClientRegistry) :
    { s with conns := s.conns ++ [newConn] }.view = s.view := by
  refine Registry.ext ?_ rfl rfl
  funext c
  change (s.conns ++ [newConn])[c]?.bind RegisteredConn.held =
    s.conns[c]?.bind RegisteredConn.held
  rcases Nat.lt_or_ge c s.conns.length with hlt | hge
  · rw [List.getElem?_append_left hlt]
  rw [List.getElem?_append_right hge, List.getElem?_eq_none hge]
  cases c - s.conns.length with
  | zero => rfl
  | succ n => rfl

/-!
## Steps
-/

theorem held_of_phase
    (hphase : forall clientID, conn.phase ≠ .registered clientID) :
    conn.held = none := by
  unfold RegisteredConn.held
  cases conn.live with
  | false => rfl
  | true =>
  cases h : conn.phase with
  | registered clientID => exact absurd h (hphase clientID)
  | unregistered => rfl
  | replacing clientID old => rfl
  | storing clientID => rfl
  | reconnecting => rfl

variable (h : s.Current)

include h

theorem Current.accept_iff (hconn : s.conns[c]? = some conn)
    (hfree : conn.held = none) (kind : ServerKind) (clientID : Bytes) :
    (s.accept kind c conn clientID).Current <->
      (conn.live = false -> s.OnlyHolder c clientID) := by
  have hnone : s.view.held c = none := (held_view hconn).trans hfree
  unfold Current
  rw [view_accept hconn, Registry.Faithful.accept_iff h hnone]
  constructor
  · intro hall hgone d _
    exact hall hgone d
  intro honly hgone d hdk
  by_cases hd : d = c
  · rw [hd, hnone] at hdk
    cases hdk
  · exact honly hgone d hd hdk

theorem Current.close_iff (c : Nat) :
    (s.close c).Current <-> s.MayGo c := by
  unfold Current
  rw [view_close]
  exact Registry.Faithful.leave_iff h c

omit h in
theorem conns_assignID (s : ClientRegistry) (kind : ServerKind)
    (clientID : Bytes) : (s.assignID kind clientID).1.conns = s.conns := by
  unfold assignID
  split
  · rfl
  · rfl

omit h in
theorem view_assignID (s : ClientRegistry) (kind : ServerKind)
    (clientID : Bytes) : (s.assignID kind clientID).1.view = s.view := by
  unfold assignID
  split
  · rfl
  · rfl

theorem Current.connect (hconn : s.conns[c]? = some conn)
    (hfree : conn.held = none) (kind : ServerKind) (clientID : Bytes) :
    (s.connect kind c conn clientID).Current := by
  have hview := s.view_assignID kind clientID
  have hconns := s.conns_assignID kind clientID
  unfold ClientRegistry.connect
  generalize s.assignID kind clientID = r at hview hconns
  rcases r with ⟨t, id⟩
  have ht : t.Current := by
    unfold Current
    rw [hview]
    exact h
  rw [← hconns] at hconn
  simp only
  cases hentry : getEntry id t.clients with
  | none =>
    apply (ht.accept_iff hconn hfree kind id).mpr
    intro _ d _ hdk
    rcases ht d id hdk with ⟨e, _, hregistered⟩
    rw [show t.view.entry id = none from hentry] at hregistered
    cases hregistered
  | some old =>
  unfold Current
  rw [view_putConn hconn]
  · exact ht
  · rw [hfree]
    exact held_of_phase (fun clientID hphase => by cases hphase)

theorem Current.closeOld_iff (hconn : s.conns[c]? = some conn)
    (hfree : conn.held = none) (kind : ServerKind) (clientID : Bytes)
    (old : Nat) :
    (s.closeOld kind c conn clientID old).Current <->
      (kind = .chimera -> s.MayGo old) := by
  have hview := @view_putConn s c conn { conn with phase := .storing clientID }
    hconn (by
      rw [hfree]
      exact held_of_phase (fun id hstoring => by cases hstoring))
  unfold ClientRegistry.closeOld Current
  cases kind with
  | chimera =>
    simp only
    rw [view_close, hview, Registry.Faithful.leave_iff h old]
    constructor
    · intro hmay _
      exact hmay
    · intro hspares
      exact hspares trivial
  | mqtt =>
  simp only
  rw [hview]
  refine iff_of_true h ?_
  intro hkind
  cases hkind

theorem Current.reConnect_iff (hconn : s.conns[c]? = some conn)
    {clientID : Bytes} (hphase : conn.phase = .registered clientID) :
    (s.reConnect c conn clientID).Current <-> s.OnlyHolder c clientID := by
  have honly : forall j, s.view.held c = some j -> j = clientID := by
    intro j hj
    rw [held_view hconn] at hj
    unfold RegisteredConn.held at hj
    rw [hphase] at hj
    cases hlive : conn.live with
    | false =>
      rw [hlive] at hj
      cases hj
    | true =>
    rw [hlive] at hj
    cases hj
    rfl
  unfold Current
  rw [view_reConnect hconn]
  exact Registry.Faithful.giveUp_iff h honly

theorem Current.cleanUp_iff (hconn : s.conns[c]? = some conn)
    (hgone : conn.live = false) :
    (s.cleanUp c conn).Current <->
      forall clientID, conn.deferred = some clientID ->
        s.OnlyHolder c clientID := by
  have hnone : s.view.held c = none :=
    (held_view hconn).trans (held_of_not_live hgone)
  unfold Current
  rw [view_cleanUp hconn]
  cases conn.deferred with
  | none =>
    refine iff_of_true h ?_
    intro clientID hdeferred
    cases hdeferred
  | some clientID =>
  simp only
  rw [Registry.Faithful.erase_iff h]
  constructor
  · intro hfree id hid d _
    cases hid
    exact hfree d
  intro honly d hdk
  by_cases hd : d = c
  · rw [hd, hnone] at hdk
    cases hdk
  · exact honly clientID rfl d hd hdk

theorem Current.stepConn_iff {s' : ClientRegistry}
    (hconn : s.conns[c]? = some conn) {kind : ServerKind} {a : HandlerAction}
    (hstep : s.stepConn kind c conn a = some s') :
    s'.Current <-> s.SparesOthers kind c conn a := by
  cases a with
  | connect clientID =>
    simp only [stepConn] at hstep
    split at hstep
    · rename_i hcan
      cases hstep
      refine iff_of_true (h.connect hconn ?_ kind clientID) trivial
      apply held_of_phase
      intro id hphase
      rw [hphase] at hcan
      rcases hcan.right with hnew | hagain
      · cases hnew
      · cases hagain
    · cases hstep
  | closeOld =>
    simp only [stepConn] at hstep
    split at hstep
    · rename_i clientID old hphase
      cases hstep
      have hfree : conn.held = none := held_of_phase (fun id hregistered =>
        by cases hphase.symm.trans hregistered)
      rw [h.closeOld_iff hconn hfree]
      constructor
      · intro hmay hkind id old' hreplacing
        cases hphase.symm.trans hreplacing
        exact hmay hkind
      · intro hspares hkind
        exact hspares hkind clientID old hphase
    · cases hstep
  | store =>
    simp only [stepConn] at hstep
    split at hstep
    · rename_i clientID hphase
      cases hstep
      have hfree : conn.held = none := held_of_phase (fun id hregistered =>
        by cases hphase.symm.trans hregistered)
      rw [h.accept_iff hconn hfree]
      constructor
      · intro honly hgone id hstoring
        cases hphase.symm.trans hstoring
        exact honly hgone
      · intro hspares hgone
        exact hspares hgone clientID hphase
    · cases hstep
  | connAck =>
    simp only [stepConn] at hstep
    split at hstep
    · split at hstep
      · cases hstep
        refine iff_of_true ?_ trivial
        unfold Current
        rw [view_putConn hconn]
        · exact h
        · rfl
      · cases hstep
    · cases hstep
  | reConnect =>
    simp only [stepConn] at hstep
    split at hstep
    · rename_i clientID hphase
      split at hstep
      · cases hstep
        rw [h.reConnect_iff hconn hphase]
        constructor
        · intro honly id hregistered
          cases hphase.symm.trans hregistered
          exact honly
        · intro hspares
          exact hspares clientID hphase
      · cases hstep
    · cases hstep
  | drop =>
    cases hstep
    exact h.close_iff c
  | cleanUp =>
  have hgone : conn.live = false ∧ s.cleanUp c conn = s' := by
    simp only [stepConn] at hstep
    split at hstep
    · split at hstep
      · rename_i hcan
        exact ⟨hcan.right, Option.some.inj hstep⟩
      · cases hstep
    · split at hstep
      · rename_i hcan
        exact ⟨hcan.right, Option.some.inj hstep⟩
      · cases hstep
    · cases hstep
  rw [← hgone.right]
  exact h.cleanUp_iff hconn hgone.left

theorem Current.step_iff {s' : ClientRegistry} {kind : ServerKind}
    {a : RegistryAction} (hstep : s.step kind a = some s') :
    s'.Current <-> s.Spares kind a := by
  cases a with
  | arrive =>
    cases hstep
    unfold Current
    rw [view_arrive]
    exact iff_of_true h trivial
  | handler c a =>
  cases hconn : s.conns[c]? with
  | none => simp only [step, hconn, reduceCtorEq] at hstep
  | some conn =>
  simp only [step, hconn] at hstep
  rw [h.stepConn_iff hconn hstep]
  constructor
  · intro hspares conn' hconn' _
    cases hconn.symm.trans hconn'
    exact hspares
  · intro hall
    exact hall conn hconn (by rw [hstep]; rfl)

theorem Current.breaks {kind : ServerKind} {a : RegistryAction}
    (hnot : ¬ s.Spares kind a) :
    exists s', s.step kind a = some s' ∧ ¬ s'.Current := by
  have hpossible : (s.step kind a).isSome := by
    by_contra himpossible
    apply hnot
    cases a with
    | arrive => trivial
    | handler c a =>
    intro conn hconn hcan
    apply absurd _ himpossible
    simp only [step, hconn]
    exact hcan
  rcases Option.isSome_iff_exists.mp hpossible with ⟨s', hstep⟩
  exact ⟨s', hstep, fun hcurrent => hnot ((h.step_iff hstep).mp hcurrent)⟩

omit h

/-!
## Runs
-/

/--
An id that open connections have is registered for the latest of them at every
moment, exactly if every action spares the others that have it.
-/
theorem current_iff (kind : ServerKind) (actions : List RegistryAction) :
    (forall front, front <+: actions -> forall s,
      run? (step kind) newClientRegistry front = some s -> s.Current) <->
      Meets (step kind) (Spares kind) newClientRegistry actions := by
  have hstart : newClientRegistry.Current := by
    intro c clientID hheld
    cases hheld
  exact @run?_always_iff_meets _ _ (step kind) (Spares kind)
    (fun _ => Current) Current actions.length (fun _ _ h => h)
    (fun _ _ _ _ _ h hspares hstep => (h.step_iff hstep).mpr hspares)
    (fun _ _ _ _ h hnot => h.breaks hnot) 0 _ hstart actions (by omega)

/-- A client comes back while the handler of its old connection still runs. -/
def takeover : List RegistryAction :=
  [.arrive, .handler 0 (.connect (ascii "worker")), .arrive,
    .handler 1 (.connect (ascii "worker")), .handler 1 .closeOld,
    .handler 1 .store, .handler 0 .cleanUp]

/-- The handler that ends deletes the id of the new connection. -/
theorem not_current_takeover :
    ¬ forall front, front <+: takeover -> forall s,
      run? (step .chimera) newClientRegistry front = some s -> s.Current := by
  intro h
  have hend : (run? (step .chimera) newClientRegistry takeover).map
      (fun s => (s.conns[1]?.bind RegisteredConn.held, s.clients)) =
        some (some (ascii "worker"), []) := by
    decide +kernel
  rcases Option.map_eq_some_iff.mp hend with ⟨s, hrun, hs⟩
  rcases Prod.mk.inj hs with ⟨hheld, hclients⟩
  rcases h takeover (List.prefix_refl _) s hrun 1 (ascii "worker") hheld with
    ⟨d, _, hregistered⟩
  change getEntry (ascii "worker") s.clients = some d at hregistered
  rw [hclients] at hregistered
  cases hregistered

end ClientRegistry
end Protocol
end ChimeraMQ
