import ChimeraMQ.Stream.Fetch

/-!
# The loops that deliver to subscribers

A client that subscribes to a topic gets a loop of its own, which fetches a
message and sends it, over and over, beside the commands of the client. It ends
when the connection is closed but not when the client unsubscribes.
-/

namespace ChimeraMQ
namespace Protocol

open Foundation
open Message
open Storage

/-!
## Loops
-/

inductive Phase where
  | joining
  | fetching
  | sending (source : Stream.Engine) (msgs : List Envelope)
  | ended

inductive DeliveryEvent where
  | sent (source : Stream.Engine) (env : Envelope)
  | unsubscribed

structure Delivery (σ : Type) where
  sub : σ
  phase : Phase
  log : List DeliveryEvent

/--
What a protocol makes of the loops: the subscriptions, the stream engine,
whether a connection is closed, what commands start and end, and how a message
is sent.
-/
structure Transport (κ ι σ γ : Type) where
  id : σ -> Bytes
  topic : σ -> Bytes
  group : σ -> Bytes
  member : σ -> Bytes
  engine : κ -> Stream.Engine
  putEngine : κ -> Stream.Engine -> κ
  closed : κ -> Bool
  input : κ -> ι -> Option (κ × List σ × Option Bytes)
  sendMessage : κ -> σ -> Envelope -> γ -> κ × Bool

structure Subscriber (κ σ : Type) where
  conn : κ
  deliveries : List (Delivery σ)

inductive SubscriberAction (ι γ : Type) where
  | input (i : ι)
  | loop (i : Nat) (write : γ) (c : Stream.Engine.FetchContext)

namespace Delivery

variable {σ : Type}

def start (sub : σ) : Delivery σ where
  sub := sub
  phase := .joining
  log := []

def unsubscribe (d : Delivery σ) : Delivery σ :=
  { d with log := d.log ++ [.unsubscribed] }

end Delivery

namespace Transport

variable {κ ι σ γ : Type} (P : Transport κ ι σ γ)

def runSubscription (conn : κ) (d : Delivery σ) (write : γ)
    (c : Stream.Engine.FetchContext) : κ × Delivery σ :=
  match d.phase with
  | .joining =>
    (P.putEngine conn
      ((P.engine conn).joinGroup (P.group d.sub) (P.topic d.sub)
        (P.member d.sub) 1 .range c.now), { d with phase := .fetching })
  | .fetching =>
    if P.closed conn then (conn, { d with phase := .ended })
    else
      match (P.engine conn).fetch (P.topic d.sub) 0 0 1 c with
      | (se, .error _) => (P.putEngine conn se, d)
      | (se, .ok (msgs, _)) =>
        (P.putEngine conn se, { d with phase := .sending se msgs })
  | .sending _ [] => (conn, { d with phase := .fetching })
  | .sending source (env :: rest) =>
    match P.sendMessage conn d.sub env write with
    | (conn, false) => (conn, { d with phase := .ended })
    | (conn, true) =>
    (conn,
      { d with
        phase := .sending source rest
        log := d.log ++ [.sent source env] })
  | .ended => (conn, d)

def unsubscribe (ended : Option Bytes) (d : Delivery σ) : Delivery σ :=
  if ended = some (P.id d.sub) then d.unsubscribe else d

def step (s : Subscriber κ σ) :
    SubscriberAction ι γ -> Option (Subscriber κ σ)
  | .input i =>
    match P.input s.conn i with
    | none => none
    | some (conn, started, ended) =>
    some
      { conn := conn
        deliveries :=
          s.deliveries.map (P.unsubscribe ended) ++
            started.map Delivery.start }
  | .loop i write c =>
    match s.deliveries[i]? with
    | none => none
    | some d =>
      let r := P.runSubscription s.conn d write c
      some { conn := r.1, deliveries := s.deliveries.set i r.2 }

end Transport

/-!
## The order of deliveries
-/

def Holds (se : Stream.Engine) (topic : Bytes) (env : Envelope) : Prop :=
  exists part, getEntry (topic, 0) se.storage.partitions = some part ∧
    Stream.Engine.messageAt se.encryptor topic 0 part env.sequence.toNat =
      some env

def DeliveryEvent.offset? : DeliveryEvent -> Option UInt64
  | .sent _ env => some env.sequence
  | .unsubscribed => none

def DeliveryEvent.Precedes : DeliveryEvent -> DeliveryEvent -> Prop
  | .sent _ env, .sent _ later => env.sequence < later.sequence
  | .unsubscribed, .sent _ _ => False
  | _, .unsubscribed => True

namespace Transport

variable {κ ι σ γ : Type} (P : Transport κ ι σ γ)

/--
The messages sent are records of the topic, the offsets increase, and nothing
is sent after the client has unsubscribed.
-/
structure InOrder (d : Delivery σ) : Prop where
  stored : forall source env, DeliveryEvent.sent source env ∈ d.log ->
    Holds source (P.topic d.sub) env
  ordered : d.log.Pairwise DeliveryEvent.Precedes

def DeliversInOrder (conn : κ) (actions : List (SubscriberAction ι γ)) : Prop :=
  forall front, front <+: actions -> forall s,
    run? P.step { conn := conn, deliveries := [] } front = some s ->
      forall d, d ∈ s.deliveries -> P.InOrder d

def SendsFirst (s : Subscriber κ σ) : SubscriberAction ι γ -> Prop
  | .input _ => True
  | .loop i write _ =>
    forall d, s.deliveries[i]? = some d ->
      forall source env rest, d.phase = .sending source (env :: rest) ->
        (P.sendMessage s.conn d.sub env write).2 = true -> d.log = []

theorem InOrder.offsets {P : Transport κ ι σ γ} {d : Delivery σ}
    (h : P.InOrder d) :
    (d.log.filterMap DeliveryEvent.offset?).Pairwise
      (fun o later => o < later) := by
  apply List.Pairwise.filterMap DeliveryEvent.offset? _ h.ordered
  intro e e' hprecedes o ho o' ho'
  cases e with
  | unsubscribed => cases ho
  | sent source env =>
  cases e' with
  | unsubscribed => cases ho'
  | sent source' env' =>
  cases ho
  cases ho'
  exact hprecedes

/-- All that is sent or is to be sent next are records with the offset zero. -/
structure AtFirst (d : Delivery σ) : Prop where
  sent : forall source env, DeliveryEvent.sent source env ∈ d.log ->
    env.sequence = 0
  sending : forall source msgs, d.phase = .sending source msgs ->
    forall env, env ∈ msgs ->
      env.sequence = 0 ∧ Holds source (P.topic d.sub) env

end Transport

/-!
## Fetching the first message
-/

theorem opened_of_getOrCreatePartition {e e' : HotEngine} {key : PartitionKey}
    {now : Nat} {part : Partition}
    (h : e.getOrCreatePartition key now = .ok (e', part)) :
    getEntry key e'.partitions = some part := by
  unfold HotEngine.getOrCreatePartition at h
  cases hentry : getEntry key e.partitions with
  | some p =>
    rw [hentry] at h
    cases h
    exact hentry
  | none =>
  rw [hentry] at h
  simp only at h
  cases hopen : Partition.openPartition (e.directory key) key.1 key.2
      e.segmentSize now with
  | error err =>
    rw [hopen] at h
    cases h
  | ok p =>
  rw [hopen] at h
  cases h
  exact getEntry_setEntry key part e.partitions

theorem decodeAll_single (encryptor : Option Stream.Decryptor) (topic : Bytes)
    (part : Partition) {raw : List Bytes} (hlength : raw.length ≤ 1)
    (hhead : raw.head? = part.record 0) {env : Envelope}
    (henv : env ∈ Stream.Engine.decodeAll encryptor topic 0 0 raw) :
    env.sequence = 0 ∧
      Stream.Engine.messageAt encryptor topic 0 part 0 = some env := by
  cases raw with
  | nil => cases henv
  | cons data rest =>
  have hrest : rest = [] :=
    List.length_eq_zero_iff.mp (by simpa using hlength)
  have hrecord : part.record 0 = some data := hhead.symm
  rw [hrest] at henv
  unfold Stream.Engine.decodeAll at henv
  unfold Stream.Engine.messageAt
  rw [hrecord]
  cases hdecode : Stream.Engine.decode encryptor topic 0 data with
  | none =>
    rw [hdecode] at henv
    cases henv
  | some found =>
  rw [hdecode] at henv
  have hsame := List.mem_singleton.mp henv
  rw [hsame]
  exact ⟨rfl, by simp only [hdecode, Option.map_some]⟩

theorem fetch_first {se se' : Stream.Engine} {topic : Bytes}
    {c : Stream.Engine.FetchContext} {msgs : List Envelope} {n : Nat}
    (h : se.fetch topic 0 0 1 c = (se', .ok (msgs, n))) {env : Envelope}
    (henv : env ∈ msgs) : env.sequence = 0 ∧ Holds se' topic env := by
  unfold Stream.Engine.fetch at h
  by_cases hclosed : se.closed = true
  · rw [if_pos hclosed] at h
    cases h
  rw [if_neg hclosed] at h
  cases hget : se.storage.getOrCreatePartition (topic, 0) c.now with
  | error err =>
    rw [hget] at h
    cases h
  | ok r =>
  rcases r with ⟨storage, part⟩
  rw [hget] at h
  simp only [Nat.zero_le, if_true, Prod.mk.injEq, Except.ok.injEq] at h
  rcases h with ⟨hse, hread⟩
  have hmsgs : msgs = Stream.Engine.decodeAll se.encryptor topic 0 0
      (part.readRange 0 (Stream.Engine.lastOffset 0 part.highWater 1)
        1) := (congrArg Prod.fst hread).symm
  have hsingle := decodeAll_single se.encryptor topic part
    (part.length_readRange_le 0 _ 1)
    (Partition.readRange_head (Nat.zero_le _) (by decide))
    (hmsgs ▸ henv)
  rcases hsingle with ⟨hzero, hat⟩
  refine ⟨hzero, part, ?_, ?_⟩
  · rw [← hse]
    exact opened_of_getOrCreatePartition hget
  · rw [← hse, hzero]
    exact hat

/-!
## Steps
-/

namespace Transport

variable {κ ι σ γ : Type} {P : Transport κ ι σ γ}

theorem inOrder_start (sub : σ) : P.InOrder (Delivery.start sub) where
  stored := by
    intro source env h
    cases h
  ordered := List.Pairwise.nil

theorem atFirst_start (sub : σ) : P.AtFirst (Delivery.start sub) where
  sent := by
    intro source env h
    cases h
  sending := by
    intro source msgs h
    cases h

variable {d : Delivery σ}

theorem InOrder.unsubscribe (h : P.InOrder d) (ended : Option Bytes) :
    P.InOrder (P.unsubscribe ended d) := by
  unfold Transport.unsubscribe
  split
  · constructor
    · intro source env hsent
      rcases List.mem_append.mp hsent with hold | hnew
      · exact h.stored source env hold
      · cases List.mem_singleton.mp hnew
    apply List.pairwise_append.mpr
    refine ⟨h.ordered, List.pairwise_singleton _ _, ?_⟩
    intro e _ e' he'
    rw [List.mem_singleton.mp he']
    cases e with
    | sent source env => trivial
    | unsubscribed => trivial
  · exact h

theorem AtFirst.unsubscribe (h : P.AtFirst d) (ended : Option Bytes) :
    P.AtFirst (P.unsubscribe ended d) := by
  unfold Transport.unsubscribe
  split
  · constructor
    · intro source env hsent
      rcases List.mem_append.mp hsent with hold | hnew
      · exact h.sent source env hold
      · cases List.mem_singleton.mp hnew
    · exact h.sending
  · exact h

theorem AtFirst.sent_iff (h : P.AtFirst d) {source : Stream.Engine}
    {env : Envelope} (hzero : env.sequence = 0)
    (hheld : Holds source (P.topic d.sub) env) (phase : Phase) :
    P.InOrder
        { d with phase := phase, log := d.log ++ [.sent source env] } <->
      d.log = [] := by
  constructor
  · intro hnext
    have hordered := (List.pairwise_append.mp hnext.ordered).right.right
    apply List.eq_nil_iff_forall_not_mem.mpr
    intro e he
    have hbefore := hordered e he _ (List.mem_singleton_self _)
    cases e with
    | unsubscribed => exact hbefore
    | sent source' env' =>
    have hlt : env'.sequence < env.sequence := hbefore
    rw [h.sent source' env' he, hzero] at hlt
    exact absurd hlt (by decide)
  intro hnil
  constructor
  · intro source' env' hsent
    change _ ∈ d.log ++ [DeliveryEvent.sent source env] at hsent
    rw [hnil, List.nil_append] at hsent
    cases List.mem_singleton.mp hsent
    exact hheld
  · change (d.log ++ [DeliveryEvent.sent source env]).Pairwise _
    rw [hnil]
    exact List.pairwise_singleton _ _

theorem log_runSubscription (conn : κ) {write : γ}
    (hnot : forall source env rest,
      d.phase = .sending source (env :: rest) ->
        (P.sendMessage conn d.sub env write).2 = false)
    (c : Stream.Engine.FetchContext) :
    (P.runSubscription conn d write c).2.log = d.log ∧
      (P.runSubscription conn d write c).2.sub = d.sub := by
  unfold runSubscription
  cases hphase : d.phase with
  | joining => exact ⟨rfl, rfl⟩
  | fetching =>
    simp only
    split
    · exact ⟨rfl, rfl⟩
    · split
      · exact ⟨rfl, rfl⟩
      · exact ⟨rfl, rfl⟩
  | sending source msgs =>
    cases msgs with
    | nil => exact ⟨rfl, rfl⟩
    | cons env rest =>
    have hfails := hnot source env rest hphase
    simp only
    split
    · exact ⟨rfl, rfl⟩
    · rename_i conn' hsent
      rw [hsent] at hfails
      cases hfails
  | ended => exact ⟨rfl, rfl⟩

theorem runSubscription_sent {conn : κ} {write : γ} {source : Stream.Engine}
    {env : Envelope} {rest : List Envelope}
    (hphase : d.phase = .sending source (env :: rest))
    (hsent : (P.sendMessage conn d.sub env write).2 = true)
    (c : Stream.Engine.FetchContext) :
    (P.runSubscription conn d write c).2 =
      { d with
        phase := .sending source rest
        log := d.log ++ [.sent source env] } := by
  unfold runSubscription
  rw [hphase]
  simp only
  split
  · rename_i conn' hfails
    rw [hfails] at hsent
    cases hsent
  · rfl

theorem AtFirst.runSubscription (h : P.AtFirst d) (conn : κ) (write : γ)
    (c : Stream.Engine.FetchContext) :
    P.AtFirst (P.runSubscription conn d write c).2 := by
  unfold Transport.runSubscription
  cases hphase : d.phase with
  | joining =>
    constructor
    · exact h.sent
    · intro source msgs hsending
      cases hsending
  | fetching =>
    simp only
    split
    · constructor
      · exact h.sent
      · intro source msgs hsending
        cases hsending
    split
    · exact h
    rename_i se msgs n hfetch
    constructor
    · exact h.sent
    · intro source msgs' hsending env henv
      cases hsending
      exact fetch_first hfetch henv
  | sending source msgs =>
    cases msgs with
    | nil =>
      constructor
      · exact h.sent
      · intro source' msgs' hsending
        cases hsending
    | cons env rest =>
    have hheld := h.sending source (env :: rest) hphase
    simp only
    split
    · constructor
      · exact h.sent
      · intro source' msgs' hsending
        cases hsending
    constructor
    · intro source' env' hsent
      rcases List.mem_append.mp hsent with hold | hnew
      · exact h.sent source' env' hold
      · cases List.mem_singleton.mp hnew
        exact (hheld env (List.mem_cons_self ..)).left
    · intro source' msgs' hsending env' henv'
      cases hsending
      exact hheld env' (List.mem_cons_of_mem env henv')
  | ended => exact h

theorem InOrder.runSubscription_iff (h : P.InOrder d) (hfirst : P.AtFirst d)
    (conn : κ) (write : γ) (c : Stream.Engine.FetchContext) :
    P.InOrder (P.runSubscription conn d write c).2 <->
      forall source env rest, d.phase = .sending source (env :: rest) ->
        (P.sendMessage conn d.sub env write).2 = true -> d.log = [] := by
  by_cases hsends : exists source env rest,
      d.phase = .sending source (env :: rest) ∧
        (P.sendMessage conn d.sub env write).2 = true
  · rcases hsends with ⟨source, env, rest, hphase, hsent⟩
    have hheld := hfirst.sending source (env :: rest) hphase env
      (List.mem_cons_self ..)
    rw [runSubscription_sent hphase hsent c,
      hfirst.sent_iff hheld.left hheld.right]
    constructor
    · intro hnil _ _ _ _ _
      exact hnil
    · intro hall
      exact hall source env rest hphase hsent
  constructor
  · intro _ source env rest hphase hsent
    exact absurd ⟨source, env, rest, hphase, hsent⟩ hsends
  intro _
  have hsame := log_runSubscription conn (fun source env rest hphase =>
    Bool.eq_false_iff.mpr (fun hsent =>
      hsends ⟨source, env, rest, hphase, hsent⟩)) c
  constructor
  · rw [hsame.left, hsame.right]
    exact h.stored
  · rw [hsame.left]
    exact h.ordered

/-- All loops are in order, and send nothing but the first message. -/
def Orderly (P : Transport κ ι σ γ) (s : Subscriber κ σ) : Prop :=
  forall d, d ∈ s.deliveries -> P.InOrder d ∧ P.AtFirst d

theorem Orderly.step {s s' : Subscriber κ σ} {a : SubscriberAction ι γ}
    (h : P.Orderly s) (hsends : P.SendsFirst s a)
    (hstep : P.step s a = some s') : P.Orderly s' := by
  intro d' hd'
  cases a with
  | input i =>
    cases hinput : P.input s.conn i with
    | none => simp only [Transport.step, hinput, reduceCtorEq] at hstep
    | some r =>
    simp only [Transport.step, hinput, Option.some.injEq] at hstep
    rw [← hstep] at hd'
    rcases List.mem_append.mp hd' with hold | hnew
    · rcases List.mem_map.mp hold with ⟨d, hd, hsame⟩
      rw [← hsame]
      exact ⟨(h d hd).left.unsubscribe _, (h d hd).right.unsubscribe _⟩
    · rcases List.mem_map.mp hnew with ⟨sub, _, hsame⟩
      rw [← hsame]
      exact ⟨inOrder_start sub, atFirst_start sub⟩
  | loop i write c =>
  cases hd : s.deliveries[i]? with
  | none => simp only [Transport.step, hd, reduceCtorEq] at hstep
  | some d =>
  simp only [Transport.step, hd, Option.some.injEq] at hstep
  rw [← hstep] at hd'
  have hgood := h d (List.mem_of_getElem? hd)
  rcases List.mem_or_eq_of_mem_set hd' with hold | hnew
  · exact h d' hold
  · rw [hnew]
    exact ⟨(hgood.left.runSubscription_iff hgood.right ..).mpr
      (hsends d hd), hgood.right.runSubscription ..⟩

theorem Orderly.breaks {s : Subscriber κ σ} {a : SubscriberAction ι γ}
    (h : P.Orderly s) (hsends : ¬ P.SendsFirst s a) :
    exists s', P.step s a = some s' ∧
      ¬ forall d, d ∈ s'.deliveries -> P.InOrder d := by
  cases a with
  | input i => exact absurd trivial hsends
  | loop i write c =>
  cases hd : s.deliveries[i]? with
  | none =>
    apply absurd _ hsends
    intro d hd'
    rw [hd] at hd'
    cases hd'
  | some d =>
  have hgood := h d (List.mem_of_getElem? hd)
  have hstep : P.step s (.loop i write c) =
      some
        { conn := (P.runSubscription s.conn d write c).1
          deliveries := s.deliveries.set i
            (P.runSubscription s.conn d write c).2 } := by
    unfold Transport.step
    simp only [hd]
  refine ⟨_, hstep, ?_⟩
  intro hall
  apply hsends
  intro d' hd'
  rw [hd] at hd'
  cases hd'
  exact (hgood.left.runSubscription_iff hgood.right ..).mp
    (hall _ (List.mem_set
      (List.getElem?_eq_some_iff.mp hd).1 _))

/-!
## Runs
-/

theorem deliversInOrder_iff (conn : κ)
    (actions : List (SubscriberAction ι γ)) :
    P.DeliversInOrder conn actions <->
      Meets P.step P.SendsFirst { conn := conn, deliveries := [] } actions := by
  have hstart : P.Orderly { conn := conn, deliveries := [] } := by
    intro d hd
    cases hd
  exact @run?_always_iff_meets _ _ P.step P.SendsFirst (fun _ => P.Orderly)
    (fun s => forall d, d ∈ s.deliveries -> P.InOrder d) actions.length
    (fun _ _ h d hd => (h d hd).left)
    (fun _ _ _ _ _ h hsends hstep => h.step hsends hstep)
    (fun _ _ _ _ h hsends => h.breaks hsends) 0 _ hstart actions (by omega)

end Transport

end Protocol
end ChimeraMQ
