import ChimeraMQ.Broker.Backend
import ChimeraMQ.Broker.CrashSafety
import ChimeraMQ.Storage.EngineRecords
import ChimeraMQ.Stream.Fetch

/-!
# Topics that are deleted and created again

The deletion of a topic removes its configuration and nothing else.  Its
partitions stay open, and their files stay as well, so that a topic that is
created under the same name, at once or after a restart, has all the messages of
the old one.
-/

namespace ChimeraMQ

open Foundation
open Message
open Storage

def Backend.restart (s : Backend) (settings : Broker.Settings)
    (c : Broker.StartContext) : Except Broker.StartError Backend :=
  match Broker.start settings s.metaFile s.broker.wal.disk
      s.broker.storage.allDirs c with
  | .error err => .error err
  | .ok b =>
    .ok { s with
      broker := b
      queueEngine := Queue.newQueueEngine s.queueEngine.priorityEnabled
      groups := []
      offsets := Stream.OffsetStore.newOffsetStore s.offsets.files
      closed := false }

namespace Broker

/--
The broker with its engines; the records as they were published, and how many
there were when a topic was created.
-/
structure TopicLife where
  settings : Settings
  backend : Backend
  records : List Ack
  created : List (Bytes × Nat)

inductive LifeAction where
  | createTopic (cfg : TopicConfig) (c : CreateContext)
  | publish (env : Envelope) (c : PublishContext)
  | joinGroup (groupName topic memberID : Bytes) (partitionCount : Nat)
      (strategy : Stream.RebalanceStrategy) (now : Int)
  | commitOffset (groupName : Bytes) (partitionID offset now : Nat)
  | fetch (topic : Bytes) (partitionID fromOffset : Nat) (maxMessages : Int)
      (c : Stream.Engine.FetchContext)
  | deleteTopic (name : Bytes) (c : CreateContext)
  | restart (c : StartContext)

def storedRecord (b : Broker) (env : Envelope) (c : PublishContext) :
    Option Ack :=
  match (b.prepare env c).2, (b.publish env c).2 with
  | .record key data, .ok (.stored offset) =>
    some { key := key, offset := offset, data := data }
  | _, _ => none

namespace TopicLife

def boot (settings : Settings) (c : StartContext) (priorityEnabled : Bool)
    (decryptor : Option Stream.Decryptor) (acl : Option Auth.ACLEngine)
    (authEnabled : Bool) (maxFetchMessages : Int) :
    Except StartError TopicLife :=
  match Broker.start settings .missing Disk.empty [] c with
  | .error err => .error err
  | .ok b =>
  .ok
    { settings := settings
      backend :=
        { broker := b
          metaFile := .missing
          dlqTopics := []
          queueEngine := Queue.newQueueEngine priorityEnabled
          groups := []
          offsets := Stream.OffsetStore.newOffsetStore []
          decryptor := decryptor
          closed := false
          aclEngine := acl
          authEnabled := authEnabled
          maxFetchMessages := maxFetchMessages }
      records := []
      created := [] }

def step (s : TopicLife) : LifeAction -> Option TopicLife
  | .createTopic cfg c =>
    match s.backend.createTopic cfg c with
    | (backend, .error _) => some { s with backend := backend }
    | (backend, .ok ()) =>
      some { s with
        backend := backend
        created := setEntry cfg.name s.records.length s.created }
  | .publish env c =>
    some { s with
      backend := (s.backend.publish env c).1
      records :=
        s.records ++ (storedRecord s.backend.broker env c).toList }
  | .joinGroup groupName topic memberID partitionCount strategy now =>
    some { s with
      backend := s.backend.joinGroup groupName topic memberID partitionCount
        strategy now }
  | .commitOffset groupName partitionID offset now =>
    some { s with
      backend :=
        (s.backend.commitOffset groupName partitionID offset now).1 }
  | .fetch topic partitionID fromOffset maxMessages c =>
    some { s with
      backend :=
        (s.backend.fetch topic partitionID fromOffset maxMessages c).1 }
  | .deleteTopic name c =>
    some { s with backend := (s.backend.deleteTopic name c).1 }
  | .restart c =>
    match s.backend.restart s.settings c with
    | .error _ => none
    | .ok backend => some { s with backend := backend }

def bornAt (s : TopicLife) (name : Bytes) : Nat :=
  (getEntry name s.created).getD 0

def Newer (s : TopicLife) (name : Bytes) (r : Ack) : Prop :=
  exists i, s.bornAt name ≤ i ∧ s.records[i]? = some r

/--
No fetch returns a message that is older than its topic, and the first record
that the topic got in a partition has the offset 0.
-/
structure Fresh (s : TopicLife) (name : Bytes) : Prop where
  fetched : forall partitionID fromOffset maxMessages now backend msgs next,
    s.backend.fetch name partitionID fromOffset maxMessages
      { now := now, notified := none } = (backend, .ok (msgs, next)) ->
    forall m, m ∈ msgs -> exists r env, s.Newer name r ∧
      r.key = (name, partitionID) ∧
      Stream.Engine.decode s.backend.decryptor name partitionID r.data =
        some env ∧ m = { env with sequence := UInt64.ofNat r.offset }
  first : forall (i : Nat) r, s.bornAt name ≤ i -> s.records[i]? = some r ->
    r.key.1 = name ->
    (forall (j : Nat) r', s.bornAt name ≤ j -> j < i ->
      s.records[j]? = some r' -> r'.key ≠ r.key) -> r.offset = 0

def AllFresh (s : TopicLife) : Prop :=
  forall name, (s.backend.broker.topics.getTopic name).isSome ->
    s.Fresh name

/--
A topic gets a name under which nothing was ever stored.  The offsets do not
run out.
-/
def Unused (s : TopicLife) : LifeAction -> Prop
  | .createTopic cfg _ => s.backend.broker.topics.validate cfg = .ok () ->
      forall r, r ∈ s.records -> r.key.1 ≠ cfg.name
  | .publish _ _ => s.records.length + 1 < 2 ^ 64
  | .joinGroup _ _ _ _ _ _ | .commitOffset _ _ _ _
  | .fetch _ _ _ _ _ | .deleteTopic _ _ | .restart _ => True

/-!
## The invariant
-/

def recordsOf (records : List Ack) (key : PartitionKey) :
    List (Nat × Bytes) :=
  (records.filter (fun r => decide (r.key = key))).map
    (fun r => (r.offset, r.data))

structure Kept (s : TopicLife) : Prop where
  segmentSize : s.settings.segmentSize < 2 ^ 32
  persists : s.backend.broker.storage.Persists (recordsOf s.records)
  aged : forall (i : Nat) r, s.records[i]? = some r -> s.bornAt r.key.1 ≤ i
  born : forall name, s.bornAt name ≤ s.records.length

theorem length_recordsOf_le (records : List Ack) (key : PartitionKey) :
    (recordsOf records key).length ≤ records.length := by
  unfold recordsOf
  rw [List.length_map]
  exact List.length_filter_le _ _

theorem mem_recordsOf {records : List Ack} {key : PartitionKey} {offset : Nat}
    {data : Bytes} (h : (offset, data) ∈ recordsOf records key) :
    exists r, r ∈ records ∧ r.key = key ∧ r.offset = offset ∧
      r.data = data := by
  rcases List.mem_map.mp h with ⟨r, hr, heq⟩
  rcases List.mem_filter.mp hr with ⟨hmem, hkey⟩
  rcases Prod.mk.inj heq with ⟨hoffset, hdata⟩
  exact ⟨r, hmem, of_decide_eq_true hkey, hoffset, hdata⟩

theorem recordsOf_concat (records : List Ack) (r : Ack) :
    recordsOf (records ++ [r]) = HotEngine.recorded (recordsOf records) r.key
      r.data (.ok r.offset) := by
  funext key
  change recordsOf (records ++ [r]) key = Function.update (recordsOf records)
    r.key (recordsOf records r.key ++ [(r.offset, r.data)]) key
  have hsplit : recordsOf (records ++ [r]) key =
      recordsOf records key ++ recordsOf [r] key := by
    unfold recordsOf
    rw [List.filter_append, List.map_append]
  rw [hsplit]
  by_cases hkey : key = r.key
  · rw [hkey, Function.update_self]
    unfold recordsOf
    simp only [List.filter_cons, List.filter_nil, decide_true, if_true,
      List.map_cons, List.map_nil]
  rw [Function.update_of_ne hkey]
  have hnone : recordsOf [r] key = [] := by
    have hother : ¬ r.key = key := fun h => hkey h.symm
    unfold recordsOf
    simp only [List.filter_cons, List.filter_nil, hother, decide_false,
      Bool.false_eq_true, if_false, List.map_nil]
  rw [hnone, List.append_nil]

variable {assigned : PartitionKey -> List (Nat × Bytes)}

theorem persists_initPartitions (topic : Bytes) (now : Nat) {e : HotEngine}
    (h : e.Persists assigned) (ids : List Nat) :
    exists e', initPartitions topic now e ids = (e', .ok ()) ∧
      e'.Persists assigned := by
  induction ids generalizing e with
  | nil => exact ⟨e, rfl, h⟩
  | cons i rest ih =>
  rcases h.getOrCreatePartition (topic, i) now with ⟨e₁, p, hget, h₁, _⟩
  rcases ih h₁ with ⟨e', hrest, h'⟩
  exists e'
  constructor
  · unfold initPartitions
    simp only [hget]
    exact hrest
  · exact h'

theorem persists_initTopics (now : Nat) {e e' : HotEngine}
    (h : e.Persists assigned) {topics : List (Bytes × TopicConfig)}
    (hinit : initTopics now e topics = .ok e') : e'.Persists assigned := by
  induction topics generalizing e with
  | nil =>
    cases hinit
    exact h
  | cons t rest ih =>
  rcases persists_initPartitions t.2.name now h
    (List.range t.2.partitions) with ⟨e₁, hfirst, h₁⟩
  unfold initTopics at hinit
  simp only [hfirst] at hinit
  exact ih h₁ hinit

theorem persists_start {settings : Settings} {metaFile : MetaFile}
    {walDir : Disk} {dirs : List (PartitionKey × Disk)} {c : StartContext}
    {b : Broker}
    (h : (HotEngine.newEngine settings.segmentSize dirs).Persists assigned)
    (hstart : Broker.start settings metaFile walDir dirs c = .ok b) :
    b.storage.Persists assigned := by
  unfold Broker.start at hstart
  split at hstart
  · cases hstart
  split at hstart
  · cases hstart
  rename_i topics storage hmanager
  cases hstart
  unfold newTopicManager at hmanager
  split at hmanager
  · cases hmanager
  split at hmanager
  · cases hmanager
  · rename_i hinit
    cases hmanager
    exact persists_initTopics c.now h hinit

variable {s : TopicLife}

theorem Kept.keep (h : s.Kept) {backend : Backend}
    (hpersists : backend.broker.storage.Persists (recordsOf s.records)) :
    Kept { s with backend := backend } :=
  ⟨h.segmentSize, hpersists, h.aged, h.born⟩

/-!
## The steps
-/

theorem Kept.createTopic {s' : TopicLife} (h : s.Kept) {cfg : TopicConfig}
    {c : CreateContext} (hunused : s.Unused (.createTopic cfg c))
    (hstep : s.step (.createTopic cfg c) = some s') : s'.Kept := by
  rcases persists_initPartitions cfg.name c.now h.persists
    (List.range cfg.partitions) with ⟨e, hinit, hpersists⟩
  simp only [step, Backend.createTopic, Broker.createTopic] at hstep
  split at hstep
  · rename_i backend err hfail
    cases hvalid : s.backend.broker.topics.validate cfg with
    | error e =>
      rw [hvalid] at hfail
      cases hfail
      cases hstep
      exact h.keep h.persists
    | ok u =>
    rw [hvalid] at hfail
    simp only [createPartitions, hinit] at hfail
    cases (Prod.mk.inj hfail).right
  rename_i backend hcreated
  cases hvalid : s.backend.broker.topics.validate cfg with
  | error e =>
    rw [hvalid] at hcreated
    cases (Prod.mk.inj hcreated).right
  | ok u =>
  rw [hvalid] at hcreated
  simp only [createPartitions, hinit] at hcreated
  cases hcreated
  cases hstep
  constructor
  · exact h.segmentSize
  · exact hpersists
  · intro i r hr
    have hother := hunused hvalid r (List.mem_of_getElem? hr)
    have hage := h.aged i r hr
    unfold bornAt at hage ⊢
    simp only
    rw [getEntry_setEntry_ne hother]
    exact hage
  intro name
  unfold bornAt
  simp only
  by_cases hname : name = cfg.name
  · rw [hname, getEntry_setEntry]
    exact Nat.le_refl _
  · rw [getEntry_setEntry_ne hname]
    exact h.born name

theorem broker_publish (s : Backend) (env : Envelope) (c : PublishContext) :
    (s.publish env c).1.broker = (s.broker.publish env c).1 := by
  unfold Backend.publish
  simp only
  split
  · unfold Backend.enqueue
    split
    · rfl
    · rfl
    · rfl
    · split
      · rfl
      · rfl
  · rfl

theorem Kept.publish {s' : TopicLife} (h : s.Kept) {env : Envelope}
    {c : PublishContext} (hunused : s.Unused (.publish env c))
    (hstep : s.step (.publish env c) = some s') : s'.Kept := by
  have hroom : forall key, (recordsOf s.records key).length + 1 < 2 ^ 64 := by
    intro key
    have hle := length_recordsOf_le s.records key
    have hfew : s.records.length + 1 < 2 ^ 64 := hunused
    omega
  have hfiles := s.backend.broker.prepare_files env c
  simp only [step, Option.some.injEq] at hstep
  rw [← hstep]
  have hpersists : (s.backend.publish env c).1.broker.storage.Persists
      (recordsOf (s.records ++
        (storedRecord s.backend.broker env c).toList)) := by
    rw [broker_publish]
    unfold storedRecord
    unfold Broker.publish
    cases hprepare : s.backend.broker.prepare env c with
    | mk b prepared =>
      rw [hprepare] at hfiles
      cases prepared with
      | answer result =>
        simp only [Option.toList_none, List.append_nil]
        rw [hfiles.right]
        exact h.persists
      | record key data =>
      have happend := h.persists.append key (hroom key) data c.now.toNat
      rw [← hfiles.right] at happend
      simp only [appendHot, appendWal]
      cases hr : b.storage.append key data c.now.toNat with
      | mk storage result =>
        rw [hr] at happend
        cases result with
        | error err =>
          simp only [Option.toList_none, List.append_nil]
          exact happend
        | ok offset =>
        simp only [Option.toList_some]
        rw [recordsOf_concat]
        exact happend
  constructor
  · exact h.segmentSize
  · exact hpersists
  · intro i r hr
    rcases Nat.lt_or_ge i s.records.length with hold | hnew
    · rw [List.getElem?_append_left hold] at hr
      exact h.aged i r hr
    · exact Nat.le_trans (h.born r.key.1) hnew
  · intro name
    rw [List.length_append]
    exact Nat.le_add_right_of_le (h.born name)

theorem persists_getOrCreatePartition {s : Backend}
    (h : s.broker.storage.Persists assigned) (key : PartitionKey) (now : Nat) :
    (s.getOrCreatePartition key now).1.broker.storage.Persists assigned := by
  rcases h.getOrCreatePartition key now with ⟨e, p, hget, hpersists, _⟩
  unfold Backend.getOrCreatePartition
  simp only [hget]
  exact hpersists

theorem persists_commitOffset {s : Backend}
    (h : s.broker.storage.Persists assigned) (groupName : Bytes)
    (partitionID offset now : Nat) :
    (s.commitOffset groupName partitionID offset now).1.broker.storage.Persists
      assigned := by
  have hput : (s.putStreamEngine (s.streamEngine.commitOffset groupName
      partitionID offset).1).broker.storage = s.broker.storage := by
    unfold Backend.putStreamEngine Stream.Engine.commitOffset
    split
    · rfl
    · rfl
  have hlag : forall topic : Bytes,
      (if (s.streamEngine.commitOffset groupName partitionID offset).2 = none ∧
            topic ≠ [] then
          (((s.putStreamEngine (s.streamEngine.commitOffset groupName
              partitionID offset).1).getOrCreatePartition (topic, partitionID)
                now).1,
            (s.streamEngine.commitOffset groupName partitionID offset).2)
        else
          (s.putStreamEngine (s.streamEngine.commitOffset groupName partitionID
              offset).1,
            (s.streamEngine.commitOffset groupName partitionID
              offset).2)).1.broker.storage.Persists assigned := by
    intro topic
    split
    · apply persists_getOrCreatePartition
      rw [hput]
      exact h
    · rw [hput]
      exact h
  exact hlag _

theorem persists_fetch {s : Backend} (h : s.broker.storage.Persists assigned)
    (topic : Bytes) (partitionID fromOffset : Nat) (maxMessages : Int)
    (c : Stream.Engine.FetchContext) :
    (s.fetch topic partitionID fromOffset
      maxMessages c).1.broker.storage.Persists assigned := by
  rcases h.getOrCreatePartition (topic, partitionID) c.now with
    ⟨e, p, hget, hpersists, _⟩
  have hopen : s.streamEngine.storage.getOrCreatePartition
      (topic, partitionID) c.now = .ok (e, p) := hget
  unfold Backend.fetch Backend.putStreamEngine Stream.Engine.fetch
  simp only [hopen]
  split
  · exact h
  split
  · exact hpersists
  · split
    · exact hpersists
    · exact hpersists

theorem Kept.step {s' : TopicLife} (h : s.Kept) {a : LifeAction}
    (hunused : s.Unused a) (hstep : s.step a = some s') : s'.Kept := by
  cases a with
  | createTopic cfg c => exact h.createTopic hunused hstep
  | publish env c => exact h.publish hunused hstep
  | joinGroup groupName topic memberID partitionCount strategy now =>
    cases hstep
    apply h.keep
    unfold Backend.joinGroup Backend.putStreamEngine Stream.Engine.joinGroup
    split
    · exact h.persists
    · exact h.persists
  | commitOffset groupName partitionID offset now =>
    cases hstep
    exact h.keep (persists_commitOffset h.persists ..)
  | fetch topic partitionID fromOffset maxMessages c =>
    cases hstep
    exact h.keep (persists_fetch h.persists ..)
  | deleteTopic name c =>
    cases hstep
    apply h.keep
    unfold Backend.deleteTopic Broker.deleteTopic
    simp only
    split
    · exact h.persists
    · exact h.persists
  | restart c =>
  simp only [TopicLife.step] at hstep
  split at hstep
  · cases hstep
  rename_i backend hrestart
  cases hstep
  unfold Backend.restart at hrestart
  split at hrestart
  · cases hrestart
  rename_i b hstart
  cases hrestart
  exact h.keep
    (persists_start (h.persists.reopen h.segmentSize) hstart)

/-!
## What the invariant says
-/

theorem Kept.fetched (h : s.Kept) {name : Bytes}
    {partitionID fromOffset now next : Nat} {maxMessages : Int}
    {backend : Backend} {msgs : List Envelope}
    (hfetch : s.backend.fetch name partitionID fromOffset maxMessages
      { now := now, notified := none } = (backend, .ok (msgs, next)))
    {m : Envelope} (hm : m ∈ msgs) :
    exists r env, r ∈ s.records ∧ r.key = (name, partitionID) ∧
      Stream.Engine.decode s.backend.decryptor name partitionID r.data =
        some env ∧ m = { env with sequence := UInt64.ofNat r.offset } := by
  rcases h.persists.getOrCreatePartition (name, partitionID) now with
    ⟨e, p, hget, _, hp⟩
  have hopen : s.backend.streamEngine.storage.getOrCreatePartition
      (name, partitionID) now = .ok (e, p) := hget
  have hbatch : exists n, m ∈ Stream.Engine.decodeAll s.backend.decryptor name
      partitionID fromOffset (takeRun p.record fromOffset n) := by
    unfold Backend.fetch Stream.Engine.fetch at hfetch
    simp only [hopen] at hfetch
    split at hfetch
    · cases (Prod.mk.inj hfetch).right
    split at hfetch
    · cases hfetch
      rw [hp.inPlace.readRange] at hm
      exact ⟨_, hm⟩
    · cases hfetch
      cases hm
  rcases hbatch with ⟨n, hbatch⟩
  rw [Stream.Engine.decodeAll_takeRun] at hbatch
  rcases List.mem_filterMap.mp hbatch with ⟨offset, _, hmessage⟩
  unfold Stream.Engine.messageAt at hmessage
  split at hmessage
  · cases hmessage
  rename_i data hrecord
  rcases Option.map_eq_some_iff.mp hmessage with ⟨env, hdecode, henv⟩
  have hread : p.read offset = .ok data := by
    unfold Partition.record at hrecord
    cases hr : p.read offset with
    | error err =>
      rw [hr] at hrecord
      cases hrecord
    | ok data' =>
    rw [hr] at hrecord
    cases hrecord
    rfl
  rcases mem_recordsOf ((hp.read_iff offset data).mp hread) with
    ⟨r, hr, hkey, hoffset, hdata⟩
  exists r, env
  rw [hdata, hoffset]
  exact ⟨hr, hkey, hdecode, henv.symm⟩

theorem Kept.fresh (h : s.Kept) (name : Bytes) :
    s.Fresh name := by
  constructor
  · intro partitionID fromOffset maxMessages now backend msgs next hfetch m hm
    rcases h.fetched hfetch hm with ⟨r, env, hr, hkey, hmessage⟩
    rcases List.mem_iff_getElem?.mp hr with ⟨i, hi⟩
    have hage := h.aged i r hi
    rw [hkey] at hage
    exact ⟨r, env, ⟨i, hage, hi⟩, hkey, hmessage⟩
  intro i r _ hr hname hfirst
  have hsplit : s.records = s.records.take i ++ r :: s.records.drop (i + 1) := by
    rcases List.getElem?_eq_some_iff.mp hr with ⟨hlt, hget⟩
    rw [← hget, ← List.drop_eq_getElem_cons hlt, List.take_append_drop]
  have hnone : (s.records.take i).filter (fun x => decide (x.key = r.key)) =
      [] := by
    apply List.filter_eq_nil_iff.mpr
    intro x hx hkey
    rcases List.mem_iff_getElem?.mp hx with ⟨j, hj⟩
    have hlt := (List.getElem?_eq_some_iff.mp hj).1
    rw [List.length_take] at hlt
    have hji : j < i := Nat.lt_of_lt_of_le hlt (Nat.min_le_left _ _)
    rw [List.getElem?_take_of_lt hji] at hj
    have hage := h.aged j x hj
    rw [of_decide_eq_true hkey, hname] at hage
    exact hfirst j x hage hji hj (of_decide_eq_true hkey)
  have hhead : (recordsOf s.records r.key)[0]? = some (r.offset, r.data) := by
    unfold recordsOf
    rw [hsplit, List.filter_append, hnone, List.nil_append]
    simp only [List.filter_cons, decide_true, if_true]
    rfl
  rcases h.persists.getOrCreatePartition r.key 0 with ⟨_, p, _, _, hp⟩
  exact hp.numbered hhead

theorem kept_boot {settings : Settings} {c : StartContext}
    {priorityEnabled : Bool} {decryptor : Option Stream.Decryptor}
    {acl : Option Auth.ACLEngine} {authEnabled : Bool} {maxFetchMessages : Int}
    (hsize : settings.segmentSize < 2 ^ 32)
    (hboot : boot settings c priorityEnabled decryptor acl authEnabled
      maxFetchMessages = .ok s) : s.Kept := by
  unfold boot at hboot
  split at hboot
  · cases hboot
  rename_i b hstart
  cases hboot
  constructor
  · exact hsize
  · exact persists_start (HotEngine.persists_newEngine hsize) hstart
  · intro i r hr
    cases hr
  · intro name
    exact Nat.le_refl 0

/--
If a topic is only created under a name under which nothing was ever stored, all
topics are fresh in every run.
-/
theorem allFresh_of_unused {settings : Settings} {c : StartContext}
    {priorityEnabled : Bool} {decryptor : Option Stream.Decryptor}
    {acl : Option Auth.ACLEngine} {authEnabled : Bool}
    {maxFetchMessages : Int} {s t : TopicLife} {actions : List LifeAction}
    (hsize : settings.segmentSize < 2 ^ 32)
    (hboot : boot settings c priorityEnabled decryptor acl authEnabled
      maxFetchMessages = .ok s)
    (hmeets : Meets step Unused s actions)
    (hrun : run? step s actions = some t) : t.AllFresh := by
  have hkept := run?_invariant_of_meets
    (fun _ _ _ h hunused hstep => Kept.step h hunused hstep)
    (kept_boot hsize hboot) hmeets hrun
  exact fun name _ => hkept.fresh name

/-!
## A topic that is created twice
-/

instance (s : TopicLife) (a : LifeAction) : Decidable (s.Unused a) :=
  match a with
  | .createTopic _ _ => inferInstanceAs (Decidable (_ -> _))
  | .publish _ _ => inferInstanceAs (Decidable (_ < _))
  | .joinGroup _ _ _ _ _ _ | .commitOffset _ _ _ _ | .fetch _ _ _ _ _
  | .deleteTopic _ _ | .restart _ => isTrue trivial

def booted : Except StartError TopicLife :=
  boot plainSettings (startAt 0) false none none false 100

def createAt (now : Nat) : CreateContext where
  now := now
  marshalled := []
  order := MapOrder.listed _

def publishAndDelete : List LifeAction :=
  [.createTopic exampleTopic (createAt 1),
    .publish { Envelope.zero with topic := [116] } (callAt 2),
    .deleteTopic [116] (createAt 3)]

def createOther : List LifeAction :=
  publishAndDelete ++
    [.createTopic { exampleTopic with name := [117] } (createAt 4),
      .restart (startAt 5)]

theorem allFresh_createOther :
    exists s t, booted = .ok s ∧ run? step s createOther = some t ∧
      t.records.length = 1 ∧ t.AllFresh := by
  have hcheck : booted.toOption.bind (fun s =>
      (run? step s createOther).map (fun t =>
        (decide (Meets step Unused s createOther), t.records.length))) =
      some (true, 1) := by decide +kernel
  cases hboot : booted with
  | error err =>
    rw [hboot] at hcheck
    cases hcheck
  | ok s =>
  rw [hboot] at hcheck
  rcases Option.map_eq_some_iff.mp hcheck with ⟨t, hrun, ht⟩
  rcases Prod.mk.inj ht with ⟨hmeets, hrecords⟩
  exact ⟨s, t, rfl, hrun, hrecords,
    allFresh_of_unused (by decide) hboot (of_decide_eq_true hmeets) hrun⟩

def createAgain : List LifeAction :=
  publishAndDelete ++ [.createTopic exampleTopic (createAt 4)]

/-- The topic that is created again has the message of the old one. -/
theorem not_allFresh_createAgain :
    exists s t, booted = .ok s ∧ run? step s createAgain = some t ∧
      ¬ t.AllFresh := by
  have hcheck : booted.toOption.bind (fun s =>
      (run? step s createAgain).map (fun t =>
        (t.records.length, t.bornAt [116],
          (t.backend.broker.topics.getTopic [116]).isSome,
          (t.backend.fetch [116] 0 0 10
            { now := 5, notified := none }).2.toOption.map
              (fun r => r.1.length)))) =
      some (1, 1, true, some 1) := by decide +kernel
  cases hboot : booted with
  | error err =>
    rw [hboot] at hcheck
    cases hcheck
  | ok s =>
  rw [hboot] at hcheck
  rcases Option.map_eq_some_iff.mp hcheck with ⟨t, hrun, ht⟩
  rcases Prod.mk.inj ht with ⟨hrecords, hrest⟩
  rcases Prod.mk.inj hrest with ⟨hborn, hrest⟩
  rcases Prod.mk.inj hrest with ⟨hthere, hfetched⟩
  exists s, t
  constructor
  · rfl
  constructor
  · exact hrun
  intro hfresh
  cases hfetch : t.backend.fetch [116] 0 0 10
      { now := 5, notified := none } with
  | mk backend result =>
    rw [hfetch] at hfetched
    cases result with
    | error err => cases hfetched
    | ok r =>
    have hlength : r.1.length = 1 :=
      Option.some.inj hfetched
    have hmem := List.getElem_mem (by
      rw [hlength]
      exact Nat.one_pos : 0 < r.1.length)
    rcases (hfresh [116] hthere).fetched 0 0 10 5 backend r.1 r.2
      hfetch _ hmem with ⟨x, _, ⟨i, hi, hx⟩, _⟩
    have hlt := (List.getElem?_eq_some_iff.mp hx).1
    rw [hborn] at hi
    rw [hrecords] at hlt
    exact absurd hlt (Nat.not_lt.mpr hi)

end TopicLife

end Broker
end ChimeraMQ
