import ChimeraMQ.Foundation.Bytes
import ChimeraMQ.Foundation.Entries
import ChimeraMQ.Geo.StoredOnce
import Mathlib.Data.List.Nodup

/-!
# Datacenters that replicate to each other

A message that is stored at a datacenter is queued to the replicas of its topic,
wherever it comes from.  A replicated message is stored at the remote datacenter
like one from a client, so it goes on from there, and nothing in it tells where
it has been.
-/

namespace ChimeraMQ
namespace Geo

open Foundation

/-!
## The datacenters
-/

/--
A remote datacenter in the configuration, which answers under its address.  An
empty list of topics stands for all topics.
-/
structure RemoteDC (δ : Type) where
  id : Bytes
  address : δ
  topics : List Bytes
  excludeTopics : List Bytes

def RemoteDC.shouldReplicateTopic {δ : Type} (cfg : RemoteDC δ)
    (topic : Bytes) : Bool :=
  if cfg.topics ≠ [] ∧ topic ∉ cfg.topics then false
  else decide (topic ∉ cfg.excludeTopics)

structure GeoConfig (δ : Type) where
  batchSize : Int
  maxRetries : Int
  remoteDCs : List (RemoteDC δ)

/--
A stored message; the publish that it stems from and the replicas it came
through are kept for the properties.
-/
structure Copy (δ : Type) where
  source : Nat
  topic : Bytes
  hops : List (δ × Bytes)
deriving DecidableEq

def Copy.sentBy {δ : Type} (c : Copy δ) (dc : δ) (id : Bytes) : Copy δ :=
  { c with hops := c.hops ++ [(dc, id)] }

structure RemoteReplica (δ : Type) where
  cfg : RemoteDC δ
  replica : Replica (Copy δ)

structure Datacenter (δ : Type) where
  log : List (Copy δ)
  replicas : List (Bytes × RemoteReplica δ)

structure World (δ : Type) where
  sites : δ -> Datacenter δ
  publishes : List (δ × Bytes)

/--
A client publishes a message, which is then queued to the replicas of the list,
or a step of a replica is taken.
-/
inductive WorldAction (δ : Type) where
  | publish (dc : δ) (topic : Bytes) (order : List Bytes)
  | replica (dc : δ) (id : Bytes) (a : ReplicaAction (Copy δ))
      (order : List Bytes)

def ReplicaAction.IsQueue {ε : Type} : ReplicaAction ε -> Prop
  | .queue _ => True
  | .receive | .tick | .takeStop | .stop | .publish _ | .deliver | .refuse
  | .lose | .timer | .giveUp | .publishLate _ _ => False

instance {ε : Type} (a : ReplicaAction ε) : Decidable a.IsQueue :=
  match a with
  | .queue _ => isTrue trivial
  | .receive | .tick | .takeStop | .stop | .publish _ | .deliver | .refuse
  | .lose | .timer | .giveUp | .publishLate _ _ => isFalse not_false

def GeoConfig.remotes {δ : Type} (cfg : GeoConfig δ) :
    List (Bytes × RemoteDC δ) :=
  cfg.remoteDCs.foldl (fun remotes dc => setEntry dc.id dc remotes) []

def replicate {δ : Type} (c : Copy δ) :
    List Bytes -> List (Bytes × RemoteReplica δ) ->
      List (Bytes × RemoteReplica δ)
  | [], replicas => replicas
  | id :: rest, replicas =>
    match getEntry id replicas with
    | none => replicate c rest replicas
    | some rr =>
    if rr.cfg.shouldReplicateTopic c.topic then
      match rr.replica.step (.queue c) with
      | none => replicas
      | some r =>
        replicate c rest
          (setEntry id { rr with replica := r } replicas)
    else replicate c rest replicas

namespace World

variable {δ : Type} [DecidableEq δ]

def start (config : δ -> GeoConfig δ) : World δ where
  sites := fun dc =>
    { log := []
      replicas := (config dc).remotes.map (fun e =>
        (e.1,
          { cfg := e.2
            replica := Replica.createReplica (config dc).batchSize
              (config dc).maxRetries })) }
  publishes := []

def store (s : World δ) (dc : δ) (c : Copy δ) (order : List Bytes) :
    World δ :=
  { s with
    sites := Function.update s.sites dc
      { log := (s.sites dc).log ++ [c]
        replicas := replicate c order (s.sites dc).replicas } }

def setReplica (s : World δ) (dc : δ) (id : Bytes) (rr : RemoteReplica δ) :
    World δ :=
  { s with
    sites := Function.update s.sites dc
      { s.sites dc with replicas := setEntry id rr (s.sites dc).replicas } }

def step (s : World δ) : WorldAction δ -> Option (World δ)
  | .publish dc topic order =>
    if order.Nodup then
      some ({ s with publishes := s.publishes ++ [(dc, topic)] }.store dc
        { source := s.publishes.length, topic := topic, hops := [] } order)
    else none
  | .replica dc id a order =>
    match getEntry id (s.sites dc).replicas with
    | none => none
    | some rr =>
    if order.Nodup ∧ ¬ a.IsQueue then
      match rr.replica.step a with
      | none => none
      | some r =>
        some ((r.stored.drop rr.replica.stored.length).foldl
          (fun s c => s.store rr.cfg.address (c.sentBy dc id) order)
          (s.setReplica dc id { rr with replica := r }))
    else none

/-!
## Routes
-/

def Leads (config : δ -> GeoConfig δ) (topic : Bytes) :
    δ -> List (δ × Bytes) -> δ -> Prop
  | a, [], b => a = b
  | a, (dc, id) :: rest, b =>
    a = dc ∧ exists cfg, getEntry id (config dc).remotes = some cfg ∧
      cfg.shouldReplicateTopic topic = true ∧
      Leads config topic cfg.address rest b

/-- At most one route leads to any datacenter, and none back to the start. -/
def OneRoute (config : δ -> GeoConfig δ) (topic : Bytes) (a : δ) : Prop :=
  forall b hops hops', Leads config topic a hops b ->
    Leads config topic a hops' b -> hops = hops'

variable {config : δ -> GeoConfig δ} {dc : δ} {id : Bytes}

omit [DecidableEq δ] in
theorem leads_concat {topic : Bytes} {a : δ} {hops : List (δ × Bytes)}
    (h : Leads config topic a hops dc) {cfg : RemoteDC δ}
    (hget : getEntry id (config dc).remotes = some cfg)
    (htopic : cfg.shouldReplicateTopic topic = true) :
    Leads config topic a (hops ++ [(dc, id)]) cfg.address := by
  induction hops generalizing a with
  | nil => exact ⟨h, cfg, hget, htopic, rfl⟩
  | cons hop rest ih =>
  rcases h with ⟨hstart, first, hfirst, hallowed, hrest⟩
  exact ⟨hstart, first, hfirst, hallowed, ih hrest⟩

def AtMostOnce (s : World δ) : Prop :=
  forall dc source, ((s.sites dc).log.filter
    (fun c => decide (c.source = source))).length ≤ 1

/--
A client publishes where no two routes lead to the same datacenter, and the
steps of the replicas repeat nothing.
-/
def Unrepeated (config : δ -> GeoConfig δ) (s : World δ) :
    WorldAction δ -> Prop
  | .publish dc topic _ => OneRoute config topic dc
  | .replica dc id a _ => forall rr,
      getEntry id (s.sites dc).replicas = some rr -> rr.replica.Unrepeated a

/-!
## The invariant
-/

def Arrived (s : World δ) (c : Copy δ) : Prop :=
  c.hops = [] ∨ exists dc id rr sent,
    getEntry id (s.sites dc).replicas = some rr ∧
      sent ∈ rr.replica.stored ∧ c = sent.sentBy dc id

def Sourced (config : δ -> GeoConfig δ) (s : World δ) (dc : δ)
    (c : Copy δ) : Prop :=
  exists origin, s.publishes[c.source]? = some (origin, c.topic) ∧
    Leads config c.topic origin c.hops dc ∧ OneRoute config c.topic origin

structure Tidy (config : δ -> GeoConfig δ) (dc : δ) (log : List (Copy δ))
    (id : Bytes) (rr : RemoteReplica δ) : Prop where
  configured : getEntry id (config dc).remotes = some rr.cfg
  bounded : rr.replica.Bounded
  queued : forall c, rr.replica.queued.count c ≤ log.count c
  topics : forall c, c ∈ rr.replica.queued ->
    rr.cfg.shouldReplicateTopic c.topic = true

structure Orderly (config : δ -> GeoConfig δ) (s : World δ) : Prop where
  tidy : forall dc id rr, getEntry id (s.sites dc).replicas = some rr ->
    Tidy config dc (s.sites dc).log id rr
  arrived : forall dc c, c ∈ (s.sites dc).log -> s.Arrived c
  once : forall dc, (s.sites dc).log.Nodup
  sourced : forall dc c, c ∈ (s.sites dc).log -> s.Sourced config dc c

theorem orderly_start (config : δ -> GeoConfig δ) :
    Orderly config (start config) := by
  constructor
  · intro dc id rr hget
    simp only [start] at hget
    rw [getEntry_map id (fun _ cfg =>
      ({ cfg := cfg
         replica := Replica.createReplica (config dc).batchSize
           (config dc).maxRetries } : RemoteReplica δ))] at hget
    rcases Option.map_eq_some_iff.mp hget with ⟨cfg, hcfg, hrr⟩
    rw [← hrr]
    constructor
    · exact hcfg
    · exact Replica.bounded_createReplica _ _
    · exact fun c => Nat.le_refl _
    · intro c hc
      cases hc
  · intro dc c hc
    cases hc
  · exact fun dc => List.nodup_nil
  · intro dc c hc
    cases hc

/-!
## Storing a message
-/

structure Queued (c : Copy δ) (rr rr' : RemoteReplica δ) : Prop where
  cfg : rr'.cfg = rr.cfg
  topic : rr.cfg.shouldReplicateTopic c.topic = true
  step : rr.replica.step (.queue c) = some rr'.replica

variable {c : Copy δ} {order : List Bytes}

omit [DecidableEq δ] in
theorem getEntry_replicate (hnodup : order.Nodup)
    {replicas : List (Bytes × RemoteReplica δ)} {rr' : RemoteReplica δ}
    (hget : getEntry id (replicate c order replicas) = some rr') :
    getEntry id replicas = some rr' ∨ id ∈ order ∧ exists rr,
      getEntry id replicas = some rr ∧ Queued c rr rr' := by
  induction order generalizing replicas with
  | nil => exact Or.inl hget
  | cons x rest ih =>
  rcases List.nodup_cons.mp hnodup with ⟨hx, hrest⟩
  have hlater : forall {replicas' : List (Bytes × RemoteReplica δ)},
      getEntry id (replicate c rest replicas') = some rr' ->
      (id ≠ x -> getEntry id replicas' = getEntry id replicas) ->
      id ≠ x -> getEntry id replicas = some rr' ∨ id ∈ x :: rest ∧
        exists rr, getEntry id replicas = some rr ∧ Queued c rr rr' := by
    intro replicas' hget' hsame hne
    rcases ih hrest hget' with hold | ⟨hmem, rr, hrr, hqueued⟩
    · rw [hsame hne] at hold
      exact Or.inl hold
    · rw [hsame hne] at hrr
      exact Or.inr ⟨List.mem_cons_of_mem x hmem, rr, hrr, hqueued⟩
  unfold replicate at hget
  cases hfind : getEntry x replicas with
  | none =>
    rw [hfind] at hget
    rcases ih hrest hget with hold | ⟨hmem, hqueued⟩
    · exact Or.inl hold
    · exact Or.inr ⟨List.mem_cons_of_mem x hmem, hqueued⟩
  | some rr =>
  rw [hfind] at hget
  simp only at hget
  split at hget
  · rename_i htopic
    cases hstep : rr.replica.step (.queue c) with
    | none =>
      rw [hstep] at hget
      exact Or.inl hget
    | some r =>
    rw [hstep] at hget
    simp only at hget
    by_cases hid : id = x
    · rw [hid] at hget ⊢
      rcases ih hrest (hid ▸ hget) with hold | ⟨hmem, _⟩
      · rw [hid, getEntry_setEntry] at hold
        right
        constructor
        · exact List.mem_cons_self ..
        exists rr
        constructor
        · exact hfind
        · rw [← Option.some.inj hold]
          exact ⟨rfl, htopic, hstep⟩
      · rw [hid] at hmem
        exact absurd hmem hx
    · exact hlater hget
        (fun hne => getEntry_setEntry_ne hne _ replicas) hid
  · rcases ih hrest hget with hold | ⟨hmem, hqueued⟩
    · exact Or.inl hold
    · exact Or.inr ⟨List.mem_cons_of_mem x hmem, hqueued⟩

variable {rr : RemoteReplica δ}

theorem Tidy.log {log : List (Copy δ)} (h : Tidy config dc log id rr)
    (c : Copy δ) : Tidy config dc (log ++ [c]) id rr where
  configured := h.configured
  bounded := h.bounded
  queued := by
    intro x
    rw [List.count_append]
    exact Nat.le_trans (h.queued x) (Nat.le_add_right _ _)
  topics := h.topics

theorem Tidy.queue {log : List (Copy δ)} {rr' : RemoteReplica δ}
    (h : Tidy config dc log id rr) (hqueued : Queued c rr rr') :
    Tidy config dc (log ++ [c]) id rr' := by
  have hstep := Replica.step_queue hqueued.step
  constructor
  · rw [hqueued.cfg]
    exact h.configured
  · have hunrepeated : rr.replica.Unrepeated (.queue c) := trivial
    exact h.bounded.step hunrepeated hqueued.step
  · intro x
    rw [hstep.left, List.count_append, List.count_append]
    exact Nat.add_le_add_right (h.queued x) _
  intro x hx
  rw [hstep.left] at hx
  rw [hqueued.cfg]
  rcases List.mem_append.mp hx with hold | hnew
  · exact h.topics x hold
  · rw [List.mem_singleton.mp hnew]
    exact hqueued.topic

omit [DecidableEq δ] in
theorem exists_getEntry_replicate (c : Copy δ) (order : List Bytes)
    {replicas : List (Bytes × RemoteReplica δ)}
    (hget : getEntry id replicas = some rr) :
    exists rr', getEntry id (replicate c order replicas) = some rr' ∧
      rr'.replica.stored = rr.replica.stored := by
  induction order generalizing replicas rr with
  | nil => exact ⟨rr, hget, rfl⟩
  | cons x rest ih =>
  unfold replicate
  split
  · exact ih hget
  rename_i other hother
  split
  · split
    · exact ⟨rr, hget, rfl⟩
    rename_i r hstep
    by_cases hid : id = x
    · rw [hid] at hget ⊢
      rw [hget] at hother
      cases hother
      rw [hid] at ih
      rcases ih (getEntry_setEntry x { rr with replica := r } replicas)
        with ⟨rr', hrr', hstored⟩
      exact ⟨rr', hrr', hstored.trans (Replica.step_queue hstep).right⟩
    · apply ih
      rw [getEntry_setEntry_ne hid]
      exact hget
  · exact ih hget

theorem sites_store_self (s : World δ) (dc : δ) (c : Copy δ)
    (order : List Bytes) :
    (s.store dc c order).sites dc =
      { log := (s.sites dc).log ++ [c]
        replicas := replicate c order (s.sites dc).replicas } :=
  Function.update_self ..

theorem sites_store_ne (s : World δ) {dc' : δ} (hne : dc' ≠ dc) (c : Copy δ)
    (order : List Bytes) :
    (s.store dc c order).sites dc' = s.sites dc' :=
  Function.update_of_ne hne ..

variable {s : World δ}

theorem Arrived.store {x : Copy δ} (h : s.Arrived x) (dc : δ) (c : Copy δ)
    (order : List Bytes) : (s.store dc c order).Arrived x := by
  rcases h with hclient | ⟨from', id, rr, sent, hget, hsent, hx⟩
  · exact Or.inl hclient
  right
  by_cases hdc : from' = dc
  · rw [hdc] at hget hx
    rcases exists_getEntry_replicate c order hget with
      ⟨rr', hget', hstored⟩
    exists dc, id, rr', sent
    constructor
    · rw [sites_store_self]
      exact hget'
    · rw [hstored]
      exact ⟨hsent, hx⟩
  · exists from', id, rr, sent
    constructor
    · rw [sites_store_ne s hdc]
      exact hget
    · exact ⟨hsent, hx⟩

theorem Orderly.store (h : Orderly config s) (hnodup : order.Nodup)
    (hnew : c ∉ (s.sites dc).log) (harrived : s.Arrived c)
    (hsourced : s.Sourced config dc c) :
    Orderly config (s.store dc c order) := by
  have hmem : forall {dc' x}, x ∈ ((s.store dc c order).sites dc').log ->
      x ∈ (s.sites dc').log ∨ dc' = dc ∧ x = c := by
    intro dc' x hx
    by_cases hdc : dc' = dc
    · rw [hdc, sites_store_self] at hx
      rcases List.mem_append.mp hx with hold | hlast
      · rw [hdc]
        exact Or.inl hold
      · exact Or.inr ⟨hdc, List.mem_singleton.mp hlast⟩
    · rw [sites_store_ne s hdc] at hx
      exact Or.inl hx
  constructor
  · intro dc' id rr hget
    by_cases hdc : dc' = dc
    · rw [hdc] at hget ⊢
      rw [sites_store_self] at hget ⊢
      rcases getEntry_replicate hnodup hget with hold | ⟨_, rr', hrr, hqueued⟩
      · exact (h.tidy dc id rr hold).log c
      · exact (h.tidy dc id rr' hrr).queue hqueued
    · rw [sites_store_ne s hdc] at hget ⊢
      exact h.tidy dc' id rr hget
  · intro dc' x hx
    rcases hmem hx with hold | ⟨_, hxc⟩
    · exact (h.arrived dc' x hold).store dc c order
    · rw [hxc]
      exact harrived.store dc c order
  · intro dc'
    by_cases hdc : dc' = dc
    · rw [hdc, sites_store_self]
      exact List.nodup_append.mpr ⟨h.once dc, List.nodup_singleton c, by
        intro x hx y hy hxy
        rw [List.mem_singleton.mp hy] at hxy
        rw [hxy] at hx
        exact hnew hx⟩
    · rw [sites_store_ne s hdc]
      exact h.once dc'
  · intro dc' x hx
    rcases hmem hx with hold | ⟨hdc, hxc⟩
    · exact h.sourced dc' x hold
    · rw [hdc, hxc]
      exact hsourced

/-!
## The steps
-/

theorem Orderly.publish (h : Orderly config s) {topic : Bytes}
    (hroute : OneRoute config topic dc) (hnodup : order.Nodup) :
    Orderly config
      ({ s with publishes := s.publishes ++ [(dc, topic)] }.store dc
        { source := s.publishes.length, topic := topic, hops := [] } order) := by
  have hmore : Orderly config
      { s with publishes := s.publishes ++ [(dc, topic)] } := by
    constructor
    · exact h.tidy
    · exact h.arrived
    · exact h.once
    intro dc' x hx
    rcases h.sourced dc' x hx with ⟨origin, hpublished, hleads, hone⟩
    exists origin
    constructor
    · have hlt := (List.getElem?_eq_some_iff.mp hpublished).1
      rw [List.getElem?_append_left hlt]
      exact hpublished
    · exact ⟨hleads, hone⟩
  apply hmore.store hnodup
  · intro hmem
    rcases h.sourced dc _ hmem with ⟨origin, hpublished, _⟩
    exact Nat.lt_irrefl _ (List.getElem?_eq_some_iff.mp hpublished).1
  · exact Or.inl rfl
  exists dc
  constructor
  · exact List.getElem?_concat_length ..
  · exact ⟨rfl, hroute⟩

theorem sites_setReplica_log (s : World δ) (dc dc' : δ) (id : Bytes)
    (rr : RemoteReplica δ) :
    ((s.setReplica dc id rr).sites dc').log = (s.sites dc').log := by
  unfold setReplica
  by_cases hdc : dc' = dc
  · rw [hdc]
    simp only [Function.update_self]
  · simp only [Function.update_of_ne hdc]

theorem getEntry_setReplica (s : World δ) (dc : δ) (id : Bytes)
    (rr : RemoteReplica δ) :
    getEntry id ((s.setReplica dc id rr).sites dc).replicas = some rr := by
  simp only [setReplica, Function.update_self]
  exact getEntry_setEntry ..

theorem getEntry_setReplica_ne (s : World δ) {dc' : δ} {id' : Bytes}
    (hne : (dc', id') ≠ (dc, id)) (rr : RemoteReplica δ) :
    getEntry id' ((s.setReplica dc id rr).sites dc').replicas =
      getEntry id' (s.sites dc').replicas := by
  by_cases hdc : dc' = dc
  · have hid : id' ≠ id := by
      intro hid
      rw [hdc, hid] at hne
      exact hne rfl
    rw [hdc]
    simp only [setReplica, Function.update_self]
    exact getEntry_setEntry_ne hid ..
  · simp only [setReplica, Function.update_of_ne hdc]

theorem Orderly.setReplica (h : Orderly config s) {rr' : RemoteReplica δ}
    (hget : getEntry id (s.sites dc).replicas = some rr)
    (htidy : Tidy config dc (s.sites dc).log id rr')
    (hstored : forall c, c ∈ rr.replica.stored -> c ∈ rr'.replica.stored) :
    Orderly config (s.setReplica dc id rr') := by
  constructor
  · intro dc' id' x hx
    rw [sites_setReplica_log]
    by_cases hsame : (dc', id') = (dc, id)
    · cases hsame
      rw [getEntry_setReplica] at hx
      cases hx
      exact htidy
    · rw [getEntry_setReplica_ne s hsame] at hx
      exact h.tidy dc' id' x hx
  · intro dc' c hc
    rw [sites_setReplica_log] at hc
    rcases h.arrived dc' c hc with hclient | ⟨from', id', x, sent, hx, hsent, hcx⟩
    · exact Or.inl hclient
    right
    by_cases hsame : (from', id') = (dc, id)
    · cases hsame
      rw [hget] at hx
      cases hx
      exact ⟨dc, id, rr', sent, getEntry_setReplica s dc id rr',
        hstored sent hsent, hcx⟩
    exists from', id', x, sent
    constructor
    · rw [getEntry_setReplica_ne s hsame]
      exact hx
    · exact ⟨hsent, hcx⟩
  · intro dc'
    rw [sites_setReplica_log]
    exact h.once dc'
  · intro dc' c hc
    rw [sites_setReplica_log] at hc
    exact h.sourced dc' c hc

omit [DecidableEq δ] in
theorem sentBy_inj {c' : Copy δ} {dc' : δ} {id' : Bytes}
    (h : c.sentBy dc id = c'.sentBy dc' id') :
    c = c' ∧ dc = dc' ∧ id = id' := by
  cases c with
  | mk source topic hops =>
    cases c' with
    | mk source' topic' hops' =>
      simp only [Copy.sentBy, Copy.mk.injEq] at h
      rcases h with ⟨hsource, htopic, hhops⟩
      rcases List.append_inj' hhops rfl with ⟨hfront, hlast⟩
      rcases Prod.mk.inj (List.singleton_inj.mp hlast) with ⟨hdc, hid⟩
      rw [hsource, htopic, hfront]
      exact ⟨rfl, hdc, hid⟩

theorem Orderly.not_mem_log (h : Orderly config s)
    (hget : getEntry id (s.sites dc).replicas = some rr)
    (hcount : (rr.replica.stored ++ [c]).count c ≤ (s.sites dc).log.count c)
    (dc' : δ) :
    c.sentBy dc id ∉ (s.sites dc').log := by
  intro hmem
  rcases h.arrived dc' _ hmem with hclient | ⟨from', id', x, sent, hx, hsent, hcx⟩
  · exact List.append_ne_nil_of_right_ne_nil c.hops (List.cons_ne_nil _ _)
      hclient
  rcases sentBy_inj hcx with ⟨hcsent, hfrom, hid⟩
  rw [← hfrom, ← hid, hget] at hx
  cases hx
  rw [← hcsent] at hsent
  have hone := List.nodup_iff_count_le_one.mp (h.once dc) c
  have hpos := List.count_pos_iff.mpr hsent
  rw [List.count_append, List.count_singleton_self] at hcount
  omega

theorem Orderly.replica (h : Orderly config s)
    (hget : getEntry id (s.sites dc).replicas = some rr)
    {a : ReplicaAction (Copy δ)} (hqueue : ¬ a.IsQueue)
    (hunrepeated : rr.replica.Unrepeated a) {r : Replica (Copy δ)}
    (hstep : rr.replica.step a = some r) (hnodup : order.Nodup) :
    Orderly config ((r.stored.drop rr.replica.stored.length).foldl
      (fun s c => s.store rr.cfg.address (c.sentBy dc id) order)
      (s.setReplica dc id { rr with replica := r })) := by
  have hother : forall e, a ≠ .queue e := by
    intro e ha
    rw [ha] at hqueue
    exact hqueue trivial
  have htidy := h.tidy dc id rr hget
  rcases Replica.step_frame hother hstep with ⟨hqueued, hstored⟩
  have htidy' : Tidy config dc (s.sites dc).log id
      { rr with replica := r } := by
    constructor
    · exact htidy.configured
    · exact htidy.bounded.step hunrepeated hstep
    · rw [hqueued]
      exact htidy.queued
    · rw [hqueued]
      exact htidy.topics
  have hset : Orderly config (s.setReplica dc id { rr with replica := r }) := by
    apply h.setReplica hget htidy'
    intro c hc
    rcases hstored with hsame | ⟨e, hnew⟩
    · rw [hsame]
      exact hc
    · rw [hnew]
      exact List.mem_append_left [e] hc
  rcases hstored with hsame | ⟨c, hnew⟩
  · rw [hsame, List.drop_length]
    exact hset
  rw [hnew, List.drop_left]
  have hcount : forall x, r.stored.count x ≤ (s.sites dc).log.count x := by
    intro x
    have hle := htidy'.bounded.pending x
    have hle' := htidy'.queued x
    simp only at hle hle'
    omega
  have hc : c ∈ r.stored := by
    rw [hnew]
    exact List.mem_append_right _ (List.mem_singleton_self c)
  have hcqueued : c ∈ rr.replica.queued := by
    have hle := htidy'.bounded.pending c
    have hpos := List.count_pos_iff.mpr hc
    simp only at hle
    rw [hqueued] at hle
    apply List.count_pos_iff.mp
    omega
  have hclog : c ∈ (s.sites dc).log :=
    List.count_pos_iff.mp (Nat.lt_of_lt_of_le (List.count_pos_iff.mpr hc)
      (hcount c))
  apply hset.store hnodup
  · rw [sites_setReplica_log]
    apply h.not_mem_log hget
    rw [← hnew]
    exact hcount c
  · exact Or.inr ⟨dc, id, _, c, getEntry_setReplica s dc id _, hc, rfl⟩
  rcases h.sourced dc c hclog with ⟨origin, hpublished, hleads, hone⟩
  exists origin
  constructor
  · exact hpublished
  constructor
  · exact leads_concat hleads htidy.configured
      (htidy.topics c hcqueued)
  · exact hone

theorem Orderly.step {s' : World δ} {a : WorldAction δ} (h : Orderly config s)
    (hunrepeated : s.Unrepeated config a) (hstep : s.step a = some s') :
    Orderly config s' := by
  cases a with
  | publish dc topic order =>
    simp only [World.step] at hstep
    split at hstep
    · rename_i hnodup
      cases hstep
      exact h.publish hunrepeated hnodup
    · cases hstep
  | replica dc id a order =>
  simp only [World.step] at hstep
  split at hstep
  · cases hstep
  rename_i rr hget
  split at hstep
  · rename_i hallowed
    split at hstep
    · cases hstep
    rename_i r hr
    cases hstep
    exact h.replica hget hallowed.right (hunrepeated rr hget) hr
      hallowed.left
  · cases hstep

theorem Orderly.atMostOnce (h : Orderly config s) : s.AtMostOnce := by
  intro dc source
  have hnodup := (h.once dc).filter (fun c => decide (c.source = source))
  cases hfilter : (s.sites dc).log.filter
      (fun c => decide (c.source = source)) with
  | nil => exact Nat.zero_le 1
  | cons c rest =>
  cases rest with
  | nil => exact Nat.le_refl 1
  | cons c' rest =>
  have hin : forall x, x ∈ c :: c' :: rest ->
      x ∈ (s.sites dc).log ∧ x.source = source := by
    intro x hx
    rw [← hfilter] at hx
    rcases List.mem_filter.mp hx with ⟨hmem, hsource⟩
    exact ⟨hmem, of_decide_eq_true hsource⟩
  rcases hin c (List.mem_cons_self ..) with ⟨hc, hcs⟩
  rcases hin c' (List.mem_cons_of_mem c (List.mem_cons_self ..)) with
    ⟨hc', hcs'⟩
  rcases h.sourced dc c hc with ⟨origin, hpublished, hleads, hone⟩
  rcases h.sourced dc c' hc' with ⟨origin', hpublished', hleads', _⟩
  rw [hcs] at hpublished
  rw [hcs', hpublished] at hpublished'
  rcases Prod.mk.inj (Option.some.inj hpublished') with
    ⟨horigin, htopic⟩
  rw [← horigin, ← htopic] at hleads'
  have hhops := hone dc c.hops c'.hops hleads hleads'
  have hsame : c = c' := by
    cases c
    cases c'
    simp only at hcs hcs' htopic hhops
    rw [hcs, hcs', htopic, hhops]
  rw [hfilter, hsame] at hnodup
  exact absurd (List.mem_cons_self ..)
    (List.nodup_cons.mp hnodup).left

/--
If no two routes lead from where a client publishes to the same datacenter and
nothing is repeated, every datacenter stores a message at most once.
-/
theorem atMostOnce_of_unrepeated {config : δ -> GeoConfig δ}
    {actions : List (WorldAction δ)} {s : World δ}
    (hmeets : Meets World.step (Unrepeated config) (start config) actions)
    (hrun : run? World.step (start config) actions = some s) :
    s.AtMostOnce :=
  (run?_invariant_of_meets (fun _ _ _ h hunrepeated hstep =>
    h.step hunrepeated hstep) (orderly_start config) hmeets hrun :
      Orderly config s).atMostOnce

def sendingTo (id : Bytes) (address : Nat) : GeoConfig Nat where
  batchSize := 1
  maxRetries := 0
  remoteDCs := [{ id := id, address := address, topics := []
                  excludeTopics := [] }]

def receiving : GeoConfig Nat where
  batchSize := 1
  maxRetries := 0
  remoteDCs := []

def oneWay (dc : Nat) : GeoConfig Nat :=
  if dc = 0 then sendingTo [1] 1 else receiving

theorem leads_oneWay {topic : Bytes} {hops : List (Nat × Bytes)} {b : Nat}
    (h : Leads oneWay topic 0 hops b) :
    hops = [] ∧ b = 0 ∨ hops = [(0, [1])] ∧ b = 1 := by
  cases hops with
  | nil => exact Or.inl ⟨rfl, Eq.symm h⟩
  | cons hop rest =>
  rcases h with ⟨hdc, cfg, hget, _, hrest⟩
  right
  by_cases hid : hop.2 = [1]
  · rw [← hdc, hid] at hget
    cases hget
    cases rest with
    | nil => exact ⟨by rw [← hid, hdc], Eq.symm hrest⟩
    | cons next rest =>
    rcases hrest with ⟨hnext, cfg, hget, _⟩
    rw [← hnext] at hget
    cases hget
  · rw [← hdc] at hget
    have hremotes : (oneWay 0).remotes =
        setEntry [1] ⟨[1], 1, [], []⟩ [] := rfl
    rw [hremotes, getEntry_setEntry_ne hid] at hget
    cases hget

theorem oneRoute_oneWay (topic : Bytes) : OneRoute oneWay topic 0 := by
  intro b hops hops' h h'
  rcases leads_oneWay h with ⟨hhops, hb⟩ | ⟨hhops, hb⟩
  · rcases leads_oneWay h' with ⟨hhops', hb'⟩ | ⟨hhops', hb'⟩
    · rw [hhops, hhops']
    · rw [hb] at hb'
      cases hb'
  rcases leads_oneWay h' with ⟨hhops', hb'⟩ | ⟨hhops', hb'⟩
  · rw [hb] at hb'
    cases hb'
  · rw [hhops, hhops']

def oneWayRun : List (WorldAction Nat) :=
  [.publish 0 [116] [[1]], .replica 0 [1] .receive [],
    .replica 0 [1] (.publish .stored) []]

/-- The message is stored once at either datacenter. -/
theorem atMostOnce_oneWay :
    exists s, run? World.step (start oneWay) oneWayRun = some s ∧
      (s.sites 1).log.length = 1 ∧ s.AtMostOnce := by
  have hmeets : Meets World.step (Unrepeated oneWay) (start oneWay)
      oneWayRun := by
    constructor
    · exact oneRoute_oneWay [116]
    intro _ _
    constructor
    · exact fun _ _ => trivial
    · exact fun _ _ => ⟨fun _ _ => trivial, fun _ _ => trivial⟩
  have hlogs : (run? World.step (start oneWay) oneWayRun).map
      (fun s => (s.sites 1).log.length) = some 1 := by decide
  rcases Option.map_eq_some_iff.mp hlogs with ⟨s, hs, hlog⟩
  exact ⟨s, hs, hlog, atMostOnce_of_unrepeated hmeets hs⟩

def bothWays (dc : Nat) : GeoConfig Nat :=
  if dc = 0 then sendingTo [1] 1 else sendingTo [0] 0

def bothWaysRun : List (WorldAction Nat) :=
  [.publish 0 [116] [[1]], .replica 0 [1] .receive [],
    .replica 0 [1] (.publish .stored) [[0]], .replica 1 [0] .receive [],
    .replica 1 [0] (.publish .stored) []]

/-- The datacenter where the message was published stores it again. -/
theorem not_atMostOnce_bothWays :
    exists s, run? World.step (start bothWays) bothWaysRun = some s ∧
      ¬ s.AtMostOnce := by
  have hlogs : (run? World.step (start bothWays) bothWaysRun).map (fun s =>
      ((s.sites 0).log.filter (fun c => decide (c.source = 0))).length) =
        some 2 := by decide
  rcases Option.map_eq_some_iff.mp hlogs with ⟨s, hs, hlog⟩
  exists s
  constructor
  · exact hs
  intro honce
  have hle := honce 0 0
  rw [hlog] at hle
  exact absurd hle (by decide)

end World

end Geo
end ChimeraMQ
