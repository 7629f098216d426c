import ChimeraMQ.Broker.Admission
import ChimeraMQ.Foundation.Run

/-!
# Tenants and the topics they own

Tenants are created and deleted at runtime, and a topic belongs to a tenant by
the start of its name.  The lookup takes the first tenant of a loop over a map
whose prefix fits.
-/

namespace ChimeraMQ
namespace Broker

open Foundation

/-!
## Managing tenants
-/

structure TenantConfig where
  id : Bytes
  topicPrefix : Bytes
  maxPublishRate : Int

structure TenancyConfig where
  enabled : Bool
  separator : Bytes
  tenants : List TenantConfig

/-- Why an operation on a tenant fails. -/
inductive TenantError where
  | alreadyExists (id : Bytes)
  | notFound (id : Bytes)
deriving DecidableEq

namespace TenantManager

def newManager (cfg : TenancyConfig) : TenantManager :=
  let sep := if cfg.separator = [] then ascii "_" else cfg.separator
  { enabled := cfg.enabled
    tenants := cfg.tenants.foldl (fun tenants tc =>
      setEntry tc.id
        { id := tc.id
          topicPrefix :=
            if tc.topicPrefix = [] then tc.id ++ sep else tc.topicPrefix
          maxPublishRate := tc.maxPublishRate
          publishCount := 0
          windowStart := 0 } tenants) [] }

def register (m : TenantManager) (t : Tenant) : TenantManager :=
  { m with tenants := setEntry t.id t m.tenants }

def createTenant (m : TenantManager) (t : Tenant) :
    Except TenantError TenantManager :=
  match getEntry t.id m.tenants with
  | some _ => .error (.alreadyExists t.id)
  | none =>
  .ok (m.register
    { t with
      topicPrefix :=
        if t.topicPrefix = [] then t.id ++ ascii "_" else t.topicPrefix })

def updateTenant (m : TenantManager) (t : Tenant) :
    Except TenantError TenantManager :=
  match getEntry t.id m.tenants with
  | none => .error (.notFound t.id)
  | some existing =>
    .ok { m with
      tenants := setEntry t.id
        { existing with maxPublishRate := t.maxPublishRate } m.tenants }

def deleteTenant (m : TenantManager) (id : Bytes) :
    Except TenantError TenantManager :=
  match getEntry id m.tenants with
  | none => .error (.notFound id)
  | some _ => .ok { m with tenants := deleteEntry id m.tenants }

def remove (m : TenantManager) (id : Bytes) : TenantManager :=
  { m with tenants := deleteEntry id m.tenants }

end TenantManager

inductive TenantAction where
  | register (t : Tenant)
  | createTenant (t : Tenant)
  | updateTenant (t : Tenant)
  | deleteTenant (id : Bytes)
  | remove (id : Bytes)
  | checkPublishQuota (id : Bytes) (now : Int)

namespace TenantManager

def step (m : TenantManager) : TenantAction -> Option TenantManager
  | .register t => some (m.register t)
  | .createTenant t => some ((m.createTenant t).toOption.getD m)
  | .updateTenant t => some ((m.updateTenant t).toOption.getD m)
  | .deleteTenant id => some ((m.deleteTenant id).toOption.getD m)
  | .remove id => some (m.remove id)
  | .checkPublishQuota id now => some (m.checkPublishQuota id now).1

/-!
## Tenants stand under their ids
-/

def Keyed (tenants : List (Bytes × Tenant)) : Prop :=
  forall e, e ∈ tenants -> e.1 = e.2.id

theorem Keyed.setEntry {tenants : List (Bytes × Tenant)} (h : Keyed tenants)
    {id : Bytes} {t : Tenant} (hid : id = t.id) :
    Keyed (setEntry id t tenants) := by
  intro e he
  rcases mem_setEntry he with hnew | hold
  · rw [hnew]
    exact hid
  · exact h e hold

theorem Keyed.deleteEntry {tenants : List (Bytes × Tenant)}
    (h : Keyed tenants) (id : Bytes) : Keyed (deleteEntry id tenants) :=
  fun e he => h e (mem_deleteEntry.mp he).left

theorem Keyed.getEntry {tenants : List (Bytes × Tenant)} (h : Keyed tenants)
    {id : Bytes} {t : Tenant} (hget : getEntry id tenants = some t) :
    id = t.id :=
  h (id, t) (mem_of_getEntry hget)

theorem keyed_newManager (cfg : TenancyConfig) :
    Keyed (newManager cfg).tenants := by
  unfold newManager
  simp only
  apply List.foldlRecOn (motive := Keyed)
  · intro e he
    cases he
  · intro tenants h tc _
    exact h.setEntry rfl

variable {m : TenantManager}

theorem keyed_checkPublishQuota (h : Keyed m.tenants) (id : Bytes) (now : Int) :
    Keyed (m.checkPublishQuota id now).1.tenants := by
  unfold checkPublishQuota
  split
  · exact h
  split
  · exact h
  rename_i t hget
  split
  · exact h
  apply h.setEntry
  rw [h.getEntry hget]
  unfold resetWindowIfNeeded
  split
  · rfl
  · rfl

theorem keyed_step {m' : TenantManager} {a : TenantAction} (h : Keyed m.tenants)
    (hstep : m.step a = some m') : Keyed m'.tenants := by
  cases a with
  | register t =>
    cases hstep
    exact h.setEntry rfl
  | createTenant t =>
    cases hstep
    unfold createTenant
    split
    · exact h
    · exact h.setEntry rfl
  | updateTenant t =>
    cases hstep
    unfold updateTenant
    split
    · exact h
    · rename_i existing hget
      have hid : t.id = existing.id := h.getEntry hget
      exact h.setEntry hid
  | deleteTenant id =>
    cases hstep
    unfold deleteTenant
    split
    · exact h
    · exact h.deleteEntry id
  | remove id =>
    cases hstep
    exact h.deleteEntry id
  | checkPublishQuota id now =>
    cases hstep
    exact keyed_checkPublishQuota h id now

theorem keyed_run {cfg : TenancyConfig} {actions : List TenantAction}
    (hrun : run? step (newManager cfg) actions = some m) :
    Keyed m.tenants :=
  @run?_invariant _ _ step (fun m => Keyed m.tenants)
    (fun _ _ _ h hstep => keyed_step h hstep) _ _ actions
    (keyed_newManager cfg) hrun

/-!
## The owner of a topic
-/

structure LongestMatch (m : TenantManager) (topic : Bytes) (t : Tenant) :
    Prop where
  registered : (t.id, t) ∈ m.tenants
  fits : t.topicPrefix <+: topic
  longest : forall e, e ∈ m.tenants -> e.2.topicPrefix <+: topic ->
    e.2.topicPrefix.length ≤ t.topicPrefix.length

def Owner (m : TenantManager) (topic : Bytes) : Option Tenant -> Prop
  | none => m.enabled = true ->
      forall e, e ∈ m.tenants -> ¬ e.2.topicPrefix <+: topic
  | some t => m.enabled = true ∧ m.LongestMatch topic t

def WellOwned (m : TenantManager) (topic : Bytes) : Prop :=
  exists r, m.Owner topic r ∧ forall order, m.getTenant topic order = r

def SoleMatch (m : TenantManager) (topic : Bytes) : Prop :=
  m.enabled = true -> forall e, e ∈ m.tenants -> forall e', e' ∈ m.tenants ->
    e.2.topicPrefix <+: topic -> e'.2.topicPrefix <+: topic -> e = e'

instance (m : TenantManager) (topic : Bytes) :
    Decidable (m.SoleMatch topic) := by
  unfold SoleMatch
  infer_instance

variable {topic : Bytes}

theorem getTenant_first (henabled : m.enabled = true) {e : Bytes × Tenant}
    (he : e ∈ m.tenants) (hfits : e.2.topicPrefix <+: topic) :
    m.getTenant topic (MapOrder.first e) = some e.2 := by
  unfold getTenant
  rw [henabled, MapOrder.first_order he, List.find?_cons,
    List.isPrefixOf_iff_prefix.mpr hfits]
  rfl

theorem getTenant_some {order : MapOrder (Bytes × Tenant)} {t : Tenant}
    (hget : m.getTenant topic order = some t) :
    m.enabled = true ∧
      exists id, (id, t) ∈ m.tenants ∧ t.topicPrefix <+: topic := by
  unfold getTenant at hget
  cases henabled : m.enabled with
  | false =>
    rw [henabled] at hget
    cases hget
  | true =>
  rw [henabled] at hget
  rcases Option.map_eq_some_iff.mp hget with ⟨e, hfind, ht⟩
  cases ht
  constructor
  · rfl
  exists e.1
  constructor
  · exact (order.perm m.tenants).mem_iff.mp
      (List.mem_of_find?_eq_some hfind)
  · have hfits := @List.find?_some _ (fun e : Bytes × Tenant =>
      e.2.topicPrefix.isPrefixOf topic) _ _ hfind
    exact List.isPrefixOf_iff_prefix.mp hfits

theorem getTenant_none (henabled : m.enabled = true)
    {order : MapOrder (Bytes × Tenant)} (hget : m.getTenant topic order = none)
    {e : Bytes × Tenant} (he : e ∈ m.tenants) :
    ¬ e.2.topicPrefix <+: topic := by
  intro hfits
  unfold getTenant at hget
  rw [henabled] at hget
  have hfind := Option.map_eq_none_iff.mp hget
  exact List.find?_eq_none.mp hfind e
    ((order.perm m.tenants).mem_iff.mpr he)
    (List.isPrefixOf_iff_prefix.mpr hfits)

theorem soleMatch_of_wellOwned (hkeyed : Keyed m.tenants)
    (h : m.WellOwned topic) :
    m.SoleMatch topic := by
  rcases h with ⟨r, _, hsame⟩
  intro henabled e he e' he' hfits hfits'
  have hfirst := hsame (MapOrder.first e)
  have hfirst' := hsame (MapOrder.first e')
  rw [getTenant_first henabled he hfits] at hfirst
  rw [getTenant_first henabled he' hfits', ← hfirst] at hfirst'
  have htenant : e'.2 = e.2 := Option.some.inj hfirst'
  apply Prod.ext
  · rw [hkeyed e he, hkeyed e' he', htenant]
  · exact htenant.symm

theorem wellOwned_of_soleMatch (hkeyed : Keyed m.tenants)
    (h : m.SoleMatch topic) :
    m.WellOwned topic := by
  exists m.getTenant topic (MapOrder.listed _)
  cases hget : m.getTenant topic (MapOrder.listed _) with
  | none =>
    constructor
    · intro henabled e he
      exact getTenant_none henabled hget he
    intro order
    cases horder : m.getTenant topic order with
    | none => rfl
    | some t =>
    rcases getTenant_some horder with ⟨henabled, id, hmem, hfits⟩
    exact absurd hfits (getTenant_none henabled hget hmem)
  | some t =>
  rcases getTenant_some hget with ⟨henabled, id, hmem, hfits⟩
  have honly : forall e, e ∈ m.tenants -> e.2.topicPrefix <+: topic ->
      e = (id, t) :=
    fun e he hfits' => h henabled e he (id, t) hmem hfits' hfits
  constructor
  · constructor
    · exact henabled
    constructor
    · rw [← hkeyed (id, t) hmem]
      exact hmem
    · exact hfits
    · intro e he hfits'
      rw [honly e he hfits']
  intro order
  cases horder : m.getTenant topic order with
  | none => exact absurd hfits (getTenant_none henabled horder hmem)
  | some t' =>
  rcases getTenant_some horder with ⟨_, id', hmem', hfits'⟩
  cases honly (id', t') hmem' hfits'
  rfl

/--
Whatever tenants have been created, registered and deleted, a topic has one
owner for every order of the loop just when at most one prefix fits it.
-/
theorem wellOwned_iff {cfg : TenancyConfig} {actions : List TenantAction}
    {m : TenantManager} (hrun : run? step (newManager cfg) actions = some m)
    (topic : Bytes) : m.WellOwned topic <-> m.SoleMatch topic := by
  have hkeyed := keyed_run hrun
  constructor
  · exact soleMatch_of_wellOwned hkeyed
  · exact wellOwned_of_soleMatch hkeyed

def nestedTenants : TenancyConfig where
  enabled := true
  separator := []
  tenants := [⟨ascii "team", [], 0⟩, ⟨ascii "team_a", [], 0⟩]

theorem wellOwned_plainTopic :
    (newManager nestedTenants).WellOwned (ascii "team_orders") :=
  (@wellOwned_iff nestedTenants [] _ rfl _).mpr (by decide)

/-- A topic of the inner tenant is at times given to the outer one. -/
theorem not_wellOwned_nested :
    ¬ forall (cfg : TenancyConfig) (actions : List TenantAction)
        (m : TenantManager) (topic : Bytes),
      run? step (newManager cfg) actions = some m -> m.WellOwned topic := by
  intro h
  have howned := h nestedTenants [] _ (ascii "team_a_orders") rfl
  have hsole := soleMatch_of_wellOwned (keyed_newManager nestedTenants) howned
  revert hsole
  decide

end TenantManager

end Broker
end ChimeraMQ
