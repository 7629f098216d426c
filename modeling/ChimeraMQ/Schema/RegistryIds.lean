import ChimeraMQ.Schema.Registry

/-!
# The ids of the schema registry

A registry takes its ids from a counter that is saved after the version it was
used for, and a registry that is opened takes the largest id that it finds.
-/

namespace ChimeraMQ
namespace Schema

open Foundation

namespace Registry

/-!
## Calls
-/

section Calls

variable (fingerprint : Bytes -> Bytes) (parse : Bytes -> Text)

/--
The text of a version that a call would return is that of the call, an added one
is read again as it is, and the counter does not start again.
-/
def Distinguishes (r : Registry) (d : SchemasDir) : RegistryCall -> Prop
  | .register subject type text =>
    validateSubjectName subject = none ->
      (forall sv, sv ∈ r.existing fingerprint subject text ->
        sv.schema = text) ∧
      (r.existing fingerprint subject text = none ->
        r.incompatible parse subject type text = none ->
          d.isFile subject = false ->
            ValidUtf8 text ∧ r.globalID + 1 ≠ 0)
  | _ => True

instance (r : Registry) (d : SchemasDir) (c : RegistryCall) :
    Decidable (r.Distinguishes fingerprint parse d c) := by
  unfold Distinguishes
  split
  · exact inferInstance
  · exact inferInstance

end Calls

end Registry

abbrev ReturnedID := UInt32 × Bytes × Bytes

def Registered.returned (sv : Registered) : ReturnedID :=
  (sv.id, sv.subject, sv.schema)

def returnedBy : RegistryCall -> Except RegistryError (Option Registered) ->
    List ReturnedID
  | .register subject _ text, .ok (some sv) => [(sv.id, subject, text)]
  | _, _ => []

structure Adds (r : Registry) (d : SchemasDir) (c : RegistryCall)
    (o : CallOutcome) (new : Option Registered) : Prop where
  fresh : forall sv, sv ∈ new -> r.globalID < sv.id ∧ ValidUtf8 sv.schema
  le : r.globalID ≤ o.registry.globalID
  new_le : forall sv, sv ∈ new -> sv.id ≤ o.registry.globalID
  listed : forall x, x ∈ o.registry.listed ->
    x ∈ r.listed ∨ exists sv, sv ∈ new ∧ x = (sv.subject, sv)
  byID : forall e, e ∈ o.registry.byID ->
    e ∈ r.byID ∨ exists sv, sv ∈ new ∧ e = (sv.id, sv)
  dirs : forall d', d' ∈ o.dirs -> forall x, x ∈ d'.storedVersions ->
    x ∈ d.storedVersions ∨
      (exists y, y ∈ r.listed ∧ x = (y.1, SchemasDir.stored y.2)) ∨
      exists sv, sv ∈ new ∧ x = (sv.subject, SchemasDir.stored sv)
  returned : forall a, a ∈ returnedBy c o.reply ->
    (exists x, x ∈ r.listed ∧ a = (x.2.id, x.1, x.2.schema)) ∨
      exists sv, sv ∈ new ∧ a = sv.returned

namespace Registry

section Calls

variable {fingerprint : Bytes -> Bytes} {parse : Bytes -> Text}
variable {r : Registry} {d : SchemasDir}

theorem adds_none {c : RegistryCall} {o : CallOutcome}
    (hid : o.registry.globalID = r.globalID)
    (hlisted : o.registry.listed ⊆ r.listed)
    (hbyID : o.registry.byID ⊆ r.byID)
    (hdirs : forall d', d' ∈ o.dirs -> forall x, x ∈ d'.storedVersions ->
      x ∈ d.storedVersions ∨
        exists y, y ∈ r.listed ∧ x = (y.1, SchemasDir.stored y.2))
    (hreturned : forall a, a ∈ returnedBy c o.reply ->
      exists x, x ∈ r.listed ∧ a = (x.2.id, x.1, x.2.schema)) :
    Adds r d c o none where
  fresh := by
    intro sv hsv
    cases hsv
  le := by
    rw [hid]
    exact UInt32.le_refl _
  new_le := by
    intro sv hsv
    cases hsv
  listed := fun _ hx => Or.inl (hlisted hx)
  byID := fun _ he => Or.inl (hbyID he)
  dirs := by
    intro d' hd' x hx
    rcases hdirs d' hd' x hx with hold | hlisted
    · exact Or.inl hold
    · exact Or.inr (Or.inl hlisted)
  returned := fun a ha => Or.inl (hreturned a ha)

theorem adds_error (r : Registry) (d : SchemasDir) (c : RegistryCall)
    (e : RegistryError) :
    Adds r d c { registry := r, dirs := [], reply := .error e } none := by
  apply adds_none
  · rfl
  · exact fun _ h => h
  · exact fun _ h => h
  · intro d' hd'
    cases hd'
  · intro a ha
    cases c <;> cases ha

theorem lt_succ_of_ne {id : UInt32} (hne : id + 1 ≠ 0) : id < id + 1 := by
  rw [UInt32.lt_iff_toNat_lt, UInt32.toNat_add]
  have hlt := id.toNat_lt
  have hwide : (id.toNat + 1) % 2 ^ 32 ≠ 0 := by
    intro hzero
    apply hne
    apply UInt32.toNat_inj.mp
    rw [UInt32.toNat_add]
    exact hzero
  change id.toNat < (id.toNat + 1) % 2 ^ 32
  omega

theorem saveSubject_isSome {subject : Bytes} {versions : List Registered}
    {dirs : List SchemasDir}
    (hsave : d.saveSubject subject versions = some dirs) :
    d.isFile subject = false := by
  unfold SchemasDir.saveSubject SchemasDir.saveIn at hsave
  split at hsave
  · cases hsave
  · rename_i hfree
    exact Bool.eq_false_iff.mpr hfree

theorem dirs_saveSubject {subject : Bytes} {versions : List Registered}
    {new : Option Registered} {dirs : List SchemasDir}
    (hversions : forall sv, sv ∈ versions -> sv ∈ r.versionsOf subject ∨
      sv ∈ new ∧ sv.subject = subject)
    (hsave : d.saveSubject subject versions = some dirs) {d' : SchemasDir}
    (hd' : d' ∈ dirs) {x : Bytes × Registered} (hx : x ∈ d'.storedVersions) :
    x ∈ d.storedVersions ∨
      (exists y, y ∈ r.listed ∧ x = (y.1, SchemasDir.stored y.2)) ∨
      exists sv, sv ∈ new ∧ x = (sv.subject, SchemasDir.stored sv) := by
  rcases SchemasDir.mem_saveSubject hsave hd' hx with hold | ⟨sv, hsv, heq⟩
  · exact Or.inl hold
  rcases hversions sv hsv with hlisted | ⟨hnew, hsubject⟩
  · exact Or.inr (Or.inl ⟨_, mem_listed_of_versionsOf hlisted, heq⟩)
  · rw [← hsubject] at heq
    exact Or.inr (Or.inr ⟨sv, hnew, heq⟩)

theorem adds_addVersion {type : SchemaType} {sv : Registered}
    (hid : sv.id = r.globalID + 1)
    (hfresh : d.isFile sv.subject = false ->
      ValidUtf8 sv.schema ∧ r.globalID + 1 ≠ 0) :
    exists new, Adds r d (.register sv.subject type sv.schema)
      (r.addVersion d sv) new := by
  have hlisted : forall x, x.1 = sv.subject -> x.2 ∈ r.versionsOf sv.subject ->
      x ∈ r.listed := by
    intro x hsubject hx
    rw [← hsubject] at hx
    exact mem_listed_of_versionsOf hx
  unfold addVersion
  cases hsave : d.saveSubject sv.subject (r.versionsOf sv.subject ++ [sv]) with
  | none =>
    simp only [hsave]
    exists none
    apply adds_none
    · rfl
    · intro x hx
      rcases mem_listed_setEntry rfl hx with hold | ⟨hsubject, hsv⟩
      · exact hold
      · exact hlisted x hsubject hsv
    · intro e he
      rcases mem_deleteEntry.mp he with ⟨hset, hne⟩
      rcases mem_setEntry hset with hnew | hold
      · rw [hnew] at hne
        exact absurd rfl hne
      · exact hold
    · intro d' hd'
      cases hd'
    · intro a ha
      cases ha
  | some dirs =>
  rcases hfresh (saveSubject_isSome hsave) with ⟨hvalid, hwidth⟩
  have hlt : r.globalID < sv.id := by
    rw [hid]
    exact lt_succ_of_ne hwidth
  have hversions : forall sv', sv' ∈ r.versionsOf sv.subject ++ [sv] ->
      sv' ∈ r.versionsOf sv.subject ∨
        sv' ∈ some sv ∧ sv'.subject = sv.subject := by
    intro sv' hsv'
    rcases List.mem_append.mp hsv' with hold | hnew
    · exact Or.inl hold
    · rw [List.mem_singleton.mp hnew]
      exact Or.inr ⟨rfl, rfl⟩
  simp only [hsave]
  exists some sv
  exact
    { fresh := by
        intro sv' hsv'
        cases hsv'
        exact ⟨hlt, hvalid⟩
      le := UInt32.le_of_lt hlt
      new_le := by
        intro sv' hsv'
        cases hsv'
        exact UInt32.le_refl _
      listed := by
        intro x hx
        rcases mem_listed_setEntry rfl hx with hold | ⟨hsubject, hsv⟩
        · exact Or.inl hold
        rcases List.mem_append.mp hsv with hmem | hnew
        · exact Or.inl (hlisted x hsubject hmem)
        · exact Or.inr ⟨sv, rfl,
            Prod.ext hsubject (List.mem_singleton.mp hnew)⟩
      byID := by
        intro e he
        rcases mem_setEntry he with hnew | hold
        · exact Or.inr ⟨sv, rfl, hnew⟩
        · exact Or.inl hold
      dirs := by
        intro d' hd' x hx
        rcases List.mem_append.mp hd' with hsaved | hcounter
        · exact dirs_saveSubject hversions hsave hsaved hx
        have hmem := SchemasDir.subset_saveGlobalID hcounter hx
        cases hlast : dirs.getLast? with
        | none =>
          rw [hlast] at hmem
          exact Or.inl hmem
        | some last =>
        rw [hlast] at hmem
        exact dirs_saveSubject hversions hsave
          (List.mem_of_getLast? hlast) hmem
      returned := by
        intro a ha
        exact Or.inr ⟨sv, rfl, List.mem_singleton.mp ha⟩ }

theorem adds_register {subject text : Bytes} {type : SchemaType}
    (hdistinct : r.Distinguishes fingerprint parse d
      (.register subject type text)) :
    exists new, Adds r d (.register subject type text)
      (r.register fingerprint parse d subject type text) new := by
  unfold register
  cases hname : validateSubjectName subject with
  | some e => exact ⟨none, adds_error r d _ _⟩
  | none =>
  rcases hdistinct hname with ⟨hsame, hfresh⟩
  cases hexisting : r.existing fingerprint subject text with
  | some sv =>
    exists none
    apply adds_none
    · rfl
    · exact fun _ h => h
    · exact fun _ h => h
    · intro d' hd'
      cases hd'
    intro a ha
    have hmem := mem_listed_of_versionsOf
      (List.mem_of_find?_eq_some hexisting)
    exists (subject, sv)
    constructor
    · exact hmem
    · rw [List.mem_singleton.mp ha, hsame sv hexisting]
  | none =>
  simp only
  cases hcheck : r.incompatible parse subject type text with
  | some e => exact ⟨none, adds_error r d _ _⟩
  | none =>
  exact @adds_addVersion r d type
    { id := r.globalID + 1
      subject := subject
      type := type
      schema := text
      fingerprint := fingerprint text } rfl
    (hfresh hexisting hcheck)

theorem adds_delete (r : Registry) (d : SchemasDir) (subject : Bytes)
    (version : Int) :
    Adds r d (.delete subject version) (r.delete d subject version) none := by
  unfold delete
  cases validateSubjectName subject with
  | some e => exact adds_error r d _ _
  | none =>
  simp only
  split
  · exact adds_error r d _ _
  cases hget : (r.versionsOf subject)[(version - 1).toNat]? with
  | none => exact adds_error r d _ _
  | some sv =>
  have hleft : forall sv',
      sv' ∈ (r.versionsOf subject).eraseIdx (version - 1).toNat ->
        sv' ∈ r.versionsOf subject := fun sv' hsv' =>
    List.eraseIdx_subset hsv'
  have hlisted : forall x : Bytes × Registered, x.1 = subject ->
      x.2 ∈ (r.versionsOf subject).eraseIdx (version - 1).toNat ->
        x ∈ r.listed := by
    intro x hsubject hx
    have hmem := hleft x.2 hx
    rw [← hsubject] at hmem
    exact mem_listed_of_versionsOf hmem
  simp only
  cases hsave : d.saveSubject subject
    ((r.versionsOf subject).eraseIdx (version - 1).toNat) with
  | none =>
    apply adds_none
    · rfl
    · intro x hx
      rcases mem_listed_setEntry rfl hx with hold | ⟨hname, hsv⟩
      · exact hold
      · exact hlisted x hname hsv
    · intro e he
      exact (mem_deleteEntry.mp he).left
    · intro d' hd'
      cases hd'
    · intro a ha
      cases ha
  | some dirs =>
  apply adds_none
  · rfl
  · intro x hx
    rcases mem_listed_setEntry rfl hx with hold | ⟨hname, hsv⟩
    · exact hold
    · exact hlisted x hname hsv
  · intro e he
    exact (mem_deleteEntry.mp he).left
  · intro d' hd' x hx
    rcases SchemasDir.mem_saveSubject hsave hd' hx with
      hold | ⟨sv', hsv', heq⟩
    · exact Or.inl hold
    · exact Or.inr ⟨(subject, sv'),
        hlisted (subject, sv') rfl hsv', heq⟩
  · intro a ha
    cases ha

theorem foldl_deleteEntry_subset (versions : List Registered)
    (byID : List (UInt32 × Registered)) :
    versions.foldl (fun byID sv => deleteEntry sv.id byID) byID ⊆ byID := by
  induction versions generalizing byID with
  | nil => exact fun _ h => h
  | cons sv versions ih =>
  intro e he
  exact (mem_deleteEntry.mp (ih _ he)).left

theorem adds_deleteSubject (r : Registry) (d : SchemasDir) (subject : Bytes) :
    Adds r d (.deleteSubject subject) (r.deleteSubject d subject) none := by
  unfold deleteSubject
  cases validateSubjectName subject with
  | some e => exact adds_error r d _ _
  | none =>
  apply adds_none
  · rfl
  · intro x hx
    rcases mem_listed.mp hx with ⟨versions, hmem, hsv⟩
    exact mem_listed.mpr ⟨versions, (mem_deleteEntry.mp hmem).left, hsv⟩
  · exact foldl_deleteEntry_subset _ _
  · intro d' hd' x hx
    exact Or.inl (SchemasDir.subset_removeAll hd' hx)
  · intro a ha
    cases ha

theorem adds_setCompatibility (r : Registry) (d : SchemasDir) (subject : Bytes)
    (mode : CompatibilityMode) :
    Adds r d (.setCompatibility subject mode)
      (r.setCompatibility d subject mode) none := by
  unfold setCompatibility
  cases validateSubjectName subject with
  | some e => exact adds_error r d _ _
  | none =>
  simp only
  cases hsave : d.saveCompat subject mode with
  | none =>
    apply adds_none
    · rfl
    · exact fun _ h => h
    · exact fun _ h => h
    · intro d' hd'
      cases hd'
    · intro a ha
      cases ha
  | some dirs =>
  apply adds_none
  · rfl
  · exact fun _ h => h
  · exact fun _ h => h
  · intro d' hd' x hx
    exact Or.inl (SchemasDir.subset_saveCompat hsave hd' hx)
  · intro a ha
    cases ha

theorem adds_close (r : Registry) (d : SchemasDir) :
    Adds r d .close (r.close d) none := by
  apply adds_none
  · rfl
  · exact fun _ h => h
  · exact fun _ h => h
  · intro d' hd' x hx
    exact Or.inl (SchemasDir.subset_saveGlobalID hd' hx)
  · intro a ha
    cases ha

theorem adds_call {c : RegistryCall}
    (hdistinct : r.Distinguishes fingerprint parse d c) :
    exists new, Adds r d c (r.call fingerprint parse d c) new := by
  cases c with
  | register subject type text => exact adds_register hdistinct
  | delete subject version => exact ⟨none, adds_delete r d subject version⟩
  | deleteSubject subject => exact ⟨none, adds_deleteSubject r d subject⟩
  | setCompatibility subject mode =>
    exact ⟨none, adds_setCompatibility r d subject mode⟩
  | close => exact ⟨none, adds_close r d⟩

end Calls

end Registry

/-!
## Histories
-/

structure RegistryHistory where
  dir : SchemasDir
  registry : Option Registry
  returned : List ReturnedID
deriving DecidableEq

/-- What is done to a directory; a crash comes between two file operations. -/
inductive RegistryAction where
  | newRegistry
  | call (c : RegistryCall)
  | crash (c : RegistryCall) (operations : Nat)

namespace RegistryHistory

def start : RegistryHistory where
  dir := .empty
  registry := none
  returned := []

section Runs

variable (fingerprint : Bytes -> Bytes) (parse : Bytes -> Text)

def step (h : RegistryHistory) : RegistryAction -> Option RegistryHistory
  | .newRegistry => some { h with registry := some (.load h.dir) }
  | .call c =>
    h.registry.map (fun r =>
      let o := r.call fingerprint parse h.dir c
      { dir := o.dirs.getLast?.getD h.dir
        registry := some o.registry
        returned := h.returned ++ returnedBy c o.reply })
  | .crash c operations =>
    h.registry.bind (fun r =>
      let o := r.call fingerprint parse h.dir c
      (h.dir :: o.dirs)[operations]?.map (fun dir =>
        { h with dir := dir, registry := none }))

structure NeverReused (h : RegistryHistory) : Prop where
  once : forall a, a ∈ h.returned -> forall b, b ∈ h.returned ->
    a.1 = b.1 -> a.2 = b.2
  byID : forall a, a ∈ h.returned -> forall r, r ∈ h.registry ->
    forall sv, sv ∈ r.getByID a.1 -> (sv.subject, sv.schema) = a.2

/--
An opening finds an id that is not below those returned, and the calls can tell
their texts apart.
-/
def Remembers (h : RegistryHistory) : RegistryAction -> Prop
  | .newRegistry => forall a, a ∈ h.returned ->
      exists id, id ∈ h.dir.storedIDs ∧ a.1 ≤ id
  | .call c => forall r, r ∈ h.registry ->
      r.Distinguishes fingerprint parse h.dir c
  | .crash c _ => forall r, r ∈ h.registry ->
      r.Distinguishes fingerprint parse h.dir c

instance (h : RegistryHistory) (a : RegistryAction) :
    Decidable (h.Remembers fingerprint parse a) := by
  unfold Remembers
  split
  · exact inferInstance
  · exact inferInstance
  · exact inferInstance

end Runs

def Functional (known : List ReturnedID) : Prop :=
  forall a, a ∈ known -> forall b, b ∈ known -> a.1 = b.1 -> a.2 = b.2

theorem Functional.subset {known fewer : List ReturnedID}
    (h : Functional known) (hsub : fewer ⊆ known) : Functional fewer :=
  fun a ha b hb => h a (hsub ha) b (hsub hb)

theorem Functional.concat {known : List ReturnedID} (h : Functional known)
    {new : ReturnedID} (hnew : forall a, a ∈ known -> a.1 < new.1) :
    Functional (known ++ [new]) := by
  have hne : forall a, a ∈ known -> a.1 ≠ new.1 := by
    intro a ha heq
    have hlt := hnew a ha
    rw [heq] at hlt
    exact UInt32.lt_irrefl _ hlt
  intro a ha b hb heq
  rcases List.mem_append.mp ha with haold | hanew
  · rcases List.mem_append.mp hb with hbold | hbnew
    · exact h a haold b hbold heq
    · rw [List.mem_singleton.mp hbnew] at heq
      exact absurd heq (hne a haold)
  rw [List.mem_singleton.mp hanew] at heq ⊢
  rcases List.mem_append.mp hb with hbold | hbnew
  · exact absurd heq.symm (hne b hbold)
  · rw [List.mem_singleton.mp hbnew]

def registryIDs (r : Registry) : List ReturnedID :=
  r.listed.map (fun x => x.2.returned) ++ r.byID.map (fun e => e.2.returned)

def storedReturned (d : SchemasDir) : List ReturnedID :=
  d.storedVersions.map (fun x => x.2.returned)

def known (h : RegistryHistory) : List ReturnedID :=
  h.returned ++ storedReturned h.dir ++ h.registry.toList.flatMap registryIDs

/-- A version is under its subject, and its text is read again as it is. -/
structure Filed (x : Bytes × Registered) : Prop where
  subject : x.2.subject = x.1
  valid : ValidUtf8 x.2.schema

/--
All ids known stand for one text each, and those known to an open registry are
not above its counter.
-/
structure Consistent (h : RegistryHistory) : Prop where
  functional : Functional h.known
  bounded : forall r, r ∈ h.registry -> forall a, a ∈ h.known ->
    a.1 ≤ r.globalID
  stored : forall x, x ∈ h.dir.storedVersions -> Filed x
  listed : forall r, r ∈ h.registry -> forall x, x ∈ r.listed -> Filed x
  byID : forall r, r ∈ h.registry -> forall e, e ∈ r.byID -> e.1 = e.2.id

theorem consistent_start : start.Consistent where
  functional := by
    intro a ha
    cases ha
  bounded := by
    intro r hr
    cases hr
  stored := by
    intro x hx
    cases hx
  listed := by
    intro r hr
    cases hr
  byID := by
    intro r hr
    cases hr

theorem Consistent.neverReused {h : RegistryHistory} (hh : h.Consistent) :
    h.NeverReused where
  once := by
    intro a ha b hb
    exact hh.functional a
      (List.mem_append_left _ (List.mem_append_left _ ha)) b
      (List.mem_append_left _ (List.mem_append_left _ hb))
  byID := by
    intro a ha r hr sv hsv
    have hmem := mem_of_getEntry hsv
    have hid := hh.byID r hr _ hmem
    have hknown : sv.returned ∈ h.known := by
      apply List.mem_append_right
      exact List.mem_flatMap.mpr ⟨r, Option.mem_toList.mpr hr,
        List.mem_append_right _ (List.mem_map.mpr ⟨_, hmem, rfl⟩)⟩
    exact hh.functional _ hknown a
      (List.mem_append_left _ (List.mem_append_left _ ha)) hid.symm

theorem mem_known {h : RegistryHistory} {a : ReturnedID} :
    a ∈ h.known <-> a ∈ h.returned ∨
      (exists x, x ∈ h.dir.storedVersions ∧ x.2.returned = a) ∨
      exists r, r ∈ h.registry ∧
        ((exists x, x ∈ r.listed ∧ x.2.returned = a) ∨
          exists e, e ∈ r.byID ∧ e.2.returned = a) := by
  simp only [known, storedReturned, registryIDs, List.mem_append,
    List.mem_map, List.mem_flatMap, Option.mem_toList, Option.mem_def, or_assoc]

theorem stored_eq {sv : Registered} (hvalid : ValidUtf8 sv.schema) :
    SchemasDir.stored sv = sv := by
  unfold SchemasDir.stored
  rw [hvalid.reread]

theorem consistent_newRegistry {h : RegistryHistory} (hh : h.Consistent)
    (hfinds : forall a, a ∈ h.returned ->
      exists id, id ∈ h.dir.storedIDs ∧ a.1 ≤ id) :
    Consistent { h with registry := some (.load h.dir) } := by
  rcases Registry.loads_load h.dir with ⟨hids, hlisted, hbyID⟩
  have hstored : forall x, x ∈ h.dir.storedVersions ->
      x.2.id ≤ (Registry.load h.dir).globalID := by
    intro x hx
    exact hids _ (List.mem_append_right _ (List.mem_map.mpr ⟨x, hx, rfl⟩))
  have hfrom : forall a,
      a ∈ known { h with registry := some (.load h.dir) } ->
        a ∈ h.returned ∨
          exists x, x ∈ h.dir.storedVersions ∧ x.2.returned = a := by
    intro a ha
    rcases mem_known.mp ha with hreturned | hdir | ⟨r, hr, hopen⟩
    · exact Or.inl hreturned
    · exact Or.inr hdir
    cases hr
    rcases hopen with ⟨x, hx, heq⟩ | ⟨e, he, heq⟩
    · exact Or.inr ⟨x, hlisted x hx, heq⟩
    · rcases hbyID e he with ⟨x, hx, hsame⟩
      rw [hsame] at heq
      exact Or.inr ⟨x, hx, heq⟩
  exact
    { functional := by
        apply hh.functional.subset
        intro a ha
        rcases hfrom a ha with hreturned | hdir
        · exact mem_known.mpr (Or.inl hreturned)
        · exact mem_known.mpr (Or.inr (Or.inl hdir))
      bounded := by
        intro r hr a ha
        cases hr
        rcases hfrom a ha with hreturned | ⟨x, hx, heq⟩
        · rcases hfinds a hreturned with ⟨id, hid, hle⟩
          exact UInt32.le_trans hle (hids id hid)
        · rw [← heq]
          exact hstored x hx
      stored := hh.stored
      listed := by
        intro r hr x hx
        cases hr
        exact hh.stored x (hlisted x hx)
      byID := by
        intro r hr e he
        cases hr
        rcases hbyID e he with ⟨x, _, hsame⟩
        rw [hsame] }

section Steps

variable {h : RegistryHistory} {r : Registry} {c : RegistryCall}
variable {o : CallOutcome} {new : Option Registered} {dir : SchemasDir}

variable (hh : h.Consistent)

include hh

theorem mem_storedVersions_of_adds (hr : r ∈ h.registry)
    (hadds : Adds r h.dir c o new) (hdir : dir ∈ h.dir :: o.dirs)
    {x : Bytes × Registered} (hx : x ∈ dir.storedVersions) :
    x ∈ h.dir.storedVersions ∨ x ∈ r.listed ∨
      exists sv, sv ∈ new ∧ x = (sv.subject, sv) := by
  rcases List.mem_cons.mp hdir with hsame | hlater
  · rw [hsame] at hx
    exact Or.inl hx
  rcases hadds.dirs dir hlater x hx with hold | ⟨y, hy, heq⟩ | ⟨sv, hsv, heq⟩
  · exact Or.inl hold
  · rw [stored_eq (hh.listed r hr y hy).valid] at heq
    rw [heq]
    exact Or.inr (Or.inl hy)
  · rw [stored_eq (hadds.fresh sv hsv).right] at heq
    exact Or.inr (Or.inr ⟨sv, hsv, heq⟩)

theorem functional_of_adds (hr : r ∈ h.registry)
    (hadds : Adds r h.dir c o new) :
    Functional (h.known ++ new.toList.map Registered.returned) := by
  cases new with
  | none =>
    rw [Option.toList_none, List.map_nil, List.append_nil]
    exact hh.functional
  | some sv =>
  apply hh.functional.concat
  intro a ha
  exact UInt32.lt_of_le_of_lt (hh.bounded r hr a ha)
    (hadds.fresh sv rfl).left

theorem mem_grown_stored (hr : r ∈ h.registry) (hadds : Adds r h.dir c o new)
    (hdir : dir ∈ h.dir :: o.dirs) {x : Bytes × Registered}
    (hx : x ∈ dir.storedVersions) :
    x.2.returned ∈ h.known ++ new.toList.map Registered.returned := by
  rcases mem_storedVersions_of_adds hh hr hadds hdir hx with
    hold | hlisted | ⟨sv, hsv, heq⟩
  · exact List.mem_append_left _ (mem_known.mpr
      (Or.inr (Or.inl ⟨x, hold, rfl⟩)))
  · exact List.mem_append_left _ (mem_known.mpr
      (Or.inr (Or.inr ⟨r, hr, Or.inl ⟨x, hlisted, rfl⟩⟩)))
  · rw [heq]
    exact List.mem_append_right _ (List.mem_map.mpr
      ⟨sv, Option.mem_toList.mpr hsv, rfl⟩)

theorem filed_of_adds (hr : r ∈ h.registry) (hadds : Adds r h.dir c o new)
    (hdir : dir ∈ h.dir :: o.dirs) {x : Bytes × Registered}
    (hx : x ∈ dir.storedVersions) : Filed x := by
  rcases mem_storedVersions_of_adds hh hr hadds hdir hx with
    hold | hlisted | ⟨sv, hsv, heq⟩
  · exact hh.stored x hold
  · exact hh.listed r hr x hlisted
  · rw [heq]
    exact ⟨rfl, (hadds.fresh sv hsv).right⟩

theorem consistent_crash (hr : r ∈ h.registry) (hadds : Adds r h.dir c o new)
    (hdir : dir ∈ h.dir :: o.dirs) :
    Consistent { h with dir := dir, registry := none } where
  functional := by
    apply (functional_of_adds hh hr hadds).subset
    intro a ha
    rcases mem_known.mp ha with hreturned | ⟨x, hx, heq⟩ | ⟨r', hr', _⟩
    · exact List.mem_append_left _ (mem_known.mpr (Or.inl hreturned))
    · rw [← heq]
      exact mem_grown_stored hh hr hadds hdir hx
    · cases hr'
  bounded := by
    intro r' hr'
    cases hr'
  stored := fun _ hx => filed_of_adds hh hr hadds hdir hx
  listed := by
    intro r' hr'
    cases hr'
  byID := by
    intro r' hr'
    cases hr'

theorem consistent_call (hr : r ∈ h.registry) (hadds : Adds r h.dir c o new)
    (hdir : dir ∈ h.dir :: o.dirs) :
    Consistent
      { dir := dir
        registry := some o.registry
        returned := h.returned ++ returnedBy c o.reply } := by
  have hnew : forall sv, sv ∈ new ->
      sv.returned ∈ h.known ++ new.toList.map Registered.returned := by
    intro sv hsv
    exact List.mem_append_right _ (List.mem_map.mpr
      ⟨sv, Option.mem_toList.mpr hsv, rfl⟩)
  have hgrown : forall a, a ∈ known
      { dir := dir
        registry := some o.registry
        returned := h.returned ++ returnedBy c o.reply } ->
      a ∈ h.known ++ new.toList.map Registered.returned := by
    intro a ha
    rcases mem_known.mp ha with hreturned | ⟨x, hx, heq⟩ | ⟨r', hr', hopen⟩
    · rcases List.mem_append.mp hreturned with hbefore | hreply
      · exact List.mem_append_left _ (mem_known.mpr (Or.inl hbefore))
      rcases hadds.returned a hreply with ⟨x, hx, heq⟩ | ⟨sv, hsv, heq⟩
      · have hsame : x.2.returned = a := by
          rw [heq, ← (hh.listed r hr x hx).subject]
          rfl
        exact List.mem_append_left _ (mem_known.mpr
          (Or.inr (Or.inr ⟨r, hr, Or.inl ⟨x, hx, hsame⟩⟩)))
      · rw [heq]
        exact hnew sv hsv
    · rw [← heq]
      exact mem_grown_stored hh hr hadds hdir hx
    cases hr'
    rcases hopen with ⟨x, hx, heq⟩ | ⟨e, he, heq⟩
    · rcases hadds.listed x hx with hold | ⟨sv, hsv, hsame⟩
      · exact List.mem_append_left _ (mem_known.mpr
          (Or.inr (Or.inr ⟨r, hr, Or.inl ⟨x, hold, heq⟩⟩)))
      · rw [← heq, hsame]
        exact hnew sv hsv
    rcases hadds.byID e he with hold | ⟨sv, hsv, hsame⟩
    · exact List.mem_append_left _ (mem_known.mpr
        (Or.inr (Or.inr ⟨r, hr, Or.inr ⟨e, hold, heq⟩⟩)))
    · rw [← heq, hsame]
      exact hnew sv hsv
  exact
    { functional := (functional_of_adds hh hr hadds).subset
        (fun a ha => hgrown a ha)
      bounded := by
        intro r' hr' a ha
        cases hr'
        rcases List.mem_append.mp (hgrown a ha) with hold | hadded
        · exact UInt32.le_trans (hh.bounded r hr a hold) hadds.le
        · rcases List.mem_map.mp hadded with ⟨sv, hsv, heq⟩
          rw [← heq]
          exact hadds.new_le sv (Option.mem_toList.mp hsv)
      stored := fun _ hx => filed_of_adds hh hr hadds hdir hx
      listed := by
        intro r' hr' x hx
        cases hr'
        rcases hadds.listed x hx with hold | ⟨sv, hsv, heq⟩
        · exact hh.listed r hr x hold
        · rw [heq]
          exact ⟨rfl, (hadds.fresh sv hsv).right⟩
      byID := by
        intro r' hr' e he
        cases hr'
        rcases hadds.byID e he with hold | ⟨sv, _, heq⟩
        · exact hh.byID r hr e hold
        · rw [heq] }

end Steps

section Runs

variable {fingerprint : Bytes -> Bytes} {parse : Bytes -> Text}

theorem consistent_step {h h' : RegistryHistory} {a : RegistryAction}
    (hh : h.Consistent) (hremembers : h.Remembers fingerprint parse a)
    (hstep : h.step fingerprint parse a = some h') : h'.Consistent := by
  cases a with
  | newRegistry =>
    cases hstep
    exact consistent_newRegistry hh hremembers
  | call c =>
    rcases Option.map_eq_some_iff.mp hstep with ⟨r, hr, heq⟩
    rcases Registry.adds_call (hremembers r hr) with ⟨new, hadds⟩
    rw [← heq]
    apply consistent_call hh hr hadds
    cases hlast : (r.call fingerprint parse h.dir c).dirs.getLast? with
    | none => exact List.mem_cons_self ..
    | some dir => exact List.mem_cons_of_mem _ (List.mem_of_getLast? hlast)
  | crash c operations =>
  rcases Option.bind_eq_some_iff.mp hstep with ⟨r, hr, hcrash⟩
  rcases Option.map_eq_some_iff.mp hcrash with ⟨dir, hdir, heq⟩
  rcases Registry.adds_call (hremembers r hr) with ⟨new, hadds⟩
  rw [← heq]
  exact consistent_crash hh hr hadds (List.mem_of_getElem? hdir)

/--
If openings find an id that is not below those returned and calls can tell their
texts apart, a returned id never stands for another text.
-/
theorem neverReused_of_remembers {actions : List RegistryAction}
    {h : RegistryHistory}
    (hremembers : Meets (step fingerprint parse)
      (Remembers fingerprint parse) start actions)
    (hrun : run? (step fingerprint parse) start actions = some h) :
    h.NeverReused :=
  (run?_invariant_of_meets (fun _ _ _ => consistent_step) consistent_start
    hremembers hrun).neverReused

end Runs

def threeDigests (text : Bytes) : Bytes :=
  if text = ascii "x" then ascii "2d711642b726b04401627ca9fbac32f5"
  else if text = ascii "y" then ascii "a1fce4363854ff888cff4b8e7875d600"
  else if text = ascii "z" then ascii "594e519ae499312b29433b7dd8a97ff0"
  else text

def restartedActions : List RegistryAction :=
  [.newRegistry, .call (.register (ascii "a") .json (ascii "x")),
    .call (.register (ascii "b") .json (ascii "y")),
    .call (.deleteSubject (ascii "b")), .newRegistry,
    .call (.register (ascii "c") .json (ascii "z"))]

theorem neverReused_restartedActions :
    exists h, run? (step threeDigests Text.ofBytes) start restartedActions =
        some h ∧
      h.returned = [(1, ascii "a", ascii "x"), (2, ascii "b", ascii "y"),
        (3, ascii "c", ascii "z")] ∧ h.NeverReused := by
  have hreturned : (run? (step threeDigests Text.ofBytes) start
      restartedActions).map (fun h => h.returned) =
        some [(1, ascii "a", ascii "x"), (2, ascii "b", ascii "y"),
          (3, ascii "c", ascii "z")] := by
    decide +kernel
  rcases Option.map_eq_some_iff.mp hreturned with ⟨h, hrun, hids⟩
  exact ⟨h, hrun, hids, neverReused_of_remembers (by decide +kernel) hrun⟩

/--
A crash between the version and the counter, the same registration again, which
does not save the counter, and a deletion before the next opening.
-/
def forgottenActions : List RegistryAction :=
  [.newRegistry, .call (.register (ascii "a") .json (ascii "x")),
    .crash (.register (ascii "b") .json (ascii "y")) 4, .newRegistry,
    .call (.register (ascii "b") .json (ascii "y")),
    .call (.deleteSubject (ascii "b")), .newRegistry,
    .call (.register (ascii "c") .json (ascii "z"))]

/-- The id of the deleted version is returned for another one. -/
theorem not_neverReused_forgottenActions :
    exists h, run? (step threeDigests Text.ofBytes) start forgottenActions =
        some h ∧
      h.returned = [(1, ascii "a", ascii "x"), (2, ascii "b", ascii "y"),
        (2, ascii "c", ascii "z")] ∧ ¬ h.NeverReused := by
  have hreturned : (run? (step threeDigests Text.ofBytes) start
      forgottenActions).map (fun h => h.returned) =
        some [(1, ascii "a", ascii "x"), (2, ascii "b", ascii "y"),
          (2, ascii "c", ascii "z")] := by
    decide +kernel
  rcases Option.map_eq_some_iff.mp hreturned with ⟨h, hrun, hids⟩
  refine ⟨h, hrun, hids, ?_⟩
  intro hnever
  have hsame := hnever.once (2, ascii "b", ascii "y") (by rw [hids]; decide)
    (2, ascii "c", ascii "z") (by rw [hids]; decide) rfl
  revert hsame
  decide

end RegistryHistory

end Schema
end ChimeraMQ
