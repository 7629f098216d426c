import ChimeraMQ.Schema.Compat
import ChimeraMQ.Foundation.Run

/-!
# The schema registry

Versions of schemas under subjects, each with an id that is taken from one
counter.  Every subject has a directory with its versions, and the counter has
a file beside these directories; a call is modelled with the directories that
a crash may leave between its file operations.  The digest of a text and the
parser of JSON are parameters, the number of a version is its place in the
list, and failing file operations are modelled only where a name is taken.
-/

namespace ChimeraMQ
namespace Schema

open Foundation

structure Registered where
  id : UInt32
  subject : Bytes
  type : SchemaType
  schema : Bytes
  fingerprint : Bytes
deriving DecidableEq

/-!
## Files
-/

structure SavedFile (α : Type) where
  file : Option α
  tmp : Option α
deriving DecidableEq

namespace SavedFile

variable {α : Type}

def missing : SavedFile α where
  file := none
  tmp := none

def save (f : SavedFile α) (data : α) : List (SavedFile α) :=
  [{ f with tmp := some data }, { file := none, tmp := some data },
    { file := some data, tmp := none }]

def remnants (f : SavedFile α) : List (SavedFile α) :=
  [f, { f with file := none }, { f with tmp := none }, missing]

end SavedFile

structure SubjectDir where
  metaFile : SavedFile (List Registered)
  compatFile : SavedFile CompatibilityMode
deriving DecidableEq

namespace SubjectDir

def empty : SubjectDir where
  metaFile := .missing
  compatFile := .missing

def remnants (dir : SubjectDir) : List SubjectDir :=
  dir.metaFile.remnants.flatMap (fun m =>
    dir.compatFile.remnants.map (fun c => ⟨m, c⟩))

end SubjectDir

def globalIDName : Bytes := ascii "_global_id.json"

def globalIDTmpName : Bytes := ascii "_global_id.json.tmp"

structure SchemasDir where
  subjects : List (Bytes × SubjectDir)
  globalIDFile : Option UInt32
  globalIDTmp : Option UInt32
deriving DecidableEq

namespace SchemasDir

def empty : SchemasDir where
  subjects := []
  globalIDFile := none
  globalIDTmp := none

def isFile (d : SchemasDir) (name : Bytes) : Bool :=
  (name = globalIDName && d.globalIDFile.isSome) ||
    (name = globalIDTmpName && d.globalIDTmp.isSome)

def setSubject (d : SchemasDir) (subject : Bytes) (dir : SubjectDir) :
    SchemasDir :=
  { d with subjects := setEntry subject dir d.subjects }

def subjectDir (d : SchemasDir) (subject : Bytes) : SubjectDir :=
  (getEntry subject d.subjects).getD .empty

def saveIn (d : SchemasDir) (subject : Bytes)
    (save : SubjectDir -> List SubjectDir) : Option (List SchemasDir) :=
  if d.isFile subject then none
  else
    let dir := d.subjectDir subject
    some ((dir :: save dir).map (d.setSubject subject))

def stored (sv : Registered) : Registered :=
  { sv with schema := toValidUtf8 sv.schema }

/-- The directories that a crash may leave, or a failure. -/
def saveSubject (d : SchemasDir) (subject : Bytes)
    (versions : List Registered) : Option (List SchemasDir) :=
  d.saveIn subject (fun dir =>
    (dir.metaFile.save (versions.map stored)).map
      (fun f => { dir with metaFile := f }))

def saveCompat (d : SchemasDir) (subject : Bytes) (mode : CompatibilityMode) :
    Option (List SchemasDir) :=
  d.saveIn subject (fun dir =>
    (dir.compatFile.save mode).map (fun f => { dir with compatFile := f }))

/-- Remove the file of the counter, or an empty directory of its name. -/
def removeGlobalID (d : SchemasDir) : SchemasDir :=
  match getEntry globalIDName d.subjects with
  | none => { d with globalIDFile := none }
  | some dir =>
    if dir = .empty then
      { d with subjects := deleteEntry globalIDName d.subjects }
    else d

/-- Save the counter; nothing is done where a directory is in the way. -/
def saveGlobalID (d : SchemasDir) (id : UInt32) : List SchemasDir :=
  match getEntry globalIDTmpName d.subjects with
  | some _ => []
  | none =>
  let written := { d with globalIDTmp := some id }
  let removed := written.removeGlobalID
  match getEntry globalIDName removed.subjects with
  | some _ => [written, removed]
  | none =>
    [written, removed,
      { removed with globalIDFile := some id, globalIDTmp := none }]

def removeAll (d : SchemasDir) (name : Bytes) : List SchemasDir :=
  match getEntry name d.subjects with
  | some dir =>
    dir.remnants.map (d.setSubject name) ++
      [{ d with subjects := deleteEntry name d.subjects }]
  | none =>
    if name = globalIDName then [{ d with globalIDFile := none }]
    else if name = globalIDTmpName then [{ d with globalIDTmp := none }]
    else []

def readDir (d : SchemasDir) : List (Bytes × SubjectDir) :=
  d.subjects.insertionSort (fun a b => a.1 ≤ b.1)

end SchemasDir

/-!
## The registry
-/

structure Registry where
  globalID : UInt32
  versions : List (Bytes × List Registered)
  byID : List (UInt32 × Registered)
  compat : List (Bytes × CompatibilityMode)
deriving DecidableEq

inductive SubjectError where
  | empty
  | tooLong
  | dots
  | separators
  | start
  | invalidCharacter (c : Nat)
deriving DecidableEq

inductive RegistryError where
  | subject (error : SubjectError)
  | compatibility (error : CompatError)
  | versionNotFound (version : Int) (subject : Bytes)
  | save
deriving DecidableEq

def isSubjectChar (c : Nat) : Bool :=
  (97 ≤ c && c ≤ 122) || (65 ≤ c && c ≤ 90) || (48 ≤ c && c ≤ 57) ||
    c = 46 || c = 45 || c = 95

def hasDots (subject : Bytes) : Bool :=
  subject.tails.any (fun rest => (ascii "..").isPrefixOf rest)

def validateSubjectName (subject : Bytes) : Option SubjectError :=
  if subject = [] then some .empty
  else if subject.length > 255 then some .tooLong
  else if hasDots subject then some .dots
  else if 47 ∈ subject ∨ 92 ∈ subject then some .separators
  else if subject.head? = some 46 ∨ subject.head? = some 45 then some .start
  else
    ((runes subject).find? (fun e => !isSubjectChar e.1)).map
      (fun e => .invalidCharacter e.1)

inductive RegistryCall where
  | register (subject : Bytes) (type : SchemaType) (text : Bytes)
  | delete (subject : Bytes) (version : Int)
  | deleteSubject (subject : Bytes)
  | setCompatibility (subject : Bytes) (mode : CompatibilityMode)
  | close

/-- What a call leads to, with the directory after each file operation. -/
structure CallOutcome where
  registry : Registry
  dirs : List SchemasDir
  reply : Except RegistryError (Option Registered)
deriving DecidableEq

namespace Registry

def empty (globalID : UInt32) : Registry where
  globalID := globalID
  versions := []
  byID := []
  compat := []

def versionsOf (r : Registry) (subject : Bytes) : List Registered :=
  (getEntry subject r.versions).getD []

def getByID (r : Registry) (id : UInt32) : Option Registered :=
  getEntry id r.byID

/-!
## Loading
-/

def loadVersion (r : Registry) (sv : Registered) : Registry :=
  { r with
    byID := setEntry sv.id sv r.byID
    globalID := if sv.id > r.globalID then sv.id else r.globalID }

def loadSubject (r : Registry) (subject : Bytes) (dir : SubjectDir) :
    Registry :=
  match dir.metaFile.file with
  | none => r
  | some versions =>
    versions.foldl loadVersion
      { r with versions := setEntry subject versions r.versions }

def loadCompat (r : Registry) (subject : Bytes) (dir : SubjectDir) : Registry :=
  match dir.compatFile.file with
  | none => r
  | some mode => { r with compat := setEntry subject mode r.compat }

def loadEntry (r : Registry) (e : Bytes × SubjectDir) : Registry :=
  if e.1 = ascii "_" then r
  else (r.loadSubject e.1 e.2).loadCompat e.1 e.2

def load (d : SchemasDir) : Registry :=
  d.readDir.foldl loadEntry (empty (d.globalIDFile.getD 0))

/-!
## Calls
-/

variable (fingerprint : Bytes -> Bytes) (parse : Bytes -> Text)

def existing (r : Registry) (subject text : Bytes) : Option Registered :=
  (r.versionsOf subject).find? (fun sv => sv.fingerprint = fingerprint text)

/-- Why the text may not follow the latest version. -/
def incompatible (r : Registry) (subject : Bytes) (type : SchemaType)
    (text : Bytes) : Option CompatError :=
  match (r.versionsOf subject).getLast? with
  | none => none
  | some latest =>
  let mode := (getEntry subject r.compat).getD .none
  let mode := if mode = .none then .backward else mode
  checkCompatibility mode ⟨latest.type, parse latest.schema⟩
    ⟨type, parse text⟩

/-- Add a version with the next id; nothing stays if it cannot be saved. -/
def addVersion (r : Registry) (d : SchemasDir) (sv : Registered) :
    CallOutcome :=
  let versions := r.versionsOf sv.subject
  let added :=
    { r with
      globalID := sv.id
      versions := setEntry sv.subject (versions ++ [sv]) r.versions
      byID := setEntry sv.id sv r.byID }
  match d.saveSubject sv.subject (versions ++ [sv]) with
  | none =>
    { registry :=
        { r with
          versions := setEntry sv.subject versions r.versions
          byID := deleteEntry sv.id added.byID }
      dirs := []
      reply := .error .save }
  | some dirs =>
    { registry := added
      dirs := dirs ++ (dirs.getLast?.getD d).saveGlobalID sv.id
      reply := .ok (some sv) }

def register (r : Registry) (d : SchemasDir) (subject : Bytes)
    (type : SchemaType) (text : Bytes) : CallOutcome :=
  match validateSubjectName subject with
  | some e => { registry := r, dirs := [], reply := .error (.subject e) }
  | none =>
  match r.existing fingerprint subject text with
  | some sv => { registry := r, dirs := [], reply := .ok (some sv) }
  | none =>
  match r.incompatible parse subject type text with
  | some e =>
    { registry := r, dirs := [], reply := .error (.compatibility e) }
  | none =>
  r.addVersion d
    { id := r.globalID + 1
      subject := subject
      type := type
      schema := text
      fingerprint := fingerprint text }

def delete (r : Registry) (d : SchemasDir) (subject : Bytes) (version : Int) :
    CallOutcome :=
  match validateSubjectName subject with
  | some e => { registry := r, dirs := [], reply := .error (.subject e) }
  | none =>
  let versions := r.versionsOf subject
  if version < 1 then
    { registry := r
      dirs := []
      reply := .error (.versionNotFound version subject) }
  else
    match versions[(version - 1).toNat]? with
    | none =>
      { registry := r
        dirs := []
        reply := .error (.versionNotFound version subject) }
    | some sv =>
    let left := versions.eraseIdx (version - 1).toNat
    let registry :=
      { r with
        byID := deleteEntry sv.id r.byID
        versions := setEntry subject left r.versions }
    match d.saveSubject subject left with
    | none =>
      { registry := registry, dirs := [], reply := .error .save }
    | some dirs =>
      { registry := registry, dirs := dirs, reply := .ok none }

def deleteSubject (r : Registry) (d : SchemasDir) (subject : Bytes) :
    CallOutcome :=
  match validateSubjectName subject with
  | some e => { registry := r, dirs := [], reply := .error (.subject e) }
  | none =>
  { registry :=
      { r with
        versions := deleteEntry subject r.versions
        byID := (r.versionsOf subject).foldl
          (fun byID sv => deleteEntry sv.id byID) r.byID
        compat := deleteEntry subject r.compat }
    dirs := d.removeAll subject
    reply := .ok none }

def setCompatibility (r : Registry) (d : SchemasDir) (subject : Bytes)
    (mode : CompatibilityMode) : CallOutcome :=
  match validateSubjectName subject with
  | some e => { registry := r, dirs := [], reply := .error (.subject e) }
  | none =>
  let registry := { r with compat := setEntry subject mode r.compat }
  match d.saveCompat subject mode with
  | none => { registry := registry, dirs := [], reply := .error .save }
  | some dirs => { registry := registry, dirs := dirs, reply := .ok none }

def close (r : Registry) (d : SchemasDir) : CallOutcome where
  registry := r
  dirs := d.saveGlobalID r.globalID
  reply := .ok none

def call (r : Registry) (d : SchemasDir) : RegistryCall -> CallOutcome
  | .register subject type text =>
    r.register fingerprint parse d subject type text
  | .delete subject version => r.delete d subject version
  | .deleteSubject subject => r.deleteSubject d subject
  | .setCompatibility subject mode => r.setCompatibility d subject mode
  | .close => r.close d

end Registry

/-!
## The versions in a directory and in a registry
-/

def skippedName : Bytes := ascii "_"

def SubjectDir.versions (dir : SubjectDir) : List Registered :=
  dir.metaFile.file.getD []

def versionsIn (subjects : List (Bytes × SubjectDir)) :
    List (Bytes × Registered) :=
  (subjects.filter (fun e => e.1 ≠ skippedName)).flatMap
    (fun e => e.2.versions.map (fun sv => (e.1, sv)))

theorem mem_versionsIn {subjects : List (Bytes × SubjectDir)}
    {x : Bytes × Registered} :
    x ∈ versionsIn subjects <-> x.1 ≠ skippedName ∧
      exists dir, (x.1, dir) ∈ subjects ∧ x.2 ∈ dir.versions := by
  unfold versionsIn
  rw [List.mem_flatMap]
  constructor
  · rintro ⟨e, he, hx⟩
    rcases List.mem_filter.mp he with ⟨hmem, hname⟩
    rcases List.mem_map.mp hx with ⟨sv, hsv, heq⟩
    rw [← heq]
    exact ⟨of_decide_eq_true hname, e.2, hmem, hsv⟩
  · rintro ⟨hname, dir, hmem, hsv⟩
    exact ⟨(x.1, dir), List.mem_filter.mpr ⟨hmem, decide_eq_true hname⟩,
      List.mem_map.mpr ⟨x.2, hsv, rfl⟩⟩

namespace SchemasDir

def storedVersions (d : SchemasDir) : List (Bytes × Registered) :=
  versionsIn d.subjects

def storedIDs (d : SchemasDir) : List UInt32 :=
  d.globalIDFile.toList ++ d.storedVersions.map (fun x => x.2.id)

variable {d : SchemasDir} {subject : Bytes}

theorem mem_storedVersions_setSubject {dir : SubjectDir}
    {x : Bytes × Registered}
    (hx : x ∈ (d.setSubject subject dir).storedVersions) :
    x ∈ d.storedVersions ∨
      x.1 = subject ∧ x.1 ≠ skippedName ∧ x.2 ∈ dir.versions := by
  rcases mem_versionsIn.mp hx with ⟨hname, dir', hmem, hsv⟩
  rcases mem_setEntry hmem with hnew | hold
  · rw [Prod.mk.injEq] at hnew
    rw [hnew.right] at hsv
    exact Or.inr ⟨hnew.left, hname, hsv⟩
  · exact Or.inl (mem_versionsIn.mpr ⟨hname, dir', hold, hsv⟩)

theorem mem_storedVersions_of_subjectDir {sv : Registered}
    (hname : subject ≠ skippedName) (hsv : sv ∈ (d.subjectDir subject).versions) :
    (subject, sv) ∈ d.storedVersions := by
  unfold subjectDir at hsv
  cases hget : getEntry subject d.subjects with
  | none =>
    rw [hget] at hsv
    cases hsv
  | some dir =>
  rw [hget] at hsv
  exact mem_versionsIn.mpr ⟨hname, dir, mem_of_getEntry hget, hsv⟩

theorem subset_setSubject {dir : SubjectDir}
    (hkept : forall sv, sv ∈ dir.versions ->
      sv ∈ (d.subjectDir subject).versions) :
    (d.setSubject subject dir).storedVersions ⊆ d.storedVersions := by
  intro x hx
  rcases mem_storedVersions_setSubject hx with hold | ⟨hsubject, hname, hsv⟩
  · exact hold
  · have hmem := hkept x.2 hsv
    rw [← hsubject] at hmem
    exact mem_storedVersions_of_subjectDir hname hmem

theorem subset_deleteEntry (d : SchemasDir) (subject : Bytes) :
    versionsIn (deleteEntry subject d.subjects) ⊆ d.storedVersions := by
  intro x hx
  rcases mem_versionsIn.mp hx with ⟨hname, dir, hmem, hsv⟩
  exact mem_versionsIn.mpr ⟨hname, dir, (mem_deleteEntry.mp hmem).left, hsv⟩

/-!
## What the calls leave in the directory
-/

variable {d' : SchemasDir}

theorem saveIn_some {save : SubjectDir -> List SubjectDir}
    {dirs : List SchemasDir} (hsave : d.saveIn subject save = some dirs)
    (hd' : d' ∈ dirs) :
    exists dir, dir ∈ d.subjectDir subject :: save (d.subjectDir subject) ∧
      d' = d.setSubject subject dir := by
  unfold saveIn at hsave
  split at hsave
  · cases hsave
  · cases hsave
    rcases List.mem_map.mp hd' with ⟨dir, hdir, heq⟩
    exact ⟨dir, hdir, heq.symm⟩

theorem mem_saveSubject {versions : List Registered} {dirs : List SchemasDir}
    (hsave : d.saveSubject subject versions = some dirs) (hd' : d' ∈ dirs)
    {x : Bytes × Registered} (hx : x ∈ d'.storedVersions) :
    x ∈ d.storedVersions ∨
      exists sv, sv ∈ versions ∧ x = (subject, stored sv) := by
  rcases saveIn_some hsave hd' with ⟨dir, hdir, heq⟩
  rw [heq] at hx
  have hkept : dir.versions = (d.subjectDir subject).versions ∨
      dir.versions = [] ∨ dir.versions = versions.map stored := by
    simp only [SavedFile.save, List.map_cons, List.map_nil,
      List.mem_cons, List.not_mem_nil, or_false] at hdir
    rcases hdir with hsame | hwritten | hremoved | hrenamed
    · exact Or.inl (by rw [hsame])
    · exact Or.inl (by rw [hwritten]; rfl)
    · exact Or.inr (Or.inl (by rw [hremoved]; rfl))
    · exact Or.inr (Or.inr (by rw [hrenamed]; rfl))
  rcases hkept with hsame | hnone | hnew
  · exact Or.inl (subset_setSubject (by rw [hsame]; exact fun _ h => h) hx)
  · exact Or.inl (subset_setSubject (by rw [hnone]; intro sv hsv; cases hsv) hx)
  rcases mem_storedVersions_setSubject hx with hold | ⟨hsubject, _, hsv⟩
  · exact Or.inl hold
  rw [hnew] at hsv
  rcases List.mem_map.mp hsv with ⟨sv, hmem, hstored⟩
  right
  exists sv
  exact ⟨hmem, Prod.ext hsubject hstored.symm⟩

theorem subset_saveCompat {mode : CompatibilityMode} {dirs : List SchemasDir}
    (hsave : d.saveCompat subject mode = some dirs) (hd' : d' ∈ dirs) :
    d'.storedVersions ⊆ d.storedVersions := by
  rcases saveIn_some hsave hd' with ⟨dir, hdir, heq⟩
  rw [heq]
  apply subset_setSubject
  have hsame : dir.versions = (d.subjectDir subject).versions := by
    rcases List.mem_cons.mp hdir with hfirst | hsaved
    · rw [hfirst]
    · rcases List.mem_map.mp hsaved with ⟨f, _, hf⟩
      rw [← hf]
      rfl
  rw [hsame]
  exact fun _ h => h

theorem subset_removeGlobalID (d : SchemasDir) :
    d.removeGlobalID.storedVersions ⊆ d.storedVersions := by
  unfold removeGlobalID
  split
  · exact fun _ h => h
  · split
    · exact d.subset_deleteEntry globalIDName
    · exact fun _ h => h

theorem subset_saveGlobalID {id : UInt32} (hd' : d' ∈ d.saveGlobalID id) :
    d'.storedVersions ⊆ d.storedVersions := by
  have hremoved := subset_removeGlobalID { d with globalIDTmp := some id }
  unfold saveGlobalID at hd'
  split at hd'
  · cases hd'
  simp only at hd'
  split at hd'
  · simp only [List.mem_cons, List.not_mem_nil, or_false] at hd'
    rcases hd' with hwritten | hgone
    · rw [hwritten]
      exact fun _ h => h
    · rw [hgone]
      exact hremoved
  simp only [List.mem_cons, List.not_mem_nil, or_false] at hd'
  rcases hd' with hwritten | hgone | hrenamed
  · rw [hwritten]
    exact fun _ h => h
  · rw [hgone]
    exact hremoved
  · rw [hrenamed]
    exact hremoved

theorem SavedFile.file_of_mem_remnants {α : Type} {f g : SavedFile α}
    (hg : g ∈ f.remnants) : g.file = f.file ∨ g.file = none := by
  simp only [SavedFile.remnants, List.mem_cons, List.not_mem_nil,
    or_false] at hg
  rcases hg with hg | hg | hg | hg
  · exact Or.inl (by rw [hg])
  · exact Or.inr (by rw [hg])
  · exact Or.inl (by rw [hg])
  · exact Or.inr (by rw [hg]; rfl)

theorem subset_removeAll {name : Bytes} (hd' : d' ∈ d.removeAll name) :
    d'.storedVersions ⊆ d.storedVersions := by
  unfold removeAll at hd'
  split at hd'
  · rename_i dir hget
    rcases List.mem_append.mp hd' with hpart | hgone
    · rcases List.mem_map.mp hpart with ⟨left, hleft, heq⟩
      rcases List.mem_flatMap.mp hleft with ⟨m, hm, hc⟩
      rcases List.mem_map.mp hc with ⟨c, _, hmc⟩
      rw [← heq]
      apply subset_setSubject
      intro sv hsv
      rw [← hmc] at hsv
      unfold subjectDir
      rw [hget]
      unfold SubjectDir.versions at hsv ⊢
      rcases SavedFile.file_of_mem_remnants hm with hsame | hnone
      · rw [hsame] at hsv
        exact hsv
      · rw [hnone] at hsv
        cases hsv
    · rw [List.mem_singleton.mp hgone]
      exact d.subset_deleteEntry name
  · split at hd'
    · rw [List.mem_singleton.mp hd']
      exact fun _ h => h
    split at hd'
    · rw [List.mem_singleton.mp hd']
      exact fun _ h => h
    · cases hd'

end SchemasDir

namespace Registry

def listed (r : Registry) : List (Bytes × Registered) :=
  r.versions.flatMap (fun e => e.2.map (fun sv => (e.1, sv)))

variable {r : Registry}

theorem mem_listed {x : Bytes × Registered} :
    x ∈ r.listed <-> exists versions, (x.1, versions) ∈ r.versions ∧
      x.2 ∈ versions := by
  unfold listed
  rw [List.mem_flatMap]
  constructor
  · rintro ⟨e, he, hx⟩
    rcases List.mem_map.mp hx with ⟨sv, hsv, heq⟩
    rw [← heq]
    exact ⟨e.2, he, hsv⟩
  · rintro ⟨versions, hmem, hsv⟩
    exact ⟨(x.1, versions), hmem, List.mem_map.mpr ⟨x.2, hsv, rfl⟩⟩

theorem mem_listed_of_versionsOf {subject : Bytes} {sv : Registered}
    (hsv : sv ∈ r.versionsOf subject) :
    (subject, sv) ∈ r.listed := by
  unfold versionsOf at hsv
  cases hget : getEntry subject r.versions with
  | none =>
    rw [hget] at hsv
    cases hsv
  | some versions =>
  rw [hget] at hsv
  exact mem_listed.mpr ⟨versions, mem_of_getEntry hget, hsv⟩

theorem mem_listed_setEntry {r' : Registry} {subject : Bytes}
    {versions : List Registered}
    (hversions : r'.versions = setEntry subject versions r.versions)
    {x : Bytes × Registered} (hx : x ∈ r'.listed) :
    x ∈ r.listed ∨ x.1 = subject ∧ x.2 ∈ versions := by
  rcases mem_listed.mp hx with ⟨versions', hmem, hsv⟩
  rw [hversions] at hmem
  rcases mem_setEntry hmem with hnew | hold
  · rw [Prod.mk.injEq] at hnew
    rw [hnew.right] at hsv
    exact Or.inr ⟨hnew.left, hsv⟩
  · exact Or.inl (mem_listed.mpr ⟨versions', hold, hsv⟩)

/-!
## Loading
-/

structure Loads (r r' : Registry) (found : List (Bytes × Registered)) :
    Prop where
  le : r.globalID ≤ r'.globalID
  found_le : forall x, x ∈ found -> x.2.id ≤ r'.globalID
  listed : forall x, x ∈ r'.listed -> x ∈ r.listed ∨ x ∈ found
  byID : forall e, e ∈ r'.byID ->
    e ∈ r.byID ∨ exists x, x ∈ found ∧ e = (x.2.id, x.2)

theorem Loads.refl (r : Registry) : r.Loads r [] where
  le := UInt32.le_refl _
  found_le := by
    intro x hx
    cases hx
  listed := fun _ hx => Or.inl hx
  byID := fun _ he => Or.inl he

theorem Loads.trans {r' r'' : Registry}
    {found later : List (Bytes × Registered)} (h : r.Loads r' found)
    (h' : r'.Loads r'' later) : r.Loads r'' (found ++ later) where
  le := UInt32.le_trans h.le h'.le
  found_le := by
    intro x hx
    rcases List.mem_append.mp hx with hfirst | hlater
    · exact UInt32.le_trans (h.found_le x hfirst) h'.le
    · exact h'.found_le x hlater
  listed := by
    intro x hx
    rcases h'.listed x hx with hbefore | hlater
    · rcases h.listed x hbefore with hold | hfirst
      · exact Or.inl hold
      · exact Or.inr (List.mem_append_left _ hfirst)
    · exact Or.inr (List.mem_append_right _ hlater)
  byID := by
    intro e he
    rcases h'.byID e he with hbefore | ⟨x, hx, heq⟩
    · rcases h.byID e hbefore with hold | ⟨x, hx, heq⟩
      · exact Or.inl hold
      · exact Or.inr ⟨x, List.mem_append_left _ hx, heq⟩
    · exact Or.inr ⟨x, List.mem_append_right _ hx, heq⟩

theorem loads_loadVersion (r : Registry) (subject : Bytes) (sv : Registered) :
    r.Loads (r.loadVersion sv) [(subject, sv)] where
  le := by
    unfold loadVersion
    simp only
    split
    · rename_i hlarger
      exact UInt32.le_of_lt hlarger
    · exact UInt32.le_refl _
  found_le := by
    intro x hx
    rw [List.mem_singleton.mp hx]
    unfold loadVersion
    simp only
    split
    · exact UInt32.le_refl _
    · rename_i hsmall
      exact UInt32.not_lt.mp hsmall
  listed := fun _ hx => Or.inl hx
  byID := by
    intro e he
    rcases mem_setEntry he with hnew | hold
    · exact Or.inr ⟨(subject, sv), List.mem_singleton_self _, hnew⟩
    · exact Or.inl hold

theorem loads_foldl_loadVersion (r : Registry) (subject : Bytes)
    (versions : List Registered) :
    r.Loads (versions.foldl loadVersion r)
      (versions.map (fun sv => (subject, sv))) := by
  induction versions generalizing r with
  | nil => exact Loads.refl r
  | cons sv versions ih =>
    exact (r.loads_loadVersion subject sv).trans (ih (r.loadVersion sv))

theorem loads_loadSubject (r : Registry) (subject : Bytes) (dir : SubjectDir) :
    r.Loads (r.loadSubject subject dir)
      (dir.versions.map (fun sv => (subject, sv))) := by
  unfold loadSubject SubjectDir.versions
  cases hfile : dir.metaFile.file with
  | none => exact Loads.refl r
  | some versions =>
  have hloads := loads_foldl_loadVersion
    { r with versions := setEntry subject versions r.versions } subject
    versions
  exact
    { le := hloads.le
      found_le := hloads.found_le
      listed := by
        intro x hx
        rcases hloads.listed x hx with hset | hfound
        · rcases mem_listed_setEntry rfl hset with hold | ⟨hname, hsv⟩
          · exact Or.inl hold
          · exact Or.inr (List.mem_map.mpr
              ⟨x.2, hsv, Prod.ext hname.symm rfl⟩)
        · exact Or.inr hfound
      byID := hloads.byID }

theorem loads_loadCompat (r : Registry) (subject : Bytes) (dir : SubjectDir) :
    r.Loads (r.loadCompat subject dir) [] := by
  unfold loadCompat
  split
  · exact Loads.refl r
  exact
    { le := UInt32.le_refl _
      found_le := by
        intro x hx
        cases hx
      listed := fun _ hx => Or.inl hx
      byID := fun _ he => Or.inl he }

theorem loads_foldl_loadEntry (r : Registry)
    (subjects : List (Bytes × SubjectDir)) :
    r.Loads (subjects.foldl loadEntry r) (versionsIn subjects) := by
  induction subjects generalizing r with
  | nil => exact Loads.refl r
  | cons e subjects ih =>
  rw [List.foldl_cons, versionsIn, List.filter_cons]
  by_cases hname : e.1 = skippedName
  · have hskip : r.loadEntry e = r := if_pos hname
    rw [hskip, if_neg (by simpa using hname)]
    exact ih r
  have hload : r.loadEntry e =
      (r.loadSubject e.1 e.2).loadCompat e.1 e.2 := if_neg hname
  rw [hload, if_pos (by simpa using hname), List.flatMap_cons]
  have hfirst := (r.loads_loadSubject e.1 e.2).trans
    (loads_loadCompat _ e.1 e.2)
  rw [List.append_nil] at hfirst
  exact hfirst.trans (ih _)

theorem loads_load (d : SchemasDir) :
    (forall id, id ∈ d.storedIDs -> id ≤ (load d).globalID) ∧
      (forall x, x ∈ (load d).listed -> x ∈ d.storedVersions) ∧
      (forall e, e ∈ (load d).byID ->
        exists x, x ∈ d.storedVersions ∧ e = (x.2.id, x.2)) := by
  have hloads := loads_foldl_loadEntry (empty (d.globalIDFile.getD 0)) d.readDir
  have hsame : forall x, x ∈ versionsIn d.readDir <-> x ∈ d.storedVersions := by
    intro x
    unfold SchemasDir.storedVersions
    rw [mem_versionsIn, mem_versionsIn]
    unfold SchemasDir.readDir
    simp only [List.mem_insertionSort]
  refine ⟨?_, ?_, ?_⟩
  · intro id hid
    rcases List.mem_append.mp hid with hfile | hversion
    · have hfound : d.globalIDFile.getD 0 = id := by
        rw [Option.mem_toList.mp hfile]
        rfl
      rw [← hfound]
      exact hloads.le
    · rcases List.mem_map.mp hversion with ⟨x, hx, heq⟩
      rw [← heq]
      exact hloads.found_le x ((hsame x).mpr hx)
  · intro x hx
    rcases hloads.listed x hx with hnone | hfound
    · cases hnone
    · exact (hsame x).mp hfound
  · intro e he
    rcases hloads.byID e he with hnone | ⟨x, hx, heq⟩
    · cases hnone
    · exact ⟨x, (hsame x).mp hx, heq⟩

end Registry

end Schema
end ChimeraMQ
