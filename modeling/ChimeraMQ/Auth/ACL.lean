import ChimeraMQ.Foundation.Glob

/-!
# Access control

The access control entries of a broker and the check of an operation against
them.  An entry that denies wins over all others; where no entry is about the
operation the default policy decides.
-/

namespace ChimeraMQ
namespace Auth

open Foundation

inductive ResourceType where
  | topic
  | consumerGroup
  | cluster
  | schema
  | wasm
  | tenant
  | geo
deriving DecidableEq

inductive Operation where
  | read
  | write
  | create
  | delete
  | alter
  | describe
  | all
deriving DecidableEq

inductive Permission where
  | allow
  | deny
deriving DecidableEq

/-- An authenticated user, as far as access control looks at it. -/
structure Identity where
  userID : Bytes
  roles : List Bytes
deriving DecidableEq

/-- A single rule; a star as principal or resource name matches all. -/
structure ACLEntry where
  principal : Bytes
  resourceType : ResourceType
  resourceName : Bytes
  operation : Operation
  permission : Permission
deriving DecidableEq

structure ACLEngine where
  entries : List ACLEntry
  defaultPolicy : Permission
deriving DecidableEq

def wildcard : Bytes := ascii "*"

/--
Match a name with a pattern for paths; a pattern that ends in a dot and a star
also matches exactly one more segment.
-/
def matchGlob (pattern name : Bytes) : Bool :=
  if pattern = wildcard then true
  else if pathMatch pattern name then true
  else if (ascii ".*").isSuffixOf pattern then
    let stem := pattern.take (pattern.length - 2)
    (stem ++ ascii ".").isPrefixOf name &&
      !(name.drop (stem.length + 1)).contains 46
  else pattern = name

namespace ACLEntry

def matchResource (entry : ACLEntry) (rt : ResourceType) (name : Bytes)
    (op : Operation) : Bool :=
  if entry.resourceType ≠ rt then false
  else if entry.resourceName ≠ wildcard ∧ ¬ matchGlob entry.resourceName name
    then false
  else if entry.operation ≠ .all ∧ entry.operation ≠ op then false
  else true

end ACLEntry

namespace ACLEngine

def newACLEngine (defaultPolicy : Permission) : ACLEngine where
  entries := []
  defaultPolicy := defaultPolicy

def addEntry (e : ACLEngine) (entry : ACLEntry) : ACLEngine :=
  { e with entries := e.entries ++ [entry] }

def setEntries (e : ACLEngine) (entries : List ACLEntry) : ACLEngine :=
  { e with entries := entries }

def matchEntry (entry : ACLEntry) (identity : Identity) (rt : ResourceType)
    (name : Bytes) (op : Operation) : Bool :=
  if entry.principal ≠ wildcard ∧ entry.principal ≠ identity.userID ∧
      entry.principal ∉ identity.roles then false
  else entry.matchResource rt name op

/-- Go through the entries; the flag says whether one of them has matched. -/
def checkEntries (e : ACLEngine) (identity : Identity) (rt : ResourceType)
    (name : Bytes) (op : Operation) : List ACLEntry -> Bool -> Bool
  | [], hasExplicitMatch =>
    if hasExplicitMatch then true else e.defaultPolicy = .allow
  | entry :: rest, hasExplicitMatch =>
    if matchEntry entry identity rt name op then
      if entry.permission = .deny then false
      else checkEntries e identity rt name op rest true
    else checkEntries e identity rt name op rest hasExplicitMatch

def check (e : ACLEngine) (identity : Option Identity) (rt : ResourceType)
    (name : Bytes) (op : Operation) : Bool :=
  match identity with
  | none => e.defaultPolicy = .allow
  | some identity => e.checkEntries identity rt name op e.entries false

end ACLEngine

/-!
## Denying wins
-/

/-- The entry is about the caller; a star covers the anonymous one as well. -/
def Covers (entry : ACLEntry) (identity : Option Identity) (rt : ResourceType)
    (name : Bytes) (op : Operation) : Prop :=
  match identity with
  | none => entry.principal = wildcard ∧ entry.matchResource rt name op = true
  | some identity => ACLEngine.matchEntry entry identity rt name op = true

instance (entry : ACLEntry) (identity : Option Identity) (rt : ResourceType)
    (name : Bytes) (op : Operation) :
    Decidable (Covers entry identity rt name op) := by
  unfold Covers
  cases identity with
  | none => infer_instance
  | some identity => infer_instance

namespace ACLEngine

def Denies (e : ACLEngine) (identity : Option Identity) (rt : ResourceType)
    (name : Bytes) (op : Operation) : Prop :=
  exists entry, entry ∈ e.entries ∧ entry.permission = .deny ∧
    Covers entry identity rt name op

instance (e : ACLEngine) (identity : Option Identity) (rt : ResourceType)
    (name : Bytes) (op : Operation) : Decidable (e.Denies identity rt name op) :=
  inferInstanceAs (Decidable (exists entry, entry ∈ e.entries ∧ _))

/--
An entry that denies has the operation denied, the order of the entries does
not matter, and one more entry that denies allows nothing.
-/
structure DenyWins (e : ACLEngine) (identity : Option Identity)
    (rt : ResourceType) (name : Bytes) (op : Operation) : Prop where
  denies : e.Denies identity rt name op -> e.check identity rt name op = false
  unordered : forall entries, entries.Perm e.entries ->
    (e.setEntries entries).check identity rt name op =
      e.check identity rt name op
  monotone : forall entry, entry.permission = .deny ->
    e.check identity rt name op = false ->
      (e.addEntry entry).check identity rt name op = false

theorem checkEntries_eq_true_iff (e : ACLEngine) (identity : Identity)
    (rt : ResourceType) (name : Bytes) (op : Operation)
    (entries : List ACLEntry) (hasExplicitMatch : Bool) :
    e.checkEntries identity rt name op entries hasExplicitMatch = true <->
      (forall entry, entry ∈ entries ->
        matchEntry entry identity rt name op = true ->
          entry.permission = .allow) ∧
      (hasExplicitMatch = true ∨ e.defaultPolicy = .allow ∨
        exists entry, entry ∈ entries ∧
          matchEntry entry identity rt name op = true) := by
  induction entries generalizing hasExplicitMatch with
  | nil =>
    cases hasExplicitMatch with
    | true => simp [checkEntries]
    | false => simp [checkEntries]
  | cons entry rest ih =>
  unfold checkEntries
  by_cases hmatch : matchEntry entry identity rt name op = true
  · rw [if_pos hmatch]
    cases hperm : entry.permission with
    | deny =>
      rw [if_pos rfl]
      constructor
      · intro h
        cases h
      intro h
      have hallow := h.left entry (List.mem_cons_self ..) hmatch
      rw [hperm] at hallow
      cases hallow
    | allow =>
    rw [if_neg (by
      intro h
      cases h), ih]
    constructor
    · intro h
      constructor
      · intro x hx hxmatch
        rcases List.mem_cons.mp hx with hfirst | hrest
        · rw [hfirst]
          exact hperm
        · exact h.left x hrest hxmatch
      · exact Or.inr (Or.inr ⟨entry, List.mem_cons_self .., hmatch⟩)
    · intro h
      constructor
      · exact fun x hx => h.left x (List.mem_cons_of_mem _ hx)
      · exact Or.inl rfl
  · rw [if_neg hmatch, ih]
    simp [hmatch]

theorem check_some_eq_true_iff (e : ACLEngine) (identity : Identity)
    (rt : ResourceType) (name : Bytes) (op : Operation) :
    e.check (some identity) rt name op = true <->
      ¬ e.Denies (some identity) rt name op ∧
        (e.defaultPolicy = .allow ∨ exists entry, entry ∈ e.entries ∧
          matchEntry entry identity rt name op = true) := by
  show e.checkEntries identity rt name op e.entries false = true <-> _
  rw [checkEntries_eq_true_iff]
  constructor
  · intro h
    constructor
    · intro hdenies
      rcases hdenies with ⟨entry, hmem, hdeny, hmatch⟩
      have hallow := h.left entry hmem hmatch
      rw [hdeny] at hallow
      cases hallow
    · rcases h.right with hfalse | hrest
      · cases hfalse
      · exact hrest
  · intro h
    constructor
    · intro entry hmem hmatch
      cases hperm : entry.permission with
      | allow => rfl
      | deny => exact absurd ⟨entry, hmem, hperm, hmatch⟩ h.left
    · exact Or.inr h.right

theorem denyWins_some (e : ACLEngine) (identity : Identity)
    (rt : ResourceType) (name : Bytes) (op : Operation) :
    e.DenyWins (some identity) rt name op where
  denies := by
    intro hdenies
    apply Bool.eq_false_iff.mpr
    intro hcheck
    exact ((e.check_some_eq_true_iff identity rt name op).mp hcheck).left
      hdenies
  unordered := by
    intro entries hperm
    apply Bool.eq_iff_iff.mpr
    rw [check_some_eq_true_iff, check_some_eq_true_iff]
    have hmem : forall entry, entry ∈ entries <-> entry ∈ e.entries :=
      fun _ => hperm.mem_iff
    simp only [Denies, setEntries, hmem]
  monotone := by
    intro entry hdeny hcheck
    apply Bool.eq_false_iff.mpr
    intro hnew
    rw [check_some_eq_true_iff] at hnew
    rcases hnew with ⟨hnone, hsome⟩
    have hold : e.check (some identity) rt name op = true := by
      rw [check_some_eq_true_iff]
      constructor
      · intro hdenies
        rcases hdenies with ⟨x, hx, hxdeny, hcovers⟩
        exact hnone ⟨x, List.mem_append_left _ hx, hxdeny, hcovers⟩
      rcases hsome with hdefault | ⟨x, hx, hmatch⟩
      · exact Or.inl hdefault
      rcases List.mem_append.mp hx with hxold | hxnew
      · exact Or.inr ⟨x, hxold, hmatch⟩
      · rw [List.mem_singleton.mp hxnew] at hmatch
        exact absurd ⟨entry, List.mem_append_right _
          (List.mem_singleton_self _), hdeny, hmatch⟩ hnone
    rw [hcheck] at hold
    cases hold

/--
Denying wins exactly if the caller has an identity, the default policy denies,
or no entry denies the operation to all.
-/
theorem denyWins_iff (e : ACLEngine) (identity : Option Identity)
    (rt : ResourceType) (name : Bytes) (op : Operation) :
    e.DenyWins identity rt name op <->
      identity ≠ none ∨ e.defaultPolicy = .deny ∨
        ¬ e.Denies identity rt name op := by
  cases identity with
  | some identity =>
    constructor
    · intro _
      apply Or.inl
      intro h
      cases h
    · intro _
      exact e.denyWins_some identity rt name op
  | none =>
  constructor
  · intro h
    apply Or.inr
    cases hdefault : e.defaultPolicy with
    | deny => exact Or.inl rfl
    | allow =>
    apply Or.inr
    intro hdenies
    have hcheck : decide (e.defaultPolicy = .allow) = false :=
      h.denies hdenies
    rw [hdefault] at hcheck
    cases hcheck
  intro h
  exact
    { denies := by
        intro hdenies
        rcases h with hsome | hdefault | hnone
        · exact absurd rfl hsome
        · show decide (e.defaultPolicy = .allow) = false
          rw [hdefault]
          rfl
        · exact absurd hdenies hnone
      unordered := fun _ _ => rfl
      monotone := fun _ _ hcheck => hcheck }

def denyAll : ACLEntry where
  principal := wildcard
  resourceType := .topic
  resourceName := wildcard
  operation := .all
  permission := .deny

/-- The anonymous caller writes to a topic although this is denied to all. -/
theorem not_denyWins_anonymous :
    ((newACLEngine .allow).addEntry denyAll).Denies none .topic (ascii "t")
        .write ∧
      ((newACLEngine .allow).addEntry denyAll).check none .topic (ascii "t")
        .write = true ∧
      ¬ ((newACLEngine .allow).addEntry denyAll).DenyWins none .topic
        (ascii "t") .write := by
  have hdenies : ((newACLEngine .allow).addEntry denyAll).Denies none .topic
      (ascii "t") .write := by
    decide
  refine ⟨hdenies, rfl, ?_⟩
  intro h
  have hcheck := h.denies hdenies
  cases hcheck

end ACLEngine

/-!
## Patterns of one segment
-/

def OneSegment (stem name : Bytes) : Prop :=
  exists segment, name = stem ++ ascii "." ++ segment ∧ 46 ∉ segment

/--
A name goes on after what the path pattern reads as its stem, without slashes,
and it has a second dot or the stem an escape.
-/
def Overreaches (stem name : Bytes) : Prop :=
  exists rest, name = unescape (stem ++ ascii ".") ++ rest ∧ 47 ∉ rest ∧
    (46 ∈ rest ∨ 92 ∈ stem)

theorem unescape_stem {stem : Bytes} (h : 92 ∉ stem) :
    unescape (stem ++ ascii ".") = stem ++ ascii "." := by
  apply unescape_of_not_mem
  intro hmem
  rcases List.mem_append.mp hmem with hstem | hdot
  · exact h hstem
  · revert hdot
    decide

theorem matchGlob_star {stem : Bytes} (h : Literal stem) (name : Bytes) :
    matchGlob (stem ++ ascii ".*") name = true <->
      (exists rest, name = unescape (stem ++ ascii ".") ++ rest ∧
        47 ∉ rest) ∨
      OneSegment stem name := by
  have hwild : stem ++ ascii ".*" ≠ wildcard := by
    intro heq
    have hlength := congrArg List.length heq
    rw [List.length_append] at hlength
    have htwo : (ascii ".*").length = 2 := rfl
    have hone : wildcard.length = 1 := rfl
    omega
  have hsuffix : (ascii ".*").isSuffixOf (stem ++ ascii ".*") = true :=
    List.isSuffixOf_iff_suffix.mpr (List.suffix_append ..)
  have hstem : (stem ++ ascii ".*").take
      ((stem ++ ascii ".*").length - 2) = stem := by
    rw [List.length_append]
    exact List.take_left
  have hdrop (segment : Bytes) :
      (stem ++ ascii "." ++ segment).drop (stem.length + 1) = segment := by
    have hlength : (stem ++ ascii ".").length = stem.length + 1 :=
      List.length_append
    rw [← hlength]
    exact List.drop_left
  have hstar : pathMatch (stem ++ ascii ".*") name = true <->
      exists rest, name = unescape (stem ++ ascii ".") ++ rest ∧ 47 ∉ rest :=
    pathMatch_star h name
  rw [← hstar]
  unfold matchGlob
  rw [if_neg hwild]
  by_cases hpath : pathMatch (stem ++ ascii ".*") name = true
  · rw [if_pos hpath]
    constructor
    · exact fun _ => Or.inl hpath
    · exact fun _ => rfl
  rw [if_neg hpath, if_pos hsuffix, hstem, Bool.and_eq_true,
    List.isPrefixOf_iff_prefix]
  constructor
  · intro hname
    rcases hname with ⟨⟨segment, hsegment⟩, hdot⟩
    right
    exists segment
    constructor
    · exact hsegment.symm
    · rw [← hsegment, hdrop] at hdot
      simpa using hdot
  intro hname
  rcases hname with hname | ⟨segment, hsegment, hdot⟩
  · exact absurd hname hpath
  constructor
  · exact ⟨segment, hsegment.symm⟩
  · rw [hsegment, hdrop]
    simpa using hdot

/--
A stem with a dot and a star matches the names with one more segment exactly
but for those that the path pattern matches beyond.
-/
theorem oneSegment_iff_not_overreaches {stem : Bytes} (h : Literal stem)
    (name : Bytes) :
    (matchGlob (stem ++ ascii ".*") name = true <-> OneSegment stem name) <->
      ¬ Overreaches stem name := by
  rw [matchGlob_star h]
  constructor
  · intro hiff hover
    rcases hover with ⟨rest, hrest, hslash, hmore⟩
    rcases hiff.mp (Or.inl ⟨rest, hrest, hslash⟩) with ⟨segment, hseg, hdot⟩
    by_cases hescape : 92 ∈ stem
    · exact not_prefix_of_escape hescape segment ⟨rest, hrest.symm.trans hseg⟩
    rw [unescape_stem hescape, hseg] at hrest
    rw [List.append_cancel_left hrest] at hdot
    rcases hmore with hmore | hmore
    · exact hdot hmore
    · exact hescape hmore
  intro hover
  constructor
  · intro hmatch
    rcases hmatch with ⟨rest, hrest, hslash⟩ | hone
    · exists rest
      have hdot : 46 ∉ rest := fun hmem =>
        hover ⟨rest, hrest, hslash, Or.inl hmem⟩
      have hescape : 92 ∉ stem := fun hmem =>
        hover ⟨rest, hrest, hslash, Or.inr hmem⟩
      rw [unescape_stem hescape] at hrest
      exact ⟨hrest, hdot⟩
    · exact hone
  · exact Or.inr

theorem oneSegment_public :
    Literal (ascii "public") ∧
      ((matchGlob (ascii "public" ++ ascii ".*") (ascii "public.a") = true <->
        OneSegment (ascii "public") (ascii "public.a")) <->
          ¬ Overreaches (ascii "public") (ascii "public.a")) := by
  have h : Literal (ascii "public") := by decide
  exact ⟨h, oneSegment_iff_not_overreaches h (ascii "public.a")⟩

/-- A topic two levels below is matched. -/
theorem not_oneSegment_nested :
    Literal (ascii "public") ∧
      matchGlob (ascii "public" ++ ascii ".*") (ascii "public.a.b") = true ∧
      ¬ OneSegment (ascii "public") (ascii "public.a.b") := by
  refine ⟨by decide, by decide, ?_⟩
  intro h
  rcases h with ⟨segment, heq, hdot⟩
  have hname : ascii "public." ++ ascii "a.b" =
      ascii "public." ++ segment := heq
  rw [← List.append_cancel_left hname] at hdot
  revert hdot
  decide

end Auth
end ChimeraMQ
