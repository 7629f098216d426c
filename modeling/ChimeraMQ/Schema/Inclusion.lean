import ChimeraMQ.Schema.JsonSchema

/-!
# When one schema covers another one

Whether every value that is valid under one JSON Schema is valid under another
one, read off the keywords of the two.
-/

namespace ChimeraMQ
namespace Schema

open Foundation

def IsScalar : Json -> Prop
  | .arr _ => False
  | .obj _ => False
  | _ => True

def requiredNames (schema : Fields) : List Bytes :=
  ((requiredOf schema).getD []).map asString

def propertyOf (schema : Fields) (name : Bytes) : Option Fields :=
  objectAt name ((propertiesOf schema).getD [])

def MayHave (schema : Fields) (name : Bytes) : Prop :=
  noAdditional schema = true -> forall props,
    propertiesOf schema = some props -> getEntry name props ≠ none

def Accepts (levels : Nat) : Option Fields -> Json -> Prop
  | none, _ => True
  | some schema, v => Valid levels schema v

/-!
## Covering
-/

section Nested

-- the levels below a schema, and when one schema there covers another one
variable (levels : Nat) (covers : Fields -> Fields -> Prop)

/-- Without a schema every value is valid, as it is under the empty one. -/
def NestedCovers : Option Fields -> Fields -> Prop
  | none, t => 0 < levels ∧ covers [] t
  | some s, t => covers s t

/-- What a schema has to say about arrays to cover those of another one. -/
structure ArraysCovered (s t : Fields) : Prop where
  empty : Plain t (.arr [])
  items : (exists v, v.Proper ∧ Accepts levels (itemsOf s) v) ->
    enumOf t = none ∧ forall items, itemsOf t = some items ->
      NestedCovers levels covers (itemsOf s) items

/-- What a schema has to say about objects to cover those of another one. -/
structure ObjectsCovered (s t : Fields) : Prop where
  type : forall type, typeOf t = some type -> checkType type (.obj []) = true
  enum : forall enum, enumOf t = some enum -> forall obj,
    (Json.obj obj).Proper -> Valid (levels + 1) s (.obj obj) ->
      .obj obj ∈ enum
  required : forall name, name ∈ requiredNames t -> name ∈ requiredNames s
  additional : noAdditional t = true -> forall props,
    propertiesOf t = some props ->
      noAdditional s = true ∧ exists sprops, propertiesOf s = some sprops ∧
        forall e, e ∈ sprops -> getEntry e.1 props = none ->
          exists p, e.2 = .obj p ∧
            ¬ exists v, v.Proper ∧ Valid levels p v
  properties : forall props, propertiesOf t = some props ->
    forall name q, (name, .obj q) ∈ props -> MayHave s name ->
      NestedCovers levels covers (propertyOf s name) q

end Nested

/--
The second schema covers the first one: it accepts the listed values, or allows
the type and bounds and asks no more of arrays and objects.
-/
def Covers : Nat -> Fields -> Fields -> Prop
  | 0, _, _ => True
  | levels + 1, s, t =>
    match enumOf s with
    | some enum =>
      forall v, v ∈ enum -> Valid (levels + 1) s v ->
        Valid (levels + 1) t v
    | none =>
    (forall v, v.Proper -> IsScalar v -> Plain s v -> Plain t v) ∧
    (Plain s (.arr []) -> ArraysCovered levels (Covers levels) s t) ∧
    ((exists obj, (Json.obj obj).Proper ∧
        Valid (levels + 1) s (.obj obj)) ->
      ObjectsCovered levels (Covers levels) s t)

/-- Every value that is valid under the first schema is so under the second. -/
def Includes (levels : Nat) (s t : Fields) : Prop :=
  forall v, v.Proper -> Valid levels s v -> Valid levels t v

/-!
## Proper schemas
-/

variable {schema : Fields}

theorem proper_objectAt (h : (Json.obj schema).Proper) {k : Bytes} {o : Fields}
    (ho : objectAt k schema = some o) :
    (Json.obj o).Proper := by
  unfold objectAt at ho
  split at ho
  · rename_i p hget
    cases ho
    exact h.getEntry hget
  · cases ho

theorem proper_arrayAt (h : (Json.obj schema).Proper) {k : Bytes}
    {l : List Json} (hl : arrayAt k schema = some l) :
    (Json.arr l).Proper := by
  unfold arrayAt at hl
  split at hl
  · rename_i m hget
    cases hl
    exact h.getEntry hget
  · cases hl

variable {name : Bytes}

theorem proper_property {props : Fields} (h : (Json.obj props).Proper)
    {p : Fields} (hmem : (name, .obj p) ∈ props) :
    (Json.obj p).Proper :=
  h.value hmem

theorem propertyOf_of_mem {props : Fields} (h : (Json.obj schema).Proper)
    (hprops : propertiesOf schema = some props) {p : Fields}
    (hmem : (name, .obj p) ∈ props) :
    propertyOf schema name = some p := by
  have hget := getEntry_of_mem (proper_objectAt h hprops).nodup_keys hmem
  unfold propertyOf objectAt
  rw [hprops, Option.getD_some, hget]

theorem proper_nil : (Json.obj []).Proper :=
  Json.Proper.obj List.Pairwise.nil (by simp) (by simp)

theorem proper_propertyOf (h : (Json.obj schema).Proper) {p : Fields}
    (hp : propertyOf schema name = some p) :
    (Json.obj p).Proper := by
  unfold propertyOf at hp
  cases hprops : propertiesOf schema with
  | none =>
    rw [hprops] at hp
    cases hp
  | some props =>
  rw [hprops] at hp
  exact proper_objectAt (proper_objectAt h hprops) hp

/-!
## Values without parts
-/

theorem checkType_arr (type : Bytes) (l m : List Json) :
    checkType type (.arr l) = checkType type (.arr m) := by
  unfold checkType
  split_ifs <;> rfl

theorem checkType_obj (type : Bytes) (o p : Fields) :
    checkType type (.obj o) = checkType type (.obj p) := by
  unfold checkType
  split_ifs <;> rfl

variable {v : Json}

theorem plain_iff_of_not_isScalar (hv : ¬ IsScalar v) :
    Plain schema v <->
      (forall type, typeOf schema = some type -> checkType type v = true) ∧
      forall enum, enumOf schema = some enum -> v ∈ enum := by
  have hnum : forall num, v ≠ .num num := by
    intro num heq
    rw [heq] at hv
    exact hv trivial
  have hstr : forall str, v ≠ .str str := by
    intro str heq
    rw [heq] at hv
    exact hv trivial
  constructor
  · intro h
    exact ⟨h.type, h.enum⟩
  rintro ⟨htype, henum⟩
  exact ⟨htype, henum, fun num _ h => absurd h (hnum num),
    fun num _ h => absurd h (hnum num), fun str _ h => absurd h (hstr str),
    fun str _ h => absurd h (hstr str)⟩

theorem plain_arr_iff {l : List Json} :
    Plain schema (.arr l) <->
      (forall type, typeOf schema = some type ->
        checkType type (.arr []) = true) ∧
      forall enum, enumOf schema = some enum -> .arr l ∈ enum := by
  have hv : ¬ IsScalar (.arr l) := id
  rw [plain_iff_of_not_isScalar hv]
  simp only [checkType_arr _ l []]

variable {obj : Fields}

theorem plain_obj_iff :
    Plain schema (.obj obj) <->
      (forall type, typeOf schema = some type ->
        checkType type (.obj []) = true) ∧
      forall enum, enumOf schema = some enum -> .obj obj ∈ enum := by
  have hv : ¬ IsScalar (.obj obj) := id
  rw [plain_iff_of_not_isScalar hv]
  simp only [checkType_obj _ obj []]

variable {levels : Nat}

theorem valid_scalar_iff (hv : IsScalar v) :
    Valid (levels + 1) schema v <-> Plain schema v := by
  constructor
  · exact fun h => h.left
  intro h
  refine ⟨h, ?_, ?_⟩
  · intro obj hdata
    rw [hdata] at hv
    exact hv.elim
  · intro arr hdata
    rw [hdata] at hv
    exact hv.elim

theorem valid_arr_iff {l : List Json} :
    Valid (levels + 1) schema (.arr l) <->
      Plain schema (.arr l) ∧
        forall v, v ∈ l -> Accepts levels (itemsOf schema) v := by
  have hitems : ArrayOk (Valid levels) schema l <->
      forall v, v ∈ l -> Accepts levels (itemsOf schema) v := by
    unfold ArrayOk
    cases itemsOf schema with
    | none => simp [Accepts]
    | some items => simp [Accepts]
  rw [← hitems]
  constructor
  · intro h
    exact ⟨h.left, h.right.right l rfl⟩
  rintro ⟨hplain, harr⟩
  refine ⟨hplain, ?_, ?_⟩
  · intro obj hdata
    cases hdata
  · intro arr hdata
    cases hdata
    exact harr

theorem valid_obj_iff :
    Valid (levels + 1) schema (.obj obj) <->
      Plain schema (.obj obj) ∧ ObjectOk (Valid levels) schema obj := by
  constructor
  · intro h
    exact ⟨h.left, h.right.left obj rfl⟩
  rintro ⟨hplain, hobj⟩
  refine ⟨hplain, ?_, ?_⟩
  · intro o hdata
    cases hdata
    exact hobj
  · intro arr hdata
    cases hdata

theorem valid_nil (levels : Nat) (v : Json) : Valid (levels + 1) [] v := by
  have hplain : Plain [] v := by
    constructor
    all_goals
      intros
      contradiction
  refine ⟨hplain, ?_, ?_⟩
  · intro obj _
    constructor
    all_goals
      intros
      contradiction
  · intro arr _ items hitems
    cases hitems

theorem exists_length_arr_not_mem (values : List Json) (x : Json) :
    exists n, Json.arr (List.replicate n x) ∉ values := by
  exists (values.map Json.length).sum + 1
  intro hmem
  have hle := List.le_sum_of_mem (List.mem_map_of_mem (f := Json.length) hmem)
  rw [Json.length, List.length_replicate] at hle
  omega

/-!
## Changing an object
-/

theorem ObjectOk.set (hschema : (Json.obj schema).Proper)
    (hproper : (Json.obj obj).Proper) (h : ObjectOk (Valid levels) schema obj)
    (hname : MayHave schema name)
    (hv : Accepts levels (propertyOf schema name) v) :
    ObjectOk (Valid levels) schema (insertSorted name v obj) := by
  constructor
  · intro required hrequired r hr
    rw [Json.getEntry_set hproper.sorted]
    split
    · exact Option.some_ne_none v
    · exact h.required required hrequired r hr
  · intro props hprops k p val hmem hget
    rw [Json.getEntry_set hproper.sorted] at hget
    split at hget
    · rename_i hk
      rw [hk] at hmem
      rw [propertyOf_of_mem hschema hprops hmem] at hv
      rw [← Option.some.inj hget]
      exact hv
    · exact h.properties props hprops k p val hmem hget
  · intro props hprops hclosed e he
    rcases Json.mem_set hproper.sorted he with hnew | hold
    · rw [hnew]
      exact hname hclosed props hprops
    · exact h.additional props hprops hclosed e hold

variable (h : ObjectOk (Valid levels) schema obj)

include h

theorem ObjectOk.erase (hname : name ∉ requiredNames schema) :
    ObjectOk (Valid levels) schema (deleteEntry name obj) := by
  constructor
  · intro required hrequired r hr
    have hne : asString r ≠ name := by
      intro heq
      apply hname
      unfold requiredNames
      rw [hrequired, ← heq]
      exact List.mem_map_of_mem hr
    rw [getEntry_deleteEntry_ne hne]
    exact h.required required hrequired r hr
  · intro props hprops k p val hmem hget
    have hne : k ≠ name := by
      intro heq
      rw [heq, getEntry_deleteEntry] at hget
      cases hget
    rw [getEntry_deleteEntry_ne hne] at hget
    exact h.properties props hprops k p val hmem hget
  · intro props hprops hclosed e he
    exact h.additional props hprops hclosed e (mem_deleteEntry.mp he).left

theorem ObjectOk.accepts (hget : getEntry name obj = some v) :
    Accepts levels (propertyOf schema name) v := by
  cases hp : propertyOf schema name with
  | none => trivial
  | some p =>
  unfold propertyOf objectAt at hp
  cases hprops : propertiesOf schema with
  | none =>
    rw [hprops] at hp
    cases hp
  | some props =>
  rw [hprops, Option.getD_some] at hp
  split at hp
  · rename_i q hentry
    cases hp
    exact h.properties props hprops name p v
      (mem_of_getEntry hentry) hget
  · cases hp

theorem ObjectOk.mayHave (hget : getEntry name obj = some v) : MayHave schema
    name := by
  intro hclosed props hprops
  exact h.additional props hprops hclosed (name, v) (mem_of_getEntry hget)

theorem ObjectOk.mem_required (hname : name ∈ requiredNames schema) : getEntry
    name obj ≠ none := by
  unfold requiredNames at hname
  cases hrequired : requiredOf schema with
  | none =>
    rw [hrequired] at hname
    cases hname
  | some required =>
  rw [hrequired] at hname
  rcases List.mem_map.mp hname with ⟨r, hr, heq⟩
  rw [← heq]
  exact h.required required hrequired r hr

omit h

/-!
## The two directions
-/

section Levels

variable {levels : Nat}
  (ih : forall {s t : Fields}, (Json.obj s).Proper -> (Json.obj t).Proper ->
    (Covers levels s t <-> Includes levels s t))

include ih

theorem nestedCovers_iff {s : Option Fields} {t : Fields}
    (hs : forall p, s = some p -> (Json.obj p).Proper)
    (ht : (Json.obj t).Proper) :
    NestedCovers levels (Covers levels) s t <->
      forall v, v.Proper -> Accepts levels s v -> Valid levels t v := by
  cases s with
  | some p => exact ih (hs p rfl) ht
  | none =>
  change 0 < levels ∧ Covers levels [] t <-> _
  rw [ih proper_nil ht]
  cases hlevels : levels with
  | zero =>
    constructor
    · intro h
      exact absurd h.left (Nat.lt_irrefl 0)
    · intro h
      exact (h .null .null trivial).elim
  | succ n =>
  constructor
  · intro h v hv _
    exact h.right v hv (valid_nil n v)
  · intro h
    exact ⟨Nat.succ_pos n, fun v hv _ => h v hv trivial⟩

theorem includes_arr {s t : Fields} (hs : (Json.obj s).Proper)
    (ht : (Json.obj t).Proper) {l : List Json} (hl : (Json.arr l).Proper)
    (h : ArraysCovered levels (Covers levels) s t)
    (hvalid : Valid (levels + 1) s (.arr l)) : Valid (levels + 1) t (.arr l) := by
  rcases valid_arr_iff.mp hvalid with ⟨_, haccepts⟩
  rcases plain_arr_iff.mp h.empty with ⟨htype, henum⟩
  cases l with
  | nil => exact valid_arr_iff.mpr ⟨h.empty, by simp⟩
  | cons x l =>
  rcases h.items ⟨x, hl.item (List.mem_cons_self ..),
    haccepts x (List.mem_cons_self ..)⟩ with ⟨hnone, hitems⟩
  apply valid_arr_iff.mpr
  constructor
  · apply plain_arr_iff.mpr
    refine ⟨htype, ?_⟩
    intro enum hsome
    rw [hnone] at hsome
    cases hsome
  intro v hv
  cases hq : itemsOf t with
  | none => trivial
  | some q =>
  exact (nestedCovers_iff ih (fun p hp => proper_objectAt hs hp)
    (proper_objectAt ht hq)).mp (hitems q hq) v (hl.item hv)
      (haccepts v hv)

theorem includes_obj {s t obj : Fields} (hs : (Json.obj s).Proper)
    (ht : (Json.obj t).Proper) (hobj : (Json.obj obj).Proper)
    (h : ObjectsCovered levels (Covers levels) s t)
    (hvalid : Valid (levels + 1) s (.obj obj)) :
    Valid (levels + 1) t (.obj obj) := by
  rcases valid_obj_iff.mp hvalid with ⟨_, hok⟩
  apply valid_obj_iff.mpr
  constructor
  · apply plain_obj_iff.mpr
    refine ⟨h.type, ?_⟩
    intro enum henum
    exact h.enum enum henum obj hobj hvalid
  constructor
  · intro required hrequired r hr
    apply hok.mem_required
    apply h.required
    unfold requiredNames
    rw [hrequired]
    exact List.mem_map_of_mem hr
  · intro props hprops name q val hmem hget
    have hcovers := h.properties props hprops name q hmem
      (hok.mayHave hget)
    exact (nestedCovers_iff ih (fun p hp => proper_propertyOf hs hp)
      (proper_property (proper_objectAt ht hprops) hmem)).mp hcovers val
        (hobj.getEntry hget) (hok.accepts hget)
  intro props hprops hclosed e he hnone
  rcases h.additional hclosed props hprops with
    ⟨hsclosed, sprops, hsprops, hextra⟩
  have hget := getEntry_of_mem hobj.nodup_keys he
  cases hentry : getEntry e.1 sprops with
  | none =>
    exact hok.additional sprops hsprops hsclosed e he hentry
  | some def_ =>
  have hmem := mem_of_getEntry hentry
  rcases hextra _ hmem hnone with ⟨p, hdef, hempty⟩
  apply hempty
  refine ⟨e.2, hobj.value he, ?_⟩
  apply hok.properties sprops hsprops e.1 p e.2 _ hget
  rwa [show def_ = .obj p from hdef] at hmem

theorem arraysCovered {s t : Fields} (hs : (Json.obj s).Proper)
    (ht : (Json.obj t).Proper) (hnone : enumOf s = none)
    (hplain : Plain s (.arr [])) (h : Includes (levels + 1) s t) :
    ArraysCovered levels (Covers levels) s t := by
  have hvalid : forall l : List Json, (forall v, v ∈ l -> v.Proper) ->
      (forall v, v ∈ l -> Accepts levels (itemsOf s) v) ->
        Valid (levels + 1) t (.arr l) := by
    intro l hproper haccepts
    apply h _ (Json.Proper.arr hproper)
    apply valid_arr_iff.mpr
    refine ⟨plain_arr_iff.mpr ⟨(plain_arr_iff.mp hplain).left, ?_⟩, haccepts⟩
    intro enum hsome
    rw [hnone] at hsome
    cases hsome
  constructor
  · exact (valid_arr_iff.mp (hvalid [] (by simp) (by simp))).left
  rintro ⟨x, hx, hxs⟩
  constructor
  · cases henum : enumOf t with
    | none => rfl
    | some enum =>
    -- no list has arrays of all lengths
    rcases exists_length_arr_not_mem enum x with ⟨n, hn⟩
    refine absurd ?_ hn
    apply (valid_arr_iff.mp (hvalid (List.replicate n x) ?_ ?_)).left.enum
      enum henum
    · intro v hv
      rwa [List.eq_of_mem_replicate hv]
    · intro v hv
      rwa [List.eq_of_mem_replicate hv]
  intro items hitems
  apply (nestedCovers_iff ih (fun p hp => proper_objectAt hs hp)
    (proper_objectAt ht hitems)).mpr
  intro v hv hvs
  have hsingle : forall w, w ∈ [v] ->
      w.Proper ∧ Accepts levels (itemsOf s) w := by
    intro w hw
    rw [List.mem_singleton.mp hw]
    exact ⟨hv, hvs⟩
  have hone := (valid_arr_iff.mp (hvalid [v]
    (fun w hw => (hsingle w hw).left)
    (fun w hw => (hsingle w hw).right))).right v
      (List.mem_singleton_self v)
  rwa [hitems] at hone

theorem objectsCovered {s t : Fields} (hs : (Json.obj s).Proper)
    (ht : (Json.obj t).Proper) (hnone : enumOf s = none) (hobj : (Json.obj obj).Proper)
    (hvalid : Valid (levels + 1) s (.obj obj))
    (h : Includes (levels + 1) s t) :
    ObjectsCovered levels (Covers levels) s t := by
  rcases valid_obj_iff.mp hvalid with ⟨hplain, hok⟩
  have hinto : forall o, (Json.obj o).Proper ->
      ObjectOk (Valid levels) s o -> ObjectOk (Valid levels) t o := by
    intro o hproper ho
    refine (valid_obj_iff.mp (h _ hproper (valid_obj_iff.mpr
      ⟨plain_obj_iff.mpr ⟨(plain_obj_iff.mp hplain).left, ?_⟩, ho⟩))).right
    intro enum hsome
    rw [hnone] at hsome
    cases hsome
  have hset : forall name v, ValidUtf8 name -> v.Proper -> MayHave s name ->
      Accepts levels (propertyOf s name) v ->
        ObjectOk (Valid levels) t (insertSorted name v obj) :=
    fun name v hname hv hmay haccepts =>
      hinto _ (hobj.set hname hv) (hok.set hs hobj hmay haccepts)
  have hget : forall name v,
      getEntry name (insertSorted name v obj) = some v := by
    intro name v
    rw [Json.getEntry_set hobj.sorted, if_pos rfl]
  constructor
  · exact (plain_obj_iff.mp (valid_obj_iff.mp (h _ hobj hvalid)).left).left
  · intro enum henum o ho hos
    exact (plain_obj_iff.mp (valid_obj_iff.mp (h _ ho hos)).left).right enum
      henum
  · intro name hname
    by_contra hnot
    have herased := hinto _ (hobj.erase name) (hok.erase hnot)
    exact herased.mem_required hname (getEntry_deleteEntry name obj)
  · intro hclosed props hprops
    have hforbidden : forall name v, ValidUtf8 name -> v.Proper ->
        getEntry name props = none -> MayHave s name ->
          ¬ Accepts levels (propertyOf s name) v := by
      intro name v hname hv hmissing hmay haccepts
      exact (hset name v hname hv hmay haccepts).mayHave (hget name v) hclosed
        props hprops hmissing
    have hsclosed : noAdditional s = true ∧
        exists sprops, propertiesOf s = some sprops := by
      by_contra hopen
      rcases Json.exists_validUtf8_not_mem (props.map Prod.fst ++
        ((propertiesOf s).getD []).map Prod.fst) with ⟨name, hname, hfresh⟩
      rw [List.mem_append, not_or] at hfresh
      apply hforbidden name .null hname .null
        (getEntry_of_not_mem hfresh.left)
      · intro hc sprops hsprops
        exact absurd ⟨hc, sprops, hsprops⟩ hopen
      · unfold propertyOf objectAt
        rw [getEntry_of_not_mem hfresh.right]
        trivial
    rcases hsclosed with ⟨hc, sprops, hsprops⟩
    refine ⟨hc, sprops, hsprops, ?_⟩
    intro e he hmissing
    have hsproper := proper_objectAt hs hsprops
    have hentry := getEntry_of_mem hsproper.nodup_keys he
    have hmay : MayHave s e.1 := by
      intro _ props' hprops'
      rw [hsprops] at hprops'
      rw [← Option.some.inj hprops', hentry]
      exact Option.some_ne_none _
    have hempty := fun v hv => hforbidden e.1 v (hsproper.key he) hv hmissing
      hmay
    have hproperty : propertyOf s e.1 = e.2.asObject := by
      unfold propertyOf objectAt
      rw [hsprops, Option.getD_some, hentry]
      cases e.2 <;> rfl
    rw [hproperty] at hempty
    cases hdef : e.2.asObject with
    | none =>
      rw [hdef] at hempty
      exact absurd trivial (hempty .null .null)
    | some p =>
    rw [hdef] at hempty
    refine ⟨p, Json.eq_of_asObject hdef, ?_⟩
    rintro ⟨v, hv, hvalid⟩
    exact hempty v hv hvalid
  · intro props hprops name q hmem hmay
    have hproper := proper_objectAt ht hprops
    apply (nestedCovers_iff ih (fun p hp => proper_propertyOf hs hp)
      (proper_property hproper hmem)).mpr
    intro v hv haccepts
    exact (hset name v (hproper.key hmem) hv hmay haccepts).properties props
      hprops name q v hmem (hget name v)

end Levels

theorem covers_iff_includes {s t : Fields} (hs : (Json.obj s).Proper)
    (ht : (Json.obj t).Proper) :
    Covers levels s t <-> Includes levels s t := by
  induction levels generalizing s t with
  | zero =>
    constructor
    · intro _ v _ h
      exact h.elim
    · intro _
      trivial
  | succ levels ih =>
  unfold Covers
  cases henum : enumOf s with
  | some enum =>
    constructor
    · intro h v _ hvalid
      exact h v (hvalid.left.enum enum henum) hvalid
    · intro h v hv hvalid
      exact h v ((proper_arrayAt hs henum).item hv) hvalid
  | none =>
  constructor
  · rintro ⟨hscalar, harr, hobj⟩ v hv hvalid
    have hplain : IsScalar v -> Valid (levels + 1) t v :=
      fun h => (valid_scalar_iff h).mpr (hscalar v hv h hvalid.left)
    cases v with
    | arr l =>
      refine includes_arr ih hs ht hv (harr ?_) hvalid
      apply plain_arr_iff.mpr
      refine ⟨(plain_arr_iff.mp hvalid.left).left, ?_⟩
      intro enum hsome
      rw [henum] at hsome
      cases hsome
    | obj obj =>
      exact includes_obj ih hs ht hv (hobj ⟨obj, hv, hvalid⟩) hvalid
    | null => exact hplain trivial
    | bool b => exact hplain trivial
    | num x => exact hplain trivial
    | str str => exact hplain trivial
  · intro h
    refine ⟨?_, ?_, ?_⟩
    · intro v hv hscalar hplain
      exact (h v hv ((valid_scalar_iff hscalar).mpr hplain)).left
    · intro hplain
      exact arraysCovered ih hs ht henum hplain h
    · rintro ⟨obj, hobj, hvalid⟩
      exact objectsCovered ih hs ht henum hobj hvalid h

end Schema
end ChimeraMQ
