import ChimeraMQ.Foundation.Allotment
import ChimeraMQ.Foundation.Leveling
import ChimeraMQ.Foundation.Run
import ChimeraMQ.Stream.ConsumerGroup

/-!
# The assignment of a consumer group

When no rebalance is pending, the partitions of a group that has members are
dealt out among the members, whatever the strategy is.
-/

namespace ChimeraMQ
namespace Stream

open Foundation

namespace ConsumerGroup

structure Partitioned (g : ConsumerGroup) : Prop where
  covers : forall partID, partID < g.partitionCount <->
    exists memberID, getEntry partID g.assignments = some memberID
  current : forall partID memberID,
    getEntry partID g.assignments = some memberID ->
      memberID ∈ g.members.map Prod.fst
  lists : forall memberID m, getEntry memberID g.members = some m ->
    m.partitions.Nodup ∧ forall partID, partID ∈ m.partitions <->
      getEntry partID g.assignments = some memberID

/-!
## Groups as allotments
-/

def allotment (g : ConsumerGroup) : Allotment Nat Bytes where
  owner := fun partID => getEntry partID g.assignments
  held := g.partitionsOf

theorem keys_modifyMember (g : ConsumerGroup) (memberID : Bytes)
    (f : GroupMember -> GroupMember) :
    (g.modifyMember memberID f).members.map Prod.fst =
      g.members.map Prod.fst := by
  unfold modifyMember
  rw [List.map_map]
  rfl

theorem getEntry_modifyMember (g : ConsumerGroup) (memberID other : Bytes)
    (f : GroupMember -> GroupMember) :
    getEntry other (g.modifyMember memberID f).members =
      (getEntry other g.members).map (fun m =>
        if other = memberID then f m else m) :=
  getEntry_map other (fun k m => if k = memberID then f m else m) g.members

theorem partitionsOf_modifyMember (g : ConsumerGroup) {memberID : Bytes}
    (hmem : memberID ∈ g.members.map Prod.fst)
    (change : List Nat -> List Nat) :
    (g.modifyMember memberID (fun m =>
      { m with partitions := change m.partitions })).partitionsOf =
        Function.update g.partitionsOf memberID
          (change (g.partitionsOf memberID)) := by
  funext other
  unfold partitionsOf
  rw [getEntry_modifyMember]
  by_cases hother : other = memberID
  · rw [hother, Function.update_self]
    rcases Option.ne_none_iff_exists'.mp
      (fun hnone => getEntry_eq_none_iff.mp hnone hmem) with ⟨m, hm⟩
    rw [hm]
    simp
  rw [Function.update_of_ne hother]
  cases getEntry other g.members with
  | none => rfl
  | some m => simp [hother]

theorem allotment_clear (g : ConsumerGroup) :
    g.clear.allotment = Allotment.empty := by
  have hheld : g.clear.partitionsOf = fun _ => [] := by
    funext memberID
    have hclear : getEntry memberID g.clear.members =
        (getEntry memberID g.members).map (fun m =>
          { m with partitions := [] }) :=
      @getEntry_map Bytes GroupMember _ GroupMember memberID
        (fun _ m => { m with partitions := [] }) g.members
    unfold partitionsOf
    rw [hclear]
    cases getEntry memberID g.members with
    | none => rfl
    | some m => rfl
  unfold allotment
  rw [hheld]
  rfl

theorem owner_setEntry (assignments : List (Nat × Bytes)) (partID : Nat)
    (memberID : Bytes) :
    (fun x => getEntry x (setEntry partID memberID assignments)) =
      Function.update (fun x => getEntry x assignments) partID
        (some memberID) := by
  funext x
  by_cases hx : x = partID
  · rw [hx, Function.update_self]
    exact getEntry_setEntry partID memberID assignments
  · rw [Function.update_of_ne hx]
    exact getEntry_setEntry_ne hx memberID assignments

variable {memberID : Bytes}

theorem allotment_assign (g : ConsumerGroup) (partID : Nat)
    (hmem : memberID ∈ g.members.map Prod.fst) :
    (g.assign partID memberID).allotment =
      g.allotment.give partID memberID := by
  have hheld : (g.assign partID memberID).partitionsOf =
      Function.update g.partitionsOf memberID
        (g.partitionsOf memberID ++ [partID]) :=
    partitionsOf_modifyMember
      { g with assignments := setEntry partID memberID g.assignments } hmem
      (fun partitions => partitions ++ [partID])
  unfold allotment Allotment.give
  rw [hheld]
  exact congrArg (fun owner => Allotment.mk owner _)
    (owner_setEntry g.assignments partID memberID)

variable {overMember underMember : Bytes}

theorem allotment_steal (g : ConsumerGroup)
    (hover : overMember ∈ g.members.map Prod.fst)
    (hunder : underMember ∈ g.members.map Prod.fst)
    (hne : overMember ≠ underMember) {partID : Nat}
    (hlast : (g.partitionsOf overMember).getLast? = some partID) :
    (g.steal overMember underMember).allotment =
      g.allotment.pass partID overMember underMember := by
  have htaken := partitionsOf_modifyMember g hover List.dropLast
  have hgiven := @partitionsOf_modifyMember
    (g.modifyMember overMember (fun m =>
      { m with partitions := m.partitions.dropLast })) underMember
    (by rw [keys_modifyMember]; exact hunder)
    (fun partitions => partitions ++ [partID])
  rw [htaken, Function.update_of_ne hne.symm] at hgiven
  unfold steal
  rw [hlast]
  unfold allotment Allotment.pass
  have howner := owner_setEntry g.assignments partID underMember
  exact congrArg₂ Allotment.mk howner hgiven

/-!
## Dealing out
-/

structure Dealt (g0 g : ConsumerGroup) (done : List Nat) : Prop where
  count : g.partitionCount = g0.partitionCount
  keys : g.members.map Prod.fst = g0.members.map Prod.fst
  sound : g.allotment.Sound
  unowned : forall partID, g.allotment.owner partID = none <-> partID ∉ done
  current : forall partID memberID,
    g.allotment.owner partID = some memberID ->
      memberID ∈ g0.members.map Prod.fst

theorem dealt_clear (g : ConsumerGroup) : Dealt g g.clear [] := by
  constructor
  · rfl
  · unfold clear
    rw [List.map_map]
    rfl
  · rw [allotment_clear]
    exact Allotment.sound_empty
  · rw [allotment_clear]
    exact fun partID => iff_of_true rfl List.not_mem_nil
  · rw [allotment_clear]
    intro partID memberID h
    cases h

variable {g0 g : ConsumerGroup} {done : List Nat}

theorem Dealt.assign (h : Dealt g0 g done) {partID : Nat} (hnew : partID ∉ done)
    (hmem : memberID ∈ g0.members.map Prod.fst) :
    Dealt g0 (g.assign partID memberID) (done ++ [partID]) := by
  have hassign := allotment_assign g partID (by rw [h.keys]; exact hmem)
  constructor
  · exact h.count
  · exact (keys_modifyMember _ _ _).trans h.keys
  · rw [hassign]
    exact h.sound.give ((h.unowned partID).mpr hnew) memberID
  · intro x
    rw [hassign, List.mem_append, List.mem_singleton]
    unfold Allotment.give
    by_cases hx : x = partID
    · rw [hx]
      simp
    · simp only [Function.update_of_ne hx, hx, or_false]
      exact h.unowned x
  · intro x other howner
    rw [hassign] at howner
    unfold Allotment.give at howner
    by_cases hx : x = partID
    · simp only [hx, Function.update_self, Option.some.injEq] at howner
      rw [← howner]
      exact hmem
    · simp only [Function.update_of_ne hx] at howner
      exact h.current x other howner

theorem keys_steal (g : ConsumerGroup) (overMember underMember : Bytes) :
    (g.steal overMember underMember).members.map Prod.fst =
      g.members.map Prod.fst := by
  unfold ConsumerGroup.steal
  cases (g.partitionsOf overMember).getLast? with
  | none => rfl
  | some partID =>
  have hover := keys_modifyMember g overMember (fun m =>
    { m with partitions := m.partitions.dropLast })
  rw [← hover]
  exact keys_modifyMember _ underMember (fun m =>
    { m with partitions := m.partitions ++ [partID] })

theorem Dealt.steal (h : Dealt g0 g done)
    (hover : overMember ∈ g0.members.map Prod.fst)
    (hunder : underMember ∈ g0.members.map Prod.fst)
    (hne : overMember ≠ underMember) :
    Dealt g0 (g.steal overMember underMember) done := by
  cases hlast : (g.partitionsOf overMember).getLast? with
  | none =>
    unfold ConsumerGroup.steal
    rw [hlast]
    exact h
  | some partID =>
  have hsteal := allotment_steal g (by rw [h.keys]; exact hover)
    (by rw [h.keys]; exact hunder) hne hlast
  have howner : g.allotment.owner partID = some overMember :=
    (h.sound.listed overMember partID).mp (List.mem_of_getLast? hlast)
  constructor
  · unfold ConsumerGroup.steal
    rw [hlast]
    exact h.count
  · exact (keys_steal g overMember underMember).trans h.keys
  · rw [hsteal]
    exact h.sound.pass hlast hne
  · intro x
    rw [hsteal, ← h.unowned x]
    unfold Allotment.pass
    by_cases hx : x = partID
    · rw [hx, howner]
      simp
    · simp only [Function.update_of_ne hx]
  · intro x other hother
    rw [hsteal] at hother
    unfold Allotment.pass at hother
    by_cases hx : x = partID
    · simp only [hx, Function.update_self, Option.some.injEq] at hother
      rw [← hother]
      exact hunder
    · simp only [Function.update_of_ne hx] at hother
      exact h.current x other hother

theorem Dealt.partitioned (h : Dealt g0 g done)
    (hdone : forall partID, partID ∈ done <-> partID < g0.partitionCount) :
    g.Partitioned where
  covers := by
    intro partID
    rw [h.count, ← hdone, ← Option.ne_none_iff_exists']
    exact (not_iff_comm.mp (h.unowned partID).symm).symm
  current := by
    intro partID memberID howner
    rw [h.keys]
    exact h.current partID memberID howner
  lists := by
    intro memberID m hm
    have hheld : g.partitionsOf memberID = m.partitions := by
      unfold partitionsOf
      rw [hm]
      rfl
    rw [← hheld]
    exact ⟨h.sound.nodup memberID, h.sound.listed memberID⟩

theorem Dealt.foldl_assign {ε : Type} (part : ε -> Nat)
    (choose : ConsumerGroup -> ε -> Bytes) (items : List ε)
    (hchoose : forall g done e, Dealt g0 g done -> e ∈ items ->
      choose g e ∈ g0.members.map Prod.fst) (h : Dealt g0 g done)
    (hnodup : (done ++ items.map part).Nodup) :
    Dealt g0 (items.foldl (fun g e => g.assign (part e) (choose g e)) g)
      (done ++ items.map part) := by
  induction items generalizing g done with
  | nil =>
    rw [List.map_nil, List.append_nil]
    exact h
  | cons e rest ih =>
  have hsplit : done ++ (e :: rest).map part =
      (done ++ [part e]) ++ rest.map part := by
    rw [List.map_cons, List.append_assoc, List.singleton_append]
  rw [hsplit] at hnodup ⊢
  have hnew : part e ∉ done := by
    intro hmem
    have hfront := (List.nodup_append.mp hnodup).left
    exact (List.nodup_append.mp hfront).right.right (part e) hmem (part e)
      (List.mem_singleton_self _) rfl
  rw [List.foldl_cons]
  apply ih
  · intro g done x hdealt hx
    exact hchoose g done x hdealt (List.mem_cons_of_mem e hx)
  · exact h.assign hnew (hchoose g done e h (List.mem_cons_self ..))
  · exact hnodup

/-!
## Range and round robin
-/

theorem runLength_sum (perMember remainder i : Nat) :
    i * perMember + min i remainder + runLength perMember remainder i =
      (i + 1) * perMember + min (i + 1) remainder := by
  unfold runLength
  rw [Nat.succ_mul]
  by_cases hi : i < remainder
  · rw [if_pos hi]
    omega
  · rw [if_neg hi]
    omega

variable {partitions : List Nat}

theorem Dealt.assignRun (hnodup : partitions.Nodup)
    (hmem : memberID ∈ g0.members.map Prod.fst) (count : Nat)
    {s : ConsumerGroup × Nat} (h : Dealt g0 s.1 (partitions.take s.2))
    (hroom : s.2 + count ≤ partitions.length) :
    Dealt g0 (assignRun partitions memberID count s).1
        (partitions.take (s.2 + count)) ∧
      (assignRun partitions memberID count s).2 = s.2 + count := by
  induction count generalizing s with
  | zero => exact ⟨h, rfl⟩
  | succ count ih =>
  rcases s with ⟨g, idx⟩
  have hidx : idx < partitions.length := by
    change idx + (count + 1) ≤ partitions.length at hroom
    omega
  have hget : partitions[idx]? = some partitions[idx] :=
    List.getElem?_eq_getElem hidx
  have hnew : partitions[idx] ∉ partitions.take idx := by
    have hsplit := List.take_concat_get' partitions idx hidx
    have htake := hnodup.sublist (List.take_sublist (idx + 1) partitions)
    rw [← hsplit, List.nodup_append_comm] at htake
    exact (List.nodup_cons.mp htake).left
  have hnext := h.assign hnew hmem
  rw [List.take_concat_get' partitions idx hidx] at hnext
  have hrest := ih (s := (g.assign partitions[idx] memberID, idx + 1))
    hnext (by
      change idx + (count + 1) ≤ partitions.length at hroom
      change idx + 1 + count ≤ partitions.length
      omega)
  unfold ConsumerGroup.assignRun
  simp only [hget]
  change Dealt g0 _ (partitions.take (idx + (count + 1))) ∧
    _ = idx + (count + 1)
  rw [Nat.add_comm count 1, ← Nat.add_assoc]
  exact hrest

variable {members : List Bytes}

theorem Dealt.runs (hnodup : partitions.Nodup) {perMember remainder : Nat}
    (hmembers : members ⊆ g0.members.map Prod.fst) (i : Nat)
    {s : ConsumerGroup × Nat}
    (h : Dealt g0 s.1 (partitions.take s.2))
    (hidx : s.2 = i * perMember + min i remainder)
    (hroom : (i + members.length) * perMember +
      min (i + members.length) remainder ≤ partitions.length) :
    Dealt g0 ((members.zipIdx i).foldl (fun s e =>
        ConsumerGroup.assignRun partitions e.1
          (runLength perMember remainder e.2) s) s).1
      (partitions.take ((i + members.length) * perMember +
        min (i + members.length) remainder)) := by
  induction members generalizing i s with
  | nil =>
    rw [List.length_nil, Nat.add_zero, ← hidx]
    exact h
  | cons memberID rest ih =>
  rw [List.length_cons, Nat.add_comm rest.length 1, ← Nat.add_assoc]
    at hroom ⊢
  have hsum : s.2 + runLength perMember remainder i =
      (i + 1) * perMember + min (i + 1) remainder := by
    rw [hidx]
    exact runLength_sum perMember remainder i
  have hle : (i + 1) * perMember ≤ (i + 1 + rest.length) * perMember :=
    Nat.mul_le_mul_right perMember (Nat.le_add_right _ _)
  have hrun := h.assignRun hnodup
    (hmembers (List.mem_cons_self ..))
    (runLength perMember remainder i) (by rw [hsum]; omega)
  rw [List.zipIdx_cons, List.foldl_cons]
  apply ih
  · exact fun x hx => hmembers (List.mem_cons_of_mem memberID hx)
  · rw [hrun.right]
    exact hrun.left
  · exact hrun.right.trans hsum
  · exact hroom

theorem runs_length (n : Nat) {m : Nat} (hm : 0 < m) :
    (0 + m) * (n / m) + min (0 + m) (n % m) = n := by
  rw [Nat.zero_add, Nat.min_eq_right (Nat.le_of_lt (Nat.mod_lt n hm))]
  exact Nat.div_add_mod n m

theorem Dealt.rebalanceRange (h : Dealt g0 g []) (hnodup : partitions.Nodup)
    (hsome : members ≠ []) (hmembers : members ⊆ g0.members.map Prod.fst) :
    Dealt g0 (g.rebalanceRange partitions members) partitions := by
  have hall := runs_length partitions.length (List.length_pos_of_ne_nil hsome)
  have hruns := Dealt.runs hnodup hmembers 0 (s := (g, 0)) h
    (by rw [Nat.zero_mul, Nat.zero_min]) (Nat.le_of_eq hall)
  rw [hall, List.take_length] at hruns
  exact hruns

theorem Dealt.rebalanceRoundRobin (h : Dealt g0 g [])
    (hnodup : partitions.Nodup) (hsome : members ≠ [])
    (hmembers : members ⊆ g0.members.map Prod.fst) :
    Dealt g0 (g.rebalanceRoundRobin partitions members) partitions := by
  have hparts : partitions.zipIdx.map Prod.fst = partitions :=
    List.zipIdx_map_fst 0 partitions
  have hdealt := h.foldl_assign Prod.fst
    (fun _ e => (members[e.2 % members.length]?).getD []) partitions.zipIdx (by
      intro g' done e _ _
      have hlt : e.2 % members.length < members.length :=
        Nat.mod_lt _ (List.length_pos_of_ne_nil hsome)
      rw [List.getElem?_eq_getElem hlt]
      exact hmembers (List.getElem_mem hlt)) (by
      rw [List.nil_append, hparts]
      exact hnodup)
  rw [List.nil_append, hparts] at hdealt
  exact hdealt

/-!
## Sticky
-/

def keeps (members : List Bytes) (prev : List (Nat × Bytes)) (partID : Nat) :
    Bool :=
  match getEntry partID prev with
  | none => false
  | some prevMember => prevMember ∈ members

theorem Dealt.keepAssigned (h : Dealt g0 g done)
    (hnodup : (done ++ partitions).Nodup)
    (hmembers : members ⊆ g0.members.map Prod.fst) (prev : List (Nat × Bytes)) :
    Dealt g0 (g.keepAssigned partitions members prev)
      (done ++ partitions.filter (keeps members prev)) := by
  have hfold : g.keepAssigned partitions members prev =
      (partitions.filter (keeps members prev)).foldl (fun g partID =>
        g.assign partID ((getEntry partID prev).getD [])) g := by
    unfold ConsumerGroup.keepAssigned
    rw [List.foldl_filter]
    congr 1
    funext g partID
    unfold keeps
    cases getEntry partID prev with
    | none => rfl
    | some prevMember => simp
  rw [hfold]
  have hdealt := h.foldl_assign id
    (fun _ partID => (getEntry partID prev).getD [])
    (partitions.filter (keeps members prev)) (by
      intro g' done' partID _ hkept
      have hkeeps := (List.mem_filter.mp hkept).right
      unfold keeps at hkeeps
      cases hprev : getEntry partID prev with
      | none =>
        rw [hprev] at hkeeps
        cases hkeeps
      | some prevMember =>
        rw [hprev] at hkeeps
        exact hmembers (by simpa using hkeeps)) (by
      rw [List.map_id]
      exact hnodup.sublist
        ((List.filter_sublist).append_left done))
  rw [List.map_id] at hdealt
  exact hdealt

theorem foldl_found {α β : Type} {f : Option β × α -> α -> Option β × α}
    (hnext : forall found x, (f found x).1 ≠ none ∧
      ((f found x).2 = x ∨ found.1 ≠ none ∧ (f found x).2 = found.2))
    (l : List α) (found : Option β × α) (hsome : found.1 = none -> l ≠ []) :
    (l.foldl f found).2 ∈ l ∨
      found.1 ≠ none ∧ (l.foldl f found).2 = found.2 := by
  induction l generalizing found with
  | nil => exact Or.inr ⟨fun hnone => hsome hnone rfl, rfl⟩
  | cons x l ih =>
  rcases hnext found x with ⟨hfound, hchosen⟩
  rw [List.foldl_cons]
  rcases ih (f found x) (fun hnone => absurd hnone hfound) with
    hmem | ⟨_, hkept⟩
  · exact Or.inl (List.mem_cons_of_mem x hmem)
  rw [hkept]
  rcases hchosen with hnew | hold
  · rw [hnew]
    exact Or.inl (List.mem_cons_self ..)
  · exact Or.inr hold

theorem memberWithFewest_mem (g : ConsumerGroup) (hsome : members ≠ []) :
    g.memberWithFewest members ∈ members := by
  unfold memberWithFewest
  refine (foldl_found ?_ members (none, []) (fun _ => hsome)).resolve_right
    (fun hfound => hfound.left rfl)
  intro found memberID
  rcases found with ⟨minCount, chosen⟩
  cases minCount with
  | none => exact ⟨Option.some_ne_none _, Or.inl rfl⟩
  | some minCount =>
  simp only
  by_cases hfewer : (g.partitionsOf memberID).length < minCount
  · rw [if_pos hfewer]
    exact ⟨Option.some_ne_none _, Or.inl rfl⟩
  · rw [if_neg hfewer]
    exact ⟨Option.some_ne_none _, Or.inr ⟨Option.some_ne_none _, rfl⟩⟩

theorem Dealt.distribute (h : Dealt g0 g done) (hdone : done.Nodup)
    (hnodup : partitions.Nodup) (hsome : members ≠ [])
    (hmembers : members ⊆ g0.members.map Prod.fst) :
    Dealt g0 (g.distribute partitions members)
      (done ++ partitions.filter (fun partID =>
        (getEntry partID g.assignments).isNone)) := by
  have hdealt := h.foldl_assign id (fun g _ => g.memberWithFewest members)
    (partitions.filter (fun partID =>
      (getEntry partID g.assignments).isNone)) (by
      intro g' done' partID _ _
      exact hmembers (g'.memberWithFewest_mem hsome)) (by
      rw [List.map_id, List.nodup_append]
      refine ⟨hdone, hnodup.filter _, ?_⟩
      intro x hx y hy heq
      have hnone := (List.mem_filter.mp hy).right
      rw [Option.isNone_iff_eq_none, ← heq] at hnone
      exact (h.unowned x).mp hnone hx)
  rw [List.map_id] at hdealt
  exact hdealt

structure Extremes.Found (g : ConsumerGroup) (members : List Bytes)
    (target : Nat) (e : Extremes) : Prop where
  tooMany : e.overMember = [] ∨ e.overMember ∈ members ∧
    target + 1 < (g.partitionsOf e.overMember).length
  tooFew : e.underMember = [] ∨ e.underMember ∈ members ∧
    (g.partitionsOf e.underMember).length < target

variable {target : Nat}

theorem Extremes.Found.lookOver {e : Extremes} (h : e.Found g members target)
    (hmem : memberID ∈ members) :
    Extremes.Found g members target
      (if (g.partitionsOf memberID).length > target + 1 ∧
          (g.partitionsOf memberID).length > e.overCount then
        { e with
          overMember := memberID
          overCount := (g.partitionsOf memberID).length }
      else e) := by
  split
  · rename_i hover
    exact ⟨Or.inr ⟨hmem, hover.left⟩, h.tooFew⟩
  · exact h

theorem Extremes.Found.lookUnder {e : Extremes} (h : e.Found g members target)
    (hmem : memberID ∈ members) :
    Extremes.Found g members target
      (if (g.partitionsOf memberID).length < target ∧
          (g.partitionsOf memberID).length < e.underCount then
        { e with
          underMember := memberID
          underCount := (g.partitionsOf memberID).length }
      else e) := by
  split
  · rename_i hunder
    exact ⟨h.tooMany, Or.inr ⟨hmem, hunder.left⟩⟩
  · exact h

theorem found_extremes (g : ConsumerGroup) (partitions : List Nat)
    (members : List Bytes) (target : Nat) :
    (g.extremes partitions members target).Found g members target := by
  unfold extremes
  have hstart : Extremes.Found g members target
      { overMember := [], overCount := 0, underMember := [],
        underCount := partitions.length + 1 } :=
    ⟨Or.inl rfl, Or.inl rfl⟩
  apply List.foldlRecOn members _ hstart
  intro e he memberID hmem
  exact (he.lookOver hmem).lookUnder hmem

theorem Dealt.stealLoop (hmembers : members ⊆ g0.members.map Prod.fst)
    (bound : Nat) (h : Dealt g0 g done) :
    Dealt g0 (stealLoop partitions members target bound g) done := by
  induction bound generalizing g with
  | zero => exact h
  | succ bound ih =>
  unfold ConsumerGroup.stealLoop
  have hfound := g.found_extremes partitions members target
  by_cases hend : (g.extremes partitions members target).overMember = [] ∨
      (g.extremes partitions members target).underMember = []
  · simp only [if_pos hend]
    exact h
  simp only [if_neg hend]
  push Not at hend
  have hover := hfound.tooMany.resolve_left hend.left
  have hunder := hfound.tooFew.resolve_left hend.right
  apply ih
  apply h.steal (hmembers hover.left) (hmembers hunder.left)
  intro heq
  have hmany := hover.right
  have hfew := hunder.right
  rw [heq] at hmany
  omega

theorem Dealt.shared (h : Dealt g0 g []) (hnodup : partitions.Nodup)
    (hsome : members ≠ []) (hmembers : members ⊆ g0.members.map Prod.fst)
    (prev : List (Nat × Bytes)) :
    exists done, Dealt g0
        ((g.keepAssigned partitions members prev).distribute partitions
          members) done ∧
      forall partID, partID ∈ done <-> partID ∈ partitions := by
  have hkeep := h.keepAssigned (by rw [List.nil_append]; exact hnodup)
    hmembers prev
  rw [List.nil_append] at hkeep
  refine ⟨_, hkeep.distribute (hnodup.filter _) hnodup hsome hmembers, ?_⟩
  intro partID
  rw [List.mem_append, List.mem_filter, List.mem_filter,
    Option.isNone_iff_eq_none]
  have hunowned := hkeep.unowned partID
  rw [List.mem_filter] at hunowned
  constructor
  · rintro (hkept | hshared)
    · exact hkept.left
    · exact hshared.left
  intro hpart
  by_cases hkept : keeps members prev partID = true
  · exact Or.inl ⟨hpart, hkept⟩
  · exact Or.inr ⟨hpart, hunowned.mpr (fun hmem => hkept hmem.right)⟩

theorem Dealt.rebalanceSticky (h : Dealt g0 g []) (hnodup : partitions.Nodup)
    (hsome : members ≠ []) (hmembers : members ⊆ g0.members.map Prod.fst)
    (prev : List (Nat × Bytes)) :
    exists done, Dealt g0 (g.rebalanceSticky partitions members prev) done ∧
      forall partID, partID ∈ done <-> partID ∈ partitions := by
  rcases h.shared hnodup hsome hmembers prev with ⟨done, hshared, hdone⟩
  exact ⟨done, hshared.stealLoop hmembers (partitions.length + 1), hdone⟩

/-!
## The end of the stealing
-/

def counts (g : ConsumerGroup) (memberID : Bytes) : Nat :=
  (g.partitionsOf memberID).length

def deficit (g : ConsumerGroup) (members : List Bytes) (target : Nat) : Nat :=
  (members.map (fun memberID =>
    target - (g.partitionsOf memberID).length)).sum

theorem counts_steal (hover : overMember ∈ g.members.map Prod.fst)
    (hunder : underMember ∈ g.members.map Prod.fst)
    (hne : overMember ≠ underMember) (hpos : 0 < g.counts overMember) :
    (g.steal overMember underMember).counts =
      pass g.counts overMember underMember := by
  cases hlast : (g.partitionsOf overMember).getLast? with
  | none =>
    rw [List.getLast?_eq_none_iff] at hlast
    unfold counts at hpos
    rw [hlast] at hpos
    cases hpos
  | some partID =>
  have hheld := congrArg Allotment.held
    (allotment_steal g hover hunder hne hlast)
  funext other
  have hother : (g.steal overMember underMember).partitionsOf other =
      Function.update
        (Function.update g.partitionsOf overMember
          (g.partitionsOf overMember).dropLast) underMember
        (g.partitionsOf underMember ++ [partID]) other :=
    congrFun hheld other
  unfold counts
  rw [hother]
  by_cases hsame : other = underMember
  · rw [hsame, Function.update_self, pass_taker _ hne.symm,
      List.length_append]
    rfl
  rw [Function.update_of_ne hsame]
  by_cases hgiver : other = overMember
  · rw [hgiver, Function.update_self, pass_giver _ hne.symm,
      List.length_dropLast]
  · rw [Function.update_of_ne hgiver, pass_of_ne _ hgiver hsame]

theorem deficit_steal (hnodup : members.Nodup)
    (hover : overMember ∈ g.members.map Prod.fst)
    (hunder : underMember ∈ g.members.map Prod.fst)
    (hmem : underMember ∈ members)
    (hmany : target + 1 < (g.partitionsOf overMember).length)
    (hfew : (g.partitionsOf underMember).length < target) :
    (g.steal overMember underMember).deficit members target + 1 =
      g.deficit members target := by
  have hne : overMember ≠ underMember := by
    intro heq
    rw [heq] at hmany
    omega
  have hpass := counts_steal hover hunder hne (Nat.zero_lt_of_lt hmany)
  show lacking target (g.steal overMember underMember).counts members + 1 =
    lacking target g.counts members
  rw [hpass]
  exact lacking_pass hnodup hmem (Nat.lt_of_succ_lt hmany) hfew

theorem stealLoop_ends {g0 : ConsumerGroup} {done partitions : List Nat}
    {members : List Bytes} {target : Nat} (hnodup : members.Nodup)
    (hmembers : members ⊆ g0.members.map Prod.fst) {bound : Nat} {g : ConsumerGroup}
    (h : Dealt g0 g done) (hbound : g.deficit members target < bound) :
    ((stealLoop partitions members target bound g).extremes partitions members
        target).overMember = [] ∨
      ((stealLoop partitions members target bound g).extremes partitions
        members target).underMember = [] := by
  induction bound generalizing g with
  | zero => exact absurd hbound (Nat.not_lt_zero _)
  | succ bound ih =>
  unfold ConsumerGroup.stealLoop
  have hfound := g.found_extremes partitions members target
  by_cases hend : (g.extremes partitions members target).overMember = [] ∨
      (g.extremes partitions members target).underMember = []
  · simp only [if_pos hend]
    exact hend
  simp only [if_neg hend]
  push Not at hend
  have hover := hfound.tooMany.resolve_left hend.left
  have hunder := hfound.tooFew.resolve_left hend.right
  have hoverkey := hmembers hover.left
  have hunderkey := hmembers hunder.left
  apply ih
  · apply h.steal hoverkey hunderkey
    intro heq
    have hmany := hover.right
    have hfew := hunder.right
    rw [heq] at hmany
    omega
  · rw [← h.keys] at hoverkey hunderkey
    have hlower := deficit_steal hnodup hoverkey hunderkey hunder.left
      hover.right hunder.right
    omega

theorem deficit_lt (g : ConsumerGroup) (partitions : List Nat)
    (members : List Bytes) :
    g.deficit members (partitions.length / members.length) <
      partitions.length + 1 := by
  have hle : g.deficit members (partitions.length / members.length) ≤
      (members.map (fun _ => partitions.length / members.length)).sum := by
    apply List.sum_le_sum
    intro memberID _
    exact Nat.sub_le _ _
  rw [List.map_const', List.sum_replicate_nat] at hle
  have hall := Nat.mul_div_le partitions.length members.length
  omega

/-!
## Rebalancing
-/

theorem memberIDs_perm (g : ConsumerGroup) :
    g.memberIDs.Perm (g.members.map Prod.fst) :=
  List.perm_insertionSort _ _

theorem mem_memberIDs :
    memberID ∈ g.memberIDs <-> memberID ∈ g.members.map Prod.fst :=
  g.memberIDs_perm.mem_iff

theorem memberIDs_ne_nil (hsome : g.members ≠ []) :
    g.memberIDs ≠ [] := by
  intro hnil
  have hperm := g.memberIDs_perm
  rw [hnil, List.nil_perm, List.map_eq_nil_iff] at hperm
  exact hsome hperm

theorem dealt_reassign (hsome : g.members ≠ []) :
    exists done, Dealt g g.reassign done ∧
      forall partID, partID ∈ done <->
        partID ∈ List.range g.partitionCount := by
  have hids := memberIDs_ne_nil hsome
  have hmembers : g.memberIDs ⊆ g.members.map Prod.fst :=
    fun _ hmem => mem_memberIDs.mp hmem
  have hnodup : (List.range g.partitionCount).Nodup := List.nodup_range
  have hclear := g.dealt_clear
  unfold reassign
  rw [if_neg hsome]
  cases g.strategy with
  | range =>
    exact ⟨_, hclear.rebalanceRange hnodup hids hmembers, fun _ => Iff.rfl⟩
  | roundRobin =>
    exact ⟨_, hclear.rebalanceRoundRobin hnodup hids hmembers,
      fun _ => Iff.rfl⟩
  | sticky =>
    exact hclear.rebalanceSticky hnodup hids hmembers g.assignments

theorem partitioned_reassign (hsome : g.members ≠ []) :
    g.reassign.Partitioned ∧ g.reassign.members ≠ [] := by
  rcases dealt_reassign hsome with ⟨done, hdealt, hdone⟩
  constructor
  · apply hdealt.partitioned
    intro partID
    rw [hdone, List.mem_range]
  intro hnil
  have hkeys := hdealt.keys
  rw [hnil, List.map_nil] at hkeys
  exact hsome (List.map_eq_nil_iff.mp hkeys.symm)

/-!
## Runs
-/

inductive Action where
  | join (memberID : Bytes) (now : Int)
  | leave (memberID : Bytes)
  | heartbeat (memberID : Bytes) (now : Int)
  | expire (now : Int)
  | rebalance

def step (g : ConsumerGroup) : Action -> Option ConsumerGroup
  | .join memberID now => some (g.join memberID now)
  | .leave memberID => some (g.leave memberID)
  | .heartbeat memberID now => some (g.heartbeat memberID now)
  | .expire now => some (g.expire now)
  | .rebalance => if g.pending = 0 then none else some g.rebalance

def Settled (g : ConsumerGroup) : Prop :=
  g.pending = 0 -> g.members ≠ [] -> g.Partitioned

theorem Partitioned.heartbeat (h : g.Partitioned) (memberID : Bytes) (now : Int) :
    (g.heartbeat memberID now).Partitioned where
  covers := h.covers
  current := by
    intro partID other howner
    unfold ConsumerGroup.heartbeat
    rw [keys_modifyMember]
    exact h.current partID other howner
  lists := by
    intro other m hm
    unfold ConsumerGroup.heartbeat at hm
    rw [getEntry_modifyMember] at hm
    rcases Option.map_eq_some_iff.mp hm with ⟨m', hm', heq⟩
    have hpartitions : m.partitions = m'.partitions := by
      rw [← heq]
      split
      · rfl
      · rfl
    rw [hpartitions]
    exact h.lists other m' hm'

theorem Settled.step {g' : ConsumerGroup} (h : g.Settled) {a : Action}
    (hstep : g.step a = some g') : g'.Settled := by
  intro hpending hsome
  cases a with
  | join memberID now =>
    cases hstep
    cases hpending
  | leave memberID =>
    cases hstep
    cases hpending
  | heartbeat memberID now =>
    cases hstep
    apply Partitioned.heartbeat
    apply h hpending
    intro hnil
    apply hsome
    unfold ConsumerGroup.heartbeat modifyMember
    rw [hnil]
    rfl
  | expire now =>
    cases hstep
    unfold expire at hpending hsome ⊢
    split
    · rename_i hexpired
      rw [if_pos hexpired] at hpending
      cases hpending
    · rename_i hnone
      rw [if_neg hnone] at hpending hsome
      exact h hpending hsome
  | rebalance =>
  unfold ConsumerGroup.step at hstep
  by_cases hnone : g.pending = 0
  · rw [if_pos hnone] at hstep
    cases hstep
  rw [if_neg hnone] at hstep
  cases hstep
  have hmembers : g.members ≠ [] := by
    intro hnil
    apply hsome
    unfold rebalance reassign
    rw [if_pos hnil]
    show g.clear.members = []
    unfold clear
    rw [hnil]
    rfl
  have hpartitioned := (partitioned_reassign hmembers).left
  exact ⟨hpartitioned.covers, hpartitioned.current, hpartitioned.lists⟩

/--
Whoever has joined, left or expired: once the group has been rebalanced for all
of them, its partitions are dealt out among its members.
-/
theorem partitioned_of_settled (name topic : Bytes) (partitionCount : Nat)
    (strategy : RebalanceStrategy) (offsetStore : OffsetStore)
    {actions : List Action} {g : ConsumerGroup}
    (hrun : run? step
      (newConsumerGroup name topic partitionCount strategy offsetStore)
      actions = some g)
    (hpending : g.pending = 0) (hsome : g.members ≠ []) : g.Partitioned := by
  have hstart : (newConsumerGroup name topic partitionCount strategy
      offsetStore).Settled := by
    intro _ hmembers
    exact absurd rfl hmembers
  exact run?_invariant (fun _ _ _ h hone => h.step hone) hstart hrun hpending
    hsome

def exampleActions : List Action :=
  [.join (ascii "b") 0, .rebalance, .join (ascii "a") 0, .rebalance,
    .join (ascii "c") 5, .rebalance, .join (ascii "a") 6, .rebalance,
    .leave (ascii "b"), .rebalance, .expire 30000000004]

/-- A group of seven partitions that keeps to what was assigned before. -/
theorem partitioned_sticky : exists g : ConsumerGroup,
    run? step
      (newConsumerGroup (ascii "g") (ascii "t") 7 .sticky
        (OffsetStore.newOffsetStore [])) exampleActions = some g ∧
      g.pending = 0 ∧
      g.members.map (fun e => (e.1, e.2.partitions)) =
        [(ascii "a", [4, 5, 6, 2]), (ascii "c", [3, 0, 1])] ∧
      g.Partitioned := by
  have hview : (run? step
      (newConsumerGroup (ascii "g") (ascii "t") 7 .sticky
        (OffsetStore.newOffsetStore [])) exampleActions).map (fun g =>
      (g.pending, g.members.map (fun e => (e.1, e.2.partitions)))) =
        some (0, [(ascii "a", [4, 5, 6, 2]), (ascii "c", [3, 0, 1])]) := by
    decide +kernel
  rcases Option.map_eq_some_iff.mp hview with ⟨g, hrun, hg⟩
  rw [Prod.mk.injEq] at hg
  have hsome : g.members ≠ [] := by
    intro hnil
    rw [hnil] at hg
    cases hg.right
  exact ⟨g, hrun, hg.left, hg.right, partitioned_of_settled (ascii "g")
    (ascii "t") 7 .sticky (OffsetStore.newOffsetStore []) hrun hg.left hsome⟩

end ConsumerGroup

end Stream
end ChimeraMQ
