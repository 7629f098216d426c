import ChimeraMQ.Stream.Assignment

/-!
# The balance of a consumer group

After a rebalance the members should have equally many partitions, up to one.
-/

namespace ChimeraMQ
namespace Stream

open Foundation

namespace ConsumerGroup

/-- The numbers of partitions of two members differ by one at most. -/
def Balanced (g : ConsumerGroup) : Prop :=
  Leveled g.counts (g.members.map Prod.fst)

def keptBy (g : ConsumerGroup) (memberID : Bytes) : Nat :=
  (List.range g.partitionCount).countP
    (fun partID => getEntry partID g.assignments = some memberID)

def unkept (g : ConsumerGroup) : Nat :=
  (List.range g.partitionCount).countP
    (fun partID => ! keeps g.memberIDs g.assignments partID)

/-- How many partitions every member gets at least, if they are dealt evenly. -/
def share (g : ConsumerGroup) : Nat :=
  g.partitionCount / g.memberIDs.length

/--
What some members have beyond one more than the share is what the others lack
when the partitions that nobody has are given out.
-/
structure Even (g : ConsumerGroup) : Prop where
  stolen : excess (g.share + 1) g.keptBy g.memberIDs =
    lacking g.share g.keptBy g.memberIDs - g.unkept
  nameless : [] ∈ g.memberIDs ->
    excess (g.share + 1) g.keptBy g.memberIDs = 0 ∨
      g.keptBy [] ≤ g.share + 1 ∧
        (g.share ≤ g.keptBy [] ∨
          lacking (g.share - 1) g.keptBy g.memberIDs < g.unkept)

theorem counts_clear (g : ConsumerGroup) (memberID : Bytes) :
    g.clear.counts memberID = 0 := by
  have hheld := congrFun (congrArg Allotment.held (allotment_clear g)) memberID
  exact congrArg List.length hheld

theorem counts_assign (g : ConsumerGroup) (partID : Nat) {memberID : Bytes}
    (hmem : memberID ∈ g.members.map Prod.fst) :
    (g.assign partID memberID).counts = give g.counts memberID := by
  have hheld := congrArg Allotment.held (allotment_assign g partID hmem)
  funext other
  have hother : (g.assign partID memberID).partitionsOf other =
      Function.update g.partitionsOf memberID
        (g.partitionsOf memberID ++ [partID]) other := congrFun hheld other
  unfold counts give
  rw [hother]
  by_cases hsame : other = memberID
  · rw [hsame, Function.update_self, Function.update_self, List.length_append]
    rfl
  · rw [Function.update_of_ne hsame, Function.update_of_ne hsame]

theorem keys_assign (g : ConsumerGroup) (partID : Nat) (memberID : Bytes) :
    (g.assign partID memberID).members.map Prod.fst =
      g.members.map Prod.fst :=
  keys_modifyMember { g with
    assignments := setEntry partID memberID g.assignments } memberID
      (fun m => { m with partitions := m.partitions ++ [partID] })

/-!
## Range
-/

theorem counts_assignRun (partitions : List Nat) {memberID : Bytes}
    (count : Nat) {s : ConsumerGroup × Nat}
    (hmem : memberID ∈ s.1.members.map Prod.fst)
    (hroom : s.2 + count ≤ partitions.length) (other : Bytes) :
    (assignRun partitions memberID count s).1.counts other =
        (if other = memberID then s.1.counts other + count
        else s.1.counts other) ∧
      (assignRun partitions memberID count s).1.members.map Prod.fst =
        s.1.members.map Prod.fst ∧
      (assignRun partitions memberID count s).2 = s.2 + count := by
  induction count generalizing s with
  | zero =>
    refine ⟨?_, rfl, rfl⟩
    split
    · rfl
    · rfl
  | succ count ih =>
  rcases s with ⟨g, idx⟩
  change idx + (count + 1) ≤ partitions.length at hroom
  have hget : partitions[idx]? = some partitions[idx] :=
    List.getElem?_eq_getElem (by omega)
  have hkeys := keys_assign g partitions[idx] memberID
  have hmember : memberID ∈
      (g.assign partitions[idx] memberID).members.map Prod.fst := by
    rw [hkeys]
    exact hmem
  rcases ih (s := (g.assign partitions[idx] memberID, idx + 1)) hmember
    (by
      change idx + 1 + count ≤ partitions.length
      omega) with ⟨hcounts, hsame, hidx⟩
  unfold assignRun
  simp only [hget]
  refine ⟨?_, hsame.trans hkeys, ?_⟩
  · rw [hcounts, counts_assign g _ hmem]
    by_cases hother : other = memberID
    · rw [if_pos hother, if_pos hother, hother, give_self]
      omega
    · rw [if_neg hother, if_neg hother, give_of_ne _ hother]
  · rw [hidx]
    change idx + 1 + count = idx + (count + 1)
    omega

theorem runLength_bounds (perMember remainder i : Nat) :
    perMember ≤ runLength perMember remainder i ∧
      runLength perMember remainder i ≤ perMember + 1 := by
  unfold runLength
  split
  · exact ⟨Nat.le_succ _, Nat.le_refl _⟩
  · exact ⟨Nat.le_refl _, Nat.le_succ _⟩

variable {partitions : List Nat} {members : List Bytes}

theorem counts_runs {perMember remainder : Nat} (hdistinct : members.Nodup)
    (i : Nat) {s : ConsumerGroup × Nat}
    (hmembers : members ⊆ s.1.members.map Prod.fst)
    (hidx : s.2 = i * perMember + min i remainder)
    (hroom : (i + members.length) * perMember +
      min (i + members.length) remainder ≤ partitions.length) (other : Bytes) :
    (other ∉ members ->
      ((members.zipIdx i).foldl (fun s e =>
        assignRun partitions e.1 (runLength perMember remainder e.2) s)
          s).1.counts other = s.1.counts other) ∧
      (other ∈ members -> s.1.counts other = 0 ->
        perMember ≤ ((members.zipIdx i).foldl (fun s e =>
          assignRun partitions e.1 (runLength perMember remainder e.2) s)
            s).1.counts other ∧
          ((members.zipIdx i).foldl (fun s e =>
            assignRun partitions e.1 (runLength perMember remainder e.2) s)
              s).1.counts other ≤ perMember + 1) := by
  induction members generalizing i s with
  | nil => exact ⟨fun _ => rfl, fun h => absurd h List.not_mem_nil⟩
  | cons memberID rest ih =>
  rw [List.length_cons, Nat.add_comm rest.length 1, ← Nat.add_assoc]
    at hroom
  have hsum : s.2 + runLength perMember remainder i =
      (i + 1) * perMember + min (i + 1) remainder := by
    rw [hidx]
    exact runLength_sum perMember remainder i
  have hle : (i + 1) * perMember ≤ (i + 1 + rest.length) * perMember :=
    Nat.mul_le_mul_right perMember (Nat.le_add_right _ _)
  rcases counts_assignRun partitions (runLength perMember remainder i)
    (hmembers (List.mem_cons_self ..)) (by rw [hsum]; omega)
    other with ⟨hcounts, hkeys, hnext⟩
  have hrest := ih (List.nodup_cons.mp hdistinct).right (i + 1)
    (s := assignRun partitions memberID (runLength perMember remainder i) s)
    (by
      intro x hx
      rw [hkeys]
      exact hmembers (List.mem_cons_of_mem memberID hx))
    (hnext.trans hsum) hroom
  rw [List.zipIdx_cons, List.foldl_cons]
  constructor
  · intro hother
    rw [List.mem_cons, not_or] at hother
    rw [hrest.left hother.right, hcounts, if_neg hother.left]
  intro hother hzero
  rcases List.mem_cons.mp hother with hfirst | hlater
  · have hout : other ∉ rest := by
      rw [hfirst]
      exact (List.nodup_cons.mp hdistinct).left
    rw [hrest.left hout, hcounts, if_pos hfirst, hzero, Nat.zero_add]
    exact runLength_bounds perMember remainder i
  have hne : other ≠ memberID := by
    intro heq
    rw [heq] at hlater
    exact (List.nodup_cons.mp hdistinct).left hlater
  apply hrest.right hlater
  rw [hcounts, if_neg hne]
  exact hzero

variable {g : ConsumerGroup}

theorem leveled_rebalanceRange (hsome : members ≠ [])
    (hdistinct : members.Nodup)
    (hmembers : members ⊆ g.members.map Prod.fst) :
    Leveled (g.clear.rebalanceRange partitions members).counts members := by
  have hall := runs_length partitions.length (List.length_pos_of_ne_nil hsome)
  have hbounds := fun other => (counts_runs hdistinct 0 (s := (g.clear, 0)) (by
    intro memberID hmem
    rw [g.dealt_clear.keys]
    exact hmembers hmem) (by rw [Nat.zero_mul, Nat.zero_min])
    (Nat.le_of_eq hall) other).right
  intro x y hx hy
  have hmany := (hbounds x hx (g.counts_clear x)).right
  have hfew := (hbounds y hy (g.counts_clear y)).left
  exact Nat.le_trans hmany (Nat.succ_le_succ hfew)

/-!
## Round robin
-/

/-- How many of the first partitions go to the member at a place. -/
def turns (m i j : Nat) : Nat :=
  (i + (m - 1 - j)) / m

theorem turns_succ {m : Nat} (i : Nat) {j : Nat} (hj : j < m) :
    turns m (i + 1) j =
      if j = i % m then turns m i j + 1 else turns m i j := by
  have hmod : i % m < m := Nat.mod_lt i (by omega)
  have hsplit : i + (m - 1 - j) + 1 = m * (i / m) + (i % m + (m - j)) := by
    have hdiv := Nat.div_add_mod i m
    omega
  have hnext : turns m (i + 1) j = (i + (m - 1 - j) + 1) / m := by
    unfold turns
    rw [Nat.add_right_comm]
  rw [hnext, Nat.succ_div]
  by_cases hturn : j = i % m
  · have hdvd : m ∣ i + (m - 1 - j) + 1 := by
      exists i / m + 1
      rw [hsplit, Nat.mul_succ]
      omega
    rw [if_pos hdvd, if_pos hturn]
    rfl
  have hdvd : ¬ m ∣ i + (m - 1 - j) + 1 := by
    rw [hsplit, Nat.dvd_add_right (Nat.dvd_mul_right m _)]
    intro hdvd
    have heq := Nat.eq_of_dvd_of_lt_two_mul (by omega) hdvd (by omega)
    omega
  rw [if_neg hdvd, if_neg hturn]
  rfl

theorem counts_turns (hdistinct : members.Nodup) (partitions : List Nat)
    (i : Nat) (hmembers : members ⊆ g.members.map Prod.fst)
    (hcounts : forall j (hj : j < members.length),
      g.counts members[j] = turns members.length i j) {j : Nat}
    (hj : j < members.length) :
    ((partitions.zipIdx i).foldl (fun g e =>
      g.assign e.1 ((members[e.2 % members.length]?).getD [])) g).counts
        members[j] = turns members.length (i + partitions.length) j := by
  induction partitions generalizing i g with
  | nil => exact hcounts j hj
  | cons partID rest ih =>
  have hturn : i % members.length < members.length :=
    Nat.mod_lt i (by omega)
  have hchosen : (members[i % members.length]?).getD [] =
      members[i % members.length] := by
    rw [List.getElem?_eq_getElem hturn]
    rfl
  rw [List.zipIdx_cons, List.foldl_cons, List.length_cons,
    Nat.add_comm rest.length 1, ← Nat.add_assoc]
  apply ih
  · intro memberID hmem
    rw [keys_assign]
    exact hmembers hmem
  intro k hk
  rw [hchosen, counts_assign g partID
    (hmembers (List.getElem_mem hturn)), turns_succ i hk]
  by_cases hsame : k = i % members.length
  · subst hsame
    rw [if_pos rfl, give_self, hcounts _ hk]
  · have hne : members[k] ≠ members[i % members.length] :=
      fun heq => hsame (hdistinct.getElem_inj_iff.mp heq)
    rw [if_neg hsame, give_of_ne _ hne, hcounts k hk]

theorem leveled_rebalanceRoundRobin (hdistinct : members.Nodup)
    (hmembers : members ⊆ g.members.map Prod.fst) :
    Leveled (g.clear.rebalanceRoundRobin partitions members).counts
      members := by
  have hcounts : forall j (hj : j < members.length),
      (g.clear.rebalanceRoundRobin partitions members).counts members[j] =
        turns members.length (0 + partitions.length) j := by
    intro j hj
    refine counts_turns hdistinct partitions 0 ?_ ?_ hj
    · intro memberID hmem
      rw [g.dealt_clear.keys]
      exact hmembers hmem
    intro k hk
    rw [counts_clear]
    unfold turns
    rw [Nat.div_eq_of_lt (by omega)]
  intro x y hx hy
  rcases List.getElem_of_mem hx with ⟨j, hj, hjx⟩
  rcases List.getElem_of_mem hy with ⟨k, hk, hky⟩
  rw [← hjx, ← hky, hcounts j hj, hcounts k hk]
  unfold turns
  have hpos : 0 < members.length := Nat.zero_lt_of_lt hj
  calc (0 + partitions.length + (members.length - 1 - j)) / members.length
      ≤ (0 + partitions.length + members.length) / members.length :=
        Nat.div_le_div_right (by omega)
    _ = (0 + partitions.length) / members.length + 1 :=
        Nat.add_div_right _ hpos
    _ ≤ (0 + partitions.length + (members.length - 1 - k)) /
          members.length + 1 :=
        Nat.succ_le_succ (Nat.div_le_div_right (Nat.le_add_right _ _))

/-!
## Sticky
-/

theorem memberWithFewest_eq (g : ConsumerGroup) (members : List Bytes) :
    g.memberWithFewest members = (members.argmin g.counts).getD [] := by
  unfold memberWithFewest List.argmin
  refine congrArg Prod.snd (@List.foldl_hom _ _ _
    (fun found : Option Bytes => (found.map g.counts, found.getD []))
    (List.argAux (fun b c => g.counts b < g.counts c)) _ members none ?_)
  intro found x
  cases found with
  | none => rfl
  | some y =>
  show (if g.counts x < g.counts y then _ else _) = _
  by_cases hless : g.counts x < g.counts y
  · rw [if_pos hless]
    simp only [List.argAux, hless, if_true]
    rfl
  · rw [if_neg hless]
    simp only [List.argAux, hless, if_false]

theorem counts_distributed (hsome : members ≠ []) (partitions : List Nat)
    (hmembers : members ⊆ g.members.map Prod.fst) :
    (partitions.foldl (fun g partID =>
      g.assign partID (g.memberWithFewest members)) g).counts =
        giveFewest members partitions.length g.counts := by
  induction partitions generalizing g with
  | nil => rfl
  | cons partID rest ih =>
  rcases exists_fewest hsome g.counts with ⟨x, hx, hmem, _⟩
  have hchosen : g.memberWithFewest members = x := by
    rw [memberWithFewest_eq, hx]
    rfl
  rw [List.foldl_cons, hchosen, ih, List.length_cons,
    giveFewest_succ hx, counts_assign g partID (hmembers hmem)]
  intro memberID hother
  rw [keys_assign]
  exact hmembers hother

theorem counts_keepAssigned (hdistinct : members.Nodup)
    (prev : List (Nat × Bytes)) (partitions : List Nat)
    (hmembers : members ⊆ g.members.map Prod.fst) :
    (forall memberID, memberID ∈ members ->
      (g.keepAssigned partitions members prev).counts memberID =
        g.counts memberID + partitions.countP
          (fun partID => getEntry partID prev = some memberID)) ∧
      (members.map (g.keepAssigned partitions members prev).counts).sum =
        (members.map g.counts).sum +
          partitions.countP (keeps members prev) := by
  induction partitions generalizing g with
  | nil => exact ⟨fun _ _ => rfl, rfl⟩
  | cons partID rest ih =>
  cases hprev : getEntry partID prev with
  | none =>
    have hstep : g.keepAssigned (partID :: rest) members prev =
        g.keepAssigned rest members prev := by
      simp only [keepAssigned, List.foldl_cons, hprev]
    rw [hstep]
    have hkeeps : ¬ keeps members prev partID = true := by
      unfold keeps
      rw [hprev]
      exact Bool.false_ne_true
    rcases ih hmembers with ⟨hcounts, hsum⟩
    constructor
    · intro memberID hmem
      rw [List.countP_cons_of_neg (by simp [hprev])]
      exact hcounts memberID hmem
    · rw [List.countP_cons_of_neg hkeeps]
      exact hsum
  | some prevMember =>
  by_cases hmember : prevMember ∈ members
  · have hkeeps : keeps members prev partID = true := by
      unfold keeps
      rw [hprev]
      exact decide_eq_true hmember
    have hkey := hmembers hmember
    have hstep : g.keepAssigned (partID :: rest) members prev =
        (g.assign partID prevMember).keepAssigned rest members prev := by
      simp only [keepAssigned, List.foldl_cons, hprev, if_pos hmember]
    rw [hstep]
    rcases ih (g := g.assign partID prevMember) (by
      intro memberID hmem
      rw [keys_assign]
      exact hmembers hmem) with ⟨hcounts, hsum⟩
    rw [counts_assign g partID hkey] at hcounts hsum
    constructor
    · intro memberID hmem
      rw [hcounts memberID hmem]
      by_cases hsame : memberID = prevMember
      · rw [List.countP_cons_of_pos (by simp [hprev, hsame]), hsame,
          give_self]
        omega
      · have hne : ¬ prevMember = memberID := fun heq => hsame heq.symm
        rw [List.countP_cons_of_neg (by simp [hprev, hne]),
          give_of_ne _ hsame]
    · rw [hsum, sum_give _ hdistinct hmember,
        List.countP_cons_of_pos hkeeps]
      omega
  · have hkeeps : ¬ keeps members prev partID = true := by
      unfold keeps
      rw [hprev]
      simpa using hmember
    have hstep : g.keepAssigned (partID :: rest) members prev =
        g.keepAssigned rest members prev := by
      simp only [keepAssigned, List.foldl_cons, hprev, if_neg hmember]
    rw [hstep]
    rcases ih hmembers with ⟨hcounts, hsum⟩
    constructor
    · intro memberID hmem
      have hne : ¬ prevMember = memberID := by
        intro heq
        rw [heq] at hmember
        exact hmember hmem
      rw [List.countP_cons_of_neg (by simp [hprev, hne])]
      exact hcounts memberID hmem
    · rw [List.countP_cons_of_neg hkeeps]
      exact hsum

/--
A search finds a member to be found if it picks such members only, and does not
pass one by as long as it has none.
-/
theorem foldl_picks {β : Type} {look : β -> Bytes -> β} {M : β -> Bytes}
    {U : β -> Prop} {R : Bytes -> Prop}
    (hlook : forall b x, R x ∧ M (look b x) = x ∨
      M (look b x) = M b ∧
        (U b -> ¬ R x ∧ U (look b x))) {b : β} (hb : U b)
    (h : exists x, x ∈ members ∧ R x) :
    M (members.foldl look b) ∈ members ∧
      R (M (members.foldl look b)) := by
  have hkeep : forall b x, x ∈ members ->
      M b ∈ members ∧ R (M b) ->
        M (look b x) ∈ members ∧ R (M (look b x)) := by
    intro b x hx hfound
    rcases hlook b x with ⟨hR, hpick⟩ | ⟨hsame, _⟩
    · rw [hpick]
      exact ⟨hx, hR⟩
    · rw [hsame]
      exact hfound
  apply foldl_finds (S := fun b => U b ∨ M b ∈ members ∧ R (M b))
    _ hkeep _ (Or.inl hb) h
  · intro b x hx hsofar
    rcases hsofar with hunset | hfound
    · rcases hlook b x with ⟨hR, hpick⟩ | ⟨_, hpassed⟩
      · rw [hpick]
        exact Or.inr ⟨hx, hR⟩
      · exact Or.inl (hpassed hunset).right
    · exact Or.inr (hkeep b x hx hfound)
  intro b x hx hsofar hR
  rcases hsofar with hunset | hfound
  · rcases hlook b x with ⟨_, hpick⟩ | ⟨_, hpassed⟩
    · rw [hpick]
      exact ⟨hx, hR⟩
    · exact absurd hR (hpassed hunset).left
  · exact hkeep b x hx hfound

theorem look_eq (e : Extremes) (target : Nat) (memberID : Bytes) (cnt : Nat) :
    e.look target memberID cnt =
      Extremes.mk
        (if cnt > target + 1 ∧ cnt > e.overCount then memberID
          else e.overMember)
        (if cnt > target + 1 ∧ cnt > e.overCount then cnt else e.overCount)
        (if cnt < target ∧ cnt < e.underCount then memberID
          else e.underMember)
        (if cnt < target ∧ cnt < e.underCount then cnt else e.underCount) := by
  unfold Extremes.look
  by_cases hunder : cnt < target ∧ cnt < e.underCount
  · have hno : ¬ (cnt > target + 1 ∧ cnt > e.overCount) := by omega
    simp only [if_neg hno, if_pos hunder]
  · by_cases hover : cnt > target + 1 ∧ cnt > e.overCount
    · simp only [if_pos hover, if_neg hunder]
    · simp only [if_neg hover, if_neg hunder]

theorem extremes_over (g : ConsumerGroup) (partitions : List Nat) {target : Nat}
    (h : exists memberID, memberID ∈ members ∧ target + 1 < g.counts memberID) :
    (g.extremes partitions members target).overMember ∈ members ∧
      target + 1 <
        g.counts (g.extremes partitions members target).overMember := by
  apply foldl_picks (M := Extremes.overMember)
    (U := fun e => e.overCount = 0)
    (R := fun memberID => target + 1 < g.counts memberID) _ rfl h
  intro e memberID
  rw [look_eq]
  by_cases hover : g.counts memberID > target + 1 ∧
      g.counts memberID > e.overCount
  · exact Or.inl ⟨hover.left, if_pos hover⟩
  refine Or.inr ⟨if_neg hover, ?_⟩
  intro hzero
  have hfew : ¬ target + 1 < g.counts memberID := by omega
  exact ⟨hfew, (if_neg hover).trans hzero⟩

theorem extremes_under (g : ConsumerGroup) {target : Nat}
    (hle : target ≤ partitions.length)
    (h : exists memberID, memberID ∈ members ∧ g.counts memberID < target) :
    (g.extremes partitions members target).underMember ∈ members ∧
      g.counts (g.extremes partitions members target).underMember <
        target := by
  apply foldl_picks (M := Extremes.underMember)
    (U := fun e => e.underCount = partitions.length + 1)
    (R := fun memberID => g.counts memberID < target) _ rfl h
  intro e memberID
  rw [look_eq]
  by_cases hunder : g.counts memberID < target ∧
      g.counts memberID < e.underCount
  · exact Or.inl ⟨hunder.left, if_pos hunder⟩
  refine Or.inr ⟨if_neg hunder, ?_⟩
  intro hunset
  have hmany : ¬ g.counts memberID < target := by omega
  exact ⟨hmany, (if_neg hunder).trans hunset⟩

/--
What is stolen is as much less for those with too many as it is more for those
with too few, and it is nothing to a member without a name.
-/
theorem stealLoop_counts {g0 : ConsumerGroup} {done : List Nat}
    (partitions : List Nat) (target : Nat) (hdistinct : members.Nodup)
    (hmembers : members ⊆ g0.members.map Prod.fst) (bound : Nat)
    (h : Dealt g0 g done) :
    excess (target + 1) (stealLoop partitions members target bound g).counts
          members + lacking target g.counts members =
        excess (target + 1) g.counts members +
          lacking target (stealLoop partitions members target bound g).counts
            members ∧
      (members.map (stealLoop partitions members target bound g).counts).sum =
        (members.map g.counts).sum ∧
      (stealLoop partitions members target bound g).counts [] =
        g.counts [] := by
  induction bound generalizing g with
  | zero => exact ⟨rfl, rfl, rfl⟩
  | succ bound ih =>
  unfold stealLoop
  have hfound := g.found_extremes partitions members target
  by_cases hend : (g.extremes partitions members target).overMember = [] ∨
      (g.extremes partitions members target).underMember = []
  · simp only [if_pos hend, and_self]
  simp only [if_neg hend]
  push Not at hend
  have hover := hfound.tooMany.resolve_left hend.left
  have hunder := hfound.tooFew.resolve_left hend.right
  have hmany : target + 1 <
      g.counts (g.extremes partitions members target).overMember :=
    hover.right
  have hfew :
      g.counts (g.extremes partitions members target).underMember <
        target := hunder.right
  have hne : (g.extremes partitions members target).overMember ≠
      (g.extremes partitions members target).underMember := by
    intro heq
    rw [heq] at hmany
    omega
  have hoverkey := hmembers hover.left
  have hunderkey := hmembers hunder.left
  rcases ih (h.steal hoverkey hunderkey hne) with
    ⟨hdiff, hsum, hnameless⟩
  rw [← h.keys] at hoverkey hunderkey
  rw [counts_steal hoverkey hunderkey hne (by omega)]
    at hdiff hsum hnameless
  have hless := excess_pass hdistinct hover.left hmany
    (Nat.lt_succ_of_lt hfew)
  have hmore := lacking_pass hdistinct hunder.left
    (Nat.lt_of_succ_lt hmany) hfew
  refine ⟨?_, ?_, ?_⟩
  · omega
  · rw [hsum, sum_pass hdistinct hover.left hunder.left (by omega)]
  · rw [hnameless, pass_of_ne _ hend.left.symm hend.right.symm]

theorem stealLoop_leveled_iff {g0 : ConsumerGroup} {done : List Nat}
    (hsome : members ≠ []) (hdistinct : members.Nodup)
    (hmembers : members ⊆ g0.members.map Prod.fst) (h : Dealt g0 g done)
    (hsum : (members.map g.counts).sum = partitions.length) :
    Leveled (stealLoop partitions members
        (partitions.length / members.length) (partitions.length + 1) g).counts
        members <->
      excess (partitions.length / members.length + 1) g.counts members =
          lacking (partitions.length / members.length) g.counts members ∧
        ([] ∈ members ->
          partitions.length / members.length ≤ g.counts [] ∧
            g.counts [] ≤ partitions.length / members.length + 1) := by
  rcases stealLoop_counts partitions (partitions.length / members.length)
    hdistinct hmembers (partitions.length + 1) h with
    ⟨hdiff, hsame, hnameless⟩
  have hends := @stealLoop_ends g0 done partitions members _ hdistinct hmembers
    _ g h (deficit_lt g partitions members)
  rw [leveled_iff (hsame.trans hsum) hsome]
  constructor
  · rintro ⟨hover, hunder⟩
    constructor
    · omega
    intro hmem
    rw [← hnameless]
    exact ⟨lacking_eq_zero_iff.mp hunder [] hmem,
      excess_eq_zero_iff.mp hover [] hmem⟩
  rintro ⟨hequal, hshare⟩
  -- whoever the loop ended for would be the member without a name
  have hdone : ¬ excess (partitions.length / members.length + 1)
      (stealLoop partitions members (partitions.length / members.length)
        (partitions.length + 1) g).counts members ≠ 0 := by
    intro hmore
    have hless : lacking (partitions.length / members.length)
        (stealLoop partitions members (partitions.length / members.length)
          (partitions.length + 1) g).counts members ≠ 0 := by
      omega
    rw [ne_eq, excess_eq_zero_iff] at hmore
    rw [ne_eq, lacking_eq_zero_iff] at hless
    push Not at hmore hless
    rcases hends with hnone | hnone
    · have hfound := extremes_over _ partitions hmore
      rw [hnone, hnameless] at hfound
      have hbound := (hshare hfound.left).right
      omega
    have hfound := extremes_under _ (Nat.div_le_self _ _) hless
    rw [hnone, hnameless] at hfound
    have hbound := (hshare hfound.left).left
    omega
  omega

/-!
## Rebalancing
-/

theorem memberIDs_nodup (h : (g.members.map Prod.fst).Nodup) :
    g.memberIDs.Nodup :=
  g.memberIDs_perm.nodup_iff.mpr h

theorem memberIDs_nameless (h : [] ∈ g.memberIDs) :
    exists rest, g.memberIDs = [] :: rest := by
  have hsorted : g.memberIDs.Pairwise (· ≤ ·) :=
    List.pairwise_insertionSort _ _
  cases hids : g.memberIDs with
  | nil =>
    rw [hids] at h
    cases h
  | cons x rest =>
  exists rest
  rw [hids] at h hsorted
  rcases List.mem_cons.mp h with hfirst | hlater
  · rw [← hfirst]
  · have hle := (List.pairwise_cons.mp hsorted).left [] hlater
    rw [le_antisymm hle (le_of_not_gt (List.not_lt_nil x))]

theorem unkept_eq :
    ((List.range g.partitionCount).filter (fun partID =>
      (getEntry partID (g.clear.keepAssigned (List.range g.partitionCount)
        g.memberIDs g.assignments).assignments).isNone)).length =
      g.unkept := by
  have hnodup : (List.range g.partitionCount).Nodup := List.nodup_range
  have hkeep := g.dealt_clear.keepAssigned
    (by rw [List.nil_append]; exact hnodup)
    (fun memberID hmem => (mem_memberIDs (g := g)).mp hmem) g.assignments
  unfold unkept
  rw [List.countP_eq_length_filter]
  congr 1
  apply List.filter_congr
  intro partID hpart
  have hunowned := hkeep.unowned partID
  rw [List.nil_append, List.mem_filter] at hunowned
  rw [Bool.eq_iff_iff, Option.isNone_iff_eq_none, Bool.not_eq_true']
  refine hunowned.trans ?_
  simp [hpart]

theorem counts_shared (hsome : g.members ≠ [])
    (hdistinct : (g.members.map Prod.fst).Nodup) :
    exists kept : Bytes -> Nat,
      (forall memberID, memberID ∈ g.memberIDs ->
        kept memberID = g.keptBy memberID) ∧
      (g.memberIDs.map kept).sum + g.unkept = g.partitionCount ∧
      ((g.clear.keepAssigned (List.range g.partitionCount) g.memberIDs
        g.assignments).distribute (List.range g.partitionCount)
          g.memberIDs).counts =
        giveFewest g.memberIDs g.unkept kept := by
  have hclear : forall memberID, memberID ∈ g.memberIDs ->
      memberID ∈ g.clear.members.map Prod.fst := by
    intro memberID hmem
    rw [g.dealt_clear.keys]
    exact mem_memberIDs.mp hmem
  have hkept := counts_keepAssigned (memberIDs_nodup hdistinct) g.assignments
    (List.range g.partitionCount) hclear
  have hnodup : (List.range g.partitionCount).Nodup := List.nodup_range
  have hkeep := g.dealt_clear.keepAssigned
    (by rw [List.nil_append]; exact hnodup)
    (fun memberID hmem => (mem_memberIDs (g := g)).mp hmem) g.assignments
  exists (g.clear.keepAssigned (List.range g.partitionCount) g.memberIDs
    g.assignments).counts
  refine ⟨?_, ?_, ?_⟩
  · intro memberID hmem
    rw [hkept.left memberID hmem, counts_clear, Nat.zero_add]
    rfl
  · have hzero : (g.memberIDs.map g.clear.counts).sum = 0 :=
      sum_map_eq_zero_iff.mpr (fun memberID _ => g.counts_clear memberID)
    have hsplit := List.length_eq_countP_add_countP
      (keeps g.memberIDs g.assignments) (l := List.range g.partitionCount)
    rw [List.length_range] at hsplit
    have hunkept : g.unkept = (List.range g.partitionCount).countP
        (fun partID => ¬ keeps g.memberIDs g.assignments partID = true) := by
      unfold unkept
      congr 1
      funext partID
      cases keeps g.memberIDs g.assignments partID with
      | true => rfl
      | false => rfl
    rw [hkept.right, hzero, Nat.zero_add, hunkept]
    exact hsplit.symm
  · have hshare := counts_distributed (memberIDs_ne_nil hsome)
      ((List.range g.partitionCount).filter (fun partID =>
        (getEntry partID (g.clear.keepAssigned (List.range g.partitionCount)
          g.memberIDs g.assignments).assignments).isNone))
      (g := g.clear.keepAssigned (List.range g.partitionCount) g.memberIDs
        g.assignments) (by
        intro memberID hmem
        rw [hkeep.keys]
        exact mem_memberIDs.mp hmem)
    rw [unkept_eq] at hshare
    exact hshare

theorem leveled_rebalanceSticky_iff (hsome : g.members ≠ [])
    (hdistinct : (g.members.map Prod.fst).Nodup) :
    Leveled (g.clear.rebalanceSticky (List.range g.partitionCount) g.memberIDs
        g.assignments).counts g.memberIDs <-> g.Even := by
  have hids := memberIDs_ne_nil hsome
  have hnodup := memberIDs_nodup hdistinct
  have hpos : 0 < g.memberIDs.length := List.length_pos_of_ne_nil hids
  have hmembers : g.memberIDs ⊆ g.members.map Prod.fst :=
    fun _ hmem => mem_memberIDs.mp hmem
  have hparts : (List.range g.partitionCount).Nodup := List.nodup_range
  rcases g.dealt_clear.shared hparts hids hmembers g.assignments with
    ⟨done, hshared, _⟩
  rcases counts_shared hsome hdistinct with ⟨kept, hkept, hall, hcounts⟩
  have hsum : (g.memberIDs.map ((g.clear.keepAssigned
      (List.range g.partitionCount) g.memberIDs g.assignments).distribute
        (List.range g.partitionCount) g.memberIDs).counts).sum =
      (List.range g.partitionCount).length := by
    rw [hcounts, sum_giveFewest hnodup hids, hall, List.length_range]
  have hsteal := stealLoop_leveled_iff hids hnodup hmembers hshared hsum
  rw [List.length_range] at hsteal
  have hroom : (g.memberIDs.map kept).sum + g.unkept <
      (g.share + 1) * g.memberIDs.length := by
    rw [hall, Nat.mul_comm]
    exact Nat.lt_mul_div_succ g.partitionCount hpos
  have hexcess : excess (g.share + 1) (giveFewest g.memberIDs g.unkept kept)
      g.memberIDs = excess (g.share + 1) g.keptBy g.memberIDs := by
    rw [excess_giveFewest hnodup hids hroom, excess_congr hkept]
  have hlacking (level : Nat) :
      lacking level (giveFewest g.memberIDs g.unkept kept) g.memberIDs =
        lacking level g.keptBy g.memberIDs - g.unkept := by
    rw [lacking_giveFewest hnodup hids, lacking_congr hkept]
  unfold rebalanceSticky
  rw [List.length_range]
  refine hsteal.trans ?_
  rw [hcounts]
  change excess (g.share + 1) _ _ = lacking g.share _ _ ∧
    ([] ∈ g.memberIDs -> g.share ≤ _ ∧ _ ≤ g.share + 1) <-> _
  have hnameless : excess (g.share + 1) g.keptBy g.memberIDs =
      lacking g.share g.keptBy g.memberIDs - g.unkept -> [] ∈ g.memberIDs ->
      (g.share ≤ giveFewest g.memberIDs g.unkept kept [] ∧
          giveFewest g.memberIDs g.unkept kept [] ≤ g.share + 1 <->
        excess (g.share + 1) g.keptBy g.memberIDs = 0 ∨
          g.keptBy [] ≤ g.share + 1 ∧
            (g.share ≤ g.keptBy [] ∨
              lacking (g.share - 1) g.keptBy g.memberIDs < g.unkept)) := by
    intro hequal hmem
    by_cases hzero : excess (g.share + 1) g.keptBy g.memberIDs = 0
    · have hover := excess_eq_zero_iff.mp (hexcess.trans hzero) [] hmem
      have hunder : lacking g.share (giveFewest g.memberIDs g.unkept kept)
          g.memberIDs = 0 := by
        rw [hlacking]
        omega
      exact iff_of_true ⟨lacking_eq_zero_iff.mp hunder [] hmem, hover⟩
        (Or.inl hzero)
    have hfirst : g.share ≤ giveFewest g.memberIDs g.unkept kept [] <->
        g.share ≤ kept [] ∨
          lacking (g.share - 1) kept g.memberIDs < g.unkept := by
      rcases memberIDs_nameless hmem with ⟨rest, hrest⟩
      rw [hrest] at hnodup ⊢
      exact le_giveFewest_first_iff hnodup
    have hbound : g.unkept ≤ lacking g.share kept g.memberIDs := by
      rw [lacking_congr hkept]
      omega
    rw [hfirst, giveFewest_le_iff hnodup hids hbound [] (Nat.le_succ _),
      hkept [] hmem, lacking_congr hkept]
    constructor
    · exact fun h => Or.inr ⟨h.right, h.left⟩
    intro h
    rcases h with hnone | hboth
    · exact absurd hnone hzero
    · exact ⟨hboth.right, hboth.left⟩
  rw [hexcess, hlacking]
  constructor
  · intro h
    exact ⟨h.left, fun hmem => (hnameless h.left hmem).mp (h.right hmem)⟩
  · intro h
    exact ⟨h.stolen, fun hmem =>
      (hnameless h.stolen hmem).mpr (h.nameless hmem)⟩

theorem leveled_reassign_iff (hsome : g.members ≠ [])
    (hdistinct : (g.members.map Prod.fst).Nodup) :
    Leveled g.reassign.counts g.memberIDs <->
      (g.strategy = .sticky -> g.Even) := by
  have hids := memberIDs_ne_nil hsome
  have hnodup := memberIDs_nodup hdistinct
  have hmembers : g.memberIDs ⊆ g.members.map Prod.fst :=
    fun _ hmem => mem_memberIDs.mp hmem
  unfold reassign
  rw [if_neg hsome]
  cases g.strategy with
  | range =>
    apply iff_of_true (leveled_rebalanceRange hids hnodup hmembers)
    intro h
    cases h
  | roundRobin =>
    apply iff_of_true (leveled_rebalanceRoundRobin hnodup hmembers)
    intro h
    cases h
  | sticky =>
  refine (leveled_rebalanceSticky_iff hsome hdistinct).trans ?_
  exact ⟨fun h _ => h, fun h => h rfl⟩

theorem step_rebalance {g' : ConsumerGroup} (h : g.step .rebalance = some g') :
    g' = g.rebalance := by
  unfold ConsumerGroup.step at h
  by_cases hnone : g.pending = 0
  · rw [if_pos hnone] at h
    cases h
  · rw [if_neg hnone] at h
    exact (Option.some.inj h).symm

theorem keys_reassign (g : ConsumerGroup) :
    g.reassign.members.map Prod.fst = g.members.map Prod.fst := by
  by_cases hsome : g.members = []
  · unfold reassign
    rw [if_pos hsome, g.dealt_clear.keys]
  · rcases dealt_reassign hsome with ⟨done, hdealt, _⟩
    exact hdealt.keys

def Distinct (g : ConsumerGroup) : Prop :=
  (g.members.map Prod.fst).Nodup

theorem Distinct.step {g' : ConsumerGroup} (h : g.Distinct) {a : Action}
    (hstep : g.step a = some g') : g'.Distinct := by
  cases a with
  | join memberID now =>
    cases hstep
    exact nodup_keys_setEntry h
  | leave memberID =>
    cases hstep
    exact h.sublist (List.filter_sublist.map Prod.fst)
  | heartbeat memberID now =>
    cases hstep
    unfold Distinct ConsumerGroup.heartbeat
    rw [keys_modifyMember]
    exact h
  | expire now =>
    cases hstep
    unfold ConsumerGroup.expire
    split
    · exact h.sublist (List.filter_sublist.map Prod.fst)
    · exact h
  | rebalance =>
  rw [step_rebalance hstep]
  show (g.reassign.members.map Prod.fst).Nodup
  rw [keys_reassign]
  exact h

/--
Whoever has joined, left or expired before: a rebalance balances the group
exactly if the strategy is not the sticky one, or the group is even enough.
-/
theorem balanced_iff_even (name topic : Bytes) (partitionCount : Nat)
    (strategy : RebalanceStrategy) (offsetStore : OffsetStore)
    {actions : List Action} {g g' : ConsumerGroup}
    (hrun : run? step
      (newConsumerGroup name topic partitionCount strategy offsetStore)
      actions = some g)
    (hstep : g.step .rebalance = some g') :
    g'.Balanced <-> (g.strategy = .sticky -> g.Even) := by
  have hstart : (newConsumerGroup name topic partitionCount strategy
      offsetStore).Distinct := List.nodup_nil
  have hdistinct : g.Distinct :=
    run?_invariant (fun _ _ _ h hone => h.step hone) hstart hrun
  rw [step_rebalance hstep]
  show Leveled g.reassign.counts (g.reassign.members.map Prod.fst) <-> _
  rw [keys_reassign]
  by_cases hsome : g.members = []
  · have hids : g.memberIDs = [] := by
      unfold memberIDs
      rw [hsome]
      rfl
    apply iff_of_true
    · intro x y hx _
      rw [hsome] at hx
      cases hx
    intro _
    constructor
    · rw [hids]
      exact (Nat.zero_sub _).symm
    · rw [hids]
      intro hmem
      cases hmem
  · rw [← leveled_reassign_iff hsome hdistinct]
    have hmem : forall memberID, memberID ∈ g.memberIDs <->
        memberID ∈ g.members.map Prod.fst := fun _ => mem_memberIDs
    unfold Leveled
    simp only [hmem]

def threeJoins : List Action :=
  [.join (ascii "a") 0, .rebalance, .join (ascii "b") 0, .rebalance,
    .join (ascii "c") 0]

def threeMembers (partitionCount : Nat) : ConsumerGroup :=
  (run? step (newConsumerGroup (ascii "g") (ascii "t") partitionCount .sticky
    (OffsetStore.newOffsetStore [])) threeJoins).getD
      (newConsumerGroup (ascii "g") (ascii "t") partitionCount .sticky
        (OffsetStore.newOffsetStore []))

theorem balanced_iff_even_threeMembers :
    run? step (newConsumerGroup (ascii "g") (ascii "t") 8 .sticky
        (OffsetStore.newOffsetStore [])) threeJoins = some (threeMembers 8) ∧
      (threeMembers 8).step .rebalance = some (threeMembers 8).rebalance ∧
      (threeMembers 8).rebalance.members.map
          (fun e => (e.1, e.2.partitions)) =
        [(ascii "a", [0, 1, 2]), (ascii "b", [5, 6, 7]),
          (ascii "c", [4, 3])] ∧
      ((threeMembers 8).rebalance.Balanced <->
        ((threeMembers 8).strategy = .sticky -> (threeMembers 8).Even)) := by
  have hrun : run? step (newConsumerGroup (ascii "g") (ascii "t") 8 .sticky
      (OffsetStore.newOffsetStore [])) threeJoins =
        some (threeMembers 8) := by
    decide +kernel
  have hstep : (threeMembers 8).step .rebalance =
      some (threeMembers 8).rebalance := by
    decide +kernel
  exact ⟨hrun, hstep, by decide +kernel,
    balanced_iff_even (ascii "g") (ascii "t") 8 .sticky
      (OffsetStore.newOffsetStore []) hrun hstep⟩

/-- Of seven partitions the third member gets one, the others keep three. -/
theorem not_balanced_threeMembers :
    run? step (newConsumerGroup (ascii "g") (ascii "t") 7 .sticky
        (OffsetStore.newOffsetStore [])) threeJoins = some (threeMembers 7) ∧
      (threeMembers 7).step .rebalance = some (threeMembers 7).rebalance ∧
      (threeMembers 7).rebalance.members.map
          (fun e => (e.1, e.2.partitions)) =
        [(ascii "a", [0, 1, 2]), (ascii "b", [4, 5, 6]),
          (ascii "c", [3])] ∧
      ¬ (threeMembers 7).rebalance.Balanced := by
  refine ⟨by decide +kernel, by decide +kernel, by decide +kernel, ?_⟩
  intro h
  have hone := h (ascii "a") (ascii "c") (by decide +kernel)
    (by decide +kernel)
  revert hone
  decide +kernel

end ConsumerGroup

end Stream
end ChimeraMQ
