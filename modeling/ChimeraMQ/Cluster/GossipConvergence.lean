import ChimeraMQ.Cluster.Gossip
import Mathlib.Data.List.MinMax

/-!
# When gossip converges

An entry of a list of members counts only if it is of a later incarnation, while
any other message counts with the same incarnation, too.
-/

namespace ChimeraMQ
namespace Cluster

open Foundation

def Latest (updates : List GossipUpdate) (u : GossipUpdate) : Prop :=
  forall w, w ∈ updates -> w.tells.incarnation ≤ u.tells.incarnation

/--
What is said of a known member agrees: the messages of the latest incarnation
say the same, and if there is none, so do the entries.
-/
structure AgreedOn (v : Standing) (updates : List GossipUpdate) : Prop where
  messages : forall u, u ∈ updates -> forall u', u' ∈ updates ->
    ¬ u.IsEntry -> ¬ u'.IsEntry -> v.incarnation ≤ u.tells.incarnation ->
    Latest updates u -> Latest updates u' -> u.tells = u'.tells
  entries : forall u, u ∈ updates -> forall u', u' ∈ updates ->
    v.incarnation < u.tells.incarnation ->
    Latest updates u -> Latest updates u' ->
    u.tells = u'.tells ∨ exists w, w ∈ updates ∧ ¬ w.IsEntry ∧ Latest updates w

/--
What is said of a member that is not known agrees: one of the entries, if any,
is of the latest incarnation, and all of that one say the same.
-/
structure AgreedFirst (updates : List GossipUpdate) : Prop where
  entry : (exists e, e ∈ updates ∧ e.IsEntry) ->
    exists e, e ∈ updates ∧ e.IsEntry ∧ Latest updates e
  same : (exists e, e ∈ updates ∧ e.IsEntry) ->
    forall u, u ∈ updates -> forall u', u' ∈ updates ->
    Latest updates u -> Latest updates u' -> u.tells = u'.tells

/-- What is said of a member agrees, as far as the node heeds it. -/
def Agreed (allowed : Bool) (v : Option Standing)
    (updates : List GossipUpdate) : Prop :=
  match v with
  | none => allowed = true -> AgreedFirst updates
  | some v => AgreedOn v updates

variable {updates : List GossipUpdate} {u : GossipUpdate}

theorem latest_unique {u' : GossipUpdate} (hu : u ∈ updates)
    (hu' : u' ∈ updates) (h : Latest updates u) (h' : Latest updates u') :
    u.tells.incarnation = u'.tells.incarnation :=
  Nat.le_antisymm (h' u hu) (h u' hu')

theorem exists_latest (hsome : updates ≠ []) :
    exists u, u ∈ updates ∧ Latest updates u := by
  cases hmax : updates.argmax (fun u => u.tells.incarnation) with
  | none => exact absurd (List.argmax_eq_none.mp hmax) hsome
  | some u =>
  exists u
  constructor
  · exact List.argmax_mem hmax
  · intro w hw
    exact @List.le_of_mem_argmax _ _ _ (fun u : GossipUpdate =>
      u.tells.incarnation) _ _ _ hw hmax

/-!
## Where a standing comes from
-/

/--
The standing of a known member after some updates: none of them is of a later
incarnation, and it is the old one, or what one of them said.
-/
structure Heard (v : Standing) (past : List GossipUpdate) (w : Standing) :
    Prop where
  old : v.incarnation ≤ w.incarnation
  latest : forall u, u ∈ past -> u.tells.incarnation ≤ w.incarnation
  source : w = v ∨ exists u, u ∈ past ∧ w = u.tells ∧
    (u.IsEntry -> v.incarnation < w.incarnation)
  message : forall u, u ∈ past -> ¬ u.IsEntry ->
    u.tells.incarnation = w.incarnation ->
    exists u', u' ∈ past ∧ ¬ u'.IsEntry ∧ w = u'.tells

theorem Heard.start (v : Standing) : Heard v [] v where
  old := Nat.le_refl _
  latest := by
    intro u hu
    cases hu
  source := Or.inl rfl
  message := by
    intro u hu
    cases hu

variable {v w : Standing}

theorem Heard.beaten {past : List GossipUpdate} (h : Heard v past w)
    (hbeats : u.Beats w) :
    Heard v (past ++ [u]) u.tells := by
  have hle : w.incarnation ≤ u.tells.incarnation := by
    rcases hbeats with hlt | ⟨_, heq⟩
    · exact Nat.le_of_lt hlt
    · exact Nat.le_of_eq heq
  have hmem : u ∈ past ++ [u] :=
    List.mem_append_right past (List.mem_singleton_self u)
  constructor
  · exact Nat.le_trans h.old hle
  · intro x hx
    rcases List.mem_append.mp hx with hpast | hnew
    · exact Nat.le_trans (h.latest x hpast) hle
    · rw [List.mem_singleton.mp hnew]
  · right
    exists u
    constructor
    · exact hmem
    constructor
    · rfl
    intro hentry
    rcases hbeats with hlt | ⟨hno, _⟩
    · exact Nat.lt_of_le_of_lt h.old hlt
    · exact absurd hentry hno
  intro x hx hmessage heq
  rcases hbeats with hlt | ⟨hno, _⟩
  · rcases List.mem_append.mp hx with hpast | hnew
    · have hsmall := Nat.lt_of_le_of_lt (h.latest x hpast) hlt
      exact absurd heq (Nat.ne_of_lt hsmall)
    have hxu := List.mem_singleton.mp hnew
    exists u
    constructor
    · exact hmem
    constructor
    · rw [← hxu]
      exact hmessage
    · rfl
  · exact ⟨u, hmem, hno, rfl⟩

theorem Heard.kept {past : List GossipUpdate} (h : Heard v past w)
    (hbeats : ¬ u.Beats w) :
    Heard v (past ++ [u]) w := by
  have hle : u.tells.incarnation ≤ w.incarnation :=
    Nat.le_of_not_lt (fun hlt => hbeats (Or.inl hlt))
  constructor
  · exact h.old
  · intro x hx
    rcases List.mem_append.mp hx with hpast | hnew
    · exact h.latest x hpast
    · rw [List.mem_singleton.mp hnew]
      exact hle
  · rcases h.source with hold | ⟨x, hx, hw, hentry⟩
    · exact Or.inl hold
    · exact Or.inr ⟨x, List.mem_append_left [u] hx, hw, hentry⟩
  · intro x hx hmessage heq
    rcases List.mem_append.mp hx with hpast | hnew
    · rcases h.message x hpast hmessage heq with ⟨x', hx', hno, hw⟩
      exact ⟨x', List.mem_append_left [u] hx', hno, hw⟩
    · rw [List.mem_singleton.mp hnew] at hmessage heq
      exact absurd (Or.inr ⟨hmessage, heq.symm⟩) hbeats

theorem heard_foldl (allowed : Bool) (v : Standing)
    (arrived : List GossipUpdate) :
    exists w, arrived.foldl (merge allowed) (some v) = some w ∧
      Heard v arrived w := by
  refine @foldl_arrived _ _ (merge allowed) arrived
    (fun past t => exists w, t = some w ∧ Heard v past w) (some v)
    ⟨v, rfl, Heard.start v⟩ ?_ arrived (fun _ hu => hu)
  rintro past t u _ _ ⟨w, rfl, h⟩
  by_cases hbeats : u.Beats w
  · exact ⟨u.tells, if_pos hbeats, h.beaten hbeats⟩
  · exact ⟨w, if_neg hbeats, h.kept hbeats⟩

theorem Heard.le {past : List GossipUpdate} {n : Nat} (h : Heard v past w)
    (hv : v.incarnation ≤ n)
    (hpast : forall u, u ∈ past -> u.tells.incarnation ≤ n) :
    w.incarnation ≤ n := by
  rcases h.source with hold | ⟨u, hu, hw, _⟩
  · rw [hold]
    exact hv
  · rw [hw]
    exact hpast u hu

/-!
## Known members
-/

variable {arrived : List GossipUpdate}

theorem heard_unique {w' : Standing} {arrived' : List GossipUpdate}
    (hagreed : AgreedOn v updates) (hcovers : Covers updates arrived)
    (hcovers' : Covers updates arrived') (h : Heard v arrived w)
    (h' : Heard v arrived' w') : w = w' := by
  have hsub := fun u => (hcovers u).mp
  have hsub' := fun u => (hcovers' u).mp
  have hinc : w.incarnation = w'.incarnation := by
    apply Nat.le_antisymm
    · exact h.le h'.old (fun u hu =>
        h'.latest u ((hcovers' u).mpr (hsub u hu)))
    · exact h'.le h.old (fun u hu =>
        h.latest u ((hcovers u).mpr (hsub' u hu)))
  have hlatest : forall u, w = u.tells -> Latest updates u := by
    intro u hw x hx
    rw [← hw]
    exact h.latest x ((hcovers x).mpr hx)
  have hlatest' : forall u, w' = u.tells -> Latest updates u := by
    intro u hw x hx
    rw [← hw]
    exact h'.latest x ((hcovers' x).mpr hx)
  by_cases hmessage : exists m, m ∈ updates ∧ ¬ m.IsEntry ∧
      m.tells.incarnation = w.incarnation
  · rcases hmessage with ⟨m, hm, hno, heq⟩
    rcases h.message m ((hcovers m).mpr hm) hno heq with ⟨u, hu, hnou, hw⟩
    rcases h'.message m ((hcovers' m).mpr hm) hno (heq.trans hinc) with
      ⟨u', hu', hnou', hw'⟩
    have hold : v.incarnation ≤ u.tells.incarnation := by
      rw [← hw]
      exact h.old
    rw [hw, hw']
    exact hagreed.messages u (hsub u hu) u' (hsub' u' hu') hnou hnou' hold
      (hlatest u hw) (hlatest' u' hw')
  have hentry : forall u, u ∈ updates -> u.tells.incarnation =
      w.incarnation -> u.IsEntry := by
    intro u hu heq
    by_cases hno : u.IsEntry
    · exact hno
    · exact absurd ⟨u, hu, hno, heq⟩ hmessage
  rcases h.source with hold | ⟨u, hu, hw, hlater⟩
  · rcases h'.source with hold' | ⟨u', hu', hw', hlater'⟩
    · rw [hold, hold']
    have heq : u'.tells.incarnation = w.incarnation := by
      rw [hinc, hw']
    have hlt := hlater' (hentry u' (hsub' u' hu') heq)
    rw [← hinc, hold] at hlt
    exact absurd hlt (Nat.lt_irrefl _)
  have heq : u.tells.incarnation = w.incarnation := by rw [hw]
  have hlt := hlater (hentry u (hsub u hu) heq)
  rcases h'.source with hold' | ⟨u', hu', hw', hlater'⟩
  · rw [hinc, hold'] at hlt
    exact absurd hlt (Nat.lt_irrefl _)
  rw [hw] at hlt
  rcases hagreed.entries u (hsub u hu) u' (hsub' u' hu') hlt
    (hlatest u hw) (hlatest' u' hw') with hsame | ⟨x, hx, hno, hlast⟩
  · rw [hw, hw', hsame]
  · have hxw := latest_unique hx (hsub u hu) hlast (hlatest u hw)
    exact absurd ⟨x, hx, hno, hxw.trans heq⟩ hmessage

variable {allowed : Bool}

theorem converges_of_agreedOn (hagreed : AgreedOn v updates) :
    Converges (merge allowed) id (some v) updates := by
  intro arrived arrived' hcovers hcovers'
  rcases heard_foldl allowed v arrived with ⟨w, hw, h⟩
  rcases heard_foldl allowed v arrived' with ⟨w', hw', h'⟩
  rw [hw, hw', heard_unique hagreed hcovers hcovers' h h']

theorem foldl_message_last (hno : ¬ u.IsEntry)
    (hold : v.incarnation ≤ u.tells.incarnation) (hlast : Latest arrived u) :
    (arrived ++ [u]).foldl (merge allowed) (some v) = some u.tells := by
  rcases heard_foldl allowed v arrived with ⟨w, hw, h⟩
  have hle := h.le hold hlast
  have hbeats : u.Beats w := by
    rcases Nat.lt_or_eq_of_le hle with hlt | heq
    · exact Or.inl hlt
    · exact Or.inr ⟨hno, heq⟩
  rw [List.foldl_concat, hw]
  exact if_pos hbeats

theorem foldl_unbeaten (hnone : forall u, u ∈ arrived -> ¬ u.Beats w) :
    arrived.foldl (merge allowed) (some w) = some w := by
  induction arrived with
  | nil => rfl
  | cons u rest ih =>
  rw [List.foldl_cons, merge, if_neg (hnone u (List.mem_cons_self ..))]
  exact ih (fun x hx => hnone x (List.mem_cons_of_mem u hx))

theorem agreedOn_of_converges
    (h : Converges (merge allowed) id (some v) updates) :
    AgreedOn v updates := by
  constructor
  · intro u hu u' hu' hno hno' hold hlast hlast'
    have hsame := h _ _ ((Covers.refl updates).concat hu)
      ((Covers.refl updates).concat hu')
    have hold' : v.incarnation ≤ u'.tells.incarnation := by
      rw [← latest_unique hu hu' hlast hlast']
      exact hold
    rw [foldl_message_last hno hold hlast,
      foldl_message_last hno' hold' hlast'] at hsame
    exact Option.some.inj hsame
  intro u hu u' hu' hlt hlast hlast'
  by_cases hmessage : exists w, w ∈ updates ∧ ¬ w.IsEntry ∧ Latest updates w
  · exact Or.inr hmessage
  left
  have hunbeaten : forall x, x ∈ updates -> v.incarnation <
      x.tells.incarnation -> Latest updates x ->
      (x :: updates).foldl (merge allowed) (some v) = some x.tells := by
    intro x hx hlater hfirst
    have hbeats : x.Beats v := Or.inl hlater
    rw [List.foldl_cons, merge, if_pos hbeats]
    apply foldl_unbeaten
    rintro y hy (hlater' | ⟨hno, heq⟩)
    · exact absurd (hfirst y hy) (Nat.not_le_of_lt hlater')
    apply hmessage
    exists y
    constructor
    · exact hy
    constructor
    · exact hno
    · intro z hz
      rw [← heq]
      exact hfirst z hz
  have hlt' : v.incarnation < u'.tells.incarnation := by
    rw [← latest_unique hu hu' hlast hlast']
    exact hlt
  have hsame := h _ _ ((Covers.refl updates).cons hu)
    ((Covers.refl updates).cons hu')
  rw [hunbeaten u hu hlt hlast, hunbeaten u' hu' hlt' hlast'] at hsame
  exact Option.some.inj hsame

/-!
## Members that are not known
-/

theorem foldl_unknown
    (hnone : forall u, u ∈ arrived -> ¬ (u.IsEntry ∧ allowed = true)) :
    arrived.foldl (merge allowed) none = none := by
  induction arrived with
  | nil => rfl
  | cons u rest ih =>
  rw [List.foldl_cons, merge, if_neg (hnone u (List.mem_cons_self ..))]
  exact ih (fun x hx => hnone x (List.mem_cons_of_mem u hx))

/--
The standing of a member that was not known: no entry is of a later
incarnation, and one of the updates has said it.
-/
structure Met (past : List GossipUpdate) (w : Standing) : Prop where
  latest : forall e, e ∈ past -> e.IsEntry ->
    e.tells.incarnation ≤ w.incarnation
  source : exists u, u ∈ past ∧ w = u.tells

theorem met_foldl (arrived : List GossipUpdate) :
    (arrived.foldl (merge true) none = none ∧
        forall u, u ∈ arrived -> ¬ u.IsEntry) ∨
      exists w, arrived.foldl (merge true) none = some w ∧ Met arrived w := by
  refine @foldl_arrived _ _ (merge true) arrived
    (fun past t => (t = none ∧ forall u, u ∈ past -> ¬ u.IsEntry) ∨
      exists w, t = some w ∧ Met past w) none ?_ ?_ arrived (fun _ hu => hu)
  · left
    constructor
    · rfl
    · intro u hu
      cases hu
  intro past t u _ _ h
  have hmem : u ∈ past ++ [u] :=
    List.mem_append_right past (List.mem_singleton_self u)
  rcases h with ⟨rfl, hno⟩ | ⟨w, rfl, hmet⟩
  · by_cases hentry : u.IsEntry
    · right
      exists u.tells
      constructor
      · exact if_pos ⟨hentry, rfl⟩
      constructor
      · intro e he hisentry
        rcases List.mem_append.mp he with hpast | hnew
        · exact absurd hisentry (hno e hpast)
        · rw [List.mem_singleton.mp hnew]
      · exact ⟨u, hmem, rfl⟩
    left
    constructor
    · exact if_neg (fun h => hentry h.left)
    intro e he
    rcases List.mem_append.mp he with hpast | hnew
    · exact hno e hpast
    · rw [List.mem_singleton.mp hnew]
      exact hentry
  right
  by_cases hbeats : u.Beats w
  · have hle : w.incarnation ≤ u.tells.incarnation := by
      rcases hbeats with hlt | ⟨_, heq⟩
      · exact Nat.le_of_lt hlt
      · exact Nat.le_of_eq heq
    exists u.tells
    constructor
    · exact if_pos hbeats
    constructor
    · intro e he hisentry
      rcases List.mem_append.mp he with hpast | hnew
      · exact Nat.le_trans (hmet.latest e hpast hisentry) hle
      · rw [List.mem_singleton.mp hnew]
    · exact ⟨u, hmem, rfl⟩
  exists w
  constructor
  · exact if_neg hbeats
  constructor
  · intro e he hisentry
    rcases List.mem_append.mp he with hpast | hnew
    · exact hmet.latest e hpast hisentry
    · rw [List.mem_singleton.mp hnew]
      exact Nat.le_of_not_lt (fun hlt => hbeats (Or.inl hlt))
  · rcases hmet.source with ⟨x, hx, hw⟩
    exact ⟨x, List.mem_append_left [u] hx, hw⟩

theorem converges_of_agreedFirst (hagreed : AgreedFirst updates) :
    Converges (merge true) id none updates := by
  by_cases hsome : exists e, e ∈ updates ∧ e.IsEntry
  · rcases hagreed.entry hsome with ⟨e, he, hentry, hlast⟩
    have hreach : forall arrived, Covers updates arrived ->
        arrived.foldl (merge true) none = some e.tells := by
      intro arrived hcovers
      have hearrived := (hcovers e).mpr he
      rcases met_foldl arrived with ⟨_, hno⟩ | ⟨w, hw, hmet⟩
      · exact absurd hentry (hno e hearrived)
      rcases hmet.source with ⟨u, hu, hwu⟩
      have hle := hmet.latest e hearrived hentry
      have hulast : Latest updates u := by
        intro x hx
        rw [← hwu]
        exact Nat.le_trans (hlast x hx) hle
      rw [hw, hwu, hagreed.same hsome u ((hcovers u).mp hu) e he hulast
        hlast]
    intro arrived arrived' hcovers hcovers'
    rw [hreach arrived hcovers, hreach arrived' hcovers']
  · have hreach : forall arrived, Covers updates arrived ->
        arrived.foldl (merge true) none = none := by
      intro arrived hcovers
      apply foldl_unknown
      rintro u hu ⟨hentry, _⟩
      exact hsome ⟨u, (hcovers u).mp hu, hentry⟩
    intro arrived arrived' hcovers hcovers'
    rw [hreach arrived hcovers, hreach arrived' hcovers']

theorem foldl_messages (updates : List GossipUpdate) :
    (updates.filter (fun u => decide (¬ u.IsEntry))).foldl (merge true) none =
      none := by
  apply foldl_unknown
  rintro u hu ⟨hentry, _⟩
  exact of_decide_eq_true (List.mem_filter.mp hu).right hentry

theorem covers_messages_entries (updates : List GossipUpdate) :
    Covers updates (updates.filter (fun u => decide (¬ u.IsEntry)) ++
      updates.filter (fun u => !decide (¬ u.IsEntry))) :=
  covers_filter_append updates _

theorem exists_arrival {e : GossipUpdate} (he : e ∈ updates)
    (hentry : e.IsEntry) (hu : u ∈ updates) (hlast : Latest updates u) :
    exists arrived, Covers updates arrived ∧
      arrived.foldl (merge true) none = some u.tells := by
  by_cases hisentry : u.IsEntry
  · -- an entry that comes first after the messages is not beaten any more
    exists updates.filter (fun u => decide (¬ u.IsEntry)) ++
      u :: updates.filter (fun u => !decide (¬ u.IsEntry))
    constructor
    · intro x
      have hcovers := fun y => covers_messages_entries updates y
      simp only [List.mem_append] at hcovers
      rw [List.mem_append, List.mem_cons, ← hcovers x]
      constructor
      · rintro (hx | hx | hx)
        · exact Or.inl hx
        · rw [hx]
          exact (hcovers u).mpr hu
        · exact Or.inr hx
      · rintro (hx | hx)
        · exact Or.inl hx
        · exact Or.inr (Or.inr hx)
    · rw [List.foldl_append, foldl_messages, List.foldl_cons, merge,
        if_pos ⟨hisentry, rfl⟩]
      apply foldl_unbeaten
      rintro x hx (hlater | ⟨hno, _⟩)
      · have hxmem := (List.mem_filter.mp hx).left
        exact absurd (hlast x hxmem) (Nat.not_le_of_lt hlater)
      · have hxentry := (List.mem_filter.mp hx).right
        simp only [decide_not, Bool.not_not, decide_eq_true_eq] at hxentry
        exact hno hxentry
  · -- a message that comes last beats what was known
    exists e :: updates ++ [u]
    constructor
    · exact ((Covers.refl updates).cons he).concat hu
    · rw [List.cons_append, List.foldl_cons, merge, if_pos ⟨hentry, rfl⟩]
      exact foldl_message_last hisentry (hlast e he) hlast

theorem agreedFirst_of_converges (h : Converges (merge true) id none updates) :
    AgreedFirst updates := by
  constructor
  · rintro ⟨e, he, hentry⟩
    rcases exists_latest (List.ne_nil_of_mem he) with ⟨u, hu, hlast⟩
    rcases exists_arrival he hentry hu hlast with ⟨arrived, hcovers, hreach⟩
    have hsame := h _ _ (covers_messages_entries updates) hcovers
    rw [hreach, List.foldl_append, foldl_messages] at hsame
    rcases met_foldl (updates.filter (fun u => !decide (¬ u.IsEntry))) with
      ⟨hnone, _⟩ | ⟨w, hw, hmet⟩
    · rw [hnone] at hsame
      cases hsame
    rcases hmet.source with ⟨x, hx, hwx⟩
    rw [hw] at hsame
    have htells : u.tells = x.tells := by
      rw [← hwx]
      exact (Option.some.inj hsame).symm
    have hxentry := (List.mem_filter.mp hx).right
    simp only [decide_not, Bool.not_not, decide_eq_true_eq] at hxentry
    exists x
    constructor
    · exact (List.mem_filter.mp hx).left
    constructor
    · exact hxentry
    · intro y hy
      rw [← htells]
      exact hlast y hy
  · rintro ⟨e, he, hentry⟩ u hu u' hu' hlast hlast'
    rcases exists_arrival he hentry hu hlast with ⟨arrived, hcovers, hreach⟩
    rcases exists_arrival he hentry hu' hlast' with
      ⟨arrived', hcovers', hreach'⟩
    have hsame := h arrived arrived' hcovers hcovers'
    rw [hreach, hreach'] at hsame
    exact Option.some.inj hsame

/-!
## The nodes of the cluster
-/

theorem merge_converges_iff (allowed : Bool) (v : Option Standing)
    (updates : List GossipUpdate) :
    Converges (merge allowed) id v updates <-> Agreed allowed v updates := by
  cases v with
  | none =>
    cases allowed with
    | false =>
      constructor
      · intro _ h
        cases h
      intro _ arrived arrived' _ _
      have hnone : forall u : GossipUpdate,
          ¬ (u.IsEntry ∧ false = true) :=
        fun u h => by cases h.right
      rw [foldl_unknown (fun u _ => hnone u),
        foldl_unknown (fun u _ => hnone u)]
    | true =>
    constructor
    · exact fun h _ => agreedFirst_of_converges h
    · exact fun h => converges_of_agreedFirst (h rfl)
  | some v =>
  constructor
  · exact agreedOn_of_converges
  · exact converges_of_agreedOn

/--
The standing of another node does not depend on the order and the repetitions
of the updates about it just when they agree.
-/
theorem standing_converges_iff {s : SWIM} {id : Bytes}
    (hremote : id ≠ s.nodeID) {updates : List GossipUpdate}
    (habout : forall u, u ∈ updates -> u.id = id) :
    Converges SWIM.handle (fun t => t.standing id) s updates <->
      Agreed (decide (s.Allows id)) (s.standing id) updates := by
  have hview := @converges_view_iff _ _ _ SWIM.handle
    (fun t : SWIM => t.standing id) (merge (decide (s.Allows id))) s updates
    (fun t => t.nodeID = s.nodeID ∧ t.allowedNodes = s.allowedNodes)
    ⟨rfl, rfl⟩
    (fun t u _ h => ⟨(handle_settings t u).left.trans h.left,
      (handle_settings t u).right.trans h.right⟩)
    (by
      intro t u hu h
      have hid := habout u hu
      have hallows : t.Allows id = s.Allows id := by
        unfold SWIM.Allows
        rw [h.right]
      have hne : u.id ≠ t.nodeID := by
        rw [hid, h.left]
        exact hremote
      have hhandle := standing_handle hne
      rw [hid] at hhandle
      rw [hhandle]
      simp only [hallows])
  exact hview.trans (merge_converges_iff _ _ _)

def pairOfNodes : SWIM where
  nodeID := ascii "node-1"
  allowedNodes := []
  members :=
    [(ascii "node-2", ⟨ascii "node-2", ascii "10.0.0.2", 7946, .alive, 1⟩)]

/-- What is said of the second node, in the order in which it is said. -/
def rumours : List GossipUpdate :=
  [.suspect (ascii "node-2") 1, .alive (ascii "node-2") 2,
    .member ⟨ascii "node-2", ascii "10.0.0.2", 7946, .alive, 2⟩,
    .suspect (ascii "node-2") 3]

/-- In whatever order it is heard, the node is suspected in the end. -/
theorem converges_rumours :
    Converges SWIM.handle (fun t => t.standing (ascii "node-2")) pairOfNodes
        rumours ∧
      forall arrived, Covers rumours arrived ->
        (arrived.foldl SWIM.handle pairOfNodes).standing (ascii "node-2") =
          some ⟨.suspect, 3⟩ := by
  have hagreed : AgreedOn ⟨.alive, 1⟩ rumours := by
    constructor
    · unfold Latest
      decide +kernel
    · unfold Latest
      decide +kernel
  have hconverges := (@standing_converges_iff pairOfNodes (ascii "node-2")
    (by decide) rumours (by decide)).mpr hagreed
  refine ⟨hconverges, fun arrived hcovers => ?_⟩
  have hsame := hconverges arrived rumours hcovers (Covers.refl rumours)
  have hinOrder : (rumours.foldl SWIM.handle pairOfNodes).standing
      (ascii "node-2") = some ⟨.suspect, 3⟩ := by
    decide +kernel
  exact hsame.trans hinOrder

/-- A suspicion and its refutation in one incarnation do not converge. -/
theorem not_converges_sameIncarnation :
    ¬ forall (s : SWIM) (id : Bytes) (updates : List GossipUpdate),
      id ≠ s.nodeID -> (forall u, u ∈ updates -> u.id = id) ->
      Converges SWIM.handle (fun t => t.standing id) s updates := by
  intro h
  have hsame := h pairOfNodes (ascii "node-2")
    [.suspect (ascii "node-2") 1, .alive (ascii "node-2") 1] (by decide)
    (by decide)
    [.suspect (ascii "node-2") 1, .alive (ascii "node-2") 1]
    [.alive (ascii "node-2") 1, .suspect (ascii "node-2") 1]
    (Covers.refl _) (by
      intro u
      simp only [List.mem_cons, List.not_mem_nil, or_false]
      exact or_comm)
  revert hsame
  decide

end Cluster
end ChimeraMQ
