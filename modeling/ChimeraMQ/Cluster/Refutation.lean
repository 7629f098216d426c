import ChimeraMQ.Cluster.GossipNode

/-!
# Suspicion and refutation

A member that has been suspected for too long is to be taken for dead, and a
node that hears of its own suspicion or death is to refute it.  Both depend on
incarnations: death is told with incarnation zero, and a refutation with the
next incarnation of the node, whatever the rumour was told with.
-/

namespace ChimeraMQ
namespace Gossip

open Foundation
open Cluster (MemberState)

namespace SWIM

/-!
## Suspicion
-/

/-- The check leaves every member dead that has been suspected for too long. -/
def BuriesOverdue (s : SWIM) (now : Int) (order : MapOrder (Bytes × Member)) :
    Prop :=
  forall id m, getEntry id s.members = some m -> s.Overdue now m ->
    exists m', getEntry id (s.checkSuspicions now order).members = some m' ∧
      m'.state = .dead

def SuspicionKills (s : SWIM) : Action -> Prop
  | .checkSuspicions now order => s.BuriesOverdue now order
  | .merge _ _ | .dispatch _ _ _ | .probe _ _ _ | .remove _ _ => True

def OverdueAtZero (s : SWIM) : Action -> Prop
  | .checkSuspicions now _ =>
    forall id m, getEntry id s.members = some m -> s.Overdue now m ->
      m.incarnation = 0
  | .merge _ _ | .dispatch _ _ _ | .probe _ _ _ | .remove _ _ => True

def bury (now : Int) (m : Member) : Member :=
  if m.incarnation = 0 then { m with state := .dead, lastSeen := now } else m

theorem bury_bury (now : Int) (m : Member) :
    bury now (bury now m) = bury now m := by
  unfold bury
  by_cases hzero : m.incarnation = 0
  · simp only [hzero, if_true]
  · simp only [if_neg hzero]

theorem getEntry_markDead (s : SWIM) (now : Int) (id j : Bytes) :
    getEntry j (s.markDead now id).members =
      if j = id then (getEntry j s.members).map (bury now)
      else getEntry j s.members := by
  unfold markDead setState
  cases hget : getEntry id s.members with
  | none =>
    by_cases hsame : j = id
    · rw [if_pos hsame, hsame, hget]
      rfl
    · rw [if_neg hsame]
  | some m =>
  have hzero : (0 : UInt64) ≥ m.incarnation <-> m.incarnation = 0 :=
    UInt64.le_zero_iff
  simp only [hzero]
  by_cases hsame : j = id
  · rw [if_pos hsame, hsame, hget, Option.map_some, bury]
    split
    · rename_i hinc
      rw [getEntry_setEntry, ← hinc]
    · exact hget
  rw [if_neg hsame]
  split
  · exact getEntry_setEntry_ne hsame _ _
  · rfl

theorem getEntry_markDead_foldl (s : SWIM) (now : Int) (found : List Member)
    (t : SWIM) (j : Bytes) :
    getEntry j (found.foldl (fun t m =>
        if s.Overdue now m then t.markDead now m.id else t) t).members =
      if exists m, m ∈ found ∧ m.id = j ∧ s.Overdue now m then
        (getEntry j t.members).map (bury now)
      else getEntry j t.members := by
  induction found generalizing t with
  | nil => simp
  | cons m found ih =>
  rw [List.foldl_cons, ih]
  by_cases hmarked : m.id = j ∧ s.Overdue now m
  · have hsome : exists x, x ∈ m :: found ∧ x.id = j ∧ s.Overdue now x :=
      ⟨m, List.mem_cons_self, hmarked⟩
    rw [if_pos hmarked.2, if_pos hsome, getEntry_markDead,
      if_pos hmarked.1.symm, Option.map_map]
    have hburied : bury now ∘ bury now = bury now :=
      funext (bury_bury now)
    rw [hburied, ite_self]
  have hkept : getEntry j
      (if s.Overdue now m then t.markDead now m.id else t).members =
        getEntry j t.members := by
    split
    · rename_i hover
      rw [getEntry_markDead, if_neg]
      exact fun hsame => hmarked ⟨hsame.symm, hover⟩
    · rfl
  have hrest : (exists x, x ∈ m :: found ∧ x.id = j ∧ s.Overdue now x) <->
      exists x, x ∈ found ∧ x.id = j ∧ s.Overdue now x := by
    simp [hmarked]
  simp only [hkept, hrest]

theorem getEntry_checkSuspicions {s : SWIM} (h : Sound s) (now : Int)
    (order : MapOrder (Bytes × Member)) {id : Bytes} {m : Member}
    (hget : getEntry id s.members = some m) (hover : s.Overdue now m) :
    getEntry id (s.checkSuspicions now order).members =
      if id = s.cfg.nodeID then some m else some (bury now m) := by
  have hid := h.id_of_getEntry hget
  unfold checkSuspicions
  rw [getEntry_markDead_foldl, hget, Option.map_some]
  by_cases hself : id = s.cfg.nodeID
  · rw [if_pos hself, if_neg]
    rintro ⟨x, hx, hxid, -⟩
    exact of_decide_eq_true (List.mem_filter.mp hx).2 (hxid.trans hself)
  rw [if_neg hself, if_pos]
  refine ⟨m, List.mem_filter.mpr ⟨?_, decide_eq_true ?_⟩, hid, hover⟩
  · exact List.mem_map.mpr ⟨(id, m),
      (order.perm s.members).mem_iff.mpr (mem_of_getEntry hget), rfl⟩
  · rw [hid]
    exact hself

theorem buriesOverdue_iff {s : SWIM} (h : Sound s) (now : Int)
    (order : MapOrder (Bytes × Member)) :
    s.BuriesOverdue now order <->
      forall id m, getEntry id s.members = some m -> s.Overdue now m ->
        m.incarnation = 0 := by
  refine forall_congr' (fun id => forall_congr' (fun m => forall_congr'
    (fun hget => forall_congr' (fun hover => ?_))))
  rw [getEntry_checkSuspicions h now order hget hover]
  constructor
  · rintro ⟨m', hm', hdead⟩
    by_contra hlater
    have hsame : m' = m := by
      unfold bury at hm'
      rw [if_neg hlater, ite_self] at hm'
      exact (Option.some.inj hm').symm
    rw [hsame, hover.1] at hdead
    cases hdead
  intro hzero
  have hother : id ≠ s.cfg.nodeID := by
    intro hself
    rcases h.known with ⟨own, hown, hsuspect⟩
    rw [← hself, hget] at hown
    cases hown
    exact hsuspect hover.1 hzero
  rw [if_neg hother]
  refine ⟨bury now m, rfl, ?_⟩
  unfold bury
  rw [if_pos hzero]

/--
Suspicion leads to death in every step of a run exactly if nobody is suspected
for too long who has an incarnation other than zero.
-/
theorem meets_suspicionKills_iff (cfg : Config) (now : Int)
    (actions : List Action) :
    Meets step SuspicionKills (newSWIM cfg now) actions <->
      Meets step OverdueAtZero (newSWIM cfg now) actions := by
  refine meets_iff_of_invariant sound_step ?_ (sound_newSWIM cfg now)
  intro s a h
  cases a with
  | checkSuspicions now order => exact buriesOverdue_iff h now order
  | merge now m => exact Iff.rfl
  | dispatch now addr msg => exact Iff.rfl
  | probe now target reached => exact Iff.rfl
  | remove now timer => exact Iff.rfl

end SWIM

def patientConfig : Config where
  nodeID := ascii "a"
  bindAddr := ascii "10.0.0.1"
  bindPort := 7946
  suspicionTimeout := 5000000000
  allowedNodes := []

def suspectedActions : List SWIM.Action :=
  [.merge 0
      { id := ascii "b"
        addr := ascii "10.0.0.2"
        port := 7946
        state := .alive
        incarnation := 1 },
    .dispatch 0 (ascii "10.0.0.3:7946")
      { type := .suspect
        senderID := ascii "c"
        incarnation := 1
        targetID := ascii "b"
        targetAddr := []
        members := [] },
    .checkSuspicions 60000000000 (.listed _)]

/-- The member stays suspected for good. -/
theorem not_suspicionKills_laterIncarnation :
    ¬ Meets SWIM.step SWIM.SuspicionKills (newSWIM patientConfig 0)
      suspectedActions := by
  rintro ⟨-, h⟩
  rcases h _ rfl with ⟨-, h⟩
  rcases h _ rfl with ⟨hburies, -⟩
  rcases hburies (ascii "b")
      { id := ascii "b"
        addr := ascii "10.0.0.2"
        port := 7946
        state := .suspect
        incarnation := 1
        lastSeen := 0 } (by decide +kernel) (by decide +kernel) with
    ⟨m', hm', hdead⟩
  have hstate : ((getEntry (ascii "b") _).map Member.state) = some _ :=
    congrArg (Option.map Member.state) hm'
  rw [hdead] at hstate
  revert hstate
  decide +kernel

namespace SWIM

/-!
## Refutation
-/

def KeepsAlive (s t : SWIM) : Prop :=
  getEntry s.cfg.nodeID t.members = getEntry s.cfg.nodeID s.members ∨
    exists m, getEntry s.cfg.nodeID t.members = some m ∧ m.state = .alive

/-- The message tells the suspicion or the death of the node itself. -/
def Rumour (s : SWIM) (msg : Message) : Prop :=
  (msg.type = .suspect ∨ msg.type = .dead) ∧ msg.targetID = s.cfg.nodeID

instance (s : SWIM) (msg : Message) : Decidable (s.Rumour msg) :=
  inferInstanceAs (Decidable (_ ∧ _))

/-- Whoever has recorded a rumour of the node takes it for alive again. -/
def Convinces (s : SWIM) (incarnation : UInt64) (reply : Message) : Prop :=
  forall (r : SWIM) (m : Member), r.cfg.nodeID ≠ s.cfg.nodeID ->
    getEntry s.cfg.nodeID r.members = some m ->
    m.state = .suspect ∨ m.state = .dead -> m.incarnation = incarnation ->
    forall now addr, exists m',
      getEntry s.cfg.nodeID (r.handleMessage now addr reply).1.members =
        some m' ∧ m'.state = .alive

structure Refutes (s : SWIM) (msg reply : Message) : Prop where
  alive : reply.type = .alive
  later : msg.incarnation < reply.incarnation
  convinces : s.Convinces msg.incarnation reply

def RefutationWins (s : SWIM) : Action -> Prop
  | .merge now m => s.KeepsAlive (s.mergeMember now m)
  | .dispatch now addr msg =>
    s.KeepsAlive (s.dispatch now addr msg).1 ∧
      (s.Rumour msg -> forall e, e ∈ (s.dispatch now addr msg).2 ->
        s.Refutes msg e.2)
  | .probe _ _ _ | .checkSuspicions _ _ | .remove _ _ => True

/--
Entries of a later incarnation of the node tell that it is alive, and rumours
are not of a later one, nor is it the last.
-/
def KnowsItself (s : SWIM) : Action -> Prop
  | .merge _ m =>
    m.id = s.cfg.nodeID -> s.localIncarnation < m.incarnation ->
      m.state = .alive
  | .dispatch _ _ msg =>
    s.Rumour msg -> s.aliveMembers ≠ [] ->
      msg.incarnation ≤ s.localIncarnation ∧
        s.localIncarnation ≠ 18446744073709551615
  | .probe _ _ _ | .checkSuspicions _ _ | .remove _ _ => True

theorem keepsAlive_setState (s : SWIM) (now : Int) {id : Bytes}
    {state : MemberState} (incarnation : UInt64)
    (hown : id = s.cfg.nodeID -> state = .alive) :
    s.KeepsAlive (s.setState now id state incarnation) := by
  unfold KeepsAlive setState
  cases getEntry id s.members with
  | none => exact Or.inl rfl
  | some m =>
  simp only
  split
  · by_cases hself : id = s.cfg.nodeID
    · rw [hself, getEntry_setEntry]
      exact Or.inr ⟨_, rfl, hown hself⟩
    · exact Or.inl (getEntry_setEntry_ne (Ne.symm hself) _ _)
  · exact Or.inl rfl

variable {s : SWIM}

theorem keepsAlive_refuteTo (h : Sound s) (now : Int) :
    s.KeepsAlive (s.refuteTo now).1 := by
  rcases h.known with ⟨m, hget, -⟩
  unfold KeepsAlive refuteTo refute
  simp only [hget]
  rw [getEntry_setEntry]
  exact Or.inr ⟨_, rfl, rfl⟩

theorem keepsAlive_dispatch (h : Sound s) (now : Int) (addr : Bytes)
    (msg : Message) :
    s.KeepsAlive (s.dispatch now addr msg).1 := by
  have halive : s.KeepsAlive
      (s.setState now msg.senderID .alive msg.incarnation) :=
    s.keepsAlive_setState now _ (fun _ => rfl)
  unfold dispatch
  cases msg.type with
  | ping => exact halive
  | ack => exact halive
  | pingReq => exact Or.inl rfl
  | suspect =>
    simp only [handleSuspect]
    split
    · exact keepsAlive_refuteTo h now
    rename_i hother
    split
    · exact Or.inl rfl
    · split
      · exact s.keepsAlive_setState now _ (fun hself => absurd hself hother)
      · exact Or.inl rfl
  | alive =>
    simp only [handleAlive_eq_setState]
    exact halive
  | dead =>
    simp only [handleDead]
    split
    · exact keepsAlive_refuteTo h now
    · rename_i hother
      exact s.keepsAlive_setState now 0 (fun hself => absurd hself hother)
  | sync => exact Or.inl rfl

theorem localIncarnation_eq {m : Member}
    (hget : getEntry s.cfg.nodeID s.members = some m) :
    s.localIncarnation = m.incarnation := by
  unfold localIncarnation
  rw [hget]
  rfl

theorem keepsAlive_mergeMember_iff (h : Sound s) (now : Int) (m : MemberMsg) :
    s.KeepsAlive (s.mergeMember now m) <->
      (m.id = s.cfg.nodeID -> s.localIncarnation < m.incarnation ->
        m.state = .alive) := by
  rcases h.known with ⟨own, hown, -⟩
  unfold mergeMember
  by_cases hself : m.id = s.cfg.nodeID
  · rw [localIncarnation_eq hown]
    simp only [hself, hown, gt_iff_lt, true_implies]
    by_cases hlater : own.incarnation < m.incarnation
    · have hset : (s.setState now s.cfg.nodeID m.state m.incarnation).members =
          setEntry s.cfg.nodeID
            { own with
              state := m.state
              incarnation := m.incarnation
              lastSeen := now } s.members := by
        unfold setState
        rw [hown]
        simp only [ge_iff_le, UInt64.le_of_lt hlater, if_true]
      unfold KeepsAlive
      rw [if_pos hlater, hset, getEntry_setEntry, hown]
      constructor
      · rintro (hsame | ⟨m', hm', halive⟩) _
        · have hinc := congrArg Member.incarnation (Option.some.inj hsame)
          exact absurd hlater (hinc ▸ UInt64.lt_irrefl m.incarnation)
        · rw [← Option.some.inj hm'] at halive
          exact halive
      · intro halive
        exact Or.inr ⟨_, rfl, halive hlater⟩
    · rw [if_neg hlater]
      exact ⟨fun _ hlt => absurd hlt hlater, fun _ => Or.inl rfl⟩
  · refine ⟨fun _ hsame => absurd hsame hself, fun _ => ?_⟩
    cases getEntry m.id s.members with
    | none =>
      simp only
      split
      · exact Or.inl (getEntry_setEntry_ne (Ne.symm hself) _ _)
      · exact Or.inl rfl
    | some existing =>
    simp only
    split
    · exact s.keepsAlive_setState now _ (fun hsame => absurd hsame hself)
    · exact Or.inl rfl

theorem lt_add_one_iff (i n : UInt64) :
    i < n + 1 <-> i ≤ n ∧ n ≠ 18446744073709551615 := by
  have hn := n.toNat_lt
  have hlast : n = 18446744073709551615 <->
      n.toNat = 18446744073709551615 := by
    rw [← UInt64.toNat_inj]
    rfl
  rw [UInt64.lt_iff_toNat_lt, UInt64.toNat_add, UInt64.le_iff_toNat_le, ne_eq,
    hlast]
  change i.toNat < (n.toNat + 1) % 2 ^ 64 <-> _
  omega

theorem dispatch_of_rumour {msg : Message} (h : s.Rumour msg) (now : Int)
    (addr : Bytes) : s.dispatch now addr msg = s.refuteTo now := by
  rcases h with ⟨htype | htype, htarget⟩
  · unfold dispatch handleSuspect
    simp only [htype, htarget, if_true]
  · unfold dispatch handleDead
    simp only [htype, htarget, if_true]

theorem replies_refuteTo (h : Sound s) (now : Int) :
    (s.refuteTo now).2 = s.aliveMembers.map (fun m =>
      (hostPort m.addr m.port,
        s.emptyMessage .alive (s.localIncarnation + 1))) := by
  rcases h.known with ⟨own, hown, -⟩
  have hmembers : (s.refute now).1.aliveMembers = s.aliveMembers := by
    unfold refute aliveMembers
    rw [hown]
    apply filter_values_setEntry
    · simp [h.id_of_getEntry hown]
    · intro e he hkey
      simp [h.id_eq e he, hkey]
  have hinc : (s.refute now).2 = s.localIncarnation + 1 := by
    rw [localIncarnation_eq hown]
    unfold refute
    rw [hown]
  unfold refuteTo
  simp only [hmembers, hinc]

theorem convinces_of_lt {incarnation inc : UInt64} (hlt : incarnation < inc) :
    s.Convinces incarnation (s.emptyMessage .alive inc) := by
  intro r m _ hget _ hrecorded now addr
  change exists m', getEntry s.cfg.nodeID
    (r.handleAlive now (s.emptyMessage .alive inc)).members = some m' ∧
      m'.state = .alive
  have hge : inc ≥ m.incarnation := by
    rw [hrecorded]
    exact UInt64.le_of_lt hlt
  rw [handleAlive_eq_setState]
  simp only [emptyMessage, setState, hget, hge, if_true]
  rw [getEntry_setEntry]
  exact ⟨_, rfl, rfl⟩

theorem refutationWins_iff (h : Sound s) (a : Action) :
    s.RefutationWins a <-> s.KnowsItself a := by
  cases a with
  | merge now m => exact keepsAlive_mergeMember_iff h now m
  | dispatch now addr msg =>
    have hkeeps := keepsAlive_dispatch h now addr msg
    simp only [RefutationWins, KnowsItself, hkeeps, true_and]
    refine forall_congr' (fun hrumour => ?_)
    rw [dispatch_of_rumour hrumour, replies_refuteTo h, ← lt_add_one_iff]
    constructor
    · intro hall hsome
      rcases List.exists_mem_of_ne_nil _ hsome with ⟨m, hm⟩
      exact (hall _ (List.mem_map.mpr ⟨m, hm, rfl⟩)).later
    intro hlater e he
    rcases List.mem_map.mp he with ⟨m, hm, heq⟩
    rw [← heq]
    have hlt := hlater (List.ne_nil_of_mem hm)
    exact ⟨rfl, hlt, convinces_of_lt hlt⟩
  | probe now target reached => exact Iff.rfl
  | checkSuspicions now order => exact Iff.rfl
  | remove now timer => exact Iff.rfl

/--
Refutation wins in every step of a run exactly if what the node hears of itself
is never of a later incarnation, unless it is that it is alive.
-/
theorem meets_refutationWins_iff (cfg : Config) (now : Int)
    (actions : List Action) :
    Meets step RefutationWins (newSWIM cfg now) actions <->
      Meets step KnowsItself (newSWIM cfg now) actions :=
  meets_iff_of_invariant sound_step (fun _ a h => refutationWins_iff h a)
    (sound_newSWIM cfg now)

end SWIM

def staleRumourActions : List SWIM.Action :=
  [.merge 0
      { id := ascii "b"
        addr := ascii "10.0.0.2"
        port := 7946
        state := .alive
        incarnation := 0 },
    .dispatch 0 (ascii "10.0.0.2:7946")
      { type := .suspect
        senderID := ascii "b"
        incarnation := 5
        targetID := ascii "a"
        targetAddr := []
        members := [] }]

def deadEntryActions : List SWIM.Action :=
  [.merge 0
      { id := ascii "a"
        addr := ascii "10.0.0.1"
        port := 7946
        state := .dead
        incarnation := 7 }]

/-- The reply is too early, and the node takes itself for dead. -/
theorem not_refutationWins_restarted :
    ¬ Meets SWIM.step SWIM.RefutationWins (newSWIM patientConfig 0)
        staleRumourActions ∧
      ¬ Meets SWIM.step SWIM.RefutationWins (newSWIM patientConfig 0)
        deadEntryActions := by
  constructor
  · rintro ⟨-, h⟩
    rcases h _ rfl with ⟨⟨-, hrefutes⟩, -⟩
    have hlater := (hrefutes (by decide +kernel)
      (ascii "10.0.0.2:7946",
        { type := .alive
          senderID := ascii "a"
          incarnation := 1
          targetID := []
          targetAddr := []
          members := [] }) (by decide +kernel)).later
    revert hlater
    decide
  · rintro ⟨hkeeps, -⟩
    have hknows := (SWIM.keepsAlive_mergeMember_iff
      (SWIM.sound_newSWIM patientConfig 0) 0 _).mp hkeeps
    have halive := hknows (by decide +kernel) (by decide +kernel)
    revert halive
    decide

end Gossip
end ChimeraMQ
