import ChimeraMQ.Consensus.History

/-!
# Election safety and log matching

The invariants in this module hold for members that are offered any traceable
log.  A term has one winner because two majorities share a voter and a voter
casts one ballot per term.  Two logs match because both are traced back to the
log that the winner of a term built.
-/

namespace ChimeraMQ
namespace Consensus

open Foundation
open History

variable {Node Entry : Type}

section Traceable

variable {termOf : Entry -> Nat}

theorem traceable_nil (h : History Node Entry) : Traceable termOf h [] := by
  intro front e hpre
  simp at hpre

theorem Traceable.mono {h h' : History Node Entry} {log : List Entry}
    (hlead : forall t, h.lead t <+: h'.lead t)
    (htrace : Traceable termOf h log) : Traceable termOf h' log :=
  fun front e hfront => (htrace front e hfront).trans (hlead (termOf e))

theorem Traceable.concat {h : History Node Entry} {log : List Entry} {e : Entry}
    (htrace : Traceable termOf h log)
    (hlead : log ++ [e] <+: h.lead (termOf e)) :
    Traceable termOf h (log ++ [e]) := by
  intro front e' hfront
  rcases List.prefix_concat_iff.mp hfront with heq | hpre
  · have hboth : front = log ∧ e' = e := by
      simpa using heq
    rw [hboth.left, hboth.right]
    exact hlead
  · exact htrace front e' hpre

theorem Traceable.matching {h : History Node Entry}
    {log log' front front' : List Entry} {e e' : Entry}
    (htrace : Traceable termOf h log) (htrace' : Traceable termOf h log')
    (hfront : front ++ [e] <+: log) (hfront' : front' ++ [e'] <+: log')
    (hlength : front.length = front'.length) (hterm : termOf e = termOf e') :
    front ++ [e] = front' ++ [e'] := by
  have hlead := htrace front e hfront
  have hlead' := htrace' front' e' hfront'
  rw [← hterm] at hlead'
  have hle : (front ++ [e]).length ≤ (front' ++ [e']).length := by
    simp [hlength]
  have hpre := List.prefix_of_prefix_length_le hlead hlead' hle
  exact hpre.eq_of_length (by simp [hlength])

end Traceable

/-!
## The invariant
-/

structure Coherent (termOf : Entry -> Nat) (members : Finset Node)
    (h : History Node Entry) : Prop where
  ballot_term : forall v t c, h.ballot v t = some c -> t ≤ h.term v
  bid_term : forall c t log, h.bid c t = some log -> 0 < t ∧ t ≤ h.term c
  leader_term : forall t n, h.leader t = some n -> 0 < t ∧ t ≤ h.term n
  elected : forall t n, h.leader t = some n ->
    exists Q, Majority members Q ∧ forall v, v ∈ Q -> h.ballot v t = some n
  lead_nil : forall t, h.leader t = none -> h.lead t = []
  leader_log : forall n, h.leader (h.term n) = some n ->
    h.log n = h.lead (h.term n)
  log_traceable : forall n, Traceable termOf h (h.log n)
  lead_traceable : forall t, Traceable termOf h (h.lead t)

section Coherence

variable {termOf : Entry -> Nat} {members : Finset Node}

theorem coherent_initial :
    Coherent termOf members (initial : History Node Entry) where
  ballot_term := by intro v t c hballot; cases hballot
  bid_term := by intro c t log hbid; cases hbid
  leader_term := by intro t n hleader; cases hleader
  elected := by intro t n hleader; cases hleader
  lead_nil := by intro t _; rfl
  leader_log := by intro n _; rfl
  log_traceable := by intro n; exact traceable_nil _
  lead_traceable := by intro t; exact traceable_nil _

variable {h : History Node Entry}

variable (hc : Coherent termOf members h)

include hc

theorem Coherent.leader_of_mem {log : List Entry}
    (htrace : Traceable termOf h log) {e : Entry} (he : e ∈ log) :
    exists n, h.leader (termOf e) = some n := by
  rcases List.append_of_mem he with ⟨front, back, hsplit⟩
  have hlead := htrace front e ⟨back, by simp [hsplit]⟩
  cases hleader : h.leader (termOf e) with
  | some n => exact ⟨n, rfl⟩
  | none =>
  rw [hc.lead_nil _ hleader] at hlead
  simp at hlead

theorem Coherent.term_pos {log : List Entry} (htrace : Traceable termOf h log)
    {e : Entry} (he : e ∈ log) :
    0 < termOf e := by
  rcases hc.leader_of_mem htrace he with ⟨n, hleader⟩
  exact (hc.leader_term _ _ hleader).left

variable [DecidableEq Node] {n : Node}

theorem Coherent.leader_unique {t : Nat} {m : Node} {Q : Finset Node}
    (hleader : h.leader t = some m) (hQ : Majority members Q)
    (hvotes : forall v, v ∈ Q -> h.ballot v t = some n) : m = n := by
  rcases hc.elected t m hleader with ⟨R, hR, hballots⟩
  rcases hQ.exists_mem_inter hR with ⟨v, hvQ, hvR⟩
  have hboth : some n = some m := by
    rw [← hvotes v hvQ, hballots v hvR]
  exact (Option.some.inj hboth).symm

theorem coherent_advance {t : Nat} (hle : h.term n ≤ t) : Coherent termOf
    members (h.advance n t) := by
  have hterm : forall m, h.term m ≤ (h.advance n t).term m := by
    intro m
    by_cases hm : m = n
    · subst hm
      simpa [advance] using hle
    · simp [advance, hm]
  exact
    { ballot_term := fun v t' c hballot =>
        (hc.ballot_term v t' c hballot).trans (hterm v)
      bid_term := fun c t' log hbid =>
        ⟨(hc.bid_term c t' log hbid).left,
          (hc.bid_term c t' log hbid).right.trans (hterm c)⟩
      leader_term := fun t' m hleader =>
        ⟨(hc.leader_term t' m hleader).left,
          (hc.leader_term t' m hleader).right.trans (hterm m)⟩
      elected := hc.elected
      lead_nil := hc.lead_nil
      leader_log := by
        intro m hleader
        by_cases hm : m = n
        · subst hm
          have hnew : (h.advance m t).term m = t := by
            simp [advance]
          rw [hnew] at hleader ⊢
          have hbound := (hc.leader_term t m hleader).right
          have hsame : t = h.term m := by omega
          rw [hsame] at hleader ⊢
          exact hc.leader_log m hleader
        · have hold : (h.advance n t).term m = h.term m := by
            simp [advance, hm]
          rw [hold] at hleader ⊢
          exact hc.leader_log m hleader
      log_traceable := hc.log_traceable
      lead_traceable := hc.lead_traceable }

theorem coherent_campaign (n : Node) :
    Coherent termOf members (h.campaign n) := by
  have hadvance := coherent_advance hc (n := n) (Nat.le_succ (h.term n))
  exact
    { ballot_term := by
        intro v t c hballot
        by_cases hv : v = n
        · subst hv
          by_cases ht : t = h.term v + 1
          · rw [ht]
            simp [campaign]
          · apply hadvance.ballot_term v t c
            simpa [campaign, advance, ht] using hballot
        · apply hadvance.ballot_term v t c
          simpa [campaign, advance, hv] using hballot
      bid_term := by
        intro c t log hbid
        by_cases hcn : c = n
        · subst hcn
          by_cases ht : t = h.term c + 1
          · rw [ht]
            simp [campaign]
          · apply hadvance.bid_term c t log
            simpa [campaign, advance, ht] using hbid
        · apply hadvance.bid_term c t log
          simpa [campaign, advance, hcn] using hbid
      leader_term := hadvance.leader_term
      elected := by
        intro t m hleader
        rcases hc.elected t m hleader with ⟨Q, hQ, hvotes⟩
        refine ⟨Q, hQ, ?_⟩
        intro v hv
        have hold := hvotes v hv
        have hbound := hc.ballot_term v t m hold
        by_cases hvn : v = n
        · subst hvn
          have hne : t ≠ h.term v + 1 := by omega
          simpa [campaign, hne] using hold
        · simpa [campaign, hvn] using hold
      lead_nil := hc.lead_nil
      leader_log := hadvance.leader_log
      log_traceable := hc.log_traceable
      lead_traceable := hc.lead_traceable }

theorem coherent_vote {v c : Node}
    (hfree : h.ballot v (h.term v) = none ∨ h.ballot v (h.term v) = some c) :
    Coherent termOf members (h.vote v c) := by
  have hkeep : forall w t m,
      h.ballot w t = some m -> (h.vote v c).ballot w t = some m := by
    intro w t m hballot
    by_cases hw : w = v
    · subst hw
      by_cases ht : t = h.term w
      · subst ht
        rcases hfree with hnone | hsome
        · rw [hballot] at hnone
          cases hnone
        · rw [hballot] at hsome
          simpa [vote] using hsome.symm
      · simpa [vote, ht] using hballot
    · simpa [vote, hw] using hballot
  exact
    { ballot_term := by
        intro w t m hballot
        by_cases hw : w = v
        · subst hw
          by_cases ht : t = h.term w
          · exact Nat.le_of_eq ht
          · apply hc.ballot_term w t m
            simpa [vote, ht] using hballot
        · apply hc.ballot_term w t m
          simpa [vote, hw] using hballot
      bid_term := hc.bid_term
      leader_term := hc.leader_term
      elected := by
        intro t m hleader
        rcases hc.elected t m hleader with ⟨Q, hQ, hvotes⟩
        exact ⟨Q, hQ, fun w hw => hkeep w t m (hvotes w hw)⟩
      lead_nil := hc.lead_nil
      leader_log := hc.leader_log
      log_traceable := hc.log_traceable
      lead_traceable := hc.lead_traceable }

omit [DecidableEq Node] hc in
theorem prefix_lead_update {t : Nat} {log : List Entry}
    (hlog : h.lead t <+: log) (t' : Nat) :
    h.lead t' <+: Function.update h.lead t log t' := by
  by_cases ht : t' = t
  · subst ht
    simpa using hlog
  · simp [ht]

theorem coherent_win {Q : Finset Node} (hpos : 0 < h.term n)
    (hnone : h.leader (h.term n) = none) (hQ : Majority members Q)
    (hvotes : forall v, v ∈ Q -> h.ballot v (h.term n) = some n) :
    Coherent termOf members (h.win n) := by
  have hlead : forall t, h.lead t <+: (h.win n).lead t :=
    prefix_lead_update (by rw [hc.lead_nil _ hnone]; exact List.nil_prefix)
  exact
    { ballot_term := hc.ballot_term
      bid_term := hc.bid_term
      leader_term := by
        intro t m hleader
        by_cases ht : t = h.term n
        · subst ht
          have hm : n = m := by
            simpa [win] using hleader
          rw [← hm]
          exact ⟨hpos, Nat.le_refl _⟩
        · apply hc.leader_term t m
          simpa [win, ht] using hleader
      elected := by
        intro t m hleader
        by_cases ht : t = h.term n
        · subst ht
          have hm : n = m := by
            simpa [win] using hleader
          rw [← hm]
          exact ⟨Q, hQ, hvotes⟩
        · apply hc.elected t m
          simpa [win, ht] using hleader
      lead_nil := by
        intro t hleader
        by_cases ht : t = h.term n
        · subst ht
          simp [win] at hleader
        · have hold : h.leader t = none := by
            simpa [win, ht] using hleader
          simpa [win, ht] using hc.lead_nil t hold
      leader_log := by
        intro m hleader
        change h.log m = (h.win n).lead (h.term m)
        by_cases ht : h.term m = h.term n
        · have hm : n = m := by
            have hleader' : (h.win n).leader (h.term m) = some m := hleader
            simpa [win, ht] using hleader'
          simp [win, hm]
        have hold : h.leader (h.term m) = some m := by
          have hleader' : (h.win n).leader (h.term m) = some m := hleader
          simpa [win, ht] using hleader'
        simpa [win, ht] using hc.leader_log m hold
      log_traceable := fun m => (hc.log_traceable m).mono hlead
      lead_traceable := by
        intro t
        by_cases ht : t = h.term n
        · subst ht
          simpa [win] using (hc.log_traceable n).mono hlead
        · simpa [win, ht] using (hc.lead_traceable t).mono hlead }

theorem coherent_extend {e : Entry} (hleader : h.leader (h.term n) = some n)
    (he : termOf e = h.term n) :
    Coherent termOf members (h.extend n e) := by
  have hlog := hc.leader_log n hleader
  have hlead : forall t, h.lead t <+: (h.extend n e).lead t :=
    prefix_lead_update (by rw [← hlog]; exact List.prefix_append _ _)
  have hnew : Traceable termOf (h.extend n e) (h.log n ++ [e]) := by
    apply ((hc.log_traceable n).mono hlead).concat
    rw [he]
    simp [extend]
  exact
    { ballot_term := hc.ballot_term
      bid_term := hc.bid_term
      leader_term := hc.leader_term
      elected := hc.elected
      lead_nil := by
        intro t hnone
        by_cases ht : t = h.term n
        · subst ht
          rw [show (h.extend n e).leader = h.leader from rfl, hleader] at hnone
          cases hnone
        · simpa [extend, ht] using hc.lead_nil t hnone
      leader_log := by
        intro m hm
        have hm' : h.leader (h.term m) = some m := hm
        change (h.extend n e).log m = (h.extend n e).lead (h.term m)
        by_cases ht : h.term m = h.term n
        · have hmn : m = n := by
            rw [ht, hleader] at hm'
            exact (Option.some.inj hm').symm
          subst hmn
          simp [extend]
        have hmn : m ≠ n := by
          intro heq
          exact ht (by rw [heq])
        simpa [extend, ht, hmn] using hc.leader_log m hm'
      log_traceable := by
        intro m
        by_cases hm : m = n
        · subst hm
          simpa [extend] using hnew
        · simpa [extend, hm] using (hc.log_traceable m).mono hlead
      lead_traceable := by
        intro t
        by_cases ht : t = h.term n
        · subst ht
          simpa [extend] using hnew
        · simpa [extend, ht] using (hc.lead_traceable t).mono hlead }

theorem coherent_accept [DecidableEq Entry] {offered : List Entry}
    (hleader : h.leader (h.term n) ≠ some n)
    (htrace : Traceable termOf h offered) :
    Coherent termOf members (h.accept n offered) :=
  { ballot_term := hc.ballot_term
    bid_term := hc.bid_term
    leader_term := hc.leader_term
    elected := hc.elected
    lead_nil := hc.lead_nil
    leader_log := by
      intro m hm
      have hmn : m ≠ n := by
        intro heq
        subst heq
        exact hleader hm
      simpa [accept, hmn] using hc.leader_log m hm
    log_traceable := by
      intro m
      change Traceable termOf h ((h.accept n offered).log m)
      by_cases hm : m = n
      · subst hm
        rcases adopt_cases (h.log m) offered with hkeep | htake
        · simpa [accept, hkeep] using hc.log_traceable m
        · simpa [accept, htake] using htrace
      · simpa [accept, hm] using hc.log_traceable m
    lead_traceable := hc.lead_traceable }

variable [DecidableEq Entry]
variable {offers : History Node Entry -> Node -> List Entry -> Prop}

theorem coherent_step {h' : History Node Entry}
    (hstep : Step termOf members offers h h') :
    Coherent termOf members h' := by
  cases hstep with
  | advance hle => exact coherent_advance hc hle
  | campaign n => exact coherent_campaign hc n
  | vote _ _ hfree => exact coherent_vote hc hfree
  | win hbid hnone hQ hvotes =>
    exact coherent_win hc (hc.bid_term _ _ _ hbid).left hnone hQ hvotes
  | extend hleader he => exact coherent_extend hc hleader he
  | accept hleader htrace _ => exact coherent_accept hc hleader htrace

theorem Coherent.lead_mono {h' : History Node Entry}
    (hstep : Step termOf members offers h h') (t : Nat) :
    h.lead t <+: h'.lead t := by
  cases hstep with
  | advance _ => exact List.prefix_rfl
  | campaign _ => exact List.prefix_rfl
  | vote _ _ _ => exact List.prefix_rfl
  | win _ hnone _ _ =>
    refine prefix_lead_update ?_ t
    rw [hc.lead_nil _ hnone]
    exact List.nil_prefix
  | extend hleader _ =>
    refine prefix_lead_update ?_ t
    rw [← hc.leader_log _ hleader]
    exact List.prefix_append _ _
  | accept _ _ _ => exact List.prefix_rfl

omit hc

theorem Reachable.coherent (hreach : Reachable termOf members offers h) :
    Coherent termOf members h := by
  induction hreach with
  | initial => exact coherent_initial
  | step _ hstep ih => exact coherent_step ih hstep

end Coherence

end Consensus
end ChimeraMQ
