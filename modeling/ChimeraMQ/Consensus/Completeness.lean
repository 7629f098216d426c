import ChimeraMQ.Consensus.Matching

/-!
# Leader completeness and agreement

When members are only offered the log of the leader of their current term, a
prefix that a majority acknowledged in that term is in the log of every later
winner. The invariant is stated for one member at a time: what the member
acknowledged in an earlier term is still in its log, unless some later winner
started without it.
-/

namespace ChimeraMQ
namespace Consensus

open Foundation
open History

variable {Node Entry : Type}

/-- A nonempty prefix of a term's log that ends in an entry of that term. -/
def Mark (termOf : Entry -> Nat) (h : History Node Entry) (T : Nat)
    (P : List Entry) : Prop :=
  P <+: h.lead T ∧ exists front e, P = front ++ [e] ∧ termOf e = T

def Held (termOf : Entry -> Nat) (h : History Node Entry) (a : Node) (T : Nat)
    (P : List Entry) : Prop :=
  Mark termOf h T P ∧ P.length ≤ h.acked a T

def Overruled (h : History Node Entry) (P : List Entry) (T t : Nat) : Prop :=
  exists U, T < U ∧ U < t ∧ h.leader U ≠ none ∧ ¬ P <+: h.base U

def Committed (termOf : Entry -> Nat) (members : Finset Node)
    (h : History Node Entry) (T : Nat) (P : List Entry) : Prop :=
  Mark termOf h T P ∧
    exists Q, Majority members Q ∧ forall a, a ∈ Q -> P.length ≤ h.acked a T

def Settled (termOf : Entry -> Nat) (members : Finset Node)
    (h : History Node Entry) (t : Nat) (P : List Entry) : Prop :=
  P = [] ∨ exists T P', T ≤ t ∧ Committed termOf members h T P' ∧ P <+: P'

section Marks

variable {termOf : Entry -> Nat} {members : Finset Node}

variable {h : History Node Entry} {T : Nat} {P : List Entry}

theorem Mark.length_pos (hmark : Mark termOf h T P) : 0 < P.length := by
  rcases hmark.right with ⟨front, e, hP, _⟩
  simp [hP]

variable {h' : History Node Entry}

theorem Mark.mono (hlead : h.lead T <+: h'.lead T) (hmark : Mark termOf h T P) :
    Mark termOf h' T P :=
  ⟨hmark.left.trans hlead, hmark.right⟩

theorem Mark.of_length_le (hlead : h.lead T <+: h'.lead T)
    (hmark : Mark termOf h' T P) (hle : P.length ≤ (h.lead T).length) :
    Mark termOf h T P :=
  ⟨List.prefix_of_prefix_length_le hmark.left hlead hle, hmark.right⟩

theorem Overruled.mono {t t' : Nat} (hkeep : forall U, h.leader U ≠ none ->
      h'.leader U ≠ none ∧ h'.base U = h.base U) (hle : t ≤ t')
    (hover : Overruled h P T t) : Overruled h' P T t' := by
  rcases hover with ⟨U, hTU, hUt, hleader, hbase⟩
  refine ⟨U, hTU, by omega, (hkeep U hleader).left, ?_⟩
  rw [(hkeep U hleader).right]
  exact hbase

theorem Committed.mono (hlead : h.lead T <+: h'.lead T)
    (hacked : forall a, h.acked a T ≤ h'.acked a T)
    (hcom : Committed termOf members h T P) :
    Committed termOf members h' T P := by
  rcases hcom with ⟨hmark, Q, hQ, hheld⟩
  exact ⟨hmark.mono hlead, Q, hQ, fun a ha => (hheld a ha).trans (hacked a)⟩

theorem Settled.mono {t t' : Nat} (hlead : forall T, h.lead T <+: h'.lead T)
    (hacked : forall a T, h.acked a T ≤ h'.acked a T) (hle : t ≤ t')
    (hset : Settled termOf members h t P) :
    Settled termOf members h' t' P := by
  rcases hset with hnil | ⟨T, P', hT, hcom, hpre⟩
  · exact Or.inl hnil
  · exact Or.inr ⟨T, P', hT.trans hle,
      hcom.mono (hlead T) (fun a => hacked a T), hpre⟩

theorem Settled.prefix_closed {t : Nat} {P' : List Entry} (hpre : P <+: P')
    (hset : Settled termOf members h t P') :
    Settled termOf members h t P := by
  rcases hset with hnil | ⟨T, P'', hT, hcom, hpre'⟩
  · subst hnil
    exact Or.inl (List.prefix_nil.mp hpre)
  · exact Or.inr ⟨T, P'', hT, hcom, hpre.trans hpre'⟩

end Marks

/-!
## The invariant
-/

structure Secure (termOf : Entry -> Nat) (members : Finset Node)
    (h : History Node Entry) : Prop where
  acked_term : forall a t, 0 < h.acked a t -> t ≤ h.term a
  acked_le : forall a t, h.acked a t ≤ (h.lead t).length
  acked_now : forall a,
    (h.lead (h.term a)).take (h.acked a (h.term a)) <+: h.log a
  base_older : forall t e, e ∈ h.base t -> termOf e < t
  lead_split : forall t, exists own,
    h.lead t = h.base t ++ own ∧ forall e, e ∈ own -> termOf e = t
  log_le : forall a e, e ∈ h.log a -> termOf e ≤ h.term a
  bid_older : forall c t log, h.bid c t = some log ->
    Traceable termOf h log ∧ forall e, e ∈ log -> termOf e < t
  ballot_bid : forall v t c, h.ballot v t = some c -> h.bid c t ≠ none
  past : forall a T P, Held termOf h a T P -> T < h.term a ->
    P <+: h.log a ∨ Overruled h P T (h.term a + 1)
  voters : forall a t c log, h.ballot a t = some c -> h.bid c t = some log ->
    h.leader t = none -> forall T P, Held termOf h a T P -> T < t ->
      P <+: log ∨ Overruled h P T t
  chosen : forall t n, h.leader t = some n ->
    exists Q, Majority members Q ∧ forall a, a ∈ Q ->
      t ≤ h.term a ∧ forall T P, Held termOf h a T P -> T < t ->
        P <+: h.base t ∨ Overruled h P T t

section Security

variable {termOf : Entry -> Nat} {members : Finset Node}

theorem secure_initial :
    Secure termOf members (initial : History Node Entry) where
  acked_term := by intro a t hpos; cases hpos
  acked_le := by intro a t; exact Nat.zero_le _
  acked_now := by intro a; exact List.nil_prefix
  base_older := by intro t e he; cases he
  lead_split := by
    intro t
    refine ⟨[], rfl, ?_⟩
    intro e he
    cases he
  log_le := by intro a e he; cases he
  bid_older := by intro c t log hbid; cases hbid
  ballot_bid := by intro v t c hballot; cases hballot
  past := by
    intro a T P hheld _
    have hpos := hheld.left.length_pos
    have hle : P.length ≤ 0 := hheld.right
    omega
  voters := by intro a t c log hballot; cases hballot
  chosen := by intro t n hleader; cases hleader

variable {h : History Node Entry} {t : Nat} {e : Entry}

theorem Secure.lead_le (hs : Secure termOf members h) (he : e ∈ h.lead t) :
    termOf e ≤ t := by
  rcases hs.lead_split t with ⟨own, hsplit, hown⟩
  rw [hsplit] at he
  rcases List.mem_append.mp he with hbase | hnew
  · exact Nat.le_of_lt (hs.base_older t e hbase)
  · exact Nat.le_of_eq (hown e hnew)

theorem Secure.base_prefix_lead (hs : Secure termOf members h) (t : Nat) :
    h.base t <+: h.lead t := by
  rcases hs.lead_split t with ⟨own, hsplit, _⟩
  rw [hsplit]
  exact List.prefix_append _ _

variable {T : Nat} {P : List Entry}

theorem Secure.held_term (hs : Secure termOf members h) {a : Node}
    (hheld : Held termOf h a T P) : T ≤ h.term a :=
  hs.acked_term a T (Nat.lt_of_lt_of_le hheld.left.length_pos hheld.right)

theorem Secure.held_log (hs : Secure termOf members h) {a : Node}
    (hheld : Held termOf h a T P) :
    P <+: h.log a ∨ Overruled h P T (h.term a + 1) := by
  rcases Nat.lt_or_eq_of_le (hs.held_term hheld) with hlt | heq
  · exact hs.past a T P hheld hlt
  subst heq
  have htake : P <+: (h.lead (h.term a)).take (h.acked a (h.term a)) := by
    rw [List.prefix_take_iff]
    exact ⟨hheld.left.left, hheld.right⟩
  exact Or.inl (htake.trans (hs.acked_now a))

/-!
## Up-to-date candidates
-/

theorem lastTerm_concat (front : List Entry) (e : Entry) :
    lastTerm termOf (front ++ [e]) = termOf e := by
  simp [lastTerm]

theorem Traceable.prefix_lead {front : List Entry}
    (htrace : Traceable termOf h (front ++ [e])) :
    front ++ [e] <+: h.lead (termOf e) :=
  htrace front e List.prefix_rfl

theorem Secure.mark_le_lastTerm (hs : Secure termOf members h)
    {front : List Entry} (htrace : Traceable termOf h (front ++ [e]))
    (hmark : Mark termOf h T P) (hP : P <+: front ++ [e]) :
    T ≤ termOf e := by
  rcases hmark.right with ⟨before, x, hPx, hx⟩
  have hmem : x ∈ h.lead (termOf e) := by
    apply (hP.trans htrace.prefix_lead).subset
    simp [hPx]
  rw [← hx]
  exact hs.lead_le hmem

theorem Secure.base_length_lt (hs : Secure termOf members h)
    {front : List Entry} (htrace : Traceable termOf h (front ++ [e])) :
    (h.base (termOf e)).length < (front ++ [e]).length := by
  by_contra hge
  have hle : (front ++ [e]).length ≤ (h.base (termOf e)).length :=
    Nat.le_of_not_lt hge
  have hin : front ++ [e] <+: h.base (termOf e) :=
    List.prefix_of_prefix_length_le htrace.prefix_lead
      (hs.base_prefix_lead (termOf e)) hle
  have hmem : e ∈ h.base (termOf e) := by
    apply hin.subset
    simp
  exact Nat.lt_irrefl _ (hs.base_older _ _ hmem)

/--
A candidate that is at least as up to date as a voter has what the voter has
acknowledged, unless a winner before the candidate's term started without it.
-/
theorem Secure.upToDate_has (hc : Coherent termOf members h)
    (hs : Secure termOf members h) {v : Node} {log : List Entry}
    (hmark : Mark termOf h T P) (hP : P <+: h.log v)
    (htrace : Traceable termOf h log)
    (holder : forall e, e ∈ log -> termOf e < t)
    (hup : UpToDate termOf log (h.log v)) :
    P <+: log ∨ Overruled h P T t := by
  rcases List.eq_nil_or_concat' (h.log v) with hnil | ⟨front, e, hlog⟩
  · have hpos := hmark.length_pos
    rw [hnil] at hP
    have hP0 := List.prefix_nil.mp hP
    simp [hP0] at hpos
  have hvtrace := hc.log_traceable v
  rw [hlog] at hvtrace hP hup
  have hTe := hs.mark_le_lastTerm hvtrace hmark hP
  have hepos : 0 < termOf e := hc.term_pos hvtrace (by simp)
  rcases List.eq_nil_or_concat' log with hempty | ⟨cfront, c, hcand⟩
  · rw [hempty] at hup
    rcases hup with hlt | ⟨heq, _⟩
    · simp [lastTerm] at hlt
    · rw [lastTerm_concat] at heq
      simp [lastTerm] at heq
      omega
  subst hcand
  rw [UpToDate, lastTerm_concat, lastTerm_concat] at hup
  rcases hup with hlater | ⟨hsame, hlen⟩
  · -- the candidate's last entry belongs to a term won after the mark's
    rcases hc.leader_of_mem htrace (e := c) (by simp) with ⟨n, hleader⟩
    by_cases hbase : P <+: h.base (termOf c)
    · left
      have hlong := hs.base_length_lt htrace
      have hPlen := hbase.length_le
      exact List.prefix_of_prefix_length_le
        (hbase.trans (hs.base_prefix_lead _)) htrace.prefix_lead (by omega)
    right
    refine ⟨termOf c, by omega, holder c (by simp), ?_, hbase⟩
    rw [hleader]
    simp
  · left
    have hvlead := hvtrace.prefix_lead
    rw [hsame] at hvlead
    exact hP.trans
      (List.prefix_of_prefix_length_le hvlead htrace.prefix_lead hlen)

/-!
## The steps keep the invariant
-/

variable {h' : History Node Entry} {n : Node}

theorem held_of_held {a : Node}
    (hle : forall b t, h.acked b t ≤ (h.lead t).length)
    (hlead : forall t, h.lead t <+: h'.lead t)
    (hacked : forall b t, b ≠ n ∨ t ≠ h.term n -> h'.acked b t = h.acked b t)
    (hheld : Held termOf h' a T P) (hold : a ≠ n ∨ T ≠ h.term n) :
    Held termOf h a T P := by
  have hlen : P.length ≤ h.acked a T := by
    rw [← hacked a T hold]
    exact hheld.right
  exact ⟨hheld.left.of_length_le (hlead T) (hlen.trans (hle a T)), hlen⟩

/-- What a node holds of a term before its own it held before. -/
theorem Secure.held_old (hs : Secure termOf members h)
    (hlead : forall t, h.lead t <+: h'.lead t)
    (hacked : forall b t, b ≠ n ∨ t ≠ h.term n -> h'.acked b t = h.acked b t)
    {a : Node} (hheld : Held termOf h' a T P) (hT : T < h.term a) :
    Held termOf h a T P := by
  refine held_of_held hs.acked_le hlead hacked hheld ?_
  by_cases ha : a = n
  · subst ha
    exact Or.inr (by omega)
  · exact Or.inl ha

theorem Secure.acked_bounds (hs : Secure termOf members h)
    (hlead : forall t, h.lead t <+: h'.lead t)
    (hacked : forall b t, b ≠ n ∨ t ≠ h.term n -> h'.acked b t = h.acked b t)
    (hbound : h'.acked n (h.term n) ≤ (h'.lead (h.term n)).length) :
    (forall a t, 0 < h'.acked a t -> t ≤ h.term a) ∧
      forall a t, h'.acked a t ≤ (h'.lead t).length := by
  constructor
  · intro a t hpos
    by_cases hnew : a = n ∧ t = h.term n
    · rw [hnew.left, hnew.right]
    · apply hs.acked_term a t
      rw [hacked a t (not_and_or.mp hnew)] at hpos
      exact hpos
  intro a t
  by_cases hnew : a = n ∧ t = h.term n
  · rw [hnew.left, hnew.right]
    exact hbound
  · rw [hacked a t (not_and_or.mp hnew)]
    exact (hs.acked_le a t).trans (hlead t).length_le

variable [DecidableEq Node]

theorem secure_advance (hs : Secure termOf members h) (hle : h.term n ≤ t) :
    Secure termOf members (h.advance n t) := by
  have hterm : forall m, h.term m ≤ (h.advance n t).term m := by
    intro m
    by_cases hm : m = n
    · subst hm
      simpa [advance] using hle
    · simp [advance, hm]
  have hkeep : forall U, h.leader U ≠ none ->
      (h.advance n t).leader U ≠ none ∧
        (h.advance n t).base U = h.base U :=
    fun U hU => ⟨hU, rfl⟩
  exact
    { acked_term := fun a t' hpos => (hs.acked_term a t' hpos).trans (hterm a)
      acked_le := hs.acked_le
      acked_now := by
        intro a
        by_cases hsame : (h.advance n t).term a = h.term a
        · rw [hsame]
          exact hs.acked_now a
        -- nothing has been acknowledged in a term not yet reached
        have hzero : h.acked a ((h.advance n t).term a) = 0 := by
          by_contra hne
          have hbound := hs.acked_term a _ (Nat.pos_of_ne_zero hne)
          have hge := hterm a
          omega
        change (h.lead ((h.advance n t).term a)).take
          (h.acked a ((h.advance n t).term a)) <+: h.log a
        rw [hzero]
        exact List.nil_prefix
      base_older := hs.base_older
      lead_split := hs.lead_split
      log_le := fun a e he => (hs.log_le a e he).trans (hterm a)
      bid_older := hs.bid_older
      ballot_bid := hs.ballot_bid
      past := by
        intro a T P hheld _
        have hheld' : Held termOf h a T P := hheld
        rcases hs.held_log hheld' with hlog | hover
        · exact Or.inl hlog
        · exact Or.inr (hover.mono hkeep (Nat.succ_le_succ (hterm a)))
      voters := hs.voters
      chosen := by
        intro t' m hleader
        rcases hs.chosen t' m hleader with ⟨Q, hQ, hall⟩
        refine ⟨Q, hQ, ?_⟩
        intro a ha
        exact ⟨(hall a ha).left.trans (hterm a), (hall a ha).right⟩ }

variable (hc : Coherent termOf members h) (hs : Secure termOf members h)

include hc hs

theorem secure_campaign (n : Node) :
    Secure termOf members (h.campaign n) := by
  have hadv := secure_advance hs (n := n) (Nat.le_succ (h.term n))
  have hfresh : h.bid n (h.term n + 1) = none := by
    cases hbid : h.bid n (h.term n + 1) with
    | none => rfl
    | some log =>
    have hbound := (hc.bid_term _ _ _ hbid).right
    omega
  exact
    { acked_term := hadv.acked_term
      acked_le := hadv.acked_le
      acked_now := hadv.acked_now
      base_older := hadv.base_older
      lead_split := hadv.lead_split
      log_le := hadv.log_le
      bid_older := by
        intro c t log hbid
        by_cases hcn : c = n
        · subst hcn
          by_cases ht : t = h.term c + 1
          · subst ht
            have hlog : h.log c = log := by
              simpa [campaign] using hbid
            rw [← hlog]
            refine ⟨hc.log_traceable c, ?_⟩
            intro e he
            exact Nat.lt_succ_of_le (hs.log_le c e he)
          · apply hs.bid_older c t log
            simpa [campaign, ht] using hbid
        · apply hs.bid_older c t log
          simpa [campaign, hcn] using hbid
      ballot_bid := by
        intro v t c hballot
        by_cases hself : c = n ∧ t = h.term n + 1
        · rw [hself.left, hself.right]
          simp [campaign]
        have hbid : (h.campaign n).bid c t = h.bid c t := by
          by_cases hcn : c = n
          · subst hcn
            have ht : t ≠ h.term c + 1 := fun heq => hself ⟨rfl, heq⟩
            simp [campaign, ht]
          · simp [campaign, hcn]
        rw [hbid]
        apply hs.ballot_bid v t c
        by_cases hv : v = n
        · subst hv
          by_cases ht : t = h.term v + 1
          · subst ht
            have hcv : v = c := by
              simpa [campaign] using hballot
            exact absurd ⟨hcv.symm, rfl⟩ hself
          · simpa [campaign, ht] using hballot
        · simpa [campaign, hv] using hballot
      past := hadv.past
      voters := by
        intro a t c log hballot hbid hnone T P hheld hT
        have hheld' : Held termOf h a T P := hheld
        have hnone' : h.leader t = none := hnone
        by_cases hself : a = n ∧ t = h.term n + 1
        · -- the candidate's own vote: its log is the one it stands with
          rcases hself with ⟨ha, ht⟩
          subst ha ht
          have hca : a = c := by
            simpa [campaign] using hballot
          subst hca
          have hlog : h.log a = log := by
            simpa [campaign] using hbid
          rw [← hlog]
          exact hs.held_log hheld'
        have hballot' : h.ballot a t = some c := by
          by_cases ha : a = n
          · subst ha
            have ht : t ≠ h.term a + 1 := fun heq => hself ⟨rfl, heq⟩
            simpa [campaign, ht] using hballot
          · simpa [campaign, ha] using hballot
        have hbid' : h.bid c t = some log := by
          by_cases hcn : c = n
          · subst hcn
            by_cases ht : t = h.term c + 1
            · subst ht
              exact absurd hfresh (hs.ballot_bid a _ c hballot')
            · simpa [campaign, ht] using hbid
          · simpa [campaign, hcn] using hbid
        exact hs.voters a t c log hballot' hbid' hnone' T P hheld' hT
      chosen := hadv.chosen }

theorem secure_vote {v c : Node} {log : List Entry}
    (hbid : h.bid c (h.term v) = some log) (hup : UpToDate termOf log (h.log v)) :
    Secure termOf members (h.vote v c) :=
  { acked_term := hs.acked_term
    acked_le := hs.acked_le
    acked_now := hs.acked_now
    base_older := hs.base_older
    lead_split := hs.lead_split
    log_le := hs.log_le
    bid_older := hs.bid_older
    ballot_bid := by
      intro w t m hballot
      change h.bid m t ≠ none
      by_cases hnew : w = v ∧ t = h.term v
      · rcases hnew with ⟨hw, ht⟩
        subst hw ht
        have hcm : c = m := by
          simpa [vote] using hballot
        rw [← hcm, hbid]
        simp
      apply hs.ballot_bid w t m
      by_cases hw : w = v
      · subst hw
        have ht : t ≠ h.term w := fun heq => hnew ⟨rfl, heq⟩
        simpa [vote, ht] using hballot
      · simpa [vote, hw] using hballot
    past := hs.past
    voters := by
      intro a t m mlog hballot hmbid hnone T P hheld hT
      have hheld' : Held termOf h a T P := hheld
      have hnone' : h.leader t = none := hnone
      have hmbid' : h.bid m t = some mlog := hmbid
      change P <+: mlog ∨ Overruled h P T t
      by_cases hnew : a = v ∧ t = h.term v
      · rcases hnew with ⟨ha, ht⟩
        subst ha ht
        have hcm : c = m := by
          simpa [vote] using hballot
        subst hcm
        rw [hbid] at hmbid'
        cases hmbid'
        rcases hs.held_log hheld' with hlog | hover
        · exact hs.upToDate_has hc hheld'.left hlog
            (hs.bid_older _ _ _ hbid).left (hs.bid_older _ _ _ hbid).right hup
        -- the term itself has no winner yet
        right
        rcases hover with ⟨U, hTU, hU, hleader, hbase⟩
        have hne : U ≠ h.term a := by
          intro heq
          rw [heq] at hleader
          exact hleader hnone'
        exact ⟨U, hTU, by omega, hleader, hbase⟩
      · have hballot' : h.ballot a t = some m := by
          by_cases ha : a = v
          · subst ha
            have ht : t ≠ h.term a := fun heq => hnew ⟨rfl, heq⟩
            simpa [vote, ht] using hballot
          · simpa [vote, ha] using hballot
        exact hs.voters a t m mlog hballot' hmbid' hnone' T P hheld' hT
    chosen := hs.chosen }

/-!
## A new leader
-/

omit hc hs in
theorem acked_win {b : Node} (hne : b ≠ n ∨ t ≠ h.term n) :
    (h.win n).acked b t = h.acked b t := by
  by_cases hb : b = n
  · subst hb
    have ht : t ≠ h.term b := hne.resolve_left (fun hno => hno rfl)
    simp [win, ht]
  · simp [win, hb]

omit hc hs in
theorem leader_win (hnone : h.leader (h.term n) = none)
    (hleader : h.leader t ≠ none) :
    (h.win n).leader t ≠ none ∧ (h.win n).base t = h.base t := by
  have hne : t ≠ h.term n := by
    intro heq
    rw [heq] at hleader
    exact hleader hnone
  simpa [win, hne] using hleader

omit hs in
theorem Coherent.prefix_lead_win (hnone : h.leader (h.term n) = none) (t : Nat) :
    h.lead t <+: (h.win n).lead t := by
  apply prefix_lead_update
  rw [hc.lead_nil _ hnone]
  exact List.nil_prefix

theorem Secure.acked_now_win (hnone : h.leader (h.term n) = none)
    (a : Node) :
    ((h.win n).lead (h.term a)).take ((h.win n).acked a (h.term a)) <+:
      h.log a := by
  by_cases ha : a = n
  · subst ha
    simp [win]
  rw [acked_win (Or.inl ha)]
  by_cases ht : h.term a = h.term n
  · have hle := hs.acked_le a (h.term n)
    rw [hc.lead_nil _ hnone] at hle
    rw [ht, Nat.le_zero.mp hle]
    exact List.nil_prefix
  · simpa [win, ht] using hs.acked_now a

omit hc in
theorem Secure.lead_split_win (t : Nat) :
    exists own, (h.win n).lead t = (h.win n).base t ++ own ∧
      forall e, e ∈ own -> termOf e = t := by
  by_cases ht : t = h.term n
  · subst ht
    refine ⟨[], by simp [win], ?_⟩
    intro e he
    cases he
  · simpa [win, ht] using hs.lead_split t

theorem Secure.voters_win (hnone : h.leader (h.term n) = none)
    {a c : Node} {log : List Entry} (hballot : h.ballot a t = some c)
    (hbid : h.bid c t = some log) (hold : h.leader t = none)
    (hheld : Held termOf (h.win n) a T P) (hT : T < t) :
    P <+: log ∨ Overruled (h.win n) P T t := by
  have hreach := hc.ballot_term a t c hballot
  have hheld' := hs.held_old (hc.prefix_lead_win hnone)
    (fun _ _ => acked_win) hheld (by omega)
  exact (hs.voters a t c log hballot hbid hold T P hheld' hT).imp_right
    (fun hover => hover.mono (fun _ => leader_win hnone) (Nat.le_refl _))

theorem Secure.chosen_win {Q : Finset Node}
    (hbid : h.bid n (h.term n) = some (h.log n))
    (hnone : h.leader (h.term n) = none) (hQ : Majority members Q)
    (hvotes : forall v, v ∈ Q -> h.ballot v (h.term n) = some n) {m : Node}
    (hleader : (h.win n).leader t = some m) :
    exists Q, Majority members Q ∧ forall a, a ∈ Q ->
      t ≤ h.term a ∧ forall T P, Held termOf (h.win n) a T P -> T < t ->
        P <+: (h.win n).base t ∨ Overruled (h.win n) P T t := by
  by_cases ht : t = h.term n
  · -- the voters of the new leader stand behind its log
    subst ht
    refine ⟨Q, hQ, fun a ha => ⟨hc.ballot_term a _ n (hvotes a ha), ?_⟩⟩
    intro T P hheld hT
    have hbase : (h.win n).base (h.term n) = h.log n := by
      simp [win]
    rw [hbase]
    exact hs.voters_win hc hnone (hvotes a ha) hbid hnone hheld hT
  have hold : h.leader t = some m := by
    simpa [win, ht] using hleader
  have hbase : (h.win n).base t = h.base t := by
    simp [win, ht]
  rcases hs.chosen t m hold with ⟨R, hR, hall⟩
  refine ⟨R, hR, fun a ha => ⟨(hall a ha).left, ?_⟩⟩
  intro T P hheld hT
  have hreach := (hall a ha).left
  have hheld' := hs.held_old (hc.prefix_lead_win hnone)
    (fun _ _ => acked_win) hheld (by omega)
  rw [hbase]
  exact ((hall a ha).right T P hheld' hT).imp_right
    (fun hover => hover.mono (fun _ => leader_win hnone) (Nat.le_refl _))

theorem secure_win {Q : Finset Node}
    (hbid : h.bid n (h.term n) = some (h.log n))
    (hnone : h.leader (h.term n) = none) (hQ : Majority members Q)
    (hvotes : forall v, v ∈ Q -> h.ballot v (h.term n) = some n) :
    Secure termOf members (h.win n) := by
  have hlead := hc.prefix_lead_win hnone
  rcases hs.acked_bounds hlead (fun _ _ => acked_win)
    (by simp [win]) with ⟨hterm, hle⟩
  exact
    { acked_term := hterm
      acked_le := hle
      acked_now := hs.acked_now_win hc hnone
      base_older := by
        intro t e he
        by_cases ht : t = h.term n
        · subst ht
          apply (hs.bid_older n _ _ hbid).right e
          simpa [win] using he
        · apply hs.base_older t e
          simpa [win, ht] using he
      lead_split := hs.lead_split_win
      log_le := hs.log_le
      bid_older := fun c t log hb =>
        ⟨(hs.bid_older c t log hb).left.mono hlead,
          (hs.bid_older c t log hb).right⟩
      ballot_bid := hs.ballot_bid
      past := by
        intro a T P hheld hT
        have hold := hs.held_old hlead (fun _ _ => acked_win) hheld hT
        exact (hs.held_log hold).imp_right (fun hover =>
          hover.mono (fun _ => leader_win hnone) (Nat.le_refl _))
      voters := by
        intro a t c log hballot hb hnoleader T P hheld hT
        have ht : t ≠ h.term n := by
          intro heq
          simp [win, heq] at hnoleader
        have hold : h.leader t = none := by
          simpa [win, ht] using hnoleader
        exact hs.voters_win hc hnone hballot hb hold hheld hT
      chosen := fun t m => hs.chosen_win hc hbid hnone hQ hvotes }

/-!
## A log that changes
-/

theorem secure_of_local (hterm : h'.term = h.term)
    (hballot : h'.ballot = h.ballot) (hbid : h'.bid = h.bid)
    (hleader : h'.leader = h.leader) (hbase : h'.base = h.base)
    (hlead : forall t, h.lead t <+: h'.lead t) (hsplit : forall t, exists own,
      h'.lead t = h.base t ++ own ∧ forall e, e ∈ own -> termOf e = t)
    (hlogs : forall a, a ≠ n -> h'.log a = h.log a)
    (hacked : forall b t, b ≠ n ∨ t ≠ h.term n -> h'.acked b t = h.acked b t)
    (hbound : h'.acked n (h.term n) ≤ (h'.lead (h.term n)).length)
    (hnow : (h'.lead (h.term n)).take (h'.acked n (h.term n)) <+: h'.log n)
    (hother : forall a, a ≠ n ->
      (h'.lead (h.term a)).take (h.acked a (h.term a)) =
        (h.lead (h.term a)).take (h.acked a (h.term a)))
    (hlog_le : forall e, e ∈ h'.log n -> termOf e ≤ h.term n)
    (hpast : forall T P, Held termOf h n T P -> T < h.term n ->
      P <+: h.log n ∨ Overruled h P T (h.term n + 1) ->
      P <+: h'.log n ∨ Overruled h P T (h.term n + 1)) :
    Secure termOf members h' := by
  have hkeep : forall U, h.leader U ≠ none ->
      h'.leader U ≠ none ∧ h'.base U = h.base U := by
    intro U hU
    rw [hleader, hbase]
    exact ⟨hU, rfl⟩
  have hstay : forall {p : Prop} {P : List Entry} {T U : Nat},
      p ∨ Overruled h P T U -> p ∨ Overruled h' P T U :=
    fun hp => hp.imp_right (fun hover => hover.mono hkeep (Nat.le_refl _))
  rcases hs.acked_bounds hlead hacked hbound with ⟨hacked_term, hacked_le⟩
  exact
    { acked_term := by
        rw [hterm]
        exact hacked_term
      acked_le := hacked_le
      acked_now := by
        intro a
        rw [hterm]
        by_cases ha : a = n
        · subst ha
          exact hnow
        · rw [hacked a _ (Or.inl ha), hother a ha, hlogs a ha]
          exact hs.acked_now a
      base_older := by
        rw [hbase]
        exact hs.base_older
      lead_split := by
        rw [hbase]
        exact hsplit
      log_le := by
        intro a e he
        rw [hterm]
        by_cases ha : a = n
        · subst ha
          exact hlog_le e he
        · rw [hlogs a ha] at he
          exact hs.log_le a e he
      bid_older := by
        intro c t log hb
        rw [hbid] at hb
        exact ⟨(hs.bid_older c t log hb).left.mono hlead,
          (hs.bid_older c t log hb).right⟩
      ballot_bid := by
        rw [hballot, hbid]
        exact hs.ballot_bid
      past := by
        intro a T P hheld hT
        rw [hterm] at hT ⊢
        have hold := hs.held_old hlead hacked hheld hT
        have hcases := hs.held_log hold
        by_cases ha : a = n
        · subst ha
          exact hstay (hpast T P hold hT hcases)
        · rw [hlogs a ha]
          exact hstay hcases
      voters := by
        intro a t c log hb hbd hnone T P hheld hT
        rw [hballot] at hb
        rw [hbid] at hbd
        rw [hleader] at hnone
        have hreach := hc.ballot_term a t c hb
        exact hstay (hs.voters a t c log hb hbd hnone T P
          (hs.held_old hlead hacked hheld (by omega)) hT)
      chosen := by
        intro t m hl
        rw [hleader] at hl
        rcases hs.chosen t m hl with ⟨R, hR, hall⟩
        refine ⟨R, hR, ?_⟩
        intro a ha
        have hreach := (hall a ha).left
        rw [hterm, hbase]
        refine ⟨hreach, ?_⟩
        intro T P hheld hT
        exact hstay ((hall a ha).right T P
          (hs.held_old hlead hacked hheld (by omega)) hT) }

theorem secure_extend (hleader : h.leader (h.term n) = some n)
    (he : termOf e = h.term n) :
    Secure termOf members (h.extend n e) := by
  have hlog := hc.leader_log n hleader
  have hlead : forall t, h.lead t <+: (h.extend n e).lead t :=
    prefix_lead_update (by rw [← hlog]; exact List.prefix_append _ _)
  refine secure_of_local hc hs (n := n) rfl rfl rfl rfl rfl hlead
    ?_ ?_ ?_ ?_ ?_ ?_ ?_ ?_
  · intro t
    by_cases ht : t = h.term n
    · subst ht
      rcases hs.lead_split (h.term n) with ⟨own, hsplit, hown⟩
      refine ⟨own ++ [e], ?_, ?_⟩
      · simp [extend, hlog, hsplit]
      intro x hx
      rcases List.mem_append.mp hx with hold | hnew
      · exact hown x hold
      · rw [List.mem_singleton.mp hnew]
        exact he
    · simpa [extend, ht] using hs.lead_split t
  · intro a ha
    simp [extend, ha]
  · intro b t hne
    by_cases hb : b = n
    · subst hb
      have ht : t ≠ h.term b := by
        rcases hne with hne | hne
        · exact absurd rfl hne
        · exact hne
      simp [extend, ht]
    · simp [extend, hb]
  · simp [extend]
  · have hnew : (h.extend n e).lead (h.term n) = (h.extend n e).log n := by
      simp [extend]
    rw [hnew]
    exact List.take_prefix _ _
  · intro a ha
    by_cases ht : h.term a = h.term n
    · rw [ht]
      have hle := hs.acked_le a (h.term n)
      have hnew : (h.extend n e).lead (h.term n) = h.lead (h.term n) ++ [e] := by
        simp [extend, hlog]
      rw [hnew, List.take_append_of_le_length hle]
    · simp [extend, ht]
  · intro x hx
    have hx' : x ∈ h.log n ++ [e] := by
      simpa [extend] using hx
    rcases List.mem_append.mp hx' with hold | hnew
    · exact hs.log_le n x hold
    · rw [List.mem_singleton.mp hnew, he]
  · intro T P _ _ hcases
    rcases hcases with hin | hover
    · left
      have hnew : (h.extend n e).log n = h.log n ++ [e] := by
        simp [extend]
      rw [hnew]
      exact hin.trans (List.prefix_append _ _)
    · exact Or.inr hover

theorem secure_accept [DecidableEq Entry] {offered : List Entry}
    (hoffer : LeaderLog h n offered) :
    Secure termOf members (h.accept n offered) := by
  have hnewlog : (h.accept n offered).log n = adopt (h.log n) offered := by
    simp [accept]
  have hnewack : (h.accept n offered).acked n (h.term n) =
      max (h.acked n (h.term n)) offered.length := by
    simp [accept]
  refine secure_of_local hc hs (n := n) rfl rfl rfl rfl rfl
    (fun t => List.prefix_rfl) hs.lead_split ?_ ?_ ?_ ?_ ?_ ?_ ?_
  · intro a ha
    simp [accept, ha]
  · intro b t hne
    by_cases hb : b = n
    · subst hb
      have ht : t ≠ h.term b := by
        rcases hne with hne | hne
        · exact absurd rfl hne
        · exact hne
      simp [accept, ht]
    · simp [accept, hb]
  · rw [hnewack]
    exact max_le (hs.acked_le n (h.term n)) hoffer.right.length_le
  · rw [hnewack, hnewlog]
    change (h.lead (h.term n)).take
      (max (h.acked n (h.term n)) offered.length) <+: adopt (h.log n) offered
    rcases Nat.le_total offered.length (h.acked n (h.term n)) with hle | hle
    · rw [max_eq_left hle]
      exact prefix_adopt_of_common (hs.acked_now n)
        (List.take_prefix _ _) hoffer.right
    · rw [max_eq_right hle, ← List.prefix_iff_eq_take.mp hoffer.right]
      exact prefix_adopt _ _
  · intro a _
    rfl
  · intro e he
    rw [hnewlog] at he
    rcases adopt_cases (h.log n) offered with hkeep | htake
    · rw [hkeep] at he
      exact hs.log_le n e he
    · rw [htake] at he
      exact hs.lead_le (hoffer.right.subset he)
  · intro T P _ hT hcases
    rw [hnewlog]
    rcases hcases with hin | hover
    · by_cases hbase : P <+: h.base (h.term n)
      · exact Or.inl (prefix_adopt_of_common hin
          (hbase.trans (hs.base_prefix_lead _)) hoffer.right)
      · exact Or.inr ⟨h.term n, hT, Nat.lt_succ_self _, hoffer.left, hbase⟩
    · exact Or.inr hover

variable [DecidableEq Entry]

theorem secure_step (hstep : Step termOf members LeaderLog h h') :
    Secure termOf members h' := by
  cases hstep with
  | advance hle => exact secure_advance hs hle
  | campaign n => exact secure_campaign hc hs n
  | vote hbid hup _ => exact secure_vote hc hs hbid hup
  | win hbid hnone hQ hvotes => exact secure_win hc hs hbid hnone hQ hvotes
  | extend hleader he => exact secure_extend hc hs hleader he
  | accept _ _ hoffer => exact secure_accept hc hs hoffer

theorem Secure.acked_mono (hstep : Step termOf members LeaderLog h h')
    (a : Node) (t : Nat) :
    h.acked a t ≤ h'.acked a t := by
  have hupdate : forall n k, h.acked n (h.term n) ≤ k ->
      h.acked a t ≤ Function.update h.acked n
        (Function.update (h.acked n) (h.term n) k) a t := by
    intro n k hk
    by_cases ha : a = n
    · subst ha
      by_cases ht : t = h.term a
      · subst ht
        simpa using hk
      · simp [ht]
    · simp [ha]
  cases hstep with
  | advance _ => exact Nat.le_refl _
  | campaign _ => exact Nat.le_refl _
  | vote _ _ _ => exact Nat.le_refl _
  | win _ hnone _ _ =>
    refine hupdate _ _ ((hs.acked_le _ _).trans ?_)
    rw [hc.lead_nil _ hnone]
    exact Nat.zero_le _
  | extend hleader _ =>
    refine hupdate _ _ ((hs.acked_le _ _).trans ?_)
    rw [← hc.leader_log _ hleader]
    exact Nat.le_succ _
  | accept _ _ _ =>
    exact hupdate _ _ (le_max_left _ _)

omit hc hs

theorem Reachable.secure (hreach : Reachable termOf members LeaderLog h) :
    Secure termOf members h := by
  induction hreach with
  | initial => exact secure_initial
  | step hprev hstep ih => exact secure_step hprev.coherent ih hstep

/-!
## Leader completeness
-/

omit [DecidableEq Entry] in
theorem Secure.completeness (hs : Secure termOf members h)
    (hcom : Committed termOf members h T P) :
    forall t n, T < t -> h.leader t = some n -> P <+: h.base t := by
  rcases hcom with ⟨hmark, Q, hQ, hheld⟩
  intro t
  induction t using Nat.strongRecOn with
  | ind t ih =>
    intro n hT hleader
    rcases hs.chosen t n hleader with ⟨R, hR, hall⟩
    rcases hQ.exists_mem_inter hR with ⟨a, haQ, haR⟩
    rcases (hall a haR).right T P ⟨hmark, hheld a haQ⟩ hT with hin | hover
    · exact hin
    · rcases hover with ⟨U, hTU, hUt, hU, hbase⟩
      rcases Option.ne_none_iff_exists'.mp hU with ⟨m, hm⟩
      exact absurd (ih U hUt m hTU hm) hbase

omit [DecidableEq Entry] in
theorem Secure.settled_lead (hs : Secure termOf members h)
    (hset : Settled termOf members h t P) (hleader : h.leader t ≠ none) :
    P <+: h.lead t := by
  rcases hset with hnil | ⟨T, P', hTt, hcom, hpre⟩
  · subst hnil
    exact List.nil_prefix
  rcases Nat.lt_or_eq_of_le hTt with hlt | heq
  · rcases Option.ne_none_iff_exists'.mp hleader with ⟨n, hn⟩
    exact hpre.trans
      ((hs.completeness hcom t n hlt hn).trans (hs.base_prefix_lead t))
  · subst heq
    exact hpre.trans hcom.left.left

omit [DecidableEq Node] in
theorem Secure.settled_adopt [DecidableEq Node] (hs : Secure termOf members h)
    {offered : List Entry} (hset : Settled termOf members h (h.term n) P)
    (hP : P <+: h.log n) (hoffer : LeaderLog h n offered) :
    P <+: adopt (h.log n) offered :=
  prefix_adopt_of_common hP (hs.settled_lead hset hoffer.left) hoffer.right

omit [DecidableEq Entry] in
theorem Secure.settled_comparable
    (hc : Coherent termOf members h) (hs : Secure termOf members h) {t' : Nat}
    {P' : List Entry} (hset : Settled termOf members h t P)
    (hset' : Settled termOf members h t' P') : P <+: P' ∨ P' <+: P := by
  rcases hset with hnil | ⟨T, R, hT, hcom, hpre⟩
  · subst hnil
    exact Or.inl List.nil_prefix
  rcases hset' with hnil' | ⟨T', R', hT', hcom', hpre'⟩
  · subst hnil'
    exact Or.inr List.nil_prefix
  have hled : forall {U S}, Committed termOf members h U S ->
      h.leader U ≠ none := by
    intro U S hcomU hnone
    have hpos := hcomU.left.length_pos
    have hle := hcomU.left.left.length_le
    rw [hc.lead_nil U hnone] at hle
    simp at hle
    simp [hle] at hpos
  rcases Nat.le_total T T' with hle | hle
  · have hin : P <+: h.lead T' :=
      hs.settled_lead (Or.inr ⟨T, R, hle, hcom, hpre⟩) (hled hcom')
    exact List.prefix_or_prefix_of_prefix hin
      (hpre'.trans hcom'.left.left)
  have hin : P' <+: h.lead T :=
    hs.settled_lead (Or.inr ⟨T', R', hle, hcom', hpre'⟩) (hled hcom)
  exact List.prefix_or_prefix_of_prefix
    (hpre.trans hcom.left.left) hin

end Security

end Consensus
end ChimeraMQ
