import ChimeraMQ.Broker.Deduper
import ChimeraMQ.Foundation.Run
import Mathlib.Data.Finset.Card

/-!
# Eviction of what a deduper has seen

A full window forgets some of its entries.  The loop that looks for the oldest
of them collects each entry that is older than all it has met before, so what it
finds depends on the order in which it meets them.
-/

namespace ChimeraMQ
namespace Broker

open Foundation
open Deduper

/-!
## Record lows

What a loop collects that looks for ever smaller times.
-/

section Lows

variable {κ : Type}

def lows (bound : Int) : List (κ × Int) -> List (κ × Int)
  | [] => []
  | e :: rest => if e.2 < bound then e :: lows e.2 rest else lows bound rest

/-- The times go down from each entry to the next. -/
def Descends (entries : List (κ × Int)) : Prop :=
  entries.Pairwise (fun a b => b.2 < a.2)

variable {bound : Int}

theorem lows_append_of_le {before : List (κ × Int)}
    (h : forall x, x ∈ before -> bound ≤ x.2) (rest : List (κ × Int)) :
    lows bound (before ++ rest) = lows bound rest := by
  induction before with
  | nil => rfl
  | cons e before ih =>
  have he := h e List.mem_cons_self
  rw [List.cons_append, lows, if_neg (by omega)]
  exact ih (fun x hx => h x (List.mem_cons_of_mem e hx))

theorem lows_cases (bound : Int) (entries : List (κ × Int)) :
    (forall x, x ∈ entries -> bound ≤ x.2) ∨
      exists before e rest, entries = before ++ e :: rest ∧
        (forall x, x ∈ before -> bound ≤ x.2) ∧ e.2 < bound := by
  induction entries with
  | nil => exact Or.inl (fun x hx => absurd hx List.not_mem_nil)
  | cons e entries ih =>
  by_cases he : e.2 < bound
  · exact Or.inr ⟨[], e, entries, rfl,
      fun x hx => absurd hx List.not_mem_nil, he⟩
  rcases ih with hall | ⟨before, e', rest, hsplit, hbefore, hlow⟩
  · left
    intro x hx
    rcases List.mem_cons.mp hx with rfl | hx
    · omega
    · exact hall x hx
  refine Or.inr ⟨e :: before, e', rest, by rw [hsplit]; rfl, ?_, hlow⟩
  intro x hx
  rcases List.mem_cons.mp hx with rfl | hx
  · omega
  · exact hbefore x hx

theorem split_unique {a b : List (κ × Int)} {x y : κ × Int}
    {s t : List (κ × Int)} (ha : forall z, z ∈ a -> bound ≤ z.2)
    (hb : forall z, z ∈ b -> bound ≤ z.2) (hx : x.2 < bound) (hy : y.2 < bound)
    (h : a ++ x :: s = b ++ y :: t) : x = y ∧ s = t := by
  induction a generalizing b with
  | nil =>
    cases b with
    | nil => exact List.cons.inj h
    | cons z b =>
    have hz := hb z List.mem_cons_self
    rw [← (List.cons.inj h).1] at hz
    omega
  | cons z a ih =>
  have hz := ha z List.mem_cons_self
  cases b with
  | nil =>
    rw [(List.cons.inj h).1] at hz
    omega
  | cons z' b =>
  exact ih (fun u hu => ha u (List.mem_cons_of_mem z hu))
    (fun u hu => hb u (List.mem_cons_of_mem z' hu))
    (List.cons.inj h).2

theorem lt_of_mem_lows {entries : List (κ × Int)} {x : κ × Int}
    (hx : x ∈ lows bound entries) : x.2 < bound := by
  induction entries generalizing bound with
  | nil => cases hx
  | cons e entries ih =>
  rw [lows] at hx
  split at hx
  · rename_i hlow
    rcases List.mem_cons.mp hx with rfl | hx
    · exact hlow
    · exact Int.lt_trans (ih hx) hlow
  · exact ih hx

theorem descends_lows (bound : Int) (entries : List (κ × Int)) :
    Descends (lows bound entries) := by
  induction entries generalizing bound with
  | nil => exact List.Pairwise.nil
  | cons e entries ih =>
  rw [lows]
  split
  · exact List.pairwise_cons.mpr ⟨fun x hx => lt_of_mem_lows hx, ih e.2⟩
  · exact ih bound

theorem lows_of_descends {entries : List (κ × Int)}
    (h : Descends (entries.filter (fun x => x.2 < bound))) :
    lows bound entries = entries.filter (fun x => x.2 < bound) := by
  induction entries generalizing bound with
  | nil => rfl
  | cons e entries ih =>
  rw [lows]
  by_cases he : e.2 < bound
  · rw [List.filter_cons_of_pos (by simpa using he)] at h ⊢
    rcases List.pairwise_cons.mp h with ⟨hlater, hrest⟩
    have hsame : entries.filter (fun x => x.2 < bound) =
        entries.filter (fun x => x.2 < e.2) := by
      refine List.filter_congr (fun x hx => ?_)
      by_cases hx' : x.2 < bound
      · have hlow := hlater x
          (List.mem_filter.mpr ⟨hx, by simpa using hx'⟩)
        simp [hx', hlow]
      · have hnot : ¬ x.2 < e.2 := by omega
        simp [hx', hnot]
    rw [if_pos he, hsame]
    rw [hsame] at hrest
    rw [ih hrest]
  · rw [List.filter_cons_of_neg (by simpa using he)] at h ⊢
    rw [if_neg he]
    exact ih h

theorem lows_sublist (bound : Int) (entries : List (κ × Int)) :
    (lows bound entries).Sublist (entries.filter (fun x => x.2 < bound)) := by
  induction entries generalizing bound with
  | nil => exact List.Sublist.refl []
  | cons e entries ih =>
  rw [lows]
  split
  · rename_i he
    rw [List.filter_cons_of_pos (by simpa using he)]
    refine List.Sublist.cons_cons e ((ih e.2).trans ?_)
    refine List.monotone_filter_right entries (fun x hx => ?_)
    simp only [decide_eq_true_eq] at hx ⊢
    omega
  · rename_i he
    rw [List.filter_cons_of_neg (by simpa using he)]
    exact ih bound

theorem filter_subset_take_lows_iff (bound : Int) {entries : List (κ × Int)}
    (hdup : entries.Nodup) (n : Nat) :
    (forall x, x ∈ entries -> x.2 < bound -> x ∈ (lows bound entries).take n) <->
      Descends (entries.filter (fun x => x.2 < bound)) ∧
        (entries.filter (fun x => x.2 < bound)).length ≤ n := by
  constructor
  · intro hall
    have hsub : ((lows bound entries).take n).Sublist
        (entries.filter (fun x => x.2 < bound)) :=
      (List.take_sublist n _).trans (lows_sublist bound entries)
    have hlength : (entries.filter (fun x => x.2 < bound)).length ≤
        ((lows bound entries).take n).length := by
      refine (List.subperm_of_subset (hdup.filter _) ?_).length_le
      intro x hx
      rcases List.mem_filter.mp hx with ⟨hmem, hlow⟩
      exact hall x hmem (of_decide_eq_true hlow)
    have hsame := hsub.eq_of_length_le hlength
    refine ⟨?_, ?_⟩
    · rw [← hsame]
      exact (descends_lows bound entries).sublist (List.take_sublist n _)
    · rw [List.length_take] at hlength
      omega
  · rintro ⟨hdescends, hlength⟩ x hx hlow
    rw [lows_of_descends hdescends, List.take_of_length_le hlength]
    exact List.mem_filter.mpr ⟨hx, by simpa using hlow⟩

end Lows

namespace Deduper

theorem oldestKeys_eq (toRemove : Nat) (oldestTime : Int)
    (entries : List (Bytes × Int)) :
    oldestKeys toRemove oldestTime entries =
      ((lows oldestTime entries).take toRemove).map Prod.fst := by
  have hloop : forall (entries : List (Bytes × Int)) (t : Int)
      (found : List Bytes), found.length ≤ toRemove ->
      (entries.foldl
        (fun (acc : Int × List Bytes) e =>
          if e.2 < acc.1 then
            (e.2, if acc.2.length < toRemove then acc.2 ++ [e.1] else acc.2)
          else acc) (t, found)).2 =
        found ++ ((lows t entries).take (toRemove - found.length)).map
          Prod.fst := by
    intro entries
    induction entries with
    | nil =>
      intro t found _
      simp [lows]
    | cons e entries ih =>
    intro t found hfound
    rw [List.foldl_cons, lows]
    by_cases he : e.2 < t
    · rw [if_pos he, if_pos he]
      by_cases hroom : found.length < toRemove
      · have hleft : toRemove - found.length =
            (toRemove - (found.length + 1)) + 1 := by
          omega
        simp only [hroom, if_true]
        rw [ih _ _ (by rw [List.length_append]; exact hroom), hleft,
          List.take_succ_cons, List.length_append]
        simp
      · simp only [hroom, if_false]
        have hfull : toRemove - found.length = 0 := by omega
        rw [ih _ _ hfound, hfull, List.take_zero, List.take_zero]
    · rw [if_neg he, if_neg he]
      exact ih t found hfound
  have hall := hloop entries oldestTime [] (Nat.zero_le _)
  simpa [oldestKeys] using hall

/-!
## One eviction
-/

def toRemove (d : Deduper) : Nat :=
  if d.maxEntries / 4 < 1 then 1 else d.maxEntries / 4

/-- Something is removed, and nothing that is later than what is kept. -/
structure EvictsOldest (d : Deduper) (w : DedupWindow) (c : CheckContext) :
    Prop where
  removes : exists x, x ∈ w.seen ∧ x ∉ (d.evictOldest w c).seen
  oldest : forall x, x ∈ w.seen -> x ∉ (d.evictOldest w c).seen ->
    forall k, k ∈ (d.evictOldest w c).seen -> x.2 ≤ k.2

/--
The loop meets an entry from before the eviction, all older ones from the latest
to the oldest, and there is room to collect them.
-/
def MeetsInOrder (d : Deduper) (w : DedupWindow) (c : CheckContext) : Prop :=
  exists before e rest, c.seen.order w.seen = before ++ e :: rest ∧
    (forall x, x ∈ before -> c.later ≤ x.2) ∧ e.2 < c.later ∧
    Descends (rest.filter (fun x => x.2 < e.2)) ∧
    (rest.filter (fun x => x.2 < e.2)).length < d.toRemove

theorem toRemove_pos (d : Deduper) : 0 < d.toRemove := by
  unfold toRemove
  split
  · omega
  · omega

def removed (d : Deduper) (w : DedupWindow) (c : CheckContext) :
    List (Bytes × Int) :=
  (lows c.later (c.seen.order w.seen)).take d.toRemove

variable {d : Deduper} {w : DedupWindow} {c : CheckContext} {x : Bytes × Int}

theorem removed_subset (hx : x ∈ d.removed w c) : x ∈ w.seen := by
  have hlow := (lows_sublist _ _).subset (List.mem_of_mem_take hx)
  exact (c.seen.perm w.seen).mem_iff.mp (List.mem_filter.mp hlow).1

theorem mem_evictOldest_iff (hkeys : (w.seen.map Prod.fst).Nodup) :
    x ∈ (d.evictOldest w c).seen <-> x ∈ w.seen ∧ x ∉ d.removed w c := by
  have hseen : (d.evictOldest w c).seen =
      w.seen.filter (fun e => e.1 ∉ (d.removed w c).map Prod.fst) := by
    unfold evictOldest removed
    rw [← oldestKeys_eq]
    rfl
  rw [hseen, List.mem_filter, decide_eq_true_iff]
  refine and_congr_right (fun hx => not_congr ?_)
  constructor
  · intro hkey
    rcases List.mem_map.mp hkey with ⟨y, hy, hsame⟩
    have hxy : y = x := List.inj_on_of_nodup_map hkeys (removed_subset hy) hx
      hsame
    exact hxy ▸ hy
  · exact fun hmem => List.mem_map.mpr ⟨x, hmem, rfl⟩

theorem removed_eq (d : Deduper) {before rest : List (Bytes × Int)}
    {e : Bytes × Int} (hsplit : c.seen.order w.seen = before ++ e :: rest)
    (hbefore : forall x, x ∈ before -> c.later ≤ x.2) (hlow : e.2 < c.later) :
    d.removed w c = e :: (lows e.2 rest).take (d.toRemove - 1) := by
  have hroom : d.toRemove = (d.toRemove - 1) + 1 := by
    have hpos := d.toRemove_pos
    omega
  unfold removed
  rw [hsplit, lows_append_of_le hbefore, lows, if_pos hlow, hroom,
    List.take_succ_cons, Nat.add_sub_cancel]

theorem evictsOldest_iff (hkeys : (w.seen.map Prod.fst).Nodup) :
    d.EvictsOldest w c <-> d.MeetsInOrder w c := by
  have hperm := c.seen.perm w.seen
  have hdup : (c.seen.order w.seen).Nodup :=
    hperm.nodup_iff.mpr (List.Nodup.of_map Prod.fst hkeys)
  have hgone : forall {x}, x ∈ w.seen ->
      (x ∉ (d.evictOldest w c).seen <-> x ∈ d.removed w c) := by
    intro x hx
    rw [mem_evictOldest_iff hkeys, not_and, not_not]
    exact ⟨fun h => h hx, fun h _ => h⟩
  rcases lows_cases c.later (c.seen.order w.seen) with
    hall | ⟨before, e, rest, hsplit, hbefore, hlow⟩
  · -- there is nothing that the loop collects
    constructor
    · rintro ⟨⟨x, hx, hnot⟩, -⟩
      have hmem := List.mem_of_mem_take ((hgone hx).mp hnot)
      have hlate := hall x (hperm.mem_iff.mpr hx)
      exact absurd (lt_of_mem_lows hmem) (by omega)
    · rintro ⟨before, e, rest, hsplit, -, hlow, -⟩
      have hlate := hall e (by rw [hsplit]; simp)
      omega
  have hremoved := d.removed_eq hsplit hbefore hlow
  have hseen : forall {x}, x ∈ before ++ e :: rest <-> x ∈ w.seen := by
    intro x
    rw [← hsplit]
    exact hperm.mem_iff
  have hrest : rest.Nodup := by
    rw [hsplit] at hdup
    exact (List.nodup_cons.mp (List.nodup_append.mp hdup).2.1).2
  have hcollected := filter_subset_take_lows_iff e.2 hrest
    (d.toRemove - 1)
  have hpos := d.toRemove_pos
  constructor
  · rintro ⟨-, holdest⟩
    have hall : forall x, x ∈ rest -> x.2 < e.2 ->
        x ∈ (lows e.2 rest).take (d.toRemove - 1) := by
      intro x hx hlt
      have hxseen := hseen.mp (List.mem_append_right before
        (List.mem_cons_of_mem e hx))
      by_contra hnot
      have hkept : x ∈ (d.evictOldest w c).seen := by
        refine (mem_evictOldest_iff hkeys).mpr ⟨hxseen, ?_⟩
        rw [hremoved]
        intro hmem
        rcases List.mem_cons.mp hmem with rfl | hmem
        · omega
        · exact hnot hmem
      have heseen := hseen.mp (List.mem_append_right before
        List.mem_cons_self)
      have hle := holdest e heseen
        ((hgone heseen).mpr (hremoved ▸ List.mem_cons_self)) x hkept
      omega
    rcases hcollected.mp hall with ⟨hdescends, hlength⟩
    exact ⟨before, e, rest, hsplit, hbefore, hlow, hdescends, by omega⟩
  rintro ⟨before', e', rest', hsplit', hbefore', hlow', hdescends, hroom⟩
  rcases split_unique hbefore hbefore' hlow hlow'
    (hsplit.symm.trans hsplit') with ⟨rfl, rfl⟩
  have hall := hcollected.mpr ⟨hdescends, by omega⟩
  have heseen := hseen.mp (List.mem_append_right before
    List.mem_cons_self)
  refine ⟨⟨e, heseen, (hgone heseen).mpr (hremoved ▸ List.mem_cons_self)⟩,
    ?_⟩
  intro x hx hnot k hk
  have hxe : x.2 ≤ e.2 := by
    have hmem := (hgone hx).mp hnot
    rw [hremoved] at hmem
    rcases List.mem_cons.mp hmem with rfl | hmem
    · omega
    · exact Int.le_of_lt (lt_of_mem_lows (List.mem_of_mem_take hmem))
  have hek : e.2 ≤ k.2 := by
    rcases (mem_evictOldest_iff hkeys).mp hk with ⟨hkseen, hkkept⟩
    rw [hremoved] at hkkept
    rcases List.mem_append.mp (hseen.mpr hkseen) with hfirst | hlater
    · have hlate := hbefore k hfirst
      omega
    rcases List.mem_cons.mp hlater with rfl | hlater
    · omega
    · by_contra hlt
      exact hkkept (List.mem_cons_of_mem e
        (hall k hlater (by omega)))
  omega

def FirstAlone (w : DedupWindow) (c : CheckContext) : Prop :=
  forall before e rest, c.seen.order w.seen = before ++ e :: rest ->
    (forall x, x ∈ before -> c.later ≤ x.2) -> e.2 < c.later ->
      forall x, x ∈ rest -> x.2 ≠ e.2

theorem lt_of_removed (hkeys : (w.seen.map Prod.fst).Nodup)
    (horder : d.MeetsInOrder w c) (halone : FirstAlone w c) {k : Bytes × Int}
    (hx : x ∈ d.removed w c) (hk : k ∈ (d.evictOldest w c).seen) :
    x.2 < k.2 := by
  have hevicts := (evictsOldest_iff hkeys).mpr horder
  rcases horder with ⟨before, e, rest, hsplit, hbefore, hlow, -⟩
  have hremoved := d.removed_eq hsplit hbefore hlow
  have he : e ∈ d.removed w c := hremoved ▸ List.mem_cons_self
  have hek := hevicts.oldest e (removed_subset he)
    (fun hkept => ((mem_evictOldest_iff hkeys).mp hkept).2 he) k hk
  rcases (mem_evictOldest_iff hkeys).mp hk with ⟨hkseen, hkkept⟩
  have hne : k.2 ≠ e.2 := by
    have hmem := (c.seen.perm w.seen).mem_iff.mpr hkseen
    rw [hsplit] at hmem
    rcases List.mem_append.mp hmem with hfirst | hlater
    · have hlate := hbefore k hfirst
      omega
    · rcases List.mem_cons.mp hlater with rfl | hlater
      · exact absurd he hkkept
      · exact halone before e rest hsplit hbefore hlow k hlater
  rw [hremoved] at hx
  rcases List.mem_cons.mp hx with rfl | hx
  · omega
  · have hxe := lt_of_mem_lows (List.mem_of_mem_take hx)
    omega

theorem length_evictOldest (d : Deduper) (c : CheckContext)
    (hkeys : (w.seen.map Prod.fst).Nodup) :
    w.seen.length ≤ (d.evictOldest w c).seen.length + d.toRemove := by
  have hcover : forall x, x ∈ w.seen ->
      x ∈ (d.evictOldest w c).seen ++ d.removed w c := by
    intro x hx
    by_cases hmem : x ∈ d.removed w c
    · exact List.mem_append_right _ hmem
    · exact List.mem_append_left _
        ((mem_evictOldest_iff hkeys).mpr ⟨hx, hmem⟩)
  have hle := (List.subperm_of_subset (List.Nodup.of_map Prod.fst hkeys)
    hcover).length_le
  have htake : (d.removed w c).length ≤ d.toRemove := List.length_take_le _ _
  rw [List.length_append] at hle
  omega

/-- The keys of the last three quarters of the entries, rounded up. -/
def keepCount (d : Deduper) : Nat :=
  (3 * d.maxEntries + 3) / 4

theorem keepCount_le (d : Deduper) :
    d.keepCount + d.toRemove ≤ d.maxEntries + 1 := by
  have hpos := d.maxEntries_pos
  unfold keepCount toRemove
  split
  · omega
  · omega

/-!
## What a window remembers

The history of a producer lists what has been recorded, the latest first.
-/

def LatestIn (recorded : List (Bytes × Int)) (front : List (Bytes × Int))
    (e : Bytes × Int) : Prop :=
  e.1 ∉ front.map Prod.fst ∧ exists back, recorded = front ++ e :: back

/--
The window has nothing but what has been recorded at last of each key, and all
of that which has not expired and belongs to the last keys.
-/
structure Remembers (d : Deduper) (seen : List (Bytes × Int)) (clock : Int)
    (recorded : List (Bytes × Int)) : Prop where
  sorted : recorded.Pairwise (fun a b => b.2 ≤ a.2)
  past : forall e, e ∈ recorded -> e.2 ≤ clock
  keys : (seen.map Prod.fst).Nodup
  latest : forall e, e ∈ seen -> exists front, LatestIn recorded front e
  kept : forall front e, LatestIn recorded front e ->
    (front.map Prod.fst).toFinset.card < d.keepCount ->
    clock - e.2 < d.windowSize -> e ∈ seen

theorem remembers_nil (d : Deduper) (clock : Int) :
    Remembers d [] clock [] := by
  refine ⟨List.Pairwise.nil, ?_, List.nodup_nil, ?_, ?_⟩
  · intro e he
    cases he
  · intro e he
    cases he
  · rintro front e ⟨-, back, hnil⟩ _ _
    exact absurd hnil.symm (by simp)

variable {seen recorded : List (Bytes × Int)} {clock : Int}

theorem Remembers.later {clock' : Int} (h : Remembers d seen clock recorded)
    (hle : clock ≤ clock') : Remembers d seen clock' recorded :=
  ⟨h.sorted, fun e he => (h.past e he).trans hle, h.keys, h.latest,
    fun front e hlatest hrecent hfresh =>
      h.kept front e hlatest hrecent (by omega)⟩

theorem Remembers.mem_front (h : Remembers d seen clock recorded)
    {e : Bytes × Int} (hx : x ∈ seen) {front : List (Bytes × Int)}
    (he : LatestIn recorded front e) (hlt : e.2 < x.2) : x ∈ front := by
  rcases h.latest x hx with ⟨front', -, back', hsplit'⟩
  rcases he with ⟨-, back, hsplit⟩
  have hmem : x ∈ recorded := by
    rw [hsplit']
    simp
  have hsorted := h.sorted
  rw [hsplit] at hmem hsorted
  rcases List.mem_append.mp hmem with hfront | hback
  · exact hfront
  rcases List.mem_cons.mp hback with rfl | hback
  · omega
  · have hle := (List.pairwise_cons.mp
      (List.pairwise_append.mp hsorted).2.1).1 x hback
    omega

theorem Remembers.record {kept : List (Bytes × Int)} {now : Int}
    (h : Remembers d seen clock recorded) {k : Bytes} (hnow : clock ≤ now)
    (hsub : kept.Sublist seen)
    (hlost : forall front e, e ∈ seen -> e ∉ kept -> e.1 ≠ k ->
      now - e.2 < d.windowSize -> LatestIn recorded front e ->
      d.keepCount ≤ (insert k (front.map Prod.fst).toFinset).card) :
    Remembers d (setEntry k now kept) now ((k, now) :: recorded) := by
  have hkept : (kept.map Prod.fst).Nodup := h.keys.sublist (hsub.map _)
  refine ⟨?_, ?_, nodup_keys_setEntry hkept, ?_, ?_⟩
  · refine List.pairwise_cons.mpr ⟨fun e he => ?_, h.sorted⟩
    exact (h.past e he).trans hnow
  · intro e he
    rcases List.mem_cons.mp he with rfl | he
    · exact Int.le_refl _
    · exact (h.past e he).trans hnow
  · rintro ⟨key, t⟩ he
    rcases (mem_setEntry_iff hkept).mp he with ⟨hkey, ht⟩ | ⟨hother, hmem⟩
    · rw [hkey, ht]
      exact ⟨[], List.not_mem_nil, recorded, rfl⟩
    rcases h.latest _ (hsub.subset hmem) with ⟨front, hfront, back, hsplit⟩
    refine ⟨(k, now) :: front, ?_, back, by rw [hsplit]; rfl⟩
    rw [List.map_cons, List.mem_cons, not_or]
    exact ⟨hother, hfront⟩
  rintro front ⟨key, t⟩ ⟨hfront, back, hsplit⟩ hrecent hfresh
  cases front with
  | nil =>
    rcases List.cons.inj hsplit with ⟨hnew, -⟩
    rw [← hnew]
    exact (mem_setEntry_iff hkept).mpr (Or.inl ⟨rfl, rfl⟩)
  | cons x front =>
  rcases List.cons.inj hsplit with ⟨hx, hrest⟩
  rw [← hx, List.map_cons, List.toFinset_cons] at hrecent
  rw [← hx, List.map_cons, List.mem_cons, not_or] at hfront
  have hlatest : LatestIn recorded front (key, t) :=
    ⟨hfront.2, back, hrest⟩
  have hseen := h.kept front (key, t) hlatest
    (Nat.lt_of_le_of_lt
      (Finset.card_le_card (Finset.subset_insert _ _)) hrecent)
    (by omega)
  refine (mem_setEntry_iff hkept).mpr (Or.inr ⟨hfront.1, ?_⟩)
  by_contra hnot
  have hmany := hlost front (key, t) hseen hnot hfront.1 hfresh hlatest
  exact absurd hrecent (Nat.not_lt.mpr hmany)

/--
If something has to be evicted for a message, the loop meets what is left of the
window in order, without ties.
-/
def EvictsInOrder (d : Deduper) (w : DedupWindow) (c : CheckContext) : Prop :=
  d.maxEntries ≤ (d.evictExpired w c.now).seen.length ->
    d.MeetsInOrder (d.evictExpired w c.now) c ∧
      FirstAlone (d.evictExpired w c.now) c

theorem makeRoom_sublist (d : Deduper) (w : DedupWindow) (c : CheckContext) :
    (d.makeRoom w c).seen.Sublist w.seen := by
  unfold makeRoom
  split
  · simp only
    split
    · exact List.filter_sublist.trans List.filter_sublist
    · exact List.filter_sublist
  · exact List.Sublist.refl _

theorem makeRoom_lost (hkeys : (w.seen.map Prod.fst).Nodup)
    (horder : d.EvictsInOrder w c) {e : Bytes × Int} (he : e ∈ w.seen)
    (hlost : e ∉ (d.makeRoom w c).seen) (hfresh : c.now - e.2 < d.windowSize) :
    d.maxEntries ≤ (d.makeRoom w c).seen.length + d.toRemove ∧
      forall x, x ∈ (d.makeRoom w c).seen ->
        e.2 < x.2 ∧ c.now - x.2 < d.windowSize := by
  have hleft : e ∈ (d.evictExpired w c.now).seen :=
    List.mem_filter.mpr ⟨he, by simpa using hfresh⟩
  unfold makeRoom at hlost ⊢
  by_cases hfull : w.seen.length ≥ d.maxEntries
  · simp only [hfull, if_true] at hlost ⊢
    by_cases hstill : (d.evictExpired w c.now).seen.length ≥ d.maxEntries
    · have hkeys' : ((d.evictExpired w c.now).seen.map Prod.fst).Nodup :=
        hkeys.sublist (List.filter_sublist.map _)
      have hlength := d.length_evictOldest c hkeys'
      rcases horder hstill with ⟨hmeets, halone⟩
      simp only [hstill, if_true] at hlost ⊢
      have hgone : e ∈ d.removed (d.evictExpired w c.now) c := by
        by_contra hnot
        exact hlost ((mem_evictOldest_iff hkeys').mpr ⟨hleft, hnot⟩)
      refine ⟨by omega, fun x hx => ⟨?_, ?_⟩⟩
      · exact lt_of_removed hkeys' hmeets halone hgone hx
      · have hxleft := ((mem_evictOldest_iff hkeys').mp hx).1
        exact of_decide_eq_true (List.mem_filter.mp hxleft).2
    · simp only [hstill, if_false] at hlost
      exact absurd hleft hlost
  · simp only [hfull, if_false] at hlost
    exact absurd he hlost

theorem Remembers.check (h : Remembers d w.seen clock recorded) {key : Bytes}
    (hnow : clock ≤ c.now) (hnew : d.seenRecently w key c.now = false)
    (horder : d.EvictsInOrder w c) (seq : Nat) :
    Remembers d (Deduper.record (d.makeRoom w c) seq key c.now).seen c.now
      ((key, c.now) :: recorded) := by
  have hsub := d.makeRoom_sublist w c
  refine h.record hnow hsub ?_
  intro front e he hlost _ hfresh hlatest
  rcases makeRoom_lost h.keys horder he hlost hfresh with ⟨hlength, hkept⟩
  have hfront : forall x, x ∈ (d.makeRoom w c).seen -> x ∈ front :=
    fun x hx => h.mem_front (hsub.subset hx) hlatest (hkept x hx).1
  have habsent : key ∉ (d.makeRoom w c).seen.map Prod.fst := by
    intro hmem
    rcases List.mem_map.mp hmem with ⟨x, hx, hkey⟩
    have hget : getEntry x.1 w.seen = some x.2 :=
      getEntry_of_mem h.keys (hsub.subset hx)
    unfold seenRecently at hnew
    rw [← hkey, hget] at hnew
    exact of_decide_eq_false hnew (hkept x hx).2
  have hnodup : ((d.makeRoom w c).seen.map Prod.fst).Nodup :=
    h.keys.sublist (hsub.map _)
  have hcard : (insert key ((d.makeRoom w c).seen.map Prod.fst).toFinset).card =
      (d.makeRoom w c).seen.length + 1 := by
    rw [Finset.card_insert_of_notMem (by simpa using habsent),
      List.toFinset_card_of_nodup hnodup, List.length_map]
  have hkeys : ((d.makeRoom w c).seen.map Prod.fst).toFinset ⊆
      (front.map Prod.fst).toFinset := by
    intro j hj
    rw [List.mem_toFinset] at hj ⊢
    exact List.map_subset Prod.fst hfront hj
  have hle := Finset.card_le_card (Finset.insert_subset_insert key hkeys)
  have hroom := d.keepCount_le
  omega

theorem Remembers.evictExpired {now : Int}
    (h : Remembers d w.seen clock recorded) (hnow : clock ≤ now) :
    Remembers d (d.evictExpired w now).seen now recorded := by
  have hsub : (d.evictExpired w now).seen.Sublist w.seen := List.filter_sublist
  refine ⟨h.sorted, fun e he => (h.past e he).trans hnow,
    h.keys.sublist (hsub.map _), fun e he => h.latest e (hsub.subset he), ?_⟩
  intro front e hlatest hrecent hfresh
  exact List.mem_filter.mpr ⟨h.kept front e hlatest hrecent (by omega),
    by simpa using hfresh⟩

theorem Remembers.congr {d' : Deduper} (h : Remembers d seen clock recorded)
    (hsize : d'.windowSize = d.windowSize) (hmax : d'.maxEntries = d.maxEntries) :
    Remembers d' seen clock recorded := by
  refine ⟨h.sorted, h.past, h.keys, h.latest, ?_⟩
  unfold keepCount
  rw [hsize, hmax]
  exact h.kept

end Deduper

/-!
## Runs
-/

structure DedupLedger where
  deduper : Deduper
  clock : Int
  recorded : List (Bytes × Int)

namespace DedupLedger

inductive Action where
  | check (producerID : Bytes) (seq : Nat) (key : Bytes) (c : CheckContext)
  | evictExpired (now : Int)
  | removeProducer (producerID : Bytes)

/-- The clock does not go back; what is no duplicate is recorded. -/
def step (p : Bytes) (s : DedupLedger) : Action -> Option DedupLedger
  | .check producerID seq key c =>
    if s.clock ≤ c.now ∧ c.now ≤ c.later then
      let r := s.deduper.check producerID seq key c
      some
        { deduper := r.1
          clock := c.later
          recorded :=
            if producerID = p ∧ r.2 = false then (key, c.now) :: s.recorded
            else s.recorded }
    else none
  | .evictExpired now =>
    if s.clock ≤ now then
      some
        { s with
          deduper := s.deduper.evictExpiredAll now
          clock := now }
    else none
  | .removeProducer producerID =>
    some { s with deduper := s.deduper.removeProducer producerID }

def start (enabled : Bool) (windowSize maxEntries : Int) (now : Int) :
    DedupLedger where
  deduper := newDeduper enabled windowSize maxEntries
  clock := now
  recorded := []

def Forgets (d : Deduper) (p producerID : Bytes) (c : CheckContext) : Prop :=
  getEntry producerID d.windows = none ∧ maxProducers ≤ d.windows.length ∧
    oldestProducer (c.windows.order d.windows) = some p

def Spares (p : Bytes) (s : DedupLedger) : Action -> Prop
  | .check producerID _ key c =>
    s.deduper.enabled = true ∧
      (producerID ≠ p -> ¬ Forgets s.deduper p producerID c) ∧
      (producerID = p -> s.deduper.Tracks p c ∧
        forall w, getEntry p s.deduper.windows = some w ->
          s.deduper.seenRecently w key c.now = false ->
            s.deduper.EvictsInOrder w c)
  | .evictExpired now =>
    forall w, getEntry p s.deduper.windows = some w ->
      now - w.lastActivity ≤ producerTTL
  | .removeProducer producerID => producerID ≠ p

/--
A message of the last ones that have been recorded of the producer is reported
as a duplicate within the window.
-/
def Reports (p : Bytes) (s : DedupLedger) : Prop :=
  forall front e, LatestIn s.recorded front e ->
    (front.map Prod.fst).toFinset.card < s.deduper.keepCount ->
    forall (seq : Nat) (c : CheckContext), s.clock ≤ c.now ->
      c.now - e.2 < s.deduper.windowSize ->
        (s.deduper.check p seq e.1 c).2 = true

structure Sound (p : Bytes) (s : DedupLedger) : Prop where
  unknown : getEntry p s.deduper.windows = none -> s.recorded = []
  known : forall w, getEntry p s.deduper.windows = some w ->
    s.deduper.enabled = true ∧
      Remembers s.deduper w.seen s.clock s.recorded

theorem sound_start (p : Bytes) (enabled : Bool) (windowSize maxEntries : Int)
    (now : Int) : Sound p (start enabled windowSize maxEntries now) := by
  refine ⟨fun _ => rfl, ?_⟩
  intro w hw
  cases hw

variable {p : Bytes} {s : DedupLedger}

theorem Sound.reports (h : Sound p s) :
    Reports p s := by
  intro front e hlatest hrecent seq c hclock hfresh
  cases hget : getEntry p s.deduper.windows with
  | none =>
    rcases hlatest with ⟨-, back, hsplit⟩
    rw [h.unknown hget] at hsplit
    exact absurd hsplit.symm (by simp)
  | some w =>
  rcases h.known w hget with ⟨hon, hremembers⟩
  have hseen := hremembers.kept front e hlatest hrecent (by omega)
  have hentry := getEntry_of_mem hremembers.keys hseen
  unfold check track seenRecently
  simp only [hon, hget, hentry, hfresh, Bool.not_true, Bool.false_eq_true,
    if_false, decide_true, if_true]

theorem evictOldestProducer_eq (d : Deduper) (c : CheckContext) :
    exists windows, d.evictOldestProducer c = { d with windows := windows } := by
  unfold evictOldestProducer
  split
  · split
    · exact ⟨d.windows, rfl⟩
    · exact ⟨_, rfl⟩
  · exact ⟨d.windows, rfl⟩

theorem track_eq (d : Deduper) (producerID : Bytes) (c : CheckContext) :
    exists windows,
      (d.track producerID c).1 = { d with windows := windows } := by
  unfold track
  cases getEntry producerID d.windows with
  | some w => exact ⟨d.windows, rfl⟩
  | none =>
  rcases evictOldestProducer_eq d c with ⟨windows, hevict⟩
  by_cases hfull : d.windows.length ≥ maxProducers
  · simp only [hfull, if_true, hevict]
    split
    · exact ⟨windows, rfl⟩
    · exact ⟨windows, rfl⟩
  · simp only [hfull, if_false]
    exact ⟨d.windows, rfl⟩

variable {d : Deduper} {producerID : Bytes} {c : CheckContext}

theorem track_new (hget : getEntry producerID d.windows = none)
    (htracks : d.Tracks producerID c) :
    (d.track producerID c).2 = some (newWindow c.now) := by
  unfold Tracks track at htracks
  unfold track
  rw [hget] at htracks ⊢
  simp only at htracks ⊢
  generalize (if d.windows.length ≥ maxProducers then d.evictOldestProducer c
    else d) = d' at htracks ⊢
  by_cases hfull : d'.windows.length ≥ maxProducers
  · rw [if_pos hfull] at htracks
    cases htracks
  · rw [if_neg hfull]

theorem check_tracked {d' : Deduper} {w : DedupWindow} (hon : d.enabled = true)
    (htrack : d.track producerID c = (d', some w)) (seq : Nat) (key : Bytes) :
    d.check producerID seq key c =
      if d'.seenRecently w key c.now = true then
        (d'.putWindow producerID { w with lastActivity := c.now }, true)
      else
        (d'.putWindow producerID
          (Deduper.record (d'.makeRoom { w with lastActivity := c.now } c) seq
            key c.now), false) := by
  unfold check
  simp only [hon, htrack, Bool.not_true, Bool.false_eq_true, if_false]
  rfl

theorem getEntry_check_other (hother : producerID ≠ p)
    (hspared : ¬ Forgets d p producerID c) (seq : Nat) (key : Bytes) :
    getEntry p (d.check producerID seq key c).1.windows =
      getEntry p d.windows := by
  have htracked : getEntry p (d.track producerID c).1.windows =
      getEntry p d.windows := by
    unfold track
    cases hget : getEntry producerID d.windows with
    | some w => rfl
    | none =>
    by_cases hfull : d.windows.length ≥ maxProducers
    · have hevict : getEntry p (d.evictOldestProducer c).windows =
          getEntry p d.windows := by
        unfold evictOldestProducer
        cases hold : oldestProducer (c.windows.order d.windows) with
        | none => rfl
        | some id =>
        have hid : p ≠ id := by
          intro hsame
          exact hspared ⟨hget, hfull, hsame ▸ hold⟩
        simp only
        split
        · rfl
        · exact getEntry_deleteEntry_ne hid d.windows
      simp only [hfull, if_true]
      split
      · exact hevict
      · exact hevict
    · simp only [hfull, if_false]
  cases hon : d.enabled with
  | false => rw [check_disabled hon]
  | true =>
  cases htrack : d.track producerID c with
  | mk d' found =>
    rw [htrack] at htracked
    cases found with
    | none =>
      unfold check
      simp only [hon, htrack, Bool.not_true, Bool.false_eq_true,
        if_false]
      exact htracked
    | some w =>
    rw [check_tracked hon htrack]
    split
    · exact (getEntry_setEntry_ne (Ne.symm hother) _ _).trans htracked
    · exact (getEntry_setEntry_ne (Ne.symm hother) _ _).trans htracked

theorem check_eq (d : Deduper) (producerID : Bytes) (seq : Nat)
    (key : Bytes) (c : CheckContext) :
    exists windows,
      (d.check producerID seq key c).1 = { d with windows := windows } := by
  by_cases hon : d.enabled = true
  · rcases track_eq d producerID c with ⟨windows, hwindows⟩
    rcases htrack : d.track producerID c with ⟨d', found⟩
    rw [htrack] at hwindows
    simp only at hwindows
    cases found with
    | none =>
      refine ⟨windows, ?_⟩
      unfold check
      simp only [hon, htrack, Bool.not_true, Bool.false_eq_true, if_false]
      rw [hwindows, hon]
    | some w =>
    rw [check_tracked hon htrack, hwindows]
    split
    · exact ⟨_, rfl⟩
    · exact ⟨_, rfl⟩
  · rw [check_disabled (Bool.eq_false_of_not_eq_true hon)]
    exact ⟨d.windows, rfl⟩

theorem sound_putWindow {w : DedupWindow} {clock : Int}
    {recorded : List (Bytes × Int)} (hon : d.enabled = true)
    (h : d.Remembers w.seen clock recorded) :
    Sound p ⟨d.putWindow p w, clock, recorded⟩ := by
  have hget : getEntry p (d.putWindow p w).windows = some w :=
    getEntry_setEntry p w d.windows
  refine ⟨fun hnone => ?_, fun w' hw' => ⟨hon, ?_⟩⟩
  · rw [hget] at hnone
    cases hnone
  · rw [hget] at hw'
    rw [← Option.some.inj hw']
    exact h.congr rfl rfl

theorem sound_check {w : DedupWindow} (hon : s.deduper.enabled = true)
    (htrack : s.deduper.track p c = (d, some w)) (hon' : d.enabled = true)
    (h : d.Remembers w.seen s.clock s.recorded) (hnow : s.clock ≤ c.now)
    (hlater : c.now ≤ c.later) {key : Bytes}
    (horder : d.seenRecently w key c.now = false -> d.EvictsInOrder w c)
    (seq : Nat) :
    Sound p
      { deduper := (s.deduper.check p seq key c).1
        clock := c.later
        recorded :=
          if p = p ∧ (s.deduper.check p seq key c).2 = false then
            (key, c.now) :: s.recorded
          else s.recorded } := by
  rw [check_tracked hon htrack]
  by_cases hseen : d.seenRecently w key c.now = true
  · simp only [hseen, if_true, Bool.true_eq_false, and_false, if_false]
    exact sound_putWindow hon' (h.later (hnow.trans hlater))
  have hnew := Bool.eq_false_of_not_eq_true hseen
  simp only [hnew, Bool.false_eq_true, if_false, and_self, if_true]
  have hchecked := Remembers.check
    (w := { w with lastActivity := c.now }) h hnow hnew (horder hnew) seq
  exact sound_putWindow hon' (hchecked.later hlater)

theorem sound_check_own (h : Sound p s) (hon : s.deduper.enabled = true)
    (htracks : s.deduper.Tracks p c) (hnow : s.clock ≤ c.now)
    (hlater : c.now ≤ c.later) {key : Bytes}
    (horder : forall w, getEntry p s.deduper.windows = some w ->
      s.deduper.seenRecently w key c.now = false ->
        s.deduper.EvictsInOrder w c) (seq : Nat) :
    Sound p
      { deduper := (s.deduper.check p seq key c).1
        clock := c.later
        recorded :=
          if p = p ∧ (s.deduper.check p seq key c).2 = false then
            (key, c.now) :: s.recorded
          else s.recorded } := by
  cases hget : getEntry p s.deduper.windows with
  | some w =>
    have htrack : s.deduper.track p c = (s.deduper, some w) := by
      unfold track
      rw [hget]
    exact sound_check hon htrack hon (h.known w hget).2 hnow hlater
      (horder w hget) seq
  | none =>
  rcases track_eq s.deduper p c with ⟨windows, hwindows⟩
  have hnew := track_new hget htracks
  have htrack : s.deduper.track p c =
      ({ s.deduper with windows := windows },
        some (newWindow c.now)) :=
    Prod.ext hwindows hnew
  have hpos := s.deduper.maxEntries_pos
  refine sound_check hon htrack hon ?_ hnow hlater ?_ seq
  · rw [h.unknown hget]
    exact remembers_nil _ _
  · intro _ hfull
    exact absurd hfull (Nat.not_le.mpr hpos)

theorem sound_check_other (h : Sound p s) (hother : producerID ≠ p)
    (hspared : ¬ Forgets s.deduper p producerID c) (hnow : s.clock ≤ c.now)
    (hlater : c.now ≤ c.later) (seq : Nat) (key : Bytes) :
    Sound p ⟨(s.deduper.check producerID seq key c).1, c.later, s.recorded⟩ := by
  have hsame := getEntry_check_other hother hspared seq key
  rcases check_eq s.deduper producerID seq key c with ⟨windows, hcheck⟩
  rw [hcheck] at hsame ⊢
  refine ⟨fun hnone => h.unknown (hsame.symm.trans hnone), fun w hw => ?_⟩
  rcases h.known w (hsame.symm.trans hw) with ⟨hon, hremembers⟩
  exact ⟨hon, (hremembers.later (hnow.trans hlater)).congr rfl rfl⟩

theorem sound_evictExpired (h : Sound p s) {now : Int} (hnow : s.clock ≤ now)
    (hactive : forall w, getEntry p s.deduper.windows = some w ->
      now - w.lastActivity ≤ producerTTL) :
    Sound p ⟨s.deduper.evictExpiredAll now, now, s.recorded⟩ := by
  have hmap := getEntry_map p
    (fun _ w => s.deduper.evictExpired w now)
    (s.deduper.windows.filter (fun e => now - e.2.lastActivity ≤ producerTTL))
  change getEntry p (s.deduper.evictExpiredAll now).windows = _ at hmap
  cases hget : getEntry p s.deduper.windows with
  | none =>
    refine ⟨fun _ => h.unknown hget, fun w hw => ?_⟩
    rw [getEntry_filter_of_none hget] at hmap
    rw [hmap] at hw
    cases hw
  | some w =>
  rcases h.known w hget with ⟨hon, hremembers⟩
  have hkept := getEntry_filter_of_some hget
    (p := fun e => now - e.2.lastActivity ≤ producerTTL)
    (decide_eq_true (hactive w hget))
  rw [hkept] at hmap
  refine ⟨fun hnone => ?_, fun w' hw' => ⟨hon, ?_⟩⟩
  · rw [hmap] at hnone
    cases hnone
  · rw [hmap] at hw'
    rw [← Option.some.inj hw']
    exact (hremembers.evictExpired hnow).congr rfl rfl

theorem sound_step (s : DedupLedger) (a : Action) (s' : DedupLedger)
    (h : Sound p s) (hspares : Spares p s a) (hstep : step p s a = some s') :
    Sound p s' := by
  cases a with
  | check producerID seq key c =>
    rcases hspares with ⟨hon, hother, hown⟩
    simp only [step] at hstep
    split at hstep
    · rename_i hclock
      cases hstep
      by_cases hp : producerID = p
      · subst hp
        rcases hown rfl with ⟨htracks, horder⟩
        exact sound_check_own h hon htracks hclock.1 hclock.2 horder seq
      · simp only [hp, false_and, if_false]
        exact sound_check_other h hp (hother hp) hclock.1 hclock.2 seq key
    · cases hstep
  | evictExpired now =>
    simp only [step] at hstep
    split at hstep
    · rename_i hclock
      cases hstep
      exact sound_evictExpired h hclock hspares
    · cases hstep
  | removeProducer producerID =>
  cases hstep
  have hsame : getEntry p (s.deduper.removeProducer producerID).windows =
      getEntry p s.deduper.windows :=
    getEntry_deleteEntry_ne (Ne.symm hspares) _
  refine ⟨fun hnone => h.unknown (hsame.symm.trans hnone), fun w hw => ?_⟩
  rcases h.known w (hsame.symm.trans hw) with ⟨hon, hremembers⟩
  exact ⟨hon, hremembers.congr rfl rfl⟩

/--
Evictions remove the oldest entries exactly if the loop meets them in order;
without others the last messages are reported as duplicates.
-/
theorem eviction_keeps_last (p : Bytes) :
    (forall (d : Deduper) (w : DedupWindow) (c : CheckContext),
      (w.seen.map Prod.fst).Nodup ->
        (d.EvictsOldest w c <-> d.MeetsInOrder w c)) ∧
      forall (enabled : Bool) (windowSize maxEntries now : Int)
        (actions : List Action) (t : DedupLedger),
        Meets (step p) (Spares p) (start enabled windowSize maxEntries now)
          actions ->
        run? (step p) (start enabled windowSize maxEntries now) actions =
          some t -> Reports p t := by
  refine ⟨fun d w c hkeys => evictsOldest_iff hkeys, ?_⟩
  intro enabled windowSize maxEntries now actions t hmeets hrun
  exact Sound.reports (run?_invariant_of_meets sound_step
    (sound_start p enabled windowSize maxEntries now) hmeets hrun)

/--
A check of the producer whose loop, if something has to be evicted, begins with
the one oldest entry.
-/
def OldestFirst (p : Bytes) (s : DedupLedger) : Action -> Prop
  | .check producerID _ _ c =>
    s.deduper.enabled = true ∧ producerID = p ∧ s.deduper.Tracks p c ∧
      forall w, w ∈ getEntry p s.deduper.windows ->
        s.deduper.maxEntries ≤ (s.deduper.evictExpired w c.now).seen.length ->
          exists e, e ∈ (s.deduper.evictExpired w c.now).seen ∧
            e.2 < c.later ∧
              c.seen.order (s.deduper.evictExpired w c.now).seen =
                e :: (s.deduper.evictExpired w c.now).seen.erase e ∧
              forall x, x ∈ (s.deduper.evictExpired w c.now).seen.erase e ->
                e.2 < x.2
  | _ => False

instance (p : Bytes) (s : DedupLedger) (a : Action) :
    Decidable (OldestFirst p s a) :=
  match a with
  | .check _ _ _ _ => inferInstanceAs (Decidable (_ ∧ _ ∧ _ ∧ _))
  | .evictExpired _ => isFalse id
  | .removeProducer _ => isFalse id

theorem spares_of_oldestFirst {a : Action} (h : OldestFirst p s a) :
    Spares p s a := by
  cases a with
  | evictExpired now => exact h.elim
  | removeProducer producerID => exact h.elim
  | check producerID seq key c =>
  rcases h with ⟨hon, hp, htracks, hfirst⟩
  refine ⟨hon, fun hne => absurd hp hne, fun _ => ⟨htracks, ?_⟩⟩
  intro w hw _ hfull
  rcases hfirst w hw hfull with ⟨e, -, hlow, horder, hlater⟩
  have hnone : (((s.deduper.evictExpired w c.now).seen.erase e).filter
      (fun x => x.2 < e.2)) = [] := by
    rw [List.filter_eq_nil_iff]
    intro x hx
    have hx := hlater x hx
    simp only [decide_eq_true_eq]
    omega
  constructor
  · refine ⟨[], e, _, horder, fun x hx => absurd hx List.not_mem_nil, hlow,
      ?_, ?_⟩
    · rw [hnone]
      exact List.Pairwise.nil
    · rw [hnone]
      exact toRemove_pos _
  intro before e' rest hsplit hbefore hlow' x hx
  rw [horder] at hsplit
  cases before with
  | nil =>
    cases hsplit
    exact fun hsame => absurd (hlater x hx) (by omega)
  | cons y before =>
  have hy := hbefore y List.mem_cons_self
  rw [← (List.cons.inj hsplit).1] at hy
  omega

/-- The time of a check, and the entry that its loops meet first. -/
def checkAt (now : Int) (first : Bytes × Int) : CheckContext where
  now := now
  later := now
  seen := .first first
  windows := .listed _

def fourNumbers : List Action :=
  [.check (ascii "p") 1 (ascii "1") (checkAt 1 (ascii "1", 1)),
    .check (ascii "p") 2 (ascii "2") (checkAt 2 (ascii "1", 1)),
    .check (ascii "p") 3 (ascii "3") (checkAt 3 (ascii "1", 1)),
    .check (ascii "p") 4 (ascii "4") (checkAt 4 (ascii "1", 1))]

/-- A window with room for four entries, of which the first is the oldest. -/
def fullWindow : DedupWindow where
  seen := [(ascii "1", 1), (ascii "2", 2), (ascii "3", 3), (ascii "4", 4)]
  lastSeq := 4
  lastActivity := 4

/-- The fifth number evicts the first one, and the sixth one the second. -/
def sixNumbers : List Action :=
  fourNumbers ++
    [.check (ascii "p") 5 (ascii "5") (checkAt 5 (ascii "1", 1)),
      .check (ascii "p") 6 (ascii "6") (checkAt 6 (ascii "2", 2))]

theorem eviction_keeps_last_sixNumbers :
    (newDeduper true 1000 4).EvictsOldest fullWindow
        (checkAt 5 (ascii "1", 1)) ∧
      exists t, run? (step (ascii "p")) (start true 1000 4 0) sixNumbers =
        some t ∧ Reports (ascii "p") t := by
  constructor
  · refine ((eviction_keeps_last (ascii "p")).1 _ _ _ (by decide +kernel)).mpr
      ⟨[], (ascii "1", 1), [(ascii "2", 2), (ascii "3", 3), (ascii "4", 4)],
        by decide +kernel, fun x hx => absurd hx List.not_mem_nil,
        by decide +kernel, ?_, by decide +kernel⟩
    exact List.Pairwise.nil
  have hfirst : Meets (step (ascii "p")) (OldestFirst (ascii "p"))
      (start true 1000 4 0) sixNumbers := by
    decide +kernel
  exact ⟨_, rfl, (eviction_keeps_last (ascii "p")).2 true 1000 4 0 sixNumbers _
    (hfirst.mono (fun _ _ => spares_of_oldestFirst)) rfl⟩

/-- The loop meets the newest entry first, which is then recorded again. -/
theorem not_reports_newestFirst :
    ¬ (newDeduper true 1000 4).EvictsOldest fullWindow
        (checkAt 5 (ascii "4", 4)) ∧
      ¬ forall t, run? (step (ascii "p")) (start true 1000 4 0)
        (fourNumbers ++
          [.check (ascii "p") 5 (ascii "5") (checkAt 5 (ascii "4", 4))]) =
          some t -> Reports (ascii "p") t := by
  constructor
  · intro h
    have hle := h.oldest (ascii "4", 4) (by decide +kernel) (by decide +kernel)
      (ascii "1", 1) (by decide +kernel)
    exact absurd hle (by decide)
  intro h
  have hduplicate := h _ rfl [(ascii "5", 5)] (ascii "4", 4)
    ⟨by decide +kernel, [(ascii "3", 3), (ascii "2", 2), (ascii "1", 1)],
      by decide +kernel⟩ (by decide +kernel) 4 (checkAt 6 (ascii "5", 5))
    (by decide +kernel) (by decide +kernel)
  revert hduplicate
  decide +kernel

/-!
## What is reported
-/

/-- Nothing stands in a window of the producer that was not recorded. -/
def Recorded (p : Bytes) (s : DedupLedger) : Prop :=
  forall w x, (p, w) ∈ s.deduper.windows -> x ∈ w.seen -> x ∈ s.recorded

theorem track_subset (d : Deduper) (producerID : Bytes) (c : CheckContext) :
    (d.track producerID c).1.windows ⊆ d.windows ∧
      forall w x, (d.track producerID c).2 = some w -> x ∈ w.seen ->
        (producerID, w) ∈ d.windows := by
  have hroom : (if d.windows.length ≥ maxProducers then
      d.evictOldestProducer c else d).windows ⊆ d.windows := by
    unfold evictOldestProducer
    split
    · split
      · split
        · exact List.Subset.refl _
        · exact List.filter_subset_self _
      · exact List.Subset.refl _
    · exact List.Subset.refl _
  unfold track
  cases hget : getEntry producerID d.windows with
  | some w =>
    refine ⟨List.Subset.refl _, fun w' x hw' _ => ?_⟩
    cases hw'
    exact mem_of_getEntry hget
  | none =>
  simp only
  generalize (if d.windows.length ≥ maxProducers then
    d.evictOldestProducer c else d) = d' at hroom ⊢
  split
  · exact ⟨hroom, fun w x hw => by cases hw⟩
  · refine ⟨hroom, fun w x hw hx => ?_⟩
    cases hw
    cases hx

theorem check_untracked {d' : Deduper} (hon : d.enabled = true)
    (htrack : d.track producerID c = (d', none)) (seq : Nat) (key : Bytes) :
    d.check producerID seq key c = (d', false) := by
  unfold check
  simp only [hon, htrack, Bool.not_true, Bool.false_eq_true, if_false]

theorem mem_check {w : DedupWindow} {x : Bytes × Int} {seq : Nat} {key : Bytes}
    (hw : (p, w) ∈ (d.check producerID seq key c).1.windows)
    (hx : x ∈ w.seen) :
    (exists w', (p, w') ∈ d.windows ∧ x ∈ w'.seen) ∨
      producerID = p ∧ (d.check producerID seq key c).2 = false ∧
        x = (key, c.now) := by
  cases hon : d.enabled with
  | false =>
    rw [check_disabled hon] at hw
    exact Or.inl ⟨w, hw, hx⟩
  | true =>
  rcases track_subset d producerID c with ⟨hsub, hu⟩
  rcases htrack : d.track producerID c with ⟨d', found⟩
  rw [htrack] at hsub hu
  cases found with
  | none =>
    rw [check_untracked hon htrack] at hw
    exact Or.inl ⟨w, hsub hw, hx⟩
  | some u =>
  rw [check_tracked hon htrack] at hw ⊢
  split at hw
  · rcases mem_setEntry hw with hnew | hold
    · cases hnew
      exact Or.inl ⟨u, hu u x rfl hx, hx⟩
    · exact Or.inl ⟨w, hsub hold, hx⟩
  rename_i hseen
  rcases mem_setEntry hw with hnew | hold
  · cases hnew
    rcases mem_setEntry hx with hlast | hkept
    · exact Or.inr ⟨rfl, by rw [if_neg hseen], hlast⟩
    · have hbefore := (makeRoom_sublist d' _ c).subset hkept
      exact Or.inl ⟨u, hu u x rfl hbefore, hbefore⟩
  · exact Or.inl ⟨w, hsub hold, hx⟩

theorem recorded_step (s : DedupLedger) (a : Action) (s' : DedupLedger)
    (h : Recorded p s) (hstep : step p s a = some s') : Recorded p s' := by
  intro w x hw hx
  cases a with
  | check producerID seq key c =>
    simp only [step] at hstep
    split at hstep
    · cases hstep
      rcases mem_check hw hx with ⟨w', hw', hx'⟩ | ⟨hp, hnew, hlast⟩
      · simp only
        split
        · exact List.mem_cons_of_mem _ (h w' x hw' hx')
        · exact h w' x hw' hx'
      rw [hlast]
      simp only [hp, true_and]
      subst hp
      rw [if_pos hnew]
      exact List.mem_cons_self ..
    · cases hstep
  | evictExpired now =>
    simp only [step] at hstep
    split at hstep
    · cases hstep
      rcases List.mem_map.mp hw with ⟨e, he, heq⟩
      cases heq
      exact h e.2 x (List.mem_filter.mp he).left (List.mem_filter.mp hx).left
    · cases hstep
  | removeProducer producerID =>
    cases hstep
    exact h w x (List.mem_filter.mp hw).left hx

/--
Whatever was evicted and in whatever order: a message is reported as a duplicate
only if one with its key was recorded of its producer within the window.
-/
theorem duplicate_recorded {enabled : Bool} {windowSize maxEntries now : Int}
    {actions : List Action} {t : DedupLedger}
    (hrun : run? (step p) (start enabled windowSize maxEntries now) actions =
      some t) {seq : Nat} {key : Bytes} {c : CheckContext}
    (hreport : (t.deduper.check p seq key c).2 = true) :
    exists seenAt, (key, seenAt) ∈ t.recorded ∧
      c.now - seenAt < t.deduper.windowSize := by
  have hknown : Recorded p t :=
    run?_invariant recorded_step (fun _ _ hw _ => by cases hw) hrun
  cases hon : t.deduper.enabled with
  | false =>
    rw [check_disabled hon] at hreport
    cases hreport
  | true =>
  rcases htrack : t.deduper.track p c with ⟨d', found⟩
  have hsize := (track_windowSize t.deduper p c).left
  have hw := (track_subset t.deduper p c).right
  rw [htrack] at hsize hw
  cases found with
  | none =>
    rw [check_untracked hon htrack] at hreport
    cases hreport
  | some w =>
  rw [check_tracked hon htrack] at hreport
  split at hreport
  · rename_i hseen
    unfold seenRecently at hseen
    split at hseen
    · rename_i seenAt hget
      have hmem := mem_of_getEntry hget
      rw [← hsize]
      exact ⟨seenAt, hknown w _ (hw w _ rfl hmem) hmem, of_decide_eq_true hseen⟩
    · cases hseen
  · cases hreport

theorem duplicate_recorded_firstAgain :
    exists t seenAt, run? (step (ascii "p")) (start true 1000 4 0)
        (fourNumbers.take 1) = some t ∧ (ascii "1", seenAt) ∈ t.recorded ∧
      2 - seenAt < t.deduper.windowSize := by
  have hrun : run? (step (ascii "p")) (start true 1000 4 0)
      (fourNumbers.take 1) = some _ := rfl
  rcases @duplicate_recorded _ _ _ _ _ _ _ hrun 1 (ascii "1")
    (checkAt 2 (ascii "1", 1)) (by decide +kernel) with
    ⟨seenAt, hmem, hwithin⟩
  exact ⟨_, seenAt, hrun, hmem, hwithin⟩

end DedupLedger

end Broker
end ChimeraMQ
