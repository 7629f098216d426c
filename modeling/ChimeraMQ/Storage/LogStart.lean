import ChimeraMQ.Storage.RangeRead
import ChimeraMQ.Storage.RetentionSuffix
import Mathlib.Data.List.TakeWhile

/-!
# Moving the start of the log

What can be read when the leading segments of a partition are removed: nothing
of what was in them, and all else as before.
-/

namespace ChimeraMQ
namespace Storage

open Foundation

namespace Partition

variable {p : Partition} {target offset : Nat} {s : Segment}

theorem segments_advanceLogStart (p : Partition) (target : Nat) :
    (p.advanceLogStart target).1.segments =
      p.older.dropWhile (fun s => decide (s.nextOff ≤ target)) ++
        [p.active] := by
  unfold segments advanceLogStart
  simp only [(removeBefore_eq target p.older p.dir).left]

theorem segments_advanceLogStart_sublist (p : Partition) (target : Nat) :
    (p.advanceLogStart target).1.segments.Sublist p.segments := by
  rw [segments_advanceLogStart]
  exact (List.dropWhile_sublist _).append_right _

theorem content_advanceLogStart (p : Partition) (target : Nat)
    (s : Segment) : (p.advanceLogStart target).1.content s = p.content s := by
  unfold content advanceLogStart
  simp only [(removeBefore_eq target p.older p.dir).right]
  exact content_removeFiles ..

theorem InPlace.advanceLogStart (h : p.InPlace) (target : Nat) :
    (p.advanceLogStart target).1.InPlace where
  ordered := h.ordered.sublist (p.segments_advanceLogStart_sublist target)
  stands := by
    intro s hs
    rw [content_advanceLogStart]
    exact h.stands s ((p.segments_advanceLogStart_sublist target).subset hs)

theorem InPlace.mem_takeWhile (h : p.InPlace) (hs : s ∈ p.older)
    (hle : s.nextOff ≤ target) :
    s ∈ p.older.takeWhile (fun s => decide (s.nextOff ≤ target)) := by
  have hordered : p.older.Pairwise (fun s t => s.nextOff ≤ t.baseOff) :=
    (List.pairwise_append.mp h.ordered).left
  have hbase : forall t, t ∈ p.older -> t.baseOff ≤ t.nextOff :=
    fun t ht => h.base_le (List.mem_append_left _ ht)
  generalize p.older = older at hs hordered hbase
  induction older with
  | nil => cases hs
  | cons t rest ih =>
  rcases List.pairwise_cons.mp hordered with ⟨hfirst, hrest⟩
  have ht : t.nextOff ≤ target := by
    rcases List.mem_cons.mp hs with heq | hlater
    · rw [← heq]
      exact hle
    · exact (hfirst s hlater).trans ((hbase s hs).trans hle)
  rw [List.takeWhile_cons, decide_eq_true ht, if_pos rfl]
  rcases List.mem_cons.mp hs with heq | hlater
  · rw [heq]
    exact List.mem_cons_self ..
  · exact List.mem_cons_of_mem t (ih hlater hrest
      (fun u hu => hbase u (List.mem_cons_of_mem t hu)))

theorem InPlace.read_removed (h : p.InPlace) (hs : s ∈ p.older)
    (hle : s.nextOff ≤ target) (hlt : offset < s.nextOff) :
    (p.advanceLogStart target).1.read offset =
      .error (.offsetNotFound offset) := by
  have hordered := h.ordered
  unfold segments at hordered
  rw [← List.takeWhile_append_dropWhile (p := fun s : Segment =>
    decide (s.nextOff ≤ target)) (l := p.older), List.append_assoc,
    ← segments_advanceLogStart] at hordered
  have hlater := (List.pairwise_append.mp hordered).right.right s
    (h.mem_takeWhile hs hle)
  have hnone : (p.advanceLogStart target).1.findSegment offset = none := by
    apply binarySearch_none
    intro t ht
    have hbase := hlater t ht
    have hbefore : offset < t.baseOff := Nat.lt_of_lt_of_le hlt hbase
    rw [if_neg (by omega), if_pos hbefore]
    exact Ordering.noConfusion
  unfold Partition.read
  rw [hnone]

theorem InPlace.read_kept (h : p.InPlace)
    (hfind : p.findSegment offset = some s)
    (hkept : s ∈ p.older -> target < s.nextOff) :
    (p.advanceLogStart target).1.read offset = p.read offset := by
  rcases mem_of_findSegment hfind with ⟨hs, hbase, hlt⟩
  have hsub := p.segments_advanceLogStart_sublist target
  have hs' : s ∈ (p.advanceLogStart target).1.segments := by
    rw [segments_advanceLogStart]
    rcases List.mem_append.mp hs with holder | hactive
    · apply List.mem_append_left
      rw [← List.takeWhile_append_dropWhile (p := fun s : Segment =>
        decide (s.nextOff ≤ target)) (l := p.older)] at holder
      rcases List.mem_append.mp holder with htake | hdrop
      · have hle := List.mem_takeWhile_imp htake
        rw [decide_eq_true_iff] at hle
        exact absurd (hkept ((List.takeWhile_sublist _).subset htake))
          (Nat.not_lt.mpr hle)
      · exact hdrop
    · exact List.mem_append_right _ hactive
  have hfind' : (p.advanceLogStart target).1.findSegment offset = some s :=
    findSegment_of_mem (h.ordered.sublist hsub)
      (fun t ht => h.base_le (hsub.subset ht)) hs' hbase hlt
  unfold Partition.read
  rw [hfind, hfind']
  simp only [content_advanceLogStart]

end Partition

end Storage
end ChimeraMQ
