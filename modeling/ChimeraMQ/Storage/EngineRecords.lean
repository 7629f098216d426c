import ChimeraMQ.Storage.EngineLog
import ChimeraMQ.Storage.RetentionSuffix
import ChimeraMQ.Storage.RangeRead

/-!
# The records of the hot storage engine

An engine that starts with empty directories reads, in every partition, exactly
the records that were appended to it, each at the offset that it got.
-/

namespace ChimeraMQ
namespace Storage

open Foundation
open Storage.Partition

def Complete (p : Partition) (assigned : List (Nat × Bytes)) : Prop :=
  exists front last, Retained p front last assigned ∧
    startOffset (front ++ [last]) = 0

variable {p : Partition} {assigned : List (Nat × Bytes)}

theorem Complete.read_iff (h : Complete p assigned) (offset : Nat)
    (data : Bytes) :
    p.read offset = .ok data <-> (offset, data) ∈ assigned := by
  rcases h with ⟨front, last, hretained, hstart⟩
  rw [hretained.read_iff, hstart, List.drop_zero]

theorem Complete.offset_lt (h : Complete p assigned) {e : Nat × Bytes}
    (he : e ∈ assigned) :
    e.1 < assigned.length := by
  rcases h with ⟨front, last, hretained, _⟩
  rcases List.mem_iff_getElem?.mp he with ⟨i, hi⟩
  rw [hretained.numbered i e hi]
  exact (List.getElem?_eq_some_iff.mp hi).1

theorem Complete.append (h : Complete p assigned)
    (hroom : assigned.length + 1 < 2 ^ 64) (data : Bytes) (now : Nat) :
    match p.append data now with
    | (q, .ok offset) => Complete q (assigned ++ [(offset, data)])
    | (q, .error _) => Complete q assigned := by
  rcases h with ⟨front, last, hretained, hstart⟩
  rcases hretained.append hroom data now with ⟨front', last', hsame, happend⟩
  rw [hstart] at hsame
  rcases hr : p.append data now with ⟨q, e | offset⟩
  · rw [hr] at happend
    exact ⟨front', last', happend, hsame⟩
  · rw [hr] at happend
    exact ⟨front', last', happend, hsame⟩

theorem complete_openPartition {topic : Bytes} {id maxSegSize : Nat}
    (hsmall : maxSegSize < 2 ^ 32) (now : Nat) :
    exists p, openPartition Disk.empty topic id maxSegSize now = .ok p ∧
      Complete p [] := by
  rcases LogDir.nil.openPartition topic id maxSegSize now with
    ⟨p, _, _, hopen, _⟩
  rcases retained_openPartition hsmall hopen with ⟨front, last, hretained⟩
  refine ⟨p, hopen, front, last, hretained, ?_⟩
  have hle := startOffset_le hretained.opened.dir
    (List.mem_append_right front (List.mem_singleton_self last))
  have hnext := hretained.length
  rw [List.length_nil, Chunk.next] at hnext
  omega

structure HotEngine.Stores (e : HotEngine)
    (assigned : PartitionKey -> List (Nat × Bytes)) : Prop where
  nodup : (e.partitions.map Prod.fst).Nodup
  segmentSize : e.segmentSize < 2 ^ 32
  opened : forall key p, getEntry key e.partitions = some p ->
    Complete p (assigned key)
  closed : forall key, getEntry key e.partitions = none ->
    assigned key = [] ∧ e.directory key = Disk.empty

namespace HotEngine

theorem stores_newEngine {size : Nat} (hsize : size < 2 ^ 32) :
    (newEngine size []).Stores (fun _ => []) where
  nodup := List.nodup_nil
  segmentSize := hsize
  opened := by
    intro key p hget
    cases hget
  closed := fun _ _ => ⟨rfl, rfl⟩

theorem Stores.putPartition {e : HotEngine}
    {assigned : PartitionKey -> List (Nat × Bytes)} (h : e.Stores assigned)
    (key : PartitionKey) {records : List (Nat × Bytes)}
    (hp : Complete p records) :
    (e.putPartition key p).Stores
      (Function.update assigned key records) where
  nodup := nodup_keys_setEntry h.nodup
  segmentSize := h.segmentSize
  opened := fun _ _ hget => HotEngine.opened_putPartition hp h.opened hget
  closed := by
    intro key' hget
    exact closed_putPartition
      (P := fun k records => records = [] ∧ e.directory k = Disk.empty)
      h.closed hget

theorem Stores.getOrCreatePartition {e : HotEngine}
    {assigned : PartitionKey -> List (Nat × Bytes)} (h : e.Stores assigned)
    (key : PartitionKey) (now : Nat) :
    exists e' p, e.getOrCreatePartition key now = .ok (e', p) ∧
      e'.Stores assigned ∧ Complete p (assigned key) := by
  unfold HotEngine.getOrCreatePartition
  cases hget : getEntry key e.partitions with
  | some p => exact ⟨e, p, rfl, h, h.opened key p hget⟩
  | none =>
  rcases h.closed key hget with ⟨hnone, hdir⟩
  rcases @complete_openPartition key.1 key.2 e.segmentSize h.segmentSize
    now with ⟨p, hopen, hp⟩
  rw [← hnone] at hp
  have hput := h.putPartition key hp
  rw [Function.update_eq_self] at hput
  refine ⟨e.putPartition key p, p, ?_, hput, hp⟩
  simp only [hdir, hopen]
  rfl

def recorded (assigned : PartitionKey -> List (Nat × Bytes))
    (key : PartitionKey) (data : Bytes) :
    Except SegmentError Nat -> PartitionKey -> List (Nat × Bytes)
  | .ok offset =>
    Function.update assigned key (assigned key ++ [(offset, data)])
  | .error _ => assigned

theorem Stores.append {e : HotEngine}
    {assigned : PartitionKey -> List (Nat × Bytes)} (h : e.Stores assigned)
    (key : PartitionKey) (hroom : (assigned key).length + 1 < 2 ^ 64)
    (data : Bytes) (now : Nat) :
    (e.append key data now).1.Stores
      (recorded assigned key data (e.append key data now).2) := by
  rcases h.getOrCreatePartition key now with ⟨e₁, p, hget, hstores, hp⟩
  have happend := hp.append hroom data now
  unfold HotEngine.append
  simp only [hget]
  rcases hr : p.append data now with ⟨q, err | offset⟩
  · rw [hr] at happend
    have hput := hstores.putPartition key happend
    rw [Function.update_eq_self] at hput
    exact hput
  · rw [hr] at happend
    exact hstores.putPartition key happend

theorem length_recorded (assigned : PartitionKey -> List (Nat × Bytes))
    (key : PartitionKey) (data : Bytes) (r : Except SegmentError Nat)
    (key' : PartitionKey) :
    (recorded assigned key data r key').length ≤
      (assigned key').length + 1 := by
  cases r with
  | error e => exact Nat.le_succ _
  | ok offset =>
  change (Function.update assigned key _ key').length ≤ _
  by_cases hkey : key' = key
  · rw [hkey, Function.update_self, List.length_append,
      List.length_singleton]
  · rw [Function.update_of_ne hkey]
    exact Nat.le_succ _

end HotEngine

/-!
## The records of an engine that is started again

An engine that is started on the directories of another one has its records.
-/

theorem Complete.reopen (h : Complete p assigned) (topic : Bytes) (id : Nat)
    {size : Nat} (hsmall : size < 2 ^ 32) (now : Nat) :
    exists q, openPartition p.dir topic id size now = .ok q ∧
      Complete q assigned := by
  rcases h with ⟨front, last, hretained, hstart⟩
  rcases hretained.opened.dir.openPartition topic id size now with
    ⟨q, front', last', hopen, hreloaded⟩
  have hsame : front' ++ [last'] = front ++ [last] := by
    rcases hreloaded.same with hnil | hsame
    · exact absurd hnil (List.append_ne_nil_of_right_ne_nil _
        (List.cons_ne_nil _ _))
    · exact hsame
  have hlast : last' = last := by
    rcases List.append_inj' hsame rfl with ⟨_, hlast⟩
    exact List.singleton_inj.mp hlast
  exists q
  constructor
  · exact hopen
  exists front', last'
  constructor
  · constructor
    · exact hreloaded.log
    · rw [hreloaded.maxSegSize]
      exact hsmall
    · rw [hlast]
      exact hretained.length
    · exact hretained.numbered
    · intro i e he hle
      rw [hsame] at hle
      have hat := hreloaded.keeps i e.2 (hretained.stored i e he hle)
      exact hat
  · rw [hsame]
    exact hstart

theorem Complete.numbered (h : Complete p assigned) {i : Nat} {e : Nat × Bytes}
    (he : assigned[i]? = some e) : e.1 = i := by
  rcases h with ⟨front, last, hretained, _⟩
  exact hretained.numbered i e he

theorem Complete.inPlace (h : Complete p assigned) : p.InPlace := by
  rcases h with ⟨front, last, hretained, _⟩
  exact hretained.opened.inPlace

structure HotEngine.Persists (e : HotEngine)
    (assigned : PartitionKey -> List (Nat × Bytes)) : Prop where
  nodup : (e.partitions.map Prod.fst).Nodup
  segmentSize : e.segmentSize < 2 ^ 32
  opened : forall key p, getEntry key e.partitions = some p ->
    Complete p (assigned key)
  closed : forall key, getEntry key e.partitions = none ->
    assigned key = [] ∧ e.directory key = Disk.empty ∨
      exists p, Complete p (assigned key) ∧ e.directory key = p.dir

namespace HotEngine

variable {e : HotEngine} {assigned : PartitionKey -> List (Nat × Bytes)}

theorem persists_newEngine {size : Nat} (hsize : size < 2 ^ 32) :
    (newEngine size []).Persists (fun _ => []) where
  nodup := List.nodup_nil
  segmentSize := hsize
  opened := by
    intro key p hget
    cases hget
  closed := fun _ _ => Or.inl ⟨rfl, rfl⟩

theorem Persists.putPartition (h : e.Persists assigned) (key : PartitionKey)
    {records : List (Nat × Bytes)} (hp : Complete p records) :
    (e.putPartition key p).Persists
      (Function.update assigned key records) where
  nodup := nodup_keys_setEntry h.nodup
  segmentSize := h.segmentSize
  opened := fun _ _ hget => HotEngine.opened_putPartition hp h.opened hget
  closed := by
    intro key' hget
    exact closed_putPartition
      (P := fun k records => records = [] ∧ e.directory k = Disk.empty ∨
        exists p, Complete p records ∧ e.directory k = p.dir)
      h.closed hget

theorem Persists.getOrCreatePartition (h : e.Persists assigned)
    (key : PartitionKey) (now : Nat) :
    exists e' p, e.getOrCreatePartition key now = .ok (e', p) ∧
      e'.Persists assigned ∧ Complete p (assigned key) := by
  unfold HotEngine.getOrCreatePartition
  cases hget : getEntry key e.partitions with
  | some p => exact ⟨e, p, rfl, h, h.opened key p hget⟩
  | none =>
  have hopen : exists p, openPartition (e.directory key) key.1 key.2
      e.segmentSize now = .ok p ∧ Complete p (assigned key) := by
    rcases h.closed key hget with ⟨hnone, hdir⟩ | ⟨p, hp, hdir⟩
    · rw [hnone, hdir]
      exact complete_openPartition h.segmentSize now
    · rw [hdir]
      exact hp.reopen key.1 key.2 h.segmentSize now
  rcases hopen with ⟨p, hopen, hp⟩
  have hput := h.putPartition key hp
  rw [Function.update_eq_self] at hput
  exists e.putPartition key p, p
  constructor
  · simp only [hopen]
    rfl
  · exact ⟨hput, hp⟩

theorem Persists.append (h : e.Persists assigned) (key : PartitionKey)
    (hroom : (assigned key).length + 1 < 2 ^ 64) (data : Bytes) (now : Nat) :
    (e.append key data now).1.Persists
      (recorded assigned key data (e.append key data now).2) := by
  rcases h.getOrCreatePartition key now with ⟨e₁, p, hget, hpersists, hp⟩
  have happend := hp.append hroom data now
  unfold HotEngine.append
  simp only [hget]
  rcases hr : p.append data now with ⟨q, err | offset⟩
  · rw [hr] at happend
    have hput := hpersists.putPartition key happend
    rw [Function.update_eq_self] at hput
    exact hput
  · rw [hr] at happend
    exact hpersists.putPartition key happend

theorem Persists.reopen (h : e.Persists assigned) {size : Nat}
    (hsmall : size < 2 ^ 32) :
    (newEngine size e.allDirs).Persists assigned where
  nodup := List.nodup_nil
  segmentSize := hsmall
  opened := by
    intro key p hget
    cases hget
  closed := by
    intro key _
    have hdirs : getEntry key e.allDirs =
        ((getEntry key e.partitions).map Partition.dir).or
          (getEntry key e.dirs) :=
      getEntry_foldl_setEntry Partition.dir h.nodup key e.dirs
    have hdir : (newEngine size e.allDirs).directory key =
        (((getEntry key e.partitions).map Partition.dir).or
          (getEntry key e.dirs)).getD Disk.empty := by
      rw [← hdirs]
      rfl
    cases hget : getEntry key e.partitions with
    | some p =>
      right
      exists p
      constructor
      · exact h.opened key p hget
      · rw [hdir, hget]
        rfl
    | none =>
    rw [hdir, hget]
    exact h.closed key hget

end HotEngine

end Storage
end ChimeraMQ
