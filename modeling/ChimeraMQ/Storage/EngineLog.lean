import ChimeraMQ.Storage.Engine
import ChimeraMQ.Storage.PartitionCrash

/-!
# The logs of the hot storage engine

Every partition, open or not, has a log.  Opening partitions and appending
keep all records, and so does a crash that cuts the files behind them.
-/

namespace ChimeraMQ
namespace Storage

open Foundation
open Storage.Partition

namespace HotEngine

def dirOf (e : HotEngine) (key : PartitionKey) : Disk :=
  match getEntry key e.partitions with
  | some p => p.dir
  | none => e.directory key

structure Logs (e : HotEngine) (logs : PartitionKey -> List Chunk) : Prop where
  nodup : (e.partitions.map Prod.fst).Nodup
  segmentSize : e.segmentSize < 2 ^ 32
  opened : forall key p, getEntry key e.partitions = some p ->
    p.maxSegSize = e.segmentSize ∧
      exists front last, logs key = front ++ [last] ∧ OpenLog p front last
  closed : forall key, getEntry key e.partitions = none ->
    LogDir (e.directory key) (logs key)

def Has (e : HotEngine) (logs : PartitionKey -> List Chunk)
    (key : PartitionKey) (offset : Nat) (data : Bytes) : Prop :=
  At (e.dirOf key) (logs key) offset data

structure Advanced (e : HotEngine) (logs : PartitionKey -> List Chunk)
    (e' : HotEngine) (logs' : PartitionKey -> List Chunk) (n : Nat) :
    Prop where
  holds : e'.Logs logs'
  keeps : forall key offset data, e.Has logs key offset data ->
    e'.Has logs' key offset data
  next_le : forall key, endOffset (logs' key) ≤ endOffset (logs key) + n

variable {e : HotEngine} {logs : PartitionKey -> List Chunk}

theorem Logs.dir (h : e.Logs logs) (key : PartitionKey) :
    LogDir (e.dirOf key) (logs key) := by
  unfold dirOf
  cases hget : getEntry key e.partitions with
  | none => exact h.closed key hget
  | some p =>
  rcases (h.opened key p hget).right with ⟨front, last, hlogs, hlog⟩
  rw [hlogs]
  exact hlog.dir

theorem Advanced.trans {e' e'' : HotEngine}
    {logs' logs'' : PartitionKey -> List Chunk} {n m : Nat}
    (h : Advanced e logs e' logs' n) (h' : Advanced e' logs' e'' logs'' m) :
    Advanced e logs e'' logs'' (n + m) where
  holds := h'.holds
  keeps := fun key offset data hhas =>
    h'.keeps key offset data (h.keeps key offset data hhas)
  next_le := by
    intro key
    have hle := h.next_le key
    have hle' := h'.next_le key
    omega

theorem Logs.refl (h : e.Logs logs) : Advanced e logs e logs 0 :=
  ⟨h, fun _ _ _ hhas => hhas, fun _ => Nat.le_refl _⟩

/-!
## Putting a partition back
-/

theorem dirOf_putPartition (e : HotEngine) (key : PartitionKey)
    (p : Partition) : (e.putPartition key p).dirOf key = p.dir := by
  unfold dirOf putPartition
  simp only [getEntry_setEntry]

theorem dirOf_putPartition_ne (e : HotEngine) {key key' : PartitionKey}
    (hne : key' ≠ key) (p : Partition) :
    (e.putPartition key p).dirOf key' = e.dirOf key' := by
  unfold dirOf putPartition
  simp only [getEntry_setEntry_ne hne]
  rfl

theorem Logs.putPartition (h : e.Logs logs) (key : PartitionKey) {p : Partition}
    {front : List Chunk} {last : Chunk} {n : Nat} (hlog : OpenLog p front last)
    (hsize : p.maxSegSize = e.segmentSize)
    (hkeeps : Keeps (e.dirOf key) (logs key) p.dir (front ++ [last]))
    (hnext : last.next ≤ endOffset (logs key) + n) :
    Advanced e logs (e.putPartition key p)
      (Function.update logs key (front ++ [last])) n where
  holds :=
    { nodup := nodup_keys_setEntry h.nodup
      segmentSize := h.segmentSize
      opened := by
        intro key' p' hget
        exact @opened_putPartition (List Chunk) e key key' p logs
          (front ++ [last]) (fun p log => p.maxSegSize = e.segmentSize ∧
            exists front last, log = front ++ [last] ∧ OpenLog p front last)
          ⟨hsize, front, last, rfl, hlog⟩ h.opened p' hget
      closed := fun _ hget => closed_putPartition h.closed hget }
  keeps := by
    intro key' offset data hhas
    unfold Has at hhas ⊢
    by_cases hkey : key' = key
    · subst hkey
      rw [dirOf_putPartition, Function.update_self]
      exact hkeeps offset data hhas
    · rw [dirOf_putPartition_ne e hkey, Function.update_of_ne hkey]
      exact hhas
  next_le := by
    intro key'
    by_cases hkey : key' = key
    · subst hkey
      rw [Function.update_self, endOffset_concat]
      exact hnext
    · rw [Function.update_of_ne hkey]
      exact Nat.le_add_right _ _

theorem Logs.getOrCreatePartition (h : e.Logs logs) (key : PartitionKey)
    (now : Nat) :
    exists e' p logs' front last, e.getOrCreatePartition key now = .ok (e', p) ∧
      Advanced e logs e' logs' 0 ∧ getEntry key e'.partitions = some p ∧
      e'.segmentSize = e.segmentSize ∧ logs' key = front ++ [last] ∧
      OpenLog p front last ∧ p.maxSegSize = e'.segmentSize ∧
      (logs key = [] ∨ front ++ [last] = logs key) := by
  unfold HotEngine.getOrCreatePartition
  cases hget : getEntry key e.partitions with
  | some p =>
    rcases h.opened key p hget with ⟨hsize, front, last, hlogs, hlog⟩
    exact ⟨e, p, logs, front, last, rfl, h.refl, hget, rfl, hlogs, hlog,
      hsize, Or.inr hlogs.symm⟩
  | none =>
  have hdir : e.dirOf key = e.directory key := by
    unfold dirOf
    simp only [hget]
  rcases (h.closed key hget).openPartition key.1 key.2 e.segmentSize now
    with ⟨p, front, last, hopen, hreloaded⟩
  have hkeeps := hreloaded.keeps
  rw [← hdir] at hkeeps
  refine ⟨e.putPartition key p, p, Function.update logs key (front ++ [last]),
    front, last, ?_, ?_, ?_, rfl, Function.update_self .., hreloaded.log,
    hreloaded.maxSegSize, hreloaded.same⟩
  · simp only [hopen]
    rfl
  · exact h.putPartition key hreloaded.log hreloaded.maxSegSize hkeeps
      (Nat.le_of_eq hreloaded.next)
  · exact getEntry_setEntry key p e.partitions

theorem Logs.read (h : e.Logs logs) {key : PartitionKey} {offset : Nat}
    {data : Bytes} (hhas : e.Has logs key offset data) (now : Nat) :
    exists e' p, e.getOrCreatePartition key now = .ok (e', p) ∧
      p.read offset = .ok data := by
  rcases h.getOrCreatePartition key now with
    ⟨e', p, logs', front, last, hget, hadvanced, hopen, _, hlogs, hlog, _, _⟩
  have hhas' := hadvanced.keeps key offset data hhas
  unfold Has dirOf at hhas'
  rw [hlogs, hopen] at hhas'
  exact ⟨e', p, hget, hlog.read hhas'⟩

theorem Logs.append (h : e.Logs logs) (key : PartitionKey)
    (hroom : endOffset (logs key) + 1 < 2 ^ 64) (data : Bytes) (now : Nat) :
    exists logs', Advanced e logs (e.append key data now).1 logs' 1 ∧
      (e.append key data now).1.segmentSize = e.segmentSize ∧
      forall offset, (e.append key data now).2 = .ok offset ->
        (e.append key data now).1.Has logs' key offset data ∧
          forall offset' data', e.Has logs key offset' data' ->
            offset' < offset := by
  rcases h.getOrCreatePartition key now with
    ⟨e₁, p, logs₁, front, last, hget, hadvanced, hopen, hsame, hlogs, hlog,
      hsize, _⟩
  have hnext : last.next ≤ endOffset (logs key) := by
    have hle := hadvanced.next_le key
    rwa [hlogs, endOffset_concat] at hle
  have hdir : e₁.dirOf key = p.dir := by
    unfold dirOf
    simp only [hopen]
  have hsmall : p.maxSegSize < 2 ^ 32 := by
    rw [hsize]
    exact hadvanced.holds.segmentSize
  rcases hlog.append data now (Or.inl hsmall) (by omega) with
    ⟨front', last', hgrown⟩
  have hput := hadvanced.holds.putPartition key (n := 1) hgrown.log
    (hgrown.maxSegSize.trans hsize)
    (by
      rw [hdir, hlogs]
      exact hgrown.keeps)
    (by
      rw [hlogs, endOffset_concat]
      exact hgrown.next_le)
  unfold HotEngine.append
  simp only [hget]
  refine ⟨_, hadvanced.trans hput, hsame, ?_⟩
  intro offset hoff
  rcases hgrown.stored hoff with ⟨heq, hat⟩
  refine ⟨?_, ?_⟩
  · unfold Has
    rw [dirOf_putPartition, Function.update_self]
    exact hat
  intro offset' data' hhas
  have hhas' := hadvanced.keeps key offset' data' hhas
  have hlt := (hadvanced.holds.dir key).lt_of_at hhas'
  rw [hlogs, endOffset_concat] at hlt
  omega

/-!
## A crash
-/

def crashed (e : HotEngine) (kept : PartitionKey -> Nat -> Nat) :
    List (PartitionKey × Disk) :=
  e.allDirs.map (fun d => (d.1, d.2.truncate (kept d.1)))

theorem directory_crashed (hnodup : (e.partitions.map Prod.fst).Nodup)
    (kept : PartitionKey -> Nat -> Nat) (size : Nat) (key : PartitionKey) :
    (newEngine size (e.crashed kept)).directory key =
      (e.dirOf key).truncate (kept key) := by
  have hdirs : getEntry key e.allDirs =
      ((getEntry key e.partitions).map Partition.dir).or
        (getEntry key e.dirs) :=
    getEntry_foldl_setEntry Partition.dir hnodup key e.dirs
  have hmap := getEntry_map key (fun k (d : Disk) => d.truncate (kept k))
    e.allDirs
  change (getEntry key (e.crashed kept)).getD Disk.empty = _
  unfold crashed
  rw [hmap, hdirs]
  unfold dirOf directory
  cases getEntry key e.partitions with
  | some p => rfl
  | none =>
  cases getEntry key e.dirs with
  | some d => rfl
  | none => rfl

theorem Logs.crash (h : e.Logs logs) {kept : PartitionKey -> Nat -> Nat}
    (hheaders : forall key, KeepsHeaders (logs key) (kept key)) :
    exists logs', (newEngine e.segmentSize (e.crashed kept)).Logs logs' ∧
      (forall key, endOffset (logs' key) ≤ endOffset (logs key)) ∧
      forall key offset data, e.Has logs key offset data ->
        BeforeCut (logs key) (kept key) offset ->
          (newEngine e.segmentSize (e.crashed kept)).Has logs' key offset
            data := by
  have hcut := fun key => (h.dir key).truncate (hheaders key)
  choose logs' hcut using hcut
  have hclosed : forall key, getEntry key
      (newEngine e.segmentSize (e.crashed kept)).partitions = none :=
    fun _ => rfl
  refine ⟨logs', ?_, fun key => (hcut key).next_le, ?_⟩
  · exact
      { nodup := List.nodup_nil
        segmentSize := h.segmentSize
        opened := by
          intro key p hget
          rw [hclosed key] at hget
          cases hget
        closed := by
          intro key _
          rw [directory_crashed h.nodup]
          exact (hcut key).log }
  · intro key offset data hhas hbefore
    unfold Has dirOf
    rw [hclosed key]
    simp only
    rw [directory_crashed h.nodup]
    exact (hcut key).keeps offset data hhas hbefore

end HotEngine

end Storage
end ChimeraMQ
