import ChimeraMQ.Storage.EngineRecords
import ChimeraMQ.Storage.LogStart
import ChimeraMQ.Stream.Engine

/-!
# The removal of expired messages

From time to time the first messages of every partition are looked through for
expired ones.  What is removed are the segments before the last of those that
were found, with all the messages in them.  The time of the messages is that of
their producers.
-/

namespace ChimeraMQ
namespace Broker

open Foundation
open Message
open Storage

inductive TTLAction where
  | drop
  | dlq
deriving DecidableEq

structure TopicTTLConfig where
  defaultTTL : Int64
  action : TTLAction

structure Expirer where
  configs : List (Bytes × Option TopicTTLConfig)
  encryptor : Option Stream.Decryptor

def Overdue (now : Int64) (env : Envelope) : Prop :=
  env.ttl ≠ 0 ∧ env.timestamp + env.ttl < now

/--
Look through at most 100 records for expired messages, up to the end of the
first run of them.
-/
def scanOffsets (now : Int64) (f : Nat -> Option (Option Envelope)) :
    Nat -> Nat -> Nat -> Bool -> List (Nat × Envelope)
  | 0, _, _, _ => []
  | n + 1, offset, checked, hasExpired =>
    if checked < 100 then
      match f offset with
      | none => scanOffsets now f n (offset + 1) checked hasExpired
      | some none => scanOffsets now f n (offset + 1) (checked + 1) hasExpired
      | some (some env) =>
      if env.ttl = 0 then
        if hasExpired then []
        else scanOffsets now f n (offset + 1) (checked + 1) hasExpired
      else if env.timestamp + env.ttl < now then
        (offset, env) ::
          scanOffsets now f n (offset + 1) (checked + 1) true
      else if hasExpired then []
      else scanOffsets now f n (offset + 1) (checked + 1) hasExpired
    else []

namespace Expirer

def found (x : Expirer) (key : PartitionKey) (p : Partition) (offset : Nat) :
    Option (Option Envelope) :=
  (p.record offset).map (Stream.Engine.decode x.encryptor key.1 key.2)

def expired (x : Expirer) (now : Int64) (key : PartitionKey) (p : Partition) :
    List (Nat × Envelope) :=
  scanOffsets now (x.found key p) (p.highWater + 1 - p.logStartOffset)
    p.logStartOffset 0 false

/-- Move the start of the log behind the last expired message. -/
def scanPartition (x : Expirer) (now : Int64) (key : PartitionKey)
    (p : Partition) : Partition :=
  match (x.expired now key p).getLast? with
  | none => p
  | some (offset, _) =>
    if 0 < offset then (p.advanceLogStart (offset + 1)).1 else p

def routed (x : Expirer) (now : Int64) (cfg : TopicTTLConfig)
    (key : PartitionKey) (p : Partition) : List Envelope :=
  match cfg.action with
  | .drop => []
  | .dlq => (x.expired now key p).map Prod.snd

/--
Scan all partitions of the topics one after the other.  Returns also what is
routed, with its topic.
-/
def scan (x : Expirer) (now : Int64) (e : HotEngine) :
    HotEngine × List (Bytes × Envelope) :=
  ({ e with
      partitions := e.partitions.map (fun q =>
        match getEntry q.1.1 x.configs with
        | some (some _) => (q.1, x.scanPartition now q.1 q.2)
        | _ => q) },
    e.partitions.flatMap (fun q =>
      match getEntry q.1.1 x.configs with
      | some (some cfg) =>
        (x.routed now cfg q.1 q.2).map (fun env => (q.1.1, env))
      | _ => []))

def Past (now : Int64) (env : Envelope) : Prop :=
  env.ttl ≠ 0 ∧ env.timestamp.toInt + env.ttl.toInt < now.toInt

instance (now : Int64) (env : Envelope) : Decidable (Past now env) :=
  inferInstanceAs (Decidable (_ ∧ _))

/-- Every message whose time is not over can be read as before. -/
def Spares (x : Expirer) (now : Int64) (e : HotEngine) : Prop :=
  forall key p p', getEntry key e.partitions = some p ->
    getEntry key (x.scan now e).1.partitions = some p' ->
    forall offset env, x.found key p offset = some (some env) ->
      ¬ Past now env -> p'.read offset = p.read offset

def recordsBefore (f : Nat -> Option (Option Envelope)) (start offset : Nat) :
    Nat :=
  ((List.range' start (offset - start)).filter
    (fun i => (f i).isSome)).length

/--
A message taken for expired is among the first 100 records, and no other message
comes between it and the first one that is.
-/
structure Counted (now : Int64) (f : Nat -> Option (Option Envelope))
    (start stop offset : Nat) (env : Envelope) : Prop where
  start_le : start ≤ offset
  lt_stop : offset < stop
  found : f offset = some (some env)
  overdue : Overdue now env
  few : recordsBefore f start offset < 100
  run : forall i j env env', start ≤ i -> i < j -> j < offset ->
    f i = some (some env) -> Overdue now env -> f j = some (some env') ->
      Overdue now env'

/--
No message whose time is not over is in a segment that ends before or with a
message that the scan takes for expired, the active segment apart.
-/
def Guarded (x : Expirer) (now : Int64) (key : PartitionKey) (p : Partition) :
    Prop :=
  forall offset env s, x.found key p offset = some (some env) ->
    ¬ Past now env -> s ∈ p.older -> s.baseOff ≤ offset -> offset < s.nextOff ->
      forall last env', 0 < last -> Counted now (x.found key p)
        p.logStartOffset (p.highWater + 1) last env' -> last + 1 < s.nextOff

/-!
## The messages that are found
-/

theorem recordsBefore_self (f : Nat -> Option (Option Envelope))
    (start : Nat) : recordsBefore f start start = 0 := by
  unfold recordsBefore
  rw [Nat.sub_self]
  rfl

variable {offset : Nat}

theorem recordsBefore_succ (f : Nat -> Option (Option Envelope)) {start : Nat}
    (hlt : start < offset) :
    recordsBefore f start offset =
      (if (f start).isSome then 1 else 0) +
        recordsBefore f (start + 1) offset := by
  have hcount : offset - start = (offset - (start + 1)) + 1 := by omega
  unfold recordsBefore
  rw [hcount, List.range'_succ, List.filter_cons]
  split
  · rw [List.length_cons, Nat.add_comm]
  · rw [Nat.zero_add]

/--
What the scan finds from a state of the loop: the message is counted if no
message before it is not overdue after one that is.
-/
structure Reached (now : Int64) (f : Nat -> Option (Option Envelope))
    (start stop checked : Nat) (hasExpired : Bool) (offset : Nat)
    (env : Envelope) : Prop where
  start_le : start ≤ offset
  lt_stop : offset < stop
  found : f offset = some (some env)
  overdue : Overdue now env
  few : checked + recordsBefore f start offset < 100
  run : forall j env', start ≤ j -> j < offset -> f j = some (some env') ->
    (hasExpired = true ∨ exists i env, start ≤ i ∧ i < j ∧
      f i = some (some env) ∧ Overdue now env) -> Overdue now env'

section
variable {now : Int64} {f : Nat -> Option (Option Envelope)}
  {start stop checked offset : Nat} {hasExpired : Bool} {env : Envelope}

theorem reached_pass {more : Nat}
    (hmore : more = if (f start).isSome then 1 else 0)
    (hnone : forall env', f start = some (some env') ->
      ¬ Overdue now env' ∧ hasExpired = false) :
    Reached now f start stop checked hasExpired offset env <->
      Reached now f (start + 1) stop (checked + more) hasExpired offset env := by
  constructor
  · intro h
    have hne : start ≠ offset := by
      intro heq
      have hfound := h.found
      rw [← heq] at hfound
      exact (hnone env hfound).left h.overdue
    have hlt : start < offset := Nat.lt_of_le_of_ne h.start_le hne
    have hfew := h.few
    rw [recordsBefore_succ f hlt, ← hmore, ← Nat.add_assoc] at hfew
    constructor
    · exact hlt
    · exact h.lt_stop
    · exact h.found
    · exact h.overdue
    · exact hfew
    intro j env' hj hjlt hfj hbefore
    apply h.run j env' (Nat.le_of_succ_le hj) hjlt hfj
    rcases hbefore with hhas | ⟨i, envi, hi, hij, hfi, hover⟩
    · exact Or.inl hhas
    · exact Or.inr ⟨i, envi, Nat.le_of_succ_le hi, hij, hfi, hover⟩
  intro h
  have hlt : start < offset := h.start_le
  have hfew := h.few
  rw [Nat.add_assoc, hmore, ← recordsBefore_succ f hlt] at hfew
  constructor
  · exact Nat.le_of_lt hlt
  · exact h.lt_stop
  · exact h.found
  · exact h.overdue
  · exact hfew
  intro j env' hj hjlt hfj hbefore
  rcases Nat.eq_or_lt_of_le hj with heq | hsj
  · -- a message that does not end the scan comes before all others
    rw [← heq] at hfj hbefore
    rcases hnone env' hfj with ⟨_, hhas⟩
    rcases hbefore with hhas' | ⟨i, envi, hi, hij, _⟩
    · rw [hhas] at hhas'
      cases hhas'
    · exact absurd hij (Nat.not_lt.mpr hi)
  apply h.run j env' hsj hjlt hfj
  rcases hbefore with hhas | ⟨i, envi, hi, hij, hfi, hover⟩
  · exact Or.inl hhas
  rcases Nat.eq_or_lt_of_le hi with heq | hsi
  · rw [← heq] at hfi
    exact absurd hover (hnone envi hfi).left
  · exact Or.inr ⟨i, envi, hsi, hij, hfi, hover⟩

theorem not_reached_of_end {env' : Envelope} (hf : f start = some (some env'))
    (hnot : ¬ Overdue now env') :
    ¬ Reached now f start stop checked true offset env := by
  intro h
  rcases Nat.eq_or_lt_of_le h.start_le with heq | hlt
  · have hfound := h.found
    rw [← heq, hf] at hfound
    cases hfound
    exact hnot h.overdue
  · exact hnot (h.run start env' (Nat.le_refl _) hlt hf (Or.inl rfl))

theorem reached_expired {env' : Envelope} (hf : f start = some (some env'))
    (hover : Overdue now env') (hchecked : checked < 100)
    (hstop : start < stop) :
    Reached now f start stop checked hasExpired offset env <->
      (offset = start ∧ env = env') ∨
        Reached now f (start + 1) stop (checked + 1) true offset env := by
  have hsome : (if (f start).isSome then 1 else 0) = 1 := by
    rw [hf]
    rfl
  constructor
  · intro h
    rcases Nat.eq_or_lt_of_le h.start_le with heq | hlt
    · left
      have hfound := h.found
      rw [← heq, hf] at hfound
      cases hfound
      exact ⟨heq.symm, rfl⟩
    right
    have hfew := h.few
    rw [recordsBefore_succ f hlt, hsome, ← Nat.add_assoc] at hfew
    constructor
    · exact hlt
    · exact h.lt_stop
    · exact h.found
    · exact h.overdue
    · exact hfew
    · intro j envj hj hjlt hfj _
      exact h.run j envj (Nat.le_of_succ_le hj) hjlt hfj
        (Or.inr ⟨start, env', Nat.le_refl _, hj, hf, hover⟩)
  rintro (⟨hoffset, henv⟩ | h)
  · rw [hoffset, henv]
    constructor
    · exact Nat.le_refl _
    · exact hstop
    · exact hf
    · exact hover
    · rw [recordsBefore_self]
      exact hchecked
    · intro j envj hj hjlt
      exact absurd hjlt (Nat.not_lt.mpr hj)
  have hlt : start < offset := h.start_le
  have hfew := h.few
  have hcount := recordsBefore_succ f hlt
  rw [hsome] at hcount
  rw [Nat.add_assoc, ← hcount] at hfew
  constructor
  · exact Nat.le_of_lt hlt
  · exact h.lt_stop
  · exact h.found
  · exact h.overdue
  · exact hfew
  intro j envj hj hjlt hfj _
  rcases Nat.eq_or_lt_of_le hj with heq | hsj
  · rw [← heq, hf] at hfj
    cases hfj
    exact hover
  · exact h.run j envj hsj hjlt hfj (Or.inl rfl)

end

variable {now : Int64} {env : Envelope}

theorem mem_scanOffsets {f : Nat -> Option (Option Envelope)}
    {n start checked : Nat} {hasExpired : Bool} :
    (offset, env) ∈ scanOffsets now f n start checked hasExpired <->
      Reached now f start (start + n) checked hasExpired offset env := by
  induction n generalizing start checked hasExpired with
  | zero =>
    constructor
    · intro h
      cases h
    · intro h
      exact absurd h.lt_stop (Nat.not_lt.mpr h.start_le)
  | succ n ih =>
  have hstop : start + (n + 1) = start + 1 + n := by omega
  rw [hstop]
  unfold scanOffsets
  by_cases hchecked : checked < 100
  · rw [if_pos hchecked]
    cases hf : f start with
    | none =>
      have hzero : 0 = if (f start).isSome then 1 else 0 := by
        rw [hf]
        rfl
      simp only
      rw [ih]
      exact (reached_pass hzero (by
        intro env' hsome
        rw [hf] at hsome
        cases hsome)).symm
    | some message =>
    have hone : 1 = if (f start).isSome then 1 else 0 := by
      rw [hf]
      rfl
    cases message with
    | none =>
      simp only
      rw [ih]
      apply (reached_pass hone _).symm
      intro env' hsome
      rw [hf] at hsome
      cases hsome
    | some env' =>
    have hpass : ¬ Overdue now env' ->
        ((offset, env) ∈ (if hasExpired = true then []
          else scanOffsets now f n (start + 1) (checked + 1)
            hasExpired) <->
          Reached now f start (start + 1 + n) checked hasExpired
            offset env) := by
      intro hnot
      cases hasExpired with
      | true =>
        simp only [if_true, List.not_mem_nil, false_iff]
        exact not_reached_of_end hf hnot
      | false =>
      simp only [Bool.false_eq_true, if_false]
      rw [ih]
      apply (reached_pass hone _).symm
      intro env'' hsome
      rw [hf] at hsome
      cases hsome
      exact ⟨hnot, rfl⟩
    simp only
    split
    · rename_i hzero
      exact hpass (fun hover => hover.left hzero)
    rename_i hzero
    split
    · rename_i hless
      rw [reached_expired hf ⟨hzero, hless⟩ hchecked (by omega),
        List.mem_cons, ih, Prod.mk.injEq]
    · rename_i hless
      exact hpass (fun hover => hless hover.right)
  · rw [if_neg hchecked]
    constructor
    · intro h
      cases h
    · intro h
      have hfew := h.few
      omega

variable {x : Expirer} {key : PartitionKey} {p : Partition}

theorem mem_expired :
    (offset, env) ∈ x.expired now key p <->
      Counted now (x.found key p) p.logStartOffset (p.highWater + 1) offset
        env := by
  unfold expired
  rw [mem_scanOffsets]
  constructor
  · intro h
    have hstop := h.lt_stop
    have hstart := h.start_le
    constructor
    · exact hstart
    · omega
    · exact h.found
    · exact h.overdue
    · have hfew := h.few
      omega
    · intro i j envi envj hi hij hj hfi hover hfj
      exact h.run j envj (by omega) hj hfj (Or.inr ⟨i, envi, hi, hij, hfi, hover⟩)
  intro h
  have hstop := h.lt_stop
  have hstart := h.start_le
  constructor
  · exact hstart
  · omega
  · exact h.found
  · exact h.overdue
  · have hfew := h.few
    omega
  · intro j envj _ hj hfj hbefore
    rcases hbefore with hhas | ⟨i, envi, hi, hij, hfi, hover⟩
    · cases hhas
    · exact h.run i j envi envj hi hij hj hfi hover hfj

theorem expired_pairwise {f : Nat -> Option (Option Envelope)}
    (n start checked : Nat) (hasExpired : Bool) :
    (scanOffsets now f n start checked hasExpired).Pairwise
      (fun a b => a.1 < b.1) := by
  induction n generalizing start checked hasExpired with
  | zero => exact List.Pairwise.nil
  | succ n ih =>
  unfold scanOffsets
  split
  · split
    · exact ih _ _ _
    · exact ih _ _ _
    split
    · split
      · exact List.Pairwise.nil
      · exact ih _ _ _
    split
    · apply List.pairwise_cons.mpr
      constructor
      · rintro ⟨offset, env⟩ hmem
        exact (mem_scanOffsets.mp hmem).start_le
      · exact ih _ _ _
    · split
      · exact List.Pairwise.nil
      · exact ih _ _ _
  · exact List.Pairwise.nil

theorem le_last_expired {last : Nat} {env' : Envelope}
    (hlast : (x.expired now key p).getLast? = some (last, env))
    (hmem : (offset, env') ∈ x.expired now key p) : offset ≤ last := by
  rcases List.getLast?_eq_some_iff.mp hlast with ⟨front, hsplit⟩
  have hpairwise := @expired_pairwise now (x.found key p)
    (p.highWater + 1 - p.logStartOffset) p.logStartOffset 0 false
  change (x.expired now key p).Pairwise _ at hpairwise
  rw [hsplit] at hpairwise hmem
  rcases List.mem_append.mp hmem with hfront | hend
  · exact Nat.le_of_lt ((List.pairwise_append.mp hpairwise).right.right
      (offset, env') hfront (last, env) (List.mem_singleton_self _))
  · rw [(Prod.mk.inj (List.mem_singleton.mp hend)).left]

/-!
## What is removed
-/

theorem read_of_found (h : x.found key p offset = some (some env)) :
    exists data, p.read offset = .ok data := by
  rcases Option.map_eq_some_iff.mp h with ⟨data, hrecord, _⟩
  unfold Partition.record at hrecord
  cases hread : p.read offset with
  | error err =>
    rw [hread] at hrecord
    cases hrecord
  | ok data' => exact ⟨data', rfl⟩

theorem findSegment_of_read {data : Bytes} (h : p.read offset = .ok data) :
    exists s, p.findSegment offset = some s := by
  unfold Partition.read at h
  split at h
  · cases h
  · exact ⟨_, ‹_›⟩

theorem scanPartition_iff (hp : p.InPlace) :
    (forall offset env, x.found key p offset = some (some env) ->
      ¬ Past now env ->
        (x.scanPartition now key p).read offset = p.read offset) <->
      x.Guarded now key p := by
  constructor
  · intro h offset env s hfound hpast hs hbase hlt last env' hpos hcounted
    by_contra hnot
    have hmem := mem_expired.mpr hcounted
    cases hlast : (x.expired now key p).getLast? with
    | none =>
      rw [List.getLast?_eq_none_iff.mp hlast] at hmem
      cases hmem
    | some found =>
    have hle := le_last_expired hlast hmem
    have hsame := h offset env hfound hpast
    rcases read_of_found hfound with ⟨data, hdata⟩
    unfold scanPartition at hsame
    rw [hlast] at hsame
    simp only at hsame
    rw [if_pos (Nat.lt_of_lt_of_le hpos hle),
      hp.read_removed hs (by omega) hlt, hdata] at hsame
    cases hsame
  intro h offset env hfound hpast
  unfold scanPartition
  cases hlast : (x.expired now key p).getLast? with
  | none => rfl
  | some found =>
  simp only
  split
  · rename_i hpos
    have hcounted := mem_expired.mp (List.mem_of_getLast? hlast)
    rcases read_of_found hfound with ⟨data, hdata⟩
    rcases findSegment_of_read hdata with ⟨s, hfind⟩
    rcases Partition.mem_of_findSegment hfind with ⟨_, hbase, hlt⟩
    apply hp.read_kept hfind
    intro hs
    exact h offset env s hfound hpast hs hbase hlt found.1 found.2 hpos
      hcounted
  · rfl

theorem getEntry_scan (x : Expirer) (now : Int64) (e : HotEngine)
    (key : PartitionKey) :
    getEntry key (x.scan now e).1.partitions =
      (getEntry key e.partitions).map (fun p =>
        if (getEntry key.1 x.configs).join.isSome then
          x.scanPartition now key p
        else p) := by
  rw [← getEntry_map key (fun (k : PartitionKey) (p : Partition) =>
    if (getEntry k.1 x.configs).join.isSome then x.scanPartition now k p
    else p)]
  unfold scan
  simp only
  congr 1
  apply List.map_congr_left
  intro q _
  cases getEntry q.1.1 x.configs with
  | none => rfl
  | some cfg =>
  cases cfg with
  | none => rfl
  | some cfg => rfl

/--
A scan removes no message whose time is not over exactly if all partitions of
the configured topics are guarded.
-/
theorem spares_iff {x : Expirer} {now : Int64} {e : HotEngine}
    (hplaced : forall key p, getEntry key e.partitions = some p -> p.InPlace) :
    x.Spares now e <-> forall key p cfg,
      getEntry key e.partitions = some p ->
        getEntry key.1 x.configs = some (some cfg) -> x.Guarded now key p := by
  constructor
  · intro h key p cfg hget hcfg
    apply (scanPartition_iff (hplaced key p hget)).mp
    apply h key p (x.scanPartition now key p) hget
    rw [getEntry_scan, hget, hcfg]
    rfl
  intro h key p p' hget hget' offset env hfound hpast
  rw [getEntry_scan, hget] at hget'
  cases hcfg : getEntry key.1 x.configs with
  | none =>
    rw [hcfg] at hget'
    cases hget'
    rfl
  | some c =>
  cases c with
  | none =>
    rw [hcfg] at hget'
    cases hget'
    rfl
  | some cfg =>
  rw [hcfg] at hget'
  cases hget'
  exact (scanPartition_iff (hplaced key p hget)).mpr
    (h key p cfg hget hcfg) offset env hfound hpast

/-!
## Three messages in two segments
-/

def storing (messages : List Envelope) : HotEngine :=
  messages.foldl (fun e m =>
    (e.append ([116], 0) ((marshal m).toOption.getD []) 0).1)
    (HotEngine.newEngine 180 [])

theorem inPlace_storing {messages : List Envelope}
    (hfew : messages.length < 2 ^ 64)
    (hget : getEntry key (storing messages).partitions = some p) :
    p.InPlace := by
  have hpersists : exists assigned, (storing messages).Persists assigned ∧
      forall key, (assigned key).length ≤ messages.length := by
    clear hget
    unfold storing
    induction messages using List.reverseRecOn with
    | nil =>
      exact ⟨fun _ => [], HotEngine.persists_newEngine (by decide),
        fun _ => Nat.le_refl 0⟩
    | append_singleton front m ih =>
    rw [List.length_append, List.length_singleton] at hfew
    rcases ih (by omega) with ⟨assigned, hfront, hle⟩
    rw [List.foldl_append]
    have happend := hfront.append ([116], 0)
      (by
        have hlength := hle ([116], 0)
        omega) ((marshal m).toOption.getD []) 0
    refine ⟨_, happend, ?_⟩
    intro key
    rw [List.length_append, List.length_singleton]
    exact (HotEngine.length_recorded assigned _ _ _ key).trans
      (Nat.add_le_add_right (hle key) 1)
  rcases hpersists with ⟨assigned, hpersists, _⟩
  exact (hpersists.opened key p hget).inPlace

def timed (ttl : Int64) : Envelope :=
  { Envelope.zero with topic := [116], timestamp := 1, ttl := ttl }

def expirer : Expirer where
  configs := [([116], some { defaultTTL := 0, action := .drop })]
  encryptor := none

/-- Two messages have expired and are removed, and the third one stays. -/
theorem spares_expiredFirst :
    ((expirer.scan 100 (storing [timed 1, timed 1, timed 0])).1.partitions.map
        (fun q => q.2.segments.length)) = [1] ∧
      expirer.Spares 100 (storing [timed 1, timed 1, timed 0]) := by
  constructor
  · decide +kernel
  apply (spares_iff (fun key p hget =>
    inPlace_storing (by decide) hget)).mpr
  have hall : (storing [timed 1, timed 1, timed 0]).partitions.all (fun q =>
      q.2.older.all (fun s => decide (s.nextOff ≤ 2)) &&
        ([0, 1].all (fun offset =>
          (expirer.found q.1 q.2 offset).all (fun m =>
            m.all (fun env => decide (Past 100 env)))))) = true := by
    decide +kernel
  intro key p cfg hget _ offset env s hfound hpast hs _ hlt
  have hp := List.all_eq_true.mp hall _ (mem_of_getEntry hget)
  rw [Bool.and_eq_true] at hp
  have hend := of_decide_eq_true (List.all_eq_true.mp hp.left s hs)
  have hin : offset ∈ [0, 1] := by
    have hsmall : offset < 2 := Nat.lt_of_lt_of_le hlt hend
    rw [List.mem_cons, List.mem_singleton]
    omega
  have hover := List.all_eq_true.mp hp.right offset hin
  rw [hfound] at hover
  exact absurd (of_decide_eq_true hover) hpast

/-- A message without a time to live is removed with the next one. -/
theorem not_spares_mixedSegment :
    ¬ expirer.Spares 100 (storing [timed 0, timed 1, timed 0]) := by
  intro h
  have hcheck : (getEntry ([116], 0)
      (storing [timed 0, timed 1, timed 0]).partitions).bind (fun p =>
        (getEntry ([116], 0) (expirer.scan 100
          (storing [timed 0, timed 1, timed 0])).1.partitions).bind (fun p' =>
            (expirer.found ([116], 0) p 0).join.map (fun env =>
              (decide (Past 100 env), decide (p'.read 0 = p.read 0))))) =
      some (false, false) := by decide +kernel
  rcases Option.bind_eq_some_iff.mp hcheck with ⟨p, hget, hp⟩
  rcases Option.bind_eq_some_iff.mp hp with ⟨p', hget', hp'⟩
  rcases Option.map_eq_some_iff.mp hp' with ⟨env, hfound, henv⟩
  rcases Prod.mk.inj henv with ⟨hpast, hdiffer⟩
  exact of_decide_eq_false hdiffer (h ([116], 0) p p' hget hget' 0 env
    (Option.join_eq_some_iff.mp hfound) (of_decide_eq_false hpast))

end Expirer

end Broker
end ChimeraMQ
