import ChimeraMQ.Storage.PartitionList
import ChimeraMQ.Storage.RetentionSuffix
import ChimeraMQ.Stream.Engine

/-!
# Fetching a partition to its end

Fetching again and again, each time from the offset that the last fetch
returned, is to give every message of a partition once.  A fetch counts the
messages that it returns but not the records that it skips, so this fails as
soon as a message follows a record that cannot be read or decoded.
-/

namespace ChimeraMQ
namespace Stream

open Foundation
open Message
open Storage

namespace Engine

def maxInt : Nat := 2 ^ 63 - 1

def messageAt (encryptor : Option Decryptor) (topic : Bytes) (partID : Nat)
    (p : Partition) (offset : Nat) : Option Envelope :=
  match p.record offset with
  | none => none
  | some data =>
    (decode encryptor topic partID data).map
      (fun env => { env with sequence := UInt64.ofNat offset })

def messagesFrom (encryptor : Option Decryptor) (topic : Bytes) (partID : Nat)
    (p : Partition) (start : Nat) : List Envelope :=
  valuesFrom (messageAt encryptor topic partID p) start
    (p.highWater + 1 - start)

/--
Fetch again and again with the returned offsets; a fetch that fails leaves the
offset as it is.
-/
def fetchAll (topic : Bytes) (partitionID : Nat) :
    Engine -> Nat -> List (Int × FetchContext) -> List Envelope
  | _, _, [] => []
  | se, fromOffset, (maxMessages, c) :: rest =>
    match se.fetch topic partitionID fromOffset maxMessages c with
    | (se, .error _) => fetchAll topic partitionID se fromOffset rest
    | (se, .ok (msgs, nextOffset)) =>
      msgs ++ fetchAll topic partitionID se nextOffset rest

def Quiet (p : Partition) (c : FetchContext) : Prop :=
  c.notified = none ∨ c.notified = some p

/--
Whatever numbers of messages are asked for, what is fetched are the first
messages from the start on, and all of them when messages have been asked for
often enough.
-/
def IteratesOnce (se : Engine) (topic : Bytes) (partitionID : Nat)
    (p : Partition) (start : Nat) : Prop :=
  forall calls : List (Int × FetchContext),
    (forall call, call ∈ calls ->
      call.1 ≤ (maxInt : Int) ∧ -(maxInt : Int) ≤ call.1 ∧ Quiet p call.2) ->
    fetchAll topic partitionID se start calls <+:
        messagesFrom se.encryptor topic partitionID p start ∧
      ((messagesFrom se.encryptor topic partitionID p start).length ≤
          (calls.filter (fun call => decide (1 ≤ call.1))).length ->
        fetchAll topic partitionID se start calls =
          messagesFrom se.encryptor topic partitionID p start)

/--
Before a message there is a message at every offset from the start on, and no
batch from its offset on goes beyond the last offset there can be.
-/
def Contiguous (se : Engine) (topic : Bytes) (partitionID : Nat)
    (p : Partition) (start : Nat) : Prop :=
  forall offset, start ≤ offset -> offset ≤ p.highWater ->
    (messageAt se.encryptor topic partitionID p offset).isSome ->
    offset + maxInt ≤ 2 ^ 64 ∧
      forall before, start ≤ before -> before < offset ->
        (messageAt se.encryptor topic partitionID p before).isSome

variable {se : Engine}

theorem fetch_closed (h : se.closed = true) (topic : Bytes)
    (partitionID fromOffset : Nat) (maxMessages : Int) (c : FetchContext) :
    se.fetch topic partitionID fromOffset maxMessages c =
      (se, .error .closed) := by
  unfold fetch
  rw [if_pos h]

section Open

variable {se : Engine} {topic : Bytes} {partitionID : Nat} {p : Partition}
  (hclosed : se.closed = false)
  (hopen : getEntry (topic, partitionID) se.storage.partitions = some p)

include hclosed hopen

theorem fetch_below {fromOffset : Nat} (hle : fromOffset ≤ p.highWater)
    (maxMessages : Int) (c : FetchContext) :
    se.fetch topic partitionID fromOffset maxMessages c =
      (se, .ok (readMessages se.encryptor p topic partitionID fromOffset
        p.highWater maxMessages)) := by
  unfold fetch HotEngine.getOrCreatePartition
  rw [if_neg (by rw [hclosed]; exact Bool.false_ne_true), hopen]
  simp only
  rw [if_pos hle]

theorem fetch_above {fromOffset : Nat} (hlt : p.highWater < fromOffset)
    (maxMessages : Int) {c : FetchContext} (hquiet : Quiet p c) :
    se.fetch topic partitionID fromOffset maxMessages c =
        (se, .ok ([], fromOffset)) ∨
      se.fetch topic partitionID fromOffset maxMessages c =
        (se, .ok (readMessages se.encryptor p topic partitionID fromOffset
          p.highWater maxMessages)) := by
  unfold fetch HotEngine.getOrCreatePartition
  rw [if_neg (by rw [hclosed]; exact Bool.false_ne_true), hopen]
  simp only
  rw [if_neg (Nat.not_le.mpr hlt)]
  rcases hquiet with hnone | hsome
  · rw [hnone]
    exact Or.inl rfl
  · rw [hsome]
    exact Or.inr rfl

end Open

/-!
## The messages of a batch
-/

variable {encryptor : Option Decryptor} {topic : Bytes} {partID : Nat}
  {p : Partition}

def lastOffset (start hw : Nat) (max : Int) : Nat :=
  let last := (start + (max % 2 ^ 64).toNat + (2 ^ 64 - 1)) % 2 ^ 64
  if last < hw then last else hw

theorem lastOffset_le (start hw : Nat) (max : Int) :
    lastOffset start hw max ≤ hw := by
  unfold lastOffset
  simp only
  split
  · omega
  · exact Nat.le_refl hw

theorem lastOffset_eq {start hw : Nat} {max : Int} (hpos : 1 ≤ max)
    (hmax : max ≤ (maxInt : Int)) (hfits : start + max ≤ 2 ^ 64) :
    lastOffset start hw max = min hw (start + max.toNat - 1) := by
  have hsmall : (maxInt : Int) = 2 ^ 63 - 1 := by decide
  unfold lastOffset
  simp only
  split
  · omega
  · omega

theorem lastOffset_lt {start hw : Nat} {max : Int} (hstart : start ≤ hw)
    (hhw : hw < 2 ^ 64) (hmax : max ≤ (maxInt : Int))
    (hlong : 2 ^ 64 < start + max) : lastOffset start hw max < start := by
  have hsmall : (maxInt : Int) = 2 ^ 63 - 1 := by decide
  unfold lastOffset
  simp only
  split
  · omega
  · omega

variable {offset : Nat}

theorem messageAt_of_none (h : p.record offset = none) :
    messageAt encryptor topic partID p offset = none := by
  unfold messageAt
  rw [h]

theorem messageAt_of_some {data : Bytes} (h : p.record offset = some data) :
    messageAt encryptor topic partID p offset =
      (decode encryptor topic partID data).map
        (fun env => { env with sequence := UInt64.ofNat offset }) := by
  unfold messageAt
  rw [h]

theorem decodeAll_takeRun (encryptor : Option Decryptor) (topic : Bytes)
    (partID : Nat) (p : Partition) (offset n : Nat) :
    decodeAll encryptor topic partID offset (takeRun p.record offset n) =
      valuesFrom (messageAt encryptor topic partID p) offset
        (takeRun p.record offset n).length := by
  induction n generalizing offset with
  | zero => rfl
  | succ n ih =>
  cases hread : p.record offset with
  | none =>
    rw [takeRun_of_none hread]
    rfl
  | some data =>
  rw [takeRun_of_some hread, List.length_cons, valuesFrom_succ,
    messageAt_of_some hread, ← ih, decodeAll]
  cases decode encryptor topic partID data with
  | none => rfl
  | some env => rfl

theorem decodeAll_unbroken {n : Nat}
    (h : Unbroken (messageAt encryptor topic partID p) offset n) :
    decodeAll encryptor topic partID offset (takeRun p.record offset n) =
      takeRun (messageAt encryptor topic partID p) offset n := by
  have hle := length_takeRun_le p.record offset n
  rw [decodeAll_takeRun]
  generalize hm : (takeRun p.record offset n).length = m at hle
  have hpart : Unbroken (messageAt encryptor topic partID p) offset m := by
    intro j hj
    exact h j (by omega)
  rw [valuesFrom_eq_takeRun_iff.mpr hpart]
  rcases Nat.eq_or_lt_of_le hle with hall | hless
  · rw [hall]
  have hend : messageAt encryptor topic partID p (offset + m) = none := by
    apply messageAt_of_none
    rw [← hm]
    apply none_of_length_lt
    rw [hm]
    exact hless
  have hsplit : n = m + (n - m) := by omega
  rw [hsplit]
  rcases Nat.lt_or_eq_of_le (length_takeRun_le
      (messageAt encryptor topic partID p) offset m) with hshort | hwhole
  · rw [takeRun_of_length_lt _ hshort]
  · rw [takeRun_add _ hwhole, takeRun_of_none hend, List.append_nil]

/-!
## Fetching with every number of messages
-/

variable {partitionID start : Nat}

variable (h : se.Contiguous topic partitionID p start)

include h

theorem Contiguous.later (hle : start ≤ offset) :
    se.Contiguous topic partitionID p offset := by
  intro o ho hlast hsome
  rcases h o (hle.trans ho) hlast hsome with ⟨hroom, hbefore⟩
  exact ⟨hroom, fun b hb hlt => hbefore b (hle.trans hb) hlt⟩

theorem Contiguous.unbroken {n : Nat}
    (hn : n ≤ p.highWater + 1 - start) :
    Unbroken (messageAt se.encryptor topic partitionID p) start n := by
  intro j hj hsome k hk hlt
  exact (h j (by omega) (by omega) hsome).right k hk hlt

theorem Contiguous.messagesFrom :
    messagesFrom se.encryptor topic partitionID p start =
      takeRun (messageAt se.encryptor topic partitionID p) start
        (p.highWater + 1 - start) :=
  valuesFrom_eq_takeRun_iff.mpr (h.unbroken (Nat.le_refl _))

omit h in
theorem length_messagesFrom_le (encryptor : Option Decryptor) (topic : Bytes)
    (partID : Nat) (p : Partition) (start : Nat) :
    (messagesFrom encryptor topic partID p start).length ≤
      p.highWater + 1 - start :=
  length_valuesFrom_le _ _ _

theorem Contiguous.next_lt {k : Nat} (hstart : start < 2 ^ 64)
    (hk : k ≤ (Engine.messagesFrom se.encryptor topic partitionID p
      start).length) : start + k < 2 ^ 64 := by
  have hlength := length_messagesFrom_le se.encryptor topic partitionID p start
  rw [h.messagesFrom] at hk hlength
  cases k with
  | zero => exact hstart
  | succ k =>
  have hroom := (h (start + k) (Nat.le_add_right _ _) (by omega)
    (isSome_of_lt_length hk)).left
  have hsmall : maxInt = 2 ^ 63 - 1 := rfl
  omega

theorem Contiguous.messagesFrom_add {k : Nat}
    (hk : k ≤ (Engine.messagesFrom se.encryptor topic partitionID p
      start).length) :
    Engine.messagesFrom se.encryptor topic partitionID p (start + k) =
      (Engine.messagesFrom se.encryptor topic partitionID p start).drop k := by
  rw [h.messagesFrom] at hk ⊢
  rw [(h.later (Nat.le_add_right start k)).messagesFrom, ← takeRun_drop hk]
  congr 1
  omega

theorem Contiguous.readMessages (hplace : p.InPlace)
    (hbound : p.highWater < 2 ^ 64) (hstart : start < 2 ^ 64)
    {maxMessages : Int} (hmax : maxMessages ≤ (maxInt : Int)) :
    readMessages se.encryptor p topic partitionID start p.highWater
        maxMessages =
      ((Engine.messagesFrom se.encryptor topic partitionID p start).take
          maxMessages.toNat,
        start + ((Engine.messagesFrom se.encryptor topic partitionID p
          start).take maxMessages.toNat).length) := by
  have hlast := lastOffset_le start p.highWater maxMessages
  have hmsgs : decodeAll se.encryptor topic partitionID start
      (p.readRange start (lastOffset start p.highWater maxMessages)
        maxMessages) =
      (takeRun (messageAt se.encryptor topic partitionID p) start
        (p.highWater + 1 - start)).take maxMessages.toNat := by
    rw [hplace.readRange, decodeAll_unbroken (h.unbroken (by omega))]
    cases hfirst : messageAt se.encryptor topic partitionID p start with
    | none => rw [takeRun_of_none hfirst, takeRun_of_none hfirst, List.take_nil]
    | some env =>
    by_cases hwhole : start ≤ p.highWater ∧ 1 ≤ maxMessages
    · have hroom := (h start (Nat.le_refl _) hwhole.left
        (by rw [hfirst]; rfl)).left
      have hend := @lastOffset_eq start p.highWater maxMessages
        hwhole.right hmax (by omega)
      rw [hend, takeRun_take _ _ (show min maxMessages.toNat
        (min p.highWater (start + maxMessages.toNat - 1) + 1 - start) ≤
          p.highWater + 1 - start by omega)]
      have hlength := length_takeRun_le
        (messageAt se.encryptor topic partitionID p) start
        (p.highWater + 1 - start)
      rw [List.take_eq_take_iff]
      omega
    · have hzero : min maxMessages.toNat
          (lastOffset start p.highWater maxMessages + 1 - start) = 0 := by
        omega
      rw [hzero]
      by_cases hpast : start ≤ p.highWater
      · rw [show maxMessages.toNat = 0 by omega]
        rfl
      · rw [show p.highWater + 1 - start = 0 by omega]
        exact List.take_nil.symm
  rw [h.messagesFrom]
  change (decodeAll se.encryptor topic partitionID start
    (p.readRange start (lastOffset start p.highWater maxMessages) maxMessages),
    (start + (decodeAll se.encryptor topic partitionID start
      (p.readRange start (lastOffset start p.highWater maxMessages)
        maxMessages)).length) % 2 ^ 64) = _
  rw [hmsgs]
  refine Prod.ext rfl (Nat.mod_eq_of_lt (h.next_lt hstart ?_))
  rw [h.messagesFrom]
  exact List.length_take_le' _ _

theorem Contiguous.fetch (hclosed : se.closed = false)
    (hopen : getEntry (topic, partitionID) se.storage.partitions = some p)
    (hplace : p.InPlace) (hbound : p.highWater < 2 ^ 64)
    (hstart : start < 2 ^ 64) {maxMessages : Int}
    (hmax : maxMessages ≤ (maxInt : Int)) {c : FetchContext}
    (hquiet : Quiet p c) :
    se.fetch topic partitionID start maxMessages c =
      (se, .ok
        ((Engine.messagesFrom se.encryptor topic partitionID p start).take
          maxMessages.toNat,
        start + ((Engine.messagesFrom se.encryptor topic partitionID p
          start).take maxMessages.toNat).length)) := by
  have hread := h.readMessages hplace hbound hstart hmax
  rcases Nat.lt_or_ge p.highWater start with hlt | hle
  · have hnone : Engine.messagesFrom se.encryptor topic partitionID p start =
        [] := by
      unfold Engine.messagesFrom
      rw [show p.highWater + 1 - start = 0 by omega]
      rfl
    rcases fetch_above hclosed hopen hlt maxMessages hquiet with hwait | hback
    · rw [hwait, hnone, List.take_nil]
      rfl
    · rw [hback, hread]
  · rw [fetch_below hclosed hopen hle, hread]

theorem Contiguous.fetchAll (hclosed : se.closed = false)
    (hopen : getEntry (topic, partitionID) se.storage.partitions = some p)
    (hplace : p.InPlace) (hbound : p.highWater < 2 ^ 64)
    (hstart : start < 2 ^ 64) {calls : List (Int × FetchContext)}
    (hcalls : forall call, call ∈ calls ->
      call.1 ≤ (maxInt : Int) ∧ Quiet p call.2) :
    Engine.fetchAll topic partitionID se start calls =
      (Engine.messagesFrom se.encryptor topic partitionID p start).take
        (calls.map (fun call => call.1.toNat)).sum := by
  induction calls generalizing start with
  | nil => rfl
  | cons call rest ih =>
  rcases call with ⟨maxMessages, c⟩
  have hfirst := hcalls _ (List.mem_cons_self ..)
  have hfetch := h.fetch hclosed hopen hplace hbound hstart hfirst.left
    hfirst.right
  unfold Engine.fetchAll
  rw [hfetch]
  have hpart := List.length_take_le' maxMessages.toNat
    (Engine.messagesFrom se.encryptor topic partitionID p start)
  have hrest := ih (h.later (Nat.le_add_right _ _))
    (h.next_lt hstart hpart)
    (fun call hcall => hcalls call (List.mem_cons_of_mem _ hcall))
  rw [h.messagesFrom_add hpart] at hrest
  simp only [hrest]
  rw [List.map_cons, List.sum_cons, List.take_add]
  congr 2
  rw [List.length_take]
  rcases Nat.le_total maxMessages.toNat (Engine.messagesFrom se.encryptor
      topic partitionID p start).length with hle | hge
  · rw [Nat.min_eq_left hle]
  · rw [Nat.min_eq_right hge, List.drop_length, List.drop_of_length_le hge]

omit h

/-!
## Fetching one message after the other
-/

def ask (n : Int) : Int × FetchContext :=
  (n, { now := 0, notified := none })

theorem fetch_one (hclosed : se.closed = false)
    (hopen : getEntry (topic, partitionID) se.storage.partitions = some p)
    (hplace : p.InPlace) (hbound : p.highWater < 2 ^ 64)
    (hle : start ≤ p.highWater) (c : FetchContext) :
    se.fetch topic partitionID start 1 c =
      (se, .ok ((messageAt se.encryptor topic partitionID p start).toList,
        (start + (messageAt se.encryptor topic partitionID p
          start).toList.length) % 2 ^ 64)) := by
  have hlast := @lastOffset_eq start p.highWater 1 (by decide) (by decide)
    (by omega)
  have hmsgs : decodeAll se.encryptor topic partitionID start
      (p.readRange start (lastOffset start p.highWater 1) 1) =
      (messageAt se.encryptor topic partitionID p start).toList := by
    have hroom : min (1 : Int).toNat (min p.highWater
        (start + (1 : Int).toNat - 1) + 1 - start) = 1 := by
      omega
    have hone : Unbroken (messageAt se.encryptor topic partitionID p)
        start 1 := by
      intro j hj _ k hk hlt
      omega
    rw [hplace.readRange, hlast, hroom, decodeAll_unbroken hone,
      ← valuesFrom_eq_takeRun_iff.mpr hone, valuesFrom_succ]
    exact List.append_nil _
  rw [fetch_below hclosed hopen hle]
  change (se, Except.ok (decodeAll se.encryptor topic partitionID start
    (p.readRange start (lastOffset start p.highWater 1) 1),
    (start + (decodeAll se.encryptor topic partitionID start
      (p.readRange start (lastOffset start p.highWater 1) 1)).length) %
        2 ^ 64)) = _
  rw [hmsgs]

theorem fetchAll_ones {n : Nat} (hclosed : se.closed = false)
    (hopen : getEntry (topic, partitionID) se.storage.partitions = some p)
    (hplace : p.InPlace) (hbound : p.highWater < 2 ^ 64)
    (hn : start + n ≤ p.highWater + 1) :
    fetchAll topic partitionID se start (List.replicate n (ask 1)) =
      takeRun (messageAt se.encryptor topic partitionID p) start n := by
  induction n generalizing start with
  | zero => rfl
  | succ n ih =>
  rw [List.replicate_succ, ask, fetchAll,
    fetch_one hclosed hopen hplace hbound (by omega)]
  cases hfirst : messageAt se.encryptor topic partitionID p start with
  | none =>
    have hrest := @ih start (by omega)
    have hsame : (start + 0) % 2 ^ 64 = start := by
      omega
    rw [takeRun_of_none hfirst] at hrest ⊢
    simp only [Option.toList_none, List.length_nil, hsame,
      List.nil_append]
    exact hrest
  | some env =>
  rw [takeRun_of_some hfirst]
  cases n with
  | zero => rfl
  | succ n =>
  have hsame : (start + 1) % 2 ^ 64 = start + 1 := by
    omega
  simp only [Option.toList_some, List.length_singleton, hsame,
    List.singleton_append]
  exact congrArg (env :: ·) (ih (by omega))

theorem fetchAll_ones_append {n : Nat} (hclosed : se.closed = false)
    (hopen : getEntry (topic, partitionID) se.storage.partitions = some p)
    (hplace : p.InPlace) (hbound : p.highWater < 2 ^ 64)
    (hn : start + n ≤ p.highWater)
    (hall : forall offset, start ≤ offset -> offset < start + n ->
      (messageAt se.encryptor topic partitionID p offset).isSome)
    (rest : List (Int × FetchContext)) :
    fetchAll topic partitionID se start (List.replicate n (ask 1) ++ rest) =
      takeRun (messageAt se.encryptor topic partitionID p) start n ++
        fetchAll topic partitionID se (start + n) rest := by
  induction n generalizing start with
  | zero => rfl
  | succ n ih =>
  rcases Option.isSome_iff_exists.mp (hall start (Nat.le_refl _)
    (by omega)) with ⟨env, henv⟩
  have hsame : (start + 1) % 2 ^ 64 = start + 1 := by
    omega
  have hrest := @ih (start + 1) (by omega)
    (fun offset hle hlt => hall offset (by omega) (by omega))
  rw [Nat.succ_add_eq_add_succ] at hrest
  rw [List.replicate_succ, List.cons_append, ask, fetchAll,
    fetch_one hclosed hopen hplace hbound (by omega), henv,
    takeRun_of_some henv, List.cons_append, ← hrest]
  simp only [Option.toList_some, List.length_singleton, hsame,
    List.singleton_append]
  rfl

theorem fetchAll_stuck (hclosed : se.closed = false)
    (hopen : getEntry (topic, partitionID) se.storage.partitions = some p)
    (hplace : p.InPlace) (hbound : p.highWater < 2 ^ 64)
    (hle : start ≤ p.highWater) (hlong : 2 ^ 64 < start + maxInt) (n : Nat) :
    fetchAll topic partitionID se start (List.replicate n (ask maxInt)) =
      [] := by
  have hlast := @lastOffset_lt start p.highWater maxInt hle hbound
    (Int.le_refl _) (by omega)
  have hread : readMessages se.encryptor p topic partitionID start p.highWater
      maxInt = ([], start) := by
    change (decodeAll se.encryptor topic partitionID start
      (p.readRange start (lastOffset start p.highWater maxInt) maxInt),
      (start + (decodeAll se.encryptor topic partitionID start
        (p.readRange start (lastOffset start p.highWater maxInt)
          maxInt)).length) % 2 ^ 64) = _
    rw [hplace.readRange, Nat.sub_eq_zero_of_le hlast, Nat.min_zero]
    exact Prod.ext rfl (Nat.mod_eq_of_lt (Nat.lt_of_le_of_lt hle hbound))
  induction n with
  | zero => rfl
  | succ n ih =>
  rw [List.replicate_succ, ask, fetchAll,
    fetch_below hclosed hopen hle, hread]
  exact ih

/-!
## Every message once
-/

theorem sum_toNat_ge (calls : List (Int × FetchContext)) :
    (calls.filter (fun call => decide (1 ≤ call.1))).length ≤
      (calls.map (fun call => call.1.toNat)).sum := by
  induction calls with
  | nil => exact Nat.le_refl 0
  | cons call rest ih =>
  rw [List.map_cons, List.sum_cons]
  by_cases hpos : 1 ≤ call.1
  · have hfirst : decide (1 ≤ call.1) = true := decide_eq_true hpos
    rw [List.filter_cons, if_pos hfirst, List.length_cons]
    omega
  have hfirst : ¬ decide (1 ≤ call.1) = true := by
    rw [decide_eq_true_iff]
    exact hpos
  rw [List.filter_cons, if_neg hfirst]
  omega

theorem Contiguous.iteratesOnce (h : se.Contiguous topic partitionID p start)
    (hclosed : se.closed = false)
    (hopen : getEntry (topic, partitionID) se.storage.partitions = some p)
    (hplace : p.InPlace) (hbound : p.highWater < 2 ^ 64)
    (hstart : start < 2 ^ 64) : se.IteratesOnce topic partitionID p start := by
  intro calls hcalls
  have hall := h.fetchAll hclosed hopen hplace hbound hstart
    (fun call hcall => ⟨(hcalls call hcall).left,
      (hcalls call hcall).right.right⟩)
  rw [hall]
  constructor
  · exact List.take_prefix _ _
  · intro henough
    exact List.take_of_length_le (henough.trans (sum_toNat_ge calls))

theorem quiet_ask {n : Int} (hn : n ≤ (maxInt : Int))
    (hneg : -(maxInt : Int) ≤ n) {k : Nat} {call : Int × FetchContext}
    (hcall : call ∈ List.replicate k (ask n)) :
    call.1 ≤ (maxInt : Int) ∧ -(maxInt : Int) ≤ call.1 ∧ Quiet p call.2 := by
  rw [List.eq_of_mem_replicate hcall]
  exact ⟨hn, hneg, Or.inl rfl⟩

theorem length_filter_ask {n : Int} (hn : 1 ≤ n) (k : Nat) :
    ((List.replicate k (ask n)).filter
      (fun call => decide (1 ≤ call.1))).length = k := by
  rw [List.filter_eq_self.mpr, List.length_replicate]
  intro call hcall
  rw [List.eq_of_mem_replicate hcall]
  exact decide_eq_true hn

/--
Fetching goes through the messages of a partition once exactly if there is a
message at every offset between the start and any message.
-/
theorem iteratesOnce_iff {se : Engine} {topic : Bytes} {partitionID : Nat}
    {p : Partition} {start : Nat} (hclosed : se.closed = false)
    (hopen : getEntry (topic, partitionID) se.storage.partitions = some p)
    (hplace : p.InPlace) (hbound : p.highWater < 2 ^ 64)
    (hstart : start < 2 ^ 64) :
    se.IteratesOnce topic partitionID p start <->
      se.Contiguous topic partitionID p start := by
  constructor
  · intro h
    have hunbroken : Unbroken (messageAt se.encryptor topic partitionID p)
        start (p.highWater + 1 - start) := by
      apply valuesFrom_eq_takeRun_iff.mp
      rcases Nat.lt_or_ge (p.highWater + 1) start with hpast | hin
      · rw [Nat.sub_eq_zero_of_le (Nat.le_of_lt hpast)]
        rfl
      have hones := h (List.replicate (p.highWater + 1 - start) (ask 1))
        (fun call hcall => quiet_ask (by decide) (by decide) hcall)
      have henough := hones.right (by
        rw [length_filter_ask (by decide)]
        exact length_messagesFrom_le _ _ _ _ _)
      rw [fetchAll_ones hclosed hopen hplace hbound (by omega)] at henough
      exact henough.symm
    intro offset hle hlast hsome
    have hbefore : forall before, start ≤ before -> before < offset ->
        (messageAt se.encryptor topic partitionID p before).isSome :=
      hunbroken offset (by omega) hsome
    refine ⟨?_, hbefore⟩
    by_contra hlong
    have hcut := h (List.replicate (offset - start) (ask 1) ++
      List.replicate (p.highWater + 1 - start) (ask maxInt)) (by
        intro call hcall
        rcases List.mem_append.mp hcall with hone | hmany
        · exact quiet_ask (by decide) (by decide) hone
        · exact quiet_ask (Int.le_refl _) (by decide) hmany)
    have hwhere : start + (offset - start) = offset := by omega
    have henough := hcut.right (by
      have hlength := length_messagesFrom_le se.encryptor topic partitionID p
        start
      rw [List.filter_append, List.length_append,
        length_filter_ask (by decide), length_filter_ask (by decide)]
      omega)
    rw [fetchAll_ones_append hclosed hopen hplace hbound (by omega)
      (fun before hb hlt => hbefore before hb (by omega)), hwhere,
      fetchAll_stuck hclosed hopen hplace hbound hlast (by omega),
      List.append_nil] at henough
    have hall := valuesFrom_eq_takeRun_iff.mpr hunbroken
    change messagesFrom se.encryptor topic partitionID p start = _ at hall
    rw [hall] at henough
    have hshort := length_takeRun_le
      (messageAt se.encryptor topic partitionID p) start (offset - start)
    rw [henough] at hshort
    have hnone := @none_of_length_lt _
      (messageAt se.encryptor topic partitionID p) start
      (p.highWater + 1 - start) (by omega)
    rcases Nat.eq_or_lt_of_le hshort with hsame | hless
    · rw [hsame, hwhere] at hnone
      rw [hnone] at hsome
      cases hsome
    have hthere := hbefore (start + (takeRun
      (messageAt se.encryptor topic partitionID p) start
      (p.highWater + 1 - start)).length) (Nat.le_add_right _ _) (by omega)
    rw [hnone] at hthere
    cases hthere
  · intro h
    exact h.iteratesOnce hclosed hopen hplace hbound hstart

/-!
## Two partitions
-/

def payloadRecord (b : UInt8) : Bytes :=
  match marshal { Envelope.zero with payload := [b] } with
  | .ok data => data
  | .error _ => []

def streamOf (records : List Bytes) : Option (Partition × Engine) :=
  (Partition.openPartition Disk.empty [] 0 1000 0).toOption.map (fun p =>
    let q := (p.appendAll (records.map (fun data => (data, 0)))).1
    (q, newEngine
      { segmentSize := 1000, dirs := [], partitions := [(([], 0), q)] }
      (OffsetStore.newOffsetStore []) none))

theorem streamOf_spec {records : List Bytes}
    (h : streamOf records = some (p, se)) (hsmall : Partition.SmallFiles p.dir)
    (hfew : records.length < 2 ^ 64) :
    se.closed = false ∧
      getEntry ([], 0) se.storage.partitions = some p ∧ p.InPlace := by
  rcases Option.map_eq_some_iff.mp h with ⟨empty, hempty, hsame⟩
  cases hsame
  refine ⟨rfl, rfl, ?_⟩
  rcases hopen : Partition.openPartition Disk.empty [] 0 1000 0 with e | p
  · rw [hopen] at hempty
    cases hempty
  rw [hopen] at hempty
  cases hempty
  rcases Partition.listLog_openPartition hopen with ⟨front, last, hnil⟩
  rcases hnil.appendAll (records.map (fun data => (data, 0))) hsmall (by
    rw [List.length_map, List.length_nil]
    omega) with ⟨_, _, hlist, _⟩
  exact hlist.opened.inPlace

/-- The last record is not a message, the two before it are fetched once. -/
theorem iteratesOnce_undecodableLast :
    exists p se, streamOf [payloadRecord 1, payloadRecord 2, []] =
        some (p, se) ∧
      (messagesFrom se.encryptor [] 0 p 0).length = 2 ∧
      se.IteratesOnce [] 0 p 0 := by
  have hcheck : (streamOf [payloadRecord 1, payloadRecord 2, []]).map (fun s =>
      decide (Partition.SmallFiles s.1.dir ∧ s.1.highWater = 2 ∧
        (messagesFrom s.2.encryptor [] 0 s.1 0).length = 2 ∧
        (messageAt s.2.encryptor [] 0 s.1 0).isSome ∧
        messageAt s.2.encryptor [] 0 s.1 2 = none)) = some true := by
    decide +kernel
  rcases Option.map_eq_some_iff.mp hcheck with ⟨⟨p, se⟩, hstream, hdecide⟩
  rcases of_decide_eq_true hdecide with
    ⟨hsmall, hhw, hlength, hfirst, hlast⟩
  rcases streamOf_spec hstream hsmall (by decide) with
    ⟨hclosed, hopen, hplace⟩
  change p.highWater = 2 at hhw
  refine ⟨p, se, hstream, hlength, ?_⟩
  apply (iteratesOnce_iff hclosed hopen hplace (by omega) (by decide)).mpr
  intro offset _ hle hsome
  have htwo : offset ≠ 2 := by
    intro htwo
    rw [htwo, hlast] at hsome
    cases hsome
  have hsmall : maxInt = 2 ^ 63 - 1 := rfl
  refine ⟨by omega, ?_⟩
  intro before _ hlt
  rw [show before = 0 by omega]
  exact hfirst

/-- The first record is not a message, one of the others is fetched twice. -/
theorem not_iteratesOnce_undecodableFirst :
    exists p se, streamOf [[], payloadRecord 1, payloadRecord 2] =
        some (p, se) ∧
      fetchAll [] 0 se 0 [ask 3, ask 3] =
        messagesFrom se.encryptor [] 0 p 0 ++
          messagesFrom se.encryptor [] 0 p 2 ∧
      ¬ se.IteratesOnce [] 0 p 0 := by
  have hcheck : (streamOf [[], payloadRecord 1, payloadRecord 2]).map (fun s =>
      decide (fetchAll [] 0 s.2 0 [ask 3, ask 3] =
          messagesFrom s.2.encryptor [] 0 s.1 0 ++
            messagesFrom s.2.encryptor [] 0 s.1 2 ∧
        messagesFrom s.2.encryptor [] 0 s.1 2 ≠ [])) = some true := by
    decide +kernel
  rcases Option.map_eq_some_iff.mp hcheck with ⟨⟨p, se⟩, hstream, hdecide⟩
  rcases of_decide_eq_true hdecide with ⟨hfetched, hagain⟩
  change fetchAll [] 0 se 0 [ask 3, ask 3] =
    messagesFrom se.encryptor [] 0 p 0 ++ messagesFrom se.encryptor [] 0 p 2
      at hfetched
  refine ⟨p, se, hstream, hfetched, ?_⟩
  intro hiterates
  have hprefix := (hiterates [ask 3, ask 3] (by
    intro call hcall
    exact quiet_ask (by decide) (by decide)
      (show call ∈ List.replicate 2 (ask 3) from hcall))).left.length_le
  rw [hfetched, List.length_append] at hprefix
  change messagesFrom se.encryptor [] 0 p 2 ≠ [] at hagain
  exact hagain (List.length_eq_zero_iff.mp (by omega))

end Engine

end Stream
end ChimeraMQ
