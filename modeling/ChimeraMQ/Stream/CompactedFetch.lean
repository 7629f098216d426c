import ChimeraMQ.Storage.CompactionReads
import ChimeraMQ.Storage.Encrypt
import ChimeraMQ.Stream.Engine

/-!
# Fetching from a compacted partition

The records of a partition are encrypted before they are appended, and a fetch
decrypts them.  A compaction decrypts them as well, to find the routing keys,
and writes what it has decrypted.
-/

namespace ChimeraMQ
namespace Storage

open Foundation
open Message

/-- No other text opens than one that was sealed with the key and nonce. -/
def Aead.Authentic (a : Aead) : Prop :=
  forall key nonce text aad plaintext,
    a.openText key nonce text aad = some plaintext ->
      text = a.sealText key nonce plaintext aad

def Encryptor.decryptor (enc : Encryptor) (a : Aead) :
    Bytes -> Bytes -> Option Bytes :=
  fun ciphertext segmentID => (enc.decrypt a ciphertext segmentID).toOption

theorem Encryptor.length_decryptor {enc : Encryptor} {a : Aead}
    (hauth : a.Authentic) {ciphertext segmentID plaintext : Bytes}
    (h : enc.decryptor a ciphertext segmentID = some plaintext) :
    plaintext.length < ciphertext.length := by
  unfold decryptor Encryptor.decrypt at h
  by_cases hshort : ciphertext.length < 4 + nonceSize + tagSize
  · rw [dif_pos hshort] at h
    cases h
  rw [dif_neg hshort] at h
  cases hkey : getEntry (UInt32.ofNat (ofBe (ciphertext.take 4)))
      enc.keys with
  | none =>
    simp only [hkey] at h
    cases h
  | some k =>
  simp only [hkey] at h
  split at h
  · cases h
  rename_i hopen
  cases h
  have htext := hauth _ _ _ _ _ hopen
  have htagged := a.tagged k ⟨(ciphertext.drop 4).take nonceSize, by
    rw [List.length_take, List.length_drop]
    omega⟩ plaintext segmentID
  rw [← htext, List.length_drop] at htagged
  omega

end Storage

namespace Stream

open Foundation
open Message
open Storage

namespace Engine

/-- What a fetch reads of a stored record before it decodes it. -/
def plaintextOf (encryptor : Option Decryptor) (topic : Bytes) (partID : Nat)
    (data : Bytes) : Option Bytes :=
  match encryptor with
  | none => some data
  | some decrypt => decrypt data (segmentID topic partID)

end Engine
end Stream

namespace Storage
namespace LogCompactor

open Foundation
open Message

theorem segmentID_eq (p : Partition) :
    Stream.Engine.segmentID p.topicName p.partitionID = segID p := by
  unfold Stream.Engine.segmentID segID
  rw [List.append_assoc, List.map_append]
  rfl

theorem plaintextOf_eq (lc : LogCompactor) (p : Partition) (data : Bytes) :
    Stream.Engine.plaintextOf lc.encryptor p.topicName p.partitionID data =
      lc.decrypt (segID p) data := by
  unfold Stream.Engine.plaintextOf LogCompactor.decrypt
  rw [segmentID_eq]
  rfl

def Remains (lc : LogCompactor) (p : Partition) (data raw : Bytes) : Prop :=
  raw = data ∨ lc.decrypt (segID p) data = some raw

/-- Of all that is left of a record a fetch reads the message in the record. -/
def Delivers (lc : LogCompactor) (p q : Partition) : Prop :=
  forall data raw plaintext, data ∈ readFrozen p -> raw ∈ newRecords p q ->
    lc.decrypt (segID p) data = some plaintext -> lc.Remains p data raw ->
      Stream.Engine.plaintextOf lc.encryptor p.topicName p.partitionID raw =
          some plaintext ∧
        Stream.Engine.decode lc.encryptor p.topicName p.partitionID raw =
          (unmarshal plaintext).toOption

theorem delivers_of_newRecords_nil {lc : LogCompactor} {p q : Partition}
    (h : newRecords p q = []) : lc.Delivers p q := by
  intro data raw plaintext _ hraw
  rw [h] at hraw
  cases hraw

theorem Rewritten.delivers_iff {lc : LogCompactor} {p q : Partition}
    {order : List Bytes} {s : Segment} (h : Rewritten lc p order q s)
    (hshorter : forall data plaintext,
      lc.decrypt (segID p) data = some plaintext ->
        plaintext.length < data.length) :
    lc.Delivers p q <-> Overwrites p ∨
      forall data, data ∈ readFrozen p ->
        lc.routingKey (segID p) data = none := by
  rw [← written_eq_nil_iff h.perm]
  constructor
  · intro hdelivers
    by_contra hnot
    rw [not_or] at hnot
    rcases List.exists_mem_of_ne_nil _ hnot.right with ⟨raw, hraw⟩
    have hnew : raw ∈ newRecords p q := by
      rw [h.newRecords_eq, if_neg hnot.left]
      exact hraw
    have hmem : raw ∈ (lc.collectAll p).keyless ++
        (lc.collectAll p).latest.map Prod.snd :=
      (h.perm.append_left _).mem_iff.mp hraw
    rcases lc.readOf_collectAll p raw hmem with ⟨data, hdata, hread⟩
    have hself := (hdelivers data raw raw hdata hnew hread
      (Or.inr hread)).left
    rw [plaintextOf_eq] at hself
    exact Nat.lt_irrefl _ (hshorter raw raw hself)
  · intro hnothing
    apply delivers_of_newRecords_nil
    rw [h.newRecords_eq]
    split
    · rfl
    · rename_i hkept
      exact hnothing.resolve_left hkept

/--
In every run of appends, compactions and reopens, a compaction with the
decryptor of an encryptor leaves nothing that is not delivered exactly if it
leaves nothing new at all.
-/
theorem compact_delivers_iff {enc : Encryptor} {a : Aead}
    (hauth : a.Authentic) {lc : LogCompactor}
    (hlc : lc.encryptor = some (enc.decryptor a)) {topic : Bytes}
    {id maxSegSize opened now : Nat} {p : Partition}
    {actions : List PartitionAction} {order : List Bytes}
    {r : Except SegmentError Partition}
    (hshort : forall action, action ∈ actions -> ShortRecord action)
    (hreached : lc.reached topic id maxSegSize opened actions = some p)
    (hcompact : lc.compact p order now = some r) :
    exists q, r = .ok q ∧
      (lc.Delivers p q <->
        (Compacts p -> Overwrites p ∨
          forall data, data ∈ readFrozen p ->
            lc.routingKey (segID p) data = none)) := by
  have hshorter : forall id data plaintext,
      lc.decrypt id data = some plaintext ->
        plaintext.length < data.length := by
    intro id data plaintext hplain
    unfold LogCompactor.decrypt at hplain
    rw [hlc] at hplain
    exact Encryptor.length_decryptor hauth hplain
  have hdec : lc.ShortDecrypt :=
    fun id data plaintext h => Nat.le_of_lt (hshorter id data plaintext h)
  have hp := inOrder_reached hdec hshort hreached
  by_cases hcompacts : Compacts p
  · rcases exists_rewritten hp hdec hcompacts hcompact with
      ⟨q, s, hr, hrewritten⟩
    refine ⟨q, hr, (hrewritten.delivers_iff (hshorter _)).trans ?_⟩
    exact ⟨fun h _ => h, fun h => h hcompacts⟩
  rw [compact_idle hcompacts] at hcompact
  cases hcompact
  refine ⟨p, rfl, ?_⟩
  apply iff_of_true (delivers_of_newRecords_nil (newRecords_self p))
  exact fun h => absurd h hcompacts

theorem authentic_plainAead : plainAead.Authentic := by
  intro key nonce text aad plaintext hopen
  change (if text.take keyLength = key.val then
    some (text.drop keyLength) else none) = some plaintext at hopen
  by_cases hkey : text.take keyLength = key.val
  · rw [if_pos hkey, Option.some.injEq] at hopen
    change text = key.val ++ plaintext
    rw [← hkey, ← hopen, List.take_append_drop]
  · rw [if_neg hkey] at hopen
    cases hopen

def oneKey : Encryptor :=
  .addKey [] 0 ⟨variedKey 3, by decide⟩

def decryptingCompactor : LogCompactor :=
  { newLogCompactor .keyBased with
    encryptor := some (oneKey.decryptor plainAead) }

def appendSealed (plaintext : Bytes) : PartitionAction :=
  .append (oneKey.encrypt plainAead zeroNonce plaintext
    (Stream.Engine.segmentID [] 0)) 0

def threeSealed (a b c : Bytes) (maxSegSize : Nat) : Option Partition :=
  decryptingCompactor.reached [] 0 maxSegSize 0
    [appendSealed a, appendSealed b, appendSealed c]

def fetched (p : Partition) : Nat :=
  (Stream.Engine.readMessages decryptingCompactor.encryptor p p.topicName
    p.partitionID 0 p.highWater 10).1.length

/-- Texts that are no messages are dropped by a compaction. -/
theorem delivers_noMessages :
    exists p q, threeSealed [1] [2] [3] 100 = some p ∧
      decryptingCompactor.compact p [] 0 = some (.ok q) ∧ Compacts p ∧
      decryptingCompactor.Delivers p q := by
  have hcheck : (threeSealed [1] [2] [3] 100).bind (fun p =>
      (decryptingCompactor.compact p [] 0).map (fun _ =>
        decide (Compacts p ∧ forall data, data ∈ readFrozen p ->
          decryptingCompactor.routingKey (segID p) data = none))) =
        some true := by
    decide +kernel
  rcases Option.bind_eq_some_iff.mp hcheck with ⟨p, hreached, h⟩
  rcases Option.map_eq_some_iff.mp h with ⟨r, hcompact, hdecide⟩
  rcases of_decide_eq_true hdecide with ⟨hcompacts, hnone⟩
  have hshort : forall action, action ∈ [appendSealed [1], appendSealed [2],
      appendSealed [3]] -> ShortRecord action := by
    intro action haction
    simp only [List.mem_cons, List.not_mem_nil, or_false] at haction
    rcases haction with h1 | h2 | h3
    · rw [h1]
      show List.length _ < 2 ^ 32
      decide +kernel
    · rw [h2]
      show List.length _ < 2 ^ 32
      decide +kernel
    · rw [h3]
      show List.length _ < 2 ^ 32
      decide +kernel
  rcases compact_delivers_iff authentic_plainAead rfl hshort hreached hcompact
    with ⟨q, hq, hiff⟩
  subst hq
  exact ⟨p, q, hreached, hcompact, hcompacts,
    hiff.mpr (fun _ => Or.inr hnone)⟩

/-- Of three messages only the one in the active segment is still fetched. -/
theorem not_delivers_threeMessages :
    exists p q,
      threeSealed (keyedRecord 1) (keyedRecord 2) (keyedRecord 3) 150 =
        some p ∧
      decryptingCompactor.compact p [keyedRecord 1, keyedRecord 2] 0 =
        some (.ok q) ∧
      fetched p = 3 ∧ q.read 0 = .ok (keyedRecord 1) ∧
      q.read 1 = .ok (keyedRecord 2) ∧ fetched q = 1 ∧
      ¬ decryptingCompactor.Delivers p q := by
  have hcheck : (threeSealed (keyedRecord 1) (keyedRecord 2) (keyedRecord 3)
      150).bind (fun p =>
        (decryptingCompactor.compact p [keyedRecord 1, keyedRecord 2] 0).bind
          (fun r => r.toOption.map (fun q =>
            decide (fetched p = 3 ∧ q.read 0 = .ok (keyedRecord 1) ∧
              q.read 1 = .ok (keyedRecord 2) ∧ fetched q = 1 ∧
              keyedRecord 1 ∈ newRecords p q ∧
              (exists data, data ∈ readFrozen p ∧
                decryptingCompactor.decrypt (segID p) data =
                  some (keyedRecord 1)) ∧
              decryptingCompactor.decrypt (segID p) (keyedRecord 1) ≠
                some (keyedRecord 1))))) = some true := by
    decide +kernel
  rcases Option.bind_eq_some_iff.mp hcheck with ⟨p, hreached, h1⟩
  rcases Option.bind_eq_some_iff.mp h1 with ⟨r, hcompact, h2⟩
  rcases Option.map_eq_some_iff.mp h2 with ⟨q, hq, hdecide⟩
  rcases of_decide_eq_true hdecide with
    ⟨hbefore, hzero, hone, hafter, hnew, ⟨data, hdata, hread⟩, hself⟩
  cases r with
  | error e => cases hq
  | ok q' =>
  cases hq
  refine ⟨p, q, hreached, hcompact, hbefore, hzero, hone, hafter, ?_⟩
  intro hdelivers
  have hplain := (hdelivers data (keyedRecord 1) (keyedRecord 1) hdata
    hnew hread (Or.inr hread)).left
  rw [plaintextOf_eq] at hplain
  exact hself hplain

end LogCompactor
end Storage
end ChimeraMQ
