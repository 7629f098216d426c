import Mathlib.Algebra.Order.BigOperators.Group.List
import ChimeraMQ.Message.Envelope

/-!
# Reading back what was serialized

The fields of a serialized envelope lie one after the other, so each is found
at the place where it was written.  The lengths in the fixed part add up to the
length of the whole, so nothing shorter is accepted.
-/

namespace ChimeraMQ
namespace Message

open Foundation

/-!
## Fields
-/

variable {data : Bytes} {pos n : Nat}

theorem field_val (hlong : pos + n ≤ data.length) :
    (field data pos n).val = (data.drop pos).take n := by
  have hlength : ((data.drop pos).take n).length = n := by
    rw [List.length_take, List.length_drop]
    omega
  show ((data.drop pos).take n ++ List.replicate n 0).take n = _
  rw [List.take_append_of_le_length (Nat.le_of_eq hlength.symm),
    List.take_of_length_le (Nat.le_of_eq hlength)]

variable {b : Bytes}

theorem field_append {front back : Bytes} (hfront : front.length = pos)
    (hb : b.length = n) :
    (field (front ++ (b ++ back)) pos n).val = b := by
  rw [field_val]
  · rw [← hfront, List.drop_left, ← hb, List.take_left]
  · rw [List.length_append, List.length_append]
    omega

theorem fieldNat_append {front back : Bytes} (hfront : front.length = pos)
    (hb : b.length = n) :
    fieldNat (front ++ (b ++ back)) pos n = ofBe b := by
  rw [fieldNat, field_append hfront hb]

theorem field_take {m : Nat} (hm : pos + n ≤ m) (hlong : m ≤ data.length) :
    field (data.take m) pos n = field data pos n := by
  apply Subtype.ext
  rw [field_val (by rw [List.length_take]; omega), field_val (by omega),
    List.drop_take, List.take_take]
  congr 1
  omega

def fixedParts (e : Envelope) : List Bytes :=
  [e.messageID.val, be 8 e.timestamp.toUInt64.toNat, be 8 e.sequence.toNat,
    be 4 e.partitionID.toNat, be 4 e.schemaID.toNat, [e.priority],
    [e.encoding], [e.sourceProto], [flags e], be 4 e.payload.length,
    be 4 (headersSize e.headers), be 2 e.topic.length,
    be 2 e.routingKey.length, conditionalField e]

theorem marshalFixed_eq (e : Envelope) :
    marshalFixed e = (fixedParts e).flatten := by
  simp [marshalFixed, fixedParts]

theorem length_conditionalField (e : Envelope) :
    (conditionalField e).length = 8 := by
  unfold conditionalField
  split
  · exact length_be 8 _
  · split
    · exact length_be 8 _
    · rw [List.length_append, length_be, length_be]

theorem length_marshalFixed (e : Envelope) :
    (marshalFixed e).length = fixedHeaderSize := by
  rw [marshalFixed_eq]
  simp [fixedParts, e.messageID.property, length_conditionalField,
    fixedHeaderSize]

variable {e : Envelope}

theorem marshalFixed_split {i : Nat} (hi : (fixedParts e)[i]? = some b)
    (rest : Bytes) :
    marshalFixed e ++ rest =
      ((fixedParts e).take i).flatten ++
        (b ++ (((fixedParts e).drop (i + 1)).flatten ++ rest)) := by
  have hlt := (List.getElem?_eq_some_iff.mp hi).1
  have hget := (List.getElem?_eq_some_iff.mp hi).2
  rw [marshalFixed_eq]
  conv => lhs; rw [← List.take_append_drop i (fixedParts e)]
  rw [List.drop_eq_getElem_cons hlt, hget, List.flatten_append,
    List.flatten_cons, List.append_assoc, List.append_assoc]

theorem field_part {i : Nat} (hi : (fixedParts e)[i]? = some b)
    (hpos : ((fixedParts e).take i).flatten.length = pos) (hn : b.length = n)
    (rest : Bytes) :
    (field (marshalFixed e ++ rest) pos n).val = b := by
  rw [marshalFixed_split hi]
  exact field_append hpos hn

theorem fieldNat_part {i w v : Nat} (hi : (fixedParts e)[i]? = some (be w v))
    (hpos : ((fixedParts e).take i).flatten.length = pos) (hn : w = n)
    (hv : v < 256 ^ w) (rest : Bytes) :
    fieldNat (marshalFixed e ++ rest) pos n = v := by
  rw [fieldNat, field_part hi hpos ((length_be w v).trans hn), ofBe_be_of_lt hv]

theorem fieldByte_part {i : Nat} {x : UInt8}
    (hi : (fixedParts e)[i]? = some [x])
    (hpos : ((fixedParts e).take i).flatten.length = pos) (rest : Bytes) :
    UInt8.ofNat (fieldNat (marshalFixed e ++ rest) pos 1) = x := by
  rw [fieldNat, field_part (n := 1) hi hpos rfl]
  simp [ofBe]

theorem length_take_fixedParts (e : Envelope) (i : Nat) :
    ((fixedParts e).take i).flatten.length =
      ([16, 8, 8, 4, 4, 1, 1, 1, 1, 4, 4, 2, 2, 8].take i).sum := by
  have hlengths : (fixedParts e).map List.length =
      [16, 8, 8, 4, 4, 1, 1, 1, 1, 4, 4, 2, 2, 8] := by
    simp [fixedParts, e.messageID.property, length_conditionalField]
  rw [List.length_flatten, List.map_take, hlengths]

/-!
## The flags
-/

theorem flags_iff (e : Envelope) :
    (flags e &&& flagHasTrace ≠ 0 <-> e.traceID ≠ FixedBytes.zero 16) ∧
      (flags e &&& flagHasTTL ≠ 0 <-> e.ttl > 0) ∧
      (flags e &&& flagHasDelay ≠ 0 <-> e.deliverAt > 0) := by
  have hbits : forall h r t l d : Bool,
      let f := (if h then flagHasHeaders else 0) |||
        (if r then flagHasRoutingKey else 0) |||
        (if t then flagHasTrace else 0) ||| (if l then flagHasTTL else 0) |||
        (if d then flagHasDelay else 0)
      (f &&& flagHasTrace ≠ 0 <-> t = true) ∧
        (f &&& flagHasTTL ≠ 0 <-> l = true) ∧
        (f &&& flagHasDelay ≠ 0 <-> d = true) := by
    decide
  have h := hbits (decide (e.headers.entries.length > 0))
    (decide (e.routingKey ≠ [])) (decide (e.traceID ≠ FixedBytes.zero 16))
    (decide (e.ttl > 0)) (decide (e.deliverAt > 0))
  simp only [decide_eq_true_eq] at h
  exact h

/-!
## The fixed header
-/

/-- What the eight bytes tell, depending on the flags. -/
structure Control where
  ttl : Int64
  deliverAt : Int64
  deliverCount : UInt32
  maxRetries : UInt32
deriving DecidableEq

def Envelope.control (e : Envelope) : Control where
  ttl := e.ttl
  deliverAt := e.deliverAt
  deliverCount := e.deliverCount
  maxRetries := e.maxRetries

/--
What a serialized envelope carries of its delivery control fields: a positive
time to live, or else a positive delivery time, or else the two counts.
-/
def Envelope.carried (e : Envelope) : Control :=
  if e.ttl > 0 then { Envelope.zero.control with ttl := e.ttl }
  else if e.deliverAt > 0 then
    { Envelope.zero.control with deliverAt := e.deliverAt }
  else
    { Envelope.zero.control with
      deliverCount := e.deliverCount
      maxRetries := e.maxRetries }

/-- The size limits that serializing checks, in the words of the fields. -/
structure Fits (e : Envelope) : Prop where
  topic : e.topic.length < 2 ^ 16
  routingKey : e.routingKey.length < 2 ^ 16
  payload : e.payload.length < 2 ^ 32
  headers : headersSize e.headers < 2 ^ 32

theorem fieldNat_counts (rest : Bytes) (hcounts : conditionalField e =
      be 4 e.deliverCount.toNat ++ be 4 e.maxRetries.toNat) :
    fieldNat (marshalFixed e ++ rest) 56 4 = e.deliverCount.toNat ∧
      fieldNat (marshalFixed e ++ rest) 60 4 = e.maxRetries.toNat := by
  have hsplit := marshalFixed_split (e := e) (i := 13) rfl rest
  have hfront : ((fixedParts e).take 13).flatten.length = 56 :=
    length_take_fixedParts e 13
  rw [hcounts, List.append_assoc] at hsplit
  have hcount : e.deliverCount.toNat < 256 ^ 4 := e.deliverCount.toNat_lt
  have hretries : e.maxRetries.toNat < 256 ^ 4 := e.maxRetries.toNat_lt
  constructor
  · rw [hsplit, fieldNat_append hfront (length_be 4 _), ofBe_be_of_lt hcount]
  · rw [hsplit, ← List.append_assoc, fieldNat_append _ (length_be 4 _),
      ofBe_be_of_lt hretries]
    rw [List.length_append, hfront, length_be]

structure ReadsLengths (data : Bytes) (e : Envelope) : Prop where
  flags : UInt8.ofNat (fieldNat data 43 1) = Message.flags e
  payloadLen : fieldNat data 44 4 = e.payload.length
  headersLen : fieldNat data 48 4 = headersSize e.headers
  topicLen : fieldNat data 52 2 = e.topic.length
  rkLen : fieldNat data 54 2 = e.routingKey.length

theorem readsLengths (hfits : Fits e) (rest : Bytes) :
    ReadsLengths (marshalFixed e ++ rest) e where
  flags := fieldByte_part (i := 8) rfl (length_take_fixedParts e 8) rest
  payloadLen := fieldNat_part (i := 9) rfl (length_take_fixedParts e 9) rfl
    hfits.payload rest
  headersLen := fieldNat_part (i := 10) rfl (length_take_fixedParts e 10) rfl
    hfits.headers rest
  topicLen := fieldNat_part (i := 11) rfl (length_take_fixedParts e 11) rfl
    hfits.topic rest
  rkLen := fieldNat_part (i := 12) rfl (length_take_fixedParts e 12) rfl
    hfits.routingKey rest

def fixedEnvelope (e : Envelope) : Envelope :=
  { Envelope.zero with
    messageID := e.messageID
    timestamp := e.timestamp
    sequence := e.sequence
    partitionID := e.partitionID
    schemaID := e.schemaID
    priority := e.priority
    encoding := e.encoding
    sourceProto := e.sourceProto
    ttl := e.carried.ttl
    deliverAt := e.carried.deliverAt
    deliverCount := e.carried.deliverCount
    maxRetries := e.carried.maxRetries }

theorem unmarshalFixed_marshalFixed (e : Envelope) (rest : Bytes) :
    unmarshalFixed (marshalFixed e ++ rest) = fixedEnvelope e := by
  have hid : field (marshalFixed e ++ rest) 0 16 = e.messageID :=
    Subtype.ext (field_part (i := 0) rfl rfl e.messageID.property rest)
  have htime : fieldNat (marshalFixed e ++ rest) 16 8 =
      e.timestamp.toUInt64.toNat :=
    fieldNat_part (i := 1) rfl (length_take_fixedParts e 1) rfl
      e.timestamp.toUInt64.toNat_lt rest
  have hseq : fieldNat (marshalFixed e ++ rest) 24 8 = e.sequence.toNat :=
    fieldNat_part (i := 2) rfl (length_take_fixedParts e 2) rfl
      e.sequence.toNat_lt rest
  have hpart : fieldNat (marshalFixed e ++ rest) 32 4 =
      e.partitionID.toNat :=
    fieldNat_part (i := 3) rfl (length_take_fixedParts e 3) rfl
      e.partitionID.toNat_lt rest
  have hschema : fieldNat (marshalFixed e ++ rest) 36 4 = e.schemaID.toNat :=
    fieldNat_part (i := 4) rfl (length_take_fixedParts e 4) rfl
      e.schemaID.toNat_lt rest
  have hpriority : UInt8.ofNat (fieldNat (marshalFixed e ++ rest) 40 1) =
      e.priority :=
    fieldByte_part (i := 5) rfl (length_take_fixedParts e 5) rest
  have hencoding : UInt8.ofNat (fieldNat (marshalFixed e ++ rest) 41 1) =
      e.encoding :=
    fieldByte_part (i := 6) rfl (length_take_fixedParts e 6) rest
  have hproto : UInt8.ofNat (fieldNat (marshalFixed e ++ rest) 42 1) =
      e.sourceProto :=
    fieldByte_part (i := 7) rfl (length_take_fixedParts e 7) rest
  have hflags : UInt8.ofNat (fieldNat (marshalFixed e ++ rest) 43 1) =
      flags e :=
    fieldByte_part (i := 8) rfl (length_take_fixedParts e 8) rest
  rcases flags_iff e with ⟨_, httl, hdelay⟩
  have hcond : (field (marshalFixed e ++ rest) 56 8).val = conditionalField e :=
    field_part (i := 13) rfl (length_take_fixedParts e 13)
      (length_conditionalField e) rest
  unfold unmarshalFixed
  simp only [hid, htime, hseq, hpart, hschema, hpriority, hencoding, hproto,
    hflags, UInt64.ofNat_toNat, UInt32.ofNat_toNat, Int64.toInt64_toUInt64]
  by_cases hlive : e.ttl > 0
  · have hset := httl.mpr hlive
    have hvalue : fieldNat (marshalFixed e ++ rest) 56 8 =
        e.ttl.toUInt64.toNat := by
      rw [fieldNat, hcond, conditionalField, if_pos hset,
        ofBe_be_of_lt e.ttl.toUInt64.toNat_lt]
    simp only [if_pos hset, hvalue, UInt64.ofNat_toNat, Int64.toInt64_toUInt64]
    simp [fixedEnvelope, Envelope.carried, hlive, Envelope.control]
  have hclear : ¬ flags e &&& flagHasTTL ≠ 0 := fun h => hlive (httl.mp h)
  by_cases hlater : e.deliverAt > 0
  · have hset := hdelay.mpr hlater
    have hvalue : fieldNat (marshalFixed e ++ rest) 56 8 =
        e.deliverAt.toUInt64.toNat := by
      rw [fieldNat, hcond, conditionalField, if_neg hclear, if_pos hset,
        ofBe_be_of_lt e.deliverAt.toUInt64.toNat_lt]
    simp only [if_neg hclear, if_pos hset, hvalue, UInt64.ofNat_toNat,
      Int64.toInt64_toUInt64]
    simp [fixedEnvelope, Envelope.carried, hlive, hlater, Envelope.control]
  have hclear' : ¬ flags e &&& flagHasDelay ≠ 0 :=
    fun h => hlater (hdelay.mp h)
  have hcounts : conditionalField e =
      be 4 e.deliverCount.toNat ++ be 4 e.maxRetries.toNat := by
    rw [conditionalField, if_neg hclear, if_neg hclear']
  rcases fieldNat_counts rest hcounts with ⟨hcount, hretries⟩
  simp only [if_neg hclear, if_neg hclear', hcount, hretries,
    UInt32.ofNat_toNat]
  simp [fixedEnvelope, Envelope.carried, hlive, hlater, Envelope.control]

/-!
## The headers
-/

def ShortKeys (h : Headers) : Prop :=
  forall e, e ∈ h.entries -> e.1.length < 2 ^ 16

instance (h : Headers) : Decidable (ShortKeys h) :=
  inferInstanceAs (Decidable (forall e, e ∈ h.entries -> _))

def headerRecord (e : Bytes × Bytes) : Bytes :=
  be 2 e.1.length ++ e.1 ++ be 4 e.2.length ++ e.2

theorem length_marshalHeaders (h : Headers) :
    (marshalHeaders h).length = headersSize h := by
  rw [marshalHeaders, List.length_flatMap, headersSize]
  congr 1
  apply List.map_congr_left
  intro e _
  simp only [List.length_append, length_be]

theorem unmarshalHeaders_record {e : Bytes × Bytes}
    (hkey : e.1.length < 2 ^ 16) (hval : e.2.length < 2 ^ 32) (k : Nat)
    (h : Headers) (rest : Bytes) :
    unmarshalHeaders (k + 1) h (headerRecord e ++ rest) =
      unmarshalHeaders k (h.set e.1 e.2) rest := by
  have hdata : headerRecord e ++ rest =
      be 2 e.1.length ++ (e.1 ++ (be 4 e.2.length ++ (e.2 ++ rest))) := by
    simp only [headerRecord, List.append_assoc]
  have hkeyLen : fieldNat (be 2 e.1.length ++
      (e.1 ++ (be 4 e.2.length ++ (e.2 ++ rest)))) 0 2 = e.1.length := by
    rw [← List.nil_append (be 2 e.1.length ++ _)]
    exact (fieldNat_append List.length_nil (length_be 2 _)).trans
      (ofBe_be_of_lt hkey)
  have hvalLen : fieldNat (be 4 e.2.length ++ (e.2 ++ rest)) 0 4 =
      e.2.length := by
    rw [← List.nil_append (be 4 e.2.length ++ _)]
    exact (fieldNat_append List.length_nil (length_be 4 _)).trans
      (ofBe_be_of_lt hval)
  have hlong : forall (b c : Bytes), ¬ (b ++ c).length < b.length := by
    intro b c
    rw [List.length_append]
    omega
  rw [hdata]
  conv => lhs; unfold unmarshalHeaders
  rw [if_neg (by rw [List.length_append, length_be]; omega)]
  simp only [hkeyLen, List.drop_left' (length_be 2 _)]
  rw [if_neg (hlong _ _)]
  simp only [List.drop_left, List.take_left]
  rw [if_neg (by rw [List.length_append, length_be]; omega)]
  simp only [hvalLen, List.drop_left' (length_be 4 _)]
  rw [if_neg (hlong _ _)]
  simp only [List.drop_left, List.take_left]

variable {h : Headers}

theorem entries_unmarshalHeaders {entries : List (Bytes × Bytes)}
    (hkeys : forall e, e ∈ entries -> e.1.length < 2 ^ 16)
    (hvals : forall e, e ∈ entries -> e.2.length < 2 ^ 32) {k : Nat}
    (hk : entries.length ≤ k)
    (hdistinct : ((h.entries ++ entries).map Prod.fst).Nodup) :
    (unmarshalHeaders k h (entries.flatMap headerRecord)).entries =
      h.entries ++ entries := by
  induction entries generalizing h k with
  | nil =>
    rw [List.append_nil]
    cases k with
    | zero => rfl
    | succ k => rfl
  | cons e rest ih =>
  cases k with
  | zero => cases hk
  | succ k =>
  have hnew : e.1 ∉ h.entries.map Prod.fst := by
    rw [List.map_append, List.map_cons] at hdistinct
    intro hmem
    exact (List.nodup_append.mp hdistinct).right.right _ hmem _
      (List.mem_cons_self ..) rfl
  have hset : (h.set e.1 e.2).entries = h.entries ++ [e] :=
    setEntry_of_not_mem e.2 hnew
  rw [List.flatMap_cons,
    unmarshalHeaders_record (hkeys e (List.mem_cons_self ..))
      (hvals e (List.mem_cons_self ..)), ih, hset, List.append_assoc]
  · rfl
  · exact fun x hx => hkeys x (List.mem_cons_of_mem _ hx)
  · exact fun x hx => hvals x (List.mem_cons_of_mem _ hx)
  · exact Nat.le_of_succ_le_succ hk
  · rw [hset, List.append_assoc]
    exact hdistinct

theorem shortKeys_unmarshalHeaders {k : Nat} (data : Bytes)
    (hshort : ShortKeys h) : ShortKeys (unmarshalHeaders k h data) := by
  induction k generalizing h data with
  | zero => exact hshort
  | succ k ih =>
  unfold unmarshalHeaders
  split
  · exact hshort
  simp only
  split
  · exact hshort
  split
  · exact hshort
  split
  · exact hshort
  apply ih
  intro e he
  rcases mem_setEntry he with hnew | hold
  · rw [hnew]
    apply Nat.lt_of_le_of_lt (List.length_take_le _ _)
    have hlt := ofBe_lt (field data 0 2).val
    rw [(field data 0 2).property] at hlt
    exact hlt
  · exact hshort e hold

theorem Headers.eq_of_entries {g : Headers} (heq : g.entries = h.entries) :
    g = h := by
  cases g
  cases h
  congr

theorem unmarshalHeaders_eq_iff (hsize : headersSize h < 2 ^ 32) :
    unmarshalHeaders (headersSize h) .empty (marshalHeaders h) = h <->
      ShortKeys h := by
  constructor
  · intro heq
    rw [← heq]
    apply shortKeys_unmarshalHeaders
    intro e he
    cases he
  intro hshort
  have hlength : h.entries.length ≤ headersSize h := by
    unfold headersSize
    induction h.entries with
    | nil => exact Nat.zero_le _
    | cons e rest ih =>
    rw [List.length_cons, List.map_cons, List.sum_cons]
    omega
  have hvals : forall e, e ∈ h.entries -> e.2.length < 2 ^ 32 := by
    intro e he
    have hle := List.single_le_sum (fun _ _ => Nat.zero_le _) _
      (List.mem_map_of_mem
        (f := fun e : Bytes × Bytes => 2 + e.1.length + 4 + e.2.length) he)
    rw [← headersSize] at hle
    omega
  apply Headers.eq_of_entries
  exact entries_unmarshalHeaders hshort hvals hlength h.distinct

/-!
## The whole envelope
-/

def marshalRest (e : Envelope) : Bytes :=
  e.topic ++ (e.routingKey ++ (marshalHeaders e.headers ++
    ((if e.traceID ≠ FixedBytes.zero 16 then e.traceID.val ++ e.spanID.val
      else []) ++ e.payload)))

theorem marshal_ok (h : marshal e = .ok data) :
    Fits e ∧ data = marshalFixed e ++ marshalRest e ∧
      data.length = e.estimateSize := by
  unfold marshal at h
  split at h
  · cases h
  split at h
  · cases h
  split at h
  · cases h
  split at h
  · cases h
  rename_i htopic hkey hpayload hsize
  cases h
  rw [maxMessageSize, Envelope.estimateSize] at hsize
  refine ⟨⟨by omega, by omega, by omega, by omega⟩, ?_, ?_⟩
  · simp only [marshalRest, List.append_assoc]
  rw [Envelope.estimateSize]
  simp only [List.length_append, length_marshalFixed,
    length_marshalHeaders]
  split
  · rw [List.length_append, e.traceID.property, e.spanID.property]
    omega
  · rw [List.length_nil]
    omega

theorem exists_marshal (htopic : e.topic.length ≤ 65535)
    (hkey : e.routingKey.length ≤ 65535)
    (hsize : e.estimateSize ≤ maxMessageSize) :
    exists data, marshal e = .ok data := by
  have hpayload : e.payload.length ≤ 0xFFFFFFFF := by
    unfold Envelope.estimateSize at hsize
    rw [maxMessageSize] at hsize
    omega
  unfold marshal
  rw [if_neg (Nat.not_lt.mpr htopic), if_neg (Nat.not_lt.mpr hkey),
    if_neg (Nat.not_lt.mpr hpayload), if_neg (Nat.not_lt.mpr hsize)]
  exact ⟨_, rfl⟩

def decoded (e : Envelope) : Envelope :=
  { fixedEnvelope e with
    topic := e.topic
    routingKey := e.routingKey
    headers := unmarshalHeaders (headersSize e.headers) .empty
      (marshalHeaders e.headers)
    traceID := e.traceID
    spanID :=
      if e.traceID ≠ FixedBytes.zero 16 then e.spanID else FixedBytes.zero 8
    payload := e.payload }

theorem unmarshal_marshal (h : marshal e = .ok data) :
    unmarshal data = .ok (decoded e) := by
  rcases marshal_ok h with ⟨hfits, hdata, _⟩
  have hlengths := readsLengths hfits (marshalRest e)
  have hfixed := unmarshalFixed_marshalFixed e (marshalRest e)
  have htrace := (flags_iff e).left
  have hshort : ¬ (marshalFixed e ++ marshalRest e).length < fixedHeaderSize := by
    rw [List.length_append, length_marshalFixed]
    omega
  have hdrop : (marshalFixed e ++ marshalRest e).drop fixedHeaderSize =
      marshalRest e := List.drop_left' (length_marshalFixed e)
  have hlong : forall b c : Bytes, ¬ b.length > (b ++ c).length := by
    intro b c
    rw [List.length_append]
    omega
  have hheaders : forall c : Bytes,
      ¬ headersSize e.headers > (marshalHeaders e.headers ++ c).length := by
    rw [← length_marshalHeaders]
    exact hlong _
  rw [hdata]
  unfold unmarshal
  simp only [hlengths.flags, hlengths.payloadLen, hlengths.headersLen,
    hlengths.topicLen, hlengths.rkLen, hfixed, hdrop, if_neg hshort]
  simp only [marshalRest, if_neg (hlong _ _), List.drop_left, List.take_left,
    if_neg (hheaders _), List.drop_left' (length_marshalHeaders e.headers),
    List.take_left' (length_marshalHeaders e.headers)]
  by_cases hid : e.traceID = FixedBytes.zero 16
  · have hclear : ¬ flags e &&& flagHasTrace ≠ 0 := fun hset => htrace.mp hset hid
    have hnot : ¬ e.traceID ≠ FixedBytes.zero 16 := fun hne => hne hid
    simp only [hclear, false_and, if_false, if_neg hnot, List.nil_append,
      Nat.lt_irrefl, gt_iff_lt, List.take_length]
    simp only [decoded, hid, fixedEnvelope, Envelope.zero, ne_eq,
      not_true_eq_false, if_false]
    rfl
  have hset : flags e &&& flagHasTrace ≠ 0 := htrace.mpr hid
  have hids : (e.traceID.val ++ e.spanID.val).length = 24 := by
    rw [List.length_append, e.traceID.property, e.spanID.property]
  have hroom : ¬ ((e.traceID.val ++ e.spanID.val) ++ e.payload).length < 24 := by
    rw [List.length_append, hids]
    omega
  have htraceID : field ((e.traceID.val ++ e.spanID.val) ++ e.payload) 0 16 =
      e.traceID := by
    apply Subtype.ext
    rw [List.append_assoc, ← List.nil_append (e.traceID.val ++ _)]
    exact field_append List.length_nil e.traceID.property
  have hspanID : field ((e.traceID.val ++ e.spanID.val) ++ e.payload) 16 8 =
      e.spanID := by
    apply Subtype.ext
    rw [List.append_assoc]
    exact field_append e.traceID.property e.spanID.property
  simp only [if_pos hset, if_pos hid, hroom, and_false, if_false, htraceID,
    hspanID, List.drop_left' hids, gt_iff_lt, Nat.lt_irrefl,
    List.take_length]
  simp only [decoded, if_pos hid]
  rfl

/-!
## Cut data
-/

def statedLength (data : Bytes) : Nat :=
  fixedHeaderSize + fieldNat data 52 2 + fieldNat data 54 2 +
    fieldNat data 48 4 +
    (if UInt8.ofNat (fieldNat data 43 1) &&& flagHasTrace ≠ 0 then 24 else 0) +
    fieldNat data 44 4

theorem guard_ok {ε α β : Type} {c : Prop} [Decidable c] {err : ε}
    {k : β -> Except ε α} {x : Except ε α} {a : α}
    (h : (if c then (Except.error err >>= k) else x) = .ok a) :
    ¬ c ∧ x = .ok a := by
  by_cases hc : c
  · rw [if_pos hc] at h
    cases h
  · rw [if_neg hc] at h
    exact ⟨hc, h⟩

theorem statedLength_le_of_unmarshal (h : unmarshal data = .ok e) :
    statedLength data ≤ data.length := by
  unfold unmarshal at h
  extract_lets _ flags payloadLen headersLen topicLen rkLen rest _ afterTopic _
    afterKey _ afterHeaders trace _ afterTrace at h
  rcases guard_ok h with ⟨hfixed, hrest⟩
  rcases guard_ok hrest with ⟨htopic, hrest⟩
  rcases guard_ok hrest with ⟨hkey, hrest⟩
  rcases guard_ok hrest with ⟨hheaders, hrest⟩
  rcases guard_ok hrest with ⟨htrace, hrest⟩
  rcases guard_ok hrest with ⟨hpayload, _⟩
  have hlength : rest.length = data.length - fixedHeaderSize := List.length_drop
  have hlength1 : afterTopic.length = rest.length - topicLen := List.length_drop
  have hlength2 : afterKey.length = afterTopic.length - rkLen :=
    List.length_drop
  have hlength3 : afterHeaders.length = afterKey.length - headersLen :=
    List.length_drop
  show fixedHeaderSize + topicLen + rkLen + headersLen +
    (if trace then 24 else 0) + payloadLen ≤ data.length
  have hlength4 : afterTrace.length =
      afterHeaders.length - if trace then 24 else 0 := by
    show (if trace then afterHeaders.drop 24 else afterHeaders).length = _
    split
    · exact List.length_drop
    · rfl
  have htrace' : (if trace then 24 else 0) ≤ afterHeaders.length := by
    split
    · rename_i hset
      exact Nat.le_of_not_lt (fun hlt => htrace ⟨hset, hlt⟩)
    · exact Nat.zero_le _
  omega

theorem statedLength_take (hn : fixedHeaderSize ≤ n) (hlong : n ≤ data.length) :
    statedLength (data.take n) = statedLength data := by
  have hsame : forall pos w, pos + w ≤ fixedHeaderSize ->
      fieldNat (data.take n) pos w = fieldNat data pos w := by
    intro pos w hle
    rw [fieldNat, fieldNat, field_take (hle.trans hn) hlong]
  unfold statedLength
  rw [hsame 52 2 (by decide), hsame 54 2 (by decide), hsame 48 4 (by decide),
    hsame 43 1 (by decide), hsame 44 4 (by decide)]

theorem statedLength_marshal (h : marshal e = .ok data) :
    statedLength data = data.length := by
  rcases marshal_ok h with ⟨hfits, hdata, hlength⟩
  have hlengths := readsLengths hfits (marshalRest e)
  rw [← hdata] at hlengths
  rw [hlength, statedLength, Envelope.estimateSize, hlengths.topicLen,
    hlengths.rkLen, hlengths.headersLen, hlengths.flags, hlengths.payloadLen]
  by_cases hid : e.traceID ≠ FixedBytes.zero 16
  · rw [if_pos hid, if_pos ((flags_iff e).left.mpr hid)]
    omega
  · rw [if_neg hid, if_neg (fun hset => hid ((flags_iff e).left.mp hset))]
    omega

theorem unmarshal_take (h : marshal e = .ok data) (hn : n < data.length) :
    exists err, unmarshal (data.take n) = .error err := by
  cases hread : unmarshal (data.take n) with
  | error err => exact ⟨err, rfl⟩
  | ok e' =>
  have hle := statedLength_le_of_unmarshal hread
  have hlength : (data.take n).length = n := by
    rw [List.length_take]
    omega
  have hfixed : fixedHeaderSize ≤ n := by
    rw [hlength] at hle
    unfold statedLength at hle
    omega
  rw [statedLength_take hfixed (Nat.le_of_lt hn), statedLength_marshal h,
    hlength] at hle
  omega

/-!
## The round trip
-/

/-- Everything but the delivery control fields and the content type. -/
structure Restores (e e' : Envelope) : Prop where
  messageID : e'.messageID = e.messageID
  timestamp : e'.timestamp = e.timestamp
  sequence : e'.sequence = e.sequence
  partitionID : e'.partitionID = e.partitionID
  schemaID : e'.schemaID = e.schemaID
  priority : e'.priority = e.priority
  encoding : e'.encoding = e.encoding
  sourceProto : e'.sourceProto = e.sourceProto
  topic : e'.topic = e.topic
  routingKey : e'.routingKey = e.routingKey
  headers : forall k, e'.headers.get k = e.headers.get k
  traceID : e'.traceID = e.traceID
  spanID : e.traceID ≠ FixedBytes.zero 16 -> e'.spanID = e.spanID
  payload : e'.payload = e.payload

/-- The data is read back as the envelope, and nothing shorter is read. -/
structure RoundTrips (e : Envelope) (data : Bytes) : Prop where
  restored : exists e', unmarshal data = .ok e' ∧ Restores e e'
  rejects : forall n, n < data.length ->
    exists err, unmarshal (data.take n) = .error err

theorem get_unmarshalHeaders_iff (hsize : headersSize h < 2 ^ 32) :
    (forall k, (unmarshalHeaders (headersSize h) .empty
        (marshalHeaders h)).get k = h.get k) <-> ShortKeys h := by
  constructor
  · intro hget e he
    by_contra hlong
    have hshort := shortKeys_unmarshalHeaders
      (k := headersSize h) (h := .empty) (marshalHeaders h) (by
        intro x hx
        cases hx)
    have hnone : e.1 ∉ (unmarshalHeaders (headersSize h) .empty
        (marshalHeaders h)).entries.map Prod.fst := by
      intro hmem
      rcases List.mem_map.mp hmem with ⟨x, hx, hkey⟩
      have hlt := hshort x hx
      rw [hkey] at hlt
      exact hlong hlt
    have hsame := hget e.1
    rw [Headers.get, getEntry_of_not_mem hnone, Headers.get, getEntry,
      eq_comm, Option.map_eq_none_iff, List.find?_eq_none] at hsame
    exact hsame e he (by simp)
  · intro hshort k
    rw [(unmarshalHeaders_eq_iff hsize).mpr hshort]

theorem restores_decoded
    (hheaders : forall k, (decoded e).headers.get k = e.headers.get k) :
    Restores e (decoded e) where
  messageID := rfl
  timestamp := rfl
  sequence := rfl
  partitionID := rfl
  schemaID := rfl
  priority := rfl
  encoding := rfl
  sourceProto := rfl
  topic := rfl
  routingKey := rfl
  headers := hheaders
  traceID := rfl
  spanID := fun hid => if_pos hid
  payload := rfl

/--
An accepted envelope makes the round trip exactly if the keys of its headers
are shorter than 65536 bytes.
-/
theorem roundTrips_iff {e : Envelope} {data : Bytes}
    (h : marshal e = .ok data) :
    RoundTrips e data <-> ShortKeys e.headers := by
  have hsize := (marshal_ok h).left.headers
  have hread := unmarshal_marshal h
  constructor
  · intro htrips
    rcases htrips.restored with ⟨e', he', hrestores⟩
    rw [hread] at he'
    cases he'
    exact (get_unmarshalHeaders_iff hsize).mp hrestores.headers
  intro hshort
  exact
    { restored := ⟨decoded e, hread,
        restores_decoded ((get_unmarshalHeaders_iff hsize).mpr hshort)⟩
      rejects := fun _ hn => unmarshal_take h hn }

def headed (key : Bytes) : Envelope :=
  { Envelope.zero with headers := Headers.empty.set key [1] }

theorem roundTrips_headed :
    exists data, marshal (headed [120]) = .ok data ∧
      RoundTrips (headed [120]) data := by
  rcases exists_marshal (e := headed [120]) (by decide) (by decide) (by decide)
    with ⟨data, hdata⟩
  exact ⟨data, hdata, (roundTrips_iff hdata).mpr (by decide)⟩

theorem headersSize_headed (key : Bytes) :
    headersSize (headed key).headers = key.length + 7 := by
  show 2 + key.length + 4 + 1 + 0 = key.length + 7
  omega

theorem not_restores_headed {key : Bytes} (hlong : 2 ^ 16 ≤ key.length)
    (h : marshal (headed key) = .ok data) : ¬ RoundTrips (headed key) data := by
  intro htrips
  rcases htrips.restored with ⟨e', he', hrestores⟩
  rw [unmarshal_marshal h] at he'
  cases he'
  have hshort := (get_unmarshalHeaders_iff (marshal_ok h).left.headers).mp
    hrestores.headers
  have hlt := hshort (key, [1]) (List.mem_singleton_self _)
  exact Nat.not_lt.mpr hlong hlt

/-- A header whose key has 65536 bytes is accepted and does not come back. -/
theorem roundTrips_fails_longKey :
    exists data, marshal (headed (List.replicate 65536 97)) = .ok data ∧
      ¬ RoundTrips (headed (List.replicate 65536 97)) data := by
  have hlength : (List.replicate 65536 (97 : UInt8)).length = 65536 :=
    List.length_replicate
  generalize List.replicate 65536 (97 : UInt8) = key at hlength
  have hmarshal : exists data, marshal (headed key) = .ok data := by
    apply exists_marshal (Nat.zero_le _) (Nat.zero_le _)
    rw [Envelope.estimateSize, headersSize_headed, hlength]
    show fixedHeaderSize + 0 + 0 + 0 + (65536 + 7) +
      (if FixedBytes.zero 16 ≠ FixedBytes.zero 16 then 24 else 0) ≤
        maxMessageSize
    decide
  rcases hmarshal with ⟨data, hdata⟩
  exact ⟨data, hdata, not_restores_headed (Nat.le_of_eq hlength.symm) hdata⟩

/-!
## The delivery control fields
-/

/--
Of the delivery control fields an accepted envelope gets back what it carries,
and envelopes that carry different ones differ in their encoding.
-/
theorem control_unmarshal {e : Envelope} {data : Bytes}
    (h : marshal e = .ok data) :
    (exists e', unmarshal data = .ok e' ∧ e'.control = e.carried) ∧
      forall f, f.carried ≠ e.carried -> marshal f ≠ .ok data := by
  have hread := unmarshal_marshal h
  refine ⟨⟨decoded e, hread, rfl⟩, ?_⟩
  intro f hne hf
  have hread' := unmarshal_marshal hf
  rw [hread] at hread'
  have hsame : (decoded f).control = (decoded e).control := by
    rw [Except.ok.inj hread']
  exact hne hsame

def limited : Envelope :=
  { Envelope.zero with ttl := 5, maxRetries := 3 }

theorem control_unmarshal_limited :
    exists data, marshal limited = .ok data ∧
      exists e', unmarshal data = .ok e' ∧ e'.ttl = 5 := by
  rcases exists_marshal (e := limited) (by decide) (by decide) (by decide)
    with ⟨data, hdata⟩
  rcases (control_unmarshal hdata).left with ⟨e', he', hcontrol⟩
  exact ⟨data, hdata, e', he', congrArg Control.ttl hcontrol⟩

/-- The limit of deliveries is lost beside a time to live. -/
theorem control_lost :
    exists data e', marshal limited = .ok data ∧ unmarshal data = .ok e' ∧
      e'.maxRetries ≠ limited.maxRetries := by
  rcases exists_marshal (e := limited) (by decide) (by decide) (by decide)
    with ⟨data, hdata⟩
  refine ⟨data, decoded limited, hdata, unmarshal_marshal hdata, ?_⟩
  decide

end Message
end ChimeraMQ
