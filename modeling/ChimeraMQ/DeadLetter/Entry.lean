import ChimeraMQ.Foundation.Address
import ChimeraMQ.Foundation.JsonText
import ChimeraMQ.Foundation.SortedEntries
import ChimeraMQ.Message.Envelope
import Mathlib.Data.List.Nodup

/-!
# Dead letters

The entries of the dead letter queues, the line of JSON that is written for one
of them, and the entry that is read from that line.
-/

namespace ChimeraMQ
namespace DeadLetter

open Foundation Message

/-- A map of headers in memory, where a value may be nil. -/
structure HeaderMap where
  entries : List (Bytes × Option Bytes)
  distinct : (entries.map Prod.fst).Nodup
deriving DecidableEq

/--
A message in memory, where what is nil differs from what is empty.  The
envelope has the other fields, so its headers and its payload are left empty.
-/
structure Original where
  env : Envelope
  headers : Option HeaderMap
  payload : Option Bytes
  no_headers : env.headers = Headers.empty
  no_payload : env.payload = []
deriving DecidableEq

structure DLQEntry where
  id : UInt64
  originalMsg : Option Original
  topic : Bytes
  partition : UInt32
  reason : Bytes
  retries : Int64
  failedAt : Bytes
deriving DecidableEq

/-!
## The line of an entry
-/

def numbers (b : Bytes) : Bytes :=
  jsonArray (b.map (fun x => formatUint x.toNat))

def HeaderMap.marshal (h : HeaderMap) : Bytes :=
  jsonObject ((h.entries.mergeSort (fun a b => a.1 ≤ b.1)).map
    (fun e => (e.1, jsonBytes e.2)))

def Original.marshal (m : Original) : Bytes :=
  jsonObject [
    (ascii "MessageID", numbers m.env.messageID.val),
    (ascii "Timestamp", formatInt m.env.timestamp.toInt),
    (ascii "Sequence", formatUint m.env.sequence.toNat),
    (ascii "Topic", jsonString m.env.topic),
    (ascii "PartitionID", formatUint m.env.partitionID.toNat),
    (ascii "RoutingKey", jsonString m.env.routingKey),
    (ascii "Headers", (m.headers.map HeaderMap.marshal).getD jsonNull),
    (ascii "SchemaID", formatUint m.env.schemaID.toNat),
    (ascii "ContentType", jsonString m.env.contentType),
    (ascii "Encoding", formatUint m.env.encoding.toNat),
    (ascii "Payload", jsonBytes m.payload),
    (ascii "Priority", formatUint m.env.priority.toNat),
    (ascii "TTL", formatInt m.env.ttl.toInt),
    (ascii "DeliverAt", formatInt m.env.deliverAt.toInt),
    (ascii "DeliverCount", formatUint m.env.deliverCount.toNat),
    (ascii "MaxRetries", formatUint m.env.maxRetries.toNat),
    (ascii "TraceID", numbers m.env.traceID.val),
    (ascii "SpanID", numbers m.env.spanID.val),
    (ascii "SourceProto", formatUint m.env.sourceProto.toNat)]

def DLQEntry.marshal (e : DLQEntry) : Bytes :=
  jsonObject [
    (ascii "id", formatUint e.id.toNat),
    (ascii "original_msg", (e.originalMsg.map Original.marshal).getD jsonNull),
    (ascii "topic", jsonString e.topic),
    (ascii "partition", formatUint e.partition.toNat),
    (ascii "reason", jsonString e.reason),
    (ascii "retries", formatInt e.retries.toInt),
    (ascii "failed_at", quoted e.failedAt)]

/-!
## The entry that is read from its line

Strings are read back as valid UTF-8.  Of the headers whose names become the
same, the last one in the line stays.
-/

namespace HeaderMap

def isLast (h : HeaderMap) (e : Bytes × Option Bytes) : Bool :=
  h.entries.all (fun d => toValidUtf8 d.1 ≠ toValidUtf8 e.1 || d.1 ≤ e.1)

def kept (h : HeaderMap) : List (Bytes × Option Bytes) :=
  (h.entries.filter h.isLast).map (fun e => (toValidUtf8 e.1, e.2))

theorem eq_of_isLast {h : HeaderMap} {d e : Bytes × Option Bytes}
    (hd : d ∈ h.entries) (he : e ∈ h.entries) (hdLast : h.isLast d = true)
    (heLast : h.isLast e = true) (hsame : toValidUtf8 d.1 = toValidUtf8 e.1) :
    d.1 = e.1 := by
  have hle : d.1 ≤ e.1 := by
    have hone := List.all_eq_true.mp heLast d hd
    simpa [hsame] using hone
  have hge : e.1 ≤ d.1 := by
    have hone := List.all_eq_true.mp hdLast e he
    simpa [hsame] using hone
  exact le_antisymm hle hge

theorem nodup_kept (h : HeaderMap) : (h.kept.map Prod.fst).Nodup := by
  have hnodup : h.entries.Nodup := List.Nodup.of_map Prod.fst h.distinct
  have hinj : forall d, d ∈ h.entries -> forall e, e ∈ h.entries ->
      d.1 = e.1 -> d = e :=
    fun d hd e he hkey => List.inj_on_of_nodup_map h.distinct hd he hkey
  unfold kept
  rw [List.map_map]
  apply List.Nodup.map_on
  · intro d hd e he hsame
    rcases List.mem_filter.mp hd with ⟨hd, hdLast⟩
    rcases List.mem_filter.mp he with ⟨he, heLast⟩
    exact hinj d hd e he (eq_of_isLast hd he hdLast heLast hsame)
  · exact hnodup.filter _

def reread (h : HeaderMap) : HeaderMap where
  entries := h.kept
  distinct := h.nodup_kept

def Readable (h : HeaderMap) : Prop :=
  forall e, e ∈ h.entries -> ValidUtf8 e.1

theorem reread_eq_self_iff {h : HeaderMap} : h.reread = h <-> h.Readable := by
  have hentries : h.reread = h <-> h.kept = h.entries := by
    constructor
    · intro heq
      exact congrArg HeaderMap.entries heq
    · intro heq
      cases h
      simpa [reread] using heq
  rw [hentries]
  unfold kept
  constructor
  · intro heq
    have hlength := congrArg List.length heq
    rw [List.length_map] at hlength
    rw [List.filter_eq_self.mpr
      (List.length_filter_eq_length_iff.mp hlength)] at heq
    intro e he
    have hone := List.map_inj_left.mp (heq.trans (List.map_id _).symm) e he
    exact toValidUtf8_eq_self_iff.mp (congrArg Prod.fst hone)
  intro hreadable
  have hall : forall e, e ∈ h.entries -> h.isLast e = true := by
    intro e he
    apply List.all_eq_true.mpr
    intro d hd
    rw [(hreadable d hd).reread, (hreadable e he).reread, Bool.or_eq_true,
      decide_eq_true_eq, decide_eq_true_eq]
    rcases eq_or_ne d.1 e.1 with hsame | hne
    · right
      exact le_of_eq hsame
    · left
      exact hne
  rw [List.filter_eq_self.mpr hall]
  refine (List.map_congr_left ?_).trans (List.map_id _)
  intro e he
  rw [(hreadable e he).reread]
  rfl

end HeaderMap

def Original.reread (m : Original) : Original where
  env := { m.env with
    topic := toValidUtf8 m.env.topic
    routingKey := toValidUtf8 m.env.routingKey
    contentType := toValidUtf8 m.env.contentType }
  headers := m.headers.map HeaderMap.reread
  payload := m.payload
  no_headers := m.no_headers
  no_payload := m.no_payload

def DLQEntry.reread (e : DLQEntry) : DLQEntry :=
  { e with
    originalMsg := e.originalMsg.map Original.reread
    topic := toValidUtf8 e.topic
    reason := toValidUtf8 e.reason }

/-!
## Entries that are read as they were written
-/

structure Original.Readable (m : Original) : Prop where
  topic : ValidUtf8 m.env.topic
  routingKey : ValidUtf8 m.env.routingKey
  contentType : ValidUtf8 m.env.contentType
  headers : forall h, m.headers = some h -> h.Readable

structure DLQEntry.Readable (e : DLQEntry) : Prop where
  topic : ValidUtf8 e.topic
  reason : ValidUtf8 e.reason
  originalMsg : forall m, e.originalMsg = some m -> m.Readable

theorem map_eq_self_iff {α : Type} {f : α -> α} {o : Option α} :
    o.map f = o <-> forall a, o = some a -> f a = a := by
  cases o with
  | none => simp
  | some a => simp

theorem Original.reread_eq_self_iff {m : Original} :
    m.reread = m <-> m.Readable := by
  have hparts : m.reread = m <->
      (toValidUtf8 m.env.topic = m.env.topic ∧
        toValidUtf8 m.env.routingKey = m.env.routingKey ∧
        toValidUtf8 m.env.contentType = m.env.contentType) ∧
          m.headers.map HeaderMap.reread = m.headers := by
    rcases m with ⟨⟨⟩, headers, payload, _, _⟩
    simp [reread]
  rw [hparts, map_eq_self_iff]
  simp only [toValidUtf8_eq_self_iff, HeaderMap.reread_eq_self_iff]
  constructor
  · rintro ⟨⟨htopic, hrouting, hcontent⟩, hheaders⟩
    exact ⟨htopic, hrouting, hcontent, hheaders⟩
  · intro h
    exact ⟨⟨h.topic, h.routingKey, h.contentType⟩, h.headers⟩

theorem DLQEntry.reread_eq_self_iff {e : DLQEntry} :
    e.reread = e <-> e.Readable := by
  have hparts : e.reread = e <->
      e.originalMsg.map Original.reread = e.originalMsg ∧
        toValidUtf8 e.topic = e.topic ∧ toValidUtf8 e.reason = e.reason := by
    rcases e with ⟨⟩
    simp [reread]
  rw [hparts, map_eq_self_iff]
  simp only [toValidUtf8_eq_self_iff, Original.reread_eq_self_iff]
  constructor
  · rintro ⟨hmsg, htopic, hreason⟩
    exact ⟨htopic, hreason, hmsg⟩
  · intro h
    exact ⟨h.originalMsg, h.topic, h.reason⟩

end DeadLetter
end ChimeraMQ
