import ChimeraMQ.Broker.Prepare

/-!
# Retrying a failed publish

A publish that fails may have been recorded by the deduper before it failed.
Then the producer that repeats it is told that the message is a duplicate, and
the message is lost.  This happens exactly when the deduper was asked and
tracks the producer.
-/

namespace ChimeraMQ
namespace Broker

open Foundation
open Message
open Storage

def Skipped (b : Broker) (env : Envelope) (c : PublishContext) : Prop :=
  (b.publish env c).2 = .ok .duplicate

theorem appendHot_spec (b : Broker) (key : PartitionKey) (data : Bytes)
    (c : PublishContext) :
    SameView b (b.appendHot key data c).1 ∧
      (b.appendHot key data c).2 ≠ .ok .duplicate := by
  unfold appendHot
  cases b.storage.append key data c.now.toNat with
  | mk storage result =>
    cases result with
    | error err =>
      refine ⟨⟨rfl, rfl, rfl⟩, ?_⟩
      intro h
      cases h
    | ok offset =>
    refine ⟨⟨rfl, rfl, rfl⟩, ?_⟩
    intro h
    cases h

/-!
## One publish
-/

variable {b b' : Broker}

theorem SameView.dedup (h : SameView b b') (env : Envelope) (c : CheckContext) :
    SameView (b.dedup env c).1 (b'.dedup env c).1 ∧
      (b'.dedup env c).2 = (b.dedup env c).2 := by
  unfold Broker.dedup
  rw [h.deduper]
  split
  · exact ⟨⟨h.maxMessageSize, h.topics, rfl⟩, rfl⟩
  · exact ⟨h, rfl⟩

def Refused (b : Broker) (env : Envelope) : Prop :=
  b.Oversized env ∨ b.topics.getTopic env.topic = none

theorem SameView.refused_iff (h : SameView b b') (env : Envelope) :
    b'.Refused env ↔ b.Refused env := by
  unfold Refused
  rw [h.oversized_iff, h.getTopic]

variable {env : Envelope}

theorem publish_refused (h : b.Refused env) (c : PublishContext) :
    (b.publish env c).1 = b ∧ ¬ Skipped b env c := by
  unfold Skipped publish prepare
  by_cases hsize : b.Oversized env
  · rw [if_pos hsize]
    refine ⟨rfl, ?_⟩
    intro hskip
    cases hskip
  have htopic := h.resolve_left hsize
  rw [if_neg hsize]
  simp only [htopic]
  refine ⟨trivial, ?_⟩
  intro hskip
  cases hskip

theorem publish_accepted (h : ¬ b.Refused env) (c : PublishContext) :
    SameView (b.dedup env c.check).1 (b.publish env c).1 ∧
      (Skipped b env c ↔ (b.dedup env c.check).2 = true) := by
  unfold Refused at h
  push Not at h
  rcases Option.ne_none_iff_exists'.mp h.right with ⟨topicCfg, htopic⟩
  unfold Skipped publish prepare
  rw [if_neg h.left]
  simp only [htopic]
  cases b.dedup env c.check with
  | mk b₁ duplicate =>
    cases duplicate with
    | true => exact ⟨SameView.refl b₁, fun _ => rfl, fun _ => rfl⟩
    | false =>
    have hnew := b₁.prepareNew_spec topicCfg env c
    simp only
    cases hprepared : b₁.prepareNew topicCfg env c with
    | mk b₂ prepared =>
      rw [hprepared] at hnew
      cases prepared with
      | answer result =>
        refine ⟨hnew.left.toSameView, ?_, ?_⟩
        · intro hskip
          exact absurd (congrArg Prepared.answer hskip) hnew.right
        · intro hdup
          cases hdup
      | record key data =>
      have hhot := (b₂.appendWal data c).appendHot_spec key data c
      have hwal : SameView b₂ (b₂.appendWal data c) :=
        ⟨rfl, rfl, rfl⟩
      refine ⟨hnew.left.toSameView.trans (hwal.trans hhot.left), ?_, ?_⟩
      · intro hskip
        exact absurd hskip hhot.right
      · intro hdup
        cases hdup

theorem SameView.publish (h : SameView b b') (env : Envelope)
    (c : PublishContext) :
    SameView (b.publish env c).1 (b'.publish env c).1 ∧
      (Skipped b' env c ↔ Skipped b env c) := by
  by_cases hrefused : b.Refused env
  · have hb := publish_refused hrefused c
    have hb' := publish_refused ((h.refused_iff env).mpr hrefused) c
    rw [hb.left, hb'.left]
    exact ⟨h, iff_of_false hb'.right hb.right⟩
  have hdedup := h.dedup env c.check
  have hb := publish_accepted hrefused c
  have hb' :=
    publish_accepted (fun h' => hrefused ((h.refused_iff env).mp h')) c
  refine ⟨hb.left.symm.trans (hdedup.left.trans hb'.left), ?_⟩
  rw [hb.right, hb'.right, hdedup.right]

/-!
## The limit on producers
-/

def DeduperBounded (b : Broker) : Prop :=
  forall d, b.deduper = some d -> d.Bounded

theorem DeduperBounded.dedup (hb : b.DeduperBounded) (env : Envelope)
    (c : CheckContext) : (b.dedup env c).1.DeduperBounded := by
  unfold Broker.dedup
  split
  · rename_i d pid seq hd hinfo
    intro d' hd'
    cases hd'
    exact (hb d hd).check pid seq _ c
  · exact hb

/-- However many messages are published, the deduper keeps to its limit. -/
theorem DeduperBounded.publish (hb : b.DeduperBounded) (env : Envelope)
    (c : PublishContext) : (b.publish env c).1.DeduperBounded := by
  by_cases hrefused : b.Refused env
  · rw [(publish_refused hrefused c).left]
    exact hb
  · intro d hd
    rw [(publish_accepted hrefused c).left.deduper] at hd
    exact hb.dedup env c.check d hd

/-!
## Retrying
-/

def publishAll (b : Broker) (calls : List (Envelope × PublishContext)) :
    Broker :=
  calls.foldl (fun b call => (b.publish call.1 call.2).1) b

theorem SameView.publishAll (h : SameView b b')
    (calls : List (Envelope × PublishContext)) :
    SameView (b.publishAll calls) (b'.publishAll calls) := by
  induction calls generalizing b b' with
  | nil => exact h
  | cons call calls ih => exact ih (h.publish call.1 call.2).left

/--
A publish that led from `b` to `b'` is no reason to skip a later message with
the same producer and sequence number.
-/
def RetrySafe (b b' : Broker) (pid : Bytes) (seq : Nat) (now : Int) : Prop :=
  forall (between : List (Envelope × PublishContext)) (env : Envelope)
    (c : PublishContext),
    (forall call, call ∈ between -> now ≤ call.2.check.now) ->
      now ≤ c.check.now ->
        extractProducerInfo env = some (pid, seq) ->
          Skipped (b'.publishAll between) env c ->
            Skipped (b.publishAll between) env c

/--
The message does not reach the deduper, or there is no enabled deduper that
tracks the producer.
-/
def Unrecorded (b : Broker) (env : Envelope) (pid : Bytes)
    (c : CheckContext) : Prop :=
  b.Refused env ∨
    ¬ exists d, b.deduper = some d ∧ d.enabled = true ∧ d.Tracks pid c

variable {pid : Bytes} {seq : Nat}

theorem dedup_untracked (hb : b.DeduperBounded) {c : CheckContext}
    (hinfo : extractProducerInfo env = some (pid, seq))
    (huntracked : ¬ exists d, b.deduper = some d ∧ d.enabled = true ∧
      d.Tracks pid c) :
    SameView b (b.dedup env c).1 := by
  unfold Broker.dedup
  rw [hinfo]
  cases hd : b.deduper with
  | none => exact SameView.refl b
  | some d =>
  have hsame : d.isDuplicate pid seq c = (d, false) := by
    unfold Deduper.isDuplicate
    cases hon : d.enabled with
    | false => exact Deduper.check_disabled hon pid seq _ c
    | true =>
    refine (hb d hd).check_untracked ?_ seq _
    intro htracks
    exact huntracked ⟨d, hd, hon, htracks⟩
  simp only [hsame]
  exact ⟨rfl, rfl, hd.symm⟩

theorem Unrecorded.sameView (hb : b.DeduperBounded) {c : PublishContext}
    (hinfo : extractProducerInfo env = some (pid, seq))
    (h : b.Unrecorded env pid c.check) : SameView b (b.publish env c).1 := by
  by_cases hrefused : b.Refused env
  · rw [(publish_refused hrefused c).left]
    exact SameView.refl b
  · exact (dedup_untracked hb hinfo (h.resolve_left hrefused)).trans
      (publish_accepted hrefused c).left

theorem dedup_recorded {c : CheckContext} {d : Deduper}
    (hinfo : extractProducerInfo env = some (pid, seq))
    (hd : b.deduper = some d) (hon : d.enabled = true)
    (htracks : d.Tracks pid c) (hnew : (b.dedup env c).2 = false) :
    ((b.dedup env c).1.dedup env c).2 = true := by
  have hdedup : b.dedup env c =
      ({ b with deduper := some (d.isDuplicate pid seq c).1 },
        (d.isDuplicate pid seq c).2) := by
    unfold Broker.dedup
    rw [hd, hinfo]
  rw [hdedup] at hnew ⊢
  have hagain := Deduper.check_recorded hon htracks hnew
  unfold Broker.dedup
  rw [hinfo]
  exact hagain

theorem skipped_of_recorded {c : PublishContext} {err : PublishError}
    (hinfo : extractProducerInfo env = some (pid, seq))
    (hfail : b.publish env c = (b', .error err))
    (h : ¬ b.Unrecorded env pid c.check) : Skipped b' env c := by
  unfold Unrecorded at h
  push Not at h
  rcases h with ⟨hrefused, d, hd, hon, htracks⟩
  have haccepted := publish_accepted hrefused c
  have hview := haccepted.left
  have hnew : (b.dedup env c.check).2 = false := by
    rw [Bool.eq_false_iff]
    intro hdup
    have hskip : (b.publish env c).2 = .ok .duplicate :=
      haccepted.right.mpr hdup
    rw [hfail] at hskip
    cases hskip
  rw [hfail] at hview
  have hagain := dedup_recorded hinfo hd hon htracks hnew
  -- the failed attempt has not changed the limit or the topics
  have hrefused' : ¬ b'.Refused env := by
    rw [hview.refused_iff]
    unfold Broker.dedup
    rw [hd, hinfo]
    exact hrefused
  rw [(publish_accepted hrefused' c).right, (hview.dedup env c.check).right]
  exact hagain

/--
A failed publish can be retried exactly when it failed before the deduper was
asked, or the deduper does not track the producer.
-/
theorem retrySafe_iff {b b' : Broker} (hb : b.DeduperBounded) {env : Envelope}
    {pid : Bytes} {seq : Nat} {c : PublishContext} {err : PublishError}
    (hinfo : extractProducerInfo env = some (pid, seq))
    (hfail : b.publish env c = (b', .error err)) :
    RetrySafe b b' pid seq c.check.now ↔ b.Unrecorded env pid c.check := by
  constructor
  · intro hsafe
    by_contra hrecorded
    have hskip := hsafe [] env c (fun _ hcall => absurd hcall List.not_mem_nil)
      (Int.le_refl _) hinfo (skipped_of_recorded hinfo hfail hrecorded)
    -- without the failed publish the same call is that publish, and it fails
    have hrun : (b.publish env c).2 = .ok .duplicate := hskip
    rw [hfail] at hrun
    cases hrun
  · intro h between env' c' _ _ _ hskip
    have hview := (h.sameView hb hinfo).publishAll between
    rw [hfail] at hview
    exact ((hview.publish env' c').right).mp hskip

/-!
## A rate limit

A broker that allows one message in a second and has none left.
-/

def exampleTopic : TopicConfig where
  name := [116]
  mode := .stream
  partitions := 1
  schemaEnforcement := false
  defaultTTL := 0
  transformPipeline := false

def limitedBroker : Broker where
  maxMessageSize := 0
  topics :=
    { topics := [([116], exampleTopic)]
      rrCounters := []
      maxTopics := 0
      maxPartitionsPerTopic := 0 }
  deduper := some (Deduper.newDeduper true 0 0)
  flowCtrl := some
    { enabled := true
      globalLimit := some
        { tokens := 0, lastRefill := 0, maxTokens := 1, refillRate := 1 }
      topicLimits := [] }
  tenantMgr := none
  schemaEnf := false
  wasmRT := false
  encryptor := false
  wal :=
    { disk := Disk.empty.addFile (segmentPath 1) []
      activeFile := 0
      pos := 0
      writeBuf := []
      activeSize := 0
      maxSize := 1024
      syncMode := .immediate
      offset := 0
      segmentSeq := 1 }
  storage := HotEngine.newEngine 1024 []

theorem limitedBroker_bounded : limitedBroker.DeduperBounded := by
  intro d hd
  cases hd
  exact Deduper.bounded_newDeduper true 0 0

def numberedEnvelope (topic : Bytes) : Envelope :=
  { Envelope.zero with
    topic := topic
    headers :=
      (Headers.empty.set producerIDHeader [112]).set producerSeqHeader [49] }

def callAt (now : Int) : PublishContext where
  now := now
  check :=
    { now := now
      later := now
      seen := MapOrder.listed _
      windows := MapOrder.listed _ }
  tenants := MapOrder.listed _
  validate := fun _ _ => .ok { valid := true, errors := [] }
  transform := fun env => .ok (some env)
  messageID := FixedBytes.zero 16
  encrypt := fun data _ => .ok data
  walError := none

/-- A message to a topic that does not exist can be sent again. -/
theorem retrySafe_unknownTopic :
    RetrySafe limitedBroker
      (limitedBroker.publish (numberedEnvelope [117]) (callAt 0)).1 [112] 1
      0 := by
  have hfail : limitedBroker.publish (numberedEnvelope [117]) (callAt 0) =
      ((limitedBroker.publish (numberedEnvelope [117]) (callAt 0)).1,
        .error (.topicNotFound [117])) :=
    Prod.ext rfl (by decide +kernel)
  exact (retrySafe_iff limitedBroker_bounded (by decide +kernel) hfail).mpr
    (Or.inl (Or.inr (by decide +kernel)))

/--
A message that was refused by the rate limit is skipped when it is sent again
two seconds later, when there is room for it.
-/
theorem retry_of_rateLimited_skipped :
    (limitedBroker.publish (numberedEnvelope [116]) (callAt 0)).2 =
        .error (.rateLimited [116]) ∧
      (limitedBroker.publish (numberedEnvelope [116]) (callAt 2000000000)).2 =
          .ok (.stored 0) ∧
        ¬ RetrySafe limitedBroker
          (limitedBroker.publish (numberedEnvelope [116]) (callAt 0)).1
          [112] 1 0 := by
  have hstored :
      (limitedBroker.publish (numberedEnvelope [116]) (callAt 2000000000)).2 =
        .ok (.stored 0) := by
    decide +kernel
  refine ⟨by decide +kernel, hstored, ?_⟩
  intro hsafe
  have hskip : Skipped
      (limitedBroker.publish (numberedEnvelope [116]) (callAt 0)).1
      (numberedEnvelope [116]) (callAt 2000000000) := by
    unfold Skipped
    decide +kernel
  have hfirst := hsafe [] (numberedEnvelope [116]) (callAt 2000000000)
    (fun _ hcall => absurd hcall List.not_mem_nil) (by decide)
    (by decide +kernel) hskip
  have hrun :
      (limitedBroker.publish (numberedEnvelope [116]) (callAt 2000000000)).2 =
        .ok .duplicate := hfirst
  rw [hstored] at hrun
  cases hrun

end Broker
end ChimeraMQ
