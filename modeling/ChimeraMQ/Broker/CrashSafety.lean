import ChimeraMQ.Broker.Node
import ChimeraMQ.Broker.PublishRetry
import ChimeraMQ.Storage.WalRecovery

/-!
# What survives a crash

A message whose publish has returned its offset is still there after a crash if
the crash leaves its bytes in the segment file, the headers of segment files and
the file with the topics.
-/

namespace ChimeraMQ
namespace Broker

open Foundation
open Message
open Storage
open Storage.Partition

/-- All segment files of the write-ahead log have names with a number. -/
def Named (d : Disk) : Prop :=
  forall e, e ∈ d.names -> ".wal".toList.isSuffixOf e.1 = true ->
    exists seq, WAL.parseSegmentName e.1 = some seq

theorem Named.openCreate {d : Disk} (h : Named d) {seq : Nat}
    (hseq : seq < 2 ^ 64) : Named (d.openCreate (segmentPath seq)).1 := by
  unfold Disk.openCreate
  cases d.lookup (segmentPath seq) with
  | some i => exact h
  | none =>
  intro e he hsuffix
  rcases List.mem_append.mp he with hold | hnew
  · exact h e hold hsuffix
  · rw [List.mem_singleton.mp hnew]
    exact ⟨seq, parseSegmentName_segmentPath hseq⟩

theorem Named.makeRoom {w : WAL} (h : Named w.disk) (entrySize : Nat) :
    Named (w.makeRoom entrySize).disk := by
  unfold WAL.makeRoom
  split
  · have hflushed : Named (w.withWriter w.writer.flush).disk := h
    exact hflushed.openCreate (Nat.mod_lt _ (by decide))
  · exact h

theorem Named.append {w : WAL} (h : Named w.disk) (entryType : UInt8)
    (data : Bytes) (now : Nat) :
    Named (w.append entryType data now).1.disk := by
  have hroom := h.makeRoom (walHeaderSize + data.length)
  unfold WAL.append WAL.writeEntry
  simp only
  split
  · exact hroom
  · exact hroom
  · exact hroom

theorem Named.newWAL {d : Disk} (h : Named d) (maxSize : Nat)
    (mode : SyncMode) :
    exists w, WAL.newWAL d maxSize mode = .ok w ∧ Named w.disk := by
  unfold WAL.newWAL WAL.openOrCreateSegment
  cases hlast : (listSegments d).getLast? with
  | none =>
    exact ⟨_, rfl, h.openCreate (by decide)⟩
  | some e =>
  have hmem := List.mem_of_getLast? hlast
  unfold listSegments Disk.readDir at hmem
  rcases List.mem_filter.mp hmem with ⟨hsorted, hsuffix⟩
  rcases h e ((List.mem_insertionSort _).mp hsorted) hsuffix with
    ⟨seq, hparse⟩
  simp only [hparse]
  exact ⟨_, rfl, h⟩

/-!
## A broker on the logs of its partitions
-/

/--
The partitions have the given logs, no longer than `k`, with all messages that
were acknowledged.
-/
structure Sound (b : Broker) (logs : PartitionKey -> List Chunk)
    (size k : Nat) (acked : List Ack) : Prop where
  holds : b.storage.Logs logs
  size : b.storage.segmentSize = size
  next_le : forall key, endOffset (logs key) ≤ k
  acked : forall a, a ∈ acked -> b.storage.Has logs a.key a.offset a.data
  wal : Named b.wal.disk

variable {b : Broker} {logs : PartitionKey -> List Chunk} {size k : Nat}
  {acked : List Ack}

variable (h : Sound b logs size k acked)

include h

theorem Sound.mono {k' : Nat} (hle : k ≤ k') :
    Sound b logs size k' acked where
  holds := h.holds
  size := h.size
  next_le := fun key => (h.next_le key).trans hle
  acked := h.acked
  wal := h.wal

theorem Sound.advance {b' : Broker} {logs' : PartitionKey -> List Chunk}
    {m : Nat} (hadvanced : HotEngine.Advanced b.storage logs b'.storage logs' m)
    (hsize : b'.storage.segmentSize = b.storage.segmentSize)
    (hwal : Named b'.wal.disk) : Sound b' logs' size (k + m) acked where
  holds := hadvanced.holds
  size := hsize.trans h.size
  next_le := by
    intro key
    have hle := h.next_le key
    have hle' := hadvanced.next_le key
    omega
  acked := fun a ha => hadvanced.keeps _ _ _ (h.acked a ha)
  wal := hwal

theorem Sound.sameFiles {b' : Broker} (hwal : b'.wal = b.wal)
    (hstorage : b'.storage = b.storage) :
    Sound b' logs size k acked where
  holds := by
    rw [hstorage]
    exact h.holds
  size := by
    rw [hstorage]
    exact h.size
  next_le := h.next_le
  acked := by
    rw [hstorage]
    exact h.acked
  wal := by
    rw [hwal]
    exact h.wal

omit h in
theorem initPartitions_spec (topic : Bytes) (now : Nat) {e : HotEngine}
    (h : e.Logs logs) (ids : List Nat) :
    exists e' logs', initPartitions topic now e ids = (e', .ok ()) ∧
      HotEngine.Advanced e logs e' logs' 0 ∧
      e'.segmentSize = e.segmentSize := by
  induction ids generalizing e logs with
  | nil => exact ⟨e, logs, rfl, h.refl, rfl⟩
  | cons i rest ih =>
  rcases h.getOrCreatePartition (topic, i) now with
    ⟨e₁, p, logs₁, _, _, hget, hadvanced, _, hsize, _⟩
  rcases ih hadvanced.holds with ⟨e', logs', hrest, hadvanced', hsize'⟩
  refine ⟨e', logs', ?_, hadvanced.trans hadvanced', hsize'.trans hsize⟩
  rw [initPartitions, hget]
  exact hrest

omit h in
theorem initTopics_spec (now : Nat) {e : HotEngine} (h : e.Logs logs)
    (topics : List (Bytes × TopicConfig)) :
    exists e' logs', initTopics now e topics = .ok e' ∧
      HotEngine.Advanced e logs e' logs' 0 ∧
      e'.segmentSize = e.segmentSize := by
  induction topics generalizing e logs with
  | nil => exact ⟨e, logs, rfl, h.refl, rfl⟩
  | cons t rest ih =>
  rcases initPartitions_spec t.2.name now h (List.range t.2.partitions)
    with ⟨e₁, logs₁, hone, hadvanced, hsize⟩
  rcases ih hadvanced.holds with ⟨e', logs', hrest, hadvanced', hsize'⟩
  refine ⟨e', logs', ?_, hadvanced.trans hadvanced', hsize'.trans hsize⟩
  rw [initTopics, hone]
  exact hrest

theorem Sound.createPartitions (cfg : TopicConfig) (c : CreateContext)
    (count : Nat) :
    (b.createPartitions cfg c count).2 = .ok () ∧
      exists logs', Sound (b.createPartitions cfg c count).1 logs' size k
        acked := by
  rcases initPartitions_spec cfg.name c.now h.holds (List.range count) with
    ⟨e', logs', hinit, hadvanced, hsize⟩
  unfold Broker.createPartitions
  simp only [hinit]
  refine ⟨trivial, logs', ?_⟩
  exact h.advance (m := 0) hadvanced hsize (h.wal.append _ _ _)

theorem Sound.appendHot (hroom : k + 1 < 2 ^ 64) (key : PartitionKey)
    (data : Bytes) (c : PublishContext) :
    exists logs', Sound (b.appendHot key data c).1 logs' size (k + 1) acked ∧
      forall offset, (b.appendHot key data c).2 = .ok (.stored offset) ->
        (b.appendHot key data c).1.storage.Has logs' key offset data ∧
          forall a, a ∈ acked -> a.key = key -> a.offset < offset := by
  have hnext := h.next_le key
  rcases h.holds.append key (by omega) data c.now.toNat with
    ⟨logs', hadvanced, hsize, hstored⟩
  unfold Broker.appendHot
  cases happend : b.storage.append key data c.now.toNat with
  | mk storage result =>
    rw [happend] at hadvanced hsize hstored
    cases result with
    | error err =>
      refine ⟨logs', h.advance hadvanced hsize h.wal, ?_⟩
      intro offset hoff
      cases hoff
    | ok o =>
    refine ⟨logs', h.advance hadvanced hsize h.wal, ?_⟩
    intro offset hoff
    cases hoff
    rcases hstored o rfl with ⟨hhas, hless⟩
    refine ⟨hhas, ?_⟩
    intro a ha hkey
    have hold := h.acked a ha
    rw [hkey] at hold
    exact hless a.offset a.data hold

theorem Sound.appendWal (data : Bytes) (c : PublishContext) :
    Sound (b.appendWal data c) logs size k acked where
  holds := h.holds
  size := h.size
  next_le := h.next_le
  acked := h.acked
  wal := h.wal.append _ _ _

theorem Sound.prepare (env : Envelope) (c : PublishContext) :
    Sound (b.prepare env c).1 logs size k acked := by
  have hfiles := b.prepare_files env c
  exact h.sameFiles hfiles.left hfiles.right

omit h

/-!
## Crashes that lose nothing that was acknowledged
-/

/-- The bytes of an acknowledged message come before the cut of its file. -/
def KeepsAck (e : HotEngine) (lost : Crash) (a : Ack) : Prop :=
  forall now e' p s pos, e.getOrCreatePartition a.key now = .ok (e', p) ->
    p.findSegment a.offset = some s ->
      s.findPosition (p.content s) a.offset = .ok pos ->
        pos + 4 + a.data.length ≤ lost.kept a.key s.file

/--
The file with the topics is kept, every segment file keeps its header or
nothing, and the acknowledged messages keep their bytes.
-/
structure Spares (b : Broker) (acked : List Ack) (lost : Crash) : Prop where
  metaFile : lost.tornMeta = false
  headers : forall key i, i < (b.storage.dirOf key).files.length ->
    lost.kept key i = 0 ∨ segmentHeaderLen ≤ lost.kept key i
  acked : forall a, a ∈ acked -> KeepsAck b.storage lost a

def Harmless (n : Node) : Step -> Prop
  | .createTopic _ _ | .publish _ _ => True
  | .crash moment lost _ =>
    forall b, n.broker = some b ->
      Spares (n.reach b moment).2 n.acked lost

/--
The broker runs, every message whose publish has returned an offset is read
there, and no offset was given to two messages.
-/
structure Safe (n : Node) : Prop where
  running : n.broker.isSome
  reads : forall a, a ∈ n.acked -> forall now,
    n.read a.key a.offset now = some a.data
  distinct : n.acked.Pairwise (fun a b => a.key = b.key -> a.offset ≠ b.offset)

theorem Sound.beforeCut (h : Sound b logs size k acked) {lost : Crash} {a : Ack}
    (ha : a ∈ acked) (hkeeps : KeepsAck b.storage lost a) :
    BeforeCut (logs a.key) (lost.kept a.key) a.offset := by
  intro c hc i hoff hi
  rcases h.holds.getOrCreatePartition a.key 0 with
    ⟨e', p, logs', front, last, hget, _, _, _, _, hlog, _, hsame⟩
  have hchunks : front ++ [last] = logs a.key := by
    rcases hsame with hnil | hsame
    · rw [hnil] at hc
      cases hc
    · exact hsame
  rw [← hchunks] at hc
  rcases hlog.findSegment hc hi with ⟨s, hfind, hserves⟩
  have hposition : s.findPosition (p.content s) (c.base + i) =
      .ok (endOfRecords (c.recs.take i)) := by
    rw [content, hserves.file]
    exact hserves.stands.findPosition (Nat.le_of_lt hi)
  rw [← hoff] at hfind hposition
  have hkept := hkeeps 0 e' p s _ hget hfind hposition
  -- the acknowledged message is the record of that chunk
  rcases h.acked a ha with ⟨c', hc', i', hoff', hdata, _⟩
  have hi' := (List.getElem?_eq_some_iff.mp hdata).1
  rw [hchunks] at hc
  have hsameChunk : c' = c := (h.holds.dir a.key).eq_of_offset hc' hc
    a.offset (by omega) (by rw [Chunk.next]; omega) (by omega)
    (by rw [Chunk.next]; omega)
  subst hsameChunk
  have hsameIndex : i' = i := by omega
  subst hsameIndex
  rw [hserves.file] at hkept
  rw [endOfRecords_take_succ hdata]
  exact hkept

theorem Sound.start {s : Settings} (h : Sound b logs s.segmentSize k acked)
    {lost : Crash} (hspares : Spares b acked lost) {metaFile : MetaFile}
    (hmeta : metaFile ≠ .torn) (c : StartContext) :
    exists b' logs', Broker.start s metaFile b.wal.disk
        (b.storage.crashed lost.kept) c = .ok b' ∧
      Sound b' logs' s.segmentSize k acked := by
  have hheaders : forall key, KeepsHeaders (logs key) (lost.kept key) := by
    intro key c hc
    exact hspares.headers key c.file ((h.holds.dir key).file_lt c hc)
  rcases h.holds.crash hheaders with ⟨logs₁, hlogs₁, hnext₁, hkeeps₁⟩
  rw [h.size] at hlogs₁ hkeeps₁
  have hload : exists topics, loadMetadata metaFile = .ok topics := by
    cases metaFile with
    | missing => exact ⟨_, rfl⟩
    | torn => exact absurd rfl hmeta
    | written topics => exact ⟨_, rfl⟩
  rcases hload with ⟨topics, hload⟩
  rcases initTopics_spec c.now hlogs₁ (c.order.order topics) with
    ⟨e', logs', hinit, hadvanced, hsize⟩
  rcases h.wal.newWAL s.walMaxSize .immediate with ⟨w, hwal, hnamed⟩
  unfold Broker.start
  simp only [hwal, newTopicManager, hload, hinit]
  refine ⟨_, logs', rfl, ?_⟩
  exact
    { holds := hadvanced.holds
      size := hsize
      next_le := by
        intro key
        have hle := hadvanced.next_le key
        exact (hle.trans (hnext₁ key)).trans (h.next_le key)
      acked := by
        intro a ha
        exact hadvanced.keeps _ _ _ (hkeeps₁ _ _ _ (h.acked a ha)
          (h.beforeCut ha (hspares.acked a ha)))
      wal := hnamed }

/-!
## Runs
-/

structure Intact (n : Node) (k : Nat) : Prop where
  sound : exists b logs, n.broker = some b ∧
    Sound b logs n.settings.segmentSize k n.acked
  metaFile : n.metaFile ≠ .torn
  distinct : n.acked.Pairwise (fun a b => a.key = b.key -> a.offset ≠ b.offset)

variable {n : Node}

theorem Intact.safe (h : Intact n k) : Safe n := by
  rcases h.sound with ⟨b, logs, hb, hsound⟩
  refine ⟨by rw [hb]; rfl, ?_, h.distinct⟩
  intro a ha now
  rcases hsound.holds.read (hsound.acked a ha) now with ⟨e', p, hget, hread⟩
  unfold Node.read
  rw [hb]
  simp only [hget, hread]
  rfl

theorem intact_boot {s : Settings} (hsize : s.segmentSize < 2 ^ 32)
    (c : StartContext) : Intact (Node.boot s c) 0 := by
  have hempty : (HotEngine.newEngine s.segmentSize []).Logs (fun _ => []) :=
    { nodup := List.nodup_nil
      segmentSize := hsize
      opened := by
        intro key p hget
        cases hget
      closed := fun _ _ => LogDir.nil }
  have hnamed : Named Disk.empty := by
    intro e he
    cases he
  rcases initTopics_spec c.now hempty (c.order.order []) with
    ⟨e', logs', hinit, hadvanced, hsame⟩
  rcases hnamed.newWAL s.walMaxSize .immediate with ⟨w, hwal, hw⟩
  have hstart : exists b, Broker.start s .missing Disk.empty [] c = .ok b ∧
      b.storage = e' ∧ b.wal = w := by
    unfold Broker.start
    simp only [hwal, newTopicManager, loadMetadata, hinit]
    exact ⟨_, rfl, rfl, rfl⟩
  rcases hstart with ⟨b, hstart, hstorage, hb⟩
  refine
    { sound := ⟨b, logs', ?_, ?_⟩
      metaFile := by
        intro h
        cases h
      distinct := List.Pairwise.nil }
  · unfold Node.boot
    rw [hstart]
    rfl
  exact
    { holds := by
        rw [hstorage]
        exact hadvanced.holds
      size := by
        rw [hstorage]
        exact hsame
      next_le := hadvanced.next_le
      acked := by
        intro a ha
        cases ha
      wal := by
        rw [hb]
        exact hw }

variable {n' : Node}

theorem Intact.createTopic (h : Intact n k) {cfg : TopicConfig}
    {c : CreateContext} (hstep : n.step (.createTopic cfg c) = some n') :
    Intact n' k := by
  rcases h.sound with ⟨b, logs, hb, hsound⟩
  unfold Node.step at hstep
  rw [hb] at hstep
  simp only [Broker.createTopic] at hstep
  cases hvalid : b.topics.validate cfg with
  | error err =>
    simp only [hvalid] at hstep
    cases hstep
    exact ⟨⟨b, logs, rfl, hsound⟩, h.metaFile, h.distinct⟩
  | ok _ =>
  simp only [hvalid] at hstep
  rcases hsound.createPartitions cfg c cfg.partitions with
    ⟨hok, logs', hsound'⟩
  cases hcreate : b.createPartitions cfg c cfg.partitions with
  | mk b₁ result =>
    rw [hcreate] at hok hsound'
    simp only at hok
    subst hok
    simp only [hcreate] at hstep
    cases hstep
    refine ⟨⟨_, logs', rfl, hsound'.sameFiles rfl rfl⟩, ?_, h.distinct⟩
    intro hmeta
    cases hmeta

theorem Intact.publish (h : Intact n k) (hroom : k + 1 < 2 ^ 64)
    {env : Envelope} {c : PublishContext}
    (hstep : n.step (.publish env c) = some n') : Intact n' (k + 1) := by
  rcases h.sound with ⟨b, logs, hb, hsound⟩
  have hprepare := hsound.prepare env c
  unfold Node.step at hstep
  rw [hb] at hstep
  simp only at hstep
  cases hprepared : b.prepare env c with
  | mk b₁ prepared =>
    rw [hprepared] at hprepare
    simp only [hprepared] at hstep
    cases prepared with
    | answer result =>
      simp only at hstep
      cases hstep
      exact ⟨⟨b₁, logs, rfl, hprepare.mono (Nat.le_succ k)⟩, h.metaFile,
        h.distinct⟩
    | record key data =>
    rcases (hprepare.appendWal data c).appendHot hroom key data c with
      ⟨logs', hsound', hstored⟩
    simp only at hstep
    cases hhot : (b₁.appendWal data c).appendHot key data c with
    | mk b₂ result =>
      rw [hhot] at hsound' hstored
      simp only [hhot] at hstep
      have hother : forall m : Node, m.broker = some b₂ ->
          m.settings = n.settings -> m.acked = n.acked ->
            m.metaFile = n.metaFile -> Intact m (k + 1) := by
        intro m hm hsettings hacked hmeta
        refine ⟨⟨b₂, logs', hm, ?_⟩, ?_, ?_⟩
        · rw [hsettings, hacked]
          exact hsound'
        · rw [hmeta]
          exact h.metaFile
        · rw [hacked]
          exact h.distinct
      cases result with
      | error err =>
        simp only at hstep
        cases hstep
        exact hother _ rfl rfl rfl rfl
      | ok answer =>
      cases answer with
      | stored offset =>
        simp only at hstep
        cases hstep
        rcases hstored offset rfl with ⟨hhas, hless⟩
        refine ⟨⟨b₂, logs', rfl, ?_⟩, h.metaFile, ?_⟩
        · exact
            { holds := hsound'.holds
              size := hsound'.size
              next_le := hsound'.next_le
              acked := by
                intro a ha
                rcases List.mem_append.mp ha with hold | hnew
                · exact hsound'.acked a hold
                · rw [List.mem_singleton.mp hnew]
                  exact hhas
              wal := hsound'.wal }
        · refine List.pairwise_append.mpr
            ⟨h.distinct, List.pairwise_singleton .., ?_⟩
          intro a ha x hx hkey
          rw [List.mem_singleton.mp hx] at hkey ⊢
          exact Nat.ne_of_lt (hless a ha hkey)
      | duplicate | filtered | scheduled =>
      simp only at hstep
      cases hstep
      exact hother _ rfl rfl rfl rfl

theorem Sound.reach (h : Sound b logs size k n.acked) (hroom : k + 1 < 2 ^ 64)
    (moment : Moment) :
    (n.reach b moment).1.settings = n.settings ∧
      (n.reach b moment).1.metaFile = n.metaFile ∧
      (n.reach b moment).1.acked = n.acked ∧
      exists logs', Sound (n.reach b moment).2 logs' size (k + 1) n.acked := by
  have hmono := h.mono (Nat.le_succ k)
  cases moment with
  | idle => exact ⟨rfl, rfl, rfl, logs, hmono⟩
  | creating cfg c count =>
    simp only [Node.reach]
    cases b.topics.validate cfg with
    | error err => exact ⟨rfl, rfl, rfl, logs, hmono⟩
    | ok _ =>
    rcases (hmono.createPartitions cfg c
      (min count cfg.partitions)).right with ⟨logs', hsound'⟩
    exact ⟨rfl, rfl, rfl, logs', hsound'⟩
  | logged env c =>
    have hprepare := h.prepare env c
    simp only [Node.reach]
    cases hprepared : b.prepare env c with
    | mk b₁ prepared =>
      rw [hprepared] at hprepare
      have hmono' := hprepare.mono (Nat.le_succ k)
      cases prepared with
      | answer result => exact ⟨rfl, rfl, rfl, logs, hmono'⟩
      | record key data =>
        exact ⟨rfl, rfl, rfl, logs, hmono'.appendWal data c⟩
  | stored env c =>
  have hprepare := h.prepare env c
  simp only [Node.reach]
  cases hprepared : b.prepare env c with
  | mk b₁ prepared =>
    rw [hprepared] at hprepare
    cases prepared with
    | answer result =>
      exact ⟨rfl, rfl, rfl, logs, hprepare.mono (Nat.le_succ k)⟩
    | record key data =>
    rcases (hprepare.appendWal data c).appendHot hroom key data c
      with ⟨logs', hsound', _⟩
    exact ⟨rfl, rfl, rfl, logs', hsound'⟩

theorem Intact.crash (h : Intact n k) (hroom : k + 1 < 2 ^ 64) {moment : Moment}
    {lost : Crash} {c : StartContext}
    (hharmless : Harmless n (.crash moment lost c))
    (hstep : n.step (.crash moment lost c) = some n') :
    Intact n' (k + 1) := by
  rcases h.sound with ⟨b, logs, hb, hsound⟩
  have hspares := hharmless b hb
  rcases hsound.reach hroom moment with
    ⟨hsettings, hmeta, hacked, logs', hreached⟩
  unfold Node.step at hstep
  rw [hb] at hstep
  simp only at hstep
  split at hstep
  · cases hstep
    have hfile : (if lost.tornMeta then MetaFile.torn
        else (n.reach b moment).1.metaFile) = n.metaFile := by
      rw [hspares.metaFile, hmeta]
      rfl
    rcases hreached.start hspares h.metaFile c with
      ⟨b', logs'', hstart, hsound''⟩
    refine ⟨⟨b', logs'', ?_, ?_⟩, ?_, ?_⟩
    · unfold Node.restart
      simp only
      rw [hfile, hsettings, hstart]
      rfl
    · change Sound b' logs'' (n.reach b moment).1.settings.segmentSize (k + 1)
        (n.reach b moment).1.acked
      rw [hsettings, hacked]
      exact hsound''
    · unfold Node.restart
      simp only
      rw [hfile]
      exact h.metaFile
    · change (n.reach b moment).1.acked.Pairwise _
      rw [hacked]
      exact h.distinct
  · cases hstep

theorem Intact.step (h : Intact n k) (hroom : k + 1 < 2 ^ 64) {s : Step}
    (hharmless : Harmless n s) (hstep : n.step s = some n') :
    Intact n' (k + 1) := by
  cases s with
  | createTopic cfg c =>
    have hnext := h.createTopic hstep
    rcases hnext.sound with ⟨b, logs, hb, hsound⟩
    exact ⟨⟨b, logs, hb, hsound.mono (Nat.le_succ k)⟩, hnext.metaFile,
      hnext.distinct⟩
  | publish env c => exact h.publish hroom hstep
  | crash moment lost c => exact h.crash hroom hharmless hstep

theorem Intact.run {t : Node} {steps : List Step} (h : Intact n k)
    (hlength : k + steps.length < 2 ^ 64)
    (hharmless : Meets Node.step Harmless n steps)
    (hrun : run? Node.step n steps = some t) :
    Intact t (k + steps.length) := by
  induction steps generalizing n k with
  | nil =>
    cases hrun
    exact h
  | cons s rest ih =>
  rcases run?_cons_some hrun with ⟨n', hone, hrest⟩
  rw [List.length_cons] at hlength ⊢
  have hnext := ih (h.step (by omega) hharmless.left hone) (by omega)
    (hharmless.right n' hone) hrest
  rwa [Nat.add_right_comm, Nat.add_assoc] at hnext

/--
If crashes spare what has been acknowledged, every acknowledged message is read
at its offset, which is given to no other one.
-/
theorem safe_of_harmless {s : Settings} (hsize : s.segmentSize < 2 ^ 32)
    {c : StartContext} {steps : List Step} (hlength : steps.length < 2 ^ 64)
    (hharmless : Meets Node.step Harmless (Node.boot s c) steps) {n : Node}
    (hrun : run? Node.step (Node.boot s c) steps = some n) : Safe n :=
  ((intact_boot hsize c).run (by omega) hharmless hrun).safe

/-!
## Two crashes

A message is published to a new topic, and then the machine loses power.
-/

def plainSettings : Settings where
  maxMessageSize := 0
  maxTopics := 0
  maxPartitionsPerTopic := 0
  segmentSize := 1024
  walMaxSize := 1024
  deduper := none
  flowCtrl := none
  tenantMgr := none
  schemaEnf := false
  wasmRT := false
  encryptor := false

def startAt (now : Nat) : StartContext where
  now := now
  order := MapOrder.listed _

def publishOne : List Step :=
  [.createTopic exampleTopic
      { now := 0, marshalled := [], order := MapOrder.listed _ },
    .publish { Envelope.zero with topic := [116] } (callAt 0)]

def powerLoss (length : Nat) : Step :=
  .crash .idle { kept := fun _ _ => length, tornMeta := false } (startAt 1)

theorem publishOne_harmless :
    Meets Node.step Harmless (Node.boot plainSettings (startAt 0))
      (publishOne ++ [powerLoss 1024]) := by
  refine ⟨trivial, ?_⟩
  intro n₁ h₁
  refine ⟨trivial, ?_⟩
  intro n h₂
  refine ⟨?_, fun _ _ => trivial⟩
  have hrun : run? Node.step (Node.boot plainSettings (startAt 0)) publishOne =
      some n := by
    unfold publishOne
    rw [run?, h₁]
    simp only
    rw [run?, h₂]
    rfl
  have hcheck : (run? Node.step (Node.boot plainSettings (startAt 0))
      publishOne).bind (fun n => n.broker.map (fun b =>
        n.acked.all (fun a =>
          (getEntry a.key b.storage.partitions).any (fun p =>
            (p.findSegment a.offset).any (fun s =>
              s.findPosition (p.content s) a.offset = .ok 32 ∧
                32 + 4 + a.data.length ≤ 1024))))) = some true := by
    decide +kernel
  rw [hrun] at hcheck
  intro b hb
  simp only [Option.bind_some, hb, Option.map_some, Option.some.injEq] at hcheck
  refine ⟨rfl, fun _ _ _ => Or.inr (Nat.le_of_ble_eq_true rfl), ?_⟩
  intro a ha now e' p s pos hget hfind hpos
  have hone := List.all_eq_true.mp hcheck a ha
  rcases (Option.any_eq_true _ _).mp hone with ⟨p', hopen, hpart⟩
  rcases (Option.any_eq_true _ _).mp hpart with ⟨s', hfind', hlast⟩
  rcases of_decide_eq_true hlast with ⟨hpos', hkept⟩
  rw [show (n.reach b Moment.idle).2 = b from rfl] at hget
  simp only [HotEngine.getOrCreatePartition, hopen] at hget
  cases hget
  rw [hfind'] at hfind
  cases hfind
  rw [hpos'] at hpos
  cases hpos
  exact hkept

/-- The message is still there after a crash that leaves the whole file. -/
theorem publishOne_safe :
    exists n, run? Node.step (Node.boot plainSettings (startAt 0))
        (publishOne ++ [powerLoss 1024]) = some n ∧
      n.acked.length = 1 ∧ Safe n := by
  have hcheck : (run? Node.step (Node.boot plainSettings (startAt 0))
      (publishOne ++ [powerLoss 1024])).map (fun n => n.acked.length) =
        some 1 := by
    decide +kernel
  rcases Option.map_eq_some_iff.mp hcheck with ⟨n, hrun, hacked⟩
  exact ⟨n, hrun, hacked,
    safe_of_harmless (by decide) (by decide) publishOne_harmless hrun⟩

/--
A crash may discard the record, which was never synced.  The message cannot be
read after the start, and the next message gets its offset.
-/
theorem publishOne_lost :
    (exists n, run? Node.step (Node.boot plainSettings (startAt 0))
        (publishOne ++ [powerLoss 32]) = some n ∧
      (exists a, a ∈ n.acked ∧ n.read a.key a.offset 1 = none) ∧ ¬ Safe n) ∧
      exists n, run? Node.step (Node.boot plainSettings (startAt 0))
          (publishOne ++ [powerLoss 32] ++ publishOne) = some n ∧
        n.acked.map (fun a => (a.key, a.offset)) =
          [(([116], 0), 0), (([116], 0), 0)] ∧ ¬ Safe n := by
  refine ⟨?_, ?_⟩
  · have hcheck : (run? Node.step (Node.boot plainSettings (startAt 0))
        (publishOne ++ [powerLoss 32])).map (fun n =>
          n.acked.head?.map (fun a => n.read a.key a.offset 1)) =
            some (some none) := by
      decide +kernel
    rcases Option.map_eq_some_iff.mp hcheck with ⟨n, hrun, hhead⟩
    rcases Option.map_eq_some_iff.mp hhead with ⟨a, ha, hread⟩
    have hmem := List.mem_of_head? ha
    refine ⟨n, hrun, ⟨a, hmem, hread⟩, ?_⟩
    intro hsafe
    have hdata := hsafe.reads a hmem 1
    rw [hread] at hdata
    cases hdata
  have hcheck : (run? Node.step (Node.boot plainSettings (startAt 0))
      (publishOne ++ [powerLoss 32] ++ publishOne)).map (fun n =>
        n.acked.map (fun a => (a.key, a.offset))) =
          some [(([116], 0), 0), (([116], 0), 0)] := by
    decide +kernel
  rcases Option.map_eq_some_iff.mp hcheck with ⟨n, hrun, hacked⟩
  refine ⟨n, hrun, hacked, ?_⟩
  intro hsafe
  have hpairs : (n.acked.map (fun a => (a.key, a.offset))).Pairwise
      (fun x y => x.1 = y.1 -> x.2 ≠ y.2) := by
    rw [List.pairwise_map]
    exact hsafe.distinct
  rw [hacked, List.pairwise_cons] at hpairs
  exact hpairs.left _ (List.mem_singleton_self _) rfl rfl

end Broker
end ChimeraMQ
