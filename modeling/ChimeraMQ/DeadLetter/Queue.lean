import ChimeraMQ.DeadLetter.Entry
import Mathlib.Data.List.Infix

/-!
# Dead letter queues

The queues of a data directory in memory and their files.  Every operation is
under the lock of the queues, so it is one step; what is read from and written
to a file succeeds.
-/

namespace ChimeraMQ
namespace DeadLetter

open Foundation Message

inductive TopicError where
  | empty
  | tooLong
  | parentDirectory
  | separator
  | characters
deriving DecidableEq

def isTopicByte (b : UInt8) : Bool :=
  (97 ≤ b && b ≤ 122) || (65 ≤ b && b ≤ 90) || (48 ≤ b && b ≤ 57) ||
    b = 95 || b = 45

def validateTopicName (topic : Bytes) : Option TopicError :=
  if topic = [] then some .empty
  else if 256 < topic.length then some .tooLong
  else if [46, 46] <:+: topic then some .parentDirectory
  else if topic.contains 47 || topic.contains 92 then some .separator
  else if topic.all isTopicByte then none
  else some .characters

def ValidTopic (topic : Bytes) : Prop :=
  validateTopicName topic = none

instance : DecidablePred ValidTopic :=
  fun topic => inferInstanceAs (Decidable (validateTopicName topic = none))

/-!
## Files

A path is the list of its parts from the root on, without `.` and `..`.
-/

abbrev Path := List Bytes

def cleanPart (path : Path) (part : Bytes) : Path :=
  if part = [] ∨ part = [46] then path
  else if part = [46, 46] then path.dropLast
  else path ++ [part]

def joinPath (dir : Path) (name : Bytes) : Path :=
  (splitOn 47 name).foldl cleanPart dir

def extension : Bytes := ascii ".jsonl"

def topicPath (dataDir : Path) (topic : Bytes) : Path :=
  joinPath dataDir (topic ++ extension)

/--
A line of a file: the number of its bytes without the one that ends it, and the
entry that it spells, if it spells one.
-/
structure Line where
  size : Nat
  entry : Option DLQEntry
deriving DecidableEq

def Line.ofEntry (e : DLQEntry) : Line where
  size := e.marshal.length
  entry := some e.reread

def maxScanTokenSize : Nat := 65536

def Line.Fits (l : Line) : Prop :=
  l.size < maxScanTokenSize

instance : DecidablePred Line.Fits :=
  fun l => inferInstanceAs (Decidable (l.size < maxScanTokenSize))

def scan (lines : List Line) : List DLQEntry :=
  (lines.takeWhile (fun l => decide l.Fits)).filterMap Line.entry

/-!
## Opening the queues
-/

structure DeadQueue where
  messages : List DLQEntry
  offset : UInt64
deriving DecidableEq

structure DLQ where
  enabled : Bool
  dataDir : Path
  queues : List (Bytes × DeadQueue)
  files : List (Path × List Line)
deriving DecidableEq

namespace DLQ

def loadTopic (d : DLQ) (topic : Bytes) : DLQ :=
  match getEntry (topicPath d.dataDir topic) d.files with
  | none => d
  | some lines =>
  let messages := scan lines
  let offset := messages.foldl
    (fun n e => if n < e.id then e.id else n) 0
  if messages = [] then d
  else { d with queues := setEntry topic ⟨messages, offset⟩ d.queues }

def loadFile (d : DLQ) (name : Bytes) : DLQ :=
  if extension <:+ name then
    let topic := name.take (name.length - extension.length)
    if ValidTopic topic then d.loadTopic topic else d
  else d

def readDir (d : DLQ) : List Bytes :=
  d.files.filterMap (fun f =>
    if f.1.dropLast = d.dataDir then f.1.getLast? else none)

def loadAll (d : DLQ) : DLQ :=
  d.readDir.foldl loadFile d

def newDLQ (enabled : Bool) (dataDir : Path) (files : List (Path × List Line)) :
    DLQ :=
  loadAll { enabled, dataDir, queues := [], files }

/-!
## Putting messages in and taking them out
-/

def linesAt (d : DLQ) (path : Path) : List Line :=
  (getEntry path d.files).getD []

def persistEntry (d : DLQ) (e : DLQEntry) : DLQ :=
  let path := topicPath d.dataDir e.topic
  { d with
    files := setEntry path (d.linesAt path ++ [Line.ofEntry e]) d.files }

structure Failure where
  msg : Option Original
  topic : Bytes
  partition : UInt32
  reason : Bytes
  retryCount : Int64
  now : Bytes

def queueOf (d : DLQ) (topic : Bytes) : DeadQueue :=
  (getEntry topic d.queues).getD ⟨[], 0⟩

def entryFor (d : DLQ) (f : Failure) : DLQEntry where
  id := (d.queueOf f.topic).offset + 1
  originalMsg := f.msg
  topic := f.topic
  partition := f.partition
  reason := f.reason
  retries := f.retryCount
  failedAt := f.now

def push (d : DLQ) (f : Failure) : DLQ :=
  if !d.enabled then d
  else if ¬ ValidTopic f.topic then d
  else
    let q := d.queueOf f.topic
    let entry := d.entryFor f
    persistEntry
      { d with
        queues := setEntry f.topic ⟨q.messages ++ [entry], q.offset + 1⟩
          d.queues }
      entry

def pop (d : DLQ) (topic : Bytes) : DLQ × Option DLQEntry :=
  match getEntry topic d.queues with
  | none => (d, none)
  | some q =>
  match q.messages with
  | [] => (d, none)
  | entry :: rest =>
    ({ d with
        queues := setEntry topic { q with messages := rest } d.queues },
      some entry)

def clear (d : DLQ) (topic : Bytes) : DLQ :=
  { d with
    queues := deleteEntry topic d.queues
    files := deleteEntry (topicPath d.dataDir topic) d.files }

/-!
## Replaying
-/

/--
The options of a replay.  A transform may answer differently each time, so it
is given the position of the entry in the queue.
-/
structure ReplayOptions where
  condition : DLQEntry -> Bool
  transform : Nat -> DLQEntry -> Option Original
  maxMessages : Int
  dryRun : Bool
  targetTopic : Bytes
  deleteAfterReplay : Bool

/--
The publisher, which answers with its error, and what it and the transform leave
of the message of each entry: they have the pointer that is in the queue.
-/
structure Publisher where
  publish : Nat -> Original -> Bytes -> Option Bytes
  leaves : Nat -> Original -> Original

inductive ReplayError where
  | transformNil (id : UInt64)
  | publish (id : UInt64) (error : Bytes)
deriving DecidableEq

structure ReplayResult where
  totalEntries : Nat
  matchedEntries : Nat
  replayedCount : Nat
  failedCount : Nat
  skippedCount : Nat
  errors : List ReplayError
deriving DecidableEq

def ReplayResult.zero : ReplayResult :=
  ⟨0, 0, 0, 0, 0, []⟩

def select (opts : ReplayOptions) :
    Nat -> List DLQEntry -> List (DLQEntry × Bool)
  | _, [] => []
  | n, e :: rest =>
    if 0 < opts.maxMessages ∧ opts.maxMessages ≤ n then
      -- the loop has ended
      (e, false) :: select opts n rest
    else if opts.condition e then (e, true) :: select opts (n + 1) rest
    else (e, false) :: select opts n rest

theorem map_fst_select (opts : ReplayOptions) (n : Nat)
    (entries : List DLQEntry) :
    (select opts n entries).map Prod.fst = entries := by
  induction entries generalizing n with
  | nil => rfl
  | cons e entries ih =>
  unfold select
  split
  · rw [List.map_cons, ih]
  · split
    · rw [List.map_cons, ih]
    · rw [List.map_cons, ih]

def targetTopic (opts : ReplayOptions) (e : DLQEntry) : Bytes :=
  if opts.targetTopic = [] then e.topic else opts.targetTopic

def attempt (opts : ReplayOptions) (p : Publisher) (i : Nat) (e : DLQEntry) :
    Option ReplayError :=
  match opts.transform i e with
  | none => some (.transformNil e.id)
  | some msg =>
    (p.publish i msg (targetTopic opts e)).map (ReplayError.publish e.id)

/-- The call of the publisher for an entry, with the position of the entry. -/
def call (opts : ReplayOptions) (i : Nat) (e : DLQEntry) :
    Option (Nat × Original × Bytes) :=
  (opts.transform i e).map (fun msg => (i, msg, targetTopic opts e))

def Publisher.entry (p : Publisher) (i : Nat) (e : DLQEntry) : DLQEntry :=
  { e with originalMsg := e.originalMsg.map (p.leaves i) }

/-- The second pass: its result, what remains, and the calls it has made. -/
def replayLoop (opts : ReplayOptions) (p : Publisher) :
    Nat -> List (DLQEntry × Bool) -> ReplayResult ->
      ReplayResult × List DLQEntry × List (Nat × Original × Bytes)
  | _, [], result => (result, [], [])
  | i, (e, false) :: rest, result =>
    let (result, remaining, calls) := replayLoop opts p (i + 1) rest result
    (result, p.entry i e :: remaining, calls)
  | i, (e, true) :: rest, result =>
    match attempt opts p i e with
    | some error =>
      let (result, remaining, calls) := replayLoop opts p (i + 1) rest
        { result with
          failedCount := result.failedCount + 1
          errors := result.errors ++ [error] }
      (result, p.entry i e :: remaining, (call opts i e).toList ++ calls)
    | none =>
    let (result, remaining, calls) := replayLoop opts p (i + 1) rest
      { result with replayedCount := result.replayedCount + 1 }
    (result,
      if opts.deleteAfterReplay then remaining
      else p.entry i e :: remaining,
      (call opts i e).toList ++ calls)

def rewriteTopicFile (d : DLQ) (topic : Bytes) : DLQ :=
  match getEntry topic d.queues with
  | none => d
  | some q => q.messages.foldl persistEntry d

/-- `ReplayWithOptions` with the calls of the publisher that it has made. -/
def replayWithCalls (d : DLQ) (topic : Bytes) (opts : ReplayOptions)
    (p : Publisher) :
    DLQ × Option ReplayResult × List (Nat × Original × Bytes) :=
  if !d.enabled then (d, none, [])
  else
    match getEntry topic d.queues with
    | none => (d, some ReplayResult.zero, [])
    | some q =>
    if q.messages = [] then (d, some ReplayResult.zero, [])
    else
      let selected := select opts 0 q.messages
      let matched := selected.countP (fun e => e.2)
      let result := { ReplayResult.zero with
        totalEntries := q.messages.length
        matchedEntries := matched }
      if opts.dryRun then
        (d, some { result with skippedCount := matched }, [])
      else
        let (result, remaining, calls) :=
          replayLoop opts p 0 selected result
        let d := { d with
          queues := setEntry topic { q with messages := remaining }
            d.queues }
        (if opts.deleteAfterReplay then d.rewriteTopicFile topic else d,
          some result, calls)

def replayWithOptions (d : DLQ) (topic : Bytes) (opts : ReplayOptions)
    (p : Publisher) : DLQ × Option ReplayResult :=
  ((d.replayWithCalls topic opts p).1, (d.replayWithCalls topic opts p).2.1)

/-!
## Runs
-/

inductive Action where
  | push (f : Failure)
  | pop (topic : Bytes)
  | clear (topic : Bytes)
  | replay (topic : Bytes) (opts : ReplayOptions) (p : Publisher)
  | restart (enabled : Bool)

def apply (d : DLQ) : Action -> DLQ
  | .push f => d.push f
  | .pop topic => (d.pop topic).1
  | .clear topic => d.clear topic
  | .replay topic opts p => (d.replayWithOptions topic opts p).1
  | .restart enabled => newDLQ enabled d.dataDir d.files

def step (d : DLQ) (a : Action) : Option DLQ :=
  some (d.apply a)

def entries (d : DLQ) (topic : Bytes) : List DLQEntry :=
  (d.queueOf topic).messages

/--
Opening the data directory again gives the entries that are in memory, for every
topic and in the same order.
-/
def Mirrors (d : DLQ) : Prop :=
  forall topic, (newDLQ true d.dataDir d.files).entries topic = d.entries topic

end DLQ
end DeadLetter
end ChimeraMQ
