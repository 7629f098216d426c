import ChimeraMQ.Foundation.Bytes
import ChimeraMQ.Foundation.Entries

/-!
# Joins of two streams

A record is joined with the first record of the other stream that has its key
and is buffered within the window of it; otherwise it is buffered itself.  A
tick drops the records that have been buffered too long.
-/

namespace ChimeraMQ
namespace Processing

open Foundation

structure JoinRecord (Envelope : Type) where
  key : Bytes
  env : Envelope
  timestamp : Int64
deriving DecidableEq

structure JoinResult (Envelope : Type) where
  left : Envelope
  right : Envelope
deriving DecidableEq

abbrev JoinBuffer (Envelope : Type) :=
  List (Bytes × List (JoinRecord Envelope))

structure JoinOp (Envelope : Type) where
  leftKeyFn : Envelope -> Bytes
  rightKeyFn : Envelope -> Bytes
  window : Int64
  leftBuf : JoinBuffer Envelope
  rightBuf : JoinBuffer Envelope

variable {Envelope : Type}

def absDiff (a b : Int64) : Int64 :=
  if a > b then a - b else b - a

def withinWindow (window timestamp : Int64) (r : JoinRecord Envelope) : Bool :=
  absDiff timestamp r.timestamp ≤ window

namespace JoinBuffer

def takeMatch (buf : JoinBuffer Envelope) (window : Int64) (key : Bytes)
    (timestamp : Int64) : Option (JoinRecord Envelope × JoinBuffer Envelope) :=
  match getEntry key buf with
  | none => none
  | some recs =>
  match recs.find? (withinWindow window timestamp) with
  | none => none
  | some r =>
  let rest := recs.eraseP (withinWindow window timestamp)
  some (r,
    if rest.length = 0 then deleteEntry key buf
    else setEntry key rest buf)

def push (buf : JoinBuffer Envelope) (r : JoinRecord Envelope) :
    JoinBuffer Envelope :=
  setEntry r.key ((getEntry r.key buf).getD [] ++ [r]) buf

def unexpired (now windowNs : Int64) (r : JoinRecord Envelope) : Bool :=
  now - r.timestamp ≤ windowNs

def expireRecords (buf : JoinBuffer Envelope) (now windowNs : Int64) :
    JoinBuffer Envelope :=
  buf.filterMap (fun e =>
    let kept := e.2.filter (unexpired now windowNs)
    if kept.length = 0 then none else some (e.1, kept))

def records (buf : JoinBuffer Envelope) : List (JoinRecord Envelope) :=
  (buf.map Prod.snd).flatten

end JoinBuffer

namespace JoinOp

def newJoinOp (leftKeyFn rightKeyFn : Envelope -> Bytes) (window : Int64) :
    JoinOp Envelope where
  leftKeyFn := leftKeyFn
  rightKeyFn := rightKeyFn
  window := window
  leftBuf := []
  rightBuf := []

def addLeft (j : JoinOp Envelope) (env : Envelope) (timestamp : Int64) :
    JoinOp Envelope × Option (JoinResult Envelope) :=
  let key := j.leftKeyFn env
  match j.rightBuf.takeMatch j.window key timestamp with
  | some (r, rights) =>
    ({ j with rightBuf := rights }, some { left := env, right := r.env })
  | none =>
    ({ j with leftBuf := j.leftBuf.push ⟨key, env, timestamp⟩ }, none)

def addRight (j : JoinOp Envelope) (env : Envelope) (timestamp : Int64) :
    JoinOp Envelope × Option (JoinResult Envelope) :=
  let key := j.rightKeyFn env
  match j.leftBuf.takeMatch j.window key timestamp with
  | some (r, lefts) =>
    ({ j with leftBuf := lefts }, some { left := r.env, right := env })
  | none =>
    ({ j with rightBuf := j.rightBuf.push ⟨key, env, timestamp⟩ }, none)

def tick (j : JoinOp Envelope) (now : Int64) : JoinOp Envelope :=
  { j with
    leftBuf := j.leftBuf.expireRecords now j.window
    rightBuf := j.rightBuf.expireRecords now j.window }

end JoinOp

/-!
## Histories
-/

inductive JoinAction (Envelope : Type) where
  | addLeft (env : Envelope) (timestamp : Int64)
  | addRight (env : Envelope) (timestamp : Int64)
  | tick (now : Int64)

def JoinAction.NonNegative : JoinAction Envelope -> Prop
  | .addLeft _ timestamp => 0 ≤ timestamp
  | .addRight _ timestamp => 0 ≤ timestamp
  | .tick now => 0 ≤ now

instance (a : JoinAction Envelope) : Decidable a.NonNegative := by
  cases a with
  | addLeft env timestamp => exact inferInstanceAs (Decidable (_ ≤ _))
  | addRight env timestamp => exact inferInstanceAs (Decidable (_ ≤ _))
  | tick now => exact inferInstanceAs (Decidable (_ ≤ _))

/--
A join with what has happened to it: what was added, emitted and dropped, and
what the results were made of.
-/
structure JoinHistory (Envelope : Type) where
  op : JoinOp Envelope
  results : List (JoinResult Envelope)
  addedLeft : List (JoinRecord Envelope)
  addedRight : List (JoinRecord Envelope)
  pairs : List (JoinRecord Envelope × JoinRecord Envelope)
  expiredLeft : List (JoinRecord Envelope)
  expiredRight : List (JoinRecord Envelope)

namespace JoinHistory

def start (op : JoinOp Envelope) : JoinHistory Envelope where
  op := op
  results := []
  addedLeft := []
  addedRight := []
  pairs := []
  expiredLeft := []
  expiredRight := []

def dropped (buf : JoinBuffer Envelope) (now windowNs : Int64) :
    List (JoinRecord Envelope) :=
  buf.records.filter (fun r => !JoinBuffer.unexpired now windowNs r)

def step (h : JoinHistory Envelope) :
    JoinAction Envelope -> JoinHistory Envelope
  | .addLeft env timestamp =>
    let r : JoinRecord Envelope := ⟨h.op.leftKeyFn env, env, timestamp⟩
    let matched := h.op.rightBuf.takeMatch h.op.window r.key timestamp
    { h with
      op := (h.op.addLeft env timestamp).1
      results := h.results ++ (h.op.addLeft env timestamp).2.toList
      addedLeft := h.addedLeft ++ [r]
      pairs := h.pairs ++ (matched.map (fun m => (r, m.1))).toList }
  | .addRight env timestamp =>
    let r : JoinRecord Envelope := ⟨h.op.rightKeyFn env, env, timestamp⟩
    let matched := h.op.leftBuf.takeMatch h.op.window r.key timestamp
    { h with
      op := (h.op.addRight env timestamp).1
      results := h.results ++ (h.op.addRight env timestamp).2.toList
      addedRight := h.addedRight ++ [r]
      pairs := h.pairs ++ (matched.map (fun m => (m.1, r))).toList }
  | .tick now =>
    { h with
      op := h.op.tick now
      expiredLeft := h.expiredLeft ++ dropped h.op.leftBuf now h.op.window
      expiredRight := h.expiredRight ++ dropped h.op.rightBuf now h.op.window }

def run (h : JoinHistory Envelope) (actions : List (JoinAction Envelope)) :
    JoinHistory Envelope :=
  actions.foldl step h

end JoinHistory

/-!
## What a join accounts for
-/

/-- Two records have one key and times that are at most the window apart. -/
structure Joined (window : Int64) (l r : JoinRecord Envelope) : Prop where
  key : l.key = r.key
  near : ((l.timestamp.toInt - r.timestamp.toInt).natAbs : Int) ≤ window.toInt

/--
No two buffered records could be joined, every record is in one place, and what
was emitted was to be joined.
-/
structure JoinHistory.Accounted (h : JoinHistory Envelope) : Prop where
  apart : forall l, l ∈ h.op.leftBuf.records ->
    forall r, r ∈ h.op.rightBuf.records -> ¬ Joined h.op.window l r
  left : h.addedLeft.Perm
    (h.pairs.map Prod.fst ++ (h.op.leftBuf.records ++ h.expiredLeft))
  right : h.addedRight.Perm
    (h.pairs.map Prod.snd ++ (h.op.rightBuf.records ++ h.expiredRight))
  joined : forall p, p ∈ h.pairs -> Joined h.op.window p.1 p.2
  results : h.results = h.pairs.map (fun p => ⟨p.1.env, p.2.env⟩)

/-!
## Times that are not negative
-/

theorem toInt_absDiff {a b : Int64} (ha : 0 ≤ a) (hb : 0 ≤ b) :
    (absDiff a b).toInt = ((a.toInt - b.toInt).natAbs : Int) := by
  have ha' : 0 ≤ a.toInt := Int64.le_iff_toInt_le.mp ha
  have hb' : 0 ≤ b.toInt := Int64.le_iff_toInt_le.mp hb
  have hat := a.toInt_lt
  have hbt := b.toInt_lt
  unfold absDiff
  by_cases hlt : a > b
  · have hlt' : b.toInt < a.toInt := Int64.lt_iff_toInt_lt.mp hlt
    rw [if_pos hlt, Int64.toInt_sub, Int.bmod_eq_of_le (by omega) (by omega)]
    omega
  have hle : a.toInt ≤ b.toInt := by
    have hnot : ¬ b.toInt < a.toInt :=
      fun h => hlt (Int64.lt_iff_toInt_lt.mpr h)
    omega
  rw [if_neg hlt, Int64.toInt_sub, Int.bmod_eq_of_le (by omega) (by omega)]
  omega

theorem joined_iff {window : Int64} {l r : JoinRecord Envelope}
    (hl : 0 ≤ l.timestamp) (hr : 0 ≤ r.timestamp) :
    Joined window l r <->
      l.key = r.key ∧ withinWindow window l.timestamp r = true := by
  have hnear : withinWindow window l.timestamp r = true <->
      ((l.timestamp.toInt - r.timestamp.toInt).natAbs : Int) ≤
        window.toInt := by
    rw [← toInt_absDiff hl hr, ← Int64.le_iff_toInt_le]
    exact decide_eq_true_iff
  rw [hnear]
  constructor
  · intro h
    exact ⟨h.key, h.near⟩
  · intro h
    exact ⟨h.left, h.right⟩

/-!
## Buffers
-/

namespace JoinBuffer

/-- Every key has one list, and records stand under their keys. -/
structure Sound (buf : JoinBuffer Envelope) : Prop where
  nodup : (buf.map Prod.fst).Nodup
  keyed : forall e, e ∈ buf -> forall r, r ∈ e.2 -> r.key = e.1

theorem sound_nil : Sound ([] : JoinBuffer Envelope) where
  nodup := List.nodup_nil
  keyed := by
    intro e he
    cases he

variable {buf : JoinBuffer Envelope} {r : JoinRecord Envelope}

theorem mem_records :
    r ∈ buf.records <-> exists e, e ∈ buf ∧ r ∈ e.2 := by
  unfold records
  rw [List.mem_flatten]
  constructor
  · rintro ⟨recs, hrecs, hr⟩
    rcases List.mem_map.mp hrecs with ⟨e, he, heq⟩
    rw [← heq] at hr
    exact ⟨e, he, hr⟩
  · rintro ⟨e, he, hr⟩
    exact ⟨e.2, List.mem_map_of_mem he, hr⟩

theorem Sound.getEntry_of_mem (h : Sound buf) (hr : r ∈ buf.records) :
    exists recs, getEntry r.key buf = some recs ∧ r ∈ recs := by
  rcases mem_records.mp hr with ⟨e, he, hmem⟩
  refine ⟨e.2, ?_, hmem⟩
  rw [h.keyed e he r hmem]
  exact Foundation.getEntry_of_mem h.nodup he

variable {key : Bytes}

theorem Sound.setEntry (h : Sound buf) {recs : List (JoinRecord Envelope)}
    (hkeyed : forall r, r ∈ recs -> r.key = key) :
    Sound (setEntry key recs buf) where
  nodup := nodup_keys_setEntry h.nodup
  keyed := by
    intro e he
    rcases mem_setEntry he with hnew | hold
    · rw [hnew]
      exact hkeyed
    · exact h.keyed e hold

theorem Sound.deleteEntry (h : Sound buf) (key : Bytes) :
    Sound (deleteEntry key buf) where
  nodup := by
    rw [map_fst_deleteEntry]
    exact h.nodup.filter _
  keyed := fun e he => h.keyed e (List.mem_of_mem_filter he)

theorem Sound.key_of_getEntry (h : Sound buf)
    {recs : List (JoinRecord Envelope)} (hget : getEntry key buf = some recs)
    (hr : r ∈ recs) : r.key = key :=
  h.keyed (key, recs) (mem_of_getEntry hget) r hr

theorem records_setEntry (buf : JoinBuffer Envelope) (key : Bytes)
    (recs : List (JoinRecord Envelope)) :
    ((getEntry key buf).getD [] ++ records (setEntry key recs buf)).Perm
      (recs ++ buf.records) := by
  have hperm := (perm_setEntry key recs buf).flatten
  rw [List.flatten_append, List.flatten_cons] at hperm
  have hold : (getEntry key buf).toList.flatten =
      (getEntry key buf).getD [] := by
    cases getEntry key buf with
    | none => rfl
    | some old => exact List.append_nil old
  rw [hold] at hperm
  exact hperm

theorem records_deleteEntry (h : Sound buf) {recs : List (JoinRecord Envelope)}
    (hget : getEntry key buf = some recs) :
    (recs ++ records (deleteEntry key buf)).Perm buf.records := by
  have hperm := (perm_deleteEntry (k := key) h.nodup).flatten
  rw [hget, List.flatten_append] at hperm
  have hold : (some recs).toList.flatten = recs := List.append_nil recs
  rw [hold] at hperm
  exact hperm

theorem records_push (buf : JoinBuffer Envelope) (r : JoinRecord Envelope) :
    (buf.push r).records.Perm (buf.records ++ [r]) := by
  have hperm := records_setEntry buf r.key
    ((getEntry r.key buf).getD [] ++ [r])
  rw [List.append_assoc, List.perm_append_left_iff] at hperm
  exact hperm.trans List.perm_append_comm

theorem Sound.push (h : Sound buf) (r : JoinRecord Envelope) :
    Sound (buf.push r) := by
  apply h.setEntry
  intro x hx
  rcases List.mem_append.mp hx with hold | hnew
  · cases hget : getEntry r.key buf with
    | none =>
      rw [hget] at hold
      cases hold
    | some recs =>
    rw [hget] at hold
    exact h.key_of_getEntry hget hold
  · rw [List.mem_singleton.mp hnew]

structure Takes (buf : JoinBuffer Envelope) (window : Int64) (key : Bytes)
    (timestamp : Int64) (r : JoinRecord Envelope)
    (rest : JoinBuffer Envelope) : Prop where
  key : r.key = key
  near : withinWindow window timestamp r = true
  records : buf.records.Perm (r :: rest.records)
  sound : Sound rest

theorem Sound.takes (h : Sound buf) {window : Int64} {timestamp : Int64}
    {rest : JoinBuffer Envelope}
    (htake : buf.takeMatch window key timestamp = some (r, rest)) :
    Takes buf window key timestamp r rest := by
  unfold takeMatch at htake
  cases hget : getEntry key buf with
  | none =>
    rw [hget] at htake
    cases htake
  | some recs =>
  simp only [hget] at htake
  cases hfind : recs.find? (withinWindow window timestamp) with
  | none =>
    rw [hfind] at htake
    cases htake
  | some m =>
  simp only [hfind, Option.some.injEq, Prod.mk.injEq] at htake
  rcases htake with ⟨hm, hrest⟩
  subst hm
  have hnear := List.find?_some hfind
  have hsplit : recs.Perm
      (m :: recs.eraseP (withinWindow window timestamp)) := by
    rcases List.find?_eq_some_iff_append.mp hfind with
      ⟨_, front, back, heq, hfront⟩
    have hskip : recs.eraseP (withinWindow window timestamp) =
        front ++ back := by
      rw [heq, List.eraseP_append_right _ (by simpa using hfront),
        List.eraseP_cons_of_pos hnear]
    rw [hskip, heq]
    exact List.perm_middle
  have hkeyed : forall x,
      x ∈ recs.eraseP (withinWindow window timestamp) ->
        x.key = key :=
    fun x hx => h.key_of_getEntry hget (List.mem_of_mem_eraseP hx)
  have hkey := h.key_of_getEntry hget
    (List.mem_of_find?_eq_some hfind)
  by_cases hlast :
      (recs.eraseP (withinWindow window timestamp)).length = 0
  · rw [if_pos hlast] at hrest
    have hnil := List.eq_nil_of_length_eq_zero hlast
    rw [hnil] at hsplit
    refine ⟨hkey, hnear, ?_, ?_⟩
    · rw [← hrest]
      exact (records_deleteEntry h hget).symm.trans
        (hsplit.append_right _)
    · rw [← hrest]
      exact h.deleteEntry key
  rw [if_neg hlast] at hrest
  refine ⟨hkey, hnear, ?_, ?_⟩
  · have hperm := records_setEntry buf key
      (recs.eraseP (withinWindow window timestamp))
    rw [hget, hrest] at hperm
    have hmoved := (hsplit.symm.append_right rest.records).trans hperm
    rw [List.cons_append] at hmoved
    have hmiddle := List.perm_middle.trans hmoved
    exact ((List.perm_append_left_iff _).mp hmiddle).symm
  · rw [← hrest]
    exact h.setEntry hkeyed

theorem Sound.takes_none (h : Sound buf) {window : Int64} {timestamp : Int64}
    (htake : buf.takeMatch window key timestamp = none) (hr : r ∈ buf.records)
    (hkey : r.key = key) :
    withinWindow window timestamp r = false := by
  rcases h.getEntry_of_mem hr with ⟨recs, hget, hmem⟩
  rw [hkey] at hget
  unfold takeMatch at htake
  rw [hget] at htake
  simp only at htake
  cases hfind : recs.find? (withinWindow window timestamp) with
  | none =>
    have hnot := List.find?_eq_none.mp hfind r hmem
    simpa using hnot
  | some m =>
  rw [hfind] at htake
  cases htake

theorem records_expireRecords (buf : JoinBuffer Envelope)
    (now windowNs : Int64) :
    (buf.expireRecords now windowNs).records =
      buf.records.filter (unexpired now windowNs) := by
  induction buf with
  | nil => rfl
  | cons e buf ih =>
  have hcons : records (e :: buf) = e.2 ++ records buf := rfl
  unfold expireRecords at ih ⊢
  rw [hcons, List.filter_append, List.filterMap_cons]
  by_cases hnone : (e.2.filter (unexpired now windowNs)).length = 0
  · simp only [if_pos hnone]
    rw [ih, List.eq_nil_of_length_eq_zero hnone, List.nil_append]
  · simp only [if_neg hnone]
    rw [← ih]
    rfl

theorem Sound.expireRecords (h : Sound buf) (now windowNs : Int64) :
    Sound (buf.expireRecords now windowNs) where
  nodup := by
    have hsub : ((buf.expireRecords now windowNs).map Prod.fst).Sublist
        (buf.map Prod.fst) := by
      unfold JoinBuffer.expireRecords
      rw [List.map_filterMap]
      induction buf with
      | nil => exact List.Sublist.refl _
      | cons e buf ih =>
      have hrest : Sound buf :=
        { nodup := (List.nodup_cons.mp h.nodup).right
          keyed := fun x hx => h.keyed x (List.mem_cons_of_mem _ hx) }
      rw [List.filterMap_cons, List.map_cons]
      by_cases hnone : (e.2.filter (unexpired now windowNs)).length = 0
      · simp only [if_pos hnone, Option.map_none]
        exact (ih hrest).cons _
      · simp only [if_neg hnone, Option.map_some]
        exact (ih hrest).cons_cons _
    exact h.nodup.sublist hsub
  keyed := by
    intro x hx r hr
    rcases List.mem_filterMap.mp hx with ⟨e, he, hkept⟩
    simp only at hkept
    split at hkept
    · cases hkept
    · rw [Option.some.injEq] at hkept
      rw [← hkept] at hr ⊢
      exact h.keyed e he r (List.mem_of_mem_filter hr)

end JoinBuffer

/-!
## Accounting for every record
-/

namespace JoinHistory

structure Inv (h : JoinHistory Envelope) : Prop where
  accounted : h.Accounted
  soundLeft : JoinBuffer.Sound h.op.leftBuf
  soundRight : JoinBuffer.Sound h.op.rightBuf
  timesLeft : forall r, r ∈ h.op.leftBuf.records -> 0 ≤ r.timestamp
  timesRight : forall r, r ∈ h.op.rightBuf.records -> 0 ≤ r.timestamp

theorem inv_start (leftKeyFn rightKeyFn : Envelope -> Bytes) (window : Int64) :
    Inv (start (.newJoinOp leftKeyFn rightKeyFn window)) where
  accounted :=
    { apart := by
        intro l hl
        cases hl
      left := List.Perm.refl _
      right := List.Perm.refl _
      joined := by
        intro p hp
        cases hp
      results := rfl }
  soundLeft := JoinBuffer.sound_nil
  soundRight := JoinBuffer.sound_nil
  timesLeft := by
    intro r hr
    cases hr
  timesRight := by
    intro r hr
    cases hr

variable {α : Type}

theorem perm_pair {added emitted rest : List α} (r : α)
    (h : added.Perm (emitted ++ rest)) :
    (added ++ [r]).Perm ((emitted ++ [r]) ++ rest) := by
  rw [List.append_assoc]
  apply (h.append_right [r]).trans
  rw [List.append_assoc]
  exact List.Perm.append_left emitted List.perm_append_comm

theorem perm_push {added emitted buffer buffer' expired : List α} (r : α)
    (h : added.Perm (emitted ++ (buffer ++ expired)))
    (hpush : buffer'.Perm (buffer ++ [r])) :
    (added ++ [r]).Perm (emitted ++ (buffer' ++ expired)) := by
  apply (h.append_right [r]).trans
  rw [List.append_assoc]
  apply List.Perm.append_left emitted
  apply List.Perm.trans _ (hpush.symm.append_right expired)
  rw [List.append_assoc, List.append_assoc]
  exact List.Perm.append_left buffer List.perm_append_comm

theorem perm_take {added emitted buffer buffer' expired : List α} (r : α)
    (h : added.Perm (emitted ++ (buffer ++ expired)))
    (htake : buffer.Perm (r :: buffer')) :
    added.Perm ((emitted ++ [r]) ++ (buffer' ++ expired)) := by
  rw [List.append_assoc]
  apply h.trans
  apply List.Perm.append_left emitted
  exact htake.append_right expired

theorem perm_expire {added emitted buffer expired : List α} (keep : α -> Bool)
    (h : added.Perm (emitted ++ (buffer ++ expired))) :
    added.Perm (emitted ++ (buffer.filter keep ++
      (expired ++ buffer.filter (fun r => !keep r)))) := by
  apply h.trans
  apply List.Perm.append_left emitted
  have hsplit := List.filter_append_perm keep buffer
  apply (hsplit.symm.append_right expired).trans
  rw [List.append_assoc]
  exact List.Perm.append_left _ List.perm_append_comm

variable {h : JoinHistory Envelope}

theorem Inv.addLeft (hinv : Inv h) (env : Envelope) {timestamp : Int64}
    (htime : 0 ≤ timestamp) :
    Inv (h.step (.addLeft env timestamp)) := by
  have hacc := hinv.accounted
  have hjoins (r : JoinRecord Envelope) (hr : 0 ≤ r.timestamp) :
      Joined h.op.window ⟨h.op.leftKeyFn env, env, timestamp⟩ r <->
        h.op.leftKeyFn env = r.key ∧
          withinWindow h.op.window timestamp r = true :=
    joined_iff htime hr
  cases htake : h.op.rightBuf.takeMatch h.op.window (h.op.leftKeyFn env)
      timestamp with
  | some m =>
    have htakes := hinv.soundRight.takes htake
    have hmem : m.1 ∈ h.op.rightBuf.records :=
      htakes.records.mem_iff.mpr (List.mem_cons_self ..)
    have hrest : forall r, r ∈ m.2.records -> r ∈ h.op.rightBuf.records :=
      fun r hr => htakes.records.mem_iff.mpr (List.mem_cons_of_mem _ hr)
    have hstep : h.step (.addLeft env timestamp) =
        { h with
          op := { h.op with rightBuf := m.2 }
          results := h.results ++ [⟨env, m.1.env⟩]
          addedLeft := h.addedLeft ++ [⟨h.op.leftKeyFn env, env, timestamp⟩]
          pairs := h.pairs ++
            [(⟨h.op.leftKeyFn env, env, timestamp⟩, m.1)] } := by
      simp only [step, JoinOp.addLeft, htake]
      rfl
    rw [hstep]
    exact
      { accounted :=
          { apart := fun l hl r hr => hacc.apart l hl r (hrest r hr)
            left := by
              simp only [List.map_append]
              exact perm_pair _ hacc.left
            right := by
              simp only [List.map_append]
              exact perm_take m.1 hacc.right htakes.records
            joined := by
              intro p hp
              rcases List.mem_append.mp hp with hold | hnew
              · exact hacc.joined p hold
              · rw [List.mem_singleton.mp hnew]
                apply (hjoins m.1 (hinv.timesRight _ hmem)).mpr
                exact ⟨htakes.key.symm, htakes.near⟩
            results := by
              simp only [List.map_append, hacc.results]
              rfl }
        soundLeft := hinv.soundLeft
        soundRight := htakes.sound
        timesLeft := hinv.timesLeft
        timesRight := fun r hr => hinv.timesRight r (hrest r hr) }
  | none =>
  have hpush := JoinBuffer.records_push h.op.leftBuf
    ⟨h.op.leftKeyFn env, env, timestamp⟩
  have hmem : forall r, r ∈ (h.op.leftBuf.push
      ⟨h.op.leftKeyFn env, env, timestamp⟩).records ->
        r ∈ h.op.leftBuf.records ∨
          r = ⟨h.op.leftKeyFn env, env, timestamp⟩ := by
    intro r hr
    rcases List.mem_append.mp (hpush.mem_iff.mp hr) with hold | hnew
    · exact Or.inl hold
    · exact Or.inr (List.mem_singleton.mp hnew)
  have hstep : h.step (.addLeft env timestamp) =
      { h with
        op := { h.op with
          leftBuf := h.op.leftBuf.push
            ⟨h.op.leftKeyFn env, env, timestamp⟩ }
        addedLeft :=
          h.addedLeft ++ [⟨h.op.leftKeyFn env, env, timestamp⟩] } := by
    simp only [step, JoinOp.addLeft, htake, Option.toList_none,
      Option.map_none, List.append_nil]
  rw [hstep]
  exact
    { accounted :=
        { apart := by
            intro l hl r hr hjoined
            rcases hmem l hl with hold | hnew
            · exact hacc.apart l hold r hr hjoined
            rw [hnew] at hjoined
            rcases (hjoins r (hinv.timesRight r hr)).mp hjoined
              with ⟨hkey, hnear⟩
            rw [hinv.soundRight.takes_none htake hr hkey.symm] at hnear
            cases hnear
          left := perm_push _ hacc.left hpush
          right := hacc.right
          joined := hacc.joined
          results := hacc.results }
      soundLeft := hinv.soundLeft.push _
      soundRight := hinv.soundRight
      timesLeft := by
        intro r hr
        rcases hmem r hr with hold | hnew
        · exact hinv.timesLeft r hold
        · rw [hnew]
          exact htime
      timesRight := hinv.timesRight }

def mirror (h : JoinHistory Envelope) : JoinHistory Envelope where
  op :=
    { leftKeyFn := h.op.rightKeyFn
      rightKeyFn := h.op.leftKeyFn
      window := h.op.window
      leftBuf := h.op.rightBuf
      rightBuf := h.op.leftBuf }
  results := h.results.map (fun r => ⟨r.right, r.left⟩)
  addedLeft := h.addedRight
  addedRight := h.addedLeft
  pairs := h.pairs.map Prod.swap
  expiredLeft := h.expiredRight
  expiredRight := h.expiredLeft

theorem step_mirror (h : JoinHistory Envelope) (env : Envelope)
    (timestamp : Int64) :
    h.mirror.step (.addLeft env timestamp) =
      (h.step (.addRight env timestamp)).mirror := by
  cases htake : h.op.leftBuf.takeMatch h.op.window (h.op.rightKeyFn env)
      timestamp with
  | some m => simp [step, mirror, JoinOp.addLeft, JoinOp.addRight, htake]
  | none => simp [step, mirror, JoinOp.addLeft, JoinOp.addRight, htake]

theorem Joined.symm {window : Int64} {l r : JoinRecord Envelope}
    (h : Joined window l r) : Joined window r l where
  key := h.key.symm
  near := by
    have hnear := h.near
    omega

theorem Inv.mirror (hinv : Inv h) :
    Inv h.mirror where
  accounted :=
    { apart := fun l hl r hr hjoined =>
        hinv.accounted.apart r hr l hl (Joined.symm hjoined)
      left := by
        change h.addedRight.Perm ((h.pairs.map Prod.swap).map Prod.fst ++ _)
        rw [List.map_map]
        exact hinv.accounted.right
      right := by
        change h.addedLeft.Perm ((h.pairs.map Prod.swap).map Prod.snd ++ _)
        rw [List.map_map]
        exact hinv.accounted.left
      joined := by
        intro p hp
        rcases List.mem_map.mp hp with ⟨q, hq, hswap⟩
        rw [← hswap]
        exact Joined.symm (hinv.accounted.joined q hq)
      results := by
        simp [JoinHistory.mirror, hinv.accounted.results] }
  soundLeft := hinv.soundRight
  soundRight := hinv.soundLeft
  timesLeft := hinv.timesRight
  timesRight := hinv.timesLeft

theorem mirror_mirror (h : JoinHistory Envelope) : h.mirror.mirror = h := by
  have hresults : (h.results.map (fun r => JoinResult.mk r.right r.left)).map
      (fun r => JoinResult.mk r.right r.left) = h.results := by
    rw [List.map_map]
    exact List.map_id _
  have hpairs : (h.pairs.map Prod.swap).map Prod.swap = h.pairs := by
    rw [List.map_map]
    exact List.map_id _
  simp only [JoinHistory.mirror, hresults, hpairs]

theorem Inv.addRight (hinv : Inv h) (env : Envelope) {timestamp : Int64}
    (htime : 0 ≤ timestamp) :
    Inv (h.step (.addRight env timestamp)) := by
  have hleft := (hinv.mirror.addLeft env htime).mirror
  rw [step_mirror, mirror_mirror] at hleft
  exact hleft

theorem Inv.tick (hinv : Inv h) (now : Int64) :
    Inv (h.step (.tick now)) := by
  have hacc := hinv.accounted
  have hleft := JoinBuffer.records_expireRecords h.op.leftBuf now h.op.window
  have hright := JoinBuffer.records_expireRecords h.op.rightBuf now h.op.window
  have hkeptLeft : forall r, r ∈ (h.step (.tick now)).op.leftBuf.records ->
      r ∈ h.op.leftBuf.records := by
    intro r hr
    change r ∈ (h.op.leftBuf.expireRecords now h.op.window).records at hr
    rw [hleft] at hr
    exact List.mem_of_mem_filter hr
  have hkeptRight : forall r, r ∈ (h.step (.tick now)).op.rightBuf.records ->
      r ∈ h.op.rightBuf.records := by
    intro r hr
    change r ∈ (h.op.rightBuf.expireRecords now h.op.window).records at hr
    rw [hright] at hr
    exact List.mem_of_mem_filter hr
  exact
    { accounted :=
        { apart := fun l hl r hr =>
            hacc.apart l (hkeptLeft l hl) r (hkeptRight r hr)
          left := by
            have hperm := perm_expire
              (JoinBuffer.unexpired now h.op.window) hacc.left
            rw [← hleft] at hperm
            exact hperm
          right := by
            have hperm := perm_expire
              (JoinBuffer.unexpired now h.op.window) hacc.right
            rw [← hright] at hperm
            exact hperm
          joined := hacc.joined
          results := hacc.results }
      soundLeft := hinv.soundLeft.expireRecords now h.op.window
      soundRight := hinv.soundRight.expireRecords now h.op.window
      timesLeft := fun r hr => hinv.timesLeft r (hkeptLeft r hr)
      timesRight := fun r hr => hinv.timesRight r (hkeptRight r hr) }

theorem Inv.step (hinv : Inv h) {a : JoinAction Envelope}
    (htime : a.NonNegative) : Inv (h.step a) := by
  cases a with
  | addLeft env timestamp => exact hinv.addLeft env htime
  | addRight env timestamp => exact hinv.addRight env htime
  | tick now => exact hinv.tick now

theorem Inv.run (hinv : Inv h) {actions : List (JoinAction Envelope)}
    (htimes : forall a, a ∈ actions -> a.NonNegative) :
    Inv (h.run actions) := by
  induction actions generalizing h with
  | nil => exact hinv
  | cons a actions ih =>
  apply ih (hinv.step (htimes a (List.mem_cons_self ..)))
  exact fun x hx => htimes x (List.mem_cons_of_mem a hx)

/--
If no time is negative every record that was added is emitted in one result,
buffered or expired, and results have one key and times within the window.
-/
theorem accounted_of_nonNegative {leftKeyFn rightKeyFn : Envelope -> Bytes}
    {window : Int64} {actions : List (JoinAction Envelope)}
    (htimes : forall a, a ∈ actions -> a.NonNegative) :
    ((start (.newJoinOp leftKeyFn rightKeyFn window)).run
      actions).Accounted :=
  ((inv_start leftKeyFn rightKeyFn window).run htimes).accounted

/-- Of two records with one key the first is joined, the other one expires. -/
theorem accounted_twoLefts :
    ((start (.newJoinOp id id 5)).run
      [.addLeft [1] 0, .addLeft [1] 3, .addRight [1] 4, .tick 9]).Accounted ∧
    ((start (.newJoinOp id id 5)).run
      [.addLeft [1] 0, .addLeft [1] 3, .addRight [1] 4, .tick 9]).expiredLeft =
        [⟨[1], [1], 3⟩] := by
  constructor
  · apply accounted_of_nonNegative
    decide
  · decide +kernel

end JoinHistory

end Processing
end ChimeraMQ
