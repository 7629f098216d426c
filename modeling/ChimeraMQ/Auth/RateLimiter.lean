import ChimeraMQ.Foundation.Address
import ChimeraMQ.Foundation.Entries
import ChimeraMQ.Foundation.Runes

/-!
# The limiter of login attempts

Failed logins are counted by the address of the client.  A client that connects
through a trusted proxy is known by what the proxy has put into the headers.
-/

namespace ChimeraMQ
namespace Auth

open Foundation

/--
The times of the failed attempts of each address, the end of its ban, and the
networks of the proxies that are trusted.
-/
structure AuthRateLimiter where
  attempts : List (Bytes × List Int)
  maxAttempts : Int
  window : Int
  banDuration : Int
  banned : List (Bytes × Int)
  trustedProxies : List IPNet
deriving DecidableEq

namespace AuthRateLimiter

def newAuthRateLimiter (maxAttempts window banDuration : Int) :
    AuthRateLimiter where
  attempts := []
  maxAttempts := maxAttempts
  window := window
  banDuration := banDuration
  banned := []
  trustedProxies := []

def isAllowed (r : AuthRateLimiter) (addr : Bytes) (now : Int) :
    AuthRateLimiter × Bool :=
  match getEntry addr r.banned with
  | some until_ =>
    if now < until_ then (r, false)
    else
      ({ r with
          banned := deleteEntry addr r.banned
          attempts := deleteEntry addr r.attempts }, true)
  | none =>
  let valid := ((getEntry addr r.attempts).getD []).filter
    (fun t => t > now - r.window)
  ({ r with attempts := setEntry addr valid r.attempts },
    (valid.length : Int) < r.maxAttempts)

def recordFailed (r : AuthRateLimiter) (addr : Bytes) (now : Int) :
    AuthRateLimiter :=
  let times := (getEntry addr r.attempts).getD [] ++ [now]
  { r with
    attempts := setEntry addr times r.attempts
    banned :=
      if (times.length : Int) > r.maxAttempts then
        setEntry addr (now + r.banDuration) r.banned
      else r.banned }

def recordSuccess (r : AuthRateLimiter) (addr : Bytes) : AuthRateLimiter :=
  { r with
    attempts := deleteEntry addr r.attempts
    banned := deleteEntry addr r.banned }

/-!
## Addresses
-/

def setTrustedProxies (r : AuthRateLimiter) (cidrs : List Bytes) :
    AuthRateLimiter :=
  { r with trustedProxies := cidrs.filterMap parseCIDR }

def hostOf (remoteAddr : Bytes) : Bytes :=
  (splitHostPort remoteAddr).getD remoteAddr

def fromProxy (r : AuthRateLimiter) (remoteAddr : Bytes) : Bool :=
  r.trustedProxies.any
    (fun cidr => cidr.contains (parseAddr (hostOf remoteAddr)))

/--
The address of the client: what the headers say if the connection is trusted,
and where it comes from if it is not.
-/
def resolveIP (r : AuthRateLimiter)
    (remoteAddr xForwardedFor xRealIP : Bytes) : Bytes :=
  let trusted :=
    if r.trustedProxies.length = 0 then true else r.fromProxy remoteAddr
  if !trusted then hostOf remoteAddr
  else
    let xff := trimSpace xForwardedFor
    if xff ≠ [] ∧ ¬ xff.contains 44 then xff
    else
      let xri := trimSpace xRealIP
      if xri ≠ [] then xri else hostOf remoteAddr

def Unforgeable (r : AuthRateLimiter) (remoteAddr : Bytes) : Prop :=
  forall xff xri xff' xri',
    r.resolveIP remoteAddr xff xri = r.resolveIP remoteAddr xff' xri'

variable {r : AuthRateLimiter}

theorem resolveIP_untrusted {remoteAddr : Bytes} (hsome : r.trustedProxies ≠ [])
    (hout : r.fromProxy remoteAddr = false) (xff xri : Bytes) :
    r.resolveIP remoteAddr xff xri = hostOf remoteAddr := by
  have hlength : r.trustedProxies.length ≠ 0 :=
    fun h => hsome (List.eq_nil_of_length_eq_zero h)
  unfold resolveIP
  simp only [hlength, if_false, hout, Bool.not_false, if_true]

theorem resolveIP_unconfigured (remoteAddr : Bytes)
    (hnone : r.trustedProxies = []) (xff xri : Bytes) :
    r.resolveIP remoteAddr xff xri =
      if trimSpace xff ≠ [] ∧ ¬ (trimSpace xff).contains 44 then trimSpace xff
      else if trimSpace xri ≠ [] then trimSpace xri
      else hostOf remoteAddr := by
  unfold resolveIP
  simp only [hnone, List.length_nil, if_true, Bool.not_true,
    Bool.false_eq_true, if_false]

/--
Whoever connects from outside the trusted networks cannot choose the address
exactly if there is a trusted network at all.
-/
theorem unforgeable_iff (r : AuthRateLimiter) (cidrs : List Bytes)
    {remoteAddr : Bytes}
    (hout : (r.setTrustedProxies cidrs).fromProxy remoteAddr = false) :
    (r.setTrustedProxies cidrs).Unforgeable remoteAddr <->
      exists cidr, cidr ∈ cidrs ∧ (parseCIDR cidr).isSome = true := by
  have hconfigured : (r.setTrustedProxies cidrs).trustedProxies ≠ [] <->
      exists cidr, cidr ∈ cidrs ∧ (parseCIDR cidr).isSome = true := by
    rw [setTrustedProxies, ne_eq, List.filterMap_eq_nil_iff]
    simp only [not_forall, Option.isSome_iff_ne_none, exists_prop]
  rw [← hconfigured]
  constructor
  · intro h hnone
    have hsame := h (ascii "a") [] (ascii "b") []
    have hfirst : trimSpace (ascii "a") ≠ [] ∧
        ¬ (trimSpace (ascii "a")).contains 44 := by
      decide
    have hsecond : trimSpace (ascii "b") ≠ [] ∧
        ¬ (trimSpace (ascii "b")).contains 44 := by
      decide
    rw [resolveIP_unconfigured remoteAddr hnone,
      resolveIP_unconfigured remoteAddr hnone, if_pos hfirst,
      if_pos hsecond] at hsame
    exact absurd hsame (by decide)
  · intro hsome xff xri xff' xri'
    rw [resolveIP_untrusted hsome hout, resolveIP_untrusted hsome hout]

/-- A client from outside the only trusted network. -/
theorem unforgeable_outside :
    ((newAuthRateLimiter 3 1 1).setTrustedProxies
      [ascii "172.16.0.0/12"]).fromProxy (ascii "10.0.0.1:8080") = false ∧
    ((newAuthRateLimiter 3 1 1).setTrustedProxies
      [ascii "172.16.0.0/12"]).Unforgeable (ascii "10.0.0.1:8080") := by
  have hout : ((newAuthRateLimiter 3 1 1).setTrustedProxies
      [ascii "172.16.0.0/12"]).fromProxy (ascii "10.0.0.1:8080") = false := by
    decide +kernel
  constructor
  · exact hout
  · apply (unforgeable_iff (newAuthRateLimiter 3 1 1) _ hout).mpr
    exact ⟨ascii "172.16.0.0/12", List.mem_singleton_self _, by decide +kernel⟩

/-- Without a trusted network every client is taken for what it says it is. -/
theorem not_unforgeable_unconfigured :
    ((newAuthRateLimiter 3 1 1).setTrustedProxies []).fromProxy
        (ascii "10.0.0.1:8080") = false ∧
      ((newAuthRateLimiter 3 1 1).setTrustedProxies []).resolveIP
        (ascii "10.0.0.1:8080") (ascii "192.168.1.1") [] =
          ascii "192.168.1.1" ∧
      ((newAuthRateLimiter 3 1 1).setTrustedProxies []).resolveIP
        (ascii "10.0.0.1:8080") (ascii "192.168.1.2") [] =
          ascii "192.168.1.2" ∧
      ¬ ((newAuthRateLimiter 3 1 1).setTrustedProxies []).Unforgeable
        (ascii "10.0.0.1:8080") := by
  have hone : ((newAuthRateLimiter 3 1 1).setTrustedProxies []).resolveIP
      (ascii "10.0.0.1:8080") (ascii "192.168.1.1") [] =
        ascii "192.168.1.1" := by
    decide +kernel
  have htwo : ((newAuthRateLimiter 3 1 1).setTrustedProxies []).resolveIP
      (ascii "10.0.0.1:8080") (ascii "192.168.1.2") [] =
        ascii "192.168.1.2" := by
    decide +kernel
  refine ⟨rfl, hone, htwo, ?_⟩
  intro h
  have hsame := h (ascii "192.168.1.1") [] (ascii "192.168.1.2") []
  rw [hone, htwo] at hsame
  exact absurd hsame (by decide)

/-!
## Runs

The attempts of all clients, each of which is permitted before it fails or
succeeds. Beside the limiter stand the failures of an address since its last
success.
-/

def attemptsOf (r : AuthRateLimiter) (addr : Bytes) : List Int :=
  (getEntry addr r.attempts).getD []

/-- There are enough failures within the window that ends at a time. -/
def Reaches (r : AuthRateLimiter) (failures : List Int) (t : Int) : Prop :=
  r.maxAttempts ≤
    (failures.countP (fun x => t - r.window < x ∧ x ≤ t) : Int)

/-- The permitted attempts of an address that are not over, and its failures. -/
structure Ledger where
  pending : Nat
  failures : List Int
  unserved : List Int

def Ledger.empty : Ledger where
  pending := 0
  failures := []
  unserved := []

structure Gate where
  limiter : AuthRateLimiter
  clock : Int
  ledger : Bytes -> Ledger

inductive Attempt where
  | check (addr : Bytes)
  | fail (addr : Bytes)
  | succeed (addr : Bytes)

def Attempt.addr : Attempt -> Bytes
  | .check addr => addr
  | .fail addr => addr
  | .succeed addr => addr

namespace Gate

def init (maxAttempts window banDuration start : Int) : Gate where
  limiter := newAuthRateLimiter maxAttempts window banDuration
  clock := start
  ledger := fun _ => Ledger.empty

def Enabled (g : Gate) : Attempt -> Prop
  | .check _ => True
  | .fail addr => 0 < (g.ledger addr).pending
  | .succeed addr => 0 < (g.ledger addr).pending

def banOver (g : Gate) (addr : Bytes) (now : Int) : Bool :=
  (getEntry addr g.limiter.banned).any (fun until_ => until_ ≤ now)

def next (g : Gate) (now : Int) : Attempt -> Gate
  | .check addr =>
    let l := g.ledger addr
    let (limiter, allowed) := g.limiter.isAllowed addr now
    { limiter := limiter
      clock := now
      ledger := Function.update g.ledger addr
        { l with
          pending := if allowed then l.pending + 1 else l.pending
          unserved := if g.banOver addr now then [] else l.unserved } }
  | .fail addr =>
    let l := g.ledger addr
    { limiter := g.limiter.recordFailed addr now
      clock := now
      ledger := Function.update g.ledger addr
        { pending := l.pending - 1
          failures := l.failures ++ [now]
          unserved := l.unserved ++ [now] } }
  | .succeed addr =>
    let l := g.ledger addr
    { limiter := g.limiter.recordSuccess addr
      clock := now
      ledger := Function.update g.ledger addr
        { Ledger.empty with pending := l.pending - 1 } }

/-- A failure that has its address banned is one of enough within a window. -/
def Prompt (g : Gate) (now : Int) : Attempt -> Prop
  | .fail addr =>
    g.limiter.maxAttempts ≤ (g.limiter.attemptsOf addr).length ->
      exists t, g.limiter.Reaches ((g.ledger addr).failures ++ [now]) t
  | _ => True

/-- The runs of a limiter in which no ban comes of failures that are apart. -/
inductive Run (maxAttempts window banDuration : Int) : Gate -> Prop
  | init (start : Int) : Run maxAttempts window banDuration
      (init maxAttempts window banDuration start)
  | next {g : Gate} {now : Int} {e : Attempt} :
      Run maxAttempts window banDuration g -> g.clock ≤ now -> g.Enabled e ->
        g.Prompt now e -> Run maxAttempts window banDuration (g.next now e)

/--
An address that failed too often within a window is refused until the ban since
the last of these failures is over; another one is not.
-/
structure Bans (g : Gate) (addr : Bytes) (now : Int) : Prop where
  refused : forall t, t ∈ (g.ledger addr).failures ->
    g.limiter.Reaches (g.ledger addr).failures t ->
      now < t + g.limiter.banDuration ->
        (g.limiter.isAllowed addr now).2 = false
  allowed : (forall t, ¬ g.limiter.Reaches (g.ledger addr).failures t) ->
    (g.limiter.isAllowed addr now).2 = true

/--
As long as an address that the limiter has not banned should be, there are
enough failures in the window that ends now.
-/
def Covered (g : Gate) (addr : Bytes) (now : Int) : Prop :=
  getEntry addr g.limiter.banned = none ->
    forall t, t ∈ (g.ledger addr).failures ->
      g.limiter.Reaches (g.ledger addr).failures t ->
        now < t + g.limiter.banDuration ->
          g.limiter.Reaches (g.ledger addr).unserved now

/-- What the limiter has on record about an address is what has happened. -/
structure Agrees (r : AuthRateLimiter) (clock : Int) (addr : Bytes)
    (l : Ledger) : Prop where
  recent : forall now, clock ≤ now ->
    (r.attemptsOf addr).filter (fun t => t > now - r.window) =
      l.unserved.filter (fun t => t > now - r.window)
  unserved : l.unserved.Sublist l.failures
  past : forall t, t ∈ l.failures -> t ≤ clock
  banned : forall until_, getEntry addr r.banned = some until_ ->
    r.maxAttempts < (r.attemptsOf addr).length ∧
      (forall t, t ∈ l.failures -> t + r.banDuration ≤ until_) ∧
      exists t, r.Reaches l.failures t

end Gate

/-!
## What an attempt changes
-/

structure SameAt (r r' : AuthRateLimiter) (addr : Bytes) : Prop where
  maxAttempts : r'.maxAttempts = r.maxAttempts
  window : r'.window = r.window
  banDuration : r'.banDuration = r.banDuration
  attempts : r'.attemptsOf addr = r.attemptsOf addr
  banned : getEntry addr r'.banned = getEntry addr r.banned

theorem SameAt.refl (r : AuthRateLimiter) (addr : Bytes) : SameAt r r addr :=
  ⟨rfl, rfl, rfl, rfl, rfl⟩

variable {addr : Bytes}

theorem isAllowed_banned {until_ : Int}
    (h : getEntry addr r.banned = some until_) {now : Int} (hnow : now < until_) :
    r.isAllowed addr now = (r, false) := by
  unfold isAllowed
  rw [h]
  simp only [if_pos hnow]

theorem isAllowed_over {until_ : Int} (h : getEntry addr r.banned = some until_)
    {now : Int} (hnow : until_ ≤ now) :
    r.isAllowed addr now =
      ({ r with
          banned := deleteEntry addr r.banned
          attempts := deleteEntry addr r.attempts }, true) := by
  unfold isAllowed
  rw [h]
  simp only [if_neg (Int.not_lt.mpr hnow)]

theorem isAllowed_free (h : getEntry addr r.banned = none) (now : Int) :
    r.isAllowed addr now =
      ({ r with
          attempts := setEntry addr
            ((r.attemptsOf addr).filter (fun t => t > now - r.window))
            r.attempts },
        decide ((((r.attemptsOf addr).filter
          (fun t => t > now - r.window)).length : Int) < r.maxAttempts)) := by
  unfold isAllowed attemptsOf
  rw [h]

theorem isAllowed_sameAt (r : AuthRateLimiter) {other : Bytes}
    (hne : other ≠ addr) (now : Int) :
    SameAt r (r.isAllowed addr now).1 other := by
  cases hban : getEntry addr r.banned with
  | none =>
    rw [isAllowed_free hban]
    refine ⟨rfl, rfl, rfl, ?_, rfl⟩
    unfold attemptsOf
    rw [getEntry_setEntry_ne hne]
  | some until_ =>
  by_cases hnow : now < until_
  · rw [isAllowed_banned hban hnow]
    exact SameAt.refl r other
  rw [isAllowed_over hban (Int.not_lt.mp hnow)]
  refine ⟨rfl, rfl, rfl, ?_, getEntry_deleteEntry_ne hne _⟩
  unfold attemptsOf
  rw [getEntry_deleteEntry_ne hne]

theorem recordFailed_sameAt (r : AuthRateLimiter) {other : Bytes}
    (hne : other ≠ addr) (now : Int) :
    SameAt r (r.recordFailed addr now) other := by
  refine ⟨rfl, rfl, rfl, ?_, ?_⟩
  · unfold attemptsOf recordFailed
    rw [getEntry_setEntry_ne hne]
  unfold recordFailed
  by_cases hmany : (((getEntry addr r.attempts).getD [] ++ [now]).length :
      Int) > r.maxAttempts
  · simp only [if_pos hmany, getEntry_setEntry_ne hne]
  · simp only [if_neg hmany]

theorem recordSuccess_sameAt (r : AuthRateLimiter) {other : Bytes}
    (hne : other ≠ addr) : SameAt r (r.recordSuccess addr) other := by
  refine ⟨rfl, rfl, rfl, ?_, getEntry_deleteEntry_ne hne _⟩
  unfold attemptsOf recordSuccess
  rw [getEntry_deleteEntry_ne hne]

@[simp] theorem attemptsOf_recordFailed (r : AuthRateLimiter) (addr : Bytes)
    (now : Int) :
    (r.recordFailed addr now).attemptsOf addr = r.attemptsOf addr ++ [now] := by
  unfold attemptsOf recordFailed
  rw [getEntry_setEntry]
  rfl

@[simp] theorem attemptsOf_recordSuccess (r : AuthRateLimiter) (addr : Bytes) :
    (r.recordSuccess addr).attemptsOf addr = [] := by
  unfold attemptsOf recordSuccess
  rw [getEntry_deleteEntry]
  rfl

theorem recordFailed_bans (h : (r.attemptsOf addr).length + 1 > r.maxAttempts)
    (now : Int) :
    getEntry addr (r.recordFailed addr now).banned =
      some (now + r.banDuration) := by
  have hlength : (((getEntry addr r.attempts).getD [] ++ [now]).length : Int) >
      r.maxAttempts := by
    rw [List.length_append, Int.natCast_add]
    exact h
  unfold recordFailed
  simp only [if_pos hlength, getEntry_setEntry]

theorem recordFailed_banned
    (h : ¬ (r.attemptsOf addr).length + 1 > r.maxAttempts) (now : Int) :
    (r.recordFailed addr now).banned = r.banned := by
  have hlength : ¬ (((getEntry addr r.attempts).getD [] ++ [now]).length :
      Int) > r.maxAttempts := by
    rw [List.length_append, Int.natCast_add]
    exact h
  unfold recordFailed
  simp only [if_neg hlength]

namespace Gate

theorem Agrees.sameAt {r r' : AuthRateLimiter} {clock clock' : Int} {l : Ledger}
    (h : Agrees r clock addr l) (hsame : SameAt r r' addr)
    (hclock : clock ≤ clock') :
    Agrees r' clock' addr l where
  recent := by
    intro now hnow
    rw [hsame.attempts, hsame.window]
    exact h.recent now (Int.le_trans hclock hnow)
  unserved := h.unserved
  past := fun t ht => Int.le_trans (h.past t ht) hclock
  banned := by
    intro until_ hban
    rw [hsame.banned] at hban
    unfold Reaches
    rw [hsame.attempts, hsame.maxAttempts, hsame.banDuration, hsame.window]
    exact h.banned until_ hban

theorem Agrees.cleared {clock : Int} {l : Ledger}
    (hattempts : r.attemptsOf addr = []) (hban : getEntry addr r.banned = none)
    (hunserved : l.unserved = [])
    (hpast : forall t, t ∈ l.failures -> t ≤ clock) :
    Agrees r clock addr l where
  recent := by
    intro now _
    rw [hattempts, hunserved]
  unserved := by
    rw [hunserved]
    exact List.nil_sublist _
  past := hpast
  banned := by
    intro until_ hsome
    rw [hban] at hsome
    cases hsome

variable {g : Gate}

theorem Agrees.check (h : Agrees g.limiter g.clock addr (g.ledger addr))
    {now : Int} (hnow : g.clock ≤ now) :
    Agrees (g.next now (.check addr)).limiter now addr
      ((g.next now (.check addr)).ledger addr) := by
  have hpast : forall t, t ∈ (g.ledger addr).failures -> t ≤ now :=
    fun t ht => Int.le_trans (h.past t ht) hnow
  show Agrees (g.limiter.isAllowed addr now).1 now addr
    (Function.update g.ledger addr _ addr)
  rw [Function.update_self]
  cases hban : getEntry addr g.limiter.banned with
  | none =>
    have hover : g.banOver addr now = false := by
      unfold banOver
      rw [hban]
      rfl
    rw [isAllowed_free hban, hover]
    refine ⟨?_, h.unserved, hpast, ?_⟩
    · intro later hlater
      have hrecent := h.recent later (Int.le_trans hnow hlater)
      unfold attemptsOf
      rw [getEntry_setEntry]
      show List.filter _ (List.filter _ _) = _
      rw [List.filter_filter]
      refine Eq.trans ?_ hrecent
      apply List.filter_congr
      intro t _
      simp only [gt_iff_lt, Bool.and_eq_left_iff_imp, decide_eq_true_eq]
      omega
    · intro until_ hsome
      rw [hban] at hsome
      cases hsome
  | some until_ =>
  by_cases hlt : now < until_
  · have hover : g.banOver addr now = false := by
      unfold banOver
      rw [hban]
      simpa using hlt
    rw [isAllowed_banned hban hlt, hover]
    exact
      { recent := fun later hlater =>
          h.recent later (Int.le_trans hnow hlater)
        unserved := h.unserved
        past := hpast
        banned := h.banned }
  have hover : g.banOver addr now = true := by
    unfold banOver
    rw [hban]
    simpa using hlt
  rw [isAllowed_over hban (Int.not_lt.mp hlt), hover]
  apply Agrees.cleared
  · unfold attemptsOf
    rw [getEntry_deleteEntry]
    rfl
  · exact getEntry_deleteEntry ..
  · rfl
  · exact hpast

theorem Agrees.fail (h : Agrees g.limiter g.clock addr (g.ledger addr))
    {now : Int} (hnow : g.clock ≤ now) (hprompt : g.Prompt now (.fail addr)) :
    Agrees (g.next now (.fail addr)).limiter now addr
      ((g.next now (.fail addr)).ledger addr) := by
  show Agrees (g.limiter.recordFailed addr now) now addr
    (Function.update g.ledger addr _ addr)
  rw [Function.update_self]
  refine ⟨?_, h.unserved.append (List.Sublist.refl _), ?_, ?_⟩
  · intro later hlater
    have hrecent := h.recent later (Int.le_trans hnow hlater)
    rw [attemptsOf_recordFailed, List.filter_append, List.filter_append]
    exact congrArg (fun l => l ++ _) hrecent
  · intro t ht
    rcases List.mem_append.mp ht with hold | hlast
    · exact Int.le_trans (h.past t hold) hnow
    · rw [List.mem_singleton.mp hlast]
  intro until_ hban
  have hlength : ((g.limiter.attemptsOf addr ++ [now]).length : Int) =
      (g.limiter.attemptsOf addr).length + 1 := by
    rw [List.length_append, Int.natCast_add]
    rfl
  rw [attemptsOf_recordFailed, hlength]
  by_cases hmany : (g.limiter.attemptsOf addr).length + 1 >
      g.limiter.maxAttempts
  · rw [recordFailed_bans hmany] at hban
    refine ⟨hmany, ?_, hprompt (by omega)⟩
    intro t ht
    have hle : t ≤ now := by
      rcases List.mem_append.mp ht with hold | hlast
      · exact Int.le_trans (h.past t hold) hnow
      · exact Int.le_of_eq (List.mem_singleton.mp hlast)
    rw [← Option.some.inj hban]
    exact Int.add_le_add_right hle _
  · rw [recordFailed_banned hmany] at hban
    have hbefore := (h.banned until_ hban).left
    omega

theorem Agrees.succeed (now : Int) :
    Agrees (g.next now (.succeed addr)).limiter now addr
      ((g.next now (.succeed addr)).ledger addr) := by
  show Agrees (g.limiter.recordSuccess addr) now addr
    (Function.update g.ledger addr _ addr)
  rw [Function.update_self]
  apply Agrees.cleared
  · exact attemptsOf_recordSuccess g.limiter addr
  · exact getEntry_deleteEntry ..
  · rfl
  · intro t ht
    cases ht

theorem next_other {e : Attempt} {other : Bytes} (hne : other ≠ e.addr)
    (now : Int) :
    SameAt g.limiter (g.next now e).limiter other ∧
      (g.next now e).ledger other = g.ledger other := by
  cases e with
  | check addr =>
    exact ⟨isAllowed_sameAt g.limiter hne now,
      Function.update_of_ne hne ..⟩
  | fail addr =>
    exact ⟨recordFailed_sameAt g.limiter hne now,
      Function.update_of_ne hne ..⟩
  | succeed addr =>
  exact ⟨recordSuccess_sameAt g.limiter hne,
    Function.update_of_ne hne ..⟩

theorem Run.agrees {maxAttempts window banDuration : Int}
    (h : Run maxAttempts window banDuration g) (addr : Bytes) :
    Agrees g.limiter g.clock addr (g.ledger addr) := by
  induction h with
  | init start =>
    exact Agrees.cleared rfl rfl rfl (fun t ht => absurd ht List.not_mem_nil)
  | @next g now e hrun hnow henabled hprompt ih =>
  have hclock : (g.next now e).clock = now := by
    cases e with
    | check addr => rfl
    | fail addr => rfl
    | succeed addr => rfl
  rw [hclock]
  by_cases hother : addr = e.addr
  · subst hother
    cases e with
    | check addr => exact ih.check hnow
    | fail addr => exact ih.fail hnow hprompt
    | succeed addr => exact Agrees.succeed now
  · rcases next_other (g := g) hother now with ⟨hsame, hledger⟩
    rw [hledger]
    exact ih.sameAt hsame hnow

theorem Agrees.reaches_iff {clock : Int} {l : Ledger}
    (h : Agrees r clock addr l) {now : Int} (hnow : clock ≤ now) :
    r.Reaches l.unserved now <->
      r.maxAttempts ≤ (((r.attemptsOf addr).filter
        (fun t => t > now - r.window)).length : Int) := by
  rw [h.recent now hnow, ← List.countP_eq_length_filter]
  unfold Reaches
  have hcount : l.unserved.countP (fun x => now - r.window < x ∧ x ≤ now) =
      l.unserved.countP (fun t => t > now - r.window) := by
    apply List.countP_congr
    intro t ht
    have hpast := h.past t (h.unserved.subset ht)
    simp only [gt_iff_lt, decide_eq_true_eq]
    omega
  rw [hcount]

/--
Where no ban comes of failures that are apart, a check is right exactly if an
address that should be banned still has its failures in the window.
-/
theorem bans_iff_covered {maxAttempts window banDuration : Int} {g : Gate}
    (h : Run maxAttempts window banDuration g) {now : Int}
    (hnow : g.clock ≤ now) (addr : Bytes) :
    g.Bans addr now <-> g.Covered addr now := by
  have hagrees := h.agrees addr
  have hreaches := hagrees.reaches_iff hnow
  cases hban : getEntry addr g.limiter.banned with
  | none =>
    constructor
    · intro hbans _ t ht htimes hsoon
      have hrefused := hbans.refused t ht htimes hsoon
      rw [isAllowed_free hban] at hrefused
      rw [hreaches]
      exact Int.not_lt.mp (of_decide_eq_false hrefused)
    intro hcovered
    constructor
    · intro t ht htimes hsoon
      have hnow := hcovered hban t ht htimes hsoon
      rw [isAllowed_free hban]
      exact decide_eq_false (Int.not_lt.mpr (hreaches.mp hnow))
    intro hnever
    rw [isAllowed_free hban]
    apply decide_eq_true
    apply Int.not_le.mp
    intro hmany
    have hall := hreaches.mpr hmany
    apply hnever now
    unfold Reaches at hall ⊢
    have hle := hagrees.unserved.countP_le
      (p := fun x => now - g.limiter.window < x ∧ x ≤ now)
    omega
  | some until_ =>
  rcases hagrees.banned until_ hban with ⟨_, hlast, hexists⟩
  constructor
  · intro _ hnone
    rw [hban] at hnone
    cases hnone
  intro _
  by_cases hlt : now < until_
  · constructor
    · intro t ht htimes hsoon
      rw [isAllowed_banned hban hlt]
    · intro hnever
      rcases hexists with ⟨t, ht⟩
      exact absurd ht (hnever t)
  have hover := Int.not_lt.mp hlt
  constructor
  · intro t ht htimes hsoon
    have hend := hlast t ht
    omega
  · intro hnever
    rw [isAllowed_over hban hover]

/-- Two failures within a window of ten, with bans of thirty. -/
def twoFailures (addr : Bytes) : Gate :=
  ((((init 2 10 30 0).next 0 (.check addr)).next 0 (.fail addr)).next 1
    (.check addr)).next 1 (.fail addr)

theorem twoFailures_run :
    Run 2 10 30 (twoFailures (ascii "10.0.0.1")) := by
  refine .next (.next (.next (.next (.init 0) ?_ ?_ ?_) ?_ ?_ ?_) ?_ ?_ ?_)
    ?_ ?_ ?_
  · decide
  · trivial
  · trivial
  · decide
  · exact Nat.zero_lt_one
  · intro hmany
    exact absurd hmany (by decide +kernel)
  · decide
  · trivial
  · trivial
  · decide
  · exact Nat.zero_lt_one
  · intro hmany
    exact absurd hmany (by decide +kernel)

theorem bans_twoFailures :
    Run 2 10 30 (twoFailures (ascii "10.0.0.1")) ∧
      (twoFailures (ascii "10.0.0.1")).clock ≤ 5 ∧
      ((twoFailures (ascii "10.0.0.1")).Bans (ascii "10.0.0.1") 5 <->
        (twoFailures (ascii "10.0.0.1")).Covered (ascii "10.0.0.1") 5) := by
  have hclock : (twoFailures (ascii "10.0.0.1")).clock ≤ 5 := by decide
  exact ⟨twoFailures_run, hclock,
    bans_iff_covered twoFailures_run hclock (ascii "10.0.0.1")⟩

/-- The address is let in when its first failure has left the window. -/
theorem not_bans_twoFailures :
    Run 2 10 30 (twoFailures (ascii "10.0.0.1")) ∧
      ((twoFailures (ascii "10.0.0.1")).limiter.isAllowed (ascii "10.0.0.1")
        10).2 = true ∧
      ¬ (twoFailures (ascii "10.0.0.1")).Bans (ascii "10.0.0.1") 10 := by
  have hallowed : ((twoFailures (ascii "10.0.0.1")).limiter.isAllowed
      (ascii "10.0.0.1") 10).2 = true := by
    decide +kernel
  refine ⟨twoFailures_run, hallowed, ?_⟩
  intro h
  have hrefused := h.refused 1 (by decide +kernel)
    (by
      unfold Reaches
      decide +kernel)
    (by decide)
  rw [hallowed] at hrefused
  cases hrefused

end Gate

end AuthRateLimiter

end Auth
end ChimeraMQ
