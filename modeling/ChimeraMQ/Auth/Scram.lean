import ChimeraMQ.Foundation.Address
import ChimeraMQ.Foundation.Entries
import ChimeraMQ.Foundation.JsonText
import ChimeraMQ.Foundation.Outcome

/-!
# Messages of SCRAM

A client proves that it knows its password with a byte string that is as long
as a signature of the server.  The two are combined byte by byte for as long as
the proof is, and the length of the proof is not checked before.
-/

namespace ChimeraMQ
namespace Auth

open Foundation

structure Digest where
  hmacSHA256 : Bytes -> Bytes -> Bytes
  sha256Sum : Bytes -> Bytes
  length_hmacSHA256 : forall key data, (hmacSHA256 key data).length = 32

inductive SCRAMError where
  | invalidMessage
  | invalidProof
  | protocolViolation
  | invalidCredentials
deriving DecidableEq

structure SCRAMUser where
  salt : Bytes
  iterations : Int
  storedKey : Bytes
  serverKey : Bytes
deriving DecidableEq

structure SCRAMProvider where
  users : List (Bytes × SCRAMUser)

structure SCRAMSession where
  username : Bytes
  clientNonce : Bytes
  serverNonce : Bytes
  salt : Bytes
  iterations : Int
  storedKey : Bytes
  serverKey : Bytes
  clientFirstBare : Bytes
  serverFirst : Bytes
  lastClientFinal : Bytes
  authMessage : Bytes
deriving DecidableEq

def xorBytesFrom (b : Bytes) : Nat -> Bytes -> Outcome SCRAMError Bytes
  | _, [] => pure []
  | i, x :: rest => do
      let y <- Outcome.index b i
      let tail <- xorBytesFrom b (i + 1) rest
      pure ((x ^^^ y) :: tail)

def xorBytes (a b : Bytes) : Outcome SCRAMError Bytes :=
  xorBytesFrom b 0 a

def stripGS2Header (msg : Bytes) : Outcome SCRAMError Bytes :=
  let parts := splitN 0x2C 3 msg
  if parts.length < 3 then pure []
  else Outcome.index parts 2

def addAttributes : List (UInt8 × Bytes) -> List Bytes ->
    Outcome SCRAMError (List (UInt8 × Bytes))
  | result, [] => pure result
  | result, field :: fields =>
    if field.length < 2 then addAttributes result fields
    else do
      let key <- Outcome.index field 0
      let value <- Outcome.sliceFrom field 2
      addAttributes (setEntry key value result) fields

def parseSCRAMAttributes (msg : Bytes) :
    Outcome SCRAMError (List (UInt8 × Bytes)) :=
  addAttributes [] (splitOn 0x2C msg)

def isProofField (field : Bytes) : Outcome SCRAMError Bool :=
  if 2 ≤ field.length then do
    let key <- Outcome.index field 0
    if key = 0x70 then do
      let sign <- Outcome.index field 1
      pure (decide (sign = 0x3D))
    else pure false
  else pure false

def otherFields : List Bytes -> Outcome SCRAMError (List Bytes)
  | [] => pure []
  | field :: fields => do
      let proof <- isProofField field
      let others <- otherFields fields
      pure (if proof then others else field :: others)

def stripProof (msg : Bytes) : Outcome SCRAMError Bytes := do
  let fields <- otherFields (splitOn 0x2C msg)
  pure ([0x2C].intercalate fields)

def attr (attrs : List (UInt8 × Bytes)) (key : UInt8) : Bytes :=
  (getEntry key attrs).getD []

/-!
## The exchange
-/

def SCRAMProvider.startExchange (p : SCRAMProvider) (random : Bytes)
    (clientFirst : Bytes) : Outcome SCRAMError (SCRAMSession × Bytes) := do
  let clientFirstBare <- stripGS2Header clientFirst
  if clientFirstBare = [] then .error .invalidMessage
  else do
    let attrs <- parseSCRAMAttributes clientFirstBare
    let username := attr attrs 0x6E
    let clientNonce := attr attrs 0x72
    if username = [] ∨ clientNonce = [] then .error .invalidMessage
    else
      match getEntry username p.users with
      | none => .error .invalidCredentials
      | some user =>
      let serverNonce := clientNonce ++ base64 random
      let serverFirst :=
        ascii "r=" ++ serverNonce ++ ascii ",s=" ++ base64 user.salt ++
          ascii ",i=" ++ ascii (toString user.iterations)
      let sess : SCRAMSession :=
        { username := username
          clientNonce := clientNonce
          serverNonce := serverNonce
          salt := user.salt
          iterations := user.iterations
          storedKey := user.storedKey
          serverKey := user.serverKey
          clientFirstBare := clientFirstBare
          serverFirst := serverFirst
          lastClientFinal := []
          authMessage := [] }
      pure (sess, serverFirst)

namespace SCRAMSession

def readClientFinal (s : SCRAMSession) (clientFinal : Bytes) :
    Outcome SCRAMError (Bytes × Bytes) := do
  let attrs <- parseSCRAMAttributes clientFinal
  if attr attrs 0x72 ≠ s.serverNonce then .error .protocolViolation
  else
    let proofB64 := attr attrs 0x70
    if proofB64 = [] then .error .invalidMessage
    else
      match decodeBase64 proofB64 with
      | none => .error .invalidMessage
      | some proof => do
          let withoutProof <- stripProof clientFinal
          pure (proof, withoutProof)

def checkProof (d : Digest) (s : SCRAMSession) (proof : Bytes) :
    Outcome SCRAMError Bytes := do
  let clientSig := d.hmacSHA256 s.storedKey s.authMessage
  let clientKey <- xorBytes proof clientSig
  if d.sha256Sum clientKey ≠ s.storedKey then .error .invalidProof
  else
    let serverSig := d.hmacSHA256 s.serverKey s.authMessage
    pure (ascii "v=" ++ base64 serverSig)

def verifyClientFinal (d : Digest) (s : SCRAMSession) (clientFinal : Bytes) :
    SCRAMSession × Outcome SCRAMError Bytes :=
  match s.readClientFinal clientFinal with
  | .panic => (s, .panic)
  | .error err => (s, .error err)
  | .ok (proof, withoutProof) =>
  let s :=
    { s with
      lastClientFinal := clientFinal
      authMessage :=
        s.clientFirstBare ++ 0x2C :: (s.serverFirst ++ 0x2C :: withoutProof) }
  (s, checkProof d s proof)

end SCRAMSession

/-!
## Attributes
-/

def addAttribute (attrs : List (UInt8 × Bytes)) (field : Bytes) :
    List (UInt8 × Bytes) :=
  match field with
  | key :: _ :: value => setEntry key value attrs
  | _ => attrs

def attributeOf (msg : Bytes) (key : UInt8) : Bytes :=
  attr ((splitOn 0x2C msg).foldl addAttribute []) key

theorem addAttributes_eq (attrs : List (UInt8 × Bytes))
    (fields : List Bytes) :
    addAttributes attrs fields = .ok (fields.foldl addAttribute attrs) := by
  induction fields generalizing attrs with
  | nil => rfl
  | cons field fields ih =>
  rw [List.foldl_cons, addAttributes]
  rcases field with _ | ⟨key, _ | ⟨sign, value⟩⟩
  · exact ih attrs
  · exact ih attrs
  have hlong : ¬ (key :: sign :: value).length < 2 := by
    simp
  rw [if_neg hlong]
  have hslice : Outcome.sliceFrom (key :: sign :: value) 2 =
      (.ok value : Outcome SCRAMError Bytes) := by
    unfold Outcome.sliceFrom
    rw [if_pos (by simp; omega)]
    rfl
  rw [hslice]
  exact ih (setEntry key value attrs)

theorem parseSCRAMAttributes_eq (msg : Bytes) :
    parseSCRAMAttributes msg =
      .ok ((splitOn 0x2C msg).foldl addAttribute []) :=
  addAttributes_eq [] _

theorem isProofField_eq (field : Bytes) :
    isProofField field = .ok (decide ([0x70, 0x3D] <+: field)) := by
  rcases field with _ | ⟨key, _ | ⟨sign, value⟩⟩
  · rfl
  · simp [isProofField]
  have hlong : 2 ≤ (key :: sign :: value).length := by
    simp
  have hkey : Outcome.index (key :: sign :: value) 0 =
      (.ok key : Outcome SCRAMError UInt8) := rfl
  have hsign : Outcome.index (key :: sign :: value) 1 =
      (.ok sign : Outcome SCRAMError UInt8) := rfl
  unfold isProofField
  rw [if_pos hlong, hkey, Outcome.ok_bind]
  by_cases hp : key = 0x70
  · rw [if_pos hp, hsign]
    simp [hp, eq_comm]
  · simp [hp, eq_comm]

theorem otherFields_eq (fields : List Bytes) :
    otherFields fields =
      .ok (fields.filter (fun field => ¬ [0x70, 0x3D] <+: field)) := by
  induction fields with
  | nil => rfl
  | cons field fields ih =>
  rw [otherFields, isProofField_eq, ih]
  by_cases hproof : [0x70, 0x3D] <+: field
  · simp [hproof]
  · simp [hproof]

/-!
## Panics
-/

/-- Neither message of a client makes the server panic. -/
def Survives (d : Digest) (p : SCRAMProvider) (random clientFirst : Bytes)
    (s : SCRAMSession) (clientFinal : Bytes) : Prop :=
  (p.startExchange random clientFirst).Returns ∧
    (s.verifyClientFinal d clientFinal).2.Returns

/-- A proof that comes with the nonce is not longer than a signature. -/
def SCRAMSession.ProofFits (s : SCRAMSession) (clientFinal : Bytes) : Prop :=
  attributeOf clientFinal 0x72 = s.serverNonce ->
    attributeOf clientFinal 0x70 ≠ [] ->
      forall proof, decodeBase64 (attributeOf clientFinal 0x70) = some proof ->
        proof.length ≤ 32

theorem returns_xorBytesFrom_iff {b : Bytes} {i : Nat} {a : Bytes}
    (hi : i ≤ b.length) :
    (xorBytesFrom b i a).Returns <-> i + a.length ≤ b.length := by
  induction a generalizing i with
  | nil => simpa [xorBytesFrom] using hi
  | cons x rest ih =>
  rw [xorBytesFrom, List.length_cons]
  by_cases hlt : i < b.length
  · rw [Outcome.index_natCast hlt, Outcome.ok_bind,
      Outcome.returns_bind_iff, ih (by omega)]
    simp only [Outcome.returns_pure, implies_true, and_true]
    omega
  · rw [Outcome.returns_bind_iff, Outcome.returns_index_iff]
    omega

theorem returns_xorBytes_iff {a b : Bytes} :
    (xorBytes a b).Returns <-> a.length ≤ b.length := by
  unfold xorBytes
  rw [returns_xorBytesFrom_iff (Nat.zero_le _), Nat.zero_add]

theorem returns_stripGS2Header (msg : Bytes) : (stripGS2Header msg).Returns := by
  unfold stripGS2Header
  simp only
  split
  · exact Outcome.returns_pure _
  · exact Outcome.returns_index_iff.mpr (by omega)

theorem returns_startExchange (p : SCRAMProvider) (random clientFirst : Bytes) :
    (p.startExchange random clientFirst).Returns := by
  unfold SCRAMProvider.startExchange
  rw [Outcome.returns_bind_iff]
  refine ⟨returns_stripGS2Header clientFirst, fun clientFirstBare _ => ?_⟩
  rw [parseSCRAMAttributes_eq, Outcome.ok_bind]
  simp only
  split
  · trivial
  split
  · trivial
  · split
    · trivial
    · trivial

theorem readClientFinal_cases (s : SCRAMSession) (clientFinal : Bytes) :
    (exists err, s.readClientFinal clientFinal = .error err ∧
        s.ProofFits clientFinal) ∨
      exists proof withoutProof,
        s.readClientFinal clientFinal = .ok (proof, withoutProof) ∧
          (s.ProofFits clientFinal <-> proof.length ≤ 32) := by
  have hparse := parseSCRAMAttributes_eq clientFinal
  unfold SCRAMSession.readClientFinal SCRAMSession.ProofFits attributeOf
  rw [hparse, Outcome.ok_bind]
  generalize (splitOn 0x2C clientFinal).foldl addAttribute [] = attrs
  by_cases hnonce : attr attrs 0x72 = s.serverNonce
  · rw [if_neg (not_not.mpr hnonce)]
    by_cases hempty : attr attrs 0x70 = []
    · left
      rw [hempty]
      exact ⟨.invalidMessage, rfl, fun _ hne => absurd rfl hne⟩
    cases hdecode : decodeBase64 (attr attrs 0x70) with
    | none =>
      left
      refine ⟨.invalidMessage, ?_, fun _ _ proof hproof => ?_⟩
      · simp only [if_neg hempty, hdecode]
      · cases hproof
    | some proof =>
    right
    refine ⟨proof, [0x2C].intercalate ((splitOn 0x2C clientFinal).filter
      (fun field => ¬ [0x70, 0x3D] <+: field)), ?_, ?_⟩
    · simp only [if_neg hempty, hdecode, stripProof, otherFields_eq,
        Outcome.ok_bind, Outcome.pure_eq]
    constructor
    · intro hfits
      exact hfits hnonce hempty proof rfl
    · rintro hle _ _ proof' hproof
      rw [← Option.some.inj hproof]
      exact hle
  · left
    rw [if_pos hnonce]
    exact ⟨.protocolViolation, rfl, fun hsame => absurd hsame hnonce⟩

theorem returns_checkProof_iff (d : Digest) (s : SCRAMSession)
    (proof : Bytes) :
    (s.checkProof d proof).Returns <-> proof.length ≤ 32 := by
  unfold SCRAMSession.checkProof
  rw [Outcome.returns_bind_iff, returns_xorBytes_iff, d.length_hmacSHA256]
  refine ⟨fun h => h.1, fun h => ⟨h, fun clientKey _ => ?_⟩⟩
  split
  · trivial
  · trivial

theorem returns_verifyClientFinal_iff (d : Digest) (s : SCRAMSession)
    (clientFinal : Bytes) :
    (s.verifyClientFinal d clientFinal).2.Returns <->
      s.ProofFits clientFinal := by
  unfold SCRAMSession.verifyClientFinal
  rcases readClientFinal_cases s clientFinal with
    ⟨err, hread, hfits⟩ | ⟨proof, withoutProof, hread, hfits⟩
  · rw [hread]
    exact ⟨fun _ => hfits, fun _ => trivial⟩
  · rw [hread, hfits]
    exact returns_checkProof_iff d _ proof

/--
The messages of a client make the server panic exactly if a proof is longer than
a signature.
-/
theorem survives_iff_proofFits (d : Digest) (p : SCRAMProvider)
    (random clientFirst : Bytes) (s : SCRAMSession) (clientFinal : Bytes) :
    Survives d p random clientFirst s clientFinal <->
      s.ProofFits clientFinal := by
  unfold Survives
  rw [returns_verifyClientFinal_iff]
  exact ⟨fun h => h.2, fun h => ⟨returns_startExchange p random clientFirst, h⟩⟩

def aliceProvider : SCRAMProvider where
  users :=
    [(ascii "alice",
      { salt := List.replicate 24 0
        iterations := 4096
        storedKey := List.replicate 32 0
        serverKey := List.replicate 32 0 })]

def aliceFirst : Bytes :=
  ascii "n,,n=alice,r=abc"

/-- The session of the user, with zeros for the random bytes. -/
def aliceSession : SCRAMSession where
  username := ascii "alice"
  clientNonce := ascii "abc"
  serverNonce := ascii "abc" ++ List.replicate 32 0x41
  salt := List.replicate 24 0
  iterations := 4096
  storedKey := List.replicate 32 0
  serverKey := List.replicate 32 0
  clientFirstBare := ascii "n=alice,r=abc"
  serverFirst :=
    ascii "r=abc" ++ List.replicate 32 0x41 ++ ascii ",s=" ++
      List.replicate 32 0x41 ++ ascii ",i=4096"
  lastClientFinal := []
  authMessage := []

def clientFinalWith (nonce proof : Bytes) : Bytes :=
  ascii "c=biws,r=" ++ nonce ++ ascii ",p=" ++ base64 proof

/-- A proof of 33 bytes makes the server panic, whatever the digest is. -/
theorem not_survives_longProof :
    aliceProvider.startExchange (List.replicate 24 0) aliceFirst =
        .ok (aliceSession, aliceSession.serverFirst) ∧
      ¬ exists d, Survives d aliceProvider (List.replicate 24 0) aliceFirst
        aliceSession
        (clientFinalWith aliceSession.serverNonce (List.replicate 33 0)) := by
  refine ⟨by decide +kernel, ?_⟩
  rintro ⟨d, hsurvives⟩
  have hfits := (returns_verifyClientFinal_iff d aliceSession _).mp hsurvives.2
  have hproof : attributeOf
      (clientFinalWith aliceSession.serverNonce (List.replicate 33 0)) 0x70 =
        base64 (List.replicate 33 0) := by
    decide +kernel
  have hlength := hfits (by decide +kernel) (by rw [hproof]; decide)
    (List.replicate 33 0) (by rw [hproof, decodeBase64_base64])
  rw [List.length_replicate] at hlength
  omega

end Auth
end ChimeraMQ
