import ChimeraMQ.Foundation.Bytes
import ChimeraMQ.Foundation.Entries
import ChimeraMQ.Foundation.Run

/-!
# Encryption of segments

An encryptor has a ring of keys, numbers them as they come, and writes the
number of the key before what it encrypts.  The cipher is a parameter: what is
assumed of it is that a text opens under its key, nonce and segment, and under
no other key.  The random nonces come from outside.
-/

namespace ChimeraMQ
namespace Storage

open Foundation

def keyLength : Nat := 32

def nonceSize : Nat := 12

def tagSize : Nat := 16

abbrev Key := { b : Bytes // b.length = keyLength }

abbrev Nonce := { b : Bytes // b.length = nonceSize }

structure Aead where
  sealText : Key -> Nonce -> Bytes -> Bytes -> Bytes
  openText : Key -> Nonce -> Bytes -> Bytes -> Option Bytes
  opens : forall key nonce plaintext aad,
    openText key nonce (sealText key nonce plaintext aad) aad = some plaintext
  other : forall key key' nonce plaintext aad, key' ≠ key ->
    openText key' nonce (sealText key nonce plaintext aad) aad = none
  tagged : forall key nonce plaintext aad,
    plaintext.length + tagSize ≤ (sealText key nonce plaintext aad).length

def weakKeyPatterns : List Bytes :=
  [List.replicate 8 0x00, List.replicate 8 0xFF, List.replicate 8 0xAA,
    List.replicate 8 0x55, [0x01, 0x02, 0x03, 0x04, 0x05, 0x06, 0x07, 0x08],
    [0x00, 0x01, 0x02, 0x03, 0x04, 0x05, 0x06, 0x07]]

inductive KeyError where
  | notRead
  | wrongLength
  | weakKey
  | fipsLength
deriving DecidableEq

def containsPattern (data pattern : Bytes) : Bool :=
  if pattern.length > data.length then false
  else
    (List.range (data.length - pattern.length + 1)).any
      (fun i => (data.drop i).take pattern.length == pattern)

def validateKey (key : Bytes) : Except KeyError Unit :=
  if key.length ≠ keyLength then .error .wrongLength
  else if weakKeyPatterns.any (containsPattern key) then .error .weakKey
  else if key.tail.all (fun b => key.head? == some b) then .error .weakKey
  else if key.dedup.length < 16 then .error .weakKey
  else .ok ()

def readKey (file : Option Bytes) : Except KeyError Key :=
  match file with
  | none => .error .notRead
  | some data =>
  if hlength : data.length = keyLength then
    match validateKey data with
    | .error e => .error e
    | .ok _ => .ok ⟨data, hlength⟩
  else .error .wrongLength

/-!
## The encryptor
-/

structure Encryptor where
  keys : List (UInt32 × Key)
  keyID : UInt32
  active : (getEntry keyID keys).isSome
deriving DecidableEq

namespace Encryptor

def key (enc : Encryptor) : Key :=
  (getEntry enc.keyID enc.keys).get enc.active

def addKey (keys : List (UInt32 × Key)) (keyID : UInt32) (k : Key) :
    Encryptor where
  keys := setEntry keyID k keys
  keyID := keyID
  active := by rw [getEntry_setEntry]; rfl

end Encryptor

def newEncryptor (fips : Bool) (file : Option Bytes) :
    Except KeyError Encryptor :=
  match readKey file with
  | .error e => .error e
  | .ok k =>
    if fips = true ∧ k.val.length ≠ keyLength then .error .fipsLength
    else .ok (.addKey [] 0 k)

inductive DecryptError where
  | badCiphertext
  | noKey (keyID : UInt32)
  | authFailed
deriving DecidableEq

namespace Encryptor

def encrypt (enc : Encryptor) (a : Aead) (nonce : Nonce)
    (plaintext segmentID : Bytes) : Bytes :=
  be 4 enc.keyID.toNat ++ nonce.val ++
    a.sealText enc.key nonce plaintext segmentID

def decrypt (enc : Encryptor) (a : Aead) (ciphertext segmentID : Bytes) :
    Except DecryptError Bytes :=
  if hshort : ciphertext.length < 4 + nonceSize + tagSize then
    .error .badCiphertext
  else
    let keyID := UInt32.ofNat (ofBe (ciphertext.take 4))
    match getEntry keyID enc.keys with
    | none => .error (.noKey keyID)
    | some k =>
    let nonce : Nonce := ⟨(ciphertext.drop 4).take nonceSize, by
      rw [List.length_take, List.length_drop]
      omega⟩
    match a.openText k nonce (ciphertext.drop (4 + nonceSize))
      segmentID with
    | none => .error .authFailed
    | some plaintext => .ok plaintext

def rotateKey (enc : Encryptor) (file : Option Bytes) :
    Except KeyError Encryptor :=
  match readKey file with
  | .error e => .error e
  | .ok k => .ok (.addKey enc.keys (enc.keyID + 1) k)

@[simp] theorem key_addKey (keys : List (UInt32 × Key)) (keyID : UInt32)
    (k : Key) : (addKey keys keyID k).key = k := by
  simp [key, addKey, getEntry_setEntry]

@[simp] theorem keys_addKey (keys : List (UInt32 × Key)) (keyID : UInt32)
    (k : Key) : (addKey keys keyID k).keys = setEntry keyID k keys := rfl

theorem getEntry_keyID (enc : Encryptor) :
    getEntry enc.keyID enc.keys = some enc.key := by
  unfold key
  rw [Option.some_get]

end Encryptor

theorem newEncryptor_eq (fips : Bool) (file : Option Bytes) :
    newEncryptor fips file = (readKey file).map (Encryptor.addKey [] 0) := by
  unfold newEncryptor
  cases readKey file with
  | error e => rfl
  | ok k =>
  simp only
  rw [if_neg (fun h => h.right k.property)]
  rfl

theorem Encryptor.rotateKey_eq (enc : Encryptor) (file : Option Bytes) :
    enc.rotateKey file =
      (readKey file).map (addKey enc.keys (enc.keyID + 1)) := by
  unfold rotateKey
  cases readKey file with
  | error e => rfl
  | ok k => rfl

/-!
## What was encrypted
-/

structure Sealed where
  key : Key
  keyID : UInt32
  text : Bytes
  segmentID : Bytes
  plaintext : Bytes

def Sealed.Made (a : Aead) (c : Sealed) : Prop :=
  exists nonce : Nonce, c.text = be 4 c.keyID.toNat ++ nonce.val ++
    a.sealText c.key nonce c.plaintext c.segmentID

theorem Sealed.Made.decrypt_iff {a : Aead} {c : Sealed} (h : c.Made a)
    (enc : Encryptor) :
    enc.decrypt a c.text c.segmentID = .ok c.plaintext <->
      getEntry c.keyID enc.keys = some c.key := by
  rcases h with ⟨nonce, htext⟩
  have htagged := a.tagged c.key nonce c.plaintext c.segmentID
  have hnonce := nonce.property
  have htake : c.text.take 4 = be 4 c.keyID.toNat := by
    rw [htext, List.append_assoc]
    exact List.take_left' (length_be ..)
  have hdrop : c.text.drop 4 = nonce.val ++
      a.sealText c.key nonce c.plaintext c.segmentID := by
    rw [htext, List.append_assoc]
    exact List.drop_left' (length_be ..)
  have hnonceOf : (c.text.drop 4).take nonceSize = nonce.val := by
    rw [hdrop]
    exact List.take_left' hnonce
  have hsealed : c.text.drop (4 + nonceSize) =
      a.sealText c.key nonce c.plaintext c.segmentID := by
    rw [← List.drop_drop, hdrop]
    exact List.drop_left' hnonce
  have hlong : ¬ c.text.length < 4 + nonceSize + tagSize := by
    rw [htext, List.length_append, List.length_append, length_be, hnonce]
    omega
  have hid : UInt32.ofNat (ofBe (c.text.take 4)) = c.keyID := by
    rw [htake, ofBe_be_of_lt c.keyID.toNat_lt, UInt32.ofNat_toNat]
  unfold Encryptor.decrypt
  rw [dif_neg hlong]
  simp only [hid, hnonceOf, hsealed]
  cases hget : getEntry c.keyID enc.keys with
  | none => simp
  | some k =>
  by_cases hkey : k = c.key
  · simp [hkey, a.opens]
  · simp [hkey, a.other c.key k nonce c.plaintext c.segmentID hkey]

/-!
## Lives of an encryptor
-/

structure KeyHistory where
  enc : Encryptor
  file : Option Bytes
  /-- The keys that were loaded in this process. -/
  loaded : List Key
  /-- What was encrypted in this process and the earlier ones. -/
  produced : List Sealed

/-- What happens to an encryptor; a rotation comes with the new key file. -/
inductive KeyAction where
  | encrypt (nonce : Nonce) (plaintext segmentID : Bytes)
  | rotateKey (file : Option Bytes)
  | restart
deriving DecidableEq

namespace KeyHistory

def start (file : Option Bytes) (enc : Encryptor) (produced : List Sealed) :
    KeyHistory where
  enc := enc
  file := file
  loaded := [enc.key]
  produced := produced

def step (a : Aead) (fips : Bool) (h : KeyHistory) :
    KeyAction -> Option KeyHistory
  | .encrypt nonce plaintext segmentID =>
    some { h with
      produced := h.produced ++ [{
        key := h.enc.key
        keyID := h.enc.keyID
        text := h.enc.encrypt a nonce plaintext segmentID
        segmentID := segmentID
        plaintext := plaintext }] }
  | .rotateKey file =>
    match h.enc.rotateKey file with
    | .error _ => some h
    | .ok enc =>
    some { h with
      enc := enc
      file := file
      loaded := h.loaded ++ [enc.key] }
  | .restart =>
    match newEncryptor fips h.file with
    | .error _ => none
    | .ok enc => some (start h.file enc h.produced)

/-- Everything encrypted under a key that was loaded since is decrypted. -/
def Decryptable (a : Aead) (h : KeyHistory) : Prop :=
  forall c, c ∈ h.produced -> c.key ∈ h.loaded ->
    h.enc.decrypt a c.text c.segmentID = .ok c.plaintext

instance decidableDecryptable (a : Aead) (h : KeyHistory) :
    Decidable (Decryptable a h) :=
  inferInstanceAs (Decidable (forall c, c ∈ h.produced -> _ -> _))

/--
A key that is loaded gets the number under which it was used before, and takes
no number from another key that was used under it.
-/
def KeepsNumbers (h : KeyHistory) : KeyAction -> Prop
  | .encrypt _ _ _ => True
  | .rotateKey file =>
    match readKey file with
    | .error _ => True
    | .ok k =>
    (forall c, c ∈ h.produced -> c.key = k ->
      c.keyID = h.enc.keyID + 1 ∨
        getEntry c.keyID h.enc.keys = some k) ∧
    (forall c, c ∈ h.produced -> c.key ∈ h.loaded ->
      c.keyID = h.enc.keyID + 1 -> c.key = k)
  | .restart =>
    match readKey h.file with
    | .error _ => True
    | .ok k => forall c, c ∈ h.produced -> c.key = k -> c.keyID = 0

instance decidableKeepsNumbers (h : KeyHistory) (action : KeyAction) :
    Decidable (KeepsNumbers h action) := by
  unfold KeepsNumbers
  split
  · exact inferInstance
  · split
    · exact inferInstance
    · exact inferInstance
  · split
    · exact inferInstance
    · exact inferInstance

structure Inv (a : Aead) (h : KeyHistory) : Prop where
  made : forall c, c ∈ h.produced -> c.Made a
  current : h.enc.key ∈ h.loaded
  file : exists k, readKey h.file = .ok k

def SameNumbers (h : KeyHistory) : Prop :=
  forall c, c ∈ h.produced -> c.key ∈ h.loaded ->
    getEntry c.keyID h.enc.keys = some c.key

variable {a : Aead} {fips : Bool} {h h' : KeyHistory}

theorem Inv.decryptable_iff (hinv : Inv a h) :
    Decryptable a h <-> SameNumbers h := by
  constructor
  · intro hdecrypts c hc hloaded
    exact ((hinv.made c hc).decrypt_iff h.enc).mp (hdecrypts c hc hloaded)
  · intro hsame c hc hloaded
    exact ((hinv.made c hc).decrypt_iff h.enc).mpr (hsame c hc hloaded)

theorem Inv.encrypt (hinv : Inv a h) (hgood : SameNumbers h) {nonce : Nonce}
    {plaintext segmentID : Bytes}
    (hstep : step a fips h (.encrypt nonce plaintext segmentID) = some h') :
    Inv a h' ∧ SameNumbers h' := by
  cases hstep
  constructor
  · constructor
    · intro c hc
      rcases List.mem_append.mp hc with hold | hnew
      · exact hinv.made c hold
      · rw [List.mem_singleton.mp hnew]
        exact ⟨nonce, rfl⟩
    · exact hinv.current
    · exact hinv.file
  · intro c hc hloaded
    rcases List.mem_append.mp hc with hold | hnew
    · exact hgood c hold hloaded
    · rw [List.mem_singleton.mp hnew]
      exact h.enc.getEntry_keyID

theorem sameNumbers_addKey (hgood : SameNumbers h) (k : Key)
    (file : Option Bytes) :
    SameNumbers { h with
        enc := .addKey h.enc.keys (h.enc.keyID + 1) k
        file := file
        loaded := h.loaded ++ [k] } <->
      (forall c, c ∈ h.produced -> c.key = k ->
        c.keyID = h.enc.keyID + 1 ∨ getEntry c.keyID h.enc.keys = some k) ∧
      (forall c, c ∈ h.produced -> c.key ∈ h.loaded ->
        c.keyID = h.enc.keyID + 1 -> c.key = k) := by
  constructor
  · intro hnext
    constructor
    · intro c hc hkey
      have hentry := hnext c hc (by rw [hkey]; simp)
      by_cases hid : c.keyID = h.enc.keyID + 1
      · exact Or.inl hid
      · rw [Encryptor.keys_addKey, getEntry_setEntry_ne hid, hkey] at hentry
        exact Or.inr hentry
    intro c hc hloaded hid
    have hentry := hnext c hc (List.mem_append_left _ hloaded)
    rw [Encryptor.keys_addKey, hid, getEntry_setEntry,
      Option.some.injEq] at hentry
    exact hentry.symm
  rintro ⟨hused, htaken⟩ c hc hloaded
  rw [Encryptor.keys_addKey]
  rcases List.mem_append.mp hloaded with hold | hnew
  · by_cases hid : c.keyID = h.enc.keyID + 1
    · rw [hid, getEntry_setEntry, htaken c hc hold hid]
    · rw [getEntry_setEntry_ne hid]
      exact hgood c hc hold
  have hkey := List.mem_singleton.mp hnew
  by_cases hid : c.keyID = h.enc.keyID + 1
  · rw [hid, getEntry_setEntry, hkey]
  rw [getEntry_setEntry_ne hid, hkey]
  rcases hused c hc hkey with hsame | hentry
  · exact absurd hsame hid
  · exact hentry

theorem Inv.rotateKey (hinv : Inv a h) (hgood : SameNumbers h)
    {file : Option Bytes} (hstep : step a fips h (.rotateKey file) = some h') :
    Inv a h' ∧ (SameNumbers h' <-> KeepsNumbers h (.rotateKey file)) := by
  simp only [step, Encryptor.rotateKey_eq] at hstep
  simp only [KeepsNumbers]
  cases hread : readKey file with
  | error e =>
    rw [hread] at hstep
    cases hstep
    exact ⟨hinv, iff_of_true hgood trivial⟩
  | ok k =>
  rw [hread] at hstep
  simp only [Except.map, Encryptor.key_addKey, Option.some.injEq] at hstep
  subst hstep
  constructor
  · constructor
    · exact hinv.made
    · simp
    · exact ⟨k, hread⟩
  · exact sameNumbers_addKey hgood k file

theorem Inv.restart (hinv : Inv a h)
    (hstep : step a fips h .restart = some h') :
    Inv a h' ∧ (SameNumbers h' <-> KeepsNumbers h .restart) := by
  rcases hinv.file with ⟨k, hread⟩
  simp only [step, newEncryptor_eq, hread, Except.map,
    Option.some.injEq] at hstep
  simp only [KeepsNumbers, hread]
  subst hstep
  constructor
  · constructor
    · exact hinv.made
    · exact List.mem_singleton_self _
    · exact ⟨k, hread⟩
  constructor
  · intro hnext c hc hkey
    have hentry := hnext c hc (by simp [start, hkey])
    simp only [start, Encryptor.keys_addKey] at hentry
    by_cases hid : c.keyID = 0
    · exact hid
    · rw [getEntry_setEntry_ne hid] at hentry
      cases hentry
  · intro hzero c hc hloaded
    simp only [start, Encryptor.key_addKey, List.mem_singleton] at hloaded
    simp only [start, Encryptor.keys_addKey]
    rw [hzero c hc hloaded, getEntry_setEntry, hloaded]

theorem Inv.step (hinv : Inv a h) (hgood : SameNumbers h) {action : KeyAction}
    (hstep : step a fips h action = some h') :
    Inv a h' ∧ (SameNumbers h' <-> KeepsNumbers h action) := by
  cases action with
  | encrypt nonce plaintext segmentID =>
    rcases hinv.encrypt hgood hstep with ⟨hinv', hgood'⟩
    exact ⟨hinv', iff_of_true hgood' trivial⟩
  | rotateKey file => exact hinv.rotateKey hgood hstep
  | restart => exact hinv.restart hstep

theorem Inv.possible (hinv : Inv a h) (fips : Bool) (action : KeyAction) :
    exists h', KeyHistory.step a fips h action = some h' := by
  cases action with
  | encrypt nonce plaintext segmentID => exact ⟨_, rfl⟩
  | rotateKey file =>
    cases hrotate : h.enc.rotateKey file with
    | error e =>
      refine ⟨h, ?_⟩
      simp only [KeyHistory.step, hrotate]
    | ok enc =>
    refine ⟨{ h with
      enc := enc
      file := file
      loaded := h.loaded ++ [enc.key] }, ?_⟩
    simp only [KeyHistory.step, hrotate]
  | restart =>
  rcases hinv.file with ⟨k, hread⟩
  refine ⟨start h.file (.addKey [] 0 k) h.produced, ?_⟩
  simp only [KeyHistory.step, newEncryptor_eq, hread, Except.map]

theorem inv_start {file : Option Bytes} {enc : Encryptor}
    (hnew : newEncryptor fips file = .ok enc) : Inv a (start file enc []) where
  made := by
    intro c hc
    cases hc
  current := List.mem_singleton_self _
  file := by
    rw [newEncryptor_eq] at hnew
    cases hread : readKey file with
    | error e =>
      rw [hread] at hnew
      cases hnew
    | ok k => exact ⟨k, hread⟩

/--
All along a run everything encrypted under a key loaded in the process is
decrypted, exactly if every key is loaded under the number it was used with.
-/
theorem decryptable_iff_keepsNumbers {file : Option Bytes} {enc : Encryptor}
    (hnew : newEncryptor fips file = .ok enc) (actions : List KeyAction) :
    (forall front, front <+: actions -> forall h,
      run? (step a fips) (start file enc []) front = some h ->
        Decryptable a h) <->
      Meets (step a fips) KeepsNumbers (start file enc []) actions := by
  have hkeep : forall (n : Nat) (h : KeyHistory) (action : KeyAction) h',
      n < actions.length -> Inv a h ∧ SameNumbers h ->
      KeepsNumbers h action -> step a fips h action = some h' ->
        Inv a h' ∧ SameNumbers h' := by
    intro _ h action h' _ hboth hkeeps hone
    rcases hboth.left.step hboth.right hone with ⟨hinv, hiff⟩
    exact ⟨hinv, hiff.mpr hkeeps⟩
  have hbreak : forall (n : Nat) (h : KeyHistory) (action : KeyAction),
      n < actions.length -> Inv a h ∧ SameNumbers h ->
      ¬ KeepsNumbers h action ->
        exists h', step a fips h action = some h' ∧ ¬ Decryptable a h' := by
    intro _ h action _ hboth hnot
    rcases hboth.left.possible fips action with ⟨h', hone⟩
    rcases hboth.left.step hboth.right hone with ⟨hinv, hiff⟩
    refine ⟨h', hone, ?_⟩
    rw [hinv.decryptable_iff, hiff]
    exact hnot
  apply @run?_always_iff_meets KeyHistory KeyAction (step a fips) KeepsNumbers
    (fun _ h => Inv a h ∧ SameNumbers h) (Decryptable a) actions.length
    (fun _ _ hboth => hboth.left.decryptable_iff.mpr hboth.right) hkeep hbreak
    0
  · constructor
    · exact inv_start hnew
    · intro c hc
      cases hc
  · omega

end KeyHistory

/-!
## A rotation and a restart
-/

def plainAead : Aead where
  sealText := fun key _ plaintext _ => key.val ++ plaintext
  openText := fun key _ text _ =>
    if text.take keyLength = key.val then some (text.drop keyLength) else none
  opens := by
    intro key nonce plaintext aad
    rw [List.take_left' key.property, if_pos rfl, List.drop_left' key.property]
  other := by
    intro key key' nonce plaintext aad hne
    rw [List.take_left' key.property, if_neg]
    intro heq
    exact hne (Subtype.ext heq.symm)
  tagged := by
    intro key nonce plaintext aad
    rw [List.length_append, key.property]
    simp only [keyLength, tagSize]
    omega

def variedKey (first : Nat) : Bytes :=
  (List.range keyLength).map (fun i => UInt8.ofNat (first + 7 * i))

def zeroNonce : Nonce :=
  ⟨List.replicate nonceSize 0, by decide⟩

namespace KeyHistory

def rotatedAfterUse : List KeyAction :=
  [.encrypt zeroNonce [1] [], .rotateKey (some (variedKey 5)), .restart,
    .encrypt zeroNonce [2] []]

def usedAfterRotation : List KeyAction :=
  [.rotateKey (some (variedKey 5)), .encrypt zeroNonce [1] [], .restart]

theorem decryptable_rotatedAfterUse :
    exists enc, newEncryptor false (some (variedKey 3)) = .ok enc ∧
      forall front, front <+: rotatedAfterUse -> forall h,
        run? (step plainAead false) (start (some (variedKey 3)) enc []) front =
          some h -> Decryptable plainAead h := by
  have hnew : newEncryptor false (some (variedKey 3)) =
      .ok (.addKey [] 0 ⟨variedKey 3, by decide⟩) := by
    decide +kernel
  refine ⟨_, hnew, (decryptable_iff_keepsNumbers hnew rotatedAfterUse).mpr ?_⟩
  decide +kernel

/-- The key that was number one is number zero in the next process. -/
theorem not_decryptable_usedAfterRotation :
    exists enc, newEncryptor false (some (variedKey 3)) = .ok enc ∧
      exists h, run? (step plainAead false)
          (start (some (variedKey 3)) enc []) usedAfterRotation = some h ∧
        ¬ Decryptable plainAead h := by
  have hnew : newEncryptor false (some (variedKey 3)) =
      .ok (.addKey [] 0 ⟨variedKey 3, by decide⟩) := by
    decide +kernel
  have hcheck : (run? (step plainAead false) (start (some (variedKey 3))
      (.addKey [] 0 ⟨variedKey 3, by decide⟩) []) usedAfterRotation).map
        (fun h => decide (Decryptable plainAead h)) = some false := by
    decide +kernel
  rcases Option.map_eq_some_iff.mp hcheck with ⟨h, hrun, hfalse⟩
  exact ⟨_, hnew, h, hrun, of_decide_eq_false hfalse⟩

end KeyHistory

end Storage
end ChimeraMQ
