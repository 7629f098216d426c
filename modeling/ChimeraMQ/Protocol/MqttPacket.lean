import ChimeraMQ.Foundation.Reading

/-!
# Packets of MQTT

A packet is a byte with its type and flags, the length of the rest in groups of
seven bits, and the rest.  What a PUBLISH packet carries depends on the quality
of service in its flags: a packet id is written for the higher ones only.
-/

namespace ChimeraMQ
namespace Mqtt

open Foundation

def packetPublish : UInt8 := 3

def maxRemaining : Nat := 16 * 1024 * 1024

structure Packet where
  type : UInt8
  flags : UInt8
  remaining : Bytes
  packetID : UInt16
deriving DecidableEq

/-- Why a packet cannot be read. -/
inductive PacketError where
  | stream (err : StreamError)
  | tooLarge (remaining : Nat)
  | lengthExceeds
deriving DecidableEq

def remainingLengthLoop : Nat -> Nat -> Nat -> Reader PacketError Nat
  | 0, _, _ => Reader.fail .lengthExceeds
  | k + 1, value, multiplier => do
      let b <- takeByte (.stream .eof)
      let value := value + (b &&& 0x7F).toNat * multiplier
      if b &&& 0x80 = 0 then pure value
      else remainingLengthLoop k value (multiplier * 128)

def readRemainingLength : Reader PacketError Nat :=
  remainingLengthLoop 4 0 1

def readPacket : Reader PacketError Packet := do
  let header <- takeByte (.stream .eof)
  let remaining <- readRemainingLength
  if remaining > maxRemaining then Reader.fail (.tooLarge remaining)
  else do
    let data <- readFull .stream remaining
    pure
      { type := header >>> 4
        flags := header &&& 0x0F
        remaining := data
        packetID := 0 }

/--
The loop that writes a length into the places that are left; one that needs
more of them is out of range.
-/
def lengthBytes : Nat -> Nat -> Option Bytes
  | 0, _ => none
  | k + 1, length =>
    let b := UInt8.ofNat (length % 128)
    if length / 128 > 0 then
      (lengthBytes k (length / 128)).map (fun rest => (b ||| 0x80) :: rest)
    else some [b]

def writeRemainingLength (length : Nat) : Option Bytes :=
  lengthBytes 4 length

def writePacket (pktType flags : UInt8) (data : Bytes) : Option Bytes :=
  (writeRemainingLength data.length).map (fun length =>
    (pktType <<< 4 ||| flags) :: (length ++ data))

/-!
## Publishing
-/

structure PublishPayload where
  topic : Bytes
  payload : Bytes
  qos : UInt8
  retain : Bool
  dup : Bool
  packetID : UInt16
deriving DecidableEq

def readUint16 : Reader StreamError UInt16 :=
  UInt16.ofNat <$> takeBe (fun _ => .unexpectedEOF) 2

def readString : Reader StreamError Bytes := do
  let length <- readUint16
  takeBytes (fun _ => .unexpectedEOF) length.toNat

def readPublishID (qos : UInt8) : Reader StreamError UInt16 :=
  if qos > 0 then readUint16 else pure 0

def readPublish (flags : UInt8) : Reader StreamError PublishPayload := do
  let topic <- readString
  let qos := (flags >>> 1) &&& 0x03
  let packetID <- readPublishID qos
  let payload <- get
  pure
    { topic := topic
      payload := payload
      qos := qos
      retain := flags &&& 0x01 ≠ 0
      dup := flags &&& 0x08 ≠ 0
      packetID := packetID }

def parsePublish (pkt : Packet) : Except StreamError PublishPayload :=
  (readPublish pkt.flags pkt.remaining).map Prod.fst

def encodeString (s : Bytes) : Bytes :=
  be 2 s.length ++ s

def buildPublish (topic payload : Bytes) (qos : UInt8) (retain : Bool)
    (packetID : UInt16) : UInt8 × Bytes :=
  let flags := qos <<< 1
  let flags := if retain then flags ||| 0x01 else flags
  let buf := encodeString topic
  let buf := if qos > 0 then buf ++ be 2 packetID.toNat else buf
  (flags, buf ++ payload)

def publishPacket (topic payload : Bytes) (qos : UInt8) (retain : Bool)
    (packetID : UInt16) : Packet where
  type := packetPublish
  flags := (buildPublish topic payload qos retain packetID).1
  remaining := (buildPublish topic payload qos retain packetID).2
  packetID := 0

def PacketReadsBack (pktType flags : UInt8) (body : Bytes) : Prop :=
  exists enc, writePacket pktType flags body = some enc ∧
    Reads readPacket enc
      { type := pktType
        flags := flags
        remaining := body
        packetID := 0 }

def PublishReadsBack (topic payload : Bytes) (qos : UInt8) (retain : Bool)
    (packetID : UInt16) : Prop :=
  parsePublish (publishPacket topic payload qos retain packetID) =
    .ok
      { topic := topic
        payload := payload
        qos := qos
        retain := retain
        dup := false
        packetID := packetID }

/-!
## The length of the rest
-/

theorem sevenBits {n : Nat} (hn : n < 128) :
    (UInt8.ofNat n &&& 0x7F).toNat = n ∧ UInt8.ofNat n &&& 0x80 = 0 ∧
      ((UInt8.ofNat n ||| 0x80) &&& 0x7F).toNat = n ∧
      ¬ (UInt8.ofNat n ||| 0x80) &&& 0x80 = 0 := by
  revert n
  decide +kernel

theorem exists_lengthBytes {k n : Nat} (hn : n < 128 ^ (k + 1)) :
    exists enc, lengthBytes (k + 1) n = some enc := by
  induction k generalizing n with
  | zero =>
    have hlast : ¬ n / 128 > 0 := by omega
    rw [lengthBytes]
    simp only [if_neg hlast]
    exact ⟨_, rfl⟩
  | succ k ih =>
  rw [lengthBytes]
  by_cases hmore : n / 128 > 0
  · have hrest : n / 128 < 128 ^ (k + 1) := by
      rw [Nat.pow_succ] at hn
      omega
    rcases ih hrest with ⟨enc, henc⟩
    simp only [if_pos hmore, henc]
    exact ⟨_, rfl⟩
  · simp only [if_neg hmore]
    exact ⟨_, rfl⟩

theorem reads_remainingLengthLoop {k n : Nat} {enc : Bytes}
    (h : lengthBytes k n = some enc) (value multiplier : Nat) :
    Reads (remainingLengthLoop k value multiplier) enc
      (value + n * multiplier) := by
  induction k generalizing n enc value multiplier with
  | zero => cases h
  | succ k ih =>
  have hbits := sevenBits (Nat.mod_lt n (by omega : 0 < 128))
  unfold lengthBytes at h
  unfold remainingLengthLoop
  by_cases hmore : n / 128 > 0
  · simp only [if_pos hmore, Option.map_eq_some_iff] at h
    rcases h with ⟨rest, hrest, henc⟩
    have hnext := ih hrest (value + n % 128 * multiplier) (multiplier * 128)
    have hsum : value + n % 128 * multiplier + n / 128 * (multiplier * 128) =
        value + n * multiplier := by
      conv_rhs => rw [← Nat.mod_add_div n 128]
      ring
    rw [hsum] at hnext
    rw [← henc]
    refine (reads_takeByte _ _).bind ?_
    simp only [hbits.right.right.left, if_neg hbits.right.right.right]
    exact hnext
  · simp only [if_neg hmore] at h
    have hsmall : n % 128 = n := by omega
    cases h
    refine (reads_takeByte _ _).bind_pure ?_
    simp only [hbits.left, if_pos hbits.right.left]
    rw [hsmall]
    exact Reads.pure _

theorem reads_readRemainingLength {n : Nat} {enc : Bytes}
    (h : writeRemainingLength n = some enc) :
    Reads readRemainingLength enc n := by
  have hloop := reads_remainingLengthLoop h 0 1
  rwa [Nat.zero_add, Nat.mul_one] at hloop

/-!
## Packets
-/

theorem header_halves {pktType flags : UInt8} (htype : pktType < 16)
    (hflags : flags < 16) :
    (pktType <<< 4 ||| flags) >>> 4 = pktType ∧
      (pktType <<< 4 ||| flags) &&& 0x0F = flags := by
  have hall : forall t, t < 16 -> forall f, f < 16 ->
      (UInt8.ofNat t <<< 4 ||| UInt8.ofNat f) >>> 4 = UInt8.ofNat t ∧
        (UInt8.ofNat t <<< 4 ||| UInt8.ofNat f) &&& 0x0F = UInt8.ofNat f := by
    decide +kernel
  have h := hall pktType.toNat (UInt8.lt_iff_toNat_lt.mp htype) flags.toNat
    (UInt8.lt_iff_toNat_lt.mp hflags)
  rwa [UInt8.ofNat_toNat, UInt8.ofNat_toNat] at h

theorem packetReadsBack {pktType flags : UInt8} (htype : pktType < 16)
    (hflags : flags < 16) {body : Bytes} (hbody : body.length ≤ maxRemaining) :
    PacketReadsBack pktType flags body := by
  have hfits : body.length < 128 ^ (3 + 1) := by
    unfold maxRemaining at hbody
    omega
  rcases exists_lengthBytes hfits with ⟨len, hlen⟩
  have hhalves := header_halves htype hflags
  refine ⟨(pktType <<< 4 ||| flags) :: (len ++ body), ?_, ?_⟩
  · unfold writePacket writeRemainingLength
    rw [hlen]
    rfl
  unfold readPacket
  refine (reads_takeByte _ _).bind ?_
  refine (reads_readRemainingLength hlen).bind ?_
  rw [if_neg (Nat.not_lt.mpr hbody), hhalves.left, hhalves.right]
  exact (reads_takeBytes _ body).bind_pure (Reads.pure _)

/-!
## Messages
-/

theorem reads_readUint16 (n : UInt16) : Reads readUint16 (be 2 n.toNat) n := by
  have hlt : n.toNat < 256 ^ 2 := UInt16.toNat_lt n
  have hread := (reads_takeBe_of_lt (fun _ => StreamError.unexpectedEOF)
    hlt).map UInt16.ofNat
  rwa [UInt16.ofNat_toNat] at hread

theorem reads_readString {s : Bytes} (hs : s.length ≤ 65535) :
    Reads readString (encodeString s) s := by
  have hlength : (UInt16.ofNat s.length).toNat = s.length := by
    rw [UInt16.toNat_ofNat']
    omega
  have hread := reads_readUint16 (UInt16.ofNat s.length)
  rw [hlength] at hread
  refine hread.bind ?_
  rw [hlength]
  exact reads_takeBytes _ s

theorem publish_flags {qos : UInt8} (hqos : qos ≤ 2) (retain : Bool) :
    let flags := if retain then qos <<< 1 ||| 0x01 else qos <<< 1
    (flags >>> 1) &&& 0x03 = qos ∧
      decide (flags &&& 0x01 ≠ 0) = retain ∧ flags &&& 0x08 = 0 := by
  have hall : forall q, q < 3 -> forall r : Bool,
      let flags := if r then UInt8.ofNat q <<< 1 ||| 0x01
        else UInt8.ofNat q <<< 1
      (flags >>> 1) &&& 0x03 = UInt8.ofNat q ∧
        decide (flags &&& 0x01 ≠ 0) = r ∧ flags &&& 0x08 = 0 := by
    decide +kernel
  have hlt : qos.toNat < 3 := by
    have hle := UInt8.le_iff_toNat_le.mp hqos
    exact Nat.lt_succ_of_le hle
  have h := hall qos.toNat hlt retain
  rwa [UInt8.ofNat_toNat] at h

theorem readPublish_ok {flags qos : UInt8}
    (hqos : (flags >>> 1) &&& 0x03 = qos) {topic enc rest : Bytes}
    (htopic : topic.length ≤ 65535) {packetID : UInt16}
    (hid : Reads (readPublishID qos) enc packetID) :
    readPublish flags (encodeString topic ++ (enc ++ rest)) =
      .ok
        ({ topic := topic
           payload := rest
           qos := qos
           retain := flags &&& 0x01 ≠ 0
           dup := flags &&& 0x08 ≠ 0
           packetID := packetID }, rest) := by
  unfold readPublish
  rw [Reader.bind_ok (reads_readString htopic _)]
  simp only [hqos]
  rw [Reader.bind_ok (hid rest)]
  rfl

theorem parsePublish_publishPacket {topic : Bytes} (htopic : topic.length ≤ 65535)
    (payload : Bytes) {qos : UInt8} (hqos : qos ≤ 2) (retain : Bool)
    (packetID : UInt16) :
    parsePublish (publishPacket topic payload qos retain packetID) =
      .ok
        { topic := topic
          payload := payload
          qos := qos
          retain := retain
          dup := false
          packetID := if qos > 0 then packetID else 0 } := by
  have hflags := publish_flags hqos retain
  have hdup : (decide ((if retain then qos <<< 1 ||| 0x01 else qos <<< 1) &&&
      (0x08 : UInt8) ≠ 0)) = false := by
    rw [hflags.right.right]
    rfl
  unfold parsePublish publishPacket buildPublish
  simp only
  by_cases hid : qos > 0
  · have hread : Reads (readPublishID qos) (be 2 packetID.toNat) packetID := by
      unfold readPublishID
      rw [if_pos hid]
      exact reads_readUint16 packetID
    rw [if_pos hid, if_pos hid, List.append_assoc,
      readPublish_ok hflags.left htopic hread, hflags.right.left, hdup]
    rfl
  have hread : Reads (readPublishID qos) [] 0 := by
    unfold readPublishID
    rw [if_neg hid]
    exact Reads.pure 0
  have hok := @readPublish_ok _ _ hflags.left topic [] payload htopic _ hread
  rw [List.nil_append] at hok
  rw [if_neg hid, if_neg hid, hok, hflags.right.left, hdup]
  rfl

/--
Packets read back as they were written, and published messages but for the
packet id of one that needs no answer.
-/
theorem packets_readBack :
    (forall (pktType flags : UInt8) (body : Bytes), pktType < 16 ->
      flags < 16 -> body.length ≤ maxRemaining ->
        PacketReadsBack pktType flags body) ∧
      forall (topic payload : Bytes) (qos : UInt8) (retain : Bool)
        (packetID : UInt16), topic.length ≤ 65535 -> qos ≤ 2 ->
          parsePublish (publishPacket topic payload qos retain packetID) =
            .ok
              { topic := topic
                payload := payload
                qos := qos
                retain := retain
                dup := false
                packetID := if qos > 0 then packetID else 0 } := by
  constructor
  · intro pktType flags body htype hflags hbody
    exact packetReadsBack htype hflags hbody
  · intro topic payload qos retain packetID htopic hqos
    exact parsePublish_publishPacket htopic payload hqos retain packetID

/-- A packet of two bytes, and a message that is to be answered. -/
theorem packets_readBack_ping :
    (12 : UInt8) < 16 ∧ PacketReadsBack 12 0 [1, 2] ∧
      parsePublish (publishPacket (ascii "t") [7] 2 true 300) =
        .ok
          { topic := ascii "t"
            payload := [7]
            qos := 2
            retain := true
            dup := false
            packetID := 300 } :=
  ⟨by decide, packets_readBack.left 12 0 [1, 2] (by decide) (by decide)
    (by decide), packets_readBack.right (ascii "t") [7] 2 true 300 (by decide)
    (by decide)⟩

/-- A message of the lowest quality of service loses its packet id. -/
theorem not_publishReadsBack_qos0 :
    ¬ PublishReadsBack (ascii "t") [7] 0 false 1 := by
  intro h
  unfold PublishReadsBack at h
  rw [parsePublish_publishPacket (by decide) [7] (by decide) false 1] at h
  have hid := congrArg PublishPayload.packetID (Except.ok.inj h)
  exact absurd hid (by decide)

end Mqtt
end ChimeraMQ
