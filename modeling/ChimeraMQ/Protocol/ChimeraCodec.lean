import ChimeraMQ.Foundation.Reading
import ChimeraMQ.Message.RoundTrip
import ChimeraMQ.Protocol.Chimera

/-!
# Frames of the native protocol

A frame is a header of eleven bytes, the payload and a checksum over both. The
decoder refuses payloads beyond a maximum, the encoder takes any; so a frame is
read back exactly if its payload keeps to the maximum.
-/

namespace ChimeraMQ
namespace Chimera
namespace Codec

open Foundation
open Message

def frameMagic : Bytes := ascii "CHMR"

def frameVersion : UInt8 := 1

def frameHeaderLen : Nat := 11

def frameTrailerLen : Nat := 4

def maxFrameSize : Nat := 16 * 1024 * 1024

def opFetchResp : UInt8 := 0x0A

def opError : UInt8 := 0x1A

structure Frame where
  version : UInt8
  opCode : UInt8
  flags : UInt8
  payload : Bytes
deriving DecidableEq

/-- Why bytes are not a frame. -/
inductive DecodeError where
  | stream (err : StreamError)
  | invalidMagic
  | tooLarge (payloadLen : Nat)
  | crcMismatch
deriving DecidableEq

def header (f : Frame) : Bytes :=
  frameMagic ++ [f.version, f.opCode, f.flags] ++ be 4 f.payload.length

def encodeFrame (f : Frame) : Bytes :=
  header f ++ (f.payload ++ be 4 (crc32c (header f ++ f.payload)).toNat)

def decodeFrame : Reader DecodeError Frame := do
  let header <- readFull .stream frameHeaderLen
  if header.take 4 ≠ frameMagic then Reader.fail .invalidMagic
  else
    let payloadLen := ofBe (header.drop 7)
    if payloadLen > maxFrameSize then Reader.fail (.tooLarge payloadLen)
    else do
      let buf <- readFull .stream (payloadLen + frameTrailerLen)
      let payload := buf.take payloadLen
      let expectedCRC := UInt32.ofNat (ofBe (buf.drop payloadLen))
      if crc32c (header ++ payload) ≠ expectedCRC then Reader.fail .crcMismatch
      else
        pure
          { version := header.getD 4 0
            opCode := header.getD 5 0
            flags := header.getD 6 0
            payload := payload }

def response (opCode : UInt8) (payload : Bytes) : Frame where
  version := frameVersion
  opCode := opCode
  flags := 0
  payload := payload

def encodeError (code : Nat) (msg : Bytes) : Bytes :=
  be 2 code ++ be 2 msg.length ++ msg

def sendError (msg : Bytes) : Frame :=
  response opError (encodeError 0 msg)

def fetchedMessage (env : Envelope) : Bytes :=
  match marshal env with
  | .error _ => []
  | .ok data => be 4 data.length ++ data

def fetchPayload (msgs : List Envelope) : Bytes :=
  be 4 msgs.length ++ msgs.flatMap fetchedMessage

def fetchResponse (client : ClientConn) (s : Backend) (payload : FetchPayload)
    (c : Stream.Engine.FetchContext) : Frame :=
  if !s.allows client.identity .topic payload.topic .read then
    sendError (ascii "fetch denied by ACL")
  else
    match (s.fetch payload.topic payload.partitionID payload.fromOffset
      (ClientConn.fetchLimit s payload.maxMessages) c).2 with
    | .error _ => sendError (ascii "fetch failed")
    | .ok (msgs, _) => response opFetchResp (fetchPayload msgs)

/-- A frame is read back whatever follows it, and nothing less of it is. -/
structure RoundTrips (f : Frame) : Prop where
  reads : Reads decodeFrame (encodeFrame f) f
  short : Short decodeFrame (encodeFrame f)

/-!
## Frames within the maximum
-/

theorem length_header (f : Frame) : (header f).length = frameHeaderLen := by
  unfold header
  rw [List.length_append, List.length_append, length_be]
  rfl

theorem take_header (f : Frame) : (header f).take 4 = frameMagic := by
  unfold header
  rw [List.append_assoc]
  exact List.take_left' rfl

theorem drop_header (f : Frame) :
    (header f).drop 7 = be 4 f.payload.length :=
  List.drop_left' rfl

theorem ofBe_drop_header {f : Frame} (hf : f.payload.length ≤ maxFrameSize) :
    ofBe ((header f).drop 7) = f.payload.length := by
  rw [drop_header, ofBe_be_of_lt]
  unfold maxFrameSize at hf
  omega

theorem length_body (f : Frame) :
    (f.payload ++ be 4 (crc32c (header f ++ f.payload)).toNat).length =
      f.payload.length + frameTrailerLen := by
  rw [List.length_append, length_be]
  rfl

theorem roundTrips_of_le {f : Frame} (hf : f.payload.length ≤ maxFrameSize) :
    RoundTrips f := by
  have hhead := reads_takeBytes
    (fun s => DecodeError.stream (endOf s)) (header f)
  have hheadShort := short_takeBytes
    (fun s => DecodeError.stream (endOf s)) (header f)
  have hbody := reads_takeBytes (fun s => DecodeError.stream (endOf s))
    (f.payload ++ be 4 (crc32c (header f ++ f.payload)).toNat)
  have hbodyShort := short_takeBytes (fun s => DecodeError.stream (endOf s))
    (f.payload ++ be 4 (crc32c (header f ++ f.payload)).toNat)
  have hmagic : ¬ (header f).take 4 ≠ frameMagic :=
    not_not.mpr (take_header f)
  have hcrc : UInt32.ofNat (ofBe (be 4 (crc32c (header f ++ f.payload)).toNat)) =
      crc32c (header f ++ f.payload) := by
    rw [ofBe_be_of_lt (UInt32.toNat_lt _), UInt32.ofNat_toNat]
  rw [length_header] at hhead hheadShort
  rw [length_body] at hbody hbodyShort
  constructor
  · refine hhead.bind ?_
    simp only [if_neg hmagic, ofBe_drop_header hf, if_neg (Nat.not_lt.mpr hf)]
    refine hbody.bind_pure ?_
    simp only [List.take_left, List.drop_left, hcrc, ne_eq, not_true_eq_false,
      if_false]
    exact Reads.pure f
  · refine Short.bind hhead hheadShort ?_
    simp only [if_neg hmagic, ofBe_drop_header hf, if_neg (Nat.not_lt.mpr hf)]
    exact hbodyShort.bind_pure _

theorem header_eq {head payload : Bytes} (hlen : head.length = frameHeaderLen)
    (hmagic : head.take 4 = frameMagic)
    (hpayload : ofBe (head.drop 7) = payload.length) :
    head = header
      { version := head.getD 4 0
        opCode := head.getD 5 0
        flags := head.getD 6 0
        payload := payload } := by
  have hlast : (head.drop 7).length = 4 := by
    rw [List.length_drop, hlen]
    rfl
  have hbe : be 4 payload.length = head.drop 7 := by
    rw [← hpayload, ← hlast]
    exact be_ofBe _
  have hmiddle : head.drop 4 =
      [head.getD 4 0, head.getD 5 0, head.getD 6 0] ++ head.drop 7 := by
    have hdrop : forall i, i < 7 ->
        head.drop i = head.getD i 0 :: head.drop (i + 1) := by
      intro i hi
      have hlt : i < head.length := by
        rw [hlen]
        exact Nat.lt_trans hi (by decide)
      rw [List.drop_eq_getElem_cons hlt, List.getD_eq_getElem?_getD, List.getElem?_eq_getElem hlt,
        Option.getD_some]
    rw [hdrop 4 (by decide), hdrop 5 (by decide), hdrop 6 (by decide)]
    rfl
  unfold header
  rw [hbe, ← hmagic, List.append_assoc, ← hmiddle, List.take_append_drop]

theorem decodeFrame_eq_ok {s rest : Bytes} {f : Frame}
    (h : decodeFrame s = .ok (f, rest)) :
    f.payload.length ≤ maxFrameSize ∧ s = encodeFrame f ++ rest := by
  rcases Reader.bind_eq_ok h with ⟨head, s1, htaken, hhead⟩
  rcases length_of_takeBytes htaken with ⟨hheadLen, hs⟩
  split at hhead
  · cases hhead
  rename_i hmagic
  simp only at hhead
  split at hhead
  · cases hhead
  rename_i hlen
  rcases Reader.bind_eq_ok hhead with ⟨buf, s2, hbuf, hlast⟩
  rcases length_of_takeBytes hbuf with ⟨hsize, hs1⟩
  split at hlast
  · cases hlast
  rename_i hcrc
  cases hlast
  have hpayload : (buf.take (ofBe (head.drop 7))).length =
      ofBe (head.drop 7) := by
    rw [List.length_take]
    omega
  have htrailer : (buf.drop (ofBe (head.drop 7))).length = 4 := by
    rw [List.length_drop, hsize]
    unfold frameTrailerLen
    omega
  have hheader := header_eq hheadLen (not_not.mp hmagic) hpayload.symm
  have hsum : be 4 (crc32c
      (head ++ buf.take (ofBe (head.drop 7)))).toNat =
      buf.drop (ofBe (head.drop 7)) := by
    have hbound : ofBe (buf.drop (ofBe (head.drop 7))) < 2 ^ 32 := by
      have hlt := ofBe_lt (buf.drop (ofBe (head.drop 7)))
      rw [htrailer] at hlt
      exact hlt
    have hback := be_ofBe (buf.drop (ofBe (head.drop 7)))
    rw [htrailer] at hback
    rw [not_not.mp hcrc, UInt32.toNat_ofNat_of_lt' hbound, hback]
  constructor
  · show (buf.take (ofBe (head.drop 7))).length ≤ maxFrameSize
    omega
  unfold encodeFrame
  rw [← hheader, hsum]
  simp only
  rw [List.take_append_drop, hs, hs1, List.append_assoc]

theorem roundTrips_iff_le (f : Frame) :
    RoundTrips f <-> f.payload.length ≤ maxFrameSize := by
  constructor
  · intro h
    exact (decodeFrame_eq_ok (h.reads [])).left
  · intro h
    exact roundTrips_of_le h

/-!
## Responses to a fetch
-/

def fetchedSize (env : Envelope) : Nat :=
  match marshal env with
  | .error _ => 0
  | .ok _ => 4 + env.estimateSize

theorem length_fetchedMessage (env : Envelope) :
    (fetchedMessage env).length = fetchedSize env := by
  unfold fetchedMessage fetchedSize
  cases hdata : marshal env with
  | error err => rfl
  | ok data =>
  rcases marshal_ok hdata with ⟨_, _, hlength⟩
  simp only
  rw [List.length_append, length_be, hlength]

theorem length_fetchPayload (msgs : List Envelope) :
    (fetchPayload msgs).length = 4 + (msgs.map fetchedSize).sum := by
  unfold fetchPayload
  rw [List.length_append, length_be, List.length_flatMap]
  simp only [length_fetchedMessage]

def fetched (client : ClientConn) (s : Backend) (payload : FetchPayload)
    (c : Stream.Engine.FetchContext) : List Envelope :=
  if !s.allows client.identity .topic payload.topic .read then []
  else
    match (s.fetch payload.topic payload.partitionID payload.fromOffset
      (ClientConn.fetchLimit s payload.maxMessages) c).2 with
    | .error _ => []
    | .ok (msgs, _) => msgs

theorem length_fetchResponse_le_iff (client : ClientConn) (s : Backend)
    (payload : FetchPayload) (c : Stream.Engine.FetchContext) :
    (fetchResponse client s payload c).payload.length ≤ maxFrameSize <->
      4 + ((fetched client s payload c).map fetchedSize).sum ≤
        maxFrameSize := by
  unfold fetchResponse fetched
  split
  · exact ⟨fun _ => by decide, fun _ => by decide⟩
  split
  · exact ⟨fun _ => by decide, fun _ => by decide⟩
  · rename_i msgs _ _
    show (fetchPayload msgs).length ≤ maxFrameSize <-> _
    rw [length_fetchPayload]

/--
A frame round-trips exactly if its payload is within the maximum; of the
responses to a fetch, those whose messages take no more than that.
-/
theorem frames_roundTrip_iff (f : Frame) (client : ClientConn) (s : Backend)
    (payload : FetchPayload) (c : Stream.Engine.FetchContext) :
    (RoundTrips f <-> f.payload.length ≤ maxFrameSize) ∧
      (RoundTrips (fetchResponse client s payload c) <->
        4 + ((fetched client s payload c).map fetchedSize).sum ≤
          maxFrameSize) := by
  constructor
  · exact roundTrips_iff_le f
  · exact (roundTrips_iff_le _).trans
      (length_fetchResponse_le_iff client s payload c)

def zerosMessage (n : Nat) : Envelope :=
  { Envelope.zero with
    topic := ascii "t"
    payload := List.replicate n 0 }

theorem estimateSize_zerosMessage (n : Nat) :
    (zerosMessage n).estimateSize = 65 + n := by
  have hlength : (zerosMessage n).payload.length = n := List.length_replicate
  unfold Envelope.estimateSize
  rw [hlength]
  show 64 + 1 + 0 + n + 0 + 0 = 65 + n
  omega

theorem not_roundTrips_of_estimateSize {env : Envelope} {data : Bytes}
    (hdata : marshal env = .ok data)
    (hsize : maxFrameSize < 8 + env.estimateSize) :
    ¬ RoundTrips (response opFetchResp (fetchPayload [env])) := by
  rw [roundTrips_iff_le]
  show ¬ (fetchPayload [env]).length ≤ maxFrameSize
  rw [length_fetchPayload, List.map_singleton, List.sum_singleton]
  unfold fetchedSize
  rw [hdata]
  simp only
  omega

/--
A message of the greatest size is accepted, but the response that carries it is
not decoded.
-/
theorem not_roundTrips_largestMessage :
    (exists data, marshal (zerosMessage (maxMessageSize - 65)) = .ok data) ∧
      ¬ RoundTrips (response opFetchResp
        (fetchPayload [zerosMessage (maxMessageSize - 65)])) := by
  generalize hn : maxMessageSize - 65 = n
  have hsize : (zerosMessage n).estimateSize = maxMessageSize := by
    rw [estimateSize_zerosMessage, ← hn]
    unfold maxMessageSize
    omega
  have htopic : (zerosMessage n).topic.length ≤ 65535 := by
    show (ascii "t").length ≤ 65535
    decide
  have hkey : (zerosMessage n).routingKey.length ≤ 65535 := Nat.zero_le _
  rcases exists_marshal htopic hkey (Nat.le_of_eq hsize) with ⟨data, hdata⟩
  refine ⟨⟨data, hdata⟩, not_roundTrips_of_estimateSize hdata ?_⟩
  rw [hsize]
  unfold maxMessageSize maxFrameSize
  omega

end Codec
end Chimera
end ChimeraMQ
