import ChimeraMQ.Protocol.ChimeraCodec
import ChimeraMQ.Protocol.WebSocket

/-!
# Native frames over WebSocket

A binary message that begins like a frame of the native protocol is taken apart
by a parser of its own, which looks for the length and the payload one byte too
far and for no checksum at all.
-/

namespace ChimeraMQ
namespace WebSocket

open Foundation
open Chimera.Codec

inductive BinaryError where
  | frameTooShort
  | truncated
deriving DecidableEq

def isChimeraFrame (data : Bytes) : Bool :=
  decide (12 ≤ data.length) && decide (data.take 4 = frameMagic)

def chimeraFrame (data : Bytes) : Except BinaryError (UInt8 × Bytes) :=
  if data.length < 12 then .error .frameTooShort
  else
    let opcode := data.getD 5 0
    let payloadLen := ofBe ((data.drop 8).take 4)
    if 12 + payloadLen > data.length then .error .truncated
    else .ok (opcode, (data.drop 12).take payloadLen)

namespace Session

end Session

/-- A binary message is understood as the decoder of frames understands it. -/
structure Agrees (data : Bytes) : Prop where
  accepts : forall f rest, decodeFrame data = .ok (f, rest) ->
    chimeraFrame data = .ok (f.opCode, f.payload)
  rejects : forall err, decodeFrame data = .error err ->
    exists err', chimeraFrame data = .error err'

/-!
## Messages that are frames
-/

theorem chimeraFrame_encodeFrame {f : Frame} {rest body : Bytes} {b : UInt8}
    (hbody : f.payload ++ be 4 (crc32c (header f ++ f.payload)).toNat ++ rest =
      b :: body) :
    chimeraFrame (encodeFrame f ++ rest) =
      if body.length < f.payload.length % 256 ^ 3 * 256 + b.toNat then
        .error .truncated
      else
        .ok (f.opCode,
          body.take (f.payload.length % 256 ^ 3 * 256 + b.toNat)) := by
  have hdata : encodeFrame f ++ rest = header f ++ b :: body := by
    unfold encodeFrame
    rw [← hbody, List.append_assoc]
  have hlength : (header f ++ b :: body).length = 12 + body.length := by
    rw [List.length_append, length_header, List.length_cons]
    unfold frameHeaderLen
    omega
  have hnumber : ofBe (((header f ++ b :: body).drop 8).take 4) =
      f.payload.length % 256 ^ 3 * 256 + b.toNat := by
    have htake : ((header f ++ b :: body).drop 8).take 4 =
        be 3 f.payload.length ++ [b] := rfl
    rw [htake, ofBe_concat, ofBe_be]
  have hopcode : (header f ++ b :: body).getD 5 0 = f.opCode := rfl
  have hdrop : (header f ++ b :: body).drop 12 = body := rfl
  rw [hdata]
  unfold chimeraFrame
  rw [if_neg (by omega), hnumber, hopcode, hdrop, hlength]
  simp only [gt_iff_lt, Nat.add_lt_add_iff_left]

theorem exists_body (f : Frame) (rest : Bytes) :
    exists b body,
      f.payload ++ be 4 (crc32c (header f ++ f.payload)).toNat ++ rest =
        b :: body := by
  cases hbody : f.payload ++ be 4 (crc32c (header f ++ f.payload)).toNat ++
      rest with
  | nil =>
    have hlength := congrArg List.length hbody
    rw [List.length_append, List.length_append, length_be,
      List.length_nil] at hlength
    omega
  | cons b body => exact ⟨b, body, rfl⟩

theorem agrees_encodeFrame_iff {f : Frame}
    (hf : f.payload.length ≤ maxFrameSize) (rest : Bytes) :
    Agrees (encodeFrame f ++ rest) <->
      f.payload = [] ∧ (crc32c (header f)).toNat < 2 ^ 24 := by
  rcases exists_body f rest with ⟨b, body, hbody⟩
  have hb := UInt8.toNat_lt b
  have hdecode := (roundTrips_of_le hf).reads rest
  have hparse := chimeraFrame_encodeFrame hbody
  constructor
  · intro h
    have hsame := h.accepts f rest hdecode
    rw [hparse] at hsame
    split at hsame
    · cases hsame
    rename_i hroom
    have hpayload := congrArg Prod.snd (Except.ok.inj hsame)
    have hlength := congrArg List.length hpayload
    simp only at hlength
    rw [List.length_take, Nat.min_eq_left (Nat.not_lt.mp hroom)] at hlength
    unfold maxFrameSize at hf
    have hzero : f.payload.length = 0 ∧ b.toNat = 0 := by
      rcases Nat.eq_or_lt_of_le hf with hmax | hless
      · rw [hmax] at hlength
        omega
      · rw [Nat.mod_eq_of_lt (by omega)] at hlength
        omega
    have hnil := List.eq_nil_of_length_eq_zero hzero.left
    refine ⟨hnil, ?_⟩
    rw [hnil, List.nil_append, List.append_nil] at hbody
    have hfirst : UInt8.ofNat
        ((crc32c (header f)).toNat / 256 / 256 / 256) = b :=
      (List.cons.inj hbody).left
    have hcrc := UInt32.toNat_lt (crc32c (header f))
    have hvalue := congrArg UInt8.toNat hfirst
    rw [UInt8.toNat_ofNat'] at hvalue
    omega
  · rintro ⟨hnil, hcrc⟩
    rw [hnil, List.nil_append, List.append_nil] at hbody
    have hfirst : UInt8.ofNat
        ((crc32c (header f)).toNat / 256 / 256 / 256) = b :=
      (List.cons.inj hbody).left
    have hzero : b.toNat = 0 := by
      rw [← hfirst, UInt8.toNat_ofNat']
      omega
    rw [hnil, hzero] at hparse
    constructor
    · intro f' rest' hf'
      rw [hdecode] at hf'
      cases hf'
      rw [hparse, hnil]
      rfl
    · intro err herr
      rw [hdecode] at herr
      cases herr

/-!
## Messages that are none
-/

theorem agrees_of_error_iff {data : Bytes} (hframe : isChimeraFrame data = true)
    {err : DecodeError} (h : decodeFrame data = .error err) :
    Agrees data <-> data.length < 12 + ofBe ((data.drop 8).take 4) := by
  have hlong : 12 ≤ data.length :=
    of_decide_eq_true (Bool.and_eq_true_iff.mp hframe).left
  constructor
  · intro hagrees
    rcases hagrees.rejects err h with ⟨err', herr⟩
    unfold chimeraFrame at herr
    rw [if_neg (Nat.not_lt.mpr hlong)] at herr
    simp only at herr
    split at herr
    · assumption
    · cases herr
  intro hshort
  constructor
  · intro f rest hf
    rw [h] at hf
    cases hf
  intro err' _
  refine ⟨.truncated, ?_⟩
  unfold chimeraFrame
  rw [if_neg (Nat.not_lt.mpr hlong)]
  exact if_pos hshort

/--
A frame within the maximum is understood exactly if it has no payload and its
checksum begins with a zero.
-/
theorem agrees_iff (f : Frame) (rest data : Bytes) :
    (f.payload.length ≤ maxFrameSize ->
      (Agrees (encodeFrame f ++ rest) <->
        f.payload = [] ∧ (crc32c (header f)).toNat < 2 ^ 24)) ∧
      (isChimeraFrame data = true ->
        (forall (g : Frame) (tail : Bytes),
          g.payload.length ≤ maxFrameSize -> data ≠ encodeFrame g ++ tail) ->
        (Agrees data <->
          data.length < 12 + ofBe ((data.drop 8).take 4))) := by
  constructor
  · intro hf
    exact agrees_encodeFrame_iff hf rest
  intro hframe hnone
  cases h : decodeFrame data with
  | error err => exact agrees_of_error_iff hframe h
  | ok p =>
  rcases decodeFrame_eq_ok h with ⟨hf, hdata⟩
  exact absurd hdata (hnone p.1 p.2 hf)

def quietFrame : Frame :=
  response 0x64 []

def cutFrame : Bytes :=
  frameMagic ++ [1, 3, 0, 0, 0, 0, 9, 1]

/-- Both are understood. -/
theorem agrees_quietFrame :
    quietFrame.payload.length ≤ maxFrameSize ∧ Agrees (encodeFrame quietFrame) ∧
      isChimeraFrame cutFrame = true ∧ Agrees cutFrame := by
  have hframe : isChimeraFrame cutFrame = true := by decide +kernel
  have hshort : cutFrame.length < 12 + ofBe ((cutFrame.drop 8).take 4) := by
    decide +kernel
  have hnone : forall (f : Frame) (rest : Bytes),
      f.payload.length ≤ maxFrameSize -> cutFrame ≠ encodeFrame f ++ rest := by
    intro f rest _ hdata
    have hlength := congrArg List.length hdata
    unfold encodeFrame at hlength
    rw [List.length_append, List.length_append, length_body,
      length_header] at hlength
    have hcut : cutFrame.length = 12 := rfl
    rw [hcut] at hlength
    unfold frameHeaderLen frameTrailerLen at hlength
    omega
  have hempty : quietFrame.payload.length ≤ maxFrameSize := Nat.zero_le _
  have hcrc : (crc32c (header quietFrame)).toNat < 2 ^ 24 := by decide +kernel
  have hquiet : Agrees (encodeFrame quietFrame ++ []) :=
    ((agrees_iff quietFrame [] cutFrame).left hempty).mpr ⟨rfl, hcrc⟩
  rw [List.append_nil] at hquiet
  exact ⟨hempty, hquiet, hframe,
    ((agrees_iff quietFrame [] cutFrame).right hframe hnone).mpr hshort⟩

def publishFrame : Frame :=
  response 0x03 [97, 98, 99]

def wrongChecksum : Bytes :=
  frameMagic ++ [1, 3, 0, 0, 0, 0, 0, 0, 9, 9, 9]

/-- The first is rejected, and the second is published. -/
theorem not_agrees_publishFrame :
    publishFrame.payload.length ≤ maxFrameSize ∧
      chimeraFrame (encodeFrame publishFrame) = .error .truncated ∧
      ¬ Agrees (encodeFrame publishFrame) ∧
      decodeFrame wrongChecksum = .error .crcMismatch ∧
      chimeraFrame wrongChecksum = .ok (3, []) ∧ ¬ Agrees wrongChecksum := by
  have hdecode : decodeFrame wrongChecksum = .error .crcMismatch := by
    decide +kernel
  have hparse : chimeraFrame wrongChecksum = .ok (3, []) := by
    decide +kernel
  refine ⟨by decide, by decide +kernel, ?_, hdecode, hparse, ?_⟩
  · intro h
    rw [← List.append_nil (encodeFrame publishFrame),
      agrees_encodeFrame_iff (by decide)] at h
    cases h.left
  intro h
  rcases h.rejects _ hdecode with ⟨err, herr⟩
  rw [hparse] at herr
  cases herr

end WebSocket
end ChimeraMQ
