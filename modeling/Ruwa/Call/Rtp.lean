/-
  File:      Ruwa/Call/Rtp.lean
  Subject:   RTP FRAMING OF CALL AUDIO (`call.rs`): the header on the wire and the send-side
             sequencer `RtpStream`.

  WhatsApp RTP is standard RTP with a 0xdebe extension: a 16-byte speech header (X=1, 0 extension
  words) or a 20-byte DTX header that carries one word. The receiver does not know which of the
  two was sent; it finds the payload by computing the header length from the wire.

  * `rtpHeaderByteLength_encode`, `parseRtpHeader_encode` -- in front of any payload, the length
    and the fields are read back as they were written (the extension word is not decoded);
  * `RtpStream` carries `payloadType ≤ 127` as a field: the setter refuses anything else, so what
    is stamped on a packet always fits the seven bits it has there.
-/
import Ruwa.Library.Bytes

namespace Ruwa.Call

open Ruwa.Library

/-! ## 1. Kinds of payload -/

def RTP_VERSION : UInt8 := 2
def RTP_FIXED_HEADER_LEN : Nat := 12
def WHATSAPP_RTP_HEADER_SIZE : Nat := 16
def WHATSAPP_RTP_HEADER_DTX_SIZE : Nat := 20
def WHATSAPP_RTP_EXTENSION_PROFILE : UInt16 := 0xdebe
def WHATSAPP_RTP_EXTENSION_DTX_WORD : UInt32 := 0x30010000
def RTP_PAYLOAD_TYPE_MLOW : UInt8 := 120

def OPUS_PRIMING_FRAME_1 : Bytes :=
  [0x12, 0x36, 0x26, 0x2b, 0x4a, 0xc8, 0x2b, 0x09, 0xc9, 0x1f, 0x34, 0xc2, 0xd6, 0x7a, 0x01, 0x73,
    0x1b, 0x2e]

def OPUS_PRIMING_FRAME_2 : Bytes := [0x90, 0xb8, 0x14, 0x14, 0xc4]

/-- Opus DTX (comfort noise): a short frame that carries no speech. -/
def isOpusDtxPayload (payload : Bytes) : Bool :=
  if payload.length = 0 then false
  else if payload.length ≤ 2 then true
  else if payload.length ≤ 15 then
    let b0 := payload.getD 0 0
    if b0 &&& 0xf8 == 0x08 || b0 == 0x0a then true
    else b0 &&& 0xf0 == 0x30 && payload.length ≤ 6
  else false

def isMlowDtxPayload (payload : Bytes) : Bool :=
  match payload.head? with
  | some b => b &&& 0xC0 == 0x80
  | none => false

def isOpusPrimingPayload (payload : Bytes) : Bool :=
  payload == OPUS_PRIMING_FRAME_1 || payload == OPUS_PRIMING_FRAME_2

/-! ## 2. The header -/

/-- An audio RTP header. With an extension word it takes 20 bytes, without one 16. -/
structure RtpHeader where
  marker : Bool
  payloadType : UInt8
  sequenceNumber : UInt16
  timestamp : UInt32
  ssrc : UInt32
  extensionWord : Option UInt32
  deriving Repr, DecidableEq

namespace RtpHeader

def byteSize (h : RtpHeader) : Nat :=
  if h.extensionWord.isSome then WHATSAPP_RTP_HEADER_DTX_SIZE else WHATSAPP_RTP_HEADER_SIZE

/-- The 20-byte buffer of which the encoder ships the first 16 or all. -/
def buffer (h : RtpHeader) : Bytes :=
  [RTP_VERSION <<< 6 ||| 0x10, h.marker.toUInt8 <<< 7 ||| h.payloadType &&& 0x7f] ++
    toBE 2 h.sequenceNumber.toNat ++ toBE 4 h.timestamp.toNat ++ toBE 4 h.ssrc.toNat ++
    toBE 2 WHATSAPP_RTP_EXTENSION_PROFILE.toNat ++ [0, h.extensionWord.isSome.toUInt8] ++
    toBE 4 (h.extensionWord.getD 0).toNat

end RtpHeader

/-- Appends the encoded header to `out`. -/
def encodeRtpHeaderInto (h : RtpHeader) (out : Bytes) : Bytes :=
  out ++ h.buffer.take h.byteSize

/-- The on-wire header length: the fixed 12 bytes, the CSRC list and the extension block. -/
def rtpHeaderByteLength (data : Bytes) : Option Nat :=
  if data.length < RTP_FIXED_HEADER_LEN ∨ data.getD 0 0 >>> 6 &&& 0x03 ≠ RTP_VERSION then
    none
  else
    let cc := (data.getD 0 0 &&& 0x0f).toNat
    let headerLen := RTP_FIXED_HEADER_LEN + cc * 4
    if data.length < headerLen then
      none
    else if data.getD 0 0 >>> 4 &&& 1 = 1 then
      if data.length < headerLen + 4 then
        none
      else
        let extWords := (data.getD (headerLen + 2) 0).toNat <<< 8 |||
          (data.getD (headerLen + 3) 0).toNat
        let headerLen := headerLen + 4 + extWords * 4
        if data.length < headerLen then none else some headerLen
    else
      some headerLen

/-- The fixed fields of the header; the extension word is not decoded. -/
def parseRtpHeader (data : Bytes) : Option RtpHeader :=
  match rtpHeaderByteLength data with
  | none => none
  | some _ =>
      let d := fun i => data.getD i 0
      some {
        marker := d 1 >>> 7 &&& 1 == 1
        payloadType := d 1 &&& 0x7f
        sequenceNumber := UInt16.ofNat (fromBE [d 2, d 3])
        timestamp := UInt32.ofNat (fromBE [d 4, d 5, d 6, d 7])
        ssrc := UInt32.ofNat (fromBE [d 8, d 9, d 10, d 11])
        extensionWord := none }

/-! ## 3. Reading a header back -/

theorem byteSize_cases (h : RtpHeader) :
    h.byteSize = 16 + 4 * h.extensionWord.isSome.toNat := by
  unfold RtpHeader.byteSize
  cases h.extensionWord <;> rfl

/-- The first 16 bytes of a header, whatever its size. -/
theorem encodeRtpHeader_fixed (h : RtpHeader) : ∃ words : Bytes,
    words.length = 4 * h.extensionWord.isSome.toNat ∧
    encodeRtpHeaderInto h [] =
      ([0x90, h.marker.toUInt8 <<< 7 ||| h.payloadType &&& 0x7f] : Bytes) ++
      (toBE 2 h.sequenceNumber.toNat ++ (toBE 4 h.timestamp.toNat ++ (toBE 4 h.ssrc.toNat ++
      ([0xde, 0xbe, 0, h.extensionWord.isSome.toUInt8] ++ words)))) := by
  unfold encodeRtpHeaderInto RtpHeader.byteSize RtpHeader.buffer
  cases h.extensionWord with
  | none => exact ⟨[], rfl, rfl⟩
  | some w => exact ⟨toBE 4 w.toNat, length_toBE 4 _, rfl⟩

theorem length_encodeRtpHeader (h : RtpHeader) :
    (encodeRtpHeaderInto h []).length = h.byteSize := by
  obtain ⟨words, hlen, he⟩ := encodeRtpHeader_fixed h
  rw [he, byteSize_cases]
  simp only [List.length_append, length_toBE, List.length_cons, List.length_nil, hlen]
  omega

/-- **The header length is read back in front of any payload.** -/
theorem rtpHeaderByteLength_encode (h : RtpHeader) (rest : Bytes) :
    rtpHeaderByteLength (encodeRtpHeaderInto h [] ++ rest) = some h.byteSize := by
  have hlen : (encodeRtpHeaderInto h [] ++ rest).length = h.byteSize + rest.length := by
    rw [List.length_append, length_encodeRtpHeader]
  have hsize := byteSize_cases h
  obtain ⟨words, -, he⟩ := encodeRtpHeader_fixed h
  have h0 : (encodeRtpHeaderInto h [] ++ rest).getD 0 0 = 0x90 := by rw [he]; rfl
  have h14 : (encodeRtpHeaderInto h [] ++ rest).getD 14 0 = 0 := by rw [he]; rfl
  have h15 : (encodeRtpHeaderInto h [] ++ rest).getD 15 0 = h.extensionWord.isSome.toUInt8 := by
    rw [he]; rfl
  -- X=1 and no CSRC, so the extension count stands in bytes 14 and 15
  have hext : ((0 : UInt8).toNat <<< 8 ||| h.extensionWord.isSome.toUInt8.toNat) =
      h.extensionWord.isSome.toNat := by
    cases h.extensionWord.isSome <;> rfl
  unfold rtpHeaderByteLength
  simp only [h0, hlen]
  rw [if_neg (by
    rintro (hl | hv)
    · simp only [RTP_FIXED_HEADER_LEN] at hl
      omega
    · exact hv (by decide))]
  have hcc : RTP_FIXED_HEADER_LEN + ((0x90 : UInt8) &&& 0x0f).toNat * 4 = 12 := by decide
  rw [hcc, if_neg (by omega), if_pos (by decide), if_neg (by omega), h14, h15, hext,
    if_neg (by omega), hsize]
  congr 1
  omega

theorem sequence_read (n : UInt16) : UInt16.ofNat (fromBE (toBE 2 n.toNat)) = n := by
  rw [fromBE_toBE 2 _ n.toNat_lt, UInt16.ofNat_toNat]

theorem word_read (n : UInt32) : UInt32.ofNat (fromBE (toBE 4 n.toNat)) = n := by
  rw [fromBE_toBE 4 _ n.toNat_lt, UInt32.ofNat_toNat]

/-- The marker bit and the payload type share a byte. -/
theorem marker_read (m : Bool) (pt : UInt8) :
    (((m.toUInt8 <<< 7 ||| pt &&& 0x7f) >>> 7 &&& 1) == 1) = m := by
  have hbits : ∀ (m : Bool) (v : BitVec 8),
      (((m.toUInt8 <<< 7 ||| UInt8.ofBitVec v &&& 0x7f) >>> 7 &&& 1) == 1) = m := by decide
  exact hbits m pt.toBitVec

theorem payloadType_read (m : Bool) (pt : UInt8) (h : pt ≤ 127) :
    (m.toUInt8 <<< 7 ||| pt &&& 0x7f) &&& 0x7f = pt := by
  have hbits : ∀ (m : Bool) (v : BitVec 8), UInt8.ofBitVec v ≤ 127 →
      (m.toUInt8 <<< 7 ||| UInt8.ofBitVec v &&& 0x7f) &&& 0x7f = UInt8.ofBitVec v := by decide
  exact hbits m pt.toBitVec h

/-- **Every field is read back in front of any payload**, for a payload type of seven bits. -/
theorem parseRtpHeader_encode (h : RtpHeader) (hpt : h.payloadType ≤ 127) (rest : Bytes) :
    parseRtpHeader (encodeRtpHeaderInto h [] ++ rest) =
      some { h with extensionWord := none } := by
  obtain ⟨words, -, he⟩ := encodeRtpHeader_fixed h
  unfold parseRtpHeader
  rw [rtpHeaderByteLength_encode, he]
  have hseq := sequence_read h.sequenceNumber
  have hts := word_read h.timestamp
  have hssrc := word_read h.ssrc
  have hm := marker_read h.marker h.payloadType
  have hp := payloadType_read h.marker h.payloadType hpt
  exact congrArg some (RtpHeader.mk.injEq .. |>.mpr ⟨hm, hp, hseq, hts, hssrc, rfl⟩)

/-! ## 4. The send-side sequencer -/

/-- The send-side audio sequencer. `payload_type` is settable to seven bits only. -/
structure RtpStream where
  ssrc : UInt32
  seq : UInt16
  timestamp : UInt32
  lastSentTimestamp : Option UInt32
  samplesPerPacket : UInt32
  speechStarted : Bool
  speechStartMarkers : Bool
  mlowProfile : Bool
  payloadType : UInt8
  payloadType_le : payloadType ≤ 127

namespace RtpStream

/-- Sequence numbers start at 1, timestamps at 0. -/
def new (ssrc samplesPerPacket : UInt32) : RtpStream where
  ssrc := ssrc
  seq := 1
  timestamp := 0
  lastSentTimestamp := none
  samplesPerPacket := samplesPerPacket
  speechStarted := false
  speechStartMarkers := true
  mlowProfile := true
  payloadType := RTP_PAYLOAD_TYPE_MLOW
  payloadType_le := by decide

/-- Refuses a payload type above 127. -/
def setPayloadType (s : RtpStream) (pt : UInt8) : Bool × RtpStream :=
  if h : pt > 127 then (false, s)
  else (true, { s with payloadType := pt, payloadType_le := UInt8.not_lt.mp h })

/-- The MLOW profile and its speech-start markers go together. -/
def setMlowProfile (s : RtpStream) (enabled : Bool) : RtpStream :=
  { s with mlowProfile := enabled, speechStartMarkers := enabled }

/-- The header of the next outbound packet. -/
def nextPacket (s : RtpStream) (payload : Bytes) (marker : Bool) : RtpHeader × RtpStream :=
  let dtx := if s.mlowProfile then isMlowDtxPayload payload else isOpusDtxPayload payload
  let priming := isOpusPrimingPayload payload
  let speech := !dtx && !priming
  let useMarker := marker || (s.speechStartMarkers && speech && !s.speechStarted)
  let header : RtpHeader := {
    marker := useMarker
    payloadType := s.payloadType
    sequenceNumber := s.seq
    timestamp := s.timestamp
    ssrc := s.ssrc
    extensionWord := if dtx then some WHATSAPP_RTP_EXTENSION_DTX_WORD else none }
  (header, { s with
    speechStarted := if dtx then false else if speech then true else s.speechStarted
    lastSentTimestamp := some header.timestamp
    seq := s.seq + 1
    timestamp := s.timestamp + s.samplesPerPacket })

/-- A setter leaves the sequence and the SSRC alone. -/
theorem setPayloadType_keeps (s : RtpStream) (pt : UInt8) :
    (s.setPayloadType pt).2.seq = s.seq ∧ (s.setPayloadType pt).2.ssrc = s.ssrc := by
  unfold setPayloadType
  split
  · exact ⟨rfl, rfl⟩
  · exact ⟨rfl, rfl⟩

end RtpStream

end Ruwa.Call
