/-
  File:      Ruwa/Call/Srtp.lean
  Subject:   THE SRTP AUDIO STREAM (`call.rs`): AES-CTR under a per-packet IV, the WARP integrity
             tag, and what a sender and a receiver of one stream make of each other.

  A packet goes out as `header ++ AES-CTR(payload) ++ tag`, where the IV holds the 48-bit packet
  index and the tag covers the ROC, which is not sent. The receiver estimates the ROC, checks the
  tag against the estimate and folds the packet only when the tag verifies.

  * **`ivs_distinct`** -- each payload gives a packet, the packet index of the send side counts by
    one and is recoverable from the IV, so no keystream is used twice within 2^48 - 1 packets;
  * **`stream_received`** -- every genuine packet within half a sequence range of the highest one
    comes out with its fields and its payload, across loss, reordering, duplication, rollover and
    forgeries; a packet whose tag does not verify changes nothing.

  The AES block function and HMAC-SHA1 are library code: they are parameters (`CallPrimitives`),
  and nothing is assumed of either.
-/
import Ruwa.Library.CounterMode
import Ruwa.Crypto.Primitives
import Ruwa.Call.Rtp
import Ruwa.Call.Roc
import Mathlib.Data.List.Nodup

namespace Ruwa.Call

open Ruwa.Library

/-! ## 1. The source -/

/-- The primitives the call code takes from libraries. -/
structure CallPrimitives where
  /-- The AES-128 block function: key, block. -/
  aes128 : U8Array 16 → U8Array 16 → U8Array 16
  /-- HMAC-SHA1: key, message. -/
  hmacSha1 : Bytes → Bytes → U8Array 20

/-- Session keys for one direction of the E2E 1:1 SRTP cipher. -/
structure E2eSrtpKeys where
  cipherKey : U8Array 16
  salt : U8Array 14
  authKey : U8Array 20

/-- The salt right-aligned in 14 bytes, then two zero bytes. -/
def saltBlock (salt : Bytes) : Bytes :=
  let n := min salt.length 14
  List.replicate (14 - n) 0 ++ salt.take n ++ [0, 0]

theorem length_saltBlock (salt : Bytes) : (saltBlock salt).length = 16 := by
  simp only [saltBlock, List.length_append, List.length_replicate, List.length_take,
    List.length_cons, List.length_nil]
  omega

/-- The salt block with the SSRC XORed at bytes 4-7. -/
def ssrcBlock (salt : Bytes) (ssrc : UInt32) : Bytes :=
  xorInto (saltBlock salt) 4 (toBE 4 ssrc.toNat)

theorem length_ssrcBlock (salt : Bytes) (ssrc : UInt32) : (ssrcBlock salt ssrc).length = 16 := by
  rw [ssrcBlock, length_xorInto, length_saltBlock]
  rw [length_toBE, length_saltBlock]
  omega

/-- The IV: on top of that, the 48-bit packet index XORed at bytes 8-13. -/
def ivBytes (salt : Bytes) (ssrc roc : UInt32) (seq : UInt16) : Bytes :=
  let packetIndex := roc.toNat * 0x10000 + seq.toNat
  let hi16 := packetIndex >>> 32 &&& 0xffff
  let lo32 := packetIndex &&& 0xffffffff
  xorInto (xorInto (ssrcBlock salt ssrc) 8 (toBE 2 hi16)) 10 (toBE 4 lo32)

/-- The two halves of the index, written side by side, are the 48-bit index. -/
theorem index_halves (n : Nat) :
    toBE 2 (n >>> 32 &&& 0xffff) ++ toBE 4 (n &&& 0xffffffff) = toBE 6 n := by
  have hhi : n >>> 32 &&& 0xffff = n / 256 ^ 4 % 256 ^ 2 := by
    rw [Nat.shiftRight_eq_div_pow]
    exact Nat.and_two_pow_sub_one_eq_mod _ 16
  have hlo : n &&& 0xffffffff = n % 256 ^ 4 := Nat.and_two_pow_sub_one_eq_mod _ 32
  rw [hhi, hlo, toBE_mod, toBE_mod, toBE_append]

/-- The IV is ONE field XORed into a ground that does not depend on the packet. -/
theorem ivBytes_eq (salt : Bytes) (ssrc roc : UInt32) (seq : UInt16) :
    ivBytes salt ssrc roc seq = xorInto (ssrcBlock salt ssrc) 8 (toBE 6 (packetIndex roc seq)) := by
  have hside : xorInto (xorInto (ssrcBlock salt ssrc) 8
        (toBE 2 (packetIndex roc seq >>> 32 &&& 0xffff)))
        (8 + (toBE 2 (packetIndex roc seq >>> 32 &&& 0xffff)).length)
        (toBE 4 (packetIndex roc seq &&& 0xffffffff)) = _ :=
    xorInto_xorInto (by simp [length_ssrcBlock])
  rw [index_halves, length_toBE] at hside
  exact hside

theorem length_ivBytes (salt : Bytes) (ssrc roc : UInt32) (seq : UInt16) :
    (ivBytes salt ssrc roc seq).length = 16 := by
  rw [ivBytes_eq, length_xorInto, length_ssrcBlock]
  rw [length_toBE, length_ssrcBlock]
  omega

def buildE2eRtpIv (salt : Bytes) (ssrc roc : UInt32) (seq : UInt16) : U8Array 16 :=
  ⟨ivBytes salt ssrc roc seq, length_ivBytes salt ssrc roc seq⟩

/-- AES-128-CTR of an RTP payload, both ways. -/
def cryptPayload (P : CallPrimitives) (keys : E2eSrtpKeys) (ssrc : UInt32) (seq : UInt16)
    (roc : UInt32) (payload : Bytes) : Bytes :=
  applyKeystream (P.aes128 keys.cipherKey) (buildE2eRtpIv keys.salt.bytes ssrc roc seq) payload

/-- WARP MI tag length in bytes. -/
def WARP_MI_TAG_LEN : Nat := 4

/-- The first `tagLen` bytes of `HMAC-SHA1(auth_key, packet || roc_be32)`. -/
def computeWarpMiTag (P : CallPrimitives) (authKey packetWithoutTag : Bytes) (roc : UInt32)
    (tagLen : Nat) : Bytes :=
  (P.hmacSha1 authKey (packetWithoutTag ++ toBE 4 roc.toNat)).bytes.take tagLen

def verifyWarpMiTag (P : CallPrimitives) (authKey packetWithoutTag : Bytes) (roc : UInt32)
    (tagLen : Nat) (receivedTag : Bytes) : Bool :=
  computeWarpMiTag P authKey packetWithoutTag roc tagLen == receivedTag

def appendWarpMiTag (P : CallPrimitives) (authKey packetWithoutTag : Bytes) (roc : UInt32)
    (tagLen : Nat) : Bytes :=
  packetWithoutTag ++ computeWarpMiTag P authKey packetWithoutTag roc tagLen

/-- One outbound packet: cleartext header, AES-CTR payload, tag over both. -/
def protectAudioRtp (P : CallPrimitives) (keys : E2eSrtpKeys) (headerBytes payload : Bytes)
    (ssrc : UInt32) (seq : UInt16) (roc : UInt32) : Bytes :=
  appendWarpMiTag P keys.authKey.bytes (headerBytes ++ cryptPayload P keys ssrc seq roc payload)
    roc WARP_MI_TAG_LEN

/-- One inbound packet: the tag is verified against the estimated ROC, and only on success is the
    ROC committed and the payload decrypted. -/
def unprotectAudioRtp (P : CallPrimitives) (keys : E2eSrtpKeys) (t : RecvRocTracker)
    (packet : Bytes) : Option (RtpHeader × Bytes) × RecvRocTracker :=
  if packet.length < WARP_MI_TAG_LEN then
    (none, t)
  else
    let body := packet.take (packet.length - WARP_MI_TAG_LEN)
    let tag := packet.drop (packet.length - WARP_MI_TAG_LEN)
    match rtpHeaderByteLength body with
    | none => (none, t)
    | some headerLen =>
        match parseRtpHeader body with
        | none => (none, t)
        | some hdr =>
            let roc := t.estimateRoc hdr.sequenceNumber
            if !verifyWarpMiTag P keys.authKey.bytes body roc WARP_MI_TAG_LEN tag then
              (none, t)
            else
              (some (hdr, cryptPayload P keys hdr.ssrc hdr.sequenceNumber roc
                (body.drop headerLen)), t.commitRoc roc hdr.sequenceNumber)

/-- The packet parses, and its tag verifies against the ROC estimated for it. -/
def tagVerifies (P : CallPrimitives) (keys : E2eSrtpKeys) (t : RecvRocTracker)
    (packet : Bytes) : Bool :=
  let body := packet.take (packet.length - WARP_MI_TAG_LEN)
  let tag := packet.drop (packet.length - WARP_MI_TAG_LEN)
  WARP_MI_TAG_LEN ≤ packet.length &&
    match parseRtpHeader body with
    | none => false
    | some hdr =>
        verifyWarpMiTag P keys.authKey.bytes body (t.estimateRoc hdr.sequenceNumber)
          WARP_MI_TAG_LEN tag

/-! ## 2. The IV holds the packet index -/

/-- **An IV determines the index of the packet it was built for.** -/
theorem iv_index_inj {salt : Bytes} {ssrc roc roc' : UInt32} {seq seq' : UInt16}
    (h : buildE2eRtpIv salt ssrc roc seq = buildE2eRtpIv salt ssrc roc' seq') :
    packetIndex roc seq = packetIndex roc' seq' := by
  have hb : ivBytes salt ssrc roc seq = ivBytes salt ssrc roc' seq' := congrArg U8Array.bytes h
  rw [ivBytes_eq, ivBytes_eq] at hb
  have hfield := xorInto_inj (by rw [length_toBE, length_ssrcBlock]; omega)
    (by rw [length_toBE, length_toBE]) hb
  exact toBE_inj (packetIndex_lt roc seq) (packetIndex_lt roc' seq') hfield

/-! ## 3. The send side -/

/-- The send side of a media loop: the sequencer and the ROC tracker it feeds. -/
structure AudioSender where
  rtp : RtpStream
  roc : RocTracker

/-- One call on the send side. -/
inductive SendCall
  | packet (payload : Bytes) (marker : Bool)
  | setPayloadType (pt : UInt8)
  | setMlowProfile (enabled : Bool)
  deriving Repr, DecidableEq

def SendCall.payload? : SendCall → Option Bytes
  | .packet payload _ => some payload
  | _ => none

/-- A packet as it was sent: its header, its payload and the ROC of its IV and its tag. -/
structure SentPacket where
  header : RtpHeader
  payload : Bytes
  roc : UInt32
  deriving Repr, DecidableEq

namespace SentPacket

/-- Its 48-bit index. -/
def index (p : SentPacket) : Nat := packetIndex p.roc p.header.sequenceNumber

/-- The IV its payload is encrypted under. -/
def iv (salt : U8Array 14) (p : SentPacket) : U8Array 16 :=
  buildE2eRtpIv salt.bytes p.header.ssrc p.roc p.header.sequenceNumber

/-- Its bytes on the wire. -/
def wire (P : CallPrimitives) (keys : E2eSrtpKeys) (p : SentPacket) : Bytes :=
  protectAudioRtp P keys (encodeRtpHeaderInto p.header []) p.payload p.header.ssrc
    p.header.sequenceNumber p.roc

end SentPacket

namespace AudioSender

def new (ssrc samplesPerPacket : UInt32) : AudioSender :=
  ⟨RtpStream.new ssrc samplesPerPacket, RocTracker.default⟩

/-- `next_packet`, then `advance`, for every payload. -/
def call (s : AudioSender) : SendCall → Option SentPacket × AudioSender
  | .packet payload marker =>
      let (header, rtp) := s.rtp.nextPacket payload marker
      let (roc, tracker) := s.roc.advance header.sequenceNumber
      (some ⟨header, payload, roc⟩, ⟨rtp, tracker⟩)
  | .setPayloadType pt => (none, { s with rtp := (s.rtp.setPayloadType pt).2 })
  | .setMlowProfile enabled => (none, { s with rtp := s.rtp.setMlowProfile enabled })

/-- The packets a list of calls sends, in order. -/
def sends (s : AudioSender) : List SendCall → List SentPacket
  | [] => []
  | c :: cs => (s.call c).1.toList ++ (s.call c).2.sends cs

/-- The next packet of the sender is number `n`. -/
def Counts (s : AudioSender) (n : Nat) : Prop := s.rtp.seq.toNat = n % 2 ^ 16 ∧ s.roc.Counts n

theorem counts_new (ssrc samplesPerPacket : UInt32) : (new ssrc samplesPerPacket).Counts 1 :=
  ⟨rfl, RocTracker.counts_default⟩

/-- **One call**: a setter sends nothing and does not touch the count; a packet has index `n`, and
    the sender counts on. -/
theorem counts_call {s : AudioSender} {n : Nat} (h : s.Counts n) (c : SendCall) :
    (s.call c).2.rtp.ssrc = s.rtp.ssrc ∧
    (((s.call c).1 = none ∧ (s.call c).2.Counts n) ∨
      ∃ p, (s.call c).1 = some p ∧ (s.call c).2.Counts (n + 1) ∧ p.index = n % 2 ^ 48 ∧
        p.header.ssrc = s.rtp.ssrc ∧ p.header.payloadType ≤ 127) := by
  obtain ⟨hseq, hroc⟩ := h
  cases c with
  | packet payload marker =>
      obtain ⟨hidx, hnext⟩ := RocTracker.counts_advance hroc hseq
      have hseq' : (s.rtp.seq + 1).toNat = (n + 1) % 2 ^ 16 := by
        rw [UInt16.toNat_add, hseq]
        exact Nat.mod_add_mod n (2 ^ 16) 1
      exact ⟨rfl, Or.inr ⟨_, rfl, ⟨hseq', hnext⟩, hidx, rfl, s.rtp.payloadType_le⟩⟩
  | setPayloadType pt =>
      obtain ⟨hs, hssrc⟩ := s.rtp.setPayloadType_keeps pt
      have hseq' : (s.rtp.setPayloadType pt).2.seq.toNat = n % 2 ^ 16 := by rw [hs, hseq]
      exact ⟨hssrc, Or.inl ⟨rfl, hseq', hroc⟩⟩
  | setMlowProfile enabled => exact ⟨rfl, Or.inl ⟨rfl, hseq, hroc⟩⟩

/-- **The whole stream**: the packets are numbered without gaps, and each carries the stream's
    SSRC and a payload type of seven bits. -/
theorem sends_numbered {s : AudioSender} {n : Nat} (h : s.Counts n) (cs : List SendCall) :
    (s.sends cs).map SentPacket.index = (List.range' n (s.sends cs).length).map (· % 2 ^ 48) ∧
    ∀ p ∈ s.sends cs, p.header.ssrc = s.rtp.ssrc ∧ p.header.payloadType ≤ 127 := by
  induction cs generalizing s n with
  | nil => exact ⟨rfl, fun p hp => nomatch hp⟩
  | cons c cs ih =>
      obtain ⟨hssrc, ⟨hnone, hc⟩ | ⟨p, hsome, hc, hidx, hp⟩⟩ := counts_call h c
      · obtain ⟨hmap, hall⟩ := ih hc
        rw [hssrc] at hall
        simp only [sends, hnone, Option.toList_none, List.nil_append]
        exact ⟨hmap, hall⟩
      · obtain ⟨hmap, hall⟩ := ih hc
        rw [hssrc] at hall
        simp only [sends, hsome, Option.toList_some, List.singleton_append, List.map_cons,
          List.length_cons, List.range'_succ, hmap, hidx]
        refine ⟨trivial, fun q hq => ?_⟩
        rcases List.mem_cons.mp hq with rfl | hq'
        · exact hp
        · exact hall q hq'

/-- Each payload is sent once, and in its turn. -/
theorem sends_payloads (s : AudioSender) (cs : List SendCall) :
    (s.sends cs).map SentPacket.payload = cs.filterMap SendCall.payload? := by
  induction cs generalizing s with
  | nil => rfl
  | cons c cs ih =>
      cases c with
      | packet payload marker => exact congrArg (payload :: ·) (ih _)
      | setPayloadType pt => exact ih _
      | setMlowProfile enabled => exact ih _

end AudioSender

/-- **No keystream is used twice on the send side.** Each payload gives a packet, the packets of a
    stream are numbered from 1 without gaps (modulo 2^48), and the IVs of the first 2^48 - 1 of them
    are pairwise distinct. -/
theorem ivs_distinct (ssrc samplesPerPacket : UInt32) (salt : U8Array 14) (cs : List SendCall) :
    let sent := (AudioSender.new ssrc samplesPerPacket).sends cs
    sent.map SentPacket.payload = cs.filterMap SendCall.payload? ∧
    sent.map SentPacket.index = (List.range' 1 sent.length).map (· % 2 ^ 48) ∧
    ((sent.take (2 ^ 48 - 1)).map (SentPacket.iv salt)).Nodup := by
  intro sent
  obtain ⟨hidx, hall⟩ :=
    AudioSender.sends_numbered (AudioSender.counts_new ssrc samplesPerPacket) cs
  refine ⟨AudioSender.sends_payloads _ cs, hidx, ?_⟩
  -- below 2^48 the numbers are their own remainders, so the indices are distinct
  have hnodup : ((sent.take (2 ^ 48 - 1)).map SentPacket.index).Nodup := by
    rw [List.map_take, hidx, ← List.map_take]
    refine List.Nodup.map_on ?_ (List.Nodup.sublist (List.take_sublist _ _) List.nodup_range')
    intro a ha b hb hab
    have hlt : ∀ x ∈ (List.range' 1 sent.length).take (2 ^ 48 - 1), x < 2 ^ 48 := by
      intro x hx
      obtain ⟨i, hi, rfl⟩ := List.mem_iff_getElem.mp hx
      rw [List.length_take] at hi
      rw [List.getElem_take, List.getElem_range']
      omega
    rw [Nat.mod_eq_of_lt (hlt a ha), Nat.mod_eq_of_lt (hlt b hb)] at hab
    exact hab
  rw [List.nodup_iff_pairwise_ne, List.pairwise_map] at hnodup ⊢
  refine hnodup.imp_of_mem ?_
  intro p q hp hq hne hiv
  apply hne
  have hps := (hall p (List.mem_of_mem_take hp)).1
  have hqs := (hall q (List.mem_of_mem_take hq)).1
  unfold SentPacket.iv at hiv
  rw [hps, hqs] at hiv
  exact iv_index_inj hiv

/-! ## 4. One packet received -/

section Receive

variable (P : CallPrimitives) (keys : E2eSrtpKeys)

/-- **A genuine packet, received under the ROC it was sent with**, comes out whole, and the tracker
    folds it. -/
theorem unprotect_wire {t : RecvRocTracker} {p : SentPacket} (hpt : p.header.payloadType ≤ 127)
    (hroc : t.estimateRoc p.header.sequenceNumber = p.roc) :
    unprotectAudioRtp P keys t (p.wire P keys) =
      (some ({ p.header with extensionWord := none }, p.payload),
        t.commitRoc p.roc p.header.sequenceNumber) := by
  obtain ⟨header, payload, roc⟩ := p
  have hroc' : t.estimateRoc header.sequenceNumber = roc := hroc
  have hpt' : header.payloadType ≤ 127 := hpt
  generalize hct : cryptPayload P keys header.ssrc header.sequenceNumber roc payload = ct
  generalize hbody : encodeRtpHeaderInto header [] ++ ct = body
  generalize htag : computeWarpMiTag P keys.authKey.bytes body roc WARP_MI_TAG_LEN = tag
  have htaglen : tag.length = WARP_MI_TAG_LEN := by
    rw [← htag, computeWarpMiTag, List.length_take, U8Array.length_bytes]
    rfl
  have hwire : SentPacket.wire P keys ⟨header, payload, roc⟩ = body ++ tag := by
    simp only [SentPacket.wire, protectAudioRtp, appendWarpMiTag, hct, hbody, htag]
  have hcut : (body ++ tag).length - WARP_MI_TAG_LEN = body.length := by
    rw [List.length_append, htaglen, Nat.add_sub_cancel]
  have hlen : rtpHeaderByteLength body = some header.byteSize := by
    rw [← hbody]
    exact rtpHeaderByteLength_encode header ct
  have hparse : parseRtpHeader body = some { header with extensionWord := none } := by
    rw [← hbody]
    exact parseRtpHeader_encode header hpt' ct
  have hdrop : body.drop header.byteSize = ct := by
    rw [← hbody, ← length_encodeRtpHeader, List.drop_left]
  have hverify : verifyWarpMiTag P keys.authKey.bytes body roc WARP_MI_TAG_LEN tag = true := by
    rw [verifyWarpMiTag, htag]
    exact beq_self_eq_true tag
  have hplain : cryptPayload P keys header.ssrc header.sequenceNumber roc ct = payload := by
    rw [← hct]
    exact applyKeystream_involutive _ _ _
  unfold unprotectAudioRtp
  rw [hwire, if_neg (by rw [List.length_append, htaglen]; omega)]
  simp only [hcut, List.take_left, List.drop_left, hlen, hparse, hroc', hverify, hdrop, hplain,
    Bool.not_true, Bool.false_eq_true, if_false]

/-- **A packet whose tag does not verify is dropped, and the tracker is as before.** -/
theorem unprotect_unverified {t : RecvRocTracker} {packet : Bytes}
    (h : tagVerifies P keys t packet = false) : unprotectAudioRtp P keys t packet = (none, t) := by
  unfold unprotectAudioRtp
  by_cases hshort : packet.length < WARP_MI_TAG_LEN
  · rw [if_pos hshort]
  · rw [if_neg hshort]
    have hlong : decide (WARP_MI_TAG_LEN ≤ packet.length) = true :=
      decide_eq_true (Nat.le_of_not_lt hshort)
    unfold tagVerifies at h
    rw [hlong, Bool.true_and] at h
    dsimp only at h ⊢
    split
    · rfl
    · split
      · rfl
      · rename_i hdr hparse
        rw [hparse] at h
        dsimp only at h
        rw [h]
        rfl

/-! ## 5. A whole stream received -/

/-- What reaches the receiver: a packet of the stream, or any bytes at all. -/
inductive Arrival
  | genuine (p : SentPacket)
  | forged (packet : Bytes)
  deriving Repr, DecidableEq

/-- The bytes that arrive. -/
def Arrival.packet : Arrival → Bytes
  | .genuine p => p.wire P keys
  | .forged packet => packet

/-- What the receiver should make of them. -/
def Arrival.expected : Arrival → Option (RtpHeader × Bytes)
  | .genuine p => some ({ p.header with extensionWord := none }, p.payload)
  | .forged _ => none

/-- The receiver's tracker after a list of packets. -/
def trackerAfter (t : RecvRocTracker) (packets : List Bytes) : RecvRocTracker :=
  packets.foldl (fun t packet => (unprotectAudioRtp P keys t packet).2) t

/-- What `unprotect_audio_rtp` returns, packet by packet. -/
def received (t : RecvRocTracker) : List Bytes → List (Option (RtpHeader × Bytes))
  | [] => []
  | packet :: packets =>
      (unprotectAudioRtp P keys t packet).1 ::
        received (unprotectAudioRtp P keys t packet).2 packets

/-- The orders of arrival considered, with the highest index accepted so far: every genuine packet
    was sent, the first of them with ROC 0 and each other within 2^15 of the highest index; and
    the tag of a forged packet does not verify when it arrives. -/
def Plausible (sent : List SentPacket) (t : RecvRocTracker) (high : Option Nat) :
    List Arrival → Prop
  | [] => True
  | .genuine p :: as =>
      p ∈ sent ∧ RecvRocTracker.Reachable p.roc p.header.sequenceNumber high ∧
        Plausible sent (unprotectAudioRtp P keys t (p.wire P keys)).2
          (RecvRocTracker.raise high p.index) as
  | .forged packet :: as =>
      tagVerifies P keys t packet = false ∧
        Plausible sent (unprotectAudioRtp P keys t packet).2 high as

/-- The run: from a tracker that holds the highest index accepted, everything comes out as it
    should, and every forgery leaves the tracker alone. -/
theorem received_of_plausible {sent : List SentPacket}
    (hsent : ∀ p ∈ sent, p.header.payloadType ≤ 127) {as : List Arrival} {t : RecvRocTracker}
    {high : Option Nat} (ht : t.Holds high) (h : Plausible P keys sent t high as) :
    received P keys t (as.map (Arrival.packet P keys)) = as.map Arrival.expected ∧
    ∀ before packet after, as = before ++ .forged packet :: after →
      (unprotectAudioRtp P keys (trackerAfter P keys t (before.map (Arrival.packet P keys)))
        packet).2 = trackerAfter P keys t (before.map (Arrival.packet P keys)) := by
  induction as generalizing t high with
  | nil => exact ⟨rfl, fun before packet after hsplit => by simp at hsplit⟩
  | cons a as ih =>
      cases a with
      | genuine p =>
          obtain ⟨hmem, hreach, hrest⟩ := h
          have hstep := unprotect_wire P keys (hsent p hmem)
            (RecvRocTracker.estimateRoc_near ht hreach)
          rw [hstep] at hrest
          obtain ⟨hrec, hforged⟩ := ih (RecvRocTracker.holds_commit ht hreach) hrest
          refine ⟨?_, fun before packet after hsplit => ?_⟩
          · simp only [List.map_cons, received, Arrival.packet, hstep, hrec]
            rfl
          · cases before with
            | nil => cases hsplit
            | cons b before =>
                obtain ⟨rfl, rfl⟩ := List.cons.inj hsplit
                simp only [List.map_cons, trackerAfter, List.foldl_cons, Arrival.packet, hstep]
                exact hforged before packet after rfl
      | forged packet =>
          obtain ⟨hbad, hrest⟩ := h
          have hstep := unprotect_unverified P keys hbad
          rw [hstep] at hrest
          obtain ⟨hrec, hforged⟩ := ih ht hrest
          refine ⟨?_, fun before packet' after hsplit => ?_⟩
          · simp only [List.map_cons, received, Arrival.packet, hstep, hrec]
            rfl
          · cases before with
            | nil =>
                obtain ⟨hhead, -⟩ := List.cons.inj hsplit
                cases hhead
                exact congrArg Prod.snd hstep
            | cons b before =>
                obtain ⟨rfl, rfl⟩ := List.cons.inj hsplit
                simp only [List.map_cons, trackerAfter, List.foldl_cons, Arrival.packet, hstep]
                exact hforged before packet' after rfl

/-- **An SRTP audio stream survives loss, reordering, duplication, rollover and forgery.** For any
    keys, any packets sent and any arrivals -- the first genuine one sent with ROC 0, each other
    less than 2^15 away from the highest index accepted, and forgeries whose tag does not verify
    in between -- every genuine packet is returned with its fields and its payload, every forgery
    is dropped, and a forgery leaves the tracker as it found it. -/
theorem stream_received (ssrc samplesPerPacket : UInt32) (cs : List SendCall)
    (as : List Arrival)
    (h : Plausible P keys ((AudioSender.new ssrc samplesPerPacket).sends cs) .default none as) :
    received P keys .default (as.map (Arrival.packet P keys)) = as.map Arrival.expected ∧
    ∀ before packet after, as = before ++ .forged packet :: after →
      (unprotectAudioRtp P keys
        (trackerAfter P keys .default (before.map (Arrival.packet P keys))) packet).2 =
        trackerAfter P keys .default (before.map (Arrival.packet P keys)) := by
  have hnumbered :=
    (AudioSender.sends_numbered (AudioSender.counts_new ssrc samplesPerPacket) cs).2
  have hfresh : RecvRocTracker.default.Holds none := rfl
  exact received_of_plausible P keys (fun p hp => (hnumbered p hp).2) hfresh h

end Receive

/-! ### Speech, across a rollover -/

namespace Sample

/-- AES-128 and HMAC-SHA1 under keys of zeros, at what is sent and received below. -/
def primitives : CallPrimitives where
  aes128 key block := Crypto.known [
    ((.replicate 16 0, .ofNat 16 0x00000000000000070000000000010000),
      .ofNat 16 0x8c6fc119726974e9045a51777b5e39c7),
    ((.replicate 16 0, .ofNat 16 0x00000000000000070000000000020000),
      .ofNat 16 0x1d7ba0bd32c011ef98aa8eae5086965a),
    ((.replicate 16 0, .ofNat 16 0x00000000000000070000000080010000),
      .ofNat 16 0x4dd6f0a9f3298b07c501c8adf6bc7305),
    ((.replicate 16 0, .ofNat 16 0x000000000000000700000000ffff0000),
      .ofNat 16 0x73c68aeadbe059ad5e4d93d6e2b6eb4c),
    ((.replicate 16 0, .ofNat 16 0x00000000000000070000000100000000),
      .ofNat 16 0xf072bacc9467cdc006e9c54032933922)]
    (.replicate 16 0) (key, block)
  hmacSha1 _ message := Crypto.known [
    (toBE 28 0x90f800010000000000000007debe0000cd03ad765e491c8000000000,
      .ofNat 20 0x257a21e0dd23f284490a5b0d1d5a4c01a9a13206),
    (toBE 28 0x90780002000003c000000007debe00005c17ccd21ee0798600000000,
      .ofNat 20 0x05d9a20e6837f83339db88ddb6b054824bd94479),
    (toBE 28 0x9078800101e0000000000007debe00000cba9cc6df09e36e00000000,
      .ofNat 20 0x3328b58e31e698205804d0f9e6b499ac54300c61),
    (toBE 28 0x9078ffff03bff88000000007debe000032aae685f7c031c400000000,
      .ofNat 20 0x0f7344ec68598d26fc9a0aa0eb7f4d04dc79a92f),
    (toBE 28 0x9078000003bffc4000000007debe0000b11ed6a3b847a5a900000001,
      .ofNat 20 0xabc93c5c054d1aa2ec7a82f02954cdfed531d07c),
    (toBE 28 0x907800030000078000000007debe0000010203040506070800000000,
      .ofNat 20 0xe1583b6468e9862f6539b385221b384aa6153458)]
    (.replicate 20 0) message

def zeroKeys : E2eSrtpKeys := ⟨.replicate 16 0, .replicate 14 0, .replicate 20 0⟩

def speech : Bytes := [0x41, 0x6c, 0x6c, 0x6f, 0x2c, 0x20, 0x68, 0x69]

/-- Packet `n` of a stream of speech. -/
def spoken (n : Nat) : SentPacket :=
  ⟨⟨n == 1, 120, .ofNat n, 960 * .ofNat (n - 1), 7, none⟩, speech, .ofNat (n / 2 ^ 16)⟩

/-- The sender after `n` of them. -/
def speaking (n : Nat) : AudioSender where
  rtp := { RtpStream.new 7 960 with
    seq := .ofNat (n + 1), timestamp := 960 * .ofNat n
    lastSentTimestamp := some (960 * .ofNat (n - 1)), speechStarted := true }
  roc := ⟨.ofNat (n / 2 ^ 16), .ofNat n, true⟩

/-- The ROC of the next packet: the sequence number falls to 0 when an epoch is complete. -/
theorem roc_speaking (n : Nat) :
    (speaking n).roc.advance (.ofNat (n + 1)) =
      (.ofNat ((n + 1) / 2 ^ 16), (speaking (n + 1)).roc) := by
  have hwrap : ((UInt16.ofNat (n + 1)).toNat : Int) - ((UInt16.ofNat n).toNat : Int) < -32768 ↔
      (n + 1) % 2 ^ 16 = 0 := by
    rw [UInt16.toNat_ofNat', UInt16.toNat_ofNat']
    omega
  have hroc : (if ((UInt16.ofNat (n + 1)).toNat : Int) - ((UInt16.ofNat n).toNat : Int) < -32768
      then UInt32.ofNat (n / 2 ^ 16) + 1 else UInt32.ofNat (n / 2 ^ 16)) =
        UInt32.ofNat ((n + 1) / 2 ^ 16) := by
    split
    · next h =>
        have hepoch : (n + 1) / 2 ^ 16 = n / 2 ^ 16 + 1 := by
          have := hwrap.mp h
          omega
        rw [hepoch, UInt32.ofNat_add]
        rfl
    · next h =>
        have hepoch : (n + 1) / 2 ^ 16 = n / 2 ^ 16 := by
          have := mt hwrap.mpr h
          omega
        rw [hepoch]
  unfold RocTracker.advance speaking
  simp only [Bool.not_true, Bool.false_eq_true, if_false, hroc]

/-- Its header: no marker, as speech has started. -/
theorem rtp_speaking {n : Nat} (hn : 1 ≤ n) :
    (speaking n).rtp.nextPacket speech false =
      ((spoken (n + 1)).header, (speaking (n + 1)).rtp) := by
  have hlater : (n + 1 == 1) = false := beq_eq_false_iff_ne.mpr (by omega)
  have hseq : UInt16.ofNat (n + 1) + 1 = UInt16.ofNat (n + 1 + 1) := (UInt16.ofNat_add _ 1).symm
  have htime : 960 * UInt32.ofNat n + 960 = 960 * UInt32.ofNat (n + 1) := by
    rw [UInt32.ofNat_add, UInt32.mul_add]
    rfl
  have hdtx : isMlowDtxPayload speech = false := rfl
  have hpriming : isOpusPrimingPayload speech = false := by decide
  unfold RtpStream.nextPacket speaking spoken
  simp only [RtpStream.new, hdtx, hpriming, hlater, hseq, htime, if_true, if_false,
    Bool.false_eq_true, Bool.not_false, Bool.and_self, Bool.not_true, Bool.and_false, Bool.or_self,
    Nat.add_sub_cancel]
  rfl

/-- **One packet of speech after others.** -/
theorem call_speaking {n : Nat} (hn : 1 ≤ n) :
    (speaking n).call (.packet speech false) = (some (spoken (n + 1)), speaking (n + 1)) := by
  unfold AudioSender.call
  dsimp only
  rw [rtp_speaking hn]
  dsimp only
  have hroc : (speaking n).roc.advance (spoken (n + 1)).header.sequenceNumber = _ := roc_speaking n
  rw [hroc]
  rfl

/-- The calls that send `k` packets of speech. -/
def speak (k : Nat) : List SendCall := .replicate k (.packet speech false)

theorem mem_speaking {n k m : Nat} (hn : 1 ≤ n) (hlow : n < m) (hhigh : m ≤ n + k) :
    spoken m ∈ (speaking n).sends (speak k) := by
  induction k generalizing n with
  | zero => omega
  | succ k ih =>
      have hsends : (speaking n).sends (speak (k + 1)) =
          spoken (n + 1) :: (speaking (n + 1)).sends (speak k) := by
        unfold speak
        rw [List.replicate_succ, AudioSender.sends, call_speaking hn]
        rfl
      rw [hsends]
      by_cases hfirst : m = n + 1
      · exact hfirst ▸ List.mem_cons_self
      · exact List.mem_cons_of_mem _ (ih (by omega) (by omega) (by omega))

/-- Every packet of the stream is among those that are sent. -/
theorem mem_spoken {k m : Nat} (hlow : 1 ≤ m) (hhigh : m ≤ k + 1) :
    spoken m ∈ (AudioSender.new 7 960).sends (speak (k + 1)) := by
  have hsends : (AudioSender.new 7 960).sends (speak (k + 1)) =
      spoken 1 :: (speaking 1).sends (speak k) := rfl
  rw [hsends]
  by_cases hfirst : m = 1
  · exact hfirst ▸ List.mem_cons_self
  · exact List.mem_cons_of_mem _ (mem_speaking (Nat.le_refl 1) (by omega) (by omega))

/-- A wrong tag behind a packet that could be the third. -/
def forgery : Bytes := toBE 28 0x907800030000078000000007debe0000010203040506070800000000

end Sample

/-- The second packet arrives first, then a forgery, the first packet, one that is just within reach,
    the one behind the rollover, the one in front of it, and again the one behind it. -/
theorem stream_received_swapped :
    received Sample.primitives Sample.zeroKeys .default
      ([.genuine (Sample.spoken 2), .forged Sample.forgery, .genuine (Sample.spoken 1),
        .genuine (Sample.spoken 32769), .genuine (Sample.spoken 65536),
        .genuine (Sample.spoken 65535), .genuine (Sample.spoken 65536)].map
          (Arrival.packet Sample.primitives Sample.zeroKeys)) =
    [some ((Sample.spoken 2).header, Sample.speech), none,
      some ((Sample.spoken 1).header, Sample.speech),
      some ((Sample.spoken 32769).header, Sample.speech),
      some ((Sample.spoken 65536).header, Sample.speech),
      some ((Sample.spoken 65535).header, Sample.speech),
      some ((Sample.spoken 65536).header, Sample.speech)] := by
  have hplausible : Plausible Sample.primitives Sample.zeroKeys
      ((AudioSender.new 7 960).sends (Sample.speak 65536)) .default none
      [.genuine (Sample.spoken 2), .forged Sample.forgery, .genuine (Sample.spoken 1),
        .genuine (Sample.spoken 32769), .genuine (Sample.spoken 65536),
        .genuine (Sample.spoken 65535), .genuine (Sample.spoken 65536)] := by
    refine ⟨Sample.mem_spoken (by decide) (by decide), rfl, by decide +kernel,
      Sample.mem_spoken (by decide) (by decide), by decide +kernel,
      Sample.mem_spoken (by decide) (by decide), by decide +kernel,
      Sample.mem_spoken (by decide) (by decide), by decide +kernel,
      Sample.mem_spoken (by decide) (by decide), by decide +kernel,
      Sample.mem_spoken (by decide) (by decide), by decide +kernel, trivial⟩
  exact (stream_received Sample.primitives Sample.zeroKeys 7 960 (Sample.speak 65536) _
    hplausible).1

end Ruwa.Call
