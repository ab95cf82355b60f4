/-
  File:      Ruwa/Protocol/Frame.lean
  Subject:   THE FRAME LAYER (`protocol.rs`, module `frame`): length-prefixed frames on the
             WebSocket, and the decoder that puts them together again.

  Each frame is `[3-byte BE length][payload of that length]`. The WebSocket delivers bytes in
  whatever pieces it likes; `FrameDecoder` buffers them.

  * `frameCode` -- the frame layer IS a self-delimiting code: this is the one place where the
    3-byte header is computed with;
  * `absDecoding_call` -- a call on the decoder is the operation of the general decoder of
    `Library/Framing.lean` on its buffer;
  * **`frames_reassemble`** -- so the frames returned do not depend on how the stream was cut.
-/
import Ruwa.Library.Bytes
import Ruwa.Library.Framing

namespace Ruwa.Protocol.Frame

open Ruwa.Library

/-! ## 1. The source -/

/-- 3-byte big-endian length prefix. -/
def FRAME_LENGTH_SIZE : Nat := 3

/-- `1 << 24`: the server enforces this, the client fails loudly. -/
def FRAME_MAX_SIZE : Nat := 1 <<< 24

inductive FrameError
  | tooLarge (len : Nat)
  deriving Repr, DecidableEq

/-- The three length bytes of a frame. -/
def lengthPrefix (len : Nat) : Bytes :=
  [UInt8.ofNat (len >>> 16), UInt8.ofNat (len >>> 8), UInt8.ofNat len]

/-- One frame, ready to ship. `header` is the connection header on the very first send of a
    connection and `none` afterwards. -/
def encodeFrame (payload : Bytes) (header : Option Bytes) : Except FrameError Bytes :=
  if payload.length ≥ FRAME_MAX_SIZE then
    .error (.tooLarge payload.length)
  else
    .ok (header.getD [] ++ lengthPrefix payload.length ++ payload)

/-- The stateful receiver. -/
structure FrameDecoder where
  buf : Bytes
  deriving Repr, DecidableEq

namespace FrameDecoder

def new : FrameDecoder := ⟨[]⟩

def feed (d : FrameDecoder) (chunk : Bytes) : FrameDecoder := ⟨d.buf ++ chunk⟩

/-- The length the first three bytes of a buffer announce. -/
def announced (buf : Bytes) : Nat :=
  (buf.getD 0 0).toNat <<< 16 ||| (buf.getD 1 0).toNat <<< 8 ||| (buf.getD 2 0).toNat

/-- Pops the first complete frame, if there is one. -/
def nextFrame (d : FrameDecoder) : Option Bytes × FrameDecoder :=
  if d.buf.length < FRAME_LENGTH_SIZE then
    (none, d)
  else
    let len := announced d.buf
    if d.buf.length < FRAME_LENGTH_SIZE + len then
      (none, d)
    else
      (some ((d.buf.drop FRAME_LENGTH_SIZE).take len), ⟨d.buf.drop (FRAME_LENGTH_SIZE + len)⟩)

def pending (d : FrameDecoder) : Nat := d.buf.length

end FrameDecoder

/-! ## 2. The length prefix -/

theorem lengthPrefix_eq (len : Nat) : lengthPrefix len = toBE 3 len := by
  simp [lengthPrefix, toBE, Nat.shiftRight_eq_div_pow, Nat.div_div_eq_div_mul]

theorem announced_lengthPrefix {len : Nat} (h : len < FRAME_MAX_SIZE) (rest : Bytes) :
    FrameDecoder.announced (lengthPrefix len ++ rest) = len := by
  have h' : len < 256 ^ 3 := h
  show (UInt8.ofNat (len >>> 16)).toNat <<< 16 ||| (UInt8.ofNat (len >>> 8)).toNat <<< 8 |||
    (UInt8.ofNat len).toNat = len
  rw [shift_or_three]
  exact (congrArg fromBE (lengthPrefix_eq len)).trans (fromBE_toBE 3 len h')

@[simp] theorem length_lengthPrefix (len : Nat) : (lengthPrefix len).length = FRAME_LENGTH_SIZE :=
  rfl

/-! ## 3. Frames are a self-delimiting code -/

/-- What `encode_frame` writes for a payload that is not too large, without a header. -/
def frameBytes (payload : Bytes) : Bytes := lengthPrefix payload.length ++ payload

theorem encodeFrame_eq {payload : Bytes} (h : payload.length < FRAME_MAX_SIZE) :
    encodeFrame payload none = .ok (frameBytes payload) := by
  simp [encodeFrame, frameBytes, Nat.not_le.mpr h]

namespace FrameDecoder

theorem nextFrame_frameBytes {payload : Bytes} (h : payload.length < FRAME_MAX_SIZE)
    (rest : Bytes) : nextFrame ⟨frameBytes payload ++ rest⟩ = (some payload, ⟨rest⟩) := by
  have hann : announced (frameBytes payload ++ rest) = payload.length := by
    rw [frameBytes, List.append_assoc]
    exact announced_lengthPrefix h _
  have hlen : (frameBytes payload ++ rest).length =
      FRAME_LENGTH_SIZE + payload.length + rest.length := by
    simp [frameBytes, Nat.add_assoc]
  unfold nextFrame
  rw [if_neg (by simp only [hlen]; omega), hann, if_neg (by simp only [hlen]; omega)]
  have hdrop : (frameBytes payload ++ rest).drop FRAME_LENGTH_SIZE = payload ++ rest := rfl
  simp only [← List.drop_drop, hdrop, List.take_left, List.drop_left]

theorem nextFrame_short {payload buf : Bytes} (h : payload.length < FRAME_MAX_SIZE)
    (hp : buf <+: frameBytes payload) (hl : buf.length < (frameBytes payload).length) :
    nextFrame ⟨buf⟩ = (none, ⟨buf⟩) := by
  unfold nextFrame
  by_cases h3 : buf.length < FRAME_LENGTH_SIZE
  · rw [if_pos h3]
  · -- the header is complete, so it announces the length of the payload it belongs to
    have hpre : lengthPrefix payload.length <+: buf :=
      List.prefix_of_prefix_length_le (List.prefix_append _ payload) hp (Nat.le_of_not_lt h3)
    obtain ⟨tail, rfl⟩ := hpre
    have hlen : (frameBytes payload).length = FRAME_LENGTH_SIZE + payload.length := by
      simp [frameBytes]
    rw [if_neg h3, announced_lengthPrefix h, if_pos (hlen ▸ hl)]

end FrameDecoder

/-- The first frame of a buffer, as the general decoder reads it. -/
def nextOf (buf : Bytes) : Option (Bytes × Bytes) :=
  match FrameDecoder.nextFrame ⟨buf⟩ with
  | (some frame, d) => some (frame, d.buf)
  | (none, _) => none

/-- **The frame layer as a self-delimiting code** for the payloads `encode_frame` takes. -/
def frameCode : FrameCode UInt8 Bytes where
  Valid payload := payload.length < FRAME_MAX_SIZE
  enc := frameBytes
  next := nextOf
  next_enc rest h := by
    unfold nextOf
    rw [FrameDecoder.nextFrame_frameBytes h rest]
  next_short h hp hl := by
    unfold nextOf
    rw [FrameDecoder.nextFrame_short h hp hl]
  next_nil := rfl

/-! ## 4. Runs of the decoder -/

/-- One call on the decoder. -/
inductive DecoderCall
  | feed (chunk : Bytes)
  | nextFrame
  deriving Repr, DecidableEq

/-- The decoder together with the frames it has returned so far, oldest first. -/
structure Reception where
  decoder : FrameDecoder
  returned : List Bytes
  deriving Repr, DecidableEq

namespace Reception

def start : Reception := ⟨.new, []⟩

def call (r : Reception) : DecoderCall → Reception
  | .feed chunk => { r with decoder := r.decoder.feed chunk }
  | .nextFrame =>
      match r.decoder.nextFrame with
      | (some frame, d) => ⟨d, r.returned ++ [frame]⟩
      | (none, d) => { r with decoder := d }

def calls (r : Reception) (cs : List DecoderCall) : Reception := cs.foldl call r

end Reception

/-- The bytes a list of calls feeds, in order. -/
def fedBytes : List DecoderCall → Bytes
  | [] => []
  | .feed chunk :: cs => chunk ++ fedBytes cs
  | .nextFrame :: cs => fedBytes cs

/-- A decoder read as the general one. -/
def absDecoding (r : Reception) : FrameCode.Decoding UInt8 Bytes := ⟨r.decoder.buf, r.returned⟩

def absCall : DecoderCall → FrameCode.Op UInt8
  | .feed chunk => .feed chunk
  | .nextFrame => .read

/-- A call that returns no frame leaves the decoder alone. -/
theorem nextFrame_none {d d' : FrameDecoder} (h : d.nextFrame = (none, d')) : d' = d := by
  unfold FrameDecoder.nextFrame at h
  split at h
  · cases h
    rfl
  · dsimp only at h
    split at h
    · cases h
      rfl
    · cases h

/-- **One call refines one operation of the general decoder.** -/
theorem absDecoding_call (r : Reception) (x : DecoderCall) :
    absDecoding (r.call x) = frameCode.step (absDecoding r) (absCall x) := by
  cases x with
  | feed chunk => rfl
  | nextFrame =>
      obtain ⟨d, returned⟩ := r
      show absDecoding (Reception.call ⟨d, returned⟩ .nextFrame) =
        frameCode.step ⟨d.buf, returned⟩ .read
      simp only [Reception.call, FrameCode.step, frameCode, nextOf]
      rcases hn : d.nextFrame with ⟨_ | frame, d'⟩
      · have : d' = d := nextFrame_none hn
        subst this
        rfl
      · rfl

theorem absDecoding_calls (r : Reception) (cs : List DecoderCall) :
    absDecoding (r.calls cs) = frameCode.run (absDecoding r) (cs.map absCall) := by
  induction cs generalizing r with
  | nil => rfl
  | cons x cs ih =>
      show absDecoding ((r.call x).calls cs) = _
      rw [ih, absDecoding_call]
      rfl

theorem fed_absCall (cs : List DecoderCall) : FrameCode.fed (cs.map absCall) = fedBytes cs := by
  induction cs with
  | nil => rfl
  | cons x cs ih => cases x <;> simp [absCall, FrameCode.fed, fedBytes, ih]

theorem nextOf_of_nextFrame {d : FrameDecoder} (h : d.nextFrame.1 = none) :
    frameCode.next d.buf = none := by
  show nextOf d.buf = none
  unfold nextOf
  rcases hn : FrameDecoder.nextFrame ⟨d.buf⟩ with ⟨_ | frame, d'⟩
  · rfl
  · have : d.nextFrame = (some frame, d') := hn
    rw [this] at h
    cases h

/-- `encode_frame(_, None)` of every payload of a list. -/
def encodeFrames (payloads : List Bytes) : Except FrameError (List Bytes) :=
  payloads.mapM (encodeFrame · none)

theorem encodeFrames_eq {payloads : List Bytes}
    (h : ∀ p ∈ payloads, p.length < FRAME_MAX_SIZE) :
    encodeFrames payloads = .ok (payloads.map frameBytes) := by
  induction payloads with
  | nil => rfl
  | cons p ps ih =>
      have ih' := ih fun q hq => h q (List.mem_cons_of_mem p hq)
      unfold encodeFrames at ih' ⊢
      rw [List.mapM_cons, encodeFrame_eq (h p List.mem_cons_self), ih']
      rfl

/-- **Frame reassembly is independent of chunking.** Payloads below the limit all encode; and
    whatever the calls -- `feed` of the pieces of the stream in order, `next_frame` in between
    as often as anyone likes -- the frames returned are a beginning of the payload list. Once
    the whole stream is fed, a decoder with no further frame has returned exactly the payloads
    and holds nothing, and `payloads.length` further calls are enough to get there. -/
theorem frames_reassemble (payloads : List Bytes) (hlen : ∀ p ∈ payloads, p.length < 2 ^ 24) :
    ∃ frames, encodeFrames payloads = .ok frames ∧
      ∀ (cs : List DecoderCall) (unfed : Bytes), fedBytes cs ++ unfed = frames.flatten →
        (Reception.start.calls cs).returned <+: payloads ∧
        (unfed = [] →
          ((Reception.start.calls cs).decoder.nextFrame.1 = none →
            (Reception.start.calls cs).returned = payloads ∧
            (Reception.start.calls cs).decoder.pending = 0) ∧
          ∀ n, payloads.length ≤ n →
            let drained := Reception.start.calls (cs ++ List.replicate n .nextFrame)
            drained.returned = payloads ∧ drained.decoder.pending = 0 ∧
              drained.decoder.nextFrame.1 = none) := by
  refine ⟨payloads.map frameBytes, encodeFrames_eq hlen, fun cs unfed hfed => ?_⟩
  have hv : ∀ p ∈ payloads, frameCode.Valid p := hlen
  have hflat : fedBytes cs ++ unfed = payloads.flatMap frameCode.enc := by
    rw [hfed, List.flatMap_def]
    rfl
  have hstream : (absDecoding .start).buf ++ (FrameCode.fed (cs.map absCall) ++ unfed) =
      payloads.flatMap frameCode.enc := by
    rw [fed_absCall, hflat]
    rfl
  have habs : ∀ cs', absDecoding (Reception.start.calls cs') =
      frameCode.run (absDecoding .start) (cs'.map absCall) := absDecoding_calls .start
  obtain ⟨got, later, hsplit, hout, hbuf⟩ := frameCode.run_sound hv hstream
  rw [← habs] at hout hbuf
  have hgot : (Reception.start.calls cs).returned = got := hout
  refine ⟨⟨later, by rw [hgot, hsplit]⟩, fun hunfed => ⟨fun hnone => ?_, fun n hn => ?_⟩⟩
  · have hdrained := frameCode.run_drained (d := absDecoding .start) hv
      (by rw [← hstream, hunfed, List.append_nil]) (by rw [← habs]; exact nextOf_of_nextFrame hnone)
    rw [← habs] at hdrained
    exact ⟨hdrained.1, congrArg List.length hdrained.2⟩
  · rw [hunfed, List.append_nil] at hbuf
    have hlater : later.length ≤ n := by
      rw [hsplit, List.length_append] at hn
      omega
    have hdrain := frameCode.run_drain hlater
      (fun p hp => hv p (hsplit ▸ List.mem_append_right got hp)) _ hbuf
    have hall : absDecoding (Reception.start.calls (cs ++ List.replicate n .nextFrame)) =
        ⟨[], payloads⟩ := by
      rw [habs, List.map_append, List.map_replicate, FrameCode.run_append, ← habs]
      show frameCode.run _ (List.replicate n .read) = _
      rw [hdrain, hout, hsplit]
      rfl
    have hempty : (Reception.start.calls (cs ++ List.replicate n .nextFrame)).decoder.buf = [] :=
      congrArg FrameCode.Decoding.buf hall
    refine ⟨congrArg FrameCode.Decoding.out hall, congrArg List.length hempty, ?_⟩
    simp [FrameDecoder.nextFrame, hempty, FRAME_LENGTH_SIZE]

/-- Two frames, cut inside the second header, with reads in between. -/
theorem frames_reassemble_two : ∃ frames, encodeFrames [[7, 8], []] = .ok frames ∧
    (Reception.start.calls [.feed [0, 0, 2, 7, 8, 0], .nextFrame, .nextFrame, .feed [0, 0],
      .nextFrame]).returned <+: [[7, 8], []] := by
  obtain ⟨frames, henc, hall⟩ := frames_reassemble [[7, 8], []] (by decide)
  have hframes : frames = [[0, 0, 2, 7, 8], [0, 0, 0]] := by
    have : encodeFrames [[7, 8], []] = .ok [[0, 0, 2, 7, 8], [0, 0, 0]] := by rfl
    rw [this] at henc
    cases henc
    rfl
  exact ⟨frames, henc, (hall [.feed [0, 0, 2, 7, 8, 0], .nextFrame, .nextFrame, .feed [0, 0],
    .nextFrame] [] (by rw [hframes]; rfl)).1⟩

end Ruwa.Protocol.Frame
