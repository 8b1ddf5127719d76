/-
Module: AetherFlow.Net.Framing
Purpose: The framing layer of `core/src/net.rs`: the two codecs, and the adapter `Framed` that hands a
  handler whole frames. TCP may deliver a stream in any pieces; the laws of `Decoder` are proved for
  both codecs, and the adapter is then the draining loop of that library.
Trusted boundary: human-reviewed transcription of `LengthPrefixed`, `Lines`, `Framed` and `Io`
Main exports: Io, LengthPrefixed.codec, Lines.codec, FramedConnection, Session, Session.onData,
  IgnoresSegmentation
-/
import AetherFlow.Lib.Decoder

namespace AetherFlow.Net

/-- The outbound handle of a connection. -/
structure Io where
  out : List UInt8
  close : Bool
deriving DecidableEq

namespace Io

def new : Io := ⟨[], false⟩

/-- `Io::write`. -/
def write (io : Io) (bytes : List UInt8) : Io := { io with out := io.out ++ bytes }

/-- `Io::close`. -/
def requestClose (io : Io) : Io := { io with close := true }

end Io

/-- A `Codec` without state of its own, as both codecs of the source are. -/
abbrev Codec := Decoder UInt8 (List UInt8)

/-! ### `LengthPrefixed` -/

namespace LengthPrefixed

/-- `u32::from_be_bytes(..) as usize`. With 64-bit `usize` the sum `4 + n` cannot overflow. -/
def payloadLength (b₀ b₁ b₂ b₃ : UInt8) : Nat :=
  (b₀.toBitVec ++ b₁.toBitVec ++ b₂.toBitVec ++ b₃.toBitVec).toNat

/-- `LengthPrefixed::decode`: the frame, and what is left of the buffer. -/
def decode (buf : List UInt8) : Option (List UInt8 × List UInt8) :=
  match buf with
  | b₀ :: b₁ :: b₂ :: b₃ :: _ =>
      let n := payloadLength b₀ b₁ b₂ b₃
      if buf.length < 4 + n then none else some ((buf.take (4 + n)).drop 4, buf.drop (4 + n))
  | _ => none

/-- A frame came off exactly when the four bytes of a length and that many more are there. -/
theorem decode_eq_some_iff {buf frame rest : List UInt8} :
    decode buf = some (frame, rest) ↔
      ∃ b₀ b₁ b₂ b₃, buf = b₀ :: b₁ :: b₂ :: b₃ :: (frame ++ rest) ∧
        frame.length = payloadLength b₀ b₁ b₂ b₃ := by
  constructor
  · intro decoded
    unfold decode at decoded
    split at decoded
    · rename_i b₀ b₁ b₂ b₃ payload
      obtain ⟨enough, pair⟩ := Option.ite_none_left_eq_some.1 decoded
      cases pair
      rw [Nat.add_comm 4] at enough ⊢
      refine ⟨b₀, b₁, b₂, b₃, ?_, ?_⟩
      · simp
      · simp only [List.length_cons] at enough
        simp only [List.take_succ_cons, List.drop_succ_cons, List.drop_zero, List.length_take]
        omega
    · cases decoded
  · rintro ⟨b₀, b₁, b₂, b₃, rfl, length⟩
    have enough : ¬ (b₀ :: b₁ :: b₂ :: b₃ :: (frame ++ rest)).length <
        4 + payloadLength b₀ b₁ b₂ b₃ := by
      simp only [List.length_cons, List.length_append]
      omega
    simp only [decode, if_neg enough]
    rw [Nat.add_comm 4, ← length]
    simp

example : decode [0, 0, 0, 2, 7, 8, 9] = some ([7, 8], [9]) := by decide

/-- `LengthPrefixed`. -/
def codec : Codec where
  decode := decode
  shrinks decoded := by
    obtain ⟨b₀, b₁, b₂, b₃, rfl, _⟩ := decode_eq_some_iff.1 decoded
    simp only [List.length_cons, List.length_append]
    omega
  stable more decoded := by
    obtain ⟨b₀, b₁, b₂, b₃, rfl, length⟩ := decode_eq_some_iff.1 decoded
    exact decode_eq_some_iff.2 ⟨b₀, b₁, b₂, b₃, by simp, length⟩

end LengthPrefixed

/-! ### `Lines` -/

namespace Lines

def newline : UInt8 := 10

def carriageReturn : UInt8 := 13

/-- The line without a trailing `\r`. -/
def strip (line : List UInt8) : List UInt8 :=
  if line.getLast? = some carriageReturn then line.dropLast else line

/-- `Lines::decode`. -/
def decode (buf : List UInt8) : Option (List UInt8 × List UInt8) := do
  let pos ← buf.findIdx? (· == newline)
  some (strip (buf.take pos), buf.drop (pos + 1))

/-- A line came off exactly when the buffer starts with it and its newline. The stripped `\r` is one
    before that newline, so it never depends on bytes that come later. -/
theorem decode_eq_some_iff {buf frame rest : List UInt8} :
    decode buf = some (frame, rest) ↔
      ∃ line, newline ∉ line ∧ buf = line ++ newline :: rest ∧ frame = strip line := by
  unfold decode
  rw [Option.bind_eq_bind, Option.bind_eq_some_iff]
  constructor
  · rintro ⟨pos, found, pair⟩
    cases pair
    obtain ⟨inside, hit, first⟩ := List.findIdx?_eq_some_iff_getElem.1 found
    refine ⟨buf.take pos, ?_, ?_, rfl⟩
    · intro member
      obtain ⟨i, small, value⟩ := List.mem_take_iff_getElem.1 member
      exact first i (by omega) (by simp [value])
    · have here : buf[pos] = newline := by simpa using hit
      rw [← here, List.getElem_cons_drop, List.take_append_drop]
  · rintro ⟨line, clean, rfl, rfl⟩
    refine ⟨line.length, ?_, by simp⟩
    rw [List.findIdx?_append]
    have absent : line.findIdx? (· == newline) = none := by
      rw [List.findIdx?_eq_none_iff]
      intro b member
      simpa using fun same : b = newline => clean (same ▸ member)
    simp [absent, List.findIdx?_cons]

example : decode [104, 105, 13, 10, 98] = some ([104, 105], [98]) := by decide

/-- `Lines`. -/
def codec : Codec where
  decode := decode
  shrinks decoded := by
    obtain ⟨line, _, rfl, _⟩ := decode_eq_some_iff.1 decoded
    simp only [List.length_append, List.length_cons]
    omega
  stable more decoded := by
    obtain ⟨line, clean, rfl, rfl⟩ := decode_eq_some_iff.1 decoded
    exact decode_eq_some_iff.2 ⟨line, clean, by simp, rfl⟩

end Lines

/-! ### `Framed` -/

universe u

/-- A `FramedConnection` as a deterministic machine over its state and its `Io`. -/
structure FramedConnection (S : Type u) where
  onFrame : S → List UInt8 → Io → S × Io

/-- One call of `on_frame`, with everything it was given. -/
structure FrameCall (S : Type u) where
  inner : S
  frame : List UInt8
  io : Io

/-- What the calls of `on_frame` change: the handler, its `Io`, and the record of the calls. -/
structure Handled (S : Type u) where
  inner : S
  io : Io
  calls : List (FrameCall S)

/-- `self.inner.on_frame(&frame, io)`. -/
def FramedConnection.handle {S : Type u} (handler : FramedConnection S) (handled : Handled S)
    (frame : List UInt8) : Handled S :=
  let next := handler.onFrame handled.inner frame handled.io
  { inner := next.1
    io := next.2
    calls := handled.calls ++ [⟨handled.inner, frame, handled.io⟩] }

/-- A `Framed` with its `Io`: what was handled so far and the buffered bytes. -/
structure Session (S : Type u) where
  handled : Handled S
  buf : List UInt8

namespace Session

variable {S : Type u}

/-- `Framed::new(inner)`, with the `Io` it will be called with. -/
def new (inner : S) (io : Io) : Session S := ⟨⟨inner, io, []⟩, []⟩

/-- `Framed::on_data`: extend the buffer, then decode and handle frames while there are any. -/
def onData (codec : Codec) (handler : FramedConnection S) (session : Session S)
    (chunk : List UInt8) : Session S :=
  let drained := codec.drain handler.handle session.handled (session.buf ++ chunk)
  ⟨drained.1, drained.2⟩

/-- A sequence of `on_data` calls. -/
def onChunks (codec : Codec) (handler : FramedConnection S) (session : Session S)
    (chunks : List (List UInt8)) : Session S :=
  chunks.foldl (onData codec handler) session

/-- The session is the state of the draining loop. -/
theorem onChunks_eq (codec : Codec) (handler : FramedConnection S) (session : Session S)
    (chunks : List (List UInt8)) :
    onChunks codec handler session chunks =
      let fed := chunks.foldl (codec.feed handler.handle) (session.handled, session.buf)
      ⟨fed.1, fed.2⟩ := by
  induction chunks generalizing session with
  | nil => rfl
  | cons chunk chunks inductionHypothesis => exact inductionHypothesis _

end Session

end AetherFlow.Net
