/-
Module: AetherFlow.Net.Codec
Purpose: What the two codecs of `core/src/net.rs` read. A stream fed to `Framed` in any pieces is split into
  the encodings of the delivered frames and a rest that holds no whole frame; for `LengthPrefixed`
  the encoding is the four bytes of the length and the payload, for `Lines` a line and its end.
  Encoding a list of payloads or lines and feeding the bytes back delivers the list.
Trusted boundary: none
Main exports: Session.frames, onChunks_pieces, onChunks_of_pieces, LengthPrefixed.encode, ExactCodec,
  lengthPrefixed_exact, Lines.Ended, LinesGrammar, lines_grammar
-/
import Mathlib.Algebra.Order.Ring.Nat
import AetherFlow.Net.Framing

namespace AetherFlow.Net

universe u

/-! ### The frames of a session -/

namespace Session

variable {S : Type u} {codec : Codec} {Piece : List UInt8 → List UInt8 → Prop}

/-- The frames that were passed to `on_frame`, in order. -/
def frames (session : Session S) : List (List UInt8) := session.handled.calls.map FrameCall.frame

theorem calls_foldl_handle (handler : FramedConnection S) (handled : Handled S)
    (items : List (List UInt8)) :
    (items.foldl handler.handle handled).calls.map FrameCall.frame =
      handled.calls.map FrameCall.frame ++ items := by
  induction items generalizing handled with
  | nil => rw [List.foldl_nil, List.append_nil]
  | cons item items inductionHypothesis =>
      rw [List.foldl_cons, inductionHypothesis]
      simp [FramedConnection.handle]

/-- A session is one run of the draining loop over everything that was fed to it. -/
theorem onChunks_new (handler : FramedConnection S) (inner : S) (io : Io)
    (chunks : List (List UInt8)) :
    onChunks codec handler (.new inner io) chunks =
      let drained := codec.drain handler.handle ⟨inner, io, []⟩ chunks.flatten
      ⟨drained.1, drained.2⟩ := by
  rw [onChunks_eq]
  exact congrArg (fun fed => (⟨fed.1, fed.2⟩ : Session S))
    (Decoder.foldl_feed _ [] Decoder.decode_nil chunks)

/-- The stream is the pieces of the delivered frames, and a rest without a whole frame. -/
theorem onChunks_pieces (reads : codec.Reads Piece) (handler : FramedConnection S) (inner : S)
    (io : Io) (chunks : List (List UInt8)) :
    let session := onChunks codec handler (.new inner io) chunks
    ∃ pieces, List.Forall₂ Piece session.frames pieces ∧
      chunks.flatten = pieces.flatten ++ session.buf ∧ codec.decode session.buf = none := by
  obtain ⟨items, pieces, stand, split, acted⟩ :=
    reads.exists_pieces handler.handle ⟨inner, io, []⟩ chunks.flatten
  have delivered : (onChunks codec handler (.new inner io) chunks).frames = items := by
    rw [onChunks_new, frames]
    dsimp only
    rw [acted]
    exact calls_foldl_handle handler _ items
  refine ⟨pieces, ?_, ?_, ?_⟩
  · rw [delivered]
    exact stand
  · rw [onChunks_new]
    exact split
  · rw [onChunks_new]
    exact Decoder.decode_drain _ _

/-- The pieces of some frames, fed in any chunks, deliver these frames. -/
theorem onChunks_of_pieces (reads : codec.Reads Piece) (handler : FramedConnection S) (inner : S)
    (io : Io) {chunks items pieces : List (List UInt8)} {rest : List UInt8}
    (stand : List.Forall₂ Piece items pieces) (waiting : codec.decode rest = none)
    (stream : chunks.flatten = pieces.flatten ++ rest) :
    let session := onChunks codec handler (.new inner io) chunks
    session.frames = items ∧ session.buf = rest := by
  have drained : onChunks codec handler (.new inner io) chunks =
      ⟨items.foldl handler.handle ⟨inner, io, []⟩, rest⟩ := by
    rw [onChunks_new, stream, reads.drain_pieces stand, Decoder.drain_of_none waiting]
  rw [drained]
  exact ⟨calls_foldl_handle handler _ items, rfl⟩

end Session

/-! ### `LengthPrefixed` -/

namespace LengthPrefixed

/-- `u32::to_be_bytes`. -/
def lengthBytes (n : Nat) : List UInt8 :=
  [.ofNat (n / 2 ^ 24), .ofNat (n / 2 ^ 16), .ofNat (n / 2 ^ 8), .ofNat n]

/-- The length of a payload in four bytes, followed by the payload. -/
def encode (payload : List UInt8) : List UInt8 := lengthBytes payload.length ++ payload

theorem payloadLength_eq (b₀ b₁ b₂ b₃ : UInt8) :
    payloadLength b₀ b₁ b₂ b₃ =
      b₀.toNat * 2 ^ 24 + b₁.toNat * 2 ^ 16 + b₂.toNat * 2 ^ 8 + b₃.toNat := by
  have shifted : ∀ {v : Nat} (x : BitVec v) (b : UInt8),
      (x ++ b.toBitVec).toNat = x.toNat * 2 ^ 8 + b.toNat := by
    intro v x b
    rw [BitVec.toNat_append, ← Nat.shiftLeft_add_eq_or_of_lt b.toBitVec.isLt, Nat.shiftLeft_eq]
    rfl
  rw [payloadLength, shifted, shifted, shifted]
  change ((b₀.toNat * 2 ^ 8 + b₁.toNat) * 2 ^ 8 + b₂.toNat) * 2 ^ 8 + b₃.toNat = _
  omega

theorem payloadLength_lt (b₀ b₁ b₂ b₃ : UInt8) : payloadLength b₀ b₁ b₂ b₃ < 2 ^ 32 :=
  BitVec.isLt _

/-- A length below `2 ^ 32` is read back. -/
theorem payloadLength_lengthBytes {n : Nat} (small : n < 2 ^ 32) :
    payloadLength (.ofNat (n / 2 ^ 24)) (.ofNat (n / 2 ^ 16)) (.ofNat (n / 2 ^ 8)) (.ofNat n) = n := by
  rw [payloadLength_eq]
  simp only [UInt8.toNat_ofNat']
  omega

/-- Four bytes are the encoding of the length they stand for. -/
theorem lengthBytes_payloadLength (b₀ b₁ b₂ b₃ : UInt8) :
    lengthBytes (payloadLength b₀ b₁ b₂ b₃) = [b₀, b₁, b₂, b₃] := by
  have byte : ∀ {b : UInt8} {n : Nat}, n % 2 ^ 8 = b.toNat → UInt8.ofNat n = b := by
    intro b n same
    rw [← UInt8.toNat_inj, UInt8.toNat_ofNat', same]
  have small₁ := b₁.toNat_lt
  have small₂ := b₂.toNat_lt
  have small₃ := b₃.toNat_lt
  have small₀ := b₀.toNat_lt
  rw [payloadLength_eq, lengthBytes]
  rw [byte (b := b₀) (by omega), byte (b := b₁) (by omega), byte (b := b₂) (by omega),
    byte (b := b₃) (by omega)]

/-- The codec reads payloads of less than `2 ^ 32` bytes behind their length. -/
theorem reads : codec.Reads fun payload piece => payload.length < 2 ^ 32 ∧ piece = encode payload where
  taken decoded := by
    obtain ⟨b₀, b₁, b₂, b₃, rfl, length⟩ := decode_eq_some_iff.1 decoded
    refine ⟨_, ⟨length ▸ payloadLength_lt b₀ b₁ b₂ b₃, rfl⟩, ?_⟩
    rw [encode, length, lengthBytes_payloadLength]
    rfl
  takes rest stands := by
    obtain ⟨small, rfl⟩ := stands
    exact decode_eq_some_iff.2 ⟨_, _, _, _, rfl, (payloadLength_lengthBytes small).symm⟩

/-- The bytes are too few for the frame they start. -/
def Unfinished (rest : List UInt8) : Prop :=
  rest.length < 4 ∨ ∃ b₀ b₁ b₂ b₃ payload, rest = b₀ :: b₁ :: b₂ :: b₃ :: payload ∧
    rest.length < 4 + payloadLength b₀ b₁ b₂ b₃

theorem decode_eq_none_iff {rest : List UInt8} : decode rest = none ↔ Unfinished rest := by
  constructor
  · intro waiting
    unfold decode at waiting
    split at waiting
    · rename_i b₀ b₁ b₂ b₃ payload
      by_cases few : (b₀ :: b₁ :: b₂ :: b₃ :: payload).length < 4 + payloadLength b₀ b₁ b₂ b₃
      · exact .inr ⟨b₀, b₁, b₂, b₃, payload, rfl, few⟩
      · simp only [if_neg few] at waiting
        cases waiting
    · rename_i short
      left
      by_contra long
      match rest with
      | [] | [_] | [_, _] | [_, _, _] => simp at long
      | _ :: _ :: _ :: _ :: _ => exact short _ _ _ _ _ rfl
  · rintro (short | ⟨b₀, b₁, b₂, b₃, payload, rfl, few⟩)
    · match rest with
      | [] | [_] | [_, _] | [_, _, _] => rfl
      | _ :: _ :: _ :: _ :: _ =>
          simp only [List.length_cons] at short
          omega
    · simp only [decode, if_pos few]

end LengthPrefixed

/-- A sequence of encoded payloads and an unfinished rest. -/
structure Encoded (stream : List UInt8) (payloads : List (List UInt8)) (rest : List UInt8) : Prop where
  short : ∀ payload ∈ payloads, payload.length < 2 ^ 32
  stream : stream = (payloads.map LengthPrefixed.encode).flatten ++ rest
  rest : LengthPrefixed.Unfinished rest

namespace Encoded

open LengthPrefixed

theorem of_pieces {stream rest : List UInt8} {payloads pieces : List (List UInt8)}
    (stand : List.Forall₂
      (fun payload piece => payload.length < 2 ^ 32 ∧ piece = encode payload) payloads pieces)
    (split : stream = pieces.flatten ++ rest) (waiting : decode rest = none) :
    Encoded stream payloads rest := by
  have mapped : pieces = payloads.map encode ∧ ∀ payload ∈ payloads, payload.length < 2 ^ 32 := by
    induction stand generalizing stream with
    | nil => exact ⟨rfl, fun _ member => by cases member⟩
    | cons stands _ inductionHypothesis =>
        obtain ⟨rfl, short⟩ := inductionHypothesis rfl
        obtain ⟨small, rfl⟩ := stands
        exact ⟨rfl, List.forall_mem_cons.2 ⟨small, short⟩⟩
  obtain ⟨rfl, short⟩ := mapped
  exact ⟨short, split, decode_eq_none_iff.1 waiting⟩

theorem pieces {stream rest : List UInt8} {payloads : List (List UInt8)}
    (encoded : Encoded stream payloads rest) :
    List.Forall₂ (fun payload piece => payload.length < 2 ^ 32 ∧ piece = encode payload) payloads
      (payloads.map encode) := by
  rw [List.forall₂_map_right_iff, List.forall₂_same]
  exact fun payload member => ⟨encoded.short payload member, rfl⟩

end Encoded

/-- For every handler and every way of cutting a stream: the stream is the encodings of the delivered
    frames and the residual buffer, which holds no whole frame; it has no other such decomposition;
    and a list of payloads comes back from its encodings with an empty buffer. -/
structure ExactCodec : Prop where
  decomposes : ∀ {S : Type u} (handler : FramedConnection S) (inner : S) (io : Io)
    (chunks : List (List UInt8)),
      let session := Session.onChunks LengthPrefixed.codec handler (.new inner io) chunks
      Encoded chunks.flatten session.frames session.buf
  unique : ∀ {stream rest rest' : List UInt8} {payloads payloads' : List (List UInt8)},
    Encoded stream payloads rest → Encoded stream payloads' rest' → payloads = payloads' ∧ rest = rest'
  round_trip : ∀ {S : Type u} (handler : FramedConnection S) (inner : S) (io : Io)
    (payloads chunks : List (List UInt8)), (∀ payload ∈ payloads, payload.length < 2 ^ 32) →
      chunks.flatten = (payloads.map LengthPrefixed.encode).flatten →
        let session := Session.onChunks LengthPrefixed.codec handler (.new inner io) chunks
        session.frames = payloads ∧ session.buf = []

/-- A decomposition of the stream is what `Framed` finds, however the stream arrives. -/
theorem Encoded.delivered {S : Type u} {stream rest : List UInt8} {payloads : List (List UInt8)}
    (encoded : Encoded stream payloads rest) (handler : FramedConnection S) (inner : S) (io : Io)
    {chunks : List (List UInt8)} (cut : chunks.flatten = stream) :
    let session := Session.onChunks LengthPrefixed.codec handler (.new inner io) chunks
    session.frames = payloads ∧ session.buf = rest :=
  Session.onChunks_of_pieces LengthPrefixed.reads handler inner io encoded.pieces
    (LengthPrefixed.decode_eq_none_iff.2 encoded.rest) (cut.trans encoded.stream)

/-- `LengthPrefixed` decodes exactly its encoding. -/
theorem lengthPrefixed_exact : ExactCodec.{u} where
  decomposes handler inner io chunks := by
    obtain ⟨pieces, stand, split, waiting⟩ :=
      Session.onChunks_pieces LengthPrefixed.reads handler inner io chunks
    exact .of_pieces stand split waiting
  unique encoded encoded' := by
    -- Both are what one session with a handler that does nothing finds.
    have handler : FramedConnection Unit := ⟨fun inner _ io => (inner, io)⟩
    obtain ⟨frames, buf⟩ := encoded.delivered handler () .new (List.flatten_singleton)
    obtain ⟨frames', buf'⟩ := encoded'.delivered handler () .new (List.flatten_singleton)
    exact ⟨frames.symm.trans frames', buf.symm.trans buf'⟩
  round_trip handler inner io payloads chunks short stream := by
    have encoded : Encoded chunks.flatten payloads [] :=
      ⟨short, by rw [stream, List.append_nil], .inl (by decide)⟩
    exact encoded.delivered handler inner io rfl

/-! ### `Lines` -/

namespace Lines

/-- `line` without its line end gives `frame`: a `\r` directly before the end goes, nothing else does. -/
def Strips (frame line : List UInt8) : Prop :=
  line = frame ++ [carriageReturn] ∨ line = frame ∧ frame.getLast? ≠ some carriageReturn

theorem strips_iff {frame line : List UInt8} : Strips frame line ↔ frame = strip line := by
  unfold Strips strip
  constructor
  · rintro (rfl | ⟨rfl, kept⟩)
    · rw [List.getLast?_concat, if_pos rfl, List.dropLast_concat]
    · rw [if_neg kept]
  · rintro rfl
    split
    · rename_i last
      exact .inl (List.dropLast_append_getLast? _ last).symm
    · rename_i last
      exact .inr ⟨rfl, last⟩

/-- The codec reads lines with their newlines. -/
theorem reads : codec.Reads fun frame piece =>
    ∃ line, newline ∉ line ∧ piece = line ++ [newline] ∧ Strips frame line where
  taken decoded := by
    obtain ⟨line, clean, rfl, stripped⟩ := decode_eq_some_iff.1 decoded
    exact ⟨_, ⟨line, clean, rfl, strips_iff.2 stripped⟩, by simp⟩
  takes rest stands := by
    obtain ⟨line, clean, rfl, strips⟩ := stands
    exact decode_eq_some_iff.2 ⟨line, clean, by simp, strips_iff.1 strips⟩

/-- A buffer waits for more as long as it holds no newline. -/
theorem decode_eq_none_iff {rest : List UInt8} : decode rest = none ↔ newline ∉ rest := by
  unfold decode
  rw [Option.bind_eq_bind, Option.bind_eq_none_iff]
  constructor
  · intro waiting member
    cases found : rest.findIdx? (· == newline) with
    | none =>
        have := List.findIdx?_eq_none_iff.1 found newline member
        simp at this
    | some pos => exact absurd (waiting pos found) (by simp)
  · intro clean pos found
    obtain ⟨inside, hit, _⟩ := List.findIdx?_eq_some_iff_getElem.1 found
    have here : rest[pos] = newline := by simpa using hit
    exact absurd (here ▸ List.getElem_mem inside) clean

/-- How a line ends on the wire. -/
inductive Ended where
  | lf
  | crLf
deriving DecidableEq

/-- A line with its end. -/
def Ended.encode (line : List UInt8) : Ended → List UInt8
  | .lf => line ++ [newline]
  | .crLf => line ++ [carriageReturn, newline]

end Lines

/-- For every handler and every way of cutting a stream: the newlines of the stream split it into the
    lines of the delivered frames and the residual buffer; and lines with any mixture of ends come
    back from their encodings. -/
structure LinesGrammar : Prop where
  splits : ∀ {S : Type u} (handler : FramedConnection S) (inner : S) (io : Io)
    (chunks : List (List UInt8)),
      let session := Session.onChunks Lines.codec handler (.new inner io) chunks
      ∃ lines, chunks.flatten.splitOn Lines.newline = lines ++ [session.buf] ∧
        List.Forall₂ Lines.Strips session.frames lines
  round_trip : ∀ {S : Type u} (handler : FramedConnection S) (inner : S) (io : Io)
    (lines : List (List UInt8 × Lines.Ended)) (chunks : List (List UInt8)),
      (∀ line ∈ lines, Lines.newline ∉ line.1 ∧ line.1.getLast? ≠ some Lines.carriageReturn) →
        chunks.flatten = (lines.map fun line => line.2.encode line.1).flatten →
          let session := Session.onChunks Lines.codec handler (.new inner io) chunks
          session.frames = lines.map Prod.fst ∧ session.buf = []

namespace Lines

/-- The newlines split a sequence of lines and a rest without newlines where it was put together. -/
theorem splitOn_pieces {frames pieces : List (List UInt8)} {rest : List UInt8}
    (stand : List.Forall₂
      (fun frame piece => ∃ line, newline ∉ line ∧ piece = line ++ [newline] ∧ Strips frame line)
      frames pieces)
    (clean : newline ∉ rest) :
    ∃ lines, (pieces.flatten ++ rest).splitOn newline = lines ++ [rest] ∧
      List.Forall₂ Strips frames lines := by
  induction stand with
  | nil => exact ⟨[], List.splitOn_eq_singleton clean, .nil⟩
  | cons stands _ inductionHypothesis =>
      obtain ⟨line, apart, rfl, strips⟩ := stands
      obtain ⟨lines, split, rest_strips⟩ := inductionHypothesis
      refine ⟨line :: lines, ?_, .cons strips rest_strips⟩
      rw [List.flatten_cons, List.append_assoc, List.append_assoc, List.singleton_append,
        List.splitOn_append_cons_self_of_not_mem apart, split, List.cons_append]

/-- A line with its end is a piece that stands for the line. -/
theorem encode_stands {line : List UInt8} (ended : Ended) (clean : newline ∉ line)
    (kept : line.getLast? ≠ some carriageReturn) :
    ∃ held, newline ∉ held ∧ ended.encode line = held ++ [newline] ∧ Strips line held := by
  cases ended with
  | lf => exact ⟨line, clean, rfl, .inr ⟨rfl, kept⟩⟩
  | crLf =>
      refine ⟨line ++ [carriageReturn], ?_, by simp [Ended.encode], .inl rfl⟩
      rw [List.mem_append, List.mem_singleton]
      rintro (member | same)
      · exact clean member
      · exact absurd same (by decide)

end Lines

/-- `Lines` delivers the lines of the stream. -/
theorem lines_grammar : LinesGrammar.{u} where
  splits handler inner io chunks := by
    obtain ⟨pieces, stand, split, waiting⟩ :=
      Session.onChunks_pieces Lines.reads handler inner io chunks
    obtain ⟨lines, splitOn, strips⟩ :=
      Lines.splitOn_pieces stand (Lines.decode_eq_none_iff.1 waiting)
    exact ⟨lines, split ▸ splitOn, strips⟩
  round_trip handler inner io lines chunks clean stream := by
    have stand : List.Forall₂ (fun frame piece => ∃ line, Lines.newline ∉ line ∧
        piece = line ++ [Lines.newline] ∧ Lines.Strips frame line) (lines.map Prod.fst)
        (lines.map fun line => line.2.encode line.1) := by
      rw [List.forall₂_map_left_iff, List.forall₂_map_right_iff, List.forall₂_same]
      intro line member
      exact Lines.encode_stands line.2 (clean line member).1 (clean line member).2
    have whole := stream.trans (List.append_nil _).symm
    exact Session.onChunks_of_pieces Lines.reads handler inner io stand rfl whole

end AetherFlow.Net
