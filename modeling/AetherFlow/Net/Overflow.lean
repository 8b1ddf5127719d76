/-
Module: AetherFlow.Net.Overflow
Purpose: `LengthPrefixed` in machine arithmetic, with every way its body can panic: the sum `4 + n` in a
  `usize` of width `w`, with and without overflow checks, the slice and the range to drain. A call that
  returns does what the codec does with unbounded numbers. On a 64-bit target every call returns; on a
  32-bit target a length of `2 ^ 32 - 4` or more, announced at a frame boundary, makes the call panic.
Trusted boundary: human-reviewed transcription of `LengthPrefixed::decode` and `Framed::on_data`;
  allocation does not fail
Main exports: addUsize, LengthPrefixed.checkedDecode, LengthPrefixed.checkedCodec, Session.checkedOnData,
  Session.checkedOnChunks, SafeFraming, Oversized, safeFraming_iff
-/
import AetherFlow.Net.Codec

namespace AetherFlow.Net

/-- `a + b` on `usize`s of width `w`: an overflow panics where it is checked, and wraps elsewhere. -/
def addUsize (w : Nat) (overflowChecks : Bool) (a b : Nat) : Option Nat :=
  if a + b < 2 ^ w then some (a + b)
  else if overflowChecks then none
  else some ((a + b) % 2 ^ w)

/-- `buf[start..stop].to_vec()`. -/
def slice (buf : List UInt8) (start stop : Nat) : Option (List UInt8) :=
  if start ≤ stop ∧ stop ≤ buf.length then some ((buf.take stop).drop start) else none

/-- `buf.drain(..stop)`: what is left. -/
def drainTo (buf : List UInt8) (stop : Nat) : Option (List UInt8) :=
  if stop ≤ buf.length then some (buf.drop stop) else none

namespace LengthPrefixed

/-- `LengthPrefixed::decode`, or `none` where it panics. A `u32` fits into both widths of `usize`. -/
def checkedDecode (w : Nat) (overflowChecks : Bool) (buf : List UInt8) :
    Option (Option (List UInt8 × List UInt8)) :=
  match buf with
  | b₀ :: b₁ :: b₂ :: b₃ :: _ => do
      let n := payloadLength b₀ b₁ b₂ b₃
      let needed ← addUsize w overflowChecks 4 n
      if buf.length < needed then some none
      else
        let stop ← addUsize w overflowChecks 4 n
        let frame ← slice buf 4 stop
        let upTo ← addUsize w overflowChecks 4 n
        let rest ← drainTo buf upTo
        some (some (frame, rest))
  | _ => some none

variable {w : Nat} {overflowChecks : Bool}

/-- Without an overflow nothing panics. -/
theorem checkedDecode_of_fits {b₀ b₁ b₂ b₃ : UInt8} {payload : List UInt8}
    (fits : 4 + payloadLength b₀ b₁ b₂ b₃ < 2 ^ w) :
    checkedDecode w overflowChecks (b₀ :: b₁ :: b₂ :: b₃ :: payload) =
      some (decode (b₀ :: b₁ :: b₂ :: b₃ :: payload)) := by
  have sum : addUsize w overflowChecks 4 (payloadLength b₀ b₁ b₂ b₃) =
      some (4 + payloadLength b₀ b₁ b₂ b₃) := if_pos fits
  simp only [checkedDecode, decode, sum, Option.bind_eq_bind, Option.bind_some]
  split
  · rfl
  · rename_i enough
    rw [slice, if_pos ⟨Nat.le_add_right 4 _, Nat.not_lt.1 enough⟩, drainTo,
      if_pos (Nat.not_lt.1 enough)]
    rfl

/-- An overflow panics, at the latest where the wrapped sum ends the slice before it starts. -/
theorem checkedDecode_of_overflow (wide : 32 ≤ w) {b₀ b₁ b₂ b₃ : UInt8} {payload : List UInt8}
    (overflows : 2 ^ w ≤ 4 + payloadLength b₀ b₁ b₂ b₃) :
    checkedDecode w overflowChecks (b₀ :: b₁ :: b₂ :: b₃ :: payload) = none := by
  cases overflowChecks with
  | true =>
      have sum : addUsize w true 4 (payloadLength b₀ b₁ b₂ b₃) = none := by
        rw [addUsize, if_neg (Nat.not_lt.2 overflows), if_pos rfl]
      simp only [checkedDecode, sum, Option.bind_eq_bind, Option.bind_none]
  | false =>
      obtain ⟨sum, wrapped, small⟩ : ∃ sum,
          addUsize w false 4 (payloadLength b₀ b₁ b₂ b₃) = some sum ∧ sum < 4 := by
        refine ⟨_, by rw [addUsize, if_neg (Nat.not_lt.2 overflows)]; rfl, ?_⟩
        have limit := payloadLength_lt b₀ b₁ b₂ b₃
        have width : 2 ^ 32 ≤ 2 ^ w := Nat.pow_le_pow_right (by decide) wide
        rw [Nat.mod_eq_sub_mod overflows, Nat.mod_eq_of_lt (by omega)]
        omega
      have long : ¬ (b₀ :: b₁ :: b₂ :: b₃ :: payload).length < sum := by
        simp only [List.length_cons]
        omega
      have backwards : slice (b₀ :: b₁ :: b₂ :: b₃ :: payload) 4 sum = none :=
        if_neg fun range => absurd range.1 (Nat.not_le.2 small)
      simp only [checkedDecode, wrapped, Option.bind_eq_bind, Option.bind_some, if_neg long, backwards,
        Option.bind_none]

/-- The sum of 4 and the length that the buffer starts with overflows. -/
def Overflows (w : Nat) (buf : List UInt8) : Prop :=
  ∃ b₀ b₁ b₂ b₃ payload, buf = b₀ :: b₁ :: b₂ :: b₃ :: payload ∧
    2 ^ w ≤ 4 + payloadLength b₀ b₁ b₂ b₃

theorem checkedDecode_of_overflows (wide : 32 ≤ w) {buf : List UInt8} (overflows : Overflows w buf) :
    checkedDecode w overflowChecks buf = none := by
  obtain ⟨b₀, b₁, b₂, b₃, payload, rfl, large⟩ := overflows
  exact checkedDecode_of_overflow wide large

theorem checkedDecode_of_not_overflows {buf : List UInt8} (fits : ¬ Overflows w buf) :
    checkedDecode w overflowChecks buf = some (decode buf) := by
  match buf with
  | [] | [_] | [_, _] | [_, _, _] => rfl
  | b₀ :: b₁ :: b₂ :: b₃ :: payload =>
      refine checkedDecode_of_fits (Nat.lt_of_not_le fun large => fits ?_)
      exact ⟨b₀, b₁, b₂, b₃, payload, rfl, large⟩

/-- A call panics exactly where the sum overflows. -/
theorem checkedDecode_eq_none_iff (wide : 32 ≤ w) {buf : List UInt8} :
    checkedDecode w overflowChecks buf = none ↔ Overflows w buf := by
  constructor
  · intro panicked
    by_contra fits
    rw [checkedDecode_of_not_overflows fits] at panicked
    cases panicked
  · exact checkedDecode_of_overflows wide

/-- A call that returns does what the codec does with unbounded numbers. -/
theorem checkedDecode_eq_some (wide : 32 ≤ w) {buf : List UInt8}
    {result : Option (List UInt8 × List UInt8)}
    (returned : checkedDecode w overflowChecks buf = some result) :
    ¬ Overflows w buf ∧ result = decode buf := by
  have fits : ¬ Overflows w buf := by
    intro overflows
    rw [checkedDecode_of_overflows wide overflows] at returned
    cases returned
  rw [checkedDecode_of_not_overflows fits] at returned
  exact ⟨fits, (Option.some.inj returned).symm⟩

theorem Overflows.append {buf : List UInt8} (overflows : Overflows w buf) (more : List UInt8) :
    Overflows w (buf ++ more) := by
  obtain ⟨b₀, b₁, b₂, b₃, payload, rfl, large⟩ := overflows
  exact ⟨b₀, b₁, b₂, b₃, payload ++ more, rfl, large⟩

/-- Once a header is there, bytes behind it do not make it overflow. -/
theorem not_overflows_append {buf frame rest : List UInt8} (fits : ¬ Overflows w buf)
    (decoded : decode buf = some (frame, rest)) (more : List UInt8) : ¬ Overflows w (buf ++ more) := by
  obtain ⟨b₀, b₁, b₂, b₃, rfl, _⟩ := decode_eq_some_iff.1 decoded
  rintro ⟨_, _, _, _, _, same, large⟩
  cases same
  exact fits ⟨b₀, b₁, b₂, b₃, _, rfl, large⟩

/-- `LengthPrefixed` on a target with 32- or 64-bit `usize`. -/
def checkedCodec (w : Nat) (overflowChecks : Bool) (width : w = 32 ∨ w = 64) :
    FallibleDecoder UInt8 (List UInt8) where
  decode := checkedDecode w overflowChecks
  shrinks decoded := codec.shrinks (checkedDecode_eq_some (by omega) decoded).2.symm
  stable more decoded := by
    obtain ⟨fits, same⟩ := checkedDecode_eq_some (by omega) decoded
    rw [checkedDecode_of_not_overflows (not_overflows_append fits same.symm more)]
    exact congrArg some (codec.stable more same.symm)
  fails more panicked := by
    have wide : 32 ≤ w := by omega
    exact checkedDecode_of_overflows wide (((checkedDecode_eq_none_iff wide).1 panicked).append more)

/-- What a call of `decode` must not do: overflow, panic, or take a frame that is not buffered. -/
structure SafeDecode (w : Nat) (overflowChecks : Bool) (buf : List UInt8) : Prop where
  fits : ∀ b₀ b₁ b₂ b₃ payload, buf = b₀ :: b₁ :: b₂ :: b₃ :: payload →
    4 + payloadLength b₀ b₁ b₂ b₃ < 2 ^ w
  returns : (checkedDecode w overflowChecks buf).isSome
  waits : ∀ b₀ b₁ b₂ b₃ payload, buf = b₀ :: b₁ :: b₂ :: b₃ :: payload →
    payload.length < payloadLength b₀ b₁ b₂ b₃ → checkedDecode w overflowChecks buf = some none

/-- A call that returns is safe. -/
theorem safeDecode_iff (wide : 32 ≤ w) {buf : List UInt8} :
    SafeDecode w overflowChecks buf ↔ (checkedDecode w overflowChecks buf).isSome := by
  refine ⟨SafeDecode.returns, fun returns => ?_⟩
  obtain ⟨result, returned⟩ := Option.isSome_iff_exists.1 returns
  obtain ⟨fits, same⟩ := checkedDecode_eq_some wide returned
  refine ⟨?_, returns, ?_⟩
  · rintro b₀ b₁ b₂ b₃ payload rfl
    exact Nat.lt_of_not_le fun large => fits ⟨b₀, b₁, b₂, b₃, payload, rfl, large⟩
  · rintro b₀ b₁ b₂ b₃ payload rfl few
    have unfinished : Unfinished (b₀ :: b₁ :: b₂ :: b₃ :: payload) :=
      .inr ⟨b₀, b₁, b₂, b₃, payload, rfl, by simp only [List.length_cons]; omega⟩
    rw [returned, same, decode_eq_none_iff.2 unfinished]

/-- At some frame boundary the stream announces a length of `2 ^ 32 - 4` or more. -/
def Oversized (stream : List UInt8) : Prop :=
  ∃ (payloads : List (List UInt8)) (rest : List UInt8),
    (∀ payload ∈ payloads, payload.length < 2 ^ 32) ∧ stream = (payloads.map encode).flatten ++ rest ∧
      ∃ b₀ b₁ b₂ b₃ payload, rest = b₀ :: b₁ :: b₂ :: b₃ :: payload ∧
        2 ^ 32 - 4 ≤ payloadLength b₀ b₁ b₂ b₃

theorem Oversized.cons {stream payload : List UInt8} (short : payload.length < 2 ^ 32)
    (oversized : Oversized stream) : Oversized (encode payload ++ stream) := by
  obtain ⟨payloads, rest, all, rfl, header⟩ := oversized
  refine ⟨payload :: payloads, rest, List.forall_mem_cons.2 ⟨short, all⟩, ?_, header⟩
  rw [List.map_cons, List.flatten_cons, List.append_assoc]

/-- A sum overflows on a 32-bit target only. -/
theorem overflows_iff (width : w = 32 ∨ w = 64) {buf : List UInt8} :
    Overflows w buf ↔ w = 32 ∧ ∃ b₀ b₁ b₂ b₃ payload, buf = b₀ :: b₁ :: b₂ :: b₃ :: payload ∧
      2 ^ 32 - 4 ≤ payloadLength b₀ b₁ b₂ b₃ := by
  constructor
  · rintro ⟨b₀, b₁, b₂, b₃, payload, rfl, large⟩
    have limit := payloadLength_lt b₀ b₁ b₂ b₃
    rcases width with rfl | rfl
    · exact ⟨rfl, b₀, b₁, b₂, b₃, payload, rfl, by omega⟩
    · omega
  · rintro ⟨rfl, b₀, b₁, b₂, b₃, payload, rfl, large⟩
    exact ⟨b₀, b₁, b₂, b₃, payload, rfl, by omega⟩

/-- The loop panics exactly on a 32-bit target and a stream that announces such a length. -/
theorem drain_eq_none_iff {σ : Type*} {act : σ → List UInt8 → σ} (width : w = 32 ∨ w = 64) (s : σ)
    (stream : List UInt8) :
    (checkedCodec w overflowChecks width).drain act s stream = none ↔ w = 32 ∧ Oversized stream := by
  constructor
  · induction s, stream using FallibleDecoder.drain_induction (checkedCodec w overflowChecks width) act with
    | fails s buf panicked =>
        intro _
        obtain ⟨narrow, header⟩ :=
          (overflows_iff width).1 ((checkedDecode_eq_none_iff (by omega)).1 panicked)
        exact ⟨narrow, [], buf, by simp, rfl, header⟩
    | waiting s buf decoded =>
        intro failed
        rw [FallibleDecoder.drain_of_none decoded] at failed
        cases failed
    | taken s buf frame rest decoded inductionHypothesis =>
        intro failed
        rw [FallibleDecoder.drain_of_some decoded] at failed
        obtain ⟨narrow, oversized⟩ := inductionHypothesis failed
        have taken := (checkedDecode_eq_some (by omega) decoded).2.symm
        obtain ⟨_, ⟨short, rfl⟩, rfl⟩ := reads.taken taken
        exact ⟨narrow, oversized.cons short⟩
  · rintro ⟨rfl, payloads, rest, short, rfl, header⟩
    have overflows : Overflows 32 rest := (overflows_iff width).2 ⟨rfl, header⟩
    induction payloads generalizing s with
    | nil => exact FallibleDecoder.drain_of_fails (checkedDecode_of_overflows (by omega) overflows)
    | cons payload payloads inductionHypothesis =>
        obtain ⟨small, short⟩ := List.forall_mem_cons.1 short
        rw [List.map_cons, List.flatten_cons, List.append_assoc]
        have taken := reads.takes ((payloads.map encode).flatten ++ rest) ⟨small, rfl⟩
        by_cases fits : Overflows 32 (encode payload ++ ((payloads.map encode).flatten ++ rest))
        · exact FallibleDecoder.drain_of_fails (checkedDecode_of_overflows (by omega) fits)
        · rw [FallibleDecoder.drain_of_some
            ((checkedDecode_of_not_overflows fits).trans (congrArg some taken))]
          exact inductionHypothesis _ short

end LengthPrefixed

/-! ### `Framed` -/

universe u

namespace Session

variable {S : Type u} {w : Nat}

/-- `Framed::on_data` over `LengthPrefixed`, or `none` where it panics. -/
def checkedOnData (width : w = 32 ∨ w = 64) (overflowChecks : Bool) (handler : FramedConnection S)
    (session : Session S) (chunk : List UInt8) : Option (Session S) := do
  let drained ← (LengthPrefixed.checkedCodec w overflowChecks width).drain handler.handle
    session.handled (session.buf ++ chunk)
  some ⟨drained.1, drained.2⟩

/-- A sequence of `on_data` calls, up to the first one that panics. -/
def checkedOnChunks (width : w = 32 ∨ w = 64) (overflowChecks : Bool) (handler : FramedConnection S)
    (session : Session S) (chunks : List (List UInt8)) : Option (Session S) :=
  chunks.foldlM (checkedOnData width overflowChecks handler) session

/-- The session is the state of the failing loop. -/
theorem checkedOnChunks_eq (width : w = 32 ∨ w = 64) (overflowChecks : Bool)
    (handler : FramedConnection S) (session : Session S) (chunks : List (List UInt8)) :
    checkedOnChunks width overflowChecks handler session chunks =
      (chunks.foldlM ((LengthPrefixed.checkedCodec w overflowChecks width).feed handler.handle)
        (session.handled, session.buf)).map fun fed => ⟨fed.1, fed.2⟩ := by
  induction chunks generalizing session with
  | nil => rfl
  | cons chunk chunks inductionHypothesis =>
      rw [checkedOnChunks, List.foldlM_cons, List.foldlM_cons, checkedOnData, FallibleDecoder.feed]
      cases (LengthPrefixed.checkedCodec w overflowChecks width).drain handler.handle
        session.handled (session.buf ++ chunk) with
      | none => rfl
      | some drained => exact inductionHypothesis ⟨drained.1, drained.2⟩

end Session

open LengthPrefixed Session

/-- Every call of `decode` that `on_data` makes for these chunks is safe. -/
def SafeFraming {S : Type u} {w : Nat} (width : w = 32 ∨ w = 64) (overflowChecks : Bool)
    (handler : FramedConnection S) (inner : S) (io : Io) (chunks : List (List UInt8)) : Prop :=
  ∀ before chunk after session, chunks = before ++ chunk :: after →
    checkedOnChunks width overflowChecks handler (.new inner io) before = some session →
      ∀ buf ∈ (checkedCodec w overflowChecks width).decodes (session.buf ++ chunk),
        SafeDecode w overflowChecks buf

section SafeFraming

variable {S : Type u} {w : Nat} (width : w = 32 ∨ w = 64) (overflowChecks : Bool)
  (handler : FramedConnection S) (inner : S) (io : Io) (chunks : List (List UInt8))

/-- The chunks are handled without a panic, unless a length is too large for the target. -/
theorem isSome_checkedOnChunks_iff :
    (checkedOnChunks width overflowChecks handler (.new inner io) chunks).isSome ↔
      w = 64 ∨ ¬ Oversized chunks.flatten := by
  have whole : chunks.foldlM ((checkedCodec w overflowChecks width).feed handler.handle)
      ((Session.new inner io).handled, []) =
        (checkedCodec w overflowChecks width).drain handler.handle (Session.new inner io).handled
          chunks.flatten :=
    FallibleDecoder.foldlM_feed _ [] rfl chunks
  have panics : (checkedCodec w overflowChecks width).drain handler.handle
      (Session.new inner io).handled chunks.flatten = none ↔ w = 32 ∧ Oversized chunks.flatten :=
    drain_eq_none_iff width _ _
  rw [← whole] at panics
  rw [checkedOnChunks_eq, Option.isSome_map, Option.isSome_iff_ne_none]
  have other : w = 64 ↔ ¬ w = 32 := by omega
  rw [other, ← not_and_or]
  exact not_congr panics

/-- It is the calls of `decode` that panic. -/
theorem safeFraming_iff_isSome :
    SafeFraming width overflowChecks handler inner io chunks ↔
      (checkedOnChunks width overflowChecks handler (.new inner io) chunks).isSome := by
  have wide : 32 ≤ w := by omega
  rw [checkedOnChunks_eq, Option.isSome_map, FallibleDecoder.isSome_foldlM_feed_iff]
  constructor
  · intro safe before chunk after fed split ends buf member
    refine (safe before chunk after ⟨fed.1, fed.2⟩ split ?_ buf member).returns
    rw [checkedOnChunks_eq, ends]
    rfl
  · intro returns before chunk after session split fed buf member
    rw [checkedOnChunks_eq] at fed
    obtain ⟨state, ends, rfl⟩ := Option.map_eq_some_iff.1 fed
    exact (safeDecode_iff wide).2 (returns before chunk after state split ends buf member)

/-- For every handler and every stream in any chunks, no call of `decode` overflows, leaves the buffer or
    takes a frame that is not buffered, and `on_data` never panics, exactly if `usize` has 64 bits or
    the stream announces no length of `2 ^ 32 - 4` or more. -/
theorem safeFraming_iff :
    SafeFraming width overflowChecks handler inner io chunks ∧
        (checkedOnChunks width overflowChecks handler (.new inner io) chunks).isSome ↔
      w = 64 ∨ ¬ Oversized chunks.flatten := by
  rw [safeFraming_iff_isSome, and_self, isSome_checkedOnChunks_iff]

end SafeFraming

/-- A length of 2 before its payload has arrived. -/
theorem safeFraming_of_short_length :
    SafeFraming (.inl rfl : 32 = 32 ∨ 32 = 64) true ⟨fun inner _ io => (inner, io)⟩ () .new
          [[0, 0], [0, 2, 7]] ∧
        (checkedOnChunks (.inl rfl : 32 = 32 ∨ 32 = 64) true ⟨fun inner _ io => (inner, io)⟩
          (.new () .new) [[0, 0], [0, 2, 7]]).isSome ↔
      32 = 64 ∨ ¬ Oversized [[0, 0], [0, 2, 7]].flatten :=
  safeFraming_iff (.inl rfl) true ⟨fun inner _ io => (inner, io)⟩ () .new [[0, 0], [0, 2, 7]]

/-- Four bytes make a 32-bit target panic, here in a build without overflow checks. -/
theorem framing_not_safe : ¬ ∀ (w : Nat) (width : w = 32 ∨ w = 64) (overflowChecks : Bool)
    (handler : FramedConnection Unit) (chunks : List (List UInt8)),
      SafeFraming width overflowChecks handler () .new chunks ∧
        (checkedOnChunks width overflowChecks handler (.new () .new) chunks).isSome := by
  intro claimed
  have ended := (claimed 32 (.inl rfl) false ⟨fun inner _ io => (inner, io)⟩
    [[255, 255, 255, 252]]).2
  have panicked : checkedOnData (.inl rfl : 32 = 32 ∨ 32 = 64) false
      ⟨fun inner _ io => (inner, io)⟩ (.new () .new) [255, 255, 255, 252] = none := by
    rw [checkedOnData, FallibleDecoder.drain_of_fails (by decide)]
    rfl
  rw [checkedOnChunks, List.foldlM_cons, panicked] at ended
  cases ended

end AetherFlow.Net
