/-
Module: AetherFlow.Lib.Decoder
Purpose: Decoders that take one item off the front of a buffer, and the loop that feeds every complete
  item to an action. A decoder carries the two laws that make the loop independent of how its input
  arrives: it consumes something, and input that arrives later changes neither the item it takes nor
  what it leaves in front of that input. A decoder that reads a grammar of pieces, one piece an item,
  splits every input into the pieces of its items and a rest, in the only way there is. A decoder in
  machine arithmetic may fail; its loop fails where one of its calls does.
Trusted boundary: none
Main exports: Decoder, Decoder.drain, Decoder.drain_append, Decoder.decode_drain, Decoder.feed,
  Decoder.foldl_feed, Decoder.foldl_feed_eq_of_flatten_eq, Decoder.Reads, Decoder.Reads.drain_pieces,
  Decoder.Reads.exists_pieces, FallibleDecoder, FallibleDecoder.drain, FallibleDecoder.decodes,
  FallibleDecoder.isSome_drain_iff, FallibleDecoder.foldlM_feed, FallibleDecoder.isSome_foldlM_feed_iff
-/
import Mathlib.Data.List.Forall2

universe u v w

/-- A rule for taking items of type `β` off the front of a buffer of `α`s. -/
structure Decoder (α : Type u) (β : Type v) where
  decode : List α → Option (β × List α)
  shrinks : ∀ {buf item rest}, decode buf = some (item, rest) → rest.length < buf.length
  stable : ∀ {buf item rest} (more : List α), decode buf = some (item, rest) →
    decode (buf ++ more) = some (item, rest ++ more)

namespace Decoder

variable {α : Type u} {β : Type v} {σ : Type w} (d : Decoder α β) (act : σ → β → σ)

/-- Take items off the buffer as long as there are any, with `act` on each. -/
def drain (s : σ) (buf : List α) : σ × List α :=
  match taken : d.decode buf with
  | none => (s, buf)
  | some (item, rest) =>
      have : rest.length < buf.length := d.shrinks taken
      drain (act s item) rest
termination_by buf.length

/-- One arrival: the buffer is extended and drained. -/
def feed (state : σ × List α) (chunk : List α) : σ × List α :=
  d.drain act state.1 (state.2 ++ chunk)

variable {d act} {s : σ} {buf rest : List α} {item : β}

theorem drain_of_none (waiting : d.decode buf = none) : d.drain act s buf = (s, buf) := by
  rw [drain]
  split
  · rfl
  · rename_i found
    rw [waiting] at found
    cases found

theorem drain_of_some (taken : d.decode buf = some (item, rest)) :
    d.drain act s buf = d.drain act (act s item) rest := by
  rw [drain]
  split
  · rename_i waiting
    rw [taken] at waiting
    cases waiting
  · rename_i found
    rw [taken] at found
    cases found
    rfl

/-- Induction along the loop: the buffer waits for more, or an item comes off it. -/
theorem drain_induction (d : Decoder α β) (act : σ → β → σ) {P : σ → List α → Prop}
    (waiting : ∀ s buf, d.decode buf = none → P s buf)
    (taken : ∀ s buf item rest, d.decode buf = some (item, rest) → P (act s item) rest → P s buf)
    (s : σ) (buf : List α) : P s buf := by
  induction length : buf.length using Nat.strongRecOn generalizing s buf with
  | ind n inductionHypothesis =>
      cases decoded : d.decode buf with
      | none => exact waiting s buf decoded
      | some pair =>
          obtain ⟨item, rest⟩ := pair
          have shorter : rest.length < n := length ▸ d.shrinks decoded
          exact taken s buf item rest decoded (inductionHypothesis _ shorter _ _ rfl)

/-- The loop stops only where no complete item is left. -/
theorem decode_drain (s : σ) (buf : List α) : d.decode (d.drain act s buf).2 = none := by
  induction s, buf using drain_induction d act with
  | waiting s buf decoded => rw [drain_of_none decoded]; exact decoded
  | taken s buf item rest decoded inductionHypothesis =>
      rw [drain_of_some decoded]
      exact inductionHypothesis

/-- Draining a buffer to which input arrived late: the early part may be drained first. -/
theorem drain_append (s : σ) (buf more : List α) :
    d.drain act s (buf ++ more) =
      d.drain act (d.drain act s buf).1 ((d.drain act s buf).2 ++ more) := by
  induction s, buf using drain_induction d act with
  | waiting s buf decoded => rw [drain_of_none decoded]
  | taken s buf item rest decoded inductionHypothesis =>
      rw [drain_of_some decoded, drain_of_some (d.stable more decoded)]
      exact inductionHypothesis

theorem decode_nil : d.decode [] = none := by
  cases decoded : d.decode [] with
  | none => rfl
  | some pair =>
      obtain ⟨item, rest⟩ := pair
      exact absurd (d.shrinks decoded) (Nat.not_lt_zero _)

/-- Feeding chunks one by one drains their concatenation. -/
theorem foldl_feed (s : σ) (buf : List α) (waiting : d.decode buf = none)
    (chunks : List (List α)) :
    chunks.foldl (d.feed act) (s, buf) = d.drain act s (buf ++ chunks.flatten) := by
  induction chunks generalizing s buf with
  | nil =>
      rw [List.flatten_nil, List.append_nil, drain_of_none waiting]
      rfl
  | cons chunk chunks inductionHypothesis =>
      rw [List.foldl_cons, List.flatten_cons, ← List.append_assoc, drain_append]
      exact inductionHypothesis _ _ (decode_drain s (buf ++ chunk))

/-- The decoder reads the grammar `Piece`: it takes off an item exactly when the buffer starts with a
    piece that stands for it. -/
structure Reads (d : Decoder α β) (Piece : β → List α → Prop) : Prop where
  taken : ∀ {buf item rest}, d.decode buf = some (item, rest) →
    ∃ piece, Piece item piece ∧ buf = piece ++ rest
  takes : ∀ {item piece} (rest : List α), Piece item piece →
    d.decode (piece ++ rest) = some (item, rest)

namespace Reads

variable {Piece : β → List α → Prop}

/-- The loop acts on the item of each piece in front of it. -/
theorem drain_pieces (reads : d.Reads Piece) {items : List β} {pieces : List (List α)}
    (stand : List.Forall₂ Piece items pieces) (s : σ) (rest : List α) :
    d.drain act s (pieces.flatten ++ rest) = d.drain act (items.foldl act s) rest := by
  induction stand generalizing s with
  | nil => rfl
  | cons stands _ inductionHypothesis =>
      rw [List.flatten_cons, List.append_assoc, drain_of_some (reads.takes _ stands)]
      exact inductionHypothesis _

/-- What the loop has taken off is a sequence of pieces, and it acted on their items in order. -/
theorem exists_pieces (reads : d.Reads Piece) (act : σ → β → σ) (s : σ) (buf : List α) :
    ∃ items pieces, List.Forall₂ Piece items pieces ∧
      buf = pieces.flatten ++ (d.drain act s buf).2 ∧ (d.drain act s buf).1 = items.foldl act s := by
  induction s, buf using drain_induction d act with
  | waiting s buf decoded =>
      rw [drain_of_none decoded]
      exact ⟨[], [], .nil, rfl, rfl⟩
  | taken s buf item rest decoded inductionHypothesis =>
      obtain ⟨items, pieces, stand, split, acted⟩ := inductionHypothesis
      obtain ⟨piece, stands, rfl⟩ := reads.taken decoded
      refine ⟨item :: items, piece :: pieces, .cons stands stand, ?_, ?_⟩
      · rw [drain_of_some decoded, List.flatten_cons, List.append_assoc, ← split]
      · rw [drain_of_some decoded, acted, List.foldl_cons]

end Reads

end Decoder

/-- A decoder that can fail. What arrives later does not take back a failure either. -/
structure FallibleDecoder (α : Type u) (β : Type v) where
  decode : List α → Option (Option (β × List α))
  shrinks : ∀ {buf item rest}, decode buf = some (some (item, rest)) → rest.length < buf.length
  stable : ∀ {buf item rest} (more : List α), decode buf = some (some (item, rest)) →
    decode (buf ++ more) = some (some (item, rest ++ more))
  fails : ∀ {buf} (more : List α), decode buf = none → decode (buf ++ more) = none

namespace FallibleDecoder

variable {α : Type u} {β : Type v} {σ : Type w} (d : FallibleDecoder α β) (act : σ → β → σ)

/-- Take items off the buffer as long as there are any; the loop fails where the decoder does. -/
def drain (s : σ) (buf : List α) : Option (σ × List α) :=
  match taken : d.decode buf with
  | none => none
  | some none => some (s, buf)
  | some (some (item, rest)) =>
      have : rest.length < buf.length := d.shrinks taken
      drain (act s item) rest
termination_by buf.length

/-- The buffers that the loop calls the decoder with. -/
def decodes (buf : List α) : List (List α) :=
  match taken : d.decode buf with
  | some (some (_, rest)) =>
      have : rest.length < buf.length := d.shrinks taken
      buf :: decodes rest
  | _ => [buf]
termination_by buf.length

/-- One arrival. -/
def feed (state : σ × List α) (chunk : List α) : Option (σ × List α) :=
  d.drain act state.1 (state.2 ++ chunk)

variable {d act} {s : σ} {buf rest : List α} {item : β}

theorem decodes_of_some (taken : d.decode buf = some (some (item, rest))) :
    d.decodes buf = buf :: d.decodes rest := by
  rw [decodes]
  split
  · rename_i found
    rw [taken] at found
    cases found
    rfl
  · rename_i other
    exact absurd taken (other item rest)

theorem decodes_of_not_some (other : ∀ item rest, d.decode buf ≠ some (some (item, rest))) :
    d.decodes buf = [buf] := by
  rw [decodes]
  split
  · rename_i found
    exact absurd found (other _ _)
  · rfl

theorem drain_of_fails (failed : d.decode buf = none) : d.drain act s buf = none := by
  rw [drain]
  split
  · rfl
  · rename_i found
    rw [failed] at found
    cases found
  · rename_i found
    rw [failed] at found
    cases found

theorem drain_of_none (waiting : d.decode buf = some none) : d.drain act s buf = some (s, buf) := by
  rw [drain]
  split
  · rename_i found
    rw [waiting] at found
    cases found
  · rfl
  · rename_i found
    rw [waiting] at found
    cases found

theorem drain_of_some (taken : d.decode buf = some (some (item, rest))) :
    d.drain act s buf = d.drain act (act s item) rest := by
  rw [drain]
  split
  · rename_i found
    rw [taken] at found
    cases found
  · rename_i found
    rw [taken] at found
    cases found
  · rename_i found
    rw [taken] at found
    cases found
    rfl

/-- Induction along the loop: the decoder fails, the buffer waits for more, or an item comes off it. -/
theorem drain_induction (d : FallibleDecoder α β) (act : σ → β → σ) {P : σ → List α → Prop}
    (fails : ∀ s buf, d.decode buf = none → P s buf)
    (waiting : ∀ s buf, d.decode buf = some none → P s buf)
    (taken : ∀ s buf item rest, d.decode buf = some (some (item, rest)) → P (act s item) rest →
      P s buf)
    (s : σ) (buf : List α) : P s buf := by
  induction length : buf.length using Nat.strongRecOn generalizing s buf with
  | ind n inductionHypothesis =>
      cases decoded : d.decode buf with
      | none => exact fails s buf decoded
      | some found =>
          cases found with
          | none => exact waiting s buf decoded
          | some pair =>
              obtain ⟨item, rest⟩ := pair
              have shorter : rest.length < n := length ▸ d.shrinks decoded
              exact taken s buf item rest decoded (inductionHypothesis _ shorter _ _ rfl)

/-- The loop ends well exactly if no call of the decoder fails. -/
theorem isSome_drain_iff (s : σ) (buf : List α) :
    (d.drain act s buf).isSome ↔ ∀ b ∈ d.decodes buf, (d.decode b).isSome := by
  induction s, buf using drain_induction d act with
  | fails s buf decoded =>
      rw [drain_of_fails decoded, decodes_of_not_some (by simp [decoded])]
      simp [decoded]
  | waiting s buf decoded =>
      rw [drain_of_none decoded, decodes_of_not_some (by simp [decoded])]
      simp [decoded]
  | taken s buf item rest decoded inductionHypothesis =>
      rw [drain_of_some decoded, decodes_of_some decoded, List.forall_mem_cons, inductionHypothesis,
        decoded]
      exact ⟨fun later => ⟨rfl, later⟩, And.right⟩

/-- Draining a buffer to which input arrived late: the early part may be drained first. -/
theorem drain_append (s : σ) (buf more : List α) :
    d.drain act s (buf ++ more) =
      (d.drain act s buf).bind fun state => d.drain act state.1 (state.2 ++ more) := by
  induction s, buf using drain_induction d act with
  | fails s buf decoded =>
      rw [drain_of_fails decoded, drain_of_fails (d.fails more decoded)]
      rfl
  | waiting s buf decoded =>
      rw [drain_of_none decoded]
      rfl
  | taken s buf item rest decoded inductionHypothesis =>
      rw [drain_of_some decoded, drain_of_some (d.stable more decoded)]
      exact inductionHypothesis

/-- A loop that ends well has left no whole item. -/
theorem decode_of_drain {state : σ × List α} (drained : d.drain act s buf = some state) :
    d.decode state.2 = some none := by
  induction s, buf using drain_induction d act with
  | fails s buf decoded =>
      rw [drain_of_fails decoded] at drained
      cases drained
  | waiting s buf decoded =>
      rw [drain_of_none decoded] at drained
      cases drained
      exact decoded
  | taken s buf item rest decoded inductionHypothesis =>
      rw [drain_of_some decoded] at drained
      exact inductionHypothesis drained

/-- Feeding chunks one by one drains their concatenation. -/
theorem foldlM_feed (s : σ) (buf : List α) (waiting : d.decode buf = some none)
    (chunks : List (List α)) :
    chunks.foldlM (d.feed act) (s, buf) = d.drain act s (buf ++ chunks.flatten) := by
  induction chunks generalizing s buf with
  | nil =>
      rw [List.flatten_nil, List.append_nil, drain_of_none waiting]
      rfl
  | cons chunk chunks inductionHypothesis =>
      rw [List.foldlM_cons, List.flatten_cons, ← List.append_assoc, drain_append, feed]
      cases drained : d.drain act s (buf ++ chunk) with
      | none => rfl
      | some state => exact inductionHypothesis _ _ (decode_of_drain drained)

/-- Chunks are fed without a failure exactly if no call of the decoder fails, at any of them. -/
theorem isSome_foldlM_feed_iff (state : σ × List α) (chunks : List (List α)) :
    (chunks.foldlM (d.feed act) state).isSome ↔
      ∀ before chunk after u, chunks = before ++ chunk :: after →
        before.foldlM (d.feed act) state = some u → ∀ b ∈ d.decodes (u.2 ++ chunk), (d.decode b).isSome := by
  induction chunks generalizing state with
  | nil =>
      refine iff_of_true rfl fun before chunk after u split => ?_
      simp at split
  | cons first chunks inductionHypothesis =>
      rw [List.foldlM_cons]
      constructor
      · intro ends before chunk after u split fed
        cases fedFirst : d.feed act state first with
        | none =>
            rw [fedFirst] at ends
            cases ends
        | some next =>
            rw [fedFirst] at ends
            cases before with
            | nil =>
                cases split
                cases fed
                exact (isSome_drain_iff _ _).1 (Option.isSome_of_eq_some fedFirst)
            | cons earlier before =>
                obtain ⟨rfl, rfl⟩ := List.cons.inj split
                rw [List.foldlM_cons, fedFirst] at fed
                exact (inductionHypothesis next).1 ends before chunk after u rfl fed
      · intro safe
        have now : (d.feed act state first).isSome :=
          (isSome_drain_iff _ _).2 (safe [] first chunks state rfl rfl)
        obtain ⟨next, fedFirst⟩ := Option.isSome_iff_exists.1 now
        rw [fedFirst]
        refine (inductionHypothesis next).2 fun before chunk after u split fed => ?_
        refine safe (first :: before) chunk after u (congrArg (first :: ·) split) ?_
        rw [List.foldlM_cons, fedFirst]
        exact fed

end FallibleDecoder
