/-
Module: AetherFlow.Lib.Transducer
Purpose: Machines that answer each input with finitely many outputs. What a machine has put out grows
  with its input, and a machine behind a decoder, fed with a stream in chunks, puts out what the
  machine itself puts out for the items of the stream.
Trusted boundary: none
Main exports: Transducer, Transducer.run, Transducer.output, Transducer.run_append,
  Transducer.output_prefix, Transducer.behind, Transducer.behind_run, Transducer.behind_output_pieces
-/
import AetherFlow.Lib.Decoder

universe u v w

/-- A machine over states `σ` with inputs `α` and outputs `β`. -/
structure Transducer (σ : Type u) (α : Type v) (β : Type w) where
  start : σ
  step : σ → α → σ × List β

namespace Transducer

variable {σ : Type u} {α : Type v} {β : Type w} (m : Transducer σ α β)

/-- The state after the inputs, and all outputs. -/
def run (s : σ) : List α → σ × List β
  | [] => (s, [])
  | a :: inputs => ((run (m.step s a).1 inputs).1, (m.step s a).2 ++ (run (m.step s a).1 inputs).2)

/-- All outputs for inputs that come from the start. -/
def output (inputs : List α) : List β := (m.run m.start inputs).2

variable {m}

@[simp] theorem run_nil (s : σ) : m.run s [] = (s, []) := rfl

theorem run_append (s : σ) (inputs more : List α) :
    m.run s (inputs ++ more) =
      ((m.run (m.run s inputs).1 more).1, (m.run s inputs).2 ++ (m.run (m.run s inputs).1 more).2) := by
  induction inputs generalizing s with
  | nil => rfl
  | cons a inputs inductionHypothesis =>
      rw [List.cons_append, run, inductionHypothesis, run, List.append_assoc]

theorem run_concat (s : σ) (inputs : List α) (a : α) :
    m.run s (inputs ++ [a]) =
      ((m.step (m.run s inputs).1 a).1, (m.run s inputs).2 ++ (m.step (m.run s inputs).1 a).2) := by
  rw [run_append]
  simp [run]

/-- Inputs that another machine takes by another name. -/
theorem run_map {α' : Type*} {m' : Transducer σ α' β} {f : α' → α}
    (same : ∀ s a, m.step s (f a) = m'.step s a) (s : σ) (inputs : List α') :
    m.run s (inputs.map f) = m'.run s inputs := by
  induction inputs generalizing s with
  | nil => rfl
  | cons a inputs inductionHypothesis =>
      rw [List.map_cons, run, run, same, inductionHypothesis]

/-- What was put out is not taken back. -/
theorem output_prefix {inputs inputs' : List α} (longer : inputs <+: inputs') :
    m.output inputs <+: m.output inputs' := by
  obtain ⟨more, rfl⟩ := longer
  rw [output, output, run_append]
  exact List.prefix_append _ _

variable (m)

/-- One input, with the outputs collected. -/
def collect (state : σ × List β) (a : α) : σ × List β :=
  ((m.step state.1 a).1, state.2 ++ (m.step state.1 a).2)

variable {m}

theorem foldl_collect (s : σ) (made : List β) (inputs : List α) :
    inputs.foldl m.collect (s, made) = ((m.run s inputs).1, made ++ (m.run s inputs).2) := by
  induction inputs generalizing s made with
  | nil => simp
  | cons a inputs inductionHypothesis =>
      rw [List.foldl_cons, collect, inductionHypothesis, run, List.append_assoc]

/-! ### Behind a decoder -/

variable {γ : Type v} (m) (d : Decoder γ α)

/-- The machine fed with the items that come off a buffered stream. -/
def behind : Transducer (σ × List γ) (List γ) β where
  start := (m.start, [])
  step state chunk :=
    let drained := d.drain m.collect (state.1, []) (state.2 ++ chunk)
    ((drained.1.1, drained.2), drained.1.2)

variable {m d}

/-- What was collected before does not matter to the loop. -/
theorem drain_collect (s : σ) (made : List β) (buf : List γ) :
    d.drain m.collect (s, made) buf =
      (((d.drain m.collect (s, []) buf).1.1, made ++ (d.drain m.collect (s, []) buf).1.2),
        (d.drain m.collect (s, []) buf).2) := by
  suffices general : ∀ (state : σ × List β) (earlier : List β),
      d.drain m.collect (state.1, earlier ++ state.2) buf =
        (((d.drain m.collect state buf).1.1, earlier ++ (d.drain m.collect state buf).1.2),
          (d.drain m.collect state buf).2) by
    simpa using general (s, []) made
  intro state earlier
  induction state, buf using Decoder.drain_induction d m.collect with
  | waiting state buf decoded => rw [Decoder.drain_of_none decoded, Decoder.drain_of_none decoded]
  | taken state buf item rest decoded inductionHypothesis =>
      rw [Decoder.drain_of_some decoded, Decoder.drain_of_some decoded, ← inductionHypothesis, collect,
        collect, List.append_assoc]

/-- However the stream is cut, the machine behind the decoder drains it once. -/
theorem behind_run (s : σ) (buf : List γ) (waiting : d.decode buf = none) (chunks : List (List γ)) :
    (m.behind d).run (s, buf) chunks =
      let drained := d.drain m.collect (s, []) (buf ++ chunks.flatten)
      ((drained.1.1, drained.2), drained.1.2) := by
  induction chunks generalizing s buf with
  | nil =>
      rw [List.flatten_nil, List.append_nil, Decoder.drain_of_none waiting]
      rfl
  | cons chunk chunks inductionHypothesis =>
      have later := inductionHypothesis (d.drain m.collect (s, []) (buf ++ chunk)).1.1
        (d.drain m.collect (s, []) (buf ++ chunk)).2 (Decoder.decode_drain _ _)
      rw [run, List.flatten_cons, ← List.append_assoc, Decoder.drain_append, drain_collect, behind]
      rw [behind] at later
      rw [later]

/-- The outputs depend on the stream alone. -/
theorem behind_output (chunks : List (List γ)) :
    (m.behind d).output chunks = (d.drain m.collect (m.start, []) chunks.flatten).1.2 := by
  rw [output, show (m.behind d).start = (m.start, []) from rfl,
    behind_run m.start [] Decoder.decode_nil]
  rfl

/-- A stream made of pieces and an unfinished rest is answered as the items it stands for. -/
theorem behind_output_pieces {Piece : α → List γ → Prop} (reads : d.Reads Piece) {items : List α}
    {pieces chunks : List (List γ)} {rest : List γ} (stand : List.Forall₂ Piece items pieces)
    (waiting : d.decode rest = none) (stream : chunks.flatten = pieces.flatten ++ rest) :
    (m.behind d).output chunks = m.output items := by
  rw [behind_output, stream, reads.drain_pieces stand, Decoder.drain_of_none waiting, foldl_collect]
  rfl

end Transducer
