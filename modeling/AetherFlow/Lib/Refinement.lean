/-
Module: AetherFlow.Lib.Refinement
Purpose: Refinement of an abstract machine by a partial labelled transition function. The abstract
  machine is a relation over the events it takes part in; every concrete step shows finitely many
  events, and matching one step at a time matches whole runs, event for event.
Trusted boundary: none
Main exports: Run, Run.append, Run.invariant, shown, told_of_exec, Refines, Refines.run
-/
import AetherFlow.Lib.Transition

namespace Transition

variable {σ α τ ε : Type*}

/-- A run of a machine given by a relation, with the events it took part in. -/
inductive Run (step : τ → ε → τ → Prop) : τ → List ε → τ → Prop
  | nil (t : τ) : Run step t [] t
  | cons {t u v : τ} {e : ε} {events : List ε} :
      step t e u → Run step u events v → Run step t (e :: events) v

namespace Run

variable {step : τ → ε → τ → Prop} {t u v : τ} {events more : List ε}

theorem single {e : ε} (moved : step t e u) : Run step t [e] u := .cons moved (.nil u)

theorem append (first : Run step t events u) (rest : Run step u more v) :
    Run step t (events ++ more) v := by
  induction first with
  | nil => exact rest
  | cons moved _ inductionHypothesis => exact .cons moved (inductionHypothesis rest)

/-- What relates the start to itself, under no events, and is kept by every further event relates the
    start to the end, under all events. -/
theorem invariant {P : List ε → τ → Prop} (run : Run step t events u) (initially : P [] t)
    (keeps : ∀ past s e s', P past s → step s e s' → P (past ++ [e]) s') : P events u := by
  suffices general : ∀ past, P past t → P (past ++ events) u from general [] initially
  clear initially
  induction run with
  | nil =>
      intro past holds
      rwa [List.append_nil]
  | cons moved _ inductionHypothesis =>
      intro past holds
      have later := inductionHypothesis _ (keeps past _ _ _ holds moved)
      rwa [List.append_assoc] at later

end Run

/-- The events that the run of `labels` from `s` shows. -/
def shown (step : σ → α → Option σ) (shows : σ → α → List ε) (s : σ) : List α → List ε
  | [] => []
  | a :: labels => shows s a ++ ((step s a).map (shown step shows · labels)).getD []

/-- What every step adds to a list in the state is told by the events of the run. -/
theorem told_of_exec {β : Type*} {step : σ → α → Option σ} {shows : σ → α → List ε} (list : σ → List β)
    (tells : ε → Option β)
    (told : ∀ s a t, step s a = some t → list t = list s ++ (shows s a).filterMap tells)
    {labels : List α} {s t : σ} (executed : exec step s labels = some t) :
    list t = list s ++ (shown step shows s labels).filterMap tells := by
  induction labels generalizing s with
  | nil =>
      cases executed
      exact (List.append_nil _).symm
  | cons a labels inductionHypothesis =>
      obtain ⟨u, first, rest⟩ := Option.bind_eq_some_iff.1 executed
      rw [shown, first, Option.map_some, Option.getD_some, List.filterMap_append, ← List.append_assoc,
        ← told s a u first]
      exact inductionHypothesis rest

/-- The steps of `step` that meet `ok` refine `spec`: seen through `view`, each one is a run of `spec`
    over the events it shows. `inv` is what the concrete side knows about itself. -/
structure Refines (step : σ → α → Option σ) (ok : σ → α → Prop) (inv : σ → Prop)
    (shows : σ → α → List ε) (spec : τ → ε → τ → Prop) (view : σ → τ) : Prop where
  keeps : ∀ s a t, inv s → ok s a → step s a = some t → inv t
  matched : ∀ s a t, inv s → ok s a → step s a = some t → Run spec (view s) (shows s a) (view t)

/-- Steps that refine make runs that refine. -/
theorem Refines.run {step : σ → α → Option σ} {ok : σ → α → Prop} {inv : σ → Prop}
    {shows : σ → α → List ε} {spec : τ → ε → τ → Prop} {view : σ → τ}
    (refines : Refines step ok inv shows spec view) {labels : List α} {s t : σ} (initially : inv s)
    (met : Throughout step ok s labels) (executed : exec step s labels = some t) :
    Run spec (view s) (shown step shows s labels) (view t) := by
  induction labels generalizing s with
  | nil =>
      cases executed
      exact .nil _
  | cons a labels inductionHypothesis =>
      obtain ⟨u, first, rest⟩ := Option.bind_eq_some_iff.1 executed
      obtain ⟨now, later⟩ := met.head first
      rw [shown, first, Option.map_some, Option.getD_some]
      exact (refines.matched s a u initially now first).append
        (inductionHypothesis (refines.keeps s a u initially now first) later rest)

end Transition
