/-
Module: AetherFlow.Ask.Borrowed
Purpose: The stack frame that `ask` lends out. `Ok` and `NoReply` are returned only after the `Responder`
  has touched the cell for the last time, since the caller learns of both from the cell. `Closed` is
  returned without looking at it: that is safe when the `Responder` comes back with the message, and
  leaves a dangling pointer when `make_msg` has put it elsewhere.
Trusted boundary: none
Main exports: FrameSafe, frameSafe_of_run, responder_outlives_ask
-/
import AetherFlow.Ask.Invariant

namespace AetherFlow.Ask

open Transition

variable {R : Type*}

/-- The `Responder` of a call that has returned is consumed, and no step of it touches memory. -/
structure FrameSafe (s : Asks R) : Prop where
  consumed : ∀ (c : Nat) (call : Call R) (result : AskResult R), s.calls[c]? = some call →
    call.caller = .returned result →
      call.responder = .absent ∨ ∃ answer, call.responder.answer = some answer
  untouched : ∀ (c : Nat) (call : Call R) (result : AskResult R) (move : ResponderMove R)
    (t : Asks R), s.calls[c]? = some call → call.caller = .returned result →
      s.step .borrowed (.responder c move) = some t →
        t.heap = s.heap ∧ t.dropped = s.dropped ∧ t.wild = false
  /-- No party has followed a pointer to a frame that was gone. -/
  tame : s.wild = false

/-- In every run of any number of `ask` calls in which a `Responder` is in the message that comes back
    as `Closed` or is already consumed, no `Responder` outlives its cell. -/
theorem frameSafe_of_run {s : Asks R} (run : AskRuns .borrowed (Settles .borrowed) s) :
    FrameSafe s := by
  have inv := run.inv
  have consumed : ∀ (c : Nat) (call : Call R) (result : AskResult R), s.calls[c]? = some call →
      call.caller = .returned result →
        call.responder = .absent ∨ ∃ answer, call.responder.answer = some answer := by
    intro c call result found at_
    by_cases absent : call.responder = .absent
    · exact .inl absent
    · exact .inr (Option.isSome_iff_exists.1
        ((inv.calls c call found).parties.settled rfl (by rw [at_]; rfl) absent))
  refine ⟨consumed, fun c call result move t found at_ moved => ?_, inv.tame⟩
  obtain ⟨call', found', moved⟩ := Option.bind_eq_some_iff.1 moved
  rw [found] at found'
  cases found'
  rcases consumed c call result found at_ with absent | ⟨answer, answered⟩
  · simp [Asks.responderStep, absent] at moved
  · cases responder : call.responder with
    | releasing answer =>
        cases move with
        | next =>
            simp only [Asks.responderStep, responder, Option.some.injEq] at moved
            subst moved
            exact ⟨rfl, rfl, inv.tame⟩
        | _ => simp [Asks.responderStep, responder] at moved
    | destroying answer =>
        have owned := ((inv.calls c call found).parties.responderLast answer responder).1
        cases owned
    | gone answer => cases move <;> simp [Asks.responderStep, responder] at moved
    | _ => simp [responder, ResponderPc.answer] at answered

/-- The mailbox is closed and the message comes back with the `Responder` in it. -/
def refusedAsk : List (Act Nat) :=
  [.ask 0, .caller 0 .made, .caller 0 .refused, .caller 0 .next, .responder 0 .next,
    .responder 0 .next, .caller 0 .next, .caller 0 .next, .caller 0 .next]

theorem frameSafe_of_refusedAsk : ∃ s : Asks Nat, AskRuns .borrowed (Settles .borrowed) s ∧
    s.calls = [⟨0, .returned (.error .closed), .gone none⟩] ∧ FrameSafe s := by
  have executed : (execChecked (Asks.step .borrowed) (Settles .borrowed) Asks.new refusedAsk).map
      (fun s => s.calls) = some [⟨0, .returned (.error .closed), .gone none⟩] := rfl
  obtain ⟨s, final, calls⟩ := Option.map_eq_some_iff.1 executed
  have run : AskRuns .borrowed (Settles .borrowed) s := reach_of_execChecked final
  exact ⟨s, run, calls, frameSafe_of_run run⟩

/-- `make_msg` puts the `Responder` elsewhere, and the mailbox is closed. -/
def stashedAsk : List (Act Nat) :=
  [.ask 0, .responder 0 .stash, .caller 0 .made, .caller 0 .refused, .caller 0 .next, .caller 0 .next,
    .caller 0 .next]

/-- `ask` has returned `Closed` and its `Responder` is alive; the reply goes to a frame that is gone. -/
theorem responder_outlives_ask : ∃ s t : Asks Nat, AskRuns .borrowed Free s ∧
    s.calls = [⟨0, .returned (.error .closed), .held false⟩] ∧ s.wild = false ∧
    Reach (Asks.step .borrowed) Free s t ∧ t.wild = true := by
  have executed : (exec (Asks.step .borrowed) Asks.new stashedAsk).map
      (fun s => (s.calls, s.wild,
        (exec (Asks.step .borrowed) s [.responder 0 (.reply 5), .responder 0 .next]).map (·.wild))) =
      some ([⟨0, .returned (.error .closed), .held false⟩], false, some true) := rfl
  obtain ⟨s, final, same⟩ := Option.map_eq_some_iff.1 executed
  obtain ⟨calls, same⟩ := Prod.mk.inj same
  obtain ⟨tame, later⟩ := Prod.mk.inj same
  obtain ⟨t, later, wild⟩ := Option.map_eq_some_iff.1 later
  exact ⟨s, t, reach_of_exec final, calls, tame, reach_of_exec later, wild⟩

end AetherFlow.Ask
