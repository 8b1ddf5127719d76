/-
Module: AetherFlow.Ask.Ownership
Purpose: Who ends up with a reply. With its cell in an `Arc`, a value passed to the `Responder` of an
  `ask_timeout` call is returned by that call, or the call gives up and the last holder of the cell
  drops the value, once and never both, in every interleaving of any number of calls.
Trusted boundary: none
Main exports: Ownership, ownership_of_run
-/
import AetherFlow.Ask.Invariant

namespace AetherFlow.Ask

open Transition

variable {R : Type*}

/-- Where the replies are. -/
structure Ownership (s : Asks R) : Prop where
  /-- A call returns nothing but the value passed to its own `Responder`. -/
  returned : ∀ (c : Nat) (call : Call R) (content : Option (Reply R)), s.calls[c]? = some call →
    call.caller = .returned (.ok content) →
      ∃ value, content = some { call := c, value } ∧ call.responder.answer = some (some value)
  /-- When the caller and the `Responder` have finished, the value was returned, or the call failed
      and the value was dropped once. -/
  fate : ∀ (c : Nat) (call : Call R) (value : R) (result : AskResult R), s.calls[c]? = some call →
    call.responder = .gone (some value) → call.caller = .returned result →
      (result = .ok (some { call := c, value }) ∧ s.dropsOf c = []) ∨
        ((result = .error .timeout ∨ result = .error .closed) ∧
          s.dropsOf c = [some { call := c, value }])
  /-- Before that nothing is dropped. -/
  kept : ∀ (c : Nat) (call : Call R), s.calls[c]? = some call →
    (∀ result, call.caller ≠ .returned result) ∨ (∀ answer, call.responder ≠ .gone answer) →
      s.dropsOf c = []
  /-- A `Responder` that was not replied to leaves nothing to drop. -/
  unreplied : ∀ (c : Nat) (call : Call R), s.calls[c]? = some call →
    (∀ value, call.responder.answer ≠ some (some value)) → s.dropsOf c = []
  noReply : ∀ (c : Nat) (call : Call R), s.calls[c]? = some call →
    call.caller = .returned (.error .noReply) → call.responder.answer = some none
  /-- No slot is read or dropped that was not written, and no freed cell is touched. -/
  reads : ∀ (c : Nat) (call : Call R), s.calls[c]? = some call → call.caller.content ≠ some none
  drops : none ∉ s.dropped
  tame : s.wild = false

/-- Nothing is dropped of a call that was not replied to. -/
theorem Call.drops_of_unreplied {kind : Holding} {c : Nat} {call : Call R}
    (unreplied : ∀ value, call.responder.answer ≠ some (some value)) : call.drops kind c = [] := by
  unfold Call.drops
  split
  · rfl
  · split
    · rename_i value _ answer _
      exact absurd answer (unreplied value)
    · rfl

/-- Nothing is dropped of a call that has not finished. -/
theorem Call.drops_of_unfinished {c : Nat} {call : Call R}
    (unfinished : (∀ result, call.caller ≠ .returned result) ∨
      (∀ answer, call.responder ≠ .gone answer)) : call.drops .owned c = [] := by
  cases live : call.live .owned with
  | true => exact Call.drops_of_live live
  | false =>
      have ended : call.caller.isReturned = true ∧ call.responder.isGone = true := by
        simpa [Call.live] using live
      refine Call.drops_of_unreplied fun value answer => ?_
      rcases unfinished with caller | responder
      · cases at_ : call.caller with
        | returned result => exact caller result at_
        | _ => simp [at_, CallerPc.isReturned] at ended
      · cases at_ : call.responder with
        | gone answer => exact responder answer at_
        | absent => simp [at_, ResponderPc.answer] at answer
        | _ => simp [at_, ResponderPc.isGone] at ended

/-- Every run of any number of `ask_timeout` calls keeps track of its replies. -/
theorem ownership_of_run {s : Asks R} (run : AskRuns .owned Free s) : Ownership s := by
  have inv : AskInv .owned s := by
    refine AskRuns.inv (run.weaken fun u a _ => ?_)
    unfold Settles
    split
    · exact nofun
    · trivial
  refine ⟨fun c call content found at_ => ?_, fun c call value result found gone at_ => ?_,
    fun c call found unfinished => ?_, fun c call found unreplied => ?_,
    fun c call found at_ => ?_, fun c call found out => ?_, inv.whole, inv.tame⟩
  · obtain ⟨value, answer, out⟩ :=
      (inv.calls c call found).parties.content content (by rw [at_]; rfl)
    exact ⟨value, out, answer⟩
  · obtain ⟨-, drops, parties⟩ := inv.calls c call found
    have dead : call.live .owned = false := by
      simp [Call.live, at_, gone, CallerPc.isReturned, ResponderPc.isGone]
    rw [Call.drops, dead, gone, at_] at drops
    cases result with
    | ok content =>
        obtain ⟨value', answer, out⟩ := parties.content content (by rw [at_]; rfl)
        rw [gone] at answer
        cases answer
        exact .inl ⟨by rw [out], drops⟩
    | error e =>
        refine .inr ⟨?_, drops⟩
        cases e with
        | timeout => exact .inl rfl
        | closed => exact .inr rfl
        | noReply =>
            have answer := parties.noReply (by rw [at_]; rfl)
            rw [gone] at answer
            cases answer
        | wouldBlockCallingCore =>
            have absent := parties.blocked (by rw [at_]; rfl)
            rw [gone] at absent
            cases absent
  · rw [(inv.calls c call found).drops]
    exact Call.drops_of_unfinished unfinished
  · rw [(inv.calls c call found).drops]
    exact Call.drops_of_unreplied unreplied
  · exact (inv.calls c call found).parties.noReply (by rw [at_]; rfl)
  · obtain ⟨value, -, absurd_⟩ := (inv.calls c call found).parties.content none out
    cases absurd_

/-- A call gives up, and the reply comes late. -/
def lateReply : List (Act Nat) :=
  [.ask 0, .caller 0 .made, .caller 0 .sent, .caller 0 .next, .caller 0 (.clock true),
    .caller 0 .next, .responder 0 (.reply 5), .responder 0 .next, .responder 0 .next,
    .responder 0 .next, .responder 0 .next]

theorem ownership_of_lateReply : ∃ s : Asks Nat, AskRuns .owned Free s ∧
    s.calls = [⟨0, .returned (.error .timeout), .gone (some 5)⟩] ∧
    s.dropped = [some ⟨0, 5⟩] ∧ Ownership s := by
  have executed : (exec (Asks.step .owned) Asks.new lateReply).map
      (fun s => (s.calls, s.dropped)) =
        some ([⟨0, .returned (.error .timeout), .gone (some 5)⟩], [some ⟨0, 5⟩]) := rfl
  obtain ⟨s, final, same⟩ := Option.map_eq_some_iff.1 executed
  obtain ⟨calls, dropped⟩ := Prod.mk.inj same
  have run : AskRuns .owned Free s := reach_of_exec final
  exact ⟨s, run, calls, dropped, ownership_of_run run⟩

end AetherFlow.Ask
