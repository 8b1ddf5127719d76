/-
Module: AetherFlow.Ask.Answered
Purpose: How a call that waits comes to its end. Before its message lie the messages that were accepted
  earlier; a poll of the actor takes one of them out, and a handler that replies to or drops what it
  gets lets the next poll begin. Once the `Responder` of the call is consumed, its caller needs a few
  moves of its own, which nobody can keep it from, and returns what the `Responder` was consumed with.
Trusted boundary: none
Main exports: CallerPc.sent, CallerPc.left, Reports, Orderly, Sane, Prompt, Awaits, ask_answered
-/
import AetherFlow.Ask.Invariant
import AetherFlow.Ask.Stranded
import AetherFlow.System.Processing

namespace AetherFlow.Ask

open Transition Mpsc
open AetherFlow.System (HeadFirst looks placed_of_step received_lt_of_returned mem_received_of_place
  running_of_held)

variable {w : Nat} {R : Type*}

/-! ### The moves of a caller -/

/-- What a call can return whose message did not come back. Only a caller with a clock runs out of
    time. -/
def returnable (kind : Holding) : AskResult R → Bool
  | .ok _ | .error .noReply => true
  | .error .timeout => decide (kind = .owned)
  | .error .closed | .error .wouldBlockCallingCore => false

/-- The message was sent and did not come back. -/
def CallerPc.sent (kind : Holding) : CallerPc R → Bool
  | .making | .sending | .refused | .droppingMessage => false
  | .leaving result | .destroying result | .returned result => returnable kind result
  | _ => true

/-- The moves a caller has left once its `Responder` is consumed. -/
def CallerPc.left : CallerPc R → Nat
  | .waiting => 6
  | .poll => 5
  | .reading => 4
  | .consuming _ => 3
  | .leaving _ => 2
  | .destroying _ => 1
  | _ => 0

theorem CallerPc.left_le (pc : CallerPc R) : pc.left ≤ 6 := by cases pc <;> simp [left]

/-- What a call that was not refused returns when its `Responder` was consumed with this answer. -/
def Reports (kind : Holding) (c : Nat) (answer : Option R) : AskResult R → Prop
  | .ok content => ∃ value, answer = some value ∧ content = some { call := c, value }
  | .error .noReply => answer = none
  | .error .timeout => kind = .owned
  | .error _ => False

/-- A step of the caller of call `c`. -/
def Act.ofCaller (c : Nat) : Act R → Bool
  | .caller d _ => d == c
  | _ => false

section Calls

variable {kind : Holding} {s t : Asks R} {c : Nat} {call : Call R}

/-- What a party leaves behind when it follows its pointer. -/
theorem Asks.access_of {P : Asks R → Prop} {addr : Nat} {use : Block R → Asks R}
    (there : ∀ block, P (use block)) (nowhere : P { s with wild := true }) : P (s.access addr use) := by
  unfold Asks.access
  split
  · exact there _
  · exact nowhere

/-- Call `c` at most is another one. -/
def Elsewhere (c : Nat) (s t : Asks R) : Prop := ∀ d, d ≠ c → t.calls[d]? = s.calls[d]?

theorem elsewhere_set {call' : Call R} (set : t.calls = s.calls.set c call') : Elsewhere c s t := by
  intro d other
  rw [set, List.getElem?_set_ne (Ne.symm other)]

theorem elsewhere_of_callerStep {move : CallerMove} (moved : s.callerStep kind c call move = some t) :
    Elsewhere c s t := by
  have nowhere : Elsewhere c s { s with wild := true } := fun _ _ => rfl
  unfold Asks.callerStep at moved
  split at moved
  · cases moved
    exact elsewhere_set rfl
  · cases moved
    exact elsewhere_set rfl
  · cases moved
    exact elsewhere_set rfl
  · split at moved <;> cases moved <;> exact elsewhere_set rfl
  · split at moved <;> cases moved
    exact elsewhere_set rfl
  · cases moved
    refine Asks.access_of (fun block => ?_) nowhere
    split
    · exact elsewhere_set rfl
    · exact elsewhere_set rfl
    all_goals
      split
      · exact elsewhere_set rfl
      · exact fun _ _ => rfl
  · cases moved
    exact elsewhere_set rfl
  · cases moved
    exact Asks.access_of (fun block => elsewhere_set rfl) nowhere
  · cases moved
    exact Asks.access_of (fun block => elsewhere_set rfl) nowhere
  · split at moved <;> cases moved
    · exact Asks.access_of (fun block => elsewhere_set rfl) nowhere
    · exact elsewhere_set rfl
  · cases moved
    exact Asks.access_of (fun block => elsewhere_set rfl) nowhere
  · cases moved

/-- The `Responder` of call `c` at most has gone on, and an answer it had is its answer. -/
def Respects (c : Nat) (call : Call R) (s t : Asks R) : Prop :=
  ∃ pc, t.calls = s.calls.set c { call with responder := pc } ∧
    ∀ answer, call.responder.answer = some answer → pc.answer = some answer

theorem respects_of_responderStep {move : ResponderMove R} (found : s.calls[c]? = some call)
    (moved : s.responderStep kind c call move = some t) : Respects c call s t := by
  obtain ⟨inside, here⟩ := List.getElem?_eq_some_iff.1 found
  have same : s.calls = s.calls.set c call := by rw [← here, List.set_getElem_self]
  have stays : Respects c call s { s with wild := true } := ⟨call.responder, same, fun _ => id⟩
  unfold Asks.responderStep at moved
  split at moved
  · rename_i at_
    cases moved
    exact ⟨_, rfl, by rw [at_]; nofun⟩
  · rename_i at_
    cases moved
    exact ⟨_, rfl, by rw [at_]; nofun⟩
  · rename_i at_
    cases moved
    exact ⟨_, rfl, by rw [at_]; nofun⟩
  · rename_i at_
    cases moved
    exact Asks.access_of (fun block => ⟨_, rfl, by rw [at_]; nofun⟩) stays
  · rename_i at_
    cases moved
    exact Asks.access_of (fun block => ⟨_, rfl, by rw [at_]; nofun⟩) stays
  · rename_i at_
    cases moved
    refine Asks.access_of (fun block => ?_) stays
    split <;> exact ⟨_, rfl, by rw [at_]; nofun⟩
  · rename_i at_
    split at moved <;> cases moved
    · refine Asks.access_of (fun block => ⟨_, rfl, ?_⟩) stays
      rw [at_]
      split <;> exact fun _ => id
    · exact ⟨_, rfl, by rw [at_]; exact fun _ => id⟩
  · rename_i at_
    cases moved
    exact Asks.access_of (fun block => ⟨_, rfl, by rw [at_]; exact fun _ => id⟩) stays
  · cases moved

/-- A caller that polls an answered cell sees how its `Responder` was consumed. -/
theorem settled_of_poll (unconsumed : call.caller.consumed = false)
    (answered : call.responder.answer.isSome = true) :
    (call.cell c).state = .replied ∨ (call.cell c).state = .abandoned := by
  obtain ⟨answer, told⟩ := Option.isSome_iff_exists.1 answered
  cases answer with
  | none =>
      rw [Call.cell_of_drop told]
      exact .inr rfl
  | some value =>
      rw [Call.cell_of_reply told, unconsumed]
      exact .inl rfl

/-- How a caller goes on whose message was sent. -/
theorem AskInv.callerStep_of_sent (inv : AskInv kind s) (found : s.calls[c]? = some call)
    (sent : call.caller.sent kind = true) {move : CallerMove}
    (moved : s.callerStep kind c call move = some t) :
    ∃ pc, t.calls = s.calls.set c { call with caller := pc } ∧ pc.sent kind = true ∧
      (call.responder.answer.isSome = true → pc.left < call.caller.left) := by
  obtain ⟨inside, here⟩ := List.getElem?_eq_some_iff.1 found
  have same : s.calls = s.calls.set c call := by rw [← here, List.set_getElem_self]
  have access : call.caller.isReturned = false →
      ∃ block, (∀ use, s.access call.addr use = use block) ∧ block.cell = call.cell c := by
    intro running
    have live : call.live kind = true := by cases kind <;> simp [Call.live, running]
    obtain ⟨block, -, access, -, cell⟩ := inv.access_of_live found live
    exact ⟨block, access, cell⟩
  cases at_ : call.caller with
  | making | sending | refused | droppingMessage =>
      rw [at_] at sent
      cases sent
  | poll =>
      cases move with
      | next =>
          obtain ⟨block, access, cell⟩ := access (by rw [at_]; rfl)
          simp only [Asks.callerStep, at_, access, Option.some.injEq] at moved
          subst moved
          have seen : call.responder.answer.isSome = true →
              block.cell.state = .replied ∨ block.cell.state = .abandoned := by
            rw [cell]
            exact settled_of_poll (by rw [at_]; rfl)
          split
          · exact ⟨_, rfl, rfl, fun _ => Nat.lt_succ_self 4⟩
          · exact ⟨_, rfl, rfl, fun _ => Nat.lt_add_left_iff_pos.2 (Nat.succ_pos 2)⟩
          all_goals
            rename_i state
            have unanswered : ¬ call.responder.answer.isSome = true := fun answered => by
              rcases seen answered with other | other <;> rw [state] at other <;> cases other
            split
            · exact ⟨_, rfl, rfl, fun answered => absurd answered unanswered⟩
            · exact ⟨.poll, by rw [← at_]; exact same, rfl, fun answered => absurd answered unanswered⟩
      | _ => simp [Asks.callerStep, at_] at moved
  | waiting =>
      cases move with
      | clock expired =>
          simp only [Asks.callerStep, at_, Option.some.injEq] at moved
          subst moved
          have owned : kind = .owned := by
            cases kind with
            | owned => rfl
            | borrowed => exact absurd at_ ((inv.calls c call found).parties.patient rfl)
          subst owned
          cases expired with
          | true => exact ⟨_, rfl, rfl, fun _ => Nat.lt_add_left_iff_pos.2 (Nat.succ_pos 3)⟩
          | false => exact ⟨_, rfl, rfl, fun _ => Nat.lt_succ_self 5⟩
      | _ => simp [Asks.callerStep, at_] at moved
  | reading =>
      cases move with
      | next =>
          obtain ⟨block, access, cell⟩ := access (by rw [at_]; rfl)
          simp only [Asks.callerStep, at_, access, Option.some.injEq] at moved
          subst moved
          exact ⟨_, rfl, rfl, fun _ => Nat.lt_succ_self 3⟩
      | _ => simp [Asks.callerStep, at_] at moved
  | consuming content =>
      cases move with
      | next =>
          obtain ⟨block, access, cell⟩ := access (by rw [at_]; rfl)
          simp only [Asks.callerStep, at_, access, Option.some.injEq] at moved
          subst moved
          exact ⟨_, rfl, rfl, fun _ => Nat.lt_succ_self 2⟩
      | _ => simp [Asks.callerStep, at_] at moved
  | leaving result =>
      rw [at_] at sent
      cases move with
      | next =>
          cases kind with
          | owned =>
              obtain ⟨block, access, cell⟩ := access (by rw [at_]; rfl)
              simp only [Asks.callerStep, at_, access, Option.some.injEq] at moved
              subst moved
              refine ⟨_, rfl, ?_, fun _ => ?_⟩ <;> split
              · exact sent
              · exact sent
              · exact Nat.lt_succ_self 1
              · exact Nat.zero_lt_two
          | borrowed =>
              simp only [Asks.callerStep, at_, Option.some.injEq] at moved
              subst moved
              exact ⟨_, rfl, sent, fun _ => Nat.lt_succ_self 1⟩
      | _ => simp [Asks.callerStep, at_] at moved
  | destroying result =>
      rw [at_] at sent
      cases move with
      | next =>
          obtain ⟨block, access, cell⟩ := access (by rw [at_]; rfl)
          simp only [Asks.callerStep, at_, access, Option.some.injEq] at moved
          subst moved
          exact ⟨_, rfl, sent, fun _ => Nat.zero_lt_one⟩
      | _ => simp [Asks.callerStep, at_] at moved
  | returned result => cases move <;> simp [Asks.callerStep, at_] at moved

/-- Call `c` has not gone back: it is sent, an answer it had is its answer, and a consumed one is no
    further from its end, but nearer after a move of its caller. -/
def Onward (kind : Holding) (c : Nat) (call : Call R) (own : Bool) (t : Asks R) : Prop :=
  ∃ call', t.calls[c]? = some call' ∧ call'.caller.sent kind = true ∧
    ∀ answer, call.responder.answer = some answer → call'.responder.answer = some answer ∧
      call'.caller.left + own.toNat ≤ call.caller.left

theorem AskInv.goes_on (inv : AskInv kind s) (found : s.calls[c]? = some call)
    (sent : call.caller.sent kind = true) {a : Act R} (moved : s.step kind a = some t) :
    Onward kind c call (a.ofCaller c) t := by
  have inside := (List.getElem?_eq_some_iff.1 found).1
  have untouched : t.calls[c]? = s.calls[c]? → a.ofCaller c = false →
      Onward kind c call (a.ofCaller c) t := by
    intro same others
    rw [others]
    exact ⟨call, same.trans found, sent, fun answer told => ⟨told, le_rfl⟩⟩
  cases a with
  | ask addr =>
      obtain ⟨-, rfl⟩ := guarded moved
      exact untouched (List.getElem?_append_left inside) rfl
  | wouldBlock =>
      cases moved
      exact untouched (List.getElem?_append_left inside) rfl
  | caller d move =>
      obtain ⟨other, there, moved⟩ := Option.bind_eq_some_iff.1 moved
      by_cases own : d = c
      · subst own
        rw [found] at there
        cases there
        obtain ⟨pc, calls, sent', lower⟩ := inv.callerStep_of_sent found sent moved
        refine ⟨{ call with caller := pc }, ?_, sent', fun answer told => ⟨told, ?_⟩⟩
        · rw [calls, List.getElem?_set_self inside]
        · have lower := lower (by rw [told]; rfl)
          simp only [Act.ofCaller, BEq.rfl, Bool.toNat_true]
          exact lower
      · exact untouched (elsewhere_of_callerStep moved c (Ne.symm own)) (beq_false_of_ne own)
  | responder d move =>
      obtain ⟨other, there, moved⟩ := Option.bind_eq_some_iff.1 moved
      obtain ⟨pc, calls, kept⟩ := respects_of_responderStep there moved
      by_cases own : d = c
      · subst own
        rw [found] at there
        cases there
        refine ⟨{ call with responder := pc }, ?_, sent,
          fun answer told => ⟨kept answer told, le_rfl⟩⟩
        rw [calls, List.getElem?_set_self inside]
      · exact untouched (elsewhere_set calls c (Ne.symm own)) rfl

/-- A caller whose message was sent does not wait for anybody to let it go on. -/
theorem enabled_of_sent (sent : call.caller.sent kind = true)
    (running : call.caller.isReturned = false) :
    ∃ move, (move = .next ∨ move = .clock false) ∧ ∃ t, s.callerStep kind c call move = some t := by
  unfold Asks.callerStep
  cases at_ : call.caller with
  | making | sending | refused | droppingMessage =>
      rw [at_] at sent
      cases sent
  | waiting => exact ⟨.clock false, .inr rfl, _, rfl⟩
  | leaving result => cases kind <;> exact ⟨.next, .inl rfl, _, rfl⟩
  | poll | reading | consuming content | destroying result => exact ⟨.next, .inl rfl, _, rfl⟩
  | returned result =>
      rw [at_] at running
      cases running

/-- A caller that is through with its moves has returned what its `Responder` was consumed with. -/
theorem AskInv.reports (inv : AskInv kind s) (found : s.calls[c]? = some call)
    (sent : call.caller.sent kind = true) (returned : call.caller.isReturned = true) {answer : Option R}
    (told : call.responder.answer = some answer) :
    ∃ result, call.caller = .returned result ∧ Reports kind c answer result := by
  have parties := (inv.calls c call found).parties
  cases at_ : call.caller with
  | returned result =>
      refine ⟨result, rfl, ?_⟩
      cases result with
      | ok content =>
          obtain ⟨value, told', same⟩ := parties.content content (by rw [at_]; rfl)
          rw [told] at told'
          exact ⟨value, Option.some.inj told', same⟩
      | error e =>
          rw [at_] at sent
          cases e with
          | noReply =>
              have told' := parties.noReply (by rw [at_]; rfl)
              rw [told] at told'
              exact Option.some.inj told'
          | timeout =>
              have owned : kind = .owned := of_decide_eq_true sent
              exact owned
          | closed | wouldBlockCallingCore => cases sent
  | _ =>
      rw [at_] at returned
      cases returned

end Calls

/-! ### The mailbox in front of the actor -/

section Polls

variable {box box' : Mailbox w Letter} {m : Msg Letter} {j k : Nat}

/-- The actor's core is in `try_recv`. -/
def polling (box : Mailbox w Letter) : Bool :=
  box.receiver == .held && match box.consumer with
    | .dequeue pc => !(ConsumerPc.dequeue pc).quiescent
    | _ => false

/-- How many messages up to the one in place `j` have come out, with the one that is being taken out. -/
def served (j : Nat) (box : Mailbox w Letter) : Nat :=
  if j < box.received.length then j + 1 else box.received.length + (polling box).toNat

theorem served_le (j : Nat) (box : Mailbox w Letter) : served j box ≤ j + 1 := by
  unfold served
  have := (polling box).toNat_le
  split <;> omega

theorem polling_of_busy (held : box.receiver = .held) {pc : DequeuePc w (Msg Letter)}
    (at_ : box.consumer = .dequeue pc) (busy : (ConsumerPc.dequeue pc).quiescent = false) :
    polling box = true := by
  simp only [polling, held, at_, busy, BEq.rfl, Bool.not_false, Bool.and_true]

theorem busy_of_polling (polls : polling box = true) :
    box.receiver = .held ∧
      ∃ pc, box.consumer = .dequeue pc ∧ (ConsumerPc.dequeue pc).quiescent = false := by
  unfold polling at polls
  obtain ⟨held, busy⟩ := Bool.and_eq_true_iff.1 polls
  refine ⟨eq_of_beq held, ?_⟩
  split at busy
  · rename_i pc at_
    exact ⟨pc, at_, by simpa using busy⟩
  · cases busy

/-- Nothing but the consumer's own steps ends a `try_recv`. -/
theorem polling_of_step (polls : polling box = true) {b : Mpsc.Act Letter} (other : b ≠ .consumer)
    (moved : box.step b = some box') : polling box' = true := by
  obtain ⟨held, pc, at_, busy⟩ := busy_of_polling polls
  have loud : box.consumer.quiescent = false := by rw [at_]; exact busy
  have same : box'.receiver = box.receiver → box'.consumer = box.consumer → polling box' = true :=
    fun receiver consumer => polling_of_busy (receiver.trans held) (consumer.trans at_) busy
  have released : ∀ box : Mailbox w Letter, box.receiver = .held → polling box = true →
      polling box.release = true := by
    intro box held polls
    unfold Mailbox.release
    split
    · exact polling_of_busy held rfl rfl
    · exact polls
  cases b with
  | call _ _ _ _ =>
      obtain ⟨-, rfl⟩ := guarded moved
      exact same rfl rfl
  | enqueue n =>
      obtain ⟨call, -, -, ⟨item, -, -, rfl⟩ | ⟨q, pc, -, rfl⟩⟩ := Mailbox.enqueue_cases moved
      · exact same rfl rfl
      · exact same rfl rfl
  | enqueueSpurious n =>
      simp only [Mailbox.step, Mailbox.enqueueSpurious] at moved
      split at moved
      · cases moved
      · obtain ⟨pc, -, rfl⟩ := Option.map_eq_some_iff.1 moved
        exact same rfl rfl
  | cloneStart _ | cloneFinish _ | dropSender _ =>
      obtain ⟨-, rfl⟩ := guarded moved
      exact same rfl rfl
  | releaseSender =>
      obtain ⟨-, rfl⟩ := guarded moved
      exact released _ held (polling_of_busy held at_ busy)
  | tryRecv | closedAndEmpty | dropReceiver =>
      obtain ⟨⟨-, quiet⟩, -⟩ := guarded moved
      rw [loud] at quiet
      cases quiet
  | consumer => exact absurd rfl other
  | consumerSpurious =>
      simp only [Mailbox.step, Mailbox.consumerSpurious, at_] at moved
      obtain ⟨pc', spurious, rfl⟩ := Option.map_eq_some_iff.1 moved
      refine polling_of_busy held rfl ?_
      cases pc <;> cases spurious
      rfl
  | releaseReceiver =>
      obtain ⟨closing, -⟩ := guarded moved
      rw [held] at closing
      cases closing

/-- While a published message waits, no step takes away from what is being served, and a new
    `try_recv` adds to it. -/
theorem served_step {capacity : Nat} (run : Mpsc.Runs NotLapped capacity box) (two : 2 ≤ capacity)
    (place : box.accepted[j]? = some m) (published : stageOf box.calls m.call = .published)
    {b : Mpsc.Act Letter} (first : b = .consumer → looks box.consumer = true → HeadFirst box)
    (moved : box.step b = some box') :
    served j box ≤ served j box' ∧
      (b = .tryRecv → box.received.length ≤ j → served j box < served j box') := by
  have more := (Mailbox.step_later moved).received.length_le
  have starts : b = .tryRecv → box'.received = box.received ∧ polling box = false ∧
      polling box' = true := by
    rintro rfl
    obtain ⟨⟨held, quiet⟩, rfl⟩ := guarded moved
    refine ⟨rfl, ?_, polling_of_busy held rfl rfl⟩
    by_contra polls
    obtain ⟨-, pc, at_, busy⟩ := busy_of_polling (Bool.eq_true_of_not_eq_false polls)
    rw [at_, busy] at quiet
    cases quiet
  -- A poll that is over has brought a message.
  have ends : box.received.length ≤ j → polling box = true →
      polling box' = true ∨ box.received.length < box'.received.length := by
    intro waiting polls
    by_cases own : b = .consumer
    · subst own
      obtain ⟨held, pc, at_, busy⟩ := busy_of_polling polls
      obtain ⟨k, -, fits, -, inv⟩ := run.inv two
      have running := running_of_held run.handles held
      have stepped : box.consumerStep = some box' := moved
      obtain ⟨result, at_', -⟩ | ⟨pc₁, q, pc', at_', dequeued, same⟩ | ⟨at_', -⟩ | ⟨at_', -⟩ |
        ⟨pos, at_', -⟩ := Mailbox.consumerStep_cases stepped
      · rw [at_'] at at_
        cases at_
        cases busy
      · have at_' : box'.consumer = .dequeue pc' := by rw [same]; rfl
        have held' : box'.receiver = .held := by rw [same]; exact held
        cases ended : (ConsumerPc.dequeue pc').quiescent with
        | false => exact .inl (polling_of_busy held' at_' ended)
        | true =>
            cases pc' with
            | returned result =>
                exact .inr (received_lt_of_returned inv fits running stepped at_' (first rfl) place
                  published (Nat.lt_succ_of_le waiting))
            | _ => cases ended
      all_goals
        rw [at_'] at at_
        cases at_
    · exact .inl (polling_of_step polls own moved)
  unfold served
  refine ⟨?_, fun polls waiting => ?_⟩
  · have bound := (polling box).toNat_le
    split
    · rw [if_pos (by omega)]
    · rename_i waiting
      split
      · omega
      · cases polls : polling box with
        | false => simp only [Bool.toNat_false]; omega
        | true =>
            rcases ends (by omega) polls with goes | grown
            · rw [goes]
              omega
            · simp only [Bool.toNat_true]
              omega
  · obtain ⟨same, idle, busy⟩ := starts polls
    rw [if_neg (by omega), if_neg (by rw [same]; omega), idle, busy, same]
    exact Nat.lt_succ_self _

end Polls

/-! ### An actor that is polled and answers -/

/-- When the message of an `ask` comes back, its `Responder` is in it or has touched the cell for the last
    time. -/
def Orderly (kind : Holding) (s : Target w R) : TargetAct R → Prop
  | .ask a => Settles kind s.asks a
  | _ => True

/-- `Orderly`, and no send call is lapped. -/
def Sane (kind : Holding) (s : Target w R) : TargetAct R → Prop
  | .box a => NotLapped s.box a
  | .ask a => Settles kind s.asks a
  | _ => True

/-- The `Responder` of call `c` is consumed. -/
def Target.answered (s : Target w R) (c : Nat) : Bool :=
  (s.asks.calls[c]?).any (·.responder.answer.isSome)

/-- The handlers have consumed each `Responder` they were given when the actor is polled again, and when
    the core looks at the mailbox no message is published behind one that is not. -/
def Prompt (kind : Holding) (s : Target w R) (a : TargetAct R) : Prop :=
  Sane kind s a ∧ match a with
    | .box .tryRecv => ∀ m ∈ s.box.received, ∀ c ∈ m.body.responders, s.answered c = true
    | .box .consumer => looks s.box.consumer = true → HeadFirst s.box
    | _ => True

instance (kind : Holding) (s : Target w R) (a : TargetAct R) : Decidable (Orderly kind s a) :=
  match a with
  | .ask _ => inferInstanceAs (Decidable (Settles _ _ _))
  | .box _ | .send _ _ _ | .sent _ | .refused _ => isTrue trivial

instance (kind : Holding) (s : Target w R) (a : TargetAct R) : Decidable (Sane kind s a) :=
  match a with
  | .box _ => inferInstanceAs (Decidable (NotLapped _ _))
  | .ask _ => inferInstanceAs (Decidable (Settles _ _ _))
  | .send _ _ _ | .sent _ | .refused _ => isTrue trivial

instance (kind : Holding) (s : Target w R) (a : TargetAct R) : Decidable (Prompt kind s a) :=
  match a with
  | .box .tryRecv => inferInstanceAs (Decidable (_ ∧ ∀ _ ∈ _, ∀ _ ∈ _, _ = _))
  | .box .consumer => inferInstanceAs (Decidable (_ ∧ (_ → HeadFirst _)))
  | .box (.call _ _ _ _) | .box (.enqueue _) | .box (.enqueueSpurious _) | .box (.cloneStart _)
  | .box (.cloneFinish _) | .box (.dropSender _) | .box .releaseSender | .box .closedAndEmpty
  | .box .consumerSpurious | .box .dropReceiver | .box .releaseReceiver
  | .ask _ | .send _ _ _ | .sent _ | .refused _ => inferInstanceAs (Decidable (_ ∧ True))

/-- The core begins to poll the actor. -/
def TargetAct.polls : TargetAct R → Bool
  | .box .tryRecv => true
  | _ => false

/-- A step of the caller of call `c`. -/
def TargetAct.ofCaller (c : Nat) : TargetAct R → Bool
  | .ask a => a.ofCaller c
  | .send d _ _ | .sent d | .refused d => d == c
  | .box _ => false

section Steps

variable {kind : Holding} {capacity : Nat} {s t : Target w R} {a : TargetAct R} {c j : Nat}
  {m : Msg Letter}

theorem orderly_of_sane (sane : Sane kind s a) : Orderly kind s a := by
  cases a with
  | ask b => exact sane
  | _ => trivial

/-- A step of the whole leaves the reply cells alone, or is a step of them. -/
theorem asks_of_step (orderly : Orderly kind s a) (moved : s.step kind a = some t) (c : Nat) :
    (t.asks = s.asks ∧ a.ofCaller c = false) ∨
      ∃ b, Settles kind s.asks b ∧ s.asks.step kind b = some t.asks ∧ b.ofCaller c = a.ofCaller c := by
  cases a with
  | box b =>
      obtain ⟨-, moved⟩ := Option.ite_none_right_eq_some.1 moved
      obtain ⟨box, -, rfl⟩ := Option.map_eq_some_iff.1 moved
      exact .inl ⟨rfl, rfl⟩
  | ask b =>
      obtain ⟨-, moved⟩ := Option.ite_none_right_eq_some.1 moved
      obtain ⟨asks, stepped, rfl⟩ := Option.map_eq_some_iff.1 moved
      exact .inr ⟨b, orderly, stepped, rfl⟩
  | send d thread handle =>
      obtain ⟨call, -, moved⟩ := Option.bind_eq_some_iff.1 moved
      obtain ⟨asks, stepped, moved⟩ := Option.bind_eq_some_iff.1 moved
      obtain ⟨box, -, rfl⟩ := Option.map_eq_some_iff.1 moved
      exact .inr ⟨.caller d .made, trivial, stepped, rfl⟩
  | sent d =>
      simp only [Target.step] at moved
      split at moved
      · obtain ⟨asks, stepped, rfl⟩ := Option.map_eq_some_iff.1 moved
        exact .inr ⟨.caller d .sent, trivial, stepped, rfl⟩
      · cases moved
  | refused d =>
      simp only [Target.step] at moved
      split at moved
      · obtain ⟨asks, stepped, rfl⟩ := Option.map_eq_some_iff.1 moved
        exact .inr ⟨.caller d .refused, trivial, stepped, rfl⟩
      · cases moved

theorem asks_step (asks : AskInv kind s.asks) (orderly : Orderly kind s a)
    (moved : s.step kind a = some t) : AskInv kind t.asks := by
  rcases asks_of_step orderly moved 0 with ⟨same, -⟩ | ⟨b, settles, stepped, -⟩
  · rw [same]
    exact asks
  · exact asks.step settles stepped

/-- What is known of a target in every sane run. -/
structure Sound (kind : Holding) (capacity : Nat) (s : Target w R) : Prop where
  box : Mpsc.Runs NotLapped capacity s.box
  asks : AskInv kind s.asks

theorem Sound.step (sound : Sound kind capacity s) (sane : Sane kind s a)
    (moved : s.step kind a = some t) : Sound kind capacity t := by
  obtain ⟨⟨q, made, boxed⟩, asks⟩ := sound
  refine ⟨⟨q, made, boxed.trans ?_⟩, asks_step asks (orderly_of_sane sane) moved⟩
  rcases box_of_step moved with same | ⟨b, stepped, which⟩
  · rw [same]
    exact Reach.refl _
  · refine Reach.single ?_ stepped
    rcases which with rfl | ⟨_, _, _, _, rfl⟩
    · exact sane
    · trivial

theorem sound_of_run (run : TargetRuns kind (Sane kind) capacity s) : Sound kind capacity s := by
  obtain ⟨q, made, reached⟩ := run
  exact reached.invariant ⟨⟨q, made, Reach.refl _⟩, .new⟩
    fun _ _ _ sound sane moved => sound.step sane moved

/-- The caller of call `c` has sent its message, which is in place `j` of the accepted ones. -/
structure Awaits (kind : Holding) (capacity c j : Nat) (m : Msg Letter) (s : Target w R) : Prop where
  sound : Sound kind capacity s
  caller : ∃ call, s.asks.calls[c]? = some call ∧ call.caller.sent kind = true
  place : s.box.accepted[j]? = some m
  published : stageOf s.box.calls m.call = .published

theorem Awaits.goes_on (awaits : Awaits kind capacity c j m s) (sane : Sane kind s a)
    (moved : s.step kind a = some t) :
    Awaits kind capacity c j m t ∧ (s.answered c = true → t.answered c = true) := by
  obtain ⟨sound, ⟨call, found, sent⟩, place, published⟩ := awaits
  have box : t.box.accepted[j]? = some m ∧ stageOf t.box.calls m.call = .published := by
    rcases box_of_step moved with same | ⟨b, stepped, -⟩
    · rw [same]
      exact ⟨place, published⟩
    · exact placed_of_step sound.box.handles place published stepped
  rcases asks_of_step (orderly_of_sane sane) moved c with ⟨same, -⟩ | ⟨b, -, stepped, -⟩
  · refine ⟨⟨sound.step sane moved, ⟨call, by rw [same]; exact found, sent⟩, box.1, box.2⟩, ?_⟩
    rw [Target.answered, Target.answered, same]
    exact id
  · obtain ⟨call', found', sent', kept⟩ := sound.asks.goes_on found sent stepped
    refine ⟨⟨sound.step sane moved, ⟨call', found', sent'⟩, box.1, box.2⟩, ?_⟩
    rw [Target.answered, Target.answered, found, found']
    intro answered
    obtain ⟨answer, told⟩ := Option.isSome_iff_exists.1 answered
    exact Option.isSome_iff_exists.2 ⟨answer, (kept answer told).1⟩

/-- How far the actor is on its way to call `c`. -/
def progress (j c : Nat) (s : Target w R) : Nat :=
  if s.answered c then j + 2 else served j s.box

theorem Awaits.progress_step (awaits : Awaits kind capacity c j m s) (two : 2 ≤ capacity)
    (carries : c ∈ m.body.responders) (prompt : Prompt kind s a) (moved : s.step kind a = some t) :
    progress j c s ≤ progress j c t ∧
      (a.polls = true → progress j c s < j + 2 → progress j c s < progress j c t) := by
  have kept := (awaits.goes_on prompt.1 moved).2
  have box : served j s.box ≤ served j t.box ∧
      (a.polls = true → s.answered c = false → served j s.box < served j t.box) := by
    cases a with
    | box b =>
        obtain ⟨-, moved⟩ := Option.ite_none_right_eq_some.1 moved
        obtain ⟨box, stepped, rfl⟩ := Option.map_eq_some_iff.1 moved
        have first : b = .consumer → looks s.box.consumer = true → HeadFirst s.box := by
          rintro rfl
          exact prompt.2
        obtain ⟨more, begins⟩ :=
          served_step awaits.sound.box two awaits.place awaits.published first stepped
        refine ⟨more, fun polls unanswered => ?_⟩
        have poll : b = .tryRecv := by cases b <;> first | rfl | cases polls
        subst poll
        refine begins rfl (Nat.le_of_not_lt fun out => ?_)
        -- The handler has had the message, and would not be polled again without an answer.
        obtain ⟨k, -, -, -, inv⟩ := awaits.sound.box.inv two
        have handled := prompt.2 m (mem_received_of_place inv awaits.place out) c carries
        rw [unanswered] at handled
        cases handled
    | _ =>
        refine ⟨?_, fun polls => by cases polls⟩
        rcases box_of_step moved with same | ⟨b, stepped, own | ⟨_, _, _, _, rfl⟩⟩
        · rw [same]
        · cases own
        · exact (served_step awaits.sound.box two awaits.place awaits.published
            (fun same => by cases same) stepped).1
  have bound := served_le j s.box
  unfold progress
  cases before : s.answered c with
  | true =>
      rw [if_pos rfl, if_pos (kept before)]
      exact ⟨le_rfl, fun _ below => absurd below (Nat.lt_irrefl _)⟩
  | false =>
      rw [if_neg Bool.false_ne_true]
      split
      · exact ⟨by omega, fun _ _ => by omega⟩
      · exact ⟨box.1, fun polls _ => box.2 polls before⟩

theorem min_le_progress (j c : Nat) (s : Target w R) :
    min s.box.received.length (j + 1) ≤ progress j c s := by
  unfold progress served
  split
  · omega
  · split <;> omega

/-- The moves the caller of call `c` has left. -/
def Target.left (c : Nat) (s : Target w R) : Nat := ((s.asks.calls[c]?).map (·.caller.left)).getD 0

/-- The caller of call `c` has sent its message, and its `Responder` is consumed. -/
def Settled (kind : Holding) (c : Nat) (answer : Option R) (s : Target w R) : Prop :=
  AskInv kind s.asks ∧ ∃ call, s.asks.calls[c]? = some call ∧ call.caller.sent kind = true ∧
    call.responder.answer = some answer

/-- From then on the mailbox does not matter. -/
theorem settled_step {answer : Option R} (settled : Settled kind c answer s)
    (orderly : Orderly kind s a) (moved : s.step kind a = some t) :
    Settled kind c answer t ∧ t.left c + (a.ofCaller c).toNat ≤ s.left c := by
  obtain ⟨asks, call, found, sent, told⟩ := settled
  rcases asks_of_step orderly moved c with ⟨same, others⟩ | ⟨b, -, stepped, own⟩
  · refine ⟨⟨asks_step asks orderly moved, call, by rw [same]; exact found, sent, told⟩, ?_⟩
    rw [Target.left, Target.left, same, others]
    exact le_rfl
  · obtain ⟨call', found', sent', kept⟩ := asks.goes_on found sent stepped
    obtain ⟨told', lower⟩ := kept answer told
    refine ⟨⟨asks_step asks orderly moved, call', found', sent', told'⟩, ?_⟩
    rw [Target.left, Target.left, found, found', ← own]
    exact lower

end Steps

/-- A caller that waits, of `ask` or of `ask_timeout`, whoever else asks or sends: after one poll of the
    actor more than there are messages up to its own, its `Responder` is consumed. From then on it
    makes at most six more moves, one of which is always open to it until it has returned, and it
    returns what its own `Responder` was replied with, or that this was dropped, or that time is up. -/
theorem ask_answered {kind : Holding} {capacity c j : Nat} {m : Msg Letter} {s t u : Target w R}
    (run : TargetRuns kind (Sane kind) capacity s) (two : 2 ≤ capacity) {call : Call R}
    (found : s.asks.calls[c]? = some call) (waits : call.caller = .poll ∨ call.caller = .waiting)
    (place : s.box.accepted[j]? = some m) (published : stageOf s.box.calls m.call = .published)
    (carries : c ∈ m.body.responders) {labels labels' : List (TargetAct R)}
    (executed : exec (Target.step kind) s labels = some t)
    (prompt : Throughout (Target.step kind) (Prompt kind) s labels)
    (polls : j + 1 - s.box.received.length < labels.countP TargetAct.polls)
    (executed' : exec (Target.step kind) t labels' = some u)
    (orderly : Throughout (Target.step kind) (Orderly kind) t labels') :
    labels'.countP (TargetAct.ofCaller c) ≤ 6 ∧
      ∃ call answer, u.asks.calls[c]? = some call ∧ call.responder.answer = some answer ∧
        ((∃ result, call.caller = .returned result ∧ Reports kind c answer result) ∨
          ∃ move v, u.step kind (.ask (.caller c move)) = some v) := by
  have sent : call.caller.sent kind = true := by rcases waits with at_ | at_ <;> rw [at_] <;> rfl
  obtain ⟨awaits, reached⟩ := min_le_of_tally (P := Awaits kind capacity c j m) (progress j c) (j + 2)
    (fun u a v awaits prompt moved => ⟨(awaits.goes_on prompt.1 moved).1,
      awaits.progress_step two carries prompt moved⟩)
    ⟨sound_of_run run, ⟨call, found, sent⟩, place, published⟩ prompt executed
  rw [tally_eq_countP executed] at reached
  have answered : t.answered c = true := by
    have before := min_le_progress j c s
    have bound := served_le j t.box
    unfold progress at reached before
    by_contra unanswered
    rw [if_neg unanswered] at reached
    omega
  obtain ⟨call', found', sent'⟩ := awaits.caller
  rw [Target.answered, found'] at answered
  obtain ⟨answer, told⟩ := Option.isSome_iff_exists.1 answered
  obtain ⟨⟨asks, call'', found'', sent'', told'⟩, few⟩ := countP_le_of_throughout
    (P := Settled kind c answer) (Target.left c) (TargetAct.ofCaller c)
    (fun _ _ _ settled orderly moved => settled_step settled orderly moved)
    ⟨awaits.sound.asks, call', found', sent', told⟩ orderly executed'
  have most : t.left c ≤ 6 := by
    rw [Target.left, found']
    exact call'.caller.left_le
  refine ⟨by omega, call'', answer, found'', told', ?_⟩
  cases returned : call''.caller.isReturned with
  | true => exact .inl (asks.reports found'' sent'' returned told')
  | false =>
      obtain ⟨move, which, asks', moved⟩ := enabled_of_sent (s := u.asks) (c := c) sent'' returned
      refine .inr ⟨move, { u with asks := asks' }, ?_⟩
      rw [Target.step, Asks.step, found'', Option.bind_some, moved]
      rcases which with rfl | rfl <;> rfl

/-- An `ask` waits in an empty mailbox; the actor is polled twice, and the caller returns the reply. -/
theorem ask_answered_once : ∃ s t u : Target 64 Nat, TargetRuns .borrowed (Sane .borrowed) 2 s ∧
    exec (Target.step .borrowed) s (answerLabels ++ [.box .tryRecv]) = some t ∧
    exec (Target.step .borrowed) t (List.replicate 5 (.ask (.caller 0 .next))) = some u ∧
    ∃ call, u.asks.calls[0]? = some call ∧
      ((∃ result, call.caller = .returned result ∧ Reports .borrowed 0 (some 5) result) ∨
        ∃ move v, u.step .borrowed (.ask (.caller 0 move)) = some v) := by
  have goesOn : ∃ s t u : Target 64 Nat,
      execChecked (Target.step .borrowed) (Sane .borrowed) sampleTarget askLabels = some s ∧
      execChecked (Target.step .borrowed) (Prompt .borrowed) s (answerLabels ++ [.box .tryRecv]) =
        some t ∧
      execChecked (Target.step .borrowed) (Orderly .borrowed) t
        (List.replicate 5 (.ask (.caller 0 .next))) = some u ∧
      s.asks.calls[0]? = some ⟨0, .poll, .held true⟩ ∧ s.box.accepted[0]? = some sampleMsg ∧
      stageOf s.box.calls 0 = .published ∧ s.box.received.length = 0 ∧
      u.asks.calls[0]? = some ⟨0, .returned (.ok (some ⟨0, 5⟩)), .gone (some 5)⟩ :=
    ⟨_, _, _, rfl, rfl, rfl, rfl, rfl, rfl, rfl, rfl⟩
  obtain ⟨s, t, u, asked, polled, waited, found, place, published, nothing, final⟩ := goesOn
  obtain ⟨executed, prompt⟩ := throughout_of_execChecked polled
  obtain ⟨executed', orderly⟩ := throughout_of_execChecked waited
  have run : TargetRuns .borrowed (Sane .borrowed) 2 s :=
    ⟨_, channel_two_pow (k := 1) (by decide), reach_of_execChecked asked⟩
  obtain ⟨-, call, answer, found', told, outcome⟩ := ask_answered (c := 0) (j := 0) run le_rfl found
    (.inl rfl) place published (List.mem_singleton.2 rfl) executed prompt (by rw [nothing]; decide)
    executed' orderly
  rw [final] at found'
  cases found'
  cases told
  exact ⟨s, t, u, run, executed, executed', _, final, outcome⟩

end AetherFlow.Ask
