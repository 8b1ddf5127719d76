/-
Module: AetherFlow.Ask.Stranded
Purpose: Callers that wait for an actor that is gone. The mailbox of one actor and the reply cells of the
  calls that ask it, put together: an `ask` sends its message with `send_blocking`, whoever receives
  the message has its `Responder`, and the waiting caller keeps the `Sender` it asks through. The core
  drops the `Receiver` whenever it detaches or stops the actor, and nothing drains the mailbox then.
Trusted boundary: human-reviewed transcription of `ActorRef::ask` and of the `Receiver`'s drop
Main exports: Letter, Target, TargetAct, Target.step, Emptied, Heeded, NoStranded, noStranded_of_run,
  ask_stranded
-/
import AetherFlow.Mpsc.Order
import AetherFlow.Ask.Reply

namespace AetherFlow.Ask

open Transition Mpsc

/-- What matters of a message: the calls whose `Responder`s it carries. -/
structure Letter where
  responders : List Nat
deriving DecidableEq

/-- One actor's mailbox and the calls that ask the actor. -/
structure Target (w : Nat) (R : Type*) where
  box : Mailbox w Letter
  asks : Asks R
  /-- The send call of each ask that has got so far. -/
  link : Nat → Option Nat

inductive TargetAct (R : Type*) where
  /-- A step of the mailbox's parties that no ask makes. -/
  | box (a : Mpsc.Act Letter)
  /-- A step of a reply cell's parties that the mailbox has no part in. -/
  | ask (a : Act R)
  /-- `make_msg` has returned and `send_blocking` starts. -/
  | send (c thread handle : Nat)
  /-- `send_blocking` returns to call `c`. -/
  | sent (c : Nat)
  | refused (c : Nat)

namespace Target

variable {w : Nat} {R : Type*}

def new (q : Queue w (Msg Letter)) : Target w R where
  box := Mailbox.new q
  asks := Asks.new
  link _ := none

/-- The `Responder` of call `c` is in a message that is being sent or lies in the mailbox. -/
def inTransit (s : Target w R) (c : Nat) : Bool :=
  (s.box.accepted.drop s.box.taken.length).any (·.body.responders.contains c) ||
    (List.range s.box.issued).any fun n =>
      match s.box.calls n with
      | some call => !call.finished && call.body.responders.contains c
      | none => false

/-- Somebody holds the `Responder` of call `c` outside its message. -/
def stashed (s : Target w R) (c : Nat) : Bool :=
  match s.asks.calls[c]? with
  | some { responder := .held false, .. } => !s.inTransit c
  | _ => false

/-- A caller in `ask` borrows its `Sender` until it returns. -/
def asking (s : Target w R) (handle : Nat) : Bool :=
  (List.range s.asks.calls.length).any fun c =>
    match s.asks.calls[c]?, (s.link c).bind s.box.calls with
    | some { caller := .returned _, .. }, _ => false
    | some _, some call => call.handle == handle
    | _, _ => false

/-- What the rest of the program may do to the mailbox. -/
def boxAllows (s : Target w R) : Mpsc.Act Letter → Bool
  | .call _ _ _ letter => letter.responders.all s.stashed
  | .dropSender handle => !s.asking handle
  | _ => true

/-- A `Responder` in a message on its way is nobody's to use. -/
def askAllows (s : Target w R) : Act R → Bool
  | .caller _ .made | .caller _ .sent | .caller _ .refused => false
  | .responder c _ => !s.inTransit c
  | _ => true

/-- The message `make_msg` returns carries the `Responder` unless it was put elsewhere. -/
def letter (c : Nat) (call : Call R) : Letter where
  responders :=
    match call.responder with
    | .held true => [c]
    | _ => []

/-- How the `send_blocking` of call `c` ended. -/
def sendResult (s : Target w R) (c : Nat) : Option (Except (TrySendError (Msg Letter)) Unit) :=
  match (s.link c).bind s.box.calls with
  | some { pc := .returned result, .. } => some result
  | _ => none

def step (kind : Holding) (s : Target w R) : TargetAct R → Option (Target w R)
  | .box a => if s.boxAllows a then (s.box.step a).map fun box => { s with box := box } else none
  | .ask a =>
      if s.askAllows a then (s.asks.step kind a).map fun asks => { s with asks := asks } else none
  | .send c thread handle =>
      (s.asks.calls[c]?).bind fun call =>
        (s.asks.step kind (.caller c .made)).bind fun asks =>
          (s.box.step (.call thread handle .sendBlocking (letter c call))).map fun box =>
            { box, asks, link := Function.update s.link c (some s.box.issued) }
  | .sent c =>
      match s.sendResult c with
      | some (.ok ()) =>
          (s.asks.step kind (.caller c .sent)).map fun asks => { s with asks := asks }
      | _ => none
  | .refused c =>
      match s.sendResult c with
      | some (.error (.closed _)) =>
          (s.asks.step kind (.caller c .refused)).map fun asks => { s with asks := asks }
      | _ => none

end Target

/-- The states of an actor's mailbox and its askers, in runs whose steps all meet `ok`. -/
def TargetRuns {w : Nat} {R : Type*} (kind : Holding) (ok : Target w R → TargetAct R → Prop)
    (capacity : Nat) (s : Target w R) : Prop :=
  ∃ q, channel w (Msg Letter) capacity = some q ∧ Reach (Target.step kind) ok (Target.new q) s

variable {w : Nat} {R : Type*}

/-! ### What the mailbox does under its askers -/

/-- A step of the whole leaves the mailbox alone, is a step of it, or starts a send call in it. -/
theorem box_of_step {kind : Holding} {s t : Target w R} {a : TargetAct R}
    (moved : s.step kind a = some t) :
    t.box = s.box ∨ ∃ b, s.box.step b = some t.box ∧
      (a = .box b ∨ ∃ thread handle kind letter, b = .call thread handle kind letter) := by
  cases a with
  | box b =>
      obtain ⟨-, moved⟩ := Option.ite_none_right_eq_some.1 moved
      obtain ⟨box, stepped, rfl⟩ := Option.map_eq_some_iff.1 moved
      exact .inr ⟨b, stepped, .inl rfl⟩
  | ask b =>
      obtain ⟨-, moved⟩ := Option.ite_none_right_eq_some.1 moved
      obtain ⟨asks, -, rfl⟩ := Option.map_eq_some_iff.1 moved
      exact .inl rfl
  | send c thread handle =>
      obtain ⟨call, -, moved⟩ := Option.bind_eq_some_iff.1 moved
      obtain ⟨asks, -, moved⟩ := Option.bind_eq_some_iff.1 moved
      obtain ⟨box, stepped, rfl⟩ := Option.map_eq_some_iff.1 moved
      exact .inr ⟨_, stepped, .inr ⟨_, _, _, _, rfl⟩⟩
  | sent c | refused c =>
      simp only [Target.step] at moved
      split at moved
      · obtain ⟨asks, -, rfl⟩ := Option.map_eq_some_iff.1 moved
        exact .inl rfl
      · cases moved

/-- Every `Responder` the mailbox has accepted was received. -/
def Emptied (box : Mailbox w Letter) : Prop :=
  ∀ m ∈ box.accepted, m.body.responders ≠ [] → m ∈ box.received

/-- The `Receiver` is dropped when no `Responder` is in the mailbox, and no compare-and-swap accepts one
    afterwards. -/
def Spares (box : Mailbox w Letter) : Mpsc.Act Letter → Prop
  | .dropReceiver => Emptied box
  | .enqueue n => box.receiver ≠ .held → ∀ call ∈ box.calls n,
      ∀ m ∈ Mailbox.reserves box.q call.pc, m.body.responders = []
  | _ => True

def Heeded (s : Target w R) : TargetAct R → Prop
  | .box a => Spares s.box a
  | _ => True

instance (box : Mailbox w Letter) : Decidable (Emptied box) :=
  inferInstanceAs (Decidable (∀ _ ∈ _, _ → _))

instance (box : Mailbox w Letter) (a : Mpsc.Act Letter) : Decidable (Spares box a) :=
  match a with
  | .dropReceiver => inferInstanceAs (Decidable (Emptied _))
  | .enqueue _ => inferInstanceAs (Decidable (_ → ∀ _ ∈ _, ∀ _ ∈ _, _))
  | .call _ _ _ _ | .enqueueSpurious _ | .cloneStart _ | .cloneFinish _ | .dropSender _
  | .releaseSender | .tryRecv | .closedAndEmpty | .consumer | .consumerSpurious
  | .releaseReceiver => isTrue trivial

instance (s : Target w R) (a : TargetAct R) : Decidable (Heeded s a) :=
  match a with
  | .box _ => inferInstanceAs (Decidable (Spares _ _))
  | .ask _ | .send _ _ _ | .sent _ | .refused _ => isTrue trivial

/-- A mailbox without its `Receiver` was emptied before and stays so. -/
theorem emptied_of_step {box box' : Mailbox w Letter} {b : Mpsc.Act Letter}
    (moved : box.step b = some box') (spares : Spares box b) (gone : box'.receiver ≠ .held)
    (before : box.receiver ≠ .held → Emptied box) : Emptied box' := by
  intro m member carries
  have later := Mailbox.step_later moved
  by_cases held : box.receiver = .held
  · -- Only `Receiver::drop` takes the `Receiver` away, and then the condition says the rest.
    have drop : b = .dropReceiver := by
      by_contra other
      exact gone (later.held other held)
    subst drop
    rcases later.accepts with same | ⟨c, -, -, other, -⟩
    · rw [same] at member
      exact later.received.subset (spares m member carries)
    · cases other
  · have emptied := before held
    rcases later.accepts with same | ⟨c, call, item, rfl, found, won, grown⟩
    · rw [same] at member
      exact later.received.subset (emptied m member carries)
    · rw [grown] at member
      rcases List.mem_append.1 member with old | new
      · exact later.received.subset (emptied m old carries)
      · rw [List.mem_singleton.1 new] at carries
        exact absurd (spares held call found item won) carries

/-! ### Nobody waits for a dead actor -/

/-- The `Responder` of call `c` lies in the mailbox. -/
def Target.Sits (s : Target w R) (c : Nat) : Prop :=
  ∃ m ∈ s.box.accepted, m ∉ s.box.taken ∧ c ∈ m.body.responders

/-- The caller of call `c` waits on a `PENDING` cell. -/
def Target.Waits (s : Target w R) (c : Nat) : Prop :=
  ∃ call block, s.asks.calls[c]? = some call ∧ (call.caller = .poll ∨ call.caller = .waiting) ∧
    s.asks.heap call.addr = some block ∧ block.cell.state = .pending

/-- Once the actor is gone and no enqueue is in progress, nobody waits for a `Responder` in its
    mailbox: every one the mailbox accepted was received or dropped. -/
def NoStranded (s : Target w R) : Prop :=
  s.box.receiver ≠ .held → (∀ n call, s.box.calls n = some call → call.finished = true) →
    (∀ c, s.Waits c → ¬ s.Sits c) ∧
      ∀ m ∈ s.box.accepted, m.body.responders ≠ [] → m ∈ s.box.received ∨ m ∈ s.box.dropped

/-- The mailbox of a target is a mailbox. -/
theorem TargetRuns.box {kind : Holding} {ok : Target w R → TargetAct R → Prop} {capacity : Nat}
    {s : Target w R} (run : TargetRuns kind ok capacity s) : Runs Free capacity s.box := by
  obtain ⟨q, made, reached⟩ := run
  refine ⟨q, made, reached.project Target.box fun u a v _ moved => ?_⟩
  rcases box_of_step moved with same | ⟨b, moved, -⟩
  · rw [same]
    exact Reach.refl _
  · exact Reach.single trivial moved

theorem TargetRuns.emptied {kind : Holding} {capacity : Nat} {s : Target w R}
    (run : TargetRuns kind Heeded capacity s) (dropped : s.box.receiver ≠ .held) :
    Emptied s.box := by
  obtain ⟨q, made, reached⟩ := run
  refine reached.invariant (P := fun s => s.box.receiver ≠ .held → Emptied s.box)
    (fun gone => absurd rfl gone) ?_ dropped
  rintro u a v before heeded moved gone
  rcases box_of_step moved with same | ⟨b, stepped, which⟩
  · rw [same] at gone ⊢
    exact before gone
  · refine emptied_of_step stepped ?_ gone before
    rcases which with rfl | ⟨_, _, _, _, rfl⟩
    · exact heeded
    · trivial

/-- In every run in which the core drops the `Receiver` of an emptied mailbox only, and no `Responder`
    gets in behind it, no ask is stranded. -/
theorem noStranded_of_run {kind : Holding} {capacity : Nat} {s : Target w R}
    (run : TargetRuns kind Heeded capacity s) : NoStranded s := by
  intro dropped _
  have emptied := run.emptied dropped
  refine ⟨fun c _ sits => ?_, fun m member carries => .inl (emptied m member carries)⟩
  obtain ⟨m, member, untaken, carries⟩ := sits
  have received := emptied m member fun none_ => by
    rw [none_] at carries
    cases carries
  exact untaken (List.mem_append_left _ received)

/-- A fresh actor with a mailbox of two slots. -/
def sampleTarget : Target 64 Nat := Target.new (Queue.new 64 (Msg Letter) 2)

/-- An `ask` up to the point where its message is accepted and the caller waits. -/
def askLabels : List (TargetAct Nat) :=
  [.ask (.ask 0), .send 0 1 0, .box (.enqueue 0), .box (.enqueue 0), .box (.enqueue 0),
    .box (.enqueue 0), .box (.enqueue 0), .box (.enqueue 0), .sent 0]

/-- The core takes the message and the handler replies. -/
def answerLabels : List (TargetAct Nat) :=
  [.box .tryRecv, .box .consumer, .box .consumer, .box .consumer, .box .consumer, .box .consumer,
    .ask (.responder 0 (.reply 5)), .ask (.responder 0 .next), .ask (.responder 0 .next),
    .ask (.responder 0 .next)]

/-- The core drops the actor. -/
def goneLabels : List (TargetAct Nat) := [.box .dropReceiver, .box .releaseReceiver]

/-- The message of the sample ask. -/
def sampleMsg : Msg Letter := { call := 0, body := { responders := [0] } }

/-- What there is to know of the mailbox after one send call. -/
def boxView (s : Target 64 Nat) :
    ReceiverState × Nat × Option (EnqueuePc 64 (Msg Letter)) × List (Msg Letter) × List (Msg Letter) :=
  (s.box.receiver, s.box.issued, (s.box.calls 0).map (·.pc), s.box.accepted, s.box.taken)

theorem noStranded_of_answered : ∃ s : Target 64 Nat, TargetRuns .borrowed Heeded 2 s ∧
    s.box.receiver = .gone ∧ s.box.accepted = [sampleMsg] ∧ NoStranded s := by
  have executed : (execChecked (Target.step .borrowed) Heeded sampleTarget
      (askLabels ++ answerLabels ++ goneLabels)).map boxView =
        some (.gone, 1, some (.returned (.ok ())), [sampleMsg], [sampleMsg]) := rfl
  obtain ⟨s, final, same⟩ := Option.map_eq_some_iff.1 executed
  simp only [boxView, Prod.mk.injEq] at same
  obtain ⟨gone, -, -, accepted, -⟩ := same
  have run : TargetRuns .borrowed Heeded 2 s :=
    ⟨_, channel_two_pow (k := 1) (by decide), reach_of_execChecked final⟩
  exact ⟨s, run, gone, accepted, noStranded_of_run run⟩

/-- The mailbox has accepted the message of an ask, the caller waits for the reply, and the actor is
    gone: `Receiver::drop` leaves the message where it is. -/
theorem ask_stranded : ∃ s : Target 64 Nat, TargetRuns .borrowed Free 2 s ∧
    s.box.receiver = .gone ∧ s.Waits 0 ∧ s.Sits 0 ∧ ¬ NoStranded s := by
  have executed : (exec (Target.step .borrowed) sampleTarget (askLabels ++ goneLabels)).map
      (fun s => (boxView s, s.asks.calls, s.asks.heap 0)) =
        some ((.gone, 1, some (.returned (.ok ())), [sampleMsg], []),
          [⟨0, .poll, .held true⟩], some ⟨1, { }⟩) := rfl
  obtain ⟨s, final, same⟩ := Option.map_eq_some_iff.1 executed
  simp only [boxView, Prod.mk.injEq] at same
  obtain ⟨⟨gone, issued, sent, accepted, taken⟩, calls, heap⟩ := same
  have run : TargetRuns .borrowed Free 2 s :=
    ⟨_, channel_two_pow (k := 1) (by decide), reach_of_exec final⟩
  have waits : s.Waits 0 := ⟨_, _, by rw [calls]; rfl, .inl rfl, heap, rfl⟩
  have sits : s.Sits 0 :=
    ⟨sampleMsg, by simp [accepted], by simp [taken], List.mem_singleton.2 rfl⟩
  refine ⟨s, run, gone, waits, sits, fun none_ => ?_⟩
  refine (none_ (by simp [gone]) fun n call found => ?_).1 0 waits sits
  have first : n = 0 := by
    have := (run.box.handles.issued n).2 (by simp [found])
    omega
  subst first
  simp only [found, Option.map_some, Option.some.injEq] at sent
  cases kind : call.kind <;> simp [Call.finished, sent, kind]

end AetherFlow.Ask
