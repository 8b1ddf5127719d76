/-
Module: AetherFlow.System.Processing
Purpose: What an actor handles of what was sent to it, while its core and any number of senders take
  turns. Each accepted message is handled once, in the order of the accepted ones, through panics and
  restarts as well; and a message that is published is handled after as many polls of its actor as it
  has messages before it, provided that none of those is still being published when the core looks.
Trusted boundary: none
Main exports: Smooth, Processed, processed_of_run, Gapless, completesPoll, handled_within_polls
-/
import AetherFlow.Lib.Tally
import AetherFlow.System.Shutdown

namespace AetherFlow.System

open Transition Mpsc

variable {w k : Nat} {A M T : Type*}

/-! ### Runs -/

/-- No destructor kills the core, and no call is lapped. -/
def Smooth (policy : Policy) (s : Node w A T) : NodeAct A T → Prop
  | .core input => Harmless policy s.core input
  | .send a => NotLapped s.box a
  | .recv _ => True

instance (policy : Policy) (s : Node w A T) (a : NodeAct A T) : Decidable (Smooth policy s a) :=
  match a with
  | .core _ => inferInstanceAs (Decidable (Harmless _ _ _))
  | .send _ => inferInstanceAs (Decidable (NotLapped _ _))
  | .recv _ => inferInstanceAs (Decidable True)

section Runs

variable {policy : Policy} {target capacity : Nat} {s t : Node w A T} {a : NodeAct A T}

/-- A smooth step is one that nothing disturbs, but for the look of the drain. -/
theorem Smooth.box (met : Smooth policy s a) (moved : s.step policy target a = some t) :
    Reach Mailbox.step NotLapped s.box t.box := by
  obtain ⟨input, rfl, -, -, box⟩ | ⟨act, rfl, -, -, moved, -⟩ | ⟨act, rfl, -, receives, moved, -⟩ |
    ⟨input, rfl, -, receives, moved, -⟩ := Node.step_cases moved
  · rw [box]
    exact Reach.refl _
  · exact Reach.single met moved
  · exact Reach.single (notLapped_of_receives receives) moved
  · exact Reach.single (notLapped_of_receives receives) moved

/-- What the mailbox tells the core does it no harm. -/
theorem harmless_of_answer {pc : ConsumerPc w (Msg T)} {core : Core A (Msg T)}
    {input : Input A (Msg T)} (told : answer pc = some input) : Harmless policy core input := by
  unfold answer at told
  split at told <;> cases told <;> trivial

theorem Smooth.core (met : Smooth policy s a) (moved : s.step policy target a = some t) :
    Reach (Core.step policy) (Harmless policy) s.core t.core := by
  obtain ⟨input, rfl, -, moved, -⟩ | ⟨act, rfl, -, -, -, core⟩ | ⟨act, rfl, -, -, -, core, -⟩ |
    ⟨input, rfl, -, -, -, told, moved⟩ := Node.step_cases moved
  · exact Reach.single met moved
  · rw [core]
    exact Reach.refl _
  · rw [core]
    exact Reach.refl _
  · exact Reach.single (harmless_of_answer told) moved

/-- What is known of a node in every smooth run. -/
structure Sound (policy : Policy) (target capacity : Nat) (s : Node w A T) : Prop where
  box : Mpsc.Runs NotLapped capacity s.box
  core : CoreRuns policy (Harmless policy) s.core
  coupled : Coupled target True s

theorem alive_of_harmless {core : Core A (Msg T)} (run : CoreRuns policy (Harmless policy) core) :
    core.pc.dead = false := by
  have contained := contained_of_run run
  cases at_ : core.pc with
  | unwound => exact absurd at_ contained.alive.1
  | aborted => exact absurd at_ contained.alive.2
  | _ => rfl

theorem Sound.step (sound : Sound policy target capacity s) (met : Smooth policy s a)
    (moved : s.step policy target a = some t) : Sound policy target capacity t := by
  obtain ⟨⟨q, made, boxed⟩, core, coupled⟩ := sound
  have box : Mpsc.Runs NotLapped capacity t.box := ⟨q, made, boxed.trans (met.box moved)⟩
  have core' : CoreRuns policy (Harmless policy) t.core := core.trans (met.core moved)
  have handles : HandleInv s.box := Mpsc.Runs.handles ⟨q, made, boxed⟩
  exact ⟨box, core', coupled.step moved (running_of_held handles) (alive_of_harmless core') id (fun _ => trivial)
    fun _ _ _ _ => trivial⟩

theorem sound_of_run (run : NodeRuns policy target (Smooth policy) capacity s) :
    Sound policy target capacity s := by
  obtain ⟨q, made, reached⟩ := run
  exact reached.invariant ⟨⟨q, made, Reach.refl _⟩, Reach.refl _, Coupled.new q⟩
    fun _ _ _ sound met moved => sound.step met moved

end Runs

/-! ### Once, and in order -/

/-- The actor has handled these messages, the last one perhaps being in its hands. -/
def HandledWith (target : Nat) (s : Node w A T) (messages : List (Msg T)) : Prop :=
  ∃ inHand : List (Msg T), inHand.length ≤ 1 ∧
    handledOf (s.core.trace target) ++ inHand = messages

theorem Sound.handled {policy : Policy} {target capacity : Nat} {s : Node w A T}
    (sound : Sound policy target capacity s) : HandledWith target s s.box.received := by
  have placed := sound.coupled.placed
  by_cases sent : target < s.core.sent
  · by_cases there : target ∈ s.core.ids
    · obtain ⟨⟨cell, loc⟩, member, rfl⟩ := Multiset.mem_map.1 there
      obtain ⟨told, _⟩ := placed.present ⟨cell, loc⟩ member rfl
      refine ⟨loc.inHand, ?_, told⟩
      unfold Loc.inHand
      split
      · exact le_rfl
      · exact Nat.zero_le 1
    · obtain ⟨told, _⟩ := placed.gone target sent there rfl
      exact ⟨[], Nat.zero_le 1, by rw [List.append_nil]; exact told⟩
  · obtain ⟨_, nothing⟩ := sound.coupled.unsent (Nat.le_of_not_lt sent)
    refine ⟨[], Nat.zero_le 1, ?_⟩
    rw [placed.unknown target (Nat.le_of_not_lt sent), nothing]
    rfl

/-- What an actor handles: the accepted messages, in their order, none twice and none that was refused. -/
structure Processed (target : Nat) (s : Node w A T) : Prop where
  handled : HandledWith target s s.box.received
  in_order : handledOf (s.core.trace target) <+: s.box.accepted
  once : ((handledOf (s.core.trace target)).map Msg.call).Nodup
  intact : ∀ m ∈ handledOf (s.core.trace target), ∃ call, s.box.calls m.call = some call ∧
    m.body = call.body ∧ call.pc.stage ≠ .outside
  /-- The messages of one thread are handled in the order of its calls. -/
  threads : (handledOf (s.core.trace target)).Pairwise fun m m' =>
    threadOf s.box.calls m.call = threadOf s.box.calls m'.call → m.call < m'.call

/-- Whatever the senders, the core and the other actors on it do, and whichever handlers, hooks and
    factories panic: the messages that an actor has handled are the first ones that its mailbox has
    accepted, each handled once and none of them out of order. -/
theorem processed_of_run {policy : Policy} {target capacity : Nat} {s : Node w A T}
    (run : NodeRuns policy target (Smooth policy) capacity s) (two : 2 ≤ capacity) :
    Processed target s := by
  have sound := sound_of_run run
  obtain ⟨k, -, -, -, inv⟩ := sound.box.inv two
  obtain ⟨inHand, short, received⟩ := sound.handled
  have prefix_ : handledOf (s.core.trace target) <+: s.box.accepted := by
    have first : handledOf (s.core.trace target) <+: s.box.received := ⟨inHand, received⟩
    exact first.trans ((List.prefix_append _ _).trans inv.taken)
  refine ⟨⟨inHand, short, received⟩, prefix_, inv.nodup.sublist (prefix_.sublist.map _), ?_, ?_⟩
  · intro m member
    have accepted := prefix_.subset member
    obtain ⟨call, found, body⟩ := inv.origin m accepted
    refine ⟨call, found, body, fun outside => ?_⟩
    exact (inv.calls m.call call found).outside outside m accepted rfl
  · exact (sound.box.threadOrder two).sorted.sublist prefix_.sublist

/-- Two messages are sent and handled, and the core shuts down. -/
theorem processed_of_quiet :
    ∃ s : Node 64 Nat Nat, NodeRuns samplePolicy 0 (Smooth samplePolicy) 2 s ∧
      handledOf (s.core.trace 0) = [⟨0, 7⟩, ⟨1, 8⟩] ∧ Processed 0 s := by
  have goesOn : ∃ s, execChecked (Node.step samplePolicy 0) (Smooth samplePolicy) sampleNode
      (quietSends ++ quietShutdown) = some s ∧ handledOf (s.core.trace 0) = [⟨0, 7⟩, ⟨1, 8⟩] :=
    ⟨_, rfl, rfl⟩
  obtain ⟨s, executed, handled⟩ := goesOn
  have run : NodeRuns samplePolicy 0 (Smooth samplePolicy) 2 s :=
    ⟨_, channel_two_pow (k := 1) (by decide), reach_of_execChecked executed⟩
  exact ⟨s, run, handled, processed_of_run run le_rfl⟩

/-! ### Bounded waiting -/

/-- When the core looks at the mailbox, no message is published behind a position that is reserved and
    not yet published. -/
def Gapless (policy : Policy) (s : Node w A T) (a : NodeAct A T) : Prop :=
  Smooth policy s a ∧ match a with
    | .recv _ => looks s.box.consumer = true → HeadFirst s.box
    | _ => True

instance (policy : Policy) (s : Node w A T) (a : NodeAct A T) : Decidable (Gapless policy s a) :=
  match a with
  | .core _ | .send _ => inferInstanceAs (Decidable (_ ∧ True))
  | .recv _ => inferInstanceAs (Decidable (_ ∧ (_ → HeadFirst _)))

/-- A `try_recv` of the actor's cell returns in this step. -/
def completesPoll (s : Node w A T) : NodeAct A T → Bool
  | .recv .consumer =>
      match (s.box.step .consumer).map Mailbox.consumer with
      | some (.dequeue (.returned _)) => true
      | _ => false
  | _ => false

/-- The result of a `try_recv` that returns. -/
theorem returned_of_completesPoll {policy : Policy} {target : Nat} {s t : Node w A T} {a : NodeAct A T}
    (counted : completesPoll s a = true) (moved : s.step policy target a = some t) :
    ∃ result, a = .recv .consumer ∧ s.receives target .consumer = true ∧
      s.box.consumerStep = some t.box ∧ t.box.consumer = .dequeue (.returned result) := by
  have same : ∀ {box : Mailbox w T}, s.box.step .consumer = some box → a = .recv .consumer →
      ∃ result, box.consumer = .dequeue (.returned result) := by
    rintro box stepped rfl
    simp only [completesPoll, stepped, Option.map_some] at counted
    split at counted
    · rename_i result told
      exact ⟨result, Option.some.inj told⟩
    · cases counted
  obtain ⟨input, rfl, -⟩ | ⟨act, rfl, -⟩ | ⟨act, rfl, -, receives, stepped, -, silent⟩ |
    ⟨input, rfl, -, receives, stepped, -⟩ := Node.step_cases moved
  · cases counted
  · cases counted
  · have last : act = .consumer := by
      cases act <;> first | rfl | cases counted
    subst last
    obtain ⟨result, told⟩ := same stepped rfl
    have nothing := silent rfl
    rw [told] at nothing
    cases nothing
  · obtain ⟨result, told⟩ := same stepped rfl
    exact ⟨result, rfl, receives, stepped, told⟩

section Looks

variable {box box' : Mailbox w T} {m : Msg T} {j : Nat}

/-- A message that was published in its place stays there. -/
theorem placed_of_step (handles : HandleInv box) (place : box.accepted[j]? = some m)
    (published : stageOf box.calls m.call = .published) {b : Act T} (moved : box.step b = some box') :
    box'.accepted[j]? = some m ∧ stageOf box'.calls m.call = .published := by
  refine ⟨?_, published_of_step handles published moved⟩
  obtain ⟨more, grown⟩ := (Mailbox.step_later moved).accepted
  rw [← grown]
  exact (List.getElem?_append_left (List.getElem?_eq_some_iff.1 place).1).trans place

/-- A `try_recv` that returns while a published message waits has taken one out. -/
theorem received_lt_of_returned (inv : Inv k box) (fits : k < w) (running : box.teardown = false)
    (stepped : box.consumerStep = some box') {result : Option (Msg T)}
    (told : box'.consumer = .dequeue (.returned result))
    (first : looks box.consumer = true → HeadFirst box) (place : box.accepted[j]? = some m)
    (published : stageOf box.calls m.call = .published) (waiting : box.received.length < j + 1) :
    box.received.length < box'.received.length := by
  have grown := received_of_consumerStep (A := Unit) running stepped
  rw [told] at grown
  cases result with
  | some message =>
      simp only [answer, Option.map_some, Input.message, Option.getD_some] at grown
      rw [grown, List.length_append]
      exact Nat.lt_succ_self _
  | none =>
      -- The look found nothing, although the message was there.
      have out : m ∈ box.received := received_of_look inv fits running stepped told first
        (List.mem_of_getElem? place) published
      have taken : box.taken = box.received := by
        rw [Mailbox.taken, inv.undropped running, List.append_nil]
      obtain ⟨n, found⟩ := List.mem_iff_getElem?.1 out
      have inside := (List.getElem?_eq_some_iff.1 found).1
      have earlier : box.received <+: box.accepted := taken ▸ inv.taken
      obtain ⟨more, whole⟩ := earlier
      have found' : box.accepted[n]? = some m := by
        rw [← whole]
        exact (List.getElem?_append_left inside).trans found
      have position := position_unique inv.nodup found' place rfl
      omega

/-- What lies in front of what came out came out. -/
theorem mem_received_of_place (inv : Inv k box) (place : box.accepted[j]? = some m)
    (inside : j < box.received.length) : m ∈ box.received := by
  have earlier : box.received <+: box.accepted := (List.prefix_append _ _).trans inv.taken
  obtain ⟨more, whole⟩ := earlier
  rw [← whole, List.getElem?_append_left inside] at place
  exact List.mem_of_getElem? place

end Looks

section Waiting

variable {policy : Policy} {target capacity : Nat} {s t : Node w A T} {a : NodeAct A T} {m : Msg T}
  {j : Nat}

/-- A published message in place `j` of the accepted ones. -/
structure Waits (policy : Policy) (target capacity j : Nat) (m : Msg T) (s : Node w A T) : Prop where
  sound : Sound policy target capacity s
  place : s.box.accepted[j]? = some m
  published : stageOf s.box.calls m.call = .published

theorem Waits.step (waits : Waits policy target capacity j m s) (met : Gapless policy s a)
    (moved : s.step policy target a = some t) : Waits policy target capacity j m t := by
  obtain ⟨_, place, published⟩ := (met.1.box moved).invariant
    (P := fun box => HandleInv box ∧ box.accepted[j]? = some m ∧ stageOf box.calls m.call = .published)
    ⟨waits.sound.box.handles, waits.place, waits.published⟩ fun u b v kept _ moved =>
      ⟨kept.1.step moved, placed_of_step kept.1 kept.2.1 kept.2.2 moved⟩
  exact ⟨waits.sound.step met.1 moved, place, published⟩

/-- What has come out does not go back. -/
theorem received_mono (met : Smooth policy s a) (moved : s.step policy target a = some t) :
    s.box.received.length ≤ t.box.received.length :=
  (met.box moved).invariant (P := fun box => s.box.received.length ≤ box.received.length) le_rfl
    fun _ _ _ longer _ moved => longer.trans (Mailbox.step_later moved).received.length_le

/-- A poll that returns while a published message waits has taken one out. -/
theorem Waits.served (waits : Waits policy target capacity j m s) (two : 2 ≤ capacity)
    (met : Gapless policy s a) (moved : s.step policy target a = some t)
    (counted : completesPoll s a = true) (waiting : s.box.received.length < j + 1) :
    s.box.received.length < t.box.received.length := by
  obtain ⟨result, rfl, receives, stepped, told⟩ := returned_of_completesPoll counted moved
  obtain ⟨k, -, fits, -, inv⟩ := waits.sound.box.inv two
  have running : s.box.teardown = false := by
    simp only [Node.receives, Bool.and_eq_true, beq_iff_eq] at receives
    exact running_of_held waits.sound.box.handles receives.1
  exact received_lt_of_returned inv fits running stepped told met.2 waits.place waits.published waiting

end Waiting

/-- However the threads take turns, a message whose send has returned is handled, or is being handled,
    after as many completed polls of its actor as there are messages before it, and one. -/
theorem handled_within_polls {policy : Policy} {target capacity : Nat} {s t : Node w A T}
    (run : NodeRuns policy target (Smooth policy) capacity s) (two : 2 ≤ capacity) {j : Nat} {m : Msg T}
    (place : s.box.accepted[j]? = some m) (published : stageOf s.box.calls m.call = .published)
    {labels : List (NodeAct A T)} (executed : exec (Node.step policy target) s labels = some t)
    (met : Throughout (Node.step policy target) (Gapless policy) s labels)
    (enough : j < s.box.received.length + tally (Node.step policy target) completesPoll s labels) :
    ∃ messages, HandledWith target t messages ∧ m ∈ messages := by
  obtain ⟨waits, served⟩ := min_le_of_tally (P := Waits policy target capacity j m)
    (fun s => s.box.received.length) (j + 1)
    (fun u a v waits met moved => ⟨waits.step met moved, received_mono met.1 moved,
      fun counted waiting => waits.served two met moved counted waiting⟩)
    ⟨sound_of_run run, place, published⟩ met executed
  have served : min (j + 1) (s.box.received.length + tally (Node.step policy target) completesPoll s labels) ≤
      t.box.received.length := served
  obtain ⟨k, -, -, -, inv⟩ := waits.sound.box.inv two
  exact ⟨t.box.received, waits.sound.handled, mem_received_of_place inv waits.place (by omega)⟩

/-- The second of two messages is handled with the second poll. -/
theorem handled_within_polls_quiet :
    ∃ s t : Node 64 Nat Nat, NodeRuns samplePolicy 0 (Smooth samplePolicy) 2 s ∧
      s.box.accepted[1]? = some ⟨1, 8⟩ ∧
      exec (Node.step samplePolicy 0) s (shutdownStart ++ handles 2 ++ .core .internal ::
        .core .internal :: handles 3) = some t ∧
      ∃ messages, HandledWith 0 t messages ∧ ⟨1, 8⟩ ∈ messages := by
  have goesOn : ∃ s t, execChecked (Node.step samplePolicy 0) (Smooth samplePolicy) sampleNode
        quietSends = some s ∧
      execChecked (Node.step samplePolicy 0) (Gapless samplePolicy) s (shutdownStart ++ handles 2 ++
        .core .internal :: .core .internal :: handles 3) = some t ∧
      s.box.accepted[1]? = some ⟨1, 8⟩ ∧ stageOf s.box.calls 1 = .published ∧
      1 < s.box.received.length + tally (Node.step samplePolicy 0) completesPoll s (shutdownStart ++
        handles 2 ++ .core .internal :: .core .internal :: handles 3) :=
    ⟨_, _, rfl, rfl, rfl, rfl, Nat.lt_succ_self 1⟩
  obtain ⟨s, t, sent, executed, place, published, enough⟩ := goesOn
  have run : NodeRuns samplePolicy 0 (Smooth samplePolicy) 2 s :=
    ⟨_, channel_two_pow (k := 1) (by decide), reach_of_execChecked sent⟩
  obtain ⟨executed, met⟩ := throughout_of_execChecked executed
  exact ⟨s, t, run, place, executed, handled_within_polls run le_rfl place published executed met enough⟩

end AetherFlow.System
