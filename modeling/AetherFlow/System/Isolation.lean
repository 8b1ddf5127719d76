/-
Module: AetherFlow.System.Isolation
Purpose: An actor on a shared core lives as if it were alone. A script gives the deterministic behaviour
  of one actor, the restart decisions it gets and the messages in its mailbox; the reference fold says
  what happens to it. In every run in which all actors follow their scripts, whatever the batch size,
  the neighbours and the order in which they came, what has happened to an actor is the beginning of
  its reference, and all of it once the loop has ended.
Trusted boundary: none
Main exports: Script, Script.served, Script.reference, Isolated, Loc.future, observed,
  future_of_pollMove, Follows, IsolationInv, reference_of_run, isolation
-/
import AetherFlow.System.Containment

namespace AetherFlow.System

open Transition

variable {A M : Type*}

/-! ### Scripts and their reference -/

/-- A deterministic actor: a callback returns the value it leaves and whether it panicked. -/
structure Script (A M : Type*) where
  actor : A
  onStart : A → A × Bool
  handle : A → M → A × Bool
  onRestart : A → A × Bool
  onStop : A → A × Bool
  /-- What the `n`-th call of the factory makes; `none` when it panics. -/
  factory : Option (Nat → Option A)
  /-- Whether the `n`-th restart is allowed. -/
  decides : Nat → Bool
  /-- The mailbox contents, oldest first. -/
  inbox : List M

/-- How a callback that panicked or not ended. -/
def Outcome.ofPanic : Bool → Outcome
  | true => .panicked
  | false => .returned

namespace Script

variable (script : Script A M)

/-- What follows a factory call for instance `inst + 1`; `served` is the life of an instance. -/
def rebuilt (inst : Nat) (fresh : Option A) (served : Nat → A → List (Nat × Event A M)) :
    List (Nat × Event A M) :=
  match fresh with
  | none => [(inst + 1, .make .panicked), (inst, .left .detached)]
  | some fresh =>
      let after := script.onRestart fresh
      (inst + 1, .make .returned) :: (inst + 1, .onRestart fresh (.ofPanic after.2)) ::
        if after.2 then [(inst, .left .detached)] else served (inst + 1) after.1

/-- What follows a panic of `handle` on instance `inst`. -/
def broken (inst : Nat) (served : Nat → A → List (Nat × Event A M)) : List (Nat × Event A M) :=
  match script.factory with
  | none => [(inst, .left .detached)]
  | some make =>
      if script.decides inst then script.rebuilt inst (make inst) served
      else [(inst, .left .detached)]

/-- The life of instance `inst` from actor value `actor` on, with these messages to come. -/
def served (inst : Nat) (actor : A) : List M → List (Nat × Event A M)
  | [] => [(inst, .onStop actor (.ofPanic (script.onStop actor).2))]
  | msg :: inbox =>
      let after := script.handle actor msg
      (inst, .handle actor msg (.ofPanic after.2)) ::
        if after.2 then script.broken inst fun inst actor => served inst actor inbox
        else served inst after.1 inbox

/-- Everything that happens to the actor. -/
def reference : List (Nat × Event A M) :=
  let after := script.onStart script.actor
  (0, .onStart script.actor (.ofPanic after.2)) ::
    if after.2 then [(0, .left .detached)] else script.served 0 after.1 script.inbox

end Script

/-! ### Runs in which the actors follow their scripts -/

/-- A callback ended as `result` says. -/
def Ends (result : A × Bool) (after : A) (outcome : Outcome) : Prop :=
  after = result.1 ∧ outcome = .ofPanic result.2

/-- What may happen to a cell with this script. Before the shutdown drain an empty mailbox can mean
    that the rest has not arrived yet; the drain finds everything, and the actor is closed and empty
    only after its last message. -/
def Script.Allows (script : Script A M) (policy : Policy) (draining : Bool) (cell : Cell A)
    (loc : Loc A M) : Input A M → Prop
  | .ran after outcome =>
      match loc with
      | .waiting => Ends (script.onStart cell.actor) after outcome
      | .polled (.handle msg) => Ends (script.handle cell.actor msg) after outcome
      | .polled .make =>
          match script.factory.bind (· cell.inst) with
          | some fresh => after = fresh ∧ outcome = .returned
          | none => outcome = .panicked
      | .polled (.onRestart fresh) => Ends (script.onRestart fresh) after outcome
      | .stopping => Ends (script.onStop cell.actor) after outcome
      | _ => True
  | .received (some msg) => script.inbox[cell.taken]? = some msg
  | .received none => draining = true → cell.taken = script.inbox.length
  | .closedAndEmpty verdict => verdict = true → cell.taken = script.inbox.length
  | .now time =>
      (allowRestart policy.overflowChecks cell.restartPolicy cell.restarts time).map (·.1) =
        some (script.decides cell.inst)
  | _ => True

/-- A new cell is the one its script is about. -/
def Sends (scripts : Nat → Script A M) (sent : Nat) : Input A M → Prop
  | .sendAdd actor factory _ =>
      actor = (scripts sent).actor ∧ factory = (scripts sent).factory.isSome
  | _ => True

/-- Cell `id` follows the script `scripts id`, and no destructor panics. -/
structure Isolated (policy : Policy) (scripts : Nat → Script A M) (s : Core A M)
    (input : Input A M) : Prop where
  harmless : Harmless policy s input
  added : Sends scripts s.sent input
  follows : ∀ cell loc, s.Serves cell loc →
    (scripts cell.id).Allows policy s.pc.draining cell loc input

/-- The cell the next step of the loop is about. -/
def Core.served (s : Core A M) : Option (Cell A × Loc A M) :=
  match s.pc with
  | .start cell => some (cell, .waiting)
  | .visit i | .closedCheck i => (s.actors[i]?).map (·, .calm)
  | .poll site pc => (s.actors[site.index]?).map (·, .polled pc)
  | .detach i => (s.actors[i]?).map (·, .failed)
  | .stop cell _ => some (cell, .stopping)
  | .drain => (s.actors[0]?).map (·, .calm)
  | _ => none

theorem Core.serves_iff {s : Core A M} {cell : Cell A} {loc : Loc A M} :
    s.Serves cell loc ↔ s.served = some (cell, loc) := by
  have actor : ∀ (i : Nat) (place : Loc A M), (s.actors[i]? = some cell ∧ loc = place) ↔
      (s.actors[i]?).map (·, place) = some (cell, loc) := by
    intro i place
    cases s.actors[i]? with
    | none => simp
    | some found => simp [eq_comm]
  cases at_ : s.pc with
  | start held | stop held resume => simp [Core.Serves, Core.served, at_, eq_comm]
  | visit i | closedCheck i | poll site pc | detach i | drain =>
      simp only [Core.Serves, Core.served, at_, actor]
  | _ => simp [Core.Serves, Core.served, at_]

/-! The side condition can be evaluated. -/

section Decide

variable [DecidableEq A] [DecidableEq M] {policy : Policy} {draining : Bool} {script : Script A M}
  {scripts : Nat → Script A M} {cell : Cell A} {s : Core A M}

instance (result : A × Bool) (after : A) (outcome : Outcome) : Decidable (Ends result after outcome) :=
  inferInstanceAs (Decidable (_ ∧ _))

instance (loc : Loc A M) (input : Input A M) :
    Decidable (script.Allows policy draining cell loc input) :=
  match input with
  | .ran after outcome =>
      match loc with
      | .waiting | .polled (.handle _) | .polled (.onRestart _) | .stopping =>
          inferInstanceAs (Decidable (Ends _ _ _))
      | .polled .make =>
          match made : script.factory.bind (· cell.inst) with
          | some fresh => decidable_of_iff (after = fresh ∧ outcome = .returned)
              (by simp [Script.Allows, made])
          | none => decidable_of_iff (outcome = .panicked) (by simp [Script.Allows, made])
      | .calm | .failed | .polled .recv | .polled .broken | .polled (.replace _)
      | .polled (.returned _) => isTrue trivial
  | .received (some _) => inferInstanceAs (Decidable (_ = _))
  | .received none => inferInstanceAs (Decidable (_ = _ → _ = _))
  | .closedAndEmpty _ => inferInstanceAs (Decidable (_ = _ → _ = _))
  | .now _ => inferInstanceAs (Decidable (_ = _))
  | .dropped _ | .internal | .sendAdd _ _ _ | .sendShutdown | .disconnect => isTrue trivial

instance (sent : Nat) (input : Input A M) : Decidable (Sends scripts sent input) :=
  match input with
  | .sendAdd _ _ _ => inferInstanceAs (Decidable (_ ∧ _))
  | .ran _ _ | .dropped _ | .received _ | .closedAndEmpty _ | .now _ | .internal | .sendShutdown
  | .disconnect => isTrue trivial

instance (input : Input A M) : Decidable (Isolated policy scripts s input) :=
  decidable_of_iff
    (Harmless policy s input ∧ Sends scripts s.sent input ∧ ∀ spot ∈ s.served,
      (scripts spot.1.id).Allows policy s.pc.draining spot.1 spot.2 input) <| by
    constructor
    · rintro ⟨harmless, added, follows⟩
      exact ⟨harmless, added, fun cell loc serves => follows _ (Core.serves_iff.1 serves)⟩
    · rintro ⟨harmless, added, follows⟩
      exact ⟨harmless, added, fun spot served => follows _ _ (Core.serves_iff.2 served)⟩

end Decide

/-! ### What is still to happen -/

/-- What is still to happen to a cell in the middle of `poll_one`. -/
def PollPc.future (script : Script A M) (cell : Cell A) : PollPc A M → List (Nat × Event A M)
  | .recv | .returned .worked | .returned .empty =>
      script.served cell.inst cell.actor (script.inbox.drop cell.taken)
  | .handle msg => script.served cell.inst cell.actor (msg :: script.inbox.drop cell.taken)
  | .broken => script.broken cell.inst fun inst actor =>
      script.served inst actor (script.inbox.drop cell.taken)
  | .make => script.rebuilt cell.inst (script.factory.bind (· cell.inst)) fun inst actor =>
      script.served inst actor (script.inbox.drop cell.taken)
  | .onRestart fresh =>
      let after := script.onRestart fresh
      (cell.inst + 1, .onRestart fresh (.ofPanic after.2)) ::
        if after.2 then [(cell.inst, .left .detached)]
        else script.served (cell.inst + 1) after.1 (script.inbox.drop cell.taken)
  | .replace fresh => script.served (cell.inst + 1) fresh (script.inbox.drop cell.taken)
  | .returned .panicked => [(cell.inst, .left .detached)]

/-- What is still to happen to a cell, by its place. -/
def Loc.future (script : Script A M) (cell : Cell A) : Loc A M → List (Nat × Event A M)
  | .waiting => script.reference
  | .calm => script.served cell.inst cell.actor (script.inbox.drop cell.taken)
  | .polled pc => pc.future script cell
  | .failed => [(cell.inst, .left .detached)]
  | .stopping => [(cell.inst, .onStop cell.actor (.ofPanic (script.onStop cell.actor).2))]

/-- The event is not the mark of an orderly removal, which is followed by `on_stop` anyway. -/
def Event.telling : Event A M → Bool
  | .left .closedAndEmpty | .left .drained => false
  | _ => true

/-- What happened to a cell, by instances. Whether an orderly removal came from the closed mailbox or
    from the shutdown drain is left out. -/
def observed (log : List (Entry A M)) : List (Nat × Event A M) :=
  (log.filter (·.event.telling)).map fun e => (e.inst, e.event)

theorem observed_append (log : List (Entry A M)) (id : Nat) (events : List (Nat × Event A M)) :
    observed (log ++ entries id events) = observed log ++ events.filter (·.2.telling) := by
  simp [observed, entries, List.filter_map, Function.comp_def]

theorem Outcome.returned_eq_ofPanic {panics : Bool} : .returned = ofPanic panics ↔ panics = false := by
  cases panics <;> simp [ofPanic]

theorem Outcome.panicked_eq_ofPanic {panics : Bool} : .panicked = ofPanic panics ↔ panics = true := by
  cases panics <;> simp [ofPanic]

/-! ### Each step takes the future one event further -/

section Steps

variable {policy : Policy} {script : Script A M} {draining : Bool} {input : Input A M}
  {cell cell' : Cell A} {events : List (Nat × Event A M)}

/-- The message `try_recv` hands out is the first of those to come. -/
theorem drop_of_received {inbox : List M} {taken : Nat} {msg : M}
    (next : inbox[taken]? = some msg) : inbox.drop taken = msg :: inbox.drop (taken + 1) := by
  obtain ⟨inside, rfl⟩ := List.getElem?_eq_some_iff.1 next
  exact List.drop_eq_getElem_cons inside

theorem future_of_pollMove {pc pc' : PollPc A M}
    (move : PollMove policy.overflowChecks cell pc input cell' pc' events)
    (allowed : script.Allows policy draining cell (.polled pc) input)
    (supervised : cell.factory = script.factory.isSome) :
    pc.future script cell = events ++ pc'.future script cell' := by
  cases move with
  | empty => rfl
  | takes =>
      simp only [PollPc.future, List.nil_append]
      rw [drop_of_received allowed]
  | handled =>
      obtain ⟨rfl, returns⟩ := allowed
      have fine := Outcome.returned_eq_ofPanic.1 returns
      simp [PollPc.future, Script.served, fine, Outcome.ofPanic]
  | broke =>
      obtain ⟨rfl, panics⟩ := allowed
      have panicked := Outcome.panicked_eq_ofPanic.1 panics
      simp [PollPc.future, Script.served, panicked, Outcome.ofPanic]
  | unsupervised none_ =>
      have none_ : script.factory = none := by
        rw [none_] at supervised
        exact Option.isNone_iff_eq_none.1 (by simpa using supervised.symm)
      simp [PollPc.future, Script.broken, none_]
  | @decided time verdict restarts some_ decision =>
      have follows : verdict = script.decides cell.inst := by
        simpa [Script.Allows, decision] using allowed
      subst follows
      rw [some_] at supervised
      obtain ⟨make, made⟩ := Option.isSome_iff_exists.1 supervised.symm
      cases verdict : script.decides cell.inst with
      | true => simp [PollPc.future, Script.broken, made, verdict]
      | false => simp [PollPc.future, Script.broken, made, verdict]
  | made =>
      simp only [Script.Allows] at allowed
      cases result : script.factory.bind (· cell.inst) with
      | none => simp [result] at allowed
      | some fresh' =>
          rw [result] at allowed
          obtain ⟨rfl, -⟩ := allowed
          simp [PollPc.future, Script.rebuilt, result]
  | makeFailed =>
      simp only [Script.Allows] at allowed
      cases result : script.factory.bind (· cell.inst) with
      | none => simp [PollPc.future, Script.rebuilt, result]
      | some fresh' => simp [result] at allowed
  | restarted =>
      obtain ⟨rfl, returns⟩ := allowed
      have fine := Outcome.returned_eq_ofPanic.1 returns
      simp [PollPc.future, fine, Outcome.ofPanic]
  | restartFailed =>
      obtain ⟨rfl, panics⟩ := allowed
      have panicked := Outcome.panicked_eq_ofPanic.1 panics
      simp [PollPc.future, panicked, Outcome.ofPanic]
  | replaced => rfl

theorem telling_of_pollMove {pc pc' : PollPc A M}
    (move : PollMove policy.overflowChecks cell pc input cell' pc' events) :
    events.filter (·.2.telling) = events := by
  cases move <;> rfl

/-- What holds of a cell and its log at every place: the log and the future make up the reference. -/
structure Follows (script : Script A M) (cell : Cell A) (loc : Loc A M) (log : List (Entry A M)) :
    Prop where
  told : observed log ++ loc.future script cell = script.reference
  supervised : cell.factory = script.factory.isSome
  untouched : loc = .waiting → cell.inst = 0 ∧ cell.taken = 0 ∧ cell.actor = script.actor

/-- What has been told grows by what the future loses. -/
theorem told_of_future {log : List (Entry A M)} {future future' : List (Nat × Event A M)} {id : Nat}
    (told : observed log ++ future = script.reference)
    (step : future = events.filter (·.2.telling) ++ future') :
    observed (log ++ entries id events) ++ future' = script.reference := by
  rw [observed_append, List.append_assoc, ← step, told]

/-- Nothing is left for a cell whose messages have all been taken but to be stopped. -/
theorem served_of_taken (all : cell.taken = script.inbox.length) :
    script.served cell.inst cell.actor (script.inbox.drop cell.taken) =
      [(cell.inst, .onStop cell.actor (.ofPanic (script.onStop cell.actor).2))] := by
  rw [List.drop_eq_nil_of_le all.ge]
  rfl

theorem Follows.move {loc loc' : Loc A M} {log : List (Entry A M)}
    (follows : Follows script cell loc log)
    (stepped : CellStep policy input cell loc events (some (cell', loc')))
    (allowed : script.Allows policy draining cell loc input)
    (drained : input = .internal → loc' = .stopping → cell.taken = script.inbox.length) :
    Follows script cell' loc' (log ++ entries cell.id events) := by
  obtain ⟨told, supervised, untouched⟩ := follows
  cases stepped with
  | started =>
      obtain ⟨inst, taken, actor⟩ := untouched rfl
      obtain ⟨rfl, returns⟩ := allowed
      have fine := Outcome.returned_eq_ofPanic.1 returns
      refine ⟨told_of_future told ?_, supervised, nofun⟩
      rw [actor] at fine
      simp [Loc.future, Script.reference, inst, taken, actor, fine, Outcome.ofPanic, Event.telling]
  | visited | again | fails => exact ⟨told_of_future told rfl, supervised, nofun⟩
  | polls move =>
      refine ⟨told_of_future told ?_, ?_, nofun⟩
      · rw [telling_of_pollMove move]
        exact future_of_pollMove move allowed supervised
      · cases move <;> exact supervised
  | @calms _ outcome fine =>
      cases outcome with
      | worked | empty => exact ⟨told_of_future told rfl, supervised, nofun⟩
      | panicked => exact absurd rfl fine
  | drained =>
      exact ⟨told_of_future told (served_of_taken (drained rfl rfl)), supervised, nofun⟩
  | closed => exact ⟨told_of_future told (served_of_taken (allowed rfl)), supervised, nofun⟩

theorem Follows.leave {loc : Loc A M} {log : List (Entry A M)}
    (follows : Follows script cell loc log)
    (stepped : CellStep policy input cell loc events none)
    (allowed : script.Allows policy draining cell loc input) :
    observed (log ++ entries cell.id events) = script.reference := by
  obtain ⟨told, supervised, untouched⟩ := follows
  rw [← List.append_nil (observed _)]
  cases stepped with
  | startFailed =>
      obtain ⟨inst, taken, actor⟩ := untouched rfl
      obtain ⟨rfl, panics⟩ := allowed
      have panicked := Outcome.panicked_eq_ofPanic.1 panics
      refine told_of_future told ?_
      rw [actor] at panicked
      simp [Loc.future, Script.reference, inst, actor, panicked, Outcome.ofPanic, Event.telling]
  | detached | drainFailed => exact told_of_future told rfl
  | stopped whole =>
      obtain ⟨rfl, rfl⟩ := allowed
      exact told_of_future told rfl

end Steps

/-! ### Along every isolated run -/

/-- The actors follow their scripts, the loop lives, and the drain leaves no message behind. -/
structure IsolationInv (scripts : Nat → Script A M) (s : Core A M) : Prop where
  placed : Placed (fun cell => Follows (scripts cell.id) cell)
    (fun id log => observed log = (scripts id).reference) s
  alive : s.pc.dead = false
  emptied : s.pc = .poll .drain (.returned .empty) → ∀ cell, s.actors[0]? = some cell →
    cell.taken = (scripts cell.id).inbox.length

namespace IsolationInv

variable {policy : Policy} {scripts : Nat → Script A M} {s t : Core A M} {input : Input A M}

theorem new : IsolationInv scripts (Core.new : Core A M) where
  placed := Placed.new
  alive := rfl
  emptied := nofun

/-- A cell that the loop stops by itself has no message left. -/
theorem taken_of_drained (inv : IsolationInv scripts s) {cell cell' : Cell A} {loc : Loc A M}
    {events : List (Nat × Event A M)} (serves : s.Serves cell loc)
    (stepped : CellStep policy .internal cell loc events (some (cell', .stopping)))
    (drains : s.pc.draining = true) : cell.taken = (scripts cell.id).inbox.length := by
  obtain ⟨at_, found⟩ := drain_of_stopping serves stepped drains
  exact inv.emptied at_ cell found

theorem step (inv : IsolationInv scripts s) (isolated : Isolated policy scripts s input)
    (moved : s.step policy input = some t) : IsolationInv scripts t := by
  have alive := step_lives isolated.harmless inv.alive moved
  have placed := inv.placed.step moved
    (fun actor factory restartPolicy sends => by
      subst sends
      obtain ⟨rfl, rfl⟩ := isolated.added
      exact ⟨rfl, rfl, fun _ => ⟨rfl, rfl, rfl⟩⟩)
    (fun cell loc cell' loc' events log serves stepped drains follows => by
      rw [stepped.id_eq]
      refine follows.move stepped (isolated.follows cell loc serves) ?_
      rintro rfl rfl
      exact inv.taken_of_drained serves stepped (drains rfl rfl))
    (fun cell loc events log serves stepped follows =>
      follows.leave stepped (isolated.follows cell loc serves))
  refine ⟨placed.resolve_right fun died => ?_, alive, fun at_ cell found => ?_⟩
  · rw [died.dead] at alive
    cases alive
  · rcases step_cases moved with sent | moved
    · obtain ⟨pc, -, actors, -⟩ := environment_frame sent
      rw [pc] at at_
      rw [actors] at found
      exact inv.emptied at_ cell found
    · obtain ⟨recv, rfl, actors⟩ := emptied_of_loopStep moved at_
      rw [actors] at found
      have serves : s.Serves cell (.polled .recv) := by
        simp only [Core.Serves, recv]
        exact ⟨found, trivial⟩
      exact isolated.follows cell _ serves (by rw [recv]; rfl)

end IsolationInv

theorem CoreRuns.isolationInv {policy : Policy} {scripts : Nat → Script A M} {s : Core A M}
    (run : CoreRuns policy (Isolated policy scripts) s) : IsolationInv scripts s :=
  run.invariant IsolationInv.new fun _ _ _ inv isolated moved => inv.step isolated moved

/-- Once the loop has ended, everything has happened to every actor sent before `Shutdown`. -/
theorem reference_of_run {policy : Policy} {scripts : Nat → Script A M} {s : Core A M}
    (run : CoreRuns policy (Isolated policy scripts) s) (exited : s.pc = .exited) {id : Nat}
    (due : id < s.sentBefore.getD s.sent) :
    observed (s.trace id) = (scripts id).reference := by
  have exits := run.exits
  exact run.isolationInv.placed.gone id (exits.known_of_due due) (exits.absent_of_due exited due)

/-- Two actors with the same script have the same trace, whatever the batch size, the other actors
    and the order in which they were added. -/
theorem isolation {policy policy' : Policy} {scripts scripts' : Nat → Script A M}
    {s s' : Core A M} (run : CoreRuns policy (Isolated policy scripts) s)
    (run' : CoreRuns policy' (Isolated policy' scripts') s') (exited : s.pc = .exited)
    (exited' : s'.pc = .exited) {id id' : Nat} (due : id < s.sentBefore.getD s.sent)
    (due' : id' < s'.sentBefore.getD s'.sent) (same : scripts id = scripts' id') :
    observed (s.trace id) = observed (s'.trace id') :=
  calc observed (s.trace id)
      _ = (scripts id).reference := reference_of_run run exited due
      _ = (scripts' id').reference := by rw [same]
      _ = observed (s'.trace id') := (reference_of_run run' exited' due').symm

/-- A supervised actor that panics on message 7. -/
def sampleScript : Script Nat Nat where
  actor := 0
  onStart a := (a + 1, false)
  handle a msg := (a + msg, msg == 7)
  onRestart a := (a + 1, false)
  onStop a := (a, false)
  factory := some fun _ => some 100
  decides _ := true
  inbox := [7, 8]

/-- An unsupervised actor that panics on every message. -/
def brokenScript : Script Nat Nat where
  actor := 5
  onStart a := (a, false)
  handle a _ := (a, true)
  onRestart a := (a, false)
  onStop a := (a, false)
  factory := none
  decides _ := false
  inbox := [1]

/-- The actor alone on its core, one message a visit. -/
def aloneInputs : List (Input Nat Nat) :=
  [.sendAdd 0 true .always, .sendShutdown, .internal, .ran 1 .returned, .internal, .internal,
    .internal, .received (some 7), .ran 8 .panicked, .now 0, .ran 100 .returned, .ran 101 .returned,
    .dropped .returned, .internal, .internal, .internal, .received (some 8), .ran 109 .returned,
    .internal, .received none, .internal, .ran 109 .returned, .dropped .returned, .internal]

def aloneLog : List (Entry Nat Nat) :=
  [⟨0, 0, .onStart 0 .returned⟩, ⟨0, 0, .handle 1 7 .panicked⟩, ⟨0, 1, .make .returned⟩,
    ⟨0, 1, .onRestart 100 .returned⟩, ⟨0, 1, .handle 101 8 .returned⟩, ⟨0, 1, .left .drained⟩,
    ⟨0, 1, .onStop 109 .returned⟩]

/-- Behind a neighbour that is detached in the middle of the pass, three messages a visit. -/
def sharedInputs : List (Input Nat Nat) :=
  [.sendAdd 5 false .never, .sendAdd 0 true .always, .sendShutdown, .internal, .ran 5 .returned,
    .internal, .ran 1 .returned, .internal, .internal, .internal, .received (some 1),
    .ran 5 .panicked, .internal, .internal, .dropped .returned, .internal, .received (some 7),
    .ran 8 .panicked, .now 0, .ran 100 .returned, .ran 101 .returned, .dropped .returned, .internal,
    .received (some 8), .ran 109 .returned, .internal, .received none, .internal, .internal,
    .internal, .received none, .internal, .ran 109 .returned, .dropped .returned, .internal]

def sharedLog : List (Entry Nat Nat) :=
  [⟨0, 0, .onStart 5 .returned⟩, ⟨1, 0, .onStart 0 .returned⟩, ⟨0, 0, .handle 5 1 .panicked⟩,
    ⟨0, 0, .left .detached⟩, ⟨1, 0, .handle 1 7 .panicked⟩, ⟨1, 1, .make .returned⟩,
    ⟨1, 1, .onRestart 100 .returned⟩, ⟨1, 1, .handle 101 8 .returned⟩, ⟨1, 1, .left .drained⟩,
    ⟨1, 1, .onStop 109 .returned⟩]

/-- The end of a run with this log. -/
def endedWith (log : List (Entry Nat Nat)) (sent : Nat) : Core Nat Nat where
  controls := []
  connected := true
  actors := []
  shuttingDown := true
  pc := .exited
  log := log
  sent := sent
  sentBefore := some sent

def sharedPolicy : Policy := { batchDrain := 3, overflowChecks := true }

/-- The neighbour has number 0, the actor number 1. -/
def sharedScripts (id : Nat) : Script Nat Nat := if id = 1 then sampleScript else brokenScript

theorem alone_runs :
    CoreRuns samplePolicy (Isolated samplePolicy fun _ => sampleScript) (endedWith aloneLog 1) :=
  reach_of_execChecked <| show execChecked _ _ Core.new aloneInputs = some _ from rfl

theorem shared_runs :
    CoreRuns sharedPolicy (Isolated sharedPolicy sharedScripts) (endedWith sharedLog 2) :=
  reach_of_execChecked <| show execChecked _ _ Core.new sharedInputs = some _ from rfl

theorem isolation_of_shared :
    samplePolicy.batchDrain ≠ sharedPolicy.batchDrain ∧
      observed ((endedWith aloneLog 1).trace 0) = observed ((endedWith sharedLog 2).trace 1) :=
  ⟨by decide, isolation alone_runs shared_runs rfl rfl (by decide) (by decide) rfl⟩

end AetherFlow.System
