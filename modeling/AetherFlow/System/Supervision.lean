/-
Module: AetherFlow.System.Supervision
Purpose: A supervised actor on its own. `Cell::poll_one` is called again and again until it reports
  `Panicked`; the user code answers as a `Behaviour` says, messages may arrive at any time. What each
  message sees is a fold of `handle` that begins anew, on the factory's instance, behind every message
  that panicked.
Trusted boundary: human-reviewed transcription of the calls of `Cell::poll_one`
Main exports: Behaviour, Supervised, Supervised.step, Behaviour.fold, Recovers, SupervisedLaw,
  supervised_of_run
-/
import AetherFlow.System.Cells
import AetherFlow.System.Limiter

namespace AetherFlow.System

open Transition

variable {A M : Type*}

/-! ### User code and the polls of one cell -/

/-- What user code and the clock answer when message number `n` is handled: any behaviour of theirs, also
    one that depends on the past. -/
structure Behaviour (A M : Type*) where
  handle : Nat → A → M → A × Outcome
  /-- `Instant::now()` in `allow_restart`. -/
  now : Nat → Nat
  make : Nat → A × Outcome
  onRestart : Nat → A → A × Outcome
  /-- The drop of the broken actor when it is replaced. -/
  dropBroken : Nat → Outcome

/-- A call of `handle`: the actor value and the message it was given, and how it ended. -/
structure Handling (A M : Type*) where
  seen : A
  msg : M
  outcome : Outcome

/-- A cell with its mailbox, and a `poll_one` in progress or returned. -/
structure Supervised (A M : Type*) where
  cell : Cell A
  /-- The messages that `try_recv` can hand out, oldest first. -/
  mailbox : List M
  pc : PollPc A M
  /-- All messages that have come to the mailbox. -/
  arrived : List M
  handled : List (Handling A M)
  /-- A panic has left `poll_one`, or the process was aborted. -/
  lost : Bool

inductive SupervisedAct (M : Type*) where
  | arrive (msg : M)
  /-- The next call of `poll_one`; there is none after `Panicked`. -/
  | poll
  | step

/-- The calls of `handle` among the events. -/
def handlings (events : List (Nat × Event A M)) : List (Handling A M) :=
  events.filterMap fun
    | (_, .handle seen msg outcome) => some ⟨seen, msg, outcome⟩
    | _ => none

namespace Supervised

/-- A supervised cell that was just started, in its first `poll_one`. -/
def start (actor : A) (policy : RestartPolicy) : Supervised A M where
  cell := { id := 0, actor, factory := true, restartPolicy := policy }
  mailbox := []
  pc := .recv
  arrived := []
  handled := []
  lost := false

/-- What `poll_one` is answered where it stands. -/
def answer (b : Behaviour A M) (s : Supervised A M) : Input A M :=
  let n := s.cell.taken - 1
  match s.pc with
  | .recv => .received s.mailbox.head?
  | .handle msg =>
      let result := b.handle n s.cell.actor msg
      .ran result.1 result.2
  | .broken => if s.cell.factory then .now (b.now n) else .internal
  | .make => .ran (b.make n).1 (b.make n).2
  | .onRestart fresh =>
      let result := b.onRestart n fresh
      .ran result.1 result.2
  | .replace _ => .dropped (b.dropBroken n)
  | .returned _ => .internal

/-- The mailbox after the next step of `poll_one`. -/
def left (s : Supervised A M) : List M :=
  match s.pc with
  | .recv => s.mailbox.tail
  | _ => s.mailbox

def step (overflowChecks : Bool) (b : Behaviour A M) (s : Supervised A M) :
    SupervisedAct M → Option (Supervised A M)
  | .arrive msg => some { s with mailbox := s.mailbox ++ [msg], arrived := s.arrived ++ [msg] }
  | .poll =>
      match s.pc with
      | .returned .worked | .returned .empty => some { s with pc := .recv }
      | _ => none
  | .step =>
      if s.lost then none
      else
        (pollStep overflowChecks s.cell s.pc (s.answer b)).map fun
          | .goOn cell pc events =>
              { s with
                cell := cell
                pc := pc
                mailbox := s.left
                handled := s.handled ++ handlings events }
          | .unwound | .aborted => { s with lost := true }

end Supervised

/-! ### The reference -/

namespace Behaviour

variable (b : Behaviour A M)

/-- `handle` folded over messages, the first of which has number `n`. -/
def fold (n : Nat) (actor : A) : List M → A
  | [] => actor
  | msg :: msgs => fold (n + 1) (b.handle n actor msg).1 msgs

/-- The factory's instance after `on_restart`, made when message `n` has panicked. -/
def fresh (n : Nat) : A := (b.onRestart n (b.make n).1).1

/-- The clock at the panics of these calls, the first of which is that of message `n`. -/
def panicTimes (n : Nat) : List (Handling A M) → List Nat
  | [] => []
  | h :: handled =>
      if h.outcome = .panicked then b.now n :: panicTimes (n + 1) handled
      else panicTimes (n + 1) handled

end Behaviour

/-- After the calls `earlier`, whose panics were all followed by a restart, message number
    `earlier.length` panics, and the restart is granted and goes through; the broken actor goes without
    a panic of its own. -/
structure Recovers (overflowChecks : Bool) (policy : RestartPolicy) (b : Behaviour A M)
    (earlier : List (Handling A M)) : Prop where
  allowed : ∃ restarts restarts',
    grantAll overflowChecks policy (b.panicTimes 0 earlier) = some restarts ∧
      allowRestart overflowChecks policy restarts (b.now earlier.length) = some (true, restarts')
  made : (b.make earlier.length).2 = .returned
  restarted : (b.onRestart earlier.length (b.make earlier.length).1).2 = .returned
  dropped : b.dropBroken earlier.length = .returned

/-- After the calls `earlier`, whose panics were all followed by a restart, message number
    `earlier.length` panics, and the restart is refused, or the factory or `on_restart` panics. -/
def GivesUp (overflowChecks : Bool) (policy : RestartPolicy) (b : Behaviour A M)
    (earlier : List (Handling A M)) : Prop :=
  ∃ restarts, grantAll overflowChecks policy (b.panicTimes 0 earlier) = some restarts ∧
    ((∃ restarts', allowRestart overflowChecks policy restarts (b.now earlier.length) =
        some (false, restarts')) ∨
      (∃ restarts', allowRestart overflowChecks policy restarts (b.now earlier.length) =
          some (true, restarts')) ∧
        ((b.make earlier.length).2 = .panicked ∨ (b.make earlier.length).2 = .returned ∧
          (b.onRestart earlier.length (b.make earlier.length).1).2 = .panicked))

/-- After the calls `earlier`, whose panics were all followed by a restart, message number
    `earlier.length` panics, and what follows does not come back to `poll_one`: the counter of the
    limiter overflows in a build that checks for it, a destructor aborts the process, or the broken
    actor panics when it is dropped. -/
def Escapes (overflowChecks : Bool) (policy : RestartPolicy) (b : Behaviour A M)
    (earlier : List (Handling A M)) : Prop :=
  ∃ restarts, grantAll overflowChecks policy (b.panicTimes 0 earlier) = some restarts ∧
    (allowRestart overflowChecks policy restarts (b.now earlier.length) = none ∨
      (∃ restarts', allowRestart overflowChecks policy restarts (b.now earlier.length) =
          some (true, restarts')) ∧
        ((b.make earlier.length).2 = .aborted ∨ (b.make earlier.length).2 = .returned ∧
          ((b.onRestart earlier.length (b.make earlier.length).1).2 = .aborted ∨
            (b.onRestart earlier.length (b.make earlier.length).1).2 = .returned ∧
              b.dropBroken earlier.length ≠ .returned)))

/-- The message `poll_one` has taken and not yet given to `handle`. -/
def PollPc.inHand : PollPc A M → List M
  | .handle msg => [msg]
  | _ => []

/-! ### Histories -/

/-- The calls of `handle` of a cell that is between two messages: the value its actor then has and the
    tracker of its restarts. A call that returned leaves its own result, one that panicked the fresh
    instance. -/
inductive History (overflowChecks : Bool) (policy : RestartPolicy) (b : Behaviour A M) (initial : A) :
    List (Handling A M) → A → RestartState → Prop
  | nil : History overflowChecks policy b initial [] initial {}
  | returned {earlier : List (Handling A M)} {actor : A} {restarts : RestartState} {msg : M}
      (before : History overflowChecks policy b initial earlier actor restarts)
      (ran : (b.handle earlier.length actor msg).2 = .returned) :
      History overflowChecks policy b initial (earlier ++ [⟨actor, msg, .returned⟩])
        (b.handle earlier.length actor msg).1 restarts
  | recovered {earlier : List (Handling A M)} {actor : A} {restarts restarts' : RestartState} {msg : M}
      (before : History overflowChecks policy b initial earlier actor restarts)
      (ran : (b.handle earlier.length actor msg).2 = .panicked)
      (allowed : allowRestart overflowChecks policy restarts (b.now earlier.length) =
        some (true, restarts'))
      (made : (b.make earlier.length).2 = .returned)
      (restarted : (b.onRestart earlier.length (b.make earlier.length).1).2 = .returned)
      (dropped : b.dropBroken earlier.length = .returned) :
      History overflowChecks policy b initial (earlier ++ [⟨actor, msg, .panicked⟩])
        (b.fresh earlier.length) restarts'

theorem Behaviour.fold_snoc (b : Behaviour A M) {n : Nat} {actor : A} {msgs : List M} {msg : M} :
    b.fold n actor (msgs ++ [msg]) = (b.handle (n + msgs.length) (b.fold n actor msgs) msg).1 := by
  induction msgs generalizing n actor with
  | nil => rfl
  | cons first msgs inductionHypothesis =>
      have shifted : n + 1 + msgs.length = n + (msgs.length + 1) := by omega
      rw [List.cons_append, Behaviour.fold, inductionHypothesis, shifted]
      rfl

theorem Behaviour.panicTimes_snoc (b : Behaviour A M) {n : Nat} {handled : List (Handling A M)}
    {h : Handling A M} :
    b.panicTimes n (handled ++ [h]) =
      b.panicTimes n handled ++ if h.outcome = .panicked then [b.now (n + handled.length)] else [] := by
  induction handled generalizing n with
  | nil => rfl
  | cons first handled inductionHypothesis =>
      have shifted : n + 1 + handled.length = n + (handled.length + 1) := by omega
      rw [List.cons_append, Behaviour.panicTimes, Behaviour.panicTimes, inductionHypothesis, shifted]
      split <;> rfl

namespace History

variable {overflowChecks : Bool} {policy : RestartPolicy} {b : Behaviour A M} {initial actor : A}
  {handled : List (Handling A M)} {restarts : RestartState}

/-- The tracker has granted a restart for every panic. -/
theorem grantAll_eq (history : History overflowChecks policy b initial handled actor restarts) :
    grantAll overflowChecks policy (b.panicTimes 0 handled) = some restarts := by
  induction history with
  | nil => rfl
  | returned before ran inductionHypothesis =>
      rw [Behaviour.panicTimes_snoc, if_neg Outcome.noConfusion, List.append_nil]
      exact inductionHypothesis
  | recovered before ran allowed made restarted dropped inductionHypothesis =>
      rw [Behaviour.panicTimes_snoc, if_pos rfl, grantAll_snoc, inductionHypothesis, Nat.zero_add]
      exact grant_eq_some_iff.2 allowed

/-- Every call is preceded by a history that ends with the value it was given. -/
theorem before_of_split (history : History overflowChecks policy b initial handled actor restarts)
    {earlier later : List (Handling A M)} {h : Handling A M} (split : handled = earlier ++ h :: later) :
    h.outcome = (b.handle earlier.length h.seen h.msg).2 ∧
      (∃ restarts', History overflowChecks policy b initial earlier h.seen restarts') ∧
      (h.outcome = .panicked → Recovers overflowChecks policy b earlier) := by
  induction history generalizing later with
  | nil => simp at split
  | @returned before_ actor restarts msg before ran inductionHypothesis =>
      rcases List.eq_nil_or_concat' later with rfl | ⟨front, last, rfl⟩
      · obtain ⟨rfl, same⟩ := List.append_inj' split rfl
        cases same
        exact ⟨ran.symm, ⟨_, before⟩, fun broke => nomatch broke⟩
      · rw [← List.cons_append, ← List.append_assoc] at split
        exact inductionHypothesis (List.append_inj' split rfl).1
  | @recovered before_ actor restarts restarts' msg before ran allowed made restarted dropped
      inductionHypothesis =>
      rcases List.eq_nil_or_concat' later with rfl | ⟨front, last, rfl⟩
      · obtain ⟨rfl, same⟩ := List.append_inj' split rfl
        cases same
        exact ⟨ran.symm, ⟨_, before⟩, fun _ =>
          ⟨⟨_, _, before.grantAll_eq, allowed⟩, made, restarted, dropped⟩⟩
      · rw [← List.cons_append, ← List.append_assoc] at split
        exact inductionHypothesis (List.append_inj' split rfl).1

/-- While no call has panicked the actor is the initial one with the messages folded in. -/
theorem actor_of_calm (history : History overflowChecks policy b initial handled actor restarts)
    (calm : ∀ h ∈ handled, h.outcome ≠ .panicked) :
    actor = b.fold 0 initial (handled.map (·.msg)) := by
  induction history with
  | nil => rfl
  | @returned earlier actor restarts msg before ran inductionHypothesis =>
      have same := inductionHypothesis fun h member => calm h (List.mem_append_left _ member)
      rw [List.map_append, List.map_singleton, Behaviour.fold_snoc, List.length_map, Nat.zero_add,
        ← same]
  | recovered before ran allowed made restarted dropped inductionHypothesis =>
      exact absurd rfl (calm _ (List.mem_append_right _ List.mem_cons_self))

/-- Behind the latest panic the actor is the fresh instance with the later messages folded in. -/
theorem actor_of_panic (history : History overflowChecks policy b initial handled actor restarts)
    {earlier segment : List (Handling A M)} {broken : Handling A M}
    (split : handled = earlier ++ broken :: segment) (panicked : broken.outcome = .panicked)
    (calm : ∀ h ∈ segment, h.outcome ≠ .panicked) :
    actor = b.fold (earlier.length + 1) (b.fresh earlier.length) (segment.map (·.msg)) := by
  induction history generalizing segment with
  | nil => simp at split
  | @returned before_ actor restarts msg before ran inductionHypothesis =>
      rcases List.eq_nil_or_concat' segment with rfl | ⟨front, last, rfl⟩
      · obtain ⟨rfl, same⟩ := List.append_inj' split rfl
        cases same
        cases panicked
      · rw [← List.cons_append, ← List.append_assoc] at split
        obtain ⟨rfl, same⟩ := List.append_inj' split rfl
        cases same
        have same := inductionHypothesis rfl fun h member => calm h (List.mem_append_left _ member)
        have place : (earlier ++ broken :: front).length = earlier.length + 1 + front.length := by
          simp only [List.length_append, List.length_cons]
          omega
        rw [List.map_append, List.map_singleton, Behaviour.fold_snoc, List.length_map, ← place, ← same]
  | @recovered before_ actor restarts restarts' msg before ran allowed made restarted dropped
      inductionHypothesis =>
      rcases List.eq_nil_or_concat' segment with rfl | ⟨front, last, rfl⟩
      · obtain ⟨rfl, _⟩ := List.append_inj' split rfl
        rfl
      · rw [← List.cons_append, ← List.append_assoc] at split
        obtain ⟨_, same⟩ := List.append_inj' split rfl
        cases same
        exact absurd rfl (calm _ (List.mem_append_right _ List.mem_cons_self))

end History

/-! ### The invariant of the polls -/

section Polls

variable (overflowChecks : Bool) (policy : RestartPolicy) (b : Behaviour A M) (initial : A)

/-- The call number `earlier.length` has panicked, at a time when the tracker stood at `restarts`. -/
structure Broke (handled earlier : List (Handling A M)) (broken : Handling A M)
    (restarts : RestartState) : Prop where
  handled_eq : handled = earlier ++ [broken]
  history : History overflowChecks policy b initial earlier broken.seen restarts
  panicked : broken.outcome = .panicked
  ran : (b.handle earlier.length broken.seen broken.msg).2 = .panicked

/-- How far `poll_one` has come behind the panic of message `n`: the tracker stood at `before` and
    stands at `now`. -/
def Stage (n : Nat) (before now : RestartState) : PollPc A M → Prop
  | .broken => now = before
  | .make => allowRestart overflowChecks policy before (b.now n) = some (true, now)
  | .onRestart fresh =>
      allowRestart overflowChecks policy before (b.now n) = some (true, now) ∧
        (b.make n).2 = .returned ∧ fresh = (b.make n).1
  | .replace fresh =>
      allowRestart overflowChecks policy before (b.now n) = some (true, now) ∧
        (b.make n).2 = .returned ∧ (b.onRestart n (b.make n).1).2 = .returned ∧ fresh = b.fresh n
  | .returned .panicked =>
      (∃ restarts, allowRestart overflowChecks policy before (b.now n) = some (false, restarts)) ∨
        (∃ restarts, allowRestart overflowChecks policy before (b.now n) = some (true, restarts)) ∧
          ((b.make n).2 = .panicked ∨ (b.make n).2 = .returned ∧
            (b.onRestart n (b.make n).1).2 = .panicked)
  | _ => False

/-- `poll_one` is not behind a panic. -/
def PollPc.Settled : PollPc A M → Prop
  | .recv | .handle _ | .returned .worked | .returned .empty => True
  | _ => False

structure SupervisedInv (s : Supervised A M) : Prop where
  arrived : s.arrived = s.handled.map (·.msg) ++ s.pc.inHand ++ s.mailbox
  factory : s.cell.factory = true
  restartPolicy : s.cell.restartPolicy = policy
  taken : s.cell.taken = s.handled.length + s.pc.inHand.length
  stands :
    s.pc.Settled ∧ History overflowChecks policy b initial s.handled s.cell.actor s.cell.restarts ∨
      ∃ earlier broken restarts,
        Broke overflowChecks policy b initial s.handled earlier broken restarts ∧
          Stage overflowChecks policy b earlier.length restarts s.cell.restarts s.pc
  /-- A step that leaves `poll_one` leaves the cell as it was. -/
  left : s.lost = true → pollStep overflowChecks s.cell s.pc (s.answer b) = some .unwound ∨
    pollStep overflowChecks s.cell s.pc (s.answer b) = some .aborted

end Polls

/-- What one step of a supervised cell can be. -/
inductive SupervisedMove (overflowChecks : Bool) (b : Behaviour A M) (s : Supervised A M) :
    SupervisedAct M → Supervised A M → Prop
  | arrives {msg : M} : SupervisedMove overflowChecks b s (.arrive msg)
      { s with mailbox := s.mailbox ++ [msg], arrived := s.arrived ++ [msg] }
  | polls (calm : s.pc = .returned .worked ∨ s.pc = .returned .empty) :
      SupervisedMove overflowChecks b s .poll { s with pc := .recv }
  | goesOn {cell : Cell A} {pc : PollPc A M} {events : List (Nat × Event A M)} (here : s.lost = false)
      (move : PollMove overflowChecks s.cell s.pc (s.answer b) cell pc events) :
      SupervisedMove overflowChecks b s .step
        { s with cell := cell, pc := pc, mailbox := s.left, handled := s.handled ++ handlings events }
  | leaves (here : s.lost = false)
      (away : pollStep overflowChecks s.cell s.pc (s.answer b) = some .unwound ∨
        pollStep overflowChecks s.cell s.pc (s.answer b) = some .aborted) :
      SupervisedMove overflowChecks b s .step { s with lost := true }

theorem supervisedMove_of_step {overflowChecks : Bool} {b : Behaviour A M} {s t : Supervised A M}
    {a : SupervisedAct M} (stepped : s.step overflowChecks b a = some t) :
    SupervisedMove overflowChecks b s a t := by
  cases a with
  | arrive msg =>
      cases stepped
      exact .arrives
  | poll =>
      rw [Supervised.step] at stepped
      split at stepped
      · rename_i worked
        cases stepped
        exact .polls (.inl worked)
      · rename_i empty
        cases stepped
        exact .polls (.inr empty)
      · cases stepped
  | step =>
      rw [Supervised.step] at stepped
      split at stepped
      · cases stepped
      · rename_i here
        rw [Bool.not_eq_true] at here
        obtain ⟨next, polled, same⟩ := Option.map_eq_some_iff.1 stepped
        cases next with
        | goOn cell pc events =>
            cases same
            exact .goesOn here (pollMove_of_pollStep polled)
        | unwound =>
            cases same
            exact .leaves here (.inl polled)
        | aborted =>
            cases same
            exact .leaves here (.inr polled)

namespace SupervisedInv

variable {overflowChecks : Bool} {policy : RestartPolicy} {b : Behaviour A M} {initial : A}
  {s t : Supervised A M}

theorem start : SupervisedInv overflowChecks policy b initial (.start initial policy) where
  arrived := rfl
  factory := rfl
  restartPolicy := rfl
  taken := rfl
  stands := .inl ⟨trivial, .nil⟩
  left lost := nomatch lost

theorem history_of_settled (inv : SupervisedInv overflowChecks policy b initial s)
    (settled : s.pc.Settled) :
    History overflowChecks policy b initial s.handled s.cell.actor s.cell.restarts := by
  rcases inv.stands with ⟨_, history⟩ | ⟨_, _, _, _, stage⟩
  · exact history
  · cases at_ : s.pc with
    | recv | handle =>
        rw [at_] at stage
        exact stage.elim
    | returned outcome =>
        cases outcome with
        | worked | empty =>
            rw [at_] at stage
            exact stage.elim
        | panicked =>
            rw [at_] at settled
            exact settled.elim
    | _ =>
        rw [at_] at settled
        exact settled.elim

/-- Behind a panic the messages are numbered by the calls before it. -/
theorem broke_of_not_settled (inv : SupervisedInv overflowChecks policy b initial s)
    (unsettled : ¬ s.pc.Settled) : ∃ earlier broken restarts,
      Broke overflowChecks policy b initial s.handled earlier broken restarts ∧
        Stage overflowChecks policy b earlier.length restarts s.cell.restarts s.pc ∧
        s.cell.taken - 1 = earlier.length := by
  rcases inv.stands with ⟨settled, _⟩ | ⟨earlier, broken, restarts, broke, stage⟩
  · exact absurd settled unsettled
  · refine ⟨earlier, broken, restarts, broke, stage, ?_⟩
    have nothing : s.pc.inHand = [] := by
      cases at_ : s.pc with
      | handle msg =>
          rw [at_] at unsettled
          exact absurd trivial unsettled
      | _ => rfl
    rw [inv.taken, nothing, broke.handled_eq, List.length_append]
    rfl

/-- A step behind a panic touches neither the mailbox nor the calls of `handle`. -/
theorem rebuilds (inv : SupervisedInv overflowChecks policy b initial s) (here : s.lost = false)
    (unsettled : ¬ s.pc.Settled) {cell : Cell A} {pc : PollPc A M} {events : List (Nat × Event A M)}
    (silent : handlings events = []) (factory : cell.factory = true)
    (samePolicy : cell.restartPolicy = policy) (sameTaken : cell.taken = s.cell.taken)
    (next : pc.inHand = [])
    (stands : pc.Settled ∧
        History overflowChecks policy b initial s.handled cell.actor cell.restarts ∨
      ∃ earlier broken restarts,
        Broke overflowChecks policy b initial s.handled earlier broken restarts ∧
          Stage overflowChecks policy b earlier.length restarts cell.restarts pc) :
    SupervisedInv overflowChecks policy b initial
      { s with cell := cell, pc := pc, mailbox := s.left,
               handled := s.handled ++ handlings events } := by
  have nothing : s.pc.inHand = [] ∧ s.left = s.mailbox := by
    rw [Supervised.left]
    cases at_ : s.pc with
    | recv | handle =>
        rw [at_] at unsettled
        exact absurd trivial unsettled
    | _ => exact ⟨rfl, rfl⟩
  rw [silent, List.append_nil, nothing.2]
  refine ⟨?_, factory, samePolicy, ?_, stands, fun gone => absurd (here.symm.trans gone) (by decide)⟩
  · rw [next]
    rw [inv.arrived, nothing.1]
  · rw [next, sameTaken, inv.taken, nothing.1]

/-- A step that stays inside `poll_one`. -/
theorem goesOn (inv : SupervisedInv overflowChecks policy b initial s) (here : s.lost = false)
    {cell : Cell A} {pc : PollPc A M} {events : List (Nat × Event A M)}
    (move : PollMove overflowChecks s.cell s.pc (s.answer b) cell pc events) :
    SupervisedInv overflowChecks policy b initial
      { s with cell := cell, pc := pc, mailbox := s.left,
               handled := s.handled ++ handlings events } := by
  obtain ⟨cell₀, mailbox, pc₀, arrived, handled, lost⟩ := s
  have stays : ∀ P : Prop, lost = true → P := fun P gone => absurd (here.symm.trans gone) (by decide)
  have accounted := inv.arrived
  have counted := inv.taken
  generalize told : Supervised.answer b _ = input at move
  cases move with
  | empty =>
      have settled := inv.history_of_settled trivial
      cases mailbox with
      | nil =>
          refine ⟨accounted.trans (by simp [PollPc.inHand, handlings, Supervised.left]), inv.factory,
            inv.restartPolicy, counted.trans (by simp [PollPc.inHand, handlings]), .inl ⟨trivial, ?_⟩,
            stays _⟩
          simpa [handlings] using settled
      | cons msg rest => cases told
  | takes =>
      have settled := inv.history_of_settled trivial
      cases mailbox with
      | nil => cases told
      | cons msg rest =>
          cases told
          refine ⟨accounted.trans (by simp [PollPc.inHand, handlings, Supervised.left]), inv.factory,
            inv.restartPolicy, ?_, .inl ⟨trivial, ?_⟩, stays _⟩
          · simpa [PollPc.inHand, handlings] using counted
          · simpa [handlings] using settled
  | @handled msg after =>
      have settled := inv.history_of_settled trivial
      have number : cell₀.taken - 1 = handled.length := by
        rw [show cell₀.taken = handled.length + 1 from counted, Nat.add_sub_cancel]
      simp only [Supervised.answer, number, Input.ran.injEq] at told
      obtain ⟨rfl, ran⟩ := told
      refine ⟨accounted.trans (by simp [PollPc.inHand, handlings, Supervised.left]), inv.factory,
        inv.restartPolicy, ?_, .inl ⟨trivial, settled.returned ran⟩, stays _⟩
      simpa [PollPc.inHand, handlings] using counted
  | @broke msg after =>
      have settled := inv.history_of_settled trivial
      have number : cell₀.taken - 1 = handled.length := by
        rw [show cell₀.taken = handled.length + 1 from counted, Nat.add_sub_cancel]
      simp only [Supervised.answer, number, Input.ran.injEq] at told
      refine ⟨accounted.trans (by simp [PollPc.inHand, handlings, Supervised.left]), inv.factory,
        inv.restartPolicy, ?_,
        .inr ⟨handled, ⟨cell₀.actor, msg, .panicked⟩, _, ⟨rfl, settled, rfl, told.2⟩, rfl⟩, stays _⟩
      simpa [PollPc.inHand, handlings] using counted
  | unsupervised none_ => exact absurd (none_.symm.trans inv.factory) (by decide)
  | @decided time allowed restarts some_ verdict =>
      obtain ⟨earlier, broken, before, broke, stage, number⟩ := inv.broke_of_not_settled id
      have asked : b.now earlier.length = time := by
        simpa only [Supervised.answer, if_pos some_, number, Input.now.injEq] using told
      subst asked
      rw [show cell₀.restarts = before from stage,
        show cell₀.restartPolicy = policy from inv.restartPolicy] at verdict
      refine inv.rebuilds here id rfl inv.factory inv.restartPolicy rfl ?_ (.inr ⟨_, _, _, broke, ?_⟩)
      · cases allowed <;> rfl
      · cases allowed with
        | true => exact verdict
        | false => exact .inl ⟨_, verdict⟩
  | @made fresh =>
      obtain ⟨earlier, broken, before, broke, stage, number⟩ := inv.broke_of_not_settled id
      simp only [Supervised.answer, number, Input.ran.injEq] at told
      exact inv.rebuilds here id rfl inv.factory inv.restartPolicy rfl rfl
        (.inr ⟨_, _, _, broke, stage, told.2, told.1.symm⟩)
  | @makeFailed fresh =>
      obtain ⟨earlier, broken, before, broke, stage, number⟩ := inv.broke_of_not_settled id
      simp only [Supervised.answer, number, Input.ran.injEq] at told
      exact inv.rebuilds here id rfl inv.factory inv.restartPolicy rfl rfl
        (.inr ⟨_, _, _, broke, .inr ⟨⟨_, stage⟩, .inl told.2⟩⟩)
  | @restarted fresh after =>
      obtain ⟨earlier, broken, before, broke, ⟨allowed, made, rfl⟩, number⟩ :=
        inv.broke_of_not_settled id
      simp only [Supervised.answer, number, Input.ran.injEq] at told
      exact inv.rebuilds here id rfl inv.factory inv.restartPolicy rfl rfl
        (.inr ⟨_, _, _, broke, allowed, made, told.2, told.1.symm⟩)
  | @restartFailed fresh after =>
      obtain ⟨earlier, broken, before, broke, ⟨allowed, made, rfl⟩, number⟩ :=
        inv.broke_of_not_settled id
      simp only [Supervised.answer, number, Input.ran.injEq] at told
      exact inv.rebuilds here id rfl inv.factory inv.restartPolicy rfl rfl
        (.inr ⟨_, _, _, broke, .inr ⟨⟨_, allowed⟩, .inr ⟨made, told.2⟩⟩⟩)
  | @replaced fresh =>
      obtain ⟨earlier, broken, before, broke, ⟨allowed, made, restarted, rfl⟩, number⟩ :=
        inv.broke_of_not_settled id
      simp only [Supervised.answer, number, Input.dropped.injEq] at told
      refine inv.rebuilds here id rfl inv.factory inv.restartPolicy rfl rfl (.inl ⟨trivial, ?_⟩)
      obtain ⟨rfl, history, panicked, ran⟩ := broke
      obtain ⟨seen, msg, outcome⟩ := broken
      cases panicked
      exact history.recovered ran allowed made restarted told

/-- A message that arrives does not change what `poll_one` is answered, except at `try_recv`. -/
theorem away_of_arrive {msg : M}
    (away : pollStep overflowChecks s.cell s.pc (s.answer b) = some .unwound ∨
      pollStep overflowChecks s.cell s.pc (s.answer b) = some .aborted) :
    s.answer b = Supervised.answer b
      { s with mailbox := s.mailbox ++ [msg], arrived := s.arrived ++ [msg] } := by
  unfold Supervised.answer at away ⊢
  cases at_ : s.pc with
  | recv =>
      rw [at_] at away
      cases mailbox : s.mailbox with
      | nil => simp [mailbox, pollStep] at away
      | cons first rest => simp [mailbox, pollStep] at away
  | _ => rfl

theorem keeps {a : SupervisedAct M} (inv : SupervisedInv overflowChecks policy b initial s)
    (stepped : s.step overflowChecks b a = some t) :
    SupervisedInv overflowChecks policy b initial t := by
  cases supervisedMove_of_step stepped with
  | arrives =>
      refine ⟨?_, inv.factory, inv.restartPolicy, inv.taken, inv.stands, fun gone => ?_⟩
      · rw [inv.arrived, List.append_assoc]
      · rw [← away_of_arrive (inv.left gone)]
        exact inv.left gone
  | polls calm =>
      have settled : s.pc.Settled ∧ s.pc.inHand = [] := by
        rcases calm with worked | empty
        · rw [worked]
          exact ⟨trivial, rfl⟩
        · rw [empty]
          exact ⟨trivial, rfl⟩
      refine ⟨?_, inv.factory, inv.restartPolicy, ?_,
        .inl ⟨trivial, inv.history_of_settled settled.1⟩, fun gone => ?_⟩
      · rw [inv.arrived, settled.2]
        rfl
      · rw [inv.taken, settled.2]
        rfl
      · rcases calm with at_ | at_
        all_goals
          have away := inv.left gone
          rw [Supervised.answer, at_] at away
          rcases away with away | away <;> cases away
  | goesOn here move => exact inv.goesOn here move
  | leaves here away =>
      exact ⟨inv.arrived, inv.factory, inv.restartPolicy, inv.taken, inv.stands, fun _ => away⟩

/-- A panic that has left `poll_one`, or an abort. -/
theorem escapes_of_lost (inv : SupervisedInv overflowChecks policy b initial s) (gone : s.lost = true) :
    (∃ msg, s.pc = .handle msg ∧ (b.handle s.handled.length s.cell.actor msg).2 = .aborted) ∨
      ∃ earlier broken, s.handled = earlier ++ [broken] ∧ broken.outcome = .panicked ∧
        ¬ s.pc.Settled ∧ Escapes overflowChecks policy b earlier := by
  have away := inv.left gone
  rw [Supervised.answer] at away
  cases at_ : s.pc with
  | recv =>
      rw [at_] at away
      cases mailbox : s.mailbox with
      | nil => simp [mailbox, pollStep] at away
      | cons first rest => simp [mailbox, pollStep] at away
  | handle msg =>
      have number : s.cell.taken - 1 = s.handled.length := by
        rw [inv.taken, at_]
        rfl
      rw [at_, number] at away
      cases ran : (b.handle s.handled.length s.cell.actor msg).2 with
      | aborted => exact .inl ⟨msg, rfl, ran⟩
      | returned | panicked => simp [pollStep, ran] at away
  | returned outcome => simp [at_, pollStep] at away
  | broken =>
      obtain ⟨earlier, broken, before, broke, stage, number⟩ :=
        inv.broke_of_not_settled (at_ ▸ id)
      rw [at_] at stage away
      refine .inr ⟨earlier, broken, broke.handled_eq, broke.panicked, id, before,
        broke.history.grantAll_eq, .inl ?_⟩
      rw [number, inv.factory, if_pos rfl] at away
      cases verdict : allowRestart overflowChecks policy before (b.now earlier.length) with
      | none => rfl
      | some pair =>
          rw [← show s.cell.restarts = before from stage, ← inv.restartPolicy] at verdict
          simp [pollStep, inv.factory, verdict] at away
  | make =>
      obtain ⟨earlier, broken, before, broke, stage, number⟩ :=
        inv.broke_of_not_settled (at_ ▸ id)
      rw [at_] at stage away
      refine .inr ⟨earlier, broken, broke.handled_eq, broke.panicked, id, before,
        broke.history.grantAll_eq, .inr ⟨⟨_, stage⟩, .inl ?_⟩⟩
      rw [number] at away
      cases ran : (b.make earlier.length).2 with
      | aborted => rfl
      | returned | panicked => simp [pollStep, ran] at away
  | onRestart fresh =>
      obtain ⟨earlier, broken, before, broke, stage, number⟩ :=
        inv.broke_of_not_settled (at_ ▸ id)
      rw [at_] at stage away
      obtain ⟨allowed, made, rfl⟩ := stage
      refine .inr ⟨earlier, broken, broke.handled_eq, broke.panicked, id, before,
        broke.history.grantAll_eq, .inr ⟨⟨_, allowed⟩, .inr ⟨made, .inl ?_⟩⟩⟩
      rw [number] at away
      cases ran : (b.onRestart earlier.length (b.make earlier.length).1).2 with
      | aborted => rfl
      | returned | panicked => simp [pollStep, ran] at away
  | replace fresh =>
      obtain ⟨earlier, broken, before, broke, stage, number⟩ :=
        inv.broke_of_not_settled (at_ ▸ id)
      rw [at_] at stage away
      obtain ⟨allowed, made, restarted, rfl⟩ := stage
      refine .inr ⟨earlier, broken, broke.handled_eq, broke.panicked, id, before,
        broke.history.grantAll_eq, .inr ⟨⟨_, allowed⟩, .inr ⟨made, .inr ⟨restarted, ?_⟩⟩⟩⟩
      intro dropped
      rw [number] at away
      simp [pollStep, dropped] at away

end SupervisedInv

theorem GivesUp.not_recovers {overflowChecks : Bool} {policy : RestartPolicy} {b : Behaviour A M}
    {earlier : List (Handling A M)} (gives : GivesUp overflowChecks policy b earlier) :
    ¬ Recovers overflowChecks policy b earlier := by
  rintro ⟨⟨restarts, restarts', granted, allowed⟩, made, restarted, dropped⟩
  obtain ⟨_, granted', refused⟩ := gives
  cases granted.symm.trans granted'
  rcases refused with ⟨_, refused⟩ | ⟨_, makeFailed | ⟨_, restartFailed⟩⟩
  · cases refused.symm.trans allowed
  · cases makeFailed.symm.trans made
  · cases restartFailed.symm.trans restarted

theorem Escapes.not_recovers {overflowChecks : Bool} {policy : RestartPolicy} {b : Behaviour A M}
    {earlier : List (Handling A M)} (escapes : Escapes overflowChecks policy b earlier) :
    ¬ Recovers overflowChecks policy b earlier := by
  rintro ⟨⟨restarts, restarts', granted, allowed⟩, made, restarted, dropped⟩
  obtain ⟨_, granted', away⟩ := escapes
  cases granted.symm.trans granted'
  rcases away with overflowed | ⟨_, aborted | ⟨_, aborted | ⟨_, lost⟩⟩⟩
  · cases overflowed.symm.trans allowed
  · cases aborted.symm.trans made
  · cases aborted.symm.trans restarted
  · exact lost dropped

theorem Escapes.not_givesUp {overflowChecks : Bool} {policy : RestartPolicy} {b : Behaviour A M}
    {earlier : List (Handling A M)} (escapes : Escapes overflowChecks policy b earlier) :
    ¬ GivesUp overflowChecks policy b earlier := by
  rintro ⟨_, granted, refused⟩
  obtain ⟨_, granted', away⟩ := escapes
  cases granted.symm.trans granted'
  grind

/-! ### The calls come back -/

/-- `poll_one` goes on by itself. -/
def OnlySteps (_ : Supervised A M) (a : SupervisedAct M) : Prop := a = .step

/-- Behind a panic `poll_one` calls `handle` no more. -/
theorem silent_of_pollMove {overflowChecks : Bool} {cell cell' : Cell A} {pc pc' : PollPc A M}
    {input : Input A M} {events : List (Nat × Event A M)}
    (move : PollMove overflowChecks cell pc input cell' pc' events) (unsettled : ¬ pc.Settled) :
    handlings events = [] ∧ (pc' = .returned .worked ∨ ¬ pc'.Settled) := by
  cases move with
  | empty | takes | handled | broke => exact absurd trivial unsettled
  | @decided time allowed restarts some_ verdict => cases allowed <;> exact ⟨rfl, .inr id⟩
  | replaced => exact ⟨rfl, .inl rfl⟩
  | _ => exact ⟨rfl, .inr id⟩

namespace Supervised

variable {overflowChecks : Bool} {policy : RestartPolicy} {b : Behaviour A M} {initial : A}
  {s : Supervised A M}

theorem step_enabled (inv : SupervisedInv overflowChecks policy b initial s) (here : s.lost = false)
    (running : ∀ outcome, s.pc ≠ .returned outcome) :
    ∃ t, s.step overflowChecks b .step = some t := by
  have answered : ∃ next, pollStep overflowChecks s.cell s.pc (s.answer b) = some next := by
    rw [Supervised.answer]
    cases at_ : s.pc with
    | recv => cases s.mailbox <;> exact ⟨_, rfl⟩
    | handle msg =>
        cases ran : (b.handle (s.cell.taken - 1) s.cell.actor msg).2 <;> simp [pollStep, ran]
    | broken =>
        cases verdict : allowRestart overflowChecks s.cell.restartPolicy s.cell.restarts
            (b.now (s.cell.taken - 1)) <;> simp [pollStep, inv.factory, verdict]
    | make => cases (b.make (s.cell.taken - 1)).2 <;> simp [pollStep]
    | onRestart fresh => cases ran : (b.onRestart (s.cell.taken - 1) fresh).2 <;> simp [pollStep, ran]
    | replace fresh => cases b.dropBroken (s.cell.taken - 1) <;> simp [pollStep]
    | returned outcome => exact absurd at_ (running outcome)
  obtain ⟨next, polled⟩ := answered
  rw [Supervised.step, here, polled]
  exact ⟨_, rfl⟩

/-- A `poll_one` call comes back or is lost. Behind a panic it takes nothing from the mailbox. -/
theorem comes_back (inv : SupervisedInv overflowChecks policy b initial s) (here : s.lost = false) :
    Inevitable (Supervised.step overflowChecks b) OnlySteps
      (fun t => SupervisedInv overflowChecks policy b initial t ∧
        (t.lost = true ∨ ∃ outcome, t.pc = .returned outcome) ∧
        (¬ s.pc.Settled → (t.pc = .returned .worked ∨ ¬ t.pc.Settled) ∧ t.handled = s.handled ∧
          t.mailbox = s.mailbox)) s := by
  by_cases running : ∀ outcome, s.pc ≠ .returned outcome
  · refine .of_rank (P := fun u => SupervisedInv overflowChecks policy b initial u ∧ u.lost = false ∧
        (∀ outcome, u.pc ≠ .returned outcome) ∧
        (¬ s.pc.Settled → ¬ u.pc.Settled ∧ u.handled = s.handled ∧ u.mailbox = s.mailbox))
      (fun u => u.pc.rank) ?_ ?_ ⟨inv, here, running, fun unsettled => ⟨unsettled, rfl, rfl⟩⟩
    · rintro u ⟨inv, here, running, _⟩
      obtain ⟨v, stepped⟩ := step_enabled inv here running
      exact ⟨.step, v, rfl, stepped⟩
    · rintro u a v ⟨inv, here, running, frame⟩ rfl stepped
      have kept := inv.keeps stepped
      cases supervisedMove_of_step stepped with
      | @goesOn cell pc events _ move =>
          have frame' : ¬ s.pc.Settled → (pc = .returned .worked ∨ ¬ pc.Settled) ∧
              u.handled ++ handlings events = s.handled ∧ u.left = s.mailbox := by
            intro unsettled
            obtain ⟨unsettled', sameHandled, sameMailbox⟩ := frame unsettled
            obtain ⟨silent, behind⟩ := silent_of_pollMove move unsettled'
            rw [silent, List.append_nil]
            refine ⟨behind, sameHandled, ?_⟩
            rw [← sameMailbox, Supervised.left]
            cases at_ : u.pc with
            | recv =>
                rw [at_] at unsettled'
                exact absurd trivial unsettled'
            | _ => rfl
          by_cases halted : ∃ outcome, pc = .returned outcome
          · exact .inl ⟨kept, .inr halted, frame'⟩
          · refine .inr ⟨⟨kept, here, fun outcome is => halted ⟨outcome, is⟩, fun unsettled => ?_⟩,
              rank_lt_of_pollMove move⟩
            obtain ⟨behind, same⟩ := frame' unsettled
            exact ⟨behind.resolve_left fun is => halted ⟨_, is⟩, same⟩
      | leaves _ away =>
          refine .inl ⟨kept, .inl rfl, fun unsettled => ?_⟩
          obtain ⟨unsettled', same⟩ := frame unsettled
          exact ⟨.inr unsettled', same⟩
  · rw [not_forall_not] at running
    exact .here ⟨inv, .inr running, fun unsettled => ⟨.inr unsettled, rfl, rfl⟩⟩

end Supervised

/-! ### The law of a supervised cell -/

/-- What holds of a supervised cell at every moment of its polls, up to the first `Panicked`. -/
structure SupervisedLaw (overflowChecks : Bool) (policy : RestartPolicy) (b : Behaviour A M) (initial : A)
    (s : Supervised A M) : Prop where
  /-- Every message taken was given to `handle` once, in mailbox order, or is about to be; the others
      are in the mailbox. -/
  order : s.arrived = s.handled.map (·.msg) ++ s.pc.inHand ++ s.mailbox
  /-- Every call of `handle` was a call on the value it saw, and ended as user code says. -/
  calls : ∀ earlier h later, s.handled = earlier ++ h :: later →
    h.outcome = (b.handle earlier.length h.seen h.msg).2
  /-- Before the first panic a message sees the initial instance with all earlier ones folded in. -/
  sees_initial : ∀ earlier h later, s.handled = earlier ++ h :: later →
    (∀ g ∈ earlier, g.outcome ≠ .panicked) → h.seen = b.fold 0 initial (earlier.map (·.msg))
  /-- Behind a panic it sees the fresh instance with those after the latest panic folded in. -/
  sees_fresh : ∀ earlier broken segment h later,
    s.handled = earlier ++ broken :: (segment ++ h :: later) → broken.outcome = .panicked →
      (∀ g ∈ segment, g.outcome ≠ .panicked) →
        h.seen = b.fold (earlier.length + 1) (b.fresh earlier.length) (segment.map (·.msg))
  /-- A message is taken behind a panic only after a restart that went through. -/
  recovered : ∀ earlier broken later, s.handled = earlier ++ broken :: later →
    broken.outcome = .panicked → later ≠ [] ∨ s.pc.Settled → Recovers overflowChecks policy b earlier
  /-- `Panicked` is reported only where a restart is refused, or the factory or `on_restart` panics. -/
  panicked_only : s.pc = .returned .panicked → ∃ earlier broken, s.handled = earlier ++ [broken] ∧
    broken.outcome = .panicked ∧ GivesUp overflowChecks policy b earlier
  /-- Behind a panic `poll_one` goes on to report `Panicked` where the restart fails, and `Worked` on
      the fresh instance where it goes through. It takes nothing more from the mailbox. -/
  reports : ∀ earlier broken, s.handled = earlier ++ [broken] → ¬ s.pc.Settled → s.lost = false →
    Inevitable (Supervised.step overflowChecks b) OnlySteps
      (fun t => t.handled = s.handled ∧ t.mailbox = s.mailbox ∧
        (GivesUp overflowChecks policy b earlier → t.pc = .returned .panicked) ∧
        (Recovers overflowChecks policy b earlier →
          t.pc = .returned .worked ∧ t.cell.actor = b.fresh earlier.length)) s
  /-- Every call of `poll_one` comes back, unless a panic leaves it or the process is aborted. -/
  returns : s.lost = false → Inevitable (Supervised.step overflowChecks b) OnlySteps
    (fun t => t.lost = true ∨ ∃ outcome, t.pc = .returned outcome) s
  /-- Which is the doing of a destructor, or of a counter that overflows. -/
  lost_only : s.lost = true →
    (∃ msg, s.pc = .handle msg ∧ (b.handle s.handled.length s.cell.actor msg).2 = .aborted) ∨
      ∃ earlier broken, s.handled = earlier ++ [broken] ∧ broken.outcome = .panicked ∧
        Escapes overflowChecks policy b earlier

namespace SupervisedInv

variable {overflowChecks : Bool} {policy : RestartPolicy} {b : Behaviour A M} {initial : A}
  {s : Supervised A M}

/-- Every call is preceded by a history that ends with the value it was given. -/
theorem before_call (inv : SupervisedInv overflowChecks policy b initial s)
    {earlier later : List (Handling A M)} {h : Handling A M} (split : s.handled = earlier ++ h :: later) :
    h.outcome = (b.handle earlier.length h.seen h.msg).2 ∧
      (∃ restarts, History overflowChecks policy b initial earlier h.seen restarts) ∧
      (h.outcome = .panicked → later ≠ [] ∨ s.pc.Settled →
        Recovers overflowChecks policy b earlier) := by
  by_cases settled : s.pc.Settled
  · obtain ⟨ran, before, recovers⟩ := (inv.history_of_settled settled).before_of_split split
    exact ⟨ran, before, fun panicked _ => recovers panicked⟩
  · obtain ⟨earlier', broken, restarts, broke, _, _⟩ := inv.broke_of_not_settled settled
    rw [broke.handled_eq] at split
    rcases List.eq_nil_or_concat' later with rfl | ⟨front, last, rfl⟩
    · obtain ⟨rfl, same⟩ := List.append_inj' split rfl
      cases same
      refine ⟨broke.panicked.trans broke.ran.symm, ⟨_, broke.history⟩, fun _ there => ?_⟩
      exact absurd rfl (there.resolve_right settled)
    · rw [← List.cons_append, ← List.append_assoc] at split
      obtain ⟨ran, before, recovers⟩ := broke.history.before_of_split (List.append_inj' split rfl).1
      exact ⟨ran, before, fun panicked _ => recovers panicked⟩

theorem givesUp_of_returned (inv : SupervisedInv overflowChecks policy b initial s)
    (at_ : s.pc = .returned .panicked) : ∃ earlier broken, s.handled = earlier ++ [broken] ∧
      broken.outcome = .panicked ∧ GivesUp overflowChecks policy b earlier := by
  obtain ⟨earlier, broken, restarts, broke, stage, _⟩ := inv.broke_of_not_settled (at_ ▸ id)
  rw [at_] at stage
  exact ⟨earlier, broken, broke.handled_eq, broke.panicked, restarts, broke.history.grantAll_eq, stage⟩

/-- When `poll_one` is over, its verdict on a panic is the one the reference gives. -/
theorem verdict (inv : SupervisedInv overflowChecks policy b initial s)
    {earlier : List (Handling A M)} {broken : Handling A M} (handled : s.handled = earlier ++ [broken])
    (panicked : broken.outcome = .panicked)
    (behind : s.pc = .returned .worked ∨ ¬ s.pc.Settled)
    (halted : s.lost = true ∨ ∃ outcome, s.pc = .returned outcome) :
    (GivesUp overflowChecks policy b earlier → s.pc = .returned .panicked) ∧
      (Recovers overflowChecks policy b earlier →
        s.pc = .returned .worked ∧ s.cell.actor = b.fresh earlier.length) := by
  rcases halted with gone | ⟨outcome, at_⟩
  · rcases inv.escapes_of_lost gone with ⟨msg, at_, _⟩ | ⟨earlier', broken', handled', _, _, escapes⟩
    · rw [at_] at behind
      exact behind.elim nofun fun unsettled => absurd trivial unsettled
    · obtain ⟨rfl, _⟩ := List.append_inj' (handled.symm.trans handled') rfl
      exact ⟨fun gives => absurd gives escapes.not_givesUp,
        fun recovers => absurd recovers escapes.not_recovers⟩
  · cases outcome with
    | worked =>
        have settled : s.pc.Settled := at_ ▸ trivial
        have recovers := (inv.before_call handled).2.2 panicked (.inr settled)
        refine ⟨fun gives => absurd recovers gives.not_recovers, fun _ => ⟨at_, ?_⟩⟩
        exact (inv.history_of_settled settled).actor_of_panic handled panicked nofun
    | empty =>
        rw [at_] at behind
        exact behind.elim nofun fun unsettled => absurd trivial unsettled
    | panicked =>
        obtain ⟨earlier', broken', handled', _, gives⟩ := inv.givesUp_of_returned at_
        obtain ⟨rfl, _⟩ := List.append_inj' (handled.symm.trans handled') rfl
        exact ⟨fun _ => at_, fun recovers => absurd recovers gives.not_recovers⟩

theorem law (inv : SupervisedInv overflowChecks policy b initial s) :
    SupervisedLaw overflowChecks policy b initial s where
  order := inv.arrived
  calls earlier h later split := (inv.before_call split).1
  sees_initial earlier h later split calm := by
    obtain ⟨_, before⟩ := (inv.before_call split).2.1
    exact before.actor_of_calm calm
  sees_fresh earlier broken segment h later split panicked calm := by
    rw [← List.cons_append, ← List.append_assoc] at split
    obtain ⟨_, before⟩ := (inv.before_call split).2.1
    exact before.actor_of_panic rfl panicked calm
  recovered earlier broken later split := (inv.before_call split).2.2
  panicked_only := inv.givesUp_of_returned
  reports earlier broken handled unsettled here := by
    obtain ⟨earlier', broken', _, broke, _, _⟩ := inv.broke_of_not_settled unsettled
    obtain ⟨rfl, same⟩ := List.append_inj' (handled.symm.trans broke.handled_eq) rfl
    cases same
    refine (Supervised.comes_back inv here).mono ?_
    rintro t ⟨inv', halted, frame⟩
    obtain ⟨behind, sameHandled, sameMailbox⟩ := frame unsettled
    exact ⟨sameHandled, sameMailbox,
      inv'.verdict (sameHandled.trans handled) broke.panicked behind halted⟩
  returns here := (Supervised.comes_back inv here).mono fun t back => back.2.1
  lost_only gone := by
    rcases inv.escapes_of_lost gone with aborted | ⟨earlier, broken, handled, panicked, _, escapes⟩
    · exact .inl aborted
    · exact .inr ⟨earlier, broken, handled, panicked, escapes⟩

end SupervisedInv

/-- Every run of the polls of a supervised cell obeys the law, whatever user code and the clock do and
    whenever the messages arrive. -/
theorem supervised_of_run {overflowChecks : Bool} {policy : RestartPolicy} {b : Behaviour A M}
    {initial : A} {s : Supervised A M}
    (run : Reach (Supervised.step overflowChecks b) Free (.start initial policy) s) :
    SupervisedLaw overflowChecks policy b initial s := by
  refine SupervisedInv.law (run.invariant .start ?_)
  intro u a v inv _ stepped
  exact inv.keeps stepped

/-- A counter that panics on `0`, after it has written to its state. -/
def brittleCounter : Behaviour Nat Nat where
  handle _ count msg := if msg = 0 then (count + 100, .panicked) else (count + msg, .returned)
  now n := n
  make _ := (0, .returned)
  onRestart _ count := (count + 7, .returned)
  dropBroken _ := .returned

/-- The counter starts at 5 and may be restarted once. It sees 5 and 6, panics, sees the fresh 7 and 9,
    panics again and is given up; the message behind stays in the mailbox. -/
theorem supervised_of_run_twoPanics :
    ∃ s : Supervised Nat Nat, s.handled.map (·.seen) = [5, 6, 7, 9] ∧ s.pc = .returned .panicked ∧
      s.mailbox = [4] ∧ SupervisedLaw true (.limited 1 10) brittleCounter 5 s := by
  have executed : ∃ s, exec (Supervised.step true brittleCounter) (.start 5 (.limited 1 10))
        ([1, 0, 2, 0, 4].map .arrive ++
          [.step, .step, .poll, .step, .step, .step, .step, .step, .step, .poll, .step, .step, .poll,
            .step, .step, .step]) = some s ∧
      s.handled.map (·.seen) = [5, 6, 7, 9] ∧ s.pc = .returned .panicked ∧ s.mailbox = [4] :=
    ⟨_, rfl, rfl, rfl, rfl⟩
  obtain ⟨s, executed, seen, reported, behind⟩ := executed
  exact ⟨s, seen, reported, behind, supervised_of_run (reach_of_exec executed)⟩

end AetherFlow.System
