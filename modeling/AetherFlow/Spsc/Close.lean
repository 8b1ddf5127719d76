/-
Module: AetherFlow.Spsc.Close
Purpose: How the consumer learns that it is done. `closed` and `tail` are separate atomics, so a `try_pop`
  that finds nothing says little by itself; behind an `is_closed` that returned true it has seen the last
  `tail` there will be. Here the indices are as long as the items; the wrapped ones follow.
Trusted boundary: none
Main exports: CloseInv, CloseInv.step, Ended, CloseLaw, ChannelInv.closeLaw
-/
import AetherFlow.Spsc.Invariant

namespace AetherFlow.Spsc

open Transition

variable {w : Nat} {T : Type*} {s t : Channel w T} {a : Act T}

/-- `Producer::drop` has begun. -/
def ProducerState.dropped : ProducerState T → Bool
  | .closing | .gone => true
  | _ => false

/-- What the flag and the consumer's answers say about the two indices. -/
structure CloseInv (s : Channel w T) : Prop where
  dropped : s.ring.closed = true → s.producer.dropped = true
  /-- An `is_closed` that returned true has made the last `tail` visible. -/
  seen : s.closedSeen = true → s.ring.closed = true ∧ s.tailView = [s.ring.tail]
  verdict : s.consumer = .isClosed true → s.closedSeen = true
  drained : s.closedSeen = true → s.consumer = .pop (.returned none) → s.ring.head = s.ring.tail

/-- Both indices and all that is kept about the closing are as they were. -/
theorem CloseInv.same (inv : CloseInv s) (ring : t.ring.closed = s.ring.closed)
    (head : t.ring.head = s.ring.head) (tail : t.ring.tail = s.ring.tail)
    (dropped : s.producer.dropped = true → t.producer.dropped = true) (seen : t.closedSeen = s.closedSeen)
    (view : t.tailView = s.tailView)
    (verdict : t.consumer = .isClosed true → s.consumer = .isClosed true)
    (drained : t.consumer = .pop (.returned none) → s.consumer = .pop (.returned none)) :
    CloseInv t where
  dropped := fun closed => dropped (inv.dropped (ring ▸ closed))
  seen := by
    rw [seen, ring, view, tail]
    exact inv.seen
  verdict := fun answered => seen ▸ inv.verdict (verdict answered)
  drained := by
    rw [seen, head, tail]
    exact fun closed none_ => inv.drained closed (drained none_)

/-- The consumer goes on inside `try_pop`. -/
theorem CloseInv.popping (inv : CloseInv s) {pc : PopPc T} (goesOn : pc ≠ .returned none)
    (consumer : t.consumer = .pop pc) (closed : t.ring.closed = s.ring.closed)
    (tail : t.ring.tail = s.ring.tail) (producer : t.producer = s.producer)
    (seen : t.closedSeen = s.closedSeen) (view : t.tailView = s.tailView) : CloseInv t where
  dropped := by
    rw [closed, producer]
    exact inv.dropped
  seen := by
    rw [seen, closed, view, tail]
    exact inv.seen
  verdict answered := by
    rw [consumer] at answered
    cases answered
  drained _ none_ := by
    rw [consumer] at none_
    exact absurd (ConsumerState.pop.inj none_) goesOn

theorem ProducerState.not_dropped {producer : ProducerState T} (quiet : producer.quiescent = true) :
    producer.dropped = false := by
  cases producer with
  | idle | push => rfl
  | closing | gone => cases quiet

/-- Nothing has been closed yet. -/
theorem CloseInv.of_open (closed : s.ring.closed = false) (seen : s.closedSeen = false)
    (verdict : s.consumer ≠ .isClosed true) : CloseInv s where
  dropped never := by
    rw [closed] at never
    cases never
  seen never := by
    rw [seen] at never
    cases never
  verdict answered := absurd answered verdict
  drained never := by
    rw [seen] at never
    cases never

theorem closeInv_new (cap : Nat) : CloseInv (.new w T cap) :=
  .of_open rfl rfl fun never => by cases never

/-- A view of one value shows that value, and stays as it is. -/
theorem see_single {tail value i : Nat} (seen : [tail][i]? = some value) :
    value = tail ∧ [tail].drop i = [tail] := by
  cases i with
  | zero => exact ⟨(Option.some.inj seen).symm, rfl⟩
  | succ i => cases seen

theorem CloseInv.step (close : CloseInv s) (inv : ChannelInv s) (moved : s.step a = some t) :
    CloseInv t := by
  cases a with
  | push item =>
      obtain ⟨quiet, rfl⟩ := guarded moved
      refine close.same rfl rfl rfl (fun dropped => ?_) rfl rfl id id
      rw [ProducerState.not_dropped quiet] at dropped
      cases dropped
  | producer =>
      simp only [Channel.step] at moved
      split at moved
      · rename_i pc at_
        -- A producer in the middle of a `try_push` has not been dropped.
        have open_ : s.ring.closed = false := by
          rw [← Bool.not_eq_true]
          intro closed
          have dropped := close.dropped closed
          rw [at_] at dropped
          cases dropped
        have unseen : s.closedSeen = false := by
          rw [← Bool.not_eq_true]
          intro seen
          rw [(close.seen seen).1] at open_
          cases open_
        have kept : t.ring.closed = s.ring.closed ∧ t.closedSeen = s.closedSeen ∧
            t.consumer = s.consumer := by
          cases pc <;> cases moved <;> exact ⟨rfl, rfl, rfl⟩
        obtain ⟨closed, seen, consumer⟩ := kept
        refine .of_open (closed.trans open_) (seen.trans unseen) fun answered => ?_
        rw [consumer] at answered
        have told := close.verdict answered
        rw [unseen] at told
        cases told
      · cases moved
  | seeHead i =>
      simp only [Channel.step] at moved
      split at moved
      · rename_i at_ _
        have open_ : s.producer.dropped = true → False := by
          rw [at_]
          intro never
          cases never
        split at moved
        all_goals
          cases moved
          exact close.same rfl rfl rfl (fun dropped => (open_ dropped).elim) rfl rfl id id
      · cases moved
  | dropProducer =>
      obtain ⟨quiet, rfl⟩ := guarded moved
      exact ⟨fun _ => rfl, fun seen => ⟨rfl, (close.seen seen).2⟩, close.verdict, close.drained⟩
  | releaseProducer =>
      simp only [Channel.step] at moved
      split at moved
      · cases moved
        exact close.same rfl rfl rfl (fun _ => rfl) rfl rfl id id
      · cases moved
  | pop =>
      obtain ⟨quiet, rfl⟩ := guarded moved
      exact close.same rfl rfl rfl id rfl rfl (fun never => by cases never) fun never => by cases never
  | consumer =>
      simp only [Channel.step] at moved
      split at moved
      · rename_i pc at_
        cases pc with
        | loadHead =>
            cases moved
            exact close.popping (fun never => by cases never) rfl rfl rfl rfl rfl rfl
        | read head =>
            simp only [Channel.consumerStep] at moved
            split at moved
            · cases moved
            all_goals
              cases moved
              exact close.popping (fun never => by cases never) rfl rfl rfl rfl rfl rfl
        | storeHead head item =>
            cases moved
            exact close.popping (fun never => by cases never) rfl rfl rfl rfl rfl rfl
        | loadTail | returned => cases moved
      · cases moved
  | seeTail i =>
      simp only [Channel.step] at moved
      split at moved
      · rename_i head value at_ found
        cases moved
        refine ⟨close.dropped, fun seen => ?_, fun never => ?_, fun seen empty => ?_⟩
        · obtain ⟨closed, view⟩ := close.seen seen
          rw [view] at found
          exact ⟨closed, by rw [view]; exact (see_single found).2⟩
        · simp only at never
          split at never <;> cases never
        · obtain ⟨-, view⟩ := close.seen seen
          rw [view] at found
          have own : head = s.ring.head := by
            have ok := inv.consumer
            rw [at_] at ok
            exact ok
          have same : head = value := by
            simp only at empty
            split at empty
            · assumption
            · cases empty
          exact own.symm.trans (same.trans (see_single found).1)
      · cases moved
  | isClosed seen =>
      obtain ⟨⟨quiet, told, -⟩, rfl⟩ := guarded moved
      refine ⟨close.dropped, fun saw => ?_, fun answered => ?_, fun _ never => by cases never⟩
      · obtain rfl : seen = true := saw
        exact ⟨told rfl, rfl⟩
      · cases answered
        rfl
  | dropConsumer =>
      obtain ⟨quiet, rfl⟩ := guarded moved
      exact close.same rfl rfl rfl id rfl rfl (fun never => by cases never) fun never => by cases never
  | drop =>
      simp only [Channel.step] at moved
      split at moved
      · split at moved
        · split at moved
          · cases moved
          all_goals
            cases moved
            exact close.same rfl rfl rfl id rfl rfl id id
        · cases moved
      · cases moved

/-! ### After the last `None` -/

/-- The consumer has seen the end: nothing is left, and nothing will come. -/
structure Ended (s : Channel w T) : Prop where
  seen : s.closedSeen = true
  empty : s.ring.head = s.ring.tail
  answers : ∀ answer, s.consumer = .pop (.returned answer) → answer = none

/-- What no step changes once the producer has been dropped. -/
structure Frozen (s t : Channel w T) : Prop where
  dropped : t.producer.dropped = true
  accepted : t.accepted = s.accepted
  tail : t.ring.tail = s.ring.tail
  closed : t.ring.closed = s.ring.closed
  /-- The flag is never seen to go back. -/
  seen : s.closedSeen = true → t.closedSeen = true

theorem Channel.frozen (dropped : s.producer.dropped = true) (moved : s.step a = some t) : Frozen s t := by
  cases a with
  | push | dropProducer =>
      obtain ⟨quiet, rfl⟩ := guarded moved
      rw [ProducerState.not_dropped quiet] at dropped
      cases dropped
  | producer | seeHead =>
      cases at_ : s.producer with
      | closing | gone => simp [Channel.step, at_] at moved
      | idle | push =>
          rw [at_] at dropped
          cases dropped
  | releaseProducer =>
      simp only [Channel.step] at moved
      split at moved
      · cases moved
        exact ⟨rfl, rfl, rfl, rfl, id⟩
      · cases moved
  | seeTail =>
      simp only [Channel.step] at moved
      split at moved
      · cases moved
        exact ⟨dropped, rfl, rfl, rfl, id⟩
      · cases moved
  | pop | dropConsumer =>
      obtain ⟨-, rfl⟩ := guarded moved
      exact ⟨dropped, rfl, rfl, rfl, id⟩
  | isClosed seen =>
      obtain ⟨⟨-, -, unseen⟩, rfl⟩ := guarded moved
      refine ⟨dropped, rfl, rfl, rfl, fun before => ?_⟩
      cases seen with
      | true => rfl
      | false =>
          rw [unseen rfl] at before
          cases before
  | consumer =>
      simp only [Channel.step] at moved
      split at moved
      · rename_i pc at_
        cases pc with
        | read head =>
            simp only [Channel.consumerStep] at moved
            split at moved <;> cases moved <;> exact ⟨dropped, rfl, rfl, rfl, id⟩
        | loadHead | storeHead =>
            cases moved
            exact ⟨dropped, rfl, rfl, rfl, id⟩
        | loadTail | returned => cases moved
      · cases moved
  | drop =>
      simp only [Channel.step] at moved
      split at moved
      · split at moved
        · split at moved <;> cases moved <;> exact ⟨dropped, rfl, rfl, rfl, id⟩
        · cases moved
      · cases moved

/-- The end stays seen: with nothing claimed there is no step that takes an item out. -/
theorem Ended.step (ended : Ended s) (close : CloseInv s) (inv : ChannelInv s)
    (moved : s.step a = some t) : Ended t ∧ t.popped = s.popped := by
  obtain ⟨closed, view⟩ := close.seen ended.seen
  have frozen := Channel.frozen (close.dropped closed) moved
  have behind := inv.head_lt_tail_of_claimed
  have unclaimed : s.consumer.claimed = 0 := by
    have empty := ended.empty
    omega
  have still : t.ring.head = s.ring.head →
      (∀ answer, t.consumer = .pop (.returned answer) → answer = none) → t.popped = s.popped →
      Ended t ∧ t.popped = s.popped := fun head answers popped =>
    ⟨⟨frozen.seen ended.seen, by rw [head, frozen.tail]; exact ended.empty, answers⟩, popped⟩
  cases a with
  | push | dropProducer =>
      obtain ⟨-, rfl⟩ := guarded moved
      exact still rfl ended.answers rfl
  | producer =>
      simp only [Channel.step] at moved
      split at moved
      · rename_i pc at_
        cases pc <;> cases moved <;> exact still rfl ended.answers rfl
      · cases moved
  | seeHead i =>
      simp only [Channel.step] at moved
      split at moved
      · split at moved <;> cases moved <;> exact still rfl ended.answers rfl
      · cases moved
  | releaseProducer =>
      simp only [Channel.step] at moved
      split at moved
      · cases moved
        exact still rfl ended.answers rfl
      · cases moved
  | pop =>
      obtain ⟨-, rfl⟩ := guarded moved
      exact still rfl (fun _ never => by cases never) rfl
  | consumer =>
      simp only [Channel.step] at moved
      split at moved
      · rename_i pc at_
        rw [at_] at unclaimed
        cases pc with
        | loadHead =>
            cases moved
            exact still rfl (fun _ never => by cases never) rfl
        | read | storeHead => cases unclaimed
        | loadTail | returned => cases moved
      · cases moved
  | seeTail i =>
      simp only [Channel.step] at moved
      split at moved
      · rename_i head value at_ found
        cases moved
        refine still rfl (fun answer returned => ?_) rfl
        simp only at returned
        split at returned
        · cases returned
          rfl
        · cases returned
      · cases moved
  | isClosed seen =>
      obtain ⟨-, rfl⟩ := guarded moved
      exact still rfl (fun _ never => by cases never) rfl
  | dropConsumer =>
      obtain ⟨-, rfl⟩ := guarded moved
      exact still rfl (fun _ never => by cases never) rfl
  | drop =>
      simp only [Channel.step] at moved
      split at moved
      · split at moved
        · split at moved
          · cases moved
          all_goals
            cases moved
            exact still rfl ended.answers rfl
        · cases moved
      · cases moved

/-! ### The law -/

/-- The consumer's own steps. -/
def Act.ofConsumer : Act T → Bool
  | .pop | .consumer | .seeTail _ | .isClosed _ => true
  | _ => false

/-- What the closing of a ring means for its consumer. -/
structure CloseLaw (s : Channel w T) : Prop where
  /-- A `None` of a `try_pop` that began behind a true `is_closed` says that every item has been
      returned, and every later one says the same. -/
  drained : s.consumer = .isClosed true → ∀ t, Reach Channel.step Free s t →
    t.consumer = .pop (.returned none) → t.popped = t.accepted ∧
      ∀ u, Reach Channel.step Free t u → u.accepted = t.accepted ∧ u.popped = t.popped ∧
        ∀ answer, u.consumer = .pop (.returned answer) → answer = none
  /-- Behind the close the consumer can still pop every item that was accepted. -/
  poppable : s.ring.closed = true → s.consumer.quiescent = true →
    ∃ labels t, (∀ a ∈ labels, Act.ofConsumer a = true) ∧ exec Channel.step s labels = some t ∧
      t.popped = s.accepted

theorem ChannelInv.popped_of_empty (inv : ChannelInv s) (empty : s.ring.head = s.ring.tail) :
    s.popped = s.accepted := by
  rw [inv.popped_eq, empty, inv.tail_eq, List.take_length]

/-- The labels of a `try_push` that is shown the value at place `i` of its view. -/
def pushActs (i : Nat) (item : T) : List (Act T) :=
  [.push item, .producer, .seeHead i, .producer, .producer]

/-- A `try_push` that finds room, run to its end. -/
theorem exec_pushActs {i head : Nat} (item : T) (quiet : s.producer.quiescent = true)
    (seen : s.headView[i]? = some head) (room : wrappingSub w s.ring.tail head ≠ s.ring.cap) :
    exec Channel.step s (pushActs i item) = some { s with
      ring := { s.ring.store s.ring.tail (.live item) with tail := wrappingSucc w s.ring.tail }
      producer := .push (.returned (.ok ()))
      headView := s.headView.drop i
      tailView := s.tailView ++ [wrappingSucc w s.ring.tail]
      accepted := s.accepted ++ [item] } := by
  simp [pushActs, exec, Channel.step, Channel.producerStep, quiet, seen, room]

/-- The labels of a `try_pop` that is shown the value at place `i` of its view. -/
def popActs (i : Nat) : List (Act T) := [.pop, .consumer, .seeTail i, .consumer, .consumer]

/-- A `try_pop` that finds an item, run to its end. It does not ask whether the slot still owns it. -/
theorem exec_popActs {i tail : Nat} {item : T} (quiet : s.consumer.quiescent = true)
    (seen : s.tailView[i]? = some tail) (left : s.ring.head ≠ tail)
    (slot : s.ring.slots (s.ring.head % s.ring.cap) = .live item ∨
      s.ring.slots (s.ring.head % s.ring.cap) = .moved item) :
    exec Channel.step s (popActs i) = some { s with
      ring := { s.ring.store s.ring.head (.moved item) with head := wrappingSucc w s.ring.head }
      consumer := .pop (.returned (some item))
      headView := s.headView ++ [wrappingSucc w s.ring.head]
      tailView := s.tailView.drop i
      popped := s.popped ++ [item] } := by
  rcases slot with slot | slot <;>
    simp [popActs, exec, Channel.step, Channel.consumerStep, quiet, seen, left, slot]

/-- A `try_pop` that finds nothing. -/
theorem exec_popNone {i tail : Nat} (quiet : s.consumer.quiescent = true)
    (seen : s.tailView[i]? = some tail) (empty : s.ring.head = tail) :
    exec Channel.step s [.pop, .consumer, .seeTail i] = some { s with
      consumer := .pop (.returned none)
      tailView := s.tailView.drop i } := by
  simp [exec, Channel.step, Channel.consumerStep, quiet, seen, empty]

/-- The producer is dropped, and the consumer is told so. -/
theorem exec_close (producer : s.producer.quiescent = true) (consumer : s.consumer.quiescent = true) :
    exec Channel.step s [.dropProducer, .isClosed true] = some { s with
      ring := { s.ring with closed := true }
      producer := .closing
      consumer := .isClosed true
      closedSeen := true
      tailView := [s.ring.tail] } := by
  simp [exec, Channel.step, producer, consumer]

/-- A `try_pop` that is shown the newest `tail` takes the next item. -/
theorem ChannelInv.pop_next (inv : ChannelInv s) (quiet : s.consumer.quiescent = true)
    (left : s.popped.length < s.accepted.length) :
    ∃ i t, exec Channel.step s (popActs i) = some t ∧ t.consumer.quiescent = true ∧
      t.accepted = s.accepted ∧ t.popped.length = s.popped.length + 1 := by
  obtain ⟨oldest, view, bound⟩ := inv.tailView
  obtain ⟨-, untaken, held⟩ := ConsumerState.of_quiescent quiet
  have head := inv.head_eq
  have tail := inv.tail_eq
  have differ : s.ring.head ≠ s.ring.tail := by omega
  have newest : s.tailView[s.ring.tail - oldest]? = some s.ring.tail := by
    obtain ⟨order, same⟩ := view
    rw [same, List.getElem?_range' (by omega)]
    congr 1
    omega
  have running := inv.not_dropping (by omega)
  have front : s.front ≤ s.ring.head := by
    rw [Channel.front, running, untaken]
    exact le_rfl
  have inside : s.ring.head < s.accepted.length := by omega
  have slot := inv.used _ _ front (List.getElem?_eq_getElem inside)
  refine ⟨_, _, exec_popActs quiet newest differ (.inl slot), rfl, rfl, ?_⟩
  exact List.length_append

/-- As long as the items can be counted, every run keeps both invariants. -/
theorem ChannelInv.run (inv : ChannelInv s) (close : CloseInv s) (run : Reach Channel.step Free s t)
    (few : t.accepted.length < 2 ^ w) : ChannelInv t ∧ CloseInv t := by
  revert few
  refine run.invariant (P := fun t => t.accepted.length < 2 ^ w → ChannelInv t ∧ CloseInv t)
    (fun _ => ⟨inv, close⟩) ?_
  intro u a v holds _ moved few
  have before := (Channel.accepted_le_of_step moved).trans_lt few
  obtain ⟨inv, close⟩ := holds before
  exact ⟨inv.step before few moved, close.step inv moved⟩

/-- One `try_pop` after the other takes all that was accepted. -/
theorem ChannelInv.pop_all (inv : ChannelInv s) (close : CloseInv s)
    (few : s.accepted.length < 2 ^ w) (quiet : s.consumer.quiescent = true) :
    ∃ labels t, (∀ a ∈ labels, Act.ofConsumer a = true) ∧ exec Channel.step s labels = some t ∧
      t.popped = s.accepted := by
  generalize left : s.accepted.length - s.popped.length = n
  induction n generalizing s with
  | zero =>
      refine ⟨[], s, List.forall_mem_nil _, rfl, ?_⟩
      have head := inv.head_eq
      rw [inv.popped_eq, List.take_of_length_le (by omega)]
  | succ n inductionHypothesis =>
      obtain ⟨i, t, executed, quiet', accepted, popped⟩ := inv.pop_next quiet (by omega)
      have short : t.accepted.length < 2 ^ w := by rw [accepted]; exact few
      obtain ⟨inv', close'⟩ := inv.run close (reach_of_exec executed) short
      obtain ⟨labels, u, own, ran, all⟩ :=
        inductionHypothesis inv' close' short quiet' (by rw [accepted]; omega)
      refine ⟨popActs i ++ labels, u, ?_, exec_append executed ran, all.trans accepted⟩
      exact List.forall_mem_append.2 ⟨by simp [popActs, Act.ofConsumer], own⟩

/-- The closing of a ring whose items can be counted. -/
theorem ChannelInv.closeLaw (inv : ChannelInv s) (close : CloseInv s)
    (few : s.accepted.length < 2 ^ w) : CloseLaw s where
  drained := by
    intro answered t run none_
    have seen := close.verdict answered
    have shut := (close.seen seen).1
    -- Behind the close the items stay as few as they are.
    have atEnd := run.invariant
      (P := fun t => ChannelInv t ∧ CloseInv t ∧ t.accepted = s.accepted ∧ t.ring.closed = true ∧
        t.closedSeen = true) ⟨inv, close, rfl, shut, seen⟩ ?_
    · obtain ⟨inv, close, accepted, shut, seen⟩ := atEnd
      have ended : Ended t := ⟨seen, close.drained seen none_, fun answer returned => by
        rw [none_] at returned
        cases returned
        rfl⟩
      refine ⟨inv.popped_of_empty ended.empty, fun u further => ?_⟩
      have later := further.invariant
        (P := fun u => ChannelInv u ∧ CloseInv u ∧ Ended u ∧ u.accepted = t.accepted ∧
          u.popped = t.popped) ⟨inv, close, ended, rfl, rfl⟩ ?_
      · obtain ⟨-, -, ended, accepted, popped⟩ := later
        exact ⟨accepted, popped, ended.answers⟩
      · rintro u a v ⟨inv, close, ended, same, popped⟩ _ moved
        have frozen := Channel.frozen (close.dropped (close.seen ended.seen).1) moved
        obtain ⟨ended', popped'⟩ := ended.step close inv moved
        have short : u.accepted.length < 2 ^ w := by rw [same, accepted]; exact few
        exact ⟨inv.step short (by rw [frozen.accepted]; exact short) moved, close.step inv moved, ended',
          frozen.accepted.trans same, popped'.trans popped⟩
    · rintro u a v ⟨inv, close, same, shut, seen⟩ _ moved
      have frozen := Channel.frozen (close.dropped shut) moved
      have short : u.accepted.length < 2 ^ w := by rw [same]; exact few
      exact ⟨inv.step short (by rw [frozen.accepted]; exact short) moved, close.step inv moved,
        frozen.accepted.trans same, frozen.closed.trans shut, frozen.seen seen⟩
  poppable := fun _ quiet => inv.pop_all close few quiet

end AetherFlow.Spsc
