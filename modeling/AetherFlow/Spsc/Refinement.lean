/-
Module: AetherFlow.Spsc.Refinement
Purpose: The ring refines a channel with credits. What the two ends have not yet seen of each other's index
  is what is under way between them: a stale `tail` hides messages, a stale `head` holds credits back.
  A load that returns a newer value is a delivery, `Full` is a sender without credits, `None` a
  receiver without messages in sight. No index occurs in what is seen from outside, so this holds
  across their wrap as well.
Trusted boundary: none
Main exports: ProducerState.offered, Channel.view, Channel.shows, Flows, flows_of_tracks, Flows.run_step,
  ring_refines_credits
-/
import AetherFlow.Lib.CreditChannel
import AetherFlow.Spsc.Wrap

namespace AetherFlow.Spsc

open Transition Word

variable {v w : Nat} {T : Type*}

/-! ### What is seen from outside -/

/-- The item of a `try_push` that has not yet decided on it. -/
def ProducerState.offered : ProducerState T → Option T
  | .push (.loadTail item) | .push (.loadHead item _) | .push (.write item _)
  | .push (.storeTail item _) => some item
  | _ => none

/-- What was accepted and not yet popped. -/
def Channel.waiting (s : Channel w T) : List T := s.accepted.drop s.popped.length

/-- How many newer values than the last one it saw an end may be shown. -/
def unseen (view : List Nat) : Nat := view.length - 1

/-- The channel behind a ring. -/
def Channel.view (s : Channel w T) : CreditChannel T where
  offered := s.producer.offered
  credits := s.ring.cap - s.waiting.length - unseen s.headView
  flying := s.waiting.drop (s.waiting.length - unseen s.tailView)
  visible := s.waiting.take (s.waiting.length - unseen s.tailView)
  returning := unseen s.headView
  closed := s.ring.closed
  closeSeen := s.closedSeen

/-- What a step shows. -/
def Channel.shows (s : Channel w T) : Act T → List (CreditChannel.Event T)
  | .push item => [.offer item]
  | .producer =>
      match s.producer with
      | .push (.storeTail item _) => [.send item]
      | _ => []
  | .seeHead i =>
      match s.producer, s.headView[i]? with
      | .push (.loadHead item tail), some head =>
          .credit i :: if wrappingSub w tail head = s.ring.cap then [.refuse item] else []
      | _, _ => []
  | .dropProducer => [.close]
  | .consumer =>
      match s.consumer with
      | .pop (.storeHead _ item) => [.take item]
      | _ => []
  | .seeTail i =>
      match s.consumer, s.tailView[i]? with
      | .pop (.loadTail head), some tail => .deliver i :: if head = tail then [.miss] else []
      | _, _ => []
  | .isClosed seen => [if seen then .seeClosed else .seeOpen]
  | .releaseProducer | .pop | .dropConsumer | .drop => []

/-! ### What the ring knows, without its indices -/

/-- The numbers of items that wait, are unseen or are reserved fit together, and the ends compare their
    indices as they would compare these numbers. -/
structure Flows (s : Channel w T) : Prop where
  order : s.popped.length ≤ s.accepted.length
  room : s.waiting.length + unseen s.headView + s.producer.reserved ≤ s.ring.cap
  ahead : unseen s.tailView + s.consumer.claimed ≤ s.waiting.length
  heads : s.headView ≠ []
  tails : s.tailView ≠ []
  full : ∀ item tail i head, s.producer = .push (.loadHead item tail) → s.headView[i]? = some head →
    i ≤ unseen s.headView ∧ (wrappingSub w tail head = s.ring.cap ↔
      s.waiting.length + (unseen s.headView - i) = s.ring.cap)
  empty : ∀ head i tail, s.consumer = .pop (.loadTail head) → s.tailView[i]? = some tail →
    i ≤ unseen s.tailView ∧ (head = tail ↔ s.waiting.length = unseen s.tailView - i)
  next : ∀ head item, s.consumer = .pop (.storeHead head item) → s.waiting.head? = some item
  opened : s.producer.quiescent = true → s.ring.closed = false

theorem View.unseen_eq {view : List Nat} {oldest newest : Nat} (shown : View view oldest newest) :
    unseen view = newest - oldest ∧ view ≠ [] := by
  obtain ⟨order, rfl⟩ := shown
  rw [unseen, List.length_range']
  refine ⟨by omega, fun none_ => ?_⟩
  rw [List.range'_eq_nil_iff] at none_
  omega

/-- The value at a place of a view. -/
theorem View.value_eq {view : List Nat} {oldest newest i value : Nat} (shown : View view oldest newest)
    (seen : view[i]? = some value) : value = oldest + i ∧ oldest + i ≤ newest := by
  obtain ⟨order, rfl⟩ := shown
  obtain ⟨inside, rfl⟩ := List.getElem?_eq_some_iff.1 seen
  rw [List.length_range'] at inside
  rw [List.getElem_range', Nat.one_mul]
  exact ⟨rfl, by omega⟩

@[simp] theorem ProducerState.reserved_narrow (producer : ProducerState T) :
    (producer.narrow w).reserved = producer.reserved := by
  rcases producer with _ | (_ | _ | _ | _ | _) | _ | _ <;> rfl

@[simp] theorem ConsumerState.claimed_narrow (consumer : ConsumerState T) :
    (consumer.narrow w).claimed = consumer.claimed := by
  rcases consumer with _ | (_ | _ | _ | _ | _) | _ | _ <;> rfl

theorem ProducerState.of_narrow_loadHead {producer : ProducerState T} {item : T} {tail : Nat}
    (same : producer.narrow w = .push (.loadHead item tail)) :
    ∃ long, producer = .push (.loadHead item long) ∧ tail = long % 2 ^ w := by
  rcases producer with _ | (_ | ⟨item', long⟩ | _ | _ | _) | _ | _ <;> cases same
  exact ⟨long, rfl, rfl⟩

theorem ConsumerState.of_narrow_loadTail {consumer : ConsumerState T} {head : Nat}
    (same : consumer.narrow w = .pop (.loadTail head)) :
    ∃ long, consumer = .pop (.loadTail long) ∧ head = long % 2 ^ w := by
  rcases consumer with _ | (_ | long | _ | _ | _) | _ | _ <;> cases same
  exact ⟨long, rfl, rfl⟩

theorem ConsumerState.of_narrow_storeHead {consumer : ConsumerState T} {head : Nat} {item : T}
    (same : consumer.narrow w = .pop (.storeHead head item)) :
    ∃ long, consumer = .pop (.storeHead long item) ∧ head = long % 2 ^ w := by
  rcases consumer with _ | (_ | _ | _ | ⟨long, item'⟩ | _) | _ | _ <;> cases same
  exact ⟨long, rfl, rfl⟩

/-- A ring that is followed by one with longer indices knows all this from it. -/
theorem flows_of_tracks {long : Channel v T} {short : Channel w T} (tracks : Tracks long short)
    (inv : ChannelInv long) (close : CloseInv long) (few : long.accepted.length + 1 < 2 ^ v) :
    Flows short := by
  obtain ⟨oldHead, heads, room⟩ := inv.headView
  obtain ⟨oldTail, tails, ahead⟩ := inv.tailView
  obtain ⟨unseenHeads, someHead⟩ := heads.unseen_eq
  obtain ⟨unseenTails, someTail⟩ := tails.unseen_eq
  have tail := inv.tail_eq
  have head := inv.head_eq
  have cap := tracks.cap
  have small := tracks.small
  have headOrder := heads.1
  have tailOrder := tails.1
  have behind := inv.head_lt_tail_of_claimed
  have window := inv.tail_le
  have waiting : short.waiting.length = long.ring.tail - long.ring.head := by
    rw [Channel.waiting, List.length_drop, tracks.accepted, tracks.popped, tail, head]
  have headViews : unseen short.headView = long.ring.head - oldHead := by
    rw [← unseenHeads, tracks.headView, unseen, unseen, List.length_map]
  have tailViews : unseen short.tailView = long.ring.tail - oldTail := by
    rw [← unseenTails, tracks.tailView, unseen, unseen, List.length_map]
  refine ⟨?_, ?_, ?_, ?_, ?_, ?_, ?_, ?_, ?_⟩
  · rw [tracks.accepted, tracks.popped, ← tail, ← head]
    omega
  · rw [waiting, headViews, tracks.producer, ProducerState.reserved_narrow, cap]
    omega
  · rw [waiting, tailViews, tracks.consumer, ConsumerState.claimed_narrow]
    omega
  · rw [tracks.headView, Ne, List.map_eq_nil_iff]
    exact someHead
  · rw [tracks.tailView, Ne, List.map_eq_nil_iff]
    exact someTail
  · intro item tail' i head' stands shown
    rw [tracks.producer] at stands
    obtain ⟨own, standing, rfl⟩ := ProducerState.of_narrow_loadHead stands
    have locals := inv.producer
    rw [standing] at locals
    obtain rfl : own = long.ring.tail := locals
    rw [tracks.headView, List.getElem?_map] at shown
    obtain ⟨value, showing, rfl⟩ := Option.map_eq_some_iff.1 shown
    obtain ⟨rfl, within⟩ := heads.value_eq showing
    have gap : wrappingSub v long.ring.tail (oldHead + i) = long.ring.tail - (oldHead + i) := by
      rw [wrappingSub, show long.ring.tail + 2 ^ v - (oldHead + i) =
        long.ring.tail - (oldHead + i) + 2 ^ v by omega, Nat.add_mod_right, Nat.mod_eq_of_lt (by omega)]
    refine ⟨by omega, ?_⟩
    rw [Tracks.full_iff (v := v) (by omega) (by omega) small (by omega), gap, waiting, headViews]
    omega
  · intro head' i tail' stands shown
    rw [tracks.consumer] at stands
    obtain ⟨own, standing, rfl⟩ := ConsumerState.of_narrow_loadTail stands
    have locals := inv.consumer
    rw [standing] at locals
    obtain rfl : own = long.ring.head := locals
    rw [tracks.tailView, List.getElem?_map] at shown
    obtain ⟨value, showing, rfl⟩ := Option.map_eq_some_iff.1 shown
    obtain ⟨rfl, within⟩ := tails.value_eq showing
    refine ⟨by omega, ?_⟩
    rw [waiting, tailViews]
    by_cases same : long.ring.head = oldTail + i
    · exact ⟨fun _ => by omega, fun _ => by rw [same]⟩
    · have apart : long.ring.head % 2 ^ w ≠ (oldTail + i) % 2 ^ w :=
        mod_ne_mod_of_near (by omega) (by omega)
      exact ⟨fun clash => absurd clash apart, fun _ => absurd same (by omega)⟩
  · intro head' item stands
    rw [tracks.consumer] at stands
    obtain ⟨own, standing, -⟩ := ConsumerState.of_narrow_storeHead stands
    have locals := inv.consumer
    rw [standing] at locals
    obtain ⟨rfl, found, -⟩ := locals
    rw [Channel.waiting, List.head?_drop, tracks.accepted, tracks.popped, ← head]
    exact found
  · intro quiet
    rw [tracks.closed]
    by_contra shut
    rw [tracks.producer, ProducerState.quiescent_narrow] at quiet
    have dropped := close.dropped (by simpa using shut)
    rw [ProducerState.not_dropped quiet] at dropped
    cases dropped

/-! ### Every step is one of the channel -/

section Steps

variable {s t : Channel w T}

/-- A step that changes nothing of what is seen. -/
theorem hidden (offered : t.producer.offered = s.producer.offered)
    (cap : t.ring.cap = s.ring.cap) (closed : t.ring.closed = s.ring.closed)
    (accepted : t.accepted = s.accepted) (popped : t.popped = s.popped)
    (headView : t.headView = s.headView) (tailView : t.tailView = s.tailView)
    (closedSeen : t.closedSeen = s.closedSeen) : Run CreditChannel.Step s.view [] t.view := by
  have same : t.view = s.view := by
    simp only [Channel.view, Channel.waiting, offered, cap, closed, accepted, popped, headView, tailView,
      closedSeen]
  rw [same]
  exact .nil _

theorem unseen_append {view : List Nat} (some_ : view ≠ []) (next : Nat) :
    unseen (view ++ [next]) = unseen view + 1 := by
  have positive := List.length_pos_iff.2 some_
  rw [unseen, unseen, List.length_append, List.length_singleton]
  omega

theorem unseen_drop (view : List Nat) (i : Nat) : unseen (view.drop i) = unseen view - i := by
  rw [unseen, unseen, List.length_drop]
  omega

/-- A step of the channel leads to what is seen of a ring with these numbers. -/
theorem lands {e : CreditChannel.Event T} {before view : CreditChannel T}
    (stepped : CreditChannel.Step before e view) (offered : t.producer.offered = view.offered)
    (credits : t.ring.cap - t.waiting.length - unseen t.headView = view.credits)
    (flying : t.waiting.drop (t.waiting.length - unseen t.tailView) = view.flying)
    (visible : t.waiting.take (t.waiting.length - unseen t.tailView) = view.visible)
    (returning : unseen t.headView = view.returning) (closed : t.ring.closed = view.closed)
    (closeSeen : t.closedSeen = view.closeSeen) : CreditChannel.Step before e t.view := by
  have same : t.view = view := by
    rw [Channel.view, offered, credits, flying, visible, returning, closed, closeSeen]
  rw [same]
  exact stepped

/-- `try_push` publishes its item. -/
theorem Flows.step_send (flows : Flows s) {item : T} {tail : Nat}
    (stands : s.producer = .push (.storeTail item tail))
    (moved : s.producerStep (.storeTail item tail) = some t) :
    CreditChannel.Step s.view (.send item) t.view := by
  have room := flows.room
  have ahead := flows.ahead
  rw [stands, show ProducerState.reserved (.push (.storeTail item tail)) = 1 from rfl] at room
  have offered : s.view.offered = some item := by
    simp only [Channel.view, stands, ProducerState.offered]
  have free : 0 < s.view.credits := by
    simp only [Channel.view]
    omega
  have tails : unseen t.tailView = unseen s.tailView + 1 := by
    cases moved
    exact unseen_append flows.tails _
  have waiting : t.waiting = s.waiting ++ [item] := by
    cases moved
    exact List.drop_append_of_le_length flows.order
  have sight : t.waiting.length - unseen t.tailView = s.waiting.length - unseen s.tailView := by
    rw [waiting, tails, List.length_append, List.length_singleton]
    omega
  refine lands (.send offered free) ?_ ?_ ?_ ?_ ?_ ?_ ?_
  · cases moved
    rfl
  · rw [waiting, List.length_append, List.length_singleton]
    cases moved
    simp only [Channel.view]
    omega
  · rw [sight, waiting, List.drop_append_of_le_length (Nat.sub_le _ _)]
    rfl
  · rw [sight, waiting, List.take_append_of_le_length (Nat.sub_le _ _)]
    rfl
  all_goals
    cases moved
    rfl

/-- `try_pop` gives its slot back. -/
theorem Flows.step_take (flows : Flows s) {item : T} {head : Nat}
    (stands : s.consumer = .pop (.storeHead head item))
    (moved : s.consumerStep (.storeHead head item) = some t) :
    CreditChannel.Step s.view (.take item) t.view := by
  have room := flows.room
  have ahead := flows.ahead
  rw [stands, show ConsumerState.claimed (.pop (.storeHead head item)) = 1 from rfl] at ahead
  obtain ⟨rest, line⟩ : ∃ rest, s.waiting = item :: rest :=
    List.head?_eq_some_iff.1 (flows.next head item stands)
  have length : s.waiting.length = rest.length + 1 := by rw [line, List.length_cons]
  have sight : s.waiting.length - unseen s.tailView = rest.length - unseen s.tailView + 1 := by omega
  have visible : s.view.visible = item :: rest.take (rest.length - unseen s.tailView) := by
    simp only [Channel.view, sight]
    rw [line, List.take_succ_cons]
  have heads : unseen t.headView = unseen s.headView + 1 := by
    cases moved
    exact unseen_append flows.heads _
  have tails : t.tailView = s.tailView := by
    cases moved
    rfl
  have waiting : t.waiting = rest := by
    cases moved
    have tail : (s.accepted.drop s.popped.length).drop 1 = rest := by
      rw [← Channel.waiting, line]
      rfl
    rw [← tail, List.drop_drop, Channel.waiting, List.length_append, List.length_singleton]
  refine lands (.take visible) ?_ ?_ ?_ ?_ ?_ ?_ ?_
  · cases moved
    rfl
  · rw [waiting, heads]
    cases moved
    simp only [Channel.view]
    omega
  · rw [waiting, tails]
    simp only [Channel.view, sight]
    rw [line, List.drop_succ_cons]
  · rw [waiting, tails]
  · rw [heads]
    rfl
  all_goals
    cases moved
    rfl

/-- A load of `head` shows the producer some credits, and may find none. -/
theorem Flows.run_seeHead (flows : Flows s) {i : Nat} (moved : s.step (.seeHead i) = some t) :
    Run CreditChannel.Step s.view (s.shows (.seeHead i)) t.view := by
  have room := flows.room
  simp only [Channel.step] at moved
  split at moved
  · rename_i item tail head stands shown
    obtain ⟨within, full⟩ := flows.full item tail i head stands shown
    have credited : CreditChannel.Step s.view (.credit i) _ := .credit within
    have offered : s.view.offered = some item := by
      simp only [Channel.view, stands, ProducerState.offered]
    have fewer : unseen (s.headView.drop i) = unseen s.headView - i := unseen_drop _ _
    split at moved
    · rename_i isFull
      have none_ : s.view.credits + i = 0 := by
        have := full.1 isFull
        simp only [Channel.view]
        omega
      have shows : s.shows (.seeHead i) = [.credit i, .refuse item] := by
        simp only [Channel.shows, stands, shown, if_pos isFull]
      rw [shows]
      cases moved
      refine .cons credited (.single (lands (.refuse offered none_) rfl ?_ rfl rfl fewer rfl rfl))
      rw [fewer]
      simp only [Channel.view, Channel.waiting] at none_ room ⊢
      omega
    · rename_i notFull
      have shows : s.shows (.seeHead i) = [.credit i] := by
        simp only [Channel.shows, stands, shown, if_neg notFull]
      rw [shows]
      cases moved
      refine .single (lands credited offered.symm ?_ rfl rfl fewer rfl rfl)
      rw [fewer]
      simp only [Channel.view, Channel.waiting] at room ⊢
      omega
  · cases moved

/-- A load of `tail` shows the consumer some messages, and may find none. -/
theorem Flows.run_seeTail (flows : Flows s) {i : Nat} (moved : s.step (.seeTail i) = some t) :
    Run CreditChannel.Step s.view (s.shows (.seeTail i)) t.view := by
  have ahead := flows.ahead
  simp only [Channel.step] at moved
  split at moved
  · rename_i head tail stands shown
    obtain ⟨within, empty⟩ := flows.empty head i tail stands shown
    have fewer : unseen (s.tailView.drop i) = unseen s.tailView - i := unseen_drop _ _
    have sight : s.waiting.length - (unseen s.tailView - i) =
        s.waiting.length - unseen s.tailView + i := by omega
    have flying : s.view.flying.drop i = s.waiting.drop (s.waiting.length - (unseen s.tailView - i)) := by
      rw [sight]
      exact List.drop_drop
    have visible : s.view.visible ++ s.view.flying.take i =
        s.waiting.take (s.waiting.length - (unseen s.tailView - i)) := by
      rw [sight]
      exact List.take_add.symm
    have inFlight : i ≤ s.view.flying.length := by
      simp only [Channel.view, List.length_drop]
      omega
    have delivered := CreditChannel.Step.deliver inFlight
    cases moved
    have landed := lands (t := { s with
      tailView := s.tailView.drop i
      consumer := .pop (if head = tail then .returned none else .read head) }) delivered rfl rfl
      (by rw [fewer]; exact flying.symm) (by rw [fewer]; exact visible.symm) rfl rfl rfl
    by_cases none_ : head = tail
    · have shows : s.shows (.seeTail i) = [.deliver i, .miss] := by
        simp only [Channel.shows, stands, shown, if_pos none_]
      rw [shows]
      refine .cons landed (.single (.miss ?_))
      have nothing := empty.1 none_
      simp only [Channel.view, Channel.waiting, fewer] at nothing ⊢
      rw [nothing, Nat.sub_self, List.take_zero]
    · have shows : s.shows (.seeTail i) = [.deliver i] := by
        simp only [Channel.shows, stands, shown, if_neg none_]
      rw [shows]
      exact .single landed
  · cases moved

/-- `is_closed` shows the consumer that all is in sight, or nothing. -/
theorem Flows.run_isClosed (flows : Flows s) {seen : Bool} (moved : s.step (.isClosed seen) = some t) :
    Run CreditChannel.Step s.view (s.shows (.isClosed seen)) t.view := by
  have ahead := flows.ahead
  obtain ⟨⟨-, truthful, once⟩, rfl⟩ := guarded moved
  cases seen with
  | true =>
      refine .single (lands (.seeClosed (truthful rfl)) rfl rfl ?_ ?_ rfl rfl rfl)
      · exact List.drop_length
      · exact List.take_length.trans (List.take_append_drop _ _).symm
  | false =>
      have open_ := once rfl
      refine .single (lands (.seeOpen open_) rfl rfl rfl rfl rfl rfl open_.symm)

theorem ProducerState.offered_of_quiescent {producer : ProducerState T}
    (quiet : producer.quiescent = true) : producer.offered = none := by
  rcases producer with _ | (_ | _ | _ | _ | _) | _ | _ <;> first | rfl | cases quiet

theorem Flows.run_producer (flows : Flows s) (moved : s.step .producer = some t) :
    Run CreditChannel.Step s.view (s.shows .producer) t.view := by
  simp only [Channel.step] at moved
  split at moved
  · rename_i pc stands
    cases pc with
    | storeTail item tail =>
        simp only [Channel.shows, stands]
        exact .single (flows.step_send stands moved)
    | loadTail item | write item tail =>
        simp only [Channel.shows, stands]
        cases moved
        have same : ProducerState.offered s.producer = some item := by rw [stands]; rfl
        exact hidden same.symm rfl rfl rfl rfl rfl rfl rfl
    | loadHead | returned => cases moved
  · cases moved

theorem Flows.run_consumer (flows : Flows s) (moved : s.step .consumer = some t) :
    Run CreditChannel.Step s.view (s.shows .consumer) t.view := by
  simp only [Channel.step] at moved
  split at moved
  · rename_i pc stands
    cases pc with
    | storeHead head item =>
        simp only [Channel.shows, stands]
        exact .single (flows.step_take stands moved)
    | loadHead =>
        simp only [Channel.shows, stands]
        cases moved
        exact .nil s.view
    | read head =>
        simp only [Channel.shows, stands]
        simp only [Channel.consumerStep] at moved
        split at moved
        · cases moved
        all_goals
          cases moved
          exact .nil s.view
    | loadTail | returned => cases moved
  · cases moved

/-- Every step of either end is a run of the channel. -/
theorem Flows.run_step (flows : Flows s) {a : Act T} (moved : s.step a = some t) :
    Run CreditChannel.Step s.view (s.shows a) t.view := by
  cases a with
  | push item =>
      obtain ⟨quiet, rfl⟩ := guarded moved
      exact .single (.offer (ProducerState.offered_of_quiescent quiet) (flows.opened quiet))
  | producer => exact flows.run_producer moved
  | seeHead i => exact flows.run_seeHead moved
  | dropProducer =>
      obtain ⟨quiet, rfl⟩ := guarded moved
      have none_ := ProducerState.offered_of_quiescent quiet
      exact .single (lands (.close none_) none_.symm rfl rfl rfl rfl rfl rfl)
  | releaseProducer =>
      simp only [Channel.step] at moved
      split at moved
      · rename_i stands
        cases moved
        have same : ProducerState.offered s.producer = none := by rw [stands]; rfl
        exact hidden same.symm rfl rfl rfl rfl rfl rfl rfl
      · cases moved
  | pop | dropConsumer =>
      obtain ⟨-, rfl⟩ := guarded moved
      exact .nil s.view
  | consumer => exact flows.run_consumer moved
  | seeTail i => exact flows.run_seeTail moved
  | isClosed seen => exact flows.run_isClosed moved
  | drop =>
      simp only [Channel.step] at moved
      split at moved
      · split at moved
        · split at moved
          · cases moved
          all_goals
            cases moved
            exact .nil s.view
        · cases moved
      · cases moved

end Steps

/-! ### The refinement -/

section Runs

variable {capacity : Nat} {s t : Channel w T} {a : Act T} {labels : List (Act T)}

/-- The states of a ring of `capacity` slots in whose run no push writes over an item that waits. -/
def Sound (capacity : Nat) (s : Channel w T) : Prop :=
  Reach Channel.step SlotFree (.new w T capacity) s

theorem flows_of_sound (pos : 1 ≤ capacity) (small : capacity < 2 ^ w) (sound : Sound capacity s) :
    Flows s := by
  obtain ⟨v, m, tracks, inv, close, few⟩ := exists_tracked pos small sound
  exact flows_of_tracks tracks inv close few

/-- The ring refines the channel, whichever of the values it may be shown an end sees. -/
theorem refines_credits (pos : 1 ≤ capacity) (small : capacity < 2 ^ w) :
    Refines (Channel.step (w := w) (T := T)) SlotFree (Sound capacity) Channel.shows CreditChannel.Step
      Channel.view where
  keeps _ _ _ sound free moved := sound.tail free moved
  matched _ _ _ sound _ moved := (flows_of_sound pos small sound).run_step moved

/-- What is accepted was sent, and what is popped was taken. -/
theorem told_of_step (moved : s.step a = some t) :
    t.accepted = s.accepted ++ CreditChannel.sends (s.shows a) ∧
      t.popped = s.popped ++ CreditChannel.takes (s.shows a) := by
  have nothing : s.accepted = s.accepted ++ [] ∧ s.popped = s.popped ++ [] :=
    ⟨(List.append_nil _).symm, (List.append_nil _).symm⟩
  cases a with
  | push | dropProducer | pop | dropConsumer =>
      obtain ⟨-, rfl⟩ := guarded moved
      exact nothing
  | isClosed seen =>
      obtain ⟨-, rfl⟩ := guarded moved
      cases seen <;> exact nothing
  | producer =>
      simp only [Channel.step] at moved
      split at moved
      · rename_i pc stands
        simp only [Channel.shows, stands]
        cases pc with
        | storeTail item tail =>
            cases moved
            exact ⟨rfl, nothing.2⟩
        | loadTail | write =>
            cases moved
            exact nothing
        | loadHead | returned => cases moved
      · cases moved
  | consumer =>
      simp only [Channel.step] at moved
      split at moved
      · rename_i pc stands
        simp only [Channel.shows, stands]
        cases pc with
        | storeHead head item =>
            cases moved
            exact ⟨nothing.1, rfl⟩
        | read head =>
            simp only [Channel.consumerStep] at moved
            split at moved <;> cases moved <;> exact nothing
        | loadHead =>
            cases moved
            exact nothing
        | loadTail | returned => cases moved
      · cases moved
  | seeHead i =>
      simp only [Channel.step] at moved
      split at moved
      · rename_i stands shown
        simp only [Channel.shows, stands, shown]
        split at moved <;> cases moved <;> split <;> exact nothing
      · cases moved
  | seeTail i =>
      simp only [Channel.step] at moved
      split at moved
      · rename_i stands shown
        simp only [Channel.shows, stands, shown]
        cases moved
        split <;> exact nothing
      · cases moved
  | releaseProducer =>
      simp only [Channel.step] at moved
      split at moved <;> cases moved
      exact nothing
  | drop =>
      simp only [Channel.step] at moved
      split at moved
      · split at moved
        · split at moved <;> cases moved <;> exact nothing
        · cases moved
      · cases moved

theorem accepted_le_of_exec (executed : exec Channel.step s labels = some t) :
    s.accepted.length ≤ t.accepted.length := by
  rw [told_of_exec Channel.accepted _ (fun _ _ _ moved => (told_of_step moved).1) executed,
    List.length_append]
  exact Nat.le_add_right _ _

theorem cap_of_sound (sound : Sound capacity s) : s.ring.cap = capacity :=
  sound.invariant (P := fun s => s.ring.cap = capacity) rfl fun _ _ _ same _ moved =>
    (Channel.cap_of_step moved).trans same

/-- Where the capacity divides the word, or the indices do not wrap in the run, no push writes over an item
    that waits. -/
theorem Sound.throughout (sound : Sound capacity s) (pos : 1 ≤ capacity) (small : capacity < 2 ^ w)
    (executed : exec Channel.step s labels = some t)
    (fits : capacity ∣ 2 ^ w ∨ t.accepted.length < 2 ^ w) : Throughout Channel.step SlotFree s labels := by
  induction labels generalizing s with
  | nil => exact fun before a after u split => by simp at split
  | cons a labels inductionHypothesis =>
      obtain ⟨u, first, rest⟩ := Option.bind_eq_some_iff.1 executed
      obtain ⟨v, m, tracks, inv, -, -⟩ := exists_tracked pos small sound
      have fits' : s.ring.cap ∣ 2 ^ w ∨ s.accepted.length < 2 ^ w := by
        rw [cap_of_sound sound]
        exact fits.imp_right (accepted_le_of_exec executed).trans_lt
      have free : SlotFree s a := tracks.slotFree inv fits'
      exact .cons free first (inductionHypothesis (sound.tail free first) rest)

/-- Whatever values of each other's index the two ends see, in whatever order they take their steps: the
    ring is a channel with one credit for each of its slots. What was accepted is what the channel was
    sent, what was popped is what was taken from it, no credit is lost or made up, and so there are
    never more items than slots between the two. -/
theorem ring_refines_credits {s₀ : Channel w T} (made : channel w T capacity = some s₀)
    (executed : exec Channel.step s₀ labels = some s)
    (fits : capacity ∣ 2 ^ w ∨ s.accepted.length < 2 ^ w) :
    let events := shown Channel.step Channel.shows s₀ labels
    Run CreditChannel.Step (.new capacity) events s.view ∧
      CreditChannel.Lawful capacity events s.view ∧
      CreditChannel.sends events = s.accepted ∧ CreditChannel.takes events = s.popped := by
  obtain ⟨⟨pos, small⟩, rfl⟩ := guarded made
  have sound : Sound capacity (.new w T capacity) := .refl _
  have run : Run CreditChannel.Step (.new capacity) _ s.view :=
    (refines_credits pos small).run sound (sound.throughout pos small executed fits) executed
  have accepted := told_of_exec Channel.accepted _ (fun _ _ _ moved => (told_of_step moved).1) executed
  have popped := told_of_exec Channel.popped _ (fun _ _ _ moved => (told_of_step moved).2) executed
  exact ⟨run, CreditChannel.lawful_of_run run, accepted.symm, popped.symm⟩

/-- A push is refused by a stale `head`, though a slot is free again, and a newer one lets it through. -/
theorem ring_refines_credits_stale :
    ∃ s : Channel 64 Nat, exec Channel.step (.new 64 Nat 2)
        (pushActs 0 7 ++ pushActs 0 8 ++ popActs 1 ++ [.push 9, .producer, .seeHead 0] ++ pushActs 1 9) =
          some s ∧
      Run CreditChannel.Step (.new 2)
        [.offer 7, .credit 0, .send 7, .offer 8, .credit 0, .send 8, .deliver 1, .take 7,
          .offer 9, .credit 0, .refuse 9, .offer 9, .credit 1, .send 9] s.view := by
  have made : channel 64 Nat 2 = some (.new 64 Nat 2) := rfl
  have goesOn : ∃ s : Channel 64 Nat, exec Channel.step (.new 64 Nat 2)
      (pushActs 0 7 ++ pushActs 0 8 ++ popActs 1 ++ [.push 9, .producer, .seeHead 0] ++ pushActs 1 9) =
        some s := ⟨_, rfl⟩
  obtain ⟨s, executed⟩ := goesOn
  exact ⟨s, executed, (ring_refines_credits made executed (.inl (by decide))).1⟩

end Runs

end AetherFlow.Spsc
