/-
Module: AetherFlow.Spsc.Invariant
Purpose: What relates the two indices of the ring, the two stale views, the slots and the program
  counters, and that every step of either end keeps it while fewer items were accepted than a `usize`
  counts. The producer's bound is on its view, not on the real `head`: the tail never runs more than
  a capacity ahead of the oldest head the producer may still be shown.
Trusted boundary: none
Main exports: View, ChannelInv, ChannelInv.step, RingCorrect
-/
import AetherFlow.Lib.Word
import AetherFlow.Spsc.Ring

namespace AetherFlow.Spsc

open Mpsc (MaybeUninit TrySendError)
open Transition Word

/-! ### Views -/

/-- `view` lists the values from `oldest` up to `newest`. -/
def View (view : List Nat) (oldest newest : Nat) : Prop :=
  oldest ≤ newest ∧ view = List.range' oldest (newest + 1 - oldest)

namespace View

variable {view : List Nat} {oldest newest i value : Nat}

theorem single (newest : Nat) : View [newest] newest newest :=
  ⟨le_rfl, by simp⟩

/-- A value of the view, and the view once that value was seen. -/
theorem see (shown : View view oldest newest) (seen : view[i]? = some value) :
    oldest ≤ value ∧ View (view.drop i) value newest := by
  obtain ⟨order, rfl⟩ := shown
  obtain ⟨inside, rfl⟩ := List.getElem?_eq_some_iff.1 seen
  rw [List.length_range'] at inside
  rw [List.getElem_range', Nat.one_mul]
  refine ⟨Nat.le_add_right _ _, by omega, ?_⟩
  rw [List.drop_range', Nat.mul_one]
  congr 1
  omega

/-- The index moves on by one. -/
theorem advance (shown : View view oldest newest) :
    View (view ++ [newest + 1]) oldest (newest + 1) := by
  obtain ⟨order, rfl⟩ := shown
  refine ⟨by omega, ?_⟩
  have more : newest + 1 + 1 - oldest = newest + 1 - oldest + 1 := by omega
  rw [more, List.range'_1_concat]
  congr 2
  omega

end View

/-! ### The invariant -/

section Invariant

variable {w : Nat} {T : Type*}

/-- How many slots beyond `tail` the producer has made sure of. -/
def ProducerState.reserved : ProducerState T → Nat
  | .push (.write _ _) | .push (.storeTail _ _) => 1
  | _ => 0

/-- How many slots from `head` on the consumer has made sure of. -/
def ConsumerState.claimed : ConsumerState T → Nat
  | .pop (.read _) | .pop (.storeHead _ _) => 1
  | _ => 0

/-- The producer's locals. -/
def ProducerState.Ok (ring : Ring w T) : ProducerState T → Prop
  | .push (.loadHead _ tail) | .push (.write _ tail) => tail = ring.tail
  | .push (.storeTail item tail) =>
      tail = ring.tail ∧ ring.slots (tail % ring.cap) = .live item
  | _ => True

/-- The consumer's locals. -/
def ConsumerState.Ok (ring : Ring w T) (accepted : List T) : ConsumerState T → Prop
  | .pop (.loadTail head) | .pop (.read head) => head = ring.head
  | .pop (.storeHead head item) =>
      head = ring.head ∧ accepted[head]? = some item ∧ ¬ (ring.slots (head % ring.cap)).IsLive
  | _ => True

/-- Both the producer and the consumer hold a reference as long as they are there. -/
def ProducerState.holds : ProducerState T → Nat
  | .gone => 0
  | _ => 1

@[inherit_doc ProducerState.holds]
def ConsumerState.holds : ConsumerState T → Nat
  | .gone => 0
  | _ => 1

/-- How many slots from `head` on the consumer has emptied. -/
def ConsumerState.taken : ConsumerState T → Nat
  | .pop (.storeHead _ _) => 1
  | _ => 0

/-- The first position whose slot holds its item: past the one a `try_pop` has just emptied, or past
    those `Ring::drop` has dropped. -/
def Channel.front (s : Channel w T) : Nat :=
  match s.dropping with
  | some (pos, _) => pos
  | none => s.ring.head + s.consumer.taken

structure ChannelInv (s : Channel w T) : Prop where
  cap_pos : 1 ≤ s.ring.cap
  cap_lt : s.ring.cap < 2 ^ w
  tail_eq : s.ring.tail = s.accepted.length
  head_eq : s.ring.head = s.popped.length
  popped_eq : s.popped = s.accepted.take s.ring.head
  headView : ∃ oldest, View s.headView oldest s.ring.head ∧
    s.ring.tail + s.producer.reserved ≤ oldest + s.ring.cap
  tailView : ∃ oldest, View s.tailView oldest s.ring.tail ∧
    s.ring.head + s.consumer.claimed ≤ oldest
  producer : s.producer.Ok s.ring
  consumer : s.consumer.Ok s.ring s.accepted
  used : ∀ p item, s.front ≤ p → s.accepted[p]? = some item →
    s.ring.slots (p % s.ring.cap) = .live item
  free : ∀ p, s.ring.tail + s.producer.reserved ≤ p → p < s.ring.head + s.ring.cap →
    ¬ (s.ring.slots (p % s.ring.cap)).IsLive
  free_tail : ∀ item tail, s.producer = .push (.write item tail) →
    ¬ (s.ring.slots (tail % s.ring.cap)).IsLive
  strong : s.strong = s.producer.holds + s.consumer.holds
  running : s.dropping = none ↔ 0 < s.strong
  kept : s.dropping = none → s.dropped = []
  dropping : ∀ pos stop, s.dropping = some (pos, stop) → stop = s.ring.tail ∧ s.ring.head ≤ pos ∧
    pos ≤ stop ∧ s.popped ++ s.dropped = s.accepted.take pos
  fulls : ∀ full ∈ s.fulls, full.accepted = full.observed + s.ring.cap

theorem ProducerState.of_quiescent {producer : ProducerState T}
    (quiet : producer.quiescent = true) :
    producer.reserved = 0 ∧ producer.holds = 1 := by
  rcases producer with _ | (_ | _ | _ | _ | _) | _ | _ <;> first | exact ⟨rfl, rfl⟩ | cases quiet

theorem ConsumerState.of_quiescent {consumer : ConsumerState T}
    (quiet : consumer.quiescent = true) :
    consumer.claimed = 0 ∧ consumer.taken = 0 ∧ consumer.holds = 1 := by
  rcases consumer with _ | (_ | _ | _ | _ | _) | _ | _ <;> first | exact ⟨rfl, rfl, rfl⟩ | cases quiet

theorem Ring.store_self (ring : Ring w T) (pos : Nat) (val : MaybeUninit T) :
    (ring.store pos val).slots (pos % ring.cap) = val :=
  Function.update_self _ _ _

theorem Ring.store_of_ne (ring : Ring w T) {pos p : Nat} {val : MaybeUninit T}
    (apart : p % ring.cap ≠ pos % ring.cap) :
    (ring.store pos val).slots (p % ring.cap) = ring.slots (p % ring.cap) :=
  Function.update_of_ne apart _ _

/-- A fresh channel. -/
theorem channelInv_new {cap : Nat} (pos : 1 ≤ cap) (small : cap < 2 ^ w) :
    ChannelInv (.new w T cap) where
  cap_pos := pos
  cap_lt := small
  tail_eq := rfl
  head_eq := rfl
  popped_eq := rfl
  headView := ⟨0, .single 0, Nat.zero_le _⟩
  tailView := ⟨0, .single 0, le_rfl⟩
  producer := trivial
  consumer := trivial
  used p item _ found := by simp [Channel.new] at found
  free p _ _ := id
  free_tail item tail there := by cases there
  strong := rfl
  running := ⟨fun _ => Nat.zero_lt_two, fun _ => rfl⟩
  kept _ := rfl
  dropping pos stop there := by cases there
  fulls full member := by cases member

namespace ChannelInv

variable {s t : Channel w T}

theorem head_lt_tail_of_claimed (inv : ChannelInv s) :
    s.ring.head + s.consumer.claimed ≤ s.ring.tail := by
  obtain ⟨oldest, view, claimed⟩ := inv.tailView
  have := view.1
  omega

theorem tail_le (inv : ChannelInv s) :
    s.ring.tail + s.producer.reserved ≤ s.ring.head + s.ring.cap := by
  obtain ⟨oldest, view, reserved⟩ := inv.headView
  have := view.1
  omega

/-- While a reference is left `Ring::drop` does not run. -/
theorem not_dropping (inv : ChannelInv s) (left : 0 < s.producer.holds + s.consumer.holds) :
    s.dropping = none :=
  inv.running.2 (by rw [inv.strong]; exact left)

/-! ### The producer's steps -/

/-- A step of the producer on its own locals. -/
theorem setProducer {pc : ProducerState T} (inv : ChannelInv s)
    (reserved : pc.reserved = s.producer.reserved) (ok : pc.Ok s.ring)
    (waits : ∀ item tail, pc ≠ .push (.write item tail)) (holds : pc.holds = s.producer.holds) :
    ChannelInv { s with producer := pc } :=
  { inv with
    headView := by
      obtain ⟨oldest, view, bound⟩ := inv.headView
      exact ⟨oldest, view, by rw [reserved]; exact bound⟩
    producer := ok
    free := by
      intro p low high
      rw [reserved] at low
      exact inv.free p low high
    free_tail := fun item tail there => absurd there (waits item tail)
    strong := by rw [holds]; exact inv.strong }

/-- `try_push` has seen a head: it has its slot, or the ring is full by what it saw. The old view keeps
    the tail within a capacity of what it saw, so the subtraction does not wrap. -/
theorem seeHead {item : T} {tail i value : Nat} (inv : ChannelInv s) 
    (small : s.accepted.length < 2 ^ w)
    (stands : s.producer = .push (.loadHead item tail)) (seen : s.headView[i]? = some value)
    (moved : s.step (.seeHead i) = some t) : ChannelInv t := by
  obtain ⟨oldest, view, bound⟩ := inv.headView
  obtain ⟨older, view'⟩ := view.see seen
  have own : tail = s.ring.tail := by
    have := inv.producer
    rw [stands] at this
    exact this
  have none : s.producer.reserved = 0 := by rw [stands]; rfl
  have order : value ≤ s.ring.head := view'.1
  have behind := inv.head_lt_tail_of_claimed
  have held : s.producer.holds = 1 := by rw [stands]; rfl
  have distance : wrappingSub w tail value = s.ring.tail - value := by
    have := inv.tail_eq
    rw [wrappingSub, own, show s.ring.tail + 2 ^ w - value = s.ring.tail - value + 2 ^ w by omega,
      Nat.add_mod_right, Nat.mod_eq_of_lt (by omega)]
  simp only [Channel.step, stands, seen, distance] at moved
  split at moved
  · rename_i full
    cases moved
    exact { inv with
      headView := ⟨value, view', by show s.ring.tail + 0 ≤ value + s.ring.cap; omega⟩
      producer := trivial
      free := fun p low high => inv.free p (by rw [none]; exact low) high
      free_tail := fun _ _ there => by cases there
      strong := by rw [inv.strong, held]; rfl
      fulls := by
        intro answer member
        rcases List.mem_append.1 member with member | member
        · exact inv.fulls answer member
        · obtain rfl := List.mem_singleton.1 member
          have := inv.tail_eq
          show s.accepted.length = value + s.ring.cap
          omega }
  · rename_i room
    cases moved
    have fits : s.ring.tail + 1 ≤ value + s.ring.cap := by omega
    exact { inv with
      headView := ⟨value, view', fits⟩
      producer := own
      free := fun p low high => inv.free p (by rw [none]; exact (Nat.le_succ _).trans low) high
      free_tail := by
        intro item' tail' there
        cases there
        rw [own]
        exact inv.free s.ring.tail (by rw [none]; exact le_rfl) (by omega)
      strong := by rw [inv.strong, held]; rfl }

/-- `try_push` writes its item into the slot at `tail`. -/
theorem write {item : T} {tail : Nat} (inv : ChannelInv s)
    (stands : s.producer = .push (.write item tail)) :
    ChannelInv { s with
      ring := s.ring.store tail (.live item)
      producer := .push (.storeTail item tail) } := by
  have own : tail = s.ring.tail := by
    have := inv.producer
    rw [stands] at this
    exact this
  have one : s.producer.reserved = 1 := by rw [stands]; rfl
  have held : s.producer.holds = 1 := by rw [stands]; rfl
  have alive := inv.not_dropping (by omega)
  have window := inv.tail_le
  have behind := inv.head_lt_tail_of_claimed
  rw [one] at window
  -- The slots of the items are elsewhere in the window.
  have elsewhere : ∀ p, s.ring.head ≤ p → p < s.ring.tail →
      (s.ring.store tail (.live item)).slots (p % s.ring.cap) = s.ring.slots (p % s.ring.cap) := by
    intro p low high
    rw [own]
    exact s.ring.store_of_ne (mod_ne_mod_of_near high (by omega))
  exact { inv with
    headView := by
      obtain ⟨oldest, view, bound⟩ := inv.headView
      rw [one] at bound
      exact ⟨oldest, view, bound⟩
    producer := ⟨own, s.ring.store_self tail _⟩
    consumer := by
      have ok := inv.consumer
      rcases consumer : s.consumer with _ | (_ | _ | _ | ⟨head, taken⟩ | _) | _ | _ <;>
        rw [consumer] at ok
      case pop.storeHead =>
        obtain ⟨rfl, found, empty⟩ := ok
        have claimed : s.consumer.claimed = 1 := by rw [consumer]; rfl
        refine ⟨rfl, found, ?_⟩
        show ¬ ((s.ring.store tail (.live item)).slots (s.ring.head % s.ring.cap)).IsLive
        rw [elsewhere _ le_rfl (by omega)]
        exact empty
      all_goals exact ok
    used := by
      intro p other low found
      have low' : s.front ≤ p := low
      have after : s.ring.head ≤ p := by
        rw [Channel.front, alive] at low'
        exact (Nat.le_add_right _ _).trans low'
      have before : p < s.ring.tail := inv.tail_eq ▸ (List.getElem?_eq_some_iff.1 found).1
      exact (elsewhere p after before).trans (inv.used p other low' found)
    free := by
      intro p low high
      have beyond : s.ring.tail + 1 ≤ p := low
      have apart : p % s.ring.cap ≠ tail % s.ring.cap := by
        rw [own]
        have : p < s.ring.head + s.ring.cap := high
        exact (mod_ne_mod_of_near (by omega) (by omega)).symm
      show ¬ ((s.ring.store tail (.live item)).slots (p % s.ring.cap)).IsLive
      rw [s.ring.store_of_ne apart]
      exact inv.free p (by rw [one]; exact beyond) high
    free_tail := fun _ _ there => by cases there
    strong := by rw [inv.strong, held]; rfl }

/-- `try_push` publishes its item. -/
theorem storeTail {item : T} {tail : Nat} (inv : ChannelInv s)
    (small : s.accepted.length + 1 < 2 ^ w)
    (stands : s.producer = .push (.storeTail item tail)) :
    ChannelInv (w := w) { s with
      ring := { s.ring with tail := wrappingSucc w tail }
      tailView := s.tailView ++ [wrappingSucc w tail]
      accepted := s.accepted ++ [item]
      producer := .push (.returned (.ok ())) } := by
  obtain ⟨own, written⟩ : tail = s.ring.tail ∧ s.ring.slots (tail % s.ring.cap) = .live item := by
    have := inv.producer
    rw [stands] at this
    exact this
  have one : s.producer.reserved = 1 := by rw [stands]; rfl
  have held : s.producer.holds = 1 := by rw [stands]; rfl
  have alive := inv.not_dropping (by omega)
  have behind := inv.head_lt_tail_of_claimed
  have length := inv.tail_eq
  have next : wrappingSucc w tail = s.ring.tail + 1 := by
    rw [wrappingSucc, own, Nat.mod_eq_of_lt (by omega)]
  rw [next]
  exact { inv with
    tail_eq := by rw [List.length_append, ← length]; rfl
    popped_eq :=
      inv.popped_eq.trans (List.take_append_of_le_length (show s.ring.head ≤ _ by omega)).symm
    headView := by
      obtain ⟨oldest, view, bound⟩ := inv.headView
      rw [one] at bound
      exact ⟨oldest, view, bound⟩
    tailView := by
      obtain ⟨oldest, view, bound⟩ := inv.tailView
      exact ⟨oldest, view.advance, bound⟩
    producer := trivial
    consumer := by
      have ok := inv.consumer
      rcases consumer : s.consumer with _ | (_ | _ | _ | ⟨head, taken⟩ | _) | _ | _ <;>
        rw [consumer] at ok
      case pop.storeHead =>
        obtain ⟨rfl, found, empty⟩ := ok
        refine ⟨rfl, ?_, empty⟩
        rw [List.getElem?_append_left (List.getElem?_eq_some_iff.1 found).1]
        exact found
      all_goals exact ok
    used := by
      intro p other low found
      by_cases last : p = s.accepted.length
      · subst last
        rw [List.getElem?_concat_length] at found
        cases found
        rw [← length, ← own]
        exact written
      · have inside : p < s.accepted.length := by
          have := (List.getElem?_eq_some_iff.1 found).1
          rw [List.length_append, List.length_singleton] at this
          omega
        rw [List.getElem?_append_left inside] at found
        exact inv.used p other low found
    free := by
      intro p low high
      exact inv.free p (by rw [one]; exact low) high
    free_tail := fun _ _ there => by cases there
    strong := by rw [inv.strong, held]; rfl
    kept := inv.kept
    dropping := fun pos stop there => by
      have : s.dropping = some (pos, stop) := there
      rw [alive] at this
      cases this }

/-! ### The consumer's steps -/

/-- A step of the consumer on its own locals. -/
theorem setConsumer {pc : ConsumerState T} (inv : ChannelInv s)
    (claimed : pc.claimed = s.consumer.claimed) (taken : pc.taken = s.consumer.taken)
    (ok : pc.Ok s.ring s.accepted) (holds : pc.holds = s.consumer.holds) :
    ChannelInv { s with consumer := pc } :=
  { inv with
    tailView := by
      obtain ⟨oldest, view, bound⟩ := inv.tailView
      exact ⟨oldest, view, by rw [claimed]; exact bound⟩
    consumer := ok
    used := by
      intro p item low found
      have same : Channel.front { s with consumer := pc } = s.front := by
        simp only [Channel.front, taken]
      exact inv.used p item (same ▸ low) found
    strong := by rw [holds]; exact inv.strong }

/-- `try_pop` has seen a tail: the ring is empty by what it saw, or the item at `head` is its own. -/
theorem seeTail {head i value : Nat} (inv : ChannelInv s)
    (stands : s.consumer = .pop (.loadTail head)) (seen : s.tailView[i]? = some value) :
    ChannelInv { s with
      tailView := s.tailView.drop i
      consumer := .pop (if head = value then .returned none else .read head) } := by
  obtain ⟨oldest, view, bound⟩ := inv.tailView
  obtain ⟨older, view'⟩ := view.see seen
  have own : head = s.ring.head := by
    have := inv.consumer
    rw [stands] at this
    exact this
  have held : s.consumer.holds = 1 := by rw [stands]; rfl
  have taken : s.consumer.taken = 0 := by rw [stands]; rfl
  have same : ∀ pc : ConsumerState T, pc.taken = 0 →
      Channel.front { s with consumer := pc } = s.front := by
    intro pc none
    simp only [Channel.front, none, taken]
  have ahead : s.ring.head ≤ value := by omega
  split
  · exact { inv with
      tailView := ⟨value, view', ahead⟩
      consumer := trivial
      used := fun p item low found => inv.used p item (same (.pop (.returned none)) rfl ▸ low) found
      strong := by rw [inv.strong, held]; rfl }
  · rename_i differ
    exact { inv with
      tailView := ⟨value, view', show s.ring.head + 1 ≤ value by omega⟩
      consumer := own
      used := fun p item low found => inv.used p item (same (.pop (.read head)) rfl ▸ low) found
      strong := by rw [inv.strong, held]; rfl }

/-- The item `try_pop` is about to read is in its slot, and it is the next one in order. -/
theorem read_slot {head : Nat} (inv : ChannelInv s) (stands : s.consumer = .pop (.read head)) :
    ∃ item, head = s.ring.head ∧ s.accepted[head]? = some item ∧
      s.ring.slots (head % s.ring.cap) = .live item := by
  have own : head = s.ring.head := by
    have := inv.consumer
    rw [stands] at this
    exact this
  have claimed : s.consumer.claimed = 1 := by rw [stands]; rfl
  have held : s.consumer.holds = 1 := by rw [stands]; rfl
  have taken : s.consumer.taken = 0 := by rw [stands]; rfl
  have alive := inv.not_dropping (by omega)
  have behind := inv.head_lt_tail_of_claimed
  have length := inv.tail_eq
  have inside : head < s.accepted.length := by omega
  have found : s.accepted[head]? = some s.accepted[head] := List.getElem?_eq_getElem inside
  refine ⟨_, own, found, inv.used head _ ?_ found⟩
  rw [Channel.front, alive]
  show s.ring.head + s.consumer.taken ≤ head
  omega

/-- `try_pop` moves the item out of its slot. -/
theorem read {head : Nat} {item : T} (inv : ChannelInv s)
    (stands : s.consumer = .pop (.read head))
    (slot : s.ring.slots (head % s.ring.cap) = .live item) :
    ChannelInv { s with
      ring := s.ring.store head (.moved item)
      consumer := .pop (.storeHead head item) } := by
  obtain ⟨item', own, found, slot'⟩ := inv.read_slot stands
  obtain rfl : item = item' := by
    rw [slot] at slot'
    cases slot'
    rfl
  have claimed : s.consumer.claimed = 1 := by rw [stands]; rfl
  have held : s.consumer.holds = 1 := by rw [stands]; rfl
  have alive := inv.not_dropping (by omega)
  have behind := inv.head_lt_tail_of_claimed
  have window := inv.tail_le
  have emptied : ¬ ((s.ring.store head (.moved item)).slots (head % s.ring.cap)).IsLive := by
    rw [s.ring.store_self]
    exact id
  have elsewhere : ∀ p, s.ring.head < p → p < s.ring.head + s.ring.cap →
      (s.ring.store head (.moved item)).slots (p % s.ring.cap) = s.ring.slots (p % s.ring.cap) := by
    intro p low high
    rw [own]
    exact s.ring.store_of_ne (mod_ne_mod_of_near low (by omega)).symm
  exact { inv with
    tailView := by
      obtain ⟨oldest, view, bound⟩ := inv.tailView
      rw [claimed] at bound
      exact ⟨oldest, view, bound⟩
    producer := by
      have ok := inv.producer
      rcases producer : s.producer with _ | (_ | _ | _ | ⟨pushed, tail⟩ | _) | _ | _ <;>
        rw [producer] at ok
      case push.storeTail =>
        obtain ⟨rfl, written⟩ := ok
        have reserved : s.producer.reserved = 1 := by rw [producer]; rfl
        exact ⟨rfl, (elsewhere _ (by omega) (by omega)).trans written⟩
      all_goals exact ok
    consumer := ⟨own, found, emptied⟩
    used := by
      intro p other low there
      have after : s.ring.head + 1 ≤ p := by
        rw [Channel.front, show Channel.dropping _ = none from alive] at low
        exact low
      have before : p < s.accepted.length := (List.getElem?_eq_some_iff.1 there).1
      have := inv.tail_eq
      refine (elsewhere p (by omega) (by omega)).trans (inv.used p other ?_ there)
      rw [Channel.front, alive, stands]
      exact (Nat.le_succ _).trans after
    free := by
      intro p low high
      have low' : s.ring.tail + s.producer.reserved ≤ p := low
      show ¬ ((s.ring.store head (.moved item)).slots (p % s.ring.cap)).IsLive
      rw [elsewhere p (by omega) high]
      exact inv.free p low high
    free_tail := by
      intro pushed tail there
      have own' : tail = s.ring.tail := by
        have := inv.producer
        rw [there] at this
        exact this
      have reserved : s.producer.reserved = 1 := by rw [there]; rfl
      show ¬ ((s.ring.store head (.moved item)).slots (tail % s.ring.cap)).IsLive
      rw [elsewhere tail (by omega) (by omega)]
      exact inv.free_tail pushed tail there
    strong := by rw [inv.strong, held]; rfl }

/-- `try_pop` frees the slot. -/
theorem storeHead {head : Nat} {item : T} (inv : ChannelInv s)
    (small : s.accepted.length < 2 ^ w)
    (stands : s.consumer = .pop (.storeHead head item)) :
    ChannelInv (w := w) { s with
      ring := { s.ring with head := wrappingSucc w head }
      headView := s.headView ++ [wrappingSucc w head]
      popped := s.popped ++ [item]
      consumer := .pop (.returned (some item)) } := by
  obtain ⟨own, found, emptied⟩ : head = s.ring.head ∧ s.accepted[head]? = some item ∧
      ¬ (s.ring.slots (head % s.ring.cap)).IsLive := by
    have := inv.consumer
    rw [stands] at this
    exact this
  have claimed : s.consumer.claimed = 1 := by rw [stands]; rfl
  have held : s.consumer.holds = 1 := by rw [stands]; rfl
  have alive := inv.not_dropping (by omega)
  have behind := inv.head_lt_tail_of_claimed
  have length := inv.tail_eq
  have next : wrappingSucc w head = s.ring.head + 1 := by
    rw [wrappingSucc, own, Nat.mod_eq_of_lt (by omega)]
  rw [next]
  exact { inv with
    head_eq := by rw [List.length_append, ← inv.head_eq]; rfl
    popped_eq := by
      rw [List.take_add_one, ← own, found]
      exact congrArg (· ++ [item]) (own ▸ inv.popped_eq)
    headView := by
      obtain ⟨oldest, view, bound⟩ := inv.headView
      exact ⟨oldest, view.advance, bound⟩
    tailView := by
      obtain ⟨oldest, view, bound⟩ := inv.tailView
      rw [claimed] at bound
      exact ⟨oldest, view, bound⟩
    producer := by
      have ok := inv.producer
      rcases producer : s.producer with _ | (_ | _ | _ | _ | _) | _ | _ <;>
        rw [producer] at ok <;> exact ok
    consumer := trivial
    used := by
      intro p other low there
      refine inv.used p other ?_ there
      rw [Channel.front, show Channel.dropping _ = none from alive] at low
      rw [Channel.front, alive, stands]
      exact low
    free := by
      intro p low high
      have low' : s.ring.tail + s.producer.reserved ≤ p := low
      by_cases last : p = s.ring.head + s.ring.cap
      · rw [last]
        show ¬ (s.ring.slots ((s.ring.head + s.ring.cap) % s.ring.cap)).IsLive
        rw [Nat.add_mod_right, ← own]
        exact emptied
      · have high' : p < s.ring.head + 1 + s.ring.cap := high
        exact inv.free p low (by omega)
    strong := by rw [inv.strong, held]; rfl
    dropping := fun pos stop there => by
      have : s.dropping = some (pos, stop) := there
      rw [alive] at this
      cases this }

/-! ### Closing and dropping -/

/-- An end gives up its reference; the last one to do so starts `Ring::drop` at `head`. -/
theorem release {pc : ProducerState T} {cc : ConsumerState T} (inv : ChannelInv s)
    (reserved : pc.reserved = s.producer.reserved) (pcOk : pc.Ok s.ring)
    (own : ∀ item tail, pc = .push (.write item tail) → s.producer = .push (.write item tail))
    (claimed : cc.claimed = s.consumer.claimed) (taken : cc.taken = s.consumer.taken)
    (ccOk : cc.Ok s.ring s.accepted) (idle : s.strong = 1 → s.consumer.taken = 0)
    (holds : pc.holds + cc.holds + 1 = s.producer.holds + s.consumer.holds) :
    ChannelInv { s.release with producer := pc, consumer := cc } := by
  have alive := inv.not_dropping (by omega)
  have strong := inv.strong
  have behind := inv.head_lt_tail_of_claimed
  have start : ∀ pos stop, (s.release).dropping = some (pos, stop) →
      pos = s.ring.head ∧ stop = s.ring.tail := by
    intro pos stop there
    rw [Channel.release] at there
    dsimp only at there
    split at there
    · cases there
      exact ⟨rfl, rfl⟩
    · rw [alive] at there
      cases there
  have front : Channel.front { s.release with producer := pc, consumer := cc } = s.front := by
    simp only [Channel.front, Channel.release, alive, taken]
    split
    · rename_i pos stop there
      split at there
      · rename_i last
        cases there
        rw [idle last]
        rfl
      · cases there
    · rfl
  exact { inv with
    headView := by
      obtain ⟨oldest, view, bound⟩ := inv.headView
      exact ⟨oldest, view, by rw [reserved]; exact bound⟩
    tailView := by
      obtain ⟨oldest, view, bound⟩ := inv.tailView
      exact ⟨oldest, view, by rw [claimed]; exact bound⟩
    producer := pcOk
    consumer := ccOk
    used := fun p item low found => inv.used p item (front ▸ low) found
    free := fun p low high => inv.free p (by rw [← reserved]; exact low) high
    free_tail := fun item tail there => inv.free_tail item tail (own item tail there)
    strong := by
      show s.strong - 1 = pc.holds + cc.holds
      omega
    running := by
      show (if s.strong = 1 then some (s.ring.head, s.ring.tail) else s.dropping) = none ↔
        0 < s.strong - 1
      by_cases last : s.strong = 1
      · rw [if_pos last]
        simp [last]
      · rw [if_neg last, alive]
        simp only [true_iff]
        omega
    kept := fun _ => inv.kept alive
    dropping := by
      intro pos stop there
      obtain ⟨rfl, rfl⟩ := start pos stop there
      refine ⟨rfl, le_rfl, ?_, ?_⟩
      · show s.ring.head ≤ s.ring.tail
        omega
      · show s.popped ++ s.dropped = _
        rw [inv.kept alive, List.append_nil]
        exact inv.popped_eq }

/-- The item `Ring::drop` is about to drop is in its slot, and it is the next one in order. -/
theorem drop_slot {pos stop : Nat} (inv : ChannelInv s) (dropping : s.dropping = some (pos, stop))
    (more : pos < stop) :
    ∃ item, s.accepted[pos]? = some item ∧ s.ring.slots (pos % s.ring.cap) = .live item := by
  obtain ⟨rfl, _, _, _⟩ := inv.dropping pos stop dropping
  have length := inv.tail_eq
  have inside : pos < s.accepted.length := by omega
  have found : s.accepted[pos]? = some s.accepted[pos] := List.getElem?_eq_getElem inside
  refine ⟨_, found, inv.used pos _ ?_ found⟩
  rw [Channel.front, dropping]

/-- `Ring::drop` drops one item. -/
theorem drop {pos stop : Nat} {item : T} (inv : ChannelInv s)
    (dropping : s.dropping = some (pos, stop)) (more : pos < stop)
    (slot : s.ring.slots (pos % s.ring.cap) = .live item) :
    ChannelInv { s with
      ring := s.ring.store pos (.moved item)
      dropped := s.dropped ++ [item]
      dropping := some (pos + 1, stop) } := by
  obtain ⟨item', found, slot'⟩ := inv.drop_slot dropping more
  obtain rfl : item = item' := by
    rw [slot] at slot'
    cases slot'
    rfl
  obtain ⟨rfl, low, high, prior⟩ := inv.dropping pos stop dropping
  have window := inv.tail_le
  -- Both ends are gone, so neither is in the middle of a call.
  have gone : s.producer.holds + s.consumer.holds = 0 := by
    by_contra left
    have := inv.not_dropping (by omega)
    rw [dropping] at this
    cases this
  obtain ⟨producer, consumer⟩ : s.producer = .gone ∧ s.consumer = .gone := by
    constructor
    · cases there : s.producer <;> rw [there] at gone <;>
        simp [ProducerState.holds] at gone ⊢
    · cases there : s.consumer <;> rw [there] at gone <;>
        simp [ConsumerState.holds] at gone ⊢
  have elsewhere : ∀ p, pos < p → p < s.ring.head + s.ring.cap →
      (s.ring.store pos (.moved item)).slots (p % s.ring.cap) = s.ring.slots (p % s.ring.cap) := by
    intro p after before
    exact s.ring.store_of_ne (mod_ne_mod_of_near after (by omega)).symm
  exact { inv with
    producer := by
      rw [show Channel.producer _ = ProducerState.gone from producer]
      trivial
    consumer := by
      rw [show Channel.consumer _ = ConsumerState.gone from consumer]
      trivial
    used := by
      intro p other after there
      have after' : pos + 1 ≤ p := after
      have before : p < s.accepted.length := (List.getElem?_eq_some_iff.1 there).1
      have := inv.tail_eq
      refine (elsewhere p (by omega) (by omega)).trans (inv.used p other ?_ there)
      rw [Channel.front, dropping]
      exact (Nat.le_succ _).trans after'
    free := by
      intro p after before
      have after' : s.ring.tail + s.producer.reserved ≤ p := after
      show ¬ ((s.ring.store pos (.moved item)).slots (p % s.ring.cap)).IsLive
      rw [elsewhere p (by omega) before]
      exact inv.free p after before
    free_tail := by
      intro pushed tail there
      have : s.producer = .push (.write pushed tail) := there
      rw [producer] at this
      cases this
    running := by
      have stopped : ¬ 0 < s.strong := by rw [inv.strong, gone]; exact Nat.lt_irrefl 0
      exact ⟨fun none => (by cases none), fun left => absurd left stopped⟩
    kept := fun none => by cases none
    dropping := by
      intro pos' stop' there
      cases there
      refine ⟨rfl, low.trans (Nat.le_succ _), more, ?_⟩
      rw [List.take_add_one, found, ← List.append_assoc]
      exact congrArg (· ++ [item]) prior }

/-! ### Every step -/

theorem producerStep {pc : PushPc T} (inv : ChannelInv s) (small : t.accepted.length < 2 ^ w)
    (stands : s.producer = .push pc) (moved : s.producerStep pc = some t) : ChannelInv t := by
  cases pc with
  | loadTail item =>
      cases moved
      exact inv.setProducer (by rw [stands]; rfl) rfl (fun _ _ there => by cases there)
        (by rw [stands]; rfl)
  | loadHead item tail => cases moved
  | write item tail =>
      cases moved
      exact inv.write stands
  | storeTail item tail =>
      cases moved
      exact inv.storeTail (by simpa using small) stands
  | returned result => cases moved

theorem consumerStep {pc : PopPc T} (inv : ChannelInv s) (small : s.accepted.length < 2 ^ w)
    (stands : s.consumer = .pop pc) (moved : s.consumerStep pc = some t) : ChannelInv t := by
  cases pc with
  | loadHead =>
      cases moved
      exact inv.setConsumer (by rw [stands]; rfl) (by rw [stands]; rfl) rfl (by rw [stands]; rfl)
  | loadTail head => cases moved
  | read head =>
      obtain ⟨item, _, _, slot⟩ := inv.read_slot stands
      simp only [Channel.consumerStep, slot, Option.some.injEq] at moved
      subst moved
      exact inv.read stands slot
  | storeHead head item =>
      cases moved
      exact inv.storeHead small stands
  | returned result => cases moved

/-- Every step keeps the invariant while the accepted items can be counted. -/
theorem step {a : Act T} (inv : ChannelInv s) (before : s.accepted.length < 2 ^ w)
    (after : t.accepted.length < 2 ^ w) (moved : s.step a = some t) : ChannelInv t := by
  cases a with
  | push item =>
      obtain ⟨quiet, rfl⟩ := guarded moved
      obtain ⟨none, held⟩ := ProducerState.of_quiescent quiet
      exact inv.setProducer none.symm trivial (fun _ _ there => by cases there) held.symm
  | producer =>
      simp only [Channel.step] at moved
      split at moved
      · rename_i stands
        exact inv.producerStep after stands moved
      · cases moved
  | seeHead i =>
      have saw := moved
      simp only [Channel.step] at saw
      split at saw
      · rename_i stands seen
        exact inv.seeHead before stands seen moved
      · cases saw
  | dropProducer =>
      obtain ⟨quiet, rfl⟩ := guarded moved
      obtain ⟨none, held⟩ := ProducerState.of_quiescent quiet
      have closed : ChannelInv { s with ring := { s.ring with closed := true } } := { inv with }
      exact closed.setProducer none.symm trivial (fun _ _ there => by cases there) held.symm
  | releaseProducer =>
      simp only [Channel.step] at moved
      split at moved
      · rename_i stands
        cases moved
        have held : s.producer.holds = 1 := by rw [stands]; rfl
        have last : s.strong = 1 → s.consumer.taken = 0 := by
          intro one
          have := inv.strong
          cases there : s.consumer with
          | gone => rfl
          | idle | pop | isClosed =>
              rw [there, held, one] at this
              simp [ConsumerState.holds] at this
        exact inv.release (by rw [stands]; rfl) trivial (fun _ _ there => by cases there) rfl rfl
          inv.consumer last (show 0 + s.consumer.holds + 1 = _ by omega)
      · cases moved
  | pop =>
      obtain ⟨quiet, rfl⟩ := guarded moved
      obtain ⟨none, untaken, held⟩ := ConsumerState.of_quiescent quiet
      exact inv.setConsumer none.symm untaken.symm trivial held.symm
  | consumer =>
      simp only [Channel.step] at moved
      split at moved
      · rename_i stands
        exact inv.consumerStep before stands moved
      · cases moved
  | seeTail i =>
      simp only [Channel.step] at moved
      split at moved
      · rename_i stands seen
        cases moved
        exact inv.seeTail stands seen
      · cases moved
  | isClosed seen =>
      obtain ⟨⟨quiet, _⟩, rfl⟩ := guarded moved
      obtain ⟨none, untaken, held⟩ := ConsumerState.of_quiescent quiet
      have seenTail : ChannelInv { s with
          closedSeen := seen
          tailView := if seen then [s.ring.tail] else s.tailView } :=
        { inv with
          tailView := by
            cases seen with
            | false => exact inv.tailView
            | true => exact ⟨_, .single _, inv.head_lt_tail_of_claimed⟩ }
      exact seenTail.setConsumer none.symm untaken.symm trivial held.symm
  | dropConsumer =>
      obtain ⟨quiet, rfl⟩ := guarded moved
      obtain ⟨none, untaken, held⟩ := ConsumerState.of_quiescent quiet
      exact inv.release rfl inv.producer (fun _ _ there => there) none.symm untaken.symm trivial
        (fun _ => untaken) (by rw [held]; rfl)
  | drop =>
      simp only [Channel.step] at moved
      split at moved
      · rename_i pos stop dropping
        split at moved
        · rename_i more
          obtain ⟨item, _, slot⟩ := inv.drop_slot dropping more
          simp only [slot, Option.some.injEq] at moved
          subst moved
          exact inv.drop dropping more slot
        · cases moved
      · cases moved

end ChannelInv

/-- Nothing that was accepted is forgotten. -/
theorem Channel.accepted_le_of_step {s t : Channel w T} {a : Act T} (moved : s.step a = some t) :
    s.accepted.length ≤ t.accepted.length := by
  cases a with
  | push | dropProducer | pop | isClosed | dropConsumer =>
      obtain ⟨_, rfl⟩ := guarded moved
      exact le_rfl
  | producer =>
      simp only [Channel.step] at moved
      split at moved
      · rename_i pc _
        cases pc <;> cases moved <;> simp
      · cases moved
  | seeHead i =>
      simp only [Channel.step] at moved
      split at moved
      · split at moved <;> cases moved <;> exact le_rfl
      · cases moved
  | releaseProducer | seeTail =>
      simp only [Channel.step] at moved
      split at moved <;> cases moved
      exact le_rfl
  | consumer =>
      simp only [Channel.step] at moved
      split at moved
      · rename_i pc _
        cases pc with
        | read head =>
            simp only [Channel.consumerStep] at moved
            split at moved <;> cases moved <;> exact le_rfl
        | loadHead | loadTail | storeHead | returned => cases moved <;> exact le_rfl
      · cases moved
  | drop =>
      simp only [Channel.step] at moved
      split at moved
      · split at moved
        · split at moved <;> cases moved <;> exact le_rfl
        · cases moved
      · cases moved

/-- The invariant holds in every state in which fewer items were accepted than a `usize` counts. -/
theorem channelInv_of_run {capacity : Nat} {s₀ s : Channel w T}
    (made : channel w T capacity = some s₀) (run : Reach Channel.step Free s₀ s)
    (few : s.accepted.length < 2 ^ w) : ChannelInv s := by
  obtain ⟨⟨pos, small⟩, rfl⟩ := guarded made
  revert few
  refine run.invariant (P := fun s => s.accepted.length < 2 ^ w → ChannelInv s)
    (fun _ => channelInv_new pos small) ?_
  intro u a v inv _ moved few
  have before := (Channel.accepted_le_of_step moved).trans_lt few
  exact (inv before).step before few moved

end Invariant

/-! ### What the ring does -/

/-- The state of a ring that has lost, repeated and reordered nothing. -/
structure RingCorrect {w : Nat} {T : Type*} (s : Channel w T) : Prop where
  in_order : s.popped <+: s.accepted
  written_before_read : ∀ head, s.consumer = .pop (.read head) →
    (s.ring.slots (head % s.ring.cap)).IsLive
  read_before_overwritten : ∀ item tail, s.producer = .push (.write item tail) →
    ¬ (s.ring.slots (tail % s.ring.cap)).IsLive
  indices : s.ring.head ≤ s.ring.tail ∧ s.ring.tail ≤ s.ring.head + s.ring.cap
  full : ∀ answer ∈ s.fulls, answer.accepted = answer.observed + s.ring.cap
  drop_runs : s.dropping.isSome = true ↔ s.producer = .gone ∧ s.consumer = .gone
  drop_waits : s.dropping = none → s.dropped = []
  drop_live : ∀ pos stop, s.dropping = some (pos, stop) → pos < stop →
    (s.ring.slots (pos % s.ring.cap)).IsLive ∧ (s.step .drop).isSome = true
  drop_all : ∀ pos stop, s.dropping = some (pos, stop) → ¬ pos < stop →
    s.popped ++ s.dropped = s.accepted

theorem ChannelInv.correct {w : Nat} {T : Type*} {s : Channel w T} (inv : ChannelInv s) :
    RingCorrect s where
  in_order := by
    rw [inv.popped_eq]
    exact List.take_prefix _ _
  written_before_read head stands := by
    obtain ⟨item, _, _, slot⟩ := inv.read_slot stands
    rw [slot]
    trivial
  read_before_overwritten := inv.free_tail
  indices :=
    ⟨(Nat.le_add_right _ _).trans inv.head_lt_tail_of_claimed,
      (Nat.le_add_right _ _).trans inv.tail_le⟩
  full := inv.fulls
  drop_runs := by
    have strong := inv.strong
    have running := inv.running
    constructor
    · intro runs
      have stopped : ¬ 0 < s.strong := fun left => by
        rw [running.2 left] at runs
        cases runs
      constructor
      · cases there : s.producer with
        | gone => rfl
        | idle | push | closing =>
            rw [there] at strong
            simp only [ProducerState.holds] at strong
            omega
      · cases there : s.consumer with
        | gone => rfl
        | idle | pop | isClosed =>
            rw [there] at strong
            simp only [ConsumerState.holds] at strong
            omega
    · rintro ⟨producer, consumer⟩
      rw [producer, consumer] at strong
      cases there : s.dropping with
      | none => exact absurd (running.1 there) (by rw [strong]; exact Nat.lt_irrefl 0)
      | some span => rfl
  drop_waits := inv.kept
  drop_live pos stop dropping more := by
    obtain ⟨item, _, slot⟩ := inv.drop_slot dropping more
    simp [Channel.step, dropping, more, slot, MaybeUninit.IsLive]
  drop_all pos stop dropping done := by
    obtain ⟨rfl, _, _, prior⟩ := inv.dropping pos stop dropping
    rw [prior, List.take_of_length_le]
    have := inv.tail_eq
    omega

/-- Every interleaving of the two ends of a ring of any capacity, with any admissible staleness, keeps
    the ring correct as long as the accepted items can be counted. -/
theorem ring_correct_of_run {w capacity : Nat} {T : Type*} {s₀ s : Channel w T}
    (made : channel w T capacity = some s₀) (run : Reach Channel.step Free s₀ s)
    (few : s.accepted.length < 2 ^ w) : RingCorrect s :=
  (channelInv_of_run made run few).correct

/-- A ring of one slot: a push, a push that sees a full ring, a pop, a push on the view from before the
    pop, which is `Full` again, and one that sees the pop; then both ends go. -/
def sampleActs : List (Act Nat) :=
  [.push 7, .producer, .seeHead 0, .producer, .producer, .push 8, .producer, .seeHead 0,
    .pop, .consumer, .seeTail 1, .consumer, .consumer, .push 8, .producer, .seeHead 0,
    .push 9, .producer, .seeHead 1, .producer, .producer,
    .dropConsumer, .dropProducer, .releaseProducer, .drop]

theorem ring_correct_of_sample :
    ∃ s : Channel 64 Nat, exec Channel.step (.new 64 Nat 1) sampleActs = some s ∧
      s.accepted = [7, 9] ∧ s.popped = [7] ∧ s.dropped = [9] ∧ s.fulls.length = 2 ∧
      RingCorrect s := by
  have ran : (exec Channel.step (.new 64 Nat 1) sampleActs).map
      (fun s => (s.accepted, s.popped, s.dropped, s.fulls.length)) =
        some ([7, 9], [7], [9], 2) := rfl
  obtain ⟨s, executed, seen⟩ := Option.map_eq_some_iff.1 ran
  obtain ⟨accepted, popped, dropped, fulls⟩ : s.accepted = [7, 9] ∧ s.popped = [7] ∧
      s.dropped = [9] ∧ s.fulls.length = 2 := by
    simpa using seen
  have made : channel 64 Nat 1 = some (.new 64 Nat 1) := rfl
  refine ⟨s, executed, accepted, popped, dropped, fulls, ?_⟩
  exact ring_correct_of_run made (reach_of_exec executed) (by rw [accepted]; decide)

end AetherFlow.Spsc
