/-
Module: AetherFlow.Spsc.Wrap
Purpose: The ring once its indices wrap. A ring with short indices is run next to one whose indices are
  long enough for the run: it makes the same steps, its indices are the residues of the long ones,
  and the two agree on every item that waits to be read, as long as no push writes over one of these.
  So the closing law of the long ring is the law of the short one. Where the capacity divides the word, or
  the indices have not wrapped, no push does; elsewhere an item is lost.
Trusted boundary: none
Main exports: Waiting, Tracks, Tracks.step, SlotFree, slotFree_of_fits, closeLaw_of_run, item_lost_at_wrap
-/
import AetherFlow.Spsc.Close

namespace AetherFlow.Spsc

open Mpsc (MaybeUninit TrySendError)
open Transition Word

variable {v w : Nat} {T : Type*}

/-! ### Items that wait in their slots -/

/-- The items from place `first` on are live in slots of their own, and no other slot is live. -/
structure Waiting (slots : Nat → MaybeUninit T) (slot : Nat → Nat) (first : Nat) (items : List T) :
    Prop where
  held : ∀ p item, first ≤ p → items[p]? = some item → slots (slot p) = .live item
  apart : ∀ p q, first ≤ p → p < q → q < items.length → slot p ≠ slot q
  only : ∀ i, (slots i).IsLive → ∃ p, first ≤ p ∧ p < items.length ∧ slot p = i

namespace Waiting

variable {slots : Nat → MaybeUninit T} {slot : Nat → Nat} {first : Nat} {items : List T}

/-- An item is written behind the others, over none of them. -/
theorem write (waiting : Waiting slots slot first items) (item : T) (behind : first ≤ items.length)
    (free : ¬ (slots (slot items.length)).IsLive) :
    Waiting (Function.update slots (slot items.length) (.live item)) slot first (items ++ [item]) := by
  have elsewhere : ∀ p, first ≤ p → p < items.length → slot p ≠ slot items.length := by
    intro p low inside same
    refine free ?_
    rw [← same, waiting.held p _ low (List.getElem?_eq_getElem inside)]
    trivial
  refine ⟨fun p other low found => ?_, fun p q low order inside => ?_, fun i live => ?_⟩
  · have bound := (List.getElem?_eq_some_iff.1 found).1
    rw [List.length_append, List.length_singleton] at bound
    by_cases last : p = items.length
    · subst last
      rw [List.getElem?_concat_length] at found
      cases found
      exact Function.update_self _ _ _
    · have inside : p < items.length := by omega
      rw [List.getElem?_append_left inside] at found
      rw [Function.update_of_ne (elsewhere p low inside)]
      exact waiting.held p other low found
  · rw [List.length_append, List.length_singleton] at inside
    by_cases last : q = items.length
    · rw [last]
      exact elsewhere p low (by omega)
    · exact waiting.apart p q low order (by omega)
  · rw [List.length_append, List.length_singleton]
    by_cases written : i = slot items.length
    · exact ⟨items.length, behind, by omega, written.symm⟩
    · rw [Function.update_of_ne written] at live
      obtain ⟨p, low, inside, same⟩ := waiting.only i live
      exact ⟨p, low, by omega, same⟩

/-- The first item is moved out. -/
theorem read {item : T} (waiting : Waiting slots slot first items) (left : first < items.length) :
    Waiting (Function.update slots (slot first) (.moved item)) slot (first + 1) items := by
  have elsewhere : ∀ p, first + 1 ≤ p → p < items.length → slot p ≠ slot first := fun p low inside =>
    (waiting.apart first p le_rfl low inside).symm
  refine ⟨fun p other low found => ?_, fun p q low => waiting.apart p q (by omega), fun i live => ?_⟩
  · rw [Function.update_of_ne (elsewhere p low (List.getElem?_eq_some_iff.1 found).1)]
    exact waiting.held p other (by omega) found
  · by_cases taken : i = slot first
    · rw [taken, Function.update_self] at live
      exact live.elim
    · rw [Function.update_of_ne taken] at live
      obtain ⟨p, low, inside, same⟩ := waiting.only i live
      have other : p ≠ first := by
        rintro rfl
        exact taken same.symm
      exact ⟨p, by omega, inside, same⟩

end Waiting

/-! ### A ring and one with longer indices -/

def PushPc.narrow (w : Nat) : PushPc T → PushPc T
  | .loadTail item => .loadTail item
  | .loadHead item tail => .loadHead item (tail % 2 ^ w)
  | .write item tail => .write item (tail % 2 ^ w)
  | .storeTail item tail => .storeTail item (tail % 2 ^ w)
  | .returned result => .returned result

def PopPc.narrow (w : Nat) : PopPc T → PopPc T
  | .loadHead => .loadHead
  | .loadTail head => .loadTail (head % 2 ^ w)
  | .read head => .read (head % 2 ^ w)
  | .storeHead head item => .storeHead (head % 2 ^ w) item
  | .returned result => .returned result

def ProducerState.narrow (w : Nat) : ProducerState T → ProducerState T
  | .push pc => .push (pc.narrow w)
  | .idle => .idle
  | .closing => .closing
  | .gone => .gone

def ConsumerState.narrow (w : Nat) : ConsumerState T → ConsumerState T
  | .pop pc => .pop (pc.narrow w)
  | .idle => .idle
  | .isClosed verdict => .isClosed verdict
  | .gone => .gone

/-- The item that `try_push` has written and not yet published. -/
def ProducerState.written : ProducerState T → List T
  | .push (.storeTail item _) => [item]
  | _ => []

/-- `short` stands where `long` does, with the residues of its indices. -/
structure Tracks (long : Channel v T) (short : Channel w T) : Prop where
  cap : short.ring.cap = long.ring.cap
  small : short.ring.cap < 2 ^ w
  head : short.ring.head = long.ring.head % 2 ^ w
  tail : short.ring.tail = long.ring.tail % 2 ^ w
  closed : short.ring.closed = long.ring.closed
  producer : short.producer = long.producer.narrow w
  consumer : short.consumer = long.consumer.narrow w
  headView : short.headView = long.headView.map (· % 2 ^ w)
  tailView : short.tailView = long.tailView.map (· % 2 ^ w)
  closedSeen : short.closedSeen = long.closedSeen
  strong : short.strong = long.strong
  accepted : short.accepted = long.accepted
  popped : short.popped = long.popped
  /-- What `Ring::drop` does is not followed. -/
  running : 0 < short.strong → short.dropping = none
  waiting : 0 < short.strong → Waiting short.ring.slots (· % 2 ^ w % short.ring.cap)
    (long.ring.head + long.consumer.taken) (long.accepted ++ long.producer.written)

/-- No push is to write over an item that waits to be read. -/
def SlotFree (s : Channel w T) : Act T → Prop
  | .producer =>
      match s.producer with
      | .push (.write _ tail) => ¬ (s.ring.slots (tail % s.ring.cap)).IsLive
      | _ => True
  | _ => True

/-- Both rings make this step, or neither does. -/
def Alike (long : Channel v T) (short : Channel w T) (a : Act T) : Prop :=
  Option.Rel Tracks (long.step a) (short.step a)

section Alike

variable {long m : Channel v T} {short t : Channel w T} {a : Act T}

theorem Alike.long_of_short (alike : Alike long short a) (moved : short.step a = some t) :
    ∃ m, long.step a = some m ∧ Tracks m t := by
  rw [Alike, moved] at alike
  generalize long.step a = next at alike
  cases alike with
  | some tracks => exact ⟨_, rfl, tracks⟩

theorem Alike.short_of_long (alike : Alike long short a) (goes : long.step a = some m) :
    ∃ t, short.step a = some t ∧ Tracks m t := by
  rw [Alike, goes] at alike
  generalize short.step a = next at alike
  cases alike with
  | some tracks => exact ⟨_, rfl, tracks⟩

end Alike

section Narrow

@[simp] theorem ProducerState.quiescent_narrow (producer : ProducerState T) :
    (producer.narrow w).quiescent = producer.quiescent := by
  rcases producer with _ | (_ | _ | _ | _ | _) | _ | _ <;> rfl

@[simp] theorem ConsumerState.quiescent_narrow (consumer : ConsumerState T) :
    (consumer.narrow w).quiescent = consumer.quiescent := by
  rcases consumer with _ | (_ | _ | _ | _ | _) | _ | _ <;> rfl

@[simp] theorem ConsumerState.narrow_eq_returned {consumer : ConsumerState T} {answer : Option T} :
    consumer.narrow w = .pop (.returned answer) ↔ consumer = .pop (.returned answer) := by
  rcases consumer with _ | (_ | _ | _ | _ | _) | _ | _ <;>
    simp [ConsumerState.narrow, PopPc.narrow]

@[simp] theorem ConsumerState.narrow_eq_isClosed {consumer : ConsumerState T} {verdict : Bool} :
    consumer.narrow w = .isClosed verdict ↔ consumer = .isClosed verdict := by
  cases consumer <;> simp [ConsumerState.narrow]

@[simp] theorem ProducerState.dropped_narrow (producer : ProducerState T) :
    (producer.narrow w).dropped = producer.dropped := by
  cases producer <;> rfl

theorem ConsumerState.taken_le_claimed (consumer : ConsumerState T) :
    consumer.taken ≤ consumer.claimed := by
  rcases consumer with _ | (_ | _ | _ | _ | _) | _ | _ <;> first | exact le_rfl | exact Nat.zero_le _

theorem ProducerState.written_of_quiescent {producer : ProducerState T}
    (quiet : producer.quiescent = true) : producer.written = [] := by
  rcases producer with _ | (_ | _ | _ | _ | _) | _ | _ <;> first | rfl | cases quiet

end Narrow

/-- Two fresh rings. -/
theorem tracks_new {cap : Nat} (small : cap < 2 ^ w) : Tracks (.new v T cap) (.new w T cap) where
  cap := rfl
  small := small
  head := (Nat.zero_mod _).symm
  tail := (Nat.zero_mod _).symm
  closed := rfl
  producer := rfl
  consumer := rfl
  headView := by simp [Channel.new]
  tailView := by simp [Channel.new]
  closedSeen := rfl
  strong := rfl
  accepted := rfl
  popped := rfl
  running _ := rfl
  waiting _ :=
    { held := fun p item _ found => by cases found
      apart := fun p q _ _ inside => absurd inside (Nat.not_lt_zero q)
      only := fun i live => False.elim live }

namespace Tracks

variable {long : Channel v T} {short : Channel w T}

/-- The producers go on alike. -/
theorem setProducer (tracks : Tracks long short) (pc : ProducerState T)
    (written : pc.written = long.producer.written) :
    Tracks { long with producer := pc } { short with producer := pc.narrow w } :=
  { tracks with
    producer := rfl
    waiting := fun left => by
      rw [written]
      exact tracks.waiting left }

/-- The consumers go on alike. -/
theorem setConsumer (tracks : Tracks long short) (pc : ConsumerState T)
    (taken : pc.taken = long.consumer.taken) :
    Tracks { long with consumer := pc } { short with consumer := pc.narrow w } :=
  { tracks with
    consumer := rfl
    waiting := fun left => by
      rw [taken]
      exact tracks.waiting left }

theorem push (tracks : Tracks long short) (item : T) : Alike long short (.push item) := by
  simp only [Alike, Channel.step]
  rw [tracks.producer, ProducerState.quiescent_narrow]
  by_cases quiet : long.producer.quiescent = true
  · rw [if_pos quiet, if_pos quiet]
    exact .some (tracks.setProducer (.push (.loadTail item))
      (ProducerState.written_of_quiescent quiet).symm)
  · rw [if_neg quiet, if_neg quiet]
    exact .none

theorem dropProducer (tracks : Tracks long short) : Alike long short .dropProducer := by
  simp only [Alike, Channel.step]
  rw [tracks.producer, ProducerState.quiescent_narrow]
  by_cases quiet : long.producer.quiescent = true
  · rw [if_pos quiet, if_pos quiet]
    have silent := tracks.setProducer (.closing) (ProducerState.written_of_quiescent quiet).symm
    exact .some { silent with closed := rfl }
  · rw [if_neg quiet, if_neg quiet]
    exact .none

theorem pop (tracks : Tracks long short) : Alike long short .pop := by
  simp only [Alike, Channel.step]
  rw [tracks.consumer, ConsumerState.quiescent_narrow]
  by_cases quiet : long.consumer.quiescent = true
  · rw [if_pos quiet, if_pos quiet]
    exact .some (tracks.setConsumer (.pop .loadHead)
      (ConsumerState.of_quiescent quiet).2.1.symm)
  · rw [if_neg quiet, if_neg quiet]
    exact .none

theorem isClosed (tracks : Tracks long short) (seen : Bool) :
    Alike long short (.isClosed seen) := by
  simp only [Alike, Channel.step]
  rw [tracks.consumer, ConsumerState.quiescent_narrow, tracks.closed, tracks.closedSeen]
  split
  · rename_i allowed
    have answered := tracks.setConsumer (.isClosed seen)
      (ConsumerState.of_quiescent allowed.1).2.1.symm
    refine .some { answered with closedSeen := rfl, tailView := ?_ }
    cases seen with
    | true => exact congrArg ([·]) tracks.tail
    | false => exact tracks.tailView
  · exact .none

/-- One reference less. -/
theorem release (tracks : Tracks long short) : Tracks long.release short.release :=
  { tracks with
    strong := congrArg (· - 1) tracks.strong
    running := fun left => by
      have left' : 0 < short.strong - 1 := left
      show (if short.strong = 1 then _ else _) = none
      rw [if_neg (by omega)]
      exact tracks.running (by omega)
    waiting := fun left => by
      have left' : 0 < short.strong - 1 := left
      exact tracks.waiting (by omega) }

theorem releaseProducer (tracks : Tracks long short) : Alike long short .releaseProducer := by
  have standing := tracks.producer
  simp only [Alike, Channel.step]
  cases at_ : long.producer with
  | closing =>
      rw [at_] at standing
      rw [standing]
      have silent : ProducerState.written .gone = long.producer.written := by
        rw [at_]
        rfl
      exact .some (tracks.release.setProducer (.gone) silent)
  | idle | push | gone =>
      rw [at_] at standing
      rw [standing]
      exact .none

theorem dropConsumer (tracks : Tracks long short) : Alike long short .dropConsumer := by
  simp only [Alike, Channel.step]
  rw [tracks.consumer, ConsumerState.quiescent_narrow]
  by_cases quiet : long.consumer.quiescent = true
  · rw [if_pos quiet, if_pos quiet]
    exact .some (tracks.release.setConsumer (.gone)
      (ConsumerState.of_quiescent quiet).2.1.symm)
  · rw [if_neg quiet, if_neg quiet]
    exact .none

/-- The residue of the next index is the index after the residue. -/
theorem narrow_succ {x : Nat} (few : x + 1 < 2 ^ v) :
    wrappingSucc w (x % 2 ^ w) = wrappingSucc v x % 2 ^ w := by
  rw [wrappingSucc, wrappingSucc, Nat.mod_add_mod, Nat.mod_eq_of_lt few]

/-- `try_push` finds the one ring full where it finds the other full. -/
theorem full_iff {tail head cap : Nat} (le : head ≤ tail) (near : tail ≤ head + cap)
    (short : cap < 2 ^ w) (long : tail < 2 ^ v) :
    wrappingSub w (tail % 2 ^ w) (head % 2 ^ w) = cap ↔ wrappingSub v tail head = cap := by
  have gap : wrappingSub v tail head = tail - head := by
    rw [wrappingSub, show tail + 2 ^ v - head = tail - head + 2 ^ v by omega, Nat.add_mod_right,
      Nat.mod_eq_of_lt (by omega)]
  rw [gap, wrappingSub, mod_sub_mod le (Nat.two_pow_pos w), Nat.mod_eq_of_lt (by omega)]

theorem seeHead (tracks : Tracks long short) (inv : ChannelInv long)
    (few : long.accepted.length < 2 ^ v) (i : Nat) : Alike long short (.seeHead i) := by
  have standing := tracks.producer
  have small := tracks.small
  have view : short.headView[i]? = long.headView[i]?.map (· % 2 ^ w) := by
    rw [tracks.headView, List.getElem?_map]
  simp only [Alike, Channel.step]
  cases at_ : long.producer with
  | idle | closing | gone =>
      rw [at_] at standing
      rw [standing]
      exact .none
  | push pc =>
      rw [at_] at standing
      cases pc with
      | loadTail | write | storeTail | returned =>
          rw [standing]
          exact .none
      | loadHead item tail =>
          rw [standing]
          cases seen : long.headView[i]? with
          | none =>
              rw [seen] at view
              rw [view]
              exact .none
          | some head =>
              rw [seen] at view
              rw [view]
              have own := inv.producer
              rw [at_] at own
              obtain rfl : tail = long.ring.tail := own
              obtain ⟨oldest, shown, bound⟩ := inv.headView
              obtain ⟨older, shown'⟩ := shown.see seen
              have order : head ≤ long.ring.head := shown'.1
              have behind := inv.head_lt_tail_of_claimed
              have length := inv.tail_eq
              have viewed : short.headView.drop i = (long.headView.drop i).map (· % 2 ^ w) := by
                rw [tracks.headView, List.map_drop]
              have full : wrappingSub w (long.ring.tail % 2 ^ w) (head % 2 ^ w) = short.ring.cap ↔
                  wrappingSub v long.ring.tail head = long.ring.cap := by
                rw [full_iff (v := v) (by omega) (by rw [tracks.cap]; omega) small (by omega), tracks.cap]
              have silent : ∀ pc : PushPc T, (∀ item tail, pc ≠ .storeTail item tail) →
                  ProducerState.written (.push pc) = long.producer.written := by
                intro pc other
                rw [at_]
                cases pc with
                | storeTail item tail => exact absurd rfl (other item tail)
                | _ => rfl
              by_cases isFull : wrappingSub v long.ring.tail head = long.ring.cap
              · have refused := tracks.setProducer (.push (.returned (.error (.full item))))
                  (silent _ (fun _ _ never => by cases never))
                simp only [PushPc.narrow, ProducerState.narrow, if_pos isFull, if_pos (full.2 isFull),
                  Option.map_some]
                exact .some { refused with headView := viewed }
              · have granted := tracks.setProducer (.push (.write item long.ring.tail))
                  (silent _ (fun _ _ never => by cases never))
                simp only [PushPc.narrow, ProducerState.narrow, if_neg isFull,
                  if_neg (mt full.1 isFull), Option.map_some]
                exact .some { granted with headView := viewed }

theorem producerStep (tracks : Tracks long short) (inv : ChannelInv long)
    (free : SlotFree short .producer) (few : long.accepted.length + 1 < 2 ^ v) :
    Alike long short .producer := by
  have standing := tracks.producer
  simp only [Alike, Channel.step]
  cases at_ : long.producer with
  | idle | closing | gone =>
      rw [at_] at standing
      rw [standing]
      exact .none
  | push pc =>
      rw [at_] at standing
      rw [standing]
      have own := inv.producer
      rw [at_] at own
      have length := inv.tail_eq
      cases pc with
      | loadHead | returned => exact .none
      | loadTail item =>
          have loaded := tracks.setProducer (.push (.loadHead item long.ring.tail))
            (by rw [at_]; rfl)
          refine .some { loaded with producer := ?_ }
          exact congrArg (fun tail => ProducerState.push (.loadHead item tail)) tracks.tail
      | write item tail =>
          obtain rfl : tail = long.ring.tail := own
          have behind := inv.head_lt_tail_of_claimed
          have claimed := long.consumer.taken_le_claimed
          refine .some { tracks with producer := rfl, waiting := fun left => ?_ }
          have waiting := tracks.waiting left
          rw [at_, show ProducerState.written (.push (.write item _)) = [] from rfl,
            List.append_nil] at waiting
          simp only [SlotFree, standing, ProducerState.narrow, PushPc.narrow, length] at free
          have wrote := waiting.write item (by omega) free
          rw [← length] at wrote
          exact wrote
      | storeTail item tail =>
          obtain ⟨rfl, -⟩ := own
          have next := narrow_succ (w := w) (x := long.ring.tail) (v := v) (by omega)
          refine .some
            { tracks with
              tail := next
              producer := rfl
              tailView := ?_
              accepted := congrArg (· ++ [item]) tracks.accepted
              waiting := fun left => ?_ }
          · show short.tailView ++ [wrappingSucc w (long.ring.tail % 2 ^ w)] = _
            rw [next, tracks.tailView, List.map_append]
            rfl
          · have waiting := tracks.waiting left
            rw [at_] at waiting
            show Waiting _ _ _ ((long.accepted ++ [item]) ++ [])
            rw [List.append_nil]
            exact waiting

theorem seeTail (tracks : Tracks long short) (inv : ChannelInv long) (i : Nat) :
    Alike long short (.seeTail i) := by
  have standing := tracks.consumer
  have small := tracks.small
  have view : short.tailView[i]? = long.tailView[i]?.map (· % 2 ^ w) := by
    rw [tracks.tailView, List.getElem?_map]
  simp only [Alike, Channel.step]
  cases at_ : long.consumer with
  | idle | isClosed | gone =>
      rw [at_] at standing
      rw [standing]
      exact .none
  | pop pc =>
      rw [at_] at standing
      cases pc with
      | loadHead | read | storeHead | returned =>
          rw [standing]
          exact .none
      | loadTail head =>
          rw [standing]
          cases seen : long.tailView[i]? with
          | none =>
              rw [seen] at view
              rw [view]
              exact .none
          | some tail =>
              rw [seen] at view
              rw [view]
              have own := inv.consumer
              rw [at_] at own
              obtain rfl : head = long.ring.head := own
              obtain ⟨oldest, shown, bound⟩ := inv.tailView
              obtain ⟨older, shown'⟩ := shown.see seen
              have order : tail ≤ long.ring.tail := shown'.1
              have ahead := inv.tail_le
              have viewed : short.tailView.drop i = (long.tailView.drop i).map (· % 2 ^ w) := by
                rw [tracks.tailView, List.map_drop]
              have empty : long.ring.head % 2 ^ w = tail % 2 ^ w ↔ long.ring.head = tail := by
                refine ⟨fun same => ?_, congrArg (· % 2 ^ w)⟩
                by_contra differ
                have room := tracks.cap
                exact mod_ne_mod_of_near (a := long.ring.head) (by omega) (by omega) same
              have free : long.consumer.taken = 0 := by
                rw [at_]
                rfl
              simp only [PopPc.narrow, ConsumerState.narrow, Option.map_some, empty]
              by_cases isEmpty : long.ring.head = tail
              · rw [if_pos isEmpty, if_pos isEmpty]
                have none_ := tracks.setConsumer (.pop (.returned none)) free.symm
                exact .some { none_ with tailView := viewed }
              · rw [if_neg isEmpty, if_neg isEmpty]
                have found := tracks.setConsumer (.pop (.read long.ring.head)) free.symm
                exact .some { found with tailView := viewed }

theorem consumerStep (tracks : Tracks long short) (inv : ChannelInv long)
    (few : long.accepted.length < 2 ^ v) : Alike long short .consumer := by
  have standing := tracks.consumer
  simp only [Alike, Channel.step]
  cases at_ : long.consumer with
  | idle | isClosed | gone =>
      rw [at_] at standing
      rw [standing]
      exact .none
  | pop pc =>
      rw [at_] at standing
      rw [standing]
      have own := inv.consumer
      rw [at_] at own
      have length := inv.tail_eq
      have behind := inv.head_lt_tail_of_claimed
      cases pc with
      | loadTail | returned => exact .none
      | loadHead =>
          have loaded := tracks.setConsumer (.pop (.loadTail long.ring.head)) (by rw [at_]; rfl)
          refine .some { loaded with consumer := ?_ }
          exact congrArg (fun head => ConsumerState.pop (.loadTail head)) tracks.head
      | read head =>
          obtain ⟨item, rfl, found, slot⟩ := inv.read_slot at_
          have inside := (List.getElem?_eq_some_iff.1 found).1
          have one : 0 < long.strong := by
            rw [inv.strong, at_]
            exact Nat.lt_add_left _ Nat.one_pos
          have waiting := tracks.waiting (by rw [tracks.strong]; exact one)
          rw [at_, show ConsumerState.taken (.pop (.read long.ring.head : PopPc T)) = 0 from rfl,
            Nat.add_zero] at waiting
          have inside' : long.ring.head < (long.accepted ++ long.producer.written).length := by
            rw [List.length_append]
            omega
          have held := waiting.held long.ring.head item le_rfl
            (by rw [List.getElem?_append_left inside]; exact found)
          simp only [PopPc.narrow, ConsumerState.narrow, Channel.consumerStep, slot, held]
          exact .some { tracks with consumer := rfl, waiting := fun _ => waiting.read inside' }
      | storeHead head item =>
          obtain ⟨rfl, -, -⟩ := own
          have one : long.consumer.claimed = 1 := by rw [at_]; rfl
          have next := narrow_succ (w := w) (x := long.ring.head) (v := v) (by omega)
          have real : wrappingSucc v long.ring.head = long.ring.head + 1 := Nat.mod_eq_of_lt (by omega)
          refine .some
            { tracks with
              head := next
              consumer := rfl
              headView := ?_
              popped := congrArg (· ++ [item]) tracks.popped
              waiting := fun left => ?_ }
          · show short.headView ++ [wrappingSucc w (long.ring.head % 2 ^ w)] = _
            rw [next, tracks.headView, List.map_append]
            rfl
          · have waiting := tracks.waiting left
            rw [at_] at waiting
            show Waiting _ _ (wrappingSucc v long.ring.head + 0) _
            rw [real]
            exact waiting

/-- Every step but those of `Ring::drop` is made by both rings or by neither. -/
theorem alike {a : Act T} (tracks : Tracks long short) (inv : ChannelInv long) (free : SlotFree short a)
    (few : long.accepted.length + 1 < 2 ^ v) (followed : a ≠ .drop) : Alike long short a := by
  have few' := Nat.lt_of_succ_lt few
  cases a with
  | push item => exact tracks.push item
  | producer => exact tracks.producerStep inv free few
  | seeHead i => exact tracks.seeHead inv few' i
  | dropProducer => exact tracks.dropProducer
  | releaseProducer => exact tracks.releaseProducer
  | pop => exact tracks.pop
  | consumer => exact tracks.consumerStep inv few'
  | seeTail i => exact tracks.seeTail inv i
  | isClosed seen => exact tracks.isClosed seen
  | dropConsumer => exact tracks.dropConsumer
  | drop => exact absurd rfl followed

/-- The long ring waits while `Ring::drop` runs on the short one. -/
theorem drop {t : Channel w T} (tracks : Tracks long short) (moved : short.step .drop = some t) :
    Tracks long t := by
  simp only [Channel.step] at moved
  split at moved
  · rename_i pos stop there
    have gone : ¬ 0 < short.strong := fun left => by
      rw [tracks.running left] at there
      cases there
    split at moved
    · split at moved
      · cases moved
      all_goals
        cases moved
        exact { tracks with
          running := fun left => absurd left gone
          waiting := fun left => absurd left gone }
    · cases moved
  · cases moved

/-- A step of the short ring takes the long one along. -/
theorem step {a : Act T} {t : Channel w T} (tracks : Tracks long short) (inv : ChannelInv long)
    (free : SlotFree short a) (few : long.accepted.length + 1 < 2 ^ v)
    (moved : short.step a = some t) : ∃ m, Reach Channel.step Free long m ∧ Tracks m t := by
  by_cases followed : a = .drop
  · subst followed
    exact ⟨long, .refl _, tracks.drop moved⟩
  · obtain ⟨m, goes, tracks'⟩ := (tracks.alike inv free few followed).long_of_short moved
    exact ⟨m, .single trivial goes, tracks'⟩

/-- A run of the short ring takes the long one along. -/
theorem run {t : Channel w T} (tracks : Tracks long short) (inv : ChannelInv long)
    (close : CloseInv long) (run : Reach Channel.step SlotFree short t)
    (few : t.accepted.length + 1 < 2 ^ v) :
    ∃ m, Reach Channel.step Free long m ∧ Tracks m t ∧ ChannelInv m ∧ CloseInv m := by
  induction run with
  | refl => exact ⟨long, .refl _, tracks, inv, close⟩
  | tail _ last inductionHypothesis =>
      obtain ⟨a, free, moved⟩ := last
      have before := Channel.accepted_le_of_step moved
      obtain ⟨m, reached, tracks', inv', close'⟩ := inductionHypothesis (by omega)
      obtain ⟨n, goes, tracks''⟩ := tracks'.step inv' free (by rw [← tracks'.accepted]; omega) moved
      obtain ⟨inv'', close''⟩ := inv'.run close' goes (by rw [← tracks''.accepted]; omega)
      exact ⟨n, reached.trans goes, tracks'', inv'', close''⟩

end Tracks

/-! ### Behind the close -/

section Dropped

variable {s t : Channel w T} {a : Act T}

theorem slotFree_of_dropped (dropped : s.producer.dropped = true) : SlotFree s a := by
  cases a with
  | producer =>
      cases at_ : s.producer with
      | closing | gone => simp [SlotFree, at_]
      | idle | push =>
          rw [at_] at dropped
          cases dropped
  | _ => trivial

/-- Behind the close every run meets the condition on the slots. -/
theorem Channel.dropped_of_run (dropped : s.producer.dropped = true) (run : Reach Channel.step Free s t) :
    Reach Channel.step SlotFree s t ∧ t.producer.dropped = true ∧ t.accepted = s.accepted := by
  induction run with
  | refl => exact ⟨.refl _, dropped, rfl⟩
  | tail _ last inductionHypothesis =>
      obtain ⟨a, -, moved⟩ := last
      obtain ⟨reached, dropped', same⟩ := inductionHypothesis
      have frozen := Channel.frozen dropped' moved
      exact ⟨reached.tail (slotFree_of_dropped dropped') moved, frozen.dropped, frozen.accepted.trans same⟩

end Dropped

namespace Tracks

variable {long m : Channel v T} {short : Channel w T}

/-- What the consumer of the long ring can do behind the close, that of the short one can. -/
theorem consumes {labels : List (Act T)} (tracks : Tracks long short) (inv : ChannelInv long)
    (dropped : long.producer.dropped = true) (few : long.accepted.length + 1 < 2 ^ v)
    (own : ∀ a ∈ labels, Act.ofConsumer a = true)
    (executed : exec Channel.step long labels = some m) :
    ∃ t, exec Channel.step short labels = some t ∧ Tracks m t := by
  induction labels generalizing long short with
  | nil =>
      cases executed
      exact ⟨short, rfl, tracks⟩
  | cons a labels inductionHypothesis =>
      obtain ⟨n, goes, executed⟩ := Option.bind_eq_some_iff.1 executed
      have mine := own a List.mem_cons_self
      have followed : a ≠ .drop := by
        rintro rfl
        cases mine
      have free : SlotFree short a := slotFree_of_dropped (by
        rw [tracks.producer, ProducerState.dropped_narrow]
        exact dropped)
      obtain ⟨u, moved, tracks'⟩ := (tracks.alike inv free few followed).short_of_long goes
      have frozen := Channel.frozen dropped goes
      have few' := Nat.lt_of_succ_lt few
      have inv' := inv.step few' (by rw [frozen.accepted]; exact few') goes
      obtain ⟨t, ran, tracked⟩ := inductionHypothesis tracks' inv' frozen.dropped
        (by rw [frozen.accepted]; exact few)
        (fun b member => own b (List.mem_cons_of_mem _ member)) executed
      refine ⟨t, ?_, tracked⟩
      rw [exec, moved]
      exact ran

/-- The law of the long ring is the law of the short one. -/
theorem closeLaw (tracks : Tracks long short) (inv : ChannelInv long) (close : CloseInv long)
    (few : long.accepted.length + 1 < 2 ^ v) : CloseLaw short where
  drained := by
    intro answered t run none_
    rw [tracks.consumer, ConsumerState.narrow_eq_isClosed] at answered
    have shut := (close.seen (close.verdict answered)).1
    have dropped : short.producer.dropped = true := by
      rw [tracks.producer, ProducerState.dropped_narrow]
      exact close.dropped shut
    obtain ⟨clean, dropped', same⟩ := Channel.dropped_of_run dropped run
    have few' : t.accepted.length + 1 < 2 ^ v := by
      rw [same, tracks.accepted]
      exact few
    obtain ⟨m, reached, tracks', inv', close'⟩ := tracks.run inv close clean few'
    rw [tracks'.consumer, ConsumerState.narrow_eq_returned] at none_
    have law := inv.closeLaw close (Nat.lt_of_succ_lt few)
    obtain ⟨all, later⟩ := law.drained answered m reached none_
    refine ⟨by rw [tracks'.popped, tracks'.accepted, all], fun u further => ?_⟩
    obtain ⟨clean', -, same'⟩ := Channel.dropped_of_run dropped' further
    obtain ⟨n, reached', tracks'', -, -⟩ := tracks'.run inv' close' clean' (by rw [same']; exact few')
    obtain ⟨-, popped, answers⟩ := later n reached'
    refine ⟨same', by rw [tracks''.popped, tracks'.popped, popped], fun answer returned => ?_⟩
    rw [tracks''.consumer, ConsumerState.narrow_eq_returned] at returned
    exact answers answer returned
  poppable := by
    intro shut quiet
    rw [tracks.closed] at shut
    rw [tracks.consumer, ConsumerState.quiescent_narrow] at quiet
    obtain ⟨labels, m, own, executed, all⟩ :=
      (inv.closeLaw close (Nat.lt_of_succ_lt few)).poppable shut quiet
    obtain ⟨t, ran, tracks'⟩ := tracks.consumes inv (close.dropped shut) few own executed
    exact ⟨labels, t, own, ran, by rw [tracks'.popped, tracks.accepted, all]⟩

end Tracks

/-- Every run in which no push writes over an item that waits to be read is followed by one of a ring
    whose indices do not wrap. -/
theorem exists_tracked {cap : Nat} {s : Channel w T} (pos : 1 ≤ cap) (small : cap < 2 ^ w)
    (run : Reach Channel.step SlotFree (.new w T cap) s) :
    ∃ (v : Nat) (m : Channel v T), Tracks m s ∧ ChannelInv m ∧ CloseInv m ∧
      m.accepted.length + 1 < 2 ^ v := by
  have few : s.accepted.length + 1 < 2 ^ (w + (s.accepted.length + 1)) :=
    lt_of_lt_of_le Nat.lt_two_pow_self (Nat.pow_le_pow_right Nat.two_pos (Nat.le_add_left _ _))
  have small' : cap < 2 ^ (w + (s.accepted.length + 1)) :=
    small.trans_le (Nat.pow_le_pow_right Nat.two_pos (Nat.le_add_right _ _))
  obtain ⟨m, -, tracks, inv, close⟩ :=
    (tracks_new small).run (channelInv_new pos small') (closeInv_new _) run few
  exact ⟨_, m, tracks, inv, close, by rw [← tracks.accepted]; exact few⟩

/-! ### Where no push writes over an item -/

/-- The number of slots is set once. -/
theorem Channel.cap_of_step {s t : Channel w T} {a : Act T} (moved : s.step a = some t) :
    t.ring.cap = s.ring.cap := by
  cases a with
  | push | dropProducer | pop | isClosed | dropConsumer =>
      obtain ⟨-, rfl⟩ := guarded moved
      rfl
  | producer =>
      simp only [Channel.step] at moved
      split at moved
      · rename_i pc _
        cases pc <;> cases moved <;> rfl
      · cases moved
  | seeHead =>
      simp only [Channel.step] at moved
      split at moved
      · split at moved <;> cases moved <;> rfl
      · cases moved
  | releaseProducer | seeTail =>
      simp only [Channel.step] at moved
      split at moved <;> cases moved
      rfl
  | consumer =>
      simp only [Channel.step] at moved
      split at moved
      · rename_i pc _
        cases pc with
        | read =>
            simp only [Channel.consumerStep] at moved
            split at moved <;> cases moved <;> rfl
        | loadHead | loadTail | storeHead | returned => cases moved <;> rfl
      · cases moved
  | drop =>
      simp only [Channel.step] at moved
      split at moved
      · split at moved
        · split at moved <;> cases moved <;> rfl
        · cases moved
      · cases moved

/-- Two positions less than a capacity apart have slots of their own, when the capacity divides the word
    or the later one has not wrapped. -/
theorem slots_apart {p q cap : Nat} (lt : p < q) (near : q - p < cap)
    (fits : cap ∣ 2 ^ w ∨ q < 2 ^ w) : p % 2 ^ w % cap ≠ q % 2 ^ w % cap := by
  rcases fits with divides | small
  · rw [Nat.mod_mod_of_dvd _ divides, Nat.mod_mod_of_dvd _ divides]
    exact mod_ne_mod_of_near lt near
  · rw [Nat.mod_eq_of_lt (lt.trans small), Nat.mod_eq_of_lt small]
    exact mod_ne_mod_of_near lt near

theorem Tracks.slotFree {long : Channel v T} {short : Channel w T} {a : Act T}
    (tracks : Tracks long short) (inv : ChannelInv long)
    (fits : short.ring.cap ∣ 2 ^ w ∨ short.accepted.length < 2 ^ w) : SlotFree short a := by
  have standing := tracks.producer
  cases a with
  | producer =>
      cases at_ : long.producer with
      | idle | closing | gone =>
          rw [at_] at standing
          simp [SlotFree, standing, ProducerState.narrow]
      | push pc =>
          rw [at_] at standing
          cases pc with
          | write item tail =>
              have own := inv.producer
              rw [at_] at own
              obtain rfl : tail = long.ring.tail := own
              have window := inv.tail_le
              rw [at_, show ProducerState.reserved (.push (.write item _)) = 1 from rfl] at window
              have left : 0 < short.strong := by
                rw [tracks.strong, inv.strong, at_]
                exact Nat.lt_add_right _ Nat.one_pos
              have waiting := tracks.waiting left
              rw [at_, show ProducerState.written (.push (.write item _)) = [] from rfl,
                List.append_nil] at waiting
              simp only [SlotFree, standing, ProducerState.narrow, PushPc.narrow]
              intro live
              obtain ⟨p, low, inside, same⟩ := waiting.only _ live
              have length := inv.tail_eq
              rw [tracks.accepted, ← length] at fits
              have cap := tracks.cap
              exact slots_apart (by omega) (by omega) fits same
          | loadTail | loadHead | storeTail | returned =>
              simp [SlotFree, standing, ProducerState.narrow, PushPc.narrow]
  | _ => trivial

/-- Where the capacity divides the word, whatever the number of items, and elsewhere as long as the
    indices have not wrapped, no push writes over an item that waits to be read. -/
theorem slotFree_of_fits {capacity : Nat} {s₀ s : Channel w T}
    (made : channel w T capacity = some s₀) (run : Reach Channel.step Free s₀ s)
    (fits : capacity ∣ 2 ^ w ∨ s.accepted.length < 2 ^ w) : Reach Channel.step SlotFree s₀ s := by
  obtain ⟨⟨pos, small⟩, rfl⟩ := guarded made
  suffices clean : Reach Channel.step SlotFree (.new w T capacity) s ∧ s.ring.cap = capacity from
    clean.1
  induction run with
  | refl => exact ⟨.refl _, rfl⟩
  | @tail u t _ last inductionHypothesis =>
      obtain ⟨a, -, moved⟩ := last
      have before := Channel.accepted_le_of_step moved
      obtain ⟨clean, cap⟩ := inductionHypothesis (fits.imp_right before.trans_lt)
      obtain ⟨v, m, tracks, inv, -, -⟩ := exists_tracked pos small clean
      have free : SlotFree u a := tracks.slotFree inv (by rw [cap]; exact fits.imp_right before.trans_lt)
      exact ⟨clean.tail free moved, (Channel.cap_of_step moved).trans cap⟩

/-! ### The closing of a ring -/

/-- In every run in which no push writes over an item that waits to be read, a `None` behind a true
    `is_closed` is the end, and what was accepted before the close can be popped. -/
theorem closeLaw_of_run {capacity : Nat} {s₀ s : Channel w T}
    (made : channel w T capacity = some s₀) (run : Reach Channel.step SlotFree s₀ s) :
    CloseLaw s := by
  obtain ⟨⟨pos, small⟩, rfl⟩ := guarded made
  obtain ⟨_, m, tracks, inv, close, few⟩ := exists_tracked pos small run
  exact tracks.closeLaw inv close few

/-- Two pushes, and the producer is dropped; the consumer sees the first `tail` it may be shown, asks
    `is_closed`, and pops. -/
def closingActs : List (Act Nat) :=
  pushActs 0 7 ++ pushActs 0 8 ++ [.pop, .consumer, .seeTail 0, .dropProducer, .isClosed true]

theorem closeLaw_of_closingActs :
    ∃ s t : Channel 64 Nat, exec Channel.step (.new 64 Nat 2) closingActs = some s ∧ CloseLaw s ∧
      s.consumer = .isClosed true ∧
      exec Channel.step s (popActs 0 ++ popActs 0 ++ [.pop, .consumer, .seeTail 0]) = some t ∧
      t.popped = [7, 8] ∧ t.consumer = .pop (.returned none) := by
  have executed : (exec Channel.step (.new 64 Nat 2) closingActs).isSome = true := rfl
  have made : channel 64 Nat 2 = some (.new 64 Nat 2) := rfl
  have run := (Option.some_get executed).symm
  refine ⟨_, _, run, ?_, rfl, rfl, rfl, rfl⟩
  exact closeLaw_of_run made (slotFree_of_fits made (reach_of_exec run) (.inl (by decide)))

/-! ### An item lost at the wrap -/

/-- A ring of three slots through which `n` zeros have gone, each popped as soon as it was pushed. -/
structure Level (n : Nat) (s : Channel 64 Nat) : Prop where
  cap : s.ring.cap = 3
  head : s.ring.head = n
  tail : s.ring.tail = n
  producer : s.producer.quiescent = true
  consumer : s.consumer.quiescent = true
  headView : ∃ i : Nat, s.headView[i]? = some n
  tailView : s.tailView = [n]
  accepted : s.accepted = List.replicate n 0
  popped : s.popped = List.replicate n 0

/-- One more zero goes through. -/
theorem Level.round {n : Nat} {s : Channel 64 Nat} (level : Level n s) (few : n + 1 < 2 ^ 64) :
    ∃ t, Reach Channel.step Free s t ∧ Level (n + 1) t := by
  obtain ⟨i, newest⟩ := level.headView
  have next : wrappingSucc 64 n = n + 1 := Nat.mod_eq_of_lt few
  have room : wrappingSub 64 s.ring.tail n ≠ s.ring.cap := by
    rw [level.tail, level.cap, wrappingSub, Nat.add_sub_cancel_left, Nat.mod_self]
    decide
  have pushed := exec_pushActs 0 level.producer newest room
  rw [level.tail, level.tailView, next] at pushed
  have left : s.ring.head ≠ n + 1 := by
    rw [level.head]
    omega
  have slot : Function.update s.ring.slots (n % s.ring.cap) (.live 0) (s.ring.head % s.ring.cap) =
      .live 0 := by
    rw [level.head, Function.update_self]
  have executed := exec_append pushed (exec_popActs (i := 1) level.consumer rfl left (.inl slot))
  have next' : wrappingSucc 64 s.ring.head = n + 1 := by rw [level.head, next]
  refine ⟨_, reach_of_exec executed, ?_⟩
  exact
    { cap := level.cap
      head := next'
      tail := rfl
      producer := rfl
      consumer := rfl
      headView := ⟨(s.headView.drop i).length, List.getElem?_concat_length.trans
        (congrArg some next')⟩
      tailView := rfl
      accepted := by rw [List.replicate_succ', ← level.accepted]
      popped := by rw [List.replicate_succ', ← level.popped] }

theorem exists_level {n : Nat} (few : n < 2 ^ 64) :
    ∃ s, Reach Channel.step Free (.new 64 Nat 3) s ∧ Level n s := by
  induction n with
  | zero => exact ⟨_, .refl _, rfl, rfl, rfl, rfl, rfl, ⟨0, rfl⟩, rfl, rfl, rfl⟩
  | succ n inductionHypothesis =>
      obtain ⟨s, reached, level⟩ := inductionHypothesis (Nat.lt_of_succ_lt few)
      obtain ⟨t, further, level'⟩ := level.round few
      exact ⟨t, reached.trans further, level'⟩

/-- At the wrap 1 and 2 go into the same slot. Then the producer is dropped, and the consumer is told. -/
theorem Level.wraps {n : Nat} {s : Channel 64 Nat} (level : Level n s) (last : n + 1 = 2 ^ 64) :
    ∃ t, Reach Channel.step Free s t ∧ t.consumer = .isClosed true ∧ t.ring.cap = 3 ∧
      t.ring.head = n ∧ t.tailView = [1] ∧ t.ring.slots 0 = .live 2 ∧
      t.accepted = s.accepted ++ [1, 2] ∧ t.popped = s.popped := by
  obtain ⟨i, newest⟩ := level.headView
  have next : wrappingSucc 64 n = 0 := by rw [wrappingSucc, last, Nat.mod_self]
  have room : wrappingSub 64 s.ring.tail n ≠ s.ring.cap := by
    rw [level.tail, level.cap, wrappingSub, Nat.add_sub_cancel_left, Nat.mod_self]
    decide
  have room' : wrappingSub 64 0 n ≠ s.ring.cap := by
    rw [level.cap, wrappingSub, Nat.zero_add, ← last, Nat.add_sub_cancel_left, last]
    decide
  have first := exec_pushActs 1 level.producer newest room
  rw [level.tail, level.tailView, next] at first
  have view : (s.headView.drop i)[0]? = some n := by
    rw [List.getElem?_drop]
    exact newest
  have closed := exec_append (exec_append first (exec_pushActs 2 rfl view room'))
    (exec_close rfl level.consumer)
  have slot : Function.update (Function.update s.ring.slots (n % s.ring.cap) (.live 1))
      (0 % s.ring.cap) (.live 2) 0 = .live 2 := by
    rw [Nat.zero_mod, Function.update_self]
  exact ⟨_, reach_of_exec closed, rfl, level.cap, level.head, rfl, slot, List.append_assoc _ _ _, rfl⟩

/-- The consumer pops 2 twice, the second time from a slot that no longer owns it. -/
theorem pops_twice {n : Nat} {s : Channel 64 Nat} (last : n + 1 = 2 ^ 64)
    (answered : s.consumer = .isClosed true) (cap : s.ring.cap = 3) (head : s.ring.head = n)
    (view : s.tailView = [1]) (held : s.ring.slots 0 = .live 2) :
    ∃ t, Reach Channel.step Free s t ∧ t.consumer = .pop (.returned none) ∧
      t.accepted = s.accepted ∧ t.popped = s.popped ++ [2, 2] := by
  have seen : s.tailView[0]? = some 1 := by rw [view]; rfl
  have next : wrappingSucc 64 s.ring.head = 0 := by rw [wrappingSucc, head, last, Nat.mod_self]
  -- 2 ^ 64 - 1 is a multiple of three.
  have slot : s.ring.head % s.ring.cap = 0 := by
    rw [head, cap]
    omega
  have left : s.ring.head ≠ 1 := by omega
  have first := exec_popActs (by rw [answered]; rfl) seen left (.inl (by rw [slot]; exact held))
  rw [next] at first
  have second := exec_append first (exec_popActs (i := 0) rfl
    (show (s.tailView.drop 0)[0]? = some 1 from seen) (show 0 ≠ 1 by decide)
    (.inr (by
      show Function.update _ (s.ring.head % s.ring.cap) _ (0 % s.ring.cap) = _
      rw [slot, Nat.zero_mod]
      exact Function.update_self _ _ _)))
  have third := exec_append second (exec_popNone (i := 0) rfl
    (show ((s.tailView.drop 0).drop 0)[0]? = some 1 from seen) rfl)
  exact ⟨_, reach_of_exec third, rfl, rfl, List.append_assoc _ _ _⟩

/-- Three does not divide the word: a ring of three slots loses an item at the wrap, and a `None` behind a
    true `is_closed` is not the end of what was accepted. -/
theorem item_lost_at_wrap :
    ∃ s₀ s t : Channel 64 Nat, channel 64 Nat 3 = some s₀ ∧ Reach Channel.step Free s₀ s ∧
      s.consumer = .isClosed true ∧ Reach Channel.step Free s t ∧ t.consumer = .pop (.returned none) ∧
      1 ∈ t.accepted ∧ 1 ∉ t.popped ∧ ¬ CloseLaw s := by
  have last : 2 ^ 64 - 1 + 1 = 2 ^ 64 := rfl
  obtain ⟨s, reached, level⟩ := exists_level (n := 2 ^ 64 - 1) (by decide)
  obtain ⟨t, further, answered, cap, head, view, held, accepted, popped⟩ := level.wraps last
  obtain ⟨u, drained, none_, accepted', popped'⟩ := pops_twice last answered cap head view held
  have lost : 1 ∈ u.accepted ∧ 1 ∉ u.popped := by
    rw [accepted', accepted, popped', popped, level.popped]
    refine ⟨List.mem_append_right _ (by decide), fun member => ?_⟩
    rcases List.mem_append.1 member with member | member
    · cases List.eq_of_mem_replicate member
    · revert member
      decide
  refine ⟨_, t, u, rfl, reached.trans further, answered, drained, none_, lost.1, lost.2, fun law => ?_⟩
  have all := (law.drained answered u drained none_).1
  rw [all] at lost
  exact lost.2 lost.1

end AetherFlow.Spsc
