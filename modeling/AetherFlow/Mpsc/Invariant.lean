/-
Module: AetherFlow.Mpsc.Invariant
Purpose: The invariant that ties every slot's sequence number to the two positions and to each send
  call's program counter, across laps of the ring and with calls stalled anywhere. Positions are
  words; the invariant names the unbounded positions behind them: the `n`-th accepted message belongs
  to position `n`, and the slots in use are those of the window of `2 ^ k` positions that starts at
  the first message not yet taken out.
Trusted boundary: none
Main exports: Stage, SlotOk, CallOk, ConsumerOk, Inv, Inv.new, Inv.step,
  Runs, Runs.handles, Runs.inv
-/
import AetherFlow.Mpsc.Handles

namespace AetherFlow.Mpsc

open Transition Word

variable {w k : Nat} {T : Type*}

/-- How far a send call has come with the position it reserved. -/
inductive Stage where
  | outside
  | reserved
  | written
  | published
deriving DecidableEq

def EnqueuePc.stage {M : Type*} : EnqueuePc w M → Stage
  | .write _ _ => .reserved
  | .storeSeq _ => .written
  | .returned (.ok _) => .published
  | _ => .outside

/-- The message a call holds, or has handed back. -/
def EnqueuePc.item {M : Type*} : EnqueuePc w M → Option M
  | .checkAlive item | .loadPos item | .loadSeq item _ | .cas item _ | .write item _
  | .recheckAlive item => some item
  | .returned (.error e) => some e.intoMessage
  | .storeSeq _ | .returned (.ok _) => none

/-- The position a call has read and not yet reserved. -/
def EnqueuePc.seen {M : Type*} : EnqueuePc w M → Option (BitVec w)
  | .loadSeq _ pos | .cas _ pos => some pos
  | _ => none

/-- The position a call has reserved and not yet published. -/
def EnqueuePc.owned {M : Type*} : EnqueuePc w M → Option (BitVec w)
  | .write _ pos | .storeSeq pos => some pos
  | _ => none

def stageOf (calls : Nat → Option (Call w T)) (c : Nat) : Stage :=
  match calls c with
  | some call => call.pc.stage
  | none => .outside

/-- `dequeue_pos` is already past the position the receiving side works on. -/
def ConsumerPc.claimed {M : Type*} : ConsumerPc w M → Nat
  | .dequeue (.read _) | .dequeue (.storeSeq _ _) => 1
  | _ => 0

/-- The message of the position the receiving side works on is out of its slot. -/
def ConsumerPc.emptied {M : Type*} : ConsumerPc w M → Bool
  | .dequeue (.storeSeq _ _) => true
  | _ => false

/-- What the slot of position `n` holds. A position nobody reserved is free for this lap; a reserved
    one is still marked free until its call publishes it; a published one holds its message until the
    receiving side has moved it out. -/
def SlotOk (accepted : List (Msg T)) (stage : Nat → Stage) (emptied : Bool) (n : Nat)
    (slot : Slot w (Msg T)) : Prop :=
  match accepted[n]? with
  | none => slot.seq = BitVec.ofNat w n ∧ ¬ slot.val.IsLive
  | some m =>
      match stage m.call with
      | .outside => False
      | .reserved => slot.seq = BitVec.ofNat w n ∧ ¬ slot.val.IsLive
      | .written => slot.seq = BitVec.ofNat w n ∧ slot.val = .live m
      | .published => slot.seq = BitVec.ofNat w (n + 1) ∧
          if emptied then ¬ slot.val.IsLive else slot.val = .live m

/-- What a send call's program counter says about the history. `head` is the first position not yet
    taken out. -/
structure CallOk (k : Nat) (accepted : List (Msg T)) (head loadedAt c : Nat) (call : Call w T) :
    Prop where
  /-- The message is unchanged wherever the call holds it. -/
  item : ∀ item, call.pc.item = some item → item = { call := c, body := call.body }
  /-- A call that reserved nothing has no message among the accepted ones. -/
  outside : call.pc.stage = .outside → ∀ m ∈ accepted, m.call ≠ c
  inside : call.pc.stage ≠ .outside → { call := c, body := call.body } ∈ accepted
  /-- The position a call has read was the next one when it read it. -/
  seen : ∀ pos, call.pc.seen = some pos → pos = BitVec.ofNat w loadedAt ∧ loadedAt ≤ accepted.length
  /-- As long as nobody has reserved the position a call found free, the ring has room for it. -/
  room : ∀ item pos, call.pc = .cas item pos → loadedAt = accepted.length →
    accepted.length < head + 2 ^ k
  /-- A reserved position that is not yet published is still in the window. -/
  owned : ∀ pos, call.pc.owned = some pos →
    ∃ n, head ≤ n ∧ accepted[n]? = some { call := c, body := call.body } ∧ pos = BitVec.ofNat w n

/-- Position `head` is published. -/
def Ready (accepted : List (Msg T)) (stage : Nat → Stage) (head : Nat) (m : Msg T) : Prop :=
  accepted[head]? = some m ∧ stage m.call = .published

/-- What the receiving side's program counter says about the first position not yet taken out. -/
def ConsumerOk (accepted : List (Msg T)) (stage : Nat → Stage) (head : Nat) :
    ConsumerPc w (Msg T) → Prop
  | .dequeue (.loadSeq pos) | .emptyLoadSeq pos => pos = BitVec.ofNat w head
  | .dequeue (.cas pos) | .dequeue (.read pos) =>
      pos = BitVec.ofNat w head ∧ ∃ m, Ready accepted stage head m
  | .dequeue (.storeSeq pos item) => pos = BitVec.ofNat w head ∧ Ready accepted stage head item
  | _ => True

structure Inv (k : Nat) (s : Mailbox w T) : Prop where
  mask : s.q.mask = BitVec.ofNat w (2 ^ k - 1)
  enqueuePos : s.q.enqueuePos = BitVec.ofNat w s.accepted.length
  dequeuePos : s.q.dequeuePos = BitVec.ofNat w (s.taken.length + s.consumer.claimed)
  taken : s.taken <+: s.accepted
  room : s.accepted.length ≤ s.taken.length + 2 ^ k
  slots : ∀ n, s.taken.length ≤ n → n < s.taken.length + 2 ^ k →
    SlotOk s.accepted (stageOf s.calls) (n = s.taken.length && s.consumer.emptied) n
      (s.q.buffer (n % 2 ^ k))
  consumer : ConsumerOk s.accepted (stageOf s.calls) s.taken.length s.consumer
  calls : ∀ c call, s.calls c = some call →
    CallOk k s.accepted s.taken.length (s.loadedAt c) c call
  origin : ∀ m ∈ s.accepted, ∃ call, s.calls m.call = some call ∧ m.body = call.body
  nodup : (s.accepted.map Msg.call).Nodup
  undropped : s.teardown = false → s.dropped = []

/-! ### Reading the invariant -/

theorem stageOf_update {calls : Nat → Option (Call w T)} {c : Nat} {call : Call w T} :
    stageOf (Function.update calls c (some call)) =
      Function.update (stageOf calls) c call.pc.stage := by
  funext d
  by_cases same : d = c
  · subst same
    simp [stageOf]
  · simp [stageOf, same]

theorem stageOf_eq {calls : Nat → Option (Call w T)} {c : Nat} {call : Call w T}
    (found : calls c = some call) : stageOf calls c = call.pc.stage := by
  simp [stageOf, found]

/-- Positions and call numbers determine each other. -/
theorem position_unique {accepted : List (Msg T)} (nodup : (accepted.map Msg.call).Nodup)
    {n n' : Nat} {m m' : Msg T} (at_ : accepted[n]? = some m) (at_' : accepted[n']? = some m')
    (same : m.call = m'.call) : n = n' := by
  have first : (accepted.map Msg.call)[n]? = some m.call := by simp [at_]
  have second : (accepted.map Msg.call)[n']? = some m.call := by simp [at_', same]
  have inside : n < (accepted.map Msg.call).length := (List.getElem?_eq_some_iff.1 first).1
  exact (List.getElem?_inj inside nodup).1 (first.trans second.symm)

namespace Inv

variable {s : Mailbox w T}

theorem length_le (inv : Inv k s) : s.taken.length ≤ s.accepted.length := inv.taken.length_le

/-- The slot of a position, found through the masked word that stands for it. -/
theorem index_ofNat (inv : Inv k s) (fits : k < w) (n : Nat) :
    s.q.index (BitVec.ofNat w n) = n % 2 ^ k := by
  rw [Queue.index, inv.mask]
  exact toNat_and_mask fits.le n

theorem slot_ofNat (inv : Inv k s) (fits : k < w) (n : Nat) :
    s.q.slot (BitVec.ofNat w n) = s.q.buffer (n % 2 ^ k) := by
  rw [Queue.slot, inv.index_ofNat fits]

/-- The sequence number at the head of the window tells whether its position is published. -/
theorem head_seq (inv : Inv k s) :
    ((∃ m, Ready s.accepted (stageOf s.calls) s.taken.length m) ∧
        (s.q.buffer (s.taken.length % 2 ^ k)).seq = BitVec.ofNat w (s.taken.length + 1)) ∨
      ((¬ ∃ m, Ready s.accepted (stageOf s.calls) s.taken.length m) ∧
        (s.q.buffer (s.taken.length % 2 ^ k)).seq = BitVec.ofNat w s.taken.length) := by
  have slot := inv.slots s.taken.length le_rfl (Nat.lt_add_of_pos_right (Nat.two_pow_pos k))
  unfold SlotOk at slot
  cases at_ : s.accepted[s.taken.length]? with
  | none =>
      rw [at_] at slot
      exact .inr ⟨by simp [Ready, at_], slot.1⟩
  | some m =>
      simp only [at_] at slot
      cases stage : stageOf s.calls m.call with
      | outside => simp [stage] at slot
      | reserved | written =>
          simp only [stage] at slot
          exact .inr ⟨by simp [Ready, at_, stage], slot.1⟩
      | published =>
          simp only [stage] at slot
          exact .inl ⟨⟨m, at_, stage⟩, slot.1⟩

end Inv

/-! ### How the parts of the invariant follow a change of the history -/

/-- To check every call after one of them moved, check the mover and the others. -/
theorem forall_calls_update {calls : Nat → Option (Call w T)} {c : Nat} {mover : Call w T}
    {P : Nat → Call w T → Prop} (own : P c mover)
    (others : ∀ d call, d ≠ c → calls d = some call → P d call) :
    ∀ d call, Function.update calls c (some mover) d = some call → P d call := by
  intro d call at_
  by_cases same : d = c
  · subst same
    rw [Function.update_self] at at_
    cases at_
    exact own
  · rw [Function.update_of_ne same] at at_
    exact others d call same at_

theorem origin_update {calls : Nat → Option (Call w T)} {accepted : List (Msg T)} {c : Nat}
    {call : Call w T} (found : calls c = some call) (pc : EnqueuePc w (Msg T))
    (origin : ∀ m ∈ accepted, ∃ call, calls m.call = some call ∧ m.body = call.body) :
    ∀ m ∈ accepted, ∃ call',
      Function.update calls c (some { call with pc := pc }) m.call = some call' ∧
        m.body = call'.body := by
  intro m member
  obtain ⟨other, at_, body⟩ := origin m member
  by_cases same : m.call = c
  · rw [same, found] at at_
    cases at_
    exact ⟨{ call with pc := pc }, by rw [same, Function.update_self], body⟩
  · exact ⟨other, by rw [Function.update_of_ne same, at_], body⟩

/-- A call that has reserved nothing moves on with the same message. -/
theorem CallOk.moveOutside {accepted : List (Msg T)} {head loadedAt loadedAt' c : Nat}
    {call : Call w T} (ok : CallOk k accepted head loadedAt c call)
    (before : call.pc.stage = .outside) {pc : EnqueuePc w (Msg T)} (after : pc.stage = .outside)
    (item : pc.item = call.pc.item)
    (seen : ∀ pos, pc.seen = some pos →
      pos = BitVec.ofNat w loadedAt' ∧ loadedAt' ≤ accepted.length)
    (room : ∀ item pos, pc = .cas item pos → loadedAt' = accepted.length →
      accepted.length < head + 2 ^ k) :
    CallOk k accepted head loadedAt' c { call with pc := pc } where
  item := by
    intro held holds
    exact ok.item held (item ▸ holds)
  outside := fun _ => ok.outside before
  inside := fun inside => absurd after inside
  seen := seen
  room := room
  owned := by
    intro pos owned
    cases pc <;> simp [EnqueuePc.owned, EnqueuePc.stage] at owned after

/-- A reservation by somebody else does not disturb a call. -/
theorem CallOk.append {accepted : List (Msg T)} {head loadedAt c : Nat} {call : Call w T}
    (ok : CallOk k accepted head loadedAt c call) {item : Msg T} (other : item.call ≠ c) :
    CallOk k (accepted ++ [item]) head loadedAt c call where
  item := ok.item
  outside := by
    intro outside m member
    rcases List.mem_append.1 member with old | new
    · exact ok.outside outside m old
    · rw [List.mem_singleton.1 new]
      exact other
  inside := fun inside => List.mem_append_left _ (ok.inside inside)
  seen := by
    intro pos seen
    obtain ⟨word, le⟩ := ok.seen pos seen
    exact ⟨word, by simp; omega⟩
  room := by
    intro held pos at_ current
    have le := (ok.seen pos (by simp [at_, EnqueuePc.seen])).2
    simp at current
    omega
  owned := by
    intro pos owned
    obtain ⟨n, low, at_, word⟩ := ok.owned pos owned
    exact ⟨n, low, by rw [List.getElem?_append_left (List.getElem?_eq_some_iff.1 at_).1, at_], word⟩

/-- Taking out the message of another call does not disturb a call. -/
theorem CallOk.advance {accepted : List (Msg T)} {head loadedAt c : Nat} {call : Call w T}
    (ok : CallOk k accepted head loadedAt c call) {m : Msg T} (first : accepted[head]? = some m)
    (published : m.call = c → call.pc.stage = .published) :
    CallOk k accepted (head + 1) loadedAt c call where
  item := ok.item
  outside := ok.outside
  inside := ok.inside
  seen := ok.seen
  room := by
    intro item pos at_ current
    have := ok.room item pos at_ current
    omega
  owned := by
    intro pos owned
    obtain ⟨n, low, at_, word⟩ := ok.owned pos owned
    refine ⟨n, Nat.lt_of_le_of_ne low fun same => ?_, at_, word⟩
    rw [← same, first] at at_
    have := published (by rw [Option.some.inj at_])
    cases pc : call.pc <;> simp [pc, EnqueuePc.owned, EnqueuePc.stage] at owned this

/-- A call moves on inside or outside its reservation; nobody else notices. -/
theorem SlotOk.setStage {accepted : List (Msg T)} {stage : Nat → Stage} {emptied : Bool} {n : Nat}
    {slot : Slot w (Msg T)} (ok : SlotOk accepted stage emptied n slot) {c : Nat} {now : Stage}
    (other : ∀ m, accepted[n]? = some m → m.call ≠ c) :
    SlotOk accepted (Function.update stage c now) emptied n slot := by
  unfold SlotOk at ok ⊢
  cases at_ : accepted[n]? with
  | none => simpa only [at_] using ok
  | some m =>
      simp only [at_] at ok ⊢
      rwa [Function.update_of_ne (other m at_)]

/-- A new reservation changes the reading of its own slot only, and that slot was free. -/
theorem SlotOk.append {accepted : List (Msg T)} {stage : Nat → Stage} {emptied : Bool} {n : Nat}
    {slot : Slot w (Msg T)} (ok : SlotOk accepted stage emptied n slot) {item : Msg T}
    (outside : ∀ m ∈ accepted, m.call ≠ item.call) :
    SlotOk (accepted ++ [item]) (Function.update stage item.call .reserved) emptied n slot := by
  rcases lt_trichotomy n accepted.length with old | rfl | beyond
  · have same : (accepted ++ [item])[n]? = accepted[n]? := List.getElem?_append_left old
    unfold SlotOk
    rw [same]
    exact ok.setStage fun m at_ => outside m (List.mem_of_getElem? at_)
  · unfold SlotOk at ok ⊢
    simpa using ok
  · have none_ : (accepted ++ [item])[n]? = none := by
      rw [List.getElem?_eq_none_iff, List.length_append, List.length_singleton]
      omega
    unfold SlotOk at ok ⊢
    rw [List.getElem?_eq_none_iff.2 beyond.le] at ok
    simpa only [none_] using ok

/-- The receiving side relies only on its head position staying published. -/
theorem ConsumerOk.transport {accepted accepted' : List (Msg T)} {stage stage' : Nat → Stage}
    {head : Nat} {pc : ConsumerPc w (Msg T)} (ok : ConsumerOk accepted stage head pc)
    (keeps : ∀ m, Ready accepted stage head m → Ready accepted' stage' head m) :
    ConsumerOk accepted' stage' head pc := by
  unfold ConsumerOk at ok ⊢
  split at ok
  · exact ok
  · exact ok
  · exact ⟨ok.1, ok.2.imp keeps⟩
  · exact ⟨ok.1, ok.2.imp keeps⟩
  · exact ⟨ok.1, keeps _ ok.2⟩
  · trivial

theorem Mailbox.afterDequeue_taken {s : Mailbox w T}
    (undropped : s.teardown = false → s.dropped = []) (pc pc' : DequeuePc w (Msg T))
    (q : Queue w (Msg T)) : (s.afterDequeue pc q pc').taken = s.taken ++ Mailbox.delivered pc := by
  cases running : s.teardown with
  | true => simp [Mailbox.afterDequeue, Mailbox.taken, running]
  | false => simp [Mailbox.afterDequeue, Mailbox.taken, running, undropped running]

/-- A published head position stays published when an unpublished call moves on. -/
theorem Ready.setStage {accepted : List (Msg T)} {stage : Nat → Stage} {head : Nat} {m : Msg T}
    (ready : Ready accepted stage head m) {c : Nat} {now : Stage} (before : stage c ≠ .published) :
    Ready accepted (Function.update stage c now) head m := by
  have different : m.call ≠ c := fun same => before (same ▸ ready.2)
  exact ⟨ready.1, by rw [Function.update_of_ne different, ready.2]⟩

theorem Ready.append {accepted : List (Msg T)} {stage : Nat → Stage} {head : Nat} {m : Msg T}
    (ready : Ready accepted stage head m) (item : Msg T) :
    Ready (accepted ++ [item]) stage head m :=
  ⟨by rw [List.getElem?_append_left (List.getElem?_eq_some_iff.1 ready.1).1, ready.1], ready.2⟩

namespace Inv

variable {s : Mailbox w T}

/-! ### Steps of a send call -/

/-- A call that has reserved nothing moves on without touching shared memory. -/
theorem moveOutside (inv : Inv k s) {c : Nat} {call : Call w T} (found : s.calls c = some call)
    (before : call.pc.stage = .outside) {pc : EnqueuePc w (Msg T)} (after : pc.stage = .outside)
    {loadedAt : Nat → Nat} (others : ∀ d, d ≠ c → loadedAt d = s.loadedAt d)
    (ok : CallOk k s.accepted s.taken.length (loadedAt c) c { call with pc := pc }) :
    Inv k { s.setPc c call pc with loadedAt := loadedAt } := by
  have stage : stageOf (s.setPc c call pc).calls = stageOf s.calls := by
    rw [Mailbox.setPc, stageOf_update]
    simp only [after]
    exact Function.update_eq_self_iff.2 ((stageOf_eq found).trans before).symm
  refine { inv with slots := ?_, consumer := ?_, calls := ?_, origin := ?_ }
  · intro n low high
    rw [stage]
    exact inv.slots n low high
  · rw [stage]
    exact inv.consumer
  · refine forall_calls_update ok fun d other different at_ => ?_
    simp only [others d different]
    exact inv.calls d other at_
  · exact origin_update found pc inv.origin

/-- The successful compare-and-swap: the position of the call becomes the next accepted one. -/
theorem reserve (inv : Inv k s) {c : Nat} {call : Call w T} (found : s.calls c = some call)
    {item : Msg T} {pos : BitVec w} (at_ : call.pc = .cas item pos)
    (current : s.q.enqueuePos = pos) (near : s.accepted.length - s.loadedAt c < 2 ^ w)
    {loadedAt : Nat → Nat} (others : ∀ d, d ≠ c → loadedAt d = s.loadedAt d) :
    Inv k { s.setPc c call (.write item pos) with
      q := { s.q with enqueuePos := pos + 1 }
      accepted := s.accepted ++ [item]
      loadedAt := loadedAt } := by
  have ok := inv.calls c call found
  have outside := ok.outside (by simp [at_, EnqueuePc.stage])
  obtain rfl : item = { call := c, body := call.body } := ok.item item (by simp [at_, EnqueuePc.item])
  obtain ⟨word, le⟩ := ok.seen pos (by simp [at_, EnqueuePc.seen])
  -- The position matched as a word; it is also the current one as a number.
  have here : s.loadedAt c = s.accepted.length := by
    rw [inv.enqueuePos, word] at current
    exact (ofNat_eq_ofNat_iff_of_near le near).1 current.symm
  have free := ok.room _ pos at_ here
  have stage : stageOf (s.setPc c call (.write { call := c, body := call.body } pos)).calls =
      Function.update (stageOf s.calls) c .reserved := by
    rw [Mailbox.setPc, stageOf_update]
    rfl
  refine { inv with
    enqueuePos := ?_, taken := ?_, room := ?_, slots := ?_, consumer := ?_, calls := ?_,
    origin := ?_, nodup := ?_ }
  · simp only [← current, inv.enqueuePos, List.length_append, List.length_singleton,
      BitVec.ofNat_add]
    rfl
  · exact inv.taken.trans (List.prefix_append _ _)
  · simp only [List.length_append, List.length_singleton]
    exact free
  · intro n low high
    rw [stage]
    exact (inv.slots n low high).append outside
  · rw [stage]
    refine inv.consumer.transport fun m ready => (ready.append _).setStage ?_
    rw [stageOf_eq found, at_]
    simp [EnqueuePc.stage]
  · refine forall_calls_update ?_ fun d other different found' => ?_
    · exact
        { item := by simp [EnqueuePc.item]
          outside := by simp [EnqueuePc.stage]
          inside := by simp
          seen := by simp [EnqueuePc.seen]
          room := by simp
          owned := by
            intro p owned
            refine ⟨s.accepted.length, inv.length_le, by simp, ?_⟩
            simp only [EnqueuePc.owned, Option.some.injEq] at owned
            rw [← owned, word, here] }
    · simp only [others d different]
      exact (inv.calls d other found').append different.symm
  · intro m member
    rcases List.mem_append.1 member with old | new
    · exact origin_update found _ inv.origin m old
    · rw [List.mem_singleton.1 new]
      exact ⟨_, Function.update_self .., rfl⟩
  · simp only [List.map_append, List.map_cons, List.map_nil]
    refine List.nodup_append.2 ⟨inv.nodup, by simp, ?_⟩
    intro d earlier e new same
    obtain ⟨m, member, rfl⟩ := List.mem_map.1 earlier
    rw [List.mem_singleton.1 new] at same
    exact outside m member same

/-- Two positions of the window never share a slot. -/
theorem window_ne {head n n' : Nat} (low : head ≤ n) (high : n < head + 2 ^ k) (low' : head ≤ n')
    (high' : n' < head + 2 ^ k) (different : n' ≠ n) : n' % 2 ^ k ≠ n % 2 ^ k := by
  rcases Nat.lt_or_gt_of_ne different with less | more
  · exact mod_ne_mod_of_near less (by omega)
  · exact (mod_ne_mod_of_near more (by omega)).symm

/-- The call that owns position `n` changes its slot and its own stage; every other position of the
    window reads as before. -/
theorem ownSlot (inv : Inv k s) {c n : Nat} {m : Msg T} (low : s.taken.length ≤ n)
    (own : s.accepted[n]? = some m) (mine : m.call = c) {slot : Slot w (Msg T)} {now : Stage}
    (ok : SlotOk s.accepted (Function.update (stageOf s.calls) c now)
      (n = s.taken.length && s.consumer.emptied) n slot) :
    ∀ n', s.taken.length ≤ n' → n' < s.taken.length + 2 ^ k →
      SlotOk s.accepted (Function.update (stageOf s.calls) c now)
        (n' = s.taken.length && s.consumer.emptied) n'
        (Function.update s.q.buffer (n % 2 ^ k) slot (n' % 2 ^ k)) := by
  intro n' low' high'
  have high : n < s.taken.length + 2 ^ k :=
    (List.getElem?_eq_some_iff.1 own).1.trans_le inv.room
  by_cases same : n' = n
  · subst same
    rw [Function.update_self]
    exact ok
  · rw [Function.update_of_ne (window_ne low high low' high' same)]
    refine (inv.slots n' low' high').setStage fun m' at_ equal => same ?_
    exact position_unique inv.nodup at_ own (equal.trans mine.symm)

/-- Between its compare-and-swap and its publication a call finds its slot marked free, and empty
    until it has written. -/
theorem owned_slot (inv : Inv k s) (fits : k < w) {c : Nat} {call : Call w T}
    (found : s.calls c = some call) (pos : BitVec w) (owned : call.pc.owned = some pos) :
    ∃ n, s.taken.length ≤ n ∧ s.accepted[n]? = some { call := c, body := call.body } ∧
      pos = BitVec.ofNat w n ∧ s.q.index pos = n % 2 ^ k ∧ n < s.taken.length + 2 ^ k := by
  obtain ⟨n, low, at_, word⟩ := (inv.calls c call found).owned pos owned
  exact ⟨n, low, at_, word, by rw [word, inv.index_ofNat fits],
    (List.getElem?_eq_some_iff.1 at_).1.trans_le inv.room⟩

/-- The call writes its message into the slot it reserved. -/
theorem write (inv : Inv k s) (fits : k < w) {c : Nat} {call : Call w T}
    (found : s.calls c = some call) {item : Msg T} {pos : BitVec w} (at_ : call.pc = .write item pos) :
    Inv k { s.setPc c call (.storeSeq pos) with q := s.q.storeVal pos (.live item) } := by
  have ok := inv.calls c call found
  have reserved : stageOf s.calls c = .reserved := by rw [stageOf_eq found, at_]; rfl
  obtain rfl : item = { call := c, body := call.body } := ok.item item (by simp [at_, EnqueuePc.item])
  obtain ⟨n, low, own, word, index, high⟩ :=
    inv.owned_slot fits found pos (by simp [at_, EnqueuePc.owned])
  have stage : stageOf (s.setPc c call (.storeSeq pos)).calls =
      Function.update (stageOf s.calls) c .written := by
    rw [Mailbox.setPc, stageOf_update]
    rfl
  have slot := inv.slots n low high
  simp only [SlotOk, own, reserved] at slot
  refine { inv with slots := ?_, consumer := ?_, calls := ?_, origin := ?_ }
  · rw [stage]
    simp only [Queue.storeVal, index]
    refine inv.ownSlot low own rfl ?_
    simp only [SlotOk, own, Function.update_self, Queue.slot, index, and_true]
    exact slot.1
  · rw [stage]
    exact inv.consumer.transport fun m ready => ready.setStage (by simp [reserved])
  · refine forall_calls_update ?_ fun d other different found' => inv.calls d other found'
    exact
      { item := by simp [EnqueuePc.item]
        outside := by simp [EnqueuePc.stage]
        inside := fun _ => ok.inside (by simp [at_, EnqueuePc.stage])
        seen := by simp [EnqueuePc.seen]
        room := by simp
        owned := by
          intro p owned
          simp only [EnqueuePc.owned, Option.some.injEq] at owned
          exact ⟨n, low, own, by rw [← owned, word]⟩ }
  · exact origin_update found _ inv.origin

/-- The call publishes the position it has written. -/
theorem publish (inv : Inv k s) (fits : k < w) {c : Nat} {call : Call w T}
    (found : s.calls c = some call) {pos : BitVec w} (at_ : call.pc = .storeSeq pos) :
    Inv k { s.setPc c call (.returned (.ok ())) with q := s.q.storeSeq pos (pos + 1) } := by
  have ok := inv.calls c call found
  have written : stageOf s.calls c = .written := by rw [stageOf_eq found, at_]; rfl
  obtain ⟨n, low, own, word, index, high⟩ :=
    inv.owned_slot fits found pos (by simp [at_, EnqueuePc.owned])
  have stage : stageOf (s.setPc c call (.returned (.ok ()))).calls =
      Function.update (stageOf s.calls) c .published := by
    rw [Mailbox.setPc, stageOf_update]
    rfl
  -- The receiving side empties only a published slot, so it is not at work on this one.
  have untouched : (decide (n = s.taken.length) && s.consumer.emptied) = false := by
    by_contra emptied
    simp only [Bool.not_eq_false, Bool.and_eq_true, decide_eq_true_eq] at emptied
    have ready := inv.consumer
    revert ready
    cases pc : s.consumer with
    | dequeue inner =>
        cases inner with
        | storeSeq p item =>
            rintro ⟨-, first, published⟩
            rw [← emptied.1, own] at first
            cases first
            rw [written] at published
            cases published
        | _ => simp [pc, ConsumerPc.emptied] at emptied
    | _ => simp [pc, ConsumerPc.emptied] at emptied
  have slot := inv.slots n low high
  simp only [SlotOk, own, written] at slot
  refine { inv with slots := ?_, consumer := ?_, calls := ?_, origin := ?_ }
  · rw [stage]
    simp only [Queue.storeSeq, index]
    refine inv.ownSlot low own rfl ?_
    simp only [SlotOk, own, Function.update_self, Queue.slot, index, untouched, if_neg,
      Bool.false_eq_true, not_false_eq_true]
    exact ⟨by rw [word, BitVec.ofNat_add]; rfl, slot.2⟩
  · rw [stage]
    exact inv.consumer.transport fun m ready => ready.setStage (by simp [written])
  · refine forall_calls_update ?_ fun d other different found' => inv.calls d other found'
    exact
      { item := by simp [EnqueuePc.item]
        outside := by simp [EnqueuePc.stage]
        inside := fun _ => ok.inside (by simp [at_, EnqueuePc.stage])
        seen := by simp [EnqueuePc.seen]
        room := by simp
        owned := by simp [EnqueuePc.owned] }
  · exact origin_update found _ inv.origin

/-- A slot that reads as free for the next position really has room for it. With one slot only, the
    published mark of a position is the free mark of the next, so two slots are needed. -/
theorem room_of_free (inv : Inv k s) (two : 1 ≤ k) (fits : k < w)
    (free : (s.q.slot (BitVec.ofNat w s.accepted.length)).seq =
      BitVec.ofNat w s.accepted.length) :
    s.accepted.length < s.taken.length + 2 ^ k := by
  have capacity : 2 ≤ 2 ^ k := by
    simpa using Nat.pow_le_pow_right (n := 2) (by omega) two
  have below : 2 ^ k < 2 ^ w := Nat.pow_lt_pow_right (by omega) fits
  refine lt_of_le_of_ne inv.room fun full => ?_
  rw [inv.slot_ofNat fits, full, Nat.add_mod_right] at free
  rcases inv.head_seq with ⟨-, published⟩ | ⟨-, unpublished⟩
  · rw [published] at free
    have := (ofNat_eq_ofNat_iff_of_near (by omega) (by omega)).1 free
    omega
  · rw [unpublished] at free
    have := (ofNat_eq_ofNat_iff_of_near (by omega) (by omega)).1 free
    omega

/-- A call that only reads shared memory, or whose compare-and-swap fails, moves on outside. -/
theorem afterEnqueue_outside (inv : Inv k s) {c : Nat} {call : Call w T}
    (found : s.calls c = some call) (before : call.pc.stage = .outside)
    {pc : EnqueuePc w (Msg T)} (after : pc.stage = .outside) (item : pc.item = call.pc.item)
    (misses : Mailbox.reserves s.q call.pc = none)
    (seen : ∀ pos, pc.seen = some pos →
      (Mailbox.loadsPos call.pc = true ∧ pos = s.q.enqueuePos) ∨
        (Mailbox.loadsPos call.pc = false ∧ call.pc.seen = some pos))
    (room : ∀ item pos, pc = .cas item pos → Mailbox.loadsPos call.pc = false ∧
      (s.loadedAt c = s.accepted.length → s.accepted.length < s.taken.length + 2 ^ k)) :
    Inv k (s.afterEnqueue c call s.q pc) := by
  have ok := inv.calls c call found
  have same : s.afterEnqueue c call s.q pc = { s.setPc c call pc with
      loadedAt := if Mailbox.loadsPos call.pc then
        Function.update s.loadedAt c s.accepted.length else s.loadedAt } := by
    simp [Mailbox.afterEnqueue, misses, Mailbox.setPc]
  rw [same]
  refine inv.moveOutside found before after ?_ (ok.moveOutside before after item ?_ ?_)
  · intro d different
    split
    · rw [Function.update_of_ne different]
    · rfl
  · intro pos at_
    rcases seen pos at_ with ⟨loads, rfl⟩ | ⟨keeps, earlier⟩
    · simp only [loads, if_true, Function.update_self]
      exact ⟨inv.enqueuePos, le_rfl⟩
    · simp only [keeps, Bool.false_eq_true, if_false]
      exact ok.seen pos earlier
  · intro held pos at_ current
    obtain ⟨keeps, free⟩ := room held pos at_
    simp only [keeps, Bool.false_eq_true, if_false] at current
    exact free current

/-- A step of a send call keeps the invariant unless the call was lapped. -/
theorem enqueue (inv : Inv k s) (two : 1 ≤ k) (fits : k < w) {c : Nat} {t : Mailbox w T}
    (unlapped : NotLapped s (.enqueue c)) (moved : s.enqueue c = some t) : Inv k t := by
  obtain ⟨call, found, -, ⟨item, -, at_, rfl⟩ | ⟨q, pc', stepped, rfl⟩⟩ :=
    Mailbox.enqueue_cases moved
  · have before : call.pc.stage = .outside := by rw [at_]; rfl
    exact inv.moveOutside found before rfl (fun _ _ => rfl)
      ((inv.calls c call found).moveOutside before rfl (by rw [at_]; rfl)
        (by simp [EnqueuePc.seen]) (by simp))
  cases at_ : call.pc with
  | checkAlive item =>
      rw [at_] at stepped
      cases stepped
      refine inv.afterEnqueue_outside found (by rw [at_]; rfl) ?_ ?_ (by rw [at_]; rfl) ?_ ?_
      all_goals split
      all_goals simp [at_, EnqueuePc.stage, EnqueuePc.item, EnqueuePc.seen, TrySendError.intoMessage]
  | loadPos item =>
      rw [at_] at stepped
      cases stepped
      refine inv.afterEnqueue_outside found (by rw [at_]; rfl) rfl (by rw [at_]; rfl)
        (by rw [at_]; rfl) ?_ (by simp)
      intro pos seen
      exact .inl ⟨by rw [at_]; rfl, (Option.some.inj seen).symm⟩
  | loadSeq item pos =>
      rw [at_] at stepped
      cases stepped
      refine inv.afterEnqueue_outside found (by rw [at_]; rfl) ?_ ?_ (by rw [at_]; rfl) ?_ ?_
      · split
        · rfl
        · split <;> rfl
      · rw [at_]
        split
        · rfl
        · split <;> rfl
      · intro pos' seen
        refine .inr ⟨by rw [at_]; rfl, ?_⟩
        rw [at_]
        split at seen
        · exact seen
        · split at seen <;> cases seen
      · intro item' pos' free
        refine ⟨by rw [at_]; rfl, fun current => ?_⟩
        split at free
        · rename_i gap
          cases free
          obtain ⟨word, -⟩ :=
            (inv.calls c call found).seen pos (by simp [at_, EnqueuePc.seen])
          rw [signedGap_eq_zero_iff, word, current] at gap
          exact inv.room_of_free two fits gap
        · split at free <;> cases free
  | cas item pos =>
      rw [at_] at stepped
      simp only [enqueueStep] at stepped
      split at stepped
      · rename_i current
        cases stepped
        have reserves : Mailbox.reserves s.q call.pc = some item := by
          simp [at_, Mailbox.reserves, current]
        simp only [Mailbox.afterEnqueue, reserves, Option.toList_some]
        refine inv.reserve found at_ current (unlapped call item pos found at_ current) ?_
        intro d different
        simp [at_, Mailbox.loadsPos, different]
      · rename_i other
        cases stepped
        refine inv.afterEnqueue_outside found (by rw [at_]; rfl) rfl (by rw [at_]; rfl)
          (by simp [at_, Mailbox.reserves, other]) ?_ (by simp)
        intro pos' seen
        exact .inl ⟨by rw [at_]; rfl, (Option.some.inj seen).symm⟩
  | write item pos =>
      rw [at_] at stepped
      cases stepped
      simpa [Mailbox.afterEnqueue, at_, Mailbox.reserves, Mailbox.loadsPos, Mailbox.setPc] using
        inv.write fits found at_
  | storeSeq pos =>
      rw [at_] at stepped
      cases stepped
      simpa [Mailbox.afterEnqueue, at_, Mailbox.reserves, Mailbox.loadsPos, Mailbox.setPc] using
        inv.publish fits found at_
  | recheckAlive item =>
      rw [at_] at stepped
      cases stepped
      refine inv.afterEnqueue_outside found (by rw [at_]; rfl) rfl ?_ (by rw [at_]; rfl)
        (by simp [EnqueuePc.seen]) (by simp)
      rw [at_]
      split <;> rfl
  | returned result =>
      rw [at_] at stepped
      cases stepped

theorem enqueueSpurious (inv : Inv k s) {c : Nat} {t : Mailbox w T}
    (moved : s.enqueueSpurious c = some t) : Inv k t := by
  simp only [Mailbox.enqueueSpurious] at moved
  split at moved
  · cases moved
  · rename_i call found
    obtain ⟨pc, spurious, rfl⟩ := Option.map_eq_some_iff.1 moved
    cases at_ : call.pc with
    | cas item pos =>
        rw [at_] at spurious
        cases spurious
        have before : call.pc.stage = .outside := by rw [at_]; rfl
        refine inv.moveOutside found before rfl (fun d different => by simp [different])
          ((inv.calls c call found).moveOutside before rfl (by rw [at_]; rfl) ?_ (by simp))
        intro pos' seen
        rw [Function.update_self]
        exact ⟨(Option.some.inj seen).symm.trans inv.enqueuePos, le_rfl⟩
    | _ => simp [at_, Mpsc.enqueueSpurious] at spurious

/-- A call that starts has a number no message carries yet. -/
theorem call (inv : Inv k s) (handles : HandleInv s) {thread handle : Nat} {kind : SendKind}
    {body : T} {t : Mailbox w T} (moved : s.call thread handle kind body = some t) : Inv k t := by
  obtain ⟨-, rfl⟩ := guarded moved
  have unused : s.calls s.issued = none := by
    by_contra used
    exact lt_irrefl _ ((handles.issued _).2 (Option.isSome_iff_ne_none.2 used))
  have stage : ∀ call : Call w T, call.pc.stage = .outside →
      stageOf (Function.update s.calls s.issued (some call)) = stageOf s.calls := by
    intro call outside
    rw [stageOf_update, outside]
    exact Function.update_eq_self_iff.2 (by simp [stageOf, unused])
  have fresh : ∀ m ∈ s.accepted, m.call ≠ s.issued := by
    intro m member same
    obtain ⟨call, at_, -⟩ := inv.origin m member
    rw [same, unused] at at_
    cases at_
  refine { inv with slots := ?_, consumer := ?_, calls := ?_, origin := ?_ }
  · intro n low high
    rw [stage _ rfl]
    exact inv.slots n low high
  · rw [stage _ rfl]
    exact inv.consumer
  · refine forall_calls_update ?_ fun d other _ at_ => inv.calls d other at_
    exact
      { item := by simp [EnqueuePc.item]
        outside := fun _ => fresh
        inside := by simp [EnqueuePc.stage]
        seen := by simp [EnqueuePc.seen]
        room := by simp
        owned := by simp [EnqueuePc.owned] }
  · intro m member
    obtain ⟨call, at_, body⟩ := inv.origin m member
    exact ⟨call, by simpa [fresh m member] using at_, body⟩

/-! ### Steps of the receiving side -/

/-- The receiving side moves on without touching shared memory. -/
theorem setConsumer (inv : Inv k s) {pc : ConsumerPc w (Msg T)}
    (claimed : pc.claimed = s.consumer.claimed) (emptied : pc.emptied = s.consumer.emptied)
    (ok : ConsumerOk s.accepted (stageOf s.calls) s.taken.length pc) :
    Inv k { s with consumer := pc } := by
  refine { inv with dequeuePos := ?_, slots := ?_, consumer := ok }
  · simp only [claimed]
    exact inv.dequeuePos
  · intro n low high
    simp only [emptied]
    exact inv.slots n low high

/-- The compare-and-swap on `dequeue_pos` succeeds. -/
theorem claim (inv : Inv k s) {pos : BitVec w} (at_ : s.consumer = .dequeue (.cas pos)) :
    Inv k { s with
      q := { s.q with dequeuePos := pos + 1 }
      consumer := .dequeue (.read pos) } := by
  have ok := inv.consumer
  rw [at_] at ok
  refine { inv with dequeuePos := ?_, slots := ?_, consumer := ok }
  · change pos + 1 = BitVec.ofNat w (s.taken.length + 1)
    rw [ok.1, BitVec.ofNat_add]
    rfl
  · intro n low high
    have := inv.slots n low high
    rw [at_] at this
    exact this

/-- The slot the receiving side is about to read holds the message of its position. -/
theorem read_slot (inv : Inv k s) (fits : k < w) {pos : BitVec w}
    (at_ : s.consumer = .dequeue (.read pos)) :
    ∃ m, Ready s.accepted (stageOf s.calls) s.taken.length m ∧ (s.q.slot pos).val = .live m := by
  have ok := inv.consumer
  rw [at_] at ok
  obtain ⟨word, m, ready⟩ := ok
  have slot := inv.slots s.taken.length le_rfl (Nat.lt_add_of_pos_right (Nat.two_pow_pos k))
  simp only [SlotOk, ready.1, ready.2, at_, ConsumerPc.emptied, Bool.and_false,
    Bool.false_eq_true, if_false] at slot
  exact ⟨m, ready, by rw [word, inv.slot_ofNat fits, slot.2]⟩

/-- The receiving side moves the message out of its slot. -/
theorem read (inv : Inv k s) (fits : k < w) {pos : BitVec w} {m : Msg T}
    (at_ : s.consumer = .dequeue (.read pos)) (live : (s.q.slot pos).val = .live m) :
    Inv k { s with
      q := s.q.storeVal pos (.moved m)
      consumer := .dequeue (.storeSeq pos m) } := by
  obtain ⟨m', ready, live'⟩ := inv.read_slot fits at_
  obtain rfl : m = m' := by
    rw [live] at live'
    exact MaybeUninit.live.inj live'
  have ok := inv.consumer
  rw [at_] at ok
  obtain ⟨word, -⟩ := ok
  have index : s.q.index pos = s.taken.length % 2 ^ k := by rw [word, inv.index_ofNat fits]
  refine { inv with dequeuePos := ?_, slots := ?_, consumer := ⟨word, ready⟩ }
  · have := inv.dequeuePos
    rw [at_] at this
    exact this
  · change ∀ n, s.taken.length ≤ n → n < s.taken.length + 2 ^ k →
      SlotOk s.accepted (stageOf s.calls) (n = s.taken.length && true) n
        (Function.update s.q.buffer (s.q.index pos) { s.q.slot pos with val := .moved m } (n % 2 ^ k))
    intro n low high
    have old := inv.slots n low high
    rw [index]
    by_cases head : n = s.taken.length
    · subst head
      simp only [SlotOk, ready.1, ready.2] at old
      simp only [SlotOk, ready.1, ready.2, Function.update_self, Queue.slot, index,
        MaybeUninit.IsLive, decide_true, Bool.and_true, if_true, not_false_eq_true, and_true]
      exact old.1
    · rw [Function.update_of_ne (window_ne le_rfl (by omega) low high head)]
      simpa [head] using old

/-- The receiving side releases the slot to the next lap and hands the message over. -/
theorem releaseSlot (inv : Inv k s) (fits : k < w) {pos : BitVec w} {m : Msg T}
    (at_ : s.consumer = .dequeue (.storeSeq pos m)) :
    Inv k (s.afterDequeue (.storeSeq pos m) (s.q.storeSeq pos (pos + s.q.mask + 1))
      (.returned (some m))) := by
  have ok := inv.consumer
  rw [at_] at ok
  obtain ⟨word, first, published⟩ := ok
  have index : s.q.index pos = s.taken.length % 2 ^ k := by rw [word, inv.index_ofNat fits]
  have inside : s.taken.length < s.accepted.length := (List.getElem?_eq_some_iff.1 first).1
  have next : pos + s.q.mask + 1 = BitVec.ofNat w (s.taken.length + 2 ^ k) := by
    have : s.taken.length + 2 ^ k = s.taken.length + (2 ^ k - 1) + 1 := by
      have := Nat.two_pow_pos k
      omega
    rw [word, inv.mask, this, BitVec.ofNat_add, BitVec.ofNat_add]
    rfl
  have taken := Mailbox.afterDequeue_taken inv.undropped (.storeSeq pos m) (.returned (some m))
    (s.q.storeSeq pos (pos + s.q.mask + 1))
  have length : (s.afterDequeue (.storeSeq pos m) (s.q.storeSeq pos (pos + s.q.mask + 1))
      (.returned (some m))).taken.length = s.taken.length + 1 := by
    rw [taken]
    simp [Mailbox.delivered]
  refine { inv with
    dequeuePos := ?_, taken := ?_, room := ?_, slots := ?_, consumer := trivial, calls := ?_,
    undropped := ?_ }
  · rw [length]
    have := inv.dequeuePos
    rw [at_] at this
    exact this
  · rw [taken]
    obtain ⟨rest, whole⟩ := inv.taken
    have := first
    rw [← whole, List.getElem?_append_right le_rfl, Nat.sub_self] at this
    cases rest with
    | nil => cases this
    | cons head rest =>
        cases this
        exact ⟨rest, by simpa [Mailbox.delivered, Mailbox.afterDequeue] using whole⟩
  · rw [length]
    exact inv.room.trans (by omega)
  · rw [length]
    change ∀ n, s.taken.length + 1 ≤ n → n < s.taken.length + 1 + 2 ^ k →
      SlotOk s.accepted (stageOf s.calls) (n = s.taken.length + 1 && false) n
        (Function.update s.q.buffer (s.q.index pos)
          { s.q.slot pos with seq := pos + s.q.mask + 1 } (n % 2 ^ k))
    intro n low high
    rw [index, next, Bool.and_false]
    by_cases last : n = s.taken.length + 2 ^ k
    · have head := inv.slots s.taken.length le_rfl (by omega)
      simp only [SlotOk, first, published, at_, ConsumerPc.emptied, decide_true, Bool.and_true,
        if_true] at head
      have unreserved : s.accepted[n]? = none := List.getElem?_eq_none_iff.2 (last ▸ inv.room)
      rw [last] at unreserved ⊢
      simp only [SlotOk, unreserved, Nat.add_mod_right, Function.update_self, Queue.slot, index,
        true_and]
      exact head.2
    · have old := inv.slots n (by omega) (by omega)
      rw [Function.update_of_ne (window_ne le_rfl (by omega) (by omega) (by omega)
        (show n ≠ s.taken.length by omega))]
      simpa [show n ≠ s.taken.length by omega] using old
  · rw [length]
    intro c call found
    refine (inv.calls c call found).advance first fun mine => ?_
    rw [← stageOf_eq found, ← mine]
    exact published
  · intro running
    have running : s.teardown = false := running
    simp [Mailbox.afterDequeue, running, inv.undropped running]

/-- A `dequeue` step that only reads shared memory. -/
theorem afterDequeue_reading (inv : Inv k s) {pc pc' : DequeuePc w (Msg T)}
    (at_ : s.consumer = .dequeue pc) (nothing : Mailbox.delivered pc = [])
    (claimed : (ConsumerPc.dequeue pc').claimed = 0) (unclaimed : s.consumer.claimed = 0)
    (ok : ConsumerOk s.accepted (stageOf s.calls) s.taken.length (.dequeue pc')) :
    Inv k (s.afterDequeue pc s.q pc') := by
  have same : s.afterDequeue pc s.q pc' = { s with consumer := .dequeue pc' } := by
    simp [Mailbox.afterDequeue, nothing]
  have full {pc : DequeuePc w (Msg T)} : (ConsumerPc.dequeue pc).claimed = 0 →
      (ConsumerPc.dequeue pc).emptied = false := by
    cases pc <;> simp [ConsumerPc.claimed, ConsumerPc.emptied]
  rw [same]
  refine inv.setConsumer (claimed.trans unclaimed.symm) ?_ ok
  rw [full claimed, at_, full (at_ ▸ unclaimed)]

/-- `dequeue` and `is_empty` see a gap of zero exactly when the head position is published. -/
theorem head_gap_of_ready (inv : Inv k s) (fits : k < w)
    (ready : ∃ m, Ready s.accepted (stageOf s.calls) s.taken.length m) :
    signedGap (s.q.slot (BitVec.ofNat w s.taken.length)).seq (BitVec.ofNat w s.taken.length + 1) =
      0 := by
  rcases inv.head_seq with ⟨-, seq⟩ | ⟨waiting, -⟩
  · rw [inv.slot_ofNat fits, seq, BitVec.ofNat_add]
    exact signedGap_self _
  · exact absurd ready waiting

theorem head_gap_of_waiting (inv : Inv k s) (fits : k < w)
    (waiting : ¬ ∃ m, Ready s.accepted (stageOf s.calls) s.taken.length m) :
    signedGap (s.q.slot (BitVec.ofNat w s.taken.length)).seq (BitVec.ofNat w s.taken.length + 1) =
      -1 := by
  rcases inv.head_seq with ⟨ready, -⟩ | ⟨-, seq⟩
  · exact absurd ready waiting
  · rw [inv.slot_ofNat fits, seq]
    exact signedGap_succ_right (by omega) _

theorem consumerStep (inv : Inv k s) (fits : k < w) {t : Mailbox w T}
    (moved : s.consumerStep = some t) : Inv k t := by
  obtain ⟨result, at_, -, rfl⟩ | ⟨pc, q, pc', at_, stepped, rfl⟩ | ⟨at_, rfl⟩ |
    ⟨at_, rfl⟩ | ⟨pos, at_, rfl⟩ := Mailbox.consumerStep_cases moved
  · refine inv.setConsumer ?_ ?_ ?_
    all_goals cases result <;> simp [at_, ConsumerPc.claimed, ConsumerPc.emptied, ConsumerOk]
  · have ok := inv.consumer
    have position := inv.dequeuePos
    rw [at_] at ok position
    cases pc with
    | loadPos =>
        cases stepped
        exact inv.afterDequeue_reading at_ rfl rfl (by rw [at_]; rfl) position
    | loadSeq pos =>
        cases stepped
        obtain rfl : pos = BitVec.ofNat w s.taken.length := ok
        by_cases ready : ∃ m, Ready s.accepted (stageOf s.calls) s.taken.length m
        · rw [inv.head_gap_of_ready fits ready]
          exact inv.afterDequeue_reading at_ rfl rfl (by rw [at_]; rfl) ⟨rfl, ready⟩
        · rw [inv.head_gap_of_waiting fits ready]
          exact inv.afterDequeue_reading at_ rfl rfl (by rw [at_]; rfl) trivial
    | cas pos =>
        simp only [dequeueStep] at stepped
        split at stepped
        · cases stepped
          simpa [Mailbox.afterDequeue, Mailbox.delivered] using inv.claim at_
        · cases stepped
          exact inv.afterDequeue_reading at_ rfl rfl (by rw [at_]; rfl) position
    | read pos =>
        obtain ⟨m, -, live⟩ := inv.read_slot fits at_
        simp only [dequeueStep, live] at stepped
        cases stepped
        simpa [Mailbox.afterDequeue, Mailbox.delivered] using inv.read fits at_ live
    | storeSeq pos item =>
        cases stepped
        exact inv.releaseSlot fits at_
    | returned result => cases stepped
  · refine inv.setConsumer ?_ ?_ ?_
    all_goals split <;> simp [at_, ConsumerPc.claimed, ConsumerPc.emptied, ConsumerOk]
  · have position := inv.dequeuePos
    rw [at_] at position
    exact inv.setConsumer (by rw [at_]; rfl) (by rw [at_]; rfl) position
  · exact inv.setConsumer (by rw [at_]; rfl) (by rw [at_]; rfl) trivial

theorem consumerSpurious (inv : Inv k s) {t : Mailbox w T} (moved : s.consumerSpurious = some t) :
    Inv k t := by
  simp only [Mailbox.consumerSpurious] at moved
  split at moved
  · rename_i pc at_
    obtain ⟨pc', spurious, rfl⟩ := Option.map_eq_some_iff.1 moved
    cases pc with
    | cas pos =>
        cases spurious
        have position := inv.dequeuePos
        rw [at_] at position
        exact inv.setConsumer (by rw [at_]; rfl) (by rw [at_]; rfl) position
    | _ => simp [dequeueSpurious] at spurious
  · cases moved

/-- The operations that a quiescent `Receiver` may start. -/
theorem startConsumer (inv : Inv k s) (quiescent : s.consumer.quiescent = true)
    {pc : ConsumerPc w (Msg T)} (started : pc = .dequeue .loadPos ∨ pc = .loadProducers) :
    Inv k { s with consumer := pc } := by
  have unclaimed : s.consumer.claimed = 0 ∧ s.consumer.emptied = false := by
    revert quiescent
    cases s.consumer with
    | dequeue inner => cases inner <;> simp [ConsumerPc.quiescent, ConsumerPc.claimed, ConsumerPc.emptied]
    | _ => simp [ConsumerPc.quiescent, ConsumerPc.claimed, ConsumerPc.emptied]
  rcases started with rfl | rfl
  all_goals exact inv.setConsumer unclaimed.1.symm unclaimed.2.symm trivial

/-- The last reference may be given up only between operations of the receiving side. -/
theorem release (inv : Inv k s) (quiescent : s.strong = 1 → s.consumer.quiescent = true) :
    Inv k s.release := by
  unfold Mailbox.release
  split
  · rename_i last
    have started := inv.startConsumer (quiescent last) (.inl rfl)
    exact { started with undropped := by simp }
  · exact { inv with }

theorem releaseSender (inv : Inv k s) (handles : HandleInv s) {t : Mailbox w T}
    (moved : s.releaseSender = some t) : Inv k t := by
  obtain ⟨some_released, rfl⟩ := guarded moved
  have intermediate : Inv k { s with releasing := s.releasing - 1 } := { inv with }
  refine intermediate.release fun last => ?_
  have last : s.strong = 1 := last
  have counted := handles.strong
  have running : s.teardown = false := by
    rw [← Bool.not_eq_true, handles.teardown]
    omega
  refine handles.quiet (fun held => ?_) running
  simp only [held, reduceCtorEq, if_false] at counted
  omega

theorem releaseReceiver (inv : Inv k s) (handles : HandleInv s) {t : Mailbox w T}
    (moved : s.releaseReceiver = some t) : Inv k t := by
  obtain ⟨closing, rfl⟩ := guarded moved
  have intermediate : Inv k { s with receiver := .gone } := { inv with }
  refine intermediate.release fun last => ?_
  have last : s.strong = 1 := last
  have running : s.teardown = false := by
    rw [← Bool.not_eq_true, handles.teardown]
    omega
  exact handles.quiet (by simp [closing]) running

/-! ### The invariant along runs -/

theorem new (k : Nat) : Inv k (Mailbox.new (Queue.new w (Msg T) (2 ^ k))) where
  mask := rfl
  enqueuePos := rfl
  dequeuePos := rfl
  taken := List.prefix_rfl
  room := Nat.zero_le _
  slots := by
    intro n _ high
    have inside : n < 2 ^ k := by simpa [Mailbox.new, Mailbox.taken] using high
    simp [SlotOk, Mailbox.new, Queue.new, Nat.mod_eq_of_lt inside, MaybeUninit.IsLive]
  consumer := trivial
  calls := by simp [Mailbox.new]
  origin := by simp [Mailbox.new]
  nodup := by simp [Mailbox.new]
  undropped := by simp [Mailbox.new]

/-- Every step keeps the invariant, unless it is the compare-and-swap of a lapped call. -/
theorem step (inv : Inv k s) (handles : HandleInv s) (two : 1 ≤ k) (fits : k < w) {a : Act T}
    {t : Mailbox w T} (unlapped : NotLapped s a) (moved : s.step a = some t) : Inv k t := by
  cases a with
  | call thread handle kind body => exact inv.call handles moved
  | enqueue c => exact inv.enqueue two fits unlapped moved
  | enqueueSpurious c => exact inv.enqueueSpurious moved
  | cloneStart handle =>
      obtain ⟨-, rfl⟩ := guarded moved
      exact { inv with }
  | cloneFinish handle =>
      obtain ⟨-, rfl⟩ := guarded moved
      exact { inv with }
  | dropSender handle =>
      obtain ⟨-, rfl⟩ := guarded moved
      exact { inv with }
  | releaseSender => exact inv.releaseSender handles moved
  | tryRecv =>
      obtain ⟨⟨-, quiescent⟩, rfl⟩ := guarded moved
      exact inv.startConsumer quiescent (.inl rfl)
  | closedAndEmpty =>
      obtain ⟨⟨-, quiescent⟩, rfl⟩ := guarded moved
      exact inv.startConsumer quiescent (.inr rfl)
  | consumer => exact inv.consumerStep fits moved
  | consumerSpurious => exact inv.consumerSpurious moved
  | dropReceiver =>
      obtain ⟨-, rfl⟩ := guarded moved
      exact { inv with }
  | releaseReceiver => exact inv.releaseReceiver handles moved

end Inv

/-- The states of a mailbox made by `channel(capacity)`, in runs whose steps all meet `ok`. -/
def Runs (ok : Mailbox w T → Act T → Prop) (capacity : Nat) (s : Mailbox w T) : Prop :=
  ∃ q, channel w (Msg T) capacity = some q ∧ Reach Mailbox.step ok (Mailbox.new q) s

namespace Runs

variable {ok : Mailbox w T → Act T → Prop} {capacity : Nat} {s : Mailbox w T}

theorem step {t : Mailbox w T} {a : Act T} (run : Runs ok capacity s) (met : ok s a)
    (moved : s.step a = some t) : Runs ok capacity t := by
  obtain ⟨q, made, reached⟩ := run
  exact ⟨q, made, reached.tail met moved⟩

/-- A predicate that holds of the fresh mailbox and is kept by every admitted step holds in every
    state; the step may use what is known of the run so far. -/
theorem invariant {P : Mailbox w T → Prop} (run : Runs ok capacity s)
    (initially : ∀ q, P (Mailbox.new q))
    (keeps : ∀ u a v, Runs ok capacity u → P u → ok u a → u.step a = some v → P v) : P s := by
  obtain ⟨q, made, reached⟩ := run
  have start : Runs ok capacity (Mailbox.new q) := ⟨q, made, Reach.refl _⟩
  refine (reached.invariant (P := fun s => Runs ok capacity s ∧ P s) ⟨start, initially q⟩ ?_).2
  rintro u a v ⟨run, holds⟩ met moved
  exact ⟨run.step met moved, keeps u a v run holds met moved⟩

theorem handles (run : Runs ok capacity s) : HandleInv s := by
  obtain ⟨q, made, reached⟩ := run
  obtain ⟨-, rfl⟩ := channel_eq_some made
  exact reached.invariant (HandleInv.new rfl rfl) fun _ _ _ inv _ moved => inv.step moved

/-- With two slots or more, the ring invariant holds in every run in which no call is lapped. -/
theorem inv (run : Runs NotLapped capacity s) (two : 2 ≤ capacity) :
    ∃ k, 1 ≤ k ∧ k < w ∧ 2 ^ k = roundCapacity capacity ∧ Inv k s := by
  obtain ⟨q, made, reached⟩ := run
  obtain ⟨fits, rfl⟩ := channel_eq_some made
  have fits : Nat.clog 2 (max capacity 1) < w := by omega
  refine ⟨Nat.clog 2 (max capacity 1), one_le_clog_iff.2 two, fits, rfl, ?_⟩
  refine (reached.invariant (P := fun s => HandleInv s ∧ Inv (Nat.clog 2 (max capacity 1)) s)
    ⟨HandleInv.new rfl rfl, Inv.new _⟩ ?_).2
  rintro u a v ⟨handles, inv⟩ unlapped moved
  exact ⟨handles.step moved, inv.step handles (one_le_clog_iff.2 two) fits unlapped moved⟩

end Runs

end AetherFlow.Mpsc
