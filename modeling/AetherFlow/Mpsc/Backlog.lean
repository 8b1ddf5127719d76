/-
Module: AetherFlow.Mpsc.Backlog
Purpose: The counters of a mailbox as other threads see them. `Sender::depth` loads `enqueue_pos` and
  then `dequeue_pos`, with the producers and the core going on in between; what it returns never
  exceeds the number of slots, and is the number of waiting messages when nobody sends or receives.
Trusted boundary: human-reviewed transcription of `Sender::total_enqueued`, `total_dequeued` and `depth`
Main exports: Queue.totalEnqueued, Queue.totalDequeued, saturatingSub, DepthPc, Watched, Watched.step,
  Mailbox.AtRest, Mailbox.sentOk, Backlog, backlog_of_run
-/
import AetherFlow.Mpsc.Order

namespace AetherFlow.Mpsc

open Transition

variable {w k : Nat} {T : Type*}

/-! ### The counters -/

/-- `Sender::total_enqueued`. -/
def Queue.totalEnqueued {M : Type*} (q : Queue w M) : BitVec w := q.enqueuePos

/-- `Sender::total_dequeued`. -/
def Queue.totalDequeued {M : Type*} (q : Queue w M) : BitVec w := q.dequeuePos

/-- `usize::saturating_sub`. -/
def saturatingSub (a b : BitVec w) : BitVec w := if a < b then 0 else a - b

theorem toNat_saturatingSub (a b : BitVec w) : (saturatingSub a b).toNat = a.toNat - b.toNat := by
  unfold saturatingSub
  split
  · rename_i less
    have less := BitVec.lt_def.1 less
    have zero : (0 : BitVec w).toNat = 0 := by simp
    omega
  · rename_i more
    exact BitVec.toNat_sub_of_le (BitVec.not_lt.1 more)

/-- Where a `depth` call stands. -/
inductive DepthPc (w : Nat) where
  | idle
  /-- `enqueue_pos` is loaded; about to load `dequeue_pos`. -/
  | loaded (enqueued : BitVec w)
  | returned (depth : BitVec w)

/-- A mailbox and any number of threads that ask for its depth. -/
structure Watched (w : Nat) (T : Type*) where
  box : Mailbox w T
  observers : Nat → DepthPc w

inductive WatchAct (T : Type*) where
  | act (a : Act T)
  /-- A thread calls `depth` through a `Sender` and makes its first load. -/
  | loadEnqueued (o handle : Nat)
  | loadDequeued (o : Nat)

namespace Watched

def new (q : Queue w (Msg T)) : Watched w T where
  box := .new q
  observers _ := .idle

def setObserver (s : Watched w T) (o : Nat) (pc : DepthPc w) : Watched w T :=
  { s with observers := Function.update s.observers o pc }

theorem setObserver_self {s : Watched w T} {o : Nat} {pc : DepthPc w} :
    (s.setObserver o pc).observers o = pc :=
  Function.update_self ..

theorem setObserver_other {s : Watched w T} {o p : Nat} {pc : DepthPc w} (other : p ≠ o) :
    (s.setObserver o pc).observers p = s.observers p :=
  Function.update_of_ne other ..

/-- The `Sender` may be dropped during the call here, which only adds runs. -/
def step (s : Watched w T) : WatchAct T → Option (Watched w T)
  | .act a => (s.box.step a).map fun box => { s with box := box }
  | .loadEnqueued o handle =>
      match s.observers o with
      | .loaded _ => none
      | _ =>
          if handle ∈ s.box.senders then some (s.setObserver o (.loaded s.box.q.totalEnqueued)) else none
  | .loadDequeued o =>
      match s.observers o with
      | .loaded enqueued =>
          some (s.setObserver o (.returned (saturatingSub enqueued s.box.q.totalDequeued)))
      | _ => none

end Watched

/-- The states of a watched mailbox made by `channel(capacity)`. -/
def WatchedRuns (capacity : Nat) (s : Watched w T) : Prop :=
  ∃ q, channel w (Msg T) capacity = some q ∧ Reach Watched.step Free (Watched.new q) s

/-! ### Nobody sends or receives -/

/-- A `dequeue` is in progress. -/
def ConsumerPc.receiving {M : Type*} : ConsumerPc w M → Bool
  | .dequeue (.returned _) => false
  | .dequeue _ => true
  | _ => false

/-- No send and no receive is in progress. -/
structure Mailbox.AtRest (s : Mailbox w T) : Prop where
  sends : ∀ c call, s.calls c = some call → call.finished = true
  receives : s.consumer.receiving = false

def EnqueuePc.ok {M : Type*} : EnqueuePc w M → Bool
  | .returned (.ok _) => true
  | _ => false

/-- How many sends have returned `Ok`. -/
def Mailbox.sentOk (s : Mailbox w T) : Nat :=
  (List.range s.issued).countP fun c => (s.calls c).any fun call => call.pc.ok

/-- How many positions the receiving side has claimed. -/
def Mailbox.dequeued (s : Mailbox w T) : Nat := s.taken.length + s.consumer.claimed

section Box

variable {s t : Mailbox w T} {a : Act T}

/-- With every send over, those that returned `Ok` are the ones whose messages are accepted. -/
theorem sentOk_eq (handles : HandleInv s) (inv : Inv k s) (rest : s.AtRest) :
    s.sentOk = s.accepted.length := by
  have same : ((List.range s.issued).filter fun c => (s.calls c).any fun call => call.pc.ok).Perm
      (s.accepted.map Msg.call) := by
    refine (List.perm_ext_iff_of_nodup (List.nodup_range.filter _) inv.nodup).2 fun c => ?_
    rw [List.mem_filter, List.mem_range, List.mem_map, Option.any_eq_true]
    constructor
    · rintro ⟨_, call, found, ok⟩
      have inside : call.pc.stage ≠ .outside := by
        cases at_ : call.pc with
        | returned result =>
            cases result with
            | ok => simp [EnqueuePc.stage]
            | error => simp [at_, EnqueuePc.ok] at ok
        | _ => simp [at_, EnqueuePc.ok] at ok
      exact ⟨_, (inv.calls c call found).inside inside, rfl⟩
    · rintro ⟨m, member, rfl⟩
      obtain ⟨call, found, -⟩ := inv.origin m member
      refine ⟨(handles.issued m.call).2 (by rw [found]; rfl), call, found, ?_⟩
      have finished := rest.sends m.call call found
      have inside : call.pc.stage ≠ .outside := fun outside =>
        (inv.calls m.call call found).outside outside m member rfl
      cases at_ : call.pc with
      | returned result =>
          cases result with
          | ok => rfl
          | error => simp [at_, EnqueuePc.stage] at inside
      | _ => cases kind : call.kind <;> simp [Call.finished, at_, kind] at finished
  rw [Mailbox.sentOk, List.countP_eq_length_filter, same.length_eq, List.length_map]

theorem claimed_of_quiescent {pc : ConsumerPc w (Msg T)} (quiescent : pc.quiescent = true) :
    pc.claimed = 0 := by
  cases pc with
  | dequeue pc => cases pc <;> first | rfl | cases quiescent
  | _ => rfl

/-- Giving up a reference claims nothing, also where it starts `Queue::drop`. -/
theorem release_dequeued (quiescent : s.strong = 1 → s.consumer.quiescent = true) :
    s.release.taken = s.taken ∧ s.release.consumer.claimed = s.consumer.claimed := by
  unfold Mailbox.release
  split
  · rename_i last
    exact ⟨rfl, (claimed_of_quiescent (quiescent last)).symm⟩
  · exact ⟨rfl, rfl⟩

/-- Whoever gives up the last reference finds no operation on the `Receiver` in progress. -/
theorem HandleInv.quiescent_of_last (handles : HandleInv s) (last : s.strong = 1)
    (away : s.receiver ≠ .held) : s.consumer.quiescent = true := by
  refine handles.quiet away ?_
  rw [← Bool.not_eq_true, handles.teardown]
  omega

/-- What a step does to the receiving side's progress. -/
theorem step_dequeued (handles : HandleInv s) (inv : Inv k s) (moved : s.step a = some t) :
    (t.taken = s.taken ∧ t.consumer.claimed = s.consumer.claimed) ∨
      s.consumer.receiving = true ∧ s.dequeued ≤ t.dequeued := by
  cases a with
  | enqueue c =>
      obtain ⟨call, -, -, ⟨item, -, -, rfl⟩ | ⟨q, pc, -, rfl⟩⟩ := Mailbox.enqueue_cases moved
      · exact .inl ⟨rfl, rfl⟩
      · exact .inl ⟨rfl, rfl⟩
  | enqueueSpurious c =>
      simp only [Mailbox.step, Mailbox.enqueueSpurious] at moved
      split at moved
      · cases moved
      · obtain ⟨pc, -, rfl⟩ := Option.map_eq_some_iff.1 moved
        exact .inl ⟨rfl, rfl⟩
  | consumer =>
      obtain ⟨result, at_, -, rfl⟩ | ⟨pc, q, pc', at_, stepped, rfl⟩ | ⟨at_, rfl⟩ | ⟨at_, rfl⟩ |
        ⟨pos, at_, rfl⟩ := Mailbox.consumerStep_cases moved
      · refine .inl ⟨rfl, ?_⟩
        rw [at_]
        cases result <;> rfl
      · have grows : (ConsumerPc.dequeue pc).claimed ≤
            (Mailbox.delivered pc).length + (ConsumerPc.dequeue pc').claimed := by
          cases pc with
          | read pos =>
              simp only [dequeueStep] at stepped
              split at stepped
              · cases stepped
              all_goals
                cases stepped
                exact le_rfl
          | returned => cases stepped
          | storeSeq => exact Nat.le_add_right _ _
          | _ => exact Nat.zero_le _
        refine .inr ⟨?_, ?_⟩
        · rw [at_]
          cases pc with
          | returned => cases stepped
          | _ => rfl
        · rw [Mailbox.dequeued, Mailbox.dequeued, Mailbox.afterDequeue_taken inv.undropped, at_,
            List.length_append, Nat.add_assoc]
          exact Nat.add_le_add_left grows _
      · refine .inl ⟨rfl, ?_⟩
        rw [at_]
        split <;> rfl
      · exact .inl ⟨rfl, by rw [at_]; rfl⟩
      · exact .inl ⟨rfl, by rw [at_]; rfl⟩
  | consumerSpurious =>
      simp only [Mailbox.step, Mailbox.consumerSpurious] at moved
      split at moved
      · rename_i pc at_
        obtain ⟨pc', spurious, rfl⟩ := Option.map_eq_some_iff.1 moved
        cases pc with
        | cas pos =>
            cases spurious
            exact .inl ⟨rfl, by rw [at_]; rfl⟩
        | _ => cases spurious
      · cases moved
  | releaseSender =>
      obtain ⟨released, rfl⟩ := guarded moved
      refine .inl (release_dequeued fun last => handles.quiescent_of_last last fun held => ?_)
      have counted := handles.strong
      rw [if_neg (by rw [held]; decide)] at counted
      have one : s.strong = 1 := last
      omega
  | releaseReceiver =>
      obtain ⟨closing, rfl⟩ := guarded moved
      exact .inl (release_dequeued fun last => handles.quiescent_of_last last (by rw [closing]; decide))
  | tryRecv | closedAndEmpty =>
      obtain ⟨⟨-, quiescent⟩, rfl⟩ := guarded moved
      exact .inl ⟨rfl, (claimed_of_quiescent quiescent).symm⟩
  | _ =>
      obtain ⟨-, rfl⟩ := guarded moved
      exact .inl ⟨rfl, rfl⟩

/-- Between two states of rest nothing is accepted and nothing taken out. -/
theorem step_atRest (handles : HandleInv s) (inv : Inv k s) (rest : s.AtRest)
    (moved : s.step a = some t) : t.accepted = s.accepted ∧ t.taken = s.taken := by
  constructor
  · obtain ⟨-, -, accepted⟩ | ⟨_, _, _, _, -, -, -, accepted⟩ | ⟨c, call, pc, found, running, -⟩ :=
      step_calls_cases moved
    · exact accepted
    · exact accepted
    · rw [rest.sends c call found] at running
      cases running
  · rcases step_dequeued handles inv moved with ⟨taken, -⟩ | ⟨receiving, -⟩
    · exact taken
    · rw [rest.receives] at receiving
      cases receiving

theorem dequeued_mono (handles : HandleInv s) (inv : Inv k s) (moved : s.step a = some t) :
    s.dequeued ≤ t.dequeued := by
  rcases step_dequeued handles inv moved with ⟨taken, claimed⟩ | ⟨-, more⟩
  · rw [Mailbox.dequeued, Mailbox.dequeued, taken, claimed]
  · exact more

/-- A claimed position is reserved. -/
theorem Inv.dequeued_le (inv : Inv k s) : s.dequeued ≤ s.accepted.length := by
  have ready : ∀ m, Ready s.accepted (stageOf s.calls) s.taken.length m →
      s.taken.length + 1 ≤ s.accepted.length := fun m ready =>
    (List.getElem?_eq_some_iff.1 ready.1).1
  have consumer := inv.consumer
  unfold Mailbox.dequeued
  cases at_ : s.consumer with
  | dequeue pc =>
      rw [at_] at consumer
      cases pc with
      | read pos =>
          obtain ⟨-, m, published⟩ := consumer
          exact ready m published
      | storeSeq pos item => exact ready item consumer.2
      | _ => exact inv.length_le
  | _ => exact inv.length_le

/-- The two positions of a mailbox that has not wrapped, as numbers. -/
theorem Inv.toNat_positions (inv : Inv k s) (unwrapped : s.accepted.length < 2 ^ w) :
    s.q.totalEnqueued.toNat = s.accepted.length ∧ s.q.totalDequeued.toNat = s.dequeued := by
  have claimed := inv.dequeued_le
  rw [Queue.totalEnqueued, inv.enqueuePos, Queue.totalDequeued, inv.dequeuePos, BitVec.toNat_ofNat,
    BitVec.toNat_ofNat, Nat.mod_eq_of_lt unwrapped]
  exact ⟨rfl, Nat.mod_eq_of_lt (claimed.trans_lt unwrapped)⟩

theorem claimed_of_atRest (rest : s.AtRest) : s.consumer.claimed = 0 := by
  have receives := rest.receives
  cases at_ : s.consumer with
  | dequeue pc =>
      rw [at_] at receives
      cases pc with
      | returned => rfl
      | _ => cases receives
  | _ => rfl

/-- No call can have been passed by a whole word of reservations. -/
theorem notLapped_of_unwrapped (unwrapped : s.accepted.length < 2 ^ w) : NotLapped s a := by
  cases a with
  | enqueue c =>
      intro call item pos _ _ _
      omega
  | _ => trivial

end Box

/-! ### The observers -/

/-- What an observer holds. The bound is one on the position claimed last, which only grows. -/
def DepthPc.Bounded (k dequeued : Nat) : DepthPc w → Prop
  | .idle => True
  | .loaded enqueued => enqueued.toNat ≤ dequeued + 2 ^ k
  | .returned depth => depth.toNat ≤ 2 ^ k

theorem DepthPc.Bounded.mono {dequeued dequeued' : Nat} {pc : DepthPc w}
    (bounded : pc.Bounded k dequeued) (more : dequeued ≤ dequeued') : pc.Bounded k dequeued' := by
  cases pc with
  | idle => trivial
  | loaded enqueued => exact Nat.le_trans bounded (Nat.add_le_add_right more _)
  | returned depth => exact bounded

structure WatchInv (k : Nat) (s : Watched w T) : Prop where
  handles : HandleInv s.box
  inv : Inv k s.box
  observers : ∀ o, (s.observers o).Bounded k s.box.dequeued

/-- The thread whose `depth` call makes the step. -/
def WatchAct.observer : WatchAct T → Option Nat
  | .act _ => none
  | .loadEnqueued o _ | .loadDequeued o => some o

namespace WatchInv

variable {s t : Watched w T} {a : WatchAct T}

theorem setObserver (inv : WatchInv k s) {o : Nat} {pc : DepthPc w}
    (bounded : pc.Bounded k s.box.dequeued) : WatchInv k (s.setObserver o pc) where
  handles := inv.handles
  inv := inv.inv
  observers p := by
    by_cases same : p = o
    · rw [same, Watched.setObserver_self]
      exact bounded
    · rw [Watched.setObserver_other same]
      exact inv.observers p

/-- Every step keeps the invariant as long as the positions have not wrapped. -/
theorem step (inv : WatchInv k s) (two : 1 ≤ k) (fits : k < w)
    (unwrapped : s.box.accepted.length < 2 ^ w) (moved : s.step a = some t) : WatchInv k t := by
  obtain ⟨enqueued, dequeued⟩ := inv.inv.toNat_positions unwrapped
  cases a with
  | act a =>
      obtain ⟨box, stepped, rfl⟩ := Option.map_eq_some_iff.1 moved
      exact
        { handles := inv.handles.step stepped
          inv := inv.inv.step inv.handles two fits (notLapped_of_unwrapped unwrapped) stepped
          observers := fun o =>
            (inv.observers o).mono (dequeued_mono inv.handles inv.inv stepped) }
  | loadEnqueued o handle =>
      simp only [Watched.step] at moved
      split at moved
      · cases moved
      · obtain ⟨-, rfl⟩ := guarded moved
        refine inv.setObserver ?_
        have room := inv.inv.room
        simp only [DepthPc.Bounded, enqueued, Mailbox.dequeued]
        omega
  | loadDequeued o =>
      simp only [Watched.step] at moved
      split at moved
      · rename_i loaded at_
        cases moved
        refine inv.setObserver ?_
        have earlier := inv.observers o
        rw [at_] at earlier
        simp only [DepthPc.Bounded, toNat_saturatingSub, dequeued] at earlier ⊢
        exact Nat.sub_le_iff_le_add'.2 earlier
      · cases moved

end WatchInv

/-- A step at rest that is not the observer's own. -/
structure Beside (o : Nat) (s t : Watched w T) : Prop where
  observer : t.observers o = s.observers o
  accepted : t.box.accepted = s.box.accepted
  taken : t.box.taken = s.box.taken
  received : s.box.received <+: t.box.received

theorem WatchInv.beside {s t : Watched w T} {a : WatchAct T} {o : Nat} (inv : WatchInv k s)
    (rest : s.box.AtRest) (other : a.observer ≠ some o) (moved : s.step a = some t) :
    Beside o s t := by
  cases a with
  | act a =>
      obtain ⟨box, stepped, rfl⟩ := Option.map_eq_some_iff.1 moved
      obtain ⟨accepted, taken⟩ := step_atRest inv.handles inv.inv rest stepped
      exact ⟨rfl, accepted, taken, (Mailbox.step_later stepped).received⟩
  | loadEnqueued p handle =>
      simp only [Watched.step] at moved
      split at moved
      · cases moved
      · obtain ⟨-, rfl⟩ := guarded moved
        exact ⟨Watched.setObserver_other fun same => other (by rw [same]; rfl), rfl, rfl, List.prefix_rfl⟩
  | loadDequeued p =>
      simp only [Watched.step] at moved
      split at moved
      · cases moved
        exact ⟨Watched.setObserver_other fun same => other (by rw [same]; rfl), rfl, rfl, List.prefix_rfl⟩
      · cases moved

/-- The second load of a `depth` call that has seen nobody send or receive. -/
theorem WatchInv.depth_atRest {s t : Watched w T} {o : Nat} {enqueued : BitVec w}
    {labels : List (WatchAct T)} (inv : WatchInv k s) (two : 1 ≤ k) (fits : k < w)
    (unwrapped : s.box.accepted.length < 2 ^ w) (loaded : s.observers o = .loaded enqueued)
    (others : ∀ a ∈ labels, a.observer ≠ some o)
    (executed : exec Watched.step s (labels ++ [.loadDequeued o]) = some t)
    (rest : Throughout Watched.step (fun u _ => u.box.AtRest) s (labels ++ [.loadDequeued o])) :
    ∃ depth, t.observers o = .returned depth ∧
      depth.toNat = enqueued.toNat - s.box.taken.length ∧
      t.box.accepted = s.box.accepted ∧ t.box.taken = s.box.taken ∧
      s.box.received <+: t.box.received := by
  induction labels generalizing s with
  | nil =>
      have still : s.box.AtRest := rest [] _ [] s rfl rfl
      obtain ⟨u, moved, done⟩ := Option.bind_eq_some_iff.1 executed
      cases done
      simp only [Watched.step, loaded] at moved
      cases moved
      refine ⟨_, Watched.setObserver_self, ?_, rfl, rfl, List.prefix_rfl⟩
      rw [toNat_saturatingSub, (inv.inv.toNat_positions unwrapped).2, Mailbox.dequeued,
        claimed_of_atRest still]
      rfl
  | cons a labels inductionHypothesis =>
      obtain ⟨u, moved, done⟩ := Option.bind_eq_some_iff.1 executed
      obtain ⟨still, later⟩ := Throughout.head rest moved
      have beside := inv.beside still (others a List.mem_cons_self) moved
      obtain ⟨depth, returned, reads, accepted, taken, received⟩ :=
        inductionHypothesis (inv.step two fits unwrapped moved) (by rw [beside.accepted]; exact unwrapped)
          (beside.observer.trans loaded) (fun b member => others b (List.mem_cons_of_mem _ member))
          done later
      rw [beside.taken] at reads taken
      exact ⟨depth, returned, reads, accepted.trans beside.accepted, taken,
        beside.received.trans received⟩

/-! ### The law -/

/-- What the counters say, over `slots` slots. -/
structure Backlog (slots : Nat) (s : Watched w T) : Prop where
  ordered : s.box.q.totalDequeued.toNat ≤ s.box.q.totalEnqueued.toNat
  bounded : s.box.q.totalEnqueued.toNat ≤ s.box.q.totalDequeued.toNat + slots
  /-- Whatever happened between its loads, `depth` returns at most the number of slots. -/
  depth : ∀ o depth, s.observers o = .returned depth → depth.toNat ≤ slots
  /-- A `depth` call during which nobody sends or receives counts the waiting messages. -/
  atRest : ∀ o handle labels t, (∀ a ∈ labels, a.observer ≠ some o) →
    exec Watched.step s (.loadEnqueued o handle :: (labels ++ [.loadDequeued o])) = some t →
    Throughout Watched.step (fun u _ => u.box.AtRest) s
      (.loadEnqueued o handle :: (labels ++ [.loadDequeued o])) →
    ∃ depth, t.observers o = .returned depth ∧
      depth.toNat = t.box.accepted.length - t.box.received.length
  /-- When nobody sends or receives, `total_enqueued` counts the sends that returned `Ok`. -/
  total : s.box.AtRest → s.box.q.totalEnqueued.toNat = s.box.sentOk

theorem WatchInv.backlog {s : Watched w T} (inv : WatchInv k s) (two : 1 ≤ k) (fits : k < w)
    (unwrapped : s.box.accepted.length < 2 ^ w) : Backlog (2 ^ k) s := by
  obtain ⟨enqueued, dequeued⟩ := inv.inv.toNat_positions unwrapped
  refine ⟨?_, ?_, fun o depth returned => ?_, ?_, fun rest => ?_⟩
  · rw [enqueued, dequeued]
    exact inv.inv.dequeued_le
  · have room := inv.inv.room
    rw [enqueued, dequeued, Mailbox.dequeued]
    omega
  · have bounded := inv.observers o
    rwa [returned] at bounded
  · intro o handle labels t others executed rest
    obtain ⟨u, moved, done⟩ := Option.bind_eq_some_iff.1 executed
    obtain ⟨-, later⟩ := Throughout.head rest moved
    have kept := inv.step two fits unwrapped moved
    simp only [Watched.step] at moved
    split at moved
    · cases moved
    · obtain ⟨alive, rfl⟩ := guarded moved
      obtain ⟨depth, returned, reads, accepted, taken, received⟩ :=
        kept.depth_atRest two fits unwrapped Watched.setObserver_self others done later
      refine ⟨depth, returned, ?_⟩
      -- The `Sender` that `depth` is called through keeps the queue from being dropped.
      have running : s.box.teardown = false := by
        rw [← Bool.not_eq_true, inv.handles.teardown, inv.handles.strong]
        have := Finset.card_pos.2 ⟨handle, alive⟩
        omega
      have before : s.box.taken = s.box.received := by
        rw [Mailbox.taken, inv.inv.undropped running, List.append_nil]
      have grown := received.length_le
      have whole := congrArg List.length taken
      change t.box.taken.length = s.box.taken.length at whole
      rw [before, Mailbox.taken, List.length_append] at whole
      change s.box.received.length ≤ t.box.received.length at grown
      change depth.toNat = s.box.q.totalEnqueued.toNat - s.box.taken.length at reads
      rw [reads, enqueued, before, accepted]
      change s.box.accepted.length - _ = s.box.accepted.length - _
      omega
  · rw [enqueued, sentOk_eq inv.handles inv.inv rest]

/-- The counters of a mailbox with two slots or more, in every state whose positions have not wrapped. -/
theorem backlog_of_run {capacity : Nat} {s : Watched w T} (two : 2 ≤ capacity)
    (run : WatchedRuns capacity s) (unwrapped : s.box.accepted.length < 2 ^ w) :
    Backlog (roundCapacity capacity) s := by
  obtain ⟨q, made, reached⟩ := run
  obtain ⟨fits, rfl⟩ := channel_eq_some made
  have one := one_le_clog_iff.2 two
  have narrow : Nat.clog 2 (max capacity 1) < w := by omega
  have holds := reached.invariant
    (P := fun s => s.box.accepted.length < 2 ^ w → WatchInv (Nat.clog 2 (max capacity 1)) s)
    (fun _ => ⟨HandleInv.new rfl rfl, Inv.new _, fun _ => trivial⟩) ?_
  · exact (holds unwrapped).backlog one narrow unwrapped
  · intro u a v inv _ moved short
    have grows : u.box.accepted.length ≤ v.box.accepted.length := by
      cases a with
      | act a =>
          obtain ⟨box, stepped, rfl⟩ := Option.map_eq_some_iff.1 moved
          exact (Mailbox.step_later stepped).accepted.length_le
      | loadEnqueued o handle =>
          simp only [Watched.step] at moved
          split at moved
          · cases moved
          · obtain ⟨-, rfl⟩ := guarded moved
            exact le_rfl
      | loadDequeued o =>
          simp only [Watched.step] at moved
          split at moved
          · cases moved
            exact le_rfl
          · cases moved
    exact (inv (by omega)).step one narrow (by omega) moved

/-- Two messages are sent; a `depth` call sees the core receive the first of them between its loads. -/
def watchedSends : List (WatchAct Nat) :=
  (.act (.call 0 0 .trySend 7) :: List.replicate 6 (.act (.enqueue 0))) ++
    (.act (.call 0 0 .trySend 8) :: List.replicate 6 (.act (.enqueue 1))) ++
    [.loadEnqueued 0 0, .act .tryRecv] ++ List.replicate 5 (.act .consumer) ++ [.loadDequeued 0]

theorem backlog_of_watchedSends :
    ∃ s, exec Watched.step (Watched.new (Queue.new 64 (Msg Nat) 2)) watchedSends = some s ∧
      s.observers 0 = .returned 1 ∧ Backlog (roundCapacity 2) s := by
  have executed : (exec Watched.step (Watched.new (Queue.new 64 (Msg Nat) 2)) watchedSends).isSome =
      true := rfl
  have run := (Option.some_get executed).symm
  have two : ((exec Watched.step (Watched.new (Queue.new 64 (Msg Nat) 2)) watchedSends).get
      executed).box.accepted.length = 2 := rfl
  refine ⟨_, run, rfl, backlog_of_run le_rfl ?_ (by rw [two]; decide)⟩
  exact ⟨_, channel_two_pow (k := 1) (by decide), reach_of_exec run⟩

end AetherFlow.Mpsc
