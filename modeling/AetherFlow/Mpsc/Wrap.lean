/-
Module: AetherFlow.Mpsc.Wrap
Purpose: The words of a mailbox over histories that outlive them. `enqueue_pos` and `dequeue_pos` are the
  numbers of accepted and delivered messages modulo the word, every sequence of calls runs to its
  end, and the answers stay those of the bounded queue, for every capacity up to half of the word.
Trusted boundary: none
Main exports: accepted, delivered, fifo_past_wrap
-/
import Mathlib.Data.List.Induction
import AetherFlow.Mpsc.Sequential

namespace AetherFlow.Mpsc

open Transition Word

variable {w k : Nat} {M : Type*}

/-! ### The counters -/

def Outcome.accepts : Outcome M → Bool
  | .sent (.ok _) => true
  | _ => false

def Outcome.delivers : Outcome M → Bool
  | .received (some _) => true
  | _ => false

/-- The messages that were accepted, counted without bound. -/
def accepted (history : List (Operation M × Outcome M)) : Nat := history.countP (·.2.accepts)

/-- The messages that were delivered. -/
def delivered (history : List (Operation M × Outcome M)) : Nat := history.countP (·.2.delivers)

/-- How far a call has moved `enqueue_pos`. -/
def CallPc.reserved : CallPc w M → Nat
  | .send (.write _ _) | .send (.storeSeq _) | .send (.returned (.ok _)) => 1
  | _ => 0

/-- How far a call has moved `dequeue_pos`. -/
def CallPc.claimed : CallPc w M → Nat
  | .recv (.read _) | .recv (.storeSeq _ _) | .recv (.returned (some _)) => 1
  | _ => 0

/-- The positions of the queue that a call found at `q`. -/
def Counts (q : Queue w M) (s : Queue w M × CallPc w M) : Prop :=
  s.1.enqueuePos = q.enqueuePos + BitVec.ofNat w s.2.reserved ∧
    s.1.dequeuePos = q.dequeuePos + BitVec.ofNat w s.2.claimed

theorem counts_send {q now next : Queue w M} {pc pc' : EnqueuePc w M}
    (counts : Counts q (now, .send pc)) (stepped : enqueueStep now pc = some (next, pc')) :
    Counts q (next, .send pc') := by
  cases pc with
  | checkAlive item | recheckAlive item =>
      simp only [enqueueStep, Option.some.injEq, Prod.mk.injEq] at stepped
      obtain ⟨rfl, rfl⟩ := stepped
      cases now.consumerAlive <;> exact counts
  | loadPos item =>
      cases stepped
      exact counts
  | loadSeq item pos =>
      simp only [enqueueStep, Option.some.injEq, Prod.mk.injEq] at stepped
      obtain ⟨rfl, rfl⟩ := stepped
      split
      · exact counts
      · split <;> exact counts
  | cas item pos =>
      simp only [enqueueStep] at stepped
      split at stepped
      · rename_i current
        cases stepped
        refine ⟨?_, counts.2⟩
        have before := counts.1
        simp only [CallPc.reserved, BitVec.ofNat_eq_ofNat, BitVec.add_zero] at before ⊢
        rw [← current, before]
      · cases stepped
        exact counts
  | write item pos =>
      cases stepped
      exact counts
  | storeSeq pos =>
      cases stepped
      exact counts
  | returned result => cases stepped

theorem counts_recv {q now next : Queue w M} {pc pc' : DequeuePc w M}
    (counts : Counts q (now, .recv pc)) (stepped : dequeueStep now pc = some (next, pc')) :
    Counts q (next, .recv pc') := by
  cases pc with
  | loadPos =>
      cases stepped
      exact counts
  | loadSeq pos =>
      simp only [dequeueStep, Option.some.injEq, Prod.mk.injEq] at stepped
      obtain ⟨rfl, rfl⟩ := stepped
      split
      · exact counts
      · split <;> exact counts
  | cas pos =>
      simp only [dequeueStep] at stepped
      split at stepped
      · rename_i current
        cases stepped
        refine ⟨counts.1, ?_⟩
        have before := counts.2
        simp only [CallPc.claimed, BitVec.ofNat_eq_ofNat, BitVec.add_zero] at before ⊢
        rw [← current, before]
      · cases stepped
        exact counts
  | read pos =>
      cases held : (now.slot pos).val with
      | uninit => simp [dequeueStep, held] at stepped
      | live item | moved item =>
          simp only [dequeueStep, held, Option.some.injEq, Prod.mk.injEq] at stepped
          obtain ⟨rfl, rfl⟩ := stepped
          exact counts
  | storeSeq pos item =>
      cases stepped
      exact counts
  | returned result => cases stepped

theorem counts_step {q : Queue w M} {s t : Queue w M × CallPc w M} {move : Move}
    (counts : Counts q s) (moved : callStep s move = some t) : Counts q t := by
  obtain ⟨now, pc | pc⟩ := s
  · cases move with
    | step =>
        obtain ⟨⟨next, pc'⟩, stepped, rfl⟩ := Option.map_eq_some_iff.1 moved
        exact counts_send counts stepped
    | spurious =>
        obtain ⟨pc', failed, rfl⟩ := Option.map_eq_some_iff.1 moved
        cases pc with
        | cas item pos =>
            cases failed
            exact counts
        | _ => cases failed
  · cases move with
    | step =>
        obtain ⟨⟨next, pc'⟩, stepped, rfl⟩ := Option.map_eq_some_iff.1 moved
        exact counts_recv counts stepped
    | spurious =>
        obtain ⟨pc', failed, rfl⟩ := Option.map_eq_some_iff.1 moved
        cases pc with
        | cas pos =>
            cases failed
            exact counts
        | _ => cases failed

/-- What a call that has returned has done to the counters. -/
theorem reserved_of_outcome {pc : CallPc w M} {outcome : Outcome M} (returned : pc.outcome = some outcome) :
    pc.reserved = outcome.accepts.toNat ∧ pc.claimed = outcome.delivers.toNat := by
  rcases pc with (_ | _ | _ | _ | _ | _ | _ | result) | (_ | _ | _ | _ | _ | result)
  case send.returned =>
    cases returned
    cases result <;> exact ⟨rfl, rfl⟩
  case recv.returned =>
    cases returned
    cases result <;> exact ⟨rfl, rfl⟩
  all_goals cases returned

theorem accepted_snoc (history : List (Operation M × Outcome M)) (call : Operation M × Outcome M) :
    accepted (history ++ [call]) = accepted history + call.2.accepts.toNat := by
  rw [accepted, List.countP_append, List.countP_singleton]
  cases call.2.accepts <;> rfl

theorem delivered_snoc (history : List (Operation M × Outcome M)) (call : Operation M × Outcome M) :
    delivered (history ++ [call]) = delivered history + call.2.delivers.toNat := by
  rw [delivered, List.countP_append, List.countP_singleton]
  cases call.2.delivers <;> rfl

/-- Both positions are counters modulo the word. -/
theorem Histories.positions {cap : Nat} {q : Queue w M} {history : List (Operation M × Outcome M)}
    (ran : Histories (.new w M cap) history q) :
    q.enqueuePos = BitVec.ofNat w (accepted history) ∧
      q.dequeuePos = BitVec.ofNat w (delivered history) := by
  induction ran with
  | nil => exact ⟨rfl, rfl⟩
  | @snoc history q₁ q₂ operation moves pc outcome _ ran returned inductionHypothesis =>
      have counts : Counts q₁ (q₂, pc) := by
        refine (reach_of_exec ran).invariant (P := Counts q₁) ?_ fun u a v counts _ => counts_step counts
        cases operation <;> exact ⟨(BitVec.add_zero _).symm, (BitVec.add_zero _).symm⟩
      obtain ⟨reserved, claimed⟩ := reserved_of_outcome returned
      obtain ⟨enqueuePos, dequeuePos⟩ := inductionHypothesis
      have moved := counts.1
      have moved' := counts.2
      simp only [enqueuePos, dequeuePos, reserved, claimed] at moved moved'
      rw [accepted_snoc, delivered_snoc, BitVec.ofNat_add, BitVec.ofNat_add]
      exact ⟨moved, moved'⟩

/-! ### Every sequence of calls has a history -/

section Complete

variable {q : Queue w M} {head : Nat} {stored : List M} {operation : Operation M}

/-- A lone call can go on until it returns. -/
theorem CallAt.completes {s : Queue w M × CallPc w M} (holds : Holds q k head stored) (slots : 1 ≤ k)
    (narrow : k < w) (stands : CallAt q k head stored operation s) :
    ∃ moves t outcome, exec callStep s moves = some t ∧ t.2.outcome = some outcome := by
  generalize left : s.2.rank = n
  induction n using Nat.strong_induction_on generalizing s with
  | _ n inductionHypothesis =>
      cases running : s.2.outcome with
      | some outcome => exact ⟨[], s, outcome, rfl, running⟩
      | none =>
          obtain ⟨t, moved⟩ := Option.isSome_iff_exists.1 (stands.moves_on holds narrow running)
          obtain ⟨stands', lower⟩ := stands.step holds slots narrow moved
          obtain ⟨moves, u, outcome, rest, returned⟩ :=
            inductionHypothesis t.2.rank (left ▸ lower) stands' rfl
          refine ⟨.step :: moves, u, outcome, ?_, returned⟩
          rw [exec, moved]
          exact rest

/-- A call on a queue that holds `stored` answers as the bounded queue does and leaves that behind. -/
theorem Holds.call (holds : Holds q k head stored) (slots : 1 ≤ k) (narrow : k < w)
    {history : List (Operation M × Outcome M)} {start : Queue w M} (before : Histories start history q)
    (operation : Operation M) :
    ∃ q₁ head₁, Holds q₁ k head₁ (Fifo.perform (2 ^ k) stored operation).2 ∧
      Histories start (history ++ [(operation, (Fifo.perform (2 ^ k) stored operation).1)]) q₁ := by
  obtain ⟨moves, ⟨q₁, pc⟩, outcome, ran, returned⟩ :=
    CallAt.completes holds slots narrow (CallAt.start operation)
  obtain ⟨rfl, head₁, holds₁⟩ := CallAt.returned (holds.callLaw slots narrow ran).2 returned
  exact ⟨q₁, head₁, holds₁, .snoc before ran returned⟩

theorem exists_history (slots : 1 ≤ k) (narrow : k < w) (operations : List (Operation M)) :
    ∃ history q head stored, Histories (.new w M (2 ^ k)) history q ∧ Holds q k head stored ∧
      history.map Prod.fst = operations := by
  induction operations using List.reverseRecOn with
  | nil => exact ⟨[], _, 0, [], .nil, holds_new, rfl⟩
  | append_singleton operations operation inductionHypothesis =>
      obtain ⟨history, q, head, stored, ran, holds, same⟩ := inductionHypothesis
      obtain ⟨q₁, head₁, holds₁, ran₁⟩ := holds.call slots narrow ran operation
      refine ⟨_, q₁, head₁, _, ran₁, holds₁, ?_⟩
      rw [List.map_append, same]
      rfl

end Complete

/-- For every capacity of two slots up to half of the word, and however often the positions wrap: every
    history of calls is one of the bounded queue, the positions are the unbounded counts of its accepted
    and delivered messages modulo the word, and every sequence of calls has a history. -/
theorem fifo_past_wrap (slots : 1 ≤ k) (fits : k ≤ w - 1) :
    CapacityLaw (.new w M (2 ^ k)) (2 ^ k) ∧
      (∀ history q, Histories (.new w M (2 ^ k)) history q →
        q.enqueuePos = BitVec.ofNat w (accepted history) ∧
          q.dequeuePos = BitVec.ofNat w (delivered history)) ∧
      ∀ operations : List (Operation M), ∃ history q, Histories (.new w M (2 ^ k)) history q ∧
        history.map Prod.fst = operations := by
  have narrow : k < w := by omega
  refine ⟨capacityLaw_of_slots slots narrow, fun _ _ ran => ran.positions, fun operations => ?_⟩
  obtain ⟨history, q, _, _, ran, _, same⟩ := exists_history slots narrow operations
  exact ⟨history, q, ran, same⟩

/-- Any number of messages can pass through a mailbox, each taken out before the next is put in. -/
theorem exists_rounds (slots : 1 ≤ k) (narrow : k < w) (item : M) (n : Nat) :
    ∃ history q head, Histories (.new w M (2 ^ k)) history q ∧ Holds q k head [] ∧
      accepted history = n ∧ delivered history = n := by
  induction n with
  | zero => exact ⟨[], _, 0, .nil, holds_new, rfl, rfl⟩
  | succ n inductionHypothesis =>
      obtain ⟨history, q, head, ran, holds, sent, taken⟩ := inductionHypothesis
      obtain ⟨q₁, head₁, holds₁, ran₁⟩ := holds.call slots narrow ran (.trySend item)
      rw [Fifo.perform, List.length_nil, if_pos (Nat.two_pow_pos k)] at holds₁ ran₁
      obtain ⟨q₂, head₂, holds₂, ran₂⟩ := holds₁.call slots narrow ran₁ .tryRecv
      refine ⟨_, q₂, head₂, ran₂, holds₂, ?_, ?_⟩
      · rw [accepted_snoc, accepted_snoc, sent]
        rfl
      · rw [delivered_snoc, delivered_snoc, taken]
        rfl

/-- The largest mailbox of a 32-bit target, three messages after both positions have wrapped. -/
theorem fifo_past_wrap_once :
    CapacityLaw (.new 32 Nat (2 ^ 31)) (2 ^ 31) ∧
      ∃ history q, Histories (.new 32 Nat (2 ^ 31)) history q ∧ accepted history = 2 ^ 32 + 3 ∧
        q.enqueuePos = 3 ∧ q.dequeuePos = 3 := by
  obtain ⟨law, positions, _⟩ :=
    fifo_past_wrap (w := 32) (k := 31) (M := Nat) (by decide) (by decide)
  obtain ⟨history, q, _, ran, _, sent, taken⟩ :=
    exists_rounds (w := 32) (k := 31) (by decide) (by decide) 0 (2 ^ 32 + 3)
  obtain ⟨enqueuePos, dequeuePos⟩ := positions history q ran
  rw [sent] at enqueuePos
  rw [taken] at dequeuePos
  exact ⟨law, history, q, ran, sent, enqueuePos, dequeuePos⟩

end AetherFlow.Mpsc
