/-
Module: AetherFlow.Lib.StopFlag
Purpose: Workers that load one flag, which starts down and is raised once and for all. Each worker makes
  a run of its own whatever the others do, and in it no load sees the flag up before it was raised.
  Afterwards no load sees it down, so workers that only another round can keep busy come to their end.
Trusted boundary: none
Main exports: Worker, Pool, Pool.spawn, Pool.raise, Pool.work, Pool.Inv, Worker.Ranked, Pool.togo_work
-/
import AetherFlow.Lib.Transition

namespace StopFlag

open Transition

universe u v

/-- A worker: its steps, what a step loads from the flag if it loads it, and whether it has ended. -/
structure Worker (R : Type u) (A : Type v) where
  step : R → A → Option R
  loads : A → Option Bool
  ended : R → Bool

/-- The flag and the workers that were started. -/
structure Pool (R : Type u) where
  stop : Bool
  workers : List R

namespace Pool

variable {R : Type u} {A : Type v}

def new : Pool R := ⟨false, []⟩

/-- One more worker. -/
def spawn (s : Pool R) (r : R) : Pool R := { s with workers := s.workers ++ [r] }

/-- The flag goes up. -/
def raise (s : Pool R) : Pool R := { s with stop := true }

/-- A step of worker `i`. A load sees the flag as it is. -/
def work (worker : Worker R A) (s : Pool R) (i : Nat) (a : A) : Option (Pool R) :=
  if worker.loads a = none ∨ worker.loads a = some s.stop then
    (s.workers[i]?).bind fun r =>
      (worker.step r a).map fun r => { s with workers := s.workers.set i r }
  else none

variable {worker : Worker R A} {Start : R → Prop} {s t : Pool R} {i : Nat} {a : A}

/-- What a step of a worker does. -/
theorem work_cases (moved : s.work worker i a = some t) :
    ∃ r r', s.workers[i]? = some r ∧ worker.step r a = some r' ∧
      (worker.loads a = none ∨ worker.loads a = some s.stop) ∧
      t = { s with workers := s.workers.set i r' } := by
  obtain ⟨agrees, moved⟩ := Option.ite_none_right_eq_some.1 moved
  obtain ⟨r, found, moved⟩ := Option.bind_eq_some_iff.1 moved
  obtain ⟨r', stepped, rfl⟩ := Option.map_eq_some_iff.1 moved
  exact ⟨r, r', found, stepped, agrees, rfl⟩

/-- A worker whose load agrees with the flag can take its step. -/
theorem work_of_step {r r' : R} (found : s.workers[i]? = some r)
    (agrees : worker.loads a = none ∨ worker.loads a = some s.stop)
    (stepped : worker.step r a = some r') :
    s.work worker i a = some { s with workers := s.workers.set i r' } := by
  rw [work, if_pos agrees, found, Option.bind_some, stepped]
  rfl

/-- While the flag is down, a worker does not see it up. -/
def Unstopped (worker : Worker R A) (stop : Bool) (_ : R) (a : A) : Prop :=
  stop = false → worker.loads a ≠ some true

/-- Every worker has made a run of its own from where it was started. -/
def Inv (worker : Worker R A) (Start : R → Prop) (s : Pool R) : Prop :=
  ∀ r ∈ s.workers, ∃ first, Start first ∧ Reach worker.step (Unstopped worker s.stop) first r

theorem inv_new : Inv worker Start .new := fun _ member => by cases member

theorem Inv.spawn (inv : Inv worker Start s) {r : R} (start : Start r) :
    Inv worker Start (s.spawn r) := by
  intro r' member
  rcases List.mem_append.1 member with old | new
  · exact inv r' old
  · obtain rfl := List.mem_singleton.1 new
    exact ⟨_, start, Reach.refl _⟩

theorem Inv.raise (inv : Inv worker Start s) : Inv worker Start s.raise := by
  intro r member
  obtain ⟨first, start, run⟩ := inv r member
  exact ⟨first, start, run.weaken fun _ _ _ down => by cases down⟩

theorem Inv.work (inv : Inv worker Start s) (moved : s.work worker i a = some t) :
    Inv worker Start t := by
  obtain ⟨r, r', found, stepped, agrees, rfl⟩ := work_cases moved
  intro other member
  rcases List.mem_or_eq_of_mem_set member with old | rfl
  · exact inv other old
  · obtain ⟨first, start, run⟩ := inv r (List.mem_of_getElem? found)
    refine ⟨first, start, run.tail (fun down seen => ?_) stepped⟩
    rcases agrees with nothing | same
    · rw [nothing] at seen
      cases seen
    · rw [seen, down] at same
      cases same

end Pool

/-! ### After the flag has gone up -/

/-- The rank of a worker goes down in every step that does not see the flag down, up to what the step
    may give back. -/
def Worker.Ranked {R : Type u} {A : Type v} (worker : Worker R A) (rank : R → Nat)
    (refund : A → Nat) : Prop :=
  ∀ r a r', worker.loads a ≠ some false → worker.step r a = some r' → rank r' + 1 ≤ rank r + refund a

namespace Pool

variable {R : Type u} {A : Type v}

/-- The ranks of all workers. -/
def togo (rank : R → Nat) (s : Pool R) : Nat := (s.workers.map rank).sum

theorem sum_map_set {workers : List R} {i : Nat} {r r' : R} (rank : R → Nat)
    (found : workers[i]? = some r) :
    ((workers.set i r').map rank).sum + rank r = (workers.map rank).sum + rank r' := by
  induction workers generalizing i with
  | nil => cases found
  | cons other workers inductionHypothesis =>
      cases i with
      | zero =>
          cases found
          simp only [List.set_cons_zero, List.map_cons, List.sum_cons]
          omega
      | succ i =>
          have rest := inductionHypothesis found
          simp only [List.set_cons_succ, List.map_cons, List.sum_cons]
          omega

/-- Once the flag is up, every step of a worker brings all of them nearer to their end. -/
theorem togo_work {worker : Worker R A} {rank : R → Nat} {refund : A → Nat} {s t : Pool R} {i : Nat}
    {a : A} (ranked : worker.Ranked rank refund) (raised : s.stop = true)
    (moved : s.work worker i a = some t) :
    t.stop = true ∧ t.togo rank + 1 ≤ s.togo rank + refund a := by
  obtain ⟨r, r', found, stepped, agrees, rfl⟩ := work_cases moved
  have sees : worker.loads a ≠ some false := by
    intro down
    rw [down, raised] at agrees
    rcases agrees with never | never <;> cases never
  have lower := ranked r a r' sees stepped
  have sum := @sum_map_set _ s.workers i r r' rank found
  refine ⟨raised, ?_⟩
  simp only [togo]
  omega

end Pool

end StopFlag
