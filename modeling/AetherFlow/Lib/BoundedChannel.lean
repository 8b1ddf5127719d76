/-
Module: AetherFlow.Lib.BoundedChannel
Purpose: What a bounded channel with concurrent senders is for, without its memory. A send call is
  asked, and then takes the next place in the line or is refused; a place in the line is taken first
  and shown afterwards, and the receiver takes the front place once it is shown. Refusals are
  truthful: full means that every place is taken, closed that the receiver is gone, and the receiver
  misses only a front place that is not shown.
Trusted boundary: none
Main exports: Phase, BoundedChannel, BoundedChannel.Event, BoundedChannel.Step, BoundedChannel.reserves,
  BoundedChannel.takes, BoundedChannel.line_of_run
-/
import Mathlib.Logic.Function.Basic
import AetherFlow.Lib.Refinement

open Transition

/-- How far a send call has come, with the message it holds, has given away or hands back. -/
inductive Phase (M : Type*) where
  | idle
  | asked (m : M)
  | reserved (m : M)
  | sent (m : M)
  | full (m : M)
  | closed (m : M)
deriving DecidableEq

/-- The send calls, the calls whose messages are in the line (oldest first), and whether the receiver
    is there. -/
structure BoundedChannel (ι M : Type*) where
  calls : ι → Phase M
  waiting : List ι
  opened : Bool

namespace BoundedChannel

variable {ι M : Type*}

def new : BoundedChannel ι M := ⟨fun _ => .idle, [], true⟩

inductive Event (ι M : Type*) where
  | ask (c : ι) (m : M)
  /-- A refused call tries again with the message it got back. -/
  | retry (c : ι)
  | reserve (c : ι)
  | publish (c : ι)
  | full (c : ι)
  | closed (c : ι)
  | take (c : ι) (m : M)
  | miss
  | close

/-- Call `c` is in phase `phase` from now on. -/
def setPhase [DecidableEq ι] (s : BoundedChannel ι M) (c : ι) (phase : Phase M) : BoundedChannel ι M :=
  { s with calls := Function.update s.calls c phase }

/-- The front place is not shown. -/
def Blocked (s : BoundedChannel ι M) : Prop := ∀ c m, s.waiting.head? = some c → s.calls c ≠ .sent m

/-- What may happen to a channel of `places` places. -/
inductive Step [DecidableEq ι] (places : Nat) :
    BoundedChannel ι M → Event ι M → BoundedChannel ι M → Prop
  | ask {s : BoundedChannel ι M} {c : ι} {m : M} :
      s.calls c = .idle → Step places s (.ask c m) (s.setPhase c (.asked m))
  | retry {s : BoundedChannel ι M} {c : ι} {m : M} :
      s.calls c = .full m → Step places s (.retry c) (s.setPhase c (.asked m))
  | reserve {s : BoundedChannel ι M} {c : ι} {m : M} :
      s.calls c = .asked m → s.waiting.length < places →
      Step places s (.reserve c)
        { s.setPhase c (.reserved m) with waiting := s.waiting ++ [c] }
  | publish {s : BoundedChannel ι M} {c : ι} {m : M} :
      s.calls c = .reserved m → Step places s (.publish c) (s.setPhase c (.sent m))
  | full {s : BoundedChannel ι M} {c : ι} {m : M} :
      s.calls c = .asked m → s.waiting.length = places →
      Step places s (.full c) (s.setPhase c (.full m))
  | closed {s : BoundedChannel ι M} {c : ι} {m : M} :
      s.calls c = .asked m ∨ s.calls c = .full m → s.opened = false →
      Step places s (.closed c) (s.setPhase c (.closed m))
  | take {s : BoundedChannel ι M} {c : ι} {m : M} {rest : List ι} :
      s.waiting = c :: rest → s.calls c = .sent m →
      Step places s (.take c m) { s with waiting := rest }
  | miss {s : BoundedChannel ι M} : s.Blocked → Step places s .miss s
  | close {s : BoundedChannel ι M} : Step places s .close { s with opened := false }

/-- The calls that took a place, in order. -/
def reserves : List (Event ι M) → List ι :=
  List.filterMap fun
    | .reserve c => some c
    | _ => none

/-- The calls whose messages were taken, in order. -/
def takes : List (Event ι M) → List ι :=
  List.filterMap fun
    | .take c _ => some c
    | _ => none

/-- Places are taken and served in one order, and no more of them are taken than there are. -/
theorem line_of_run [DecidableEq ι] {places : Nat} {events : List (Event ι M)} {s : BoundedChannel ι M}
    (run : Run (Step places) new events s) :
    reserves events = takes events ++ s.waiting ∧ s.waiting.length ≤ places := by
  refine run.invariant (P := fun events s => reserves events = takes events ++ s.waiting ∧
    s.waiting.length ≤ places) ⟨rfl, Nat.zero_le _⟩ ?_
  rintro past s e t ⟨line, room⟩ moved
  have split : reserves (past ++ [e]) = reserves past ++ reserves [e] ∧
      takes (past ++ [e]) = takes past ++ takes [e] :=
    ⟨List.filterMap_append, List.filterMap_append⟩
  rw [split.1, split.2, line]
  cases moved with
  | reserve _ free =>
      constructor
      · simp [reserves, takes]
      · rw [List.length_append]
        exact free
  | take front _ =>
      rw [front] at room ⊢
      constructor
      · simp [reserves, takes]
      · exact Nat.le_of_succ_le room
  | ask | retry | publish | full | closed | miss | close =>
      exact ⟨by simp [reserves, takes, setPhase], room⟩

end BoundedChannel
