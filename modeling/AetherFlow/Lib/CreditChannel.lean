/-
Module: AetherFlow.Lib.CreditChannel
Purpose: Flow control by credits between one sender and one receiver who see each other with a delay.
  A message uses up a credit and is under way until the receiver is shown it; a message taken sends its
  credit back, which is under way until the sender is shown it. The sender is refused only without a
  credit in hand, the receiver misses only what it has not been shown, and whoever has seen the close
  has been shown everything.
Trusted boundary: none
Main exports: CreditChannel, CreditChannel.Event, CreditChannel.Step, CreditChannel.sends,
  CreditChannel.takes, CreditChannel.Lawful, CreditChannel.lawful_of_run
-/
import Mathlib.Data.List.Basic
import AetherFlow.Lib.Refinement

open Transition

/-- The two ends and what is under way between them, messages oldest first. -/
structure CreditChannel (M : Type*) where
  /-- What the sender is about to send. -/
  offered : Option M
  credits : Nat
  flying : List M
  visible : List M
  returning : Nat
  closed : Bool
  /-- The receiver has seen the close. -/
  closeSeen : Bool

namespace CreditChannel

variable {M : Type*}

def new (places : Nat) : CreditChannel M := ⟨none, places, [], [], 0, false, false⟩

inductive Event (M : Type*) where
  | offer (m : M)
  /-- So many credits come back. -/
  | credit (n : Nat)
  | send (m : M)
  | refuse (m : M)
  /-- So many messages come in sight. -/
  | deliver (n : Nat)
  | take (m : M)
  | miss
  | close
  | seeOpen
  | seeClosed

inductive Step : CreditChannel M → Event M → CreditChannel M → Prop
  | offer {s : CreditChannel M} {m : M} :
      s.offered = none → s.closed = false → Step s (.offer m) { s with offered := some m }
  | credit {s : CreditChannel M} {n : Nat} :
      n ≤ s.returning →
      Step s (.credit n) { s with credits := s.credits + n, returning := s.returning - n }
  | send {s : CreditChannel M} {m : M} :
      s.offered = some m → 0 < s.credits →
      Step s (.send m)
        { s with offered := none, credits := s.credits - 1, flying := s.flying ++ [m] }
  | refuse {s : CreditChannel M} {m : M} :
      s.offered = some m → s.credits = 0 → Step s (.refuse m) { s with offered := none }
  | deliver {s : CreditChannel M} {n : Nat} :
      n ≤ s.flying.length →
      Step s (.deliver n)
        { s with visible := s.visible ++ s.flying.take n, flying := s.flying.drop n }
  | take {s : CreditChannel M} {m : M} {rest : List M} :
      s.visible = m :: rest →
      Step s (.take m) { s with visible := rest, returning := s.returning + 1 }
  | miss {s : CreditChannel M} : s.visible = [] → Step s .miss s
  | close {s : CreditChannel M} : s.offered = none → Step s .close { s with closed := true }
  | seeOpen {s : CreditChannel M} : s.closeSeen = false → Step s .seeOpen s
  | seeClosed {s : CreditChannel M} :
      s.closed = true →
      Step s .seeClosed
        { s with visible := s.visible ++ s.flying, flying := [], closeSeen := true }

/-- The messages that were sent, in order. -/
def sends : List (Event M) → List M :=
  List.filterMap fun
    | .send m => some m
    | _ => none

/-- The messages that were taken, in order. -/
def takes : List (Event M) → List M :=
  List.filterMap fun
    | .take m => some m
    | _ => none

/-- No credit and no message is lost or made up, and behind a close that was seen nothing is under
    way. -/
structure Lawful (places : Nat) (events : List (Event M)) (s : CreditChannel M) : Prop where
  places : s.credits + s.flying.length + s.visible.length + s.returning = places
  line : sends events = takes events ++ s.visible ++ s.flying
  silent : s.closed = true → s.offered = none
  seen : s.closeSeen = true → s.closed = true ∧ s.flying = []

theorem lawful_new (places : Nat) : Lawful places [] (new places : CreditChannel M) :=
  ⟨rfl, rfl, fun _ => rfl, nofun⟩

section Step

variable {places : Nat} {past : List (Event M)} {s t : CreditChannel M} {e : Event M}

theorem sends_concat : sends (past ++ [e]) = sends past ++ sends [e] := List.filterMap_append

theorem takes_concat : takes (past ++ [e]) = takes past ++ takes [e] := List.filterMap_append

/-- An event that neither sends nor takes. -/
theorem Lawful.line_of_silent (lawful : Lawful places past s) (sent : sends [e] = [])
    (taken : takes [e] = []) (same : t.visible ++ t.flying = s.visible ++ s.flying) :
    sends (past ++ [e]) = takes (past ++ [e]) ++ t.visible ++ t.flying := by
  rw [sends_concat, takes_concat, sent, taken, List.append_nil, List.append_nil, List.append_assoc, same,
    ← List.append_assoc]
  exact lawful.line

theorem lawful_step (lawful : Lawful places past s) (moved : Step s e t) :
    Lawful places (past ++ [e]) t := by
  have count := lawful.places
  cases moved with
  | offer none_ opened =>
      refine ⟨count, lawful.line_of_silent rfl rfl rfl, fun closed => ?_, lawful.seen⟩
      rw [opened] at closed
      cases closed
  | credit back =>
      refine ⟨?_, lawful.line_of_silent rfl rfl rfl, lawful.silent, lawful.seen⟩
      dsimp only
      omega
  | @send m offered free =>
      refine ⟨?_, ?_, fun _ => rfl, fun seen => ?_⟩
      · rw [List.length_append, List.length_singleton]
        dsimp only
        omega
      · rw [sends_concat, takes_concat, lawful.line]
        simp [sends, takes]
      · have quiet := lawful.silent (lawful.seen seen).1
        rw [offered] at quiet
        cases quiet
  | refuse offered =>
      exact ⟨count, lawful.line_of_silent rfl rfl rfl, fun _ => rfl, lawful.seen⟩
  | @deliver n within =>
      refine ⟨?_, lawful.line_of_silent rfl rfl ?_, lawful.silent, fun seen => ?_⟩
      · rw [List.length_append, List.length_take, List.length_drop]
        dsimp only
        omega
      · rw [List.append_assoc, List.take_append_drop]
      · obtain ⟨closed, empty⟩ := lawful.seen seen
        exact ⟨closed, by rw [empty, List.drop_nil]⟩
  | @take m rest front =>
      refine ⟨?_, ?_, lawful.silent, lawful.seen⟩
      · rw [front, List.length_cons] at count
        dsimp only
        omega
      · rw [sends_concat, takes_concat, lawful.line, front]
        simp [sends, takes]
  | miss => exact ⟨count, lawful.line_of_silent rfl rfl rfl, lawful.silent, lawful.seen⟩
  | close quiet =>
      exact ⟨count, lawful.line_of_silent rfl rfl rfl, fun _ => quiet,
        fun seen => ⟨rfl, (lawful.seen seen).2⟩⟩
  | seeOpen => exact ⟨count, lawful.line_of_silent rfl rfl rfl, lawful.silent, lawful.seen⟩
  | seeClosed closed =>
      refine ⟨?_, lawful.line_of_silent rfl rfl (List.append_nil _), lawful.silent, fun _ => ⟨closed, rfl⟩⟩
      rw [List.length_append, List.length_nil]
      dsimp only
      omega

theorem lawful_of_run {events : List (Event M)} (run : Run Step (new places) events s) :
    Lawful places events s :=
  run.invariant (lawful_new places) fun _ _ _ _ lawful moved => lawful_step lawful moved

end Step

end CreditChannel
