/-
Module: AetherFlow.System.Limiter
Purpose: The restart limiter of `core/src/system.rs` over the whole life of an actor. The tracker counts in a
  fixed window that begins anew with the first panic after it has elapsed. Seen through a window that
  slides, the restarts it grants stay below twice the limit, and it refuses only when more panics
  than the limit fall into one span.
Trusted boundary: none
Main exports: grant, grantAll, Tracks, LimiterBounds, limiter_bounds
-/
import Mathlib.Algebra.Order.Ring.Nat
import Mathlib.Data.List.Induction
import AetherFlow.System.Cell

namespace AetherFlow.System

/-- A panic at time `now` whose restart is granted, and the tracker after it. -/
def grant (overflowChecks : Bool) (policy : RestartPolicy) (restarts : RestartState) (now : Nat) :
    Option RestartState :=
  match allowRestart overflowChecks policy restarts now with
  | some (true, restarts) => some restarts
  | _ => none

/-- Panics at these times, oldest first, whose restarts were all granted. -/
def grantAll (overflowChecks : Bool) (policy : RestartPolicy) (times : List Nat) :
    Option RestartState :=
  times.foldlM (grant overflowChecks policy) {}

theorem grantAll_snoc {overflowChecks : Bool} {policy : RestartPolicy} {times : List Nat} {now : Nat} :
    grantAll overflowChecks policy (times ++ [now]) =
      (grantAll overflowChecks policy times).bind (grant overflowChecks policy · now) := by
  simp [grantAll, List.foldlM_append]

theorem grant_eq_some_iff {overflowChecks : Bool} {policy : RestartPolicy}
    {restarts restarts' : RestartState} {now : Nat} :
    grant overflowChecks policy restarts now = some restarts' ↔
      allowRestart overflowChecks policy restarts now = some (true, restarts') := by
  unfold grant
  constructor
  · intro granted
    split at granted
    · rename_i allowed
      cases granted
      exact allowed
    · cases granted
  · intro allowed
    rw [allowed]

/-- How many of the times lie in a closed interval of length `within` that begins at `low`. -/
def countIn (within low : Nat) (times : List Nat) : Nat :=
  times.countP fun t => low ≤ t && t ≤ low + within

/-- What the tracker knows after granting `earlier ++ window`: the window began at `start` with the first
    of its times; of the earlier ones no more than the limit lie within reach of it. -/
structure Tracks (maxRestarts within : Nat) (earlier window : List Nat) (start : Nat)
    (restarts : RestartState) : Prop where
  windowStart : restarts.windowStart = some start
  count : restarts.count = window.length
  granted : window.length ≤ maxRestarts
  begins : start ∈ window
  inside : ∀ t ∈ window, start ≤ t ∧ t ≤ start + within
  before : ∀ t ∈ earlier, t ≤ start
  reach : (earlier.countP fun t => start ≤ t + within) ≤ maxRestarts

namespace Tracks

variable {maxRestarts within now start : Nat} {overflowChecks : Bool} {earlier window : List Nat}
  {restarts restarts' : RestartState}

/-- A panic in the window is counted. -/
theorem allow_inside (tracks : Tracks maxRestarts within earlier window start restarts)
    (small : maxRestarts < 2 ^ 32 - 1) (reached : now - start ≤ within) :
    allowRestart overflowChecks (.limited maxRestarts within) restarts now =
      some (decide (window.length + 1 ≤ maxRestarts),
        { windowStart := some start, count := window.length + 1 }) := by
  have fits : restarts.count + 1 < 2 ^ 32 := by
    have := tracks.count
    have := tracks.granted
    omega
  simp only [allowRestart, tracks.windowStart, if_pos reached, if_pos fits, Option.map_some]
  rw [tracks.count]

/-- A panic after the window begins a new one. -/
theorem allow_outside (tracks : Tracks maxRestarts within earlier window start restarts)
    (elapsed : ¬ now - start ≤ within) :
    allowRestart overflowChecks (.limited maxRestarts within) restarts now =
      some (decide (1 ≤ maxRestarts), { windowStart := some now, count := 1 }) := by
  simp only [allowRestart, tracks.windowStart, if_neg elapsed, Option.map_some]

theorem extend (tracks : Tracks maxRestarts within earlier window start restarts)
    (later : start ≤ now) (reached : now - start ≤ within) (room : window.length + 1 ≤ maxRestarts) :
    Tracks maxRestarts within earlier (window ++ [now]) start
      { windowStart := some start, count := window.length + 1 } where
  windowStart := rfl
  count := by rw [List.length_append, List.length_singleton]
  granted := by
    rw [List.length_append, List.length_singleton]
    exact room
  begins := List.mem_append_left _ tracks.begins
  inside := by
    intro t member
    rcases List.mem_append.1 member with old | new
    · exact tracks.inside t old
    · rw [List.mem_singleton.1 new]
      omega
  before := tracks.before
  reach := tracks.reach

/-- Only the times of the window that has elapsed can be within reach of the new one. -/
theorem restart (tracks : Tracks maxRestarts within earlier window start restarts)
    (later : start ≤ now) (elapsed : ¬ now - start ≤ within) (room : 1 ≤ maxRestarts) :
    Tracks maxRestarts within (earlier ++ window) [now] now
      { windowStart := some now, count := 1 } where
  windowStart := rfl
  count := rfl
  granted := room
  begins := List.mem_singleton_self _
  inside := by
    intro t member
    rw [List.mem_singleton.1 member]
    omega
  before := by
    intro t member
    rcases List.mem_append.1 member with old | recent
    · have := tracks.before t old
      omega
    · have := tracks.inside t recent
      omega
  reach := by
    have none : (earlier.countP fun t => now ≤ t + within) = 0 := by
      rw [List.countP_eq_zero]
      intro t member
      have := tracks.before t member
      simp only [decide_eq_true_eq]
      omega
    rw [List.countP_append, none, Nat.zero_add]
    exact le_trans List.countP_le_length tracks.granted

/-- The next panic: its restart is granted and tracked, or it is one too many in the window. -/
theorem next (overflowChecks : Bool) (tracks : Tracks maxRestarts within earlier window start restarts)
    (small : maxRestarts < 2 ^ 32 - 1) (later : start ≤ now) :
    (∃ restarts' earlier' window' start',
      allowRestart overflowChecks (.limited maxRestarts within) restarts now =
          some (true, restarts') ∧
        earlier ++ window ++ [now] = earlier' ++ window' ∧
        Tracks maxRestarts within earlier' window' start' restarts') ∨
      ∃ restarts', allowRestart overflowChecks (.limited maxRestarts within) restarts now =
          some (false, restarts') ∧
        now ≤ start + within ∧ window.length = maxRestarts := by
  have some_ : 1 ≤ window.length := List.length_pos_of_mem tracks.begins
  by_cases reached : now - start ≤ within
  · rw [tracks.allow_inside small reached]
    by_cases room : window.length + 1 ≤ maxRestarts
    · rw [decide_eq_true room]
      exact .inl ⟨_, earlier, window ++ [now], start, rfl, List.append_assoc _ _ _,
        tracks.extend later reached room⟩
    · have := tracks.granted
      rw [decide_eq_false room]
      exact .inr ⟨_, rfl, by omega, by omega⟩
  · have room : 1 ≤ maxRestarts := some_.trans tracks.granted
    rw [tracks.allow_outside reached, decide_eq_true room]
    exact .inl ⟨_, earlier ++ window, [now], now, rfl, rfl, tracks.restart later reached room⟩

/-- A closed interval that holds the last panic meets the window, and the one before it. -/
theorem countIn_le (tracks : Tracks maxRestarts within earlier (window ++ [now]) start restarts)
    {low : Nat} (held : now ≤ low + within) :
    countIn within low (earlier ++ (window ++ [now])) ≤ 2 * maxRestarts := by
  have recent : countIn within low (window ++ [now]) ≤ maxRestarts :=
    le_trans List.countP_le_length tracks.granted
  have inside := tracks.inside now (List.mem_append_right _ (List.mem_singleton_self _))
  have old : countIn within low earlier ≤ maxRestarts := by
    refine le_trans (List.countP_mono_left fun t member => ?_) tracks.reach
    simp only [Bool.and_eq_true, decide_eq_true_eq]
    omega
  rw [countIn, List.countP_append]
  unfold countIn at recent old
  omega

end Tracks

/-- The tracker before the first panic. -/
theorem allow_first {overflowChecks : Bool} {maxRestarts within now : Nat} :
    allowRestart overflowChecks (.limited maxRestarts within) {} now =
      some (decide (1 ≤ maxRestarts), { windowStart := some now, count := 1 }) := rfl

theorem Tracks.first {maxRestarts within now : Nat} (room : 1 ≤ maxRestarts) :
    Tracks maxRestarts within [] [now] now { windowStart := some now, count := 1 } where
  windowStart := rfl
  count := rfl
  granted := room
  begins := List.mem_singleton_self _
  inside := by
    intro t member
    rw [List.mem_singleton.1 member]
    omega
  before := nofun
  reach := Nat.zero_le _

/-- What the tracker knows after any number of panics whose restarts were granted. -/
theorem tracks_of_grantAll {overflowChecks : Bool} {maxRestarts within : Nat} {times : List Nat}
    {restarts : RestartState} (small : maxRestarts < 2 ^ 32 - 1) (sorted : times.Pairwise (· ≤ ·))
    (granted : grantAll overflowChecks (.limited maxRestarts within) times = some restarts) :
    times = [] ∧ restarts = {} ∨ ∃ earlier window start,
      times = earlier ++ window ∧ Tracks maxRestarts within earlier window start restarts := by
  induction times using List.reverseRecOn generalizing restarts with
  | nil =>
      cases granted
      exact .inl ⟨rfl, rfl⟩
  | append_singleton times now inductionHypothesis =>
      rw [grantAll_snoc] at granted
      obtain ⟨middle, before, last⟩ := Option.bind_eq_some_iff.1 granted
      have allowed := grant_eq_some_iff.1 last
      obtain ⟨sorted, _, later⟩ := List.pairwise_append.1 sorted
      right
      rcases inductionHypothesis sorted before with ⟨rfl, rfl⟩ | ⟨earlier, window, start, rfl, tracks⟩
      · rw [allow_first, Option.some.injEq, Prod.mk.injEq] at allowed
        obtain ⟨room, rfl⟩ := allowed
        exact ⟨[], [now], now, rfl, .first (of_decide_eq_true room)⟩
      · have after := later start (List.mem_append_right _ tracks.begins) now List.mem_cons_self
        rcases tracks.next overflowChecks small after with ⟨restarts', earlier', window', start', granted, same, next⟩ |
          ⟨_, refused, _⟩
        · rw [granted] at allowed
          cases allowed
          exact ⟨earlier', window', start', same, next⟩
        · rw [refused] at allowed
          cases allowed

/-- No closed interval of length `within` holds more than twice the limit of the granted restarts. -/
theorem countIn_le_of_grantAll {overflowChecks : Bool} {maxRestarts within low : Nat}
    {times : List Nat} {restarts : RestartState} (small : maxRestarts < 2 ^ 32 - 1)
    (sorted : times.Pairwise (· ≤ ·))
    (granted : grantAll overflowChecks (.limited maxRestarts within) times = some restarts) :
    countIn within low times ≤ 2 * maxRestarts := by
  -- By induction on the times: the last one is in the interval, or the interval is one of the others'.
  induction times using List.reverseRecOn generalizing restarts with
  | nil => exact Nat.zero_le _
  | append_singleton times now inductionHypothesis =>
      obtain ⟨middle, before, _⟩ := Option.bind_eq_some_iff.1 (grantAll_snoc ▸ granted)
      have earlier := inductionHypothesis (List.pairwise_append.1 sorted).1 before
      by_cases held : now ≤ low + within
      · rcases tracks_of_grantAll small sorted granted with ⟨never, _⟩ | ⟨old, window, start, same, tracks⟩
        · simp at never
        · have some_ : window ≠ [] := List.ne_nil_of_mem tracks.begins
          obtain ⟨window', last, rfl⟩ : ∃ window' last, window = window' ++ [last] :=
            ⟨_, _, (List.dropLast_concat_getLast some_).symm⟩
          obtain rfl : now = last := by
            rw [← List.append_assoc] at same
            exact (List.append_inj' same rfl).2 |> List.cons.inj |>.1
          rw [same]
          exact tracks.countIn_le held
      · unfold countIn at earlier ⊢
        rw [List.countP_append]
        have outside : ([now].countP fun t => low ≤ t && t ≤ low + within) = 0 := by
          simp [held]
        omega

/-- The bounds of the limiter at a panic at time `now`, after panics at `times` whose restarts were all
    granted: every closed interval of length `within` holds at most twice the limit of them, the
    limiter gives a verdict, and if it refuses, more panics than the limit, this one included, fell
    into one span of at most that length. -/
structure LimiterBounds (overflowChecks : Bool) (maxRestarts within : Nat) (times : List Nat)
    (now : Nat) (restarts : RestartState) : Prop where
  granted_le : ∀ low, countIn within low times ≤ 2 * maxRestarts
  decides : (allowRestart overflowChecks (.limited maxRestarts within) restarts now).isSome = true
  refused_only : ∀ restarts',
    allowRestart overflowChecks (.limited maxRestarts within) restarts now = some (false, restarts') →
      ∃ start ≤ now, now ≤ start + within ∧
        maxRestarts + 1 ≤ (times ++ [now]).countP fun t => start ≤ t && t ≤ now

/-- The bounds hold for every limit below `u32::MAX`, every window and every sequence of panics up to
    the first refusal. -/
theorem limiter_bounds {overflowChecks : Bool} {maxRestarts within now : Nat} {times : List Nat}
    {restarts : RestartState} (small : maxRestarts < 2 ^ 32 - 1)
    (sorted : (times ++ [now]).Pairwise (· ≤ ·))
    (granted : grantAll overflowChecks (.limited maxRestarts within) times = some restarts) :
    LimiterBounds overflowChecks maxRestarts within times now restarts := by
  obtain ⟨sorted, _, later⟩ := List.pairwise_append.1 sorted
  have later : ∀ t ∈ times, t ≤ now := fun t member => later t member now List.mem_cons_self
  refine ⟨fun low => countIn_le_of_grantAll small sorted granted, ?_, ?_⟩
  · rcases tracks_of_grantAll small sorted granted with ⟨rfl, rfl⟩ | ⟨earlier, window, start, rfl, tracks⟩
    · rw [allow_first]
      rfl
    · have after := later start (List.mem_append_right _ tracks.begins)
      rcases tracks.next overflowChecks small after with
        ⟨_, _, _, _, verdict, _⟩ | ⟨_, verdict, _⟩
      all_goals
        rw [verdict]
        rfl
  · intro restarts' refused
    rcases tracks_of_grantAll small sorted granted with ⟨rfl, rfl⟩ | ⟨earlier, window, start, rfl, tracks⟩
    · rw [allow_first, Option.some.injEq, Prod.mk.injEq] at refused
      have none := of_decide_eq_false refused.1
      refine ⟨now, le_rfl, Nat.le_add_right _ _, ?_⟩
      simp only [List.nil_append, List.countP_singleton, le_refl, decide_true, Bool.and_self, if_true]
      omega
    · have after := later start (List.mem_append_right _ tracks.begins)
      rcases tracks.next overflowChecks small after with
        ⟨_, _, _, _, verdict, _⟩ | ⟨_, _, reached, full⟩
      · rw [verdict] at refused
        cases refused
      · refine ⟨start, after, reached, ?_⟩
        have whole : ((window ++ [now]).countP fun t => start ≤ t && t ≤ now) = window.length + 1 := by
          rw [List.countP_eq_length.2, List.length_append, List.length_singleton]
          intro t member
          rw [Bool.and_eq_true, decide_eq_true_eq, decide_eq_true_eq]
          rcases List.mem_append.1 member with old | new
          · exact ⟨(tracks.inside t old).1, later t (List.mem_append_right _ old)⟩
          · rw [List.mem_singleton.1 new]
            exact ⟨after, le_rfl⟩
        rw [List.append_assoc, List.countP_append, whole, full]
        exact Nat.le_add_left _ _

/-- Two restarts are allowed in ten time units. Panics at 0 and 10 fill the first window, those at 11
    and 12 the second; the one at 13 is refused. -/
theorem limiter_bounds_burst :
    ∃ restarts, grantAll true (.limited 2 10) [0, 10, 11, 12] = some restarts ∧
      (allowRestart true (.limited 2 10) restarts 13).map Prod.fst = some false ∧
      countIn 10 2 [0, 10, 11, 12] = 3 ∧ LimiterBounds true 2 10 [0, 10, 11, 12] 13 restarts :=
  ⟨_, rfl, rfl, rfl, limiter_bounds (by decide) (by decide) rfl⟩

end AetherFlow.System
