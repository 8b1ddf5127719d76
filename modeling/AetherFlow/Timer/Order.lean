/-
Module: AetherFlow.Timer.Order
Purpose: The order of one-shot timers. `schedule` numbers the entries with a word that wraps, and as long
  as it has not, an entry whose registration returned before another one began has the smaller
  number. Its entry leaves the heap first if it is not due later, and by the time the other one is
  offered it has been dealt with for good.
Trusted boundary: none
Main exports: Placed, fetched, SeqInv, RegisteredBefore, InOrder, offers_in_order, timer_pass
-/
import Mathlib.Data.Finset.Card
import AetherFlow.Timer.Pass

namespace AetherFlow.Timer

open Mpsc (SendAnswer)
open Transition

/-! ### Where entries and numbers are -/

/-- When a one-shot is due. -/
def TimerInfo.due (info : TimerInfo) : Nat := info.registered + info.delay

/-- The sequence number that a registering call has drawn and not pushed yet. -/
def SchedulePc.number : SchedulePc → Option Nat
  | .lock seq | .push seq => some seq
  | _ => none

/-- The call has drawn its sequence number. -/
def SchedulePc.drawn : SchedulePc → Bool
  | .unregistered | .shared | .fetchSeq => false
  | _ => true

/-- The entry is in the heap or in the worker's hands. -/
def Placed (s : Timers) (e : Entry) : Prop := e ∈ s.heap ∨ s.worker.entry = some e

/-- The timers that have drawn a sequence number. -/
def fetched (s : Timers) : Finset Nat :=
  (Finset.range s.issued).filter fun u => (s.timers u).call.drawn

theorem mem_fetched {s : Timers} {u : Nat} :
    u ∈ fetched s ↔ u < s.issued ∧ (s.timers u).call.drawn = true := by
  rw [fetched, Finset.mem_filter, Finset.mem_range]

theorem fetched_congr {s t : Timers}
    (same : ∀ u, u < t.issued ∧ (t.timers u).call.drawn = true ↔
      u < s.issued ∧ (s.timers u).call.drawn = true) : fetched t = fetched s := by
  ext u
  rw [mem_fetched, mem_fetched]
  exact same u

/-! ### What a step does to them -/

section Steps

variable {s t : Timers} {a : TimerAct}

/-- Starting and notifying the worker leaves a worker alone that has an entry in its hands. -/
theorem eq_of_started {pc pc' : WorkerPc} {e : Entry}
    (started : (match pc with | .unstarted => .lock | pc => pc) = pc') (there : pc'.entry = some e) :
    pc = pc' := by
  cases pc with
  | unstarted =>
      subst started
      cases there
  | _ => exact started

theorem eq_of_notifyOne {pc pc' : WorkerPc} {e : Entry} (notified : Timers.notifyOne pc = pc')
    (there : pc'.entry = some e) : pc = pc' := by
  cases pc with
  | wait =>
      subst notified
      cases there
  | _ => exact notified

/-- An entry is where it was, or a call pushes it, or the worker pushes it again. -/
theorem placed_cases {e : Entry} (move : Move s a t) (placed : Placed t e) :
    Placed s e ∨
    ((s.timers e.timer).call.number = some e.seq ∧ e.deadline = (s.timers e.timer).due) ∨
    ∃ now f d, s.worker = .recheck now f (some d) ∧ e = { f with deadline := d } := by
  cases move with
  | tick | sendAfter | sendEvery | cancel | dropReceiver => exact .inl placed
  | schedule move =>
      cases move with
      | shared =>
          exact .inl (placed.imp_right fun there =>
            (congrArg WorkerPc.entry (eq_of_started rfl there)).trans there)
      | notify =>
          exact .inl (placed.imp_right fun there =>
            (congrArg WorkerPc.entry (eq_of_notifyOne rfl there)).trans there)
      | fetchSeq | refused | lock => exact .inl placed
      | push call =>
          rcases placed with there | there
          · rcases List.mem_cons.1 there with rfl | there
            · exact .inr (.inl ⟨by rw [call]; rfl, rfl⟩)
            · exact .inl (.inl there)
          · exact .inl (.inr there)
  | worker move =>
      cases move with
      | lock | top | rest | skip | sleep | park | letGo =>
          exact .inl (.inl (placed.resolve_right (by simp [WorkerPc.entry])))
      | pop stands found =>
          rcases placed with there | there
          · exact .inl (.inl (List.mem_of_mem_erase there))
          · cases there
            exact .inl (.inl (earliest_spec found).1)
      | fire stands | offer stands | fired stands | relock stands =>
          refine .inl (placed.imp_right fun there => ?_)
          cases there
          rw [stands]
          rfl
      | pushAgain stands =>
          rcases placed with there | there
          · rcases List.mem_cons.1 there with rfl | there
            · exact .inr (.inr ⟨_, _, _, stands, rfl⟩)
            · exact .inl (.inl there)
          · cases there
  | made stands | missing stands | offerReturns stands =>
      refine .inl (placed.imp_right fun there => ?_)
      cases there
      rw [stands]
      rfl
  | makePanics | wake | messagePanics | entryPanics =>
      exact .inl (.inl (placed.resolve_right (by simp [WorkerPc.entry])))

/-- An entry has its number from an entry before, or from the call that pushes it. -/
theorem seq_cases {e : Entry} (move : Move s a t) (placed : Placed t e) :
    (∃ f, Placed s f ∧ f.timer = e.timer ∧ f.seq = e.seq) ∨
      (s.timers e.timer).call.number = some e.seq := by
  rcases placed_cases move placed with before | ⟨number, _⟩ | ⟨now, f, d, stands, rfl⟩
  · exact .inl ⟨e, before, rfl, rfl⟩
  · exact .inr number
  · exact .inl ⟨f, .inr (by rw [stands]; rfl), rfl, rfl⟩

/-- What a step may do to a timer, unless it begins its registration. -/
structure Evolves (nextSeq : Nat) (info info' : TimerInfo) : Prop where
  kind : info'.kind = info.kind
  due : info'.due = info.due
  returned : info.call = .returned → info'.call = .returned
  number : ∀ q, info'.call.number = some q →
    info.call.number = some q ∨ info.call = .fetchSeq ∧ q = nextSeq
  drawn : info'.call.drawn = info.call.drawn ∨ info.call = .fetchSeq ∧ info'.call = .lock nextSeq

namespace Evolves

variable {nextSeq u : Nat} {timers : Nat → TimerInfo} {info info' : TimerInfo}

theorem refl (nextSeq : Nat) (info : TimerInfo) : Evolves nextSeq info info :=
  ⟨rfl, rfl, id, fun _ there => .inl there, .inl rfl⟩

theorem update (changed : Evolves nextSeq (timers u) info) (v : Nat) :
    Evolves nextSeq (timers v) (Function.update timers u info v) :=
  update_rel (R := Evolves nextSeq) (.refl _) changed v

/-- A change that leaves the call and the date alone. -/
theorem note (kind : info'.kind = info.kind) (due : info'.due = info.due)
    (call : info'.call = info.call) : Evolves nextSeq info info' where
  kind := kind
  due := due
  returned was := call.trans was
  number q there := .inl (call ▸ there)
  drawn := .inl (by rw [call])

/-- The call moves on and draws no number. -/
theorem call {pc : SchedulePc} (unreturned : info.call ≠ .returned)
    (number : ∀ q, pc.number = some q → info.call.number = some q)
    (drawn : pc.drawn = info.call.drawn) : Evolves nextSeq info { info with call := pc } where
  kind := rfl
  due := rfl
  returned was := absurd was unreturned
  number q there := .inl (number q there)
  drawn := .inl drawn

end Evolves

theorem evolves_of_schedule {u : Nat} (move : ScheduleMove s u t) (v : Nat) :
    Evolves s.nextSeq (s.timers v) (t.timers v) := by
  cases move with
  | shared called | refused called | lock called | push called | notify called =>
      refine Evolves.update (.call ?_ ?_ ?_) v
      · simp [called]
      · simp [called, SchedulePc.number]
      · rw [called]
        rfl
  | fetchSeq called =>
      refine Evolves.update ?_ v
      refine ⟨rfl, rfl, ?_, ?_, .inr ⟨called, rfl⟩⟩
      · simp [called]
      · rintro q ⟨⟩
        exact .inr ⟨called, rfl⟩

theorem evolves_of_move (move : Move s a t) (v : Nat) :
    Evolves s.nextSeq (s.timers v) (t.timers v) ∨ v = s.issued ∧ (t.timers v).call = .shared := by
  cases move with
  | sendAfter | sendEvery =>
      by_cases here : v = s.issued
      · subst here
        refine .inr ⟨rfl, ?_⟩
        simp only [Timers.register, Timers.setTimer, Function.update_self]
      · simp only [Timers.register, Timers.setTimer, Function.update_of_ne here]
        exact .inl (.refl _ _)
  | schedule move => exact .inl (evolves_of_schedule move v)
  | cancel =>
      refine .inl (Evolves.update ?_ v)
      exact .note rfl rfl rfl
  | worker move =>
      cases move with
      | fire | offer | fired =>
          refine .inl (Evolves.update ?_ v)
          exact .note rfl rfl rfl
      | _ => exact .inl (.refl _ _)
  | _ => exact .inl (.refl _ _)

/-- Timers are only ever added. -/
theorem issued_le_of_move (move : Move s a t) : s.issued ≤ t.issued := by
  cases move with
  | sendAfter | sendEvery => exact Nat.le_succ _
  | schedule move => cases move <;> exact le_rfl
  | worker move => cases move <;> exact le_rfl
  | _ => exact le_rfl

/-- A step draws no number, or the next one. -/
theorem drawn_cases (inv : TimerInv s) (move : Move s a t) :
    (∀ v, (t.timers v).call.drawn = (s.timers v).call.drawn) ∧ t.nextSeq = s.nextSeq ∨
    ∃ u, (s.timers u).call = .fetchSeq ∧
      t = { s.setCall u (.lock s.nextSeq) with nextSeq := (s.nextSeq + 1) % 2 ^ 64 } := by
  cases move with
  | sendAfter | sendEvery =>
      refine .inl ⟨field_update (fun info => info.call.drawn) ?_, rfl⟩
      rw [inv.unissued _ le_rfl]
      rfl
  | schedule move =>
      cases move with
      | fetchSeq called => exact .inr ⟨_, called, rfl⟩
      | shared called | refused called | lock called | push called | notify called =>
          refine .inl ⟨field_update (fun info => info.call.drawn) ?_, rfl⟩
          rw [called]
          rfl
  | cancel =>
      refine .inl ⟨field_update (fun info => info.call.drawn) ?_, rfl⟩
      rfl
  | worker move =>
      cases move with
      | fire | offer | fired =>
          refine .inl ⟨field_update (fun info => info.call.drawn) ?_, rfl⟩
          rfl
      | _ => exact .inl ⟨fun _ => rfl, rfl⟩
  | _ => exact .inl ⟨fun _ => rfl, rfl⟩

theorem lt_issued_of_drawn (inv : TimerInv s) {u : Nat} (drawn : (s.timers u).call.drawn = true) :
    u < s.issued := by
  refine inv.lt_issued fun unregistered => ?_
  rw [unregistered] at drawn
  cases drawn

/-- The set of the timers that have drawn a number grows with the counter. -/
theorem fetched_cases (inv : TimerInv s) (moved : s.step a = some t) :
    fetched t = fetched s ∧ t.nextSeq = s.nextSeq ∨
    ∃ u, (s.timers u).call = .fetchSeq ∧ fetched t = insert u (fetched s) ∧ u ∉ fetched s ∧
      t.issued = s.issued ∧ t.nextSeq = (s.nextSeq + 1) % 2 ^ 64 := by
  have after := inv.step moved
  rcases drawn_cases inv (move_of_step moved) with ⟨same, next⟩ | ⟨u, called, rfl⟩
  · refine .inl ⟨fetched_congr fun v => ?_, next⟩
    constructor
    · rintro ⟨_, drawn⟩
      rw [same v] at drawn
      exact ⟨lt_issued_of_drawn inv drawn, drawn⟩
    · rintro ⟨_, drawn⟩
      rw [← same v] at drawn
      exact ⟨lt_issued_of_drawn after drawn, drawn⟩
  · refine .inr ⟨u, called, ?_, ?_, rfl, rfl⟩
    · have known : u < s.issued := inv.lt_issued (by rw [called]; nofun)
      ext v
      rw [Finset.mem_insert, mem_fetched, mem_fetched]
      by_cases here : v = u
      · subst here
        simp [Timers.setCall, Timers.setTimer, SchedulePc.drawn, known]
      · simp [Timers.setCall, Timers.setTimer, here]
    · rw [mem_fetched, called]
      exact fun inside => by cases inside.2

theorem card_fetched_mono (inv : TimerInv s) (moved : s.step a = some t) :
    (fetched s).card ≤ (fetched t).card := by
  rcases fetched_cases inv moved with ⟨same, _⟩ | ⟨u, _, more, _⟩
  · rw [same]
  · rw [more]
    exact Finset.card_le_card (Finset.subset_insert _ _)

/-- The number a call has is the one it had, or the next one, which is then counted. -/
theorem number_cases {u q : Nat} (inv : TimerInv s) (moved : s.step a = some t)
    (number : (t.timers u).call.number = some q) :
    (s.timers u).call.number = some q ∨
    (s.timers u).call = .fetchSeq ∧ q = s.nextSeq ∧ (fetched t).card = (fetched s).card + 1 := by
  rcases evolves_of_move (move_of_step moved) u with evolves | ⟨_, shared⟩
  · refine (evolves.number q number).imp_right fun ⟨called, next⟩ => ⟨called, next, ?_⟩
    rcases fetched_cases inv moved with ⟨same, _⟩ | ⟨v, _, grown, new, _⟩
    · have drawn : (t.timers u).call.drawn = true := by
        cases there : (t.timers u).call <;> rw [there] at number <;> first | rfl | cases number
      have inside := mem_fetched.2 ⟨lt_issued_of_drawn (inv.step moved) drawn, drawn⟩
      rw [same, mem_fetched, called] at inside
      cases inside.2
    · rw [grown, Finset.card_insert_of_notMem new]
  · rw [shared] at number
    cases number

/-- Only the entry in the worker's hands is offered. -/
theorem offers_cases (inv : TimerInv s) (move : Move s a t) (v : Nat) :
    (t.timers v).offers = (s.timers v).offers ∨ ∃ e, s.worker.entry = some e ∧ e.timer = v := by
  cases move with
  | sendAfter | sendEvery =>
      refine .inl (field_update TimerInfo.offers ?_ v)
      have unused := (inv.timer s.issued).unused
      rw [inv.unissued _ le_rfl] at unused
      exact (unused rfl).2.symm
  | schedule move =>
      cases move <;>
        · refine .inl (field_update TimerInfo.offers ?_ v)
          rfl
  | cancel =>
      refine .inl (field_update TimerInfo.offers ?_ v)
      rfl
  | worker move =>
      cases move with
      | fire | fired =>
          refine .inl (field_update TimerInfo.offers ?_ v)
          rfl
      | @offer now e stands =>
          by_cases here : v = e.timer
          · exact .inr ⟨e, by rw [stands]; rfl, here.symm⟩
          · exact .inl (congrArg TimerInfo.offers (Function.update_of_ne here _ _))
      | _ => exact .inl rfl
  | _ => exact .inl rfl

/-- What is in the worker's hands was there before, or came first in the heap. -/
theorem hands_cases {e : Entry} (move : Move s a t) (there : t.worker.entry = some e) :
    s.worker.entry = some e ∨ s.worker.entry = none ∧ earliest s.heap = some e := by
  cases move with
  | tick | sendAfter | sendEvery | cancel | dropReceiver => exact .inl there
  | schedule move =>
      cases move with
      | shared => exact .inl ((congrArg WorkerPc.entry (eq_of_started rfl there)).trans there)
      | notify => exact .inl ((congrArg WorkerPc.entry (eq_of_notifyOne rfl there)).trans there)
      | fetchSeq | refused | lock | push => exact .inl there
  | worker move =>
      cases move with
      | lock | top | rest | skip | sleep | park | letGo | pushAgain => cases there
      | pop stands found =>
          cases there
          exact .inr ⟨by rw [stands]; rfl, found⟩
      | fire stands | offer stands | fired stands | relock stands =>
          cases there
          rw [stands]
          exact .inl rfl
  | made stands | missing stands | offerReturns stands =>
      cases there
      rw [stands]
      exact .inl rfl
  | makePanics | wake | messagePanics | entryPanics => cases there

/-- A fire returns a deadline for a periodic timer only. -/
theorem again_cases {now d : Nat} {e : Entry} (move : Move s a t)
    (stands : t.worker = .relock now e (some d) ∨ t.worker = .recheck now e (some d)) :
    (s.worker = .relock now e (some d) ∨ s.worker = .recheck now e (some d)) ∨
      (s.timers e.timer).kind = .every := by
  cases move with
  | tick | sendAfter | sendEvery | cancel | dropReceiver => exact .inl stands
  | schedule move =>
      cases move with
      | shared =>
          exact .inl (stands.imp (fun stands => eq_of_started stands rfl)
            fun stands => eq_of_started stands rfl)
      | notify =>
          exact .inl (stands.imp (fun stands => eq_of_notifyOne stands rfl)
            fun stands => eq_of_notifyOne stands rfl)
      | fetchSeq | refused | lock | push => exact .inl stands
  | worker move =>
      cases move with
      | fired =>
          rcases stands with stands | stands
          · simp only [WorkerPc.relock.injEq] at stands
            obtain ⟨rfl, rfl, next⟩ := stands
            exact .inr (TimerInv.nextDeadline_eq_some next).1
          · cases stands
      | relock there =>
          rcases stands with stands | stands
          · cases stands
          · cases stands
            exact .inl (.inl there)
      | _ => rcases stands with stands | stands <;> cases stands
  | _ => rcases stands with stands | stands <;> cases stands

end Steps

/-! ### The numbers of the entries -/

/-- What holds of the numbers and the dates of one-shots. Numbers are compared as long as the counter has
    not wrapped. -/
structure SeqInv (s : Timers) : Prop where
  next : s.nextSeq = (fetched s).card % 2 ^ 64
  calls : s.issued ≤ 2 ^ 64 → ∀ u q, (s.timers u).call.number = some q → q < (fetched s).card
  placed : s.issued ≤ 2 ^ 64 → ∀ e, Placed s e → e.seq < (fetched s).card
  due : ∀ e, Placed s e → (s.timers e.timer).kind = .after → e.deadline = (s.timers e.timer).due
  again : ∀ now e d, s.worker = .relock now e (some d) ∨ s.worker = .recheck now e (some d) →
    (s.timers e.timer).kind = .every

/-- The timer of an entry is registered. -/
theorem TimerInv.pushed_of_placed {s : Timers} {e : Entry} (inv : TimerInv s) (placed : Placed s e) :
    (s.timers e.timer).call.unpushed = 0 := by
  have place := (inv.timer e.timer).one_place
  rcases placed with member | there
  · have inside : 0 < inHeap e.timer s.heap := List.countP_pos_iff.2 ⟨e, member, by simp⟩
    omega
  · have held := WorkerPc.held_of_entry there
    omega

/-- A timer whose entry is still with the call has none anywhere else and was not offered. -/
theorem TimerInv.idle_of_unpushed {s : Timers} {u : Nat} (inv : TimerInv s)
    (unpushed : (s.timers u).call.unpushed = 1) :
    (∀ e, Placed s e → e.timer ≠ u) ∧ (s.timers u).offers = [] := by
  refine ⟨?_, ((inv.timer u).unused unpushed).2⟩
  rintro e placed rfl
  have pushed := inv.pushed_of_placed placed
  omega

theorem TimerInv.lt_issued_of_placed {s : Timers} {e : Entry} (inv : TimerInv s)
    (placed : Placed s e) : e.timer < s.issued := by
  refine inv.lt_issued fun unregistered => ?_
  have pushed := inv.pushed_of_placed placed
  rw [unregistered] at pushed
  cases pushed

/-- A step begins no registration of a timer that has an entry. -/
theorem evolves_of_placed {s t : Timers} {a : TimerAct} {e : Entry} (inv : TimerInv s)
    (move : Move s a t) (placed : Placed s e) :
    Evolves s.nextSeq (s.timers e.timer) (t.timers e.timer) := by
  rcases evolves_of_move move e.timer with evolves | ⟨fresh, _⟩
  · exact evolves
  · exact absurd fresh (inv.lt_issued_of_placed placed).ne

namespace SeqInv

variable {s t : Timers} {a : TimerAct}

theorem start : SeqInv .start where
  next := rfl
  calls _ u q there := by cases there
  placed _ e there := by
    rcases there with member | held
    · cases member
    · cases held
  due e there := by
    rcases there with member | held
    · cases member
    · cases held
  again now e d stands := by
    rcases stands with stands | stands <;> cases stands

/-- A number that is drawn while the counter has not wrapped is larger than all before. -/
theorem next_eq (seqs : SeqInv s) (inv : TimerInv s) (few : s.issued ≤ 2 ^ 64) {u : Nat}
    (called : (s.timers u).call = .fetchSeq) : s.nextSeq = (fetched s).card := by
  -- The timer that draws is issued and not counted yet, so the counter has not wrapped.
  have known : u < s.issued := inv.lt_issued (by rw [called]; nofun)
  have missing : fetched s ⊆ (Finset.range s.issued).erase u := by
    intro v inside
    obtain ⟨below, drawn⟩ := mem_fetched.1 inside
    refine Finset.mem_erase.2 ⟨?_, Finset.mem_range.2 below⟩
    rintro rfl
    rw [called] at drawn
    cases drawn
  have fewer := Finset.card_le_card missing
  rw [Finset.card_erase_of_mem (Finset.mem_range.2 known), Finset.card_range] at fewer
  rw [seqs.next]
  exact Nat.mod_eq_of_lt (by omega)

theorem step (seqs : SeqInv s) (inv : TimerInv s) (moved : s.step a = some t) : SeqInv t := by
  have move := move_of_step moved
  have more := card_fetched_mono inv moved
  have fewer := issued_le_of_move move
  refine ⟨?_, ?_, ?_, ?_, ?_⟩
  · rcases fetched_cases inv moved with ⟨same, next⟩ | ⟨u, _, grown, new, _, next⟩
    · rw [next, same]
      exact seqs.next
    · rw [next, grown, Finset.card_insert_of_notMem new, seqs.next, Nat.mod_add_mod]
  · intro few u q number
    rcases number_cases inv moved number with before | ⟨called, rfl, counted⟩
    · exact (seqs.calls (fewer.trans few) u q before).trans_le more
    · rw [counted, seqs.next_eq inv (fewer.trans few) called]
      exact Nat.lt_succ_self _
  · intro few e placed
    rcases seq_cases move placed with ⟨f, before, _, same⟩ | number
    · rw [← same]
      exact (seqs.placed (fewer.trans few) f before).trans_le more
    · exact (seqs.calls (fewer.trans few) _ _ number).trans_le more
  · intro e placed after
    rcases placed_cases move placed with before | ⟨number, due⟩ | ⟨now, f, d, stands, rfl⟩
    · have evolves := evolves_of_placed inv move before
      rw [evolves.kind] at after
      rw [evolves.due]
      exact seqs.due e before after
    · rcases evolves_of_move move e.timer with evolves | ⟨fresh, _⟩
      · rw [evolves.due]
        exact due
      · rw [fresh, inv.unissued _ le_rfl] at number
        cases number
    · have held : Placed s f := .inr (by rw [stands]; rfl)
      have every := seqs.again now f d (.inr stands)
      have kind := (evolves_of_placed inv move held).kind
      rw [every] at kind
      exact absurd (after.symm.trans kind) (by decide)
  · intro now e d stands
    have there : t.worker.entry = some e := by rcases stands with stands | stands <;> rw [stands] <;> rfl
    have held : Placed s e := by
      rcases hands_cases move there with held | ⟨_, found⟩
      · exact .inr held
      · exact .inl (earliest_spec found).1
    rw [(evolves_of_placed inv move held).kind]
    rcases again_cases move stands with stands | every
    · exact seqs.again now e d stands
    · exact every

theorem of_run (run : Reach Timers.step Free .start s) : TimerInv s ∧ SeqInv s :=
  run.invariant (P := fun s => TimerInv s ∧ SeqInv s) ⟨.start, .start⟩
    fun _ _ _ invs _ moved => ⟨invs.1.step moved, invs.2.step invs.1 moved⟩

end SeqInv

/-! ### One registration after another -/

/-- A one-shot that was registered gets no new entry. -/
theorem placed_before {s t : Timers} {a : TimerAct} {i : Nat} {e : Entry} (seqs : SeqInv s)
    (move : Move s a t) (returned : (s.timers i).call = .returned) (kind : (s.timers i).kind = .after)
    (placed : Placed t e) (here : e.timer = i) : Placed s e := by
  rcases placed_cases move placed with before | ⟨number, _⟩ | ⟨now, f, d, stands, rfl⟩
  · exact before
  · rw [here, returned] at number
    cases number
  · have every := seqs.again now f d (.inr stands)
    have here : f.timer = i := here
    rw [here, kind] at every
    cases every

/-- On the way to `s` the registration of `i` had returned before that of `j` began. -/
def RegisteredBefore (i j : Nat) (s : Timers) : Prop :=
  ∃ u, Reach Timers.step Free .start u ∧ (u.timers i).call = .returned ∧ u.issued ≤ j ∧
    Reach Timers.step Free u s

/-- The one-shots `i` and `j`, of which `i` was registered first, by the time `bound` numbers had been
    drawn, and is not due later. -/
structure InOrder (bound i j : Nat) (s : Timers) : Prop where
  returned : (s.timers i).call = .returned
  drawn : bound ≤ (fetched s).card
  earlier : ∀ e, Placed s e → e.timer = i → e.seq < bound
  calls : ∀ q, (s.timers j).call.number = some q → bound ≤ q
  later : ∀ e, Placed s e → e.timer = j → bound ≤ e.seq
  /-- As long as `i` is to come, `j` waits. -/
  waits : (s.timers i).kind = .after → (s.timers j).kind = .after →
    (s.timers i).due ≤ (s.timers j).due → (∃ e, Placed s e ∧ e.timer = i) →
      (∀ e, s.worker.entry = some e → e.timer ≠ j) ∧ (s.timers j).offers = []

namespace InOrder

variable {s t : Timers} {a : TimerAct} {bound i j : Nat}

theorem start (inv : TimerInv s) (seqs : SeqInv s) (few : s.issued ≤ 2 ^ 64)
    (returned : (s.timers i).call = .returned) (fresh : s.issued ≤ j) :
    InOrder (fetched s).card i j s := by
  have unregistered := inv.unissued j fresh
  obtain ⟨absent, unoffered⟩ := inv.idle_of_unpushed (u := j) (by rw [unregistered]; rfl)
  refine ⟨returned, le_rfl, fun e placed _ => seqs.placed few e placed, ?_,
    fun e placed here => absurd here (absent e placed), ?_⟩
  · intro q number
    rw [unregistered] at number
    cases number
  · intro _ _ _ _
    exact ⟨fun e held => absent e (.inr held), unoffered⟩

/-- `j` is not popped before `i`. -/
theorem not_popped (order : InOrder bound i j s) (seqs : SeqInv s) {e f : Entry}
    (kind : (s.timers i).kind = .after) (kind' : (s.timers j).kind = .after)
    (dues : (s.timers i).due ≤ (s.timers j).due) (member : e ∈ s.heap) (first : e.timer = i)
    (found : earliest s.heap = some f) : f.timer ≠ j := by
  intro second
  obtain ⟨inside, ahead⟩ := earliest_spec found
  have before := Entry.first_iff.1 (ahead e member)
  have dueFirst := seqs.due e (.inl member) (by rw [first]; exact kind)
  have dueSecond := seqs.due f (.inl inside) (by rw [second]; exact kind')
  rw [first] at dueFirst
  rw [second] at dueSecond
  have small := order.earlier e (.inl member) first
  have large := order.later f (.inl inside) second
  omega

theorem step (order : InOrder bound i j s) (inv : TimerInv s) (seqs : SeqInv s)
    (few : t.issued ≤ 2 ^ 64) (moved : s.step a = some t) : InOrder bound i j t := by
  have move := move_of_step moved
  have fewer := (issued_le_of_move move).trans few
  have known : i < s.issued := inv.lt_issued (by rw [order.returned]; nofun)
  have evolves := (evolves_of_move move i).resolve_right fun fresh => known.ne fresh.1
  refine ⟨evolves.returned order.returned, order.drawn.trans (card_fetched_mono inv moved),
    ?_, ?_, ?_, ?_⟩
  · intro e placed here
    rcases seq_cases move placed with ⟨f, before, timer, seq⟩ | number
    · rw [← seq]
      exact order.earlier f before (timer.trans here)
    · rw [here, order.returned] at number
      cases number
  · intro q number
    rcases number_cases inv moved number with before | ⟨called, rfl, _⟩
    · exact order.calls q before
    · rw [seqs.next_eq inv fewer called]
      exact order.drawn
  · intro e placed here
    rcases seq_cases move placed with ⟨f, before, timer, seq⟩ | number
    · rw [← seq]
      exact order.later f before (timer.trans here)
    · rw [here] at number
      exact order.calls _ number
  · rintro kind kind' dues ⟨e, placed, first⟩
    rw [evolves.kind] at kind
    rw [evolves.due] at dues
    have before := placed_before seqs move order.returned kind placed first
    -- `j` was registered already, or its registration begins with this very step.
    rcases evolves_of_move move j with evolves' | ⟨_, shared⟩
    · rw [evolves'.kind] at kind'
      rw [evolves'.due] at dues
      obtain ⟨notHeld, unoffered⟩ := order.waits kind kind' dues ⟨e, before, first⟩
      constructor
      · intro f there
        rcases hands_cases move there with held | ⟨idle, found⟩
        · exact notHeld f held
        · have member : e ∈ s.heap := before.resolve_right (by rw [idle]; nofun)
          exact order.not_popped seqs kind kind' dues member first found
      · rcases offers_cases inv move j with same | ⟨f, held, here⟩
        · rw [same]
          exact unoffered
        · exact absurd here (notHeld f held)
    · obtain ⟨absent, unoffered⟩ := (inv.step moved).idle_of_unpushed (u := j) (by rw [shared]; rfl)
      exact ⟨fun f held => absent f (.inr held), unoffered⟩

end InOrder

/-- A one-shot that was registered and of which nothing is left. -/
structure Spent (i : Nat) (s : Timers) : Prop where
  returned : (s.timers i).call = .returned
  kind : (s.timers i).kind = .after
  absent : ∀ e, Placed s e → e.timer ≠ i

/-- Nothing more comes of it. -/
theorem Spent.step {s t : Timers} {a : TimerAct} {i : Nat} (spent : Spent i s) (inv : TimerInv s)
    (seqs : SeqInv s) (moved : s.step a = some t) :
    Spent i t ∧ (t.timers i).offers = (s.timers i).offers := by
  have move := move_of_step moved
  have known : i < s.issued := inv.lt_issued (by rw [spent.returned]; nofun)
  have evolves := (evolves_of_move move i).resolve_right fun fresh => known.ne fresh.1
  refine ⟨⟨evolves.returned spent.returned, evolves.kind.trans spent.kind, ?_⟩, ?_⟩
  · intro e placed here
    have before := placed_before seqs move spent.returned spent.kind placed here
    exact spent.absent e before here
  · rcases offers_cases inv move i with same | ⟨e, held, here⟩
    · exact same
    · exact absurd here (spent.absent e (.inr held))

/-- Of two one-shots the one that was registered first, and is not due later, is offered first if at all:
    once the other one has been offered, it never is. -/
theorem offers_in_order {i j : Nat} {s t : Timers} (before : RegisteredBefore i j s)
    (kind : (s.timers i).kind = .after) (kind' : (s.timers j).kind = .after)
    (dues : (s.timers i).due ≤ (s.timers j).due) (few : s.issued ≤ 2 ^ 64)
    (offered : (s.timers j).offers ≠ []) (run : Reach Timers.step Free s t) :
    (t.timers i).offers = (s.timers i).offers := by
  obtain ⟨u, first, returned, fresh, second⟩ := before
  obtain ⟨inv, seqs⟩ := SeqInv.of_run first
  obtain ⟨inv', seqs', order⟩ := second.invariant
    (P := fun s => TimerInv s ∧ SeqInv s ∧ (s.issued ≤ 2 ^ 64 → InOrder (fetched u).card i j s))
    ⟨inv, seqs, fun few => .start inv seqs few returned fresh⟩
    fun v a w invs _ moved => ⟨invs.1.step moved, invs.2.1.step invs.1 moved, fun few =>
      (invs.2.2 ((issued_le_of_move (move_of_step moved)).trans few)).step invs.1 invs.2.1 few moved⟩
  have order := order few
  -- `j` no longer waits, so nothing is left of `i`.
  have spent : Spent i s := by
    refine ⟨order.returned, kind, fun e placed here => ?_⟩
    exact offered (order.waits kind kind' dues ⟨e, placed, here⟩).2
  exact (run.invariant (P := fun t => TimerInv t ∧ SeqInv t ∧ Spent i t ∧
      (t.timers i).offers = (s.timers i).offers) ⟨inv', seqs', spent, rfl⟩
    fun v a w ⟨inv, seqs, spent, same⟩ _ moved =>
      have next := spent.step inv seqs moved
      ⟨inv.step moved, seqs.step inv moved, next.1, next.2.trans same⟩).2.2.2

/-! ### Runs on a worker that is on its own -/

/-- A whole call of `send_after`, with nobody in between. -/
def registration (n delay : Nat) : List TimerAct :=
  [.sendAfter 0 delay, .schedule n, .schedule n, .schedule n, .schedule n, .schedule n]

/-- The one-shot it leaves. -/
def registeredAt (clock delay : Nat) : TimerInfo :=
  { TimerInfo.blank with delay := delay, registered := clock, call := .returned, message := true }

/-- And the timers after it, when the worker is yet to lock the heap. -/
def registered (s : Timers) (delay : Nat) : Timers :=
  { s.setTimer s.issued (registeredAt s.clock delay) with
    heap := ⟨s.issued, s.clock + delay, s.nextSeq⟩ :: s.heap
    nextSeq := (s.nextSeq + 1) % 2 ^ 64
    issued := s.issued + 1
    worker := match s.worker with
      | .unstarted => .lock
      | pc => pc }

theorem exec_registration {s : Timers} (delay : Nat) (free : s.locked = false)
    (sound : s.poisoned = false)
    (worker : s.worker = .unstarted ∨ s.worker = .lock ∨ s.worker = .wake) :
    exec Timers.step s (registration s.issued delay) = some (registered s delay) := by
  obtain ⟨clock, locked, poisoned, heap, nextSeq, timers, issued, gone, pc⟩ := s
  cases free
  cases sound
  rcases worker with rfl | rfl | rfl <;>
    simp [registration, exec, Timers.step, Timers.register, Timers.setTimer, Timers.setCall,
      Timers.scheduleStep, registered, registeredAt, Timers.notifyOne, TimerInfo.blank]

/-- The worker gets the lock and begins a pass. -/
theorem exec_wakes {s : Timers} (worker : s.worker = .lock ∨ s.worker = .wake)
    (free : s.locked = false) (d : Nat) :
    exec Timers.step s [.tick d, .worker, .worker] =
      some { s with clock := s.clock + d, locked := true, worker := .peek (s.clock + d) } := by
  rcases worker with worker | worker <;>
    simp [exec, Timers.step, worker, Timers.workerStep, free]

/-- The worker has popped the entry of a one-shot and offers its message. -/
def offeringNow (s : Timers) (now : Nat) (e : Entry) : Timers :=
  { (s.beginFire e.timer).beginOffer e.timer with
    heap := s.heap.erase e
    locked := false
    worker := .offering now e (s.gone (s.timers e.timer).target) }

theorem exec_offer {s : Timers} {now : Nat} {e : Entry} (stands : s.worker = .peek now)
    (found : earliest s.heap = some e) (due : e.deadline ≤ now)
    (active : (s.timers e.timer).cancelled = false) (message : (s.timers e.timer).message = true) :
    exec Timers.step s [.worker, .worker, .made, .worker] = some (offeringNow s now e) := by
  simp [exec, Timers.step, stands, Timers.workerStep, found, due, active, message, offeringNow,
    Timers.beginFire, Timers.beginOffer, Timers.setTimer]

/-- The message was accepted, and the worker is back at its loop. -/
def offerOver (s : Timers) (now : Nat) (e : Entry) : Timers :=
  { s.setTimer e.timer { s.timers e.timer with stopped := true } with
    locked := true
    worker := .peek now }

theorem exec_offerReturns {s : Timers} {now : Nat} {e : Entry}
    (stands : s.worker = .offering now e false) (free : s.locked = false)
    (after : (s.timers e.timer).kind = .after) :
    exec Timers.step s [.offerReturns .accepted, .worker, .worker, .worker] =
      some (offerOver s now e) := by
  simp [exec, Timers.step, stands, Timers.workerStep, free, after, Timers.nextDeadline, offerOver,
    Timers.setTimer]

/-- An offered one-shot whose target is there is over with. -/
theorem reach_offerOver (w : Timers) (now : Nat) (e : Entry) (after : (w.timers e.timer).kind = .after)
    (there : w.gone (w.timers e.timer).target = false) :
    Reach Timers.step Free (offeringNow w now e) (offerOver (offeringNow w now e) now e) := by
  have stands : (offeringNow w now e).worker = .offering now e false := by
    rw [← there]
    rfl
  refine reach_of_exec (exec_offerReturns stands rfl ?_)
  simp [offeringNow, Timers.beginOffer, Timers.beginFire, Timers.setTimer, after]

/-- Nothing is left in the heap: the worker waits, and the wait ends. -/
theorem exec_rests {s : Timers} {now : Nat} (stands : s.worker = .peek now) (empty : s.heap = []) :
    exec Timers.step s [.worker, .worker, .worker, .wake] =
      some { s with locked := false, worker := .wake } := by
  simp [exec, Timers.step, stands, Timers.workerStep, earliest_eq_none_iff.2 empty]

/-- An entry that comes before every other is the one `peek` returns. -/
theorem earliest_eq_some {heap : List Entry} {e : Entry} (member : e ∈ heap)
    (alone : ∀ f ∈ heap, f.first e = true → f = e) : earliest heap = some e := by
  cases found : earliest heap with
  | none =>
      rw [earliest_eq_none_iff.1 found] at member
      cases member
  | some top =>
      obtain ⟨inside, before⟩ := earliest_spec found
      rw [alone top inside (before e member)]

theorem earliest_singleton (e : Entry) : earliest [e] = some e :=
  earliest_eq_some List.mem_cons_self fun _ member _ => List.mem_singleton.1 member

/-- Of two one-shots that are due at the same time the one with the smaller number is offered first. -/
theorem offers_by_number {w : Timers} {now i j d p q : Nat}
    (stands : w.worker = .peek now) (heap : w.heap = [⟨j, d, q⟩, ⟨i, d, p⟩])
    (due : d ≤ now) (numbers : q < p) (apart : i ≠ j)
    (first : w.timers i = registeredAt 0 d) (second : w.timers j = registeredAt 0 d)
    (there : ∀ target, w.gone target = false) :
    ∃ s t, Reach Timers.step Free w s ∧ s.issued = w.issued ∧ s.heap = [⟨i, d, p⟩] ∧
      (∀ u, u ≠ j → (s.timers u).offers = (w.timers u).offers) ∧ (s.timers i).kind = .after ∧
      (s.timers j).kind = .after ∧ (s.timers i).due = d ∧ (s.timers j).due = d ∧
      (s.timers i).offers = [] ∧ (s.timers j).offers = [w.clock] ∧
      Reach Timers.step Free s t ∧ (t.timers i).offers = [w.clock] := by
  have top : earliest w.heap = some ⟨j, d, q⟩ := by
    rw [heap]
    refine earliest_eq_some List.mem_cons_self fun f member ahead => ?_
    rw [Entry.first_iff] at ahead
    rcases List.mem_cons.1 member with rfl | member
    · rfl
    · cases List.mem_singleton.1 member
      dsimp only at ahead
      omega
  have one := exec_offer stands top due (by rw [second]; rfl) (by rw [second]; rfl)
  have two := reach_offerOver w now ⟨j, d, q⟩ (by rw [second]; rfl) (there _)
  have three := exec_offer (s := offerOver (offeringNow w now ⟨j, d, q⟩) now ⟨j, d, q⟩)
    (e := ⟨i, d, p⟩) rfl
    (by simp [offerOver, offeringNow, Timers.setTimer, heap, earliest_singleton]) due
    (by simp [offerOver, offeringNow, Timers.beginOffer, Timers.beginFire, Timers.setTimer, first,
      registeredAt, TimerInfo.blank, apart])
    (by simp [offerOver, offeringNow, Timers.beginOffer, Timers.beginFire, Timers.setTimer, first,
      registeredAt, TimerInfo.blank, apart])
  refine ⟨_, _, reach_of_exec one, rfl, by simp [offeringNow, heap], ?_, ?_, ?_, ?_, ?_, ?_, ?_,
    two.trans (reach_of_exec three), ?_⟩
  · intro u other
    simp [offeringNow, Timers.beginOffer, Timers.beginFire, Timers.setTimer, other]
  all_goals simp [offerOver, offeringNow, Timers.beginOffer, Timers.beginFire, Timers.setTimer, first,
    second, registeredAt, TimerInfo.blank, apart, TimerInfo.due]

/-- A one-shot that is due and alone in the heap is offered, and the worker comes back from its wait. -/
theorem reach_of_alone {w : Timers} {now : Nat} {e : Entry} (stands : w.worker = .peek now)
    (heap : w.heap = [e]) (due : e.deadline ≤ now) (info : w.timers e.timer = registeredAt 0 e.deadline)
    (there : ∀ target, w.gone target = false) :
    Reach Timers.step Free w
      { offerOver (offeringNow w now e) now e with locked := false, worker := .wake } := by
  have top : earliest w.heap = some e := by
    rw [heap, earliest_singleton]
  have offering := exec_offer stands top due (by rw [info]; rfl) (by rw [info]; rfl)
  have returned := reach_offerOver w now e (by rw [info]; rfl) (there _)
  have rests := exec_rests (s := offerOver (offeringNow w now e) now e) rfl
    (by simp [offerOver, offeringNow, Timers.setTimer, heap])
  exact ((reach_of_exec offering).trans returned).trans (reach_of_exec rests)

/-- `n` one-shots have been registered and the worker is yet to lock the heap. -/
structure Unwoken (n : Nat) (s : Timers) : Prop where
  run : Reach Timers.step Free .start s
  free : s.locked = false
  sound : s.poisoned = false
  worker : s.worker = .unstarted ∨ s.worker = .lock ∨ s.worker = .wake
  issued : s.issued = n
  next : s.nextSeq = n % 2 ^ 64
  clock : s.clock = 0
  gone : ∀ target, s.gone target = false

namespace Unwoken

theorem start : Unwoken 0 .start :=
  ⟨.refl _, rfl, rfl, .inl rfl, rfl, rfl, rfl, fun _ => rfl⟩

variable {n : Nat} {s : Timers}

/-- After a registration the worker has been started. -/
theorem ready (unwoken : Unwoken n s) (delay : Nat) :
    (registered s delay).worker = .lock ∨ (registered s delay).worker = .wake := by
  rcases unwoken.worker with stands | stands | stands <;> simp [Timer.registered, stands]

theorem registered (unwoken : Unwoken n s) (delay : Nat) :
    Unwoken (n + 1) (registered s delay) where
  run := unwoken.run.trans
    (reach_of_exec (exec_registration delay unwoken.free unwoken.sound unwoken.worker))
  free := unwoken.free
  sound := unwoken.sound
  worker := .inr (unwoken.ready delay)
  issued := congrArg (· + 1) unwoken.issued
  next := by
    show (s.nextSeq + 1) % 2 ^ 64 = (n + 1) % 2 ^ 64
    rw [unwoken.next, Nat.mod_add_mod]
  clock := unwoken.clock
  gone := unwoken.gone

/-- A one-shot is registered that is due at once; the worker offers its message, finds nothing more and
    waits, until something wakes it. -/
theorem round (unwoken : Unwoken n s) (empty : s.heap = []) :
    ∃ t, Unwoken (n + 1) t ∧ t.heap = [] ∧ (t.timers n).offers = [0] ∧
      ∀ u < n, (t.timers u).offers = (s.timers u).offers := by
  have known := unwoken.registered 0
  have heap : (Timer.registered s 0).heap = [⟨n, 0, n % 2 ^ 64⟩] := by
    simp [Timer.registered, empty, Timers.setTimer, unwoken.issued, unwoken.clock, unwoken.next]
  have timers : (Timer.registered s 0).timers = Function.update s.timers n (registeredAt 0 0) := by
    simp [Timer.registered, Timers.setTimer, unwoken.issued, unwoken.clock]
  have woken := exec_wakes (unwoken.ready 0) known.free 0
  rw [known.clock] at woken
  have alone := reach_of_alone (e := ⟨n, 0, n % 2 ^ 64⟩)
    (w := { Timer.registered s 0 with clock := 0 + 0, locked := true, worker := .peek (0 + 0) })
    rfl heap le_rfl (by simp [timers]) known.gone
  refine ⟨_, ⟨(known.run.trans (reach_of_exec woken)).trans alone, rfl, known.sound,
    .inr (.inr rfl), known.issued, known.next, rfl, known.gone⟩, ?_, ?_, fun u below => ?_⟩
  · simp [offerOver, offeringNow, Timers.setTimer, heap]
  · simp [offerOver, offeringNow, Timers.beginOffer, Timers.beginFire, Timers.setTimer, timers,
      registeredAt, TimerInfo.blank]
  · simp [offerOver, offeringNow, Timers.beginOffer, Timers.beginFire, Timers.setTimer, timers,
      below.ne]

end Unwoken

/-- Any number of one-shots can be registered and offered while the clock shows 0. -/
theorem exists_unwoken (n : Nat) :
    ∃ s, Unwoken n s ∧ s.heap = [] ∧ ∀ u < n, (s.timers u).offers = [0] := by
  induction n with
  | zero => exact ⟨.start, .start, rfl, fun u below => absurd below u.not_lt_zero⟩
  | succ n inductionHypothesis =>
      obtain ⟨s, unwoken, empty, offered⟩ := inductionHypothesis
      obtain ⟨t, next, empty', last, same⟩ := unwoken.round empty
      refine ⟨t, next, empty', fun u below => ?_⟩
      rcases Nat.lt_succ_iff_lt_or_eq.1 below with earlier | rfl
      · rw [same u earlier, offered u earlier]
      · exact last

/-! ### Passes and their order -/

/-- Every pass of `run` obeys its law, over every heap, and so one-shots that are registered one after
    another, none due earlier than the one before, are offered in this order as long as their numbers
    have not wrapped. -/
theorem timer_pass :
    (∀ (now : Nat) (s : Timers) (labels : List TimerAct) (p : Pass), PassStart now s →
      (∀ a ∈ labels, a.duringPass = true) → exec (Pass.step now) (.start s) labels = some p →
        PassLaw now s labels p) ∧
    ∀ (i j : Nat) (s t : Timers), RegisteredBefore i j s → (s.timers i).kind = .after →
      (s.timers j).kind = .after → (s.timers i).due ≤ (s.timers j).due → s.issued ≤ 2 ^ 64 →
        (s.timers j).offers ≠ [] → Reach Timers.step Free s t →
          (t.timers i).offers = (s.timers i).offers :=
  ⟨fun _ _ _ _ starts during executed => passLaw_of_exec starts during executed,
    fun _ _ _ _ before kind kind' dues few offered run =>
      offers_in_order before kind kind' dues few offered run⟩

/-- Two one-shots due at 5, a periodic timer due at 3 and a one-shot that is due at 4. -/
def fourTimers : List TimerAct :=
  registration 1 5 ++ [.sendEvery 2 3, .schedule 2, .schedule 2, .schedule 2, .schedule 2, .schedule 2] ++
    registration 3 4 ++ [.tick 5, .worker, .worker]

/-- The pass over them: the fourth is cancelled while the periodic timer fires. -/
def fourTimersPass : List TimerAct :=
  let fires : List TimerAct :=
    [.worker, .worker, .made, .worker, .offerReturns .accepted, .worker, .worker, .worker]
  [.worker, .worker, .cancel 3, .made, .worker, .tick 2, .offerReturns .full, .worker, .worker, .worker,
    .worker, .worker] ++ fires ++ fires ++ [.worker]

theorem timer_pass_fourTimers :
    ∃ s p, exec Timers.step (registered .start 5) fourTimers = some s ∧
      exec (Pass.step 5) (.start s) fourTimersPass = some p ∧ p.timers.worker = .sleep ∧
      p.popped = [⟨2, 3, 2⟩, ⟨3, 4, 3⟩, ⟨0, 5, 0⟩, ⟨1, 5, 1⟩] ∧
      p.fired = [⟨2, 3, 2⟩, ⟨0, 5, 0⟩, ⟨1, 5, 1⟩] ∧ p.timers.heap = [⟨2, 10, 2⟩] ∧
      PassLaw 5 s fourTimersPass p ∧ (p.timers.timers 1).offers = [7] ∧
      ∀ t, Reach Timers.step Free p.timers t → (t.timers 0).offers = [7] := by
  obtain ⟨s, p, executed, peek, pass, asleep, popped, fired, heap, kind, kind', dues, few, offers, offers'⟩ :
      ∃ s p, exec Timers.step (registered .start 5) fourTimers = some s ∧ s.worker = .peek 5 ∧
        exec (Pass.step 5) (.start s) fourTimersPass = some p ∧ p.timers.worker = .sleep ∧
        p.popped = [⟨2, 3, 2⟩, ⟨3, 4, 3⟩, ⟨0, 5, 0⟩, ⟨1, 5, 1⟩] ∧
        p.fired = [⟨2, 3, 2⟩, ⟨0, 5, 0⟩, ⟨1, 5, 1⟩] ∧ p.timers.heap = [⟨2, 10, 2⟩] ∧
        (p.timers.timers 0).kind = .after ∧ (p.timers.timers 1).kind = .after ∧
        (p.timers.timers 0).due ≤ (p.timers.timers 1).due ∧ p.timers.issued ≤ 2 ^ 64 ∧
        (p.timers.timers 0).offers = [7] ∧ (p.timers.timers 1).offers = [7] :=
    ⟨_, _, rfl, rfl, rfl, rfl, by decide +kernel⟩
  have first := Unwoken.start.registered 5
  have run := first.run.trans (reach_of_exec executed)
  have before : RegisteredBefore 0 1 p.timers :=
    ⟨_, first.run, rfl, le_rfl, (reach_of_exec executed).trans (reach_of_pass pass)⟩
  refine ⟨s, p, executed, pass, asleep, popped, fired, heap, ?_, offers', fun t later => ?_⟩
  · exact timer_pass.1 5 s fourTimersPass p (passStart_of_run run peek) (by decide) pass
  · rw [← offers]
    exact timer_pass.2 0 1 p.timers t before kind kind' dues few (by rw [offers']; simp) later

/-- The numbers wrap: after `2 ^ 64 - 1` one-shots that were each offered before the next was registered,
    two are registered that are due at the same time. The second is the first to get the number 0 again,
    and is offered first. -/
theorem later_offered_first :
    ∃ s t, RegisteredBefore (2 ^ 64 - 1) (2 ^ 64) s ∧ s.issued = 2 ^ 64 + 1 ∧
      s.heap = [⟨2 ^ 64 - 1, 5, 2 ^ 64 - 1⟩] ∧ (∀ u < 2 ^ 64 - 1, (s.timers u).offers = [0]) ∧
      (s.timers (2 ^ 64 - 1)).kind = .after ∧ (s.timers (2 ^ 64)).kind = .after ∧
      (s.timers (2 ^ 64 - 1)).due = 5 ∧ (s.timers (2 ^ 64)).due = 5 ∧
      (s.timers (2 ^ 64 - 1)).offers = [] ∧ (s.timers (2 ^ 64)).offers = [5] ∧
      Reach Timers.step Free s t ∧ (t.timers (2 ^ 64 - 1)).offers = [5] := by
  obtain ⟨r, unwoken, empty, offered⟩ := exists_unwoken (2 ^ 64 - 1)
  have first := unwoken.registered 5
  have second := first.registered 5
  have heap : (registered (registered r 5) 5).heap =
      [⟨2 ^ 64, 5, 0⟩, ⟨2 ^ 64 - 1, 5, 2 ^ 64 - 1⟩] := by
    simp [registered, empty, Timers.setTimer, unwoken.issued, unwoken.clock, unwoken.next]
  have timers : (registered (registered r 5) 5).timers = Function.update
      (Function.update r.timers (2 ^ 64 - 1) (registeredAt 0 5)) (2 ^ 64) (registeredAt 0 5) := by
    simp [registered, Timers.setTimer, unwoken.issued, unwoken.clock]
  have woken := exec_wakes (first.ready 5) second.free 5
  rw [second.clock] at woken
  obtain ⟨s, t, run, issued, left, same, facts⟩ := offers_by_number (i := 2 ^ 64 - 1) (j := 2 ^ 64)
    (w := { registered (registered r 5) 5 with
      clock := 0 + 5, locked := true, worker := .peek (0 + 5) })
    rfl heap le_rfl (by decide) (by decide)
    (by simp [timers]) (by simp [timers]) second.gone
  have before : RegisteredBefore (2 ^ 64 - 1) (2 ^ 64) s := by
    refine ⟨registered r 5, first.run, ?_, first.issued.le, ?_⟩
    · simp [registered, unwoken.issued, Timers.setTimer, registeredAt]
    · have registers := reach_of_exec (exec_registration 5 first.free first.sound first.worker)
      exact registers.trans ((reach_of_exec woken).trans run)
  refine ⟨s, t, before, issued.trans second.issued, left, fun u below => ?_, facts⟩
  have apart : u ≠ 2 ^ 64 := by omega
  rw [same u apart, ← offered u below]
  show ((registered (registered r 5) 5).timers u).offers = (r.timers u).offers
  rw [timers, Function.update_of_ne apart, Function.update_of_ne below.ne]

end AetherFlow.Timer
