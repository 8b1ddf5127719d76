/-
Module: AetherFlow.Mpsc.Refinement
Purpose: The mailbox refines a bounded channel. Seen from outside, a send call takes its place in the
  line at its successful compare-and-swap and shows it when it stores the sequence number of its slot;
  the receiving side serves the front place when it releases the slot. Every step of every party is
  then a run of the channel, and every verdict a call returns is one the channel gives.
Trusted boundary: none
Main exports: Call.phase, Mailbox.view, Mailbox.shows, Timely, refines_channel, mailbox_refines_channel
-/
import AetherFlow.Lib.BoundedChannel
import AetherFlow.Mpsc.Verdicts

namespace AetherFlow.Mpsc

open Transition Word

variable {w k : Nat} {T : Type*}

/-! ### What the channel sees -/

/-- How far a send call has come for the channel. -/
def Call.phase (call : Call w T) : Phase T :=
  match call.pc with
  | .checkAlive item | .loadPos item | .loadSeq item _ | .cas item _ => .asked item.body
  | .recheckAlive item | .returned (.error (.full item)) => .full item.body
  | .returned (.error (.closed item)) => .closed item.body
  | .write item _ => .reserved item.body
  | .storeSeq _ => .reserved call.body
  | .returned (.ok _) => .sent call.body

def phaseOf (calls : Nat → Option (Call w T)) (c : Nat) : Phase T :=
  match calls c with
  | some call => call.phase
  | none => .idle

/-- The channel behind a mailbox. A place is free again once its slot is released. -/
def Mailbox.view (s : Mailbox w T) : BoundedChannel Nat T where
  calls := phaseOf s.calls
  waiting := (s.accepted.drop s.taken.length).map Msg.call
  opened := s.q.consumerAlive

/-- What the next step of a send call shows. -/
def Call.shows (q : Queue w (Msg T)) (c : Nat) (call : Call w T) : List (BoundedChannel.Event Nat T) :=
  match call.pc with
  | .checkAlive _ | .recheckAlive _ => if q.consumerAlive then [] else [.closed c]
  | .loadSeq _ pos => if signedGap (q.slot pos).seq pos < 0 then [.full c] else []
  | .cas _ pos => if q.enqueuePos = pos then [.reserve c] else []
  | .storeSeq _ => [.publish c]
  -- Only a `send_blocking` that was told `Full` goes on from here.
  | .returned _ => [.retry c]
  | .loadPos _ | .write _ _ => []

/-- What the next step on the receiving side shows. `Queue::drop` takes messages like `try_recv`. -/
def ConsumerPc.shows (q : Queue w (Msg T)) : ConsumerPc w (Msg T) →
    List (BoundedChannel.Event Nat T)
  | .dequeue (.loadSeq pos) | .emptyLoadSeq pos =>
      if signedGap (q.slot pos).seq (pos + 1) < 0 then [.miss] else []
  | .dequeue (.storeSeq _ item) => [.take item.call item.body]
  | _ => []

def Mailbox.shows (s : Mailbox w T) : Act T → List (BoundedChannel.Event Nat T)
  | .call _ _ _ body => [.ask s.issued body]
  | .enqueue c => ((s.calls c).map (Call.shows s.q c)).getD []
  | .consumer => s.consumer.shows s.q
  | .dropReceiver => [.close]
  | _ => []

/-- No compare-and-swap is lapped, and no call that looks at a slot is left behind by half of the
    word. -/
def Timely (slots : Nat) (s : Mailbox w T) (a : Act T) : Prop :=
  NotLapped s a ∧ ∀ c, a = .enqueue c → s.FreshSeq slots c

/-! ### Reading the view -/

section View

variable {s t : Mailbox w T}

theorem phaseOf_update {calls : Nat → Option (Call w T)} {c : Nat} {call : Call w T} :
    phaseOf (Function.update calls c (some call)) = Function.update (phaseOf calls) c call.phase := by
  funext d
  by_cases same : d = c
  · subst same
    simp [phaseOf]
  · simp [phaseOf, same]

theorem phaseOf_eq {calls : Nat → Option (Call w T)} {c : Nat} {call : Call w T}
    (found : calls c = some call) : phaseOf calls c = call.phase := by
  simp [phaseOf, found]

/-- A message is shown once its call has published it. -/
theorem published_of_sent {calls : Nat → Option (Call w T)} {c : Nat} {m : T}
    (sent : phaseOf calls c = .sent m) : stageOf calls c = .published := by
  unfold phaseOf at sent
  split at sent
  · rename_i call found
    rw [stageOf_eq found]
    unfold Call.phase at sent
    split at sent <;> cases sent
    rename_i at_
    rw [at_]
    rfl
  · cases sent

/-- The call of a published message holds that message. -/
theorem sent_of_published {calls : Nat → Option (Call w T)} {m : Msg T} {call : Call w T}
    (found : calls m.call = some call) (body : m.body = call.body)
    (published : stageOf calls m.call = .published) : phaseOf calls m.call = .sent m.body := by
  rw [stageOf_eq found] at published
  rw [phaseOf_eq found, Call.phase, body]
  cases at_ : call.pc with
  | returned result =>
      cases result with
      | ok => rfl
      | error => simp [at_, EnqueuePc.stage] at published
  | _ => simp [at_, EnqueuePc.stage] at published

theorem view_setPc (c : Nat) (call : Call w T) (pc : EnqueuePc w (Msg T)) :
    (s.setPc c call pc).view = s.view.setPhase c { call with pc := pc }.phase := by
  simp [Mailbox.view, Mailbox.setPc, BoundedChannel.setPhase, phaseOf_update, Mailbox.taken]

/-- A call that stays in its phase is not seen. -/
theorem setPhase_same {c : Nat} {call : Call w T} (found : s.calls c = some call) {phase : Phase T}
    (same : phase = call.phase) : s.view.setPhase c phase = s.view := by
  rw [same, ← phaseOf_eq found]
  exact congrArg (fun calls => (⟨calls, s.view.waiting, s.view.opened⟩ : BoundedChannel Nat T))
    (Function.update_eq_self c (phaseOf s.calls))

theorem view_afterEnqueue {c : Nat} {call : Call w T} {q : Queue w (Msg T)}
    {pc : EnqueuePc w (Msg T)} (alive : q.consumerAlive = s.q.consumerAlive)
    (taken : s.taken.length ≤ s.accepted.length) :
    (s.afterEnqueue c call q pc).view =
      { s.view.setPhase c { call with pc := pc }.phase with
        waiting := s.view.waiting ++ (Mailbox.reserves s.q call.pc).toList.map Msg.call } := by
  have waiting := @List.drop_append_of_le_length _ _ (Mailbox.reserves s.q call.pc).toList _ taken
  rw [Mailbox.view, Mailbox.view, BoundedChannel.setPhase, ← phaseOf_update, ← List.map_append, ← waiting,
    ← alive]
  rfl

theorem Inv.length_waiting (inv : Inv k s) :
    s.view.waiting.length + s.taken.length = s.accepted.length := by
  have := inv.length_le
  simp only [Mailbox.view, List.length_map, List.length_drop]
  omega

/-- A look that finds the head position not published misses. -/
theorem Inv.blocked (inv : Inv k s) (fits : k < w)
    (behind : signedGap (s.q.slot (BitVec.ofNat w s.taken.length)).seq
      (BitVec.ofNat w s.taken.length + 1) < 0) : s.view.Blocked := by
  intro c m front sent
  have published := published_of_sent sent
  simp only [Mailbox.view, List.head?_map, List.head?_drop, Option.map_eq_some_iff] at front
  obtain ⟨msg, at_, rfl⟩ := front
  rw [inv.head_gap_of_ready fits ⟨msg, at_, published⟩] at behind
  omega

end View

/-! ### The steps, one party at a time -/

section Steps

variable {s t : Mailbox w T}

/-- A step of `enqueue` itself. -/
theorem Inv.run_enqueueStep (inv : Inv k s) (fits : k < w) {c : Nat} {call : Call w T}
    {q : Queue w (Msg T)} {pc : EnqueuePc w (Msg T)} (found : s.calls c = some call)
    (after : Inv k (s.afterEnqueue c call q pc)) (stepped : enqueueStep s.q call.pc = some (q, pc))
    (fresh : ∀ item pos, call.pc = .loadSeq item pos →
      s.accepted.length - s.loadedAt c + 2 ^ k ≤ 2 ^ (w - 1)) :
    Run (BoundedChannel.Step (2 ^ k)) s.view (call.shows s.q c) (s.afterEnqueue c call q pc).view := by
  have held : s.view.calls c = call.phase := phaseOf_eq found
  have mine := (inv.calls c call found).item
  have length := inv.length_waiting
  have room := after.room
  rw [view_afterEnqueue (enqueueStep_frame stepped).2.2.1 inv.length_le]
  -- The step keeps its phase, or the shown event is the one that changes it.
  have unseen : { call with pc := pc }.phase = call.phase → Mailbox.reserves s.q call.pc = none →
      Run (BoundedChannel.Step (2 ^ k)) s.view []
        { s.view.setPhase c { call with pc := pc }.phase with
          waiting := s.view.waiting ++ (Mailbox.reserves s.q call.pc).toList.map Msg.call } := by
    intro same nothing
    rw [nothing, setPhase_same found same, Option.toList_none, List.map_nil, List.append_nil]
    exact .nil _
  have alone : Mailbox.reserves s.q call.pc = none →
      s.view.waiting ++ (Mailbox.reserves s.q call.pc).toList.map Msg.call = s.view.waiting := by
    intro nothing
    rw [nothing, Option.toList_none, List.map_nil, List.append_nil]
  rw [Call.phase] at held
  cases at_ : call.pc with
  | checkAlive item =>
      rw [at_] at stepped held unseen alone
      cases stepped
      rw [Call.shows, at_, alone rfl]
      by_cases alive : s.q.consumerAlive
      · rw [alone rfl] at unseen
        rw [if_pos alive]
        exact unseen (by simp [Call.phase, at_, alive]) rfl
      · rw [if_neg alive, if_neg alive]
        exact .single (.closed (.inl held) (Bool.eq_false_iff.2 alive))
  | loadPos item =>
      rw [at_] at stepped unseen
      cases stepped
      rw [Call.shows, at_]
      exact unseen (by simp [Call.phase, at_]) rfl
  | loadSeq item pos =>
      rw [at_] at stepped held unseen alone
      cases stepped
      rw [Call.shows, at_]
      by_cases behind : signedGap (s.q.slot pos).seq pos < 0
      · have full := inv.full_of_behind fits found at_ (fresh item pos at_) behind
        have apart : signedGap (s.q.slot pos).seq pos ≠ 0 := by omega
        simp only [alone rfl, if_neg apart, if_pos behind]
        exact .single (.full held (by omega))
      · simp only [if_neg behind] at unseen ⊢
        by_cases free : signedGap (s.q.slot pos).seq pos = 0
        · simp only [if_pos free] at unseen ⊢
          exact unseen (by simp [Call.phase, at_]) rfl
        · simp only [if_neg free] at unseen ⊢
          exact unseen (by simp [Call.phase, at_]) rfl
  | cas item pos =>
      rw [at_] at stepped held unseen alone
      by_cases current : s.q.enqueuePos = pos
      · rw [enqueueStep, if_pos current] at stepped
        cases stepped
        have same : item.call = c := by rw [mine item (by rw [at_]; rfl)]
        have grown : s.accepted.length + 1 ≤ s.taken.length + 2 ^ k := by
          simpa [Mailbox.afterEnqueue, at_, Mailbox.reserves, current, Mailbox.taken,
            Mailbox.setPc] using room
        simp only [Call.shows, at_, Mailbox.reserves, if_pos current, Option.toList_some, List.map_cons,
          List.map_nil, same]
        exact .single (.reserve held (by omega))
      · rw [enqueueStep, if_neg current] at stepped
        cases stepped
        rw [Call.shows, at_]
        simp only [if_neg current]
        exact unseen (by simp [Call.phase, at_]) (if_neg current)
  | write item pos =>
      rw [at_] at stepped unseen
      cases stepped
      have same : item = { call := c, body := call.body } := mine item (by rw [at_]; rfl)
      rw [Call.shows, at_]
      exact unseen (by simp [Call.phase, at_, same]) rfl
  | storeSeq pos =>
      rw [at_] at stepped held alone
      cases stepped
      rw [Call.shows, at_, alone rfl]
      exact .single (.publish held)
  | recheckAlive item =>
      rw [at_] at stepped held unseen alone
      cases stepped
      rw [Call.shows, at_, alone rfl]
      by_cases alive : s.q.consumerAlive
      · rw [alone rfl] at unseen
        rw [if_pos alive]
        exact unseen (by simp [Call.phase, at_, alive]) rfl
      · rw [if_neg alive, if_neg alive]
        exact .single (.closed (.inr held) (Bool.eq_false_iff.2 alive))
  | returned result =>
      rw [at_] at stepped
      cases stepped

/-- A step of a send call. -/
theorem Inv.run_enqueue (inv : Inv k s) (fits : k < w) {c : Nat} (after : Inv k t)
    (fresh : s.FreshSeq (2 ^ k) c) (moved : s.enqueue c = some t) :
    Run (BoundedChannel.Step (2 ^ k)) s.view (s.shows (.enqueue c)) t.view := by
  obtain ⟨call, found, -, ⟨item, -, full, rfl⟩ | ⟨q, pc, stepped, rfl⟩⟩ := Mailbox.enqueue_cases moved
  · rw [Mailbox.shows, found, Option.map_some, Option.getD_some, Call.shows, full, view_setPc]
    exact .single (.retry ((phaseOf_eq found).trans (by simp [Call.phase, full])))
  · rw [Mailbox.shows, found, Option.map_some, Option.getD_some]
    exact inv.run_enqueueStep fits found after stepped fun item pos at_ => fresh call item pos found at_

/-- A step on the receiving side. -/
theorem Inv.run_consumerStep (inv : Inv k s) (fits : k < w) (moved : s.consumerStep = some t) :
    Run (BoundedChannel.Step (2 ^ k)) s.view (s.shows .consumer) t.view := by
  have ok := inv.consumer
  obtain ⟨result, at_, -, rfl⟩ | ⟨pc, q, pc', at_, stepped, rfl⟩ | ⟨at_, rfl⟩ | ⟨at_, rfl⟩ |
    ⟨pos, at_, rfl⟩ := Mailbox.consumerStep_cases moved
  · rw [Mailbox.shows, at_]
    exact .nil _
  · rw [at_] at ok
    rw [Mailbox.shows, at_]
    have taken := Mailbox.afterDequeue_taken inv.undropped pc pc' q
    have unseen : Mailbox.delivered pc = [] → q.consumerAlive = s.q.consumerAlive →
        (s.afterDequeue pc q pc').view = s.view := by
      intro nothing alive
      rw [nothing, List.append_nil] at taken
      simp only [Mailbox.view, taken]
      exact congrArg _ alive
    cases pc with
    | loadSeq pos =>
        cases stepped
        obtain rfl : pos = BitVec.ofNat w s.taken.length := ok
        rw [unseen rfl rfl, ConsumerPc.shows]
        split
        · rename_i behind
          exact .single (.miss (inv.blocked fits behind))
        · exact .nil _
    | storeSeq pos item =>
        cases stepped
        obtain ⟨-, front, published⟩ := ok
        obtain ⟨call, found, body⟩ := inv.origin item (List.mem_of_getElem? front)
        have inside := (List.getElem?_eq_some_iff.1 front).1
        have line : s.view.waiting = item.call ::
            (s.accepted.drop (s.taken.length + 1)).map Msg.call := by
          rw [Mailbox.view, List.drop_eq_getElem_cons inside, (List.getElem?_eq_some_iff.1 front).2]
          rfl
        have served : (s.afterDequeue (.storeSeq pos item) (s.q.storeSeq pos (pos + s.q.mask + 1))
            (.returned (some item))).view =
            { s.view with waiting := (s.accepted.drop (s.taken.length + 1)).map Msg.call } := by
          simp only [Mailbox.view, taken, List.length_append]
          rfl
        rw [served]
        exact .single (.take line (sent_of_published found body published))
    | loadPos =>
        cases stepped
        rw [unseen rfl rfl]
        exact .nil _
    | cas pos =>
        simp only [dequeueStep] at stepped
        split at stepped
        all_goals
          cases stepped
          rw [unseen rfl rfl]
          exact .nil _
    | read pos =>
        simp only [dequeueStep] at stepped
        split at stepped
        · cases stepped
        all_goals
          cases stepped
          rw [unseen rfl rfl]
          exact .nil _
    | returned result => cases stepped
  · rw [Mailbox.shows, at_]
    exact .nil _
  · rw [Mailbox.shows, at_]
    exact .nil _
  · rw [at_] at ok
    obtain rfl : pos = BitVec.ofNat w s.taken.length := ok
    rw [Mailbox.shows, at_, ConsumerPc.shows]
    split
    · rename_i behind
      exact .single (.miss (inv.blocked fits behind))
    · exact .nil _

/-- Giving up a reference is not seen. -/
theorem view_release : s.release.view = s.view := by
  unfold Mailbox.release
  split <;> rfl

/-- Every timely step of every party is a run of the channel. -/
theorem Inv.run_step (inv : Inv k s) (handles : HandleInv s) (fits : k < w) {a : Act T}
    (after : Inv k t) (timely : Timely (2 ^ k) s a) (moved : s.step a = some t) :
    Run (BoundedChannel.Step (2 ^ k)) s.view (s.shows a) t.view := by
  cases a with
  | call thread handle kind body =>
      obtain ⟨-, rfl⟩ := guarded moved
      have vacant : s.calls s.issued = none := by
        rw [← Option.not_isSome_iff_eq_none, ← handles.issued]
        exact lt_irrefl _
      have idle : s.view.calls s.issued = .idle := by simp [Mailbox.view, phaseOf, vacant]
      have started : BoundedChannel.Step (2 ^ k) s.view (.ask s.issued body) _ := .ask idle
      simp only [Mailbox.view, BoundedChannel.setPhase] at started
      simp only [Mailbox.view, Mailbox.shows, phaseOf_update]
      exact .single started
  | enqueue c => exact inv.run_enqueue fits after (timely.2 c rfl) moved
  | enqueueSpurious c =>
      simp only [Mailbox.step, Mailbox.enqueueSpurious] at moved
      split at moved
      · cases moved
      · rename_i call found
        obtain ⟨pc, spurious, rfl⟩ := Option.map_eq_some_iff.1 moved
        have same : { call with pc := pc }.phase = call.phase := by
          cases at_ : call.pc with
          | cas item pos =>
              rw [at_] at spurious
              cases spurious
              simp [Call.phase, at_]
          | _ => simp [at_, Mpsc.enqueueSpurious] at spurious
        have unseen := (view_setPc c call pc).trans (setPhase_same found same)
        exact unseen ▸ .nil _
  | consumer => exact inv.run_consumerStep fits moved
  | consumerSpurious =>
      simp only [Mailbox.step, Mailbox.consumerSpurious] at moved
      split at moved
      · obtain ⟨pc, -, rfl⟩ := Option.map_eq_some_iff.1 moved
        exact .nil _
      · cases moved
  | releaseSender | releaseReceiver =>
      obtain ⟨-, rfl⟩ := guarded moved
      rw [view_release]
      exact .nil _
  | dropReceiver =>
      obtain ⟨-, rfl⟩ := guarded moved
      exact .single .close
  | cloneStart | cloneFinish | dropSender | tryRecv | closedAndEmpty =>
      obtain ⟨-, rfl⟩ := guarded moved
      exact .nil _

end Steps

/-! ### The refinement -/

/-- The timely steps of a mailbox with two slots or more refine the channel. -/
theorem refines_channel (two : 1 ≤ k) (fits : k < w) :
    Refines (Mailbox.step (w := w) (T := T)) (Timely (2 ^ k)) (fun s => HandleInv s ∧ Inv k s)
      Mailbox.shows (BoundedChannel.Step (2 ^ k)) Mailbox.view where
  keeps := by
    rintro s a t ⟨handles, inv⟩ timely moved
    exact ⟨handles.step moved, inv.step handles two fits timely.1 moved⟩
  matched := by
    rintro s a t ⟨handles, inv⟩ timely moved
    exact inv.run_step handles fits (inv.step handles two fits timely.1 moved) timely moved

/-- Whatever any number of senders, the receiver and the dropping threads do, step by step, a bounded
    channel does with the same verdicts: the state seen at the end is the channel's, and messages are
    taken out in the order in which their calls took their places. -/
theorem mailbox_refines_channel {capacity : Nat} {q : Queue w (Msg T)} {labels : List (Act T)}
    {s : Mailbox w T} (two : 2 ≤ capacity) (made : channel w (Msg T) capacity = some q)
    (executed : exec Mailbox.step (Mailbox.new q) labels = some s)
    (timely : Throughout Mailbox.step (Timely (roundCapacity capacity)) (Mailbox.new q) labels) :
    let events := shown Mailbox.step Mailbox.shows (Mailbox.new q) labels
    Run (BoundedChannel.Step (roundCapacity capacity)) .new events s.view ∧
      BoundedChannel.reserves events = BoundedChannel.takes events ++ s.view.waiting := by
  obtain ⟨fits, rfl⟩ := channel_eq_some made
  have fits : Nat.clog 2 (max capacity 1) < w := by omega
  have run : Run (BoundedChannel.Step (roundCapacity capacity)) .new _ s.view :=
    (refines_channel (one_le_clog_iff.2 two) fits).run ⟨HandleInv.new rfl rfl, Inv.new _⟩ timely executed
  exact ⟨run, (BoundedChannel.line_of_run run).1⟩

/-- A run that ends with few accepted messages is timely. -/
theorem timely_of_short {s t : Mailbox w T} (slots : Nat) (run : Reach Mailbox.step NotLapped s t)
    (short : t.accepted.length + slots ≤ 2 ^ (w - 1)) : Reach Mailbox.step (Timely slots) s t := by
  induction run with
  | refl => exact Reach.refl _
  | tail _ last inductionHypothesis =>
      obtain ⟨a, unlapped, moved⟩ := last
      have grows := (step_accepted moved).1
      refine (inductionHypothesis (by omega)).tail ⟨unlapped, ?_⟩ moved
      intro c _ call item pos _ _
      omega

/-- Two messages fill a channel of two places, a third send is refused, and the first is taken out. -/
theorem mailbox_refines_channel_brimful :
    ∃ labels, ∃ s : Mailbox 64 Nat,
      exec Mailbox.step (Mailbox.new (Queue.new 64 (Msg Nat) 2)) labels = some s ∧
      s.view.calls 2 = .full 9 ∧ s.view.waiting = [1] ∧
      Run (BoundedChannel.Step (roundCapacity 2)) .new
        (shown Mailbox.step Mailbox.shows (Mailbox.new (Queue.new 64 (Msg Nat) 2)) labels) s.view := by
  have goesOn : ∃ s, exec Mailbox.step brimful
      (List.replicate 4 (.enqueue 2) ++ .tryRecv :: List.replicate 5 .consumer) = some s ∧
      s.accepted.length = 2 ∧ s.view.calls 2 = .full 9 ∧ s.view.waiting = [1] :=
    ⟨_, rfl, rfl, rfl, rfl⟩
  obtain ⟨s, executed, few, refused, line⟩ := goesOn
  obtain ⟨q, made, filled⟩ := brimful_runs
  cases (channel_two_pow (w := 64) (M := Msg Nat) (k := 1) (by decide)).symm.trans made
  have run := timely_of_short (roundCapacity 2)
    (filled.trans (notLapped_of_short (reach_of_exec executed) (by rw [few]; decide)))
    (by rw [few, show roundCapacity 2 = 2 from roundCapacity_two_pow 1]; decide)
  obtain ⟨labels, executed, timely⟩ := exists_throughout run
  exact ⟨labels, s, executed, refused, line, (mailbox_refines_channel le_rfl made executed timely).1⟩

end AetherFlow.Mpsc
