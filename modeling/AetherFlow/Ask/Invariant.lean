/-
Module: AetherFlow.Ask.Invariant
Purpose: What ties a reply cell to its caller and its `Responder`. While the cell lives its contents and
  its reference count are functions of where the two parties stand; once it is gone, what
  `ReplyCell::drop` dropped is. Each step touches the cell of one call only, since the cells of
  different calls are apart as long as they live.
Trusted boundary: none
Main exports: Call.live, Call.holders, Call.cell, Call.drops, CallOk, AskInv, AskInv.update, Settles,
  AskInv.step, AskRuns.inv
-/
import AetherFlow.Ask.Reply

namespace AetherFlow.Ask

open Transition

variable {R : Type*}

/-! ### Where the parties stand -/

namespace CallerPc

/-- The caller still has its hold on the cell. -/
def holds : CallerPc R → Bool
  | .destroying _ | .returned _ => false
  | _ => true

def isReturned : CallerPc R → Bool
  | .returned _ => true
  | _ => false

/-- The message has come back. -/
def isRefused : CallerPc R → Bool
  | .refused => true
  | _ => false

/-- What the call will return, once that is decided. -/
def result : CallerPc R → Option (AskResult R)
  | .leaving result | .destroying result | .returned result => some result
  | _ => none

/-- What the caller has moved out of the slot. -/
def content : CallerPc R → Option (Option (Reply R))
  | .consuming content => some content
  | .leaving (.ok content) | .destroying (.ok content) | .returned (.ok content) => some content
  | _ => none

/-- The caller has stored `CONSUMED`. -/
def consumed : CallerPc R → Bool
  | .leaving (.ok _) | .destroying (.ok _) | .returned (.ok _) => true
  | _ => false

/-- Nothing is decided yet and nothing was moved out. -/
def early : CallerPc R → Bool
  | .making | .sending | .refused | .droppingMessage | .poll | .waiting => true
  | _ => false

theorem of_early {pc : CallerPc R} (early : pc.early = true) :
    pc.holds = true ∧ pc.isReturned = false ∧ pc.consumed = false ∧ pc.result = none ∧
      pc.content = none ∧ pc ≠ .reading := by
  cases pc <;> simp_all [CallerPc.early, holds, isReturned, consumed, result, content]

/-- The value was consumed exactly by a call that returns it. -/
theorem consumed_of_result {pc : CallerPc R} {result : AskResult R}
    (decided : pc.result = some result) : pc.consumed = result.isOk := by
  cases pc with
  | leaving result' | destroying result' | returned result' =>
      cases decided
      cases result <;> rfl
  | _ => cases decided

theorem content_of_consumed {pc : CallerPc R} (consumed : pc.consumed = true) :
    ∃ content, pc.content = some content := by
  cases pc with
  | leaving result | destroying result | returned result =>
      cases result with
      | ok content => exact ⟨content, rfl⟩
      | error e => cases consumed
  | _ => cases consumed

end CallerPc

namespace ResponderPc

/-- The `Responder` still has its hold on the cell. -/
def holds : ResponderPc R → Bool
  | .absent | .destroying _ | .gone _ => false
  | _ => true

/-- How the `Responder` was consumed, once it has touched the cell for the last time. -/
def answer : ResponderPc R → Option (Option R)
  | .releasing answer | .destroying answer | .gone answer => some answer
  | _ => none

/-- The `Responder` is in the message of its call, or it has touched the cell for the last time. -/
def secured : ResponderPc R → Bool
  | .held inMessage => inMessage
  | pc => pc.answer.isSome

/-- The `Responder` has not touched the cell yet. -/
def untouched : ResponderPc R → Bool
  | .held _ | .writing _ | .abandoning => true
  | _ => false

/-- The `Responder` is not there any more. -/
def isGone : ResponderPc R → Bool
  | .absent | .gone _ => true
  | _ => false

end ResponderPc

namespace Call

/-- Somebody can still reach the cell. -/
def live (kind : Holding) (call : Call R) : Bool :=
  match kind with
  | .owned => !(call.caller.isReturned && call.responder.isGone)
  | .borrowed => !call.caller.isReturned

/-- How many hold the cell. -/
def holders (kind : Holding) (call : Call R) : Nat :=
  match kind with
  | .owned => call.caller.holds.toNat + call.responder.holds.toNat
  | .borrowed => 1

/-- What is in the cell of call `c`. -/
def cell (c : Nat) (call : Call R) : ReplyCell (Reply R) :=
  match call.responder with
  | .storing value => { slot := some { call := c, value } }
  | .releasing (some value) | .destroying (some value) | .gone (some value) =>
      { state := if call.caller.consumed then .consumed else .replied
        slot := some { call := c, value } }
  | .releasing none | .destroying none | .gone none => { state := .abandoned }
  | _ => {}

/-- What `ReplyCell::drop` has dropped of call `c`. -/
def drops (kind : Holding) (c : Nat) (call : Call R) : List (Option (Reply R)) :=
  if call.live kind then []
  else
    match call.responder.answer, call.caller.result with
    | some (some value), some (.error _) => [some { call := c, value }]
    | _, _ => []

end Call

/-- Where the two parties of call `c` can stand at the same time. -/
structure Parties (kind : Holding) (c : Nat) (call : Call R) : Prop where
  present : call.responder = .absent → call.caller = .returned (.error .wouldBlockCallingCore)
  blocked : call.caller.result = some (.error .wouldBlockCallingCore) → call.responder = .absent
  reads : call.caller = .reading → ∃ value, call.responder.answer = some (some value)
  content : ∀ content, call.caller.content = some content →
    ∃ value, call.responder.answer = some (some value) ∧ content = some { call := c, value }
  noReply : call.caller.result = some (.error .noReply) → call.responder.answer = some none
  callerLast : kind = .owned → ∀ result, call.caller = .destroying result →
    ∃ answer, call.responder = .gone answer
  responderLast : ∀ answer, call.responder = .destroying answer →
    kind = .owned ∧ call.caller.isReturned = true
  /-- `ask` has no clock. -/
  patient : kind = .borrowed → call.caller ≠ .waiting
  /-- A caller that lent out its own stack frame leaves it only when the `Responder` is done. -/
  settled : kind = .borrowed → call.caller.result.isSome = true → call.responder ≠ .absent →
    call.responder.answer.isSome = true

/-- As long as the caller has not returned the `Responder` is there and does not destroy the cell. -/
theorem Parties.running {kind : Holding} {c : Nat} {call : Call R} (parties : Parties kind c call)
    (unreturned : call.caller.isReturned = false) :
    call.responder ≠ .absent ∧ ∀ answer, call.responder ≠ .destroying answer := by
  refine ⟨fun absent => ?_, fun answer destroying => ?_⟩
  · rw [parties.present absent] at unreturned
    cases unreturned
  · rw [(parties.responderLast answer destroying).2] at unreturned
    cases unreturned

/-- The caller goes on after it has decided what to return. -/
theorem Parties.decided {kind : Holding} {c : Nat} {call : Call R} {pc : CallerPc R}
    (parties : Parties kind c call) (unreturned : call.caller.isReturned = false)
    (decided : pc.result.isSome = true) (result : pc.result = call.caller.result)
    (content : pc.content = call.caller.content)
    (last : kind = .owned → ∀ result, pc = .destroying result →
      ∃ answer, call.responder = .gone answer) : Parties kind c { call with caller := pc } := by
  have running := parties.running unreturned
  refine ⟨fun absent => absurd absent running.1, ?_, ?_, ?_, ?_, last,
    fun answer gone => absurd gone (running.2 answer), ?_, ?_⟩
  · simpa only [result] using parties.blocked
  · rintro rfl
    cases decided
  · simpa only [content] using parties.content
  · simpa only [result] using parties.noReply
  · rintro - rfl
    cases decided
  · simpa only [result] using parties.settled

/-- Before the `Responder` is consumed nothing is decided that could depend on it. -/
theorem Parties.respond {kind : Holding} {c : Nat} {call : Call R} {pc : ResponderPc R}
    (parties : Parties kind c call) (unanswered : call.responder.answer = none)
    (here : call.responder ≠ .absent) (here' : pc ≠ .absent)
    (goes : ∀ answer, pc ≠ .destroying answer) : Parties kind c { call with responder := pc } := by
  refine ⟨fun absent => absurd absent here', fun blocked => absurd (parties.blocked blocked) here,
    fun reads => ?_, fun content out => ?_, fun noReply => ?_, fun owned result last => ?_,
    fun answer last => absurd last (goes answer), parties.patient, fun borrowed decided _ => ?_⟩
  · obtain ⟨value, answer⟩ := parties.reads reads
    rw [unanswered] at answer
    cases answer
  · obtain ⟨value, answer, -⟩ := parties.content content out
    rw [unanswered] at answer
    cases answer
  · have answer := parties.noReply noReply
    rw [unanswered] at answer
    cases answer
  · obtain ⟨answer, gone⟩ := parties.callerLast owned result last
    rw [gone] at unanswered
    cases unanswered
  · have answered := parties.settled borrowed decided here
    rw [unanswered] at answered
    cases answered

/-- The `Responder` goes on after it was consumed. -/
theorem Parties.release {kind : Holding} {c : Nat} {call : Call R} {pc : ResponderPc R}
    (parties : Parties kind c call) (here : pc ≠ .absent) (here' : call.responder ≠ .absent)
    (same : pc.answer = call.responder.answer)
    (first : kind = .owned → ∀ result, call.caller ≠ .destroying result)
    (last : ∀ answer, pc = .destroying answer → kind = .owned ∧ call.caller.isReturned = true) :
    Parties kind c { call with responder := pc } := by
  refine ⟨fun absent => absurd absent here, fun blocked => absurd (parties.blocked blocked) here',
    ?_, ?_, ?_, fun owned result destroying => absurd destroying (first owned result), last,
    parties.patient, fun borrowed decided _ => ?_⟩
  · simpa only [same] using parties.reads
  · simpa only [same] using parties.content
  · simpa only [same] using parties.noReply
  · rw [same]
    exact parties.settled borrowed decided here'

/-- What is known of call `c`, the block at its address and what was dropped of it. -/
structure CallOk (kind : Holding) (c : Nat) (call : Call R) (block : Option (Block R))
    (drops : List (Option (Reply R))) : Prop where
  memory : call.live kind = true →
    ∃ b, block = some b ∧ b.strong = call.holders kind ∧ b.cell = call.cell c
  drops : drops = call.drops kind c
  parties : Parties kind c call

/-- What `ReplyCell::drop` has dropped of the values passed to the `Responder` of call `c`. -/
def Asks.dropsOf (s : Asks R) (c : Nat) : List (Option (Reply R)) :=
  s.dropped.filter fun content => content.map (·.call) = some c

structure AskInv (kind : Holding) (s : Asks R) : Prop where
  calls : ∀ (c : Nat) (call : Call R), s.calls[c]? = some call →
    CallOk kind c call (s.heap call.addr) (s.dropsOf c)
  /-- Cells that live are at different addresses. -/
  apart : ∀ (c c' : Nat) (call call' : Call R), s.calls[c]? = some call → s.calls[c']? = some call' →
    call.live kind = true → call'.live kind = true → call.addr = call'.addr → c = c'
  unknown : ∀ c, s.calls.length ≤ c → s.dropsOf c = []
  whole : none ∉ s.dropped
  tame : s.wild = false

namespace AskInv

variable {kind : Holding} {s t : Asks R} {c : Nat} {call call' : Call R}

theorem new : AskInv kind (Asks.new : Asks R) where
  calls := by simp [Asks.new]
  apart := by simp [Asks.new]
  unknown := by simp [Asks.new, Asks.dropsOf]
  whole := by simp [Asks.new]
  tame := rfl

/-- What is dropped of call `c` is not dropped of another. -/
theorem dropsOf_append {drops : List (Option (Reply R))} (dropped : t.dropped = s.dropped ++ drops)
    (own : ∀ content ∈ drops, ∃ value, content = some { call := c, value }) (c' : Nat) :
    t.dropsOf c' = if c' = c then s.dropsOf c ++ drops else s.dropsOf c' := by
  unfold Asks.dropsOf
  rw [dropped, List.filter_append]
  split
  · rename_i same
    subst same
    congr 1
    refine List.filter_eq_self.2 fun content member => ?_
    obtain ⟨value, rfl⟩ := own content member
    simp
  · rename_i different
    have none_ : drops.filter (fun content => content.map (·.call) = some c') = [] := by
      refine List.filter_eq_nil_iff.2 fun content member => ?_
      obtain ⟨value, rfl⟩ := own content member
      simpa using fun same => different same.symm
    rw [none_, List.append_nil]

/-- A step that moves call `c`, touches no memory but its cell and drops nothing but its values. -/
theorem update (inv : AskInv kind s) (found : s.calls[c]? = some call)
    (drops : List (Option (Reply R))) (calls : t.calls = s.calls.set c call')
    (addr : call'.addr = call.addr) (heap : ∀ a, a ≠ call.addr → t.heap a = s.heap a)
    (touches : t.heap = s.heap ∨ call.live kind = true)
    (stays : call'.live kind = true → call.live kind = true)
    (dropped : t.dropped = s.dropped ++ drops)
    (own : ∀ content ∈ drops, ∃ value, content = some { call := c, value })
    (tame : t.wild = s.wild)
    (ok : CallOk kind c call' (t.heap call.addr) (s.dropsOf c ++ drops)) : AskInv kind t := by
  have inside : c < s.calls.length := (List.getElem?_eq_some_iff.1 found).1
  have look : ∀ d, t.calls[d]? = if d = c then some call' else s.calls[d]? := by
    intro d
    rw [calls]
    by_cases same : d = c
    · subst same
      simp [inside]
    · simp [same, List.getElem?_set_ne (Ne.symm same)]
  have drops' := dropsOf_append dropped own
  refine ⟨?_, ?_, ?_, ?_, tame.trans inv.tame⟩
  · intro d other at_
    rw [look] at at_
    rw [drops']
    split at at_
    · rename_i same
      cases at_
      subst same
      rw [if_pos rfl, addr]
      exact ok
    · rename_i different
      rw [if_neg different]
      have before := inv.calls d other at_
      refine { before with memory := fun live => ?_ }
      have same : t.heap other.addr = s.heap other.addr := by
        rcases touches with same | mine
        · rw [same]
        · refine heap _ fun clash => different ?_
          exact inv.apart d c other call at_ found live mine clash
      rw [same]
      exact before.memory live
  · -- Two live calls of the state after were live before, at the same addresses.
    have back : ∀ (d : Nat) (other : Call R), t.calls[d]? = some other → other.live kind = true →
        ∃ old : Call R, s.calls[d]? = some old ∧ old.live kind = true ∧ old.addr = other.addr := by
      intro d other at_ live
      rw [look] at at_
      split at at_
      · rename_i same
        cases at_
        subst same
        exact ⟨call, found, stays live, addr.symm⟩
      · exact ⟨other, at_, live, rfl⟩
    intro d d' one two at_ at_' live live' clash
    obtain ⟨old, found, alive, same⟩ := back d one at_ live
    obtain ⟨old', found', alive', same'⟩ := back d' two at_' live'
    exact inv.apart d d' old old' found found' alive alive' (by rw [same, same', clash])
  · intro d beyond
    have far : d ≠ c := by
      rw [calls, List.length_set] at beyond
      omega
    rw [drops', if_neg far]
    exact inv.unknown d (by rwa [calls, List.length_set] at beyond)
  · rw [dropped]
    intro member
    rcases List.mem_append.1 member with old | new
    · exact inv.whole old
    · obtain ⟨value, absurd_⟩ := own none new
      cases absurd_

/-- A call is an old one or the one that was added. -/
theorem call_of_append {calls : List (Call R)} {last : Call R} {d : Nat}
    (found : (calls ++ [last])[d]? = some call) :
    calls[d]? = some call ∨ d = calls.length ∧ call = last := by
  rcases Nat.lt_trichotomy d calls.length with before | rfl | after
  · rw [List.getElem?_append_left before] at found
    exact .inl found
  · rw [List.getElem?_concat_length] at found
    exact .inr ⟨rfl, (Option.some.inj found).symm⟩
  · rw [List.getElem?_eq_none (by simp; omega)] at found
    cases found

/-- A new call gets a cell of its own. -/
theorem ask {addr : Nat} (inv : AskInv kind s) (moved : s.ask kind addr = some t) :
    AskInv kind t := by
  obtain ⟨free, rfl⟩ := guarded moved
  -- A live call is at an address in use.
  have used : ∀ (d : Nat) (other : Call R), s.calls[d]? = some other → other.live kind = true →
      other.addr ≠ addr := by
    rintro d other at_ live rfl
    obtain ⟨b, block, -⟩ := (inv.calls d other at_).memory live
    rw [free] at block
    cases block
  refine ⟨?_, ?_, ?_, inv.whole, inv.tame⟩
  · intro d other at_
    rcases call_of_append at_ with old | ⟨rfl, rfl⟩
    · have before := inv.calls d other old
      refine { before with memory := fun live => ?_ }
      simp only [Function.update_of_ne (used d other old live)]
      exact before.memory live
    · refine ⟨fun _ => ?_, ?_,
        ⟨nofun, nofun, nofun, nofun, nofun, nofun, nofun, nofun, nofun⟩⟩
      · refine ⟨_, Function.update_self _ _ _, ?_, rfl⟩
        cases kind <;> rfl
      · refine (inv.unknown s.calls.length (Nat.le_refl _)).trans ?_
        cases kind <;> rfl
  · intro d d' one two at_ at_' live live' clash
    rcases call_of_append at_ with old | ⟨rfl, rfl⟩
    · rcases call_of_append at_' with old' | ⟨rfl, rfl⟩
      · exact inv.apart d d' one two old old' live live' clash
      · exact absurd clash (used d one old live)
    · rcases call_of_append at_' with old' | ⟨rfl, rfl⟩
      · exact absurd clash.symm (used d' two old' live')
      · rfl
  · intro d beyond
    rw [List.length_append, List.length_singleton] at beyond
    exact inv.unknown d (by omega)

/-- A call that is turned away has no cell. -/
theorem wouldBlock (inv : AskInv kind s) : AskInv kind s.wouldBlock := by
  have dead : Call.live kind
      (⟨0, .returned (.error .wouldBlockCallingCore), .absent⟩ : Call R) = false := by
    cases kind <;> rfl
  refine ⟨?_, ?_, ?_, inv.whole, inv.tame⟩
  · intro d other at_
    rcases call_of_append at_ with old | ⟨rfl, rfl⟩
    · exact inv.calls d other old
    · refine ⟨fun live => ?_, ?_, ⟨fun _ => rfl, fun _ => rfl, nofun, nofun, nofun, nofun, nofun,
        nofun, fun _ _ here => absurd rfl here⟩⟩
      · rw [dead] at live
        cases live
      · refine (inv.unknown s.calls.length (Nat.le_refl _)).trans ?_
        cases kind <;> rfl
  · intro d d' one two at_ at_' live live' clash
    rcases call_of_append at_ with old | ⟨rfl, rfl⟩
    · rcases call_of_append at_' with old' | ⟨rfl, rfl⟩
      · exact inv.apart d d' one two old old' live live' clash
      · rw [dead] at live'
        cases live'
    · rw [dead] at live
      cases live
  · intro d beyond
    have beyond : s.calls.length + 1 ≤ d := by simpa [Asks.wouldBlock] using beyond
    exact inv.unknown d (by omega)

end AskInv

/-! ### The moves of one call -/

/-- When the message that came back from a closed mailbox is dropped, the `Responder` is in it, or it has
    touched the cell for the last time. `ask` needs this; `ask_timeout` does not. -/
def Settles (kind : Holding) (s : Asks R) : Act R → Prop
  | .caller c .next => kind = .borrowed → ∀ call ∈ s.calls[c]?, call.caller.isRefused = true →
      call.responder.secured = true
  | _ => True

instance (kind : Holding) (s : Asks R) (a : Act R) : Decidable (Settles kind s a) :=
  match a with
  | .caller _ .next => inferInstanceAs (Decidable (_ = _ → ∀ call ∈ _, _ = _ → _ = _))
  | .caller _ .made | .caller _ .sent | .caller _ .refused | .caller _ (.clock _) | .ask _
  | .wouldBlock | .responder _ _ => isTrue trivial

/-- Nothing is dropped of a call whose cell lives. -/
theorem Call.drops_of_live {kind : Holding} {c : Nat} {call : Call R} (live : call.live kind = true) :
    call.drops kind c = [] := by
  rw [Call.drops, if_pos live]

namespace AskInv

variable {kind : Holding} {s t : Asks R} {c : Nat} {call call' : Call R}

/-- A party of a live call finds the cell. -/
theorem access_of_live (inv : AskInv kind s) (found : s.calls[c]? = some call)
    (live : call.live kind = true) :
    ∃ block, s.heap call.addr = some block ∧ (∀ use, s.access call.addr use = use block) ∧
      block.strong = call.holders kind ∧ block.cell = call.cell c := by
  obtain ⟨block, there, strong, cell⟩ := (inv.calls c call found).memory live
  exact ⟨block, there, fun use => by rw [Asks.access, there], strong, cell⟩

/-- A move that touches no memory. -/
theorem quiet (inv : AskInv kind s) (found : s.calls[c]? = some call)
    (addr : call'.addr = call.addr) (live : call'.live kind = call.live kind)
    (holders : call'.holders kind = call.holders kind) (cell : call'.cell c = call.cell c)
    (drops : call'.drops kind c = call.drops kind c) (parties : Parties kind c call') :
    AskInv kind { s with calls := s.calls.set c call' } := by
  have ok := inv.calls c call found
  refine inv.update found [] rfl addr (fun _ _ => rfl) (.inl rfl) (fun alive => ?_)
    (List.append_nil _).symm nofun rfl ⟨fun alive => ?_, ?_, parties⟩
  · rw [← live]
    exact alive
  · rw [live] at alive
    rw [holders, cell]
    exact ok.memory alive
  · rw [List.append_nil, drops]
    exact ok.drops

/-- A move of a live call that stores to its cell and leaves it alive. -/
theorem stores (inv : AskInv kind s) (found : s.calls[c]? = some call) {block : Block R}
    (addr : call'.addr = call.addr) (live : call.live kind = true) (live' : call'.live kind = true)
    (strong : block.strong = call'.holders kind) (cell : block.cell = call'.cell c)
    (parties : Parties kind c call') :
    AskInv kind { s.store call.addr block with calls := s.calls.set c call' } := by
  have ok := inv.calls c call found
  refine inv.update found [] rfl addr (fun a other => Function.update_of_ne other _ _)
    (.inr live) (fun _ => live) (List.append_nil _).symm nofun rfl ⟨fun _ => ?_, ?_, parties⟩
  · exact ⟨block, Function.update_self _ _ _, strong, cell⟩
  · rw [List.append_nil, ok.drops, Call.drops_of_live live, Call.drops_of_live live']

/-- The last move of a call runs `ReplyCell::drop` on the contents its parties left. -/
theorem destroys (inv : AskInv kind s) (found : s.calls[c]? = some call) {block : Block R}
    (addr : call'.addr = call.addr) (live : call.live kind = true) (dead : call'.live kind = false)
    (drops : (if block.cell.state = .replied then [block.cell.slot] else []) = call'.drops kind c)
    (parties : Parties kind c call') :
    AskInv kind { s.destroy call.addr block with calls := s.calls.set c call' } := by
  have ok := inv.calls c call found
  refine inv.update found (if block.cell.state = .replied then [block.cell.slot] else []) rfl addr
    (fun a other => Function.update_of_ne other _ _) (.inr live) (fun alive => ?_) ?_ ?_ rfl
    ⟨fun alive => ?_, ?_, parties⟩
  · rw [dead] at alive
    cases alive
  · unfold Asks.destroy
    split
    · rfl
    · exact (List.append_nil _).symm
  · rw [drops]
    unfold Call.drops
    intro content member
    split at member
    · cases member
    · split at member
      · exact ⟨_, List.mem_singleton.1 member⟩
      · cases member
  · rw [dead] at alive
    cases alive
  · rw [ok.drops, Call.drops_of_live live, List.nil_append, drops]

end AskInv

namespace Call

variable {c : Nat} {call : Call R} {value : R}

theorem cell_of_reply (answer : call.responder.answer = some (some value)) :
    call.cell c = { state := if call.caller.consumed then .consumed else .replied
                    slot := some { call := c, value } } := by
  unfold Call.cell
  cases at_ : call.responder <;> simp_all [ResponderPc.answer]

theorem cell_of_drop (answer : call.responder.answer = some none) :
    call.cell c = { state := .abandoned } := by
  unfold Call.cell
  cases at_ : call.responder <;> simp_all [ResponderPc.answer]

theorem cell_of_unanswered (answer : call.responder.answer = none) :
    (call.cell c).state = .pending := by
  unfold Call.cell
  cases at_ : call.responder <;> simp_all [ResponderPc.answer]

/-- Only a `Responder` that was replied to makes the cell `REPLIED`. -/
theorem answer_of_replied (replied : (call.cell c).state = .replied) :
    ∃ value, call.responder.answer = some (some value) := by
  cases answer : call.responder.answer with
  | none =>
      rw [cell_of_unanswered answer] at replied
      cases replied
  | some answer' =>
      cases answer' with
      | none =>
          rw [cell_of_drop answer] at replied
          cases replied
      | some value => exact ⟨value, rfl⟩

/-- Only a `Responder` that was dropped makes the cell `ABANDONED`. -/
theorem answer_of_abandoned (abandoned : (call.cell c).state = .abandoned) :
    call.responder.answer = some none := by
  cases answer : call.responder.answer with
  | none =>
      rw [cell_of_unanswered answer] at abandoned
      cases abandoned
  | some answer' =>
      cases answer' with
      | none => rfl
      | some value =>
          rw [cell_of_reply answer] at abandoned
          simp only at abandoned
          split at abandoned <;> cases abandoned

/-- `ReplyCell::drop` drops the value of a call that was replied to and does not return it. -/
theorem drops_of_destroy {kind : Holding} {call' : Call R} {answer : Option R} {result : AskResult R}
    (answered : call.responder.answer = some answer) (decided : call.caller.result = some result)
    (answered' : call'.responder.answer = some answer) (decided' : call'.caller.result = some result)
    (dead : call'.live kind = false) :
    (if (call.cell c).state = .replied then [(call.cell c).slot] else []) = call'.drops kind c := by
  rw [Call.drops, dead, answered', decided']
  cases answer with
  | none =>
      rw [cell_of_drop answered]
      rfl
  | some value =>
      rw [cell_of_reply answered, CallerPc.consumed_of_result decided]
      cases result <;> rfl

/-- The contents of the cell depend on the caller only through `CONSUMED`. -/
theorem cell_caller {pc : CallerPc R} (same : pc.consumed = call.caller.consumed) :
    ({ call with caller := pc } : Call R).cell c = call.cell c := by
  simp only [Call.cell, same]

end Call

theorem ResponderPc.of_untouched {pc : ResponderPc R} (untouched : pc.untouched = true) :
    pc ≠ .absent ∧ pc.holds = true ∧ pc.answer = none ∧
      ∀ c (call : Call R), call.responder = pc → call.cell c = {} := by
  cases pc with
  | held inMessage | writing value | abandoning =>
      refine ⟨nofun, rfl, rfl, fun c call at_ => ?_⟩
      rw [Call.cell, at_]
  | _ => cases untouched

namespace AskInv

variable {kind : Holding} {s t : Asks R} {c : Nat} {call : Call R} {pc : CallerPc R}

/-- The cell lives as long as the `Responder` may touch it. -/
theorem live_of_unanswered (parties : Parties kind c call) (here : call.responder ≠ .absent)
    (unanswered : call.responder.answer = none) : call.live kind = true := by
  cases kind with
  | owned =>
      have there : call.responder.isGone = false := by
        cases at_ : call.responder <;> simp_all [ResponderPc.answer, ResponderPc.isGone]
      simp [Call.live, there]
  | borrowed =>
      have undecided : call.caller.result.isSome = false := by
        cases decided : call.caller.result.isSome with
        | false => rfl
        | true =>
            have answered := parties.settled rfl decided here
            rw [unanswered] at answered
            cases answered
      cases at_ : call.caller <;> simp_all [Call.live, CallerPc.isReturned, CallerPc.result]

theorem live_of_holds (kind : Holding) (holds : call.caller.holds = true) :
    call.live kind = true := by
  have unreturned : call.caller.isReturned = false := by
    cases at_ : call.caller <;> simp_all [CallerPc.holds, CallerPc.isReturned]
  cases kind <;> simp [Call.live, unreturned]

/-- The caller goes on, keeps its hold on the cell and touches nothing. -/
theorem callerQuiet (inv : AskInv kind s) (found : s.calls[c]? = some call)
    (holds : call.caller.holds = true) (holds' : pc.holds = true)
    (same : pc.consumed = call.caller.consumed) (parties : Parties kind c { call with caller := pc }) :
    AskInv kind (s.setCaller c call pc) := by
  have live := live_of_holds kind holds
  have live' : ({ call with caller := pc } : Call R).live kind = true := live_of_holds kind holds'
  refine inv.quiet found rfl (live'.trans live.symm) ?_ (Call.cell_caller same)
    (by rw [Call.drops_of_live live, Call.drops_of_live live']) parties
  simp only [Call.holders, holds, holds']

/-- The caller goes on with nothing decided. -/
theorem early (inv : AskInv kind s) (found : s.calls[c]? = some call)
    (before : call.caller.early = true) (after : pc.early = true)
    (patient : kind = .borrowed → pc ≠ .waiting) : AskInv kind (s.setCaller c call pc) := by
  obtain ⟨holds, unreturned, fresh, -⟩ := CallerPc.of_early before
  obtain ⟨holds', -, fresh', undecided', out', unread'⟩ := CallerPc.of_early after
  have running := (inv.calls c call found).parties.running unreturned
  refine inv.callerQuiet found holds holds' (by rw [fresh, fresh'])
    ⟨fun absent => absurd absent running.1, by simp [undecided'], fun reads => absurd reads unread',
      by simp [out'], by simp [undecided'], fun _ result destroying => ?_,
      fun answer last => absurd last (running.2 answer), patient, by simp [undecided']⟩
  simp only at destroying
  rw [destroying] at after
  cases after

/-- The caller decides to return an error. -/
theorem fails {e : AskError} (inv : AskInv kind s) (found : s.calls[c]? = some call)
    (before : call.caller.early = true) (proceeds : e ≠ .wouldBlockCallingCore)
    (noReply : e = .noReply → call.responder.answer = some none)
    (settled : kind = .borrowed → call.responder.answer.isSome = true) :
    AskInv kind (s.setCaller c call (.leaving (.error e))) := by
  obtain ⟨holds, unreturned, fresh, -⟩ := CallerPc.of_early before
  have running := (inv.calls c call found).parties.running unreturned
  refine inv.callerQuiet found holds rfl (by rw [fresh]; rfl)
    ⟨fun absent => absurd absent running.1, fun same => ?_, nofun, nofun, ?_, nofun,
      fun answer last => absurd last (running.2 answer), nofun, fun borrowed _ _ => settled borrowed⟩
  · exact absurd (by simpa [CallerPc.result] using same) proceeds
  · simpa [CallerPc.result] using noReply

/-- The caller loads the state of its cell. -/
theorem polls (inv : AskInv kind s) (found : s.calls[c]? = some call) (at_ : call.caller = .poll)
    (moved : s.callerStep kind c call .next = some t) : AskInv kind t := by
  have before : call.caller.early = true := by rw [at_]; rfl
  have holds : call.caller.holds = true := by rw [at_]; rfl
  obtain ⟨block, there, access, strong, cell⟩ := inv.access_of_live found (live_of_holds kind holds)
  simp only [Asks.callerStep, at_, access, Option.some.injEq] at moved
  cases state : block.cell.state with
  | replied =>
      rw [state] at moved
      subst moved
      have running := (inv.calls c call found).parties.running (by rw [at_]; rfl)
      rw [cell] at state
      have replied := Call.answer_of_replied state
      exact inv.callerQuiet found holds rfl (by rw [at_]; rfl)
        ⟨fun absent => absurd absent running.1, nofun, fun _ => replied, nofun, nofun, nofun,
          fun answer last => absurd last (running.2 answer), nofun, nofun⟩
  | abandoned =>
      rw [state] at moved
      subst moved
      rw [cell] at state
      have dropped := Call.answer_of_abandoned state
      exact inv.fails found before (by decide) (fun _ => dropped) (fun _ => by rw [dropped]; rfl)
  | pending | consumed =>
      rw [state] at moved
      cases kind with
      | owned =>
          subst moved
          exact inv.early found before rfl nofun
      | borrowed =>
          subst moved
          exact inv

/-- The caller moves the value out. -/
theorem takes (inv : AskInv kind s) (found : s.calls[c]? = some call) (at_ : call.caller = .reading)
    (moved : s.callerStep kind c call .next = some t) : AskInv kind t := by
  have parties := (inv.calls c call found).parties
  have running := parties.running (by rw [at_]; rfl)
  have holds : call.caller.holds = true := by rw [at_]; rfl
  obtain ⟨block, there, access, strong, cell⟩ := inv.access_of_live found (live_of_holds kind holds)
  simp only [Asks.callerStep, at_, access, Option.some.injEq] at moved
  subst moved
  obtain ⟨value, answer⟩ := parties.reads at_
  refine inv.callerQuiet found holds rfl (by rw [at_]; rfl)
    ⟨fun absent => absurd absent running.1, nofun, nofun, ?_, nofun, nofun,
      fun answer last => absurd last (running.2 answer), nofun, nofun⟩
  intro content out
  cases out
  exact ⟨value, answer, by rw [cell, Call.cell_of_reply answer]⟩

/-- The caller stores `CONSUMED`. -/
theorem consumes {content : Option (Reply R)} (inv : AskInv kind s)
    (found : s.calls[c]? = some call) (at_ : call.caller = .consuming content)
    (moved : s.callerStep kind c call .next = some t) : AskInv kind t := by
  have parties := (inv.calls c call found).parties
  have running := parties.running (by rw [at_]; rfl)
  have live := live_of_holds kind (show call.caller.holds = true by rw [at_]; rfl)
  obtain ⟨block, there, access, strong, cell⟩ := inv.access_of_live found live
  simp only [Asks.callerStep, at_, access, Option.some.injEq] at moved
  subst moved
  obtain ⟨value, answer, out⟩ := parties.content content (by rw [at_]; rfl)
  refine inv.stores found rfl live ?_ ?_ ?_
    ⟨fun absent => absurd absent running.1, nofun, nofun, ?_, nofun, nofun,
      fun answer last => absurd last (running.2 answer), nofun, fun _ _ _ => ?_⟩
  · cases kind <;> rfl
  · rw [strong]
    simp only [Call.holders, at_]
    rfl
  · have after : ({ call with caller := .leaving (.ok content) } : Call R).cell c = _ :=
      Call.cell_of_reply answer
    rw [cell, Call.cell_of_reply answer, after]
    rfl
  · intro content' out'
    cases out'
    exact ⟨value, answer, out⟩
  · simp only [answer]
    rfl

/-- The caller gives up its hold. -/
theorem leaves {result : AskResult R} (inv : AskInv kind s) (found : s.calls[c]? = some call)
    (at_ : call.caller = .leaving result) (moved : s.callerStep kind c call .next = some t) :
    AskInv kind t := by
  have parties := (inv.calls c call found).parties
  have running := parties.running (by rw [at_]; rfl)
  have live := live_of_holds kind (show call.caller.holds = true by rw [at_]; rfl)
  obtain ⟨block, there, access, strong, cell⟩ := inv.access_of_live found live
  cases kind with
  | owned =>
      simp only [Asks.callerStep, at_, access, Option.some.injEq] at moved
      subst moved
      rw [Call.holders, at_] at strong
      simp only [CallerPc.holds, Bool.toNat_true] at strong
      by_cases last : block.strong = 1
      · have released : call.responder.holds = false := by
          cases held : call.responder.holds with
          | true => rw [held] at strong; simp at strong; omega
          | false => rfl
        obtain ⟨answer, gone⟩ : ∃ answer, call.responder = .gone answer := by
          cases responder : call.responder with
          | gone answer => exact ⟨answer, rfl⟩
          | absent => exact absurd responder running.1
          | destroying answer => exact absurd responder (running.2 answer)
          | _ => simp [responder, ResponderPc.holds] at released
        rw [if_pos last]
        refine inv.stores found rfl live rfl ?_ ?_
          (parties.decided (by rw [at_]; rfl) rfl (by rw [at_]; rfl) ?_ fun _ _ _ => ⟨answer, gone⟩)
        · simp only [last, Call.holders, released]
          rfl
        · rw [cell]
          exact (Call.cell_caller (by rw [at_]; cases result <;> rfl)).symm
        · rw [at_]
          cases result <;> rfl
      · have held : call.responder.holds = true := by
          cases held : call.responder.holds with
          | true => rfl
          | false => rw [held] at strong; simp at strong; omega
        rw [if_neg last]
        refine inv.stores found rfl live ?_ ?_ ?_
          (parties.decided (by rw [at_]; rfl) rfl (by rw [at_]; rfl) ?_ fun _ _ ends => by cases ends)
        · cases responder : call.responder <;> simp [responder, ResponderPc.holds] at held <;>
            simp [Call.live, ResponderPc.isGone]
        · simp only [strong, Call.holders, held]
          rfl
        · rw [cell]
          exact (Call.cell_caller (by rw [at_]; cases result <;> rfl)).symm
        · rw [at_]
          cases result <;> rfl
  | borrowed =>
      simp only [Asks.callerStep, at_, Option.some.injEq] at moved
      subst moved
      refine inv.quiet found rfl ?_ rfl (Call.cell_caller (by rw [at_]; cases result <;> rfl)) ?_
        (parties.decided (by rw [at_]; rfl) rfl (by rw [at_]; rfl) ?_ fun owned => by cases owned)
      · simp [Call.live, at_, CallerPc.isReturned]
      · simp [Call.drops, Call.live, at_, CallerPc.isReturned]
      · rw [at_]
        cases result <;> rfl

/-- The caller runs `ReplyCell::drop`. -/
theorem callerDestroys {result : AskResult R} (inv : AskInv kind s)
    (found : s.calls[c]? = some call) (at_ : call.caller = .destroying result)
    (moved : s.callerStep kind c call .next = some t) : AskInv kind t := by
  have parties := (inv.calls c call found).parties
  have running := parties.running (by rw [at_]; rfl)
  have live : call.live kind = true := by
    cases kind <;> simp [Call.live, at_, CallerPc.isReturned]
  obtain ⟨block, there, access, strong, cell⟩ := inv.access_of_live found live
  simp only [Asks.callerStep, at_, access, Option.some.injEq] at moved
  subst moved
  obtain ⟨answer, answered⟩ : ∃ answer, call.responder.answer = some answer := by
    cases kind with
    | owned =>
        obtain ⟨answer, gone⟩ := parties.callerLast rfl result at_
        exact ⟨answer, by rw [gone]; rfl⟩
    | borrowed =>
        exact Option.isSome_iff_exists.1 (parties.settled rfl (by rw [at_]; rfl) running.1)
  have dead : ({ call with caller := .returned result } : Call R).live kind = false := by
    cases kind with
    | owned =>
        obtain ⟨answer, gone⟩ := parties.callerLast rfl result at_
        simp [Call.live, gone, CallerPc.isReturned, ResponderPc.isGone]
    | borrowed => rfl
  refine inv.destroys found rfl live dead ?_
    (parties.decided (by rw [at_]; rfl) rfl (by rw [at_]; rfl) (by rw [at_]; cases result <;> rfl)
      fun _ _ ends => by cases ends)
  rw [cell]
  exact Call.drops_of_destroy answered (by rw [at_]; rfl) answered rfl dead

/-- A `Responder` that has not touched the cell changes hands or is called. -/
theorem responderQuiet {pc : ResponderPc R} (inv : AskInv kind s) (found : s.calls[c]? = some call)
    (before : call.responder.untouched = true) (after : pc.untouched = true) :
    AskInv kind (s.setResponder c call pc) := by
  obtain ⟨here, holds, unanswered, fresh⟩ := ResponderPc.of_untouched before
  obtain ⟨here', holds', unanswered', fresh'⟩ := ResponderPc.of_untouched after
  have parties := (inv.calls c call found).parties
  have live := live_of_unanswered parties here unanswered
  have parties' := parties.respond unanswered here here' fun answer last => by
    rw [last] at unanswered'
    cases unanswered'
  have live' : ({ call with responder := pc } : Call R).live kind = true :=
    live_of_unanswered parties' here' unanswered'
  refine inv.quiet found rfl (live'.trans live.symm) ?_ ?_
    (by rw [Call.drops_of_live live, Call.drops_of_live live']) parties'
  · simp only [Call.holders, holds, holds']
  · rw [fresh c call rfl, fresh' c { call with responder := pc } rfl]

theorem callerStep {move : CallerMove} (inv : AskInv kind s) (found : s.calls[c]? = some call)
    (settles : Settles kind s (.caller c move)) (moved : s.callerStep kind c call move = some t) :
    AskInv kind t := by
  have parties := (inv.calls c call found).parties
  have whole := moved
  unfold Asks.callerStep at moved
  split at moved
  · rename_i at_
    cases moved
    exact inv.early found (by rw [at_]; rfl) rfl nofun
  · rename_i at_
    cases moved
    exact inv.early found (by rw [at_]; rfl) rfl nofun
  · rename_i at_
    cases moved
    exact inv.early found (by rw [at_]; rfl) rfl nofun
  · rename_i at_
    split at moved
    · rename_i inMessage
      cases moved
      have dropping : AskInv kind (s.setResponder c call .abandoning) :=
        inv.responderQuiet found (by rw [inMessage]; rfl) rfl
      have inside : c < s.calls.length := (List.getElem?_eq_some_iff.1 found).1
      have found' : (s.setResponder c call .abandoning).calls[c]? =
          some { call with responder := .abandoning } := by
        simp [Asks.setResponder, inside]
      have next : AskInv kind ((s.setResponder c call .abandoning).setCaller c
          { call with responder := .abandoning } .droppingMessage) :=
        dropping.early found' (by rw [at_]; rfl) rfl nofun
      simpa [Asks.setCaller, Asks.setResponder, List.set_set] using next
    · rename_i elsewhere
      cases moved
      refine inv.fails found (by rw [at_]; rfl) (by decide) nofun fun borrowed => ?_
      have secured := settles borrowed call found (by rw [at_]; rfl)
      cases responder : call.responder with
      | held inMessage =>
          rw [responder] at secured
          cases secured
          exact absurd responder elsewhere
      | _ => rwa [responder] at secured
  · rename_i at_
    split at moved
    · rename_i answer gone
      cases moved
      exact inv.fails found (by rw [at_]; rfl) (by decide) nofun fun _ => by rw [gone]; rfl
    · cases moved
  · rename_i at_
    exact inv.polls found at_ whole
  · rename_i expired at_
    have owned : kind ≠ .borrowed := fun borrowed => parties.patient borrowed at_
    cases moved
    cases expired with
    | true =>
        exact inv.fails found (by rw [at_]; rfl) (by decide) nofun
          fun borrowed => absurd borrowed owned
    | false => exact inv.early found (by rw [at_]; rfl) rfl nofun
  · rename_i at_
    exact inv.takes found at_ whole
  · rename_i content at_
    exact inv.consumes found at_ whole
  · rename_i result at_
    exact inv.leaves found at_ whole
  · rename_i result at_
    exact inv.callerDestroys found at_ whole
  · cases moved

/-- The `Responder` stores to the cell before its hold on it ends. -/
theorem responds {block : Block R} {cell : ReplyCell (Reply R)} {pc : ResponderPc R}
    (inv : AskInv kind s) (found : s.calls[c]? = some call) (here : call.responder ≠ .absent)
    (unanswered : call.responder.answer = none) (holds : call.responder.holds = true)
    (holds' : pc.holds = true) (strong : block.strong = call.holders kind)
    (contents : cell = ({ call with responder := pc } : Call R).cell c) :
    AskInv kind ((s.store call.addr { block with cell := cell }).setResponder c call pc) := by
  have parties := (inv.calls c call found).parties
  have live := live_of_unanswered parties here unanswered
  have live' : ({ call with responder := pc } : Call R).live kind = true := by
    cases kind with
    | owned =>
        have there : pc.isGone = false := by
          cases pc <;> simp_all [ResponderPc.holds, ResponderPc.isGone]
        simp [Call.live, there]
    | borrowed => exact live
  refine inv.stores found rfl live live' ?_ contents (parties.respond unanswered here ?_ ?_)
  · rw [strong]
    simp only [Call.holders, holds, holds']
  · rintro rfl
    cases holds'
  · rintro answer rfl
    cases holds'

/-- Until the `Responder` is consumed the caller has consumed nothing. -/
theorem unconsumed_of_unanswered (inv : AskInv kind s) (found : s.calls[c]? = some call)
    (unanswered : call.responder.answer = none) : call.caller.consumed = false := by
  cases consumed : call.caller.consumed with
  | false => rfl
  | true =>
      obtain ⟨content, out⟩ := CallerPc.content_of_consumed consumed
      obtain ⟨value, answer, -⟩ := (inv.calls c call found).parties.content content out
      rw [unanswered] at answer
      cases answer

/-- The `Responder` gives up its hold. -/
theorem releases {answer : Option R} (inv : AskInv kind s) (found : s.calls[c]? = some call)
    (at_ : call.responder = .releasing answer)
    (moved : s.responderStep kind c call .next = some t) : AskInv kind t := by
  have parties := (inv.calls c call found).parties
  have here : call.responder ≠ .absent := by simp [at_]
  have same : ∀ pc : ResponderPc R, pc.answer = some answer →
      pc.answer = call.responder.answer := by
    intro pc answered
    rw [answered, at_]
    rfl
  have contents : ∀ pc : ResponderPc R, pc.answer = some answer →
      ({ call with responder := pc } : Call R).cell c = call.cell c := by
    intro pc answered
    have before : call.responder.answer = some answer := by rw [at_]; rfl
    cases answer with
    | none => rw [Call.cell_of_drop answered, Call.cell_of_drop before]
    | some value => rw [Call.cell_of_reply answered, Call.cell_of_reply before]
  cases kind with
  | owned =>
      have live : call.live .owned = true := by simp [Call.live, at_, ResponderPc.isGone]
      have first : ∀ result, call.caller ≠ .destroying result := by
        intro result destroying
        obtain ⟨answer, gone⟩ := parties.callerLast rfl result destroying
        rw [at_] at gone
        cases gone
      obtain ⟨block, there, access, strong, cell⟩ := inv.access_of_live found live
      simp only [Asks.responderStep, at_, access, Option.some.injEq] at moved
      subst moved
      rw [Call.holders, at_] at strong
      simp only [ResponderPc.holds, Bool.toNat_true] at strong
      by_cases last : block.strong = 1
      · have released : call.caller.holds = false := by
          cases held : call.caller.holds with
          | true => rw [held] at strong; simp at strong; omega
          | false => rfl
        have returned : call.caller.isReturned = true := by
          cases caller : call.caller with
          | returned result => rfl
          | destroying result => exact absurd caller (first result)
          | _ => simp [caller, CallerPc.holds] at released
        rw [if_pos last]
        refine inv.stores found rfl live ?_ ?_ (cell.trans (contents _ rfl).symm)
          (parties.release (by simp) here (same _ rfl) (fun _ => first) fun _ _ => ⟨rfl, returned⟩)
        · simp [Call.live, ResponderPc.isGone]
        · simp only [last, Call.holders, released]
          rfl
      · have held : call.caller.holds = true := by
          cases held : call.caller.holds with
          | true => rfl
          | false => rw [held] at strong; simp at strong; omega
        rw [if_neg last]
        refine inv.stores found rfl live (live_of_holds .owned held) ?_
          (cell.trans (contents _ rfl).symm)
          (parties.release (by simp) here (same _ rfl) (fun _ => first) fun _ ends => by cases ends)
        simp only [strong, Call.holders, held]
        rfl
  | borrowed =>
      simp only [Asks.responderStep, at_, Option.some.injEq] at moved
      subst moved
      refine inv.quiet found rfl rfl rfl (contents _ rfl) ?_
        (parties.release (by simp) here (same _ rfl) (fun owned => by cases owned)
          fun _ ends => by cases ends)
      simp only [Call.drops, at_]
      rfl

/-- The `Responder` runs `ReplyCell::drop`. -/
theorem responderDestroys {answer : Option R} (inv : AskInv kind s)
    (found : s.calls[c]? = some call) (at_ : call.responder = .destroying answer)
    (moved : s.responderStep kind c call .next = some t) : AskInv kind t := by
  have parties := (inv.calls c call found).parties
  obtain ⟨rfl, returned⟩ := parties.responderLast answer at_
  have live : call.live .owned = true := by simp [Call.live, at_, ResponderPc.isGone]
  obtain ⟨block, there, access, strong, cell⟩ := inv.access_of_live found live
  simp only [Asks.responderStep, at_, access, Option.some.injEq] at moved
  subst moved
  obtain ⟨result, decided⟩ : ∃ result, call.caller = .returned result := by
    cases caller : call.caller with
    | returned result => exact ⟨result, rfl⟩
    | _ => simp [caller, CallerPc.isReturned] at returned
  have dead : ({ call with responder := .gone answer } : Call R).live .owned = false := by
    simp [Call.live, returned, ResponderPc.isGone]
  refine inv.destroys found rfl live dead ?_ (parties.release (by simp) (by simp [at_])
    (by rw [at_]; rfl) (fun _ result destroying => ?_) fun _ ends => by cases ends)
  · rw [cell]
    exact Call.drops_of_destroy (by rw [at_]; rfl) (by rw [decided]; rfl) rfl
      (show call.caller.result = _ by rw [decided]; rfl) dead
  · rw [decided] at destroying
    cases destroying

theorem responderStep {move : ResponderMove R} (inv : AskInv kind s)
    (found : s.calls[c]? = some call) (moved : s.responderStep kind c call move = some t) :
    AskInv kind t := by
  have parties := (inv.calls c call found).parties
  have whole := moved
  -- A `Responder` that may still touch the cell finds it.
  have reach : call.responder ≠ .absent → call.responder.answer = none →
      ∃ block, (∀ use, s.access call.addr use = use block) ∧
        block.strong = call.holders kind ∧ block.cell = call.cell c := by
    intro here unanswered
    obtain ⟨block, -, access, strong, cell⟩ :=
      inv.access_of_live found (live_of_unanswered parties here unanswered)
    exact ⟨block, access, strong, cell⟩
  unfold Asks.responderStep at moved
  split at moved
  · rename_i at_
    cases moved
    exact inv.responderQuiet found (by rw [at_]; rfl) rfl
  · rename_i at_
    cases moved
    exact inv.responderQuiet found (by rw [at_]; rfl) rfl
  · rename_i at_
    cases moved
    exact inv.responderQuiet found (by rw [at_]; rfl) rfl
  · rename_i value at_
    obtain ⟨block, access, strong, cell⟩ := reach (by rw [at_]; nofun) (by rw [at_]; rfl)
    rw [access] at moved
    cases moved
    refine inv.responds found (by rw [at_]; nofun) (by rw [at_]; rfl) (by rw [at_]; rfl) rfl strong ?_
    rw [cell, Call.cell, at_]
    rfl
  · rename_i value at_
    obtain ⟨block, access, strong, cell⟩ := reach (by rw [at_]; nofun) (by rw [at_]; rfl)
    have unconsumed := inv.unconsumed_of_unanswered found (by rw [at_]; rfl)
    rw [access] at moved
    cases moved
    refine inv.responds found (by rw [at_]; nofun) (by rw [at_]; rfl) (by rw [at_]; rfl) rfl strong ?_
    rw [cell, Call.cell, at_]
    simp only [Call.cell, unconsumed]
    rfl
  · rename_i at_
    obtain ⟨block, access, strong, cell⟩ := reach (by rw [at_]; nofun) (by rw [at_]; rfl)
    have pending : block.cell.state = .pending := by
      rw [cell, Call.cell_of_unanswered (by rw [at_]; rfl)]
    rw [access, if_pos pending] at moved
    cases moved
    refine inv.responds found (by rw [at_]; nofun) (by rw [at_]; rfl) (by rw [at_]; rfl) rfl strong ?_
    rw [cell, Call.cell, at_]
    rfl
  · rename_i answer at_
    exact inv.releases found at_ whole
  · rename_i answer at_
    exact inv.responderDestroys found at_ whole
  · cases moved

theorem step {a : Act R} (inv : AskInv kind s) (settles : Settles kind s a)
    (moved : s.step kind a = some t) : AskInv kind t := by
  cases a with
  | ask addr => exact inv.ask moved
  | wouldBlock =>
      cases moved
      exact inv.wouldBlock
  | caller c move =>
      obtain ⟨call, found, moved⟩ := Option.bind_eq_some_iff.1 moved
      exact inv.callerStep found settles moved
  | responder c move =>
      obtain ⟨call, found, moved⟩ := Option.bind_eq_some_iff.1 moved
      exact inv.responderStep found moved

end AskInv

theorem AskRuns.inv {kind : Holding} {s : Asks R} (run : AskRuns kind (Settles kind) s) :
    AskInv kind s :=
  run.invariant AskInv.new fun _ _ _ inv settles moved => inv.step settles moved

end AetherFlow.Ask
