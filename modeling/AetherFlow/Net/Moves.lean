/-
Module: AetherFlow.Net.Moves
Purpose: What a step of a reactor does to its connections, said once for both reactors. A step leaves the
  connections alone, takes in a new one, turns one away, keeps one that it has served, or drops one;
  the connection that comes out of it is the result of `service`, of the body of the reading loop or
  of the handling of an event.
Trusted boundary: none
Main exports: Effect, Effect.forall_mem, Effect.dropped_cases, Scan.visited,
  Scan.effect_of_step, Epoll.live, Epoll.handled, Epoll.effect_of_step
-/
import AetherFlow.Net.Reactor

namespace AetherFlow.Net

open AetherFlow.System (swapRemove swapRemove_perm)

/-! ### What becomes of the connections -/

/-- The connections that are held and those that were dropped, before a step and after it. `opens` is
    what a new connection may come to, `turns` what may become of a connection that is held; the flag
    says whether it is dropped. -/
inductive Effect (opens : Conn → Bool → Prop) (turns : Conn → Conn → Bool → Prop)
    (live dropped : List Conn) (accepted : Nat) : List Conn → List Conn → Nat → Prop where
  | same : Effect opens turns live dropped accepted live dropped accepted
  | comeIn {conn : Conn} {live' : List Conn} (opened : opens conn false)
      (after : live'.Perm (conn :: live)) :
      Effect opens turns live dropped accepted live' dropped (accepted + 1)
  | reject {conn : Conn} (opened : opens conn true) :
      Effect opens turns live dropped accepted live (conn :: dropped) (accepted + 1)
  | keep {old conn : Conn} {rest live' : List Conn} (turned : turns old conn false)
      (before : live.Perm (old :: rest)) (after : live'.Perm (conn :: rest)) :
      Effect opens turns live dropped accepted live' dropped accepted
  | drop {old conn : Conn} {rest live' : List Conn} (turned : turns old conn true)
      (before : live.Perm (old :: rest)) (after : live'.Perm rest) :
      Effect opens turns live dropped accepted live' (conn :: dropped) accepted

/-- What holds of every new connection and is kept in every turn holds of all. -/
theorem Effect.forall_mem {opens : Conn → Bool → Prop} {turns : Conn → Conn → Bool → Prop}
    {live dropped live' dropped' : List Conn} {accepted accepted' : Nat} {P : Conn → Prop}
    (effect : Effect opens turns live dropped accepted live' dropped' accepted')
    (initially : ∀ conn remove, opens conn remove → P conn)
    (keeps : ∀ old conn remove, P old → turns old conn remove → P conn)
    (before : ∀ c ∈ live ++ dropped, P c) : ∀ c ∈ live' ++ dropped', P c := by
  rw [List.forall_mem_append] at before ⊢
  obtain ⟨held, gone⟩ := before
  cases effect with
  | same => exact ⟨held, gone⟩
  | comeIn opened after =>
      refine ⟨fun c member => ?_, gone⟩
      rcases List.mem_cons.1 (after.mem_iff.1 member) with rfl | member
      · exact initially _ _ opened
      · exact held c member
  | reject opened => exact ⟨held, List.forall_mem_cons.2 ⟨initially _ _ opened, gone⟩⟩
  | keep turned split after =>
      refine ⟨fun c member => ?_, gone⟩
      rcases List.mem_cons.1 (after.mem_iff.1 member) with rfl | member
      · exact keeps _ _ _ (held _ (split.mem_iff.2 List.mem_cons_self)) turned
      · exact held c (split.mem_iff.2 (List.mem_cons_of_mem _ member))
  | drop turned split after =>
      constructor
      · intro c member
        exact held c (split.mem_iff.2 (List.mem_cons_of_mem _ (after.mem_iff.1 member)))
      · refine List.forall_mem_cons.2 ⟨?_, gone⟩
        exact keeps _ _ _ (held _ (split.mem_iff.2 List.mem_cons_self)) turned

/-- A step drops one connection at most. -/
theorem Effect.dropped_cases {opens : Conn → Bool → Prop} {turns : Conn → Conn → Bool → Prop}
    {live dropped live' dropped' : List Conn} {accepted accepted' : Nat}
    (effect : Effect opens turns live dropped accepted live' dropped' accepted') :
    dropped' = dropped ∨
      ∃ conn, dropped' = conn :: dropped ∧ (opens conn true ∨ ∃ old, turns old conn true) := by
  cases effect with
  | same | comeIn | keep => exact .inl rfl
  | reject opened => exact .inr ⟨_, rfl, .inl opened⟩
  | drop turned => exact .inr ⟨_, rfl, .inr ⟨_, turned⟩⟩

/-! ### `scan_reactor` -/

namespace Scan

/-- The connection that the reading loop is about to look at. -/
def visited (s : Scan) : Option Conn :=
  match s.pc with
  | .pass i => s.conns[i]?
  | _ => none

/-- What a new connection comes to in the step `a`. -/
def Opens (s : Scan) (a : ScanAct) (conn : Conn) (remove : Bool) : Prop :=
  ∃ reaction writes, a = .accept (.stream true) reaction writes ∧
    ((Conn.new s.accepted).callback .onOpen reaction).service writes = some (conn, remove)

/-- What becomes of the connection that is looked at in the step `a`. -/
def Turns (s : Scan) (a : ScanAct) (old conn : Conn) (remove : Bool) : Prop :=
  ∃ turn, a = .visit turn ∧ s.visited = some old ∧ read old turn = some (conn, remove)

theorem effect_of_step {s t : Scan} {a : ScanAct} (moved : s.step a = some t) :
    Effect (s.Opens a) (s.Turns a) s.conns s.dropped s.accepted t.conns t.dropped t.accepted := by
  cases a with
  | load stop =>
      simp only [step] at moved
      split at moved <;> cases moved
      exact .same
  | accept outcome reaction writes =>
      simp only [step] at moved
      split at moved
      · cases outcome with
        | interrupted | wouldBlock | failed =>
            cases moved
            exact .same
        | stream nonblocking =>
            cases nonblocking with
            | false =>
                cases moved
                exact .same
            | true =>
                obtain ⟨⟨conn, remove⟩, served, rfl⟩ := Option.map_eq_some_iff.1 moved
                have opened : s.Opens (.accept (.stream true) reaction writes) conn remove :=
                  ⟨reaction, writes, rfl, served⟩
                cases remove with
                | true => exact .reject opened
                | false => exact .comeIn opened (List.perm_append_singleton _ _)
      · cases moved
  | visit turn =>
      simp only [step] at moved
      split at moved
      · rename_i i stands
        split at moved
        · rename_i old found
          obtain ⟨⟨conn, remove⟩, done, rfl⟩ := Option.map_eq_some_iff.1 moved
          have turned : s.Turns (.visit turn) old conn remove :=
            ⟨turn, rfl, by rw [visited, stands]; exact found, done⟩
          obtain ⟨inside, rfl⟩ := List.getElem?_eq_some_iff.1 found
          have before := (List.getElem_cons_eraseIdx_perm inside).symm
          cases remove with
          | true => exact .drop turned before (swapRemove_perm inside)
          | false => exact .keep turned before (List.set_perm_cons_eraseIdx inside conn)
        · cases moved
      · cases moved
  | passEnds =>
      simp only [step] at moved
      split at moved
      · obtain ⟨_, rfl⟩ := Transition.guarded moved
        exact .same
      · cases moved

end Scan

/-! ### `epoll_reactor` -/

theorem lookup_perm {β : Type*} {m : List (Nat × β)} {fd : Nat} {value : β}
    (found : m.lookup fd = some value) : m.Perm ((fd, value) :: mapRemove m fd) := by
  induction m with
  | nil => cases found
  | cons entry m inductionHypothesis =>
      obtain ⟨key, stored⟩ := entry
      by_cases here : fd = key
      · subst here
        rw [List.lookup_cons_self] at found
        cases found
        rw [mapRemove, List.eraseP_cons_of_pos (by simp)]
      · have apart : (fd == key) = false := by simpa using here
        have apart' : (key == fd) = false := by simpa using Ne.symm here
        rw [List.lookup_cons, apart] at found
        rw [mapRemove, List.eraseP_cons_of_neg (by simp [apart'])]
        exact ((inductionHypothesis found).cons _).trans (.swap _ _ _)

theorem mapRemove_of_lookup_eq_none {β : Type*} {m : List (Nat × β)} {fd : Nat}
    (absent : m.lookup fd = none) : mapRemove m fd = m := by
  refine List.eraseP_of_forall_not fun entry member => ?_
  have apart := List.lookup_eq_none_iff.1 absent entry member
  rw [bne_iff_ne] at apart
  simpa using apart.symm

theorem lookup_mapRemove_of_ne {β : Type*} {m : List (Nat × β)} {fd fd' : Nat} (apart : fd' ≠ fd) :
    (mapRemove m fd).lookup fd' = m.lookup fd' := by
  induction m with
  | nil => rfl
  | cons entry m inductionHypothesis =>
      obtain ⟨key, value⟩ := entry
      by_cases here : key = fd
      · have differs : (fd' == key) = false := by simpa [here] using apart
        rw [mapRemove, List.eraseP_cons_of_pos (by simpa using here), List.lookup_cons, differs]
      · rw [mapRemove, List.eraseP_cons_of_neg (by simpa using here), List.lookup_cons,
          List.lookup_cons]
        cases fd' == key with
        | true => rfl
        | false => exact inductionHypothesis

theorem lookup_mapInsert_of_ne {β : Type*} {m : List (Nat × β)} {fd fd' : Nat} {value : β}
    (apart : fd' ≠ fd) : (mapInsert m fd value).lookup fd' = m.lookup fd' := by
  have differs : (fd' == fd) = false := by simpa using apart
  rw [mapInsert, List.lookup_cons, differs]
  exact lookup_mapRemove_of_ne apart

/-- A descriptor that was there once is gone when it is removed. -/
theorem lookup_mapRemove_self {β : Type*} {m : List (Nat × β)} {fd : Nat}
    (keys : (m.map Prod.fst).Nodup) : (mapRemove m fd).lookup fd = none := by
  rw [List.lookup_eq_none_iff]
  intro entry member
  rw [bne_iff_ne]
  rintro rfl
  cases found : m.lookup entry.1 with
  | none =>
      rw [mapRemove_of_lookup_eq_none found] at member
      have apart := List.lookup_eq_none_iff.1 found entry member
      simp at apart
  | some value =>
      have split := ((lookup_perm found).map Prod.fst).nodup_iff.1 keys
      exact (List.nodup_cons.1 split).1 (List.mem_map.2 ⟨entry, member, rfl⟩)

theorem mapRemove_keys {β : Type*} {m : List (Nat × β)} {fd : Nat}
    (keys : (m.map Prod.fst).Nodup) : ((mapRemove m fd).map Prod.fst).Nodup :=
  keys.sublist (List.eraseP_sublist.map _)

theorem mapInsert_keys {β : Type*} {m : List (Nat × β)} {fd : Nat} {value : β}
    (keys : (m.map Prod.fst).Nodup) : ((mapInsert m fd value).map Prod.fst).Nodup := by
  refine List.nodup_cons.2 ⟨fun member => ?_, mapRemove_keys keys⟩
  obtain ⟨entry, there, rfl⟩ := List.mem_map.1 member
  have apart := List.lookup_eq_none_iff.1 (lookup_mapRemove_self keys) entry there
  simp at apart

namespace Epoll

/-- The connections in the map. -/
def live (s : Epoll) : List Conn := s.conns.map Prod.snd

/-- The connection a step of `epoll_reactor` handles, with the bits of its event. -/
def handled (s : Epoll) : EpollAct → Option (Conn × Bits × Turn)
  | .event turn _ =>
      match s.pc with
      | .batch ((fd, bits) :: _) =>
          if fd = s.listenFd then none
          else (s.conns.lookup fd).map fun conn => (conn, bits, turn)
      | _ => none
  | _ => none

/-- The event of a step that handles a connection. -/
theorem event_of_handled {s : Epoll} {a : EpollAct} {conn : Conn} {bits : Bits} {turn : Turn}
    (found : s.handled a = some (conn, bits, turn)) :
    ∃ succeeds fd events, a = .event turn succeeds ∧ s.pc = .batch ((fd, bits) :: events) ∧
      fd ≠ s.listenFd ∧ s.conns.lookup fd = some conn := by
  cases a with
  | load | waitFailed | waited | accept | batchEnds => cases found
  | event turn' succeeds =>
      simp only [handled] at found
      split at found
      · rename_i fd bits' events stands
        split at found
        · cases found
        · rename_i other
          obtain ⟨conn', lookup, same⟩ := Option.map_eq_some_iff.1 found
          cases same
          exact ⟨succeeds, fd, events, rfl, stands, other, lookup⟩
      · cases found

/-- What a new connection comes to in the step `a`; an error of its flush is ignored. -/
def Opens (s : Epoll) (a : EpollAct) (conn : Conn) (remove : Bool) : Prop :=
  ∃ fd reaction writes succeeds opened failed,
    a = .accept (.stream true) fd reaction writes succeeds ∧
      ((Conn.new s.accepted).callback .onOpen reaction).tryFlush writes = some (opened, failed) ∧
      remove = opened.closingDone ∧ conn = if opened.closingDone then opened.onClose else opened

/-- What becomes of the connection that is handled in the step `a`. -/
def Turns (s : Epoll) (a : EpollAct) (old conn : Conn) (remove : Bool) : Prop :=
  ∃ bits turn, s.handled a = some (old, bits, turn) ∧ handle old bits turn = some (conn, remove)

theorem effect_of_step {s t : Epoll} {a : EpollAct} (moved : s.step a = some t) :
    Effect (s.Opens a) (s.Turns a) s.live s.dropped s.accepted t.live t.dropped t.accepted := by
  cases a with
  | load | waitFailed | waited | batchEnds =>
      simp only [step] at moved
      split at moved <;> cases moved
      exact .same
  | accept outcome fd reaction writes succeeds =>
      simp only [step] at moved
      split at moved
      · cases outcome with
        | interrupted | wouldBlock | failed =>
            cases moved
            exact .same
        | stream nonblocking =>
            cases nonblocking with
            | false =>
                cases moved
                exact .same
            | true =>
                obtain ⟨⟨_, fresh⟩, moved⟩ := Option.ite_none_right_eq_some.1 moved
                obtain ⟨⟨conn, failed⟩, flushed, rfl⟩ := Option.map_eq_some_iff.1 moved
                dsimp only
                split
                · rename_i done
                  exact .reject ⟨fd, reaction, writes, succeeds, conn, failed, rfl, flushed,
                    done.symm, by rw [if_pos done]⟩
                · rename_i open_
                  have opened : s.Opens (.accept (.stream true) fd reaction writes succeeds) conn
                      false :=
                    ⟨fd, reaction, writes, succeeds, conn, failed, rfl, flushed,
                      (Bool.not_eq_true _ ▸ open_).symm, by rw [if_neg open_]⟩
                  refine .comeIn opened ?_
                  rw [live, mapInsert, mapRemove_of_lookup_eq_none fresh]
                  exact .refl _
      · cases moved
  | event turn succeeds =>
      simp only [step] at moved
      split at moved
      · rename_i fd bits events stands
        split at moved
        · cases moved
          exact .same
        · rename_i other
          split at moved
          · rename_i old found
            obtain ⟨⟨conn, remove⟩, done, rfl⟩ := Option.map_eq_some_iff.1 moved
            have turned : s.Turns (.event turn succeeds) old conn remove :=
              ⟨bits, turn, by simp only [handled, stands, if_neg other, found, Option.map_some], done⟩
            have before := (lookup_perm found).map Prod.snd
            cases remove with
            | true => exact .drop turned before (.refl _)
            | false => exact .keep turned before (.refl _)
          · cases moved
            exact .same
      · cases moved

end Epoll

end AetherFlow.Net
