/-
Module: AetherFlow.Net.Interest
Purpose: What `epoll_reactor` asks epoll for. As long as `epoll_ctl` succeeds, a connection in the map is
  registered for `EPOLLOUT` exactly when it has bytes to send, and none is left there that is due to
  be closed; so level-triggered epoll comes back to every connection with something to do.
Trusted boundary: none
Main exports: EpollAct.ctlSucceeds, Epoll.reportsOutput, Registered, registered_of_run
-/
import AetherFlow.Net.Moves

namespace AetherFlow.Net

open Transition

/-- The `epoll_ctl` of this step, if it makes one, succeeds. -/
def EpollAct.ctlSucceeds : EpollAct → Bool
  | .accept _ _ _ _ succeeds | .event _ succeeds => succeeds
  | .load _ | .waitFailed _ | .waited _ | .batchEnds => true

/-- Level-triggered epoll reports `EPOLLOUT` for a descriptor that is registered for it as long as the
    socket has room. -/
def Epoll.reportsOutput (s : Epoll) (hasRoom : Nat → Bool) (fd : Nat) : Bool :=
  (s.interest.lookup fd).getD false && hasRoom fd

/-- Every connection in the map is registered for what it needs. -/
structure Registered (s : Epoll) : Prop where
  /-- It is registered, and for `EPOLLOUT` exactly when it has bytes to send. -/
  interest : ∀ fd conn, s.conns.lookup fd = some conn →
    ∃ wantOut, s.interest.lookup fd = some wantOut ∧ (wantOut = true ↔ conn.io.out ≠ [])
  /-- It is not one that was to be closed and has nothing more to send. -/
  not_due : ∀ fd conn, s.conns.lookup fd = some conn → ¬ (conn.io.close = true ∧ conn.io.out = [])
  /-- Epoll reports every connection that has bytes to send or is to be closed behind them. -/
  reported : ∀ fd conn, s.conns.lookup fd = some conn →
    conn.io.out ≠ [] ∨ conn.io.close = true → ∀ hasRoom : Nat → Bool, hasRoom fd = true →
      s.reportsOutput hasRoom fd = true

/-! ### What a turn leaves -/

theorem Conn.open_of_service {conn conn' : Conn} {writes : List WriteOutcome}
    (served : conn.service writes = some (conn', false)) : conn'.closingDone = false := by
  rw [service, Option.map_eq_some_iff] at served
  obtain ⟨⟨flushed, failed⟩, _, ends⟩ := served
  dsimp only at ends
  split at ends <;> cases ends
  rename_i goes_on
  exact (Bool.or_eq_false_iff.1 (Bool.not_eq_true _ ▸ goes_on)).2

/-- A connection that an event leaves in the map is not due to be closed. -/
theorem Epoll.open_of_handle {old conn : Conn} {bits : Bits} {turn : Turn}
    (done : Epoll.handle old bits turn = some (conn, false)) : conn.closingDone = false := by
  unfold Epoll.handle at done
  split at done
  · cases done
  · obtain ⟨⟨middle, removed⟩, _, rest⟩ := Option.bind_eq_some_iff.1 done
    cases removed with
    | true => cases rest
    | false => exact Conn.open_of_service rest

namespace Epoll

/-- The bookkeeping behind `Registered`: descriptors are distinct, and each connection's entry is the
    one its buffer asks for. -/
structure Kept (s : Epoll) : Prop where
  keys : (s.conns.map Prod.fst).Nodup
  interest : ∀ fd conn, s.conns.lookup fd = some conn →
    s.interest.lookup fd = some (!conn.io.out.isEmpty) ∧ conn.closingDone = false

namespace Kept

variable {s t : Epoll} {fd : Nat} {conn : Conn}

theorem start (listenFd : Nat) : Kept (.start listenFd) :=
  ⟨List.nodup_nil, fun _ _ found => by cases found⟩

theorem congr (kept : Kept s) (conns : t.conns = s.conns) (interest : t.interest = s.interest) :
    Kept t := by
  refine ⟨by rw [conns]; exact kept.keys, fun fd conn found => ?_⟩
  rw [conns] at found
  rw [interest]
  exact kept.interest fd conn found

/-- A connection is put into the map, or back into it, and registered. -/
theorem insert (kept : Kept s) (conns : t.conns = mapInsert s.conns fd conn)
    (interest : t.interest = ctl s.interest fd (!conn.io.out.isEmpty) true)
    (waits : conn.closingDone = false) : Kept t := by
  refine ⟨by rw [conns]; exact mapInsert_keys kept.keys, fun fd' conn' found => ?_⟩
  rw [conns] at found
  rw [interest, ctl, if_pos rfl]
  by_cases same : fd' = fd
  · subst same
    rw [mapInsert, List.lookup_cons_self] at found ⊢
    cases found
    exact ⟨rfl, waits⟩
  · rw [lookup_mapInsert_of_ne same] at found ⊢
    exact kept.interest fd' conn' found

/-- A connection is taken out of the map, and no longer registered. -/
theorem remove (kept : Kept s) (conns : t.conns = mapRemove s.conns fd)
    (interest : t.interest = mapRemove s.interest fd) : Kept t := by
  refine ⟨by rw [conns]; exact mapRemove_keys kept.keys, fun fd' conn' found => ?_⟩
  rw [conns] at found
  rw [interest]
  by_cases same : fd' = fd
  · subst same
    rw [lookup_mapRemove_self kept.keys] at found
    cases found
  · rw [lookup_mapRemove_of_ne same] at found ⊢
    exact kept.interest fd' conn' found

/-- Every step whose `epoll_ctl` succeeds. -/
theorem step {a : EpollAct} (kept : Kept s) (succeeds : a.ctlSucceeds = true)
    (moved : s.step a = some t) : Kept t := by
  cases a with
  | load | waitFailed | waited | batchEnds =>
      simp only [Epoll.step] at moved
      split at moved <;> cases moved
      exact kept.congr rfl rfl
  | accept outcome fd reaction writes ctl =>
      obtain rfl : ctl = true := succeeds
      simp only [Epoll.step] at moved
      split at moved
      · cases outcome with
        | interrupted | wouldBlock | failed =>
            cases moved
            exact kept.congr rfl rfl
        | stream nonblocking =>
            cases nonblocking with
            | false =>
                cases moved
                exact kept
            | true =>
                obtain ⟨_, moved⟩ := Option.ite_none_right_eq_some.1 moved
                obtain ⟨⟨conn, failed⟩, _, rfl⟩ := Option.map_eq_some_iff.1 moved
                dsimp only
                split
                · exact kept.congr rfl rfl
                · rename_i waits
                  exact kept.insert rfl rfl (Bool.not_eq_true _ ▸ waits)
      · cases moved
  | event turn ctl =>
      obtain rfl : ctl = true := succeeds
      simp only [Epoll.step] at moved
      split at moved
      · split at moved
        · cases moved
          exact kept.congr rfl rfl
        · split at moved
          · obtain ⟨⟨conn, remove⟩, done, rfl⟩ := Option.map_eq_some_iff.1 moved
            cases remove with
            | true => exact kept.remove rfl rfl
            | false => exact kept.insert rfl rfl (open_of_handle done)
          · cases moved
            exact kept.congr rfl rfl
      · cases moved

theorem registered (kept : Kept s) : Registered s := by
  have wants : ∀ fd conn, s.conns.lookup fd = some conn →
      ∃ wantOut, s.interest.lookup fd = some wantOut ∧ (wantOut = true ↔ conn.io.out ≠ []) := by
    intro fd conn found
    refine ⟨_, (kept.interest fd conn found).1, ?_⟩
    rw [Bool.not_eq_true', ← Bool.not_eq_true, List.isEmpty_iff]
  have not_due : ∀ fd conn, s.conns.lookup fd = some conn →
      ¬ (conn.io.close = true ∧ conn.io.out = []) := by
    rintro fd conn found ⟨close, empty⟩
    have waits := (kept.interest fd conn found).2
    simp [Conn.closingDone, close, empty] at waits
  refine ⟨wants, not_due, fun fd conn found busy hasRoom room => ?_⟩
  have pending : conn.io.out ≠ [] := by
    rcases busy with pending | close
    · exact pending
    · exact fun empty => not_due fd conn found ⟨close, empty⟩
  obtain ⟨wantOut, entry, iff⟩ := wants fd conn found
  rw [reportsOutput, entry, iff.2 pending, room]
  rfl

end Kept

end Epoll

/-- In every run of the epoll loop in which `epoll_ctl` succeeds, every connection in the map is
    registered for what it needs. -/
theorem registered_of_run {s : Epoll} {listenFd : Nat}
    (run : Reach Epoll.step (fun _ a => a.ctlSucceeds = true) (.start listenFd) s) : Registered s :=
  (run.invariant (.start listenFd) fun _ _ _ kept succeeds moved =>
    Epoll.Kept.step kept succeeds moved).registered

/-- A connection whose greeting is written in part, one that answers with what its socket does not take,
    and one whose answer is taken; the first was closed by its handler. -/
def partlyFlushed : List EpollAct :=
  [.load false, .waited [(3, ⟨true, false, false, false⟩)], .event ⟨.wouldBlock, [], []⟩ true,
    .accept (.stream true) 4 [.write [1, 2], .close] [.ok 1, .wouldBlock] true,
    .accept (.stream true) 5 [] [] true, .accept (.stream true) 6 [] [] true,
    .accept .wouldBlock 0 [] [] true, .batchEnds, .load false,
    .waited [(5, ⟨true, false, false, false⟩), (6, ⟨true, false, false, false⟩)],
    .event ⟨.ok [9], [.write [9]], [.wouldBlock]⟩ true,
    .event ⟨.ok [9], [.write [9]], [.ok 1]⟩ true]

theorem registered_partlyFlushed :
    ∃ s, execChecked Epoll.step (fun _ a => a.ctlSucceeds = true) (.start 3) partlyFlushed = some s ∧
      s.conns.map Prod.fst = [6, 5, 4] ∧
      s.interest = [(6, false), (5, true), (4, true), (3, false)] ∧ Registered s := by
  obtain ⟨s, executed, conns, interest⟩ : ∃ s,
      execChecked Epoll.step (fun _ a => a.ctlSucceeds = true) (.start 3) partlyFlushed = some s ∧
        s.conns.map Prod.fst = [6, 5, 4] ∧
        s.interest = [(6, false), (5, true), (4, true), (3, false)] := ⟨_, rfl, rfl, rfl⟩
  exact ⟨s, executed, conns, interest, registered_of_run (reach_of_execChecked executed)⟩

end AetherFlow.Net
