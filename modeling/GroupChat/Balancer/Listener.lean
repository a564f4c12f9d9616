import GroupChat.Lib.Transition
import Mathlib.Tactic.Ring

/-!
# The bounded listener

`boundedListener.Accept` counts a new connection first and looks at the count afterwards: a
connection that is one too many is uncounted again, closed, and the loop goes on to the next one.
The others are wrapped, so that the first `Close` lowers the counter, whoever calls it and however
often it is called afterwards.

`Listener.next` has the steps of the one goroutine that accepts and of the calls of `Close`, which
may come between any two of them.  A step is an access to the counter, or one that changes what the
loop is about.  A connection is handed out as soon as it has passed the check, since all that is
left to `Accept` is to return it; it is closed when its `once` is done.

While a connection is being rejected it is counted, though it is not one of those that are open.
There is only one loop, so at most one connection is in that state (`Listener.Balanced`), and when
the next one is counted it is not in it any more: the check is exact (`Listener.admission_exact`).
-/

set_option autoImplicit false

namespace GroupChat
namespace Balancer
namespace Listener

open Transition

/-! ## The listener, step by step

The counter is atomic and `Close` may be called by anybody, so each access to it is a step.
Between counting a connection and looking at the count there can be any number of calls of
`Close`. -/

/-- Where the loop of `Accept` stands. -/
inductive Loop
  /-- Waiting for a connection, or not called. -/
  | waiting
  /-- There is a connection, which is not counted yet. -/
  | accepted
  /-- The connection was one too many; it is still counted. -/
  | rejecting
  /-- It is not counted any more, but not closed yet. -/
  | closing
  /-- The connection has passed; it is wrapped and returned. -/
  | returning
  deriving DecidableEq

/-- The counter of the listener, its loop, and the connections that it has handed out. -/
structure State where
  activeConns : ℤ
  loop : Loop
  /-- Is the `once` of the connection done? -/
  conns : List Bool

inductive Event
  /-- A connection comes in. -/
  | accept
  /-- `l.Listener.Accept` returns an error, and so does `Accept`. -/
  | fail
  /-- The connection is counted, and the count is compared with the limit. -/
  | count
  /-- The connection that is rejected is not counted any more. -/
  | uncount
  /-- It is closed. -/
  | drop
  /-- The connection that has passed is returned. -/
  | handOut
  /-- `trackedConn.Close` of a connection that has been returned. -/
  | close (i : ℕ)
  deriving DecidableEq

/-- The number of the connections that can be closed: the one that `Accept` has not returned yet is
known to nobody. -/
def State.returned (s : State) : ℕ :=
  if s.loop = .returning then s.conns.length - 1 else s.conns.length

/-- One step. -/
def next (maxConns : ℤ) (s : State) : Event → Option State
  | .accept => if s.loop = .waiting then some { s with loop := .accepted } else none
  | .fail => if s.loop = .waiting then some s else none
  | .count =>
    if s.loop = .accepted then
      let cur := s.activeConns + 1
      if cur > maxConns then some { s with activeConns := cur, loop := .rejecting }
      else some { activeConns := cur, loop := .returning, conns := s.conns ++ [false] }
    else none
  | .uncount =>
    if s.loop = .rejecting then
      some { s with activeConns := s.activeConns - 1, loop := .closing }
    else none
  | .drop => if s.loop = .closing then some { s with loop := .waiting } else none
  | .handOut => if s.loop = .returning then some { s with loop := .waiting } else none
  | .close i =>
    if i < s.returned then
      if s.conns[i]? = some false then
        some { s with activeConns := s.activeConns - 1, conns := s.conns.set i true }
      else some s
    else none

/-- A new listener. -/
def initial : State := ⟨0, .waiting, []⟩

/-- The listener, with whoever uses its connections. -/
def system (maxConns : ℤ) : System State Event := .ofFun (· = initial) (next maxConns)

/-- The connections that have been handed out and not been closed. -/
def State.openConns (s : State) : ℕ := s.conns.countP fun done ↦ !done

/-- A rejection is in progress: the connection is counted, but will not be handed out. -/
def State.Rejecting (s : State) : Prop := s.loop = .rejecting

/-! ## The invariant

The counter is the number of the open connections, and one more while the loop is about to reject.
The check sees the counter, so it is exact only because there is one loop. -/

/-- **The invariant.**  The counter has the open connections, and the one that is being
rejected. -/
structure Balanced (maxConns : ℤ) (s : State) : Prop where
  count : s.activeConns = s.openConns + if s.loop = .rejecting then 1 else 0
  bound : (s.openConns : ℤ) ≤ maxConns

theorem balanced_initial {maxConns : ℤ} (h : 0 ≤ maxConns) : Balanced maxConns initial := ⟨rfl, h⟩

/-- The loop moves on without touching the counter. -/
theorem Balanced.move {maxConns : ℤ} {s : State} (h : Balanced maxConns s) {loop : Loop}
    (hold : s.loop ≠ .rejecting) (hnew : loop ≠ .rejecting) :
    Balanced maxConns { s with loop := loop } := by
  have hcount := h.count
  rw [if_neg hold] at hcount
  exact ⟨by rw [if_neg hnew]; exact hcount, h.bound⟩

theorem openConns_handOut (s : State) :
    (s.conns ++ [false]).countP (fun done ↦ !done) = s.openConns + 1 := by
  rw [List.countP_append]
  rfl

/-- The first `Close` of a connection. -/
theorem openConns_close {s : State} {i : ℕ} (hi : s.conns[i]? = some false) :
    ((s.conns.set i true).countP (fun done ↦ !done) : ℤ) = s.openConns - 1 := by
  have hset := countP_set (p := fun done ↦ !done) hi true
  simpa [State.openConns] using hset

/-! ## Every step

The loop counts, looks, takes back or hands out, and a connection is closed; for each of these the
equation between counter and connections is checked. -/

theorem Balanced.next {maxConns : ℤ} {s s' : State} {a : Event} (h : Balanced maxConns s)
    (hs : next maxConns s a = some s') : Balanced maxConns s' := by
  have hcount := h.count
  have hbound := h.bound
  cases a with
  | accept =>
    simp only [Listener.next, Option.ite_none_right_eq_some, Option.some.injEq] at hs
    obtain ⟨hloop, rfl⟩ := hs
    exact h.move (by simp [hloop]) (by simp)
  | fail =>
    simp only [Listener.next, Option.ite_none_right_eq_some, Option.some.injEq] at hs
    exact hs.2 ▸ h
  | count =>
    simp only [Listener.next, Option.ite_none_right_eq_some] at hs
    obtain ⟨hloop, hs⟩ := hs
    rw [hloop, if_neg (by simp), add_zero] at hcount
    split at hs
    · obtain rfl := Option.some.inj hs
      exact ⟨by rw [hcount, if_pos rfl]; rfl, hbound⟩
    · rename_i hle
      obtain rfl := Option.some.inj hs
      constructor
      · rw [if_neg (by simp), State.openConns, openConns_handOut, hcount]
        simp
      · rw [State.openConns, openConns_handOut, Nat.cast_add, ← hcount]
        exact not_lt.mp hle
  | uncount =>
    simp only [Listener.next, Option.ite_none_right_eq_some, Option.some.injEq] at hs
    obtain ⟨hloop, rfl⟩ := hs
    rw [if_pos hloop] at hcount
    exact ⟨by rw [hcount, if_neg (by simp)]; simp [State.openConns], hbound⟩
  | drop =>
    simp only [Listener.next, Option.ite_none_right_eq_some, Option.some.injEq] at hs
    obtain ⟨hloop, rfl⟩ := hs
    exact h.move (by simp [hloop]) (by simp)
  | handOut =>
    simp only [Listener.next, Option.ite_none_right_eq_some, Option.some.injEq] at hs
    obtain ⟨hloop, rfl⟩ := hs
    exact h.move (by simp [hloop]) (by simp)
  | close i =>
    simp only [Listener.next, Option.ite_none_right_eq_some] at hs
    obtain ⟨-, hs⟩ := hs
    split at hs
    · rename_i hi
      obtain rfl := Option.some.inj hs
      have hclose := openConns_close hi
      constructor
      · show s.activeConns - 1 = ((s.conns.set i true).countP (fun done ↦ !done) : ℤ) + _
        rw [hclose, hcount]
        ring
      · show ((s.conns.set i true).countP (fun done ↦ !done) : ℤ) ≤ maxConns
        omega
    · exact Option.some.inj hs ▸ h

theorem balanced_of_reachable {maxConns : ℤ} (hmax : 0 ≤ maxConns) {s : State}
    (h : (system maxConns).Reachable s) : Balanced maxConns s := by
  refine h.invariant ?_ fun s a s' hs hstep ↦ hs.next hstep
  rintro s rfl
  exact balanced_initial hmax

/-- **Admission is exact.**  There are never more open connections than allowed; a connection is
rejected if and only if as many as allowed are open when it is counted; and as long as no rejection
is in progress the counter is the number of open connections. -/
theorem admission_exact (maxConns : ℤ) (hmax : 0 ≤ maxConns) {s : State}
    (h : (system maxConns).Reachable s) :
    (s.openConns : ℤ) ≤ maxConns ∧
      (∀ s', next maxConns s .count = some s' → (s'.Rejecting ↔ (s.openConns : ℤ) = maxConns)) ∧
      (¬s.Rejecting → s.activeConns = s.openConns) := by
  have hs := balanced_of_reachable hmax h
  have hcount := hs.count
  have hbound := hs.bound
  refine ⟨hbound, fun s' hnext ↦ ?_, fun hloop ↦ ?_⟩
  · simp only [next, Option.ite_none_right_eq_some] at hnext
    obtain ⟨hloop, hnext⟩ := hnext
    rw [hloop, if_neg (by simp), add_zero] at hcount
    split at hnext
    · obtain rfl := Option.some.inj hnext
      exact iff_of_true rfl (by omega)
    · obtain rfl := Option.some.inj hnext
      exact iff_of_false (by simp [State.Rejecting]) (by omega)
  · rw [hcount, if_neg (show ¬s.loop = .rejecting from hloop), add_zero]

/-- Three connections come in, and one is allowed.  The first one passes and is closed twice, but
only after the second one has been counted. -/
def threeConnections : List Event :=
  [.accept, .count, .handOut, .accept, .count, .close 0, .close 0, .uncount, .drop, .accept]

theorem admission_threeConnections : ∃ s, (system 1).Reachable s ∧ s.activeConns = 0 ∧
    s.openConns = 0 ∧ ∃ s', next 1 s .count = some s' ∧ ¬s'.Rejecting := by
  have hrun : (System.exec (next 1) initial threeConnections).map
      (fun s ↦ (s.activeConns, s.loop, s.conns)) = some (0, .accepted, [true]) := by decide
  obtain ⟨⟨activeConns, loop, conns⟩, hs, hres⟩ := Option.map_eq_some_iff.mp hrun
  obtain ⟨rfl, rfl, rfl⟩ : activeConns = 0 ∧ loop = .accepted ∧ conns = [true] := by
    simpa using hres
  have hreach : (system 1).Reachable ⟨0, .accepted, [true]⟩ := System.reachable_of_exec rfl hs
  obtain ⟨-, hexact, -⟩ := admission_exact 1 (by decide) hreach
  refine ⟨_, hreach, rfl, rfl, _, rfl, ?_⟩
  exact fun hrej ↦ absurd ((hexact _ rfl).mp hrej) (by decide)

end Listener
end Balancer
end GroupChat
