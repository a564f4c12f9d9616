import GroupChat.Balancer.Serve

/-!
# Every request is answered

The balancer has no list of the requests it is working on; it has counters, and each call of
`ServeHTTP` finds its own way out.  This file says that the counters account for all requests, and
that no request can be left over, whatever the others do.

* `Event.answers`: the event that decides a request.  It is answered by the balancer itself, shed,
  finds no backend, or comes back from its proxy, which may have panicked.
* `accounts`: after any run each request that has been counted is open or has been decided, and by
  one event only; the requests that were dropped and the errors are counted once each as well.
* `State.work`: what the handlers have still to do, at most five steps each.
* `drains`: without new requests there are no more steps than that, and a balancer in which nothing
  can be done has ended all its handlers and has all its slots back.
-/

set_option autoImplicit false

namespace GroupChat
namespace Balancer

open Transition

universe u

namespace Serve

variable {ι : Type u} [DecidableEq ι]

/-! ## Accounts

The counters are compared with the run, event by event.  A request that is being handled is open,
and an event takes it out of the open ones exactly when it counts it elsewhere. -/

/-- Does the event decide a request? -/
def Event.answers (cfg : Config ι) (s : State ι) : Event ι → ℕ
  | .route i =>
    match s.handlers[i]? with
    | some (.arrived r) => if r.builtin then 1 else 0
    | _ => 0
  | .shed _ => 1
  | .pick _ view => if (Balancer.pick cfg.weights cfg.backends view).isNone then 1 else 0
  | .finish _ _ => 1
  | .panic _ => 1
  | _ => 0

/-- Is the event one that is counted as an error? -/
def Event.errs (cfg : Config ι) : Event ι → ℕ
  | .pick _ view => if (Balancer.pick cfg.weights cfg.backends view).isNone then 1 else 0
  | .finish _ badGateway => if badGateway then 1 else 0
  | _ => 0

omit [DecidableEq ι] in
/-- Is a request dropped? -/
def Event.drops : Event ι → ℕ
  | .shed _ => 1
  | _ => 0

omit [DecidableEq ι] in
/-- Does a request come in? -/
def Event.arrives : Event ι → ℕ
  | .arrive _ => 1
  | _ => 0

/-! ## Open requests

A handler is open from its arrival until the event that decides its request, and it may have steps
to do after that. -/

omit [DecidableEq ι] in
/-- Is the request of the handler still undecided? -/
def Handler.isOpen : Handler ι → Bool
  | .deferred => false
  | .ended => false
  | _ => true

/-- The requests that are still undecided. -/
def State.openRequests (s : State ι) : ℕ := s.handlers.countP Handler.isOpen

/-- What a step does to the counters. -/
theorem counters_next {cfg : Config ι} {s s' : State ι} {a : Event ι} (h : next cfg s a = some s') :
    s'.totalRequests = s.totalRequests + a.arrives ∧ s'.totalDropped = s.totalDropped + a.drops ∧
      s'.totalErrors = s.totalErrors + a.errs cfg := by
  cases a with
  | arrive r =>
    obtain rfl := Option.some.inj h
    exact ⟨rfl, rfl, rfl⟩
  | route i =>
    simp only [next] at h
    split at h
    · split_ifs at h <;> obtain rfl := Option.some.inj h <;> exact ⟨rfl, rfl, rfl⟩
    · simp at h
  | acquire i =>
    simp only [next] at h
    split at h
    · split_ifs at h
      obtain rfl := Option.some.inj h
      exact ⟨rfl, rfl, rfl⟩
    · simp at h
  | shed i =>
    simp only [next] at h
    split at h
    · obtain rfl := Option.some.inj h
      exact ⟨rfl, rfl, rfl⟩
    · simp at h
  | pick i view =>
    have hpick : ∀ slot, (pickStep cfg s i view slot).totalRequests = s.totalRequests ∧
        (pickStep cfg s i view slot).totalDropped = s.totalDropped ∧
          (pickStep cfg s i view slot).totalErrors =
            s.totalErrors + (Event.pick i view).errs cfg := by
      intro slot
      rw [pickStep, Event.errs]
      split <;> rename_i hb <;> rw [hb] <;> exact ⟨rfl, rfl, rfl⟩
    simp only [next] at h
    split at h
    · exact Option.some.inj h ▸ hpick false
    · exact Option.some.inj h ▸ hpick true
    · simp at h
  | finish i badGateway =>
    simp only [next] at h
    split at h
    · obtain rfl := Option.some.inj h
      refine ⟨rfl, rfl, ?_⟩
      cases badGateway <;> rfl
    · simp at h
  | panic i =>
    simp only [next] at h
    split at h
    · obtain rfl := Option.some.inj h
      exact ⟨rfl, rfl, rfl⟩
    · simp at h
  | release i =>
    simp only [next] at h
    split at h
    · obtain rfl := Option.some.inj h
      exact ⟨rfl, rfl, rfl⟩
    · simp at h

/-! ## One handler at a time

A step replaces one handler of the list by another one, so the number of open requests changes by
what the two contribute. -/

omit [DecidableEq ι] in
theorem open_set {l : List (Handler ι)} {i : ℕ} {h : Handler ι} (hi : l[i]? = some h)
    (h' : Handler ι) : (l.set i h').countP Handler.isOpen + h.isOpen.toNat =
      l.countP Handler.isOpen + h'.isOpen.toNat := by
  have hcount := countP_set (p := Handler.isOpen) hi h'
  omega

omit [DecidableEq ι] in
theorem isOpen_afterProxy (slot : Bool) : (afterProxy slot : Handler ι).isOpen = false := by
  cases slot <;> rfl

theorem open_pickStep (cfg : Config ι) {s : State ι} {i : ℕ} {h : Handler ι}
    (hi : s.handlers[i]? = some h) (hopen : h.isOpen = true) (slot : Bool) (view : ι → Backend) :
    (pickStep cfg s i view slot).openRequests + (Event.pick i view).answers cfg s =
      s.openRequests := by
  rw [pickStep, Event.answers]
  split <;> rename_i hb <;> rw [hb]
  · have hset := open_set hi (afterProxy slot)
    rw [hopen, isOpen_afterProxy] at hset
    exact hset
  · rename_i b
    have hset := open_set hi (.proxying b slot)
    rw [hopen] at hset
    simpa [State.openRequests, Handler.isOpen] using hset

/-- **A request is open until it is decided**, and it is decided by one event. -/
theorem open_next {cfg : Config ι} {s s' : State ι} {a : Event ι} (h : next cfg s a = some s') :
    s'.openRequests + a.answers cfg s = s.openRequests + a.arrives := by
  cases a with
  | arrive r =>
    obtain rfl := Option.some.inj h
    simp [State.openRequests, Handler.isOpen, Event.answers, Event.arrives]
  | route i =>
    simp only [next] at h
    split at h
    · rename_i r hi
      have hset := open_set hi
      rw [Event.answers, hi]
      split_ifs at h with hr hw <;> obtain rfl := Option.some.inj h
      · simpa [hr, State.openRequests, Handler.isOpen, Event.arrives] using hset .ended
      · simpa [hr, State.openRequests, Handler.isOpen, Event.arrives] using hset .upgrade
      · simpa [hr, State.openRequests, Handler.isOpen, Event.arrives] using hset .gate
    · simp at h
  | acquire i =>
    simp only [next] at h
    split at h
    · rename_i hi
      split_ifs at h
      obtain rfl := Option.some.inj h
      simpa [State.openRequests, Handler.isOpen, Event.answers, Event.arrives] using
        open_set hi .admitted
    · simp at h
  | shed i =>
    simp only [next] at h
    split at h
    · rename_i hi
      obtain rfl := Option.some.inj h
      simpa [State.openRequests, Handler.isOpen, Event.answers, Event.arrives] using
        open_set hi .ended
    · simp at h
  | pick i view =>
    simp only [next] at h
    split at h
    · rename_i hi
      exact Option.some.inj h ▸ open_pickStep cfg hi rfl false view
    · rename_i hi
      exact Option.some.inj h ▸ open_pickStep cfg hi rfl true view
    · simp at h
  | finish i badGateway =>
    simp only [next] at h
    split at h
    · rename_i b slot hi
      obtain rfl := Option.some.inj h
      have hset := open_set hi (afterProxy slot)
      rw [isOpen_afterProxy] at hset
      simpa [State.openRequests, Handler.isOpen, Event.answers, Event.arrives] using hset
    · simp at h
  | panic i =>
    simp only [next] at h
    split at h
    · rename_i b slot hi
      obtain rfl := Option.some.inj h
      have hset := open_set hi (afterProxy slot)
      rw [isOpen_afterProxy] at hset
      simpa [State.openRequests, Handler.isOpen, Event.answers, Event.arrives] using hset
    · simp at h
  | release i =>
    simp only [next] at h
    split at h
    · rename_i hi
      obtain rfl := Option.some.inj h
      simpa [State.openRequests, Handler.isOpen, Event.answers, Event.arrives] using
        open_set hi .ended
    · simp at h

/-- **The counters account for all requests.**  Each request that has come in is open, or it has
been decided by exactly one event of the run; `lb_dropped` and `lb_errors` are the numbers of the
requests that were shed and of those that found no backend or were answered by the error handler. -/
theorem accounts {cfg : Config ι} {s : State ι} {l : List (Event ι)}
    (h : (system cfg).Trace initial l s) :
    s.totalRequests =
      s.openRequests + System.tally (next cfg) (fun s a ↦ a.answers cfg s) initial l ∧
    s.totalRequests = (l.map Event.arrives).sum ∧ s.totalDropped = (l.map Event.drops).sum ∧
    s.totalErrors = (l.map (Event.errs cfg)).sum := by
  have hcounters : s.totalRequests = (l.map Event.arrives).sum ∧
      s.totalDropped = (l.map Event.drops).sum ∧ s.totalErrors = (l.map (Event.errs cfg)).sum := by
    refine h.induction (I := fun l s ↦ s.totalRequests = (l.map Event.arrives).sum ∧
      s.totalDropped = (l.map Event.drops).sum ∧ s.totalErrors = (l.map (Event.errs cfg)).sum)
      ⟨rfl, rfl, rfl⟩ ?_
    rintro l t a t' - ⟨hrequests, hdropped, herrors⟩ hstep
    obtain ⟨hrequests', hdropped', herrors'⟩ := counters_next hstep
    simp only [List.map_append, List.sum_append, List.map_singleton, List.sum_singleton]
    exact ⟨by rw [hrequests', hrequests], by rw [hdropped', hdropped], by rw [herrors', herrors]⟩
  have hbalance := h.balance (m := State.openRequests) (g := fun _ a ↦ a.arrives)
    (d := fun s a ↦ a.answers cfg s) fun _ _ _ ↦ open_next
  rw [h.tally_eq_sum, ← hcounters.1] at hbalance
  have hopen : (initial : State ι).openRequests = 0 := rfl
  exact ⟨by omega, hcounters⟩

theorem accounts_servedRun : ∃ s, (system oneBackend).Trace initial servedRun s ∧
    s.totalRequests = 1 ∧ s.openRequests = 0 ∧ System.tally (next oneBackend)
      (fun s a ↦ a.answers oneBackend s) initial servedRun = 1 := by
  have hrun : (System.exec (next oneBackend) initial servedRun).map State.openRequests =
      some 0 := by
    decide +kernel
  obtain ⟨s, hs, hopen⟩ := Option.map_eq_some_iff.mp hrun
  have ht : (system oneBackend).Trace initial servedRun s := System.trace_of_exec hs
  obtain ⟨htotal, harrived, -⟩ := accounts ht
  have hone : s.totalRequests = 1 := harrived
  exact ⟨s, ht, hone, hopen, by omega⟩

/-! ## What is left to do

The proof that nobody starves has two parts: the work that is left goes down at every step, and as
long as there is a handler that has not ended, some step can be taken. -/

omit [DecidableEq ι] in
/-- The steps that a handler can still take. -/
def Handler.rank : Handler ι → ℕ
  | .arrived _ => 5
  | .gate => 4
  | .upgrade => 3
  | .admitted => 3
  | .proxying _ _ => 2
  | .deferred => 1
  | .ended => 0

omit [DecidableEq ι] in
/-- The steps that all handlers can still take together. -/
def State.work (s : State ι) : ℕ := (s.handlers.map Handler.rank).sum

theorem rank_lt_of_moves {maxInFlight : ℕ} {a : Event ι} {i : ℕ} {h h' : Handler ι}
    {conns conns' : ι → ℤ} {sem sem' : ℕ}
    (hmoves : Moves maxInFlight a i h conns sem h' conns' sem') : h'.rank < h.rank := by
  have hbefore : ∀ slot, (beforePick slot : Handler ι).rank = 3 := by
    intro slot
    cases slot <;> rfl
  have hafter : ∀ slot, (afterProxy slot : Handler ι).rank ≤ 1 := by
    intro slot
    cases slot <;> simp [afterProxy, Handler.rank]
  cases hmoves with
  | pick b =>
    rw [hbefore]
    exact Nat.lt_succ_self 2
  | @noBackend _ _ slot =>
    rw [hbefore]
    exact (hafter slot).trans_lt (by decide)
  | @finish _ _ _ slot => exact (hafter slot).trans_lt (Nat.lt_succ_self _)
  | @panic _ _ slot => exact (hafter slot).trans_lt (Nat.lt_succ_self _)
  | builtin | upgrade | gate | acquire | shed | release => simp [Handler.rank]

theorem work_next {cfg : Config ι} {s s' : State ι} {a : Event ι} (h : next cfg s a = some s')
    (ha : a.arrives = 0) : s'.work < s.work := by
  rcases next_cases h with ⟨r, rfl, -⟩ | ⟨i, x, x', conns, sem, hi, hs', -, -, hmoves⟩
  · simp [Event.arrives] at ha
  · have hsum := sum_map_set (f := Handler.rank) hi x'
    have hlt := rank_lt_of_moves hmoves
    rw [← hs'] at hsum
    rw [State.work, State.work]
    omega

/-! ## Nobody is stuck

Wherever a handler stands, some event is possible for it: a request can always be shed, a proxy
can always return. -/

/-- No handler is ever stuck: if nothing else, its request can be shed. -/
theorem next_of_not_ended (cfg : Config ι) {s : State ι} {i : ℕ} {x : Handler ι}
    (hi : s.handlers[i]? = some x) (hx : x ≠ .ended) :
    ∃ a s', next cfg s a = some s' ∧ a.arrives = 0 := by
  cases x with
  | arrived r =>
    refine ⟨.route i, ?_⟩
    simp only [next, hi]
    split_ifs <;> exact ⟨_, rfl, rfl⟩
  | upgrade =>
    refine ⟨.pick i fun _ ↦ ⟨true, 0, 0, 0, 0⟩, ?_⟩
    simp only [next, hi]
    exact ⟨_, rfl, rfl⟩
  | gate =>
    refine ⟨.shed i, ?_⟩
    simp only [next, hi]
    exact ⟨_, rfl, rfl⟩
  | admitted =>
    refine ⟨.pick i fun _ ↦ ⟨true, 0, 0, 0, 0⟩, ?_⟩
    simp only [next, hi]
    exact ⟨_, rfl, rfl⟩
  | proxying b slot =>
    refine ⟨.finish i false, ?_⟩
    simp only [next, hi]
    exact ⟨_, rfl, rfl⟩
  | deferred =>
    refine ⟨.release i, ?_⟩
    simp only [next, hi]
    exact ⟨_, rfl, rfl⟩
  | ended => exact absurd rfl hx

/-- **The balancer drains.**  From any state that can be reached, a run in which no request comes in
takes no more steps than the handlers have left, which are five for each at most.  Where it can go
on only with a new request, all handlers have ended, no request is open and all slots of the
semaphore are free. -/
theorem drains {cfg : Config ι} {s s' : State ι} {l : List (Event ι)}
    (hs : (system cfg).Reachable s) (h : (system cfg).Trace s l s')
    (hl : ∀ a ∈ l, a.arrives = 0) :
    l.length + s'.work ≤ s.work ∧ s.work ≤ 5 * s.handlers.length ∧
    ((∀ a s'', next cfg s' a = some s'' → a.arrives ≠ 0) →
      (∀ x ∈ s'.handlers, x = .ended) ∧ s'.openRequests = 0 ∧ s'.sem = 0) := by
  refine ⟨h.length_add_le fun t a t' ha hstep ↦ work_next hstep (hl a ha), ?_, fun hstuck ↦ ?_⟩
  · have hle : ∀ k ∈ s.handlers.map Handler.rank, k ≤ 5 := by
      rintro k hk
      obtain ⟨x, -, rfl⟩ := List.mem_map.mp hk
      cases x <;> simp [Handler.rank]
    have hsum := List.sum_le_card_nsmul _ 5 hle
    simp only [List.length_map, nsmul_eq_mul, Nat.cast_id] at hsum
    rw [State.work]
    omega
  · have hended : ∀ x ∈ s'.handlers, x = .ended := by
      intro x hx
      obtain ⟨i, hi⟩ := List.mem_iff_getElem?.mp hx
      by_contra hne
      obtain ⟨a, s'', hnext, ha⟩ := next_of_not_ended cfg hi hne
      exact hstuck a s'' hnext ha
    have hnone : ∀ p : Handler ι → Bool, p .ended = false → s'.handlers.countP p = 0 := by
      intro p hp
      rw [List.countP_eq_zero]
      intro x hx
      rw [hended x hx, hp]
      exact Bool.false_ne_true
    refine ⟨hended, hnone _ rfl, ?_⟩
    rw [sem_eq_slots (hs.run h.run)]
    exact hnone _ rfl

/-- The request of `servedRun`, after it has arrived. -/
theorem drains_servedRun : ∃ s s', (system oneBackend).Reachable s ∧
    (system oneBackend).Trace s servedRun.tail s' ∧ servedRun.tail.length + s'.work ≤ s.work ∧
      s.work ≤ 5 * s.handlers.length := by
  have hrun : ((System.exec (next oneBackend) initial [.arrive postMessage]).bind fun s ↦
      System.exec (next oneBackend) s servedRun.tail).isSome = true := by decide +kernel
  obtain ⟨s', hs'⟩ := Option.isSome_iff_exists.mp hrun
  obtain ⟨s, hs, hs'⟩ := Option.bind_eq_some_iff.mp hs'
  have hreach : (system oneBackend).Reachable s := System.reachable_of_exec rfl hs
  have htrace : (system oneBackend).Trace s servedRun.tail s' := System.trace_of_exec hs'
  obtain ⟨hlength, hwork, -⟩ := drains hreach htrace (by simp [servedRun, Event.arrives])
  exact ⟨s, s', hreach, htrace, hlength, hwork⟩

end Serve
end Balancer
end GroupChat
