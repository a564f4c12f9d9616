import GroupChat.Balancer.Pick
import GroupChat.Lib.Transition

/-!
# Serving requests

`LB.ServeHTTP` runs once for each request, any number of times concurrently.  A `Handler` is one
such call, and `Serve.next` lets one handler do its next step, where a step is an access to what the
handlers share: the counters, the slots of the semaphore `lb.sem` and the `activeConns` of the
backends.

The proxy may return or panic.  `net/http` recovers the panic, and the deferred calls of the handler
run: the slot of the semaphore is released by one of them, but the line that lowers `activeConns` is
skipped.  So `activeConns` counts the handlers that use the backend and all those that ever panicked
there (`Serve.activeConns_eq`), and it is the number of handlers in progress exactly as long as no
proxy has panicked (`Serve.activeConns_eq_inProgress_iff`).
-/

set_option autoImplicit false

namespace GroupChat
namespace Balancer

open Transition

universe u

/-! ## Handlers and what they share

The state has the handlers as a list, each at one of its steps.  A handler is a goroutine, and the
shared variables are atomic or behind a lock, so an interleaving of their steps is a run. -/

/-- The methods that the balancer tells apart. -/
inductive Method
  | get
  | post
  | put
  | other
  deriving DecidableEq

/-- What the balancer reads of a request to route it. -/
structure Request where
  method : Method
  path : String
  /-- `strings.EqualFold(r.Header.Get("Upgrade"), "websocket")`. -/
  websocket : Bool
  deriving DecidableEq

/-- Is the request answered by the balancer itself? -/
def Request.builtin (r : Request) : Bool :=
  decide (r.method = .get) && (r.path == "/health" || r.path == "/metrics")

namespace Serve

/-- Where a call of `ServeHTTP` stands. -/
inductive Handler (ι : Type u)
  /-- Counted in `totalRequests`, not routed yet. -/
  | arrived (r : Request)
  /-- A WebSocket request before its pick. -/
  | upgrade
  /-- At the `select` on the semaphore. -/
  | gate
  /-- In possession of a slot, before the pick. -/
  | admitted
  /-- The proxy of the backend `b` is running; `slot` tells whether the handler has a slot. -/
  | proxying (b : ι) (slot : Bool)
  /-- Before the deferred release of the slot. -/
  | deferred
  | ended
  deriving DecidableEq

/-- What the handlers share, and the handlers. -/
structure State (ι : Type u) where
  activeConns : ι → ℤ
  /-- The slots of `lb.sem` that are taken. -/
  sem : ℕ
  totalRequests : ℕ
  totalDropped : ℕ
  totalErrors : ℕ
  handlers : List (Handler ι)

/-- What can happen. -/
inductive Event (ι : Type u)
  /-- A request comes in. -/
  | arrive (r : Request)
  /-- The handler decides what to do with its request. -/
  | route (i : ℕ)
  /-- It gets a slot. -/
  | acquire (i : ℕ)
  /-- Its context is done first: six seconds are over, or the client is gone. -/
  | shed (i : ℕ)
  /-- It picks a backend, seen as `view`, and raises its counter. -/
  | pick (i : ℕ) (view : ι → Backend)
  /-- The proxy returns; `badGateway` if its error handler has answered.  The handler lowers the
  counter. -/
  | finish (i : ℕ) (badGateway : Bool)
  /-- The proxy panics. -/
  | panic (i : ℕ)
  /-- The deferred release of the slot. -/
  | release (i : ℕ)

variable {ι : Type u} [DecidableEq ι]

/-! ## The steps of a handler

A handler that does not forward its request is done in one step.  The others acquire a slot, pick
a backend, run the proxy, and release on the way out what they have acquired. -/

/-- The counters of the backends after one of them has changed by `n`. -/
def addInt64 (conns : ι → ℤ) (b : ι) (n : ℤ) : ι → ℤ := Function.update conns b (conns b + n)

/-- What is left to do for a handler after its proxy. -/
def afterProxy (slot : Bool) : Handler ι := if slot then .deferred else .ended

/-- The parameters of the balancer. -/
structure Config (ι : Type u) where
  weights : Weights
  backends : List ι
  maxInFlight : ℕ

/-- The step of a handler that picks a backend; `slot` as in `Handler.proxying`. -/
def pickStep (cfg : Config ι) (s : State ι) (i : ℕ) (view : ι → Backend) (slot : Bool) :
    State ι :=
  match Balancer.pick cfg.weights cfg.backends view with
  | none =>
    { s with totalErrors := s.totalErrors + 1, handlers := s.handlers.set i (afterProxy slot) }
  | some b =>
    { s with activeConns := addInt64 s.activeConns b 1,
             handlers := s.handlers.set i (.proxying b slot) }

/-- One event. -/
def next (cfg : Config ι) (s : State ι) : Event ι → Option (State ι)
  | .arrive r =>
    some { s with totalRequests := s.totalRequests + 1, handlers := s.handlers ++ [.arrived r] }
  | .route i =>
    match s.handlers[i]? with
    | some (.arrived r) =>
      if r.builtin then some { s with handlers := s.handlers.set i .ended }
      else if r.websocket then some { s with handlers := s.handlers.set i .upgrade }
      else some { s with handlers := s.handlers.set i .gate }
    | _ => none
  | .acquire i =>
    match s.handlers[i]? with
    | some .gate =>
      if s.sem < cfg.maxInFlight then
        some { s with sem := s.sem + 1, handlers := s.handlers.set i .admitted }
      else none
    | _ => none
  | .shed i =>
    match s.handlers[i]? with
    | some .gate =>
      some { s with totalDropped := s.totalDropped + 1, handlers := s.handlers.set i .ended }
    | _ => none
  | .pick i view =>
    match s.handlers[i]? with
    | some .upgrade => some (pickStep cfg s i view false)
    | some .admitted => some (pickStep cfg s i view true)
    | _ => none
  | .finish i badGateway =>
    match s.handlers[i]? with
    | some (.proxying b slot) =>
      some { s with activeConns := addInt64 s.activeConns b (-1),
                    totalErrors := if badGateway then s.totalErrors + 1 else s.totalErrors,
                    handlers := s.handlers.set i (afterProxy slot) }
    | _ => none
  | .panic i =>
    match s.handlers[i]? with
    | some (.proxying _ slot) => some { s with handlers := s.handlers.set i (afterProxy slot) }
    | _ => none
  | .release i =>
    match s.handlers[i]? with
    | some .deferred => some { s with sem := s.sem - 1, handlers := s.handlers.set i .ended }
    | _ => none

/-- A balancer that has just started. -/
def initial : State ι := ⟨fun _ ↦ 0, 0, 0, 0, 0, []⟩

/-- The balancer and its clients. -/
def system (cfg : Config ι) : System (State ι) (Event ι) := .ofFun (· = initial) (next cfg)

/-! ## What a step can do

There are many steps and few things that they do to the shared variables.  `Moves` sorts them by
that. -/

omit [DecidableEq ι] in
/-- The handler before its pick. -/
def beforePick (slot : Bool) : Handler ι := if slot then .admitted else .upgrade

/-- What an event does to the handler that it is about, to `activeConns` and to the slots that are
taken. -/
inductive Moves (maxInFlight : ℕ) :
    Event ι → ℕ → Handler ι → (ι → ℤ) → ℕ → Handler ι → (ι → ℤ) → ℕ → Prop
  | builtin {i r conns sem} (hr : r.builtin = true) :
    Moves maxInFlight (.route i) i (.arrived r) conns sem .ended conns sem
  | upgrade {i r conns sem} (hr : r.builtin = false) (hw : r.websocket = true) :
    Moves maxInFlight (.route i) i (.arrived r) conns sem .upgrade conns sem
  | gate {i r conns sem} (hr : r.builtin = false) (hw : r.websocket = false) :
    Moves maxInFlight (.route i) i (.arrived r) conns sem .gate conns sem
  | acquire {i conns sem} (hsem : sem < maxInFlight) :
    Moves maxInFlight (.acquire i) i .gate conns sem .admitted conns (sem + 1)
  | shed {i conns sem} : Moves maxInFlight (.shed i) i .gate conns sem .ended conns sem
  | pick {i view slot conns sem} (b : ι) :
    Moves maxInFlight (.pick i view) i (beforePick slot) conns sem (.proxying b slot)
      (addInt64 conns b 1) sem
  | noBackend {i view slot conns sem} :
    Moves maxInFlight (.pick i view) i (beforePick slot) conns sem (afterProxy slot) conns sem
  | finish {i badGateway b slot conns sem} :
    Moves maxInFlight (.finish i badGateway) i (.proxying b slot) conns sem (afterProxy slot)
      (addInt64 conns b (-1)) sem
  | panic {i b slot conns sem} :
    Moves maxInFlight (.panic i) i (.proxying b slot) conns sem (afterProxy slot) conns sem
  | release {i conns sem} :
      Moves maxInFlight (.release i) i .deferred conns sem .ended conns (sem - 1)

theorem moves_pickStep (cfg : Config ι) (s : State ι) (i : ℕ) (slot : Bool) (view : ι → Backend) :
    ∃ h' conns, (pickStep cfg s i view slot).handlers = s.handlers.set i h' ∧
      (pickStep cfg s i view slot).activeConns = conns ∧
      (pickStep cfg s i view slot).sem = s.sem ∧
      Moves cfg.maxInFlight (.pick i view) i (beforePick slot) s.activeConns s.sem h' conns
        s.sem := by
  rw [pickStep]
  split
  · exact ⟨_, _, rfl, rfl, rfl, .noBackend⟩
  · exact ⟨_, _, rfl, rfl, rfl, .pick _⟩

/-- **What a step can do**: a request arrives, or one handler moves. -/
theorem next_cases {cfg : Config ι} {s s' : State ι} {a : Event ι} (hs : next cfg s a = some s') :
    (∃ r, a = .arrive r ∧ s'.handlers = s.handlers ++ [.arrived r] ∧
      s'.activeConns = s.activeConns ∧ s'.sem = s.sem) ∨
    ∃ i h h' conns sem, s.handlers[i]? = some h ∧ s'.handlers = s.handlers.set i h' ∧
      s'.activeConns = conns ∧ s'.sem = sem ∧
      Moves cfg.maxInFlight a i h s.activeConns s.sem h' conns sem := by
  cases a with
  | arrive r =>
    obtain rfl := Option.some.inj hs
    exact Or.inl ⟨r, rfl, rfl, rfl, rfl⟩
  | route i =>
    simp only [next] at hs
    split at hs
    · rename_i r hi
      split at hs
      · rename_i hr
        obtain rfl := Option.some.inj hs
        exact Or.inr ⟨i, _, _, _, _, hi, rfl, rfl, rfl, .builtin hr⟩
      · rename_i hr
        split at hs
        · rename_i hw
          obtain rfl := Option.some.inj hs
          exact Or.inr ⟨i, _, _, _, _, hi, rfl, rfl, rfl, .upgrade (by simpa using hr) hw⟩
        · rename_i hw
          obtain rfl := Option.some.inj hs
          exact Or.inr ⟨i, _, _, _, _, hi, rfl, rfl, rfl,
            .gate (by simpa using hr) (by simpa using hw)⟩
    · simp at hs
  | acquire i =>
    simp only [next] at hs
    split at hs
    · rename_i hi
      split at hs
      · rename_i hsem
        obtain rfl := Option.some.inj hs
        exact Or.inr ⟨i, _, _, _, _, hi, rfl, rfl, rfl, .acquire hsem⟩
      · simp at hs
    · simp at hs
  | shed i =>
    simp only [next] at hs
    split at hs
    · rename_i hi
      obtain rfl := Option.some.inj hs
      exact Or.inr ⟨i, _, _, _, _, hi, rfl, rfl, rfl, .shed⟩
    · simp at hs
  | pick i view =>
    simp only [next] at hs
    split at hs
    · rename_i hi
      obtain rfl := Option.some.inj hs
      obtain ⟨h', conns, hset, hconns, hsem, hmoves⟩ := moves_pickStep cfg s i false view
      exact Or.inr ⟨i, _, h', conns, _, hi, hset, hconns, hsem, hmoves⟩
    · rename_i hi
      obtain rfl := Option.some.inj hs
      obtain ⟨h', conns, hset, hconns, hsem, hmoves⟩ := moves_pickStep cfg s i true view
      exact Or.inr ⟨i, _, h', conns, _, hi, hset, hconns, hsem, hmoves⟩
    · simp at hs
  | finish i badGateway =>
    simp only [next] at hs
    split at hs
    · rename_i b slot hi
      obtain rfl := Option.some.inj hs
      exact Or.inr ⟨i, _, _, _, _, hi, rfl, rfl, rfl, .finish⟩
    · simp at hs
  | panic i =>
    simp only [next] at hs
    split at hs
    · rename_i b slot hi
      obtain rfl := Option.some.inj hs
      exact Or.inr ⟨i, _, _, _, _, hi, rfl, rfl, rfl, .panic⟩
    · simp at hs
  | release i =>
    simp only [next] at hs
    split at hs
    · rename_i hi
      obtain rfl := Option.some.inj hs
      exact Or.inr ⟨i, _, _, _, _, hi, rfl, rfl, rfl, .release⟩
    · simp at hs

/-! ## Counting handlers

`activeConns` is raised and lowered by the handlers, so it is compared with a count of them.  The
difference, `drift`, is changed by a panic and by nothing else. -/

/-- Is the proxy of the backend running for the handler? -/
def Handler.uses (b : ι) : Handler ι → Bool
  | .proxying c _ => decide (c = b)
  | _ => false

omit [DecidableEq ι] in
/-- Has the handler a slot of the semaphore? -/
def Handler.hasSlot : Handler ι → Bool
  | .admitted => true
  | .proxying _ slot => slot
  | .deferred => true
  | _ => false

/-- The number of handlers that have picked the backend and not ended yet. -/
def State.inProgress (s : State ι) (b : ι) : ℕ := s.handlers.countP (·.uses b)

/-- By how much the counter of the backend is off. -/
def State.drift (s : State ι) (b : ι) : ℤ := s.activeConns b - s.inProgress b

theorem uses_afterProxy (b : ι) (slot : Bool) : (afterProxy slot : Handler ι).uses b = false := by
  cases slot <;> rfl

omit [DecidableEq ι] in
theorem hasSlot_afterProxy (slot : Bool) : (afterProxy slot : Handler ι).hasSlot = slot := by
  cases slot <;> rfl

/-- Does the event let a proxy of the backend panic? -/
def Event.panicsAt (s : State ι) (b : ι) : Event ι → Bool
  | .panic i => (s.handlers[i]?.map (·.uses b)).getD false
  | _ => false

/-- Replacing a handler that does not use the backend by another one keeps the drift. -/
theorem drift_set {s s' : State ι} {i : ℕ} {h h' : Handler ι} {b : ι} (hi : s.handlers[i]? = some h)
    (hs' : s'.handlers = s.handlers.set i h') :
    s'.drift b = s'.activeConns b - s.activeConns b + s.drift b + (h.uses b).toNat -
      (h'.uses b).toNat := by
  rw [State.drift, State.drift, State.inProgress, State.inProgress, hs', countP_set hi]
  ring

theorem addInt64_apply (conns : ι → ℤ) (b c : ι) (n : ℤ) :
    addInt64 conns b n c = conns c + if b = c then n else 0 := by
  rw [addInt64]
  by_cases h : b = c
  · subst h
    simp
  · rw [Function.update_of_ne (Ne.symm h), if_neg h, add_zero]

theorem uses_beforePick (b : ι) (slot : Bool) : (beforePick slot : Handler ι).uses b = false := by
  cases slot <;> rfl

/-- **The only event that changes a drift is a panic**, and it raises it. -/
theorem drift_next {cfg : Config ι} {s s' : State ι} {a : Event ι} (h : next cfg s a = some s')
    (b : ι) : s'.drift b = s.drift b + (a.panicsAt s b).toNat := by
  rcases next_cases h with ⟨r, rfl, hs', hconns, -⟩ |
    ⟨i, x, x', conns, sem, hi, hs', hconns, -, hmoves⟩
  · rw [State.drift, State.drift, State.inProgress, State.inProgress, hs', hconns]
    simp [Handler.uses, Event.panicsAt]
  · rw [drift_set hi hs', hconns]
    cases hmoves with
    | builtin _ => simp [Handler.uses, Event.panicsAt]
    | upgrade _ _ => simp [Handler.uses, Event.panicsAt]
    | gate _ _ => simp [Handler.uses, Event.panicsAt]
    | acquire _ => simp [Handler.uses, Event.panicsAt]
    | shed => simp [Handler.uses, Event.panicsAt]
    | pick c =>
      rw [uses_beforePick]
      simp only [addInt64_apply, Handler.uses, Event.panicsAt]
      by_cases hcb : c = b <;> simp [hcb]
    | noBackend => simp [uses_beforePick, uses_afterProxy, Event.panicsAt]
    | finish =>
      rename_i badGateway c slot
      rw [uses_afterProxy]
      simp only [addInt64_apply, Handler.uses, Event.panicsAt]
      by_cases hcb : c = b <;> simp [hcb]
    | panic =>
      rw [uses_afterProxy]
      simp [Event.panicsAt, hi]
    | release => simp [Handler.uses, Event.panicsAt]

/-! ## Along a run

The drift of a backend is zero at the start and never goes down, so one panic anywhere in a run
shows at its end. -/

/-- Along a run no drift ever shrinks. -/
theorem drift_le {cfg : Config ι} {s s' : State ι} {l : List (Event ι)}
    (h : (system cfg).Trace s l s') (b : ι) : s.drift b ≤ s'.drift b := by
  induction h with
  | nil s => exact le_rfl
  | @cons s t s' a l hs _ ih =>
    have hstep := drift_next (show next cfg s a = some t from hs) b
    omega

/-- Is the event the panic of a proxy? -/
def Event.IsPanic : Event ι → Prop
  | .panic _ => True
  | _ => False

theorem drift_eq_of_no_panic {cfg : Config ι} {s s' : State ι} {l : List (Event ι)}
    (h : (system cfg).Trace s l s') (hl : ∀ a ∈ l, ¬ a.IsPanic) (b : ι) :
    s'.drift b = s.drift b := by
  induction h with
  | nil s => rfl
  | @cons s t s' a l hs _ ih =>
    have hstep := drift_next (show next cfg s a = some t from hs) b
    have hnone : a.panicsAt s b = false := by
      cases a with
      | panic i => exact absurd trivial (hl _ List.mem_cons_self)
      | _ => rfl
    rw [ih fun a ha ↦ hl a (List.mem_cons_of_mem _ ha), hstep, hnone]
    simp

/-- A panic leaves the counter of some backend too high, for good. -/
theorem drift_lt_of_panic {cfg : Config ι} {s s' : State ι} {l : List (Event ι)}
    (h : (system cfg).Trace s l s') (hl : ∃ a ∈ l, a.IsPanic) : ∃ b, s.drift b < s'.drift b := by
  induction h with
  | nil s => simp at hl
  | @cons s t s' a l hs htl ih =>
    have hstep := drift_next (show next cfg s a = some t from hs)
    by_cases htail : ∃ a ∈ l, a.IsPanic
    · obtain ⟨b, hb⟩ := ih htail
      have hb' := hstep b
      exact ⟨b, by omega⟩
    · obtain ⟨a', ha', hpanic⟩ := hl
      rcases List.mem_cons.mp ha' with rfl | ha'
      · cases a' with
        | panic i =>
          have hi : next cfg s (.panic i) = some t := hs
          simp only [next] at hi
          split at hi
          · rename_i c slot hget
            have hc := hstep c
            have hle := drift_le htl c
            have hat : (Event.panic i : Event ι).panicsAt s c = true := by
              simp [Event.panicsAt, hget, Handler.uses]
            rw [hat] at hc
            exact ⟨c, by simp at hc; omega⟩
          · simp at hi
        | _ => exact absurd hpanic id
      · exact absurd ⟨a', ha', hpanic⟩ htail

/-- **When the counters are right.**  After a run, `activeConns` of every backend is the number of
handlers that picked it and have not ended if and only if no proxy panicked in the run. -/
theorem activeConns_eq_inProgress_iff {cfg : Config ι} {s : State ι} {l : List (Event ι)}
    (h : (system cfg).Trace initial l s) :
    (∀ b, s.activeConns b = s.inProgress b) ↔ ∀ a ∈ l, ¬ a.IsPanic := by
  have hzero : ∀ b, (initial : State ι).drift b = 0 := fun b ↦ rfl
  constructor
  · intro heq a ha hpanic
    obtain ⟨b, hb⟩ := drift_lt_of_panic h ⟨a, ha, hpanic⟩
    have hb' : s.drift b = 0 := by rw [State.drift, heq b, sub_self]
    rw [hzero b, hb'] at hb
    exact absurd hb (lt_irrefl 0)
  · intro hl b
    have hb := drift_eq_of_no_panic h hl b
    rw [hzero b, State.drift] at hb
    exact sub_eq_zero.mp hb

/-! ## The semaphore

A slot is released by a deferred call, which also runs in a panic; hence the count is exact in
every run. -/

/-- The number of handlers that have a slot. -/
def State.slots (s : State ι) : ℕ := s.handlers.countP (·.hasSlot)

omit [DecidableEq ι] in
theorem slots_set {s s' : State ι} {i : ℕ} {h : Handler ι} (h' : Handler ι)
    (hi : s.handlers[i]? = some h) (hs' : s'.handlers = s.handlers.set i h') :
    (s'.slots : ℤ) = s.slots - h.hasSlot.toNat + h'.hasSlot.toNat := by
  rw [State.slots, hs', countP_set hi]
  rfl

omit [DecidableEq ι] in
theorem slots_keep {s s' : State ι} {i : ℕ} {h : Handler ι} (h' : Handler ι)
    (hi : s.handlers[i]? = some h) (hs' : s'.handlers = s.handlers.set i h')
    (hsame : h.hasSlot = h'.hasSlot) :
    s'.slots = s.slots := by
  have hset := slots_set h' hi hs'
  rw [hsame] at hset
  omega

omit [DecidableEq ι] in
theorem hasSlot_beforePick (slot : Bool) : (beforePick slot : Handler ι).hasSlot = slot := by
  cases slot <;> rfl

/-- **The semaphore is never off**: whichever way a handler ends, its slot is released by a deferred
call. -/
theorem sem_next {cfg : Config ι} {s s' : State ι} {a : Event ι} (h : next cfg s a = some s')
    (hsem : s.sem = s.slots) : s'.sem = s'.slots := by
  rcases next_cases h with ⟨r, -, hs', -, hsem'⟩ | ⟨i, x, x', conns, sem, hi, hs', -, hsem', hmoves⟩
  · rw [hsem', hsem, State.slots, State.slots, hs']
    simp [Handler.hasSlot]
  · have hset := slots_set x' hi hs'
    rw [hsem']
    cases hmoves with
    | builtin _ => exact hsem.trans (slots_keep _ hi hs' rfl).symm
    | upgrade _ _ => exact hsem.trans (slots_keep _ hi hs' rfl).symm
    | gate _ _ => exact hsem.trans (slots_keep _ hi hs' rfl).symm
    | acquire _ =>
      simp only [Handler.hasSlot, Bool.toNat_true, Bool.toNat_false] at hset
      omega
    | shed => exact hsem.trans (slots_keep _ hi hs' rfl).symm
    | pick b => exact hsem.trans (slots_keep _ hi hs' (hasSlot_beforePick _)).symm
    | noBackend =>
      refine hsem.trans (slots_keep _ hi hs' ?_).symm
      rw [hasSlot_beforePick, hasSlot_afterProxy]
    | finish => exact hsem.trans (slots_keep _ hi hs' (hasSlot_afterProxy _).symm).symm
    | panic => exact hsem.trans (slots_keep _ hi hs' (hasSlot_afterProxy _).symm).symm
    | release =>
      simp only [Handler.hasSlot, Bool.toNat_true, Bool.toNat_false] at hset
      omega

theorem sem_eq_slots {cfg : Config ι} {s : State ι} (h : (system cfg).Reachable s) :
    s.sem = s.slots := by
  refine h.invariant (I := fun s ↦ s.sem = s.slots) ?_ fun s a s' hi hs ↦ sem_next hs hi
  rintro s rfl
  rfl

/-! ## A panic

The reverse proxy panics with `http.ErrAbortHandler` where it cannot copy the response to a client
that has gone. -/

/-- A balancer with one backend. -/
def oneBackend : Config Unit := ⟨⟨1, 1, 1⟩, [()], 1⟩

/-- What the balancer sees of it. -/
def idleBackend : Backend := ⟨true, 10, 0, 0, 0⟩

/-- A POST request. -/
def postMessage : Request := ⟨.post, "/message", false⟩

/-- A request that is served, and one whose response cannot be copied to the client. -/
def panicRun : List (Event Unit) :=
  [.arrive postMessage, .route 0, .acquire 0, .pick 0 fun _ ↦ idleBackend, .panic 0, .release 0]

def servedRun : List (Event Unit) :=
  [.arrive postMessage, .route 0, .acquire 0, .pick 0 fun _ ↦ idleBackend, .finish 0 false,
    .release 0]

theorem activeConns_servedRun : ∃ s, (system oneBackend).Trace initial servedRun s ∧
    ∀ b, s.activeConns b = s.inProgress b := by
  have hrun : (System.exec (next oneBackend) initial servedRun).isSome = true := by decide +kernel
  obtain ⟨s, hs⟩ := Option.isSome_iff_exists.mp hrun
  have ht : (system oneBackend).Trace initial servedRun s := System.trace_of_exec hs
  refine ⟨s, ht, (activeConns_eq_inProgress_iff ht).mpr ?_⟩
  simp [servedRun, Event.IsPanic]

/-- **The lost decrement**: no request is in progress, and the counter of the backend is 1. -/
theorem activeConns_panicRun : ∃ s, (system oneBackend).Reachable s ∧
    s.handlers = [.ended] ∧ s.activeConns () = 1 ∧ s.inProgress () = 0 := by
  have hrun : (System.exec (next oneBackend) initial panicRun).map
      (fun s ↦ (s.handlers, s.activeConns ())) = some ([.ended], 1) := by decide +kernel
  obtain ⟨s, hs, hres⟩ := Option.map_eq_some_iff.mp hrun
  obtain ⟨hhandlers, hconns⟩ := Prod.mk.inj hres
  exact ⟨s, System.reachable_of_exec rfl hs, hhandlers, hconns,
    by rw [State.inProgress, hhandlers]; rfl⟩

end Serve
end Balancer
end GroupChat
