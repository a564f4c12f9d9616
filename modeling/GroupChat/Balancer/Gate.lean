import GroupChat.Balancer.Serve

/-!
# The gate

The semaphore `lb.sem` lets `MaxInFlight` requests through at a time.  `Serve.sem_eq_slots` says
that the slots which are taken are those of the handlers that have one.  Whether a handler has a
slot is read off the place where it stands; this module says the same by what has happened in the
run.

`Past` is the past of a handler: whether its request goes through the gate at all, and which of the
events that matter have happened.  Each place of a handler allows only certain pasts (`Fits`), and
from this comes `gate_tight`: however handlers end, the number of slots that are taken is that of
the ordinary requests which have passed the gate and whose handlers have not ended, and a request
that has been shed has never had a slot and is never forwarded.
-/

set_option autoImplicit false

namespace GroupChat
namespace Balancer

open Transition

universe u

/-- Does the request go through the gate?  It is neither answered by the balancer itself nor a
WebSocket. -/
def Request.ordinary (r : Request) : Bool := !r.builtin && !r.websocket

namespace Serve

variable {ι : Type u} [DecidableEq ι]

/-! ## The past of a handler

The state has forgotten which way a handler has come, so the events of the run are looked at
again, for the handler with a given number. -/

section Past

omit [DecidableEq ι]

/-- The request that arrives, if the event is an arrival. -/
def Event.request? : Event ι → Option Request
  | .arrive r => some r
  | _ => none

/-- Does the handler get a slot? -/
def Event.acquires (i : ℕ) : Event ι → Bool
  | .acquire j => decide (j = i)
  | _ => false

/-- Is the request of the handler shed? -/
def Event.sheds (i : ℕ) : Event ι → Bool
  | .shed j => decide (j = i)
  | _ => false

/-- Does the handler pick a backend? -/
def Event.picks (i : ℕ) : Event ι → Bool
  | .pick j _ => decide (j = i)
  | _ => false

/-- The requests of a run; the handlers have their numbers. -/
def requests (l : List (Event ι)) : List Request := l.filterMap Event.request?

/-- What has happened to a handler. -/
structure Past where
  ordinary : Bool
  acquired : Bool
  shed : Bool
  picked : Bool
  deriving DecidableEq

/-- The past of a handler in a run. -/
def past (l : List (Event ι)) (i : ℕ) : Past where
  ordinary := ((requests l)[i]?.map Request.ordinary).getD false
  acquired := l.any (·.acquires i)
  shed := l.any (·.sheds i)
  picked := l.any (·.picks i)

/-- The past of the handler after one more event that is not an arrival. -/
def Past.note (p : Past) (a : Event ι) (i : ℕ) : Past :=
  ⟨p.ordinary, p.acquired || a.acquires i, p.shed || a.sheds i, p.picked || a.picks i⟩

/-- The pasts that are possible where the handler stands. -/
def Fits : Option (Handler ι) → Past → Prop
  | none, p => p = ⟨false, false, false, false⟩
  | some (.arrived r), p => p = ⟨r.ordinary, false, false, false⟩
  | some .upgrade, p => p = ⟨false, false, false, false⟩
  | some .gate, p => p = ⟨true, false, false, false⟩
  | some .admitted, p => p = ⟨true, true, false, false⟩
  | some (.proxying _ slot), p => p = ⟨slot, slot, false, true⟩
  | some .deferred, p => p = ⟨true, true, false, true⟩
  | some .ended, p => p.shed = true → p = ⟨true, false, true, false⟩

theorem requests_concat {l : List (Event ι)} {a : Event ι} (ha : a.request? = none) :
    requests (l ++ [a]) = requests l := by
  rw [requests, List.filterMap_append, List.filterMap_cons_none ha]
  exact List.append_nil _

theorem requests_arrive (l : List (Event ι)) (r : Request) :
    requests (l ++ [.arrive r]) = requests l ++ [r] := by
  rw [requests, List.filterMap_append]
  rfl

theorem past_concat {l : List (Event ι)} {a : Event ι} (ha : a.request? = none) (i : ℕ) :
    past (l ++ [a]) i = (past l i).note a i := by
  simp [past, Past.note, requests_concat ha]

theorem past_arrive (l : List (Event ι)) (r : Request) (i : ℕ) :
    past (l ++ [.arrive r]) i =
      { past l i with ordinary := ((requests l ++ [r])[i]?.map Request.ordinary).getD false } := by
  simp [past, requests_arrive, Event.acquires, Event.sheds, Event.picks]

/-- The past as far as it is asked for in a prefix of the run is that of the run. -/
theorem picked_of_prefix {l₁ l : List (Event ι)} {i : ℕ} (h : l₁ <+: l)
    (hi : (past l₁ i).picked = true) : (past l i).picked = true := by
  obtain ⟨l₂, rfl⟩ := h
  simp only [past, List.any_append, Bool.or_eq_true] at hi ⊢
  exact Or.inl hi

theorem acquired_of_prefix {l₁ l : List (Event ι)} {i : ℕ} (h : l₁ <+: l)
    (hi : (past l₁ i).acquired = true) : (past l i).acquired = true := by
  obtain ⟨l₂, rfl⟩ := h
  simp only [past, List.any_append, Bool.or_eq_true] at hi ⊢
  exact Or.inl hi

/-- A handler whose request has been shed has done nothing else. -/
theorem Fits.of_shed {o : Option (Handler ι)} {p : Past} (h : Fits o p) (hp : p.shed = true) :
    p = ⟨true, false, true, false⟩ := by
  cases o with
  | none => simp [show p = _ from h] at hp
  | some x =>
    cases x with
    | ended => exact h hp
    | _ => simp [show p = _ from h] at hp

/-- A handler has a slot if it has passed the gate and has not ended. -/
theorem Fits.hasSlot {x : Handler ι} {p : Past} (h : Fits (some x) p) :
    x.hasSlot = true ↔ p.ordinary = true ∧ p.acquired = true ∧ x ≠ .ended := by
  cases x with
  | ended => simp [Handler.hasSlot]
  | proxying b slot => simp [show p = _ from h, Handler.hasSlot]
  | _ => simp [show p = _ from h, Handler.hasSlot]

end Past

/-! ## The past of a step

One event changes the past of one handler, and the place where it stands in the same way. -/

theorem Moves.request? {m i : ℕ} {a : Event ι} {x x' : Handler ι} {conns conns' : ι → ℤ}
    {sem sem' : ℕ} (h : Moves m a i x conns sem x' conns' sem') : a.request? = none := by
  cases h <;> rfl

/-- The other handlers have the same past. -/
theorem Moves.note_of_ne {m i j : ℕ} {a : Event ι} {x x' : Handler ι} {conns conns' : ι → ℤ}
    {sem sem' : ℕ} (h : Moves m a i x conns sem x' conns' sem') (hij : i ≠ j) (p : Past) :
    p.note a j = p := by
  cases h <;> simp [Past.note, Event.acquires, Event.sheds, Event.picks, hij]

omit [DecidableEq ι] in
theorem fits_afterProxy {slot : Bool} {p : Past} (hp : p = ⟨slot, slot, false, true⟩) :
    Fits (some (afterProxy slot : Handler ι)) p := by
  subst hp
  cases slot with
  | true => rfl
  | false => exact fun h ↦ absurd h (by simp)

omit [DecidableEq ι] in
theorem fits_of_beforePick {slot : Bool} {p : Past}
    (h : Fits (some (beforePick slot : Handler ι)) p) : p = ⟨slot, slot, false, false⟩ := by
  cases slot <;> exact h

/-- A handler that moves gets a past that fits. -/
theorem Moves.fits {m i : ℕ} {a : Event ι} {x x' : Handler ι} {conns conns' : ι → ℤ}
    {sem sem' : ℕ} (h : Moves m a i x conns sem x' conns' sem') {p : Past}
    (hp : Fits (some x) p) : Fits (some x') (p.note a i) := by
  cases h with
  | builtin hr =>
    rw [show p = _ from hp]
    exact fun hshed ↦ absurd hshed (by simp [Past.note, Event.sheds])
  | upgrade hr hw =>
    rw [show p = _ from hp]
    simp [Fits, Past.note, Event.acquires, Event.sheds, Event.picks, Request.ordinary, hw]
  | gate hr hw =>
    rw [show p = _ from hp]
    simp [Fits, Past.note, Event.acquires, Event.sheds, Event.picks, Request.ordinary, hr, hw]
  | acquire _ =>
    rw [show p = _ from hp]
    simp [Fits, Past.note, Event.acquires, Event.sheds, Event.picks]
  | shed =>
    rw [show p = _ from hp]
    simp [Fits, Past.note, Event.acquires, Event.sheds, Event.picks]
  | pick b =>
    rw [fits_of_beforePick hp]
    simp [Fits, Past.note, Event.acquires, Event.sheds, Event.picks]
  | noBackend =>
    rw [fits_of_beforePick hp]
    exact fits_afterProxy (by simp [Past.note, Event.acquires, Event.sheds, Event.picks])
  | finish =>
    rw [show p = _ from hp]
    exact fits_afterProxy (by simp [Past.note, Event.acquires, Event.sheds, Event.picks])
  | panic =>
    rw [show p = _ from hp]
    exact fits_afterProxy (by simp [Past.note, Event.acquires, Event.sheds, Event.picks])
  | release =>
    rw [show p = _ from hp]
    exact fun hshed ↦ absurd hshed (by simp [Past.note, Event.sheds])

/-- **The invariant.**  Each request has its handler, and each handler is where it can be after what
has happened. -/
structure Recorded (l : List (Event ι)) (s : State ι) : Prop where
  length : (requests l).length = s.handlers.length
  fits : ∀ i, Fits s.handlers[i]? (past l i)

theorem Recorded.next {cfg : Config ι} {l : List (Event ι)} {s s' : State ι} {a : Event ι}
    (h : Recorded l s) (hs : next cfg s a = some s') : Recorded (l ++ [a]) s' := by
  rcases next_cases hs with ⟨r, rfl, hs', -, -⟩ | ⟨i, x, x', conns, sem, hi, hs', -, -, hmoves⟩
  · refine ⟨?_, fun j ↦ ?_⟩
    · rw [requests_arrive, List.length_append, hs', List.length_append, h.length]
      rfl
    · rw [past_arrive, hs']
      rcases lt_trichotomy j s.handlers.length with hlt | rfl | hgt
      · rw [List.getElem?_append_left hlt, List.getElem?_append_left (h.length ▸ hlt)]
        exact h.fits j
      · have hfits := h.fits s.handlers.length
        rw [List.getElem?_eq_none le_rfl] at hfits
        rw [show past l _ = _ from hfits, List.getElem?_concat_length, ← h.length,
          List.getElem?_concat_length]
        rfl
      · have hfits := h.fits j
        rw [List.getElem?_eq_none hgt.le] at hfits
        rw [show past l _ = _ from hfits,
          List.getElem?_eq_none (by simpa using Nat.succ_le_of_lt hgt),
          List.getElem?_eq_none (by simpa [h.length] using Nat.succ_le_of_lt hgt)]
        rfl
  · refine ⟨?_, fun j ↦ ?_⟩
    · rw [requests_concat hmoves.request?, hs', List.length_set, h.length]
    · rw [past_concat hmoves.request?, hs', List.getElem?_set]
      by_cases hij : i = j
      · subst hij
        obtain ⟨hlt, -⟩ := List.getElem?_eq_some_iff.mp hi
        rw [if_pos rfl, if_pos hlt]
        exact hmoves.fits (hi ▸ h.fits i)
      · rw [if_neg hij, hmoves.note_of_ne hij]
        exact h.fits j

theorem recorded_of_trace {cfg : Config ι} {l : List (Event ι)} {s : State ι}
    (h : (system cfg).Trace initial l s) : Recorded l s := by
  refine System.Trace.induction (I := Recorded) ?_ (fun l t a t' _ ht hs ↦ ht.next hs) h
  exact ⟨rfl, fun i ↦ rfl⟩

/-! ## The slots

Slots are taken by the handlers that have passed the gate and not ended, which can now be said in
terms of events. -/

theorem sem_le_maxInFlight {cfg : Config ι} {s : State ι} (h : (system cfg).Reachable s) :
    s.sem ≤ cfg.maxInFlight := by
  refine h.invariant (I := fun s ↦ s.sem ≤ cfg.maxInFlight) ?_ fun s a s' hle hs ↦ ?_
  · rintro s rfl
    exact Nat.zero_le _
  · rcases next_cases hs with ⟨r, -, -, -, hsem⟩ | ⟨i, x, x', conns, sem, -, -, -, hsem, hmoves⟩
    · exact hsem.trans_le hle
    · rw [hsem]
      cases hmoves with
      | acquire hlt => exact hlt
      | release => exact (Nat.sub_le _ _).trans hle
      | _ => exact hle

/-- Has the handler passed the gate, with an ordinary request, and not ended? -/
def inFlight (l : List (Event ι)) (s : State ι) (i : ℕ) : Bool :=
  (past l i).ordinary && (past l i).acquired && decide (s.handlers[i]? ≠ some .ended)

theorem inFlight_eq {l : List (Event ι)} {s : State ι} (h : Recorded l s) {i : ℕ}
    {x : Handler ι} (hi : s.handlers[i]? = some x) : inFlight l s i = x.hasSlot := by
  have hfits := h.fits i
  rw [hi] at hfits
  rw [inFlight, hi, Bool.eq_iff_iff, hfits.hasSlot]
  simp [and_assoc]

/-- **The gate is tight.**  After every run, the slots that are taken are those of the ordinary
requests that have passed the gate and whose handlers have not ended, and there are at most
`MaxInFlight` of them.  A request that has been shed has not got a slot, and in no state of the run
has its handler a slot or a proxy that runs for it. -/
theorem gate_tight (cfg : Config ι) {l : List (Event ι)} {s : State ι}
    (h : (system cfg).Trace initial l s) :
    s.sem = (List.range s.handlers.length).countP (inFlight l s) ∧ s.sem ≤ cfg.maxInFlight ∧
      ∀ i, .shed i ∈ l → .acquire i ∉ l ∧ ∀ l₁ t x, l₁ <+: l →
        System.exec (next cfg) initial l₁ = some t → t.handlers[i]? = some x →
          x.hasSlot = false ∧ ∀ b, x.uses b = false := by
  have hrec := recorded_of_trace h
  have hreach : (system cfg).Reachable s := h.reachable rfl
  refine ⟨?_, sem_le_maxInFlight hreach, fun i hshed ↦ ?_⟩
  · rw [sem_eq_slots hreach, State.slots, countP_eq_countP_range]
    refine List.countP_congr fun i hi ↦ ?_
    have hget : s.handlers[i]? = some _ := List.getElem?_eq_getElem (List.mem_range.mp hi)
    rw [inFlight_eq hrec hget, hget]
    rfl
  · have hpast : past l i = ⟨true, false, true, false⟩ := by
      refine (hrec.fits i).of_shed (List.any_eq_true.mpr ⟨_, hshed, ?_⟩)
      exact decide_eq_true rfl
    refine ⟨fun hacq ↦ ?_, fun l₁ t x hl₁ ht hx ↦ ?_⟩
    · have hacquired : (past l i).acquired = true :=
        List.any_eq_true.mpr ⟨_, hacq, decide_eq_true rfl⟩
      simp [hpast] at hacquired
    · have hfits := (recorded_of_trace (System.trace_of_exec ht)).fits i
      rw [hx] at hfits
      refine ⟨Bool.eq_false_iff.mpr fun hslot ↦ ?_, fun b ↦ Bool.eq_false_iff.mpr fun huses ↦ ?_⟩
      · have hacquired := acquired_of_prefix hl₁ (hfits.hasSlot.mp hslot).2.1
        simp [hpast] at hacquired
      · cases x with
        | proxying c slot =>
          have hpicked := picked_of_prefix hl₁ (i := i) (by rw [show past l₁ i = _ from hfits])
          simp [hpast] at hpicked
        | _ => simp [Handler.uses] at huses

/-- Two requests come in where there is one slot; the second one is shed, and the proxy of the first
one panics. -/
def shedRun : List (Event Unit) :=
  [.arrive postMessage, .route 0, .acquire 0, .arrive postMessage, .route 1,
    .pick 0 fun _ ↦ idleBackend, .shed 1, .panic 0]

theorem gate_tight_shedRun : ∃ s, (system oneBackend).Trace initial shedRun s ∧ s.sem = 1 ∧
    .acquire 1 ∉ shedRun := by
  have hrun : (System.exec (next oneBackend) initial shedRun).map (·.sem) = some 1 := by
    decide +kernel
  obtain ⟨s, hs, hsem⟩ := Option.map_eq_some_iff.mp hrun
  have ht : (system oneBackend).Trace initial shedRun s := System.trace_of_exec hs
  exact ⟨s, ht, hsem, ((gate_tight oneBackend ht).2.2 1 (by simp [shedRun])).1⟩

end Serve
end Balancer
end GroupChat
