import GroupChat.Balancer.Failover

/-!
# The latency of a backend

`LB.ServeHTTP` measures how long the proxy of the chosen backend takes and folds the time into the
`latencyEWMA` of that backend.  It does not learn who has answered: `retryRoundTripper.RoundTrip`
may have sent the request to an alternate, or there may be no response at all, and if the proxy
panics the time is not recorded although a response has come.

* `respondent` is the backend whose response `RoundTrip` returns, if there is one
  (`response_roundTrip`: it is that of `roundTrip`).  It is the chosen backend exactly if the first
  attempt does not fail (`response_eq_chosen_iff`).
* `Latency.State` keeps the samples that have been folded into the averages
  (`latencyEWMA_eq_average`), for the statement that each of them was due (`Attributed`).
* `Latency.attributed_iff`: they are in all states of a run if and only if whenever a proxy returns,
  the response is that of the first attempt, and no proxy panics after a response has come.
-/

set_option autoImplicit false

namespace GroupChat
namespace Balancer

open Transition

universe u

variable {ι : Type u} [DecidableEq ι]

/-! ## Who has answered

`RoundTrip` returns a response without saying whose it is, and `ServeHTTP` takes it for that of
the backend it has picked. -/

/-- The backend whose response `RoundTrip` returns; `fails` are the backends whose transport returns
an error, and `view` is what the backends look like at the retry. -/
def respondent (cfg : Serve.Config ι) (fails : ι → Bool) (view : ι → Backend) (b : ι) : Option ι :=
  if fails b then
    match pickExcluding cfg.weights cfg.backends view (some b) with
    | none => none
    | some alt => if alt = b then none else if fails alt then none else some alt
  else some b

theorem response_roundTrip (cfg : Serve.Config ι) (transport : ι → Outcome) (view : ι → Backend)
    (b : ι) (req : Outgoing) : (roundTrip cfg transport view b req).response =
      respondent cfg (fun c ↦ (transport c).failed) view b := by
  have hfirst : (transportRoundTrip transport b req.body).response =
      if (transport b).failed then none else some b := rfl
  simp only [roundTrip, respondent]
  cases hfails : (transport b).failed with
  | true =>
    rw [hfails, if_pos rfl] at hfirst
    simp only [hfirst, if_true]
    cases pickExcluding cfg.weights cfg.backends view (some b) with
    | none => exact hfirst
    | some alt =>
      by_cases halt : alt = b
      · simp only [if_pos halt]
        exact hfirst
      · simp only [if_neg halt]
        rfl
  | false =>
    rw [hfails, if_neg (by simp)] at hfirst
    simp only [hfirst]
    rfl

/-- The response is that of the first attempt exactly if the first attempt does not fail. -/
theorem respondent_eq_some_self_iff (cfg : Serve.Config ι) (fails : ι → Bool) (view : ι → Backend)
    (b : ι) : respondent cfg fails view b = some b ↔ fails b = false := by
  rw [respondent]
  cases hfails : fails b with
  | true =>
    simp only [if_true, Bool.true_eq_false, iff_false]
    cases pickExcluding cfg.weights cfg.backends view (some b) with
    | none => simp
    | some alt =>
      by_cases halt : alt = b
      · simp [halt]
      · cases fails alt <;> simp [halt]
  | false => simp

/-- **Who has answered**: the chosen backend exactly if its transport has returned no error. -/
theorem response_eq_chosen_iff (cfg : Serve.Config ι) (transport : ι → Outcome) (view : ι → Backend)
    (b : ι) (req : Outgoing) :
    (roundTrip cfg transport view b req).response = some b ↔ (transport b).failed = false := by
  rw [response_roundTrip, respondent_eq_some_self_iff]

namespace Latency

/-! ## The handlers and their samples

A sample is a time with the backend that it is charged to.  To say what is due, the state keeps
the samples with the handlers that they come from. -/

/-- Where a call of `ServeHTTP` for an ordinary request stands, from its pick on. -/
inductive Handler (ι : Type u)
  /-- There was no backend to pick. -/
  | refused
  /-- The proxy of the chosen backend is running since `start`. -/
  | proxying (chosen : ι) (start : ℤ)
  /-- `RoundTrip` has returned the response of the backend `respondent`, or an error. -/
  | responded (chosen : ι) (start : ℤ) (respondent : Option ι)
  | ended (respondent : Option ι) (start stop : ℤ)
  deriving DecidableEq

/-- A time that has been folded into an average. -/
structure Sample (ι : Type u) where
  handler : ℕ
  backend : ι
  /-- `float64(time.Since(start).Milliseconds())`. -/
  ms : ℤ
  deriving DecidableEq

structure State (ι : Type u) where
  latencyEWMA : ι → ℚ
  handlers : List (Handler ι)
  /-- To speak about the past: the times that have been folded into the averages. -/
  samples : List (Sample ι)

inductive Event (ι : Type u)
  /-- A handler picks a backend and starts the clock. -/
  | pick (view : ι → Backend) (now : ℤ)
  /-- `RoundTrip` returns. -/
  | respond (i : ℕ) (fails : ι → Bool) (view : ι → Backend)
  /-- The proxy returns. -/
  | finish (i : ℕ) (now : ℤ)
  /-- The proxy panics. -/
  | panic (i : ℕ) (now : ℤ)

/-- `Duration.Milliseconds` of a time in nanoseconds. -/
def milliseconds (d : ℤ) : ℤ := d.tdiv 1000000

/-- `Backend.updateLatency`, with exact arithmetic. -/
def updateLatency (alpha : ℚ) (latencyEWMA : ι → ℚ) (b : ι) (ms : ℤ) : ι → ℚ :=
  Function.update latencyEWMA b (alpha * ms + (1 - alpha) * latencyEWMA b)

/-- One event; `alpha` is `LBAlpha`. -/
def next (cfg : Serve.Config ι) (alpha : ℚ) (s : State ι) : Event ι → Option (State ι)
  | .pick view now =>
    match Balancer.pick cfg.weights cfg.backends view with
    | none => some { s with handlers := s.handlers ++ [.refused] }
    | some chosen => some { s with handlers := s.handlers ++ [.proxying chosen now] }
  | .respond i fails view =>
    match s.handlers[i]? with
    | some (.proxying chosen start) =>
      some { s with
        handlers := s.handlers.set i
          (.responded chosen start (respondent cfg fails view chosen)) }
    | _ => none
  | .finish i now =>
    match s.handlers[i]? with
    | some (.responded chosen start r) =>
      let elapsed := milliseconds (now - start)
      some ⟨updateLatency alpha s.latencyEWMA chosen elapsed,
        s.handlers.set i (.ended r start now), s.samples ++ [⟨i, chosen, elapsed⟩]⟩
    | _ => none
  | .panic i now =>
    match s.handlers[i]? with
    | some (.proxying _ start) =>
      some { s with handlers := s.handlers.set i (.ended none start now) }
    | some (.responded _ start r) =>
      some { s with handlers := s.handlers.set i (.ended r start now) }
    | _ => none

/-- The averages of new backends. -/
def initial : State ι := ⟨fun _ ↦ 10, [], []⟩

def system (cfg : Serve.Config ι) (alpha : ℚ) : System (State ι) (Event ι) :=
  .ofFun (· = initial) (next cfg alpha)

/-! ## The averages

The average is a fold over the samples of a backend, in the order in which they were recorded; the
arithmetic is exact. -/

/-- The samples of a backend. -/
def State.samplesOf (s : State ι) (b : ι) : List (Sample ι) :=
  s.samples.filter fun x ↦ decide (x.backend = b)

omit [DecidableEq ι] in
/-- What becomes of an average. -/
def average (alpha : ℚ) (samples : List (Sample ι)) : ℚ :=
  samples.foldl (fun old x ↦ alpha * x.ms + (1 - alpha) * old) 10

/-- **The average of a backend is made of its samples.** -/
theorem latencyEWMA_eq_average {cfg : Serve.Config ι} {alpha : ℚ} {s : State ι}
    (h : (system cfg alpha).Reachable s) (b : ι) :
    s.latencyEWMA b = average alpha (s.samplesOf b) := by
  refine h.invariant (I := fun s ↦ s.latencyEWMA b = average alpha (s.samplesOf b)) ?_ ?_
  · rintro s rfl
    rfl
  · intro s a s' hs hnext
    replace hnext : next cfg alpha s a = some s' := hnext
    cases a with
    | pick view now =>
      simp only [next] at hnext
      split at hnext <;> exact Option.some.inj hnext ▸ hs
    | respond i fails view =>
      simp only [next] at hnext
      split at hnext
      · exact Option.some.inj hnext ▸ hs
      · simp at hnext
    | finish i now =>
      simp only [next] at hnext
      split at hnext
      · rename_i chosen start r _
        obtain rfl := Option.some.inj hnext
        rw [State.samplesOf, List.filter_append, average, List.foldl_append, ← average,
          ← State.samplesOf, ← hs]
        by_cases hb : b = chosen
        · subst hb
          simp [updateLatency]
        · simp [updateLatency, Function.update_of_ne hb, Ne.symm hb]
      · simp at hnext
    | panic i now =>
      simp only [next] at hnext
      split at hnext
      · exact Option.some.inj hnext ▸ hs
      · exact Option.some.inj hnext ▸ hs
      · simp at hnext

/-! ## Attribution

Each handler owes at most one sample.  What has been charged is compared with what is owed,
handler by handler. -/

omit [DecidableEq ι] in
/-- The samples that a handler owes: the time that it took, to the backend that has answered. -/
def Handler.due (i : ℕ) : Handler ι → List (Sample ι)
  | .ended (some b) start stop => [⟨i, b, milliseconds (stop - start)⟩]
  | _ => []

omit [DecidableEq ι] in
/-- The same for a handler that need not exist. -/
def State.due (s : State ι) (i : ℕ) : List (Sample ι) := (s.handlers[i]?.map (·.due i)).getD []

omit [DecidableEq ι] in
/-- The samples of a handler are those that are due: for a request which a backend has answered one
sample, its time, charged to that backend, and none for the others. -/
def Attributed (s : State ι) : Prop :=
  ∀ i, s.samples.filter (fun x ↦ decide (x.handler = i)) = s.due i

omit [DecidableEq ι] in
/-- The condition that every step has to meet. -/
def Charges (s : State ι) : Event ι → Prop
  | .finish i _ => ∀ chosen start r, s.handlers[i]? = some (.responded chosen start r) →
      r = some chosen
  | .panic i _ => ∀ chosen start r, s.handlers[i]? = some (.responded chosen start r) → r = none
  | _ => True

/-! ## One handler at a time

The samples of a handler are found by its number.  When it moves, the samples of the others are as
they were. -/

omit [DecidableEq ι] in
theorem due_set {s : State ι} {i : ℕ} {h : Handler ι} (hi : s.handlers[i]? = some h)
    (latencyEWMA : ι → ℚ) (h' : Handler ι) (samples : List (Sample ι)) (j : ℕ) :
    State.due ⟨latencyEWMA, s.handlers.set i h', samples⟩ j =
      if i = j then h'.due i else s.due j := by
  obtain ⟨hlt, -⟩ := List.getElem?_eq_some_iff.mp hi
  rw [State.due, List.getElem?_set]
  by_cases hij : i = j
  · subst hij
    rw [if_pos rfl, if_pos hlt, if_pos rfl]
    rfl
  · rw [if_neg hij, if_neg hij]
    rfl

omit [DecidableEq ι] in
/-- A handler that owes no sample has none. -/
theorem Attributed.filter_eq_nil {s : State ι} {i : ℕ} {h : Handler ι} (hs : Attributed s)
    (hi : s.handlers[i]? = some h) (hdue : h.due i = []) :
    s.samples.filter (fun x ↦ decide (x.handler = i)) = [] := by
  rw [hs i, State.due, hi]
  exact hdue

omit [DecidableEq ι] in
/-- A handler moves without a sample: that is right if it owes none. -/
theorem attributed_set_iff {s : State ι} {i : ℕ} {h h' : Handler ι} (hs : Attributed s)
    (hi : s.handlers[i]? = some h) (hdue : h.due i = []) :
    Attributed { s with handlers := s.handlers.set i h' } ↔ h'.due i = [] := by
  have hnone := hs.filter_eq_nil hi hdue
  constructor
  · intro hall
    have hat := hall i
    rw [due_set hi, if_pos rfl] at hat
    exact hat.symm.trans hnone
  · intro hnew j
    rw [due_set hi]
    by_cases hij : i = j
    · subst hij
      rw [if_pos rfl, hnew]
      exact hnone
    · rw [if_neg hij]
      exact hs j

omit [DecidableEq ι] in
/-- A handler ends with a sample: that is right if the backend which is charged has answered. -/
theorem attributed_charge_iff {s : State ι} {i : ℕ} {h : Handler ι} (hs : Attributed s)
    (hi : s.handlers[i]? = some h) (hdue : h.due i = []) (latencyEWMA : ι → ℚ) (chosen : ι)
    (r : Option ι) (start now : ℤ) :
    Attributed ⟨latencyEWMA, s.handlers.set i (.ended r start now),
      s.samples ++ [⟨i, chosen, milliseconds (now - start)⟩]⟩ ↔ r = some chosen := by
  have hnone := hs.filter_eq_nil hi hdue
  constructor
  · intro hall
    have hat := hall i
    rw [due_set hi, if_pos rfl, List.filter_append, hnone] at hat
    cases r with
    | none => simp [Handler.due] at hat
    | some b => simpa [Handler.due, eq_comm] using hat
  · rintro rfl j
    rw [due_set hi, List.filter_append]
    by_cases hij : i = j
    · subst hij
      simp [hnone, Handler.due]
    · rw [if_neg hij, hs j]
      simp [hij]

omit [DecidableEq ι] in
/-- A new handler owes no sample. -/
theorem attributed_append {s : State ι} (hs : Attributed s) {h : Handler ι}
    (hdue : ∀ i, h.due i = []) : Attributed { s with handlers := s.handlers ++ [h] } := by
  intro i
  rw [hs i, State.due, State.due, List.getElem?_append]
  split
  · rfl
  · rename_i hge
    rw [List.getElem?_eq_none (not_lt.mp hge), List.getElem?_singleton]
    split
    · exact (hdue i).symm
    · rfl

/-! ## The condition for a step

A step that records a time must charge it to the backend that has answered, and a step that ends a
handler without recording must owe nothing. -/

/-- **The exact condition for a step.** -/
theorem attributed_next_iff {cfg : Serve.Config ι} {alpha : ℚ} {s s' : State ι} {a : Event ι}
    (hs : Attributed s) (hnext : next cfg alpha s a = some s') : Attributed s' ↔ Charges s a := by
  cases a with
  | pick view now =>
    refine iff_of_true ?_ trivial
    simp only [next] at hnext
    split at hnext
    · exact Option.some.inj hnext ▸ attributed_append hs fun _ ↦ rfl
    · exact Option.some.inj hnext ▸ attributed_append hs fun _ ↦ rfl
  | respond i fails view =>
    refine iff_of_true ?_ trivial
    simp only [next] at hnext
    split at hnext
    · rename_i hi
      exact Option.some.inj hnext ▸ (attributed_set_iff hs hi rfl).mpr rfl
    · simp at hnext
  | finish i now =>
    simp only [next] at hnext
    split at hnext
    · rename_i chosen start r hi
      obtain rfl := Option.some.inj hnext
      rw [attributed_charge_iff hs hi rfl]
      constructor
      · rintro rfl chosen₁ start₁ r₁ hi₁
        obtain ⟨rfl, -, rfl⟩ := Handler.responded.inj (Option.some.inj (hi.symm.trans hi₁))
        rfl
      · exact fun hcharges ↦ hcharges chosen start r hi
    · simp at hnext
  | panic i now =>
    simp only [next] at hnext
    split at hnext
    · rename_i chosen start hi
      obtain rfl := Option.some.inj hnext
      refine iff_of_true ((attributed_set_iff hs hi rfl).mpr rfl) fun chosen₁ start₁ r₁ hi₁ ↦ ?_
      exact absurd (Option.some.inj (hi.symm.trans hi₁)) (by simp)
    · rename_i chosen start r hi
      obtain rfl := Option.some.inj hnext
      rw [attributed_set_iff hs hi rfl]
      constructor
      · intro hdue chosen₁ start₁ r₁ hi₁
        obtain ⟨-, -, rfl⟩ := Handler.responded.inj (Option.some.inj (hi.symm.trans hi₁))
        cases r with
        | none => rfl
        | some b => simp [Handler.due] at hdue
      · intro hcharges
        rw [hcharges chosen start r hi]
        rfl
    · simp at hnext

/-- **When latencies are charged to the backend that has answered.**  In all states of a run the
samples are those that are due if and only if in every step of it in which a proxy returns the
response is that of the chosen backend, and none panics after a response has come. -/
theorem attributed_iff (cfg : Serve.Config ι) (alpha : ℚ) {l : List (Event ι)} {s : State ι}
    (h : (system cfg alpha).Trace initial l s) :
    (∀ l₁ t, l₁ <+: l → System.exec (next cfg alpha) initial l₁ = some t → Attributed t) ↔
      ((system cfg alpha).when Charges).Trace initial l s :=
  h.forall_prefix_iff (I := Attributed) (fun _ _ _ hs hnext ↦ attributed_next_iff hs hnext)
    fun _ ↦ rfl

/-- A request is forwarded to two backends that look the same; `fails` are those that do not
answer. -/
def forwardRun (fails : Bool → Bool) : List (Event Bool) :=
  [.pick bothHealthy 0, .respond 0 fails bothHealthy]

/-- The chosen backend answers, after 7 ms. -/
theorem attributed_answered : ∃ s, (system twoBackends (2 / 5)).Trace initial
    (forwardRun (fun _ ↦ false) ++ [.finish 0 7000000]) s ∧ Attributed s := by
  have hrun : (System.exec (next twoBackends (2 / 5)) initial (forwardRun fun _ ↦ false)).map
      (·.handlers) = some [.responded false 0 (some false)] := by decide +kernel
  obtain ⟨t, ht, hhandlers⟩ := Option.map_eq_some_iff.mp hrun
  have hforward : (system twoBackends (2 / 5)).Trace initial (forwardRun fun _ ↦ false) t :=
    System.trace_of_exec ht
  have hi : t.handlers[0]? = some (.responded false 0 (some false)) := by
    rw [hhandlers]
    rfl
  obtain ⟨s, hfinish⟩ : ∃ s, next twoBackends (2 / 5) t (.finish 0 7000000) = some s :=
    Option.isSome_iff_exists.mp (by simp [next, hi])
  have hcharges : Charges t (.finish 0 7000000) := by
    intro chosen start r hr
    obtain ⟨rfl, -, rfl⟩ := Handler.responded.inj (Option.some.inj (hi.symm.trans hr))
    rfl
  have htrivial : ∀ s, ∀ a ∈ forwardRun fun _ ↦ false, Charges s a := by
    intro s a ha
    simp only [forwardRun, List.mem_cons, List.not_mem_nil, or_false] at ha
    rcases ha with rfl | rfl <;> trivial
  have ht' := hforward.concat hfinish
  have hwhen := (hforward.when htrivial).concat ⟨hcharges, hfinish⟩
  exact ⟨s, ht', (attributed_iff twoBackends (2 / 5) ht').mpr hwhen _ s (List.prefix_refl _)
    (System.exec_of_trace ht')⟩

/-- **The wrong backend is charged**: the chosen one does not answer, and the two seconds until the
alternate has done so are its sample. -/
theorem not_attributed_failedOver : ∃ s, (system twoBackends (2 / 5)).Trace initial
    (forwardRun (fun b ↦ !b) ++ [.finish 0 2000000000]) s ∧
      s.handlers = [.ended (some true) 0 2000000000] ∧ s.samples = [⟨0, false, 2000⟩] ∧
      ¬Attributed s := by
  have hrun : (System.exec (next twoBackends (2 / 5)) initial
      (forwardRun (fun b ↦ !b) ++ [.finish 0 2000000000])).map (fun s ↦ (s.handlers, s.samples)) =
        some ([.ended (some true) 0 2000000000], [⟨0, false, 2000⟩]) := by decide +kernel
  obtain ⟨s, hs, hres⟩ := Option.map_eq_some_iff.mp hrun
  obtain ⟨hhandlers, hsamples⟩ := Prod.mk.inj hres
  refine ⟨s, System.trace_of_exec hs, hhandlers, hsamples, fun hatt ↦ ?_⟩
  have hat := hatt 0
  rw [State.due, hhandlers, hsamples] at hat
  exact absurd hat (by decide)

end Latency
end Balancer
end GroupChat
