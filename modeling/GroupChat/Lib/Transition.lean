import Mathlib.Algebra.BigOperators.Group.List.Basic
import Mathlib.Algebra.GroupWithZero.Nat
import Mathlib.Data.Int.Notation
import Mathlib.Data.List.Basic
import Mathlib.Data.List.Induction
import Mathlib.Logic.Function.Basic
import Mathlib.Logic.Relation

/-!
# Transition systems and their runs

A program that reacts to events is a `Transition.System`: a predicate on the states it may start
in and a labelled step relation.  Everything proved about such a program here is proved in one of
three ways, and this file has one rule for each.

* **Invariants.**  `System.Reachable.invariant` is the induction over a run: what holds initially
  and survives a step holds of every reachable state.  `System.Reachable.invariant_of` is the same
  induction relative to an invariant that is already known.
* **Runs under a condition.**  `System.when C` is the same system in which only the steps that
  meet `C` are taken.  A property that the program has as long as nothing of a certain kind
  happens is an invariant of `S.when C`, and `System.Reachable.of_when` says that nothing is
  reachable there that is not reachable in `S`.  `System.Trace.forall_prefix_iff_when` is for a
  condition that is exact.
* **Counting.**  `System.Trace` keeps the labels of a run, and `System.Trace.le_add_tally` bounds
  what a run can add to a quantity by what its events weigh, each in the state it meets;
  `System.Trace.balance` says exactly what it adds and takes.  `System.Trace.append_collect` is for
  logs, which are compared as lists, up to their order or as parts of one another.
* **The past of a run.**  `System.Trace.induction` is for what depends on the events so far, and
  `System.Trace.occurs` for what a state can only have from an event.
* **Records.**  `System.record` keeps a record of the run beside the state, for statements about
  what has happened so far.
* **Several systems.**  `System.family` runs systems side by side, and `Reachable.component` and
  `Trace.family` go from their runs to the runs of the members and back.  Where the processes stand
  in a list of the state, `countP_set` says how a count changes when one of them moves.

A step relation that is the graph of a partial function (`System.ofFun`) can be run:
`System.trace_of_exec` turns an evaluation of `System.exec` into a `Trace`.
-/

set_option autoImplicit false

namespace Transition

universe u v

/-! ## Systems and what they can reach

The step relation carries a label, and forgetting the labels leaves the reflexive transitive
closure of one relation, whose rules are those of `ReflTransGen`.  An invariant is proved about a
reachable state, never about a run. -/

/-- A labelled transition system. -/
structure System (σ : Type u) (α : Type v) where
  /-- The states a run may start in. -/
  init : σ → Prop
  /-- `step s a s'`: the event `a` takes the state `s` to `s'`. -/
  step : σ → α → σ → Prop

namespace System

variable {σ : Type u} {α : Type v} (S : System σ α)

/-- One step, whatever its label. -/
def Move (s s' : σ) : Prop := ∃ a, S.step s a s'

/-- A finite run from `s` to `s'`. -/
def Run : σ → σ → Prop := Relation.ReflTransGen S.Move

/-- The states of the runs that start in an initial state. -/
def Reachable (s : σ) : Prop := ∃ s₀, S.init s₀ ∧ S.Run s₀ s

/-- The system in which only the steps that meet `C` are taken. -/
def when (C : σ → α → Prop) : System σ α where
  init := S.init
  step s a s' := C s a ∧ S.step s a s'

variable {S}

theorem Run.refl (s : σ) : S.Run s s := Relation.ReflTransGen.refl

theorem Run.tail {s s' s'' : σ} {a : α} (h : S.Run s s') (hs : S.step s' a s'') : S.Run s s'' :=
  Relation.ReflTransGen.tail h ⟨a, hs⟩

theorem Run.trans {s s' s'' : σ} (h : S.Run s s') (h' : S.Run s' s'') : S.Run s s'' :=
  Relation.ReflTransGen.trans h h'

/-- What every step preserves, every run preserves. -/
theorem Run.preserves {I : σ → Prop} {s s' : σ} (h : S.Run s s') (h₀ : I s)
    (hstep : ∀ s a s', I s → S.step s a s' → I s') : I s' := by
  induction h with
  | refl => exact h₀
  | tail _ hm ih =>
    obtain ⟨a, ha⟩ := hm
    exact hstep _ a _ ih ha

theorem Reachable.of_init {s : σ} (h : S.init s) : S.Reachable s := ⟨s, h, Run.refl s⟩

theorem Reachable.tail {s s' : σ} {a : α} (h : S.Reachable s) (hs : S.step s a s') :
    S.Reachable s' := by
  obtain ⟨s₀, h₀, hr⟩ := h
  exact ⟨s₀, h₀, hr.tail hs⟩

theorem Reachable.run {s s' : σ} (h : S.Reachable s) (hr : S.Run s s') : S.Reachable s' := by
  obtain ⟨s₀, h₀, hr₀⟩ := h
  exact ⟨s₀, h₀, hr₀.trans hr⟩

/-- **The induction over a run.** -/
theorem Reachable.invariant {I : σ → Prop} {s : σ} (h : S.Reachable s)
    (hinit : ∀ s, S.init s → I s) (hstep : ∀ s a s', I s → S.step s a s' → I s') : I s := by
  obtain ⟨s₀, h₀, hr⟩ := h
  exact hr.preserves (hinit s₀ h₀) hstep

/-- The induction over a run, relative to an invariant `J` that is already known. -/
theorem Reachable.invariant_of {I J : σ → Prop} {s : σ} (h : S.Reachable s)
    (hJ : ∀ s, S.Reachable s → J s) (hinit : ∀ s, S.init s → I s)
    (hstep : ∀ s a s', J s → I s → S.step s a s' → I s') : I s := by
  have hboth : S.Reachable s ∧ I s := by
    refine h.invariant (I := fun s ↦ S.Reachable s ∧ I s) ?_ ?_
    · exact fun s hs ↦ ⟨.of_init hs, hinit s hs⟩
    · exact fun s a s' ⟨hr, hi⟩ hs ↦ ⟨hr.tail hs, hstep s a s' (hJ s hr) hi hs⟩
  exact hboth.2

/-- A run of the restricted system is a run of the system. -/
theorem Run.of_when {C : σ → α → Prop} {s s' : σ} (h : (S.when C).Run s s') : S.Run s s' :=
  h.preserves (I := S.Run s) (Run.refl s) fun _ _ _ hr hs ↦ hr.tail hs.2

theorem Reachable.of_when {C : σ → α → Prop} {s : σ} (h : (S.when C).Reachable s) :
    S.Reachable s := by
  obtain ⟨s₀, h₀, hr⟩ := h
  exact ⟨s₀, h₀, hr.of_when⟩

/-! ## Runs with their labels

Some statements need the events that a run consists of: which of them have occurred, how many
there were, in which order.  `Trace` is an inductive type with the first event first, and has a
rule for the other end as well, since a past grows at its end. -/

variable (S)

/-- A run together with the events it consists of, first event first. -/
inductive Trace : σ → List α → σ → Prop
  | nil (s : σ) : Trace s [] s
  | cons {s s' s'' : σ} {a : α} {l : List α} (hs : S.step s a s') (h : Trace s' l s'') :
      Trace s (a :: l) s''

variable {S}

theorem Trace.run {s s' : σ} {l : List α} (h : S.Trace s l s') : S.Run s s' := by
  induction h with
  | nil s => exact Run.refl s
  | cons hs _ ih => exact ((Run.refl _).tail hs).trans ih

theorem Trace.reachable {s s' : σ} {l : List α} (h : S.Trace s l s') (h₀ : S.init s) :
    S.Reachable s' := ⟨s, h₀, h.run⟩

/-- The last step of a run. -/
theorem Trace.concat {s s' s'' : σ} {l : List α} {a : α} (h : S.Trace s l s')
    (hs : S.step s' a s'') :
    S.Trace s (l ++ [a]) s'' := by
  induction h with
  | nil s => exact .cons hs (.nil _)
  | cons hs' _ ih => exact .cons hs' (ih hs)

theorem Trace.of_concat {s s'' : σ} {l : List α} {a : α} (h : S.Trace s (l ++ [a]) s'') :
    ∃ s', S.Trace s l s' ∧ S.step s' a s'' := by
  induction l generalizing s with
  | nil =>
    rcases h with _ | ⟨hs, ⟨_⟩⟩
    exact ⟨s, .nil s, hs⟩
  | cons b l ih =>
    rcases h with _ | ⟨hs, hl⟩
    obtain ⟨s', hl', hs'⟩ := ih hl
    exact ⟨s', .cons hs hl', hs'⟩

/-- **The induction over a run, with its past**: a property of the events so far and of the state
that they have led to. -/
theorem Trace.induction {I : List α → σ → Prop} {s : σ} (h₀ : I [] s)
    (hstep : ∀ l t a t', S.Trace s l t → I l t → S.step t a t' → I (l ++ [a]) t') {s' : σ}
    {l : List α} (h : S.Trace s l s') : I l s' := by
  induction l using List.reverseRecOn generalizing s' with
  | nil =>
    cases h
    exact h₀
  | append_singleton l a ih =>
    obtain ⟨t, ht, hs⟩ := h.of_concat
    exact hstep l t a s' ht (ih ht) hs

/-- In the run there is an event with the property, in the state that it meets. -/
def Occurs (S : System σ α) (P : σ → α → Prop) (s : σ) (l : List α) : Prop :=
  ∃ l₁ a l₂ s₁ s₂, l = l₁ ++ a :: l₂ ∧ S.Trace s l₁ s₁ ∧ S.step s₁ a s₂ ∧ P s₁ a

theorem Occurs.concat {P : σ → α → Prop} {s : σ} {l : List α} (h : S.Occurs P s l) (a : α) :
    S.Occurs P s (l ++ [a]) := by
  obtain ⟨l₁, b, l₂, s₁, s₂, rfl, hl, hs, hp⟩ := h
  exact ⟨l₁, b, l₂ ++ [a], s₁, s₂, by simp, hl, hs, hp⟩

theorem Trace.occurs_last {P : σ → α → Prop} {s s' s'' : σ} {l : List α} {a : α}
    (h : S.Trace s l s') (hs : S.step s' a s'') (hp : P s' a) : S.Occurs P s (l ++ [a]) :=
  ⟨l, a, [], s', s'', rfl, h, hs, hp⟩

theorem Occurs.imp {P P' : σ → α → Prop} {s : σ} {l : List α} (h : S.Occurs P s l)
    (himp : ∀ s' a, S.Run s s' → P s' a → P' s' a) : S.Occurs P' s l := by
  obtain ⟨l₁, a, l₂, s₁, s₂, hl, hl₁, hs, hp⟩ := h
  exact ⟨l₁, a, l₂, s₁, s₂, hl, hl₁, hs, himp s₁ a hl₁.run hp⟩

/-- **What a state holds has come with an event**, if it was not there in the beginning, and what
is new after a step has come with this step or an earlier one. -/
theorem Trace.occurs {β : Type*} {Q : σ → β → Prop} {P : β → σ → α → Prop} {s s' : σ}
    {l : List α} (h : S.Trace s l s') (h₀ : ∀ x, ¬ Q s x)
    (hstep : ∀ l t a t', S.Trace s l t → S.step t a t' → ∀ x, Q t' x →
      Q t x ∨ S.Occurs (P x) s (l ++ [a])) {x : β} (hx : Q s' x) : S.Occurs (P x) s l := by
  refine Trace.induction (I := fun l t ↦ ∀ x, Q t x → S.Occurs (P x) s l)
    (fun x hx ↦ absurd hx (h₀ x)) ?_ h x hx
  intro l t a t' hl ih hs x hx
  rcases hstep l t a t' hl hs x hx with hx | hx
  · exact (ih x hx).concat a
  · exact hx

/-- A run of one system is a run of every system that has its steps. -/
theorem Trace.imp {S' : System σ α} {s s' : σ} {l : List α} (h : S.Trace s l s')
    (himp : ∀ s a s', S.step s a s' → S'.step s a s') : S'.Trace s l s' := by
  induction h with
  | nil s => exact .nil s
  | cons hs _ ih => exact .cons (himp _ _ _ hs) ih

/-- A run all of whose steps meet `C` is a run of the restricted system. -/
theorem Trace.when {C : σ → α → Prop} {s s' : σ} {l : List α} (h : S.Trace s l s') :
    (∀ s, ∀ a ∈ l, C s a) → (S.when C).Trace s l s' := by
  induction h with
  | nil s => exact fun _ ↦ .nil s
  | @cons s s' s'' a l hs _ ih =>
    intro hC
    exact .cons ⟨hC s a List.mem_cons_self, hs⟩ (ih fun s b hb ↦ hC s b (List.mem_cons_of_mem _ hb))

/-! ## Systems that can be run

A program is a partial function from a state and an event to the next state.  A concrete run of it
is evaluated by `exec`, and what is proved about traces then holds of it. -/

/-- The system whose steps are the values of a partial function. -/
def ofFun (init : σ → Prop) (next : σ → α → Option σ) : System σ α where
  init := init
  step s a s' := next s a = some s'

/-- Take the events of a list one after the other; `none` when one of them is not enabled. -/
def exec (next : σ → α → Option σ) : σ → List α → Option σ
  | s, [] => some s
  | s, a :: l => (next s a).bind fun s' ↦ exec next s' l

theorem trace_of_exec {init : σ → Prop} {next : σ → α → Option σ} {l : List α} :
    ∀ {s s' : σ}, exec next s l = some s' → (ofFun init next).Trace s l s' := by
  induction l with
  | nil =>
    intro s s' h
    obtain rfl : s = s' := by simpa [exec] using h
    exact .nil s
  | cons a l ih =>
    intro s s' h
    obtain ⟨t, ht, hl⟩ := Option.bind_eq_some_iff.mp h
    exact .cons ht (ih hl)

theorem exec_of_trace {init : σ → Prop} {next : σ → α → Option σ} {l : List α} {s s' : σ}
    (h : (ofFun init next).Trace s l s') : exec next s l = some s' := by
  induction h with
  | nil s => rfl
  | @cons s t s' a l hs _ ih =>
    rw [exec, show next s a = some t from hs]
    exact ih

theorem reachable_of_exec {init : σ → Prop} {next : σ → α → Option σ} {l : List α} {s s' : σ}
    (h₀ : init s) (h : exec next s l = some s') : (ofFun init next).Reachable s' :=
  (trace_of_exec h).reachable h₀

/-- The same for a run whose steps meet a condition that can be decided. -/
theorem trace_when_of_exec {init : σ → Prop} {next : σ → α → Option σ} {C : σ → α → Prop}
    [∀ s a, Decidable (C s a)] {l : List α} {s s' : σ}
    (h : exec (fun s a ↦ if C s a then next s a else none) s l = some s') :
    ((ofFun init next).when C).Trace s l s' := by
  refine (show (ofFun init _).Trace s l s' from trace_of_exec h).imp fun s a s' hs ↦ ?_
  by_cases hc : C s a
  · exact ⟨hc, (if_pos hc).symm.trans hs⟩
  · exact absurd ((if_neg hc).symm.trans hs) (by simp)

/-- The steps of a partial function, with a record of the run kept beside the state. -/
def record {τ : Type*} (next : σ → α → Option σ) (note : σ → α → σ → τ → τ) (p : σ × τ) (a : α) :
    Option (σ × τ) :=
  (next p.1 a).map fun s' ↦ (s', note p.1 a s' p.2)

/-- The record does not influence the run. -/
theorem Reachable.of_record {τ : Type*} {init : σ → Prop} {start : τ} {next : σ → α → Option σ}
    {note : σ → α → σ → τ → τ} {p : σ × τ}
    (h : (ofFun (fun p ↦ init p.1 ∧ p.2 = start) (record next note)).Reachable p) :
    (ofFun init next).Reachable p.1 := by
  refine h.invariant (I := fun p ↦ (ofFun init next).Reachable p.1) ?_ ?_
  · exact fun p hp ↦ .of_init hp.1
  · intro p a p' hp hstep
    obtain ⟨s', hs', rfl⟩ := Option.map_eq_some_iff.mp hstep
    exact hp.tail (a := a) hs'

/-! ## Counting along a run

The weight of an event may depend on the state that it meets.  The sums along a run are therefore
computed with the run, in `tally` for numbers and in `collect` for lists. -/

/-- What the events of a list weigh together, each in the state that it meets. -/
def tally (next : σ → α → Option σ) (w : σ → α → ℕ) : σ → List α → ℕ
  | _, [] => 0
  | s, a :: l => w s a + ((next s a).map fun s' ↦ tally next w s' l).getD 0

/-- **Counting along a run.**  If an event adds at most its weight to the quantity `m`, a run adds
at most the weight of its events. -/
theorem Trace.le_add_tally {init : σ → Prop} {next : σ → α → Option σ} {m : σ → ℕ}
    {w : σ → α → ℕ} {s s' : σ} {l : List α} (h : (ofFun init next).Trace s l s')
    (hstep : ∀ s a s', next s a = some s' → m s' ≤ m s + w s a) :
    m s' ≤ m s + tally next w s l := by
  induction h with
  | nil s => simp [tally]
  | @cons s t s' a l hs _ ih =>
    have hfirst := hstep s a t hs
    have htally : tally next w s (a :: l) = w s a + tally next w t l := by
      rw [tally, show next s a = some t from hs]
      rfl
    omega

/-- **Balances along a run.**  If an event adds its weight in `g` to the quantity `m` and takes its
weight in `d` from it, a run adds and takes what its events weigh. -/
theorem Trace.balance {init : σ → Prop} {next : σ → α → Option σ} {m : σ → ℕ}
    {g d : σ → α → ℕ} {s s' : σ} {l : List α} (h : (ofFun init next).Trace s l s')
    (hstep : ∀ s a s', next s a = some s' → m s' + d s a = m s + g s a) :
    m s' + tally next d s l = m s + tally next g s l := by
  induction h with
  | nil s => simp [tally]
  | @cons s t s' a l hs _ ih =>
    have hnext : next s a = some t := hs
    have hfirst := hstep s a t hnext
    rw [tally, tally, hnext, Option.map_some, Option.map_some, Option.getD_some, Option.getD_some]
    omega

/-- Weights that do not depend on the states can be added up without them. -/
theorem Trace.tally_eq_sum {init : σ → Prop} {next : σ → α → Option σ} {w : α → ℕ} {s s' : σ}
    {l : List α} (h : (ofFun init next).Trace s l s') :
    tally next (fun _ a ↦ w a) s l = (l.map w).sum := by
  induction h with
  | nil s => rfl
  | @cons s t s' a l hs _ ih =>
    rw [tally, show next s a = some t from hs, Option.map_some, Option.getD_some, ih,
      List.map_cons, List.sum_cons]

/-- **Runs end**: if every event of the run uses up some of the work that is left, there are no more
events than there was work. -/
theorem Trace.length_add_le {work : σ → ℕ} {s s' : σ} {l : List α} (h : S.Trace s l s')
    (hstep : ∀ s a s', a ∈ l → S.step s a s' → work s' < work s) :
    l.length + work s' ≤ work s := by
  induction h with
  | nil s => simp
  | @cons s t s' a l hs _ ih =>
    have hfirst := hstep s a t List.mem_cons_self hs
    have hrest := ih fun u b u' hb ↦ hstep u b u' (List.mem_cons_of_mem a hb)
    rw [List.length_cons]
    omega

/-- What the events of a list append together, each in the state that it meets. -/
def collect {β : Type*} (next : σ → α → Option σ) (w : σ → α → List β) : σ → List α → List β
  | _, [] => []
  | s, a :: l => w s a ++ ((next s a).map fun s' ↦ collect next w s' l).getD []

/-- **Logs along a run.**  If every step of the run extends the log `m` by what its event weighs,
then the run extends it by what its events weigh, in their order.  The logs are compared by `r`. -/
theorem Trace.append_collect {β : Type*} {r : List β → List β → Prop} (hrefl : ∀ a, r a a)
    (htrans : ∀ {a b c}, r a b → r b c → r a c) (happend : ∀ {a b} c, r a b → r (a ++ c) (b ++ c))
    {init : σ → Prop} {next : σ → α → Option σ} {m : σ → List β} {w : σ → α → List β} {s s' : σ}
    {l : List α} (h : (ofFun init next).Trace s l s')
    (hstep : ∀ t a t', (ofFun init next).Run s t → a ∈ l → next t a = some t' →
      r (m t') (m t ++ w t a)) : r (m s') (m s ++ collect next w s l) := by
  induction h with
  | nil s =>
    rw [collect, List.append_nil]
    exact hrefl _
  | @cons s t s' a l hs hl ih =>
    have hnext : next s a = some t := hs
    have hfirst := happend (collect next w t l) (hstep s a t (.refl s) List.mem_cons_self hnext)
    have hrest := ih fun u b u' hu hb hnext' ↦
      hstep u b u' (((Run.refl s).tail hs).trans hu) (List.mem_cons_of_mem a hb) hnext'
    rw [collect, hnext, Option.map_some, Option.getD_some, ← List.append_assoc]
    exact htrans hrest hfirst

section Logs

variable {β : Type*} {init : σ → Prop} {next : σ → α → Option σ} {m : σ → List β}
  {w : σ → α → List β} {s s' : σ} {l : List α}

theorem Trace.eq_append_collect (h : (ofFun init next).Trace s l s')
    (hstep : ∀ t a t', (ofFun init next).Run s t → a ∈ l → next t a = some t' →
      m t' = m t ++ w t a) : m s' = m s ++ collect next w s l :=
  h.append_collect (fun _ ↦ rfl) (fun h h' ↦ h.trans h') (fun c h ↦ congrArg (· ++ c) h) hstep

/-- A log that is kept in no particular order. -/
theorem Trace.perm_append_collect (h : (ofFun init next).Trace s l s')
    (hstep : ∀ t a t', (ofFun init next).Run s t → a ∈ l → next t a = some t' →
      (m t').Perm (m t ++ w t a)) : (m s').Perm (m s ++ collect next w s l) :=
  h.append_collect .refl .trans (fun c h ↦ h.append_right c) hstep

/-- A log that things may get lost of. -/
theorem Trace.sublist_append_collect (h : (ofFun init next).Trace s l s')
    (hstep : ∀ t a t', (ofFun init next).Run s t → a ∈ l → next t a = some t' →
      (m t').Sublist (m t ++ w t a)) : (m s').Sublist (m s ++ collect next w s l) :=
  h.append_collect List.Sublist.refl List.Sublist.trans (fun c h ↦ h.append_right c) hstep

end Logs

section Exact

variable {init : σ → Prop} {next : σ → α → Option σ} {I J : σ → Prop} {C D : σ → α → Prop}
  {s s' : σ} {l : List α}

/-! ## Exact conditions

A property that holds in all states of a run, as against a condition on each of its steps.  Where
one step is an equivalence, so is the run, provided that a state without the property is not
forgotten, which is why the statement is about all states. -/

/-- **Exact conditions.**  If a step that meets `D` keeps `I` exactly when it meets `C`, then `I`
holds all along a run whose steps meet `D` exactly when they all meet `C`.  This is relative to an
invariant `J` that every step keeps. -/
theorem Trace.forall_prefix_iff_when (hJ : ∀ s a s', J s → next s a = some s' → J s')
    (hstep : ∀ s a s', J s → I s → D s a → next s a = some s' → (I s' ↔ C s a))
    (h : ((ofFun init next).when D).Trace s l s') (hJ₀ : J s) (h₀ : I s) :
    (∀ l₁ t, l₁ <+: l → exec next s l₁ = some t → I t) ↔
      ((ofFun init next).when C).Trace s l s' := by
  induction h with
  | nil s =>
    refine iff_of_true (fun l₁ t hl₁ ht ↦ ?_) (.nil s)
    obtain rfl := List.prefix_nil.mp hl₁
    exact Option.some.inj ht ▸ h₀
  | @cons s t s' a l hs hl ih =>
    obtain ⟨hD, hnext⟩ : D s a ∧ next s a = some t := hs
    have hJt : J t := hJ s a t hJ₀ hnext
    have hiff := hstep s a t hJ₀ h₀ hD hnext
    constructor
    · intro hall
      have ht : I t := hall [a] t ⟨l, rfl⟩ (by rw [exec, hnext]; rfl)
      refine .cons ⟨hiff.mp ht, hnext⟩ ((ih hJt ht).mp fun l₁ t' hl₁ ht' ↦ ?_)
      refine hall (a :: l₁) t' (List.cons_prefix_cons.mpr ⟨rfl, hl₁⟩) ?_
      rw [exec, hnext]
      exact ht'
    · rintro (_ | ⟨⟨hC, hs'⟩, hrest⟩) l₁ t' hl₁ ht'
      rename_i t₁
      obtain rfl : t = t₁ := Option.some.inj (hnext.symm.trans hs')
      have ht : I t := hiff.mpr hC
      cases l₁ with
      | nil => exact Option.some.inj ht' ▸ h₀
      | cons b l₁ =>
        obtain ⟨rfl, hrest₁⟩ := List.cons_prefix_cons.mp hl₁
        rw [exec, hnext] at ht'
        exact (ih hJt ht).mpr hrest l₁ t' hrest₁ ht'

/-- The same for any run. -/
theorem Trace.forall_prefix_iff_of (hJ : ∀ s a s', J s → next s a = some s' → J s')
    (hstep : ∀ s a s', J s → I s → next s a = some s' → (I s' ↔ C s a))
    (h : (ofFun init next).Trace s l s') (hJ₀ : J s) (h₀ : I s) :
    (∀ l₁ t, l₁ <+: l → exec next s l₁ = some t → I t) ↔
      ((ofFun init next).when C).Trace s l s' :=
  (h.when fun _ _ _ ↦ trivial).forall_prefix_iff_when (D := fun _ _ ↦ True) hJ
    (fun s a s' hJs hs _ hnext ↦ hstep s a s' hJs hs hnext) hJ₀ h₀

/-- The same without an invariant. -/
theorem Trace.forall_prefix_iff (hstep : ∀ s a s', I s → next s a = some s' → (I s' ↔ C s a))
    (h : (ofFun init next).Trace s l s') (h₀ : I s) :
    (∀ l₁ t, l₁ <+: l → exec next s l₁ = some t → I t) ↔
      ((ofFun init next).when C).Trace s l s' :=
  h.forall_prefix_iff_of (J := fun _ ↦ True) (fun _ _ _ _ _ ↦ trivial)
    (fun s a s' _ hs hnext ↦ hstep s a s' hs hnext) trivial h₀

end Exact

/-! ## Several systems side by side

The members of a family do not influence each other, so that every run of the family projects to a
run of each. -/

section Family

variable {ι : Type*} [DecidableEq ι]

/-- The systems of a family run side by side; a step is a step of one of them. -/
def family (S : ι → System σ α) : System (ι → σ) (ι × α) where
  init s := ∀ i, (S i).init (s i)
  step s a s' := ∃ t, (S a.1).step (s a.1) a.2 t ∧ s' = Function.update s a.1 t

variable {S : ι → System σ α}

/-- Each of them is in a state that it can reach by itself. -/
theorem Reachable.component {s : ι → σ} (h : (family S).Reachable s) :
    ∀ i, (S i).Reachable (s i) := by
  refine h.invariant (I := fun s ↦ ∀ i, (S i).Reachable (s i)) (fun s h₀ i ↦ .of_init (h₀ i)) ?_
  rintro s ⟨j, a⟩ s' hs ⟨t, ht, rfl⟩ i
  rw [Function.update_apply]
  split
  · rename_i hij
    subst hij
    exact (hs i).tail ht
  · exact hs i

/-- A run of one of them is a run of the family in which the others rest. -/
theorem Trace.family {s : ι → σ} {i : ι} {t : σ} {l : List α} (h : (S i).Trace (s i) l t) :
    (family S).Trace s (l.map fun a ↦ (i, a)) (Function.update s i t) := by
  generalize ht : s i = t₀ at h
  induction h generalizing s with
  | nil t =>
    rw [← ht, Function.update_eq_self]
    exact .nil s
  | @cons t t' t'' a l hs _ ih =>
    have hrest := ih (s := Function.update s i t') (Function.update_self ..)
    rw [Function.update_idem] at hrest
    exact .cons ⟨t', ht ▸ hs, rfl⟩ hrest

end Family

end System

/-! ## Processes in a list

A state may have a list of processes, and a step moves one of them.  Counts and sums over the list
then change by what this one process contributes. -/

/-- One process of a list moves: a count changes by what the process counts before and after. -/
theorem countP_set {σ : Type*} {p : σ → Bool} {l : List σ} {i : ℕ} {x : σ} (hi : l[i]? = some x)
    (y : σ) : ((l.set i y).countP p : ℤ) = l.countP p - (p x).toNat + (p y).toNat := by
  obtain ⟨hlt, rfl⟩ := List.getElem?_eq_some_iff.mp hi
  have hpos : (if p l[i] = true then 1 else 0) ≤ l.countP p := List.boole_getElem_le_countP hlt
  rw [List.countP_set hlt]
  cases hp : p l[i] <;> cases p y <;>
    simp only [hp, if_true, if_false, Bool.false_eq_true, Bool.toNat_true, Bool.toNat_false]
      at hpos ⊢ <;> omega

/-- One process of a list moves: a sum changes by what the process contributes before and after. -/
theorem sum_map_set {σ M : Type*} [AddCommMonoid M] {f : σ → M} {l : List σ} {i : ℕ} {x : σ}
    (hi : l[i]? = some x) (y : σ) :
    ((l.set i y).map f).sum + f x = (l.map f).sum + f y := by
  induction l generalizing i with
  | nil => simp at hi
  | cons z l ih =>
    cases i with
    | zero =>
      obtain rfl := Option.some.inj hi
      simp only [List.set_cons_zero, List.map_cons, List.sum_cons]
      rw [add_right_comm, add_right_comm (f z), add_comm (f y)]
    | succ i =>
      simp only [List.set_cons_succ, List.map_cons, List.sum_cons]
      rw [add_assoc, ih hi, ← add_assoc]

/-- Processes are counted by their places. -/
theorem countP_eq_countP_range {σ : Type*} (p : σ → Bool) (l : List σ) :
    l.countP p = (List.range l.length).countP fun i ↦ (l[i]?.map p).getD false := by
  induction l using List.reverseRecOn with
  | nil => rfl
  | append_singleton l x ih =>
    rw [List.countP_append, ih, List.length_append, List.length_singleton, List.range_succ,
      List.countP_append]
    congr 1
    · refine List.countP_congr fun i hi ↦ ?_
      rw [List.getElem?_append_left (List.mem_range.mp hi)]
    · simp

end Transition
