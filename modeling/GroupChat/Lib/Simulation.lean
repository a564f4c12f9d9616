import GroupChat.Lib.Transition

/-!
# Simulation

A transition system is simulated by another one if the two take the same events and a relation
between their states survives each of them.  What the first one does in a run is then done by the
second one in a run with the same events, and the states at the end are related.

* `System.Simulation` is the condition on one step, `Simulation.trace` what follows for a run.
-/

set_option autoImplicit false

namespace Transition
namespace System

universe u v w

variable {σ : Type u} {σ' : Type v} {α : Type w}

/-- Related states take the same events, and stay related. -/
structure Simulation (S : System σ α) (S' : System σ' α) (R : σ → σ' → Prop) : Prop where
  init : ∀ s, S.init s → ∃ s', S'.init s' ∧ R s s'
  step : ∀ s a t s', R s s' → S.step s a t → ∃ t', S'.step s' a t' ∧ R t t'

variable {S : System σ α} {S' : System σ' α} {R : σ → σ' → Prop}

/-- **A run is simulated.** -/
theorem Simulation.trace (hsim : Simulation S S' R) {s t : σ} {s' : σ'} {l : List α}
    (hR : R s s') (h : S.Trace s l t) : ∃ t', S'.Trace s' l t' ∧ R t t' := by
  induction h generalizing s' with
  | nil s => exact ⟨s', .nil s', hR⟩
  | @cons s u t a l hs _ ih =>
    obtain ⟨u', hs', hu⟩ := hsim.step s a u s' hR hs
    obtain ⟨t', ht', ht⟩ := ih hu
    exact ⟨t', .cons hs' ht', ht⟩

/-- A run from the start is simulated by one from the start. -/
theorem Simulation.trace_of_init (hsim : Simulation S S' R) {s t : σ} {l : List α}
    (h₀ : S.init s) (h : S.Trace s l t) :
    ∃ s' t', S'.init s' ∧ S'.Trace s' l t' ∧ R t t' := by
  obtain ⟨s', h₀', hR⟩ := hsim.init s h₀
  obtain ⟨t', ht', ht⟩ := hsim.trace hR h
  exact ⟨s', t', h₀', ht', ht⟩

end System
end Transition
