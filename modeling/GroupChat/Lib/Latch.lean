import GroupChat.Lib.Transition

/-!
# Flags that events set and reset

Many a program keeps a flag about one of its parts: some events set it, some reset it, all others
leave it alone.  The part may come and go, and its flag says nothing while it is away.

* `System.Latched`: an event of the run has set the flag, and none after it has reset it.
* `System.Trace.flag_iff`: what a step does to the flag, for each kind of event, makes the flag an
  exact account of the run.

For a flag that is also about the past of another state than the current one, the bearer is a
parameter: the flag of a part that has gone and come back is that of the new part.
-/

set_option autoImplicit false

namespace Transition
namespace System

variable {σ : Type*} {α : Type*} {next : σ → α → Option σ} {set reset : σ → α → Prop}

/-- An event of the run sets the flag, and from then on none resets it. -/
def Latched (next : σ → α → Option σ) (set reset : σ → α → Prop) (s : σ) (l : List α) : Prop :=
  ∃ l₁ a l₂ t, l = l₁ ++ a :: l₂ ∧ exec next s l₁ = some t ∧ set t a ∧
    ∀ l₃ b l₄ u, l₂ = l₃ ++ b :: l₄ → exec next t (a :: l₃) = some u → ¬ reset u b

theorem exec_append (s : σ) (l l' : List α) :
    exec next s (l ++ l') = (exec next s l).bind fun t ↦ exec next t l' := by
  induction l generalizing s with
  | nil => rfl
  | cons a l ih =>
    rw [List.cons_append, exec, exec, Option.bind_assoc]
    congr 1
    exact funext fun t ↦ ih t

theorem not_latched_nil (s : σ) : ¬ Latched next set reset s [] := by
  rintro ⟨l₁, a, l₂, t, hl, -⟩
  simp at hl

/-- What has just been set is set. -/
theorem Latched.of_set {s t : σ} {l : List α} {a : α} (ht : exec next s l = some t)
    (h : set t a) : Latched next set reset s (l ++ [a]) :=
  ⟨l, a, [], t, rfl, ht, h, fun l₃ b l₄ u hl₃ ↦ by simp at hl₃⟩

/-- What is set stays so, unless it is reset. -/
theorem Latched.concat {s t : σ} {l : List α} {a : α} (h : Latched next set reset s l)
    (ht : exec next s l = some t) (hreset : ¬ reset t a) :
    Latched next set reset s (l ++ [a]) := by
  obtain ⟨l₁, b, l₂, t₁, rfl, ht₁, hb, hlater⟩ := h
  refine ⟨l₁, b, l₂ ++ [a], t₁, by simp, ht₁, hb, fun l₃ c l₄ u hl₃ hu ↦ ?_⟩
  rcases List.eq_nil_or_concat l₄ with rfl | ⟨l₄, d, rfl⟩
  · -- the last event meets the state at the end of the run
    obtain ⟨rfl, rfl⟩ := List.append_singleton_inj.mp hl₃
    rw [exec_append, ht₁, Option.bind_some] at ht
    obtain rfl := Option.some.inj (hu.symm.trans ht)
    exact hreset
  · rw [List.concat_eq_append, ← List.cons_append, ← List.append_assoc] at hl₃
    exact hlater l₃ c l₄ u (List.append_singleton_inj.mp hl₃).1 hu

theorem Latched.of_concat {s t : σ} {l : List α} {a : α}
    (h : Latched next set reset s (l ++ [a])) (ht : exec next s l = some t) :
    set t a ∨ Latched next set reset s l ∧ ¬ reset t a := by
  obtain ⟨l₁, b, l₂, t₁, hl, ht₁, hb, hlater⟩ := h
  rcases List.eq_nil_or_concat l₂ with rfl | ⟨l₂, c, rfl⟩
  · obtain ⟨rfl, rfl⟩ := List.append_singleton_inj.mp hl
    obtain rfl := Option.some.inj (ht₁.symm.trans ht)
    exact Or.inl hb
  · rw [List.concat_eq_append] at hl hlater
    rw [← List.cons_append, ← List.append_assoc] at hl
    obtain ⟨rfl, rfl⟩ := List.append_singleton_inj.mp hl
    rw [exec_append, ht₁, Option.bind_some] at ht
    exact Or.inr ⟨⟨l₁, b, l₂, t₁, rfl, ht₁, hb, fun l₃ c l₄ u hl₃ ↦
        hlater l₃ c (l₄ ++ [a]) u (by rw [hl₃, List.append_assoc, List.cons_append])⟩,
      hlater l₂ a [] t rfl ht⟩

/-- **A flag is an account of the run**: as long as its bearer is there (`B`), it is on (`F`) if
and only if an event has set it that no later one has reset.  At first it is off, and an event that
brings the bearer in is one that resets the flag. -/
theorem Trace.flag_iff {init : σ → Prop} {B F : σ → Prop} {s₀ s : σ} {l : List α}
    (h : (ofFun init next).Trace s₀ l s) (h₀ : init s₀) (hoff : B s₀ → ¬ F s₀)
    (hset : ∀ s a s', (ofFun init next).Reachable s → next s a = some s' → B s' → set s a →
      F s')
    (hreset : ∀ s a s', (ofFun init next).Reachable s → next s a = some s' → B s' →
      reset s a → ¬ F s')
    (hkeep : ∀ s a s', (ofFun init next).Reachable s → next s a = some s' → B s' → ¬ set s a →
      ¬ reset s a → B s ∧ (F s' ↔ F s)) :
    B s → (F s ↔ Latched next set reset s₀ l) := by
  refine h.induction (I := fun l s ↦ B s → (F s ↔ Latched next set reset s₀ l)) ?_ ?_
  · exact fun hs ↦ iff_of_false (hoff hs) (not_latched_nil s₀)
  · intro l t a t' hl ih hstep ht'
    have ht := exec_of_trace hl
    have hreach := hl.reachable h₀
    by_cases hs : set t a
    · exact iff_of_true (hset t a t' hreach hstep ht' hs) (.of_set ht hs)
    by_cases hr : reset t a
    · refine iff_of_false (hreset t a t' hreach hstep ht' hr) fun hlatched ↦ ?_
      rcases hlatched.of_concat ht with h | h
      · exact hs h
      · exact h.2 hr
    · obtain ⟨hthere, hF⟩ := hkeep t a t' hreach hstep ht' hs hr
      rw [hF, ih hthere]
      refine ⟨fun h ↦ h.concat ht hr, fun h ↦ ?_⟩
      exact ((h.of_concat ht).resolve_left hs).1

end System
end Transition
