import Mathlib.Data.List.DropRight
import Mathlib.Data.List.Infix

/-!
# Hysteresis

A switch that watches a sequence of good and bad observations trips after `m` bad ones in a row, and
from then on needs `n` good ones in a row to recover.  `Tripped` says so of the whole sequence,
without any state: somewhere in it is a block of bad observations, and since the `m`-th one of these
there has been no block of `n` good ones.

What an implementation can see is how the sequence ends, so this file says how `Tripped` depends on
that: `streak p l` is the number of observations at the end of `l` that satisfy `p`, and there is
one lemma for a good observation (`tripped_concat_good`) and one for a bad one
(`tripped_concat_bad`).
-/

set_option autoImplicit false

namespace Hysteresis

universe u

variable {α : Type u}

/-- How many elements at the end of the list satisfy `p`. -/
def streak (p : α → Bool) (l : List α) : ℕ := (l.rtakeWhile p).length

/-- After `m` bad observations in a row, there have not been `n` good ones in a row. -/
def Tripped (good : α → Bool) (m n : ℕ) (l : List α) : Prop :=
  ∃ before block after, l = before ++ block ++ after ∧
    m ≤ block.length ∧ (∀ x ∈ block, good x = false) ∧
    ∀ run, run <:+: block.drop m ++ after → (∀ x ∈ run, good x = true) → run.length < n

variable {p good : α → Bool} {l t : List α} {x : α} {m n : ℕ}

/-! ## Streaks

The streak of a list is read from its end, so appending one observation either makes it longer by
one or sets it to zero. -/

theorem streak_concat_pos (h : p x = true) : streak p (l ++ [x]) = streak p l + 1 := by
  rw [streak, List.rtakeWhile_concat_pos _ _ _ h, List.length_append]
  rfl

theorem streak_concat_neg (h : p x = false) : streak p (l ++ [x]) = 0 := by
  rw [streak, List.rtakeWhile_concat_neg _ _ _ (by simp [h])]
  rfl

/-- What satisfies `p` at the end is no longer than the streak. -/
theorem length_le_streak (h : t <:+ l) (hp : ∀ x ∈ t, p x = true) : t.length ≤ streak p l := by
  obtain ⟨s, rfl⟩ := h
  induction t using List.reverseRecOn with
  | nil => exact Nat.zero_le _
  | append_singleton t x ih =>
    rw [← List.append_assoc, streak_concat_pos (hp x (by simp)), List.length_append]
    exact Nat.succ_le_succ (ih fun y hy ↦ hp y (List.mem_append_left _ hy))

/-- A streak is a suffix. -/
theorem exists_suffix_of_le_streak (h : m ≤ streak p l) :
    ∃ s t, l = s ++ t ∧ t.length = m ∧ ∀ x ∈ t, p x = true := by
  refine ⟨l.rdropWhile p ++ (l.rtakeWhile p).take (streak p l - m),
    (l.rtakeWhile p).drop (streak p l - m), ?_, ?_, ?_⟩
  · rw [List.append_assoc, List.take_append_drop, List.rdropWhile_append_rtakeWhile]
  · rw [List.length_drop]
    exact Nat.sub_sub_self h
  · exact fun x hx ↦ List.mem_rtakeWhile_imp (List.mem_of_mem_drop hx)

/-! ## One more observation

The block of bad observations that trips the switch may lie anywhere in the past.  Two lemmas say
how its existence changes with one more observation, and an implementation with counters is
compared with these. -/

theorem not_tripped_nil (hm : 1 ≤ m) : ¬Tripped good m n [] := by
  rintro ⟨before, block, after, hl, hlen, -⟩
  have hblock : block = [] := by simp_all
  rw [hblock, List.length_nil] at hlen
  omega

/-- The sequence, split at the `m`-th observation of the block. -/
theorem split_at_block (before block after : List α) (m : ℕ) :
    before ++ block ++ after = before ++ block.take m ++ (block.drop m ++ after) := by
  rw [List.append_assoc before (block.take m), ← List.append_assoc (block.take m),
    List.take_append_drop, List.append_assoc]

/-- If there is something after the block, the switch had tripped before the last observation. -/
theorem tripped_of_concat {before block after : List α} (hl : l = before ++ block ++ after)
    (hlen : m ≤ block.length) (hbad : ∀ x ∈ block, good x = false)
    (hrun : ∀ run, run <:+: block.drop m ++ (after ++ [x]) → (∀ x ∈ run, good x = true) →
      run.length < n) : Tripped good m n l := by
  refine ⟨before, block, after, hl, hlen, hbad, fun run hinfix ↦ hrun run ?_⟩
  rw [← List.append_assoc]
  exact hinfix.trans (List.prefix_append _ _).isInfix

/-- **A bad observation** trips the switch if it completes a streak, and does not reset it. -/
theorem tripped_concat_bad (hn : 1 ≤ n) (hx : good x = false) :
    Tripped good m n (l ++ [x]) ↔
      Tripped good m n l ∨ m ≤ streak (fun y ↦ !good y) (l ++ [x]) := by
  constructor
  · rintro ⟨before, block, after, hl, hlen, hbad, hrun⟩
    rcases List.eq_nil_or_concat' after with rfl | ⟨after, y, rfl⟩
    · refine Or.inr (hlen.trans (length_le_streak ?_ fun y hy ↦ by rw [hbad y hy]; rfl))
      rw [hl, List.append_nil]
      exact List.suffix_append _ _
    · rw [← List.append_assoc] at hl
      obtain ⟨hl', hxy⟩ := List.append_inj' hl rfl
      obtain rfl := List.singleton_inj.mp hxy
      exact Or.inl (tripped_of_concat hl' hlen hbad hrun)
  · rintro (⟨before, block, after, rfl, hlen, hbad, hrun⟩ | hstreak)
    · refine ⟨before, block, after ++ [x], by simp only [List.append_assoc], hlen, hbad, ?_⟩
      intro run hinfix hgood
      rw [← List.append_assoc, List.infix_concat_iff] at hinfix
      rcases hinfix with hsuffix | hinfix
      · -- a run that ends in the bad observation is empty
        rcases List.suffix_concat_iff.mp hsuffix with rfl | ⟨t, rfl, -⟩
        · exact hn
        · exact absurd (hgood x (by simp)) (by simp [hx])
      · exact hrun run hinfix hgood
    · obtain ⟨s, t, hl, hlen, hbad⟩ := exists_suffix_of_le_streak hstreak
      refine ⟨s, t, [], by rw [hl, List.append_nil], hlen.ge, fun y hy ↦ ?_, ?_⟩
      · simpa using hbad y hy
      · intro run hinfix _
        rw [List.append_nil, ← hlen, List.drop_length] at hinfix
        rw [List.eq_nil_of_infix_nil hinfix]
        exact hn

/-- Good observations at the end do not reach back over a bad one. -/
theorem suffix_of_good {s r : List α} {y : α} (h : t <:+ s ++ [y] ++ r) (hy : good y = false)
    (hgood : ∀ x ∈ t, good x = true) : t <:+ r := by
  rcases List.suffix_or_suffix_of_suffix h (List.suffix_append _ _) with hsuffix | ⟨u, rfl⟩
  · exact hsuffix
  · rcases List.eq_nil_or_concat' u with rfl | ⟨u, z, rfl⟩
    · exact List.suffix_rfl
    · obtain ⟨v, hv⟩ := h
      rw [← List.append_assoc v, List.append_left_inj, ← List.append_assoc] at hv
      obtain rfl := List.singleton_inj.mp (List.append_inj_right' hv rfl)
      exact absurd (hgood z (by simp)) (by simp [hy])

/-- **A good observation** resets the switch if it completes a streak, and never trips it. -/
theorem tripped_concat_good (hm : 1 ≤ m) (hx : good x = true) :
    Tripped good m n (l ++ [x]) ↔ Tripped good m n l ∧ streak good (l ++ [x]) < n := by
  constructor
  · rintro ⟨before, block, after, hl, hlen, hbad, hrun⟩
    constructor
    · rcases List.eq_nil_or_concat' after with rfl | ⟨after, y, rfl⟩
      · -- the last observation is not in the block
        rcases List.eq_nil_or_concat' block with rfl | ⟨block, z, rfl⟩
        · exact absurd (hm.trans hlen) (by simp)
        · rw [List.append_nil, ← List.append_assoc] at hl
          obtain rfl := List.singleton_inj.mp (List.append_inj_right' hl rfl)
          exact absurd (hbad x (by simp)) (by simp [hx])
      · rw [← List.append_assoc] at hl
        obtain ⟨hl', hxy⟩ := List.append_inj' hl rfl
        obtain rfl := List.singleton_inj.mp hxy
        exact tripped_of_concat hl' hlen hbad hrun
    · by_contra hstreak
      obtain ⟨s, t, ht, htlen, hgood⟩ := exists_suffix_of_le_streak (not_lt.mp hstreak)
      -- the streak does not reach back to the block, so it is one of the runs after it
      rcases List.eq_nil_or_concat' (block.take m) with hnil | ⟨u, z, hblock⟩
      · have hzero : min m block.length = 0 := by rw [← List.length_take, hnil]; rfl
        omega
      · have hz : z ∈ block := List.mem_of_mem_take (hblock ▸ List.mem_append_right u (by simp))
        have hsuffix : t <:+ before ++ u ++ [z] ++ (block.drop m ++ after) := by
          refine ⟨s, ht.symm.trans (hl.trans ?_)⟩
          rw [split_at_block before block after m, hblock, ← List.append_assoc before]
        have hinfix := (suffix_of_good hsuffix (hbad z hz) hgood).isInfix
        exact absurd htlen (hrun t hinfix hgood).ne
  · rintro ⟨⟨before, block, after, rfl, hlen, hbad, hrun⟩, hstreak⟩
    refine ⟨before, block, after ++ [x], by simp only [List.append_assoc], hlen, hbad, ?_⟩
    intro run hinfix hgood
    rw [← List.append_assoc, List.infix_concat_iff] at hinfix
    rcases hinfix with hsuffix | hinfix
    · refine (length_le_streak (hsuffix.trans ?_) hgood).trans_lt hstreak
      rw [split_at_block before block after m, List.append_assoc (before ++ block.take m)]
      exact List.suffix_append _ _
    · exact hrun run hinfix hgood

end Hysteresis
