import Mathlib.Data.List.DropRight
import Mathlib.Data.List.Nodup

/-!
# Windows on the end of a sequence

A deque with a maximal length forgets its oldest element whenever it is full and a new one is
appended.  `Window.push cap xs x` is that append.  Its contents are always the last `cap` elements
of everything that was ever appended (`Window.push_rtake`), so the file is about `List.rtake`: its
length, its behaviour on `++`, and what survives an append.

A program that walks such a deque with a limit looks through a window on a window, which is why
the lemmas about `rtake` of an `rtake` come in both directions: a smaller window shows the end of
a larger one (`rtake_rtake`), and what was appended to a window may be taken to have been appended
to everything (`rtake_rtake_append`).
-/

set_option autoImplicit false

namespace Window

universe u v

variable {α : Type u} {β : Type v}

/-! ## The end of a list

`List.rtake n l` is what a window of size `n` shows of `l`.  It is a suffix, so a property of the
whole sequence that suffixes inherit (distinct entries, an order) holds in the window. -/

/-- Append to a deque of maximal length `cap`. -/
def push (cap : ℕ) (xs : List α) (x : α) : List α := (xs ++ [x]).rtake cap

/-- A window shows as much as fits. -/
theorem length_rtake (n : ℕ) (l : List α) : (l.rtake n).length = min n l.length := by
  rw [List.rtake, List.length_drop]
  omega

theorem rtake_eq_nil_iff {n : ℕ} {l : List α} (h : 0 < n) : l.rtake n = [] ↔ l = [] := by
  rw [← List.length_eq_zero_iff, length_rtake, ← List.length_eq_zero_iff]
  omega

theorem rtake_suffix (n : ℕ) (l : List α) : l.rtake n <:+ l := List.drop_suffix _ _

/-- What fits is shown as a whole. -/
theorem rtake_of_length_le {n : ℕ} {l : List α} (h : l.length ≤ n) : l.rtake n = l := by
  rw [List.rtake, Nat.sub_eq_zero_of_le h, List.drop_zero]

/-- A suffix that fits into the window is kept whole. -/
theorem rtake_append_of_le {n : ℕ} {l s : List α} (h : s.length ≤ n) :
    (l ++ s).rtake n = l.rtake (n - s.length) ++ s := by
  have hd : l.length + s.length - n ≤ l.length := by omega
  rw [List.rtake, List.rtake, List.length_append, List.drop_append_of_le_length hd]
  congr 2
  omega

/-- A smaller window on a larger one. -/
theorem rtake_rtake {m n : ℕ} (h : m ≤ n) (l : List α) : (l.rtake n).rtake m = l.rtake m := by
  rw [List.rtake, List.rtake, List.rtake, List.drop_drop, List.length_drop]
  congr 1
  omega

/-- A window on the images is the image of the window. -/
theorem map_rtake (f : α → β) (n : ℕ) (l : List α) : (l.rtake n).map f = (l.map f).rtake n := by
  rw [List.rtake, List.rtake, List.map_drop, List.length_map]

/-- **A window shows the last `cap` elements of all that was appended.** -/
theorem push_rtake (cap : ℕ) (l : List α) (x : α) :
    push cap (l.rtake cap) x = (l ++ [x]).rtake cap := by
  rw [push]
  cases cap with
  | zero => simp
  | succ n => rw [List.rtake_concat_succ, List.rtake_concat_succ, rtake_rtake (Nat.le_succ n)]

/-- A window on a window and more is a window on all of it. -/
theorem rtake_rtake_append (n : ℕ) (l s : List α) :
    (l.rtake n ++ s).rtake n = (l ++ s).rtake n := by
  rcases Nat.le_total s.length n with h | h
  · rw [rtake_append_of_le h, rtake_append_of_le h, rtake_rtake (Nat.sub_le n s.length)]
  · have hsuffix : ∀ l : List α, (l ++ s).rtake n = s.rtake n := by
      intro l
      rw [List.rtake, List.rtake, List.length_append, List.drop_append,
        List.drop_eq_nil_of_le (by omega), List.nil_append]
      congr 1
      omega
    rw [hsuffix, hsuffix]

/-- A window on two parts shows all of the second part that fits, and what fits beside it. -/
theorem rtake_append (n : ℕ) (l s : List α) :
    (l ++ s).rtake n = l.rtake (n - s.length) ++ s.rtake n := by
  rcases Nat.le_total s.length n with h | h
  · rw [rtake_append_of_le h, rtake_of_length_le h]
  · have hzero : n - s.length = 0 := by omega
    rw [hzero, List.rtake_zero, List.nil_append, List.rtake, List.rtake, List.length_append,
      List.drop_append, List.drop_eq_nil_of_le (by omega), List.nil_append]
    congr 1
    omega

/-! ## Appending to a window

What a single append does: it keeps the window full, and drops at most one element, at the
front. -/

theorem length_push (cap : ℕ) (xs : List α) (x : α) :
    (push cap xs x).length = min cap (xs.length + 1) := by
  rw [push, length_rtake, List.length_append, List.length_singleton]

/-- As long as there is space nothing is dropped. -/
theorem push_of_length_lt {cap : ℕ} {xs : List α} (h : xs.length < cap) (x : α) :
    push cap xs x = xs ++ [x] := by
  refine rtake_of_length_le ?_
  rw [List.length_append, List.length_singleton]
  exact h

theorem map_push (f : α → β) (cap : ℕ) (xs : List α) (x : α) :
    (push cap xs x).map f = push cap (xs.map f) (f x) := by
  rw [push, push, map_rtake, List.map_append, List.map_singleton]

theorem mem_of_mem_push {cap : ℕ} {xs : List α} {x y : α} (h : y ∈ push cap xs x) :
    y ∈ xs ∨ y = x := by
  simpa using (rtake_suffix cap (xs ++ [x])).subset h

theorem mem_push_self {cap : ℕ} (h : 0 < cap) (xs : List α) (x : α) : x ∈ push cap xs x := by
  have h1 : [x].length ≤ cap := h
  rw [push, rtake_append_of_le h1]
  simp

/-- Distinct elements stay distinct when a new one is appended. -/
theorem nodup_push {cap : ℕ} {xs : List α} {x : α} (h : xs.Nodup) (hx : x ∉ xs) :
    (push cap xs x).Nodup := by
  refine List.Nodup.sublist (rtake_suffix cap (xs ++ [x])).sublist ?_
  rw [List.nodup_append]
  refine ⟨h, by simp, fun a ha b hb hab ↦ hx ?_⟩
  have hbx : b = x := by simpa using hb
  exact hbx ▸ hab ▸ ha

end Window
