import Mathlib.Data.List.DropRight
import Mathlib.Data.List.Infix

/-!
# Looking for texts between separators

A text is put together from fields with separators between them, and somebody looks for a word in
it without taking it apart.  A word without separators is found exactly where it occurs in a field
(`infix_append_cons_iff`).  A word that begins with a separator is found in a field, or at the
beginning of one (`cons_infix_append_cons_iff`).  What is cut off at the end of the text does not
matter to words that end otherwise (`infix_rdropWhile_iff`).

The lemmas are about lists and an element that is the separator.  A word is sought with `<:+:`,
which says that it occurs somewhere, and the proofs look at whether it begins before the first
separator or behind it.
-/

set_option autoImplicit false

namespace Separators

universe u v

variable {α : Type u} {s : α} {x a b : List α}

/-- Where a word without separators begins, it ends before the next separator. -/
theorem prefix_append_cons_iff (hs : s ∉ x) : x <+: a ++ s :: b ↔ x <+: a := by
  constructor
  · intro h
    induction x generalizing a with
    | nil => exact List.nil_prefix
    | cons c x ih =>
      cases a with
      | nil =>
        obtain ⟨rfl, -⟩ := List.cons_prefix_cons.mp h
        exact absurd List.mem_cons_self hs
      | cons d a =>
        rw [List.cons_append] at h
        obtain ⟨rfl, htail⟩ := List.cons_prefix_cons.mp h
        exact List.cons_prefix_cons.mpr ⟨rfl, ih (fun hm ↦ hs (List.mem_cons_of_mem _ hm)) htail⟩
  · exact fun h ↦ h.trans (List.prefix_append a _)

theorem infix_append_cons_iff (hs : s ∉ x) : x <:+: a ++ s :: b ↔ x <:+: a ∨ x <:+: b := by
  induction a with
  | nil =>
    rw [List.nil_append, List.infix_cons_iff, List.infix_nil]
    refine or_congr_left ?_
    rw [← List.nil_append (s :: b), prefix_append_cons_iff hs, List.prefix_nil]
  | cons c a ih =>
    have hbegin : x <+: c :: (a ++ s :: b) ↔ x <+: c :: a := by
      rw [← List.cons_append, prefix_append_cons_iff hs]
    rw [List.cons_append, List.infix_cons_iff, hbegin, ih, ← or_assoc, ← List.infix_cons_iff]

theorem cons_infix_append_cons_iff (hs : s ∉ x) :
    s :: x <:+: a ++ s :: b ↔ s :: x <:+: a ∨ x <+: b ∨ s :: x <:+: b := by
  induction a with
  | nil =>
    rw [List.nil_append, List.infix_cons_iff, List.prefix_cons_inj, List.infix_nil]
    simp
  | cons c a ih =>
    have hbegin : s :: x <+: c :: (a ++ s :: b) ↔ s :: x <+: c :: a := by
      rw [List.cons_prefix_cons, List.cons_prefix_cons, prefix_append_cons_iff hs]
    rw [List.cons_append, List.infix_cons_iff, hbegin, ih, ← or_assoc, ← List.infix_cons_iff]

/-! ## Cutting off the end

A text may have lost some characters at its end, such as trailing slashes.  Words that end in
another character are found as before. -/

/-- What is cut off at the end is not a part of a word that ends otherwise. -/
theorem infix_rdropWhile_iff {p : α → Bool} {c : α} (hc : p c = false) :
    x ++ [c] <:+: a.rdropWhile p ↔ x ++ [c] <:+: a := by
  induction a using List.reverseRecOn with
  | nil => rw [List.rdropWhile_nil]
  | append_singleton a d ih =>
    by_cases hd : p d = true
    · have hne : ¬x ++ [c] <:+ a ++ [d] := by
        rw [List.suffix_concat_iff]
        rintro (hnil | ⟨t, ht, -⟩)
        · exact absurd hnil (by simp)
        · rw [(List.append_singleton_inj.mp ht).2, hd] at hc
          exact absurd hc (by simp)
      rw [List.rdropWhile_concat_pos _ _ _ hd, ih, List.infix_concat_iff, or_iff_right hne]
    · rw [List.rdropWhile_concat_neg _ _ _ hd]

/-- Cutting off stops where a text does not go on with what is cut off. -/
theorem rdropWhile_append_of_getLast? {p : α → Bool} {c : α} (hlast : a.getLast? = some c)
    (hc : p c = false) : (a ++ b).rdropWhile p = a ++ b.rdropWhile p := by
  induction b using List.reverseRecOn with
  | nil =>
    obtain ⟨a, rfl⟩ := List.getLast?_eq_some_iff.mp hlast
    rw [List.append_nil, List.rdropWhile_nil, List.append_nil,
      List.rdropWhile_concat_neg _ _ _ (by simp [hc])]
  | append_singleton b d ih =>
    rw [← List.append_assoc]
    by_cases hd : p d = true
    · rw [List.rdropWhile_concat_pos _ _ _ hd, List.rdropWhile_concat_pos _ _ _ hd, ih]
    · rw [List.rdropWhile_concat_neg _ _ _ hd, List.rdropWhile_concat_neg _ _ _ hd,
        List.append_assoc]

/-- To choose among texts is to choose among what they are the texts of exactly if the choices agree
on each of these. -/
theorem filter_map_eq_map_filter_iff {β : Type v} {f : β → α} {p : α → Bool} {q : β → Bool}
    {l : List β} : (l.map f).filter p = (l.filter q).map f ↔ ∀ y ∈ l, p (f y) = q y := by
  rw [List.filter_map]
  constructor
  · intro h y hy
    -- what is chosen as itself has a text that is chosen, so that one choice is a part of the other
    have himp : ∀ y ∈ l, q y = true → p (f y) = true := by
      intro y hy hq
      have hmem : f y ∈ (l.filter (p ∘ f)).map f := by
        rw [h]
        exact List.mem_map_of_mem (List.mem_filter.mpr ⟨hy, hq⟩)
      obtain ⟨z, hz, hzy⟩ := List.mem_map.mp hmem
      rw [← hzy]
      exact (List.mem_filter.mp hz).2
    have hfilter : l.filter q = (l.filter (p ∘ f)).filter q := by
      rw [List.filter_filter]
      refine List.filter_congr fun z hz ↦ ?_
      by_cases hq : q z = true
      · rw [hq, Function.comp_apply, himp z hz hq]
        rfl
      · rw [Bool.not_eq_true] at hq
        rw [hq, Bool.false_and]
    have hsub : (l.filter q).Sublist (l.filter (p ∘ f)) := by
      rw [hfilter]
      exact List.filter_sublist
    have hlen : (l.filter q).length = (l.filter (p ∘ f)).length := by
      rw [← List.length_map f, ← h, List.length_map]
    have heq := hsub.eq_of_length hlen
    by_cases hq : q y = true
    · rw [hq, himp y hy hq]
    · rw [Bool.not_eq_true] at hq
      rw [hq, Bool.eq_false_iff]
      intro hp
      have hmem : y ∈ l.filter q := by
        rw [heq]
        exact List.mem_filter.mpr ⟨hy, hp⟩
      rw [(List.mem_filter.mp hmem).2] at hq
      exact absurd hq (by simp)
  · intro h
    have hfilter : l.filter (p ∘ f) = l.filter q := List.filter_congr h
    rw [hfilter]

end Separators
