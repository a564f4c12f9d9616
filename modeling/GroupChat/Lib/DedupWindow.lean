import GroupChat.Lib.Window
import Mathlib.Data.Finset.Card

/-!
# A window of distinct keys with a bounded memory

A stream of keys is shown through a window of the last `cap` accepted ones.  To accept a key at
most once, the set of the keys seen so far is kept next to the window.  The set would grow forever,
so once it exceeds `cap + slack` it is rebuilt from the window.  `DedupWindow.put` does all this in
the order in which such code is easily written: the new key is added to the set, the set is rebuilt
if it is too large, and the key is appended to the window last.

The rebuild then reads a window that does not contain the new key yet.  The key is in the window
and not in the set, and the next occurrence of it is accepted once more.  `nodup_iff_noEcho` says
that this is the only way in which the window can come to hold a key twice, and that it always
does: the windows shown along a stream are all duplicate-free if and only if the stream never
repeats the key of the latest rebuild before the next one (`NoEcho`).

The invariant behind it is `Inv`.  Between two rebuilds the only key of the window that the set
does not know is the key of the latest rebuild, and it is still in the window, because the next
rebuild comes after at most `slack` further acceptances.
-/

set_option autoImplicit false

universe u

/-- A window of accepted keys, oldest first, and the set of the keys that count as seen. -/
structure DedupWindow (κ : Type u) where
  /-- The window. -/
  window : List κ
  /-- The set. -/
  seen : Finset κ

namespace DedupWindow

open Window

variable {κ : Type u} [DecidableEq κ] (cap slack : ℕ)

/-- Nothing accepted yet. -/
def empty : DedupWindow κ := ⟨[], ∅⟩

/-- Does the arrival of `k` make the set too large? -/
def Rebuilds (d : DedupWindow κ) (k : κ) : Prop :=
  k ∉ d.seen ∧ cap + slack < (insert k d.seen).card

instance (d : DedupWindow κ) (k : κ) : Decidable (Rebuilds cap slack d k) :=
  inferInstanceAs (Decidable (_ ∧ _))

/-- The arrival of a key. -/
def put (d : DedupWindow κ) (k : κ) : DedupWindow κ :=
  if k ∈ d.seen then d
  else
    ⟨push cap d.window k,
      if cap + slack < (insert k d.seen).card then d.window.toFinset else insert k d.seen⟩

/-- The key of the latest rebuild, after the arrival of `k`. -/
def lastRebuild (d : DedupWindow κ) (last : Option κ) (k : κ) : Option κ :=
  if Rebuilds cap slack d k then some k else last

/-- No key of the stream repeats the key of the latest rebuild. -/
def NoEcho : DedupWindow κ → Option κ → List κ → Prop
  | _, _, [] => True
  | d, last, k :: l => last ≠ some k ∧ NoEcho (put cap slack d k) (lastRebuild cap slack d last k) l

variable {cap slack}

theorem put_of_mem {d : DedupWindow κ} {k : κ} (h : k ∈ d.seen) : put cap slack d k = d := by
  rw [put, if_pos h]

theorem put_of_rebuilds {d : DedupWindow κ} {k : κ} (h : Rebuilds cap slack d k) :
    put cap slack d k = ⟨push cap d.window k, d.window.toFinset⟩ := by
  rw [put, if_neg h.1, if_pos h.2]

theorem put_of_fresh {d : DedupWindow κ} {k : κ} (h : k ∉ d.seen)
    (hr : ¬ Rebuilds cap slack d k) :
    put cap slack d k = ⟨push cap d.window k, insert k d.seen⟩ := by
  rw [put, if_neg h, if_neg fun hc ↦ hr ⟨h, hc⟩]

/-! ## The invariant

It speaks of two keys, the one that arrives and the one of the latest rebuild.  `lastRebuild`
keeps the latter beside the state, since the data structure itself does not know it. -/

variable (cap slack)

/-- What holds between two arrivals, where `last` is the key of the latest rebuild. -/
structure Inv (d : DedupWindow κ) (last : Option κ) : Prop where
  /-- The window holds no key twice. -/
  nodup : d.window.Nodup
  /-- Every key of the window is known, but for the key of the latest rebuild. -/
  known : ∀ k ∈ d.window, k ∈ d.seen ∨ last = some k
  /-- The key of the latest rebuild is not known and still in the window: the keys behind it are
  those accepted since. -/
  echo : ∀ k, last = some k →
    k ∉ d.seen ∧ ∃ l r, d.window = l ++ k :: r ∧ r.length + cap = d.seen.card
  /-- Before the window is full nothing was evicted, so the set holds nothing but the window. -/
  filling : d.window.length < cap → d.seen.card ≤ d.window.length
  /-- The window is bounded. -/
  window_le : d.window.length ≤ cap
  /-- The set is bounded. -/
  seen_le : d.seen.card ≤ cap + slack

variable {cap slack}

omit [DecidableEq κ] in
theorem inv_empty : Inv cap slack (empty : DedupWindow κ) none where
  nodup := List.nodup_nil
  known := by simp [empty]
  echo := by simp
  filling := by simp [empty]
  window_le := by simp [empty]
  seen_le := by simp [empty]

namespace Inv

variable {d : DedupWindow κ} {last : Option κ} {k : κ}

omit [DecidableEq κ] in
theorem notMem_window (h : Inv cap slack d last) (hk : k ∉ d.seen) (hl : last ≠ some k) :
    k ∉ d.window := fun hm ↦ (h.known k hm).elim hk hl

/-- A rebuild finds the window full. -/
theorem length_of_rebuilds (h : Inv cap slack d last) (hr : Rebuilds cap slack d k) :
    d.window.length = cap := by
  have hcard := hr.2
  rw [Finset.card_insert_of_notMem hr.1] at hcard
  have hle := h.window_le
  by_contra hne
  have hf := h.filling (by omega)
  omega

/-! ## Three kinds of arrivals

A key that is known changes nothing.  A new key is an ordinary arrival, or it is the one at which
the set is rebuilt.  For each of the last two there is a lemma that says what becomes of the
invariant. -/

/-- An arrival that makes the set be rebuilt: its key is in the window and not in the set. -/
theorem put_rebuild (hc : 0 < cap) (h : Inv cap slack d last) (hl : last ≠ some k)
    (hr : Rebuilds cap slack d k) : Inv cap slack (put cap slack d k) (some k) := by
  have hlen := h.length_of_rebuilds hr
  have hnot := h.notMem_window hr.1 hl
  have hcard : d.window.toFinset.card = cap := by
    rw [List.toFinset_card_of_nodup h.nodup, hlen]
  rw [put_of_rebuilds hr]
  refine ⟨nodup_push h.nodup hnot, ?_, ?_, ?_, ?_, ?_⟩
  · intro x hx
    rcases mem_of_mem_push hx with hx | rfl
    · exact Or.inl (List.mem_toFinset.mpr hx)
    · exact Or.inr rfl
  · rintro x ⟨⟩
    have h1 : [k].length ≤ cap := hc
    refine ⟨by simpa using hnot, d.window.rtake (cap - 1), [], ?_, by simp [hcard]⟩
    exact rtake_append_of_le h1
  · intro hlt
    simp only [length_push, hlen] at hlt
    omega
  · simp only [length_push]
    omega
  · simp only [hcard]
    omega

/-- An ordinary arrival: the key of the latest rebuild moves one place towards the far end. -/
theorem put_fresh (hc : slack + 2 ≤ cap) (h : Inv cap slack d last) (hl : last ≠ some k)
    (hk : k ∉ d.seen) (hr : ¬ Rebuilds cap slack d k) :
    Inv cap slack (put cap slack d k) last := by
  have hnot := h.notMem_window hk hl
  have hcard : (insert k d.seen).card = d.seen.card + 1 := Finset.card_insert_of_notMem hk
  have hle : d.seen.card + 1 ≤ cap + slack := by
    rw [← hcard]
    exact Nat.le_of_not_lt fun hlt ↦ hr ⟨hk, hlt⟩
  rw [put_of_fresh hk hr]
  refine ⟨nodup_push h.nodup hnot, ?_, ?_, ?_, ?_, ?_⟩
  · intro x hx
    rcases mem_of_mem_push hx with hx | rfl
    · exact (h.known x hx).imp_left Finset.mem_insert_of_mem
    · exact Or.inl (Finset.mem_insert_self x d.seen)
  · intro x hx
    obtain ⟨hxs, l, r, hw, hrc⟩ := h.echo x hx
    have hxk : x ≠ k := fun he ↦ hl (he ▸ hx)
    refine ⟨by simp [hxk, hxs], l.rtake (cap - (r.length + 2)), r ++ [k], ?_, ?_⟩
    · have hfit : (x :: (r ++ [k])).length ≤ cap := by simp; omega
      have hsplit : d.window ++ [k] = l ++ x :: (r ++ [k]) := by rw [hw]; simp
      simp only [push]
      rw [hsplit, rtake_append_of_le hfit]
      simp
    · simp only [List.length_append, List.length_singleton, hcard]
      omega
  · intro hlt
    simp only [length_push] at hlt ⊢
    have hf := h.filling (by omega)
    omega
  · simp only [length_push]
    omega
  · simpa only [hcard] using hle

/-- Every arrival but an echo keeps the invariant. -/
theorem put (hc : slack + 2 ≤ cap) (h : Inv cap slack d last) (hl : last ≠ some k) :
    Inv cap slack (put cap slack d k) (lastRebuild cap slack d last k) := by
  by_cases hk : k ∈ d.seen
  · have hr : ¬ Rebuilds cap slack d k := fun hr ↦ hr.1 hk
    rwa [put_of_mem hk, lastRebuild, if_neg hr]
  · by_cases hr : Rebuilds cap slack d k
    · rw [lastRebuild, if_pos hr]
      exact h.put_rebuild (by omega) hl hr
    · rw [lastRebuild, if_neg hr]
      exact h.put_fresh hc hl hk hr

/-- **An echo is always accepted**, next to the first occurrence of its key. -/
theorem not_nodup_put (hc : slack + 2 ≤ cap) (h : Inv cap slack d (some k)) :
    ¬ (DedupWindow.put cap slack d k).window.Nodup := by
  obtain ⟨hk, l, r, hw, hrc⟩ := h.echo k rfl
  have hle := h.seen_le
  have hfit : (k :: (r ++ [k])).length ≤ cap := by simp; omega
  have hsplit : d.window ++ [k] = l ++ k :: (r ++ [k]) := by rw [hw]; simp
  have hput : (DedupWindow.put cap slack d k).window =
      l.rtake (cap - (r.length + 2)) ++ k :: (r ++ [k]) := by
    rw [DedupWindow.put, if_neg hk, push, hsplit, rtake_append_of_le hfit]
    simp
  rw [hput]
  intro hnd
  have hsuf := (List.nodup_append.mp hnd).2.1
  simp at hsuf

end Inv

/-! ## Streams

A stream is folded over the state, and the statement is about the window after every prefix of it.
The induction is on the stream, from any state that meets the invariant: the first echo makes a
duplicate, and before that there is none. -/

variable (cap slack)

/-- The state after a stream of arrivals. -/
def run (d : DedupWindow κ) (l : List κ) : DedupWindow κ := l.foldl (put cap slack) d

@[simp] theorem run_nil (d : DedupWindow κ) : run cap slack d [] = d := rfl

@[simp] theorem run_cons (d : DedupWindow κ) (k : κ) (l : List κ) :
    run cap slack d (k :: l) = run cap slack (put cap slack d k) l := rfl

theorem run_append (d : DedupWindow κ) (l m : List κ) :
    run cap slack d (l ++ m) = run cap slack (run cap slack d l) m := List.foldl_append

variable {cap slack}

omit [DecidableEq κ] in
/-- The windows along a stream, one arrival at a time. -/
private theorem forall_prefix_cons {p : List κ → Prop} {k : κ} {l : List κ} :
    (∀ l', l' <+: k :: l → p l') ↔ p [] ∧ ∀ l', l' <+: l → p (k :: l') := by
  constructor
  · intro h
    exact ⟨h [] (List.nil_prefix), fun l' hl' ↦ h (k :: l') (List.cons_prefix_cons.mpr ⟨rfl, hl'⟩)⟩
  · rintro ⟨hnil, hcons⟩ l' hl'
    rcases List.prefix_cons_iff.mp hl' with rfl | ⟨t, rfl, ht⟩
    · exact hnil
    · exact hcons t ht

theorem nodup_iff_noEcho_of_inv (hc : slack + 2 ≤ cap) (l : List κ) :
    ∀ {d : DedupWindow κ} {last : Option κ}, Inv cap slack d last →
      ((∀ l', l' <+: l → (run cap slack d l').window.Nodup) ↔ NoEcho cap slack d last l) := by
  induction l with
  | nil =>
    intro d last h
    simpa [NoEcho] using h.nodup
  | cons k l ih =>
    intro d last h
    rw [forall_prefix_cons, NoEcho]
    by_cases hl : last = some k
    · subst hl
      have hdup := h.not_nodup_put hc
      have hleft : ¬ ∀ l', l' <+: l → (run cap slack d (k :: l')).window.Nodup :=
        fun hall ↦ hdup (hall [] List.nil_prefix)
      exact ⟨fun hall ↦ absurd hall.2 hleft, fun hne ↦ absurd rfl hne.1⟩
    · have hstep := ih (h.put hc hl)
      simp only [run_cons, run_nil, h.nodup, true_and, hstep, ne_eq, hl, not_false_eq_true]

/-- **The windows along a stream are duplicate-free exactly when the stream has no echo.** -/
theorem nodup_iff_noEcho (hc : slack + 2 ≤ cap) (l : List κ) :
    (∀ l', l' <+: l → (run cap slack empty l').window.Nodup) ↔ NoEcho cap slack empty none l :=
  nodup_iff_noEcho_of_inv hc l inv_empty

/-! ## Bounds

The sizes are bounded along every stream, and the set knows no key that has not arrived. -/

theorem length_window_run (l : List κ) :
    (run cap slack (empty : DedupWindow κ) l).window.length ≤ cap := by
  induction l using List.reverseRecOn with
  | nil => simp [empty]
  | append_singleton l k ih =>
    rw [run_append, run_cons, run_nil, put]
    split
    · exact ih
    · rw [length_push]
      exact Nat.min_le_left _ _

theorem card_seen_run (l : List κ) :
    (run cap slack (empty : DedupWindow κ) l).seen.card ≤ cap + slack := by
  induction l using List.reverseRecOn with
  | nil => simp [empty]
  | append_singleton l k ih =>
    rw [run_append, run_cons, run_nil, put]
    split
    · exact ih
    · simp only
      split
      · -- what is rebuilt is no larger than the window
        have hwindow : (run cap slack (empty : DedupWindow κ) l).window.length ≤ cap :=
          length_window_run l
        have hcard := List.toFinset_card_le (run cap slack (empty : DedupWindow κ) l).window
        omega
      · omega

theorem mem_of_mem_run {x : κ} (l : List κ) :
    (x ∈ (run cap slack empty l).window → x ∈ l) ∧ (x ∈ (run cap slack empty l).seen → x ∈ l) := by
  induction l using List.reverseRecOn with
  | nil => simp [empty]
  | append_singleton l k ih =>
    obtain ⟨hwindow, hseen⟩ := ih
    rw [run_append, run_cons, run_nil, put, List.mem_append, List.mem_singleton]
    split
    · exact ⟨fun h ↦ Or.inl (hwindow h), fun h ↦ Or.inl (hseen h)⟩
    · refine ⟨fun h ↦ (mem_of_mem_push h).imp_left hwindow, ?_⟩
      simp only
      split
      · exact fun h ↦ Or.inl (hwindow (List.mem_toFinset.mp h))
      · exact fun h ↦ (Finset.mem_insert.mp h).symm.imp_left hseen

/-! ## Streams of fresh keys

As long as the set is small enough nothing is ever rebuilt, so a stream of distinct keys, each of
them arriving twice, leaves the last `cap` of them in the window and all of them in the set.  The
next fresh key is the first one that is let in twice. -/

/-- Every key twice in a row. -/
def doubled (l : List κ) : List κ := l.flatMap fun k ↦ [k, k]

omit [DecidableEq κ] in
theorem doubled_append (l m : List κ) : doubled (l ++ m) = doubled l ++ doubled m :=
  List.flatMap_append

theorem run_doubled {l : List κ} (hnd : l.Nodup) (hle : l.length ≤ cap + slack) :
    run cap slack empty (doubled l) = ⟨l.rtake cap, l.toFinset⟩ := by
  induction l using List.reverseRecOn with
  | nil => simp [doubled, empty]
  | append_singleton l k ih =>
    rw [List.nodup_append] at hnd
    have hk : k ∉ l := fun hm ↦ hnd.2.2 k hm k (by simp) rfl
    rw [List.length_append, List.length_singleton] at hle
    have hcard : (insert k l.toFinset).card = l.length + 1 := by
      rw [Finset.card_insert_of_notMem (by simpa using hk), List.toFinset_card_of_nodup hnd.1]
    rw [doubled_append, run_append, ih hnd.1 (by omega)]
    have hfirst : put cap slack ⟨l.rtake cap, l.toFinset⟩ k =
        ⟨(l ++ [k]).rtake cap, insert k l.toFinset⟩ := by
      have hroomy : ¬ cap + slack < (insert k l.toFinset).card := by omega
      rw [put_of_fresh (by simpa using hk) fun hr ↦ hroomy hr.2]
      simp only [push_rtake]
    have hsecond : put cap slack ⟨(l ++ [k]).rtake cap, insert k l.toFinset⟩ k =
        ⟨(l ++ [k]).rtake cap, insert k l.toFinset⟩ := put_of_mem (by simp)
    simp only [doubled, List.flatMap_singleton, run_cons, run_nil, hfirst, hsecond,
      DedupWindow.mk.injEq, true_and]
    ext x
    simp

/-- One fresh key more than the set can hold, each key arriving twice: the last one is let in
twice. -/
theorem not_nodup_run_doubled (hc : 2 ≤ cap) {l : List κ} {k : κ} (hnd : (l ++ [k]).Nodup)
    (hlen : l.length = cap + slack) :
    ¬ (run cap slack empty (doubled (l ++ [k]))).window.Nodup := by
  have hnd' := List.nodup_append.mp hnd
  have hk : k ∉ l := fun hm ↦ hnd'.2.2 k hm k (by simp) rfl
  have hcard : (insert k l.toFinset).card = l.length + 1 := by
    rw [Finset.card_insert_of_notMem (by simpa using hk), List.toFinset_card_of_nodup hnd'.1]
  have hr : Rebuilds cap slack ⟨l.rtake cap, l.toFinset⟩ k := by
    refine ⟨by simpa using hk, ?_⟩
    simp only [hcard]
    omega
  have hk' : k ∉ (l.rtake cap).toFinset := fun hm ↦
    hk ((rtake_suffix cap l).subset (List.mem_toFinset.mp hm))
  have hfit : [k, k].length ≤ cap := hc
  have hwindow : (run cap slack empty (doubled (l ++ [k]))).window =
      l.rtake (cap - 2) ++ [k, k] := by
    rw [doubled_append, run_append, run_doubled hnd'.1 (by omega)]
    simp only [doubled, List.flatMap_singleton, run_cons, run_nil, put_of_rebuilds hr, push_rtake]
    rw [put, if_neg hk']
    simp only [push_rtake]
    rw [List.append_assoc, List.singleton_append, rtake_append_of_le hfit]
    rfl
  rw [hwindow]
  intro h
  have hkk := (List.nodup_append.mp h).2.1
  simp at hkk

end DedupWindow
