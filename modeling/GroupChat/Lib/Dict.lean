import Mathlib.Data.List.Nodup
import Mathlib.Logic.Function.Basic

/-!
# Insertion-ordered dictionaries

A `Dict` is a list of key–value pairs with pairwise distinct keys, in the order in which the keys
were first inserted.  Overwriting a key keeps its place; removing a key and inserting it again
moves it to the end.  The list is what a loop over the dictionary walks, so the order matters to a
reader of the entries and to nobody else: every other fact is stated through `Dict.get?`.

`Dict.get?_set` and `Dict.get?_pop` say what the two updates do to a look-up, and
`Dict.mem_entries_iff` connects look-ups with the entries a loop visits.

Nothing here depends on how the dictionary is used: the keys need a decidable equality, the values
are arbitrary.  The loops of a program over its dictionaries are loops over `Dict.entries`,
`Dict.keys` or `Dict.values`, which are lists, so their lemmas are those of lists.
-/

set_option autoImplicit false

universe u v

/-- A dictionary that remembers the order in which its keys were inserted. -/
structure Dict (κ : Type u) (ν : Type v) where
  /-- The pairs, in insertion order. -/
  entries : List (κ × ν)
  /-- No key occurs twice. -/
  nodup : (entries.map Prod.fst).Nodup

namespace Dict

variable {κ : Type u} {ν : Type v}

/-! ## Dictionaries and their operations

The two updates keep the field `nodup`, which is why `replace` is a definition of its own: it
changes a value and leaves the key of every entry as it is (`replace_fst`), so the keys after a
`set` are those before it, and perhaps one more. -/

/-- The dictionary without entries. -/
def empty : Dict κ ν := ⟨[], by simp⟩

/-- The keys, in insertion order. -/
def keys (d : Dict κ ν) : List κ := d.entries.map Prod.fst

/-- The values, in insertion order of their keys. -/
def values (d : Dict κ ν) : List ν := d.entries.map Prod.snd

/-- No key is in the empty dictionary. -/
@[simp] theorem keys_empty : (empty : Dict κ ν).keys = [] := rfl

variable [DecidableEq κ]

/-- The value stored under a key. -/
def get? (d : Dict κ ν) (k : κ) : Option ν :=
  (d.entries.find? fun p ↦ decide (p.1 = k)).map Prod.snd

/-- Is the key there? -/
def contains (d : Dict κ ν) (k : κ) : Bool := decide (k ∈ d.keys)

/-- Replace the value of a key that is there. -/
private def replace (k : κ) (v : ν) (p : κ × ν) : κ × ν := if p.1 = k then (k, v) else p

private theorem replace_fst (k : κ) (v : ν) (p : κ × ν) : (replace k v p).1 = p.1 := by
  rw [replace]
  split
  · rename_i h; exact h.symm
  · rfl

private theorem map_replace_fst (k : κ) (v : ν) (l : List (κ × ν)) :
    (l.map (replace k v)).map Prod.fst = l.map Prod.fst := by
  rw [List.map_map]
  exact List.map_congr_left fun p _ ↦ replace_fst k v p

/-- Store a value under a key: in place if the key is there, at the end otherwise. -/
def set (d : Dict κ ν) (k : κ) (v : ν) : Dict κ ν :=
  if h : k ∈ d.keys then ⟨d.entries.map (replace k v), by rw [map_replace_fst]; exact d.nodup⟩
  else ⟨d.entries ++ [(k, v)], by
    rw [List.map_append, List.nodup_append]
    refine ⟨d.nodup, by simp, fun a ha b hb hab ↦ h ?_⟩
    have hbk : b = k := by simpa using hb
    rw [keys, ← hbk, ← hab]
    exact ha⟩

/-- Remove a key, if it is there. -/
def pop (d : Dict κ ν) (k : κ) : Dict κ ν :=
  ⟨d.entries.filter fun p ↦ decide (p.1 ≠ k),
    d.nodup.sublist ((List.filter_sublist).map Prod.fst)⟩

/-! ## Look-ups and entries

A look-up finds the entry with the key, of which there is at most one.  `mem_entries_iff` is the
only lemma of the section that looks at the list; membership among the keys and among the values
is read off it. -/

/-- Nothing is found in the empty dictionary. -/
@[simp] theorem get?_empty (k : κ) : (empty : Dict κ ν).get? k = none := rfl

/-- An entry of the list is what a look-up of its key finds, as no two entries have the same
key. -/
theorem mem_entries_iff (d : Dict κ ν) {k : κ} {v : ν} :
    (k, v) ∈ d.entries ↔ d.get? k = some v := by
  obtain ⟨l, hl⟩ := d
  induction l with
  | nil => simp [get?]
  | cons p l ih =>
    obtain ⟨k', v'⟩ := p
    rw [List.map_cons, List.nodup_cons] at hl
    have ih := ih hl.2
    simp only [get?, List.find?_cons, List.mem_cons, Prod.mk.injEq] at ih ⊢
    by_cases hk : k' = k
    · subst hk
      have hnot : (k', v) ∉ l := fun hm ↦ hl.1 (List.mem_map.mpr ⟨(k', v), hm, rfl⟩)
      simp [hnot, eq_comm]
    · have hk' : ¬ k = k' := fun h ↦ hk h.symm
      simp [hk, hk', ih]

theorem mem_keys_iff (d : Dict κ ν) {k : κ} : k ∈ d.keys ↔ ∃ v, d.get? k = some v := by
  rw [keys, List.mem_map]
  constructor
  · rintro ⟨⟨k', v⟩, hm, rfl⟩
    exact ⟨v, d.mem_entries_iff.mp hm⟩
  · rintro ⟨v, hv⟩
    exact ⟨(k, v), d.mem_entries_iff.mpr hv, rfl⟩

/-- A look-up fails exactly at the keys that are not there. -/
theorem get?_eq_none_iff (d : Dict κ ν) {k : κ} : d.get? k = none ↔ k ∉ d.keys := by
  rw [mem_keys_iff, Option.eq_none_iff_forall_not_mem, not_exists]
  rfl

theorem mem_keys_of_get? {d : Dict κ ν} {k : κ} {v : ν} (h : d.get? k = some v) : k ∈ d.keys :=
  d.mem_keys_iff.mpr ⟨v, h⟩

theorem mem_values_of_get? {d : Dict κ ν} {k : κ} {v : ν} (h : d.get? k = some v) :
    v ∈ d.values :=
  List.mem_map.mpr ⟨(k, v), d.mem_entries_iff.mpr h, rfl⟩

/-- The test the code writes as `k in d`. -/
theorem contains_iff (d : Dict κ ν) {k : κ} : d.contains k = true ↔ k ∈ d.keys := by
  simp [contains]

/-! ## Updates

Each update has one lemma with a case distinction, which rewrites, and its two cases as simp
lemmas where they are used often. -/

/-- **A look-up after a `set`** finds the new value under the key, and the old values
elsewhere. -/
theorem get?_set (d : Dict κ ν) (k k' : κ) (v : ν) :
    (d.set k v).get? k' = if k' = k then some v else d.get? k' := by
  refine Option.ext fun w ↦ ?_
  rw [← mem_entries_iff, set]
  split
  · rename_i hk
    simp only [List.mem_map]
    constructor
    · rintro ⟨⟨a, b⟩, hm, hp⟩
      rw [replace] at hp
      split at hp
      · simp only [Prod.mk.injEq] at hp
        obtain ⟨rfl, rfl⟩ := hp
        simp
      · rename_i hne
        simp only [Prod.mk.injEq] at hp
        obtain ⟨rfl, rfl⟩ := hp
        rw [if_neg hne]
        exact d.mem_entries_iff.mp hm
    · intro h
      split at h
      · rename_i he
        subst he
        obtain ⟨v₀, hv₀⟩ := d.mem_keys_iff.mp hk
        have hw : v = w := by simpa using h
        exact ⟨(k', v₀), d.mem_entries_iff.mpr hv₀, by simp [replace, hw]⟩
      · rename_i hne
        exact ⟨(k', w), d.mem_entries_iff.mpr h, by simp [replace, hne]⟩
  · rename_i hk
    simp only [List.mem_append, List.mem_singleton, Prod.mk.injEq, mem_entries_iff]
    by_cases he : k' = k
    · subst he
      rw [d.get?_eq_none_iff.mpr hk]
      simp [eq_comm]
    · simp [he]

/-- A key keeps its place when it is overwritten; a new key comes last. -/
theorem keys_set (d : Dict κ ν) (k : κ) (v : ν) :
    (d.set k v).keys = if k ∈ d.keys then d.keys else d.keys ++ [k] := by
  rw [set]
  split
  · exact map_replace_fst k v d.entries
  · exact List.map_append

/-- One `set` adds one key at most. -/
theorem length_keys_set_le (d : Dict κ ν) (k : κ) (v : ν) :
    (d.set k v).keys.length ≤ d.keys.length + 1 := by
  rw [keys_set]
  split
  · exact Nat.le_succ _
  · rw [List.length_append]
    exact Nat.le_refl _

@[simp] theorem get?_set_self (d : Dict κ ν) (k : κ) (v : ν) : (d.set k v).get? k = some v := by
  rw [get?_set, if_pos rfl]

theorem get?_set_ne (d : Dict κ ν) {k k' : κ} (v : ν) (h : k' ≠ k) :
    (d.set k v).get? k' = d.get? k' := by
  rw [get?_set, if_neg h]

/-- **A look-up after a `pop`** finds nothing under the key, and the old values elsewhere. -/
theorem get?_pop (d : Dict κ ν) (k k' : κ) :
    (d.pop k).get? k' = if k' = k then none else d.get? k' := by
  refine Option.ext fun w ↦ ?_
  rw [← mem_entries_iff, pop]
  simp only [List.mem_filter, mem_entries_iff, decide_eq_true_eq]
  split
  · rename_i he; simp [he]
  · rename_i hne; simp [hne]

@[simp] theorem get?_pop_self (d : Dict κ ν) (k : κ) : (d.pop k).get? k = none := by
  rw [get?_pop, if_pos rfl]

end Dict
