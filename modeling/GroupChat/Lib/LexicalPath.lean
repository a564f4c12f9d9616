import Mathlib.Data.List.Infix
import Mathlib.Data.List.Basic

/-!
# Paths without links

A path is a list of names, from the root.  Where no directory is a link to another one, a text leads
to a path by its letters alone: it is cut at the separators, and the names are walked one by one.

* `LexicalPath.walk` is that walk: the empty name and the dot stay, two dots go up.
* `Proper` names are those that can be the name of something.  A walk keeps paths proper
  (`forall_proper_walk`), and each proper path can be walked to from the root, along its own text
  (`walk_splitOn_render`).
* `render` writes a path.  One path written is the beginning of another one written exactly if it is
  the other path's beginning, up to its last name, which may go on (`render_prefix_iff`): to compare
  texts is not to compare paths.
-/

set_option autoImplicit false

namespace LexicalPath

universe u

variable {α : Type u}

/-! ## Walking

A walk never fails: two dots at the root stay at the root, and a name goes down whether or not
there is anything.  It is a fold over the names, so a path that is walked in two parts is walked
as a whole. -/

/-- One name of a walk. -/
def step [DecidableEq α] (dot : α) (path : List (List α)) (name : List α) : List (List α) :=
  if name = [] ∨ name = [dot] then path
  else if name = [dot, dot] then path.dropLast
  else path ++ [name]

/-- Walk along names. -/
def walk [DecidableEq α] (dot : α) (path : List (List α)) (names : List (List α)) : List (List α) :=
  names.foldl (step dot) path

/-- The text of a path. -/
def render (sep : α) (path : List (List α)) : List α :=
  if path = [] then [sep] else path.flatMap (sep :: ·)

/-- A name that something can have. -/
structure Proper (sep dot : α) (name : List α) : Prop where
  ne_nil : name ≠ []
  ne_dot : name ≠ [dot]
  ne_dots : name ≠ [dot, dot]
  sep_notMem : sep ∉ name

section Walk

variable [DecidableEq α] {sep dot : α} {path names : List (List α)} {name : List α}

theorem step_of_proper (h : Proper sep dot name) : step dot path name = path ++ [name] := by
  rw [step, if_neg (by simp [h.ne_nil, h.ne_dot]), if_neg h.ne_dots]

theorem forall_proper_step (hpath : ∀ c ∈ path, Proper sep dot c) (hname : sep ∉ name) :
    ∀ c ∈ step dot path name, Proper sep dot c := by
  intro c hc
  rw [step] at hc
  split_ifs at hc with hstay hup
  · exact hpath c hc
  · exact hpath c (List.mem_of_mem_dropLast hc)
  · rcases List.mem_append.mp hc with hc | hc
    · exact hpath c hc
    · rw [List.mem_singleton.mp hc]
      exact ⟨fun h ↦ hstay (Or.inl h), fun h ↦ hstay (Or.inr h), hup, hname⟩

theorem forall_proper_walk (hpath : ∀ c ∈ path, Proper sep dot c) (hnames : ∀ c ∈ names, sep ∉ c) :
    ∀ c ∈ walk dot path names, Proper sep dot c := by
  induction names generalizing path with
  | nil => exact hpath
  | cons name names ih =>
    obtain ⟨hname, hnames⟩ := List.forall_mem_cons.mp hnames
    exact ih (forall_proper_step hpath hname) hnames

/-- Proper names go down. -/
theorem walk_of_proper (hnames : ∀ c ∈ names, Proper sep dot c) :
    walk dot path names = path ++ names := by
  induction names generalizing path with
  | nil => rw [List.append_nil]; rfl
  | cons name names ih =>
    obtain ⟨hname, hnames⟩ := List.forall_mem_cons.mp hnames
    rw [walk, List.foldl_cons, step_of_proper hname, ← walk, ih hnames, List.append_assoc,
      List.singleton_append]

/-- The pieces of a text are free of separators. -/
theorem notMem_of_mem_splitOn {s : List α} (h : name ∈ s.splitOn sep) : sep ∉ name := by
  induction s generalizing name with
  | nil =>
    rw [List.splitOn_nil, List.mem_singleton] at h
    rw [h]
    exact List.not_mem_nil
  | cons c s ih =>
    rw [List.splitOn_cons_eq_if_modifyHead] at h
    split_ifs at h with hc
    · rcases List.mem_cons.mp h with rfl | h
      · exact List.not_mem_nil
      · exact ih h
    · obtain ⟨first, rest, hs⟩ := List.exists_cons_of_ne_nil (List.splitOn_ne_nil sep s)
      rw [hs, List.modifyHead_cons] at h
      rcases List.mem_cons.mp h with rfl | h
      · have hfirst : sep ∉ first := ih (hs ▸ List.mem_cons_self)
        have hne : sep ≠ c := fun heq ↦ hc (by rw [heq]; exact beq_self_eq_true c)
        exact fun hmem ↦ (List.mem_cons.mp hmem).elim hne hfirst
      · exact ih (hs ▸ List.mem_cons_of_mem _ h)

theorem splitOn_flatMap (h : ∀ c ∈ path, sep ∉ c) :
    (path.flatMap (sep :: ·)).splitOn sep = [] :: path := by
  induction path using List.reverseRecOn with
  | nil => rfl
  | append_singleton path name ih =>
    have hpath : ∀ c ∈ path, sep ∉ c := fun c hc ↦ h c (List.mem_append_left _ hc)
    have hname : sep ∉ name := h name (List.mem_append_right _ List.mem_cons_self)
    rw [List.flatMap_append, List.flatMap_singleton, List.splitOn_append_cons_self, ih hpath,
      List.splitOn_eq_singleton hname, List.cons_append]

/-- The text of a path leads to it. -/
theorem walk_splitOn_render (hpath : ∀ c ∈ path, Proper sep dot c) :
    walk dot [] ((render sep path).splitOn sep) = path := by
  have hskip : ∀ names, walk dot [] ([] :: names) = walk dot [] names := fun names ↦ rfl
  rw [render]
  split_ifs with hroot
  · have hsep : [sep].splitOn sep = [[], []] := by
      rw [List.splitOn_cons_eq_if_modifyHead, if_pos (beq_self_eq_true sep), List.splitOn_nil]
    rw [hsep, hroot]
    rfl
  · rw [splitOn_flatMap fun c hc ↦ (hpath c hc).sep_notMem, hskip, walk_of_proper hpath,
      List.nil_append]

end Walk

section Render

variable {sep : α}

/-! ## Paths as texts

A rendered path has a separator in front of every name, and names have none inside.  So the text
of a path can be cut at its separators, while the beginning of a text may end within a name. -/

/-- Where a name ends is seen in the text. -/
theorem append_eq_append_of_notMem {x y s t : List α} (hx : sep ∉ x) (hy : sep ∉ y)
    (hs : s.head? = some sep) (ht : ∀ c ∈ t.head?, c = sep) (h : x ++ s = y ++ t) :
    x = y ∧ s = t := by
  induction x generalizing y with
  | nil =>
    cases y with
    | nil => exact ⟨rfl, h⟩
    | cons d y =>
      rw [List.nil_append] at h
      rw [h, List.cons_append, List.head?_cons, Option.some.injEq] at hs
      exact absurd List.mem_cons_self (hs ▸ hy)
  | cons c x ih =>
    cases y with
    | nil =>
      rw [List.nil_append] at h
      have hc : c = sep := ht c (by rw [← h]; rfl)
      exact absurd List.mem_cons_self (hc ▸ hx)
    | cons d y =>
      rw [List.cons_append, List.cons_append, List.cons_eq_cons] at h
      obtain ⟨rfl, h⟩ := h
      obtain ⟨rfl, hst⟩ := ih (fun hm ↦ hx (List.mem_cons_of_mem _ hm))
        (fun hm ↦ hy (List.mem_cons_of_mem _ hm)) h
      exact ⟨rfl, hst⟩

theorem head?_flatMap (path : List (List α)) : ∀ c ∈ (path.flatMap (sep :: ·)).head?, c = sep := by
  cases path with
  | nil => simp
  | cons name path => simp

/-- A name followed by nothing begins the text of a path if the first name of the path begins with
it. -/
theorem cons_prefix_flatMap_iff {last : List α} {path : List (List α)} (hlast : sep ∉ last) :
    sep :: last <+: path.flatMap (sep :: ·) ↔ ∃ suffix rest, path = (last ++ suffix) :: rest := by
  constructor
  · intro h
    cases path with
    | nil => simp at h
    | cons name path =>
      rw [List.flatMap_cons, List.cons_append, List.prefix_cons_inj] at h
      obtain ⟨t, ht⟩ := h
      rcases List.append_eq_append_iff.mp ht with ⟨suffix, hname, -⟩ | ⟨r, hr, hrest⟩
      · exact ⟨suffix, path, by rw [hname]⟩
      · cases r with
        | nil => exact ⟨[], path, by rw [hr, List.append_nil, List.append_nil]⟩
        | cons d r =>
          have hd : d = sep := head?_flatMap path d (by rw [hrest]; rfl)
          have hmem : d ∈ last := by
            rw [hr]
            exact List.mem_append_right _ List.mem_cons_self
          exact absurd hmem (hd ▸ hlast)
  · rintro ⟨suffix, rest, rfl⟩
    rw [List.flatMap_cons, List.cons_append, List.prefix_cons_inj, List.append_assoc]
    exact List.prefix_append _ _

/-- **What a comparison of texts says about paths.** -/
theorem render_prefix_iff {parent path : List (List α)} {last : List α}
    (hparent : ∀ c ∈ parent, sep ∉ c) (hlast : sep ∉ last) (hpath : ∀ c ∈ path, sep ∉ c)
    (hne : last ≠ []) :
    render sep (parent ++ [last]) <+: render sep path ↔
      ∃ suffix rest, path = parent ++ (last ++ suffix) :: rest := by
  have htext : render sep (parent ++ [last]) = parent.flatMap (sep :: ·) ++ sep :: last := by
    rw [render, if_neg (by simp), List.flatMap_append, List.flatMap_singleton]
  have hmain : ∀ path : List (List α), (∀ c ∈ path, sep ∉ c) →
      (parent.flatMap (sep :: ·) ++ sep :: last <+: path.flatMap (sep :: ·) ↔
        ∃ suffix rest, path = parent ++ (last ++ suffix) :: rest) := by
    clear htext hpath
    induction parent with
    | nil => exact fun path _ ↦ cons_prefix_flatMap_iff hlast
    | cons name parent ih =>
      obtain ⟨hname, hnames⟩ := List.forall_mem_cons.mp hparent
      rintro (_ | ⟨first, path⟩) hpath
      · simp
      · obtain ⟨hfirst, hrest⟩ := List.forall_mem_cons.mp hpath
        rw [List.flatMap_cons, List.flatMap_cons, List.cons_append, List.cons_append,
          List.cons_append, List.prefix_cons_inj, List.append_assoc]
        constructor
        · rintro ⟨t, ht⟩
          rw [List.append_assoc] at ht
          have hhead : (parent.flatMap (sep :: ·) ++ sep :: last ++ t).head? = some sep := by
            cases parent <;> simp
          obtain ⟨rfl, htail⟩ :=
            append_eq_append_of_notMem hname hfirst hhead (head?_flatMap path) ht
          obtain ⟨suffix, rest, rfl⟩ := (ih hnames path hrest).mp ⟨t, htail⟩
          exact ⟨suffix, rest, rfl⟩
        · rintro ⟨suffix, rest, h⟩
          obtain ⟨rfl, htail⟩ := List.cons_eq_cons.mp h
          rw [List.prefix_append_right_inj]
          exact (ih hnames path hrest).mpr ⟨suffix, rest, htail⟩
  rw [htext, render]
  split_ifs with hroot
  · rw [hroot]
    refine iff_of_false (fun h ↦ ?_) (by simp)
    have hlen := h.length_le
    have hpos : 0 < last.length := List.length_pos_iff.mpr hne
    simp only [List.length_append, List.length_cons, List.length_nil] at hlen
    omega
  · exact hmain path hpath

end Render

end LexicalPath
