import GroupChat.Lib.LexicalPath
import GroupChat.Py.Value

/-!
# The static files of a node

The last route of `app.py` serves what is below `public/`.  It joins the rest of the URL to the
directory, resolves what it gets, and compares the texts of the two paths.

* `StaticSite` is what there is to be served: where the directory is, and which paths are files.
* `StaticSite.resolve` and `StaticSite.staticFile` are the handler.
* `staysInside_iff`: the handler returns a file from outside exactly if the path leads to a file
  that is in a sibling of the directory, or is one itself, whose name goes on where `public` ends.
* `forall_staysInside_iff`: such a file is within reach as soon as there is one.
-/

set_option autoImplicit false

namespace GroupChat

open LexicalPath

/-! ## The handler

The handler resolves the path that it gets, asks whether the text of the result starts with the
text of the directory, and whether there is such a file. -/

/-- Names that a directory entry can have. -/
abbrev ProperName (name : Str) : Prop := Proper 47 46 name

/-- A name that no system call takes: it has a null character, or a surrogate that stands for no
byte. -/
def refusedName (name : Str) : Bool :=
  name.any fun c ↦ c == 0 || (0xD800 ≤ c && c ≤ 0xDFFF && !(0xDC80 ≤ c && c ≤ 0xDCFF))

/-- The directory of `app.py` and the files of the machine; no directory is a link. -/
structure StaticSite where
  /-- `Path(__file__).parent`, resolved. -/
  parent : List Str
  parent_proper : ∀ c ∈ parent, ProperName c
  /-- `Path.is_file`, where it does not raise. -/
  isFile : List Str → Option Bool
  /-- The path of a file consists of names. -/
  isFile_names : ∀ path, isFile path = some true →
    ∀ c ∈ path, ProperName c ∧ refusedName c = false
  /-- `public` is a directory. -/
  isFile_public : isFile (parent ++ [lit "public"]) = some false
  /-- `mimetypes.guess_type`. -/
  guessType : Str → Option Str

/-- How the handler ends. -/
inductive StaticResponse
  /-- `FileResponse`, with the media type where one is given. -/
  | file (path : List Str) (mediaType : Option Str)
  /-- Status 403. -/
  | forbidden
  /-- Status 500. -/
  | raised

namespace StaticSite

/-- `_PUBLIC`. -/
def publicDir (site : StaticSite) : List Str := site.parent ++ [lit "public"]

/-- `(_PUBLIC / filename).resolve()`: an absolute name starts over at the root. -/
def resolve (site : StaticSite) (filename : Str) : Option (List Str) :=
  let names := filename.splitOn 47
  if names.any refusedName then none
  else some (walk 46 (if filename.head? = some 47 then [] else site.publicDir) names)

/-- `index`. -/
def index (site : StaticSite) : StaticResponse := .file (site.publicDir ++ [lit "index.html"]) none

/-- `static_file`. -/
def staticFile (site : StaticSite) (filename : Str) : StaticResponse :=
  match site.resolve filename with
  | none => .raised
  | some target =>
    if (render 47 site.publicDir).isPrefixOf (render 47 target) then
      match site.isFile target with
      | none => .raised
      | some true =>
        .file target (some ((site.guessType (render 47 target)).getD
          (lit "application/octet-stream")))
      | some false => site.index
    else .forbidden

/-- A file that is returned is below `public`. -/
def StaysInside (site : StaticSite) (r : StaticResponse) : Prop :=
  ∀ path mediaType, r = .file path mediaType → ∃ rest, rest ≠ [] ∧ path = site.publicDir ++ rest

/-- A path goes through a sibling of `public` whose name goes on where `public` ends, or to one. -/
def Beside (site : StaticSite) (path : List Str) : Prop :=
  ∃ suffix rest, suffix ≠ [] ∧ path = site.parent ++ (lit "public" ++ suffix) :: rest

variable {site : StaticSite} {filename : Str} {target : List Str}

/-! ## What is let through

A text that starts with another one is not always a path below it: the last name of the directory
may go on. -/

theorem properName_public : ProperName (lit "public") := by
  constructor <;> decide

theorem properName_publicDir (site : StaticSite) : ∀ c ∈ site.publicDir, ProperName c := by
  intro c hc
  rcases List.mem_append.mp hc with hc | hc
  · exact site.parent_proper c hc
  · rw [List.mem_singleton.mp hc]
    exact properName_public

/-- What is resolved consists of names. -/
theorem properName_of_resolve (h : site.resolve filename = some target) :
    ∀ c ∈ target, ProperName c := by
  rw [resolve] at h
  split_ifs at h with hrefused habs
  · obtain rfl := Option.some.inj h
    exact forall_proper_walk (by simp) fun c hc ↦ notMem_of_mem_splitOn hc
  · obtain rfl := Option.some.inj h
    exact forall_proper_walk (properName_publicDir site) fun c hc ↦ notMem_of_mem_splitOn hc

/-- Every path of names is resolved from its own text. -/
theorem resolve_render (hproper : ∀ c ∈ target, ProperName c)
    (hnames : ∀ c ∈ target, refusedName c = false) :
    site.resolve (render 47 target) = some target := by
  have hslash : (render 47 target).head? = some 47 := by
    cases target <;> rfl
  have haccepted : ((render 47 target).splitOn 47).any refusedName = false := by
    rw [List.any_eq_false]
    intro c hc
    rw [render] at hc
    split_ifs at hc with hroot
    · have hsep : ([47] : Str).splitOn 47 = [[], []] := by decide
      rw [hsep] at hc
      obtain rfl : c = [] := by simpa using hc
      decide
    · rw [splitOn_flatMap fun c hc ↦ (hproper c hc).sep_notMem] at hc
      rcases List.mem_cons.mp hc with rfl | hc
      · decide
      · rw [hnames c hc]
        decide
  rw [resolve, haccepted, if_neg (by decide), if_pos hslash, walk_splitOn_render hproper]

/-- What the comparison of the handler lets through. -/
theorem isPrefixOf_iff (h : ∀ c ∈ target, ProperName c) :
    (render 47 site.publicDir).isPrefixOf (render 47 target) = true ↔
      (∃ rest, target = site.publicDir ++ rest) ∨ site.Beside target := by
  rw [List.isPrefixOf_iff_prefix, publicDir,
    render_prefix_iff (fun c hc ↦ (site.parent_proper c hc).sep_notMem)
      properName_public.sep_notMem (fun c hc ↦ (h c hc).sep_notMem) properName_public.ne_nil]
  constructor
  · rintro ⟨suffix, rest, htarget⟩
    by_cases hsuffix : suffix = []
    · refine Or.inl ⟨rest, ?_⟩
      rw [htarget, hsuffix, List.append_nil, List.append_assoc, List.singleton_append]
    · exact Or.inr ⟨suffix, rest, hsuffix, htarget⟩
  · rintro (⟨rest, htarget⟩ | ⟨suffix, rest, -, htarget⟩)
    · refine ⟨[], rest, ?_⟩
      rw [htarget, List.append_nil, List.append_assoc, List.singleton_append]
    · exact ⟨suffix, rest, htarget⟩

/-! ## What is served

A path that passes the comparison and is a file is returned.  Whether it is below the directory
depends on its first names. -/

theorem staticFile_of_file (hresolve : site.resolve filename = some target)
    (hbegin : (render 47 site.publicDir).isPrefixOf (render 47 target) = true)
    (hfile : site.isFile target = some true) :
    site.staticFile filename =
      .file target (some ((site.guessType (render 47 target)).getD
        (lit "application/octet-stream"))) := by
  rw [staticFile, hresolve]
  simp only [hbegin, hfile, if_true]

/-- A sibling is not below. -/
theorem Beside.ne_append (h : site.Beside target) (rest : List Str) :
    target ≠ site.publicDir ++ rest := by
  obtain ⟨suffix, rest', hsuffix, rfl⟩ := h
  intro heq
  rw [publicDir, List.append_assoc, List.singleton_append, List.append_cancel_left_eq,
    List.cons_eq_cons] at heq
  exact hsuffix (by simpa using heq.1)

theorem staysInside_index (site : StaticSite) : site.StaysInside site.index := by
  intro path mediaType h
  obtain ⟨rfl, -⟩ := StaticResponse.file.inj h
  exact ⟨_, List.cons_ne_nil _ _, rfl⟩

/-- A file in a sibling is returned. -/
theorem not_staysInside_of_beside (hresolve : site.resolve filename = some target)
    (hfile : site.isFile target = some true) (hbeside : site.Beside target) :
    ¬site.StaysInside (site.staticFile filename) := by
  intro h
  have hbegin := (isPrefixOf_iff (properName_of_resolve hresolve)).mpr (Or.inr hbeside)
  obtain ⟨rest, -, htarget⟩ := h target _ (staticFile_of_file hresolve hbegin hfile)
  exact hbeside.ne_append rest htarget

/-- Nothing else from outside is. -/
theorem staysInside_of_not_beside
    (h : ∀ target, site.resolve filename = some target → site.isFile target = some true →
      ¬site.Beside target) :
    site.StaysInside (site.staticFile filename) := by
  rw [staticFile]
  split
  · intro path mediaType hraised
    exact absurd hraised (by simp)
  · rename_i target hresolve
    split_ifs with hbegin
    · split
      · intro path mediaType hraised
        exact absurd hraised (by simp)
      · rename_i hfile
        intro path mediaType hpath
        obtain ⟨rfl, -⟩ := StaticResponse.file.inj hpath
        rcases (isPrefixOf_iff (properName_of_resolve hresolve)).mp hbegin with
          ⟨rest, hrest⟩ | hbeside
        · refine ⟨rest, ?_, hrest⟩
          rintro rfl
          rw [hrest, List.append_nil, publicDir, site.isFile_public] at hfile
          exact absurd hfile (by simp)
        · exact absurd hbeside (h target hresolve hfile)
      · exact staysInside_index site
    · intro path mediaType hforbidden
      exact absurd hforbidden (by simp)

/-- **When a file is returned that is not below `public`.** -/
theorem staysInside_iff (site : StaticSite) (filename : Str) :
    site.StaysInside (site.staticFile filename) ↔
      ∀ target, site.resolve filename = some target → site.isFile target = some true →
        ¬site.Beside target :=
  ⟨fun h _ hresolve hfile hbeside ↦ not_staysInside_of_beside hresolve hfile hbeside h,
    staysInside_of_not_beside⟩

/-- **The layouts of which only what is below `public` is served.** -/
theorem forall_staysInside_iff (site : StaticSite) :
    (∀ filename, site.StaysInside (site.staticFile filename)) ↔
      ∀ path, site.isFile path = some true → ¬site.Beside path := by
  constructor
  · intro h path hfile hbeside
    have hnames := site.isFile_names path hfile
    have hresolve : site.resolve (render 47 path) = some path :=
      resolve_render (fun c hc ↦ (hnames c hc).1) fun c hc ↦ (hnames c hc).2
    exact not_staysInside_of_beside hresolve hfile hbeside (h _)
  · intro h filename
    exact staysInside_of_not_beside fun target _ hfile ↦ h target hfile

end StaticSite

/-- The only file is in `public2`, a directory next to `public`. -/
def besideSite : StaticSite where
  parent := [lit "srv"]
  parent_proper := by
    intro c hc
    rw [List.mem_singleton.mp hc]
    constructor <;> decide
  isFile path := some (decide (path = [lit "srv", lit "public2", lit "secret.txt"]))
  isFile_names := by
    intro path h
    obtain rfl := of_decide_eq_true (Option.some.inj h)
    intro c hc
    simp only [List.mem_cons, List.not_mem_nil, or_false] at hc
    rcases hc with rfl | rfl | rfl
    all_goals exact ⟨by constructor <;> decide, by decide⟩
  isFile_public := by decide
  guessType _ := none

/-- **`../public2/secret.txt` is served.** -/
theorem not_staysInside_public2 :
    ¬besideSite.StaysInside (besideSite.staticFile (lit "../public2/secret.txt")) := by
  have hresolve : besideSite.resolve (lit "../public2/secret.txt") =
      some [lit "srv", lit "public2", lit "secret.txt"] := by
    decide +kernel
  exact StaticSite.not_staysInside_of_beside hresolve (by decide +kernel)
    ⟨lit "2", [lit "secret.txt"], by decide, rfl⟩

end GroupChat
