import GroupChat.Py.Json
import GroupChat.Lib.Dict

/-!
# `json.loads`

What a client sends is a text, and `handle_connection` goes on with what `json.loads` makes of it.
`loads` is the scanner of the standard library: one function for strings, one for numbers, and
`scanOnce` for a value of any kind.

* It fails in two ways.  A text that is not JSON raises a `ValueError`; one with too many arrays
  and objects inside each other exhausts the stack of the interpreter, which is a `RecursionError`.
  `loads_nested` has a text of the second kind for every depth.
* The number of items of an array or an object is bounded by the length of what is left of the text,
  which is what `scanItems` recurses on.  It never gets to the bound (`scanItems_of_lt`), because
  every item takes something off the text, so that any larger bound does as well (`scanItems_eq`).
* `serialisable_of_loads`: what was read can be written again.

The digits of a fraction and the depth of the stack are left open, in `JsonLib`.

The scanner is written with the checks in the order of the standard library, because a text with
several faults raises the exception of the first one, and because the order of the alternatives
decides what `-Infinity` and `-1` are.
-/

set_option autoImplicit false

namespace GroupChat

/-! ## Texts and scans

A scan takes a text, and returns what it has read together with what is left.  The depth is an
argument of `scanOnce` and goes down with every bracket, which makes the function structurally
recursive and is at the same time the depth of the stack. -/

/-- The exceptions of `json.loads`. -/
inductive LoadError
  | valueError
  | recursionError
  deriving DecidableEq

/-- What `json.loads` depends on. -/
structure JsonLib where
  /-- `float(s)`, for the text of a number. -/
  parseFloat : Str → PyFloat
  /-- How many arrays and objects can stand inside each other. -/
  maxDepth : ℕ

/-- A function that reads something off the front of a text. -/
abbrev Scan (α : Type) := Str → Except LoadError (α × Str)

/-- What is left of a text after white space. -/
def skipSpace (s : Str) : Str := s.dropWhile fun c ↦ c == 32 || c == 9 || c == 10 || c == 13

/-! ## Strings

A `\u` escape stands for one UTF-16 unit.  Two escapes that are a surrogate pair are one
character, while a surrogate on its own stays as it is, so a Python string can contain it.
Control characters are refused. -/

/-- The character after a backslash. -/
def unescape? (c : ℕ) : Option ℕ :=
  if c = 34 ∨ c = 92 ∨ c = 47 then some c
  else if c = 98 then some 8
  else if c = 102 then some 12
  else if c = 110 then some 10
  else if c = 114 then some 13
  else if c = 116 then some 9
  else none

/-- Four hexadecimal digits. -/
def hexUnit (digits : Str) : Option ℕ :=
  (digits.mapM hexVal).map fun vs ↦ vs.foldl (fun n v ↦ 16 * n + v) 0

/-- The characters of a string up to its closing quote.  The flag says that a character was written
as a `\u` escape. -/
def scanUnits : Scan (List (ℕ × Bool))
  | [] => .error .valueError
  | c :: s =>
    if c = 34 then .ok ([], s)
    else if c = 92 then
      match s with
      | [] => .error .valueError
      | e :: s =>
        if e = 117 then
          match s with
          | h₁ :: h₂ :: h₃ :: h₄ :: s =>
            match hexUnit [h₁, h₂, h₃, h₄] with
            | some u => (scanUnits s).map fun p ↦ ((u, true) :: p.1, p.2)
            | none => .error .valueError
          | _ => .error .valueError
        else
          match unescape? e with
          | some u => (scanUnits s).map fun p ↦ ((u, false) :: p.1, p.2)
          | none => .error .valueError
    -- control characters must be escaped
    else if c < 32 then .error .valueError
    else (scanUnits s).map fun p ↦ ((c, false) :: p.1, p.2)

/-- Do two characters form a surrogate pair?  Only escapes are put together. -/
def isSurrogatePair (u v : ℕ × Bool) : Bool :=
  u.2 && v.2 && 0xd800 ≤ u.1 && u.1 < 0xdc00 && 0xdc00 ≤ v.1 && v.1 < 0xe000

/-- One more character in front, put together with the next one if they are a surrogate pair. -/
def joinUnit (u : ℕ × Bool) : List (ℕ × Bool) → List (ℕ × Bool)
  | v :: us =>
    if isSurrogatePair u v then
      (0x10000 + (u.1 - 0xd800) * 0x400 + (v.1 - 0xdc00), false) :: us
    else u :: v :: us
  | [] => [u]

/-- A string, after its opening quote. -/
def scanString : Scan Str := fun s ↦
  (scanUnits s).map fun p ↦ ((p.1.foldr joinUnit []).map Prod.fst, p.2)

/-! ## Numbers

A number with neither a fraction nor an exponent is an `int`, of any size up to the limit on the
number of digits, and any other number is a `float`. -/

/-- An ASCII digit. -/
def isDigit (c : ℕ) : Bool := 48 ≤ c && c ≤ 57

/-- A sign that may be there. -/
def scanSign (signs : List ℕ) : Str → Str × Str
  | c :: s => if c ∈ signs then ([c], s) else ([], c :: s)
  | [] => ([], [])

/-- The digits of an integer.  There is nothing after a leading zero. -/
def scanInteger : Str → Str × Str
  | c :: s =>
    if c = 48 then ([c], s) else ((c :: s).takeWhile isDigit, (c :: s).dropWhile isDigit)
  | [] => ([], [])

/-- The decimal places, if there are any. -/
def scanFraction : Str → Str × Str
  | c :: s =>
    if c = 46 ∧ s.takeWhile isDigit ≠ [] then (c :: s.takeWhile isDigit, s.dropWhile isDigit)
    else ([], c :: s)
  | [] => ([], [])

/-- The exponent, if there is one. -/
def scanExponent : Str → Str × Str
  | c :: s =>
    let (sign, t) := scanSign [43, 45] s
    if (c = 101 ∨ c = 69) ∧ t.takeWhile isDigit ≠ [] then
      (c :: sign ++ t.takeWhile isDigit, t.dropWhile isDigit)
    else ([], c :: s)
  | [] => ([], [])

/-- The number of digits that `int` takes. -/
def maxIntDigits : ℕ := 4300

/-- The integer with a sign and some digits. -/
def signedInt (sign digits : Str) : ℤ :=
  let n : ℤ := digits.foldl (fun n c ↦ 10 * n + (c - 48 : ℤ)) 0
  if sign = [] then n else -n

/-- A number. -/
def scanNumber (J : JsonLib) : Scan Value := fun s ↦
  let (sign, s) := scanSign [45] s
  let (digits, s) := scanInteger s
  let (fraction, s) := scanFraction s
  let (exponent, s) := scanExponent s
  if digits = [] then .error .valueError
  else if fraction = [] ∧ exponent = [] then
    if digits.length ≤ maxIntDigits then .ok (.int (signedInt sign digits), s)
    else .error .valueError
  else .ok (.float (J.parseFloat (sign ++ digits ++ fraction ++ exponent)), s)

/-! ## Values

The first character decides what kind of value it is.  Arrays and objects share their loop,
`scanItems`, and differ in the items and in the bracket that closes them. -/

/-- The values that are words.  There is one NaN for all texts. -/
def constants : List (Str × Value) :=
  [(lit "null", .none), (lit "true", .bool true), (lit "false", .bool false),
    (lit "NaN", .float (.nan 0)), (lit "Infinity", .float (.inf false)),
    (lit "-Infinity", .float (.inf true))]

/-- A value that is a word. -/
def scanConstant (s : Str) : Option (Value × Str) :=
  constants.findSome? fun p ↦ if p.1.isPrefixOf s then some (p.2, s.drop p.1.length) else none

/-- A value without items. -/
def scanWord (J : JsonLib) : Scan Value := fun s ↦
  match scanConstant s with
  | some p => .ok p
  | none => scanNumber J s

/-- Items with commas between them, up to the character that closes them. -/
def scanItems {α : Type} (item : Scan α) (close : ℕ) : ℕ → Scan (List α)
  | 0, _ => .error .valueError
  | fuel + 1, s =>
    match item s with
    | .error e => .error e
    | .ok (x, s) =>
      let s := skipSpace s
      if s.head? = some close then .ok ([x], s.tail)
      else if s.head? = some 44 then
        (scanItems item close fuel (skipSpace s.tail)).map fun p ↦ (x :: p.1, p.2)
      else .error .valueError

/-- What is between two brackets, after the opening one. -/
def scanBody {α : Type} (item : Scan α) (close : ℕ) : Scan (List α) := fun s ↦
  let s := skipSpace s
  if s.head? = some close then .ok ([], s.tail) else scanItems item close (s.length + 1) s

/-- A field of an object. -/
def scanField (value : Scan Value) : Scan (Str × Value) := fun s ↦
  if s.head? = some 34 then
    match scanString s.tail with
    | .error e => .error e
    | .ok (k, s) =>
      let s := skipSpace s
      if s.head? = some 58 then
        (value (skipSpace s.tail)).map fun p ↦ ((k, p.1), p.2)
      else .error .valueError
  else .error .valueError

/-- The fields of the `dict`: of fields with one key the last one counts.  Keys are looked up by
names of the program only, so it does not matter what becomes of a lone surrogate in a key. -/
def dictOf (fields : List (Str × Value)) : Obj :=
  (fields.foldl (fun d p ↦ d.set p.1 p.2) (Dict.empty : Dict Str Value)).entries.map fun p ↦
    (.ofList (p.1.map Char.ofNat), p.2)

/-- A value, with arrays and objects down to a depth. -/
def scanOnce (J : JsonLib) : ℕ → Scan Value
  | _, [] => .error .valueError
  | depth, c :: s =>
    if c = 34 then (scanString s).map fun p ↦ (.str p.1, p.2)
    else if c = 91 ∨ c = 123 then
      match depth with
      | 0 => .error .recursionError
      | depth + 1 =>
        if c = 91 then (scanBody (scanOnce J depth) 93 s).map fun p ↦ (.list p.1, p.2)
        else
          (scanBody (scanField (scanOnce J depth)) 125 s).map fun p ↦ (.dict (dictOf p.1), p.2)
    else scanWord J (c :: s)

/-- `json.loads(raw)`.  A text that starts with a byte order mark is refused. -/
def loads (J : JsonLib) (raw : Str) : Except LoadError Value :=
  if raw.head? = some 0xfeff then .error .valueError
  else
    match scanOnce J J.maxDepth (skipSpace raw) with
    | .error e => .error e
    | .ok (v, s) => if skipSpace s = [] then .ok v else .error .valueError

/-! ## What is read off

Every scan takes at least one character.  This is all that is needed to see that the bound in
`scanItems` is never reached, so a text that is refused is refused because of what is in it. -/

/-- A scan takes at least one character. -/
def Consumes {α : Type} (item : Scan α) : Prop :=
  ∀ s x s', item s = .ok (x, s') → s'.length < s.length

/-- White space is taken off the front. -/
theorem length_skipSpace_le (s : Str) : (skipSpace s).length ≤ s.length :=
  List.length_dropWhile_le _ _

/-- A result that is only rearranged. -/
theorem map_eq_ok_iff {α β : Type} {r : Except LoadError (α × Str)} {f : α → β} {y : β} {s : Str} :
    r.map (fun p ↦ (f p.1, p.2)) = .ok (y, s) ↔ ∃ x, r = .ok (x, s) ∧ f x = y := by
  cases r with
  | error e => simp [Except.map]
  | ok p => simp [Except.map, Prod.ext_iff, and_comm, eq_comm]

/-- A scan that skips something before it goes on takes at least one character. -/
theorem consumes_step {α β : Type} {item : Scan α} {f : α → β} {s t : Str} {y : β} {s' : Str}
    (hitem : ∀ x s', item t = .ok (x, s') → s'.length < t.length) (hlen : t.length < s.length)
    (h : (item t).map (fun p ↦ (f p.1, p.2)) = .ok (y, s')) : s'.length < s.length := by
  obtain ⟨x, hx, -⟩ := map_eq_ok_iff.mp h
  exact (hitem x s' hx).trans hlen

/-- At least the closing quote is taken. -/
theorem consumes_scanUnits : Consumes scanUnits := by
  intro s
  fun_induction scanUnits s with
  | case2 s =>
    intro x s' h
    obtain ⟨-, rfl⟩ := Prod.ext_iff.mp (Except.ok.inj h)
    exact Nat.lt_succ_self _
  | case4 h₁ h₂ h₃ h₄ s u hu hne ih =>
    exact fun x s' h ↦ consumes_step ih (by simp only [List.length_cons]; omega) h
  | case7 e s he u hu hne ih =>
    exact fun x s' h ↦ consumes_step ih (by simp only [List.length_cons]; omega) h
  | case10 c s hquote hescape hcontrol ih =>
    exact fun x s' h ↦ consumes_step ih (Nat.lt_succ_self _) h
  | _ => simp

theorem consumes_scanString : Consumes scanString := by
  intro s x s' h
  obtain ⟨us, hus, -⟩ : ∃ us, scanUnits s = .ok (us, s') ∧
      (us.foldr joinUnit []).map Prod.fst = x := map_eq_ok_iff.mp h
  exact consumes_scanUnits s us s' hus

/-! ## Numbers take digits

The parts of a number are taken off one after the other, and some of them may be empty.  Together
they have a digit at least. -/

/-- Sign and rest are together the whole text. -/
theorem length_scanSign (signs : List ℕ) (s : Str) :
    (scanSign signs s).1.length + (scanSign signs s).2.length = s.length := by
  cases s with
  | nil => rfl
  | cons c s =>
    rw [scanSign]
    split
    · exact Nat.add_comm _ _
    · exact Nat.zero_add _

theorem length_takeWhile_add_dropWhile (s : Str) :
    (s.takeWhile isDigit).length + (s.dropWhile isDigit).length = s.length := by
  rw [← List.length_append, List.takeWhile_append_dropWhile]

/-- Digits and rest are together the whole text. -/
theorem length_scanInteger (s : Str) :
    (scanInteger s).1.length + (scanInteger s).2.length = s.length := by
  cases s with
  | nil => rfl
  | cons c s =>
    rw [scanInteger]
    split
    · exact Nat.add_comm _ _
    · exact length_takeWhile_add_dropWhile _

theorem length_scanFraction_le (s : Str) : (scanFraction s).2.length ≤ s.length := by
  cases s with
  | nil => exact Nat.le_refl _
  | cons c s =>
    rw [scanFraction]
    split
    · exact (List.length_dropWhile_le _ _).trans (Nat.le_succ _)
    · exact Nat.le_refl _

theorem length_scanExponent_le (s : Str) : (scanExponent s).2.length ≤ s.length := by
  cases s with
  | nil => exact Nat.le_refl _
  | cons c s =>
    have hsign := length_scanSign [43, 45] s
    have hdrop := List.length_dropWhile_le isDigit (scanSign [43, 45] s).2
    rw [scanExponent]
    simp only
    split
    · simp only [List.length_cons]
      omega
    · exact Nat.le_refl _

/-- A number has at least one digit. -/
theorem consumes_scanNumber (J : JsonLib) : Consumes (scanNumber J) := by
  intro s x s' h
  have hsign := length_scanSign [45] s
  have hdigits := length_scanInteger (scanSign [45] s).2
  have hfraction := length_scanFraction_le (scanInteger (scanSign [45] s).2).2
  have hexponent :=
    length_scanExponent_le (scanFraction (scanInteger (scanSign [45] s).2).2).2
  rw [scanNumber] at h
  simp only at h
  split at h
  · simp at h
  · rename_i hne
    have hpos := List.length_pos_iff.mpr hne
    split at h
    · split at h
      · obtain ⟨-, rfl⟩ := Prod.ext_iff.mp (Except.ok.inj h)
        simp only
        omega
      · simp at h
    · obtain ⟨-, rfl⟩ := Prod.ext_iff.mp (Except.ok.inj h)
      simp only
      omega

/-- A word is not empty. -/
theorem length_scanConstant {s s' : Str} {v : Value} (h : scanConstant s = some (v, s')) :
    s'.length < s.length := by
  obtain ⟨p, hp, hsome⟩ := List.exists_of_findSome?_eq_some h
  split at hsome
  · rename_i hbegin
    obtain ⟨-, rfl⟩ := Prod.ext_iff.mp (Option.some.inj hsome)
    have hpos : ∀ p ∈ constants, 0 < p.1.length := by
      intro p hp
      simp only [constants, List.mem_cons, List.not_mem_nil, or_false] at hp
      rcases hp with rfl | rfl | rfl | rfl | rfl | rfl <;> decide
    have hle := (List.isPrefixOf_iff_prefix.mp hbegin).length_le
    have hp := hpos p hp
    simp only [List.length_drop]
    omega
  · simp at hsome

section Items

variable {α : Type} {item : Scan α} (hitem : Consumes item) (close : ℕ)

include hitem

/-! ## Items and bodies

In the loop over the items the text gets shorter with each of them.  The bound that `scanItems` is
given is the length of the text, so it is never used up before the text is. -/

/-- After an item, and perhaps a comma, there is less left than before. -/
theorem length_after_item {s s' : Str} {x : α} (h : item s = .ok (x, s')) :
    (skipSpace (skipSpace s').tail).length < s.length := by
  have hlt := hitem s x s' h
  have hle := length_skipSpace_le s'
  have hle' := length_skipSpace_le (skipSpace s').tail
  simp only [List.length_tail] at hle'
  omega

/-- **The loop over the items never gets to its bound.** -/
theorem scanItems_of_lt {fuel : ℕ} : ∀ {fuel' : ℕ} {s : Str}, s.length < fuel → s.length < fuel' →
    scanItems item close fuel s = scanItems item close fuel' s := by
  induction fuel with
  | zero => exact fun h ↦ absurd h (Nat.not_lt_zero _)
  | succ fuel ih =>
    intro fuel' s h h'
    obtain ⟨fuel', rfl⟩ := Nat.exists_eq_succ_of_ne_zero (Nat.ne_zero_of_lt h')
    rw [scanItems, scanItems]
    cases hx : item s with
    | error e => rfl
    | ok p =>
      obtain ⟨x, s'⟩ := p
      have hlen := length_after_item hitem hx
      simp only
      rw [ih (by omega) (show _ < fuel' by omega)]

theorem consumes_scanItems (fuel : ℕ) : Consumes (scanItems item close fuel) := by
  intro s
  induction fuel generalizing s with
  | zero => simp [scanItems]
  | succ fuel ih =>
    intro xs s' h
    rw [scanItems] at h
    cases hx : item s with
    | error e => simp [hx] at h
    | ok p =>
      obtain ⟨x, t⟩ := p
      have hlt := hitem s x t hx
      have hle := length_skipSpace_le t
      simp only [hx] at h
      split at h
      · obtain ⟨-, rfl⟩ := Prod.ext_iff.mp (Except.ok.inj h)
        simp only [List.length_tail]
        omega
      · split at h
        · exact consumes_step (ih _) (length_after_item hitem hx) h
        · simp at h

/-- At least the closing bracket is taken. -/
theorem consumes_scanBody : Consumes (scanBody item close) := by
  intro s xs s' h
  have hle := length_skipSpace_le s
  rw [scanBody] at h
  split at h
  · rename_i hclose
    obtain ⟨-, rfl⟩ := Prod.ext_iff.mp (Except.ok.inj h)
    have hpos : 0 < (skipSpace s).length := List.length_pos_iff.mpr fun hnil ↦ by
      simp [hnil] at hclose
    simp only [List.length_tail]
    omega
  · exact (consumes_scanItems hitem close _ _ _ _ h).trans_le hle

end Items

theorem consumes_scanField {value : Scan Value} (hvalue : Consumes value) :
    Consumes (scanField value) := by
  intro s p s' h
  rw [scanField] at h
  split at h
  · cases hk : scanString s.tail with
    | error e => simp [hk] at h
    | ok q =>
      obtain ⟨k, t⟩ := q
      have hlt := consumes_scanString _ _ _ hk
      have hle := length_skipSpace_le t
      have hle' := length_skipSpace_le (skipSpace t).tail
      simp only [List.length_tail] at hlt hle'
      simp only [hk] at h
      split at h
      · exact consumes_step (hvalue _) (by omega) h
      · simp at h
  · simp at h

theorem consumes_scanWord (J : JsonLib) : Consumes (scanWord J) := by
  intro s x s' h
  rw [scanWord] at h
  split at h
  · rename_i p hp
    obtain rfl := Except.ok.inj h
    exact length_scanConstant hp
  · exact consumes_scanNumber J s x s' h

/-! ## Values

A case distinction by the first character, once for all properties of what is read. -/

/-- The ways to read a value. -/
theorem scanOnce_cases {J : JsonLib} {depth : ℕ} {s s' : Str} {v : Value}
    (h : scanOnce J depth s = .ok (v, s')) : ∃ c t, s = c :: t ∧
      ((∃ u, scanString t = .ok (u, s') ∧ v = .str u) ∨
        (∃ d xs, depth = d + 1 ∧ scanBody (scanOnce J d) 93 t = .ok (xs, s') ∧ v = .list xs) ∨
        (∃ d fields, depth = d + 1 ∧
          scanBody (scanField (scanOnce J d)) 125 t = .ok (fields, s') ∧
            v = .dict (dictOf fields)) ∨
        scanWord J s = .ok (v, s')) := by
  cases s with
  | nil => simp [scanOnce] at h
  | cons c t =>
    refine ⟨c, t, rfl, ?_⟩
    unfold scanOnce at h
    split at h
    · obtain ⟨u, hu, rfl⟩ := map_eq_ok_iff.mp h
      exact Or.inl ⟨u, hu, rfl⟩
    · split at h
      · cases depth with
        | zero => simp at h
        | succ d =>
          simp only at h
          split at h
          · obtain ⟨xs, hxs, rfl⟩ := map_eq_ok_iff.mp h
            exact Or.inr (Or.inl ⟨d, xs, rfl, hxs, rfl⟩)
          · obtain ⟨fields, hfields, rfl⟩ :=
              (map_eq_ok_iff (f := fun fields ↦ Value.dict (dictOf fields))).mp h
            exact Or.inr (Or.inr (Or.inl ⟨d, fields, rfl, hfields, rfl⟩))
      · exact Or.inr (Or.inr (Or.inr h))

/-- **Reading a value takes at least one character**, at every depth. -/
theorem consumes_scanOnce (J : JsonLib) (depth : ℕ) : Consumes (scanOnce J depth) := by
  induction depth using Nat.strong_induction_on with
  | h depth ih =>
    intro s v s' h
    obtain ⟨c, t, rfl, ⟨u, hu, -⟩ | ⟨d, xs, rfl, hxs, -⟩ | ⟨d, fields, rfl, hfields, -⟩ | hword⟩ :=
      scanOnce_cases h
    · exact (consumes_scanString t u s' hu).trans (Nat.lt_succ_self _)
    · exact (consumes_scanBody (ih d (Nat.lt_succ_self d)) 93 t xs s' hxs).trans
        (Nat.lt_succ_self _)
    · exact (consumes_scanBody (consumes_scanField (ih d (Nat.lt_succ_self d))) 125 t fields s'
        hfields).trans (Nat.lt_succ_self _)
    · exact consumes_scanWord J _ v s' hword

/-- So the items of an array or an object do not depend on the bound. -/
theorem scanItems_eq (J : JsonLib) (depth close : ℕ) {fuel : ℕ} {s : Str} (h : s.length < fuel) :
    scanItems (scanOnce J depth) close fuel s =
        scanItems (scanOnce J depth) close (s.length + 1) s ∧
      scanItems (scanField (scanOnce J depth)) close fuel s =
        scanItems (scanField (scanOnce J depth)) close (s.length + 1) s :=
  ⟨scanItems_of_lt (consumes_scanOnce J depth) close h (Nat.lt_succ_self _),
    scanItems_of_lt (consumes_scanField (consumes_scanOnce J depth)) close h (Nat.lt_succ_self _)⟩

/-! ## Deep texts

A text of opening brackets is as deep as it is long.  So there is no bound on the depth that would
make `json.loads` safe for all texts, which is what the handler of a connection has to reckon
with. -/

/-- One bracket more than there is depth. -/
theorem scanOnce_nested (J : JsonLib) (depth : ℕ) :
    scanOnce J depth (List.replicate (depth + 1) 91) = .error .recursionError := by
  induction depth with
  | zero => rfl
  | succ depth ih =>
    have hhead : (skipSpace (List.replicate (depth + 1) 91)).head? ≠ some 93 := by
      rw [List.replicate_succ, skipSpace, List.dropWhile_cons_of_neg (by decide), List.head?_cons]
      decide
    have hskip : skipSpace (List.replicate (depth + 1) 91) = List.replicate (depth + 1) 91 := by
      rw [List.replicate_succ, skipSpace, List.dropWhile_cons_of_neg (by decide)]
    rw [List.replicate_succ, scanOnce, if_neg (by decide), if_pos (Or.inl rfl)]
    rw [if_pos rfl, scanBody, if_neg hhead, hskip, scanItems, ih]
    rfl

/-- **However deep the stack is, a text can be deeper.** -/
theorem loads_nested (J : JsonLib) :
    loads J (List.replicate (J.maxDepth + 1) 91) = .error .recursionError := by
  have hskip : skipSpace (List.replicate (J.maxDepth + 1) 91) =
      List.replicate (J.maxDepth + 1) 91 := by
    rw [List.replicate_succ, skipSpace, List.dropWhile_cons_of_neg (by decide)]
  rw [loads, if_neg (by simp [List.replicate_succ]), hskip, scanOnce_nested]

/-! ## What is read

Uploads and identities are never read, and a NaN is the one of all texts, so the values that come
out of a text are those that `json.dumps` writes.  The property goes through the scanner as
`Consumes` does: from the items to the loop, and from there to values. -/

/-- Whatever a scan reads has the property. -/
def Yields {α : Type} (P : α → Prop) (item : Scan α) : Prop :=
  ∀ s x s', item s = .ok (x, s') → P x

section Yields

variable {α : Type} {P : α → Prop} {item : Scan α} (hitem : Yields P item) (close : ℕ)

include hitem

/-- If every item has the property, then all items of the list have it. -/
theorem yields_scanItems (fuel : ℕ) : Yields (∀ x ∈ ·, P x) (scanItems item close fuel) := by
  intro s
  induction fuel generalizing s with
  | zero => simp [scanItems]
  | succ fuel ih =>
    intro xs s' h
    rw [scanItems] at h
    cases hx : item s with
    | error e => simp [hx] at h
    | ok p =>
      obtain ⟨x, t⟩ := p
      simp only [hx] at h
      split at h
      · obtain ⟨rfl, -⟩ := Prod.ext_iff.mp (Except.ok.inj h)
        exact List.forall_mem_singleton.mpr (hitem s x t hx)
      · split at h
        · obtain ⟨ys, hys, rfl⟩ := map_eq_ok_iff.mp h
          exact List.forall_mem_cons.mpr ⟨hitem s x t hx, ih _ ys s' hys⟩
        · simp at h

theorem yields_scanBody : Yields (∀ x ∈ ·, P x) (scanBody item close) := by
  intro s xs s' h
  rw [scanBody] at h
  split at h
  · obtain ⟨rfl, -⟩ := Prod.ext_iff.mp (Except.ok.inj h)
    exact fun x hx ↦ absurd hx List.not_mem_nil
  · exact yields_scanItems hitem close _ _ xs s' h

end Yields

theorem yields_scanField {P : Value → Prop} {value : Scan Value} (hvalue : Yields P value) :
    Yields (fun f ↦ P f.2) (scanField value) := by
  intro s f s' h
  rw [scanField] at h
  split at h
  · cases hk : scanString s.tail with
    | error e => simp [hk] at h
    | ok q =>
      simp only [hk] at h
      split at h
      · obtain ⟨v, hv, rfl⟩ := map_eq_ok_iff.mp h
        exact hvalue _ v s' hv
      · simp at h
  · simp at h

/-! ## Properties of what is read

A property of values that holds of the constants and of all numbers and strings, and that lists
and dictionaries inherit from what is in them, holds of whatever is read. -/

theorem yields_scanWord (J : JsonLib) :
    Yields (fun v ↦ v.serialisable = true) (scanWord J) := by
  intro s v s' h
  rw [scanWord] at h
  split at h
  · rename_i p hp
    obtain rfl := Except.ok.inj h
    obtain ⟨q, hq, hsome⟩ := List.exists_of_findSome?_eq_some hp
    split at hsome
    · obtain ⟨rfl, -⟩ := Prod.ext_iff.mp (Option.some.inj hsome)
      simp only [constants, List.mem_cons, List.not_mem_nil, or_false] at hq
      rcases hq with rfl | rfl | rfl | rfl | rfl | rfl <;> rfl
    · simp at hsome
  · rw [scanNumber] at h
    simp only at h
    split at h
    · simp at h
    · split at h
      · split at h
        · obtain ⟨rfl, -⟩ := Prod.ext_iff.mp (Except.ok.inj h)
          rfl
        · simp at h
      · obtain ⟨rfl, -⟩ := Prod.ext_iff.mp (Except.ok.inj h)
        rfl

/-- Of several fields with one key the last one is kept, and it is among those that were read. -/
theorem serialisable_dictOf {fields : List (Str × Value)}
    (h : ∀ f ∈ fields, f.2.serialisable = true) :
    (Value.dict (dictOf fields)).serialisable = true := by
  have hfold : ∀ fields : List (Str × Value), (∀ f ∈ fields, f.2.serialisable = true) →
      ∀ d : Dict Str Value, (∀ k v, d.get? k = some v → v.serialisable = true) →
        ∀ k v, (fields.foldl (fun d p ↦ d.set p.1 p.2) d).get? k = some v →
          v.serialisable = true := by
    intro fields
    induction fields with
    | nil => exact fun _ d hd ↦ hd
    | cons f fields ih =>
      intro h d hd
      obtain ⟨hf, hrest⟩ := List.forall_mem_cons.mp h
      refine ih hrest _ fun k v hv ↦ ?_
      rw [Dict.get?_set] at hv
      split at hv
      · exact Option.some.inj hv ▸ hf
      · exact hd k v hv
  rw [Value.serialisable, Value.serialisableFields_iff]
  intro p hp
  obtain ⟨⟨k, v⟩, hkv, rfl⟩ := List.mem_map.mp hp
  exact hfold fields h .empty (fun _ _ h ↦ absurd h (by simp)) k v
    (Dict.mem_entries_iff _ |>.mp hkv)

/-- Everything that a value is made of was read by one of the scans before. -/
theorem yields_scanOnce (J : JsonLib) (depth : ℕ) :
    Yields (fun v ↦ v.serialisable = true) (scanOnce J depth) := by
  induction depth using Nat.strong_induction_on with
  | h depth ih =>
    intro s v s' h
    obtain ⟨c, t, rfl, ⟨u, -, rfl⟩ | ⟨d, xs, rfl, hxs, rfl⟩ | ⟨d, fields, rfl, hfields, rfl⟩ |
      hword⟩ := scanOnce_cases h
    · rfl
    · rw [Value.serialisable, Value.serialisableList_iff]
      exact yields_scanBody (ih d (Nat.lt_succ_self d)) 93 t xs s' hxs
    · exact serialisable_dictOf
        (yields_scanBody (yields_scanField (ih d (Nat.lt_succ_self d))) 125 t fields s' hfields)
    · exact yields_scanWord J _ v s' hword

/-- **What was read can be written.** -/
theorem serialisable_of_loads {J : JsonLib} {raw : Str} {v : Value} (h : loads J raw = .ok v) :
    v.serialisable = true := by
  rw [loads] at h
  split at h
  · simp at h
  · cases hscan : scanOnce J J.maxDepth (skipSpace raw) with
    | error e => simp [hscan] at h
    | ok p =>
      obtain ⟨x, s⟩ := p
      simp only [hscan] at h
      split at h
      · obtain rfl := Except.ok.inj h
        exact yields_scanOnce J _ _ x s hscan
      · simp at h

end GroupChat
