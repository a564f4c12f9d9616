import GroupChat.Py.Value

/-!
# `json.dumps`

The feed and every WebSocket frame leave the server as a JSON text.  `Value.dumps` is that text,
with the separators and the escapes of `json.dumps`; it is `none` where `json.dumps` raises, and
`Value.isSome_dumps` says that this happens exactly for the values that hold an upload.
-/

set_option autoImplicit false

namespace GroupChat

/-! ## Strings

`json.dumps` is called with `ensure_ascii=True`, so that a text has no characters beyond ASCII in
it, and a lone surrogate is an escape like any other. -/

/-- A hexadecimal digit. -/
def hexDigit (n : ℕ) : ℕ := if n < 10 then 48 + n else 87 + n

/-- The value of a hexadecimal digit. -/
def hexVal (c : ℕ) : Option ℕ :=
  if 48 ≤ c ∧ c ≤ 57 then some (c - 48)
  else if 65 ≤ c ∧ c ≤ 70 then some (c - 55)
  else if 97 ≤ c ∧ c ≤ 102 then some (c - 87)
  else none

/-- A UTF-16 code unit as an escape. -/
def escapeUnit (u : ℕ) : Str :=
  lit "\\u" ++ [u / 0x1000 % 16, u / 0x100 % 16, u / 0x10 % 16, u % 16].map hexDigit

/-- One character of a JSON string. -/
def escapeChar (c : ℕ) : Str :=
  if c = 34 then lit "\\\""
  else if c = 92 then lit "\\\\"
  else if c = 10 then lit "\\n"
  else if c = 13 then lit "\\r"
  else if c = 9 then lit "\\t"
  else if c = 12 then lit "\\f"
  else if c = 8 then lit "\\b"
  else if 32 ≤ c ∧ c < 127 then [c]
  else if c < 0x10000 then escapeUnit c
  -- a character outside the basic plane is written as a surrogate pair
  else escapeUnit (0xd800 + (c - 0x10000) / 0x400) ++ escapeUnit (0xdc00 + (c - 0x10000) % 0x400)

/-- A JSON string. -/
def quote (s : Str) : Str := lit "\"" ++ s.flatMap escapeChar ++ lit "\""

namespace Value

variable (L : PyLib)

/-- `json.dumps(x)`. -/
def dumps : Value → Option Str
  | none => some (lit "null")
  | bool b => some (if b then lit "true" else lit "false")
  | int n => some (intStr n)
  | float (.finite q) => some (L.reprFloat (.finite q))
  | float (.inf neg) => some (if neg then lit "-Infinity" else lit "Infinity")
  | float (.nan _) => some (lit "NaN")
  | str s => some (quote s)
  | list xs => (dumpsList xs).map fun ts ↦ lit "[" ++ (lit ", ").intercalate ts ++ lit "]"
  | dict fs => (dumpsFields fs).map fun ts ↦ lit "\x7b" ++ (lit ", ").intercalate ts ++ lit "\x7d"
  | file _ => .none
where
  /-- The texts of the elements of a list. -/
  dumpsList : List Value → Option (List Str)
    | [] => some []
    | x :: xs => x.dumps.bind fun t ↦ (dumpsList xs).map (t :: ·)
  /-- The texts of the fields of a dict. -/
  dumpsFields : List (String × Value) → Option (List Str)
    | [] => some []
    | (k, x) :: fs =>
      x.dumps.bind fun t ↦ (dumpsFields fs).map ((quote (lit k) ++ lit ": " ++ t) :: ·)

/-! ## What can be written

A list or a dictionary can be written if all that is in it can; the lemmas go through values,
lists and fields together, as the definitions do. -/

mutual

theorem isSome_dumpsList (xs : List Value) :
    (dumps.dumpsList L xs).isSome = serialisable.serialisableList xs := by
  cases xs with
  | nil => rfl
  | cons x xs =>
    have hx := isSome_dumps x
    have hxs := isSome_dumpsList xs
    rw [dumps.dumpsList, serialisable.serialisableList, ← hx, ← hxs]
    cases x.dumps L <;> simp

theorem isSome_dumpsFields (fs : List (String × Value)) :
    (dumps.dumpsFields L fs).isSome = serialisable.serialisableFields fs := by
  cases fs with
  | nil => rfl
  | cons f fs =>
    obtain ⟨k, x⟩ := f
    have hx := isSome_dumps x
    have hfs := isSome_dumpsFields fs
    rw [dumps.dumpsFields, serialisable.serialisableFields, ← hx, ← hfs]
    cases x.dumps L <;> simp

/-- **`json.dumps` raises exactly on the values that are not serialisable.** -/
theorem isSome_dumps (x : Value) : (x.dumps L).isSome = x.serialisable := by
  cases x with
  | none => rfl
  | bool b => rfl
  | int n => rfl
  | float x => cases x <;> rfl
  | str s => rfl
  | list xs => rw [dumps, Option.isSome_map, isSome_dumpsList, serialisable]
  | dict fs => rw [dumps, Option.isSome_map, isSome_dumpsFields, serialisable]
  | file o => rfl

end

theorem serialisableList_iff (xs : List Value) :
    serialisable.serialisableList xs = true ↔ ∀ x ∈ xs, x.serialisable = true := by
  induction xs with
  | nil => simp [serialisable.serialisableList]
  | cons x xs ih => simp [serialisable.serialisableList, ih]

theorem serialisableFields_iff (fs : List (String × Value)) :
    serialisable.serialisableFields fs = true ↔ ∀ p ∈ fs, p.2.serialisable = true := by
  induction fs with
  | nil => simp [serialisable.serialisableFields]
  | cons f fs ih =>
    obtain ⟨k, x⟩ := f
    simp [serialisable.serialisableFields, ih]

/-! ## Parts of a text

What is written of an element is found within the text of the list. -/

/-- What a list of texts is joined to contains each of them. -/
theorem infix_intercalate (sep : Str) {t : Str} :
    ∀ {ts : List Str}, t ∈ ts → t <:+: sep.intercalate ts := by
  intro ts
  induction ts with
  | nil => simp
  | cons u us ih =>
    intro h
    cases us with
    | nil => simp_all [List.intercalate]
    | cons v vs =>
      have hcons : sep.intercalate (u :: v :: vs) = u ++ sep ++ sep.intercalate (v :: vs) := by
        simp [List.intercalate, List.intersperse]
      rw [hcons]
      rcases List.mem_cons.mp h with rfl | h
      · exact ⟨[], sep ++ sep.intercalate (v :: vs), by simp⟩
      · exact (ih h).trans (List.suffix_append _ _).isInfix

theorem mem_dumpsList {xs : List Value} {x : Value} {ts : List Str} (hx : x ∈ xs)
    (h : dumps.dumpsList L xs = some ts) : ∃ t ∈ ts, x.dumps L = some t := by
  induction xs generalizing ts with
  | nil => simp at hx
  | cons y ys ih =>
    obtain ⟨t, ht, h⟩ := Option.bind_eq_some_iff.mp h
    obtain ⟨us, hus, rfl⟩ := Option.map_eq_some_iff.mp h
    rcases List.mem_cons.mp hx with rfl | hx
    · exact ⟨t, List.mem_cons_self, ht⟩
    · obtain ⟨t', ht', hd⟩ := ih hx hus
      exact ⟨t', List.mem_cons_of_mem _ ht', hd⟩

/-- The text of a list contains the texts of its elements. -/
theorem infix_dumps_list {xs : List Value} {x : Value} {b : Str} (hx : x ∈ xs)
    (h : (list xs).dumps L = some b) : ∃ t, x.dumps L = some t ∧ t <:+: b := by
  obtain ⟨ts, hts, rfl⟩ := Option.map_eq_some_iff.mp h
  obtain ⟨t, ht, hd⟩ := mem_dumpsList L hx hts
  have hin : t <:+: (lit ", ").intercalate ts := infix_intercalate _ ht
  exact ⟨t, hd, hin.trans ⟨lit "[", lit "]", rfl⟩⟩

end Value

example : (Value.dict [("id", .int 7), ("msg", .str [104, 105, 233])]).dumps asciiLib =
    some (lit "\x7b\"id\": 7, \"msg\": \"hi\\u00e9\"\x7d") := by decide

end GroupChat
