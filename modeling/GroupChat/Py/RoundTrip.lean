import Mathlib.Data.List.Chain
import GroupChat.Py.Loads
import GroupChat.Py.Utf8

/-!
# What was written is read back

`json.dumps` and `json.loads` are inverse to each other on most values, and this file says on which.
Three things are lost on the way, and one number is too long:

* two lone surrogates that stand one after the other in a string are put together (`Plain`);
* a float is what `float` makes of its `repr` (`FloatText`);
* an object has each of its keys once;
* `int` refuses the digits of an integer with more than 4300 of them.

`Value.Readable` collects these conditions, with the depth to which arrays and objects stand inside
each other.  `loads_dumps` is the round trip.

The scanner looks at the character after a number, so the lemma for each part of a value is about
its text followed by something that `Follows` a value.
-/

set_option autoImplicit false

namespace GroupChat

/-! ## Strings

`json.dumps` writes every character beyond ASCII as one `\u` escape, or as two of them if it needs
two UTF-16 units.  Reading goes in two stages, and so does the proof: first the units are read off
the text, and then pairs among them are put together. -/

/-- Two code points that are a surrogate pair when both are written as escapes. -/
def pairsUp (c d : ℕ) : Bool := 0xd800 ≤ c && c < 0xdc00 && 0xdc00 ≤ d && d < 0xe000

/-- A string of code points without two surrogates that pair up. -/
def Plain (s : Str) : Prop := CodePoints s ∧ s.IsChain fun c d ↦ pairsUp c d = false

/-- The escapes of a character, as they are scanned. -/
def escapedUnits (c : ℕ) : List (ℕ × Bool) :=
  if c < 0x10000 then
    [(c, !(decide (c ∈ [34, 92, 10, 13, 9, 12, 8]) || (32 ≤ c && c < 127)))]
  else [(0xd800 + (c - 0x10000) / 0x400, true), (0xdc00 + (c - 0x10000) % 0x400, true)]

theorem hexVal_hexDigit : ∀ n < 16, hexVal (hexDigit n) = some n := by decide

/-- A code unit is read off its escape. -/
theorem hexUnit_escapeUnit {u : ℕ} (hu : u < 0x10000) :
    hexUnit [hexDigit (u / 0x1000 % 16), hexDigit (u / 0x100 % 16), hexDigit (u / 0x10 % 16),
      hexDigit (u % 16)] = some u := by
  have hval : ∀ n, hexVal (hexDigit (n % 16)) = some (n % 16) :=
    fun n ↦ hexVal_hexDigit _ (Nat.mod_lt n (by decide))
  have hsum : 16 * (16 * (16 * (u / 0x1000 % 16) + u / 0x100 % 16) + u / 0x10 % 16) + u % 16 =
      u := by
    omega
  simpa [hexUnit, hval] using hsum

/-! ## The units of a string

One lemma for each way in which `json.dumps` writes a character: as itself, with a short escape,
as one unit or as two. -/

theorem scanUnits_close (s : Str) : scanUnits (34 :: s) = .ok ([], s) := by
  unfold scanUnits
  exact if_pos rfl

theorem scanUnits_char {c : ℕ} (hquote : c ≠ 34) (hescape : c ≠ 92) (hcontrol : ¬c < 32) (s : Str) :
    scanUnits (c :: s) = (scanUnits s).map fun p ↦ ((c, false) :: p.1, p.2) := by
  rw [scanUnits.eq_def]
  simp only [if_neg hquote, if_neg hescape, if_neg hcontrol]

theorem scanUnits_unescape {e u : ℕ} (he : unescape? e = some u) (hne : e ≠ 117) (s : Str) :
    scanUnits (92 :: e :: s) = (scanUnits s).map fun p ↦ ((u, false) :: p.1, p.2) := by
  rw [scanUnits.eq_def]
  simp [he, hne]

theorem scanUnits_escapeUnit {u : ℕ} (hu : u < 0x10000) (s : Str) :
    scanUnits (escapeUnit u ++ s) = (scanUnits s).map fun p ↦ ((u, true) :: p.1, p.2) := by
  have hescape : escapeUnit u ++ s = 92 :: 117 :: hexDigit (u / 0x1000 % 16) ::
      hexDigit (u / 0x100 % 16) :: hexDigit (u / 0x10 % 16) :: hexDigit (u % 16) :: s := rfl
  rw [hescape, scanUnits]
  simp [hexUnit_escapeUnit hu]

/-- The escapes of a character are read off its text. -/
theorem scanUnits_escapeChar {c : ℕ} (hc : c < 0x110000) (s : Str) :
    scanUnits (escapeChar c ++ s) =
      (scanUnits s).map fun p ↦ (escapedUnits c ++ p.1, p.2) := by
  have hshort : ∀ e u : ℕ, unescape? e = some u → e ≠ 117 → u ∈ [34, 92, 10, 13, 9, 12, 8] →
      scanUnits (92 :: e :: s) = (scanUnits s).map fun p ↦ (escapedUnits u ++ p.1, p.2) := by
    intro e u hu he hmem
    have hlt : u < 0x10000 := by
      simp only [List.mem_cons, List.not_mem_nil, or_false] at hmem
      omega
    rw [scanUnits_unescape hu he, escapedUnits, if_pos hlt, decide_eq_true hmem]
    rfl
  rw [escapeChar]
  split_ifs with h₁ h₂ h₃ h₄ h₅ h₆ h₇ h₈ h₉
  · subst h₁; exact hshort 34 34 rfl (by decide) (by decide)
  · subst h₂; exact hshort 92 92 rfl (by decide) (by decide)
  · subst h₃; exact hshort 110 10 rfl (by decide) (by decide)
  · subst h₄; exact hshort 114 13 rfl (by decide) (by decide)
  · subst h₅; exact hshort 116 9 rfl (by decide) (by decide)
  · subst h₆; exact hshort 102 12 rfl (by decide) (by decide)
  · subst h₇; exact hshort 98 8 rfl (by decide) (by decide)
  · rw [List.singleton_append, scanUnits_char h₁ h₂ (by omega), escapedUnits, if_pos (by omega)]
    simp [h₈]
  · rw [scanUnits_escapeUnit h₉, escapedUnits, if_pos h₉]
    have hplain : (32 ≤ c && c < 127) = false := by simpa using h₈
    simp [h₁, h₂, h₃, h₄, h₅, h₆, h₇, hplain]
  · rw [List.append_assoc, scanUnits_escapeUnit (by omega), scanUnits_escapeUnit (by omega),
      escapedUnits, if_neg h₉]
    cases scanUnits s <;> rfl

theorem scanUnits_flatMap_escapeChar {s : Str} (hs : CodePoints s) (rest : Str) :
    scanUnits (s.flatMap escapeChar ++ 34 :: rest) = .ok (s.flatMap escapedUnits, rest) := by
  induction s with
  | nil => exact scanUnits_close rest
  | cons c s ih =>
    rw [List.flatMap_cons, List.append_assoc, scanUnits_escapeChar (hs c List.mem_cons_self),
      ih fun d hd ↦ hs d (List.mem_cons_of_mem c hd), List.flatMap_cons]
    rfl

/-! ## Pairs of units

The scanner has marked the units that were escapes, and only such units are put together.  A text
is plain if no two of its own characters could be taken for the halves of one. -/

/-- A low surrogate is not put together with what follows it. -/
theorem joinUnit_low {v : ℕ} (hv : 0xdc00 ≤ v) (us : List (ℕ × Bool)) :
    joinUnit (v, true) us = (v, true) :: us := by
  cases us with
  | nil => rfl
  | cons w us =>
    rw [joinUnit, if_neg]
    simp only [isSurrogatePair, Bool.and_eq_true, decide_eq_true_eq]
    omega

theorem joinUnit_pair {u v : ℕ} (hu : 0xd800 ≤ u) (hu' : u < 0xdc00) (hv : 0xdc00 ≤ v)
    (hv' : v < 0xe000) (us : List (ℕ × Bool)) : joinUnit (u, true) ((v, true) :: us) =
      (0x10000 + (u - 0xd800) * 0x400 + (v - 0xdc00), false) :: us := by
  rw [joinUnit, if_pos]
  simp [isSurrogatePair, hu, hu', hv, hv']

/-- What the escapes of a string are put together to. -/
theorem foldr_joinUnit {s : Str} (hs : Plain s) :
    (s.flatMap escapedUnits).foldr joinUnit [] = s.map fun c ↦
      (c, decide (c < 0x10000) &&
        !(decide (c ∈ [34, 92, 10, 13, 9, 12, 8]) || (32 ≤ c && c < 127))) := by
  obtain ⟨hpoints, hchain⟩ := hs
  induction s with
  | nil => rfl
  | cons c s ih =>
    have hc := hpoints c List.mem_cons_self
    have hs := ih (fun d hd ↦ hpoints d (List.mem_cons_of_mem c hd)) hchain.tail
    rw [List.flatMap_cons, List.foldr_append, hs, List.map_cons, escapedUnits]
    split
    · rename_i hlt
      rw [List.foldr_cons, List.foldr_nil, decide_eq_true hlt, Bool.true_and]
      cases s with
      | nil => rfl
      | cons d s =>
        have hpair : pairsUp c d = false := (List.isChain_cons_cons.mp hchain).1
        rw [List.map_cons, joinUnit, if_neg]
        rw [isSurrogatePair]
        rw [pairsUp] at hpair
        simp only [Bool.and_eq_true]
        rintro ⟨⟨⟨⟨-, h₁⟩, h₂⟩, h₃⟩, h₄⟩
        simp [h₁, h₂, h₃, h₄] at hpair
    · rename_i hge
      -- the low surrogate does not pair up with what follows, and the high one with it
      have hchar : 0x10000 + (0xd800 + (c - 0x10000) / 0x400 - 0xd800) * 0x400 +
          (0xdc00 + (c - 0x10000) % 0x400 - 0xdc00) = c := by omega
      rw [List.foldr_cons, List.foldr_cons, List.foldr_nil,
        joinUnit_low (v := 0xdc00 + (c - 0x10000) % 0x400) (by omega),
        joinUnit_pair (by omega) (by omega) (by omega) (by omega), decide_eq_false hge,
        Bool.false_and, hchar]

/-- **A string is read back.** -/
theorem scanString_quote {s : Str} (hs : Plain s) (rest : Str) :
    scanString (s.flatMap escapeChar ++ 34 :: rest) = .ok (s, rest) := by
  rw [scanString, scanUnits_flatMap_escapeChar hs.1]
  show Except.ok (((s.flatMap escapedUnits).foldr joinUnit []).map Prod.fst, rest) = _
  rw [foldr_joinUnit hs, List.map_map]
  congr 2
  exact List.map_id s

/-! ## Numbers

A number ends where a character comes that cannot go on with it.  The lemmas about its parts
therefore have a rest, and a hypothesis on the first character of the rest, which `Follows`
supplies in the end. -/

/-- What can stand after a value: nothing, a comma or a closing bracket. -/
def Follows (s : Str) : Prop := ∀ c ∈ s.head?, c = 44 ∨ c = 93 ∨ c = 125

/-- The digits of an integer, without a leading zero. -/
def IsInteger (s : Str) : Prop :=
  s = [48] ∨ s ≠ [] ∧ (∀ c ∈ s, isDigit c = true) ∧ s.head? ≠ some 48

/-- The parts of a number. -/
structure NumberText (sign digits fraction exponent : Str) : Prop where
  sign : sign = [] ∨ sign = [45]
  digits : IsInteger digits
  fraction : fraction = [] ∨ ∃ ds, ds ≠ [] ∧ (∀ c ∈ ds, isDigit c = true) ∧ fraction = 46 :: ds
  exponent : exponent = [] ∨ ∃ e s ds, (e = 101 ∨ e = 69) ∧ (s = [] ∨ s = [43] ∨ s = [45]) ∧
    ds ≠ [] ∧ (∀ c ∈ ds, isDigit c = true) ∧ exponent = e :: s ++ ds

/-- The text does not start with one of the characters. -/
def StartsWithout (cs : Str) (s : Str) : Prop := ∀ c ∈ s.head?, c ∉ cs

/-- The text does not start with a digit. -/
def NoDigit (s : Str) : Prop := ∀ c ∈ s.head?, isDigit c = false

theorem Follows.noDigit {s : Str} (h : Follows s) : NoDigit s := by
  intro c hc
  rcases h c hc with rfl | rfl | rfl <;> decide

theorem Follows.startsWithout {cs s : Str} (h : Follows s)
    (hcs : 44 ∉ cs ∧ 93 ∉ cs ∧ 125 ∉ cs) : StartsWithout cs s := by
  intro c hc
  rcases h c hc with rfl | rfl | rfl
  · exact hcs.1
  · exact hcs.2.1
  · exact hcs.2.2

/-! ## The parts of a number

Sign, digits, decimal places and exponent are taken one after the other.  Each of them ends where
the next one begins, or where something begins that is no part of a number. -/

/-- Digits are taken up to the first character that is none. -/
theorem span_digits {ds s : Str} (hds : ∀ c ∈ ds, isDigit c = true) (hs : NoDigit s) :
    (ds ++ s).takeWhile isDigit = ds ∧ (ds ++ s).dropWhile isDigit = s := by
  rw [List.takeWhile_append_of_pos hds, List.dropWhile_append_of_pos hds]
  cases s with
  | nil => simp
  | cons c s =>
    have hc : isDigit c = false := hs c rfl
    simp [hc]

theorem scanSign_append {signs sign s : Str} (hs : StartsWithout signs s)
    (hsign : sign = [] ∨ ∃ c ∈ signs, sign = [c]) : scanSign signs (sign ++ s) = (sign, s) := by
  rcases hsign with rfl | ⟨c, hc, rfl⟩
  · cases s with
    | nil => rfl
    | cons d s => exact if_neg (hs d rfl)
  · exact if_pos hc

theorem scanInteger_append {digits s : Str} (h : IsInteger digits) (hs : NoDigit s) :
    scanInteger (digits ++ s) = (digits, s) := by
  rcases h with rfl | ⟨hne, hds, hzero⟩
  · rfl
  · obtain ⟨c, ds, rfl⟩ := List.exists_cons_of_ne_nil hne
    obtain ⟨htake, hdrop⟩ := span_digits hds hs
    have hc : c ≠ 48 := fun hc ↦ hzero (congrArg some hc)
    rw [List.cons_append] at htake hdrop ⊢
    rw [scanInteger, if_neg hc, htake, hdrop]

theorem scanFraction_append {fraction s : Str} (h : fraction = [] ∨
      ∃ ds, ds ≠ [] ∧ (∀ c ∈ ds, isDigit c = true) ∧ fraction = 46 :: ds)
    (hdot : StartsWithout [46] s) (hs : NoDigit s) :
    scanFraction (fraction ++ s) = (fraction, s) := by
  rcases h with rfl | ⟨ds, hne, hds, rfl⟩
  · cases s with
    | nil => rfl
    | cons c s =>
      have hc : c ≠ 46 := fun hc ↦ hdot c rfl (by simp [hc])
      exact if_neg fun h ↦ hc h.1
  · obtain ⟨htake, hdrop⟩ := span_digits hds hs
    rw [List.cons_append, scanFraction, htake, hdrop, if_pos ⟨rfl, hne⟩]

theorem scanExponent_append {exponent s : Str} (h : exponent = [] ∨
      ∃ e sign ds, (e = 101 ∨ e = 69) ∧ (sign = [] ∨ sign = [43] ∨ sign = [45]) ∧
        ds ≠ [] ∧ (∀ c ∈ ds, isDigit c = true) ∧ exponent = e :: sign ++ ds)
    (he : StartsWithout [101, 69] s) (hs : NoDigit s) :
    scanExponent (exponent ++ s) = (exponent, s) := by
  rcases h with rfl | ⟨e, sign, ds, he', hsign, hne, hds, rfl⟩
  · cases s with
    | nil => rfl
    | cons c s =>
      have hc : ¬(c = 101 ∨ c = 69) := fun hc ↦ he c rfl (by simpa using hc)
      exact if_neg fun h ↦ hc h.1
  · obtain ⟨htake, hdrop⟩ := span_digits hds hs
    have hstart : StartsWithout [43, 45] (ds ++ s) := by
      obtain ⟨d, ds, rfl⟩ := List.exists_cons_of_ne_nil hne
      intro c hc
      obtain rfl := Option.some.inj hc
      have hd := hds d List.mem_cons_self
      rintro hmem
      simp only [List.mem_cons, List.not_mem_nil, or_false] at hmem
      rcases hmem with rfl | rfl <;> exact absurd hd (by decide)
    have hsign' : scanSign [43, 45] (sign ++ (ds ++ s)) = (sign, ds ++ s) := by
      refine scanSign_append hstart ?_
      rcases hsign with rfl | rfl | rfl
      · exact Or.inl rfl
      · exact Or.inr ⟨43, by simp, rfl⟩
      · exact Or.inr ⟨45, by simp, rfl⟩
    have hassoc : e :: sign ++ ds ++ s = e :: (sign ++ (ds ++ s)) := by simp
    rw [hassoc, scanExponent, hsign']
    simp only [htake, hdrop]
    rw [if_pos ⟨he', hne⟩]

/-- **A number is read as its parts.** -/
theorem scanNumber_append (J : JsonLib) {sign digits fraction exponent rest : Str}
    (h : NumberText sign digits fraction exponent) (hrest : Follows rest) :
    scanNumber J (sign ++ digits ++ fraction ++ exponent ++ rest) =
      if fraction = [] ∧ exponent = [] then
        if digits.length ≤ maxIntDigits then .ok (.int (signedInt sign digits), rest)
        else .error .valueError
      else .ok (.float (J.parseFloat (sign ++ digits ++ fraction ++ exponent)), rest) := by
  have hne : digits ≠ [] := by
    rcases h.digits with rfl | ⟨hne, -⟩
    · simp
    · exact hne
  have hexponent : StartsWithout [46] (exponent ++ rest) ∧ NoDigit (exponent ++ rest) := by
    rcases h.exponent with rfl | ⟨e, s, ds, he, -, -, -, rfl⟩
    · exact ⟨hrest.startsWithout (by decide), hrest.noDigit⟩
    · refine ⟨fun c hc ↦ ?_, fun c hc ↦ ?_⟩ <;> obtain rfl := Option.some.inj hc <;>
        rcases he with rfl | rfl <;> decide
  have hfraction : NoDigit (fraction ++ (exponent ++ rest)) := by
    rcases h.fraction with rfl | ⟨ds, -, -, rfl⟩
    · exact hexponent.2
    · intro c hc
      obtain rfl := Option.some.inj hc
      decide
  have hdigits : StartsWithout [45] (digits ++ (fraction ++ (exponent ++ rest))) := by
    rcases h.digits with rfl | ⟨hne, hds, -⟩
    · intro c hc
      obtain rfl := Option.some.inj hc
      decide
    · obtain ⟨d, ds, rfl⟩ := List.exists_cons_of_ne_nil hne
      intro c hc hmem
      obtain rfl := Option.some.inj hc
      rw [List.mem_singleton.mp hmem] at hds
      exact absurd (hds 45 List.mem_cons_self) (by decide)
  have hsign : sign = [] ∨ ∃ c ∈ [45], sign = [c] := h.sign.imp_right fun h ↦ ⟨45, by simp, h⟩
  have hassoc : sign ++ digits ++ fraction ++ exponent ++ rest =
      sign ++ (digits ++ (fraction ++ (exponent ++ rest))) := by simp
  rw [hassoc, scanNumber, scanSign_append hdigits hsign]
  simp only [scanInteger_append h.digits hfraction]
  rw [scanFraction_append h.fraction hexponent.1 hexponent.2]
  simp only
  rw [scanExponent_append h.exponent (hrest.startsWithout (by decide)) hrest.noDigit]
  simp only [if_neg hne]

/-! ## Words

`null`, `true`, `NaN` and so on are recognised by their beginning, before a number is tried.  No
number starts as one of them does, except that `-Infinity` has the sign of a number. -/

/-- The first character of a text that is a number. -/
theorem NumberText.head {sign digits fraction exponent : Str}
    (h : NumberText sign digits fraction exponent) (rest : Str) :
    ∃ c s, sign ++ digits ++ fraction ++ exponent ++ rest = c :: s ∧
      (isDigit c = true ∨ c = 45 ∧ ∀ d ∈ s.head?, isDigit d = true) := by
  have hdigits : ∃ d ds, digits = d :: ds ∧ isDigit d = true := by
    rcases h.digits with rfl | ⟨hne, hds, -⟩
    · exact ⟨48, [], rfl, by decide⟩
    · obtain ⟨d, ds, rfl⟩ := List.exists_cons_of_ne_nil hne
      exact ⟨d, ds, rfl, hds d List.mem_cons_self⟩
  obtain ⟨d, ds, rfl, hd⟩ := hdigits
  rcases h.sign with rfl | rfl
  · exact ⟨d, _, rfl, Or.inl hd⟩
  · refine ⟨45, _, rfl, Or.inr ⟨rfl, fun c hc ↦ ?_⟩⟩
    obtain rfl := Option.some.inj hc
    exact hd

/-- A word does not start as a number does. -/
theorem constants_head {p : Str × Value} (hp : p ∈ constants) :
    (∃ c s, p.1 = c :: s ∧ isDigit c = false ∧ c ≠ 45) ∨ ∃ s, p.1 = 45 :: 73 :: s := by
  simp only [constants, List.mem_cons, List.not_mem_nil, or_false] at hp
  rcases hp with rfl | rfl | rfl | rfl | rfl | rfl
  · exact Or.inl ⟨110, _, rfl, by decide, by decide⟩
  · exact Or.inl ⟨116, _, rfl, by decide, by decide⟩
  · exact Or.inl ⟨102, _, rfl, by decide, by decide⟩
  · exact Or.inl ⟨78, _, rfl, by decide, by decide⟩
  · exact Or.inl ⟨73, _, rfl, by decide, by decide⟩
  · exact Or.inr ⟨_, rfl⟩

/-- A number is not a word. -/
theorem scanConstant_eq_none {c : ℕ} {s : Str}
    (h : isDigit c = true ∨ c = 45 ∧ ∀ d ∈ s.head?, isDigit d = true) :
    scanConstant (c :: s) = none := by
  rw [scanConstant, List.findSome?_eq_none_iff]
  intro p hp
  rw [if_neg]
  intro hword
  have hword : p.1 <+: c :: s := List.isPrefixOf_iff_prefix.mp hword
  rcases constants_head hp with ⟨d, t, hd, hdigit, hsign⟩ | ⟨t, ht⟩
  · rw [hd, List.cons_prefix_cons] at hword
    obtain ⟨rfl, -⟩ := hword
    rcases h with h | ⟨h, -⟩
    · rw [hdigit] at h
      cases h
    · exact hsign h
  · rw [ht, List.cons_prefix_cons] at hword
    obtain ⟨rfl, u, rfl⟩ := hword
    rcases h with h | ⟨-, h⟩
    · exact absurd h (by decide)
    · exact absurd (h 73 rfl) (by decide)

theorem scanConstant_append {p : Str × Value} (hp : p ∈ constants) (rest : Str) :
    scanConstant (p.1 ++ rest) = some (p.2, rest) := by
  simp only [constants, List.mem_cons, List.not_mem_nil, or_false] at hp
  rcases hp with rfl | rfl | rfl | rfl | rfl | rfl <;> rfl

/-! ## Integers

The digits of an integer are written by repeated division, and read by multiplication and addition
from the left. -/

/-- The decimal digits of a number. -/
def decimal (m : ℕ) : Str := (Nat.toDigits 10 m).map Char.toNat

theorem intStr_ofNat (m : ℕ) : intStr (.ofNat m) = decimal m := by
  show (Nat.repr m).toList.map Char.toNat = _
  rw [Nat.toList_repr, decimal]

theorem intStr_negSucc (m : ℕ) : intStr (.negSucc m) = 45 :: decimal (m + 1) := by
  show ("-" ++ Nat.repr (m + 1)).toList.map Char.toNat = _
  rw [String.toList_append, List.map_append, Nat.toList_repr, decimal]
  rfl

/-- The first digit of a number above zero is not a zero. -/
theorem head?_decimal {m : ℕ} (hm : m ≠ 0) : (decimal m).head? ≠ some 48 := by
  induction m using Nat.strong_induction_on with
  | h m ih =>
    rw [decimal, Nat.toDigits_eq_if (by decide)]
    split
    · rename_i hlt
      have hdigits : ∀ m < 10, m ≠ 0 → (Nat.digitChar m).toNat ≠ 48 := by decide
      simpa using hdigits m hlt hm
    · rename_i hge
      have hhead := ih (m / 10) (by omega) (by omega)
      rw [decimal] at hhead
      rw [List.map_append, List.head?_append_of_ne_nil]
      · exact hhead
      · simp

theorem isInteger_decimal (m : ℕ) : IsInteger (decimal m) := by
  by_cases hm : m = 0
  · subst hm
    exact Or.inl rfl
  · refine Or.inr ⟨?_, fun c hc ↦ ?_, head?_decimal hm⟩
    · simp [decimal]
    · obtain ⟨x, hx, rfl⟩ := List.mem_map.mp hc
      have hdigit := Nat.isDigit_of_mem_toDigits (by decide) (by decide) hx
      simpa [Char.isDigit, UInt32.le_iff_toNat_le, isDigit] using hdigit

theorem signedInt_eq (sign digits : Str) : signedInt sign digits =
    if sign = [] then digits.foldl (fun (n : ℤ) (c : ℕ) ↦ 10 * n + (c - 48 : ℤ)) 0
    else -digits.foldl (fun (n : ℤ) (c : ℕ) ↦ 10 * n + (c - 48 : ℤ)) 0 := by
  have hcast : (digits >>= fun c ↦ pure (c : ℤ)) = digits.map (Nat.cast : ℕ → ℤ) :=
    bind_pure_comp _ _
  have hfold : (digits.map (Nat.cast : ℕ → ℤ)).foldl (fun n c ↦ 10 * n + (c - 48 : ℤ)) 0 =
      digits.foldl (fun (n : ℤ) (c : ℕ) ↦ 10 * n + (c - 48 : ℤ)) 0 := List.foldl_map
  rw [signedInt, hcast, hfold]

/-- The digits are read as the number. -/
theorem foldl_decimal (m : ℕ) :
    (decimal m).foldl (fun (n : ℤ) (c : ℕ) ↦ 10 * n + (c - 48 : ℤ)) 0 = m := by
  have hfold : ∀ (cs : List Char) (n : ℕ), (∀ x ∈ cs, x.isDigit = true) →
      (cs.map Char.toNat).foldl (fun (n : ℤ) (c : ℕ) ↦ 10 * n + (c - 48 : ℤ)) n =
        (Nat.ofDigitChars 10 cs n : ℕ) := by
    intro cs
    induction cs with
    | nil => exact fun n _ ↦ by simp
    | cons x cs ih =>
      intro n hdigits
      have hx : 48 ≤ x.toNat := by
        have hx := hdigits x List.mem_cons_self
        simp only [Char.isDigit, UInt32.le_iff_toNat_le, Bool.and_eq_true, decide_eq_true_eq] at hx
        exact hx.1
      rw [List.map_cons, List.foldl_cons, Nat.ofDigitChars_cons,
        ← ih _ fun y hy ↦ hdigits y (List.mem_cons_of_mem x hy)]
      congr 1
      push_cast [hx]
      rfl
  have hall : ∀ x ∈ Nat.toDigits 10 m, x.isDigit = true := fun x hx ↦
    Nat.isDigit_of_mem_toDigits (by decide) (by decide) hx
  have h := hfold (Nat.toDigits 10 m) 0 hall
  rw [Nat.ofDigitChars_ten_toDigits] at h
  exact_mod_cast h

/-- **An integer is read back**, if `int` takes that many digits. -/
theorem scanNumber_intStr (J : JsonLib) {n : ℤ} (hn : n.natAbs < 10 ^ maxIntDigits) {rest : Str}
    (hrest : Follows rest) : scanNumber J (intStr n ++ rest) = .ok (.int n, rest) := by
  have hlength : ∀ m < 10 ^ maxIntDigits, (decimal m).length ≤ maxIntDigits := fun m hm ↦ by
    rw [decimal, List.length_map]
    exact (Nat.length_toDigits_le_iff (by decide) (by decide)).mpr hm
  cases n with
  | ofNat m =>
    have h := scanNumber_append J ⟨Or.inl rfl, isInteger_decimal m, Or.inl rfl, Or.inl rfl⟩ hrest
    rw [if_pos ⟨rfl, rfl⟩, if_pos (hlength m hn), signedInt_eq, if_pos rfl,
      foldl_decimal] at h
    rw [intStr_ofNat]
    simpa using h
  | negSucc m =>
    have h := scanNumber_append J
      ⟨Or.inr rfl, isInteger_decimal (m + 1), Or.inl rfl, Or.inl rfl⟩ hrest
    rw [if_pos ⟨rfl, rfl⟩, if_pos (hlength (m + 1) hn), signedInt_eq, if_neg (by simp),
      foldl_decimal] at h
    rw [intStr_negSucc]
    simpa [Int.negSucc_eq] using h

/-! ## Readable values

The predicate is inductive, with a depth that goes down at every list and dictionary.  A value of
a smaller depth is readable at every larger one. -/

/-- The text of a float is a number with decimal places or an exponent, and is read as the float. -/
def FloatText (J : JsonLib) (t : Str) (x : PyFloat) : Prop :=
  ∃ sign digits fraction exponent, NumberText sign digits fraction exponent ∧
    ¬(fraction = [] ∧ exponent = []) ∧ t = sign ++ digits ++ fraction ++ exponent ∧
      J.parseFloat t = x

/-- The values that come back, with arrays and objects down to a depth. -/
inductive Value.Readable (L : PyLib) (J : JsonLib) : ℕ → Value → Prop
  | none (d : ℕ) : Readable L J d .none
  | bool (d : ℕ) (b : Bool) : Readable L J d (.bool b)
  | int (d : ℕ) {n : ℤ} (h : n.natAbs < 10 ^ maxIntDigits) : Readable L J d (.int n)
  | finite (d : ℕ) {q : ℚ} (h : FloatText J (L.reprFloat (.finite q)) (.finite q)) :
    Readable L J d (.float (.finite q))
  | inf (d : ℕ) (neg : Bool) : Readable L J d (.float (.inf neg))
  | nan (d : ℕ) : Readable L J d (.float (.nan 0))
  | str (d : ℕ) {s : Str} (h : Plain s) : Readable L J d (.str s)
  | list (d : ℕ) {xs : List Value} (h : ∀ x ∈ xs, Readable L J d x) :
      Readable L J (d + 1) (.list xs)
  | dict (d : ℕ) {fs : Obj} (h : ∀ p ∈ fs, Readable L J d p.2) (hkeys : (fs.map Prod.fst).Nodup) :
    Readable L J (d + 1) (.dict fs)

/-- A deeper stack reads what a shallower one does. -/
theorem Value.Readable.mono {L : PyLib} {J : JsonLib} {d d' : ℕ} {v : Value}
    (h : v.Readable L J d) (hle : d ≤ d') : v.Readable L J d' := by
  induction h generalizing d' with
  | none d => exact .none d'
  | bool d b => exact .bool d' b
  | int d h => exact .int d' h
  | finite d h => exact .finite d' h
  | inf d neg => exact .inf d' neg
  | nan d => exact .nan d'
  | str d h => exact .str d' h
  | list d h ih =>
    cases d' with
    | zero => exact absurd hle (Nat.not_succ_le_zero d)
    | succ d' => exact .list d' fun x hx ↦ ih x hx (Nat.le_of_succ_le_succ hle)
  | dict d h hkeys ih =>
    cases d' with
    | zero => exact absurd hle (Nat.not_succ_le_zero d)
    | succ d' => exact .dict d' (fun p hp ↦ ih p hp (Nat.le_of_succ_le_succ hle)) hkeys

theorem Value.Readable.serialisable {L : PyLib} {J : JsonLib} {d : ℕ} {v : Value}
    (h : v.Readable L J d) : v.serialisable = true := by
  induction h with
  | list d h ih => exact (Value.serialisableList_iff _).mpr ih
  | dict d h hkeys ih => exact (Value.serialisableFields_iff _).mpr ih
  | _ => rfl

theorem plain_lit (k : String) : Plain (lit k) := by
  have hvalid : ∀ x : Char, ¬(0xd800 ≤ x.toNat ∧ x.toNat < 0xe000) := by
    intro x hx
    have hvalid := x.valid
    rcases hvalid with h | ⟨h, -⟩
    · exact absurd hx.1 (Nat.not_le.mpr h)
    · exact absurd hx.2 (Nat.not_lt.mpr h)
  refine ⟨codePoints_lit k, List.Pairwise.isChain (List.pairwise_map.mpr ?_)⟩
  refine List.pairwise_of_forall fun x y ↦ ?_
  have hx := hvalid x
  rw [pairsUp]
  simp only [Bool.and_eq_false_iff, decide_eq_false_iff_not]
  omega

/-! ## Arrays and objects

`", "` stands between two items, and a scan of an item stops in front of it.  So the loop of the
scanner is followed item by item, with `Reads` saying of each that it is read from its text
whatever comes after it. -/

/-- A text that starts with something other than white space, a closing bracket or a byte order
mark. -/
def Begins (t : Str) : Prop := ∃ c s, t = c :: s ∧ c ∉ [9, 10, 13, 32, 93, 125, 0xfeff]

theorem Begins.skipSpace {t : Str} (h : Begins t) (rest : Str) :
    skipSpace (t ++ rest) = t ++ rest := by
  obtain ⟨c, s, rfl, hc⟩ := h
  simp only [List.mem_cons, List.not_mem_nil, or_false, not_or] at hc
  rw [List.cons_append, GroupChat.skipSpace, List.dropWhile_cons_of_neg]
  simp [hc]

theorem Begins.head? {t : Str} (h : Begins t) {close : ℕ} (hclose : close = 93 ∨ close = 125)
    (rest : Str) : (t ++ rest).head? ≠ some close := by
  obtain ⟨c, s, rfl, hc⟩ := h
  rw [List.cons_append, List.head?_cons]
  rintro ⟨⟩
  rcases hclose with rfl | rfl <;> exact hc (by simp)

theorem Begins.of_number {sign digits fraction exponent : Str}
    (h : NumberText sign digits fraction exponent) :
    Begins (sign ++ digits ++ fraction ++ exponent) := by
  obtain ⟨c, s, hcs, hc⟩ := h.head []
  rw [List.append_nil] at hcs
  refine ⟨c, s, hcs, fun hmem ↦ ?_⟩
  have hspace : ∀ c ∈ [9, 10, 13, 32, 93, 125, 0xfeff], isDigit c = false ∧ c ≠ 45 := by decide
  obtain ⟨hdigit, hsign⟩ := hspace c hmem
  rcases hc with hc | ⟨hc, -⟩
  · rw [hdigit] at hc
    cases hc
  · exact hsign hc

/-- A text is what an item is read from, whatever follows. -/
structure Reads {α : Type} (item : Scan α) (x : α) (t : Str) : Prop where
  begins : Begins t
  read : ∀ rest, Follows rest → item (t ++ rest) = .ok (x, rest)

theorem ne_nil_of_reads {α : Type} {item : Scan α} {xs : List α} {ts : List Str}
    (h : List.Forall₂ (Reads item) xs ts) : ∀ t ∈ ts, t ≠ [] := by
  induction h with
  | nil => simp
  | cons hx hxs ih =>
    obtain ⟨c, s, rfl, -⟩ := hx.begins
    exact List.forall_mem_cons.mpr ⟨List.cons_ne_nil c s, ih⟩

/-! ## Items with separators

The texts of the items are joined by `", "`, while the scanner takes a comma and then any white
space. -/

theorem exists_intercalate_cons (sep t : Str) (ts : List Str) :
    ∃ w, sep.intercalate (t :: ts) = t ++ w := by
  cases ts with
  | nil => exact ⟨[], by simp⟩
  | cons u us => exact ⟨sep ++ sep.intercalate (u :: us), by simp [List.intercalate_cons_cons]⟩

theorem length_le_intercalate (sep : Str) {ts : List Str} (h : ∀ t ∈ ts, t ≠ []) :
    ts.length ≤ (sep.intercalate ts).length := by
  induction ts with
  | nil => exact Nat.zero_le _
  | cons t ts ih =>
    have ht := List.length_pos_iff.mpr (h t List.mem_cons_self)
    have hts := ih fun u hu ↦ h u (List.mem_cons_of_mem t hu)
    cases ts with
    | nil =>
      rw [List.intercalate_singleton]
      exact ht
    | cons u us =>
      rw [List.intercalate_cons_cons, List.length_append, List.length_append, List.length_cons]
      omega

section Items

variable {α : Type} {item : Scan α} {close : ℕ} (hclose : close = 93 ∨ close = 125)

include hclose

theorem follows_close (rest : Str) : Follows (close :: rest) := by
  intro c hc
  obtain rfl := Option.some.inj hc
  exact Or.inr hclose

/-! ## The loop over the items

The loop reads an item, finds a comma or the closing character, and goes on or stops; its bound is
the number of characters that are left. -/

theorem scanItems_intercalate {xs : List α} {ts : List Str} (h : List.Forall₂ (Reads item) xs ts)
    (hne : xs ≠ []) {fuel : ℕ} (hfuel : ts.length ≤ fuel) (rest : Str) :
    scanItems item close fuel ((lit ", ").intercalate ts ++ close :: rest) = .ok (xs, rest) := by
  have hspace : skipSpace (close :: rest) = close :: rest := by
    rw [skipSpace, List.dropWhile_cons_of_neg]
    rcases hclose with rfl | rfl <;> decide
  have hcomma : close ≠ 44 := by rcases hclose with rfl | rfl <;> decide
  induction h generalizing fuel with
  | nil => exact absurd rfl hne
  | @cons x t xs ts hx hxs ih =>
    obtain ⟨fuel, rfl⟩ := Nat.exists_eq_succ_of_ne_zero (Nat.ne_zero_of_lt hfuel)
    cases hxs with
    | nil =>
      rw [List.intercalate_singleton, scanItems, hx.read _ (follows_close hclose rest)]
      simp only [hspace, List.head?_cons, if_true, List.tail_cons]
    | @cons y u ys us hy hys =>
      have hmore : (lit ", ").intercalate (t :: u :: us) ++ close :: rest =
          t ++ 44 :: 32 :: ((lit ", ").intercalate (u :: us) ++ close :: rest) := by
        rw [List.intercalate_cons_cons]
        simp [lit]
      have hfollows :
          Follows (44 :: 32 :: ((lit ", ").intercalate (u :: us) ++ close :: rest)) := by
        intro c hc
        exact Or.inl (Option.some.inj hc).symm
      have hbegins : skipSpace (32 :: ((lit ", ").intercalate (u :: us) ++ close :: rest)) =
          (lit ", ").intercalate (u :: us) ++ close :: rest := by
        obtain ⟨w, hw⟩ := exists_intercalate_cons (lit ", ") u us
        rw [hw, List.append_assoc]
        exact hy.begins.skipSpace _
      rw [hmore, scanItems, hx.read _ hfollows]
      have hskip : skipSpace (44 :: 32 :: ((lit ", ").intercalate (u :: us) ++ close :: rest)) =
          44 :: 32 :: ((lit ", ").intercalate (u :: us) ++ close :: rest) := rfl
      simp only [hskip, List.head?_cons, Option.some.injEq, hcomma.symm, if_false, if_true,
        List.tail_cons, hbegins]
      rw [ih (by simp) (Nat.le_of_succ_le_succ hfuel)]
      rfl

theorem scanBody_intercalate {xs : List α} {ts : List Str} (h : List.Forall₂ (Reads item) xs ts)
    (rest : Str) :
    scanBody item close ((lit ", ").intercalate ts ++ close :: rest) = .ok (xs, rest) := by
  cases h with
  | nil =>
    have hspace : skipSpace (close :: rest) = close :: rest := by
      rw [skipSpace, List.dropWhile_cons_of_neg]
      rcases hclose with rfl | rfl <;> decide
    rw [List.intercalate_nil, List.nil_append, scanBody, hspace]
    exact if_pos rfl
  | @cons x t xs ts hx hxs =>
    have hall : List.Forall₂ (Reads item) (x :: xs) (t :: ts) := .cons hx hxs
    have hlength := length_le_intercalate (lit ", ") (ne_nil_of_reads hall)
    obtain ⟨w, hw⟩ := exists_intercalate_cons (lit ", ") t ts
    have hspace : skipSpace ((lit ", ").intercalate (t :: ts) ++ close :: rest) =
        (lit ", ").intercalate (t :: ts) ++ close :: rest := by
      rw [hw, List.append_assoc]
      exact hx.begins.skipSpace _
    have hhead : ((lit ", ").intercalate (t :: ts) ++ close :: rest).head? ≠ some close := by
      rw [hw, List.append_assoc]
      exact hx.begins.head? hclose _
    rw [scanBody, hspace]
    rw [if_neg hhead]
    refine scanItems_intercalate hclose hall (List.cons_ne_nil x xs) ?_ rest
    rw [List.length_append]
    omega

end Items

/-- A field is read from its text. -/
theorem Reads.field {value : Scan Value} {k : String} {v : Value} {t : Str}
    (h : Reads value v t) :
    Reads (scanField value) (lit k, v) (quote (lit k) ++ lit ": " ++ t) := by
  have htext : ∀ rest : Str, quote (lit k) ++ lit ": " ++ t ++ rest =
      34 :: ((lit k).flatMap escapeChar ++ 34 :: 58 :: 32 :: (t ++ rest)) := fun rest ↦ by
    simp [quote, lit]
  refine ⟨⟨34, _, by simpa using htext [], by decide⟩, fun rest hrest ↦ ?_⟩
  have hcolon : skipSpace (58 :: 32 :: (t ++ rest)) = 58 :: 32 :: (t ++ rest) := rfl
  have hspace : skipSpace (32 :: (t ++ rest)) = t ++ rest := h.begins.skipSpace rest
  rw [htext, scanField, List.head?_cons, if_pos rfl, List.tail_cons, scanString_quote (plain_lit k)]
  simp only [hcolon, List.head?_cons, if_true, List.tail_cons, hspace, h.read rest hrest]
  rfl

/-- Fields with distinct keys are the fields of the object. -/
theorem dictOf_lit {fs : Obj} (hkeys : (fs.map Prod.fst).Nodup) :
    dictOf (fs.map fun p ↦ (lit p.1, p.2)) = fs := by
  have hchars : ∀ k : String, String.ofList ((lit k).map Char.ofNat) = k := fun k ↦ by
    rw [lit, List.map_map]
    have hid : (Char.ofNat ∘ Char.toNat) = id := funext fun x ↦ Char.ofNat_toNat x
    rw [hid, List.map_id, String.ofList_toList]
  have hfold : ∀ (fs : Obj) (d : Dict Str Value), (fs.map Prod.fst).Nodup →
      (∀ p ∈ fs, lit p.1 ∉ d.keys) →
      ((fs.map fun p ↦ (lit p.1, p.2)).foldl (fun d p ↦ d.set p.1 p.2) d).entries =
        d.entries ++ fs.map fun p ↦ (lit p.1, p.2) := by
    intro fs
    induction fs with
    | nil => exact fun d _ _ ↦ by simp
    | cons p fs ih =>
      intro d hnodup hnew
      obtain ⟨hp, hnodup⟩ := List.nodup_cons.mp hnodup
      obtain ⟨hpd, hnew⟩ := List.forall_mem_cons.mp hnew
      have hset : (d.set (lit p.1) p.2).entries = d.entries ++ [(lit p.1, p.2)] := by
        rw [Dict.set, dif_neg hpd]
      rw [List.map_cons, List.foldl_cons, ih _ hnodup, hset]
      · simp
      · intro q hq hmem
        rw [Dict.keys, hset, List.map_append] at hmem
        rcases List.mem_append.mp hmem with hmem | hmem
        · exact hnew q hq hmem
        · obtain h := List.mem_singleton.mp hmem
          exact hp (List.mem_map.mpr ⟨q, hq, lit_injective h⟩)
  rw [dictOf, hfold fs .empty hkeys (by simp)]
  simp [Dict.empty, Function.comp_def, hchars]

/-! ## The round trip

The cases of `Value.Readable` one after the other.  A number, a string and a word are read as the
sections above say; a list and a dictionary by the induction hypotheses for what is in them. -/

section RoundTrip

variable {L : PyLib} {J : JsonLib} {d : ℕ}

theorem reads_word {p : Str × Value} (hp : p ∈ constants) : Reads (scanOnce J d) p.2 p.1 := by
  have hhead : ∃ c s, p.1 = c :: s ∧ c ∉ [9, 10, 13, 32, 93, 125, 0xfeff, 34, 91, 123] := by
    simp only [constants, List.mem_cons, List.not_mem_nil, or_false] at hp
    rcases hp with rfl | rfl | rfl | rfl | rfl | rfl
    all_goals exact ⟨_, _, rfl, by decide⟩
  obtain ⟨c, s, hs, hc⟩ := hhead
  simp only [List.mem_cons, List.not_mem_nil, or_false, not_or] at hc
  refine ⟨⟨c, s, hs, by simp [hc]⟩, fun rest _ ↦ ?_⟩
  have hword := scanConstant_append hp rest
  rw [hs, List.cons_append] at hword ⊢
  unfold scanOnce
  rw [if_neg (by simp [hc]), if_neg (by simp [hc]), scanWord, hword]

/-- What `scanNumber` reads from a number is what is read there. -/
theorem reads_number {sign digits fraction exponent : Str} {v : Value}
    (h : NumberText sign digits fraction exponent)
    (hread : ∀ rest, Follows rest →
      scanNumber J (sign ++ digits ++ fraction ++ exponent ++ rest) = .ok (v, rest)) :
    Reads (scanOnce J d) v (sign ++ digits ++ fraction ++ exponent) := by
  refine ⟨Begins.of_number h, fun rest hrest ↦ ?_⟩
  obtain ⟨c, s, hs, hc⟩ := h.head rest
  have hscan := hread rest hrest
  rw [hs] at hscan ⊢
  have hopen : ∀ c ∈ [34, 91, 123], isDigit c = false ∧ c ≠ 45 := by decide
  have hnot : ∀ x ∈ [34, 91, 123], c ≠ x := by
    rintro x hx rfl
    obtain ⟨hdigit, hsign⟩ := hopen c hx
    rcases hc with hc | ⟨hc, -⟩
    · rw [hdigit] at hc
      cases hc
    · exact hsign hc
  unfold scanOnce
  rw [if_neg (hnot 34 (by simp)), if_neg (not_or.mpr ⟨hnot 91 (by simp), hnot 123 (by simp)⟩),
    scanWord, scanConstant_eq_none hc]
  exact hscan

theorem numberText_intStr (n : ℤ) : ∃ sign digits, NumberText sign digits [] [] ∧
    intStr n = sign ++ digits ++ [] ++ [] := by
  cases n with
  | ofNat m =>
    exact ⟨[], decimal m, ⟨Or.inl rfl, isInteger_decimal m, Or.inl rfl, Or.inl rfl⟩,
      by rw [intStr_ofNat]; simp⟩
  | negSucc m =>
    exact ⟨[45], decimal (m + 1),
      ⟨Or.inr rfl, isInteger_decimal (m + 1), Or.inl rfl, Or.inl rfl⟩,
      by rw [intStr_negSucc]; simp⟩

theorem reads_str {s : Str} (hs : Plain s) : Reads (scanOnce J d) (.str s) (quote s) := by
  have htext : ∀ rest : Str, quote s ++ rest = 34 :: (s.flatMap escapeChar ++ 34 :: rest) :=
    fun rest ↦ by simp [quote, lit]
  refine ⟨⟨34, _, by simpa using htext [], by decide⟩, fun rest _ ↦ ?_⟩
  rw [htext]
  unfold scanOnce
  rw [if_pos rfl, scanString_quote hs]
  rfl

/-! ## Lists and dictionaries

The texts of the elements are matched with the values that are read from them, position by
position. -/

/-- The texts of a list, with the values that are read from them. -/
theorem forall₂_dumpsList {xs : List Value} {ts : List Str}
    (h : ∀ x ∈ xs, ∀ t, x.dumps L = some t → Reads (scanOnce J d) x t)
    (hts : Value.dumps.dumpsList L xs = some ts) :
    List.Forall₂ (Reads (scanOnce J d)) xs ts := by
  induction xs generalizing ts with
  | nil =>
    obtain rfl := Option.some.inj hts
    exact .nil
  | cons x xs ih =>
    obtain ⟨hx, hxs⟩ := List.forall_mem_cons.mp h
    obtain ⟨t, ht, hts⟩ := Option.bind_eq_some_iff.mp hts
    obtain ⟨us, hus, rfl⟩ := Option.map_eq_some_iff.mp hts
    exact .cons (hx t ht) (ih hxs hus)

/-- The texts of the fields of a dict. -/
theorem forall₂_dumpsFields {fs : Obj} {ts : List Str}
    (h : ∀ p ∈ fs, ∀ t, p.2.dumps L = some t → Reads (scanOnce J d) p.2 t)
    (hts : Value.dumps.dumpsFields L fs = some ts) :
    List.Forall₂ (Reads (scanField (scanOnce J d))) (fs.map fun p ↦ (lit p.1, p.2)) ts := by
  induction fs generalizing ts with
  | nil =>
    obtain rfl := Option.some.inj hts
    exact .nil
  | cons p fs ih =>
    obtain ⟨hp, hfs⟩ := List.forall_mem_cons.mp h
    obtain ⟨t, ht, hts⟩ := Option.bind_eq_some_iff.mp hts
    obtain ⟨us, hus, rfl⟩ := Option.map_eq_some_iff.mp hts
    exact .cons (hp t ht).field (ih hfs hus)

/-- **A value is read from its text, whatever follows it.** -/
theorem reads_dumps {v : Value} (h : v.Readable L J d) {t : Str} (ht : v.dumps L = some t) :
    Reads (scanOnce J d) v t := by
  induction h generalizing t with
  | none d =>
    obtain rfl := Option.some.inj ht
    exact reads_word (p := (lit "null", .none)) (by simp [constants])
  | bool d b =>
    obtain rfl := Option.some.inj ht
    cases b with
    | false => exact reads_word (p := (lit "false", .bool false)) (by simp [constants])
    | true => exact reads_word (p := (lit "true", .bool true)) (by simp [constants])
  | @int d n hn =>
    obtain rfl := Option.some.inj ht
    obtain ⟨sign, digits, hnumber, htext⟩ := numberText_intStr n
    rw [htext]
    refine reads_number hnumber fun rest hrest ↦ ?_
    rw [← htext]
    exact scanNumber_intStr J hn hrest
  | @finite d q hq =>
    obtain rfl := Option.some.inj ht
    obtain ⟨sign, digits, fraction, exponent, hnumber, hne, htext, hvalue⟩ := hq
    rw [htext] at hvalue ⊢
    refine reads_number hnumber fun rest hrest ↦ ?_
    rw [scanNumber_append J hnumber hrest, if_neg hne, hvalue]
  | inf d neg =>
    obtain rfl := Option.some.inj ht
    cases neg with
    | false =>
      exact reads_word (p := (lit "Infinity", .float (.inf false))) (by simp [constants])
    | true =>
      exact reads_word (p := (lit "-Infinity", .float (.inf true))) (by simp [constants])
  | nan d =>
    obtain rfl := Option.some.inj ht
    exact reads_word (p := (lit "NaN", .float (.nan 0))) (by simp [constants])
  | str d hs =>
    obtain rfl := Option.some.inj ht
    exact reads_str hs
  | @list d xs h ih =>
    obtain ⟨ts, hts, rfl⟩ := Option.map_eq_some_iff.mp ht
    have hreads := forall₂_dumpsList (fun x hx t ht ↦ ih x hx ht) hts
    refine ⟨⟨91, _, rfl, by decide⟩, fun rest _ ↦ ?_⟩
    have htext : lit "[" ++ (lit ", ").intercalate ts ++ lit "]" ++ rest =
        91 :: ((lit ", ").intercalate ts ++ 93 :: rest) := by simp [lit]
    rw [htext]
    unfold scanOnce
    rw [if_neg (by decide), if_pos (Or.inl rfl)]
    simp only [if_true]
    rw [scanBody_intercalate (Or.inl rfl) hreads]
    rfl
  | @dict d fs h hkeys ih =>
    obtain ⟨ts, hts, rfl⟩ := Option.map_eq_some_iff.mp ht
    have hreads := forall₂_dumpsFields (fun p hp t ht ↦ ih p hp ht) hts
    refine ⟨⟨123, _, rfl, by decide⟩, fun rest _ ↦ ?_⟩
    have htext : lit "\x7b" ++ (lit ", ").intercalate ts ++ lit "\x7d" ++ rest =
        123 :: ((lit ", ").intercalate ts ++ 125 :: rest) := by simp [lit]
    rw [htext]
    unfold scanOnce
    rw [if_neg (by decide), if_pos (Or.inr rfl)]
    simp only [show ¬(123 = 91) by decide, if_false]
    rw [scanBody_intercalate (Or.inr rfl) hreads]
    show Except.ok (Value.dict (dictOf _), rest) = _
    rw [dictOf_lit hkeys]

/-- **`json.loads(json.dumps(v))` is `v`.** -/
theorem loads_dumps {v : Value} (h : v.Readable L J J.maxDepth) {t : Str}
    (ht : v.dumps L = some t) : loads J t = .ok v := by
  obtain ⟨hbegins, hread⟩ := reads_dumps h ht
  have hscan := hread [] (by simp [Follows])
  have hskip := hbegins.skipSpace []
  rw [List.append_nil] at hscan hskip
  have hmark : t.head? ≠ some 0xfeff := by
    obtain ⟨c, s, rfl, hc⟩ := hbegins
    rintro ⟨⟩
    exact hc (by simp)
  rw [loads, if_neg hmark, hskip, hscan]
  rfl

end RoundTrip

end GroupChat
