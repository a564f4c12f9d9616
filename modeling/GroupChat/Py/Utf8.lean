import GroupChat.Py.Value
import Std.Data.String.ToInt

/-!
# What a text is encoded as

`s.encode('utf-8')` is read from left to right: where the bytes of one character end is told by the
first of them.  So two encoded texts that start the same byte string agree on the shorter one of
them, and nothing that follows a text can be mistaken for a part of its characters.

* `utf8Char_append_injective`: one character is read off in one way only.
* `utf8_append`: a text is encoded piece by piece.
* `exists_utf8_iff`: what cannot be encoded is a text with a lone surrogate; `hasSurrogate` is the
  test for one.
* `utf8_prefix`: of two texts whose encodings start the same bytes, the one with the longer encoding
  is the other one followed by something.
* `intStr_injective` and `mem_intStr`: the decimal notation of an integer, which has nothing but
  digits and a sign.

A code point is below `0x110000` (`CodePoints`), which is what a Python `str` is made of.
-/

set_option autoImplicit false

namespace GroupChat

/-- Is the list made of code points? -/
def CodePoints (s : Str) : Prop := ∀ c ∈ s, c < 0x110000

theorem CodePoints.append {s t : Str} (hs : CodePoints s) (ht : CodePoints t) :
    CodePoints (s ++ t) := by
  intro c hc
  rcases List.mem_append.mp hc with hc | hc
  · exact hs c hc
  · exact ht c hc

/-! ## One character

Lead bytes and continuation bytes are in different ranges, so that the first byte of a character
says how many there are.  All of this is arithmetic with the bytes as numbers. -/

/-- The bytes of a character, as numbers. -/
theorem utf8Char_toNat {c : ℕ} {e : Bytes} (hc : c < 0x110000) (h : utf8Char c = some e) :
    (c < 0x80 ∧ e.map UInt8.toNat = [c]) ∨
    (0x80 ≤ c ∧ c < 0x800 ∧ e.map UInt8.toNat = [0xc0 + c / 0x40, 0x80 + c % 0x40]) ∨
    (0x800 ≤ c ∧ c < 0x10000 ∧
      e.map UInt8.toNat = [0xe0 + c / 0x1000, 0x80 + c / 0x40 % 0x40, 0x80 + c % 0x40]) ∨
    (0x10000 ≤ c ∧ e.map UInt8.toNat =
      [0xf0 + c / 0x40000, 0x80 + c / 0x1000 % 0x40, 0x80 + c / 0x40 % 0x40, 0x80 + c % 0x40]) := by
  have hbyte : ∀ n < 256, (UInt8.ofNat n).toNat = n := fun n hn ↦ by
    rw [UInt8.toNat_ofNat']
    exact Nat.mod_eq_of_lt hn
  rw [utf8Char] at h
  split at h
  · obtain rfl := Option.some.inj h
    refine Or.inl ⟨‹_›, ?_⟩
    simp only [List.map_cons, List.map_nil]
    rw [hbyte _ (by omega)]
  · split at h
    · obtain rfl := Option.some.inj h
      refine Or.inr (Or.inl ⟨by omega, ‹_›, ?_⟩)
      simp only [List.map_cons, List.map_nil]
      rw [hbyte _ (by omega), hbyte _ (by omega)]
    · split at h
      · exact absurd h (by simp)
      · split at h
        · obtain rfl := Option.some.inj h
          refine Or.inr (Or.inr (Or.inl ⟨by omega, ‹_›, ?_⟩))
          simp only [List.map_cons, List.map_nil]
          rw [hbyte _ (by omega), hbyte _ (by omega), hbyte _ (by omega)]
        · obtain rfl := Option.some.inj h
          refine Or.inr (Or.inr (Or.inr ⟨by omega, ?_⟩))
          simp only [List.map_cons, List.map_nil]
          rw [hbyte _ (by omega), hbyte _ (by omega), hbyte _ (by omega), hbyte _ (by omega)]

theorem utf8Char_ne_nil {c : ℕ} {e : Bytes} (h : utf8Char c = some e) : e ≠ [] := by
  rintro rfl
  rw [utf8Char] at h
  split_ifs at h <;> simp at h

/-- **One character is read off in one way only.** -/
theorem utf8Char_append_injective {c c' : ℕ} (hc : c < 0x110000) (hc' : c' < 0x110000)
    {e e' u u' : Bytes} (he : utf8Char c = some e) (he' : utf8Char c' = some e')
    (h : e ++ u = e' ++ u') : c = c' ∧ u = u' := by
  have heq : c = c' := by
    have hmap : e.map UInt8.toNat ++ u.map UInt8.toNat =
        e'.map UInt8.toNat ++ u'.map UInt8.toNat := by
      rw [← List.map_append, ← List.map_append, h]
    -- the first byte tells how many there are
    rcases utf8Char_toNat hc he with ⟨hr, hn⟩ | ⟨hl, hr, hn⟩ | ⟨hl, hr, hn⟩ | ⟨hl, hn⟩ <;>
      rcases utf8Char_toNat hc' he' with
        ⟨hr', hn'⟩ | ⟨hl', hr', hn'⟩ | ⟨hl', hr', hn'⟩ | ⟨hl', hn'⟩ <;>
      · rw [hn, hn'] at hmap
        simp only [List.cons_append, List.nil_append, List.cons.injEq] at hmap
        omega
  subst heq
  rw [Option.some.inj (he.symm.trans he')] at h
  exact ⟨rfl, List.append_cancel_left h⟩

/-! ## Texts

An encoding either succeeds for every character or fails as a whole.  The order of prefixes on the
bytes is that of the texts, which is what the comparison of payloads needs. -/

theorem utf8_eq_ok_iff {s : Str} {b : Bytes} :
    utf8 s = .ok b ↔ ∃ bs, s.mapM utf8Char = some bs ∧ b = bs.flatten := by
  rw [utf8]
  cases s.mapM utf8Char with
  | none => simp
  | some bs => simp [eq_comm]

@[simp] theorem utf8_nil : utf8 [] = .ok [] := rfl

theorem utf8_cons_iff {c : ℕ} {s : Str} {b : Bytes} :
    utf8 (c :: s) = .ok b ↔ ∃ e d, utf8Char c = some e ∧ utf8 s = .ok d ∧ b = e ++ d := by
  rw [utf8_eq_ok_iff, List.mapM_cons]
  constructor
  · rintro ⟨bs, hbs, rfl⟩
    obtain ⟨e, he, hbs⟩ := Option.bind_eq_some_iff.mp hbs
    obtain ⟨ds, hds, hbs⟩ := Option.bind_eq_some_iff.mp hbs
    obtain rfl := Option.some.inj hbs
    exact ⟨e, ds.flatten, he, utf8_eq_ok_iff.mpr ⟨ds, hds, rfl⟩, List.flatten_cons⟩
  · rintro ⟨e, d, he, hd, rfl⟩
    obtain ⟨ds, hds, rfl⟩ := utf8_eq_ok_iff.mp hd
    refine ⟨e :: ds, ?_, List.flatten_cons.symm⟩
    rw [he, hds]
    rfl

theorem utf8_append {s t : Str} {b d : Bytes} (hs : utf8 s = .ok b) (ht : utf8 t = .ok d) :
    utf8 (s ++ t) = .ok (b ++ d) := by
  induction s generalizing b with
  | nil =>
    obtain rfl : [] = b := Except.ok.inj hs
    exact ht
  | cons c s ih =>
    obtain ⟨e, b', he, hb', rfl⟩ := utf8_cons_iff.mp hs
    exact utf8_cons_iff.mpr ⟨e, b' ++ d, he, ih hb', List.append_assoc ..⟩

/-- A text can be encoded if and only if there is no lone surrogate in it. -/
theorem exists_utf8_iff {s : Str} :
    (∃ b, utf8 s = .ok b) ↔ ∀ c ∈ s, ¬ (0xd800 ≤ c ∧ c < 0xe000) := by
  have hchar : ∀ c, (∃ e, utf8Char c = some e) ↔ ¬ (0xd800 ≤ c ∧ c < 0xe000) := by
    intro c
    rw [utf8Char]
    split_ifs <;> simp <;> omega
  induction s with
  | nil => simp
  | cons c s ih =>
    rw [List.forall_mem_cons, ← hchar]
    constructor
    · rintro ⟨b, hb⟩
      obtain ⟨e, d, he, hd, -⟩ := utf8_cons_iff.mp hb
      exact ⟨⟨e, he⟩, ih.mp ⟨d, hd⟩⟩
    · rintro ⟨⟨e, he⟩, hs⟩
      obtain ⟨d, hd⟩ := ih.mpr hs
      exact ⟨e ++ d, utf8_cons_iff.mpr ⟨e, d, he, hd, rfl⟩⟩

/-- **Of two texts whose encodings start the same bytes, the one with the longer encoding is the
other one followed by something.** -/
theorem utf8_prefix {s s' : Str} (hs : CodePoints s) (hs' : CodePoints s') {b b' r r' : Bytes}
    (hb : utf8 s = .ok b) (hb' : utf8 s' = .ok b') (h : b ++ r = b' ++ r')
    (hle : b.length ≤ b'.length) :
    ∃ z d, s' = s ++ z ∧ utf8 z = .ok d ∧ b' = b ++ d := by
  induction s generalizing s' b b' with
  | nil =>
    obtain rfl : [] = b := Except.ok.inj hb
    exact ⟨s', b', rfl, hb', rfl⟩
  | cons c s ih =>
    obtain ⟨e, b₁, he, hb₁, rfl⟩ := utf8_cons_iff.mp hb
    cases s' with
    | nil =>
      obtain rfl : [] = b' := Except.ok.inj hb'
      have hpos := List.length_pos_iff.mpr (utf8Char_ne_nil he)
      rw [List.length_append, List.length_nil] at hle
      omega
    | cons c' s' =>
      obtain ⟨e', b₁', he', hb₁', rfl⟩ := utf8_cons_iff.mp hb'
      rw [List.append_assoc, List.append_assoc] at h
      obtain ⟨rfl, htail⟩ := utf8Char_append_injective (hs c List.mem_cons_self)
        (hs' c' List.mem_cons_self) he he' h
      obtain rfl := Option.some.inj (he.symm.trans he')
      rw [List.length_append, List.length_append] at hle
      obtain ⟨z, d, rfl, hz, rfl⟩ := ih (fun x hx ↦ hs x (List.mem_cons_of_mem c hx))
        (fun x hx ↦ hs' x (List.mem_cons_of_mem c hx)) hb₁ hb₁' htail (by omega)
      exact ⟨z, d, rfl, hz, (List.append_assoc ..).symm⟩

/-! ## Integers

Decimal digits determine the number, and the texts of integers have no characters that a separator
could be. -/

theorem codePoints_lit (s : String) : CodePoints (lit s) := by
  intro c hc
  obtain ⟨x, -, rfl⟩ := List.mem_map.mp hc
  have hvalid := x.valid
  rcases hvalid with hx | ⟨-, hx⟩
  · exact Nat.lt_trans hx (by decide)
  · exact hx

theorem lit_injective : Function.Injective lit := by
  intro s t h
  have hchar : Function.Injective Char.toNat := fun x y hxy ↦
    Char.ext (UInt32.toNat_inj.mp hxy)
  exact String.toList_inj.mp (hchar.list_map h)

theorem intStr_injective : Function.Injective intStr := fun _ _ h ↦
  Int.repr_injective (lit_injective h)

/-- There is nothing but digits and a sign in the decimal notation of an integer. -/
theorem mem_intStr {n : ℤ} {c : ℕ} (hc : c ∈ intStr n) : c = 45 ∨ 48 ≤ c ∧ c ≤ 57 := by
  have hdigits : ∀ (m : ℕ) (x : Char), x ∈ (Nat.repr m).toList → 48 ≤ x.toNat ∧ x.toNat ≤ 57 := by
    intro m x hx
    rw [Nat.toList_repr] at hx
    have hdigit := Nat.isDigit_of_mem_toDigits (by decide) (by decide) hx
    simpa [Char.isDigit, UInt32.le_iff_toNat_le] using hdigit
  obtain ⟨x, hx, rfl⟩ := List.mem_map.mp hc
  cases n with
  | ofNat m => exact Or.inr (hdigits m x hx)
  | negSucc m =>
    have hx' : x ∈ ("-" ++ Nat.repr (m + 1)).toList := hx
    rw [String.toList_append] at hx'
    rcases List.mem_append.mp hx' with hx | hx
    · left
      rw [List.mem_singleton.mp hx]
      rfl
    · exact Or.inr (hdigits _ x hx)

/-! ## Texts without an encoding

The condition that a text can be encoded is made a test, for the statements in which clients
choose the text. -/

/-- Is there a lone surrogate in the text? -/
def hasSurrogate (s : Str) : Bool := s.any fun c ↦ decide (0xd800 ≤ c ∧ c < 0xe000)

/-- The texts without a lone surrogate are those that can be encoded. -/
theorem hasSurrogate_eq_false_iff {s : Str} : hasSurrogate s = false ↔ ∃ b, utf8 s = .ok b := by
  rw [exists_utf8_iff, hasSurrogate, List.any_eq_false]
  simp only [decide_eq_true_eq]

theorem hasSurrogate_append (s t : Str) :
    hasSurrogate (s ++ t) = (hasSurrogate s || hasSurrogate t) := List.any_append

theorem hasSurrogate_intStr (n : ℤ) : hasSurrogate (intStr n) = false := by
  rw [hasSurrogate, List.any_eq_false]
  intro c hc
  have hdigit := mem_intStr hc
  rw [decide_eq_true_eq]
  omega

end GroupChat
