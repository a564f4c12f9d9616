import GroupChat.Py.Utf8

/-!
# Decoding

`b.decode('utf-8')` accepts what `s.encode('utf-8')` writes, and nothing else: no character is
accepted in a longer form than its own, no surrogate, and nothing above the last code point.

* `utf8Head` reads one character off a byte string.  `utf8Head_eq_some_iff`: it reads what
  `utf8Char` writes.
* `utf8Decode` reads a text, and `utf8Decode_eq_some_iff` is the round trip in both directions.
-/

set_option autoImplicit false

namespace GroupChat

/-- Read so many continuation bytes on from what the bytes before them have given. -/
def utf8Tail : ℕ → ℕ → Bytes → Option (ℕ × Bytes)
  | 0, c, bs => some (c, bs)
  | _ + 1, _, [] => none
  | n + 1, c, b :: bs =>
    if 0x80 ≤ b.toNat ∧ b.toNat < 0xc0 then utf8Tail n (c * 0x40 + (b.toNat - 0x80)) bs else none

/-- Read one character. -/
def utf8Head : Bytes → Option (ℕ × Bytes)
  | [] => none
  | b :: bs =>
    if b.toNat < 0x80 then some (b.toNat, bs)
    else if b.toNat < 0xc0 then none
    else if b.toNat < 0xe0 then (utf8Tail 1 (b.toNat - 0xc0) bs).filter fun p ↦ decide (0x80 ≤ p.1)
    else if b.toNat < 0xf0 then (utf8Tail 2 (b.toNat - 0xe0) bs).filter fun p ↦
      decide (0x800 ≤ p.1 ∧ ¬ (0xd800 ≤ p.1 ∧ p.1 < 0xe000))
    else if b.toNat < 0xf8 then (utf8Tail 3 (b.toNat - 0xf0) bs).filter fun p ↦
      decide (0x10000 ≤ p.1 ∧ p.1 < 0x110000)
    else none

/-- Read so many characters at most. -/
def utf8DecodeFrom : ℕ → Bytes → Option Str
  | _, [] => some []
  | 0, _ :: _ => none
  | n + 1, b :: bs => (utf8Head (b :: bs)).bind fun p ↦ (utf8DecodeFrom n p.2).map (p.1 :: ·)

/-- `b.decode('utf-8')`; `none` where it raises. -/
def utf8Decode (b : Bytes) : Option Str := utf8DecodeFrom b.length b

/-! ## One character

The first byte says how many follow.  What has been read is then checked to be no shorter than
this number of bytes requires, and to be no surrogate. -/

section Head

variable {b : UInt8} {bs r : Bytes} {c x : ℕ}

theorem utf8Tail_succ_eq_some_iff {n : ℕ} : utf8Tail (n + 1) x bs = some (c, r) ↔
    ∃ b bs', bs = b :: bs' ∧ 0x80 ≤ b.toNat ∧ b.toNat < 0xc0 ∧
      utf8Tail n (x * 0x40 + (b.toNat - 0x80)) bs' = some (c, r) := by
  cases bs with
  | nil => simp [utf8Tail]
  | cons b bs =>
    rw [utf8Tail]
    split
    · rename_i hb
      simp [hb]
    · rename_i hb
      constructor
      · intro h
        simp at h
      · rintro ⟨b', bs', heq, hl, hr, -⟩
        obtain ⟨rfl, rfl⟩ := List.cons.inj heq
        exact absurd ⟨hl, hr⟩ hb

theorem utf8Tail_zero_eq_some_iff : utf8Tail 0 x bs = some (c, r) ↔ x = c ∧ bs = r := by
  rw [utf8Tail, Option.some.injEq, Prod.mk.injEq]

theorem ofNat_toNat_eq (h : x = b.toNat) : UInt8.ofNat x = b := by
  rw [h, UInt8.ofNat_toNat]

/-- What is read is what was written. -/
theorem utf8Head_of_utf8Char {e : Bytes} (hc : c < 0x110000) (he : utf8Char c = some e)
    (r : Bytes) : utf8Head (e ++ r) = some (c, r) := by
  have hsurrogate : ¬ (0xd800 ≤ c ∧ c < 0xe000) := by
    intro h
    rw [utf8Char, if_neg (by omega), if_neg (by omega), if_pos h] at he
    simp at he
  rcases utf8Char_toNat hc he with ⟨hr, hn⟩ | ⟨hl, hr, hn⟩ | ⟨hl, hr, hn⟩ | ⟨hl, hn⟩
  · obtain ⟨b, t, rfl, hb, ht⟩ := List.map_eq_cons_iff.mp hn
    obtain rfl := List.map_eq_nil_iff.mp ht
    rw [List.singleton_append, utf8Head, if_pos (by omega), hb]
  · obtain ⟨b, t, rfl, hb, ht⟩ := List.map_eq_cons_iff.mp hn
    obtain ⟨b₁, t, rfl, hb₁, ht⟩ := List.map_eq_cons_iff.mp ht
    obtain rfl := List.map_eq_nil_iff.mp ht
    have htail : utf8Tail 1 (b.toNat - 0xc0) (b₁ :: r) = some (c, r) := by
      rw [utf8Tail, if_pos (by omega), utf8Tail_zero_eq_some_iff]
      exact ⟨by omega, rfl⟩
    show utf8Head (b :: b₁ :: r) = _
    rw [utf8Head, if_neg (by omega), if_neg (by omega), if_pos (by omega), htail,
      Option.filter_some, if_pos (decide_eq_true hl)]
  · obtain ⟨b, t, rfl, hb, ht⟩ := List.map_eq_cons_iff.mp hn
    obtain ⟨b₁, t, rfl, hb₁, ht⟩ := List.map_eq_cons_iff.mp ht
    obtain ⟨b₂, t, rfl, hb₂, ht⟩ := List.map_eq_cons_iff.mp ht
    obtain rfl := List.map_eq_nil_iff.mp ht
    have htail : utf8Tail 2 (b.toNat - 0xe0) (b₁ :: b₂ :: r) = some (c, r) := by
      rw [utf8Tail, if_pos (by omega), utf8Tail, if_pos (by omega), utf8Tail_zero_eq_some_iff]
      exact ⟨by omega, rfl⟩
    show utf8Head (b :: b₁ :: b₂ :: r) = _
    rw [utf8Head, if_neg (by omega), if_neg (by omega), if_neg (by omega), if_pos (by omega), htail,
      Option.filter_some, if_pos (decide_eq_true ⟨hl, hsurrogate⟩)]
  · obtain ⟨b, t, rfl, hb, ht⟩ := List.map_eq_cons_iff.mp hn
    obtain ⟨b₁, t, rfl, hb₁, ht⟩ := List.map_eq_cons_iff.mp ht
    obtain ⟨b₂, t, rfl, hb₂, ht⟩ := List.map_eq_cons_iff.mp ht
    obtain ⟨b₃, t, rfl, hb₃, ht⟩ := List.map_eq_cons_iff.mp ht
    obtain rfl := List.map_eq_nil_iff.mp ht
    have htail : utf8Tail 3 (b.toNat - 0xf0) (b₁ :: b₂ :: b₃ :: r) = some (c, r) := by
      rw [utf8Tail, if_pos (by omega), utf8Tail, if_pos (by omega), utf8Tail, if_pos (by omega),
        utf8Tail_zero_eq_some_iff]
      exact ⟨by omega, rfl⟩
    show utf8Head (b :: b₁ :: b₂ :: b₃ :: r) = _
    rw [utf8Head, if_neg (by omega), if_neg (by omega), if_neg (by omega), if_neg (by omega),
      if_pos (by omega), htail, Option.filter_some, if_pos (decide_eq_true ⟨hl, hc⟩)]

/-- Nothing else is read. -/
theorem utf8Char_of_utf8Head (h : utf8Head bs = some (c, r)) :
    c < 0x110000 ∧ ∃ e, utf8Char c = some e ∧ bs = e ++ r := by
  cases bs with
  | nil => simp [utf8Head] at h
  | cons b bs =>
    have hlt := b.toNat_lt
    rw [utf8Head] at h
    split_ifs at h with h₁ h₂ h₃ h₄ h₅
    · obtain ⟨rfl, rfl⟩ := Prod.mk.inj (Option.some.inj h)
      refine ⟨by omega, [b], ?_, rfl⟩
      rw [utf8Char, if_pos h₁, UInt8.ofNat_toNat]
    · obtain ⟨htail, hl⟩ := Option.filter_eq_some_iff.mp h
      replace hl : 0x80 ≤ c := of_decide_eq_true hl
      obtain ⟨b₁, bs, rfl, hl₁, hr₁, htail⟩ := utf8Tail_succ_eq_some_iff.mp htail
      obtain ⟨hc, rfl⟩ := utf8Tail_zero_eq_some_iff.mp htail
      refine ⟨by omega, [b, b₁], ?_, rfl⟩
      rw [utf8Char, if_neg (by omega), if_pos (by omega), ofNat_toNat_eq (b := b) (by omega),
        ofNat_toNat_eq (b := b₁) (by omega)]
    · obtain ⟨htail, hl⟩ := Option.filter_eq_some_iff.mp h
      obtain ⟨hl, hsurrogate⟩ : 0x800 ≤ c ∧ ¬ (0xd800 ≤ c ∧ c < 0xe000) := of_decide_eq_true hl
      obtain ⟨b₁, bs, rfl, hl₁, hr₁, htail⟩ := utf8Tail_succ_eq_some_iff.mp htail
      obtain ⟨b₂, bs, rfl, hl₂, hr₂, htail⟩ := utf8Tail_succ_eq_some_iff.mp htail
      obtain ⟨hc, rfl⟩ := utf8Tail_zero_eq_some_iff.mp htail
      refine ⟨by omega, [b, b₁, b₂], ?_, rfl⟩
      rw [utf8Char, if_neg (by omega), if_neg (by omega), if_neg hsurrogate, if_pos (by omega),
        ofNat_toNat_eq (b := b) (by omega), ofNat_toNat_eq (b := b₁) (by omega),
        ofNat_toNat_eq (b := b₂) (by omega)]
    · obtain ⟨htail, hl⟩ := Option.filter_eq_some_iff.mp h
      obtain ⟨hl, hr⟩ : 0x10000 ≤ c ∧ c < 0x110000 := of_decide_eq_true hl
      obtain ⟨b₁, bs, rfl, hl₁, hr₁, htail⟩ := utf8Tail_succ_eq_some_iff.mp htail
      obtain ⟨b₂, bs, rfl, hl₂, hr₂, htail⟩ := utf8Tail_succ_eq_some_iff.mp htail
      obtain ⟨b₃, bs, rfl, hl₃, hr₃, htail⟩ := utf8Tail_succ_eq_some_iff.mp htail
      obtain ⟨hc, rfl⟩ := utf8Tail_zero_eq_some_iff.mp htail
      refine ⟨hr, [b, b₁, b₂, b₃], ?_, rfl⟩
      rw [utf8Char, if_neg (by omega), if_neg (by omega), if_neg (by omega), if_neg (by omega),
        ofNat_toNat_eq (b := b) (by omega), ofNat_toNat_eq (b := b₁) (by omega),
        ofNat_toNat_eq (b := b₂) (by omega), ofNat_toNat_eq (b := b₃) (by omega)]

theorem utf8Head_eq_some_iff : utf8Head bs = some (c, r) ↔
    c < 0x110000 ∧ ∃ e, utf8Char c = some e ∧ bs = e ++ r := by
  refine ⟨utf8Char_of_utf8Head, ?_⟩
  rintro ⟨hc, e, he, rfl⟩
  exact utf8Head_of_utf8Char hc he r

end Head

/-! ## Texts

A text is read character by character, with the number of bytes as a bound on the number of
characters. -/

theorem utf8DecodeFrom_eq_some_iff {s : Str} : ∀ {n : ℕ} {b : Bytes}, b.length ≤ n →
    (utf8DecodeFrom n b = some s ↔ CodePoints s ∧ utf8 s = .ok b) := by
  induction s with
  | nil =>
    intro n b hn
    cases b with
    | nil => simp [utf8DecodeFrom, CodePoints]
    | cons x b =>
      cases n with
      | zero => simp at hn
      | succ n =>
        refine iff_of_false ?_ (by simp)
        rw [utf8DecodeFrom, Option.bind_eq_some_iff]
        rintro ⟨p, -, hp⟩
        simp at hp
  | cons c s ih =>
    intro n b hn
    cases b with
    | nil =>
      refine iff_of_false (by simp [utf8DecodeFrom]) ?_
      rintro ⟨-, h⟩
      obtain ⟨e, d, he, -, hnil⟩ := utf8_cons_iff.mp h
      exact utf8Char_ne_nil he (List.append_eq_nil_iff.mp hnil.symm).1
    | cons x b =>
      cases n with
      | zero => simp at hn
      | succ n =>
        rw [utf8DecodeFrom, Option.bind_eq_some_iff, utf8_cons_iff]
        constructor
        · rintro ⟨⟨c', r⟩, hhead, hrest⟩
          obtain ⟨s', hs', heq⟩ := Option.map_eq_some_iff.mp hrest
          obtain ⟨rfl, rfl⟩ := List.cons.inj heq
          obtain ⟨hc, e, he, hb⟩ := utf8Head_eq_some_iff.mp hhead
          have hlen := congrArg List.length hb
          have hpos := List.length_pos_iff.mpr (utf8Char_ne_nil he)
          rw [List.length_append] at hlen
          obtain ⟨hcode, hs⟩ := (ih (b := r) (by omega)).mp hs'
          exact ⟨List.forall_mem_cons.mpr ⟨hc, hcode⟩, e, r, he, hs, hb⟩
        · rintro ⟨hcode, e, d, he, hs, hb⟩
          obtain ⟨hc, hcode⟩ := List.forall_mem_cons.mp hcode
          have hlen := congrArg List.length hb
          have hpos := List.length_pos_iff.mpr (utf8Char_ne_nil he)
          rw [List.length_append] at hlen
          exact ⟨(c, d), utf8Head_eq_some_iff.mpr ⟨hc, e, he, hb⟩,
            by rw [(ih (by omega)).mpr ⟨hcode, hs⟩]; rfl⟩

/-- **A text is read off its encoding, and nothing but an encoding is read.** -/
theorem utf8Decode_eq_some_iff {s : Str} {b : Bytes} :
    utf8Decode b = some s ↔ CodePoints s ∧ utf8 s = .ok b :=
  utf8DecodeFrom_eq_some_iff le_rfl

end GroupChat
