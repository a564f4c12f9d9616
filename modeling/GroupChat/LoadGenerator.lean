import GroupChat.Py.Value
import Mathlib.Data.List.Range

/-!
# The messages of the load generator

`random_message` draws words until their lengths, each with one more for a separator, add up to a
random target; then it joins the words and cuts the result.  `' '.join` puts one separator less than
the loop has counted.

* `Choices` are what the two random functions return in a call: the target, and as many words as are
  asked for.
* `fill` is the loop.  It ends (each word counts for one at least), and `fill_eq` says where.
* `exists_length_message`: the length of a message is the total of its words, less one, or
  `max_len`.
* `messageBounds_iff`: a message is too short exactly if the target is `min_len` and the words that
  are drawn add up to it.
* `forall_messageBounds_iff`: words that do so can always be drawn, unless `min_len` is no longer
  than the shortest of them.
-/

set_option autoImplicit false

namespace GroupChat
namespace LoadGen

/-- `ADJECTIVES`. -/
def adjectives : List Str :=
  ["quick", "lazy", "blue", "happy", "sad", "fast", "slow", "bright", "dark"].map lit

/-- `NOUNS`. -/
def nouns : List Str :=
  ["fox", "dog", "cat", "bird", "tree", "cloud", "river", "stone", "wind"].map lit

/-- `WORDS`. -/
def words : List Str :=
  adjectives ++ nouns ++ ["hello", "world", "test", "message", "chat", "group", "secure", "python",
    "golang", "server", "load", "balance", "scale", "data"].map lit

/-- What is drawn in a call of `random_message(min_len, max_len)`. -/
structure Choices (minLen maxLen : ℕ) where
  minLen_pos : 1 ≤ minLen
  /-- `random.randint(min_len, max_len)`. -/
  target : ℕ
  target_ge : minLen ≤ target
  target_le : target ≤ maxLen
  /-- What `random.choice(WORDS)` returns, one call after the other. -/
  word : ℕ → Str
  word_mem : ∀ i, word i ∈ words

/-- The loop of `random_message`. -/
def fill (target : ℕ) (word : ℕ → Str) (drawn : List Str) (total : ℕ) : List Str :=
  if total < target then
    fill target word (drawn ++ [word drawn.length]) (total + ((word drawn.length).length + 1))
  else drawn
termination_by target - total

/-- `random_message`. -/
def randomMessage {minLen maxLen : ℕ} (c : Choices minLen maxLen) : Str :=
  ([32].intercalate (fill c.target c.word [] 0)).take maxLen

/-- What the first `n` words count for. -/
def totalOf (word : ℕ → Str) : ℕ → ℕ
  | 0 => 0
  | n + 1 => totalOf word n + ((word n).length + 1)

/-! ## The loop

The words that are drawn are a sequence given in advance, of which the loop takes as many as it
needs.  Every word counts for one at least, so that the number of words is bounded by the
target. -/

section Loop

variable {target : ℕ} {word : ℕ → Str}

theorem totalOf_lt_succ (word : ℕ → Str) (n : ℕ) : totalOf word n < totalOf word (n + 1) := by
  rw [totalOf]
  omega

theorem totalOf_strictMono (word : ℕ → Str) : StrictMono (totalOf word) :=
  strictMono_nat_of_lt_succ (totalOf_lt_succ word)

/-- The loop ends as soon as the words count for the target. -/
theorem fill_eq (n : ℕ) (hbefore : ∀ m < n, totalOf word m < target) :
    ∃ k, fill target word ((List.range n).map word) (totalOf word n) = (List.range k).map word ∧
      target ≤ totalOf word k ∧ ∀ m < k, totalOf word m < target := by
  induction hgap : target - totalOf word n using Nat.strong_induction_on generalizing n with
  | _ gap ih =>
    rw [fill]
    split_ifs with hlt
    · have hnext := totalOf_lt_succ word n
      have hword : (List.range n).map word ++ [word ((List.range n).map word).length] =
          (List.range (n + 1)).map word := by
        rw [List.length_map, List.length_range, List.range_succ, List.map_append,
          List.map_singleton]
      have htotal : totalOf word n + ((word ((List.range n).map word).length).length + 1) =
          totalOf word (n + 1) := by
        rw [List.length_map, List.length_range, totalOf]
      rw [hword, htotal]
      refine ih _ (by omega) (n + 1) (fun m hm ↦ ?_) rfl
      rcases Nat.lt_succ_iff_lt_or_eq.mp hm with hm | rfl
      · exact hbefore m hm
      · exact hlt
    · exact ⟨n, rfl, by omega, hbefore⟩

/-- The words that are drawn in a call. -/
theorem exists_fill (target : ℕ) (word : ℕ → Str) :
    ∃ k, fill target word [] 0 = (List.range k).map word ∧ target ≤ totalOf word k ∧
      ∀ m < k, totalOf word m < target :=
  fill_eq 0 (by simp)

end Loop

/-! ## The message

The words are joined by blanks, one fewer than there are words, so a message may be shorter by one
than what the loop has counted.  A message that is too long is cut. -/

/-- Joined words have one separator less than words. -/
theorem length_join (word : ℕ → Str) (k : ℕ) :
    ([32].intercalate ((List.range k).map word)).length = totalOf word k - 1 := by
  have hjoin : ∀ ws : List Str, ws ≠ [] →
      ([32].intercalate ws).length + 1 = (ws.map fun w ↦ w.length + 1).sum := by
    intro ws hws
    induction ws with
    | nil => exact absurd rfl hws
    | cons w ws ih =>
      cases ws with
      | nil => simp [List.intercalate]
      | cons v ws =>
        have htail := ih (List.cons_ne_nil _ _)
        simp only [List.intercalate, List.intersperse_cons_cons, List.flatten_cons,
          List.length_append, List.length_cons, List.length_nil, List.map_cons,
          List.sum_cons] at htail ⊢
        omega
  have hsum : ((List.range k).map fun i ↦ (word i).length + 1).sum = totalOf word k := by
    induction k with
    | zero => rfl
    | succ k ih =>
      rw [List.range_succ, List.map_append, List.sum_append, ih, totalOf]
      simp
  cases k with
  | zero => rfl
  | succ k =>
    have h := hjoin ((List.range (k + 1)).map word) (by simp)
    rw [List.map_map] at h
    have hcount : ((List.range (k + 1)).map ((fun w ↦ w.length + 1) ∘ word)).sum =
        totalOf word (k + 1) := hsum
    omega

theorem le_totalOf (word : ℕ → Str) (n : ℕ) : n ≤ totalOf word n :=
  (totalOf_strictMono word).le_apply

section Message

variable {minLen maxLen : ℕ} (c : Choices minLen maxLen)

/-! ## The length of a message

The length depends on the lengths of the words only.  The loop stops at the first total that
reaches the target, and the message has one character less than that, if it is not cut. -/

/-- The words of a message, and how long it is. -/
theorem exists_length_message : ∃ k, 0 < k ∧
    (fill c.target c.word [] 0).length = k ∧ c.target ≤ totalOf c.word k ∧
    (∀ m < k, totalOf c.word m < c.target) ∧
    (randomMessage c).length = min maxLen (totalOf c.word k - 1) := by
  obtain ⟨k, hfill, hreached, hbefore⟩ := exists_fill c.target c.word
  have hpos : 0 < k := by
    rcases Nat.eq_zero_or_pos k with rfl | hpos
    · have hge := c.target_ge
      have hone := c.minLen_pos
      simp only [totalOf] at hreached
      omega
    · exact hpos
  refine ⟨k, hpos, ?_, hreached, hbefore, ?_⟩
  · rw [hfill, List.length_map, List.length_range]
  · rw [randomMessage, hfill, List.length_take, length_join]

/-- No more words are drawn than the target has characters. -/
theorem length_fill_le : (fill c.target c.word [] 0).length ≤ c.target := by
  obtain ⟨k, hpos, hcount, -, hbefore, -⟩ := exists_length_message c
  have hlast := hbefore (k - 1) (by omega)
  have hcounted := le_totalOf c.word (k - 1)
  omega

theorem length_message_le : (randomMessage c).length ≤ maxLen := by
  rw [randomMessage, List.length_take]
  exact Nat.min_le_left _ _

/-- A message is too short if it was to have the minimal length and the first words count for that
length. -/
theorem le_length_message_iff :
    minLen ≤ (randomMessage c).length ↔
      ¬(c.target = minLen ∧ ∃ n, totalOf c.word n = minLen) := by
  obtain ⟨k, -, -, hreached, hbefore, hlen⟩ := exists_length_message c
  have hge := c.target_ge
  have hle := c.target_le
  rw [hlen]
  constructor
  · rintro hmin ⟨htarget, n, hn⟩
    -- the words that count for the target are those that have been drawn
    have hnk : n = k := by
      refine le_antisymm ?_ ?_
      · by_contra hlt
        have := totalOf_strictMono c.word (show k < n by omega)
        omega
      · by_contra hlt
        have := hbefore n (by omega)
        omega
    rw [← hnk, hn] at hmin
    have hone := c.minLen_pos
    omega
  · intro h
    have hne : totalOf c.word k ≠ minLen := by
      intro heq
      exact h ⟨by omega, k, heq⟩
    omega

/-- **When a message has the requested size.**  The loop ends, with no more words than the target
has characters; the message is not too long, and it is long enough unless the first words count for
the very length that is the least one. -/
theorem messageBounds_iff :
    (fill c.target c.word [] 0).length ≤ c.target ∧
      ((minLen ≤ (randomMessage c).length ∧ (randomMessage c).length ≤ maxLen) ↔
        ¬(c.target = minLen ∧ ∃ n, totalOf c.word n = minLen)) := by
  refine ⟨length_fill_le c, ?_⟩
  rw [← le_length_message_iff c]
  exact and_iff_left (length_message_le c)

end Message

/-! ## Words that make it too short

Which targets can be missed by one character depends on the lengths of the words that there are.
The words are written out in the source, so this can be decided. -/

/-- Every word has three to seven characters. -/
theorem length_of_mem_words {w : Str} (h : w ∈ words) : 3 ≤ w.length ∧ w.length ≤ 7 := by
  have hall : ∀ w ∈ words, 3 ≤ w.length ∧ w.length ≤ 7 := by decide
  exact hall w h

/-- A word of each of the lengths up to six, and foxes behind it. -/
def foxes (r : ℕ) : ℕ → Str
  | 0 => if r = 0 then lit "fox" else if r = 1 then lit "lazy" else if r = 2 then lit "quick"
    else lit "bright"
  | _ + 1 => lit "fox"

theorem foxes_mem (r i : ℕ) : foxes r i ∈ words := by
  cases i with
  | zero =>
    rw [foxes]
    split_ifs <;> decide
  | succ i =>
    have hfox : lit "fox" ∈ words := by decide
    exact hfox

theorem totalOf_foxes {r : ℕ} (hr : r < 4) (n : ℕ) :
    totalOf (foxes r) (n + 1) = 4 * (n + 1) + r := by
  induction n with
  | zero =>
    have hcases : r = 0 ∨ r = 1 ∨ r = 2 ∨ r = 3 := by omega
    rcases hcases with rfl | rfl | rfl | rfl <;> decide
  | succ n ih =>
    have hfox : (foxes r (n + 1)).length = 3 := rfl
    rw [totalOf, ih, hfox]
    omega

/-- **The sizes that can be requested without getting a message that is too short.** -/
theorem forall_messageBounds_iff {minLen maxLen : ℕ} (hmin : 1 ≤ minLen) (hmax : minLen ≤ maxLen) :
    (∀ c : Choices minLen maxLen,
        minLen ≤ (randomMessage c).length ∧ (randomMessage c).length ≤ maxLen) ↔ minLen ≤ 3 := by
  constructor
  · intro h
    by_contra hlong
    obtain ⟨q, hq⟩ : ∃ q, minLen = 4 * (q + 1) + minLen % 4 := ⟨minLen / 4 - 1, by omega⟩
    have hr : minLen % 4 < 4 := Nat.mod_lt _ (by omega)
    have hlength := (h ⟨hmin, minLen, le_rfl, hmax, foxes (minLen % 4), foxes_mem _⟩).1
    refine (le_length_message_iff _).mp hlength ⟨rfl, q + 1, ?_⟩
    rw [totalOf_foxes hr]
    exact hq.symm
  · intro hshort c
    refine ⟨(le_length_message_iff c).mpr ?_, length_message_le c⟩
    rintro ⟨-, n, hn⟩
    cases n with
    | zero =>
      rw [totalOf] at hn
      omega
    | succ n =>
      have hword := (length_of_mem_words (c.word_mem n)).1
      rw [totalOf] at hn
      omega

/-- A message of four characters is asked for, and a fox is drawn. -/
def foxChoices : Choices 4 4 := ⟨by decide, 4, by decide, by decide, foxes 0, foxes_mem 0⟩

/-- **The message has three.** -/
theorem not_messageBounds_fox :
    ¬(4 ≤ (randomMessage foxChoices).length ∧ (randomMessage foxChoices).length ≤ 4) :=
  fun h ↦ (le_length_message_iff foxChoices).mp h.1 ⟨rfl, 1, by decide⟩

end LoadGen
end GroupChat
