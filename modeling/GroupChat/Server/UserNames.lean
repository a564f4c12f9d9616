import GroupChat.App
import GroupChat.Py.Utf8

/-!
# The names that are given to those who join

`_unique_username` tries the name that is asked for, and then `base(1)`, `base(2)` and so on, until
it comes to one whose lowercase form is not registered.

* `usernameLoop` is the loop, with a bound on the number of candidates that it tries.
* `LowersCharwise`: the lowercase form of a text is put together from those of its characters.  The
  candidates then have different lowercase forms (`lower_usernameCandidate_injective`), so that they
  cannot all be registered (`exists_free`).
* `FindsName` is what the loop is there for.  It always finds a name (`exists_findsName`), so that
  the handler of a join never gets stuck in it (`Node.isSome_handleJoin`).  The name may be longer
  than a name should be: `findsName_short_iff`.
-/

set_option autoImplicit false

namespace GroupChat

open Transition

/-- The loop of `_unique_username`, for so many candidates. -/
def usernameLoop (L : PyLib) (taken : List Str) (base : Str) : ℕ → Str → ℕ → Option Str
  | 0, _, _ => none
  | tries + 1, final, n =>
    if L.lower final ∈ taken then
      usernameLoop L taken base tries (base ++ lit "(" ++ intStr n ++ lit ")") (n + 1)
    else some final

/-- `lower` works character by character, and leaves digits and parentheses as they are. -/
def LowersCharwise (L : PyLib) : Prop :=
  ∃ f : ℕ → Str, (∀ s, L.lower s = s.flatMap f) ∧ ∀ c, 40 ≤ c → c ≤ 57 → f c = [c]

/-- What `_unique_username` is to return: the loop ends, after one more candidate than there are
names at the latest, with a name that is free, and with the one that was asked for if that is. -/
structure FindsName (L : PyLib) (taken : List Str) (requested name : Str) : Prop where
  ends : ∀ tries, taken.length < tries →
    usernameLoop L taken requested tries requested 1 = some name
  fresh : L.lower name ∉ taken
  kept : L.lower requested ∉ taken → name = requested

section Names

variable {L : PyLib} {taken : List Str} {requested name : Str}

/-! ## Candidates

Two candidates with different numbers have different lowercase forms, so of one more candidates
than there are names one must be free. -/

/-- The loop tries one candidate after the other. -/
theorem usernameLoop_eq_find? (L : PyLib) (taken : List Str) (base : Str) (tries i : ℕ) :
    usernameLoop L taken base tries (usernameCandidate base i) (i + 1) =
      ((List.range' i tries).map (usernameCandidate base)).find? fun u ↦
        decide (L.lower u ∉ taken) := by
  induction tries generalizing i with
  | zero => rfl
  | succ tries ih =>
    rw [usernameLoop, List.range'_succ, List.map_cons, List.find?_cons]
    by_cases hmem : L.lower (usernameCandidate base i) ∈ taken
    · have hnext : base ++ lit "(" ++ intStr ((i + 1 : ℕ) : ℤ) ++ lit ")" =
          usernameCandidate base (i + 1) := by
        rw [usernameCandidate, Nat.cast_add, Nat.cast_one]
      rw [if_pos hmem, hnext, ih]
      simp [hmem]
    · rw [if_neg hmem]
      simp [hmem]

/-- `uniqueUsername` is the loop. -/
theorem uniqueUsername_eq_usernameLoop (L : PyLib) (taken : List Str) (requested : Str) :
    uniqueUsername L taken requested =
      usernameLoop L taken requested (taken.length + 1) requested 1 := by
  rw [uniqueUsername, List.range_eq_range']
  exact (usernameLoop_eq_find? L taken requested (taken.length + 1) 0).symm

theorem lower_usernameCandidate (hL : LowersCharwise L) (requested : Str) (k : ℕ) :
    L.lower (usernameCandidate requested (k + 1)) =
      L.lower requested ++ 40 :: (intStr (k + 1) ++ [41]) := by
  obtain ⟨f, hlower, hplain⟩ := hL
  have hdigits : (intStr (k + 1)).flatMap f = intStr (k + 1) := by
    have hchar : ∀ c ∈ intStr (k + 1), f c = [c] := by
      intro c hc
      have := mem_intStr hc
      exact hplain c (by omega) (by omega)
    rw [List.flatMap_congr hchar, List.flatMap_singleton']
  have hopen : (lit "(").flatMap f = [40] := by
    rw [show lit "(" = [40] from rfl, List.flatMap_singleton, hplain 40 (by omega) (by omega)]
  have hclose : (lit ")").flatMap f = [41] := by
    rw [show lit ")" = [41] from rfl, List.flatMap_singleton, hplain 41 (by omega) (by omega)]
  rw [hlower, hlower, usernameCandidate, List.flatMap_append, List.flatMap_append,
    List.flatMap_append, hdigits, hopen, hclose, List.append_assoc, List.append_assoc,
    List.singleton_append]

/-- **The candidates are different users.** -/
theorem lower_usernameCandidate_injective (hL : LowersCharwise L) (requested : Str) :
    Function.Injective fun k ↦ L.lower (usernameCandidate requested k) := by
  have hne : ∀ k, L.lower (usernameCandidate requested (k + 1)) ≠ L.lower requested := by
    intro k h
    rw [lower_usernameCandidate hL] at h
    have hlen := congrArg List.length h
    simp only [List.length_append, List.length_cons] at hlen
    omega
  intro k l h
  cases k with
  | zero =>
    cases l with
    | zero => rfl
    | succ l => exact absurd h.symm (hne l)
  | succ k =>
    cases l with
    | zero => exact absurd h (hne k)
    | succ l =>
      simp only [lower_usernameCandidate hL, List.append_cancel_left_eq, List.cons.injEq,
        true_and, List.append_cancel_right_eq] at h
      have := intStr_injective h
      omega

/-- **One of the candidates is free.** -/
theorem exists_free (hL : LowersCharwise L) (taken : List Str) (requested : Str) :
    ∃ k ≤ taken.length, L.lower (usernameCandidate requested k) ∉ taken := by
  by_contra! hall
  have hsub : (Finset.range (taken.length + 1)).image
      (fun k ↦ L.lower (usernameCandidate requested k)) ⊆ taken.toFinset := by
    intro name hname
    obtain ⟨k, hk, rfl⟩ := Finset.mem_image.mp hname
    exact List.mem_toFinset.mpr (hall k (by simpa [Nat.lt_succ_iff] using hk))
  have hcard := Finset.card_le_card hsub
  rw [Finset.card_image_of_injective _ (lower_usernameCandidate_injective hL requested),
    Finset.card_range] at hcard
  have hlen := taken.toFinset_card_le
  omega

/-! ## Lengths

The number of a candidate is at most the number of names in use, and its digits are as many as
those of that number at most. -/

theorem length_intStr_le {m n : ℕ} (h : m ≤ n) : (intStr m).length ≤ (intStr n).length := by
  have hdigits : ∀ k : ℕ, (intStr k).length = (Nat.toDigits 10 k).length := by
    intro k
    have htext : intStr k = lit (Nat.repr k) := rfl
    rw [htext, lit, List.length_map, Nat.toList_repr]
  rw [hdigits, hdigits, Nat.length_toDigits_le_iff (by omega) Nat.length_toDigits_pos]
  have hn : n < 10 ^ (Nat.toDigits 10 n).length :=
    (Nat.length_toDigits_le_iff (by omega) Nat.length_toDigits_pos).mp le_rfl
  omega

/-- Later candidates are not shorter. -/
theorem length_usernameCandidate_le (requested : Str) {k l : ℕ} (h : k ≤ l) :
    (usernameCandidate requested k).length ≤ (usernameCandidate requested l).length := by
  have hlen : ∀ k : ℕ, (usernameCandidate requested (k + 1)).length =
      requested.length + (intStr ((k + 1 : ℕ) : ℤ)).length + 2 := by
    intro k
    rw [usernameCandidate, Nat.cast_add, Nat.cast_one]
    have hparens : (lit "(").length = 1 ∧ (lit ")").length = 1 := by decide
    simp only [List.length_append, hparens]
    omega
  cases l with
  | zero => rw [Nat.le_zero.mp h]
  | succ l =>
    cases k with
    | zero =>
      rw [hlen, usernameCandidate]
      omega
    | succ k =>
      have hdigits := length_intStr_le h
      rw [hlen, hlen]
      omega

/-! ## What is found

The name is free, and it is the first free candidate.  Whether it is short enough depends on how
many candidates were taken. -/

/-- The loop finds the first candidate that is free. -/
theorem exists_findsName (hL : LowersCharwise L) (taken : List Str) (requested : Str) :
    ∃ k ≤ taken.length, FindsName L taken requested (usernameCandidate requested k) ∧
      ∀ j < k, L.lower (usernameCandidate requested j) ∈ taken := by
  have hexists : ∃ k, L.lower (usernameCandidate requested k) ∉ taken := by
    obtain ⟨k, -, hk⟩ := exists_free hL taken requested
    exact ⟨k, hk⟩
  have hfirst : ∀ j < Nat.find hexists, L.lower (usernameCandidate requested j) ∈ taken :=
    fun j hj ↦ not_not.mp (Nat.find_min hexists hj)
  have hle : Nat.find hexists ≤ taken.length := by
    obtain ⟨k, hk, hfree⟩ := exists_free hL taken requested
    exact (Nat.find_min' hexists hfree).trans hk
  refine ⟨Nat.find hexists, hle, ⟨fun tries htries ↦ ?_, Nat.find_spec hexists, fun hfree ↦ ?_⟩,
    hfirst⟩
  · have hloop := usernameLoop_eq_find? L taken requested tries 0
    rw [usernameCandidate] at hloop
    rw [hloop, ← List.range_eq_range', List.find?_map, Option.map_eq_some_iff]
    refine ⟨_, List.find?_range_eq_some.mpr ⟨?_, ?_, ?_⟩, rfl⟩
    · simpa using Nat.find_spec hexists
    · exact List.mem_range.mpr (by omega)
    · intro j hj
      simpa using hfirst j hj
  · rw [(Nat.find_eq_zero hexists).mpr hfree]
    rfl

theorem FindsName.unique {name' : Str} (h : FindsName L taken requested name)
    (h' : FindsName L taken requested name') : name = name' :=
  Option.some.inj ((h.ends (taken.length + 1) (by omega)).symm.trans
    (h'.ends (taken.length + 1) (by omega)))

/-- How long the name can get. -/
theorem FindsName.length_le (hL : LowersCharwise L) (h : FindsName L taken requested name) :
    name.length ≤ (usernameCandidate requested taken.length).length := by
  obtain ⟨k, hk, hfinds, -⟩ := exists_findsName hL taken requested
  rw [h.unique hfinds]
  exact length_usernameCandidate_le requested hk

/-- **When the name that is found is short enough.**  A name is found in any case; it has no more
characters than a name should have if there is a candidate like this that is free. -/
theorem findsName_short_iff (hL : LowersCharwise L) (taken : List Str) (requested : Str) :
    (∃ name, FindsName L taken requested name) ∧
      ((∃ name, FindsName L taken requested name ∧ name.length ≤ maxUsernameLen) ↔
        ∃ k, L.lower (usernameCandidate requested k) ∉ taken ∧
          (usernameCandidate requested k).length ≤ maxUsernameLen) := by
  obtain ⟨k, -, hfinds, hbefore⟩ := exists_findsName hL taken requested
  refine ⟨⟨_, hfinds⟩, ?_⟩
  constructor
  · rintro ⟨name, hname, hshort⟩
    rw [hname.unique hfinds] at hshort
    exact ⟨k, hfinds.fresh, hshort⟩
  · rintro ⟨l, hfree, hshort⟩
    have hkl : k ≤ l := by
      by_contra hlt
      exact hfree (hbefore l (by omega))
    exact ⟨_, hfinds, (length_usernameCandidate_le requested hkl).trans hshort⟩

end Names

/-- Who joins gets a name. -/
theorem Node.isSome_handleJoin {env : Env} (hL : LowersCharwise env.lib) (n : Node) (c : Client)
    (data : Obj) : (n.handleJoin env c data).isSome = true := by
  rw [Node.handleJoin]
  split_ifs
  · rfl
  · obtain ⟨k, -, hfinds, -⟩ :=
      exists_findsName hL n.usernameToId.keys (requestedName env c data)
    rw [uniqueUsername_eq_usernameLoop, hfinds.ends _ (Nat.lt_succ_self _)]
    rfl

/-- The tables for runs lower character by character. -/
theorem lowersCharwise_asciiLib : LowersCharwise asciiLib := by
  refine ⟨fun c ↦ [if 65 ≤ c ∧ c ≤ 90 then c + 32 else c], fun s ↦ ?_, fun c _ hc ↦ ?_⟩
  · rw [← List.map_eq_flatMap]
    rfl
  · have hcase : ¬(65 ≤ c ∧ c ≤ 90) := by omega
    simp only [if_neg hcase]

/-- Who asks for `Bob` when there is a `bob` finds another name that is short enough. -/
theorem findsName_short_bob :
    ∃ name, FindsName asciiLib [lit "bob"] (lit "Bob") name ∧ name.length ≤ maxUsernameLen := by
  refine (findsName_short_iff lowersCharwise_asciiLib [lit "bob"] (lit "Bob")).2.mpr ⟨1, ?_, ?_⟩
  · decide +kernel
  · decide +kernel

/-- A name as long as a name can be. -/
def longName : Str := List.replicate maxUsernameLen 97

/-- Two clients ask for it. -/
def longRun : List Node.Event :=
  [.connect (lit "1") [] 0, Node.joinFrame (lit "1") longName,
    .connect (lit "2") [] 0, Node.joinFrame (lit "2") longName]

/-- **The second client gets a name of 103 characters.** -/
theorem not_findsName_short_long :
    (¬∃ name, FindsName asciiLib [longName] longName name ∧ name.length ≤ maxUsernameLen) ∧
      ∃ n, (Node.system plainEnv).Reachable n ∧ ∃ c ∈ n.clientsById.get? (lit "2"),
        ∃ name, c.username = some name ∧ name.length = maxUsernameLen + 3 := by
  constructor
  · rintro ⟨name, hfinds, hshort⟩
    have hloop : (usernameLoop asciiLib [longName] longName 2 longName 1).map List.length =
        some (maxUsernameLen + 3) := by
      decide +kernel
    rw [hfinds.ends 2 (by simp), Option.map_some, Option.some.injEq] at hloop
    omega
  · have hrun : (System.exec (Node.step plainEnv) (Node.initial plainEnv) longRun).map (fun n ↦
        (n.clientsById.get? (lit "2")).map fun c ↦ c.username.map List.length) =
        some (some (some (maxUsernameLen + 3))) := by
      decide +kernel
    obtain ⟨n, hn, hclient⟩ := Option.map_eq_some_iff.mp hrun
    obtain ⟨c, hc, hname⟩ := Option.map_eq_some_iff.mp hclient
    obtain ⟨name, hname, hlen⟩ := Option.map_eq_some_iff.mp hname
    exact ⟨n, System.reachable_of_exec rfl hn, c, hc, name, hname, hlen⟩

end GroupChat
