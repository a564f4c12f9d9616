import GroupChat.App

/-!
# Does the room of a conversation identify it?

`_handle_private_message` files the messages of a conversation under `dm-`, the two lower-cased
names in order, and `__` between them.  Names may contain underscores, public rooms may be called
the same, and `_cache_put` keeps 24 characters of the name of a room.

* `pairNames a b` are the two names in order; they depend on nothing but who the two are
  (`pairNames_eq_iff`).
* `Recut`: two pairs of names that are written the same with `__` between them.  Together with equal
  pairs these are all that get one room (`pairRoom_eq_iff`).
* `Blurred n`: two pairs that are written the same as far as the first `n` characters; there is one
  alternative for each way in which the first names can be related.
* `PublicNames`: two names whose room could be a public one.
* `identifies_iff` puts this together for what is asked of the rooms of two conversations.
-/

set_option autoImplicit false

namespace GroupChat

open Transition

/-! ## Texts that agree as far as they are seen

Two concatenations are compared in their first characters.  Either the first parts are equal, or
one of them is longer and goes on with what the second part of the other one begins with. -/

/-- Two texts, each in two parts, agree in their first characters: either the first parts do, or one
of them is seen to its end, the other one goes on from there, and the rest agrees. -/
theorem take_append_eq_iff {α : Type*} {n : ℕ} {x s u t : List α} :
    (x ++ s).take n = (u ++ t).take n ↔
      (n ≤ x.length ∧ n ≤ u.length ∧ x.take n = u.take n) ∨
      (x.length < n ∧ ∃ r, u = x ++ r ∧
        s.take (n - x.length) = (r ++ t).take (n - x.length)) ∨
      (u.length < n ∧ ∃ r, x = u ++ r ∧
        t.take (n - u.length) = (r ++ s).take (n - u.length)) := by
  have hseen : ∀ {x s u t : List α}, x.length < n → x.length ≤ u.length →
      (x ++ s).take n = (u ++ t).take n →
        ∃ r, u = x ++ r ∧ s.take (n - x.length) = (r ++ t).take (n - x.length) := by
    intro x s u t hx hxu h
    have hhead := congrArg (List.take x.length) h
    rw [List.take_take, List.take_take, Nat.min_eq_left hx.le, List.take_append_of_le_length le_rfl,
      List.take_length, List.take_append_of_le_length hxu] at hhead
    obtain ⟨r, hr⟩ : ∃ r, u = x ++ r :=
      ⟨u.drop x.length, by rw [hhead, List.length_take, Nat.min_eq_left hxu, List.take_append_drop]⟩
    refine ⟨r, hr, ?_⟩
    have hsplit : ∀ l : List α, (x ++ l).take n = x ++ l.take (n - x.length) := fun l ↦ by
      rw [List.take_append, List.take_of_length_le hx.le]
    rw [hr, List.append_assoc, hsplit, hsplit] at h
    exact List.append_cancel_left h
  have hrest : ∀ {x s u t r : List α}, x.length < n → u = x ++ r →
      s.take (n - x.length) = (r ++ t).take (n - x.length) →
        (x ++ s).take n = (u ++ t).take n := by
    intro x s u t r hx hr h
    have hsplit : ∀ l : List α, (x ++ l).take n = x ++ l.take (n - x.length) := fun l ↦ by
      rw [List.take_append, List.take_of_length_le hx.le]
    rw [hr, List.append_assoc, hsplit, hsplit, h]
  constructor
  · intro h
    by_cases hx : n ≤ x.length
    · by_cases hu : n ≤ u.length
      · rw [List.take_append_of_le_length hx, List.take_append_of_le_length hu] at h
        exact Or.inl ⟨hx, hu, h⟩
      · exact Or.inr (Or.inr ⟨by omega, hseen (by omega) (by omega) h.symm⟩)
    · by_cases hxu : x.length ≤ u.length
      · exact Or.inr (Or.inl ⟨by omega, hseen (by omega) hxu h⟩)
      · exact Or.inr (Or.inr ⟨by omega, hseen (by omega) (by omega) h.symm⟩)
  · rintro (⟨hx, hu, h⟩ | ⟨hx, r, hr, h⟩ | ⟨hu, r, hr, h⟩)
    · rw [List.take_append_of_le_length hx, List.take_append_of_le_length hu, h]
    · exact hrest hx hr h
    · exact (hrest hu hr h).symm

/-! ## Names in order

The names of a conversation are sorted, so that the room does not depend on who writes to whom. -/

namespace Node

theorem strLe_total (s t : Str) (h : strLe s t = false) : strLe t s = true := by
  induction s generalizing t with
  | nil => simp [strLe] at h
  | cons a s ih =>
    cases t with
    | nil => rfl
    | cons b t =>
      simp only [strLe, Bool.or_eq_false_iff, decide_eq_false_iff_not, Bool.and_eq_false_iff,
        beq_eq_false_iff_ne] at h
      simp only [strLe, Bool.or_eq_true, decide_eq_true_eq, Bool.and_eq_true, beq_iff_eq]
      rcases h.2 with hne | hs
      · exact Or.inl (by omega)
      · rcases Nat.lt_or_ge b a with hlt | hge
        · exact Or.inl hlt
        · exact Or.inr ⟨by omega, ih t hs⟩

theorem strLe_antisymm {s t : Str} (h : strLe s t = true) (h' : strLe t s = true) : s = t := by
  induction s generalizing t with
  | nil =>
    cases t with
    | nil => rfl
    | cons b t => simp [strLe] at h'
  | cons a s ih =>
    cases t with
    | nil => simp [strLe] at h
    | cons b t =>
      simp only [strLe, Bool.or_eq_true, decide_eq_true_eq, Bool.and_eq_true, beq_iff_eq] at h h'
      obtain rfl : a = b := by omega
      rw [ih (h.resolve_left (lt_irrefl a)).2 (h'.resolve_left (lt_irrefl a)).2]

end Node

/-- The two names of a conversation, lower-cased and in order. -/
def pairNames (L : PyLib) (a b : Str) : Str × Str :=
  if Node.strLe (L.lower a) (L.lower b) then (L.lower a, L.lower b) else (L.lower b, L.lower a)

/-- The two pairs of names are the same but for their order and their case. -/
def SamePair (L : PyLib) (a b c d : Str) : Prop :=
  (L.lower a = L.lower c ∧ L.lower b = L.lower d) ∨ (L.lower a = L.lower d ∧ L.lower b = L.lower c)

section Names

variable {L : PyLib} {a b c d : Str}

theorem pairNames_cases (L : PyLib) (a b : Str) :
    pairNames L a b = (L.lower a, L.lower b) ∨ pairNames L a b = (L.lower b, L.lower a) := by
  rw [pairNames]
  split
  · exact Or.inl rfl
  · exact Or.inr rfl

theorem strLe_pairNames (L : PyLib) (a b : Str) :
    Node.strLe (pairNames L a b).1 (pairNames L a b).2 = true := by
  rw [pairNames]
  split
  · assumption
  · rename_i h
    exact Node.strLe_total _ _ (by simpa using h)

/-- Two names have one order only. -/
theorem pairNames_comm (L : PyLib) (a b : Str) : pairNames L a b = pairNames L b a := by
  have hab := strLe_pairNames L a b
  have hba := strLe_pairNames L b a
  rcases pairNames_cases L a b with h | h <;> rcases pairNames_cases L b a with h' | h'
  · rw [h] at hab
    rw [h'] at hba
    have heq : L.lower a = L.lower b := Node.strLe_antisymm hab hba
    rw [h, h', heq]
  · rw [h, h']
  · rw [h, h']
  · rw [h] at hab
    rw [h'] at hba
    have heq : L.lower b = L.lower a := Node.strLe_antisymm hab hba
    rw [h, h', heq]

theorem pairNames_eq_iff : pairNames L a b = pairNames L c d ↔ SamePair L a b c d := by
  constructor
  · intro h
    rcases pairNames_cases L a b with hab | hab <;> rcases pairNames_cases L c d with hcd | hcd
    · exact Or.inl (Prod.mk.inj (hab.symm.trans (h.trans hcd)))
    · exact Or.inr (Prod.mk.inj (hab.symm.trans (h.trans hcd)))
    · exact Or.inr (Prod.mk.inj (hab.symm.trans (h.trans hcd))).symm
    · exact Or.inl (Prod.mk.inj (hab.symm.trans (h.trans hcd))).symm
  · rintro (⟨hac, hbd⟩ | ⟨had, hbc⟩)
    · rw [pairNames, pairNames, hac, hbd]
    · rw [pairNames_comm L c d, pairNames, pairNames, had, hbc]

end Names

/-! ## Rooms

The two underscores between the names may also be read as a part of one of the names, which is
what `Recut` is about.  Names that are cut off in the cache make `Blurred`. -/

/-- What stands between the names. -/
def underscores : Str := [95, 95]

/-- The pair `(u, v)` is written like `(x, y)`: the separator behind `x` is within `u`. -/
def Recut (x y u v : Str) : Prop :=
  (u = x ++ [95] ∧ y = 95 :: v) ∨ ∃ w, u = x ++ underscores ++ w ∧ y = w ++ underscores ++ v

/-- `u` goes on where `x` ends, and what follows `x` in its pair reads the same, as far as it is
seen. -/
def ReadsOn (n : ℕ) (x y u v : Str) : Prop :=
  x.length < n ∧ ∃ r, u = x ++ r ∧
    (underscores ++ y).take (n - x.length) = (r ++ (underscores ++ v)).take (n - x.length)

/-- Two pairs are written the same in the first `n` characters. -/
def Blurred (n : ℕ) (x y u v : Str) : Prop :=
  (n ≤ x.length ∧ n ≤ u.length ∧ x.take n = u.take n) ∨ ReadsOn n x y u v ∨ ReadsOn n u v x y

/-- Two names that could be a part of the name of a public room, which a newline may follow. -/
def PublicNames (x y : Str) : Prop :=
  ∃ y', (y = y' ∨ y = y' ++ [10]) ∧ x.all isRoomChar = true ∧ y'.all isRoomChar = true ∧
    x.length + y'.length ≤ 19

/-! ## When two rooms are the same

Two names with the separator between them are compared with two others.  If the first names differ
then one of them is longer, and the separator behind the shorter one lies within it or next to its
end. -/

theorem joined_eq_iff {x y u v : Str} :
    x ++ (underscores ++ y) = u ++ (underscores ++ v) ↔
      (x = u ∧ y = v) ∨ Recut x y u v ∨ Recut u v x y := by
  have hrecut : ∀ {x y u v r : Str}, u = x ++ r → underscores ++ y = r ++ (underscores ++ v) →
      (x = u ∧ y = v) ∨ Recut x y u v := by
    intro x y u v r hu h
    rcases r with _ | ⟨c, _ | ⟨d, w⟩⟩
    · exact Or.inl ⟨by rw [hu, List.append_nil], List.append_cancel_left h⟩
    · simp only [underscores, List.cons_append, List.nil_append, List.cons.injEq] at h
      obtain ⟨rfl, -, rfl⟩ := h
      exact Or.inr (Or.inl ⟨hu, rfl⟩)
    · simp only [underscores, List.cons_append, List.nil_append, List.cons.injEq] at h
      obtain ⟨rfl, rfl, rfl⟩ := h
      exact Or.inr (Or.inr ⟨w, by simp [hu, underscores], by simp [underscores]⟩)
  have hjoined : ∀ {x y u v : Str}, Recut x y u v →
      x ++ (underscores ++ y) = u ++ (underscores ++ v) := by
    rintro x y u v (⟨rfl, rfl⟩ | ⟨w, rfl, rfl⟩) <;> simp [underscores]
  rw [List.append_eq_append_iff]
  constructor
  · rintro (⟨r, hu, h⟩ | ⟨r, hx, h⟩)
    · exact (hrecut hu h).imp_right Or.inl
    · rcases hrecut hx h with ⟨hux, hvy⟩ | h
      · exact Or.inl ⟨hux.symm, hvy.symm⟩
      · exact Or.inr (Or.inr h)
  · intro h
    rw [← List.append_eq_append_iff]
    rcases h with ⟨rfl, rfl⟩ | h | h
    · rfl
    · exact hjoined h
    · exact (hjoined h).symm

variable {env : Env} {a b c d : Str}

theorem pairRoom_eq (env : Env) (a b : Str) :
    Node.pairRoom env a b =
      lit "dm-" ++ ((pairNames env.lib a b).1 ++ (underscores ++ (pairNames env.lib a b).2)) := by
  rw [Node.pairRoom, pairNames]
  simp only [List.append_assoc]
  rfl

/-- **The conversations that get one room.** -/
theorem pairRoom_eq_iff :
    Node.pairRoom env a b = Node.pairRoom env c d ↔
      SamePair env.lib a b c d ∨
        Recut (pairNames env.lib a b).1 (pairNames env.lib a b).2 (pairNames env.lib c d).1
          (pairNames env.lib c d).2 ∨
        Recut (pairNames env.lib c d).1 (pairNames env.lib c d).2 (pairNames env.lib a b).1
          (pairNames env.lib a b).2 := by
  rw [pairRoom_eq, pairRoom_eq, List.append_right_inj, joined_eq_iff, ← pairNames_eq_iff,
    Prod.ext_iff]

/-- **The conversations whose messages are filed under one room.** -/
theorem compactRoom_pairRoom_eq_iff (msg msg' : Obj) :
    compactRoom env.lib (.str (Node.pairRoom env a b)) msg =
        compactRoom env.lib (.str (Node.pairRoom env c d)) msg' ↔
      Blurred 21 (pairNames env.lib a b).1 (pairNames env.lib a b).2 (pairNames env.lib c d).1
        (pairNames env.lib c d).2 := by
  have hstored : ∀ (a b : Str) (msg : Obj),
      compactRoom env.lib (.str (Node.pairRoom env a b)) msg =
        lit "dm-" ++ ((pairNames env.lib a b).1 ++
          (underscores ++ (pairNames env.lib a b).2)).take 21 := by
    intro a b msg
    rw [pairRoom_eq]
    rfl
  rw [hstored, hstored, List.append_right_inj, take_append_eq_iff]
  rfl

/-- **The conversations whose room could be a public one.** -/
theorem isValidRoomName_pairRoom_iff :
    isValidRoomName (.str (Node.pairRoom env a b)) = true ↔
      PublicNames (pairNames env.lib a b).1 (pairNames env.lib a b).2 := by
  have hword : ∀ x y : Str, isRoomWord (lit "dm-" ++ (x ++ (underscores ++ y))) = true ↔
      x.all isRoomChar = true ∧ y.all isRoomChar = true ∧ x.length + y.length ≤ 19 := by
    intro x y
    have hdm : (lit "dm-").all isRoomChar = true ∧ (lit "dm-").length = 3 := by decide
    have hsep : underscores.all isRoomChar = true ∧ underscores.length = 2 := by decide
    simp only [isRoomWord, List.all_append, List.length_append, hdm, hsep, Bool.true_and,
      Bool.and_eq_true, decide_eq_true_eq]
    constructor
    · rintro ⟨⟨-, hlen⟩, hx, hy⟩
      exact ⟨hx, hy, by omega⟩
    · rintro ⟨hx, hy, hlen⟩
      exact ⟨⟨by omega, by omega⟩, hx, hy⟩
  have hsnoc : ∀ (x y : Str) (c : ℕ), lit "dm-" ++ (x ++ (underscores ++ (y ++ [c]))) =
      lit "dm-" ++ (x ++ (underscores ++ y)) ++ [c] := by
    intro x y c
    simp only [List.append_assoc]
  rw [pairRoom_eq]
  generalize (pairNames env.lib a b).1 = x
  generalize (pairNames env.lib a b).2 = y
  simp only [isValidRoomName, Bool.or_eq_true, Bool.and_eq_true, beq_iff_eq, hword, PublicNames]
  constructor
  · rintro (⟨hx, hy, hlen⟩ | ⟨hlast, h⟩)
    · exact ⟨y, Or.inl rfl, hx, hy, hlen⟩
    · rcases List.eq_nil_or_concat y with rfl | ⟨y', c, hy⟩
      · exact absurd hlast (by simp [underscores])
      · rw [List.concat_eq_append] at hy
        rw [hy, hsnoc, List.getLast?_concat] at hlast
        obtain rfl : c = 10 := Option.some.inj hlast
        rw [hy, hsnoc, List.dropLast_concat, hword] at h
        exact ⟨y', Or.inr hy, h⟩
  · rintro ⟨y', rfl | rfl, h⟩
    · exact Or.inl h
    · rw [hsnoc, List.getLast?_concat, List.dropLast_concat]
      exact Or.inr ⟨rfl, (hword x y').mpr h⟩

/-! ## What the rooms of two conversations tell

Three things are asked: that other conversations have other rooms, that they are filed under other
rooms, and that no public room has the same name. -/

/-- The room of a conversation identifies it, as far as the conversation of `a` with `b` and that of
`c` with `d` are concerned. -/
structure Identifies (env : Env) (a b c d : Str) : Prop where
  room : Node.pairRoom env a b = Node.pairRoom env c d ↔ SamePair env.lib a b c d
  /-- The same of the rooms under which messages are cached. -/
  stored : ∀ msg msg' : Obj,
    compactRoom env.lib (.str (Node.pairRoom env a b)) msg =
      compactRoom env.lib (.str (Node.pairRoom env c d)) msg' ↔ SamePair env.lib a b c d
  /-- No public room is called the same. -/
  apart : ∀ name : Str, isValidRoomName (.str name) = true →
    name ≠ Node.pairRoom env a b ∧ name ≠ Node.pairRoom env c d

/-- The cached room is a part of the room. -/
theorem blurred_of_pairRoom_eq (h : Node.pairRoom env a b = Node.pairRoom env c d) :
    Blurred 21 (pairNames env.lib a b).1 (pairNames env.lib a b).2 (pairNames env.lib c d).1
      (pairNames env.lib c d).2 := by
  rw [← compactRoom_pairRoom_eq_iff [] [], h]

theorem pairRoom_eq_of_samePair (h : SamePair env.lib a b c d) :
    Node.pairRoom env a b = Node.pairRoom env c d :=
  pairRoom_eq_iff.mpr (Or.inl h)

/-- **When rooms identify conversations.**  Either the two conversations are one, or they are told
apart by the 21 characters behind `dm-`; and neither of them is between two names that make up the
name of a public room. -/
theorem identifies_iff :
    Identifies env a b c d ↔
      (SamePair env.lib a b c d ∨
        ¬Blurred 21 (pairNames env.lib a b).1 (pairNames env.lib a b).2 (pairNames env.lib c d).1
          (pairNames env.lib c d).2) ∧
      ¬PublicNames (pairNames env.lib a b).1 (pairNames env.lib a b).2 ∧
      ¬PublicNames (pairNames env.lib c d).1 (pairNames env.lib c d).2 := by
  constructor
  · intro h
    refine ⟨?_, ?_, ?_⟩
    · by_cases hblur : Blurred 21 (pairNames env.lib a b).1 (pairNames env.lib a b).2
        (pairNames env.lib c d).1 (pairNames env.lib c d).2
      · exact Or.inl ((h.stored [] []).mp ((compactRoom_pairRoom_eq_iff [] []).mpr hblur))
      · exact Or.inr hblur
    · intro hpublic
      exact (h.apart _ (isValidRoomName_pairRoom_iff.mpr hpublic)).1 rfl
    · intro hpublic
      exact (h.apart _ (isValidRoomName_pairRoom_iff.mpr hpublic)).2 rfl
  · rintro ⟨hpairs, hab, hcd⟩
    have hsame : Blurred 21 (pairNames env.lib a b).1 (pairNames env.lib a b).2
        (pairNames env.lib c d).1 (pairNames env.lib c d).2 → SamePair env.lib a b c d :=
      fun hblur ↦ hpairs.resolve_right fun hnot ↦ hnot hblur
    refine ⟨⟨fun h ↦ hsame (blurred_of_pairRoom_eq h), pairRoom_eq_of_samePair⟩,
      fun msg msg' ↦ ?_, fun name hname ↦ ⟨?_, ?_⟩⟩
    · rw [compactRoom_pairRoom_eq_iff]
      exact ⟨hsame, fun h ↦ blurred_of_pairRoom_eq (pairRoom_eq_of_samePair h)⟩
    · rintro rfl
      exact hab (isValidRoomName_pairRoom_iff.mp hname)
    · rintro rfl
      exact hcd (isValidRoomName_pairRoom_iff.mp hname)

/-- Four clients join whose names can be cut in two ways. -/
def recutRun : List Node.Event :=
  [.connect (lit "1") [] 0, Node.joinFrame (lit "1") (lit "a"),
    .connect (lit "2") [] 0, Node.joinFrame (lit "2") (lit "b__c"),
    .connect (lit "3") [] 0, Node.joinFrame (lit "3") (lit "a__b"),
    .connect (lit "4") [] 0, Node.joinFrame (lit "4") (lit "c")]

/-- **The conversation of `a` with `b__c` and that of `a__b` with `c` have one room**, and a public
room may have that name, too. -/
theorem not_identifies_recut : ∃ n, (Node.system plainEnv).Reachable n ∧
    n.usernameToId.keys = [lit "a", lit "b__c", lit "a__b", lit "c"] ∧
    ¬SamePair plainEnv.lib (lit "a") (lit "b__c") (lit "a__b") (lit "c") ∧
    Node.pairRoom plainEnv (lit "a") (lit "b__c") = Node.pairRoom plainEnv (lit "a__b") (lit "c") ∧
    isValidRoomName (.str (Node.pairRoom plainEnv (lit "a") (lit "b__c"))) = true ∧
    ¬Identifies plainEnv (lit "a") (lit "b__c") (lit "a__b") (lit "c") := by
  have hrun : (System.exec (Node.step plainEnv) (Node.initial plainEnv) recutRun).map
      (fun n ↦ n.usernameToId.keys) = some [lit "a", lit "b__c", lit "a__b", lit "c"] := by
    decide +kernel
  obtain ⟨n, hn, hkeys⟩ := Option.map_eq_some_iff.mp hrun
  have hother : ¬SamePair plainEnv.lib (lit "a") (lit "b__c") (lit "a__b") (lit "c") := by
    simp only [SamePair]
    decide
  have hroom : Node.pairRoom plainEnv (lit "a") (lit "b__c") =
      Node.pairRoom plainEnv (lit "a__b") (lit "c") := by
    decide +kernel
  have hpublic : isValidRoomName (.str (Node.pairRoom plainEnv (lit "a") (lit "b__c"))) = true := by
    decide +kernel
  exact ⟨n, System.reachable_of_exec rfl hn, hkeys, hother, hroom, hpublic,
    fun h ↦ hother (h.room.mp hroom)⟩

end GroupChat
