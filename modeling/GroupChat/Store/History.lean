import GroupChat.Store.Documents

/-!
# Histories of rooms, and their order

What `_cache_get` returns, in terms of everything that was ever put.

* `submitted` are the messages of a sequence of calls of `_cache_put`, each with the room it was
  given, and with only the first of those that share an id.  As long as they fit into the cache,
  the cache holds exactly them (`runPuts_eq_submitted`).
* `historyAfter_eq`: the history of a room are the last of the messages whose room, cut to 24
  characters, it is; the history of `general` are the last of all.  So `exactHistory_iff`: the
  histories of a room have its messages and no others if and only if no message is filed under
  somebody else's name (`KeptApart`).
* `Feed.chronological_iff`: the lists are ordered by time in all states of a run if and only if no
  put of the run is older than the newest entry that it finds.

Below its capacity the cache has forgotten nothing, and a statement about histories is one about
the list of what was submitted.  At capacity the cache is a window on what was added
(`FeedCache.globalMsgCache_calls`), and an id that has been forgotten can come in again.  The
exact histories are about the first case; runs that go on for as long as they like need the second
one, with `FeedCache.Retains` for the entries that came in last.
-/

set_option autoImplicit false

namespace GroupChat

open Transition Window

/-! ## What was submitted

A call is the submission of a message for a room, and the first submission of an id counts.  As
long as the cache is not full it has forgotten nothing, so it holds what was submitted. -/

/-- The room that a call gives its message. -/
def PutCall.room (L : PyLib) (p : PutCall) : Str :=
  ((p.roomId.or (p.msg.get "room")).or (.str general)).toStr L

/-- The entry that a call makes of its message. -/
def PutCall.entry? (L : PyLib) (p : PutCall) : Option Entry :=
  match compactMsg L p.now p.roomId p.msg with
  | .ok o => o
  | .error _ => none

/-- One more message with its room, unless its id has been there before. -/
def addSubmitted (ms : List (Str × Entry)) (room : Str) (e : Entry) : List (Str × Entry) :=
  if e.key ∈ ms.map (·.2.key) then ms else ms ++ [(room, e)]

/-- The messages that a sequence of calls submits, with their rooms. -/
def submitted (L : PyLib) (calls : List PutCall) : List (Str × Entry) :=
  calls.foldl (fun ms p ↦ (p.entry? L).elim ms (addSubmitted ms (p.room L))) []

section Submitted

variable {L : PyLib} {calls : List PutCall}

theorem submitted_concat (L : PyLib) (calls : List PutCall) (p : PutCall) :
    submitted L (calls ++ [p]) =
      (p.entry? L).elim (submitted L calls) (addSubmitted (submitted L calls) (p.room L)) := by
  rw [submitted, submitted, List.foldl_append]
  rfl

theorem runPuts_concat (L : PyLib) (calls : List PutCall) (p : PutCall) :
    runPuts L (calls ++ [p]) = (p.entry? L).elim (runPuts L calls) (runPuts L calls).insert := by
  rw [runPuts, runPuts, List.foldl_append, List.foldl_cons, List.foldl_nil, FeedCache.call,
    FeedCache.cachePut, PutCall.entry?]
  cases compactMsg L p.now p.roomId p.msg with
  | error e => rfl
  | ok o => cases o <;> rfl

theorem length_le_submitted_concat (L : PyLib) (calls : List PutCall) (p : PutCall) :
    (submitted L calls).length ≤ (submitted L (calls ++ [p])).length := by
  rw [submitted_concat]
  cases p.entry? L with
  | none => exact le_rfl
  | some e =>
    rw [Option.elim_some, addSubmitted]
    split
    · exact le_rfl
    · simp

/-- **Below capacity nothing gets lost.** -/
theorem runPuts_eq_submitted (h : (submitted L calls).length ≤ msgCacheSize) :
    (runPuts L calls).globalMsgCache = (submitted L calls).map Prod.snd ∧
      (runPuts L calls).globalMsgIds = ((submitted L calls).map (·.2.key)).toFinset := by
  -- the two sides take each call alike; the set is never rebuilt, since it has no more elements
  -- than there are messages
  induction calls using List.reverseRecOn with
  | nil => exact ⟨rfl, rfl⟩
  | append_singleton calls p ih =>
    obtain ⟨hcache, hids⟩ := ih ((length_le_submitted_concat L calls p).trans h)
    rw [submitted_concat] at h ⊢
    rw [runPuts_concat]
    cases hp : p.entry? L with
    | none => exact ⟨hcache, hids⟩
    | some e =>
      simp only [hp, Option.elim_some, addSubmitted] at h ⊢
      by_cases hmem : e.key ∈ (submitted L calls).map (·.2.key)
      · have hnot : ¬ (runPuts L calls).Accepts e := by
          rw [FeedCache.Accepts, hids, List.mem_toFinset]
          exact fun hn ↦ hn hmem
        rw [if_pos hmem, FeedCache.insert_of_mem hnot]
        exact ⟨hcache, hids⟩
      · have hnot : (runPuts L calls).Accepts e := by
          rw [FeedCache.Accepts, hids, List.mem_toFinset]
          exact hmem
        rw [if_neg hmem] at h ⊢
        rw [List.length_append, List.length_singleton] at h
        have hlen : (runPuts L calls).globalMsgCache.length < msgCacheSize := by
          rw [hcache, List.length_map]
          omega
        have hcard : (runPuts L calls).globalMsgIds.card ≤ (submitted L calls).length := by
          rw [hids]
          exact (List.toFinset_card_le _).trans_eq (List.length_map _)
        rw [FeedCache.insert_of_room hnot hlen (by omega), hcache, hids]
        refine ⟨by simp, ?_⟩
        ext k
        simp

/-- An entry is filed under the first 24 characters of its room. -/
theorem room_of_mem_submitted {m : Str × Entry} (h : m ∈ submitted L calls) :
    m.2.room = m.1.take 24 := by
  induction calls using List.reverseRecOn with
  | nil => exact absurd h List.not_mem_nil
  | append_singleton calls p ih =>
    rw [submitted_concat] at h
    cases hp : p.entry? L with
    | none =>
      rw [hp] at h
      exact ih h
    | some e =>
      rw [hp, Option.elim_some, addSubmitted] at h
      split at h
      · exact ih h
      · rcases List.mem_append.mp h with h | h
        · exact ih h
        · obtain rfl := List.mem_singleton.mp h
          rw [PutCall.entry?] at hp
          split at hp
          · rename_i hmsg
            subst hp
            exact (eq_of_compactMsg hmsg).2.2.2.2
          · simp at hp

end Submitted

/-! ## A cache that grows

What some calls do to a cache in the middle of a run, of which not all is known.  The entries that
are added come behind those that were there, and the cache is a window on all of them.  The set of
the ids grows as well, as long as the cache does not get full. -/

section Growth

variable {L : PyLib} {c c' : FeedCache} {p : PutCall} {puts : List PutCall}

theorem PutCall.entry?_eq_some_iff {e : Entry} :
    p.entry? L = some e ↔ compactMsg L p.now p.roomId p.msg = .ok (some e) := by
  rw [PutCall.entry?]
  cases compactMsg L p.now p.roomId p.msg with
  | error e' => simp
  | ok o => simp

/-- A call adds the entry that it makes if its id is new. -/
theorem FeedCache.call_cases (L : PyLib) (c : FeedCache) (p : PutCall) :
    (c.call L p = c ∧ ∀ e, p.entry? L = some e → e.key ∈ c.globalMsgIds) ∨
      ∃ e, p.entry? L = some e ∧ c.Accepts e ∧ c.call L p = c.insert e := by
  rw [FeedCache.call, FeedCache.cachePut, PutCall.entry?]
  cases compactMsg L p.now p.roomId p.msg with
  | error e => exact Or.inl ⟨rfl, by simp⟩
  | ok o =>
    cases o with
    | none => exact Or.inl ⟨rfl, by simp⟩
    | some e =>
      by_cases ha : c.Accepts e
      · exact Or.inr ⟨e, rfl, ha, rfl⟩
      · refine Or.inl ⟨FeedCache.insert_of_mem ha, ?_⟩
        rintro _ ⟨⟩
        exact not_not.mp ha

/-- A call after which an entry is there that was not. -/
theorem FeedCache.mem_call {e : Entry} (h : e ∈ (c.call L p).globalMsgCache) :
    e ∈ c.globalMsgCache ∨ p.entry? L = some e ∧ e.key ∉ c.globalMsgIds := by
  rcases c.call_cases L p with ⟨hcall, -⟩ | ⟨e', he', ha, hcall⟩
  · exact Or.inl (hcall ▸ h)
  · rw [hcall] at h
    rcases FeedCache.mem_insert h with h | rfl
    · exact Or.inl h
    · exact Or.inr ⟨he', ha⟩

/-- The set has the ids of the entries, and no others. -/
def FeedCache.Whole (c : FeedCache) : Prop :=
  c.globalMsgIds = (c.globalMsgCache.map Entry.key).toFinset

theorem FeedCache.Whole.mem_iff (h : c.Whole) {k : Key} :
    k ∈ c.globalMsgIds ↔ ∃ e ∈ c.globalMsgCache, e.key = k := by
  rw [h, List.mem_toFinset, List.mem_map]

/-! ## Below capacity

As long as the cache is not full afterwards, the calls only add to it. -/

/-- What some calls do to a cache that has room for them. -/
structure FeedCache.Grows (L : PyLib) (c : FeedCache) (puts : List PutCall) (c' : FeedCache) :
    Prop where
  whole : c'.Whole
  kept : c.globalMsgCache <+: c'.globalMsgCache
  added : ∀ p ∈ puts, ∀ e, p.entry? L = some e → e.key ∈ c'.globalMsgIds
  origin : ∀ e ∈ c'.globalMsgCache, e ∈ c.globalMsgCache ∨
    ∃ p ∈ puts, p.entry? L = some e ∧ e.key ∉ c.globalMsgIds

theorem FeedCache.Grows.ids_subset (h : c.Whole) (hgrows : c.Grows L puts c') :
    c.globalMsgIds ⊆ c'.globalMsgIds := by
  intro k hk
  obtain ⟨e, he, rfl⟩ := h.mem_iff.mp hk
  exact hgrows.whole.mem_iff.mpr ⟨e, hgrows.kept.subset he, rfl⟩

/-- A cache that is not full after a call was not full before. -/
theorem FeedCache.length_lt_of_call (h : (c.call L p).globalMsgCache.length < msgCacheSize) :
    c.globalMsgCache.length < msgCacheSize := by
  rcases c.call_cases L p with ⟨hcall, -⟩ | ⟨e, -, ha, hcall⟩
  · exact hcall ▸ h
  · rw [hcall, FeedCache.globalMsgCache_insert ha, length_push] at h
    omega

/-- A call on a cache that is not full afterwards. -/
theorem FeedCache.Whole.call (h : c.Whole)
    (hlen : (c.call L p).globalMsgCache.length < msgCacheSize) : c.Grows L [p] (c.call L p) := by
  have horigin : ∀ e ∈ (c.call L p).globalMsgCache, e ∈ c.globalMsgCache ∨
      ∃ q ∈ [p], q.entry? L = some e ∧ e.key ∉ c.globalMsgIds := fun e he ↦
    (FeedCache.mem_call he).imp_right fun he ↦ ⟨p, List.mem_singleton_self p, he⟩
  have hroom := FeedCache.length_lt_of_call hlen
  rcases c.call_cases L p with ⟨hcall, hold⟩ | ⟨e, he, ha, hcall⟩
  · rw [hcall] at horigin ⊢
    refine ⟨h, List.prefix_rfl, fun q hq e he ↦ ?_, horigin⟩
    exact hold e (List.mem_singleton.mp hq ▸ he)
  · have hcard : c.globalMsgIds.card ≤ c.globalMsgCache.length := by
      rw [h]
      exact (List.toFinset_card_le _).trans_eq (List.length_map _)
    rw [hcall, FeedCache.insert_of_room ha hroom (by omega)] at horigin ⊢
    refine ⟨?_, List.prefix_append _ _, fun q hq e' he' ↦ ?_, horigin⟩
    · rw [FeedCache.Whole, h]
      ext k
      simp
    · rw [List.mem_singleton.mp hq, he] at he'
      obtain rfl := Option.some.inj he'
      exact Finset.mem_insert_self _ _

/-- **Several calls on a cache that is not full afterwards.** -/
theorem FeedCache.Whole.calls (h : c.Whole) :
    (puts.foldl (·.call L) c).globalMsgCache.length < msgCacheSize →
      c.Grows L puts (puts.foldl (·.call L) c) := by
  induction puts using List.reverseRecOn with
  | nil => exact fun _ ↦ ⟨h, List.prefix_rfl, by simp, fun e he ↦ Or.inl he⟩
  | append_singleton puts p ih =>
    intro hlen
    rw [List.foldl_append, List.foldl_cons, List.foldl_nil] at hlen ⊢
    have hbefore := ih (FeedCache.length_lt_of_call hlen)
    have hlast := hbefore.whole.call hlen
    refine ⟨hlast.whole, hbefore.kept.trans hlast.kept, fun q hq e he ↦ ?_, fun e he ↦ ?_⟩
    · rcases List.mem_append.mp hq with hq | hq
      · exact hlast.ids_subset hbefore.whole (hbefore.added q hq e he)
      · exact hlast.added q hq e he
    · rcases hlast.origin e he with he | ⟨q, hq, hentry, hnew⟩
      · exact (hbefore.origin e he).imp_right fun ⟨q, hq, hentry⟩ ↦
          ⟨q, List.mem_append_left _ hq, hentry⟩
      · exact Or.inr ⟨q, List.mem_append_right _ hq, hentry,
          fun hk ↦ hnew (hbefore.ids_subset h hk)⟩

/-! ## At capacity

When the cache is full, the oldest entries go, and an id that has been forgotten may be accepted
again. -/

/-- The entries that some calls add to a cache, in this order. -/
def FeedCache.added (L : PyLib) : FeedCache → List PutCall → List Entry
  | _, [] => []
  | c, p :: ps =>
    ((p.entry? L).filter fun e ↦ decide (c.Accepts e)).toList ++ added L (c.call L p) ps

/-- No call repeats the id of an entry that is there but has been dropped from the set of ids. -/
def FeedCache.EchoFree (L : PyLib) : FeedCache → List PutCall → Prop
  | _, [] => True
  | c, p :: ps =>
    (∀ e ∈ p.entry? L, e.key ∈ c.globalMsgCache.map Entry.key → e.key ∈ c.globalMsgIds) ∧
      EchoFree L (c.call L p) ps

instance FeedCache.decidableEchoFree (L : PyLib) : ∀ (c : FeedCache) (puts : List PutCall),
    Decidable (c.EchoFree L puts)
  | _, [] => .isTrue trivial
  | c, p :: ps =>
    have := decidableEchoFree L (c.call L p) ps
    inferInstanceAs (Decidable (_ ∧ _))

/-- A call adds the entry that it makes of its message, if it is accepted. -/
theorem FeedCache.added_cons (L : PyLib) (c : FeedCache) (p : PutCall) (puts : List PutCall) :
    (c.call L p = c ∧ c.added L (p :: puts) = c.added L puts) ∨
      ∃ e, p.entry? L = some e ∧ c.Accepts e ∧ c.call L p = c.insert e ∧
        c.added L (p :: puts) = e :: (c.insert e).added L puts := by
  rw [added]
  rcases c.call_cases L p with ⟨hcall, hold⟩ | ⟨e, he, ha, hcall⟩
  · refine Or.inl ⟨hcall, ?_⟩
    have hnone : (p.entry? L).filter (fun e ↦ decide (c.Accepts e)) = none := by
      rw [Option.filter_eq_none_iff]
      intro e he
      simp [Accepts, hold e he]
    rw [hnone, hcall]
    rfl
  · refine Or.inr ⟨e, he, ha, hcall, ?_⟩
    rw [he, Option.filter_some, if_pos (by simpa using ha), hcall]
    rfl

theorem FeedCache.added_append (L : PyLib) (puts puts' : List PutCall) : ∀ c : FeedCache,
    c.added L (puts ++ puts') = c.added L puts ++ (puts.foldl (·.call L) c).added L puts' := by
  induction puts with
  | nil => exact fun c ↦ rfl
  | cons p puts ih =>
    intro c
    rw [List.cons_append, added, added, ih, List.foldl_cons, List.append_assoc]

theorem FeedCache.echoFree_append (L : PyLib) (puts puts' : List PutCall) : ∀ c : FeedCache,
    c.EchoFree L (puts ++ puts') ↔
      c.EchoFree L puts ∧ (puts.foldl (·.call L) c).EchoFree L puts' := by
  induction puts with
  | nil => exact fun c ↦ ⟨fun h ↦ ⟨trivial, h⟩, fun h ↦ h.2⟩
  | cons p puts ih =>
    intro c
    rw [List.cons_append, EchoFree, EchoFree, ih, List.foldl_cons, and_assoc]

/-- **The cache after some calls is a window on all that was added.** -/
theorem FeedCache.globalMsgCache_calls (L : PyLib) (puts : List PutCall) : ∀ c : FeedCache,
    c.globalMsgCache.length ≤ msgCacheSize → (puts.foldl (·.call L) c).globalMsgCache =
      (c.globalMsgCache ++ c.added L puts).rtake msgCacheSize := by
  induction puts with
  | nil =>
    intro c hlen
    rw [added, List.append_nil, rtake_of_length_le hlen]
    rfl
  | cons p puts ih =>
    intro c hlen
    rw [List.foldl_cons]
    rcases c.added_cons L p puts with ⟨hcall, hadded⟩ | ⟨e, -, ha, hcall, hadded⟩
    · rw [hcall, hadded, ih c hlen]
    · have hlen' : (c.insert e).globalMsgCache.length ≤ msgCacheSize := by
        rw [globalMsgCache_insert ha, length_push]
        exact Nat.min_le_left _ _
      rw [hcall, hadded, ih _ hlen', globalMsgCache_insert ha, push, rtake_rtake_append,
        List.append_assoc, List.singleton_append]

/-- An id that is held once at most is so after calls that repeat no entry. -/
theorem FeedCache.EchoFree.count_le (k : Key) : ∀ c : FeedCache, c.EchoFree L puts →
    (c.globalMsgCache.map Entry.key).count k ≤ 1 →
      ((puts.foldl (·.call L) c).globalMsgCache.map Entry.key).count k ≤ 1 := by
  induction puts with
  | nil => exact fun c _ h ↦ h
  | cons p puts ih =>
    intro c ⟨hfirst, hrest⟩ h
    rw [List.foldl_cons]
    refine ih _ hrest ?_
    rcases c.call_cases L p with ⟨hcall, -⟩ | ⟨e, he, ha, hcall⟩
    · rw [hcall]
      exact h
    · have hnew : e.key ∉ c.globalMsgCache.map Entry.key := fun hmem ↦ ha (hfirst e he hmem)
      have hpush : ((c.insert e).globalMsgCache.map Entry.key).Sublist
          (c.globalMsgCache.map Entry.key ++ [e.key]) := by
        rw [globalMsgCache_insert ha, map_push]
        exact (rtake_suffix _ _).sublist
      rw [hcall]
      refine (hpush.count_le k).trans ?_
      rw [List.count_append, List.count_singleton]
      split
      · rename_i hk
        obtain rfl := beq_iff_eq.mp hk
        rw [List.count_eq_zero_of_not_mem hnew]
      · exact h

end Growth

/-! ## The history of a room

`_cache_get` walks the cache from its end and stops when it has found enough.  What it returns is
thus a window on those entries that a reader of the room is shown. -/

namespace FeedCache

/-- The entries that a reader of a room is shown the last of. -/
def target (c : FeedCache) (room : Str) : List Entry :=
  c.globalMsgCache.filter fun e ↦ decide (room = [] ∨ room = general ∨ e.room = room)

theorem cacheGet_eq_rtake (c : FeedCache) (room : Str) {limit : ℤ} (h : 1 ≤ limit) :
    c.cacheGet (some room) limit = (c.target room).rtake limit.toNat := by
  have htarget : (if some room = none ∨ some room = some [] ∨ some room = some general
      then c.globalMsgCache
      else c.globalMsgCache.filter fun m ↦ decide (some m.room = some room)) = c.target room := by
    rw [target]
    split
    · rename_i hall
      refine (List.filter_eq_self.mpr fun e _ ↦ ?_).symm
      rcases hall with hall | hall | hall
      · simp at hall
      · simp [Option.some.inj hall]
      · simp [Option.some.inj hall]
    · rename_i hall
      refine List.filter_congr fun e _ ↦ ?_
      simp only [Option.some.injEq, reduceCtorEq, false_or, not_or] at hall
      simp [hall]
  rw [cacheGet, htarget]
  split
  · rename_i hle
    rw [rtake_of_length_le (by omega)]
  · rw [lastOf, if_pos (by omega)]

/-- Does a reader of the room see the entry? -/
def visibleIn (room : Str) (e : Entry) : Bool :=
  decide (room = [] ∨ room = general ∨ e.room = room)

/-! ## A history that is long enough

The entries that arrived since some moment are all in the history if there are fewer of them than
the limit. -/

/-- The entries `arrived` came in last, and among them is one for each of the ids `keys`, for a
reader of the room to see, and nowhere else. -/
structure Retains (room : Str) (c : FeedCache) (keys : List Key) (arrived : List Entry) : Prop where
  window : ∃ old, c.globalMsgCache = (old ++ arrived).rtake msgCacheSize
  here : ∀ k ∈ keys, ∃ e ∈ arrived, visibleIn room e = true ∧ e.key = k
  once : ∀ k ∈ keys, (c.globalMsgCache.map Entry.key).count k ≤ 1

namespace Retains

variable {L : PyLib} {room : Str} {c : FeedCache} {keys : List Key} {arrived : List Entry}
  {puts : List PutCall}

theorem nil (room : Str) (h : c.globalMsgCache.length ≤ msgCacheSize) : Retains room c [] [] where
  window := ⟨c.globalMsgCache, by rw [List.append_nil, rtake_of_length_le h]⟩
  here k hk := absurd hk List.not_mem_nil
  once k hk := absurd hk List.not_mem_nil

theorem length_le (h : Retains room c keys arrived) : c.globalMsgCache.length ≤ msgCacheSize := by
  obtain ⟨old, hold⟩ := h.window
  rw [hold, length_rtake]
  exact Nat.min_le_left _ _

/-- More entries arrive. -/
theorem calls (h : Retains room c keys arrived) (hecho : c.EchoFree L puts) :
    Retains room (puts.foldl (·.call L) c) keys (arrived ++ c.added L puts) where
  window := by
    obtain ⟨old, hold⟩ := h.window
    refine ⟨old, ?_⟩
    rw [globalMsgCache_calls L puts c h.length_le, hold, rtake_rtake_append, List.append_assoc]
  here k hk := by
    obtain ⟨e, he, hvisible⟩ := h.here k hk
    exact ⟨e, List.mem_append_left _ he, hvisible⟩
  once k hk := hecho.count_le k c (h.once k hk)

/-- The message of a new id arrives. -/
theorem accept (h : Retains room c keys arrived) {p : PutCall} {e : Entry}
    (he : p.entry? L = some e) (ha : c.Accepts e) (hnew : e.key ∉ c.globalMsgCache.map Entry.key)
    (hvisible : visibleIn room e = true) :
    Retains room (c.call L p) (keys ++ [e.key]) (arrived ++ c.added L [p]) := by
  have hecho : c.EchoFree L [p] := by
    refine ⟨fun e' he' hmem ↦ ?_, trivial⟩
    obtain rfl := Option.some.inj (he.symm.trans he')
    exact absurd hmem hnew
  have hadded : c.added L [p] = [e] := by
    rw [added, added, he, Option.filter_some, if_pos (by simpa using ha)]
    rfl
  obtain ⟨hwindow, hhere, honce⟩ := h.calls hecho
  refine ⟨hwindow, fun k hk ↦ ?_, fun k hk ↦ ?_⟩
  · rcases List.mem_append.mp hk with hk | hk
    · exact hhere k hk
    · rw [List.mem_singleton.mp hk, hadded]
      exact ⟨e, List.mem_append_right _ (List.mem_singleton_self e), hvisible, rfl⟩
  · rcases List.mem_append.mp hk with hk | hk
    · exact honce k hk
    · rw [List.mem_singleton.mp hk]
      refine hecho.count_le e.key c ?_
      rw [List.count_eq_zero_of_not_mem hnew]
      exact Nat.zero_le 1

/-- **Few arrivals are all in the history.** -/
theorem count_cacheGet (h : Retains room c keys arrived) {limit : ℤ}
    (hsize : arrived.length ≤ msgCacheSize)
    (hfew : ((arrived.filter (visibleIn room)).length : ℤ) < limit) {k : Key} (hk : k ∈ keys) :
    ((c.cacheGet (some room) limit).map Entry.key).count k = 1 := by
  obtain ⟨old, hold⟩ := h.window
  rw [rtake_append_of_le hsize] at hold
  have htarget : c.target room = ((old.rtake (msgCacheSize - arrived.length)).filter
      (visibleIn room)) ++ arrived.filter (visibleIn room) := by
    rw [target, hold, ← List.filter_append]
    rfl
  have hget : c.cacheGet (some room) limit = ((old.rtake (msgCacheSize - arrived.length)).filter
      (visibleIn room)).rtake (limit.toNat - (arrived.filter (visibleIn room)).length) ++
        arrived.filter (visibleIn room) := by
    rw [cacheGet_eq_rtake _ _ (by omega), htarget, rtake_append_of_le (by omega)]
  obtain ⟨e, he, hvisible, hkey⟩ := h.here k hk
  have hle : ((c.cacheGet (some room) limit).map Entry.key).count k ≤ 1 := by
    rw [cacheGet_eq_rtake _ _ (by omega)]
    refine List.Sublist.count_le _ (List.Sublist.map _ ?_) |>.trans (h.once k hk)
    exact (rtake_suffix _ _).sublist.trans List.filter_sublist
  have hmem : k ∈ (c.cacheGet (some room) limit).map Entry.key := by
    rw [hget]
    exact List.mem_map.mpr ⟨e, List.mem_append_right _ (List.mem_filter.mpr ⟨he, hvisible⟩), hkey⟩
  have hpos := List.count_pos_iff.mpr hmem
  omega

end Retains

end FeedCache

theorem length_runPuts_le (L : PyLib) (calls : List PutCall) :
    (runPuts L calls).globalMsgCache.length ≤ msgCacheSize := by
  rw [runPuts, FeedCache.globalMsgCache_calls L calls _ (Nat.zero_le _), length_rtake]
  exact Nat.min_le_left _ _

section History

variable {L : PyLib} {calls : List PutCall}

/-! ## The history after some calls

The two sections before come together: the history of a room is computed from what was
submitted. -/

/-- The history that `async_get_history` finds in the cache after a sequence of calls. -/
def historyAfter (L : PyLib) (calls : List PutCall) (room : Str) (limit : ℤ) : List Obj :=
  { Store.empty with cache := runPuts L calls }.cachedHistory room limit

/-- The history of a room would be exact. -/
def ExactHistory (L : PyLib) (calls : List PutCall) (room : Str) (limit : ℤ) : Prop :=
  historyAfter L calls room limit =
    (((submitted L calls).filter fun m ↦ decide (m.1 = room)).rtake limit.toNat).map
      fun m ↦ m.2.toObj

/-- **What the history of a room is.** -/
theorem historyAfter_eq (h : (submitted L calls).length ≤ msgCacheSize) (room : Str) {limit : ℤ}
    (hlimit : 1 ≤ limit) : historyAfter L calls room limit =
      (((submitted L calls).filter fun m ↦
        decide (room = [] ∨ room = general ∨ m.1.take 24 = room)).rtake limit.toNat).map
          fun m ↦ m.2.toObj := by
  have htarget : (runPuts L calls).target room = ((submitted L calls).filter fun m ↦
      decide (room = [] ∨ room = general ∨ m.1.take 24 = room)).map Prod.snd := by
    rw [FeedCache.target, (runPuts_eq_submitted h).1, List.filter_map]
    refine congrArg _ (List.filter_congr fun m hm ↦ ?_)
    rw [Function.comp_apply, room_of_mem_submitted hm]
  show ((runPuts L calls).cacheGet (some room) limit).map Entry.toObj = _
  rw [FeedCache.cacheGet_eq_rtake _ _ hlimit, htarget, ← map_rtake, List.map_map]
  rfl

/-- No id is submitted twice. -/
theorem nodup_keys_submitted (L : PyLib) (calls : List PutCall) :
    ((submitted L calls).map (·.2.key)).Nodup := by
  induction calls using List.reverseRecOn with
  | nil => exact List.nodup_nil
  | append_singleton calls p ih =>
    rw [submitted_concat]
    cases p.entry? L with
    | none => exact ih
    | some e =>
      rw [Option.elim_some, addSubmitted]
      split
      · exact ih
      · rename_i hnew
        rw [List.map_append]
        refine ih.append (List.nodup_singleton _) fun k hk hk' ↦ hnew ?_
        obtain rfl : k = e.key := List.mem_singleton.mp hk'
        exact hk

/-- What is served of an entry tells its id. -/
theorem Entry.key_eq_of_toObj {e e' : Entry} (h : e.toObj = e'.toObj) : e.key = e'.key := by
  have hid : e.id = e'.id := congrArg (fun d : Obj ↦ d.get "id") h
  exact Option.some.inj (e.id_key.symm.trans ((congrArg Value.key? hid).trans e'.id_key))

/-- Is the message filed where the room is looked up? -/
def filedIn (room : Str) (m : Str × Entry) : Bool :=
  decide (room = [] ∨ room = general ∨ m.1.take 24 = room)

/-- Two kinds of messages look the same as a whole only if they are the same. -/
theorem filter_congr_of_toObj {p q : Str × Entry → Bool} (h : ((submitted L calls).filter p).map
      (fun m ↦ m.2.toObj) = ((submitted L calls).filter q).map fun m ↦ m.2.toObj) :
    ∀ m ∈ submitted L calls, p m = q m := by
  have himp : ∀ {p q : Str × Entry → Bool}, ((submitted L calls).filter p).map
      (fun m ↦ m.2.toObj) = ((submitted L calls).filter q).map (fun m ↦ m.2.toObj) →
      ∀ m ∈ submitted L calls, p m = true → q m = true := by
    intro p q h m hm hp
    have hmem := List.mem_map_of_mem (f := fun m : Str × Entry ↦ m.2.toObj)
      (List.mem_filter.mpr ⟨hm, hp⟩)
    rw [h] at hmem
    obtain ⟨m', hm', hsame⟩ := List.mem_map.mp hmem
    obtain ⟨hmem', hq⟩ := List.mem_filter.mp hm'
    -- an id belongs to one message
    have heq : m' = m := List.inj_on_of_nodup_map (nodup_keys_submitted L calls) hmem' hm
      (Entry.key_eq_of_toObj hsame)
    exact heq ▸ hq
  exact fun m hm ↦ Bool.eq_iff_iff.mpr ⟨himp h m hm, himp h.symm m hm⟩

/-! ## When histories are exact

Rooms are cut to 24 characters, so messages of different rooms can be filed under one name, and
`general` has those of all rooms. -/

/-- No message is taken for one of the room that is not one, and none of the room is missed: for
`general` and the empty name there are no others, and for any other name no message has a room of
more than 24 characters that is this name or is cut to it. -/
def KeptApart (L : PyLib) (calls : List PutCall) (room : Str) : Prop :=
  ∀ m ∈ submitted L calls,
    if room = [] ∨ room = general then m.1 = room
    else m.1 = room ∨ m.1.take 24 = room → m.1.length ≤ 24

theorem keptApart_iff {room : Str} : KeptApart L calls room ↔
    ∀ m ∈ submitted L calls, filedIn room m = decide (m.1 = room) := by
  refine forall₂_congr fun m _ ↦ ?_
  rw [Bool.eq_iff_iff, filedIn, decide_eq_true_eq, decide_eq_true_eq]
  by_cases hall : room = [] ∨ room = general
  · rw [if_pos hall]
    exact ⟨fun h ↦ iff_of_true (hall.imp_right Or.inl) h,
      fun h ↦ h.mp (hall.imp_right Or.inl)⟩
  · rw [if_neg hall]
    have hcut : (room = [] ∨ room = general ∨ m.1.take 24 = room) ↔ m.1.take 24 = room := by
      rw [← or_assoc]
      exact or_iff_right hall
    rw [hcut]
    constructor
    · intro h
      have htake : m.1 = room ∨ m.1.take 24 = room → m.1.take 24 = m.1 :=
        fun hm ↦ List.take_of_length_le (h hm)
      exact ⟨fun hm ↦ (htake (Or.inr hm)).symm.trans hm, fun hm ↦ (htake (Or.inl hm)).trans hm⟩
    · intro h hm
      have hsame : m.1.take 24 = m.1 := by
        rcases hm with hm | hm
        · exact (h.mpr hm).trans hm.symm
        · exact hm.trans (h.mp hm).symm
      rw [← hsame, List.length_take]
      exact Nat.min_le_left _ _

/-- **When the histories of a room are exact**, of whatever length.  They are if and only if the
messages of the room are kept apart from all others. -/
theorem exactHistory_iff (h : (submitted L calls).length ≤ msgCacheSize) (room : Str) :
    (∀ limit : ℤ, 1 ≤ limit → ExactHistory L calls room limit) ↔ KeptApart L calls room := by
  rw [keptApart_iff]
  constructor
  · intro hall
    -- with a limit that is large enough, nothing is cut off
    have hexact := hall ((submitted L calls).length + 1) (by omega)
    have hlength : ∀ p : Str × Entry → Bool, ((submitted L calls).filter p).rtake
        ((submitted L calls).length + 1 : ℤ).toNat = (submitted L calls).filter p := by
      intro p
      have hle := List.length_filter_le p (submitted L calls)
      exact rtake_of_length_le (by omega)
    rw [ExactHistory, historyAfter_eq h room (by omega), hlength, hlength] at hexact
    exact filter_congr_of_toObj hexact
  · intro hsame limit hlimit
    rw [ExactHistory, historyAfter_eq h room hlimit]
    exact congrArg (fun ms : List (Str × Entry) ↦ (ms.rtake limit.toNat).map fun m ↦ m.2.toObj)
      (List.filter_congr hsame)

/-- A message of Alice in a room. -/
def roomPut (room : Str) : PutCall :=
  ⟨1, .str room, [("id", .str (lit "m1")), ("username", .str (lit "Alice")),
    ("text", .str (lit "hi")), ("room", .str room), ("timestamp", .int 1)]⟩

/-- One message in `random`, and one in `general`. -/
theorem exactHistory_random : ExactHistory asciiLib [roomPut (lit "random"),
    { roomPut general with msg := [("id", .str (lit "m2")), ("text", .str (lit "hello"))] }]
    (lit "random") 50 := by
  refine (exactHistory_iff (by decide) _).mpr (fun m hm ↦ ?_) 50 (by decide)
  have hlength : ∀ m ∈ submitted asciiLib [roomPut (lit "random"), { roomPut general with
      msg := [("id", .str (lit "m2")), ("text", .str (lit "hello"))] }], m.1.length ≤ 24 := by
    decide
  rw [if_neg (by decide)]
  exact fun _ ↦ hlength m hm

/-- The history of `general` has a message to another room, and that of a room with 25 characters
misses its own. -/
theorem not_exactHistory :
    ¬ ExactHistory asciiLib [roomPut (lit "random")] general 50 ∧
      ¬ ExactHistory asciiLib [roomPut (List.replicate 25 97)] (List.replicate 25 97) 50 := by
  refine ⟨fun h ↦ ?_, fun h ↦ ?_⟩
  · exact absurd (congrArg List.length h) (by decide)
  · exact absurd (congrArg List.length h) (by decide)

end History

/-! ## The order of the feed

The cache is in the order of the puts.  It is in the order of the times as long as no put comes
late, and every list that is served is a part of it. -/

/-- Is a list of entries ordered by time? -/
def InTimeOrder (es : List Entry) : Prop := es.Pairwise fun e e' ↦ e.timestamp ≤ e'.timestamp

instance : DecidablePred InTimeOrder := fun _ ↦ inferInstanceAs (Decidable (List.Pairwise _ _))

/-- An entry is not older than the newest one of the cache. -/
def FeedCache.NotBefore (c : FeedCache) (e : Entry) : Prop :=
  ∀ x ∈ c.globalMsgCache.getLast?, x.timestamp ≤ e.timestamp

instance (c : FeedCache) (e : Entry) : Decidable (c.NotBefore e) :=
  inferInstanceAs (Decidable (∀ _ ∈ _, _))

theorem cacheGet_sublist (c : FeedCache) (room : Option Str) (limit : ℤ) :
    (c.cacheGet room limit).Sublist c.globalMsgCache := by
  have hcut : ∀ target : List Entry,
      (if target.length ≤ limit then target else FeedCache.lastOf limit target).Sublist target := by
    intro target
    split
    · exact List.Sublist.refl _
    · exact FeedCache.lastOf_sublist limit target
  refine (hcut _).trans ?_
  split
  · exact List.Sublist.refl _
  · exact List.filter_sublist

/-! ## One put

A list in order stays so if what is appended is not older than its last element. -/

theorem inTimeOrder_iff_cacheGet {c : FeedCache} :
    InTimeOrder c.globalMsgCache ↔ ∀ room limit, InTimeOrder (c.cacheGet room limit) := by
  constructor
  · exact fun h room limit ↦ h.sublist (cacheGet_sublist c room limit)
  · intro h
    have hall := h none c.globalMsgCache.length
    rwa [FeedCache.cacheGet, if_pos (Or.inl rfl), if_pos le_rfl] at hall

/-- A put keeps the order exactly when its entry is not older than the newest one. -/
theorem inTimeOrder_insert_iff {c : FeedCache} {e : Entry} (h : InTimeOrder c.globalMsgCache) :
    InTimeOrder (c.insert e).globalMsgCache ↔ (c.Accepts e → c.NotBefore e) := by
  by_cases ha : c.Accepts e
  · rw [FeedCache.globalMsgCache_insert ha]
    constructor
    · intro hpush _ x hx
      obtain ⟨es, hes⟩ := List.getLast?_eq_some_iff.mp hx
      -- the window holds more than one entry, so it still has the last one
      have hwindow : [x, e] <:+ push msgCacheSize c.globalMsgCache e := by
        have hle : ([x] ++ [e]).length ≤ msgCacheSize := show 2 ≤ msgCacheSize by decide
        rw [push, hes, List.append_assoc, rtake_append_of_le hle]
        exact List.suffix_append _ _
      have hpair := hpush.sublist hwindow.sublist
      exact List.rel_of_pairwise_cons hpair List.mem_cons_self
    · intro hlast
      refine List.Pairwise.sublist (rtake_suffix _ _).sublist ?_
      rw [List.pairwise_append]
      refine ⟨h, List.pairwise_singleton _ _, fun x hx y hy ↦ ?_⟩
      obtain rfl := List.mem_singleton.mp hy
      obtain ⟨z, hz⟩ : ∃ z, c.globalMsgCache.getLast? = some z :=
        Option.isSome_iff_exists.mp (by simpa using List.ne_nil_of_mem hx)
      obtain ⟨es, hes⟩ := List.getLast?_eq_some_iff.mp hz
      refine le_trans ?_ (hlast ha z hz)
      rw [hes] at hx h
      rcases List.mem_append.mp hx with hx | hx
      · exact (List.pairwise_append.mp h).2.2 x hx z (List.mem_singleton_self z)
      · rw [List.mem_singleton.mp hx]
  · rw [FeedCache.insert_of_mem ha]
    exact iff_of_true h fun hn ↦ absurd hn ha

namespace Feed

variable {β : Type*} {D : Dumps β}

/-- Bytes that serialise entries in their order in time. -/
def Ordered (D : Dumps β) (b : β) : Prop := ∃ msgs, D.dumps msgs = some b ∧ InTimeOrder msgs

/-! ## What is served

The bytes of the feed and the lists that a call holds were taken from the cache at some moment. -/

/-- Every list that `_cache_get` can return, and what `get_feed_bytes` has returned or serves next,
is ordered. -/
structure Chronological (D : Dumps β) (s : State β) : Prop where
  cacheGet : ∀ room limit, InTimeOrder (s.cache.cacheGet room limit)
  served : Ordered D s.json.feedJsonCache
  returned : ∀ t b, s.pc = .ret t b → Ordered D b

/-- The condition on a step: an entry that is accepted is not older than the newest one. -/
def InOrder (s : State β) : Event → Prop
  | .put _ e => s.cache.Accepts e → s.cache.NotBefore e
  | _ => True

instance (s : State β) : ∀ a : Event, Decidable (InOrder s a)
  | .put _ _ => inferInstanceAs (Decidable (_ → _))
  | .call _ => .isTrue trivial
  | .lock _ => .isTrue trivial
  | .advance => .isTrue trivial

/-- A call in progress holds nothing but ordered entries. -/
structure OrderInv (D : Dumps β) (s : State β) : Prop extends Chronological D s where
  snapshot : ∀ t now msgs, s.pc = .dump t now msgs → InTimeOrder msgs

theorem orderInv_initial (D : Dumps β) (clock : ℚ) : OrderInv D (initial D clock) where
  cacheGet := inTimeOrder_iff_cacheGet.mp List.Pairwise.nil
  served := ⟨[], D.dumps_nil, List.Pairwise.nil⟩
  returned := fun t b h ↦ by simp [initial] at h
  snapshot := fun t now msgs h ↦ by simp [initial] at h

/-- What a step of a call does. -/
structure Serves (D : Dumps β) (s s' : State β) : Prop where
  cache : s'.cache = s.cache
  bytes : s'.json.feedJsonCache = s.json.feedJsonCache ∨ s'.json.feedJsonCache = D.nil ∨
    ∃ t now msgs, s.pc = .dump t now msgs ∧ D.dumps msgs = some s'.json.feedJsonCache
  returned : ∀ t b, s'.pc = .ret t b → b = s.json.feedJsonCache
  snapshot : ∀ t now msgs, s'.pc = .dump t now msgs → msgs = s.cache.globalMsgCache

theorem Serves.of_advance {s s' : State β} (h : advance D s = some s') : Serves D s s' := by
  cases hp : s.pc with
  | idle => simp [advance, hp] at h
  | check t =>
    simp only [advance, hp] at h
    split at h
    · obtain rfl := Option.some.inj h
      exact ⟨rfl, Or.inl rfl, fun _ _ hr ↦ (Pc.ret.inj hr).2.symm, by simp⟩
    · obtain rfl := Option.some.inj h
      exact ⟨rfl, Or.inl rfl, by simp, by simp⟩
  | wait t => simp [advance, hp] at h
  | recheck t now =>
    simp only [advance, hp] at h
    split at h
    · obtain rfl := Option.some.inj h
      exact ⟨rfl, Or.inl rfl, fun _ _ hr ↦ (Pc.ret.inj hr).2.symm, by simp⟩
    · obtain rfl := Option.some.inj h
      exact ⟨rfl, Or.inl rfl, by simp, by simp⟩
  | snapshot t now =>
    simp only [advance, hp] at h
    obtain rfl := Option.some.inj h
    exact ⟨rfl, Or.inl rfl, by simp, fun _ _ _ hr ↦ (Pc.dump.inj hr).2.2.symm⟩
  | dump t now msgs =>
    simp only [advance, hp] at h
    split at h
    · rename_i b hb
      obtain rfl := Option.some.inj h
      exact ⟨rfl, Or.inr (Or.inr ⟨t, now, msgs, hp, hb⟩), by simp, by simp⟩
    · obtain rfl := Option.some.inj h
      exact ⟨rfl, Or.inr (Or.inl rfl), by simp, by simp⟩
  | stamp t now =>
    simp only [advance, hp] at h
    obtain rfl := Option.some.inj h
    exact ⟨rfl, Or.inl rfl, by simp, by simp⟩
  | clean t =>
    simp only [advance, hp] at h
    obtain rfl := Option.some.inj h
    exact ⟨rfl, Or.inl rfl, by simp, by simp⟩
  | finish t =>
    simp only [advance, hp] at h
    obtain rfl := Option.some.inj h
    exact ⟨rfl, Or.inl rfl, fun _ _ hr ↦ (Pc.ret.inj hr).2.symm, by simp⟩
  | ret t b =>
    simp only [advance, hp] at h
    obtain rfl := Option.some.inj h
    exact ⟨rfl, Or.inl rfl, by simp, by simp⟩

/-- A step is a put or a step of a call. -/
theorem put_or_serves {s s' : State β} {a : Event} (h : next D s a = some s') :
    (∃ now e, a = .put now e ∧ s' = put s now e) ∨ (∀ now e, a ≠ .put now e) ∧ Serves D s s' := by
  cases a with
  | put now e =>
    rw [next] at h
    split at h
    · exact Or.inl ⟨now, e, rfl, (Option.some.inj h).symm⟩
    · simp at h
  | call now =>
    rw [next] at h
    split at h
    · split at h
      · obtain rfl := Option.some.inj h
        exact Or.inr ⟨by simp, rfl, Or.inl rfl, by simp, by simp⟩
      · simp at h
    · simp at h
  | lock now =>
    rw [next] at h
    split at h
    · split at h
      · obtain rfl := Option.some.inj h
        exact Or.inr ⟨by simp, rfl, Or.inl rfl, by simp, by simp⟩
      · simp at h
    · simp at h
  | advance => exact Or.inr ⟨by simp, .of_advance h⟩

theorem cache_put (s : State β) (now : ℚ) (e : Entry) :
    (put s now e).cache = s.cache.insert e := by
  rw [put]
  split
  · rfl
  · rename_i h
    exact (FeedCache.insert_of_mem h).symm

/-! ## The condition is exact

Only a put can disturb the order, and it does so exactly if its entry is older than the newest
one. -/

/-- A step keeps the order of the cache exactly when it meets the condition. -/
theorem inTimeOrder_next_iff {s s' : State β} {a : Event}
    (h : InTimeOrder s.cache.globalMsgCache) (hs : next D s a = some s') :
    InTimeOrder s'.cache.globalMsgCache ↔ InOrder s a := by
  rcases put_or_serves hs with ⟨now, e, rfl, rfl⟩ | ⟨ha, hserves⟩
  · rw [cache_put]
    exact inTimeOrder_insert_iff h
  · rw [hserves.cache]
    refine iff_of_true h ?_
    cases a with
    | put now e => exact absurd rfl (ha now e)
    | _ => trivial

/-- What a call has in its hands comes from the cache. -/
theorem OrderInv.next {s s' : State β} {a : Event} (h : OrderInv D s)
    (hs : Feed.next D s a = some s') (hcache : InTimeOrder s'.cache.globalMsgCache) :
    OrderInv D s' := by
  have hget := inTimeOrder_iff_cacheGet.mp hcache
  rcases put_or_serves hs with ⟨now, e, rfl, rfl⟩ | ⟨-, hserves⟩
  · have hrest : (Feed.put s now e).json.feedJsonCache = s.json.feedJsonCache ∧
        (Feed.put s now e).pc = s.pc := by
      rw [Feed.put]
      split <;> exact ⟨rfl, rfl⟩
    exact ⟨⟨hget, hrest.1 ▸ h.served, fun t b hb ↦ h.returned t b (hrest.2 ▸ hb)⟩,
      fun t now' msgs hm ↦ h.snapshot t now' msgs (hrest.2 ▸ hm)⟩
  · refine ⟨⟨hget, ?_, fun t b hb ↦ hserves.returned t b hb ▸ h.served⟩, fun t now msgs hm ↦ ?_⟩
    · rcases hserves.bytes with hsame | hnil | ⟨t, now, msgs, hdump, hb⟩
      · exact hsame ▸ h.served
      · exact hnil ▸ ⟨[], D.dumps_nil, List.Pairwise.nil⟩
      · exact ⟨msgs, hb, h.snapshot t now msgs hdump⟩
    · rw [hserves.snapshot t now msgs hm]
      exact inTimeOrder_iff_cacheGet.mpr h.cacheGet

theorem orderInv_next_iff {s s' : State β} {a : Event} (h : OrderInv D s)
    (hs : next D s a = some s') : OrderInv D s' ↔ InOrder s a := by
  have hcache := inTimeOrder_next_iff (inTimeOrder_iff_cacheGet.mpr h.cacheGet) hs
  exact ⟨fun h' ↦ hcache.mp (inTimeOrder_iff_cacheGet.mpr h'.cacheGet),
    fun hin ↦ h.next hs (hcache.mpr hin)⟩

/-- **When the feed is chronological.**  It is in all states of a run exactly when no step of the
run puts an entry that is older than the newest one. -/
theorem chronological_iff {s₀ s : State β} {l : List Event} (h₀ : (system D).init s₀)
    (h : (system D).Trace s₀ l s) :
    (∀ l₁ t, l₁ <+: l → System.exec (next D) s₀ l₁ = some t → Chronological D t) ↔
      ((system D).when InOrder).Trace s₀ l s := by
  obtain ⟨clock, -, rfl⟩ := h₀
  constructor
  · intro hall
    have hnil : InTimeOrder (initial D clock).cache.globalMsgCache := List.Pairwise.nil
    refine (h.forall_prefix_iff (I := fun s ↦ InTimeOrder s.cache.globalMsgCache)
      (fun s a s' ↦ inTimeOrder_next_iff) hnil).mp fun l₁ t hl₁ ht ↦ ?_
    exact inTimeOrder_iff_cacheGet.mpr (hall l₁ t hl₁ ht).cacheGet
  · intro hwhen l₁ t hl₁ ht
    exact ((h.forall_prefix_iff (fun s a s' ↦ orderInv_next_iff)
      (orderInv_initial D clock)).mpr hwhen l₁ t hl₁ ht).toChronological

/-- A message of Alice's with a time. -/
def timedEntry (id ts : ℤ) : Entry := { aliceEntry id (lit "hi") with timestamp := ts }

/-- Two messages, posted in the order of their times. -/
theorem chronological_posted : ∃ s, s.log.length = 2 ∧
    Chronological (dumpsBytes asciiLib) s := by
  have hrun : (System.exec (fun s a ↦ if InOrder s a then next (dumpsBytes asciiLib) s a else none)
      (initial (dumpsBytes asciiLib) 0) [.put 1 (timedEntry 1 1), .put 2 (timedEntry 2 2)]).map
        (fun s ↦ s.log.length) = some 2 := by
    decide +kernel
  obtain ⟨s, hs, hlog⟩ := Option.map_eq_some_iff.mp hrun
  have hwhen : ((system (dumpsBytes asciiLib)).when InOrder).Trace _ _ s :=
    System.trace_when_of_exec hs
  have htrace : (system (dumpsBytes asciiLib)).Trace _ _ s := hwhen.imp fun _ _ _ h ↦ h.2
  exact ⟨s, hlog, (chronological_iff ⟨0, le_rfl, rfl⟩ htrace).mpr hwhen _ s (List.prefix_refl _)
    (System.exec_of_trace htrace)⟩

/-- The message of another node arrives after a later one of this node. -/
theorem not_chronological : ∃ s, (system (dumpsBytes asciiLib)).Reachable s ∧
    ¬ Chronological (dumpsBytes asciiLib) s := by
  have hrun : (System.exec (next (dumpsBytes asciiLib)) (initial (dumpsBytes asciiLib) 0)
      [.put 2 (timedEntry 1 2), .put 3 (timedEntry 2 1)]).map
        (fun s ↦ decide (InTimeOrder s.cache.globalMsgCache)) = some false := by
    decide +kernel
  obtain ⟨s, hs, hres⟩ := Option.map_eq_some_iff.mp hrun
  refine ⟨s, System.reachable_of_exec ⟨0, le_rfl, rfl⟩ hs, fun h ↦ ?_⟩
  exact absurd (inTimeOrder_iff_cacheGet.mpr h.cacheGet) (of_decide_eq_false hres)

end Feed

end GroupChat
