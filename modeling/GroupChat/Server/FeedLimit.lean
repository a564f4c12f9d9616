import GroupChat.App

/-!
# The limit of the feed

`GET /feed?room=…&limit=…` is meant to return the last `limit` messages of the room.  The route has
two paths: the global feed comes out of the bytes that `get_feed_bytes` keeps, a room out of
`_cache_get`, which cuts the window with `target[-limit:]`.

* `FeedCache.selected` are the cached messages that a request is about, and `Node.asked` is the list
  that is serialised for it: everything, where the bytes are shared or the limit is 0 (`target[-0:]`
  is the whole list), and the last `limit` of the selected messages otherwise
  (`getFeedRoute_eq_served`).
* `served` is what a reader gets of a list: a list that cannot be serialised is replaced by `[]`.
* `feedLimit_iff` says for which requests the reader gets the last `limit` selected messages.  The
  two ways to fail are the two paths: the global one ignores the limit, and the other one returns
  the whole room for the limit 0.
-/

set_option autoImplicit false

namespace GroupChat

open Transition

/-! ## What is served

Both paths end in `json.dumps`, and both return `[]` where this raises. -/

/-- What a reader gets for a list of entries: `[]` where `json.dumps` raises. -/
def served (msgs : List Entry) : List Entry := (dumpsEntries.dumps msgs).getD dumpsEntries.nil

theorem served_of_serialisable {msgs : List Entry} (h : ∀ e ∈ msgs, e.id.serialisable = true) :
    served msgs = msgs := by
  rw [served, show dumpsEntries.dumps msgs = some msgs from if_pos h, Option.getD_some]

theorem served_of_not_serialisable {msgs : List Entry}
    (h : ¬∀ e ∈ msgs, e.id.serialisable = true) : served msgs = [] := by
  rw [served, show dumpsEntries.dumps msgs = none from if_neg h, Option.getD_none]
  rfl

theorem served_eq_nil_iff {msgs : List Entry} :
    served msgs = [] ↔ msgs = [] ∨ ∃ e ∈ msgs, e.id.serialisable = false := by
  by_cases h : ∀ e ∈ msgs, e.id.serialisable = true
  · have hno : ¬∃ e ∈ msgs, e.id.serialisable = false := by
      rintro ⟨e, he, hfalse⟩
      rw [h e he] at hfalse
      cases hfalse
    rw [served_of_serialisable h, or_iff_left hno]
  · rw [served_of_not_serialisable h]
    refine iff_of_true rfl (Or.inr ?_)
    push Not at h
    obtain ⟨e, he, hne⟩ := h
    exact ⟨e, he, Bool.not_eq_true _ ▸ hne⟩

theorem served_eq_self_iff {msgs : List Entry} :
    served msgs = msgs ↔ ∀ e ∈ msgs, e.id.serialisable = true := by
  refine ⟨fun h ↦ ?_, served_of_serialisable⟩
  by_contra hnot
  -- a list with an entry that is not serialisable is not empty
  rw [served_of_not_serialisable hnot] at h
  refine hnot fun e he ↦ ?_
  rw [← h] at he
  exact absurd he List.not_mem_nil

/-- What is served is the list or nothing. -/
theorem served_eq_or (msgs : List Entry) : served msgs = [] ∨ served msgs = msgs := by
  by_cases h : ∀ e ∈ msgs, e.id.serialisable = true
  · exact Or.inr (served_of_serialisable h)
  · exact Or.inl (served_of_not_serialisable h)

/-- A list that is served without a cut is its own window only where nothing had to be cut off. -/
theorem served_eq_rtake_iff {msgs : List Entry} {k : ℕ} (hk : 0 < k) :
    served msgs = msgs.rtake k ↔
      (∀ e ∈ msgs.rtake k, e.id.serialisable = true) ∧ msgs.length ≤ k := by
  constructor
  · intro h
    rcases served_eq_or msgs with hnil | hself
    · -- nothing is served, so the window is empty and with it the list
      have hlen := Window.length_rtake k msgs
      rw [← h, hnil, List.length_nil] at hlen
      obtain rfl : msgs = [] := List.length_eq_zero_iff.mp (by omega)
      exact ⟨by simp, Nat.zero_le k⟩
    · have hlen := Window.length_rtake k msgs
      rw [← h, hself] at hlen
      refine ⟨?_, by omega⟩
      rw [← h, hself]
      exact served_eq_self_iff.mp hself
  · rintro ⟨hall, hle⟩
    rw [Window.rtake_of_length_le hle] at hall ⊢
    exact served_of_serialisable hall

namespace FeedCache

/-! ## What is asked for

A request has a limit and perhaps a room.  The messages that it is about are in the cache, in the
order of their arrival, and the last ones of them are what it should get. -/

/-- The cached messages that a request with an optional room is about, in cache order. -/
def selected (c : FeedCache) (room : Option Str) : List Entry :=
  if room = none ∨ room = some [] ∨ room = some general then c.globalMsgCache
  else c.globalMsgCache.filter fun m ↦ decide (some m.room = room)

theorem selected_none (c : FeedCache) : c.selected none = c.globalMsgCache := if_pos (Or.inl rfl)

/-- `target[-0:]` is the whole list. -/
theorem cacheGet_zero (c : FeedCache) (room : Option Str) :
    c.cacheGet room 0 = c.selected room := by
  show (if ((c.selected room).length : ℤ) ≤ 0 then c.selected room
    else lastOf 0 (c.selected room)) = _
  split
  · rfl
  · exact List.drop_zero

/-- With a positive limit, a reader gets the end of the list. -/
theorem cacheGet_of_pos (c : FeedCache) (room : Option Str) {limit : ℤ} (h : 0 < limit) :
    c.cacheGet room limit = (c.selected room).rtake limit.toNat := by
  show (if ((c.selected room).length : ℤ) ≤ limit then c.selected room
    else lastOf limit (c.selected room)) = _
  split
  · exact (Window.rtake_of_length_le (by omega)).symm
  · rw [lastOf, if_pos h]

end FeedCache

namespace Node

variable (n : Node)

/-- The bytes of the global feed are those of the cached messages. -/
def FreshFeed (now : ℤ) : Prop :=
  (n.store.globalFeed now).1 = served n.store.cache.globalMsgCache

/-- They are whenever the bytes may not be served as they are. -/
theorem freshFeed_of_not_fast {now : ℤ} (h : ¬n.store.json.Fast ((now : ℚ) / 1000)) :
    n.FreshFeed now := by
  show (getFeedBytes dumpsEntries n.store.cache n.store.json _).feedJsonCache = _
  rw [getFeedBytes, if_neg h, served]
  cases dumpsEntries.dumps n.store.cache.globalMsgCache <;> rfl

/-- The list that is serialised for a request. -/
def asked (room : Option Str) (limit : ℤ) : List Entry :=
  if room = none ∨ limit = 0 then n.store.cache.selected room
  else (n.store.cache.selected room).rtake limit.toNat

/-- **What the route returns.** -/
theorem getFeedRoute_eq_served {room : Option Str} {limit now : ℤ} (hlimit : 0 ≤ limit)
    (hfresh : room = none → n.FreshFeed now) :
    (n.getFeedRoute room limit now).1 = served (n.asked room limit) := by
  cases room with
  | none =>
    rw [asked, if_pos (Or.inl rfl), FeedCache.selected_none]
    exact hfresh rfl
  | some r =>
    show served (n.store.cache.cacheGet (some r) limit) = _
    rcases Int.lt_or_eq_of_le hlimit with hpos | rfl
    · rw [asked, if_neg (by simp; omega), FeedCache.cacheGet_of_pos _ _ hpos]
    · rw [asked, if_pos (Or.inr rfl), FeedCache.cacheGet_zero]

/-- The requests whose limit is honoured. -/
def HonoursLimit (room : Option Str) (limit : ℤ) : Prop :=
  if limit = 0 then
    n.store.cache.selected room = [] ∨
      ∃ e ∈ n.store.cache.selected room, e.id.serialisable = false
  else
    (∀ e ∈ (n.store.cache.selected room).rtake limit.toNat, e.id.serialisable = true) ∧
      (room = none → (n.store.cache.selected room).length ≤ limit)

instance (room : Option Str) (limit : ℤ) : Decidable (n.HonoursLimit room limit) :=
  inferInstanceAs (Decidable (if limit = 0 then _ else _))

/-- **When the limit is honoured.**  The reader gets the last `limit` messages that the room selects
exactly in these two cases: the limit is 0 and there is nothing to return, or it is positive, each
of these messages can be serialised, and either a room is given or the cache is no longer than the
limit. -/
theorem feedLimit_iff {room : Option Str} {limit now : ℤ} (hlimit : 0 ≤ limit)
    (hfresh : room = none → n.FreshFeed now) :
    (n.getFeedRoute room limit now).1 = (n.store.cache.selected room).rtake limit.toNat ↔
      n.HonoursLimit room limit := by
  rw [n.getFeedRoute_eq_served hlimit hfresh, HonoursLimit, asked]
  rcases Int.lt_or_eq_of_le hlimit with hpos | rfl
  · have hne : limit ≠ 0 := by omega
    rw [if_neg hne]
    by_cases hroom : room = none
    · have hcast : (n.store.cache.selected room).length ≤ limit.toNat ↔
          ((n.store.cache.selected room).length : ℤ) ≤ limit := by omega
      rw [if_pos (Or.inl hroom), served_eq_rtake_iff (by omega), hcast,
        imp_iff_right hroom]
    · have hnot : ¬(room = none ∨ limit = 0) := not_or.mpr ⟨hroom, hne⟩
      rw [if_neg hnot, served_eq_self_iff, and_iff_left fun h ↦ absurd h hroom]
  · rw [if_pos rfl, if_pos (Or.inr rfl), Int.toNat_zero, List.rtake_zero, served_eq_nil_iff]

/-! ## Two messages

One node and three requests. -/

/-- Two messages are posted. -/
def twoPosts : List Event :=
  [postEvent (lit "m1") (lit "hi"), postEvent (lit "m2") (lit "hello")]

/-- The last two messages of all rooms. -/
theorem feedLimit_twoPosts :
    ∃ n, (system plainEnv).Reachable n ∧ n.store.cache.globalMsgCache.length = 2 ∧
      (n.getFeedRoute none 2 2000).1 = (n.store.cache.selected none).rtake 2 := by
  have hexec : (System.exec (step plainEnv) (initial plainEnv) twoPosts).map (fun n ↦
      (n.store.cache.globalMsgCache.length, decide (n.HonoursLimit none 2),
        decide (n.store.json.Fast (((2000 : ℤ) : ℚ) / 1000)))) = some (2, true, false) := by
    decide +kernel
  obtain ⟨n, hn, hval⟩ := Option.map_eq_some_iff.mp hexec
  obtain ⟨hlen, hrest⟩ := Prod.mk.inj hval
  obtain ⟨hhonours, hslow⟩ := Prod.mk.inj hrest
  have hfresh : (none : Option Str) = none → n.FreshFeed 2000 := fun _ ↦
    n.freshFeed_of_not_fast (of_decide_eq_false hslow)
  exact ⟨n, System.reachable_of_exec rfl hn, hlen,
    (n.feedLimit_iff (by decide) hfresh).mpr (of_decide_eq_true hhonours)⟩

/-- The same node returns both messages to a reader of the global feed who asks for one, and to a
reader of the room who asks for none. -/
theorem not_feedLimit_twoPosts :
    ∃ n, (system plainEnv).Reachable n ∧ n.FreshFeed 2000 ∧
      (n.getFeedRoute none 1 2000).1 ≠ (n.store.cache.selected none).rtake 1 ∧
      (n.getFeedRoute (some general) 0 2000).1 ≠
        (n.store.cache.selected (some general)).rtake 0 := by
  have hexec : (System.exec (step plainEnv) (initial plainEnv) twoPosts).map (fun n ↦
      (decide (n.store.json.Fast (((2000 : ℤ) : ℚ) / 1000)),
        (n.getFeedRoute none 1 2000).1.length,
        (n.getFeedRoute (some general) 0 2000).1.length)) = some (false, 2, 2) := by
    decide +kernel
  obtain ⟨n, hn, hval⟩ := Option.map_eq_some_iff.mp hexec
  obtain ⟨hslow, hboth⟩ := Prod.mk.inj hval
  obtain ⟨hglobal, hroom⟩ := Prod.mk.inj hboth
  refine ⟨n, System.reachable_of_exec rfl hn,
    n.freshFeed_of_not_fast (of_decide_eq_false hslow), fun h ↦ ?_, fun h ↦ ?_⟩
  · have hlen := Window.length_rtake 1 (n.store.cache.selected none)
    rw [← h, hglobal] at hlen
    omega
  · have hlen := Window.length_rtake 0 (n.store.cache.selected (some general))
    rw [← h, hroom] at hlen
    omega

end Node
end GroupChat
