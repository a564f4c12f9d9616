import GroupChat.Lib.DedupWindow
import GroupChat.Py.Value

/-!
# The feed cache

`server/store.py` keeps the messages that `/feed` and the room histories serve in one deque of at
most 20000 entries, `_global_msg_cache`, with the set `_global_msg_ids` beside it for the duplicate
check.

* `compactMsg` is the part of `_cache_put` before the lock: it picks the fields of a raw message,
  with their defaults and cuts, and raises what the conversions raise.  The result is an `Entry`,
  which carries the proof that its id is hashable.
* `FeedCache.insert` is the part under the lock, and `FeedCache.cachePut` is both.
* `FeedCache.cacheGet` is `_cache_get`.

The ids of the cached entries together with the set are a `DedupWindow` (`FeedCache.dedup`), and
`FeedCache.dedup_insert` says that the part under the lock is `DedupWindow.put`.  What the cache
does along a run of calls is read off from there: `feedIds_nodup_iff` says for exactly which
sequences of calls no id is ever held twice, and `not_nodup_feedIds` exhibits a sequence, of the
kind every busy node produces, for which one is.
-/

set_option autoImplicit false

namespace GroupChat

open DedupWindow

/-! ## Entries

The raw message is whatever a handler or a peer has made of it.  An entry has a string for every
field but the id, which stays as it is. -/

/-- The room a message without one belongs to. -/
def general : Str := lit "general"

/-- `_MSG_CACHE_SIZE`. -/
def msgCacheSize : ℕ := 20000

/-- How far the set of ids may outgrow the deque. -/
def idSlack : ℕ := 2000

/-- An entry of the feed cache.  The source stores the user name under `username` and
`client-name`, the text under `text` and `msg`, and the constants `verified` and `tampered`. -/
structure Entry where
  /-- The id as the client gave it. -/
  id : Value
  /-- What the set of ids compares. -/
  key : Key
  /-- The id is hashable. -/
  id_key : id.key? = some key
  username : Str
  text : Str
  room : Str
  timestamp : ℤ

/-- The entry as a dict, the way it is served. -/
def Entry.toObj (e : Entry) : Obj :=
  [("id", e.id), ("client-name", .str e.username), ("username", .str e.username),
    ("msg", .str e.text), ("text", .str e.text), ("room", .str e.room),
    ("timestamp", .int e.timestamp), ("verified", .bool true), ("tampered", .bool false)]

/-- The deque and the set of ids. -/
structure FeedCache where
  /-- `_global_msg_cache`, oldest entry first. -/
  globalMsgCache : List Entry
  /-- `_global_msg_ids`. -/
  globalMsgIds : Finset Key

/-- The cache of a node that has just started. -/
def FeedCache.empty : FeedCache := ⟨[], ∅⟩

/-! ## Making an entry

The fields are taken in turn, and each of them with the alternatives and the cuts of `_cache_put`.
The first conversion that fails ends the call. -/

/-- The name under which `_cache_put` files a message. -/
def compactUser (L : PyLib) (msg : Obj) : Str :=
  ((((msg.get "username").or (msg.get "client-name")).or (.str (lit "Anonymous"))).toStr L).take 100

/-- The text it files. -/
def compactText (L : PyLib) (msg : Obj) : Str :=
  ((((msg.get "text").or (msg.get "msg")).or (.str [])).toStr L).take 2000

/-- The room it files the message under. -/
def compactRoom (L : PyLib) (roomId : Value) (msg : Obj) : Str :=
  (((roomId.or (msg.get "room")).or (.str general)).toStr L).take 24

/-- The compact entry `_cache_put` makes of a message; `none` for a message without an id.  `now`
is the current time in milliseconds. -/
def compactMsg (L : PyLib) (now : ℤ) (roomId : Value) (msg : Obj) :
    Except PyError (Option Entry) :=
  if (msg.get "id").truthy = false then .ok none
  else
    match ((msg.get "timestamp").or (.int now)).toInt L with
    | .error e => .error e
    | .ok ts =>
      -- an unhashable id only raises at the membership test, with the same effect: none
      match h : (msg.get "id").key? with
      | none => .error .typeError
      | some k => .ok (some
          { id := msg.get "id", key := k, id_key := h, username := compactUser L msg,
            text := compactText L msg, room := compactRoom L roomId msg, timestamp := ts })

section compactMsg

variable {L : PyLib} {now : ℤ} {roomId : Value} {msg : Obj}

theorem compactMsg_of_key {k : Key} {ts : ℤ} (hid : (msg.get "id").truthy = true)
    (hts : ((msg.get "timestamp").or (.int now)).toInt L = .ok ts)
    (hk : (msg.get "id").key? = some k) :
    compactMsg L now roomId msg = .ok (some
      { id := msg.get "id", key := k, id_key := hk, username := compactUser L msg,
        text := compactText L msg, room := compactRoom L roomId msg, timestamp := ts }) := by
  rw [compactMsg, if_neg (by simp [hid]), hts]
  simp only
  split
  · rename_i hn
    exact absurd (hk.symm.trans hn) (by simp)
  · rename_i k' hk'
    obtain rfl : k = k' := Option.some.inj (hk.symm.trans hk')
    rfl

/-- A message whose id cannot be hashed. -/
theorem compactMsg_of_unhashable {ts : ℤ} (hid : (msg.get "id").truthy = true)
    (hts : ((msg.get "timestamp").or (.int now)).toInt L = .ok ts)
    (hk : (msg.get "id").key? = none) : compactMsg L now roomId msg = .error .typeError := by
  rw [compactMsg, if_neg (by simp [hid]), hts]
  simp only
  split
  · rfl
  · rename_i k hk'
    exact absurd (hk.symm.trans hk') (by simp)

/-- What the entry made of a message consists of. -/
theorem eq_of_compactMsg {e : Entry} (h : compactMsg L now roomId msg = .ok (some e)) :
    (msg.get "id").truthy = true ∧ e.id = msg.get "id" ∧ e.username = compactUser L msg ∧
      e.text = compactText L msg ∧ e.room = compactRoom L roomId msg := by
  rw [compactMsg] at h
  split at h
  · simp at h
  · rename_i hid
    split at h
    · simp at h
    · split at h
      · simp at h
      · obtain rfl := Option.some.inj (Except.ok.inj h)
        exact ⟨by simpa using hid, rfl, rfl, rfl, rfl⟩

theorem timestamp_of_compactMsg {e : Entry} (h : compactMsg L now roomId msg = .ok (some e)) :
    ((msg.get "timestamp").or (.int now)).toInt L = .ok e.timestamp := by
  rw [compactMsg] at h
  split at h
  · simp at h
  · split at h
    · simp at h
    · rename_i ts hts
      split at h
      · simp at h
      · obtain rfl := Option.some.inj (Except.ok.inj h)
        exact hts

end compactMsg

namespace FeedCache

/-! ## Putting and getting

The locked section is short, and does everything in one go: the id is looked up, the set is
rebuilt if it has got too large, and the entry is appended to the deque. -/

/-- Is the id of the entry new to the set? -/
def Accepts (c : FeedCache) (e : Entry) : Prop := e.key ∉ c.globalMsgIds

instance (c : FeedCache) (e : Entry) : Decidable (c.Accepts e) :=
  inferInstanceAs (Decidable (_ ∉ _))

/-- The part of `_cache_put` under the lock. -/
def insert (c : FeedCache) (e : Entry) : FeedCache :=
  if e.key ∈ c.globalMsgIds then c
  else
    let ids := Insert.insert e.key c.globalMsgIds
    let ids :=
      if msgCacheSize + idSlack < ids.card then (c.globalMsgCache.map Entry.key).toFinset else ids
    ⟨Window.push msgCacheSize c.globalMsgCache e, ids⟩

/-- `_cache_put`.  A call that raises leaves the cache as it is. -/
def cachePut (L : PyLib) (now : ℤ) (c : FeedCache) (roomId : Value) (msg : Obj) :
    Except PyError FeedCache :=
  match compactMsg L now roomId msg with
  | .error e => .error e
  | .ok none => .ok c
  | .ok (some e) => .ok (c.insert e)

/-- `target[-limit:]`, for a `limit` below the length. -/
def lastOf (limit : ℤ) (target : List Entry) : List Entry :=
  if 0 < limit then target.rtake limit.toNat else target.drop (-limit).toNat

/-- `_cache_get`. -/
def cacheGet (c : FeedCache) (roomId : Option Str) (limit : ℤ) : List Entry :=
  let target :=
    if roomId = none ∨ roomId = some [] ∨ roomId = some general then c.globalMsgCache
    else c.globalMsgCache.filter fun m ↦ decide (some m.room = roomId)
  if target.length ≤ limit then target else lastOf limit target

theorem lastOf_sublist (limit : ℤ) (target : List Entry) :
    (lastOf limit target).Sublist target := by
  rw [lastOf]
  split
  · exact (Window.rtake_suffix _ _).sublist
  · exact List.drop_sublist _ _

/-- What a reader gets is in the cache, in cache order, and was filed under the room asked for
unless the reader asked for everything. -/
theorem mem_of_mem_cacheGet {c : FeedCache} {roomId : Option Str} {limit : ℤ} {e : Entry}
    (h : e ∈ c.cacheGet roomId limit) :
    e ∈ c.globalMsgCache ∧
      (roomId = none ∨ roomId = some [] ∨ roomId = some general ∨ roomId = some e.room) := by
  have hsub : ∀ target : List Entry,
      e ∈ (if target.length ≤ limit then target else lastOf limit target) → e ∈ target := by
    intro target he
    split at he
    · exact he
    · exact (lastOf_sublist limit target).subset he
  have htarget := hsub _ h
  split at htarget
  · rename_i hall
    refine ⟨htarget, ?_⟩
    rcases hall with hall | hall | hall <;> simp [hall]
  · rw [List.mem_filter, decide_eq_true_eq] at htarget
    exact ⟨htarget.1, Or.inr (Or.inr (Or.inr htarget.2.symm))⟩

/-! ## The cache as a window of distinct keys

The deque of entries is looked at as the sequence of their keys, which is where the library on
windows applies. -/

/-- The keys of the cached entries, and the set. -/
def dedup (c : FeedCache) : DedupWindow Key := ⟨c.globalMsgCache.map Entry.key, c.globalMsgIds⟩

theorem insert_of_mem {c : FeedCache} {e : Entry} (h : ¬ c.Accepts e) : c.insert e = c := by
  rw [Accepts, not_not] at h
  rw [insert, if_pos h]

theorem globalMsgCache_insert {c : FeedCache} {e : Entry} (h : c.Accepts e) :
    (c.insert e).globalMsgCache = Window.push msgCacheSize c.globalMsgCache e := by
  rw [insert, if_neg h]

/-- As long as neither the deque nor the set is full, an entry that is accepted is appended. -/
theorem insert_of_room {c : FeedCache} {e : Entry} (h : c.Accepts e)
    (hlen : c.globalMsgCache.length < msgCacheSize)
    (hcard : c.globalMsgIds.card < msgCacheSize + idSlack) :
    c.insert e = ⟨c.globalMsgCache ++ [e], Insert.insert e.key c.globalMsgIds⟩ := by
  have hle : ¬ msgCacheSize + idSlack < (Insert.insert e.key c.globalMsgIds).card :=
    Nat.not_lt.mpr ((Finset.card_insert_le _ _).trans hcard)
  rw [insert, if_neg h]
  simp only [if_neg hle, Window.push_of_length_lt hlen]

/-- An entry that is cached after a put was cached before, or is the one that was put. -/
theorem mem_insert {c : FeedCache} {e x : Entry} (h : x ∈ (c.insert e).globalMsgCache) :
    x ∈ c.globalMsgCache ∨ x = e := by
  by_cases ha : c.Accepts e
  · rw [globalMsgCache_insert ha] at h
    exact Window.mem_of_mem_push h
  · rw [insert_of_mem ha] at h
    exact Or.inl h

/-- **The locked section is a put into the window of keys.** -/
theorem dedup_insert (c : FeedCache) (e : Entry) :
    (c.insert e).dedup = put msgCacheSize idSlack c.dedup e.key := by
  by_cases h : e.key ∈ c.globalMsgIds
  · rw [insert, if_pos h, put_of_mem (d := c.dedup) h]
  · rw [insert, put, if_neg h, if_neg (show e.key ∉ c.dedup.seen from h)]
    simp only [dedup, Window.map_push]
    rfl

end FeedCache

/-! ## Runs of calls

A fresh node and any calls of `_cache_put`, by whichever thread they are made: the locked sections
come one after the other. -/

/-- One call of `_cache_put`, with the time at which it is made. -/
structure PutCall where
  now : ℤ
  roomId : Value
  msg : Obj

/-- The key under which a call presents its message, if it gets as far as the set of ids. -/
def PutCall.key? (L : PyLib) (p : PutCall) : Option Key :=
  match compactMsg L p.now p.roomId p.msg with
  | .ok (some e) => some e.key
  | _ => none

/-- One call on a cache. -/
def FeedCache.call (L : PyLib) (c : FeedCache) (p : PutCall) : FeedCache :=
  match c.cachePut L p.now p.roomId p.msg with
  | .ok c' => c'
  | .error _ => c

/-- The cache after a sequence of calls on a fresh node. -/
def runPuts (L : PyLib) (calls : List PutCall) : FeedCache := calls.foldl (·.call L) .empty

/-- The ids of the entries of the feed after a sequence of calls. -/
def feedIds (L : PyLib) (calls : List PutCall) : List Key :=
  (runPuts L calls).globalMsgCache.map Entry.key

/-- The ids that a sequence of calls presents, in order. -/
def putKeys (L : PyLib) (calls : List PutCall) : List Key := calls.filterMap (·.key? L)

theorem dedup_call (L : PyLib) (c : FeedCache) (p : PutCall) :
    (c.call L p).dedup = run msgCacheSize idSlack c.dedup (p.key? L).toList := by
  rw [FeedCache.call, FeedCache.cachePut, PutCall.key?]
  cases hm : compactMsg L p.now p.roomId p.msg with
  | error e => rfl
  | ok o =>
    cases o with
    | none => rfl
    | some e => exact c.dedup_insert e

theorem dedup_foldl_call (L : PyLib) (calls : List PutCall) :
    ∀ c : FeedCache, (calls.foldl (·.call L) c).dedup =
      run msgCacheSize idSlack c.dedup (putKeys L calls) := by
  induction calls with
  | nil => intro c; rfl
  | cons p calls ih =>
    intro c
    rw [List.foldl_cons, ih, dedup_call, ← run_append, putKeys, putKeys, List.filterMap_cons]
    cases p.key? L <;> rfl

/-- The feed along a run is the window of keys along the ids of the run. -/
theorem feedIds_eq (L : PyLib) (calls : List PutCall) :
    feedIds L calls = (run msgCacheSize idSlack empty (putKeys L calls)).window :=
  congrArg window (dedup_foldl_call L calls .empty)

theorem slack_add_two_le : idSlack + 2 ≤ msgCacheSize := by decide

/-- **When the feed holds every id at most once.**  It does in all states of a run exactly when no
call of the run repeats the id of the call that made the set of ids be rebuilt last. -/
theorem feedIds_nodup_iff (L : PyLib) (calls : List PutCall) :
    (∀ cs, cs <+: calls → (feedIds L cs).Nodup) ↔
      NoEcho msgCacheSize idSlack empty none (putKeys L calls) := by
  rw [← nodup_iff_noEcho slack_add_two_le]
  constructor
  · intro h l hl
    obtain ⟨cs, hcs, rfl⟩ := List.prefix_filterMap_iff.mp hl
    rw [← putKeys, ← feedIds_eq]
    exact h cs hcs
  · intro h cs hcs
    rw [feedIds_eq]
    exact h _ (hcs.filterMap _)

/-- A message with the id `i + 1`, as the handlers put it. -/
def numberedPut (i : ℕ) : PutCall :=
  ⟨1, .str general, [("id", .int (i + 1)), ("username", .str (lit "Alice")),
    ("text", .str (lit "hi")), ("timestamp", .int 1)]⟩

/-- 22001 messages, each of them put twice: by the handler and by `append_message`. -/
def busyNode : List PutCall := (List.range 22001).flatMap fun i ↦ [numberedPut i, numberedPut i]

/-- The ids of the first `n` numbered messages. -/
def numberedKeys (n : ℕ) : List Key := (List.range n).map fun i : ℕ ↦ .num ((i + 1 : ℤ) : ℚ)

theorem nodup_numberedKeys (n : ℕ) : (numberedKeys n).Nodup := by
  refine List.nodup_range.map fun i j h ↦ ?_
  simpa using h

theorem key?_numberedPut (i : ℕ) :
    (numberedPut i).key? asciiLib = some (.num ((i + 1 : ℤ) : ℚ)) := by
  have hid : Obj.get (numberedPut i).msg "id" = .int (i + 1) := rfl
  have htruthy : (Value.int (i + 1)).truthy = true := by
    have hi : (i : ℤ) + 1 ≠ 0 := by omega
    simpa [Value.truthy] using hi
  have hkey : (Obj.get (numberedPut i).msg "id").key? = some (.num ((i + 1 : ℤ) : ℚ)) := rfl
  have hts : ((Obj.get (numberedPut i).msg "timestamp").or
      (.int (numberedPut i).now)).toInt asciiLib = .ok 1 := rfl
  rw [PutCall.key?, compactMsg_of_key (hid ▸ htruthy) hts hkey]

theorem putKeys_busyNode : putKeys asciiLib busyNode = doubled (numberedKeys 22001) := by
  have hpair : ∀ i : ℕ, [numberedPut i, numberedPut i].filterMap (·.key? asciiLib) =
      [.num ((i + 1 : ℤ) : ℚ), .num ((i + 1 : ℤ) : ℚ)] := by
    intro i
    simp [key?_numberedPut]
  rw [putKeys, busyNode, List.filterMap_flatMap, doubled, numberedKeys, List.flatMap_map]
  exact List.flatMap_congr fun i _ ↦ hpair i

/-- The feed of a node that has accepted 22001 messages holds the last one twice. -/
theorem not_nodup_feedIds : ¬ (feedIds asciiLib busyNode).Nodup := by
  have hsplit : numberedKeys 22001 = numberedKeys 22000 ++ [.num ((22000 + 1 : ℤ) : ℚ)] := by
    rw [numberedKeys, List.range_succ, List.map_append]
    rfl
  rw [feedIds_eq, putKeys_busyNode, hsplit]
  refine not_nodup_run_doubled (by decide) ?_ ?_
  · rw [← hsplit]
    exact nodup_numberedKeys 22001
  · simp [numberedKeys, msgCacheSize, idSlack]

end GroupChat
