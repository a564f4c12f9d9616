import GroupChat.Lib.Transition
import GroupChat.Py.Json
import GroupChat.Store.Cache

/-!
# The serialised feed

`get_feed_bytes` answers the global `/feed` from bytes that are written at most once per second.
It runs on the event loop, so one call is never interrupted by another one, but `_cache_put` is
called from worker threads as well and can come between any two of its steps.

* `FeedJson` holds the bytes, the dirty flag and the time of the last serialisation, and
  `getFeedBytes` is the whole call with no put in between.
* `Feed.next` is the same call one atomic step at a time, together with the puts of the other
  threads.  `Feed.exec_call` says that without puts in between the steps are `getFeedBytes`.

A put raises the flag under the lock of the cache, while `get_feed_bytes` lowers it under another
lock, some steps after it has taken its snapshot.  A put in between is in the cache, not in the
bytes, and no longer marked: `Feed.not_fresh` is a run in which it is not served three seconds
later.  `Feed.Quiet` excludes exactly such a put, and `Feed.fresh_of_quiet` says that every call of
a run without one serves everything that was put more than a second before.

The bytes never matter, only what they are the serialisation of, so the model is parametrised by
the form in which the feed is kept (`Dumps`).
-/

set_option autoImplicit false

namespace GroupChat

open Transition

universe u

/-! ## The feed and its globals

The serialised feed is a global, with a flag and a time beside it.  A call that finds the flag
lowered, or the time less than a second ago, returns the global as it is. -/

/-- How a list of entries is serialised. -/
structure Dumps (β : Type u) where
  /-- `_json.dumps(msgs).encode('utf-8')`; `none` where it raises. -/
  dumps : List Entry → Option β
  /-- `b'[]'`. -/
  nil : β
  dumps_nil : dumps [] = some nil
  /-- It raises exactly for an id that is not serialisable. -/
  isSome_dumps : ∀ msgs, (dumps msgs).isSome ↔ ∀ e ∈ msgs, e.id.serialisable = true

/-- The texts that the server sends.  They are ASCII, so a text stands for its encoding. -/
def dumpsBytes (L : PyLib) : Dumps Str where
  dumps msgs := (Value.list (msgs.map fun e ↦ .dict e.toObj)).dumps L
  nil := lit "[]"
  dumps_nil := rfl
  isSome_dumps msgs := by
    rw [Value.isSome_dumps, Value.serialisable, Value.serialisableList_iff, List.forall_mem_map]
    simp [Value.serialisable, Value.serialisable.serialisableFields, Entry.toObj]

/-- The feed as the list of its entries. -/
def dumpsEntries : Dumps (List Entry) where
  dumps msgs := if ∀ e ∈ msgs, e.id.serialisable = true then some msgs else none
  nil := []
  dumps_nil := by simp
  isSome_dumps msgs := by simp

/-- The globals of the serialised feed. -/
structure FeedJson (β : Type u) where
  /-- `_feed_json_cache`. -/
  feedJsonCache : β
  /-- `_feed_json_dirty`. -/
  feedJsonDirty : Bool
  /-- `_last_serialized_at`, in seconds. -/
  lastSerializedAt : ℚ

variable {β : Type u} (D : Dumps β)

/-- The globals at the start. -/
def FeedJson.empty : FeedJson β := ⟨D.nil, true, 0⟩

/-- May the bytes be served as they are? -/
def FeedJson.Fast (j : FeedJson β) (now : ℚ) : Prop :=
  j.feedJsonDirty = false ∨ now - j.lastSerializedAt < 1

instance (j : FeedJson β) (now : ℚ) : Decidable (j.Fast now) :=
  inferInstanceAs (Decidable (_ ∨ _))

/-- `get_feed_bytes`, with no put in between. -/
def getFeedBytes (c : FeedCache) (j : FeedJson β) (now : ℚ) : FeedJson β :=
  if j.Fast now then j
  else
    match D.dumps c.globalMsgCache with
    | some b => ⟨b, false, now⟩
    | none => { j with feedJsonCache := D.nil }

namespace Feed

/-! ## A call step by step

`_cache_put` is called from worker threads, and can come between any two of the steps in which a
call reads or writes a global.  So a call is cut at these accesses, and `Pc` says where it
stands. -/

/-- Where a call of `get_feed_bytes` stands.  `t` is the time it was made at, `now` the time read
under `_feed_json_lock`. -/
inductive Pc (β : Type u)
  | idle
  /-- Before the check without the lock. -/
  | check (t : ℚ)
  /-- Before `_feed_json_lock`. -/
  | wait (t : ℚ)
  /-- Before the check under the lock. -/
  | recheck (t now : ℚ)
  /-- Before the snapshot. -/
  | snapshot (t now : ℚ)
  /-- Before the assignment to `_feed_json_cache`. -/
  | dump (t now : ℚ) (msgs : List Entry)
  /-- Before the assignment to `_last_serialized_at`. -/
  | stamp (t now : ℚ)
  /-- Before the assignment to `_feed_json_dirty`. -/
  | clean (t : ℚ)
  /-- Before the last `return`. -/
  | finish (t : ℚ)
  /-- The call has returned the bytes `b`. -/
  | ret (t : ℚ) (b : β)

/-- Has the call taken its snapshot and not lowered the flag yet? -/
def Pc.publishing : Pc β → Bool
  | .dump _ _ _ => true
  | .stamp _ _ => true
  | .clean _ => true
  | _ => false

/-- Has the call returned? -/
def Pc.returned : Pc β → Bool
  | .ret _ _ => true
  | _ => false

theorem Pc.returned_iff {pc : Pc β} : pc.returned = true ↔ ∃ t b, pc = .ret t b := by
  cases pc <;> simp [Pc.returned]

/-! ## The state, and what is claimed

The state has the puts so far, each with its time, so that a call can be asked for what was put
more than a second before. -/

/-- The globals, the call in progress and, to speak about the past, the puts so far. -/
structure State (β : Type u) where
  cache : FeedCache
  json : FeedJson β
  pc : Pc β
  /-- The clock, in seconds. -/
  clock : ℚ
  /-- The entries that were put into the cache, with the times at which. -/
  log : List (Entry × ℚ)

/-- What can happen. -/
inductive Event
  /-- A thread runs the locked section of `_cache_put`. -/
  | put (now : ℚ) (e : Entry)
  /-- `get_feed_bytes` is called. -/
  | call (now : ℚ)
  /-- The call gets `_feed_json_lock` and reads the clock again. -/
  | lock (now : ℚ)
  /-- The call does its next step. -/
  | advance

/-- The steps of a call that read no clock. -/
def advance (s : State β) : Option (State β) :=
  match s.pc with
  | .idle => none
  | .check t =>
    if s.json.Fast t then some { s with pc := .ret t s.json.feedJsonCache }
    else some { s with pc := .wait t }
  | .wait _ => none
  | .recheck t now =>
    if s.json.Fast now then some { s with pc := .ret t s.json.feedJsonCache }
    else some { s with pc := .snapshot t now }
  | .snapshot t now => some { s with pc := .dump t now s.cache.globalMsgCache }
  | .dump t now msgs =>
    match D.dumps msgs with
    | some b => some { s with json := { s.json with feedJsonCache := b }, pc := .stamp t now }
    | none => some { s with json := { s.json with feedJsonCache := D.nil }, pc := .finish t }
  | .stamp t now =>
    some { s with json := { s.json with lastSerializedAt := now }, pc := .clean t }
  | .clean t => some { s with json := { s.json with feedJsonDirty := false }, pc := .finish t }
  | .finish t => some { s with pc := .ret t s.json.feedJsonCache }
  | .ret _ _ => some { s with pc := .idle }

/-- The locked section of `_cache_put`. -/
def put (s : State β) (now : ℚ) (e : Entry) : State β :=
  if s.cache.Accepts e then
    { s with cache := s.cache.insert e, json := { s.json with feedJsonDirty := true }, clock := now,
             log := s.log ++ [(e, now)] }
  else { s with clock := now }

/-- One event.  The clock never goes back. -/
def next (s : State β) : Event → Option (State β)
  | .put now e => if s.clock ≤ now then some (put s now e) else none
  | .call now =>
    match s.pc with
    | .idle => if s.clock ≤ now then some { s with pc := .check now, clock := now } else none
    | _ => none
  | .lock now =>
    match s.pc with
    | .wait t => if s.clock ≤ now then some { s with pc := .recheck t now, clock := now } else none
    | _ => none
  | .advance => advance D s

/-- A node that has just started. -/
def initial (clock : ℚ) : State β := ⟨.empty, .empty D, .idle, clock, []⟩

/-- The event loop and the threads. -/
def system : System (State β) Event :=
  .ofFun (fun s ↦ ∃ clock, 0 ≤ clock ∧ s = initial D clock) (next D)

/-- The bytes `b` are a serialisation that contains every entry that was put more than one second
before `t` and is not evicted.  (The last 20000 entries of the log are not.) -/
def Fresh (s : State β) (t : ℚ) (b : β) : Prop :=
  ∃ msgs, D.dumps msgs = some b ∧ ∀ k e p, s.log[k]? = some (e, p) → p + 1 < t →
    s.log.length ≤ k + msgCacheSize → e ∈ msgs

/-- The condition on a step: only serialisable ids are put, and no entry is put while a call is
publishing its snapshot. -/
def Quiet (s : State β) : Event → Prop
  | .put _ e =>
    e.id.serialisable = true ∧ (s.cache.Accepts e → s.pc.publishing = false)
  | _ => True

instance (s : State β) : ∀ a : Event, Decidable (Quiet s a)
  | .put _ _ => inferInstanceAs (Decidable (_ ∧ (_ → _)))
  | .call _ => .isTrue trivial
  | .lock _ => .isTrue trivial
  | .advance => .isTrue trivial

/-! ## The invariant

Between calls the bytes are a serialisation of the cache as it was after the first so many puts,
and if the flag is lowered then there has been no put since.  During a call it depends on the
place. -/

/-- The entries that a cache holds after the puts of a log. -/
def window (log : List (Entry × ℚ)) : List Entry := (log.map Prod.fst).rtake msgCacheSize

/-- The bytes `b` are a serialisation of the cache as it was after the first `m` puts, and the
puts since then happened at the time `lo` or later. -/
def Served (log : List (Entry × ℚ)) (b : β) (lo : ℚ) (m : ℕ) : Prop :=
  m ≤ log.length ∧ D.dumps (window (log.take m)) = some b ∧
    ∀ k e p, m ≤ k → log[k]? = some (e, p) → lo ≤ p

/-- What holds outside of the section that publishes a snapshot. -/
structure Settled (s : State β) : Prop where
  /-- The bytes are at least as new as their time stamp. -/
  served : ∃ m, Served D s.log s.json.feedJsonCache s.json.lastSerializedAt m
  /-- Bytes that are not marked are up to date. -/
  current : s.json.feedJsonDirty = false → D.dumps (window s.log) = some s.json.feedJsonCache

/-- What holds at each point of a call. -/
def PcInv (s : State β) : Prop :=
  match s.pc with
  | .idle => Settled D s
  | .check t => Settled D s ∧ t ≤ s.clock
  | .wait t => Settled D s ∧ t ≤ s.clock
  | .recheck t now => Settled D s ∧ t ≤ now ∧ now ≤ s.clock
  | .snapshot t now => Settled D s ∧ t ≤ now ∧ now ≤ s.clock
  | .dump t now msgs => msgs = window s.log ∧ t ≤ now ∧ now ≤ s.clock
  | .stamp t now => D.dumps (window s.log) = some s.json.feedJsonCache ∧ t ≤ now ∧ now ≤ s.clock
  | .clean t =>
    D.dumps (window s.log) = some s.json.feedJsonCache ∧ t ≤ s.json.lastSerializedAt ∧ t ≤ s.clock
  | .finish t => Settled D s ∧ t ≤ s.json.lastSerializedAt ∧ t ≤ s.clock
  | .ret t b => Settled D s ∧ Fresh D s t b ∧ t ≤ s.clock

/-- The invariant of the runs in which every step is quiet. -/
structure Inv (s : State β) : Prop where
  /-- The cache shows the end of the log. -/
  window_eq : s.cache.globalMsgCache = window s.log
  serialisable : ∀ x ∈ s.log, x.1.id.serialisable = true
  stamp_le : s.json.lastSerializedAt ≤ s.clock
  pc : PcInv D s

variable {D}

theorem served_length {log : List (Entry × ℚ)} {b : β} (lo : ℚ)
    (h : D.dumps (window log) = some b) : Served D log b lo log.length := by
  refine ⟨le_rfl, by rwa [List.take_length], fun k e p hk hg ↦ ?_⟩
  rw [List.getElem?_eq_none hk] at hg
  simp at hg

/-- An entry of a log with one more put is an old one or the new one. -/
theorem getElem?_log_append {log : List (Entry × ℚ)} {k : ℕ} {x y : Entry × ℚ}
    (h : (log ++ [x])[k]? = some y) : log[k]? = some y ∨ y = x := by
  rcases Nat.lt_or_ge k log.length with hlt | hge
  · rw [List.getElem?_append_left hlt] at h
    exact Or.inl h
  · rw [List.getElem?_append_right hge] at h
    exact Or.inr (by simpa using List.mem_of_getElem? h)

/-- A put moves the time of nothing that is already served. -/
theorem Served.append {log : List (Entry × ℚ)} {b : β} {lo now : ℚ} {m : ℕ} (e : Entry)
    (h : Served D log b lo m) (hnow : lo ≤ now) : Served D (log ++ [(e, now)]) b lo m := by
  obtain ⟨hm, hd, hlate⟩ := h
  refine ⟨?_, by rwa [List.take_append_of_le_length hm], fun k e' p hk hg ↦ ?_⟩
  · rw [List.length_append]
    omega
  · rcases getElem?_log_append hg with hold | hnew
    · exact hlate k e' p hk hold
    · obtain ⟨rfl, rfl⟩ := Prod.mk.inj hnew
      exact hnow

/-- An entry that is still cached now was cached after the first `m` puts, if it was one of
them. -/
theorem mem_window_take {log : List (Entry × ℚ)} {k m : ℕ} {e : Entry} {p : ℚ}
    (hg : log[k]? = some (e, p)) (hkm : k < m) (hm : m ≤ log.length)
    (hk : log.length ≤ k + msgCacheSize) : e ∈ window (log.take m) := by
  have hlen : ((log.take m).map Prod.fst).length = m := by
    rw [List.length_map, List.length_take, Nat.min_eq_left hm]
  have hget : ((log.take m).map Prod.fst)[k]? = some e := by
    rw [List.getElem?_map, List.getElem?_take_of_lt hkm, hg]
    rfl
  have hsplit : m - msgCacheSize + (k - (m - msgCacheSize)) = k := by omega
  rw [window, List.rtake, hlen]
  refine List.mem_of_getElem? (i := k - (m - msgCacheSize)) ?_
  rw [List.getElem?_drop, hsplit, hget]

/-- **What may be served as it is, is fresh.** -/
theorem Settled.fresh {s : State β} {t now : ℚ} (h : Settled D s) (hnow : t ≤ now)
    (hfast : s.json.Fast now) : Fresh D s t s.json.feedJsonCache := by
  have hmain : ∃ m, m ≤ s.log.length ∧ D.dumps (window (s.log.take m)) = some s.json.feedJsonCache ∧
      ∀ k e p, s.log[k]? = some (e, p) → p + 1 < t → k < m := by
    rcases hfast with hclean | hyoung
    · refine ⟨s.log.length, le_rfl, ?_, fun k e p hg _ ↦ ?_⟩
      · rw [List.take_length]
        exact h.current hclean
      · exact (List.getElem?_eq_some_iff.mp hg).1
    · obtain ⟨m, hm, hd, hlate⟩ := h.served
      refine ⟨m, hm, hd, fun k e p hg hp ↦ ?_⟩
      by_contra hkm
      have hlo := hlate k e p (Nat.le_of_not_lt hkm) hg
      linarith
  obtain ⟨m, hm, hd, hold⟩ := hmain
  exact ⟨_, hd, fun k e p hg hp hk ↦ mem_window_take hg (hold k e p hg hp) hm hk⟩

/-! ## What a put preserves

A put raises the flag, and what has been served is as fresh as before: the entry of the put itself
is too young to be missed. -/

theorem put_of_accepts {s : State β} {e : Entry} (now : ℚ) (h : s.cache.Accepts e) :
    put s now e =
      { s with cache := s.cache.insert e, json := { s.json with feedJsonDirty := true },
               clock := now, log := s.log ++ [(e, now)] } := if_pos h

theorem put_of_not_accepts {s : State β} {e : Entry} (now : ℚ) (h : ¬ s.cache.Accepts e) :
    put s now e = { s with clock := now } := if_neg h

theorem window_append (log : List (Entry × ℚ)) (e : Entry) (now : ℚ) :
    window (log ++ [(e, now)]) = Window.push msgCacheSize (window log) e := by
  rw [window, window, Window.push_rtake, List.map_append, List.map_singleton]

/-- What was returned stays fresh: a put after the call is too young to be missed, and it can
only evict. -/
theorem Fresh.append {s : State β} {t : ℚ} {b : β} {e : Entry} {now : ℚ} {s' : State β}
    (h : Fresh D s t b) (hnow : t ≤ now) (hlog : s'.log = s.log ++ [(e, now)]) :
    Fresh D s' t b := by
  obtain ⟨msgs, hd, hall⟩ := h
  refine ⟨msgs, hd, fun k e' p hg hp hk ↦ ?_⟩
  rw [hlog] at hg hk
  rw [List.length_append, List.length_singleton] at hk
  rcases getElem?_log_append hg with hold | hnew
  · exact hall k e' p hold hp (by omega)
  · obtain ⟨rfl, rfl⟩ := Prod.mk.inj hnew
    linarith

theorem Settled.put {s : State β} {e : Entry} {now : ℚ} (h : Settled D s)
    (hnow : s.json.lastSerializedAt ≤ now) : Settled D (put s now e) := by
  by_cases ha : s.cache.Accepts e
  · rw [put_of_accepts now ha]
    obtain ⟨m, hm⟩ := h.served
    exact ⟨⟨m, hm.append e hnow⟩, fun hf ↦ by simp at hf⟩
  · rw [put_of_not_accepts now ha]
    exact ⟨h.served, h.current⟩

theorem Fresh.put {s : State β} {t now : ℚ} {b : β} (e : Entry) (h : Fresh D s t b)
    (hnow : t ≤ now) : Fresh D (put s now e) t b := by
  by_cases ha : s.cache.Accepts e
  · exact h.append hnow (congrArg State.log (put_of_accepts now ha))
  · rw [put_of_not_accepts now ha]
    exact h

theorem PcInv.put {s : State β} {e : Entry} {now : ℚ} (h : PcInv D s) (hclock : s.clock ≤ now)
    (hstamp : s.json.lastSerializedAt ≤ s.clock)
    (hquiet : s.cache.Accepts e → s.pc.publishing = false) : PcInv D (put s now e) := by
  have hpc : (Feed.put s now e).pc = s.pc := by rw [Feed.put]; split <;> rfl
  have hc : (Feed.put s now e).clock = now := by rw [Feed.put]; split <;> rfl
  have hl : (Feed.put s now e).json.lastSerializedAt = s.json.lastSerializedAt := by
    rw [Feed.put]; split <;> rfl
  have hput : ∀ h : Settled D s, Settled D (Feed.put s now e) :=
    fun h ↦ h.put (hstamp.trans hclock)
  -- while a snapshot is being published, nothing is accepted, so nothing changes but the clock
  have hsame : s.pc.publishing = true → Feed.put s now e = { s with clock := now } :=
    fun hp ↦ put_of_not_accepts now fun ha ↦ by simp [hquiet ha] at hp
  cases hs : s.pc with
  | idle =>
    simp only [PcInv, hpc, hs] at h ⊢
    exact hput h
  | check t =>
    simp only [PcInv, hpc, hs, hc] at h ⊢
    exact ⟨hput h.1, h.2.trans hclock⟩
  | wait t =>
    simp only [PcInv, hpc, hs, hc] at h ⊢
    exact ⟨hput h.1, h.2.trans hclock⟩
  | recheck t now' =>
    simp only [PcInv, hpc, hs, hc] at h ⊢
    exact ⟨hput h.1, h.2.1, h.2.2.trans hclock⟩
  | snapshot t now' =>
    simp only [PcInv, hpc, hs, hc] at h ⊢
    exact ⟨hput h.1, h.2.1, h.2.2.trans hclock⟩
  | dump t now' msgs =>
    rw [hsame (by rw [hs]; rfl)]
    simp only [PcInv, hs] at h ⊢
    exact ⟨h.1, h.2.1, h.2.2.trans hclock⟩
  | stamp t now' =>
    rw [hsame (by rw [hs]; rfl)]
    simp only [PcInv, hs] at h ⊢
    exact ⟨h.1, h.2.1, h.2.2.trans hclock⟩
  | clean t =>
    rw [hsame (by rw [hs]; rfl)]
    simp only [PcInv, hs] at h ⊢
    exact ⟨h.1, h.2.1, h.2.2.trans hclock⟩
  | finish t =>
    simp only [PcInv, hpc, hs, hc, hl] at h ⊢
    exact ⟨hput h.1, h.2.1, h.2.2.trans hclock⟩
  | ret t b =>
    simp only [PcInv, hpc, hs, hc] at h ⊢
    exact ⟨hput h.1, h.2.1.put e (h.2.2.trans hclock), h.2.2.trans hclock⟩

theorem Inv.put {s : State β} {e : Entry} {now : ℚ} (h : Inv D s) (hclock : s.clock ≤ now)
    (hq : Quiet s (.put now e)) : Inv D (put s now e) := by
  have hpc := h.pc.put hclock h.stamp_le hq.2
  by_cases ha : s.cache.Accepts e
  · rw [put_of_accepts now ha] at hpc ⊢
    refine ⟨?_, ?_, h.stamp_le.trans hclock, hpc⟩
    · rw [window_append, ← h.window_eq]
      exact FeedCache.globalMsgCache_insert ha
    · intro x hx
      rcases List.mem_append.mp hx with hx | hx
      · exact h.serialisable x hx
      · rw [List.mem_singleton.mp hx]
        exact hq.1
  · rw [put_of_not_accepts now ha] at hpc ⊢
    exact ⟨h.window_eq, h.serialisable, h.stamp_le.trans hclock, hpc⟩

/-! ## What a call preserves

Each step of the call leads from one part of `PcInv` to the next one.  Only the step that lowers
the flag needs the condition. -/

/-- In a quiet run the feed can always be serialised. -/
theorem Inv.dumps_window {s : State β} (h : Inv D s) : ∃ b, D.dumps (window s.log) = some b := by
  refine Option.isSome_iff_exists.mp ((D.isSome_dumps _).mpr fun e he ↦ ?_)
  obtain ⟨x, hx, rfl⟩ := List.mem_map.mp ((Window.rtake_suffix _ _).subset he)
  exact h.serialisable x hx

theorem Inv.advance {s s' : State β} (h : Inv D s) (hs : advance D s = some s') : Inv D s' := by
  obtain ⟨hw, hser, hstamp, hpc⟩ := id h
  cases hp : s.pc with
  | idle => simp [Feed.advance, hp] at hs
  | check t =>
    simp only [Feed.advance, hp] at hs
    simp only [PcInv, hp] at hpc
    split at hs
    · rename_i hfast
      obtain rfl := Option.some.inj hs
      exact ⟨hw, hser, hstamp, ⟨hpc.1.served, hpc.1.current⟩, hpc.1.fresh le_rfl hfast, hpc.2⟩
    · obtain rfl := Option.some.inj hs
      exact ⟨hw, hser, hstamp, ⟨hpc.1.served, hpc.1.current⟩, hpc.2⟩
  | wait t => simp [Feed.advance, hp] at hs
  | recheck t now =>
    simp only [Feed.advance, hp] at hs
    simp only [PcInv, hp] at hpc
    split at hs
    · rename_i hfast
      obtain rfl := Option.some.inj hs
      exact ⟨hw, hser, hstamp, ⟨hpc.1.served, hpc.1.current⟩, hpc.1.fresh hpc.2.1 hfast,
        hpc.2.1.trans hpc.2.2⟩
    · obtain rfl := Option.some.inj hs
      exact ⟨hw, hser, hstamp, ⟨hpc.1.served, hpc.1.current⟩, hpc.2⟩
  | snapshot t now =>
    simp only [Feed.advance, hp] at hs
    simp only [PcInv, hp] at hpc
    obtain rfl := Option.some.inj hs
    exact ⟨hw, hser, hstamp, hw, hpc.2⟩
  | dump t now msgs =>
    simp only [Feed.advance, hp] at hs
    simp only [PcInv, hp] at hpc
    obtain ⟨b, hb⟩ := h.dumps_window
    rw [hpc.1, hb] at hs
    obtain rfl := Option.some.inj hs
    exact ⟨hw, hser, hstamp, hb, hpc.2⟩
  | stamp t now =>
    simp only [Feed.advance, hp] at hs
    simp only [PcInv, hp] at hpc
    obtain rfl := Option.some.inj hs
    exact ⟨hw, hser, hpc.2.2, hpc.1, hpc.2.1, hpc.2.1.trans hpc.2.2⟩
  | clean t =>
    simp only [Feed.advance, hp] at hs
    simp only [PcInv, hp] at hpc
    obtain rfl := Option.some.inj hs
    exact ⟨hw, hser, hstamp, ⟨⟨_, served_length _ hpc.1⟩, fun _ ↦ hpc.1⟩, hpc.2⟩
  | finish t =>
    simp only [Feed.advance, hp] at hs
    simp only [PcInv, hp] at hpc
    obtain rfl := Option.some.inj hs
    have hfast : s.json.Fast t := Or.inr (by linarith [hpc.2.1])
    exact ⟨hw, hser, hstamp, ⟨hpc.1.served, hpc.1.current⟩, hpc.1.fresh le_rfl hfast, hpc.2.2⟩
  | ret t b =>
    simp only [Feed.advance, hp] at hs
    simp only [PcInv, hp] at hpc
    obtain rfl := Option.some.inj hs
    exact ⟨hw, hser, hstamp, ⟨hpc.1.served, hpc.1.current⟩⟩

/-- Every quiet event keeps the invariant. -/
theorem Inv.next {s s' : State β} {a : Event} (h : Inv D s) (hq : Quiet s a)
    (hs : next D s a = some s') : Inv D s' := by
  obtain ⟨hw, hser, hstamp, hpc⟩ := id h
  cases a with
  | put now e =>
    simp only [Feed.next] at hs
    split at hs
    · rename_i hclock
      obtain rfl := Option.some.inj hs
      exact h.put hclock hq
    · simp at hs
  | call now =>
    simp only [Feed.next] at hs
    split at hs
    · rename_i hp
      split at hs
      · rename_i hclock
        obtain rfl := Option.some.inj hs
        simp only [PcInv, hp] at hpc
        exact ⟨hw, hser, hstamp.trans hclock, ⟨hpc.served, hpc.current⟩, le_rfl⟩
      · simp at hs
    · simp at hs
  | lock now =>
    simp only [Feed.next] at hs
    split at hs
    · rename_i t hp
      split at hs
      · rename_i hclock
        obtain rfl := Option.some.inj hs
        simp only [PcInv, hp] at hpc
        exact ⟨hw, hser, hstamp.trans hclock, ⟨hpc.1.served, hpc.1.current⟩,
          hpc.2.trans hclock, le_rfl⟩
      · simp at hs
    · simp at hs
  | advance => exact h.advance hs

theorem Inv.initial {clock : ℚ} (hc : 0 ≤ clock) : Inv D (initial D clock) := by
  have hw : window ([] : List (Entry × ℚ)) = [] := by simp [window]
  have hd : D.dumps (window ([].take 0)) = some D.nil := by rw [List.take_nil, hw, D.dumps_nil]
  refine ⟨hw.symm, by simp [Feed.initial], hc, ⟨⟨0, le_rfl, hd, by simp [Feed.initial]⟩, ?_⟩⟩
  intro hclean
  simp [Feed.initial, FeedJson.empty] at hclean

/-- **Bounded staleness.**  In a run in which no entry is put while a call publishes its snapshot,
every call returns everything that was put more than one second before it was made. -/
theorem fresh_of_quiet (L : PyLib) {s : State Str} {t : ℚ} {b : Str}
    (h : ((system (dumpsBytes L)).when Quiet).Reachable s) (hs : s.pc = .ret t b) :
    Fresh (dumpsBytes L) s t b := by
  have hinv : Inv (dumpsBytes L) s := by
    refine h.invariant ?_ fun s a s' hi hstep ↦ hi.next hstep.1 hstep.2
    rintro s ⟨clock, hc, rfl⟩
    exact Inv.initial hc
  have hpc := hinv.pc
  simp only [PcInv, hs] at hpc
  exact hpc.2.1

/-! ## A call without a put in between, and one with

Left alone, the steps are the function of the source.  The run that misses a put has it in between
two of them. -/

/-- Left alone, the steps of a call are `getFeedBytes`. -/
theorem exec_call {s : State β} {now : ℚ} (hs : s.pc = .idle) (hclock : s.clock ≤ now) :
    ∃ l, System.exec (next D) s (.call now :: l) =
      some { s with
        json := getFeedBytes D s.cache s.json now, clock := now,
        pc := .ret now (getFeedBytes D s.cache s.json now).feedJsonCache } := by
  obtain ⟨c, j, pc, clock, log⟩ := s
  obtain rfl : pc = .idle := hs
  have hclock : clock ≤ now := hclock
  by_cases hf : j.Fast now
  · refine ⟨[.advance], ?_⟩
    simp [System.exec, next, advance, hclock, hf, getFeedBytes]
  · cases hd : D.dumps c.globalMsgCache with
    | some b =>
      refine ⟨[.advance, .lock now, .advance, .advance, .advance, .advance, .advance, .advance], ?_⟩
      simp [System.exec, next, advance, hclock, hf, getFeedBytes, hd]
    | none =>
      refine ⟨[.advance, .lock now, .advance, .advance, .advance, .advance], ?_⟩
      simp [System.exec, next, advance, hclock, hf, getFeedBytes, hd]

/-- A message of Alice's. -/
def aliceEntry (id : ℤ) (text : Str) : Entry where
  id := .int id
  key := .num id
  id_key := rfl
  username := lit "Alice"
  text := text
  room := general
  timestamp := 1

/-- A put between the snapshot of a call and the end of its publication; the next call is made
two seconds later. -/
def missedRun : List Event :=
  [.put 1 (aliceEntry 1 (lit "hi")), .call 2, .advance, .lock 2, .advance, .advance,
    .put 2 (aliceEntry 2 (lit "missed")), .advance, .advance, .advance, .advance, .advance,
    .call 4, .advance]

/-- The same puts, the second one after the publication. -/
def servedRun : List Event :=
  [.put 1 (aliceEntry 1 (lit "hi")), .call 2, .advance, .lock 2, .advance, .advance, .advance,
    .advance, .advance, .put 2 (aliceEntry 2 (lit "served")), .advance, .advance, .call 4, .advance,
    .lock 4, .advance, .advance, .advance, .advance, .advance, .advance]

/-- **The missed put.**  Two seconds after the second message was put, the feed is returned
without it. -/
theorem not_fresh : ∃ s t b, (system (dumpsBytes asciiLib)).Reachable s ∧
    (∀ x ∈ s.log, x.1.id.serialisable = true) ∧ s.pc = .ret t b ∧
    ¬ Fresh (dumpsBytes asciiLib) s t b := by
  let e₁ := aliceEntry 1 (lit "hi")
  let e₂ := aliceEntry 2 (lit "missed")
  let b : Str := ((dumpsBytes asciiLib).dumps [e₁]).getD []
  have hrun : (System.exec (next (dumpsBytes asciiLib)) (initial (dumpsBytes asciiLib) 0)
      missedRun).map (fun s ↦ (s.log, s.pc)) = some ([(e₁, 1), (e₂, 2)], .ret 4 b) := by
    with_unfolding_all rfl
  obtain ⟨s, hs, hres⟩ := Option.map_eq_some_iff.mp hrun
  obtain ⟨hlog, hpc⟩ := Prod.mk.inj hres
  refine ⟨s, 4, b, System.reachable_of_exec ⟨0, le_rfl, rfl⟩ hs, ?_, hpc, ?_⟩
  · rw [hlog]
    simp [e₁, e₂, aliceEntry, Value.serialisable]
  · rintro ⟨msgs, hd, hall⟩
    have hmem : e₂ ∈ msgs := by
      refine hall 1 e₂ 2 (by rw [hlog]; rfl) (by norm_num) ?_
      rw [hlog]
      exact Nat.le_add_right 2 19999
    -- the text of the second message alone is longer than what was returned
    obtain ⟨t, ht, hin⟩ := Value.infix_dumps_list asciiLib (List.mem_map_of_mem hmem) hd
    have hlen : ((Value.dict e₂.toObj).dumps asciiLib).map List.length = some 161 := by
      decide +kernel
    have hb : b.length = 155 := by decide +kernel
    rw [ht, Option.map_some, Option.some_inj] at hlen
    have hle := hin.length_le
    omega

/-- A run with nothing to miss: the second call returns both messages. -/
theorem fresh_servedRun : ∃ s t b, s.log.length = 2 ∧ Fresh (dumpsBytes asciiLib) s t b := by
  have hrun : (System.exec (fun s a ↦ if Quiet s a then next (dumpsBytes asciiLib) s a else none)
      (initial (dumpsBytes asciiLib) 0) servedRun).map (fun s ↦ (s.log.length, s.pc.returned)) =
        some (2, true) := by
    decide +kernel
  obtain ⟨s, hs, hres⟩ := Option.map_eq_some_iff.mp hrun
  obtain ⟨hlog, hret⟩ := Prod.mk.inj hres
  obtain ⟨t, b, hpc⟩ := Pc.returned_iff.mp hret
  exact ⟨s, t, b, hlog, fresh_of_quiet asciiLib
    ((System.trace_when_of_exec hs).reachable ⟨0, le_rfl, rfl⟩) hpc⟩

end Feed
end GroupChat
