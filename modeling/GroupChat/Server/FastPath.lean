import Mathlib.Data.List.Sort
import GroupChat.Server.Effects
import GroupChat.Server.Readings

/-!
# The fast path of `get_history`

`get_history` answers from the cache as soon as the cache holds one message of the room, and asks
the database otherwise.  The cache is filled by the traffic, by `warm_cache_from_db` with the 500
newest messages of all rooms, and by `get_history` itself with what it has fetched; and it forgets
its oldest entries.

* `Archive` is a store with its collection, `Archive.step` one event of it: a message comes in, a
  message is persisted by this or another node, a history is asked for, the process is restarted.
* `Archive.Agrees`: for every room but `general`, `get_history` returns the newest messages of the
  database, whatever the path.
* `Listed` says that entries are all the messages of a room, in the order of their times, and
  `Whole` that the cache holds all messages of a room or none; `agrees_settled_iff` says that this
  is what agreement amounts to, once everything is persisted.
* `Orderly` is the condition on a step, which speaks of the event and of the state before it: what
  it files under a room has to fit the known messages of the room (`Fits`), and nothing of a room
  is pushed out.  A new message, for instance, has to be later than all known ones of its room, and
  these have to be cached.  `whole_next_iff` is the equivalence for a step, and `agrees_iff` the one
  for runs.
-/

set_option autoImplicit false

namespace GroupChat

open Transition Window

/-! ## The database

A collection is a list of documents in the order of their insertion, and a query sorts those that
it selects by their times.  The newest ones, which a query with a limit returns, are the last ones
of the chronicle of the room. -/

/-- A document whose time is an integer, as the handlers make them. -/
structure Message extends Doc where
  time : ℤ
  timestamp_eq : timestamp = .int time

/-- Does the filter `{'room_id': room}` select a document with this `room_id`?  It looks into
arrays. -/
def Value.matchesRoom (v : Value) (room : Str) : Bool :=
  match v with
  | .str s => decide (s = room)
  | .list vs => vs.any fun v ↦ decide (v.str? = some room)
  | _ => false

/-- The documents of a room. -/
def inRoom (docs : List Message) (room : Str) : List Message :=
  docs.filter fun d ↦ d.roomId.matchesRoom room

/-- `sort=[('timestamp', DESCENDING)]`. -/
def newestFirst (docs : List Message) : List Message :=
  docs.insertionSort fun d d' ↦ d'.time ≤ d.time

/-- `limit=limit`; 0 is no limit. -/
def limited (limit : ℤ) (docs : List Message) : List Message :=
  if limit = 0 then docs else docs.take limit.natAbs

/-- The rows of the query of `get_history`, reversed. -/
def historyRows (docs : List Message) (room : Str) (limit : ℤ) : List Message :=
  (limited limit (newestFirst (inRoom docs room))).reverse

/-- The rows of the query of `warm_cache_from_db`, reversed. -/
def warmRows (docs : List Message) : List Message := (limited 500 (newestFirst docs)).reverse

/-- The id of a message, as a reader of the database gets it. -/
def Message.idText (L : PyLib) (d : Message) : Str := d.id.toStr L

/-! ## The chronicle of a room

A page of rows is compared with all messages of the room in the order of their times, which is a
sort with a stable insertion.  A new message that is not older than the others comes last. -/

/-- All messages of a room, in the order of their times. -/
def chronicle (docs : List Message) (room : Str) : List Message :=
  (newestFirst (inRoom docs room)).reverse

theorem historyRows_eq_rtake (docs : List Message) (room : Str) {limit : ℤ} (h : 1 ≤ limit) :
    historyRows docs room limit = (chronicle docs room).rtake limit.toNat := by
  have hne : limit ≠ 0 := by omega
  have habs : limit.natAbs = limit.toNat := by omega
  rw [historyRows, limited, if_neg hne, habs, chronicle, List.rtake_eq_reverse_take_reverse,
    List.reverse_reverse]

theorem length_chronicle (docs : List Message) (room : Str) :
    (chronicle docs room).length = (inRoom docs room).length := by
  rw [chronicle, List.length_reverse, newestFirst, List.length_insertionSort]

section Sorting

variable {r : Message → Message → Prop} [DecidableRel r] {d : Message} {xs ys : List Message}

/-- An element that may stand before the second part is inserted into the first part, ... -/
theorem orderedInsert_append_left (h : ∀ y ∈ ys, r d y) :
    (xs ++ ys).orderedInsert r d = xs.orderedInsert r d ++ ys := by
  induction xs with
  | nil =>
    cases ys with
    | nil => rfl
    | cons y ys => exact List.orderedInsert_cons_of_le r ys (h y List.mem_cons_self)
  | cons x xs ih =>
    by_cases hx : r d x
    · rw [List.cons_append, List.orderedInsert_cons_of_le r _ hx,
        List.orderedInsert_cons_of_le r _ hx]
      rfl
    · rw [List.cons_append, List.orderedInsert_of_not_le r _ hx,
        List.orderedInsert_of_not_le r _ hx, ih]
      rfl

/-- ... and one that must not stand before anything in the first part into the second one. -/
theorem orderedInsert_append_right (h : ∀ x ∈ xs, ¬r d x) :
    (xs ++ ys).orderedInsert r d = xs ++ ys.orderedInsert r d := by
  induction xs with
  | nil => rfl
  | cons x xs ih =>
    rw [List.cons_append, List.orderedInsert_of_not_le r _ (h x List.mem_cons_self),
      ih fun y hy ↦ h y (List.mem_cons_of_mem x hy)]
    rfl

end Sorting

/-- **The last of some documents in the order of times**: behind the later ones and those of the
same time, and before the earlier ones. -/
theorem newestFirst_concat (d : Message) (docs : List Message) : ∃ later earlier,
    newestFirst docs = later ++ earlier ∧ newestFirst (docs ++ [d]) = later ++ d :: earlier ∧
      (∀ m ∈ later, d.time ≤ m.time) ∧ ∀ m ∈ earlier, m.time < d.time := by
  induction docs with
  | nil => exact ⟨[], [], rfl, rfl, by simp, by simp⟩
  | cons x docs ih =>
    obtain ⟨later, earlier, hdocs, hconcat, hlater, hearlier⟩ := ih
    have hcons : ∀ ds : List Message, newestFirst (x :: ds) =
        (newestFirst ds).orderedInsert (fun d d' ↦ d'.time ≤ d.time) x := fun _ ↦ rfl
    rw [List.cons_append, hcons, hcons, hdocs, hconcat]
    rcases Int.lt_or_le x.time d.time with hx | hx
    · have hpast : ∀ m ∈ later, ¬m.time ≤ x.time := fun m hm ↦ by
        have := hlater m hm
        omega
      refine ⟨later, earlier.orderedInsert _ x, orderedInsert_append_right hpast, ?_, hlater,
        fun m hm ↦ ?_⟩
      · rw [orderedInsert_append_right hpast, List.orderedInsert_of_not_le _ _ (by omega)]
      · rcases (List.mem_orderedInsert _).mp hm with rfl | hm
        · exact hx
        · exact hearlier m hm
    · refine ⟨later.orderedInsert _ x, earlier, orderedInsert_append_left fun m hm ↦ ?_,
        orderedInsert_append_left fun m hm ↦ ?_, fun m hm ↦ ?_, hearlier⟩
      · exact (hearlier m hm).le.trans hx
      · rcases List.mem_cons.mp hm with rfl | hm
        · exact hx
        · exact (hearlier m hm).le.trans hx
      · rcases (List.mem_orderedInsert _).mp hm with rfl | hm
        · exact hx
        · exact hlater m hm

/-- The server inserts a document, unless its `_id` is taken. -/
def insertMessage {κ : Type*} [DecidableEq κ] (idKey : Value → κ) (docs : List Message)
    (d : Message) : List Message :=
  if ∃ e ∈ docs, idKey e.id = idKey d.id then docs else docs ++ [d]

theorem prefix_insertMessage {κ : Type*} [DecidableEq κ] (idKey : Value → κ)
    (docs : List Message) (d : Message) : docs <+: insertMessage idKey docs d := by
  rw [insertMessage]
  split
  · exact List.prefix_rfl
  · exact List.prefix_append docs [d]

/-! ## A store and its collection

The store of one process and the collection that several processes write to.  A message is filed
in the cache when it comes in, and is persisted at some later time; between the two, other
processes may persist messages of their own. -/

/-- A store, the collection, and the messages that are on their way to the collection. -/
structure Archive where
  store : Store
  /-- The collection, which is shared with other nodes. -/
  messages : List Message
  /-- The messages that have been accepted and not been persisted yet. -/
  pending : List Message

namespace Archive

variable {κ : Type*} [DecidableEq κ] (L : PyLib) (idKey : Value → κ) (s : Archive)

/-- What can happen. -/
inductive Event
  /-- A message is filed in the cache and is to be persisted: by a handler, by `receive_gossip`, or
  once more by `append_message`. -/
  | send (now : ℤ) (d : Message)
  /-- A message is inserted. -/
  | persist (i : ℕ)
  /-- Another node has a message inserted that this one does not hear of. -/
  | elsewhere (d : Message)
  /-- A call of `get_history`. -/
  | getHistory (now : ℤ) (room : Str) (limit : ℤ)
  /-- The process is replaced by a new one, which runs `warm_cache_from_db`. -/
  | restart (now : ℤ)

/-- `get_history`, with what the query returns. -/
def getHistory (now : ℤ) (room : Str) (limit : ℤ) : Store × Except PyError (List Obj) :=
  s.store.getHistory L now room limit
    (some ((historyRows s.messages room limit).map fun d ↦ d.toRow))

/-- One event; `none` if it cannot happen. -/
def step : Event → Option Archive
  | .send now d =>
    match s.store.cachePut L now d.roomId (cachedMsg d.toDoc) with
    | .ok store => some { s with store := store, pending := s.pending ++ [d] }
    -- the message is not accepted
    | .error _ => some s
  | .persist i => s.pending[i]?.map fun d ↦
      { s with
        messages := insertMessage idKey s.messages d
        pending := s.pending.eraseIdx i }
  | .elsewhere d => some { s with messages := insertMessage idKey s.messages d }
  | .getHistory now room limit => some { s with store := (s.getHistory L now room limit).1 }
  | .restart now => some
      { store := Store.empty.warmCacheFromDb L now
          (some ((warmRows s.messages).map fun d ↦ d.toRow))
        messages := s.messages
        pending := [] }

/-- A process that has just started, on a collection that may be in use. -/
def Initial (s : Archive) : Prop := s.store = Store.empty ∧ s.pending = []

/-- The runs of an archive. -/
def system : System Archive Event := .ofFun Initial (step L idKey)

/-- The rooms that the statement is about. -/
def Real (room : Str) : Prop := isValidRoomName (.str room) = true ∧ room ≠ general

instance : DecidablePred Real := fun _ ↦ inferInstanceAs (Decidable (_ ∧ _))

/-- `get_history` returns the ids of the newest messages of every room, in the order of time. -/
def Agrees : Prop :=
  ∀ room, Real room → ∀ now limit, 1 ≤ limit →
    ∃ history, (s.getHistory L now room limit).2 = .ok history ∧
      history.map (fun m ↦ m.get "id") =
        (historyRows s.messages room limit).map fun d ↦ .str (d.idText L)

/-- What the collection holds once all that is pending is persisted. -/
def known : List Message := s.pending.foldl (insertMessage idKey) s.messages

/-- The state in which all that was pending is persisted. -/
def settled : Archive := { s with messages := s.known idKey, pending := [] }

/-! ## Agreement as a property of the cache

For an exact condition the agreement has to be taken apart: a room of which nothing is cached
takes the slow path and agrees at once, and any other room agrees if the cache has all its
messages, in the order of their times. -/

/-- The entries of a room. -/
def atRoom (room : Str) (es : List Entry) : List Entry :=
  es.filter fun e ↦ decide (e.room = room)

/-- The entries are those of all messages of the room, in the order of their times. -/
def Listed (docs : List Message) (room : Str) (es : List Entry) : Prop :=
  es.map Entry.id = (chronicle docs room).map fun d ↦ .str (d.idText L)

/-- The cached entries of a room. -/
def held (room : Str) : List Entry := atRoom room s.store.cache.globalMsgCache

/-- The cache holds no message of the room, or all that are known. -/
def Whole (room : Str) : Prop :=
  s.held room = [] ∨ Listed L (s.known idKey) room (s.held room)

variable {L} {idKey} {s} {s' : Archive} {a : Event} {room : Str} {now limit : ℤ}

theorem Real.ne_nil (h : Real room) : room ≠ [] := by
  rintro rfl
  exact absurd h.1 (by decide)

theorem Listed.length_eq {docs : List Message} {es : List Entry} (h : Listed L docs room es) :
    es.length = (chronicle docs room).length := by
  simpa using congrArg List.length h

theorem target_of_real (h : Real room) (c : FeedCache) :
    c.target room = atRoom room c.globalMsgCache := by
  refine List.filter_congr fun e _ ↦ ?_
  rw [decide_eq_decide, or_iff_right h.ne_nil, or_iff_right h.2]

theorem cachedHistory_of_real (h : Real room) (hlimit : 1 ≤ limit) :
    s.store.cachedHistory room limit = ((s.held room).rtake limit.toNat).map Entry.toObj := by
  rw [Store.cachedHistory, FeedCache.cacheGet_eq_rtake _ _ hlimit, target_of_real h, held]

/-- **The fast path**: one cached message of the room is enough. -/
theorem getHistory_of_held (h : Real room) (hlimit : 1 ≤ limit)
    (hheld : s.held room ≠ []) :
    (s.getHistory L now room limit).2 =
      .ok (((s.held room).rtake limit.toNat).map Entry.toObj) := by
  have hget := cachedHistory_of_real (s := s) h hlimit
  have hne : s.store.cachedHistory room limit ≠ [] := by
    rw [hget, ne_eq, List.map_eq_nil_iff, rtake_eq_nil_iff (by omega)]
    exact hheld
  obtain ⟨m, ms, hcons⟩ := List.exists_cons_of_ne_nil hne
  unfold getHistory Store.getHistory
  rw [hcons, ← hget, hcons]

/-- A row is always filed, or skipped. -/
theorem cachePutAll_rows (room : Str) (docs : List Message) : ∀ st : Store,
    (st.cachePutAll L now (((docs.map fun d ↦ d.toRow).map (docToMsg L)).map fun m ↦
      (.str room, m))).2 = none := by
  induction docs with
  | nil => exact fun st ↦ rfl
  | cons d docs ih =>
    intro st
    obtain ⟨st', hput⟩ : ∃ st', st.cachePut L now (.str room) (docToMsg L d.toRow) = .ok st' := by
      by_cases hid : ((docToMsg L d.toRow).get "id").truthy = true
      · have hts : Obj.get (docToMsg L d.toRow) "timestamp" = .int d.time := d.timestamp_eq
        obtain ⟨ts, hint⟩ := Value.toInt_or_int L d.time now
        have hmsg : compactMsg L now (.str room) (docToMsg L d.toRow) = .ok (some _) :=
          compactMsg_of_key hid (hts ▸ hint) rfl
        exact ⟨_, by rw [Store.cachePut, hmsg]⟩
      · have hmsg : compactMsg L now (.str room) (docToMsg L d.toRow) = .ok none := by
          rw [compactMsg, if_pos (Bool.not_eq_true _ ▸ hid)]
        exact ⟨st, by rw [Store.cachePut, hmsg]⟩
    rw [List.map_cons, List.map_cons, List.map_cons, Store.cachePutAll, hput]
    exact ih st'

/-- The slow path: the rows, as they are. -/
theorem getHistory_of_not_held (h : Real room) (hlimit : 1 ≤ limit)
    (hheld : s.held room = []) :
    (s.getHistory L now room limit).2 =
      .ok (((historyRows s.messages room limit).map fun d ↦ d.toRow).map (docToMsg L)) := by
  have hget : s.store.cachedHistory room limit = [] := by
    rw [cachedHistory_of_real h hlimit, hheld]
    simp
  have hrows : (s.store.cachePutAll L now ((((historyRows s.messages room limit).map fun d ↦
      d.toRow).map (docToMsg L)).map fun m ↦ (.str room, m))).2 = none :=
    cachePutAll_rows room _ s.store
  unfold getHistory Store.getHistory
  rw [hget]
  simp only
  split
  · rfl
  · rename_i st e hst
    rw [hst] at hrows
    cases hrows

/-- **What agreement amounts to.** -/
theorem agrees_iff_listed : s.Agrees L ↔ ∀ room, Real room →
    s.held room = [] ∨ Listed L s.messages room (s.held room) := by
  refine forall₂_congr fun room hreal ↦ ?_
  constructor
  · intro h
    by_cases hheld : s.held room = []
    · exact Or.inl hheld
    · -- a limit for which nothing is cut off on either side
      have hpos : 0 < (s.held room).length := List.length_pos_iff.mpr hheld
      obtain ⟨history, hok, hids⟩ :=
        h 0 (max (s.held room).length (chronicle s.messages room).length)
        (by omega)
      rw [getHistory_of_held hreal (by omega) hheld, Except.ok.injEq] at hok
      rw [← hok, historyRows_eq_rtake _ _ (by omega), rtake_of_length_le (by omega),
        rtake_of_length_le (by omega), List.map_map] at hids
      exact Or.inr hids
  · intro h now limit hlimit
    by_cases hheld : s.held room = []
    · refine ⟨_, getHistory_of_not_held hreal hlimit hheld, ?_⟩
      rw [List.map_map, List.map_map]
      rfl
    · refine ⟨_, getHistory_of_held hreal hlimit hheld, ?_⟩
      have hlisted : (s.held room).map Entry.id = _ := h.resolve_left hheld
      rw [historyRows_eq_rtake _ _ hlimit, List.map_map, map_rtake, map_rtake, ← hlisted]
      rfl

theorem agrees_settled_iff :
    (s.settled idKey).Agrees L ↔ ∀ room, Real room → s.Whole L idKey room :=
  agrees_iff_listed

/-! ## What a step files

A step files a number of entries at the end of the cache, and this may push out entries at the
front.  `Orderly` says when the result is again what it should be, in terms of the messages known
before, the state of the cache before and the event. -/

variable (L) (s)

/-- The cache that a step starts from. -/
def base : Event → FeedCache
  | .restart _ => .empty
  | _ => s.store.cache

/-- The calls of `_cache_put` that a step makes. -/
def puts : Event → List PutCall
  | .send now d => [⟨now, d.roomId, cachedMsg d.toDoc⟩]
  | .getHistory now room limit =>
    if s.store.cachedHistory room limit = [] then
      rowPuts L now (((historyRows s.messages room limit).map fun d ↦ d.toRow).map fun doc ↦
        (.str room, docToMsg L doc))
    else []
  | .restart now =>
    rowPuts L now (((warmRows s.messages).map fun d ↦ d.toRow).map fun doc ↦
      (doc.getD "room_id" (.str general), warmMsg L doc))
  | _ => []

/-- The entries that a step files. -/
def filed (a : Event) : List Entry := (s.base a).added L (s.puts L a)

/-- The entries that a step leaves in the cache. -/
def stays (a : Event) : List Entry :=
  (s.base a).globalMsgCache.rtake (msgCacheSize - (s.filed L a).length)

/-- The entries that a step adds to these. -/
def enters (a : Event) : List Entry := (s.filed L a).rtake msgCacheSize

variable (idKey)

/-- The messages that are known after a step. -/
def knownAfter : Event → List Message
  | .send now d =>
    match s.store.cachePut L now d.roomId (cachedMsg d.toDoc) with
    | .ok _ => insertMessage idKey (s.known idKey) d
    | .error _ => s.known idKey
  | .persist i =>
    match s.pending[i]? with
    | some d =>
      (s.pending.eraseIdx i).foldl (insertMessage idKey) (insertMessage idKey s.messages d)
    | none => s.known idKey
  | .elsewhere d => s.pending.foldl (insertMessage idKey) (insertMessage idKey s.messages d)
  | .getHistory .. => s.known idKey
  | .restart _ => s.messages

/-! ## The condition

What a step files is compared with the messages known before.  The condition has one case for a
message, one for a page and one for a restart. -/

/-- A message of the room with an id that is not known yet. -/
def IsNew (d : Message) (room : Str) : Prop :=
  d.roomId.matchesRoom room = true ∧ ∀ m ∈ s.known idKey, idKey m.id ≠ idKey d.id

instance (d : Message) (room : Str) : Decidable (s.IsNew idKey d room) :=
  inferInstanceAs (Decidable (_ ∧ ∀ m ∈ s.known idKey, _))

/-- What a step files under a room fits the messages of the room that are known before.

* A new message has an id that is a text, all known messages of its room are cached and stay so, and
  it is later than these, unless they have the same id.
* A call of `get_history` for the room, on the slow path, files all known messages of the room.
* After a restart, the messages that are filed are all messages of the room, in the order of their
  times.
* What else is filed completes the known messages of the room: the message of a `send` that is not
  new, and what is filed by a `get_history` for a longer name or without a proper limit. -/
def Fits (room : Str) : Event → Prop
  | .send now d =>
    if s.IsNew idKey d room then
      d.id = .str (d.idText L) ∧
        (atRoom room (s.stays L (.send now d))).length = (inRoom (s.known idKey) room).length ∧
          ∀ m ∈ inRoom (s.known idKey) room, d.time ≤ m.time → m.idText L = d.idText L
    else
      Listed L (s.known idKey) room
        (atRoom room (s.stays L (.send now d) ++ s.enters L (.send now d)))
  | .getHistory now room' limit =>
    if room' = room ∧ 1 ≤ limit then
      (atRoom room (s.enters L (.getHistory now room' limit))).length =
        (inRoom (s.known idKey) room).length
    else
      Listed L (s.known idKey) room
        (atRoom room (s.stays L (.getHistory now room' limit) ++
          s.enters L (.getHistory now room' limit)))
  | .restart now => Listed L s.messages room (atRoom room (s.enters L (.restart now)))
  | _ => True

/-- The condition on a step, for a room of which something is cached afterwards.  If the step files
nothing under the room, then it pushes no entry of the room out, and the messages of the room are
the same as before.  Otherwise what it files fits. -/
def OrderlyIn (a : Event) (room : Str) : Prop :=
  (atRoom room (s.enters L a) = [] →
    (atRoom room (s.stays L a)).length = (atRoom room (s.base a).globalMsgCache).length ∧
      (chronicle (s.knownAfter L idKey a) room).map (Message.idText L) =
        (chronicle (s.known idKey) room).map (Message.idText L)) ∧
  (atRoom room (s.enters L a) ≠ [] → s.Fits L idKey room a)

/-- The condition on a step. -/
def Orderly (a : Event) : Prop :=
  ∀ room ∈ (s.stays L a ++ s.enters L a).map Entry.room, Real room → s.OrderlyIn L idKey a room

variable {L} {idKey} {s}

/-! ## What a step does

The cache after a step, and the messages that are known after it, in terms of the lists defined
above. -/

/-- **The cache after a step.** -/
theorem cache_step (h : s.step L idKey a = some s') :
    s'.store.cache = (s.puts L a).foldl (·.call L) (s.base a) := by
  cases a with
  | send now d =>
    rw [step] at h
    split at h
    · rename_i store hput
      obtain rfl := Option.some.inj h
      exact Store.cache_of_cachePut hput
    · rename_i e hput
      obtain rfl := Option.some.inj h
      exact (Store.call_of_cachePut_error hput).symm
  | persist i =>
    obtain ⟨d, -, rfl⟩ := Option.map_eq_some_iff.mp h
    rfl
  | elsewhere d =>
    obtain rfl := Option.some.inj h
    rfl
  | getHistory now room limit =>
    obtain rfl := Option.some.inj h
    exact Node.cache_getHistory s.store room limit _
  | restart now =>
    obtain rfl := Option.some.inj h
    exact Store.cache_cachePutAll L now _ Store.empty

theorem globalMsgCache_step (h : s.step L idKey a = some s')
    (hlen : s.store.cache.globalMsgCache.length ≤ msgCacheSize) :
    s'.store.cache.globalMsgCache = s.stays L a ++ s.enters L a := by
  have hbase : (s.base a).globalMsgCache.length ≤ msgCacheSize := by
    cases a with
    | restart now => exact Nat.zero_le _
    | _ => exact hlen
  rw [cache_step h, FeedCache.globalMsgCache_calls L _ _ hbase, rtake_append]
  rfl

theorem length_globalMsgCache_step (h : s.step L idKey a = some s')
    (hlen : s.store.cache.globalMsgCache.length ≤ msgCacheSize) :
    s'.store.cache.globalMsgCache.length ≤ msgCacheSize := by
  rw [globalMsgCache_step h hlen, stays, enters, ← rtake_append, length_rtake]
  exact Nat.min_le_left _ _

theorem knownAfter_eq (h : s.step L idKey a = some s') :
    s.knownAfter L idKey a = s'.known idKey := by
  cases a with
  | send now d =>
    rw [step] at h
    rw [knownAfter]
    split at h
    · obtain rfl := Option.some.inj h
      exact (List.foldl_concat ..).symm
    · obtain rfl := Option.some.inj h
      rfl
  | persist i =>
    obtain ⟨d, hd, rfl⟩ := Option.map_eq_some_iff.mp h
    rw [knownAfter, hd]
    rfl
  | elsewhere d =>
    obtain rfl := Option.some.inj h
    rfl
  | getHistory now room limit =>
    obtain rfl := Option.some.inj h
    rfl
  | restart now =>
    obtain rfl := Option.some.inj h
    rfl

/-- A step that files nothing pushes nothing out. -/
theorem stays_of_filed_eq_nil (hfiled : s.filed L a = [])
    (hlen : s.store.cache.globalMsgCache.length ≤ msgCacheSize) :
    s.stays L a = (s.base a).globalMsgCache := by
  rw [stays, hfiled]
  refine rtake_of_length_le ?_
  cases a with
  | restart now => exact Nat.zero_le _
  | _ => exact hlen

/-- A step that files something takes no message away, unless it is a restart. -/
theorem prefix_known_of_filed (h : s.step L idKey a = some s') (hfiled : s.filed L a ≠ [])
    (hrestart : ∀ now, a ≠ .restart now) : s.known idKey <+: s'.known idKey := by
  cases a with
  | send now d =>
    rw [step] at h
    split at h
    · obtain rfl := Option.some.inj h
      rw [known, known, List.foldl_append]
      exact prefix_insertMessage idKey _ d
    · obtain rfl := Option.some.inj h
      exact List.prefix_rfl
  | persist i => exact absurd rfl hfiled
  | elsewhere d => exact absurd rfl hfiled
  | getHistory now room limit =>
    obtain rfl := Option.some.inj h
    exact List.prefix_rfl
  | restart now => exact absurd rfl (hrestart now)

theorem length_chronicle_le {docs docs' : List Message} (h : docs <+: docs') (room : Str) :
    (chronicle docs room).length ≤ (chronicle docs' room).length := by
  rw [length_chronicle, length_chronicle]
  exact (h.sublist.filter _).length_le

theorem atRoom_suffix (s : Archive) (a : Event) (room : Str) :
    atRoom room (s.stays L a) <:+ atRoom room (s.base a).globalMsgCache :=
  (rtake_suffix _ _).filter _

theorem atRoom_ne_nil_iff {es : List Entry} :
    atRoom room es ≠ [] ↔ room ∈ es.map Entry.room := by
  rw [ne_eq, atRoom, List.filter_eq_nil_iff, List.mem_map]
  simp

/-- Ids that are the same as texts. -/
theorem map_str_inj {docs docs' : List Message} :
    (docs.map fun d ↦ Value.str (d.idText L)) = docs'.map (fun d ↦ Value.str (d.idText L)) ↔
      docs.map (Message.idText L) = docs'.map (Message.idText L) := by
  have hmap : ∀ ds : List Message, (ds.map fun d ↦ Value.str (d.idText L)) =
      (ds.map (Message.idText L)).map Value.str := fun ds ↦ (List.map_map).symm
  rw [hmap, hmap]
  exact List.map_inj_right fun x y h ↦ Value.str.inj h

/-! ## A message, and a page of rows

There are two ways to file something.  A message is filed as one entry, which has to come last in
the chronicle.  `get_history` files a page of rows, which has to be all that is known, since
nothing of the room was cached before. -/

/-- A list whose first element can as well be the last one. -/
theorem concat_eq_cons_iff {α : Type*} {x y : α} {xs : List α} :
    xs ++ [y] = x :: xs ↔ y = x ∧ ∀ z ∈ xs, z = x := by
  induction xs generalizing x with
  | nil => simp
  | cons z xs ih =>
    rw [List.forall_mem_cons, List.cons_append, List.cons.injEq, ih]
    constructor
    · rintro ⟨rfl, rfl, hxs⟩
      exact ⟨rfl, rfl, hxs⟩
    · rintro ⟨rfl, rfl, hxs⟩
      exact ⟨rfl, rfl, hxs⟩

/-- **The chronicle with a new message**: its ids are those from before and that of the message
exactly if the message is later than the others of the room. -/
theorem chronicle_concat_iff {docs : List Message} {d : Message} {room : Str}
    (hroom : d.roomId.matchesRoom room = true) {id : Value} :
    ((chronicle docs room).map fun m ↦ Value.str (m.idText L)) ++ [id] =
        (chronicle (docs ++ [d]) room).map (fun m ↦ .str (m.idText L)) ↔
      id = .str (d.idText L) ∧
        ∀ m ∈ inRoom docs room, d.time ≤ m.time → m.idText L = d.idText L := by
  have hin : inRoom (docs ++ [d]) room = inRoom docs room ++ [d] := by
    rw [inRoom, List.filter_append, List.filter_singleton, hroom]
    rfl
  obtain ⟨later, earlier, hdocs, hconcat, hlater, hearlier⟩ :=
    newestFirst_concat d (inRoom docs room)
  have hmem : ∀ m, m ∈ later ↔ m ∈ inRoom docs room ∧ d.time ≤ m.time := by
    intro m
    have hperm : m ∈ inRoom docs room ↔ m ∈ later ++ earlier := by
      rw [← hdocs, newestFirst, List.mem_insertionSort]
    rw [hperm, List.mem_append]
    constructor
    · exact fun hm ↦ ⟨Or.inl hm, hlater m hm⟩
    · rintro ⟨hm | hm, htime⟩
      · exact hm
      · have := hearlier m hm
        omega
  have hforall : (∀ m ∈ inRoom docs room, d.time ≤ m.time → m.idText L = d.idText L) ↔
      ∀ v ∈ (later.reverse.map fun m ↦ Value.str (m.idText L)), v = .str (d.idText L) := by
    rw [List.forall_mem_map]
    simp only [List.mem_reverse, hmem, Value.str.injEq, and_imp]
  rw [chronicle, chronicle, hin, hconcat, hdocs, hforall, List.reverse_append, List.reverse_append,
    List.reverse_cons, List.append_assoc, List.map_append, List.map_append, List.append_assoc,
    List.append_cancel_left_eq, List.map_append]
  exact concat_eq_cons_iff

/-- The entries of a room that stay are all of it, if they are as many. -/
theorem map_id_stays (hbase : s.base a = s.store.cache) (hwhole : s.Whole L idKey room)
    (hlength : (atRoom room (s.stays L a)).length = (inRoom (s.known idKey) room).length) :
    (atRoom room (s.stays L a)).map Entry.id =
      (chronicle (s.known idKey) room).map fun m ↦ .str (m.idText L) := by
  have hsuffix : atRoom room (s.stays L a) <:+ s.held room := by
    have h := atRoom_suffix (L := L) s a room
    rwa [hbase] at h
  rw [← length_chronicle] at hlength
  rcases hwhole with hnone | hlisted
  · rw [hnone] at hsuffix
    rw [List.suffix_nil.mp hsuffix] at hlength ⊢
    rw [List.eq_nil_of_length_eq_zero hlength.symm]
    rfl
  · rw [hsuffix.eq_of_length (hlength.trans hlisted.length_eq.symm)]
    exact hlisted

/-- What a `send` files. -/
theorem filed_send {d : Message} (hfiled : s.filed L (.send now d) ≠ []) :
    ∃ e, s.filed L (.send now d) = [e] ∧ e.id = d.id ∧
      ∃ store, s.store.cachePut L now d.roomId (cachedMsg d.toDoc) = .ok store := by
  rcases FeedCache.added_cons L s.store.cache ⟨now, d.roomId, cachedMsg d.toDoc⟩ [] with
    ⟨-, hnil⟩ | ⟨e, he, -, -, hadded⟩
  · exact absurd hnil hfiled
  · have hcompact := PutCall.entry?_eq_some_iff.mp he
    refine ⟨e, hadded, (eq_of_compactMsg hcompact).2.1, ?_⟩
    rw [Store.cachePut, hcompact]
    exact ⟨_, rfl⟩

/-- The ids of the entries that are filed are among those of the messages, in their order. -/
theorem map_id_added_sublist (L : PyLib) (puts : List PutCall) : ∀ c : FeedCache,
    ((c.added L puts).map Entry.id).Sublist (puts.map fun p ↦ p.msg.get "id") := by
  induction puts with
  | nil => exact fun c ↦ List.Sublist.refl []
  | cons p puts ih =>
    intro c
    rcases c.added_cons L p puts with ⟨-, hadded⟩ | ⟨e, he, -, -, hadded⟩
    · rw [hadded]
      exact (ih c).cons _
    · rw [hadded, List.map_cons, List.map_cons,
        (eq_of_compactMsg (PutCall.entry?_eq_some_iff.mp he)).2.1]
      exact (ih _).cons_cons _

/-- The ids of what `get_history` files are among those of the rows. -/
theorem map_id_filed_getHistory (s : Archive) (now : ℤ) (room : Str) (limit : ℤ) :
    ((s.filed L (.getHistory now room limit)).map Entry.id).Sublist
      ((historyRows s.messages room limit).map fun m ↦ .str (m.idText L)) := by
  refine (map_id_added_sublist L _ _).trans ?_
  rw [puts]
  split
  · rw [rowPuts, List.map_map, List.map_map]
    refine ((List.takeWhile_sublist _).map _).trans ?_
    rw [List.map_map]
    exact List.Sublist.refl _
  · exact List.nil_sublist _

theorem prefix_known (s : Archive) : s.messages <+: s.known idKey := by
  rw [known]
  generalize s.messages = docs
  induction s.pending generalizing docs with
  | nil => exact List.prefix_rfl
  | cons d pending ih => exact (prefix_insertMessage idKey docs d).trans (ih _)

/-- Nothing is cached of a room for which `get_history` takes the slow path. -/
theorem stays_getHistory (hreal : Real room) (hlimit : 1 ≤ limit)
    (hfiled : s.filed L (.getHistory now room limit) ≠ []) :
    atRoom room (s.stays L (.getHistory now room limit)) = [] := by
  have hcached : s.store.cachedHistory room limit = [] := by
    by_contra hne
    refine hfiled ?_
    rw [filed, puts, if_neg hne]
    rfl
  rw [cachedHistory_of_real hreal hlimit, List.map_eq_nil_iff, rtake_eq_nil_iff (by omega)]
    at hcached
  have hsuffix := atRoom_suffix (L := L) s (.getHistory now room limit) room
  rw [show atRoom room (s.base (.getHistory now room limit)).globalMsgCache = [] from hcached]
    at hsuffix
  exact List.suffix_nil.mp hsuffix

/-- **The slow path fits** if it files as many messages as are known. -/
theorem listed_getHistory_iff {es : List Entry}
    (hes : (es.map Entry.id).Sublist
      ((historyRows s.messages room limit).map fun m ↦ .str (m.idText L))) (hlimit : 1 ≤ limit) :
    Listed L (s.known idKey) room es ↔ es.length = (inRoom (s.known idKey) room).length := by
  constructor
  · intro hlisted
    rw [hlisted.length_eq, length_chronicle]
  · intro hlength
    have hrows : ((historyRows s.messages room limit).map fun m ↦ Value.str (m.idText L)).Sublist
        ((chronicle s.messages room).map fun m ↦ .str (m.idText L)) := by
      rw [historyRows_eq_rtake _ _ hlimit]
      exact ((rtake_suffix _ _).sublist).map _
    have hids := hes.trans hrows
    have hprefix : inRoom s.messages room <+: inRoom (s.known idKey) room :=
      (prefix_known s).filter _
    have hle := hids.length_le
    rw [List.length_map, List.length_map, length_chronicle] at hle
    have hsame : inRoom s.messages room = inRoom (s.known idKey) room :=
      hprefix.eq_of_length (Nat.le_antisymm hprefix.length_le (hlength ▸ hle))
    have hchronicle : chronicle s.messages room = chronicle (s.known idKey) room := by
      rw [chronicle, chronicle, hsame]
    rw [Listed, ← hchronicle]
    refine hids.eq_of_length ?_
    rw [List.length_map, List.length_map, length_chronicle, hsame, hlength]

/-! ## One step

The condition is exact for every step: one that does not meet it leaves a room with a part of its
messages, or with all of them in the wrong order. -/

/-- **What a step files is right if it fits.** -/
theorem listed_iff_fits (hwhole : s.Whole L idKey room) (hreal : Real room)
    (hnew : atRoom room (s.enters L a) ≠ []) :
    Listed L (s.knownAfter L idKey a) room (atRoom room (s.stays L a ++ s.enters L a)) ↔
      s.Fits L idKey room a := by
  have hfiled : s.filed L a ≠ [] := by
    intro hnil
    rw [enters, hnil] at hnew
    exact hnew rfl
  cases a with
  | send now d =>
    obtain ⟨e, he, hid, store, hstore⟩ := filed_send hfiled
    have henters : s.enters L (.send now d) = [e] := by
      rw [enters, he]
      exact rtake_of_length_le (by rw [List.length_singleton]; decide)
    have hat : atRoom room [e] = [e] := by
      rw [henters, atRoom_ne_nil_iff, List.map_singleton, List.mem_singleton] at hnew
      rw [atRoom, List.filter_singleton, decide_eq_true hnew.symm]
      rfl
    rw [knownAfter, hstore, Fits]
    simp only
    split
    · rename_i hisNew
      have hinsert : insertMessage idKey (s.known idKey) d = s.known idKey ++ [d] :=
        if_neg fun hold ↦ hold.elim fun m hm ↦ hisNew.2 m hm.1 hm.2
      have hlength : (chronicle (s.known idKey ++ [d]) room).length =
          (inRoom (s.known idKey) room).length + 1 := by
        rw [length_chronicle, inRoom, List.filter_append, List.filter_singleton, hisNew.1]
        simp [inRoom]
      rw [hinsert, henters, atRoom, List.filter_append, ← atRoom, ← atRoom, hat, Listed,
        List.map_append, List.map_singleton, hid]
      constructor
      · intro hlisted
        have hcount := congrArg List.length hlisted
        simp only [List.length_append, List.length_map, List.length_singleton, hlength,
          Nat.add_right_cancel_iff] at hcount
        rw [map_id_stays rfl hwhole hcount, chronicle_concat_iff hisNew.1] at hlisted
        exact ⟨hlisted.1, hcount, hlisted.2⟩
      · rintro ⟨htext, hcount, hlater⟩
        rw [map_id_stays rfl hwhole hcount, chronicle_concat_iff hisNew.1]
        exact ⟨htext, hlater⟩
    · rename_i hold
      have hsame : chronicle (insertMessage idKey (s.known idKey) d) room =
          chronicle (s.known idKey) room := by
        rw [insertMessage]
        split
        · rfl
        · rename_i hfresh
          have hroom : d.roomId.matchesRoom room = false := Bool.eq_false_iff.mpr fun hroom ↦
            hold ⟨hroom, fun m hm heq ↦ hfresh ⟨m, hm, heq⟩⟩
          rw [chronicle, inRoom, List.filter_append, List.filter_singleton, hroom, cond_false,
            List.append_nil]
          rfl
      rw [Listed, Listed, hsame]
  | persist i => exact absurd rfl hfiled
  | elsewhere d => exact absurd rfl hfiled
  | getHistory now room' limit =>
    rw [knownAfter, Fits]
    split
    · rename_i hregular
      obtain ⟨rfl, hlimit⟩ := hregular
      rw [atRoom, List.filter_append, ← atRoom, ← atRoom, stays_getHistory hreal hlimit hfiled,
        List.nil_append]
      refine listed_getHistory_iff (((List.filter_sublist.trans
        (rtake_suffix _ _).sublist).map _).trans (map_id_filed_getHistory s now room' limit)) hlimit
    · rfl
  | restart now =>
    have hstays : s.stays L (.restart now) = [] := by
      simp [stays, base, FeedCache.empty]
    rw [knownAfter, Fits, hstays, List.nil_append]

/-- **One step, one room.** -/
theorem whole_step_iff (h : s.step L idKey a = some s')
    (hlen : s.store.cache.globalMsgCache.length ≤ msgCacheSize)
    (hwhole : s.Whole L idKey room) (hreal : Real room)
    (hne : room ∈ (s.stays L a ++ s.enters L a).map Entry.room) :
    s'.Whole L idKey room ↔ s.OrderlyIn L idKey a room := by
  have hheld : s'.held room = atRoom room (s.stays L a ++ s.enters L a) :=
    congrArg (atRoom room) (globalMsgCache_step h hlen)
  rw [Whole, hheld, or_iff_right (atRoom_ne_nil_iff.mpr hne), ← knownAfter_eq h, OrderlyIn]
  by_cases hnil : atRoom room (s.enters L a) = []
  · rw [imp_iff_right hnil, and_iff_left fun hnew ↦ absurd hnil hnew]
    -- what is cached of the room is what stays of it
    have happend : atRoom room (s.stays L a ++ s.enters L a) = atRoom room (s.stays L a) := by
      rw [atRoom, List.filter_append]
      exact (congrArg _ hnil).trans (List.append_nil _)
    rw [happend]
    have hold : atRoom room (s.stays L a) ≠ [] := happend ▸ atRoom_ne_nil_iff.mpr hne
    have hbase : s.base a = s.store.cache := by
      cases a with
      | restart now => exact absurd (by simp [stays, base, atRoom, FeedCache.empty]) hold
      | _ => rfl
    have hsuffix := atRoom_suffix (L := L) s a room
    rw [hbase] at hsuffix ⊢
    have hlisted : Listed L (s.known idKey) room (s.held room) := by
      refine hwhole.resolve_left fun hnone ↦ hold ?_
      rw [show atRoom room s.store.cache.globalMsgCache = [] from hnone] at hsuffix
      exact List.suffix_nil.mp hsuffix
    constructor
    · intro hnew
      have hlength : (atRoom room (s.stays L a)).length = (s.held room).length := by
        by_cases hfiled : s.filed L a = []
        · rw [stays_of_filed_eq_nil hfiled hlen, hbase]
          rfl
        · have hrestart : ∀ now, a ≠ .restart now := by
            rintro now rfl
            exact hold (by simp [stays, base, atRoom, FeedCache.empty])
          have hle := length_chronicle_le (prefix_known_of_filed h hfiled hrestart) room
          rw [← knownAfter_eq h, ← hnew.length_eq, ← hlisted.length_eq] at hle
          exact Nat.le_antisymm hsuffix.length_le hle
      have heq : atRoom room (s.stays L a) = s.held room := hsuffix.eq_of_length hlength
      refine ⟨hlength, map_str_inj.mp ?_⟩
      rw [heq] at hnew
      exact hnew.symm.trans hlisted
    · rintro ⟨hlength, hsame⟩
      have heq : atRoom room (s.stays L a) = s.held room := hsuffix.eq_of_length hlength
      rw [heq]
      exact hlisted.trans (map_str_inj.mpr hsame).symm
  · rw [imp_iff_right hnil, and_iff_right fun hnone ↦ absurd hnone hnil]
    exact listed_iff_fits hwhole hreal hnil

/-- **One step.** -/
theorem whole_next_iff (h : s.step L idKey a = some s')
    (hlen : s.store.cache.globalMsgCache.length ≤ msgCacheSize)
    (hwhole : ∀ room, Real room → s.Whole L idKey room) :
    (∀ room, Real room → s'.Whole L idKey room) ↔ s.Orderly L idKey a := by
  constructor
  · intro hall room hmem hreal
    exact (whole_step_iff h hlen (hwhole room hreal) hreal hmem).mp (hall room hreal)
  · intro horderly room hreal
    by_cases hmem : room ∈ (s.stays L a ++ s.enters L a).map Entry.room
    · exact (whole_step_iff h hlen (hwhole room hreal) hreal hmem).mpr (horderly room hmem hreal)
    · refine Or.inl ?_
      rw [held, globalMsgCache_step h hlen]
      exact not_not.mp fun hne ↦ hmem (atRoom_ne_nil_iff.mp hne)

/-! ## Runs

A run that meets the condition at every step agrees with the database at every state, and a run
that does not is at some state where it will not, once everything pending is persisted. -/

theorem whole_of_initial (h : Initial s) (room : Str) : s.Whole L idKey room := by
  refine Or.inl ?_
  rw [held, h.1]
  rfl

/-- **When the fast path agrees with the database.**  Along a run, `get_history` returns what the
database holds, in every state once the pending messages are persisted, if and only if all steps of
the run are orderly. -/
theorem agrees_iff {l : List Event} (hinit : Initial s)
    (h : (system L idKey).Trace s l s') :
    (∀ l₁ t, l₁ <+: l → System.exec (step L idKey) s l₁ = some t →
        (t.settled idKey).Agrees L) ↔
      ((system L idKey).when fun s a ↦ s.Orderly L idKey a).Trace s l s' := by
  simp only [agrees_settled_iff]
  refine h.forall_prefix_iff_of
    (I := fun t ↦ ∀ room, Real room → t.Whole L idKey room)
    (J := fun t ↦ t.store.cache.globalMsgCache.length ≤ msgCacheSize)
    (fun t a t' hlen hstep ↦ length_globalMsgCache_step hstep hlen)
    (fun t a t' hlen hwhole hstep ↦ whole_next_iff hstep hlen hwhole) ?_ ?_
  · rw [hinit.1]
    exact Nat.zero_le _
  · exact fun room _ ↦ whole_of_initial hinit room

/-! ## Three runs

One run in order, with a restart, and two that are not: a message comes late, and a page is
fetched that is shorter than the room. -/

/-- Ids are compared as texts. -/
theorem listed_iff {docs : List Message} {es : List Entry} : Listed L docs room es ↔
    es.map (fun e ↦ e.id.str?) = (chronicle docs room).map fun d ↦ some (d.idText L) := by
  have hids : ∀ (es : List Entry) (ds : List Message),
      es.map Entry.id = ds.map (fun d ↦ Value.str (d.idText L)) ↔
        es.map (fun e ↦ e.id.str?) = ds.map fun d ↦ some (d.idText L) := by
    intro es
    induction es with
    | nil => intro ds; cases ds <;> simp
    | cons e es ih =>
      intro ds
      cases ds with
      | nil => simp
      | cons d ds =>
        rw [List.map_cons, List.map_cons, List.map_cons, List.map_cons, List.cons.injEq,
          List.cons.injEq, ih ds, Value.str?_eq_some_iff]
  exact hids es _

instance (docs : List Message) (room : Str) (es : List Entry) : Decidable (Listed L docs room es) :=
  decidable_of_iff _ listed_iff.symm

instance (v : Value) (text : Str) : Decidable (v = .str text) :=
  decidable_of_iff _ Value.str?_eq_some_iff

instance (s : Archive) (room : Str) : ∀ a, Decidable (s.Fits L idKey room a)
  | .send _ _ => inferInstanceAs (Decidable (ite _ (_ ∧ _ ∧ ∀ m ∈ inRoom _ room, _ → _) _))
  | .getHistory _ _ _ => inferInstanceAs (Decidable (ite _ _ _))
  | .restart _ => inferInstanceAs (Decidable (Listed ..))
  | .persist _ => .isTrue trivial
  | .elsewhere _ => .isTrue trivial

instance (s : Archive) (a : Event) : Decidable (s.Orderly L idKey a) :=
  inferInstanceAs (Decidable (∀ room ∈ _, Real room → (_ → _ ∧ _) ∧ (_ → _)))

/-- A message of Alice in `random`. -/
def randomMessage (id : String) (time : ℤ) : Message where
  id := .str (lit id)
  roomId := .str (lit "random")
  sender := lit "Alice"
  textPlain := lit "hi"
  ciphertext := []
  nonce := []
  signature := []
  timestamp := .int time
  time := time
  timestamp_eq := rfl

/-- A process that has just started on a collection. -/
def opened (docs : List Message) : Archive := ⟨Store.empty, docs, []⟩

/-- Two messages are sent and persisted, and the process is restarted. -/
def orderlyRun : List Event :=
  [.send 0 (randomMessage "m1" 3), .send 0 (randomMessage "m2" 5), .persist 0, .persist 0,
    .getHistory 0 (lit "random") 1, .restart 9, .getHistory 9 (lit "random") 50]

theorem agrees_orderlyRun : ∃ t : Archive,
    System.exec (step asciiLib Value.key?) (opened []) orderlyRun = some t ∧
      (t.held (lit "random")).length = 2 ∧ (t.settled Value.key?).Agrees asciiLib := by
  have hexec : (System.exec (fun (s : Archive) a ↦ if s.Orderly asciiLib Value.key? a then
      s.step asciiLib Value.key? a else none) (opened []) orderlyRun).map
      (fun t ↦ (t.held (lit "random")).length) = some 2 := by decide +kernel
  obtain ⟨t, ht, hlen⟩ := Option.map_eq_some_iff.mp hexec
  have hwhen : ((system asciiLib Value.key?).when fun s a ↦
      s.Orderly asciiLib Value.key? a).Trace (opened []) orderlyRun t :=
    System.trace_when_of_exec ht
  have htrace : (system asciiLib Value.key?).Trace (opened []) orderlyRun t :=
    hwhen.imp fun s a s' hs ↦ hs.2
  have hrun := System.exec_of_trace htrace
  exact ⟨t, hrun, hlen,
    (agrees_iff ⟨rfl, rfl⟩ htrace).mpr hwhen orderlyRun t List.prefix_rfl hrun⟩

/-- A run after which everything is persisted, and the cache has some messages of a room, but not
all of them in their order. -/
theorem not_agrees_of_exec {l : List Event} (hreal : Real room)
    (h : (System.exec (step L idKey) s l).map (fun t ↦ (t.pending.length,
      decide (t.held room = [] ∨ Listed L t.messages room (t.held room)))) = some (0, false)) :
    ∃ t, (system L idKey).Trace s l t ∧ t.pending = [] ∧ ¬t.Agrees L := by
  obtain ⟨t, ht, hval⟩ := Option.map_eq_some_iff.mp h
  obtain ⟨hpending, hfalse⟩ := Prod.mk.inj hval
  exact ⟨t, System.trace_of_exec ht, List.length_eq_zero_iff.mp hpending, fun hagrees ↦
    of_decide_eq_false hfalse (agrees_iff_listed.mp hagrees room hreal)⟩

/-- The second message has an earlier time than the first. -/
def lateRun : List Event :=
  [.send 0 (randomMessage "m1" 5), .send 0 (randomMessage "m2" 3), .persist 0, .persist 0]

/-- After the late message, the cache answers in the wrong order.  And where the collection holds
two messages of a room and the cache none, a call with the limit 1 leaves one of them in the cache,
so that the next call finds no other one. -/
theorem not_agrees_lateRun :
    (∃ t, (system asciiLib Value.key?).Trace (opened []) lateRun t ∧
      t.pending = [] ∧ ¬t.Agrees asciiLib) ∧
    ∃ t, (system asciiLib Value.key?).Trace
      (opened [randomMessage "m1" 3, randomMessage "m2" 5]) [.getHistory 0 (lit "random") 1] t ∧
      t.pending = [] ∧ ¬t.Agrees asciiLib := by
  have hreal : Real (lit "random") := by decide
  exact ⟨not_agrees_of_exec hreal (by decide +kernel),
    not_agrees_of_exec hreal (by decide +kernel)⟩

end Archive
end GroupChat
