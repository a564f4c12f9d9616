import GroupChat.Server.Changes

/-!
# Who gets to see a private message

`_handle_private_message` sends the message to two clients only.  But it is persisted by the same
`append_message` as all other messages, which files it in the one feed cache, under a room name that
is made of the two user names.  Nothing that reads the cache knows about it: the global feed and the
room `general` show everything, and a room with the right name can be created and joined by anybody.

* `Hidden t room`: what a reader of `room` gets from the cache has no entry with the text `t`.
* `Discreet Q t`: the text `t` is sent only in private messages between the clients in `Q`, and
  nobody else reads a room where it is not hidden.
* `confidential`: in a run of discreet events nobody outside of `Q` is sent the text, and no feed
  shows it.
* `leaked_secretRun`: the global feed shows a private message as soon as it has been persisted.

The invariant is `Private`.  It speaks about the frames of the clients outside of `Q`, about the
histories their handlers hold, and about the serialised feed, which may be older than the cache.
-/

set_option autoImplicit false

namespace GroupChat

/-! ## Texts, and who is shown them

A private message is recognised by its text.  So the statement is about a text that is sent in no
other way, and a run in which somebody else says the same is none of those it is about. -/

/-- The text of a message, as a client shows it. -/
def Obj.Says (t : Str) (msg : Obj) : Prop := msg.get "text" = .str t ∨ msg.get "msg" = .str t

/-- Is there a message with this text in the frame? -/
def Frame.Tells (t : Str) : Frame → Prop
  | .message msg => msg.Says t
  | .privateMessage dm => dm.Says t
  | .welcome _ _ _ _ _ _ history => ∃ m ∈ history, Obj.Says t m
  | .roomSwitched _ _ history => ∃ m ∈ history, Obj.Says t m
  | _ => False

theorem Frame.carries_of_tells {t : Str} {f : Frame} (h : f.Tells t) : f.carries = true := by
  cases f with
  | message msg => rfl
  | privateMessage dm => rfl
  | welcome => rfl
  | roomSwitched => rfl
  | _ => exact h.elim

theorem Frame.tells_of_history {t : Str} {f : Frame} {history : List Obj}
    (hf : f.history? = some history) (h : f.Tells t) : ∃ m ∈ history, Obj.Says t m := by
  cases f with
  | welcome => exact Option.some.inj hf ▸ h
  | roomSwitched => exact Option.some.inj hf ▸ h
  | _ => simp [Frame.history?] at hf

theorem Entry.says_toObj {t : Str} {e : Entry} (h : e.toObj.Says t) : e.text = t := by
  have hget : e.toObj.get "text" = .str e.text ∧ e.toObj.get "msg" = .str e.text := ⟨rfl, rfl⟩
  rw [Obj.Says, hget.1, hget.2, or_self] at h
  exact Value.str.inj h

/-- Does a reader of the room get the entry from the cache? -/
def Covers (room : Option Str) (e : Entry) : Prop :=
  room = none ∨ room = some [] ∨ room = some general ∨ room = some e.room

namespace Node

open Transition

/-- No reader of the room gets an entry with the text. -/
def Hidden (n : Node) (t : Str) (room : Option Str) : Prop :=
  ∀ e ∈ n.store.cache.globalMsgCache, e.text = t → ¬ Covers room e

/-- The room whose history a frame asks for. -/
def askedRoom (env : Env) (n : Node) (c : Client) (data : Obj) : Option Str :=
  match (data.get "type").str? with
  | some type =>
    if type = lit "join" then
      if c.explicitlyJoined then none else some (requestedRoom env data)
    else if type = lit "switch_room" then n.switchedRoom c (data.get "room")
    else if type = lit "create_room" then
      (n.ensureRoom (createdRoom env data)).switchedRoom c (.str (createdRoom env data))
    else none
  | none => none

/-- The client that an event lets look at the history of a room, and the room. -/
def Event.reads (env : Env) (n : Node) : Event → Option (Str × Str)
  | .frame id (.dict fields) _ _ =>
    (n.clientsById.get? id).bind fun c ↦ (n.askedRoom env c fields).map fun r ↦ (c.id, r)
  | .fetchHistory id _ _ => ((n.waitingAt id).bind Waiting.room?).map fun r ↦ (id, r)
  | _ => none

/-- An event that does not give the text away to anybody outside of `Q`. -/
structure Discreet (env : Env) (Q : Set Str) (t : Str) (n : Node) (a : Event) : Prop where
  /-- It is in no message to a room. -/
  submissions : ∀ s ∈ a.submissions env n, ¬ s.told.Says t
  /-- A private message with the text is from a client in `Q` to a client in `Q`. -/
  parties : ∀ id fields now uuid c target, a = .frame id (.dict fields) now uuid →
    n.clientsById.get? id = some c → Obj.get fields "type" = .str (lit "private_message") →
    frameText env (Obj.get fields "text") = t →
    n.usernameToId.get? (env.lib.lower (targetName env (Obj.get fields "to"))) = some target →
    c.id ∈ Q ∧ target ∈ Q
  /-- Nobody outside of `Q` looks at a room where it is in the cache. -/
  reads : ∀ id r, a.reads env n = some (id, r) → id ∉ Q → n.Hidden t (some r)
  /-- Or at a document that has it. -/
  rows : ∀ id now docs, a = .fetchHistory id now (some docs) → id ∉ Q →
    ∀ doc ∈ docs, ¬ (docToMsg env.lib doc).Says t
  /-- No feed is served while it is in the cache, unless it is of another room. -/
  feeds : ∀ room limit now, a = .feed room limit now → n.Hidden t room

/-! ## The invariant

The text may be in the cache of the feed, as it is when the message has been persisted; it must
not be where somebody else can see it. -/

/-- The text has not got outside of `Q`. -/
structure Private (Q : Set Str) (t : Str) (n : Node) : Prop where
  content : ∀ id ∉ Q, ∀ f ∈ n.content id, ¬ f.Tells t
  waiting : ∀ id ∉ Q, ∀ w history, n.waitingAt id = some w → w.result? = some (.ok history) →
    ∀ m ∈ history, ¬ Obj.Says t m
  json : ∀ e ∈ n.store.json.feedJsonCache, e.text ≠ t

variable {env : Env} {Q : Set Str} {t : Str} {n n' : Node}

theorem Private.of_silent (h : Private Q t n) (hs : Silent n n')
    (hjson : n'.store.json.feedJsonCache = n.store.json.feedJsonCache) : Private Q t n' where
  content id hid f hf := h.content id hid f ((hs.content id).subset hf)
  waiting id hid w history hw := h.waiting id hid w history (hs.waitingAt id w hw)
  json := hjson ▸ h.json

theorem Private.of_quiet (h : Private Q t n) (hq : Quiet n n') : Private Q t n' :=
  h.of_silent hq.toSilent (by rw [hq.store])

/-! ## Frames

A frame may tell the text to clients in `Q`, and any other frame may go to anybody. -/

/-- A frame is delivered to clients in `Q`, or does not tell the text. -/
theorem Private.deliver (h : Private Q t n) {way : Str → Option Bool} {f : Frame}
    (hf : ∀ id ∉ Q, (way id).isSome → ¬ f.Tells t) : Private Q t (n.deliver way f) := by
  refine ⟨fun id hid g hg ↦ ?_, h.waiting, h.json⟩
  have hmem := (content_deliver n way f id).subset hg
  rw [List.mem_append] at hmem
  rcases hmem with hmem | hmem
  · split at hmem
    · rename_i hway
      rw [List.mem_singleton.mp hmem]
      exact hf id hid hway.2
    · exact absurd hmem (by simp)
  · exact h.content id hid g hmem

/-- Only one client gets what is sent to it. -/
theorem Private.send (h : Private Q t n) {target : Str} {f : Frame}
    (hf : target ∉ Q → ¬ f.Tells t) : Private Q t (n.send target f) := by
  refine h.deliver fun id hid hway ↦ ?_
  rw [wayTo] at hway
  split at hway
  · rename_i hid'
    exact hf (hid'.1 ▸ hid)
  · exact absurd hway (by simp)

theorem Private.tellsHistory (h : Private Q t n) {id : Str} {history : List Obj}
    (htell : n.TellsHistory id history n') (hid : id ∉ Q → ∀ m ∈ history, ¬ Obj.Says t m) :
    Private Q t n' := by
  rcases htell with hq | ⟨f, hf, hq⟩
  · exact h.of_quiet hq
  · refine (h.send fun hout htells ↦ ?_).of_quiet hq
    obtain ⟨m, hm, htold⟩ := Frame.tells_of_history hf htells
    exact hid hout m hm htold

/-- A history from the cache does not have the text if it is hidden. -/
theorem Hidden.cachedHistory {room : Str} (h : n.Hidden t (some room)) (limit : ℤ) :
    ∀ m ∈ n.store.cachedHistory room limit, ¬ Obj.Says t m := by
  intro m hm htold
  obtain ⟨e, he, rfl⟩ := List.mem_map.mp hm
  obtain ⟨hcache, hcovers⟩ := FeedCache.mem_of_mem_cacheGet he
  exact h e hcache (Entry.says_toObj htold) hcovers

/-! ## Histories

A handler that waits will be told what the cache has for its room, so the text must be hidden
there by the time it is fetched. -/

/-- A handler waits that did not wait, or knows its history now. -/
theorem Private.await (h : Private Q t n) (id : Str) {w : Waiting}
    (hw : id ∉ Q → ∀ history, w.result? = some (.ok history) → ∀ m ∈ history, ¬ Obj.Says t m) :
    Private Q t (n.updateClient id fun c ↦ { c with waiting := some w }) := by
  refine ⟨h.content, fun id' hid' w' history hw' hresult ↦ ?_, h.json⟩
  rw [Node.waitingAt, get?_updateClient, Option.bind_map] at hw'
  obtain ⟨c, hc, hw'⟩ := Option.bind_eq_some_iff.mp hw'
  simp only [Function.comp_apply] at hw'
  split at hw'
  · rename_i heq
    obtain rfl := Option.some.inj hw'
    exact hw (heq ▸ hid') history hresult
  · refine h.waiting id' hid' w' history ?_ hresult
    rw [Node.waitingAt, hc]
    exact hw'

theorem Private.asks (h : Private Q t n) {id room : Str} {wait : Waiting}
    (hasks : Asks env n id room wait n') (hwait : wait.result? = none)
    (hread : id ∉ Q → n.Hidden t (some room)) : Private Q t n' := by
  rcases hasks with htell | rfl
  · exact h.tellsHistory htell fun hid ↦ (hread hid).cachedHistory _
  · exact h.await id fun _ history hresult ↦ absurd (hwait.symm.trans hresult) (by simp)

/-- The store changes, but not the serialised feed. -/
theorem Private.withStore (h : Private Q t n) {store : Store}
    (hjson : store.json.feedJsonCache = n.store.json.feedJsonCache) :
    Private Q t { n with store := store } :=
  ⟨h.content, h.waiting, by rw [hjson]; exact h.json⟩

theorem Private.spawn (h : Private Q t n) (j : Job) : Private Q t (n.spawn j) :=
  ⟨h.content, h.waiting, h.json⟩

theorem Private.submits (h : Private Q t n) {now : ℤ} {s : Submission}
    (hsub : Submits env n now s n') (hs : ¬ s.told.Says t) : Private Q t n' := by
  rcases hsub with rfl | ⟨store, n₁, n₂, hstore, h₁, h₂, h₃⟩
  · exact h
  · have hput : Private Q t { n with store := store } :=
      h.withStore (Store.onlyCached_cachePut hstore).feedJsonCache
    have hn₁ : Private Q t n₁ := by
      rcases h₁ with rfl | ⟨r, -, rfl⟩
      · exact hput
      · exact hput.deliver fun _ _ _ ↦ hs
    have hn₂ := hn₁.of_quiet h₂
    rcases h₃ with rfl | ⟨j, -, h₃⟩
    · exact hn₂
    · exact (hn₂.spawn j).of_quiet h₃

theorem Private.submission (h : Private Q t n) {now : ℤ} {o : Option Submission}
    (hsub : n' = n ∨ ∃ s, o = some s ∧ Submits env n now s n')
    (hs : ∀ s, o = some s → ¬ s.told.Says t) : Private Q t n' := by
  rcases hsub with rfl | ⟨s, ho, hsub⟩
  · exact h
  · exact h.submits hsub (hs s ho)

theorem Private.closeConnection (h : Private Q t n) (id : Str) :
    Private Q t (n.closeConnection env id) := by
  rcases closeConnection_spec env n id with ⟨-, heq⟩ | ⟨c, n₁, -, hq, hq'⟩
  · rw [heq]
    exact h
  · exact ((h.of_quiet hq).of_silent (.forget env n₁ c) rfl).of_quiet hq'

theorem Private.afterHandler {r : Node × Option PyError} (h : Private Q t r.1) (id : Str) :
    Private Q t (Node.afterHandler env id r) := by
  obtain ⟨n, e⟩ := r
  cases e with
  | none => exact h
  | some e => exact h.closeConnection id

/-! ## Steps

All handlers that send a message or a history, with the condition that this does not reach anybody
outside of `Q`. -/

/-- A frame that is discreet for the client it comes from. -/
theorem Private.dispatched (h : Private Q t n) {c : Client} {data : Obj} {now : ℤ} {uuid : Str}
    {r : Node × Option PyError} (hr : Dispatched env n c data now uuid r)
    (hsub : (data.get "type").str? = some (lit "message") →
      ∀ s, frameSubmission env c data now uuid = some s → ¬ s.told.Says t)
    (hparties : data.get "type" = .str (lit "private_message") →
      frameText env (data.get "text") = t → ∀ target,
      n.usernameToId.get? (env.lib.lower (targetName env (data.get "to"))) = some target →
      c.id ∈ Q ∧ target ∈ Q)
    (hreads : ∀ room, n.askedRoom env c data = some room → c.id ∉ Q → n.Hidden t (some room)) :
    Private Q t r.1 := by
  have hasked : ∀ {type : Str}, data.get "type" = .str type →
      (data.get "type").str? = some type := fun htype ↦ Value.str?_eq_some_iff.mpr htype
  have hmoved : ∀ {n₁ n₂ : Node} (room : Str), Quiet n n₁ →
      Asks env n₁ c.id room (.switch room) n₂ → n.askedRoom env c data = some room →
        Private Q t n₂ := by
    intro n₁ n₂ room hq hasks hroom
    refine (h.of_quiet hq).asks hasks rfl fun hid ↦ ?_
    rw [Hidden, hq.store]
    exact hreads room hroom hid
  cases hr with
  | join type hjoin =>
    rcases handleJoin_spec hjoin with ⟨-, hn⟩ | ⟨username, n₁, n₂, hj, -, hq, hq', hasks⟩
    · rw [hn]
      exact h
    · have hread : n.askedRoom env c data = some (requestedRoom env data) := by
        rw [askedRoom, hasked type]
        simp [hj]
      have hcache : n₂.store.cache = n.store.cache := by
        rw [hq'.store]
        exact (congrArg Store.cache hq.store :)
      refine (((h.of_quiet hq).of_silent (.enroll env n₁ c username _) rfl).of_quiet hq').asks
        hasks rfl fun hid ↦ ?_
      rw [Hidden, hcache]
      exact hreads _ hread hid
  | message type =>
    exact h.submission (handleMessage_spec env n c data now uuid) (hsub (hasked type))
  | privateMessage type =>
    rcases handlePrivateMessage_spec env n c data now uuid with
      hq | ⟨username, target, -, htarget, hn⟩
    · exact h.of_quiet hq
    · rw [hn]
      have htold : ∀ dm : Obj, dm = directMessage uuid username (targetName env (data.get "to"))
          (frameText env (data.get "text")) now → dm.Says t → c.id ∈ Q ∧ target ∈ Q := by
        rintro dm rfl hdm
        refine hparties type ?_ target htarget
        rcases hdm with htext | hmsg
        · exact Value.str.inj htext
        · simp [directMessage, Obj.get] at hmsg
      refine Private.spawn (Private.send (h.send fun hout htells ↦ ?_) fun hout htells ↦ ?_) _
      · exact hout (htold _ rfl htells).2
      · exact hout (htold _ rfl htells).1
  | switchRoom type =>
    rcases handleSwitchRoom_spec env n c (data.get "room") with hq | ⟨room, n₁, hroom, hq, hasks⟩
    · exact h.of_quiet hq
    · refine hmoved room hq hasks ?_
      rw [askedRoom, hasked type]
      exact hroom
  | createRoom type =>
    rcases handleCreateRoom_spec env n c data with hq | ⟨room, n₁, hroom, hq, hasks⟩
    · exact h.of_quiet hq
    · refine hmoved room hq hasks ?_
      rw [askedRoom, hasked type]
      exact hroom
  | quiet hq => exact h.of_quiet hq

theorem askedRoom_of_rooms (hr : n'.rooms = n.rooms) (c : Client) (data : Obj) :
    n'.askedRoom env c data = n.askedRoom env c data := by
  simp only [askedRoom, switchedRoom, ensureRoom, setRooms, hr]

theorem Private.receiveGossip (h : Private Q t n) {data : Option Value} {now : ℤ}
    (hs : ∀ s ∈ Event.submissions env n (.gossip data now), ¬ s.told.Says t) :
    Private Q t (n.receiveGossip env data now) := by
  cases data with
  | none => exact h
  | some v =>
    refine receiveItems_preserves (I := Private Q t) (fun item hitem n' h' ↦ ?_) n h
    exact h'.submission (receiveItem_spec env n' item now) fun s hsub ↦
      hs s (List.mem_filterMap.mpr ⟨item, hitem, hsub⟩)

theorem Private.frame {id : Str} {data : Value} {now : ℤ} {uuid : Str} (h : Private Q t n)
    (hstep : n.step env (.frame id data now uuid) = some n')
    (hd : Discreet env Q t n (.frame id data now uuid)) : Private Q t n' := by
  obtain ⟨c, hc, -, hframe⟩ := receive_spec hstep
  have hq := Quiet.noteActivity n id c now
  have h₁ := h.of_quiet hq
  rcases hframe with ⟨fields, r, rfl, hr, rfl⟩ | ⟨-, rfl⟩
  · refine (h₁.dispatched hr (fun htype s hs ↦ ?_) (fun htype htext target htarget ↦ ?_)
      fun room hroom hid ↦ ?_).afterHandler id
    · refine hd.submissions s ?_
      rw [Event.submissions, if_pos htype, hc]
      exact Option.mem_toList.mpr hs
    · rw [hq.usernameToId] at htarget
      exact hd.parties id fields now uuid c target rfl hc htype htext htarget
    · rw [Hidden, hq.store]
      refine hd.reads c.id room ?_ hid
      rw [askedRoom_of_rooms (rooms_noteActivity n id c now)] at hroom
      rw [Event.reads, hc]
      exact Option.map_eq_some_iff.mpr ⟨room, hroom, rfl⟩
  · exact h₁.closeConnection id

theorem Private.fetchHistory {id : Str} {now : ℤ} {docs : Option (List Obj)} (h : Private Q t n)
    (hstep : n.step env (.fetchHistory id now docs) = some n')
    (hd : Discreet env Q t n (.fetchHistory id now docs)) : Private Q t n' := by
  obtain ⟨c, w, room, ready, hc, hw, hroom, hready, rfl⟩ := fetchHistory_spec hstep
  refine (h.withStore (Store.onlyCached_getHistory _ _ _ _).feedJsonCache).await id
    fun hid history hresult m hm htold ↦ ?_
  have hhidden : n.Hidden t (some room) := by
    refine hd.reads id room ?_ hid
    rw [Event.reads, waitingAt, hc]
    exact Option.map_eq_some_iff.mpr ⟨room, by simp [hw, hroom], rfl⟩
  rw [hready] at hresult
  rcases Store.mem_getHistory (Option.some.inj hresult) hm with
    hcached | ⟨ds, doc, rfl, hdoc, rfl⟩
  · exact hhidden.cachedHistory _ m hcached htold
  · exact hd.rows id now ds rfl hid doc hdoc htold

/-! ## Runs

A run of discreet events, from a node that has just started. -/

/-- **The step lemma.** -/
theorem Private.step {a : Event} (h : Private Q t n) (hstep : n.step env a = some n')
    (hd : Discreet env Q t n a) : Private Q t n' := by
  cases a with
  | connect id queryParams now =>
    obtain ⟨-, rfl⟩ := step_connect hstep
    exact h.of_silent (.handleConnection env n id queryParams now) rfl
  | frame id data now uuid => exact h.frame hstep hd
  | fetchHistory id now docs => exact h.fetchHistory hstep hd
  | resume id =>
    obtain ⟨n₁, hq, rfl | ⟨w, history, r, hw, hresult, htell, rfl⟩⟩ := resume_spec hstep
    · exact (h.of_quiet hq).closeConnection id
    · exact ((h.of_quiet hq).tellsHistory htell fun hid ↦
        h.waiting id hid w history hw hresult).afterHandler id
  | disconnect id =>
    obtain ⟨c, -, -, rfl⟩ := step_disconnect hstep
    exact h.closeConnection id
  | post body query now uuid =>
    obtain rfl := Option.some.inj hstep
    exact h.submission (postMessage_spec env n body query now uuid) fun s hs ↦
      hd.submissions s (Option.mem_toList.mpr hs)
  | gossip data now =>
    obtain rfl := Option.some.inj hstep
    exact h.receiveGossip hd.submissions
  | feed room limit now =>
    obtain rfl := Option.some.inj hstep
    cases room with
    | some r => exact h
    | none =>
      refine ⟨h.content, h.waiting, fun e he htext ↦ ?_⟩
      rcases Store.mem_globalFeed he with hjson | hcache
      · exact h.json e hjson htext
      · exact hd.feeds none limit now rfl e hcache htext (Or.inl rfl)
  | runJob i now nonce =>
    obtain ⟨job, -, rfl⟩ := Option.map_eq_some_iff.mp hstep
    cases job with
    | append roomId msg key =>
      exact ⟨h.content, h.waiting, (Store.appendMessage_spec ..).1.symm ▸ h.json⟩
    | saveUserPublicKey username key => exact ⟨h.content, h.waiting, h.json⟩
  | warmCache now docs =>
    obtain rfl := Option.some.inj hstep
    exact h.withStore (Store.onlyCached_warmCacheFromDb _ _).feedJsonCache
  | publicKey username =>
    obtain rfl := Option.some.inj hstep
    exact h.withStore rfl
  | privateKey username =>
    obtain rfl := Option.some.inj hstep
    exact h.withStore rfl
  | background b => exact h.of_quiet (Quiet.background hstep)

theorem private_initial (env : Env) (Q : Set Str) (t : Str) : Private Q t (initial env) := by
  have hempty : Private Q t .empty := by
    refine ⟨fun id _ f hf ↦ ?_, fun id _ w history hw ↦ ?_, fun e he ↦ ?_⟩
    · exact absurd hf (List.not_mem_nil (a := f))
    · exact absurd hw (by simp [waitingAt, empty])
    · exact absurd he (List.not_mem_nil (a := e))
  exact hempty.of_quiet (.initial env)

/-- **Nobody outside of `Q` gets to see a text, in a run of discreet events.**  Neither a frame
that is on its way to such a client or has reached it nor a feed that is served has it. -/
theorem confidential (env : Env) (Q : Set Str) (t : Str) {n : Node}
    (h : ((system env).when (Discreet env Q t)).Reachable n) :
    (∀ id ∉ Q, ∀ f ∈ n.onTheWay id, ¬ f.Tells t) ∧
      ∀ room limit now, Discreet env Q t n (.feed room limit now) →
        ∀ e ∈ (n.getFeedRoute room limit now).1, e.text ≠ t := by
  have hprivate : Private Q t n := by
    refine h.invariant ?_ ?_
    · rintro n rfl
      exact private_initial env Q t
    · exact fun n a n' hp ⟨hd, hstep⟩ ↦ hp.step hstep hd
  refine ⟨fun id hid f hf htells ↦ ?_, fun room limit now hd e he htext ↦ ?_⟩
  · exact hprivate.content id hid f (List.mem_filter.mpr ⟨hf, Frame.carries_of_tells htells⟩) htells
  · have hhidden := hd.feeds room limit now rfl
    cases room with
    | none =>
      rcases Store.mem_globalFeed he with hjson | hcache
      · exact hprivate.json e hjson htext
      · exact hhidden e hcache htext (Or.inl rfl)
    | some r =>
      rw [getFeedRoute] at he
      cases hdumps : dumpsEntries.dumps (n.store.cache.cacheGet (some r) limit) with
      | none => simp [hdumps] at he
      | some es =>
        simp only [hdumps, Option.getD_some] at he
        obtain ⟨hcache, hcovers⟩ :=
          FeedCache.mem_of_mem_cacheGet (Store.mem_of_mem_dumpsEntries hdumps he)
        exact hhidden e hcache htext hcovers

/-! ## Two runs

The same conversation twice.  In the first run somebody asks for the global feed after the message
has been persisted, in the second one nobody looks at a room that shows it. -/

/-- A client joins, and its handler gets the empty history. -/
def joinEvents (id username : Str) : List Event :=
  [.connect id [] 0,
    .frame id (.dict [("type", .str (lit "join")), ("username", .str username)]) 0 [],
    .fetchHistory id 0 (some []), .resume id]

/-- Alice and Bob join, a third client is connected, and Alice sends Bob a private message. -/
def secretRun : List Event :=
  .connect (lit "3") [] 0 :: joinEvents (lit "1") (lit "Alice") ++
    joinEvents (lit "2") (lit "Bob") ++
    [.frame (lit "1") (.dict [("type", .str (lit "private_message")), ("to", .str (lit "bob")),
      ("text", .str (lit "secret"))]) 1000 (lit "m1")]

/-- The message is persisted, and somebody asks for the global feed: it shows the message. -/
theorem leaked_secretRun :
    ∃ n, (system plainEnv).Trace (initial plainEnv) (secretRun ++ [.runJob 2 1000 []]) n ∧
      ∃ e ∈ (n.getFeedRoute none 50000 2000).1, e.text = lit "secret" := by
  have hexec : (System.exec (step plainEnv) (initial plainEnv)
      (secretRun ++ [.runJob 2 1000 []])).map
      (fun n ↦ (n.getFeedRoute none 50000 2000).1.map Entry.text) = some [lit "secret"] := by
    decide +kernel
  obtain ⟨n, hn, hfeed⟩ := Option.map_eq_some_iff.mp hexec
  refine ⟨n, System.trace_of_exec hn, ?_⟩
  have hmem : lit "secret" ∈ (n.getFeedRoute none 50000 2000).1.map Entry.text := by
    rw [hfeed]
    exact List.mem_singleton_self _
  obtain ⟨e, he, htext⟩ := List.mem_map.mp hmem
  exact ⟨e, he, htext⟩

/-- A check for events that are discreet with respect to two clients, as long as nothing is
cached. -/
def checkDiscreet (n : Node) (a : Event) : Bool :=
  n.store.cache.globalMsgCache.isEmpty && (a.submissions plainEnv n).isEmpty &&
    n.usernameToId.values.all (fun id ↦ decide (id = lit "1" ∨ id = lit "2")) &&
    match a with
    | .frame id _ _ _ =>
      (n.clientsById.get? id).all fun c ↦ decide (c.id = lit "1" ∨ c.id = lit "2")
    | .fetchHistory _ _ (some docs) => docs.isEmpty
    | _ => true

theorem discreet_of_check {n : Node} {a : Event} (h : checkDiscreet n a = true) (t : Str) :
    Discreet plainEnv {id | id = lit "1" ∨ id = lit "2"} t n a := by
  simp only [checkDiscreet, Bool.and_eq_true, List.isEmpty_iff, List.all_eq_true,
    decide_eq_true_eq] at h
  obtain ⟨⟨⟨hcache, hsub⟩, hnames⟩, hevent⟩ := h
  have hhidden : ∀ room, n.Hidden t room := fun room e he ↦ absurd he (by simp [hcache])
  refine ⟨fun s hs ↦ absurd hs (by simp [hsub]), ?_, fun _ r _ _ ↦ hhidden (some r), ?_,
    fun room _ _ _ ↦ hhidden room⟩
  · rintro id fields now uuid c target rfl hc - - htarget
    exact ⟨by simpa [hc] using hevent, hnames target (Dict.mem_values_of_get? htarget)⟩
  · rintro id now docs rfl - doc hdoc
    simp only [List.isEmpty_iff] at hevent
    exact absurd hdoc (by simp [hevent])

/-- The third client does not get the message. -/
theorem confidential_secretRun : ∃ n,
    ((system plainEnv).when (Discreet plainEnv {id | id = lit "1" ∨ id = lit "2"}
      (lit "secret"))).Trace (initial plainEnv) secretRun n ∧
    (n.onTheWay (lit "2")).length = 3 ∧ ∀ f ∈ n.onTheWay (lit "3"), ¬ f.Tells (lit "secret") := by
  have hexec : (System.exec (fun n a ↦ if checkDiscreet n a then step plainEnv n a else none)
      (initial plainEnv) secretRun).map (fun n ↦ (n.onTheWay (lit "2")).length) = some 3 := by
    decide +kernel
  obtain ⟨n, hn, hlength⟩ := Option.map_eq_some_iff.mp hexec
  have htrace : ((system plainEnv).when (Discreet plainEnv {id | id = lit "1" ∨ id = lit "2"}
      (lit "secret"))).Trace (initial plainEnv) secretRun n :=
    (System.trace_when_of_exec hn).imp fun n a _ hs ↦ ⟨discreet_of_check hs.1 _, hs.2⟩
  exact ⟨n, htrace, hlength,
    (confidential plainEnv _ _ (htrace.reachable rfl)).1 (lit "3") (by decide)⟩

end Node
end GroupChat
