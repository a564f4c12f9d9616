import GroupChat.Server.Acceptance
import GroupChat.Server.Rooms
import GroupChat.Store.History

/-!
# What a step leaves behind

Most steps leave the feed cache, the executor and the gossip alone.  This file says for each event
what it does to them, as data that is computed from the event and the state before:

* `Event.puts` are the calls of `_cache_put` it makes, and `cache_step`: the cache afterwards is the
  cache after these calls.  So the cache of a node is always `runPuts` of a sequence of calls, and
  what `Store.Cache` and `Store.History` say about such sequences holds of every run of a node.
* `Event.completed` is the message that it handles to the end, `Event.jobs` the jobs that it hands
  to the executor, and `left_step` says that it publishes and spawns nothing else.

A run of a node thus has a trace of calls, and a trace of documents, that can be computed along
with it.  The files on feeds, histories and documents are about such traces and know nothing of
handlers; `cache_step` and `left_step` are where they meet the node.

The equations follow the handlers once more: `Leaves` is for those that file or hand over
something, `Idle` for all others, and both compose.  A handler may raise anywhere, so `filed`,
`completedFrame` and `completedPost` compute from the state before how far it gets.  This is why
there are equations here, and not only bounds on what a step can do.
-/

set_option autoImplicit false

namespace GroupChat

open Transition

/-! ## Effects as data

The definitions follow the handlers and keep of each only what it does to the store, the executor
and the gossip.  Where a handler may raise in between, the effect ends at the same point: a
message that could not be filed is neither stored nor published. -/

/-- The message of a document that `append_message` makes of one. -/
def Store.appended (L : PyLib) (K : Keyring) (st : Store) (now : ℤ) (nonce : Bytes) (roomId : Value)
    (msg : Obj) (given : Option PrivateKey) : Option Doc :=
  match messageSender msg, messageText msg with
  | .str sender, .str text =>
    match makeDoc L K (st.keys.signingKey L K sender given).1 nonce (msg.get "id") roomId sender
        text (msg.getD "timestamp" (.int now)) with
    | .ok doc => some doc
    | .error _ => none
  | _, _ => none

/-- The id of the message that a job stores. -/
def Job.key? : Job → Option Key
  | .append _ msg _ => (Obj.get msg "id").key?
  | .saveUserPublicKey _ _ => none

/-- The calls for the rows of a query, up to the first that raises. -/
def rowPuts (L : PyLib) (now : ℤ) (rows : List (Value × Obj)) : List PutCall :=
  (rows.map fun p ↦ ⟨now, p.1, p.2⟩).takeWhile fun p ↦
    (compactMsg L p.now p.roomId p.msg).toOption.isSome

namespace Node

/-- The call for a submission. -/
def Submission.put (s : Submission) (now : ℤ) : PutCall := ⟨now, s.room, s.cached⟩

/-- The calls for the items of a gossip request, up to the first that raises. -/
def itemPuts (env : Env) (now : ℤ) : Node → List Value → List PutCall
  | _, [] => []
  | n, item :: items =>
    ((itemSubmission env now item).map fun s ↦ s.put now).toList ++
      match n.receiveItem env item now with
      | (n', none) => itemPuts env now n' items
      | (_, some _) => []

/-- The calls for the rows that `get_history` fetches for a handler. -/
def fetchPuts (env : Env) (n : Node) (id : Str) (now : ℤ) (docs : Option (List Obj)) :
    List PutCall :=
  match (n.waitingAt id).bind Waiting.room? with
  | some room =>
    if n.store.cachedHistory room env.config.historyLimit = [] then
      rowPuts env.lib now ((docs.getD []).map fun doc ↦ (.str room, docToMsg env.lib doc))
    else []
  | none => []

/-- The document that a job makes. -/
def jobDoc (env : Env) (n : Node) (i : ℕ) (now : ℤ) (nonce : Bytes) : Option Doc :=
  match n.jobs[i]? with
  | some (.append roomId msg key) =>
    n.store.appended env.lib env.keyring now nonce roomId msg key
  | _ => none

/-- The calls of `_cache_put` that an event makes. -/
def Event.puts (env : Env) (n : Node) : Event → List PutCall
  | .frame id data now uuid => (Event.submissions env n (.frame id data now uuid)).map (·.put now)
  | .post body query now uuid => ((postSubmission env body query now uuid).map (·.put now)).toList
  | .gossip (some v) now => itemPuts env now n (gossipItems v)
  | .fetchHistory id now docs => fetchPuts env n id now docs
  | .runJob i now nonce =>
    ((n.jobDoc env i now nonce).map fun doc ↦ ⟨now, doc.roomId, cachedMsg doc⟩).toList
  | .warmCache now docs =>
    if n.store.cacheWarmed then []
    else rowPuts env.lib now ((docs.getD []).map fun doc ↦
      (doc.getD "room_id" (.str general), warmMsg env.lib doc))
  | _ => []

/-- Does `_cache_put` return for the message? -/
def filed (env : Env) (now : ℤ) (s : Submission) : Bool :=
  (compactMsg env.lib now s.room s.cached).toOption.isSome

/-- What a message frame submits, if it is handled to the end. -/
def completedFrame (env : Env) (c : Client) (data : Obj) (now : ℤ) (uuid : Str) :
    Option Submission :=
  if (data.get "type").str? = some (lit "message") then
    (frameSubmission env c data now uuid).filter (filed env now)
  else none

/-- What a request submits, if it is handled to the end. -/
def completedPost (env : Env) (n : Node) (body : Body) (query : Obj) (now : ℤ) (uuid : Str) :
    Option Submission :=
  (postSubmission env body query now uuid).filter fun s ↦
    filed env now s && (n.tryBroadcast s.room (.message s.told)).2.isNone

/-- The message that an event handles to the end. -/
def Event.completed (env : Env) (n : Node) : Event → Option Submission
  | .frame id (.dict data) now uuid =>
    (n.clientsById.get? id).bind fun c ↦ completedFrame env c data now uuid
  | .post body query now uuid => completedPost env n body query now uuid
  | _ => none

/-- The job of a join. -/
def joinJob (env : Env) (n : Node) (c : Client) (data : Obj) : Option Job :=
  if c.explicitlyJoined then none
  else (uniqueUsername env.lib n.usernameToId.keys (requestedName env c data)).map fun username ↦
    .saveUserPublicKey username
      (getOrCreateSenderKeys env.lib env.keyring n.store.keys.senderKeys username).1.2

/-- The job of a private message. -/
def privateJob (env : Env) (n : Node) (c : Client) (data : Obj) (now : ℤ) (uuid : Str) :
    Option Job :=
  match c.username, n.usernameToId.get? (env.lib.lower (targetName env (data.get "to"))),
    frameText env (data.get "text") with
  | some username, some _, x :: text =>
    some (.append (.str (pairRoom env username (targetName env (data.get "to"))))
      (directMessage uuid username (targetName env (data.get "to")) (x :: text) now) c.privateKey)
  | _, _, _ => none

/-- The job that a frame hands to the executor. -/
def frameJob (env : Env) (n : Node) (c : Client) (data : Obj) (now : ℤ) (uuid : Str) : Option Job :=
  if (data.get "type").str? = some (lit "join") then n.joinJob env c data
  else if (data.get "type").str? = some (lit "message") then
    (completedFrame env c data now uuid).bind Submission.job
  else if (data.get "type").str? = some (lit "private_message") then
    n.privateJob env c data now uuid
  else none

/-- The job that an event hands to the executor. -/
def Event.job (env : Env) (n : Node) : Event → Option Job
  | .frame id (.dict data) now uuid =>
    (n.clientsById.get? id).bind fun c ↦ n.frameJob env c data now uuid
  | .post body query now uuid => (completedPost env n body query now uuid).bind Submission.job
  | _ => none

end Node

/-! ## Calls

`_cache_put` touches the cache of the feed and nothing else in the store, and a call that raises
touches nothing.  A job files its document before it stores it. -/

section Calls

variable {L : PyLib} {now : ℤ}

/-- An entry is put into the cache and into no other part of the store. -/
theorem Store.cache_putEntry (st : Store) (e : Entry) :
    (st.putEntry e).cache = st.cache.insert e := by
  rw [Store.putEntry]
  split
  · rfl
  · rename_i h
    exact (FeedCache.insert_of_mem h).symm

/-- A call of `_cache_put` on the store is one on the cache. -/
theorem Store.cachePut_cache (L : PyLib) (now : ℤ) (st : Store) (roomId : Value) (msg : Obj) :
    (∃ st', st.cachePut L now roomId msg = .ok st' ∧
        st'.cache = st.cache.call L ⟨now, roomId, msg⟩) ∨
      ∃ e, st.cachePut L now roomId msg = .error e ∧ st.cache.call L ⟨now, roomId, msg⟩ = st.cache ∧
        compactMsg L now roomId msg = .error e := by
  rw [FeedCache.call, FeedCache.cachePut, Store.cachePut]
  cases hmsg : compactMsg L now roomId msg with
  | error e => exact Or.inr ⟨e, rfl, rfl, rfl⟩
  | ok o =>
    cases o with
    | none => exact Or.inl ⟨st, rfl, rfl⟩
    | some e => exact Or.inl ⟨_, rfl, st.cache_putEntry e⟩

/-- The cache after a call that returns. -/
theorem Store.cache_of_cachePut {st st' : Store} {roomId : Value} {msg : Obj}
    (h : st.cachePut L now roomId msg = .ok st') :
    st'.cache = st.cache.call L ⟨now, roomId, msg⟩ := by
  rcases Store.cachePut_cache L now st roomId msg with ⟨st'', hput, hcache⟩ | ⟨e, hput, -⟩
  · obtain rfl := Except.ok.inj (h.symm.trans hput)
    exact hcache
  · simp [h] at hput

/-- A call that raises leaves the cache as it is. -/
theorem Store.call_of_cachePut_error {st : Store} {roomId : Value} {msg : Obj} {e : PyError}
    (h : st.cachePut L now roomId msg = .error e) :
    st.cache.call L ⟨now, roomId, msg⟩ = st.cache := by
  rcases Store.cachePut_cache L now st roomId msg with ⟨st'', hput, -⟩ | ⟨e', -, hcall, -⟩
  · simp [h] at hput
  · exact hcall

/-- The rows of a query are filed one after the other, up to the first that raises. -/
theorem Store.cache_cachePutAll (L : PyLib) (now : ℤ) (rows : List (Value × Obj)) : ∀ st : Store,
    (st.cachePutAll L now rows).1.cache = (rowPuts L now rows).foldl (·.call L) st.cache := by
  induction rows with
  | nil => exact fun st ↦ rfl
  | cons p rows ih =>
    intro st
    obtain ⟨roomId, msg⟩ := p
    rw [Store.cachePutAll, rowPuts, List.map_cons, List.takeWhile_cons]
    rcases Store.cachePut_cache L now st roomId msg with
      ⟨st', hput, hcache⟩ | ⟨e, hput, -, herror⟩
    · have hok : (compactMsg L now roomId msg).toOption.isSome = true := by
        rw [Store.cachePut] at hput
        cases hmsg : compactMsg L now roomId msg with
        | error e => simp [hmsg] at hput
        | ok o => rfl
      rw [hput, if_pos hok, List.foldl_cons, ← hcache]
      exact ih st'
    · rw [hput, herror]
      rfl

/-! ## A job and its document

A job looks up a key, makes a document, files it and stores it, and gives up at the first of these
steps that fails.  `Store.appended` is its document, if it gets that far. -/

/-- The keys may be other ones after a job.  If there is a document, the job files it and then
stores it, unless the filing raised. -/
theorem Store.appendMessage_outcome (L : PyLib) (K : Keyring) (st : Store) (now : ℤ) (nonce : Bytes)
    (roomId : Value) (msg : Obj) (given : Option PrivateKey) :
    ∃ st₁ : Store, st₁.cache = st.cache ∧ st₁.docs = st.docs ∧
      (st.appended L K now nonce roomId msg given = none ∧
          st.appendMessage L K now nonce roomId msg given = st₁ ∨
        ∃ doc, st.appended L K now nonce roomId msg given = some doc ∧
          ((∃ e, st₁.cachePut L now doc.roomId (cachedMsg doc) = .error e ∧
              st.appendMessage L K now nonce roomId msg given = st₁) ∨
            ∃ st₂, st₁.cachePut L now doc.roomId (cachedMsg doc) = .ok st₂ ∧
              st.appendMessage L K now nonce roomId msg given =
                { st₂ with docs := st₂.docs ++ [doc] })) := by
  rw [Store.appended]
  unfold Store.appendMessage
  cases messageSender msg with
  | str sender =>
    cases messageText msg with
    | str text =>
      refine ⟨{ st with keys := (st.keys.signingKey L K sender given).2 }, rfl, rfl, ?_⟩
      simp only
      cases hdoc : makeDoc L K (st.keys.signingKey L K sender given).1 nonce (msg.get "id") roomId
          sender text (msg.getD "timestamp" (.int now)) with
      | error e => exact Or.inl ⟨rfl, rfl⟩
      | ok doc =>
        obtain ⟨-, hroom, -⟩ := makeDoc_spec hdoc
        subst hroom
        refine Or.inr ⟨doc, rfl, ?_⟩
        simp only
        split
        · rename_i e hput
          exact Or.inl ⟨e, hput, rfl⟩
        · rename_i st₂ hput
          exact Or.inr ⟨st₂, hput, rfl⟩
    | _ => exact ⟨st, rfl, rfl, Or.inl ⟨rfl, rfl⟩⟩
  | _ => exact ⟨st, rfl, rfl, Or.inl ⟨rfl, rfl⟩⟩

/-- The cache after a job is the cache after the call for its document. -/
theorem Store.cache_appendMessage (K : Keyring) (st : Store) (nonce : Bytes) (roomId : Value)
    (msg : Obj) (given : Option PrivateKey) :
    (st.appendMessage L K now nonce roomId msg given).cache =
      ((st.appended L K now nonce roomId msg given).map fun doc ↦
        (⟨now, doc.roomId, cachedMsg doc⟩ : PutCall)).toList.foldl (·.call L) st.cache := by
  obtain ⟨st₁, hcache, -, ⟨hnone, h⟩ | ⟨doc, hdoc, ⟨e, hput, h⟩ | ⟨st₂, hput, h⟩⟩⟩ :=
    Store.appendMessage_outcome L K st now nonce roomId msg given
  · rw [hnone, h]
    exact hcache
  · rw [hdoc, h, ← hcache]
    exact (Store.call_of_cachePut_error hput).symm
  · rw [hdoc, h, ← hcache]
    exact (Store.cache_of_cachePut hput : st₂.cache = _)

/-- The document of a job. -/
theorem appended_spec {K : Keyring} {st : Store} {nonce : Bytes} {roomId : Value} {msg : Obj}
    {given : Option PrivateKey} {d : Doc}
    (h : Store.appended L K st now nonce roomId msg given = some d) :
    d.id = Obj.get msg "id" ∧ d.roomId = roomId ∧ messageSender msg = .str d.sender ∧
      messageText msg = .str d.textPlain ∧ d.timestamp = Obj.getD msg "timestamp" (.int now) := by
  rw [Store.appended] at h
  split at h
  · rename_i sender text hsender htext
    split at h
    · rename_i doc hdoc
      obtain rfl := Option.some.inj h
      obtain ⟨hid, hroom, hs, ht, hts⟩ := makeDoc_spec hdoc
      exact ⟨hid, hroom, hs ▸ hsender, ht ▸ htext, hts⟩
    · simp at h
  · simp at h

/-- Does `_cache_put` return for the document? -/
def Doc.filed (L : PyLib) (now : ℤ) (doc : Doc) : Bool :=
  (compactMsg L now doc.roomId (cachedMsg doc)).toOption.isSome

/-- The document has been filed. -/
theorem Doc.filed_of_cachePut {st st' : Store} {doc : Doc}
    (h : st.cachePut L now doc.roomId (cachedMsg doc) = .ok st') : doc.filed L now = true := by
  rw [Store.cachePut] at h
  rw [Doc.filed]
  cases hmsg : compactMsg L now doc.roomId (cachedMsg doc) with
  | error e => simp [hmsg] at h
  | ok o => rfl

/-- The document has not been filed. -/
theorem Doc.not_filed_of_cachePut_error {st : Store} {doc : Doc} {e : PyError}
    (h : st.cachePut L now doc.roomId (cachedMsg doc) = .error e) : doc.filed L now = false := by
  rcases Store.cachePut_cache L now st doc.roomId (cachedMsg doc) with
    ⟨st', hput, -⟩ | ⟨e', -, -, hmsg⟩
  · simp [h] at hput
  · rw [Doc.filed, hmsg]
    rfl

/-- A job stores its document, if there is one and it has been filed. -/
theorem Store.docs_appendMessage (K : Keyring) (st : Store) (nonce : Bytes) (roomId : Value)
    (msg : Obj) (given : Option PrivateKey) :
    (st.appendMessage L K now nonce roomId msg given).docs = st.docs ++
      ((st.appended L K now nonce roomId msg given).filter (Doc.filed L now)).toList := by
  obtain ⟨st₁, -, hdocs, ⟨hnone, h⟩ | ⟨doc, hdoc, ⟨e, hput, h⟩ | ⟨st₂, hput, h⟩⟩⟩ :=
    Store.appendMessage_outcome L K st now nonce roomId msg given
  · simp [hnone, h, hdocs]
  · simp [hdoc, h, hdocs, Option.filter_some, Doc.not_filed_of_cachePut_error hput]
  · simp [hdoc, h, ← hdocs, (Store.onlyCached_cachePut hput).docs, Option.filter_some,
      Doc.filed_of_cachePut hput]

end Calls

namespace Node

variable {env : Env} {n n' n'' : Node}

/-! ## Composing effects

Almost all of a handler leaves nothing behind.  `Leaves` is what is left behind by one that does,
and it may be preceded and followed by anything that is `Idle`. -/

/-- What a change leaves behind: some calls, a job, a message for the other nodes. -/
structure Leaves (env : Env) (n n' : Node) (puts : List PutCall) (job : Option Job)
    (message : Option Submission) : Prop where
  cache : n'.store.cache = puts.foldl (·.call env.lib) n.store.cache
  docs : n'.store.docs = n.store.docs
  jobs : n'.jobs = n.jobs ++ job.toList
  published : n'.published = n.published ++ (message.map fun s ↦ (s.room, s.told)).toList

/-- A change that leaves nothing behind. -/
structure Idle (n n' : Node) : Prop where
  cache : n'.store.cache = n.store.cache
  docs : n'.store.docs = n.store.docs
  jobs : n'.jobs = n.jobs
  published : n'.published = n.published

/-- Nothing has happened. -/
theorem Idle.refl (n : Node) : Idle n n := ⟨rfl, rfl, rfl, rfl⟩

/-- Nothing is left behind twice. -/
theorem Idle.trans (h : Idle n n') (h' : Idle n' n'') : Idle n n'' :=
  ⟨h'.cache.trans h.cache, h'.docs.trans h.docs, h'.jobs.trans h.jobs,
    h'.published.trans h.published⟩

/-- What is idle leaves nothing behind. -/
theorem Idle.leaves (h : Idle n n') : Leaves env n n' [] none none :=
  ⟨h.cache, h.docs, by simpa using h.jobs, by simpa using h.published⟩

/-- Something idle comes before. -/
theorem Leaves.idle_trans {puts : List PutCall} {job : Option Job} {message : Option Submission}
    (h : Idle n n') (h' : Leaves env n' n'' puts job message) : Leaves env n n'' puts job message :=
  ⟨h.cache ▸ h'.cache, h'.docs.trans h.docs, h.jobs ▸ h'.jobs, h.published ▸ h'.published⟩

/-- Something idle comes after. -/
theorem Leaves.trans_idle {puts : List PutCall} {job : Option Job} {message : Option Submission}
    (h : Leaves env n n' puts job message) (h' : Idle n' n'') : Leaves env n n'' puts job message :=
  ⟨h'.cache.trans h.cache, h'.docs.trans h.docs, h'.jobs.trans h.jobs,
    h'.published.trans h.published⟩

/-- A node that has just started has stored and published nothing. -/
theorem Idle.initial (env : Env) : Idle .empty (initial env) :=
  initial_of env (.refl _) fun _ _ h ↦ ⟨h.cache, h.docs, h.jobs, h.published⟩

/-! ## Handlers that leave nothing behind

The same handlers as in `Server.Changes`, looked at from the other side: what matters there are
the clients, and here the store. -/

theorem Idle.noteActivity (n : Node) (id : Str) (c : Client) (now : ℤ) :
    Idle n (n.noteActivity id c now) := by
  rw [Node.noteActivity]
  split <;> exact ⟨rfl, rfl, rfl, rfl⟩

theorem Idle.finishJoin (n : Node) (id room : Str) (history : List Obj) :
    Idle n (n.finishJoin id room history).1 := by
  rcases n.finishJoin_outcome id room history with
    ⟨e, h, -⟩ | ⟨username, isAdmin, users, online, text, rooms, h⟩ <;> rw [h]
  · exact .refl n
  · exact ⟨rfl, rfl, rfl, rfl⟩

theorem Idle.finishSwitchRoom (n : Node) (id room : Str) (history : List Obj) :
    Idle n (n.finishSwitchRoom id room history).1 := by
  rcases n.finishSwitchRoom_outcome id room history with ⟨e, h, -⟩ | ⟨users, text, h⟩ <;> rw [h]
  · exact .refl n
  · exact ⟨rfl, rfl, rfl, rfl⟩

theorem Idle.awaitHistory (n : Node) (id room : Str) (wait : Waiting)
    {finish : Node → List Obj → Node × Option PyError}
    (hfinish : ∀ history, Idle n (finish n history).1) :
    Idle n (n.awaitHistory env id room wait finish).1 := by
  rw [Node.awaitHistory]
  split
  · exact hfinish _
  · exact ⟨rfl, rfl, rfl, rfl⟩

theorem Idle.handleSwitchRoom (env : Env) (n : Node) (c : Client) (room : Value) :
    Idle n (n.handleSwitchRoom env c room).1 := by
  rcases handleSwitchRoom_outcome env n c room with
    ⟨-, h | ⟨code, text, h⟩⟩ | ⟨username, r, -, -, h⟩ <;> rw [h]
  · exact .refl n
  · exact ⟨rfl, rfl, rfl, rfl⟩
  · exact (show Idle n (n.moveTo c username r) from ⟨rfl, rfl, rfl, rfl⟩).trans
      (.awaitHistory _ _ _ _ fun history ↦ .finishSwitchRoom _ _ _ _)

theorem Idle.handleCreateRoom (env : Env) (n : Node) (c : Client) (data : Obj) :
    Idle n (n.handleCreateRoom env c data).1 := by
  rcases handleCreateRoom_outcome env n c data with
    ⟨-, h | ⟨code, text, h⟩⟩ | ⟨n₁, rfl | ⟨rooms, rfl⟩, h⟩ <;> rw [h]
  · exact .refl n
  · exact ⟨rfl, rfl, rfl, rfl⟩
  · exact (show Idle n (n.ensureRoom _) from ⟨rfl, rfl, rfl, rfl⟩).trans
      (.handleSwitchRoom env _ c _)
  · exact (show Idle n ((n.ensureRoom _).broadcastToAll _) from ⟨rfl, rfl, rfl, rfl⟩).trans
      (.handleSwitchRoom env _ c _)

theorem Idle.handleTyping (n : Node) (c : Client) : Idle n (n.handleTyping c) := by
  rw [Node.handleTyping]
  split <;> exact ⟨rfl, rfl, rfl, rfl⟩

theorem Idle.handleModeration (env : Env) (n : Node) (c : Client) (data : Obj) (action : Action) :
    Idle n (n.handleModeration env c data action) := by
  rcases handleModeration_outcome env n c data action with
    h | ⟨code, text, h⟩ | ⟨id, moderator, h⟩ | ⟨id, muted, room, text, users, h⟩ <;> rw [h]
  · exact .refl n
  · exact ⟨rfl, rfl, rfl, rfl⟩
  · exact ⟨rfl, rfl, rfl, rfl⟩
  · exact ⟨rfl, rfl, rfl, rfl⟩

theorem Idle.closeConnection (env : Env) (n : Node) (id : Str) :
    Idle n (n.closeConnection env id) := by
  rw [Node.closeConnection]
  split
  · rename_i c hc
    rcases handleClose_outcome env (n.updateLink id fun l ↦ { l with sender := .stopped }) c with
      h | ⟨text, users, h⟩ <;> rw [h] <;> exact ⟨rfl, rfl, rfl, rfl⟩
  · exact .refl n

theorem Idle.afterHandler (env : Env) (id : Str) (r : Node × Option PyError) :
    Idle r.1 (afterHandler env id r) := by
  obtain ⟨n, _ | e⟩ := r
  · exact .refl n
  · exact .closeConnection env n id

/-- A handler that goes on has nothing left to store. -/
theorem Idle.resume {id : Str} (h : n.resume env id = some n') : Idle n n' := by
  have hresumed : Idle n (n.updateClient id fun c ↦ { c with waiting := none }) :=
    ⟨rfl, rfl, rfl, rfl⟩
  obtain ⟨c, -, ⟨room, history, -, rfl⟩ | ⟨room, history, -, rfl⟩ | ⟨w, e, -, -, rfl⟩⟩ :=
    resume_outcome h
  · exact hresumed.trans ((Idle.finishJoin _ _ _ _).trans (.afterHandler _ _ _))
  · exact hresumed.trans ((Idle.finishSwitchRoom _ _ _ _).trans (.afterHandler _ _ _))
  · exact hresumed.trans (.closeConnection env _ id)

/-- The background moves frames and closes connections. -/
theorem Idle.background {b : Background} (h : n.background env b = some n') : Idle n n' := by
  cases background_outcome h with
  | shutdown =>
    exact shutdown_preserves (I := Idle n) (fun m id hm ↦ hm.trans ⟨rfl, rfl, rfl, rfl⟩)
      ⟨rfl, rfl, rfl, rfl⟩
  | _ => exact ⟨rfl, rfl, rfl, rfl⟩

/-! ## Handlers that leave something behind

A join has a job for the key of the client, a private message a job for its document, and a
submission has a call, a job and something to publish.  The lemmas about frames collect these by
the type of the frame. -/

/-- A join leaves a job for the public key of the client. -/
theorem leaves_handleJoin {c : Client} {data : Obj} {r : Node × Option PyError}
    (h : n.handleJoin env c data = some r) : Leaves env n r.1 [] (n.joinJob env c data) none := by
  rw [joinJob]
  rcases handleJoin_outcome h with ⟨hjoined, rfl⟩ | ⟨username, hjoined, hunique, rfl⟩
  · rw [if_pos hjoined]
    exact (Idle.refl n).leaves
  · rw [hjoined, if_neg Bool.false_ne_true, hunique]
    suffices hregister : Leaves env n (n.register env c username (requestedRoom env data)) [] _ none
      from hregister.trans_idle (.awaitHistory _ _ _ _ fun history ↦ .finishJoin _ _ _ _)
    have hleft : ∀ n₁ : Node, Idle n n₁ → n₁.store = n.store →
        Leaves env n ((n₁.enroll env c username (requestedRoom env data)).joinRoom
          (requestedRoom env data) c.id ⟨username, true, true⟩) []
          (some (.saveUserPublicKey username
            (getOrCreateSenderKeys env.lib env.keyring n.store.keys.senderKeys username).1.2))
          none := by
      intro n₁ hidle hstore
      refine .idle_trans hidle ⟨rfl, rfl, ?_, by simp [enroll, joinRoom, setRooms]⟩
      rw [← hstore]
      rfl
    rw [register]
    split
    · exact hleft _ ⟨rfl, rfl, rfl, rfl⟩ rfl
    · exact hleft n (.refl n) rfl

/-! ## Submissions

The three ways in have the same effects, apart from the job, so their lemmas go by whether the
submission was filed. -/

/-- A submission is filed exactly if `_cache_put` returns. -/
theorem filed_eq_true_iff {now : ℤ} {s : Submission} {st : Store} :
    filed env now s = true ↔ ∃ st', st.cachePut env.lib now s.room s.cached = .ok st' := by
  rw [filed, Store.cachePut]
  cases compactMsg env.lib now s.room s.cached with
  | error e => simp [Except.toOption]
  | ok o => cases o <;> simp [Except.toOption]

/-- The cache after a submission. -/
theorem cache_filed {now : ℤ} {s : Submission} {st st' : Store}
    (h : st.cachePut env.lib now s.room s.cached = .ok st') :
    st'.cache = [s.put now].foldl (·.call env.lib) st.cache ∧ st'.docs = st.docs :=
  ⟨Store.cache_of_cachePut h, (Store.onlyCached_cachePut h).docs⟩

/-- A submission that raises leaves nothing behind, and neither does none. -/
theorem leaves_of_error {now : ℤ} {s : Submission} {e : PyError}
    (h : n.store.cachePut env.lib now s.room s.cached = .error e) :
    Leaves env n n [s.put now] none none := by
  refine ⟨?_, rfl, (List.append_nil _).symm, (List.append_nil _).symm⟩
  exact (Store.call_of_cachePut_error h).symm

/-- A submission that is filed, told, handed to the executor and published. -/
theorem leaves_of_filed {now : ℤ} {s : Submission} {st : Store}
    (h : n.store.cachePut env.lib now s.room s.cached = .ok st)
    (hidle : Idle
      { n with
        store := st
        jobs := n.jobs ++ s.job.toList
        published := n.published ++ [(s.room, s.told)] } n') :
    Leaves env n n' [s.put now] s.job (some s) := by
  obtain ⟨hcache, hdocs⟩ := cache_filed h
  exact ⟨hidle.cache.trans hcache, hidle.docs.trans hdocs, hidle.jobs, hidle.published⟩

theorem filed_of_cachePut {now : ℤ} {s : Submission} {st st' : Store}
    (h : st.cachePut env.lib now s.room s.cached = .ok st') : filed env now s = true :=
  filed_eq_true_iff.mpr ⟨st', h⟩

theorem filed_of_cachePut_error {now : ℤ} {s : Submission} {st : Store} {e : PyError}
    (h : st.cachePut env.lib now s.room s.cached = .error e) : filed env now s = false := by
  rw [Bool.eq_false_iff]
  intro htrue
  obtain ⟨st', hst'⟩ : ∃ st', st.cachePut env.lib now s.room s.cached = .ok st' :=
    filed_eq_true_iff.mp htrue
  simp [h] at hst'

/-- A message frame: a call, and a job and something to publish if the call returns. -/
theorem leaves_handleMessage (env : Env) (n : Node) (c : Client) (data : Obj) (now : ℤ)
    (uuid : Str) : Leaves env n (n.handleMessage env c data now uuid).1
      ((frameSubmission env c data now uuid).map fun s ↦ s.put now).toList
      (((frameSubmission env c data now uuid).filter (filed env now)).bind Submission.job)
      ((frameSubmission env c data now uuid).filter (filed env now)) := by
  rcases handleMessage_outcome env n c data now uuid with
    ⟨hs, e, h⟩ | ⟨s, job, hs, -, hjob, ⟨e, hput, h⟩ | ⟨store, hput, h⟩⟩ <;> rw [h, hs]
  · exact (Idle.refl n).leaves
  · rw [Option.filter_some, if_neg (by simp [filed_of_cachePut_error hput])]
    exact leaves_of_error hput
  · rw [Option.filter_some, if_pos (filed_of_cachePut hput)]
    refine leaves_of_filed hput ?_
    rw [hjob]
    exact ⟨rfl, rfl, rfl, rfl⟩

/-- A private message: a job, and nothing for the feed or the other nodes. -/
theorem leaves_handlePrivateMessage (env : Env) (n : Node) (c : Client) (data : Obj) (now : ℤ)
    (uuid : Str) : Leaves env n (n.handlePrivateMessage env c data now uuid) []
      (n.privateJob env c data now uuid) none := by
  rw [handlePrivateMessage]
  split
  · rename_i husername
    rw [privateJob, husername]
    exact (Idle.refl n).leaves
  · rename_i username husername
    simp only
    split
    · rename_i htarget
      rw [privateJob, husername, htarget]
      exact (show Idle n (n.sendError _ _ _) from ⟨rfl, rfl, rfl, rfl⟩).leaves
    · rename_i targetId htarget
      split
      · rename_i htext
        rw [privateJob, husername, htarget, htext]
        exact (Idle.refl n).leaves
      · rename_i x text htext
        rw [privateJob, husername, htarget, htext]
        exact ⟨rfl, rfl, rfl, (List.append_nil _).symm⟩

/-- What a frame of a minor type is not. -/
theorem str?_ne_of_minor {data : Obj} (h : ∀ t ∈ majorTypes, data.get "type" ≠ .str t) :
    ∀ t ∈ majorTypes, (data.get "type").str? ≠ some t :=
  fun t ht heq ↦ h t ht (Value.str?_eq_some_iff.mp heq)

theorem leaves_minor {data : Obj} (h : ∀ t ∈ majorTypes, data.get "type" ≠ .str t)
    (hidle : Idle n n') (c : Client) (now : ℤ) (uuid : Str) : Leaves env n n'
      (if (data.get "type").str? = some (lit "message") then
        ((frameSubmission env c data now uuid).map fun s ↦ s.put now).toList else [])
      (n.frameJob env c data now uuid) (completedFrame env c data now uuid) := by
  have hne := str?_ne_of_minor h
  rw [completedFrame, frameJob, if_neg (hne _ (by decide)), if_neg (hne _ (by decide)),
    if_neg (hne _ (by decide)), if_neg (hne _ (by decide)), if_neg (hne _ (by decide))]
  exact hidle.leaves

/-! ## Frames and requests

For a frame the effects depend on its type; for a request and for gossip on the body alone. -/

/-- All frames, by their types. -/
theorem leaves_handled {c : Client} {data : Obj} {now : ℤ} {uuid : Str}
    {r : Node × Option PyError} (h : Handled env n c data now uuid r) :
    Leaves env n r.1
      (if (data.get "type").str? = some (lit "message") then
        ((frameSubmission env c data now uuid).map fun s ↦ s.put now).toList else [])
      (n.frameJob env c data now uuid) (completedFrame env c data now uuid) := by
  cases h with
  | join type h =>
    rw [completedFrame, frameJob, type]
    exact leaves_handleJoin h
  | message type =>
    rw [completedFrame, frameJob, completedFrame, type]
    exact leaves_handleMessage env n c data now uuid
  | privateMessage type =>
    rw [completedFrame, frameJob, type]
    exact leaves_handlePrivateMessage env n c data now uuid
  | switchRoom type =>
    rw [completedFrame, frameJob, type]
    exact (Idle.handleSwitchRoom env n c _).leaves
  | createRoom type =>
    rw [completedFrame, frameJob, type]
    exact (Idle.handleCreateRoom env n c data).leaves
  | typing type => exact leaves_minor type (.handleTyping n c) c now uuid
  | moderation type action =>
    exact leaves_minor type (.handleModeration env n c data action) c now uuid
  | ignored type => exact leaves_minor type (.refl n) c now uuid

/-- A frame that comes in, with the activity that is noted before and the connection that may end
afterwards. -/
theorem leaves_receive {id : Str} {data : Value} {now : ℤ} {uuid : Str}
    (h : n.receive env id data now uuid = some n') :
    Leaves env n n' ((Event.frame id data now uuid).puts env n)
      ((Event.frame id data now uuid).job env n)
      ((Event.frame id data now uuid).completed env n) := by
  obtain ⟨c, hc, -, hcases⟩ := receive_handled h
  have hactive := Idle.noteActivity n id c now
  rcases hcases with ⟨fields, r, rfl, hr, rfl⟩ | ⟨hdata, rfl⟩
  · -- the note of activity changes nothing that the handlers below read
    have hregistry : (n.noteActivity id c now).usernameToId = n.usernameToId ∧
        (n.noteActivity id c now).store = n.store := by
      rw [noteActivity]
      split <;> exact ⟨rfl, rfl⟩
    have hjob : (n.noteActivity id c now).frameJob env (c.activeAt now) fields now uuid =
        n.frameJob env c fields now uuid := by
      simp only [frameJob, joinJob, privateJob, hregistry.1, hregistry.2]
      rfl
    have hleft :=
      (Leaves.idle_trans hactive (leaves_handled hr)).trans_idle (.afterHandler env id r)
    rw [hjob] at hleft
    have hputs : (Event.frame id (.dict fields) now uuid).puts env n =
        if (Obj.get fields "type").str? = some (lit "message") then
          ((frameSubmission env c fields now uuid).map fun s ↦ s.put now).toList else [] := by
      rw [Event.puts, Event.submissions, hc]
      split
      · rw [Option.bind_some]
        cases frameSubmission env c fields now uuid <;> rfl
      · rfl
    rw [hputs, Event.job, Event.completed, hc]
    exact hleft
  · have hidle := hactive.trans (.closeConnection env _ id)
    cases data with
    | dict fields => exact absurd rfl (hdata fields)
    | _ => exact hidle.leaves

/-- Whether telling a message raises does not depend on the store. -/
theorem snd_tryBroadcast_withStore (n : Node) (st : Store) (room : Value) (f : Frame) :
    (({ n with store := st } : Node).tryBroadcast room f).2 = (n.tryBroadcast room f).2 := by
  unfold tryBroadcast
  cases room with
  | str r =>
    simp only
    split
    · split <;> rfl
    · rfl
  | _ =>
    simp only
    split <;> rfl

/-- Telling a message leaves nothing behind. -/
theorem idle_tryBroadcast (n : Node) (room : Value) (f : Frame) :
    Idle n (n.tryBroadcast room f).1 := by
  rcases tryBroadcast_spec n room f with h | ⟨r, -, h⟩
  · rw [h]
    exact .refl n
  · rw [h]
    exact ⟨rfl, rfl, rfl, rfl⟩

/-- A request, which is told before its job is handed over. -/
theorem leaves_postMessage (env : Env) (n : Node) (body : Body) (query : Obj) (now : ℤ)
    (uuid : Str) : Leaves env n (n.postMessage env body query now uuid).1
      ((postSubmission env body query now uuid).map fun s ↦ s.put now).toList
      ((completedPost env n body query now uuid).bind Submission.job)
      (completedPost env n body query now uuid) := by
  rw [completedPost]
  cases hs : postSubmission env body query now uuid with
  | none =>
    rcases postMessage_spec env n body query now uuid with h | ⟨s, hs', -⟩
    · rw [h]
      exact (Idle.refl n).leaves
    · simp [hs] at hs'
  | some s =>
    obtain ⟨data, hdata, htext, rfl⟩ := text_of_postSubmission hs
    rcases postMessage_of_text hdata htext with ⟨e, hput, hpost⟩ | ⟨st, hput, htold⟩
    · rw [hpost, Option.filter_some, if_neg (by simp [filed_of_cachePut_error hput])]
      exact leaves_of_error hput
    · have hsnd := snd_tryBroadcast_withStore n st
        (textSubmission env data query now uuid).room
        (.message (textSubmission env data query now uuid).told)
      have hidle := idle_tryBroadcast { n with store := st }
        (textSubmission env data query now uuid).room
        (.message (textSubmission env data query now uuid).told)
      rcases htold with ⟨n₁, e, htell, hpost⟩ | ⟨n₁, j, htell, hj, hpost⟩
      · rw [htell] at hsnd hidle
        rw [hpost, Option.filter_some, if_neg (by simp [← hsnd])]
        obtain ⟨hcache, hdocs⟩ := cache_filed hput
        exact ⟨hidle.cache.trans hcache, hidle.docs.trans hdocs,
          hidle.jobs.trans (List.append_nil _).symm, hidle.published.trans (List.append_nil _).symm⟩
      · rw [htell] at hsnd hidle
        rw [hpost, Option.filter_some, if_pos (by simp [← hsnd, filed_of_cachePut hput]),
          Option.bind_some]
        refine leaves_of_filed hput ⟨hidle.cache, hidle.docs, ?_, ?_⟩
        · rw [hj]
          exact congrArg (· ++ [j]) hidle.jobs
        · exact congrArg (· ++ [_]) hidle.published

/-- One item of a gossip request. -/
theorem leaves_receiveItem (env : Env) (n : Node) (item : Value) (now : ℤ) :
    Leaves env n (n.receiveItem env item now).1
      ((itemSubmission env now item).map fun s ↦ s.put now).toList none none := by
  rw [receiveItem, itemSubmission]
  cases hmsg : gossipMessage env item now with
  | none => exact (Idle.refl n).leaves
  | some p =>
    obtain ⟨room, msg⟩ := p
    simp only [Option.map_some, Option.toList_some]
    split
    · rename_i e hput
      exact leaves_of_error (s := ⟨room, msg, msg, none⟩) hput
    · rename_i st hput
      obtain ⟨hcache, hdocs⟩ := cache_filed (s := ⟨room, msg, msg, none⟩) hput
      have hidle := idle_tryBroadcast { n with store := st } room (.message msg)
      exact ⟨hidle.cache.trans hcache, hidle.docs.trans hdocs,
        hidle.jobs.trans (List.append_nil _).symm,
        hidle.published.trans (List.append_nil _).symm⟩

/-- The items of a gossip request one after the other. -/
theorem leaves_receiveItems (env : Env) (now : ℤ) (items : List Value) : ∀ n : Node,
    Leaves env n (receiveItems env now n items) (itemPuts env now n items) none none := by
  induction items with
  | nil => exact fun n ↦ (Idle.refl n).leaves
  | cons item items ih =>
    intro n
    have hitem := leaves_receiveItem env n item now
    rw [receiveItems, itemPuts]
    generalize n.receiveItem env item now = r at hitem ⊢
    obtain ⟨n₁, _ | e⟩ := r
    · have hrest := ih n₁
      refine ⟨?_, hrest.docs.trans hitem.docs, ?_, ?_⟩
      · rw [List.foldl_append, ← hitem.cache]
        exact hrest.cache
      · rw [hrest.jobs, hitem.jobs]
        simp
      · rw [hrest.published, hitem.published]
        simp
    · exact (List.append_nil (Option.toList _)).symm ▸ hitem

/-! ## Reads

A history that is fetched and the messages that are loaded at the start go through `_cache_put` as
well, row by row. -/

/-- A history that is not cached is fetched, and its rows are filed. -/
theorem cache_getHistory {L : PyLib} {now : ℤ} (st : Store) (room : Str) (limit : ℤ)
    (docs : Option (List Obj)) : (st.getHistory L now room limit docs).1.cache =
      (if st.cachedHistory room limit = [] then
        rowPuts L now ((docs.getD []).map fun doc ↦ (.str room, docToMsg L doc)) else []).foldl
          (·.call L) st.cache := by
  unfold Store.getHistory
  split
  · rename_i m ms hcached
    rw [hcached, if_neg (List.cons_ne_nil m ms)]
    rfl
  · rename_i hcached
    rw [hcached, if_pos rfl]
    cases docs with
    | none => rfl
    | some docs =>
      have hput := Store.cache_cachePutAll L now
        ((docs.map (docToMsg L)).map fun m ↦ (.str room, m)) st
      simp only [Option.getD_some]
      rw [List.map_map] at hput
      split
      · rename_i st' hst'
        rw [List.map_map] at hst'
        rw [hst'] at hput
        exact hput
      · rename_i st' e hst'
        rw [List.map_map] at hst'
        rw [hst'] at hput
        exact hput

/-- The executor files the rows that it has fetched for a handler. -/
theorem leaves_fetchHistory {id : Str} {now : ℤ} {docs : Option (List Obj)}
    (h : n.fetchHistory env id now docs = some n') :
    Leaves env n n' (fetchPuts env n id now docs) none none := by
  obtain ⟨c, w, room, ready, hc, hw, hroom, -, rfl⟩ := fetchHistory_spec h
  have hwaiting : (n.waitingAt id).bind Waiting.room? = some room := by
    rw [waitingAt, hc, Option.bind_some, hw, Option.bind_some, hroom]
  rw [fetchPuts, hwaiting]
  refine ⟨cache_getHistory _ _ _ _, (Store.onlyCached_getHistory n.store room _ docs).docs,
    (List.append_nil _).symm, (List.append_nil _).symm⟩

/-- At the start the rows of the latest messages are filed. -/
theorem leaves_warmCache (env : Env) (n : Node) (now : ℤ) (docs : Option (List Obj)) :
    Leaves env n { n with store := n.store.warmCacheFromDb env.lib now docs }
      ((Event.warmCache now docs).puts env n) none none := by
  refine ⟨?_, (Store.onlyCached_warmCacheFromDb n.store docs).docs, (List.append_nil _).symm,
    (List.append_nil _).symm⟩
  rw [Event.puts]
  show (n.store.warmCacheFromDb env.lib now docs).cache = _
  unfold Store.warmCacheFromDb
  split
  · rfl
  · cases docs with
    | none => rfl
    | some docs => exact Store.cache_cachePutAll env.lib now _ n.store

/-! ## Steps

Every event has the effects that were computed for it.  A job is an event of its own, with the
call for its document. -/

/-- Every event but the run of a job. -/
theorem leaves_step {a : Event} (h : n.step env a = some n')
    (hjob : ∀ i now nonce, a ≠ .runJob i now nonce) :
    Leaves env n n' (a.puts env n) (a.job env n) (a.completed env n) := by
  cases a with
  | connect id queryParams now =>
    obtain ⟨-, rfl⟩ := step_connect h
    exact (show Idle n (n.handleConnection env id queryParams now) from
      ⟨rfl, rfl, rfl, rfl⟩).leaves
  | frame id data now uuid => exact leaves_receive h
  | fetchHistory id now docs => exact leaves_fetchHistory h
  | resume id => exact (Idle.resume h).leaves
  | disconnect id =>
    obtain ⟨c, -, -, rfl⟩ := step_disconnect h
    exact (Idle.closeConnection env n id).leaves
  | post body query now uuid =>
    exact Option.some.inj h ▸ leaves_postMessage env n body query now uuid
  | gossip data now =>
    obtain rfl := Option.some.inj h
    cases data with
    | none => exact (Idle.refl n).leaves
    | some v => exact leaves_receiveItems env now (gossipItems v) n
  | feed room limit now =>
    obtain rfl := Option.some.inj h
    cases room with
    | none => exact (show Idle n (n.getFeedRoute none limit now).2 from ⟨rfl, rfl, rfl, rfl⟩).leaves
    | some r => exact (Idle.refl n).leaves
  | runJob i now nonce => exact absurd rfl (hjob i now nonce)
  | warmCache now docs => exact Option.some.inj h ▸ leaves_warmCache env n now docs
  | publicKey username =>
    obtain rfl := Option.some.inj h
    exact Idle.leaves ⟨rfl, rfl, rfl, rfl⟩
  | privateKey username =>
    obtain rfl := Option.some.inj h
    exact Idle.leaves ⟨rfl, rfl, rfl, rfl⟩
  | background b => exact (Idle.background h).leaves

/-- The run of a job. -/
theorem runJob_spec {i : ℕ} {now : ℤ} {nonce : Bytes} (h : n.runJob env i now nonce = some n') :
    ∃ job, n.jobs[i]? = some job ∧ n'.jobs = n.jobs.eraseIdx i ∧ n'.published = n.published ∧
      n'.store.cache =
        ((Event.runJob i now nonce).puts env n).foldl (·.call env.lib) n.store.cache ∧
      n'.store.docs =
        n.store.docs ++ ((n.jobDoc env i now nonce).filter (Doc.filed env.lib now)).toList := by
  obtain ⟨job, hjob, rfl⟩ := Option.map_eq_some_iff.mp h
  refine ⟨job, hjob, ?_⟩
  rw [Event.puts, jobDoc, hjob]
  cases job with
  | append roomId msg key =>
    exact ⟨rfl, rfl, Store.cache_appendMessage _ _ _ _ _ _, Store.docs_appendMessage _ _ _ _ _ _⟩
  | saveUserPublicKey username key => exact ⟨rfl, rfl, rfl, (List.append_nil _).symm⟩

/-- The document of a job has the id of the job. -/
theorem key?_of_jobDoc {i : ℕ} {now : ℤ} {nonce : Bytes} {job : Job} {d : Doc}
    (hjob : n.jobs[i]? = some job) (hd : n.jobDoc env i now nonce = some d) :
    d.id.key? = job.key? := by
  rw [jobDoc, hjob] at hd
  cases job with
  | append roomId msg key => rw [(appended_spec hd).1, Job.key?]
  | saveUserPublicKey username key => simp at hd

/-- So has the call for it. -/
theorem key?_of_mem_runJob {i : ℕ} {now : ℤ} {nonce : Bytes} {job : Job} {p : PutCall} {k : Key}
    (hjob : n.jobs[i]? = some job) (hp : p ∈ (Event.runJob i now nonce).puts env n)
    (hk : p.key? env.lib = some k) : job.key? = some k := by
  rw [Event.puts, Option.mem_toList] at hp
  obtain ⟨d, hd, rfl⟩ := Option.map_eq_some_iff.mp hp
  rw [PutCall.key?] at hk
  split at hk
  · rename_i e he
    rw [← key?_of_jobDoc hjob hd, ← Option.some.inj hk, ← e.id_key, (eq_of_compactMsg he).2.1]
    rfl
  · simp at hk

/-- **The cache after a step is the cache after its calls.** -/
theorem cache_step {a : Event} (h : n.step env a = some n') :
    n'.store.cache = (a.puts env n).foldl (·.call env.lib) n.store.cache := by
  by_cases hjob : ∃ i now nonce, a = .runJob i now nonce
  · obtain ⟨i, now, nonce, rfl⟩ := hjob
    obtain ⟨job, -, -, -, hcache, -⟩ := runJob_spec h
    exact hcache
  · exact (leaves_step h fun i now nonce heq ↦ hjob ⟨i, now, nonce, heq⟩).cache

/-- The cache of a node is the cache after some calls. -/
theorem cache_of_reachable (h : (system env).Reachable n) :
    ∃ calls, n.store.cache = runPuts env.lib calls := by
  refine h.invariant (I := fun n ↦ ∃ calls, n.store.cache = runPuts env.lib calls) ?_ ?_
  · rintro s rfl
    refine ⟨[], ?_⟩
    rw [(Quiet.initial env).store]
    rfl
  · rintro s a s' ⟨calls, hcalls⟩ hstep
    refine ⟨calls ++ a.puts env s, ?_⟩
    rw [cache_step hstep, hcalls, runPuts, runPuts, List.foldl_append]

/-! ## Messages that are handled to the end

A submission may raise on the way, after it has been filed or before.  `Event.completed` is the
submission of an event that does not, and it makes exactly one call. -/

/-- What a request handles to the end is what it submits. -/
theorem postSubmission_of_completed {body : Body} {query : Obj} {now : ℤ} {uuid : Str}
    {s : Submission} (h : completedPost env n body query now uuid = some s) :
    postSubmission env body query now uuid = some s := (Option.filter_eq_some_iff.mp h).1

/-- A request that is handled to the end makes one call. -/
theorem puts_of_completed_post {body : Body} {query : Obj} {now : ℤ} {uuid : Str} {s : Submission}
    (h : (Event.post body query now uuid).completed env n = some s) :
    (Event.post body query now uuid).puts env n = [s.put now] ∧
      (Event.post body query now uuid).job env n = s.job := by
  have hs := postSubmission_of_completed
    (show completedPost env n body query now uuid = some s from h)
  rw [Event.puts, hs, Event.job, show completedPost env n body query now uuid = some s from h]
  exact ⟨rfl, rfl⟩

/-- What a frame handles to the end is what it submits, and its sender is connected. -/
theorem frameSubmission_of_completed {id : Str} {data : Value} {now : ℤ} {uuid : Str}
    {s : Submission} (h : (Event.frame id data now uuid).completed env n = some s) :
    ∃ fields c, data = .dict fields ∧ n.clientsById.get? id = some c ∧
      (Obj.get fields "type").str? = some (lit "message") ∧
      frameSubmission env c fields now uuid = some s ∧
      completedFrame env c fields now uuid = some s := by
  cases data with
  | dict fields =>
    obtain ⟨c, hc, hs⟩ := Option.bind_eq_some_iff.mp h
    have hs' := hs
    rw [completedFrame] at hs'
    split at hs'
    · rename_i htype
      exact ⟨fields, c, rfl, hc, htype, (Option.filter_eq_some_iff.mp hs').1, hs⟩
    · simp at hs'
  | _ => exact absurd h (by simp [Event.completed])

/-- A frame that is handled to the end makes one call. -/
theorem puts_of_completed_frame {id : Str} {data : Value} {now : ℤ} {uuid : Str} {s : Submission}
    (h : (Event.frame id data now uuid).completed env n = some s) :
    (Event.frame id data now uuid).puts env n = [s.put now] ∧
      (Event.frame id data now uuid).job env n = s.job := by
  obtain ⟨fields, c, rfl, hc, htype, hs, hcompleted⟩ := frameSubmission_of_completed h
  refine ⟨?_, ?_⟩
  · rw [Event.puts, Event.submissions, if_pos htype, hc, Option.bind_some, hs]
    rfl
  · rw [Event.job, hc, Option.bind_some, frameJob, htype, hcompleted]
    rfl

end Node

end GroupChat
