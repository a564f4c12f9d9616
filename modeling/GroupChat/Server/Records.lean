import GroupChat.Server.Causes

/-!
# Why a record changes

The record of a client is written by the handlers of its own frames, by those of the administrators,
by the sweep for idle clients and by whatever closes its connection.  As `Causes` does for frames,
this file says for each change what has caused it.

* `Edit` is one assignment to a record, with the event it belongs to and the condition under which
  it is made.
* `records_step`: the record of a client after a step is a new one, or it is its record before the
  step after some edits.

The events are described once, as predicates on an event and the state before it, and the
constructors of `Edit` refer to them.  So a reader who asks when a field of a record may change
finds all the answers in `Edit`, and the theorem says that there are no others.
-/

set_option autoImplicit false

namespace GroupChat

open Transition Relation

namespace Node

variable {env : Env} {n n' n'' : Node}

/-! ## Changes of records

`Records E n n'` compares two nodes: every record of the second one is a record of the first one
after steps of a relation `E` between records.  New clients are not among them; they come in by
`handle_connection` only, which `records_step` treats separately. -/

/-- Whoever is there was there before, with a record that has changed by `E`-steps. -/
def Records (E : Str → Client → Client → Prop) (n n' : Node) : Prop :=
  ∀ id c', n'.clientsById.get? id = some c' →
    ∃ c, n.clientsById.get? id = some c ∧ ReflTransGen (E id) c c'

variable {E : Str → Client → Client → Prop}

/-- The records have not been touched. -/
theorem Records.of_clients (h : n'.clientsById = n.clientsById) : Records E n n' :=
  fun _ c' hc' ↦ ⟨c', h ▸ hc', .refl⟩

/-- No edit at all. -/
theorem Records.refl (n : Node) : Records E n n := .of_clients rfl

/-- The edits of two changes, one after the other. -/
theorem Records.trans (h : Records E n n') (h' : Records E n' n'') : Records E n n'' := by
  intro id c'' hc''
  obtain ⟨c', hc', hsteps'⟩ := h' id c'' hc''
  obtain ⟨c, hc, hsteps⟩ := h id c' hc'
  exact ⟨c, hc, hsteps.trans hsteps'⟩

/-- One record is edited. -/
theorem Records.updateClient (n : Node) (id : Str) {f : Client → Client}
    (h : ∀ c, n.clientsById.get? id = some c → E id c (f c)) :
    Records E n (n.updateClient id f) := by
  intro id' c' hc'
  rw [get?_updateClient] at hc'
  obtain ⟨c, hc, rfl⟩ := Option.map_eq_some_iff.mp hc'
  refine ⟨c, hc, ?_⟩
  split
  · rename_i hid
    subst hid
    exact .single (h c hc)
  · exact .refl

/-- Who is removed from the records is not there afterwards, so nothing is said about it. -/
theorem Records.forget (env : Env) (n : Node) (c : Client) : Records E n (n.forget env c) := by
  intro id c' hc'
  rw [get?_forget] at hc'
  split at hc'
  · simp at hc'
  · exact ⟨c', hc', .refl⟩

/-- The record of the client is removed, after its room has been told. -/
theorem Records.closeConnection (n : Node) (id : Str) :
    Records E n (n.closeConnection env id) := by
  rw [Node.closeConnection]
  split
  · rename_i c hc
    refine (Records.of_clients rfl : Records E n
      (n.updateLink id fun l ↦ { l with sender := .stopped })).trans ?_
    refine (Records.forget env _ c).trans ?_
    rcases handleClose_outcome env (n.updateLink id fun l ↦ { l with sender := .stopped }) c with
      h | ⟨text, users, h⟩ <;> rw [h] <;> exact .of_clients rfl
  · exact .refl n

/-- If the handler has raised then the connection is closed. -/
theorem Records.afterHandler {id : Str} {r : Node × Option PyError} (h : Records E n r.1) :
    Records E n (afterHandler env id r) := by
  obtain ⟨n', _ | e⟩ := r
  · exact h
  · exact h.trans (.closeConnection n' id)

/-! ## Edits

The predicates say which event comes to which client.  A frame that an administrator sends about
somebody else edits the record of the target, and every other frame edits the record of its own
client, if any. -/

/-- The client connects. -/
def Event.Connects (a : Event) (id : Str) : Prop :=
  ∃ queryParams now, a = .connect id queryParams now

/-- The event is a frame of an administrator that is about the client. -/
def Event.Moderates (env : Env) (n : Node) (a : Event) (id : Str) (action : Action) : Prop :=
  ∃ admin data now uuid c target, a = .frame admin (.dict data) now uuid ∧
    n.clientsById.get? admin = some c ∧ c.waiting = none ∧ c.isAdmin = true ∧
    c.username.isSome = true ∧ moderation? data = some action ∧
      (n.usernameToId.get? (env.lib.lower (targetName env (Obj.get data "target")))).bind
        n.clientsById.get? = some target ∧ target.id = id

/-- The sender loop of the client fails, an administrator throws it out, or the server shuts
down. -/
def Event.Closes (env : Env) (n : Node) (a : Event) (id : Str) : Prop :=
  a = .background (.senderDone id false) ∨ a.Moderates env n id .kick ∨ a = .background .shutdown

/-- The sweep comes to the client, which has been idle for too long. -/
def Event.Sweeps (env : Env) (n : Node) (a : Event) (id : Str) : Prop :=
  ∃ now c, a = .background (.sweepPresence id now) ∧ n.clientsById.get? id = some c ∧
    c.username.isSome = true ∧ c.away = false ∧ env.config.idleTimeoutMs < now - c.lastActivity

/-- The handler of the client runs, or the executor gets its history. -/
def Event.Handles (a : Event) (id : Str) : Prop :=
  (∃ data now uuid, a = .frame id data now uuid) ∨ (∃ now docs, a = .fetchHistory id now docs) ∨
    a = .resume id

/-- An assignment to the record of the client `id` when `a` happens, in the state before. -/
inductive Edit (env : Env) (n : Node) (a : Event) (id : Str) : Client → Client → Prop
  | active {data : Value} {now : ℤ} {uuid : Str} (ha : a = .frame id data now uuid) (c : Client) :
      Edit env n a id c (c.activeAt now)
  /-- The client joins under a name that is free. -/
  | joined {data : Obj} {c : Client} {username room : Str} {key : PrivateKey}
      (ha : a.IsFrame id (lit "join") data) (hnew : c.explicitlyJoined = false)
      (hunique : uniqueUsername env.lib n.usernameToId.keys (requestedName env c data) =
        some username) (hroom : room = requestedRoom env data) :
      Edit env n a id c (c.joinedAs username room
        (decide (env.lib.lower username ∈ env.config.adminUsernames)) key)
  /-- The client goes to a room, under the name that it has. -/
  | moved {data : Obj} {c : Client} {room : Str}
      (ha : a.IsFrame id (lit "switch_room") data ∨ a.IsFrame id (lit "create_room") data)
      (husername : c.username.isSome = true) (hne : room ≠ c.room) :
      Edit env n a id c { c with room := room }
  | waiting (ha : a.Handles id) (wait : Option Waiting) (c : Client) :
      Edit env n a id c { c with waiting := wait }
  | away (ha : a.Sweeps env n id) (c : Client) : Edit env n a id c { c with away := true }
  | closed (ha : a.Closes env n id) (c : Client) : Edit env n a id c { c with connected := false }
  | muted (ha : a.Moderates env n id .mute) (c : Client) :
      Edit env n a id c { c with muted := true }
  | unmuted (ha : a.Moderates env n id .unmute) (c : Client) :
      Edit env n a id c { c with muted := false }

/-! ## Handlers

The hypotheses of these lemmas are the edits that a handler is allowed to make.  They are
discharged once, in `Records.dispatch`, where it is known which frame has come. -/

section Frames

variable {id : Str} {c : Client} {data : Obj} {now : ℤ} {uuid : Str}

/-- The handler goes on at once, or the record says what it waits for. -/
theorem Records.awaitHistory {room : Str} {wait : Waiting}
    {finish : Node → List Obj → Node × Option PyError}
    (hwait : ∀ c, E id c { c with waiting := some wait })
    (hfinish : ∀ history, Records E n (finish n history).1) :
    Records E n (n.awaitHistory env id room wait finish).1 := by
  rw [Node.awaitHistory]
  split
  · exact hfinish _
  · exact .updateClient n id fun c _ ↦ hwait c

/-- What follows the history does not edit records. -/
theorem Records.finishJoin (n : Node) (room : Str) (history : List Obj) :
    Records E n (n.finishJoin id room history).1 := by
  rcases n.finishJoin_outcome id room history with
    ⟨e, h, -⟩ | ⟨username, isAdmin, users, online, text, rooms, h⟩ <;> rw [h] <;>
      exact .of_clients rfl

theorem Records.finishSwitchRoom (n : Node) (room : Str) (history : List Obj) :
    Records E n (n.finishSwitchRoom id room history).1 := by
  rcases n.finishSwitchRoom_outcome id room history with ⟨e, h, -⟩ | ⟨users, text, h⟩ <;> rw [h] <;>
    exact .of_clients rfl

/-- The record gets its name and its room, and says whether the client is an administrator. -/
theorem Records.enroll {username room : Str}
    (h : ∀ c', n.clientsById.get? c.id = some c' → ∀ key, E c.id c' (c'.joinedAs username room
      (decide (env.lib.lower username ∈ env.config.adminUsernames)) key)) :
    Records E n (n.enroll env c username room) := by
  intro id' c' hc'
  have hupdate := Records.updateClient (E := E) n c.id (f := (·.joinedAs username room
    (decide (env.lib.lower username ∈ env.config.adminUsernames))
    (getOrCreateSenderKeys env.lib env.keyring n.store.keys.senderKeys username).1.1))
    fun c' hc' ↦ h c' hc' _
  exact hupdate id' c' hc'

theorem Records.handleJoin {r : Node × Option PyError} (h : n.handleJoin env c data = some r)
    (hwait : ∀ wait c', E c.id c' { c' with waiting := wait })
    (hjoin : ∀ username, c.explicitlyJoined = false →
      uniqueUsername env.lib n.usernameToId.keys (requestedName env c data) = some username →
      ∀ c', n.clientsById.get? c.id = some c' → ∀ key, E c.id c' (c'.joinedAs username
        (requestedRoom env data) (decide (env.lib.lower username ∈ env.config.adminUsernames))
        key)) : Records E n r.1 := by
  rcases handleJoin_outcome h with ⟨-, rfl⟩ | ⟨username, hnew, hunique, rfl⟩
  · exact .refl n
  · have hregister : Records E n (n.register env c username (requestedRoom env data)) := by
      have henroll : ∀ m : Node, m.clientsById = n.clientsById →
          Records E n (m.enroll env c username (requestedRoom env data)) := fun m hm ↦
        (Records.of_clients hm).trans (.enroll fun c' hc' ↦
          hjoin username hnew hunique c' (hm ▸ hc'))
      rw [register]
      split
      · exact (henroll _ rfl).trans (.of_clients rfl)
      · exact (henroll _ rfl).trans (.of_clients rfl)
    exact hregister.trans (.awaitHistory (hwait _) fun history ↦ .finishJoin _ _ history)

/-- The record gets the new room, and says what its handler waits for. -/
theorem Records.handleSwitchRoom (n : Node) (c : Client) (room : Value)
    (hwait : ∀ wait c', E c.id c' { c' with waiting := wait })
    (hmove : ∀ r c', c.username.isSome = true → r ≠ c.room → n.clientsById.get? c.id = some c' →
      E c.id c' { c' with room := r }) :
    Records E n (n.handleSwitchRoom env c room).1 := by
  rcases handleSwitchRoom_outcome env n c room with
    ⟨-, h | ⟨code, text, h⟩⟩ | ⟨username, r, husername, hr, h⟩ <;> rw [h]
  · exact .refl n
  · exact .of_clients rfl
  · have hmoved : Records E n (n.moveTo c username r) := by
      have hupdate := Records.updateClient (E := E) n c.id (f := fun c ↦ { c with room := r })
        fun c' hc' ↦ hmove r c' (by rw [husername]; rfl) (switchedRoom_eq_some hr).2 hc'
      exact fun id' c' hc' ↦ hupdate id' c' hc'
    exact hmoved.trans (.awaitHistory (hwait _) fun history ↦ .finishSwitchRoom _ _ history)

/-- A new room changes no record; the switch to it does. -/
theorem Records.handleCreateRoom (n : Node) (c : Client) (data : Obj)
    (hwait : ∀ wait c', E c.id c' { c' with waiting := wait })
    (hmove : ∀ r c', c.username.isSome = true → r ≠ c.room → n.clientsById.get? c.id = some c' →
      E c.id c' { c' with room := r }) :
    Records E n (n.handleCreateRoom env c data).1 := by
  rcases handleCreateRoom_outcome env n c data with
    ⟨-, h | ⟨code, text, h⟩⟩ | ⟨n₁, hn₁, h⟩ <;> rw [h]
  · exact .refl n
  · exact .of_clients rfl
  · have hsame : n₁.clientsById = n.clientsById := by
      rcases hn₁ with rfl | ⟨rooms, rfl⟩ <;> rfl
    exact (Records.of_clients hsame).trans (.handleSwitchRoom n₁ c _ hwait fun r c' hname hne hc' ↦
      hmove r c' hname hne (hsame ▸ hc'))

/-- The handler edits one record at most: that of the target, if the client is an administrator
with a name and the target is there. -/
theorem Records.handleModeration (n : Node) (c : Client) (data : Obj) (action : Action)
    (h : ∀ target, c.isAdmin = true → c.username.isSome = true →
      (n.usernameToId.get? (env.lib.lower (targetName env (data.get "target")))).bind
        n.clientsById.get? = some target → ∀ c', match action with
          | .kick => E target.id c' { c' with connected := false }
          | .mute => E target.id c' { c' with muted := true }
          | .unmute => E target.id c' { c' with muted := false }) :
    Records E n (n.handleModeration env c data action) := by
  rw [Node.handleModeration]
  split
  · exact .refl n
  · rename_i moderator hmoderator
    split
    · rename_i hadmin
      simp only
      split
      · exact .of_clients rfl
      · rename_i target htarget
        have htold := h target hadmin (by rw [hmoderator]; rfl) htarget
        cases action with
        | kick =>
          have hsent : Records E n (n.send target.id (.kicked moderator)) := .of_clients rfl
          exact hsent.trans (.updateClient _ target.id fun c' _ ↦ htold c')
        | mute =>
          refine (Records.updateClient n target.id fun c' _ ↦ htold c').trans ?_
          exact .of_clients rfl
        | unmute =>
          refine (Records.updateClient n target.id fun c' _ ↦ htold c').trans ?_
          exact .of_clients rfl
    · exact .of_clients rfl

end Frames

/-! ## Steps

Before the kind of a frame is looked at, the time of the last activity is noted, so even a frame
that is answered with an error edits the record of its client. -/

theorem Records.noteActivity (n : Node) {id : Str} {c : Client} {now : ℤ}
    (h : ∀ c', E id c' (c'.activeAt now)) : Records E n (n.noteActivity id c now) := by
  have hupdate := Records.updateClient (E := E) n id (f := (·.activeAt now)) fun c' _ ↦ h c'
  rw [Node.noteActivity]
  split
  · exact hupdate.trans (.of_clients rfl)
  · exact hupdate

/-- The frame of a client is handled after its activity has been noted. -/
theorem receive_cases {id : Str} {data : Value} {now : ℤ} {uuid : Str} (hn : Housed n)
    (h : n.receive env id data now uuid = some n') :
    ∃ c, n.clientsById.get? id = some c ∧ c.id = id ∧ c.waiting = none ∧
      ((∃ fields r, data = .dict fields ∧ (n.noteActivity id c now).dispatch env (c.activeAt now)
          fields now uuid = some r ∧ n' = Node.afterHandler env id r) ∨
        (∀ fields, data ≠ .dict fields) ∧
          n' = (n.noteActivity id c now).closeConnection env id) := by
  rw [receive] at h
  split at h
  · rename_i c hc
    refine ⟨c, hc, hn.id id _ (placeOf_of_get? hc), ?_⟩
    split at h
    · simp at h
    · rename_i hwaiting
      refine ⟨hwaiting, ?_⟩
      split at h
      · rename_i fields
        obtain ⟨r, hr, rfl⟩ := Option.map_eq_some_iff.mp h
        exact Or.inl ⟨fields, r, rfl, hr, rfl⟩
      · rename_i hdict
        exact Or.inr ⟨hdict, (Option.some.inj h).symm⟩
  · simp at h

/-- What a frame does to the records, after the activity of the client has been noted. -/
theorem Records.dispatch {c : Client} {fields : Obj} {now : ℤ} {uuid : Str}
    {r : Node × Option PyError} (hc : n.clientsById.get? c.id = some c)
    (hwaiting : c.waiting = none)
    (hr : (n.noteActivity c.id c now).dispatch env (c.activeAt now) fields now uuid = some r) :
    Records (Edit env n (.frame c.id (.dict fields) now uuid)) (n.noteActivity c.id c now) r.1 := by
  have hget := get?_noteActivity hc now
  have hnames : (n.noteActivity c.id c now).usernameToId = n.usernameToId :=
    (Quiet.noteActivity n c.id c now).usernameToId
  have hwait : ∀ wait c', Edit env n (.frame c.id (.dict fields) now uuid) c.id c'
      { c' with waiting := wait } := fun wait c' ↦ .waiting (Or.inl ⟨_, _, _, rfl⟩) wait c'
  by_cases hminor : ∀ t ∈ majorTypes, Obj.get fields "type" ≠ .str t
  · rcases dispatch_minor hr hminor with ⟨-, rfl⟩ | rfl | ⟨action, haction, rfl⟩
    · rw [handleTyping]
      split <;> exact .of_clients rfl
    · exact .refl _
    · refine .handleModeration _ _ _ _ fun t hadmin hmoderator ht c' ↦ ?_
      have ha : (Event.frame c.id (.dict fields) now uuid).Moderates env n t.id action := by
        obtain ⟨f, hf, hnamed⟩ := clientNamed_noteActivity env n c.id c now
          (targetName env (Obj.get fields "target"))
        obtain ⟨t₀, ht₀, rfl⟩ := Option.map_eq_some_iff.mp (hnamed.symm.trans ht)
        exact ⟨c.id, fields, now, uuid, c, t₀, rfl, hc, hwaiting, hadmin, hmoderator, haction, ht₀,
          (hf t₀).1.symm⟩
      cases action with
      | kick => exact .closed (Or.inr (Or.inl ha)) c'
      | mute => exact .muted ha c'
      | unmute => exact .unmuted ha c'
  cases handled hr with
  | join type hjoin =>
    refine .handleJoin hjoin hwait fun username hnew hunique c' hc' key ↦ ?_
    obtain rfl := Option.some.inj (hget.symm.trans hc')
    rw [hnames] at hunique
    have ha : (Event.frame c.id (.dict fields) now uuid).IsFrame c.id (lit "join") fields :=
      ⟨type, now, uuid, rfl⟩
    exact .joined ha hnew hunique rfl
  | message type =>
    refine .of_clients ?_
    rcases handleMessage_outcome env (n.noteActivity c.id c now) (c.activeAt now) fields now
      uuid with ⟨-, e, h⟩ | ⟨s, job, -, -, -, ⟨e, -, h⟩ | ⟨store, -, h⟩⟩
    · rw [h]
    · rw [h]
    · rw [h]
      rfl
  | privateMessage type =>
    refine .of_clients ?_
    rcases handlePrivateMessage_outcome env (n.noteActivity c.id c now) (c.activeAt now) fields
      now uuid with h | ⟨code, text, h⟩ | ⟨username, target, -, -, h⟩ <;> rw [h] <;> rfl
  | switchRoom type =>
    refine .handleSwitchRoom _ _ _ hwait fun r c' hname hne hc' ↦ ?_
    obtain rfl := Option.some.inj (hget.symm.trans hc')
    have ha : (Event.frame c.id (.dict fields) now uuid).IsFrame c.id (lit "switch_room") fields :=
      ⟨type, now, uuid, rfl⟩
    exact .moved (Or.inl ha) hname hne
  | createRoom type =>
    refine .handleCreateRoom _ _ _ hwait fun r c' hname hne hc' ↦ ?_
    obtain rfl := Option.some.inj (hget.symm.trans hc')
    have ha : (Event.frame c.id (.dict fields) now uuid).IsFrame c.id (lit "create_room") fields :=
      ⟨type, now, uuid, rfl⟩
    exact .moved (Or.inr ha) hname hne
  | typing type => exact absurd type hminor
  | moderation type action => exact absurd type hminor
  | ignored type => exact absurd type hminor

/-- What the frame of a client does to the records.  First of all the client is active. -/
theorem Records.receive {id : Str} {data : Value} {now : ℤ} {uuid : Str} (hn : Housed n)
    (h : n.receive env id data now uuid = some n') :
    ∃ c, n.clientsById.get? id = some c ∧
      Records (Edit env n (.frame id data now uuid)) (n.noteActivity id c now) n' := by
  obtain ⟨c, hc, rfl, hwaiting, ⟨fields, r, rfl, hr, rfl⟩ | ⟨-, rfl⟩⟩ := receive_cases hn h
  · exact ⟨c, hc, .afterHandler (.dispatch hc hwaiting hr)⟩
  · exact ⟨c, hc, .closeConnection _ _⟩

/-! ## Steps without a frame

A handler goes on, or something happens in the background. -/

/-- The history has come, and the handler goes on. -/
theorem Records.resume {id : Str} (h : n.resume env id = some n') :
    Records (Edit env n (.resume id)) n n' := by
  have hwait : Records (Edit env n (.resume id)) n
      (n.updateClient id fun c ↦ { c with waiting := none }) :=
    .updateClient n id fun c _ ↦ .waiting (Or.inr (Or.inr rfl)) none c
  obtain ⟨c, -, ⟨room, history, -, rfl⟩ | ⟨room, history, -, rfl⟩ | ⟨w, e, -, -, rfl⟩⟩ :=
    resume_outcome h
  · exact hwait.trans (.afterHandler (.finishJoin _ _ history))
  · exact hwait.trans (.afterHandler (.finishSwitchRoom _ _ history))
  · exact hwait.trans (.closeConnection _ _)

/-- Among the activities in the background, the sweep and a failed sender loop edit records, and
so does the executor when it hands over a history. -/
theorem Records.background {b : Background} (h : n.background env b = some n') :
    Records (Edit env n (.background b)) n n' := by
  cases background_outcome h with
  | @sweepPresence id now c hc hidle =>
    simp only [Bool.and_eq_true, Bool.not_eq_true', decide_eq_true_eq] at hidle
    have ha : (Event.background (.sweepPresence id now)).Sweeps env n id :=
      ⟨now, c, rfl, hc, hidle.1.1, hidle.1.2, hidle.2⟩
    exact (Records.updateClient n id (f := fun c ↦ { c with away := true })
      fun c' _ ↦ .away ha c').trans (.of_clients rfl)
  | runScheduled => exact .of_clients rfl
  | senderTake => exact .of_clients rfl
  | sent => exact .of_clients rfl
  | @sendFailed id =>
    exact (Records.updateClient n id (f := fun c ↦ { c with connected := false })
      fun c' _ ↦ .closed (Or.inl rfl) c').trans (.of_clients rfl)
  | directDone => exact .of_clients rfl
  | shutdown =>
    exact shutdown_preserves (I := Records (Edit env n (.background .shutdown)) n)
      (fun m id hm ↦ hm.trans (.updateClient m id fun c' _ ↦ .closed (Or.inr (Or.inr rfl)) c'))
      (.of_clients rfl)

/-- **Every change of a record has a cause.**  Whoever is there after a step has just connected, or
was there before, with a record that some edits have made the one after the step. -/
theorem records_step {a : Event} (hn : Housed n) (h : n.step env a = some n') {id : Str}
    {c' : Client} (hc' : n'.clientsById.get? id = some c') :
    (∃ queryParams now, a = .connect id queryParams now ∧ c' = newClient env id queryParams now ∧
        n.clientsById.get? id = none) ∨
      ∃ c, n.clientsById.get? id = some c ∧ ReflTransGen (Edit env n a id) c c' := by
  cases a with
  | connect id₀ queryParams now =>
    obtain ⟨hnone, rfl⟩ := step_connect h
    rw [get?_handleConnection] at hc'
    split at hc'
    · rename_i hid
      subst hid
      exact Or.inl ⟨queryParams, now, rfl, (Option.some.inj hc').symm, hnone⟩
    · exact Or.inr ⟨c', hc', .refl⟩
  | frame id₀ data now uuid =>
    obtain ⟨c, -, hrecords⟩ := Records.receive hn h
    have hactive : Records (Edit env n (.frame id₀ data now uuid)) n (n.noteActivity id₀ c now) :=
      .noteActivity n fun c' ↦ .active rfl c'
    exact Or.inr (hactive.trans hrecords id c' hc')
  | fetchHistory id₀ now docs =>
    obtain ⟨c, w, room, ready, -, -, -, -, rfl⟩ := fetchHistory_spec h
    have hstore : Records (Edit env n (.fetchHistory id₀ now docs)) n { n with store :=
        (n.store.getHistory env.lib now room env.config.historyLimit docs).1 } := .of_clients rfl
    exact Or.inr (hstore.trans (.updateClient _ id₀ fun c' _ ↦
      .waiting (Or.inr (Or.inl ⟨now, docs, rfl⟩)) (some ready) c') id c' hc')
  | resume id₀ => exact Or.inr (Records.resume h id c' hc')
  | disconnect id₀ =>
    obtain ⟨c, -, -, rfl⟩ := step_disconnect h
    exact Or.inr (Records.closeConnection n id₀ id c' hc')
  | post body query now uuid =>
    obtain rfl := Option.some.inj h
    refine Or.inr (Records.of_clients ?_ id c' hc')
    rcases postMessage_outcome env n body query now uuid with
      h | ⟨s, store, n₁, -, -, rfl, h | ⟨job, -, h⟩⟩ <;> rw [h]
    · exact (records_tryBroadcast _ _ _).2
    · exact (records_tryBroadcast { n with store := store } _ _).2
  | gossip data now =>
    obtain rfl := Option.some.inj h
    refine Or.inr (Records.of_clients ?_ id c' hc')
    cases data with
    | none => rfl
    | some v =>
      exact receiveItems_preserves (I := fun n' ↦ n'.clientsById = n.clientsById)
        (fun item _ n' hn' ↦ (records_receiveItem env n' item now).2.trans hn') n rfl
  | feed room limit now =>
    obtain rfl := Option.some.inj h
    cases room <;> exact Or.inr ⟨c', hc', .refl⟩
  | runJob i now nonce =>
    obtain ⟨job, -, rfl⟩ := Option.map_eq_some_iff.mp h
    cases job <;> exact Or.inr ⟨c', hc', .refl⟩
  | warmCache now docs =>
    obtain rfl := Option.some.inj h
    exact Or.inr ⟨c', hc', .refl⟩
  | publicKey username =>
    obtain rfl := Option.some.inj h
    exact Or.inr ⟨c', hc', .refl⟩
  | privateKey username =>
    obtain rfl := Option.some.inj h
    exact Or.inr ⟨c', hc', .refl⟩
  | background b => exact Or.inr (Records.background h id c' hc')

end Node
end GroupChat
