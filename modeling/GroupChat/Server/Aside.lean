import GroupChat.Server.Effects

/-!
# What a client does not notice

Most of what happens on a node passes a client by: other clients join, switch rooms and leave, and
frames are sent that do not fill the view of a room.

* `SameBoard l l'`: the frames on two links that fill the view of a room are the same.
* `Aside id n n'`: nothing has changed for the client with the id, but that it may have been
  disconnected.

There is one lemma for each primitive, and from these one for each handler.  The handlers of the
client itself are the subject of `Server.Seats`; but the last part of the file says of all handlers
that they schedule no history directly (`Indirect`).

The result is that whatever a step shows to a client was caused by a frame of this client, by a
history that it waits for, or by a message for its room; `Server.Seats` and `Server.Readings`
start from there.
-/

set_option autoImplicit false

namespace GroupChat

open Transition

/-! ## Frames that fill a view

A client replaces what it shows of a room by the history in `room_history`, and adds the messages
that arrive after it.  No other frame changes what it shows. -/

/-- Does the frame fill the view of a room? -/
def Frame.shows : Frame → Bool
  | .message _ => true
  | .welcome .. => true
  | .roomSwitched .. => true
  | _ => false

/-- The room and the history of a frame. -/
def Frame.roomHistory? : Frame → Option (Str × List Obj)
  | .welcome _ room _ _ _ _ history => some (room, history)
  | .roomSwitched room _ history => some (room, history)
  | _ => none

/-! ## Links with the same frames

Nothing is said about the queue: the sender loop may take frames from it without anybody noticing.
What counts are the frames that fill the view, among those put on the queue and among those given
to coroutines. -/

/-- The frames that fill the view of a room are the same, and at the same places. -/
structure SameBoard (l l' : Link) : Prop where
  sent : l'.sent.filter Frame.shows = l.sent.filter Frame.shows
  inFlight : l'.sender.inFlight.filter Frame.shows = l.sender.inFlight.filter Frame.shows
  queue : l'.queue.filter Frame.shows = l.queue.filter Frame.shows
  direct : l'.direct.filter Frame.shows = l.direct.filter Frame.shows

/-- A link shows what it shows. -/
theorem SameBoard.refl (l : Link) : SameBoard l l := ⟨rfl, rfl, rfl, rfl⟩

/-- Two changes that add nothing to what is shown are one. -/
theorem SameBoard.trans {l l' l'' : Link} (h : SameBoard l l') (h' : SameBoard l' l'') :
    SameBoard l l'' :=
  ⟨h'.sent.trans h.sent, h'.inFlight.trans h.inFlight, h'.queue.trans h.queue,
    h'.direct.trans h.direct⟩

/-- Whether the frame is dropped or not, it adds nothing to what is shown. -/
theorem SameBoard.putNowait (l : Link) {f : Frame} (hf : f.shows = false) :
    SameBoard l (l.putNowait f) := by
  refine ⟨rfl, rfl, ?_, rfl⟩
  show List.filter Frame.shows (if _ then l.queue ++ [f] else l.queue) = _
  split
  · simp [List.filter_append, hf]
  · rfl

/-- The same for a frame on its way to the queue or to a coroutine. -/
theorem SameBoard.accept (l : Link) (hasQueue : Bool) {f : Frame} (hf : f.shows = false) :
    SameBoard l (l.accept hasQueue f) := by
  rw [Link.accept]
  split
  · exact .putNowait l hf
  · exact ⟨rfl, rfl, rfl, by simp [List.filter_append, hf]⟩

namespace Node

variable {env : Env} {n n' n'' : Node} {id : Str}

/-! ## Nodes that look the same

The record of a client has fields that others may change, such as the time of its last activity.
What the view depends on is where the client is, and whether it has joined. -/

/-- Where a client is, and whether it has joined. -/
def seat (n : Node) (id : Str) : Option (Str × Bool) :=
  (n.clientsById.get? id).map fun c ↦ (c.room, c.explicitlyJoined)

/-- Nothing has changed for the client, but that it may have been disconnected. -/
structure Aside (id : Str) (n n' : Node) : Prop where
  seat : n'.seat id = n.seat id
  waitingAt : n'.waitingAt id = n.waitingAt id
  alive : n'.alive id = true → n.alive id = true
  member : ∀ room, n'.member? room id = n.member? room id
  board : SameBoard (n.links id) (n'.links id)
  scheduled : ∀ p ∈ n'.scheduled, p ∈ n.scheduled ∨ p.2.shows = false

/-- Nothing has happened. -/
theorem Aside.refl (id : Str) (n : Node) : Aside id n n :=
  ⟨rfl, rfl, fun h ↦ h, fun _ ↦ rfl, .refl _, fun _ ↦ Or.inl⟩

/-- Two changes that the client does not notice are one. -/
theorem Aside.trans (h : Aside id n n') (h' : Aside id n' n'') : Aside id n n'' :=
  ⟨h'.seat.trans h.seat, h'.waitingAt.trans h.waitingAt, fun ha ↦ h.alive (h'.alive ha),
    fun room ↦ (h'.member room).trans (h.member room), h.board.trans h'.board,
    fun p hp ↦ (h'.scheduled p hp).elim (h.scheduled p) Or.inr⟩

/-! ## The primitives

All handlers are sequences of a few updates of the node: of the records, the rooms and the links.
A frame that does not fill a view may go to anybody, and any frame may go to somebody else. -/

/-- A change of neither the clients nor the rooms nor the link of the client. -/
theorem Aside.of_eq (hclients : n'.clientsById = n.clientsById) (hrooms : n'.rooms = n.rooms)
    (hlink : n'.links id = n.links id) (hscheduled : n'.scheduled = n.scheduled) :
    Aside id n n' := by
  refine ⟨?_, ?_, ?_, fun room ↦ ?_, hlink ▸ .refl _, fun p hp ↦ Or.inl (hscheduled ▸ hp)⟩
  · rw [Node.seat, Node.seat, hclients]
  · rw [Node.waitingAt, Node.waitingAt, hclients]
  · rw [Node.alive, Node.alive, hclients]
    exact fun h ↦ h
  · rw [member?, member?, hrooms]

/-- A change of records that the client does not notice. -/
theorem Aside.updateClient (n : Node) (id' : Str) {f : Client → Client}
    (hf : id = id' → ∀ c, (f c).room = c.room ∧ (f c).explicitlyJoined = c.explicitlyJoined ∧
      (f c).waiting = c.waiting ∧ ((f c).connected = true → c.connected = true)) :
    Aside id n (n.updateClient id' f) := by
  by_cases hid : id = id'
  · refine ⟨?_, ?_, ?_, fun _ ↦ rfl, .refl _, fun _ ↦ Or.inl⟩
    · rw [Node.seat, Node.seat, get?_updateClient, Option.map_map]
      refine congrArg (Option.map · _) (funext fun c ↦ ?_)
      simp [hid, (hf hid c).1, (hf hid c).2.1]
    · rw [Node.waitingAt, Node.waitingAt, get?_updateClient, Option.bind_map]
      refine congrArg (Option.bind _) (funext fun c ↦ ?_)
      simp [hid, (hf hid c).2.2.1]
    · rw [Node.alive, Node.alive, get?_updateClient]
      cases hc : n.clientsById.get? id with
      | none => exact fun h ↦ h
      | some c => simpa [hid] using (hf hid c).2.2.2
  · have hget : (n.updateClient id' f).clientsById.get? id = n.clientsById.get? id := by
      rw [get?_updateClient]
      cases n.clientsById.get? id <;> simp [hid]
    refine ⟨?_, ?_, ?_, fun _ ↦ rfl, .refl _, fun _ ↦ Or.inl⟩
    · rw [Node.seat, Node.seat, hget]
    · rw [Node.waitingAt, Node.waitingAt, hget]
    · rw [Node.alive, Node.alive, hget]
      exact fun h ↦ h

/-- A change of the record of another client. -/
theorem Aside.updateOther (n : Node) {id' : Str} (hid : id ≠ id') (f : Client → Client) :
    Aside id n (n.updateClient id' f) := .updateClient n id' fun h ↦ absurd h hid

/-- A socket is closed; this may be the socket of the client, which `Aside` permits. -/
theorem Aside.closeWs (n : Node) (id' : Str) : Aside id n (n.closeWs id') :=
  .updateClient n id' fun _ _ ↦ ⟨rfl, rfl, rfl, fun h ↦ absurd h (by simp)⟩

/-- The link of somebody else is updated. -/
theorem Aside.updateLink (n : Node) {id' : Str} (hid : id ≠ id') (f : Link → Link) :
    Aside id n (n.updateLink id' f) := .of_eq rfl rfl (Function.update_of_ne hid _ _) rfl

/-- A frame that shows no message, or is not for the client. -/
theorem Aside.deliver (n : Node) (way : Str → Option Bool) {f : Frame}
    (h : f.shows = false ∨ way id = none) : Aside id n (n.deliver way f) := by
  refine ⟨rfl, rfl, fun h ↦ h, fun _ ↦ rfl, ?_, fun _ ↦ Or.inl⟩
  cases hway : way id with
  | none =>
    rw [links_deliver_of_none n f hway]
    exact .refl _
  | some hasQueue =>
    rw [links_deliver_of_some n f hway]
    exact .accept _ _ (h.resolve_right (by simp [hway]))

/-- A frame that fills no view is sent to anybody. -/
theorem Aside.send (n : Node) (id' : Str) {f : Frame} (hf : f.shows = false) :
    Aside id n (n.send id' f) := .deliver n _ (Or.inl hf)

/-- Any frame is sent to somebody else. -/
theorem Aside.sendOther (n : Node) {id' : Str} (hid : id ≠ id') (f : Frame) :
    Aside id n (n.send id' f) := .deliver n _ (Or.inr (if_neg fun h ↦ hid h.1))

/-- A notification is broadcast to a room, which may be the room of the client. -/
theorem Aside.broadcast (n : Node) (room : Str) {f : Frame} (exclude : Option Str)
    (hf : f.shows = false) : Aside id n (n.broadcast room f exclude) := .deliver n _ (Or.inl hf)

theorem Aside.broadcastToAll (n : Node) {f : Frame} (hf : f.shows = false) :
    Aside id n (n.broadcastToAll f) := .deliver n _ (Or.inl hf)

theorem Aside.sendError (n : Node) (id' : Str) (code : String) (text : Str) :
    Aside id n (n.sendError id' code text) := .send n id' rfl

/-- A change of the rooms that the client is not part of. -/
theorem Aside.setRooms (n : Node) {rooms : Dict Str (Dict Str Member)}
    (h : ∀ room, (n.setRooms rooms).member? room id = n.member? room id) :
    Aside id n (n.setRooms rooms) := ⟨rfl, rfl, fun h ↦ h, h, .refl _, fun _ ↦ Or.inl⟩

/-- A room is created, with nobody in it. -/
theorem Aside.ensureRoom (n : Node) (room : Str) : Aside id n (n.ensureRoom room) :=
  .setRooms n fun room' ↦ congrFun (congrFun (SamePlaces.ensureRoom n room).member room') id

/-- Somebody else leaves a room. -/
theorem Aside.leaveRoom (n : Node) (room : Str) {id' : Str} (hid : id ≠ id') :
    Aside id n (n.leaveRoom room id') :=
  .setRooms n fun room' ↦ (member?_leaveRoom n room id' room' id).trans (if_neg fun h ↦ hid h.2)

/-- Somebody else enters a room. -/
theorem Aside.joinRoom (n : Node) (room : Str) {id' : Str} (hid : id ≠ id') (m : Member) :
    Aside id n (n.joinRoom room id' m) :=
  .setRooms n fun room' ↦ (member?_joinRoom n room id' room' id m).trans (if_neg fun h ↦ hid h.2)

/-! ## Handlers of other clients

Here `id ≠ id'` is a hypothesis: the handler runs for the client `id'`, and it is another client
who notices nothing.  Broadcasts of a message are not among these handlers, since they do fill the
view of others. -/

theorem Aside.noteActivity (n : Node) (id' : Str) (c : Client) (now : ℤ) :
    Aside id n (n.noteActivity id' c now) := by
  have hactive : Aside id n (n.updateClient id' (·.activeAt now)) :=
    .updateClient n id' fun _ _ ↦ ⟨rfl, rfl, rfl, fun h ↦ h⟩
  rw [Node.noteActivity]
  split
  · exact hactive.trans (.broadcastToAll _ rfl)
  · exact hactive

theorem Aside.finishJoin (n : Node) {id' : Str} (hid : id ≠ id') (room : Str)
    (history : List Obj) : Aside id n (n.finishJoin id' room history).1 := by
  rcases n.finishJoin_outcome id' room history with
    ⟨e, h, -⟩ | ⟨username, isAdmin, users, online, text, rooms, h⟩ <;> rw [h]
  · exact .refl id n
  · exact ((Aside.sendOther n hid _).trans (.broadcast _ room _ rfl)).trans (.send _ id' rfl)

theorem Aside.finishSwitchRoom (n : Node) {id' : Str} (hid : id ≠ id') (room : Str)
    (history : List Obj) : Aside id n (n.finishSwitchRoom id' room history).1 := by
  rcases n.finishSwitchRoom_outcome id' room history with ⟨e, h, -⟩ | ⟨users, text, h⟩ <;> rw [h]
  · exact .refl id n
  · exact (Aside.sendOther n hid _).trans (.broadcast _ room _ rfl)

/-- The two ways of the cache: either the handler goes on at once, or it waits for the
database. -/
theorem Aside.awaitHistory (n : Node) {id' : Str} (hid : id ≠ id') (room : Str) (wait : Waiting)
    {finish : Node → List Obj → Node × Option PyError}
    (hfinish : ∀ history, Aside id n (finish n history).1) :
    Aside id n (n.awaitHistory env id' room wait finish).1 := by
  rw [Node.awaitHistory]
  split
  · exact hfinish _
  · exact .updateOther n hid _

/-- The joining client is entered into the records and into its room. -/
theorem Aside.register (n : Node) {c : Client} (hid : id ≠ c.id) (username room : Str) :
    Aside id n (n.register env c username room) := by
  have hleft : Aside id n (if c.room ≠ room then n.leaveRoom c.room c.id else n) := by
    split
    · exact .leaveRoom n _ hid
    · exact .refl id n
  have henroll : ∀ n : Node, Aside id n (n.enroll env c username room) := by
    intro n
    have hupdate : Aside id n (n.updateClient c.id (·.joinedAs username room
        (decide (env.lib.lower username ∈ env.config.adminUsernames))
        (getOrCreateSenderKeys env.lib env.keyring n.store.keys.senderKeys username).1.1)) :=
      .updateOther n hid _
    exact hupdate.trans (.of_eq rfl rfl rfl rfl)
  exact (hleft.trans (henroll _)).trans (.joinRoom _ room hid _)

theorem Aside.handleJoin (n : Node) {c : Client} (hid : id ≠ c.id) {data : Obj}
    {r : Node × Option PyError} (h : n.handleJoin env c data = some r) : Aside id n r.1 := by
  rcases handleJoin_outcome h with ⟨-, rfl⟩ | ⟨username, -, -, rfl⟩
  · exact .refl id n
  · exact (Aside.register n hid username _).trans
      (.awaitHistory _ hid _ _ fun history ↦ .finishJoin _ hid _ history)

/-- The client leaves one room for the other, before the history is loaded. -/
theorem Aside.moveTo (n : Node) {c : Client} (hid : id ≠ c.id) (username room : Str) :
    Aside id n (n.moveTo c username room) :=
  ((Aside.leaveRoom n c.room hid).trans (.broadcast _ _ _ rfl)).trans
    ((Aside.updateOther _ hid _).trans (.joinRoom _ room hid _))

theorem Aside.handleSwitchRoom (n : Node) {c : Client} (hid : id ≠ c.id) (room : Value) :
    Aside id n (n.handleSwitchRoom env c room).1 := by
  rcases handleSwitchRoom_outcome env n c room with
    ⟨-, h | ⟨code, text, h⟩⟩ | ⟨username, r, -, -, h⟩ <;> rw [h]
  · exact .refl id n
  · exact .sendError n _ _ _
  · exact (Aside.moveTo n hid _ _).trans
      (.awaitHistory _ hid _ _ fun history ↦ .finishSwitchRoom _ hid _ history)

theorem Aside.handleCreateRoom (n : Node) {c : Client} (hid : id ≠ c.id) (data : Obj) :
    Aside id n (n.handleCreateRoom env c data).1 := by
  rcases handleCreateRoom_outcome env n c data with
    ⟨-, h | ⟨code, text, h⟩⟩ | ⟨n₁, rfl | ⟨rooms, rfl⟩, h⟩ <;> rw [h]
  · exact .refl id n
  · exact .sendError n _ _ _
  · exact (Aside.ensureRoom n _).trans (.handleSwitchRoom _ hid _)
  · exact ((Aside.ensureRoom n _).trans (.broadcastToAll _ rfl)).trans (.handleSwitchRoom _ hid _)

/-- The end of a connection takes out the records under its id, which are those of another
client. -/
theorem Aside.closeConnection (n : Node) {id' : Str} (hids : ∀ c, n.clientsById.get? id' = some c →
    c.id = id') (hid : id ≠ id') : Aside id n (n.closeConnection env id') := by
  rw [Node.closeConnection]
  split
  · rename_i c hc
    have hid' : id ≠ c.id := fun h ↦ hid (h.trans (hids c hc))
    have hforget : ∀ n : Node, Aside id n (n.forget env c) := by
      intro n
      have hget : (n.forget env c).clientsById.get? id = n.clientsById.get? id := by
        rw [get?_forget, if_neg hid']
      refine ⟨?_, ?_, ?_, fun _ ↦ rfl, .refl _, fun _ ↦ Or.inl⟩
      · rw [Node.seat, Node.seat, hget]
      · rw [Node.waitingAt, Node.waitingAt, hget]
      · rw [Node.alive, Node.alive, hget]
        exact fun h ↦ h
    have hleft : Aside id n (((n.updateLink id' fun l ↦ { l with sender := .stopped }).forget
        env c).leaveRoom c.room c.id) :=
      ((Aside.updateLink n hid _).trans (hforget _)).trans (.leaveRoom _ _ hid')
    rcases handleClose_outcome env (n.updateLink id' fun l ↦ { l with sender := .stopped }) c with
      h | ⟨text, users, h⟩ <;> rw [h]
    · exact hleft
    · exact hleft.trans (.broadcast _ _ _ rfl)
  · exact .refl id n

/-! ## Handlers of all clients

These handlers send no frame that fills a view, and change no room, so that not even their own
client notices anything; a connection that fails is another matter (`Aside.afterHandler`). -/

theorem Aside.handlePrivateMessage (env : Env) (n : Node) (c : Client) (data : Obj) (now : ℤ)
    (uuid : Str) : Aside id n (n.handlePrivateMessage env c data now uuid) := by
  rcases handlePrivateMessage_outcome env n c data now uuid with
    h | ⟨code, text, h⟩ | ⟨username, targetId, -, -, h⟩ <;> rw [h]
  · exact .refl id n
  · exact .sendError n _ _ _
  · exact ((Aside.send n _ rfl).trans (.send _ _ rfl)).trans (.of_eq rfl rfl rfl rfl)

theorem Aside.handleTyping (n : Node) (c : Client) : Aside id n (n.handleTyping c) := by
  rw [Node.handleTyping]
  split
  · exact .refl id n
  · exact .broadcast n _ _ rfl

/-- Somebody is kicked or muted, or the handler answers with an error.  A kicked client is
disconnected, and its place is only cleared when the connection is closed. -/
theorem Aside.handleModeration (env : Env) (n : Node) (c : Client) (data : Obj) (action : Action) :
    Aside id n (n.handleModeration env c data action) := by
  rcases handleModeration_outcome env n c data action with
    h | ⟨code, text, h⟩ | ⟨id', moderator, h⟩ | ⟨id', muted, room, text, users, h⟩ <;> rw [h]
  · exact .refl id n
  · exact .sendError n _ _ _
  · exact (Aside.send n _ rfl).trans (.closeWs _ _)
  · have hmuted : Aside id n (n.updateClient id' fun t ↦ { t with muted := muted }) :=
      .updateClient n id' fun _ _ ↦ ⟨rfl, rfl, rfl, fun h ↦ h⟩
    exact hmuted.trans (.broadcast _ _ _ rfl)

/-- The connection of another client is closed if its handler has raised. -/
theorem Aside.afterHandler {id' : Str} {r : Node × Option PyError} (h : Aside id n r.1)
    (hids : ∀ c, r.1.clientsById.get? id' = some c → c.id = id') (hid : id ≠ id') :
    Aside id n (afterHandler env id' r) := by
  obtain ⟨n₁, _ | e⟩ := r
  · exact h
  · exact h.trans (.closeConnection n₁ hids hid)

theorem Aside.handleConnection (n : Node) {id' : Str} (hid : id ≠ id') (queryParams : Obj)
    (now : ℤ) : Aside id n (n.handleConnection env id' queryParams now) := by
  suffices hentered : Aside id n { n with
      clientsById := n.clientsById.set id' (newClient env id' queryParams now)
      links := Function.update n.links id' .empty } from hentered.trans (.joinRoom _ _ hid _)
  have hget : (n.clientsById.set id' (newClient env id' queryParams now)).get? id =
      n.clientsById.get? id := by
    rw [Dict.get?_set, if_neg hid]
  refine ⟨?_, ?_, ?_, fun _ ↦ rfl, ?_, fun _ ↦ Or.inl⟩
  · rw [Node.seat, Node.seat, hget]
  · rw [Node.waitingAt, Node.waitingAt, hget]
  · rw [Node.alive, Node.alive, hget]
    exact fun h ↦ h
  · show SameBoard _ (Function.update n.links id' .empty id)
    rw [Function.update_of_ne hid]
    exact .refl _

/-! ## What is scheduled directly

A frame for a client without a queue is given to a coroutine of its own.  This never happens to a
history, since a history goes to the client it is for, from the record of a connection, which has
a queue. -/

/-- No history for the client has been scheduled directly. -/
def Indirect (id : Str) (n n' : Node) : Prop :=
  ∀ f ∈ (n'.links id).direct, f ∈ (n.links id).direct ∨ f.roomHistory? = none

theorem Indirect.of_links (h : n'.links id = n.links id) : Indirect id n n' :=
  fun _ hf ↦ Or.inl (h ▸ hf)

/-- Nothing has been scheduled. -/
theorem Indirect.refl (id : Str) (n : Node) : Indirect id n n := fun _ ↦ Or.inl

/-- If neither of two changes schedules a history directly, then both together do not. -/
theorem Indirect.trans (h : Indirect id n n') (h' : Indirect id n' n'') : Indirect id n n'' :=
  fun f hf ↦ (h' f hf).elim (h f) Or.inr

/-- A history is a frame that fills a view. -/
theorem roomHistory?_of_shows {f : Frame} (h : f.shows = false) : f.roomHistory? = none := by
  cases f with
  | welcome username room isAdmin users rooms onlineUsers history => simp [Frame.shows] at h
  | roomSwitched room users history => simp [Frame.shows] at h
  | _ => rfl

/-- Whoever notices nothing has been sent no history. -/
theorem Aside.indirect (h : Aside id n n') : Indirect id n n' := by
  intro f hf
  cases hshows : f.shows with
  | true =>
    have hmem : f ∈ (n'.links id).direct.filter Frame.shows := List.mem_filter.mpr ⟨hf, hshows⟩
    rw [h.board.direct] at hmem
    exact Or.inl (List.mem_filter.mp hmem).1
  | false => exact Or.inr (roomHistory?_of_shows hshows)

/-- A frame that is not a history is delivered, or any frame that finds a queue. -/
theorem Indirect.deliver (n : Node) {way : Str → Option Bool} {f : Frame}
    (h : f.roomHistory? = none ∨ ∀ hasQueue, way id = some hasQueue → hasQueue = true) :
    Indirect id n (n.deliver way f) := by
  intro g hg
  cases hway : way id with
  | none =>
    rw [links_deliver_of_none n f hway] at hg
    exact Or.inl hg
  | some hasQueue =>
    rw [links_deliver_of_some n f hway, Link.accept] at hg
    split at hg
    · exact Or.inl hg
    · rename_i hnot
      rcases h with h | h
      · rcases List.mem_append.mp hg with hold | hnew
        · exact Or.inl hold
        · exact Or.inr (List.mem_singleton.mp hnew ▸ h)
      · exact absurd (h hasQueue hway) hnot

/-- `_send_to_client` always goes through the queue of the connection. -/
theorem Indirect.send (n : Node) (id' : Str) (f : Frame) : Indirect id n (n.send id' f) := by
  refine .deliver n (Or.inr fun hasQueue hway ↦ ?_)
  rw [wayTo] at hway
  split at hway
  · exact (Option.some.inj hway).symm
  · simp at hway

theorem Indirect.broadcast (n : Node) (room : Str) {f : Frame} (exclude : Option Str)
    (hf : f.roomHistory? = none) : Indirect id n (n.broadcast room f exclude) :=
  .deliver n (Or.inl hf)

/-- A broadcast from the HTTP handler, after `str` has been applied to the room. -/
theorem Indirect.told (n : Node) (room : Value) {f : Frame} (hf : f.roomHistory? = none) :
    Indirect id n (n.told room f) := by
  cases room with
  | str r => exact .broadcast n r none hf
  | _ => exact .refl id n

theorem Indirect.finishJoin (n : Node) (id' room : Str) (history : List Obj) :
    Indirect id n (n.finishJoin id' room history).1 := by
  rcases n.finishJoin_outcome id' room history with
    ⟨e, h, -⟩ | ⟨username, isAdmin, users, online, text, rooms, h⟩ <;> rw [h]
  · exact .refl id n
  · exact ((Indirect.send n id' _).trans (.broadcast _ room _ rfl)).trans (.send _ id' _)

theorem Indirect.finishSwitchRoom (n : Node) (id' room : Str) (history : List Obj) :
    Indirect id n (n.finishSwitchRoom id' room history).1 := by
  rcases n.finishSwitchRoom_outcome id' room history with ⟨e, h, -⟩ | ⟨users, text, h⟩ <;> rw [h]
  · exact .refl id n
  · exact (Indirect.send n id' _).trans (.broadcast _ room _ rfl)

theorem Indirect.awaitHistory (n : Node) (id' room : Str) (wait : Waiting)
    {finish : Node → List Obj → Node × Option PyError}
    (hfinish : ∀ history, Indirect id n (finish n history).1) :
    Indirect id n (n.awaitHistory env id' room wait finish).1 := by
  rw [Node.awaitHistory]
  split
  · exact hfinish _
  · exact .of_links rfl

theorem Indirect.handleJoin (n : Node) {c : Client} {data : Obj} {r : Node × Option PyError}
    (h : n.handleJoin env c data = some r) : Indirect id n r.1 := by
  rcases handleJoin_outcome h with ⟨-, rfl⟩ | ⟨username, -, -, rfl⟩
  · exact .refl id n
  · have hregister : Indirect id n (n.register env c username (requestedRoom env data)) := by
      rw [Node.register]
      split <;> exact .of_links rfl
    exact hregister.trans (.awaitHistory _ _ _ _ fun history ↦ .finishJoin _ _ _ history)

theorem Indirect.handleSwitchRoom (env : Env) (n : Node) (c : Client) (room : Value) :
    Indirect id n (n.handleSwitchRoom env c room).1 := by
  rcases handleSwitchRoom_outcome env n c room with
    ⟨-, h | ⟨code, text, h⟩⟩ | ⟨username, r, -, -, h⟩ <;> rw [h]
  · exact .refl id n
  · exact (Aside.sendError n _ _ _).indirect
  · have hmove : Indirect id n (n.moveTo c username r) :=
      .broadcast (n.leaveRoom c.room c.id) c.room none rfl
    exact hmove.trans (.awaitHistory _ _ _ _ fun history ↦ .finishSwitchRoom _ _ _ history)

theorem Indirect.handleCreateRoom (env : Env) (n : Node) (c : Client) (data : Obj) :
    Indirect id n (n.handleCreateRoom env c data).1 := by
  rcases handleCreateRoom_outcome env n c data with
    ⟨-, h | ⟨code, text, h⟩⟩ | ⟨n₁, rfl | ⟨rooms, rfl⟩, h⟩ <;> rw [h]
  · exact .refl id n
  · exact (Aside.sendError n _ _ _).indirect
  · exact (Aside.ensureRoom n _).indirect.trans (.handleSwitchRoom env _ c _)
  · exact ((Aside.ensureRoom n _).trans (.broadcastToAll _ rfl)).indirect.trans
      (.handleSwitchRoom env _ c _)

theorem Indirect.closeConnection (env : Env) (n : Node) (id' : Str) :
    Indirect id n (n.closeConnection env id') := by
  rw [Node.closeConnection]
  split
  · rename_i c hc
    have hstop : Indirect id n (n.updateLink id' fun l ↦ { l with sender := .stopped }) := by
      intro f hf
      have hdirect : f ∈
          (Function.update n.links id' { n.links id' with sender := .stopped } id).direct := hf
      by_cases hid : id = id'
      · subst hid
        rw [Function.update_self] at hdirect
        exact Or.inl hdirect
      · rw [Function.update_of_ne hid] at hdirect
        exact Or.inl hdirect
    rcases handleClose_outcome env (n.updateLink id' fun l ↦ { l with sender := .stopped }) c with
      h | ⟨text, users, h⟩ <;> rw [h]
    · exact hstop
    · exact hstop.trans (.broadcast _ _ _ rfl)
  · exact .refl id n

theorem Indirect.afterHandler {id' : Str} {r : Node × Option PyError} (h : Indirect id n r.1) :
    Indirect id n (afterHandler env id' r) := by
  obtain ⟨n₁, _ | e⟩ := r
  · exact h
  · exact h.trans (.closeConnection env n₁ id')

end Node
end GroupChat
