import GroupChat.Server.Node

/-!
# The handlers of `WSServer`

One definition for each handler of `server/ws_server.py`, on the node and with the record `c` of the
client whose frame is handled.  `now` is the current time in milliseconds and `uuid` the id that
`uuid.uuid4()` returns, if the handler asks for one.

A handler that can raise returns the exception next to the node it leaves behind; `receive` then
closes the connection, as the `finally` of `handle_connection` does.  A handler that has to wait for
the history of a room leaves the client with `waiting` set, and `finishJoin` or `finishSwitchRoom`
is what it does afterwards.
-/

set_option autoImplicit false

namespace GroupChat
namespace Node

variable (env : Env) (n : Node)

/-- `_send_error`. -/
def sendError (id : Str) (code : String) (text : Str) : Node := n.send id (.error code text)

/-- `_close_ws`. -/
def closeWs (id : Str) : Node := n.updateClient id fun c ↦ { c with connected := false }

/-! ## Connections

`handle_connection` enters the client into a room before its first frame, under a guest name or
the name of the query.  At the end of the connection `_handle_close` runs whatever has happened in
between. -/

/-- `req_user`. -/
def queryName (queryParams : Obj) : Option Str :=
  match (queryParams.get "username").or (queryParams.get "client-name") with
  | .str (x :: u) => some (x :: u)
  | _ => none

/-- `req_room`. -/
def queryRoom (queryParams : Obj) : Str :=
  (validRoom? (queryParams.get "room")).getD env.config.defaultRoom

/-- The record of a new connection. -/
def newClient (id : Str) (queryParams : Obj) (now : ℤ) : Client :=
  { id := id, username := queryName queryParams, room := queryRoom env queryParams,
    isAdmin := false, muted := false, away := false, lastActivity := now, connected := true,
    explicitlyJoined := false, privateKey := none, waiting := none }

/-- `handle_connection` up to the first frame, for a client with the id `id`. -/
def handleConnection (id : Str) (queryParams : Obj) (now : ℤ) : Node :=
  { n with clientsById := n.clientsById.set id (newClient env id queryParams now),
           links := Function.update n.links id .empty }.joinRoom (queryRoom env queryParams) id
    { username := (queryName queryParams).getD (guestName id), connected := true, hasQueue := true }

/-- The registry after the entry of a name has been removed. -/
def unregister (username : Option Str) : Dict Str Str :=
  match username with
  | some u => n.usernameToId.pop (env.lib.lower u)
  | none => n.usernameToId

/-- The part of `_handle_close` that is not about rooms. -/
def forget (c : Client) : Node :=
  { n with clientsById := n.clientsById.pop c.id, usernameToId := n.unregister env c.username }

/-- `_handle_close`, of the client with the record `c`. -/
def handleClose (c : Client) : Node :=
  let n := (n.forget env c).leaveRoom c.room c.id
  match c.username with
  | some u =>
    if c.explicitlyJoined then
      n.broadcast c.room
        (.notification (u ++ lit " left #" ++ c.room) (n.getUsernames c.room) c.room) none
    else n
  | none => n

/-- The `finally` of `handle_connection`. -/
def closeConnection (id : Str) : Node :=
  match n.clientsById.get? id with
  | some c => (n.updateLink id fun l ↦ { l with sender := .stopped }).handleClose env c
  | none => n

/-! ## Histories

The handlers that need a history `await` an executor unless the cache has one.  In the meantime
the receive loop of this client stands still, and everything else goes on. -/

/-- Wait for the history of a room, unless it is cached. -/
def awaitHistory (id room : Str) (wait : Waiting)
    (finish : Node → List Obj → Node × Option PyError) : Node × Option PyError :=
  match n.store.cachedHistory room env.config.historyLimit with
  | m :: ms => finish n (m :: ms)
  | [] => (n.updateClient id fun c ↦ { c with waiting := some wait }, none)

/-! ## Joining

The handler has three parts: it registers the client, it asks for the history, and it tells the
client and its room.  The history comes between the client entering the room and its being
welcomed there. -/

/-- What `_handle_join` does once it has the history. -/
def finishJoin (id room : Str) (history : List Obj) : Node × Option PyError :=
  match n.clientsById.get? id with
  | some c =>
    let username := c.username.getD []
    match n.trySend id (.welcome username room c.isAdmin (n.getUsernames room) n.listRooms
      n.usernameToId.keys history) with
    | (n, some e) => (n, some e)
    | (n, none) =>
      let n := n.broadcast room
        (.notification (username ++ lit " joined #" ++ room) (n.getUsernames room) room) (some id)
      (n.send id (.roomList n.listRooms), none)
  | none => (n, none)

/-- The name that a join frame asks for. -/
def requestedName (c : Client) (data : Obj) : Str :=
  match (((data.get "username").or (.str [])).toStr env.lib).strip.take maxUsernameLen with
  | [] => guestName c.id
  | x :: u => x :: u

/-- The room that a join frame asks for. -/
def requestedRoom (data : Obj) : Str := (validRoom? (data.get "room")).getD env.config.defaultRoom

/-- The part of `_handle_join` that is not about rooms, with the name that `_unique_username` has
found. -/
def enroll (c : Client) (username room : Str) : Node :=
  let (pair, cached) :=
    getOrCreateSenderKeys env.lib env.keyring n.store.keys.senderKeys username
  let n := { n with store := { n.store with keys := { n.store.keys with senderKeys := cached } } }
  let isAdmin := decide (env.lib.lower username ∈ env.config.adminUsernames)
  let n := n.updateClient c.id (·.joinedAs username room isAdmin pair.1)
  let n := n.spawn (.saveUserPublicKey username pair.2)
  { n with usernameToId := n.usernameToId.set (env.lib.lower username) c.id }

/-- `_handle_join` up to its `await`. -/
def register (c : Client) (username room : Str) : Node :=
  let n := if c.room ≠ room then n.leaveRoom c.room c.id else n
  (n.enroll env c username room).joinRoom room c.id
    { username := username, connected := true, hasQueue := true }

/-- `_handle_join`; `none` if `_unique_username` does not end. -/
def handleJoin (c : Client) (data : Obj) : Option (Node × Option PyError) :=
  if c.explicitlyJoined then some (n, none)
  else
    (uniqueUsername env.lib n.usernameToId.keys (requestedName env c data)).map fun username ↦
      let room := requestedRoom env data
      (n.register env c username room).awaitHistory env c.id room (.join room) fun n history ↦
        n.finishJoin c.id room history

/-! ## Messages

A message frame is filed, told to the room, acknowledged, handed to the executor and published, in
this order, and an exception on the way leaves out the rest.  A private message is neither filed
nor published by its handler. -/

/-- The text of a frame. -/
def frameText (v : Value) : Str := ((v.or (.str [])).toStr env.lib).strip.take maxMessageLen

/-- The message `_handle_message` makes of its fields. -/
def roomMessage (msgId username text room : Str) (timestamp : ℤ) : Obj :=
  [("id", .str msgId), ("client-name", .str username), ("username", .str username),
    ("msg", .str text), ("text", .str text), ("room", .str room), ("timestamp", .int timestamp),
    ("verified", .bool true), ("tampered", .bool false)]

/-- `msg_id` of a message frame. -/
def frameId (data : Obj) (uuid : Str) : Str := ((data.get "id").or (.str uuid)).toStr env.lib

/-- `_handle_message`. -/
def handleMessage (c : Client) (data : Obj) (now : ℤ) (uuid : Str) : Node × Option PyError :=
  match c.username with
  | none => (n, none)
  | some username =>
    match frameText env ((data.get "text").or (data.get "msg")) with
    | [] => (n, none)
    | x :: text =>
      let msgId := frameId env data uuid
      match ((data.get "timestamp").or (.int now)).toInt env.lib with
      | .error e => (n, some e)
      | .ok timestamp =>
        let msg := roomMessage msgId username (x :: text) c.room timestamp
        match n.store.cachePut env.lib now (.str c.room) msg with
        | .error e => (n, some e)
        | .ok store =>
          let n := { n with store := store }.broadcast c.room (.message msg) none
          let n := n.send c.id (.delivered msgId)
          let n := n.spawn (.append (.str c.room) msg c.privateKey)
          (n.broadcastGossip (.str c.room) msg, none)

/-- The room id of a conversation. -/
def pairRoom (a b : Str) : Str :=
  let (lo, hi) :=
    if strLe (env.lib.lower a) (env.lib.lower b) then (env.lib.lower a, env.lib.lower b)
    else (env.lib.lower b, env.lib.lower a)
  lit "dm-" ++ lo ++ lit "__" ++ hi

/-- The message `_handle_private_message` makes of its fields. -/
def directMessage (uuid sender target text : Str) (now : ℤ) : Obj :=
  [("id", .str uuid), ("from", .str sender), ("to", .str target), ("text", .str text),
    ("timestamp", .int now)]

/-- The addressee of a frame. -/
def targetName (v : Value) : Str := ((v.or (.str [])).toStr env.lib).strip

/-- `_handle_private_message`. -/
def handlePrivateMessage (c : Client) (data : Obj) (now : ℤ) (uuid : Str) : Node :=
  match c.username with
  | none => n
  | some username =>
    let target := targetName env (data.get "to")
    match n.usernameToId.get? (env.lib.lower target) with
    | none => n.sendError c.id "user_offline" (target ++ lit " is not online.")
    | some targetId =>
      match frameText env (data.get "text") with
      | [] => n
      | x :: text =>
        let dm := directMessage uuid username target (x :: text) now
        let n := n.send targetId (.privateMessage dm)
        let n := n.send c.id (.privateMessage dm)
        n.spawn (.append (.str (pairRoom env username target)) dm c.privateKey)

/-! ## Rooms

A switch leaves the room, tells it, enters the other one and asks for its history.  The member
record that is entered has no queue. -/

/-- What `_handle_switch_room` does once it has the history. -/
def finishSwitchRoom (id room : Str) (history : List Obj) : Node × Option PyError :=
  match n.clientsById.get? id with
  | some c =>
    match n.trySend id (.roomSwitched room (n.getUsernames room) history) with
    | (n, some e) => (n, some e)
    | (n, none) =>
      (n.broadcast room (.notification (c.username.getD [] ++ lit " joined #" ++ room)
        (n.getUsernames room) room) (some id), none)
  | none => (n, none)

/-- `_handle_switch_room` up to its `await`: the client changes from its room to another one. -/
def moveTo (c : Client) (username room : Str) : Node :=
  let n := n.leaveRoom c.room c.id
  let n := n.broadcast c.room
    (.notification (username ++ lit " left #" ++ c.room) (n.getUsernames c.room) c.room) none
  let n := n.updateClient c.id fun c ↦ { c with room := room }
  n.joinRoom room c.id { username := username, connected := c.connected, hasQueue := false }

/-- `_handle_switch_room`. -/
def handleSwitchRoom (c : Client) (room : Value) : Node × Option PyError :=
  match c.username with
  | none => (n, none)
  | some username =>
    match (validRoom? room).filter fun r ↦ n.rooms.contains r with
    | none =>
      (n.sendError c.id "no_such_room" (lit "Room \"" ++ room.toStr env.lib ++
        lit "\" doesn't exist."), none)
    | some r =>
      if r = c.room then (n, none)
      else
        (n.moveTo c username r).awaitHistory env c.id r (.switch r) fun n history ↦
          n.finishSwitchRoom c.id r history

/-- The room that a create frame asks for. -/
def createdRoom (data : Obj) : Str := (((data.get "room").or (.str [])).toStr env.lib).strip

/-- `_handle_create_room`. -/
def handleCreateRoom (c : Client) (data : Obj) : Node × Option PyError :=
  match c.username with
  | none => (n, none)
  | some _ =>
    let name := createdRoom env data
    if isValidRoomName (.str name) then
      let n' := n.ensureRoom name
      let n' := if n.rooms.contains name then n' else n'.broadcastToAll (.roomList n'.listRooms)
      n'.handleSwitchRoom env c (.str name)
    else
      (n.sendError c.id "bad_room_name"
        (lit "Room names: 1-24 chars, letters/numbers/_/- only."), none)

/-- `_handle_typing`. -/
def handleTyping (c : Client) : Node :=
  match c.username with
  | none => n
  | some username => n.broadcast c.room (.typing username c.room) (some c.id)

/-! ## Moderation

An order names its target, which is looked up among all clients of the node and not only in the
room of the administrator. -/

/-- What an administrator can do to a client. -/
inductive Action
  | kick
  | mute
  | unmute

/-- The notification of a mute or an unmute. -/
def notifyModeration (target : Client) (targetName verb moderator : Str) : Node :=
  n.broadcast target.room (.notification (targetName ++ verb ++ moderator)
    (n.getUsernames target.room) target.room) none

/-- `_handle_moderation`. -/
def handleModeration (c : Client) (data : Obj) (action : Action) : Node :=
  match c.username with
  | none => n
  | some moderator =>
    if c.isAdmin then
      let name := targetName env (data.get "target")
      match (n.usernameToId.get? (env.lib.lower name)).bind n.clientsById.get? with
      | none => n.sendError c.id "user_offline" (name ++ lit " is not online.")
      | some target =>
        match action with
        | .kick => (n.send target.id (.kicked moderator)).closeWs target.id
        | .mute =>
          (n.updateClient target.id fun t ↦ { t with muted := true }).notifyModeration target name
            (lit " was muted by ") moderator
        | .unmute =>
          (n.updateClient target.id fun t ↦ { t with muted := false }).notifyModeration target name
            (lit " was unmuted by ") moderator
    else n.sendError c.id "not_admin" (lit "Only moderators can do that.")

/-! ## Frames

One turn of the receive loop.  `dispatch` returns `none` only where `_handle_join` does not come
to an end. -/

/-- `_dispatch`. -/
def dispatch (c : Client) (data : Obj) (now : ℤ) (uuid : Str) : Option (Node × Option PyError) :=
  match data.get "type" with
  | .str type =>
    if type = lit "join" then n.handleJoin env c data
    else if type = lit "message" then some (n.handleMessage env c data now uuid)
    else if type = lit "private_message" then
      some (n.handlePrivateMessage env c data now uuid, none)
    else if type = lit "switch_room" then some (n.handleSwitchRoom env c (data.get "room"))
    else if type = lit "create_room" then some (n.handleCreateRoom env c data)
    else if type = lit "typing" then some (n.handleTyping c, none)
    else if type = lit "kick" then some (n.handleModeration env c data .kick, none)
    else if type = lit "mute" then some (n.handleModeration env c data .mute, none)
    else if type = lit "unmute" then some (n.handleModeration env c data .unmute, none)
    else some (n, none)
  | _ => some (n, none)

/-- Close the connection if its handler has raised. -/
def afterHandler (id : Str) : Node × Option PyError → Node
  | (n, none) => n
  | (n, some _) => n.closeConnection env id

/-- The receive loop notes that the client is active. -/
def noteActivity (id : Str) (c : Client) (now : ℤ) : Node :=
  let n := n.updateClient id (·.activeAt now)
  if c.away then n.broadcastToAll (.presence c.username "online") else n

/-- The receive loop is handed the JSON value of a frame.  Nothing is received while the handler of
the previous frame waits. -/
def receive (id : Str) (data : Value) (now : ℤ) (uuid : Str) : Option Node :=
  match n.clientsById.get? id with
  | some c =>
    match c.waiting with
    | some _ => none
    | none =>
      match data with
      | .dict fields =>
        ((n.noteActivity id c now).dispatch env (c.activeAt now) fields now uuid).map
          (afterHandler env id)
      -- `data.get` raises `AttributeError`
      | _ => some ((n.noteActivity id c now).closeConnection env id)
  | none => none

/-- The executor runs the `get_history` a handler waits for. -/
def fetchHistory (id : Str) (now : ℤ) (docs : Option (List Obj)) : Option Node :=
  match n.clientsById.get? id with
  | some c =>
    match c.waiting with
    | some (.join room) =>
      let (store, history) := n.store.getHistory env.lib now room env.config.historyLimit docs
      some ({ n with store := store }.updateClient id fun c ↦
        { c with waiting := some (.joinReady room history) })
    | some (.switch room) =>
      let (store, history) := n.store.getHistory env.lib now room env.config.historyLimit docs
      some ({ n with store := store }.updateClient id fun c ↦
        { c with waiting := some (.switchReady room history) })
    | _ => none
  | none => none

/-- The handler goes on with the history, or with the exception of the query. -/
def resume (id : Str) : Option Node :=
  match n.clientsById.get? id with
  | some c =>
    let n := n.updateClient id fun c ↦ { c with waiting := none }
    match c.waiting with
    | some (.joinReady room (.ok history)) =>
      some (afterHandler env id (n.finishJoin id room history))
    | some (.switchReady room (.ok history)) =>
      some (afterHandler env id (n.finishSwitchRoom id room history))
    | some (.joinReady _ (.error _)) => some (n.closeConnection env id)
    | some (.switchReady _ (.error _)) => some (n.closeConnection env id)
    | _ => none
  | none => none

/-! ## Background

These steps happen between the turns of the receive loops: the event loop runs what has been
scheduled, the sender loops send, and the thread of the presence sweep looks for idle clients. -/

/-- `_presence_sweep_loop` comes to a client that is idle.  It runs in a thread of its own, so what
it sends is scheduled on the event loop. -/
def sweepPresence (id : Str) (now : ℤ) : Option Node :=
  match n.clientsById.get? id with
  | some c =>
    if c.username.isSome && !c.away && decide (env.config.idleTimeoutMs < now - c.lastActivity) then
      let n := n.updateClient id fun c ↦ { c with away := true }
      let receivers := n.clientsById.values.filter Client.connected
      some { n with
        scheduled := n.scheduled ++ receivers.map fun t ↦ (t.id, .presence c.username "away") }
    else none
  | none => none

/-- The event loop runs the next scheduled `put_nowait`. -/
def runScheduled : Option Node :=
  match n.scheduled with
  | (id, f) :: rest => some ({ n with scheduled := rest }.updateLink id (·.putNowait f))
  | [] => none

/-- `_client_sender_loop` takes the next frame from the queue. -/
def senderTake (id : Str) : Option Node :=
  match (n.links id).sender, (n.links id).queue with
  | .waiting, f :: q => some (n.updateLink id fun l ↦ { l with queue := q, sender := .sending f })
  | _, _ => none

/-- It has sent the frame, or failed to.  It goes on as long as the client is connected. -/
def senderDone (id : Str) (ok : Bool) : Option Node :=
  match (n.links id).sender with
  | .sending f =>
    if ok then
      let alive := ((n.clientsById.get? id).map Client.connected).getD false
      some (n.updateLink id fun l ↦ { l with
        sender := if alive then .waiting else .stopped, sent := l.sent ++ [f] })
    else
      some ((n.closeWs id).updateLink id fun l ↦ { l with sender := .stopped })
  | _ => none

/-- A scheduled `ws.send_text` has run. -/
def directDone (id : Str) (i : ℕ) : Option Node :=
  (n.links id).direct[i]?.map fun f ↦
    n.updateLink id fun l ↦ { l with direct := l.direct.eraseIdx i, sent := l.sent ++ [f] }

/-- `shutdown`. -/
def shutdown : Node :=
  let n := n.broadcastToAll .systemShutdown
  n.clientsById.keys.foldl closeWs n

/-- A step that no client and no request takes part in. -/
inductive Background
  | sweepPresence (id : Str) (now : ℤ)
  | runScheduled
  | senderTake (id : Str)
  | senderDone (id : Str) (ok : Bool)
  | directDone (id : Str) (i : ℕ)
  | shutdown

/-- A step in the background; `none` if there is nothing to do. -/
def background : Background → Option Node
  | .sweepPresence id now => n.sweepPresence env id now
  | .runScheduled => n.runScheduled
  | .senderTake id => n.senderTake id
  | .senderDone id ok => n.senderDone id ok
  | .directDone id i => n.directDone id i
  | .shutdown => some n.shutdown

end Node
end GroupChat
