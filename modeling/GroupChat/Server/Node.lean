import GroupChat.Store.Documents

/-!
# The state of a node

A node is one server process: the connected clients and the name registry of `WSServer`, the rooms
of `RoomManager`, the store, the jobs in the executor, and what has been published for the peers.

A client, as the rooms see it, is a queue that its sender loop empties into the socket; a member
that was entered without a queue is written to directly.  Both are parts of the `Link` of the
client, which is kept under its id, also after the connection has ended.

This file has the state and the primitives that the handlers are written with: sending to one
client, to a room and to all (`Node.send`, `Node.broadcast`, `Node.broadcastToAll`, which are three
cases of `Node.deliver`), entering and leaving rooms, changing the record of a client.
-/

set_option autoImplicit false

namespace GroupChat

/-! ## The environment

The configuration, the keys and the standard library are fixed for the whole run of a process.
They are collected in `Env`, so that the handlers take one argument for all of them. -/

/-- The configuration of a node. -/
structure Config where
  serverId : Str
  /-- `DEFAULT_ROOMS[0]`. -/
  defaultRoom : Str
  /-- The rest of `DEFAULT_ROOMS`. -/
  otherRooms : List Str
  /-- `ADMIN_USERNAMES`, lower-cased. -/
  adminUsernames : List Str
  historyLimit : ℤ
  idleTimeoutMs : ℤ

/-- `MAX_USERNAME_LEN`. -/
def maxUsernameLen : ℕ := 100

/-- `MAX_MESSAGE_LEN`. -/
def maxMessageLen : ℕ := 2000

/-- What a node runs with. -/
structure Env where
  lib : PyLib
  keyring : Keyring
  config : Config

/-- An environment for runs on concrete inputs. -/
def plainEnv : Env where
  lib := asciiLib
  keyring := ⟨plainCrypto, [], fun _ ↦ none⟩
  config :=
    { serverId := lit "node-1", defaultRoom := lit "general", otherRooms := [lit "random"],
      adminUsernames := [lit "admin"], historyLimit := 50, idleTimeoutMs := 300000 }

/-! ## Frames and links

A frame is modelled with the fields that the handlers fill in, and not as the text that is sent.
The link of a client keeps a record of all frames emitted to it, beside the queue and the frame in
flight, because the properties of a run are about what a client has been told. -/

/-- An entry of a room list. -/
structure RoomInfo where
  name : Str
  memberCount : ℕ

/-- What the server sends to a client.  The names of the constructors are the values of `type`. -/
inductive Frame
  | message (msg : Obj)
  | delivered (id : Str)
  | privateMessage (dm : Obj)
  | welcome (username room : Str) (isAdmin : Bool) (users : List Str) (rooms : List RoomInfo)
      (onlineUsers : List Str) (history : List Obj)
  | roomList (rooms : List RoomInfo)
  | roomSwitched (room : Str) (users : List Str) (history : List Obj)
  | notification (text : Str) (users : List Str) (room : Str)
  | typing (username room : Str)
  | kicked (by_ : Str)
  | error (code : String) (text : Str)
  | presence (username : Option Str) (status : String)
  | systemShutdown

/-- Can `json.dumps` write the frame?  Only the values of a message may be anything. -/
def Frame.serialisable : Frame → Bool
  | .message msg => (Value.dict msg).serialisable
  | .privateMessage dm => (Value.dict dm).serialisable
  | .welcome _ _ _ _ _ _ history => history.all fun m ↦ (Value.dict m).serialisable
  | .roomSwitched _ _ history => history.all fun m ↦ (Value.dict m).serialisable
  | _ => true

/-- Where `_client_sender_loop` stands. -/
inductive Sender
  /-- In `q.get()`. -/
  | waiting
  /-- In `ws.send_text(payload)`. -/
  | sending (f : Frame)
  | stopped

/-- The frame that the loop has taken from the queue. -/
def Sender.inFlight : Sender → List Frame
  | .sending f => [f]
  | _ => []

/-- The ways of a frame to one client. -/
structure Link where
  /-- `send_queue`. -/
  queue : List Frame
  sender : Sender
  /-- The frames whose `ws.send_text` was scheduled directly. -/
  direct : List Frame
  /-- The frames that were sent. -/
  sent : List Frame
  /-- To speak about the past: the frames for the client, in the order in which they were
  emitted. -/
  emitted : List Frame

/-- The link of a new client. -/
def Link.empty : Link := ⟨[], .waiting, [], [], []⟩

/-- All frames that are on the link or have passed it. -/
def Link.frames (l : Link) : List Frame := l.sent ++ l.sender.inFlight ++ l.queue ++ l.direct

/-- `maxsize` of a send queue. -/
def sendQueueSize : ℕ := 1000

/-- `q.put_nowait(payload)`; a full queue raises, and the caller swallows that. -/
def Link.putNowait (l : Link) (f : Frame) : Link :=
  { l with queue := if l.queue.length < sendQueueSize then l.queue ++ [f] else l.queue,
           emitted := l.emitted ++ [f] }

/-- A frame for a member, put into its queue or scheduled directly. -/
def Link.accept (l : Link) (hasQueue : Bool) (f : Frame) : Link :=
  if hasQueue then l.putNowait f
  else { l with direct := l.direct ++ [f], emitted := l.emitted ++ [f] }

/-! ## Clients and rooms

The two records of a client agree on its room and its name; that they do is proved in
`Server.Rooms`.  A handler that waits for a history is kept in the record of its client, as there
is one at most. -/

/-- Where a handler waits for a history, and what it does with it. -/
inductive Waiting
  /-- `_handle_join` in the room, before the executor has run `get_history`. -/
  | join (room : Str)
  | switch (room : Str)
  /-- The same, with the result. -/
  | joinReady (room : Str) (history : Except PyError (List Obj))
  | switchReady (room : Str) (history : Except PyError (List Obj))

/-- The record of a connection. -/
structure Client where
  id : Str
  username : Option Str
  room : Str
  isAdmin : Bool
  muted : Bool
  /-- `presence == 'away'`. -/
  away : Bool
  lastActivity : ℤ
  connected : Bool
  /-- `_explicitly_joined`. -/
  explicitlyJoined : Bool
  privateKey : Option PrivateKey
  /-- The handler of the connection is suspended. -/
  waiting : Option Waiting

/-- The record of a client that has just sent a frame. -/
def Client.activeAt (c : Client) (now : ℤ) : Client := { c with lastActivity := now, away := false }

/-- The record of a client that has joined. -/
def Client.joinedAs (c : Client) (username room : Str) (isAdmin : Bool) (key : PrivateKey) :
    Client :=
  { c with username := some username, room := room, isAdmin := isAdmin, explicitlyJoined := true,
           privateKey := some key }

/-- The record of a client in a room. -/
structure Member where
  username : Str
  connected : Bool
  /-- It was entered with its `send_queue`. -/
  hasQueue : Bool

/-- A job in the executor. -/
inductive Job
  | append (roomId : Value) (msg : Obj) (key : Option PrivateKey)
  | saveUserPublicKey (username : Str) (key : PublicKey)

/-- A node. -/
structure Node where
  clientsById : Dict Str Client
  /-- Lower-cased name to client id. -/
  usernameToId : Dict Str Str
  /-- The members of each room, by client id. -/
  rooms : Dict Str (Dict Str Member)
  /-- The links, by client id. -/
  links : Str → Link
  /-- The `put_nowait` calls that another thread has scheduled on the event loop. -/
  scheduled : List (Str × Frame)
  store : Store
  jobs : List Job
  /-- What `broadcast_gossip` was called with: the room and the message. -/
  published : List (Value × Obj)

/-! ## Room names and user names

Both checks are about texts only.  The search for a free name is bounded by the number of names in
use, since one more candidate than there are names is always enough. -/

/-- A character of a room name. -/
def isRoomChar (c : ℕ) : Bool :=
  (48 ≤ c && c ≤ 57) || (65 ≤ c && c ≤ 90) || (97 ≤ c && c ≤ 122) || c == 95 || c == 45

/-- `[a-zA-Z0-9_-]{1,24}`, as a whole. -/
def isRoomWord (s : Str) : Bool := 1 ≤ s.length && s.length ≤ 24 && s.all isRoomChar

/-- `_is_valid_room_name`.  In the pattern, `$` also matches before a newline at the end. -/
def isValidRoomName : Value → Bool
  | .str s => isRoomWord s || (s.getLast? == some 10 && isRoomWord s.dropLast)
  | _ => false

/-- The room a value names if it is valid. -/
def validRoom? (v : Value) : Option Str :=
  match v with
  | .str s => if isValidRoomName (.str s) then some s else none
  | _ => none

/-- The candidates of `_unique_username`, in order. -/
def usernameCandidate (requested : Str) : ℕ → Str
  | 0 => requested
  | n + 1 => requested ++ lit "(" ++ intStr (n + 1) ++ lit ")"

/-- `_unique_username`: the first candidate that is free.  One more candidate than there are names
suffices. -/
def uniqueUsername (L : PyLib) (taken : List Str) (requested : Str) : Option Str :=
  ((List.range (taken.length + 1)).map (usernameCandidate requested)).find? fun u ↦
    decide (L.lower u ∉ taken)

/-- `f"User{client_id[:4]}"`. -/
def guestName (id : Str) : Str := lit "User" ++ id.take 4

/-! ## Primitives

Each of them is one assignment or one call in the handlers.  Sending does not fail here: a full
queue drops the frame, and a payload that cannot be serialised raises before anything is sent. -/

namespace Node

variable (n : Node)

/-- Change the record of a client that is there. -/
@[simps usernameToId rooms links scheduled store jobs published]
def updateClient (id : Str) (f : Client → Client) : Node :=
  { n with clientsById :=
      match n.clientsById.get? id with
      | some c => n.clientsById.set id (f c)
      | none => n.clientsById }

/-- Change one link. -/
@[simps clientsById usernameToId rooms scheduled store jobs published]
def updateLink (id : Str) (f : Link → Link) : Node :=
  { n with links := Function.update n.links id (f (n.links id)) }

/-- Put a frame on the links that `way` selects, each in the way it says.  No two clients share a
link, so the order of a loop over clients does not matter. -/
@[simps clientsById usernameToId rooms scheduled store jobs published]
def deliver (way : Str → Option Bool) (f : Frame) : Node :=
  { n with links := fun id ↦
      match way id with
      | some hasQueue => (n.links id).accept hasQueue f
      | none => n.links id }

/-- Is there a client with the id that is connected? -/
def alive (id : Str) : Bool := ((n.clientsById.get? id).map Client.connected).getD false

/-- The way to one client. -/
def wayTo (id id' : Str) : Option Bool := if id' = id ∧ n.alive id' then some true else none

/-- The ways to the members of a room. -/
def wayToRoom (room : Str) (exclude : Option Str) (id : Str) : Option Bool :=
  match (n.rooms.get? room).bind fun members ↦ members.get? id with
  | some m => if m.connected && decide (some id ≠ exclude) then some m.hasQueue else none
  | none => none

/-- `_send`, on the event loop and with a payload that can be serialised. -/
def send (id : Str) (f : Frame) : Node := n.deliver (n.wayTo id) f

/-- `_send` of any payload: `json.dumps` raises for one that cannot be written. -/
def trySend (id : Str) (f : Frame) : Node × Option PyError :=
  if n.alive id && !f.serialisable then (n, some .typeError) else (n.send id f, none)

/-- `_broadcast_to_all`. -/
def broadcastToAll (f : Frame) : Node :=
  n.deliver (fun id ↦ if n.alive id then some true else none) f

/-- `RoomManager.broadcast`, with a payload that can be serialised. -/
def broadcast (room : Str) (f : Frame) (exclude : Option Str) : Node :=
  n.deliver (n.wayToRoom room exclude) f

/-- `RoomManager.broadcast` to the room that a value names, with any payload.  A list or a dict
cannot be looked up, and no room is named by a value that is not a string. -/
def tryBroadcast (room : Value) (f : Frame) : Node × Option PyError :=
  match room with
  | .str r =>
    match n.rooms.get? r with
    | some _ => if f.serialisable then (n.broadcast r f none, none) else (n, some .typeError)
    | none => (n, none)
  | v => if v.key?.isSome then (n, none) else (n, some .typeError)

/-- Change the rooms. -/
@[simps clientsById usernameToId rooms links scheduled store jobs published]
def setRooms (rooms : Dict Str (Dict Str Member)) : Node := { n with rooms := rooms }

/-- `RoomManager.ensure_room`. -/
def ensureRoom (room : Str) : Node :=
  n.setRooms (if n.rooms.contains room then n.rooms else n.rooms.set room .empty)

/-- `RoomManager.join`. -/
def joinRoom (room id : Str) (m : Member) : Node :=
  n.setRooms (n.rooms.set room (((n.rooms.get? room).getD .empty).set id m))

/-- `RoomManager.leave`. -/
def leaveRoom (room id : Str) : Node :=
  n.setRooms
    (match n.rooms.get? room with
    | some members => n.rooms.set room (members.pop id)
    | none => n.rooms)

/-- `RoomManager.get_usernames`. -/
def getUsernames (room : Str) : List Str :=
  match n.rooms.get? room with
  | some members => members.values.map Member.username
  | none => []

/-- Is one string before another one, in the order of `sorted`? -/
def strLe : Str → Str → Bool
  | [], _ => true
  | _ :: _, [] => false
  | a :: s, b :: t => a < b || (a == b && strLe s t)

/-- `RoomManager.list_rooms`. -/
def listRooms : List RoomInfo :=
  (n.rooms.entries.map fun p ↦ ⟨p.1, p.2.keys.length⟩).mergeSort fun r r' ↦ strLe r.name r'.name

/-- Hand a job to the executor. -/
@[simps clientsById usernameToId rooms links scheduled store jobs published]
def spawn (j : Job) : Node := { n with jobs := n.jobs ++ [j] }

/-- `broadcast_gossip`. -/
@[simps clientsById usernameToId rooms links scheduled store jobs published]
def broadcastGossip (room : Value) (msg : Obj) : Node :=
  { n with published := n.published ++ [(room, msg)] }

end Node

end GroupChat
