import GroupChat.Py.Utf8
import GroupChat.Server.Handlers

/-!
# The routes and the runs of a node

The first half has the routes of `app.py` that work on messages: `postMessage`, `receiveGossip` and
`getFeedRoute`.  A JSON body is the value it parses to, a form the dict of its fields, and `none` a
body that cannot be parsed.

A route that returns a dict leaves it to FastAPI to write it down, and that can still fail: the dict
of `post_message` has the id, the name, the text and the room in it as they came in.
`Response.status` is what the client gets in the end.

The second half puts the parts of a node together.  `Node.step` is one event: a frame or a request
that is handled up to its first `await`, a job of the executor, a step of a background task.  The
events come in any order, with any data, so the runs of `Node.system` are all interleavings.
-/

set_option autoImplicit false

namespace GroupChat

open Transition

/-! ## The routes

Each route is a function of the node, the body, the query and the time, together with the id that
it may have to make up.  What it returns is a node and an answer. -/

/-- The body of a request. -/
inductive Body
  | json (data : Option Value)
  | form (fields : Option Obj)

/-- How `post_message` ends. -/
inductive Response
  /-- It returns a dict. -/
  | ok (id : Value) (username text : Str) (room : Value) (timestamp : ℤ)
  /-- Status 400: there is no text. -/
  | emptyMessage
  /-- Status 400, from the form parser. -/
  | malformedForm
  /-- It raises. -/
  | raised (e : PyError)

namespace Value

/-- Can FastAPI answer with the value?  `JSONResponse` calls `json.dumps` with `ensure_ascii=False`
and `allow_nan=False` and encodes the text, so a lone surrogate and a NaN make it raise.  Whether
what `jsonable_encoder` makes of an upload can be written is told by `rendersFile`. -/
def renderable (rendersFile : ℕ → Bool) : Value → Bool
  | none => true
  | bool _ => true
  | int _ => true
  | float (.finite _) => true
  | float _ => false
  | str s => !hasSurrogate s
  | list xs => renderableList xs
  | dict fs => renderableFields fs
  | file o => rendersFile o
where
  /-- All elements of a list. -/
  renderableList : List Value → Bool
    | [] => true
    | x :: xs => x.renderable rendersFile && renderableList xs
  /-- All values of a dict. -/
  renderableFields : List (String × Value) → Bool
    | [] => true
    | (_, x) :: fs => x.renderable rendersFile && renderableFields fs

end Value

/-- The dict that `post_message` returns. -/
def okContent (env : Env) (id : Value) (username text : Str) (room : Value) (timestamp : ℤ) : Obj :=
  [("status", .str (lit "ok")), ("id", id), ("client-name", .str username),
    ("username", .str username), ("msg", .str text), ("text", .str text), ("room", room),
    ("timestamp", .int timestamp), ("verified", .bool true), ("duplicate", .bool false),
    ("server_id", .str env.config.serverId)]

/-- The status code: 500 also where the dict that is returned cannot be written. -/
def Response.status (env : Env) (rendersFile : ℕ → Bool) : Response → ℕ
  | .ok id username text room timestamp =>
    if (Value.dict (okContent env id username text room timestamp)).renderable rendersFile then 200
    else 500
  | .emptyMessage => 400
  | .malformedForm => 400
  | .raised _ => 500

/-! ## What a request says

The client is free to name the fields of its message in several ways, and a form has texts where a
JSON body may have anything.  Each of these functions picks one field out of the alternatives, in
the order in which `post_message` tries them. -/

/-- `d.get(k₁) or d.get(k₂) or …`, for what is left of a chain of alternatives. -/
def Obj.firstOf (d : Obj) : List String → Value → Value
  | [], v => v
  | k :: ks, v => (d.get k).or (d.firstOf ks v)

/-- The fields of a body; a body that is not valid JSON counts as empty. -/
def Body.data : Body → Option Value
  | .json (some v) => some v
  | .json none => some (.dict [])
  | .form (some fields) => some (.dict fields)
  | .form none => none

/-- `client_name`. -/
def clientName (data query : Obj) : Value :=
  data.firstOf ["client-name", "client_name", "username", "sender", "name"]
    (query.firstOf ["client-name", "client_name", "username"] (.str (lit "Anonymous")))

/-- `msg_text`. -/
def msgText (data query : Obj) : Value :=
  data.firstOf ["msg", "text", "message", "content"]
    (query.firstOf ["msg", "text", "message"] (.str []))

/-- `msg_id`; `uuid` is the generated one. -/
def postedId (data query : Obj) (uuid : Str) : Value :=
  data.firstOf ["id", "msg_id"] (query.firstOf ["id"] (.str uuid))

/-- `room`. -/
def postedRoom (env : Env) (data query : Obj) : Value :=
  data.firstOf ["room"] (query.firstOf ["room"] (.str env.config.defaultRoom))

/-- `timestamp`; one that cannot be converted is replaced by the current time. -/
def postedTimestamp (env : Env) (data query : Obj) (now : ℤ) : ℤ :=
  match (data.firstOf ["timestamp"] (query.firstOf ["timestamp"] (.int now))).toInt env.lib with
  | .ok ts => ts
  | .error _ => now

/-- A string of at most `len` characters from a field of any type. -/
def cleaned (env : Env) (v : Value) (len : ℕ) : Str := (v.toStr env.lib).strip.take len

/-- `msg_obj`. -/
def messageObj (id : Value) (username text : Str) (room : Value) (timestamp : ℤ) : Obj :=
  [("id", id), ("username", .str username), ("text", .str text), ("room", room),
    ("timestamp", .int timestamp)]

/-- The message that `post_message` and `receive_gossip` cache. -/
def fullMessage (id username text room timestamp : Value) : Obj :=
  [("id", id), ("client-name", username), ("username", username), ("msg", text), ("text", text),
    ("room", room), ("timestamp", timestamp), ("verified", .bool true), ("tampered", .bool false)]

namespace Node

variable (env : Env) (n : Node)

/-! ## Posting

The steps of the handler come one after the other, and each of them may raise.  What has been done
before stays done, so the node is returned together with the exception. -/

/-- `post_message`. -/
def postMessage (body : Body) (query : Obj) (now : ℤ) (uuid : Str) : Node × Response :=
  match body.data with
  | none => (n, .malformedForm)
  | some (.dict data) =>
    if (msgText data query).truthy then
      let id := postedId data query uuid
      let room := postedRoom env data query
      let timestamp := postedTimestamp env data query now
      let username := cleaned env (clientName data query) maxUsernameLen
      let text := cleaned env (msgText data query) maxMessageLen
      let msgObj := messageObj id username text room timestamp
      match n.store.cachePut env.lib now room
        (fullMessage id (.str username) (.str text) room (.int timestamp)) with
      | .error e => (n, .raised e)
      | .ok store =>
        match { n with store := store }.tryBroadcast room (.message msgObj) with
        | (n, some e) => (n, .raised e)
        | (n, none) =>
          ((n.spawn (.append room msgObj none)).broadcastGossip room msgObj,
            .ok id username text room timestamp)
    else (n, .emptyMessage)
  -- `data.get` raises
  | some _ => (n, .raised .attributeError)

/-- The message of a gossip item, and its room; `none` for an item that is skipped. -/
def gossipMessage (item : Value) (now : ℤ) : Option (Value × Obj) :=
  match item with
  | .dict d =>
    match Obj.get d "origin", Obj.get d "msg" with
    | .str origin, .dict (f :: msg) =>
      if origin = env.config.serverId then none else some (canonical d (f :: msg))
    | _, .dict (f :: msg) => some (canonical d (f :: msg))
    | _, _ => none
  | _ => none
where
  /-- The room and `canonical_msg`. -/
  canonical (d msg : Obj) : Value × Obj :=
    let room := (d.get "room").or (.str env.config.defaultRoom)
    (room, fullMessage (msg.get "id")
      ((msg.get "username").or (msg.getD "client-name" (.str (lit "Anonymous"))))
      ((msg.get "text").or (msg.getD "msg" (.str []))) room (msg.getD "timestamp" (.int now)))

/-! ## Gossip

An item is handled like a message of the node itself, apart from two things: it is not published
again, and not handed to the executor. -/

/-- One item of a gossip request. -/
def receiveItem (item : Value) (now : ℤ) : Node × Option PyError :=
  match gossipMessage env item now with
  | none => (n, none)
  | some (room, msg) =>
    match n.store.cachePut env.lib now room msg with
    | .error e => (n, some e)
    | .ok store => { n with store := store }.tryBroadcast room (.message msg)

/-- The items of a gossip request, up to the first one that raises. -/
def receiveItems (now : ℤ) (n : Node) : List Value → Node
  | [] => n
  | item :: items =>
    match n.receiveItem env item now with
    | (n, none) => receiveItems now n items
    | (n, some _) => n

/-- The items of a gossip body. -/
def gossipItems : Value → List Value
  | .list items => items
  | v => [v]

/-- `receive_gossip`. -/
def receiveGossip (data : Option Value) (now : ℤ) : Node :=
  match data with
  | some v => receiveItems env now n (gossipItems v)
  | none => n

/-- `get_feed_route`, with the entries that are served. -/
def getFeedRoute (room : Option Str) (limit now : ℤ) : List Entry × Node :=
  match room with
  | none =>
    let (feed, store) := n.store.globalFeed now
    (feed, { n with store := store })
  | some r => ((dumpsEntries.dumps (n.store.cache.cacheGet (some r) limit)).getD [], n)

/-- The executor runs a job. -/
def runJob (i : ℕ) (now : ℤ) (nonce : Bytes) : Option Node :=
  n.jobs[i]?.map fun job ↦
    let n := { n with jobs := n.jobs.eraseIdx i }
    match job with
    | .append roomId msg key =>
      { n with store := n.store.appendMessage env.lib env.keyring now nonce roomId msg key }
    | .saveUserPublicKey username key =>
      { n with store := { n.store with
          keys := n.store.keys.saveUserPublicKey env.lib username key } }

/-! ## Events

Whatever can interrupt a handler is an event of its own.  A step is therefore what is done between
two `await`s, or by one job of the executor. -/

/-- What can happen on a node. -/
inductive Event
  /-- A WebSocket connection is accepted and given the id. -/
  | connect (id : Str) (queryParams : Obj) (now : ℤ)
  /-- A frame is received. -/
  | frame (id : Str) (data : Value) (now : ℤ) (uuid : Str)
  /-- The executor runs a query for a handler that waits. -/
  | fetchHistory (id : Str) (now : ℤ) (docs : Option (List Obj))
  | resume (id : Str)
  /-- The receive loop ends. -/
  | disconnect (id : Str)
  | post (body : Body) (query : Obj) (now : ℤ) (uuid : Str)
  | gossip (data : Option Value) (now : ℤ)
  | feed (room : Option Str) (limit now : ℤ)
  | runJob (i : ℕ) (now : ℤ) (nonce : Bytes)
  | warmCache (now : ℤ) (docs : Option (List Obj))
  /-- Somebody looks up the public key of a name. -/
  | publicKey (username : Str)
  /-- Somebody looks up the private key of a name. -/
  | privateKey (username : Str)
  | background (b : Background)

/-- One event; `none` if it cannot happen. -/
def step : Event → Option Node
  | .connect id queryParams now =>
    match n.clientsById.get? id with
    | none => some (n.handleConnection env id queryParams now)
    | some _ => none
  | .frame id data now uuid => n.receive env id data now uuid
  | .fetchHistory id now docs => n.fetchHistory env id now docs
  | .resume id => n.resume env id
  | .disconnect id =>
    match n.clientsById.get? id with
    | some c => if c.waiting.isNone then some (n.closeConnection env id) else none
    | none => none
  | .post body query now uuid => some (n.postMessage env body query now uuid).1
  | .gossip data now => some (n.receiveGossip env data now)
  | .feed room limit now => some (n.getFeedRoute room limit now).2
  | .runJob i now nonce => n.runJob env i now nonce
  | .warmCache now docs =>
    some { n with store := n.store.warmCacheFromDb env.lib now docs }
  | .publicKey username =>
    some { n with store := { n.store with
      keys := (n.store.keys.getUserPublicKey env.lib env.keyring username).2 } }
  | .privateKey username =>
    some { n with store := { n.store with
      keys := (n.store.keys.getUserPrivateKey env.lib env.keyring username).2 } }
  | .background b => n.background env b

/-- A node without rooms. -/
def empty : Node := ⟨.empty, .empty, .empty, fun _ ↦ .empty, [], .empty, [], []⟩

/-- A node that has just started: the default rooms exist. -/
def initial (env : Env) : Node :=
  (env.config.defaultRoom :: env.config.otherRooms).foldl ensureRoom empty

/-- A node and its environment. -/
def system (env : Env) : System Node Event := .ofFun (· = initial env) (step env)

/-- A client joins under a name. -/
def joinFrame (id username : Str) : Event :=
  .frame id (.dict [("type", .str (lit "join")), ("username", .str username)]) 0 []

/-- A client posts a message with an id. -/
def postEvent (id text : Str) : Event :=
  .post (.json (some (.dict [("id", .str id), ("client-name", .str (lit "Alice")),
    ("msg", .str text)]))) [] 0 []

/-- A frame is sent. -/
def sendNext (id : Str) : List Event :=
  [.background (.senderTake id), .background (.senderDone id true)]

end Node
end GroupChat
