import GroupChat.Server.Rooms

/-!
# The order of the frames of a client

The frames for a client pass through its `send_queue`, which keeps their order and holds at most
1000 of them.  `RoomManager.broadcast` reads the queue from the record of the member, though, and
the record that `_handle_switch_room` enters has none.  What is broadcast to such a member is given
to `ws.send_text` by coroutines of their own, which may run in any order, and of which there may be
any number.

* `Link.KeepsOrder` is what a client can rely on: what has been sent, or is being sent, was emitted
  in this order, and the number of frames that wait is bounded.
* `Switches` are the steps that change the room of a client.
* `keepsOrder_of_stays`: a client whom no step of a run moves can rely on it in all states.
* `not_keepsOrder_switchRun` is a run in which a client switches, and gets two messages in the
  wrong order.

The proof follows the primitives: `Queued` says that all records of the client have its queue, and
that its link is in order; whatever a handler does is delivering frames and changing records.

Both halves of `Link.KeepsOrder` are lost for the same reason, and the condition on the steps is
therefore the same for both.  A coroutine for each frame means that nothing limits how many wait,
and that nothing says which of them is resumed first.
-/

set_option autoImplicit false

namespace GroupChat

open Transition

/-! ## Links

A link records what has been emitted to a client, the queue, the frame in flight and what was
sent.  As long as no frame was given to a coroutine, the frames sent, in flight and queued are, in
this order, a sublist of those emitted: a sublist and not all of them, as a full queue drops
frames. -/

/-- What was sent was emitted in this order, and few frames wait. -/
structure Link.KeepsOrder (l : Link) : Prop where
  order : (l.sent ++ l.sender.inFlight).Sublist l.emitted
  pending_le : (l.sender.inFlight ++ l.queue ++ l.direct).length ≤ sendQueueSize + 1

/-- All frames are on the queue. -/
structure Link.Orderly (l : Link) : Prop where
  direct : l.direct = []
  order : (l.sent ++ l.sender.inFlight ++ l.queue).Sublist l.emitted
  length_le : l.queue.length ≤ sendQueueSize

namespace Link.Orderly

variable {l : Link}

/-- The link of a new connection is in order. -/
theorem empty : Link.empty.Orderly := ⟨rfl, List.Sublist.refl _, Nat.zero_le _⟩

/-- The frames sent and in flight come first, so they are a sublist of what was emitted as
well. -/
theorem keepsOrder (h : l.Orderly) : l.KeepsOrder := by
  refine ⟨(List.sublist_append_left _ _).trans h.order, ?_⟩
  have hsender : l.sender.inFlight.length ≤ 1 := by
    cases l.sender <;> simp [Sender.inFlight]
  have hqueue := h.length_le
  rw [h.direct, List.append_nil, List.length_append]
  omega

/-- A frame is appended to the queue, or dropped if the queue is full. -/
theorem putNowait (h : l.Orderly) (f : Frame) : (l.putNowait f).Orderly := by
  obtain ⟨hdirect, horder, hlength⟩ := h
  refine ⟨hdirect, ?_, ?_⟩
  · show (l.sent ++ l.sender.inFlight ++ (if _ then l.queue ++ [f] else l.queue)).Sublist _
    split
    · rw [← List.append_assoc]
      exact horder.append (List.Sublist.refl _)
    · exact horder.trans (List.sublist_append_left _ _)
  · show (if _ then l.queue ++ [f] else l.queue).length ≤ _
    split
    · rename_i hroom
      rw [List.length_append, List.length_singleton]
      exact hroom
    · exact hlength

/-- The sender loop ends; the frame in flight was not sent. -/
theorem stop (h : l.Orderly) : ({ l with sender := .stopped } : Link).Orderly := by
  refine ⟨h.direct, List.Sublist.trans ?_ h.order, h.length_le⟩
  simp [Sender.inFlight]

/-- The sender loop takes the first frame of the queue. -/
theorem take (h : l.Orderly) {f : Frame} {q : List Frame} (hsender : l.sender = .waiting)
    (hqueue : l.queue = f :: q) :
    ({ l with queue := q, sender := .sending f } : Link).Orderly := by
  obtain ⟨hdirect, horder, hlength⟩ := h
  rw [hqueue] at hlength horder
  rw [hsender] at horder
  refine ⟨hdirect, ?_, (Nat.le_succ _).trans hlength⟩
  simpa [Sender.inFlight] using horder

/-- The frame in flight has been sent. -/
theorem done (h : l.Orderly) {f : Frame} {s : Sender} (hsender : l.sender = .sending f)
    (hs : s.inFlight = []) :
    ({ l with sender := s, sent := l.sent ++ [f] } : Link).Orderly := by
  obtain ⟨hdirect, horder, hlength⟩ := h
  rw [hsender] at horder
  refine ⟨hdirect, ?_, hlength⟩
  show (l.sent ++ [f] ++ s.inFlight ++ l.queue).Sublist l.emitted
  rw [hs, List.append_nil]
  exact horder

end Link.Orderly

namespace Node

/-! ## Steps that move a client

A client moves by `switch_room`, and by `create_room`, which ends with a switch to the new room.
A frame that asks for the room the client is in does not move it, and neither does an invalid
one. -/

/-- The room that a frame of a client moves it to. -/
def frameTarget (env : Env) (n : Node) (c : Client) (data : Obj) : Option Str :=
  if (data.get "type").str? = some (lit "switch_room") then n.switchedRoom c (data.get "room")
  else if (data.get "type").str? = some (lit "create_room") then
    (n.ensureRoom (createdRoom env data)).switchedRoom c (.str (createdRoom env data))
  else none

/-- The condition on a step: it does not move the client from one room to another. -/
def Stays (env : Env) (id : Str) (n : Node) : Event → Prop
  | .frame id' (.dict data) _ _ =>
    id' = id → ((n.clientsById.get? id).bind fun c ↦ n.frameTarget env c data) = none
  | _ => True

instance (env : Env) (id : Str) (n : Node) (a : Event) : Decidable (Stays env id n a) := by
  unfold Stays
  split <;> infer_instance

/-! ## Queued clients

`Queued` is the invariant: the link of the client is in order, and every member record under its
id has a queue.  The second half is what a broadcast looks at, and what a switch breaks. -/

/-- Every frame for the client goes to its queue. -/
structure Queued (id : Str) (n : Node) : Prop where
  member : ∀ room m, n.member? room id = some m → m.hasQueue = true
  link : (n.links id).Orderly

namespace Queued

variable {id : Str} {n n' : Node}

/-- The links are the same. -/
theorem of_samePlaces (h : Queued id n) (hs : SamePlaces n n') (hlinks : n'.links = n.links) :
    Queued id n' := ⟨hs.member ▸ h.member, hlinks ▸ h.link⟩

/-- A frame goes to everybody with a way, the client among them if its way is the queue. -/
theorem deliver (h : Queued id n) {way : Str → Option Bool}
    (hway : ∀ hasQueue, way id = some hasQueue → hasQueue = true) (f : Frame) :
    Queued id (n.deliver way f) := by
  refine ⟨h.member, ?_⟩
  cases hid : way id with
  | none => exact (links_deliver_of_none n f hid).symm ▸ h.link
  | some hasQueue =>
    rw [links_deliver_of_some n f hid, hway hasQueue hid]
    exact h.link.putNowait f

/-- Whoever the frame is for, it goes through the queue of a connection. -/
theorem send (h : Queued id n) (id' : Str) (f : Frame) : Queued id (n.send id' f) := by
  refine h.deliver (fun hasQueue hid ↦ ?_) f
  rw [wayTo] at hid
  split at hid
  · exact (Option.some.inj hid).symm
  · simp at hid

theorem sendError (h : Queued id n) (id' : Str) (code : String) (text : Str) :
    Queued id (n.sendError id' code text) := h.send id' _

theorem broadcastToAll (h : Queued id n) (f : Frame) : Queued id (n.broadcastToAll f) := by
  refine h.deliver (fun hasQueue hid ↦ ?_) f
  split at hid
  · exact (Option.some.inj hid).symm
  · simp at hid

/-- The members of the room are looked up in their records, where the client has its queue. -/
theorem broadcast (h : Queued id n) (room : Str) (f : Frame) (exclude : Option Str) :
    Queued id (n.broadcast room f exclude) := by
  refine h.deliver (fun hasQueue hid ↦ ?_) f
  rw [wayToRoom] at hid
  split at hid
  · rename_i m hm
    split at hid
    · rw [← Option.some.inj hid]
      exact h.member room m hm
    · simp at hid
  · simp at hid

theorem updateClient (h : Queued id n) (id' : Str) (f : Client → Client) :
    Queued id (n.updateClient id' f) := ⟨h.member, h.link⟩

/-- The link of the client is changed by what keeps it in order. -/
theorem updateLink (h : Queued id n) (id' : Str) {f : Link → Link}
    (hf : ∀ l, l = n.links id → l.Orderly → (f l).Orderly) : Queued id (n.updateLink id' f) := by
  refine ⟨h.member, ?_⟩
  show (Function.update n.links id' (f (n.links id')) id).Orderly
  by_cases hid : id = id'
  · subst hid
    rw [Function.update_self]
    exact hf _ rfl h.link
  · rw [Function.update_of_ne hid]
    exact h.link

theorem setStore (h : Queued id n) (store : Store) : Queued id { n with store := store } :=
  ⟨h.member, h.link⟩

theorem spawn (h : Queued id n) (j : Job) : Queued id (n.spawn j) := ⟨h.member, h.link⟩

theorem broadcastGossip (h : Queued id n) (room : Value) (msg : Obj) :
    Queued id (n.broadcastGossip room msg) := ⟨h.member, h.link⟩

theorem ensureRoom (h : Queued id n) (room : Str) : Queued id (n.ensureRoom room) :=
  h.of_samePlaces (.ensureRoom n room) rfl

/-- A record is taken out, and the others stay. -/
theorem leaveRoom (h : Queued id n) (room id' : Str) : Queued id (n.leaveRoom room id') := by
  refine ⟨fun room' m hm ↦ ?_, h.link⟩
  rw [member?_leaveRoom] at hm
  split at hm
  · simp at hm
  · exact h.member room' m hm

/-- A record is entered; if it is one of the client, then it must have the queue. -/
theorem joinRoom (h : Queued id n) (room id' : Str) {m : Member}
    (hm : id = id' → m.hasQueue = true) : Queued id (n.joinRoom room id' m) := by
  refine ⟨fun room' m' hm' ↦ ?_, h.link⟩
  rw [member?_joinRoom] at hm'
  split at hm'
  · rename_i heq
    rw [← Option.some.inj hm']
    exact hm heq.2
  · exact h.member room' m' hm'

/-! ## Handlers

One lemma for each handler, put together from those of the primitives.  Only the two that change
the room of the client have a hypothesis about the step. -/

theorem noteActivity (h : Queued id n) (id' : Str) (c : Client) (now : ℤ) :
    Queued id (n.noteActivity id' c now) := by
  rw [Node.noteActivity]
  split
  · exact (h.updateClient _ _).broadcastToAll _
  · exact h.updateClient _ _

theorem finishJoin (h : Queued id n) (id' room : Str) (history : List Obj) :
    Queued id (n.finishJoin id' room history).1 := by
  rcases n.finishJoin_outcome id' room history with
    ⟨e, heq, -⟩ | ⟨username, isAdmin, users, online, text, rooms, heq⟩ <;> rw [heq]
  · exact h
  · exact ((h.send _ _).broadcast _ _ _).send _ _

theorem finishSwitchRoom (h : Queued id n) (id' room : Str) (history : List Obj) :
    Queued id (n.finishSwitchRoom id' room history).1 := by
  rcases n.finishSwitchRoom_outcome id' room history with
    ⟨e, heq, -⟩ | ⟨users, text, heq⟩ <;> rw [heq]
  · exact h
  · exact (h.send _ _).broadcast _ _ _

/-- The history comes from the cache, or the handler waits for it. -/
theorem awaitHistory {env : Env} (h : Queued id n) (id' room : Str) (wait : Waiting)
    {finish : Node → List Obj → Node × Option PyError}
    (hfinish : ∀ history, Queued id (finish n history).1) :
    Queued id (n.awaitHistory env id' room wait finish).1 := by
  rw [Node.awaitHistory]
  split
  · exact hfinish _
  · exact h.updateClient _ _

theorem enroll (h : Queued id n) (env : Env) (c : Client) (username room : Str) :
    Queued id (n.enroll env c username room) := ⟨h.member, h.link⟩

/-- A client joins with the queue of its connection in its record. -/
theorem handleJoin (h : Queued id n) {env : Env} {c : Client} {data : Obj}
    {r : Node × Option PyError} (hr : n.handleJoin env c data = some r) : Queued id r.1 := by
  rcases handleJoin_outcome hr with ⟨-, rfl⟩ | ⟨username, -, -, rfl⟩
  · exact h
  · have hregister : Queued id (n.register env c username (requestedRoom env data)) := by
      rw [Node.register]
      refine Queued.joinRoom (.enroll ?_ env c _ _) _ _ fun _ ↦ rfl
      split
      · exact h.leaveRoom _ _
      · exact h
    exact hregister.awaitHistory _ _ _ fun history ↦ hregister.finishJoin _ _ _

/-- Somebody switches rooms, but not the client. -/
theorem handleSwitchRoom (h : Queued id n) (env : Env) {c : Client} {room : Value}
    (hstays : id = c.id → n.switchedRoom c room = none) :
    Queued id (n.handleSwitchRoom env c room).1 := by
  rcases handleSwitchRoom_outcome env n c room with
    ⟨-, heq | ⟨code, text, heq⟩⟩ | ⟨username, r, -, hr, heq⟩ <;> rw [heq]
  · exact h
  · exact h.sendError _ _ _
  · have hother : id ≠ c.id := fun hid ↦ by simp [hstays hid] at hr
    have hmove : Queued id (n.moveTo c username r) :=
      (((h.leaveRoom _ _).broadcast _ _ _).updateClient _ _).joinRoom _ _ fun hid ↦
        absurd hid hother
    exact hmove.awaitHistory _ _ _ fun history ↦ hmove.finishSwitchRoom _ _ _

/-- The condition is that of the switch which ends the handler. -/
theorem handleCreateRoom (h : Queued id n) (env : Env) {c : Client} {data : Obj}
    (hstays : id = c.id →
      (n.ensureRoom (createdRoom env data)).switchedRoom c (.str (createdRoom env data)) = none) :
    Queued id (n.handleCreateRoom env c data).1 := by
  rcases handleCreateRoom_outcome env n c data with
    ⟨-, heq | ⟨code, text, heq⟩⟩ | ⟨n₁, rfl | ⟨rooms, rfl⟩, heq⟩ <;> rw [heq]
  · exact h
  · exact h.sendError _ _ _
  · exact (h.ensureRoom _).handleSwitchRoom env hstays
  · exact ((h.ensureRoom _).broadcastToAll _).handleSwitchRoom env hstays

theorem handleMessage (h : Queued id n) (env : Env) (c : Client) (data : Obj) (now : ℤ)
    (uuid : Str) : Queued id (n.handleMessage env c data now uuid).1 := by
  rcases handleMessage_outcome env n c data now uuid with
    ⟨-, e, heq⟩ | ⟨s, job, -, -, -, ⟨e, -, heq⟩ | ⟨store, -, heq⟩⟩ <;> rw [heq]
  · exact h
  · exact h
  · exact ((((h.setStore _).broadcast _ _ _).send _ _).spawn _).broadcastGossip _ _

theorem handlePrivateMessage (h : Queued id n) (env : Env) (c : Client) (data : Obj) (now : ℤ)
    (uuid : Str) : Queued id (n.handlePrivateMessage env c data now uuid) := by
  rcases handlePrivateMessage_outcome env n c data now uuid with
    heq | ⟨code, text, heq⟩ | ⟨username, targetId, -, -, heq⟩ <;> rw [heq]
  · exact h
  · exact h.sendError _ _ _
  · exact ((h.send _ _).send _ _).spawn _

theorem handleTyping (h : Queued id n) (c : Client) : Queued id (n.handleTyping c) := by
  rw [Node.handleTyping]
  split
  · exact h
  · exact h.broadcast _ _ _

theorem handleModeration (h : Queued id n) (env : Env) (c : Client) (data : Obj)
    (action : Action) : Queued id (n.handleModeration env c data action) := by
  rcases handleModeration_outcome env n c data action with
    heq | ⟨code, text, heq⟩ | ⟨id', moderator, heq⟩ | ⟨id', muted, room, text, users, heq⟩ <;>
    rw [heq]
  · exact h
  · exact h.sendError _ _ _
  · exact (h.send _ _).updateClient _ _
  · exact (h.updateClient _ _).broadcast _ _ _

/-- All frames of a client that has joined, by their kinds. -/
theorem handled (h : Queued id n) {env : Env} {c : Client} {data : Obj} {now : ℤ} {uuid : Str}
    {r : Node × Option PyError} (hr : Handled env n c data now uuid r)
    (hstays : id = c.id → n.frameTarget env c data = none) : Queued id r.1 := by
  cases hr with
  | join type hr => exact h.handleJoin hr
  | message type => exact h.handleMessage env c data now uuid
  | privateMessage type => exact h.handlePrivateMessage env c data now uuid
  | switchRoom type =>
    refine h.handleSwitchRoom env fun heq ↦ ?_
    have hnone := hstays heq
    rw [frameTarget, type] at hnone
    exact hnone
  | createRoom type =>
    refine h.handleCreateRoom env fun heq ↦ ?_
    have hnone := hstays heq
    rw [frameTarget, type] at hnone
    exact hnone
  | typing type => exact h.handleTyping c
  | moderation type action => exact h.handleModeration env c data action
  | ignored type => exact h

/-! ## Connections and requests

A connection is opened with a new link, which is empty, and with a record that has the queue.  A
request, an item of gossip and a timer have nothing to do with records; they deliver frames. -/

/-- A new connection, under the id of the client or under another one. -/
theorem handleConnection (h : Queued id n) (env : Env) (id' : Str) (queryParams : Obj) (now : ℤ) :
    Queued id (n.handleConnection env id' queryParams now) := by
  refine joinRoom (n := { n with
    clientsById := n.clientsById.set id' (newClient env id' queryParams now),
    links := Function.update n.links id' .empty }) ⟨h.member, ?_⟩ _ _ fun _ ↦ rfl
  show (Function.update n.links id' .empty id).Orderly
  by_cases hid : id = id'
  · subst hid
    rw [Function.update_self]
    exact Link.Orderly.empty
  · rw [Function.update_of_ne hid]
    exact h.link

/-- The records of the connection are taken out. -/
theorem closeConnection (h : Queued id n) (env : Env) (id' : Str) :
    Queued id (n.closeConnection env id') := by
  rw [Node.closeConnection]
  split
  · rename_i c hc
    have hstop : Queued id (n.updateLink id' fun l ↦ { l with sender := .stopped }) :=
      h.updateLink id' fun l _ hl ↦ hl.stop
    have hforget : Queued id
        ((n.updateLink id' fun l ↦ { l with sender := .stopped }).forget env c) :=
      ⟨hstop.member, hstop.link⟩
    rcases handleClose_outcome env (n.updateLink id' fun l ↦ { l with sender := .stopped }) c with
      heq | ⟨text, users, heq⟩ <;> rw [heq]
    · exact hforget.leaveRoom _ _
    · exact (hforget.leaveRoom _ _).broadcast _ _ _
  · exact h

/-- The handler has raised or not. -/
theorem afterHandler {env : Env} {id' : Str} {r : Node × Option PyError} (h : Queued id r.1) :
    Queued id (Node.afterHandler env id' r) := by
  obtain ⟨n, _ | e⟩ := r
  · exact h
  · exact h.closeConnection env id'

theorem tryBroadcast (h : Queued id n) (room : Value) (f : Frame) :
    Queued id (n.tryBroadcast room f).1 := by
  rcases tryBroadcast_spec n room f with heq | ⟨r, -, heq⟩
  · rw [heq]
    exact h
  · rw [heq]
    exact h.broadcast r f none

/-- The request delivers its message to the room, or fails before it. -/
theorem postMessage (h : Queued id n) (env : Env) (body : Body) (query : Obj) (now : ℤ)
    (uuid : Str) : Queued id (n.postMessage env body query now uuid).1 := by
  rcases postMessage_outcome env n body query now uuid with
    heq | ⟨s, store, n₁, -, -, rfl, heq | ⟨job, -, heq⟩⟩ <;> rw [heq]
  · exact h
  · exact (h.setStore _).tryBroadcast _ _
  · exact (((h.setStore _).tryBroadcast _ _).spawn _).broadcastGossip _ _

theorem receiveGossip (h : Queued id n) (env : Env) (data : Option Value) (now : ℤ) :
    Queued id (n.receiveGossip env data now) := by
  cases data with
  | none => exact h
  | some v =>
    refine receiveItems_preserves (I := Queued id) (fun item _ n' h' ↦ ?_) n h
    rw [receiveItem]
    split
    · exact h'
    · split
      · exact h'
      · exact (h'.setStore _).tryBroadcast _ _

/-! ## Frames, histories and the background

These steps involve the link of the client itself, so each of them is compared with the operations
on links above. -/

/-- A frame from the client itself, or from somebody else. -/
theorem receive (h : Queued id n) {env : Env} {id' : Str} {data : Value} {now : ℤ} {uuid : Str}
    (hids : ∀ i c, n.clientsById.get? i = some c → c.id = i)
    (hstays : Stays env id n (.frame id' data now uuid))
    (hstep : n.receive env id' data now uuid = some n') : Queued id n' := by
  obtain ⟨c, hc, -, hcases⟩ := receive_handled hstep
  have hactive := h.noteActivity id' c now
  rcases hcases with ⟨fields, r, rfl, hr, rfl⟩ | ⟨-, rfl⟩
  · refine (hactive.handled hr fun heq ↦ ?_).afterHandler
    have hid : id' = id := (hids id' c hc).symm.trans heq.symm
    subst hid
    have hnone := hstays rfl
    rw [hc] at hnone
    rw [← hnone]
    have hrooms := rooms_noteActivity n id' c now
    simp only [Option.bind_some, frameTarget, switchedRoom, Node.ensureRoom, setRooms, hrooms]
    rfl
  · exact hactive.closeConnection env id'

/-- A history arrives; the room was changed before the handler began to wait. -/
theorem resume (h : Queued id n) {env : Env} {id' : Str} (hstep : n.resume env id' = some n') :
    Queued id n' := by
  have hresumed := h.updateClient id' fun c ↦ { c with waiting := none }
  obtain ⟨c, -, ⟨room, history, -, rfl⟩ | ⟨room, history, -, rfl⟩ | ⟨w, e, -, -, rfl⟩⟩ :=
    resume_outcome hstep
  · exact (hresumed.finishJoin _ _ _).afterHandler
  · exact (hresumed.finishSwitchRoom _ _ _).afterHandler
  · exact hresumed.closeConnection env id'

/-- The link of another client is updated. -/
theorem updateLink_of_ne (h : Queued id n) {id' : Str} (hid : id' ≠ id) (f : Link → Link) :
    Queued id (n.updateLink id' f) := by
  refine ⟨h.member, ?_⟩
  show (Function.update n.links id' _ id).Orderly
  rw [Function.update_of_ne (Ne.symm hid)]
  exact h.link

/-- The coroutines and the sender loops do what they are there for. -/
theorem background (h : Queued id n) {env : Env} {b : Background}
    (hstep : n.background env b = some n') : Queued id n' := by
  cases background_outcome hstep with
  | sweepPresence => exact ⟨h.member, h.link⟩
  | @runScheduled id' f rest =>
    have hrest : Queued id { n with scheduled := rest } := ⟨h.member, h.link⟩
    exact hrest.updateLink id' fun l _ hl ↦ hl.putNowait f
  | @senderTake id' f q hsender hqueue =>
    by_cases hid : id' = id
    · subst hid
      exact h.updateLink id' fun l heq hl ↦ hl.take (heq ▸ hsender) (heq ▸ hqueue)
    · exact h.updateLink_of_ne hid _
  | @sent id' f hsender =>
    by_cases hid : id' = id
    · subst hid
      exact h.updateLink id' fun l heq hl ↦ hl.done (heq ▸ hsender) (by split <;> rfl)
    · exact h.updateLink_of_ne hid _
  | @sendFailed id' => exact (h.updateClient _ _).updateLink id' fun l _ hl ↦ hl.stop
  | @directDone id' i f hf =>
    have hid : id' ≠ id := by
      rintro rfl
      rw [h.link.direct] at hf
      simp at hf
    exact h.updateLink_of_ne hid _
  | shutdown =>
    exact shutdown_preserves (fun m id' hm ↦ hm.updateClient id' _) (h.broadcastToAll _)

/-! ## Steps and runs

The invariant holds of a client that nobody has heard of, and is kept by every step that does not
move the client. -/

/-- A step that does not move the client. -/
theorem step (h : Queued id n) {env : Env} {a : Event} (hhoused : Housed n)
    (hstays : Stays env id n a) (hstep : n.step env a = some n') : Queued id n' := by
  cases a with
  | connect id' queryParams now =>
    obtain ⟨-, rfl⟩ := step_connect hstep
    exact h.handleConnection env id' queryParams now
  | frame id' data now uuid =>
    exact h.receive (fun i c hc ↦ hhoused.id i _ (placeOf_of_get? hc)) hstays hstep
  | fetchHistory id' now docs =>
    obtain ⟨c, w, room, ready, -, -, -, -, rfl⟩ := fetchHistory_spec hstep
    exact (h.setStore _).updateClient _ _
  | resume id' => exact h.resume hstep
  | disconnect id' =>
    obtain ⟨c, -, -, rfl⟩ := step_disconnect hstep
    exact h.closeConnection env id'
  | post body query now uuid => exact Option.some.inj hstep ▸ h.postMessage env body query now uuid
  | gossip data now => exact Option.some.inj hstep ▸ h.receiveGossip env data now
  | feed room limit now =>
    obtain rfl := Option.some.inj hstep
    cases room <;> exact ⟨h.member, h.link⟩
  | runJob i now nonce =>
    obtain ⟨job, -, rfl⟩ := Option.map_eq_some_iff.mp hstep
    cases job <;> exact ⟨h.member, h.link⟩
  | warmCache now docs => exact Option.some.inj hstep ▸ h.setStore _
  | publicKey username => exact Option.some.inj hstep ▸ h.setStore _
  | privateKey username => exact Option.some.inj hstep ▸ h.setStore _
  | background b => exact h.background hstep

end Queued

/-- Nobody is connected at first. -/
theorem queued_initial (env : Env) (id : Str) : Queued id (initial env) :=
  initial_of env ⟨fun room m hm ↦ by simp [member?, empty] at hm, Link.Orderly.empty⟩
    fun _ room h ↦ h.ensureRoom room

/-- **Frames arrive in their order at a client that stays in its room.** -/
theorem keepsOrder_of_stays {env : Env} {id : Str} {n : Node}
    (h : ((system env).when (Stays env id)).Reachable n) : (n.links id).KeepsOrder := by
  have hqueued : Queued id n := by
    refine h.invariant_of (J := Housed) (fun s hs ↦ housed_of_reachable hs.of_when) ?_ ?_
    · rintro s rfl
      exact queued_initial env id
    · exact fun s a s' hhoused hs hstep ↦ hs.step hhoused hstep.1 hstep.2
  exact hqueued.link.keepsOrder

/-! ## Two runs

The first run has no switch, and the client is sent what was emitted.  In the second one it
switches, is given two coroutines, and the later one runs first. -/

/-- Alice sends a message of her own, and another one is posted to her room. -/
def chatRun : List Event :=
  [.connect (lit "1") [("username", .str (lit "alice"))] 0,
    .frame (lit "1") (.dict [("type", .str (lit "message")), ("text", .str (lit "one"))]) 0
      (lit "m1"),
    postEvent (lit "m2") (lit "two")] ++
      (sendNext (lit "1") ++ sendNext (lit "1") ++ sendNext (lit "1"))

/-- Alice is sent both messages and the receipt for her own, in their order. -/
theorem keepsOrder_chatRun : ∃ n : Node, (n.links (lit "1")).sent.length = 3 ∧
    (n.links (lit "1")).KeepsOrder := by
  have hexec : (System.exec
      (fun n a ↦ if Stays plainEnv (lit "1") n a then n.step plainEnv a else none)
      (initial plainEnv) chatRun).map (fun n ↦ (n.links (lit "1")).sent.length) = some 3 := by
    decide +kernel
  obtain ⟨n, hn, hsent⟩ := Option.map_eq_some_iff.mp hexec
  exact ⟨n, hsent, keepsOrder_of_stays ((System.trace_when_of_exec hn).reachable rfl)⟩

/-- Alice switches to another room, where two messages are posted.  The coroutine that sends the
second one runs first. -/
def switchRun : List Event :=
  [.connect (lit "1") [("username", .str (lit "alice"))] 0,
    .frame (lit "1")
      (.dict [("type", .str (lit "switch_room")), ("room", .str (lit "random"))]) 0 [],
    .post (.json (some (.dict [("msg", .str (lit "one")), ("room", .str (lit "random"))]))) [] 0
      (lit "m1"),
    .post (.json (some (.dict [("msg", .str (lit "two")), ("room", .str (lit "random"))]))) [] 0
      (lit "m2"),
    .background (.directDone (lit "1") 1), .background (.directDone (lit "1") 0)]

/-- The text of a message frame. -/
def messageText? : Frame → Option Str
  | .message msg => (Obj.get msg "text").str?
  | _ => none

theorem not_keepsOrder_switchRun : ∃ n, (system plainEnv).Trace (initial plainEnv) switchRun n ∧
    ¬ (n.links (lit "1")).KeepsOrder := by
  have hexec : (System.exec (step plainEnv) (initial plainEnv) switchRun).map
      (fun n ↦ ((n.links (lit "1")).sent.filterMap messageText?,
        (n.links (lit "1")).emitted.filterMap messageText?)) =
      some ([lit "two", lit "one"], [lit "one", lit "two"]) := by
    decide +kernel
  obtain ⟨n, hn, htexts⟩ := Option.map_eq_some_iff.mp hexec
  obtain ⟨hsent, hemitted⟩ := Prod.mk.inj htexts
  refine ⟨n, System.trace_of_exec hn, fun h ↦ ?_⟩
  have hsub := ((List.sublist_append_left _ _).trans h.order).filterMap messageText?
  rw [hsent, hemitted] at hsub
  exact absurd hsub (by decide)

end Node
end GroupChat
