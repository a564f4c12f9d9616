import GroupChat.Server.Delivery
import GroupChat.Server.Effects

/-!
# Why a frame is sent

A client is sent frames of twelve kinds, and each of them is a claim about something that has
happened: a message has come in for the room of the client, a frame of its own has been handled, an
administrator has thrown it out.  This file goes through all steps of a node and says for every
frame that one of them emits what the cause is.

* `Emits P n n'`: whatever has been emitted between two states meets `P`.
* `Cause` lists the causes, as conditions on the event and the state before it.  A handler can wait
  for a history, and can be ended by an exception; so there are conditions for the state in which it
  goes on (`Event.Joining`, `Event.Moving`, `Event.Switching`) or in which the connection is closed
  (`Event.Closing`), and what a frame says about users and rooms is read off that state.
* `emits_step`: a step emits nothing without a cause.
* `caused`: every frame that has been emitted to a client in a run was caused by an event of the
  run, in the state that this event met.

A frame is described in terms of the state in which it was made, which is in most cases the state
before the step.  Where the handler has changed the rooms or the records before it made the frame,
the state in between is named, and the constructor of the cause says how it comes from the one
before.
-/

set_option autoImplicit false

namespace GroupChat

open Transition

/-- The message in a frame that brings one. -/
def Frame.message? : Frame → Option Obj
  | .message msg => some msg
  | _ => none

/-- Only a message frame brings a message. -/
theorem Frame.message?_eq_some {f : Frame} {msg : Obj} (h : f.message? = some msg) :
    f = .message msg := by
  cases f with
  | message m => exact congrArg _ (Option.some.inj h)
  | _ => simp [Frame.message?] at h

namespace Node

variable {env : Env} {n n' n'' : Node}

/-! ## What is emitted between two states

`Emits` speaks about what has been added to the links and to what is scheduled, so it composes
along the updates of a handler.  The property of the frames is a variable: each handler's lemma
says which frames it makes, and the causes are put in for it in the end. -/

/-- What has been emitted to the clients, between two states, is as `P` says, and what has been
scheduled for them is that somebody is away. -/
structure Emits (P : Str → Frame → Prop) (n n' : Node) : Prop where
  emitted : ∀ id, ∃ fs, (n'.links id).emitted = (n.links id).emitted ++ fs ∧ ∀ f ∈ fs, P id f
  scheduled : ∀ p ∈ n'.scheduled, p ∈ n.scheduled ∨ ∃ u, p.2 = .presence u "away"

variable {P Q : Str → Frame → Prop}

/-- Nothing is emitted where the links stay as they are. -/
theorem Emits.of_links (h : ∀ id, (n'.links id).emitted = (n.links id).emitted)
    (hs : n'.scheduled = n.scheduled) : Emits P n n' where
  emitted id := ⟨[], by rw [h, List.append_nil], by simp⟩
  scheduled _ hp := Or.inl (hs ▸ hp)

/-- Nothing is emitted where nothing happens. -/
theorem Emits.refl (n : Node) : Emits P n n := .of_links (fun _ ↦ rfl) rfl

/-- What is emitted by two changes was emitted by one of them. -/
theorem Emits.trans (h : Emits P n n') (h' : Emits P n' n'') : Emits P n n'' where
  emitted id := by
    obtain ⟨fs, hfs, hP⟩ := h.emitted id
    obtain ⟨gs, hgs, hP'⟩ := h'.emitted id
    refine ⟨fs ++ gs, by rw [hgs, hfs, List.append_assoc], fun f hf ↦ ?_⟩
    rcases List.mem_append.mp hf with hf | hf
    · exact hP f hf
    · exact hP' f hf
  scheduled p hp := (h'.scheduled p hp).elim (h.scheduled p) Or.inr

/-- The emission starts from a state with the same links. -/
theorem Emits.after (h : Emits P n n') {m : Node} (hl : n.links = m.links)
    (hs : n.scheduled = m.scheduled) : Emits P m n' :=
  (Emits.of_links (fun _ ↦ by rw [hl]) hs).trans h

/-- A frame on its way to the queue or to a coroutine has been emitted, also if the queue is
full. -/
theorem emitted_accept (l : Link) (hasQueue : Bool) (f : Frame) :
    (l.accept hasQueue f).emitted = l.emitted ++ [f] := by
  cases hasQueue <;> rfl

/-- A frame is emitted to whom it reaches. -/
theorem Emits.deliver (n : Node) {way : Str → Option Bool} {f : Frame}
    (h : ∀ id, (way id).isSome → P id f) : Emits P n (n.deliver way f) := by
  refine ⟨fun id ↦ ?_, fun _ ↦ Or.inl⟩
  cases hway : way id with
  | none => exact ⟨[], by rw [links_deliver_of_none n f hway, List.append_nil], by simp⟩
  | some hasQueue =>
    refine ⟨[f], ?_, fun g hg ↦ ?_⟩
    · rw [links_deliver_of_some n f hway, emitted_accept]
    · rw [List.mem_singleton.mp hg]
      exact h id (by rw [hway]; rfl)

/-- A frame is emitted to one client. -/
theorem Emits.send (n : Node) {id : Str} {f : Frame} (h : P id f) : Emits P n (n.send id f) := by
  refine .deliver n fun id' hway ↦ ?_
  rw [wayTo] at hway
  split at hway
  · rename_i hid
    exact hid.1 ▸ h
  · simp at hway

/-- Who is told what is broadcast: the members that are connected, but for the one left out. -/
theorem wayToRoom_isSome {room id : Str} {exclude : Option Str}
    (h : (n.wayToRoom room exclude id).isSome) :
    ∃ m, n.member? room id = some m ∧ m.connected = true ∧ some id ≠ exclude := by
  rw [wayToRoom] at h
  split at h
  · rename_i m hm
    split at h
    · rename_i hcond
      simp only [Bool.and_eq_true, decide_eq_true_eq] at hcond
      exact ⟨m, hm, hcond.1, hcond.2⟩
    · simp at h
  · simp at h

/-- A frame is emitted to the members of a room that are connected. -/
theorem Emits.broadcast (n : Node) {room : Str} {exclude : Option Str} {f : Frame}
    (h : ∀ id m, n.member? room id = some m → m.connected = true → some id ≠ exclude → P id f) :
    Emits P n (n.broadcast room f exclude) := by
  refine .deliver n fun id hway ↦ ?_
  obtain ⟨m, hm, hconnected, hne⟩ := wayToRoom_isSome hway
  exact h id m hm hconnected hne

/-- A notification goes to members of the room that it is about. -/
theorem Emits.notify (n : Node) {room : Str} {exclude : Option Str} {text : Str}
    {users : List Str}
    (h : ∀ id, (n.member? room id).isSome = true → P id (.notification text users room)) :
    Emits P n (n.broadcast room (.notification text users room) exclude) :=
  .broadcast n fun id m hm _ _ ↦ h id (by rw [hm]; rfl)

theorem Emits.broadcastToAll (n : Node) {f : Frame} (h : ∀ id, P id f) :
    Emits P n (n.broadcastToAll f) := .deliver n fun id _ ↦ h id

theorem Emits.updateLink (n : Node) (id : Str) {f : Link → Link}
    (h : ∀ l, (f l).emitted = l.emitted) : Emits P n (n.updateLink id f) := by
  refine .of_links (fun id' ↦ ?_) rfl
  rw [Node.updateLink]
  simp only [Function.update_apply]
  split
  · rename_i hid
    rw [hid, h]
  · rfl

/-! ## Handlers

The frames that administrators send are told apart by their types once, and so are those that make
nothing happen. -/

/-- The frames of an administrator, by their types. -/
def moderation? (data : Obj) : Option Action :=
  match data.get "type" with
  | .str type =>
    if type = lit "kick" then some .kick
    else if type = lit "mute" then some .mute
    else if type = lit "unmute" then some .unmute
    else none
  | _ => none

/-- A kick is a frame of that type. -/
theorem type_of_kick {data : Obj} (h : moderation? data = some .kick) :
    data.get "type" = .str (lit "kick") := by
  rw [moderation?] at h
  split at h
  · rename_i type htype
    split at h
    · rename_i hkick
      rw [htype, hkick]
    · split_ifs at h <;> simp at h
  · simp at h

/-- A frame of a minor type is ignored, or it is one about typing or one of an administrator. -/
theorem dispatch_minor {c : Client} {data : Obj} {now : ℤ} {uuid : Str}
    {r : Node × Option PyError} (h : n.dispatch env c data now uuid = some r)
    (htype : ∀ t ∈ majorTypes, data.get "type" ≠ .str t) :
    (data.get "type" = .str (lit "typing") ∧ r = (n.handleTyping c, none)) ∨ r = (n, none) ∨
      ∃ action, moderation? data = some action ∧
        r = (n.handleModeration env c data action, none) := by
  rw [dispatch] at h
  split at h
  · rename_i type heq
    have hne : ∀ t ∈ majorTypes, type ≠ t := fun t ht hcontra ↦ htype t ht (by rw [heq, hcontra])
    simp only [majorTypes, List.forall_mem_cons, List.not_mem_nil, false_imp_iff, implies_true,
      and_true] at hne
    obtain ⟨hjoin, hmessage, hprivate, hswitch, hcreate⟩ := hne
    rw [if_neg hjoin, if_neg hmessage, if_neg hprivate, if_neg hswitch, if_neg hcreate] at h
    rw [moderation?, heq]
    simp only
    split at h
    · rename_i htyping
      exact Or.inl ⟨congrArg Value.str htyping, (Option.some.inj h).symm⟩
    · split at h
      · rename_i hkick
        exact Or.inr (Or.inr ⟨.kick, if_pos hkick, (Option.some.inj h).symm⟩)
      · rename_i hkick
        split at h
        · rename_i hmute
          refine Or.inr (Or.inr ⟨.mute, ?_, (Option.some.inj h).symm⟩)
          rw [if_neg hkick, if_pos hmute]
        · rename_i hmute
          split at h
          · rename_i hunmute
            refine Or.inr (Or.inr ⟨.unmute, ?_, (Option.some.inj h).symm⟩)
            rw [if_neg hkick, if_neg hmute, if_pos hunmute]
          · exact Or.inr (Or.inl (Option.some.inj h).symm)
  · exact Or.inr (Or.inl (Option.some.inj h).symm)

/-! ## Causes

The list of the causes, which is the content of this file.  Every constructor fixes the frame with
all of its fields, so that nothing is left open of what a client is told. -/

/-- What other threads have scheduled is that somebody is away. -/
def AwayOnly (n : Node) : Prop := ∀ p ∈ n.scheduled, ∃ u, p.2 = .presence u "away"

/-- If what is emitted says that somebody is away, then so does what is scheduled. -/
theorem Emits.awayOnly (h : Emits P n n') (hn : AwayOnly n) : AwayOnly n' :=
  fun p hp ↦ (h.scheduled p hp).elim (hn p) fun ha ↦ ha

/-- The event is a frame of the client, of that type. -/
def Event.IsFrame (a : Event) (id type : Str) (data : Obj) : Prop :=
  data.get "type" = .str type ∧ ∃ now uuid, a = .frame id (.dict data) now uuid

/-- The room of a create frame is there, and if it is new, everybody is sent the rooms. -/
def announceRoom (n : Node) (room : Str) : Node :=
  if n.rooms.contains room then n.ensureRoom room
  else (n.ensureRoom room).broadcastToAll (.roomList (n.ensureRoom room).listRooms)

/-! ## States in between

A handler that waits for a history goes on in a later state than the one in which its frame came.
These predicates say from which event, and in which state, the end of a handler is run; each of
them has a case for the cached history and one for the fetched one. -/

/-- The handler of a join goes on in the state `m` with the history of the room: at once if that is
cached, and otherwise when it has waited for it. -/
inductive Event.Joining (env : Env) (n : Node) : Event → Str → Node → Str → List Obj → Prop
  | atOnce {id username uuid : Str} {data : Obj} {now : ℤ} {c : Client} {m : Node}
      (htype : data.get "type" = .str (lit "join")) (hc : n.clientsById.get? id = some c)
      (hnew : c.explicitlyJoined = false)
      (hname : uniqueUsername env.lib n.usernameToId.keys (requestedName env c data) =
        some username)
      (hm : m = (n.noteActivity id c now).register env (c.activeAt now) username
        (requestedRoom env data)) :
      Joining env n (.frame id (.dict data) now uuid) id m (requestedRoom env data)
        (m.store.cachedHistory (requestedRoom env data) env.config.historyLimit)
  | waited {id room : Str} {history : List Obj}
      (hwaiting : n.waitingAt id = some (.joinReady room (.ok history))) :
      Joining env n (.resume id) id (n.updateClient id fun c ↦ { c with waiting := none }) room
        history

/-- A client is moved to a room that is there or has just been made, in the state `m`. -/
inductive Event.Moving (env : Env) (n : Node) : Event → Client → Str → Node → Str → Prop
  | switch {id username uuid room : Str} {data : Obj} {now : ℤ} {c : Client}
      (htype : data.get "type" = .str (lit "switch_room")) (hc : n.clientsById.get? id = some c)
      (husername : c.username = some username)
      (hroom : n.switchedRoom c (data.get "room") = some room) :
      Moving env n (.frame id (.dict data) now uuid) (c.activeAt now) username
        (n.noteActivity id c now) room
  | create {id username uuid room : Str} {data : Obj} {now : ℤ} {c : Client}
      (htype : data.get "type" = .str (lit "create_room")) (hc : n.clientsById.get? id = some c)
      (husername : c.username = some username)
      (hvalid : isValidRoomName (.str (createdRoom env data)) = true)
      (hroom : (n.ensureRoom (createdRoom env data)).switchedRoom c (.str (createdRoom env data)) =
        some room) :
      Moving env n (.frame id (.dict data) now uuid) (c.activeAt now) username
        ((n.noteActivity id c now).announceRoom (createdRoom env data)) room

/-- The handler of a switch goes on in the state `m` with the history of the room. -/
inductive Event.Switching (env : Env) (n : Node) : Event → Str → Node → Str → List Obj → Prop
  | atOnce {a : Event} {c : Client} {username room : Str} {m : Node}
      (h : a.Moving env n c username m room) :
      Switching env n a c.id (m.moveTo c username room) room
        ((m.moveTo c username room).store.cachedHistory room env.config.historyLimit)
  | waited {id room : Str} {history : List Obj}
      (hwaiting : n.waitingAt id = some (.switchReady room (.ok history))) :
      Switching env n (.resume id) id (n.updateClient id fun c ↦ { c with waiting := none }) room
        history

/-- The connection of a client is closed, in the state `m`: the client hangs up, or its handler has
raised. -/
inductive Event.Closing (env : Env) (n : Node) : Event → Str → Node → Prop
  | disconnect {id : Str} : Closing env n (.disconnect id) id n
  | malformed {id uuid : Str} {data : Value} {now : ℤ} {c : Client}
      (hc : n.clientsById.get? id = some c) (hdata : ∀ fields, data ≠ .dict fields) :
      Closing env n (.frame id data now uuid) id (n.noteActivity id c now)
  | raised {id uuid : Str} {data : Obj} {now : ℤ} {c : Client} {m : Node} {e : PyError}
      (hc : n.clientsById.get? id = some c)
      (h : (n.noteActivity id c now).dispatch env (c.activeAt now) data now uuid =
        some (m, some e)) :
      Closing env n (.frame id (.dict data) now uuid) id m
  | joinRaised {id room : Str} {history : List Obj} {m : Node} {e : PyError}
      (hwaiting : n.waitingAt id = some (.joinReady room (.ok history)))
      (h : (n.updateClient id fun c ↦ { c with waiting := none }).finishJoin id room history =
        (m, some e)) :
      Closing env n (.resume id) id m
  | switchRaised {id room : Str} {history : List Obj} {m : Node} {e : PyError}
      (hwaiting : n.waitingAt id = some (.switchReady room (.ok history)))
      (h : (n.updateClient id fun c ↦ { c with waiting := none }).finishSwitchRoom id room history =
        (m, some e)) :
      Closing env n (.resume id) id m
  | queryRaised {id : Str} {w : Waiting} {e : PyError} (hwaiting : n.waitingAt id = some w)
      (h : w.result? = some (.error e)) :
      Closing env n (.resume id) id (n.updateClient id fun c ↦ { c with waiting := none })

/-- The client that a name leads to. -/
def clientNamed (env : Env) (n : Node) (name : Str) : Option Client :=
  (n.usernameToId.get? (env.lib.lower name)).bind n.clientsById.get?

/-- What the notification of a mute says. -/
def Action.verb? : Action → Option Str
  | .kick => none
  | .mute => some (lit " was muted by ")
  | .unmute => some (lit " was unmuted by ")

/-! ## The list

The constructors are ordered by the kinds of frames.  Where a frame is sent to a whole room, the
constructor says of the client that it is a member of that room and connected. -/

/-- Why a frame is emitted to the client `id` when `a` happens, in the state before.  What the frame
says is read off the event and this state, or the state in which the handler goes on. -/
inductive Cause (env : Env) (n : Node) (a : Event) (id : Str) : Frame → Prop
  /-- A message comes in for a room in which the client is. -/
  | message {s : Submission} {r : Str} {m : Member} (hs : s ∈ a.submissions env n)
      (hroom : s.room = .str r) (hm : n.member? r id = some m) (hconnected : m.connected = true) :
      Cause env n a id (.message s.told)
  /-- Its own message has been handled to the end. -/
  | delivered {data : Obj} {now : ℤ} {uuid : Str} {s : Submission}
      (ha : a = .frame id (.dict data) now uuid) (hs : a.completed env n = some s) :
      Cause env n a id (.delivered (frameId env data uuid))
  /-- The client sends a private message, or is registered under the name that it is sent to. -/
  | privateMessage {sender target username : Str} {data : Obj} {now : ℤ} {uuid : Str} {c : Client}
      (ha : a = .frame sender (.dict data) now uuid)
      (htype : data.get "type" = .str (lit "private_message"))
      (hc : n.clientsById.get? sender = some c) (husername : c.username = some username)
      (htarget :
        n.usernameToId.get? (env.lib.lower (targetName env (data.get "to"))) = some target)
      (hid : id = sender ∨ id = target) :
      Cause env n a id (.privateMessage (directMessage uuid username
        (targetName env (data.get "to")) (frameText env (data.get "text")) now))
  | welcome {m : Node} {room : Str} {history : List Obj} {c : Client}
      (ha : a.Joining env n id m room history) (hc : m.clientsById.get? id = some c) :
      Cause env n a id (.welcome (c.username.getD []) room c.isAdmin (m.getUsernames room)
        m.listRooms m.usernameToId.keys history)
  | roomList {m : Node} {room : Str} {history : List Obj} (ha : a.Joining env n id m room history) :
      Cause env n a id (.roomList m.listRooms)
  /-- Somebody has made a room. -/
  | roomMade {creator : Str} {data : Obj} {c : Client}
      (ha : a.IsFrame creator (lit "create_room") data) (hc : n.clientsById.get? creator = some c)
      (husername : c.username.isSome = true)
      (hvalid : isValidRoomName (.str (createdRoom env data)) = true)
      (hnew : n.rooms.contains (createdRoom env data) = false) :
      Cause env n a id (.roomList (n.ensureRoom (createdRoom env data)).listRooms)
  | roomSwitched {m : Node} {room : Str} {history : List Obj}
      (ha : a.Switching env n id m room history) :
      Cause env n a id (.roomSwitched room (m.getUsernames room) history)
  /-- Somebody enters the room of the client. -/
  | entered {id' room : Str} {m : Node} {history : List Obj} {c : Client}
      (ha : a.Joining env n id' m room history ∨ a.Switching env n id' m room history)
      (hc : m.clientsById.get? id' = some c) (hin : (m.member? room id).isSome = true) :
      Cause env n a id (.notification (c.username.getD [] ++ lit " joined #" ++ room)
        (m.getUsernames room) room)
  /-- Somebody leaves the room of the client for another one. -/
  | moved {c : Client} {username room : Str} {m : Node} (ha : a.Moving env n c username m room)
      (hin : ((m.leaveRoom c.room c.id).member? c.room id).isSome = true) :
      Cause env n a id (.notification (username ++ lit " left #" ++ c.room)
        ((m.leaveRoom c.room c.id).getUsernames c.room) c.room)
  /-- The connection of somebody in the room of the client is closed. -/
  | left {id' username : Str} {m : Node} {c : Client} (ha : a.Closing env n id' m)
      (hc : m.clientsById.get? id' = some c) (husername : c.username = some username)
      (hjoined : c.explicitlyJoined = true)
      (hin : ((m.leaveRoom c.room c.id).member? c.room id).isSome = true) :
      Cause env n a id (.notification (username ++ lit " left #" ++ c.room)
        ((m.leaveRoom c.room c.id).getUsernames c.room) c.room)
  /-- An administrator mutes somebody in the room of the client, or lifts that. -/
  | muted {admin moderator verb uuid : Str} {data : Obj} {now : ℤ} {action : Action}
      {c target : Client} (ha : a = .frame admin (.dict data) now uuid)
      (haction : moderation? data = some action) (hverb : action.verb? = some verb)
      (hc : n.clientsById.get? admin = some c) (hadmin : c.isAdmin = true)
      (hmoderator : c.username = some moderator)
      (htarget : n.clientNamed env (targetName env (data.get "target")) = some target)
      (hin : (n.member? target.room id).isSome = true) :
      Cause env n a id (.notification (targetName env (data.get "target") ++ verb ++ moderator)
        (n.getUsernames target.room) target.room)
  /-- Another member of its room types. -/
  | typing {typist username : Str} {data : Obj} {c : Client} {m : Member}
      (ha : a.IsFrame typist (lit "typing") data) (hc : n.clientsById.get? typist = some c)
      (husername : c.username = some username) (hm : n.member? c.room id = some m)
      (hne : id ≠ typist) : Cause env n a id (.typing username c.room)
  /-- An administrator names the client, or a name that leads to it. -/
  | kicked {admin moderator : Str} {data : Obj} {c target : Client}
      (ha : a.IsFrame admin (lit "kick") data) (hc : n.clientsById.get? admin = some c)
      (hadmin : c.isAdmin = true) (hmoderator : c.username = some moderator)
      (htarget : n.clientNamed env (targetName env (data.get "target")) = some target)
      (hid : target.id = id) : Cause env n a id (.kicked moderator)
  /-- Nobody has the name that a private message is for. -/
  | offline {data : Obj} {c : Client} (ha : a.IsFrame id (lit "private_message") data)
      (hc : n.clientsById.get? id = some c) (husername : c.username.isSome = true)
      (hnone : n.usernameToId.get? (env.lib.lower (targetName env (data.get "to"))) = none) :
      Cause env n a id
        (.error "user_offline" (targetName env (data.get "to") ++ lit " is not online."))
  /-- Nobody has the name that an administrator gives. -/
  | unknown {data : Obj} {now : ℤ} {uuid : Str} {c : Client} {action : Action}
      (ha : a = .frame id (.dict data) now uuid) (haction : moderation? data = some action)
      (hc : n.clientsById.get? id = some c) (hadmin : c.isAdmin = true)
      (hnone : n.clientNamed env (targetName env (data.get "target")) = none) :
      Cause env n a id
        (.error "user_offline" (targetName env (data.get "target") ++ lit " is not online."))
  /-- Somebody else gives the order of an administrator. -/
  | notAdmin {data : Obj} {now : ℤ} {uuid : Str} {c : Client} {action : Action}
      (ha : a = .frame id (.dict data) now uuid) (haction : moderation? data = some action)
      (hc : n.clientsById.get? id = some c) (hadmin : c.isAdmin = false) :
      Cause env n a id (.error "not_admin" (lit "Only moderators can do that."))
  | noSuchRoom {data : Obj} {c : Client} (ha : a.IsFrame id (lit "switch_room") data)
      (hc : n.clientsById.get? id = some c) (husername : c.username.isSome = true)
      (hnone : ((validRoom? (data.get "room")).filter fun r ↦ n.rooms.contains r) = none) :
      Cause env n a id (.error "no_such_room" (lit "Room \"" ++ (data.get "room").toStr env.lib ++
        lit "\" doesn't exist."))
  | badRoomName {data : Obj} {c : Client} (ha : a.IsFrame id (lit "create_room") data)
      (hc : n.clientsById.get? id = some c) (husername : c.username.isSome = true)
      (hinvalid : isValidRoomName (.str (createdRoom env data)) = false) :
      Cause env n a id
        (.error "bad_room_name" (lit "Room names: 1-24 chars, letters/numbers/_/- only."))
  /-- A client that was away sends a frame. -/
  | online {id' : Str} {data : Value} {now : ℤ} {uuid : Str} {c : Client}
      (ha : a = .frame id' data now uuid) (hc : n.clientsById.get? id' = some c)
      (haway : c.away = true) : Cause env n a id (.presence c.username "online")
  /-- The sweep has found that somebody is away. -/
  | away {u : Option Str} {rest : List (Str × Frame)} (ha : a = .background .runScheduled)
      (h : n.scheduled = (id, .presence u "away") :: rest) : Cause env n a id (.presence u "away")
  | systemShutdown (ha : a = .background .shutdown) : Cause env n a id .systemShutdown

/-- An error is the answer to a frame of the client. -/
theorem Cause.isFrame_of_error {a : Event} {id text : Str} {code : String}
    (h : Cause env n a id (.error code text)) : ∃ data now uuid, a = .frame id data now uuid := by
  cases h with
  | offline ha => exact ⟨_, ha.2⟩
  | unknown ha => exact ⟨_, _, _, ha⟩
  | notAdmin ha => exact ⟨_, _, _, ha⟩
  | noSuchRoom ha => exact ⟨_, ha.2⟩
  | badRoomName ha => exact ⟨_, ha.2⟩

/-! ## Frames

Each lemma goes through one handler, with a hypothesis for every kind of frame that it emits.  No
lemma of this part mentions `Cause`; this is only done when the event is known. -/

section Frames

variable {m : Node} {id : Str} {c : Client} {data : Obj} {now : ℤ} {uuid : Str}

theorem Emits.awaitHistory {room : Str} {wait : Waiting}
    {finish : Node → List Obj → Node × Option PyError}
    (hfinish : Emits P n (finish n (n.store.cachedHistory room env.config.historyLimit)).1) :
    Emits P n (n.awaitHistory env id room wait finish).1 := by
  rw [Node.awaitHistory]
  split
  · rename_i m ms hcached
    rw [hcached] at hfinish
    exact hfinish
  · exact .of_links (fun _ ↦ rfl) rfl

/-- What is told when a join is finished: the client is welcomed, its room is notified, and the
client is sent the rooms. -/
theorem Emits.finishJoin (n : Node) {room : Str} (history : List Obj)
    (hwelcome : ∀ c, n.clientsById.get? id = some c →
      P id (.welcome (c.username.getD []) room c.isAdmin (n.getUsernames room) n.listRooms
        n.usernameToId.keys history))
    (hrooms : P id (.roomList n.listRooms))
    (hentered : ∀ c id', n.clientsById.get? id = some c → (n.member? room id').isSome = true →
      P id' (.notification (c.username.getD [] ++ lit " joined #" ++ room) (n.getUsernames room)
        room)) :
    Emits P n (n.finishJoin id room history).1 := by
  rw [Node.finishJoin]
  split
  · rename_i c hc
    simp only
    split
    · rename_i hsend
      rw [trySend_some hsend]
      exact .refl n
    · rename_i hsend
      obtain rfl := trySend_none hsend
      exact ((Emits.send n (hwelcome c hc)).trans
        (.notify _ fun id' hin ↦ hentered c id' hc hin)).trans (.send _ hrooms)
  · exact .refl n

/-- What is told when a switch is finished: the client gets the room with its history, and the
room is notified. -/
theorem Emits.finishSwitchRoom (n : Node) {room : Str} (history : List Obj)
    (hswitched : P id (.roomSwitched room (n.getUsernames room) history))
    (hentered : ∀ c id', n.clientsById.get? id = some c → (n.member? room id').isSome = true →
      P id' (.notification (c.username.getD [] ++ lit " joined #" ++ room) (n.getUsernames room)
        room)) :
    Emits P n (n.finishSwitchRoom id room history).1 := by
  rw [Node.finishSwitchRoom]
  split
  · rename_i c hc
    split
    · rename_i hsend
      rw [trySend_some hsend]
      exact .refl n
    · rename_i hsend
      obtain rfl := trySend_none hsend
      exact (Emits.send n hswitched).trans (.notify _ fun id' hin ↦ hentered c id' hc hin)
  · exact .refl n

/-! ## Joining, switching and creating

These handlers change the rooms before they tell anything, so the hypotheses about their frames
are about the changed node. -/

theorem Emits.handleJoin {r : Node × Option PyError} (h : n.handleJoin env c data = some r)
    (hfinish : ∀ username, c.explicitlyJoined = false →
      uniqueUsername env.lib n.usernameToId.keys (requestedName env c data) = some username →
        ∀ m, m = n.register env c username (requestedRoom env data) →
          Emits P m (m.finishJoin c.id (requestedRoom env data)
            (m.store.cachedHistory (requestedRoom env data) env.config.historyLimit)).1) :
    Emits P n r.1 := by
  rcases handleJoin_outcome h with ⟨-, rfl⟩ | ⟨username, hjoined, hname, rfl⟩
  · exact .refl n
  · have hregister : Emits P n (n.register env c username (requestedRoom env data)) := by
      rw [register]
      split <;> exact .of_links (fun _ ↦ rfl) rfl
    exact hregister.trans (.awaitHistory (hfinish username hjoined hname _ rfl))

/-- What is told when a client is moved: the room that it leaves is notified. -/
theorem Emits.moveTo (n : Node) (c : Client) (username room : Str)
    (hmoved : ∀ id', ((n.leaveRoom c.room c.id).member? c.room id').isSome = true →
      P id' (.notification (username ++ lit " left #" ++ c.room)
        ((n.leaveRoom c.room c.id).getUsernames c.room) c.room)) :
    Emits P n (n.moveTo c username room) := by
  have hleft : Emits P (n.leaveRoom c.room c.id) ((n.leaveRoom c.room c.id).broadcast c.room
      (.notification (username ++ lit " left #" ++ c.room)
        ((n.leaveRoom c.room c.id).getUsernames c.room) c.room) none) := .notify _ hmoved
  have hentered : Emits P ((n.leaveRoom c.room c.id).broadcast c.room
      (.notification (username ++ lit " left #" ++ c.room)
        ((n.leaveRoom c.room c.id).getUsernames c.room) c.room) none) (n.moveTo c username room) :=
    .of_links (fun _ ↦ rfl) rfl
  exact (hleft.trans hentered).after rfl rfl

/-- A switch moves the client and is finished at once or later, or it is refused. -/
theorem Emits.handleSwitchRoom (n : Node) (c : Client) (room : Value)
    (hmove : ∀ username r, c.username = some username → n.switchedRoom c room = some r →
      Emits P n (n.moveTo c username r))
    (hfinish : ∀ username r, c.username = some username → n.switchedRoom c room = some r →
      ∀ m, m = n.moveTo c username r → Emits P m (m.finishSwitchRoom c.id r
        (m.store.cachedHistory r env.config.historyLimit)).1)
    (herror : c.username.isSome = true →
      ((validRoom? room).filter fun r ↦ n.rooms.contains r) = none →
        P c.id (.error "no_such_room" (lit "Room \"" ++ room.toStr env.lib ++
          lit "\" doesn't exist."))) :
    Emits P n (n.handleSwitchRoom env c room).1 := by
  rw [Node.handleSwitchRoom]
  split
  · exact .refl n
  · rename_i username husername
    split
    · rename_i hnone
      exact .send n (herror (by rw [husername]; rfl) hnone)
    · rename_i r hr
      split
      · exact .refl n
      · rename_i hne
        have hroom : n.switchedRoom c room = some r := by
          rw [switchedRoom, husername, Option.isSome_some, if_pos rfl, hr, Option.filter_some,
            if_pos (decide_eq_true hne)]
        exact (hmove username r husername hroom).trans
          (.awaitHistory (hfinish username r husername hroom _ rfl))

theorem Emits.handleCreateRoom (n : Node) (c : Client) (data : Obj)
    (hmade : c.username.isSome = true → isValidRoomName (.str (createdRoom env data)) = true →
      n.rooms.contains (createdRoom env data) = false →
        ∀ id', P id' (.roomList (n.ensureRoom (createdRoom env data)).listRooms))
    (hswitch : isValidRoomName (.str (createdRoom env data)) = true →
      ∀ m, m = n.announceRoom (createdRoom env data) →
        Emits P m (m.handleSwitchRoom env c (.str (createdRoom env data))).1)
    (herror : c.username.isSome = true →
      isValidRoomName (.str (createdRoom env data)) = false → P c.id
        (.error "bad_room_name" (lit "Room names: 1-24 chars, letters/numbers/_/- only."))) :
    Emits P n (n.handleCreateRoom env c data).1 := by
  rw [Node.handleCreateRoom]
  split
  · exact .refl n
  · rename_i username husername
    have hsome : c.username.isSome = true := by rw [husername]; rfl
    simp only
    split
    · rename_i hvalid
      refine Emits.trans ?_ (hswitch hvalid _ rfl)
      have hensure : Emits P n (n.ensureRoom (createdRoom env data)) :=
        .of_links (fun _ ↦ rfl) rfl
      split
      · exact hensure
      · rename_i hnew
        exact hensure.trans (.broadcastToAll _ (hmade hsome hvalid (Bool.eq_false_iff.mpr hnew)))
    · rename_i hinvalid
      exact .send n (herror hsome (Bool.eq_false_iff.mpr hinvalid))

/-- What is told when a connection ends: the room of the client is notified, if the client had a
name. -/
theorem Emits.closeConnection (n : Node) (id : Str)
    (hleft : ∀ c username id', n.clientsById.get? id = some c → c.username = some username →
      c.explicitlyJoined = true → ((n.leaveRoom c.room c.id).member? c.room id').isSome = true →
        P id' (.notification (username ++ lit " left #" ++ c.room)
          ((n.leaveRoom c.room c.id).getUsernames c.room) c.room)) :
    Emits P n (n.closeConnection env id) := by
  rw [Node.closeConnection]
  split
  · rename_i c hc
    refine (Emits.updateLink n id (f := fun l ↦ { l with sender := .stopped }) fun _ ↦ rfl).trans ?_
    rw [Node.handleClose]
    split
    · rename_i username husername
      split
      · rename_i hjoined
        exact (Emits.notify (((n.updateLink id fun l ↦ { l with sender := .stopped }).forget env
          c).leaveRoom c.room c.id) fun id' hin ↦
            hleft c username id' hc husername hjoined hin).after rfl rfl
      · exact .of_links (fun _ ↦ rfl) rfl
    · exact .of_links (fun _ ↦ rfl) rfl
  · exact .refl n

theorem Emits.afterHandler {r : Node × Option PyError} (h : Emits P n r.1)
    (hclose : ∀ m e, r = (m, some e) → Emits P m (m.closeConnection env id)) :
    Emits P n (afterHandler env id r) := by
  obtain ⟨m, _ | e⟩ := r
  · exact h
  · exact h.trans (hclose m e rfl)

/-! ## The other handlers

They tell something at once, and in the state that they find. -/

/-- Everybody in the room but the client itself is told that it is typing. -/
theorem Emits.handleTyping (n : Node) (c : Client)
    (h : ∀ username id' m, c.username = some username → n.member? c.room id' = some m →
      id' ≠ c.id → P id' (.typing username c.room)) : Emits P n (n.handleTyping c) := by
  rw [Node.handleTyping]
  split
  · exact .refl n
  · rename_i username husername
    exact .broadcast n fun id' m hm _ hne ↦ h username id' m husername hm fun heq ↦
      hne (congrArg some heq)

/-- What an administrator does: the client that is thrown out is told, the room of one that is muted
is notified, and the administrator is told of an error. -/
theorem Emits.handleModeration (n : Node) (c : Client) (data : Obj) (action : Action)
    (hkick : ∀ moderator target, action = .kick → c.isAdmin = true → c.username = some moderator →
      n.clientNamed env (targetName env (data.get "target")) = some target →
        P target.id (.kicked moderator))
    (hmute : ∀ moderator target verb id', action.verb? = some verb → c.isAdmin = true →
      c.username = some moderator →
        n.clientNamed env (targetName env (data.get "target")) = some target →
          (n.member? target.room id').isSome = true →
            P id' (.notification (targetName env (data.get "target") ++ verb ++ moderator)
              (n.getUsernames target.room) target.room))
    (hunknown : c.isAdmin = true →
      n.clientNamed env (targetName env (data.get "target")) = none →
        P c.id (.error "user_offline" (targetName env (data.get "target") ++
          lit " is not online.")))
    (hnotAdmin : c.isAdmin = false →
      P c.id (.error "not_admin" (lit "Only moderators can do that."))) :
    Emits P n (n.handleModeration env c data action) := by
  rw [Node.handleModeration]
  split
  · exact .refl n
  · rename_i moderator hmoderator
    split
    · rename_i hadmin
      simp only
      split
      · rename_i hnone
        exact .send n (hunknown hadmin hnone)
      · rename_i target htarget
        have hnotify : ∀ muted verb, action.verb? = some verb →
            Emits P n ((n.updateClient target.id fun t ↦
              { t with muted := muted }).notifyModeration target
                (targetName env (data.get "target")) verb moderator) :=
          fun muted verb hverb ↦ (Emits.notify (n.updateClient target.id fun t ↦
            { t with muted := muted }) fun id' hin ↦
              hmute moderator target verb id' hverb hadmin hmoderator htarget hin).after rfl rfl
        cases action with
        | kick =>
          have htold := hkick moderator target rfl hadmin hmoderator htarget
          exact (Emits.send n htold).trans (.of_links (fun _ ↦ rfl) rfl)
        | mute => exact hnotify true _ rfl
        | unmute => exact hnotify false _ rfl
    · rename_i hadmin
      exact .send n (hnotAdmin (Bool.eq_false_iff.mpr hadmin))

/-- What is told of a message frame: the room gets the message, and the client an
acknowledgement. -/
theorem Emits.handleMessage (n : Node) (c : Client) (data : Obj) (now : ℤ) (uuid : Str)
    (hmessage : ∀ s id' m, frameSubmission env c data now uuid = some s →
      n.member? c.room id' = some m → m.connected = true → s.room = .str c.room →
        P id' (.message s.told))
    (hdelivered : ∀ s, frameSubmission env c data now uuid = some s → filed env now s = true →
      P c.id (.delivered (frameId env data uuid))) :
    Emits P n (n.handleMessage env c data now uuid).1 := by
  rcases handleMessage_outcome env n c data now uuid with
    ⟨-, e, h⟩ | ⟨s, job, hs, hroom, -, ⟨e, -, h⟩ | ⟨store, hput, h⟩⟩ <;> rw [h]
  · exact .refl n
  · exact .refl n
  · have hfiled : filed env now s = true := filed_of_cachePut hput
    have htold : Emits P n ({ n with store := store }.broadcast c.room (.message s.told) none) := by
      refine (Emits.of_links (fun _ ↦ rfl) rfl : Emits P n { n with store := store }).trans ?_
      exact .broadcast _ fun id' m hm hconnected _ ↦ hmessage s id' m hs hm hconnected hroom
    exact (htold.trans (.send _ (hdelivered s hs hfiled))).trans (.of_links (fun _ ↦ rfl) rfl)

theorem Emits.handlePrivateMessage (n : Node) (c : Client) (data : Obj) (now : ℤ) (uuid : Str)
    (hprivate : ∀ username target id', c.username = some username →
      n.usernameToId.get? (env.lib.lower (targetName env (data.get "to"))) = some target →
        id' = c.id ∨ id' = target → P id' (.privateMessage (directMessage uuid username
          (targetName env (data.get "to")) (frameText env (data.get "text")) now)))
    (hoffline : c.username.isSome = true →
      n.usernameToId.get? (env.lib.lower (targetName env (data.get "to"))) = none →
        P c.id (.error "user_offline" (targetName env (data.get "to") ++
          lit " is not online."))) :
    Emits P n (n.handlePrivateMessage env c data now uuid) := by
  rw [Node.handlePrivateMessage]
  split
  · exact .refl n
  · rename_i username husername
    simp only
    split
    · rename_i hnone
      exact .send n (hoffline (by rw [husername]; rfl) hnone)
    · rename_i target htarget
      split
      · exact .refl n
      · rename_i x text htext
        rw [htext] at hprivate
        exact ((Emits.send n (hprivate username target target husername htarget
          (Or.inr rfl))).trans (.send _ (hprivate username target c.id husername htarget
            (Or.inl rfl)))).trans (.of_links (fun _ ↦ rfl) rfl)

/-- Everybody is told that the client is back, if it was away. -/
theorem Emits.noteActivity (n : Node) (id : Str) (c : Client) (now : ℤ)
    (h : c.away = true → ∀ id', P id' (.presence c.username "online")) :
    Emits P n (n.noteActivity id c now) := by
  rw [Node.noteActivity]
  split
  · rename_i haway
    exact (Emits.of_links (fun _ ↦ rfl) rfl : Emits P n (n.updateClient id (·.activeAt now))).trans
      (.broadcastToAll _ (h haway))
  · exact .of_links (fun _ ↦ rfl) rfl

/-- A message that comes in is told to the members of its room. -/
theorem Emits.tryBroadcast (n : Node) (room : Value) {f : Frame}
    (h : ∀ r id' m, room = .str r → n.member? r id' = some m → m.connected = true → P id' f) :
    Emits P n (n.tryBroadcast room f).1 := by
  rcases tryBroadcast_spec n room f with heq | ⟨r, hr, heq⟩ <;> rw [heq]
  · exact .refl n
  · exact .broadcast n fun id' m hm hconnected _ ↦ h r id' m hr hm hconnected

theorem Emits.postMessage (n : Node) (body : Body) (query : Obj) (now : ℤ) (uuid : Str)
    (h : ∀ s r id' m, postSubmission env body query now uuid = some s → s.room = .str r →
      n.member? r id' = some m → m.connected = true → P id' (.message s.told)) :
    Emits P n (n.postMessage env body query now uuid).1 := by
  rcases postMessage_outcome env n body query now uuid with
    heq | ⟨s, store, n₁, hs, -, rfl, hcases⟩
  · rw [heq]
    exact .refl n
  · have htold : Emits P n ({ n with store := store }.tryBroadcast s.room (.message s.told)).1 :=
      (Emits.of_links (fun _ ↦ rfl) rfl : Emits P n { n with store := store }).trans
        (.tryBroadcast _ s.room fun r id' m hr hm ↦ h s r id' m hs hr hm)
    rcases hcases with heq | ⟨job, -, heq⟩ <;> rw [heq]
    · exact htold
    · exact htold.trans (.of_links (fun _ ↦ rfl) rfl)

theorem Emits.receiveItem (n : Node) (item : Value) (now : ℤ)
    (h : ∀ s r id' m, itemSubmission env now item = some s → s.room = .str r →
      n.member? r id' = some m → m.connected = true → P id' (.message s.told)) :
    Emits P n (n.receiveItem env item now).1 := by
  rw [Node.receiveItem]
  split
  · exact .refl n
  · rename_i room msg hitem
    split
    · exact .refl n
    · rename_i store hstore
      refine (Emits.of_links (fun _ ↦ rfl) rfl : Emits P n { n with store := store }).trans ?_
      refine .tryBroadcast _ room fun r id' m hr hm hconnected ↦ ?_
      exact h ⟨room, msg, msg, none⟩ r id' m (by rw [itemSubmission, hitem]; rfl) hr hm hconnected

/-- Each item of a gossip request is told to its room. -/
theorem Emits.receiveGossip (n : Node) (data : Option Value) (now : ℤ)
    (h : ∀ s r id' m, s ∈ (Event.gossip data now).submissions env n → s.room = .str r →
      n.member? r id' = some m → m.connected = true → P id' (.message s.told)) :
    Emits P n (n.receiveGossip env data now) := by
  cases data with
  | none => exact .refl n
  | some v =>
    have hrun : Emits P n (n.receiveGossip env (some v) now) ∧
        (n.receiveGossip env (some v) now).rooms = n.rooms := by
      refine receiveItems_preserves (I := fun n' ↦ Emits P n n' ∧ n'.rooms = n.rooms)
        (fun item hitem n' hn' ↦
          ⟨hn'.1.trans (.receiveItem n' item now fun s r id' m hs hr hm ↦ ?_),
            (records_receiveItem env n' item now).1.trans hn'.2⟩) n ⟨.refl n, rfl⟩
      rw [member?, hn'.2] at hm
      exact h s r id' m (List.mem_filterMap.mpr ⟨item, hitem, hs⟩) hr hm
    exact hrun.1

end Frames

/-! ## Noting the activity of a client

Every frame that comes in first notes that its client is active.  That is an update of the
records, so all that a cause says about rooms holds before and after it. -/

/-- The rooms know nothing of activity. -/
theorem member?_noteActivity (n : Node) (id : Str) (c : Client) (now : ℤ) :
    (n.noteActivity id c now).member? = n.member? :=
  (SamePlaces.noteActivity n id c now).member

/-- The names in a room are read off the rooms. -/
theorem getUsernames_congr (h : n'.rooms = n.rooms) (room : Str) :
    n'.getUsernames room = n.getUsernames room := by
  rw [getUsernames, getUsernames, h]

theorem switchedRoom_congr (h : n'.rooms = n.rooms) (c : Client) (room : Value) :
    n'.switchedRoom c room = n.switchedRoom c room := by
  rw [switchedRoom, switchedRoom, h]

theorem rooms_ensureRoom_congr (h : n'.rooms = n.rooms) (room : Str) :
    (n'.ensureRoom room).rooms = (n.ensureRoom room).rooms := by
  simp only [ensureRoom, setRooms, h]

/-- Announcing a room makes it, if it is new. -/
theorem rooms_announceRoom (n : Node) (room : Str) :
    (n.announceRoom room).rooms = (n.ensureRoom room).rooms := by
  rw [announceRoom]
  split <;> rfl

/-- A room that has been made is there. -/
theorem contains_announceRoom (n : Node) (room : Str) :
    (n.announceRoom room).rooms.contains room = true := by
  rw [rooms_announceRoom]
  simp only [ensureRoom, setRooms]
  split
  · assumption
  · exact (Dict.contains_iff _).mpr (Dict.mem_keys_of_get? (Dict.get?_set_self ..))

/-- The client that a name leads to keeps its id and its room when the activity of one is noted. -/
theorem clientNamed_noteActivity (env : Env) (n : Node) (id : Str) (c : Client) (now : ℤ)
    (name : Str) :
    ∃ f : Client → Client, (∀ t, (f t).id = t.id ∧ (f t).room = t.room) ∧
      (n.noteActivity id c now).clientNamed env name = (n.clientNamed env name).map f := by
  have hget : ∀ key, (n.noteActivity id c now).clientsById.get? key =
      (n.clientsById.get? key).map fun c ↦ if key = id then c.activeAt now else c := by
    intro key
    rw [noteActivity]
    split <;> exact get?_updateClient n id key _
  have hnames : (n.noteActivity id c now).usernameToId = n.usernameToId :=
    (Quiet.noteActivity n id c now).usernameToId
  rw [clientNamed, clientNamed, hnames]
  cases n.usernameToId.get? (env.lib.lower name) with
  | none => exact ⟨fun t ↦ t, fun _ ↦ ⟨rfl, rfl⟩, rfl⟩
  | some key =>
    refine ⟨fun t ↦ if key = id then t.activeAt now else t, fun t ↦ ?_, hget key⟩
    split <;> exact ⟨rfl, rfl⟩

/-- What is emitted when the order of an administrator is handled. -/
theorem Emits.receive_moderation {data : Obj} {now : ℤ} {uuid : Str} {c : Client}
    {action : Action} (hc : n.clientsById.get? c.id = some c)
    (haction : moderation? data = some action) :
    Emits (Cause env n (.frame c.id (.dict data) now uuid)) (n.noteActivity c.id c now)
      ((n.noteActivity c.id c now).handleModeration env (c.activeAt now) data action) := by
  obtain ⟨f, hf, hnamed⟩ := clientNamed_noteActivity env n c.id c now
    (targetName env (data.get "target"))
  refine .handleModeration _ _ _ _ (fun moderator t hkick hadmin hmoderator ht ↦ ?_)
    (fun moderator t verb id' hverb hadmin hmoderator ht hin ↦ ?_) (fun hadmin ht ↦ ?_)
    fun hadmin ↦ .notAdmin rfl haction hc hadmin
  · rw [hnamed] at ht
    obtain ⟨t₀, ht₀, rfl⟩ := Option.map_eq_some_iff.mp ht
    exact .kicked ⟨type_of_kick (hkick ▸ haction), now, uuid, rfl⟩ hc hadmin hmoderator ht₀
      (hf t₀).1.symm
  · rw [hnamed] at ht
    obtain ⟨t₀, ht₀, rfl⟩ := Option.map_eq_some_iff.mp ht
    rw [member?_noteActivity, (hf t₀).2] at hin
    rw [getUsernames_congr (rooms_noteActivity n c.id c now), (hf t₀).2]
    exact .muted rfl haction hverb hc hadmin hmoderator ht₀ hin
  · rw [hnamed, Option.map_eq_none_iff] at ht
    exact .unknown rfl haction hc hadmin ht

/-! ## Events

The handlers of an event are put together, and their hypotheses discharged with the constructors
of `Cause`. -/

/-- A client that is moved tells the rooms that it leaves and enters, and is told the history. -/
theorem Emits.moving {a : Event} {c : Client} {m : Node} {username room : Str}
    (ha : a.Moving env n c username m room) :
    Emits (Cause env n a) m (m.moveTo c username room) ∧
      ∀ m', m' = m.moveTo c username room → Emits (Cause env n a) m' (m'.finishSwitchRoom c.id room
        (m'.store.cachedHistory room env.config.historyLimit)).1 := by
  refine ⟨.moveTo m c username room fun id' hin ↦ .moved ha hin, ?_⟩
  rintro m' rfl
  exact .finishSwitchRoom _ _ (.roomSwitched (.atOnce ha)) fun c' id' hc' hin ↦
    .entered (Or.inr (.atOnce ha)) hc' hin

/-- What is emitted when a frame about rooms is handled. -/
theorem Emits.receive_switchRoom {data : Obj} {now : ℤ} {uuid : Str} {c : Client}
    (hc : n.clientsById.get? c.id = some c) (htype : data.get "type" = .str (lit "switch_room")) :
    Emits (Cause env n (.frame c.id (.dict data) now uuid)) (n.noteActivity c.id c now)
      ((n.noteActivity c.id c now).handleSwitchRoom env (c.activeAt now) (data.get "room")).1 := by
  have hrooms := rooms_noteActivity n c.id c now
  have hmoving : ∀ username r, c.username = some username →
      (n.noteActivity c.id c now).switchedRoom (c.activeAt now) (data.get "room") = some r →
        (Event.frame c.id (.dict data) now uuid).Moving env n (c.activeAt now) username
          (n.noteActivity c.id c now) r := fun username r husername hr ↦
    .switch htype hc husername ((switchedRoom_congr hrooms c (data.get "room")).symm.trans hr)
  refine .handleSwitchRoom _ _ _ (fun username r husername hr ↦
    (Emits.moving (hmoving username r husername hr)).1) (fun username r husername hr ↦
      (Emits.moving (hmoving username r husername hr)).2) fun husername hnone ↦ ?_
  rw [hrooms] at hnone
  exact .noSuchRoom ⟨htype, now, uuid, rfl⟩ hc husername hnone

/-- What is emitted when a room is created: the rooms, to everybody, and what a switch emits. -/
theorem Emits.receive_createRoom {data : Obj} {now : ℤ} {uuid : Str} {c : Client}
    (hc : n.clientsById.get? c.id = some c) (htype : data.get "type" = .str (lit "create_room")) :
    Emits (Cause env n (.frame c.id (.dict data) now uuid)) (n.noteActivity c.id c now)
      ((n.noteActivity c.id c now).handleCreateRoom env (c.activeAt now) data).1 := by
  have hrooms := rooms_noteActivity n c.id c now
  refine .handleCreateRoom _ _ _ (fun husername hvalid hnew id' ↦ ?_) (fun hvalid m hm ↦ ?_)
    fun husername hinvalid ↦ .badRoomName ⟨htype, now, uuid, rfl⟩ hc husername hinvalid
  · rw [hrooms] at hnew
    rw [listRooms, rooms_ensureRoom_congr hrooms]
    exact .roomMade ⟨htype, now, uuid, rfl⟩ hc husername hvalid hnew
  · have hmoving : ∀ username r, c.username = some username →
        m.switchedRoom (c.activeAt now) (.str (createdRoom env data)) = some r →
          (Event.frame c.id (.dict data) now uuid).Moving env n (c.activeAt now) username m r := by
      intro username r husername hr
      rw [switchedRoom_congr (n := n.ensureRoom (createdRoom env data))
        (hm ▸ (rooms_announceRoom _ _).trans (rooms_ensureRoom_congr hrooms _))] at hr
      exact hm ▸ .create htype hc husername hvalid hr
    refine .handleSwitchRoom _ _ _ (fun username r husername hr ↦
      (Emits.moving (hmoving username r husername hr)).1) (fun username r husername hr ↦
        (Emits.moving (hmoving username r husername hr)).2) fun _ hnone ↦ ?_
    -- the room has just been made
    rw [validRoom?, if_pos hvalid, Option.filter_some, hm, if_pos (contains_announceRoom _ _)]
      at hnone
    simp at hnone

/-- What is emitted when a connection is closed. -/
theorem Emits.closing {a : Event} {m : Node} {id : Str} (ha : a.Closing env n id m) :
    Emits (Cause env n a) m (m.closeConnection env id) :=
  .closeConnection m id fun _ _ _ hc husername hjoined hin ↦ .left ha hc husername hjoined hin

/-- What is emitted when the frame of a client is handled. -/
theorem Emits.receive {id : Str} {data : Value} {now : ℤ} {uuid : Str} (hn : Housed n)
    (h : n.receive env id data now uuid = some n') :
    Emits (Cause env n (.frame id data now uuid)) n n' := by
  rw [Node.receive] at h
  split at h
  · rename_i c hc
    obtain rfl : c.id = id := hn.id id _ (placeOf_of_get? hc)
    split at h
    · simp at h
    · have hactive : Emits (Cause env n (.frame c.id data now uuid)) n
          (n.noteActivity c.id c now) := .noteActivity n c.id c now fun haway id' ↦
        .online rfl hc haway
      have hmember := member?_noteActivity n c.id c now
      have hnames : (n.noteActivity c.id c now).usernameToId = n.usernameToId :=
        (Quiet.noteActivity n c.id c now).usernameToId
      split at h
      · rename_i fields
        obtain ⟨r, hr, rfl⟩ := Option.map_eq_some_iff.mp h
        refine hactive.trans (.afterHandler ?_ fun m e hraised ↦
          .closing (.raised hc (hr.trans (congrArg some hraised))))
        by_cases hminor : ∀ t ∈ majorTypes, Obj.get fields "type" ≠ .str t
        · rcases dispatch_minor hr hminor with ⟨type, rfl⟩ | rfl | ⟨action, haction, rfl⟩
          · refine .handleTyping _ _ fun username id' m hname hm hne ↦ ?_
            rw [hmember] at hm
            exact .typing (c := c) ⟨type, now, uuid, rfl⟩ hc hname hm hne
          · exact .refl _
          · exact .receive_moderation hc haction
        cases handled hr with
        | join type hjoin =>
          refine .handleJoin hjoin fun username hnew hname m hm ↦ ?_
          rw [hnames] at hname
          have ha : (Event.frame c.id (.dict fields) now uuid).Joining env n c.id m
              (requestedRoom env fields) _ := .atOnce type hc hnew hname hm
          exact .finishJoin m _ (fun c' hc' ↦ .welcome ha hc') (.roomList ha)
            fun c' id' hc' hin ↦ .entered (Or.inl ha) hc' hin
        | message type =>
          have hsub : ∀ s, frameSubmission env (c.activeAt now) fields now uuid = some s →
              frameSubmission env c fields now uuid = some s := fun s hs ↦ hs
          refine .handleMessage _ _ _ _ _ (fun s id' m hs hm hconnected hroom ↦ ?_)
            fun s hs hfiled ↦ ?_
          · rw [hmember] at hm
            refine .message (s := s) (r := c.room) (m := m) ?_ hroom hm hconnected
            rw [Event.submissions, if_pos (by rw [type]; rfl), hc, Option.bind_some, hsub s hs]
            exact List.mem_singleton_self s
          · refine .delivered (s := s) rfl ?_
            rw [Event.completed, hc, Option.bind_some, completedFrame, if_pos (by rw [type]; rfl),
              hsub s hs, Option.filter_some, if_pos hfiled]
        | privateMessage type =>
          refine .handlePrivateMessage _ _ _ _ _ (fun username target id' hname htarget hid ↦ ?_)
            fun husername hnone ↦ ?_
          · rw [hnames] at htarget
            exact .privateMessage rfl type hc hname htarget hid
          · rw [hnames] at hnone
            exact .offline ⟨type, now, uuid, rfl⟩ hc husername hnone
        | switchRoom type => exact .receive_switchRoom hc type
        | createRoom type => exact .receive_createRoom hc type
        | typing type => exact absurd type hminor
        | moderation type action => exact absurd type hminor
        | ignored type => exact absurd type hminor
      · rename_i hdata
        obtain rfl := Option.some.inj h
        exact hactive.trans (.closing (.malformed hc hdata))
  · simp at h

/-! ## Events without a frame

A handler goes on, a loop sends, the sweep comes to a client, the server stops. -/

/-- What is emitted when the handler of a client goes on. -/
theorem Emits.resume {id : Str} (h : n.resume env id = some n') :
    Emits (Cause env n (.resume id)) n n' := by
  have hwait : Emits (Cause env n (.resume id)) n
      (n.updateClient id fun c ↦ { c with waiting := none }) := .of_links (fun _ ↦ rfl) rfl
  obtain ⟨c, hc, hcases⟩ := resume_outcome h
  have hwaiting : n.waitingAt id = c.waiting := by
    rw [waitingAt, hc]
    rfl
  rcases hcases with ⟨room, history, hw, rfl⟩ | ⟨room, history, hw, rfl⟩ | ⟨w, e, hw, he, rfl⟩
  · have ha : (Event.resume id).Joining env n id _ room history := .waited (hwaiting.trans hw)
    exact hwait.trans (.afterHandler (.finishJoin _ _ (fun c' hc' ↦ .welcome ha hc')
      (.roomList ha) fun c' id' hc' hin ↦ .entered (Or.inl ha) hc' hin)
        fun m e hraised ↦ .closing (.joinRaised (hwaiting.trans hw) hraised))
  · have ha : (Event.resume id).Switching env n id _ room history := .waited (hwaiting.trans hw)
    exact hwait.trans (.afterHandler (.finishSwitchRoom _ _ (.roomSwitched ha)
      fun c' id' hc' hin ↦ .entered (Or.inr ha) hc' hin)
        fun m e hraised ↦ .closing (.switchRaised (hwaiting.trans hw) hraised))
  · exact hwait.trans (.closing (.queryRaised (hwaiting.trans hw) he))

/-- What is emitted in the background: somebody is said to be away, or the room of a client whose
connection has ended is notified. -/
theorem Emits.background {b : Background} (hn : AwayOnly n) (h : n.background env b = some n') :
    Emits (Cause env n (.background b)) n n' := by
  cases background_outcome h with
  | sweepPresence =>
    refine ⟨fun id ↦ ⟨[], by rw [List.append_nil]; rfl, by simp⟩, fun p hp ↦ ?_⟩
    rcases List.mem_append.mp hp with hp | hp
    · exact Or.inl hp
    · obtain ⟨t, -, rfl⟩ := List.mem_map.mp hp
      exact Or.inr ⟨_, rfl⟩
  | @runScheduled id f rest hscheduled =>
    refine ⟨fun id' ↦ ?_, fun p hp ↦ Or.inl (hscheduled ▸ List.mem_cons_of_mem _ hp)⟩
    by_cases hid : id' = id
    · subst hid
      refine ⟨[f], ?_, fun g hg ↦ ?_⟩
      · simp only [Node.updateLink, Function.update_self, Link.putNowait]
      · obtain ⟨u, rfl : f = _⟩ := hn (id', f) (hscheduled ▸ List.mem_cons_self)
        rw [List.mem_singleton.mp hg]
        exact .away rfl hscheduled
    · refine ⟨[], ?_, by simp⟩
      simp only [Node.updateLink, Function.update_of_ne hid, List.append_nil]
  | senderTake => exact .updateLink n _ fun _ ↦ rfl
  | sent => exact .updateLink n _ fun _ ↦ rfl
  | @sendFailed id =>
    exact (Emits.updateLink (n.closeWs id) id (f := fun l ↦ { l with sender := .stopped })
      fun _ ↦ rfl).after rfl rfl
  | directDone => exact .updateLink n _ fun _ ↦ rfl
  | shutdown =>
    exact shutdown_preserves (I := Emits (Cause env n (.background .shutdown)) n)
      (fun m id hm ↦ hm.trans (.of_links (fun _ ↦ rfl) rfl))
      (.broadcastToAll n fun _ ↦ .systemShutdown rfl)

/-- **Nothing is emitted without a cause.**  The link of a client that connects is a new one. -/
theorem emits_step {a : Event} (hn : Housed n) (haway : AwayOnly n) (h : n.step env a = some n') :
    (∃ id queryParams now, a = .connect id queryParams now ∧ (n'.links id).emitted = [] ∧
        (∀ id', id' ≠ id → n'.links id' = n.links id') ∧ n'.scheduled = n.scheduled) ∨
      Emits (Cause env n a) n n' := by
  cases a with
  | connect id queryParams now =>
    obtain ⟨-, rfl⟩ := step_connect h
    refine Or.inl ⟨id, queryParams, now, rfl, ?_, fun id' hid ↦ ?_, rfl⟩
    · simp [handleConnection, joinRoom, Link.empty]
    · simp [handleConnection, joinRoom, Function.update_of_ne hid]
  | frame id data now uuid => exact Or.inr (.receive hn h)
  | fetchHistory id now docs =>
    obtain ⟨c, w, room, ready, -, -, -, -, rfl⟩ := fetchHistory_spec h
    exact Or.inr (.of_links (fun _ ↦ rfl) rfl)
  | resume id => exact Or.inr (.resume h)
  | disconnect id =>
    obtain ⟨c, -, -, rfl⟩ := step_disconnect h
    exact Or.inr (.closing .disconnect)
  | post body query now uuid =>
    obtain rfl := Option.some.inj h
    refine Or.inr (.postMessage n body query now uuid fun s r id' m hs hr hm hconnected ↦ ?_)
    refine .message (s := s) ?_ hr hm hconnected
    rw [Event.submissions, hs]
    exact List.mem_singleton_self s
  | gossip data now =>
    obtain rfl := Option.some.inj h
    exact Or.inr (.receiveGossip n data now fun s r id' m hs hr hm hconnected ↦
      .message hs hr hm hconnected)
  | feed room limit now =>
    obtain rfl := Option.some.inj h
    cases room <;> exact Or.inr (.of_links (fun _ ↦ rfl) rfl)
  | runJob i now nonce =>
    obtain ⟨job, -, rfl⟩ := Option.map_eq_some_iff.mp h
    cases job <;> exact Or.inr (.of_links (fun _ ↦ rfl) rfl)
  | warmCache now docs =>
    obtain rfl := Option.some.inj h
    exact Or.inr (.of_links (fun _ ↦ rfl) rfl)
  | publicKey username =>
    obtain rfl := Option.some.inj h
    exact Or.inr (.of_links (fun _ ↦ rfl) rfl)
  | privateKey username =>
    obtain rfl := Option.some.inj h
    exact Or.inr (.of_links (fun _ ↦ rfl) rfl)
  | background b => exact Or.inr (.background haway h)

/-- What other threads have scheduled always says that somebody is away. -/
theorem awayOnly_of_reachable (h : (system env).Reachable n) : AwayOnly n := by
  refine h.invariant_of (J := Housed) (fun n hn ↦ housed_of_reachable hn) ?_ ?_
  · rintro n rfl
    exact initial_of env (fun p hp ↦ absurd hp List.not_mem_nil) fun _ _ hn ↦ hn
  · intro n a n' hhoused hn hstep
    rcases emits_step hhoused hn hstep with ⟨-, -, -, -, -, -, hscheduled⟩ | hemits
    · exact fun p hp ↦ hn p (hscheduled ▸ hp)
    · exact hemits.awayOnly hn

/-- **Every frame has a cause**: an event of the run, in the state that it met. -/
theorem caused {l : List Event} (h : (system env).Trace (initial env) l n) {id : Str} {f : Frame}
    (hf : f ∈ (n.links id).emitted) : ∃ l₁ a l₂ n₁ n₂, l = l₁ ++ a :: l₂ ∧
      (system env).Trace (initial env) l₁ n₁ ∧ n₁.step env a = some n₂ ∧
      Cause env n₁ a id f := by
  refine h.occurs (Q := fun n f ↦ f ∈ (n.links id).emitted) (P := fun f n a ↦ Cause env n a id f)
    ?_ ?_ hf
  · intro f
    rw [show ((initial env).links id).emitted = [] from
      initial_of env (I := fun n ↦ (n.links id).emitted = []) rfl fun _ _ h ↦ h]
    exact List.not_mem_nil
  · intro l n a n' hl hstep f hf
    have hn := housed_of_reachable (hl.reachable rfl)
    have haway := awayOnly_of_reachable (hl.reachable rfl)
    rcases emits_step hn haway hstep with ⟨id₀, queryParams, now, -, hnew, hothers, -⟩ | hemits
    · by_cases hid : id = id₀
      · subst hid
        rw [hnew] at hf
        exact absurd hf List.not_mem_nil
      · exact Or.inl (hothers id hid ▸ hf)
    · obtain ⟨fs, hfs, hcause⟩ := hemits.emitted id
      rw [hfs] at hf
      rcases List.mem_append.mp hf with hf | hf
      · exact Or.inl hf
      · exact Or.inr (hl.occurs_last hstep (hcause f hf))

/-- The message that a subscriber has been sent was caused by the request that brought it. -/
theorem caused_postRun : ∃ n f l₁ a l₂ n₁ n₂,
    (system plainEnv).Trace (initial plainEnv) postRun n ∧ f ∈ (n.links (lit "1")).emitted ∧
      postRun = l₁ ++ a :: l₂ ∧ n₁.step plainEnv a = some n₂ ∧
        Cause plainEnv n₁ a (lit "1") f := by
  have hexec : (System.exec (step plainEnv) (initial plainEnv) postRun).map
      (fun n ↦ (n.links (lit "1")).emitted.isEmpty) = some false := by
    decide +kernel
  obtain ⟨n, hn, hempty⟩ := Option.map_eq_some_iff.mp hexec
  obtain ⟨f, hf⟩ := List.exists_mem_of_ne_nil (n.links (lit "1")).emitted fun h ↦ by
    simp [h] at hempty
  have htrace : (system plainEnv).Trace (initial plainEnv) postRun n := System.trace_of_exec hn
  obtain ⟨l₁, a, l₂, n₁, n₂, hl, -, hstep, hcause⟩ := caused htrace hf
  exact ⟨n, f, l₁, a, l₂, n₁, n₂, htrace, hf, hl, hstep, hcause⟩

end Node
end GroupChat
