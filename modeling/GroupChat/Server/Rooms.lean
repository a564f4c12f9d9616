import GroupChat.Server.Changes

/-!
# Who is in which room

A node keeps the room of a client twice: in the record of the client, and in the map of the members
of each room.  `handle_connection`, `_handle_join`, `_handle_switch_room` (also on behalf of
`_handle_create_room`) and `_handle_close` change both.

* `SamePlaces n n'`: no client and no member record has changed in what is kept twice.  All other
  handlers are of this kind.
* `Housed` is the invariant: every member record belongs to a client in that room, and every client
  has one in its room.
* `housed_of_reachable`: it holds in every reachable state.  Hence (`membership`) a client id is a
  member of some room exactly if there is a client, and then of its room only, under its name.

The handlers are sorted by what they do to places.  Most of them move nobody; the others either
put one client into one room (`Housed.settle`) or take one client out (`Housed.evict`), and these
two lemmas are the whole argument.
-/

set_option autoImplicit false

namespace GroupChat

open Transition

/-! ## Places

A place is a client id with a room and a name.  It occurs in the record of the client, and the
room and the name again in the member record, so the invariant is that the two copies are
equal. -/

/-- What the record of a client says about its place. -/
structure Place where
  id : Str
  room : Str
  username : Option Str

/-- The place of a client. -/
def Client.place (c : Client) : Place := ⟨c.id, c.room, c.username⟩

namespace Node

/-- The record of a client in a room. -/
def member? (n : Node) (room id : Str) : Option Member :=
  (n.rooms.get? room).bind fun members ↦ members.get? id

/-- The place of the client with an id. -/
def placeOf (n : Node) (id : Str) : Option Place := (n.clientsById.get? id).map Client.place

/-- Nobody has entered or left a room. -/
structure SamePlaces (n n' : Node) : Prop where
  member : n'.member? = n.member?
  place : n'.placeOf = n.placeOf

/-- The rooms and the records of the clients belong together. -/
structure Housed (n : Node) : Prop where
  id : ∀ id p, n.placeOf id = some p → p.id = id
  client : ∀ room id m, n.member? room id = some m →
    ∃ p, n.placeOf id = some p ∧ p.room = room ∧ ∀ u, p.username = some u → m.username = u
  member : ∀ id p, n.placeOf id = some p → ∃ m, n.member? p.room id = some m

variable {n n' n'' : Node}

/-- Nobody has moved. -/
theorem SamePlaces.refl (n : Node) : SamePlaces n n := ⟨rfl, rfl⟩

/-- If nobody moves in two changes then nobody moves in both together. -/
theorem SamePlaces.trans (h : SamePlaces n n') (h' : SamePlaces n' n'') : SamePlaces n n'' :=
  ⟨h'.member.trans h.member, h'.place.trans h.place⟩

/-- The invariant is about places only. -/
theorem Housed.of_samePlaces (h : Housed n) (hs : SamePlaces n n') : Housed n' := by
  obtain ⟨hid, hclient, hmember⟩ := h
  exact ⟨hs.place ▸ hid, hs.place ▸ hs.member ▸ hclient, hs.place ▸ hs.member ▸ hmember⟩

/-! ## Handlers that move nobody

Sending frames, storing messages and noting activity leave every place as it is.  There is one
lemma for each primitive and for each handler that is made of such primitives, down to the
activities in the background. -/

/-- A change of neither the rooms nor the records. -/
theorem SamePlaces.of_eq (hrooms : n'.rooms = n.rooms) (hclients : n'.clientsById = n.clientsById) :
    SamePlaces n n' := by
  refine ⟨?_, ?_⟩
  · funext room id
    rw [member?, member?, hrooms]
  · funext id
    rw [placeOf, placeOf, hclients]

/-- A record is edited in what is not its place. -/
theorem SamePlaces.updateClient (n : Node) (id : Str) {f : Client → Client}
    (hf : ∀ c, (f c).place = c.place) : SamePlaces n (n.updateClient id f) := by
  refine ⟨rfl, funext fun id' ↦ ?_⟩
  rw [placeOf, placeOf, get?_updateClient, Option.map_map]
  refine congrArg (Option.map · _) (funext fun c ↦ ?_)
  simp only [Function.comp_apply]
  split
  · exact hf c
  · rfl

theorem SamePlaces.closeWs (n : Node) (id : Str) : SamePlaces n (n.closeWs id) :=
  .updateClient n id fun _ ↦ rfl

/-- Frames move nobody. -/
theorem SamePlaces.deliver (n : Node) (way : Str → Option Bool) (f : Frame) :
    SamePlaces n (n.deliver way f) := .of_eq rfl rfl

theorem SamePlaces.send (n : Node) (id : Str) (f : Frame) : SamePlaces n (n.send id f) :=
  .of_eq rfl rfl

theorem SamePlaces.sendError (n : Node) (id : Str) (code : String) (text : Str) :
    SamePlaces n (n.sendError id code text) := .of_eq rfl rfl

theorem SamePlaces.broadcast (n : Node) (room : Str) (f : Frame) (exclude : Option Str) :
    SamePlaces n (n.broadcast room f exclude) := .of_eq rfl rfl

theorem SamePlaces.broadcastToAll (n : Node) (f : Frame) : SamePlaces n (n.broadcastToAll f) :=
  .of_eq rfl rfl

theorem SamePlaces.setStore (n : Node) (store : Store) :
    SamePlaces n { n with store := store } := .of_eq rfl rfl

theorem SamePlaces.noteActivity (n : Node) (id : Str) (c : Client) (now : ℤ) :
    SamePlaces n (n.noteActivity id c now) := by
  have h : SamePlaces n (n.updateClient id (·.activeAt now)) := .updateClient n id fun _ ↦ rfl
  rw [Node.noteActivity]
  split
  · exact h.trans (.broadcastToAll _ _)
  · exact h

theorem SamePlaces.finishJoin (n : Node) (id room : Str) (history : List Obj) :
    SamePlaces n (n.finishJoin id room history).1 := by
  rcases n.finishJoin_outcome id room history with
    ⟨e, h, -⟩ | ⟨username, isAdmin, users, online, text, rooms, h⟩ <;> rw [h]
  · exact .refl n
  · exact .of_eq rfl rfl

theorem SamePlaces.finishSwitchRoom (n : Node) (id room : Str) (history : List Obj) :
    SamePlaces n (n.finishSwitchRoom id room history).1 := by
  rcases n.finishSwitchRoom_outcome id room history with ⟨e, h, -⟩ | ⟨users, text, h⟩ <;> rw [h]
  · exact .refl n
  · exact .of_eq rfl rfl

theorem SamePlaces.awaitHistory {env : Env} (n : Node) (id room : Str) (wait : Waiting)
    {finish : Node → List Obj → Node × Option PyError}
    (hfinish : ∀ history, SamePlaces n (finish n history).1) :
    SamePlaces n (n.awaitHistory env id room wait finish).1 := by
  rw [Node.awaitHistory]
  split
  · exact hfinish _
  · exact .updateClient n id fun _ ↦ rfl

/-- Submitting a message moves nobody. -/
theorem SamePlaces.tryBroadcast (n : Node) (room : Value) (f : Frame) :
    SamePlaces n (n.tryBroadcast room f).1 := by
  rcases tryBroadcast_spec n room f with h | ⟨r, -, h⟩
  · rw [h]
    exact .refl n
  · rw [h]
    exact .broadcast n r f none

/-! ## Messages and the background

The handlers for messages, moderation, requests and gossip, and all that goes on in the
background. -/

theorem SamePlaces.handleMessage (env : Env) (n : Node) (c : Client) (data : Obj) (now : ℤ)
    (uuid : Str) : SamePlaces n (n.handleMessage env c data now uuid).1 := by
  rcases handleMessage_outcome env n c data now uuid with
    ⟨-, e, h⟩ | ⟨s, job, -, -, -, ⟨e, -, h⟩ | ⟨store, -, h⟩⟩ <;> rw [h]
  · exact .refl n
  · exact .refl n
  · exact .of_eq rfl rfl

theorem SamePlaces.handlePrivateMessage (env : Env) (n : Node) (c : Client) (data : Obj) (now : ℤ)
    (uuid : Str) : SamePlaces n (n.handlePrivateMessage env c data now uuid) := by
  rcases handlePrivateMessage_outcome env n c data now uuid with
    h | ⟨code, text, h⟩ | ⟨username, targetId, -, -, h⟩ <;> rw [h]
  · exact .refl n
  · exact .sendError n _ _ _
  · exact .of_eq rfl rfl

theorem SamePlaces.handleTyping (n : Node) (c : Client) : SamePlaces n (n.handleTyping c) := by
  rw [Node.handleTyping]
  split
  · exact .refl n
  · exact .broadcast n _ _ _

/-- A kicked client is still in its room until its connection is closed. -/
theorem SamePlaces.handleModeration (env : Env) (n : Node) (c : Client) (data : Obj)
    (action : Action) : SamePlaces n (n.handleModeration env c data action) := by
  rcases handleModeration_outcome env n c data action with
    h | ⟨code, text, h⟩ | ⟨id, moderator, h⟩ | ⟨id, muted, room, text, users, h⟩ <;> rw [h]
  · exact .refl n
  · exact .sendError n _ _ _
  · exact (SamePlaces.send n _ _).trans (.closeWs _ _)
  · have hmuted : SamePlaces n (n.updateClient id fun t ↦ { t with muted := muted }) :=
      .updateClient n id fun _ ↦ rfl
    exact hmuted.trans (.broadcast _ _ _ _)

theorem SamePlaces.postMessage (env : Env) (n : Node) (body : Body) (query : Obj) (now : ℤ)
    (uuid : Str) : SamePlaces n (n.postMessage env body query now uuid).1 := by
  have htell : ∀ store room f, SamePlaces n ({ n with store := store }.tryBroadcast room f).1 :=
    fun store room f ↦ (SamePlaces.setStore n store).trans (.tryBroadcast _ room f)
  rcases postMessage_outcome env n body query now uuid with
    h | ⟨s, store, n₁, -, -, rfl, h | ⟨job, -, h⟩⟩ <;> rw [h]
  · exact .refl n
  · exact htell _ _ _
  · exact (htell _ _ _).trans (.of_eq rfl rfl)

theorem SamePlaces.receiveItem (env : Env) (n : Node) (item : Value) (now : ℤ) :
    SamePlaces n (n.receiveItem env item now).1 := by
  rw [Node.receiveItem]
  split
  · exact .refl n
  · split
    · exact .refl n
    · exact (SamePlaces.setStore n _).trans (.tryBroadcast _ _ _)

theorem SamePlaces.receiveGossip (env : Env) (n : Node) (data : Option Value) (now : ℤ) :
    SamePlaces n (n.receiveGossip env data now) := by
  cases data with
  | none => exact .refl n
  | some v =>
    exact receiveItems_preserves (I := SamePlaces n)
      (fun item _ n' h ↦ h.trans (.receiveItem env n' item now)) n (.refl n)

theorem SamePlaces.fetchHistory {env : Env} {id : Str} {now : ℤ} {docs : Option (List Obj)}
    (h : n.fetchHistory env id now docs = some n') : SamePlaces n n' := by
  obtain ⟨c, w, room, ready, -, -, -, -, rfl⟩ := fetchHistory_spec h
  exact (SamePlaces.setStore n _).trans (.updateClient _ id fun _ ↦ rfl)

theorem SamePlaces.runJob {env : Env} {i : ℕ} {now : ℤ} {nonce : Bytes}
    (h : n.runJob env i now nonce = some n') : SamePlaces n n' := by
  obtain ⟨job, -, rfl⟩ := Option.map_eq_some_iff.mp h
  cases job <;> exact .of_eq rfl rfl

/-- The route for the feed only refreshes the snapshot. -/
theorem SamePlaces.getFeedRoute (n : Node) (room : Option Str) (limit now : ℤ) :
    SamePlaces n (n.getFeedRoute room limit now).2 := by
  cases room <;> exact .of_eq rfl rfl

/-- The executor, the coroutines and the sweep leave every place as it is. -/
theorem SamePlaces.background {env : Env} {b : Background} (h : n.background env b = some n') :
    SamePlaces n n' := by
  cases Node.background_outcome h with
  | @sweepPresence id =>
    have haway : SamePlaces n (n.updateClient id fun c ↦ { c with away := true }) :=
      .updateClient n id fun _ ↦ rfl
    exact haway.trans (.of_eq rfl rfl)
  | runScheduled => exact .of_eq rfl rfl
  | senderTake => exact .of_eq rfl rfl
  | sent => exact .of_eq rfl rfl
  | @sendFailed id => exact (SamePlaces.closeWs n id).trans (.of_eq rfl rfl)
  | directDone => exact .of_eq rfl rfl
  | shutdown =>
    exact Node.shutdown_preserves (I := SamePlaces n) (fun m id hm ↦ hm.trans (.closeWs m id))
      (.broadcastToAll n _)

/-! ## Handlers that move a client

A client that joins or switches leaves a room first, and is in none for a moment.  No other step
can be taken in between, because the handler does not wait there, so the invariant is only needed
for both updates together. -/

/-- A record is entered into a room, and the others are as before. -/
theorem member?_joinRoom (n : Node) (room id room' id' : Str) (m : Member) :
    (n.joinRoom room id m).member? room' id' =
      if room' = room ∧ id' = id then some m else n.member? room' id' := by
  rw [member?, member?, joinRoom, setRooms, Dict.get?_set]
  by_cases hroom : room' = room
  · subst hroom
    rw [if_pos rfl, Option.bind_some, Dict.get?_set]
    cases n.rooms.get? room' <;> simp
  · rw [if_neg hroom, if_neg fun h ↦ hroom h.1]

/-- A record is taken out of a room, and the others are as before. -/
theorem member?_leaveRoom (n : Node) (room id room' id' : Str) :
    (n.leaveRoom room id).member? room' id' =
      if room' = room ∧ id' = id then none else n.member? room' id' := by
  rw [member?, member?, leaveRoom, setRooms]
  cases hmembers : n.rooms.get? room with
  | none =>
    show (n.rooms.get? room').bind _ = _
    by_cases h : room' = room ∧ id' = id
    · rw [if_pos h, h.1, hmembers, Option.bind_none]
    · rw [if_neg h]
  | some members =>
    rw [Dict.get?_set]
    by_cases hroom : room' = room
    · subst hroom
      rw [if_pos rfl, Option.bind_some, Dict.get?_pop, hmembers, Option.bind_some]
      simp
    · rw [if_neg hroom, if_neg fun h ↦ hroom h.1]

/-- A room is created with nobody in it. -/
theorem SamePlaces.ensureRoom (n : Node) (room : Str) : SamePlaces n (n.ensureRoom room) := by
  refine ⟨funext fun room' ↦ funext fun id ↦ ?_, rfl⟩
  rw [member?, member?, Node.ensureRoom, setRooms]
  split
  · rfl
  · rename_i hroom
    rw [Dict.get?_set]
    split
    · rename_i heq
      have hnone : n.rooms.get? room' = none := by
        rw [Dict.get?_eq_none_iff, heq]
        exact fun h ↦ hroom (n.rooms.contains_iff.mpr h)
      rw [hnone, Option.bind_some, Option.bind_none, Dict.get?_empty]
    · rfl

namespace Housed

variable {id : Str} {p : Place}

/-! ## One client moves

`settle` and `evict` are about arbitrary changes after which one client is in one room, or in
none.  Each handler is an instance. -/

/-- A client is in no other room than its own. -/
theorem member?_eq_none (h : Housed n) (hp : n.placeOf id = some p) {room : Str}
    (hroom : room ≠ p.room) : n.member? room id = none := by
  cases hm : n.member? room id with
  | none => rfl
  | some m =>
    obtain ⟨p', hp', hroom', -⟩ := h.client room id m hm
    obtain rfl := Option.some.inj (hp.symm.trans hp')
    exact absurd hroom'.symm hroom

/-- A client that is not there is in no room. -/
theorem member?_of_placeOf_none (h : Housed n) (hp : n.placeOf id = none) (room : Str) :
    n.member? room id = none := by
  cases hm : n.member? room id with
  | none => rfl
  | some m =>
    obtain ⟨p, hp', -⟩ := h.client room id m hm
    exact absurd (hp.symm.trans hp') (by simp)

/-- A client comes to be in one room. -/
theorem settle (h : Housed n) (id : Str) {m : Member} (hid : p.id = id)
    (hname : ∀ u, p.username = some u → m.username = u)
    (hmember : ∀ room' id', n'.member? room' id' =
      if id' = id then if room' = p.room then some m else none else n.member? room' id')
    (hplace : ∀ id', n'.placeOf id' = if id' = id then some p else n.placeOf id') : Housed n' where
  id id' p' hp' := by
    rw [hplace] at hp'
    split at hp'
    · rename_i heq
      rw [← Option.some.inj hp', hid, heq]
    · exact h.id id' p' hp'
  client room' id' m' hm' := by
    rw [hmember] at hm'
    rw [hplace]
    split at hm'
    · rename_i heq
      split at hm'
      · rename_i hroom
        obtain rfl := Option.some.inj hm'
        exact ⟨p, if_pos heq, hroom.symm, hname⟩
      · simp at hm'
    · rename_i hne
      rw [if_neg hne]
      exact h.client room' id' m' hm'
  member id' p' hp' := by
    rw [hplace] at hp'
    rw [hmember]
    split at hp'
    · rename_i heq
      rw [if_pos heq, if_pos (by rw [Option.some.inj hp'])]
      exact ⟨m, rfl⟩
    · rename_i hne
      rw [if_neg hne]
      exact h.member id' p' hp'

/-- A client goes. -/
theorem evict (h : Housed n) (id : Str)
    (hmember : ∀ room' id', n'.member? room' id' = if id' = id then none else n.member? room' id')
    (hplace : ∀ id', n'.placeOf id' = if id' = id then none else n.placeOf id') : Housed n' where
  id id' p' hp' := by
    rw [hplace] at hp'
    split at hp'
    · simp at hp'
    · exact h.id id' p' hp'
  client room' id' m' hm' := by
    rw [hmember] at hm'
    rw [hplace]
    split at hm'
    · simp at hm'
    · rename_i hne
      rw [if_neg hne]
      exact h.client room' id' m' hm'
  member id' p' hp' := by
    rw [hplace] at hp'
    rw [hmember]
    split at hp'
    · simp at hp'
    · rename_i hne
      rw [if_neg hne]
      exact h.member id' p' hp'

end Housed

/-! ## Connections

A connection begins with a client in a room, and ends with the client in none. -/

/-- A connection puts its client into the room of the query, under the name of the query. -/
theorem placeOf_handleConnection (env : Env) (n : Node) (id id' : Str) (queryParams : Obj)
    (now : ℤ) : (n.handleConnection env id queryParams now).placeOf id' =
      if id' = id then some ⟨id, queryRoom env queryParams, queryName queryParams⟩
      else n.placeOf id' := by
  rw [placeOf, get?_handleConnection]
  split
  · rfl
  · rfl

/-- A client with a new id is put into its room.  The id is not in use,
which is the condition under which a connection is a step. -/
theorem Housed.handleConnection (h : Housed n) (env : Env) {id : Str}
    (hid : n.clientsById.get? id = none) (queryParams : Obj) (now : ℤ) :
    Housed (n.handleConnection env id queryParams now) := by
  have hnone : n.placeOf id = none := by
    rw [placeOf, hid]
    rfl
  refine h.settle id (p := ⟨id, queryRoom env queryParams, queryName queryParams⟩)
    (m := ⟨(queryName queryParams).getD (guestName id), true, true⟩) rfl ?_ ?_
    (placeOf_handleConnection env n id · queryParams now)
  · intro u hu
    show (queryName queryParams).getD (guestName id) = u
    rw [show queryName queryParams = some u from hu]
    rfl
  · intro room' id'
    rw [Node.handleConnection, member?_joinRoom]
    by_cases hid' : id' = id
    · subst hid'
      simp only [and_true, if_true]
      split
      · rfl
      · exact h.member?_of_placeOf_none hnone room'
    · rw [if_neg fun h ↦ hid' h.2, if_neg hid']
      rfl

/-- What is left to do after the client has been forgotten. -/
theorem Housed.handleClose (h : Housed n) (env : Env) {c : Client}
    (hc : n.placeOf c.id = some c.place) : Housed (n.handleClose env c) := by
  have hleave : Housed ((n.forget env c).leaveRoom c.room c.id) := by
    refine h.evict c.id (fun room' id' ↦ ?_) fun id' ↦ ?_
    · rw [member?_leaveRoom]
      by_cases hid : id' = c.id
      · subst hid
        simp only [and_true, if_true]
        split
        · rfl
        · rename_i hroom
          exact h.member?_eq_none hc hroom
      · rw [if_neg fun h ↦ hid h.2, if_neg hid]
        rfl
    · show ((n.forget env c).clientsById.get? id').map _ = _
      rw [get?_forget, placeOf]
      split
      · rfl
      · rfl
  rcases handleClose_outcome env n c with h | ⟨text, users, h⟩ <;> rw [h]
  · exact hleave
  · exact hleave.of_samePlaces (.broadcast _ _ _ _)

/-- The place of a record. -/
theorem placeOf_of_get? {id : Str} {c : Client} (h : n.clientsById.get? id = some c) :
    n.placeOf id = some c.place := by
  rw [placeOf, h]
  rfl

/-- The records of the client are removed, and with them its record in the room. -/
theorem Housed.closeConnection (h : Housed n) (env : Env) (id : Str) :
    Housed (n.closeConnection env id) := by
  rw [Node.closeConnection]
  split
  · rename_i c hc
    have hplace := placeOf_of_get? hc
    obtain rfl : c.id = id := h.id id _ hplace
    have hstopped : SamePlaces n (n.updateLink c.id fun l ↦ { l with sender := .stopped }) :=
      .of_eq rfl rfl
    exact (h.of_samePlaces hstopped).handleClose env (hstopped.place ▸ hplace)
  · exact h

theorem Housed.afterHandler {env : Env} {id : Str} {r : Node × Option PyError} (h : Housed r.1) :
    Housed (afterHandler env id r) := by
  obtain ⟨n, _ | e⟩ := r
  · exact h
  · exact h.closeConnection env id

/-! ## Joins and switches

The client is taken out of one room, and its record and its member record are written with the
other one. -/

/-- An update of one record changes one place. -/
theorem placeOf_updateClient (n : Node) (id id' : Str) (f : Client → Client) :
    (n.updateClient id f).placeOf id' =
      (n.clientsById.get? id').map fun c ↦ (if id' = id then f c else c).place := by
  rw [placeOf, get?_updateClient, Option.map_map]
  rfl

/-- Where a client is that has left its room and joins another one. -/
theorem member?_of_left (left : Node) {id room : Str} {m : Member}
    (hother : ∀ room' id', id' ≠ id → left.member? room' id' = n.member? room' id')
    (hgone : ∀ room', room' ≠ room → left.member? room' id = none) (room' id' : Str) :
    (if room' = room ∧ id' = id then some m else left.member? room' id') =
      if id' = id then if room' = room then some m else none else n.member? room' id' := by
  by_cases hid : id' = id
  · subst hid
    by_cases hroom : room' = room
    · simp [hroom]
    · rw [if_neg fun h ↦ hroom h.1, if_pos rfl, if_neg hroom]
      exact hgone room' hroom
  · rw [if_neg fun h ↦ hid h.2, if_neg hid]
    exact hother room' id' hid

/-- A client that joins is taken out of the room of its connection and put into the one it asks
for. -/
theorem Housed.register (h : Housed n) (env : Env) {c : Client}
    (hc : n.clientsById.get? c.id = some c) (username room : Str) :
    Housed (n.register env c username room) := by
  have hplace := placeOf_of_get? hc
  refine h.settle c.id (p := ⟨c.id, room, some username⟩)
    (m := ⟨username, true, true⟩) rfl (fun u hu ↦ Option.some.inj hu) (fun room' id' ↦ ?_)
    fun id' ↦ ?_
  · rw [Node.register, member?_joinRoom]
    have hleft : ∀ room' id',
        (if c.room ≠ room then n.leaveRoom c.room c.id else n).member? room' id' =
          if c.room ≠ room ∧ room' = c.room ∧ id' = c.id then none else n.member? room' id' := by
      intro room' id'
      by_cases hroom : c.room = room
      · rw [if_neg (not_not.mpr hroom), if_neg fun h ↦ h.1 hroom]
      · rw [if_pos hroom, member?_leaveRoom]
        simp [hroom]
    refine member?_of_left (if c.room ≠ room then n.leaveRoom c.room c.id else n)
      (fun room' id' hid ↦ ?_) (fun room' hroom ↦ ?_) room' id'
    · rw [hleft, if_neg fun h ↦ hid h.2.2]
    · rw [hleft]
      split
      · rfl
      · rename_i hne
        exact h.member?_eq_none hplace fun heq ↦ hne ⟨fun hcr ↦ hroom (heq.trans hcr), heq, rfl⟩
  · have hclients : (n.register env c username room).placeOf id' =
        (n.updateClient c.id (·.joinedAs username room
          (decide (env.lib.lower username ∈ env.config.adminUsernames))
          (getOrCreateSenderKeys env.lib env.keyring n.store.keys.senderKeys username).1.1)).placeOf
            id' := by
      rw [Node.register]
      split <;> rfl
    rw [hclients, placeOf_updateClient]
    split
    · rename_i hid
      rw [hid, hc]
      rfl
    · rfl

/-- A client that switches is taken out of one room and put into the other. -/
theorem Housed.moveTo (h : Housed n) {c : Client} (hc : n.clientsById.get? c.id = some c)
    {username : Str} (husername : c.username = some username) (room : Str) :
    Housed (n.moveTo c username room) := by
  have hplace := placeOf_of_get? hc
  refine h.settle c.id (p := ⟨c.id, room, some username⟩)
    (m := ⟨username, c.connected, false⟩) rfl (fun u hu ↦ Option.some.inj hu) (fun room' id' ↦ ?_)
    fun id' ↦ ?_
  · rw [Node.moveTo, member?_joinRoom]
    refine member?_of_left (n.leaveRoom c.room c.id) (fun room' id' hid ↦ ?_)
      (fun room' hroom ↦ ?_) room' id'
    · rw [member?_leaveRoom, if_neg fun h ↦ hid h.2]
    · rw [member?_leaveRoom]
      split
      · rfl
      · rename_i hne
        exact h.member?_eq_none hplace fun heq ↦ hne ⟨heq, rfl⟩
  · show ((n.leaveRoom c.room c.id).updateClient c.id _).placeOf id' = _
    rw [placeOf_updateClient]
    show (n.clientsById.get? id').map _ = _
    split
    · rename_i hid
      rw [hid, hc, ← husername]
      rfl
    · rfl

/-! ## The invariant

The handlers are put together as in `handle_connection`: first the frame is read, then its handler
runs, and at last the connection is closed if the handler has raised. -/

theorem Housed.handleJoin (h : Housed n) {env : Env} {c : Client}
    (hc : n.clientsById.get? c.id = some c) {data : Obj} {r : Node × Option PyError}
    (hr : n.handleJoin env c data = some r) : Housed r.1 := by
  rcases handleJoin_outcome hr with ⟨-, rfl⟩ | ⟨username, -, -, rfl⟩
  · exact h
  · exact (h.register env hc username _).of_samePlaces
      (.awaitHistory _ _ _ _ fun history ↦ .finishJoin _ c.id _ history)

theorem Housed.handleSwitchRoom (h : Housed n) (env : Env) {c : Client}
    (hc : n.clientsById.get? c.id = some c) (room : Value) :
    Housed (n.handleSwitchRoom env c room).1 := by
  rcases handleSwitchRoom_outcome env n c room with
    ⟨-, heq | ⟨code, text, heq⟩⟩ | ⟨username, r, husername, -, heq⟩ <;> rw [heq]
  · exact h
  · exact h.of_samePlaces (.sendError n _ _ _)
  · exact (h.moveTo hc husername r).of_samePlaces
      (.awaitHistory _ _ _ _ fun history ↦ .finishSwitchRoom _ c.id r history)

theorem Housed.handleCreateRoom (h : Housed n) (env : Env) {c : Client}
    (hc : n.clientsById.get? c.id = some c) (data : Obj) :
    Housed (n.handleCreateRoom env c data).1 := by
  rcases handleCreateRoom_outcome env n c data with
    ⟨-, heq | ⟨code, text, heq⟩⟩ | ⟨n₁, rfl | ⟨rooms, rfl⟩, heq⟩ <;> rw [heq]
  · exact h
  · exact h.of_samePlaces (.sendError n _ _ _)
  · exact (h.of_samePlaces (.ensureRoom n _)).handleSwitchRoom env hc _
  · exact (h.of_samePlaces ((SamePlaces.ensureRoom n _).trans
      (.broadcastToAll _ _))).handleSwitchRoom env hc _

/-- All frames of a client that has joined. -/
theorem Handled.housed {env : Env} {c : Client} {data : Obj} {now : ℤ} {uuid : Str}
    {r : Node × Option PyError} (hr : Handled env n c data now uuid r) (h : Housed n)
    (hc : n.clientsById.get? c.id = some c) : Housed r.1 := by
  cases hr with
  | join type hr => exact h.handleJoin hc hr
  | message type => exact h.of_samePlaces (.handleMessage env n c data now uuid)
  | privateMessage type => exact h.of_samePlaces (.handlePrivateMessage env n c data now uuid)
  | switchRoom type => exact h.handleSwitchRoom env hc _
  | createRoom type => exact h.handleCreateRoom env hc data
  | typing type => exact h.of_samePlaces (.handleTyping n c)
  | moderation type action => exact h.of_samePlaces (.handleModeration env n c data action)
  | ignored type => exact h

/-- All frames, the first one of a client among them. -/
theorem Housed.receive (h : Housed n) {env : Env} {id : Str} {data : Value} {now : ℤ} {uuid : Str}
    (hstep : n.receive env id data now uuid = some n') : Housed n' := by
  obtain ⟨c, hc, -, hcases⟩ := receive_handled hstep
  have hactive := h.of_samePlaces (.noteActivity n id c now)
  have hget := get?_noteActivity hc now
  obtain rfl : (c.activeAt now).id = id := hactive.id id _ (placeOf_of_get? hget)
  rcases hcases with ⟨fields, r, -, hr, rfl⟩ | ⟨-, rfl⟩
  · exact (hr.housed hactive hget).afterHandler
  · exact hactive.closeConnection env _

theorem Housed.resume (h : Housed n) {env : Env} {id : Str} (hstep : n.resume env id = some n') :
    Housed n' := by
  have hresumed : SamePlaces n (n.updateClient id fun c ↦ { c with waiting := none }) :=
    .updateClient n id fun _ ↦ rfl
  have hnode := h.of_samePlaces hresumed
  obtain ⟨c, -, ⟨room, history, -, rfl⟩ | ⟨room, history, -, rfl⟩ | ⟨w, e, -, -, rfl⟩⟩ :=
    resume_outcome hstep
  · exact (hnode.of_samePlaces (.finishJoin _ _ _ _)).afterHandler
  · exact (hnode.of_samePlaces (.finishSwitchRoom _ _ _ _)).afterHandler
  · exact hnode.closeConnection env id

/-- **One step keeps the invariant.** -/
theorem Housed.step (h : Housed n) {env : Env} {a : Event} (hstep : n.step env a = some n') :
    Housed n' := by
  cases a with
  | connect id queryParams now =>
    obtain ⟨hid, rfl⟩ := step_connect hstep
    exact h.handleConnection env hid queryParams now
  | frame id data now uuid => exact h.receive hstep
  | fetchHistory id now docs => exact h.of_samePlaces (.fetchHistory hstep)
  | resume id => exact h.resume hstep
  | disconnect id =>
    obtain ⟨c, -, -, rfl⟩ := step_disconnect hstep
    exact h.closeConnection env id
  | post body query now uuid =>
    exact Option.some.inj hstep ▸ h.of_samePlaces (.postMessage env n body query now uuid)
  | gossip data now => exact Option.some.inj hstep ▸ h.of_samePlaces (.receiveGossip env n data now)
  | feed room limit now =>
    exact Option.some.inj hstep ▸ h.of_samePlaces (.getFeedRoute n room limit now)
  | runJob i now nonce => exact h.of_samePlaces (.runJob hstep)
  | warmCache now docs => exact Option.some.inj hstep ▸ h.of_samePlaces (.setStore n _)
  | publicKey username => exact Option.some.inj hstep ▸ h.of_samePlaces (.setStore n _)
  | privateKey username => exact Option.some.inj hstep ▸ h.of_samePlaces (.setStore n _)
  | background b => exact h.of_samePlaces (.background hstep)

/-! ## Runs

A node starts with empty rooms and without clients. -/

/-- There is nobody in the empty node. -/
theorem housed_empty : Housed empty where
  id id p hp := by simp [placeOf, empty] at hp
  client room id m hm := by simp [member?, empty] at hm
  member id p hp := by simp [placeOf, empty] at hp

/-- The rooms of the configuration are created with nobody in them. -/
theorem SamePlaces.initial (env : Env) : SamePlaces .empty (initial env) :=
  initial_of env (.refl _) fun n room h ↦ h.trans (.ensureRoom n room)

theorem placeOf_initial (env : Env) (id : Str) : (initial env).placeOf id = none := by
  rw [(SamePlaces.initial env).place]
  rfl

/-- **The rooms and the records of the clients belong together in every reachable state.** -/
theorem housed_of_reachable {env : Env} (h : (system env).Reachable n) : Housed n := by
  refine h.invariant ?_ fun s a s' hs hstep ↦ hs.step hstep
  rintro s rfl
  exact housed_empty.of_samePlaces (.initial env)

/-- **Members and clients are the same, and each is in one room.** -/
theorem membership {env : Env} (h : (system env).Reachable n) (id : Str) :
    ((∃ room m, n.member? room id = some m) ↔ id ∈ n.clientsById.keys) ∧
      ∀ c, n.clientsById.get? id = some c →
        (∃ m, n.member? c.room id = some m) ∧
          ∀ room m, n.member? room id = some m →
            room = c.room ∧ ∀ u, c.username = some u → m.username = u := by
  have hhoused := housed_of_reachable h
  refine ⟨?_, fun c hc ↦ ?_⟩
  · rw [Dict.mem_keys_iff]
    constructor
    · rintro ⟨room, m, hm⟩
      obtain ⟨p, hp, -⟩ := hhoused.client room id m hm
      obtain ⟨c, hc, -⟩ := Option.map_eq_some_iff.mp hp
      exact ⟨c, hc⟩
    · rintro ⟨c, hc⟩
      exact ⟨c.room, hhoused.member id _ (placeOf_of_get? hc)⟩
  · have hplace := placeOf_of_get? hc
    refine ⟨hhoused.member id _ hplace, fun room m hm ↦ ?_⟩
    obtain ⟨p, hp, hroom, hname⟩ := hhoused.client room id m hm
    obtain rfl := Option.some.inj (hplace.symm.trans hp)
    exact ⟨hroom.symm, hname⟩

/-- A client that has connected and joined. -/
theorem membership_alice : ∃ n, (system plainEnv).Reachable n ∧
    (∃ room m, n.member? room (lit "1") = some m) := by
  have hrun : (System.exec (step plainEnv) (initial plainEnv)
      [.connect (lit "1") [] 0, joinFrame (lit "1") (lit "alice")]).map
        (fun n ↦ decide (lit "1" ∈ n.clientsById.keys)) = some true := by
    decide +kernel
  obtain ⟨n, hn, hkey⟩ := Option.map_eq_some_iff.mp hrun
  have hreach : (system plainEnv).Reachable n := System.reachable_of_exec rfl hn
  exact ⟨n, hreach, (membership hreach (lit "1")).1.mpr (of_decide_eq_true hkey)⟩

/-! ## The names of rooms

A room that is asked for in a frame is checked by `is_valid_room_name`, and one that is asked for
when a client connects or joins is replaced by the default if it is not valid.  So every client is
in a room with a proper name, which `Server.RoomNames` takes up. -/

/-- The name of a room that a client can be in. -/
def RoomName (env : Env) (room : Str) : Prop :=
  room = env.config.defaultRoom ∨ isValidRoomName (.str room) = true

/-- A client stays where it is, or goes to a room with a proper name. -/
def Moves (env : Env) (n n' : Node) : Prop :=
  ∀ id p, n'.placeOf id = some p → n.placeOf id = some p ∨ RoomName env p.room

variable {env : Env}

/-- What is used as a room has passed the check. -/
theorem isValidRoomName_of_validRoom? {v : Value} {room : Str} (h : validRoom? v = some room) :
    isValidRoomName (.str room) = true := by
  cases v with
  | str s =>
    rw [validRoom?] at h
    split at h
    · rename_i hvalid
      exact Option.some.inj h ▸ hvalid
    · simp at h
  | _ => simp [validRoom?] at h

/-- A room that is asked for, or the default room. -/
theorem roomName_getD (env : Env) (v : Value) :
    RoomName env ((validRoom? v).getD env.config.defaultRoom) := by
  cases h : validRoom? v with
  | none => exact Or.inl rfl
  | some room => exact Or.inr (isValidRoomName_of_validRoom? h)

/-- A proper name is not empty. -/
theorem RoomName.ne_nil {room : Str} (h : RoomName env room)
    (hdefault : env.config.defaultRoom ≠ []) : room ≠ [] := by
  rcases h with rfl | h
  · exact hdefault
  · rintro rfl
    exact absurd h (by decide)

/-- Everybody stays. -/
theorem Moves.refl (n : Node) : Moves env n n := fun _ _ hp ↦ Or.inl hp

/-- Who stays or goes to a proper room, and then does so again, has done so altogether. -/
theorem Moves.trans (h : Moves env n n') (h' : Moves env n' n'') : Moves env n n'' := by
  intro id p hp
  rcases h' id p hp with hp | hname
  · exact h id p hp
  · exact Or.inr hname

theorem Moves.of_samePlaces (h : SamePlaces n n') : Moves env n n' :=
  fun _ _ hp ↦ Or.inl (h.place ▸ hp)

/-! ## Handlers and the names of rooms

The handlers are gone through once more, with a weaker property: where a client is now, it was
before, or the room has a proper name. -/

/-- One client is put into a room. -/
theorem Moves.settle {id : Str} {p : Place} (hroom : RoomName env p.room)
    (hplace : ∀ id', n'.placeOf id' = if id' = id then some p else n.placeOf id') :
    Moves env n n' := by
  intro id' p' hp'
  rw [hplace] at hp'
  split at hp'
  · exact Or.inr (Option.some.inj hp' ▸ hroom)
  · exact Or.inl hp'

theorem Moves.closeConnection (n : Node) (id : Str) : Moves env n (n.closeConnection env id) := by
  rw [Node.closeConnection]
  split
  · rename_i c hc
    have hforget : ∀ n₁ : Node, n₁.clientsById = n.clientsById → ∀ n₂ : Node,
        n₂.clientsById = (n₁.forget env c).clientsById → Moves env n n₂ := by
      intro n₁ h₁ n₂ h₂ id' p hp
      rw [placeOf, h₂, get?_forget, h₁] at hp
      split at hp
      · simp at hp
      · exact Or.inl hp
    rcases handleClose_outcome env (n.updateLink id fun l ↦ { l with sender := .stopped }) c with
      h | ⟨text, users, h⟩ <;> rw [h]
    · exact hforget (n.updateLink id _) rfl _ rfl
    · exact hforget (n.updateLink id _) rfl _ rfl
  · exact .refl n

theorem Moves.afterHandler {id : Str} {r : Node × Option PyError} (h : Moves env n r.1) :
    Moves env n (afterHandler env id r) := by
  obtain ⟨n₁, _ | e⟩ := r
  · exact h
  · exact h.trans (.closeConnection n₁ id)

/-- A record is edited, and its room is a proper one afterwards. -/
theorem Moves.updateClient {id : Str} {f : Client → Client}
    (hf : ∀ c, RoomName env (f c).room) (n : Node) : Moves env n (n.updateClient id f) := by
  intro id' p hp
  rw [placeOf_updateClient] at hp
  obtain ⟨c, hc, rfl⟩ := Option.map_eq_some_iff.mp hp
  split
  · exact Or.inr (hf c)
  · exact Or.inl (placeOf_of_get? hc)

theorem Moves.handleSwitchRoom (n : Node) (c : Client) (room : Value) :
    Moves env n (n.handleSwitchRoom env c room).1 := by
  rcases handleSwitchRoom_outcome env n c room with
    ⟨-, h | ⟨code, text, h⟩⟩ | ⟨username, r, -, hr, h⟩ <;> rw [h]
  · exact .refl n
  · exact .of_samePlaces (.sendError n _ _ _)
  · have hmoved : Moves env n (n.moveTo c username r) :=
      .updateClient (fun _ ↦ Or.inr
        (isValidRoomName_of_validRoom? (switchedRoom_eq_some hr).1)) n
    exact hmoved.trans (.of_samePlaces
      (.awaitHistory _ _ _ _ fun history ↦ .finishSwitchRoom _ c.id r history))

theorem Moves.handled {c : Client} {data : Obj} {now : ℤ} {uuid : Str} {r : Node × Option PyError}
    (h : Handled env n c data now uuid r) : Moves env n r.1 := by
  cases h with
  | join type h =>
    rcases handleJoin_outcome h with ⟨-, rfl⟩ | ⟨username, -, -, rfl⟩
    · exact .refl n
    · have hregistered : Moves env n (n.register env c username (requestedRoom env data)) := by
        rw [register]
        split
        · exact .updateClient (fun _ ↦ roomName_getD env _) n
        · exact .updateClient (fun _ ↦ roomName_getD env _) n
      exact hregistered.trans (.of_samePlaces
        (.awaitHistory _ _ _ _ fun history ↦ .finishJoin _ c.id _ history))
  | message type => exact .of_samePlaces (.handleMessage env n c data now uuid)
  | privateMessage type => exact .of_samePlaces (.handlePrivateMessage env n c data now uuid)
  | switchRoom type => exact .handleSwitchRoom n c _
  | createRoom type =>
    rcases handleCreateRoom_outcome env n c data with
      ⟨-, h | ⟨code, text, h⟩⟩ | ⟨n₁, rfl | ⟨rooms, rfl⟩, h⟩ <;> rw [h]
    · exact .refl n
    · exact .of_samePlaces (.sendError n _ _ _)
    · exact (Moves.of_samePlaces (.ensureRoom n _)).trans (.handleSwitchRoom _ c _)
    · exact (Moves.of_samePlaces ((SamePlaces.ensureRoom n _).trans
        (.broadcastToAll _ _))).trans (.handleSwitchRoom _ c _)
  | typing type => exact .of_samePlaces (.handleTyping n c)
  | moderation type action => exact .of_samePlaces (.handleModeration env n c data action)
  | ignored type => exact .refl n

/-- **A step leaves a client where it is, or takes it to a room with a proper name.** -/
theorem moves_step {a : Event} (h : n.step env a = some n') : Moves env n n' := by
  cases a with
  | connect id queryParams now =>
    obtain ⟨-, rfl⟩ := step_connect h
    exact .settle (roomName_getD env _) (placeOf_handleConnection env n id · queryParams now)
  | frame id data now uuid =>
    obtain ⟨c, -, -, hcases⟩ := receive_handled h
    have hactive : Moves env n (n.noteActivity id c now) :=
      .of_samePlaces (.noteActivity n id c now)
    rcases hcases with ⟨fields, r, -, hr, rfl⟩ | ⟨-, rfl⟩
    · exact (hactive.trans (.handled hr)).afterHandler
    · exact hactive.trans (.closeConnection _ id)
  | fetchHistory id now docs => exact .of_samePlaces (.fetchHistory h)
  | resume id =>
    have hresumed : Moves env n (n.updateClient id fun c ↦ { c with waiting := none }) :=
      .of_samePlaces (.updateClient n id fun _ ↦ rfl)
    obtain ⟨c, -, ⟨room, history, -, rfl⟩ | ⟨room, history, -, rfl⟩ | ⟨w, e, -, -, rfl⟩⟩ :=
      resume_outcome h
    · exact (hresumed.trans (.of_samePlaces (.finishJoin _ _ _ _))).afterHandler
    · exact (hresumed.trans (.of_samePlaces (.finishSwitchRoom _ _ _ _))).afterHandler
    · exact hresumed.trans (.closeConnection _ id)
  | disconnect id =>
    obtain ⟨c, -, -, rfl⟩ := step_disconnect h
    exact .closeConnection n id
  | post body query now uuid =>
    exact Option.some.inj h ▸ .of_samePlaces (.postMessage env n body query now uuid)
  | gossip data now => exact Option.some.inj h ▸ .of_samePlaces (.receiveGossip env n data now)
  | feed room limit now =>
    exact Option.some.inj h ▸ .of_samePlaces (.getFeedRoute n room limit now)
  | runJob i now nonce => exact .of_samePlaces (.runJob h)
  | warmCache now docs => exact Option.some.inj h ▸ .of_samePlaces (.setStore n _)
  | publicKey username => exact Option.some.inj h ▸ .of_samePlaces (.setStore n _)
  | privateKey username => exact Option.some.inj h ▸ .of_samePlaces (.setStore n _)
  | background b => exact .of_samePlaces (.background h)

/-- Every client is in a room with a proper name. -/
theorem roomName_of_reachable (h : (system env).Reachable n) {id : Str} {p : Place}
    (hp : n.placeOf id = some p) : RoomName env p.room := by
  refine h.invariant (I := fun n ↦ ∀ id p, n.placeOf id = some p → RoomName env p.room)
    ?_ ?_ id p hp
  · rintro s rfl id p hp
    simp [placeOf_initial] at hp
  · intro s a s' hs hstep id p hp
    exact (moves_step hstep id p hp).elim (hs id p) fun hname ↦ hname

end Node
end GroupChat
