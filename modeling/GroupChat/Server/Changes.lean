import Mathlib.Data.List.Perm.Subperm
import GroupChat.Server.Outcomes

/-!
# What a step changes

Most of what the handlers do concerns nobody but the rooms: they move a client from one room to
another, tell who is there, raise a flag.  This file says once, for every handler, that it is of
this kind, or what it does besides.

* `Node.content` are the frames with messages in them that are on the way to a client or have
  reached it.
* `Node.identities` is what only joining writes into the record of a client.
* `SameMembers n n'`: the registry and the identities are the same.
* `Steady n n'`: moreover the store and the jobs are the same.
* `Silent n n'`: no client got more content, and no handler waits that did not wait before.
* `Quiet n n'` is both.

They compose.  An invariant that survives them is left with the few steps that are none of them;
the second half of the file says what those do.

Each outcome or spec lemma says all that its handler can do, with the guards, so that no file
after this one unfolds a handler.  Where a later proof needs less, it takes the coarser lemma:
`Dispatched` instead of `Handled`, and `Quiet` instead of the list of the primitives.
-/

set_option autoImplicit false

namespace GroupChat

/-! ## What a change may touch

The content of a client is a list up to reordering.  A frame moves from the queue to the sender
and from there to the frames sent, and it is counted in all three places, so that an invariant on
the content does not depend on how far the frames have got. -/

/-- Does the frame carry messages? -/
def Frame.carries : Frame → Bool
  | .message _ => true
  | .privateMessage _ => true
  | .welcome .. => true
  | .roomSwitched .. => true
  | _ => false

/-- The history in a frame. -/
def Frame.history? : Frame → Option (List Obj)
  | .welcome _ _ _ _ _ _ history => some history
  | .roomSwitched _ _ history => some history
  | _ => none

/-- The room whose history is still to be fetched. -/
def Waiting.room? : Waiting → Option Str
  | .join room => some room
  | .switch room => some room
  | _ => none

/-- The history that has been fetched. -/
def Waiting.result? : Waiting → Option (Except PyError (List Obj))
  | .joinReady _ history => some history
  | .switchReady _ history => some history
  | _ => none

/-- What only joining writes into a record. -/
structure Identity where
  id : Str
  username : Option Str
  isAdmin : Bool
  explicitlyJoined : Bool
  privateKey : Option PrivateKey

/-- The identity of a client. -/
def Client.identity (c : Client) : Identity :=
  ⟨c.id, c.username, c.isAdmin, c.explicitlyJoined, c.privateKey⟩

/-- The frame is added to the link or dropped. -/
theorem Link.frames_accept (l : Link) (hasQueue : Bool) (f : Frame) :
    (l.accept hasQueue f).frames.Subperm (f :: l.frames) := by
  rw [Link.accept]
  split
  · rw [Link.putNowait]
    split
    · refine List.Perm.subperm ?_
      simp only [Link.frames, List.append_assoc, List.singleton_append]
      rw [← List.append_assoc, ← List.append_assoc, ← List.append_assoc, ← List.append_assoc]
      exact List.perm_middle
    · exact (List.sublist_cons_self f l.frames).subperm
  · refine List.Perm.subperm ?_
    simp only [Link.frames]
    rw [← List.append_assoc]
    exact List.perm_append_singleton f _

/-- A frame that a coroutine has sent is counted among the frames sent. -/
theorem Link.frames_directDone {l : Link} {i : ℕ} {f : Frame} (hf : l.direct[i]? = some f) :
    ({ l with direct := l.direct.eraseIdx i, sent := l.sent ++ [f] } : Link).frames.Perm
      l.frames := by
  obtain ⟨hi, rfl⟩ := List.getElem?_eq_some_iff.mp hf
  have hdirect : (l.direct[i] :: l.direct.eraseIdx i).Perm l.direct :=
    List.getElem_cons_eraseIdx_perm hi
  simp only [Link.frames, List.append_assoc, List.singleton_append]
  refine List.Perm.append_left _ ?_
  rw [← List.append_assoc, ← List.append_assoc]
  exact List.perm_middle.symm.trans (hdirect.append_left _)

namespace Node

variable (n : Node)

/-! ## What is compared

Three views of a node: the content on its links, the identities in its records, and the histories
that its handlers wait for. -/

/-- The frames that are on the way to a client or have reached it. -/
def onTheWay (id : Str) : List Frame :=
  (n.links id).frames ++ (n.scheduled.filter fun p ↦ decide (p.1 = id)).map Prod.snd

/-- Those that carry messages. -/
def content (id : Str) : List Frame := (n.onTheWay id).filter Frame.carries

/-- The identities of the clients. -/
def identities (id : Str) : Option Identity := (n.clientsById.get? id).map Client.identity

/-- What the handler of a client waits for. -/
def waitingAt (id : Str) : Option Waiting := (n.clientsById.get? id).bind Client.waiting

variable {n}

/-- The identity of a client that is there. -/
theorem identities_of_get? {id : Str} {c : Client}
    (h : n.clientsById.get? id = some c) : n.identities id = some c.identity := by
  rw [identities, h]
  rfl

theorem get?_of_identities {id : Str} {i : Identity} (h : n.identities id = some i) :
    ∃ c, n.clientsById.get? id = some c ∧ c.identity = i :=
  Option.map_eq_some_iff.mp h

/-- Nobody is told any message. -/
structure Silent (n n' : Node) : Prop where
  content : ∀ id, (n'.content id).Subperm (n.content id)
  waitingAt : ∀ id w, n'.waitingAt id = some w → n.waitingAt id = some w

/-- Nobody joins or leaves. -/
structure SameMembers (n n' : Node) : Prop where
  identities : n'.identities = n.identities
  usernameToId : n'.usernameToId = n.usernameToId

/-- Nothing is stored either. -/
structure Steady (n n' : Node) : Prop extends SameMembers n n' where
  store : n'.store = n.store
  jobs : n'.jobs = n.jobs

/-- A change that concerns the rooms at most. -/
structure Quiet (n n' : Node) : Prop extends Silent n n', Steady n n'

/-! ## Composition

All four relations are reflexive and transitive, so that a handler is gone through one update at a
time. -/

/-- Nothing has happened. -/
theorem Silent.refl (n : Node) : Silent n n := ⟨fun _ ↦ .refl _, fun _ _ h ↦ h⟩

theorem SameMembers.refl (n : Node) : SameMembers n n := ⟨rfl, rfl⟩

theorem Quiet.refl (n : Node) : Quiet n n := ⟨.refl n, .refl n, rfl, rfl⟩

/-- Silent changes one after the other are silent. -/
theorem Silent.trans {n n' n'' : Node} (h : Silent n n') (h' : Silent n' n'') : Silent n n'' where
  content id := (h'.content id).trans (h.content id)
  waitingAt id w hw := h.waitingAt id w (h'.waitingAt id w hw)

theorem SameMembers.trans {n n' n'' : Node} (h : SameMembers n n') (h' : SameMembers n' n'') :
    SameMembers n n'' :=
  ⟨h'.identities.trans h.identities, h'.usernameToId.trans h.usernameToId⟩

theorem Steady.trans {n n' n'' : Node} (h : Steady n n') (h' : Steady n' n'') : Steady n n'' :=
  ⟨h.toSameMembers.trans h'.toSameMembers, h'.store.trans h.store, h'.jobs.trans h.jobs⟩

/-- Quiet changes one after the other are quiet. -/
theorem Quiet.trans {n n' n'' : Node} (h : Quiet n n') (h' : Quiet n' n'') : Quiet n n'' :=
  ⟨h.toSilent.trans h'.toSilent, h.toSteady.trans h'.toSteady⟩

/-! ## The primitives

A frame that is delivered is the only new content, and only if it carries messages.  Everything
else that a primitive does is a change of the rooms, of flags in the records, or of links without
new content. -/

/-- A client that a frame does not reach keeps its link. -/
theorem links_deliver_of_none (n : Node) {way : Str → Option Bool} {id : Str} (f : Frame)
    (hway : way id = none) : (n.deliver way f).links id = n.links id := by
  simp only [deliver, hway]

/-- A client that a frame reaches has it on its link. -/
theorem links_deliver_of_some (n : Node) {way : Str → Option Bool} {id : Str} (f : Frame)
    {hasQueue : Bool} (hway : way id = some hasQueue) :
    (n.deliver way f).links id = (n.links id).accept hasQueue f := by
  simp only [deliver, hway]

/-- A frame that is delivered is all that is new. -/
theorem content_deliver (n : Node) (way : Str → Option Bool) (f : Frame) (id : Str) :
    ((n.deliver way f).content id).Subperm
      ((if f.carries ∧ (way id).isSome then [f] else []) ++ n.content id) := by
  have hframes : ((n.deliver way f).onTheWay id).Subperm
      ((if (way id).isSome then [f] else []) ++ n.onTheWay id) := by
    rw [onTheWay, onTheWay, ← List.append_assoc]
    refine List.Subperm.append ?_ (List.Subperm.refl _)
    simp only [deliver]
    cases way id with
    | none => exact List.Subperm.refl _
    | some hasQueue => exact (n.links id).frames_accept hasQueue f
  refine (hframes.filter Frame.carries).trans (List.Perm.subperm (.of_eq ?_))
  rw [List.filter_append, content]
  by_cases hway : (way id).isSome <;> cases hf : f.carries <;> simp [hway, hf]

/-- One record is changed, and the others stay. -/
theorem get?_updateClient (n : Node) (id id' : Str) (f : Client → Client) :
    (n.updateClient id f).clientsById.get? id' =
      (n.clientsById.get? id').map fun c ↦ if id' = id then f c else c := by
  rw [Node.updateClient]
  by_cases hid : id' = id
  · subst hid
    cases hc : n.clientsById.get? id' <;> simp [hc]
  · cases n.clientsById.get? id <;> simp [hid, Dict.get?_set_ne]

/-- A change of records that leaves the identities alone. -/
theorem SameMembers.updateClient (n : Node) (id : Str) {f : Client → Client}
    (hid : ∀ c, (f c).identity = c.identity) : SameMembers n (n.updateClient id f) := by
  refine ⟨funext fun id' ↦ ?_, rfl⟩
  rw [Node.identities, Node.identities, get?_updateClient, Option.map_map]
  refine congrArg (Option.map · _) (funext fun c ↦ ?_)
  simp only [Function.comp_apply]
  split
  · exact hid c
  · rfl

/-- A change of records that makes no handler wait. -/
theorem Silent.updateClient (n : Node) (id : Str) {f : Client → Client}
    (hwait : ∀ c w, (f c).waiting = some w → c.waiting = some w) :
    Silent n (n.updateClient id f) := by
  refine ⟨fun _ ↦ List.Subperm.refl _, fun id' w hw ↦ ?_⟩
  rw [Node.waitingAt, get?_updateClient, Option.bind_map] at hw
  obtain ⟨c, hc, hw⟩ := Option.bind_eq_some_iff.mp hw
  refine Option.bind_eq_some_iff.mpr ⟨c, hc, ?_⟩
  simp only [Function.comp_apply] at hw
  split at hw
  · exact hwait c w hw
  · exact hw

/-- A change of flags in a record. -/
theorem Quiet.updateClient (n : Node) (id : Str) {f : Client → Client}
    (hid : ∀ c, (f c).identity = c.identity)
    (hwait : ∀ c w, (f c).waiting = some w → c.waiting = some w) :
    Quiet n (n.updateClient id f) :=
  ⟨.updateClient n id hwait, .updateClient n id hid, rfl, rfl⟩

/-- The end of a connection, for the other side. -/
theorem Quiet.closeWs (n : Node) (id : Str) : Quiet n (n.closeWs id) :=
  .updateClient n id (fun _ ↦ rfl) fun _ _ h ↦ h

/-- The rooms are no part of what is kept track of here. -/
theorem Quiet.setRooms (n : Node) (rooms : Dict Str (Dict Str Member)) :
    Quiet n (n.setRooms rooms) :=
  ⟨⟨fun _ ↦ List.Subperm.refl _, fun _ _ h ↦ h⟩, ⟨rfl, rfl⟩, rfl, rfl⟩

theorem Quiet.broadcastGossip (n : Node) (room : Value) (msg : Obj) :
    Quiet n (n.broadcastGossip room msg) :=
  ⟨⟨fun _ ↦ List.Subperm.refl _, fun _ _ h ↦ h⟩, ⟨rfl, rfl⟩, rfl, rfl⟩

/-- A change of links after which no client has more content. -/
theorem Quiet.setLinks (n : Node) {links : Str → Link}
    (h : ∀ id, (links id).frames.Subperm (n.links id).frames) :
    Quiet n { n with links := links } :=
  ⟨⟨fun id ↦ ((h id).append (.refl _)).filter _, fun _ _ h ↦ h⟩, ⟨rfl, rfl⟩, rfl, rfl⟩

/-- A frame without messages. -/
theorem Quiet.deliver (n : Node) (way : Str → Option Bool) {f : Frame} (hf : f.carries = false) :
    Quiet n (n.deliver way f) := by
  refine ⟨⟨fun id ↦ ?_, fun _ _ h ↦ h⟩, ⟨rfl, rfl⟩, rfl, rfl⟩
  have h := content_deliver n way f id
  rw [if_neg (by simp [hf])] at h
  exact h

theorem Quiet.send (n : Node) (id : Str) {f : Frame} (hf : f.carries = false) :
    Quiet n (n.send id f) := .deliver n _ hf

theorem Quiet.broadcast (n : Node) (room : Str) {f : Frame} (exclude : Option Str)
    (hf : f.carries = false) : Quiet n (n.broadcast room f exclude) := .deliver n _ hf

theorem Quiet.broadcastToAll (n : Node) {f : Frame} (hf : f.carries = false) :
    Quiet n (n.broadcastToAll f) := .deliver n _ hf

/-! ## Quiet handlers

Handlers that are made of quiet primitives only.  The whole of the background is among them: it
moves frames on, sends presence frames, and closes connections for the other side. -/

theorem Quiet.ensureRoom (n : Node) (room : Str) : Quiet n (n.ensureRoom room) := .setRooms n _

/-- What holds of an empty node, and goes on to hold when a room is made, holds of a node that has
just started. -/
theorem initial_of {I : Node → Prop} (env : Env) (hempty : I .empty)
    (hroom : ∀ n room, I n → I (n.ensureRoom room)) : I (initial env) :=
  List.foldlRecOn _ _ hempty fun n hn room _ ↦ hroom n room hn

/-- A node that has just started is empty but for its rooms. -/
theorem Quiet.initial (env : Env) : Quiet .empty (initial env) :=
  initial_of env (.refl _) fun n room h ↦ h.trans (.ensureRoom n room)

theorem Quiet.joinRoom (n : Node) (room id : Str) (m : Member) :
    Quiet n (n.joinRoom room id m) := .setRooms n _

theorem Quiet.leaveRoom (n : Node) (room id : Str) : Quiet n (n.leaveRoom room id) := .setRooms n _

theorem Quiet.sendError (n : Node) (id : Str) (code : String) (text : Str) :
    Quiet n (n.sendError id code text) := .send n id rfl

/-- A client that was away is said to be back, which is a presence frame. -/
theorem Quiet.noteActivity (n : Node) (id : Str) (c : Client) (now : ℤ) :
    Quiet n (n.noteActivity id c now) := by
  have h : Quiet n (n.updateClient id (·.activeAt now)) :=
    .updateClient n id (fun _ ↦ rfl) fun _ _ h ↦ h
  rw [Node.noteActivity]
  split
  · exact h.trans (.broadcastToAll _ rfl)
  · exact h

theorem rooms_noteActivity (n : Node) (id : Str) (c : Client) (now : ℤ) :
    (n.noteActivity id c now).rooms = n.rooms := by
  rw [Node.noteActivity]
  split <;> rfl

/-- The record of the client after its activity has been noted. -/
theorem get?_noteActivity {n : Node} {id : Str} {c : Client} (hc : n.clientsById.get? id = some c)
    (now : ℤ) : (n.noteActivity id c now).clientsById.get? id = some (c.activeAt now) := by
  have hget := get?_updateClient n id id (·.activeAt now)
  rw [hc, Option.map_some, if_pos rfl] at hget
  rw [Node.noteActivity]
  split
  · exact hget
  · exact hget

/-- The two rooms are told, and the client is put into the other one. -/
theorem Quiet.moveTo (n : Node) (c : Client) (username room : Str) :
    Quiet n (n.moveTo c username room) := by
  have hroom : ∀ n : Node, Quiet n (n.updateClient c.id fun c ↦ { c with room := room }) :=
    fun n ↦ .updateClient n c.id (fun _ ↦ rfl) fun _ _ h ↦ h
  refine (Quiet.leaveRoom n c.room c.id).trans ?_
  refine (Quiet.broadcast _ c.room none ?_).trans ((hroom _).trans (.joinRoom _ room c.id _))
  rfl

theorem Quiet.handleTyping (n : Node) (c : Client) : Quiet n (n.handleTyping c) := by
  rw [Node.handleTyping]
  split
  · exact .refl n
  · exact .broadcast n c.room _ rfl

theorem Quiet.handleModeration (env : Env) (n : Node) (c : Client) (data : Obj) (action : Action) :
    Quiet n (n.handleModeration env c data action) := by
  rcases handleModeration_outcome env n c data action with
    h | ⟨code, text, h⟩ | ⟨id, moderator, h⟩ | ⟨id, muted, room, text, users, h⟩ <;> rw [h]
  · exact .refl n
  · exact .sendError n _ _ _
  · exact (Quiet.send n _ rfl).trans (.closeWs _ _)
  · have hmuted : Quiet n (n.updateClient id fun t ↦ { t with muted := muted }) :=
      .updateClient n id (fun _ ↦ rfl) fun _ _ h ↦ h
    exact hmuted.trans (.broadcast _ _ _ rfl)

/-! ## The background

The steps of the sender loops and of the coroutines move frames from one place of a link to the
next.  The content is the same before and after. -/

/-- A frame is taken from the queue, and is in flight from then on. -/
theorem Quiet.senderTake {n n' : Node} {id : Str} (h : n.senderTake id = some n') : Quiet n n' := by
  rw [Node.senderTake] at h
  split at h
  · rename_i f q hsender hqueue
    obtain rfl := Option.some.inj h
    refine .setLinks n fun id' ↦ ?_
    by_cases hid : id' = id
    · subst hid
      rw [Function.update_self]
      simp [Link.frames, hsender, hqueue, Sender.inFlight, List.Subperm.refl]
    · rw [Function.update_of_ne hid]
  · exact absurd h (by simp)

/-- The frame in flight has been sent, or the socket has failed. -/
theorem Quiet.senderDone {n n' : Node} {id : Str} {ok : Bool} (h : n.senderDone id ok = some n') :
    Quiet n n' := by
  rw [Node.senderDone] at h
  split at h
  · rename_i f hsender
    have hlink : ∀ (l : Link) (n : Node), l.frames.Subperm (n.links id).frames →
        Quiet n (n.updateLink id fun _ ↦ l) := by
      intro l n hl
      refine .setLinks n fun id' ↦ ?_
      by_cases hid : id' = id
      · subst hid
        rwa [Function.update_self]
      · rw [Function.update_of_ne hid]
    split at h
    · obtain rfl := Option.some.inj h
      refine hlink _ n ?_
      split <;> simp [Link.frames, hsender, Sender.inFlight, List.Subperm.refl]
    · obtain rfl := Option.some.inj h
      refine (Quiet.closeWs n id).trans (hlink _ _ (List.Sublist.subperm ?_))
      simp [Link.frames, Sender.inFlight, Node.closeWs]
  · exact absurd h (by simp)

theorem Quiet.directDone {n n' : Node} {id : Str} {i : ℕ} (h : n.directDone id i = some n') :
    Quiet n n' := by
  obtain ⟨f, hf, rfl⟩ := Option.map_eq_some_iff.mp h
  refine .setLinks n fun id' ↦ ?_
  by_cases hid : id' = id
  · subst hid
    rw [Function.update_self]
    exact (Link.frames_directDone hf).subperm
  · rw [Function.update_of_ne hid]

theorem Quiet.runScheduled {n n' : Node} (h : n.runScheduled = some n') : Quiet n n' := by
  rw [Node.runScheduled] at h
  split at h
  · rename_i id f rest hscheduled
    obtain rfl := Option.some.inj h
    refine ⟨⟨fun id' ↦ List.Subperm.filter _ ?_, fun _ _ h ↦ h⟩, ⟨rfl, rfl⟩, rfl, rfl⟩
    rw [onTheWay, onTheWay, hscheduled, List.filter_cons]
    by_cases hid : id' = id
    · subst hid
      have hput := ((n.links id').frames_accept true f).append
        (.refl ((rest.filter fun p ↦ decide (p.1 = id')).map Prod.snd))
      simp only [Node.updateLink, Function.update_self, decide_true, if_true, List.map_cons]
      exact hput.trans List.perm_middle.symm.subperm
    · simp [Node.updateLink, Function.update_of_ne hid, Ne.symm hid, List.Subperm.refl]
  · exact absurd h (by simp)

/-- What the sweep schedules are presence frames. -/
theorem Quiet.sweepPresence {env : Env} {n n' : Node} {id : Str} {now : ℤ}
    (h : n.sweepPresence env id now = some n') : Quiet n n' := by
  rw [Node.sweepPresence] at h
  split at h
  · split at h
    · rename_i c hc hidle
      obtain rfl := Option.some.inj h
      have haway : Quiet n (n.updateClient id fun c ↦ { c with away := true }) :=
        .updateClient n id (fun _ ↦ rfl) fun _ _ h ↦ h
      refine haway.trans
        ⟨⟨fun id' ↦ List.Perm.subperm ?_, fun _ _ h ↦ h⟩, ⟨rfl, rfl⟩, rfl, rfl⟩
      simp only [content, onTheWay, List.filter_append, List.map_append]
      have hpresence : ∀ l : List Client, List.filter Frame.carries
          (List.map Prod.snd (List.filter (fun p ↦ decide (p.1 = id'))
            (l.map fun t ↦ (t.id, Frame.presence c.username "away")))) = [] := by
        intro l
        rw [List.filter_eq_nil_iff]
        simp only [List.mem_map, List.mem_filter]
        rintro f ⟨p, ⟨⟨t, -, rfl⟩, -⟩, rfl⟩
        simp [Frame.carries]
      rw [hpresence, List.append_nil]
    · exact absurd h (by simp)
  · exact absurd h (by simp)

theorem Quiet.shutdown (n : Node) : Quiet n n.shutdown :=
  Node.shutdown_preserves (I := Quiet n) (fun m id hm ↦ hm.trans (.closeWs m id))
    (.broadcastToAll n rfl)

/-- **Nothing that goes on in the background brings a client a message.** -/
theorem Quiet.background {env : Env} {n n' : Node} {b : Background}
    (h : n.background env b = some n') : Quiet n n' := by
  cases b with
  | sweepPresence id now => exact .sweepPresence h
  | runScheduled => exact .runScheduled h
  | senderTake id => exact .senderTake h
  | senderDone id ok => exact .senderDone h
  | directDone id i => exact .directDone h
  | shutdown => exact Option.some.inj h ▸ .shutdown n

/-! ## Connections

A connection comes with a new identity, and its end takes the identity away.  For the content of
other clients both are silent. -/

/-- The record of a connection is new, and the others stay. -/
theorem get?_handleConnection (env : Env) (n : Node) (id id' : Str) (queryParams : Obj) (now : ℤ) :
    (n.handleConnection env id queryParams now).clientsById.get? id' =
      if id' = id then some (newClient env id queryParams now) else n.clientsById.get? id' :=
  n.clientsById.get?_set id id' _

theorem Silent.handleConnection (env : Env) (n : Node) (id : Str) (queryParams : Obj) (now : ℤ) :
    Silent n (n.handleConnection env id queryParams now) := by
  refine ⟨fun id' ↦ List.Sublist.subperm (List.Sublist.filter _ ?_), fun id' w hw ↦ ?_⟩
  · refine List.Sublist.append ?_ (List.Sublist.refl _)
    by_cases hid : id' = id
    · subst hid
      simp [Node.handleConnection, joinRoom, Function.update_self, Link.empty, Link.frames,
        Sender.inFlight]
    · simp [Node.handleConnection, joinRoom, Function.update_of_ne hid]
  · rw [Node.waitingAt, get?_handleConnection] at hw
    split at hw
    · simp [newClient] at hw
    · exact hw

/-- A new identity, without a key. -/
theorem identities_handleConnection (env : Env) (n : Node) (id : Str) (queryParams : Obj)
    (now : ℤ) : (n.handleConnection env id queryParams now).identities =
      Function.update n.identities id (some ⟨id, queryName queryParams, false, false, none⟩) := by
  funext id'
  rw [identities, get?_handleConnection, Function.update_apply]
  split
  · rfl
  · rfl

/-- The record of a connection is gone, and the others stay. -/
theorem get?_forget (env : Env) (n : Node) (c : Client) (id : Str) :
    (n.forget env c).clientsById.get? id =
      if id = c.id then none else n.clientsById.get? id :=
  n.clientsById.get?_pop c.id id

theorem Silent.forget (env : Env) (n : Node) (c : Client) : Silent n (n.forget env c) := by
  refine ⟨fun _ ↦ List.Subperm.refl _, fun id w hw ↦ ?_⟩
  rw [Node.waitingAt, get?_forget] at hw
  split at hw
  · simp at hw
  · exact hw

/-- The identity of a client goes with its record. -/
theorem identities_forget (env : Env) (n : Node) (c : Client) :
    (n.forget env c).identities = Function.update n.identities c.id none := by
  funext id
  rw [identities, get?_forget, Function.update_apply]
  split
  · rfl
  · rfl

/-- What is left of `_handle_close` is quiet. -/
theorem Quiet.handleClose (env : Env) (n : Node) (c : Client) :
    Quiet (n.forget env c) (n.handleClose env c) := by
  have hleave := Quiet.leaveRoom (n.forget env c) c.room c.id
  rcases handleClose_outcome env n c with h | ⟨text, users, h⟩ <;> rw [h]
  · exact hleave
  · exact hleave.trans (.broadcast _ _ _ rfl)

/-- The end of a connection. -/
theorem closeConnection_spec (env : Env) (n : Node) (id : Str) :
    n.clientsById.get? id = none ∧ n.closeConnection env id = n ∨
      ∃ c n₁, n.clientsById.get? id = some c ∧ Quiet n n₁ ∧
        Quiet (n₁.forget env c) (n.closeConnection env id) := by
  rw [closeConnection]
  split
  · rename_i c hc
    refine Or.inr ⟨c, n.updateLink id fun l ↦ { l with sender := .stopped }, hc,
      .setLinks n fun id' ↦ ?_, .handleClose env _ c⟩
    by_cases hid : id' = id
    · subst hid
      rw [Function.update_self]
      refine List.Sublist.subperm ?_
      simp [Link.frames, Sender.inFlight]
    · rw [Function.update_of_ne hid]
  · rename_i hnone
    exact Or.inl ⟨hnone, rfl⟩

/-! ## Histories

`_handle_join`, `_handle_switch_room` and `_handle_create_room` end in the same way: they ask for
the history of a room and tell it to their client, at once if the cache has it and otherwise when
the executor has fetched it.  `Asks` is this common ending, and `TellsHistory` is what comes after
the history has been found. -/

/-- The handler tells a client a history, unless it raises; whatever else it does is quiet. -/
def TellsHistory (n : Node) (id : Str) (history : List Obj) (n' : Node) : Prop :=
  Quiet n n' ∨ ∃ f : Frame, f.history? = some history ∧ Quiet (n.send id f) n'

/-- The handler asks for the history of a room: it tells it if it is cached, and waits if not. -/
def Asks (env : Env) (n : Node) (id room : Str) (wait : Waiting) (n' : Node) : Prop :=
  n.TellsHistory id (n.store.cachedHistory room env.config.historyLimit) n' ∨
    n' = n.updateClient id fun c ↦ { c with waiting := some wait }

/-- Telling a history neither stores anything nor changes who is there. -/
theorem TellsHistory.steady {n n' : Node} {id : Str} {history : List Obj}
    (h : n.TellsHistory id history n') : Steady n n' := by
  rcases h with h | ⟨f, -, h⟩
  · exact h.toSteady
  · exact (show Steady n (n.send id f) from ⟨⟨rfl, rfl⟩, rfl, rfl⟩).trans h.toSteady

/-- Whether the handler goes on or waits, nothing is stored, and nobody joins or leaves. -/
theorem Asks.steady {env : Env} {n n' : Node} {id room : Str} {wait : Waiting}
    (h : Asks env n id room wait n') : Steady n n' := by
  rcases h with h | rfl
  · exact h.steady
  · exact ⟨.updateClient n id fun _ ↦ rfl, rfl, rfl⟩

/-- The end of `_handle_join` tells the history. -/
theorem finishJoin_spec (n : Node) (id room : Str) (history : List Obj) :
    n.TellsHistory id history (n.finishJoin id room history).1 := by
  rcases n.finishJoin_outcome id room history with
    ⟨e, h, -⟩ | ⟨username, isAdmin, users, online, text, rooms, h⟩ <;> rw [h]
  · exact Or.inl (.refl n)
  · exact Or.inr ⟨_, rfl, (Quiet.broadcast _ room _ rfl).trans (.send _ id rfl)⟩

/-- The end of `_handle_switch_room` tells the history. -/
theorem finishSwitchRoom_spec (n : Node) (id room : Str) (history : List Obj) :
    n.TellsHistory id history (n.finishSwitchRoom id room history).1 := by
  rcases n.finishSwitchRoom_outcome id room history with ⟨e, h, -⟩ | ⟨users, text, h⟩ <;> rw [h]
  · exact Or.inl (.refl n)
  · exact Or.inr ⟨_, rfl, Quiet.broadcast _ room _ rfl⟩

/-- The executor gets the history of the room that the handler waits for. -/
theorem fetchHistory_spec {env : Env} {n n' : Node} {id : Str} {now : ℤ}
    {docs : Option (List Obj)} (h : n.fetchHistory env id now docs = some n') :
    ∃ c w room ready, n.clientsById.get? id = some c ∧ c.waiting = some w ∧ w.room? = some room ∧
      ready.result? =
        some (n.store.getHistory env.lib now room env.config.historyLimit docs).2 ∧
      n' = { n with store :=
          (n.store.getHistory env.lib now room env.config.historyLimit docs).1 }.updateClient id
            fun c ↦ { c with waiting := some ready } := by
  rw [fetchHistory] at h
  split at h
  · rename_i c hc
    split at h
    · rename_i room hw
      exact ⟨c, _, room, .joinReady room _, hc, hw, rfl, rfl, (Option.some.inj h).symm⟩
    · rename_i room hw
      exact ⟨c, _, room, .switchReady room _, hc, hw, rfl, rfl, (Option.some.inj h).symm⟩
    · simp at h
  · simp at h

theorem SameMembers.fetchHistory {env : Env} {n n' : Node} {id : Str} {now : ℤ}
    {docs : Option (List Obj)} (h : n.fetchHistory env id now docs = some n') :
    SameMembers n n' := by
  obtain ⟨c, w, room, ready, -, -, -, -, rfl⟩ := fetchHistory_spec h
  have hstore : ∀ store, SameMembers n { n with store := store } := fun _ ↦ ⟨rfl, rfl⟩
  exact (hstore _).trans (.updateClient _ id fun _ ↦ rfl)

/-- The common ending of the three handlers. -/
theorem awaitHistory_spec {env : Env} {n : Node} {id room : Str} {wait : Waiting}
    {finish : Node → List Obj → Node × Option PyError}
    (hfinish : ∀ n history, TellsHistory n id history (finish n history).1) :
    Asks env n id room wait (n.awaitHistory env id room wait finish).1 := by
  rw [awaitHistory]
  split
  · rename_i m ms hcached
    exact Or.inl (hcached ▸ hfinish n (m :: ms))
  · exact Or.inr rfl

/-! ## Joining and switching rooms

What comes before the history is quiet, except for the identity that a join writes. -/

/-- Nobody is told anything by the part of joining that is not about rooms. -/
theorem Silent.enroll (env : Env) (n : Node) (c : Client) (username room : Str) :
    Silent n (n.enroll env c username room) := by
  have hjoin := Silent.updateClient { n with store := { n.store with keys := { n.store.keys with
    senderKeys :=
      (getOrCreateSenderKeys env.lib env.keyring n.store.keys.senderKeys username).2 } } }
    c.id (f := (·.joinedAs username room
      (decide (env.lib.lower username ∈ env.config.adminUsernames))
      (getOrCreateSenderKeys env.lib env.keyring n.store.keys.senderKeys username).1.1))
    fun _ _ h ↦ h
  exact ⟨hjoin.content, hjoin.waitingAt⟩

/-- A client that has joined already is ignored.  Otherwise it gets the first free name, and asks
for the history of its room. -/
theorem handleJoin_spec {env : Env} {n : Node} {c : Client} {data : Obj}
    {r : Node × Option PyError} (h : n.handleJoin env c data = some r) :
    (c.explicitlyJoined = true ∧ r.1 = n) ∨
      ∃ username n₁ n₂, c.explicitlyJoined = false ∧
        uniqueUsername env.lib n.usernameToId.keys (requestedName env c data) = some username ∧
        Quiet n n₁ ∧ Quiet (n₁.enroll env c username (requestedRoom env data)) n₂ ∧
        Asks env n₂ c.id (requestedRoom env data) (.join (requestedRoom env data)) r.1 := by
  rcases handleJoin_outcome h with ⟨hjoined, rfl⟩ | ⟨username, hjoined, hunique, rfl⟩
  · exact Or.inl ⟨hjoined, rfl⟩
  · refine Or.inr ⟨username, _, n.register env c username (requestedRoom env data),
      hjoined, hunique, ?_, .joinRoom _ _ _ _,
      awaitHistory_spec fun n history ↦ n.finishJoin_spec c.id _ history⟩
    split
    · exact .leaveRoom n _ _
    · exact .refl n

/-- The client stays, or goes to the room and asks for its history. -/
theorem handleSwitchRoom_spec (env : Env) (n : Node) (c : Client) (room : Value) :
    Quiet n (n.handleSwitchRoom env c room).1 ∨
      ∃ r n₁, n.switchedRoom c room = some r ∧ Quiet n n₁ ∧
        Asks env n₁ c.id r (.switch r) (n.handleSwitchRoom env c room).1 := by
  rcases handleSwitchRoom_outcome env n c room with
    ⟨-, h | ⟨code, text, h⟩⟩ | ⟨username, r, -, hr, h⟩ <;> rw [h]
  · exact Or.inl (.refl n)
  · exact Or.inl (.sendError n _ _ _)
  · exact Or.inr ⟨r, n.moveTo c username r, hr, .moveTo n _ _ _,
      awaitHistory_spec fun n history ↦ n.finishSwitchRoom_spec c.id r history⟩

/-- The room is created, and the client switches to it as it would to any other. -/
theorem handleCreateRoom_spec (env : Env) (n : Node) (c : Client) (data : Obj) :
    Quiet n (n.handleCreateRoom env c data).1 ∨
      ∃ r n₁, (n.ensureRoom (createdRoom env data)).switchedRoom c (.str (createdRoom env data)) =
          some r ∧ Quiet n n₁ ∧
        Asks env n₁ c.id r (.switch r) (n.handleCreateRoom env c data).1 := by
  rcases handleCreateRoom_outcome env n c data with
    ⟨-, h | ⟨code, text, h⟩⟩ | ⟨n₁, hn₁, h⟩ <;> rw [h]
  · exact Or.inl (.refl n)
  · exact Or.inl (.sendError n _ _ _)
  · have hcreate : Quiet n n₁ := by
      rcases hn₁ with rfl | ⟨rooms, rfl⟩
      · exact .ensureRoom n _
      · exact (Quiet.ensureRoom n _).trans (.broadcastToAll _ rfl)
    rcases handleSwitchRoom_spec env n₁ c (.str (createdRoom env data)) with
      hq | ⟨r, n₂, hr, hq, hasks⟩
    · exact Or.inl (hcreate.trans hq)
    · refine Or.inr ⟨r, n₂, ?_, hcreate.trans hq, hasks⟩
      rw [← hr]
      rcases hn₁ with rfl | ⟨rooms, rfl⟩ <;> rfl

/-! ## Messages to a room

A message comes in by a frame, a request or an item of gossip, and from there on the three
handlers do the same: file, tell, store, publish.  `Submission` holds what they do it with, so
that there is one lemma about submissions instead of three about handlers. -/

/-- A message that comes in by one of the three ways: a frame, a request, gossip. -/
structure Submission where
  room : Value
  /-- What is filed in the feed cache. -/
  cached : Obj
  /-- What is broadcast. -/
  told : Obj
  /-- What the executor gets. -/
  job : Option Job

/-- The node handles a submission: it files the message, broadcasts it and hands it to the executor,
up to the first of these that raises.  Whatever else it does is quiet. -/
def Submits (env : Env) (n : Node) (now : ℤ) (s : Submission) (n' : Node) : Prop :=
  n' = n ∨ ∃ store n₁ n₂, n.store.cachePut env.lib now s.room s.cached = .ok store ∧
    (n₁ = { n with store := store } ∨
      ∃ r, s.room = .str r ∧ n₁ = { n with store := store }.broadcast r (.message s.told) none) ∧
    Quiet n₁ n₂ ∧ (n' = n₂ ∨ ∃ j, s.job = some j ∧ Quiet (n₂.spawn j) n')

/-- A message is broadcast to its room, which is a string then, or nobody is told anything. -/
theorem tryBroadcast_spec (n : Node) (room : Value) (f : Frame) :
    (n.tryBroadcast room f).1 = n ∨
      ∃ r, room = .str r ∧ (n.tryBroadcast room f).1 = n.broadcast r f none := by
  unfold tryBroadcast
  split
  · rename_i r
    split
    · split
      · exact Or.inr ⟨r, rfl, rfl⟩
      · exact Or.inl rfl
    · exact Or.inl rfl
  · split <;> exact Or.inl rfl

/-- What is broadcast concerns the links only. -/
theorem records_tryBroadcast (n : Node) (room : Value) (f : Frame) :
    (n.tryBroadcast room f).1.rooms = n.rooms ∧
      (n.tryBroadcast room f).1.clientsById = n.clientsById := by
  rcases tryBroadcast_spec n room f with h | ⟨r, -, h⟩ <;> rw [h]
  · exact ⟨rfl, rfl⟩
  · exact ⟨rfl, rfl⟩

theorem records_receiveItem (env : Env) (n : Node) (item : Value) (now : ℤ) :
    (n.receiveItem env item now).1.rooms = n.rooms ∧
      (n.receiveItem env item now).1.clientsById = n.clientsById := by
  rw [receiveItem]
  split
  · exact ⟨rfl, rfl⟩
  · split
    · exact ⟨rfl, rfl⟩
    · exact records_tryBroadcast _ _ _

/-- The common middle of the three handlers: the message has been filed, and is told now. -/
theorem Submits.of_tryBroadcast {env : Env} {n n' : Node} {now : ℤ} {s : Submission} {store : Store}
    (hstore : n.store.cachePut env.lib now s.room s.cached = .ok store)
    (h : n' = ({ n with store := store }.tryBroadcast s.room (.message s.told)).1 ∨
      ∃ j, s.job = some j ∧
        Quiet (({ n with store := store }.tryBroadcast s.room (.message s.told)).1.spawn j) n') :
    Submits env n now s n' :=
  Or.inr ⟨store, _, _, hstore, tryBroadcast_spec _ s.room (.message s.told), .refl _, h⟩

/-- A submission neither adds nor removes a client. -/
theorem Submits.sameMembers {env : Env} {n n' : Node} {now : ℤ} {s : Submission}
    (h : Submits env n now s n') : SameMembers n n' := by
  rcases h with rfl | ⟨store, n₁, n₂, -, h₁, h₂, h₃⟩
  · exact .refl _
  · have hn₁ : SameMembers n n₁ := by
      rcases h₁ with rfl | ⟨r, -, rfl⟩
      · exact ⟨rfl, rfl⟩
      · exact ⟨rfl, rfl⟩
    refine (hn₁.trans h₂.toSameMembers).trans ?_
    rcases h₃ with rfl | ⟨j, -, h₃⟩
    · exact .refl _
    · exact (show SameMembers n₂ (n₂.spawn j) from ⟨rfl, rfl⟩).trans h₃.toSameMembers

/-! ## What is submitted

For each of the three ways in, the submission is computed from the event and the record of the
client.  It is `none` where the handler ignores the event or refuses it. -/

/-- What a message frame submits. -/
def frameSubmission (env : Env) (c : Client) (data : Obj) (now : ℤ) (uuid : Str) :
    Option Submission :=
  match c.username, frameText env ((data.get "text").or (data.get "msg")),
      ((data.get "timestamp").or (.int now)).toInt env.lib with
  | some username, x :: text, .ok timestamp =>
    let msg := roomMessage (frameId env data uuid) username (x :: text) c.room timestamp
    some ⟨.str c.room, msg, msg, some (.append (.str c.room) msg c.privateKey)⟩
  | _, _, _ => none

theorem messageSender_roomMessage (msgId username text room : Str) (timestamp : ℤ) :
    messageSender (roomMessage msgId username text room timestamp) =
      .str (orAnonymous username) := by
  cases username <;> rfl

/-- What a request submits. -/
def postSubmission (env : Env) (body : Body) (query : Obj) (now : ℤ) (uuid : Str) :
    Option Submission :=
  match body.data with
  | some (.dict data) =>
    if (msgText data query).truthy then
      let id := postedId data query uuid
      let room := postedRoom env data query
      let timestamp := postedTimestamp env data query now
      let username := cleaned env (clientName data query) maxUsernameLen
      let text := cleaned env (msgText data query) maxMessageLen
      let msgObj := messageObj id username text room timestamp
      some ⟨room, fullMessage id (.str username) (.str text) room (.int timestamp), msgObj,
        some (.append room msgObj none)⟩
    else none
  | _ => none

/-- What a gossip item submits. -/
def itemSubmission (env : Env) (now : ℤ) (item : Value) : Option Submission :=
  (gossipMessage env item now).map fun (room, msg) ↦ ⟨room, msg, msg, none⟩

/-- What an event submits. -/
def Event.submissions (env : Env) (n : Node) : Event → List Submission
  | .frame id (.dict fields) now uuid =>
    if (Obj.get fields "type").str? = some (lit "message") then
      ((n.clientsById.get? id).bind fun c ↦ frameSubmission env c fields now uuid).toList
    else []
  | .post body query now uuid => (postSubmission env body query now uuid).toList
  | .gossip (some v) now => (gossipItems v).filterMap (itemSubmission env now)
  | _ => []

/-! ## The three handlers

One outcome lemma for the frame and one for the request, from which the spec lemmas follow.  The
items of a gossip request are handled one by one. -/

/-- The frame is ignored or raises, or its message is filed, told to the room, handed to the
executor and published. -/
theorem handleMessage_outcome (env : Env) (n : Node) (c : Client) (data : Obj) (now : ℤ)
    (uuid : Str) :
    frameSubmission env c data now uuid = none ∧
        (∃ e, n.handleMessage env c data now uuid = (n, e)) ∨
      ∃ s job, frameSubmission env c data now uuid = some s ∧ s.room = .str c.room ∧
        s.job = some job ∧
        ((∃ e, n.store.cachePut env.lib now s.room s.cached = .error e ∧
            n.handleMessage env c data now uuid = (n, some e)) ∨
          ∃ store, n.store.cachePut env.lib now s.room s.cached = .ok store ∧
            n.handleMessage env c data now uuid =
              (((({ n with store := store }.broadcast c.room (.message s.told) none).send c.id
                (.delivered (frameId env data uuid))).spawn job).broadcastGossip s.room s.told,
                none)) := by
  rw [handleMessage, frameSubmission]
  cases c.username with
  | none => exact Or.inl ⟨rfl, _, rfl⟩
  | some username =>
    cases frameText env ((data.get "text").or (data.get "msg")) with
    | nil => exact Or.inl ⟨rfl, _, rfl⟩
    | cons x text =>
      cases ((data.get "timestamp").or (.int now)).toInt env.lib with
      | error e => exact Or.inl ⟨rfl, _, rfl⟩
      | ok timestamp =>
        refine Or.inr ⟨_, _, rfl, rfl, rfl, ?_⟩
        simp only
        split
        · rename_i e hput
          exact Or.inl ⟨e, hput, rfl⟩
        · rename_i store hput
          exact Or.inr ⟨store, hput, rfl⟩

/-- A message frame submits what `frameSubmission` computes, or nothing. -/
theorem handleMessage_spec (env : Env) (n : Node) (c : Client) (data : Obj) (now : ℤ) (uuid : Str) :
    (n.handleMessage env c data now uuid).1 = n ∨
      ∃ s, frameSubmission env c data now uuid = some s ∧
        Submits env n now s (n.handleMessage env c data now uuid).1 := by
  rcases handleMessage_outcome env n c data now uuid with
    ⟨-, e, h⟩ | ⟨s, job, hs, hroom, hjob, ⟨e, -, h⟩ | ⟨store, hput, h⟩⟩ <;> rw [h]
  · exact Or.inl rfl
  · exact Or.inl rfl
  · exact Or.inr ⟨s, hs, Or.inr ⟨store, _, _, hput, Or.inr ⟨c.room, hroom, rfl⟩,
      .send _ c.id (f := .delivered (frameId env data uuid)) rfl,
      Or.inr ⟨job, hjob, .broadcastGossip _ _ _⟩⟩⟩

/-- The request leaves the node as it is, or its message is filed and told to the room and, if this
did not raise, handed to the executor and published. -/
theorem postMessage_outcome (env : Env) (n : Node) (body : Body) (query : Obj) (now : ℤ)
    (uuid : Str) : (n.postMessage env body query now uuid).1 = n ∨
      ∃ s store n₁, postSubmission env body query now uuid = some s ∧
        n.store.cachePut env.lib now s.room s.cached = .ok store ∧
        ({ n with store := store }.tryBroadcast s.room (.message s.told)).1 = n₁ ∧
        ((n.postMessage env body query now uuid).1 = n₁ ∨ ∃ job, s.job = some job ∧
          (n.postMessage env body query now uuid).1 =
            (n₁.spawn job).broadcastGossip s.room s.told) := by
  rw [postMessage]
  split
  · exact Or.inl rfl
  · rename_i data hdata
    split
    · rename_i htext
      simp only
      split
      · exact Or.inl rfl
      · rename_i store hstore
        refine Or.inr ⟨_, store, _, by rw [postSubmission, hdata]; exact if_pos htext, hstore,
          rfl, ?_⟩
        split
        · rename_i n₁ e htell
          exact Or.inl (Prod.ext_iff.mp htell).1.symm
        · rename_i n₁ htell
          obtain rfl := (Prod.ext_iff.mp htell).1
          exact Or.inr ⟨_, rfl, rfl⟩
    · exact Or.inl rfl
  · exact Or.inl rfl

/-- A request submits what `postSubmission` computes, or nothing. -/
theorem postMessage_spec (env : Env) (n : Node) (body : Body) (query : Obj) (now : ℤ)
    (uuid : Str) : (n.postMessage env body query now uuid).1 = n ∨
      ∃ s, postSubmission env body query now uuid = some s ∧
        Submits env n now s (n.postMessage env body query now uuid).1 := by
  rcases postMessage_outcome env n body query now uuid with
    h | ⟨s, store, n₁, hs, hstore, rfl, h | ⟨job, hjob, h⟩⟩ <;> rw [h]
  · exact Or.inl rfl
  · exact Or.inr ⟨s, hs, .of_tryBroadcast hstore (Or.inl rfl)⟩
  · exact Or.inr ⟨s, hs, .of_tryBroadcast hstore (Or.inr ⟨job, hjob, .broadcastGossip _ _ _⟩)⟩

/-- An item of gossip submits what `itemSubmission` computes, or nothing. -/
theorem receiveItem_spec (env : Env) (n : Node) (item : Value) (now : ℤ) :
    (n.receiveItem env item now).1 = n ∨
      ∃ s, itemSubmission env now item = some s ∧
        Submits env n now s (n.receiveItem env item now).1 := by
  rw [receiveItem]
  split
  · exact Or.inl rfl
  · rename_i room msg hitem
    split
    · exact Or.inl rfl
    · rename_i store hstore
      exact Or.inr ⟨_, by rw [itemSubmission, hitem]; rfl, .of_tryBroadcast hstore (Or.inl rfl)⟩

/-- What survives every item of a gossip request survives the request. -/
theorem receiveItems_preserves {env : Env} {now : ℤ} {I : Node → Prop} {items : List Value}
    (hstep : ∀ item ∈ items, ∀ n, I n → I (n.receiveItem env item now).1) :
    ∀ n, I n → I (receiveItems env now n items) := by
  induction items with
  | nil => exact fun n h ↦ h
  | cons item items ih =>
    intro n h
    have hitem := hstep item List.mem_cons_self n h
    rw [receiveItems]
    split
    · rename_i n' hn'
      rw [hn'] at hitem
      exact ih (fun item hm ↦ hstep item (List.mem_cons_of_mem _ hm)) n' hitem
    · rename_i n' e hn'
      rw [hn'] at hitem
      exact hitem

theorem SameMembers.receiveGossip (env : Env) (n : Node) (data : Option Value) (now : ℤ) :
    SameMembers n (n.receiveGossip env data now) := by
  cases data with
  | none => exact .refl n
  | some v =>
    refine receiveItems_preserves (I := SameMembers n) (fun item _ n' h ↦ h.trans ?_) n (.refl n)
    rcases receiveItem_spec env n' item now with heq | ⟨s, -, hsub⟩
    · rw [heq]
      exact .refl n'
    · exact hsub.sameMembers

/-! ## Private messages

A private message is told to two clients, and is not filed by the handler: this is left to the job
that stores it. -/

/-- The sender and the addressee get the message, and the executor gets it. -/
theorem handlePrivateMessage_spec (env : Env) (n : Node) (c : Client) (data : Obj) (now : ℤ)
    (uuid : Str) : Quiet n (n.handlePrivateMessage env c data now uuid) ∨
      ∃ username targetId, c.username = some username ∧
        n.usernameToId.get? (env.lib.lower (targetName env (data.get "to"))) = some targetId ∧
        n.handlePrivateMessage env c data now uuid =
          let dm := directMessage uuid username (targetName env (data.get "to"))
            (frameText env (data.get "text")) now
          ((n.send targetId (.privateMessage dm)).send c.id (.privateMessage dm)).spawn
            (.append (.str (pairRoom env username (targetName env (data.get "to")))) dm
              c.privateKey) := by
  rcases handlePrivateMessage_outcome env n c data now uuid with h | ⟨code, text, h⟩ | h
  · rw [h]
    exact Or.inl (.refl n)
  · rw [h]
    exact Or.inl (.sendError n _ _ _)
  · exact Or.inr h

/-! ## Frames

`_dispatch` chooses the handler by the type of the frame.  `Handled` has a case for each of the
handlers, with what is returned; `Dispatched` keeps apart only those that do more than change
rooms and flags. -/

/-- The types of the frames that concern more than one flag. -/
def majorTypes : List Str :=
  [lit "join", lit "message", lit "private_message", lit "switch_room", lit "create_room"]

/-- The handler that `_dispatch` picks for a frame, with what it returns. -/
inductive Handled (env : Env) (n : Node) (c : Client) (data : Obj) (now : ℤ) (uuid : Str) :
    Node × Option PyError → Prop
  | join {r : Node × Option PyError} (type : data.get "type" = .str (lit "join"))
      (h : n.handleJoin env c data = some r) : Handled env n c data now uuid r
  | message (type : data.get "type" = .str (lit "message")) :
      Handled env n c data now uuid (n.handleMessage env c data now uuid)
  | privateMessage (type : data.get "type" = .str (lit "private_message")) :
      Handled env n c data now uuid (n.handlePrivateMessage env c data now uuid, none)
  | switchRoom (type : data.get "type" = .str (lit "switch_room")) :
      Handled env n c data now uuid (n.handleSwitchRoom env c (data.get "room"))
  | createRoom (type : data.get "type" = .str (lit "create_room")) :
      Handled env n c data now uuid (n.handleCreateRoom env c data)
  | typing (type : ∀ t ∈ majorTypes, data.get "type" ≠ .str t) :
      Handled env n c data now uuid (n.handleTyping c, none)
  | moderation (type : ∀ t ∈ majorTypes, data.get "type" ≠ .str t) (action : Action) :
      Handled env n c data now uuid (n.handleModeration env c data action, none)
  | ignored (type : ∀ t ∈ majorTypes, data.get "type" ≠ .str t) :
      Handled env n c data now uuid (n, none)

/-- **Every frame is handled by one of the handlers.** -/
theorem handled {env : Env} {n : Node} {c : Client} {data : Obj} {now : ℤ} {uuid : Str}
    {r : Node × Option PyError} (h : n.dispatch env c data now uuid = some r) :
    Handled env n c data now uuid r := by
  rw [dispatch] at h
  split at h
  · rename_i type htype
    split at h
    · rename_i hjoin
      exact .join (hjoin ▸ htype) h
    · rename_i hjoin
      simp only [← apply_ite some] at h
      obtain rfl := Option.some.inj h
      split
      · rename_i hmessage
        exact .message (hmessage ▸ htype)
      · rename_i hmessage
        split
        · rename_i hprivate
          exact .privateMessage (hprivate ▸ htype)
        · rename_i hprivate
          split
          · rename_i hswitch
            exact .switchRoom (hswitch ▸ htype)
          · rename_i hswitch
            split
            · rename_i hcreate
              exact .createRoom (hcreate ▸ htype)
            · rename_i hcreate
              have hminor : ∀ t ∈ majorTypes, data.get "type" ≠ .str t := by
                intro t ht heq
                obtain rfl : type = t := Value.str.inj (htype.symm.trans heq)
                simp [majorTypes, hjoin, hmessage, hprivate, hswitch, hcreate] at ht
              split
              · exact .typing hminor
              · split
                · exact .moderation hminor _
                · split
                  · exact .moderation hminor _
                  · split
                    · exact .moderation hminor _
                    · exact .ignored hminor
  · rename_i hnot
    obtain rfl := Option.some.inj h
    exact .ignored fun t _ heq ↦ hnot t heq

/-- The same, for a reader whom the quiet handlers do not concern. -/
inductive Dispatched (env : Env) (n : Node) (c : Client) (data : Obj) (now : ℤ) (uuid : Str) :
    Node × Option PyError → Prop
  | join {r : Node × Option PyError} (type : data.get "type" = .str (lit "join"))
      (h : n.handleJoin env c data = some r) : Dispatched env n c data now uuid r
  | message (type : data.get "type" = .str (lit "message")) :
      Dispatched env n c data now uuid (n.handleMessage env c data now uuid)
  | privateMessage (type : data.get "type" = .str (lit "private_message")) :
      Dispatched env n c data now uuid (n.handlePrivateMessage env c data now uuid, none)
  | switchRoom (type : data.get "type" = .str (lit "switch_room")) :
      Dispatched env n c data now uuid (n.handleSwitchRoom env c (data.get "room"))
  | createRoom (type : data.get "type" = .str (lit "create_room")) :
      Dispatched env n c data now uuid (n.handleCreateRoom env c data)
  | quiet {n' : Node} (h : Quiet n n') : Dispatched env n c data now uuid (n', none)

theorem Handled.dispatched {env : Env} {n : Node} {c : Client} {data : Obj} {now : ℤ} {uuid : Str}
    {r : Node × Option PyError} (h : Handled env n c data now uuid r) :
    Dispatched env n c data now uuid r := by
  cases h with
  | join type h => exact .join type h
  | message type => exact .message type
  | privateMessage type => exact .privateMessage type
  | switchRoom type => exact .switchRoom type
  | createRoom type => exact .createRoom type
  | typing type => exact .quiet (.handleTyping n c)
  | moderation type action => exact .quiet (.handleModeration env n c data action)
  | ignored type => exact .quiet (.refl n)

/-! ## The receive loop

What goes before and after a handler: the activity is noted, and the connection is ended if
something was raised. -/

/-- A frame is handled for a client that does not wait; if its handler raises, or there is none, the
connection ends. -/
theorem receive_handled {env : Env} {n n' : Node} {id : Str} {data : Value} {now : ℤ} {uuid : Str}
    (h : n.receive env id data now uuid = some n') :
    ∃ c, n.clientsById.get? id = some c ∧ c.waiting = none ∧
      ((∃ fields r, data = .dict fields ∧
          Handled env (n.noteActivity id c now) (c.activeAt now) fields now uuid r ∧
          n' = afterHandler env id r) ∨
        (∀ fields, data ≠ .dict fields) ∧
          n' = (n.noteActivity id c now).closeConnection env id) := by
  rw [receive] at h
  split at h
  · rename_i c hc
    split at h
    · simp at h
    · rename_i hwaiting
      refine ⟨c, hc, hwaiting, ?_⟩
      split at h
      · obtain ⟨r, hr, rfl⟩ := Option.map_eq_some_iff.mp h
        exact Or.inl ⟨_, r, rfl, handled hr, rfl⟩
      · rename_i hdata
        exact Or.inr ⟨fun fields heq ↦ hdata fields heq, (Option.some.inj h).symm⟩
  · simp at h

/-- A frame, from the side of a reader whom the quiet handlers do not concern. -/
theorem receive_spec {env : Env} {n n' : Node} {id : Str} {data : Value} {now : ℤ} {uuid : Str}
    (h : n.receive env id data now uuid = some n') :
    ∃ c, n.clientsById.get? id = some c ∧ c.waiting = none ∧
      ((∃ fields r, data = .dict fields ∧
          Dispatched env (n.noteActivity id c now) (c.activeAt now) fields now uuid r ∧
          n' = afterHandler env id r) ∨
        (∀ fields, data ≠ .dict fields) ∧
          n' = (n.noteActivity id c now).closeConnection env id) := by
  obtain ⟨c, hc, hwaiting, hcases⟩ := receive_handled h
  refine ⟨c, hc, hwaiting, hcases.imp_left ?_⟩
  rintro ⟨fields, r, hdata, hr, hn'⟩
  exact ⟨fields, r, hdata, hr.dispatched, hn'⟩

/-- The handler goes on with the history, or the connection is closed if the query has raised. -/
theorem resume_outcome {env : Env} {n n' : Node} {id : Str} (h : n.resume env id = some n') :
    ∃ c, n.clientsById.get? id = some c ∧
      ((∃ room history, c.waiting = some (.joinReady room (.ok history)) ∧
          n' = afterHandler env id
            ((n.updateClient id fun c ↦ { c with waiting := none }).finishJoin id room history)) ∨
        (∃ room history, c.waiting = some (.switchReady room (.ok history)) ∧
          n' = afterHandler env id ((n.updateClient id fun c ↦
            { c with waiting := none }).finishSwitchRoom id room history)) ∨
        ∃ w e, c.waiting = some w ∧ w.result? = some (.error e) ∧
          n' = (n.updateClient id fun c ↦ { c with waiting := none }).closeConnection env id) := by
  rw [resume] at h
  split at h
  · rename_i c hc
    refine ⟨c, hc, ?_⟩
    simp only at h
    split at h
    · rename_i room history hw
      exact Or.inl ⟨room, history, hw, (Option.some.inj h).symm⟩
    · rename_i room history hw
      exact Or.inr (Or.inl ⟨room, history, hw, (Option.some.inj h).symm⟩)
    · rename_i room e hw
      exact Or.inr (Or.inr ⟨_, e, hw, rfl, (Option.some.inj h).symm⟩)
    · rename_i room e hw
      exact Or.inr (Or.inr ⟨_, e, hw, rfl, (Option.some.inj h).symm⟩)
    · simp at h
  · simp at h

/-- A handler that goes on tells its client the history it has waited for. -/
theorem resume_spec {env : Env} {n n' : Node} {id : Str} (h : n.resume env id = some n') :
    ∃ n₁, Quiet n n₁ ∧ (n' = n₁.closeConnection env id ∨
      ∃ w history r, n.waitingAt id = some w ∧ w.result? = some (.ok history) ∧
        TellsHistory n₁ id history r.1 ∧ n' = afterHandler env id r) := by
  obtain ⟨c, hc, hcases⟩ := resume_outcome h
  have hwaiting : n.waitingAt id = c.waiting := by
    rw [Node.waitingAt, hc]
    rfl
  refine ⟨n.updateClient id fun c ↦ { c with waiting := none },
    .updateClient n id (fun _ ↦ rfl) fun c w h ↦ absurd h (by simp), ?_⟩
  rcases hcases with ⟨room, history, hw, rfl⟩ | ⟨room, history, hw, rfl⟩ | ⟨w, e, -, -, rfl⟩
  · exact Or.inr ⟨_, history, _, hwaiting.trans hw, rfl, finishJoin_spec _ _ _ _, rfl⟩
  · exact Or.inr ⟨_, history, _, hwaiting.trans hw, rfl, finishSwitchRoom_spec _ _ _ _, rfl⟩
  · exact Or.inl rfl

end Node
end GroupChat
