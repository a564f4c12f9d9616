import GroupChat.Server.Records
import GroupChat.Server.RoomLists
import GroupChat.Py.Utf8

/-!
# The rooms that a client is shown

The list of rooms comes to a client with the welcome, after its join, and whenever somebody makes a
room.  The page builds HTML of the names in it, and a click on one of them is a request to switch to
the room.

* `Frame.ShowsRooms`: the rooms in a frame are those of a node.
* `shows_step`: whatever rooms a frame shows are those that there are after the step in which it is
  emitted.  The cause of the frame says of which state they are read off; what the step does after
  that changes no rooms (`GainsRooms.of_joining`, `GainsRooms.of_made`).
* `shown_at`: what a client has been shown are the rooms of some earlier state, so all of them are
  still there, and every request to switch to one of them is carried out (`switch_shown`).  The
  handler may have to wait for the history; what happens then is up to `room_stays` and
  `noErrors_of_trace`.
* `roomItem` is the HTML of a room.  `markup_of_rooms`: there is no markup in it but that of the
  page, whatever names the users have asked for.
-/

set_option autoImplicit false

namespace GroupChat

open Transition

/-! ## Frames with rooms

Two kinds of frames have a list of rooms in them, and the list is made by `list_rooms` at the
moment in which the frame is made. -/

/-- The rooms in a frame. -/
def Frame.rooms? : Frame → Option (List RoomInfo)
  | .welcome _ _ _ _ rooms _ _ => some rooms
  | .roomList rooms => some rooms
  | _ => none

/-- If there are rooms in the frame, they are those of the node, in the order of their names. -/
def Frame.ShowsRooms (n : Node) (f : Frame) : Prop :=
  ∀ rooms, f.rooms? = some rooms → rooms.map RoomInfo.name = n.listRooms.map RoomInfo.name

/-- The frame says that something has been refused. -/
def Frame.IsError (f : Frame) : Prop := ∃ code text, f = .error code text

namespace Node

variable {env : Env} {n n' : Node} {id : Str} {f : Frame}

/-- Nodes with the same rooms list them in the same way. -/
theorem listRooms_congr (h : GainsRooms [] n n') :
    n.listRooms.map RoomInfo.name = n'.listRooms.map RoomInfo.name := by
  have hkeys : n.rooms.keys.Perm n'.rooms.keys :=
    (List.perm_ext_iff_of_nodup n.rooms.nodup n'.rooms.nodup).mpr fun r ↦ by
      show r ∈ n.rooms.keys ↔ r ∈ n'.rooms.keys
      rw [h r]
      simp
  have hperm := ((names_listRooms n).trans hkeys).trans (names_listRooms n').symm
  have hsorted : ∀ m : Node,
      (m.listRooms.map RoomInfo.name).Pairwise fun s t ↦ strLe s t = true :=
    fun m ↦ List.pairwise_map.mpr (sorted_listRooms m)
  exact hperm.eq_of_pairwise (fun s t _ _ h h' ↦ strLe_antisymm h h') (hsorted n) (hsorted n')

theorem GainsRooms.unique {new : List Str} {m : Node} (h : GainsRooms new n n')
    (h' : GainsRooms new n m) : GainsRooms [] n' m := by
  intro r
  rw [h r, h' r]
  simp

/-- The rooms of a frame are still those of the node after steps that change no rooms. -/
theorem shows_of_gainsRooms (h : GainsRooms [] n n') (hf : ∀ rooms, f.rooms? = some rooms →
    rooms.map RoomInfo.name = n.listRooms.map RoomInfo.name) : f.ShowsRooms n' :=
  fun rooms hrooms ↦ (hf rooms hrooms).trans (listRooms_congr h)

theorem showsRooms_of_none (h : f.rooms? = none) : f.ShowsRooms n :=
  fun rooms hrooms ↦ absurd (h.symm.trans hrooms) (by simp)

/-- A join that is carried out makes the room that is asked for. -/
theorem GainsRooms.register (n : Node) (c : Client) (name room : Str) :
    GainsRooms [room] n (n.register env c name room) := by
  have hleft : GainsRooms [] n (if c.room ≠ room then n.leaveRoom c.room c.id else n) := by
    split
    · exact .leaveRoom n _ _
    · exact .refl n
  rw [Node.register]
  exact (hleft.trans_right (.of_eq rfl)).trans (.joinRoom _ _ _ _)

/-- A create frame that is carried out makes the room that is asked for. -/
theorem GainsRooms.createdRoom (n : Node) {c : Client} {data : Obj}
    (husername : c.username.isSome = true)
    (hvalid : isValidRoomName (.str (createdRoom env data)) = true) :
    GainsRooms [Node.createdRoom env data] n (n.handleCreateRoom env c data).1 := by
  obtain ⟨username, hname⟩ := Option.isSome_iff_exists.mp husername
  have hannounced : GainsRooms [Node.createdRoom env data] n
      (n.announceRoom (Node.createdRoom env data)) :=
    (GainsRooms.ensureRoom n _).trans_right (.of_eq (rooms_announceRoom _ _))
  rw [Node.handleCreateRoom, hname]
  simp only [hvalid, if_true]
  exact hannounced.trans_right (.handleSwitchRoom _ c _)

/-! ## Steps

A handler may make a room before it lists them, or list them before its step is over.  The rooms
are the same in both cases, as at most one room is made in a step and the list is made after
that. -/

/-- What the handler of a frame leaves behind. -/
theorem dispatch_of_step {data : Obj} {now : ℤ} {uuid : Str} {c : Client}
    (h : n.step env (.frame id (.dict data) now uuid) = some n')
    (hc : n.clientsById.get? id = some c) : ∃ r,
      (n.noteActivity id c now).dispatch env (c.activeAt now) data now uuid = some r ∧
        n' = afterHandler env id r := by
  change n.receive env id (.dict data) now uuid = some n' at h
  rw [Node.receive, hc] at h
  simp only at h
  split at h
  · simp at h
  · obtain ⟨r, hr, rfl⟩ := Option.map_eq_some_iff.mp h
    exact ⟨r, hr, rfl⟩

/-- Once a join goes on, no rooms are made any more. -/
theorem GainsRooms.of_joining {a : Event} {m : Node} {room : Str} {history : List Obj}
    (ha : a.Joining env n id m room history) (h : n.step env a = some n') :
    GainsRooms [] m n' := by
  cases ha with
  | @atOnce _ username uuid data now c _ htype hc hnew hname hm =>
    obtain ⟨r, hr, rfl⟩ := dispatch_of_step h hc
    have hjoin : (n.noteActivity id c now).handleJoin env (c.activeAt now) data = some r := by
      rw [dispatch, htype] at hr
      exact hr
    have hgains := GainsRooms.handleJoin hjoin
    rw [show (c.activeAt now).explicitlyJoined = false from hnew, if_neg (by simp)] at hgains
    rw [hm]
    exact ((GainsRooms.register _ _ username _).unique hgains).trans_right (.afterHandler (.refl _))
  | waited hwaiting =>
    obtain ⟨c, hc, hcases⟩ := resume_outcome (show n.resume env id = some n' from h)
    have hw : c.waiting = some (.joinReady room (.ok history)) := by
      rw [waitingAt, hc] at hwaiting
      exact hwaiting
    rcases hcases with ⟨room', history', -, rfl⟩ | ⟨room', history', hw', -⟩ | ⟨w, e, hw', he, -⟩
    · exact .afterHandler (.of_eq (finishJoin_records _ _ _ history').2)
    · exact absurd (hw.symm.trans hw') (by simp)
    · obtain rfl := Option.some.inj (hw.symm.trans hw')
      exact absurd he (by simp [Waiting.result?])

/-- Once a room has been made, no rooms are made any more. -/
theorem GainsRooms.of_made {a : Event} {data : Obj} {c : Client}
    (ha : a.IsFrame id (lit "create_room") data) (hc : n.clientsById.get? id = some c)
    (husername : c.username.isSome = true)
    (hvalid : isValidRoomName (.str (Node.createdRoom env data)) = true)
    (h : n.step env a = some n') :
    GainsRooms [] (n.ensureRoom (Node.createdRoom env data)) n' := by
  obtain ⟨htype, now, uuid, rfl⟩ := ha
  obtain ⟨r, hr, rfl⟩ := dispatch_of_step h hc
  have hcreate : (n.noteActivity id c now).handleCreateRoom env (c.activeAt now) data = r := by
    rw [dispatch, htype] at hr
    exact Option.some.inj hr
  have hmade : GainsRooms [Node.createdRoom env data] n r.1 := by
    have hnoted : GainsRooms [] n (n.noteActivity id c now) :=
      .of_eq (rooms_noteActivity n id c now)
    rw [← hcreate]
    exact hnoted.trans (.createdRoom _ (c := c.activeAt now) husername hvalid)
  exact ((GainsRooms.ensureRoom n _).unique hmade).trans_right (.afterHandler (.refl _))

/-- The rooms that a frame shows are those that there are after the step. -/
theorem Cause.showsRooms {a : Event} (hcause : Cause env n a id f) (h : n.step env a = some n') :
    f.ShowsRooms n' := by
  cases hcause with
  | welcome ha => exact shows_of_gainsRooms (.of_joining ha h) fun _ hrooms ↦
      Option.some.inj hrooms ▸ rfl
  | roomList ha => exact shows_of_gainsRooms (.of_joining ha h) fun _ hrooms ↦
      Option.some.inj hrooms ▸ rfl
  | roomMade ha hc husername hvalid =>
    exact shows_of_gainsRooms (.of_made ha hc husername hvalid h) fun _ hrooms ↦
      Option.some.inj hrooms ▸ rfl
  | _ => exact showsRooms_of_none rfl

/-- **The rooms that are shown** are those that there are after the step. -/
theorem shows_step {a : Event} (hn : Housed n) (haway : AwayOnly n) (h : n.step env a = some n')
    (hf : f ∈ (n'.links id).emitted) : f ∈ (n.links id).emitted ∨ f.ShowsRooms n' := by
  rcases emits_step hn haway h with ⟨id₀, -, -, -, hnew, hothers, -⟩ | hcause
  · by_cases hid : id = id₀
    · rw [hid, hnew] at hf
      exact absurd hf List.not_mem_nil
    · exact Or.inl (hothers id hid ▸ hf)
  · obtain ⟨fs, hfs, hcaused⟩ := hcause.emitted id
    rw [hfs] at hf
    exact (List.mem_append.mp hf).imp_right fun hf ↦ (hcaused f hf).showsRooms h

/-! ## Runs

Since rooms are never taken away, what has been shown once remains true. -/

/-- The rooms that clients have been shown. -/
def IsShown (n : Node) (room : Str) : Prop :=
  ∃ id f rooms r, f ∈ (n.links id).emitted ∧ f.rooms? = some rooms ∧ r ∈ rooms ∧ r.name = room

/-- The rooms that a client has been shown are those of an earlier state. -/
theorem shown_at (h : (system env).Reachable n) (hf : f ∈ (n.links id).emitted)
    {rooms : List RoomInfo} (hrooms : f.rooms? = some rooms) :
    ∃ n₁, (system env).Reachable n₁ ∧ (system env).Run n₁ n ∧
      rooms.map RoomInfo.name = n₁.listRooms.map RoomInfo.name := by
  refine h.invariant_of (I := fun n ↦ ∀ id f rooms, f ∈ (n.links id).emitted →
      f.rooms? = some rooms → ∃ n₁, (system env).Reachable n₁ ∧ (system env).Run n₁ n ∧
        rooms.map RoomInfo.name = n₁.listRooms.map RoomInfo.name)
    (J := (system env).Reachable) (fun _ hn ↦ hn) ?_ ?_ id f rooms hf hrooms
  · rintro n rfl id f rooms hf -
    rw [show ((initial env).links id).emitted = [] from
      initial_of env (I := fun n ↦ (n.links id).emitted = []) rfl fun _ _ h ↦ h] at hf
    exact absurd hf List.not_mem_nil
  · intro n a n' hreach hn hstep id f rooms hf hrooms
    rcases shows_step (housed_of_reachable hreach) (awayOnly_of_reachable hreach) hstep hf with
      hf | hshows
    · obtain ⟨n₁, hn₁, hrun, hnames⟩ := hn id f rooms hf hrooms
      exact ⟨n₁, hn₁, hrun.tail hstep, hnames⟩
    · exact ⟨n', hreach.tail hstep, .refl n', hshows rooms hrooms⟩

/-- A room that somebody has been shown is there. -/
theorem mem_keys_of_isShown (h : (system env).Reachable n) {room : Str} (hroom : n.IsShown room) :
    room ∈ n.rooms.keys := by
  obtain ⟨id, f, rooms, r, hf, hrooms, hr, rfl⟩ := hroom
  obtain ⟨n₁, -, hrun, hnames⟩ := shown_at h hf hrooms
  refine (names_listRooms n).mem_iff.mp (rooms_stay hrun ?_)
  rw [← hnames]
  exact List.mem_map_of_mem hr

/-- The configured rooms are always shown. -/
theorem mem_shown (h : (system env).Reachable n) (hf : f ∈ (n.links id).emitted)
    {rooms : List RoomInfo} (hrooms : f.rooms? = some rooms) {room : Str}
    (hroom : room ∈ env.config.defaultRoom :: env.config.otherRooms) :
    ∃ r ∈ rooms, r.name = room := by
  obtain ⟨n₁, ⟨n₀, rfl, hrun⟩, -, hnames⟩ := shown_at h hf hrooms
  exact List.mem_map.mp
    (hnames ▸ rooms_stay hrun ((names_listRooms _).mem_iff.mpr (defaults_initial env hroom)))

/-- What holds of the configured rooms and of all names that are accepted holds of all rooms. -/
theorem forall_rooms (h : (system env).Reachable n) {p : Str → Prop}
    (hconfig : ∀ room ∈ env.config.defaultRoom :: env.config.otherRooms, p room)
    (hvalid : ∀ room, isValidRoomName (.str room) = true → p room) :
    ∀ room ∈ n.rooms.keys, p room := by
  refine h.invariant (I := fun n ↦ ∀ room ∈ n.rooms.keys, p room) ?_ ?_
  · rintro n rfl
    refine List.foldlRecOn (motive := fun n : Node ↦ ∀ room ∈ n.rooms.keys, p room) _ _
      (by simp [empty]) ?_
    intro n hn room hroom r hr
    rcases (GainsRooms.ensureRoom n room r).mp hr with hr | hr
    · exact hn r hr
    · rw [List.mem_singleton.mp hr]
      exact hconfig room hroom
  · intro n a n' hn hstep room hroom
    rcases gainsRooms_step hstep with ⟨v, -, hgains⟩ | ⟨-, new, hgains, hnew⟩
    · rcases (hgains room).mp hroom with hroom | hroom
      · exact hn room hroom
      · rw [List.mem_singleton.mp hroom]
        rcases roomName_getD env v with hdefault | hname
        · rw [hdefault]
          exact hconfig _ List.mem_cons_self
        · exact hvalid _ hname
    · rcases (hgains room).mp hroom with hroom | hroom
      · exact hn room hroom
      · exact hvalid _ (by simp [isValidRoomName, hnew room hroom])

/-! ## Switching to a room that is shown

The room is there and its name is proper, so the request is carried out: the client is in the room
after the step, and no error is sent to it.  This is so whether the history is cached or has to be
fetched, because the client is moved before. -/

theorem room_moveTo {c : Client} (hc : n.clientsById.get? c.id = some c) (username room : Str) :
    ∃ p, (n.moveTo c username room).placeOf c.id = some p ∧ p.room = room := by
  refine ⟨⟨c.id, room, c.username⟩, ?_, rfl⟩
  show ((n.leaveRoom c.room c.id).updateClient c.id _).placeOf c.id = _
  rw [placeOf_updateClient]
  show (n.clientsById.get? c.id).map _ = _
  rw [hc, Option.map_some, if_pos rfl]
  rfl

/-- A request for a room that is there is carried out, ... -/
theorem handleSwitchRoom_there {c : Client} (hc : n.clientsById.get? c.id = some c)
    (husername : c.username.isSome = true) {room : Str} (hroom : room ∈ n.rooms.keys)
    (hvalid : isValidRoomName (.str room) = true) :
    ∃ p, (n.handleSwitchRoom env c (.str room)).1.placeOf c.id = some p ∧ p.room = room := by
  obtain ⟨username, hname⟩ := Option.isSome_iff_exists.mp husername
  have hthere : ((validRoom? (.str room)).filter fun r ↦ n.rooms.contains r) = some room := by
    rw [validRoom?, if_pos hvalid, Option.filter_some, if_pos (n.rooms.contains_iff.mpr hroom)]
  rw [handleSwitchRoom, hname]
  simp only [hthere]
  split
  · rename_i hsame
    exact ⟨c.place, placeOf_of_get? hc, hsame.symm⟩
  · obtain ⟨p, hp, hproom⟩ := room_moveTo hc username room
    have hsame : SamePlaces (n.moveTo c username room) ((n.moveTo c username room).awaitHistory env
        c.id room (.switch room) fun n history ↦ n.finishSwitchRoom c.id room history).1 :=
      .awaitHistory _ _ _ _ fun history ↦ .finishSwitchRoom _ c.id room history
    exact ⟨p, (congrFun hsame.place c.id).trans hp, hproom⟩

/-- ... and is no cause of an error. -/
theorem Cause.not_isError_of_switch {id' room uuid : Str} {data : Obj} {now : ℤ}
    (hroom : room ∈ n.rooms.keys) (hvalid : isValidRoomName (.str room) = true)
    (htype : data.get "type" = .str (lit "switch_room")) (hdata : data.get "room" = .str room)
    (h : Cause env n (.frame id (.dict data) now uuid) id' f) : ¬f.IsError := by
  have hother : ∀ {type : Str} {fields : Obj}, type ≠ lit "switch_room" →
      ¬(Event.frame id (.dict data) now uuid).IsFrame id' type fields := by
    rintro type fields hne ⟨htype', _, _, heq⟩
    obtain rfl := Value.dict.inj (Event.frame.inj heq).2.1
    exact hne (Value.str.inj (htype'.symm.trans htype))
  have hmoderation : moderation? data = none := by
    rw [moderation?, htype]
    decide
  rintro ⟨code, text, rfl⟩
  cases h with
  | offline ha => exact hother (by decide) ha
  | unknown ha haction =>
    obtain rfl := Value.dict.inj (Event.frame.inj ha).2.1
    exact absurd (hmoderation.symm.trans haction) (by simp)
  | notAdmin ha haction =>
    obtain rfl := Value.dict.inj (Event.frame.inj ha).2.1
    exact absurd (hmoderation.symm.trans haction) (by simp)
  | noSuchRoom ha _ _ hnone =>
    obtain ⟨-, _, _, heq⟩ := ha
    obtain rfl := Value.dict.inj (Event.frame.inj heq).2.1
    rw [hdata, validRoom?, if_pos hvalid, Option.filter_some,
      if_pos (n.rooms.contains_iff.mpr hroom)] at hnone
    simp at hnone
  | badRoomName ha => exact hother (by decide) ha

/-! ## Staying in a room

Until the client sends another frame it stays where it was taken, whatever the others do and
whether or not its handler waits. -/

theorem placeOf_closeConnection (hn : Housed n) (id : Str) :
    (n.closeConnection env id).placeOf id = none := by
  cases hc : n.clientsById.get? id with
  | none => rw [closeConnection, hc, placeOf, hc]; rfl
  | some c =>
    rw [placeOf, get?_closeConnection hc (hn.id id _ (placeOf_of_get? hc))]
    rfl

/-- The client connects or sends a frame. -/
def Event.IsRequestOf (a : Event) (id : Str) : Prop :=
  a.Connects id ∨ ∃ data now uuid, a = .frame id data now uuid

/-- Only a frame of the client takes it to another room. -/
theorem Edit.room_eq {a : Event} {c c' : Client} (h : Edit env n a id c c')
    (ha : ¬a.IsRequestOf id) : c'.room = c.room := by
  cases h with
  | joined hjoin =>
    obtain ⟨-, now, uuid, hframe⟩ := hjoin
    exact absurd (Or.inr ⟨_, now, uuid, hframe⟩) ha
  | moved hmove =>
    rcases hmove with ⟨-, now, uuid, hframe⟩ | ⟨-, now, uuid, hframe⟩
    · exact absurd (Or.inr ⟨_, now, uuid, hframe⟩) ha
    · exact absurd (Or.inr ⟨_, now, uuid, hframe⟩) ha
  | _ => rfl

theorem room_of_edits {a : Event} {c c' : Client}
    (h : Relation.ReflTransGen (Edit env n a id) c c') (ha : ¬a.IsRequestOf id) :
    c'.room = c.room := by
  induction h with
  | refl => rfl
  | tail _ hedit ih => exact (hedit.room_eq ha).trans ih

/-- **A client stays in its room** until it sends another frame. -/
theorem room_stays (h : (system env).Reachable n) {l : List Event}
    (hl : (system env).Trace n l n') (hquiet : ∀ a ∈ l, ¬a.IsRequestOf id) {room : Str}
    (hroom : ∀ p, n.placeOf id = some p → p.room = room) :
    ∀ p, n'.placeOf id = some p → p.room = room := by
  induction hl with
  | nil n => exact hroom
  | @cons n₁ n₂ n₃ a l hs _ ih =>
    obtain ⟨ha, hquiet⟩ := List.forall_mem_cons.mp hquiet
    refine ih (h.tail hs) hquiet fun p hp ↦ ?_
    obtain ⟨c', hc', rfl⟩ := Option.map_eq_some_iff.mp hp
    rcases records_step (housed_of_reachable h) hs hc' with
      ⟨query, now, hconnect, -⟩ | ⟨c, hc, hedits⟩
    · exact absurd (Or.inl ⟨query, now, hconnect⟩) ha
    · exact (room_of_edits hedits ha).trans (hroom c.place (placeOf_of_get? hc))

/-- An error is the answer to a frame. -/
theorem noErrors_of_trace (h : (system env).Reachable n) {l : List Event}
    (hl : (system env).Trace n l n') (hquiet : ∀ a ∈ l, ¬a.IsRequestOf id) :
    ∃ fs, (n'.links id).emitted = (n.links id).emitted ++ fs ∧ ∀ f ∈ fs, ¬f.IsError := by
  induction hl with
  | nil n => exact ⟨[], (List.append_nil _).symm, fun f hf ↦ absurd hf List.not_mem_nil⟩
  | @cons n₁ n₂ n₃ a l hs _ ih =>
    obtain ⟨ha, hquiet⟩ := List.forall_mem_cons.mp hquiet
    obtain ⟨gs, hgs, hno⟩ := ih (h.tail hs) hquiet
    rcases emits_step (housed_of_reachable h) (awayOnly_of_reachable h) hs with
      ⟨id₀, query, now, hconnect, -, hothers, -⟩ | hcause
    · have hid : id ≠ id₀ := by
        rintro rfl
        exact ha (Or.inl ⟨query, now, hconnect⟩)
      exact ⟨gs, by rw [hgs, hothers id hid], hno⟩
    · obtain ⟨fs, hfs, hcaused⟩ := hcause.emitted id
      refine ⟨fs ++ gs, by rw [hgs, hfs, List.append_assoc], fun f hf ↦ ?_⟩
      rcases List.mem_append.mp hf with hf | hf
      · rintro ⟨code, text, rfl⟩
        exact ha (Or.inr (hcaused _ hf).isFrame_of_error)
      · exact hno f hf

/-- **A room that somebody has been shown can be switched to.**  If a client asks for a room that
it, or anybody, has ever been shown, then nobody is sent an error, and the client is in the room
when the frame has been handled, unless its connection has been closed.  Where the handler has to
wait for the history, this is still so when it goes on and ends, and until the client sends another
frame. -/
theorem switch_shown
    (hconfig : ∀ room ∈ env.config.defaultRoom :: env.config.otherRooms,
      isValidRoomName (.str room) = true)
    (h : (system env).Reachable n) {room : Str} (hroom : n.IsShown room) {c : Client}
    (hc : n.clientsById.get? id = some c) (husername : c.username.isSome = true) {data : Obj}
    (htype : data.get "type" = .str (lit "switch_room")) (hdata : data.get "room" = .str room)
    {now : ℤ} {uuid : Str} (hstep : n.step env (.frame id (.dict data) now uuid) = some n') :
    (∀ p, n'.placeOf id = some p → p.room = room) ∧
      (∀ id' fs, (n'.links id').emitted = (n.links id').emitted ++ fs → ∀ f ∈ fs, ¬f.IsError) ∧
        ∀ l m, (system env).Trace n' l m → (∀ a ∈ l, ¬a.IsRequestOf id) →
          (∀ p, m.placeOf id = some p → p.room = room) ∧
            ∃ fs, (m.links id).emitted = (n'.links id).emitted ++ fs ∧ ∀ f ∈ fs, ¬f.IsError := by
  have hn := housed_of_reachable h
  have hkeys := mem_keys_of_isShown h hroom
  have hvalid := forall_rooms h hconfig (fun _ hr ↦ hr) room hkeys
  obtain rfl : c.id = id := hn.id id _ (placeOf_of_get? hc)
  have hget := get?_noteActivity hc now
  have hthere : room ∈ (n.noteActivity c.id c now).rooms.keys := by
    rw [rooms_noteActivity]
    exact hkeys
  obtain ⟨p, hp, hproom⟩ : ∃ p, ((n.noteActivity c.id c now).handleSwitchRoom env
      (c.activeAt now) (.str room)).1.placeOf c.id = some p ∧ p.room = room :=
    handleSwitchRoom_there (c := c.activeAt now) hget husername hthere hvalid
  have hreach : (system env).Reachable n' := h.tail hstep
  have hplace : ∀ p', n'.placeOf c.id = some p' → p'.room = room := by
    obtain ⟨r, hr, rfl⟩ := dispatch_of_step hstep hc
    obtain rfl : (n.noteActivity c.id c now).handleSwitchRoom env (c.activeAt now) (.str room) =
        r := by
      rw [dispatch, htype, hdata] at hr
      exact Option.some.inj hr
    have hhoused := (hn.of_samePlaces (.noteActivity n c.id c now)).handleSwitchRoom env
      (c := c.activeAt now) hget (.str room)
    intro p' hp'
    revert hhoused hp hp'
    generalize (n.noteActivity c.id c now).handleSwitchRoom env (c.activeAt now) (.str room) = r
    obtain ⟨n₁, _ | e⟩ := r
    · intro hp _ hp'
      exact Option.some.inj (hp'.symm.trans hp) ▸ hproom
    · intro _ hhoused hp'
      rw [show (Node.afterHandler env c.id (n₁, some e)) = n₁.closeConnection env c.id from rfl,
        placeOf_closeConnection hhoused] at hp'
      simp at hp'
  refine ⟨hplace, fun id' fs hfs f hf ↦ ?_, fun l m hl hquiet ↦
    ⟨room_stays hreach hl hquiet hplace, noErrors_of_trace hreach hl hquiet⟩⟩
  rcases emits_step hn (awayOnly_of_reachable h) hstep with ⟨_, _, _, hconnect, -⟩ | hcause
  · cases hconnect
  · obtain ⟨gs, hgs, hcaused⟩ := hcause.emitted id'
    rw [hgs] at hfs
    exact (hcaused f (List.append_cancel_left hfs ▸ hf)).not_isError_of_switch hkeys hvalid htype
      hdata

/-- Alice is shown the rooms when she joins, and switches to one of them. -/
theorem switch_aliceRun : ∃ n n' p, (system plainEnv).Reachable n ∧ n.IsShown (lit "random") ∧
    n.step plainEnv (.frame (lit "1") (.dict [("type", .str (lit "switch_room")),
      ("room", .str (lit "random"))]) 0 []) = some n' ∧
    n'.placeOf (lit "1") = some p ∧ p.room = lit "random" := by
  have hexec : ((System.exec (step plainEnv) (initial plainEnv)
      (enterRun (lit "1") (lit "Alice"))).bind fun n ↦
        (n.step plainEnv (.frame (lit "1") (.dict [("type", .str (lit "switch_room")),
          ("room", .str (lit "random"))]) 0 [])).map fun n' ↦
            (((n.links (lit "1")).emitted.any fun f ↦ f.rooms?.isSome),
              ((n.clientsById.get? (lit "1")).bind Client.username).isSome,
              (n'.placeOf (lit "1")).isSome)) = some (true, true, true) := by
    decide +kernel
  obtain ⟨n, hn, hexec⟩ := Option.bind_eq_some_iff.mp hexec
  obtain ⟨n', hstep, htests⟩ := Option.map_eq_some_iff.mp hexec
  simp only [Prod.mk.injEq, List.any_eq_true] at htests
  obtain ⟨⟨f, hf, hrooms⟩, hname, hplace⟩ := htests
  obtain ⟨username, hname⟩ := Option.isSome_iff_exists.mp hname
  obtain ⟨c, hc, husername⟩ := Option.bind_eq_some_iff.mp hname
  obtain ⟨p, hp⟩ := Option.isSome_iff_exists.mp hplace
  have hreach : (system plainEnv).Reachable n := System.reachable_of_exec rfl hn
  obtain ⟨rooms, hrooms⟩ := Option.isSome_iff_exists.mp hrooms
  have hshown : n.IsShown (lit "random") := by
    obtain ⟨r, hr, hname⟩ := mem_shown hreach hf hrooms (by decide : lit "random" ∈ _)
    exact ⟨lit "1", f, rooms, r, hf, hrooms, hr, hname⟩
  exact ⟨n, n', p, hreach, hshown, hstep, hp, (switch_shown (by decide) hreach hshown hc
    (by rw [husername]; rfl) rfl rfl hstep).1 p hp⟩

end Node

/-! ## The HTML of a room

The page puts the name of a room into the text of an element without escaping it, and into an
attribute with the quotes escaped.  What protects it is the check of the names on the server. -/

/-- `escapeAttr` of `public/app.js`. -/
def escapeAttr (s : Str) : Str := s.flatMap fun c ↦ if c = 34 then lit "&quot;" else [c]

/-- What `renderRoomList` of `public/app.js` assigns to `item.innerHTML`. -/
def roomItem (r : RoomInfo) : Str :=
  lit "<span>#" ++ escapeAttr r.name ++ lit "</span><span class=\"count\">" ++
    intStr r.memberCount ++ lit "</span>"

/-- The characters with a meaning in HTML: the angle brackets, the ampersand and the quotes. -/
def isMarkup (c : ℕ) : Bool := c ∈ [34, 38, 39, 60, 62]

/-- The text has no such characters. -/
def PlainText (s : Str) : Prop := ∀ c ∈ s, isMarkup c = false

instance (s : Str) : Decidable (PlainText s) := inferInstanceAs (Decidable (∀ _ ∈ s, _))

theorem escapeAttr_of_plainText {s : Str} (h : PlainText s) : escapeAttr s = s := by
  rw [escapeAttr, List.flatMap_congr (g := fun c ↦ [c]), List.flatMap_singleton']
  intro c hc
  rw [if_neg]
  rintro rfl
  exact absurd (h 34 hc) (by decide)

theorem plainText_of_isRoomWord {s : Str} (h : isRoomWord s = true) : PlainText s := by
  intro c hc
  have hchar : isRoomChar c = true := by
    rw [isRoomWord, Bool.and_eq_true] at h
    exact List.all_eq_true.mp h.2 c hc
  simp only [isRoomChar, Bool.or_eq_true, Bool.and_eq_true, decide_eq_true_eq,
    beq_iff_eq] at hchar
  simp only [isMarkup, decide_eq_false_iff_not, List.mem_cons, List.not_mem_nil, or_false]
  omega

/-- A newline does no harm. -/
theorem plainText_of_isValidRoomName {s : Str} (h : isValidRoomName (.str s) = true) :
    PlainText s := by
  rcases validRoom?_cases (.str s) with ⟨name, hname, hs, -⟩ | ⟨name, hname, hs, -⟩ | ⟨hnone, -⟩
  · exact Value.str.inj hs ▸ plainText_of_isRoomWord hname
  · rw [Value.str.inj hs]
    intro c hc
    rcases List.mem_append.mp hc with hc | hc
    · exact plainText_of_isRoomWord hname c hc
    · rw [List.mem_singleton.mp hc]
      decide
  · rw [validRoom?, if_pos h] at hnone
    simp at hnone

theorem plainText_intStr (m : ℤ) : PlainText (intStr m) := by
  intro c hc
  have hdigit := mem_intStr hc
  simp only [isMarkup, decide_eq_false_iff_not, List.mem_cons, List.not_mem_nil, or_false]
  omega

/-- The markup of a room with a plain name is that of the page. -/
theorem filter_roomItem {r : RoomInfo} (h : PlainText r.name) :
    (roomItem r).filter isMarkup = lit "<><><\"\"><>" := by
  have hplain : ∀ s : Str, PlainText s → s.filter isMarkup = [] :=
    fun s hs ↦ List.filter_eq_nil_iff.mpr fun c hc ↦ by simp [hs c hc]
  rw [roomItem, escapeAttr_of_plainText h]
  simp only [List.filter_append, hplain _ h, hplain _ (plainText_intStr _)]
  rfl

namespace Node

variable {env : Env} {n : Node}

/-- **Nobody can put HTML into the list of rooms.**  The page only escapes quotes, but the names
that the server accepts have nothing to escape: whatever rooms a client is shown, there is no markup
in the HTML of a room but that of the page.  The names from the configuration are not checked. -/
theorem markup_of_rooms
    (hconfig : ∀ room ∈ env.config.defaultRoom :: env.config.otherRooms, PlainText room)
    (h : (system env).Reachable n) {id : Str} {f : Frame} (hf : f ∈ (n.links id).emitted)
    {rooms : List RoomInfo} (hrooms : f.rooms? = some rooms) {r : RoomInfo} (hr : r ∈ rooms) :
    (roomItem r).filter isMarkup = lit "<><><\"\"><>" :=
  filter_roomItem (forall_rooms h hconfig (fun _ ↦ plainText_of_isValidRoomName) _
    (mem_keys_of_isShown h ⟨id, f, rooms, r, hf, hrooms, hr, rfl⟩))

/-- The list that Alice is shown when she joins. -/
theorem markup_aliceRun : ∃ n f rooms r, (system plainEnv).Reachable n ∧
    f ∈ (n.links (lit "1")).emitted ∧ f.rooms? = some rooms ∧ r ∈ rooms ∧
      (roomItem r).filter isMarkup = lit "<><><\"\"><>" := by
  have hexec : (System.exec (step plainEnv) (initial plainEnv)
      (enterRun (lit "1") (lit "Alice"))).map (fun n ↦
        (n.links (lit "1")).emitted.any fun f ↦ f.rooms?.isSome) = some true := by
    decide +kernel
  obtain ⟨n, hn, hany⟩ := Option.map_eq_some_iff.mp hexec
  obtain ⟨f, hf, hsome⟩ := List.any_eq_true.mp hany
  have hreach : (system plainEnv).Reachable n := System.reachable_of_exec rfl hn
  obtain ⟨rooms, hrooms⟩ := Option.isSome_iff_exists.mp hsome
  obtain ⟨r, hr, -⟩ := mem_shown hreach hf hrooms (by decide : lit "random" ∈ _)
  exact ⟨n, f, rooms, r, hreach, hf, hrooms, hr,
    markup_of_rooms (by decide) hreach hf hrooms hr⟩

end Node

end GroupChat
