import GroupChat.Server.Seats

/-!
# Which rooms there are

A room is made when somebody enters it: the room of the query parameters, the room of a join frame,
the room of a create frame.  All three are checked by `_is_valid_room_name`, the last one after
white space has been cut off.  In the pattern of that check `$` also matches before a newline at the
end, so it lets through a proper name with a newline behind it.

* `GainsRooms new n n'`: the rooms of `n'` are those of `n` and those of `new`.
* `makesRoom n a` is the value that an event names a room by, if it may make one.  A switch makes
  none, since it only goes to rooms that are there.
* `gainsRooms_step`: what the events do to the rooms.
* `roomWords_iff`: all rooms of a run have proper names if and only if nobody asks for a name with a
  newline at the end.
-/

set_option autoImplicit false

namespace GroupChat

open Transition

/-! ## Names that are accepted

Python's `$` matches at the end of the text and before a newline that ends it.  So the check
accepts exactly two kinds of texts, and the second kind is not meant. -/

/-- A proper name with a newline behind it. -/
def IsRoomLine (v : Value) : Prop := ∃ name, isRoomWord name = true ∧ v = .str (name ++ [10])

/-- No proper name ends in a newline. -/
theorem isRoomWord_append_newline (name : Str) : isRoomWord (name ++ [10]) = false := by
  simp [isRoomWord, isRoomChar]

/-- A proper name is not a line. -/
theorem not_isRoomLine {name : Str} (h : isRoomWord name = true) : ¬IsRoomLine (.str name) := by
  rintro ⟨name', -, heq⟩
  rw [Value.str.inj heq, isRoomWord_append_newline] at h
  exact absurd h (by simp)

/-- **What is accepted**: proper names, and proper names with a newline behind them. -/
theorem validRoom?_cases (v : Value) :
    (∃ name, isRoomWord name = true ∧ v = .str name ∧ validRoom? v = some name) ∨
      (∃ name, isRoomWord name = true ∧ v = .str (name ++ [10]) ∧
        validRoom? v = some (name ++ [10])) ∨
      (validRoom? v = none ∧ ¬IsRoomLine v) := by
  cases v with
  | str s =>
    by_cases hword : isRoomWord s = true
    · exact Or.inl ⟨s, hword, rfl, by simp [validRoom?, isValidRoomName, hword]⟩
    · refine Or.inr ?_
      by_cases hline : s.getLast? = some 10 ∧ isRoomWord s.dropLast = true
      · have hs : s = s.dropLast ++ [10] := (List.dropLast_append_getLast? 10 hline.1).symm
        refine Or.inl ⟨s.dropLast, hline.2, by rw [← hs], ?_⟩
        rw [← hs]
        simp [validRoom?, isValidRoomName, hline]
      · refine Or.inr ⟨by simp [validRoom?, isValidRoomName, hword, hline], ?_⟩
        rintro ⟨name, hname, hs⟩
        obtain rfl := Value.str.inj hs
        exact hline ⟨by simp, by simpa using hname⟩
  | _ => exact Or.inr (Or.inr ⟨rfl, by rintro ⟨name, -, h⟩; exact absurd h (by simp)⟩)

/-- The room that a value names, or else the default room, has a proper name unless the value ends
in a newline. -/
theorem isRoomWord_getD_iff {default : Str} (hdefault : isRoomWord default = true) (v : Value) :
    isRoomWord ((validRoom? v).getD default) = true ↔ ¬IsRoomLine v := by
  rcases validRoom?_cases v with
    ⟨name, hname, rfl, hvalid⟩ | ⟨name, hname, rfl, hvalid⟩ | ⟨hvalid, hline⟩
  · rw [hvalid]
    exact iff_of_true hname (not_isRoomLine hname)
  · rw [hvalid]
    exact iff_of_false (by simp [isRoomWord_append_newline]) fun h ↦ h ⟨name, hname, rfl⟩
  · rw [hvalid]
    exact iff_of_true hdefault hline

/-- What has been stripped does not end in a newline. -/
theorem isRoomWord_of_strip {s : Str} (h : isValidRoomName (.str s.strip) = true) :
    isRoomWord s.strip = true := by
  by_contra hword
  have hlast : s.strip.getLast? = some 10 := by
    have hline : s.strip.getLast? = some 10 ∧ isRoomWord s.strip.dropLast = true := by
      simpa [isValidRoomName, hword] using h
    exact hline.1
  have hne : s.strip ≠ [] := by
    intro hnil
    rw [hnil] at hlast
    exact absurd hlast (by simp)
  have hget : s.strip.getLast hne = 10 :=
    Option.some.inj ((List.getLast?_eq_some_getLast hne).symm.trans hlast)
  have hspace : ¬isSpace (s.strip.getLast hne) = true := List.rdropWhile_last_not isSpace _ hne
  rw [hget] at hspace
  exact hspace (by decide)

namespace Node

variable {env : Env} {n n' n'' : Node}

/-! ## What a step does to the rooms

Rooms are never taken away, also when nobody is left in them.  So a step adds rooms, and the
question is only under which names. -/

/-- The rooms of the second node are those of the first one and the new ones. -/
def GainsRooms (new : List Str) (n n' : Node) : Prop :=
  ∀ r, r ∈ n'.rooms.keys ↔ r ∈ n.rooms.keys ∨ r ∈ new

theorem GainsRooms.of_eq (h : n'.rooms = n.rooms) : GainsRooms [] n n' := by
  intro r
  rw [h]
  simp

theorem GainsRooms.refl (n : Node) : GainsRooms [] n n := .of_eq rfl

theorem GainsRooms.trans {new new' : List Str} (h : GainsRooms new n n')
    (h' : GainsRooms new' n' n'') : GainsRooms (new ++ new') n n'' := by
  intro r
  rw [h', h, List.mem_append, or_assoc]

/-- A step before and a step after that change no rooms. -/
theorem GainsRooms.trans_right {new : List Str} (h : GainsRooms new n n')
    (h' : GainsRooms [] n' n'') : GainsRooms new n n'' :=
  List.append_nil new ▸ h.trans h'

theorem GainsRooms.set {rooms : Dict Str (Dict Str Member)} {room : Str} {members : Dict Str Member}
    (h : rooms = n.rooms.set room members) : GainsRooms [room] n (n.setRooms rooms) := by
  intro r
  rw [setRooms_rooms, h, Dict.keys_set]
  split
  · rename_i hroom
    exact ⟨Or.inl, fun h ↦ h.elim id fun h ↦ List.mem_singleton.mp h ▸ hroom⟩
  · rw [List.mem_append]

/-- A room that is there is not new. -/
theorem GainsRooms.of_mem {room : Str} (h : GainsRooms [room] n n') (hroom : room ∈ n.rooms.keys) :
    GainsRooms [] n n' := by
  intro r
  rw [h]
  constructor
  · rintro (h | h)
    · exact Or.inl h
    · exact Or.inl (List.mem_singleton.mp h ▸ hroom)
  · exact fun h ↦ h.elim Or.inl fun h ↦ absurd h (by simp)

theorem GainsRooms.joinRoom (n : Node) (room id : Str) (m : Member) :
    GainsRooms [room] n (n.joinRoom room id m) := .set rfl

theorem GainsRooms.ensureRoom (n : Node) (room : Str) :
    GainsRooms [room] n (n.ensureRoom room) := by
  rw [Node.ensureRoom]
  split
  · rename_i hroom
    intro r
    rw [setRooms_rooms]
    exact ⟨Or.inl, fun h ↦ h.elim id fun h ↦
      List.mem_singleton.mp h ▸ n.rooms.contains_iff.mp hroom⟩
  · exact .set rfl

theorem GainsRooms.leaveRoom (n : Node) (room id : Str) :
    GainsRooms [] n (n.leaveRoom room id) := by
  rw [Node.leaveRoom]
  split
  · rename_i members hmembers
    exact GainsRooms.of_mem (.set rfl) (Dict.mem_keys_of_get? hmembers)
  · exact .of_eq rfl

theorem GainsRooms.handleClose (env : Env) (n : Node) (c : Client) :
    GainsRooms [] n (n.handleClose env c) := by
  have hleft : GainsRooms [] n ((n.forget env c).leaveRoom c.room c.id) :=
    have hforgotten : GainsRooms [] n (n.forget env c) := .of_eq rfl
    hforgotten.trans_right (.leaveRoom _ _ _)
  rcases handleClose_outcome env n c with h | ⟨text, users, h⟩ <;> rw [h]
  · exact hleft
  · exact hleft.trans_right (.of_eq rfl)

theorem GainsRooms.closeConnection (env : Env) (n : Node) (id : Str) :
    GainsRooms [] n (n.closeConnection env id) := by
  rw [Node.closeConnection]
  split
  · exact .trans_right (.of_eq rfl : GainsRooms [] n (n.updateLink id _)) (.handleClose env _ _)
  · exact .refl n

theorem GainsRooms.afterHandler {new : List Str} {id : Str} {r : Node × Option PyError}
    (h : GainsRooms new n r.1) : GainsRooms new n (afterHandler env id r) := by
  obtain ⟨n₁, _ | e⟩ := r
  · exact h
  · exact h.trans_right (.closeConnection env n₁ id)

theorem GainsRooms.awaitHistory (n : Node) (id room : Str) (wait : Waiting)
    {finish : Node → List Obj → Node × Option PyError}
    (hfinish : ∀ history, (finish n history).1.rooms = n.rooms) :
    GainsRooms [] n (n.awaitHistory env id room wait finish).1 := by
  rw [Node.awaitHistory]
  split
  · exact .of_eq (hfinish _)
  · exact .of_eq rfl

/-! ## Handlers

Three handlers can make a room.  The one for create frames strips the name first, which is why it
makes proper rooms only. -/

/-- A switch goes to a room that is there. -/
theorem GainsRooms.handleSwitchRoom (n : Node) (c : Client) (room : Value) :
    GainsRooms [] n (n.handleSwitchRoom env c room).1 := by
  rcases handleSwitchRoom_outcome env n c room with
    ⟨-, h | ⟨code, text, h⟩⟩ | ⟨username, r, husername, hr, h⟩ <;> rw [h]
  · exact .refl n
  · exact .of_eq rfl
  · have hthere : r ∈ n.rooms.keys := by
      rw [switchedRoom, husername, Option.isSome_some, if_pos rfl] at hr
      have hfilter := (Option.filter_eq_some_iff.mp hr).1
      exact n.rooms.contains_iff.mp (Option.filter_eq_some_iff.mp hfilter).2
    have hleft : GainsRooms [] n (n.leaveRoom c.room c.id) := .leaveRoom n _ _
    have hmoved : GainsRooms [] n (n.moveTo c username r) := by
      have hjoined : GainsRooms [r] n (n.moveTo c username r) := by
        rw [moveTo]
        exact (hleft.trans_right (.of_eq rfl)).trans (.joinRoom _ _ _ _)
      exact hjoined.of_mem hthere
    exact hmoved.trans_right
      (.awaitHistory _ _ _ _ fun history ↦ (finishSwitchRoom_records _ _ _ history).2)

/-- A join makes the room that is asked for. -/
theorem GainsRooms.handleJoin {c : Client} {data : Obj} {r : Node × Option PyError}
    (h : n.handleJoin env c data = some r) :
    GainsRooms (if c.explicitlyJoined then [] else [requestedRoom env data]) n r.1 := by
  rcases handleJoin_outcome h with ⟨hjoined, rfl⟩ | ⟨username, hjoined, -, rfl⟩
  · rw [if_pos hjoined]
    exact .refl n
  · have hleft : ∀ room,
        GainsRooms [] n (if c.room ≠ room then n.leaveRoom c.room c.id else n) := by
      intro room
      split
      · exact .leaveRoom n _ _
      · exact .refl n
    have hregistered : GainsRooms [requestedRoom env data] n
        (n.register env c username (requestedRoom env data)) := by
      rw [register]
      exact ((hleft _).trans_right (.of_eq rfl)).trans (.joinRoom _ _ _ _)
    rw [hjoined, if_neg Bool.false_ne_true]
    exact hregistered.trans_right
      (.awaitHistory _ _ _ _ fun history ↦ (finishJoin_records _ _ _ history).2)

/-- A create frame makes a room with a proper name, if it makes one. -/
theorem GainsRooms.handleCreateRoom (n : Node) (c : Client) (data : Obj) :
    ∃ new, GainsRooms new n (n.handleCreateRoom env c data).1 ∧ ∀ r ∈ new, isRoomWord r = true := by
  rw [Node.handleCreateRoom]
  split
  · exact ⟨[], .refl n, by simp⟩
  · simp only
    split
    · rename_i hvalid
      refine ⟨[createdRoom env data], ?_, fun r hr ↦
        List.mem_singleton.mp hr ▸ isRoomWord_of_strip hvalid⟩
      have hensured : GainsRooms [createdRoom env data] n (n.ensureRoom (createdRoom env data)) :=
        .ensureRoom n _
      have hannounced : GainsRooms [createdRoom env data] n
          (if n.rooms.contains (createdRoom env data) = true then
            n.ensureRoom (createdRoom env data)
          else
            (n.ensureRoom (createdRoom env data)).broadcastToAll
              (.roomList (n.ensureRoom (createdRoom env data)).listRooms)) := by
        split
        · exact hensured
        · exact hensured.trans_right (.of_eq rfl)
      exact hannounced.trans_right (.handleSwitchRoom _ c _)
    · exact ⟨[], .of_eq rfl, by simp⟩

/-- Is the frame one that a client joins with? -/
def Joins (c : Client) (data : Obj) : Prop :=
  c.explicitlyJoined = false ∧ (data.get "type").str? = some (lit "join")

instance (c : Client) (data : Obj) : Decidable (Joins c data) :=
  inferInstanceAs (Decidable (_ ∧ _))

/-- A join makes the room that is asked for, and any other frame at most rooms with proper
names. -/
theorem GainsRooms.handled {c : Client} {data : Obj} {now : ℤ} {uuid : Str}
    {r : Node × Option PyError} (h : Handled env n c data now uuid r) :
    (Joins c data ∧ GainsRooms [requestedRoom env data] n r.1) ∨
      (¬Joins c data ∧ ∃ new, GainsRooms new n r.1 ∧ ∀ r ∈ new, isRoomWord r = true) := by
  have hother : ∀ {t : Str}, data.get "type" = .str t → t ≠ lit "join" → ¬Joins c data := by
    rintro t htype ht ⟨-, hjoin⟩
    rw [htype] at hjoin
    exact ht (Option.some.inj hjoin)
  have hminor : (∀ t ∈ majorTypes, data.get "type" ≠ .str t) → ¬Joins c data := by
    rintro htype ⟨-, hjoin⟩
    exact htype (lit "join") (by simp [majorTypes]) (Value.str?_eq_some_iff.mp hjoin)
  have hsame : ∀ {n' : Node}, n'.rooms = n.rooms →
      ∃ new, GainsRooms new n n' ∧ ∀ r ∈ new, isRoomWord r = true :=
    fun hrooms ↦ ⟨[], .of_eq hrooms, by simp⟩
  cases h with
  | join type h =>
    have hgains := GainsRooms.handleJoin h
    cases hjoined : c.explicitlyJoined with
    | false =>
      rw [hjoined, if_neg (by simp)] at hgains
      exact Or.inl ⟨⟨hjoined, by rw [type]; rfl⟩, hgains⟩
    | true =>
      rw [hjoined, if_pos rfl] at hgains
      have hjoins : ¬Joins c data := fun hjoins ↦ absurd (hjoined.symm.trans hjoins.1) (by simp)
      exact Or.inr ⟨hjoins, [], hgains, by simp⟩
  | message type =>
    refine Or.inr ⟨hother type (by decide), hsame ?_⟩
    rcases handleMessage_outcome env n c data now uuid with
      ⟨-, e, h⟩ | ⟨s, job, -, -, -, ⟨e, -, h⟩ | ⟨store, -, h⟩⟩ <;> rw [h]
    all_goals rfl
  | privateMessage type =>
    refine Or.inr ⟨hother type (by decide), hsame ?_⟩
    rcases handlePrivateMessage_outcome env n c data now uuid with
      h | ⟨code, text, h⟩ | ⟨username, targetId, -, -, h⟩ <;> rw [h]
    all_goals rfl
  | switchRoom type =>
    exact Or.inr ⟨hother type (by decide), [], .handleSwitchRoom n c _, by simp⟩
  | createRoom type =>
    exact Or.inr ⟨hother type (by decide), GainsRooms.handleCreateRoom n c data⟩
  | typing type =>
    refine Or.inr ⟨hminor type, hsame ?_⟩
    rw [handleTyping]
    split <;> rfl
  | moderation type action =>
    refine Or.inr ⟨hminor type, hsame ?_⟩
    rcases handleModeration_outcome env n c data action with
      h | ⟨code, text, h⟩ | ⟨id, moderator, h⟩ | ⟨id, muted, room, text, users, h⟩ <;> rw [h]
    all_goals rfl
  | ignored type => exact Or.inr ⟨hminor type, hsame rfl⟩

/-! ## Events

The name that an event brings along is computed from the event and, for a join frame, from whether
the client has joined already. -/

/-- The value that an event names a room by, if it makes the room. -/
def makesRoom (n : Node) : Event → Option Value
  | .connect _ queryParams _ => some (queryParams.get "room")
  | .frame id (.dict fields) _ _ =>
    ((n.clientsById.get? id).filter fun c ↦ decide (Joins c fields)).map fun _ ↦
      Obj.get fields "room"
  | _ => none

theorem rooms_background {b : Background} (h : n.background env b = some n') :
    n'.rooms = n.rooms := by
  cases background_outcome h with
  | shutdown =>
    exact shutdown_preserves (I := fun m ↦ m.rooms = n.rooms) (fun _ _ hm ↦ hm) rfl
  | _ => rfl

theorem rooms_postMessage (env : Env) (n : Node) (body : Body) (query : Obj) (now : ℤ)
    (uuid : Str) : (n.postMessage env body query now uuid).1.rooms = n.rooms := by
  have htell : ∀ store room f, ({ n with store := store }.tryBroadcast room f).1.rooms = n.rooms :=
    fun store room f ↦ (records_tryBroadcast _ room f).1
  rcases postMessage_outcome env n body query now uuid with
    h | ⟨s, store, n₁, -, -, rfl, h | ⟨job, -, h⟩⟩
  · rw [h]
  · rw [h]
    exact htell _ _ _
  · rw [h]
    exact htell _ _ _

/-- **What an event does to the rooms.** -/
theorem gainsRooms_step {a : Event} (h : n.step env a = some n') :
    (∃ v, n.makesRoom a = some v ∧
        GainsRooms [(validRoom? v).getD env.config.defaultRoom] n n') ∨
      (n.makesRoom a = none ∧ ∃ new, GainsRooms new n n' ∧ ∀ r ∈ new, isRoomWord r = true) := by
  have hsame : n'.rooms = n.rooms → n.makesRoom a = none →
      (n.makesRoom a = none ∧ ∃ new, GainsRooms new n n' ∧ ∀ r ∈ new, isRoomWord r = true) :=
    fun hrooms hnone ↦ ⟨hnone, [], .of_eq hrooms, by simp⟩
  cases a with
  | connect id queryParams now =>
    obtain ⟨-, rfl⟩ := step_connect h
    exact Or.inl ⟨_, rfl, (GainsRooms.of_eq (n := n) rfl).trans (.joinRoom _ _ _ _)⟩
  | frame id data now uuid =>
    obtain ⟨c, hc, -, ⟨fields, r, rfl, hr, rfl⟩ | ⟨hdata, rfl⟩⟩ := receive_handled h
    · have hactive : GainsRooms [] n (n.noteActivity id c now) :=
        .of_eq (rooms_noteActivity n id c now)
      rcases GainsRooms.handled hr with ⟨hjoins, hgains⟩ | ⟨hjoins, new, hgains, hnew⟩
      · refine Or.inl ⟨Obj.get fields "room", ?_, (hactive.trans hgains).afterHandler⟩
        have hjoins' : Joins c fields := hjoins
        simp [makesRoom, hc, Option.filter_some, hjoins']
      · refine Or.inr ⟨?_, new, (hactive.trans hgains).afterHandler, hnew⟩
        have hjoins' : ¬Joins c fields := hjoins
        simp [makesRoom, hc, Option.filter_some, hjoins']
    · refine Or.inr ⟨?_, [], ?_, by simp⟩
      · cases data with
        | dict fields => exact absurd rfl (hdata fields)
        | _ => rfl
      · exact (GainsRooms.of_eq (rooms_noteActivity n id c now)).trans_right
          (.closeConnection env _ id)
  | fetchHistory id now docs =>
    obtain ⟨c, w, room, ready, -, -, -, -, rfl⟩ := fetchHistory_spec h
    exact Or.inr (hsame rfl rfl)
  | resume id =>
    have hresumed : GainsRooms [] n (n.updateClient id fun c ↦ { c with waiting := none }) :=
      .of_eq rfl
    obtain ⟨c, -, ⟨room, history, -, rfl⟩ | ⟨room, history, -, rfl⟩ | ⟨w, e, -, -, rfl⟩⟩ :=
      resume_outcome h
    · exact Or.inr ⟨rfl, [], (hresumed.trans_right
        (.of_eq (finishJoin_records _ _ _ _).2)).afterHandler, by simp⟩
    · exact Or.inr ⟨rfl, [], (hresumed.trans_right
        (.of_eq (finishSwitchRoom_records _ _ _ _).2)).afterHandler, by simp⟩
    · exact Or.inr ⟨rfl, [], hresumed.trans_right (.closeConnection env _ id), by simp⟩
  | disconnect id =>
    obtain ⟨c, -, -, rfl⟩ := step_disconnect h
    exact Or.inr ⟨rfl, [], .closeConnection env n id, by simp⟩
  | post body query now uuid =>
    exact Or.inr (hsame (Option.some.inj h ▸ rooms_postMessage env n body query now uuid) rfl)
  | gossip data now =>
    refine Or.inr (hsame (Option.some.inj h ▸ ?_) rfl)
    cases data with
    | none => rfl
    | some v =>
      exact receiveItems_preserves (I := fun m ↦ m.rooms = n.rooms)
        (fun item _ m hm ↦ (records_receiveItem env m item now).1.trans hm) n rfl
  | feed room limit now =>
    refine Or.inr (hsame (Option.some.inj h ▸ ?_) rfl)
    cases room <;> rfl
  | runJob i now nonce =>
    obtain ⟨job, -, rfl⟩ := Option.map_eq_some_iff.mp h
    refine Or.inr (hsame ?_ rfl)
    cases job <;> rfl
  | warmCache now docs => exact Or.inr (hsame (Option.some.inj h ▸ rfl) rfl)
  | publicKey username => exact Or.inr (hsame (Option.some.inj h ▸ rfl) rfl)
  | privateKey username => exact Or.inr (hsame (Option.some.inj h ▸ rfl) rfl)
  | background b => exact Or.inr (hsame (rooms_background h) rfl)

/-! ## Runs

The rooms of the configuration have proper names, and a room of another kind stays once it has
been made; so the condition has to hold at every step. -/

/-- Does the node have rooms with proper names only? -/
def RoomWords (n : Node) : Prop := ∀ r ∈ n.rooms.keys, isRoomWord r = true

/-- Nobody makes a room by a name with a newline at the end. -/
def NamesRooms (n : Node) (a : Event) : Prop := ∀ v, n.makesRoom a = some v → ¬IsRoomLine v

theorem roomWords_step_iff {a : Event} (hdefault : isRoomWord env.config.defaultRoom = true)
    (hn : RoomWords n) (h : n.step env a = some n') : RoomWords n' ↔ NamesRooms n a := by
  rcases gainsRooms_step h with ⟨v, hv, hgains⟩ | ⟨hnone, new, hgains, hnew⟩
  · have hroom : RoomWords n' ↔ isRoomWord ((validRoom? v).getD env.config.defaultRoom) = true := by
      constructor
      · exact fun h' ↦ h' _ ((hgains _).mpr (Or.inr (List.mem_singleton_self _)))
      · intro hword r hr
        rcases (hgains r).mp hr with hr | hr
        · exact hn r hr
        · rwa [List.mem_singleton.mp hr]
    rw [hroom, isRoomWord_getD_iff hdefault]
    constructor
    · intro hline v' hv'
      rwa [← Option.some.inj (hv.symm.trans hv')]
    · exact fun h ↦ h v hv
  · refine iff_of_true (fun r hr ↦ ?_) fun v hv ↦ absurd (hnone.symm.trans hv) (by simp)
    rcases (hgains r).mp hr with hr | hr
    · exact hn r hr
    · exact hnew r hr

theorem roomWords_initial
    (hdefault : ∀ r ∈ env.config.defaultRoom :: env.config.otherRooms, isRoomWord r = true) :
    RoomWords (initial env) := by
  refine List.foldlRecOn (motive := RoomWords) _ _ (by simp [RoomWords, empty]) ?_
  intro n hn room hroom r hr
  rcases (GainsRooms.ensureRoom n room r).mp hr with hr | hr
  · exact hn r hr
  · rw [List.mem_singleton.mp hr]
    exact hdefault room hroom

/-- **Which runs have only rooms with proper names**: those in which no connection and no join asks
for a room whose name ends in a newline. -/
theorem roomWords_iff
    (hdefault : ∀ r ∈ env.config.defaultRoom :: env.config.otherRooms, isRoomWord r = true)
    {l : List Event} (h : (system env).Trace (initial env) l n) :
    (∀ l₁ t, l₁ <+: l → System.exec (step env) (initial env) l₁ = some t →
        ∀ r ∈ t.rooms.keys, isRoomWord r = true) ↔
      ((system env).when NamesRooms).Trace (initial env) l n :=
  h.forall_prefix_iff (I := RoomWords)
    (fun _ _ _ hs hstep ↦ roomWords_step_iff (hdefault _ List.mem_cons_self) hs hstep)
    (roomWords_initial hdefault)

/-- A client connects with a room and joins one. -/
def roomRun (room room' : Str) : List Event :=
  [.connect (lit "1") [("room", .str room)] 0,
    .frame (lit "1") (.dict [("type", .str (lit "join")), ("username", .str (lit "alice")),
      ("room", .str room')]) 0 []]

/-- All rooms of this run have proper names. -/
theorem roomWords_roomRun : ∃ n, (system plainEnv).Trace (initial plainEnv)
      (roomRun (lit "a-1") (lit "b_2")) n ∧ lit "b_2" ∈ n.rooms.keys ∧
    ∀ r ∈ n.rooms.keys, isRoomWord r = true := by
  have hexec : (System.exec (step plainEnv) (initial plainEnv)
      (roomRun (lit "a-1") (lit "b_2"))).map (fun n ↦ decide (lit "b_2" ∈ n.rooms.keys)) =
        some true := by
    decide +kernel
  obtain ⟨n, hn, hmem⟩ := Option.map_eq_some_iff.mp hexec
  have htrace : (system plainEnv).Trace (initial plainEnv) _ n := System.trace_of_exec hn
  have hwhen : ((system plainEnv).when NamesRooms).Trace (initial plainEnv)
      (roomRun (lit "a-1") (lit "b_2")) n := by
    obtain _ | ⟨hs₁, _ | ⟨hs₂, _ | _⟩⟩ := htrace
    refine .cons ⟨fun v hv ↦ ?_, hs₁⟩ (.cons ⟨fun v hv ↦ ?_, hs₂⟩ (.nil n))
    · obtain rfl : .str (lit "a-1") = v := Option.some.inj hv
      exact not_isRoomLine (by decide)
    · obtain ⟨-, -, rfl⟩ := Option.map_eq_some_iff.mp hv
      exact not_isRoomLine (show isRoomWord (lit "b_2") = true by decide)
  exact ⟨n, htrace, of_decide_eq_true hmem,
    (roomWords_iff (by decide +kernel) htrace).mpr hwhen _ n List.prefix_rfl hn⟩

/-- `?room=abc%0A` makes a room whose name is not proper. -/
theorem not_roomWords_newline : ∃ n, (system plainEnv).Reachable n ∧
    ∃ r ∈ n.rooms.keys, isRoomWord r = false := by
  have hrun : (System.exec (step plainEnv) (initial plainEnv)
      [.connect (lit "1") [("room", .str (lit "abc" ++ [10]))] 0]).map
        (fun n ↦ decide (lit "abc" ++ [10] ∈ n.rooms.keys)) = some true := by
    decide +kernel
  obtain ⟨n, hn, hmem⟩ := Option.map_eq_some_iff.mp hrun
  exact ⟨n, System.reachable_of_exec rfl hn, _, of_decide_eq_true hmem, by decide⟩

end Node
end GroupChat
