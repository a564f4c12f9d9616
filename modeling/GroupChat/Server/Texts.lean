import GroupChat.Py.Loads
import GroupChat.Server.Muted
import GroupChat.Server.Privacy
import GroupChat.Server.Seats

/-!
# Frames as texts

A frame arrives as a text.  `handle_connection` has it parsed by `json.loads`, ignores it if this
raises a `ValueError`, and hands the value to `_dispatch`; every exception that is not caught there
ends the connection.  The comments say that neither malformed frames nor unknown types should.

* `receiveText` is one turn of the receive loop, and `textSystem` a node whose frames come as texts.
* `Unbroken`: the client whose frame is handled is still there, and texts that are not JSON, like
  frames of a type that nobody handles, change nothing but the time of the last activity.
* `Harmless` says which texts and which histories do not make a handler raise, and `unbroken_iff`
  that this is exact, for every step of every run.
* `not_unbroken_listText` is the frame `[]`, and `exists_deepText` says that in every state and for
  every depth of the stack there is a text that ends the connection of its client.
-/

set_option autoImplicit false

namespace GroupChat

open Transition

namespace Node

variable (env : Env) (J : JsonLib) (n : Node)

/-! ## The receive loop

The parser comes between the socket and the handlers.  A text that is not JSON is ignored as a
whole, so that it does not even count as activity. -/

/-- Does the receive loop wait for a frame of the client? -/
def listening (id : Str) : Bool := ((n.clientsById.get? id).map fun c ↦ c.waiting.isNone).getD false

/-- The receive loop gets a text. -/
def receiveText (id raw : Str) (now : ℤ) (uuid : Str) : Option Node :=
  match loads J raw with
  | .ok data => n.receive env id data now uuid
  -- "ignore malformed frames", before the activity is noted
  | .error .valueError => if n.listening id then some n else none
  -- not a `ValueError`, so it leaves the loop
  | .error .recursionError => if n.listening id then some (n.closeConnection env id) else none

/-- An event of a node whose frames come as texts. -/
inductive TextEvent
  | text (id raw : Str) (now : ℤ) (uuid : Str)
  /-- Any event but a frame. -/
  | other (a : Event)

/-- One event. -/
def textStep (n : Node) : TextEvent → Option Node
  | .text id raw now uuid => n.receiveText env J id raw now uuid
  | .other (.frame _ _ _ _) => none
  | .other a => n.step env a

/-- A node whose frames come as texts. -/
def textSystem : System Node TextEvent := .ofFun (· = initial env) (textStep env J)

/-- The client whose frame is handled, by the receive loop or by a handler that goes on. -/
def TextEvent.handles? : TextEvent → Option Str
  | .text id _ _ _ => some id
  | .other a => a.sender?

/-! ## What is claimed

Three things are asked of a step: the client whose frame is handled remains connected and in its
room; a text that is not JSON changes nothing; and a frame of an unknown type changes nothing but
the time of the activity. -/

/-- The types that `_dispatch` knows. -/
def frameTypes : List Str :=
  majorTypes ++ [lit "typing", lit "kick", lit "mute", lit "unmute"]

/-- The client is there, in its room. -/
def Seated (id : Str) : Prop :=
  ∃ c m, n.clientsById.get? id = some c ∧ n.member? c.room id = some m

/-- A step does not break the connection of the client whose frame it handles, and nothing but the
activity comes of a text that is not JSON or has a type that nobody handles. -/
structure Unbroken (n : Node) (a : TextEvent) (n' : Node) : Prop where
  seated : ∀ id, a.handles? = some id → n'.Seated id
  malformed : ∀ id raw now uuid, a = .text id raw now uuid →
    loads J raw = .error .valueError → n' = n
  unknown : ∀ id raw now uuid c fields, a = .text id raw now uuid →
    n.clientsById.get? id = some c → loads J raw = .ok (.dict fields) →
      (∀ t ∈ frameTypes, Obj.get fields "type" ≠ .str t) → n' = n.noteActivity id c now

/-! ## When it holds

A frame raises if it is nested too deeply, if it is not a dictionary, if it is a message whose
time is not a number, or if the history that it asks for cannot be sent.  The condition says that
none of this is the case. -/

/-- The history can be sent to the client: it can be written, or nothing is sent. -/
def Sendable (c : Client) (history : List Obj) : Prop :=
  c.connected = true → ∀ m ∈ history, (Value.dict m).serialisable = true

/-- The frame does not make its handler raise. -/
structure FrameHarmless (c : Client) (data : Obj) (now : ℤ) : Prop where
  timestamp : data.get "type" = .str (lit "message") → c.username.isSome = true →
    frameText env ((data.get "text").or (data.get "msg")) ≠ [] →
      ∃ ts, ((data.get "timestamp").or (.int now)).toInt env.lib = .ok ts
  history : ∀ room, n.askedRoom env c data = some room →
    Sendable c (n.store.cachedHistory room env.config.historyLimit)

/-- The event does not end the connection whose frame it handles. -/
def Harmless (n : Node) : TextEvent → Prop
  | .text id raw now _ =>
    loads J raw ≠ .error .recursionError ∧ ∀ v, loads J raw = .ok v →
      ∃ fields, v = .dict fields ∧
        ∀ c, n.clientsById.get? id = some c → n.FrameHarmless env c fields now
  | .other (.resume id) => ∀ c w, n.clientsById.get? id = some c → c.waiting = some w →
    ∃ history, w.result? = some (.ok history) ∧ Sendable c history
  | .other _ => True

variable {env J n} {n' : Node} {c : Client} {id : Str}

/-! ## Histories

A history is sent as a whole or not at all.  It can be sent if all of it can be serialised, or if
there is nobody any more to send it to. -/

theorem trySend_ok_iff (hc : n.clientsById.get? id = some c) (f : Frame) :
    (n.trySend id f).2 = none ↔ (c.connected = true → f.serialisable = true) := by
  have halive : n.alive id = c.connected := alive_of_get? hc
  rw [trySend, halive]
  cases c.connected <;> cases f.serialisable <;> simp

theorem serialisable_iff_of_history {f : Frame} {history : List Obj}
    (hf : f.history? = some history) :
    f.serialisable = true ↔ ∀ m ∈ history, (Value.dict m).serialisable = true := by
  cases f with
  | welcome username room isAdmin users rooms onlineUsers h =>
    obtain rfl := Option.some.inj hf
    exact List.all_eq_true
  | roomSwitched room users h =>
    obtain rfl := Option.some.inj hf
    exact List.all_eq_true
  | _ => simp [Frame.history?] at hf

theorem trySend_history_iff (hc : n.clientsById.get? id = some c) {history : List Obj} (f : Frame)
    (hf : f.history? = some history) : (n.trySend id f).2 = none ↔ Sendable c history := by
  rw [trySend_ok_iff hc, serialisable_iff_of_history hf, Sendable]

/-- A frame with a history is refused only because of the history. -/
theorem not_sendable_of_trySend (hc : n.clientsById.get? id = some c) {history : List Obj}
    {f : Frame} (hf : f.history? = some history) {n₁ : Node} {e : PyError}
    (hsend : n.trySend id f = (n₁, some e)) : ¬ Sendable c history := by
  intro h
  have hnone := (trySend_history_iff hc f hf).mpr h
  rw [hsend] at hnone
  exact absurd hnone (by simp)

theorem sendable_of_trySend (hc : n.clientsById.get? id = some c) {history : List Obj} {f : Frame}
    (hf : f.history? = some history) {n₁ : Node} (hsend : n.trySend id f = (n₁, none)) :
    Sendable c history :=
  (trySend_history_iff hc f hf).mp (congrArg Prod.snd hsend)

theorem finishJoin_ok_iff (hc : n.clientsById.get? id = some c) (room : Str)
    (history : List Obj) : (n.finishJoin id room history).2 = none ↔ Sendable c history := by
  rw [finishJoin, hc]
  simp only
  split
  · rename_i n₁ e hsend
    exact iff_of_false (by simp) (not_sendable_of_trySend hc rfl hsend)
  · rename_i n₁ hsend
    exact iff_of_true rfl (sendable_of_trySend hc rfl hsend)

theorem finishSwitchRoom_ok_iff (hc : n.clientsById.get? id = some c) (room : Str)
    (history : List Obj) : (n.finishSwitchRoom id room history).2 = none ↔ Sendable c history := by
  rw [finishSwitchRoom, hc]
  simp only
  split
  · rename_i n₁ e hsend
    exact iff_of_false (by simp) (not_sendable_of_trySend hc rfl hsend)
  · rename_i n₁ hsend
    exact iff_of_true rfl (sendable_of_trySend hc rfl hsend)

/-- A handler that asks for a history raises only with what it is told at once. -/
theorem awaitHistory_ok_iff {room : Str} {wait : Waiting}
    {finish : Node → List Obj → Node × Option PyError}
    (hfinish : ∀ history, (finish n history).2 = none ↔ Sendable c history) :
    (n.awaitHistory env id room wait finish).2 = none ↔
      Sendable c (n.store.cachedHistory room env.config.historyLimit) := by
  rw [awaitHistory]
  cases n.store.cachedHistory room env.config.historyLimit with
  | nil => exact iff_of_true rfl fun _ m hm ↦ absurd hm List.not_mem_nil
  | cons m ms => exact hfinish (m :: ms)

/-! ## Handlers

For each handler, when it returns without an exception.  Most handlers always do, so the lemmas
are about messages and about those that ask for a history. -/

theorem cachedHistory_register (username room room' : Str) (limit : ℤ) :
    (n.register env c username room).store.cachedHistory room' limit =
      n.store.cachedHistory room' limit := by
  have hcache : (n.register env c username room).store.cache = n.store.cache := by
    rw [register]
    split <;> rfl
  rw [Store.cachedHistory, Store.cachedHistory, hcache]

theorem handleJoin_ok_iff (hc : n.clientsById.get? c.id = some c) {data : Obj}
    {r : Node × Option PyError} (hr : n.handleJoin env c data = some r) :
    r.2 = none ↔ (c.explicitlyJoined = false →
      Sendable c (n.store.cachedHistory (requestedRoom env data) env.config.historyLimit)) := by
  rcases handleJoin_outcome hr with ⟨hjoined, rfl⟩ | ⟨username, hjoined, -, rfl⟩
  · exact iff_of_true rfl fun h ↦ absurd (hjoined.symm.trans h) (by simp)
  · obtain ⟨isAdmin, key, hc'⟩ := get?_register hc username (requestedRoom env data)
    have hsendable : ∀ history,
        Sendable (c.joinedAs username (requestedRoom env data) isAdmin key) history ↔
          Sendable c history := fun _ ↦ Iff.rfl
    rw [awaitHistory_ok_iff fun history ↦ finishJoin_ok_iff hc' _ history, hsendable,
      cachedHistory_register, forall_prop_of_true hjoined]

theorem handleSwitchRoom_ok_iff (hc : n.clientsById.get? c.id = some c) (room : Value) :
    (n.handleSwitchRoom env c room).2 = none ↔ ∀ r, n.switchedRoom c room = some r →
      Sendable c (n.store.cachedHistory r env.config.historyLimit) := by
  rcases handleSwitchRoom_outcome env n c room with
    ⟨hnone, h | ⟨code, text, h⟩⟩ | ⟨username, r, -, hr, h⟩ <;> rw [h]
  · simp [hnone]
  · simp [hnone]
  · have hc' := get?_moveTo hc username r
    rw [awaitHistory_ok_iff fun history ↦ finishSwitchRoom_ok_iff hc' _ history, hr]
    exact ⟨fun h r' hr' ↦ Option.some.inj hr' ▸ h, fun h ↦ h r rfl⟩

theorem handleCreateRoom_ok_iff (hc : n.clientsById.get? c.id = some c) (data : Obj) :
    (n.handleCreateRoom env c data).2 = none ↔
      ∀ r, (n.ensureRoom (createdRoom env data)).switchedRoom c (.str (createdRoom env data)) =
        some r → Sendable c (n.store.cachedHistory r env.config.historyLimit) := by
  rcases handleCreateRoom_outcome env n c data with
    ⟨hnone, h | ⟨code, text, h⟩⟩ | ⟨n₁, rfl | ⟨rooms, rfl⟩, h⟩ <;> rw [h]
  · simp [hnone]
  · simp [hnone]
  · exact handleSwitchRoom_ok_iff (n := n.ensureRoom _) hc _
  · exact handleSwitchRoom_ok_iff (n := (n.ensureRoom _).broadcastToAll _) hc _

/-! ## Messages, and all other frames

A message frame raises if its time is not a number.  The others raise because of a history
only. -/

theorem handleMessage_ok_iff {data : Obj} {now : ℤ} {uuid : Str} :
    (n.handleMessage env c data now uuid).2 = none ↔ (c.username.isSome = true →
      frameText env ((data.get "text").or (data.get "msg")) ≠ [] →
        ∃ ts, ((data.get "timestamp").or (.int now)).toInt env.lib = .ok ts) := by
  rw [handleMessage]
  cases husername : c.username with
  | none => simp
  | some username =>
    cases htext : frameText env ((data.get "text").or (data.get "msg")) with
    | nil => simp
    | cons x text =>
      cases htimestamp : ((data.get "timestamp").or (.int now)).toInt env.lib with
      | error e => simp
      | ok ts =>
        simp only
        split
        · rename_i e hput
          -- a string is hashable, so the cache takes the message
          have hsubmission : frameSubmission env c data now uuid =
              some ⟨.str c.room, roomMessage (frameId env data uuid) username (x :: text) c.room ts,
                roomMessage (frameId env data uuid) username (x :: text) c.room ts,
                some (.append (.str c.room)
                  (roomMessage (frameId env data uuid) username (x :: text) c.room ts)
                  c.privateKey)⟩ := by
            rw [frameSubmission, husername, htext, htimestamp]
          have hfiled := filed_of_frameSubmission hsubmission
          rw [filed_of_cachePut_error hput] at hfiled
          exact absurd hfiled (by simp)
        · simp

theorem ne_str_of_eq {v : Value} {s t : Str} (h : v = .str s) (hne : s ≠ t) : v ≠ .str t :=
  fun heq ↦ hne (Value.str.inj (h.symm.trans heq))

theorem askedRoom_eq_none {data : Obj} (hjoin : data.get "type" ≠ .str (lit "join"))
    (hswitch : data.get "type" ≠ .str (lit "switch_room"))
    (hcreate : data.get "type" ≠ .str (lit "create_room")) : n.askedRoom env c data = none := by
  rw [askedRoom]
  split
  · rename_i type htype
    have htype := Value.str?_eq_some_iff.mp htype
    rw [if_neg fun h : type = _ ↦ hjoin (by rw [htype, h]),
      if_neg fun h : type = _ ↦ hswitch (by rw [htype, h]),
      if_neg fun h : type = _ ↦ hcreate (by rw [htype, h])]
  · rfl

/-- A frame that is not a message is harmless if the history that it asks for can be sent. -/
theorem frameHarmless_iff_of_ne {data : Obj} {now : ℤ}
    (hmessage : data.get "type" ≠ .str (lit "message")) :
    n.FrameHarmless env c data now ↔ ∀ room, n.askedRoom env c data = some room →
      Sendable c (n.store.cachedHistory room env.config.historyLimit) :=
  ⟨fun h ↦ h.history, fun h ↦ ⟨fun htype ↦ absurd htype hmessage, h⟩⟩

/-- A frame that asks for no history, and is not a message. -/
theorem frameHarmless_of_ne {data : Obj} {now : ℤ}
    (h : ∀ t ∈ [lit "join", lit "message", lit "switch_room", lit "create_room"],
      data.get "type" ≠ .str t) : n.FrameHarmless env c data now := by
  refine (frameHarmless_iff_of_ne (h _ (by simp))).mpr fun room hroom ↦ ?_
  rw [askedRoom_eq_none (h _ (by simp)) (h _ (by simp)) (h _ (by simp))] at hroom
  exact absurd hroom (by simp)

/-- **Which frames make their handler raise.** -/
theorem handled_ok_iff (hc : n.clientsById.get? c.id = some c) {data : Obj} {now : ℤ} {uuid : Str}
    {r : Node × Option PyError} (hr : Handled env n c data now uuid r) :
    r.2 = none ↔ n.FrameHarmless env c data now := by
  have hminor : (∀ t ∈ majorTypes, data.get "type" ≠ .str t) → n.FrameHarmless env c data now :=
    fun h ↦ frameHarmless_of_ne fun t ht ↦ h t (by
      simp only [List.mem_cons, List.not_mem_nil, or_false] at ht
      rcases ht with rfl | rfl | rfl | rfl <;> simp [majorTypes])
  cases hr with
  | join type hr =>
    rw [handleJoin_ok_iff hc hr, frameHarmless_iff_of_ne (ne_str_of_eq type (by decide)), askedRoom,
      Value.str?_eq_some_iff.mpr type]
    simp only
    rw [if_pos trivial]
    cases c.explicitlyJoined <;> simp
  | message type =>
    rw [handleMessage_ok_iff]
    refine ⟨fun h ↦ ⟨fun _ ↦ h, fun room hroom ↦ ?_⟩, fun h ↦ h.timestamp type⟩
    rw [askedRoom_eq_none (ne_str_of_eq type (by decide)) (ne_str_of_eq type (by decide))
      (ne_str_of_eq type (by decide))] at hroom
    exact absurd hroom (by simp)
  | privateMessage type =>
    refine iff_of_true rfl (frameHarmless_of_ne fun t ht ↦ ne_str_of_eq type ?_)
    rintro rfl
    exact absurd ht (by decide)
  | switchRoom type =>
    rw [handleSwitchRoom_ok_iff hc, frameHarmless_iff_of_ne (ne_str_of_eq type (by decide)),
      askedRoom, Value.str?_eq_some_iff.mpr type]
    simp only
    rw [if_neg (by decide), if_pos trivial]
  | createRoom type =>
    rw [handleCreateRoom_ok_iff hc, frameHarmless_iff_of_ne (ne_str_of_eq type (by decide)),
      askedRoom, Value.str?_eq_some_iff.mpr type]
    simp only
    rw [if_neg (by decide), if_neg (by decide), if_pos trivial]
  | typing type => exact iff_of_true rfl (hminor type)
  | moderation type action => exact iff_of_true rfl (hminor type)
  | ignored type => exact iff_of_true rfl (hminor type)

/-! ## Steps

A client is removed by the end of its connection and in no other way; so whether it is still there
after a step is a question of whether the handler has raised. -/

theorem get?_of_samePlaces (h : SamePlaces n n') (hc : n.clientsById.get? id = some c) :
    ∃ c', n'.clientsById.get? id = some c' := by
  have hplace : n'.placeOf id = some c.place := by rw [h.place, placeOf_of_get? hc]
  obtain ⟨c', hc', -⟩ := Option.map_eq_some_iff.mp hplace
  exact ⟨c', hc'⟩

theorem get?_awaitHistory (hc : n.clientsById.get? id = some c) {id' room : Str} {wait : Waiting}
    {finish : Node → List Obj → Node × Option PyError}
    (hfinish : ∀ history, (finish n history).1.clientsById = n.clientsById ∧
      (finish n history).1.rooms = n.rooms) :
    ∃ c', (n.awaitHistory env id' room wait finish).1.clientsById.get? id = some c' := by
  have hseat : (n.awaitHistory env id' room wait finish).1.seat id = n.seat id :=
    awaitHistory_seat n id' room wait hfinish id
  rw [seat_of_get? hc] at hseat
  obtain ⟨c', hc', -⟩ := get?_of_seat hseat
  exact ⟨c', hc'⟩

/-- No handler removes its client. -/
theorem get?_handled (hc : n.clientsById.get? c.id = some c) {data : Obj} {now : ℤ} {uuid : Str}
    {r : Node × Option PyError} (hr : Handled env n c data now uuid r) :
    ∃ c', r.1.clientsById.get? c.id = some c' := by
  have hswitch : ∀ n : Node, n.clientsById.get? c.id = some c → ∀ room,
      ∃ c', (n.handleSwitchRoom env c room).1.clientsById.get? c.id = some c' := by
    intro n hc room
    rcases handleSwitchRoom_outcome env n c room with
      ⟨-, h | ⟨code, text, h⟩⟩ | ⟨username, r, -, -, h⟩ <;> rw [h]
    · exact ⟨c, hc⟩
    · exact ⟨c, hc⟩
    · exact get?_awaitHistory (get?_moveTo hc username r) fun history ↦
        finishSwitchRoom_records _ _ _ _
  cases hr with
  | join type hr =>
    rcases handleJoin_outcome hr with ⟨-, rfl⟩ | ⟨username, -, -, rfl⟩
    · exact ⟨c, hc⟩
    · obtain ⟨isAdmin, key, hc'⟩ := get?_register hc username (requestedRoom env data)
      exact get?_awaitHistory hc' fun history ↦ finishJoin_records _ _ _ _
  | message type => exact get?_of_samePlaces (.handleMessage env n c data now uuid) hc
  | privateMessage type => exact get?_of_samePlaces (.handlePrivateMessage env n c data now uuid) hc
  | switchRoom type => exact hswitch n hc _
  | createRoom type =>
    rcases handleCreateRoom_outcome env n c data with
      ⟨-, h | ⟨code, text, h⟩⟩ | ⟨n₁, rfl | ⟨rooms, rfl⟩, h⟩ <;> rw [h]
    · exact ⟨c, hc⟩
    · exact ⟨c, hc⟩
    · exact hswitch (n.ensureRoom _) hc _
    · exact hswitch ((n.ensureRoom _).broadcastToAll _) hc _
  | typing type => exact get?_of_samePlaces (.handleTyping n c) hc
  | moderation type action => exact get?_of_samePlaces (.handleModeration env n c data action) hc
  | ignored type => exact ⟨c, hc⟩

/-- A connection ends exactly if its handler has raised. -/
theorem get?_afterHandler_iff {r : Node × Option PyError} (hc : r.1.clientsById.get? id = some c)
    (hid : c.id = id) :
    (∃ c', (afterHandler env id r).clientsById.get? id = some c') ↔ r.2 = none := by
  obtain ⟨n₁, _ | e⟩ := r
  · exact iff_of_true ⟨c, hc⟩ rfl
  · refine iff_of_false ?_ (by simp)
    rintro ⟨c', hc'⟩
    exact absurd (hc'.symm.trans (get?_closeConnection hc hid)) (by simp)

/-! ## After a step

The client is still there if its handler has returned, and in its room by the invariant of the
rooms. -/

theorem seated_iff (h : Housed n) : n.Seated id ↔ ∃ c, n.clientsById.get? id = some c := by
  constructor
  · rintro ⟨c, m, hc, -⟩
    exact ⟨c, hc⟩
  · rintro ⟨c, hc⟩
    obtain ⟨m, hm⟩ := h.member id _ (placeOf_of_get? hc)
    exact ⟨c, m, hc, hm⟩

theorem not_seated_closeConnection (hc : n.clientsById.get? id = some c) (hid : c.id = id) :
    ¬(n.closeConnection env id).Seated id := by
  rintro ⟨c', m, hc', -⟩
  exact absurd (hc'.symm.trans (get?_closeConnection hc hid)) (by simp)

/-- Noting the activity makes no difference to what a frame does. -/
theorem frameHarmless_noteActivity (id' : Str) (data : Obj) (now now' : ℤ) :
    (n.noteActivity id' c now').FrameHarmless env (c.activeAt now') data now ↔
      n.FrameHarmless env c data now := by
  have hasked : (n.noteActivity id' c now').askedRoom env (c.activeAt now') data =
      n.askedRoom env c data := by
    simp only [askedRoom, switchedRoom, ensureRoom, setRooms, rooms_noteActivity]
    rfl
  have hstore := (Quiet.noteActivity n id' c now').store
  constructor
  · refine fun h ↦ ⟨h.timestamp, fun room hroom ↦ ?_⟩
    rw [← hstore]
    exact h.history room (hasked.trans hroom)
  · refine fun h ↦ ⟨h.timestamp, fun room hroom ↦ ?_⟩
    rw [hstore]
    exact h.history room (hasked.symm.trans hroom)

theorem seated_receive_iff (hhoused : Housed n) (hc : n.clientsById.get? id = some c)
    {fields : Obj} {now : ℤ} {uuid : Str}
    (h : n.receive env id (.dict fields) now uuid = some n') :
    n'.Seated id ↔ n.FrameHarmless env c fields now := by
  have hid := hhoused.id_of_get? hc
  obtain ⟨c₁, hc₁, -, ⟨fields₁, r, hfields, hr, hn'⟩ | ⟨hnot, -⟩⟩ := receive_handled h
  · obtain rfl := Option.some.inj (hc.symm.trans hc₁)
    obtain rfl := Value.dict.inj hfields
    have hget := get?_noteActivity hc now
    subst hid
    obtain ⟨c', hc'⟩ : ∃ c', r.1.clientsById.get? c.id = some c' :=
      get?_handled (c := c.activeAt now) hget hr
    have hid' : c'.id = c.id :=
      (hr.housed (hhoused.of_samePlaces (.noteActivity n c.id c now)) hget).id_of_get? hc'
    rw [seated_iff (hhoused.receive h), hn', get?_afterHandler_iff hc' hid',
      handled_ok_iff (c := c.activeAt now) hget hr, frameHarmless_noteActivity]
  · exact absurd rfl (hnot fields)

theorem seated_resume_iff (hhoused : Housed n) (h : n.resume env id = some n') :
    n'.Seated id ↔ Harmless env J n (.other (.resume id)) := by
  rw [seated_iff (hhoused.resume h)]
  obtain ⟨c, hc, hcases⟩ := resume_outcome h
  have hid := hhoused.id_of_get? hc
  have hget := get?_handed hc none
  -- the handler has its history
  have hready : ∀ (w : Waiting) (history : List Obj) (r : Node × Option PyError),
      c.waiting = some w → w.result? = some (.ok history) →
        r.1.clientsById = (n.handed id none).clientsById →
          (r.2 = none ↔ Sendable { c with waiting := none } history) →
            ((∃ c', (afterHandler env id r).clientsById.get? id = some c') ↔
              Harmless env J n (.other (.resume id))) := by
    intro w history r hw hresult hclients hok
    have hc' : r.1.clientsById.get? id = some { c with waiting := none } := hclients ▸ hget
    rw [get?_afterHandler_iff hc' hid, hok]
    constructor
    · intro hsendable c₁ w₁ hc₁ hw₁
      obtain rfl := Option.some.inj (hc.symm.trans hc₁)
      obtain rfl := Option.some.inj (hw.symm.trans hw₁)
      exact ⟨history, hresult, hsendable⟩
    · intro hharmless
      obtain ⟨history', hresult', hsendable⟩ := hharmless c w hc hw
      obtain rfl := Except.ok.inj (Option.some.inj (hresult.symm.trans hresult'))
      exact hsendable
  -- the query has raised
  have hraised : ∀ (w : Waiting) (e : PyError), c.waiting = some w →
      w.result? = some (.error e) →
        ((∃ c', ((n.handed id none).closeConnection env id).clientsById.get? id = some c') ↔
          Harmless env J n (.other (.resume id))) := by
    intro w e hw hresult
    refine iff_of_false ?_ fun hharmless ↦ ?_
    · rintro ⟨c', hc'⟩
      exact absurd (hc'.symm.trans (get?_closeConnection hget hid)) (by simp)
    · obtain ⟨history, hresult', -⟩ := hharmless c w hc hw
      exact absurd (Option.some.inj (hresult.symm.trans hresult')) (by simp)
  rcases hcases with ⟨room, history, hw, rfl⟩ | ⟨room, history, hw, rfl⟩ | ⟨w, e, hw, he, rfl⟩
  · exact hready _ history _ hw rfl (finishJoin_records _ id room history).1
      (finishJoin_ok_iff hget room history)
  · exact hready _ history _ hw rfl (finishSwitchRoom_records _ id room history).1
      (finishSwitchRoom_ok_iff hget room history)
  · exact hraised w e hw he

theorem exists_of_listening (h : n.listening id = true) :
    ∃ c, n.clientsById.get? id = some c := by
  rw [listening] at h
  cases hc : n.clientsById.get? id with
  | none => simp [hc] at h
  | some c => exact ⟨c, rfl⟩

theorem dispatch_unknown {data : Obj} {now : ℤ} {uuid : Str}
    (h : ∀ t ∈ frameTypes, data.get "type" ≠ .str t) :
    n.dispatch env c data now uuid = some (n, none) := by
  rw [dispatch]
  split
  · rename_i type htype
    have hne : ∀ t ∈ frameTypes, type ≠ t := fun t ht heq ↦ h t ht (heq ▸ htype)
    simp only [frameTypes, majorTypes, List.cons_append, List.nil_append, List.mem_cons,
      List.not_mem_nil, or_false, forall_eq_or_imp, forall_eq] at hne
    obtain ⟨hjoin, hmessage, hprivate, hswitch, hcreate, htyping, hkick, hmute, hunmute⟩ := hne
    rw [if_neg hjoin, if_neg hmessage, if_neg hprivate, if_neg hswitch, if_neg hcreate,
      if_neg htyping, if_neg hkick, if_neg hmute, if_neg hunmute]
  · rfl

/-- A frame of a type that nobody handles changes the activity only. -/
theorem receive_unknown {fields : Obj} {now : ℤ} {uuid : Str}
    (hunknown : ∀ t ∈ frameTypes, Obj.get fields "type" ≠ .str t)
    (hc : n.clientsById.get? id = some c)
    (h : n.receive env id (.dict fields) now uuid = some n') : n' = n.noteActivity id c now := by
  rw [receive, hc] at h
  simp only at h
  split at h
  · simp at h
  · rw [dispatch_unknown hunknown] at h
    exact (Option.some.inj h).symm

/-! ## A text

A text is parsed, handled or ignored; in each case the step is unbroken exactly if it is
harmless. -/

/-- **The step lemma for a text.** -/
theorem seated_text_iff {raw : Str} {now : ℤ} {uuid : Str} (hhoused : Housed n)
    (h : n.receiveText env J id raw now uuid = some n') :
    n'.Seated id ↔ Harmless env J n (.text id raw now uuid) := by
  rw [Harmless]
  rw [receiveText] at h
  cases hl : loads J raw with
  | error e =>
    simp only [hl] at h
    cases e with
    | valueError =>
      simp only at h
      split at h
      · rename_i hlistening
        obtain rfl := Option.some.inj h
        exact iff_of_true ((seated_iff hhoused).mpr (exists_of_listening hlistening)) (by simp)
      · simp at h
    | recursionError =>
      simp only at h
      split at h
      · rename_i hlistening
        obtain rfl := Option.some.inj h
        obtain ⟨c, hc⟩ := exists_of_listening hlistening
        exact iff_of_false (not_seated_closeConnection hc (hhoused.id_of_get? hc)) (by simp)
      · simp at h
  | ok v =>
    simp only [hl] at h
    obtain ⟨c, hc, -, hcases⟩ := receive_handled h
    by_cases hv : ∃ fields, v = .dict fields
    · obtain ⟨fields, rfl⟩ := hv
      rw [seated_receive_iff hhoused hc h]
      constructor
      · refine fun hharmless ↦ ⟨by simp, fun v hv ↦ ⟨fields, (Except.ok.inj hv).symm, ?_⟩⟩
        exact fun c₁ hc₁ ↦ Option.some.inj (hc.symm.trans hc₁) ▸ hharmless
      · rintro ⟨-, hharmless⟩
        obtain ⟨fields₁, heq, hharmless⟩ := hharmless _ rfl
        obtain rfl := Value.dict.inj heq
        exact hharmless c hc
    · rcases hcases with ⟨fields, r, heq, -, -⟩ | ⟨-, rfl⟩
      · exact absurd ⟨fields, heq⟩ hv
      · have hget := get?_noteActivity hc now
        have hid := hhoused.id_of_get? hc
        refine iff_of_false (not_seated_closeConnection hget hid) ?_
        rintro ⟨-, hharmless⟩
        obtain ⟨fields, heq, -⟩ := hharmless v rfl
        exact hv ⟨fields, heq⟩

/-- **The step lemma.** -/
theorem unbroken_iff_harmless {a : TextEvent} (hhoused : Housed n)
    (h : n.textStep env J a = some n') : Unbroken J n a n' ↔ Harmless env J n a := by
  cases a with
  | text id raw now uuid =>
    have htext : n.receiveText env J id raw now uuid = some n' := h
    rw [← seated_text_iff hhoused htext]
    constructor
    · exact fun hunbroken ↦ hunbroken.seated id rfl
    · refine fun hseated ↦ ⟨?_, ?_, ?_⟩
      · rintro id' hid'
        exact Option.some.inj hid' ▸ hseated
      · intro id' raw' now' uuid' heq hl
        injection heq with hid hraw hnow huuid
        rw [receiveText, hraw, hl] at htext
        simp only at htext
        split at htext
        · exact (Option.some.inj htext).symm
        · simp at htext
      · intro id' raw' now' uuid' c fields heq hc hl hunknown
        injection heq with hid hraw hnow huuid
        subst hid hraw hnow huuid
        rw [receiveText, hl] at htext
        exact receive_unknown hunknown hc htext
  | other a =>
    cases a with
    | frame id v now uuid => simp [textStep] at h
    | resume id =>
      rw [← seated_resume_iff hhoused h]
      constructor
      · exact fun hunbroken ↦ hunbroken.seated id rfl
      · exact fun hseated ↦ ⟨fun id' hid' ↦ Option.some.inj hid' ▸ hseated, by simp, by simp⟩
    | _ =>
      exact iff_of_true ⟨by simp [TextEvent.handles?, Event.sender?], by simp, by simp⟩ trivial

/-! ## Runs

The condition on a run is the condition on each of its steps, and it is exact for the run as well.
What is shown last is that no depth of the stack makes all texts harmless. -/

/-- What happens to a node whose frames come as texts happens to a node whose frames are parsed. -/
theorem step_of_textStep {a : TextEvent} (h : n.textStep env J a = some n') :
    n' = n ∨ ∃ b, n.step env b = some n' := by
  cases a with
  | text id raw now uuid =>
    have htext : n.receiveText env J id raw now uuid = some n' := h
    rw [receiveText] at htext
    cases hl : loads J raw with
    | error e =>
      simp only [hl] at htext
      cases e with
      | valueError =>
        simp only at htext
        split at htext
        · exact Or.inl (Option.some.inj htext).symm
        · simp at htext
      | recursionError =>
        simp only at htext
        split at htext
        · rename_i hlistening
          obtain ⟨c, hc⟩ := exists_of_listening hlistening
          rw [listening, hc] at hlistening
          refine Or.inr ⟨.disconnect id, ?_⟩
          rw [step, hc]
          exact (if_pos hlistening).trans htext
        · simp at htext
    | ok v =>
      simp only [hl] at htext
      exact Or.inr ⟨.frame id v now uuid, htext⟩
  | other a =>
    refine Or.inr ⟨a, ?_⟩
    cases a with
    | frame id v now uuid => simp [textStep] at h
    | _ => exact h

theorem reachable_of_texts (h : (textSystem env J).Reachable n) : (system env).Reachable n := by
  refine h.invariant (fun _ h₀ ↦ .of_init h₀) fun s a s' hs hstep ↦ ?_
  rcases step_of_textStep hstep with rfl | ⟨b, hb⟩
  · exact hs
  · exact hs.tail (a := b) hb

/-- A node whose frames come as texts, with a record of whether all steps so far have been
unbroken. -/
def unbrokenSystem (env : Env) (J : JsonLib) : System (Node × Prop) TextEvent :=
  .ofFun (fun p ↦ p.1 = initial env ∧ p.2 = True)
    (System.record (textStep env J) fun n a n' kept ↦ kept ∧ Unbroken J n a n')

/-- **No connection is broken all along a run exactly if all its frames are harmless.** -/
theorem unbroken_iff {l : List TextEvent} {p p' : Node × Prop}
    (hp : (unbrokenSystem env J).init p) (h : (unbrokenSystem env J).Trace p l p') :
    (∀ l₁ q, l₁ <+: l → System.exec
        (System.record (textStep env J) fun n a n' kept ↦ kept ∧ Unbroken J n a n') p l₁ = some q →
      q.2) ↔ ((unbrokenSystem env J).when fun p a ↦ Harmless env J p.1 a).Trace p l p' := by
  have hinit : (textSystem env J).init p.1 := hp.1
  refine h.forall_prefix_iff_of (I := fun q ↦ q.2) (J := fun q ↦ (textSystem env J).Reachable q.1)
    (fun q a q' hq hstep ↦ ?_) (fun q a q' hq hkept hstep ↦ ?_) (.of_init hinit) ?_
  · obtain ⟨n', hn', rfl⟩ := Option.map_eq_some_iff.mp hstep
    exact hq.tail (a := a) hn'
  · obtain ⟨n', hn', rfl⟩ := Option.map_eq_some_iff.mp hstep
    have hhoused := housed_of_reachable (reachable_of_texts hq)
    exact (and_iff_right hkept).trans (unbroken_iff_harmless hhoused hn')
  · rw [hp.2]
    trivial

/-- **Every client can send a text that ends its connection**, however deep the stack is. -/
theorem exists_deepText (hhoused : Housed n) (hid : n.listening id = true) (now : ℤ) (uuid : Str) :
    ∃ raw n', n.textStep env J (.text id raw now uuid) = some n' ∧ ¬n'.Seated id := by
  obtain ⟨c, hc⟩ := exists_of_listening hid
  refine ⟨List.replicate (J.maxDepth + 1) 91, n.closeConnection env id, ?_,
    not_seated_closeConnection hc (hhoused.id_of_get? hc)⟩
  show n.receiveText env J id _ now uuid = _
  rw [receiveText, loads_nested]
  exact if_pos hid

/-! ## Two runs

A run whose texts are harmless, and one with a text that is not an object. -/

/-- The type of a frame, if it has one. -/
def frameType? : Value → Option Str
  | .dict fields => (Obj.get fields "type").str?
  | _ => none

/-- A frame that neither is a message nor asks for a history is harmless in every state. -/
theorem harmless_of_frameType {raw t : Str} {now : ℤ} {uuid : Str}
    (h : (loads J raw).toOption.bind frameType? = some t)
    (ht : t ∉ [lit "join", lit "message", lit "switch_room", lit "create_room"]) :
    Harmless env J n (.text id raw now uuid) := by
  obtain ⟨v, hv, htype⟩ := Option.bind_eq_some_iff.mp h
  have hl : loads J raw = .ok v := by
    cases hl : loads J raw with
    | error e => simp [hl, Except.toOption] at hv
    | ok w =>
      rw [hl] at hv
      exact congrArg _ (Option.some.inj hv)
  refine ⟨by simp [hl], fun v' hv' ↦ ?_⟩
  obtain rfl := Except.ok.inj (hl.symm.trans hv')
  cases v with
  | dict fields =>
    refine ⟨fields, rfl, fun c _ ↦ frameHarmless_of_ne fun t' ht' ↦ ?_⟩
    refine ne_str_of_eq (Value.str?_eq_some_iff.mp htype) ?_
    rintro rfl
    exact ht ht'
  | _ => simp [frameType?] at htype

/-- A stack of the usual depth, for runs on concrete inputs.  Fractions are read as zero. -/
def plainJson : JsonLib := ⟨fun _ ↦ .finite 0, 1000⟩

/-- A client connects under a name, and sends some texts. -/
def textRun (texts : List Str) : List TextEvent :=
  .other (.connect (lit "1") [("username", .str (lit "alice"))] 0) ::
    texts.map fun raw ↦ .text (lit "1") raw 0 []

/-- A frame of a client that is typing. -/
def typingText : Str := lit "\x7b\"type\": \"typing\"\x7d"

/-- A text that is not JSON, and then a frame. -/
theorem unbroken_typing : ∃ p, (unbrokenSystem plainEnv plainJson).Trace (initial plainEnv, True)
    (textRun [lit "hello", typingText]) p ∧ p.1.clientsById.keys = [lit "1"] ∧
      ∀ l₁ q, l₁ <+: textRun [lit "hello", typingText] → System.exec (System.record
        (textStep plainEnv plainJson) fun n a n' kept ↦ kept ∧ Unbroken plainJson n a n')
          (initial plainEnv, True) l₁ = some q → q.2 := by
  have hexec : (System.exec (System.record (textStep plainEnv plainJson)
      fun n a n' kept ↦ kept ∧ Unbroken plainJson n a n') (initial plainEnv, True)
        (textRun [lit "hello", typingText])).map (fun p ↦ p.1.clientsById.keys) =
          some [lit "1"] := by
    decide +kernel
  obtain ⟨p, hp, hkeys⟩ := Option.map_eq_some_iff.mp hexec
  have htrace : (unbrokenSystem plainEnv plainJson).Trace (initial plainEnv, True)
      (textRun [lit "hello", typingText]) p := System.trace_of_exec hp
  refine ⟨p, htrace, hkeys, (unbroken_iff (p := (initial plainEnv, True)) ⟨rfl, rfl⟩ htrace).mpr
    (htrace.when fun q a ha ↦ ?_)⟩
  simp only [textRun, List.map_cons, List.map_nil, List.mem_cons, List.not_mem_nil, or_false] at ha
  rcases ha with rfl | rfl | rfl
  · trivial
  · have hl : loads plainJson (lit "hello") = .error .valueError := rfl
    exact ⟨by simp [hl], fun v hv ↦ absurd (hl.symm.trans hv) (by simp)⟩
  · exact harmless_of_frameType (t := lit "typing") (by decide +kernel) (by decide)

/-- A frame that is a list ends the connection of its client. -/
theorem not_unbroken_listText : ∃ p, (unbrokenSystem plainEnv plainJson).Trace
    (initial plainEnv, True) (textRun [lit "[]"]) p ∧ p.1.clientsById.keys = [] ∧ ¬p.2 := by
  have hexec : (System.exec (System.record (textStep plainEnv plainJson)
      fun n a n' kept ↦ kept ∧ Unbroken plainJson n a n') (initial plainEnv, True)
        (textRun [lit "[]"])).map (fun p ↦ p.1.clientsById.keys) = some [] := by
    decide +kernel
  obtain ⟨p, hp, hkeys⟩ := Option.map_eq_some_iff.mp hexec
  refine ⟨p, System.trace_of_exec hp, hkeys, fun hkept ↦ ?_⟩
  obtain ⟨q, -, hlast⟩ := Option.bind_eq_some_iff.mp hp
  obtain ⟨q', hq', hnil⟩ := Option.bind_eq_some_iff.mp hlast
  obtain rfl := Option.some.inj hnil
  obtain ⟨n', -, rfl⟩ := Option.map_eq_some_iff.mp hq'
  obtain ⟨c, m, hc, -⟩ := hkept.2.seated (lit "1") rfl
  have hmem : lit "1" ∈ n'.clientsById.keys := Dict.mem_keys_of_get? hc
  rw [show n'.clientsById.keys = [] from hkeys] at hmem
  exact absurd hmem List.not_mem_nil

end Node
end GroupChat
