import GroupChat.Server.Aside

/-!
# What a step means for one client

What a client does notice is one of a few things: it comes, goes or changes its room, its handler
gets or tells a history, a message is told, a frame is taken from its queue or sent.  This file says
so once, for every event and for every client.

* `Settled id n`: the handler of the client waits for the history of the room that the client is in,
  and the room knows that the client is connected.
* `Passes env id n a n'` has one case for each thing that an event can mean for the client, and
  `passes_step`: every step is one of them.

`settled_of_reachable` is the first invariant that is read off from there.

An invariant about one client needs a case for each constructor of `Passes`, ten in all, instead of
one for each pair of an event and a handler.  Whatever concerns other clients has
become the case that nothing is noticed.

Most events concern other clients, and `Server.Aside` says that these go unnoticed; what is left
are the handlers of the client itself.  The difficult ones are those that wait, because the frame,
the fetch of the executor and the end of the handler are three events.  `Settled` is what connects
them: it says that the history which comes is that of the room in which the client is by then.
-/

set_option autoImplicit false

namespace GroupChat

open Transition

/-- The room of the history. -/
def Waiting.target : Waiting → Str
  | .join room => room
  | .switch room => room
  | .joinReady room _ => room
  | .switchReady room _ => room

namespace Node

variable {env : Env} {n n' n'' : Node} {id : Str}

/-! ## What is known of a client

The seat of a client is its room and whether it has joined.  Two facts about the whole node are
needed beside it: what is scheduled by other threads fills no view, and no history is waiting to
be sent without the queue. -/

/-- What other threads have scheduled shows no message. -/
def NoticesOnly (n : Node) : Prop := ∀ p ∈ n.scheduled, p.2.shows = false

/-- A change that the client does not notice schedules nothing that it would. -/
theorem Aside.noticesOnly (h : Aside id n n') (hn : NoticesOnly n) : NoticesOnly n' :=
  fun p hp ↦ (h.scheduled p hp).elim (hn p) fun hf ↦ hf

/-- The handler of a client waits for the history of its room, and the room knows that the client is
connected. -/
def Settled (id : Str) (n : Node) : Prop :=
  ∀ c, n.clientsById.get? id = some c → (∀ w, c.waiting = some w → w.target = c.room) ∧
    (c.connected = true → ∀ m, n.member? c.room id = some m → m.connected = true)

/-- A client that is not there has no handler. -/
theorem Settled.of_none (h : n.clientsById.get? id = none) : Settled id n :=
  fun c hc ↦ absurd (h.symm.trans hc) (by simp)

/-- Only the records and the rooms matter. -/
theorem Settled.of_eq (h : Settled id n) (hclients : n'.clientsById = n.clientsById)
    (hrooms : n'.rooms = n.rooms) : Settled id n' := by
  intro c hc
  have hmember : n'.member? c.room id = n.member? c.room id := by rw [member?, member?, hrooms]
  rw [hclients] at hc
  rw [hmember]
  exact h c hc

/-- A seat is that of a record. -/
theorem get?_of_seat {room : Str} {joined : Bool} (h : n.seat id = some (room, joined)) :
    ∃ c, n.clientsById.get? id = some c ∧ c.room = room ∧ c.explicitlyJoined = joined := by
  obtain ⟨c, hc, heq⟩ := Option.map_eq_some_iff.mp h
  obtain ⟨hroom, hjoined⟩ := Prod.mk.inj heq
  exact ⟨c, hc, hroom, hjoined⟩

/-- The seat of a client that is there. -/
theorem seat_of_get? {c : Client} (h : n.clientsById.get? id = some c) :
    n.seat id = some (c.room, c.explicitlyJoined) := by
  rw [seat, h]
  rfl

theorem waitingAt_of_get? {c : Client} (h : n.clientsById.get? id = some c) :
    n.waitingAt id = c.waiting := by
  rw [waitingAt, h]
  rfl

theorem alive_of_get? {c : Client} (h : n.clientsById.get? id = some c) :
    n.alive id = c.connected := by
  rw [alive, h]
  rfl

/-- A change that the client does not notice leaves it settled. -/
theorem Settled.of_aside (h : Settled id n) (hn : Aside id n n') : Settled id n' := by
  intro c' hc'
  obtain ⟨c, hc, hroom, -⟩ := get?_of_seat (hn.seat ▸ seat_of_get? hc')
  obtain ⟨hwaiting, hmember⟩ := h c hc
  refine ⟨fun w hw ↦ ?_, fun hconnected m hm ↦ ?_⟩
  · rw [← hroom]
    refine hwaiting w ?_
    rw [← waitingAt_of_get? hc, ← hn.waitingAt, waitingAt_of_get? hc']
    exact hw
  · rw [hn.member, ← hroom] at hm
    refine hmember ?_ m hm
    rw [← alive_of_get? hc]
    exact hn.alive ((alive_of_get? hc').trans hconnected)

/-- No history waits to be sent directly. -/
def DirectNews (id : Str) (n : Node) : Prop := ∀ f ∈ (n.links id).direct, f.roomHistory? = none

/-- If no history has been scheduled directly then none waits to be. -/
theorem Indirect.directNews (h : Indirect id n n') (hn : DirectNews id n) : DirectNews id n' :=
  fun f hf ↦ (h f hf).elim (hn f) fun hnone ↦ hnone

/-! ## The things that an event can mean for a client

A client that moves has a new seat, and nothing has to be said of its link in that case.  Gossip
may tell it several messages, and every other event tells it one at most. -/

/-- The node after the client has been given the history, or the exception, that it waits for. -/
def handed (n : Node) (id : Str) (w : Option Waiting) : Node :=
  n.updateClient id fun c ↦ { c with waiting := w }

/-- What an event means for the client with the id. -/
inductive Passes (env : Env) (id : Str) (n : Node) : Event → Node → Prop
  /-- Nothing. -/
  | aside {a : Event} {n' : Node} (h : Aside id n n') (hnone : a.completed env n = none)
      (hgossip : ∀ v now, a ≠ .gossip (some v) now) : Passes env id n a n'
  /-- It comes, goes, joins or changes its room. -/
  | moves {a : Event} {n' : Node} (hseat : n'.seat id ≠ n.seat id) (hsettled : Settled id n')
      (hnotices : NoticesOnly n → NoticesOnly n') (hdirect : Indirect id n n') :
      Passes env id n a n'
  /-- A message is told to its room, or to another one. -/
  | message {a : Event} {n₁ n' : Node} {s : Submission} (hs : a.completed env n = some s)
      (hgossip : ∀ v now, a ≠ .gossip (some v) now) (h₁ : Aside id n n₁)
      (hqueue : (n₁.links id).queue.length ≤ (n.links id).queue.length + 1)
      (h : Aside id (n₁.told s.room (.message s.told)) n') : Passes env id n a n'
  /-- Another node tells messages. -/
  | gossip {v : Value} {now : ℤ} :
      Passes env id n (.gossip (some v) now) (receiveItems env now n (gossipItems v))
  /-- Its handler gets the history. -/
  | fetch {now : ℤ} {docs : Option (List Obj)} {w ready : Waiting} {room : Str}
      (hw : n.waitingAt id = some w) (hroom : w.room? = some room)
      (hready : ready.result? =
        some (n.store.getHistory env.lib now room env.config.historyLimit docs).2)
      (htarget : ready.target = room) :
      Passes env id n (.fetchHistory id now docs)
        ({ n with store := (n.store.getHistory env.lib now room env.config.historyLimit docs).1
          }.handed id (some ready))
  /-- Its handler tells the history. -/
  | resume {w : Waiting} {history : List Obj} {f : Frame} {n' : Node}
      (hw : n.waitingAt id = some w) (hresult : w.result? = some (.ok history))
      (hf : f.roomHistory? = some (w.target, history))
      (h : Aside id ((n.handed id none).send id f) n') : Passes env id n (.resume id) n'
  /-- A frame is taken from its queue. -/
  | take {f : Frame} {q : List Frame} (hsender : (n.links id).sender = .waiting)
      (hqueue : (n.links id).queue = f :: q) :
      Passes env id n (.background (.senderTake id))
        (n.updateLink id fun l ↦ { l with queue := q, sender := .sending f })
  /-- The frame is sent. -/
  | done {f : Frame} {sender : Sender} (hsender : (n.links id).sender = .sending f)
      (hafter : sender.inFlight = []) :
      Passes env id n (.background (.senderDone id true))
        (n.updateLink id fun l ↦ { l with sender := sender, sent := l.sent ++ [f] })
  /-- It cannot be sent. -/
  | failed :
      Passes env id n (.background (.senderDone id false))
        ((n.closeWs id).updateLink id fun l ↦ { l with sender := .stopped })
  /-- A frame that was scheduled directly is sent. -/
  | direct {i : ℕ} {f : Frame} (hf : (n.links id).direct[i]? = some f) :
      Passes env id n (.background (.directDone id i))
        (n.updateLink id fun l ↦
          { l with direct := l.direct.eraseIdx i, sent := l.sent ++ [f] })

/-! ## Handlers of the client

For its own client a handler either changes the seat and then asks for a history, or leaves the
seat alone.  If it raises then the connection ends, and there is no seat any more. -/

/-- The end of a join changes neither records nor rooms. -/
theorem finishJoin_records (n : Node) (id room : Str) (history : List Obj) :
    (n.finishJoin id room history).1.clientsById = n.clientsById ∧
      (n.finishJoin id room history).1.rooms = n.rooms := by
  rcases n.finishJoin_outcome id room history with
    ⟨e, h, -⟩ | ⟨username, isAdmin, users, online, text, rooms, h⟩ <;> rw [h] <;> exact ⟨rfl, rfl⟩

theorem finishSwitchRoom_records (n : Node) (id room : Str) (history : List Obj) :
    (n.finishSwitchRoom id room history).1.clientsById = n.clientsById ∧
      (n.finishSwitchRoom id room history).1.rooms = n.rooms := by
  rcases n.finishSwitchRoom_outcome id room history with
    ⟨e, h, -⟩ | ⟨users, text, h⟩ <;> rw [h] <;> exact ⟨rfl, rfl⟩

/-- The handler raises, or it tells the client the history. -/
theorem finishJoin_cases (n : Node) {c : Client} (hc : n.clientsById.get? id = some c) (room : Str)
    (history : List Obj) : (∃ n₁ e, n.finishJoin id room history = (n₁, some e)) ∨
      ∃ f n₁, f.roomHistory? = some (room, history) ∧ n.finishJoin id room history = (n₁, none) ∧
        Aside id (n.send id f) n₁ := by
  rcases n.finishJoin_outcome id room history with
    ⟨e, h, hnone | he⟩ | ⟨username, isAdmin, users, online, text, rooms, h⟩
  · simp [hc] at hnone
  · obtain ⟨e, rfl⟩ := Option.isSome_iff_exists.mp he
    exact Or.inl ⟨_, e, h⟩
  · exact Or.inr ⟨_, _, rfl, h, (Aside.broadcast _ room _ rfl).trans (.send _ id rfl)⟩

/-- The handler raises, or it tells the client the history. -/
theorem finishSwitchRoom_cases (n : Node) {c : Client} (hc : n.clientsById.get? id = some c)
    (room : Str) (history : List Obj) :
    (∃ n₁ e, n.finishSwitchRoom id room history = (n₁, some e)) ∨
      ∃ f n₁, f.roomHistory? = some (room, history) ∧
        n.finishSwitchRoom id room history = (n₁, none) ∧ Aside id (n.send id f) n₁ := by
  rcases n.finishSwitchRoom_outcome id room history with
    ⟨e, h, hnone | he⟩ | ⟨users, text, h⟩
  · simp [hc] at hnone
  · obtain ⟨e, rfl⟩ := Option.isSome_iff_exists.mp he
    exact Or.inl ⟨_, e, h⟩
  · exact Or.inr ⟨_, _, rfl, h, .broadcast _ room _ rfl⟩

/-- A handler that asks for a history leaves its client where it is. -/
theorem awaitHistory_seat (n : Node) (id room : Str) (wait : Waiting)
    {finish : Node → List Obj → Node × Option PyError}
    (hfinish : ∀ history, (finish n history).1.clientsById = n.clientsById ∧
      (finish n history).1.rooms = n.rooms) (id' : Str) :
    (n.awaitHistory env id room wait finish).1.seat id' = n.seat id' := by
  rw [awaitHistory]
  split
  · rw [seat, seat, (hfinish _).1]
  · rw [seat, seat, get?_updateClient, Option.map_map]
    refine congrArg (Option.map · _) (funext fun c ↦ ?_)
    simp only [Function.comp_apply]
    split <;> rfl

/-- The handler waits for the history of the room that its client is in. -/
theorem awaitHistory_settled {c : Client} (hc : n.clientsById.get? id = some c)
    (hn : Settled id n) {wait : Waiting} (hwait : wait.target = c.room)
    {finish : Node → List Obj → Node × Option PyError}
    (hfinish : ∀ history, (finish n history).1.clientsById = n.clientsById ∧
      (finish n history).1.rooms = n.rooms) (room : Str) :
    Settled id (n.awaitHistory env id room wait finish).1 := by
  rw [awaitHistory]
  split
  · exact hn.of_eq (hfinish _).1 (hfinish _).2
  · intro c' hc'
    rw [get?_updateClient, hc, Option.map_some, if_pos rfl] at hc'
    obtain rfl := Option.some.inj hc'
    exact ⟨fun w hw ↦ Option.some.inj hw ▸ hwait, (hn c hc).2⟩

/-- A client whose connection has ended is not there any more. -/
theorem get?_closeConnection {c : Client} (hc : n.clientsById.get? id = some c) (hid : c.id = id) :
    (n.closeConnection env id).clientsById.get? id = none := by
  rw [closeConnection, hc]
  simp only
  have hforget : ∀ n : Node, (n.forget env c).clientsById.get? id = none := by
    intro n
    rw [get?_forget, if_pos hid.symm]
  rcases handleClose_outcome env (n.updateLink id fun l ↦ { l with sender := .stopped }) c with
    h | ⟨text, users, h⟩ <;> rw [h]
  · exact hforget _
  · exact hforget _

/-! ## Messages and frames of the client

Whether something raises decides if the client is still there after its frame. -/

/-- There is another client. -/
theorem exists_ne_id (id : Str) : ∃ id' : Str, id' ≠ id := ⟨0 :: id, List.cons_ne_self 0 id⟩

/-- The store does not matter for what the clients are told. -/
theorem Aside.told_withStore (n : Node) (st : Store) (room : Value) (f : Frame) :
    Aside id (n.told room f) ({ n with store := st }.told room f) := by
  cases room <;> exact .of_eq rfl rfl rfl rfl

section Frames

variable {c : Client} {data : Obj} {now : ℤ} {uuid : Str} {r : Node × Option PyError}

/-- A message frame changes nothing, or its message is told. -/
theorem handleMessage_cases (env : Env) (id : Str) (n : Node) (c : Client) (data : Obj) (now : ℤ)
    (uuid : Str) :
    ((frameSubmission env c data now uuid).filter (filed env now) = none ∧
        (n.handleMessage env c data now uuid).1 = n) ∨
      ∃ s, (frameSubmission env c data now uuid).filter (filed env now) = some s ∧
        (n.handleMessage env c data now uuid).2 = none ∧
        Aside id (n.told s.room (.message s.told)) (n.handleMessage env c data now uuid).1 := by
  rcases handleMessage_outcome env n c data now uuid with
    ⟨hs, e, h⟩ | ⟨s, job, hs, hroom, -, ⟨e, hput, h⟩ | ⟨store, hput, h⟩⟩ <;> rw [h, hs]
  · exact Or.inl ⟨rfl, rfl⟩
  · exact Or.inl ⟨by rw [Option.filter_some, if_neg (by simp [filed_of_cachePut_error hput])], rfl⟩
  · refine Or.inr ⟨s, by rw [Option.filter_some, if_pos (filed_of_cachePut hput)], rfl, ?_⟩
    rw [hroom]
    exact ((Aside.told_withStore n store (.str c.room) _).trans (.send _ c.id rfl)).trans
      (.of_eq rfl rfl rfl rfl)

/-- The handlers of frames schedule nothing for other threads that fills a view. -/
theorem NoticesOnly.handled (h : NoticesOnly n) (hr : Handled env n c data now uuid r)
    (hids : ∀ c', r.1.clientsById.get? c.id = some c' → c'.id = c.id) :
    NoticesOnly (afterHandler env c.id r) := by
  -- another client does not notice what the handler changes
  obtain ⟨id, hid⟩ := exists_ne_id c.id
  have hclose : ∀ n₁, r.1 = n₁ → NoticesOnly n₁ → NoticesOnly (afterHandler env c.id r) := by
    rintro n₁ rfl hn
    exact ((Aside.refl id r.1).afterHandler hids hid).noticesOnly hn
  cases hr with
  | join type hr => exact ((Aside.handleJoin n hid hr).afterHandler hids hid).noticesOnly h
  | message type =>
    rcases handleMessage_cases env id n c data now uuid with ⟨-, hsame⟩ | ⟨s, -, -, htold⟩
    · exact hclose n hsame h
    · refine hclose _ rfl (htold.noticesOnly ?_)
      cases s.room <;> exact h
  | privateMessage type =>
    have haside : Aside id n _ := .handlePrivateMessage env n c data now uuid
    exact haside.noticesOnly h
  | switchRoom type => exact ((Aside.handleSwitchRoom n hid _).afterHandler hids hid).noticesOnly h
  | createRoom type =>
    exact ((Aside.handleCreateRoom n hid data).afterHandler hids hid).noticesOnly h
  | typing type =>
    have haside : Aside id n _ := .handleTyping n c
    exact haside.noticesOnly h
  | moderation type action =>
    have haside : Aside id n _ := .handleModeration env n c data action
    exact haside.noticesOnly h
  | ignored type => exact h

/-- The handler of a frame schedules no history directly. -/
theorem Indirect.handled (hr : Handled env n c data now uuid r) (id : Str) : Indirect id n r.1 := by
  cases hr with
  | join type hr => exact .handleJoin n hr
  | message type =>
    rcases handleMessage_cases env id n c data now uuid with ⟨-, hsame⟩ | ⟨s, -, -, htold⟩
    · rw [hsame]
      exact .refl id n
    · exact (Indirect.told n s.room rfl).trans htold.indirect
  | privateMessage type => exact (Aside.handlePrivateMessage env n c data now uuid).indirect
  | switchRoom type => exact .handleSwitchRoom env n c _
  | createRoom type => exact .handleCreateRoom env n c data
  | typing type => exact (Aside.handleTyping n c).indirect
  | moderation type action => exact (Aside.handleModeration env n c data action).indirect
  | ignored type => exact .refl id n

/-- A client that is gone has no seat. -/
theorem seat_closed (hc : n.clientsById.get? id = some c)
    (hclosed : n'.clientsById.get? id = none) : n'.seat id ≠ n.seat id ∧ Settled id n' := by
  refine ⟨?_, .of_none hclosed⟩
  rw [seat, hclosed, seat_of_get? hc]
  simp

/-- A client that is somewhere else after a handler, whether or not this has raised. -/
theorem seat_afterHandler (hc : n.clientsById.get? id = some c)
    (hids : ∀ c', r.1.clientsById.get? id = some c' → c'.id = id)
    (hseat : r.1.seat id ≠ n.seat id) (hsettled : Settled id r.1) :
    (afterHandler env id r).seat id ≠ n.seat id ∧ Settled id (afterHandler env id r) := by
  obtain ⟨n₁, _ | e⟩ := r
  · exact ⟨hseat, hsettled⟩
  · cases hc₁ : n₁.clientsById.get? id with
    | none =>
      have hsame : afterHandler env id (n₁, some e) = n₁ := by
        rw [afterHandler, closeConnection, hc₁]
      rw [hsame]
      exact ⟨hseat, hsettled⟩
    | some c₁ => exact seat_closed hc (get?_closeConnection hc₁ (hids c₁ hc₁))

/-! ## Joining and switching

The room is entered before the history is asked for, so a client whose handler waits is in the
room whose history it will be told. -/

/-- The record of a client that has joined. -/
theorem get?_register (hc : n.clientsById.get? c.id = some c) (username room : Str) :
    ∃ isAdmin key, (n.register env c username room).clientsById.get? c.id =
      some (c.joinedAs username room isAdmin key) := by
  obtain ⟨isAdmin, key, hclients⟩ : ∃ isAdmin key, (n.register env c username room).clientsById =
      (n.updateClient c.id (·.joinedAs username room isAdmin key)).clientsById := by
    refine ⟨decide (env.lib.lower username ∈ env.config.adminUsernames),
      (getOrCreateSenderKeys env.lib env.keyring n.store.keys.senderKeys username).1.1, ?_⟩
    rw [register]
    split <;> rfl
  refine ⟨isAdmin, key, ?_⟩
  rw [hclients, get?_updateClient, hc, Option.map_some, if_pos rfl]

/-- A client that has not joined joins. -/
theorem handleJoin_seat (hc : n.clientsById.get? c.id = some c) (hwaiting : c.waiting = none)
    (hr : n.handleJoin env c data = some r) : r.1 = n ∧ r.2 = none ∨
      r.1.seat c.id ≠ n.seat c.id ∧ Settled c.id r.1 := by
  rcases handleJoin_outcome hr with ⟨-, rfl⟩ | ⟨username, hjoined, -, rfl⟩
  · exact Or.inl ⟨rfl, rfl⟩
  · refine Or.inr ?_
    obtain ⟨isAdmin, key, hc'⟩ := get?_register hc username (requestedRoom env data)
    have hsettled : Settled c.id (n.register env c username (requestedRoom env data)) := by
      intro c'' hc''
      obtain rfl := Option.some.inj (hc'.symm.trans hc'')
      refine ⟨fun w hw ↦ absurd (hw.symm.trans hwaiting) (by simp), fun _ m hm ↦ ?_⟩
      rw [Client.joinedAs, register, member?_joinRoom, if_pos ⟨rfl, rfl⟩] at hm
      rw [← Option.some.inj hm]
    refine ⟨?_, ?_⟩
    · rw [awaitHistory_seat _ _ _ _ fun history ↦ finishJoin_records _ c.id _ history,
        seat_of_get? hc', seat_of_get? hc]
      simp [Client.joinedAs, hjoined]
    · have hwait : (Waiting.join (requestedRoom env data)).target = requestedRoom env data := rfl
      exact awaitHistory_settled hc' hsettled hwait
        (fun history ↦ finishJoin_records _ c.id _ history) _

/-- The record of a client that has moved. -/
theorem get?_moveTo (hc : n.clientsById.get? c.id = some c) (username room : Str) :
    (n.moveTo c username room).clientsById.get? c.id = some { c with room := room } := by
  show (n.updateClient c.id fun c ↦ { c with room := room }).clientsById.get? c.id = _
  rw [get?_updateClient, hc, Option.map_some, if_pos rfl]

/-- A client that switches to another room is there. -/
theorem handleSwitchRoom_seat (hc : n.clientsById.get? c.id = some c) (hwaiting : c.waiting = none)
    (room : Value) :
    Aside id n (n.handleSwitchRoom env c room).1 ∧ (n.handleSwitchRoom env c room).2 = none ∨
      (n.handleSwitchRoom env c room).1.seat c.id ≠ n.seat c.id ∧
        Settled c.id (n.handleSwitchRoom env c room).1 := by
  rcases handleSwitchRoom_outcome env n c room with
    ⟨-, h | ⟨code, text, h⟩⟩ | ⟨username, r, -, hr, h⟩ <;> rw [h]
  · exact Or.inl ⟨.refl id n, rfl⟩
  · exact Or.inl ⟨.sendError n _ _ _, rfl⟩
  · have hne := (switchedRoom_eq_some hr).2
    have hc' := get?_moveTo hc username r
    have hmoved : Settled c.id (n.moveTo c username r) := by
      intro c'' hc''
      obtain rfl := Option.some.inj (hc'.symm.trans hc'')
      refine ⟨fun w hw ↦ absurd (hw.symm.trans hwaiting) (by simp), fun hconnected m hm ↦ ?_⟩
      rw [moveTo, member?_joinRoom, if_pos ⟨rfl, rfl⟩] at hm
      rw [← Option.some.inj hm]
      exact hconnected
    refine Or.inr ⟨?_, ?_⟩
    · rw [awaitHistory_seat _ _ _ _ fun history ↦ finishSwitchRoom_records _ c.id _ history,
        seat_of_get? hc', seat_of_get? hc]
      simp [hne]
    · have hwait : (Waiting.switch r).target = r := rfl
      exact awaitHistory_settled hc' hmoved hwait
        (fun history ↦ finishSwitchRoom_records _ c.id _ history) _

/-- A client that creates a room is there, unless it is there already or the name is not valid. -/
theorem handleCreateRoom_seat (hc : n.clientsById.get? c.id = some c)
    (hwaiting : c.waiting = none) :
    Aside c.id n (n.handleCreateRoom env c data).1 ∧ (n.handleCreateRoom env c data).2 = none ∨
      (n.handleCreateRoom env c data).1.seat c.id ≠ n.seat c.id ∧
        Settled c.id (n.handleCreateRoom env c data).1 := by
  rcases handleCreateRoom_outcome env n c data with
    ⟨-, h | ⟨code, text, h⟩⟩ | ⟨n₁, hn₁, h⟩ <;> rw [h]
  · exact Or.inl ⟨.refl c.id n, rfl⟩
  · exact Or.inl ⟨.sendError n _ _ _, rfl⟩
  · have hcreated : Aside c.id n n₁ := by
      rcases hn₁ with rfl | ⟨rooms, rfl⟩
      · exact .ensureRoom n _
      · exact (Aside.ensureRoom n _).trans (.broadcastToAll _ rfl)
    have hc₁ : n₁.clientsById.get? c.id = some c := by
      rcases hn₁ with rfl | ⟨rooms, rfl⟩ <;> exact hc
    rcases handleSwitchRoom_seat hc₁ hwaiting
      (.str (createdRoom env data)) with ⟨h, hok⟩ | ⟨hseat, hs⟩
    · exact Or.inl ⟨hcreated.trans h, hok⟩
    · exact Or.inr ⟨fun heq ↦ hseat (heq.trans hcreated.seat.symm), hs⟩

end Frames

/-! ## Every event

The events are gone through one after the other, with the lemmas of `Server.Aside` for everybody
else and those of this file for the client itself. -/

/-- A message is submitted, or nothing happens, or the connection ends. -/
theorem handledMessage_cases {c : Client} {data : Obj} {now : ℤ} {uuid : Str}
    (hc : n.clientsById.get? c.id = some c) (htype : (data.get "type").str? = some (lit "message"))
    (hids : ∀ c', (n.handleMessage env c data now uuid).1.clientsById.get? c.id = some c' →
      c'.id = c.id) (id : Str) :
    ((afterHandler env c.id (n.handleMessage env c data now uuid)).seat id ≠ n.seat id ∧
        Settled id (afterHandler env c.id (n.handleMessage env c data now uuid))) ∨
      (completedFrame env c data now uuid = none ∧
        Aside id n (afterHandler env c.id (n.handleMessage env c data now uuid))) ∨
      ∃ s, completedFrame env c data now uuid = some s ∧
        Aside id (n.told s.room (.message s.told))
          (afterHandler env c.id (n.handleMessage env c data now uuid)) := by
  rw [completedFrame, if_pos htype]
  rcases handleMessage_cases env id n c data now uuid with ⟨hs, hsame⟩ | ⟨s, hs, hok, htold⟩
  · cases hraised : (n.handleMessage env c data now uuid).2 with
    | none =>
      have hafter : afterHandler env c.id (n.handleMessage env c data now uuid) = n := by
        rw [← Prod.mk.eta (p := n.handleMessage env c data now uuid), hsame, hraised]
        rfl
      rw [hafter]
      exact Or.inr (Or.inl ⟨hs, .refl id n⟩)
    | some e =>
      have hclosed : afterHandler env c.id (n.handleMessage env c data now uuid) =
          n.closeConnection env c.id := by
        rw [← Prod.mk.eta (p := n.handleMessage env c data now uuid), hsame, hraised]
        rfl
      rw [hsame] at hids
      rw [hclosed]
      by_cases hid : id = c.id
      · rw [hid]
        exact Or.inl (seat_closed hc (get?_closeConnection hc rfl))
      · exact Or.inr (Or.inl ⟨hs, .closeConnection n hids hid⟩)
  · refine Or.inr (Or.inr ⟨s, hs, ?_⟩)
    rw [← Prod.mk.eta (p := n.handleMessage env c data now uuid), hok]
    exact htold

/-- A frame of a client that is not waiting, when its activity has been noted. -/
theorem handled_cases {c : Client} {data : Obj} {now : ℤ} {uuid : Str} {r : Node × Option PyError}
    (hr : Handled env n c data now uuid r) (hc : n.clientsById.get? c.id = some c)
    (hwaiting : c.waiting = none)
    (hids : ∀ c', r.1.clientsById.get? c.id = some c' → c'.id = c.id) (id : Str) :
    ((afterHandler env c.id r).seat id ≠ n.seat id ∧ Settled id (afterHandler env c.id r)) ∨
      (completedFrame env c data now uuid = none ∧ Aside id n (afterHandler env c.id r)) ∨
      ∃ s, completedFrame env c data now uuid = some s ∧
        Aside id (n.told s.room (.message s.told)) (afterHandler env c.id r) := by
  have hnone : (data.get "type").str? ≠ some (lit "message") →
      completedFrame env c data now uuid = none := fun h ↦ by rw [completedFrame, if_neg h]
  have hminor : (∀ t ∈ majorTypes, data.get "type" ≠ .str t) →
      completedFrame env c data now uuid = none :=
    fun h ↦ hnone (str?_ne_of_minor h _ (by decide))
  -- a handler that the client does not notice and that does not raise
  have hquiet : ∀ r : Node × Option PyError, r.2 = none → Aside id n r.1 →
      Aside id n (afterHandler env c.id r) := by
    rintro ⟨n₁, o⟩ (rfl : o = none) h
    exact h
  -- a handler of another client, and one that moves its client
  have hother : (data.get "type").str? ≠ some (lit "message") → (id ≠ c.id → Aside id n r.1) →
      (Aside c.id n r.1 ∧ r.2 = none ∨ r.1.seat c.id ≠ n.seat c.id ∧ Settled c.id r.1) →
      ((afterHandler env c.id r).seat id ≠ n.seat id ∧ Settled id (afterHandler env c.id r)) ∨
        (completedFrame env c data now uuid = none ∧ Aside id n (afterHandler env c.id r)) ∨
        ∃ s, completedFrame env c data now uuid = some s ∧
          Aside id (n.told s.room (.message s.told)) (afterHandler env c.id r) := by
    intro htype haside hself
    by_cases hid : id = c.id
    · rcases hself with ⟨h, hok⟩ | ⟨hseat, hsettled⟩
      · rw [hid]
        rw [hid] at hquiet
        exact Or.inr (Or.inl ⟨hnone htype, hquiet r hok h⟩)
      · rw [hid]
        exact Or.inl (seat_afterHandler hc hids hseat hsettled)
    · exact Or.inr (Or.inl ⟨hnone htype, (haside hid).afterHandler hids hid⟩)
  cases hr with
  | join type hr =>
    refine hother (by rw [type]; decide) (fun hid ↦ .handleJoin n hid hr) ?_
    rcases handleJoin_seat hc hwaiting hr with ⟨hsame, hok⟩ | h
    · rw [hsame]
      exact Or.inl ⟨.refl _ n, hok⟩
    · exact Or.inr h
  | message type => exact handledMessage_cases hc (by rw [type]; rfl) hids id
  | privateMessage type =>
    exact Or.inr (Or.inl
      ⟨hnone (by rw [type]; decide), .handlePrivateMessage env n c data now uuid⟩)
  | switchRoom type =>
    exact hother (by rw [type]; decide) (fun hid ↦ .handleSwitchRoom n hid _)
      (handleSwitchRoom_seat hc hwaiting _)
  | createRoom type =>
    exact hother (by rw [type]; decide) (fun hid ↦ .handleCreateRoom n hid data)
      (handleCreateRoom_seat hc hwaiting)
  | typing type => exact Or.inr (Or.inl ⟨hminor type, .handleTyping n c⟩)
  | moderation type action =>
    exact Or.inr (Or.inl ⟨hminor type, .handleModeration env n c data action⟩)
  | ignored type => exact Or.inr (Or.inl ⟨hminor type, .refl id n⟩)

/-- A queue grows by one frame at most. -/
theorem length_queue_deliver (n : Node) (way : Str → Option Bool) (f : Frame) (id : Str) :
    ((n.deliver way f).links id).queue.length ≤ (n.links id).queue.length + 1 := by
  cases hway : way id with
  | none =>
    rw [links_deliver_of_none n f hway]
    exact Nat.le_succ _
  | some hasQueue =>
    rw [links_deliver_of_some n f hway, Link.accept]
    split
    · rw [Link.putNowait]
      split <;> simp
    · exact Nat.le_succ _

theorem length_queue_noteActivity (n : Node) (id id' : Str) (c : Client) (now : ℤ) :
    ((n.noteActivity id' c now).links id).queue.length ≤ (n.links id).queue.length + 1 := by
  rw [noteActivity]
  split
  · exact length_queue_deliver (n.updateClient id' (·.activeAt now)) _ _ id
  · exact Nat.le_succ _

/-! ## Receiving, resuming and the background

A frame, a resumed handler and a request can each end the connection of a client, so that the case
of an ending has a lemma of its own (`passes_closeConnection`). -/

/-- A record is kept under its own id. -/
theorem Housed.id_of_get? (h : Housed n) {c : Client} (hc : n.clientsById.get? id = some c) :
    c.id = id := h.id id _ (placeOf_of_get? hc)

/-- A frame of the client itself, or of another one. -/
theorem passes_receive {id' : Str} {data : Value} {now : ℤ} {uuid : Str} (hhoused : Housed n)
    (h : n.receive env id' data now uuid = some n') (id : Str) :
    Passes env id n (.frame id' data now uuid) n' := by
  obtain ⟨c, hc, hwaiting, hcases⟩ := receive_handled h
  obtain rfl := hhoused.id_of_get? hc
  have hnoted : ∀ id, Aside id n (n.noteActivity c.id c now) := fun id ↦ .noteActivity n c.id c now
  have hget := get?_noteActivity hc now
  have hactive := hhoused.of_samePlaces (.noteActivity n c.id c now)
  have hids : ∀ c', (n.noteActivity c.id c now).clientsById.get? c.id = some c' → c'.id = c.id :=
    fun c' ↦ hactive.id_of_get?
  have hgossip : ∀ v now', Event.frame c.id data now uuid ≠ .gossip (some v) now' := by simp
  rcases hcases with ⟨fields, r, rfl, hr, rfl⟩ | ⟨hdata, rfl⟩
  · have hids' : ∀ c', r.1.clientsById.get? c.id = some c' → c'.id = c.id :=
      fun c' ↦ (hr.housed hactive hget).id_of_get?
    have hcompleted : (Event.frame c.id (.dict fields) now uuid).completed env n =
        completedFrame env (c.activeAt now) fields now uuid := by
      rw [Event.completed, hc]
      rfl
    rcases handled_cases hr hget hwaiting hids' id with ⟨hseat, hsettled⟩ | ⟨hs, haside⟩ |
      ⟨s, hs, htold⟩
    · rw [(hnoted id).seat] at hseat
      refine .moves hseat hsettled (fun hnotices ↦ ?_)
        ((hnoted id).indirect.trans (Indirect.handled hr id).afterHandler)
      exact NoticesOnly.handled (c := c.activeAt now) ((hnoted c.id).noticesOnly hnotices) hr hids'
    · exact .aside ((hnoted id).trans haside) (hcompleted.trans hs) hgossip
    · exact .message (hcompleted.trans hs) hgossip (hnoted id)
        (length_queue_noteActivity n id c.id c now) htold
  · have hcompleted : (Event.frame c.id data now uuid).completed env n = none := by
      cases data with
      | dict fields => exact absurd rfl (hdata fields)
      | _ => rfl
    by_cases hid : id = c.id
    · rw [hid]
      have hclosed : ((n.noteActivity c.id c now).closeConnection env c.id).clientsById.get? c.id =
          none := get?_closeConnection hget rfl
      obtain ⟨hseat, hsettled⟩ := seat_closed hget hclosed
      rw [(hnoted c.id).seat] at hseat
      obtain ⟨id₁, hid₁⟩ := exists_ne_id c.id
      have haside : Aside id₁ _ ((n.noteActivity c.id c now).closeConnection env c.id) :=
        .closeConnection _ hids hid₁
      exact .moves hseat hsettled
        (fun hnotices ↦ haside.noticesOnly ((hnoted id₁).noticesOnly hnotices))
        ((hnoted c.id).indirect.trans (.closeConnection env _ c.id))
    · exact .aside ((hnoted id).trans (.closeConnection _ hids hid)) hcompleted hgossip

/-- A connection ends, perhaps after its handler has done something. -/
theorem passes_closeConnection {n₁ : Node} {a : Event} {id' : Str} {c c₁ : Client}
    (hc : n.clientsById.get? id' = some c) (hc₁ : n₁.clientsById.get? id' = some c₁)
    (hid' : c₁.id = id') (h₁ : ∀ id, id ≠ id' → Aside id n n₁) (hdirect : Indirect id' n n₁)
    (hnone : a.completed env n = none)
    (hgossip : ∀ v now, a ≠ .gossip (some v) now) (id : Str) :
    Passes env id n a (n₁.closeConnection env id') := by
  have hids : ∀ c', n₁.clientsById.get? id' = some c' → c'.id = id' := by
    intro c' hc'
    obtain rfl := Option.some.inj (hc₁.symm.trans hc')
    exact hid'
  have hclosed : ∀ id, id ≠ id' → Aside id n (n₁.closeConnection env id') :=
    fun id hid ↦ (h₁ id hid).trans (.closeConnection n₁ hids hid)
  by_cases hid : id = id'
  · rw [hid]
    obtain ⟨hseat, hsettled⟩ := seat_closed hc (get?_closeConnection (n := n₁) hc₁ hid')
    obtain ⟨id₁, hid₁⟩ := exists_ne_id id'
    exact .moves hseat hsettled (hclosed id₁ hid₁).noticesOnly
      (hdirect.trans (.closeConnection env n₁ id'))
  · exact .aside (hclosed id hid) hnone hgossip

/-- The record with the history in it. -/
theorem get?_handed {c : Client} (hc : n.clientsById.get? id = some c) (w : Option Waiting) :
    (n.handed id w).clientsById.get? id = some { c with waiting := w } := by
  rw [handed, get?_updateClient, hc, Option.map_some, if_pos rfl]

theorem Aside.handedOther (n : Node) {id' : Str} (hid : id ≠ id') (w : Option Waiting) :
    Aside id n (n.handed id' w) := .updateOther n hid _

/-! ## A handler goes on

The history is told, and the handler of the client is free again. -/

/-- The handler of the client goes on, or that of another one. -/
theorem passes_resume {id' : Str} (hhoused : Housed n) (h : n.resume env id' = some n') (id : Str) :
    Passes env id n (.resume id') n' := by
  obtain ⟨c, hc, hcases⟩ := resume_outcome h
  have hid' := hhoused.id_of_get? hc
  have hget := get?_handed hc none
  -- the handler raises and the connection ends, or it tells the history
  have hfinish : ∀ (w : Waiting) (history : List Obj) (r : Node × Option PyError),
      c.waiting = some w → w.result? = some (.ok history) →
      (∀ id, id ≠ id' → Aside id (n.handed id' none) r.1) →
      Indirect id' (n.handed id' none) r.1 →
      r.1.clientsById = (n.handed id' none).clientsById →
      ((∃ n₁ e, r = (n₁, some e)) ∨ ∃ f n₁, f.roomHistory? = some (w.target, history) ∧
        r = (n₁, none) ∧ Aside id' ((n.handed id' none).send id' f) n₁) →
      Passes env id n (.resume id') (afterHandler env id' r) := by
    intro w history r hw hresult haside hdirect hclients hcases
    have hothers : ∀ id, id ≠ id' → Aside id n r.1 :=
      fun id hid ↦ (Aside.handedOther n hid none).trans (haside id hid)
    rcases hcases with ⟨n₁, e, rfl⟩ | ⟨f, n₁, hf, rfl, htold⟩
    · have hc₁ : n₁.clientsById.get? id' = some { c with waiting := none } := hclients ▸ hget
      exact passes_closeConnection hc hc₁ hid' hothers hdirect rfl (by simp) id
    · by_cases hid : id = id'
      · rw [hid]
        exact .resume ((waitingAt_of_get? hc).trans hw) hresult hf htold
      · exact .aside (hothers id hid) rfl (by simp)
  rcases hcases with ⟨room, history, hw, rfl⟩ | ⟨room, history, hw, rfl⟩ | ⟨w, e, -, -, rfl⟩
  · exact hfinish _ history _ hw rfl (fun id₁ hid₁ ↦ .finishJoin _ hid₁ room history)
      (.finishJoin _ id' room history) (finishJoin_records _ id' room history).1
      (finishJoin_cases _ hget room history)
  · exact hfinish _ history _ hw rfl (fun id₁ hid₁ ↦ .finishSwitchRoom _ hid₁ room history)
      (.finishSwitchRoom _ id' room history) (finishSwitchRoom_records _ id' room history).1
      (finishSwitchRoom_cases _ hget room history)
  · exact passes_closeConnection hc hget hid' (fun id hid ↦ .handedOther n hid none)
      (.of_links rfl) rfl (by simp) id

/-- A request is told to the room of the client, or to others. -/
theorem passes_post (n : Node) (body : Body) (query : Obj) (now : ℤ) (uuid : Str) (id : Str) :
    Passes env id n (.post body query now uuid) (n.postMessage env body query now uuid).1 := by
  have hgossip : ∀ v now', Event.post body query now uuid ≠ .gossip (some v) now' := by simp
  cases hs : postSubmission env body query now uuid with
  | none =>
    have hsame : (n.postMessage env body query now uuid).1 = n := by
      rcases postMessage_spec env n body query now uuid with h | ⟨s, hs', -⟩
      · exact h
      · simp [hs] at hs'
    rw [hsame]
    refine .aside (.refl id n) ?_ hgossip
    rw [Event.completed, completedPost, hs]
    rfl
  | some s =>
    obtain ⟨data, hdata, htext, rfl⟩ := text_of_postSubmission hs
    have hcompleted : (Event.post body query now uuid).completed env n =
        (some (textSubmission env data query now uuid)).filter fun s ↦
          filed env now s && (n.tryBroadcast s.room (.message s.told)).2.isNone := by
      rw [Event.completed, completedPost, hs]
    rw [Option.filter_some] at hcompleted
    have hstored : ∀ st, Aside id n { n with store := st } := fun st ↦ .of_eq rfl rfl rfl rfl
    rcases postMessage_of_text hdata htext with ⟨e, hput, hpost⟩ | ⟨st, hput, htold⟩
    · rw [hpost]
      refine .aside (.refl id n) ?_ hgossip
      rw [hcompleted, if_neg (by simp [filed_of_cachePut_error hput])]
    · have hsnd := snd_tryBroadcast_withStore n st
        (textSubmission env data query now uuid).room
        (.message (textSubmission env data query now uuid).told)
      have htell := tryBroadcast_cases { n with store := st }
        (textSubmission env data query now uuid).room
        (.message (textSubmission env data query now uuid).told)
      rcases htold with ⟨n₁, e, hn₁, hpost⟩ | ⟨n₁, j, hn₁, -, hpost⟩
      · rw [hn₁] at hsnd htell
        rcases htell with ⟨h, -⟩ | ⟨h, -⟩
        · simp at h
        · obtain rfl := (Prod.mk.inj h).1
          rw [hpost]
          refine .aside (hstored st) ?_ hgossip
          rw [hcompleted, if_neg (by simp [← hsnd])]
      · rw [hn₁] at hsnd htell
        rcases htell with ⟨h, -⟩ | ⟨h, -⟩
        · obtain rfl := (Prod.mk.inj h).1
          rw [hpost]
          refine .message ?_ hgossip (.refl id n) (Nat.le_succ _)
            ((Aside.told_withStore n st _ _).trans (.of_eq rfl rfl rfl rfl))
          rw [hcompleted, if_pos (by simp [← hsnd, filed_of_cachePut hput])]
        · simp at h

/-! ## The background and the executor

A frame of the client is taken, sent or not sent; or the executor hands its handler the
history. -/

/-- What goes on in the background moves a frame of the client on, or ends its connection. -/
theorem passes_background {b : Background} (hnotices : NoticesOnly n)
    (h : n.background env b = some n') (id : Str) : Passes env id n (.background b) n' := by
  cases background_outcome h with
  | @sweepPresence id' now c hc =>
    have haway : Aside id n (n.updateClient id' fun c ↦ { c with away := true }) :=
      .updateClient n id' fun _ _ ↦ ⟨rfl, rfl, rfl, fun h ↦ h⟩
    refine .aside (haway.trans ⟨rfl, rfl, fun h ↦ h, fun _ ↦ rfl, .refl _, fun p hp ↦ ?_⟩) rfl
      (by simp)
    rcases List.mem_append.mp hp with hp | hp
    · exact Or.inl hp
    · obtain ⟨t, -, rfl⟩ := List.mem_map.mp hp
      exact Or.inr rfl
  | @runScheduled id' f rest hscheduled =>
    have hf : f.shows = false := hnotices (id', f) (hscheduled ▸ List.mem_cons_self)
    refine .aside ⟨rfl, rfl, fun h ↦ h, fun _ ↦ rfl, ?_, fun p hp ↦ Or.inl ?_⟩ rfl (by simp)
    · show SameBoard _ (Function.update n.links id' _ id)
      by_cases hid : id = id'
      · subst hid
        rw [Function.update_self]
        exact .putNowait _ hf
      · rw [Function.update_of_ne hid]
        exact .refl _
    · rw [hscheduled]
      exact List.mem_cons_of_mem _ hp
  | @senderTake id' f q hsender hqueue =>
    by_cases hid : id = id'
    · subst hid
      exact .take hsender hqueue
    · exact .aside (.updateLink n hid _) rfl (by simp)
  | @sent id' f hsender =>
    by_cases hid : id = id'
    · subst hid
      exact .done hsender (by split <;> rfl)
    · exact .aside (.updateLink n hid _) rfl (by simp)
  | @sendFailed id' f hsender =>
    by_cases hid : id = id'
    · subst hid
      exact .failed
    · exact .aside ((Aside.closeWs n id').trans (.updateLink _ hid _)) rfl (by simp)
  | @directDone id' i f hf =>
    by_cases hid : id = id'
    · subst hid
      exact .direct hf
    · exact .aside (.updateLink n hid _) rfl (by simp)
  | shutdown =>
    have haside : Aside id n n.shutdown :=
      shutdown_preserves (I := Aside id n) (fun m id' hm ↦ hm.trans (.closeWs m id'))
        (.broadcastToAll n rfl)
    exact .aside haside rfl (by simp)

/-- The history is for the client, or for another one. -/
theorem passes_fetchHistory {id' : Str} {now : ℤ} {docs : Option (List Obj)}
    (h : n.fetchHistory env id' now docs = some n') (id : Str) :
    Passes env id n (.fetchHistory id' now docs) n' := by
  have hother : id ≠ id' → Aside id n n' := by
    intro hid
    obtain ⟨c, w, room, ready, -, -, -, -, rfl⟩ := fetchHistory_spec h
    have hstored : ∀ st, Aside id n { n with store := st } := fun st ↦ .of_eq rfl rfl rfl rfl
    exact (hstored _).trans (.updateOther _ hid _)
  by_cases hid : id = id'
  · subst hid
    rw [fetchHistory] at h
    split at h
    · rename_i c hc
      have hwaiting := waitingAt_of_get? hc
      split at h
      · rename_i room hw
        obtain rfl := Option.some.inj h
        exact .fetch (hwaiting.trans hw) rfl rfl rfl
      · rename_i room hw
        obtain rfl := Option.some.inj h
        exact .fetch (hwaiting.trans hw) rfl rfl rfl
      · simp at h
    · simp at h
  · exact .aside (hother hid) rfl (by simp)

/-- **What a step means for a client.** -/
theorem passes_step {a : Event} (hhoused : Housed n) (hnotices : NoticesOnly n)
    (h : n.step env a = some n') (id : Str) : Passes env id n a n' := by
  cases a with
  | connect id' queryParams now =>
    obtain ⟨hnone, rfl⟩ := step_connect h
    by_cases hid : id = id'
    · subst hid
      have hget : (n.handleConnection env id queryParams now).clientsById.get? id =
          some (newClient env id queryParams now) := by rw [get?_handleConnection, if_pos rfl]
      refine .moves ?_ ?_ (fun hn ↦ hn) ?_
      · rw [seat_of_get? hget, seat, hnone]
        simp
      · intro c hc
        obtain rfl := Option.some.inj (hget.symm.trans hc)
        refine ⟨fun w hw ↦ by simp [newClient] at hw, fun _ m hm ↦ ?_⟩
        rw [handleConnection, member?_joinRoom, if_pos ⟨rfl, rfl⟩] at hm
        rw [← Option.some.inj hm]
      · intro f hf
        have hempty : f ∈ (Function.update n.links id .empty id).direct := hf
        rw [Function.update_self] at hempty
        exact absurd hempty List.not_mem_nil
    · exact .aside (.handleConnection n hid queryParams now) rfl (by simp)
  | frame id' data now uuid => exact passes_receive hhoused h id
  | fetchHistory id' now docs => exact passes_fetchHistory h id
  | resume id' => exact passes_resume hhoused h id
  | disconnect id' =>
    obtain ⟨c, hc, -, rfl⟩ := step_disconnect h
    exact passes_closeConnection hc hc (hhoused.id_of_get? hc) (fun id _ ↦ .refl id n)
      (.refl id' n) rfl (by simp) id
  | post body query now uuid => exact Option.some.inj h ▸ passes_post n body query now uuid id
  | gossip data now =>
    obtain rfl := Option.some.inj h
    cases data with
    | none => exact .aside (.refl id n) rfl (by simp)
    | some v => exact .gossip
  | feed room limit now =>
    obtain rfl := Option.some.inj h
    refine .aside ?_ rfl (by simp)
    cases room <;> exact .of_eq rfl rfl rfl rfl
  | runJob i now nonce =>
    obtain ⟨job, -, rfl⟩ := Option.map_eq_some_iff.mp h
    refine .aside ?_ rfl (by simp)
    cases job <;> exact .of_eq rfl rfl rfl rfl
  | warmCache now docs =>
    obtain rfl := Option.some.inj h
    exact .aside (.of_eq rfl rfl rfl rfl) rfl (by simp)
  | publicKey username =>
    obtain rfl := Option.some.inj h
    exact .aside (.of_eq rfl rfl rfl rfl) rfl (by simp)
  | privateKey username =>
    obtain rfl := Option.some.inj h
    exact .aside (.of_eq rfl rfl rfl rfl) rfl (by simp)
  | background b => exact passes_background hnotices h id

/-! ## An invariant

A handler waits for one history at a time, and does not read frames in the meantime, so a client
that stays connected cannot leave the room before its handler has gone on. -/

/-- An item of a gossip request is told, or the client notices nothing of it. -/
theorem receiveItem_cases (env : Env) (id : Str) (n : Node) (item : Value) (now : ℤ) :
    (Aside id n (n.receiveItem env item now).1 ∧
        (itemSubmission env now item = none ∨ (n.receiveItem env item now).2.isSome = true)) ∨
      ∃ s, itemSubmission env now item = some s ∧ filed env now s = true ∧
        (n.receiveItem env item now).2 = none ∧
        Aside id (n.told s.room (.message s.told)) (n.receiveItem env item now).1 := by
  rw [receiveItem, itemSubmission]
  cases hmsg : gossipMessage env item now with
  | none => exact Or.inl ⟨.refl id n, Or.inl rfl⟩
  | some p =>
    obtain ⟨room, msg⟩ := p
    simp only [Option.map_some]
    split
    · exact Or.inl ⟨.refl id n, Or.inr rfl⟩
    · rename_i st hput
      rcases tryBroadcast_cases { n with store := st } room (.message msg) with ⟨h, -⟩ | ⟨h, -⟩
      · rw [h]
        have hfiled : filed env now ⟨room, msg, msg, none⟩ = true := filed_of_cachePut hput
        exact Or.inr ⟨_, rfl, hfiled, rfl, .told_withStore n st room _⟩
      · rw [h]
        exact Or.inl ⟨.of_eq rfl rfl rfl rfl, Or.inr rfl⟩

/-- What is told about a message concerns the links only. -/
theorem told_records (n : Node) (room : Value) (f : Frame) :
    (n.told room f).clientsById = n.clientsById ∧ (n.told room f).rooms = n.rooms ∧
      (n.told room f).scheduled = n.scheduled := by
  cases room <;> exact ⟨rfl, rfl, rfl⟩

/-! ## What is told

Telling a message changes links only, so it leaves every client settled. -/

theorem Settled.told (h : Settled id n) (room : Value) (f : Frame) : Settled id (n.told room f) :=
  h.of_eq (told_records n room f).1 (told_records n room f).2.1

theorem NoticesOnly.told (h : NoticesOnly n) (room : Value) (f : Frame) :
    NoticesOnly (n.told room f) := by
  rw [NoticesOnly, (told_records n room f).2.2]
  exact h

theorem Settled.receiveItems (h : Settled id n) (now : ℤ) (items : List Value) :
    Settled id (receiveItems env now n items) := by
  refine receiveItems_preserves (I := Settled id) (fun item _ n hn ↦ ?_) n h
  rcases receiveItem_cases env id n item now with ⟨haside, -⟩ | ⟨s, -, -, -, haside⟩
  · exact hn.of_aside haside
  · exact (hn.told _ _).of_aside haside

theorem NoticesOnly.receiveItems (h : NoticesOnly n) (now : ℤ) (items : List Value) :
    NoticesOnly (receiveItems env now n items) := by
  refine receiveItems_preserves (I := NoticesOnly) (fun item _ n hn ↦ ?_) n h
  rcases receiveItem_cases env [] n item now with ⟨haside, -⟩ | ⟨s, -, -, -, haside⟩
  · exact haside.noticesOnly hn
  · exact haside.noticesOnly (hn.told _ _)

/-- The handler gets the history of the room for which it waits, or none. -/
theorem Settled.handed (h : Settled id n) {w : Option Waiting}
    (hw : ∀ w' ∈ w, ∃ w₀, n.waitingAt id = some w₀ ∧ w'.target = w₀.target) :
    Settled id (n.handed id w) := by
  intro c' hc'
  cases hc : n.clientsById.get? id with
  | none =>
    rw [Node.handed, get?_updateClient, hc] at hc'
    simp at hc'
  | some c =>
    obtain rfl := Option.some.inj ((get?_handed hc w).symm.trans hc')
    refine ⟨fun w' hw' ↦ ?_, (h c hc).2⟩
    obtain ⟨w₀, hw₀, htarget⟩ := hw w' hw'
    exact htarget.trans ((h c hc).1 w₀ ((waitingAt_of_get? hc).symm.trans hw₀))

theorem Waiting.target_of_room? {w : Waiting} {room : Str} (h : w.room? = some room) :
    w.target = room := by
  cases w with
  | join r => exact Option.some.inj h
  | switch r => exact Option.some.inj h
  | joinReady r history => simp [Waiting.room?] at h
  | switchReady r history => simp [Waiting.room?] at h

/-- **A step leaves every client settled.** -/
theorem Passes.settled {a : Event} (h : Passes env id n a n') (hn : Settled id n) :
    Settled id n' := by
  cases h with
  | aside h hnone hgossip => exact hn.of_aside h
  | moves hseat hsettled hnotices hdirect => exact hsettled
  | message hs hgossip h₁ hqueue h => exact ((hn.of_aside h₁).told _ _).of_aside h
  | gossip => exact hn.receiveItems _ _
  | fetch hw hroom hready htarget =>
    have hstored : ∀ st, Settled id { n with store := st } := fun st ↦ hn.of_eq rfl rfl
    refine (hstored _).handed ?_
    rintro _ ⟨⟩
    exact ⟨_, hw, htarget.trans (Waiting.target_of_room? hroom).symm⟩
  | @resume _ _ f _ hw hresult hf h =>
    have htold : Settled id ((n.handed id none).send id f) := (hn.handed (by simp)).of_eq rfl rfl
    exact htold.of_aside h
  | take hsender hqueue => exact hn.of_eq rfl rfl
  | done hsender hafter => exact hn.of_eq rfl rfl
  | failed => exact (hn.of_aside (.closeWs n id)).of_eq rfl rfl
  | direct hf => exact hn.of_eq rfl rfl

/-- A step schedules no message for another thread. -/
theorem Passes.noticesOnly {a : Event} (h : Passes env id n a n') (hn : NoticesOnly n) :
    NoticesOnly n' := by
  cases h with
  | aside h hnone hgossip => exact h.noticesOnly hn
  | moves hseat hsettled hnotices hdirect => exact hnotices hn
  | message hs hgossip h₁ hqueue h => exact h.noticesOnly ((h₁.noticesOnly hn).told _ _)
  | gossip => exact hn.receiveItems _ _
  | resume hw hresult hf h =>
    refine h.noticesOnly ?_
    exact hn
  | _ => exact hn

/-- A step schedules no history directly. -/
theorem Passes.directNews {a : Event} (h : Passes env id n a n') (hn : DirectNews id n) :
    DirectNews id n' := by
  -- a change of the link that leaves nothing new in it
  have hlink : ∀ (n₁ : Node) (f : Link → Link), n₁.links = n.links →
      (∀ g ∈ (f (n.links id)).direct, g ∈ (n.links id).direct) →
        DirectNews id (n₁.updateLink id f) := by
    intro n₁ f hlinks hsub g hg
    have hmem : g ∈ (Function.update n₁.links id (f (n₁.links id)) id).direct := hg
    rw [Function.update_self, hlinks] at hmem
    exact hn g (hsub g hmem)
  cases h with
  | aside h hnone hgossip => exact h.indirect.directNews hn
  | moves hseat hsettled hnotices hdirect => exact hdirect.directNews hn
  | @message _ n₁ _ s hs hgossip h₁ hqueue h =>
    have htold : Indirect id n₁ (n₁.told s.room (.message s.told)) := .told n₁ s.room rfl
    exact ((h₁.indirect.trans htold).trans h.indirect).directNews hn
  | gossip =>
    refine receiveItems_preserves (I := DirectNews id) (fun item _ n hn ↦ ?_) n hn
    rcases receiveItem_cases env id n item _ with ⟨haside, -⟩ | ⟨s, -, -, -, haside⟩
    · exact haside.indirect.directNews hn
    · exact ((Indirect.told n s.room rfl).trans haside.indirect).directNews hn
  | fetch hw hroom hready htarget => exact hn
  | @resume _ _ f _ hw hresult hf h =>
    have hsent : Indirect id n ((n.handed id none).send id f) :=
      Indirect.send (n.handed id none) id f
    exact (hsent.trans h.indirect).directNews hn
  | take hsender hqueue => exact hlink n _ rfl fun g hg ↦ hg
  | done hsender hafter => exact hlink n _ rfl fun g hg ↦ hg
  | failed => exact hlink (n.closeWs id) _ rfl fun g hg ↦ hg
  | direct hf => exact hlink n _ rfl fun g hg ↦ List.mem_of_mem_eraseIdx hg

/-- A node that has just started has no clients. -/
theorem noticesOnly_initial (env : Env) : NoticesOnly (initial env) :=
  initial_of env (by simp [NoticesOnly, empty]) fun n room h ↦
    (show Aside [] n (n.ensureRoom room) from .ensureRoom n room).noticesOnly h

/-- What other threads have scheduled never shows a message. -/
theorem noticesOnly_of_reachable (h : (system env).Reachable n) : NoticesOnly n := by
  refine h.invariant_of (J := Housed) (fun s hs ↦ housed_of_reachable hs) ?_ ?_
  · rintro s rfl
    exact noticesOnly_initial env
  · exact fun s a s' hhoused hs hstep ↦ (passes_step hhoused hs hstep []).noticesOnly hs

/-- **The handler of a client waits for the history of its room.** -/
theorem settled_of_reachable (h : (system env).Reachable n) (id : Str) : Settled id n := by
  refine h.invariant_of (J := fun n ↦ Housed n ∧ NoticesOnly n)
    (fun s hs ↦ ⟨housed_of_reachable hs, noticesOnly_of_reachable hs⟩) ?_ ?_
  · rintro s rfl c hc
    have hplace := placeOf_initial env id
    rw [placeOf_of_get? hc] at hplace
    simp at hplace
  · exact fun s a s' hs hsettled hstep ↦ (passes_step hs.1 hs.2 hstep id).settled hsettled

/-- No history is ever sent without the queue. -/
theorem directNews_of_reachable (h : (system env).Reachable n) (id : Str) : DirectNews id n := by
  refine h.invariant_of (J := fun n ↦ Housed n ∧ NoticesOnly n)
    (fun s hs ↦ ⟨housed_of_reachable hs, noticesOnly_of_reachable hs⟩) ?_ ?_
  · rintro s rfl
    exact initial_of env (fun f hf ↦ absurd hf List.not_mem_nil) fun n room hn ↦
      (Aside.ensureRoom n room).indirect.directNews hn
  · exact fun s a s' hs hnews hstep ↦ (passes_step hs.1 hs.2 hstep id).directNews hnews

end Node
end GroupChat
