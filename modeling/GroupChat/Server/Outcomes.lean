import GroupChat.App

/-!
# What a handler can do

A handler checks its frame, and then it does one thing.  Each lemma of this file lists the outcomes
of one handler, as nodes that are built from the operations on a node:

* `finishJoin_outcome`, `finishSwitchRoom_outcome`: the history is told or it cannot be sent;
* `handleJoin_outcome`: nothing, or the client is registered and the history is asked for;
* `handleSwitchRoom_outcome`, `handleCreateRoom_outcome`: nothing, an error frame, or a move to the
  room that `switchedRoom` names;
* `handlePrivateMessage_outcome`, `handleModeration_outcome` and `handleClose_outcome`;
* `Backgrounded` lists what the steps in the background do (`background_outcome`), and
  `shutdown_preserves` is an induction for the last one of them;
* `step_connect` and `step_disconnect`: the events that are for a client that is not there, or not
  busy.

An invariant of the operations is one of the handlers by a look at each outcome; the checks that
the handlers make are not gone through again.

The lemmas keep the order in which a handler does things, since an exception in the middle leaves
what has been done before it.
-/

set_option autoImplicit false

namespace GroupChat
namespace Node

/-! ## Histories

The handler that tells a history sends it, notifies the room and, after a join, sends the list of
rooms.  If the history cannot be serialised then it raises with nothing sent. -/

theorem trySend_none {n n' : Node} {id : Str} {f : Frame} (h : n.trySend id f = (n', none)) :
    n' = n.send id f := by
  rw [trySend] at h
  split at h
  · exact absurd (Prod.ext_iff.mp h).2 (by simp)
  · exact (Prod.ext_iff.mp h).1.symm

theorem trySend_some {n n' : Node} {id : Str} {f : Frame} {e : PyError}
    (h : n.trySend id f = (n', some e)) : n' = n := by
  rw [trySend] at h
  split at h
  · exact (Prod.ext_iff.mp h).1.symm
  · exact absurd (Prod.ext_iff.mp h).2 (by simp)

/-- The handler is stuck with the history, or it tells it, notifies the room and lists the
rooms. -/
theorem finishJoin_outcome (n : Node) (id room : Str) (history : List Obj) :
    (∃ e, n.finishJoin id room history = (n, e) ∧ (n.clientsById.get? id = none ∨ e.isSome)) ∨
      ∃ username isAdmin users online text rooms, n.finishJoin id room history =
        (((n.send id (.welcome username room isAdmin users n.listRooms online history)).broadcast
          room (.notification text users room) (some id)).send id (.roomList rooms), none) := by
  rw [finishJoin]
  split
  · simp only
    split
    · rename_i hsend
      exact Or.inl ⟨_, by rw [trySend_some hsend], Or.inr rfl⟩
    · rename_i hsend
      obtain rfl := trySend_none hsend
      exact Or.inr ⟨_, _, _, _, _, _, rfl⟩
  · rename_i hc
    exact Or.inl ⟨none, rfl, Or.inl hc⟩

/-- The handler is stuck with the history, or it tells it and notifies the room. -/
theorem finishSwitchRoom_outcome (n : Node) (id room : Str) (history : List Obj) :
    (∃ e, n.finishSwitchRoom id room history = (n, e) ∧
        (n.clientsById.get? id = none ∨ e.isSome)) ∨
      ∃ users text, n.finishSwitchRoom id room history =
        ((n.send id (.roomSwitched room users history)).broadcast room
          (.notification text users room) (some id), none) := by
  rw [finishSwitchRoom]
  split
  · split
    · rename_i hsend
      exact Or.inl ⟨_, by rw [trySend_some hsend], Or.inr rfl⟩
    · rename_i hsend
      obtain rfl := trySend_none hsend
      exact Or.inr ⟨_, _, rfl⟩
  · rename_i hc
    exact Or.inl ⟨none, rfl, Or.inl hc⟩

/-! ## Joins

A second join of a client is ignored. -/

/-- The client has joined before, or it is registered under a name that is free and the history is
asked for. -/
theorem handleJoin_outcome {env : Env} {n : Node} {c : Client} {data : Obj}
    {r : Node × Option PyError} (h : n.handleJoin env c data = some r) :
    c.explicitlyJoined = true ∧ r = (n, none) ∨
      ∃ username, c.explicitlyJoined = false ∧
        uniqueUsername env.lib n.usernameToId.keys (requestedName env c data) = some username ∧
        r = (n.register env c username (requestedRoom env data)).awaitHistory env c.id
          (requestedRoom env data) (.join (requestedRoom env data)) fun n history ↦
            n.finishJoin c.id (requestedRoom env data) history := by
  rw [handleJoin] at h
  split at h
  · rename_i hjoined
    exact Or.inl ⟨hjoined, (Option.some.inj h).symm⟩
  · rename_i hjoined
    obtain ⟨username, hunique, rfl⟩ := Option.map_eq_some_iff.mp h
    exact Or.inr ⟨username, Bool.eq_false_of_not_eq_true hjoined, hunique, rfl⟩

/-! ## Rooms

`switchedRoom` says where a switch leads, or that it leads nowhere: a room must exist, have a
proper name and not be the one that the client is in. -/

/-- The room that a switch goes to, if it goes anywhere. -/
def switchedRoom (n : Node) (c : Client) (room : Value) : Option Str :=
  if c.username.isSome then
    ((validRoom? room).filter fun r ↦ n.rooms.contains r).filter fun r ↦ decide (r ≠ c.room)
  else none

/-- The client stays, perhaps with an error frame, or it is moved and the history is asked for. -/
theorem handleSwitchRoom_outcome (env : Env) (n : Node) (c : Client) (room : Value) :
    n.switchedRoom c room = none ∧ (n.handleSwitchRoom env c room = (n, none) ∨
        ∃ code text, n.handleSwitchRoom env c room = (n.sendError c.id code text, none)) ∨
      ∃ username r, c.username = some username ∧ n.switchedRoom c room = some r ∧
        n.handleSwitchRoom env c room =
          (n.moveTo c username r).awaitHistory env c.id r (.switch r) fun n history ↦
            n.finishSwitchRoom c.id r history := by
  rw [handleSwitchRoom, switchedRoom]
  cases c.username with
  | none => exact Or.inl ⟨rfl, Or.inl rfl⟩
  | some username =>
    rw [Option.isSome_some, if_pos rfl]
    cases (validRoom? room).filter fun r ↦ n.rooms.contains r with
    | none => exact Or.inl ⟨rfl, Or.inr ⟨_, _, rfl⟩⟩
    | some r =>
      by_cases hsame : r = c.room
      · exact Or.inl ⟨by simp [hsame], Or.inl (if_pos hsame)⟩
      · exact Or.inr ⟨username, r, rfl, by simp [hsame], if_neg hsame⟩

/-- A room is proper if a switch goes to it, and it is not the room of the client. -/
theorem switchedRoom_eq_some {n : Node} {c : Client} {room : Value} {r : Str}
    (h : n.switchedRoom c room = some r) : validRoom? room = some r ∧ r ≠ c.room := by
  rw [switchedRoom] at h
  split at h
  · obtain ⟨hr, hne⟩ := Option.filter_eq_some_iff.mp h
    exact ⟨(Option.filter_eq_some_iff.mp hr).1, of_decide_eq_true hne⟩
  · simp at h

/-- The frame is refused, or it is one to switch to a room that has just been made or was there. -/
theorem handleCreateRoom_outcome (env : Env) (n : Node) (c : Client) (data : Obj) :
    (n.ensureRoom (createdRoom env data)).switchedRoom c (.str (createdRoom env data)) = none ∧
        (n.handleCreateRoom env c data = (n, none) ∨
          ∃ code text, n.handleCreateRoom env c data = (n.sendError c.id code text, none)) ∨
      ∃ n₁, (n₁ = n.ensureRoom (createdRoom env data) ∨
          ∃ rooms, n₁ = (n.ensureRoom (createdRoom env data)).broadcastToAll (.roomList rooms)) ∧
        n.handleCreateRoom env c data =
          n₁.handleSwitchRoom env c (.str (createdRoom env data)) := by
  rw [handleCreateRoom]
  split
  · rename_i husername
    exact Or.inl ⟨by rw [switchedRoom, husername]; rfl, Or.inl rfl⟩
  · simp only
    split
    · refine Or.inr ⟨_, ?_, rfl⟩
      split
      · exact Or.inl rfl
      · exact Or.inr ⟨_, rfl⟩
    · rename_i hinvalid
      refine Or.inl ⟨?_, Or.inr ⟨_, _, rfl⟩⟩
      rw [switchedRoom, validRoom?, if_neg hinvalid]
      simp

/-! ## Messages and moderation

These handlers have no history, so each of them is over when it returns. -/

/-- The frame is ignored or refused, or both clients and the executor get the message. -/
theorem handlePrivateMessage_outcome (env : Env) (n : Node) (c : Client) (data : Obj) (now : ℤ)
    (uuid : Str) : n.handlePrivateMessage env c data now uuid = n ∨
      (∃ code text, n.handlePrivateMessage env c data now uuid = n.sendError c.id code text) ∨
      ∃ username targetId, c.username = some username ∧
        n.usernameToId.get? (env.lib.lower (targetName env (data.get "to"))) = some targetId ∧
        n.handlePrivateMessage env c data now uuid =
          let dm := directMessage uuid username (targetName env (data.get "to"))
            (frameText env (data.get "text")) now
          ((n.send targetId (.privateMessage dm)).send c.id (.privateMessage dm)).spawn
            (.append (.str (pairRoom env username (targetName env (data.get "to")))) dm
              c.privateKey) := by
  rw [handlePrivateMessage]
  split
  · exact Or.inl rfl
  · rename_i username husername
    simp only
    split
    · exact Or.inr (Or.inl ⟨_, _, rfl⟩)
    · rename_i targetId htarget
      split
      · exact Or.inl rfl
      · rename_i x text htext
        exact Or.inr (Or.inr ⟨username, targetId, husername, htarget, by rw [htext]⟩)

/-- The frame is ignored or refused, or a client is kicked, or muted or unmuted. -/
theorem handleModeration_outcome (env : Env) (n : Node) (c : Client) (data : Obj)
    (action : Action) : n.handleModeration env c data action = n ∨
      (∃ code text, n.handleModeration env c data action = n.sendError c.id code text) ∨
      (∃ id moderator, n.handleModeration env c data action =
        (n.send id (.kicked moderator)).closeWs id) ∨
      ∃ id muted room text users, n.handleModeration env c data action =
        (n.updateClient id fun t ↦ { t with muted := muted }).broadcast room
          (.notification text users room) none := by
  rw [handleModeration]
  split
  · exact Or.inl rfl
  · split
    · simp only
      split
      · exact Or.inr (Or.inl ⟨_, _, rfl⟩)
      · cases action with
        | kick => exact Or.inr (Or.inr (Or.inl ⟨_, _, rfl⟩))
        | mute => exact Or.inr (Or.inr (Or.inr ⟨_, true, _, _, _, rfl⟩))
        | unmute => exact Or.inr (Or.inr (Or.inr ⟨_, false, _, _, _, rfl⟩))
    · exact Or.inr (Or.inl ⟨_, _, rfl⟩)

/-- The client is forgotten, and its room is notified if it had joined. -/
theorem handleClose_outcome (env : Env) (n : Node) (c : Client) :
    n.handleClose env c = (n.forget env c).leaveRoom c.room c.id ∨
      ∃ text users, n.handleClose env c = ((n.forget env c).leaveRoom c.room c.id).broadcast
        c.room (.notification text users c.room) none := by
  rw [handleClose]
  split
  · split
    · exact Or.inr ⟨_, _, rfl⟩
    · exact Or.inl rfl
  · exact Or.inl rfl

/-! ## Background

The sender loops, the coroutines, the sweep and the shutdown.  All of them leave the store
alone. -/

/-- What a step in the background does. -/
inductive Backgrounded (env : Env) (n : Node) : Background → Node → Prop
  /-- The others are told that a client is away. -/
  | sweepPresence {id : Str} {now : ℤ} {c : Client} (hc : n.clientsById.get? id = some c)
      (hidle : (c.username.isSome && !c.away &&
        decide (env.config.idleTimeoutMs < now - c.lastActivity)) = true) :
      Backgrounded env n (.sweepPresence id now)
        { n.updateClient id fun c ↦ { c with away := true } with
          scheduled := n.scheduled ++ ((n.updateClient id fun c ↦
            { c with away := true }).clientsById.values.filter Client.connected).map fun t ↦
              (t.id, .presence c.username "away") }
  | runScheduled {id : Str} {f : Frame} {rest : List (Str × Frame)}
      (hscheduled : n.scheduled = (id, f) :: rest) :
      Backgrounded env n .runScheduled
        ({ n with scheduled := rest }.updateLink id (·.putNowait f))
  | senderTake {id : Str} {f : Frame} {q : List Frame} (hsender : (n.links id).sender = .waiting)
      (hqueue : (n.links id).queue = f :: q) :
      Backgrounded env n (.senderTake id)
        (n.updateLink id fun l ↦ { l with queue := q, sender := .sending f })
  | sent {id : Str} {f : Frame} (hsender : (n.links id).sender = .sending f) :
      Backgrounded env n (.senderDone id true) (n.updateLink id fun l ↦ { l with
        sender := if ((n.clientsById.get? id).map Client.connected).getD false then .waiting
          else .stopped
        sent := l.sent ++ [f] })
  | sendFailed {id : Str} {f : Frame} (hsender : (n.links id).sender = .sending f) :
      Backgrounded env n (.senderDone id false)
        ((n.closeWs id).updateLink id fun l ↦ { l with sender := .stopped })
  | directDone {id : Str} {i : ℕ} {f : Frame} (hf : (n.links id).direct[i]? = some f) :
      Backgrounded env n (.directDone id i) (n.updateLink id fun l ↦
        { l with direct := l.direct.eraseIdx i, sent := l.sent ++ [f] })
  | shutdown : Backgrounded env n .shutdown n.shutdown

theorem background_outcome {env : Env} {n n' : Node} {b : Background}
    (h : n.background env b = some n') : Backgrounded env n b n' := by
  cases b with
  | sweepPresence id now =>
    rw [background, Node.sweepPresence] at h
    split at h
    · rename_i c hc
      split at h
      · rename_i hidle
        obtain rfl := Option.some.inj h
        exact .sweepPresence hc hidle
      · simp at h
    · simp at h
  | runScheduled =>
    rw [background, Node.runScheduled] at h
    split at h
    · rename_i id f rest hscheduled
      obtain rfl := Option.some.inj h
      exact .runScheduled hscheduled
    · simp at h
  | senderTake id =>
    rw [background, Node.senderTake] at h
    split at h
    · rename_i f q hsender hqueue
      obtain rfl := Option.some.inj h
      exact .senderTake hsender hqueue
    · simp at h
  | senderDone id ok =>
    rw [background, senderDone] at h
    split at h
    · rename_i f hsender
      cases ok with
      | true =>
        obtain rfl := Option.some.inj h
        exact .sent hsender
      | false =>
        obtain rfl := Option.some.inj h
        exact .sendFailed hsender
    · simp at h
  | directDone id i =>
    obtain ⟨f, hf, rfl⟩ := Option.map_eq_some_iff.mp h
    exact .directDone hf
  | shutdown =>
    obtain rfl := Option.some.inj h
    exact .shutdown

/-- What the farewell and each closing keep, a shutdown keeps. -/
theorem shutdown_preserves {I : Node → Prop} {n : Node}
    (hclose : ∀ n id, I n → I (n.closeWs id)) (h : I (n.broadcastToAll .systemShutdown)) :
    I n.shutdown := by
  have hall : ∀ (ids : List Str) (n : Node), I n → I (ids.foldl closeWs n) := by
    intro ids
    induction ids with
    | nil => exact fun n hn ↦ hn
    | cons id ids ih => exact fun n hn ↦ ih _ (hclose n id hn)
  exact hall _ _ h

/-! ## Events

A connection has an id of its own, and can only be ended by its client when no handler is
suspended in it. -/

theorem step_connect {env : Env} {n n' : Node} {id : Str} {queryParams : Obj} {now : ℤ}
    (h : n.step env (.connect id queryParams now) = some n') :
    n.clientsById.get? id = none ∧ n' = n.handleConnection env id queryParams now := by
  rw [step] at h
  split at h
  · rename_i hnone
    exact ⟨hnone, (Option.some.inj h).symm⟩
  · simp at h

theorem step_disconnect {env : Env} {n n' : Node} {id : Str}
    (h : n.step env (.disconnect id) = some n') :
    ∃ c, n.clientsById.get? id = some c ∧ c.waiting = none ∧ n' = n.closeConnection env id := by
  rw [step] at h
  split at h
  · rename_i c hc
    split at h
    · rename_i hwaiting
      exact ⟨c, hc, Option.isNone_iff_eq_none.mp hwaiting, (Option.some.inj h).symm⟩
    · simp at h
  · simp at h

end Node
end GroupChat
