import GroupChat.Lib.Transition
import GroupChat.Server.Handlers

/-!
# Is a client told that it has been kicked?

`_handle_moderation` queues a `kicked` frame for the client, and `_close_ws` clears `connected` and
schedules `ws.close()`.  Which of the two comes first is decided by the order in which the event
loop runs its callbacks, so a connection is modelled here with the callbacks that are ready.

* `Connection` is the state of one connection, `Connection.step` what can happen to it next.  All
  that the rest of the server does comes as frames that are put into the queue, at any time.
* `Connection.kick` is what a kick does.  `Mirrors` connects it with the handlers of the node:
  `Mirrors.kick` is about `Node.handleModeration`, and there is a lemma for each step of the sender
  loop.
* `Connection.Told`: in no run is the connection closed by the kick before the `kicked` frame has
  been passed to `ws.send_text`.
* `told_iff`: so it is if the loop is waiting and the queue is empty.  Otherwise the loop, which
  tests `connected` after each frame, stops before it comes to the `kicked` frame
  (`not_passed_of_busy`), and the connection is closed.

The order of the callbacks is what decides.  A put wakes up a loop that is waiting, so its
callback is ready before the one that closes the connection; a loop that is busy tests `connected`
when it is done, and that is false by then.
-/

set_option autoImplicit false

namespace GroupChat

open Transition

/-! ## Connections and the event loop

The event loop of asyncio runs the ready callbacks one after the other, each of them up to its
next `await`.  So the state of a connection has a list of ready callbacks beside the queue, and a
step either runs the first of them or lets something come in from outside: a frame, a kick, the
end of an `await`. -/

/-- A frame in a send queue.  Kicks are numbered, to speak about the frame of one of them. -/
structure Payload where
  frame : Frame
  kick : Option ℕ

/-- Where the task of `_client_sender_loop` is suspended. -/
inductive Suspended
  /-- In `q.get()`, and nothing has been put. -/
  | getting
  /-- In `q.get()`, and it has been woken up. -/
  | woken
  /-- In `ws.send_text(payload)`. -/
  | sending (p : Payload)
  | stopped

/-- The same, as the link of a client has it. -/
def Suspended.sender : Suspended → Sender
  | .getting => .waiting
  | .woken => .waiting
  | .sending p => .sending p.frame
  | .stopped => .stopped

/-- Why a connection is closed by the server. -/
inductive Closer
  | kick (k : ℕ)
  | shutdown

/-- A callback that is ready to be run by the event loop. -/
inductive Callback
  /-- The sender loop goes on after `q.get()`. -/
  | wake
  /-- `run_coroutine_threadsafe` makes a task of `ws.close()`. -/
  | makeClose (by_ : Closer)
  /-- That task starts. -/
  | close (by_ : Closer)

/-- A connection. -/
structure Connection where
  /-- `send_queue`. -/
  queue : List Payload
  place : Suspended
  /-- `client['connected']`. -/
  connected : Bool
  /-- The callbacks that are ready, of those that belong to the connection.  They are run in the
  order in which they were registered. -/
  ready : List Callback
  /-- The receive loop has ended. -/
  ended : Bool
  /-- What was passed to `ws.send_text`. -/
  passed : List Payload
  /-- The number of kicks. -/
  kicks : ℕ
  closedBy : Option Closer

namespace Connection

section Step

variable (s : Connection)

/-! ## The callbacks

Each function of the source up to its next `await`.  What it hands to the event loop is appended
to the callbacks that are ready. -/

/-- A put wakes up a loop that is waiting. -/
def wakeGetter : Connection :=
  match s.place with
  | .getting => { s with place := .woken, ready := s.ready ++ [.wake] }
  | _ => s

/-- `q.put_nowait(payload)`; a full queue raises, and the caller swallows that. -/
def putNowait (p : Payload) : Connection :=
  if s.queue.length < sendQueueSize then { s.wakeGetter with queue := s.queue ++ [p] } else s

/-- `_send`. -/
def send (p : Payload) : Connection := if s.connected then s.putNowait p else s

/-- `_close_ws`. -/
def closeWs (by_ : Closer) : Connection :=
  if s.connected then { s with connected := false, ready := s.ready ++ [.makeClose by_] } else s

/-- `_handle_moderation`, of a kick. -/
def kick (moderator : Str) : Connection :=
  ({ s with kicks := s.kicks + 1 }.send ⟨.kicked moderator, some s.kicks⟩).closeWs (.kick s.kicks)

/-- The sender loop takes a frame and passes it to `ws.send_text`, or waits for one. -/
def takeNext : Connection :=
  match s.queue with
  | p :: q => { s with queue := q, place := .sending p, passed := s.passed ++ [p] }
  | [] => { s with place := .getting }

/-- The head of the sender loop. -/
def loopHead : Connection := if s.connected then s.takeNext else { s with place := .stopped }

/-- A callback is run. -/
def run : Callback → Connection
  | .wake =>
    match s.place with
    | .woken => s.takeNext
    -- the task has been cancelled
    | _ => s
  | .makeClose by_ => { s with ready := s.ready ++ [.close by_] }
  | .close by_ => if s.ended ∨ s.closedBy.isSome then s else { s with closedBy := some by_ }

end Step

/-- What can happen. -/
inductive Event
  /-- The event loop runs the first callback that is ready. -/
  | turn
  /-- Another part of the server puts a frame into the queue. -/
  | put (f : Frame)
  | sent
  /-- `ws.send_text` raises, or takes too long. -/
  | sendFailed
  | kick (moderator : Str)
  | shutdown
  /-- The receive loop ends, and cancels the sender loop. -/
  | hangUp

/-! ## What can happen next

The event loop runs the first callback, an `await` of the sender loop comes to its end, or
something arrives from outside. -/

/-- One step; `none` if there is nothing to do. -/
def step (s : Connection) : Event → Option Connection
  | .turn =>
    match s.ready with
    | c :: cs => some ({ s with ready := cs }.run c)
    | [] => none
  | .put f => some (s.putNowait ⟨f, none⟩)
  | .sent =>
    match s.place with
    | .sending _ => some s.loopHead
    | _ => none
  | .sendFailed =>
    match s.place with
    | .sending _ => some { s with connected := false, place := .stopped }
    | _ => none
  | .kick moderator => if s.ended then none else some (s.kick moderator)
  | .shutdown =>
    if s.ended then none else some ((s.send ⟨.systemShutdown, none⟩).closeWs .shutdown)
  | .hangUp =>
    if s.ended then none else some { s with ended := true, connected := false, place := .stopped }

/-- A new connection, whose sender loop has come to its first `q.get()`. -/
def start : Connection := ⟨[], .getting, true, [], false, [], 0, none⟩

/-- The runs of a connection. -/
def system : System Connection Event := .ofFun (· = start) step

/-- In no run from here, with a kick first, is the connection closed by the kick before the frame
has been passed to `ws.send_text`. -/
def Told (s : Connection) (moderator : Str) : Prop :=
  ∀ l s', System.exec step (s.kick moderator) l = some s' → s'.closedBy = some (.kick s.kicks) →
    ⟨.kicked moderator, some s.kicks⟩ ∈ s'.passed

/-! ## What a step can do

A put on the queue has three outcomes, and after a kick a connection has only a few ways to go on.
`Shut` lists those ways, and every invariant after the kick goes by its cases. -/

section Puts

variable (s : Connection) (p : Payload)

/-- A loop that is not waiting cannot be woken up. -/
theorem wakeGetter_of_ne (h : s.place ≠ .getting) : s.wakeGetter = s := by
  unfold wakeGetter
  split
  · rename_i hplace
    exact absurd hplace h
  · rfl

/-- What a put can do. -/
theorem putNowait_cases :
    s.putNowait p = s ∨
      (s.place = .getting ∧ s.putNowait p =
        { s with queue := s.queue ++ [p], place := .woken, ready := s.ready ++ [.wake] }) ∨
      (s.place ≠ .getting ∧ s.putNowait p = { s with queue := s.queue ++ [p] }) := by
  rw [putNowait]
  split
  · refine Or.inr ?_
    by_cases hplace : s.place = .getting
    · exact Or.inl ⟨hplace, by rw [wakeGetter, hplace]⟩
    · exact Or.inr ⟨hplace, by rw [s.wakeGetter_of_ne hplace]⟩
  · exact Or.inl rfl

/-- A loop that waits for a frame is woken up by it. -/
theorem putNowait_of_getting (hplace : s.place = .getting) (hqueue : s.queue = []) :
    s.putNowait p = { s with queue := [p], place := .woken, ready := s.ready ++ [.wake] } := by
  have hroom : s.queue.length < sendQueueSize := by
    rw [hqueue, sendQueueSize]
    simp
  rw [putNowait, if_pos hroom, wakeGetter, hplace, hqueue]
  rfl

@[simp] theorem putNowait_connected : (s.putNowait p).connected = s.connected := by
  rcases s.putNowait_cases p with h | ⟨-, h⟩ | ⟨-, h⟩ <;> rw [h]

@[simp] theorem putNowait_ended : (s.putNowait p).ended = s.ended := by
  rcases s.putNowait_cases p with h | ⟨-, h⟩ | ⟨-, h⟩ <;> rw [h]

@[simp] theorem putNowait_passed : (s.putNowait p).passed = s.passed := by
  rcases s.putNowait_cases p with h | ⟨-, h⟩ | ⟨-, h⟩ <;> rw [h]

@[simp] theorem putNowait_kicks : (s.putNowait p).kicks = s.kicks := by
  rcases s.putNowait_cases p with h | ⟨-, h⟩ | ⟨-, h⟩ <;> rw [h]

@[simp] theorem putNowait_closedBy : (s.putNowait p).closedBy = s.closedBy := by
  rcases s.putNowait_cases p with h | ⟨-, h⟩ | ⟨-, h⟩ <;> rw [h]

end Puts

variable {s s' : Connection} {e : Event}

/-! ## After a kick

A kick clears the flag, and nothing sets it again.  So from then on only the steps of `Shut` are
possible. -/

/-- A client that is not connected any more is kicked without effect. -/
theorem kick_of_not_connected (h : s.connected = false) (moderator : Str) :
    s.kick moderator = { s with kicks := s.kicks + 1 } := by
  simp [kick, send, closeWs, h]

/-- The client as it is when the frame has been queued. -/
def noticed (s : Connection) (moderator : Str) : Connection :=
  { s with kicks := s.kicks + 1 }.putNowait ⟨.kicked moderator, some s.kicks⟩

/-- The frame is queued, and the closing of the connection is made ready. -/
theorem kick_of_connected (h : s.connected = true) (moderator : Str) :
    s.kick moderator = { s.noticed moderator with
      connected := false
      ready := (s.noticed moderator).ready ++ [.makeClose (.kick s.kicks)] } := by
  have hconnected : (s.noticed moderator).connected = true := by
    rw [noticed, putNowait_connected, h]
  have hsend : { s with kicks := s.kicks + 1 }.send ⟨.kicked moderator, some s.kicks⟩ =
      s.noticed moderator := if_pos h
  rw [kick, hsend, closeWs, if_pos hconnected]

/-- What can happen to a connection that is not `connected` any more. -/
inductive Shut (s : Connection) : Connection → Prop
  | wake {cs : List Callback} (hready : s.ready = .wake :: cs) (hplace : s.place = .woken) :
      Shut s { s with ready := cs }.takeNext
  /-- A callback that has no effect. -/
  | idle {c : Callback} {cs : List Callback} (hready : s.ready = c :: cs)
      (hplace : s.place ≠ .woken ∨ c ≠ .wake) : Shut s { s with ready := cs }
  | makeClose {by_ : Closer} {cs : List Callback} (hready : s.ready = .makeClose by_ :: cs) :
      Shut s { s with ready := cs ++ [.close by_] }
  | close {by_ : Closer} {cs : List Callback} (hready : s.ready = .close by_ :: cs)
      (hended : s.ended = false) : Shut s { s with ready := cs, closedBy := some by_ }
  | put {p : Payload} (hp : p.kick = none) : Shut s (s.putNowait p)
  | sent {p : Payload} (hplace : s.place = .sending p) : Shut s { s with place := .stopped }
  | kicked : Shut s { s with kicks := s.kicks + 1 }
  | same : Shut s s
  | hangUp : Shut s { s with ended := true, place := .stopped }

/-- The first callback is run. -/
theorem Shut.of_run (c : Callback) (cs : List Callback) (hready : s.ready = c :: cs) :
    Shut s ({ s with ready := cs }.run c) := by
  cases c with
  | wake =>
    simp only [run]
    split
    · rename_i hplace
      exact .wake hready hplace
    · rename_i hplace
      exact .idle hready (Or.inl hplace)
  | makeClose by_ => exact .makeClose hready
  | close by_ =>
    simp only [run]
    split
    · exact .idle hready (Or.inr (by simp))
    · rename_i hopen
      have hended : s.ended = false := by simpa using fun h ↦ hopen (Or.inl h)
      exact .close hready hended

/-- A connection that is not `connected` never becomes `connected` again. -/
theorem Shut.of_step (hc : s.connected = false) (h : s.step e = some s') : Shut s s' := by
  cases e with
  | turn =>
    simp only [step] at h
    split at h
    · rename_i c cs hready
      obtain rfl := Option.some.inj h
      exact .of_run c cs hready
    · simp at h
  | put f =>
    obtain rfl := Option.some.inj h
    exact .put rfl
  | sent =>
    simp only [step] at h
    split at h
    · rename_i p hplace
      obtain rfl := Option.some.inj h
      rw [loopHead, if_neg (by simp [hc])]
      exact .sent hplace
    · simp at h
  | sendFailed =>
    simp only [step] at h
    split at h
    · rename_i p hplace
      rw [← Option.some.inj h, ← hc]
      exact .sent hplace
    · simp at h
  | kick moderator =>
    simp only [step] at h
    split at h
    · simp at h
    · rw [← Option.some.inj h, kick_of_not_connected hc]
      exact .kicked
  | shutdown =>
    simp only [step] at h
    split at h
    · simp at h
    · have hsame : (s.send ⟨.systemShutdown, none⟩).closeWs .shutdown = s := by
        simp [send, closeWs, hc]
      rw [← Option.some.inj h, hsame]
      exact .same
  | hangUp =>
    simp only [step] at h
    split at h
    · simp at h
    · rw [← Option.some.inj h, ← hc]
      exact .hangUp

/-- A connection that was lost stays lost. -/
theorem Shut.connected (h : Shut s s') : s'.connected = s.connected := by
  cases h with
  | wake => rw [takeNext]; split <;> rfl
  | put => exact putNowait_connected _ _
  | _ => rfl

/-! ## The handlers of the node

The node has no callbacks: its sender loop is a state of the link and its kick is one update.
`Mirrors` relates the two, and every step of the one that is about the client is matched by steps
of the other. -/

/-- The connection is that of the client with the id. -/
structure Mirrors (n : Node) (id : Str) (s : Connection) : Prop where
  queue : (n.links id).queue = s.queue.map Payload.frame
  sender : (n.links id).sender = s.place.sender
  alive : n.alive id = s.connected

section Mirrors

variable {env : Env} {n : Node} {id : Str}

theorem links_updateLink_self (n : Node) (id : Str) (f : Link → Link) :
    (n.updateLink id f).links id = f (n.links id) :=
  Function.update_self ..

/-- `_close_ws` clears the flag of its client. -/
theorem alive_closeWs_self (n : Node) (id : Str) : (n.closeWs id).alive id = false := by
  rw [Node.alive, Node.closeWs, Node.updateClient]
  cases hget : n.clientsById.get? id with
  | none => simp [hget]
  | some c => simp

/-- A frame for the client is put into both queues. -/
theorem Mirrors.put (h : Mirrors n id s) (f : Frame) (k : Option ℕ) :
    Mirrors (n.updateLink id (·.putNowait f)) id (s.putNowait ⟨f, k⟩) := by
  have hlen : (n.links id).queue.length = s.queue.length := by rw [h.queue, List.length_map]
  have hsender : s.place.sender = s.wakeGetter.place.sender := by
    rw [wakeGetter]
    split
    · rename_i hplace
      rw [hplace]
      rfl
    · rfl
  refine ⟨?_, ?_, by rw [putNowait_connected]; exact h.alive⟩
  · rw [links_updateLink_self, Link.putNowait, Connection.putNowait]
    simp only [hlen]
    split
    · simp [h.queue]
    · exact h.queue
  · rw [links_updateLink_self, Link.putNowait, Connection.putNowait]
    simp only [h.sender]
    split
    · exact hsender
    · rfl

/-! ## Steps that match

The kick, and each step of the sender loop, on both sides. -/

/-- **A kick of the handlers is a kick.** -/
theorem Mirrors.kick {c target : Client} {data : Obj} {moderator : Str}
    (hc : c.username = some moderator) (hadmin : c.isAdmin = true)
    (htarget : (n.usernameToId.get? (env.lib.lower (Node.targetName env (data.get "target")))).bind
      n.clientsById.get? = some target) (h : Mirrors n target.id s) :
    Mirrors (n.handleModeration env c data .kick) target.id (s.kick moderator) := by
  have hkick : n.handleModeration env c data .kick =
      (n.send target.id (.kicked moderator)).closeWs target.id := by
    rw [Node.handleModeration, hc]
    simp only [hadmin, if_true, htarget]
  rw [hkick]
  cases hconnected : s.connected with
  | false =>
    have hlinks : (n.send target.id (.kicked moderator)).links target.id = n.links target.id := by
      simp [Node.send, Node.deliver, Node.wayTo, h.alive, hconnected]
    rw [kick_of_not_connected hconnected]
    exact ⟨by rw [Node.closeWs, Node.updateClient_links, hlinks]; exact h.queue,
      by rw [Node.closeWs, Node.updateClient_links, hlinks]; exact h.sender,
      (alive_closeWs_self _ _).trans hconnected.symm⟩
  | true =>
    have hlinks : (n.send target.id (.kicked moderator)).links target.id =
        (n.links target.id).putNowait (.kicked moderator) := by
      simp [Node.send, Node.deliver, Node.wayTo, h.alive, hconnected, Link.accept]
    have hput : Mirrors (n.updateLink target.id (·.putNowait (.kicked moderator))) target.id
        (s.noticed moderator) :=
      Mirrors.put (s := { s with kicks := s.kicks + 1 }) ⟨h.queue, h.sender, h.alive⟩ _ _
    have hqueue := hput.queue
    have hsender := hput.sender
    rw [links_updateLink_self, ← hlinks] at hqueue hsender
    rw [kick_of_connected hconnected]
    exact ⟨hqueue, hsender, alive_closeWs_self _ _⟩

/-- A loop that has been woken up takes a frame. -/
theorem Mirrors.wake (h : Mirrors n id s) (hplace : s.place = .woken) (hqueue : s.queue ≠ []) :
    ∃ n', n.senderTake id = some n' ∧ Mirrors n' id s.takeNext := by
  obtain ⟨p, q, hq⟩ := List.exists_cons_of_ne_nil hqueue
  have hsender : (n.links id).sender = .waiting := by rw [h.sender, hplace]; rfl
  have hlink : (n.links id).queue = p.frame :: q.map Payload.frame := by rw [h.queue, hq]; rfl
  refine ⟨_, by rw [Node.senderTake, hsender, hlink], ?_⟩
  rw [takeNext, hq]
  exact ⟨by simp [Node.updateLink], by simp [Node.updateLink, Suspended.sender], h.alive⟩

/-- A loop that has sent a frame stops, or waits for another one, or takes it. -/
theorem Mirrors.sent (h : Mirrors n id s) {p : Payload} (hplace : s.place = .sending p) :
    ∃ n', n.senderDone id true = some n' ∧
      (Mirrors n' id s.loopHead ∨
        ∃ n'', n'.senderTake id = some n'' ∧ Mirrors n'' id s.loopHead) := by
  have hsender : (n.links id).sender = .sending p.frame := by rw [h.sender, hplace]; rfl
  have halive : ((n.clientsById.get? id).map Client.connected).getD false = s.connected := h.alive
  refine ⟨_, by rw [Node.senderDone, hsender]; rfl, ?_⟩
  rw [halive, loopHead]
  cases hc : s.connected with
  | false =>
    refine Or.inl ⟨?_, ?_, ?_⟩
    · rw [links_updateLink_self]
      exact h.queue
    · rw [links_updateLink_self]
      rfl
    · exact h.alive.trans hc
  | true =>
    simp only [if_true]
    rw [takeNext]
    cases hqueue : s.queue with
    | nil =>
      refine Or.inl ⟨?_, ?_, ?_⟩
      · rw [links_updateLink_self]
        simpa [hqueue] using h.queue
      · rw [links_updateLink_self]
        rfl
      · exact h.alive
    | cons p' q =>
      have hlink : (n.links id).queue = p'.frame :: q.map Payload.frame := by
        rw [h.queue, hqueue]
        rfl
      refine Or.inr ⟨_, by rw [Node.senderTake, links_updateLink_self]; simp only [hlink]; rfl, ?_⟩
      exact ⟨by rw [links_updateLink_self], by rw [links_updateLink_self]; rfl, h.alive⟩

/-- A loop that could not send a frame stops. -/
theorem Mirrors.sendFailed (h : Mirrors n id s) {p : Payload} (hplace : s.place = .sending p) :
    ∃ n', n.senderDone id false = some n' ∧
      Mirrors n' id { s with connected := false, place := .stopped } := by
  have hsender : (n.links id).sender = .sending p.frame := by rw [h.sender, hplace]; rfl
  refine ⟨_, by rw [Node.senderDone, hsender]; rfl, ?_, ?_, ?_⟩
  · rw [links_updateLink_self]
    exact h.queue
  · rw [links_updateLink_self]
    rfl
  · exact alive_closeWs_self n id

end Mirrors

/-! ## A loop that waits comes to the frame first

From a waiting loop with an empty queue, the frame of the kick is put into the queue and the loop
is woken up before the connection can be closed.  `Ahead` follows the frame from there to
`ws.send_text`, and `Missed` follows it where the loop was busy: it stays in the queue for
good. -/

/-- The frame `K` of the kick `k` is the next one to be passed, it has been passed, or the
connection has ended before the kick closed it. -/
inductive Ahead (K : Payload) (k : ℕ) (s : Connection) : Prop
  | next {q : List Payload} {cs : List Callback} (hplace : s.place = .woken)
      (hqueue : s.queue = K :: q) (hready : s.ready = .wake :: cs)
      (hopen : s.closedBy ≠ some (.kick k))
  | passed (h : K ∈ s.passed)
  | ended (hended : s.ended = true) (hopen : s.closedBy ≠ some (.kick k))

/-- Whatever happens after the kick, the frame stays ahead of the closing. -/
theorem Ahead.shut {K : Payload} {k : ℕ} (h : Shut s s') (hs : Ahead K k s) : Ahead K k s' := by
  cases hs with
  | next hplace hqueue hready hopen =>
    cases h with
    | wake hready' hplace' =>
      refine .passed ?_
      simp [takeNext, hqueue]
    | idle hready' hplace' =>
      obtain ⟨rfl, -⟩ := List.cons.inj (hready.symm.trans hready')
      rcases hplace' with hplace' | hplace'
      · exact absurd hplace hplace'
      · exact absurd rfl hplace'
    | makeClose hready' =>
      exact absurd (List.head_eq_of_cons_eq (hready.symm.trans hready')) (by simp)
    | close hready' => exact absurd (List.head_eq_of_cons_eq (hready.symm.trans hready')) (by simp)
    | @put p hp =>
      rcases s.putNowait_cases p with h | ⟨hgetting, -⟩ | ⟨-, h⟩
      · rw [h]
        exact .next hplace hqueue hready hopen
      · exact absurd (hplace.symm.trans hgetting) (by simp)
      · rw [h]
        exact .next hplace (by rw [hqueue]; rfl) hready hopen
    | sent hplace' => exact absurd (hplace.symm.trans hplace') (by simp)
    | kicked => exact .next hplace hqueue hready hopen
    | same => exact .next hplace hqueue hready hopen
    | hangUp => exact .ended rfl hopen
  | passed hpassed =>
    refine .passed ?_
    cases h with
    | wake =>
      rw [takeNext]
      split
      · exact List.mem_append_left _ hpassed
      · exact hpassed
    | put => rwa [putNowait_passed]
    | _ => exact hpassed
  | ended hended hopen =>
    cases h with
    | wake =>
      rw [takeNext]
      split
      · exact .ended hended hopen
      · exact .ended hended hopen
    | close hready hended' => exact absurd (hended.symm.trans hended') (by simp)
    | put => exact .ended (by rwa [putNowait_ended]) (by rwa [putNowait_closedBy])
    | hangUp => exact .ended rfl hopen
    | _ => exact .ended hended hopen

/-! ## The kick and the closing

A connection can be closed by something else than the kick in question, which is no failure of
that kick. -/

/-- The kick `k` does not close the connection. -/
structure Spared (k : ℕ) (s : Connection) : Prop where
  make : .makeClose (.kick k) ∉ s.ready
  close : .close (.kick k) ∉ s.ready
  closedBy : s.closedBy ≠ some (.kick k)

/-- A put closes nothing. -/
theorem Spared.putNowait {k : ℕ} (h : Spared k s) (p : Payload) : Spared k (s.putNowait p) := by
  rcases s.putNowait_cases p with hput | ⟨-, hput⟩ | ⟨-, hput⟩ <;> rw [hput]
  · exact h
  · exact ⟨by simpa using h.make, by simpa using h.close, h.closedBy⟩
  · exact ⟨h.make, h.close, h.closedBy⟩

/-- Taking a frame closes nothing. -/
theorem Spared.takeNext {k : ℕ} (h : Spared k s) : Spared k s.takeNext := by
  rw [Connection.takeNext]
  split
  · exact ⟨h.make, h.close, h.closedBy⟩
  · exact ⟨h.make, h.close, h.closedBy⟩

/-- If a kick does not close the connection, then no step makes it do so. -/
theorem Spared.shut {k : ℕ} (h : Shut s s') (hs : Spared k s) : Spared k s' := by
  have htail : ∀ {c : Callback} {cs : List Callback}, s.ready = c :: cs →
      Spared k { s with ready := cs } := by
    intro c cs hready
    refine ⟨fun hmem ↦ hs.make ?_, fun hmem ↦ hs.close ?_, hs.closedBy⟩
    · rw [hready]
      exact List.mem_cons_of_mem _ hmem
    · rw [hready]
      exact List.mem_cons_of_mem _ hmem
  cases h with
  | wake hready => exact (htail hready).takeNext
  | idle hready => exact htail hready
  | @makeClose by_ cs hready =>
    have hby : by_ ≠ .kick k := by
      rintro rfl
      exact hs.make (hready ▸ List.mem_cons_self)
    refine ⟨?_, ?_, hs.closedBy⟩
    · simpa using (htail hready).make
    · simpa [hby.symm] using (htail hready).close
  | @close by_ cs hready hended =>
    have hby : by_ ≠ .kick k := by
      rintro rfl
      exact hs.close (hready ▸ List.mem_cons_self)
    exact ⟨(htail hready).make, (htail hready).close, by simpa using hby⟩
  | put => exact hs.putNowait _
  | _ => exact ⟨hs.make, hs.close, hs.closedBy⟩

/-- A busy loop will not come to the frame `K`: it is not among those that it still takes. -/
structure Missed (K : Payload) (s : Connection) : Prop where
  notPassed : K ∉ s.passed
  notGetting : s.place ≠ .getting
  woken : s.place = .woken → ∃ p q, s.queue = p :: q ∧ p ≠ K

/-- A frame that is missed stays missed. -/
theorem Missed.shut {K : Payload} (h : Shut s s') (hs : Missed K s) : Missed K s' := by
  obtain ⟨hpassed, hgetting, hwoken⟩ := hs
  cases h with
  | wake hready hplace =>
    obtain ⟨p, q, hqueue, hp⟩ := hwoken hplace
    refine ⟨?_, ?_, ?_⟩
    · simpa [takeNext, hqueue] using ⟨hpassed, hp.symm⟩
    · simp [takeNext, hqueue]
    · simp [takeNext, hqueue]
  | @put p hp =>
    rcases s.putNowait_cases p with h | ⟨hplace, -⟩ | ⟨-, h⟩
    · rw [h]
      exact ⟨hpassed, hgetting, hwoken⟩
    · exact absurd hplace hgetting
    · rw [h]
      refine ⟨hpassed, hgetting, fun hplace ↦ ?_⟩
      obtain ⟨p', q, hqueue, hp'⟩ := hwoken hplace
      exact ⟨p', q ++ [p], by rw [hqueue]; rfl, hp'⟩
  | sent => exact ⟨hpassed, by simp, by simp⟩
  | hangUp => exact ⟨hpassed, by simp, by simp⟩
  | _ => exact ⟨hpassed, hgetting, hwoken⟩

/-- What holds of a connection that is not `connected` and is kept by its steps holds after any
number of them. -/
theorem Shut.induction {I : Connection → Prop} (hI : ∀ {t t'}, Shut t t' → I t → I t')
    (hc : s.connected = false) (hs : I s) {l : List Event} (h : System.exec step s l = some s') :
    I s' := by
  have hboth : s'.connected = false ∧ I s' := by
    have htrace : (System.ofFun (· = s) step).Trace s l s' := System.trace_of_exec h
    refine htrace.run.preserves (I := fun t ↦ t.connected = false ∧ I t) ⟨hc, hs⟩ ?_
    rintro t e t' ⟨htc, ht⟩ hstep
    have hshut : Shut t t' := .of_step htc hstep
    exact ⟨hshut.connected.trans htc, hI hshut ht⟩
  exact hboth.2

/-! ## Connections as they occur

`Told` is about a connection that may be in any reachable state, with any callbacks ready.  `Ok`
is what holds of all of these: kicks are numbered upwards, and as long as the client is connected
its loop is alive. -/

/-- The sender loop of a client that is `connected`. -/
inductive Live (s : Connection) : Prop
  | idle (hplace : s.place = .getting) (hqueue : s.queue = []) (hready : s.ready = [])
  | woken (hplace : s.place = .woken) (hqueue : s.queue ≠ []) (hready : s.ready = [.wake])
  | busy {p : Payload} (hplace : s.place = .sending p) (hready : s.ready = [])

/-- The loop takes the frame at once, or it is in the queue. -/
theorem Live.putNowait (h : Live s) (p : Payload) : Live (s.putNowait p) := by
  cases h with
  | idle hplace hqueue hready =>
    rw [putNowait_of_getting s p hplace hqueue]
    exact .woken rfl (by simp) (by rw [hready]; rfl)
  | woken hplace hqueue hready =>
    rcases s.putNowait_cases p with hput | ⟨hgetting, -⟩ | ⟨-, hput⟩
    · rw [hput]
      exact .woken hplace hqueue hready
    · exact absurd (hplace.symm.trans hgetting) (by simp)
    · rw [hput]
      exact .woken hplace (by simp) hready
  | busy hplace hready =>
    rcases s.putNowait_cases p with hput | ⟨hgetting, -⟩ | ⟨-, hput⟩
    · rw [hput]
      exact .busy hplace hready
    · exact absurd (hplace.symm.trans hgetting) (by simp)
    · rw [hput]
      exact .busy hplace hready

/-- The loop takes a frame or waits. -/
theorem Live.takeNext (hready : s.ready = []) : Live s.takeNext := by
  rw [Connection.takeNext]
  split
  · exact .busy rfl hready
  · rename_i hqueue
    exact .idle rfl hqueue hready

/-! ## Steps of a connected client

The counterpart of `Shut`, as long as the client is connected. -/

/-- What can happen to a connection that is `connected`. -/
inductive Served (s : Connection) : Connection → Prop
  /-- The loop takes a frame, or waits. -/
  | takes : Served s { s with ready := [] }.takeNext
  | put (f : Frame) : Served s (s.putNowait ⟨f, none⟩)
  /-- A frame could not be sent, or the client hangs up. -/
  | stops (ended : Bool) :
      Served s { s with connected := false, place := .stopped, ended := ended }
  | kicked (moderator : Str) : Served s (s.kick moderator)
  | shutdown : Served s { s.putNowait ⟨.systemShutdown, none⟩ with
      connected := false
      ready := (s.putNowait ⟨.systemShutdown, none⟩).ready ++ [.makeClose .shutdown] }

/-- All steps of a connection that is connected. -/
theorem Served.of_step (hc : s.connected = true) (hlive : Live s) (h : s.step e = some s') :
    Served s s' := by
  cases e with
  | turn =>
    cases hlive with
    | idle hplace hqueue hready => simp [step, hready] at h
    | woken hplace hqueue hready =>
      have hs' : s' = { s with ready := [] }.takeNext := by
        simpa [step, hready, run, hplace] using h.symm
      exact hs' ▸ .takes
    | busy hplace hready => simp [step, hready] at h
  | put f =>
    obtain rfl := Option.some.inj h
    exact .put f
  | sent =>
    cases hlive with
    | idle hplace hqueue hready => simp [step, hplace] at h
    | woken hplace hqueue hready => simp [step, hplace] at h
    | busy hplace hready =>
      have hself : { s with ready := [] } = s := by rw [← hready]
      have hs' : s' = s.loopHead := by
        simp only [step, hplace] at h
        exact (Option.some.inj h).symm
      rw [hs', loopHead, if_pos hc, ← hself]
      exact .takes
  | sendFailed =>
    simp only [step] at h
    split at h
    · obtain rfl := Option.some.inj h
      exact .stops s.ended
    · simp at h
  | kick moderator =>
    simp only [step] at h
    split at h
    · simp at h
    · obtain rfl := Option.some.inj h
      exact .kicked moderator
  | shutdown =>
    simp only [step] at h
    split at h
    · simp at h
    · have hconnected : (s.putNowait ⟨.systemShutdown, none⟩).connected = true := by
        rw [putNowait_connected, hc]
      rw [← Option.some.inj h, send, if_pos hc, closeWs, if_pos hconnected]
      exact .shutdown
  | hangUp =>
    simp only [step] at h
    split at h
    · simp at h
    · obtain rfl := Option.some.inj h
      exact .stops true

/-! ## Kicks that have not come yet

Kicks are numbered, so the frame of the next one is not in the queue and no callback belongs to
it. -/

/-- There has been no kick `k` yet. -/
structure Fresh (k : ℕ) (s : Connection) : Prop where
  spared : Spared k s
  queue : ∀ p ∈ s.queue, p.kick ≠ some k
  passed : ∀ p ∈ s.passed, p.kick ≠ some k

/-- Only the frame of the kick belongs to the kick. -/
theorem Fresh.putNowait {k : ℕ} (h : Fresh k s) {p : Payload} (hp : p.kick ≠ some k) :
    Fresh k (s.putNowait p) := by
  refine ⟨h.spared.putNowait p, ?_, by simpa using h.passed⟩
  have happend : ∀ p' ∈ s.queue ++ [p], p'.kick ≠ some k := by
    intro p' hp'
    rcases List.mem_append.mp hp' with hp' | hp'
    · exact h.queue p' hp'
    · rwa [List.mem_singleton.mp hp']
  rcases s.putNowait_cases p with hput | ⟨-, hput⟩ | ⟨-, hput⟩ <;> rw [hput]
  · exact h.queue
  · exact happend
  · exact happend

theorem Fresh.takeNext {k : ℕ} (h : Fresh k s) : Fresh k s.takeNext := by
  refine ⟨h.spared.takeNext, ?_, ?_⟩
  all_goals rw [Connection.takeNext]; split
  · rename_i p q hqueue
    exact fun p' hp' ↦ h.queue p' (hqueue ▸ List.mem_cons_of_mem _ hp')
  · exact h.queue
  · rename_i p q hqueue
    intro p' hp'
    rcases List.mem_append.mp hp' with hp' | hp'
    · exact h.passed p' hp'
    · rw [List.mem_singleton.mp hp']
      exact h.queue p (hqueue ▸ List.mem_cons_self)
  · exact h.passed

/-- No step makes up a kick that there has not been. -/
theorem Fresh.shut {k : ℕ} (h : Shut s s') (hs : Fresh k s) : Fresh k s' := by
  have hspared : Spared k s' := hs.spared.shut h
  cases h with
  | wake hready =>
    refine Fresh.takeNext (s := { s with ready := _ }) ⟨?_, hs.queue, hs.passed⟩
    exact ⟨fun hmem ↦ hs.spared.make (hready ▸ List.mem_cons_of_mem _ hmem),
      fun hmem ↦ hs.spared.close (hready ▸ List.mem_cons_of_mem _ hmem), hs.spared.closedBy⟩
  | put hp => exact hs.putNowait (by rw [hp]; simp)
  | _ => exact ⟨hspared, hs.queue, hs.passed⟩

/-- A connection as it occurs. -/
structure Ok (s : Connection) : Prop where
  live : s.connected = true → Live s
  open_ : s.connected = true → s.ended = false ∧ s.closedBy = none
  fresh : ∀ k, s.kicks ≤ k → Fresh k s

/-- A new connection is in order. -/
theorem Ok.start : start.Ok where
  live _ := .idle rfl rfl rfl
  open_ _ := ⟨rfl, rfl⟩
  fresh k _ := by
    refine ⟨⟨?_, ?_, ?_⟩, ?_, ?_⟩ <;> simp [Connection.start]

theorem Fresh.closing {k : ℕ} (h : Fresh k s) {by_ : Closer} (hby : by_ ≠ .kick k) :
    Fresh k { s with connected := false, ready := s.ready ++ [.makeClose by_] } := by
  refine ⟨⟨?_, ?_, h.spared.closedBy⟩, h.queue, h.passed⟩
  · simpa [hby.symm] using h.spared.make
  · simpa using h.spared.close

/-- A kick is no other kick. -/
theorem Fresh.kick {k : ℕ} (h : Fresh k s) (hk : s.kicks ≠ k) (moderator : Str) :
    Fresh k (s.kick moderator) := by
  have hcounted : Fresh k { s with kicks := s.kicks + 1 } := ⟨⟨h.spared.make, h.spared.close,
    h.spared.closedBy⟩, h.queue, h.passed⟩
  cases hc : s.connected with
  | false =>
    rw [kick_of_not_connected hc]
    exact hcounted
  | true =>
    rw [kick_of_connected hc]
    exact (hcounted.putNowait (by simpa using hk)).closing (by simpa using hk)

/-- A kick is counted, and the client is not connected afterwards. -/
theorem kick_kicks (s : Connection) (moderator : Str) :
    (s.kick moderator).kicks = s.kicks + 1 ∧ (s.kick moderator).connected = false := by
  cases hc : s.connected with
  | false =>
    rw [kick_of_not_connected hc]
    exact ⟨rfl, hc⟩
  | true =>
    rw [kick_of_connected hc]
    exact ⟨putNowait_kicks _ _, rfl⟩

/-- Kicks are counted upwards. -/
theorem Shut.kicks_le (h : Shut s s') : s.kicks ≤ s'.kicks := by
  cases h with
  | wake =>
    rw [takeNext]
    split <;> exact le_rfl
  | put => rw [putNowait_kicks]
  | kicked => exact Nat.le_succ _
  | _ => exact le_rfl

/-- Of a connection that is not `connected`, nothing else is asked. -/
theorem Ok.of_lost (hc : s.connected = false) (hfresh : ∀ k, s.kicks ≤ k → Fresh k s) : s.Ok :=
  ⟨by simp [hc], by simp [hc], hfresh⟩

theorem Ok.takeNext (h : s.Ok) (hc : s.connected = true) :
    Ok { s with ready := [] }.takeNext := by
  have hkept : { s with ready := [] }.takeNext.kicks = s.kicks ∧
      { s with ready := [] }.takeNext.ended = s.ended ∧
      { s with ready := [] }.takeNext.closedBy = s.closedBy := by
    rw [Connection.takeNext]
    split <;> exact ⟨rfl, rfl, rfl⟩
  obtain ⟨hkicks, hended, hclosed⟩ := hkept
  refine ⟨fun _ ↦ .takeNext rfl, fun _ ↦ ?_, fun k hk ↦ ?_⟩
  · rw [hended, hclosed]
    exact h.open_ hc
  · have hfresh : Fresh k s := h.fresh k (hkicks ▸ hk)
    exact Fresh.takeNext ⟨⟨by simp, by simp, hfresh.spared.closedBy⟩, hfresh.queue, hfresh.passed⟩

/-- What happens to a client that is connected keeps the connection in order. -/
theorem Ok.served (h : s.Ok) (hc : s.connected = true) (hserved : Served s s') : s'.Ok := by
  cases hserved with
  | takes => exact h.takeNext hc
  | put f =>
    refine ⟨fun _ ↦ (h.live hc).putNowait _, fun _ ↦ ?_, fun k hk ↦ ?_⟩
    · rw [putNowait_ended, putNowait_closedBy]
      exact h.open_ hc
    · rw [putNowait_kicks] at hk
      exact (h.fresh k hk).putNowait (by simp)
  | stops ended =>
    refine .of_lost rfl fun k hk ↦ ?_
    have hfresh : Fresh k s := h.fresh k hk
    exact ⟨⟨hfresh.spared.make, hfresh.spared.close, hfresh.spared.closedBy⟩, hfresh.queue,
      hfresh.passed⟩
  | kicked moderator =>
    obtain ⟨hkicks, hconnected⟩ := kick_kicks s moderator
    refine .of_lost hconnected fun k hk ↦ (h.fresh k ?_).kick ?_ moderator <;> omega
  | shutdown =>
    refine .of_lost rfl fun k hk ↦ ?_
    have hk' : s.kicks ≤ k := (putNowait_kicks s _).ge.trans hk
    exact ((h.fresh k hk').putNowait (by simp)).closing (by simp)

/-- **Every step keeps the connection in order.** -/
theorem Ok.step (h : s.Ok) (hstep : s.step e = some s') : s'.Ok := by
  cases hc : s.connected with
  | false =>
    have hshut : Shut s s' := .of_step hc hstep
    exact .of_lost (hshut.connected.trans hc) fun k hk ↦
      (h.fresh k (hshut.kicks_le.trans hk)).shut hshut
  | true => exact h.served hc (.of_step hc (h.live hc) hstep)

/-- Every reachable connection is in order. -/
theorem ok_of_reachable (h : system.Reachable s) : s.Ok :=
  h.invariant (fun s hs ↦ by rw [hs]; exact .start) fun _ _ _ ↦ Ok.step

/-- Whatever the queue of a client can hold, its loop can be sending a frame before it. -/
theorem exists_reachable_sending (f : Frame) (fs : List Frame) (hlen : fs.length ≤ sendQueueSize) :
    ∃ s, system.Reachable s ∧ s.connected = true ∧ s.place = .sending ⟨f, none⟩ ∧
      s.queue = fs.map fun f ↦ ⟨f, none⟩ := by
  induction fs using List.reverseRecOn with
  | nil =>
    refine ⟨_, System.reachable_of_exec (l := [.put f, .turn]) rfl rfl, ?_⟩
    simp [start, putNowait, wakeGetter, run, takeNext, sendQueueSize]
  | append_singleton fs f' ih =>
    rw [List.length_append, List.length_singleton] at hlen
    obtain ⟨s, hs, hc, hplace, hqueue⟩ := ih (by omega)
    refine ⟨s.putNowait ⟨f', none⟩, hs.tail (a := .put f') rfl, ?_⟩
    have hroom : s.queue.length < sendQueueSize := by
      rw [hqueue, List.length_map]
      omega
    have hbusy : s.wakeGetter = s := s.wakeGetter_of_ne (by simp [hplace])
    simp only [putNowait, if_pos hroom, hbusy]
    exact ⟨hc, hplace, by simp [hqueue]⟩

/-! ## The kick

Both directions come together here.  A loop that waits on an empty queue passes the frame on; one
that has a frame before it or is sending one does not, in a run that is put together from the
callbacks that are ready. -/

/-- What a kick makes of a client whose sender loop waits. -/
theorem kick_of_idle (hc : s.connected = true) (hplace : s.place = .getting) (hqueue : s.queue = [])
    (moderator : Str) :
    s.kick moderator =
      { s with queue := [⟨.kicked moderator, some s.kicks⟩], place := .woken, connected := false,
               ready := s.ready ++ [.wake] ++ [.makeClose (.kick s.kicks)],
               kicks := s.kicks + 1 } := by
  have hnoticed := putNowait_of_getting { s with kicks := s.kicks + 1 }
    ⟨.kicked moderator, some s.kicks⟩ hplace hqueue
  rw [kick_of_connected hc, noticed, hnoticed]

/-- What it makes of one whose loop is busy: at most the queue has another frame. -/
theorem kick_of_busy (hc : s.connected = true) (hplace : s.place ≠ .getting) (moderator : Str) :
    ∃ q, (q = s.queue ∨ q = s.queue ++ [⟨.kicked moderator, some s.kicks⟩]) ∧
      s.kick moderator =
        { s with queue := q, connected := false, ready := s.ready ++ [.makeClose (.kick s.kicks)],
                 kicks := s.kicks + 1 } := by
  rw [kick_of_connected hc, noticed]
  rcases putNowait_cases { s with kicks := s.kicks + 1 } ⟨.kicked moderator, some s.kicks⟩ with
    hput | ⟨hgetting, -⟩ | ⟨-, hput⟩
  · rw [hput]
    exact ⟨_, Or.inl rfl, rfl⟩
  · exact absurd hgetting hplace
  · rw [hput]
    exact ⟨_, Or.inr rfl, rfl⟩

/-- **A busy loop never comes to the frame.**  If the loop has a frame before it or is sending one
when the kick is handled, the `kicked` frame is not passed in any run. -/
theorem not_passed_of_busy (h : s.Ok) (hc : s.connected = true) (hbusy : s.place ≠ .getting)
    (moderator : Str) {l : List Event} (hl : System.exec step (s.kick moderator) l = some s') :
    ⟨.kicked moderator, some s.kicks⟩ ∉ s'.passed := by
  have hmissed : Missed ⟨.kicked moderator, some s.kicks⟩ (s.kick moderator) := by
    obtain ⟨q, hq, hkick⟩ := kick_of_busy hc hbusy moderator
    have hfresh := h.fresh s.kicks le_rfl
    rw [hkick]
    refine ⟨fun hmem ↦ hfresh.passed _ hmem rfl, hbusy, fun hwoken ↦ ?_⟩
    cases h.live hc with
    | idle hplace => exact absurd hplace hbusy
    | woken hplace hqueue =>
      obtain ⟨p, q', hqueue'⟩ := List.exists_cons_of_ne_nil hqueue
      have hp : p ≠ ⟨.kicked moderator, some s.kicks⟩ := by
        rintro rfl
        exact hfresh.queue _ (hqueue' ▸ List.mem_cons_self) rfl
      rcases hq with rfl | rfl
      · exact ⟨p, q', hqueue', hp⟩
      · exact ⟨p, q' ++ [_], by rw [hqueue']; rfl, hp⟩
    | busy hplace => exact absurd (hwoken.symm.trans hplace) (by simp)
  exact (Shut.induction Missed.shut (kick_kicks s moderator).2 hmissed hl).notPassed

/-- The connection is closed when the callbacks that are ready have been run. -/
theorem exists_closed_of_busy (h : s.Ok) (hc : s.connected = true) (hbusy : s.place ≠ .getting)
    (moderator : Str) :
    ∃ l s', System.exec step (s.kick moderator) l = some s' ∧
      s'.closedBy = some (.kick s.kicks) := by
  obtain ⟨q, hq, hkick⟩ := kick_of_busy hc hbusy moderator
  obtain ⟨hended, hopen⟩ := h.open_ hc
  rw [hkick]
  cases h.live hc with
  | idle hplace => exact absurd hplace hbusy
  | woken hplace hqueue hready =>
    obtain ⟨p, q', rfl⟩ : ∃ p q', q = p :: q' := by
      refine List.exists_cons_of_ne_nil ?_
      rcases hq with rfl | rfl
      · exact hqueue
      · simp
    refine ⟨[.turn, .turn, .turn], { s with
      queue := q', place := .sending p, connected := false, ready := [],
      passed := s.passed ++ [p], kicks := s.kicks + 1, closedBy := some (.kick s.kicks) }, ?_, rfl⟩
    simp [System.exec, step, run, takeNext, hplace, hready, hended, hopen]
  | busy hplace hready =>
    refine ⟨[.turn, .turn], { s with
      queue := q, connected := false, ready := [], kicks := s.kicks + 1,
      closedBy := some (.kick s.kicks) }, ?_, rfl⟩
    simp [System.exec, step, run, hready, hended, hopen]

/-- A kick does nothing to a client that is not `connected` any more. -/
theorem told_of_not_connected (h : s.Ok) (hc : s.connected = false) (moderator : Str) :
    s.Told moderator := by
  intro l s' hl hclosed
  have hspared : Spared s.kicks (s.kick moderator) := by
    have hfresh := (h.fresh s.kicks le_rfl).spared
    rw [kick_of_not_connected hc]
    exact ⟨hfresh.make, hfresh.close, hfresh.closedBy⟩
  have hspared' : Spared s.kicks s' :=
    Shut.induction Spared.shut (kick_kicks s moderator).2 hspared hl
  exact absurd hclosed hspared'.closedBy

/-! ## Both directions

From an idle loop the frame of the kick is sent before the connection is closed, or something else
ends the connection first. -/

/-- The callback that wakes up the loop is ready before the one that closes the connection. -/
theorem told_of_idle (h : s.Ok) (hc : s.connected = true) (hplace : s.place = .getting)
    (moderator : Str) : s.Told moderator := by
  intro l s' hl hclosed
  have hahead : Ahead ⟨.kicked moderator, some s.kicks⟩ s.kicks (s.kick moderator) := by
    cases h.live hc with
    | idle hplace hqueue hready =>
      rw [kick_of_idle hc hplace hqueue, hready]
      exact .next rfl rfl rfl (by simp [(h.open_ hc).2])
    | woken hplace' => exact absurd (hplace.symm.trans hplace') (by simp)
    | busy hplace' => exact absurd (hplace.symm.trans hplace') (by simp)
  cases Shut.induction Ahead.shut (kick_kicks s moderator).2 hahead hl with
  | next _ _ _ hopen => exact absurd hclosed hopen
  | passed hpassed => exact hpassed
  | ended _ hopen => exact absurd hclosed hopen

/-- **A kicked client is told so if the loop waits and the queue is empty, and only then.**  A
client that is not `connected` any more is not closed by the kick. -/
theorem told_iff (h : system.Reachable s) (moderator : Str) :
    s.Told moderator ↔ s.connected = false ∨ (s.place = .getting ∧ s.queue = []) := by
  have hok : s.Ok := ok_of_reachable h
  constructor
  · intro htold
    by_contra hcon
    obtain ⟨hc, hidle⟩ : s.connected = true ∧ ¬(s.place = .getting ∧ s.queue = []) := by
      simpa using hcon
    have hbusy : s.place ≠ .getting := by
      cases hok.live hc with
      | idle hplace hqueue => exact absurd ⟨hplace, hqueue⟩ hidle
      | woken hplace => simp [hplace]
      | busy hplace => simp [hplace]
    obtain ⟨l, s', hl, hclosed⟩ := exists_closed_of_busy hok hc hbusy moderator
    exact not_passed_of_busy hok hc hbusy moderator hl (htold l s' hl hclosed)
  · rintro (hc | ⟨hplace, -⟩)
    · exact told_of_not_connected hok hc moderator
    · cases hc : s.connected with
      | false => exact told_of_not_connected hok hc moderator
      | true => exact told_of_idle hok hc hplace moderator

/-- A client that has been sent two frames, the second of which had to wait for the first. -/
def served : Connection :=
  { start with passed := [⟨.roomList [], none⟩, ⟨.systemShutdown, none⟩] }

/-- It is told when it is kicked. -/
theorem told_served : system.Reachable served ∧ served.Told (lit "admin") := by
  have hrun : System.exec step start
      [.put (.roomList []), .turn, .put .systemShutdown, .sent, .sent] = some served := rfl
  have hreach : system.Reachable served := System.reachable_of_exec rfl hrun
  exact ⟨hreach, (told_iff hreach (lit "admin")).mpr (Or.inr ⟨rfl, rfl⟩)⟩

/-- A client that is being sent a frame. -/
def receiving : Connection :=
  { start with place := .sending ⟨.roomList [], none⟩, passed := [⟨.roomList [], none⟩] }

/-- Its sender loop stops after that frame, although it could be sent. -/
theorem not_told_receiving : system.Reachable receiving ∧ ¬receiving.Told (lit "admin") := by
  have hrun : System.exec step start [.put (.roomList []), .turn] = some receiving := rfl
  refine ⟨System.reachable_of_exec rfl hrun, fun htold ↦ ?_⟩
  have hpassed := htold [.sent, .turn, .turn] _ rfl rfl
  simp [kick, receiving, start, send, putNowait, wakeGetter, closeWs, loopHead, run,
    sendQueueSize] at hpassed

end Connection
end GroupChat
