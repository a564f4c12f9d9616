import GroupChat.Lib.Latch
import GroupChat.Server.Node

/-!
# How the page stays connected

`public/app.js` opens a WebSocket when the user joins, and whenever one is closed it opens another
one after a while, unless the user has been thrown out.  Nothing in the code says that there is only
one socket: the variable `ws` holds the last one, and the event listeners of all others live on.

* `Page` has the sockets and the timers that have been set; `Page.step` is one event of the browser.
* `chains_eq`: each join starts one chain of a socket, a timer, a socket and so on.  So whoever
  joins once has one socket or one timer, and not both, until the chain has ended.
* `opens_iff`: which events open a socket.  After a `kicked` only a join of the user does.
* `sent_first`: the frames of a socket go to whatever `ws` is.  With a single join this is the right
  socket, and the first frame that goes over each socket is a join.
-/

set_option autoImplicit false

namespace GroupChat

open Transition

/-! ## The model

The listeners of a socket are closures over the socket, but what they read and write are variables
of the page.  An event is a call of a listener, of a timer or of a handler of the user interface,
and everything that such a call does is done before the next one. -/

/-- The `readyState` of a WebSocket, as far as the page looks at it. -/
inductive ReadyState
  | connecting
  | opened
  | closed
  deriving DecidableEq, Repr

/-- A WebSocket, with what the page has sent over it. -/
structure Socket where
  readyState : ReadyState
  sent : List Obj

/-- The socket is open, or about to be. -/
def Socket.isLive (s : Socket) : Bool := s.readyState ≠ .closed

/-- The state of the page that its connections depend on. -/
structure Page where
  /-- All sockets that have been made, in their order. -/
  sockets : List Socket
  /-- Which of them the variable `ws` holds. -/
  ws : Option ℕ
  myUsername : Option Str
  currentRoom : Option Str
  reconnectAttempts : ℕ
  intentionalClose : Bool
  /-- The delays of the timers that have been set by `scheduleReconnect` and have not fired. -/
  timers : List ℕ

namespace Page

/-- The page has been loaded. -/
def loaded : Page where
  sockets := []
  ws := none
  myUsername := none
  currentRoom := none
  reconnectAttempts := 0
  intentionalClose := false
  timers := []

/-- `send`. -/
def send (p : Page) (obj : Obj) : Page :=
  match p.ws.bind fun i ↦ p.sockets[i]?.map fun s ↦ (i, s) with
  | some (i, s) =>
    if s.readyState = .opened then
      { p with sockets := p.sockets.set i { s with sent := s.sent ++ [obj] } }
    else p
  | none => p

/-- `openSocket`.  The constructor throws if the address is not valid. -/
def openSocket (p : Page) (valid : Bool) : Page :=
  if valid then
    { p with sockets := p.sockets ++ [⟨.connecting, []⟩], ws := some p.sockets.length }
  else p

/-- `scheduleReconnect`. -/
def scheduleReconnect (p : Page) : Page :=
  { p with
    reconnectAttempts := p.reconnectAttempts + 1,
    timers := p.timers ++ [min 16000 (1000 * 2 ^ p.reconnectAttempts)] }

/-- The room of a join: what stands in the field of the form, or else the room the user is in.
`JSON.stringify` leaves out what is `undefined`. -/
def joinRoom (p : Page) (roomInput : Str) : Option Str :=
  if roomInput = [] then p.currentRoom.filter fun room ↦ decide (room ≠ []) else some roomInput

/-- The frame that is sent over a socket that has opened. -/
def joinFrame (username room : Option Str) : Obj :=
  [("type", .str (lit "join")), ("username", (username.map Value.str).getD .none)] ++
    (room.map fun room ↦ ("room", Value.str room)).toList

/-- `onServerMessage`, for the variables of the connection. -/
def onServerMessage (p : Page) : Frame → Page
  | .welcome username room _ _ _ _ _ =>
    { p with myUsername := some username, currentRoom := some room }
  | .roomSwitched room _ _ => { p with currentRoom := some room }
  | .kicked _ => { p with intentionalClose := true }
  | _ => p

/-- The types of the frames that are sent when the user does something. -/
def requestTypes : List Str :=
  [lit "message", lit "private_message", lit "switch_room", lit "create_room", lit "typing",
    lit "kick", lit "mute"]

end Page

/-! ## Events

The browser calls the listeners of the sockets, the callbacks of the timers and the handlers of
the user interface.  A socket that is not open yet, or not any more, does not call the listener
for messages. -/

/-- What happens in the browser. -/
inductive Page.Event
  /-- The user submits the join form, with the trimmed name. -/
  | submit (username : Str) (valid : Bool)
  /-- The user does something else. -/
  | request (obj : Obj)
  /-- A socket has opened, while there is this in the trimmed field for the room. -/
  | opened (i : ℕ) (roomInput : Str)
  | message (i : ℕ) (f : Frame)
  | closed (i : ℕ)
  /-- A timer has run out. -/
  | fired (j : ℕ) (valid : Bool)

namespace Page

/-- The event listeners. -/
def step (p : Page) : Event → Option Page
  | .submit username valid =>
    if username = [] then some p
    else
      some ({ p with
        myUsername := some username, intentionalClose := false, reconnectAttempts := 0 }.openSocket
          valid)
  | .request obj =>
    if ((obj.get "type").str?.map fun t ↦ decide (t ∈ requestTypes)) = some true then
      some (p.send obj)
    else none
  | .opened i roomInput =>
    match p.sockets[i]? with
    | some s =>
      if s.readyState = .connecting then
        some ({ p with
          sockets := p.sockets.set i { s with readyState := .opened },
          reconnectAttempts := 0 }.send (joinFrame p.myUsername (p.joinRoom roomInput)))
      else none
    | none => none
  | .message i f =>
    match p.sockets[i]? with
    | some s => if s.readyState = .opened then some (p.onServerMessage f) else none
    | none => none
  | .closed i =>
    match p.sockets[i]? with
    | some s =>
      if s.readyState = .closed then none
      else
        let p := { p with sockets := p.sockets.set i { s with readyState := .closed } }
        some (if p.intentionalClose then p else p.scheduleReconnect)
    | none => none
  | .fired j valid =>
    if j < p.timers.length then
      let p := { p with timers := p.timers.eraseIdx j }
      some (if p.intentionalClose then p else p.openSocket valid)
    else none

/-- The runs of a page. -/
def system : System Page Event := .ofFun (· = loaded) step

/-! ## What a step does

The listeners have many branches and few outcomes.  `Outcome` has one constructor for each of
these, and the invariants below go by its cases. -/

variable {p p' : Page} {a : Event}

/-- What an event can do to the page. -/
inductive Outcome (p : Page) : Event → Page → Prop
  | unnamed {valid : Bool} : Outcome p (.submit [] valid) p
  | joined {username : Str} {valid : Bool} (hname : username ≠ []) :
      Outcome p (.submit username valid) ({ p with
        myUsername := some username, intentionalClose := false, reconnectAttempts := 0 }.openSocket
          valid)
  | sent {obj : Obj} (htype : obj.get "type" ≠ .str (lit "join")) :
      Outcome p (.request obj) (p.send obj)
  | opened {i : ℕ} {roomInput : Str} {s : Socket} (hs : p.sockets[i]? = some s)
      (hconnecting : s.readyState = .connecting) :
      Outcome p (.opened i roomInput) ({ p with
        sockets := p.sockets.set i { s with readyState := .opened },
        reconnectAttempts := 0 }.send (joinFrame p.myUsername (p.joinRoom roomInput)))
  | told {i : ℕ} {f : Frame} (hsockets : p.sockets ≠ []) :
      Outcome p (.message i f) (p.onServerMessage f)
  | lost {i : ℕ} {s : Socket} (hs : p.sockets[i]? = some s) (hlive : s.isLive = true)
      (hkicked : p.intentionalClose = false) :
      Outcome p (.closed i) { p with
        sockets := p.sockets.set i { s with readyState := .closed } }.scheduleReconnect
  | ended {i : ℕ} {s : Socket} (hs : p.sockets[i]? = some s) (hlive : s.isLive = true)
      (hkicked : p.intentionalClose = true) :
      Outcome p (.closed i) { p with
        sockets := p.sockets.set i { s with readyState := .closed } }
  | retried {j : ℕ} {valid : Bool} (hj : j < p.timers.length)
      (hkicked : p.intentionalClose = false) :
      Outcome p (.fired j valid) ({ p with timers := p.timers.eraseIdx j }.openSocket valid)
  | cancelled {j : ℕ} {valid : Bool} (hj : j < p.timers.length)
      (hkicked : p.intentionalClose = true) :
      Outcome p (.fired j valid) { p with timers := p.timers.eraseIdx j }

theorem step_outcome (h : p.step a = some p') : Outcome p a p' := by
  cases a with
  | submit username valid =>
    rw [step] at h
    split at h <;> rename_i hname <;> obtain rfl := Option.some.inj h
    · exact hname ▸ .unnamed
    · exact .joined hname
  | request obj =>
    rw [step] at h
    split at h
    · rename_i htype
      obtain rfl := Option.some.inj h
      refine .sent fun hjoin ↦ ?_
      rw [hjoin] at htype
      exact absurd htype (by decide)
    · simp at h
  | opened i roomInput =>
    rw [step] at h
    split at h
    · rename_i s hs
      split at h
      · rename_i hconnecting
        exact Option.some.inj h ▸ .opened hs hconnecting
      · simp at h
    · simp at h
  | message i f =>
    rw [step] at h
    split at h
    · rename_i s hs
      split at h
      · refine Option.some.inj h ▸ .told fun hnil ↦ ?_
        rw [hnil] at hs
        simp at hs
      · simp at h
    · simp at h
  | closed i =>
    rw [step] at h
    split at h
    · rename_i s hs
      split at h
      · simp at h
      · rename_i hclosed
        have hlive : s.isLive = true := by simp [Socket.isLive, hclosed]
        obtain rfl := Option.some.inj h
        split <;> rename_i hkicked
        · exact .ended hs hlive hkicked
        · exact .lost hs hlive (Bool.eq_false_of_not_eq_true hkicked)
    · simp at h
  | fired j valid =>
    rw [step] at h
    split at h
    · rename_i hj
      obtain rfl := Option.some.inj h
      split <;> rename_i hkicked
      · exact .cancelled hj hkicked
      · exact .retried hj (Bool.eq_false_of_not_eq_true hkicked)
    · simp at h

theorem send_cases (p : Page) (obj : Obj) : p.send obj = p ∨ ∃ i s, p.ws = some i ∧
    p.sockets[i]? = some s ∧ s.readyState = .opened ∧
      p.send obj = { p with sockets := p.sockets.set i { s with sent := s.sent ++ [obj] } } := by
  rw [send]
  split
  · rename_i i s hs
    obtain ⟨i', hws, hs⟩ := Option.bind_eq_some_iff.mp hs
    obtain ⟨s', hs', heq⟩ := Option.map_eq_some_iff.mp hs
    obtain ⟨rfl, rfl⟩ := Prod.mk.inj heq
    split
    · rename_i hopened
      exact Or.inr ⟨i', s', hws, hs', hopened, rfl⟩
    · exact Or.inl rfl
  · exact Or.inl rfl

theorem send_opened {i : ℕ} {s : Socket} (hws : p.ws = some i) (hs : p.sockets[i]? = some s)
    (hopened : s.readyState = .opened) (obj : Obj) :
    p.send obj = { p with sockets := p.sockets.set i { s with sent := s.sent ++ [obj] } } := by
  rw [send, hws, Option.bind_some, hs]
  exact if_pos hopened

/-! ## Chains

A chain is a socket that is not closed, or the timer that will replace it.  Whatever closes a
socket sets a timer in the same call, so the number of chains only changes where one starts or
ends, and these are the events that the equation counts. -/

/-- The sockets that are not closed, and the timers that will open one. -/
def chains (p : Page) : ℕ := p.sockets.countP Socket.isLive + p.timers.length

/-- Does the event start a chain? -/
def Event.starts : Event → ℕ
  | .submit username valid => if username ≠ [] ∧ valid = true then 1 else 0
  | _ => 0

/-- Does the event end a chain?  A chain ends when its socket is closed or its timer runs out after
the user has been thrown out, or when the address has become invalid. -/
def Event.ends (p : Page) : Event → ℕ
  | .closed _ => if p.intentionalClose = true then 1 else 0
  | .fired _ valid => if p.intentionalClose = true ∨ valid = false then 1 else 0
  | _ => 0

theorem live_set {l : List Socket} {i : ℕ} {s : Socket} (hs : l[i]? = some s) (s' : Socket) :
    (l.set i s').countP Socket.isLive + s.isLive.toNat =
      l.countP Socket.isLive + s'.isLive.toNat := by
  have hcount := countP_set (p := Socket.isLive) hs s'
  omega

theorem chains_send (p : Page) (obj : Obj) : (p.send obj).chains = p.chains := by
  rcases p.send_cases obj with h | ⟨i, s, -, hs, -, h⟩ <;> rw [h]
  have hset := live_set hs { s with sent := s.sent ++ [obj] }
  rw [show Socket.isLive { s with sent := s.sent ++ [obj] } = s.isLive from rfl] at hset
  exact congrArg (· + p.timers.length) (Nat.add_right_cancel hset)

theorem chains_openSocket (p : Page) (valid : Bool) :
    (p.openSocket valid).chains = p.chains + valid.toNat := by
  cases valid with
  | false => rfl
  | true =>
    show (p.sockets ++ [_]).countP Socket.isLive + p.timers.length = _
    rw [List.countP_append, chains]
    exact Nat.add_right_comm _ _ _

/-- **A step starts a chain, ends one, or goes on with one.** -/
theorem chains_step (h : p.step a = some p') : p'.chains + a.ends p = p.chains + a.starts := by
  have hclosed : ∀ {i : ℕ} {s : Socket}, p.sockets[i]? = some s → s.isLive = true →
      (p.sockets.set i { s with readyState := .closed }).countP Socket.isLive + 1 =
        p.sockets.countP Socket.isLive := by
    intro i s hs hlive
    have hset := live_set hs { s with readyState := .closed }
    rw [hlive] at hset
    exact hset
  have herased : ∀ {j : ℕ}, j < p.timers.length →
      (p.timers.eraseIdx j).length + 1 = p.timers.length := by
    intro j hj
    rw [List.length_eraseIdx_of_lt hj]
    omega
  cases step_outcome h with
  | unnamed => simp [Event.ends, Event.starts]
  | @joined username valid hname =>
    rw [chains_openSocket]
    cases valid <;> simp [Event.ends, Event.starts, hname, chains]
  | sent => exact chains_send p _
  | @opened i roomInput s hs hconnecting =>
    have hset := live_set hs { s with readyState := .opened }
    rw [show s.isLive = true by simp [Socket.isLive, hconnecting]] at hset
    rw [chains_send]
    exact congrArg (· + p.timers.length) (Nat.add_right_cancel hset)
  | @told i f hsockets => cases f <;> rfl
  | lost hs hlive hkicked =>
    have hlost := hclosed hs hlive
    simp only [chains, scheduleReconnect, Event.ends, Event.starts, hkicked, List.length_append,
      List.length_singleton, Bool.false_eq_true, if_false]
    omega
  | ended hs hlive hkicked =>
    have hended := hclosed hs hlive
    simp only [chains, Event.ends, Event.starts, hkicked, if_true]
    omega
  | @retried j valid hj hkicked =>
    have hfired := herased hj
    rw [chains_openSocket]
    cases valid <;> simp [Event.ends, Event.starts, hkicked, chains] <;> omega
  | cancelled hj hkicked =>
    have hfired := herased hj
    simp only [chains, Event.ends, Event.starts, hkicked, true_or, if_true]
    omega

/-- **Chains are neither lost nor doubled.**  In every run the sockets that are not closed and the
timers that are set are as many as the joins whose chain has not ended. -/
theorem chains_eq {l : List Event} (h : system.Trace loaded l p) :
    p.sockets.countP Socket.isLive + p.timers.length +
      System.tally step (fun p a ↦ a.ends p) loaded l = (l.map Event.starts).sum := by
  have hbalance := h.balance (m := chains) (d := fun p a ↦ a.ends p) (g := fun _ a ↦ a.starts)
    fun _ _ _ ↦ chains_step
  rw [h.tally_eq_sum] at hbalance
  rw [show chains loaded = 0 from rfl, Nat.zero_add] at hbalance
  exact hbalance

/-! ## Which events open a socket

There are two places where a socket is constructed, in the handler of the form and in the callback
of the timer.  The second one depends on a flag, and the flag is traced back to what the server
has said since the last join. -/

/-- The user is told that it has been thrown out. -/
def Event.Kicks (a : Event) : Prop := ∃ i moderator, a = .message i (.kicked moderator)

/-- The user joins. -/
def Event.Joins (a : Event) : Prop := ∃ username valid, username ≠ [] ∧ a = .submit username valid

theorem intentionalClose_send (p : Page) (obj : Obj) :
    (p.send obj).intentionalClose = p.intentionalClose := by
  rcases p.send_cases obj with h | ⟨i, s, -, -, -, h⟩ <;> rw [h]

theorem intentionalClose_openSocket (p : Page) (valid : Bool) :
    (p.openSocket valid).intentionalClose = p.intentionalClose := by
  cases valid <;> rfl

/-- The flag is set when the page hears of it, and reset by a join. -/
theorem intentionalClose_step (h : p.step a = some p') :
    p'.intentionalClose = true ↔ a.Kicks ∨ ¬a.Joins ∧ p.intentionalClose = true := by
  cases step_outcome h with
  | unnamed => simp [Event.Kicks, Event.Joins]
  | @joined username valid hname =>
    rw [intentionalClose_openSocket]
    simp [Event.Kicks, Event.Joins, hname]
  | sent => simp [intentionalClose_send, Event.Kicks, Event.Joins]
  | opened => simp [intentionalClose_send, Event.Kicks, Event.Joins]
  | @told i f =>
    cases f with
    | kicked moderator => exact iff_of_true rfl (Or.inl ⟨i, moderator, rfl⟩)
    | _ => simp [onServerMessage, Event.Kicks, Event.Joins]
  | lost => simp [scheduleReconnect, Event.Kicks, Event.Joins]
  | ended => simp [Event.Kicks, Event.Joins]
  | retried => simp [intentionalClose_openSocket, Event.Kicks, Event.Joins]
  | cancelled => simp [Event.Kicks, Event.Joins]

/-- The page knows that the user has been thrown out if it was told so since the last join. -/
theorem intentionalClose_iff {l : List Event} (h : system.Trace loaded l p) :
    p.intentionalClose = true ↔
      System.Latched step (fun _ a ↦ a.Kicks) (fun _ a ↦ a.Joins) loaded l := by
  refine h.flag_iff (B := fun _ ↦ True) (F := fun p ↦ p.intentionalClose = true) rfl
    (fun _ ↦ by simp [loaded]) ?_ ?_ ?_ trivial
  · exact fun p a p' _ hstep _ hkicks ↦ (intentionalClose_step hstep).mpr (Or.inl hkicks)
  · intro p a p' _ hstep _ hjoins hflag
    rcases (intentionalClose_step hstep).mp hflag with ⟨i, m, rfl⟩ | ⟨hnot, -⟩
    · obtain ⟨u, v, -, h⟩ := hjoins
      cases h
    · exact hnot hjoins
  · intro p a p' _ hstep _ hkicks hjoins
    refine ⟨trivial, ?_⟩
    rw [intentionalClose_step hstep]
    simp [hkicks, hjoins]

theorem length_send (p : Page) (obj : Obj) : (p.send obj).sockets.length = p.sockets.length := by
  rcases p.send_cases obj with h | ⟨i, s, -, -, -, h⟩ <;> rw [h]
  exact List.length_set

theorem length_openSocket (p : Page) (valid : Bool) :
    (p.openSocket valid).sockets.length = p.sockets.length + valid.toNat := by
  cases valid with
  | false => rfl
  | true => exact List.length_append

/-- **When a socket is opened**: when the user joins, or when a timer runs out and the user has not
been thrown out since it joined last.  So somebody who has been told to have been thrown out stays
out. -/
theorem opens_iff {l : List Event} (h : system.Trace loaded l p) (hstep : p.step a = some p') :
    p'.sockets.length = p.sockets.length + 1 ↔
      (∃ username, username ≠ [] ∧ a = .submit username true) ∨
        ∃ j, a = .fired j true ∧
          ¬System.Latched step (fun _ a ↦ a.Kicks) (fun _ a ↦ a.Joins) loaded l := by
  rw [← intentionalClose_iff h]
  cases step_outcome hstep with
  | unnamed => simp
  | @joined username valid hname =>
    rw [length_openSocket]
    cases valid <;> simp [hname]
  | sent => simp [length_send]
  | opened => simp [length_send]
  | @told i f => cases f <;> simp [onServerMessage]
  | lost => simp [scheduleReconnect]
  | ended => simp
  | @retried j valid hj hkicked =>
    rw [length_openSocket]
    cases valid <;> simp [hkicked]
  | cancelled hj hkicked => simp [hkicked]

/-- A user that has joined is thrown out, and a timer that is left over finds this out. -/
def kickedRun : List Event :=
  [.submit (lit "bob") true, .closed 0, .submit (lit "bob") true, .opened 1 [],
    .message 1 (.kicked (lit "admin")), .closed 1]

theorem opens_kickedRun : ∃ p p', system.Trace loaded kickedRun p ∧ p.timers = [1000] ∧
    p.step (.fired 0 true) = some p' ∧ ¬p'.sockets.length = p.sockets.length + 1 := by
  have hexec : (System.exec step loaded kickedRun).map (fun p ↦ (p.intentionalClose, p.timers)) =
      some (true, [1000]) := by
    decide +kernel
  obtain ⟨p, hp, hpair⟩ := Option.map_eq_some_iff.mp hexec
  obtain ⟨hkicked, htimers⟩ := Prod.mk.inj hpair
  have htrace : system.Trace loaded kickedRun p := System.trace_of_exec hp
  have hstep : p.step (.fired 0 true) = some { p with timers := p.timers.eraseIdx 0 } := by
    rw [step, htimers, if_pos (by simp)]
    exact congrArg some (if_pos hkicked)
  refine ⟨p, _, htrace, htimers, hstep, fun hopens ↦ ?_⟩
  rcases (opens_iff htrace hstep).mp hopens with ⟨u, -, h⟩ | ⟨j, -, hnot⟩
  · cases h
  · exact hnot ((intentionalClose_iff htrace).mp hkicked)

theorem chains_kickedRun : ∃ p, system.Trace loaded kickedRun p ∧
    p.sockets.countP Socket.isLive + p.timers.length +
      System.tally step (fun p a ↦ a.ends p) loaded kickedRun = 2 := by
  have hexec : (System.exec step loaded kickedRun).isSome = true := by decide +kernel
  obtain ⟨p, hp⟩ := Option.isSome_iff_exists.mp hexec
  have htrace : system.Trace loaded kickedRun p := System.trace_of_exec hp
  exact ⟨p, htrace, chains_eq htrace⟩

/-! ## Where the frames go

`send` uses the variable `ws` and not the socket of the listener it was called from.  This makes a
difference as soon as there are two chains; with one chain, `Single` says that the variable holds
its socket. -/

/-- A socket over which nothing has been sent, or a join and then other frames. -/
def JoinsFirst (s : Socket) : Prop :=
  s.sent = [] ∧ s.readyState ≠ .opened ∨ s.readyState ≠ .connecting ∧
    ∃ username room rest, s.sent = joinFrame username room :: rest ∧
      ∀ obj ∈ rest, Obj.get obj "type" ≠ .str (lit "join")

/-- The page has one chain at most, and its socket is the one that the page sends to. -/
structure Single (p : Page) : Prop where
  current : ∀ i s, p.sockets[i]? = some s → s.isLive = true → p.ws = some i
  joins : ∀ s ∈ p.sockets, JoinsFirst s

theorem Single.congr (h : Single p) (hsockets : p'.sockets = p.sockets) (hws : p'.ws = p.ws) :
    Single p' where
  current := by rw [hsockets, hws]; exact h.current
  joins := by rw [hsockets]; exact h.joins

/-- A socket changes, but does not come to life. -/
theorem Single.set (h : Single p) {i : ℕ} {s t : Socket} (hs : p.sockets[i]? = some s)
    (hlive : t.isLive = true → s.isLive = true) (hjoins : JoinsFirst t)
    (hsockets : p'.sockets = p.sockets.set i t) (hws : p'.ws = p.ws) : Single p' where
  current j u hu hulive := by
    rw [hsockets, List.getElem?_set] at hu
    rw [hws]
    split at hu
    · rename_i hij
      split at hu
      · rw [← hij]
        exact h.current i s hs (hlive (Option.some.inj hu ▸ hulive))
      · simp at hu
    · exact h.current j u hu hulive
  joins u hu := by
    rw [hsockets] at hu
    rcases List.mem_or_eq_of_mem_set hu with hu | rfl
    · exact h.joins u hu
    · exact hjoins

/-! ## One chain at a time

As long as the user has joined once there is one chain.  `send` then writes to its socket, whether
or not it was called by a listener of an older one. -/

theorem Single.send (h : Single p) {obj : Obj} (htype : obj.get "type" ≠ .str (lit "join")) :
    Single (p.send obj) := by
  rcases p.send_cases obj with hsend | ⟨i, s, -, hs, hopened, hsend⟩ <;> rw [hsend]
  · exact h
  · refine h.set (t := { s with sent := s.sent ++ [obj] }) hs id (Or.inr ⟨?_, ?_⟩) rfl rfl
    · rw [hopened]
      simp
    · rcases h.joins s (List.mem_of_getElem? hs) with
        ⟨-, hnot⟩ | ⟨-, username, room, rest, hsent, hrest⟩
      · exact absurd hopened hnot
      · refine ⟨username, room, rest ++ [obj], by simp [hsent], fun obj' hobj' ↦ ?_⟩
        rcases List.mem_append.mp hobj' with hobj' | hobj'
        · exact hrest obj' hobj'
        · rw [List.mem_singleton.mp hobj']
          exact htype

/-- The new socket is the only one that is not closed. -/
theorem Single.openSocket (h : Single p) (hlive : p.sockets.countP Socket.isLive = 0) :
    Single (p.openSocket true) where
  current j t ht htlive := by
    rw [Page.openSocket, if_pos rfl, List.getElem?_append] at ht
    split at ht
    · exact absurd htlive (List.countP_eq_zero.mp hlive t (List.mem_of_getElem? ht))
    · rename_i hj
      have hzero : j - p.sockets.length = 0 := by
        by_contra hne
        rw [List.getElem?_eq_none (by simp; omega)] at ht
        simp at ht
      rw [Page.openSocket, if_pos rfl, show j = p.sockets.length by omega]
  joins t ht := by
    rw [Page.openSocket, if_pos rfl] at ht
    rcases List.mem_append.mp ht with ht | ht
    · exact h.joins t ht
    · rw [List.mem_singleton.mp ht]
      exact Or.inl ⟨rfl, by simp⟩

theorem Single.close (h : Single p) {i : ℕ} {s : Socket} (hs : p.sockets[i]? = some s)
    (hlive : s.isLive = true)
    (hsockets : p'.sockets = p.sockets.set i { s with readyState := .closed })
    (hws : p'.ws = p.ws) : Single p' := by
  refine h.set hs (fun _ ↦ hlive) ?_ hsockets hws
  rcases h.joins s (List.mem_of_getElem? hs) with ⟨hsent, -⟩ | ⟨-, hsent⟩
  · exact Or.inl ⟨hsent, by simp⟩
  · exact Or.inr ⟨by simp, hsent⟩

theorem single_step (hp : Single p) (h : p.step a = some p') (hone : p.chains + a.starts ≤ 1) :
    Single p' := by
  have hopen : ∀ {q : Page} {valid : Bool}, q.sockets = p.sockets → q.ws = p.ws →
      (valid = true → p.sockets.countP Socket.isLive = 0) → Single (q.openSocket valid) := by
    intro q valid hsockets hws hlive
    have hq : Single q := hp.congr hsockets hws
    cases valid with
    | false => exact hq
    | true => exact hq.openSocket (by rw [hsockets]; exact hlive rfl)
  cases step_outcome h with
  | unnamed => exact hp
  | @joined username valid hname =>
    refine hopen rfl rfl fun hvalid ↦ ?_
    rw [Event.starts, if_pos ⟨hname, hvalid⟩, chains] at hone
    omega
  | sent htype => exact hp.send htype
  | @opened i roomInput s hs hconnecting =>
    have hlive : s.isLive = true := by simp [Socket.isLive, hconnecting]
    obtain ⟨hlt, -⟩ := List.getElem?_eq_some_iff.mp hs
    rw [send_opened (p := { p with
        sockets := p.sockets.set i { s with readyState := .opened }, reconnectAttempts := 0 })
      (s := { s with readyState := .opened }) (hp.current i s hs hlive) (by simp [hlt]) rfl]
    refine hp.set (t := ⟨.opened, s.sent ++ [joinFrame p.myUsername (p.joinRoom roomInput)]⟩) hs
      (fun _ ↦ hlive) (Or.inr ⟨by simp, ?_⟩) (List.set_set _) rfl
    rcases hp.joins s (List.mem_of_getElem? hs) with ⟨hsent, -⟩ | ⟨hnot, -⟩
    · exact ⟨_, _, [], by rw [hsent]; rfl, by simp⟩
    · exact absurd hconnecting hnot
  | @told i f => exact hp.congr (by cases f <;> rfl) (by cases f <;> rfl)
  | lost hs hlive hkicked => exact hp.close hs hlive rfl rfl
  | ended hs hlive hkicked => exact hp.close hs hlive rfl rfl
  | @retried j valid hj hkicked =>
    refine hopen rfl rfl fun _ ↦ ?_
    rw [chains] at hone
    omega
  | cancelled => exact hp.congr rfl rfl

/-- **Every socket joins first.**  If the user joins once, then nothing goes over a socket before
its join, and every socket that opens joins, once. -/
theorem sent_first {l : List Event} (h : system.Trace loaded l p)
    (hone : (l.map Event.starts).sum ≤ 1) : ∀ s ∈ p.sockets, JoinsFirst s := by
  have hsingle : (l.map Event.starts).sum ≤ 1 → Single p := by
    refine h.induction (I := fun l p ↦ (l.map Event.starts).sum ≤ 1 → Single p)
      (fun _ ↦ ⟨by simp [loaded], by simp [loaded]⟩) ?_
    intro l p a p' hl ih hstep hone
    rw [List.map_append, List.sum_append, List.map_singleton, List.sum_singleton] at hone
    have hchains : p.chains ≤ (l.map Event.starts).sum := by
      have hbalance := hl.balance (m := chains) (d := fun p a ↦ a.ends p)
        (g := fun _ a ↦ a.starts) fun _ _ _ ↦ chains_step
      rw [hl.tally_eq_sum, show chains loaded = 0 from rfl] at hbalance
      omega
    exact single_step (ih (by omega)) hstep (by omega)
  exact (hsingle hone).joins

/-- The connection of a user is lost and comes back. -/
def lostRun : List Event :=
  [.submit (lit "bob") true, .opened 0 (lit "random"), .closed 0, .fired 0 true, .opened 1 []]

theorem sent_lostRun : ∃ p, system.Trace loaded lostRun p ∧ p.sockets.length = 2 ∧
    ∀ s ∈ p.sockets, JoinsFirst s := by
  have hexec : (System.exec step loaded lostRun).map (fun p ↦ p.sockets.length) = some 2 := by
    decide +kernel
  obtain ⟨p, hp, htwo⟩ := Option.map_eq_some_iff.mp hexec
  have htrace : system.Trace loaded lostRun p := System.trace_of_exec hp
  exact ⟨p, htrace, htwo, sent_first htrace (by decide)⟩

/-- With two joins a socket can open over which no join is ever sent. -/
example : (System.exec step loaded [.submit (lit "bob") true, .submit (lit "bob") true,
    .opened 0 [], .opened 1 []]).map (fun p ↦ p.sockets.map fun s ↦ s.sent.length) =
      some [0, 1] := by
  decide +kernel

end Page

end GroupChat
