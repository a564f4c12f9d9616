import GroupChat.Server.Seats

/-!
# What the browser shows of a room

`onServerMessage` of `public/app.js` keeps a list of messages for each room: `welcome` and
`room_switched` replace the list of their room by the history they bring, and `message` appends to
the list of its room.  The list depends on the order in which the frames arrive.

Frames are taken as values here, so what `JSON.parse` refuses is excluded: a frame with `NaN` or
`Infinity` in it, which only the id of a message can bring along, is dropped by a browser.

* `roomMessageCache room frames` is the list of a room after the frames.
* `Link.view` is the list when all frames of the queue of a link have arrived as well.
* `Link.Due`: the message with an id will be in the list exactly once when the frames that were
  scheduled directly have arrived as well.  There is a lemma for each way in which a frame gets on,
  `Link.Due.direct` and `Link.Due.done` with the condition that no frame overtakes another one that
  it must not overtake.
-/

set_option autoImplicit false

namespace GroupChat

/-! ## Frames and views

A browser keeps messages per room and shows those of the room it is in.  Only three kinds of
frames change the list of a room, and each of them either replaces it or appends one message. -/

/-- The id of a message, as ids are compared. -/
def Obj.key? (msg : Obj) : Option Key := (Obj.get msg "id").key?

/-- How often the list has a message with the id. -/
def timesIn (k : Key) (msgs : List Obj) : ℕ := msgs.countP fun msg ↦ decide (Obj.key? msg = some k)

/-- `onServerMessage`, for the list of one room in `roomMessageCache`. -/
def onServerMessage (room : Str) (msgs : List Obj) : Frame → List Obj
  | .welcome _ room' _ _ _ _ history => if room' = room then history else msgs
  | .roomSwitched room' _ history => if room' = room then history else msgs
  | .message msg => if (Obj.get msg "room").str? = some room then msgs ++ [msg] else msgs
  | _ => msgs

/-- The list of a room after some frames. -/
def roomMessageCache (room : Str) (frames : List Frame) : List Obj :=
  frames.foldl (onServerMessage room) []

/-- The history of the room in a frame. -/
def Frame.historyOf (room : Str) (f : Frame) : Option (List Obj) :=
  (f.roomHistory?.filter fun p ↦ decide (p.1 = room)).map Prod.snd

/-- The message to the room in a frame. -/
def Frame.postOf (room : Str) : Frame → Option Obj
  | .message msg => if (Obj.get msg "room").str? = some room then some msg else none
  | _ => none

/-- The messages in a frame. -/
def Frame.messages : Frame → List Obj
  | .message msg => [msg]
  | .welcome _ _ _ _ _ _ history => history
  | .roomSwitched _ _ history => history
  | _ => []

/-- The last history of the room in some frames. -/
def lastHistory (room : Str) (frames : List Frame) : Option (List Obj) :=
  (frames.filterMap (Frame.historyOf room)).getLast?

section Frames

variable {room : Str} {f : Frame}

/-! ## One frame

For a given room a frame brings a history, or a message, or nothing.  All that follows goes by
these three cases. -/

theorem onServerMessage_eq (room : Str) (msgs : List Obj) (f : Frame) :
    onServerMessage room msgs f = (f.historyOf room).getD (msgs ++ (f.postOf room).toList) := by
  cases f with
  | welcome username room' isAdmin users rooms onlineUsers history =>
    by_cases hroom : room' = room
    · simp [onServerMessage, Frame.historyOf, Frame.roomHistory?, Option.filter_some, hroom]
    · simp [onServerMessage, Frame.historyOf, Frame.roomHistory?, Frame.postOf, Option.filter_some,
        hroom]
  | roomSwitched room' users history =>
    by_cases hroom : room' = room
    · simp [onServerMessage, Frame.historyOf, Frame.roomHistory?, Option.filter_some, hroom]
    · simp [onServerMessage, Frame.historyOf, Frame.roomHistory?, Frame.postOf, Option.filter_some,
        hroom]
  | message msg =>
    rw [onServerMessage, Frame.postOf]
    split <;> simp [Frame.historyOf, Frame.roomHistory?]
  | _ => exact (List.append_nil msgs).symm

/-- A frame that does not fill a view does not change one. -/
theorem silent_of_shows (hf : f.shows = false) :
    f.historyOf room = none ∧ f.postOf room = none := by
  cases f with
  | message msg => simp [Frame.shows] at hf
  | welcome username room' isAdmin users rooms onlineUsers history => simp [Frame.shows] at hf
  | roomSwitched room' users history => simp [Frame.shows] at hf
  | _ => exact ⟨rfl, rfl⟩

theorem mem_messages_of_historyOf {h : List Obj} (hf : f.historyOf room = some h) :
    f.messages = h := by
  obtain ⟨p, hp, rfl⟩ := Option.map_eq_some_iff.mp hf
  have hhistory := (Option.filter_eq_some_iff.mp hp).1
  cases f with
  | welcome username room' isAdmin users rooms onlineUsers history =>
    rw [← Option.some.inj hhistory]
    rfl
  | roomSwitched room' users history =>
    rw [← Option.some.inj hhistory]
    rfl
  | _ => simp [Frame.roomHistory?] at hhistory

theorem mem_messages_of_postOf {msg : Obj} (hf : f.postOf room = some msg) : msg ∈ f.messages := by
  cases f with
  | message msg' =>
    rw [Frame.postOf] at hf
    split at hf
    · rw [← Option.some.inj hf]
      exact List.mem_singleton_self _
    · simp at hf
  | _ => simp [Frame.postOf] at hf

end Frames

section Lists

variable {room : Str} {fs gs : List Frame}

/-! ## Many frames

The list after some frames is made of the last history among them and of the messages behind it;
what has come before that history is forgotten. -/

theorem lastHistory_append (room : Str) (fs gs : List Frame) :
    lastHistory room (fs ++ gs) = (lastHistory room gs).or (lastHistory room fs) := by
  rw [lastHistory, List.filterMap_append, List.getLast?_append]
  rfl

theorem lastHistory_cons (room : Str) (f : Frame) (fs : List Frame) :
    lastHistory room (f :: fs) = (lastHistory room fs).or (f.historyOf room) := by
  have hsingle : lastHistory room [f] = f.historyOf room := by
    rw [lastHistory, List.filterMap_cons]
    cases f.historyOf room <;> rfl
  rw [← List.singleton_append, lastHistory_append, hsingle]

theorem lastHistory_filter (room : Str) (fs : List Frame) :
    lastHistory room (fs.filter Frame.shows) = lastHistory room fs := by
  induction fs with
  | nil => rfl
  | cons f fs ih =>
    rw [List.filter_cons, lastHistory_cons]
    split
    · rw [lastHistory_cons, ih]
    · rename_i hf
      rw [ih, (silent_of_shows (by simpa using hf)).1, Option.or_none]

theorem foldl_filter_shows (room : Str) (fs : List Frame) : ∀ msgs : List Obj,
    (fs.filter Frame.shows).foldl (onServerMessage room) msgs =
      fs.foldl (onServerMessage room) msgs := by
  induction fs with
  | nil => exact fun msgs ↦ rfl
  | cons f fs ih =>
    intro msgs
    rw [List.filter_cons, List.foldl_cons]
    split
    · exact ih _
    · rename_i hf
      obtain ⟨hhistory, hpost⟩ : f.historyOf room = none ∧ f.postOf room = none :=
        silent_of_shows (by simpa using hf)
      rw [ih, onServerMessage_eq, hhistory, hpost]
      simp

/-- A history hides what has been there before. -/
theorem foldl_of_lastHistory {h : List Obj} (hlast : lastHistory room fs = some h)
    (msgs msgs' : List Obj) :
    fs.foldl (onServerMessage room) msgs = fs.foldl (onServerMessage room) msgs' := by
  induction fs generalizing h msgs msgs' with
  | nil => simp [lastHistory] at hlast
  | cons f fs ih =>
    rw [List.foldl_cons, List.foldl_cons]
    rw [lastHistory_cons] at hlast
    cases hfs : lastHistory room fs with
    | some h' => exact ih hfs _ _
    | none =>
      rw [hfs, Option.none_or] at hlast
      rw [onServerMessage_eq, onServerMessage_eq, hlast]
      rfl

/-- Without a history, the messages are added to what there is. -/
theorem foldl_of_lastHistory_none (hlast : lastHistory room fs = none) (msgs : List Obj) :
    fs.foldl (onServerMessage room) msgs = msgs ++ fs.filterMap (Frame.postOf room) := by
  induction fs generalizing msgs with
  | nil => exact (List.append_nil msgs).symm
  | cons f fs ih =>
    rw [lastHistory_cons, Option.or_eq_none_iff] at hlast
    rw [List.foldl_cons, ih hlast.1, onServerMessage_eq, hlast.2, List.filterMap_cons]
    cases f.postOf room <;> simp

/-- What the last history brings is shown. -/
theorem timesIn_le_of_lastHistory {k : Key} {h : List Obj} (hlast : lastHistory room fs = some h)
    (msgs : List Obj) : timesIn k h ≤ timesIn k (fs.foldl (onServerMessage room) msgs) := by
  induction fs generalizing h msgs with
  | nil => simp [lastHistory] at hlast
  | cons f fs ih =>
    rw [List.foldl_cons]
    rw [lastHistory_cons] at hlast
    cases hfs : lastHistory room fs with
    | some h' =>
      rw [hfs] at hlast
      exact ih (hfs.trans hlast) _
    | none =>
      rw [hfs, Option.none_or] at hlast
      rw [foldl_of_lastHistory_none hfs, onServerMessage_eq, hlast]
      exact (List.sublist_append_left _ _).countP_le

/-- What is shown has come in some frame. -/
theorem mem_roomMessageCache {msg : Obj} (h : msg ∈ roomMessageCache room fs) :
    ∃ f ∈ fs, msg ∈ f.messages := by
  induction fs using List.reverseRecOn with
  | nil => exact absurd h List.not_mem_nil
  | append_singleton fs f ih =>
    rw [roomMessageCache, List.foldl_append, List.foldl_cons, List.foldl_nil,
      onServerMessage_eq] at h
    have hlast : f ∈ fs ++ [f] := List.mem_append_right _ (List.mem_singleton_self f)
    cases hf : f.historyOf room with
    | some history =>
      rw [hf] at h
      exact ⟨f, hlast, (mem_messages_of_historyOf hf).symm ▸ h⟩
    | none =>
      rw [hf] at h
      rcases List.mem_append.mp h with h | h
      · obtain ⟨g, hg, hmsg⟩ := ih h
        exact ⟨g, List.mem_append_left _ hg, hmsg⟩
      · exact ⟨f, hlast, mem_messages_of_postOf (Option.mem_toList.mp h)⟩

theorem timesIn_eq_zero {k : Key} {msgs : List Obj} (h : ∀ msg ∈ msgs, Obj.key? msg ≠ some k) :
    timesIn k msgs = 0 := by
  rw [timesIn, List.countP_eq_zero]
  simpa using h

theorem timesIn_append (k : Key) (msgs msgs' : List Obj) :
    timesIn k (msgs ++ msgs') = timesIn k msgs + timesIn k msgs' := List.countP_append

end Lists

/-! ## Links

The view of a link is what the browser will show when everything on the queue has arrived.  It is
the queue that is replayed and not what has been sent, so a frame may be put on the queue and
taken from it without a change of the view. -/

/-- The frames that come through the queue. -/
def Link.pending (l : Link) : List Frame := l.sender.inFlight ++ l.queue

/-- What the browser will show when the queue is empty. -/
def Link.view (room : Str) (l : Link) : List Obj := roomMessageCache room (l.sent ++ l.pending)

/-- How often the message was scheduled directly and has not been sent. -/
def Link.directCopies (room : Str) (k : Key) (l : Link) : ℕ :=
  timesIn k (l.direct.filterMap (Frame.postOf room))

/-- The last history on the way has the message. -/
def Link.Brings (room : Str) (k : Key) (l : Link) : Prop :=
  ∃ h, lastHistory room l.pending = some h ∧ 0 < timesIn k h

/-- The message will be shown once: it is in the view and will not be added, or it will be added. -/
inductive Link.Due (room : Str) (k : Key) (l : Link) : Prop
  | shown (hview : timesIn k (l.view room) = 1)
      (hdirect : l.directCopies room k = 0 ∨ l.Brings room k) : Link.Due room k l
  | direct (hview : timesIn k (l.view room) = 0) (hdirect : l.directCopies room k = 1) :
      Link.Due room k l

section Links

variable {room : Str} {k : Key} {l l' : Link} {f : Frame}

/-! ## Messages that are due

Frames that were scheduled directly may arrive at any moment, so the view alone does not say
whether a message will be shown.  It will be shown exactly once if it is in the view and on its
way nowhere else, or on its way once and not hidden by a history that is still to come. -/

theorem Link.brings_of_pending (h : lastHistory room l'.pending = lastHistory room l.pending) :
    l'.Brings room k ↔ l.Brings room k := by rw [Link.Brings, Link.Brings, h]

theorem Link.Due.congr (h : l.Due room k)
    (hview : timesIn k (l'.view room) = timesIn k (l.view room))
    (hpending : lastHistory room l'.pending = lastHistory room l.pending)
    (hdirect : l'.directCopies room k = l.directCopies room k) : l'.Due room k := by
  cases h with
  | shown hv hd =>
    exact .shown (hview.trans hv)
      (hd.imp hdirect.trans (Link.brings_of_pending hpending).mpr)
  | direct hv hd => exact .direct (hview.trans hv) (hdirect.trans hd)

/-- When nothing is on the way, the browser shows the message once. -/
theorem Link.Due.timesIn_sent (h : l.Due room k) (hpending : l.pending = [])
    (hdirect : l.direct = []) : timesIn k (roomMessageCache room l.sent) = 1 := by
  have hview : l.view room = roomMessageCache room l.sent := by
    rw [Link.view, hpending, List.append_nil]
  cases h with
  | shown hv hd => exact hview ▸ hv
  | direct hv hd => simp [Link.directCopies, hdirect, timesIn] at hd

/-! ### Frames that get on -/

theorem SameBoard.pending (h : SameBoard l l') :
    lastHistory room l'.pending = lastHistory room l.pending := by
  rw [← lastHistory_filter, ← lastHistory_filter room l.pending, Link.pending, Link.pending,
    List.filter_append, List.filter_append, h.inFlight, h.queue]

theorem SameBoard.view (h : SameBoard l l') : l'.view room = l.view room := by
  rw [Link.view, Link.view, roomMessageCache, roomMessageCache, ← foldl_filter_shows,
    ← foldl_filter_shows room (l.sent ++ l.pending), Link.pending, Link.pending]
  simp only [List.filter_append, h.sent, h.inFlight, h.queue]

theorem postOf_filter_shows (room : Str) (fs : List Frame) :
    (fs.filter Frame.shows).filterMap (Frame.postOf room) = fs.filterMap (Frame.postOf room) := by
  induction fs with
  | nil => rfl
  | cons f fs ih =>
    rw [List.filter_cons, List.filterMap_cons]
    split
    · rw [List.filterMap_cons, ih]
    · rename_i hf
      rw [ih, (silent_of_shows (by simpa using hf)).2]

theorem SameBoard.directCopies (h : SameBoard l l') :
    l'.directCopies room k = l.directCopies room k := by
  rw [Link.directCopies, Link.directCopies, ← postOf_filter_shows, h.direct, postOf_filter_shows]

theorem Link.Due.of_board (h : l.Due room k) (hl : SameBoard l l') : l'.Due room k :=
  h.congr (congrArg (timesIn k) hl.view) hl.pending hl.directCopies

/-- A frame is taken from the queue. -/
theorem Link.Due.take (h : l.Due room k) {q : List Frame} (hsender : l.sender = .waiting)
    (hqueue : l.queue = f :: q) :
    ({ l with queue := q, sender := .sending f } : Link).Due room k := by
  have hpending : ({ l with queue := q, sender := .sending f } : Link).pending = l.pending := by
    rw [Link.pending, Link.pending, hsender, hqueue]
    rfl
  refine h.congr ?_ (congrArg (lastHistory room) hpending) rfl
  rw [Link.view, Link.view, hpending]

/-- A frame from the queue is sent; if it is the last history, it must not come before a message
that it has. -/
theorem Link.Due.done (h : l.Due room k) {sender : Sender} (hsender : l.sender = .sending f)
    (hafter : sender.inFlight = [])
    (horder : ∀ history, f.historyOf room = some history → lastHistory room l.queue = none →
      0 < timesIn k history → l.directCopies room k = 0) :
    ({ l with sender := sender, sent := l.sent ++ [f] } : Link).Due room k := by
  have hpending : l.pending = f :: l.queue := by
    rw [Link.pending, hsender]
    rfl
  have hpending' :
      ({ l with sender := sender, sent := l.sent ++ [f] } : Link).pending = l.queue := by
    rw [Link.pending, hafter]
    rfl
  have hview : ({ l with sender := sender, sent := l.sent ++ [f] } : Link).view room =
      l.view room := by
    rw [Link.view, Link.view, hpending, hpending', List.append_assoc]
    rfl
  cases h with
  | shown hv hd =>
    refine .shown (hview ▸ hv) ?_
    rcases hd with hd | ⟨history, hlast, hk⟩
    · exact Or.inl hd
    · rw [hpending, lastHistory_cons] at hlast
      cases hqueue : lastHistory room l.queue with
      | some history' =>
        rw [hqueue] at hlast
        exact Or.inr ⟨history, by rw [hpending', hqueue]; exact hlast, hk⟩
      | none =>
        rw [hqueue] at hlast
        exact Or.inl (horder history hlast hqueue hk)
  | direct hv hd => exact .direct (hview ▸ hv) hd

/-! ## Frames that do not wait for their turn

A frame that was scheduled directly is sent at any time.  The message that it brings is then
appended to whatever there is, and a history that is still in the queue will hide it. -/

theorem timesIn_eraseIdx {fs : List Frame} {i : ℕ} (hf : fs[i]? = some f) :
    timesIn k (fs.filterMap (Frame.postOf room)) =
      timesIn k (f.postOf room).toList +
        timesIn k ((fs.eraseIdx i).filterMap (Frame.postOf room)) := by
  obtain ⟨hi, rfl⟩ := List.getElem?_eq_some_iff.mp hf
  have hperm := (List.getElem_cons_eraseIdx_perm hi).filterMap (Frame.postOf room)
  rw [timesIn, timesIn, ← hperm.countP_eq, List.filterMap_cons]
  cases fs[i].postOf room with
  | none => simp [timesIn]
  | some msg =>
    show List.countP _ ([msg] ++ _) = _
    rw [List.countP_append]
    rfl

/-- A frame that was scheduled directly is sent; it must not come before a history that lacks its
message. -/
theorem Link.Due.sendDirect (h : l.Due room k) {i : ℕ} (hf : l.direct[i]? = some f)
    (hnews : ∀ g ∈ l.direct, g.roomHistory? = none)
    (horder : ∀ history, lastHistory room l.pending = some history →
      0 < timesIn k (f.postOf room).toList → 0 < timesIn k history) :
    ({ l with direct := l.direct.eraseIdx i, sent := l.sent ++ [f] } : Link).Due room k := by
  set l' : Link := { l with direct := l.direct.eraseIdx i, sent := l.sent ++ [f] } with hl'
  have hcopies : l.directCopies room k =
      timesIn k (f.postOf room).toList + l'.directCopies room k := timesIn_eraseIdx hf
  have hhistory : f.historyOf room = none := by
    rw [Frame.historyOf, hnews f (List.mem_of_getElem? hf)]
    rfl
  have hsplit : ∀ l : Link, l.view room =
      l.pending.foldl (onServerMessage room) (roomMessageCache room l.sent) := by
    intro l
    rw [Link.view, roomMessageCache, List.foldl_append]
    rfl
  have hsent : roomMessageCache room l'.sent =
      roomMessageCache room l.sent ++ (f.postOf room).toList := by
    show roomMessageCache room (l.sent ++ [f]) = _
    rw [roomMessageCache, List.foldl_append, List.foldl_cons, List.foldl_nil, onServerMessage_eq,
      hhistory]
    rfl
  cases hlast : lastHistory room l.pending with
  | some history =>
    -- the history will replace what the frame adds
    have hview : l'.view room = l.view room := by
      rw [hsplit, hsplit l]
      exact foldl_of_lastHistory hlast _ _
    cases h with
    | shown hv hd =>
      refine .shown (hview ▸ hv) (hd.imp_left fun hd ↦ ?_)
      omega
    | direct hv hd =>
      rcases Nat.eq_zero_or_pos (timesIn k (f.postOf room).toList) with hpost | hpost
      · exact .direct (hview ▸ hv) (by omega)
      · -- the message would be in the history, and so in the view
        have hk := horder history hlast hpost
        have hle : timesIn k history ≤ timesIn k (l.view room) := by
          rw [hsplit]
          exact timesIn_le_of_lastHistory hlast _
        omega
  | none =>
    have hview : timesIn k (l'.view room) =
        timesIn k (l.view room) + timesIn k (f.postOf room).toList := by
      have hlast' : lastHistory room l'.pending = none := hlast
      rw [hsplit, hsplit l, foldl_of_lastHistory_none hlast', foldl_of_lastHistory_none hlast,
        hsent]
      simp only [timesIn_append]
      have hpending : l'.pending = l.pending := rfl
      rw [hpending]
      omega
    have hbrings : ¬ l.Brings room k := fun ⟨history, hh, _⟩ ↦ by simp [hlast] at hh
    cases h with
    | shown hv hd =>
      rcases hd with hd | hd
      · exact .shown (by omega) (Or.inl (by omega))
      · exact absurd hd hbrings
    | direct hv hd =>
      rcases Nat.eq_zero_or_pos (timesIn k (f.postOf room).toList) with hpost | hpost
      · exact .direct (by omega) (by omega)
      · exact .shown (by omega) (Or.inl (by omega))

/-! ### Frames that are emitted -/

theorem Link.pending_putNowait (l : Link) (f : Frame) (hroom : l.queue.length < sendQueueSize) :
    (l.putNowait f).pending = l.pending ++ [f] := by
  show l.sender.inFlight ++ (if _ then l.queue ++ [f] else l.queue) = _
  rw [if_pos hroom, ← List.append_assoc]
  rfl

theorem Link.view_putNowait (l : Link) (f : Frame) (hroom : l.queue.length < sendQueueSize) :
    (l.putNowait f).view room = onServerMessage room (l.view room) f := by
  have hsent : (l.putNowait f).sent = l.sent := rfl
  rw [Link.view, Link.pending_putNowait l f hroom, hsent, ← List.append_assoc, roomMessageCache,
    List.foldl_append]
  rfl

theorem Link.lastHistory_putNowait (l : Link) (f : Frame) (hroom : l.queue.length < sendQueueSize) :
    lastHistory room (l.putNowait f).pending =
      (f.historyOf room).or (lastHistory room l.pending) := by
  rw [Link.pending_putNowait l f hroom, lastHistory_append, lastHistory_cons]
  rfl

theorem Link.directCopies_accept_false (l : Link) (f : Frame) :
    (l.accept false f).directCopies room k =
      l.directCopies room k + timesIn k (f.postOf room).toList := by
  show timesIn k ((l.direct ++ [f]).filterMap (Frame.postOf room)) = _
  rw [List.filterMap_append, timesIn_append, List.filterMap_cons]
  cases f.postOf room <;> rfl

/-- A frame without a history of the room, and without the message. -/
theorem Link.Due.accept (h : l.Due room k) (hasQueue : Bool) (hf : f.historyOf room = none)
    (hpost : timesIn k (f.postOf room).toList = 0) : (l.accept hasQueue f).Due room k := by
  cases hasQueue with
  | true =>
    show (l.putNowait f).Due room k
    by_cases hroom : l.queue.length < sendQueueSize
    · refine h.congr ?_ ?_ rfl
      · rw [Link.view_putNowait l f hroom, onServerMessage_eq, hf, Option.getD_none, timesIn_append,
          hpost, Nat.add_zero]
      · rw [Link.lastHistory_putNowait l f hroom, hf, Option.none_or]
    · -- the queue is full and the frame is dropped
      have hpending : (l.putNowait f).pending = l.pending := by
        show l.sender.inFlight ++ (if _ then l.queue ++ [f] else l.queue) = _
        rw [if_neg hroom]
        rfl
      refine h.congr ?_ (congrArg (lastHistory room) hpending) rfl
      rw [Link.view, Link.view, hpending]
      rfl
  | false =>
    refine h.congr rfl rfl ?_
    rw [Link.directCopies_accept_false, hpost, Nat.add_zero]

/-- Nothing on the link has the id. -/
def Link.Lacks (k : Key) (l : Link) : Prop :=
  ∀ f ∈ l.frames, ∀ msg ∈ f.messages, Obj.key? msg ≠ some k

theorem Link.Lacks.view (h : l.Lacks k) : timesIn k (l.view room) = 0 := by
  refine timesIn_eq_zero fun msg hmsg ↦ ?_
  obtain ⟨f, hf, hin⟩ := mem_roomMessageCache hmsg
  refine h f ?_ msg hin
  rw [Link.frames, List.append_assoc l.sent]
  exact List.mem_append_left _ hf

theorem Link.Lacks.directCopies (h : l.Lacks k) : l.directCopies room k = 0 := by
  refine timesIn_eq_zero fun msg hmsg ↦ ?_
  obtain ⟨f, hf, hpost⟩ := List.mem_filterMap.mp hmsg
  exact h f (List.mem_append_right _ hf) msg (mem_messages_of_postOf hpost)

/-- A frame that does not fill a view has no message. -/
theorem messages_of_shows (hf : f.shows = false) : f.messages = [] := by
  cases f with
  | message msg => simp [Frame.shows] at hf
  | welcome username room' isAdmin users rooms onlineUsers history => simp [Frame.shows] at hf
  | roomSwitched room' users history => simp [Frame.shows] at hf
  | _ => rfl

theorem Link.Lacks.of_board (h : l.Lacks k) (hl : SameBoard l l') : l'.Lacks k := by
  have hframes : l'.frames.filter Frame.shows = l.frames.filter Frame.shows := by
    rw [Link.frames, Link.frames]
    simp only [List.filter_append, hl.sent, hl.inFlight, hl.queue, hl.direct]
  intro f hf msg hmsg
  cases hshows : f.shows with
  | false => simp [messages_of_shows hshows] at hmsg
  | true =>
    have hmem : f ∈ l.frames.filter Frame.shows :=
      hframes ▸ List.mem_filter.mpr ⟨hf, hshows⟩
    exact h f (List.mem_filter.mp hmem).1 msg hmsg

/-- A new message is emitted. -/
theorem Link.Lacks.due_accept (h : l.Lacks k) {hasQueue : Bool}
    (hroom : hasQueue = true → l.queue.length < sendQueueSize) (hf : f.historyOf room = none)
    (hpost : timesIn k (f.postOf room).toList = 1) : (l.accept hasQueue f).Due room k := by
  cases hasQueue with
  | true =>
    refine .shown ?_ (Or.inl h.directCopies)
    show timesIn k ((l.putNowait f).view room) = 1
    rw [Link.view_putNowait l f (hroom rfl), onServerMessage_eq, hf, Option.getD_none,
      timesIn_append, h.view, hpost]
  | false =>
    refine .direct h.view ?_
    rw [Link.directCopies_accept_false, h.directCopies, hpost]

/-- A history is emitted that has the message, or lacks it while it is to come. -/
theorem Link.due_putNowait_history {history : List Obj} (hroom : l.queue.length < sendQueueSize)
    (hf : f.historyOf room = some history)
    (hk : timesIn k history = 1 ∨ timesIn k history = 0 ∧ l.directCopies room k = 1) :
    (l.putNowait f).Due room k := by
  have hview : (l.putNowait f).view room = history := by
    rw [Link.view_putNowait l f hroom, onServerMessage_eq, hf, Option.getD_some]
  rcases hk with hk | ⟨hk, hdirect⟩
  · refine .shown (hview ▸ hk) (Or.inr ⟨history, ?_, by omega⟩)
    rw [Link.lastHistory_putNowait l f hroom, hf]
    rfl
  · exact .direct (hview ▸ hk) hdirect

end Links

end GroupChat
