import GroupChat.Browser

/-!
# Joining a room without a gap

A client becomes a member of a room before it has the history of it.  What is said in the room in
the meantime reaches it as `message` frames, and is in the feed cache from which the history is
taken, and the browser replaces what it shows by the history when that arrives.  So a message is
shown exactly once only if the history has it when its frame has come before, and lacks it when its
frame is still to come.

* `Watch` is a record of what has been accepted in the room of a client, and of what has come into
  the feed cache, since the client was added to the room.  `watched` is the node with this record.
* `Gapless`: when all frames have arrived, the browser shows every accepted message exactly once.
* `Timely` is the condition on a step.  No message is put into the queue between the query of the
  executor and the end of the join, no frame overtakes another one that it must not overtake, no id
  is used twice, no queue is full, and fewer messages than the history holds have arrived when the
  query is made.
* `gapless_of_timely`: a run of such steps leaves no gap, and `not_gapless_joinRun` is a run that
  loses a message.

The invariant `Accounted` says where each accepted message is: in the feed cache as long as the
history has not been fetched, in the history or on the way directly when the handler has it, and
due on the link (`Link.Due`) afterwards.  `Passes` of `Server.Seats` gives the cases of its proof,
and there is one lemma for each of them.
-/

set_option autoImplicit false

namespace GroupChat

open Transition

/-- What has happened since a client was added to its room. -/
structure Watch where
  /-- The messages that were accepted in the room. -/
  accepted : List Obj
  /-- The entries that came into the feed cache. -/
  arrived : List Entry

/-- Nothing has happened. -/
def Watch.empty : Watch := ⟨[], []⟩

/-- The ids of the accepted messages. -/
def Watch.keys (w : Watch) : List Key := w.accepted.filterMap Obj.key?

namespace Node

/-- The message of a submission to the room. -/
def Submission.toldIn (room : Str) (s : Submission) : Option Obj :=
  if s.room.str? = some room then some s.told else none

/-- The messages to the room among the items of a gossip request, up to the first that raises. -/
def itemsAccepted (env : Env) (room : Str) (now : ℤ) : Node → List Value → List Obj
  | _, [] => []
  | n, item :: items =>
    match n.receiveItem env item now with
    | (n', none) =>
      ((itemSubmission env now item).bind (Submission.toldIn room)).toList ++
        itemsAccepted env room now n' items
    | (_, some _) => []

/-- The messages that an event brings to the room. -/
def Event.accepted (env : Env) (room : Str) (n : Node) : Event → List Obj
  | .gossip (some v) now => itemsAccepted env room now n (gossipItems v)
  | a => ((a.completed env n).bind (Submission.toldIn room)).toList

/-- The record goes on as long as the client stays where it is, and starts anew when it has
moved. -/
def note (env : Env) (id : Str) (n : Node) (a : Event) (n' : Node) (w : Watch) : Watch :=
  if n'.seat id = n.seat id then
    { accepted := w.accepted ++ ((n.seat id).map fun q ↦ a.accepted env q.1 n).getD []
      arrived := w.arrived ++ n.store.cache.added env.lib (a.puts env n) }
  else .empty

/-- A node with the record for one client. -/
def watched (env : Env) (id : Str) : System (Node × Watch) Event :=
  .ofFun (fun p ↦ p.1 = initial env ∧ p.2 = .empty) (System.record (step env) (note env id))

/-- When everything has arrived, the browser shows every message that was accepted in its room since
it is there, and each once. -/
def Gapless (id : Str) (p : Node × Watch) : Prop :=
  ∀ room joined, p.1.seat id = some (room, joined) → p.1.alive id = true → p.1.waitingAt id = none →
    (p.1.links id).pending = [] → (p.1.links id).direct = [] →
      ∀ msg ∈ p.2.accepted, ∃ k, Obj.key? msg = some k ∧
        timesIn k (roomMessageCache room (p.1.links id).sent) = 1

/-! ## The condition

Each part of the condition answers to one of the ways in which a message gets lost or is shown
twice: it comes between the query and the end of the join; a frame given to a coroutine overtakes
another one; an id is used twice; the queue is full; the history is too short to reach back to the
join. -/

/-- The history that the handler has got and not yet told. -/
def hand (n : Node) (id : Str) : Option (List Obj) :=
  match (n.waitingAt id).bind Waiting.result? with
  | some (.ok history) => some history
  | _ => none

/-- The history of the room that is still to come. -/
def toCome (n : Node) (id room : Str) : Option (List Obj) :=
  match n.waitingAt id with
  | some _ => n.hand id
  | none => lastHistory room (n.links id).pending

/-- The id is new to the feed cache and to the client. -/
structure Unused (n : Node) (id : Str) (k : Key) : Prop where
  ids : k ∉ n.store.cache.globalMsgIds
  entries : k ∉ n.store.cache.globalMsgCache.map Entry.key
  link : (n.links id).Lacks k
  hand : ∀ history ∈ n.hand id, timesIn k history = 0

/-- A message to the room of the client has a new id and finds room in the queue, and it is not
emitted into the queue while the handler has the history. -/
structure Clear (id room : Str) (n : Node) (s : Submission) : Prop where
  name : room.length ≤ 24
  truthy : (Obj.get s.told "id").truthy = true
  unused : ∃ k ∈ Obj.key? s.told, n.Unused id k
  queue : (n.links id).queue.length + 1 < sendQueueSize
  hand : (n.hand id).isSome = true → ∀ m ∈ n.member? room id, m.hasQueue = false

/-- So have the items of a gossip request. -/
def ItemsClear (env : Env) (id room : Str) (now : ℤ) : Node → List Value → Prop
  | _, [] => True
  | n, item :: items =>
    (∀ s ∈ itemSubmission env now item, s.room.str? = some room → Clear id room n s) ∧
      match n.receiveItem env item now with
      | (n', none) => ItemsClear env id room now n' items
      | (_, some _) => True

/-- A frame from the queue may be sent: it is not the history that comes before a message it has. -/
def MaySend (id room : Str) (n : Node) (f : Frame) : Prop :=
  n.waitingAt id = none → lastHistory room (n.links id).queue = none →
    ∀ history ∈ f.historyOf room, ∀ msg ∈ (n.links id).direct.filterMap (Frame.postOf room),
      ∀ k ∈ Obj.key? msg, timesIn k history = 0

/-- A frame that was scheduled directly may be sent: the history that is still to come has its
message. -/
def MaySendDirect (id room : Str) (n : Node) (f : Frame) : Prop :=
  ∀ history ∈ n.toCome id room, ∀ msg ∈ f.postOf room, ∀ k ∈ Obj.key? msg, 0 < timesIn k history

/-- The condition on a step for a client in the room. -/
def InTime (env : Env) (id room : Str) (p : Node × Watch) : Event → Prop
  | .frame id' data now uuid => ∀ s ∈ (Event.frame id' data now uuid).completed env p.1,
      s.room.str? = some room → Clear id room p.1 s
  | .post body query now uuid => ∀ s ∈ (Event.post body query now uuid).completed env p.1,
      s.room.str? = some room → Clear id room p.1 s
  | .gossip (some v) now => ItemsClear env id room now p.1 (gossipItems v)
  | .fetchHistory id' _ _ => id' = id → p.2.arrived.length ≤ msgCacheSize ∧
      ((p.2.arrived.filter (FeedCache.visibleIn room)).length : ℤ) < env.config.historyLimit
  | .resume id' => id' = id → (p.1.links id).queue.length < sendQueueSize
  | .background (.senderDone id' _) =>
      id' = id → ∀ f ∈ (p.1.links id).sender.inFlight, MaySend id room p.1 f
  | .background (.directDone id' i) =>
      id' = id → ∀ f ∈ (p.1.links id).direct[i]?, MaySendDirect id room p.1 f
  | _ => True

/-- The condition on a step. -/
def Timely (env : Env) (id : Str) (p : Node × Watch) (a : Event) : Prop :=
  p.1.store.cache.EchoFree env.lib (a.puts env p.1) ∧
    ∀ q ∈ p.1.seat id, InTime env id q.1 p a

instance decidableUnused (n : Node) (id : Str) (k : Key) : Decidable (Unused n id k) :=
  have : Decidable ((n.links id).Lacks k) :=
    inferInstanceAs (Decidable (∀ f ∈ (n.links id).frames, ∀ msg ∈ f.messages, _))
  decidable_of_iff (_ ∧ _ ∧ _ ∧ _)
    ⟨fun h ↦ ⟨h.1, h.2.1, h.2.2.1, h.2.2.2⟩, fun h ↦ ⟨h.ids, h.entries, h.link, h.hand⟩⟩

instance decidableClear (id room : Str) (n : Node) (s : Submission) :
    Decidable (Clear id room n s) :=
  decidable_of_iff (_ ∧ _ ∧ _ ∧ _ ∧ _)
    ⟨fun h ↦ ⟨h.1, h.2.1, h.2.2.1, h.2.2.2.1, h.2.2.2.2⟩,
      fun h ↦ ⟨h.name, h.truthy, h.unused, h.queue, h.hand⟩⟩

instance decidableItemsClear (env : Env) (id room : Str) (now : ℤ) :
    ∀ (n : Node) (items : List Value), Decidable (ItemsClear env id room now n items)
  | _, [] => .isTrue trivial
  | n, item :: items =>
    have : Decidable (match n.receiveItem env item now with
        | (n', none) => ItemsClear env id room now n' items
        | (_, some _) => True) :=
      match n.receiveItem env item now with
      | (n', none) => decidableItemsClear env id room now n' items
      | (_, some _) => .isTrue trivial
    inferInstanceAs (Decidable (_ ∧ _))

instance decidableMaySend (id room : Str) (n : Node) (f : Frame) :
    Decidable (MaySend id room n f) :=
  inferInstanceAs (Decidable (_ → _ → _))

instance decidableMaySendDirect (id room : Str) (n : Node) (f : Frame) :
    Decidable (MaySendDirect id room n f) :=
  inferInstanceAs (Decidable (∀ history ∈ n.toCome id room, _))

instance decidableInTime (env : Env) (id room : Str) (p : Node × Watch) (a : Event) :
    Decidable (InTime env id room p a) := by
  unfold InTime
  split <;> infer_instance

instance decidableTimely (env : Env) (id : Str) (p : Node × Watch) (a : Event) :
    Decidable (Timely env id p a) := inferInstanceAs (Decidable (_ ∧ ∀ q ∈ p.1.seat id, _))

/-! ## The invariant

Where an accepted message has to be depends on what the handler of the client waits for, so the
definition goes by the stage of the join: not yet fetched, fetched but not told, told. -/

/-- Where the message with the id is. -/
def DueAt (id room : Str) (k : Key) (n : Node) : Prop :=
  match n.waitingAt id with
  | none => (n.links id).Due room k
  | some w => ∀ history, w.result? = some (.ok history) →
      timesIn k history = 1 ∨ timesIn k history = 0 ∧ (n.links id).directCopies room k = 1

/-- Every accepted message is in its place. -/
structure Accounted (id room : Str) (n : Node) (w : Watch) : Prop where
  keyed : ∀ msg ∈ w.accepted, (Obj.key? msg).isSome = true
  due : n.alive id = true → ∀ k ∈ w.keys, n.DueAt id room k
  retained : FeedCache.Retains room n.store.cache w.keys w.arrived

variable {env : Env} {n n' n'' : Node} {id room : Str} {k : Key} {w : Watch}

/-- The handler waits for nothing, so the message is due on the link. -/
theorem dueAt_of_none (hw : n.waitingAt id = none) :
    n.DueAt id room k ↔ (n.links id).Due room k := by rw [DueAt, hw]

/-- The handler waits.  If it has got its history, then the message is in there, or it is on its
way directly. -/
theorem dueAt_of_some {wait : Waiting} (hw : n.waitingAt id = some wait) :
    n.DueAt id room k ↔ ∀ history, wait.result? = some (.ok history) →
      timesIn k history = 1 ∨ timesIn k history = 0 ∧ (n.links id).directCopies room k = 1 := by
  rw [DueAt, hw]

/-- The history that the handler has got is the one in its hand. -/
theorem hand_of_result {wait : Waiting} {history : List Obj} (hw : n.waitingAt id = some wait)
    (hresult : wait.result? = some (.ok history)) : n.hand id = some history := by
  rw [hand, hw, Option.bind_some, hresult]

/-- The link has changed, but the message is where it was. -/
theorem DueAt.congr (h : n.DueAt id room k) (hwaiting : n'.waitingAt id = n.waitingAt id)
    (hdue : n.waitingAt id = none → (n.links id).Due room k → (n'.links id).Due room k)
    (hdirect : n.waitingAt id ≠ none →
      (n'.links id).directCopies room k = (n.links id).directCopies room k) :
    n'.DueAt id room k := by
  rw [DueAt, hwaiting]
  rw [DueAt] at h
  split
  · rename_i hw
    rw [hw] at h
    exact hdue hw h
  · rename_i wait hw
    rw [hw] at h
    rw [hdirect (by simp [hw])]
    exact h

/-- What the client does not notice leaves its messages where they are. -/
theorem DueAt.of_aside (h : n.DueAt id room k) (hn : Aside id n n') : n'.DueAt id room k :=
  h.congr hn.waitingAt (fun _ hdue ↦ hdue.of_board hn.board) fun _ ↦ hn.board.directCopies

/-! ## Submissions

A message is filed under an id and a room, and told with an id and a room.  The browser goes by
the latter and the feed cache by the former; they are the same for a message that is handled to
the end. -/

/-- What is told of a message has the room and the id under which it is filed. -/
structure Submission.Faithful (s : Submission) : Prop where
  room : Obj.get s.told "room" = s.room
  id : Obj.get s.cached "id" = Obj.get s.told "id"

/-- A frame is told as it is filed. -/
theorem faithful_frame {c : Client} {data : Obj} {now : ℤ} {uuid : Str} {s : Submission}
    (h : frameSubmission env c data now uuid = some s) : s.Faithful := by
  rw [frameSubmission] at h
  split at h
  · rw [← Option.some.inj h]
    exact ⟨rfl, rfl⟩
  · simp at h

/-- A request is told as it is filed. -/
theorem faithful_post {body : Body} {query : Obj} {now : ℤ} {uuid : Str} {s : Submission}
    (h : postSubmission env body query now uuid = some s) : s.Faithful := by
  obtain ⟨data, -, -, rfl⟩ := text_of_postSubmission h
  exact ⟨rfl, rfl⟩

/-- An item of gossip is told as it is filed. -/
theorem faithful_item {item : Value} {now : ℤ} {s : Submission}
    (h : itemSubmission env now item = some s) : s.Faithful := by
  obtain ⟨⟨room, msg⟩, hmsg, rfl⟩ := Option.map_eq_some_iff.mp h
  obtain ⟨d, m, hcanonical⟩ : ∃ d m, gossipMessage.canonical env now d m = (room, msg) := by
    cases item with
    | dict d =>
      rw [gossipMessage] at hmsg
      split at hmsg
      · split at hmsg
        · simp at hmsg
        · exact ⟨d, _, Option.some.inj hmsg⟩
      · exact ⟨d, _, Option.some.inj hmsg⟩
      · simp at hmsg
    | _ => simp [gossipMessage] at hmsg
  obtain ⟨rfl, rfl⟩ := Prod.mk.inj hcanonical
  exact ⟨rfl, rfl⟩

/-- What an event handles to the end is one call of `_cache_put`, and no more. -/
theorem puts_of_completed {a : Event} {s : Submission} (hs : a.completed env n = some s) :
    s.Faithful ∧ ∃ now, a.puts env n = [s.put now] ∧ filed env now s = true := by
  cases a with
  | frame id' data now uuid =>
    obtain ⟨fields, c, rfl, -, -, hsub, hcompleted⟩ := frameSubmission_of_completed hs
    refine ⟨faithful_frame hsub, now, (puts_of_completed_frame hs).1, ?_⟩
    rw [completedFrame] at hcompleted
    split at hcompleted
    · exact (Option.filter_eq_some_iff.mp hcompleted).2
    · simp at hcompleted
  | post body query now uuid =>
    refine ⟨faithful_post (postSubmission_of_completed hs), now, (puts_of_completed_post hs).1, ?_⟩
    exact (Bool.and_eq_true_iff.mp (Option.filter_eq_some_iff.mp hs).2).1
  | _ => simp [Event.completed] at hs

/-- The entry of a message with an id. -/
theorem entry_of_filed {s : Submission} {now : ℤ} (hfiled : filed env now s = true)
    (hs : s.Faithful) (hroom : s.room.str? = some room) (hname : room.length ≤ 24)
    (htruthy : (Obj.get s.told "id").truthy = true) (hk : Obj.key? s.told = some k) :
    ∃ e, PutCall.entry? env.lib (s.put now) = some e ∧ e.key = k ∧
      FeedCache.visibleIn room e = true := by
  rw [filed] at hfiled
  cases hmsg : compactMsg env.lib now s.room s.cached with
  | error e =>
    rw [hmsg] at hfiled
    simp [Except.toOption] at hfiled
  | ok o =>
    cases o with
    | none =>
      have hfalse : (Obj.get s.cached "id").truthy = false := by
        rw [compactMsg] at hmsg
        split at hmsg
        · assumption
        · split at hmsg
          · simp at hmsg
          · split at hmsg <;> simp at hmsg
      rw [hs.id] at hfalse
      exact absurd (htruthy.symm.trans hfalse) (by simp)
    | some e =>
      obtain ⟨-, hid, -, -, heroom⟩ := eq_of_compactMsg hmsg
      refine ⟨e, PutCall.entry?_eq_some_iff.mpr hmsg, ?_, ?_⟩
      · have hkey := e.id_key
        rw [hid, hs.id] at hkey
        exact Option.some.inj (hkey.symm.trans hk)
      · rw [FeedCache.visibleIn, decide_eq_true_eq]
        cases hr : room with
        | nil => exact Or.inl rfl
        | cons x r =>
          refine Or.inr (Or.inr ?_)
          rw [heroom, compactRoom, Value.str?_eq_some_iff.mp hroom, hr]
          rw [hr] at hname
          exact List.take_of_length_le hname

/-! ## Messages

A message to the room of the client is filed and told in one step.  If the history is still to be
fetched, it will be in there; otherwise its frame is put behind the history. -/

/-- The client is in the room, and in no other. -/
structure Placed (id room : Str) (n : Node) : Prop where
  member : ∃ m, n.member? room id = some m
  others : ∀ room', room' ≠ room → n.member? room' id = none

/-- A client is in the room of its seat only. -/
theorem Housed.placed (h : Housed n) {joined : Bool} (hseat : n.seat id = some (room, joined)) :
    Placed id room n := by
  obtain ⟨c, hc, rfl, -⟩ := get?_of_seat hseat
  exact ⟨h.member id _ (placeOf_of_get? hc), fun _ hne ↦ h.member?_eq_none (placeOf_of_get? hc) hne⟩

theorem Placed.of_aside (h : Placed id room n) (hn : Aside id n n') : Placed id room n' :=
  ⟨by rw [hn.member]; exact h.member, fun room' hne ↦ (hn.member room').trans (h.others room' hne)⟩

/-- A message to another room, or to none. -/
theorem Placed.told_other (h : Placed id room n) {v : Value} (hv : v.str? ≠ some room) (f : Frame) :
    Aside id n (n.told v f) := by
  cases v with
  | str r =>
    refine .deliver n _ (Or.inr ?_)
    have hne : r ≠ room := fun heq ↦ hv (congrArg some heq)
    rw [wayToRoom, show (n.rooms.get? r).bind _ = none from h.others r hne]
  | _ => exact .refl id n

/-- A message to the room of the client. -/
theorem Placed.links_told (h : Placed id room n) (hsettled : Settled id n) {joined : Bool}
    (hseat : n.seat id = some (room, joined)) (halive : n.alive id = true) {v : Value}
    (hv : v.str? = some room) (f : Frame) : ∃ m, n.member? room id = some m ∧
      (n.told v f).links id = (n.links id).accept m.hasQueue f := by
  obtain ⟨m, hm⟩ := h.member
  obtain ⟨c, hc, hroom, -⟩ := get?_of_seat hseat
  have hconnected : m.connected = true :=
    (hsettled c hc).2 ((alive_of_get? hc).symm.trans halive) m (hroom ▸ hm)
  refine ⟨m, hm, ?_⟩
  rw [Value.str?_eq_some_iff.mp hv]
  refine links_deliver_of_some n f ?_
  rw [wayToRoom, show (n.rooms.get? room).bind _ = some m from hm]
  simp [hconnected]

/-- A message with another id is told. -/
theorem DueAt.accept (h : n.DueAt id room k) {hasQueue : Bool} {f : Frame}
    (hwaiting : n'.waitingAt id = n.waitingAt id)
    (hlink : n'.links id = (n.links id).accept hasQueue f) (hf : f.historyOf room = none)
    (hpost : timesIn k (f.postOf room).toList = 0) : n'.DueAt id room k := by
  refine h.congr hwaiting (fun _ hdue ↦ hlink ▸ hdue.accept hasQueue hf hpost) fun _ ↦ ?_
  rw [hlink]
  cases hasQueue with
  | true => rfl
  | false => rw [Link.directCopies_accept_false, hpost, Nat.add_zero]

/-- A message that is new to the client is told. -/
theorem dueAt_accept {hasQueue : Bool} {f : Frame} (hlacks : (n.links id).Lacks k)
    (hhand : ∀ history ∈ n.hand id, timesIn k history = 0)
    (hnohand : (n.hand id).isSome = true → hasQueue = false)
    (hspace : (n.links id).queue.length < sendQueueSize)
    (hwaiting : n'.waitingAt id = n.waitingAt id)
    (hlink : n'.links id = (n.links id).accept hasQueue f) (hf : f.historyOf room = none)
    (hpost : timesIn k (f.postOf room).toList = 1) : n'.DueAt id room k := by
  cases hw : n.waitingAt id with
  | none =>
    rw [dueAt_of_none (hwaiting.trans hw), hlink]
    exact hlacks.due_accept (fun _ ↦ hspace) hf hpost
  | some wait =>
    refine (dueAt_of_some (hwaiting.trans hw)).mpr fun history hresult ↦ Or.inr ?_
    have hhistory : n.hand id = some history := hand_of_result hw hresult
    obtain rfl : hasQueue = false := hnohand (by rw [hhistory]; rfl)
    rw [hlink, Link.directCopies_accept_false, hlacks.directCopies, hpost]
    exact ⟨hhand history hhistory, rfl⟩

theorem Aside.hand (h : Aside id n n') : n'.hand id = n.hand id := by
  rw [Node.hand, Node.hand, h.waitingAt]

/-- What does not concern the client, with the calls that the step makes. -/
theorem Accounted.aside (h : Accounted id room n w) (hn : Aside id n n') {puts : List PutCall}
    (hecho : n.store.cache.EchoFree env.lib puts)
    (hcache : n'.store.cache = puts.foldl (·.call env.lib) n.store.cache) :
    Accounted id room n' ⟨w.accepted, w.arrived ++ n.store.cache.added env.lib puts⟩ where
  keyed := h.keyed
  due halive k hk := (h.due (hn.alive halive) k hk).of_aside hn
  retained := hcache ▸ h.retained.calls hecho

/-! ## A message is told

The message is filed, and its frame is put behind everything else on the link.  All others stay
where they are, as they have other ids. -/

/-- A message is told. -/
theorem Accounted.tell (h : Accounted id room n w) (hplaced : Placed id room n)
    (hsettled : Settled id n)
    {joined : Bool} (hseat : n.seat id = some (room, joined)) {s : Submission}
    (hs : s.Faithful) (hclear : s.room.str? = some room → Clear id room n s) {n₁ : Node}
    (h₁ : Aside id n n₁) (hqueue : (n₁.links id).queue.length ≤ (n.links id).queue.length + 1)
    (hn : Aside id (n₁.told s.room (.message s.told)) n') {now : ℤ}
    (hfiled : filed env now s = true) (hecho : n.store.cache.EchoFree env.lib [s.put now])
    (hcache : n'.store.cache = [s.put now].foldl (·.call env.lib) n.store.cache) :
    Accounted id room n' ⟨w.accepted ++ (s.toldIn room).toList,
      w.arrived ++ n.store.cache.added env.lib [s.put now]⟩ := by
  have hseat₁ : n₁.seat id = some (room, joined) := h₁.seat.trans hseat
  rw [Submission.toldIn]
  split
  · rename_i hroom
    obtain ⟨hname, htruthy, ⟨k, hk, hunused⟩, hspace, hnohand⟩ := hclear hroom
    obtain ⟨e, he, rfl, hvisible⟩ := entry_of_filed hfiled hs hroom hname htruthy hk
    have hkeys : (⟨w.accepted ++ (some s.told).toList, w.arrived ++
        n.store.cache.added env.lib [s.put now]⟩ : Watch).keys = w.keys ++ [e.key] := by
      rw [Watch.keys, List.filterMap_append]
      simp [Watch.keys, show Obj.key? s.told = some e.key from hk]
    refine ⟨?_, ?_, ?_⟩
    · intro msg hmsg
      rcases List.mem_append.mp hmsg with hmsg | hmsg
      · exact h.keyed msg hmsg
      · rw [Option.mem_toList.mp hmsg |> Option.some.inj |>.symm,
          show Obj.key? s.told = some e.key from hk]
        rfl
    · intro halive' key hkey
      rw [hkeys] at hkey
      set n₂ : Node := n₁.told s.room (.message s.told) with hn₂
      have hclients : n₂.clientsById = n₁.clientsById := (told_records n₁ _ _).1
      have hwaiting : n₂.waitingAt id = n₁.waitingAt id := by
        rw [waitingAt, waitingAt, hclients]
      have halive₁ : n₁.alive id = true := by
        have halive₂ := hn.alive halive'
        rwa [alive, hclients] at halive₂
      obtain ⟨m, hm, hlink⟩ := (hplaced.of_aside h₁).links_told (hsettled.of_aside h₁) hseat₁
        halive₁ hroom (.message s.told)
      rw [h₁.member] at hm
      have hpost : (Frame.message s.told).postOf room = some s.told := by
        rw [Frame.postOf, hs.room, if_pos hroom]
      refine DueAt.of_aside ?_ hn
      by_cases hnew : key = e.key
      · subst hnew
        refine dueAt_accept (hunused.link.of_board h₁.board) (h₁.hand ▸ hunused.hand)
          (fun hsome ↦ hnohand (h₁.hand ▸ hsome) m hm) (by omega) hwaiting hlink rfl ?_
        rw [hpost]
        simp [timesIn, show Obj.key? s.told = some e.key from hk]
      · have hdue := h.due (h₁.alive halive₁) key (by simpa [hnew] using hkey)
        refine (hdue.of_aside h₁).accept hwaiting hlink rfl ?_
        rw [hpost]
        simp [timesIn, show Obj.key? s.told = some e.key from hk, Ne.symm hnew]
    · rw [hkeys, hcache]
      exact h.retained.accept he hunused.ids hunused.entries hvisible
  · rename_i hroom
    have haside := (h₁.trans ((hplaced.of_aside h₁).told_other hroom _)).trans hn
    simpa using h.aside haside hecho hcache

/-- One item of a gossip request. -/
theorem Accounted.item (h : Accounted id room n w) (hplaced : Placed id room n)
    (hsettled : Settled id n) {joined : Bool} (hseat : n.seat id = some (room, joined))
    {item : Value} {now : ℤ}
    (hclear : ∀ s ∈ itemSubmission env now item, s.room.str? = some room → Clear id room n s)
    (hecho : n.store.cache.EchoFree env.lib
      ((itemSubmission env now item).map (·.put now)).toList) :
    Accounted id room (n.receiveItem env item now).1
      ⟨w.accepted ++ if (n.receiveItem env item now).2.isSome then [] else
          ((itemSubmission env now item).bind (Submission.toldIn room)).toList,
        w.arrived ++ n.store.cache.added env.lib
          ((itemSubmission env now item).map (·.put now)).toList⟩ := by
  have hcache := (leaves_receiveItem env n item now).cache
  rcases receiveItem_cases env id n item now with ⟨haside, hnone⟩ | ⟨s, hs, hfiled, hok, haside⟩
  · have haccepted : (if (n.receiveItem env item now).2.isSome then [] else
        ((itemSubmission env now item).bind (Submission.toldIn room)).toList) = [] := by
      rcases hnone with hnone | hraised
      · rw [hnone]
        exact ite_self _
      · exact if_pos hraised
    rw [haccepted, List.append_nil]
    exact h.aside haside hecho hcache
  · rw [hs] at hecho hcache ⊢
    rw [hok]
    exact h.tell hplaced hsettled hseat (faithful_item hs) (hclear s hs) (.refl id n) (by omega)
      haside hfiled hecho hcache

/-- The items of a gossip request one after the other. -/
theorem Accounted.items (now : ℤ) {joined : Bool} (items : List Value) : ∀ {n : Node} {w : Watch},
    Accounted id room n w → Placed id room n → Settled id n → n.seat id = some (room, joined) →
      ItemsClear env id room now n items →
        n.store.cache.EchoFree env.lib (itemPuts env now n items) →
          Accounted id room (receiveItems env now n items)
            ⟨w.accepted ++ itemsAccepted env room now n items,
              w.arrived ++ n.store.cache.added env.lib (itemPuts env now n items)⟩ := by
  induction items with
  | nil =>
    intro n w h _ _ _ _ _
    simpa [itemsAccepted, itemPuts, FeedCache.added, receiveItems] using h
  | cons item items ih =>
    intro n w h hplaced hsettled hseat hitems hecho
    obtain ⟨hclear, hrest⟩ := hitems
    rw [itemPuts, FeedCache.echoFree_append] at hecho
    have hitem := h.item hplaced hsettled hseat hclear hecho.1
    have hcache := (leaves_receiveItem env n item now).cache
    obtain ⟨hrooms, hclients⟩ := records_receiveItem env n item now
    rw [receiveItems, itemsAccepted, itemPuts, FeedCache.added_append, ← hcache]
    rw [← hcache] at hecho
    generalize n.receiveItem env item now = r at hitem hcache hrooms hclients hrest hecho ⊢
    obtain ⟨n₁, _ | e⟩ := r
    · have hseat₁ : n₁.seat id = some (room, joined) := by
        rw [← hseat, seat, seat, hclients]
      have hplaced₁ : Placed id room n₁ := by
        have hmember : n₁.member? = n.member? := by
          funext room' id'
          rw [member?, member?, hrooms]
        exact ⟨by rw [hmember]; exact hplaced.member, by rw [hmember]; exact hplaced.others⟩
      have hnext := ih hitem hplaced₁ (hsettled.of_eq hclients hrooms) hseat₁ hrest hecho.2
      simp only [Option.isSome_none, Bool.false_eq_true, if_false, List.append_assoc] at hnext
      exact hnext
    · simpa [FeedCache.added] using hitem

/-! ## Histories

The executor takes the history from the feed cache.  By the bound on the number of messages since
the join, it reaches back far enough. -/

/-- A message keeps its id when it is read out of the cache. -/
theorem key?_toObj (e : Entry) : Obj.key? e.toObj = some e.key := e.id_key

/-- A history has a message as often as the cache has its id. -/
theorem timesIn_toObj (k : Key) (es : List Entry) :
    timesIn k (es.map Entry.toObj) = (es.map Entry.key).count k := by
  rw [timesIn, List.countP_map, List.count, List.countP_map]
  refine List.countP_congr fun e _ ↦ ?_
  simp [key?_toObj]

/-- The handler waits for the history of the room that the client is in. -/
theorem Settled.target_eq (h : Settled id n) {joined : Bool}
    (hseat : n.seat id = some (room, joined)) {wait : Waiting}
    (hw : n.waitingAt id = some wait) : wait.target = room := by
  obtain ⟨c, hc, hroom, -⟩ := get?_of_seat hseat
  exact ((h c hc).1 wait ((waitingAt_of_get? hc).symm.trans hw)).trans hroom

/-- What the handler has been given. -/
theorem waitingAt_handed {joined : Bool} (hseat : n.seat id = some (room, joined))
    (wait : Option Waiting) : (n.handed id wait).waitingAt id = wait := by
  obtain ⟨c, hc, -⟩ := get?_of_seat hseat
  rw [waitingAt, get?_handed hc, Option.bind_some]

theorem alive_handed (wait : Option Waiting) : (n.handed id wait).alive id = n.alive id := by
  rw [alive, alive, handed, get?_updateClient]
  cases n.clientsById.get? id with
  | none => rfl
  | some c => simp

/-- The history that the executor finds in the cache has the message. -/
theorem dueAt_fetched (h : FeedCache.Retains room n.store.cache w.keys w.arrived) (hk : k ∈ w.keys)
    (hsize : w.arrived.length ≤ msgCacheSize)
    (hfew : ((w.arrived.filter (FeedCache.visibleIn room)).length : ℤ) < env.config.historyLimit)
    {ready : Waiting} {now : ℤ} {docs : Option (List Obj)} (hready : ready.result? =
      some (n.store.getHistory env.lib now room env.config.historyLimit docs).2)
    (hw : n'.waitingAt id = some ready) : n'.DueAt id room k := by
  have hone : timesIn k (n.store.cachedHistory room env.config.historyLimit) = 1 := by
    rw [Store.cachedHistory, timesIn_toObj]
    exact h.count_cacheGet hsize hfew hk
  refine (dueAt_of_some hw).mpr fun history hhistory ↦ Or.inl ?_
  unfold Store.getHistory at hready
  split at hready
  · rename_i msg msgs hcached
    obtain rfl := Except.ok.inj (Option.some.inj (hready.symm.trans hhistory))
    rw [← hcached]
    exact hone
  · rename_i hcached
    rw [hcached] at hone
    simp [timesIn] at hone

/-- The handler tells the history. -/
theorem DueAt.resume (h : n.DueAt id room k) {wait : Waiting} {history : List Obj} {f : Frame}
    (hw : n.waitingAt id = some wait) (hresult : wait.result? = some (.ok history))
    (hf : f.historyOf room = some history) (hspace : (n.links id).queue.length < sendQueueSize)
    (hwaiting : n'.waitingAt id = none) (hlink : n'.links id = (n.links id).putNowait f) :
    n'.DueAt id room k := by
  rw [dueAt_of_none hwaiting, hlink]
  exact Link.due_putNowait_history hspace hf ((dueAt_of_some hw).mp h history hresult)

/-! ## Frames that get on

The sender loop takes frames in their order, so a message that is behind the history stays behind
it.  Coroutines take them in any order, which is what `MaySendDirect` is for. -/

/-- The link of the client is updated. -/
theorem links_updateLink (n : Node) (id : Str) (f : Link → Link) :
    (n.updateLink id f).links id = f (n.links id) := Function.update_self ..

/-- A frame from the queue has been sent. -/
theorem DueAt.done (h : n.DueAt id room k) {f : Frame} {sender : Sender}
    (hsender : (n.links id).sender = .sending f) (hafter : sender.inFlight = [])
    (hmay : MaySend id room n f) :
    (n.updateLink id fun l ↦
      { l with sender := sender, sent := l.sent ++ [f] }).DueAt id room k := by
  refine h.congr rfl (fun hwaiting hdue ↦ ?_) fun _ ↦ by rw [links_updateLink]; rfl
  rw [links_updateLink]
  refine hdue.done hsender hafter fun history hhistory hqueue hpos ↦ ?_
  refine timesIn_eq_zero fun msg hmsg hkey ↦ ?_
  have hzero := hmay hwaiting hqueue history hhistory msg hmsg k hkey
  omega

/-- A frame that was scheduled directly has been sent. -/
theorem DueAt.sendDirect (h : n.DueAt id room k) {i : ℕ} {f : Frame}
    (hf : (n.links id).direct[i]? = some f) (hnews : DirectNews id n)
    (hmay : MaySendDirect id room n f) :
    (n.updateLink id fun l ↦
      { l with direct := l.direct.eraseIdx i, sent := l.sent ++ [f] }).DueAt id room k := by
  -- a history that is still to come has the message of the frame
  have hhas : ∀ history ∈ n.toCome id room, 0 < timesIn k (f.postOf room).toList →
      0 < timesIn k history := by
    intro history hhistory hpos
    obtain ⟨msg, hmsg, hkey⟩ := List.countP_pos_iff.mp hpos
    exact hmay history hhistory msg (Option.mem_toList.mp hmsg) k (of_decide_eq_true hkey)
  cases hw : n.waitingAt id with
  | none =>
    rw [dueAt_of_none hw] at h
    rw [dueAt_of_none (show Node.waitingAt (Node.updateLink n id _) id = none from hw),
      links_updateLink]
    refine h.sendDirect hf hnews fun history hhistory ↦ hhas history ?_
    rw [toCome, hw]
    exact hhistory
  | some wait =>
    rw [dueAt_of_some hw] at h
    refine (dueAt_of_some (show Node.waitingAt (Node.updateLink n id _) id = some wait from hw)).mpr
      fun history hresult ↦ (h history hresult).imp_right fun ⟨hzero, hone⟩ ↦ ⟨hzero, ?_⟩
    have hcopies : (n.links id).directCopies room k = _ := timesIn_eraseIdx hf
    have hlacks : timesIn k (f.postOf room).toList = 0 := by
      by_contra hne
      have hpos := hhas history (by rw [toCome, hw]; exact hand_of_result hw hresult) (by omega)
      omega
    rw [links_updateLink]
    show timesIn k (((n.links id).direct.eraseIdx i).filterMap (Frame.postOf room)) = 1
    omega

/-! ## Steps

The cases of `Passes` one after the other.  A step after which the client is somewhere else starts
a new record, of which there is nothing to prove but that it is empty. -/

/-- Except for gossip, an event brings a room the message that it handles to the end, and no
other. -/
theorem accepted_eq {a : Event} (hgossip : ∀ v now, a ≠ .gossip (some v) now) :
    a.accepted env room n = ((a.completed env n).bind (Submission.toldIn room)).toList := by
  cases a with
  | gossip data now =>
    cases data with
    | none => rfl
    | some v => exact absurd rfl (hgossip v now)
  | _ => rfl

/-- The condition on a step, for a message that comes to the room. -/
theorem InTime.clear {a : Event} (h : InTime env id room (n, w) a) {s : Submission}
    (hs : a.completed env n = some s) (hroom : s.room.str? = some room) : Clear id room n s := by
  cases a with
  | frame id' data now uuid => exact h s hs hroom
  | post body query now uuid => exact h s hs hroom
  | _ => simp [Event.completed] at hs

/-! ## The cases

Each constructor of `Passes` with the condition that `Timely` has for it. -/

/-- A step that brings no message to the room. -/
theorem Accounted.of_due (h : Accounted id room n w) {a : Event}
    (hnone : a.accepted env room n = []) (hecho : n.store.cache.EchoFree env.lib (a.puts env n))
    (hcache : n'.store.cache = (a.puts env n).foldl (·.call env.lib) n.store.cache)
    (hdue : n'.alive id = true → ∀ k ∈ w.keys, n.DueAt id room k → n'.DueAt id room k)
    (halive : n'.alive id = true → n.alive id = true) :
    Accounted id room n' ⟨w.accepted ++ a.accepted env room n,
      w.arrived ++ n.store.cache.added env.lib (a.puts env n)⟩ := by
  rw [hnone, List.append_nil]
  refine ⟨h.keyed, fun hn' k hk ↦ ?_, hcache ▸ h.retained.calls hecho⟩
  exact hdue hn' k hk (h.due (halive hn') k hk)

/-- **Whatever a step means for the client, every message stays in its place.** -/
theorem Accounted.passes {a : Event} (h : Accounted id room n w) (hpasses : Passes env id n a n')
    (hplaced : Placed id room n) (hsettled : Settled id n) (hnews : DirectNews id n) {joined : Bool}
    (hseat : n.seat id = some (room, joined)) (hsame : n'.seat id = n.seat id)
    (htimely : InTime env id room (n, w) a)
    (hecho : n.store.cache.EchoFree env.lib (a.puts env n))
    (hcache : n'.store.cache = (a.puts env n).foldl (·.call env.lib) n.store.cache) :
    Accounted id room n' ⟨w.accepted ++ a.accepted env room n,
      w.arrived ++ n.store.cache.added env.lib (a.puts env n)⟩ := by
  cases hpasses with
  | aside haside hnone hgossip =>
    refine h.of_due ?_ hecho hcache (fun _ k _ hdue ↦ hdue.of_aside haside) haside.alive
    rw [accepted_eq hgossip, hnone]
    rfl
  | moves hmoved => exact absurd hsame hmoved
  | message hs hgossip h₁ hqueue htold =>
    obtain ⟨hfaithful, now, hputs, hfiled⟩ := puts_of_completed hs
    rw [hputs] at hecho hcache ⊢
    rw [accepted_eq hgossip, hs, Option.bind_some]
    exact h.tell hplaced hsettled hseat hfaithful (htimely.clear hs) h₁ hqueue htold hfiled hecho
      hcache
  | gossip => exact h.items _ _ hplaced hsettled hseat htimely hecho
  | fetch hw hroom hready htarget =>
    obtain ⟨hsize, hfew⟩ := htimely rfl
    obtain rfl := (Waiting.target_of_room? hroom).symm.trans (hsettled.target_eq hseat hw)
    refine h.of_due rfl hecho hcache (fun _ k hk _ ↦ ?_) fun halive ↦ ?_
    · exact dueAt_fetched h.retained hk hsize hfew hready (waitingAt_handed hseat _)
    · rwa [alive_handed] at halive
  | @resume wait history f _ hw hresult hf haside =>
    have htold : ((n.handed id none).send id f).alive id = n.alive id := alive_handed none
    rw [hsettled.target_eq hseat hw] at hf
    refine h.of_due rfl hecho hcache (fun halive k _ hdue ↦ .of_aside ?_ haside) fun halive ↦ ?_
    · refine hdue.resume (f := f) hw hresult ?_ (htimely rfl) (waitingAt_handed hseat none) ?_
      · rw [Frame.historyOf, hf, Option.filter_some, if_pos (decide_eq_true rfl)]
        rfl
      · have hway : (n.handed id none).wayTo id id = some true := by
          rw [wayTo, alive_handed, ← htold, haside.alive halive, if_pos ⟨rfl, rfl⟩]
        exact links_deliver_of_some (n.handed id none) f hway
    · exact htold ▸ haside.alive halive
  | take hsender hqueue =>
    refine h.of_due rfl hecho hcache (fun _ k _ hdue ↦ ?_) fun halive ↦ halive
    refine hdue.congr rfl (fun _ hlink ↦ ?_) fun _ ↦ by rw [links_updateLink]; rfl
    rw [links_updateLink]
    exact hlink.take hsender hqueue
  | done hsender hafter =>
    refine h.of_due rfl hecho hcache (fun _ k _ hdue ↦ ?_) fun halive ↦ halive
    exact hdue.done hsender hafter
      (htimely rfl _ (by rw [hsender]; exact List.mem_singleton_self _))
  | failed =>
    -- the client is disconnected
    have hdead : ((n.closeWs id).updateLink id fun l ↦ { l with sender := .stopped }).alive id =
        false := by
      show (n.closeWs id).alive id = false
      rw [alive, closeWs, get?_updateClient]
      cases n.clientsById.get? id <;> simp
    refine h.of_due rfl hecho hcache ?_ ?_ <;> intro halive <;> simp [hdead] at halive
  | direct hf =>
    refine h.of_due rfl hecho hcache (fun _ k _ hdue ↦ ?_) fun halive ↦ halive
    exact hdue.sendDirect hf hnews (htimely rfl _ hf)

/-- The record has just been started. -/
theorem Accounted.empty (hlen : n.store.cache.globalMsgCache.length ≤ msgCacheSize) :
    Accounted id room n .empty where
  keyed _ hmsg := absurd hmsg List.not_mem_nil
  due _ _ hk := absurd hk List.not_mem_nil
  retained := .nil room hlen

/-- A node that has just started has no clients. -/
theorem seat_initial (env : Env) (id : Str) : (initial env).seat id = none := by
  have hplace := placeOf_initial env id
  rw [placeOf, Option.map_eq_none_iff] at hplace
  rw [seat, hplace]
  rfl

/-- The feed cache is never longer than its bound. -/
theorem length_cache_of_reachable (h : (system env).Reachable n) :
    n.store.cache.globalMsgCache.length ≤ msgCacheSize := by
  obtain ⟨calls, hcalls⟩ := cache_of_reachable h
  rw [hcalls]
  exact length_runPuts_le env.lib calls

/-- The record does not get in the way of the node. -/
theorem reachable_of_watched {p : Node × Watch} (h : (watched env id).Reachable p) :
    (system env).Reachable p.1 := System.Reachable.of_record h

/-! ## Along a run

A client that moves starts a new record; as long as it stays, the record and the invariant go
on. -/

/-- **In a run of steps in time every message is in its place.** -/
theorem accounted_of_timely {p : Node × Watch}
    (h : ((watched env id).when (Timely env id)).Reachable p) {room : Str} {joined : Bool}
    (hseat : p.1.seat id = some (room, joined)) : Accounted id room p.1 p.2 := by
  refine h.invariant_of (J := fun p ↦ (system env).Reachable p.1)
    (I := fun p ↦ ∀ room joined, p.1.seat id = some (room, joined) → Accounted id room p.1 p.2)
    ?_ ?_ ?_ room joined hseat
  · exact fun p hp ↦ reachable_of_watched hp.of_when
  · rintro ⟨n, w⟩ ⟨rfl, rfl⟩ room joined hseat
    rw [seat_initial] at hseat
    simp at hseat
  · rintro ⟨n, w⟩ a p' hreachable h ⟨⟨hecho, htimely⟩, hstep⟩ room joined hseat
    obtain ⟨n', hn', rfl⟩ := Option.map_eq_some_iff.mp hstep
    have hhoused := housed_of_reachable hreachable
    rw [note]
    split
    · rename_i hsame
      have hseat₀ : n.seat id = some (room, joined) := hsame ▸ hseat
      rw [hseat₀, Option.map_some, Option.getD_some]
      exact (h room joined hseat₀).passes
        (passes_step hhoused (noticesOnly_of_reachable hreachable) hn' id) (hhoused.placed hseat₀)
        (settled_of_reachable hreachable id) (directNews_of_reachable hreachable id) hseat₀ hsame
        (htimely _ hseat₀) hecho (cache_step hn')
    · exact .empty (length_cache_of_reachable (hreachable.tail (a := a) hn'))

/-- **A run of steps in time leaves no gap.** -/
theorem gapless_of_timely {p : Node × Watch}
    (h : ((watched env id).when (Timely env id)).Reachable p) : Gapless id p := by
  intro room joined hseat halive hwaiting hpending hdirect msg hmsg
  have haccounted := accounted_of_timely h hseat
  obtain ⟨k, hk⟩ := Option.isSome_iff_exists.mp (haccounted.keyed msg hmsg)
  have hkeys : k ∈ p.2.keys := List.mem_filterMap.mpr ⟨msg, hmsg, hk⟩
  have hdue := (dueAt_of_none hwaiting).mp (haccounted.due halive k hkeys)
  exact ⟨k, hk, hdue.timesIn_sent hpending hdirect⟩

/-! ## Two runs

The runs differ in the place of one event: the message is posted after the handler has told the
history, or before. -/

/-- Alice joins, and the executor finds no history.  A message is posted before or after her handler
has resumed, and all frames are sent. -/
def joinRun (events : List Event) : List Event :=
  [.connect (lit "1") [] 0, joinFrame (lit "1") (lit "alice"),
    .fetchHistory (lit "1") 0 (some [])] ++ events ++
      (List.replicate 3 (sendNext (lit "1"))).flatten

/-- How often Alice is shown the message when everything has arrived. -/
def shown (p : Node × Watch) : Option ℕ :=
  if p.1.alive (lit "1") ∧ p.1.waitingAt (lit "1") = none ∧ (p.1.links (lit "1")).pending = [] ∧
      (p.1.links (lit "1")).direct = [] then
    some (timesIn (.str (lit "m1")) (roomMessageCache general (p.1.links (lit "1")).sent))
  else none

/-- The message is posted after the handler has resumed. -/
theorem gapless_joinRun : ∃ p : Node × Watch, p.2.keys = [.str (lit "m1")] ∧ shown p = some 1 ∧
    Gapless (lit "1") p := by
  have hexec : (System.exec (fun p a ↦ if Timely plainEnv (lit "1") p a then
      System.record (step plainEnv) (note plainEnv (lit "1")) p a else none)
      (initial plainEnv, Watch.empty) (joinRun [.resume (lit "1"),
        postEvent (lit "m1") (lit "hi")])).map (fun p ↦ (p.2.keys, shown p)) =
      some ([.str (lit "m1")], some 1) := by
    decide +kernel
  obtain ⟨p, hp, hseen⟩ := Option.map_eq_some_iff.mp hexec
  obtain ⟨hkeys, hshown⟩ := Prod.mk.inj hseen
  exact ⟨p, hkeys, hshown,
    gapless_of_timely ((System.trace_when_of_exec hp).reachable ⟨rfl, rfl⟩)⟩

/-- It is posted between the query and the end of the join, and Alice does not see it. -/
theorem not_gapless_joinRun : ∃ p : Node × Watch, (watched plainEnv (lit "1")).Trace
    (initial plainEnv, .empty) (joinRun [postEvent (lit "m1") (lit "hi"), .resume (lit "1")]) p ∧
      p.2.arrived.length = 1 ∧ ¬ Gapless (lit "1") p := by
  have hexec : (System.exec (System.record (step plainEnv) (note plainEnv (lit "1")))
      (initial plainEnv, Watch.empty) (joinRun [postEvent (lit "m1") (lit "hi"),
        .resume (lit "1")])).map (fun p ↦ (p.1.seat (lit "1"), p.2.arrived.length, p.2.keys,
          shown p)) = some (some (general, true), 1, [.str (lit "m1")], some 0) := by
    decide +kernel
  obtain ⟨p, hp, hseen⟩ := Option.map_eq_some_iff.mp hexec
  obtain ⟨hseat, harrived, hkeys, hshown⟩ : p.1.seat (lit "1") = some (general, true) ∧
      p.2.arrived.length = 1 ∧ p.2.keys = [.str (lit "m1")] ∧ shown p = some 0 := by
    simpa [Prod.ext_iff] using hseen
  refine ⟨p, System.trace_of_exec hp, harrived, fun h ↦ ?_⟩
  rw [shown] at hshown
  split at hshown
  · rename_i harrive
    obtain ⟨halive, hwaiting, hpending, hdirect⟩ := harrive
    have hmem : Key.str (lit "m1") ∈ p.2.keys := by rw [hkeys]; exact List.mem_singleton_self _
    obtain ⟨msg, hmsg, hkey⟩ := List.mem_filterMap.mp hmem
    obtain ⟨k, hk, hone⟩ := h general true hseat halive hwaiting hpending hdirect msg hmsg
    obtain rfl := Option.some.inj (hkey.symm.trans hk)
    exact absurd (hone.symm.trans (Option.some.inj hshown)) (by decide)
  · simp at hshown

end Node
end GroupChat
