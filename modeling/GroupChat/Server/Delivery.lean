import GroupChat.Server.Changes

/-!
# How often a subscriber gets a message

A client that retries a request, or sends a frame again, gives the message the id it had before, and
the handlers are meant to be idempotent in the id.  There is a duplicate check in `_cache_put`, but
it protects the feed cache only: the handlers do not learn its outcome, and broadcast and gossip the
message in any case.  So a subscriber gets a copy of a message for every time that it is submitted.

* `Event.copies` counts the submissions of an id in an event that go to a room the client is in.
* `received_le_one`: in a run that has at most one of these, the client receives at most one
  `message` frame with the id.
* `received_retryRun`: a request that is repeated is received twice.

The proof counts the frames on the way to the client (`Node.copiesAt`).  A step adds no more of them
than its event has copies (`copiesAt_step`), and the rest is `Trace.le_add_tally`.
-/

set_option autoImplicit false

namespace GroupChat

/-- Is the frame a `message` frame with this id? -/
def Frame.isMessage (k : Key) : Frame → Bool
  | .message msg => decide ((msg.get "id").key? = some k)
  | _ => false

namespace Node

open Transition

variable (env : Env) (k : Key) (id : Str)

/-- How many `message` frames with this id has the client received? -/
def received (n : Node) : ℕ := (n.links id).sent.countP (Frame.isMessage k)

/-- Does a broadcast to the room that a value names reach the client? -/
def reaches (n : Node) (room : Value) : Bool :=
  match room.str? with
  | some r => (n.wayToRoom r none id).isSome
  | none => false

/-- Does a submission bring the client a copy? -/
def brings (n : Node) (s : Submission) : Bool :=
  (Frame.message s.told).isMessage k && n.reaches id s.room

/-- The copies that an event brings the client. -/
def copies (n : Node) (a : Event) : ℕ := (a.submissions env n).countP (n.brings k id)

/-- The copies on the way to the client, those that it has received included. -/
def copiesAt (n : Node) : ℕ := (n.content id).countP (Frame.isMessage k)

/-- A copy is a frame with a message in it. -/
theorem carries_of_isMessage {f : Frame} (h : f.isMessage k = true) : f.carries = true := by
  cases f <;> simp_all [Frame.isMessage, Frame.carries]

/-- What has been received was on the way. -/
theorem received_le_copiesAt (n : Node) : n.received k id ≤ n.copiesAt k id := by
  have hsent : (n.links id).sent.Sublist (n.onTheWay id) := by
    simp only [onTheWay, Link.frames, List.append_assoc]
    exact List.sublist_append_left _ _
  rw [received, copiesAt, content, List.countP_filter]
  refine hsent.countP_le.trans (List.countP_mono_left fun f _ hf ↦ ?_)
  simp [hf, carries_of_isMessage k hf]

variable {env k id} {n n' : Node}

/-! ## Counting frames

The frames of a kind `P` on the way to a client, where no frame with a history is of the kind. -/

/-- The frames of a kind on the way to the client, those that it has received included. -/
def countAt (P : Frame → Bool) (id : Str) (n : Node) : ℕ := (n.content id).countP P

section Counting

variable {P : Frame → Bool}

/-- A silent change brings nothing. -/
theorem Silent.countAt_le (h : Silent n n') : n'.countAt P id ≤ n.countAt P id :=
  (h.content id).countP_le _

/-- The number depends on what is on the way only. -/
theorem countAt_of_links (hl : n'.links = n.links) (hs : n'.scheduled = n.scheduled) :
    n'.countAt P id = n.countAt P id := by
  rw [countAt, countAt, content, content, onTheWay, onTheWay, hl, hs]

/-- A frame that is delivered counts for those whom it reaches. -/
theorem countAt_deliver (n : Node) (way : Str → Option Bool) (f : Frame) :
    (n.deliver way f).countAt P id ≤ n.countAt P id + if P f && (way id).isSome then 1 else 0 := by
  refine ((content_deliver n way f id).countP_le _).trans ?_
  rw [List.countP_append, Nat.add_comm, countAt]
  refine Nat.add_le_add_left ?_ _
  split
  · rename_i hway
    cases hf : P f <;> simp [hf, hway.2]
  · simp

/-- A frame that is not of the kind does not count. -/
theorem countAt_deliver_of_not {f : Frame} (hf : P f = false) (n : Node)
    (way : Str → Option Bool) : (n.deliver way f).countAt P id ≤ n.countAt P id := by
  have h : (n.deliver way f).countAt P id ≤ n.countAt P id + _ := countAt_deliver n way f
  simpa [hf] using h

/-- The end of a connection tells its room, which is no copy. -/
theorem countAt_closeConnection (n : Node) (target : Str) :
    (n.closeConnection env target).countAt P id ≤ n.countAt P id := by
  rcases closeConnection_spec env n target with ⟨-, heq⟩ | ⟨c, n₁, -, hq, hq'⟩
  · rw [heq]
  · exact (hq.toSilent.trans ((Silent.forget env n₁ c).trans hq'.toSilent)).countAt_le

/-- Neither is what follows a handler that has raised. -/
theorem countAt_afterHandler (r : Node × Option PyError) (target : Str) :
    (afterHandler env target r).countAt P id ≤ r.1.countAt P id := by
  obtain ⟨n, e⟩ := r
  cases e with
  | none => exact le_rfl
  | some e => exact countAt_closeConnection n target

variable (hP : ∀ f : Frame, f.history?.isSome = true → P f = false)

include hP

/-- A history is not of the kind. -/
theorem countAt_tellsHistory {target : Str} {history : List Obj}
    (h : n.TellsHistory target history n') : n'.countAt P id ≤ n.countAt P id := by
  rcases h with hq | ⟨f, hf, hq⟩
  · exact hq.toSilent.countAt_le
  · have hnot : P f = false := hP f (by rw [hf]; rfl)
    exact hq.toSilent.countAt_le.trans (countAt_deliver_of_not hnot n (n.wayTo target))

/-- Neither is a history that is waited for. -/
theorem countAt_asks {target room : Str} {wait : Waiting} (h : Asks env n target room wait n') :
    n'.countAt P id ≤ n.countAt P id := by
  rcases h with htell | rfl
  · exact countAt_tellsHistory hP htell
  · exact (countAt_of_links rfl rfl).le

theorem countAt_handleJoin {c : Client} {data : Obj} {r : Node × Option PyError}
    (h : n.handleJoin env c data = some r) : r.1.countAt P id ≤ n.countAt P id := by
  rcases handleJoin_spec h with ⟨-, hn⟩ | ⟨username, n₁, n₂, -, -, hq, hq', hasks⟩
  · rw [hn]
  · have hjoin := hq.toSilent.trans ((Silent.enroll env n₁ c username _).trans hq'.toSilent)
    exact (countAt_asks hP hasks).trans hjoin.countAt_le

theorem countAt_handleSwitchRoom (c : Client) (room : Value) :
    (n.handleSwitchRoom env c room).1.countAt P id ≤ n.countAt P id := by
  rcases handleSwitchRoom_spec env n c room with hq | ⟨r, n₁, -, hq, hasks⟩
  · exact hq.toSilent.countAt_le
  · exact (countAt_asks hP hasks).trans hq.toSilent.countAt_le

theorem countAt_handleCreateRoom (c : Client) (data : Obj) :
    (n.handleCreateRoom env c data).1.countAt P id ≤ n.countAt P id := by
  rcases handleCreateRoom_spec env n c data with hq | ⟨r, n₁, -, hq, hasks⟩
  · exact hq.toSilent.countAt_le
  · exact (countAt_asks hP hasks).trans hq.toSilent.countAt_le

end Counting

/-- A history is no copy. -/
theorem isMessage_of_history (k : Key) (f : Frame) (h : f.history?.isSome = true) :
    f.isMessage k = false := by
  cases f with
  | welcome => rfl
  | roomSwitched => rfl
  | _ => simp [Frame.history?] at h

/-- A submission is broadcast once at most. -/
theorem copiesAt_submits {now : ℤ} {s : Submission} (h : Submits env n now s n') :
    n'.copiesAt k id ≤ n.copiesAt k id + if n.brings k id s then 1 else 0 := by
  rcases h with rfl | ⟨store, n₁, n₂, -, h₁, h₂, h₃⟩
  · exact Nat.le_add_right _ _
  · have hput : n₁.copiesAt k id ≤ n.copiesAt k id + if n.brings k id s then 1 else 0 := by
      rcases h₁ with rfl | ⟨r, hroom, rfl⟩
      · exact Nat.le_add_right _ _
      · have hdeliver : ({ n with store := store }.deliver (n.wayToRoom r none)
            (.message s.told)).copiesAt k id ≤ n.copiesAt k id + _ := countAt_deliver _ _ _
        rw [brings, reaches, hroom]
        exact hdeliver
    have hspawn : n'.copiesAt k id ≤ n₂.copiesAt k id := by
      rcases h₃ with rfl | ⟨j, -, h₃⟩
      · exact le_rfl
      · exact h₃.toSilent.countAt_le
    exact hspawn.trans (h₂.toSilent.countAt_le.trans hput)

/-- A handler that submits brings the copy of its submission, if any. -/
theorem copiesAt_submission {now : ℤ} {o : Option Submission}
    (h : n' = n ∨ ∃ s, o = some s ∧ Submits env n now s n') :
    n'.copiesAt k id ≤ n.copiesAt k id + o.toList.countP (n.brings k id) := by
  rcases h with rfl | ⟨s, rfl, hsub⟩
  · exact Nat.le_add_right _ _
  · rw [Option.toList_some, List.countP_singleton]
    exact copiesAt_submits hsub

/-! ## Steps

A step is one event, and an event has one handler, which brings a client no more copies than the
event has submissions to its room.  Gossip is the one event with several of them. -/

/-- Only a message frame brings copies. -/
theorem copiesAt_dispatched {c : Client} {data : Obj} {now : ℤ} {uuid : Str}
    {r : Node × Option PyError} (h : Dispatched env n c data now uuid r) :
    r.1.copiesAt k id ≤ n.copiesAt k id +
      if (data.get "type").str? = some (lit "message") then
        (frameSubmission env c data now uuid).toList.countP (n.brings k id) else 0 := by
  have hP := isMessage_of_history k
  cases h with
  | join type hjoin => exact le_add_right (countAt_handleJoin hP hjoin)
  | message type =>
    rw [if_pos (Value.str?_eq_some_iff.mpr type)]
    exact copiesAt_submission (handleMessage_spec env n c data now uuid)
  | privateMessage type =>
    refine le_add_right ?_
    rcases handlePrivateMessage_spec env n c data now uuid with hq | ⟨username, targetId, -, -, hn⟩
    · exact hq.toSilent.countAt_le
    · rw [hn]
      exact (countAt_deliver_of_not rfl _ _).trans (countAt_deliver_of_not rfl _ _)
  | switchRoom type => exact le_add_right (countAt_handleSwitchRoom hP c _)
  | createRoom type => exact le_add_right (countAt_handleCreateRoom hP c data)
  | quiet hq => exact le_add_right hq.toSilent.countAt_le

theorem brings_eq_of_rooms (hr : n'.rooms = n.rooms) : n'.brings k id = n.brings k id := by
  funext s
  simp only [brings, reaches, wayToRoom, hr]

/-- The items of a gossip request bring one copy each at most. -/
theorem copiesAt_receiveItems (now : ℤ) (items : List Value) : ∀ n : Node,
    (receiveItems env now n items).copiesAt k id ≤
      n.copiesAt k id + (items.filterMap (itemSubmission env now)).countP (n.brings k id) := by
  induction items with
  | nil => exact fun n ↦ le_rfl
  | cons item items ih =>
    intro n
    have hitem : (n.receiveItem env item now).1.copiesAt k id ≤
        n.copiesAt k id + (itemSubmission env now item).toList.countP (n.brings k id) :=
      copiesAt_submission (receiveItem_spec env n item now)
    have hsplit : ((item :: items).filterMap (itemSubmission env now)).countP (n.brings k id) =
        (itemSubmission env now item).toList.countP (n.brings k id) +
          (items.filterMap (itemSubmission env now)).countP (n.brings k id) := by
      rw [← List.countP_append, List.filterMap_cons]
      cases itemSubmission env now item <;> rfl
    have hrooms : (n.receiveItem env item now).1.rooms = n.rooms :=
      (records_receiveItem env n item now).1
    rw [receiveItems, hsplit]
    split
    · rename_i n₁ hn₁
      rw [hn₁] at hitem hrooms
      have hitem : n₁.copiesAt k id ≤ _ := hitem
      have hrest := ih n₁
      rw [brings_eq_of_rooms hrooms] at hrest
      omega
    · rename_i n₁ e hn₁
      rw [hn₁] at hitem
      have hitem : n₁.copiesAt k id ≤ _ := hitem
      omega

/-- **The step lemma.** -/
theorem copiesAt_step {a : Event} (h : n.step env a = some n') :
    n'.copiesAt k id ≤ n.copiesAt k id + n.copies env k id a := by
  cases a with
  | connect target queryParams now =>
    obtain ⟨-, rfl⟩ := step_connect h
    exact le_add_right (Silent.handleConnection env n target queryParams now).countAt_le
  | frame target data now uuid =>
    obtain ⟨c, hc, -, hframe⟩ := receive_spec h
    have hq := Quiet.noteActivity n target c now
    rcases hframe with ⟨fields, r, rfl, hr, rfl⟩ | ⟨-, rfl⟩
    · have hdispatch : r.1.copiesAt k id ≤ _ := copiesAt_dispatched hr
      rw [brings_eq_of_rooms (rooms_noteActivity n target c now)] at hdispatch
      have hcopies : n.copies env k id (.frame target (.dict fields) now uuid) =
          if (Obj.get fields "type").str? = some (lit "message") then
            (frameSubmission env (c.activeAt now) fields now uuid).toList.countP (n.brings k id)
          else 0 := by
        rw [copies, Event.submissions, hc]
        split <;> rfl
      have hquiet : (n.noteActivity target c now).copiesAt k id ≤ n.copiesAt k id :=
        hq.toSilent.countAt_le
      have hafter : (afterHandler env target r).copiesAt k id ≤ r.1.copiesAt k id :=
        countAt_afterHandler r target
      omega
    · exact le_add_right ((countAt_closeConnection _ target).trans hq.toSilent.countAt_le)
  | fetchHistory target now docs =>
    obtain ⟨c, w, room, ready, -, -, -, -, rfl⟩ := fetchHistory_spec h
    exact le_add_right (countAt_of_links rfl rfl).le
  | resume target =>
    refine le_add_right ?_
    obtain ⟨n₁, hq, rfl | ⟨w, history, r, -, -, htell, rfl⟩⟩ := resume_spec h
    · exact (countAt_closeConnection _ target).trans hq.toSilent.countAt_le
    · exact (countAt_afterHandler r target).trans
        ((countAt_tellsHistory (isMessage_of_history k) htell).trans hq.toSilent.countAt_le)
  | disconnect target =>
    obtain ⟨c, -, -, rfl⟩ := step_disconnect h
    exact le_add_right (countAt_closeConnection n target)
  | post body query now uuid =>
    obtain rfl := Option.some.inj h
    exact copiesAt_submission (postMessage_spec env n body query now uuid)
  | gossip data now =>
    obtain rfl := Option.some.inj h
    cases data with
    | none => exact le_rfl
    | some v => exact copiesAt_receiveItems now (gossipItems v) n
  | feed room limit now =>
    obtain rfl := Option.some.inj h
    cases room <;> exact le_rfl
  | runJob i now nonce =>
    obtain ⟨job, -, rfl⟩ := Option.map_eq_some_iff.mp h
    cases job <;> exact le_rfl
  | warmCache now docs =>
    obtain rfl := Option.some.inj h
    exact le_rfl
  | publicKey username =>
    obtain rfl := Option.some.inj h
    exact le_rfl
  | privateKey username =>
    obtain rfl := Option.some.inj h
    exact le_rfl
  | background b => exact le_add_right (Quiet.background h).toSilent.countAt_le

/-! ## Runs

What a client has received is bounded by the copies that the events of the run have brought.  For
an event that brings one copy the bound is one. -/

/-- **A client receives no more copies of a message than were submitted to its room.** -/
theorem received_le_tally (env : Env) (k : Key) (id : Str) {n n' : Node} {events : List Event}
    (h : (system env).Trace n events n') :
    n'.received k id ≤
      n.copiesAt k id + System.tally (step env) (fun n a ↦ n.copies env k id a) n events :=
  (received_le_copiesAt k id n').trans (h.le_add_tally fun _ _ _ hs ↦ copiesAt_step hs)

/-- **A client receives a message once, if it is submitted to its room once.** -/
theorem received_le_one (env : Env) (k : Key) (id : Str) {n : Node} {events : List Event}
    (h : (system env).Trace (initial env) events n)
    (honce : System.tally (step env) (fun n a ↦ n.copies env k id a) (initial env) events ≤ 1) :
    n.received k id ≤ 1 := by
  have hinitial : (initial env).copiesAt k id = 0 :=
    Nat.le_zero.mp ((Quiet.initial env).toSilent.countAt_le.trans_eq rfl)
  have hle := received_le_tally env k id h
  omega

/-! ## Two runs

In the first run the id is submitted twice, once to the room of the subscriber and once to another
one; in the second run a request is repeated. -/

/-- A message that is posted to `random`. -/
def randomPost (id text : Str) : Event :=
  .post (.json (some (.dict [("id", .str id), ("msg", .str text), ("room", .str (lit "random"))])))
    [] 0 []

/-- A subscriber connects, and a message is posted to its room and, once more, to another one. -/
def postRun : List Event :=
  [.connect (lit "1") [] 0, postEvent (lit "m1") (lit "hi"),
    randomPost (lit "m1") (lit "hi")] ++ sendNext (lit "1")

theorem received_postRun : ∃ n, (system plainEnv).Trace (initial plainEnv) postRun n ∧
    n.received (.str (lit "m1")) (lit "1") = 1 ∧ n.received (.str (lit "m1")) (lit "1") ≤ 1 := by
  have hexec : (System.exec (step plainEnv) (initial plainEnv) postRun).map
      (fun n ↦ n.received (.str (lit "m1")) (lit "1")) = some 1 := by
    decide +kernel
  obtain ⟨n, hn, hone⟩ := Option.map_eq_some_iff.mp hexec
  have htrace : (system plainEnv).Trace (initial plainEnv) postRun n := System.trace_of_exec hn
  exact ⟨n, htrace, hone, received_le_one plainEnv _ _ htrace (by decide +kernel)⟩

/-- The request is repeated. -/
def retryRun : List Event :=
  [.connect (lit "1") [] 0, postEvent (lit "m1") (lit "hi"), postEvent (lit "m1") (lit "hi")] ++
    sendNext (lit "1") ++ sendNext (lit "1")

/-- The subscriber receives the message twice. -/
theorem received_retryRun : ∃ n, (system plainEnv).Trace (initial plainEnv) retryRun n ∧
    n.received (.str (lit "m1")) (lit "1") = 2 := by
  have hexec : (System.exec (step plainEnv) (initial plainEnv) retryRun).map
      (fun n ↦ n.received (.str (lit "m1")) (lit "1")) = some 2 := by
    decide +kernel
  obtain ⟨n, hn, htwo⟩ := Option.map_eq_some_iff.mp hexec
  exact ⟨n, System.trace_of_exec hn, htwo⟩

end Node
end GroupChat
