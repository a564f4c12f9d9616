import GroupChat.Server.Acceptance
import GroupChat.Server.Muted
import GroupChat.Server.Records
import GroupChat.Server.Seats

/-!
# What a client is told

Two kinds of frames tell a client what has become of messages: `message` frames bring it those of
its room, and a `delivered` frame acknowledges each of its own.  This file says which of these
frames are emitted to a client, exactly and in which order, for every order of requests, frames,
gossip and steps in the background.

* `Event.newsFor` is what an event means for a client: a `message` frame for each message that is
  accepted for the room of its record, and a `delivered` frame if the message is its own.
* `news_step`: these are the frames that the step emits, neither more nor fewer.
* `news_eq_collect`: the frames that have been emitted to a client in a run are those of the events
  of the run, in their order.

Gossip and requests are told with `broadcast`, the frames of clients as well; what differs is who
accepts them and at which point they may raise.  So there is one lemma about telling
(`news_told`), and the sections below say when it is reached.
-/

set_option autoImplicit false

namespace GroupChat

open Transition

/-! ## News

The news of a client are the frames of the two kinds among those emitted to it.  A frame counts as
emitted when the node hands it over to the link; whether it is dropped from a full queue later on
does not matter here. -/

/-- Does the frame bring a message, or acknowledge one? -/
def Frame.isNews : Frame → Bool
  | .message _ => true
  | .delivered _ => true
  | _ => false

namespace Node

variable {env : Env} {n n' : Node} {id : Str}

/-- The `message` and `delivered` frames that have been emitted to a client. -/
def news (n : Node) (id : Str) : List Frame := (n.links id).emitted.filter Frame.isNews

/-- The room that the value names is the one of the client, which is still connected there. -/
def inRoom (n : Node) (id : Str) (room : Value) : Bool :=
  match n.clientsById.get? id with
  | some c => decide (room.str? = some c.room) &&
      ((n.member? c.room id).map Member.connected).getD false
  | none => false

/-- The items of a gossip request that are accepted: those before the first one that raises. -/
def itemsAcceptedFrom (env : Env) (now : ℤ) : Node → List Value → List Submission
  | _, [] => []
  | n, item :: items =>
    match n.receiveItem env item now with
    | (n', none) => (itemSubmission env now item).toList ++ itemsAcceptedFrom env now n' items
    | (_, some _) => []

/-- The messages that an event accepts. -/
def Event.accepts (env : Env) (n : Node) : Event → List Submission
  | .gossip (some v) now => itemsAcceptedFrom env now n (gossipItems v)
  | a => (a.completed env n).toList

/-- The acknowledgement of an event for the client. -/
def Event.ackFor (env : Env) (id : Str) (n : Node) (a : Event) : List Frame :=
  match a with
  | .frame id' (.dict data) _ uuid =>
    if id' = id ∧ n.alive id = true ∧ (a.completed env n).isSome then
      [.delivered (frameId env data uuid)]
    else []
  | _ => []

/-- What an event means for the client: the accepted messages of its room, and the
acknowledgement. -/
def Event.newsFor (env : Env) (id : Str) (n : Node) (a : Event) : List Frame :=
  ((a.accepts env n).filter fun s ↦ n.inRoom id s.room).map (fun s ↦ .message s.told) ++
    a.ackFor env id n

/-! ## Who is told

A broadcast goes to the members of a room who are connected, and the record of a client says the
same as the member records (`Housed`). -/

theorem inRoom_iff (n : Node) (room : Value) : n.inRoom id room = true ↔
    ∃ c m, n.clientsById.get? id = some c ∧ room = .str c.room ∧ n.member? c.room id = some m ∧
      m.connected = true := by
  rw [inRoom]
  cases hc : n.clientsById.get? id with
  | none => simp
  | some c => cases hm : n.member? c.room id <;> simp [hm, Value.str?_eq_some_iff]

/-- Who is reached by a broadcast is in the room. -/
theorem wayToRoom_isSome_iff (hn : Housed n) (r : Str) :
    (n.wayToRoom r none id).isSome = n.inRoom id (.str r) := by
  refine Bool.eq_iff_iff.mpr ?_
  rw [inRoom_iff]
  constructor
  · intro h
    obtain ⟨m, hmember, hconnected, -⟩ := wayToRoom_isSome h
    obtain ⟨p, hp, rfl, -⟩ := hn.client r id m hmember
    obtain ⟨c, hc, rfl⟩ := Option.map_eq_some_iff.mp hp
    exact ⟨c, m, hc, rfl, hmember, hconnected⟩
  · rintro ⟨c, m, hc, hr, hm, hconnected⟩
    obtain rfl := Value.str.inj hr
    rw [wayToRoom, show (n.rooms.get? c.room).bind _ = some m from hm]
    simp [hconnected]

/-! ## News of a step

Most of what a step emits are no news.  That is read off the causes: a `message` frame has a
submission for its cause, and a `delivered` frame a message of the client. -/

theorem news_deliver (n : Node) (way : Str → Option Bool) (f : Frame) :
    (n.deliver way f).news id =
      n.news id ++ if (way id).isSome && f.isNews then [f] else [] := by
  rw [news, news]
  cases hway : way id with
  | none => rw [links_deliver_of_none n f hway]; simp
  | some hasQueue =>
    rw [links_deliver_of_some n f hway, emitted_accept, List.filter_append]
    cases hf : f.isNews <;> simp [hf]

theorem news_of_emits {P : Str → Frame → Prop} (h : Emits P n n')
    (hP : ∀ f, P id f → f.isNews = false) : n'.news id = n.news id := by
  obtain ⟨fs, hfs, hall⟩ := h.emitted id
  have hnone : fs.filter Frame.isNews = [] :=
    List.filter_eq_nil_iff.mpr fun f hf ↦ by simp [hP f (hall f hf)]
  rw [news, hfs, List.filter_append, hnone, List.append_nil]
  rfl

/-- Where no message is submitted, there are no news. -/
theorem news_of_cause {a : Event} (h : Emits (Cause env n a) n n') (hs : a.submissions env n = [])
    (hcompleted : a.completed env n = none) : n'.news id = n.news id := by
  refine news_of_emits h fun f hf ↦ ?_
  cases hf with
  | message hmem => simp [hs] at hmem
  | delivered _ hsome => simp [hcompleted] at hsome
  | _ => rfl

theorem news_told (hn : Housed n) (room : Value) (msg : Obj) :
    (n.told room (.message msg)).news id =
      n.news id ++ if n.inRoom id room then [.message msg] else [] := by
  cases room with
  | str r =>
    rw [told, broadcast, news_deliver, wayToRoom_isSome_iff hn]
    simp [Frame.isNews]
  | _ =>
    have hnot : ∀ v : Value, v.str? = none → n.inRoom id v = false := by
      intro v hv
      rw [Bool.eq_false_iff, ne_eq, inRoom_iff]
      rintro ⟨c, m, -, rfl, -⟩
      simp [Value.str?] at hv
    show n.news id = _
    rw [hnot _ rfl]
    simp

/-- The same for a message that has just been stored. -/
theorem news_told_withStore (hn : Housed n) (store : Store) (room : Value) (msg : Obj) :
    (({ n with store := store } : Node).told room (.message msg)).news id =
      n.news id ++ if n.inRoom id room then [.message msg] else [] :=
  news_told (n := { n with store := store }) (hn.of_samePlaces ⟨rfl, rfl⟩) room msg

theorem news_send (n : Node) (id' : Str) (f : Frame) :
    (n.send id' f).news id =
      n.news id ++ if id' = id ∧ n.alive id = true then [f].filter Frame.isNews else [] := by
  rw [send, news_deliver, wayTo]
  by_cases hid : id = id'
  · subst hid
    cases n.alive id <;> cases hf : f.isNews <;> simp [hf]
  · simp [hid, Ne.symm hid]

theorem inRoom_of_samePlaces (h : SamePlaces n n') : n'.inRoom = n.inRoom := by
  funext id room
  rw [Bool.eq_iff_iff, inRoom_iff, inRoom_iff, h.member]
  have hplace := congrFun h.place id
  rw [placeOf, placeOf] at hplace
  constructor
  · rintro ⟨c, m, hc, rfl, hm⟩
    rw [hc] at hplace
    obtain ⟨c', hc', hsame⟩ := Option.map_eq_some_iff.mp hplace.symm
    have hroom : c'.room = c.room := congrArg Place.room hsame
    exact ⟨c', m, hc', by rw [hroom], hroom ▸ hm⟩
  · rintro ⟨c, m, hc, rfl, hm⟩
    rw [hc] at hplace
    obtain ⟨c', hc', hsame⟩ := Option.map_eq_some_iff.mp hplace
    have hroom : c'.room = c.room := congrArg Place.room hsame
    exact ⟨c', m, hc', by rw [hroom], hroom ▸ hm⟩

theorem alive_noteActivity (n : Node) (id' : Str) (c : Client) (now : ℤ) (id : Str) :
    (n.noteActivity id' c now).alive id = n.alive id := by
  have hget : (n.noteActivity id' c now).clientsById.get? id =
      (n.clientsById.get? id).map fun c ↦ if id = id' then c.activeAt now else c := by
    rw [noteActivity]
    split <;> exact get?_updateClient n id' id _
  rw [alive, alive, hget, Option.map_map]
  congr 2
  funext c
  by_cases hid : id = id' <;> simp [hid, Client.activeAt]

/-! ## Frames

The frame of a client may end its connection, before or after its message has been told. -/

theorem newsFor_of_not_completed {a : Event} (hgossip : ∀ v now, a ≠ .gossip (some v) now)
    (h : a.completed env n = none) : a.newsFor env id n = [] := by
  have haccepts : a.accepts env n = [] := by
    cases a with
    | gossip data now =>
      cases data with
      | none => rfl
      | some v => exact absurd rfl (hgossip v now)
    | _ => exact congrArg Option.toList h
  have hack : a.ackFor env id n = [] := by
    cases a with
    | frame id' data now uuid =>
      cases data with
      | dict data =>
        rw [Event.ackFor, if_neg]
        rw [h]
        simp
      | _ => rfl
    | _ => rfl
  rw [Event.newsFor, haccepts, hack]
  rfl

theorem dispatch_of_message {c : Client} {data : Obj} {now : ℤ} {uuid : Str}
    (h : data.get "type" = .str (lit "message")) :
    n.dispatch env c data now uuid = some (n.handleMessage env c data now uuid) := by
  rw [dispatch, h]
  rfl

/-- A message that is handled is told to the room and acknowledged. -/
theorem news_handleMessage (hn : Housed n) {c : Client} {data : Obj} {now : ℤ} {uuid : Str}
    (htype : data.get "type" = .str (lit "message")) :
    (afterHandler env c.id (n.handleMessage env c data now uuid)).news id = n.news id ++
      (((completedFrame env c data now uuid).toList.filter fun s ↦ n.inRoom id s.room).map
        (fun s ↦ .message s.told) ++
      if c.id = id ∧ n.alive id = true ∧ (completedFrame env c data now uuid).isSome then
        [.delivered (frameId env data uuid)] else []) := by
  have hclosed : ∀ e, (afterHandler env c.id (n, some e)).news id = n.news id := fun e ↦
    news_of_emits (P := fun _ f ↦ f.isNews = false)
      (.closeConnection n c.id fun _ _ _ _ _ _ _ ↦ rfl) fun _ hf ↦ hf
  rw [completedFrame, if_pos (by rw [htype]; rfl)]
  rcases handleMessage_outcome env n c data now uuid with
    ⟨hs, e, h⟩ | ⟨s, job, hs, hroom, -, ⟨e, hput, h⟩ | ⟨store, hput, h⟩⟩ <;> rw [h, hs]
  · cases e with
    | none => simp [afterHandler]
    | some e => simp [hclosed]
  · have hfiled : filed env now s = false := filed_of_cachePut_error hput
    simp [hclosed, Option.filter_some, hfiled]
  · have hfiled : filed env now s = true := filed_of_cachePut hput
    show ((({ n with store := store } : Node).told (.str c.room) (.message s.told)).send c.id
      (.delivered (frameId env data uuid))).news id = _
    have halive : (({ n with store := store } : Node).told (.str c.room)
      (.message s.told)).alive id = n.alive id := rfl
    rw [news_send, news_told_withStore hn, halive, List.append_assoc, Option.filter_some,
      if_pos hfiled, Option.toList_some, ← hroom]
    congr 1
    show _ ++ (if _ then [Frame.delivered (frameId env data uuid)] else []) = _
    cases hin : n.inRoom id s.room <;> simp [hin]

theorem news_receive (hn : Housed n) {id' : Str} {data : Value} {now : ℤ} {uuid : Str}
    (h : n.receive env id' data now uuid = some n') : n'.news id = n.news id ++
      (Event.frame id' data now uuid).newsFor env id n := by
  by_cases hmessage : ∃ fields, data = .dict fields ∧ Obj.get fields "type" = .str (lit "message")
  · obtain ⟨fields, rfl, htype⟩ := hmessage
    obtain ⟨c, hc, rfl, -, ⟨_, r, hfields, hr, rfl⟩ | ⟨hdict, -⟩⟩ := receive_cases hn h
    · cases hfields
      rw [dispatch_of_message htype] at hr
      obtain rfl := Option.some.inj hr
      have hplaces := SamePlaces.noteActivity n c.id c now
      have hactive : (n.noteActivity c.id c now).news id = n.news id :=
        news_of_emits (P := fun _ f ↦ f.isNews = false)
          (.noteActivity n c.id c now fun _ _ ↦ rfl) fun _ hf ↦ hf
      have hcompleted : (Event.frame c.id (.dict fields) now uuid).completed env n =
          completedFrame env c fields now uuid := by
        rw [Event.completed, hc, Option.bind_some]
      show (afterHandler env (c.activeAt now).id _).news id = _
      rw [news_handleMessage (hn.of_samePlaces hplaces) htype, hactive,
        inRoom_of_samePlaces hplaces, alive_noteActivity, Event.newsFor, Event.ackFor, hcompleted]
      show _ = n.news id ++
        ((((Event.frame c.id (.dict fields) now uuid).completed env n).toList.filter _).map _ ++ _)
      rw [hcompleted]
      rfl
    · exact absurd rfl (hdict fields)
  · have hsubmissions : (Event.frame id' data now uuid).submissions env n = [] := by
      cases data with
      | dict fields =>
        rw [Event.submissions, if_neg]
        exact fun htype ↦ hmessage ⟨fields, rfl, Value.str?_eq_some_iff.mp htype⟩
      | _ => rfl
    have hcompleted : (Event.frame id' data now uuid).completed env n = none := by
      cases data with
      | dict fields =>
        rw [Event.completed]
        refine Option.bind_eq_none_iff.mpr fun c hc ↦ ?_
        rw [completedFrame, if_neg]
        exact fun htype ↦ hmessage ⟨fields, rfl, Value.str?_eq_some_iff.mp htype⟩
      | _ => rfl
    rw [newsFor_of_not_completed (by simp) hcompleted, List.append_nil]
    exact news_of_cause (.receive hn h) hsubmissions hcompleted

/-! ## Requests

A request may raise where it tells the message, and then nobody has been told. -/

/-- A broadcast that returns is told to the room; one that raises is told to nobody. -/
theorem news_tryBroadcast (hn : Housed n) (store : Store) (room : Value) (msg : Obj) :
    (({ n with store := store } : Node).tryBroadcast room (.message msg)).1.news id = n.news id ++
      if (n.tryBroadcast room (.message msg)).2.isNone ∧ n.inRoom id room = true then
        [.message msg] else [] := by
  have hsnd := snd_tryBroadcast_withStore n store room (.message msg)
  rcases tryBroadcast_cases { n with store := store } room (.message msg) with
    ⟨h, -⟩ | ⟨h, -⟩ <;> rw [h] at hsnd ⊢ <;> rw [← hsnd]
  · rw [news_told_withStore hn]
    simp
  · show n.news id = _
    simp

theorem news_postMessage (hn : Housed n) (body : Body) (query : Obj) (now : ℤ) (uuid : Str) :
    (n.postMessage env body query now uuid).1.news id = n.news id ++
      (Event.post body query now uuid).newsFor env id n := by
  have hgossip : ∀ v now', Event.post body query now uuid ≠ .gossip (some v) now' := by simp
  cases hs : postSubmission env body query now uuid with
  | none =>
    have hcompleted : (Event.post body query now uuid).completed env n = none := by
      rw [Event.completed, completedPost, hs]
      rfl
    rw [newsFor_of_not_completed hgossip hcompleted, List.append_nil]
    rcases postMessage_spec env n body query now uuid with h | ⟨s, hs', -⟩
    · rw [h]
    · simp [hs] at hs'
  | some s =>
    obtain ⟨data, hdata, htext, rfl⟩ := text_of_postSubmission hs
    have hpost := @postMessage_of_text env n body query data now uuid hdata htext
    generalize textSubmission env data query now uuid = s at hs hpost
    have hcompleted : (Event.post body query now uuid).completed env n =
        if filed env now s && (n.tryBroadcast s.room (.message s.told)).2.isNone then some s
        else none := by
      rw [Event.completed, completedPost, hs, Option.filter_some]
    rcases hpost with ⟨e, hput, h⟩ | ⟨store, hput, htold⟩
    · have hnone : (Event.post body query now uuid).completed env n = none := by
        rw [hcompleted, if_neg (by simp [filed_of_cachePut_error hput])]
      rw [newsFor_of_not_completed hgossip hnone, List.append_nil, h]
    · have hnews : (n.postMessage env body query now uuid).1.news id =
          (({ n with store := store } : Node).tryBroadcast s.room (.message s.told)).1.news id := by
        rcases htold with ⟨n₁, e, hn₁, h⟩ | ⟨n₁, j, hn₁, -, h⟩
        · rw [hn₁, h]
        · rw [hn₁, h]
          rfl
      have hfor : (Event.post body query now uuid).newsFor env id n =
          (((Event.post body query now uuid).completed env n).toList.filter fun s ↦
            n.inRoom id s.room).map fun s ↦ .message s.told := List.append_nil _
      rw [hnews, news_tryBroadcast hn, hfor, hcompleted, filed_of_cachePut hput, Bool.true_and]
      cases (n.tryBroadcast s.room (.message s.told)).2 <;> cases hin : n.inRoom id s.room <;>
        simp [hin]

/-! ## Gossip

The items are accepted up to the first one that raises; the others are lost. -/

theorem news_receiveItem (hn : Housed n) (item : Value) (now : ℤ) :
    (n.receiveItem env item now).1.news id = n.news id ++
      if (n.receiveItem env item now).2.isNone then
        ((itemSubmission env now item).toList.filter fun s ↦ n.inRoom id s.room).map
          fun s ↦ .message s.told
      else [] := by
  rw [receiveItem, itemSubmission]
  cases hitem : gossipMessage env item now with
  | none => simp
  | some p =>
    obtain ⟨room, msg⟩ := p
    simp only
    cases hput : n.store.cachePut env.lib now room msg with
    | error e => simp
    | ok store =>
      simp only
      rw [news_tryBroadcast hn, snd_tryBroadcast_withStore n store]
      cases hin : n.inRoom id room <;> simp [hin]

theorem news_receiveItems (now : ℤ) (items : List Value) : ∀ {n : Node}, Housed n →
    (receiveItems env now n items).news id = n.news id ++
      ((itemsAcceptedFrom env now n items).filter fun s ↦ n.inRoom id s.room).map
        fun s ↦ .message s.told := by
  induction items with
  | nil =>
    intro n _
    simp [receiveItems, itemsAcceptedFrom]
  | cons item items ih =>
    intro n hn
    have hitem := @news_receiveItem env n id hn item now
    obtain ⟨hrooms, hclients⟩ := records_receiveItem env n item now
    rw [receiveItems, itemsAcceptedFrom]
    generalize n.receiveItem env item now = r at hitem hrooms hclients ⊢
    obtain ⟨n₁, _ | e⟩ := r
    · have hplaces : SamePlaces n n₁ := ⟨by funext _ _; rw [member?, member?, hrooms],
        by funext _; rw [placeOf, placeOf, hclients]⟩
      simp only at hitem ⊢
      rw [ih (hn.of_samePlaces hplaces), hitem, inRoom_of_samePlaces hplaces, List.filter_append,
        List.map_append, List.append_assoc]
      simp
    · simpa using hitem

/-! ## Steps and runs

The lemmas for single events are put together, and a run collects what its steps have told. -/

/-- **What a step tells a client**: the accepted messages of its room, and that its own message has
been delivered. -/
theorem news_step {a : Event} (hn : Housed n) (haway : AwayOnly n) (h : n.step env a = some n')
    (hconnect : ¬ a.Connects id) : n'.news id = n.news id ++ a.newsFor env id n := by
  -- an event that submits nothing brings no news
  have hnothing : (∀ v now, a ≠ .gossip (some v) now) → a.submissions env n = [] →
      a.completed env n = none → n'.news id = n.news id ++ a.newsFor env id n := by
    intro hgossip hs hcompleted
    rw [newsFor_of_not_completed hgossip hcompleted, List.append_nil]
    rcases emits_step hn haway h with ⟨id', queryParams, now, rfl, -, hothers, -⟩ | hemits
    · have hid : id ≠ id' := fun hid ↦ hconnect ⟨queryParams, now, hid ▸ rfl⟩
      rw [news, hothers id hid]
      rfl
    · exact news_of_cause hemits hs hcompleted
  cases a with
  | frame id' data now uuid => exact news_receive hn h
  | post body query now uuid =>
    obtain rfl := Option.some.inj h
    exact news_postMessage hn body query now uuid
  | gossip data now =>
    cases data with
    | none => exact hnothing (by simp) rfl rfl
    | some v =>
      obtain rfl := Option.some.inj h
      show (receiveItems env now n (gossipItems v)).news id = _
      rw [news_receiveItems now _ hn, Event.newsFor]
      exact congrArg (n.news id ++ ·) (List.append_nil _).symm
  | _ => exact hnothing (by simp) rfl rfl

/-- **What a client is told in a run**: for as long as its connection lasts, the `message` and
`delivered` frames that are emitted to it are those of the events, in their order. -/
theorem news_eq_collect {l : List Event} (hn : (system env).Reachable n)
    (h : (system env).Trace n l n') (hl : ∀ a ∈ l, ¬ a.Connects id) :
    n'.news id = n.news id ++ System.collect (step env) (fun n a ↦ a.newsFor env id n) n l := by
  refine h.eq_append_collect (m := fun n ↦ n.news id) (w := fun n a ↦ a.newsFor env id n)
    fun t a t' ht ha hstep ↦ ?_
  have hreach := hn.run ht
  exact news_step (housed_of_reachable hreach) (awayOnly_of_reachable hreach) hstep (hl a ha)

/-- Alice has joined and says something. -/
def aliceSays : List Event :=
  [.frame (lit "1") (.dict [("type", .str (lit "message")), ("text", .str (lit "hi")),
    ("id", .str (lit "m1"))]) 0 (lit "u"), postEvent (lit "m2") (lit "hello")]

theorem news_aliceSays : ∃ n n', (system plainEnv).Reachable n ∧
    (system plainEnv).Trace n aliceSays n' ∧ (n'.news (lit "1")).length = 3 ∧
      n'.news (lit "1") = n.news (lit "1") ++ System.collect (step plainEnv)
        (fun n a ↦ a.newsFor plainEnv (lit "1") n) n aliceSays := by
  have hexec : (System.exec (step plainEnv) (initial plainEnv)
      (enterRun (lit "1") (lit "Alice"))).bind (fun n ↦
        (System.exec (step plainEnv) n aliceSays).map fun n' ↦ (n'.news (lit "1")).length) =
          some 3 := by
    decide +kernel
  obtain ⟨n, hn, hexec⟩ := Option.bind_eq_some_iff.mp hexec
  obtain ⟨n', hn', hlength⟩ := Option.map_eq_some_iff.mp hexec
  have hreach : (system plainEnv).Reachable n := System.reachable_of_exec rfl hn
  have htrace : (system plainEnv).Trace n aliceSays n' := System.trace_of_exec hn'
  have hstays : ∀ a ∈ aliceSays, ¬ a.Connects (lit "1") := by
    rintro a ha ⟨queryParams, now, rfl⟩
    simp [aliceSays, postEvent] at ha
  exact ⟨n, n', hreach, htrace, hlength, news_eq_collect hreach htrace hstays⟩

end Node
end GroupChat
