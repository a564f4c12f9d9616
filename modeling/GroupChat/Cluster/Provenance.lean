import GroupChat.Cluster.Convergence
import GroupChat.Server.Causes

/-!
# Where messages come from

What a node shows has come to it as a request, as a frame or as a row of the database, or it has
been told by another node; and it may have waited in the executor in between.  Whatever the way, it
says what somebody has said.

* `Entry.Says`: an entry says what a message says.  The time is the one of the message, unless it
  has none.  `Retells`: one message is what a node makes of another one that it has been told.
* `Cluster.Origin` are the events that an entry can come from: a message that some node has handled
  to the end, a call of `_cache_put` on the node itself that is not a job of the executor, or a
  private message that a client of the node has sent.  `Cluster.Source` are the events that a
  message frame can come from.
* `Cluster.entry_occurs` and `Cluster.message_occurs`: in every run, every entry of every node, and
  every message that a client of a node is sent, comes from such an event.
-/

set_option autoImplicit false

namespace GroupChat

open Transition

/-! ## What an entry says

An entry has been cut and completed, and a message may have been told by another node in between.
What is compared is the id, the sender, the text and the room, each of them as it is after the
cuts. -/

/-- The entry says what a message says that is filed under a room.  A message without a time, or
with the time 0, is given one. -/
structure Entry.Says (L : PyLib) (e : Entry) (roomId : Value) (msg : Obj) : Prop where
  id : e.id = msg.get "id"
  username : e.username = compactUser L msg
  text : e.text = compactText L msg
  room : e.room = compactRoom L roomId msg
  timestamp : ∀ ts, msg.get "timestamp" = .int ts → ts ≠ 0 → e.timestamp = ts

section Says

variable {L : PyLib} {now ts : ℤ} {e : Entry} {roomId id : Value} {msg : Obj}
  {username text : Str}

theorem says_of_compactMsg (h : compactMsg L now roomId msg = .ok (some e)) :
    e.Says L roomId msg := by
  obtain ⟨-, hid, husername, htext, hroom⟩ := eq_of_compactMsg h
  refine ⟨hid, husername, htext, hroom, fun ts hts hne ↦ ?_⟩
  have htime := timestamp_of_compactMsg h
  rw [hts, Value.or_of_truthy (by simpa [Value.truthy] using hne)] at htime
  exact (Except.ok.inj htime).symm

theorem compactUser_fullMessage (L : PyLib) (id text room timestamp : Value) (username : Str) :
    compactUser L (fullMessage id (.str username) text room timestamp) =
      (orAnonymous username).take 100 := by
  cases username <;> rfl

/-- The same message again, but that an empty name may have been replaced. -/
def Retells (msg' msg : Obj) : Prop :=
  ∃ id username username' text room ts, orAnonymous username' = orAnonymous username ∧
    msg' = fullMessage id (.str username') (.str text) room (.int ts) ∧
      msg = fullMessage id (.str username) (.str text) room (.int ts)

theorem Entry.Says.of_retells {msg' : Obj} (h : e.Says L roomId msg') (hmsg : Retells msg' msg) :
    e.Says L roomId msg := by
  obtain ⟨id, username, username', text, room, ts, hname, rfl, rfl⟩ := hmsg
  refine ⟨h.id, ?_, h.text, h.room, h.timestamp⟩
  rw [h.username, compactUser_fullMessage, compactUser_fullMessage, hname]

/-- The message of a document is one. -/
theorem Entry.Says.of_cachedMsg {d : Doc} (hid : d.id = id) (hroom : d.roomId = roomId)
    (hsender : d.sender = orAnonymous username) (htext : d.textPlain = text)
    (hts : d.timestamp = .int ts) (h : e.Says L d.roomId (cachedMsg d)) :
    e.Says L roomId (fullMessage id (.str username) (.str text) roomId (.int ts)) := by
  obtain ⟨id', roomId', sender, text', ciphertext, nonce, signature, timestamp⟩ := d
  obtain rfl : id' = id := hid
  obtain rfl : roomId' = roomId := hroom
  obtain rfl : sender = orAnonymous username := hsender
  obtain rfl : text' = text := htext
  obtain rfl : timestamp = .int ts := hts
  have h' : e.Says L roomId' (fullMessage id' (.str (orAnonymous username)) (.str text') roomId'
      (.int ts)) := ⟨h.id, h.username, h.text, h.room, h.timestamp⟩
  exact h'.of_retells ⟨_, _, _, _, _, _, Node.orAnonymous_orAnonymous username, rfl, rfl⟩

end Says

/-- The entry says what a job says that stores a message. -/
def Job.Says (L : PyLib) (e : Entry) : Job → Prop
  | .append roomId msg _ => ∃ timestamp, e.Says L roomId
      (fullMessage (msg.get "id") (messageSender msg) (messageText msg) roomId timestamp)
  | .saveUserPublicKey _ _ => False

/-! ## Steps of a node

Everything new in a state has a reason in the step: an entry a call, a job an event, a publication
a message that was handled to the end.  These lemmas turn that round, from the thing to its
reason. -/

/-- An entry that is new after some calls is made by one of them. -/
theorem FeedCache.mem_calls {L : PyLib} {puts : List PutCall} {e : Entry} : ∀ {c : FeedCache},
    e ∈ (puts.foldl (·.call L) c).globalMsgCache →
      e ∈ c.globalMsgCache ∨ ∃ p ∈ puts, p.entry? L = some e := by
  induction puts with
  | nil => exact fun h ↦ Or.inl h
  | cons p puts ih =>
    intro c h
    rcases ih h with h | ⟨q, hq, he⟩
    · rcases FeedCache.mem_call h with h | ⟨he, -⟩
      · exact Or.inl h
      · exact Or.inr ⟨p, List.mem_cons_self, he⟩
    · exact Or.inr ⟨q, List.mem_cons_of_mem p hq, he⟩

namespace Node

variable {env : Env} {n n' : Node} {s : Submission} {e : Entry} {b : Event}

theorem job_of_step (h : n.step env b = some n') {job : Job} (hjob : job ∈ n'.jobs) :
    job ∈ n.jobs ∨ b.job env n = some job := by
  by_cases hrun : ∃ k now nonce, b = .runJob k now nonce
  · obtain ⟨k, now, nonce, rfl⟩ := hrun
    obtain ⟨job', -, hjobs, -⟩ := runJob_spec h
    exact Or.inl (List.mem_of_mem_eraseIdx (hjobs ▸ hjob))
  · rw [(leaves_step h fun k now nonce heq ↦ hrun ⟨k, now, nonce, heq⟩).jobs] at hjob
    exact (List.mem_append.mp hjob).imp_right Option.mem_toList.mp

theorem publication_of_step (h : n.step env b = some n') {p : Value × Obj}
    (hp : p ∈ n'.published) :
    p ∈ n.published ∨ ∃ s, b.completed env n = some s ∧ p = (s.room, s.told) := by
  by_cases hrun : ∃ k now nonce, b = .runJob k now nonce
  · obtain ⟨k, now, nonce, rfl⟩ := hrun
    obtain ⟨job', -, -, hpublished, -⟩ := runJob_spec h
    exact Or.inl (hpublished ▸ hp)
  · rw [(leaves_step h fun k now nonce heq ↦ hrun ⟨k, now, nonce, heq⟩).published] at hp
    refine (List.mem_append.mp hp).imp_right fun hp ↦ ?_
    obtain ⟨s, hs, rfl⟩ := Option.map_eq_some_iff.mp (Option.mem_toList.mp hp)
    exact ⟨s, hs, rfl⟩

/-- A message that is new on a link has been submitted with the step. -/
theorem message_of_step (hn : (system env).Reachable n) (h : n.step env b = some n') {id : Str}
    {msg : Obj} (hf : Frame.message msg ∈ (n'.links id).emitted) :
    Frame.message msg ∈ (n.links id).emitted ∨ ∃ s ∈ b.submissions env n, msg = s.told := by
  rcases emits_step (housed_of_reachable hn) (awayOnly_of_reachable hn) h with
    ⟨id', queryParams, now, -, hnew, hothers, -⟩ | hemits
  · by_cases hid : id = id'
    · rw [hid, hnew] at hf
      exact absurd hf List.not_mem_nil
    · exact Or.inl (hothers id hid ▸ hf)
  · obtain ⟨fs, hfs, hcause⟩ := hemits.emitted id
    rw [hfs] at hf
    refine (List.mem_append.mp hf).imp_right fun hf ↦ ?_
    cases hcause _ hf with
    | message hs hroom hm hconnected => exact ⟨_, hs, rfl⟩

/-- The job of a message says what the message says. -/
theorem Submission.Has.says_cached {id room : Value} {username text : Str} {ts : ℤ}
    (h : s.Has id room username text ts) {st : Store} {now : ℤ} {nonce : Bytes}
    {roomId : Value} {msg : Obj} {key : Option PrivateKey} {d : Doc}
    (hjob : s.job = some (.append roomId msg key))
    (hd : Store.appended env.lib env.keyring st now nonce roomId msg key = some d)
    (he : e.Says env.lib d.roomId (cachedMsg d)) : e.Says env.lib s.room s.cached := by
  obtain ⟨msg', key', hjob', hid, hsender, htext, hts⟩ := h.job
  obtain ⟨rfl, rfl, rfl⟩ : room = roomId ∧ msg' = msg ∧ key' = key := by
    simpa using hjob'.symm.trans hjob
  obtain ⟨hdid, hdroom, hdsender, hdtext, hdts⟩ := appended_spec hd
  rw [h.room_eq, h.cached_eq]
  exact he.of_cachedMsg (hdid.trans hid) hdroom (Value.str.inj (hdsender.symm.trans hsender))
    (Value.str.inj (hdtext.symm.trans htext)) (hdts.trans (hts _))

end Node

namespace Cluster

variable {ι : Type*} [DecidableEq ι] {D : Deployment ι} {s s' : Cluster ι} {i j : ι} {e : Entry}
  {l : List (Event ι)}

/-! ## Steps of the cluster

A step of the cluster is, for one node, nothing or an event of this node.  So the lemmas about
nodes say what a run of the cluster has brought to each of them. -/

/-- The event of a node that the arrival of a batch is. -/
def arrival (batch : List (GossipItem ι)) (now : ℤ) : Node.Event :=
  .gossip (some (requestBody (batch.map GossipItem.payload))) now

/-- What a step of the cluster is for one of the nodes: nothing, an event of the node, or the
arrival of a batch. -/
theorem step_node (hlined : Lined D s) {a : Event ι} (h : s.step D a = some s') (j : ι) :
    s'.node j = s.node j ∨
      (∃ b, a = .node j b ∧ (s.node j).step (D.env j) b = some (s'.node j)) ∨
      ∃ i peer k now batch line, a = .deliver i peer k now ∧
        (s.line i peer).deliver k = some (batch, line) ∧
        (s.node j).step (D.env j) (arrival batch now) = some (s'.node j) ∧
        Node.Leaves (D.env j) (s.node j) (s'.node j) (batchPuts D s j now batch) none none := by
  rcases step_cases h with ⟨i, b, n, rfl, hn, rfl⟩ | ⟨i, peer, line, -, rfl⟩ |
    ⟨i, peer, k, now, j', batch, line, rfl, -, hline, rfl⟩
  · rw [node_advance, Function.update_apply]
    split
    · rename_i hji
      subst hji
      exact Or.inr (Or.inl ⟨b, rfl, hn⟩)
    · exact Or.inl rfl
  · exact Or.inl rfl
  · simp only [receive, Function.update_apply]
    split
    · rename_i hjj
      subst hjj
      exact Or.inr (Or.inr ⟨i, peer, k, now, batch, line, rfl, hline,
        rfl, leaves_receive hlined now hline j⟩)
    · exact Or.inl rfl

/-! ## Jobs and publications

These two are what may lie between an event and an entry: a job waits in the executor of its own
node, a publication in the queues of the others. -/

/-- A job comes from an event of its node. -/
theorem job_occurs (h : (system D).Trace (initial D) l s) {job : Job}
    (hjob : job ∈ (s.node j).jobs) : (system D).Occurs (fun s a ↦
      ∃ b, a = .node j b ∧ b.job (D.env j) (s.node j) = some job) (initial D) l := by
  refine h.occurs (Q := fun s job ↦ job ∈ (s.node j).jobs) (P := fun job s a ↦
    ∃ b, a = .node j b ∧ b.job (D.env j) (s.node j) = some job) ?_ ?_ hjob
  · intro job hjob
    rw [show ((initial D).node j).jobs = [] from (Node.Idle.initial (D.env j)).jobs] at hjob
    exact List.not_mem_nil hjob
  · intro l s a s' hl hstep job hjob
    rcases step_node (lined_of_reachable (hl.reachable rfl)) hstep j with
      hsame | ⟨b, rfl, hb⟩ | ⟨i, peer, k, now, batch, line, -, -, -, hleft⟩
    · exact Or.inl (hsame ▸ hjob)
    · rcases Node.job_of_step hb hjob with hjob | hjob
      · exact Or.inl hjob
      · exact Or.inr (hl.occurs_last hstep ⟨b, rfl, hjob⟩)
    · rw [hleft.jobs, Option.toList_none, List.append_nil] at hjob
      exact Or.inl hjob

/-- A publication comes from a message that its node has handled to the end. -/
theorem publication_occurs (h : (system D).Trace (initial D) l s) {p : Value × Obj}
    (hp : p ∈ (s.node i).published) : (system D).Occurs (fun s a ↦
      ∃ b sub, a = .node i b ∧ b.completed (D.env i) (s.node i) = some sub ∧
        p = (sub.room, sub.told)) (initial D) l := by
  refine h.occurs (Q := fun s p ↦ p ∈ (s.node i).published) (P := fun p s a ↦
    ∃ b sub, a = .node i b ∧ b.completed (D.env i) (s.node i) = some sub ∧
      p = (sub.room, sub.told)) ?_ ?_ hp
  · intro p hp
    rw [show ((initial D).node i).published = [] from
      (Node.Idle.initial (D.env i)).published] at hp
    exact List.not_mem_nil hp
  · intro l s a s' hl hstep p hp
    rcases step_node (lined_of_reachable (hl.reachable rfl)) hstep i with
      hsame | ⟨b, rfl, hb⟩ | ⟨j, peer, k, now, batch, line, -, -, -, hleft⟩
    · exact Or.inl (hsame ▸ hp)
    · rcases Node.publication_of_step hb hp with hp | ⟨sub, hsub, hp⟩
      · exact Or.inl hp
      · exact Or.inr (hl.occurs_last hstep ⟨b, sub, rfl, hsub, hp⟩)
    · rw [hleft.published, Option.map_none, Option.toList_none, List.append_nil] at hp
      exact Or.inl hp

/-! ## The origin of an entry

Going back from an entry, one comes to a call, from there to a job or to an item of gossip, and
from the item to a publication of another node.  This ends because each of them is earlier in the
run than what it explains. -/

/-- An event that an entry of a node can come from. -/
inductive Origin (D : Deployment ι) (s : Cluster ι) (j : ι) (e : Entry) : Event ι → Prop
  /-- Some node handles a message to the end. -/
  | accepted {i : ι} {b : Node.Event} {sub : Node.Submission}
      (hsub : b.completed (D.env i) (s.node i) = some sub)
      (htold : e.Says D.lib sub.room sub.cached) : Origin D s j e (.node i b)
  /-- The node files a message of a request, of a frame or of the database. -/
  | filed {b : Node.Event} {p : PutCall} (hb : ∀ k now nonce, b ≠ .runJob k now nonce)
      (hp : p ∈ b.puts (D.env j) (s.node j)) (he : p.entry? D.lib = some e) :
      Origin D s j e (.node j b)
  /-- A client of the node sends a private message. -/
  | whispered {b : Node.Event} {job : Job} (hnone : b.completed (D.env j) (s.node j) = none)
      (hjob : b.job (D.env j) (s.node j) = some job) (htold : job.Says D.lib e) :
      Origin D s j e (.node j b)

omit [DecidableEq ι] in
/-- What a node makes of a message of another one. -/
theorem retells_of_gossip {sub : Node.Submission} {now now' : ℤ} {serverId : Str} {room : Value}
    {msg : Obj} (hsub : Node.Accepts (D.env i) now sub) (hroom : Node.ProperRoom sub.room)
    (hmsg : Node.gossipMessage (D.env j) (gossipPayload serverId sub.room sub.told) now' =
      some (room, msg)) : room = sub.room ∧ Retells msg sub.cached := by
  obtain ⟨id, room', username, text, ts, htells, hcached, -⟩ := Node.tells_of_accepts hsub
  obtain rfl : sub.room = room' := htells.1
  have hid : serverId ≠ (D.env j).config.serverId := by
    rintro rfl
    rw [gossipMessage_own] at hmsg
    simp at hmsg
  obtain ⟨username', hname, hmsg'⟩ := gossipMessage_of_tells (D.env j) now' htells hroom.truthy hid
  obtain ⟨rfl, rfl⟩ := Prod.mk.inj (Option.some.inj (hmsg.symm.trans hmsg'))
  exact ⟨rfl, _, _, _, _, _, _, hname, rfl, hcached⟩

/-- What a batch brings is what some node has handled to the end before. -/
theorem gossip_occurs (hdefault : (D.site i).config.defaultRoom ≠ [])
    (h : (system D).Trace (initial D) l s) {peer : Str} {k : ℕ} {now : ℤ}
    {batch : List (GossipItem ι)} {line : Line (GossipItem ι)}
    (hline : (s.line i peer).deliver k = some (batch, line)) {item : Value} {room : Value}
    {msg : Obj} (hitem : item ∈ batch.map GossipItem.payload)
    (hmsg : Node.gossipMessage (D.env j) item now = some (room, msg)) :
    (system D).Occurs (fun s a ↦ ∃ b sub, a = .node i b ∧
      b.completed (D.env i) (s.node i) = some sub ∧ room = sub.room ∧ Retells msg sub.cached)
        (initial D) l := by
  obtain ⟨x, hx, rfl⟩ := List.mem_map.mp hitem
  obtain ⟨-, horigin, q, hq, hx'⟩ := (lined_of_reachable (h.reachable rfl)).line i peer x
    (Line.subset_of_deliver hline hx)
  rw [horigin] at hq hx'
  rw [hx'] at hmsg
  refine (publication_occurs h (List.mem_of_getElem? hq)).imp ?_
  rintro s₁ _ hrun₁ ⟨b, sub, rfl, hsub, rfl⟩
  obtain ⟨now', haccepts, -, -, hroom⟩ :=
    Node.accepts_of_completed (reachable_node ⟨initial D, rfl, hrun₁⟩ i) hdefault hsub
  exact ⟨b, sub, rfl, hsub, retells_of_gossip haccepts hroom hmsg⟩

omit [DecidableEq ι] in
/-- What the executor files comes from the event that has made the job. -/
theorem origin_of_job (hdefault : (D.site j).config.defaultRoom ≠ [])
    (hn : (Node.system (D.env j)).Reachable (s.node j)) {b : Node.Event} {job : Job}
    (hjob : b.job (D.env j) (s.node j) = some job) {n : Node} {k : ℕ} {now : ℤ} {nonce : Bytes}
    (hk : n.jobs[k]? = some job) {p : PutCall}
    (hp : p ∈ (Node.Event.runJob k now nonce).puts (D.env j) n)
    (he : p.entry? D.lib = some e) : Origin D s j e (.node j b) := by
  rw [Node.Event.puts, Option.mem_toList] at hp
  obtain ⟨d, hd, rfl⟩ := Option.map_eq_some_iff.mp hp
  have htold := says_of_compactMsg (PutCall.entry?_eq_some_iff.mp he)
  rw [Node.jobDoc, hk] at hd
  cases job with
  | saveUserPublicKey username key => simp at hd
  | append roomId msg key =>
    cases hsub : b.completed (D.env j) (s.node j) with
    | some sub =>
      obtain ⟨now', haccepts, -, hjob', -⟩ := Node.accepts_of_completed hn hdefault hsub
      obtain ⟨id, room, username, text, ts, hhas⟩ := Node.has_of_accepts haccepts
      exact .accepted hsub (hhas.says_cached (hjob'.symm.trans hjob) hd htold)
    | none =>
      obtain ⟨hid, hroom, hsender, htext, hts⟩ := appended_spec hd
      refine .whispered hsub hjob ⟨d.timestamp, ?_⟩
      rw [← hid, hsender, htext, ← hroom]
      exact ⟨htold.id, htold.username, htold.text, htold.room, htold.timestamp⟩

/-- **No node makes up a message.**  In every run, with any loss, delay and repetition of gossip and
any order of the jobs, every entry of every node comes from an event of the run: some node has
handled a message to the end that says what the entry says, or the node itself has filed the entry
or taken the private message. -/
theorem entry_occurs (hdefault : ∀ i, (D.site i).config.defaultRoom ≠ [])
    (h : (system D).Trace (initial D) l s) (he : e ∈ s.entriesAt j) :
    ∃ l₁ a l₂ s₁ s₂, l = l₁ ++ a :: l₂ ∧ (system D).Trace (initial D) l₁ s₁ ∧
      s₁.step D a = some s₂ ∧ Origin D s₁ j e a := by
  refine h.occurs (Q := fun s e ↦ e ∈ s.entriesAt j) (P := fun e s a ↦ Origin D s j e a) ?_ ?_ he
  · intro e he
    rw [entriesAt, show ((initial D).node j).store.cache = _ from
      (Node.Idle.initial (D.env j)).cache] at he
    exact List.not_mem_nil he
  · intro l s a s' hl hstep e he
    rcases step_node (lined_of_reachable (hl.reachable rfl)) hstep j with
      hsame | ⟨b, rfl, hb⟩ | ⟨i, peer, k, now, batch, line, -, hline, -, hleft⟩
    · rw [entriesAt, hsame] at he
      exact Or.inl he
    · rw [entriesAt, Node.cache_step hb] at he
      rcases FeedCache.mem_calls he with hold | ⟨p, hp, hentry⟩
      · exact Or.inl hold
      · right
        by_cases hrun : ∃ k now nonce, b = .runJob k now nonce
        · obtain ⟨k, now, nonce, rfl⟩ := hrun
          obtain ⟨job, hjob, -⟩ := Node.runJob_spec hb
          refine ((job_occurs hl (List.mem_of_getElem? hjob)).imp ?_).concat _
          rintro s₁ _ hrun₁ ⟨b, rfl, hb⟩
          exact origin_of_job (hdefault j) (reachable_node ⟨initial D, rfl, hrun₁⟩ j) hb hjob hp
            hentry
        · exact hl.occurs_last hstep
            (.filed (fun k now nonce heq ↦ hrun ⟨k, now, nonce, heq⟩) hp hentry)
    · rw [entriesAt, hleft.cache] at he
      rcases FeedCache.mem_calls he with hold | ⟨p, hp, hentry⟩
      · exact Or.inl hold
      · right
        obtain ⟨item, hitem, room, msg, hmsg, rfl⟩ := mem_itemPuts hp
        refine ((gossip_occurs (hdefault i) hl hline hitem hmsg).imp ?_).concat a
        rintro s₁ _ hrun₁ ⟨b, sub, rfl, hsub, rfl, hretells⟩
        have htold := says_of_compactMsg (PutCall.entry?_eq_some_iff.mp hentry)
        exact .accepted hsub (htold.of_retells hretells)

/-! ## The source of a message frame

A frame is shorter to explain, since it is told in the same step in which its message is
accepted. -/

/-- An event that a message frame for a client of a node can come from. -/
inductive Source (D : Deployment ι) (s : Cluster ι) (j : ι) (msg : Obj) : Event ι → Prop
  /-- Some node handles the message to the end. -/
  | accepted {i : ι} {b : Node.Event} {sub : Node.Submission}
      (hsub : b.completed (D.env i) (s.node i) = some sub) (hmsg : Retells msg sub.cached) :
      Source D s j msg (.node i b)
  /-- The message comes to the node itself, in a request or a frame. -/
  | heard {b : Node.Event} {sub : Node.Submission}
      (hsub : sub ∈ b.submissions (D.env j) (s.node j)) (hmsg : msg = sub.told) :
      Source D s j msg (.node j b)

/-- **No message is made up on the way to a client.** -/
theorem message_occurs (hdefault : ∀ i, (D.site i).config.defaultRoom ≠ [])
    (h : (system D).Trace (initial D) l s) {id : Str} {msg : Obj}
    (hf : Frame.message msg ∈ ((s.node j).links id).emitted) :
    ∃ l₁ a l₂ s₁ s₂, l = l₁ ++ a :: l₂ ∧ (system D).Trace (initial D) l₁ s₁ ∧
      s₁.step D a = some s₂ ∧ Source D s₁ j msg a := by
  refine h.occurs (Q := fun s msg ↦ Frame.message msg ∈ ((s.node j).links id).emitted)
    (P := fun msg s a ↦ Source D s j msg a) ?_ ?_ hf
  · intro msg hmsg
    rw [show ((((initial D).node j).links id).emitted) = [] from Node.initial_of (D.env j)
      (I := fun n ↦ (n.links id).emitted = []) rfl fun _ _ h ↦ h] at hmsg
    exact List.not_mem_nil hmsg
  · intro l s a s' hl hstep msg hmsg
    have hreach := reachable_node (hl.reachable rfl) j
    rcases step_node (lined_of_reachable (hl.reachable rfl)) hstep j with
      hsame | ⟨b, rfl, hb⟩ | ⟨i, peer, k, now, batch, line, -, hline, hb, -⟩
    · exact Or.inl (hsame ▸ hmsg)
    · rcases Node.message_of_step hreach hb hmsg with hold | ⟨sub, hsub, rfl⟩
      · exact Or.inl hold
      · exact Or.inr (hl.occurs_last hstep (.heard hsub rfl))
    · rcases Node.message_of_step hreach hb hmsg with hold | ⟨sub, hsub, rfl⟩
      · exact Or.inl hold
      · right
        rw [arrival, Node.Event.submissions, gossipItems_requestBody
          (payload_ne_list (lined_of_reachable (hl.reachable rfl)) hline)] at hsub
        obtain ⟨item, hitem, hsub⟩ := List.mem_filterMap.mp hsub
        obtain ⟨⟨room, msg⟩, htold, rfl⟩ := Option.map_eq_some_iff.mp hsub
        refine ((gossip_occurs (hdefault i) hl hline hitem htold).imp ?_).concat a
        rintro s₁ _ - ⟨b, sub, rfl, hsub, -, hretells⟩
        exact .accepted hsub hretells

/-- What the second node shows of a message was posted to the first one. -/
theorem entry_toldRun : ∃ (s : Cluster Bool) (e : Entry) (l₁ : List (Event Bool)) (a : Event Bool)
    (l₂ : List (Event Bool)) (s₁ : Cluster Bool),
    (system pair).Trace (initial pair) toldRun s ∧ e ∈ s.entriesAt true ∧
      toldRun = l₁ ++ a :: l₂ ∧ Origin pair s₁ true e a := by
  have hdefault : ∀ i, (pair.site i).config.defaultRoom ≠ [] := by decide
  have hexec : (System.exec (step pair) (initial pair) toldRun).map
      (fun s ↦ (s.entriesAt true).isEmpty) = some false := by
    decide +kernel
  obtain ⟨s, hs, hempty⟩ := Option.map_eq_some_iff.mp hexec
  obtain ⟨e, he⟩ := List.exists_mem_of_ne_nil (s.entriesAt true) fun h ↦ by simp [h] at hempty
  have htrace : (system pair).Trace (initial pair) toldRun s := System.trace_of_exec hs
  obtain ⟨l₁, a, l₂, s₁, s₂, hl, -, -, horigin⟩ := entry_occurs hdefault htrace he
  exact ⟨s, e, l₁, a, l₂, s₁, htrace, he, hl, horigin⟩

/-- A client of the second node is sent the message that was posted to the first one. -/
theorem message_heardRun : ∃ (s : Cluster Bool) (msg : Obj) (l₁ : List (Event Bool))
    (a : Event Bool) (l₂ : List (Event Bool)) (s₁ : Cluster Bool),
    (system pair).Trace (initial pair) (.node true (.connect (lit "1") [] 0) :: toldRun) s ∧
      Frame.message msg ∈ ((s.node true).links (lit "1")).emitted ∧
      .node true (.connect (lit "1") [] 0) :: toldRun = l₁ ++ a :: l₂ ∧
      Source pair s₁ true msg a := by
  have hdefault : ∀ i, (pair.site i).config.defaultRoom ≠ [] := by decide
  have hexec : (System.exec (step pair) (initial pair)
      (.node true (.connect (lit "1") [] 0) :: toldRun)).map
      (fun s ↦ ((s.node true).links (lit "1")).emitted.any fun f ↦ f.message?.isSome) =
        some true := by
    decide +kernel
  obtain ⟨s, hs, hany⟩ := Option.map_eq_some_iff.mp hexec
  have htrace : (system pair).Trace (initial pair)
      (.node true (.connect (lit "1") [] 0) :: toldRun) s := System.trace_of_exec hs
  obtain ⟨f, hf, hsome⟩ := List.any_eq_true.mp hany
  obtain ⟨msg, hmsg⟩ := Option.isSome_iff_exists.mp hsome
  obtain rfl := Frame.message?_eq_some hmsg
  obtain ⟨l₁, a, l₂, s₁, s₂, hl, -, -, hsource⟩ := message_occurs hdefault htrace hf
  exact ⟨s, msg, l₁, a, l₂, s₁, htrace, hf, hl, hsource⟩

end Cluster

end GroupChat
