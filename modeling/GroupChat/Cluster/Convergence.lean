import GroupChat.Cluster.AtMostOnce
import GroupChat.Server.Readings

/-!
# Do the feeds converge?

The node that accepts a message files it as it comes.  The other nodes file what they make of the
gossip item, with the name, the text and the time of the message as they find them there; and
`_cache_put` supplies on each node what a message lacks.

* `pubReading` is what a published message reads like.  It is what every node that knows the message
  shows of it (`reading_of_tells`, `gossipMessage_of_tells`), unless the time of the message is 0:
  then each node shows its own time.
* `Undisturbed` are the steps of the runs in question: messages with new ids, no room that cannot be
  hashed, no gossip that gets lost, caches that do not get full.  `Dated` is the condition that no
  message has the time 0.
* `converged_of_dated`: once all gossip has been delivered, all nodes hold the same entries for the
  messages.

Two invariants carry the result.  `Alike` is about what the nodes hold: an entry reads like the
published message with its id, on whatever node it is.  `Heard` is about what they have been told:
every published item is on the lines to all peers, and what has passed a line is known at its end.
Once all items have passed, the second one says that all nodes hold the message, and the first one
that they show the same of it.
-/

set_option autoImplicit false

open scoped List

namespace GroupChat

open Transition

/-! ## Published messages

A message is published as a dictionary, of which another node reads the fields by its own rules.
`pubReading` is computed from the dictionary alone, so that it can be compared with what any node
makes of it. -/

/-- What a published message reads like. -/
def pubReading (L : PyLib) (publication : Value × Obj) : Reading :=
  ⟨publication.2.get "id", .str (compactUser L publication.2), .str (compactText L publication.2),
    .str (compactRoom L publication.1 publication.2), publication.2.get "timestamp"⟩

/-- The id of a published message. -/
def pubKey? (publication : Value × Obj) : Option Key := (publication.2.get "id").key?

/-- A message with these fields, as `post_message` or as `_handle_message` publishes it. -/
def Tells (publication : Value × Obj) (id : Value) (username text : Str) (room : Value) (ts : ℤ) :
    Prop :=
  publication.1 = room ∧ (publication.2 = messageObj id username text room ts ∨
    publication.2 = fullMessage id (.str username) (.str text) room (.int ts))

section Tells

variable {L : PyLib} {publication : Value × Obj} {id room : Value} {username text : Str} {ts : ℤ}

theorem key_of_tells (h : Tells publication id username text room ts) :
    pubKey? publication = id.key? := by
  rcases h with ⟨-, h | h⟩ <;> rw [pubKey?, h] <;> rfl

theorem pubReading_of_tells (h : Tells publication id username text room ts) :
    pubReading L publication = ⟨id, .str ((orAnonymous username).take 100), .str (text.take 2000),
      .str (((room.or (.str general)).toStr L).take 24), .int ts⟩ := by
  obtain ⟨p, msg⟩ := publication
  obtain ⟨hp, hmsg⟩ := h
  obtain rfl : p = room := hp
  have hroom : ∀ m : Obj, m.get "room" = p →
      compactRoom L p m = ((p.or (.str general)).toStr L).take 24 := by
    intro m hm
    rw [compactRoom, hm]
    cases hp : p.truthy <;> simp [Value.or, hp]
  rw [pubReading, Reading.mk.injEq]
  rcases hmsg with rfl | rfl
  · refine ⟨rfl, ?_, ?_, congrArg Value.str (hroom _ rfl), rfl⟩
    · cases username <;> rfl
    · cases text <;> rfl
  · refine ⟨rfl, ?_, ?_, congrArg Value.str (hroom _ rfl), rfl⟩
    · cases username <;> rfl
    · cases text <;> rfl

/-- What `_cache_put` makes of a message that is complete, with a string for an id. -/
theorem compactMsg_fullMessage (L : PyLib) (now : ℤ) {u : Str} (hu : u ≠ []) (room : Value)
    (username text : Str) (ts : ℤ) : ∃ e, compactMsg L now room
      (fullMessage (.str u) (.str username) (.str text) room (.int ts)) = .ok (some e) ∧
        e.key = .str u ∧ (ts ≠ 0 → e.toObj.reading =
          ⟨.str u, .str ((orAnonymous username).take 100), .str (text.take 2000),
            .str (((room.or (.str general)).toStr L).take 24), .int ts⟩) := by
  obtain ⟨ts', hts'⟩ := Value.toInt_or_int L ts now
  have htruthy : (Obj.get (fullMessage (.str u) (.str username) (.str text) room (.int ts))
      "id").truthy = true := decide_eq_true hu
  have hmsg := @compactMsg_of_key L now room _ _ _ htruthy hts' rfl
  refine ⟨_, hmsg, rfl, fun hne ↦ ?_⟩
  rw [reading_of_compactMsg hmsg, orNow, if_neg hne]

/-- What another node makes of the gossip item. -/
theorem gossipMessage_of_tells (env : Env) {serverId : Str} (now : ℤ)
    (h : Tells publication id username text room ts) (hroom : room.truthy = true)
    (hid : serverId ≠ env.config.serverId) :
    ∃ username', orAnonymous username' = orAnonymous username ∧
      Node.gossipMessage env (gossipPayload serverId publication.1 publication.2) now =
        some (room, fullMessage id (.str username') (.str text) room (.int ts)) := by
  obtain ⟨p, msg⟩ := publication
  obtain ⟨hp, hmsg⟩ := h
  obtain rfl : p = room := hp
  have hcanonical : ∀ f (m : Obj), Node.gossipMessage env (gossipPayload serverId p (f :: m)) now =
      some (p.or (.str env.config.defaultRoom), fullMessage (Obj.get (f :: m) "id")
        ((Obj.get (f :: m) "username").or
          (Obj.getD (f :: m) "client-name" (.str (lit "Anonymous"))))
        ((Obj.get (f :: m) "text").or (Obj.getD (f :: m) "msg" (.str [])))
        (p.or (.str env.config.defaultRoom)) (Obj.getD (f :: m) "timestamp" (.int now))) :=
    fun f m ↦ if_neg hid
  rw [Value.or_of_truthy hroom] at hcanonical
  have htext : (Value.str text).or (.str []) = .str text := by cases text <;> rfl
  rcases hmsg with rfl | rfl
  · refine ⟨orAnonymous username, Node.orAnonymous_orAnonymous username, (hcanonical _ _).trans ?_⟩
    have husername :
        (Value.str username).or (.str (lit "Anonymous")) = .str (orAnonymous username) := by
      cases username <;> rfl
    show some (p, fullMessage id ((Value.str username).or (.str (lit "Anonymous")))
      ((Value.str text).or (.str [])) p (.int ts)) = _
    rw [husername, htext]
  · refine ⟨username, rfl, (hcanonical _ _).trans ?_⟩
    have husername : (Value.str username).or (.str username) = .str username := by
      cases username <;> rfl
    have htext' : (Value.str text).or (.str text) = .str text := by cases text <;> rfl
    show some (p, fullMessage id ((Value.str username).or (.str username))
      ((Value.str text).or (.str text)) p (.int ts)) = _
    rw [husername, htext']

end Tells

/-! ## Accepted messages

`post_message` and `_handle_message` publish what they have filed, with all fields filled in.
Only the time can still be replaced, if it is 0. -/

namespace Node

variable {env : Env} {n : Node} {s : Submission} {now : ℤ}

theorem tells_of_accepts (h : Accepts env now s) : ∃ id room username text ts,
    Tells (s.room, s.told) id username text room ts ∧
      s.cached = fullMessage id (.str username) (.str text) room (.int ts) ∧
        ∀ job, s.job = some job → job.key? = id.key? := by
  rcases h with ⟨body, query, uuid, h⟩ | ⟨c, data, uuid, h⟩
  · rw [postSubmission] at h
    split at h
    · split at h
      · obtain rfl := Option.some.inj h
        exact ⟨_, _, _, _, _, ⟨rfl, Or.inl rfl⟩, rfl, by rintro _ ⟨⟩; rfl⟩
      · simp at h
    · simp at h
  · rw [frameSubmission] at h
    split at h
    · obtain rfl := Option.some.inj h
      exact ⟨_, _, _, _, _, ⟨rfl, Or.inr rfl⟩, rfl, by rintro _ ⟨⟩; rfl⟩
    · simp at h

/-- A room that a message can be broadcast to. -/
structure ProperRoom (room : Value) : Prop where
  truthy : room.truthy = true
  hashable : room.key?.isSome = true

theorem properRoom_str {room : Str} (h : room ≠ []) : ProperRoom (.str room) :=
  ⟨by simpa [Value.truthy] using h, rfl⟩

theorem truthy_postedRoom {data query : Obj} (h : env.config.defaultRoom ≠ []) :
    (postedRoom env data query).truthy = true := by
  have hdefault : (Value.str env.config.defaultRoom).truthy = true := by
    simpa [Value.truthy] using h
  simp only [postedRoom, Obj.firstOf, Value.or]
  split_ifs <;> assumption

/-- What is published when a message has been handled to the end. -/
theorem accepts_of_completed {a : Event} (hn : (system env).Reachable n)
    (hdefault : env.config.defaultRoom ≠ []) (h : a.completed env n = some s) :
    ∃ now, Accepts env now s ∧ a.puts env n = [s.put now] ∧ a.job env n = s.job ∧
      ProperRoom s.room := by
  cases a with
  | post body query now uuid =>
    have hs := postSubmission_of_completed
      (show completedPost env n body query now uuid = some s from h)
    obtain ⟨hputs, hjob⟩ := puts_of_completed_post h
    refine ⟨now, Or.inl ⟨body, query, uuid, hs⟩, hputs, hjob, ?_, ?_⟩
    · rw [postSubmission] at hs
      split at hs
      · split at hs
        · obtain rfl := Option.some.inj hs
          exact truthy_postedRoom hdefault
        · simp at hs
      · simp at hs
    · have htold := (Option.filter_eq_some_iff.mp
        (show completedPost env n body query now uuid = some s from h)).2
      rw [Bool.and_eq_true] at htold
      rcases tryBroadcast_cases n s.room (.message s.told) with ⟨-, hkey, -⟩ | ⟨hraise, -⟩
      · exact hkey
      · rw [hraise] at htold
        simp at htold
  | frame id data now uuid =>
    obtain ⟨hputs, hjob⟩ := puts_of_completed_frame h
    obtain ⟨fields, c, -, hc, -, hs, -⟩ := frameSubmission_of_completed h
    refine ⟨now, Or.inr ⟨c, fields, uuid, hs⟩, hputs, hjob, ?_⟩
    have hroom : RoomName env c.room := roomName_of_reachable hn (placeOf_of_get? hc)
    rw [frameSubmission] at hs
    split at hs
    · obtain rfl := Option.some.inj hs
      exact properRoom_str (hroom.ne_nil hdefault)
    · simp at hs
  | _ => simp [Event.completed] at h

end Node

namespace Cluster

variable {ι : Type*}

/-! ## The runs

The conditions on a run say what the claim takes for granted: no losses, no two messages with one
id, and caches that are large enough.  `Dated` is kept apart from them, being the condition that
makes the difference. -/

/-- The ids that a node has seen. -/
def idsAt (s : Cluster ι) (i : ι) : Finset Key := (s.node i).store.cache.globalMsgIds

/-- The entries that a node holds. -/
def entriesAt (s : Cluster ι) (i : ι) : List Entry := (s.node i).store.cache.globalMsgCache

/-- What a node has published. -/
def publishedBy (s : Cluster ι) (i : ι) : List (Value × Obj) := (s.node i).published

/-- The id is that of a message that some node has published. -/
def Named (s : Cluster ι) (k : Key) : Prop := ∃ i, ∃ p ∈ s.publishedBy i, pubKey? p = some k

/-- No node knows the id. -/
def Fresh (s : Cluster ι) (k : Key) : Prop :=
  ∀ i, k ∉ s.idsAt i ∧ ∀ job ∈ (s.node i).jobs, job.key? ≠ some k

/-- What a client does, a request or a frame. -/
structure Announces (D : Deployment ι) (s : Cluster ι) (i : ι) (a : Node.Event) : Prop where
  /-- A message that is filed is accepted. -/
  accepted : a.puts (D.env i) (s.node i) ≠ [] → a.completed (D.env i) (s.node i) ≠ none
  /-- It has a string for an id, and a new one. -/
  new : ∀ sub, a.completed (D.env i) (s.node i) = some sub →
    ∃ u, u ≠ [] ∧ sub.told.get "id" = .str u ∧ Fresh s (.str u)
  /-- No queue for a peer is full. -/
  room : a.completed (D.env i) (s.node i) ≠ none →
    ∀ peer ∈ (D.site i).getValidPeers, (s.line i peer).queue.length < gossipQueueSize
  /-- A private message has an id of its own. -/
  other : a.completed (D.env i) (s.node i) = none → ∀ job, a.job (D.env i) (s.node i) = some job →
    ∀ k, job.key? = some k → ¬ Named s k

/-- Nothing but gossip brings the messages of a node to another one. -/
def CalmEvent (D : Deployment ι) (s : Cluster ι) (i : ι) : Node.Event → Prop
  | .post body query now uuid => Announces D s i (.post body query now uuid)
  | .frame id data now uuid => Announces D s i (.frame id data now uuid)
  | .runJob _ _ _ => True
  | a => ∀ p ∈ a.puts (D.env i) (s.node i), ∀ k, p.key? D.lib = some k → Named s k → k ∈ s.idsAt i

/-- No gossip is lost. -/
def Calm (D : Deployment ι) (s : Cluster ι) : Event ι → Prop
  | .node i a => CalmEvent D s i a
  | .take i peer m => sendable ((s.line i peer).queue.take m) = true
  | .finish _ _ => True
  | .deliver _ _ _ _ => True
  | .lose _ _ _ => False

/-- The steps of the runs in question: the caches do not get full either. -/
structure Undisturbed [DecidableEq ι] (D : Deployment ι) (s : Cluster ι) (a : Event ι) : Prop where
  calm : Calm D s a
  room : ∀ s', s.step D a = some s' → ∀ i, (s'.entriesAt i).length < msgCacheSize

/-- The condition: no message is accepted with the time 0. -/
def Dated (D : Deployment ι) (s : Cluster ι) : Event ι → Prop
  | .node i a => ∀ sub, a.completed (D.env i) (s.node i) = some sub →
      sub.told.get "timestamp" ≠ .int 0
  | _ => True

/-- All nodes are peers of each other, under different names. -/
structure Connected (D : Deployment ι) : Prop where
  ids : Function.Injective fun i ↦ (D.site i).config.serverId
  peers : ∀ i j, i ≠ j → ∃ peer ∈ (D.site i).getValidPeers, D.resolve i peer = some j

/-- Nothing is on the lines. -/
def Delivered (D : Deployment ι) (s : Cluster ι) : Prop :=
  ∀ i, ∀ peer ∈ (D.site i).getValidPeers, (s.line i peer).Idle

/-- What a node shows of the messages. -/
def shownAt (s : Cluster ι) (i : ι) : Set Reading :=
  {r | ∃ e ∈ s.entriesAt i, Named s e.key ∧ e.toObj.reading = r}

/-- All nodes show the same, and something for each message. -/
structure Converged (s : Cluster ι) : Prop where
  same : ∀ i j, s.shownAt i = s.shownAt j
  all : ∀ i, ∀ p ∈ s.publishedBy i, ∀ j, ∃ r ∈ s.shownAt j, r.id = p.2.get "id"

/-! ## The invariant of the caches

Two entries with the same id read alike, wherever they are, and like the published message.  An
entry gets into a cache by a call of `_cache_put`, so the invariant only has to be checked for
those. -/

/-- A message that reads the same everywhere. -/
def Sound (p : Value × Obj) : Prop :=
  ∃ u username text room ts, u ≠ [] ∧ ts ≠ 0 ∧ Node.ProperRoom room ∧
    Tells p (.str u) username text room ts

/-- The caches and the published messages belong together. -/
structure Alike (D : Deployment ι) (s : Cluster ι) : Prop where
  whole : ∀ i, (s.node i).store.cache.Whole
  sound : ∀ i, ∀ p ∈ s.publishedBy i, Sound p
  own : ∀ i, ∀ p ∈ s.publishedBy i, ∀ k, pubKey? p = some k → k ∈ s.idsAt i
  jobs : ∀ i, ∀ job ∈ (s.node i).jobs, ∀ k, job.key? = some k → Named s k → k ∈ s.idsAt i
  reads : ∀ i, ∀ p ∈ s.publishedBy i, ∀ j, ∀ e ∈ s.entriesAt j, pubKey? p = some e.key →
    e.toObj.reading = pubReading D.lib p

variable {D : Deployment ι} {s s' : Cluster ι} {i : ι} {n : Node} {puts : List PutCall}

/-- Messages with one id read alike. -/
theorem Alike.reading_eq (h : Alike D s) {j : ι} {p q : Value × Obj} {k : Key}
    (hp : p ∈ s.publishedBy i) (hq : q ∈ s.publishedBy j) (hpk : pubKey? p = some k)
    (hqk : pubKey? q = some k) : pubReading D.lib p = pubReading D.lib q := by
  obtain ⟨e, he, rfl⟩ := (h.whole i).mem_iff.mp (h.own i p hp k hpk)
  exact (h.reads i p hp i e he hpk).symm.trans (h.reads j q hq i e he hqk)

variable [DecidableEq ι]

/-! ## One node changes

A step of the cluster replaces the state of one node.  The sets of ids, entries and jobs of all
nodes change by what this node has got. -/

/-- A node that files something forgets no id. -/
theorem idsAt_subset_update (h : Alike D s) (hs' : s'.node = Function.update s.node i n)
    (hcache : (s.node i).store.cache.Grows D.lib puts n.store.cache) (j : ι) :
    s.idsAt j ⊆ s'.idsAt j := by
  rw [idsAt, idsAt, hs', Function.update_apply]
  split
  · rename_i hj
    rw [hj]
    exact hcache.ids_subset (h.whole i)
  · exact Finset.Subset.refl _

/-- The cache of a node that files something holds all its ids. -/
theorem whole_update (h : Alike D s) (hs' : s'.node = Function.update s.node i n)
    (hcache : (s.node i).store.cache.Grows D.lib puts n.store.cache) (j : ι) :
    (s'.node j).store.cache.Whole := by
  rw [hs', Function.update_apply]
  split
  · exact hcache.whole
  · exact h.whole j

/-- What is cached then was cached before, or has been put. -/
theorem mem_entriesAt_update (hs' : s'.node = Function.update s.node i n)
    (hcache : (s.node i).store.cache.Grows D.lib puts n.store.cache) {j : ι} {e : Entry}
    (he : e ∈ s'.entriesAt j) :
    e ∈ s.entriesAt j ∨ j = i ∧ ∃ p ∈ puts, p.entry? D.lib = some e ∧ e.key ∉ s.idsAt i := by
  rw [entriesAt, hs', Function.update_apply] at he
  split at he
  · rename_i hj
    rw [hj]
    exact (hcache.origin e he).imp_right fun hput ↦ ⟨rfl, hput⟩
  · exact Or.inl he

/-- The same of the jobs. -/
theorem mem_jobs_update {P : Job → Prop} (hs' : s'.node = Function.update s.node i n)
    (hjobs : ∀ job ∈ n.jobs, job ∈ (s.node i).jobs ∨ P job) {j : ι} {job : Job}
    (hjob : job ∈ (s'.node j).jobs) : job ∈ (s.node j).jobs ∨ j = i ∧ P job := by
  rw [hs', Function.update_apply] at hjob
  split at hjob
  · rename_i hj
    rw [hj]
    exact (hjobs job hjob).imp_right fun hP ↦ ⟨rfl, hP⟩
  · exact Or.inl hjob

/-! ## Filing and publishing

There are two ways for the caches to change: a node files what is known already, or a message
comes in that nobody knows. -/

/-- A node files something, and publishes nothing. -/
theorem Alike.grow (h : Alike D s) (hs' : s'.node = Function.update s.node i n)
    (hpublished : n.published = (s.node i).published)
    (hcache : (s.node i).store.cache.Grows D.lib puts n.store.cache)
    (hputs : ∀ p ∈ puts, ∀ e, p.entry? D.lib = some e → e.key ∉ s.idsAt i →
      ∀ j, ∀ q ∈ s.publishedBy j, pubKey? q = some e.key → e.toObj.reading = pubReading D.lib q)
    (hjobs : ∀ job ∈ n.jobs, job ∈ (s.node i).jobs ∨ ∀ k, job.key? = some k → ¬ Named s k) :
    Alike D s' := by
  have hpub : s'.publishedBy = s.publishedBy := by
    funext j
    rw [publishedBy, publishedBy, hs', Function.update_apply]
    split
    · rename_i hj
      rw [hj, hpublished]
    · rfl
  have hnamed : ∀ k, Named s' k ↔ Named s k := fun k ↦ by rw [Named, Named, hpub]
  have hids := idsAt_subset_update h hs' hcache
  refine ⟨fun j ↦ ?_, fun j p hp ↦ ?_, fun j p hp k hk ↦ ?_, fun j job hjob k hk hname ↦ ?_,
    fun j p hp j' e he hk ↦ ?_⟩
  · exact whole_update h hs' hcache j
  · exact h.sound j p (hpub ▸ hp)
  · exact hids j (h.own j p (hpub ▸ hp) k hk)
  · rcases mem_jobs_update hs' hjobs hjob with hjob | ⟨-, hnone⟩
    · exact hids j (h.jobs j job hjob k hk ((hnamed k).mp hname))
    · exact absurd ((hnamed k).mp hname) (hnone k hk)
  · rw [hpub] at hp
    rcases mem_entriesAt_update hs' hcache he with he | ⟨-, q, hq, hentry, hnew⟩
    · exact h.reads j p hp j' e he hk
    · exact hputs q hq e hentry hnew j p hp hk

/-- A node files and publishes a message. -/
theorem Alike.publish (h : Alike D s) (hs' : s'.node = Function.update s.node i n)
    {q : Value × Obj} {k : Key} {c : PutCall} {e : Entry}
    (hpublished : n.published = (s.node i).published ++ [q]) (hsound : Sound q)
    (hq : pubKey? q = some k) (hfresh : Fresh s k)
    (hcache : (s.node i).store.cache.Grows D.lib [c] n.store.cache)
    (hentry : c.entry? D.lib = some e) (hkey : e.key = k)
    (hread : e.toObj.reading = pubReading D.lib q)
    (hjobs : ∀ job ∈ n.jobs, job ∈ (s.node i).jobs ∨ job.key? = some k) : Alike D s' := by
  have hpub : ∀ j, ∀ p ∈ s'.publishedBy j, p ∈ s.publishedBy j ∨ j = i ∧ p = q := by
    intro j p hp
    rw [publishedBy, hs', Function.update_apply] at hp
    split at hp
    · rename_i hj
      rw [hpublished] at hp
      rcases List.mem_append.mp hp with hp | hp
      · exact Or.inl (hj ▸ hp)
      · exact Or.inr ⟨hj, List.mem_singleton.mp hp⟩
    · exact Or.inl hp
  have hold : ∀ j, ∀ p ∈ s.publishedBy j, pubKey? p ≠ some k := fun j p hp hk ↦
    (hfresh j).1 (h.own j p hp k hk)
  have hnamed : ∀ k', Named s' k' → Named s k' ∨ k' = k := by
    rintro k' ⟨j, p, hp, hk'⟩
    rcases hpub j p hp with hp | ⟨-, rfl⟩
    · exact Or.inl ⟨j, p, hp, hk'⟩
    · exact Or.inr (Option.some.inj (hk'.symm.trans hq))
  have hids := idsAt_subset_update h hs' hcache
  have hnew : k ∈ s'.idsAt i := by
    rw [idsAt, hs', Function.update_self, ← hkey]
    exact hcache.added c (List.mem_singleton_self c) e hentry
  refine ⟨fun j ↦ ?_, fun j p hp ↦ ?_, fun j p hp k' hk' ↦ ?_, fun j job hjob k' hk' hname ↦ ?_,
    fun j p hp j' e' he' hk' ↦ ?_⟩
  · exact whole_update h hs' hcache j
  · rcases hpub j p hp with hp | ⟨-, rfl⟩
    · exact h.sound j p hp
    · exact hsound
  · rcases hpub j p hp with hp | ⟨rfl, rfl⟩
    · exact hids j (h.own j p hp k' hk')
    · obtain rfl : k = k' := Option.some.inj (hq.symm.trans hk')
      exact hnew
  · rcases mem_jobs_update hs' hjobs hjob with hjob | ⟨rfl, hk⟩
    · rcases hnamed k' hname with hname | rfl
      · exact hids j (h.jobs j job hjob k' hk' hname)
      · exact absurd hk' ((hfresh j).2 job hjob)
    · obtain rfl : k = k' := Option.some.inj (hk.symm.trans hk')
      exact hnew
  · have he'' : e' ∈ s.entriesAt j' ∨ e' = e := by
      refine (mem_entriesAt_update hs' hcache he').imp_right ?_
      rintro ⟨-, call', hcall, hentry', -⟩
      rw [List.mem_singleton.mp hcall, hentry] at hentry'
      exact (Option.some.inj hentry').symm
    rcases hpub j p hp with hp | ⟨-, rfl⟩
    · rcases he'' with he' | rfl
      · exact h.reads j p hp j' e' he' hk'
      · exact absurd (hkey ▸ hk') (hold j p hp)
    · rcases he'' with he' | rfl
      · obtain rfl : k = e'.key := Option.some.inj (hq.symm.trans hk')
        exact absurd ((h.whole j').mem_iff.mpr ⟨e', he', rfl⟩) (hfresh j').1
      · exact hread

/-! ## Steps of a node

A node files and publishes, or it does neither, or it files what it has had before: a row of the
database has the reading of a message that some node has published. -/

/-- Nothing is published, and no message comes to a node that does not know it. -/
theorem Alike.advance_of_quiet (h : Alike D s)
    (hpublished : n.published = (s.node i).published)
    (hcache : (s.node i).store.cache.Grows D.lib puts n.store.cache)
    (hputs : ∀ p ∈ puts, ∀ k, p.key? D.lib = some k → Named s k → k ∈ s.idsAt i)
    (hjobs : ∀ job ∈ n.jobs, job ∈ (s.node i).jobs ∨ ∀ k, job.key? = some k → ¬ Named s k) :
    Alike D (s.advance D i n) := by
  refine h.grow rfl hpublished hcache (fun p hp e he hnew j q hq hk ↦ ?_) hjobs
  have hkey : p.key? D.lib = some e.key := by
    rw [PutCall.key?, PutCall.entry?_eq_some_iff.mp he]
  exact absurd (hputs p hp e.key hkey ⟨j, q, hq, hk⟩) hnew

/-- A client does something. -/
theorem Alike.announce (h : Alike D s) {a : Node.Event}
    (hn : (Node.system (D.env i)).Reachable (s.node i))
    (hdefault : (D.site i).config.defaultRoom ≠ []) (ha : Announces D s i a)
    (hdated : Dated D s (.node i a))
    (hleft : Node.Leaves (D.env i) (s.node i) n (a.puts (D.env i) (s.node i))
      (a.job (D.env i) (s.node i)) (a.completed (D.env i) (s.node i)))
    (hcache : (s.node i).store.cache.Grows D.lib (a.puts (D.env i) (s.node i)) n.store.cache) :
    Alike D (s.advance D i n) := by
  have hjobs : ∀ job ∈ n.jobs, job ∈ (s.node i).jobs ∨ a.job (D.env i) (s.node i) = some job := by
    intro job hjob
    rw [hleft.jobs] at hjob
    exact (List.mem_append.mp hjob).imp_right Option.mem_toList.mp
  cases hcompleted : a.completed (D.env i) (s.node i) with
  | none =>
    have hnil : a.puts (D.env i) (s.node i) = [] := by
      by_contra hne
      exact ha.accepted hne hcompleted
    refine h.advance_of_quiet ?_ hcache (fun p hp ↦ ?_) fun job hjob ↦ ?_
    · rw [hleft.published, hcompleted]
      exact List.append_nil _
    · rw [hnil] at hp
      exact absurd hp List.not_mem_nil
    · exact (hjobs job hjob).imp_right fun hjob ↦ ha.other hcompleted job hjob
  | some sub =>
    obtain ⟨u, hu, hid, hfresh⟩ := ha.new sub hcompleted
    obtain ⟨now, haccepts, hputs, hjob, hroom⟩ := Node.accepts_of_completed hn hdefault hcompleted
    obtain ⟨id, room, username, text, ts, htells, hcached, hkey⟩ := Node.tells_of_accepts haccepts
    have hroom_eq : sub.room = room := htells.1
    obtain rfl : id = .str u := by
      rcases htells.2 with htold | htold
      · exact (congrArg (fun m : Obj ↦ m.get "id") htold).symm.trans hid
      · exact (congrArg (fun m : Obj ↦ m.get "id") htold).symm.trans hid
    have hts : ts ≠ 0 := by
      rintro rfl
      refine hdated sub hcompleted ?_
      rcases htells.2 with htold | htold
      · exact congrArg (fun m : Obj ↦ m.get "timestamp") htold
      · exact congrArg (fun m : Obj ↦ m.get "timestamp") htold
    obtain ⟨e, hmsg, hek, hread⟩ := compactMsg_fullMessage D.lib now hu room username text ts
    rw [hputs] at hcache
    refine h.publish (c := sub.put now) (q := (sub.room, sub.told)) (e := e) rfl ?_
      ⟨u, username, text, room, ts, hu, hts, hroom_eq ▸ hroom, htells⟩ (key_of_tells htells) hfresh
      hcache ?_ hek ((hread hts).trans (pubReading_of_tells htells).symm) fun job hjob' ↦ ?_
    · rw [hleft.published, hcompleted]
      rfl
    · rw [PutCall.entry?_eq_some_iff, ← hmsg, ← hcached, ← hroom_eq]
      rfl
    · exact (hjobs job hjob').imp_right fun hjob' ↦ hkey job (hjob ▸ hjob')

/-- An event of a node. -/
theorem Alike.advance (h : Alike D s) {a : Node.Event}
    (hn : (Node.system (D.env i)).Reachable (s.node i))
    (hdefault : (D.site i).config.defaultRoom ≠ []) (hcalm : CalmEvent D s i a)
    (hdated : Dated D s (.node i a)) (hstep : (s.node i).step (D.env i) a = some n)
    (hroom : n.store.cache.globalMsgCache.length < msgCacheSize) : Alike D (s.advance D i n) := by
  have hcache : (s.node i).store.cache.Grows D.lib (a.puts (D.env i) (s.node i)) n.store.cache := by
    have hputs := Node.cache_step hstep
    rw [hputs] at hroom ⊢
    exact (h.whole i).calls hroom
  have hother : (∀ j now nonce, a ≠ .runJob j now nonce) → a.completed (D.env i) (s.node i) = none →
      a.job (D.env i) (s.node i) = none →
      (∀ p ∈ a.puts (D.env i) (s.node i), ∀ k, p.key? D.lib = some k → Named s k → k ∈ s.idsAt i) →
      Alike D (s.advance D i n) := by
    intro hnot hcompleted hjob hputs
    have hleft := Node.leaves_step hstep hnot
    refine h.advance_of_quiet ?_ hcache hputs fun job hmem ↦ Or.inl ?_
    · rw [hleft.published, hcompleted]
      exact List.append_nil _
    · rw [hleft.jobs, hjob] at hmem
      simpa using hmem
  cases a with
  | post body query now uuid =>
    exact h.announce hn hdefault hcalm hdated (Node.leaves_step hstep (by simp)) hcache
  | frame id data now uuid =>
    exact h.announce hn hdefault hcalm hdated (Node.leaves_step hstep (by simp)) hcache
  | runJob j now nonce =>
    obtain ⟨job, hjob, hjobs, hpublished, -, -⟩ := Node.runJob_spec hstep
    have hmem : job ∈ (s.node i).jobs := List.mem_of_getElem? hjob
    refine h.advance_of_quiet hpublished hcache (fun p hp k hk hname ↦ ?_) fun job' hjob' ↦ ?_
    · -- the document of a job has the id of its message, which the node knows
      exact h.jobs i job hmem k (Node.key?_of_mem_runJob hjob hp hk) hname
    · rw [hjobs] at hjob'
      exact Or.inl (List.mem_of_mem_eraseIdx hjob')
  | connect id queryParams now => exact hother (by simp) rfl rfl hcalm
  | fetchHistory id now docs => exact hother (by simp) rfl rfl hcalm
  | resume id => exact hother (by simp) rfl rfl hcalm
  | disconnect id => exact hother (by simp) rfl rfl hcalm
  | gossip data now => exact hother (by simp) rfl rfl hcalm
  | feed room limit now => exact hother (by simp) rfl rfl hcalm
  | warmCache now docs => exact hother (by simp) rfl rfl hcalm
  | publicKey username => exact hother (by simp) rfl rfl hcalm
  | privateKey username => exact hother (by simp) rfl rfl hcalm
  | background b => exact hother (by simp) rfl rfl hcalm

end Cluster

/-! ## Requests

All items of a batch are filed, since none of them raises for a message that was published in such
a run, and each of them is filed under its own id with its own reading. -/

section Requests

variable {ι : Type*} {env : Env} {now : ℤ}

theorem gossipItems_requestBody {items : List Value} (h : ∀ v ∈ items, ∀ xs, v ≠ .list xs) :
    Node.gossipItems (requestBody items) = items := by
  match items, h with
  | [], _ => rfl
  | [v], h =>
    have hv := h v (List.mem_singleton_self v)
    cases v with
    | list xs => exact absurd rfl (hv xs)
    | _ => rfl
  | _ :: _ :: _, _ => rfl

/-- What a request files are the messages of its items. -/
theorem mem_itemPuts {items : List Value} {p : PutCall} : ∀ {n : Node},
    p ∈ Node.itemPuts env now n items → ∃ item ∈ items, ∃ room msg,
      Node.gossipMessage env item now = some (room, msg) ∧ p = ⟨now, room, msg⟩ := by
  induction items with
  | nil => exact fun h ↦ absurd h List.not_mem_nil
  | cons item items ih =>
    intro n h
    rw [Node.itemPuts] at h
    rcases List.mem_append.mp h with h | h
    · rw [Option.mem_toList, Node.itemSubmission, Option.map_map] at h
      obtain ⟨⟨room, msg⟩, hmsg, rfl⟩ := Option.map_eq_some_iff.mp h
      exact ⟨item, List.mem_cons_self, room, msg, hmsg, rfl⟩
    · split at h
      · obtain ⟨item', hitem', hrest⟩ := ih h
        exact ⟨item', List.mem_cons_of_mem _ hitem', hrest⟩
      · exact absurd h List.not_mem_nil

/-- If no item raises, all of them are filed. -/
theorem mem_itemPuts_of_none {items : List Value}
    (h : ∀ item ∈ items, ∀ n : Node, (n.receiveItem env item now).2 = none) : ∀ n : Node,
    ∀ item ∈ items, ∀ room msg, Node.gossipMessage env item now = some (room, msg) →
      ⟨now, room, msg⟩ ∈ Node.itemPuts env now n items := by
  induction items with
  | nil => exact fun _ _ hitem ↦ absurd hitem List.not_mem_nil
  | cons item items ih =>
    intro n item' hitem' room msg hmsg
    rw [Node.itemPuts]
    rcases List.mem_cons.mp hitem' with rfl | hitem'
    · refine List.mem_append_left _ ?_
      rw [Node.itemSubmission, hmsg]
      exact List.mem_singleton_self _
    · refine List.mem_append_right _ ?_
      have hnone := h item List.mem_cons_self n
      split
      · exact ih (fun i hi ↦ h i (List.mem_cons_of_mem _ hi)) _ item' hitem' room msg hmsg
      · rename_i hraise
        rw [hraise] at hnone
        simp at hnone

/-! ## The items of a batch

Each item of a batch is an item of some publication, and the node that gets it makes a message of
it with the same reading. -/

theorem serialisable_fullMessage (u username text r : Str) (ts : ℤ) :
    (Frame.message (fullMessage (.str u) (.str username) (.str text) (.str r)
      (.int ts))).serialisable = true := by
  simp [Frame.serialisable, fullMessage, Value.serialisable, Value.serialisable.serialisableFields]

/-- The message of another node does not raise. -/
theorem receiveItem_of_proper {item room : Value} {u username text : Str} {ts : ℤ} (hu : u ≠ [])
    (hroom : Node.ProperRoom room) (hmsg : Node.gossipMessage env item now =
      some (room, fullMessage (.str u) (.str username) (.str text) room (.int ts))) (n : Node) :
    (n.receiveItem env item now).2 = none := by
  obtain ⟨e, he, -, -⟩ := compactMsg_fullMessage env.lib now hu room username text ts
  rw [Node.receiveItem, hmsg]
  simp only [Store.cachePut, he]
  rcases Node.tryBroadcast_cases { n with store := n.store.putEntry e } room
      (.message (fullMessage (.str u) (.str username) (.str text) room (.int ts))) with
    ⟨htold, -⟩ | ⟨-, hraise⟩
  · rw [htold]
  · rcases hraise with hkey | ⟨r, rfl, -, hserialisable⟩
    · rw [hroom.hashable] at hkey
      simp at hkey
    · rw [serialisable_fullMessage] at hserialisable
      simp at hserialisable

end Requests

namespace Cluster

variable {ι : Type*} [DecidableEq ι] {D : Deployment ι} {s s' : Cluster ι} {i j : ι} {n : Node}
  {puts : List PutCall} {peer : Str} {k : ℕ} {now : ℤ} {batch : List (GossipItem ι)}
  {l : Line (GossipItem ι)}

/-- An item of a batch conveys a message to another node. -/
structure Conveys (D : Deployment ι) (j : ι) (now : ℤ) (x : GossipItem ι) (q : Value × Obj)
    (p : PutCall) (e : Entry) : Prop where
  message : Node.gossipMessage (D.env j) x.payload now = some (p.roomId, p.msg)
  time : p.now = now
  noRaise : ∀ n : Node, (n.receiveItem (D.env j) x.payload now).2 = none
  entry : p.entry? D.lib = some e
  key : pubKey? q = some e.key
  reading : e.toObj.reading = pubReading D.lib q

theorem conveys_of_batch (h : Alike D s) (hlined : Lined D s) (hne : j ≠ i)
    (hids : Function.Injective fun i ↦ (D.site i).config.serverId) (now : ℤ)
    (hl : (s.line i peer).deliver k = some (batch, l)) {x : GossipItem ι} (hx : x ∈ batch) :
    ∃ q p e, (s.publishedBy i)[x.tag.index]? = some q ∧ x.tag.origin = i ∧
      Conveys D j now x q p e := by
  obtain ⟨-, horigin, q, hq, hitem⟩ := hlined.line i peer x (Line.subset_of_deliver hl hx)
  rw [horigin] at hq hitem
  obtain ⟨u, username, text, room, ts, hu, hts, hroom, htells⟩ :=
    h.sound i q (List.mem_of_getElem? hq)
  obtain ⟨username', hname, hmsg⟩ := gossipMessage_of_tells (D.env j) now htells hroom.truthy
    fun heq ↦ hne (hids heq).symm
  obtain ⟨e, he, hkey, hread⟩ := compactMsg_fullMessage D.lib now hu room username' text ts
  have hmsg' : Node.gossipMessage (D.env j) x.payload now =
      some (room, fullMessage (.str u) (.str username') (.str text) room (.int ts)) := by
    rw [hitem]
    exact hmsg
  refine ⟨q, ⟨now, room, _⟩, e, hq, horigin, hmsg', rfl, receiveItem_of_proper hu hroom hmsg',
    PutCall.entry?_eq_some_iff.mpr he, ?_, ?_⟩
  · rw [key_of_tells htells, hkey]
    rfl
  · rw [hread hts, pubReading_of_tells htells, hname]

/-- The payloads of a batch are dicts. -/
theorem payload_ne_list (hlined : Lined D s) (hl : (s.line i peer).deliver k = some (batch, l)) :
    ∀ v ∈ batch.map GossipItem.payload, ∀ xs, v ≠ .list xs := by
  intro v hv xs
  obtain ⟨x, hx, rfl⟩ := List.mem_map.mp hv
  obtain ⟨-, -, q, -, hitem⟩ := hlined.line i peer x (Line.subset_of_deliver hl hx)
  rw [hitem]
  simp [item, gossipPayload]

/-- The calls of a batch that arrives. -/
def batchPuts (D : Deployment ι) (s : Cluster ι) (j : ι) (now : ℤ) (batch : List (GossipItem ι)) :
    List PutCall := Node.itemPuts (D.env j) now (s.node j) (batch.map GossipItem.payload)

/-! ## What a batch leaves behind

The calls of `_cache_put` for the items, one after the other, and nothing else: a node that is
told something neither stores nor publishes it. -/

theorem leaves_receive (hlined : Lined D s) (now : ℤ)
    (hl : (s.line i peer).deliver k = some (batch, l)) (j : ι) :
    Node.Leaves (D.env j) (s.node j) ((s.node j).receiveGossip (D.env j)
      (some (requestBody (batch.map GossipItem.payload))) now)
      (batchPuts D s j now batch) none none := by
  have hleft := Node.leaves_receiveItems (D.env j) now (batch.map GossipItem.payload) (s.node j)
  rw [Node.receiveGossip, gossipItems_requestBody (payload_ne_list hlined hl)]
  exact hleft

/-- Every item that is not the own one of the node is filed. -/
theorem mem_batchPuts (h : Alike D s) (hlined : Lined D s) (hne : j ≠ i)
    (hids : Function.Injective fun i ↦ (D.site i).config.serverId) (now : ℤ)
    (hl : (s.line i peer).deliver k = some (batch, l)) {x : GossipItem ι} (hx : x ∈ batch) :
    ∃ q e, (s.publishedBy i)[x.tag.index]? = some q ∧ pubKey? q = some e.key ∧
      ∃ p ∈ batchPuts D s j now batch, p.entry? D.lib = some e := by
  obtain ⟨q, p, e, hq, -, hconveys⟩ := conveys_of_batch h hlined hne hids now hl hx
  refine ⟨q, e, hq, hconveys.key, p, ?_, hconveys.entry⟩
  obtain ⟨now', room, msg⟩ := p
  obtain rfl : now' = now := hconveys.time
  refine mem_itemPuts_of_none (fun v hv n ↦ ?_) _ x.payload (List.mem_map_of_mem hx) room msg
    hconveys.message
  obtain ⟨y, hy, rfl⟩ := List.mem_map.mp hv
  obtain ⟨q', p', e', -, -, hconveys'⟩ := conveys_of_batch h hlined hne hids now' hl hy
  exact hconveys'.noRaise n

/-- A batch arrives. -/
theorem Alike.deliver (h : Alike D s) (hlined : Lined D s)
    (hids : Function.Injective fun i ↦ (D.site i).config.serverId)
    (hl : (s.line i peer).deliver k = some (batch, l))
    (hcache : (s.node j).store.cache.Grows D.lib (batchPuts D s j now batch)
      ((s.node j).receiveGossip (D.env j)
        (some (requestBody (batch.map GossipItem.payload))) now).store.cache) :
    Alike D ((s.setLine i peer l).receive D j batch now) := by
  have hleft := leaves_receive hlined now hl j
  refine h.grow rfl (hleft.published.trans (List.append_nil _)) hcache
    (fun p hp e he _ j' q hq hk ↦ ?_) fun job hjob ↦ Or.inl ?_
  · obtain ⟨v, hv, room, msg, hmsg, rfl⟩ := mem_itemPuts hp
    obtain ⟨x, hx, rfl⟩ := List.mem_map.mp hv
    by_cases hne : j = i
    · -- the own items of a node are skipped
      subst hne
      obtain ⟨-, horigin, q', -, hitem⟩ := hlined.line j peer x (Line.subset_of_deliver hl hx)
      rw [hitem, horigin] at hmsg
      exact absurd (hmsg.symm.trans (gossipMessage_own (D.env j) _ _ now)) (by simp)
    · obtain ⟨q', p', e', hq', -, hconveys⟩ := conveys_of_batch h hlined hne hids now hl hx
      obtain ⟨now', room', msg'⟩ := p'
      obtain rfl : now' = now := hconveys.time
      obtain ⟨rfl, rfl⟩ := Prod.mk.inj (Option.some.inj (hmsg.symm.trans hconveys.message))
      obtain rfl : e' = e := Option.some.inj (hconveys.entry.symm.trans he)
      exact hconveys.reading.trans
        (h.reading_eq (List.mem_of_getElem? hq') hq hconveys.key hk)
  · rw [show (s.setLine i peer l).node j = s.node j from rfl, hleft.jobs] at hjob
    simpa using hjob

/-! ## What has been told

To have converged, the nodes must also have got everything.  Whatever was published is in the
cache of its origin, and for every other node it is on the line that leads there or has
arrived. -/

/-- What is published is on all lines, and what has passed a line is known at its end. -/
structure Heard (D : Deployment ι) (s : Cluster ι) : Prop where
  complete : ∀ i, ∀ peer ∈ (D.site i).getValidPeers, ∀ m < (s.publishedBy i).length,
    ∃ x ∈ (s.line i peer).items, x.tag = ⟨i, m⟩
  heard : ∀ i peer j, D.resolve i peer = some j → ∀ x ∈ (s.line i peer).passed, ∀ q,
    (s.publishedBy i)[x.tag.index]? = some q → ∀ k, pubKey? q = some k → k ∈ s.idsAt j

/-- What was heard before is still known. -/
theorem Heard.mono (h : Heard D s) (hlined : Lined D s)
    (hpub : ∀ i, s.publishedBy i <+: s'.publishedBy i) (hids : ∀ i, s.idsAt i ⊆ s'.idsAt i)
    (hj : D.resolve i peer = some j) {x : GossipItem ι} (hx : x ∈ (s.line i peer).passed)
    {q : Value × Obj} (hq : (s'.publishedBy i)[x.tag.index]? = some q) {key : Key}
    (hkey : pubKey? q = some key) : key ∈ s'.idsAt j := by
  obtain ⟨-, horigin, q', hq', -⟩ := hlined.line i peer x ((Line.passed_sublist _).subset hx)
  rw [horigin] at hq'
  obtain rfl : q' = q := by
    have hsame : (s'.publishedBy i)[x.tag.index]? = some q' := by
      obtain ⟨more, hmore⟩ := hpub i
      rw [← hmore]
      exact List.getElem?_append_left (List.getElem?_eq_some_iff.mp hq').1 ▸ hq'
    exact Option.some.inj (hsame.symm.trans hq)
  exact hids j (h.heard i peer j hj x hx q' hq' key hkey)

/-! ## Steps of nodes and of lines

A node that publishes puts its item on every line; a line that loses nothing passes it on; and
what has passed is in the cache at its end. -/

/-- A node publishes, and no queue is full. -/
theorem Heard.advance (h : Heard D s) (halike : Alike D s) (hlined : Lined D s)
    {o : Option (Value × Obj)} (hn : n.published = (s.node i).published ++ o.toList)
    (hroom : o ≠ none → ∀ peer ∈ (D.site i).getValidPeers,
      (s.line i peer).queue.length < gossipQueueSize)
    (hcache : (s.node i).store.cache.Grows D.lib puts n.store.cache) :
    Heard D (s.advance D i n) := by
  refine ⟨fun j peer hpeer m hm ↦ ?_, fun j peer j' hj' x hx q hq key hkey ↦ ?_⟩
  · -- the items of a line, and the new one if the node is at its beginning
    have hitems : ((s.advance D i n).line j peer).items ~
        (if j = i then (o.map (item D i (s.node i).published.length)).toList else []) ++
          (s.line j peer).items := by
      rw [line_advance, newItems_eq hn]
      by_cases hj : j = i
      · subst hj
        rw [if_pos ⟨rfl, hpeer⟩, if_pos rfl]
        cases o with
        | none => exact .refl _
        | some q => exact Line.put_perm (hroom (by simp) peer hpeer)
      · rw [if_neg fun hand ↦ hj hand.1, if_neg hj]
        exact .refl _
    by_cases hold : m < (s.publishedBy j).length
    · obtain ⟨x, hx, htag⟩ := h.complete j peer hpeer m hold
      exact ⟨x, hitems.symm.subset (List.mem_append_right _ hx), htag⟩
    · rw [publishedBy, node_advance, Function.update_apply] at hm
      split at hm
      · rename_i hj
        subst hj
        cases o with
        | none =>
          rw [hn, Option.toList_none, List.append_nil] at hm
          exact absurd hm hold
        | some q =>
          rw [hn, Option.toList_some, List.length_append, List.length_singleton] at hm
          have hm' : m = (s.node j).published.length := by
            have := Nat.le_of_not_lt hold
            rw [publishedBy] at this
            omega
          refine ⟨item D j (s.node j).published.length q, hitems.symm.subset ?_, by rw [hm']; rfl⟩
          rw [if_pos rfl]
          exact List.mem_append_left _ (List.mem_singleton_self _)
      · exact absurd hm hold
  · rw [passed_advance hn] at hx
    exact h.mono hlined (published_advance hn) (idsAt_subset_update halike rfl hcache)
      hj' hx hq hkey

/-- A line loses nothing. -/
theorem Heard.setLine (h : Heard D s) (hitems : l.items ~ (s.line i peer).items)
    (hpassed : l.passed = (s.line i peer).passed) : Heard D (s.setLine i peer l) := by
  refine ⟨fun j peer' hpeer m hm ↦ ?_, fun j peer' j' hj' x hx ↦ ?_⟩
  · obtain ⟨x, hx, htag⟩ := h.complete j peer' hpeer m hm
    refine ⟨x, ?_, htag⟩
    rw [line_setLine]
    split
    · rename_i heq
      rw [heq.1, heq.2] at hx
      exact hitems.symm.subset hx
    · exact hx
  · refine h.heard j peer' j' hj' x ?_
    rw [line_setLine] at hx
    split at hx
    · rename_i heq
      rw [heq.1, heq.2, ← hpassed]
      exact hx
    · exact hx

/-- A batch arrives. -/
theorem Heard.deliver (h : Heard D s) (halike : Alike D s) (hlined : Lined D s)
    (hids : Function.Injective fun i ↦ (D.site i).config.serverId) (hj : D.resolve i peer = some j)
    (hl : (s.line i peer).deliver k = some (batch, l))
    (hcache : (s.node j).store.cache.Grows D.lib (batchPuts D s j now batch)
      ((s.node j).receiveGossip (D.env j)
        (some (requestBody (batch.map GossipItem.payload))) now).store.cache) :
    Heard D ((s.setLine i peer l).receive D j batch now) := by
  have hpub : ∀ i',
      ((s.setLine i peer l).receive D j batch now).publishedBy i' = s.publishedBy i' :=
    published_receive batch now _ j
  have hids' : ∀ i', s.idsAt i' ⊆ ((s.setLine i peer l).receive D j batch now).idsAt i' :=
    idsAt_subset_update halike rfl hcache
  have hline : ∀ i' peer', ((s.setLine i peer l).receive D j batch now).line i' peer' =
      if i' = i ∧ peer' = peer then l else s.line i' peer' :=
    fun i' peer' ↦ line_setLine s i i' peer peer' l
  refine ⟨fun i' peer' hpeer m hm ↦ ?_, fun i' peer' j' hj' x hx q hq key hkey ↦ ?_⟩
  · rw [hpub] at hm
    obtain ⟨x, hx, htag⟩ := h.complete i' peer' hpeer m hm
    refine ⟨x, ?_, htag⟩
    rw [hline]
    split
    · rename_i heq
      rw [heq.1, heq.2] at hx
      exact (Line.deliver_perm hl).symm.subset hx
    · exact hx
  · rw [hline] at hx
    split at hx
    · rename_i heq
      obtain ⟨rfl, rfl⟩ := heq
      obtain rfl : j = j' := Option.some.inj (hj.symm.trans hj')
      rw [(Line.deliver_spec hl).2.2.2] at hx
      rcases List.mem_append.mp hx with hx | hx
      · exact h.mono hlined (fun i ↦ by rw [hpub]) hids' hj hx hq hkey
      · rw [hpub] at hq
        by_cases hne : j = i'
        · subst hne
          exact hids' j (halike.own j q (List.mem_of_getElem? hq) key hkey)
        · obtain ⟨q', e, hq', hk', p, hp, hentry⟩ := mem_batchPuts halike hlined hne hids now hl hx
          obtain rfl : q' = q := Option.some.inj (hq'.symm.trans hq)
          obtain rfl : e.key = key := Option.some.inj (hk'.symm.trans hkey)
          rw [idsAt, receive]
          simp only [Function.update_self]
          exact hcache.added p hp e hentry
    · exact h.mono hlined (fun i ↦ by rw [hpub]) hids' hj' hx hq hkey

/-! ## Runs

The two invariants together: the entries with an id read alike everywhere, and once the lines are
empty everybody has one. -/

/-- Every node is in a state that it can reach by itself. -/
theorem reachable_node (h : (system D).Reachable s) :
    ∀ i, (Node.system (D.env i)).Reachable (s.node i) := by
  refine h.invariant (I := fun s ↦ ∀ i, (Node.system (D.env i)).Reachable (s.node i)) ?_ ?_
  · rintro s rfl i
    exact .of_init rfl
  · intro s a s' hs hstep i
    rcases step_cases hstep with ⟨j, b, n, -, hn, rfl⟩ | ⟨j, peer, l, -, rfl⟩ |
      ⟨j, peer, k, now, j', batch, l, -, -, -, rfl⟩
    · rw [node_advance, Function.update_apply]
      split
      · rename_i hi
        subst hi
        exact (hs i).tail hn
      · exact hs i
    · exact hs i
    · simp only [receive, Function.update_apply]
      split
      · rename_i hi
        subst hi
        have hgossip : (s.node i).step (D.env i)
            (.gossip (some (requestBody (batch.map GossipItem.payload))) now) =
              some ((s.node i).receiveGossip (D.env i)
                (some (requestBody (batch.map GossipItem.payload))) now) := rfl
        exact (hs i).tail hgossip
      · exact hs i

omit [DecidableEq ι] in
/-- An event of a node that publishes does so when no queue is full. -/
theorem publishes_of_calm {a : Node.Event} (hcalm : CalmEvent D s i a)
    (hstep : (s.node i).step (D.env i) a = some n) :
    ∃ o : Option (Value × Obj), n.published = (s.node i).published ++ o.toList ∧
      (o ≠ none → ∀ peer ∈ (D.site i).getValidPeers,
        (s.line i peer).queue.length < gossipQueueSize) := by
  have hother : (∀ j now nonce, a ≠ .runJob j now nonce) → a.completed (D.env i) (s.node i) = none →
      n.published = (s.node i).published ++ (none : Option (Value × Obj)).toList := by
    intro hnot hcompleted
    have hpublished := (Node.leaves_step hstep hnot).published
    rw [hcompleted] at hpublished
    exact hpublished
  have hannounces : (∀ j now nonce, a ≠ .runJob j now nonce) → Announces D s i a →
      ∃ o : Option (Value × Obj), n.published = (s.node i).published ++ o.toList ∧
        (o ≠ none → ∀ peer ∈ (D.site i).getValidPeers,
          (s.line i peer).queue.length < gossipQueueSize) := by
    intro hnot ha
    exact ⟨_, (Node.leaves_step hstep hnot).published, fun hne ↦ ha.room (by simpa using hne)⟩
  cases a with
  | post body query now uuid => exact hannounces (by simp) hcalm
  | frame id data now uuid => exact hannounces (by simp) hcalm
  | runJob j now nonce =>
    obtain ⟨job, -, -, hpublished, -⟩ := Node.runJob_spec hstep
    exact ⟨none, hpublished.trans (List.append_nil _).symm, fun hne ↦ absurd rfl hne⟩
  | connect id queryParams now => exact ⟨none, hother (by simp) rfl, fun hne ↦ absurd rfl hne⟩
  | fetchHistory id now docs => exact ⟨none, hother (by simp) rfl, fun hne ↦ absurd rfl hne⟩
  | resume id => exact ⟨none, hother (by simp) rfl, fun hne ↦ absurd rfl hne⟩
  | disconnect id => exact ⟨none, hother (by simp) rfl, fun hne ↦ absurd rfl hne⟩
  | gossip data now => exact ⟨none, hother (by simp) rfl, fun hne ↦ absurd rfl hne⟩
  | feed room limit now => exact ⟨none, hother (by simp) rfl, fun hne ↦ absurd rfl hne⟩
  | warmCache now docs => exact ⟨none, hother (by simp) rfl, fun hne ↦ absurd rfl hne⟩
  | publicKey username => exact ⟨none, hother (by simp) rfl, fun hne ↦ absurd rfl hne⟩
  | privateKey username => exact ⟨none, hother (by simp) rfl, fun hne ↦ absurd rfl hne⟩
  | background b => exact ⟨none, hother (by simp) rfl, fun hne ↦ absurd rfl hne⟩

/-! ## Both invariants together

They are kept together because each of them uses the other: that everything is told is proved with
caches that are alike, and the other way round. -/

/-- What every step of the runs in question keeps. -/
structure Synced (D : Deployment ι) (s : Cluster ι) : Prop extends Alike D s, Heard D s

omit [DecidableEq ι] in
theorem Synced.initial (D : Deployment ι) : Synced D (Cluster.initial D) := by
  have hidle := fun i ↦ Node.Idle.initial (D.env i)
  have hpublished : ∀ i, (Cluster.initial D).publishedBy i = [] := fun i ↦ (hidle i).published
  have hjobs : ∀ i, ((Cluster.initial D).node i).jobs = [] := fun i ↦ (hidle i).jobs
  refine ⟨⟨fun i ↦ ?_, fun i p hp ↦ ?_, fun i p hp ↦ ?_, fun i job hjob ↦ ?_, fun i p hp ↦ ?_⟩,
    ⟨fun i peer _ m hm ↦ ?_, fun i peer j _ x hx ↦ absurd hx List.not_mem_nil⟩⟩
  · rw [show ((Cluster.initial D).node i).store.cache = .empty from (hidle i).cache]
    rfl
  · exact absurd (hpublished i ▸ hp) List.not_mem_nil
  · exact absurd (hpublished i ▸ hp) List.not_mem_nil
  · exact absurd (hjobs i ▸ hjob) List.not_mem_nil
  · exact absurd (hpublished i ▸ hp) List.not_mem_nil
  · rw [hpublished] at hm
    exact absurd hm (Nat.not_lt_zero m)

theorem Synced.step (h : Synced D s) (hlined : Lined D s)
    (hnode : ∀ i, (Node.system (D.env i)).Reachable (s.node i)) (hconnected : Connected D)
    (hdefault : ∀ i, (D.site i).config.defaultRoom ≠ []) {a : Event ι}
    (hcalm : Undisturbed D s a) (hdated : Dated D s a) (hstep : s.step D a = some s') :
    Synced D s' := by
  have hroom := hcalm.room s' hstep
  have hcalm := hcalm.calm
  cases a with
  | node i b =>
    obtain ⟨n, hn, rfl⟩ := Option.map_eq_some_iff.mp hstep
    have hlen : n.store.cache.globalMsgCache.length < msgCacheSize := by
      have hlen := hroom i
      rw [entriesAt, node_advance, Function.update_self] at hlen
      exact hlen
    have hcache : (s.node i).store.cache.Grows D.lib (b.puts (D.env i) (s.node i))
        n.store.cache := by
      have hputs := Node.cache_step hn
      rw [hputs] at hlen ⊢
      exact (h.whole i).calls hlen
    obtain ⟨o, ho, hqueue⟩ := publishes_of_calm hcalm hn
    exact ⟨h.toAlike.advance (hnode i) (hdefault i) hcalm hdated hn hlen,
      h.toHeard.advance h.toAlike hlined ho hqueue hcache⟩
  | take i peer m =>
    obtain ⟨l, hl, rfl⟩ := Option.map_eq_some_iff.mp hstep
    exact ⟨⟨h.whole, h.sound, h.own, h.jobs, h.reads⟩,
      h.toHeard.setLine (Line.take_perm hl hcalm) (Line.take_spec hl).1⟩
  | finish i peer =>
    obtain ⟨l, hl, rfl⟩ := Option.map_eq_some_iff.mp hstep
    refine ⟨⟨h.whole, h.sound, h.own, h.jobs, h.reads⟩,
      h.toHeard.setLine ?_ (Line.finish_spec hl).2.2⟩
    rw [Line.items_finish hl]
  | deliver i peer k now =>
    obtain ⟨j, hj, hstep⟩ := Option.bind_eq_some_iff.mp hstep
    obtain ⟨⟨batch, l⟩, hl, rfl⟩ := Option.map_eq_some_iff.mp hstep
    have hcache : (s.node j).store.cache.Grows D.lib (batchPuts D s j now batch)
        ((s.node j).receiveGossip (D.env j)
          (some (requestBody (batch.map GossipItem.payload))) now).store.cache := by
      have hlen := hroom j
      rw [entriesAt, receive] at hlen
      simp only [Function.update_self] at hlen
      have hputs := (leaves_receive hlined now hl j).cache
      rw [show (s.setLine i peer l).node j = s.node j from rfl, hputs] at hlen
      rw [hputs]
      exact (h.whole j).calls hlen
    exact ⟨h.toAlike.deliver hlined hconnected.ids hl hcache,
      h.toHeard.deliver h.toAlike hlined hconnected.ids hj hl hcache⟩
  | lose i peer k => exact hcalm.elim

theorem synced_of_dated (hconnected : Connected D)
    (hdefault : ∀ i, (D.site i).config.defaultRoom ≠ [])
    (h : ((system D).when fun s a ↦ Undisturbed D s a ∧ Dated D s a).Reachable s) : Synced D s := by
  refine h.invariant_of (J := fun s ↦ Lined D s ∧ ∀ i, (Node.system (D.env i)).Reachable (s.node i))
    (fun s hs ↦ ⟨lined_of_reachable hs.of_when, reachable_node hs.of_when⟩) ?_ ?_
  · rintro s rfl
    exact .initial D
  · intro s a s' ⟨hlined, hnode⟩ hs ⟨⟨hcalm, hdated⟩, hstep⟩
    exact hs.step hlined hnode hconnected hdefault hcalm hdated hstep

/-- **The feeds converge.**  Once all gossip is delivered, all nodes show the same of all
messages. -/
theorem converged_of_dated (hconnected : Connected D)
    (hdefault : ∀ i, (D.site i).config.defaultRoom ≠ [])
    (h : ((system D).when fun s a ↦ Undisturbed D s a ∧ Dated D s a).Reachable s)
    (hdelivered : Delivered D s) : Converged s := by
  have hsynced := synced_of_dated hconnected hdefault h
  have hknown : ∀ i, ∀ p ∈ s.publishedBy i, ∀ k, pubKey? p = some k → ∀ j, k ∈ s.idsAt j := by
    intro i p hp k hk j
    by_cases hij : i = j
    · exact hij ▸ hsynced.own i p hp k hk
    · obtain ⟨m, hm, rfl⟩ := List.mem_iff_getElem.mp hp
      obtain ⟨peer, hpeer, hresolve⟩ := hconnected.peers i j hij
      obtain ⟨x, hx, htag⟩ := hsynced.complete i peer hpeer m hm
      rw [← Line.passed_perm (hdelivered i peer hpeer)] at hx
      exact hsynced.heard i peer j hresolve x hx _
        (by rw [htag]; exact List.getElem?_eq_getElem hm) k hk
  have hshown : ∀ j, s.shownAt j = {r | ∃ i, ∃ p ∈ s.publishedBy i, pubReading D.lib p = r} := by
    intro j
    ext r
    constructor
    · rintro ⟨e, he, ⟨i, p, hp, hk⟩, rfl⟩
      exact ⟨i, p, hp, (hsynced.reads i p hp j e he hk).symm⟩
    · rintro ⟨i, p, hp, rfl⟩
      obtain ⟨u, username, text, room, ts, -, -, -, htells⟩ := hsynced.sound i p hp
      have hk : pubKey? p = some (.str u) := key_of_tells htells
      obtain ⟨e, he, hek⟩ := (hsynced.whole j).mem_iff.mp (hknown i p hp _ hk j)
      rw [← hek] at hk
      exact ⟨e, he, ⟨i, p, hp, hk⟩, hsynced.reads i p hp j e he hk⟩
  refine ⟨fun i j ↦ (hshown i).trans (hshown j).symm, fun i p hp j ↦ ⟨pubReading D.lib p, ?_, rfl⟩⟩
  rw [hshown]
  exact ⟨i, p, hp, rfl⟩

/-! ## Two runs

A message is posted to the first node of the pair, taken from the queue of its peer and delivered to
the second node, which has a clock of its own.  Whether the message has a proper time makes the
difference between the two runs. -/

/-- A message with a time is posted. -/
def timedPost (timestamp : Value) (now : ℤ) : Node.Event :=
  .post (.json (some (.dict [("id", .str (lit "m1")), ("msg", .str (lit "hi")),
    ("timestamp", timestamp)]))) [] now []

/-- The caches are not full, and what waits can be sent. -/
def Roomy (s : Cluster Bool) : Prop :=
  (∀ i, (s.entriesAt i).length < msgCacheSize) ∧
    sendable ((s.line false (lit "http://localhost:5002")).queue.take 1) = true

instance : DecidablePred Roomy := fun _ ↦ inferInstanceAs (Decidable (_ ∧ _))

theorem connected_pair : Connected pair where
  ids := by decide
  peers := by decide

omit [DecidableEq ι] in
theorem fresh_initial (D : Deployment ι) (k : Key) : Fresh (Cluster.initial D) k := by
  intro i
  have hidle := Node.Idle.initial (D.env i)
  refine ⟨?_, fun job hjob ↦ ?_⟩
  · rw [idsAt, show ((Cluster.initial D).node i).store.cache = .empty from hidle.cache]
    exact Finset.notMem_empty k
  · rw [show ((Cluster.initial D).node i).jobs = [] from hidle.jobs] at hjob
    exact absurd hjob List.not_mem_nil

/-- The run is one of those in question. -/
theorem undisturbed_relayRun {timestamp : Value} {now now' : ℤ} {s₁ s₂ s₃ : Cluster Bool}
    (hcompleted : ∃ sub, (timedPost timestamp now).completed (pair.env false)
      (Node.initial (pair.env false)) = some sub ∧ sub.told.get "id" = .str (lit "m1"))
    (hs₁ : (initial pair).step pair (.node false (timedPost timestamp now)) = some s₁)
    (hs₂ : s₁.step pair (.take false (lit "http://localhost:5002") 1) = some s₂)
    (hs₃ : s₂.step pair (.deliver false (lit "http://localhost:5002") 0 now') = some s₃)
    (hroomy : Roomy s₁ ∧ Roomy s₂ ∧ Roomy s₃) :
    Undisturbed pair (initial pair) (.node false (timedPost timestamp now)) ∧
      Undisturbed pair s₁ (.take false (lit "http://localhost:5002") 1) ∧
      Undisturbed pair s₂ (.deliver false (lit "http://localhost:5002") 0 now') := by
  obtain ⟨sub, hsub, hid⟩ := hcompleted
  obtain ⟨hroomy₁, hroomy₂, hroomy₃⟩ := hroomy
  have hannounces : Announces pair (initial pair) false (timedPost timestamp now) := by
    refine ⟨fun _ hnone ↦ ?_, fun sub' hsub' ↦ ?_, fun _ _ _ ↦ show 0 < gossipQueueSize by decide,
      fun hnone ↦ ?_⟩
    · exact absurd (hsub.symm.trans hnone) (by simp)
    · obtain rfl : sub = sub' := Option.some.inj (hsub.symm.trans hsub')
      exact ⟨lit "m1", by decide, hid, fresh_initial pair _⟩
    · exact absurd (hsub.symm.trans hnone) (by simp)
  refine ⟨⟨hannounces, fun s' hs' ↦ ?_⟩, ⟨hroomy₁.2, fun s' hs' ↦ ?_⟩, ⟨trivial, fun s' hs' ↦ ?_⟩⟩
  · exact Option.some.inj (hs₁.symm.trans hs') ▸ hroomy₁.1
  · exact Option.some.inj (hs₂.symm.trans hs') ▸ hroomy₂.1
  · exact Option.some.inj (hs₃.symm.trans hs') ▸ hroomy₃.1

/-- The states of the run, if each of them has a property that can be decided. -/
theorem exists_relayRun (timestamp : Value) (now now' : ℤ) {P : Cluster Bool → Prop}
    [DecidablePred P] (h : ((initial pair).step pair (.node false (timedPost timestamp now))).elim
      false (fun s₁ ↦ decide (Roomy s₁) &&
        (s₁.step pair (.take false (lit "http://localhost:5002") 1)).elim false fun s₂ ↦
          decide (Roomy s₂) &&
            (s₂.step pair (.deliver false (lit "http://localhost:5002") 0 now')).elim false fun s₃ ↦
              decide (Roomy s₃) && decide (P s₃)) = true) :
    ∃ s₁ s₂ s₃, (initial pair).step pair (.node false (timedPost timestamp now)) = some s₁ ∧
      s₁.step pair (.take false (lit "http://localhost:5002") 1) = some s₂ ∧
      s₂.step pair (.deliver false (lit "http://localhost:5002") 0 now') = some s₃ ∧
      (Roomy s₁ ∧ Roomy s₂ ∧ Roomy s₃) ∧ P s₃ := by
  cases hs₁ : (initial pair).step pair (.node false (timedPost timestamp now)) with
  | none => simp [hs₁] at h
  | some s₁ =>
    rw [hs₁, Option.elim_some, Bool.and_eq_true, decide_eq_true_iff] at h
    obtain ⟨hroomy₁, h⟩ := h
    cases hs₂ : s₁.step pair (.take false (lit "http://localhost:5002") 1) with
    | none => simp [hs₂] at h
    | some s₂ =>
      rw [hs₂, Option.elim_some, Bool.and_eq_true, decide_eq_true_iff] at h
      obtain ⟨hroomy₂, h⟩ := h
      cases hs₃ : s₂.step pair (.deliver false (lit "http://localhost:5002") 0 now') with
      | none => simp [hs₃] at h
      | some s₃ =>
        rw [hs₃, Option.elim_some, Bool.and_eq_true, decide_eq_true_iff, decide_eq_true_iff] at h
        exact ⟨s₁, s₂, s₃, rfl, hs₂, hs₃, ⟨hroomy₁, hroomy₂, h.1⟩, h.2⟩

/-! ## When everything is delivered

Whether the lines are idle can be decided for the pair of nodes, so that the two runs can be
evaluated. -/

/-- All lines of the pair are idle. -/
def Quiescent (s : Cluster Bool) : Prop :=
  ∀ i, ∀ peer ∈ (pair.site i).getValidPeers,
    (s.line i peer).queue.length = 0 ∧ (s.line i peer).flight.length = 0

instance : DecidablePred Quiescent := fun _ ↦ inferInstanceAs (Decidable (∀ _, ∀ _ ∈ _, _))

theorem Quiescent.delivered {s : Cluster Bool} (h : Quiescent s) : Delivered pair s := by
  intro i peer hpeer
  obtain ⟨hqueue, hflight⟩ := h i peer hpeer
  exact ⟨List.length_eq_zero_iff.mp hqueue, List.length_eq_zero_iff.mp hflight⟩

/-- A message with the time 1. -/
theorem converged_relayRun :
    ∃ s : Cluster Bool, (s.publishedBy false).length = 1 ∧ Converged s := by
  obtain ⟨s₁, s₂, s₃, hs₁, hs₂, hs₃, hroomy, hquiescent, hlength⟩ :=
    exists_relayRun (.int 1) 5 7 (P := fun s ↦ Quiescent s ∧ (s.publishedBy false).length = 1)
      (by decide +kernel)
  have hcompleted : ∃ sub, (timedPost (.int 1) 5).completed (pair.env false)
      (Node.initial (pair.env false)) = some sub ∧ sub.told.get "id" = .str (lit "m1") ∧
        sub.told.get "timestamp" = .int 1 := ⟨_, rfl, rfl, rfl⟩
  obtain ⟨sub, hsub, hid, hts⟩ := hcompleted
  obtain ⟨h₁, h₂, h₃⟩ := undisturbed_relayRun ⟨sub, hsub, hid⟩ hs₁ hs₂ hs₃ hroomy
  have hdated : Dated pair (initial pair) (.node false (timedPost (.int 1) 5)) := by
    intro sub' hsub' hzero
    obtain rfl : sub = sub' := Option.some.inj (hsub.symm.trans hsub')
    exact absurd (Value.int.inj (hts.symm.trans hzero)) (by decide)
  have hinit : ((system pair).when fun s a ↦ Undisturbed pair s a ∧ Dated pair s a).Reachable
      (initial pair) := .of_init rfl
  have hreach₁ :
      ((system pair).when fun s a ↦ Undisturbed pair s a ∧ Dated pair s a).Reachable s₁ :=
    hinit.tail ⟨⟨h₁, hdated⟩, hs₁⟩
  have hreach₂ :
      ((system pair).when fun s a ↦ Undisturbed pair s a ∧ Dated pair s a).Reachable s₂ :=
    hreach₁.tail ⟨⟨h₂, trivial⟩, hs₂⟩
  have hreach₃ :
      ((system pair).when fun s a ↦ Undisturbed pair s a ∧ Dated pair s a).Reachable s₃ :=
    hreach₂.tail ⟨⟨h₃, trivial⟩, hs₃⟩
  exact ⟨s₃, hlength, converged_of_dated connected_pair (by decide) hreach₃ hquiescent.delivered⟩

/-- A message with the time 0 is shown with the times of the two clocks. -/
theorem not_converged_relayRun : ∃ s : Cluster Bool,
    ((system pair).when (Undisturbed pair)).Reachable s ∧ Delivered pair s ∧ ¬ Converged s := by
  obtain ⟨s₁, s₂, s₃, hs₁, hs₂, hs₃, hroomy, hquiescent, hfirst, hsecond, hpublished⟩ :=
    exists_relayRun (.str (lit "0")) 5 7 (P := fun s ↦ Quiescent s ∧
        ((s.entriesAt false).map fun e ↦ (e.key, e.timestamp)) = [(.str (lit "m1"), 5)] ∧
        ((s.entriesAt true).map fun e ↦ e.timestamp) = [7] ∧
        ((s.publishedBy false).map pubKey?) = [some (.str (lit "m1"))]) (by decide +kernel)
  obtain ⟨h₁, h₂, h₃⟩ := undisturbed_relayRun ⟨_, rfl, rfl⟩ hs₁ hs₂ hs₃ hroomy
  have hinit : ((system pair).when (Undisturbed pair)).Reachable (initial pair) := .of_init rfl
  have hreach₁ : ((system pair).when (Undisturbed pair)).Reachable s₁ := hinit.tail ⟨h₁, hs₁⟩
  have hreach₂ : ((system pair).when (Undisturbed pair)).Reachable s₂ := hreach₁.tail ⟨h₂, hs₂⟩
  refine ⟨s₃, hreach₂.tail ⟨h₃, hs₃⟩, hquiescent.delivered, fun hconverged ↦ ?_⟩
  obtain ⟨e, he, heq⟩ := List.map_eq_singleton_iff.mp hfirst
  obtain ⟨hkey, htime⟩ := Prod.mk.inj heq
  obtain ⟨e', he', htime'⟩ := List.map_eq_singleton_iff.mp hsecond
  obtain ⟨p, hp, hpkey⟩ := List.map_eq_singleton_iff.mp hpublished
  have hshown : e.toObj.reading ∈ s₃.shownAt false := by
    refine ⟨e, ?_, ⟨false, p, ?_, ?_⟩, rfl⟩
    · rw [he]
      exact List.mem_singleton_self e
    · rw [hp]
      exact List.mem_singleton_self p
    · rw [hpkey, hkey]
  rw [hconverged.same false true] at hshown
  obtain ⟨x, hx, -, hread⟩ := hshown
  rw [he', List.mem_singleton] at hx
  have htimes : Value.int x.timestamp = .int e.timestamp := congrArg Reading.timestamp hread
  rw [hx, htime, htime'] at htimes
  exact absurd (Value.int.inj htimes) (by decide)

end Cluster

end GroupChat
