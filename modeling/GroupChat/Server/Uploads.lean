import GroupChat.Py.Loads
import GroupChat.Server.Effects

/-!
# Uploads in the feed

All values in the entry of a message are made strings and numbers by `_cache_put`, except its id.
`json.loads` makes nothing that `json.dumps` cannot write, but the form of a multipart request can
have an upload in the field `id`: it is hashable, so the message is filed, and from then on the feed
cannot be serialised.

* `AllIds P` says that the ids which a node has filed or is still to file have the property `P`.  It
  holds if all ids that come in from outside have it (`Event.ids`); the ids that the node makes
  itself, and those of the database, are strings.
* `Event.Parsed` is what the parsers guarantee (`Event.parsed_of_loads`), and `Event.NoUpload` is
  the condition that remains: no message is posted with an upload as its id.
* `unpoisoned_of_noUpload`: then the feed is always served whole.
* `not_unpoisoned_uploadRun`: one request that does not meet the condition blanks it, although the
  request itself fails.
-/

set_option autoImplicit false

namespace GroupChat

open Transition

/-! ## Values without uploads

Fields are picked from dictionaries, with alternatives and defaults.  Whatever is picked is one of
the values that were there, and can be serialised if these can. -/

/-- A field is `None` or there. -/
theorem Obj.get_cases (d : Obj) (k : String) : d.get k = .none ∨ ∃ p ∈ d, d.get k = p.2 := by
  rw [Obj.get]
  cases h : d.find? fun p ↦ p.1 == k with
  | none => exact Or.inl rfl
  | some p => exact Or.inr ⟨p, List.mem_of_find?_eq_some h, rfl⟩

/-- A chain of alternatives ends in one of the fields or at its end. -/
theorem Obj.firstOf_cases (d : Obj) (ks : List String) (v : Value) :
    d.firstOf ks v = v ∨ ∃ p ∈ d, d.firstOf ks v = p.2 := by
  induction ks with
  | nil => exact Or.inl rfl
  | cons k ks ih =>
    rw [Obj.firstOf]
    by_cases hk : (d.get k).truthy = true
    · rw [Value.or_of_truthy hk]
      rcases d.get_cases k with hnone | hp
      · exact absurd (hnone ▸ hk) (by simp [Value.truthy])
      · exact Or.inr hp
    · rw [Value.or_of_falsy (by simpa using hk)]
      exact ih

theorem Obj.serialisable_get {d : Obj} (h : (Value.dict d).serialisable = true) (k : String) :
    (d.get k).serialisable = true := by
  rw [Value.serialisable, Value.serialisableFields_iff] at h
  rcases d.get_cases k with hnone | ⟨p, hp, heq⟩
  · rw [hnone]
    rfl
  · rw [heq]
    exact h p hp

theorem Obj.serialisable_getD {d : Obj} (h : (Value.dict d).serialisable = true) (k : String)
    {v : Value} (hv : v.serialisable = true) : (d.getD k v).serialisable = true := by
  have hget := Obj.serialisable_get h k
  rw [Obj.get] at hget
  rw [Obj.getD]
  cases hfind : d.find? fun p ↦ p.1 == k with
  | none => exact hv
  | some p =>
    rw [hfind] at hget
    exact hget

theorem Value.serialisable_or {v w : Value} (hv : v.serialisable = true)
    (hw : w.serialisable = true) : (v.or w).serialisable = true := by
  rw [Value.or]
  split
  · exact hv
  · exact hw

theorem Entry.serialisable_toObj (e : Entry) :
    (Value.dict e.toObj).serialisable = e.id.serialisable := by
  simp [Value.serialisable, Value.serialisable.serialisableFields, Entry.toObj]

/-- The id that a job is to file. -/
def Job.msgId? : Job → Option Value
  | .append _ msg _ => some (Obj.get msg "id")
  | .saveUserPublicKey _ _ => none

namespace Node

/-! ## The ids of a node

The ids are followed from where they come in to the cache, by way of the jobs and the rows of the
database.  The property is a parameter, so nothing here depends on what an upload is. -/

/-- The ids that come in with an event. -/
def Event.ids (env : Env) : Event → List Value
  | .post body query now uuid =>
    ((postSubmission env body query now uuid).map fun s ↦ Obj.get s.cached "id").toList
  | .gossip (some v) now =>
    ((gossipItems v).filterMap (itemSubmission env now)).map fun s ↦ Obj.get s.cached "id"
  | _ => []

/-- All ids that are filed, or are to be, have the property. -/
structure AllIds (P : Value → Prop) (n : Node) : Prop where
  entries : ∀ e ∈ n.store.cache.globalMsgCache, P e.id
  jobs : ∀ j ∈ n.jobs, ∀ v ∈ j.msgId?, P v

variable {env : Env} {n n' : Node} {P : Value → Prop}

/-- The entries after some calls have their ids from before or from the calls. -/
theorem id_of_mem_calls {L : PyLib} {puts : List PutCall} {e : Entry} : ∀ {c : FeedCache},
    e ∈ (puts.foldl (·.call L) c).globalMsgCache →
      e ∈ c.globalMsgCache ∨ ∃ p ∈ puts, e.id = Obj.get p.msg "id" := by
  induction puts with
  | nil => exact fun h ↦ Or.inl h
  | cons p puts ih =>
    intro c h
    rcases ih h with hmem | ⟨q, hq, hid⟩
    · rcases FeedCache.mem_call hmem with hold | ⟨hentry, -⟩
      · exact Or.inl hold
      · have hid := (eq_of_compactMsg (PutCall.entry?_eq_some_iff.mp hentry)).2.1
        exact Or.inr ⟨p, List.mem_cons_self, hid⟩
    · exact Or.inr ⟨q, List.mem_cons_of_mem _ hq, hid⟩

theorem mem_rowPuts {L : PyLib} {now : ℤ} {rows : List (Value × Obj)} {p : PutCall}
    (h : p ∈ rowPuts L now rows) : ∃ r ∈ rows, p = ⟨now, r.1, r.2⟩ := by
  obtain ⟨r, hr, rfl⟩ := List.mem_map.mp ((List.takeWhile_sublist _).subset h)
  exact ⟨r, hr, rfl⟩

theorem mem_itemPuts {now : ℤ} {p : PutCall} {items : List Value} : ∀ {n : Node},
    p ∈ itemPuts env now n items →
      ∃ s ∈ items.filterMap (itemSubmission env now), p = s.put now := by
  induction items with
  | nil => exact fun h ↦ absurd h List.not_mem_nil
  | cons item items ih =>
    intro n h
    rw [itemPuts] at h
    rcases List.mem_append.mp h with h | h
    · obtain ⟨s, hs, rfl⟩ := Option.map_eq_some_iff.mp (Option.mem_toList.mp h)
      exact ⟨s, List.mem_filterMap.mpr ⟨item, List.mem_cons_self, hs⟩, rfl⟩
    · obtain ⟨n₁, e, hitem⟩ : ∃ n₁ e, n.receiveItem env item now = (n₁, e) := ⟨_, _, rfl⟩
      rw [hitem] at h
      cases e with
      | some e => exact absurd h List.not_mem_nil
      | none =>
        obtain ⟨s, hs, hp⟩ := ih h
        obtain ⟨item', hitem', hs'⟩ := List.mem_filterMap.mp hs
        exact ⟨s, List.mem_filterMap.mpr ⟨item', List.mem_cons_of_mem _ hitem', hs'⟩, hp⟩

/-! ## The ids of a step

What a step files, and what it leaves to the executor, has ids that came in with it or were there
before. -/

/-- The id of a message frame is a string. -/
theorem id_of_frameSubmission {c : Client} {data : Obj} {now : ℤ} {uuid : Str} {s : Submission}
    (h : frameSubmission env c data now uuid = some s) :
    ∃ i, Obj.get s.cached "id" = .str i ∧ ∀ j ∈ s.job, j.msgId? = some (.str i) := by
  rw [frameSubmission] at h
  split at h
  · obtain rfl := Option.some.inj h
    refine ⟨_, rfl, ?_⟩
    rintro j ⟨⟩
    rfl
  · simp at h

/-- The ids of the calls of a step. -/
theorem AllIds.puts (h : AllIds P n) (hstr : ∀ s, P (.str s)) {a : Event}
    (ha : ∀ v ∈ a.ids env, P v) : ∀ p ∈ a.puts env n, P (Obj.get p.msg "id") := by
  intro p hp
  cases a with
  | frame id data now uuid =>
    obtain ⟨s, hs, rfl⟩ := List.mem_map.mp hp
    cases data with
    | dict fields =>
      rw [Event.submissions] at hs
      split at hs
      · obtain ⟨c, -, hsub⟩ := Option.bind_eq_some_iff.mp (Option.mem_toList.mp hs)
        obtain ⟨i, hi, -⟩ := id_of_frameSubmission hsub
        exact hi ▸ hstr i
      · exact absurd hs List.not_mem_nil
    | _ => exact absurd hs List.not_mem_nil
  | post body query now uuid =>
    obtain ⟨s, hs, rfl⟩ := Option.map_eq_some_iff.mp (Option.mem_toList.mp hp)
    exact ha _ (Option.mem_toList.mpr (Option.map_eq_some_iff.mpr ⟨s, hs, rfl⟩))
  | gossip data now =>
    cases data with
    | none => exact absurd hp List.not_mem_nil
    | some v =>
      obtain ⟨s, hs, rfl⟩ := mem_itemPuts hp
      exact ha _ (List.mem_map.mpr ⟨s, hs, rfl⟩)
  | fetchHistory id now docs =>
    rw [Event.puts, fetchPuts] at hp
    split at hp
    · split at hp
      · obtain ⟨r, hr, rfl⟩ := mem_rowPuts hp
        obtain ⟨doc, -, rfl⟩ := List.mem_map.mp hr
        exact hstr _
      · exact absurd hp List.not_mem_nil
    · exact absurd hp List.not_mem_nil
  | runJob i now nonce =>
    obtain ⟨d, hd, rfl⟩ := Option.map_eq_some_iff.mp (Option.mem_toList.mp hp)
    rw [jobDoc] at hd
    split at hd
    · rename_i roomId msg key hjob
      show P d.id
      rw [(appended_spec hd).1]
      exact h.jobs _ (List.mem_of_getElem? hjob) _ rfl
    · simp at hd
  | warmCache now docs =>
    rw [Event.puts] at hp
    split at hp
    · exact absurd hp List.not_mem_nil
    · obtain ⟨r, hr, rfl⟩ := mem_rowPuts hp
      obtain ⟨doc, -, rfl⟩ := List.mem_map.mp hr
      exact hstr _
  | _ => exact absurd hp List.not_mem_nil

/-- The id of the job of a step. -/
theorem id_of_job (hstr : ∀ s, P (.str s)) {a : Event} (ha : ∀ v ∈ a.ids env, P v) :
    ∀ j ∈ a.job env n, ∀ v ∈ j.msgId?, P v := by
  intro j hj v hv
  cases a with
  | frame id data now uuid =>
    cases data with
    | dict data =>
      obtain ⟨c, -, hj⟩ := Option.bind_eq_some_iff.mp hj
      rw [frameJob] at hj
      split at hj
      · rw [joinJob] at hj
        split at hj
        · simp at hj
        · obtain ⟨username, -, rfl⟩ := Option.map_eq_some_iff.mp hj
          exact absurd hv (by simp [Job.msgId?])
      · split at hj
        · rename_i htype
          obtain ⟨s, hs, hjob⟩ := Option.bind_eq_some_iff.mp hj
          rw [completedFrame, if_pos htype] at hs
          obtain ⟨i, -, hi⟩ := id_of_frameSubmission (Option.filter_eq_some_iff.mp hs).1
          rw [hi j hjob] at hv
          exact Option.some.inj hv ▸ hstr i
        · split at hj
          · rw [privateJob] at hj
            split at hj
            · obtain rfl := Option.some.inj hj
              exact Option.some.inj hv ▸ hstr uuid
            · simp at hj
          · simp at hj
    | _ => exact absurd hj (by simp [Event.job])
  | post body query now uuid =>
    obtain ⟨s, hs, hjob⟩ := Option.bind_eq_some_iff.mp hj
    have hsub := postSubmission_of_completed hs
    obtain ⟨data, -, -, rfl⟩ := text_of_postSubmission hsub
    obtain rfl := Option.some.inj hjob
    obtain rfl := Option.some.inj hv
    exact ha _ (Option.mem_toList.mpr (Option.map_eq_some_iff.mpr ⟨_, hsub, rfl⟩))
  | _ => exact absurd hj (by simp [Event.job])

/-- **What all ids from outside have in common with strings, all ids of the node have.** -/
theorem AllIds.step (h : AllIds P n) (hstr : ∀ s, P (.str s)) {a : Event}
    (ha : ∀ v ∈ a.ids env, P v) (hstep : n.step env a = some n') : AllIds P n' := by
  constructor
  · intro e he
    rw [cache_step hstep] at he
    rcases id_of_mem_calls he with hold | ⟨p, hp, hid⟩
    · exact h.entries e hold
    · exact hid ▸ h.puts hstr ha p hp
  · intro j hj
    by_cases hjob : ∃ i now nonce, a = .runJob i now nonce
    · obtain ⟨i, now, nonce, rfl⟩ := hjob
      obtain ⟨job, -, hjobs, -⟩ := runJob_spec hstep
      rw [hjobs] at hj
      exact h.jobs j (List.mem_of_mem_eraseIdx hj)
    · rw [(leaves_step hstep fun i now nonce heq ↦ hjob ⟨i, now, nonce, heq⟩).jobs] at hj
      rcases List.mem_append.mp hj with hj | hj
      · exact h.jobs j hj
      · exact id_of_job hstr ha j (Option.mem_toList.mp hj)

theorem allIds_initial (P : Value → Prop) (env : Env) : AllIds P (initial env) := by
  constructor
  · rw [(Quiet.initial env).store]
    exact fun e he ↦ absurd he List.not_mem_nil
  · rw [(Quiet.initial env).jobs]
    exact fun j hj ↦ absurd hj List.not_mem_nil

/-! ## What the parsers make

A frame, a gossip request and a body that is JSON are made by `json.loads`, and a query string has
texts only.  Only a multipart form can contain anything else. -/

/-- The values of a query string. -/
def Query (query : Obj) : Prop := ∀ p ∈ query, ∃ s, p.2 = .str s

/-- The values of an event are such as its source makes: `json.loads` makes no uploads, a query
string has strings, and a form has strings and uploads. -/
def Event.Parsed : Event → Prop
  | .frame _ data _ _ => data.serialisable = true
  | .post (.json data) query _ _ => (∀ v ∈ data, v.serialisable = true) ∧ Query query
  | .post (.form fields) query _ _ =>
    (∀ fs ∈ fields, ∀ p ∈ fs, (∃ s, p.2 = .str s) ∨ ∃ o, p.2 = .file o) ∧ Query query
  | .gossip data _ => ∀ v ∈ data, v.serialisable = true
  | _ => True

/-- What `json.loads` returns can be written again, whether it is a frame, a body or gossip. -/
theorem Event.parsed_of_loads {J : JsonLib} {raw : Str} {data : Value}
    (h : loads J raw = .ok data) :
    (∀ id now uuid, (Event.frame id data now uuid).Parsed) ∧
      (∀ query now uuid, Query query → (Event.post (.json (some data)) query now uuid).Parsed) ∧
        ∀ now, (Event.gossip (some data) now).Parsed := by
  have hsome : ∀ v ∈ some data, v.serialisable = true := fun v hv ↦
    Option.mem_some_iff.mp hv ▸ serialisable_of_loads h
  exact ⟨fun _ _ _ ↦ serialisable_of_loads h, fun _ _ _ hquery ↦ ⟨hsome, hquery⟩, fun _ ↦ hsome⟩

/-- No message is posted with an upload as its id. -/
def Event.NoUpload : Event → Prop
  | .post body query _ uuid => ∀ data, body.data = some (.dict data) →
      (msgText data query).truthy = true → ∀ o, postedId data query uuid ≠ .file o
  | _ => True

/-! ## The ids that come in

One lemma for each source of ids. -/

/-- The id of a post is one of the fields of the body, of the query, or generated. -/
theorem postedId_cases (data query : Obj) (uuid : Str) :
    (∃ p ∈ data, postedId data query uuid = p.2) ∨ (∃ p ∈ query, postedId data query uuid = p.2) ∨
      postedId data query uuid = .str uuid := by
  rw [postedId]
  rcases data.firstOf_cases ["id", "msg_id"] (query.firstOf ["id"] (.str uuid)) with h | h
  · rw [h]
    rcases query.firstOf_cases ["id"] (.str uuid) with h | h
    · exact Or.inr (Or.inr h)
    · exact Or.inr (Or.inl h)
  · exact Or.inl h

/-- The id of a gossip item is one of its values. -/
theorem serialisable_itemSubmission {now : ℤ} {item : Value} (hitem : item.serialisable = true)
    {s : Submission} (h : itemSubmission env now item = some s) :
    (Obj.get s.cached "id").serialisable = true := by
  obtain ⟨⟨room, msg⟩, hmsg, rfl⟩ := Option.map_eq_some_iff.mp h
  unfold gossipMessage at hmsg
  split at hmsg
  · rename_i d
    have hd : ∀ f m, Obj.get d "msg" = .dict (f :: m) →
        (Obj.get (f :: m) "id").serialisable = true := by
      intro f m hget
      have hinner := Obj.serialisable_get hitem "msg"
      rw [hget] at hinner
      exact Obj.serialisable_get hinner "id"
    split at hmsg
    · rename_i origin f m horigin hget
      split at hmsg
      · simp at hmsg
      · obtain ⟨rfl, rfl⟩ := Prod.mk.inj (Option.some.inj hmsg)
        exact hd f m hget
    · rename_i f m hget hnot
      obtain ⟨rfl, rfl⟩ := Prod.mk.inj (Option.some.inj hmsg)
      exact hd f m hget
    · simp at hmsg
  · simp at hmsg

theorem serialisable_gossipItems {v : Value} (h : v.serialisable = true) :
    ∀ item ∈ gossipItems v, item.serialisable = true := by
  intro item hitem
  cases v with
  | list xs => exact (Value.serialisableList_iff xs).mp h item hitem
  | _ => exact List.mem_singleton.mp hitem ▸ h

/-- **Under the condition, only serialisable ids come in.** -/
theorem serialisable_ids {a : Event} (hparsed : a.Parsed) (hid : a.NoUpload) :
    ∀ v ∈ a.ids env, v.serialisable = true := by
  intro v hv
  cases a with
  | post body query now uuid =>
    obtain ⟨s, hs, rfl⟩ := Option.map_eq_some_iff.mp (Option.mem_toList.mp hv)
    obtain ⟨data, hdata, htext, rfl⟩ := text_of_postSubmission hs
    show (postedId data query uuid).serialisable = true
    have hno := hid data hdata htext
    have hquery : ∀ p ∈ query, p.2.serialisable = true := by
      intro p hp
      have hq : Query query := by
        cases body with
        | json body => exact hparsed.2
        | form fields => exact hparsed.2
      obtain ⟨s, hs⟩ := hq p hp
      rw [hs]
      rfl
    rcases postedId_cases data query uuid with ⟨p, hp, heq⟩ | ⟨p, hp, heq⟩ | heq
    · rw [heq]
      cases body with
      | json body =>
        cases body with
        | none =>
          obtain rfl : [] = data := Value.dict.inj (Option.some.inj hdata)
          exact absurd hp List.not_mem_nil
        | some w =>
          obtain rfl : w = .dict data := Option.some.inj hdata
          exact (Value.serialisableFields_iff data).mp (hparsed.1 _ rfl) p hp
      | form fields =>
        obtain ⟨fs, rfl⟩ : ∃ fs, fields = some fs := by
          cases fields with
          | none => simp [Body.data] at hdata
          | some fs => exact ⟨fs, rfl⟩
        obtain rfl : fs = data := Value.dict.inj (Option.some.inj hdata)
        rcases hparsed.1 fs rfl p hp with ⟨s, hs⟩ | ⟨o, ho⟩
        · rw [hs]
          rfl
        · exact absurd (heq.trans ho) (hno o)
    · rw [heq]
      exact hquery p hp
    · rw [heq]
      rfl
  | gossip data now =>
    cases data with
    | none => exact absurd hv List.not_mem_nil
    | some w =>
      obtain ⟨s, hs, rfl⟩ := List.mem_map.mp hv
      obtain ⟨item, hitem, hsub⟩ := List.mem_filterMap.mp hs
      exact serialisable_itemSubmission (serialisable_gossipItems (hparsed w rfl) item hitem) hsub
  | _ => exact absurd hv List.not_mem_nil

/-! ## The feed

The snapshot of the feed is one `json.dumps` of all entries, so one entry that cannot be
serialised makes the whole of it empty. -/

/-- The text of a list that is not empty is not `[]`. -/
theorem dumps_ne_nil {L : PyLib} {msgs : List Entry} {b : Str} (hne : msgs ≠ [])
    (h : (dumpsBytes L).dumps msgs = some b) : b ≠ (dumpsBytes L).nil := by
  obtain ⟨e, he⟩ := List.exists_mem_of_ne_nil msgs hne
  obtain ⟨t, ht, hin⟩ := Value.infix_dumps_list L (List.mem_map_of_mem he) h
  obtain ⟨ts, -, rfl⟩ := Option.map_eq_some_iff.mp ht
  have hbrace : 123 ∈ b := hin.subset (by simp [lit])
  rintro rfl
  have hnil : 123 ∉ lit "[]" := by decide
  exact hnil hbrace

/-- Every entry can be serialised, and a serialisation has all of them: as a text, whatever the
globals of `get_feed_bytes` are, and as the feed that the node serves. -/
structure Unpoisoned (env : Env) (n : Node) : Prop where
  entries : ∀ e ∈ n.store.cache.globalMsgCache, (Value.dict e.toObj).serialisable = true
  text : ∀ (j : FeedJson Str) (now : ℚ), ¬j.Fast now →
    (dumpsBytes env.lib).dumps n.store.cache.globalMsgCache =
      some (getFeedBytes (dumpsBytes env.lib) n.store.cache j now).feedJsonCache
  nonempty : n.store.cache.globalMsgCache ≠ [] → ∀ (j : FeedJson Str) (now : ℚ), ¬j.Fast now →
    (getFeedBytes (dumpsBytes env.lib) n.store.cache j now).feedJsonCache ≠
      (dumpsBytes env.lib).nil
  feed : ∀ now : ℤ, ¬n.store.json.Fast ((now : ℚ) / 1000) →
    (n.store.globalFeed now).1 = n.store.cache.globalMsgCache

theorem getFeedBytes_of_serialisable {β : Type*} (D : Dumps β) {c : FeedCache} {j : FeedJson β}
    {now : ℚ} (hc : ∀ e ∈ c.globalMsgCache, e.id.serialisable = true) (hj : ¬j.Fast now) :
    D.dumps c.globalMsgCache = some (getFeedBytes D c j now).feedJsonCache := by
  obtain ⟨b, hb⟩ := Option.isSome_iff_exists.mp ((D.isSome_dumps _).mpr hc)
  rw [getFeedBytes, if_neg hj, hb]

theorem AllIds.unpoisoned (h : AllIds (·.serialisable = true) n) : Unpoisoned env n where
  entries e he := (Entry.serialisable_toObj e).trans (h.entries e he)
  text j now hj := getFeedBytes_of_serialisable _ h.entries hj
  nonempty hne j now hj := dumps_ne_nil hne (getFeedBytes_of_serialisable _ h.entries hj)
  feed now hj := by
    have hdumps := getFeedBytes_of_serialisable dumpsEntries h.entries hj
    rw [show dumpsEntries.dumps n.store.cache.globalMsgCache =
      some n.store.cache.globalMsgCache from if_pos h.entries] at hdumps
    exact (Option.some.inj hdumps).symm

/-- **As long as no message is posted with an upload as its id, the feed is served whole.** -/
theorem unpoisoned_of_noUpload
    (h : ((system env).when fun _ a ↦ a.Parsed ∧ a.NoUpload).Reachable n) : Unpoisoned env n := by
  refine AllIds.unpoisoned (h.invariant (I := AllIds (·.serialisable = true)) ?_ ?_)
  · rintro s rfl
    exact allIds_initial _ env
  · rintro s a s' hs ⟨⟨hparsed, hid⟩, hstep⟩
    exact hs.step (fun _ ↦ rfl) (serialisable_ids hparsed hid) hstep

/-! ## Two runs

A run with ordinary ids, and one with an upload for an id, which stays in the cache although its
request has failed. -/

/-- A request, a frame and a gossip request with ordinary ids. -/
def ordinaryRun : List Event :=
  [postEvent (lit "m1") (lit "hi"), .connect (lit "1") [("username", .str (lit "Bob"))] 0,
    .frame (lit "1") (.dict [("type", .str (lit "message")), ("id", .int 2),
      ("text", .str (lit "hello"))]) 0 [],
    .gossip (some (.list [.dict [("origin", .str (lit "node-2")),
      ("msg", .dict [("id", .float (.finite 3)), ("text", .str (lit "hey"))])]])) 0]

theorem unpoisoned_ordinaryRun : ∃ n : Node,
    n.store.cache.globalMsgCache.length = 3 ∧ Unpoisoned plainEnv n := by
  have hexec : (System.exec (step plainEnv) (initial plainEnv) ordinaryRun).map
      (fun n ↦ n.store.cache.globalMsgCache.length) = some 3 := by
    decide +kernel
  obtain ⟨n, hn, hlength⟩ := Option.map_eq_some_iff.mp hexec
  have htrace : (system plainEnv).Trace (initial plainEnv) ordinaryRun n := System.trace_of_exec hn
  have hquery : Query [] := fun p hp ↦ absurd hp List.not_mem_nil
  have hmeets : ∀ a ∈ ordinaryRun, a.Parsed ∧ a.NoUpload := by
    intro a ha
    simp only [ordinaryRun, List.mem_cons, List.not_mem_nil, or_false] at ha
    rcases ha with rfl | rfl | rfl | rfl
    · refine ⟨⟨?_, hquery⟩, ?_⟩
      · rintro v ⟨⟩
        decide
      · rintro data ⟨⟩ - o ⟨⟩
    · exact ⟨trivial, trivial⟩
    · exact ⟨show Value.serialisable _ = true by decide, trivial⟩
    · refine ⟨?_, trivial⟩
      rintro v ⟨⟩
      decide
  exact ⟨n, hlength,
    unpoisoned_of_noUpload ((htrace.when fun _ a ha ↦ hmeets a ha).reachable rfl)⟩

/-- A request whose form has an upload in its field `id`, after an ordinary one. -/
def uploadRun : List Event :=
  [postEvent (lit "m1") (lit "hi"),
    .post (.form (some [("client-name", .str (lit "Mallory")), ("msg", .str (lit "x")),
      ("id", .file 0)])) [] 0 []]

/-- Both messages are cached, and the feed is empty. -/
theorem not_unpoisoned_uploadRun : ∃ n,
    ((system plainEnv).when fun _ a ↦ a.Parsed).Reachable n ∧
      n.store.cache.globalMsgCache.length = 2 ∧ (n.store.globalFeed 2000).1.length = 0 ∧
        ¬Unpoisoned plainEnv n := by
  have hexec : (System.exec (step plainEnv) (initial plainEnv) uploadRun).map
      (fun n ↦ (n.store.cache.globalMsgCache.length, (n.store.globalFeed 2000).1.length,
        decide (n.store.json.Fast ((2000 : ℤ) / 1000)))) = some (2, 0, false) := by
    decide +kernel
  obtain ⟨n, hn, hproj⟩ := Option.map_eq_some_iff.mp hexec
  obtain ⟨hcache, hrest⟩ := Prod.ext_iff.mp hproj
  obtain ⟨hfeed, hfast⟩ := Prod.ext_iff.mp hrest
  have htrace : (system plainEnv).Trace (initial plainEnv) uploadRun n := System.trace_of_exec hn
  have hquery : Query [] := fun p hp ↦ absurd hp List.not_mem_nil
  have hparsed : ∀ a ∈ uploadRun, a.Parsed := by
    intro a ha
    simp only [uploadRun, List.mem_cons, List.not_mem_nil, or_false] at ha
    rcases ha with rfl | rfl
    · refine ⟨?_, hquery⟩
      rintro v ⟨⟩
      decide
    · refine ⟨?_, hquery⟩
      rintro fs ⟨⟩ p hp
      simp only [List.mem_cons, List.not_mem_nil, or_false] at hp
      rcases hp with rfl | rfl | rfl
      · exact Or.inl ⟨_, rfl⟩
      · exact Or.inl ⟨_, rfl⟩
      · exact Or.inr ⟨0, rfl⟩
  refine ⟨n, (htrace.when fun _ a ha ↦ hparsed a ha).reachable rfl, hcache, hfeed, fun h ↦ ?_⟩
  have hserved := congrArg List.length (h.feed 2000 (of_decide_eq_false hfast))
  rw [show (n.store.globalFeed 2000).1.length = 0 from hfeed,
    show n.store.cache.globalMsgCache.length = 2 from hcache] at hserved
  exact absurd hserved (by decide)

end Node

end GroupChat
