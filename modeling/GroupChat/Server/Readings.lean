import GroupChat.Server.Changes

/-!
# What a message reads like

A message that has been accepted and persisted can reach a reader in three ways: from the cache of
the node that has accepted it, from a cache that `warm_cache_from_db` has filled, or as a row that
`get_history` has fetched.  The first two are made by `_cache_put`, which cuts the fields to size
and supplies what is missing; the third is made by `_doc_to_msg`, which does not.

* `Obj.reading` are the five fields of a message that a reader sees.
* `Persists`: a submission has led to a document, and `Doc.toRow` is what the database returns
  for it.
* `Plain` is the condition on a message: its id and its room are strings, the room fits into 24
  characters and the name of the sender into 100, there is a text, and the time is not 0.
* `readsAlike_iff`: the three readings are the same if and only if the message is plain.

The conversions cut the fields, supply defaults and leave something out in different places.  Each
field of `Plain` is the condition under which they agree on one of the fields that a reader sees.
-/

set_option autoImplicit false

namespace GroupChat

/-! ## Reading a message

A reader sees the id, the sender, the text, the room and the time.  Other fields of a message,
which not all paths supply, are not shown. -/

/-- The fields of a message that a reader sees. -/
@[ext] structure Reading where
  id : Value
  username : Value
  text : Value
  room : Value
  timestamp : Value

/-- The reading of a message. -/
def Obj.reading (m : Obj) : Reading :=
  ⟨m.get "id", m.get "username", m.get "text", m.get "room", m.get "timestamp"⟩

/-- The document as the database returns it. -/
def Doc.toRow (d : Doc) : Obj :=
  [("_id", d.id), ("sender", .str d.sender), ("room_id", d.roomId),
    ("text_plain", .str d.textPlain), ("timestamp", d.timestamp)]

/-- The text that `_doc_to_msg` shows. -/
def orEncrypted : Str → Str
  | [] => lit "[encrypted]"
  | x :: t => x :: t

/-- The reading of an entry of the cache. -/
theorem reading_toObj (e : Entry) :
    Obj.reading e.toObj = ⟨e.id, .str e.username, .str e.text, .str e.room, .int e.timestamp⟩ := rfl

section Rows

variable {L : PyLib} {d : Doc} {ts : ℤ}

/-- The reading of a fetched row. -/
theorem reading_docToMsg (d : Doc) : Obj.reading (docToMsg L d.toRow) =
    ⟨.str (d.id.toStr L), .str d.sender, .str (orEncrypted d.textPlain), d.roomId,
      d.timestamp⟩ := by
  have htext : (Obj.get d.toRow "text_plain").or (.str (lit "[encrypted]")) =
      .str (orEncrypted d.textPlain) := by
    show (Value.str d.textPlain).or _ = _
    cases d.textPlain <;> rfl
  rw [docToMsg, htext]
  rfl

/-- What is put into the cache for a row after a restart. -/
theorem warmMsg_toRow (d : Doc) : warmMsg L d.toRow =
    fullMessage (.str (d.id.toStr L)) (.str d.sender) (.str d.textPlain) d.roomId d.timestamp := by
  have htext : (Obj.get d.toRow "text_plain").or (.str []) = .str d.textPlain := by
    show (Value.str d.textPlain).or _ = _
    cases d.textPlain <;> rfl
  rw [warmMsg, htext]
  rfl

/-- Only the empty text is replaced. -/
theorem orEncrypted_eq_iff {text : Str} : orEncrypted text = text ↔ text ≠ [] := by
  cases text with
  | nil => exact iff_of_false (by decide) fun h ↦ h rfl
  | cons x t => exact iff_of_true rfl (List.cons_ne_nil x t)

/-- The time that an entry shows. -/
def orNow (ts now : ℤ) : ℤ := if ts = 0 then now else ts

/-- The reading of a full message from the cache. -/
theorem reading_of_compactMsg {now : ℤ} {id room : Value} {username text : Str} {e : Entry}
    (h : compactMsg L now room (fullMessage id (.str username) (.str text) room (.int ts)) =
      .ok (some e)) :
    e.toObj.reading = ⟨id, .str ((orAnonymous username).take 100), .str (text.take 2000),
      .str (((room.or (.str general)).toStr L).take 24), .int (orNow ts now)⟩ := by
  obtain ⟨-, hid, husername, htext, hroom⟩ := eq_of_compactMsg h
  have htimestamp := timestamp_of_compactMsg h
  have huser : compactUser L (fullMessage id (.str username) (.str text) room (.int ts)) =
      (orAnonymous username).take 100 := by
    cases username <;> rfl
  have htext' : compactText L (fullMessage id (.str username) (.str text) room (.int ts)) =
      text.take 2000 := by
    cases text <;> rfl
  have hroom' : compactRoom L room (fullMessage id (.str username) (.str text) room (.int ts)) =
      ((room.or (.str general)).toStr L).take 24 := by
    show (((room.or room).or (.str general)).toStr L).take 24 = _
    cases hroom : room.truthy <;> simp [Value.or, hroom]
  have hts : e.timestamp = orNow ts now := by
    have hor : ((Value.int ts).or (.int now)).toInt L = .ok (orNow ts now) := by
      by_cases hzero : ts = 0 <;> simp [Value.or, Value.truthy, hzero, orNow]
    exact Except.ok.inj (htimestamp.symm.trans hor)
  rw [reading_toObj, hid, husername, huser, htext, htext', hroom, hroom', hts]
  rfl

end Rows

/-! ## Accepted messages

The form of a submission: `post_message` and `_handle_message` make the id and the time themselves
or take them from the body, and what they file is what they hand to the job. -/

namespace Node

variable {env : Env} {now : ℤ} {s : Submission}

/-- The fields of a submission. -/
structure Submission.Has (s : Submission) (id room : Value) (username text : Str) (ts : ℤ) :
    Prop where
  room_eq : s.room = room
  cached_eq : s.cached = fullMessage id (.str username) (.str text) room (.int ts)
  job : ∃ msg key, s.job = some (.append room msg key) ∧ Obj.get msg "id" = id ∧
    messageSender msg = .str (orAnonymous username) ∧ messageText msg = .str text ∧
    ∀ v, Obj.getD msg "timestamp" v = .int ts
  length_le : text.length ≤ 2000

/-- The text that is taken from a full message. -/
theorem messageText_of_str {msg : Obj} {text : Str} (h : msg.get "text" = .str text)
    (h' : text = [] → msg.getD "msg" (.str []) = .str []) : messageText msg = .str text := by
  rw [messageText, h]
  cases text with
  | nil => exact h' rfl
  | cons x t => rfl

/-- What a request submits has all fields. -/
theorem has_of_postSubmission {body : Body} {query : Obj} {uuid : Str}
    (h : postSubmission env body query now uuid = some s) :
    ∃ id room username text ts, s.Has id room username text ts := by
  unfold postSubmission at h
  split at h
  · split at h
    · obtain rfl := Option.some.inj h
      refine ⟨_, _, _, _, _, rfl, rfl, ⟨_, _, rfl, rfl, ?_, ?_, fun _ ↦ rfl⟩, ?_⟩
      · cases cleaned env _ maxUsernameLen <;> rfl
      · exact messageText_of_str rfl fun _ ↦ rfl
      · rw [cleaned, List.length_take]
        exact Nat.min_le_left _ _
    · simp at h
  · simp at h

/-- What a frame submits has all fields. -/
theorem has_of_frameSubmission {c : Client} {data : Obj} {uuid : Str}
    (h : frameSubmission env c data now uuid = some s) :
    ∃ id room username text ts, s.Has id room username text ts := by
  rw [frameSubmission] at h
  split at h
  · rename_i username x text ts husername htext hts
    obtain rfl := Option.some.inj h
    refine ⟨_, _, _, _, _, rfl, rfl, ⟨_, _, rfl, rfl, messageSender_roomMessage .., rfl,
      fun _ ↦ rfl⟩, ?_⟩
    rw [← htext, frameText, List.length_take]
    exact Nat.min_le_left _ _
  · simp at h

/-- A submission that `post_message` or `_handle_message` makes. -/
def Accepts (env : Env) (now : ℤ) (s : Submission) : Prop :=
  (∃ body query uuid, postSubmission env body query now uuid = some s) ∨
    ∃ c data uuid, frameSubmission env c data now uuid = some s

/-- The job of a submission has enqueued a document. -/
def Persists (env : Env) (s : Submission) (d : Doc) : Prop :=
  ∃ room msg key st now nonce, s.job = some (.append room msg key) ∧
    (Store.appendMessage env.lib env.keyring st now nonce room msg key).docs = st.docs ++ [d]

theorem has_of_accepts (h : Accepts env now s) :
    ∃ id room username text ts, s.Has id room username text ts := by
  rcases h with ⟨body, query, uuid, h⟩ | ⟨c, data, uuid, h⟩
  · exact has_of_postSubmission h
  · exact has_of_frameSubmission h

/-- The document of a submission. -/
theorem toRow_of_persists {id room : Value} {username text : Str} {ts : ℤ} {d : Doc}
    (hs : s.Has id room username text ts) (h : Persists env s d) :
    d.id = id ∧ d.roomId = room ∧ d.sender = orAnonymous username ∧ d.textPlain = text ∧
      d.timestamp = .int ts := by
  obtain ⟨room', msg', key', st, now', nonce, hjob, hdocs⟩ := h
  obtain ⟨msg, key, hjob', hid, hsender, htext, hts⟩ := hs.job
  obtain ⟨rfl, rfl, rfl⟩ : room = room' ∧ msg = msg' ∧ key = key' := by
    simpa using hjob'.symm.trans hjob
  have hgrows : st.docs ++ [d] ≠ st.docs := by simp
  rcases (Store.appendMessage_spec env.keyring st nonce room msg key).2 with
    hsame | ⟨sender, text', hsender', htext', -, hdocs'⟩
  · rw [hsame] at hdocs
    exact absurd hdocs.symm hgrows
  · rcases hdocs' with hdocs' | ⟨d', hd', hdocs'⟩
    · exact absurd (hdocs.symm.trans hdocs') hgrows
    · obtain rfl : d = d' := by simpa using hdocs.symm.trans hdocs'
      obtain ⟨h₁, h₂, h₃, h₄, h₅⟩ := makeDoc_spec hd'
      exact ⟨h₁.trans hid, h₂, h₃.trans (Value.str.inj (hsender'.symm.trans hsender)),
        h₄.trans (Value.str.inj (htext'.symm.trans htext)), h₅.trans (hts _)⟩

/-! ## The three readings

One lemma says for each field when its conversion changes nothing.  They are put together at the
end, where the conditions on the fields turn out to be independent of each other. -/

/-- A message that no conversion changes.  A time of 0 is replaced by the time of the put, which is
`now` on the way in and `now'` after a restart. -/
structure Plain (msg : Obj) (now now' : ℤ) : Prop where
  id : ∃ u, msg.get "id" = .str u
  username : ∃ u, msg.get "username" = .str u ∧ u.length ≤ 100
  text : msg.get "text" ≠ .str []
  room : ∃ r, msg.get "room" = .str r ∧ r ≠ [] ∧ r.length ≤ 24
  timestamp : msg.get "timestamp" = .int 0 → now = 0 ∧ now' = 0

/-- The entry after a restart and the fetched row read like the live entry. -/
def ReadsAlike (env : Env) (now' : ℤ) (e : Entry) (d : Doc) : Prop :=
  (∃ e', compactMsg env.lib now' (Obj.getD d.toRow "room_id" (.str general))
      (warmMsg env.lib d.toRow) = .ok (some e') ∧ e'.toObj.reading = e.toObj.reading) ∧
    (docToMsg env.lib d.toRow).reading = e.toObj.reading

/-- `str` changes everything but strings. -/
theorem str_toStr_eq_iff {L : PyLib} {v : Value} : Value.str (v.toStr L) = v ↔ ∃ u, v = .str u := by
  constructor
  · exact fun h ↦ ⟨_, h.symm⟩
  · rintro ⟨u, rfl⟩
    rfl

theorem orAnonymous_orAnonymous (username : Str) :
    orAnonymous (orAnonymous username) = orAnonymous username := by
  cases username <;> rfl

/-- The name that is supplied fits. -/
theorem length_orAnonymous_le_iff {username : Str} :
    (orAnonymous username).length ≤ 100 ↔ username.length ≤ 100 := by
  cases username with
  | nil => exact iff_of_true (by decide) (by decide)
  | cons x u => rfl

/-- Only a time of 0 is replaced. -/
theorem orNow_eq_iff {ts now : ℤ} : ts = orNow ts now ↔ (ts = 0 → now = 0) := by
  rw [orNow]
  split
  · rename_i hzero
    exact ⟨fun h _ ↦ h ▸ hzero, fun h ↦ hzero.trans (h hzero).symm⟩
  · rename_i hne
    exact iff_of_true rfl fun h ↦ absurd h hne

/-- The room that is cached is the room itself. -/
theorem room_eq_iff {L : PyLib} {room : Value} :
    room = .str (((room.or (.str general)).toStr L).take 24) ↔
      ∃ r, room = .str r ∧ r ≠ [] ∧ r.length ≤ 24 := by
  constructor
  · intro h
    refine ⟨_, h, fun hnil ↦ ?_, ?_⟩
    · rw [hnil] at h
      subst h
      exact absurd hnil (show general.take 24 ≠ [] by decide)
    · rw [List.length_take]
      exact Nat.min_le_left _ _
  · rintro ⟨r, rfl, hne, hle⟩
    rw [Value.or_of_truthy (by simpa [Value.truthy] using hne), Value.toStr_str,
      List.take_of_length_le hle]

/-- **When a message reads the same on all paths.** -/
theorem readsAlike_iff {now now' : ℤ} {s : Submission} {e : Entry} {d : Doc}
    (hs : Accepts env now s) (hlive : compactMsg env.lib now s.room s.cached = .ok (some e))
    (hd : Persists env s d) : ReadsAlike env now' e d ↔ Plain s.cached now now' := by
  obtain ⟨id, room, username, text, ts, hhas⟩ := has_of_accepts hs
  obtain ⟨hid, hroom, hsender, htext, hts⟩ := toRow_of_persists hhas hd
  have hle := hhas.length_le
  rw [hhas.room_eq, hhas.cached_eq] at hlive
  have hrow : (docToMsg env.lib d.toRow).reading = e.toObj.reading ↔
      ((∃ u, id = .str u) ∧ username.length ≤ 100 ∧ text ≠ [] ∧
        (∃ r, room = .str r ∧ r ≠ [] ∧ r.length ≤ 24) ∧ (ts = 0 → now = 0)) := by
    rw [reading_docToMsg, reading_of_compactMsg hlive, hid, hroom, hsender, htext, hts,
      Reading.mk.injEq, str_toStr_eq_iff, room_eq_iff, Value.str.injEq, Value.str.injEq,
      Value.int.injEq, orNow_eq_iff, List.take_of_length_le hle,
      eq_comm (a := orAnonymous username), List.take_eq_self_iff, length_orAnonymous_le_iff,
      orEncrypted_eq_iff]
  have hplain : Plain s.cached now now' ↔
      ((∃ u, id = .str u) ∧ username.length ≤ 100 ∧ text ≠ [] ∧
        (∃ r, room = .str r ∧ r ≠ [] ∧ r.length ≤ 24) ∧ (ts = 0 → now = 0 ∧ now' = 0)) := by
    rw [hhas.cached_eq]
    constructor
    · rintro ⟨hid, ⟨u, hu, hlen⟩, htext, hroom, hts⟩
      obtain rfl : username = u := Value.str.inj hu
      exact ⟨hid, hlen, fun h ↦ htext (congrArg Value.str h), hroom,
        fun h ↦ hts (congrArg Value.int h)⟩
    · rintro ⟨hid, hlen, htext, hroom, hts⟩
      exact ⟨hid, ⟨username, rfl, hlen⟩, fun h ↦ htext (Value.str.inj h), hroom,
        fun h ↦ hts (Value.int.inj h)⟩
  have hmsg : compactMsg env.lib now' (Obj.getD d.toRow "room_id" (.str general))
      (warmMsg env.lib d.toRow) = compactMsg env.lib now' room (fullMessage
        (.str (id.toStr env.lib)) (.str (orAnonymous username)) (.str text) room (.int ts)) := by
    rw [warmMsg_toRow, hid, hsender, htext, hts,
      show Obj.getD d.toRow "room_id" _ = d.roomId from rfl, hroom]
  have hlast := reading_of_compactMsg hlive
  rw [ReadsAlike, hrow, hplain, hmsg]
  constructor
  · rintro ⟨⟨e', he', hread⟩, hid, hlen, htext, hroom, hzero⟩
    refine ⟨hid, hlen, htext, hroom, fun h ↦ ?_⟩
    have htime : orNow ts now' = orNow ts now := by
      rw [reading_of_compactMsg he', hlast] at hread
      exact Value.int.inj (congrArg Reading.timestamp hread)
    rw [orNow, orNow, if_pos h, if_pos h] at htime
    exact ⟨hzero h, htime.trans (hzero h)⟩
  · rintro ⟨⟨u, rfl⟩, hlen, htext, hroom, hzero⟩
    refine ⟨?_, ⟨u, rfl⟩, hlen, htext, hroom, fun h ↦ (hzero h).1⟩
    have htruthy : ((fullMessage (.str ((Value.str u).toStr env.lib)) (.str (orAnonymous username))
        (.str text) room (.int ts)).get "id").truthy = true := (eq_of_compactMsg hlive).1
    obtain ⟨ts', hts'⟩ := Value.toInt_or_int env.lib ts now'
    obtain ⟨e', he'⟩ : ∃ e', compactMsg env.lib now' room (fullMessage
        (.str ((Value.str u).toStr env.lib)) (.str (orAnonymous username)) (.str text) room
        (.int ts)) = .ok (some e') := ⟨_, compactMsg_of_key htruthy hts' rfl⟩
    refine ⟨e', he', ?_⟩
    have htime : orNow ts now' = orNow ts now := by
      rw [orNow, orNow]
      split
      · rename_i h
        rw [(hzero h).1, (hzero h).2]
      · rfl
    rw [reading_of_compactMsg he', hlast, htime, orAnonymous_orAnonymous]
    rfl

/-! ## Two messages

A text that is read alike on all paths, and one that is not. -/

/-- The body with which Alice posts a text. -/
def aliceBody (text : Str) : Body :=
  .json (some (.dict [("client-name", .str (lit "Alice")), ("msg", .str text),
    ("id", .str (lit "m1")), ("timestamp", .int 1)]))

/-- What the body submits, for a text that is kept as it is. -/
def aliceSubmission (text : Str) : Submission :=
  ⟨.str general,
    fullMessage (.str (lit "m1")) (.str (lit "Alice")) (.str text) (.str general) (.int 1),
    messageObj (.str (lit "m1")) (lit "Alice") text (.str general) 1,
    some (.append (.str general)
      (messageObj (.str (lit "m1")) (lit "Alice") text (.str general) 1) none)⟩

/-- A text that is there. -/
theorem readsAlike_hi : ∃ e d, Accepts plainEnv 0 (aliceSubmission (lit "hi")) ∧
    ReadsAlike plainEnv 0 e d := by
  have haccepts : Accepts plainEnv 0 (aliceSubmission (lit "hi")) :=
    Or.inl ⟨aliceBody (lit "hi"), [], [], rfl⟩
  have hpersists : ∃ d, Persists plainEnv (aliceSubmission (lit "hi")) d :=
    ⟨_, _, _, _, (initial plainEnv).store, 0, [], rfl, rfl⟩
  obtain ⟨d, hd⟩ := hpersists
  refine ⟨_, d, haccepts, (readsAlike_iff haccepts rfl hd).mpr ?_⟩
  exact ⟨⟨_, rfl⟩, ⟨_, rfl, by decide⟩, fun h ↦ absurd (Value.str.inj h) (by decide),
    ⟨_, rfl, by decide, by decide⟩, fun _ ↦ ⟨rfl, rfl⟩⟩

/-- A text of blanks is cached as the empty text, and fetched as `[encrypted]`. -/
theorem not_readsAlike_blank : ∃ e d, Accepts plainEnv 0 (aliceSubmission []) ∧
    compactMsg plainEnv.lib 0 (.str general) (aliceSubmission []).cached = .ok (some e) ∧
    Persists plainEnv (aliceSubmission []) d ∧ ¬ ReadsAlike plainEnv 0 e d := by
  refine ⟨_, _, Or.inl ⟨aliceBody (lit " "), [], [], rfl⟩, rfl,
    ⟨_, _, _, (initial plainEnv).store, 0, [], rfl, rfl⟩, fun h ↦ ?_⟩
  have htext := congrArg Reading.text h.2
  exact absurd (Value.str.inj htext) (by decide)

end Node

end GroupChat
