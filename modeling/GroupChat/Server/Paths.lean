import GroupChat.Server.Readings
import GroupChat.Server.Uploads

/-!
# The two ways in

A message can be submitted by a request and by a frame, and each of the two handlers has a
normalisation of its own for the text, the id and the timestamp.  They do not do the same things in
the same order: the request is checked for a text before the text is trimmed, its id is not made a
string, and a timestamp that cannot be converted is replaced where the frame fails.

* `submittedBody` and `submittedFrame` are the same submission for either way.
* `completedPost_iff` and `completedFrame_iff` say which values are accepted.
* `pathsAgree_iff`: the ways agree if and only if the values are `Uniform`.
* `not_pathsAgree_blank` is a text of one blank.

Each handler is computed as far as the entry that `_cache_put` makes, in `shownOf_submission` and
`shownOf_framed`, and the entries are compared field by field.  The name of the sender and the
room are left out of the comparison, as a connection has its own.  What comes out is a condition
on three values that mentions neither handler.
-/

set_option autoImplicit false

namespace GroupChat
namespace Node

/-! ## One submission in two forms

The claim is about a text, an id and a timestamp that are given to both handlers.  The rest of a
request and of a frame, such as the name of the sender, is not compared. -/

/-- The body of a request. -/
def submittedBody (sender room : Str) (text id timestamp : Value) : Obj :=
  [("client-name", .str sender), ("room", .str room), ("text", text), ("id", id),
    ("timestamp", timestamp)]

/-- The fields of a frame. -/
def submittedFrame (text id timestamp : Value) : Obj :=
  [("type", .str (lit "message")), ("text", text), ("id", id), ("timestamp", timestamp)]

/-- What the feed shows of the message, apart from its sender and its room. -/
def Entry.shown (e : Entry) : Value × Str × ℤ := (e.id, e.text, e.timestamp)

/-- The entry that a submission makes. -/
def shownOf (env : Env) (now : ℤ) (s : Submission) : Option (Value × Str × ℤ) :=
  (PutCall.entry? env.lib (s.put now)).map Entry.shown

section Paths

variable (env : Env) (n : Node) (c : Client) (sender room : Str) (text id timestamp : Value)
  (now : ℤ) (uuid : Str)

/-- The request, handled to the end. -/
def posted : Option Submission :=
  completedPost env n (.json (some (.dict (submittedBody sender room text id timestamp)))) [] now
    uuid

/-- The frame, handled to the end. -/
def framed : Option Submission :=
  completedFrame env c (submittedFrame text id timestamp) now uuid

/-- Both ways accept the submission or neither does; if both do, they file the same id, text and
timestamp; and a text of which trimming leaves nothing has no effect. -/
structure PathsAgree : Prop where
  accept : (posted env n sender room text id timestamp now uuid).isSome ↔
    (framed env c text id timestamp now uuid).isSome
  file : ∀ s ∈ posted env n sender room text id timestamp now uuid,
    ∀ s' ∈ framed env c text id timestamp now uuid, shownOf env now s = shownOf env now s'
  blank : cleaned env (text.or (.str [])) maxMessageLen = [] →
    (n.postMessage env (.json (some (.dict (submittedBody sender room text id timestamp)))) [] now
      uuid).1 = n ∧
    (n.handleMessage env c (submittedFrame text id timestamp) now uuid).1 = n

/-- The text is there after trimming. -/
def HasText : Prop := cleaned env (text.or (.str [])) maxMessageLen ≠ []

/-- There is no timestamp, or it can be converted. -/
def UsableTime : Prop := timestamp.truthy = true → ∃ ts, timestamp.toInt env.lib = .ok ts

/-- There is no id, or it can be hashed. -/
def HashableId : Prop := id.truthy = true → id.key?.isSome = true

/-- The values for which the two ways agree: there is no text at all; or there is one, with a usable
timestamp and with no id or a string; or neither way accepts the submission. -/
def Uniform : Prop :=
  text.truthy = true →
    (HasText env text ∧ UsableTime env timestamp ∧ (id.truthy = true → ∃ i, id = .str i)) ∨
      (¬HashableId id ∧ ¬(HasText env text ∧ UsableTime env timestamp))

end Paths

variable {env : Env} {n : Node} {c : Client} {sender room : Str} {text id timestamp : Value}
  {now : ℤ} {uuid : Str}

/-! ## The request

The handler of the request decides by the text as it is given, and trims it afterwards. -/

theorem truthy_or_nil : (text.or (.str [])).truthy = text.truthy := by
  cases h : text.truthy with
  | true => rw [Value.or_of_truthy h, h]
  | false => rw [Value.or_of_falsy h]; rfl

/-- The id of the request can be hashed. -/
theorem isSome_key_or_iff : (id.or (.str uuid)).key?.isSome = true ↔ HashableId id := by
  rw [HashableId]
  cases h : id.truthy with
  | true =>
    rw [Value.or_of_truthy h]
    exact ⟨fun hk _ ↦ hk, fun hk ↦ hk rfl⟩
  | false =>
    rw [Value.or_of_falsy h]
    exact iff_of_true rfl fun hf ↦ absurd hf Bool.false_ne_true

theorem truthy_or (huuid : uuid ≠ []) : (id.or (.str uuid)).truthy = true := by
  rw [Value.or]
  split
  · assumption
  · simpa [Value.truthy] using huuid

/-- What is broadcast to a room with a name can be sent if it can be serialised. -/
theorem snd_tryBroadcast_str {v : Value} {f : Frame} (hv : ∃ r, v = .str r)
    (hf : f.serialisable = true) : (n.tryBroadcast v f).2 = none := by
  obtain ⟨r, rfl⟩ := hv
  rcases tryBroadcast_cases n (.str r) f with ⟨h, -⟩ | ⟨-, h | ⟨r', -, -, h⟩⟩
  · rw [h]
  · exact absurd h (by simp)
  · exact absurd (hf.symm.trans h) (by simp)

theorem postedRoom_submitted : ∃ r,
    postedRoom env (submittedBody sender room text id timestamp) [] = .str r := by
  show ∃ r, (Value.str room).or (.str env.config.defaultRoom) = .str r
  rw [Value.or]
  split
  · exact ⟨_, rfl⟩
  · exact ⟨_, rfl⟩

/-- What the request submits. -/
def submission (env : Env) (sender room : Str) (text id timestamp : Value) (now : ℤ) (uuid : Str) :
    Submission :=
  textSubmission env (submittedBody sender room text id timestamp) [] now uuid

/-- The call of the request makes an entry, unless the id cannot be hashed. -/
theorem compactMsg_submission {s : Submission}
    (hs : s = submission env sender room text id timestamp now uuid) (huuid : uuid ≠ []) :
    (∃ e : Entry, HashableId id ∧ e.id = id.or (.str uuid) ∧
      compactMsg env.lib now s.room s.cached = .ok (some e)) ∨
      ¬HashableId id ∧ compactMsg env.lib now s.room s.cached = .error .typeError := by
  subst hs
  obtain ⟨ts, hts⟩ := Value.toInt_or_int env.lib
    (postedTimestamp env (submittedBody sender room text id timestamp) [] now) now
  have htruthy : (Obj.get (submission env sender room text id timestamp now uuid).cached
      "id").truthy = true := truthy_or huuid
  cases hk : (id.or (.str uuid)).key? with
  | none =>
    refine Or.inr ⟨fun h ↦ ?_, compactMsg_of_unhashable htruthy hts hk⟩
    have hsome : (id.or (.str uuid)).key?.isSome = true := isSome_key_or_iff.mpr h
    rw [hk] at hsome
    exact absurd hsome (by simp)
  | some k =>
    have hsome : (id.or (.str uuid)).key?.isSome = true := by rw [hk]; rfl
    exact Or.inl ⟨_, isSome_key_or_iff.mp hsome, rfl, compactMsg_of_key htruthy hts hk⟩

/-- **What the request accepts.** -/
theorem posted_eq (env : Env) (n : Node) (sender room : Str) (text timestamp : Value) (now : ℤ)
    (huuid : uuid ≠ []) (hid : id.serialisable = true) :
    (text.truthy = true ∧ HashableId id ∧
      posted env n sender room text id timestamp now uuid =
        some (submission env sender room text id timestamp now uuid)) ∨
      ¬(text.truthy = true ∧ HashableId id) ∧
        posted env n sender room text id timestamp now uuid = none ∧
        (n.postMessage env (.json (some (.dict (submittedBody sender room text id timestamp)))) []
          now uuid).1 = n := by
  have hmsg : msgText (submittedBody sender room text id timestamp) [] = text.or (.str []) := rfl
  cases htext : text.truthy with
  | false =>
    have hnone : (msgText (submittedBody sender room text id timestamp) []).truthy ≠ true := by
      rw [hmsg, truthy_or_nil, htext]
      exact Bool.false_ne_true
    refine Or.inr ⟨fun h ↦ absurd h.1 Bool.false_ne_true, ?_, ?_⟩
    · rw [posted, completedPost, postSubmission, Body.data]
      simp only [if_neg hnone, Option.filter_none]
    · rw [postMessage, Body.data]
      simp only [if_neg hnone]
  | true =>
    have hsome : (msgText (submittedBody sender room text id timestamp) []).truthy = true := by
      rw [hmsg, truthy_or_nil, htext]
    have hdata : (Body.json (some (.dict (submittedBody sender room text id timestamp)))).data =
        some (.dict (submittedBody sender room text id timestamp)) := rfl
    rw [posted, completedPost, postSubmission_of_text hdata hsome, Option.filter_some]
    generalize hs : textSubmission env (submittedBody sender room text id timestamp) [] now uuid = s
    rcases compactMsg_submission hs.symm huuid with ⟨e, hh, -, he⟩ | ⟨hh, he⟩
    · refine Or.inl ⟨rfl, hh, ?_⟩
      have hroom : ∃ r, s.room = .str r := hs ▸ postedRoom_submitted
      have hser : (Frame.message s.told).serialisable = true := by
        obtain ⟨r, hr⟩ := hroom
        have htold : s.told = messageObj (id.or (.str uuid)) (cleaned env (clientName
            (submittedBody sender room text id timestamp) []) maxUsernameLen)
            (cleaned env (text.or (.str [])) maxMessageLen) s.room
            (postedTimestamp env (submittedBody sender room text id timestamp) [] now) := hs ▸ rfl
        rw [htold, hr, serialisable_messageObj]
        exact Value.serialisable_or hid rfl
      rw [if_pos]
      · exact congrArg some hs.symm
      · rw [snd_tryBroadcast_str hroom hser, filed, he]
        rfl
    · have hput : n.store.cachePut env.lib now s.room s.cached = .error .typeError := by
        rw [Store.cachePut, he]
      refine Or.inr ⟨fun h ↦ hh h.2, ?_, ?_⟩
      · rw [filed_of_cachePut_error hput]
        rfl
      · rcases postMessage_of_text hdata hsome with ⟨e, -, hpost⟩ | ⟨store, hok, -⟩
        · rw [hpost]
        · rw [hs] at hok
          exact absurd (hput.symm.trans hok) (by simp)

/-! ## The frame

The handler of the frame trims first.  It makes the id a string, and raises where the timestamp
cannot be converted. -/

/-- What the frame files. -/
def framedMsg (env : Env) (c : Client) (username : Str) (text id : Value) (ts : ℤ) (uuid : Str) :
    Obj :=
  roomMessage ((id.or (.str uuid)).toStr env.lib) username
    (cleaned env (text.or (.str [])) maxMessageLen) c.room ts

theorem frameText_submitted (text id timestamp : Value) :
    frameText env (((submittedFrame text id timestamp).get "text").or
      ((submittedFrame text id timestamp).get "msg")) =
        cleaned env (text.or (.str [])) maxMessageLen := by
  show frameText env (text.or .none) = _
  rw [frameText, cleaned]
  cases h : text.truthy with
  | true => rw [Value.or_of_truthy h, Value.or_of_truthy h]
  | false => rw [Value.or_of_falsy h, Value.or_of_falsy h]; rfl

theorem usableTime_iff : UsableTime env timestamp ↔
    ∃ ts, (timestamp.or (.int now)).toInt env.lib = .ok ts := by
  rw [UsableTime]
  cases h : timestamp.truthy with
  | true =>
    rw [Value.or_of_truthy h]
    exact ⟨fun hts ↦ hts rfl, fun hts _ ↦ hts⟩
  | false =>
    rw [Value.or_of_falsy h]
    exact iff_of_true (fun hf ↦ absurd hf Bool.false_ne_true) ⟨now, rfl⟩

/-- The message of a frame has a string as its id and a number as its timestamp. -/
theorem filed_of_frameSubmission {data : Obj} {s : Submission}
    (h : frameSubmission env c data now uuid = some s) : filed env now s = true := by
  rw [frameSubmission] at h
  split at h
  · rename_i username x t ts husername htext hts
    obtain rfl := Option.some.inj h
    obtain ⟨ts', hts'⟩ := Value.toInt_or_int env.lib ts now
    rw [filed]
    cases hid : frameId env data uuid with
    | nil => rfl
    | cons y i =>
      have htruthy : (Obj.get (roomMessage (y :: i) username (x :: t) c.room ts)
          "id").truthy = true := rfl
      rw [compactMsg_of_key htruthy hts' rfl]
      rfl
  · simp at h

/-- **What the frame accepts.** -/
theorem framed_eq (env : Env) (n : Node) (text id timestamp : Value) (now : ℤ) (uuid : Str)
    {username : Str} (hc : c.username = some username) :
    (HasText env text ∧ ∃ ts, (timestamp.or (.int now)).toInt env.lib = .ok ts ∧
      ∃ s, framed env c text id timestamp now uuid = some s ∧ s.room = .str c.room ∧
        s.cached = framedMsg env c username text id ts uuid) ∨
      ¬(HasText env text ∧ UsableTime env timestamp) ∧
        framed env c text id timestamp now uuid = none ∧
        (n.handleMessage env c (submittedFrame text id timestamp) now uuid).1 = n := by
  have htext := @frameText_submitted env text id timestamp
  have htime : (submittedFrame text id timestamp).get "timestamp" = timestamp := rfl
  have htype : ((submittedFrame text id timestamp).get "type").str? = some (lit "message") := rfl
  rw [framed, completedFrame, if_pos htype]
  cases hclean : cleaned env (text.or (.str [])) maxMessageLen with
  | nil =>
    rw [hclean] at htext
    refine Or.inr ⟨fun h ↦ h.1 hclean, ?_, ?_⟩
    · rw [frameSubmission, hc, htext]
      rfl
    · rw [handleMessage, hc, htext]
  | cons x t =>
    rw [hclean] at htext
    cases hts : (timestamp.or (.int now)).toInt env.lib with
    | error e =>
      refine Or.inr ⟨fun h ↦ ?_, ?_, ?_⟩
      · obtain ⟨ts, hok⟩ := usableTime_iff.mp h.2
        exact absurd (hts.symm.trans hok) (by simp)
      · rw [frameSubmission, hc, htext, htime, hts]
        rfl
      · rw [handleMessage, hc, htext, htime, hts]
    | ok ts =>
      refine Or.inl ⟨by rw [HasText, hclean]; exact List.cons_ne_nil x t, ts, rfl, ?_⟩
      obtain ⟨s, hs, hroom, hcached⟩ : ∃ s,
          frameSubmission env c (submittedFrame text id timestamp) now uuid = some s ∧
            s.room = .str c.room ∧ s.cached = framedMsg env c username text id ts uuid := by
        rw [frameSubmission, hc, htext, htime, hts, framedMsg, hclean]
        exact ⟨_, rfl, rfl, rfl⟩
      rw [hs, Option.filter_some, if_pos (filed_of_frameSubmission hs)]
      exact ⟨s, rfl, hroom, hcached⟩

/-! ## Agreement

Both ways are computed as far as the entry in the cache, field by field. -/

theorem shown_of_compactMsg {L : PyLib} {username t : Str} {v w : Value} {ts : ℤ} {e : Entry}
    (h : compactMsg L now w (fullMessage v (.str username) (.str t) w (.int ts)) = .ok (some e)) :
    Entry.shown e = (v, t.take 2000, orNow ts now) := by
  have hreading := reading_of_compactMsg h
  rw [reading_toObj] at hreading
  have hid : e.id = v := congrArg Reading.id hreading
  have htext : e.text = t.take 2000 := Value.str.inj (congrArg Reading.text hreading)
  have htime : e.timestamp = orNow ts now := Value.int.inj (congrArg Reading.timestamp hreading)
  rw [Entry.shown, hid, htext, htime]

/-- The entry of the request. -/
theorem shownOf_submission (huuid : uuid ≠ []) (hh : HashableId id) {ts : ℤ}
    (hts : (timestamp.or (.int now)).toInt env.lib = .ok ts) :
    shownOf env now (submission env sender room text id timestamp now uuid) =
      some (id.or (.str uuid), (cleaned env (text.or (.str [])) maxMessageLen).take 2000,
        orNow ts now) := by
  have htime : postedTimestamp env (submittedBody sender room text id timestamp) [] now = ts := by
    have hfield : Obj.firstOf (submittedBody sender room text id timestamp) ["timestamp"]
        (Obj.firstOf [] ["timestamp"] (.int now)) = timestamp.or (.int now) := rfl
    rw [postedTimestamp, hfield, hts]
  rcases compactMsg_submission (s := submission env sender room text id timestamp now uuid) rfl
    huuid with ⟨e, -, -, he⟩ | ⟨hnot, -⟩
  · rw [shownOf, PutCall.entry?_eq_some_iff.mpr he, Option.map_some]
    rw [submission, textSubmission] at he
    simp only at he
    rw [shown_of_compactMsg he, htime]
    rfl
  · exact absurd hh hnot

/-- The entry of the frame, if its id is not empty. -/
theorem shownOf_framed {username : Str} {s : Submission} {ts : ℤ} (hroom : s.room = .str c.room)
    (hcached : s.cached = framedMsg env c username text id ts uuid) :
    shownOf env now s = if (id.or (.str uuid)).toStr env.lib = [] then none else
      some (.str ((id.or (.str uuid)).toStr env.lib),
        (cleaned env (text.or (.str [])) maxMessageLen).take 2000, orNow ts now) := by
  have hcall : s.put now = ⟨now, .str c.room, framedMsg env c username text id ts uuid⟩ := by
    rw [Submission.put, hroom, hcached]
  rw [shownOf, hcall]
  split
  · rename_i hnil
    have hfalsy : compactMsg env.lib now (.str c.room)
        (framedMsg env c username text id ts uuid) = .ok none := by
      rw [framedMsg, hnil]
      rfl
    rw [PutCall.entry?, hfalsy]
    rfl
  · rename_i hne
    obtain ⟨ts', hts'⟩ := Value.toInt_or_int env.lib ts now
    have htruthy : (Obj.get (framedMsg env c username text id ts uuid) "id").truthy = true :=
      decide_eq_true hne
    have he : compactMsg env.lib now (.str c.room) (framedMsg env c username text id ts uuid) =
        .ok (some _) := compactMsg_of_key htruthy hts' rfl
    rw [PutCall.entry?_eq_some_iff.mpr he, Option.map_some]
    exact congrArg some (shown_of_compactMsg he)

/-- The two ways file the same if and only if the id is a string already. -/
theorem shownOf_eq_iff (huuid : uuid ≠ []) {username : Str} {s : Submission} {ts : ℤ}
    (hh : HashableId id) (hts : (timestamp.or (.int now)).toInt env.lib = .ok ts)
    (hroom : s.room = .str c.room)
    (hcached : s.cached = framedMsg env c username text id ts uuid) :
    shownOf env now (submission env sender room text id timestamp now uuid) = shownOf env now s ↔
      (id.truthy = true → ∃ i, id = .str i) := by
  rw [shownOf_submission huuid hh hts, shownOf_framed hroom hcached]
  have hstr : (∃ i, id.or (.str uuid) = .str i) ↔ (id.truthy = true → ∃ i, id = .str i) := by
    cases hid : id.truthy with
    | true =>
      rw [Value.or_of_truthy hid]
      exact ⟨fun h _ ↦ h, fun h ↦ h rfl⟩
    | false =>
      rw [Value.or_of_falsy hid]
      exact iff_of_true ⟨uuid, rfl⟩ fun hf ↦ absurd hf Bool.false_ne_true
  rw [← hstr]
  constructor
  · intro h
    split at h
    · simp at h
    · exact ⟨_, (Prod.ext_iff.mp (Option.some.inj h)).1⟩
  · rintro ⟨i, hi⟩
    have hne : i ≠ [] := by
      have htruthy : (id.or (.str uuid)).truthy = true := truthy_or huuid
      rw [hi] at htruthy
      simpa [Value.truthy] using htruthy
    rw [hi, Value.toStr_str, if_neg hne]

theorem truthy_of_hasText (h : HasText env text) : text.truthy = true := by
  cases htext : text.truthy with
  | true => rfl
  | false =>
    rw [HasText, Value.or_of_falsy htext] at h
    exact absurd rfl h

theorem hashableId_of_str (h : id.truthy = true → ∃ i, id = .str i) : HashableId id := by
  intro hid
  obtain ⟨i, rfl⟩ := h hid
  rfl

/-! ## The equivalence

If there is no text then both refuse, if the id or the time is of no use then at most one accepts,
and otherwise the entries are compared. -/

/-- **The two ways agree exactly on uniform values.** -/
theorem pathsAgree_iff (env : Env) (n : Node) (c : Client) {username : Str}
    (hc : c.username = some username) (sender room : Str) (text timestamp : Value) {id : Value}
    (hid : id.serialisable = true) (now : ℤ) {uuid : Str} (huuid : uuid ≠ []) :
    PathsAgree env n c sender room text id timestamp now uuid ↔
      Uniform env text id timestamp := by
  rcases posted_eq env n sender room text timestamp now huuid hid with
    ⟨htext, hh, hposted⟩ | ⟨hnot, hposted, hpost⟩
  · rcases framed_eq env n text id timestamp now uuid hc with
      ⟨hb, ts, hts, s, hframed, hroom, hcached⟩ | ⟨hnot', hframed, -⟩
    · have heq := @shownOf_eq_iff env c sender room text id timestamp now uuid huuid username s ts
        hh hts hroom hcached
      constructor
      · intro h
        exact fun _ ↦ Or.inl ⟨hb, usableTime_iff.mpr ⟨ts, hts⟩,
          heq.mp (h.file _ hposted s hframed)⟩
      · intro h
        have hstr : id.truthy = true → ∃ i, id = .str i := by
          rcases h htext with ⟨-, -, hstr⟩ | ⟨hh', -⟩
          · exact hstr
          · exact absurd hh hh'
        refine ⟨by rw [hposted, hframed]; simp, fun s₁ hs₁ s₂ hs₂ ↦ ?_, fun hblank ↦ ?_⟩
        · obtain rfl := Option.some.inj (hposted.symm.trans hs₁)
          obtain rfl := Option.some.inj (hframed.symm.trans hs₂)
          exact heq.mpr hstr
        · exact absurd hblank hb
    · refine iff_of_false (fun h ↦ ?_) fun h ↦ ?_
      · have haccept := h.accept
        rw [hposted, hframed] at haccept
        simp at haccept
      · rcases h htext with ⟨hb, hu, -⟩ | ⟨hh', -⟩
        · exact hnot' ⟨hb, hu⟩
        · exact hh' hh
  · rcases framed_eq env n text id timestamp now uuid hc with
      ⟨hb, ts, hts, s, hframed, -, -⟩ | ⟨hnot', hframed, hframe⟩
    · have htext := truthy_of_hasText hb
      refine iff_of_false (fun h ↦ ?_) fun h ↦ ?_
      · have haccept := h.accept
        rw [hposted, hframed] at haccept
        simp at haccept
      · rcases h htext with ⟨-, -, hstr⟩ | ⟨-, hnot'⟩
        · exact hnot ⟨htext, hashableId_of_str hstr⟩
        · exact hnot' ⟨hb, usableTime_iff.mpr ⟨ts, hts⟩⟩
    · refine iff_of_true ⟨by rw [hposted, hframed], fun s hs ↦ ?_, fun _ ↦ ⟨hpost, hframe⟩⟩
        fun htext ↦ Or.inr ⟨fun hh ↦ hnot ⟨htext, hh⟩, hnot'⟩
      exact absurd (hposted.symm.trans hs) (by simp)

/-- A client in `random`. -/
def bob : Client :=
  ⟨lit "1", some (lit "Bob"), lit "random", false, false, false, 0, true, false, none, none⟩

theorem pathsAgree_hi :
    PathsAgree plainEnv (initial plainEnv) bob (lit "Bob") (lit "random") (.str (lit " hi "))
      (.str (lit "m1")) (.int 5) 7 (lit "u") := by
  refine (pathsAgree_iff plainEnv (initial plainEnv) bob rfl (lit "Bob") (lit "random") _ _ rfl 7
    (by decide)).mpr fun _ ↦ Or.inl ⟨?_, fun _ ↦ ⟨5, rfl⟩, fun _ ↦ ⟨_, rfl⟩⟩
  show cleaned plainEnv ((Value.str (lit " hi ")).or (.str [])) maxMessageLen ≠ []
  decide +kernel

/-- A text of one blank is posted as no text at all, and no frame has it. -/
theorem not_pathsAgree_blank :
    (posted plainEnv (initial plainEnv) (lit "Bob") (lit "random") (.str (lit " "))
      (.str (lit "m1")) (.int 5) 7 (lit "u")).map
        (fun s ↦ (shownOf plainEnv 7 s).map Prod.snd) = some (some ([], 5)) ∧
      (framed plainEnv bob (.str (lit " ")) (.str (lit "m1")) (.int 5) 7 (lit "u")).isSome =
        false ∧
      ¬PathsAgree plainEnv (initial plainEnv) bob (lit "Bob") (lit "random") (.str (lit " "))
        (.str (lit "m1")) (.int 5) 7 (lit "u") := by
  have hposted : (posted plainEnv (initial plainEnv) (lit "Bob") (lit "random") (.str (lit " "))
      (.str (lit "m1")) (.int 5) 7 (lit "u")).map
        (fun s ↦ (shownOf plainEnv 7 s).map Prod.snd) = some (some ([], 5)) := by
    decide +kernel
  have hframed : (framed plainEnv bob (.str (lit " ")) (.str (lit "m1")) (.int 5) 7
      (lit "u")).isSome = false := by
    decide +kernel
  refine ⟨hposted, hframed, fun h ↦ ?_⟩
  obtain ⟨s, hs, -⟩ := Option.map_eq_some_iff.mp hposted
  have haccept := h.accept
  rw [hs, hframed] at haccept
  simp at haccept

end Node
end GroupChat
