import GroupChat.Server.Delivery
import GroupChat.Server.Effects
import GroupChat.Server.Paths

/-!
# Muted clients

An administrator can mute a client: `_handle_moderation` sets a flag in the record of the client
and tells its room.  Nothing ever reads the flag.

* `Unheard n n'`: from one state to the other, nothing is said.  No message is filed, handed to the
  executor, published or sent to a client.
* `unheard_receive_iff`: the frame of a client is unheard if and only if it says nothing (`Speaks`),
  whether the client is muted or not.
* `MuteRecord` keeps beside a node who is muted, from the frames of the administrators alone, and
  whether all of them have been silent so far.
* `kept_iff`: they are silent all along a run if and only if none of them tries to say anything.
* `not_kept_mutedRun` is a client that does.

The equations of `Server.Effects` do the work in both directions.  A frame that speaks publishes a
message or hands a job to the executor, so it is enough to look at these two places.  A frame that
does not speak leaves nothing in the store, and what it tells the clients is found out by going
through the handlers.
-/

set_option autoImplicit false

namespace GroupChat

open Transition

/-! ## To say something

A client says something when others are told of it, or the store, or other nodes.  A frame that is
refused says nothing, nor does one about typing. -/

/-- Does the frame bring a message of a client? -/
def Frame.speaks : Frame → Bool
  | .message _ => true
  | .privateMessage _ => true
  | _ => false

/-- Is the job to persist a message? -/
def Job.appends : Job → Bool
  | .append _ _ _ => true
  | .saveUserPublicKey _ _ => false

theorem Frame.speaks_of_history (f : Frame) (h : f.history?.isSome = true) : f.speaks = false := by
  cases f with
  | welcome => rfl
  | roomSwitched => rfl
  | _ => simp [Frame.history?] at h

namespace Node

/-- Nothing is said. -/
structure Unheard (n n' : Node) : Prop where
  cache : n'.store.cache = n.store.cache
  docs : n'.store.docs = n.store.docs
  jobs : n'.jobs.filter Job.appends = n.jobs.filter Job.appends
  published : n'.published = n.published
  told : ∀ id, n'.countAt Frame.speaks id ≤ n.countAt Frame.speaks id

section Says

variable (env : Env) (n : Node) (c : Client) (data : Obj) (now : ℤ)

/-- A `message` frame with a text and with a timestamp that can be converted, if it has one. -/
def SaysMessage : Prop :=
  data.get "type" = .str (lit "message") ∧
    frameText env ((data.get "text").or (data.get "msg")) ≠ [] ∧
      ∃ ts, ((data.get "timestamp").or (.int now)).toInt env.lib = .ok ts

/-- A `private_message` frame with a text, to somebody who is there. -/
def SaysPrivately : Prop :=
  data.get "type" = .str (lit "private_message") ∧ frameText env (data.get "text") ≠ [] ∧
    (n.usernameToId.get? (env.lib.lower (targetName env (data.get "to")))).isSome = true

/-- The frame of the client says something. -/
def Says : Prop :=
  c.username.isSome = true ∧ (SaysMessage env data now ∨ n.SaysPrivately env data)

end Says

/-- The event is a frame that says something. -/
def Event.Speaks (env : Env) (n : Node) (a : Event) : Prop :=
  ∃ id data now uuid c, a = .frame id (.dict data) now uuid ∧ n.clientsById.get? id = some c ∧
    n.Says env c data now

variable {env : Env} {n n' : Node} {c : Client} {data : Obj} {now : ℤ} {uuid : Str}

theorem isSome_frameSubmission_iff :
    (frameSubmission env c data now uuid).isSome = true ↔ c.username.isSome = true ∧
      frameText env ((data.get "text").or (data.get "msg")) ≠ [] ∧
        ∃ ts, ((data.get "timestamp").or (.int now)).toInt env.lib = .ok ts := by
  rw [frameSubmission]
  cases c.username with
  | none => simp
  | some username =>
    cases frameText env ((data.get "text").or (data.get "msg")) with
    | nil => simp
    | cons x text =>
      cases ((data.get "timestamp").or (.int now)).toInt env.lib with
      | error e => simp
      | ok ts => simp

theorem isSome_privateJob_iff :
    (n.privateJob env c data now uuid).isSome = true ↔ c.username.isSome = true ∧
      frameText env (data.get "text") ≠ [] ∧
        (n.usernameToId.get? (env.lib.lower (targetName env (data.get "to")))).isSome = true := by
  rw [privateJob]
  cases c.username with
  | none => simp
  | some username =>
    cases n.usernameToId.get? (env.lib.lower (targetName env (data.get "to"))) with
    | none => simp
    | some target =>
      cases frameText env (data.get "text") with
      | nil => simp
      | cons x text => simp

/-! ## One frame

Both directions for one frame: a frame that speaks leaves a trace in one of the four places, and a
frame that does not leaves none in any. -/

/-- A private message that is not handed to the executor is not sent either. -/
theorem quiet_handlePrivateMessage (h : n.privateJob env c data now uuid = none) :
    Quiet n (n.handlePrivateMessage env c data now uuid) := by
  rw [privateJob] at h
  rw [handlePrivateMessage]
  split
  · exact .refl n
  · rename_i username husername
    simp only
    split
    · exact .sendError n _ _ _
    · rename_i target htarget
      split
      · exact .refl n
      · rename_i x text htext
        rw [husername, htarget, htext] at h
        simp at h

/-- **What a frame that says nothing tells the clients.** -/
theorem told_dispatched (hmessage : data.get "type" = .str (lit "message") →
      frameSubmission env c data now uuid = none)
    (hprivate : data.get "type" = .str (lit "private_message") →
      n.privateJob env c data now uuid = none)
    {r : Node × Option PyError} (h : Dispatched env n c data now uuid r) (id : Str) :
    r.1.countAt Frame.speaks id ≤ n.countAt Frame.speaks id := by
  have hP := Frame.speaks_of_history
  cases h with
  | join type hjoin => exact countAt_handleJoin hP hjoin
  | message type =>
    rcases handleMessage_spec env n c data now uuid with heq | ⟨s, hs, -⟩
    · rw [heq]
    · exact absurd ((hmessage type).symm.trans hs) (by simp)
  | privateMessage type => exact (quiet_handlePrivateMessage (hprivate type)).toSilent.countAt_le
  | switchRoom type => exact countAt_handleSwitchRoom hP c _
  | createRoom type => exact countAt_handleCreateRoom hP c data
  | quiet hq => exact hq.toSilent.countAt_le

/-- What a client is told when the record of its activity is updated, or its connection ends. -/
theorem told_receive {id : Str} {fields : Obj}
    (hmessage : fields.get "type" = .str (lit "message") →
      frameSubmission env c fields now uuid = none)
    (hprivate : fields.get "type" = .str (lit "private_message") →
      n.privateJob env c fields now uuid = none)
    (hc : n.clientsById.get? id = some c)
    (h : n.receive env id (.dict fields) now uuid = some n') (id' : Str) :
    n'.countAt Frame.speaks id' ≤ n.countAt Frame.speaks id' := by
  obtain ⟨c', hc', -, hcases⟩ := receive_spec h
  obtain rfl := Option.some.inj (hc.symm.trans hc')
  have hactive : (n.noteActivity id c now).countAt Frame.speaks id' ≤ n.countAt Frame.speaks id' :=
    (Quiet.noteActivity n id c now).toSilent.countAt_le
  rcases hcases with ⟨fields', r, hfields, hr, rfl⟩ | ⟨hnot, -⟩
  · obtain rfl := Value.dict.inj hfields
    have hregistry : (n.noteActivity id c now).usernameToId = n.usernameToId :=
      (Quiet.noteActivity n id c now).usernameToId
    have hprivate' : fields.get "type" = .str (lit "private_message") →
        (n.noteActivity id c now).privateJob env (c.activeAt now) fields now uuid = none := by
      intro htype
      rw [privateJob, hregistry]
      exact hprivate htype
    exact (countAt_afterHandler r id).trans
      ((told_dispatched (c := c.activeAt now) hmessage hprivate' hr id').trans hactive)
  · exact absurd rfl (hnot fields)

theorem said_of_speaking (h : n.Says env c data now) :
    (data.get "type" = .str (lit "message") ∧
      ∃ s, completedFrame env c data now uuid = some s) ∨
    data.get "type" = .str (lit "private_message") ∧
      ∃ j, n.frameJob env c data now uuid = some j ∧ j.appends = true := by
  rcases h with ⟨hname, ⟨htype, htext, htime⟩ | ⟨htype, htext, htarget⟩⟩
  · have hsome : (frameSubmission env c data now uuid).isSome = true :=
      isSome_frameSubmission_iff.mpr ⟨hname, htext, htime⟩
    obtain ⟨s, hs⟩ := Option.isSome_iff_exists.mp hsome
    refine Or.inl ⟨htype, s, ?_⟩
    rw [completedFrame, if_pos (Value.str?_eq_some_iff.mpr htype), hs, Option.filter_some,
      if_pos (filed_of_frameSubmission hs)]
  · have hsome : (n.privateJob env c data now uuid).isSome = true :=
      isSome_privateJob_iff.mpr ⟨hname, htext, htarget⟩
    obtain ⟨j, hj⟩ := Option.isSome_iff_exists.mp hsome
    refine Or.inr ⟨htype, j, ?_, ?_⟩
    · rw [frameJob, htype]
      exact hj
    · rw [privateJob] at hj
      split at hj
      · exact Option.some.inj hj ▸ rfl
      · simp at hj

/-- What a frame leaves behind that says nothing. -/
theorem unsaid_of_silent (h : ¬n.Says env c data now) :
    (data.get "type" = .str (lit "message") → frameSubmission env c data now uuid = none) ∧
      (data.get "type" = .str (lit "private_message") →
        n.privateJob env c data now uuid = none) := by
  constructor
  · intro htype
    by_contra hsome
    obtain ⟨hname, htext, htime⟩ :=
      isSome_frameSubmission_iff.mp (Option.isSome_iff_ne_none.mpr hsome)
    exact h ⟨hname, Or.inl ⟨htype, htext, htime⟩⟩
  · intro htype
    by_contra hsome
    obtain ⟨hname, htext, htarget⟩ :=
      isSome_privateJob_iff.mp (Option.isSome_iff_ne_none.mpr hsome)
    exact h ⟨hname, Or.inr ⟨htype, htext, htarget⟩⟩

theorem filter_appends_frameJob
    (hmessage : data.get "type" = .str (lit "message") →
      frameSubmission env c data now uuid = none)
    (hprivate : data.get "type" = .str (lit "private_message") →
      n.privateJob env c data now uuid = none) :
    ((n.frameJob env c data now uuid).toList).filter Job.appends = [] := by
  rw [frameJob]
  split
  · rw [joinJob]
    split
    · rfl
    · cases uniqueUsername env.lib n.usernameToId.keys (requestedName env c data) <;> rfl
  · split
    · rename_i htype
      rw [completedFrame, if_pos htype, hmessage (Value.str?_eq_some_iff.mp htype)]
      rfl
    · split
      · rename_i htype
        rw [hprivate (Value.str?_eq_some_iff.mp htype)]
        rfl
      · rfl

/-! ## The equivalence

What a frame leaves behind and what it tells the clients are put together. -/

/-- **A frame is unheard exactly if it says nothing.** -/
theorem unheard_receive_iff {id : Str} {fields : Obj} (hc : n.clientsById.get? id = some c)
    (h : n.receive env id (.dict fields) now uuid = some n') :
    Unheard n n' ↔ ¬n.Says env c fields now := by
  have hleft := leaves_receive h
  rw [Event.job, Event.completed, hc, Option.bind_some, Option.bind_some] at hleft
  constructor
  · intro hun hsays
    rcases @said_of_speaking env n c fields now uuid hsays with ⟨-, s, hs⟩ | ⟨-, j, hj, happ⟩
    · have hpub := hleft.published
      rw [hun.published, hs] at hpub
      simpa using congrArg List.length hpub
    · have hjobs := congrArg (List.filter Job.appends) hleft.jobs
      rw [hun.jobs, hj, List.filter_append] at hjobs
      simpa [happ] using congrArg List.length hjobs
  · intro hnot
    obtain ⟨hmessage, hprivate⟩ := @unsaid_of_silent env n c fields now uuid hnot
    have hputs : (Event.frame id (.dict fields) now uuid).puts env n = [] := by
      rw [Event.puts, Event.submissions]
      split
      · rename_i htype
        rw [hc, Option.bind_some, hmessage (Value.str?_eq_some_iff.mp htype)]
        rfl
      · rfl
    have hcompleted : completedFrame env c fields now uuid = none := by
      rw [completedFrame]
      split
      · rename_i htype
        rw [hmessage (Value.str?_eq_some_iff.mp htype)]
        rfl
      · rfl
    refine ⟨?_, hleft.docs, ?_, ?_, fun id' ↦ told_receive hmessage hprivate hc h id'⟩
    · rw [hleft.cache, hputs]
      rfl
    · rw [hleft.jobs, List.filter_append, filter_appends_frameJob hmessage hprivate,
        List.append_nil]
    · rw [hleft.published, hcompleted]
      exact List.append_nil _

/-- A frame that is not a dict ends the connection, and says nothing. -/
theorem unheard_receive_of_not_dict {id : Str} {v : Value} (hv : ∀ fields, v ≠ .dict fields)
    (h : n.receive env id v now uuid = some n') : Unheard n n' := by
  have hleft := leaves_receive h
  obtain ⟨c, hc, -, hcases⟩ := receive_spec h
  have hnothing : (Event.frame id v now uuid).puts env n = [] ∧
      (Event.frame id v now uuid).job env n = none ∧
        (Event.frame id v now uuid).completed env n = none := by
    cases v with
    | dict fields => exact absurd rfl (hv fields)
    | _ => exact ⟨rfl, rfl, rfl⟩
  obtain ⟨hputs, hjob, hcompleted⟩ := hnothing
  rw [hputs, hjob, hcompleted] at hleft
  refine ⟨hleft.cache, hleft.docs, ?_, ?_, fun id' ↦ ?_⟩
  · rw [hleft.jobs]
    exact congrArg _ (List.append_nil _)
  · exact hleft.published.trans (List.append_nil _)
  · rcases hcases with ⟨fields, -, hfields, -⟩ | ⟨-, rfl⟩
    · exact absurd hfields (hv fields)
    · exact (countAt_closeConnection _ id).trans (Quiet.noteActivity n id c now).toSilent.countAt_le

/-- **The step lemma**: a frame is unheard exactly if it does not speak. -/
theorem unheard_frame_iff {id : Str} {v : Value}
    (h : n.step env (.frame id v now uuid) = some n') :
    Unheard n n' ↔ ¬Event.Speaks env n (.frame id v now uuid) := by
  by_cases hv : ∃ fields, v = .dict fields
  · obtain ⟨fields, rfl⟩ := hv
    have hreceive : n.receive env id (.dict fields) now uuid = some n' := h
    obtain ⟨c, hc, -, -⟩ := receive_spec hreceive
    rw [unheard_receive_iff hc hreceive, not_iff_not]
    constructor
    · exact fun hsays ↦ ⟨id, fields, now, uuid, c, rfl, hc, hsays⟩
    · rintro ⟨id', data, now', uuid', c', heq, hc', hsays⟩
      injection heq with hid hdata hnow huuid
      subst hid hnow
      obtain rfl := Value.dict.inj hdata
      exact Option.some.inj (hc.symm.trans hc') ▸ hsays
  · refine iff_of_true (unheard_receive_of_not_dict (fun fields heq ↦ hv ⟨fields, heq⟩) h) ?_
    rintro ⟨id', data, now', uuid', c', heq, -, -⟩
    injection heq with hid hdata hnow huuid
    exact hv ⟨data, hdata⟩

/-- A handler that goes on with a history says nothing. -/
theorem unheard_resume {id : Str} (h : n.resume env id = some n') : Unheard n n' := by
  have hidle := Idle.resume h
  refine ⟨hidle.cache, hidle.docs, congrArg _ hidle.jobs, hidle.published, fun id' ↦ ?_⟩
  obtain ⟨n₁, hq, rfl | ⟨w, history, r, -, -, htell, rfl⟩⟩ := resume_spec h
  · exact (countAt_closeConnection _ id).trans hq.toSilent.countAt_le
  · exact (countAt_afterHandler r id).trans
      ((countAt_tellsHistory Frame.speaks_of_history htell).trans hq.toSilent.countAt_le)

/-! ## Runs

Who is muted is recorded from the orders and not read off the flag, so that the statement says
what is meant by the feature. -/

/-- What is kept beside a node. -/
structure MuteRecord where
  /-- The connections that an administrator has muted. -/
  muted : List Str
  /-- They have been silent since. -/
  kept : Prop

/-- The connection that an administrator mutes or unmutes, where `type` says which. -/
def moderated (env : Env) (n : Node) (type : String) : Event → Option Str
  | .frame id (.dict data) _ _ =>
    match n.clientsById.get? id with
    | some c =>
      if c.username.isSome ∧ c.isAdmin ∧ (Obj.get data "type").str? = some (lit type) then
        (n.usernameToId.get? (env.lib.lower (targetName env (Obj.get data "target")))).filter
          n.clientsById.contains
      else none
    | none => none
  | _ => none

/-- The connection whose frame is handled. -/
def Event.sender? : Event → Option Str
  | .frame id _ _ _ => some id
  | .resume id => some id
  | _ => none

/-- Who is muted after an event: a mute begins with the frame of an administrator, and it ends with
another one or with the connection. -/
def noteMuted (env : Env) (n : Node) (a : Event) (n' : Node) (r : MuteRecord) : MuteRecord where
  muted := ((r.muted ++ (moderated env n "mute" a).toList).filter fun id ↦
    decide (moderated env n "unmute" a ≠ some id)).filter n'.clientsById.contains
  kept := r.kept ∧ ∀ id ∈ r.muted, a.sender? = some id → Unheard n n'

/-- A node with the record. -/
def mutedSystem (env : Env) : System (Node × MuteRecord) Event :=
  .ofFun (fun p ↦ p.1 = initial env ∧ p.2 = ⟨[], True⟩) (System.record (step env) (noteMuted env))

/-- The event is not a frame with which a muted client says something. -/
def Mute (env : Env) (p : Node × MuteRecord) (a : Event) : Prop :=
  ∀ id ∈ p.2.muted, a.sender? = some id → ¬a.Speaks env p.1

theorem kept_step_iff {p p' : Node × MuteRecord} {a : Event} (hp : p.2.kept)
    (h : System.record (step env) (noteMuted env) p a = some p') :
    p'.2.kept ↔ Mute env p a := by
  obtain ⟨n', hstep, rfl⟩ := Option.map_eq_some_iff.mp h
  have hframe : ∀ id, a.sender? = some id → (Unheard p.1 n' ↔ ¬a.Speaks env p.1) := by
    intro id hsender
    cases a with
    | frame id' v now uuid => exact unheard_frame_iff hstep
    | resume id' =>
      refine iff_of_true (unheard_resume hstep) ?_
      rintro ⟨id', data, now', uuid', c', heq, -, -⟩
      exact absurd heq (by simp)
    | _ => simp [Event.sender?] at hsender
  constructor
  · exact fun hkept id hid hsender ↦ (hframe id hsender).mp (hkept.2 id hid hsender)
  · exact fun hmute ↦ ⟨hp, fun id hid hsender ↦ (hframe id hsender).mpr (hmute id hid hsender)⟩

/-- **Muted clients are silent all along a run exactly if none of them says anything.** -/
theorem kept_iff {p p' : Node × MuteRecord} {l : List Event} (hp : p.2.kept)
    (h : (mutedSystem env).Trace p l p') :
    (∀ l₁ q, l₁ <+: l → System.exec (System.record (step env) (noteMuted env)) p l₁ = some q →
      q.2.kept) ↔ ((mutedSystem env).when (Mute env)).Trace p l p' :=
  h.forall_prefix_iff (I := fun q ↦ q.2.kept) (fun _ _ _ hs hstep ↦ kept_step_iff hs hstep) hp

/-! ## Two runs

In both runs Bob is muted; in the second one he says something. -/

/-- A client joins under a name, and gets an empty history. -/
def enterRun (id username : Str) : List Event :=
  [.connect id [] 0, joinFrame id username, .fetchHistory id 0 (some []), .resume id]

/-- An administrator mutes Bob. -/
def muteRun : List Event :=
  enterRun (lit "1") (lit "admin") ++ enterRun (lit "2") (lit "Bob") ++
    [.frame (lit "1") (.dict [("type", .str (lit "mute")), ("target", .str (lit "Bob"))]) 0 []]

/-- Bob sends a message. -/
def spoken : Event :=
  .frame (lit "2") (.dict [("type", .str (lit "message")), ("text", .str (lit "hi"))]) 0 (lit "u")

theorem kept_muteRun : ∃ p, (mutedSystem plainEnv).Trace (initial plainEnv, ⟨[], True⟩) muteRun p ∧
    p.2.muted = [lit "2"] ∧
      ∀ l₁ q, l₁ <+: muteRun →
        System.exec (System.record (step plainEnv) (noteMuted plainEnv))
          (initial plainEnv, ⟨[], True⟩) l₁ = some q → q.2.kept := by
  have hexec : (System.exec (System.record (step plainEnv) (noteMuted plainEnv))
      (initial plainEnv, ⟨[], True⟩) muteRun).map (fun p ↦ p.2.muted) = some [lit "2"] := by
    decide +kernel
  obtain ⟨p, hp, hmuted⟩ := Option.map_eq_some_iff.mp hexec
  have htrace : (mutedSystem plainEnv).Trace (initial plainEnv, ⟨[], True⟩) muteRun p :=
    System.trace_of_exec hp
  have hsilent : ∀ a ∈ muteRun, ∀ n : Node, ¬a.Speaks plainEnv n := by
    rintro a ha n ⟨id, data, now, uuid, c, rfl, -, -, hsays⟩
    simp only [muteRun, enterRun, joinFrame, List.mem_append, List.mem_cons, List.not_mem_nil,
      or_false, reduceCtorEq, Event.frame.injEq, Value.dict.injEq, false_or] at ha
    have htype : Obj.get data "type" = .str (lit "join") ∨
        Obj.get data "type" = .str (lit "mute") := by
      rcases ha with (⟨-, rfl, -⟩ | ⟨-, rfl, -⟩) | ⟨-, rfl, -⟩
      · exact Or.inl rfl
      · exact Or.inl rfl
      · exact Or.inr rfl
    rcases hsays with ⟨hmessage, -⟩ | ⟨hprivate, -⟩
    · rcases htype with h | h
      · exact absurd (Value.str.inj (h.symm.trans hmessage)) (by decide)
      · exact absurd (Value.str.inj (h.symm.trans hmessage)) (by decide)
    · rcases htype with h | h
      · exact absurd (Value.str.inj (h.symm.trans hprivate)) (by decide)
      · exact absurd (Value.str.inj (h.symm.trans hprivate)) (by decide)
  exact ⟨p, htrace, hmuted, (kept_iff (p := (initial plainEnv, ⟨[], True⟩)) trivial htrace).mpr
    (htrace.when fun q a ha _ _ _ ↦ hsilent a ha q.1)⟩

/-- The message of the muted client is in the feed, and is handed to the executor and to the other
nodes. -/
theorem not_kept_mutedRun : ∃ p, (mutedSystem plainEnv).Reachable p ∧
    p.1.store.cache.globalMsgCache.map Entry.username = [lit "Bob"] ∧
      p.1.published.length = 1 ∧ ¬p.2.kept := by
  have hexec : ((System.exec (System.record (step plainEnv) (noteMuted plainEnv))
      (initial plainEnv, ⟨[], True⟩) muteRun).bind fun p ↦
        (System.record (step plainEnv) (noteMuted plainEnv) p spoken).map fun q ↦
          (p.2.muted, p.1.published.length, q.1.store.cache.globalMsgCache.map Entry.username,
            q.1.published.length)) = some ([lit "2"], 0, [lit "Bob"], 1) := by
    decide +kernel
  obtain ⟨p, hp, hexec⟩ := Option.bind_eq_some_iff.mp hexec
  obtain ⟨q, hq, hproj⟩ := Option.map_eq_some_iff.mp hexec
  obtain ⟨hmuted, hrest⟩ := Prod.ext_iff.mp hproj
  obtain ⟨hbefore, hrest⟩ := Prod.ext_iff.mp hrest
  obtain ⟨hcache, hafter⟩ := Prod.ext_iff.mp hrest
  have hreach : (mutedSystem plainEnv).Reachable p := System.reachable_of_exec ⟨rfl, rfl⟩ hp
  refine ⟨q, hreach.tail (a := spoken) hq, hcache, hafter, fun hkept ↦ ?_⟩
  obtain ⟨n', -, rfl⟩ := Option.map_eq_some_iff.mp hq
  have hid : lit "2" ∈ p.2.muted := by
    rw [show p.2.muted = [lit "2"] from hmuted]
    exact List.mem_singleton_self _
  have hpublished := congrArg List.length (hkept.2 (lit "2") hid rfl).published
  exact absurd (hbefore.symm.trans (hpublished.symm.trans hafter)) (by decide)

end Node
end GroupChat
