import GroupChat.Cluster.AtRest
import GroupChat.Server.Gapless
import Mathlib.Data.List.Perm.Basic

/-!
# What becomes of the messages that are to be stored

A message is shown to everybody at once, but it is stored later: the handler hands a job to the
executor, and the executor has four threads, which take the jobs in any order.  Nobody looks at the
result of a job.

* `Record` has the fields of a message that are stored.  `Job.record?` is the record that a job is
  for; there is none if a text in it cannot be encoded, because of a lone surrogate.
* `record?_of_jobDoc`: whenever such a job runs, it enqueues a document with this record, and other
  jobs enqueue nothing.
* `stores_of_completed`: the record of a message is what the message says.
* `stored_perm`: in every run, the documents and the jobs that are left over have, each of them
  once, the records of the messages that have been accepted.
-/

set_option autoImplicit false

namespace GroupChat

open Transition

/-! ## Records

What is encrypted and signed depends on the nonce and on the keys, so documents are compared by
the other fields. -/

/-- What is stored of a message, apart from its ciphertext and its signature. -/
structure Record where
  id : Value
  roomId : Value
  sender : Str
  text : Str
  timestamp : Value

/-- The record of a document. -/
def Doc.record (d : Doc) : Record := ⟨d.id, d.roomId, d.sender, d.textPlain, d.timestamp⟩

/-- The record that a job is for. -/
def Job.record? (L : PyLib) : Job → Option Record
  | .append roomId msg _ =>
    match messageSender msg, messageText msg with
    | .str sender, .str text =>
      if hasSurrogate ((msg.get "id").toStr L ++ roomId.toStr L ++ sender ++ text) then none
      else some ⟨msg.get "id", roomId, sender, text, msg.get "timestamp"⟩
    | _, _ => none
  | .saveUserPublicKey _ _ => none

/-- A job that has been made of an accepted message. -/
def Job.Sound : Job → Prop
  | .append _ msg _ => (∃ sender, messageSender msg = .str sender) ∧
    (∃ text, messageText msg = .str text) ∧ (∃ ts, ∀ v, Obj.getD msg "timestamp" v = .int ts) ∧
    ((Obj.get msg "id").truthy = true → ∃ k, (Obj.get msg "id").key? = some k)
  | .saveUserPublicKey _ _ => True

/-! ## Which documents can be made

`append_message` encodes the text and the payload as UTF-8, and gives up where this raises. -/

/-- A document can be made if everything in it can be encoded. -/
theorem exists_makeDoc_iff {L : PyLib} {K : Keyring} {key : PrivateKey} {nonce : Bytes}
    {id roomId : Value} {sender text : Str} {ts : ℤ} :
    (∃ d, makeDoc L K key nonce id roomId sender text (.int ts) = .ok d) ↔
      hasSurrogate (id.toStr L ++ roomId.toStr L ++ sender ++ text) = false := by
  have hheader : (∃ b, utf8 (id.toStr L ++ lit "|" ++ roomId.toStr L ++ lit "|" ++ sender ++
      lit "|" ++ (Value.int ts).toStr L ++ lit "|") = .ok b) ↔
        hasSurrogate (id.toStr L ++ roomId.toStr L ++ sender) = false := by
    rw [← hasSurrogate_eq_false_iff]
    simp only [hasSurrogate_append, show hasSurrogate (lit "|") = false from rfl, Bool.or_false,
      show (Value.int ts).toStr L = intStr ts from rfl, hasSurrogate_intStr]
  rw [hasSurrogate_append, Bool.or_eq_false_iff, ← hheader, hasSurrogate_eq_false_iff]
  constructor
  · rintro ⟨d, hd⟩
    rw [makeDoc] at hd
    split at hd
    · simp at hd
    · rename_i plaintext hplaintext
      refine ⟨?_, plaintext, hplaintext⟩
      simp only [makeSignablePayload] at hd
      split at hd
      · simp at hd
      · rename_i payload hpayload
        split at hpayload
        · simp at hpayload
        · rename_i header hheader
          exact ⟨header, hheader⟩
  · rintro ⟨⟨header, hheader⟩, plaintext, hplaintext⟩
    rw [makeDoc, hplaintext]
    simp only [makeSignablePayload, hheader]
    exact ⟨_, rfl⟩

namespace Node

variable {env : Env} {n n' : Node} {b : Event} {job : Job}

/-! ## Jobs

The record of a job is fixed when the job is made.  The job may run at any time after that, with
other keys in the caches, and the record does not change. -/

/-- **What becomes of a job.**  The document that it enqueues has the record of the job. -/
theorem record?_of_jobDoc {i : ℕ} {now : ℤ} {nonce : Bytes} (hsound : job.Sound)
    (hjob : n.jobs[i]? = some job) :
    ((n.jobDoc env i now nonce).filter (Doc.filed env.lib now)).map Doc.record =
      job.record? env.lib := by
  rw [jobDoc, hjob]
  cases job with
  | saveUserPublicKey username key => rfl
  | append roomId msg key =>
    obtain ⟨⟨sender, hsender⟩, ⟨text, htext⟩, ⟨ts, hts⟩, hkey⟩ := hsound
    simp only [Job.record?, hsender, htext]
    cases hd : n.store.appended env.lib env.keyring now nonce roomId msg key with
    | none =>
      have hno : ¬∃ d, makeDoc env.lib env.keyring
          (n.store.keys.signingKey env.lib env.keyring sender key).1 nonce (Obj.get msg "id") roomId
          sender text (.int ts) = .ok d := by
        rintro ⟨d, hmake⟩
        simp only [Store.appended, hsender, htext, hts, hmake] at hd
        simp at hd
      rw [exists_makeDoc_iff, Bool.not_eq_false] at hno
      rw [if_pos hno]
      rfl
    | some d =>
      obtain ⟨hid, hroom, hdsender, hdtext, hdts⟩ := appended_spec hd
      have hmake : ∃ d, makeDoc env.lib env.keyring
          (n.store.keys.signingKey env.lib env.keyring sender key).1 nonce (Obj.get msg "id") roomId
          sender text (.int ts) = .ok d := by
        simp only [Store.appended, hsender, htext, hts] at hd
        split at hd
        · rename_i d' hd'
          exact ⟨d', hd'⟩
        · simp at hd
      have hfiled : d.filed env.lib now = true := by
        have htime : ((Obj.get (cachedMsg d) "timestamp").or (.int now)).toInt env.lib =
            (d.timestamp.or (.int now)).toInt env.lib := rfl
        obtain ⟨ts', hts'⟩ := Value.toInt_or_int env.lib ts now
        rw [hdts, hts, hts'] at htime
        by_cases htruthy : (Obj.get msg "id").truthy = true
        · obtain ⟨k, hk⟩ := hkey htruthy
          rw [← hid] at htruthy hk
          rw [Doc.filed, compactMsg_of_key (show (Obj.get (cachedMsg d) "id").truthy = true
            from htruthy) htime hk]
          rfl
        · rw [← hid, Bool.not_eq_true] at htruthy
          rw [Doc.filed, compactMsg, if_pos (show (Obj.get (cachedMsg d) "id").truthy = false
            from htruthy)]
          rfl
      rw [Option.filter_some, if_pos hfiled, if_neg (by rw [exists_makeDoc_iff.mp hmake]; simp),
        Option.map_some, Doc.record, hid, hroom, hdts, hts,
        Value.str.inj (hdsender.symm.trans hsender), Value.str.inj (hdtext.symm.trans htext)]
      exact congrArg (fun v ↦ some (Record.mk _ _ _ _ v)) (hts .none).symm

theorem has_of_completed {s : Submission} (h : b.completed env n = some s) :
    ∃ id room username text ts, s.Has id room username text ts := by
  cases b with
  | post body query now uuid => exact has_of_postSubmission (postSubmission_of_completed h)
  | frame id data now uuid =>
    obtain ⟨fields, c, -, -, -, hs, -⟩ := frameSubmission_of_completed h
    exact has_of_frameSubmission hs
  | _ => simp [Event.completed] at h

/-- The jobs of the events are sound. -/
theorem sound_of_job (h : b.job env n = some job) : job.Sound := by
  cases job with
  | saveUserPublicKey username key => trivial
  | append roomId msg key =>
    rcases job_cases h with ⟨s, hs, hjob⟩ | ⟨id, data, now, uuid, c, rfl, -, -, hjob⟩
    · obtain ⟨id, room, username, text, ts, hhas⟩ := has_of_completed hs
      obtain ⟨msg', key', hjob', hid, hsender, htext, hts⟩ := hhas.job
      obtain ⟨rfl, rfl, rfl⟩ : room = roomId ∧ msg' = msg ∧ key' = key := by
        simpa using hjob'.symm.trans hjob
      refine ⟨⟨_, hsender⟩, ⟨_, htext⟩, ⟨ts, hts⟩, fun htruthy ↦ ?_⟩
      obtain ⟨-, now, -, hfiled⟩ := puts_of_completed hs
      rw [hid] at htruthy ⊢
      cases hk : id.key? with
      | some k => exact ⟨k, rfl⟩
      | none =>
        obtain ⟨ts', hts'⟩ := Value.toInt_or_int env.lib ts now
        rw [filed, hhas.cached_eq, compactMsg_of_unhashable (show (Obj.get (fullMessage id
          (.str username) (.str text) room (.int ts)) "id").truthy = true from htruthy) hts' hk]
          at hfiled
        simp [Except.toOption] at hfiled
    · obtain ⟨username, -, htext, hjob⟩ := privateJob_spec hjob
      obtain ⟨rfl, rfl, rfl⟩ := Job.append.inj hjob
      refine ⟨⟨_, messageSender_directMessage ..⟩, ⟨frameText env (Obj.get data "text"), ?_⟩,
        ⟨now, fun _ ↦ rfl⟩, fun _ ↦ ⟨_, rfl⟩⟩
      exact messageText_of_str rfl fun hnil ↦ absurd hnil htext

theorem sound_of_reachable (h : (system env).Reachable n) : ∀ job ∈ n.jobs, job.Sound := by
  refine h.invariant (I := fun n ↦ ∀ job ∈ n.jobs, job.Sound) ?_ ?_
  · rintro n rfl
    exact initial_of env (I := fun n ↦ ∀ job ∈ n.jobs, job.Sound) (by simp [empty]) fun _ _ h ↦ h
  · intro n b n' hn hstep job hjob
    rcases job_of_step hstep hjob with hjob | hjob
    · exact hn job hjob
    · exact sound_of_job hjob

/-! ## Runs

A step stores the records of its jobs or leaves them to be stored, and the sum of both is what the
log compares. -/

/-- The record of what an event asks to be stored. -/
def Event.stores (env : Env) (n : Node) (b : Event) : Option Record :=
  (b.job env n).bind (Job.record? env.lib)

/-- The records of the documents, and of those that are still to be made. -/
def toStore (env : Env) (n : Node) : List Record :=
  n.store.docs.map Doc.record ++ n.jobs.filterMap (Job.record? env.lib)

/-- **What a step does to the records.** -/
theorem toStore_step (hn : (system env).Reachable n) (h : n.step env b = some n') :
    (n'.toStore env).Perm (n.toStore env ++ (b.stores env n).toList) := by
  by_cases hrun : ∃ i now nonce, b = .runJob i now nonce
  · obtain ⟨i, now, nonce, rfl⟩ := hrun
    obtain ⟨job, hjob, hjobs, -, -, hdocs⟩ := runJob_spec h
    have hrecord : ((n.jobDoc env i now nonce).filter (Doc.filed env.lib now)).map Doc.record =
        job.record? env.lib :=
      record?_of_jobDoc (sound_of_reachable hn job (List.mem_of_getElem? hjob)) hjob
    obtain ⟨hlt, rfl⟩ := List.getElem?_eq_some_iff.mp hjob
    have hnew : n'.store.docs.map Doc.record =
        n.store.docs.map Doc.record ++ (n.jobs[i].record? env.lib).toList := by
      rw [hdocs, List.map_append, ← hrecord, Option.toList_map]
    have hperm := (List.getElem_cons_eraseIdx_perm hlt).filterMap (Job.record? env.lib)
    rw [toStore, toStore, hnew, hjobs, show (Event.runJob i now nonce).stores env n = none from rfl,
      Option.toList_none, List.append_nil, List.append_assoc]
    refine .append_left _ (.trans (.of_eq ?_) hperm)
    rw [List.filterMap_cons]
    cases n.jobs[i].record? env.lib <;> rfl
  · have hleft := leaves_step h fun i now nonce heq ↦ hrun ⟨i, now, nonce, heq⟩
    refine .of_eq ?_
    rw [toStore, toStore, hleft.docs, hleft.jobs, List.filterMap_append, List.append_assoc,
      Event.stores]
    cases b.job env n with
    | none => rfl
    | some job => cases hrecord : job.record? env.lib <;> simp [hrecord]

/-- **Every accepted message is stored once.**  After any run the records of the documents, together
with those that the waiting jobs are for, are the records of all messages and private messages that
were accepted in the run: none is lost and none is there twice, in whatever order the jobs run. -/
theorem stored_perm {l : List Event} (h : (system env).Trace (initial env) l n) :
    (n.store.docs.map Doc.record ++ n.jobs.filterMap (Job.record? env.lib)).Perm
      (System.collect (step env) (fun n b ↦ (b.stores env n).toList) (initial env) l) := by
  have hnone : (initial env).toStore env = [] :=
    initial_of env (I := fun n ↦ n.toStore env = []) rfl fun _ _ h ↦ h
  have hperm := h.perm_append_collect (m := toStore env)
    (w := fun n b ↦ (b.stores env n).toList) fun n b n' hrun _ hstep ↦
      toStore_step ⟨initial env, rfl, hrun⟩ hstep
  rw [hnone, List.nil_append] at hperm
  exact hperm

/-- Two messages are posted, and the job of the second one runs first. -/
def twicePosted : List Event :=
  [postEvent (lit "m1") (lit "hi"), postEvent (lit "m2") (lit "hello"), .runJob 1 0 []]

theorem stored_twicePosted : ∃ n, (system plainEnv).Trace (initial plainEnv) twicePosted n ∧
    n.store.docs.length = 1 ∧ n.jobs.length = 1 ∧
    (n.store.docs.map Doc.record ++ n.jobs.filterMap (Job.record? plainEnv.lib)).Perm
      (System.collect (step plainEnv) (fun n b ↦ (b.stores plainEnv n).toList) (initial plainEnv)
        twicePosted) := by
  have hexec : (System.exec (step plainEnv) (initial plainEnv) twicePosted).map
      (fun n ↦ (n.store.docs.length, n.jobs.length)) = some (1, 1) := by
    decide +kernel
  obtain ⟨n, hn, hpair⟩ := Option.map_eq_some_iff.mp hexec
  obtain ⟨hdocs, hjobs⟩ := Prod.mk.inj hpair
  have htrace : (system plainEnv).Trace (initial plainEnv) twicePosted n := System.trace_of_exec hn
  exact ⟨n, htrace, hdocs, hjobs, stored_perm htrace⟩

/-- What is to be stored of a message is what the message says. -/
theorem stores_of_completed {s : Submission} (h : b.completed env n = some s) {id room : Value}
    {username text : Str} {ts : ℤ} (hs : s.Has id room username text ts) :
    b.stores env n =
      if hasSurrogate (id.toStr env.lib ++ room.toStr env.lib ++ orAnonymous username ++ text) then
        none
      else some ⟨id, room, orAnonymous username, text, .int ts⟩ := by
  obtain ⟨msg, key, hjob, hid, hsender, htext, hts⟩ := hs.job
  have hstores : b.stores env n = (s.job).bind (Job.record? env.lib) := by
    rw [Event.stores]
    cases b with
    | post body query now uuid => rw [(puts_of_completed_post h).2]
    | frame id data now uuid => rw [(puts_of_completed_frame h).2]
    | _ => simp [Event.completed] at h
  rw [hstores, hjob, Option.bind_some]
  simp only [Job.record?, hsender, htext, hid]
  rw [show Obj.get msg "timestamp" = .int ts from hts .none]

end Node
end GroupChat
