import GroupChat.Cluster.Provenance
import GroupChat.Py.Utf8Decode
import GroupChat.Server.Signatures
import GroupChat.Server.Truthful

/-!
# What is stored

A message is encrypted with the master key before it goes into the database, and it may have waited
in the executor for long.

* `Deposit` are the events of a node that a document can come from: a message that it handles to
  the end, or a private message.  `Cluster.document_occurs`: every document comes from such an
  event, and has the fields that were sent.
* `decryptMessage` is `decrypt_message`.  `recovered_iff`: in every reachable state, the ciphertext
  of a document is the one byte string that decrypts to its text, on every node with the master key.
-/

set_option autoImplicit false

namespace GroupChat

open Transition

namespace Node

/-! ## Deposits

A document is made by a job, and a job by an event that has come before it in the run. -/

/-- An event from which a document comes. -/
inductive Deposit (env : Env) (n : Node) (d : Doc) : Event → Prop
  /-- A message is handled to the end. -/
  | accepted {b : Event} {s : Submission} {username : Str} {ts : ℤ}
      (hs : b.completed env n = some s) (hhas : s.Has d.id d.roomId username d.textPlain ts)
      (hsender : d.sender = orAnonymous username) (hts : d.timestamp = .int ts) :
      Deposit env n d b
  /-- A client sends a private message. -/
  | whispered {id : Str} {data : Obj} {now : ℤ} {uuid : Str} {c : Client} {username : Str}
      (htype : (data.get "type").str? = some (lit "private_message"))
      (hc : n.clientsById.get? id = some c) (husername : c.username = some username)
      (hid : d.id = .str uuid)
      (hroom : d.roomId = .str (pairRoom env username (targetName env (data.get "to"))))
      (hsender : d.sender = orAnonymous username)
      (htext : d.textPlain = frameText env (data.get "text")) (hts : d.timestamp = .int now) :
      Deposit env n d (.frame id (.dict data) now uuid)

variable {env : Env} {n n' : Node} {b : Event} {d : Doc}

/-- The job of a private message. -/
theorem privateJob_spec {c : Client} {data : Obj} {now : ℤ} {uuid : Str} {job : Job}
    (h : n.privateJob env c data now uuid = some job) : ∃ username, c.username = some username ∧
      frameText env (data.get "text") ≠ [] ∧
      job = .append (.str (pairRoom env username (targetName env (data.get "to"))))
        (directMessage uuid username (targetName env (data.get "to"))
          (frameText env (data.get "text")) now) c.privateKey := by
  rw [privateJob] at h
  split at h
  · rename_i username target x text husername htarget htext
    refine ⟨username, husername, by simp [htext], ?_⟩
    rw [htext]
    exact (Option.some.inj h).symm
  · simp at h

/-! ## Going back from a document

A document that is new was made by a job; a job that is new was made by an event; so the document
has its event in the past of the run. -/

/-- A job that stores a message is that of a message that is handled to the end, or that of a
private message. -/
theorem job_cases {roomId : Value} {msg : Obj} {key : Option PrivateKey}
    (h : b.job env n = some (.append roomId msg key)) :
    (∃ s, b.completed env n = some s ∧ s.job = some (.append roomId msg key)) ∨
      ∃ id data now uuid c, b = .frame id (.dict data) now uuid ∧
        (Obj.get data "type").str? = some (lit "private_message") ∧
        n.clientsById.get? id = some c ∧
        n.privateJob env c data now uuid = some (.append roomId msg key) := by
  cases b with
  | post body query now uuid =>
    obtain ⟨s, hs, hjob⟩ := Option.bind_eq_some_iff.mp h
    exact Or.inl ⟨s, hs, hjob⟩
  | frame id data now uuid =>
    cases data with
    | dict data =>
      obtain ⟨c, hc, hjob⟩ := Option.bind_eq_some_iff.mp h
      rw [frameJob] at hjob
      split_ifs at hjob with hjoin hmessage hprivate
      · rw [joinJob] at hjob
        split at hjob
        · simp at hjob
        · obtain ⟨username, -, hjob⟩ := Option.map_eq_some_iff.mp hjob
          simp at hjob
      · obtain ⟨s, hs, hjob⟩ := Option.bind_eq_some_iff.mp hjob
        refine Or.inl ⟨s, ?_, hjob⟩
        show (n.clientsById.get? id).bind (fun c ↦ completedFrame env c data now uuid) = some s
        rw [hc]
        exact hs
      · exact Or.inr ⟨id, data, now, uuid, c, rfl, hprivate, hc, hjob⟩
    | _ => simp [Event.job] at h
  | _ => simp [Event.job] at h

/-- What a job stores comes from the event that has made the job. -/
theorem deposit_of_job (hn : (system env).Reachable n) (hdefault : env.config.defaultRoom ≠ [])
    {roomId : Value} {msg : Obj} {key : Option PrivateKey}
    (hjob : b.job env n = some (.append roomId msg key)) {st : Store} {now : ℤ} {nonce : Bytes}
    (hd : st.appended env.lib env.keyring now nonce roomId msg key = some d) :
    Deposit env n d b := by
  obtain ⟨hid, hroom, hsender, htext, hts⟩ := appended_spec hd
  rcases job_cases hjob with ⟨s, hs, hjob⟩ | ⟨id, data, now', uuid, c, rfl, htype, hc, hjob⟩
  · obtain ⟨now', haccepts, -⟩ := accepts_of_completed hn hdefault hs
    obtain ⟨id, room, username, text, ts, hhas⟩ := has_of_accepts haccepts
    obtain ⟨msg', key', hjob', hid', hsender', htext', hts'⟩ := hhas.job
    obtain ⟨rfl, rfl, rfl⟩ : room = roomId ∧ msg' = msg ∧ key' = key := by
      simpa using hjob'.symm.trans hjob
    obtain rfl := Value.str.inj (htext.symm.trans htext')
    rw [← hid', ← hid, ← hroom] at hhas
    exact .accepted hs hhas (Value.str.inj (hsender.symm.trans hsender')) (hts.trans (hts' _))
  · obtain ⟨username, husername, htext', hjob⟩ := privateJob_spec hjob
    obtain ⟨rfl, rfl, rfl⟩ := Job.append.inj hjob
    refine .whispered htype hc husername hid hroom
      (Value.str.inj (hsender.symm.trans (messageSender_directMessage ..))) ?_ hts
    rw [messageText, Value.or_of_truthy] at htext
    · exact (Value.str.inj htext).symm
    · simpa [directMessage, Obj.get, Value.truthy] using htext'

/-- A document that is new after a step was made of a job. -/
theorem doc_of_step (h : n.step env b = some n') (hd : d ∈ n'.store.docs) : d ∈ n.store.docs ∨
      ∃ now nonce roomId msg key, Job.append roomId msg key ∈ n.jobs ∧
        n.store.appended env.lib env.keyring now nonce roomId msg key = some d := by
  by_cases hrun : ∃ k now nonce, b = .runJob k now nonce
  · obtain ⟨k, now, nonce, rfl⟩ := hrun
    obtain ⟨job, hjob, -, -, -, hdocs⟩ := runJob_spec h
    rw [hdocs] at hd
    refine (List.mem_append.mp hd).imp_right fun hd ↦ ?_
    obtain ⟨hd, -⟩ := Option.filter_eq_some_iff.mp (Option.mem_toList.mp hd)
    rw [jobDoc, hjob] at hd
    cases job with
    | append roomId msg key => exact ⟨now, nonce, roomId, msg, key, List.mem_of_getElem? hjob, hd⟩
    | saveUserPublicKey username key => simp at hd
  · exact Or.inl ((leaves_step h fun k now nonce heq ↦ hrun ⟨k, now, nonce, heq⟩).docs ▸ hd)

end Node

namespace Cluster

variable {ι : Type*} [DecidableEq ι] {D : Deployment ι} {s : Cluster ι} {j : ι}
  {l : List (Event ι)}

/-- **Every document is of a message that its node has taken.** -/
theorem document_occurs (hdefault : (D.site j).config.defaultRoom ≠ [])
    (h : (system D).Trace (initial D) l s) {d : Doc} (hd : d ∈ (s.node j).store.docs) :
    ∃ l₁ a l₂ s₁ s₂, l = l₁ ++ a :: l₂ ∧ (system D).Trace (initial D) l₁ s₁ ∧
      s₁.step D a = some s₂ ∧ ∃ b, a = .node j b ∧ Node.Deposit (D.env j) (s₁.node j) d b := by
  refine h.occurs (Q := fun s d ↦ d ∈ (s.node j).store.docs)
    (P := fun d s a ↦ ∃ b, a = .node j b ∧ Node.Deposit (D.env j) (s.node j) d b) ?_ ?_ hd
  · intro d hd
    rw [show ((initial D).node j).store.docs = [] from (Node.Idle.initial (D.env j)).docs] at hd
    exact List.not_mem_nil hd
  · intro l s a s' hl hstep d hd
    rcases step_node (lined_of_reachable (hl.reachable rfl)) hstep j with
      hsame | ⟨b, rfl, hb⟩ | ⟨i, peer, k, now, batch, line, -, -, -, hleft⟩
    · exact Or.inl (hsame ▸ hd)
    · refine (Node.doc_of_step hb hd).imp_right ?_
      rintro ⟨now, nonce, roomId, msg, key, hjob, hd⟩
      refine ((job_occurs hl hjob).imp ?_).concat _
      rintro s₁ _ hrun₁ ⟨b, rfl, hb⟩
      exact ⟨b, rfl, Node.deposit_of_job (reachable_node ⟨initial D, rfl, hrun₁⟩ j) hdefault hb hd⟩
    · exact Or.inl (hleft.docs ▸ hd)

/-- The first node stores what was posted to it. -/
def storedRun : List (Event Bool) := toldRun ++ [.node false (.runJob 0 0 [])]

theorem document_storedRun : ∃ (s : Cluster Bool) (d : Doc) (l₁ : List (Event Bool))
    (a : Event Bool) (l₂ : List (Event Bool)) (s₁ : Cluster Bool),
    (system pair).Trace (initial pair) storedRun s ∧ d ∈ (s.node false).store.docs ∧
      storedRun = l₁ ++ a :: l₂ ∧
        ∃ b, a = .node false b ∧ Node.Deposit (pair.env false) (s₁.node false) d b := by
  have hexec : (System.exec (step pair) (initial pair) storedRun).map
      (fun s ↦ (s.node false).store.docs.isEmpty) = some false := by
    decide +kernel
  obtain ⟨s, hs, hempty⟩ := Option.map_eq_some_iff.mp hexec
  obtain ⟨d, hd⟩ := List.exists_mem_of_ne_nil (s.node false).store.docs fun h ↦ by
    simp [h] at hempty
  have htrace : (system pair).Trace (initial pair) storedRun s := System.trace_of_exec hs
  obtain ⟨l₁, a, l₂, s₁, s₂, hl, -, -, hdeposit⟩ := document_occurs (by decide) htrace hd
  exact ⟨s, d, l₁, a, l₂, s₁, htrace, hd, hl, hdeposit⟩

end Cluster

/-! ## Decryption

The nonce is stored with the ciphertext, so whoever has the key can decrypt; and by the assumption
on the cipher nothing else decrypts to the same text under this nonce. -/

/-- `decrypt_message`; `none` where it raises. -/
def decryptMessage {C : Crypto} (A : Aead C) (ciphertext nonce key : Bytes) : Option Str :=
  (A.decrypt key nonce ciphertext).bind utf8Decode

section Decryption

variable {C : Crypto} (A : Aead C) {text : Str} {plaintext key nonce : Bytes}

/-- What was encrypted is the one thing that decrypts to the text. -/
theorem decryptMessage_eq_some_iff (hutf8 : utf8 text = .ok plaintext) (htext : CodePoints text)
    (ciphertext : Bytes) : decryptMessage A ciphertext nonce key = some text ↔
      ciphertext = C.encrypt key nonce plaintext := by
  rw [decryptMessage, Option.bind_eq_some_iff]
  constructor
  · rintro ⟨p, hp, hdecode⟩
    obtain ⟨-, hp'⟩ := utf8Decode_eq_some_iff.mp hdecode
    obtain rfl := Except.ok.inj (hutf8.symm.trans hp')
    exact (A.decrypt_eq_some_iff _ _ _ _).mp hp
  · exact fun h ↦ ⟨plaintext, (A.decrypt_eq_some_iff _ _ _ _).mpr h,
      utf8Decode_eq_some_iff.mpr ⟨htext, hutf8⟩⟩

end Decryption

namespace Node

variable {env : Env} {n n' : Node} {d : Doc}

/-- The ciphertext of a document is that of its text. -/
def Encrypted (K : Keyring) (d : Doc) : Prop :=
  ∃ nonce plaintext, utf8 d.textPlain = .ok plaintext ∧ d.nonce = hex nonce ∧
    d.ciphertext = hex (K.crypto.encrypt K.masterKey nonce plaintext)

theorem encrypted_of_appended {st : Store} {L : PyLib} {K : Keyring} {now : ℤ} {nonce : Bytes}
    {roomId : Value} {msg : Obj} {key : Option PrivateKey}
    (h : st.appended L K now nonce roomId msg key = some d) : Encrypted K d := by
  rw [Store.appended] at h
  split at h
  · split at h
    · rename_i doc hdoc
      obtain rfl := Option.some.inj h
      rw [makeDoc] at hdoc
      split at hdoc
      · simp at hdoc
      · rename_i plaintext hutf8
        simp only at hdoc
        split at hdoc
        · simp at hdoc
        · obtain rfl := Except.ok.inj hdoc
          exact ⟨nonce, plaintext, hutf8, rfl, rfl⟩
    · simp at h
  · simp at h

theorem encrypted_of_reachable (h : (system env).Reachable n) :
    ∀ d ∈ n.store.docs, Encrypted env.keyring d := by
  refine h.invariant (I := fun n ↦ ∀ d ∈ n.store.docs, Encrypted env.keyring d) ?_ ?_
  · rintro n rfl d hd
    rw [(Idle.initial env).docs] at hd
    exact absurd hd List.not_mem_nil
  · intro n a n' hn hstep d hd
    rcases doc_of_step hstep hd with hd | ⟨now, nonce, roomId, msg, key, -, hd⟩
    · exact hn d hd
    · exact encrypted_of_appended hd

/-- **What is stored can be read back, and cannot be changed.**  Of all byte strings, the stored
ciphertext is the one that decrypts to the text of the document. -/
theorem recovered_iff (A : Aead env.keyring.crypto) (h : (system env).Reachable n)
    (hd : d ∈ n.store.docs) (htext : CodePoints d.textPlain) :
    ∃ nonce ciphertext, toBytes d.nonce = .ok nonce ∧ toBytes d.ciphertext = .ok ciphertext ∧
      ∀ c, decryptMessage A c nonce env.keyring.masterKey = some d.textPlain ↔ c = ciphertext := by
  obtain ⟨nonce, plaintext, hutf8, hnonce, hciphertext⟩ := encrypted_of_reachable h d hd
  rw [hnonce, hciphertext, toBytes_hex, toBytes_hex]
  exact ⟨nonce, _, rfl, rfl, fun c ↦ decryptMessage_eq_some_iff A hutf8 htext c⟩

/-- What Alice has posted can be read back. -/
theorem recovered_alicePost : ∃ n d, (system plainEnv).Reachable n ∧ d ∈ n.store.docs ∧
    ∃ nonce ciphertext, toBytes d.nonce = .ok nonce ∧ toBytes d.ciphertext = .ok ciphertext ∧
      ∀ c, decryptMessage plainAead c nonce plainEnv.keyring.masterKey = some d.textPlain ↔
        c = ciphertext := by
  have hexec : (System.exec (step plainEnv) (initial plainEnv) (postAs (lit "Alice"))).map
      (fun n ↦ n.store.docs.map Doc.textPlain) = some [lit "hi"] := by
    decide +kernel
  obtain ⟨n, hn, hdocs⟩ := Option.map_eq_some_iff.mp hexec
  obtain ⟨d, hd, htext⟩ := List.mem_map.mp (hdocs.symm ▸ List.mem_singleton_self (lit "hi"))
  have hreach : (system plainEnv).Reachable n := (System.trace_of_exec hn).reachable rfl
  exact ⟨n, d, hreach, hd, recovered_iff plainAead hreach hd (htext ▸ codePoints_lit _)⟩

end Node

end GroupChat
