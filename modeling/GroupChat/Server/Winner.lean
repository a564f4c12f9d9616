import GroupChat.Server.Effects
import GroupChat.Server.Readings

/-!
# Which of several messages with one id is kept

When several messages come with the same id, the feed cache keeps the one that is put first, in the
handler.  The database keeps the one that is inserted first, and the documents are enqueued by jobs
of the executor, which has four workers and runs the jobs in any order.

* `Agrees` says of an id that nothing is left to be enqueued for it, and that the document stored
  for it is the message that the cache shows.
* `InTurn` is the condition on a step: jobs for the id run in the order in which they were handed
  over, and the cache learns the id only from a message that is stored as it is shown.
* `agrees_of_inTurn`: then the two agree.  `not_agrees_overtakenRun` is a run in which one job
  overtakes another.
-/

set_option autoImplicit false

namespace GroupChat

open Transition

/-- Is the entry the message of the document? -/
structure Entry.IsOf (e : Entry) (d : Doc) : Prop where
  sender : d.sender = e.username
  text : d.textPlain = e.text
  room : d.roomId = .str e.room

/-- Nothing of a message is cut or replaced when it is cached, but for its time. -/
structure Uncut (msg : Obj) : Prop where
  username : ∃ u, msg.get "username" = .str u ∧ u.length ≤ 100
  room : ∃ r, msg.get "room" = .str r ∧ r ≠ [] ∧ r.length ≤ 24

namespace Node

/-- The document that is stored for an id: of several with one id, the one that is inserted first,
and they are inserted in the order in which they were enqueued. -/
def storedDoc (n : Node) (k : Key) : Option Doc :=
  n.store.docs.find? fun d ↦ decide (d.id.key? = some k)

/-- The jobs that wait, of the messages with an id. -/
def jobsFor (n : Node) (k : Key) : List Job := n.jobs.filter fun j ↦ decide (j.key? = some k)

/-- Once nothing is left to be enqueued for the id, what is stored for it is what is shown. -/
def Agrees (k : Key) (n : Node) : Prop :=
  n.jobsFor k = [] → ∀ e ∈ n.store.cache.globalMsgCache, e.key = k →
    ∃ d, n.storedDoc k = some d ∧ e.IsOf d

/-! ## The condition

An id comes to the cache with a message, and the first document for it comes to the writer with a
job.  They are of the same message if the job of that message is run before all others with the
id. -/

/-- No call of a sequence brings the id to a cache that does not know it. -/
def NothingNew (L : PyLib) (k : Key) : FeedCache → List PutCall → Prop
  | _, [] => True
  | c, p :: ps => (p.key? L = some k → k ∈ c.globalMsgIds) ∧ NothingNew L k (c.call L p) ps

/-- The job enqueues a document, whatever the keys are: all that it writes can be encoded. -/
def JobStores (env : Env) : Job → Prop
  | .append roomId msg given => ∀ st now nonce,
      (Store.appended env.lib env.keyring st now nonce roomId msg given).isSome
  | .saveUserPublicKey _ _ => False

/-- The id is new to the node, and the message is stored as it is shown. -/
structure FirstOf (env : Env) (k : Key) (n : Node) (s : Submission) : Prop where
  noJob : n.jobsFor k = []
  noDoc : n.storedDoc k = none
  uncut : Uncut s.cached
  stores : ∀ j, s.job = some j → JobStores env j

/-- The condition on a step. -/
def InTurn (env : Env) (k : Key) (n : Node) : Event → Prop
  | .runJob i now nonce => ∀ job, n.jobs[i]? = some job → job.key? = some k →
      ((n.jobs.take i).filter fun j ↦ decide (j.key? = some k)) = [] ∧
        (k ∉ n.store.cache.globalMsgIds → n.storedDoc k = none ∧
          ∀ d, n.jobDoc env i now nonce = some d → Uncut (cachedMsg d) ∧ d.textPlain.length ≤ 2000)
  | .post body query now uuid =>
      ∀ p ∈ (Event.post body query now uuid).puts env n, p.key? env.lib = some k →
        k ∉ n.store.cache.globalMsgIds →
          ∃ s, (Event.post body query now uuid).completed env n = some s ∧ FirstOf env k n s
  | .frame id data now uuid =>
      ∀ p ∈ (Event.frame id data now uuid).puts env n, p.key? env.lib = some k →
        k ∉ n.store.cache.globalMsgIds →
          ∃ s, (Event.frame id data now uuid).completed env n = some s ∧ FirstOf env k n s
  | a => NothingNew env.lib k n.store.cache (a.puts env n)

/-! ## What is stored and what is shown

A message is shown as the cache has cut it, and stored as the job has got it, so a comparison of
the two goes by fields.  `Uncut` are the messages of which nothing is cut or replaced. -/

section Documents

variable {L : PyLib} {K : Keyring} {st : Store} {now : ℤ} {nonce : Bytes} {roomId : Value}
  {msg : Obj} {given : Option PrivateKey} {d : Doc} {e : Entry}

theorem messageSender_ne_nil {sender : Str} (h : messageSender msg = .str sender) :
    sender ≠ [] := by
  rintro rfl
  have hor : ∀ v : Value, v.or (.str (lit "Anonymous")) ≠ .str [] := by
    intro v heq
    rw [Value.or] at heq
    split at heq
    · rename_i htruthy
      rw [heq] at htruthy
      exact absurd htruthy (by decide)
    · exact absurd (Value.str.inj heq) (by decide)
  exact hor _ h

/-- The entry that a document leads to. -/
theorem isOf_of_cachedMsg (hsender : d.sender ≠ []) (hlen : d.textPlain.length ≤ 2000)
    (huncut : Uncut (cachedMsg d)) (h : compactMsg L now d.roomId (cachedMsg d) = .ok (some e)) :
    e.IsOf d := by
  obtain ⟨-, -, husername, htext, hroom⟩ := eq_of_compactMsg h
  obtain ⟨⟨u, hu, hulen⟩, r, hr, hne, hrlen⟩ := huncut
  obtain rfl : d.sender = u := Value.str.inj hu
  have hr' : d.roomId = .str r := hr
  refine ⟨?_, ?_, ?_⟩
  · have huser : compactUser L (cachedMsg d) = d.sender.take 100 := by
      show ((((Value.str d.sender).or (.str d.sender)).or
        (.str (lit "Anonymous"))).toStr L).take 100 = _
      have htruthy : (Value.str d.sender).truthy = true := by simpa [Value.truthy] using hsender
      rw [Value.or_of_truthy htruthy, Value.or_of_truthy htruthy, Value.toStr_str]
    rw [husername, huser, List.take_of_length_le hulen]
  · have htake : compactText L (cachedMsg d) = d.textPlain.take 2000 := by
      show ((((Value.str d.textPlain).or (.str d.textPlain)).or (.str [])).toStr L).take 2000 = _
      cases d.textPlain <;> rfl
    rw [htext, htake, List.take_of_length_le hlen]
  · have hcompact : compactRoom L d.roomId (cachedMsg d) = r.take 24 := by
      show (((d.roomId.or d.roomId).or (.str general)).toStr L).take 24 = _
      have htruthy : (Value.str r).truthy = true := by simpa [Value.truthy] using hne
      rw [hr', Value.or_of_truthy htruthy, Value.or_of_truthy htruthy, Value.toStr_str]
    rw [hroom, hcompact, hr', List.take_of_length_le hrlen]

end Documents

/-- A job whose document is the message of an entry, whenever it runs. -/
def Makes (env : Env) (e : Entry) : Job → Prop
  | .append roomId msg given => ∀ st now nonce, ∃ d,
      Store.appended env.lib env.keyring st now nonce roomId msg given = some d ∧ e.IsOf d ∧
        d.filed env.lib now = true
  | .saveUserPublicKey _ _ => False

/-- A message that is filed as it is handed to the executor. -/
theorem makes_of_first {env : Env} {k : Key} {n : Node} {s : Submission} {now : ℤ} {e : Entry}
    (hs : Accepts env now s) (hfirst : FirstOf env k n s)
    (he : compactMsg env.lib now s.room s.cached = .ok (some e)) (hk : e.key = k) :
    ∃ j, s.job = some j ∧ j.key? = some k ∧ Makes env e j := by
  obtain ⟨id, room, username, text, ts, hhas⟩ := has_of_accepts hs
  obtain ⟨msg, given, hjob, hid, hsender, htext, hts⟩ := hhas.job
  have huncut := hfirst.uncut
  rw [hhas.cached_eq] at huncut he
  rw [hhas.room_eq] at he
  obtain ⟨⟨u, hu, hulen⟩, r, hr, hne, hrlen⟩ := huncut
  obtain rfl : username = u := Value.str.inj hu
  obtain rfl : room = .str r := hr
  have hkey : id.key? = some k := by
    rw [← hk, ← e.id_key, (eq_of_compactMsg he).2.1]
    rfl
  have hread := reading_of_compactMsg he
  rw [reading_toObj, Reading.mk.injEq] at hread
  obtain ⟨-, husername, htext', hroom', -⟩ := hread
  refine ⟨_, hjob, by rw [Job.key?, hid, hkey], fun st now' nonce ↦ ?_⟩
  obtain ⟨d, hd⟩ := Option.isSome_iff_exists.mp (hfirst.stores _ hjob st now' nonce)
  obtain ⟨hdid, hdroom, hdsender, hdtext, hdts⟩ := appended_spec hd
  refine ⟨d, hd, ⟨?_, ?_, ?_⟩, ?_⟩
  · rw [Value.str.inj husername, List.take_of_length_le (length_orAnonymous_le_iff.mpr hulen)]
    exact Value.str.inj (hdsender.symm.trans hsender)
  · rw [Value.str.inj htext', List.take_of_length_le hhas.length_le]
    exact Value.str.inj (hdtext.symm.trans htext)
  · rw [hdroom, room_eq_iff.mpr ⟨r, rfl, hne, hrlen⟩, ← hroom']
  · have htruthy : (Obj.get (cachedMsg d) "id").truthy = true := by
      show d.id.truthy = true
      rw [hdid, hid]
      exact (eq_of_compactMsg he).1
    have hkey' : (Obj.get (cachedMsg d) "id").key? = some k := by
      show d.id.key? = some k
      rw [hdid, hid, hkey]
    obtain ⟨ts', hts'⟩ : ∃ ts', ((Obj.get (cachedMsg d) "timestamp").or (.int now')).toInt env.lib =
        .ok ts' := by
      show ∃ ts', (d.timestamp.or (.int now')).toInt env.lib = .ok ts'
      rw [hdts, hts]
      exact Value.toInt_or_int env.lib ts now'
    rw [Doc.filed, compactMsg_of_key htruthy hts' hkey']
    rfl

/-! ## The invariant

As long as no document has been stored for the id, its entry is the message of the first job that
waits.  From then on it is that of the stored document. -/

/-- An entry with the id is what is stored, or what is stored next. -/
def Kept (env : Env) (k : Key) (n : Node) : Prop :=
  ∀ e ∈ n.store.cache.globalMsgCache, e.key = k →
    (∃ d, n.storedDoc k = some d ∧ e.IsOf d) ∨
      n.storedDoc k = none ∧ ∃ j js, n.jobsFor k = j :: js ∧ Makes env e j

variable {env : Env} {k : Key} {n n' : Node}

theorem Kept.agrees (h : Kept env k n) : Agrees k n := by
  intro hjobs e he hk
  rcases h e he hk with hstored | ⟨-, j, js, hj, -⟩
  · exact hstored
  · rw [hjobs] at hj
    simp at hj

/-- No entry with the id has come, and what is stored or waits first is still there. -/
theorem Kept.of_subset (h : Kept env k n)
    (hcache : ∀ e ∈ n'.store.cache.globalMsgCache, e.key = k → e ∈ n.store.cache.globalMsgCache)
    (hstored : n'.storedDoc k = n.storedDoc k)
    (hjobs : ∃ js, n'.jobsFor k = n.jobsFor k ++ js) : Kept env k n' := by
  intro e he hk
  obtain ⟨js, hjs⟩ := hjobs
  rw [hstored, hjs]
  rcases h e (hcache e he hk) hk with hdoc | ⟨hnone, j, js', hj, hmakes⟩
  · exact Or.inl hdoc
  · refine Or.inr ⟨hnone, j, js' ++ js, ?_, hmakes⟩
    rw [hj, List.cons_append]

/-- What is stored for an id depends on the documents. -/
theorem storedDoc_of_docs (h : n'.store.docs = n.store.docs) : n'.storedDoc k = n.storedDoc k := by
  rw [storedDoc, storedDoc, h]

theorem NothingNew.of_ne {L : PyLib} {ps : List PutCall} : ∀ {c : FeedCache},
    (∀ p ∈ ps, p.key? L ≠ some k) → NothingNew L k c ps := by
  induction ps with
  | nil => exact fun _ ↦ trivial
  | cons p ps ih =>
    exact fun h ↦ ⟨fun hkey ↦ absurd hkey (h p List.mem_cons_self),
      ih fun q hq ↦ h q (List.mem_cons_of_mem _ hq)⟩

theorem NothingNew.entries {L : PyLib} {ps : List PutCall} : ∀ {c : FeedCache},
    NothingNew L k c ps → ∀ e ∈ (ps.foldl (·.call L) c).globalMsgCache, e.key = k →
      e ∈ c.globalMsgCache := by
  induction ps with
  | nil => exact fun _ e he _ ↦ he
  | cons p ps ih =>
    intro c h e he hk
    rcases FeedCache.mem_call (ih h.2 e he hk) with hmem | ⟨hentry, hnew⟩
    · exact hmem
    · have hkey : p.key? L = some k := by
        rw [PutCall.key?, PutCall.entry?_eq_some_iff.mp hentry]
        exact congrArg some hk
      exact absurd (h.1 hkey) (hk ▸ hnew)

/-! ## Calls

A step makes one call for the id at most, apart from gossip and from rows of the database, which
the condition keeps from bringing anything new. -/

/-- At most one call, which brings the id only with a message that is new and stored as shown. -/
theorem Kept.of_first (h : Kept env k n) {puts : List PutCall} {job : Option Job}
    {message : Option Submission} (hleft : Leaves env n n' puts job message)
    (hputs : puts.length ≤ 1)
    (hfirst : ∀ p ∈ puts, p.key? env.lib = some k → k ∉ n.store.cache.globalMsgIds →
      ∃ s now, puts = [s.put now] ∧ job = s.job ∧ Accepts env now s ∧ FirstOf env k n s) :
    Kept env k n' := by
  have hjobsFor : n'.jobsFor k =
      n.jobsFor k ++ job.toList.filter fun j ↦ decide (j.key? = some k) := by
    rw [jobsFor, hleft.jobs, List.filter_append]
    rfl
  by_cases hnew : ∃ p ∈ puts, p.key? env.lib = some k ∧ k ∉ n.store.cache.globalMsgIds
  · obtain ⟨p, hp, hkey, hids⟩ := hnew
    obtain ⟨s, now, rfl, rfl, haccepts, hs⟩ := hfirst p hp hkey hids
    intro e he hk
    rw [hleft.cache] at he
    rcases FeedCache.mem_call he with hmem | ⟨hentry, -⟩
    · -- an entry that is there already is stored or waits, so the message is not the first
      rcases h e hmem hk with ⟨d, hd, -⟩ | ⟨-, j, js, hj, -⟩
      · exact absurd (hs.noDoc.symm.trans hd) (by simp)
      · exact absurd (hs.noJob.symm.trans hj) (by simp)
    · have hmsg : compactMsg env.lib now s.room s.cached = .ok (some e) :=
        PutCall.entry?_eq_some_iff.mp hentry
      obtain ⟨j, hj, hjkey, hmakes⟩ := makes_of_first haccepts hs hmsg hk
      refine Or.inr ⟨?_, j, [], ?_, hmakes⟩
      · rw [storedDoc, hleft.docs]
        exact hs.noDoc
      · rw [hjobsFor, hs.noJob, hj]
        simp [hjkey]
  · refine h.of_subset (fun e he hk ↦ ?_) (storedDoc_of_docs hleft.docs) ⟨_, hjobsFor⟩
    rw [hleft.cache] at he
    refine NothingNew.entries ?_ e he hk
    rcases puts with _ | ⟨p, puts⟩
    · exact trivial
    · obtain rfl : puts = [] := List.length_eq_zero_iff.mp (by simpa using hputs)
      refine ⟨fun hkey ↦ ?_, trivial⟩
      by_contra hids
      exact hnew ⟨p, List.mem_singleton_self p, hkey, hids⟩

theorem filter_eraseIdx {α : Type*} {p : α → Bool} {l : List α} {i : ℕ} {a : α}
    (h : l[i]? = some a) : l.filter p =
      (l.take i).filter p ++ ((if p a then [a] else []) ++ (l.drop (i + 1)).filter p) ∧
      (l.eraseIdx i).filter p = (l.take i).filter p ++ (l.drop (i + 1)).filter p := by
  obtain ⟨hi, rfl⟩ := List.getElem?_eq_some_iff.mp h
  refine ⟨?_, ?_⟩
  · conv_lhs => rw [← List.take_append_drop i l, List.drop_eq_getElem_cons hi, List.filter_append,
      List.filter_cons]
    split <;> rfl
  · rw [List.eraseIdx_eq_take_drop_succ, List.filter_append]

section Jobs

variable {i : ℕ} {now : ℤ} {nonce : Bytes} {job : Job}

/-! ## Jobs

A job for the id stores its document, if it is the first one; the others do not matter. -/

/-- A job makes the stored document of an id if it is for the id, and the first one for it. -/
theorem storedDoc_runJob (hjob : n.jobs[i]? = some job) (hdocs : n'.store.docs =
      n.store.docs ++ ((n.jobDoc env i now nonce).filter (Doc.filed env.lib now)).toList) :
    n'.storedDoc k = (n.storedDoc k).or
      (if job.key? = some k then (n.jobDoc env i now nonce).filter (Doc.filed env.lib now)
        else none) := by
  rw [storedDoc, hdocs, List.find?_append]
  congr 1
  cases hd : n.jobDoc env i now nonce with
  | none => simp
  | some d =>
    have hkey : d.id.key? = job.key? := key?_of_jobDoc hjob hd
    rw [Option.filter_some]
    split
    · by_cases hk : job.key? = some k <;> simp [hkey, hk]
    · simp

/-- The entry that a job makes is that of its document. -/
theorem isOf_of_jobDoc {d : Doc} {e : Entry} (hjob : n.jobs[i]? = some job)
    (hd : n.jobDoc env i now nonce = some d)
    (hmsg : compactMsg env.lib now d.roomId (cachedMsg d) = .ok (some e))
    (huncut : Uncut (cachedMsg d)) (hlen : d.textPlain.length ≤ 2000) : e.IsOf d := by
  have hsender : d.sender ≠ [] := by
    rw [jobDoc, hjob] at hd
    cases job with
    | append roomId msg key => exact messageSender_ne_nil (appended_spec hd).2.2.1
    | saveUserPublicKey username key => simp at hd
  exact isOf_of_cachedMsg hsender hlen huncut hmsg

/-- A job for another id runs. -/
theorem Kept.runJob_of_ne (h : Kept env k n) (hstep : n.runJob env i now nonce = some n')
    (hjob : n.jobs[i]? = some job) (hkey : job.key? ≠ some k) : Kept env k n' := by
  obtain ⟨job', hjob', hjobs, -, hcache, hdocs⟩ := runJob_spec hstep
  obtain rfl := Option.some.inj (hjob.symm.trans hjob')
  obtain ⟨hbefore, hafter⟩ := filter_eraseIdx (p := fun j : Job ↦ decide (j.key? = some k)) hjob
  refine h.of_subset (fun e he hk ↦ ?_) ?_ ⟨[], ?_⟩
  · rw [hcache] at he
    exact (NothingNew.of_ne fun p hp hp' ↦ hkey (key?_of_mem_runJob hjob hp hp')).entries e he hk
  · rw [storedDoc_runJob hjob hdocs, if_neg hkey, Option.or_none]
  · rw [jobsFor, jobsFor, hjobs, hafter, hbefore, if_neg (by simpa using hkey), List.append_nil]
    rfl

/-- A job for the id runs when it is its turn. -/
theorem Kept.runJob (h : Kept env k n) (hturn : InTurn env k n (.runJob i now nonce))
    (hstep : n.runJob env i now nonce = some n') : Kept env k n' := by
  obtain ⟨job, hjob, hjobs, -, hcache, hdocs⟩ := runJob_spec hstep
  by_cases hkey : job.key? = some k
  · obtain ⟨hfirst, hnew⟩ := hturn job hjob hkey
    obtain ⟨hbefore, hafter⟩ := filter_eraseIdx (p := fun j : Job ↦ decide (j.key? = some k)) hjob
    have hjobsFor : n.jobsFor k = job :: n'.jobsFor k := by
      rw [jobsFor, jobsFor, hjobs, hafter, hbefore, hfirst, if_pos (decide_eq_true hkey)]
      rfl
    have hstored := storedDoc_runJob (k := k) hjob hdocs
    rw [if_pos hkey] at hstored
    intro e he hk
    rw [hcache] at he
    by_cases hmem : e ∈ n.store.cache.globalMsgCache
    · rcases h e hmem hk with ⟨d, hd, hof⟩ | ⟨hnone, j, js, hj, hmakes⟩
      · exact Or.inl ⟨d, by rw [hstored, hd, Option.some_or], hof⟩
      · obtain rfl : job = j := (List.cons.inj (hjobsFor.symm.trans hj)).1
        cases job with
        | append roomId msg key =>
          obtain ⟨d, hd, hof, hfiled⟩ := hmakes n.store now nonce
          refine Or.inl ⟨d, ?_, hof⟩
          rw [hstored, hnone, Option.none_or, jobDoc, hjob]
          exact Option.filter_eq_some_iff.mpr ⟨hd, hfiled⟩
        | saveUserPublicKey username key => exact hmakes.elim
    · -- the entry is that of the document
      cases hd : n.jobDoc env i now nonce with
      | none =>
        rw [Event.puts, hd] at he
        exact absurd he hmem
      | some d =>
        rw [Event.puts, hd] at he
        obtain ⟨hentry, hids⟩ := (FeedCache.mem_call he).resolve_left hmem
        obtain ⟨hnone, huncut⟩ := hnew (hk ▸ hids)
        obtain ⟨huncut, hlen⟩ := huncut d hd
        have hmsg : compactMsg env.lib now d.roomId (cachedMsg d) = .ok (some e) :=
          PutCall.entry?_eq_some_iff.mp hentry
        refine Or.inl ⟨d, ?_, isOf_of_jobDoc hjob hd hmsg huncut hlen⟩
        rw [hstored, hnone, Option.none_or, hd, Option.filter_some, Doc.filed, hmsg]
        rfl
  · exact h.runJob_of_ne hstep hjob hkey

end Jobs

theorem length_puts_frame (env : Env) (n : Node) (id : Str) (data : Value) (now : ℤ) (uuid : Str) :
    ((Event.frame id data now uuid).puts env n).length ≤ 1 := by
  rw [Event.puts, List.length_map]
  cases data with
  | dict fields =>
    rw [Event.submissions]
    split
    · cases (n.clientsById.get? id).bind fun c ↦ frameSubmission env c fields now uuid <;> simp
    · simp
  | _ => exact Nat.zero_le _

/-! ## Steps

Every event meets the condition in its own way, and the invariant follows from one of the lemmas
above. -/

/-- Steps that put nothing but what the cache knows. -/
theorem Kept.of_nothingNew (h : Kept env k n) {a : Event}
    (hleft : Leaves env n n' (a.puts env n) (a.job env n) (a.completed env n))
    (hnothing : NothingNew env.lib k n.store.cache (a.puts env n)) : Kept env k n' := by
  refine h.of_subset (fun e he hk ↦ ?_) (storedDoc_of_docs hleft.docs)
    ⟨(a.job env n).toList.filter fun j ↦ decide (j.key? = some k), ?_⟩
  · rw [hleft.cache] at he
    exact hnothing.entries e he hk
  · rw [jobsFor, hleft.jobs, List.filter_append]
    rfl

theorem Kept.step (h : Kept env k n) {a : Event} (hturn : InTurn env k n a)
    (hstep : n.step env a = some n') : Kept env k n' := by
  cases a with
  | runJob i now nonce => exact h.runJob hturn hstep
  | post body query now uuid =>
    have hleft := leaves_step hstep (by simp)
    refine h.of_first hleft
      (by rw [Event.puts]; cases postSubmission env body query now uuid <;> simp)
      fun p hp hkey hids ↦ ?_
    obtain ⟨s, hs, hfirst⟩ := hturn p hp hkey hids
    obtain ⟨hputs, hjob⟩ := puts_of_completed_post hs
    exact ⟨s, now, hputs, hjob, Or.inl ⟨body, query, uuid, postSubmission_of_completed hs⟩, hfirst⟩
  | frame id data now uuid =>
    have hleft := leaves_step hstep (by simp)
    refine h.of_first hleft (length_puts_frame env n id data now uuid) fun p hp hkey hids ↦ ?_
    obtain ⟨s, hs, hfirst⟩ := hturn p hp hkey hids
    obtain ⟨hputs, hjob⟩ := puts_of_completed_frame hs
    obtain ⟨fields, c, -, -, -, hsub, -⟩ := frameSubmission_of_completed hs
    exact ⟨s, now, hputs, hjob, Or.inr ⟨c, fields, uuid, hsub⟩, hfirst⟩
  | connect id queryParams now => exact h.of_nothingNew (leaves_step hstep (by simp)) hturn
  | fetchHistory id now docs => exact h.of_nothingNew (leaves_step hstep (by simp)) hturn
  | resume id => exact h.of_nothingNew (leaves_step hstep (by simp)) hturn
  | disconnect id => exact h.of_nothingNew (leaves_step hstep (by simp)) hturn
  | gossip data now => exact h.of_nothingNew (leaves_step hstep (by simp)) hturn
  | feed room limit now => exact h.of_nothingNew (leaves_step hstep (by simp)) hturn
  | warmCache now docs => exact h.of_nothingNew (leaves_step hstep (by simp)) hturn
  | publicKey username => exact h.of_nothingNew (leaves_step hstep (by simp)) hturn
  | privateKey username => exact h.of_nothingNew (leaves_step hstep (by simp)) hturn
  | background b => exact h.of_nothingNew (leaves_step hstep (by simp)) hturn

/-- **The feed and the database keep the same message**, if jobs run when it is their turn. -/
theorem agrees_of_inTurn {env : Env} {k : Key} {n : Node}
    (h : ((system env).when (InTurn env k)).Reachable n) : Agrees k n := by
  have hkept : Kept env k n := by
    refine h.invariant (I := Kept env k) ?_ fun s a s' hs hstep ↦ hs.step hstep.1 hstep.2
    rintro s rfl e he
    rw [(Quiet.initial env).store] at he
    exact absurd he List.not_mem_nil
  exact hkept.agrees

/-! ## Two runs

Two messages with one id, whose jobs run in the order of the posts or in the other one. -/

/-- Two messages with one id are posted, and their jobs run one after the other. -/
def resentRun : List Event :=
  [postEvent (lit "m1") (lit "one"), postEvent (lit "m1") (lit "two"), .runJob 0 0 [],
    .runJob 0 0 []]

/-- A message whose id the cache knows comes when it likes. -/
theorem inTurn_post {env : Env} {n : Node} {k : Key} (h : k ∈ n.store.cache.globalMsgIds)
    (body : Body) (query : Obj) (now : ℤ) (uuid : Str) :
    InTurn env k n (.post body query now uuid) := fun _ _ _ hnew ↦ absurd h hnew

/-- It is always the turn of the first job. -/
theorem inTurn_runJob {env : Env} {n : Node} {k : Key} (h : k ∈ n.store.cache.globalMsgIds)
    (now : ℤ) (nonce : Bytes) : InTurn env k n (.runJob 0 now nonce) := fun _ _ _ ↦
  ⟨rfl, fun hnew ↦ absurd h hnew⟩

/-- The feed and the database keep the first of the two messages. -/
theorem agrees_resentRun : ∃ n : Node, n.store.docs.map Doc.textPlain = [lit "one", lit "two"] ∧
    Agrees (.str (lit "m1")) n := by
  have hknown : ∀ i ∈ [1, 2, 3], (System.exec (step plainEnv) (initial plainEnv)
      (resentRun.take i)).map (fun n ↦ decide (.str (lit "m1") ∈ n.store.cache.globalMsgIds)) =
        some true := by
    decide +kernel
  have hran : (System.exec (step plainEnv) (initial plainEnv) resentRun).map
      (fun n ↦ n.store.docs.map Doc.textPlain) = some [lit "one", lit "two"] := by
    decide +kernel
  obtain ⟨n, hn, hdocs⟩ := Option.map_eq_some_iff.mp hran
  have hids : ∀ i ∈ [1, 2, 3], ∀ m, (system plainEnv).Trace (initial plainEnv)
      (resentRun.take i) m → .str (lit "m1") ∈ m.store.cache.globalMsgIds := by
    intro i hi m hm
    have hin := hknown i hi
    rw [System.exec_of_trace hm] at hin
    exact of_decide_eq_true (Option.some.inj hin)
  obtain _ | ⟨hs₁, _ | ⟨hs₂, _ | ⟨hs₃, _ | ⟨hs₄, _ | _⟩⟩⟩⟩ :
      (system plainEnv).Trace (initial plainEnv) resentRun n := System.trace_of_exec hn
  have hfirst : InTurn plainEnv (.str (lit "m1")) (initial plainEnv)
      (postEvent (lit "m1") (lit "one")) := by
    intro p _ _ _
    refine ⟨_, rfl, ?_, ?_, ?_, ?_⟩
    · rw [jobsFor, (Quiet.initial plainEnv).jobs]
      rfl
    · rw [storedDoc, (Quiet.initial plainEnv).store]
      rfl
    · exact ⟨⟨_, rfl, by decide⟩, _, rfl, by decide, by decide⟩
    · rintro _ ⟨⟩ st now nonce
      rfl
  have h₁ := hids 1 (by simp) _ (.cons hs₁ (.nil _))
  have h₂ := hids 2 (by simp) _ (.cons hs₁ (.cons hs₂ (.nil _)))
  have h₃ := hids 3 (by simp) _ (.cons hs₁ (.cons hs₂ (.cons hs₃ (.nil _))))
  have hreach : ((system plainEnv).when (InTurn plainEnv (.str (lit "m1")))).Reachable n :=
    System.Trace.reachable (.cons ⟨hfirst, hs₁⟩ (.cons ⟨inTurn_post h₁ _ _ _ _, hs₂⟩
      (.cons ⟨inTurn_runJob h₂ _ _, hs₃⟩ (.cons ⟨inTurn_runJob h₃ _ _, hs₄⟩ (.nil n))))) rfl
  exact ⟨n, hdocs, agrees_of_inTurn hreach⟩

/-- Two messages with one id, and the job of the second one runs first. -/
def overtakenRun : List Event :=
  [postEvent (lit "m1") (lit "one"), postEvent (lit "m1") (lit "two"), .runJob 1 0 [],
    .runJob 0 0 []]

/-- The feed shows the first message, and the database stores the second. -/
theorem not_agrees_overtakenRun : ∃ n, (system plainEnv).Trace (initial plainEnv) overtakenRun n ∧
    ¬ Agrees (.str (lit "m1")) n := by
  have hexec : (System.exec (step plainEnv) (initial plainEnv) overtakenRun).map
      (fun n ↦ (n.jobs.length, n.store.cache.globalMsgCache.map fun e ↦ (e.key, e.text),
        (n.storedDoc (.str (lit "m1"))).map Doc.textPlain)) =
      some (0, [(.str (lit "m1"), lit "one")], some (lit "two")) := by
    decide +kernel
  obtain ⟨n, hn, hresult⟩ := Option.map_eq_some_iff.mp hexec
  obtain ⟨hjobs, hrest⟩ := Prod.mk.inj hresult
  obtain ⟨hcache, hdoc⟩ := Prod.mk.inj hrest
  refine ⟨n, System.trace_of_exec hn, fun h ↦ ?_⟩
  obtain ⟨e, hcached, hentry⟩ := List.map_eq_singleton_iff.mp hcache
  obtain ⟨hk, htext⟩ := Prod.mk.inj hentry
  have hnone : n.jobsFor (.str (lit "m1")) = [] := by
    rw [jobsFor, List.length_eq_zero_iff.mp hjobs]
    rfl
  obtain ⟨d, hd, hof⟩ := h hnone e (by rw [hcached]; exact List.mem_singleton_self e) hk
  rw [hd, Option.map_some, Option.some.injEq] at hdoc
  exact absurd (hdoc.symm.trans (hof.text.trans htext)) (by decide)

end Node
end GroupChat
