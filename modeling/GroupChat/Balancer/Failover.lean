import GroupChat.Balancer.Serve
import GroupChat.Server.Changes

/-!
# Failover

When the transport of the chosen backend fails, `retryRoundTripper.RoundTrip` sends the request to a
peer.  It does so after every error, so also when the backend has handled the request and only the
response has been lost.  A `POST /message` is then handled twice, and whether the message is stored
under one id depends on whether the client has given one: `post_message` makes up a new id on each
backend otherwise.

* A transport is described by how its round trip ends (`Outcome`), and a backend by the `Call` of
  `post_message` that it makes, at any state of the node.
* `servePost` is the way of a request through `LB.ServeHTTP` and `RoundTrip`: the calls that it
  leads to and the backend whose response the client gets.
* `Call.stored` has the ids that a call adds to what the node holds, and `Posting` classifies a
  request by what it stores: nothing, a message with an id of the client, or one with a new id.
* `storedFor_subsingleton_iff`: one request is stored under at most one id, unless both backends
  handle it and it stores a message with a new id.
-/

set_option autoImplicit false

namespace GroupChat

/-! ## What a node holds

An id is held by a node if its message is in the cache, has been stored, or is in a job that is
still to be run.  A submission adds one id to these at most. -/

/-- The id that a job stores a message under. -/
def Job.messageId? : Job → Option Value
  | .append _ msg _ => some (msg.get "id")
  | .saveUserPublicKey _ _ => none

/-- A message with a new id is filed. -/
theorem Store.exists_cachePut {L : PyLib} {st : Store} {now : ℤ} {roomId : Value} {msg : Obj}
    {u : Str} {ts : ℤ} (hid : msg.get "id" = .str u) (hu : u ≠ [])
    (hts : msg.get "timestamp" = .int ts) (hnew : .str u ∉ st.cache.globalMsgIds) :
    ∃ st', st.cachePut L now roomId msg = .ok st' ∧
      ∃ e ∈ st'.cache.globalMsgCache, e.id = .str u := by
  obtain ⟨ts', hts'⟩ : ∃ ts', ((msg.get "timestamp").or (.int now)).toInt L = .ok ts' := by
    rw [hts, Value.or]
    split <;> exact ⟨_, rfl⟩
  have hkey : (msg.get "id").key? = some (.str u) := by
    rw [hid]
    rfl
  have htruthy : (msg.get "id").truthy = true := by
    rw [hid]
    simpa [Value.truthy] using hu
  obtain ⟨e, heid, hekey, hput⟩ := st.cachePut_of_key htruthy hts' hkey
  have haccepts : st.cache.Accepts e := by
    rw [FeedCache.Accepts, hekey]
    exact hnew
  exact ⟨st.putEntry e, hput, e, mem_putEntry haccepts, heid.trans hid⟩

namespace Node

/-- The ids of the messages that a node has in its feed cache, has stored, or is about to store. -/
def messageIds (n : Node) : Set Value :=
  {x | (∃ e ∈ n.store.cache.globalMsgCache, e.id = x) ∨ (∃ j ∈ n.jobs, j.messageId? = some x) ∨
    ∃ d ∈ n.store.docs, d.id = x}

variable {env : Env} {n n' : Node}

theorem messageIds_of_quiet (h : Quiet n n') : n'.messageIds = n.messageIds := by
  rw [messageIds, messageIds, h.store, h.jobs]

theorem messageIds_spawn (n : Node) (j : Job) {x : Value} (h : x ∈ (n.spawn j).messageIds) :
    x ∈ n.messageIds ∨ j.messageId? = some x := by
  rcases h with hcache | ⟨j', hj', hid⟩ | hdoc
  · exact Or.inl (Or.inl hcache)
  · rcases List.mem_append.mp hj' with hj' | hj'
    · exact Or.inl (Or.inr (Or.inl ⟨j', hj', hid⟩))
    · exact Or.inr (List.mem_singleton.mp hj' ▸ hid)
  · exact Or.inl (Or.inr (Or.inr hdoc))

theorem messageIds_cachePut {store : Store} {now : ℤ} {room : Value} {msg : Obj}
    (h : n.store.cachePut env.lib now room msg = .ok store) {x : Value}
    (hx : x ∈ ({ n with store := store } : Node).messageIds) :
    x ∈ n.messageIds ∨ x = msg.get "id" := by
  rcases hx with ⟨e, he, hid⟩ | hjob | hdoc
  · rw [Store.cachePut] at h
    split at h
    · simp at h
    · rw [← Except.ok.inj h] at he
      exact Or.inl (Or.inl ⟨e, he, hid⟩)
    · rename_i e' he'
      rw [← Except.ok.inj h, Store.putEntry] at he
      split at he
      · rcases FeedCache.mem_insert he with he | rfl
        · exact Or.inl (Or.inl ⟨e, he, hid⟩)
        · exact Or.inr (hid.symm.trans (eq_of_compactMsg he').2.1)
      · exact Or.inl (Or.inl ⟨e, he, hid⟩)
  · exact Or.inl (Or.inr (Or.inl hjob))
  · rw [(Store.onlyCached_cachePut h).docs] at hdoc
    exact Or.inl (Or.inr (Or.inr hdoc))

/-- A submission adds at most one id. -/
theorem messageIds_submits {now : ℤ} {s : Submission} (h : Submits env n now s n')
    (hjob : ∀ j, s.job = some j → j.messageId? = some (s.cached.get "id")) {x : Value}
    (hx : x ∈ n'.messageIds) : x ∈ n.messageIds ∨ x = s.cached.get "id" := by
  rcases h with rfl | ⟨store, n₁, n₂, hstore, h₁, h₂, h₃⟩
  · exact Or.inl hx
  · have hn₁ : n₁.messageIds = ({ n with store := store } : Node).messageIds := by
      rcases h₁ with rfl | ⟨r, -, rfl⟩ <;> rfl
    have hn₂ : x ∈ n₂.messageIds → x ∈ n.messageIds ∨ x = s.cached.get "id" := by
      rw [messageIds_of_quiet h₂, hn₁]
      exact messageIds_cachePut hstore
    rcases h₃ with rfl | ⟨j, hj, h₃⟩
    · exact hn₂ hx
    · rw [messageIds_of_quiet h₃] at hx
      rcases messageIds_spawn n₂ j hx with hx | hx
      · exact hn₂ hx
      · exact Or.inr (Option.some.inj (hx.symm.trans (hjob j hj)))

end Node

/-! ## The id of a posted message

A request gives its message an id in one of several fields, or none.  With a given id every call
stores the same one, whichever node it is made on. -/

/-- The id that a request gives to its message. -/
def givenId (data query : Obj) : Value := data.firstOf ["id", "msg_id"] (query.get "id")

/-- What a request wants to be stored. -/
inductive Posting
  /-- No message. -/
  | nothing
  /-- A message with this id. -/
  | named (id : Value)
  /-- A message that needs an id. -/
  | unnamed

/-- The kind of a request, by its body and its query. -/
def Body.posting (body : Body) (query : Obj) : Posting :=
  match body.data with
  | some (.dict data) =>
    if (msgText data query).truthy then
      if (givenId data query).truthy then .named (givenId data query) else .unnamed
    else .nothing
  | _ => .nothing

/-- The id of a message is the given one, if there is one. -/
theorem postedId_eq (data query : Obj) (uuid : Str) :
    postedId data query uuid =
      if (givenId data query).truthy then givenId data query else .str uuid := by
  simp only [postedId, givenId, Obj.firstOf, Value.or]
  split_ifs <;> simp_all

/-- The ids that a call which makes up `uuid` can store. -/
def Posting.ids (uuid : Str) : Posting → Set Value
  | nothing => ∅
  | named id => {id}
  | unnamed => {.str uuid}

theorem Posting.ids_subsingleton (p : Posting) (uuid : Str) : (p.ids uuid).Subsingleton := by
  cases p with
  | nothing => exact Set.subsingleton_empty
  | named id => exact Set.subsingleton_singleton
  | unnamed => exact Set.subsingleton_singleton

/-- The id of a message is the same in every call, if it is given or not needed. -/
theorem Posting.ids_eq {p : Posting} (h : p ≠ .unnamed) (uuid uuid' : Str) :
    p.ids uuid = p.ids uuid' := by
  cases p with
  | nothing => rfl
  | named id => rfl
  | unnamed => exact absurd rfl h

theorem mem_ids_of_postSubmission {env : Env} {body : Body} {query : Obj} {now : ℤ} {uuid : Str}
    {s : Node.Submission} (h : Node.postSubmission env body query now uuid = some s) :
    s.cached.get "id" ∈ (body.posting query).ids uuid ∧
      ∀ j, s.job = some j → j.messageId? = some (s.cached.get "id") := by
  unfold Node.postSubmission at h
  split at h
  · rename_i data hdata
    have hposting : body.posting query = if (msgText data query).truthy then
        if (givenId data query).truthy then .named (givenId data query) else .unnamed
        else .nothing := by
      rw [Body.posting, hdata]
    split at h
    · rename_i htext
      obtain rfl := Option.some.inj h
      refine ⟨?_, fun j hj ↦ Option.some.inj hj ▸ rfl⟩
      show postedId data query uuid ∈ _
      rw [hposting, if_pos htext, postedId_eq]
      split <;> rfl
    · simp at h
  · simp at h

/-! ## Calls

A backend is in an arbitrary state when it gets the request, and so is the second one.  What a
call stores is the difference between the node after and the node before. -/

namespace Balancer

/-- A call of `post_message`: the node as it is then, the time, and the id that it makes up. -/
structure Call where
  env : Env
  node : Node
  now : ℤ
  uuid : Str

namespace Call

variable (c : Call) (body : Body) (query : Obj)

/-- The node after the call. -/
def after : Node := (c.node.postMessage c.env body query c.now c.uuid).1

/-- The ids that the node holds since the call. -/
def stored : Set Value := (c.after body query).messageIds \ c.node.messageIds

/-- The id that the call makes up is one that the node has never seen. -/
structure Fresh : Prop where
  ne_nil : c.uuid ≠ []
  unseen : .str c.uuid ∉ c.node.store.cache.globalMsgIds
  unheld : .str c.uuid ∉ c.node.messageIds

variable {c body query}

theorem mem_ids_of_mem_stored {x : Value} (h : x ∈ c.stored body query) :
    x ∈ (body.posting query).ids c.uuid := by
  obtain ⟨hafter, hbefore⟩ := h
  rcases Node.postMessage_spec c.env c.node body query c.now c.uuid with hsame | ⟨s, hs, hsub⟩
  · exact absurd (hsame ▸ hafter) hbefore
  · obtain ⟨hid, hjob⟩ := mem_ids_of_postSubmission hs
    rcases Node.messageIds_submits hsub hjob hafter with hx | rfl
    · exact absurd hx hbefore
    · exact hid

/-- The broadcast and what comes after it leave the cache alone. -/
theorem store_postMessage {env : Env} {n : Node} {data : Obj} {now : ℤ} {uuid : Str}
    (hdata : body.data = some (.dict data)) (htext : (msgText data query).truthy = true)
    {store : Store} (hstore : n.store.cachePut env.lib now (postedRoom env data query)
      (fullMessage (postedId data query uuid)
        (.str (cleaned env (clientName data query) maxUsernameLen))
        (.str (cleaned env (msgText data query) maxMessageLen)) (postedRoom env data query)
        (.int (postedTimestamp env data query now))) = .ok store) :
    (n.postMessage env body query now uuid).1.store = store := by
  have htell : ∀ f, (({ n with store := store } : Node).tryBroadcast
      (postedRoom env data query) f).1.store = store := by
    intro f
    rcases Node.tryBroadcast_spec { n with store := store } (postedRoom env data query) f with
      h | ⟨r, -, h⟩
    · rw [h]
    · rw [h]
      rfl
  unfold Node.postMessage
  rw [hdata]
  simp only [if_pos htext, hstore]
  split
  · rename_i n₁ e hn₁
    rw [← htell, hn₁]
  · rename_i n₁ hn₁
    show n₁.store = store
    rw [← htell, hn₁]

/-- A message without an id is stored under the new one. -/
theorem uuid_mem_stored (hc : c.Fresh) (h : body.posting query = .unnamed) :
    .str c.uuid ∈ c.stored body query := by
  obtain ⟨data, hdata, htext, hgiven⟩ : ∃ data, body.data = some (.dict data) ∧
      (msgText data query).truthy = true ∧ (givenId data query).truthy = false := by
    unfold Body.posting at h
    split at h
    · rename_i data hdata
      split_ifs at h with htext hgiven
      exact ⟨data, hdata, htext, by simpa using hgiven⟩
    · simp at h
  have hid : postedId data query c.uuid = .str c.uuid := by
    rw [postedId_eq, hgiven]
    rfl
  obtain ⟨store, hstore, hentry⟩ : ∃ store, c.node.store.cachePut c.env.lib c.now
      (postedRoom c.env data query) (fullMessage (.str c.uuid)
        (.str (cleaned c.env (clientName data query) maxUsernameLen))
        (.str (cleaned c.env (msgText data query) maxMessageLen)) (postedRoom c.env data query)
        (.int (postedTimestamp c.env data query c.now))) = .ok store ∧
      ∃ e ∈ store.cache.globalMsgCache, e.id = .str c.uuid :=
    Store.exists_cachePut rfl hc.ne_nil rfl hc.unseen
  rw [← hid] at hstore
  refine ⟨Or.inl ?_, hc.unheld⟩
  rw [after, store_postMessage hdata htext hstore]
  exact hentry

end Call

/-! ## The way of a request

The balancer reads the body into a buffer, to be able to send it again, and picks a backend.  If
the round trip fails then it picks another one, without asking what the first one has done. -/

/-- What arrives of a `POST /message` at the balancer. -/
structure PostRequest where
  /-- The bytes of the body that can be read. -/
  body : Bytes
  query : Obj
  /-- What a backend makes of the bytes it gets, by the content type of the request. -/
  parse : Bytes → Body

/-- A request on its way to a backend. -/
structure Outgoing where
  body : Bytes
  /-- What `GetBody` reads from. -/
  getBody : Option Bytes

/-- The size of the buffers in `bodyPool`. -/
def bodyBufSize : ℕ := 16384

/-- The body is read into a buffer, from which it can be read again; what does not fit is lost. -/
def capture (body : Bytes) : Outgoing :=
  let captured := body.take bodyBufSize
  ⟨captured, some captured⟩

/-- How the round trip of a transport ends.  The request has no `Idempotency-Key`, so `net/http`
itself does not send it twice. -/
structure Outcome where
  /-- The call of `post_message`, if the backend gets that far. -/
  call : Option Call
  /-- There is an error, and no response. -/
  failed : Bool
  /-- What is left to read of the body. -/
  unread : Bytes

/-- What a request leads to. -/
structure Exchange (ι : Type*) where
  /-- The calls, each with the bytes that the backend gets. -/
  calls : List (Call × Bytes)
  /-- The backend whose response the client gets. -/
  response : Option ι

section Serve

variable {ι : Type*} [DecidableEq ι] (cfg : Serve.Config ι) (transport : ι → Outcome)

/-! ## What the balancer does

The first attempt goes to the backend that was picked, and the second one to another backend, if
there is one.  The body is the same in both, as it has been captured. -/

/-- `RoundTrip` of the transport of `b`. -/
def transportRoundTrip (b : ι) (body : Bytes) : Exchange ι :=
  ⟨(transport b).call.toList.map fun c ↦ (c, body), if (transport b).failed then none else some b⟩

/-- `retryRoundTripper.RoundTrip`, for the chosen backend `b`; `view` is what the backends look like
when it has failed. -/
def roundTrip (view : ι → Backend) (b : ι) (req : Outgoing) : Exchange ι :=
  let first := transportRoundTrip transport b req.body
  match first.response with
  | some _ => first
  | none =>
    match pickExcluding cfg.weights cfg.backends view (some b) with
    | none => first
    | some alt =>
      if alt = b then first
      else
        let second := transportRoundTrip transport alt (req.getBody.getD (transport b).unread)
        ⟨first.calls ++ second.calls, second.response⟩

/-- `LB.ServeHTTP` for a `POST /message`, once it has got a slot; `view` is what the backends look
like at the pick, and `view'` what they look like at the retry. -/
def servePost (view view' : ι → Backend) (r : PostRequest) : Exchange ι :=
  match pick cfg.weights cfg.backends view with
  | none => ⟨[], none⟩
  | some chosen => roundTrip cfg transport view' chosen (capture r.body)

/-! ## When two calls are made

The first backend must have handled the request and failed to deliver the response, and the second
one must have been reached. -/

/-- The backend that is chosen makes the call `c` and loses the response, and its peer makes the
call `c'`. -/
def CalledTwice (view view' : ι → Backend) (c c' : Call) : Prop :=
  ∃ b alt, pick cfg.weights cfg.backends view = some b ∧ (transport b).failed = true ∧
    pickExcluding cfg.weights cfg.backends view' (some b) = some alt ∧ alt ≠ b ∧
    (transport b).call = some c ∧ (transport alt).call = some c'

variable {cfg transport} {view view' : ι → Backend} {r : PostRequest}

theorem calls_of_calledTwice {c c' : Call} (h : CalledTwice cfg transport view view' c c') :
    (servePost cfg transport view view' r).calls =
      [(c, r.body.take bodyBufSize), (c', r.body.take bodyBufSize)] := by
  obtain ⟨b, alt, hpick, hfailed, halt, hne, hc, hc'⟩ := h
  simp only [servePost, hpick, roundTrip, transportRoundTrip, if_pos hfailed, halt, if_neg hne, hc,
    hc']
  rfl

omit [DecidableEq ι] in
/-- One round trip leads to at most one call. -/
theorem calls_transportRoundTrip (transport : ι → Outcome) (b : ι) (body : Bytes) :
    (transportRoundTrip transport b body).calls = [] ∨
      ∃ c, (transport b).call = some c ∧
        (transportRoundTrip transport b body).calls = [(c, body)] := by
  rw [transportRoundTrip]
  cases (transport b).call with
  | none => exact Or.inl rfl
  | some c => exact Or.inr ⟨c, rfl, rfl⟩

/-- **The calls that a request leads to.** -/
theorem calls_servePost (cfg : Serve.Config ι) (transport : ι → Outcome) (view view' : ι → Backend)
    (r : PostRequest) :
    (servePost cfg transport view view' r).calls = [] ∨
      (∃ c, (servePost cfg transport view view' r).calls = [(c, r.body.take bodyBufSize)]) ∨
      ∃ c c', CalledTwice cfg transport view view' c c' := by
  rw [servePost]
  split
  · exact Or.inl rfl
  · rename_i b hpick
    have hfirst := calls_transportRoundTrip transport b (r.body.take bodyBufSize)
    have honce : (transportRoundTrip transport b (r.body.take bodyBufSize)).calls = [] ∨
        ∃ c, (transportRoundTrip transport b (r.body.take bodyBufSize)).calls =
          [(c, r.body.take bodyBufSize)] := hfirst.imp_right fun ⟨c, _, h⟩ ↦ ⟨c, h⟩
    simp only [roundTrip, capture, Option.getD_some]
    split
    · exact honce.imp_right Or.inl
    · rename_i hresponse
      have hfailed : (transport b).failed = true := by
        by_contra hne
        simp [transportRoundTrip, hne] at hresponse
      split
      · exact honce.imp_right Or.inl
      · rename_i alt halt
        split
        · exact honce.imp_right Or.inl
        · rename_i hne
          have hsecond := calls_transportRoundTrip transport alt (r.body.take bodyBufSize)
          rcases hfirst with hfirst | ⟨c, hc, hfirst⟩
          · rw [hfirst, List.nil_append]
            exact hsecond.imp_right fun ⟨c, _, h⟩ ↦ Or.inl ⟨c, h⟩
          · rcases hsecond with hsecond | ⟨c', hc', hsecond⟩
            · rw [hfirst, hsecond]
              exact Or.inr (Or.inl ⟨c, rfl⟩)
            · exact Or.inr (Or.inr ⟨c, c', b, alt, hpick, hfailed, halt, hne, hc, hc'⟩)

/-! ## The ids of one request

At most two calls are made for a request.  They store one id together unless both are made and
each makes up its own. -/

/-- The ids that the backends hold because of a request. -/
def storedFor (r : PostRequest) (calls : List (Call × Bytes)) : Set Value :=
  {x | ∃ p ∈ calls, x ∈ p.1.stored (r.parse p.2) r.query}

/-- The ids that `uuid4` makes up are new, and different from each other. -/
structure FreshIds (transport : ι → Outcome) : Prop where
  fresh : ∀ b c, (transport b).call = some c → c.Fresh
  distinct : ∀ b b' c c', b ≠ b' → (transport b).call = some c → (transport b').call = some c' →
    c.uuid ≠ c'.uuid

/-- Two calls that make up different ids store two. -/
theorem not_subsingleton_of_calledTwice (hfresh : FreshIds transport) {c c' : Call}
    (h : CalledTwice cfg transport view view' c c')
    (hunnamed : (r.parse (r.body.take bodyBufSize)).posting r.query = .unnamed) :
    ¬ (storedFor r (servePost cfg transport view view' r).calls).Subsingleton := by
  intro hsub
  rw [calls_of_calledTwice h] at hsub
  obtain ⟨b, alt, -, -, -, hne, hc, hc'⟩ := h
  have hstored : ∀ d ∈ [c, c'], d.Fresh →
      .str d.uuid ∈ storedFor r [(c, r.body.take bodyBufSize), (c', r.body.take bodyBufSize)] :=
    fun d hd hd' ↦ ⟨(d, r.body.take bodyBufSize), by simpa using hd, d.uuid_mem_stored hd' hunnamed⟩
  have heq := hsub (hstored c (by simp) (hfresh.fresh b c hc))
    (hstored c' (by simp) (hfresh.fresh alt c' hc'))
  exact hfresh.distinct alt b c' c hne hc' hc (Value.str.inj heq).symm

/-- **A request is stored under one id, unless two backends handle it and it needs a new id.** -/
theorem storedFor_subsingleton_iff (cfg : Serve.Config ι) (view view' : ι → Backend)
    (r : PostRequest) (hfresh : FreshIds transport) :
    (storedFor r (servePost cfg transport view view' r).calls).Subsingleton ↔
      ¬ ((∃ c c', CalledTwice cfg transport view view' c c') ∧
        (r.parse (r.body.take bodyBufSize)).posting r.query = .unnamed) := by
  constructor
  · rintro hsub ⟨⟨c, c', htwice⟩, hunnamed⟩
    exact not_subsingleton_of_calledTwice hfresh htwice hunnamed hsub
  · intro hnot x hx y hy
    rcases calls_servePost cfg transport view view' r with hcalls | ⟨c, hcalls⟩ | ⟨c, c', htwice⟩
    · rw [hcalls] at hx
      obtain ⟨p, hp, -⟩ := hx
      exact absurd hp List.not_mem_nil
    · rw [hcalls] at hx hy
      obtain ⟨p, hp, hx⟩ := hx
      obtain ⟨q, hq, hy⟩ := hy
      rw [List.mem_singleton.mp hp] at hx
      rw [List.mem_singleton.mp hq] at hy
      exact Posting.ids_subsingleton _ _ (Call.mem_ids_of_mem_stored hx)
        (Call.mem_ids_of_mem_stored hy)
    · have hids : ∀ z ∈ storedFor r (servePost cfg transport view view' r).calls,
          z ∈ ((r.parse (r.body.take bodyBufSize)).posting r.query).ids [] := by
        rintro z ⟨p, hp, hz⟩
        have hbytes : p.2 = r.body.take bodyBufSize := by
          rw [calls_of_calledTwice htwice] at hp
          rcases List.mem_pair.mp hp with rfl | rfl <;> rfl
        rw [← Posting.ids_eq (fun h ↦ hnot ⟨⟨c, c', htwice⟩, h⟩) p.1.uuid, ← hbytes]
        exact Call.mem_ids_of_mem_stored hz
      exact Posting.ids_subsingleton _ _ (hids x hx) (hids y hy)

end Serve

/-! ## Two failures

In the first case the backend cannot be reached, and in the second one only its response is
lost. -/

/-- A call on a node that has just started. -/
def firstCall (uuid : Str) : Call := ⟨plainEnv, .initial plainEnv, 0, uuid⟩

theorem fresh_firstCall {uuid : Str} (h : uuid ≠ []) : (firstCall uuid).Fresh where
  ne_nil := h
  unseen hmem := by
    rw [firstCall, (Node.Quiet.initial plainEnv).store] at hmem
    exact absurd hmem (Finset.notMem_empty _)
  unheld hmem := by
    rw [firstCall, Node.messageIds_of_quiet (Node.Quiet.initial plainEnv)] at hmem
    rcases hmem with ⟨e, he, -⟩ | ⟨j, hj, -⟩ | ⟨d, hd, -⟩
    · exact absurd he List.not_mem_nil
    · exact absurd hj List.not_mem_nil
    · exact absurd hd List.not_mem_nil

/-- Two backends, the first of which is chosen first. -/
def twoBackends : Serve.Config Bool := ⟨⟨1, 1, 1⟩, [false, true], 1⟩

/-- What they look like. -/
def bothHealthy : Bool → Backend := fun _ ↦ ⟨true, 10, 0, 0, 0⟩

/-- A form without an id. -/
def hiRequest : PostRequest where
  body := (lit "client-name=Alice&msg=hi").map .ofNat
  query := []
  parse _ := .form (some [("client-name", .str (lit "Alice")), ("msg", .str (lit "hi"))])

/-- The transport of the first backend fails, after `call`. -/
def failingFirst (call : Option Call) : Bool → Outcome
  | false => ⟨call, true, []⟩
  | true => ⟨some (firstCall (lit "m2")), false, []⟩

theorem freshIds_failingFirst {call : Option Call}
    (h : ∀ c, call = some c → c = firstCall (lit "m1")) : FreshIds (failingFirst call) := by
  constructor
  · intro b c hc
    cases b with
    | false => exact h c hc ▸ fresh_firstCall (by decide)
    | true => exact Option.some.inj hc ▸ fresh_firstCall (by decide)
  · intro b b' c c' hne hc hc'
    cases b <;> cases b'
    · exact absurd rfl hne
    · rw [h c hc, ← Option.some.inj hc']
      decide
    · rw [h c' hc', ← Option.some.inj hc]
      decide
    · exact absurd rfl hne

/-- The first backend cannot be reached, and its peer stores the message. -/
theorem storedFor_refused :
    (.str (lit "m2") ∈ storedFor hiRequest (servePost twoBackends (failingFirst none) bothHealthy
      bothHealthy hiRequest).calls) ∧
    (storedFor hiRequest (servePost twoBackends (failingFirst none) bothHealthy bothHealthy
      hiRequest).calls).Subsingleton := by
  have hpick : pick twoBackends.weights twoBackends.backends bothHealthy = some false := by
    decide +kernel
  have halt : pickExcluding twoBackends.weights twoBackends.backends bothHealthy (some false) =
      some true := by
    decide +kernel
  have hcalls : (servePost twoBackends (failingFirst none) bothHealthy bothHealthy
      hiRequest).calls = [(firstCall (lit "m2"), hiRequest.body.take bodyBufSize)] := by
    simp only [servePost, hpick, roundTrip, halt]
    rfl
  refine ⟨⟨_, hcalls ▸ List.mem_singleton_self _, ?_⟩,
    (storedFor_subsingleton_iff twoBackends bothHealthy bothHealthy hiRequest
      (freshIds_failingFirst fun c hc ↦ absurd hc (by simp))).mpr ?_⟩
  · exact Call.uuid_mem_stored (fresh_firstCall (by decide)) rfl
  · rintro ⟨⟨c, c', b, alt, hb, -, -, -, hc, -⟩, -⟩
    obtain rfl := Option.some.inj (hpick.symm.trans hb)
    exact absurd hc (by simp [failingFirst])

/-- The response of the first backend is lost, and the message is stored twice. -/
theorem storedFor_lostResponse :
    ¬ (storedFor hiRequest (servePost twoBackends (failingFirst (some (firstCall (lit "m1"))))
      bothHealthy bothHealthy hiRequest).calls).Subsingleton := by
  have htwice : CalledTwice twoBackends (failingFirst (some (firstCall (lit "m1")))) bothHealthy
      bothHealthy (firstCall (lit "m1")) (firstCall (lit "m2")) :=
    ⟨false, true, by decide +kernel, rfl, by decide +kernel, by decide, rfl, rfl⟩
  exact not_subsingleton_of_calledTwice
    (freshIds_failingFirst fun c hc ↦ (Option.some.inj hc).symm) htwice rfl

end Balancer
end GroupChat
