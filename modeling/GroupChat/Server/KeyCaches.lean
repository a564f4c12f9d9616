import GroupChat.Server.Effects

/-!
# The sizes of the key caches

The names that a node keeps keys for are chosen by its clients, so the three caches have to be
bounded.  Most functions that put a key into one of them empty the cache first if it has too many
entries.  This file says which do not, and that these are all that can make a cache too large.

* `KeyCall` are the calls that go through the caches of `server/store.py`, and `KeyStore.call` is
  what they do.  `keys_step` connects them with the events of a node; apart from the call of its
  event, a step only ever derives the key of a name.
* `KeyStore.Guarded` is the condition on a call: a new name does not come, without the guard, into
  a cache that has more than 5000 entries already.
* `keysBounded_iff`: in a run, the caches are within their bounds all the time if and only if all
  calls are guarded.
* `not_keysBounded_posts`: enough posts under different names are a run in which they are not.

`_cached_sender_keys` is always within its bound.  A pair that is read from a file is put into it
without a look at its size, but there are no more of these than files.
-/

set_option autoImplicit false

namespace GroupChat

open Transition

/-! ## Calls

The functions of `server/store.py` look into a cache, put what they have derived into it, and some
of them clear it before if it is too large.  A call is one of these functions with a name. -/

/-- A call that may put the keys of a name into the caches. -/
inductive KeyCall
  | save (username : Str) (key : PublicKey)
  /-- `append_message` for a client without a key. -/
  | sign (sender : Str)
  | lookUp (username : Str)
  | lookUpPrivate (username : Str)

namespace KeyStore

section Calls

variable (L : PyLib) (K : Keyring) (ks : KeyStore)

/-- The caches after a call. -/
def call : KeyCall → KeyStore
  | .save username key => ks.saveUserPublicKey L username key
  | .sign sender => (ks.signingKey L K sender none).2
  | .lookUp username => (ks.getUserPublicKey L K username).2
  | .lookUpPrivate username => (ks.getUserPrivateKey L K username).2

/-- The caches after a join, which needs the keys of a name as well. -/
def derive (username : Str) : KeyStore :=
  { ks with senderKeys := (getOrCreateSenderKeys L K ks.senderKeys username).2 }

end Calls

end KeyStore

/-! ## Sizes

What a call does to the sizes is an equivalence: the caches are still within their bounds after it
exactly if it was guarded. -/

/-- Is the name in the cache, or does the cache have room for it? -/
def HasRoom {ν : Type*} (d : Dict Str ν) (name : Str) : Prop :=
  name ∈ d.keys ∨ d.keys.length ≤ 5000

instance {ν : Type*} (d : Dict Str ν) (name : Str) : Decidable (HasRoom d name) :=
  inferInstanceAs (Decidable (_ ∨ _))

/-- Without a guard, the size depends on whether there is room. -/
theorem length_keys_set_iff {ν : Type*} {d : Dict Str ν} (h : d.keys.length ≤ 5001) (name : Str)
    (v : ν) : (d.set name v).keys.length ≤ 5001 ↔ HasRoom d name := by
  rw [Dict.keys_set, HasRoom]
  split
  · rename_i hmem
    exact iff_of_true h (Or.inl hmem)
  · rename_i hmem
    rw [List.length_append, List.length_singleton]
    constructor
    · intro hle
      exact Or.inr (Nat.le_of_succ_le_succ hle)
    · rintro (hname | hle)
      · exact absurd hname hmem
      · exact Nat.succ_le_succ hle

/-- With the guard, it does not. -/
theorem length_keys_clearAbove_set {ν : Type*} (d : Dict Str ν) (name : Str) (v : ν) :
    ((clearAbove d).set name v).keys.length ≤ 5001 := by
  refine (Dict.length_keys_set_le _ name v).trans (Nat.succ_le_succ ?_)
  rw [clearAbove]
  split
  · exact Nat.zero_le _
  · rename_i h
    exact Nat.le_of_not_lt h

section Senders

variable {L : PyLib} {K : Keyring} {files : Finset Str} {cached : SenderKeys}

/-! ## The cache of pairs

Names with files are counted apart, because their pairs are entered without a look at the size. -/

/-- At most 10001 of the names in `_cached_sender_keys` have no file. -/
def SenderKeys.Sized (files : Finset Str) (cached : SenderKeys) : Prop :=
  (cached.keys.filter fun name ↦ decide (name ∉ files)).length ≤ 10001

theorem SenderKeys.Sized.length_le (h : SenderKeys.Sized files cached) :
    cached.keys.length ≤ 10001 + files.card := by
  have hfiles : (cached.keys.filter fun name ↦ decide (name ∈ files)).length ≤ files.card := by
    have hnodup : (cached.keys.filter fun name ↦ decide (name ∈ files)).Nodup :=
      List.Nodup.filter _ cached.nodup
    rw [← List.toFinset_card_of_nodup hnodup]
    refine Finset.card_le_card fun name hname ↦ ?_
    exact of_decide_eq_true (List.mem_filter.mp (List.mem_toFinset.mp hname)).2
  have hsplit : cached.keys.length =
      (cached.keys.filter fun name ↦ decide (name ∈ files)).length +
        (cached.keys.filter fun name ↦ decide (name ∉ files)).length := by
    rw [← List.countP_eq_length_filter, ← List.countP_eq_length_filter,
      List.length_eq_countP_add_countP fun name ↦ decide (name ∈ files)]
    simp
  rw [SenderKeys.Sized] at h
  omega

/-- A pair that is derived makes a cache of more than 10000 entries be flushed. -/
theorem SenderKeys.Sized.derived (name : Str) (pair : PrivateKey × PublicKey) :
    SenderKeys.Sized files
      ((if 10000 < cached.keys.length then Dict.empty else cached).set name pair) := by
  refine (List.length_filter_le _ _).trans ((Dict.length_keys_set_le _ name pair).trans ?_)
  refine Nat.succ_le_succ ?_
  split
  · exact Nat.zero_le _
  · rename_i h
    exact Nat.le_of_not_lt h

/-- A pair from a file does not count. -/
theorem SenderKeys.Sized.fromFile (h : SenderKeys.Sized files cached) {name : Str}
    (hname : name ∈ files) (pair : PrivateKey × PublicKey) :
    SenderKeys.Sized files (cached.set name pair) := by
  rw [SenderKeys.Sized, Dict.keys_set]
  split
  · exact h
  · rw [List.filter_append, List.filter_cons_of_neg (by simpa using hname), List.filter_nil,
      List.append_nil]
    exact h

/-- **`_cached_sender_keys` keeps its size.** -/
theorem SenderKeys.Sized.getOrCreate (hfiles : ∀ name, name ∈ files ↔ (K.keyFiles name).isSome)
    (h : SenderKeys.Sized files cached) (username : Str) :
    SenderKeys.Sized files (getOrCreateSenderKeys L K cached username).2 := by
  rw [getOrCreateSenderKeys]
  simp only
  split
  · exact h
  · split
    · rename_i raw hraw
      have hname : sanitized L username ∈ files := (hfiles _).mpr (by rw [hraw]; rfl)
      split
      · exact h.fromFile hname _
      · exact .derived _ _
    · exact .derived _ _

end Senders

namespace KeyStore

/-! ## Bounds and guards

The three bounds, and the condition that keeps the first two of them. -/

/-- The bounds of the three caches. -/
structure Bounded (files : Finset Str) (ks : KeyStore) : Prop where
  userKeysCache : ks.userKeysCache.keys.length ≤ 5001
  privKeysCache : ks.privKeysCache.keys.length ≤ 5001
  senderKeys : ks.senderKeys.keys.length ≤ 10001 + files.card

/-- The call puts no new name, without the guard, into a cache of more than 5000 entries. -/
def Guarded (L : PyLib) (ks : KeyStore) : KeyCall → Prop
  | .save username _ => HasRoom ks.userKeysCache (L.lower username)
  | .sign sender => L.lower sender ∈ ks.privKeysCache.keys ∨
      HasRoom ks.userKeysCache (L.lower sender) ∧ HasRoom ks.privKeysCache (L.lower sender)
  | .lookUp _ => True
  | .lookUpPrivate username => L.lower username ∈ ks.privKeysCache.keys ∨
      HasRoom ks.userKeysCache (L.lower username)

instance (L : PyLib) (ks : KeyStore) (c : KeyCall) : Decidable (ks.Guarded L c) := by
  cases c <;> unfold Guarded <;> infer_instance

variable {L : PyLib} {K : Keyring} {files : Finset Str} {ks : KeyStore}

/-- The first two caches are within their bounds after a guarded call, and only after such a one. -/
theorem user_priv_call_iff (huser : ks.userKeysCache.keys.length ≤ 5001)
    (hpriv : ks.privKeysCache.keys.length ≤ 5001) (c : KeyCall) :
    ((ks.call L K c).userKeysCache.keys.length ≤ 5001 ∧
      (ks.call L K c).privKeysCache.keys.length ≤ 5001) ↔ ks.Guarded L c := by
  cases c with
  | save username key =>
    rw [call, saveUserPublicKey, Guarded]
    split
    · rename_i key' hget
      exact iff_of_true ⟨huser, hpriv⟩ (Or.inl (Dict.mem_keys_of_get? hget))
    · rw [← length_keys_set_iff huser _ key]
      exact ⟨fun h ↦ h.1, fun h ↦ ⟨h, hpriv⟩⟩
  | sign sender =>
    rw [call, signingKey, Guarded]
    split
    · rename_i key hget
      exact iff_of_true ⟨huser, hpriv⟩ (Or.inl (Dict.mem_keys_of_get? hget))
    · rename_i hget
      simp only [length_keys_set_iff huser, length_keys_set_iff hpriv,
        (Dict.get?_eq_none_iff _).mp hget, false_or]
  | lookUp username =>
    rw [call, getUserPublicKey, Guarded]
    split
    · exact iff_of_true ⟨huser, hpriv⟩ trivial
    · exact iff_of_true ⟨length_keys_clearAbove_set _ _ _, hpriv⟩ trivial
  | lookUpPrivate username =>
    rw [call, getUserPrivateKey, Guarded]
    split
    · rename_i key hget
      exact iff_of_true ⟨huser, hpriv⟩ (Or.inl (Dict.mem_keys_of_get? hget))
    · rename_i hget
      simp only [length_keys_set_iff huser, length_keys_clearAbove_set, and_true,
        (Dict.get?_eq_none_iff _).mp hget, false_or]

/-- A new name that is signed for is in both caches from then on. -/
theorem keys_call_sign (K : Keyring) {sender : Str}
    (huser : L.lower sender ∉ ks.userKeysCache.keys)
    (hpriv : L.lower sender ∉ ks.privKeysCache.keys) :
    (ks.call L K (.sign sender)).userKeysCache.keys =
        ks.userKeysCache.keys ++ [L.lower sender] ∧
      (ks.call L K (.sign sender)).privKeysCache.keys =
        ks.privKeysCache.keys ++ [L.lower sender] := by
  have hget := ks.privKeysCache.get?_eq_none_iff.mpr hpriv
  rw [call, signingKey]
  simp only [hget, Dict.keys_set, if_neg huser, if_neg hpriv, and_self]

theorem sized_call (hfiles : ∀ name, name ∈ files ↔ (K.keyFiles name).isSome)
    (h : SenderKeys.Sized files ks.senderKeys) (c : KeyCall) :
    SenderKeys.Sized files (ks.call L K c).senderKeys := by
  cases c with
  | save username key =>
    rw [call, saveUserPublicKey]
    split <;> exact h
  | sign sender =>
    rw [call, signingKey]
    split
    · exact h
    · exact h.getOrCreate hfiles sender
  | lookUp username =>
    rw [call, getUserPublicKey]
    split
    · exact h
    · exact h.getOrCreate hfiles username
  | lookUpPrivate username =>
    rw [call, getUserPrivateKey]
    split
    · exact h
    · exact h.getOrCreate hfiles username

end KeyStore

/-! ## The calls of a node

An event makes one call at most, in a job or in a request for a key.  All other handlers leave the
caches alone, with the exception of a join. -/

/-- What `append_message` asks the caches for. -/
def appendCall (msg : Obj) (given : Option PrivateKey) : Option KeyCall :=
  match messageSender msg, messageText msg, given with
  | .str sender, .str _, none => some (.sign sender)
  | _, _, _ => none

theorem keys_appendMessage (L : PyLib) (K : Keyring) (st : Store) (now : ℤ) (nonce : Bytes)
    (roomId : Value) (msg : Obj) (given : Option PrivateKey) :
    (st.appendMessage L K now nonce roomId msg given).keys =
      ((appendCall msg given).map fun c ↦ st.keys.call L K c).getD st.keys := by
  have hcall : ∀ sender text, messageSender msg = .str sender → messageText msg = .str text →
      (st.keys.signingKey L K sender given).2 =
        ((appendCall msg given).map fun c ↦ st.keys.call L K c).getD st.keys := by
    intro sender text hsender htext
    unfold appendCall
    rw [hsender, htext]
    cases given with
    | none => rfl
    | some key => rfl
  unfold Store.appendMessage
  split
  · rename_i sender text hsender htext
    rw [← hcall sender text hsender htext]
    simp only
    split
    · rfl
    · split
      · rfl
      · rename_i st' hst'
        exact (Store.onlyCached_cachePut hst').keys
  · rename_i hnot
    have hnone : appendCall msg given = none := by
      unfold appendCall
      split
      · rename_i sender text hsender htext
        exact absurd htext (hnot sender text hsender)
      · rfl
    rw [hnone]
    rfl

/-- What a job asks the caches for. -/
def Job.keyCall : Job → Option KeyCall
  | .append _ msg given => appendCall msg given
  | .saveUserPublicKey username key => some (.save username key)

namespace Node

/-- The call that an event makes, apart from the keys that a join derives. -/
def Event.keyCall (n : Node) : Event → Option KeyCall
  | .runJob i _ _ => n.jobs[i]?.bind Job.keyCall
  | .publicKey username => some (.lookUp username)
  | .privateKey username => some (.lookUpPrivate username)
  | _ => none

/-- The caches are the same, or the keys of one name have been derived. -/
def Derives (env : Env) (n n' : Node) : Prop :=
  n'.store.keys = n.store.keys ∨
    ∃ username, n'.store.keys = n.store.keys.derive env.lib env.keyring username

variable {env : Env} {n n' n'' : Node}

theorem Derives.trans_keys (h : Derives env n n') (hkeys : n''.store.keys = n'.store.keys) :
    Derives env n n'' := by
  rw [Derives, hkeys]
  exact h

theorem keys_of_steady (h : Steady n n') : n'.store.keys = n.store.keys := by rw [h.store]

/-! ## Events and their calls

A submission leaves the caches alone; its job will make the call. -/

theorem keys_submits {now : ℤ} {s : Submission} (h : Submits env n now s n') :
    n'.store.keys = n.store.keys := by
  rcases h with rfl | ⟨store, n₁, n₂, hstore, h₁, h₂, h₃⟩
  · rfl
  · have hn₁ : n₁.store.keys = n.store.keys := by
      rcases h₁ with rfl | ⟨r, -, rfl⟩
      · exact (Store.onlyCached_cachePut hstore).keys
      · exact (Store.onlyCached_cachePut hstore).keys
    have hn₂ := (keys_of_steady h₂.toSteady).trans hn₁
    rcases h₃ with rfl | ⟨j, -, h₃⟩
    · exact hn₂
    · exact (keys_of_steady h₃.toSteady).trans hn₂

theorem keys_submission {now : ℤ} {o : Option Submission}
    (h : n' = n ∨ ∃ s, o = some s ∧ Submits env n now s n') :
    n'.store.keys = n.store.keys := by
  rcases h with rfl | ⟨s, -, h⟩
  · rfl
  · exact keys_submits h

theorem keys_closeConnection (env : Env) (n : Node) (id : Str) :
    (n.closeConnection env id).store.keys = n.store.keys := by
  rcases closeConnection_spec env n id with ⟨-, heq⟩ | ⟨c, n₁, -, hq, hq'⟩
  · rw [heq]
  · have hkeys := keys_of_steady hq.toSteady
    exact (keys_of_steady hq'.toSteady).trans hkeys

theorem keys_afterHandler (env : Env) (id : Str) (r : Node × Option PyError) :
    (afterHandler env id r).store.keys = r.1.store.keys := by
  obtain ⟨n, _ | e⟩ := r
  · rfl
  · exact keys_closeConnection env n id

/-- Of all frames, a join alone needs keys at once. -/
theorem Derives.dispatched {c : Client} {data : Obj} {now : ℤ} {uuid : Str}
    {r : Node × Option PyError} (h : Dispatched env n c data now uuid r) : Derives env n r.1 := by
  cases h with
  | join type hjoin =>
    rcases handleJoin_spec hjoin with ⟨-, hn⟩ | ⟨username, n₁, n₂, -, -, hq, hq', hasks⟩
    · rw [hn]
      exact Or.inl rfl
    · refine Or.inr ⟨username, ?_⟩
      rw [keys_of_steady hasks.steady, keys_of_steady hq'.toSteady, ← keys_of_steady hq.toSteady]
      rfl
  | message type => exact Or.inl (keys_submission (handleMessage_spec env n c data now uuid))
  | privateMessage type =>
    rcases handlePrivateMessage_spec env n c data now uuid with hq | ⟨username, target, -, -, hn⟩
    · exact Or.inl (keys_of_steady hq.toSteady)
    · rw [hn]
      exact Or.inl rfl
  | switchRoom type =>
    rcases handleSwitchRoom_spec env n c (data.get "room") with hq | ⟨room, n₁, -, hq, hasks⟩
    · exact Or.inl (keys_of_steady hq.toSteady)
    · exact Or.inl ((keys_of_steady hasks.steady).trans (keys_of_steady hq.toSteady))
  | createRoom type =>
    rcases handleCreateRoom_spec env n c data with hq | ⟨room, n₁, -, hq, hasks⟩
    · exact Or.inl (keys_of_steady hq.toSteady)
    · exact Or.inl ((keys_of_steady hasks.steady).trans (keys_of_steady hq.toSteady))
  | quiet hq => exact Or.inl (keys_of_steady hq.toSteady)

theorem Derives.receive {id : Str} {data : Value} {now : ℤ} {uuid : Str}
    (h : n.receive env id data now uuid = some n') : Derives env n n' := by
  obtain ⟨c, -, -, hframe⟩ := receive_spec h
  have hnote : (n.noteActivity id c now).store = n.store := (Quiet.noteActivity n id c now).store
  rcases hframe with ⟨fields, r, -, hr, rfl⟩ | ⟨-, rfl⟩
  · have hr' : Derives env n r.1 := by
      have h := Derives.dispatched hr
      rwa [Derives, hnote] at h
    exact hr'.trans_keys (keys_afterHandler env id r)
  · refine Or.inl ((keys_closeConnection env _ id).trans ?_)
    rw [hnote]

/-- A job makes its call. -/
theorem keys_runJob {i : ℕ} {now : ℤ} {nonce : Bytes} (h : n.runJob env i now nonce = some n') :
    n'.store.keys = ((n.jobs[i]?.bind Job.keyCall).map fun c ↦
      n.store.keys.call env.lib env.keyring c).getD n.store.keys := by
  obtain ⟨job, hjob, rfl⟩ := Option.map_eq_some_iff.mp h
  rw [hjob, Option.bind_some]
  cases job with
  | saveUserPublicKey username key => rfl
  | append roomId msg given =>
    exact keys_appendMessage env.lib env.keyring n.store now nonce roomId msg given

/-- **The caches after a step.** -/
theorem keys_step {a : Event} (h : n.step env a = some n') :
    (∃ c, a.keyCall n = some c ∧ n'.store.keys = n.store.keys.call env.lib env.keyring c) ∨
      a.keyCall n = none ∧ Derives env n n' := by
  cases a with
  | connect id queryParams now =>
    obtain ⟨-, rfl⟩ := step_connect h
    exact Or.inr ⟨rfl, Or.inl rfl⟩
  | frame id data now uuid => exact Or.inr ⟨rfl, .receive h⟩
  | fetchHistory id now docs =>
    obtain ⟨c, w, room, ready, -, -, -, -, rfl⟩ := fetchHistory_spec h
    exact Or.inr ⟨rfl, Or.inl (Store.onlyCached_getHistory ..).keys⟩
  | resume id =>
    obtain ⟨n₁, hq, rfl | ⟨w, history, r, -, -, htell, rfl⟩⟩ := resume_spec h
    · exact Or.inr ⟨rfl, Or.inl
        ((keys_closeConnection env n₁ id).trans (keys_of_steady hq.toSteady))⟩
    · exact Or.inr ⟨rfl, Or.inl ((keys_afterHandler env id r).trans
        ((keys_of_steady htell.steady).trans (keys_of_steady hq.toSteady)))⟩
  | disconnect id =>
    obtain ⟨c, -, -, rfl⟩ := step_disconnect h
    exact Or.inr ⟨rfl, Or.inl (keys_closeConnection env n id)⟩
  | post body query now uuid =>
    exact Or.inr ⟨rfl, Or.inl (Option.some.inj h ▸
      keys_submission (postMessage_spec env n body query now uuid))⟩
  | gossip data now =>
    obtain rfl := Option.some.inj h
    refine Or.inr ⟨rfl, Or.inl ?_⟩
    cases data with
    | none => rfl
    | some v =>
      refine receiveItems_preserves (I := fun n' ↦ n'.store.keys = n.store.keys)
        (fun item _ n' hn' ↦ ?_) n rfl
      exact (keys_submission (receiveItem_spec env n' item now)).trans hn'
  | feed room limit now =>
    obtain rfl := Option.some.inj h
    cases room with
    | none => exact Or.inr ⟨rfl, Or.inl rfl⟩
    | some r => exact Or.inr ⟨rfl, Or.inl rfl⟩
  | runJob i now nonce =>
    have hkeys := keys_runJob h
    rw [Event.keyCall]
    cases hcall : n.jobs[i]?.bind Job.keyCall with
    | none =>
      rw [hcall] at hkeys
      exact Or.inr ⟨rfl, Or.inl hkeys⟩
    | some c =>
      rw [hcall] at hkeys
      exact Or.inl ⟨c, rfl, hkeys⟩
  | warmCache now docs =>
    obtain rfl := Option.some.inj h
    exact Or.inr ⟨rfl, Or.inl (Store.onlyCached_warmCacheFromDb n.store docs).keys⟩
  | publicKey username => exact Or.inl ⟨_, rfl, Option.some.inj h ▸ rfl⟩
  | privateKey username => exact Or.inl ⟨_, rfl, Option.some.inj h ▸ rfl⟩
  | background b => exact Or.inr ⟨rfl, Or.inl (keys_of_steady (Quiet.background h).toSteady)⟩

/-! ## Runs

A size that was exceeded once is in the past of a run for good, so the equivalence for a step
gives one for runs. -/

/-- The call of the event is guarded, if it makes one. -/
def CallGuarded (env : Env) (n : Node) (a : Event) : Prop :=
  ∀ c ∈ a.keyCall n, n.store.keys.Guarded env.lib c

instance (env : Env) (n : Node) (a : Event) : Decidable (CallGuarded env n a) := by
  unfold CallGuarded
  infer_instance

variable {files : Finset Str}

theorem sized_step (hfiles : ∀ name, name ∈ files ↔ (env.keyring.keyFiles name).isSome) {a : Event}
    (hs : SenderKeys.Sized files n.store.keys.senderKeys) (h : n.step env a = some n') :
    SenderKeys.Sized files n'.store.keys.senderKeys := by
  rcases keys_step h with ⟨c, -, hkeys⟩ | ⟨-, hkeys | ⟨username, hkeys⟩⟩
  · rw [hkeys]
    exact KeyStore.sized_call hfiles hs c
  · rw [hkeys]
    exact hs
  · rw [hkeys]
    exact hs.getOrCreate hfiles username

/-- `_cached_sender_keys` is within its bound in every run. -/
theorem sized_of_reachable (hfiles : ∀ name, name ∈ files ↔ (env.keyring.keyFiles name).isSome)
    (h : (system env).Reachable n) : SenderKeys.Sized files n.store.keys.senderKeys := by
  refine h.invariant (I := fun n ↦ SenderKeys.Sized files n.store.keys.senderKeys) ?_ ?_
  · rintro s rfl
    rw [(Quiet.initial env).store]
    exact Nat.zero_le _
  · exact fun s a s' hs hstep ↦ sized_step hfiles hs hstep

/-- A step keeps the two other caches within their bounds exactly if its call is guarded. -/
theorem user_priv_step_iff {a : Event} (huser : n.store.keys.userKeysCache.keys.length ≤ 5001)
    (hpriv : n.store.keys.privKeysCache.keys.length ≤ 5001) (h : n.step env a = some n') :
    (n'.store.keys.userKeysCache.keys.length ≤ 5001 ∧
      n'.store.keys.privKeysCache.keys.length ≤ 5001) ↔ CallGuarded env n a := by
  rcases keys_step h with ⟨c, hcall, hkeys⟩ | ⟨hcall, hkeys⟩
  · rw [hkeys, KeyStore.user_priv_call_iff huser hpriv c, CallGuarded, hcall]
    simp
  · refine iff_of_true ?_ fun c hc ↦ absurd (hcall.symm.trans hc) (by simp)
    rcases hkeys with hkeys | ⟨username, hkeys⟩
    · rw [hkeys]
      exact ⟨huser, hpriv⟩
    · rw [hkeys]
      exact ⟨huser, hpriv⟩

/-- **The caches are bounded in a run exactly if all its calls are guarded.** -/
theorem keysBounded_iff (hfiles : ∀ name, name ∈ files ↔ (env.keyring.keyFiles name).isSome)
    {l : List Event} (h : (system env).Trace (initial env) l n) :
    (∀ l₁ t, l₁ <+: l → System.exec (step env) (initial env) l₁ = some t →
      t.store.keys.Bounded files) ↔
        ((system env).when (CallGuarded env)).Trace (initial env) l n := by
  have hinit : (initial env).store.keys = KeyStore.empty := by rw [(Quiet.initial env).store]; rfl
  refine Iff.trans ?_ (h.forall_prefix_iff (I := fun n ↦
    n.store.keys.userKeysCache.keys.length ≤ 5001 ∧
      n.store.keys.privKeysCache.keys.length ≤ 5001)
    (fun s a s' hs hstep ↦ user_priv_step_iff hs.1 hs.2 hstep) ?_)
  · constructor
    · intro hall l₁ t hl₁ ht
      exact ⟨(hall l₁ t hl₁ ht).userKeysCache, (hall l₁ t hl₁ ht).privKeysCache⟩
    · intro hall l₁ t hl₁ ht
      have hreach : (system env).Reachable t := System.reachable_of_exec rfl ht
      exact ⟨(hall l₁ t hl₁ ht).1, (hall l₁ t hl₁ ht).2,
        (sized_of_reachable hfiles hreach).length_le⟩
  · rw [hinit]
    exact ⟨Nat.zero_le _, Nat.zero_le _⟩

/-- A body with a name. -/
def bodyUnder (name : Str) : Obj :=
  [("id", .str (lit "m1")), ("client-name", .str name), ("msg", .str (lit "hi"))]

/-- A message is posted under a name and stored. -/
def postUnder (name : Str) : List Event :=
  [.post (.json (some (.dict (bodyUnder name)))) [] 0 [], .runJob 0 0 []]

theorem keysBounded_postUnder : ∃ n, (system plainEnv).Trace (initial plainEnv)
    (postUnder (lit "Alice")) n ∧ ∀ l₁ t, l₁ <+: postUnder (lit "Alice") →
      System.exec (step plainEnv) (initial plainEnv) l₁ = some t → t.store.keys.Bounded ∅ := by
  have hexec : (System.exec
      (fun n a ↦ if CallGuarded plainEnv n a then step plainEnv n a else none)
      (initial plainEnv) (postUnder (lit "Alice"))).isSome = true := by
    decide +kernel
  obtain ⟨n, hn⟩ := Option.isSome_iff_exists.mp hexec
  have hwhen : ((system plainEnv).when (CallGuarded plainEnv)).Trace (initial plainEnv)
      (postUnder (lit "Alice")) n := System.trace_when_of_exec hn
  have htrace := hwhen.imp fun _ _ _ hs ↦ hs.2
  have hfiles : ∀ name, name ∈ (∅ : Finset Str) ↔ (plainEnv.keyring.keyFiles name).isSome := by
    intro name
    exact iff_of_false (Finset.notMem_empty name) Bool.false_ne_true
  exact ⟨n, htrace, (keysBounded_iff hfiles htrace).mpr hwhen⟩

/-! ## Many names

Messages are posted under different names, and each of their jobs puts one key into two caches
that are not cleared. -/

/-- The names `aaa`, `aab` and so on. -/
def nthName (k : ℕ) : Str := [97 + k / 676 % 26, 97 + k / 26 % 26, 97 + k % 26]

theorem lower_nthName (k : ℕ) : asciiLib.lower (nthName k) = nthName k := by
  have hlower : ∀ x < 26, ¬(65 ≤ 97 + x ∧ 97 + x ≤ 90) := fun x _ h ↦ by omega
  simp only [asciiLib, nthName, List.map_cons, List.map_nil]
  rw [if_neg (hlower _ (Nat.mod_lt _ (by decide))), if_neg (hlower _ (Nat.mod_lt _ (by decide))),
    if_neg (hlower _ (Nat.mod_lt _ (by decide)))]

theorem nthName_injective {j k : ℕ} (hj : j < 17576) (hk : k < 17576)
    (h : nthName j = nthName k) : j = k := by
  simp only [nthName, List.cons.injEq, and_true] at h
  omega

theorem cleaned_nthName (k : ℕ) :
    cleaned plainEnv (.str (nthName k)) maxUsernameLen = nthName k := by
  have hspace : ∀ x < 26, isSpace (97 + x) = false := by decide
  have hstrip : (nthName k).strip = nthName k := by
    rw [Str.strip, nthName,
      List.dropWhile_cons_of_neg (by simp [hspace _ (Nat.mod_lt _ (by decide))])]
    exact List.rdropWhile_concat_neg isSpace [_, _] _
      (by simp [hspace _ (Nat.mod_lt _ (by decide))])
  rw [cleaned, Value.toStr_str, hstrip]
  rfl

/-! ## One post after the other

The invariant of the run: after `k` posts there are `k` names in each of the caches.  A post under
a new name is a step from `k` to `k + 1`. -/

/-- After `k` posts under different names there are `k` keys in both caches. -/
structure Crowded (k : ℕ) (n : Node) : Prop where
  jobs : n.jobs = []
  userKeysCache : n.store.keys.userKeysCache.keys = (List.range k).map nthName
  privKeysCache : n.store.keys.privKeysCache.keys = (List.range k).map nthName

/-- The message of the post. -/
def nthMessage (k : ℕ) : Obj :=
  messageObj (.str (lit "m1")) (nthName k) (lit "hi") (.str (lit "general")) 0

theorem textSubmission_nthName (k : ℕ) : textSubmission plainEnv (bodyUnder (nthName k)) [] 0 [] =
    { room := .str (lit "general"),
      cached := fullMessage (.str (lit "m1")) (.str (nthName k)) (.str (lit "hi"))
        (.str (lit "general")) (.int 0),
      told := nthMessage k, job := some (.append (.str (lit "general")) (nthMessage k) none) } := by
  have hname : clientName (bodyUnder (nthName k)) [] = .str (nthName k) := rfl
  rw [textSubmission, hname, cleaned_nthName]
  rfl

/-- The post hands one job to the executor. -/
theorem jobs_nthName (n : Node) (k : ℕ) :
    (n.postMessage plainEnv (.json (some (.dict (bodyUnder (nthName k))))) [] 0 []).1.jobs =
      n.jobs ++ [.append (.str (lit "general")) (nthMessage k) none] := by
  have htold : ∀ s : Submission, s.room = .str (lit "general") → s.told = nthMessage k →
      (n.tryBroadcast s.room (.message s.told)).2 = none := by
    intro s hroom htold
    rcases tryBroadcast_cases n s.room (.message s.told) with ⟨h, -⟩ | ⟨-, h | ⟨r, -, -, h⟩⟩
    · rw [h]
    · exact absurd (hroom ▸ h) (by simp)
    · exact absurd (htold ▸ h) (by simp [Frame.serialisable, nthMessage, messageObj,
        Value.serialisable, Value.serialisable.serialisableFields])
  rw [(leaves_postMessage plainEnv n _ [] 0 []).jobs, completedPost,
    postSubmission_of_text rfl rfl, textSubmission_nthName, Option.filter_some, if_pos]
  · rfl
  · rw [Bool.and_eq_true, htold _ rfl rfl]
    exact ⟨rfl, rfl⟩

/-- One more name. -/
theorem Crowded.succ {k : ℕ} (h : Crowded k n) (hk : k < 17576) :
    ∃ n', System.exec (step plainEnv) n (postUnder (nthName k)) = some n' ∧
      Crowded (k + 1) n' := by
  set n₁ := (n.postMessage plainEnv (.json (some (.dict (bodyUnder (nthName k))))) [] 0 []).1
    with hn₁
  have hpost : n.step plainEnv (.post (.json (some (.dict (bodyUnder (nthName k))))) [] 0 []) =
      some n₁ := rfl
  have hjobs : n₁.jobs = [.append (.str (lit "general")) (nthMessage k) none] := by
    rw [hn₁, jobs_nthName, h.jobs, List.nil_append]
  have hkeys₁ : n₁.store.keys = n.store.keys :=
    keys_submission (postMessage_spec plainEnv n _ [] 0 [])
  obtain ⟨n₂, hn₂⟩ : ∃ n₂, n₁.runJob plainEnv 0 0 [] = some n₂ :=
    Option.isSome_iff_exists.mp (by rw [runJob, hjobs]; rfl)
  have hcall : n₁.jobs[0]?.bind Job.keyCall = some (.sign (nthName k)) := by rw [hjobs]; rfl
  have hkeys₂ := keys_runJob hn₂
  rw [hcall, hkeys₁, Option.map_some, Option.getD_some] at hkeys₂
  have hnew : nthName k ∉ (List.range k).map nthName := by
    intro hmem
    obtain ⟨j, hj, heq⟩ := List.mem_map.mp hmem
    have hjk := List.mem_range.mp hj
    exact absurd (nthName_injective (hjk.trans hk) hk heq) hjk.ne
  have hlower : plainEnv.lib.lower (nthName k) = nthName k := lower_nthName k
  refine ⟨n₂, ?_, ?_⟩
  · show (n.step plainEnv _).bind _ = _
    rw [show n.step plainEnv _ = some n₁ from hpost, Option.bind_some, System.exec, Node.step, hn₂]
    rfl
  · obtain ⟨job, -, hjobs₂, -⟩ := runJob_spec hn₂
    obtain ⟨huser, hpriv⟩ := KeyStore.keys_call_sign plainEnv.keyring
      (show plainEnv.lib.lower (nthName k) ∉ n.store.keys.userKeysCache.keys by
        rw [hlower, h.userKeysCache]
        exact hnew)
      (show plainEnv.lib.lower (nthName k) ∉ n.store.keys.privKeysCache.keys by
        rw [hlower, h.privKeysCache]
        exact hnew)
    rw [← hkeys₂] at huser hpriv
    refine ⟨by rw [hjobs₂, hjobs]; rfl, ?_, ?_⟩
    · rw [huser, hlower, h.userKeysCache, List.range_succ, List.map_append]
      rfl
    · rw [hpriv, hlower, h.privKeysCache, List.range_succ, List.map_append]
      rfl

/-- **Posts under 5002 names leave 5002 keys in each of two caches.** -/
theorem not_keysBounded_posts : ∃ n, (system plainEnv).Reachable n ∧
    n.store.keys.userKeysCache.keys.length = 5002 ∧
      n.store.keys.privKeysCache.keys.length = 5002 ∧ ¬n.store.keys.Bounded ∅ := by
  have hrun : ∀ k, k ≤ 5002 → ∃ n, (system plainEnv).Reachable n ∧ Crowded k n := by
    intro k
    induction k with
    | zero =>
      intro _
      refine ⟨initial plainEnv, .of_init rfl, ⟨(Quiet.initial plainEnv).jobs, ?_, ?_⟩⟩ <;>
        rw [(Quiet.initial plainEnv).store] <;> rfl
    | succ k ih =>
      intro hk
      obtain ⟨n, hn, hcrowded⟩ := ih (by omega)
      obtain ⟨n', hexec, hcrowded'⟩ := hcrowded.succ (by omega)
      exact ⟨n', hn.run (System.trace_of_exec hexec).run, hcrowded'⟩
  obtain ⟨n, hn, hcrowded⟩ := hrun 5002 le_rfl
  have huser : n.store.keys.userKeysCache.keys.length = 5002 := by
    rw [hcrowded.userKeysCache, List.length_map, List.length_range]
  have hpriv : n.store.keys.privKeysCache.keys.length = 5002 := by
    rw [hcrowded.privKeysCache, List.length_map, List.length_range]
  exact ⟨n, hn, huser, hpriv, fun hb ↦ absurd hb.userKeysCache (by omega)⟩

end Node

end GroupChat
