import GroupChat.Server.Effects

/-!
# Do persisted messages verify?

A document is signed when it is made, with a key that belongs to the name of its sender, and it can
be verified with the public key that any node finds for that name.  All nodes derive the same key
from the same name.  But the two caches of `server/store.py` go by the lower-cased name, while a key
is derived from the name as it is written, so names that differ only in their case share an entry
in the caches and have different keys.

* `Consistent 𝒩`: names of `𝒩` with the same lower-cased form have the same key.
* `verifies_of_consistent`: if all names that the nodes of a cluster come across (`Event.names`) are
  from a consistent set, every document verifies on every node.
* `not_verifies_aliceRun`: somebody posts as `Alice`, somebody else joins as `alice`, and what the
  latter says does not verify.

The invariant says of every place that holds a key which name it belongs to: the caches
(`KeyStore.Ok`), the clients that have joined and the jobs in the executor (`Job.Ok`), and the
documents (`Doc.Ok`).  All but the last of these hold for any names (`KeysHeld`).
-/

set_option autoImplicit false

namespace GroupChat

open Transition

/-! ## Names and keys

The key of a name is that of its sanitised form, and the caches go by its lower-cased form.
`Consistent` is about sets of names in which this makes no difference. -/

/-- Does a document verify under the key that a node finds for its sender? -/
def Doc.verifies (L : PyLib) (K : Keyring) (keys : KeyStore) (d : Doc) : Bool :=
  match toBytes d.signature, toBytes d.nonce, toBytes d.ciphertext with
  | .ok signature, .ok nonce, .ok ciphertext =>
    match makeSignablePayload L d.id d.roomId d.sender d.timestamp nonce ciphertext with
    | .ok payload =>
      K.crypto.verify (keys.getUserPublicKey L K d.sender).1 signature payload
    | .error _ => false
  | _, _, _ => false

/-- Names that are the same when lower-cased have the same key. -/
def Consistent (L : PyLib) (𝒩 : Set Str) : Prop :=
  ∀ a ∈ 𝒩, ∀ b ∈ 𝒩, L.lower a = L.lower b → sanitized L a = sanitized L b

section Keys

variable (L : PyLib) (K : Keyring) (𝒩 : Set Str)

/-- The private key that belongs to a name. -/
def keyFor (name : Str) : PrivateKey := K.keyOf (sanitized L name)

/-- Every entry is the key of a name in `𝒩`. -/
structure KeyStore.Ok (ks : KeyStore) : Prop where
  senderKeys : ks.senderKeys.Sound K
  userKeysCache : ∀ l key, ks.userKeysCache.get? l = some key →
    ∃ a ∈ 𝒩, L.lower a = l ∧ key = K.crypto.publicKey (keyFor L K a)
  privKeysCache : ∀ l key, ks.privKeysCache.get? l = some key →
    ∃ a ∈ 𝒩, L.lower a = l ∧ key = keyFor L K a

variable {L K 𝒩} {ks : KeyStore}

/-- What is found after a `set` is the new value, or was found before. -/
theorem get?_set_cases {ν : Type*} {d : Dict Str ν} {k l : Str} {v w : ν}
    (h : (d.set k v).get? l = some w) : (l = k ∧ v = w) ∨ d.get? l = some w := by
  rw [Dict.get?_set] at h
  split at h
  · rename_i heq
    exact Or.inl ⟨heq, Option.some.inj h⟩
  · exact Or.inr h

/-- What is found after a cache has been cleared was found before. -/
theorem get?_of_clearAbove {ν : Type*} {d : Dict Str ν} {l : Str} {v : ν}
    (h : (clearAbove d).get? l = some v) : d.get? l = some v := by
  rw [clearAbove] at h
  split at h
  · simp at h
  · exact h

/-- Empty caches hold no wrong keys. -/
theorem KeyStore.ok_empty : KeyStore.empty.Ok L K 𝒩 :=
  ⟨SenderKeys.sound_empty, fun _ _ h ↦ absurd h (by simp [KeyStore.empty]),
    fun _ _ h ↦ absurd h (by simp [KeyStore.empty])⟩

/-! ## The functions on the caches

Each function returns the key of a name in the set, and leaves only such keys behind. -/

/-- A derived pair is what belongs to the name. -/
theorem KeyStore.Ok.derive (h : ks.Ok L K 𝒩) (a : Str) :
    (getOrCreateSenderKeys L K ks.senderKeys a).1 =
        (keyFor L K a, K.crypto.publicKey (keyFor L K a)) ∧
      SenderKeys.Sound K (getOrCreateSenderKeys L K ks.senderKeys a).2 :=
  ⟨getOrCreateSenderKeys_fst h.senderKeys a, getOrCreateSenderKeys_sound h.senderKeys a⟩

/-- The public key that is cached under the lower-cased name is the one that belongs to the name,
by consistency. -/
theorem KeyStore.Ok.userKey (h : ks.Ok L K 𝒩) (hN : Consistent L 𝒩) {a : Str} (ha : a ∈ 𝒩)
    {key : PublicKey} (hkey : ks.userKeysCache.get? (L.lower a) = some key) :
    key = K.crypto.publicKey (keyFor L K a) := by
  obtain ⟨b, hb, hlower, rfl⟩ := h.userKeysCache _ _ hkey
  rw [keyFor, keyFor, hN b hb a ha hlower]

/-- An entry that was there, or the one of a name in `𝒩`. -/
theorem KeyStore.Ok.userKeys_set (h : ks.Ok L K 𝒩) {a : Str} (ha : a ∈ 𝒩)
    {d : Dict Str PublicKey} (hd : ∀ l v, d.get? l = some v → ks.userKeysCache.get? l = some v) :
    ∀ l key, (d.set (L.lower a) (K.crypto.publicKey (keyFor L K a))).get? l = some key →
      ∃ a ∈ 𝒩, L.lower a = l ∧ key = K.crypto.publicKey (keyFor L K a) := by
  intro l key hget
  rcases get?_set_cases hget with ⟨rfl, rfl⟩ | hget
  · exact ⟨a, ha, rfl, rfl⟩
  · exact h.userKeysCache l key (hd l key hget)

/-- The key of a name of the set is entered. -/
theorem KeyStore.Ok.privKeys_set (h : ks.Ok L K 𝒩) {a : Str} (ha : a ∈ 𝒩)
    {d : Dict Str PrivateKey} (hd : ∀ l v, d.get? l = some v → ks.privKeysCache.get? l = some v) :
    ∀ l key, (d.set (L.lower a) (keyFor L K a)).get? l = some key →
      ∃ a ∈ 𝒩, L.lower a = l ∧ key = keyFor L K a := by
  intro l key hget
  rcases get?_set_cases hget with ⟨rfl, rfl⟩ | hget
  · exact ⟨a, ha, rfl, rfl⟩
  · exact h.privKeysCache l key (hd l key hget)

/-- The public key of a name of the set is entered. -/
theorem KeyStore.Ok.saveUserPublicKey (h : ks.Ok L K 𝒩) {a : Str} (ha : a ∈ 𝒩) :
    (ks.saveUserPublicKey L a (K.crypto.publicKey (keyFor L K a))).Ok L K 𝒩 := by
  rw [KeyStore.saveUserPublicKey]
  split
  · exact h
  · exact ⟨h.senderKeys, h.userKeys_set ha fun _ _ hget ↦ hget, h.privKeysCache⟩

/-- Looking up a public key leaves the caches in order, whether it was found there or derived. -/
theorem KeyStore.Ok.afterLookUp (h : ks.Ok L K 𝒩) {a : Str} (ha : a ∈ 𝒩) :
    (ks.getUserPublicKey L K a).2.Ok L K 𝒩 := by
  obtain ⟨hpair, hsound⟩ := h.derive a
  rw [KeyStore.getUserPublicKey]
  split
  · exact h
  · simp only [hpair]
    exact ⟨hsound, h.userKeys_set ha fun _ _ hget ↦ get?_of_clearAbove hget, h.privKeysCache⟩

/-- **The public key that is found for a name is the one that belongs to it.** -/
theorem KeyStore.Ok.getUserPublicKey (h : ks.Ok L K 𝒩) (hN : Consistent L 𝒩) {a : Str}
    (ha : a ∈ 𝒩) :
    (ks.getUserPublicKey L K a).1 = K.crypto.publicKey (keyFor L K a) ∧
      (ks.getUserPublicKey L K a).2.Ok L K 𝒩 := by
  refine ⟨?_, h.afterLookUp ha⟩
  rw [KeyStore.getUserPublicKey]
  split
  · rename_i key hkey
    exact h.userKey hN ha hkey
  · simp only [(h.derive a).1]

/-- So does looking up a private key. -/
theorem KeyStore.Ok.getUserPrivateKey (h : ks.Ok L K 𝒩) {a : Str} (ha : a ∈ 𝒩) :
    (ks.getUserPrivateKey L K a).2.Ok L K 𝒩 := by
  obtain ⟨hpair, hsound⟩ := h.derive a
  rw [KeyStore.getUserPrivateKey]
  split
  · exact h
  · simp only [hpair]
    exact ⟨hsound, h.userKeys_set ha fun _ _ hget ↦ hget,
      h.privKeys_set ha fun _ _ hget ↦ get?_of_clearAbove hget⟩

/-- So does finding the key for a document. -/
theorem KeyStore.Ok.afterSigning (h : ks.Ok L K 𝒩) {a : Str} (ha : a ∈ 𝒩)
    (given : Option PrivateKey) : (ks.signingKey L K a given).2.Ok L K 𝒩 := by
  obtain ⟨hpair, hsound⟩ := h.derive a
  cases given with
  | some key => exact h
  | none =>
    rw [KeyStore.signingKey]
    split
    · exact h
    · simp only [hpair]
      exact ⟨hsound, h.userKeys_set ha fun _ _ hget ↦ hget, h.privKeys_set ha fun _ _ hget ↦ hget⟩

/-- A document is signed with the key of its sender, or of a name that is the same when
lower-cased. -/
theorem KeyStore.Ok.signingKey_spelling (h : ks.Ok L K 𝒩) {a : Str} (ha : a ∈ 𝒩)
    {given : Option PrivateKey} (hgiven : ∀ key, given = some key → key = keyFor L K a) :
    ∃ b ∈ 𝒩, L.lower b = L.lower a ∧ (ks.signingKey L K a given).1 = keyFor L K b := by
  cases given with
  | some key => exact ⟨a, ha, rfl, hgiven key rfl⟩
  | none =>
    rw [KeyStore.signingKey]
    split
    · rename_i key hkey
      exact h.privKeysCache _ _ hkey
    · refine ⟨a, ha, rfl, ?_⟩
      simp only [(h.derive a).1]

/-- **The key that a document is signed with is the one that belongs to its sender.** -/
theorem KeyStore.Ok.signingKey (h : ks.Ok L K 𝒩) (hN : Consistent L 𝒩) {a : Str} (ha : a ∈ 𝒩)
    {given : Option PrivateKey} (hgiven : ∀ key, given = some key → key = keyFor L K a) :
    (ks.signingKey L K a given).1 = keyFor L K a ∧ (ks.signingKey L K a given).2.Ok L K 𝒩 := by
  obtain ⟨b, hb, hlower, hkey⟩ := h.signingKey_spelling ha hgiven
  rw [hkey, keyFor, keyFor, hN b hb a ha hlower]
  exact ⟨rfl, h.afterSigning ha given⟩

/-! ## Documents and jobs

A document is made with the key that its job has looked up, and the job is run some time after the
message has come in.  In between the caches may have been emptied and filled again; they still
hold the keys of names from the set. -/

/-- A document is signed with the key of its sender, whose name is in `𝒩`. -/
def Doc.Ok (L : PyLib) (K : Keyring) (𝒩 : Set Str) (d : Doc) : Prop :=
  d.sender ∈ 𝒩 ∧ ∃ nonce ciphertext payload, d.nonce = hex nonce ∧ d.ciphertext = hex ciphertext ∧
    makeSignablePayload L d.id d.roomId d.sender d.timestamp nonce ciphertext = .ok payload ∧
    d.signature = hex (K.crypto.sign (keyFor L K d.sender) payload)

/-- The document that a job makes with the key of its sender. -/
theorem Doc.Ok.of_makeDoc {sender text : Str} {nonce : Bytes} {id roomId timestamp : Value}
    {d : Doc} (h : makeDoc L K (keyFor L K sender) nonce id roomId sender text timestamp = .ok d)
    (hsender : sender ∈ 𝒩) : d.Ok L K 𝒩 := by
  rw [makeDoc] at h
  split at h
  · simp at h
  · rename_i plaintext hplain
    simp only at h
    split at h
    · simp at h
    · rename_i payload hpayload
      obtain rfl := Except.ok.inj h
      exact ⟨hsender, nonce, _, payload, rfl, rfl, hpayload, rfl⟩

/-- Such a document verifies on every node whose caches are in order. -/
theorem Doc.Ok.verifies {d : Doc} (hd : d.Ok L K 𝒩) (h : ks.Ok L K 𝒩) (hN : Consistent L 𝒩) :
    d.verifies L K ks = true := by
  obtain ⟨hsender, nonce, ciphertext, payload, hnonce, hcipher, hpayload, hsignature⟩ := hd
  rw [Doc.verifies, hnonce, hcipher, hsignature, toBytes_hex, toBytes_hex, toBytes_hex]
  simp only [hpayload]
  rw [(h.getUserPublicKey hN hsender).1]
  exact K.crypto.verify_sign _ _

/-- The name that a job looks for a key under. -/
def Job.sender? : Job → Option Str
  | .append _ msg _ => (messageSender msg).str?
  | .saveUserPublicKey username _ => some username

/-- A job has the name of its key in `𝒩`, and the key it brings along is the right one. -/
def Job.Ok (L : PyLib) (K : Keyring) (𝒩 : Set Str) : Job → Prop
  | .append _ msg given => ∀ a, messageSender msg = .str a →
      a ∈ 𝒩 ∧ ∀ key, given = some key → key = keyFor L K a
  | .saveUserPublicKey a key => a ∈ 𝒩 ∧ key = K.crypto.publicKey (keyFor L K a)

end Keys

namespace Node

/-! ## What is held for later

Clients keep the keys of their names, and jobs may bring one along. -/

theorem messageSender_directMessage (uuid sender target text : Str) (now : ℤ) :
    messageSender (directMessage uuid sender target text now) = .str (orAnonymous sender) := by
  cases sender <;> rfl

/-- The names that an event makes the node look for keys under, now or later. -/
def Event.names (env : Env) (n : Node) (a : Event) : List Str :=
  (a.submissions env n).filterMap (fun s ↦ s.job.bind Job.sender?) ++
    match a with
    | .frame id (.dict fields) _ _ =>
      match n.clientsById.get? id, (Obj.get fields "type").str? with
      | some c, some type =>
        if type = lit "join" then
          if c.explicitlyJoined then []
          else (uniqueUsername env.lib n.usernameToId.keys (requestedName env c fields)).toList
        else if type = lit "private_message" then (c.username.map orAnonymous).toList
        else []
      | _, _ => []
    | .publicKey username => [username]
    | .privateKey username => [username]
    | _ => []

/-- All keys that the node holds for later belong to the names they are held for. -/
structure KeysHeld (env : Env) (𝒩 : Set Str) (n : Node) : Prop where
  keys : n.store.keys.Ok env.lib env.keyring 𝒩
  clients : ∀ id i key, n.identities id = some i → i.privateKey = some key →
    ∃ u, u ≠ [] ∧ i.username = some u ∧ key = keyFor env.lib env.keyring u
  jobs : ∀ j ∈ n.jobs, j.Ok env.lib env.keyring 𝒩

variable {env : Env} {𝒩 : Set Str} {n n' : Node}

/-- A steady change holds no new keys. -/
theorem KeysHeld.of_steady (h : KeysHeld env 𝒩 n) (hs : Steady n n') : KeysHeld env 𝒩 n' := by
  obtain ⟨⟨hids, -⟩, hstore, hjobs⟩ := hs
  constructor
  · rw [hstore]
    exact h.keys
  · rw [hids]
    exact h.clients
  · rw [hjobs]
    exact h.jobs

/-- A change of the feed cache concerns no keys. -/
theorem KeysHeld.withStore (h : KeysHeld env 𝒩 n) {store : Store} (hs : OnlyCached n.store store) :
    KeysHeld env 𝒩 { n with store := store } := by
  refine ⟨?_, h.clients, h.jobs⟩
  show store.keys.Ok env.lib env.keyring 𝒩
  rw [hs.keys]
  exact h.keys

theorem KeysHeld.withKeys (h : KeysHeld env 𝒩 n) {keys : KeyStore}
    (hk : keys.Ok env.lib env.keyring 𝒩) :
    KeysHeld env 𝒩 { n with store := { n.store with keys := keys } } :=
  ⟨hk, h.clients, h.jobs⟩

/-- A job is handed to the executor. -/
theorem KeysHeld.spawn (h : KeysHeld env 𝒩 n) {j : Job} (hj : j.Ok env.lib env.keyring 𝒩) :
    KeysHeld env 𝒩 (n.spawn j) := by
  refine ⟨h.keys, h.clients, fun j' hj' ↦ ?_⟩
  rcases List.mem_append.mp hj' with hj' | hj'
  · exact h.jobs j' hj'
  · rw [List.mem_singleton.mp hj']
    exact hj

/-- A submission hands over its job, and holds no key besides. -/
theorem KeysHeld.submits (h : KeysHeld env 𝒩 n) {now : ℤ} {s : Submission}
    (hsub : Submits env n now s n') (hs : ∀ j, s.job = some j → j.Ok env.lib env.keyring 𝒩) :
    KeysHeld env 𝒩 n' := by
  rcases hsub with rfl | ⟨store, n₁, n₂, hstore, h₁, h₂, h₃⟩
  · exact h
  · have hput := h.withStore (Store.onlyCached_cachePut hstore)
    have hn₁ : KeysHeld env 𝒩 n₁ := by
      rcases h₁ with rfl | ⟨r, -, rfl⟩
      · exact hput
      · exact hput.of_steady ⟨⟨rfl, rfl⟩, rfl, rfl⟩
    have hn₂ := hn₁.of_steady h₂.toSteady
    rcases h₃ with rfl | ⟨j, hj, h₃⟩
    · exact hn₂
    · exact (hn₂.spawn (hs j hj)).of_steady h₃.toSteady

theorem KeysHeld.submission (h : KeysHeld env 𝒩 n) {now : ℤ} {o : Option Submission}
    (hsub : n' = n ∨ ∃ s, o = some s ∧ Submits env n now s n')
    (hs : ∀ s j, o = some s → s.job = some j → j.Ok env.lib env.keyring 𝒩) : KeysHeld env 𝒩 n' := by
  rcases hsub with rfl | ⟨s, ho, hsub⟩
  · exact h
  · exact h.submits hsub fun j ↦ hs s j ho

/-- What a client with a key sends is signed with its key. -/
theorem KeysHeld.jobOk (h : KeysHeld env 𝒩 n) {id : Str} {c : Client}
    (hc : n.clientsById.get? id = some c) {username : Str} (hu : c.username = some username)
    {room : Value} {msg : Obj} (hmsg : messageSender msg = .str (orAnonymous username))
    (hN : orAnonymous username ∈ 𝒩) :
    (Job.append room msg c.privateKey).Ok env.lib env.keyring 𝒩 := by
  intro a ha
  obtain rfl : orAnonymous username = a := Value.str.inj (hmsg.symm.trans ha)
  refine ⟨hN, fun key hkey ↦ ?_⟩
  obtain ⟨u, hne, hu', hkey'⟩ := h.clients id _ key (identities_of_get? hc) hkey
  obtain rfl : username = u := Option.some.inj (hu.symm.trans hu')
  cases username with
  | nil => exact absurd rfl hne
  | cons x u => exact hkey'

/-- The job of a message frame has the name of the client, and brings its key along. -/
theorem frameSubmission_job {c : Client} {data : Obj} {now : ℤ} {uuid : Str} {s : Submission}
    (h : frameSubmission env c data now uuid = some s) :
    ∃ username room msg, c.username = some username ∧ s.job = some (.append room msg c.privateKey) ∧
      messageSender msg = .str (orAnonymous username) := by
  rw [frameSubmission] at h
  split at h
  · rename_i username x text timestamp husername htext htimestamp
    obtain rfl := Option.some.inj h
    exact ⟨username, _, _, husername, rfl, messageSender_roomMessage ..⟩
  · simp at h

/-- The job of a request brings no key along. -/
theorem postSubmission_job {body : Body} {query : Obj} {now : ℤ} {uuid : Str} {s : Submission}
    (h : postSubmission env body query now uuid = some s) :
    ∃ room msg, s.job = some (.append room msg none) := by
  rw [postSubmission] at h
  split at h
  · split at h
    · obtain rfl := Option.some.inj h
      exact ⟨_, _, rfl⟩
    · simp at h
  · simp at h

/-! ## Connections and joins

A client that joins is given a key, and one that goes takes it away. -/

/-- A client that goes takes its key with it. -/
theorem KeysHeld.closeConnection (h : KeysHeld env 𝒩 n) (id : Str) :
    KeysHeld env 𝒩 (n.closeConnection env id) := by
  rcases closeConnection_spec env n id with ⟨-, heq⟩ | ⟨c, n₁, -, hq, hq'⟩
  · rw [heq]
    exact h
  · have h₁ := h.of_steady hq.toSteady
    have hforget : KeysHeld env 𝒩 (n₁.forget env c) := by
      refine ⟨h₁.keys, fun id' i key hi ↦ ?_, h₁.jobs⟩
      rw [identities_forget, Function.update_apply] at hi
      split at hi
      · exact absurd hi (by simp)
      · exact h₁.clients id' i key hi
    exact hforget.of_steady hq'.toSteady

theorem KeysHeld.afterHandler {r : Node × Option PyError} (h : KeysHeld env 𝒩 r.1) (id : Str) :
    KeysHeld env 𝒩 (Node.afterHandler env id r) := by
  obtain ⟨n, e⟩ := r
  cases e with
  | none => exact h
  | some e => exact h.closeConnection id

/-- A name that is made unique is not empty. -/
theorem usernameCandidate_ne_nil {requested : Str} (h : requested ≠ []) :
    ∀ k, usernameCandidate requested k ≠ []
  | 0 => h
  | k + 1 => by
    rw [usernameCandidate]
    exact List.append_ne_nil_of_left_ne_nil (List.append_ne_nil_of_left_ne_nil
      (List.append_ne_nil_of_left_ne_nil h _) _) _

/-- The name that a client asks for is not empty, as there is a guest name for it otherwise. -/
theorem requestedName_ne_nil (c : Client) (data : Obj) : requestedName env c data ≠ [] := by
  rw [requestedName]
  split
  · exact List.append_ne_nil_of_left_ne_nil (by decide) _
  · simp

/-- A client joins, and gets the key of its name. -/
theorem KeysHeld.enroll (h : KeysHeld env 𝒩 n) (c : Client) {username : Str} (hne : username ≠ [])
    (hN : username ∈ 𝒩) (room : Str) : KeysHeld env 𝒩 (n.enroll env c username room) := by
  obtain ⟨hpair, hsound⟩ := h.keys.derive username
  have hjob : (Job.saveUserPublicKey username
      (getOrCreateSenderKeys env.lib env.keyring n.store.keys.senderKeys username).1.2).Ok
        env.lib env.keyring 𝒩 := by
    rw [hpair]
    exact ⟨hN, rfl⟩
  refine ⟨⟨hsound, h.keys.userKeysCache, h.keys.privKeysCache⟩, fun id i key hi hkey ↦ ?_,
    (h.spawn hjob).jobs⟩
  rw [identities] at hi
  simp only [Node.enroll, Node.spawn] at hi
  rw [get?_updateClient, Option.map_map] at hi
  obtain ⟨c', hc', rfl⟩ := Option.map_eq_some_iff.mp hi
  simp only [Function.comp_apply] at hkey ⊢
  split at hkey
  · rename_i heq
    refine ⟨username, hne, by rw [if_pos heq]; rfl, ?_⟩
    rw [← Option.some.inj hkey, hpair]
  · rename_i hne'
    rw [if_neg hne']
    exact h.clients id _ key (identities_of_get? hc') hkey

/-! ## Steps

All places that hold a key are gone through: the caches, the clients that have joined, the jobs.
This part needs no assumption about the names, as it says of each key only that it belongs to one
of the names that have come up. -/

/-- All frames, by their handlers. -/
theorem KeysHeld.dispatched (h : KeysHeld env 𝒩 n) {id : Str} {c : Client} {data : Obj} {now : ℤ}
    {uuid : Str} {r : Node × Option PyError} (hr : Dispatched env n c data now uuid r)
    (hc : n.clientsById.get? id = some c)
    (hN : ∀ a ∈ Event.names env n (.frame id (.dict data) now uuid), a ∈ 𝒩) :
    KeysHeld env 𝒩 r.1 := by
  cases hr with
  | join type hjoin =>
    rcases handleJoin_spec hjoin with ⟨-, hn⟩ | ⟨username, n₁, n₂, hj, hunique, hq, hq', hasks⟩
    · rw [hn]
      exact h
    · have hname : username ∈ 𝒩 := by
        refine hN username (List.mem_append.mpr (Or.inr ?_))
        simp only [hc, Value.str?_eq_some_iff.mpr type, hj]
        simpa using hunique
      have hne : username ≠ [] := by
        obtain ⟨k, -, hk⟩ := List.mem_map.mp (List.mem_of_find?_eq_some hunique)
        exact hk ▸ usernameCandidate_ne_nil (requestedName_ne_nil c data) k
      exact (((h.of_steady hq.toSteady).enroll c hne hname _).of_steady hq'.toSteady).of_steady
        hasks.steady
  | message type =>
    refine h.submission (handleMessage_spec env n c data now uuid) fun s j hs hj ↦ ?_
    obtain ⟨username, room, msg, hu, hjob, hmsg⟩ := frameSubmission_job hs
    obtain rfl := Option.some.inj (hjob.symm.trans hj)
    refine h.jobOk hc hu hmsg (hN _ (List.mem_append.mpr (Or.inl ?_)))
    refine List.mem_filterMap.mpr ⟨s, ?_, ?_⟩
    · rw [Event.submissions, if_pos (Value.str?_eq_some_iff.mpr type), hc]
      exact Option.mem_toList.mpr hs
    · rw [hjob, Option.bind_some, Job.sender?, hmsg]
      rfl
  | privateMessage type =>
    rcases handlePrivateMessage_spec env n c data now uuid with hq | ⟨username, target, hu, -, hn⟩
    · exact h.of_steady hq.toSteady
    · rw [hn]
      have hname : orAnonymous username ∈ 𝒩 := by
        refine hN _ (List.mem_append.mpr (Or.inr ?_))
        simp only [hc, Value.str?_eq_some_iff.mpr type, hu]
        simp [lit]
      have hsent : ∀ f, KeysHeld env 𝒩 ((n.send target f).send c.id f) := fun f ↦
        h.of_steady ⟨⟨rfl, rfl⟩, rfl, rfl⟩
      exact (hsent _).spawn (h.jobOk hc hu (messageSender_directMessage ..) hname)
  | switchRoom type =>
    rcases handleSwitchRoom_spec env n c (data.get "room") with hq | ⟨room, n₁, -, hq, hasks⟩
    · exact h.of_steady hq.toSteady
    · exact (h.of_steady hq.toSteady).of_steady hasks.steady
  | createRoom type =>
    rcases handleCreateRoom_spec env n c data with hq | ⟨room, n₁, -, hq, hasks⟩
    · exact h.of_steady hq.toSteady
    · exact (h.of_steady hq.toSteady).of_steady hasks.steady
  | quiet hq => exact h.of_steady hq.toSteady

/-- Noting the activity of a client does not change the names that its frame comes with. -/
theorem names_noteActivity {id : Str} {c : Client} (hc : n.clientsById.get? id = some c)
    (fields : Obj) (now : ℤ) (uuid : Str) :
    Event.names env (n.noteActivity id c now) (.frame id (.dict fields) now uuid) =
      Event.names env n (.frame id (.dict fields) now uuid) := by
  simp only [Event.names, Event.submissions, get?_noteActivity hc, hc,
    (Quiet.noteActivity n id c now).usernameToId]
  cases (Obj.get fields "type").str? <;> rfl

/-- A job is run. -/
theorem KeysHeld.runJob (h : KeysHeld env 𝒩 n) {i : ℕ} {now : ℤ} {nonce : Bytes}
    (hstep : n.runJob env i now nonce = some n') : KeysHeld env 𝒩 n' := by
  obtain ⟨job, hjob, rfl⟩ := Option.map_eq_some_iff.mp hstep
  have hok := h.jobs job (List.mem_of_getElem? hjob)
  have hjobs : ∀ j ∈ n.jobs.eraseIdx i, j.Ok env.lib env.keyring 𝒩 := fun j hj ↦
    h.jobs j (List.mem_of_mem_eraseIdx hj)
  cases job with
  | saveUserPublicKey username key =>
    obtain ⟨hname, rfl⟩ := hok
    exact ⟨h.keys.saveUserPublicKey hname, h.clients, hjobs⟩
  | append roomId msg given =>
    simp only
    rcases (Store.appendMessage_spec env.keyring n.store nonce roomId msg given).2 with
      hsame | ⟨sender, text, hsender, -, hkeys, -⟩
    · rw [hsame]
      exact ⟨h.keys, h.clients, hjobs⟩
    · exact ⟨hkeys ▸ h.keys.afterSigning (hok sender hsender).1 given, h.clients, hjobs⟩

/-- **The step lemma for what is held for later.** -/
theorem KeysHeld.step {a : Event} (h : KeysHeld env 𝒩 n)
    (hstep : n.step env a = some n') (hnames : ∀ u ∈ a.names env n, u ∈ 𝒩) : KeysHeld env 𝒩 n' := by
  cases a with
  | connect id queryParams now =>
    obtain ⟨-, rfl⟩ := step_connect hstep
    refine ⟨h.keys, fun id' i key hi hkey ↦ ?_, h.jobs⟩
    rw [identities_handleConnection, Function.update_apply] at hi
    split at hi
    · rw [← Option.some.inj hi] at hkey
      exact absurd hkey (by simp)
    · exact h.clients id' i key hi hkey
  | frame id data now uuid =>
    obtain ⟨c, hc, -, hframe⟩ := receive_spec hstep
    have h₁ := h.of_steady (Quiet.noteActivity n id c now).toSteady
    rcases hframe with ⟨fields, r, rfl, hr, rfl⟩ | ⟨-, rfl⟩
    · rw [← names_noteActivity hc] at hnames
      exact (h₁.dispatched hr (get?_noteActivity hc now) hnames).afterHandler id
    · exact h₁.closeConnection id
  | fetchHistory id now docs =>
    obtain ⟨c, w, room, ready, -, -, -, -, rfl⟩ := fetchHistory_spec hstep
    exact (h.withStore (Store.onlyCached_getHistory ..)).of_steady
      ⟨.updateClient _ id fun _ ↦ rfl, rfl, rfl⟩
  | resume id =>
    obtain ⟨n₁, hq, rfl | ⟨w, history, r, -, -, htell, rfl⟩⟩ := resume_spec hstep
    · exact (h.of_steady hq.toSteady).closeConnection id
    · exact ((h.of_steady hq.toSteady).of_steady htell.steady).afterHandler id
  | disconnect id =>
    obtain ⟨c, -, -, rfl⟩ := step_disconnect hstep
    exact h.closeConnection id
  | post body query now uuid =>
    obtain rfl := Option.some.inj hstep
    refine h.submission (postMessage_spec env n body query now uuid) fun s j hs hj ↦ ?_
    have hname : ∀ u, j.sender? = some u → u ∈ 𝒩 := fun u hu ↦ by
      refine hnames u (List.mem_append.mpr (Or.inl (List.mem_filterMap.mpr ⟨s, ?_, ?_⟩)))
      · exact Option.mem_toList.mpr hs
      · rw [hj, Option.bind_some, hu]
    obtain ⟨room, msg, hjob⟩ := postSubmission_job hs
    obtain rfl := Option.some.inj (hjob.symm.trans hj)
    exact fun u hu ↦ ⟨hname u (by rw [Job.sender?, hu]; rfl), fun key hkey ↦ absurd hkey (by simp)⟩
  | gossip data now =>
    obtain rfl := Option.some.inj hstep
    cases data with
    | none => exact h
    | some v =>
      refine receiveItems_preserves (I := KeysHeld env 𝒩) (fun item _ n' h' ↦ ?_) n h
      refine h'.submission (receiveItem_spec env n' item now) fun s j hs hj ↦ ?_
      obtain ⟨p, -, rfl⟩ := Option.map_eq_some_iff.mp hs
      exact absurd hj (by simp)
  | feed room limit now =>
    obtain rfl := Option.some.inj hstep
    cases room with
    | some r => exact h
    | none => exact ⟨h.keys, h.clients, h.jobs⟩
  | runJob i now nonce => exact h.runJob hstep
  | warmCache now docs =>
    obtain rfl := Option.some.inj hstep
    exact h.withStore (Store.onlyCached_warmCacheFromDb ..)
  | publicKey username =>
    obtain rfl := Option.some.inj hstep
    exact h.withKeys (h.keys.afterLookUp (hnames username (by simp [Event.names])))
  | privateKey username =>
    obtain rfl := Option.some.inj hstep
    exact h.withKeys (h.keys.getUserPrivateKey (hnames username (by simp [Event.names])))
  | background b => exact h.of_steady (Quiet.background hstep).toSteady

/-- A node that has just started holds no keys. -/
theorem keysHeld_initial (env : Env) (𝒩 : Set Str) : KeysHeld env 𝒩 (initial env) := by
  refine KeysHeld.of_steady (n := empty) ⟨KeyStore.ok_empty, fun id i key hi ↦ ?_, ?_⟩
    (Quiet.initial env).toSteady
  · exact absurd hi (by simp [identities, empty])
  · exact fun j hj ↦ absurd hj List.not_mem_nil

/-! ## Documents

The documents need the assumption.  The name that a key was looked up under and the name of the
sender in the document are the same when lower-cased, and so they have the same key if the names
are consistent. -/

/-- All keys that the node holds belong to the names they are held for. -/
structure KeysOk (env : Env) (𝒩 : Set Str) (n : Node) : Prop where
  keys : n.store.keys.Ok env.lib env.keyring 𝒩
  clients : ∀ id i key, n.identities id = some i → i.privateKey = some key →
    ∃ u, u ≠ [] ∧ i.username = some u ∧ key = keyFor env.lib env.keyring u
  jobs : ∀ j ∈ n.jobs, j.Ok env.lib env.keyring 𝒩
  docs : ∀ d ∈ n.store.docs, d.Ok env.lib env.keyring 𝒩

/-- What is needed of the keys without the documents. -/
theorem KeysOk.held (h : KeysOk env 𝒩 n) : KeysHeld env 𝒩 n := ⟨h.keys, h.clients, h.jobs⟩

/-- What is needed of the documents in addition. -/
theorem KeysHeld.ok (h : KeysHeld env 𝒩 n)
    (hdocs : ∀ d ∈ n.store.docs, d.Ok env.lib env.keyring 𝒩) : KeysOk env 𝒩 n :=
  ⟨h.keys, h.clients, h.jobs, hdocs⟩

/-- A document is new only if a job has made it. -/
theorem mem_docs_of_step {a : Event} (hstep : n.step env a = some n') {d : Doc}
    (hd : d ∈ n'.store.docs) : d ∈ n.store.docs ∨
      ∃ roomId msg given sender nonce id text timestamp, Job.append roomId msg given ∈ n.jobs ∧
        messageSender msg = .str sender ∧
        makeDoc env.lib env.keyring (n.store.keys.signingKey env.lib env.keyring sender given).1
          nonce id roomId sender text timestamp = .ok d := by
  by_cases hjob : ∃ i now nonce, a = .runJob i now nonce
  · obtain ⟨i, now, nonce, rfl⟩ := hjob
    obtain ⟨job, hjob, rfl⟩ := Option.map_eq_some_iff.mp hstep
    have hmem := List.mem_of_getElem? hjob
    cases job with
    | saveUserPublicKey username key => exact Or.inl hd
    | append roomId msg given =>
      rcases (Store.appendMessage_spec env.keyring n.store nonce roomId msg given).2 with
        hsame | ⟨sender, text, hsender, -, -, hdocs | ⟨doc, hdoc, hdocs⟩⟩
      · exact Or.inl ((congrArg Store.docs hsame) ▸ hd)
      · exact Or.inl (hdocs ▸ hd)
      · have hd' : d ∈ n.store.docs ++ [doc] := hdocs ▸ hd
        rcases List.mem_append.mp hd' with hd' | hd'
        · exact Or.inl hd'
        · obtain rfl := List.mem_singleton.mp hd'
          exact Or.inr ⟨roomId, msg, given, sender, nonce, _, text, _, hmem, hsender, hdoc⟩
  · have hdocs := (leaves_step hstep fun i now nonce heq ↦ hjob ⟨i, now, nonce, heq⟩).docs
    exact Or.inl (hdocs ▸ hd)

/-- **The step lemma.** -/
theorem KeysOk.step {a : Event} (h : KeysOk env 𝒩 n) (hN : Consistent env.lib 𝒩)
    (hstep : n.step env a = some n') (hnames : ∀ u ∈ a.names env n, u ∈ 𝒩) : KeysOk env 𝒩 n' := by
  refine (h.held.step hstep hnames).ok fun d hd ↦ ?_
  rcases mem_docs_of_step hstep hd with
    hd | ⟨room, msg, given, sender, nonce, id, text, timestamp, hjob, hsender, hdoc⟩
  · exact h.docs d hd
  · obtain ⟨hname, hgiven⟩ := h.jobs _ hjob sender hsender
    rw [(h.keys.signingKey hN hname hgiven).1] at hdoc
    exact .of_makeDoc hdoc hname

theorem keysOk_initial (env : Env) (𝒩 : Set Str) : KeysOk env 𝒩 (initial env) := by
  refine (keysHeld_initial env 𝒩).ok ?_
  rw [(Quiet.initial env).store]
  exact fun d hd ↦ absurd hd List.not_mem_nil

/-! ## The cluster

Nothing that the nodes send each other carries a key, and all nodes derive the same keys, so the
invariant of a node does not depend on the others.  The condition on the names is one on the
events of all nodes together. -/

section Cluster

variable {ι : Type*} [DecidableEq ι] (L : PyLib) (K : Keyring) (configs : ι → Config)

/-- The nodes of a cluster, which all have the same master key and key files.  What they get from
the database and from each other is in the events. -/
def cluster : System (ι → Node) (ι × Event) := System.family fun i ↦ system ⟨L, K, configs i⟩

/-- The cluster, as long as no node comes across a name that is not in `𝒩`. -/
def clusterOf (𝒩 : Set Str) : System (ι → Node) (ι × Event) :=
  System.family fun i ↦ (system ⟨L, K, configs i⟩).when fun n a ↦
    ∀ u ∈ a.names ⟨L, K, configs i⟩ n, u ∈ 𝒩

variable {L K configs} {s s' : ι → Node}

/-- The invariant holds on every node of the cluster. -/
theorem KeysOk.reachable (hN : Consistent L 𝒩) (h : (clusterOf L K configs 𝒩).Reachable s) (i : ι) :
    KeysOk ⟨L, K, configs i⟩ 𝒩 (s i) := by
  refine (h.component i).invariant (I := KeysOk ⟨L, K, configs i⟩ 𝒩) ?_ ?_
  · rintro n rfl
    exact keysOk_initial _ 𝒩
  · exact fun n a n' hn ⟨hnames, hstep⟩ ↦ hn.step hN hstep hnames

/-- **What a node has stored verifies on every node from then on, if the names are consistent.** -/
theorem verifies_of_consistent (hN : Consistent L 𝒩) (h : (clusterOf L K configs 𝒩).Reachable s)
    (hrun : (clusterOf L K configs 𝒩).Run s s') (i j : ι) :
    ∀ d ∈ (s i).store.docs, d.verifies L K (s' j).store.keys = true := fun d hd ↦
  ((KeysOk.reachable hN h i).docs d hd).verifies (KeysOk.reachable hN (h.run hrun) j).keys hN

end Cluster

/-! ## Two runs

In both runs a document is stored by one node and verified by another one; in the second run two
spellings of a name are in use. -/

/-- A message is posted and stored. -/
def postAs (username : Str) : List Event :=
  [.post (.json (some (.dict [("client-name", .str username), ("msg", .str (lit "hi"))]))) [] 0
    (lit "m1"), .runJob 0 0 []]

/-- What one node stores verifies on the other one. -/
theorem verifies_alicePost :
    ∃ s : Bool → Node, (clusterOf plainEnv.lib plainEnv.keyring (fun _ : Bool ↦ plainEnv.config)
        {lit "Alice"}).Reachable s ∧
      ∃ d ∈ (s false).store.docs,
        d.verifies plainEnv.lib plainEnv.keyring (s true).store.keys = true := by
  have hexec : (System.exec
      (fun n a ↦ if ∀ u ∈ a.names plainEnv n, u = lit "Alice" then step plainEnv n a else none)
      (initial plainEnv) (postAs (lit "Alice"))).map (fun n ↦ n.store.docs.length) = some 1 := by
    decide +kernel
  obtain ⟨n, hn, hlength⟩ := Option.map_eq_some_iff.mp hexec
  obtain ⟨d, hd⟩ := List.length_eq_one_iff.mp hlength
  have hreach : (clusterOf plainEnv.lib plainEnv.keyring (fun _ : Bool ↦ plainEnv.config)
      {lit "Alice"}).Reachable (Function.update (fun _ ↦ initial plainEnv) false n) :=
    (System.Trace.family (i := false) (System.trace_when_of_exec hn)).reachable fun _ ↦ rfl
  have hmem : d ∈ (Function.update (fun _ : Bool ↦ initial plainEnv) false n false).store.docs := by
    rw [Function.update_self, hd]
    exact List.mem_singleton_self d
  refine ⟨_, hreach, d, hmem, verifies_of_consistent ?_ hreach (.refl _) false true d hmem⟩
  rintro a rfl b rfl -
  rfl

/-- Somebody posts as Alice, and somebody else joins as alice and says something. -/
def aliceRun : List Event :=
  postAs (lit "Alice") ++
    [.connect (lit "1") [] 0, joinFrame (lit "1") (lit "alice"),
      .frame (lit "1") (.dict [("type", .str (lit "message")), ("msg", .str (lit "hi"))]) 0
        (lit "m2"), .runJob 0 0 [], .runJob 0 0 []]

/-- What she says does not verify, although the primitives are ideal. -/
theorem not_verifies_aliceRun :
    plainEnv.keyring.crypto.Ideal ∧ ∃ s : Unit → Node,
      (cluster plainEnv.lib plainEnv.keyring fun _ : Unit ↦ plainEnv.config).Reachable s ∧
      ∃ d ∈ (s ()).store.docs,
        d.verifies plainEnv.lib plainEnv.keyring (s ()).store.keys = false := by
  have hexec : (System.exec (step plainEnv) (initial plainEnv) aliceRun).map (fun n ↦
      n.store.docs.any fun d ↦ d.verifies plainEnv.lib plainEnv.keyring n.store.keys = false) =
        some true := by
    decide +kernel
  obtain ⟨n, hn, hany⟩ := Option.map_eq_some_iff.mp hexec
  obtain ⟨d, hd, hfalse⟩ := List.any_eq_true.mp hany
  have htrace : (cluster plainEnv.lib plainEnv.keyring fun _ : Unit ↦ plainEnv.config).Trace
      (fun _ ↦ initial plainEnv) _ (Function.update (fun _ ↦ initial plainEnv) () n) :=
    System.Trace.family (System.trace_of_exec hn)
  refine ⟨ideal_plainCrypto, _, htrace.reachable fun _ ↦ rfl, d, ?_, ?_⟩
  · rw [Function.update_self]
    exact hd
  · rw [Function.update_self]
    exact of_decide_eq_true hfalse

end Node
end GroupChat
