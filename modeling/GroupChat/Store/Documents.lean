import GroupChat.Crypto
import GroupChat.Store.Feed

/-!
# Documents

`append_message` turns a message into the document that is persisted: it finds the signing key of
the sender, encrypts and signs, files the message in the feed cache and enqueues the document.

The keys of a name are cached twice in `server/store.py`, under the lower-cased name: the private
ones for signing and the public ones for verification.  Below them lies the cache of
`server/crypto.py`, which goes by the sanitised name.  `KeyStore` holds the three, and the functions
on it are those of the store.

`Store` is all that a node keeps about messages.  `Store.docs` is the sequence of documents that
`append_message` has handed to the writer.
-/

set_option autoImplicit false

namespace GroupChat

/-! ## The keys of a name

The functions look into their cache first, then into `server/crypto.py`.  They differ in whether
they clear a cache that has got too large before they put something into it. -/

/-- The caches of keys of a node. -/
structure KeyStore where
  /-- `_user_keys_cache`. -/
  userKeysCache : Dict Str PublicKey
  /-- `_priv_keys_cache`. -/
  privKeysCache : Dict Str PrivateKey
  /-- `_cached_sender_keys`. -/
  senderKeys : SenderKeys

/-- The caches of a node that has just started. -/
def KeyStore.empty : KeyStore := ⟨.empty, .empty, .empty⟩

section Keys

variable (L : PyLib) (K : Keyring)

/-- `d.clear()` for a dict of more than 5000 entries. -/
def clearAbove {ν : Type*} (d : Dict Str ν) : Dict Str ν :=
  if 5000 < d.keys.length then .empty else d

namespace KeyStore

/-- `save_user_public_key`, with a key that is well-formed.  The write to the database is not
modelled. -/
def saveUserPublicKey (ks : KeyStore) (username : Str) (key : PublicKey) : KeyStore :=
  match ks.userKeysCache.get? (L.lower username) with
  | some _ => ks
  | none => { ks with userKeysCache := ks.userKeysCache.set (L.lower username) key }

/-- `get_user_public_key`. -/
def getUserPublicKey (ks : KeyStore) (username : Str) : PublicKey × KeyStore :=
  match ks.userKeysCache.get? (L.lower username) with
  | some key => (key, ks)
  | none =>
    let (pair, cached) := getOrCreateSenderKeys L K ks.senderKeys username
    (pair.2, { ks with
      userKeysCache := (clearAbove ks.userKeysCache).set (L.lower username) pair.2,
      senderKeys := cached })

/-- `get_user_private_key`. -/
def getUserPrivateKey (ks : KeyStore) (username : Str) : PrivateKey × KeyStore :=
  match ks.privKeysCache.get? (L.lower username) with
  | some key => (key, ks)
  | none =>
    let (pair, cached) := getOrCreateSenderKeys L K ks.senderKeys username
    (pair.1,
      { userKeysCache := ks.userKeysCache.set (L.lower username) pair.2
        privKeysCache := (clearAbove ks.privKeysCache).set (L.lower username) pair.1
        senderKeys := cached })

/-- The key `append_message` signs with: the one it was given, the cached one, or a fresh one. -/
def signingKey (ks : KeyStore) (sender : Str) (given : Option PrivateKey) :
    PrivateKey × KeyStore :=
  match given with
  | some key => (key, ks)
  | none =>
    match ks.privKeysCache.get? (L.lower sender) with
    | some key => (key, ks)
    | none =>
      let (pair, cached) := getOrCreateSenderKeys L K ks.senderKeys sender
      (pair.1,
        { userKeysCache := ks.userKeysCache.set (L.lower sender) pair.2
          privKeysCache := ks.privKeysCache.set (L.lower sender) pair.1
          senderKeys := cached })

end KeyStore

end Keys

/-! ## Documents

A document keeps its text twice, as `text_plain` for the readers and encrypted for the record.
Its bytes are stored as hexadecimal text. -/

/-- A document of the collection `messages`. -/
structure Doc where
  /-- `_id`. -/
  id : Value
  roomId : Value
  sender : Str
  textPlain : Str
  ciphertext : Str
  nonce : Str
  signature : Str
  timestamp : Value

/-- What a node keeps about messages. -/
structure Store where
  cache : FeedCache
  /-- The serialised feed. -/
  json : FeedJson (List Entry)
  keys : KeyStore
  /-- The documents `append_message` has enqueued. -/
  docs : List Doc
  /-- `_cache_warmed`. -/
  cacheWarmed : Bool

/-- The store of a node that has just started. -/
def Store.empty : Store := ⟨.empty, .empty dumpsEntries, .empty, [], false⟩

section Append

variable (L : PyLib) (K : Keyring)

/-- The sender of a message, for `append_message`. -/
def messageSender (msg : Obj) : Value :=
  ((msg.get "username").or (msg.get "from")).or (.str (lit "Anonymous"))

/-- The name of a sender, as `append_message` and `_cache_put` read it. -/
def orAnonymous : Str → Str
  | [] => lit "Anonymous"
  | x :: u => x :: u

/-- The text of a message, for `append_message`. -/
def messageText (msg : Obj) : Value := (msg.get "text").or (msg.getD "msg" (.str []))

/-- The document of a message, signed with `key` and encrypted with `nonce`. -/
def makeDoc (key : PrivateKey) (nonce : Bytes) (id roomId : Value) (sender text : Str)
    (timestamp : Value) : Except PyError Doc :=
  match utf8 text with
  | .error e => .error e
  | .ok plaintext =>
    let ciphertext := K.crypto.encrypt K.masterKey nonce plaintext
    match makeSignablePayload L id roomId sender timestamp nonce ciphertext with
    | .error e => .error e
    | .ok payload => .ok
        { id := id, roomId := roomId, sender := sender, textPlain := text,
          ciphertext := hex ciphertext, nonce := hex nonce,
          signature := hex (K.crypto.sign key payload), timestamp := timestamp }

theorem makeDoc_spec {L : PyLib} {K : Keyring} {key : PrivateKey} {nonce : Bytes}
    {id roomId timestamp : Value} {sender text : Str} {doc : Doc}
    (h : makeDoc L K key nonce id roomId sender text timestamp = .ok doc) :
    doc.id = id ∧ doc.roomId = roomId ∧ doc.sender = sender ∧ doc.textPlain = text ∧
      doc.timestamp = timestamp := by
  rw [makeDoc] at h
  split at h
  · simp at h
  · simp only at h
    split at h
    · simp at h
    · obtain rfl := Except.ok.inj h
      exact ⟨rfl, rfl, rfl, rfl, rfl⟩

/-- The message `append_message` files in the feed cache. -/
def cachedMsg (d : Doc) : Obj :=
  [("id", d.id), ("username", .str d.sender), ("client-name", .str d.sender),
    ("text", .str d.textPlain), ("msg", .str d.textPlain), ("room", d.roomId),
    ("timestamp", d.timestamp), ("verified", .bool true), ("tampered", .bool false)]

namespace Store

/-- Mark the serialised feed if the cache has changed. -/
def putEntry (st : Store) (e : Entry) : Store :=
  if st.cache.Accepts e then
    { st with cache := st.cache.insert e, json := { st.json with feedJsonDirty := true } }
  else st

/-- `_cache_put` with the flag it raises. -/
def cachePut (st : Store) (now : ℤ) (roomId : Value) (msg : Obj) : Except PyError Store :=
  match compactMsg L now roomId msg with
  | .error e => .error e
  | .ok none => .ok st
  | .ok (some e) => .ok (st.putEntry e)

/-- `append_message`, run in the executor, where nobody sees it raise.  What was cached before it
raises stays. -/
def appendMessage (st : Store) (now : ℤ) (nonce : Bytes) (roomId : Value) (msg : Obj)
    (given : Option PrivateKey) : Store :=
  match messageSender msg, messageText msg with
  | .str sender, .str text =>
    let (key, keys) := st.keys.signingKey L K sender given
    let st := { st with keys := keys }
    match makeDoc L K key nonce (msg.get "id") roomId sender text (msg.getD "timestamp" (.int now))
      with
    | .error _ => st
    | .ok doc =>
      match st.cachePut L now roomId (cachedMsg doc) with
      | .error _ => st
      | .ok st => { st with docs := st.docs ++ [doc] }
  -- `sender.lower()` or `plaintext.encode()` raises
  | _, _ => st

/-- Put messages one after the other, up to the first one that raises. -/
def cachePutAll (st : Store) (now : ℤ) : List (Value × Obj) → Store × Option PyError
  | [] => (st, none)
  | (roomId, msg) :: msgs =>
    match st.cachePut L now roomId msg with
    | .error e => (st, some e)
    | .ok st => st.cachePutAll now msgs

end Store

/-! ## Reading documents

Two functions make messages of documents, with different fields and defaults.  A query that fails
makes `get_history` raise, while `warm_cache_from_db` leaves the cache as it is. -/

/-- `_doc_to_msg`. -/
def docToMsg (doc : Obj) : Obj :=
  let sender := doc.getD "sender" (.str (lit "Anonymous"))
  let text := (doc.get "text_plain").or (.str (lit "[encrypted]"))
  [("id", .str ((doc.get "_id").toStr L)), ("client-name", sender), ("username", sender),
    ("msg", text), ("text", text), ("room", doc.getD "room_id" (.str general)),
    ("timestamp", doc.getD "timestamp" (.int 0)), ("verified", .bool true),
    ("tampered", .bool false)]

/-- The message `warm_cache_from_db` makes of a document. -/
def warmMsg (doc : Obj) : Obj :=
  let sender := doc.getD "sender" (.str (lit "Anonymous"))
  let text := (doc.get "text_plain").or (.str [])
  [("id", .str ((doc.get "_id").toStr L)), ("client-name", sender), ("username", sender),
    ("msg", text), ("text", text), ("room", doc.getD "room_id" (.str general)),
    ("timestamp", doc.getD "timestamp" (.int 0)), ("verified", .bool true),
    ("tampered", .bool false)]

namespace Store

/-- `warm_cache_from_db`, with the documents that the query returns, oldest first; `none` for a
query that raises. -/
def warmCacheFromDb (st : Store) (now : ℤ) (docs : Option (List Obj)) : Store :=
  if st.cacheWarmed then st
  else
    match docs with
    | none => { st with cacheWarmed := true }
    | some docs =>
      let st := (st.cachePutAll L now
        (docs.map fun doc ↦ (doc.getD "room_id" (.str general), warmMsg L doc))).1
      { st with cacheWarmed := true }

/-- The cached messages of a room, as they are served. -/
def cachedHistory (st : Store) (roomId : Str) (limit : ℤ) : List Obj :=
  (st.cache.cacheGet (some roomId) limit).map Entry.toObj

/-- `get_history`, with the documents that the query returns, oldest first; `none` for a query that
raises. -/
def getHistory (st : Store) (now : ℤ) (roomId : Str) (limit : ℤ) (docs : Option (List Obj)) :
    Store × Except PyError (List Obj) :=
  match st.cachedHistory roomId limit with
  | m :: ms => (st, .ok (m :: ms))
  | [] =>
    match docs with
    | none => (st, .error .mongoError)
    | some docs =>
      let result := docs.map (docToMsg L)
      match st.cachePutAll L now (result.map fun m ↦ (.str roomId, m)) with
      | (st, none) => (st, .ok result)
      | (st, some e) => (st, .error e)

/-- The global feed, as a list of entries. -/
def globalFeed (st : Store) (now : ℤ) : List Entry × Store :=
  let json := getFeedBytes dumpsEntries st.cache st.json ((now : ℚ) / 1000)
  (json.feedJsonCache, { st with json := json })

end Store

/-! ## What the operations leave alone

Most operations on the store change one part of it.  `OnlyCached` is what the reads have in
common. -/

/-- The cache may have changed, but not the keys, the documents and the serialised feed. -/
structure OnlyCached (st st' : Store) : Prop where
  keys : st'.keys = st.keys
  docs : st'.docs = st.docs
  feedJsonCache : st'.json.feedJsonCache = st.json.feedJsonCache

namespace Store

variable {L : PyLib} {now : ℤ}

/-- A message with an id that can be hashed gets an entry. -/
theorem cachePut_of_key (st : Store) {roomId : Value} {msg : Obj} {k : Key} {ts : ℤ}
    (hid : (msg.get "id").truthy = true)
    (hts : ((msg.get "timestamp").or (.int now)).toInt L = .ok ts)
    (hk : (msg.get "id").key? = some k) :
    ∃ e, e.id = msg.get "id" ∧ e.key = k ∧ st.cachePut L now roomId msg = .ok (st.putEntry e) := by
  obtain ⟨e, he, heid, hekey⟩ : ∃ e, compactMsg L now roomId msg = .ok (some e) ∧
      e.id = msg.get "id" ∧ e.key = k := ⟨_, compactMsg_of_key hid hts hk, rfl, rfl⟩
  exact ⟨e, heid, hekey, by rw [cachePut, he]⟩

/-- An entry that is accepted is cached. -/
theorem mem_putEntry {st : Store} {e : Entry} (h : st.cache.Accepts e) :
    e ∈ (st.putEntry e).cache.globalMsgCache := by
  rw [putEntry, if_pos h]
  show e ∈ (st.cache.insert e).globalMsgCache
  rw [FeedCache.globalMsgCache_insert h]
  exact Window.mem_push_self (by decide) _ _

theorem putEntry_of_not_accepts {st : Store} {e : Entry} (h : ¬ st.cache.Accepts e) :
    st.putEntry e = st := if_neg h

theorem onlyCached_putEntry (st : Store) (e : Entry) : OnlyCached st (st.putEntry e) := by
  rw [putEntry]
  split <;> exact ⟨rfl, rfl, rfl⟩

theorem onlyCached_cachePut {st st' : Store} {roomId : Value} {msg : Obj}
    (h : st.cachePut L now roomId msg = .ok st') : OnlyCached st st' := by
  rw [cachePut] at h
  split at h
  · simp at h
  · rw [← Except.ok.inj h]
    exact ⟨rfl, rfl, rfl⟩
  · rw [← Except.ok.inj h]
    exact onlyCached_putEntry st _

theorem onlyCached_cachePutAll (msgs : List (Value × Obj)) : ∀ st : Store,
    OnlyCached st (st.cachePutAll L now msgs).1 := by
  induction msgs with
  | nil => exact fun st ↦ ⟨rfl, rfl, rfl⟩
  | cons p msgs ih =>
    intro st
    rw [cachePutAll]
    split
    · exact ⟨rfl, rfl, rfl⟩
    · rename_i st' hst'
      obtain ⟨hkeys, hdocs, hjson⟩ := onlyCached_cachePut hst'
      obtain ⟨hkeys', hdocs', hjson'⟩ := ih st'
      exact ⟨hkeys'.trans hkeys, hdocs'.trans hdocs, hjson'.trans hjson⟩

theorem onlyCached_warmCacheFromDb (st : Store) (docs : Option (List Obj)) :
    OnlyCached st (st.warmCacheFromDb L now docs) := by
  unfold warmCacheFromDb
  split
  · exact ⟨rfl, rfl, rfl⟩
  · cases docs with
    | none => exact ⟨rfl, rfl, rfl⟩
    | some docs =>
      obtain ⟨hkeys, hdocs, hjson⟩ := onlyCached_cachePutAll (L := L) _ st
      exact ⟨hkeys, hdocs, hjson⟩

theorem onlyCached_getHistory (st : Store) (roomId : Str) (limit : ℤ)
    (docs : Option (List Obj)) : OnlyCached st (st.getHistory L now roomId limit docs).1 := by
  unfold getHistory
  split
  · exact ⟨rfl, rfl, rfl⟩
  · cases docs with
    | none => exact ⟨rfl, rfl, rfl⟩
    | some docs =>
      have hput : OnlyCached st (st.cachePutAll L now ((docs.map (docToMsg L)).map fun m ↦
          (.str roomId, m))).1 := onlyCached_cachePutAll _ st
      simp only
      split
      · rename_i st' hst'
        rw [hst'] at hput
        exact hput
      · rename_i st' e hst'
        rw [hst'] at hput
        exact hput

/-! ## Jobs and histories

What is left behind by a job, and what a history is made of. -/

/-- What a call of `append_message` does to the keys and the documents. -/
theorem appendMessage_spec (K : Keyring) (st : Store) (nonce : Bytes) (roomId : Value) (msg : Obj)
    (given : Option PrivateKey) :
    (st.appendMessage L K now nonce roomId msg given).json.feedJsonCache =
        st.json.feedJsonCache ∧
      (st.appendMessage L K now nonce roomId msg given = st ∨
        ∃ sender text, messageSender msg = .str sender ∧ messageText msg = .str text ∧
          (st.appendMessage L K now nonce roomId msg given).keys =
            (st.keys.signingKey L K sender given).2 ∧
          ((st.appendMessage L K now nonce roomId msg given).docs = st.docs ∨
            ∃ doc, makeDoc L K (st.keys.signingKey L K sender given).1 nonce (msg.get "id") roomId
                sender text (msg.getD "timestamp" (.int now)) = .ok doc ∧
              (st.appendMessage L K now nonce roomId msg given).docs = st.docs ++ [doc])) := by
  unfold appendMessage
  split
  · rename_i sender text hsender htext
    simp only
    split
    · exact ⟨rfl, Or.inr ⟨sender, text, hsender, htext, rfl, Or.inl rfl⟩⟩
    · rename_i doc hdoc
      split
      · exact ⟨rfl, Or.inr ⟨sender, text, hsender, htext, rfl, Or.inl rfl⟩⟩
      · rename_i st' hst'
        obtain ⟨hkeys, hdocs, hjson⟩ := onlyCached_cachePut hst'
        exact ⟨hjson, Or.inr ⟨sender, text, hsender, htext, hkeys,
          Or.inr ⟨doc, hdoc, by rw [hdocs]⟩⟩⟩
  · exact ⟨rfl, Or.inl rfl⟩

/-- What a history is made of. -/
theorem mem_getHistory {st : Store} {roomId : Str} {limit : ℤ} {docs : Option (List Obj)}
    {history : List Obj} (h : (st.getHistory L now roomId limit docs).2 = .ok history) {m : Obj}
    (hm : m ∈ history) :
    m ∈ st.cachedHistory roomId limit ∨
      ∃ ds doc, docs = some ds ∧ doc ∈ ds ∧ m = docToMsg L doc := by
  unfold getHistory at h
  split at h
  · rename_i x xs hcached
    obtain rfl := Except.ok.inj h
    exact Or.inl (hcached ▸ hm)
  · cases docs with
    | none => simp at h
    | some ds =>
      simp only at h
      split at h
      · obtain rfl := Except.ok.inj h
        obtain ⟨doc, hdoc, rfl⟩ := List.mem_map.mp hm
        exact Or.inr ⟨ds, doc, rfl, hdoc, rfl⟩
      · simp at h

theorem mem_of_mem_dumpsEntries {msgs es : List Entry} (h : dumpsEntries.dumps msgs = some es)
    {e : Entry} (he : e ∈ es) : e ∈ msgs := by
  rw [dumpsEntries] at h
  simp only at h
  split at h
  · exact Option.some.inj h ▸ he
  · simp at h

/-- What the global feed is made of. -/
theorem mem_globalFeed {st : Store} {e : Entry} (he : e ∈ (st.globalFeed now).1) :
    e ∈ st.json.feedJsonCache ∨ e ∈ st.cache.globalMsgCache := by
  rw [globalFeed] at he
  simp only [getFeedBytes] at he
  split at he
  · exact Or.inl he
  · split at he
    · rename_i es hes
      exact Or.inr (mem_of_mem_dumpsEntries hes he)
    · simp [dumpsEntries] at he

end Store

end Append

end GroupChat
