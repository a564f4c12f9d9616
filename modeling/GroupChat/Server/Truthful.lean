import GroupChat.Server.Effects
import GroupChat.Server.Uploads

/-!
# Messages read back

Every message that is served says of itself that it is verified and not tampered with.  For the
messages that are read back from the database, by `warm_cache_from_db` or by `get_history` when the
cache has nothing for a room, this is a constant: the queries do not even fetch the ciphertext and
the signature.

* `Verifies` and `Decrypts` are what the flags of a message say of the document it was made of.
* `Unaltered` documents are those that are signed and encrypted as `append_message` does it.  If the
  primitives notice every modification, the two are the same (`genuine_iff`).
* A document is `Written` if `append_message` has written one with the same values and bytes.  Where
  a read shows the text of a document as it is, this is all that can be asked of the document
  (`written_iff`).  A read does not always do so: an empty text is replaced in a history, and a text
  of more than 2000 characters is cut on its way into the feed.
* `feedRows` and `historyRows` are the messages that a read puts into the feed cache and into a
  history, each with its document.  `cache_of_read` and `history_of_read` say that these are all.
* `truthful_of_written`: in a run, the flags are truthful all the time if the reads only come upon
  written documents with texts that they show as they are, and among the runs that read such texts
  these are the only ones.
* `not_truthful_flippedRun` is a document with one bit of its ciphertext flipped.
-/

set_option autoImplicit false

namespace GroupChat

open Transition

/-! ## Documents

What can be said of a document that is read from the database, by somebody who has the keys.  An
attacker who may write to the database but has no key can only store documents that verify or
decrypt if they are copies of what has been written. -/

/-- The decryption of AES-GCM, which notices every modification of a ciphertext. -/
structure Aead (C : Crypto) where
  /-- `AESGCM(key).decrypt(nonce, ciphertext, None)`; `none` where it raises. -/
  decrypt : Bytes → Bytes → Bytes → Option Bytes
  decrypt_eq_some_iff : ∀ key nonce ciphertext plaintext,
    decrypt key nonce ciphertext = some plaintext ↔ ciphertext = C.encrypt key nonce plaintext

/-- Ed25519 notices every modification: nothing verifies but the signature of the payload. -/
def Crypto.Strict (C : Crypto) : Prop :=
  ∀ k s p, C.verify (C.publicKey k) s p = true → s = C.sign k p

/-- A field of a document that holds bytes, as hexadecimal text. -/
def Obj.bytes (doc : Obj) (k : String) : Option Bytes :=
  (doc.get k).str?.bind fun s ↦ (toBytes s).toOption

section Documents

variable (L : PyLib) (K : Keyring) (key : Str → PrivateKey) (doc : Obj)

/-- The payload that the signature of a document is for. -/
def signablePayload : Option Bytes :=
  match (doc.get "sender").str?, doc.bytes "nonce", doc.bytes "ciphertext" with
  | some sender, some nonce, some ciphertext =>
    (makeSignablePayload L (doc.get "_id") (doc.get "room_id") sender (doc.get "timestamp") nonce
      ciphertext).toOption
  | _, _, _ => none

/-- The signature of the document verifies under the key of its sender. -/
def Verifies : Prop :=
  ∃ sender signature payload, (doc.get "sender").str? = some sender ∧
    doc.bytes "signature" = some signature ∧ signablePayload L doc = some payload ∧
      K.crypto.verify (K.crypto.publicKey (key sender)) signature payload = true

/-- The ciphertext of the document decrypts to the text. -/
def Decrypts (A : Aead K.crypto) (text : Value) : Prop :=
  ∃ nonce ciphertext plaintext t, doc.bytes "nonce" = some nonce ∧
    doc.bytes "ciphertext" = some ciphertext ∧
      A.decrypt K.masterKey nonce ciphertext = some plaintext ∧ text = .str t ∧
        utf8 t = .ok plaintext

/-- The document is what `append_message` makes of the text, with the key of the sender. -/
def Unaltered (text : Value) : Prop :=
  ∃ sender nonce t plaintext payload, (doc.get "sender").str? = some sender ∧
    doc.bytes "nonce" = some nonce ∧ text = .str t ∧ utf8 t = .ok plaintext ∧
      doc.bytes "ciphertext" = some (K.crypto.encrypt K.masterKey nonce plaintext) ∧
        makeSignablePayload L (doc.get "_id") (doc.get "room_id") sender (doc.get "timestamp") nonce
          (K.crypto.encrypt K.masterKey nonce plaintext) = .ok payload ∧
            doc.bytes "signature" = some (K.crypto.sign (key sender) payload)

variable {L K key doc}

/-- **What verifies and decrypts has not been altered.** -/
theorem genuine_iff (hstrict : K.crypto.Strict) (A : Aead K.crypto) (text : Value) :
    Verifies L K key doc ∧ Decrypts K doc A text ↔ Unaltered L K key doc text := by
  constructor
  · rintro ⟨⟨sender, signature, payload, hsender, hsignature, hpayload, hverify⟩,
      nonce, ciphertext, plaintext, t, hnonce, hciphertext, hdecrypt, rfl, ht⟩
    obtain rfl := (A.decrypt_eq_some_iff _ _ _ _).mp hdecrypt
    rw [signablePayload, hsender, hnonce, hciphertext] at hpayload
    obtain rfl := hstrict _ _ _ hverify
    refine ⟨sender, nonce, t, plaintext, payload, hsender, hnonce, rfl, ht, hciphertext, ?_,
      hsignature⟩
    cases hmake : makeSignablePayload L (doc.get "_id") (doc.get "room_id") sender
        (doc.get "timestamp") nonce (K.crypto.encrypt K.masterKey nonce plaintext) with
    | error e => simp [hmake, Except.toOption] at hpayload
    | ok p => simpa [hmake, Except.toOption] using hpayload
  · rintro ⟨sender, nonce, t, plaintext, payload, hsender, hnonce, rfl, ht, hciphertext, hpayload,
      hsignature⟩
    refine ⟨⟨sender, _, payload, hsender, hsignature, ?_, K.crypto.verify_sign _ _⟩,
      nonce, _, plaintext, t, hnonce, hciphertext, ?_, rfl, ht⟩
    · rw [signablePayload, hsender, hnonce, hciphertext]
      simp [hpayload, Except.toOption]
    · exact (A.decrypt_eq_some_iff _ _ _ _).mpr rfl

/-- A document as it is stored. -/
def Doc.stored (d : Doc) : Obj :=
  [("_id", d.id), ("room_id", d.roomId), ("sender", .str d.sender),
    ("text_plain", .str d.textPlain), ("ciphertext", .str d.ciphertext), ("nonce", .str d.nonce),
    ("signature", .str d.signature), ("timestamp", d.timestamp)]

theorem bytes_of_hex {k : String} {b : Bytes} (h : doc.get k = .str (hex b)) :
    doc.bytes k = some b := by
  rw [Obj.bytes, h]
  show ((toBytes (hex b)).toOption) = some b
  rw [toBytes_hex]
  rfl

/-- What `append_message` has written is unaltered. -/
theorem unaltered_of_makeDoc {nonce : Bytes} {id roomId timestamp : Value} {sender text : Str}
    {d : Doc} (h : makeDoc L K (key sender) nonce id roomId sender text timestamp = .ok d) :
    Unaltered L K key d.stored (.str text) := by
  rw [makeDoc] at h
  split at h
  · simp at h
  · rename_i plaintext htext
    simp only at h
    split at h
    · simp at h
    · rename_i payload hpayload
      obtain rfl := Except.ok.inj h
      exact ⟨sender, nonce, text, plaintext, payload, rfl, bytes_of_hex rfl, rfl, htext,
        bytes_of_hex rfl, hpayload, bytes_of_hex rfl⟩

/-! ## Written documents

Two documents may have the same content without being equal: hexadecimal digits can be written in
two ways.  `Written` disregards this. -/

/-- A document with the same values, and with the same bytes, however their hexadecimal texts are
spelled. -/
structure Obj.Alike (doc doc' : Obj) : Prop where
  get : ∀ k ∈ ["_id", "room_id", "sender", "text_plain", "timestamp"], doc.get k = doc'.get k
  bytes : ∀ k ∈ ["ciphertext", "nonce", "signature"], doc.bytes k = doc'.bytes k

variable (L K key doc)

/-- The document is one that `append_message` has written, for some message with such a text. -/
def Written (fits : Str → Prop) : Prop :=
  ∃ nonce id roomId sender text timestamp d, fits text ∧
    makeDoc L K (key sender) nonce id roomId sender text timestamp = .ok d ∧ doc.Alike d.stored

variable {L K key doc}

theorem Unaltered.of_alike {doc' : Obj} (h : doc.Alike doc') {text : Value}
    (h' : Unaltered L K key doc' text) : Unaltered L K key doc text := by
  obtain ⟨sender, nonce, t, plaintext, payload, hsender, hnonce, htext, hutf8, hciphertext,
    hpayload, hsignature⟩ := h'
  refine ⟨sender, nonce, t, plaintext, payload, ?_, ?_, htext, hutf8, ?_, ?_, ?_⟩
  · rw [h.get "sender" (by simp), hsender]
  · rw [h.bytes "nonce" (by simp), hnonce]
  · rw [h.bytes "ciphertext" (by simp), hciphertext]
  · rw [h.get "_id" (by simp), h.get "room_id" (by simp), h.get "timestamp" (by simp), hpayload]
  · rw [h.bytes "signature" (by simp), hsignature]

theorem Written.imp {fits fits' : Str → Prop} (h : Written L K key doc fits)
    (himp : ∀ text, fits text → fits' text) : Written L K key doc fits' := by
  obtain ⟨nonce, id, roomId, sender, text, timestamp, d, hfits, hd⟩ := h
  exact ⟨nonce, id, roomId, sender, text, timestamp, d, himp text hfits, hd⟩

/-- **Written documents** are those that are unaltered for the text they hold in the clear. -/
theorem written_iff {fits : Str → Prop} : Written L K key doc fits ↔
    ∃ text, fits text ∧ doc.get "text_plain" = .str text ∧ Unaltered L K key doc (.str text) := by
  constructor
  · rintro ⟨nonce, id, roomId, sender, text, timestamp, d, hfits, hd, halike⟩
    refine ⟨text, hfits, ?_, (unaltered_of_makeDoc hd).of_alike halike⟩
    rw [halike.get "text_plain" (by simp), ← (makeDoc_spec hd).2.2.2.1]
    rfl
  · rintro ⟨text, hfits, hplain, sender, nonce, t, plaintext, payload, hsender, hnonce, ht, hutf8,
      hciphertext, hpayload, hsignature⟩
    obtain rfl := Value.str.inj ht
    refine ⟨nonce, doc.get "_id", doc.get "room_id", sender, text, doc.get "timestamp", _, hfits,
      by rw [makeDoc, hutf8]; simp only; rw [hpayload], ⟨fun k hk ↦ ?_, fun k hk ↦ ?_⟩⟩
    · simp only [List.mem_cons, List.not_mem_nil, or_false] at hk
      rcases hk with rfl | rfl | rfl | rfl | rfl
      · rfl
      · rfl
      · exact Value.str?_eq_some_iff.mp hsender
      · exact hplain
      · rfl
    · simp only [List.mem_cons, List.not_mem_nil, or_false] at hk
      rcases hk with rfl | rfl | rfl
      · exact hciphertext.trans (bytes_of_hex rfl).symm
      · exact hnonce.trans (bytes_of_hex rfl).symm
      · exact hsignature.trans (bytes_of_hex rfl).symm

end Documents

/-! ## Reads

A read goes through the rows of a query and makes a message of each.  To be able to speak about
the document that a message was made of, the definitions keep both. -/

/-- The entries that some calls add to a cache, each with the document that its call is for. -/
def FeedCache.addedBy (L : PyLib) : FeedCache → List (Obj × PutCall) → List (Obj × Entry)
  | _, [] => []
  | c, (doc, p) :: rows =>
    (((p.entry? L).filter fun e ↦ decide (c.Accepts e)).map fun e ↦ (doc, e)).toList ++
      addedBy L (c.call L p) rows

theorem FeedCache.map_addedBy (L : PyLib) (rows : List (Obj × PutCall)) : ∀ c : FeedCache,
    (c.addedBy L rows).map Prod.snd = c.added L (rows.map Prod.snd) := by
  induction rows with
  | nil => exact fun c ↦ rfl
  | cons row rows ih =>
    obtain ⟨doc, p⟩ := row
    intro c
    rw [addedBy, List.map_append, ih, List.map_cons, added]
    cases (p.entry? L).filter fun e ↦ decide (c.Accepts e) <;> rfl

/-- An entry that is added is the one that the call of its document makes. -/
theorem FeedCache.mem_of_addedBy {L : PyLib} {rows : List (Obj × PutCall)} {p : Obj × Entry} :
    ∀ {c : FeedCache}, p ∈ c.addedBy L rows →
      ∃ put, (p.1, put) ∈ rows ∧ put.entry? L = some p.2 := by
  induction rows with
  | nil => exact fun h ↦ absurd h List.not_mem_nil
  | cons row rows ih =>
    obtain ⟨doc, put⟩ := row
    intro c h
    rcases List.mem_append.mp h with h | h
    · obtain ⟨e, he, rfl⟩ := Option.map_eq_some_iff.mp (Option.mem_toList.mp h)
      exact ⟨put, List.mem_cons_self, (Option.filter_eq_some_iff.mp he).1⟩
    · obtain ⟨put', hput', he⟩ := ih h
      exact ⟨put', List.mem_cons_of_mem _ hput', he⟩

namespace Node

/-! ## Rows and their calls

Every row leads to one call of `_cache_put`, and the text of the entry is what is left of the text
of the document. -/

/-- The calls for the documents of a query, up to the first that raises. -/
def docPuts (L : PyLib) (now : ℤ) (room : Obj → Value) (msg : Obj → Obj) (docs : List Obj) :
    List (Obj × PutCall) :=
  (docs.map fun doc ↦ (doc, ⟨now, room doc, msg doc⟩)).takeWhile fun row ↦
    (compactMsg L row.2.now row.2.roomId row.2.msg).toOption.isSome

theorem map_docPuts (L : PyLib) (now : ℤ) (room : Obj → Value) (msg : Obj → Obj)
    (docs : List Obj) : (docPuts L now room msg docs).map Prod.snd =
      rowPuts L now (docs.map fun doc ↦ (room doc, msg doc)) := by
  have hrows : ((docs.map fun doc ↦ (room doc, msg doc)).map fun r ↦ PutCall.mk now r.1 r.2) =
      (docs.map fun doc ↦ (doc, PutCall.mk now (room doc) (msg doc))).map Prod.snd := by
    rw [List.map_map, List.map_map]
    rfl
  rw [docPuts, rowPuts, hrows]
  generalize (docs.map fun doc ↦ (doc, PutCall.mk now (room doc) (msg doc))) = rows
  rw [List.takeWhile_map]
  rfl

theorem mem_docs_of_addedBy {L : PyLib} {now : ℤ} {room : Obj → Value} {msg : Obj → Obj}
    {docs : List Obj} {c : FeedCache} {p : Obj × Entry}
    (h : p ∈ c.addedBy L (docPuts L now room msg docs)) :
    p.1 ∈ docs ∧ p.2.text = compactText L (msg p.1) := by
  obtain ⟨put, hput, he⟩ := FeedCache.mem_of_addedBy h
  obtain ⟨doc, hdoc, heq⟩ := List.mem_map.mp (List.takeWhile_subset _ hput)
  obtain ⟨rfl, hcall⟩ := Prod.ext_iff.mp heq
  obtain rfl : PutCall.mk now (room p.1) (msg p.1) = put := hcall
  exact ⟨hdoc, (eq_of_compactMsg (PutCall.entry?_eq_some_iff.mp he)).2.2.2.1⟩

section Texts

variable {L : PyLib} {doc : Obj} {text : Str}

theorem text_docToMsg (hplain : doc.get "text_plain" = .str text) (hne : text ≠ []) :
    (docToMsg L doc).get "text" = .str text := by
  show (doc.get "text_plain").or _ = _
  rw [hplain, Value.or_of_truthy (by simpa [Value.truthy] using hne)]

theorem compactText_docToMsg (hplain : doc.get "text_plain" = .str text) (hne : text ≠ []) :
    compactText L (docToMsg L doc) = text.take 2000 := by
  have htruthy : (Value.str text).truthy = true := by simpa [Value.truthy] using hne
  rw [compactText, text_docToMsg hplain hne, Value.or_of_truthy htruthy, Value.or_of_truthy htruthy]
  rfl

/-- When a cache is warmed, nothing is put in the place of an empty text. -/
theorem compactText_warmMsg (hplain : doc.get "text_plain" = .str text) :
    compactText L (warmMsg L doc) = text.take 2000 := by
  have htext : (warmMsg L doc).get "text" = (Value.str text).or (.str []) := by
    rw [← hplain]
    rfl
  have hmsg : (warmMsg L doc).get "msg" = (Value.str text).or (.str []) := by
    rw [← hplain]
    rfl
  rw [compactText, htext, hmsg]
  cases text with
  | nil => rfl
  | cons c text => rfl

end Texts

/-- The documents that a query returns. -/
def Event.documents : Event → List Obj
  | .warmCache _ docs => docs.getD []
  | .fetchHistory _ _ docs => docs.getD []
  | _ => []

variable (env : Env) (n : Node)

/-! ## What a read shows

The messages of a read, each with its document, for the feed and for a history. -/

/-- The entries that a read adds to the feed cache, each with its document. -/
def feedRows : Event → List (Obj × Entry)
  | .warmCache now docs =>
    if n.store.cacheWarmed then []
    else n.store.cache.addedBy env.lib (docPuts env.lib now
      (fun doc ↦ doc.getD "room_id" (.str general)) (warmMsg env.lib) (docs.getD []))
  | .fetchHistory id now docs =>
    match (n.waitingAt id).bind Waiting.room? with
    | some room =>
      if n.store.cachedHistory room env.config.historyLimit = [] then
        n.store.cache.addedBy env.lib (docPuts env.lib now (fun _ ↦ .str room) (docToMsg env.lib)
          (docs.getD []))
      else []
    | none => []
  | _ => []

/-- The messages of the history that a read fetches, each with its document. -/
def historyRows : Event → List (Obj × Obj)
  | .fetchHistory id now docs =>
    match (n.waitingAt id).bind Waiting.room? with
    | some room =>
      if n.store.cachedHistory room env.config.historyLimit = [] ∧
          (n.store.getHistory env.lib now room env.config.historyLimit docs).2.toOption.isSome then
        (docs.getD []).map fun doc ↦ (doc, docToMsg env.lib doc)
      else []
    | none => []
  | _ => []

/-- All messages that a read makes of documents. -/
def shownRows (a : Event) : List (Obj × Obj) :=
  (n.feedRows env a).map (fun row ↦ (row.1, row.2.toObj)) ++ n.historyRows env a

variable {env n} {n' : Node}

/-- **The feed after a read**: what was there, and the messages of the read. -/
theorem cache_of_read {a : Event} (hread : (∃ now docs, a = .warmCache now docs) ∨
      ∃ id now docs, a = .fetchHistory id now docs)
    (hlen : n.store.cache.globalMsgCache.length ≤ msgCacheSize) (h : n.step env a = some n') :
    n'.store.cache.globalMsgCache =
      (n.store.cache.globalMsgCache ++ (n.feedRows env a).map Prod.snd).rtake msgCacheSize := by
  rw [cache_step h, FeedCache.globalMsgCache_calls env.lib _ _ hlen]
  congr 2
  rcases hread with ⟨now, docs, rfl⟩ | ⟨id, now, docs, rfl⟩
  · rw [feedRows, Event.puts]
    split
    · rfl
    · rw [FeedCache.map_addedBy, map_docPuts]
  · rw [feedRows, Event.puts, fetchPuts]
    cases (n.waitingAt id).bind Waiting.room? with
    | none => rfl
    | some room =>
      simp only
      split
      · rw [FeedCache.map_addedBy, map_docPuts]
      · rfl

theorem getHistory_cases {L : PyLib} {st : Store} {now : ℤ} {room : Str} {limit : ℤ}
    {docs : Option (List Obj)} {history : List Obj}
    (h : (st.getHistory L now room limit docs).2 = .ok history) :
    history = st.cachedHistory room limit ∨
      st.cachedHistory room limit = [] ∧ history = (docs.getD []).map (docToMsg L) := by
  unfold Store.getHistory at h
  split at h
  · rename_i x xs hcached
    exact Or.inl ((Except.ok.inj h).symm.trans hcached.symm)
  · rename_i hcached
    cases docs with
    | none => simp at h
    | some ds =>
      simp only at h
      split at h
      · exact Or.inr ⟨hcached, (Except.ok.inj h).symm⟩
      · simp at h

/-- **The history of a read**: cached messages, or the messages of the documents. -/
theorem history_of_read {id : Str} {now : ℤ} {docs : Option (List Obj)} {w : Waiting}
    {history : List Obj} (h : n.step env (.fetchHistory id now docs) = some n')
    (hw : n'.waitingAt id = some w) (hhistory : w.result? = some (.ok history)) :
    (∃ room, (n.waitingAt id).bind Waiting.room? = some room ∧
      history = n.store.cachedHistory room env.config.historyLimit) ∨
      history = (n.historyRows env (.fetchHistory id now docs)).map Prod.snd := by
  obtain ⟨c, w₀, room, ready, hc, hw₀, hroom, hready, rfl⟩ := fetchHistory_spec h
  have hwaiting : (n.waitingAt id).bind Waiting.room? = some room := by
    rw [waitingAt, hc, Option.bind_some, hw₀, Option.bind_some, hroom]
  have hw' : w = ready := by
    rw [waitingAt, updateClient] at hw
    simp only [hc, Dict.get?_set, if_true, Option.bind_some] at hw
    exact (Option.some.inj hw).symm
  subst hw'
  have hok := Option.some.inj (hready.symm.trans hhistory)
  rcases getHistory_cases hok with heq | ⟨hcached, heq⟩
  · exact Or.inl ⟨room, hwaiting, heq⟩
  · refine Or.inr ?_
    rw [historyRows, hwaiting]
    simp only
    rw [if_pos ⟨hcached, by rw [hok]; rfl⟩, List.map_map]
    exact heq

/-- **A message that is shown is made of one of the documents of the query.** -/
theorem mem_documents_of_shown {a : Event} {row : Obj × Obj} (h : row ∈ n.shownRows env a) :
    row.1 ∈ a.documents := by
  rcases List.mem_append.mp h with h | h
  · obtain ⟨p, hp, rfl⟩ := List.mem_map.mp h
    cases a with
    | warmCache now docs =>
      rw [feedRows] at hp
      split at hp
      · exact absurd hp List.not_mem_nil
      · exact (mem_docs_of_addedBy hp).1
    | fetchHistory id now docs =>
      rw [feedRows] at hp
      split at hp
      · split at hp
        · exact (mem_docs_of_addedBy hp).1
        · exact absurd hp List.not_mem_nil
      · exact absurd hp List.not_mem_nil
    | _ => exact absurd hp List.not_mem_nil
  · cases a with
    | fetchHistory id now docs =>
      rw [historyRows] at h
      split at h
      · split at h
        · obtain ⟨doc, hdoc, rfl⟩ := List.mem_map.mp h
          exact hdoc
        · exact absurd h List.not_mem_nil
      · exact absurd h List.not_mem_nil
    | _ => exact absurd h List.not_mem_nil

/-! ## Runs

A run reads documents at any time, and nothing is assumed about who has put them into the
database.  The flags are constants, so whether they are right depends on the documents alone. -/

/-- The flags of a message are right: if it says that it is verified and not tampered with, its
document verifies under the key of the sender and decrypts to its text. -/
def Truthful (L : PyLib) (K : Keyring) (key : Str → PrivateKey) (A : Aead K.crypto)
    (row : Obj × Obj) : Prop :=
  row.2.get "verified" = .bool true → row.2.get "tampered" = .bool false →
    Verifies L K key row.1 ∧ Decrypts K row.1 A (row.2.get "text")

/-- The flags say so of every message. -/
theorem flags_of_shown {a : Event} {row : Obj × Obj} (h : row ∈ n.shownRows env a) :
    row.2.get "verified" = .bool true ∧ row.2.get "tampered" = .bool false := by
  rcases List.mem_append.mp h with h | h
  · obtain ⟨p, -, rfl⟩ := List.mem_map.mp h
    exact ⟨rfl, rfl⟩
  · cases a with
    | fetchHistory id now docs =>
      rw [historyRows] at h
      split at h
      · split at h
        · obtain ⟨doc, -, rfl⟩ := List.mem_map.mp h
          exact ⟨rfl, rfl⟩
        · exact absurd h List.not_mem_nil
      · exact absurd h List.not_mem_nil
    | _ => exact absurd h List.not_mem_nil

/-- A node, with all messages that have been made of documents so far. -/
def readingSystem (env : Env) : System (Node × List (Obj × Obj)) Event :=
  .ofFun (fun p ↦ p.1 = initial env ∧ p.2 = [])
    (System.record (step env) fun n a _ rows ↦ rows ++ n.shownRows env a)

/-- The texts that a read shows as they are in the feed. -/
def Event.FitsFeed : Event → Str → Prop
  | .warmCache _ _, text => text.length ≤ 2000
  | _, text => text ≠ [] ∧ text.length ≤ 2000

/-- The documents that the event makes messages of meet a condition on their texts. -/
def Event.ShowsOnly (n : Node) (env : Env) (D : (Str → Prop) → Obj → Prop) (a : Event) : Prop :=
  (∀ row ∈ n.feedRows env a, D a.FitsFeed row.1) ∧
    ∀ row ∈ n.historyRows env a, D (fun text ↦ text ≠ []) row.1

/-- The documents that the event makes messages of have texts that are shown as they are. -/
def ReadsPlain (env : Env) (p : Node × List (Obj × Obj)) (a : Event) : Prop :=
  a.ShowsOnly p.1 env fun fits doc ↦ ∃ text, fits text ∧ doc.get "text_plain" = .str text

/-- The documents that the event makes messages of are written by `append_message`, with texts that
are shown as they are. -/
def ReadsWritten (env : Env) (key : Str → PrivateKey) (p : Node × List (Obj × Obj))
    (a : Event) : Prop :=
  a.ShowsOnly p.1 env fun fits doc ↦ Written env.lib env.keyring key doc fits

/-- It is enough that all documents of the query are written, with texts of 1 to 2000
characters. -/
theorem readsWritten_of_documents {env : Env} {key : Str → PrivateKey}
    {p : Node × List (Obj × Obj)} {a : Event} (h : ∀ doc ∈ a.documents,
      Written env.lib env.keyring key doc fun text ↦ text ≠ [] ∧ text.length ≤ 2000) :
    ReadsWritten env key p a := by
  have hfits : ∀ text : Str, text ≠ [] ∧ text.length ≤ 2000 → a.FitsFeed text := by
    intro text htext
    cases a with
    | warmCache now docs => exact htext.2
    | _ => exact htext
  refine ⟨fun row hrow ↦ (h row.1 ?_).imp hfits, fun row hrow ↦ (h row.1 ?_).imp fun _ ↦ And.left⟩
  · exact mem_documents_of_shown
      (List.mem_append_left (p.1.historyRows env a) (List.mem_map.mpr ⟨row, hrow, rfl⟩))
  · exact mem_documents_of_shown (List.mem_append_right _ hrow)

/-! ## One read

As long as texts are shown as they are, a message that is shown is genuine exactly if its document
was written. -/

/-- A text that fits is the text of the entry in the feed. -/
theorem text_of_feedRows {a : Event} {row : Obj × Entry} {text : Str}
    (hrow : row ∈ n.feedRows env a) (hplain : row.1.get "text_plain" = .str text)
    (hfits : a.FitsFeed text) : row.2.text = text := by
  cases a with
  | warmCache now docs =>
    rw [feedRows] at hrow
    split at hrow
    · exact absurd hrow List.not_mem_nil
    · rw [(mem_docs_of_addedBy hrow).2, compactText_warmMsg hplain]
      exact List.take_of_length_le hfits
  | fetchHistory id now docs =>
    rw [feedRows] at hrow
    split at hrow
    · split at hrow
      · rw [(mem_docs_of_addedBy hrow).2, compactText_docToMsg hplain hfits.1]
        exact List.take_of_length_le hfits.2
      · exact absurd hrow List.not_mem_nil
    · exact absurd hrow List.not_mem_nil
  | _ => exact absurd hrow List.not_mem_nil

/-- A text that is not empty is the text of the message in the history. -/
theorem text_of_historyRows {a : Event} {row : Obj × Obj} {text : Str}
    (hrow : row ∈ n.historyRows env a) (hplain : row.1.get "text_plain" = .str text)
    (hne : text ≠ []) : row.2.get "text" = .str text := by
  cases a with
  | fetchHistory id now docs =>
    rw [historyRows] at hrow
    split at hrow
    · split at hrow
      · obtain ⟨doc, -, rfl⟩ := List.mem_map.mp hrow
        exact text_docToMsg hplain hne
      · exact absurd hrow List.not_mem_nil
    · exact absurd hrow List.not_mem_nil
  | _ => exact absurd hrow List.not_mem_nil

/-- **One read**: with texts that are shown as they are, the messages are truthful exactly if the
documents are written. -/
theorem readsWritten_iff {env : Env} {key : Str → PrivateKey}
    (hstrict : env.keyring.crypto.Strict) (A : Aead env.keyring.crypto)
    {p : Node × List (Obj × Obj)} {a : Event} : ReadsWritten env key p a ↔ ReadsPlain env p a ∧
      ∀ row ∈ p.1.shownRows env a, Truthful env.lib env.keyring key A row := by
  have htruthful : (∀ row ∈ p.1.shownRows env a, Truthful env.lib env.keyring key A row) ↔
      (∀ row ∈ p.1.feedRows env a,
        Unaltered env.lib env.keyring key row.1 (.str row.2.text)) ∧
      ∀ row ∈ p.1.historyRows env a,
        Unaltered env.lib env.keyring key row.1 (row.2.get "text") := by
    constructor
    · intro hall
      refine ⟨fun row hrow ↦ ?_, fun row hrow ↦ ?_⟩
      · have hmem : (row.1, row.2.toObj) ∈ p.1.shownRows env a :=
          List.mem_append_left _ (List.mem_map.mpr ⟨row, hrow, rfl⟩)
        exact (genuine_iff hstrict A _).mp (hall _ hmem rfl rfl)
      · have hmem : row ∈ p.1.shownRows env a := List.mem_append_right _ hrow
        obtain ⟨hverified, htampered⟩ := flags_of_shown hmem
        exact (genuine_iff hstrict A _).mp (hall row hmem hverified htampered)
    · rintro ⟨hfeed, hhistory⟩ row hrow - -
      rcases List.mem_append.mp hrow with hrow | hrow
      · obtain ⟨entry, hentry, rfl⟩ := List.mem_map.mp hrow
        exact (genuine_iff hstrict A _).mpr (hfeed entry hentry)
      · exact (genuine_iff hstrict A _).mpr (hhistory row hrow)
  rw [htruthful]
  constructor
  · rintro ⟨hfeed, hhistory⟩
    refine ⟨⟨fun row hrow ↦ ?_, fun row hrow ↦ ?_⟩, fun row hrow ↦ ?_, fun row hrow ↦ ?_⟩
    · obtain ⟨text, hfits, hplain, -⟩ := written_iff.mp (hfeed row hrow)
      exact ⟨text, hfits, hplain⟩
    · obtain ⟨text, hfits, hplain, -⟩ := written_iff.mp (hhistory row hrow)
      exact ⟨text, hfits, hplain⟩
    · obtain ⟨text, hfits, hplain, hunaltered⟩ := written_iff.mp (hfeed row hrow)
      rw [text_of_feedRows hrow hplain hfits]
      exact hunaltered
    · obtain ⟨text, hfits, hplain, hunaltered⟩ := written_iff.mp (hhistory row hrow)
      rw [text_of_historyRows hrow hplain hfits]
      exact hunaltered
  · rintro ⟨⟨hfeed, hhistory⟩, hfeed', hhistory'⟩
    refine ⟨fun row hrow ↦ ?_, fun row hrow ↦ ?_⟩
    · obtain ⟨text, hfits, hplain⟩ := hfeed row hrow
      have hunaltered := hfeed' row hrow
      rw [text_of_feedRows hrow hplain hfits] at hunaltered
      exact written_iff.mpr ⟨text, hfits, hplain, hunaltered⟩
    · obtain ⟨text, hfits, hplain⟩ := hhistory row hrow
      have hunaltered := hhistory' row hrow
      rw [text_of_historyRows hrow hplain hfits] at hunaltered
      exact written_iff.mpr ⟨text, hfits, hplain, hunaltered⟩

/-- **The flags are truthful all along a run in which only documents are read that `append_message`
has written**, and among the runs that read texts they show as they are, only in these. -/
theorem truthful_of_written (key : Str → PrivateKey) (hstrict : env.keyring.crypto.Strict)
    (A : Aead env.keyring.crypto) {l : List Event} {p p' : Node × List (Obj × Obj)}
    (hp : (readingSystem env).init p) :
    (((readingSystem env).when (ReadsWritten env key)).Trace p l p' →
      ∀ l₁ q, l₁ <+: l → System.exec
          (System.record (step env) fun n a _ rows ↦ rows ++ n.shownRows env a) p l₁ = some q →
        ∀ row ∈ q.2, Truthful env.lib env.keyring key A row) ∧
    (((readingSystem env).when (ReadsPlain env)).Trace p l p' →
      (∀ l₁ q, l₁ <+: l → System.exec
          (System.record (step env) fun n a _ rows ↦ rows ++ n.shownRows env a) p l₁ = some q →
        ∀ row ∈ q.2, Truthful env.lib env.keyring key A row) →
      ((readingSystem env).when (ReadsWritten env key)).Trace p l p') := by
  have hexact : ((readingSystem env).when (ReadsPlain env)).Trace p l p' → _ := fun hplain ↦
    hplain.forall_prefix_iff_when (J := fun _ ↦ True)
      (I := fun q ↦ ∀ row ∈ q.2, Truthful env.lib env.keyring key A row)
      (C := ReadsWritten env key) (fun _ _ _ _ _ ↦ trivial) ?_ trivial ?_
  · refine ⟨fun hwritten ↦ (hexact (hwritten.imp fun q a q' hs ↦ ?_)).mpr hwritten,
      fun hplain ↦ (hexact hplain).mp⟩
    exact ⟨((readsWritten_iff hstrict A).mp hs.1).1, hs.2⟩
  · intro q a q' _ hq hplain hstep
    obtain ⟨n', -, rfl⟩ := Option.map_eq_some_iff.mp hstep
    rw [readsWritten_iff hstrict A]
    constructor
    · exact fun hall ↦ ⟨hplain, fun row hrow ↦ hall row (List.mem_append_right _ hrow)⟩
    · rintro ⟨-, hnew⟩ row hrow
      rcases List.mem_append.mp hrow with hold | hrow
      · exact hq row hold
      · exact hnew row hrow
  · rw [hp.2]
    exact fun row hrow ↦ absurd hrow List.not_mem_nil

/-! ## A flipped bit

`tamper_last_message` is the tool that the repository has for this purpose. -/

/-- Alice has written "hi". -/
def hiDoc : Except PyError Doc :=
  makeDoc asciiLib plainEnv.keyring (plainEnv.keyring.keyOf (lit "Alice")) [1, 2, 3]
    (.str (lit "m1")) (.str general) (lit "Alice") (lit "hi") (.int 5)

/-- What `tamper_last_message` does to a document: the lowest bit of the first byte of the
ciphertext is flipped. -/
def tamperLastMessage (d : Doc) : Doc :=
  match toBytes d.ciphertext with
  | .ok (b :: bs) => { d with ciphertext := hex ((b ^^^ 1) :: bs) }
  | _ => d

theorem strict_plainCrypto : plainEnv.keyring.crypto.Strict := fun _ _ _ h ↦ eq_of_beq h

/-- `plainCrypto` does not hide anything. -/
def plainAead : Aead plainEnv.keyring.crypto where
  decrypt _ _ ciphertext := some ciphertext
  decrypt_eq_some_iff _ _ _ _ := Option.some_inj

/-- The node reads one document when it starts. -/
def readRun (doc : Obj) : List Event := [.warmCache 0 (some [doc])]

theorem truthful_hiDoc : ∃ d p, hiDoc = .ok d ∧
    (readingSystem plainEnv).Trace (initial plainEnv, []) (readRun d.stored) p ∧ p.2.length = 1 ∧
      ∀ l₁ q, l₁ <+: readRun d.stored →
        System.exec (System.record (step plainEnv) fun n a _ rows ↦ rows ++ n.shownRows plainEnv a)
          (initial plainEnv, []) l₁ = some q →
            ∀ row ∈ q.2,
              Truthful plainEnv.lib plainEnv.keyring plainEnv.keyring.keyOf plainAead row := by
  obtain ⟨d, hd⟩ : ∃ d, hiDoc = .ok d := ⟨_, rfl⟩
  have hstep : (System.record (step plainEnv) (fun n a _ rows ↦ rows ++ n.shownRows plainEnv a)
      (initial plainEnv, []) (.warmCache 0 (some [d.stored]))).map (fun p ↦
        p.2.map fun row ↦ (row.2.get "text").str?) = some [some (lit "hi")] := by
    obtain rfl := Except.ok.inj hd
    decide +kernel
  obtain ⟨p, hp, hrows⟩ := Option.map_eq_some_iff.mp hstep
  have htrace : (readingSystem plainEnv).Trace (initial plainEnv, []) (readRun d.stored) p :=
    .cons hp (.nil p)
  have hreads : ReadsWritten plainEnv plainEnv.keyring.keyOf (initial plainEnv, [])
      (.warmCache 0 (some [d.stored])) := by
    refine readsWritten_of_documents fun doc hdoc ↦ ?_
    obtain rfl : doc = d.stored := List.mem_singleton.mp hdoc
    exact ⟨_, _, _, _, _, _, d, by decide, hd, fun _ _ ↦ rfl, fun _ _ ↦ rfl⟩
  exact ⟨d, p, hd, htrace, by simpa using congrArg List.length hrows,
    (truthful_of_written (p := (initial plainEnv, [])) plainEnv.keyring.keyOf strict_plainCrypto
      plainAead ⟨rfl, rfl⟩).1 (.cons ⟨hreads, hp⟩ (.nil p))⟩

/-- A document of which one bit has been flipped is served as verified and not tampered with. -/
theorem not_truthful_flippedRun : plainEnv.keyring.crypto.Strict ∧ ∃ d p, hiDoc = .ok d ∧
    (readingSystem plainEnv).Trace (initial plainEnv, []) (readRun (tamperLastMessage d).stored) p ∧
      p.1.store.cache.globalMsgCache.map Entry.text = [lit "hi"] ∧
        ∃ row ∈ p.2,
          ¬Truthful plainEnv.lib plainEnv.keyring plainEnv.keyring.keyOf plainAead row := by
  obtain ⟨d, hd⟩ : ∃ d, hiDoc = .ok d := ⟨_, rfl⟩
  have hstep : (System.record (step plainEnv) (fun n a _ rows ↦ rows ++ n.shownRows plainEnv a)
      (initial plainEnv, []) (.warmCache 0 (some [(tamperLastMessage d).stored]))).map (fun p ↦
        (p.1.store.cache.globalMsgCache.map Entry.text,
          p.2.map fun row ↦ (row.1.bytes "ciphertext", (row.2.get "text").str?))) =
            some ([lit "hi"], [(some [105, 105], some (lit "hi"))]) := by
    obtain rfl := Except.ok.inj hd
    decide +kernel
  obtain ⟨p, hp, hproj⟩ := Option.map_eq_some_iff.mp hstep
  have hcache := congrArg Prod.fst hproj
  have hrows : p.2.map (fun row ↦ (row.1.bytes "ciphertext", (row.2.get "text").str?)) =
      [(some [105, 105], some (lit "hi"))] := congrArg Prod.snd hproj
  obtain ⟨row, hrow, hpair⟩ := List.mem_map.mp <|
    hrows.symm ▸ List.mem_singleton_self (some ([105, 105] : Bytes), some (lit "hi"))
  have hciphertext : row.1.bytes "ciphertext" = some [105, 105] := congrArg Prod.fst hpair
  have htext : row.2.get "text" = .str (lit "hi") :=
    Value.str?_eq_some_iff.mp (congrArg Prod.snd hpair)
  refine ⟨strict_plainCrypto, d, p, hd, .cons hp (.nil p), hcache, row, hrow, fun h ↦ ?_⟩
  obtain ⟨n', -, rfl⟩ := Option.map_eq_some_iff.mp hp
  obtain ⟨hverified, htampered⟩ := flags_of_shown hrow
  obtain ⟨-, nonce, ciphertext, plaintext, t, -, hc, hplaintext, ht, hutf8⟩ := h hverified htampered
  obtain rfl := Value.str.inj (htext.symm.trans ht)
  obtain rfl : [105, 105] = plaintext :=
    (Option.some.inj (hciphertext.symm.trans hc)).trans (Option.some.inj hplaintext)
  exact absurd hutf8 (by decide)

end Node
end GroupChat
