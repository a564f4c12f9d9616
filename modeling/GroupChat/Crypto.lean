import GroupChat.Py.Json
import GroupChat.Lib.Dict

/-!
# Signatures and keys

`server/crypto.py` derives a signing key for every name, encrypts texts and signs documents.  The
primitives come from a library and are the fields of `Crypto`, with the one law that matters here:
what a private key has signed, its public key verifies.  A private key is its 32 bytes, a public
key its raw bytes.

* `sanitized` is the form of a name that a key is derived from.
* `getOrCreateSenderKeys` returns the pair of a name and keeps the pairs in `_cached_sender_keys`.
  `SenderKeys.Sound` says that the cache holds nothing but derived pairs, so that the result does
  not depend on it (`getOrCreateSenderKeys_fst`).
* `makeSignablePayload` is what is signed.

Byte strings are stored as hexadecimal text; `fromHex_hex` is the round trip.

The cache of pairs is the only state in this file.  It is flushed as a whole when it is full, and
only before a derived pair is entered, so that pairs that come from files may make it grow further.
None of this can be seen from outside: a caller always gets the pair of the sanitised name.
-/

set_option autoImplicit false

namespace GroupChat

/-! ## The primitives

A stand-in for the library is needed for runs on concrete inputs.  `plainCrypto` keeps everything
in the clear, so a signature shows the key and the payload it was made of, and every assumption of
`Crypto.Ideal` holds of it (`ideal_plainCrypto`).  Nothing general is proved about it. -/

abbrev PrivateKey := Bytes
abbrev PublicKey := Bytes

/-- The cryptographic library. -/
structure Crypto where
  /-- `hmac.digest(key, text.encode('utf-8'), 'sha256')`. -/
  hmac : Bytes → Str → PrivateKey
  /-- `private_key.public_key()`. -/
  publicKey : PrivateKey → PublicKey
  /-- `private_key.sign(payload)`. -/
  sign : PrivateKey → Bytes → Bytes
  /-- Does `public_key.verify(signature, payload)` return? -/
  verify : PublicKey → Bytes → Bytes → Bool
  /-- `AESGCM(key).encrypt(nonce, plaintext, None)`. -/
  encrypt : Bytes → Bytes → Bytes → Bytes
  /-- A signature verifies under the key that belongs to it. -/
  verify_sign : ∀ k p, verify (publicKey k) (sign k p) p = true

/-- What is assumed of the primitives: a signature verifies under no other key and for no other
payload, and keys that are derived from different texts differ. -/
structure Crypto.Ideal (C : Crypto) : Prop where
  verify_iff : ∀ k k' p p', C.verify (C.publicKey k) (C.sign k' p') p = true ↔ k = k' ∧ p = p'
  hmac_injective : ∀ key, Function.Injective (C.hmac key)

/-- A code point in bytes, for `plainCrypto`. -/
def plainChar (c : ℕ) : Bytes := List.replicate (c / 256) 1 ++ [0, .ofNat c]

/-- A key and a payload in one, for `plainCrypto`. -/
def plainSign (k p : Bytes) : Bytes := k.flatMap (fun b ↦ [1, b]) ++ 0 :: p

/-- A key and a payload can be read off what `plainSign` makes of them. -/
theorem plainSign_injective {p p' : Bytes} : ∀ {k k' : Bytes}, plainSign k p = plainSign k' p' →
    k = k' ∧ p = p' := by
  intro k
  induction k with
  | nil =>
    intro k' h
    cases k' with
    | nil => exact ⟨rfl, List.tail_eq_of_cons_eq h⟩
    | cons b' k' => exact absurd (List.head_eq_of_cons_eq h) (by decide)
  | cons b k ih =>
    intro k' h
    cases k' with
    | nil => exact absurd (List.head_eq_of_cons_eq h) (by decide)
    | cons b' k' =>
      have htail : b :: plainSign k p = b' :: plainSign k' p' := List.tail_eq_of_cons_eq h
      obtain ⟨rfl, rfl⟩ := ih (List.tail_eq_of_cons_eq htail)
      exact ⟨by rw [List.head_eq_of_cons_eq htail], rfl⟩

/-- The bytes of a code point say where they end. -/
theorem plainChar_append_injective {c c' : ℕ} {l l' : Bytes}
    (h : plainChar c ++ l = plainChar c' ++ l') : c = c' ∧ l = l' := by
  have hrep : ∀ m m' : ℕ, ∀ b b' : UInt8,
      List.replicate m 1 ++ 0 :: b :: l = List.replicate m' 1 ++ 0 :: b' :: l' →
        m = m' ∧ b = b' ∧ l = l' := by
    intro m
    induction m with
    | zero =>
      intro m' b b' h
      cases m' with
      | zero => simpa using h
      | succ m' => exact absurd (List.head_eq_of_cons_eq h) (by decide)
    | succ m ih =>
      intro m' b b' h
      cases m' with
      | zero => exact absurd (List.head_eq_of_cons_eq h) (by decide)
      | succ m' =>
        obtain ⟨rfl, hb, hl⟩ := ih m' b b' (List.tail_eq_of_cons_eq h)
        exact ⟨rfl, hb, hl⟩
  simp only [plainChar, List.append_assoc, List.cons_append, List.nil_append] at h
  obtain ⟨hdiv, hmod, hl⟩ := hrep _ _ _ _ h
  have hmod' : c % 256 = c' % 256 := by simpa using congrArg UInt8.toNat hmod
  exact ⟨by omega, hl⟩

/-- Different texts have different bytes. -/
theorem flatMap_plainChar_injective : Function.Injective (List.flatMap plainChar) := by
  intro text
  induction text with
  | nil =>
    intro text' h
    cases text' with
    | nil => rfl
    | cons c' text' => simp [plainChar] at h
  | cons c text ih =>
    intro text' h
    cases text' with
    | nil => simp [plainChar] at h
    | cons c' text' =>
      rw [List.flatMap_cons, List.flatMap_cons] at h
      obtain ⟨rfl, hl⟩ := plainChar_append_injective h
      rw [ih hl]

/-- A stand-in for runs on concrete inputs: a key is the text that it is derived from, and whoever
has the key can read off what it was used for. -/
def plainCrypto : Crypto where
  hmac _ text := text.flatMap plainChar
  publicKey k := k
  sign := plainSign
  verify k s p := s == plainSign k p
  encrypt _ _ plaintext := plaintext
  verify_sign _ _ := by simp

/-- The assumptions can be met. -/
theorem ideal_plainCrypto : plainCrypto.Ideal where
  verify_iff k k' p p' := by
    simp only [plainCrypto, beq_iff_eq]
    constructor
    · intro h
      obtain ⟨rfl, rfl⟩ := plainSign_injective h
      exact ⟨rfl, rfl⟩
    · rintro ⟨rfl, rfl⟩
      rfl
  hmac_injective _ := flatMap_plainChar_injective

/-- What the nodes of a cluster are configured with. -/
structure Keyring where
  crypto : Crypto
  /-- The AES master key. -/
  masterKey : Bytes
  /-- The contents of the files in `KEYS_DIR`, without the suffix of their names. -/
  keyFiles : Str → Option Bytes

/-! ## The keys of a name

A name is reduced to letters, digits, `-` and `_` before anything else happens, because it becomes
part of a file name.  The key is the content of that file if it is there and has 32 bytes, and else
it is derived from the master key. -/

/-- The part of a name that a key is derived from. -/
def sanitized (L : PyLib) (username : Str) : Str :=
  match username.filter fun c ↦ L.isalnum c || c == 95 || c == 45 with
  | [] => lit "user"
  | c :: cs => c :: cs

/-- The pair that belongs to a private key. -/
def Keyring.pairOf (K : Keyring) (k : PrivateKey) : PrivateKey × PublicKey :=
  (k, K.crypto.publicKey k)

/-- The private key that belongs to a sanitised name: the one in its file, or a derived one. -/
def Keyring.keyOf (K : Keyring) (name : Str) : PrivateKey :=
  match K.keyFiles name with
  | some raw =>
    if raw.length = 32 then raw else K.crypto.hmac K.masterKey (lit "user-ed25519:" ++ name)
  | none => K.crypto.hmac K.masterKey (lit "user-ed25519:" ++ name)

/-- `_cached_sender_keys`. -/
abbrev SenderKeys := Dict Str (PrivateKey × PublicKey)

/-- `get_or_create_sender_keys`.  Only a derived pair makes the cache be flushed. -/
def getOrCreateSenderKeys (L : PyLib) (K : Keyring) (cached : SenderKeys) (username : Str) :
    (PrivateKey × PublicKey) × SenderKeys :=
  let name := sanitized L username
  match cached.get? name with
  | some pair => (pair, cached)
  | none =>
    let derived := K.pairOf (K.crypto.hmac K.masterKey (lit "user-ed25519:" ++ name))
    let flushed := if 10000 < cached.keys.length then Dict.empty else cached
    match K.keyFiles name with
    | some raw =>
      if raw.length = 32 then (K.pairOf raw, cached.set name (K.pairOf raw))
      else (derived, flushed.set name derived)
    | none => (derived, flushed.set name derived)

/-- The cache holds the pairs of the names it holds. -/
def SenderKeys.Sound (K : Keyring) (cached : SenderKeys) : Prop :=
  ∀ name pair, cached.get? name = some pair → pair = K.pairOf (K.keyOf name)

section SenderKeys

variable {L : PyLib} {K : Keyring} {cached : SenderKeys}

/-- An empty cache holds nothing wrong. -/
theorem SenderKeys.sound_empty : SenderKeys.Sound K Dict.empty := fun _ _ h ↦ by simp at h

/-- A pair is entered under the name that it was derived from. -/
theorem SenderKeys.Sound.set (h : SenderKeys.Sound K cached) (name : Str) :
    SenderKeys.Sound K (cached.set name (K.pairOf (K.keyOf name))) := by
  intro name' pair hget
  rw [Dict.get?_set] at hget
  split at hget
  · rename_i heq
    rw [← Option.some.inj hget, heq]
  · exact h name' pair hget

/-- The three ways through the function — the cache, the file and the derivation — lead to the
same pair. -/
theorem getOrCreateSenderKeys_spec (h : SenderKeys.Sound K cached) (username : Str) :
    (getOrCreateSenderKeys L K cached username).1 = K.pairOf (K.keyOf (sanitized L username)) ∧
      SenderKeys.Sound K (getOrCreateSenderKeys L K cached username).2 := by
  have hflushed : SenderKeys.Sound K
      (if 10000 < cached.keys.length then Dict.empty else cached) := by
    split
    · exact SenderKeys.sound_empty
    · exact h
  rw [getOrCreateSenderKeys]
  simp only
  split
  · rename_i pair hget
    exact ⟨h _ _ hget, h⟩
  · split
    · rename_i raw hfile
      split
      · rename_i hlen
        have hkey : K.keyOf (sanitized L username) = raw := by
          rw [Keyring.keyOf, hfile]
          exact if_pos hlen
        exact ⟨by rw [hkey], hkey ▸ h.set _⟩
      · rename_i hlen
        have hkey : K.keyOf (sanitized L username) =
            K.crypto.hmac K.masterKey (lit "user-ed25519:" ++ sanitized L username) := by
          rw [Keyring.keyOf, hfile]
          exact if_neg hlen
        exact ⟨by rw [hkey], hkey ▸ hflushed.set _⟩
    · rename_i hfile
      have hkey : K.keyOf (sanitized L username) =
          K.crypto.hmac K.masterKey (lit "user-ed25519:" ++ sanitized L username) := by
        rw [Keyring.keyOf, hfile]
      exact ⟨by rw [hkey], hkey ▸ hflushed.set _⟩

/-- **The pair of a name depends on nothing but its sanitised form.** -/
theorem getOrCreateSenderKeys_fst (h : SenderKeys.Sound K cached) (username : Str) :
    (getOrCreateSenderKeys L K cached username).1 = K.pairOf (K.keyOf (sanitized L username)) :=
  (getOrCreateSenderKeys_spec h username).1

/-- The cache is as sound afterwards as before. -/
theorem getOrCreateSenderKeys_sound (h : SenderKeys.Sound K cached) (username : Str) :
    SenderKeys.Sound K (getOrCreateSenderKeys L K cached username).2 :=
  (getOrCreateSenderKeys_spec h username).2

end SenderKeys

/-! ## Hexadecimal text

Keys, nonces and signatures are stored and sent as hexadecimal text.  `bytes.fromhex` reads more
than `bytes.hex` writes: capital digits, and white space between two bytes. -/

/-- `b.hex()`. -/
def hex (b : Bytes) : Str := b.flatMap fun x ↦ [hexDigit (x.toNat / 16), hexDigit (x.toNat % 16)]

/-- The white space that `bytes.fromhex` skips. -/
def isHexSpace (c : ℕ) : Bool := (9 ≤ c && c ≤ 13) || c == 32

/-- `bytes.fromhex(s)`; `none` where it raises.  White space may stand between two bytes. -/
def fromHex : Str → Option Bytes
  | [] => some []
  | [c] => if isHexSpace c then some [] else none
  | c :: d :: s =>
    if isHexSpace c then fromHex (d :: s)
    else
      match hexVal c, hexVal d with
      | some x, some y => (fromHex s).map (.ofNat (16 * x + y) :: ·)
      | _, _ => none

/-- `_to_bytes`, of a string. -/
def toBytes (s : Str) : Except PyError Bytes :=
  match fromHex s with
  | some b => .ok b
  | none => utf8 s

/-- A digit that was written is read as itself, and is not white space. -/
theorem hexDigit_spec :
    ∀ n < 16, isHexSpace (hexDigit n) = false ∧ hexVal (hexDigit n) = some n := by
  decide

/-- **What was stored as hexadecimal text is read back.** -/
theorem fromHex_hex (b : Bytes) : fromHex (hex b) = some b := by
  induction b with
  | nil => rfl
  | cons x b ih =>
    have hx : x.toNat < 256 := x.toNat_lt
    obtain ⟨hspace, hhigh⟩ := hexDigit_spec (x.toNat / 16) (by omega)
    obtain ⟨-, hlow⟩ := hexDigit_spec (x.toNat % 16) (Nat.mod_lt _ (by decide))
    have hcons : hex (x :: b) = hexDigit (x.toNat / 16) :: hexDigit (x.toNat % 16) :: hex b := rfl
    rw [hcons, fromHex, hspace, hhigh, hlow, ih]
    have hval : 16 * (x.toNat / 16) + x.toNat % 16 = x.toNat := Nat.div_add_mod _ _
    simp only [Bool.false_eq_true, if_false, Option.map_some, hval,
      UInt8.ofNat_toNat]

/-- `_to_bytes` undoes `bytes.hex`. -/
theorem toBytes_hex (b : Bytes) : toBytes (hex b) = .ok b := by rw [toBytes, fromHex_hex]

/-! ## Payloads

The parts of a payload are joined by bars, with nothing that says how long a part is. -/

/-- `make_signable_payload`.  The id, the room and the time are written by an f-string. -/
def makeSignablePayload (L : PyLib) (msgId roomId : Value) (sender : Str) (timestamp : Value)
    (nonce ciphertext : Bytes) : Except PyError Bytes :=
  match utf8 (msgId.toStr L ++ lit "|" ++ roomId.toStr L ++ lit "|" ++ sender ++ lit "|" ++
    timestamp.toStr L ++ lit "|") with
  | .error e => .error e
  | .ok header => .ok (header ++ nonce ++ [124] ++ ciphertext)

end GroupChat
