import GroupChat.Crypto

/-!
# The keys of a name on two nodes

`get_or_create_sender_keys` keeps what it has found in `_cached_sender_keys`, and the master key it
derives from is found only when it is needed first: `get_master_key` takes it from the environment,
from a file, or makes one up.

* `Machine` is what a process finds where it runs, `Process` what it keeps while it runs.
* `getMasterKey` and `senderKeys` are the two functions; both are `none` where they raise.
* `Process.Ok`: the master key that is kept is the one that is found first.  It reduces a call to
  `getOrCreateSenderKeys` over a `Keyring` (`senderKeys_eq`), whose cache is sound.
* `senderKeys_afterCalls`: so the pair of a name neither depends on the calls before it nor on
  where the master key has come from.
-/

set_option autoImplicit false

namespace GroupChat

/-! ## Processes and what they find

The environment variable and the files are read at most once, and a key that is made up is written
to the file.  A file may be missing, unreadable or too short. -/

/-- What is at a path. -/
inductive FileAt
  | missing
  /-- There is something, and opening or reading it raises. -/
  | unreadable
  | contents (raw : Bytes)
  deriving DecidableEq

/-- What can be read there. -/
def FileAt.read? : FileAt → Option Bytes
  | .contents raw => some raw
  | _ => none

/-- What a process finds where it runs. -/
structure Machine where
  /-- `os.environ.get('AES_MASTER_KEY', '')`. -/
  env : Str
  /-- `MASTER_KEY_FILE`, when the process starts. -/
  masterKeyFile : FileAt
  /-- `AESGCM.generate_key(bit_length=256)`; `none` where it cannot be written to
  `MASTER_KEY_FILE`. -/
  generated : Option Bytes
  /-- The files in `KEYS_DIR`, without the suffix of their names. -/
  keyFiles : Str → FileAt

/-- What a process keeps. -/
structure Process where
  /-- `_cached_master_key`. -/
  cachedMasterKey : Option Bytes
  /-- `MASTER_KEY_FILE`. -/
  masterKeyFile : FileAt
  /-- `_cached_sender_keys`. -/
  cachedSenderKeys : SenderKeys

namespace Machine

variable (L : PyLib) (C : Crypto) (M : Machine)

/-- A process that has just started. -/
def start : Process := ⟨none, M.masterKeyFile, Dict.empty⟩

/-- The key in the environment variable. -/
def envKey : Option Bytes :=
  if M.env.strip = [] then none
  else (fromHex M.env.strip).filter fun key ↦ decide (key.length = 32)

/-- A new key is generated and saved. -/
def generateMasterKey (p : Process) : Option (Bytes × Process) :=
  M.generated.map fun key ↦
    (key, { p with cachedMasterKey := some key, masterKeyFile := .contents key })

/-- `get_master_key`. -/
def getMasterKey (p : Process) : Option (Bytes × Process) :=
  match p.cachedMasterKey with
  | some key => some (key, p)
  | none =>
    match M.envKey with
    | some key => some (key, { p with cachedMasterKey := some key })
    | none =>
      match p.masterKeyFile with
      | .unreadable => none
      | .contents key =>
        if key.length = 32 then some (key, { p with cachedMasterKey := some key })
        else M.generateMasterKey p
      | .missing => M.generateMasterKey p

/-- The master key of a node: the one that its process finds first. -/
def masterKey : Option Bytes := (M.getMasterKey M.start).map Prod.fst

/-- The second half of `get_or_create_sender_keys`: there is no key file that could be used. -/
def deriveSenderKeys (p : Process) (name : Str) : Option ((PrivateKey × PublicKey) × Process) :=
  (M.getMasterKey p).map fun r ↦
    let key := C.hmac r.1 (lit "user-ed25519:" ++ name)
    let flushed := if 10000 < r.2.cachedSenderKeys.keys.length then Dict.empty
      else r.2.cachedSenderKeys
    ((key, C.publicKey key),
      { r.2 with cachedSenderKeys := flushed.set name (key, C.publicKey key) })

/-- `get_or_create_sender_keys`. -/
def senderKeys (p : Process) (username : Str) : Option ((PrivateKey × PublicKey) × Process) :=
  let name := sanitized L username
  match p.cachedSenderKeys.get? name with
  | some pair => some (pair, p)
  | none =>
    match M.keyFiles name with
    | .contents raw =>
      if raw.length = 32 then
        some ((raw, C.publicKey raw),
          { p with cachedSenderKeys := p.cachedSenderKeys.set name (raw, C.publicKey raw) })
      else M.deriveSenderKeys C p name
    | .unreadable => M.deriveSenderKeys C p name
    | .missing => M.deriveSenderKeys C p name

/-- The process after a call for each of the names.  A call that raises leaves it as it was. -/
def afterCalls (usernames : List Str) : Process :=
  usernames.foldl (fun p username ↦ ((M.senderKeys L C p username).map Prod.snd).getD p) M.start

/-- The pair that is returned for a name after calls for others. -/
def pairAfter (usernames : List Str) (username : Str) : Option (PrivateKey × PublicKey) :=
  (M.senderKeys L C (M.afterCalls L C usernames) username).map Prod.fst

/-- The node as its configuration. -/
def keyring (key : Bytes) : Keyring := ⟨C, key, fun name ↦ (M.keyFiles name).read?⟩

end Machine

/-! ## The master key is found once

After the first call the key is kept in a global, so that nothing that happens to the files
afterwards matters. -/

/-- The master key has been found, or nothing has changed since the process has started; what is
kept of the sender keys is sound. -/
structure Process.Ok (C : Crypto) (M : Machine) (key : Bytes) (p : Process) : Prop where
  master : p.cachedMasterKey = some key ∨
    p.cachedMasterKey = none ∧ p.masterKeyFile = M.masterKeyFile
  sound : SenderKeys.Sound (M.keyring C key) p.cachedSenderKeys

section Calls

variable {L : PyLib} {C : Crypto} {M : Machine} {key : Bytes} {p : Process}

theorem Machine.ok_start : p = M.start → Process.Ok C M key p := by
  rintro rfl
  exact ⟨Or.inr ⟨rfl, rfl⟩, SenderKeys.sound_empty⟩

/-- `get_master_key` changes nothing but what it keeps of the master key. -/
theorem Machine.getMasterKey_kept {r : Bytes × Process} (h : M.getMasterKey p = some r) :
    r.2.cachedMasterKey = some r.1 ∧ r.2.cachedSenderKeys = p.cachedSenderKeys := by
  have hgenerate : M.generateMasterKey p = some r →
      r.2.cachedMasterKey = some r.1 ∧ r.2.cachedSenderKeys = p.cachedSenderKeys := by
    intro hgen
    obtain ⟨key, -, rfl⟩ := Option.map_eq_some_iff.mp hgen
    exact ⟨rfl, rfl⟩
  unfold getMasterKey at h
  split at h
  · rename_i key hcached
    obtain rfl := Option.some.inj h
    exact ⟨hcached, rfl⟩
  · split at h
    · obtain rfl := Option.some.inj h
      exact ⟨rfl, rfl⟩
    · split at h
      · exact absurd h (by simp)
      · split at h
        · obtain rfl := Option.some.inj h
          exact ⟨rfl, rfl⟩
        · exact hgenerate h
      · exact hgenerate h

/-- What it returns depends on no sender keys. -/
theorem Machine.getMasterKey_congr {q : Process} (hcached : p.cachedMasterKey = q.cachedMasterKey)
    (hfile : p.masterKeyFile = q.masterKeyFile) :
    (M.getMasterKey p).map Prod.fst = (M.getMasterKey q).map Prod.fst := by
  have hgenerate : (M.generateMasterKey p).map Prod.fst = (M.generateMasterKey q).map Prod.fst := by
    simp [generateMasterKey, Function.comp_def]
  unfold getMasterKey
  rw [hcached, hfile]
  cases q.cachedMasterKey with
  | some key => rfl
  | none =>
    cases M.envKey with
    | some key => rfl
    | none =>
      cases q.masterKeyFile with
      | missing => exact hgenerate
      | unreadable => rfl
      | contents key =>
        by_cases hlen : key.length = 32
        · simp [hlen]
        · simpa [hlen] using hgenerate

/-- It returns the same key at every call. -/
theorem Machine.getMasterKey_of_ok (hkey : M.masterKey = some key) (h : Process.Ok C M key p) :
    ∃ p', M.getMasterKey p = some (key, p') ∧ p'.cachedMasterKey = some key ∧
      p'.cachedSenderKeys = p.cachedSenderKeys := by
  have hfound : (M.getMasterKey p).map Prod.fst = some key := by
    rcases h.master with hcached | ⟨hcached, hfile⟩
    · rw [getMasterKey, hcached]
      rfl
    · rw [← hkey, masterKey]
      exact getMasterKey_congr hcached hfile
  obtain ⟨⟨key', p'⟩, hp', rfl⟩ := Option.map_eq_some_iff.mp hfound
  obtain ⟨hmaster, hsender⟩ := getMasterKey_kept hp'
  exact ⟨p', hp', hmaster, hsender⟩

/-! ## A call, as one over a keyring

With the master key known, a call is the function of `Crypto` on the cache of the process, and
that cache is sound. -/

/-- **A call is one of a node whose master key is part of its configuration.** -/
theorem Machine.senderKeys_eq (hkey : M.masterKey = some key) (h : Process.Ok C M key p)
    (username : Str) :
    ∃ p', M.senderKeys L C p username =
        some ((getOrCreateSenderKeys L (M.keyring C key) p.cachedSenderKeys username).1, p') ∧
      (p'.cachedMasterKey = some key ∨
        p'.cachedMasterKey = none ∧ p'.masterKeyFile = M.masterKeyFile) ∧
      p'.cachedSenderKeys =
        (getOrCreateSenderKeys L (M.keyring C key) p.cachedSenderKeys username).2 := by
  have hderive : ∃ p', M.deriveSenderKeys C p (sanitized L username) =
        some ((M.keyring C key).pairOf
          (C.hmac key (lit "user-ed25519:" ++ sanitized L username)), p') ∧
      (p'.cachedMasterKey = some key ∨
        p'.cachedMasterKey = none ∧ p'.masterKeyFile = M.masterKeyFile) ∧
      p'.cachedSenderKeys =
        (if 10000 < p.cachedSenderKeys.keys.length then Dict.empty
          else p.cachedSenderKeys).set (sanitized L username)
            ((M.keyring C key).pairOf
              (C.hmac key (lit "user-ed25519:" ++ sanitized L username))) := by
    obtain ⟨p', hp', hmaster, hsender⟩ := getMasterKey_of_ok hkey h
    rw [deriveSenderKeys, hp', Option.map_some, hsender]
    exact ⟨_, rfl, Or.inl hmaster, rfl⟩
  unfold senderKeys getOrCreateSenderKeys
  simp only
  cases hget : p.cachedSenderKeys.get? (sanitized L username) with
  | some pair => exact ⟨p, rfl, h.master, rfl⟩
  | none =>
    cases hfile : M.keyFiles (sanitized L username) with
    | missing => simpa [keyring, hfile, FileAt.read?] using hderive
    | unreadable => simpa [keyring, hfile, FileAt.read?] using hderive
    | contents raw =>
      by_cases hlen : raw.length = 32
      · simp only [keyring, hfile, FileAt.read?, hlen, if_true]
        exact ⟨_, rfl, h.master, rfl⟩
      · simpa [keyring, hfile, FileAt.read?, hlen] using hderive

theorem Machine.ok_senderKeys (hkey : M.masterKey = some key) (h : Process.Ok C M key p)
    (username : Str) :
    Process.Ok C M key (((M.senderKeys L C p username).map Prod.snd).getD p) := by
  obtain ⟨p', hp', hmaster, hsender⟩ := senderKeys_eq (L := L) hkey h username
  rw [hp']
  refine ⟨hmaster, ?_⟩
  show SenderKeys.Sound (M.keyring C key) p'.cachedSenderKeys
  rw [hsender]
  exact getOrCreateSenderKeys_sound h.sound username

theorem Machine.ok_afterCalls (hkey : M.masterKey = some key) (usernames : List Str) :
    Process.Ok C M key (M.afterCalls L C usernames) := by
  rw [afterCalls]
  induction usernames using List.reverseRecOn with
  | nil => exact ok_start rfl
  | append_singleton usernames username ih =>
    rw [List.foldl_append]
    exact ok_senderKeys hkey ih username

/-- What a node that has a master key returns. -/
theorem Machine.pairAfter_eq (hkey : M.masterKey = some key) (usernames : List Str)
    (username : Str) :
    M.pairAfter L C usernames username =
      some ((M.keyring C key).pairOf ((M.keyring C key).keyOf (sanitized L username))) := by
  have hok : Process.Ok C M key (M.afterCalls L C usernames) := ok_afterCalls hkey usernames
  obtain ⟨p', hp', -⟩ := senderKeys_eq (L := L) hkey hok username
  rw [pairAfter, hp', getOrCreateSenderKeys_fst hok.sound]
  rfl

/-! ## Two nodes

The nodes may have got the same master key in different ways, and may have been asked for any
names before. -/

/-- **The keys of a name depend neither on the node nor on what it has been asked before.**  Two
nodes with one master key, wherever each of them has it from, and the same key files return one
pair, however many calls there have been on each of them: the key in the file if that holds 32
bytes, else the derived one. -/
theorem Machine.senderKeys_afterCalls {M' : Machine} (hkey : M.masterKey = some key)
    (hkey' : M'.masterKey = some key) (hfiles : M.keyFiles = M'.keyFiles)
    (usernames usernames' : List Str) (username : Str) :
    ∃ k : PrivateKey,
      M.pairAfter L C usernames username = some (k, C.publicKey k) ∧
      M'.pairAfter L C usernames' username = some (k, C.publicKey k) ∧
      (∀ raw, M.keyFiles (sanitized L username) = .contents raw → raw.length = 32 → k = raw) ∧
      ((∀ raw, M.keyFiles (sanitized L username) = .contents raw → raw.length ≠ 32) →
        k = C.hmac key (lit "user-ed25519:" ++ sanitized L username)) := by
  have hkeyring : M'.keyring C key = M.keyring C key := by rw [keyring, keyring, hfiles]
  refine ⟨(M.keyring C key).keyOf (sanitized L username), pairAfter_eq hkey _ _, ?_, ?_, ?_⟩
  · rw [pairAfter_eq hkey', hkeyring]
    rfl
  · intro raw hfile hlen
    simp [Keyring.keyOf, keyring, hfile, FileAt.read?, hlen]
  · intro hinvalid
    rw [Keyring.keyOf]
    cases hfile : M.keyFiles (sanitized L username) with
    | missing => simp [keyring, hfile, FileAt.read?]
    | unreadable => simp [keyring, hfile, FileAt.read?]
    | contents raw => simp [keyring, hfile, FileAt.read?, hinvalid raw hfile]

end Calls

/-- A node with the master key in its environment. -/
def envMachine : Machine :=
  ⟨hex (List.replicate 32 7), .missing, none,
    fun name ↦ if name = lit "ann" then .contents (List.replicate 32 1) else .unreadable⟩

/-- A node with the master key in its file. -/
def fileMachine : Machine :=
  ⟨lit "not hexadecimal", .contents (List.replicate 32 7), none,
    fun name ↦ if name = lit "ann" then .contents (List.replicate 32 1) else .unreadable⟩

theorem Machine.senderKeys_afterCalls_ann :
    ∃ k : PrivateKey,
      envMachine.pairAfter asciiLib plainCrypto [lit "bob", lit "a.n.n"] (lit "ann") =
        some (k, plainCrypto.publicKey k) ∧
      fileMachine.pairAfter asciiLib plainCrypto [] (lit "ann") =
        some (k, plainCrypto.publicKey k) ∧
      (∀ raw, envMachine.keyFiles (sanitized asciiLib (lit "ann")) = .contents raw →
        raw.length = 32 → k = raw) ∧
      ((∀ raw, envMachine.keyFiles (sanitized asciiLib (lit "ann")) = .contents raw →
        raw.length ≠ 32) →
        k = plainCrypto.hmac (List.replicate 32 7)
          (lit "user-ed25519:" ++ sanitized asciiLib (lit "ann"))) := by
  have henv : envMachine.masterKey = some (List.replicate 32 7) := by decide +kernel
  have hfile : fileMachine.masterKey = some (List.replicate 32 7) := by decide +kernel
  exact senderKeys_afterCalls henv hfile rfl _ _ _

end GroupChat
