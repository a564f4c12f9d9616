import GroupChat.Server.KeyCaches
import GroupChat.Server.Signatures

/-!
# Do different users have different keys?

Who is who is decided three times.  The registry and the caches of `server/store.py` go by the
lower-cased name; `server/crypto.py` drops everything but letters, digits, `_` and `-` from a name
and keeps its case.  So two names that are different users to the registry may be one to
`server/crypto.py`: `base(1)`, which is what the second client that asks for `base` is called, has
the keys of `base1`.

* `Ledger` are the caches of a process, the clients that have joined, and the keys that have been
  used, each with the name it has been used for.  `Ledger.step` is one call.
* `Ledger.Ok`: a key that is used for a name belongs to a *spelling* of it, a name that is the same
  when lower-cased.  Whose spelling it is depends on who came first.
* `Keyring.Shared`: the sanitised names that get one key.
* `separated_iff`: two users never have a key in common if and only if no spelling of the one name
  and no spelling of the other get one key.
* `not_separated_candidate`: a name that `_unique_username` has made up never has a key of its own.
* `keys_spelling`: it is no different in the runs of a cluster.
-/

set_option autoImplicit false

namespace GroupChat

open Transition

/-! ## Names that share a key

Two sanitised names get one key if they are equal, or if their files contain the same bytes; a
derived key is different from all others by the assumption on HMAC, except for a file that happens
to contain it. -/

namespace Keyring

variable (K : Keyring)

/-- The key in the file of a sanitised name. -/
def provisioned (name : Str) : Option PrivateKey :=
  (K.keyFiles name).filter fun raw ↦ decide (raw.length = 32)

/-- The key that is derived from a sanitised name. -/
def derived (name : Str) : PrivateKey := K.crypto.hmac K.masterKey (lit "user-ed25519:" ++ name)

/-- Two sanitised names get one key: they are the same, their files have the same contents, or the
file of one of them holds the key that is derived from the other one. -/
def Shared (x y : Str) : Prop :=
  x = y ∨ (∃ raw, K.provisioned x = some raw ∧ K.provisioned y = some raw) ∨
    (K.provisioned x = some (K.derived y) ∧ K.provisioned y = none) ∨
    (K.provisioned x = none ∧ K.provisioned y = some (K.derived x))

variable {K}

theorem keyOf_eq (name : Str) : K.keyOf name = (K.provisioned name).getD (K.derived name) := by
  rw [keyOf, provisioned, derived]
  cases K.keyFiles name with
  | none => rfl
  | some raw =>
    by_cases h : raw.length = 32
    · simp [Option.filter_some, h]
    · simp [Option.filter_some, h]

/-- **The names that share a key.** -/
theorem keyOf_eq_iff (hK : Function.Injective (K.crypto.hmac K.masterKey)) {x y : Str} :
    K.keyOf x = K.keyOf y ↔ K.Shared x y := by
  have hderived : K.derived x = K.derived y ↔ x = y :=
    ⟨fun h ↦ List.append_cancel_left (hK h), fun h ↦ by rw [h]⟩
  rw [keyOf_eq, keyOf_eq, Shared]
  by_cases hxy : x = y
  · rw [hxy]
    exact iff_of_true rfl (Or.inl rfl)
  · cases hx : K.provisioned x <;> cases hy : K.provisioned y <;>
      simp [hxy, hderived, eq_comm]

end Keyring

/-! ## Calls

What needs a key is a join, a signature, or a request for somebody's public key.  A call may be
made for any name at any time, as any history of calls is allowed. -/

/-- The caches of a process, the clients that have joined with their names and keys, and the keys
that have been used with the names they have been used for. -/
structure Ledger where
  keys : KeyStore
  clients : List (Str × PrivateKey)
  used : List (Str × PrivateKey)

namespace Ledger

/-- What needs keys. -/
inductive Call
  /-- `_handle_join`. -/
  | join (username : Str)
  /-- `append_message` for one of the clients that have joined. -/
  | speak (client : ℕ)
  /-- A call that has no key yet; `append_message` is one of them. -/
  | other (c : KeyCall)

section Step

variable (L : PyLib) (K : Keyring) (s : Ledger)

/-- The key that the call signs with. -/
def usedBy : KeyCall → List (Str × PrivateKey)
  | .sign sender => [(sender, (s.keys.signingKey L K sender none).1)]
  | _ => []

/-- One call. -/
def step : Call → Option Ledger
  | .join username =>
    let (pair, cached) := getOrCreateSenderKeys L K s.keys.senderKeys username
    some
      { keys := { s.keys with senderKeys := cached }
        clients := s.clients ++ [(username, pair.1)]
        used := s.used ++ [(username, pair.1)] }
  | .speak i => s.clients[i]?.map fun c ↦
      let (key, keys) := s.keys.signingKey L K c.1 (some c.2)
      { s with keys := keys, used := s.used ++ [(c.1, key)] }
  | .other c => some { s with keys := s.keys.call L K c, used := s.used ++ s.usedBy L K c }

/-- A process that has just started. -/
def empty : Ledger := ⟨.empty, [], []⟩

/-- The calls of a process. -/
def system : System Ledger Call := .ofFun (· = empty) (step L K)

end Step

variable {L : PyLib} {K : Keyring} {s s' : Ledger}

/-- What is used for a name belongs to a spelling of it, and the key of a client to its name. -/
structure Ok (L : PyLib) (K : Keyring) (s : Ledger) : Prop where
  senderKeys : s.keys.senderKeys.Sound K
  privKeysCache : ∀ l key, s.keys.privKeysCache.get? l = some key →
    ∃ b, L.lower b = l ∧ key = keyFor L K b
  clients : ∀ p ∈ s.clients, p.2 = keyFor L K p.1
  used : ∀ p ∈ s.used, ∃ b, L.lower b = L.lower p.1 ∧ p.2 = keyFor L K b

/-! ## The caches are in order

The invariant survives each of the calls, whichever cache it finds its key in. -/

theorem ok_empty : empty.Ok L K where
  senderKeys := SenderKeys.sound_empty
  privKeysCache _ _ h := absurd h (by simp [empty, KeyStore.empty])
  clients _ h := absurd h List.not_mem_nil
  used _ h := absurd h List.not_mem_nil

theorem Ok.derive (h : s.Ok L K) (username : Str) :
    (getOrCreateSenderKeys L K s.keys.senderKeys username).1 =
      K.pairOf (keyFor L K username) :=
  getOrCreateSenderKeys_fst h.senderKeys username

/-- What is cached for a name after a key has been looked up without success. -/
theorem Ok.cached (h : s.Ok L K) (a : Str) {d : Dict Str PrivateKey}
    (hd : ∀ l key, d.get? l = some key → s.keys.privKeysCache.get? l = some key) :
    ∀ l key, (d.set (L.lower a) (keyFor L K a)).get? l = some key →
      ∃ b, L.lower b = l ∧ key = keyFor L K b := by
  intro l key hget
  rcases get?_set_cases hget with ⟨rfl, rfl⟩ | hget
  · exact ⟨a, rfl, rfl⟩
  · exact h.privKeysCache l key (hd l key hget)

/-- The key that `append_message` finds. -/
theorem Ok.signingKey (h : s.Ok L K) (a : Str) :
    ∃ b, L.lower b = L.lower a ∧ (s.keys.signingKey L K a none).1 = keyFor L K b := by
  rw [KeyStore.signingKey]
  split
  · rename_i key hget
    exact h.privKeysCache _ key hget
  · refine ⟨a, rfl, ?_⟩
    simp only [h.derive a]
    rfl

/-- The caches after a call. -/
theorem Ok.call (h : s.Ok L K) (c : KeyCall) :
    (s.keys.call L K c).senderKeys.Sound K ∧
      ∀ l key, (s.keys.call L K c).privKeysCache.get? l = some key →
        ∃ b, L.lower b = l ∧ key = keyFor L K b := by
  cases c with
  | save username key =>
    rw [KeyStore.call, KeyStore.saveUserPublicKey]
    split
    · exact ⟨h.senderKeys, h.privKeysCache⟩
    · exact ⟨h.senderKeys, h.privKeysCache⟩
  | sign a =>
    rw [KeyStore.call, KeyStore.signingKey]
    split
    · exact ⟨h.senderKeys, h.privKeysCache⟩
    · refine ⟨getOrCreateSenderKeys_sound h.senderKeys a, ?_⟩
      simp only [h.derive a]
      exact h.cached a fun _ _ hget ↦ hget
  | lookUp a =>
    rw [KeyStore.call, KeyStore.getUserPublicKey]
    split
    · exact ⟨h.senderKeys, h.privKeysCache⟩
    · exact ⟨getOrCreateSenderKeys_sound h.senderKeys a, h.privKeysCache⟩
  | lookUpPrivate a =>
    rw [KeyStore.call, KeyStore.getUserPrivateKey]
    split
    · exact ⟨h.senderKeys, h.privKeysCache⟩
    · refine ⟨getOrCreateSenderKeys_sound h.senderKeys a, ?_⟩
      simp only [h.derive a]
      exact h.cached a fun _ _ hget ↦ get?_of_clearAbove hget

/-- One more key is used. -/
theorem mem_used_append {l m : List (Str × PrivateKey)}
    (hl : ∀ p ∈ l, ∃ b, L.lower b = L.lower p.1 ∧ p.2 = keyFor L K b)
    (hm : ∀ p ∈ m, ∃ b, L.lower b = L.lower p.1 ∧ p.2 = keyFor L K b) :
    ∀ p ∈ l ++ m, ∃ b, L.lower b = L.lower p.1 ∧ p.2 = keyFor L K b := by
  intro p hp
  rcases List.mem_append.mp hp with hp | hp
  · exact hl p hp
  · exact hm p hp

/-- **The step lemma.** -/
theorem Ok.step (h : s.Ok L K) {c : Call} (hstep : s.step L K c = some s') : s'.Ok L K := by
  cases c with
  | join username =>
    obtain rfl := Option.some.inj hstep
    have hkey : (getOrCreateSenderKeys L K s.keys.senderKeys username).1.1 =
        keyFor L K username := by
      rw [h.derive username]
      rfl
    refine ⟨getOrCreateSenderKeys_sound h.senderKeys username, h.privKeysCache, fun p hp ↦ ?_,
      mem_used_append h.used fun p hp ↦ ?_⟩
    · rcases List.mem_append.mp hp with hp | hp
      · exact h.clients p hp
      · rw [List.mem_singleton.mp hp]
        exact hkey
    · rw [List.mem_singleton.mp hp]
      exact ⟨username, rfl, hkey⟩
  | speak i =>
    obtain ⟨c, hc, rfl⟩ := Option.map_eq_some_iff.mp hstep
    refine ⟨h.senderKeys, h.privKeysCache, h.clients, mem_used_append h.used fun p hp ↦ ?_⟩
    rw [List.mem_singleton.mp hp]
    exact ⟨c.1, rfl, h.clients c (List.mem_of_getElem? hc)⟩
  | other c =>
    obtain rfl := Option.some.inj hstep
    obtain ⟨hsound, hpriv⟩ := h.call c
    refine ⟨hsound, hpriv, h.clients, mem_used_append h.used fun p hp ↦ ?_⟩
    cases c with
    | sign sender =>
      rw [List.mem_singleton.mp hp]
      exact h.signingKey sender
    | save username key => exact absurd hp List.not_mem_nil
    | lookUp username => exact absurd hp List.not_mem_nil
    | lookUpPrivate username => exact absurd hp List.not_mem_nil

/-- **A key that is used for a name belongs to a spelling of it.** -/
theorem Ok.reachable (h : (system L K).Reachable s) : s.Ok L K := by
  refine h.invariant (I := Ok L K) ?_ ?_
  · rintro s rfl
    exact ok_empty
  · exact fun s c s' hs hstep ↦ hs.step hstep

/-! ## Users

If no spelling of the one name gets the same key as a spelling of the other, then the caches can
never mix them up.  If two spellings do, then a short history of calls makes them: each spelling
is used first, and its key is kept under the lower-cased name. -/

/-- No history of calls uses one key for both names. -/
def Separated (L : PyLib) (K : Keyring) (a b : Str) : Prop :=
  ∀ s : Ledger, (system L K).Reachable s →
    ∀ k k', (a, k) ∈ s.used → (b, k') ∈ s.used → k ≠ k'

theorem signingKey_of_some {ks : KeyStore} {a : Str} {key : PrivateKey}
    (h : ks.privKeysCache.get? (L.lower a) = some key) :
    ks.signingKey L K a none = (key, ks) := by
  simp only [KeyStore.signingKey, h]

theorem Ok.signingKey_of_none (h : s.Ok L K) {a : Str}
    (hget : s.keys.privKeysCache.get? (L.lower a) = none) :
    ∃ d c, s.keys.signingKey L K a none =
      (keyFor L K a, ⟨d, s.keys.privKeysCache.set (L.lower a) (keyFor L K a), c⟩) := by
  refine ⟨s.keys.userKeysCache.set (L.lower a) (K.crypto.publicKey (keyFor L K a)),
    (getOrCreateSenderKeys L K s.keys.senderKeys a).2, ?_⟩
  simp only [KeyStore.signingKey, hget, h.derive a]
  rfl

/-- Whoever signs first decides which key is used for a name. -/
theorem Ok.sign_twice (h : s.Ok L K) {a b : Str} (hlower : L.lower b = L.lower a)
    (hget : s.keys.privKeysCache.get? (L.lower a) = none) :
    ∃ t, (system L K).Run s t ∧ s.used ⊆ t.used ∧ (a, keyFor L K b) ∈ t.used ∧
      ∀ l, l ≠ L.lower a → t.keys.privKeysCache.get? l = s.keys.privKeysCache.get? l := by
  obtain ⟨d, c, hfirst⟩ := h.signingKey_of_none (a := b) (by rwa [hlower])
  set ks : KeyStore := ⟨d, s.keys.privKeysCache.set (L.lower b) (keyFor L K b), c⟩ with hks
  have hcached : ks.privKeysCache.get? (L.lower a) = some (keyFor L K b) := by
    rw [hks, hlower, Dict.get?_set, if_pos rfl]
  have hsecond : ks.signingKey L K a none = (keyFor L K b, ks) := signingKey_of_some hcached
  set s₁ : Ledger := ⟨ks, s.clients, s.used ++ [(b, keyFor L K b)]⟩ with hs₁
  set s₂ : Ledger := ⟨ks, s.clients, s₁.used ++ [(a, keyFor L K b)]⟩ with hs₂
  have hstep₁ : s.step L K (.other (.sign b)) = some s₁ := by
    simp only [Ledger.step, KeyStore.call, usedBy, hfirst, hs₁]
  have hstep₂ : s₁.step L K (.other (.sign a)) = some s₂ := by
    simp only [Ledger.step, KeyStore.call, usedBy, hs₂]
    rw [hs₁]
    simp only [hsecond]
  refine ⟨s₂, ?_, ?_, ?_, fun l hl ↦ ?_⟩
  · have hexec : System.exec (Ledger.step L K) s [.other (.sign b), .other (.sign a)] =
        some s₂ := by
      simp only [System.exec, hstep₁, Option.bind_some, hstep₂]
    exact (System.trace_of_exec hexec).run
  · exact fun p hp ↦ List.mem_append_left _ (List.mem_append_left _ hp)
  · exact List.mem_append_right _ (List.mem_singleton_self _)
  · show ks.privKeysCache.get? l = _
    rw [hks, Dict.get?_set, if_neg (by rwa [hlower])]

/-- **Two names get one key as soon as a spelling of one and a spelling of the other do.** -/
theorem not_separated_of_keyFor {a b a' b' : Str} (hab : L.lower a ≠ L.lower b)
    (ha : L.lower a' = L.lower a) (hb : L.lower b' = L.lower b)
    (h : keyFor L K a' = keyFor L K b') : ¬ Separated L K a b := by
  intro hsep
  obtain ⟨s, hs, -, hmem, hframe⟩ := ok_empty.sign_twice (L := L) (K := K) ha rfl
  have hreach : (system L K).Reachable s := (System.Reachable.of_init rfl).run hs
  have hnone : s.keys.privKeysCache.get? (L.lower b) = none := hframe _ (Ne.symm hab)
  obtain ⟨t, ht, hsub, hmem', -⟩ := (Ok.reachable hreach).sign_twice hb hnone
  exact hsep t (hreach.run ht) _ _ (hsub hmem) hmem' h

/-- **Two users never have a key in common if and only if no spelling of the one name and no
spelling of the other get one key.** -/
theorem separated_iff (hK : Function.Injective (K.crypto.hmac K.masterKey)) {a b : Str}
    (hab : L.lower a ≠ L.lower b) :
    Separated L K a b ↔ ∀ a' b', L.lower a' = L.lower a → L.lower b' = L.lower b →
      ¬ K.Shared (sanitized L a') (sanitized L b') := by
  constructor
  · intro hsep a' b' ha hb hshared
    exact not_separated_of_keyFor hab ha hb ((Keyring.keyOf_eq_iff hK).mpr hshared) hsep
  · rintro h s hs k k' hk hk' rfl
    obtain ⟨a', ha, hka⟩ := (Ok.reachable hs).used _ hk
    obtain ⟨b', hb, hkb⟩ := (Ok.reachable hs).used _ hk'
    exact h a' b' ha hb ((Keyring.keyOf_eq_iff hK).mp (hka.symm.trans hkb))

/-! ## Names without other spellings

Without key files, names share a key only if they are sanitised to the same text.  The spellings
of a name that has only letters are sanitised to texts of one length, so names of different
lengths are apart. -/

/-- What is lower case when lower-cased has been letters. -/
theorem sanitized_of_lower {a : Str} (ha : a ≠ []) (h : ∀ c ∈ asciiLib.lower a, 97 ≤ c ∧ c ≤ 122) :
    sanitized asciiLib a = a := by
  have hall : ∀ c ∈ a, (asciiLib.isalnum c || c == 95 || c == 45) = true := by
    intro c hc
    have hlower := h (if 65 ≤ c ∧ c ≤ 90 then c + 32 else c)
      (List.mem_map.mpr ⟨c, hc, rfl⟩)
    have halnum : asciiLib.isalnum c = true := by
      simp only [asciiLib, Bool.or_eq_true, Bool.and_eq_true, decide_eq_true_eq]
      split at hlower <;> omega
    rw [halnum]
    rfl
  rw [sanitized, List.filter_eq_self.mpr hall]
  cases a with
  | nil => exact absurd rfl ha
  | cons c a => rfl

theorem shared_plain_iff {x y : Str} : plainEnv.keyring.Shared x y ↔ x = y := by
  have hnone : ∀ name, plainEnv.keyring.provisioned name = none := fun _ ↦ rfl
  simp [Keyring.Shared, hnone]

/-- The spellings of a name of small letters. -/
theorem sanitized_spelling {a a' : Str} (hlower : asciiLib.lower a' = asciiLib.lower a)
    (ha : a ≠ []) (h : ∀ c ∈ asciiLib.lower a, 97 ≤ c ∧ c ≤ 122) :
    (sanitized asciiLib a').length = a.length := by
  have hlength : ∀ b, (asciiLib.lower b).length = b.length := fun b ↦ List.length_map _
  have heq : a'.length = a.length := by rw [← hlength a', hlower, hlength]
  have ha' : a' ≠ [] := by
    rintro rfl
    exact ha (List.length_eq_zero_iff.mp heq.symm)
  rw [sanitized_of_lower ha' (by rwa [hlower]), heq]

theorem separated_alice_bob :
    Separated plainEnv.lib plainEnv.keyring (lit "Alice") (lit "Bob") := by
  refine (separated_iff (ideal_plainCrypto.hmac_injective _) (by decide)).mpr ?_
  intro a' b' ha hb hshared
  have hlength := congrArg List.length (shared_plain_iff.mp hshared)
  have halice : (sanitized asciiLib a').length = 5 :=
    sanitized_spelling ha (by decide) (by decide)
  have hbob : (sanitized asciiLib b').length = 3 :=
    sanitized_spelling hb (by decide) (by decide)
  have hlib : plainEnv.lib = asciiLib := rfl
  rw [hlib, halice, hbob] at hlength
  omega

/-! ## Names that have been made up

The brackets of `base(1)` are dropped when the name is sanitised, so that `base1` has the same key
without being the same user. -/

/-- **A name that `_unique_username` has made up never has a key of its own.** -/
theorem not_separated_candidate (hopen : L.isalnum 40 = false) (hclose : L.isalnum 41 = false)
    (requested : Str) (k : ℕ)
    (h : L.lower (usernameCandidate requested (k + 1)) ≠ L.lower (requested ++ intStr (k + 1))) :
    ¬ Separated L K (usernameCandidate requested (k + 1)) (requested ++ intStr (k + 1)) := by
  refine not_separated_of_keyFor h rfl rfl ?_
  have hfilter : (usernameCandidate requested (k + 1)).filter
        (fun c ↦ L.isalnum c || c == 95 || c == 45) =
      (requested ++ intStr (k + 1)).filter fun c ↦ L.isalnum c || c == 95 || c == 45 := by
    have hparens : (lit "(").filter (fun c ↦ L.isalnum c || c == 95 || c == 45) = [] ∧
        (lit ")").filter (fun c ↦ L.isalnum c || c == 95 || c == 45) = [] := by
      simp [lit, hopen, hclose]
    simp only [usernameCandidate, List.filter_append, hparens.1, hparens.2, List.append_nil]
  rw [keyFor, keyFor, sanitized, sanitized, hfilter]

/-- Somebody joins as base, somebody else asks for that name as well, and a third client joins as
base1. -/
def baseRun : List Node.Event :=
  [.connect (lit "1") [] 0, Node.joinFrame (lit "1") (lit "base"),
    .connect (lit "2") [] 0, Node.joinFrame (lit "2") (lit "base"),
    .connect (lit "3") [] 0, Node.joinFrame (lit "3") (lit "base1")]

/-- **The second and the third client are different users with one key.** -/
theorem not_separated_base :
    plainEnv.keyring.crypto.Ideal ∧
      plainEnv.lib.lower (lit "base(1)") ≠ plainEnv.lib.lower (lit "base1") ∧
      ¬ Separated plainEnv.lib plainEnv.keyring (lit "base(1)") (lit "base1") ∧
      ∃ n, (Node.system plainEnv).Reachable n ∧ ∃ c ∈ n.clientsById.get? (lit "2"),
        ∃ c' ∈ n.clientsById.get? (lit "3"), c.username = some (lit "base(1)") ∧
          c'.username = some (lit "base1") ∧ c.privateKey.isSome = true ∧
            c.privateKey = c'.privateKey := by
  have hexec : (System.exec (Node.step plainEnv) (Node.initial plainEnv) baseRun).map (fun n ↦
      [lit "2", lit "3"].map fun id ↦ (n.clientsById.get? id).map fun c ↦
        (c.username, c.privateKey)) =
      some [some (some (lit "base(1)"), some (keyFor plainEnv.lib plainEnv.keyring (lit "base1"))),
        some (some (lit "base1"), some (keyFor plainEnv.lib plainEnv.keyring (lit "base1")))] := by
    decide +kernel
  obtain ⟨n, hn, hclients⟩ := Option.map_eq_some_iff.mp hexec
  obtain ⟨hsecond, hrest⟩ := List.cons_eq_cons.mp hclients
  obtain ⟨c, hc, hkey⟩ := Option.map_eq_some_iff.mp hsecond
  obtain ⟨c', hc', hkey'⟩ := Option.map_eq_some_iff.mp (List.head_eq_of_cons_eq hrest)
  obtain ⟨hu, hk⟩ := Prod.ext_iff.mp hkey
  obtain ⟨hu', hk'⟩ := Prod.ext_iff.mp hkey'
  have hlower : plainEnv.lib.lower (lit "base(1)") ≠ plainEnv.lib.lower (lit "base1") := by decide
  refine ⟨ideal_plainCrypto, hlower, ?_, n, (System.trace_of_exec hn).reachable rfl, c, hc, c', hc',
    hu, hu', Option.isSome_iff_exists.mpr ⟨_, hk⟩, hk.trans hk'.symm⟩
  exact not_separated_of_keyFor hlower rfl rfl rfl

end Ledger

/-! ## Clusters

The caches of a node go through the same calls, in whatever order its events make them. -/

/-- The document has been signed with the key. -/
def Doc.MadeWith (L : PyLib) (K : Keyring) (key : PrivateKey) (d : Doc) : Prop :=
  ∃ nonce id roomId text timestamp,
    makeDoc L K key nonce id roomId d.sender text timestamp = .ok d

namespace Node

/-- Clients have the keys of their names, and documents are signed with keys of spellings. -/
structure Spelled (env : Env) (n : Node) : Prop where
  held : KeysHeld env Set.univ n
  docs : ∀ d ∈ n.store.docs, ∃ b, env.lib.lower b = env.lib.lower d.sender ∧
    d.MadeWith env.lib env.keyring (keyFor env.lib env.keyring b)

theorem Spelled.step {env : Env} {n n' : Node} {a : Event} (h : Spelled env n)
    (hstep : n.step env a = some n') : Spelled env n' := by
  refine ⟨h.held.step hstep fun u _ ↦ Set.mem_univ u, fun d hd ↦ ?_⟩
  rcases mem_docs_of_step hstep hd with
    hd | ⟨room, msg, given, sender, nonce, id, text, timestamp, hjob, hsender, hdoc⟩
  · exact h.docs d hd
  · obtain ⟨hname, hgiven⟩ := h.held.jobs _ hjob sender hsender
    obtain ⟨b, -, hlower, hkey⟩ := h.held.keys.signingKey_spelling hname hgiven
    obtain ⟨-, -, rfl, -⟩ := makeDoc_spec hdoc
    rw [hkey] at hdoc
    exact ⟨b, hlower, nonce, id, room, text, timestamp, hdoc⟩

section Cluster

variable {ι : Type*} [DecidableEq ι] {L : PyLib} {K : Keyring} {configs : ι → Config}
  {s : ι → Node}

/-- **Every key that a node of a cluster has given to a client or signed a document with belongs to
a spelling of the name it was meant for.** -/
theorem keys_spelling (h : (cluster L K configs).Reachable s) (i : ι) :
    Spelled ⟨L, K, configs i⟩ (s i) := by
  refine (h.component i).invariant (I := Spelled ⟨L, K, configs i⟩) ?_ ?_
  · rintro n rfl
    refine ⟨keysHeld_initial _ Set.univ, ?_⟩
    rw [(Quiet.initial _).store]
    exact fun d hd ↦ absurd hd List.not_mem_nil
  · exact fun n a n' hn hstep ↦ hn.step hstep

/-- **Documents of users without a common key are signed with different keys**, wherever they are
stored. -/
theorem docs_apart (h : (cluster L K configs).Reachable s) {i j : ι} {d d' : Doc}
    (hd : d ∈ (s i).store.docs)
    (hd' : d' ∈ (s j).store.docs) (hlower : L.lower d.sender ≠ L.lower d'.sender)
    (hsep : Ledger.Separated L K d.sender d'.sender) :
    ∃ k k', k ≠ k' ∧ d.MadeWith L K k ∧ d'.MadeWith L K k' := by
  obtain ⟨b, hb, hmade⟩ := (keys_spelling h i).docs d hd
  obtain ⟨b', hb', hmade'⟩ := (keys_spelling h j).docs d' hd'
  refine ⟨_, _, fun heq ↦ ?_, hmade, hmade'⟩
  exact Ledger.not_separated_of_keyFor hlower hb hb' heq hsep

end Cluster

end Node
end GroupChat
