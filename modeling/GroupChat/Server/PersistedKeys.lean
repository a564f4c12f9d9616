import GroupChat.Server.KeyCaches
import GroupChat.Server.Signatures

/-!
# Cached keys and persisted keys

`save_user_public_key` writes a key to the collection `user_keys` unless the name is in
`_user_keys_cache`: what is cached is taken to be persisted.  But three other functions put keys
into that cache and write nothing, and `save_user_public_key` itself does so before its write, which
can fail.

A state here is a node together with the collection and the writes to it that are in progress.  The
write of a job ends some time after the job has filled the cache, with or without an exception.

* `Backed` is the condition on a step: what is put into the cache without a write is in the
  collection already, and a write that fails has not been the only one for a cached key.
* `AllBacked` is the invariant.  Every cached key is in the collection or being written, and no
  other key is being written for its name.
* `persisted_of_backed`: under the condition, the cached keys are persisted whenever no write is in
  progress.
* `not_persisted_postedRun`: one post is a run in which they are not.
-/

set_option autoImplicit false

namespace GroupChat

open Transition

namespace KeyStore

variable (L : PyLib) (K : Keyring) (ks : KeyStore)

/-! ## Calls and writes

A call puts one key into the cache at most.  Whether it also starts a write is a question of which
function it is. -/

/-- The entry of `_user_keys_cache` that a call makes. -/
def inserted : KeyCall → Option (Str × PublicKey)
  | .save username key =>
    if (ks.userKeysCache.get? (L.lower username)).isSome then none
    else some (L.lower username, key)
  | .sign sender =>
    if (ks.privKeysCache.get? (L.lower sender)).isSome then none
    else some (L.lower sender, (getOrCreateSenderKeys L K ks.senderKeys sender).1.2)
  | .lookUp username =>
    if (ks.userKeysCache.get? (L.lower username)).isSome then none
    else some (L.lower username, (getOrCreateSenderKeys L K ks.senderKeys username).1.2)
  | .lookUpPrivate username =>
    if (ks.privKeysCache.get? (L.lower username)).isSome then none
    else some (L.lower username, (getOrCreateSenderKeys L K ks.senderKeys username).1.2)

variable {L K ks}

/-- What a call does to `_user_keys_cache`: nothing, or it makes its entry in the cache or in an
empty one. -/
theorem userKeysCache_call (c : KeyCall) :
    (ks.inserted L K c = none ∧ (ks.call L K c).userKeysCache = ks.userKeysCache) ∨
      ∃ w, ks.inserted L K c = some w ∧
        ((ks.call L K c).userKeysCache = ks.userKeysCache.set w.1 w.2 ∨
          (ks.call L K c).userKeysCache = (clearAbove ks.userKeysCache).set w.1 w.2) := by
  cases c with
  | save username key =>
    rw [call, saveUserPublicKey, inserted]
    cases hget : ks.userKeysCache.get? (L.lower username) with
    | none => exact Or.inr ⟨_, rfl, Or.inl rfl⟩
    | some key' => exact Or.inl ⟨rfl, rfl⟩
  | sign sender =>
    rw [call, signingKey, inserted]
    cases hget : ks.privKeysCache.get? (L.lower sender) with
    | none => exact Or.inr ⟨_, rfl, Or.inl rfl⟩
    | some key' => exact Or.inl ⟨rfl, rfl⟩
  | lookUp username =>
    rw [call, getUserPublicKey, inserted]
    cases hget : ks.userKeysCache.get? (L.lower username) with
    | none => exact Or.inr ⟨_, rfl, Or.inr rfl⟩
    | some key' => exact Or.inl ⟨rfl, rfl⟩
  | lookUpPrivate username =>
    rw [call, getUserPrivateKey, inserted]
    cases hget : ks.privKeysCache.get? (L.lower username) with
    | none => exact Or.inr ⟨_, rfl, Or.inl rfl⟩
    | some key' => exact Or.inl ⟨rfl, rfl⟩

/-- What is cached after a call is its entry, or was cached under another name before. -/
theorem get?_call {c : KeyCall} {name : Str} {key : PublicKey}
    (h : (ks.call L K c).userKeysCache.get? name = some key) :
    ks.inserted L K c = some (name, key) ∨
      ks.userKeysCache.get? name = some key ∧ ∀ w ∈ ks.inserted L K c, w.1 ≠ name := by
  have hset : ∀ (d : Dict Str PublicKey) (w : Str × PublicKey),
      (∀ k, d.get? name = some k → ks.userKeysCache.get? name = some k) →
      (d.set w.1 w.2).get? name = some key →
      w = (name, key) ∨ ks.userKeysCache.get? name = some key ∧ w.1 ≠ name := by
    intro d w hd hw
    rw [Dict.get?_set] at hw
    split at hw
    · rename_i heq
      exact Or.inl (Prod.ext heq.symm (Option.some.inj hw))
    · rename_i hne
      exact Or.inr ⟨hd key hw, Ne.symm hne⟩
  rcases @userKeysCache_call L K ks c with ⟨hnone, hsame⟩ | ⟨w, hw, hcache⟩
  · rw [hsame] at h
    exact Or.inr ⟨h, fun w hw ↦ absurd (hnone.symm.trans hw) (by simp)⟩
  · have hcases : w = (name, key) ∨ ks.userKeysCache.get? name = some key ∧ w.1 ≠ name := by
      rcases hcache with hcache | hcache
      · rw [hcache] at h
        exact hset _ w (fun _ hk ↦ hk) h
      · rw [hcache] at h
        exact hset _ w (fun _ hk ↦ get?_of_clearAbove hk) h
    rcases hcases with rfl | ⟨hget, hne⟩
    · exact Or.inl hw
    · exact Or.inr ⟨hget, fun w' hw' ↦ Option.some.inj (hw.symm.trans hw') ▸ hne⟩

end KeyStore

/-- Does the call write its entry to the database? -/
def KeyCall.writes : KeyCall → Bool
  | .save _ _ => true
  | _ => false

/-! ## A node and the collection

A write is in progress from the step in which its job runs to an event of its own, which says
whether it has succeeded.  In between the key is cached and not stored. -/

/-- The collection `user_keys`: the `public_key` of each `username`.  Beside it the writes in
progress. -/
structure UserKeys where
  records : Str → Option Str
  writing : List (Str × PublicKey)

namespace Node

/-- The write that an event starts. -/
def Event.startsWrite (env : Env) (n : Node) (a : Event) : Option (Str × PublicKey) :=
  ((a.keyCall n).filter KeyCall.writes).bind (n.store.keys.inserted env.lib env.keyring)

/-- An event of the node, or the end of a write: of `update_one`, or of the attempt. -/
inductive KeyEvent
  | node (a : Event)
  | written (i : ℕ) (ok : Bool)

/-- One event. -/
def keyStep (env : Env) (p : Node × UserKeys) : KeyEvent → Option (Node × UserKeys)
  | .node a => (p.1.step env a).map fun n ↦
      (n, { p.2 with writing := p.2.writing ++ (a.startsWrite env p.1).toList })
  | .written i ok => p.2.writing[i]?.map fun w ↦
      (p.1, { records := if ok then Function.update p.2.records w.1 (some (hex w.2))
                         else p.2.records,
              writing := p.2.writing.eraseIdx i })

/-- A node that starts on any collection. -/
def keySystem (env : Env) : System (Node × UserKeys) KeyEvent :=
  .ofFun (fun p ↦ p.1 = initial env ∧ p.2.writing = []) (keyStep env)

/-! ## The condition and the invariant

The condition looks at the collection, as a key that is put into the cache without a write does no
harm if it is stored already. -/

/-- If no write is in progress, the keys in `_user_keys_cache` are those of the collection. -/
def Persisted (p : Node × UserKeys) : Prop :=
  p.2.writing = [] → ∀ name key, p.1.store.keys.userKeysCache.get? name = some key →
    p.2.records name = some (hex key)

/-- A key that is put into the cache is in the collection, or is written, and no other one is being
written for the name; and a write that fails is not missed. -/
def Backed (env : Env) (p : Node × UserKeys) : KeyEvent → Prop
  | .node a => ∀ c ∈ a.keyCall p.1, ∀ w ∈ p.1.store.keys.inserted env.lib env.keyring c,
      (∀ w' ∈ p.2.writing, w'.1 = w.1 → w'.2 = w.2) ∧
        (c.writes = true ∨ p.2.records w.1 = some (hex w.2) ∨ w ∈ p.2.writing)
  | .written i ok => ok = true ∨ ∀ w ∈ p.2.writing[i]?,
      w.1 ∈ p.1.store.keys.userKeysCache.keys →
        p.2.records w.1 = some (hex w.2) ∨ w ∈ p.2.writing.eraseIdx i

instance (env : Env) (p : Node × UserKeys) (e : KeyEvent) : Decidable (Backed env p e) := by
  cases e <;> unfold Backed <;> infer_instance

/-- The key of a name is in the collection or being written, and no other one is. -/
structure BackedUp (u : UserKeys) (name : Str) (key : PublicKey) : Prop where
  only : ∀ w ∈ u.writing, w.1 = name → w.2 = key
  held : u.records name = some (hex key) ∨ (name, key) ∈ u.writing

/-- The invariant. -/
def AllBacked (p : Node × UserKeys) : Prop :=
  ∀ name key, p.1.store.keys.userKeysCache.get? name = some key → BackedUp p.2 name key

theorem AllBacked.persisted {p : Node × UserKeys} (h : AllBacked p) : Persisted p := by
  intro hwriting name key hget
  rcases (h name key hget).held with hrecord | hw
  · exact hrecord
  · rw [hwriting] at hw
    exact absurd hw List.not_mem_nil

variable {env : Env}

/-! ## Writes that start and end

A write that starts is added to those in progress; one that ends has changed the collection or has
failed. -/

/-- A write that comes does not matter to the other names. -/
theorem BackedUp.append {u : UserKeys} {name : Str} {key : PublicKey} (h : BackedUp u name key)
    {o : Option (Str × PublicKey)} (ho : ∀ w ∈ o, w.1 ≠ name ∨ w.2 = key) :
    BackedUp { u with writing := u.writing ++ o.toList } name key := by
  refine ⟨fun w hw hname ↦ ?_, h.held.imp_right fun hw ↦ List.mem_append_left _ hw⟩
  rcases List.mem_append.mp hw with hw | hw
  · exact h.only w hw hname
  · rcases ho w (Option.mem_toList.mp hw) with hne | heq
    · exact absurd hname hne
    · exact heq

/-- The writes other than the one that ends are still there. -/
theorem mem_eraseIdx_of_ne {α : Type*} {l : List α} {i : ℕ} {a b : α} (ha : l[i]? = some a)
    (hb : b ∈ l) (hne : b ≠ a) : b ∈ l.eraseIdx i := by
  obtain ⟨hi, rfl⟩ := List.getElem?_eq_some_iff.mp ha
  rcases List.mem_cons.mp ((List.getElem_cons_eraseIdx_perm hi).mem_iff.mpr hb) with h | h
  · exact absurd h hne
  · exact h

theorem AllBacked.node {p : Node × UserKeys} {n : Node} {a : Event} (h : AllBacked p)
    (hbacked : Backed env p (.node a)) (hstep : p.1.step env a = some n) :
    AllBacked (n, { p.2 with writing := p.2.writing ++ (a.startsWrite env p.1).toList }) := by
  intro name key hget
  rcases keys_step hstep with ⟨c, hcall, hkeys⟩ | ⟨hcall, hderives⟩
  · simp only [hkeys] at hget
    have hstarts : a.startsWrite env p.1 =
        if c.writes then p.1.store.keys.inserted env.lib env.keyring c else none := by
      rw [Event.startsWrite, hcall, Option.filter_some]
      split <;> rfl
    rcases KeyStore.get?_call hget with hins | ⟨hold, hne⟩
    · obtain ⟨honly, hheld⟩ := hbacked c hcall _ hins
      rw [hstarts, hins]
      by_cases hw : c.writes = true
      · rw [if_pos hw]
        refine ⟨fun w hmem hname ↦ ?_, Or.inr (List.mem_append_right _ List.mem_cons_self)⟩
        rcases List.mem_append.mp hmem with hmem | hmem
        · exact honly w hmem hname
        · rw [List.mem_singleton.mp hmem]
      · rw [if_neg hw]
        have hbase : BackedUp p.2 name key := ⟨honly, hheld.resolve_left hw⟩
        exact hbase.append fun w hw ↦ absurd hw (by simp)
    · refine (h name key hold).append fun w hw ↦ Or.inl (hne w ?_)
      rw [hstarts] at hw
      split at hw
      · exact hw
      · exact absurd hw (by simp)
  · have hsame : n.store.keys.userKeysCache = p.1.store.keys.userKeysCache := by
      rcases hderives with hkeys | ⟨username, hkeys⟩ <;> rw [hkeys]
      rfl
    rw [show (n, _).1.store.keys.userKeysCache = _ from hsame] at hget
    refine (h name key hget).append fun w hw ↦ ?_
    rw [Event.startsWrite, hcall] at hw
    exact absurd hw (by simp)

theorem AllBacked.written {p : Node × UserKeys} {i : ℕ} {ok : Bool} {w : Str × PublicKey}
    (h : AllBacked p) (hbacked : Backed env p (.written i ok)) (hw : p.2.writing[i]? = some w) :
    AllBacked (p.1, { records := if ok then Function.update p.2.records w.1 (some (hex w.2))
                                 else p.2.records,
                      writing := p.2.writing.eraseIdx i }) := by
  intro name key hget
  obtain ⟨honly, hheld⟩ := h name key hget
  refine ⟨fun w' hw' ↦ honly w' (List.mem_of_mem_eraseIdx hw'), ?_⟩
  have hmem : w ∈ p.2.writing := List.mem_of_getElem? hw
  by_cases hname : w.1 = name
  · have hkey : w.2 = key := honly w hmem hname
    cases ok with
    | true =>
      refine Or.inl ?_
      simp only [if_true, ← hname, Function.update_self, hkey]
    | false =>
      have hcached : w.1 ∈ p.1.store.keys.userKeysCache.keys := by
        rw [hname]
        exact Dict.mem_keys_of_get? hget
      have hfails := (hbacked.resolve_left Bool.false_ne_true) w hw hcached
      obtain rfl : w = (name, key) := Prod.ext hname hkey
      exact hfails
  · have hne : (name, key) ≠ w := fun heq ↦ hname (heq ▸ rfl)
    refine hheld.imp (fun hrecord ↦ ?_) fun hw' ↦ mem_eraseIdx_of_ne hw hw' hne
    cases ok with
    | true =>
      simp only [if_true]
      rw [Function.update_of_ne (Ne.symm hname)]
      exact hrecord
    | false => exact hrecord

/-- **Under the condition, a cached key is a persisted key.** -/
theorem persisted_of_backed {p : Node × UserKeys}
    (h : ((keySystem env).when (Backed env)).Reachable p) : Persisted p := by
  refine AllBacked.persisted (h.invariant (I := AllBacked) ?_ ?_)
  · rintro ⟨n, u⟩ ⟨hn, -⟩ name key hget
    obtain rfl : n = initial env := hn
    rw [(Quiet.initial env).store] at hget
    exact absurd hget (by simp [empty, Store.empty, KeyStore.empty])
  · rintro p e p' hp ⟨hbacked, hstep⟩
    cases e with
    | node a =>
      obtain ⟨n, hn, rfl⟩ := Option.map_eq_some_iff.mp hstep
      exact hp.node hbacked hn
    | written i ok =>
      obtain ⟨w, hw, rfl⟩ := Option.map_eq_some_iff.mp hstep
      exact hp.written hbacked hw

/-! ## Two runs

Alice joins, or somebody posts under her name. -/

/-- A node that starts on an empty collection. -/
def freshKeys : Node × UserKeys := (initial plainEnv, ⟨fun _ ↦ none, []⟩)

/-- Alice joins, and her key is written. -/
def joinedRun : List KeyEvent :=
  [.node (.connect (lit "1") [] 0), .node (joinFrame (lit "1") (lit "alice")),
    .node (.runJob 0 0 []), .written 0 true]

theorem persisted_joinedRun : ∃ p : Node × UserKeys, p.2.writing = [] ∧
    p.1.store.keys.userKeysCache.keys = [lit "alice"] ∧ Persisted p := by
  have hexec : (System.exec
      (fun p e ↦ if Backed plainEnv p e then keyStep plainEnv p e else none) freshKeys
      joinedRun).map (fun p ↦ (p.2.writing, p.1.store.keys.userKeysCache.keys)) =
        some ([], [lit "alice"]) := by
    decide +kernel
  obtain ⟨p, hp, hproj⟩ := Option.map_eq_some_iff.mp hexec
  have hreach : ((keySystem plainEnv).when (Backed plainEnv)).Reachable p :=
    (System.trace_when_of_exec hp).reachable ⟨rfl, rfl⟩
  exact ⟨p, congrArg Prod.fst hproj, congrArg Prod.snd hproj, persisted_of_backed hreach⟩

/-- A message is posted under the name of alice and stored. -/
def postedRun : List KeyEvent := (postUnder (lit "alice")).map .node

/-- Her key is cached from then on, and nobody writes it. -/
theorem not_persisted_postedRun : ∃ p, (keySystem plainEnv).Reachable p ∧ ¬Persisted p := by
  have hexec : (System.exec (keyStep plainEnv) freshKeys postedRun).map
      (fun p ↦ (p.2.writing, p.2.records (lit "alice"), p.1.store.keys.userKeysCache.keys)) =
        some ([], none, [lit "alice"]) := by
    decide +kernel
  obtain ⟨p, hp, hproj⟩ := Option.map_eq_some_iff.mp hexec
  obtain ⟨hwriting, hrest⟩ := Prod.ext_iff.mp hproj
  obtain ⟨hrecord, hkeys⟩ := Prod.ext_iff.mp hrest
  have hmem : lit "alice" ∈ p.1.store.keys.userKeysCache.keys := by
    rw [show p.1.store.keys.userKeysCache.keys = [lit "alice"] from hkeys]
    exact List.mem_singleton_self _
  obtain ⟨key, hkey⟩ := (Dict.mem_keys_iff _).mp hmem
  refine ⟨p, System.reachable_of_exec ⟨rfl, rfl⟩ hp, fun hpersisted ↦ ?_⟩
  exact absurd ((hpersisted hwriting _ key hkey).symm.trans hrecord) (by simp)

end Node

end GroupChat
