import GroupChat.Server.Changes

/-!
# The name registry

`username_to_id` says which client a name belongs to.  Private messages, kicks and the rights of an
administrator are routed by it, so two things should hold at all times: a client that has joined is
found under its name, and what is found under a name is a client that has joined with it.  This is
`Node.Registered`; a client counts as long as it is in `clients_by_id`, that is, until its
connection has ended and `_handle_close` has run.

The registry is written by `_handle_join` alone, under a name that `_unique_username` has found to
be free, and `_handle_close` removes an entry by its name.  But a client carries the name of its
query string from the start, whether or not somebody else has joined with it.  When such a client
goes without having joined, the entry it removes belongs to somebody else.

* `registered_of_cleanEnd`: in a run in which this does not happen (`CleanEnd`), the registry is
  right in all states.
* `not_registered_bobRun` is the shortest run in which it does happen.

The proof has one lemma for each kind of change: to a new connection (`RegistryOk.connect`), a join
(`RegistryOk.enroll`) and the end of a connection (`RegistryOk.forget`); all other changes are
`SameMembers`.
-/

set_option autoImplicit false

namespace GroupChat
namespace Node

open Transition

/-- The registry and the clients that have joined belong together. -/
structure Registered (env : Env) (n : Node) : Prop where
  /-- A client that has joined is registered. -/
  registered : ∀ id c, n.clientsById.get? id = some c → c.explicitlyJoined = true →
    ∃ u, c.username = some u ∧ n.usernameToId.get? (env.lib.lower u) = some id
  /-- What is registered is a client with that name, and it has joined. -/
  points : ∀ name id, n.usernameToId.get? name = some id →
    ∃ c u, n.clientsById.get? id = some c ∧ c.explicitlyJoined = true ∧ c.username = some u ∧
      env.lib.lower u = name
  /-- No two clients have joined with the same name. -/
  unique : ∀ id id' c c' u u', n.clientsById.get? id = some c → n.clientsById.get? id' = some c' →
    c.explicitlyJoined = true → c'.explicitlyJoined = true →
    c.username = some u → c'.username = some u' → env.lib.lower u = env.lib.lower u' → id = id'
  /-- No two clients are the same administrator. -/
  admin : ∀ id id' c c' u u', n.clientsById.get? id = some c → n.clientsById.get? id' = some c' →
    c.isAdmin = true → c'.isAdmin = true →
    c.username = some u → c'.username = some u' → env.lib.lower u = env.lib.lower u' → id = id'

/-! ## The invariant

The registry goes by lower-cased names.  The invariant says for each entry whose it is, and for
each client that has joined where its entry is; it does not mention clients that have a name and
have not joined, which is where the code goes wrong. -/

/-- What the registry has to do with the identities of the clients. -/
structure RegistryOk (env : Env) (n : Node) : Prop where
  id_eq : ∀ id i, n.identities id = some i → i.id = id
  registered : ∀ id i, n.identities id = some i → i.explicitlyJoined = true →
    ∃ u, i.username = some u ∧ n.usernameToId.get? (env.lib.lower u) = some id
  points : ∀ name id, n.usernameToId.get? name = some id →
    ∃ i u, n.identities id = some i ∧ i.explicitlyJoined = true ∧ i.username = some u ∧
      env.lib.lower u = name
  admin : ∀ id i, n.identities id = some i → i.isAdmin = true → i.explicitlyJoined = true

section

variable {env : Env} {n n' : Node}

theorem RegistryOk.of_sameMembers (h : RegistryOk env n) (hs : SameMembers n n') :
    RegistryOk env n' := by
  obtain ⟨hi, hu⟩ := hs
  constructor <;> simp only [hi, hu]
  · exact h.id_eq
  · exact h.registered
  · exact h.points
  · exact h.admin

/-- The invariant is enough. -/
theorem RegistryOk.to_registered (h : RegistryOk env n) : Registered env n := by
  have hjoined : ∀ id id' c c' u u', n.clientsById.get? id = some c →
      n.clientsById.get? id' = some c' → c.explicitlyJoined = true → c'.explicitlyJoined = true →
      c.username = some u → c'.username = some u' → env.lib.lower u = env.lib.lower u' →
      id = id' := by
    intro id id' c c' u u' hc hc' hj hj' hu hu' hlower
    obtain ⟨v, hv, hget⟩ := h.registered id _ (identities_of_get? hc) hj
    obtain ⟨v', hv', hget'⟩ := h.registered id' _ (identities_of_get? hc') hj'
    obtain rfl : u = v := Option.some.inj (hu.symm.trans hv)
    obtain rfl : u' = v' := Option.some.inj (hu'.symm.trans hv')
    rw [hlower] at hget
    exact Option.some.inj (hget.symm.trans hget')
  refine ⟨fun id c hc hj ↦ h.registered id _ (identities_of_get? hc) hj, fun name id hget ↦ ?_,
    hjoined, fun id id' c c' u u' hc hc' ha ha' ↦ ?_⟩
  · obtain ⟨i, u, hi, hj, hu, hlower⟩ := h.points name id hget
    obtain ⟨c, hc, rfl⟩ := get?_of_identities hi
    exact ⟨c, u, hc, hj, hu, hlower⟩
  · exact hjoined id id' c c' u u' hc hc' (h.admin id _ (identities_of_get? hc) ha)
      (h.admin id' _ (identities_of_get? hc') ha')

/-- A new connection has not joined. -/
theorem RegistryOk.connect (h : RegistryOk env n) {id : Str} (hid : n.identities id = none)
    (queryParams : Obj) (now : ℤ) :
    RegistryOk env (n.handleConnection env id queryParams now) := by
  have hget : ∀ id' i, (n.handleConnection env id queryParams now).identities id' = some i →
      (id' = id ∧ i = ⟨id, queryName queryParams, false, false, none⟩) ∨
        n.identities id' = some i := by
    intro id' i hi
    rw [identities_handleConnection, Function.update_apply] at hi
    split at hi
    · rename_i heq
      exact Or.inl ⟨heq, (Option.some.inj hi).symm⟩
    · exact Or.inr hi
  refine ⟨fun id' i hi ↦ ?_, fun id' i hi hj ↦ ?_, fun name id' hp ↦ ?_, fun id' i hi ha ↦ ?_⟩
  · rcases hget id' i hi with ⟨rfl, rfl⟩ | hi
    · rfl
    · exact h.id_eq id' i hi
  · rcases hget id' i hi with ⟨rfl, rfl⟩ | hi
    · exact absurd hj (by simp)
    · exact h.registered id' i hi hj
  · obtain ⟨i, u, hi, hj, hu, hlower⟩ := h.points name id' hp
    refine ⟨i, u, ?_, hj, hu, hlower⟩
    rw [identities_handleConnection, Function.update_of_ne]
    · exact hi
    · rintro rfl
      exact absurd (hid.symm.trans hi) (by simp)
  · rcases hget id' i hi with ⟨rfl, rfl⟩ | hi
    · exact absurd ha (by simp)
    · exact h.admin id' i hi ha

/-- The identity that `_handle_join` gives to a client. -/
def enrolled (env : Env) (n : Node) (id username : Str) : Identity :=
  ⟨id, some username, decide (env.lib.lower username ∈ env.config.adminUsernames), true,
    some (getOrCreateSenderKeys env.lib env.keyring n.store.keys.senderKeys username).1.1⟩

/-! ## A join

A join adds an entry, under a name that was free, and gives the client this name. -/

theorem identities_enroll (env : Env) {c c' : Client} (hc : n.clientsById.get? c.id = some c')
    (hid : c'.id = c.id) (username room : Str) :
    (n.enroll env c username room).identities =
      Function.update n.identities c.id (some (enrolled env n c.id username)) := by
  funext id
  rw [identities]
  simp only [Node.enroll, spawn]
  rw [get?_updateClient, Function.update_apply, Option.map_map]
  split
  · rename_i heq
    subst heq
    rw [hc]
    simp [enrolled, Client.identity, Client.joinedAs, hid]
  · refine congrArg (Option.map · _) (funext fun c ↦ ?_)
    simp

theorem get?_usernameToId_enroll (c : Client) (username room name : Str) :
    (n.enroll env c username room).usernameToId.get? name =
      if name = env.lib.lower username then some c.id else n.usernameToId.get? name :=
  n.usernameToId.get?_set (env.lib.lower username) name c.id

/-- A client joins under a name that was free. -/
theorem RegistryOk.enroll (h : RegistryOk env n) {c c' : Client} {username : Str}
    (hc : n.clientsById.get? c.id = some c') (hjoined : c'.explicitlyJoined = false)
    (hfree : env.lib.lower username ∉ n.usernameToId.keys) (room : Str) :
    RegistryOk env (n.enroll env c username room) := by
  have hid : c'.id = c.id := h.id_eq _ _ (identities_of_get? hc)
  have hids := identities_enroll env hc hid username room
  have hget : ∀ id i, (n.enroll env c username room).identities id = some i →
      (id = c.id ∧ i = enrolled env n c.id username) ∨ (id ≠ c.id ∧ n.identities id = some i) := by
    intro id i hi
    rw [hids, Function.update_apply] at hi
    split at hi
    · rename_i heq
      exact Or.inl ⟨heq, (Option.some.inj hi).symm⟩
    · rename_i hne
      exact Or.inr ⟨hne, hi⟩
  refine ⟨fun id i hi ↦ ?_, fun id i hi hj ↦ ?_, fun name id hp ↦ ?_, fun id i hi ha ↦ ?_⟩
  · rcases hget id i hi with ⟨rfl, rfl⟩ | ⟨-, hi⟩
    · rfl
    · exact h.id_eq id i hi
  · rcases hget id i hi with ⟨rfl, rfl⟩ | ⟨-, hi⟩
    · exact ⟨username, rfl, by rw [get?_usernameToId_enroll, if_pos rfl]⟩
    · obtain ⟨u, hu, hreg⟩ := h.registered id i hi hj
      refine ⟨u, hu, ?_⟩
      rw [get?_usernameToId_enroll, if_neg]
      · exact hreg
      · intro heq
        exact hfree (heq ▸ Dict.mem_keys_of_get? hreg)
  · rw [get?_usernameToId_enroll] at hp
    split at hp
    · rename_i heq
      obtain rfl := Option.some.inj hp
      refine ⟨enrolled env n c.id username, username, ?_, rfl, rfl, heq.symm⟩
      rw [hids, Function.update_self]
    · obtain ⟨i, u, hi, hj, hu, hlower⟩ := h.points name id hp
      refine ⟨i, u, ?_, hj, hu, hlower⟩
      -- the client that joins now was not registered before
      rw [hids, Function.update_of_ne]
      · exact hi
      · rintro rfl
        obtain rfl := Option.some.inj (hi.symm.trans (identities_of_get? hc))
        exact absurd (hjoined.symm.trans hj) (by simp)
  · rcases hget id i hi with ⟨rfl, rfl⟩ | ⟨-, hi⟩
    · rfl
    · exact h.admin id i hi ha

/-! ## The end of a connection

The entry under the name of the client is removed, whoever it belongs to. -/

/-- Removing the name of the client takes no entry but its own. -/
def LeavesCleanly (env : Env) (n : Node) (c : Client) : Prop :=
  c.explicitlyJoined = true ∨
    ∀ u, c.username = some u → n.usernameToId.get? (env.lib.lower u) = none

theorem get?_unregister (n : Node) (username : Option Str) (name : Str) :
    (n.unregister env username).get? name =
      if username.map env.lib.lower = some name then none else n.usernameToId.get? name := by
  cases username with
  | none => simp [unregister]
  | some u => simp [unregister, Dict.get?_pop, eq_comm]

/-- A client goes whose name is its own. -/
theorem RegistryOk.forget (h : RegistryOk env n) {c : Client}
    (hc : n.identities c.id = some c.identity) (hclean : LeavesCleanly env n c) :
    RegistryOk env (n.forget env c) := by
  -- whoever is registered under the name of the client is the client itself
  have hname : ∀ u id, c.username = some u → n.usernameToId.get? (env.lib.lower u) = some id →
      id = c.id := by
    intro u id hu hget
    rcases hclean with hj | hnone
    · obtain ⟨v, hv, hreg⟩ := h.registered c.id _ hc hj
      obtain rfl : u = v := Option.some.inj (hu.symm.trans hv)
      exact Option.some.inj (hget.symm.trans hreg)
    · exact absurd ((hnone u hu).symm.trans hget) (by simp)
  have hids : ∀ id i, (n.forget env c).identities id = some i →
      id ≠ c.id ∧ n.identities id = some i := by
    intro id i hi
    rw [identities_forget, Function.update_apply] at hi
    split at hi
    · exact absurd hi (by simp)
    · rename_i hne
      exact ⟨hne, hi⟩
  refine ⟨fun id i hi ↦ h.id_eq id i (hids id i hi).2, fun id i hi hj ↦ ?_, fun name id hp ↦ ?_,
    fun id i hi ha ↦ h.admin id i (hids id i hi).2 ha⟩
  · obtain ⟨hne, hi⟩ := hids id i hi
    obtain ⟨u, hu, hreg⟩ := h.registered id i hi hj
    refine ⟨u, hu, ?_⟩
    rw [show (n.forget env c).usernameToId = n.unregister env c.username from rfl,
      get?_unregister, if_neg]
    · exact hreg
    · intro heq
      obtain ⟨v, hv, hlower⟩ := Option.map_eq_some_iff.mp heq
      exact hne (hname v id hv (hlower ▸ hreg))
  · rw [show (n.forget env c).usernameToId = n.unregister env c.username from rfl,
      get?_unregister] at hp
    split at hp
    · exact absurd hp (by simp)
    · rename_i hother
      obtain ⟨i, u, hi, hj, hu, hlower⟩ := h.points name id hp
      refine ⟨i, u, ?_, hj, hu, hlower⟩
      rw [identities_forget, Function.update_of_ne]
      · exact hi
      · rintro rfl
        obtain rfl := Option.some.inj (hi.symm.trans hc)
        exact hother (by rw [show c.username = some u from hu, Option.map_some, hlower])

/-! ## Steps

A step changes the identity of one client at most, and may end its connection afterwards.  Where
it ends a connection, the condition says that the entry which is removed is the client's own. -/

theorem RegistryOk.closeConnection (h : RegistryOk env n) {id : Str}
    (hclean : ∀ c, n.clientsById.get? id = some c → LeavesCleanly env n c) :
    RegistryOk env (n.closeConnection env id) := by
  rcases closeConnection_spec env n id with ⟨-, heq⟩ | ⟨c, n₁, hc, hq, hq'⟩
  · rw [heq]
    exact h
  · have hid : c.id = id := h.id_eq id _ (identities_of_get? hc)
    have hc₁ : n₁.identities c.id = some c.identity := by
      rw [hq.identities, hid]
      exact identities_of_get? hc
    have hclean₁ : LeavesCleanly env n₁ c := by
      rw [LeavesCleanly, hq.usernameToId]
      exact hclean c hc
    exact ((h.of_sameMembers hq.toSameMembers).forget hc₁ hclean₁).of_sameMembers hq'.toSameMembers

theorem RegistryOk.get?_closeConnection (h : RegistryOk env n) (id : Str) :
    (n.closeConnection env id).clientsById.get? id = none := by
  rcases closeConnection_spec env n id with ⟨hnone, heq⟩ | ⟨c, n₁, hc, -, hq⟩
  · rw [heq]
    exact hnone
  · have hid : c.id = id := h.id_eq id _ (identities_of_get? hc)
    have hgone : (n.closeConnection env id).identities id = none := by
      rw [hq.identities, identities_forget, hid, Function.update_self]
    exact Option.map_eq_none_iff.mp hgone

/-- The event is a frame with which a client joins. -/
def Event.Joins (a : Event) (id : Str) : Prop :=
  ∃ fields now uuid, a = .frame id (.dict fields) now uuid ∧
    Obj.get fields "type" = .str (lit "join")

/-- The event ends a connection. -/
def Ends (env : Env) (n : Node) (a : Event) (id : Str) : Prop :=
  ∃ n', n.step env a = some n' ∧ n'.clientsById.get? id = none

/-! ## The condition

An event ends the connection of a client if it is a disconnect, or if it makes a handler raise. -/

/-- A client whose connection ends with the event has joined, or carries no name that somebody else
has joined with. -/
def CleanEnd (env : Env) (n : Node) (a : Event) : Prop :=
  ∀ id c, n.clientsById.get? id = some c → Ends env n a id → a.Joins id ∨ LeavesCleanly env n c

/-- What handling a frame does to the registry.  If the handler raises, the client has joined, or
the handler has not changed the registry. -/
theorem Dispatched.registryOk {c : Client} {data : Obj} {now : ℤ} {uuid : Str}
    {r : Node × Option PyError} (hr : Dispatched env n c data now uuid r) (h : RegistryOk env n)
    (hc : n.clientsById.get? c.id = some c) :
    RegistryOk env r.1 ∧ (r.2 ≠ none →
      (SameMembers n r.1 ∧ data.get "type" ≠ .str (lit "join")) ∨
        ∃ i, r.1.identities c.id = some i ∧ i.explicitlyJoined = true) := by
  cases hr with
  | join type hjoin =>
    rcases handleJoin_spec hjoin with ⟨hj, hn⟩ | ⟨username, n₁, n₂, hj, hunique, hq, hq', hasks⟩
    · rw [hn]
      exact ⟨h, fun _ ↦ Or.inr ⟨c.identity, identities_of_get? hc, hj⟩⟩
    · have hfree : env.lib.lower username ∉ n₁.usernameToId.keys := by
        rw [hq.usernameToId]
        simpa using List.find?_some hunique
      obtain ⟨c', hc', hident⟩ := get?_of_identities
        ((congrFun hq.identities c.id).trans (identities_of_get? hc))
      have hid : c'.id = c.id := congrArg Identity.id hident
      have hjoined : c'.explicitlyJoined = false :=
        (congrArg Identity.explicitlyJoined hident).trans hj
      have hsame := hq'.toSameMembers.trans hasks.steady.toSameMembers
      refine ⟨((h.of_sameMembers hq.toSameMembers).enroll hc' hjoined hfree _).of_sameMembers hsame,
        fun _ ↦ Or.inr ⟨enrolled env n₁ c.id username, ?_, rfl⟩⟩
      rw [hsame.identities, identities_enroll env hc' hid, Function.update_self]
  | message type =>
    have hs : SameMembers n (n.handleMessage env c data now uuid).1 := by
      rcases handleMessage_spec env n c data now uuid with hn | ⟨s, -, hsub⟩
      · rw [hn]
        exact .refl n
      · exact hsub.sameMembers
    exact ⟨h.of_sameMembers hs, fun _ ↦ Or.inl ⟨hs, by rw [type, Ne, Value.str.injEq]; decide⟩⟩
  | privateMessage type =>
    refine ⟨h.of_sameMembers ?_, fun hraise ↦ absurd rfl hraise⟩
    rcases handlePrivateMessage_spec env n c data now uuid with hq | ⟨username, targetId, -, -, hn⟩
    · exact hq.toSameMembers
    · rw [hn]
      exact ⟨rfl, rfl⟩
  | switchRoom type =>
    have hs : SameMembers n (n.handleSwitchRoom env c (data.get "room")).1 := by
      rcases handleSwitchRoom_spec env n c (data.get "room") with hq | ⟨r, n₁, -, hq, hasks⟩
      · exact hq.toSameMembers
      · exact hq.toSameMembers.trans hasks.steady.toSameMembers
    exact ⟨h.of_sameMembers hs, fun _ ↦ Or.inl ⟨hs, by rw [type, Ne, Value.str.injEq]; decide⟩⟩
  | createRoom type =>
    have hs : SameMembers n (n.handleCreateRoom env c data).1 := by
      rcases handleCreateRoom_spec env n c data with hq | ⟨r, n₁, -, hq, hasks⟩
      · exact hq.toSameMembers
      · exact hq.toSameMembers.trans hasks.steady.toSameMembers
    exact ⟨h.of_sameMembers hs, fun _ ↦ Or.inl ⟨hs, by rw [type, Ne, Value.str.injEq]; decide⟩⟩
  | quiet hq => exact ⟨h.of_sameMembers hq.toSameMembers, fun hraise ↦ absurd rfl hraise⟩

theorem LeavesCleanly.of_same {c c' : Client} (hs : SameMembers n n')
    (hc : n.clientsById.get? c.id = some c) (hc' : n'.clientsById.get? c.id = some c')
    (h : LeavesCleanly env n c) : LeavesCleanly env n' c' := by
  have hident : c'.identity = c.identity := by
    have hids := congrFun hs.identities c.id
    rw [identities_of_get? hc, identities_of_get? hc'] at hids
    exact Option.some.inj hids
  have hjoined : c'.explicitlyJoined = c.explicitlyJoined :=
    congrArg Identity.explicitlyJoined hident
  have husername : c'.username = c.username := congrArg Identity.username hident
  rw [LeavesCleanly, hjoined, husername, hs.usernameToId]
  exact h

/-- A handler has come to its end, and has perhaps raised. -/
theorem RegistryOk.afterHandler {r : Node × Option PyError} (h : RegistryOk env r.1) {id : Str}
    (hclean : r.2 ≠ none → ∀ c, r.1.clientsById.get? id = some c → LeavesCleanly env r.1 c) :
    RegistryOk env (Node.afterHandler env id r) := by
  obtain ⟨n, e⟩ := r
  cases e with
  | none => exact h
  | some e => exact h.closeConnection (hclean (by simp))

theorem get?_afterHandler {r : Node × Option PyError} (h : RegistryOk env r.1) {id : Str}
    (hraise : r.2 ≠ none) : (Node.afterHandler env id r).clientsById.get? id = none := by
  obtain ⟨n, e⟩ := r
  cases e with
  | none => exact absurd rfl hraise
  | some e => exact h.get?_closeConnection id

/-- An event that is no join ends connections cleanly, or none. -/
theorem CleanEnd.leaves {a : Event} (hclean : CleanEnd env n a) (hstep : n.step env a = some n')
    {id : Str} (hother : ¬a.Joins id) {c : Client} (hc : n.clientsById.get? id = some c)
    (hgone : n'.clientsById.get? id = none) : LeavesCleanly env n c :=
  (hclean id c hc ⟨n', hstep, hgone⟩).resolve_left hother

/-! ## Events

For a frame, the handler may change an identity and then end a connection.  Everything else does
one of the two at most. -/

theorem RegistryOk.frame {id : Str} {data : Value} {now : ℤ} {uuid : Str} (h : RegistryOk env n)
    (hstep : n.step env (.frame id data now uuid) = some n')
    (hclean : CleanEnd env n (.frame id data now uuid)) : RegistryOk env n' := by
  obtain ⟨c, hc, -, hframe⟩ := receive_spec hstep
  obtain rfl : c.id = id := h.id_eq id _ (identities_of_get? hc)
  have hq := Quiet.noteActivity n c.id c now
  have h₁ := h.of_sameMembers hq.toSameMembers
  rcases hframe with ⟨fields, r, rfl, hr, rfl⟩ | ⟨hdata, rfl⟩
  · obtain ⟨h₂, hraise⟩ := hr.registryOk h₁ (get?_noteActivity hc now)
    refine h₂.afterHandler fun he c₂ hc₂ ↦ ?_
    rcases hraise he with ⟨hs, htype⟩ | ⟨i, hi, hj⟩
    · have hother : ¬(Event.frame c.id (.dict fields) now uuid).Joins c.id := by
        rintro ⟨fields', now', uuid', heq, htype'⟩
        injection heq with _ hfields
        injection hfields with hfields
        exact htype (hfields ▸ htype')
      have hleaves := hclean.leaves hstep hother hc (get?_afterHandler h₂ he)
      exact hleaves.of_same (hq.toSameMembers.trans hs) hc hc₂
    · obtain ⟨c₃, hc₃, rfl⟩ := get?_of_identities hi
      obtain rfl := Option.some.inj (hc₂.symm.trans hc₃)
      exact Or.inl hj
  · refine h₁.closeConnection fun c₁ hc₁ ↦ ?_
    have hother : ¬(Event.frame c.id data now uuid).Joins c.id := by
      rintro ⟨fields', now', uuid', heq, -⟩
      injection heq with _ hfields
      exact hdata fields' hfields
    have hleaves := hclean.leaves hstep hother hc (h₁.get?_closeConnection c.id)
    exact hleaves.of_same hq.toSameMembers hc hc₁

theorem RegistryOk.resume {id : Str} (h : RegistryOk env n)
    (hstep : n.step env (.resume id) = some n') (hclean : CleanEnd env n (.resume id)) :
    RegistryOk env n' := by
  have hleave : ∀ {n₁ : Node}, SameMembers n n₁ → n'.clientsById.get? id = none →
      ∀ c₁, n₁.clientsById.get? id = some c₁ → LeavesCleanly env n₁ c₁ := by
    intro n₁ hs hgone c₁ hc₁
    obtain ⟨c, hc, -⟩ := get?_of_identities
      ((congrFun hs.identities id).symm.trans (identities_of_get? hc₁))
    obtain rfl : c.id = id := h.id_eq id _ (identities_of_get? hc)
    have hother : ¬(Event.resume c.id).Joins c.id := by
      rintro ⟨fields', now', uuid', heq, -⟩
      exact absurd heq (by simp)
    exact (hclean.leaves hstep hother hc hgone).of_same hs hc hc₁
  obtain ⟨n₁, hq, rfl | ⟨w, history, r, -, -, htell, rfl⟩⟩ := resume_spec hstep
  · have h₁ := h.of_sameMembers hq.toSameMembers
    exact h₁.closeConnection (hleave hq.toSameMembers (h₁.get?_closeConnection id))
  · have hs := hq.toSameMembers.trans htell.steady.toSameMembers
    have h₁ := h.of_sameMembers hs
    exact h₁.afterHandler fun he ↦ hleave hs (get?_afterHandler h₁ he)

/-- **The step lemma.** -/
theorem RegistryOk.step {a : Event} (h : RegistryOk env n) (hstep : n.step env a = some n')
    (hclean : CleanEnd env n a) : RegistryOk env n' := by
  cases a with
  | connect id queryParams now =>
    obtain ⟨hnone, rfl⟩ := step_connect hstep
    exact h.connect (Option.map_eq_none_iff.mpr hnone) queryParams now
  | frame id data now uuid => exact h.frame hstep hclean
  | fetchHistory id now docs => exact h.of_sameMembers (.fetchHistory hstep)
  | resume id => exact h.resume hstep hclean
  | disconnect id =>
    obtain ⟨c, hc, -, rfl⟩ := step_disconnect hstep
    refine h.closeConnection fun c₁ hc₁ ↦ ?_
    have hother : ¬(Event.disconnect id).Joins id := by
      rintro ⟨fields', now', uuid', heq, -⟩
      exact absurd heq (by simp)
    exact hclean.leaves hstep hother hc₁ (h.get?_closeConnection id)
  | post body query now uuid =>
    obtain rfl := Option.some.inj hstep
    rcases postMessage_spec env n body query now uuid with hn | ⟨s, -, hsub⟩
    · rw [hn]
      exact h
    · exact h.of_sameMembers hsub.sameMembers
  | gossip data now =>
    obtain rfl := Option.some.inj hstep
    exact h.of_sameMembers (.receiveGossip env n data now)
  | feed room limit now =>
    obtain rfl := Option.some.inj hstep
    cases room with
    | none => exact h.of_sameMembers ⟨rfl, rfl⟩
    | some r => exact h
  | runJob i now nonce =>
    obtain ⟨job, -, rfl⟩ := Option.map_eq_some_iff.mp hstep
    cases job with
    | append roomId msg key => exact h.of_sameMembers ⟨rfl, rfl⟩
    | saveUserPublicKey username key => exact h.of_sameMembers ⟨rfl, rfl⟩
  | warmCache now docs =>
    obtain rfl := Option.some.inj hstep
    exact h.of_sameMembers ⟨rfl, rfl⟩
  | publicKey username =>
    obtain rfl := Option.some.inj hstep
    exact h.of_sameMembers ⟨rfl, rfl⟩
  | privateKey username =>
    obtain rfl := Option.some.inj hstep
    exact h.of_sameMembers ⟨rfl, rfl⟩
  | background b => exact h.of_sameMembers (Quiet.background hstep).toSameMembers

end

theorem registryOk_initial (env : Env) : RegistryOk env (initial env) := by
  have hempty : RegistryOk env .empty := by
    constructor
    · exact fun id i hi ↦ absurd hi (by simp [identities, empty])
    · exact fun id i hi ↦ absurd hi (by simp [identities, empty])
    · exact fun name id hp ↦ absurd hp (by simp [empty])
    · exact fun id i hi ↦ absurd hi (by simp [identities, empty])
  exact hempty.of_sameMembers (Quiet.initial env).toSameMembers

/-- **The registry is right as long as every client that goes leaves cleanly.** -/
theorem registered_of_cleanEnd (env : Env) {n : Node}
    (h : ((system env).when (CleanEnd env)).Reachable n) : Registered env n := by
  have hok : RegistryOk env n := by
    refine h.invariant ?_ ?_
    · rintro n rfl
      exact registryOk_initial env
    · exact fun n a n' hok ⟨hclean, hstep⟩ ↦ hok.step hstep hclean
  exact hok.to_registered

/-! ## Two runs

In both runs somebody passes by with a name in the query; in the second one it is the name of a
client that has joined. -/

/-- Is there nobody whose name somebody else has joined with? -/
def allClean (env : Env) (n : Node) : Bool :=
  n.clientsById.values.all fun c ↦
    c.explicitlyJoined || c.username.all fun u ↦ (n.usernameToId.get? (env.lib.lower u)).isNone

theorem cleanEnd_of_allClean {env : Env} {n : Node} (h : allClean env n = true) (a : Event) :
    CleanEnd env n a := by
  intro id c hc _
  rcases Bool.or_eq_true_iff.mp (List.all_eq_true.mp h c (Dict.mem_values_of_get? hc)) with
    hj | hnone
  · exact Or.inr (Or.inl hj)
  · refine Or.inr (Or.inr fun u hu ↦ ?_)
    simpa [hu] using hnone

/-- Bob joins; somebody comes by as Carol and goes again. -/
def carolRun : List Event :=
  [.connect (lit "1") [] 0, joinFrame (lit "1") (lit "Bob"),
    .connect (lit "2") [("username", .str (lit "Carol"))] 0, .disconnect (lit "2")]

theorem registered_carolRun :
    ∃ n, ((system plainEnv).when (CleanEnd plainEnv)).Reachable n ∧
      n.usernameToId.get? (lit "bob") = some (lit "1") ∧ Registered plainEnv n := by
  have hexec : (System.exec (fun n a ↦ if allClean plainEnv n then step plainEnv n a else none)
      (initial plainEnv) carolRun).map (fun n ↦ n.usernameToId.get? (lit "bob")) =
        some (some (lit "1")) := by
    decide +kernel
  obtain ⟨n, hn, hget⟩ := Option.map_eq_some_iff.mp hexec
  have htrace : ((system plainEnv).when (CleanEnd plainEnv)).Trace (initial plainEnv) carolRun n :=
    (System.trace_when_of_exec hn).imp fun n a _ hs ↦ ⟨cleanEnd_of_allClean hs.1 a, hs.2⟩
  exact ⟨n, htrace.reachable rfl, hget, registered_of_cleanEnd plainEnv (htrace.reachable rfl)⟩

/-- Somebody comes by as Bob, Bob joins, and the first one goes again. -/
def bobRun : List Event :=
  [.connect (lit "1") [("username", .str (lit "Bob"))] 0, .connect (lit "2") [] 0,
    joinFrame (lit "2") (lit "Bob"), .disconnect (lit "1")]

/-- Bob is still there, but not registered any more. -/
theorem not_registered_bobRun :
    ∃ n, (system plainEnv).Reachable n ∧ ¬ Registered plainEnv n := by
  have hexec : (System.exec (step plainEnv) (initial plainEnv) bobRun).map (fun n ↦
      ((n.clientsById.get? (lit "2")).map fun c ↦ (c.explicitlyJoined, c.username),
        n.usernameToId.get? (lit "bob"))) = some (some (true, some (lit "Bob")), none) := by
    decide +kernel
  obtain ⟨n, hn, hval⟩ := Option.map_eq_some_iff.mp hexec
  refine ⟨n, System.reachable_of_exec rfl hn, fun hreg ↦ ?_⟩
  obtain ⟨hc, hnone⟩ := Prod.ext_iff.mp hval
  obtain ⟨c, hc, hc'⟩ := Option.map_eq_some_iff.mp hc
  obtain ⟨hj, hu⟩ := Prod.ext_iff.mp hc'
  obtain ⟨u, hu', hget⟩ := hreg.registered (lit "2") c hc hj
  obtain rfl : u = lit "Bob" := Option.some.inj (hu'.symm.trans hu)
  exact absurd (hnone.symm.trans hget) (by simp)

end Node
end GroupChat
