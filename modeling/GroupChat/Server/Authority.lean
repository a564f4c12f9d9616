import GroupChat.Lib.Latch
import GroupChat.Server.Muted
import GroupChat.Server.Records

/-!
# The flags of a client

A record has flags that say what others have done to the client: an administrator has muted it, its
connection is to be closed.  Another one says that the client is an administrator itself, and its
name goes with that.  This file proves that the flags are an account of the run.

* `muted_iff`: a client is muted if and only if an administrator has said so and none has taken it
  back since.
* `connected_iff`: a client is served until it is kicked, a send to it fails or the server stops.
* `identity_stays`: who has joined keeps the name, the key and the role until the connection ends,
  and the role is one of the configuration.

`records_step` has the causes of every change of a record.  What is added here is the converse,
that an order which is given is carried out, and from both together an equivalence for whole runs
(`account_iff`).
-/

set_option autoImplicit false

namespace GroupChat

open Transition Relation

namespace Node

variable {env : Env} {n n' : Node} {a : Event} {id : Str} {c c' : Client}

/-! ## What edits leave alone

Most edits are about other fields.  A property that is not touched by an edit of the wrong kind is
kept by a step without an edit of the right kind. -/

theorem edits_preserve {I : Client → Prop} (h : ReflTransGen (Edit env n a id) c c')
    (hstep : ∀ c c', I c → Edit env n a id c c' → I c') (h₀ : I c) : I c' := by
  induction h with
  | refl => exact h₀
  | tail _ hedit ih => exact hstep _ _ ih hedit

/-- Only administrators mute and unmute. -/
theorem muted_of_edits (h : ReflTransGen (Edit env n a id) c c')
    (hmute : ¬ a.Moderates env n id .mute) (hunmute : ¬ a.Moderates env n id .unmute) :
    c'.muted = c.muted := by
  refine edits_preserve (I := fun c' ↦ c'.muted = c.muted) h (fun c₁ c₂ hc hedit ↦ ?_) rfl
  cases hedit with
  | muted ha => exact absurd ha hmute
  | unmuted ha => exact absurd ha hunmute
  | active | joined | moved | waiting | away | closed => exact hc

theorem connected_of_edits (h : ReflTransGen (Edit env n a id) c c')
    (hclose : ¬ a.Closes env n id) : c'.connected = c.connected := by
  refine edits_preserve (I := fun c' ↦ c'.connected = c.connected) h (fun c₁ c₂ hc hedit ↦ ?_) rfl
  cases hedit with
  | closed ha => exact absurd ha hclose
  | active | joined | moved | waiting | away | muted | unmuted => exact hc

/-! ## Orders that are carried out

An order is a frame of an administrator with the name of a target.  If the name leads to a client
then the record of this client is changed, whatever room it is in, and the administrator may give
the order to itself. -/

theorem dispatch_of_moderation {data : Obj} {now : ℤ} {uuid : Str} {action : Action}
    (h : moderation? data = some action) :
    n.dispatch env c data now uuid = some (n.handleModeration env c data action, none) := by
  rw [moderation?] at h
  split at h
  · rename_i type htype
    rw [dispatch, htype]
    split_ifs at h with hkick hmute hunmute
    · cases h
      subst hkick
      rfl
    · cases h
      subst hmute
      rfl
    · cases h
      subst hunmute
      rfl
  · simp at h

/-- What an action does to the record of its target. -/
def Action.applyTo (c : Client) : Action → Client
  | .kick => { c with connected := false }
  | .mute => { c with muted := true }
  | .unmute => { c with muted := false }

theorem clientsById_handleModeration {data : Obj} {action : Action} {moderator : Str}
    {target : Client} (hmoderator : c.username = some moderator) (hadmin : c.isAdmin = true)
    (htarget : (n.usernameToId.get? (env.lib.lower (targetName env (data.get "target")))).bind
      n.clientsById.get? = some target) :
    (n.handleModeration env c data action).clientsById =
      (n.updateClient target.id fun t ↦ action.applyTo t).clientsById := by
  rw [handleModeration, hmoderator]
  simp only
  rw [if_pos hadmin, htarget]
  cases action <;> rfl

/-- The order of an administrator is carried out on the record of the client. -/
theorem applied_of_moderates {action : Action} (hn : Housed n) (ha : a.Moderates env n id action)
    (h : n.step env a = some n') (hc' : n'.clientsById.get? id = some c') :
    ∃ c, c' = action.applyTo c := by
  obtain ⟨admin, data, now, uuid, c, target, rfl, hc, -, hadmin, hname, haction, htarget, rfl⟩ := ha
  obtain ⟨c₁, hc₁, -, -, ⟨fields, r, hdata, hr, rfl⟩ | ⟨hdata, -⟩⟩ :=
    receive_cases hn (show n.receive env admin (.dict data) now uuid = some n' from h)
  · cases hdata
    obtain rfl := Option.some.inj (hc.symm.trans hc₁)
    obtain ⟨key, hkey, htarget⟩ := Option.bind_eq_some_iff.mp htarget
    have hnames : (n.noteActivity admin c now).usernameToId = n.usernameToId :=
      (Quiet.noteActivity n admin c now).usernameToId
    have hactive : ∃ t, (n.noteActivity admin c now).clientsById.get? key = some t ∧
        t.id = target.id := by
      have hget : (n.noteActivity admin c now).clientsById.get? key =
          (n.clientsById.get? key).map fun t ↦ if key = admin then t.activeAt now else t := by
        rw [noteActivity]
        split <;> exact get?_updateClient n admin key _
      refine ⟨_, by rw [hget, htarget]; rfl, ?_⟩
      split <;> rfl
    obtain ⟨t, ht, hid⟩ := hactive
    obtain ⟨moderator, hmoderator⟩ := Option.isSome_iff_exists.mp hname
    rw [dispatch_of_moderation haction] at hr
    obtain rfl := Option.some.inj hr
    have hclients : ((n.noteActivity admin c now).handleModeration env (c.activeAt now) data
        action).clientsById =
        ((n.noteActivity admin c now).updateClient t.id fun t ↦ action.applyTo t).clientsById :=
      clientsById_handleModeration hmoderator hadmin
        (Option.bind_eq_some_iff.mpr ⟨key, hnames ▸ hkey, ht⟩)
    rw [afterHandler, hclients, hid, get?_updateClient] at hc'
    obtain ⟨c₂, -, rfl⟩ := Option.map_eq_some_iff.mp hc'
    exact ⟨c₂, if_pos rfl⟩
  · exact absurd rfl (hdata data)

/-- A client of a step that is not the one that has just connected was there before. -/
theorem edits_of_step (hn : Housed n) (h : n.step env a = some n')
    (hc' : n'.clientsById.get? id = some c') (hconnect : ¬ a.Connects id) :
    ∃ c, n.clientsById.get? id = some c ∧ ReflTransGen (Edit env n a id) c c' := by
  rcases records_step hn h hc' with ⟨queryParams, now, rfl, -, -⟩ | hold
  · exact absurd ⟨queryParams, now, rfl⟩ hconnect
  · exact hold

theorem new_of_connects (hconnect : a.Connects id) (h : n.step env a = some n')
    (hc' : n'.clientsById.get? id = some c') :
    ∃ queryParams now, c' = newClient env id queryParams now := by
  obtain ⟨queryParams, now, rfl⟩ := hconnect
  obtain ⟨-, rfl⟩ := step_connect h
  rw [get?_handleConnection, if_pos rfl] at hc'
  exact ⟨queryParams, now, (Option.some.inj hc').symm⟩

theorem get?_initial (env : Env) (id : Str) : (initial env).clientsById.get? id = none :=
  initial_of env (I := fun n ↦ n.clientsById.get? id = none) rfl fun _ _ h ↦ h

/-- What a record says is an account of the run, if the events that make it true and those that make
it false are known. -/
theorem account_iff {F : Client → Prop} {set reset : Node → Event → Prop} {l : List Event}
    (h : (system env).Trace (initial env) l n) (hc : n.clientsById.get? id = some c)
    (hset : ∀ n a n' c', Housed n → n.step env a = some n' → n'.clientsById.get? id = some c' →
      set n a → F c')
    (hreset : ∀ n a n' c', Housed n → n.step env a = some n' → n'.clientsById.get? id = some c' →
      reset n a → ¬ F c')
    (hconnect : ∀ n a, a.Connects id → set n a ∨ reset n a)
    (hkeep : ∀ n a c c', ¬ set n a → ¬ reset n a → ReflTransGen (Edit env n a id) c c' →
      (F c' ↔ F c)) :
    F c ↔ System.Latched (step env) set reset (initial env) l := by
  have hflag : (∃ c, n.clientsById.get? id = some c ∧ F c) ↔
      System.Latched (step env) set reset (initial env) l := by
    refine h.flag_iff (B := fun n ↦ ∃ c, n.clientsById.get? id = some c)
      (F := fun n ↦ ∃ c, n.clientsById.get? id = some c ∧ F c) rfl ?_ ?_ ?_ ?_ ⟨c, hc⟩
    · rintro ⟨c, hc⟩ -
      rw [get?_initial] at hc
      simp at hc
    · rintro n a n' hn hstep ⟨c', hc'⟩ ha
      exact ⟨c', hc', hset n a n' c' (housed_of_reachable hn) hstep hc' ha⟩
    · rintro n a n' hn hstep - ha ⟨c, hc, hF⟩
      exact hreset n a n' c (housed_of_reachable hn) hstep hc ha hF
    · rintro n a n' hn hstep ⟨c', hc'⟩ hs hr
      obtain ⟨c, hc, hedits⟩ := edits_of_step (housed_of_reachable hn) hstep hc'
        fun ha ↦ (hconnect n a ha).elim hs hr
      refine ⟨⟨c, hc⟩, ?_⟩
      simp only [hc, hc', Option.some.injEq, exists_eq_left', hkeep n a c c' hs hr hedits]
  simpa [hc] using hflag

/-! ## Muted clients

The flag is on if the last order about it was a mute.  Nothing reads the flag, so the theorem is
about the record and not about what the client may do; see `Server.Muted` for the latter. -/

/-- **A client is muted if and only if an administrator has muted it and none has unmuted it since**
(in the time of its connection: the id of a client is one of a connection). -/
theorem muted_iff {l : List Event} (h : (system env).Trace (initial env) l n)
    (hc : n.clientsById.get? id = some c) : c.muted = true ↔
      System.Latched (step env) (fun n a ↦ a.Moderates env n id .mute)
        (fun n a ↦ a.Moderates env n id .unmute ∨ a.Connects id) (initial env) l := by
  refine account_iff (F := fun c ↦ c.muted = true) h hc ?_ ?_ (fun _ _ ha ↦ Or.inr (Or.inr ha)) ?_
  · intro n a n' c' hn hstep hc' ha
    obtain ⟨c, rfl⟩ := applied_of_moderates hn ha hstep hc'
    rfl
  · rintro n a n' c' hn hstep hc' (ha | ha)
    · obtain ⟨c, rfl⟩ := applied_of_moderates hn ha hstep hc'
      exact Bool.false_ne_true
    · obtain ⟨queryParams, now, rfl⟩ := new_of_connects ha hstep hc'
      exact Bool.false_ne_true
  · intro n a c c' hmute hreset hedits
    rw [muted_of_edits hedits hmute fun ha ↦ hreset (Or.inl ha)]

theorem muted_muteRun : ∃ n c, (system plainEnv).Trace (initial plainEnv) muteRun n ∧
    n.clientsById.get? (lit "2") = some c ∧ c.muted = true ∧
      System.Latched (step plainEnv) (fun n a ↦ a.Moderates plainEnv n (lit "2") .mute)
        (fun n a ↦ a.Moderates plainEnv n (lit "2") .unmute ∨ a.Connects (lit "2"))
        (initial plainEnv) muteRun := by
  have hexec : (System.exec (step plainEnv) (initial plainEnv) muteRun).bind
      (fun n ↦ (n.clientsById.get? (lit "2")).map Client.muted) = some true := by
    decide +kernel
  obtain ⟨n, hn, hmap⟩ := Option.bind_eq_some_iff.mp hexec
  obtain ⟨c, hc, hmuted⟩ := Option.map_eq_some_iff.mp hmap
  have htrace : (system plainEnv).Trace (initial plainEnv) muteRun n := System.trace_of_exec hn
  exact ⟨n, c, htrace, hc, hmuted, (muted_iff htrace hc).mp hmuted⟩

/-! ## Closed connections

`connected` is cleared when a client is kicked, when a frame cannot be sent to it and when the
server stops, and is never set again.  The end of a connection removes the whole record. -/

theorem get?_closeWs_foldl (ids : List Str) : ∀ n : Node,
    (ids.foldl closeWs n).clientsById.get? id = (n.clientsById.get? id).map fun c ↦
      if id ∈ ids then { c with connected := false } else c := by
  induction ids with
  | nil => intro n; simp
  | cons i ids ih =>
    intro n
    rw [List.foldl_cons, ih, closeWs, get?_updateClient, Option.map_map]
    congr 1
    funext c
    by_cases hi : id = i <;> by_cases hids : id ∈ ids <;> simp [hi, hids]

theorem connected_of_closes (hn : Housed n) (ha : a.Closes env n id) (h : n.step env a = some n')
    (hc' : n'.clientsById.get? id = some c') : c'.connected = false := by
  rcases ha with rfl | ha | rfl
  · obtain ⟨f, -, rfl⟩ : ∃ f, (n.links id).sender = .sending f ∧
        n' = (n.closeWs id).updateLink id fun l ↦ { l with sender := .stopped } := by
      replace h : n.senderDone id false = some n' := h
      rw [senderDone] at h
      split at h
      · rename_i f hf
        exact ⟨f, hf, (Option.some.inj h).symm⟩
      · simp at h
    rw [updateLink_clientsById, closeWs, get?_updateClient] at hc'
    obtain ⟨c, -, rfl⟩ := Option.map_eq_some_iff.mp hc'
    rw [if_pos rfl]
  · obtain ⟨c, rfl⟩ := applied_of_moderates hn ha h hc'
    rfl
  · obtain rfl := Option.some.inj h
    rw [shutdown, get?_closeWs_foldl] at hc'
    obtain ⟨c, hc, rfl⟩ := Option.map_eq_some_iff.mp hc'
    rw [if_pos (Dict.mem_keys_of_get? hc)]

/-- **A client is served until it is kicked, a send to it fails or the server shuts down**, and no
longer. -/
theorem connected_iff {l : List Event} (h : (system env).Trace (initial env) l n)
    (hc : n.clientsById.get? id = some c) : c.connected = false ↔
      System.Latched (step env) (fun n a ↦ a.Closes env n id) (fun _ a ↦ a.Connects id)
        (initial env) l := by
  refine account_iff (F := fun c ↦ c.connected = false) h hc ?_ ?_ (fun _ _ ha ↦ Or.inr ha) ?_
  · exact fun n a n' c' hn hstep hc' ha ↦ connected_of_closes hn ha hstep hc'
  · intro n a n' c' hn hstep hc' ha
    obtain ⟨queryParams, now, rfl⟩ := new_of_connects ha hstep hc'
    exact fun h ↦ Bool.false_ne_true h.symm
  · intro n a c c' hclose _ hedits
    rw [connected_of_edits hedits hclose]

/-- The administrator throws the other client out. -/
def kickRun : List Event :=
  muteRun ++
    [.frame (lit "1") (.dict [("type", .str (lit "kick")), ("target", .str (lit "bob"))]) 0 []]

theorem connected_kickRun : ∃ n c, (system plainEnv).Trace (initial plainEnv) kickRun n ∧
    n.clientsById.get? (lit "2") = some c ∧ c.connected = false ∧
      System.Latched (step plainEnv) (fun n a ↦ a.Closes plainEnv n (lit "2"))
        (fun _ a ↦ a.Connects (lit "2")) (initial plainEnv) kickRun := by
  have hexec : (System.exec (step plainEnv) (initial plainEnv) kickRun).bind
      (fun n ↦ (n.clientsById.get? (lit "2")).map Client.connected) = some false := by
    decide +kernel
  obtain ⟨n, hn, hmap⟩ := Option.bind_eq_some_iff.mp hexec
  obtain ⟨c, hc, hclosed⟩ := Option.map_eq_some_iff.mp hmap
  have htrace : (system plainEnv).Trace (initial plainEnv) kickRun n := System.trace_of_exec hn
  exact ⟨n, c, htrace, hc, hclosed, (connected_iff htrace hc).mp hclosed⟩

/-! ## Administrators

The role is decided when a client joins, from the name it gets, and neither is changed before the
connection ends.  A client can join only once. -/

/-- Who has joined has a name, and is an administrator if the configuration has the name. -/
def Entitled (env : Env) (c : Client) : Prop :=
  (c.explicitlyJoined = true → c.username.isSome) ∧
    (c.isAdmin = true ↔ c.explicitlyJoined = true ∧
      ∃ u, c.username = some u ∧ env.lib.lower u ∈ env.config.adminUsernames)

theorem Edit.entitled (h : Edit env n a id c c') (hc : Entitled env c) : Entitled env c' := by
  cases h with
  | joined => exact ⟨fun _ ↦ rfl, by simp [Client.joinedAs]⟩
  | active | moved | waiting | away | closed | muted | unmuted => exact hc

/-- Administrators are those that have joined under a name of the configuration. -/
theorem entitled_of_reachable (h : (system env).Reachable n) (hc : n.clientsById.get? id = some c) :
    Entitled env c := by
  refine h.invariant_of (J := Housed)
    (I := fun n ↦ ∀ c, n.clientsById.get? id = some c → Entitled env c)
    (fun n hn ↦ housed_of_reachable hn) ?_ ?_ c hc
  · rintro n rfl c hc
    rw [get?_initial] at hc
    simp at hc
  · intro n a n' hn ih hstep c' hc'
    rcases records_step hn hstep hc' with ⟨queryParams, now, -, rfl, -⟩ | ⟨c, hc, hedits⟩
    · exact ⟨by simp [newClient], by simp [newClient]⟩
    · exact edits_preserve hedits (fun _ _ hc hedit ↦ hedit.entitled hc) (ih c hc)

/-- Two records are of the same identity: name, key and role. -/
def SameIdentity (c c' : Client) : Prop :=
  c'.explicitlyJoined = true ∧ c'.username = c.username ∧ c'.privateKey = c.privateKey ∧
    c'.isAdmin = c.isAdmin

theorem Edit.sameIdentity {c₀ : Client} (h : Edit env n a id c c') (hc : SameIdentity c₀ c) :
    SameIdentity c₀ c' := by
  cases h with
  | joined ha hnew => exact absurd hc.1 (by simp [hnew])
  | active | moved | waiting | away | closed | muted | unmuted => exact hc

/-- **Who has joined keeps name and key until the connection ends, and is an administrator all the
time if and only if the configuration has the name.** -/
theorem identity_stays {l : List Event} (hn : (system env).Reachable n)
    (h : (system env).Trace n l n') (hc : n.clientsById.get? id = some c)
    (hjoined : c.explicitlyJoined = true) (hl : ∀ a ∈ l, ¬ a.Connects id)
    (hc' : n'.clientsById.get? id = some c') :
    c'.explicitlyJoined = true ∧ c'.username = c.username ∧ c'.privateKey = c.privateKey ∧
      (c'.isAdmin = true ↔
        ∃ u, c.username = some u ∧ env.lib.lower u ∈ env.config.adminUsernames) := by
  have hsame : SameIdentity c c' := by
    refine h.induction (I := fun l n' ↦ (∀ a ∈ l, ¬ a.Connects id) →
      ∀ c', n'.clientsById.get? id = some c' → SameIdentity c c') ?_ ?_ hl c' hc'
    · intro _ c' hc'
      obtain rfl := Option.some.inj (hc.symm.trans hc')
      exact ⟨hjoined, rfl, rfl, rfl⟩
    · intro l m a m' hm ih hstep hl c' hc'
      have hhoused := housed_of_reachable (hn.run hm.run)
      obtain ⟨c₁, hc₁, hedits⟩ := edits_of_step hhoused hstep hc' (hl a (by simp))
      exact edits_preserve hedits (fun _ _ hc hedit ↦ hedit.sameIdentity hc)
        (ih (fun b hb ↦ hl b (by simp [hb])) c₁ hc₁)
  obtain ⟨hstill, husername, hkey, hadmin⟩ := hsame
  refine ⟨hstill, husername, hkey, ?_⟩
  rw [hadmin, (entitled_of_reachable hn hc).2, and_iff_right hjoined]

/-- The administrator of `muteRun`, while the other client joins and is muted. -/
theorem identity_muteRun : ∃ n n' c c' l, (system plainEnv).Reachable n ∧
    (system plainEnv).Trace n l n' ∧ n.clientsById.get? (lit "1") = some c ∧
      n'.clientsById.get? (lit "1") = some c' ∧ c'.username = c.username ∧
        (c'.isAdmin = true ↔
          ∃ u, c.username = some u ∧ asciiLib.lower u ∈ plainEnv.config.adminUsernames) := by
  have hexec : (System.exec (step plainEnv) (initial plainEnv)
      (enterRun (lit "1") (lit "admin"))).bind (fun n ↦
        (n.clientsById.get? (lit "1")).bind fun c ↦
          (System.exec (step plainEnv) n (enterRun (lit "2") (lit "Bob"))).bind fun n' ↦
            (n'.clientsById.get? (lit "1")).map fun _ ↦ c.explicitlyJoined) = some true := by
    decide +kernel
  obtain ⟨n, hn, hexec⟩ := Option.bind_eq_some_iff.mp hexec
  obtain ⟨c, hc, hexec⟩ := Option.bind_eq_some_iff.mp hexec
  obtain ⟨n', hn', hexec⟩ := Option.bind_eq_some_iff.mp hexec
  obtain ⟨c', hc', hjoined⟩ := Option.map_eq_some_iff.mp hexec
  have htrace : (system plainEnv).Trace n (enterRun (lit "2") (lit "Bob")) n' :=
    System.trace_of_exec hn'
  have hreach : (system plainEnv).Reachable n := System.reachable_of_exec rfl hn
  have hothers : ∀ a ∈ enterRun (lit "2") (lit "Bob"), ¬ a.Connects (lit "1") := by
    rintro a ha ⟨queryParams, now, rfl⟩
    simp only [enterRun, joinFrame, List.mem_cons, Event.connect.injEq, reduceCtorEq,
      List.not_mem_nil, or_false] at ha
    exact absurd ha.1 (by decide)
  obtain ⟨-, husername, -, hadmin⟩ := identity_stays hreach htrace hc hjoined hothers hc'
  exact ⟨n, n', c, c', _, hreach, htrace, hc, hc', husername, hadmin⟩

end Node
end GroupChat
