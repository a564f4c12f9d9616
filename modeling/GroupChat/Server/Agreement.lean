import GroupChat.Server.FanOut
import GroupChat.Server.Order

/-!
# Everybody sees the messages in the same order

The messages of a node come from requests, from WebSocket frames and from gossip, and each of them
is sent to many clients, each of which has a queue of its own.  What holds them together is that a
message is broadcast at once when it is accepted.

* `Event.log` are the messages that an event accepts: the log of a run is the order in which the
  node has accepted its messages.
* `told_sublist`: what is emitted to a client is in the order of the log; and what has reached the
  WebSocket of a client that does not switch rooms as well (`sent_sublist`).
* `agreement`: two such clients see the messages that both of them see in the same order, which is
  the one of the log.
-/

set_option autoImplicit false

namespace GroupChat

open Transition

/-! ## Logs

The log of a run has the accepted messages in the order of their acceptance.  A client gets a part
of it, in the same order; and two parts of one list without repetitions have the elements that
they share in the same order. -/

/-- A part of a list without repetitions has two elements in the order of the list. -/
theorem pair_sublist_of_nodup {α : Type*} {l t : List α} (hl : l.Nodup) (ht : t.Sublist l)
    {x y : α} (hxy : [x, y].Sublist l) (hx : x ∈ t) (hy : y ∈ t) : [x, y].Sublist t := by
  induction l generalizing t with
  | nil => simp at hxy
  | cons a l ih =>
    obtain ⟨ha, hl⟩ := List.nodup_cons.mp hl
    cases hxy with
    | cons _ hxy =>
      have hne : ∀ z, z ∈ [x, y] → z ≠ a := fun z hz hza ↦ ha (hza ▸ hxy.subset hz)
      cases ht with
      | cons _ ht => exact ih hl ht hxy hx hy
      | cons_cons _ ht =>
        exact (ih hl ht hxy ((List.mem_cons.mp hx).resolve_left (hne x (by simp)))
          ((List.mem_cons.mp hy).resolve_left (hne y (by simp)))).cons a
    | cons_cons _ hyl =>
      -- the first one is the head of the list
      have hyl := List.singleton_sublist.mp hyl
      cases ht with
      | cons _ ht => exact absurd (ht.subset hx) ha
      | cons_cons _ ht =>
        have hy := (List.mem_cons.mp hy).resolve_left fun h ↦ ha (h ▸ hyl)
        exact (List.singleton_sublist.mpr hy).cons_cons x

namespace Node

variable {env : Env} {n n' : Node} {id : Str}

/-- The messages that have been emitted to a client. -/
def toldTo (n : Node) (id : Str) : List Obj := (n.links id).emitted.filterMap Frame.message?

/-- The messages that have been sent to a client. -/
def sentTo (n : Node) (id : Str) : List Obj := (n.links id).sent.filterMap Frame.message?

/-- The messages that an event accepts. -/
def Event.log (env : Env) (n : Node) (a : Event) : List Obj :=
  (a.accepts env n).map Submission.told

theorem toldTo_eq (n : Node) (id : Str) : n.toldTo id = (n.news id).filterMap Frame.message? := by
  rw [toldTo, news, List.filterMap_filter]
  congr 1
  funext f
  cases f <;> rfl

/-! ## What clients are told

A message is broadcast in the step in which it is accepted, so that no client is told of two
messages in another order than that of the log. -/

/-- What a step tells a client is part of what it adds to the log. -/
theorem told_step {a : Event} (hn : Housed n) (haway : AwayOnly n) (h : n.step env a = some n') :
    (n'.toldTo id).Sublist (n.toldTo id ++ a.log env n) := by
  by_cases hconnect : a.Connects id
  · obtain ⟨queryParams, now, rfl⟩ := hconnect
    obtain ⟨-, rfl⟩ := step_connect h
    have hnew : ((n.handleConnection env id queryParams now).links id).emitted = [] := by
      simp [handleConnection, joinRoom, Link.empty]
    rw [toldTo, hnew]
    exact List.nil_sublist _
  · have hack : (a.ackFor env id n).filterMap Frame.message? = [] := by
      rw [Event.ackFor.eq_def]
      split
      · split <;> rfl
      · rfl
    rw [toldTo_eq, toldTo_eq, news_step hn haway h hconnect, List.filterMap_append]
    refine List.Sublist.append_left ?_ _
    rw [Event.newsFor, List.filterMap_append, hack, List.append_nil, List.filterMap_map, Event.log]
    rw [show Frame.message? ∘ (fun s : Submission ↦ Frame.message s.told) = some ∘ Submission.told
      from rfl, List.filterMap_eq_map]
    exact (List.filter_sublist).map _

/-- **What a client is told** is in the order of the log. -/
theorem told_sublist {l : List Event} (h : (system env).Trace (initial env) l n) (id : Str) :
    (n.toldTo id).Sublist (System.collect (step env) (fun n a ↦ a.log env n) (initial env) l) := by
  have hnone : (initial env).toldTo id = [] :=
    initial_of env (I := fun n ↦ n.toldTo id = []) rfl fun _ _ h ↦ h
  have hsublist := h.sublist_append_collect (m := fun n ↦ n.toldTo id)
    (w := fun n a ↦ a.log env n) fun t a t' ht _ hstep ↦ by
      have hreach : (system env).Reachable t := ⟨initial env, rfl, ht⟩
      exact told_step (housed_of_reachable hreach) (awayOnly_of_reachable hreach) hstep
  rw [hnone, List.nil_append] at hsublist
  exact hsublist

/-- **What reaches a client** that does not switch rooms is in the order of the log. -/
theorem sent_sublist {l : List Event}
    (h : ((system env).when (Stays env id)).Trace (initial env) l n) :
    (n.sentTo id).Sublist (System.collect (step env) (fun n a ↦ a.log env n) (initial env) l) := by
  have hqueued : Queued id n := by
    refine (h.reachable rfl).invariant_of (J := Housed)
      (fun s hs ↦ housed_of_reachable hs.of_when) ?_ ?_
    · rintro s rfl
      exact queued_initial env id
    · exact fun s a s' hhoused hs hstep ↦ hs.step hhoused hstep.1 hstep.2
  have horder : ((n.links id).sent).Sublist (n.links id).emitted := by
    have hall := hqueued.link.order
    rw [List.append_assoc] at hall
    exact (List.sublist_append_left _ _).trans hall
  have htrace : (system env).Trace (initial env) l n := h.imp fun _ _ _ hs ↦ hs.2
  exact (horder.filterMap Frame.message?).trans (told_sublist htrace id)

/-- **Two clients agree on the order of the messages.**  If one client, which has not switched
rooms, has been sent two messages in some order, then the node has accepted them in this order, and
any other such client that has been sent both has been sent them in the same order, from wherever
they came. -/
theorem agreement {l : List Event} {id' : Str}
    (h : ((system env).when (Stays env id)).Trace (initial env) l n)
    (h' : ((system env).when (Stays env id')).Trace (initial env) l n)
    (hnodup : (System.collect (step env) (fun n a ↦ a.log env n) (initial env) l).Nodup) {x y : Obj}
    (hxy : [x, y].Sublist (n.sentTo id)) (hx : x ∈ n.sentTo id') (hy : y ∈ n.sentTo id') :
    [x, y].Sublist (System.collect (step env) (fun n a ↦ a.log env n) (initial env) l) ∧
      [x, y].Sublist (n.sentTo id') :=
  have hlog := hxy.trans (sent_sublist h)
  ⟨hlog, pair_sublist_of_nodup hnodup (sent_sublist h') hlog hx hy⟩

/-- Two subscribers are sent two messages. -/
def twoSubscribers : List Event :=
  [.connect (lit "1") [] 0, .connect (lit "2") [] 0, postEvent (lit "m1") (lit "hi"),
    postEvent (lit "m2") (lit "hello")] ++ sendNext (lit "1") ++ sendNext (lit "2") ++
      sendNext (lit "2") ++ sendNext (lit "1")

theorem agreement_twoSubscribers : ∃ n x y,
    (system plainEnv).Trace (initial plainEnv) twoSubscribers n ∧
      n.sentTo (lit "1") = [x, y] ∧
        [x, y].Sublist (System.collect (step plainEnv) (fun n a ↦ a.log plainEnv n)
          (initial plainEnv) twoSubscribers) ∧
        [x, y].Sublist (n.sentTo (lit "2")) := by
  have hstays : ∀ id ∈ [lit "1", lit "2"], (System.exec
      (fun n a ↦ if Stays plainEnv id n a then n.step plainEnv a else none)
      (initial plainEnv) twoSubscribers).isSome = true := by
    decide +kernel
  have hwhen : ∀ id ∈ [lit "1", lit "2"], ∃ n,
      ((system plainEnv).when (Stays plainEnv id)).Trace (initial plainEnv) twoSubscribers n := by
    intro id hid
    obtain ⟨n, hn⟩ := Option.isSome_iff_exists.mp (hstays id hid)
    exact ⟨n, System.trace_when_of_exec hn⟩
  obtain ⟨n, h⟩ := hwhen (lit "1") (by simp)
  obtain ⟨n', h'⟩ := hwhen (lit "2") (by simp)
  have htrace : (system plainEnv).Trace (initial plainEnv) twoSubscribers n :=
    h.imp fun _ _ _ hs ↦ hs.2
  have htrace' : (system plainEnv).Trace (initial plainEnv) twoSubscribers n' :=
    h'.imp fun _ _ _ hs ↦ hs.2
  have hexec := System.exec_of_trace htrace
  obtain rfl := Option.some.inj (hexec.symm.trans (System.exec_of_trace htrace'))
  have htwo : (System.exec (step plainEnv) (initial plainEnv) twoSubscribers).map
      (fun n ↦ (n.sentTo (lit "1")).length) = some 2 := by
    decide +kernel
  have hsame : (System.exec (step plainEnv) (initial plainEnv) twoSubscribers).map
      (fun n ↦ n.sentTo (lit "2")) = (System.exec (step plainEnv) (initial plainEnv)
        twoSubscribers).map (fun n ↦ n.sentTo (lit "1")) := by
    rfl
  rw [hexec] at htwo hsame
  obtain ⟨x, y, hxy⟩ := List.length_eq_two.mp (Option.some.inj htwo)
  have hsame : n.sentTo (lit "2") = [x, y] := (Option.some.inj hsame).trans hxy
  have hnodup : (System.collect (step plainEnv) (fun n a ↦ a.log plainEnv n) (initial plainEnv)
      twoSubscribers).Nodup := by
    refine List.Nodup.of_map (fun msg : Obj ↦ (msg.get "id").key?) ?_
    decide +kernel
  refine ⟨n, x, y, htrace, hxy, agreement h h' hnodup (hxy ▸ List.Sublist.refl _) ?_ ?_⟩
  · simp [hsame]
  · simp [hsame]

end Node
end GroupChat
