import GroupChat.Server.Authority

/-!
# Who is away

A thread of its own looks every now and then at how long each client has been idle, and marks those
that have been so for too long; the next frame of such a client takes the mark away.  The thread and
the event loop run side by side, so this is about every order of their steps.

* `lastActivity_iff`: the time in the record of a client is the time of its last frame, or that of
  its connection if it has sent none.
* `away_iff`: a client is marked if and only if the sweep has come to it when it had been idle for
  too long, and it has sent nothing since.
* `presence_exact` is both of them.
-/

set_option autoImplicit false

namespace GroupChat

open Transition Relation

namespace Node

variable {env : Env} {n n' : Node} {a : Event} {id : Str} {c c' : Client}

/-- The client shows at that time that it is there: it connects, or it sends a frame. -/
def Event.Stirs (a : Event) (id : Str) (now : ℤ) : Prop :=
  (∃ data uuid, a = .frame id data now uuid) ∨ ∃ queryParams, a = .connect id queryParams now

/-! ## What edits do to the two fields

Two fields of a record are written from two sides, and the causes of edits say which side it
was. -/

theorem lastActivity_of_edits (h : ReflTransGen (Edit env n a id) c c')
    (hstirs : ∀ now, ¬ a.Stirs id now) : c'.lastActivity = c.lastActivity := by
  refine edits_preserve (I := fun c' ↦ c'.lastActivity = c.lastActivity) h (fun _ _ hc hedit ↦ ?_)
    rfl
  cases hedit with
  | active ha => exact absurd (Or.inl ⟨_, _, ha⟩) (hstirs _)
  | joined | moved | waiting | away | closed | muted | unmuted => exact hc

theorem away_of_edits (h : ReflTransGen (Edit env n a id) c c') (hsweeps : ¬ a.Sweeps env n id)
    (hstirs : ∀ now, ¬ a.Stirs id now) : c'.away = c.away := by
  refine edits_preserve (I := fun c' ↦ c'.away = c.away) h (fun _ _ hc hedit ↦ ?_) rfl
  cases hedit with
  | active ha => exact absurd (Or.inl ⟨_, _, ha⟩) (hstirs _)
  | away ha => exact absurd ha hsweeps
  | joined | moved | waiting | closed | muted | unmuted => exact hc

/-- Who sends a frame is active, whatever else the frame does. -/
theorem active_of_frame {data : Value} {now : ℤ} {uuid : Str} (hn : Housed n)
    (h : n.receive env id data now uuid = some n') (hc' : n'.clientsById.get? id = some c') :
    c'.away = false ∧ c'.lastActivity = now := by
  obtain ⟨c, hc, hrecords⟩ := Records.receive hn h
  obtain ⟨c₁, hc₁, hedits⟩ := hrecords id c' hc'
  rw [get?_noteActivity hc] at hc₁
  obtain rfl := Option.some.inj hc₁
  refine edits_preserve (I := fun c ↦ c.away = false ∧ c.lastActivity = now) hedits
    (fun _ _ hc hedit ↦ ?_) ⟨rfl, rfl⟩
  cases hedit with
  | active ha =>
    cases ha
    exact ⟨rfl, rfl⟩
  | away ha =>
    obtain ⟨_, _, ha, -⟩ := ha
    cases ha
  | joined | moved | waiting | closed | muted | unmuted => exact hc

theorem active_of_stirs {now : ℤ} (hn : Housed n) (ha : a.Stirs id now)
    (h : n.step env a = some n') (hc' : n'.clientsById.get? id = some c') :
    c'.away = false ∧ c'.lastActivity = now := by
  rcases ha with ⟨data, uuid, rfl⟩ | ⟨queryParams, rfl⟩
  · exact active_of_frame hn h hc'
  · obtain ⟨-, rfl⟩ := step_connect h
    rw [get?_handleConnection, if_pos rfl] at hc'
    obtain rfl := Option.some.inj hc'
    exact ⟨rfl, rfl⟩

theorem away_of_sweeps (ha : a.Sweeps env n id) (h : n.step env a = some n')
    (hc' : n'.clientsById.get? id = some c') : c'.away = true := by
  obtain ⟨now, c, rfl, hc, -⟩ := ha
  cases background_outcome (show n.background env (.sweepPresence id now) = some n' from h) with
  | sweepPresence =>
    have hget := get?_updateClient n id id fun c ↦ { c with away := true }
    rw [hc, Option.map_some, if_pos rfl] at hget
    obtain rfl := Option.some.inj (hget.symm.trans hc')
    rfl

/-! ## Accounts

Each of the fields is an account of the run so far: the last event that has written it decides. -/

theorem Event.Connects.stirs (h : a.Connects id) : ∃ now, a.Stirs id now := by
  obtain ⟨queryParams, now, rfl⟩ := h
  exact ⟨now, Or.inr ⟨queryParams, rfl⟩⟩

/-- The time in a record is that of the last frame, or of the connection. -/
theorem lastActivity_iff {l : List Event} (h : (system env).Trace (initial env) l n)
    (hc : n.clientsById.get? id = some c) (now : ℤ) : c.lastActivity = now ↔
      System.Latched (step env) (fun _ a ↦ a.Stirs id now)
        (fun _ a ↦ ∃ now', now' ≠ now ∧ a.Stirs id now') (initial env) l := by
  refine account_iff (F := fun c ↦ c.lastActivity = now) h hc ?_ ?_ ?_ ?_
  · exact fun n a n' c' hn hstep hc' ha ↦ (active_of_stirs hn ha hstep hc').2
  · rintro n a n' c' hn hstep hc' ⟨now', hne, ha⟩ hnow
    exact hne ((active_of_stirs hn ha hstep hc').2.symm.trans hnow)
  · intro n a ha
    obtain ⟨now', ha⟩ := ha.stirs
    by_cases hnow : now' = now
    · exact Or.inl (hnow ▸ ha)
    · exact Or.inr ⟨now', hnow, ha⟩
  · intro n a c c' hnow hothers hedits
    rw [lastActivity_of_edits hedits]
    intro now' ha
    by_cases hne : now' = now
    · exact hnow (hne ▸ ha)
    · exact hothers ⟨now', hne, ha⟩

/-- A client is away as long as it has sent nothing since the sweep has come to it. -/
theorem away_iff {l : List Event} (h : (system env).Trace (initial env) l n)
    (hc : n.clientsById.get? id = some c) : c.away = true ↔
      System.Latched (step env) (fun n a ↦ a.Sweeps env n id)
        (fun _ a ↦ ∃ now, a.Stirs id now) (initial env) l := by
  refine account_iff (F := fun c ↦ c.away = true) h hc ?_ ?_ (fun _ _ ha ↦ Or.inr ha.stirs) ?_
  · exact fun n a n' c' _ hstep hc' ha ↦ away_of_sweeps ha hstep hc'
  · rintro n a n' c' hn hstep hc' ⟨now, ha⟩
    rw [(active_of_stirs hn ha hstep hc').1]
    exact Bool.false_ne_true
  · intro n a c c' hsweeps hstirs hedits
    rw [away_of_edits hedits hsweeps fun now ha ↦ hstirs ⟨now, ha⟩]

/-- **The record of a client tells when it has last sent something, and whether it has been found
idle since.** -/
theorem presence_exact {l : List Event} (h : (system env).Trace (initial env) l n)
    (hc : n.clientsById.get? id = some c) :
    (∀ now, c.lastActivity = now ↔ System.Latched (step env) (fun _ a ↦ a.Stirs id now)
      (fun _ a ↦ ∃ now', now' ≠ now ∧ a.Stirs id now') (initial env) l) ∧
    (c.away = true ↔ System.Latched (step env) (fun n a ↦ a.Sweeps env n id)
      (fun _ a ↦ ∃ now, a.Stirs id now) (initial env) l) :=
  ⟨lastActivity_iff h hc, away_iff h hc⟩

/-- Bob joins, and the sweep comes to him after a long time. -/
def idleRun : List Event :=
  enterRun (lit "2") (lit "Bob") ++ [.background (.sweepPresence (lit "2") 300001)]

theorem presence_idleRun : ∃ n c, (system plainEnv).Trace (initial plainEnv) idleRun n ∧
    n.clientsById.get? (lit "2") = some c ∧ c.lastActivity = 0 ∧ c.away = true ∧
      System.Latched (step plainEnv) (fun n a ↦ a.Sweeps plainEnv n (lit "2"))
        (fun _ a ↦ ∃ now, a.Stirs (lit "2") now) (initial plainEnv) idleRun := by
  have hexec : (System.exec (step plainEnv) (initial plainEnv) idleRun).bind
      (fun n ↦ (n.clientsById.get? (lit "2")).map fun c ↦ (c.lastActivity, c.away)) =
        some (0, true) := by
    decide +kernel
  obtain ⟨n, hn, hmap⟩ := Option.bind_eq_some_iff.mp hexec
  obtain ⟨c, hc, hfields⟩ := Option.map_eq_some_iff.mp hmap
  obtain ⟨hactive, haway⟩ := Prod.ext_iff.mp hfields
  have htrace : (system plainEnv).Trace (initial plainEnv) idleRun n := System.trace_of_exec hn
  exact ⟨n, c, htrace, hc, hactive, haway, (presence_exact htrace hc).2.mp haway⟩

end Node
end GroupChat
