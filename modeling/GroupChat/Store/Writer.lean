import GroupChat.Lib.Transition
import Mathlib.Data.Rat.Floor

/-!
# The batch writer

Documents reach MongoDB through `_write_queue`: `append_message` puts them there from any thread,
and one task, `_batch_writer_loop`, takes them out in batches and has each batch inserted by a
worker thread.  `shutdown_batch_writer` cancels the task and waits for it to end.

* `Writer.next` is the task one step at a time, where a step ends at an `await` or at an iteration
  of the loop that fills a batch, together with the threads that enqueue, the worker thread and
  the one shutdown.
* A cancellation is delivered at the `await` the task is suspended at (`Writer.Landing`).

Nothing is lost or written twice as long as nobody cancels (`Writer.Inv.account`).  Whether a
shutdown writes out everything depends on where its cancellation lands.  In `get` it is caught and
the queue is drained.  The `await` of the insert is outside of the `try`: there the rest of the
queue stays behind, and with it the batch itself if no worker has started on it.  And a task that
has not had its first step has no handler yet.  `Writer.flushed_iff` says that these are the only
cases: a shutdown that returns has flushed the queue if and only if its cancellation landed well
(`Writer.Safe`).
-/

set_option autoImplicit false

namespace GroupChat

open Transition

universe u

namespace Writer

/-! ## The task, step by step

A task is cancelled at an `await`, so its steps end there, and at the iterations of the loop that
fills a batch.  The executor and the threads that enqueue are events that may happen in
between. -/

/-- `maxsize` of the queue. -/
def queueSize : ℕ := 20000

/-- The insert of a batch, in the executor. -/
inductive Job
  | queued
  | running
  | done
  deriving DecidableEq

/-- Where the task stands. -/
inductive Pc (δ : Type u)
  /-- Created, without a first step so far. -/
  | fresh
  /-- Suspended in `_write_queue.get()`. -/
  | getWait
  /-- In the loop that fills the batch, up to `maxBatch` documents or 0.04 s after `start`. -/
  | fill (batch : List δ) (maxBatch : ℕ) (start : ℚ)
  /-- Suspended in the insert of the batch.  `final` marks the insert of the handler. -/
  | insert (batch : List δ) (job : Job) (final : Bool)
  | ended

/-- Where a cancellation was delivered. -/
inductive Landing
  | fresh
  | getWait
  | insert (job : Job)
  deriving DecidableEq

/-- How far the shutdown has come. -/
inductive Phase
  | running
  | waiting
  | returned
  deriving DecidableEq

/-- The queue, the task and the shutdown.  The fields below `handed` only speak about the past. -/
structure State (δ : Type u) where
  /-- `_write_queue`, oldest document first. -/
  queue : List δ
  pc : Pc δ
  phase : Phase
  /-- The batches that `_do_bulk_insert` was called with. -/
  handed : List (List δ)
  /-- The documents that were enqueued so far. -/
  enqueued : List δ
  /-- Those that were enqueued before the shutdown was called. -/
  before : List δ
  /-- The queue at the call of the shutdown. -/
  backlog : List δ
  /-- Where the cancellation was delivered. -/
  landing : Option Landing
  /-- The batch of an insert that was cancelled before a worker started on it. -/
  dropped : List δ

/-- What can happen. -/
inductive Event (δ : Type u)
  /-- A thread enqueues a document. -/
  | enqueue (d : δ)
  /-- The event loop runs the task; `now` is the clock. -/
  | run (now : ℚ)
  /-- A worker thread starts on the insert. -/
  | workerStart
  /-- It is done. -/
  | workerDone
  /-- `shutdown_batch_writer` is called. -/
  | shutdown
  /-- It returns. -/
  | finish

variable {δ : Type u}

/-- Has the task been cancelled without having noticed it yet? -/
def State.cancelling (s : State δ) : Prop := s.phase = .waiting ∧ s.landing = none

instance (s : State δ) : Decidable s.cancelling := inferInstanceAs (Decidable (_ ∧ _))

/-! ## The steps of the task

Each function is what the task does between two of its stops.  `drain` is the handler for the
cancellation. -/

/-- `_write_queue.get()` and what follows it up to the next step: the task suspends if the queue is
empty, and starts to fill a batch otherwise. -/
def get (s : State δ) (now : ℚ) : State δ :=
  match s.queue with
  | [] => { s with pc := .getWait }
  | d :: q => { s with queue := q, pc := .fill [d] (if 50 < q.length then 500 else 100) now }

/-- The handler of `CancelledError`: it drains the queue, and ends if there was nothing in it.  A
document that another thread enqueues meanwhile is drained as well. -/
def drain (s : State δ) : State δ :=
  match s.queue with
  | [] => { s with pc := .ended, landing := some .getWait }
  | d :: q => { s with queue := [], pc := .insert (d :: q) .queued true, landing := some .getWait }

/-- One iteration of the loop that fills the batch. -/
def fill (s : State δ) (batch : List δ) (maxBatch : ℕ) (start now : ℚ) : State δ :=
  if batch.length < maxBatch ∧ now - start < 4 / 100 then
    match s.queue with
    | [] => { s with pc := .insert batch .queued false }
    | d :: q => { s with queue := q, pc := .fill (batch ++ [d]) maxBatch start }
  else { s with pc := .insert batch .queued false }

/-- The event loop runs the task. -/
def run (s : State δ) (now : ℚ) : Option (State δ) :=
  match s.pc with
  | .fresh =>
    if s.cancelling then some { s with pc := .ended, landing := some .fresh } else some (get s now)
  | .getWait =>
    if s.cancelling then some (drain s)
    else if s.queue = [] then none
    else some (get s now)
  | .fill batch maxBatch start => some (fill s batch maxBatch start now)
  | .insert batch job final =>
    if s.cancelling then
      some { s with pc := .ended, landing := some (.insert job),
                    dropped := if job = .queued then batch else [] }
    else if job = .done then some (if final then { s with pc := .ended } else get s now)
    else none
  | .ended => none

/-- Is the task suspended?  Only then can anything else run on the event loop. -/
def Pc.suspended : Pc δ → Bool
  | .fresh => true
  | .getWait => true
  | .fill _ _ _ => false
  | .insert _ _ _ => true
  | .ended => false

/-- One event. -/
def next (s : State δ) : Event δ → Option (State δ)
  | .enqueue d =>
    -- a full queue raises `QueueFull`, which `append_message` swallows
    if s.queue.length < queueSize then
      some { s with queue := s.queue ++ [d], enqueued := s.enqueued ++ [d] }
    else some s
  | .run now => run s now
  | .workerStart =>
    match s.pc with
    | .insert batch .queued final =>
      some { s with pc := .insert batch .running final, handed := s.handed ++ [batch] }
    | _ => none
  | .workerDone =>
    match s.pc with
    | .insert batch .running final => some { s with pc := .insert batch .done final }
    | _ => none
  | .shutdown =>
    if s.phase = .running ∧ s.pc.suspended then
      some { s with phase := .waiting, before := s.enqueued, backlog := s.queue }
    else none
  | .finish =>
    match s.pc with
    | .ended => if s.phase = .waiting then some { s with phase := .returned } else none
    | _ => none

/-- The queue and the task right after `init_batch_writer`. -/
def initial : State δ := ⟨[], .fresh, .running, [], [], [], [], none, []⟩

/-- The writer and its environment. -/
def system (δ : Type u) : System (State δ) (Event δ) := .ofFun (· = initial) next

/-- Every document that was enqueued before the call is in exactly one batch, and the batches, one
after the other, are documents in the order in which they were enqueued. -/
def Flushed (s : State δ) : Prop :=
  s.before <+: s.handed.flatten ∧ s.handed.flatten <+: s.enqueued

/-- The cancellation landed in `get`; or in an insert that a worker had already started on, and
the queue was empty at the call; or before the first step, and the queue was empty at the call. -/
def Safe (s : State δ) : Prop :=
  match s.landing with
  | none => False
  | some .fresh => s.backlog = []
  | some .getWait => True
  | some (.insert job) => job ≠ .queued ∧ s.backlog = []

/-! ## The invariant

Every document that was enqueued is in one place: in the queue, in the hands of the task, with a
worker, or written, unless a cancellation has dropped it.  `Stage` says in addition how far the
shutdown has come. -/

/-- The documents that the task has taken out of the queue and not handed over yet. -/
def Pc.pending : Pc δ → List δ
  | .fresh => []
  | .getWait => []
  | .fill batch _ _ => batch
  | .insert batch .queued _ => batch
  | .insert _ .running _ => []
  | .insert _ .done _ => []
  | .ended => []

/-- Has the task left its loop? -/
def Pc.closing : Pc δ → Bool
  | .fresh => false
  | .getWait => false
  | .fill _ _ _ => false
  | .insert _ _ final => final
  | .ended => true

/-- Is a batch that is not handed over yet non-empty? -/
def Pc.Full : Pc δ → Prop
  | .fill batch _ _ => batch ≠ []
  | .insert batch .queued _ => batch ≠ []
  | _ => True

/-- How far the shutdown has come, and what is known about the documents of before the call. -/
inductive Stage (s : State δ) : Prop
  | running (hphase : s.phase = .running) (hland : s.landing = none) (hpc : s.pc.closing = false)
  | waiting (hphase : s.phase = .waiting) (hland : s.landing = none) (hpc : s.pc.closing = false)
      (hsusp : s.pc.suspended = true) (hback : s.backlog <+: s.queue)
      (hbefore : s.before = s.handed.flatten ++ s.pc.pending ++ s.backlog)
  | landedFresh (hphase : s.phase ≠ .running) (hland : s.landing = some .fresh)
      (hpc : s.pc = .ended) (hhanded : s.handed = []) (hbefore : s.before = s.backlog)
  | landedGet (hphase : s.phase ≠ .running) (hland : s.landing = some .getWait)
      (hpc : s.pc.closing = true) (hbefore : s.before <+: s.handed.flatten ++ s.pc.pending)
  | landedInsert (job : Job) (hphase : s.phase ≠ .running) (hland : s.landing = some (.insert job))
      (hpc : s.pc = .ended) (hdropped : s.dropped = [] ↔ job ≠ .queued)
      (hbefore : s.before = s.handed.flatten ++ s.dropped ++ s.backlog)

/-- The invariant of the writer. -/
structure Inv (s : State δ) : Prop where
  /-- **Nothing is lost or doubled on the way**: what was enqueued is what was handed over, then
  what the task holds or has dropped, then the queue. -/
  account : s.handed.flatten ++ s.pc.pending ++ s.dropped ++ s.queue = s.enqueued
  /-- Only the end of the task drops anything. -/
  dropped : s.pc ≠ .ended → s.dropped = []
  full : s.pc.Full
  /-- Before its first step the task has handed over nothing. -/
  fresh : s.pc = .fresh → s.handed = []
  /-- The shutdown returns when the task has ended. -/
  ended : s.phase = .returned → s.pc = .ended
  stage : Stage s

theorem Inv.initial : Inv (initial : State δ) where
  account := rfl
  dropped _ := rfl
  full := trivial
  fresh _ := rfl
  ended h := by simp [Writer.initial] at h
  stage := .running rfl rfl rfl

theorem not_cancelling {s : State δ} (h : s.phase = .running) : ¬ s.cancelling :=
  fun hc ↦ by simp [hc.1] at h

/-! ## The loop

Without a cancellation documents move from the queue to the batch and from the batch to a
worker. -/

theorem Inv.enqueue {s : State δ} (h : Inv s) (d : δ) :
    Inv { s with queue := s.queue ++ [d], enqueued := s.enqueued ++ [d] } where
  account := by
    show s.handed.flatten ++ s.pc.pending ++ s.dropped ++ (s.queue ++ [d]) = s.enqueued ++ [d]
    rw [← List.append_assoc, h.account]
  dropped := h.dropped
  full := h.full
  fresh := h.fresh
  ended := h.ended
  stage := by
    cases h.stage with
    | running hphase hland hpc => exact .running hphase hland hpc
    | waiting hphase hland hpc hsusp hback hbefore =>
      exact .waiting hphase hland hpc hsusp (hback.trans (List.prefix_append _ _)) hbefore
    | landedFresh hphase hland hpc hhanded hbefore =>
      exact .landedFresh hphase hland hpc hhanded hbefore
    | landedGet hphase hland hpc hbefore => exact .landedGet hphase hland hpc hbefore
    | landedInsert job hphase hland hpc hdropped hbefore =>
      exact .landedInsert job hphase hland hpc hdropped hbefore

/-- A step of the loop, taken while nobody has called the shutdown. -/
theorem Inv.loop {s s' : State δ} (h : Inv s) (hphase : s.phase = .running)
    (hsame : s' = { s with queue := s'.queue, pc := s'.pc }) (hpc : s'.pc.closing = false)
    (hfull : s'.pc.Full) (hfresh : s'.pc ≠ .fresh)
    (hacc : s'.pc.pending ++ s'.queue = s.pc.pending ++ s.queue) : Inv s' := by
  obtain ⟨hland, hclosing⟩ : s.landing = none ∧ s.pc.closing = false := by
    cases h.stage with
    | running _ hland hpc => exact ⟨hland, hpc⟩
    | waiting hp => simp [hp] at hphase
    | landedFresh hp => exact absurd hphase hp
    | landedGet hp => exact absurd hphase hp
    | landedInsert _ hp => exact absurd hphase hp
  have hd : s.dropped = [] := h.dropped fun he ↦ by simp [he, Pc.closing] at hclosing
  have hacc' := h.account
  rw [hd, List.append_nil, List.append_assoc, ← hacc] at hacc'
  rw [hsame]
  refine ⟨?_, fun _ ↦ hd, hfull, fun he ↦ absurd he hfresh, ?_, .running hphase hland hpc⟩
  · show s.handed.flatten ++ s'.pc.pending ++ s.dropped ++ s'.queue = s.enqueued
    rw [hd, List.append_nil, List.append_assoc, hacc']
  · intro hr
    rw [show s.phase = .returned from hr] at hphase
    simp at hphase

theorem Inv.get {s : State δ} (h : Inv s) (hphase : s.phase = .running)
    (hpending : s.pc.pending = []) (now : ℚ) : Inv (get s now) := by
  cases hq : s.queue with
  | nil =>
    have hget : Writer.get s now = { s with pc := .getWait } := by rw [Writer.get, hq]
    rw [hget]
    exact h.loop hphase rfl rfl trivial (by simp) (by rw [hpending, hq]; rfl)
  | cons d q =>
    have hget : Writer.get s now = { s with
        queue := q, pc := .fill [d] (if 50 < q.length then 500 else 100) now } := by
      rw [Writer.get, hq]
    rw [hget]
    exact h.loop hphase rfl rfl (by simp [Pc.Full]) (by simp) (by rw [hpending, hq]; rfl)

theorem Inv.fill {s : State δ} (h : Inv s) (hphase : s.phase = .running) {batch : List δ}
    {maxBatch : ℕ} {start : ℚ} (hp : s.pc = .fill batch maxBatch start) (now : ℚ) :
    Inv (fill s batch maxBatch start now) := by
  have hbatch : batch ≠ [] := by simpa [hp, Pc.Full] using h.full
  rw [Writer.fill]
  split
  · split
    · rename_i hq
      exact h.loop hphase (by simp) rfl hbatch (by simp) (by simp [hp, hq, Pc.pending])
    · rename_i d q hq
      exact h.loop hphase rfl rfl (by simp [Pc.Full]) (by simp) (by simp [hp, hq, Pc.pending])
  · exact h.loop hphase rfl rfl hbatch (by simp) (by simp [hp, Pc.pending])

/-! ## The cancellation

One lemma for each place at which a cancellation may land.  Only in `get` is there a handler that
writes out the rest. -/

/-- A cancellation that lands in `get` takes the whole queue along. -/
theorem Inv.drain {s : State δ} (h : Inv s) (hp : s.pc = .getWait) (hphase : s.phase = .waiting)
    (hland : s.landing = none) : Inv (drain s) := by
  have hd : s.dropped = [] := h.dropped (by simp [hp])
  have hacc := h.account
  rw [hd, hp] at hacc
  obtain ⟨hback, hbefore⟩ : s.backlog <+: s.queue ∧ s.before = s.handed.flatten ++ s.backlog := by
    cases h.stage with
    | running hr => simp [hr] at hphase
    | waiting _ _ _ _ hback hbefore => exact ⟨hback, by simpa [hp, Pc.pending] using hbefore⟩
    | landedFresh _ hl => simp [hl] at hland
    | landedGet _ hl => simp [hl] at hland
    | landedInsert _ _ hl => simp [hl] at hland
  have hbegin : s.before <+: s.handed.flatten ++ s.queue := by
    rw [hbefore]
    exact (List.prefix_append_right_inj _).mpr hback
  cases hq : s.queue with
  | nil =>
    have hdrain : Writer.drain s = { s with pc := .ended, landing := some .getWait } := by
      rw [Writer.drain, hq]
    rw [hdrain]
    rw [hq] at hbegin hacc
    exact ⟨by simpa [hd, hq, Pc.pending] using hacc, fun _ ↦ hd, trivial, by simp, fun _ ↦ rfl,
      .landedGet (by simp [hphase]) rfl rfl (by simpa [Pc.pending] using hbegin)⟩
  | cons d q =>
    have hdrain : Writer.drain s = { s with
        queue := [], pc := .insert (d :: q) .queued true, landing := some .getWait } := by
      rw [Writer.drain, hq]
    rw [hdrain]
    rw [hq] at hbegin hacc
    exact ⟨by simpa [hd, Pc.pending] using hacc, fun _ ↦ hd, by simp [Pc.Full], by simp,
      by simp [hphase], .landedGet (by simp [hphase]) rfl rfl (by simpa [Pc.pending] using hbegin)⟩

/-! ## Where it lands

At each of the places it is known what is in the queue and in the hands of the task. -/

/-- What is known while the cancellation is on its way. -/
theorem Inv.of_cancelling {s : State δ} (h : Inv s) (hc : s.cancelling) :
    s.dropped = [] ∧ s.pc.closing = false ∧
      s.before = s.handed.flatten ++ s.pc.pending ++ s.backlog := by
  obtain ⟨hphase, hland⟩ := hc
  cases h.stage with
  | running hr => simp [hr] at hphase
  | waiting _ _ hpc _ _ hbefore =>
    exact ⟨h.dropped fun he ↦ by simp [he, Pc.closing] at hpc, hpc, hbefore⟩
  | landedFresh _ hl => simp [hl] at hland
  | landedGet _ hl => simp [hl] at hland
  | landedInsert _ _ hl => simp [hl] at hland

/-- A cancellation that lands before the first step ends the task with nothing written. -/
theorem Inv.cancelFresh {s : State δ} (h : Inv s) (hc : s.cancelling) (hp : s.pc = .fresh) :
    Inv { s with pc := .ended, landing := some .fresh } := by
  obtain ⟨hd, -, hbefore⟩ := h.of_cancelling hc
  have hhanded := h.fresh hp
  have hacc := h.account
  rw [hp] at hacc hbefore
  have hbefore' : s.before = s.backlog := by simpa [hhanded, Pc.pending] using hbefore
  exact ⟨hacc, by simp, trivial, by simp, fun _ ↦ rfl,
    .landedFresh (by simp [hc.1]) rfl rfl hhanded hbefore'⟩

/-- A cancellation that lands in an insert ends the task; a batch no worker has started on is
dropped. -/
theorem Inv.cancelInsert {s : State δ} (h : Inv s) (hc : s.cancelling) {batch : List δ} {job : Job}
    {final : Bool} (hp : s.pc = .insert batch job final) :
    Inv { s with pc := .ended, landing := some (.insert job),
                 dropped := if job = .queued then batch else [] } := by
  obtain ⟨hd, -, hbefore⟩ := h.of_cancelling hc
  have hacc := h.account
  have hfull := h.full
  have hphase : s.phase ≠ .running := by simp [hc.1]
  rw [hp] at hacc hbefore hfull
  rw [hd, List.append_nil] at hacc
  cases job with
  | queued =>
    refine ⟨?_, by simp, trivial, by simp, fun _ ↦ rfl, .landedInsert .queued hphase rfl rfl ?_ ?_⟩
    · simpa [Pc.pending] using hacc
    · simpa [Pc.Full] using hfull
    · simpa [Pc.pending] using hbefore
  | running =>
    exact ⟨by simpa [Pc.pending] using hacc, by simp, trivial, by simp, fun _ ↦ rfl,
      .landedInsert .running hphase rfl rfl (by simp) (by simpa [Pc.pending] using hbefore)⟩
  | done =>
    exact ⟨by simpa [Pc.pending] using hacc, by simp, trivial, by simp, fun _ ↦ rfl,
      .landedInsert .done hphase rfl rfl (by simp) (by simpa [Pc.pending] using hbefore)⟩

/-- Without a cancellation on its way, a task that has not left its loop finds nobody waiting. -/
theorem Inv.phase_running {s : State δ} (h : Inv s) (hc : ¬ s.cancelling)
    (hpc : s.pc.closing = false) : s.phase = .running := by
  cases h.stage with
  | running hphase => exact hphase
  | waiting hphase hland => exact absurd ⟨hphase, hland⟩ hc
  | landedFresh _ _ he => simp [he, Pc.closing] at hpc
  | landedGet _ _ hcl => simp [hcl] at hpc
  | landedInsert _ _ _ he => simp [he, Pc.closing] at hpc

/-- The task ends after the insert of the handler. -/
theorem Inv.close {s : State δ} (h : Inv s) {batch : List δ}
    (hp : s.pc = .insert batch .done true) : Inv { s with pc := .ended } := by
  have hd : s.dropped = [] := h.dropped (by simp [hp])
  have hacc := h.account
  rw [hp] at hacc
  refine ⟨hacc, fun _ ↦ hd, trivial, by simp, fun _ ↦ rfl, ?_⟩
  cases h.stage with
  | running _ _ hpc => simp [hp, Pc.closing] at hpc
  | waiting _ _ hpc => simp [hp, Pc.closing] at hpc
  | landedFresh _ _ he => simp [hp] at he
  | landedGet hphase hland _ hbefore =>
    exact .landedGet hphase hland rfl (by simpa [hp, Pc.pending] using hbefore)
  | landedInsert _ _ _ he => simp [hp] at he

theorem Inv.run {s s' : State δ} {now : ℚ} (h : Inv s) (hs : run s now = some s') : Inv s' := by
  cases hp : s.pc with
  | fresh =>
    simp only [Writer.run, hp] at hs
    split at hs
    · rename_i hc
      obtain rfl := Option.some.inj hs
      exact h.cancelFresh hc hp
    · rename_i hc
      obtain rfl := Option.some.inj hs
      exact h.get (h.phase_running hc (by rw [hp]; rfl)) (by rw [hp]; rfl) now
  | getWait =>
    simp only [Writer.run, hp] at hs
    split at hs
    · rename_i hc
      obtain rfl := Option.some.inj hs
      exact h.drain hp hc.1 hc.2
    · rename_i hc
      split at hs
      · simp at hs
      · obtain rfl := Option.some.inj hs
        exact h.get (h.phase_running hc (by rw [hp]; rfl)) (by rw [hp]; rfl) now
  | fill batch maxBatch start =>
    simp only [Writer.run, hp] at hs
    obtain rfl := Option.some.inj hs
    have hc : ¬ s.cancelling := fun hc ↦ by
      cases h.stage with
      | running hr => exact not_cancelling hr hc
      | waiting _ _ _ hsusp => simp [hp, Pc.suspended] at hsusp
      | landedFresh _ hl => simp [hc.2] at hl
      | landedGet _ hl => simp [hc.2] at hl
      | landedInsert _ _ hl => simp [hc.2] at hl
    exact h.fill (h.phase_running hc (by rw [hp]; rfl)) hp now
  | insert batch job final =>
    simp only [Writer.run, hp] at hs
    split at hs
    · rename_i hc
      obtain rfl := Option.some.inj hs
      exact h.cancelInsert hc hp
    · rename_i hc
      split at hs
      · rename_i hjob
        obtain rfl := Option.some.inj hs
        rw [hjob] at hp
        cases final with
        | true => exact h.close hp
        | false => exact h.get (h.phase_running hc (by rw [hp]; rfl)) (by rw [hp]; rfl) now
      · simp at hs
  | ended => simp [Writer.run, hp] at hs

/-! ## The worker and the shutdown

The worker thread is not cancelled with the task: a batch that it has started on will be written.
The shutdown waits for the task, and not for the worker. -/

/-- The insert of a batch makes progress: the batch moves from the task to the worker. -/
theorem Inv.job {s : State δ} (h : Inv s) {batch : List δ} {job job' : Job} {final : Bool}
    (hp : s.pc = .insert batch job final) {hs : List (List δ)} (hjob : job' ≠ .queued)
    (hmove : s.handed.flatten ++ s.pc.pending = hs.flatten) :
    Inv { s with pc := .insert batch job' final, handed := hs } := by
  have hd : s.dropped = [] := h.dropped (by simp [hp])
  have hpend : (Pc.insert batch job' final).pending = [] := by
    cases job' with
    | queued => exact absurd rfl hjob
    | running => rfl
    | done => rfl
  have hacc := h.account
  refine ⟨?_, fun _ ↦ hd, ?_, by simp, fun hr ↦ ?_, ?_⟩
  · rw [hpend, List.append_nil, ← hmove]
    exact hacc
  · cases job' with
    | queued => exact absurd rfl hjob
    | running => trivial
    | done => trivial
  · have he := h.ended hr
    simp [hp] at he
  · cases h.stage with
    | running hphase hland hpc =>
      exact .running hphase hland (by simpa [hp, Pc.closing] using hpc)
    | waiting hphase hland hpc hsusp hback hbefore =>
      refine .waiting hphase hland (by simpa [hp, Pc.closing] using hpc) rfl hback ?_
      rw [hpend, List.append_nil, ← hmove]
      exact hbefore
    | landedFresh _ _ he => simp [hp] at he
    | landedGet hphase hland hpc hbefore =>
      refine .landedGet hphase hland (by simpa [hp, Pc.closing] using hpc) ?_
      rw [hpend, List.append_nil, ← hmove]
      exact hbefore
    | landedInsert _ _ _ he => simp [hp] at he

/-- The call of the shutdown cuts the documents of before the call out of the account. -/
theorem Inv.shutdown {s : State δ} (h : Inv s) (hphase : s.phase = .running)
    (hsusp : s.pc.suspended = true) :
    Inv { s with phase := .waiting, before := s.enqueued, backlog := s.queue } := by
  have hd : s.dropped = [] := h.dropped fun he ↦ by simp [he, Pc.suspended] at hsusp
  refine ⟨h.account, h.dropped, h.full, h.fresh, by simp, ?_⟩
  cases h.stage with
  | running _ hland hpc =>
    refine .waiting rfl hland hpc hsusp (List.prefix_refl _) ?_
    have hacc := h.account
    rw [hd, List.append_nil] at hacc
    exact hacc.symm
  | waiting hw => simp [hw] at hphase
  | landedFresh hp => exact absurd hphase hp
  | landedGet hp => exact absurd hphase hp
  | landedInsert _ hp => exact absurd hphase hp

theorem Inv.finish {s : State δ} (h : Inv s) (hphase : s.phase = .waiting) (hp : s.pc = .ended) :
    Inv { s with phase := .returned } := by
  refine ⟨h.account, h.dropped, h.full, h.fresh, fun _ ↦ hp, ?_⟩
  cases h.stage with
  | running hr => simp [hr] at hphase
  | waiting _ _ hpc => simp [hp, Pc.closing] at hpc
  | landedFresh _ hland _ hhanded hbefore => exact .landedFresh (by simp) hland hp hhanded hbefore
  | landedGet _ hland hpc hbefore => exact .landedGet (by simp) hland hpc hbefore
  | landedInsert job _ hland _ hdropped hbefore =>
    exact .landedInsert job (by simp) hland hp hdropped hbefore

/-- Every event keeps the invariant. -/
theorem Inv.next {s s' : State δ} {a : Event δ} (h : Inv s) (hs : next s a = some s') : Inv s' := by
  cases a with
  | enqueue d =>
    simp only [Writer.next] at hs
    split at hs
    · obtain rfl := Option.some.inj hs
      exact h.enqueue d
    · obtain rfl := Option.some.inj hs
      exact h
  | run now => exact h.run hs
  | workerStart =>
    simp only [Writer.next] at hs
    split at hs
    · rename_i batch final hp
      obtain rfl := Option.some.inj hs
      exact h.job hp (by simp) (by rw [hp]; simp [Pc.pending])
    · simp at hs
  | workerDone =>
    simp only [Writer.next] at hs
    split at hs
    · rename_i batch final hp
      obtain rfl := Option.some.inj hs
      exact h.job hp (by simp) (by rw [hp]; simp [Pc.pending])
    · simp at hs
  | shutdown =>
    simp only [Writer.next] at hs
    split at hs
    · rename_i hc
      obtain rfl := Option.some.inj hs
      exact h.shutdown hc.1 hc.2
    · simp at hs
  | finish =>
    simp only [Writer.next] at hs
    split at hs
    · rename_i hp
      split at hs
      · rename_i hphase
        obtain rfl := Option.some.inj hs
        exact h.finish hphase hp
      · simp at hs
    · simp at hs

theorem Inv.of_reachable {s : State δ} (h : (system δ).Reachable s) : Inv s := by
  refine h.invariant ?_ fun s a s' hi hs ↦ hi.next hs
  rintro s rfl
  exact Inv.initial

/-! ## The statement

A shutdown that has returned is in the last stage of the invariant, and that stage knows where the
cancellation has landed. -/

/-- **When a shutdown flushes the queue.**  Once `shutdown_batch_writer` has returned, every
document enqueued before its call is in exactly one batch and the batches are in order if and only
if the cancellation landed well. -/
theorem flushed_iff {s : State δ} (h : (system δ).Reachable s) (hret : s.phase = .returned) :
    Flushed s ↔ Safe s := by
  have hi := Inv.of_reachable h
  have hp := hi.ended hret
  have hsub : s.handed.flatten <+: s.enqueued := by
    rw [← hi.account, List.append_assoc, List.append_assoc]
    exact List.prefix_append _ _
  rw [Flushed, Safe, and_iff_left hsub]
  cases hi.stage with
  | running hr => simp [hr] at hret
  | waiting hw => simp [hw] at hret
  | landedFresh _ hland _ hhanded hbefore => simp [hland, hhanded, hbefore]
  | landedGet _ hland _ hbefore => simpa [hland, hp, Pc.pending] using hbefore
  | landedInsert job _ hland _ hdropped hbefore =>
    have hlen : s.before <+: s.handed.flatten ↔ s.dropped ++ s.backlog = [] := by
      rw [hbefore, List.append_assoc]
      constructor
      · intro hpre
        have hle := hpre.length_le
        rw [List.length_append] at hle
        exact List.length_eq_zero_iff.mp (by omega)
      · intro hnil
        simp [hnil]
    rw [hlen, hland, List.append_eq_nil_iff, hdropped]

/-- The shutdown comes while the task waits for the next document. -/
def drainedRun : List (Event ℕ) :=
  [.run 0, .enqueue 1, .enqueue 2, .shutdown, .run 0, .workerStart, .workerDone, .run 0, .finish]

/-- The shutdown comes during the insert of the first document. -/
def abandonedRun : List (Event ℕ) :=
  [.run 0, .enqueue 1, .run 0, .run 0, .workerStart, .enqueue 2, .shutdown, .run 0, .finish]

theorem flushed_drainedRun : ∃ s : State ℕ, s.before = [1, 2] ∧ Flushed s := by
  have hrun : (System.exec next initial drainedRun).map (fun s ↦ (s.phase, s.before, s.landing)) =
      some (.returned, [1, 2], some .getWait) := by decide +kernel
  obtain ⟨s, hs, hres⟩ := Option.map_eq_some_iff.mp hrun
  simp only [Prod.mk.injEq] at hres
  refine ⟨s, hres.2.1, (flushed_iff (System.reachable_of_exec rfl hs) hres.1).mpr ?_⟩
  rw [Safe, hres.2.2]
  trivial

/-- **The abandoned queue.**  The second document was enqueued before the call and is in no batch
when it returns. -/
theorem not_flushed : ∃ s : State ℕ,
    (system ℕ).Reachable s ∧ s.phase = .returned ∧ 2 ∈ s.before ∧ ¬ Flushed s := by
  have hrun : (System.exec next initial abandonedRun).map (fun s ↦ (s.phase, s.before, s.handed)) =
      some (.returned, [1, 2], [[1]]) := by decide +kernel
  obtain ⟨s, hs, hres⟩ := Option.map_eq_some_iff.mp hrun
  simp only [Prod.mk.injEq] at hres
  refine ⟨s, System.reachable_of_exec rfl hs, hres.1, by simp [hres.2.1], fun hf ↦ ?_⟩
  have hle := hf.1.length_le
  simp [hres.2.1, hres.2.2] at hle

end Writer
end GroupChat
