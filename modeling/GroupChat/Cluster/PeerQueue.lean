import GroupChat.Cluster.Gossip

/-!
# The queue of a peer

`broadcast_gossip` puts each message into the queue of every peer, and the worker of the peer takes
the items out again.  The queue has room for 1000 items.  When it is full, `broadcast_gossip` takes
the oldest item out, tells the queue that it is done, and puts once more; each of these operations
can raise, and each is in a `try` that swallows what it raises.

* `Queue` has the operations of `asyncio.Queue` that are used, with what they raise.
* `State` is the queue of one peer, its worker and the call of `broadcast_gossip` that is in
  progress, and `next` one operation.  On the event loop a call of `broadcast_gossip` is not
  interrupted, nor is the worker between two `await`s: the others have to wait until the operations
  are through.
* `RingBuffer` is what the queue is for: it is bounded, what leaves it leaves it in the order of
  publication, and what is dropped is older than 1000 others.  A call of `broadcast_gossip` comes to
  its end, wherever it stands (`finishes`), and its item is the last one in the queue then, whether
  the queue was full or not (`enqueues`).
* `ringBuffer` says that every queue of a node is one in all states of all runs, and
  `broadcast_eq_push` that a call of `broadcast_gossip` is the `Line.put` of the cluster.

The invariant behind it, `Inv`, counts: `Publisher.owed` and `Worker.owed` are the calls of
`task_done` that are still to come for items that have been taken out.  While `broadcast_gossip`
makes room nobody else takes items, so the second `put_nowait` always finds the room that the first
one did not find.
-/

set_option autoImplicit false

namespace GroupChat.PeerQueue

open Transition

universe u

variable {α : Type u}

/-! ## The operations

Every operation has one lemma for when it returns and one for when it raises.  Nothing else is
used of a queue. -/

/-- What the operations raise. -/
inductive QueueError
  | queueFull
  | queueEmpty
  | valueError

/-- An `asyncio.Queue`. -/
structure Queue (α : Type u) where
  items : List α
  /-- `_unfinished_tasks`. -/
  unfinishedTasks : ℕ

namespace Queue

/-- `put_nowait`. -/
def putNowait (maxsize : ℕ) (q : Queue α) (x : α) : Except QueueError (Queue α) :=
  if maxsize ≤ q.items.length then .error .queueFull
  else .ok ⟨q.items ++ [x], q.unfinishedTasks + 1⟩

/-- `get_nowait`. -/
def getNowait (q : Queue α) : Except QueueError (α × Queue α) :=
  match q.items with
  | [] => .error .queueEmpty
  | x :: xs => .ok (x, { q with items := xs })

/-- `task_done`. -/
def taskDone (q : Queue α) : Except QueueError (Queue α) :=
  if q.unfinishedTasks = 0 then .error .valueError
  else .ok { q with unfinishedTasks := q.unfinishedTasks - 1 }

variable {maxsize : ℕ} {q q' : Queue α} {x : α} {e : QueueError}

theorem putNowait_of_lt (h : q.items.length < maxsize) (x : α) :
    q.putNowait maxsize x = .ok ⟨q.items ++ [x], q.unfinishedTasks + 1⟩ := by
  rw [putNowait, if_neg (by omega)]

theorem of_putNowait (h : q.putNowait maxsize x = .ok q') :
    q.items.length < maxsize ∧ q' = ⟨q.items ++ [x], q.unfinishedTasks + 1⟩ := by
  rw [putNowait] at h
  split at h
  · cases h
  · exact ⟨by omega, (Except.ok.inj h).symm⟩

theorem of_putNowait_error (h : q.putNowait maxsize x = .error e) : maxsize ≤ q.items.length := by
  rw [putNowait] at h
  split at h
  · assumption
  · cases h

theorem of_getNowait (h : q.getNowait = .ok (x, q')) :
    q.items = x :: q'.items ∧ q'.unfinishedTasks = q.unfinishedTasks := by
  rw [getNowait] at h
  split at h
  · cases h
  · rename_i y ys hitems
    obtain ⟨rfl, rfl⟩ := Prod.mk.inj (Except.ok.inj h)
    exact ⟨hitems, rfl⟩

theorem of_getNowait_error (h : q.getNowait = .error e) : q.items = [] := by
  rw [getNowait] at h
  split at h
  · assumption
  · cases h

theorem of_taskDone (h : q.taskDone = .ok q') :
    q'.items = q.items ∧ q'.unfinishedTasks + 1 = q.unfinishedTasks := by
  rw [taskDone] at h
  split at h
  · cases h
  · obtain rfl := Except.ok.inj h
    exact ⟨rfl, Nat.succ_pred_eq_of_ne_zero (by assumption)⟩

theorem of_taskDone_error (h : q.taskDone = .error e) : q.unfinishedTasks = 0 := by
  rw [taskDone] at h
  split at h
  · assumption
  · cases h

end Queue

/-! ## The state

The queue is worked on by two parties.  Where each of them stands is part of the state, down to
single operations, since every operation may raise and the next one depends on whether it did. -/

/-- Where a call of `broadcast_gossip` stands. -/
inductive Publisher (α : Type u)
  | idle
  /-- The queue was full; before `q.get_nowait()`. -/
  | full (x : α)
  /-- Before `q.task_done()`. -/
  | dropped (x : α)
  /-- Before the second `q.put_nowait(payload)`. -/
  | retry (x : α)

/-- Is a call in progress? -/
def Publisher.running : Publisher α → Bool
  | .idle => false
  | _ => true

/-- The item that is still to be put. -/
def Publisher.inHand : Publisher α → List α
  | .idle => []
  | .full x => [x]
  | .dropped x => [x]
  | .retry x => [x]

/-- Where `_peer_sender_loop` stands. -/
inductive Worker (α : Type u)
  /-- In `await queue.get()`. -/
  | waiting
  /-- Before `queue.task_done()`; the last item of the batch has just been taken. -/
  | took (batch : List α)
  /-- At the head of the inner loop. -/
  | gather (batch : List α)
  /-- In `await client.post(...)`. -/
  | posting (batch : List α)
  /-- In `await asyncio.sleep(0.05)`, after an exception. -/
  | sleeping
  | stopped

/-- Is the worker between two `await`s? -/
def Worker.running : Worker α → Bool
  | .took _ => true
  | .gather _ => true
  | _ => false

/-- How an item has left the queue. -/
inductive Fate (α : Type u)
  | taken (x : α)
  /-- By `broadcast_gossip`, after so many items had been published. -/
  | dropped (x : α) (published : ℕ)

/-- The item. -/
def Fate.item : Fate α → α
  | .taken x => x
  | .dropped x _ => x

/-- The item, if the worker has got it. -/
def Fate.taken? : Fate α → Option α
  | .taken x => some x
  | .dropped _ _ => none

/-- The queue of a peer and those who work on it. -/
structure State (α : Type u) where
  queue : Queue α
  publisher : Publisher α
  worker : Worker α
  /-- To speak about the past: the items with which `broadcast_gossip` was called. -/
  published : List α
  /-- The items that were put. -/
  enqueued : List α
  /-- The items that have left the queue, in order. -/
  left : List (Fate α)
  /-- How often `task_done` was called. -/
  calls : ℕ

namespace State

variable (s : State α)

/-- The items that the worker has taken. -/
def taken : List α := s.left.filterMap Fate.taken?

/-- Does anything happen that is not to be interrupted? -/
def busy : Bool := s.publisher.running || s.worker.running

end State

/-! ## One operation at a time

An event is an operation of one of the two parties, or something that comes from outside: a call
of `broadcast_gossip`, a deadline that passes, an answer.  While a call is in progress, or the
worker is between two `await`s, the other party cannot move. -/

/-- One operation. -/
inductive Event (α : Type u)
  /-- `broadcast_gossip` is called, and puts. -/
  | publish (x : α)
  /-- It goes on. -/
  | publisher
  /-- `queue.get()` returns an item to the worker. -/
  | wake
  /-- The worker goes on. -/
  | worker
  /-- The time for gathering is over. -/
  | deadline
  /-- The request is answered, or has failed. -/
  | answered
  /-- The pause is over. -/
  | awake
  /-- The worker is cancelled. -/
  | cancel

/-- The operations of a call of `broadcast_gossip` after the first. -/
def nextPublisher (s : State α) : Option (State α) :=
  match s.publisher with
  | .idle => none
  | .full x =>
    match s.queue.getNowait with
    | .ok (y, q) => some
        { s with
          queue := q, publisher := .dropped x
          left := s.left ++ [.dropped y s.published.length] }
    | .error _ => some { s with publisher := .retry x }
  | .dropped x =>
    match s.queue.taskDone with
    | .ok q => some { s with queue := q, publisher := .retry x, calls := s.calls + 1 }
    | .error _ => some { s with publisher := .retry x, calls := s.calls + 1 }
  | .retry x =>
    match s.queue.putNowait gossipQueueSize x with
    | .ok q => some { s with queue := q, publisher := .idle, enqueued := s.enqueued ++ [x] }
    | .error _ => some { s with publisher := .idle }

/-- The operations of the worker between two `await`s. -/
def nextWorker (s : State α) : Option (State α) :=
  match s.worker with
  | .took batch =>
    match s.queue.taskDone with
    | .ok q => some { s with queue := q, worker := .gather batch, calls := s.calls + 1 }
    -- `except Exception`: the batch is lost
    | .error _ => some { s with worker := .sleeping, calls := s.calls + 1 }
  | .gather batch =>
    if batch.length < gossipBatchSize then
      match s.queue.getNowait with
      | .ok (x, q) => some
          { s with queue := q, worker := .took (batch ++ [x]), left := s.left ++ [.taken x] }
      | .error _ => some { s with worker := .posting batch }
    else some { s with worker := .posting batch }
  | _ => none

/-- One operation; `none` if it is not possible. -/
def next (s : State α) : Event α → Option (State α)
  | .publish x =>
    if s.busy then none
    else
      match s.queue.putNowait gossipQueueSize x with
      | .ok q => some
          { s with queue := q, published := s.published ++ [x], enqueued := s.enqueued ++ [x] }
      | .error _ => some { s with publisher := .full x, published := s.published ++ [x] }
  | .publisher => nextPublisher s
  | .wake =>
    if s.busy then none
    else
      match s.worker, s.queue.getNowait with
      | .waiting, .ok (x, q) => some
          { s with queue := q, worker := .took [x], left := s.left ++ [.taken x] }
      | _, _ => none
  | .worker => nextWorker s
  | .deadline =>
    match s.worker with
    | .gather batch => some { s with worker := .posting batch }
    | _ => none
  | .answered =>
    match s.worker with
    | .posting _ => some { s with worker := .waiting }
    | _ => none
  | .awake =>
    match s.worker with
    | .sleeping => some { s with worker := .waiting }
    | _ => none
  | .cancel => if s.busy then none else some { s with worker := .stopped }

/-- A queue that has just been made, with its worker. -/
def initial : State α := ⟨⟨[], 0⟩, .idle, .waiting, [], [], [], 0⟩

/-- The runs of the operations on the queue of a peer. -/
def system (α : Type u) : System (State α) (Event α) := .ofFun (· = initial) next

/-! ## A faithful ring buffer

The statement, and the invariant behind it.  `task_done` is where the code could go wrong: a call
too many raises, in the middle of the operations that make room.  So the invariant keeps an
account of the calls that the two parties owe to the queue. -/

/-- The operations of a call of `broadcast_gossip`. -/
def broadcast (s : State α) (x : α) : List (Event α) :=
  if s.queue.items.length < gossipQueueSize then [.publish x]
  else [.publish x, .publisher, .publisher, .publisher]

/-- What the queue of a peer is for. -/
structure RingBuffer (s : State α) : Prop where
  bounded : s.queue.items.length ≤ gossipQueueSize
  /-- What has left the queue and what is in it are the items that were put, in this order. -/
  order : s.left.map Fate.item ++ s.queue.items = s.enqueued
  /-- All that was published has been put, but for the item of a call that is in progress. -/
  newest : s.enqueued ++ s.publisher.inHand = s.published
  /-- Such a call comes to its end, and has put its item then. -/
  finishes : ∃ k t, k ≤ 3 ∧ System.exec next s (List.replicate k .publisher) = some t ∧
    t.publisher = .idle ∧ t.published = s.published ∧ t.enqueued = s.published
  /-- A call that is made now puts its item, and drops the oldest one if the queue is full. -/
  enqueues : s.busy = false → ∀ x, ∃ t, System.exec next s (broadcast s x) = some t ∧
    t.busy = false ∧ t.published = s.published ++ [x] ∧ t.enqueued = t.published ∧
      t.queue.items = Window.push gossipQueueSize s.queue.items x
  /-- The worker gets the items in the order of publication, and none twice. -/
  taken : s.taken.Sublist s.published
  /-- An item is dropped only when 1000 items have been published after it. -/
  dropped : ∀ k x n, s.left[k]? = some (.dropped x n) →
    s.published[k]? = some x ∧ k + 1 + gossipQueueSize ≤ n ∧ n ≤ s.published.length
  taskDone : s.calls ≤ s.enqueued.length

/-- How many calls of `task_done` the publisher owes to the queue. -/
def Publisher.owed : Publisher α → ℕ
  | .dropped _ => 1
  | _ => 0

/-- How many the worker owes. -/
def Worker.owed : Worker α → ℕ
  | .took _ => 1
  | _ => 0

/-- What holds between any two operations. -/
structure Inv (s : State α) : Prop where
  bounded : s.queue.items.length ≤ gossipQueueSize
  order : s.left.map Fate.item ++ s.queue.items = s.enqueued
  newest : s.enqueued ++ s.publisher.inHand = s.published
  dropped : ∀ k x n, s.left[k]? = some (.dropped x n) →
    k + 1 + gossipQueueSize ≤ n ∧ n ≤ s.published.length
  /-- Nobody takes items while `broadcast_gossip` makes room. -/
  alone : s.publisher.running = true → s.worker.running = false
  full : ∀ x, s.publisher = .full x → s.queue.items.length = gossipQueueSize
  room : ∀ x, s.publisher = .dropped x ∨ s.publisher = .retry x →
    s.queue.items.length < gossipQueueSize
  calls : s.calls + s.queue.unfinishedTasks = s.enqueued.length
  owed : s.queue.unfinishedTasks = s.queue.items.length + s.publisher.owed + s.worker.owed

theorem filterMap_taken?_sublist (left : List (Fate α)) :
    (left.filterMap Fate.taken?).Sublist (left.map Fate.item) := by
  induction left with
  | nil => exact List.Sublist.slnil
  | cons f left ih =>
    cases f with
    | taken x => exact ih.cons_cons x
    | dropped x n => exact ih.cons x

theorem inv_initial : Inv (initial : State α) where
  bounded := Nat.zero_le _
  order := rfl
  newest := rfl
  dropped k x n hk := by simp [initial] at hk
  alone h := by cases h
  full x h := by cases h
  room x h := by rcases h with h | h <;> cases h
  calls := rfl
  owed := rfl

/-! ## What each operation does

The invariant is kept by each operation of the publisher and of the worker.  An item that leaves
the queue has been at its front, so the order of publication is the order of leaving. -/

section Steps

variable {s s' : State α} {x : α} {q : Queue α}

theorem Publisher.eq_idle {p : Publisher α} (h : p.running = false) : p = .idle := by
  cases p with
  | idle => rfl
  | _ => cases h

theorem idle_of_not_busy (h : ¬s.busy = true) :
    s.publisher = .idle ∧ s.worker.running = false := by
  rw [Bool.not_eq_true, State.busy, Bool.or_eq_false_iff] at h
  exact ⟨Publisher.eq_idle h.1, h.2⟩

theorem owed_of_not_running {w : Worker α} (h : w.running = false) : w.owed = 0 := by
  cases w with
  | took batch => cases h
  | _ => rfl

/-! ## An item leaves the queue

Whether an item is dropped or taken, it is the oldest one.  These lemmas are about the list of
what has left, and are used for both. -/

/-- An item that leaves the queue is the next one in the order. -/
theorem order_left {f : Fate α} {items : List α} {left : List (Fate α)} {enqueued : List α}
    (h : left.map Fate.item ++ (f.item :: items) = enqueued) :
    (left ++ [f]).map Fate.item ++ items = enqueued := by
  rw [List.map_append, List.append_assoc]
  exact h

/-- The drops so far, and the item that leaves the queue now. -/
theorem dropped_left {left : List (Fate α)} {f : Fate α} {published : List α}
    (h : ∀ k x n, left[k]? = some (.dropped x n) →
      k + 1 + gossipQueueSize ≤ n ∧ n ≤ published.length)
    (hf : ∀ x n, f = .dropped x n →
      left.length + 1 + gossipQueueSize ≤ n ∧ n ≤ published.length) :
    ∀ k x n, (left ++ [f])[k]? = some (.dropped x n) →
      k + 1 + gossipQueueSize ≤ n ∧ n ≤ published.length := by
  intro k x n hk
  rcases Nat.lt_trichotomy k left.length with hlt | rfl | hgt
  · rw [List.getElem?_append_left hlt] at hk
    exact h k x n hk
  · rw [List.getElem?_concat_length] at hk
    exact hf x n (Option.some.inj hk)
  · rw [List.getElem?_eq_none (by rw [List.length_append, List.length_singleton]; omega)] at hk
    cases hk

/-- The queue is as long as the items that have been put and have not left it. -/
theorem Inv.length_published (h : Inv s) :
    s.published.length =
      s.left.length + s.queue.items.length + s.publisher.inHand.length := by
  rw [← h.newest, ← h.order]
  simp [Nat.add_assoc]

/-! ## The operations of the publisher

A call puts its item at once, or it makes room first.  In the second case it takes three more
operations, and between any two of them the invariant says which items are in whose hands. -/

/-- An item is put, and no call is in progress any more. -/
theorem Inv.put (h : Inv s) (hroom : s.queue.items.length < gossipQueueSize)
    (howed : s.publisher.owed = 0) {published : List α}
    (hnewest : s.enqueued ++ [x] = published) (hlength : s.published.length ≤ published.length) :
    Inv { s with
      queue := ⟨s.queue.items ++ [x], s.queue.unfinishedTasks + 1⟩, publisher := .idle
      published := published, enqueued := s.enqueued ++ [x] } := by
  have hcalls := h.calls
  have hold := h.owed
  refine ⟨?_, ?_, ?_, fun k y n hk ↦ ?_, (fun hrun ↦ by cases hrun), (fun y hy ↦ by cases hy),
    (fun y hy ↦ by rcases hy with hy | hy <;> cases hy), ?_, ?_⟩
  · show (s.queue.items ++ [x]).length ≤ gossipQueueSize
    rw [List.length_append, List.length_singleton]
    omega
  · show s.left.map Fate.item ++ (s.queue.items ++ [x]) = s.enqueued ++ [x]
    rw [← List.append_assoc, h.order]
  · show (s.enqueued ++ [x]) ++ [] = published
    rw [List.append_nil, hnewest]
  · obtain ⟨hbefore, hafter⟩ := h.dropped k y n hk
    exact ⟨hbefore, hafter.trans hlength⟩
  · show s.calls + (s.queue.unfinishedTasks + 1) = (s.enqueued ++ [x]).length
    rw [List.length_append, List.length_singleton]
    omega
  · show s.queue.unfinishedTasks + 1 = (s.queue.items ++ [x]).length + 0 + s.worker.owed
    rw [List.length_append, List.length_singleton]
    omega

/-- Whoever has taken an item calls `task_done`. -/
theorem Inv.done (h : Inv s) (hdone : s.queue.taskDone = .ok q) {p : Publisher α} {w : Worker α}
    (hhand : p.inHand = s.publisher.inHand)
    (halone : p.running = true → w.running = false) (hfull : ∀ y, p ≠ .full y)
    (hroom : ∀ y, p = .dropped y ∨ p = .retry y → s.queue.items.length < gossipQueueSize)
    (howed : p.owed + w.owed + 1 = s.publisher.owed + s.worker.owed) :
    Inv { s with queue := q, publisher := p, worker := w, calls := s.calls + 1 } := by
  obtain ⟨hitems, hunfinished⟩ := Queue.of_taskDone hdone
  have hcalls := h.calls
  have hold := h.owed
  refine ⟨hitems ▸ h.bounded, hitems ▸ h.order, ?_, h.dropped, halone,
    fun y hy ↦ absurd hy (hfull y), fun y hy ↦ hitems ▸ hroom y hy, ?_, ?_⟩
  · show s.enqueued ++ p.inHand = s.published
    rw [hhand, h.newest]
  · show s.calls + 1 + q.unfinishedTasks = s.enqueued.length
    omega
  · show q.unfinishedTasks = q.items.length + p.owed + w.owed
    rw [hitems]
    omega

/-- `broadcast_gossip` is called. -/
theorem Inv.publish (h : Inv s) (hs : next s (.publish x) = some s') : Inv s' := by
  rw [next] at hs
  split at hs
  · cases hs
  · rename_i hbusy
    obtain ⟨hidle, hworker⟩ := idle_of_not_busy hbusy
    have hnewest : s.enqueued ++ [x] = s.published ++ [x] := by
      have hnewest := h.newest
      rw [hidle, Publisher.inHand, List.append_nil] at hnewest
      rw [hnewest]
    have hlength : s.published.length ≤ (s.published ++ [x]).length := by
      rw [List.length_append]
      omega
    split at hs
    · rename_i q hput
      obtain ⟨hlt, rfl⟩ := Queue.of_putNowait hput
      obtain rfl := Option.some.inj hs
      have hafter := h.put hlt (by rw [hidle]; rfl) hnewest hlength
      rwa [← hidle] at hafter
    · rename_i e hput
      have hfull := Queue.of_putNowait_error hput
      have howed := h.owed
      rw [hidle] at howed
      obtain rfl := Option.some.inj hs
      refine ⟨h.bounded, h.order, hnewest, fun k y n hk ↦ ?_, fun _ ↦ hworker,
        fun _ _ ↦ Nat.le_antisymm h.bounded hfull,
        (fun y hy ↦ by rcases hy with hy | hy <;> cases hy), h.calls, howed⟩
      obtain ⟨hbefore, hafter⟩ := h.dropped k y n hk
      exact ⟨hbefore, hafter.trans hlength⟩

/-- The oldest item of a full queue is dropped. -/
theorem Inv.drop (h : Inv s) (hp : s.publisher = .full x) {y : α}
    (hget : s.queue.getNowait = .ok (y, q)) :
    Inv { s with
      queue := q, publisher := .dropped x, left := s.left ++ [.dropped y s.published.length] } := by
  obtain ⟨hitems, hunfinished⟩ := Queue.of_getNowait hget
  have hworker := h.alone (by rw [hp]; rfl)
  have hfull := h.full x hp
  have hpublished := h.length_published
  have howed := h.owed
  have hcalls := h.calls
  have hnewest := h.newest
  have hlength : s.queue.items.length = q.items.length + 1 := by
    rw [hitems, List.length_cons]
  rw [hp] at hpublished howed hnewest
  simp only [Publisher.inHand, Publisher.owed, List.length_singleton] at hpublished howed
  refine ⟨?_, order_left (hitems ▸ h.order), hnewest, dropped_left h.dropped ?_, fun _ ↦ hworker,
    (fun z hz ↦ by cases hz), fun z _ ↦ ?_, ?_, ?_⟩
  · show q.items.length ≤ gossipQueueSize
    omega
  · intro z n hz
    cases hz
    show _ ∧ s.published.length ≤ s.published.length
    omega
  · show q.items.length < gossipQueueSize
    omega
  · show s.calls + q.unfinishedTasks = s.enqueued.length
    omega
  · show q.unfinishedTasks = q.items.length + 1 + s.worker.owed
    omega

/-- The operations with which `broadcast_gossip` makes room. -/
theorem Inv.nextPublisher (h : Inv s) (hs : PeerQueue.nextPublisher s = some s') : Inv s' := by
  rw [PeerQueue.nextPublisher] at hs
  split at hs
  · cases hs
  · rename_i x hp
    split at hs
    · rename_i y q hget
      exact Option.some.inj hs ▸ h.drop hp hget
    · rename_i e hget
      -- the queue is full, so it is not empty
      have hfull := h.full x hp
      rw [Queue.of_getNowait_error hget] at hfull
      cases hfull
  · rename_i x hp
    split at hs
    · rename_i q hdone
      obtain rfl := Option.some.inj hs
      refine h.done hdone (by rw [hp]; rfl) (fun _ ↦ h.alone (by rw [hp]; rfl))
        (fun y hy ↦ by cases hy) (fun _ _ ↦ h.room x (Or.inl hp)) ?_
      rw [hp]
      show 0 + s.worker.owed + 1 = 1 + s.worker.owed
      omega
    · rename_i e hdone
      -- the item that was dropped has been put before
      have hzero := Queue.of_taskDone_error hdone
      have howed := h.owed
      rw [hp, Publisher.owed] at howed
      omega
  · rename_i x hp
    have hroom := h.room x (Or.inr hp)
    have hnewest := h.newest
    rw [hp, Publisher.inHand] at hnewest
    rw [Queue.putNowait_of_lt hroom] at hs
    exact Option.some.inj hs ▸ h.put hroom (by rw [hp]; rfl) hnewest le_rfl

/-! ## The operations of the worker

The worker takes items until its batch is full or the deadline has passed, calls `task_done` for
each of them, and waits for the answer. -/

/-- The worker gets an item. -/
theorem Inv.take (h : Inv s) (hidle : s.publisher = .idle) (howed : s.worker.owed = 0)
    (hget : s.queue.getNowait = .ok (x, q)) (batch : List α) :
    Inv { s with queue := q, worker := .took batch, left := s.left ++ [.taken x] } := by
  obtain ⟨hitems, hunfinished⟩ := Queue.of_getNowait hget
  have hlength : s.queue.items.length = q.items.length + 1 := by
    rw [hitems, List.length_cons]
  have hbounded := h.bounded
  have hcalls := h.calls
  have hold := h.owed
  refine ⟨?_, order_left (hitems ▸ h.order), h.newest, dropped_left h.dropped ?_, ?_, ?_, ?_, ?_,
    ?_⟩
  · show q.items.length ≤ gossipQueueSize
    omega
  · intro z n hz
    cases hz
  · intro hrun
    rw [hidle] at hrun
    cases hrun
  · intro z hz
    cases hidle.symm.trans hz
  · intro z hz
    rcases hz with hz | hz <;> cases hidle.symm.trans hz
  · show s.calls + q.unfinishedTasks = s.enqueued.length
    omega
  · show q.unfinishedTasks = q.items.length + s.publisher.owed + 1
    omega

/-- The worker moves on, without the queue. -/
theorem Inv.move (h : Inv s) {w : Worker α} (howed : w.owed = s.worker.owed)
    (hrun : s.publisher.running = true → w.running = false) : Inv { s with worker := w } :=
  ⟨h.bounded, h.order, h.newest, h.dropped, hrun, h.full, h.room, h.calls, by
    show _ = _ + w.owed
    rw [howed]
    exact h.owed⟩

theorem Inv.nextWorker (h : Inv s) (hs : PeerQueue.nextWorker s = some s') : Inv s' := by
  have hidle : s.worker.running = true → s.publisher = .idle := by
    intro hrun
    refine Publisher.eq_idle (Bool.eq_false_iff.mpr fun hp ↦ ?_)
    rw [h.alone hp] at hrun
    cases hrun
  have howed := h.owed
  rw [PeerQueue.nextWorker] at hs
  split at hs
  · rename_i batch hw
    have hp := hidle (by rw [hw]; rfl)
    rw [hw] at howed
    simp only [Worker.owed] at howed
    split at hs
    · rename_i q hdone
      obtain rfl := Option.some.inj hs
      have halone : s.publisher.running = true → (Worker.gather batch).running = false := by
        rw [hp]
        exact fun hrun ↦ by cases hrun
      refine h.done hdone rfl halone (fun y hy ↦ by cases hp.symm.trans hy)
        (fun y hy ↦ by rcases hy with hy | hy <;> cases hp.symm.trans hy) ?_
      rw [hw]
      rfl
    · rename_i e hdone
      have hzero := Queue.of_taskDone_error hdone
      omega
  · rename_i batch hw
    have hp := hidle (by rw [hw]; rfl)
    have hnone : s.worker.owed = 0 := by rw [hw]; rfl
    have hpost : Inv { s with worker := .posting batch } :=
      h.move hnone.symm fun _ ↦ rfl
    split at hs
    · split at hs
      · rename_i x q hget
        obtain rfl := Option.some.inj hs
        exact h.take hp hnone hget _
      · exact Option.some.inj hs ▸ hpost
    · exact Option.some.inj hs ▸ hpost
  · cases hs

/-- **Every operation.** -/
theorem Inv.next {a : Event α} (h : Inv s) (hs : PeerQueue.next s a = some s') : Inv s' := by
  cases a with
  | publish x => exact h.publish hs
  | publisher => exact h.nextPublisher hs
  | wake =>
    rw [PeerQueue.next] at hs
    split at hs
    · cases hs
    · rename_i hbusy
      obtain ⟨hidle, hworker⟩ := idle_of_not_busy hbusy
      split at hs
      · rename_i x q hw hget
        obtain rfl := Option.some.inj hs
        exact h.take hidle (owed_of_not_running hworker) hget _
      · cases hs
  | worker => exact h.nextWorker hs
  | deadline =>
    rw [PeerQueue.next] at hs
    split at hs
    · rename_i batch hw
      obtain rfl := Option.some.inj hs
      exact h.move (by rw [hw]; rfl) fun _ ↦ rfl
    · cases hs
  | answered =>
    rw [PeerQueue.next] at hs
    split at hs
    · rename_i batch hw
      obtain rfl := Option.some.inj hs
      exact h.move (by rw [hw]; rfl) fun _ ↦ rfl
    · cases hs
  | awake =>
    rw [PeerQueue.next] at hs
    split at hs
    · rename_i hw
      obtain rfl := Option.some.inj hs
      exact h.move (by rw [hw]; rfl) fun _ ↦ rfl
    · cases hs
  | cancel =>
    rw [PeerQueue.next] at hs
    split at hs
    · cases hs
    · rename_i hbusy
      obtain rfl := Option.some.inj hs
      exact h.move (owed_of_not_running (idle_of_not_busy hbusy).2).symm fun _ ↦ rfl

end Steps

/-! ## Whole calls

A call of `broadcast_gossip` is at most four operations, from wherever it stands, and nobody else
can come between them.  At the end its item is the last one in the queue. -/

/-- Dropping the oldest item of a full queue makes it a window. -/
theorem push_full {y x : α} {ys : List α} {cap : ℕ} (h : ys.length + 1 = cap) :
    Window.push cap (y :: ys) x = ys ++ [x] := by
  have hlength : (ys ++ [x]).length = cap := by
    rw [List.length_append, List.length_singleton, h]
  have happend : (y :: ys) ++ [x] = [y] ++ (ys ++ [x]) := rfl
  rw [Window.push, happend, Window.rtake_append_of_le hlength.le, hlength, Nat.sub_self,
    List.rtake_zero, List.nil_append]

/-- A call that finds the queue full. -/
theorem exec_broadcast_full {s : State α} {x y : α} {ys : List α} (hfree : ¬s.busy = true)
    (hitems : s.queue.items = y :: ys) (hlength : ys.length + 1 = gossipQueueSize)
    (hunfinished : s.queue.unfinishedTasks ≠ 0) :
    System.exec next s [.publish x, .publisher, .publisher, .publisher] = some
      { queue := ⟨ys ++ [x], s.queue.unfinishedTasks - 1 + 1⟩
        publisher := .idle
        worker := s.worker
        published := s.published ++ [x]
        enqueued := s.enqueued ++ [x]
        left := s.left ++ [.dropped y (s.published ++ [x]).length]
        calls := s.calls + 1 } := by
  have hput : s.queue.putNowait gossipQueueSize x = .error .queueFull := by
    rw [Queue.putNowait, hitems, if_pos (by rw [List.length_cons]; omega)]
  have hget : s.queue.getNowait = .ok (y, ⟨ys, s.queue.unfinishedTasks⟩) := by
    rw [Queue.getNowait, hitems]
  have hdone : (⟨ys, s.queue.unfinishedTasks⟩ : Queue α).taskDone =
      .ok ⟨ys, s.queue.unfinishedTasks - 1⟩ := if_neg hunfinished
  have hagain : (⟨ys, s.queue.unfinishedTasks - 1⟩ : Queue α).putNowait gossipQueueSize x =
      .ok ⟨ys ++ [x], s.queue.unfinishedTasks - 1 + 1⟩ :=
    Queue.putNowait_of_lt (show ys.length < gossipQueueSize by omega) x
  simp only [System.exec, next, if_neg hfree, hput, nextPublisher, hget, hdone, hagain,
    Option.bind_some]

/-- **A call of `broadcast_gossip` from its beginning to its end.** -/
theorem Inv.enqueues {s : State α} (h : Inv s) (hfree : s.busy = false) (x : α) :
    ∃ t, System.exec PeerQueue.next s (broadcast s x) = some t ∧ t.busy = false ∧
      t.published = s.published ++ [x] ∧ t.enqueued = t.published ∧
        t.queue.items = Window.push gossipQueueSize s.queue.items x := by
  have hidle : ¬s.busy = true := by rw [hfree]; simp
  obtain ⟨hpublisher, hworker⟩ := idle_of_not_busy hidle
  have hnewest : s.enqueued = s.published := by
    have hall := h.newest
    rwa [hpublisher, Publisher.inHand, List.append_nil] at hall
  rw [broadcast]
  split
  · rename_i hlt
    have hnext : PeerQueue.next s (.publish x) = some
        { s with
          queue := ⟨s.queue.items ++ [x], s.queue.unfinishedTasks + 1⟩
          published := s.published ++ [x], enqueued := s.enqueued ++ [x] } := by
      rw [PeerQueue.next, if_neg hidle, Queue.putNowait_of_lt hlt]
    have hexec : System.exec PeerQueue.next s [.publish x] = PeerQueue.next s (.publish x) := by
      rw [System.exec, hnext]
      rfl
    exact ⟨_, hexec.trans hnext, hfree, rfl, congrArg (· ++ [x]) hnewest,
      (Window.push_of_length_lt hlt x).symm⟩
  · rename_i hge
    obtain ⟨y, ys, hitems⟩ : ∃ y ys, s.queue.items = y :: ys := by
      refine List.exists_cons_of_ne_nil fun hnil ↦ hge ?_
      rw [hnil]
      exact Nat.succ_pos 999
    have hbounded := h.bounded
    have howed := h.owed
    rw [hitems, List.length_cons] at hbounded hge howed
    have hlength : ys.length + 1 = gossipQueueSize := by omega
    refine ⟨_, exec_broadcast_full hidle hitems hlength (by omega), ?_, rfl,
      congrArg (· ++ [x]) hnewest, ?_⟩
    · show (false || s.worker.running) = false
      rw [hworker]
      rfl
    · rw [hitems, push_full hlength]

/-! ## From wherever a call stands

A call that is in progress in some reachable state has at most three operations to do.  After
these it is over, and its item has been put. -/

/-- What is left of a call in progress: after `k` more operations the item has been put. -/
def Finishes (k : ℕ) (s : State α) : Prop :=
  ∃ t, System.exec PeerQueue.next s (List.replicate k .publisher) = some t ∧ t.publisher = .idle ∧
    t.published = s.published ∧ t.enqueued = s.published

theorem Finishes.of_next {k : ℕ} {s s' : State α} (hs : nextPublisher s = some s')
    (hpublished : s'.published = s.published) (h : Finishes k s') : Finishes (k + 1) s := by
  obtain ⟨t, ht, hidle, htpublished, henqueued⟩ := h
  refine ⟨t, ?_, hidle, htpublished.trans hpublished, henqueued.trans hpublished⟩
  rw [List.replicate_succ, System.exec, show next s .publisher = some s' from hs]
  exact ht

/-- **A call of `broadcast_gossip` from wherever it stands to its end.** -/
theorem Inv.finishes {s : State α} (h : Inv s) : ∃ k ≤ 3, Finishes k s := by
  have hidle : ∀ {s : State α}, Inv s → s.publisher = .idle → Finishes 0 s := by
    intro s h hp
    have hnewest := h.newest
    rw [hp, Publisher.inHand, List.append_nil] at hnewest
    exact ⟨s, rfl, hp, rfl, hnewest⟩
  have hretry : ∀ {s : State α} {x : α}, Inv s → s.publisher = .retry x → Finishes 1 s := by
    intro s x h hp
    have hs : PeerQueue.nextPublisher s = some
        { s with
          queue := ⟨s.queue.items ++ [x], s.queue.unfinishedTasks + 1⟩
          publisher := .idle, enqueued := s.enqueued ++ [x] } := by
      rw [PeerQueue.nextPublisher, hp]
      simp only
      rw [Queue.putNowait_of_lt (h.room x (Or.inr hp))]
    exact .of_next hs rfl (hidle (h.nextPublisher hs) rfl)
  have hdropped : ∀ {s : State α} {x : α}, Inv s → s.publisher = .dropped x → Finishes 2 s := by
    intro s x h hp
    have howed := h.owed
    rw [hp, Publisher.owed] at howed
    have hs : PeerQueue.nextPublisher s = some
        { s with
          queue := { s.queue with unfinishedTasks := s.queue.unfinishedTasks - 1 }
          publisher := .retry x, calls := s.calls + 1 } := by
      rw [PeerQueue.nextPublisher, hp]
      simp only
      rw [Queue.taskDone, if_neg (by omega)]
    exact .of_next hs rfl (hretry (h.nextPublisher hs) rfl)
  cases hp : s.publisher with
  | idle => exact ⟨0, by decide, hidle h hp⟩
  | retry x => exact ⟨1, by decide, hretry h hp⟩
  | dropped x => exact ⟨2, by decide, hdropped h hp⟩
  | full x =>
    obtain ⟨y, ys, hitems⟩ : ∃ y ys, s.queue.items = y :: ys := by
      refine List.exists_cons_of_ne_nil fun hnil ↦ ?_
      have hfull := h.full x hp
      rw [hnil] at hfull
      cases hfull
    have hs : PeerQueue.nextPublisher s = some
        { s with
          queue := { s.queue with items := ys }, publisher := .dropped x
          left := s.left ++ [.dropped y s.published.length] } := by
      rw [PeerQueue.nextPublisher, hp]
      simp only
      rw [Queue.getNowait, hitems]
    exact ⟨3, le_rfl, .of_next hs rfl (hdropped (h.nextPublisher hs) rfl)⟩

theorem Inv.toRingBuffer {s : State α} (h : Inv s) : RingBuffer s where
  bounded := h.bounded
  order := h.order
  newest := h.newest
  finishes := by
    obtain ⟨k, hk, t, ht⟩ := h.finishes
    exact ⟨k, t, hk, ht⟩
  enqueues := h.enqueues
  taken := by
    refine (filterMap_taken?_sublist s.left).trans ?_
    rw [← h.newest, ← h.order, List.append_assoc]
    exact List.sublist_append_left _ _
  dropped k x n hk := by
    refine ⟨?_, h.dropped k x n hk⟩
    obtain ⟨hlt, -⟩ := List.getElem?_eq_some_iff.mp hk
    rw [← h.newest, ← h.order, List.append_assoc,
      List.getElem?_append_left (by simpa using hlt), List.getElem?_map, hk]
    rfl
  taskDone := by
    have hcalls := h.calls
    omega

/-! ## Runs

The invariant holds in every state that can be reached, and the statement follows from it. -/

theorem inv_of_reachable {s : State α} (h : (system α).Reachable s) : Inv s :=
  h.invariant (fun _ h₀ ↦ h₀ ▸ inv_initial) fun _ _ _ hs hstep ↦ hs.next hstep

/-- **The queue of every peer is a faithful ring buffer**, in every state of every run. -/
theorem ringBuffer {ι : Type*} [DecidableEq ι] {s : ι → State α}
    (h : (System.family fun _ : ι ↦ system α).Reachable s) (peer : ι) : RingBuffer (s peer) :=
  (inv_of_reachable (h.component peer)).toRingBuffer

/-- Two items are published, and the worker takes both of them for one request. -/
def shortRun : List (Event ℕ) :=
  [.publish 7, .publish 8, .wake, .worker, .worker, .worker, .deadline, .answered]

theorem ringBuffer_shortRun : ∃ s : Bool → State ℕ,
    (System.family fun _ : Bool ↦ system ℕ).Reachable s ∧ (s true).taken = [7, 8] ∧
      RingBuffer (s true) ∧ RingBuffer (s false) := by
  have hexec : (System.exec next initial shortRun).map State.taken = some [7, 8] := by decide
  obtain ⟨t, ht, htaken⟩ := Option.map_eq_some_iff.mp hexec
  have htrace : (system ℕ).Trace initial shortRun t := System.trace_of_exec ht
  have hrun := System.Trace.family (S := fun _ : Bool ↦ system ℕ) (s := fun _ ↦ initial)
    (i := true) htrace
  have hreach := hrun.reachable fun _ ↦ rfl
  refine ⟨_, hreach, ?_, ringBuffer hreach true, ringBuffer hreach false⟩
  rw [Function.update_self]
  exact htaken

/-! ## The queue of a line

A line of the cluster has a list that is pushed to in one step.  Here the steps of a call are
connected with that one. -/

/-- **A call of `broadcast_gossip` is a put into a line.** -/
theorem broadcast_eq_push {s : State α} (h : Inv s) (hfree : s.busy = false) (x : α)
    {l : Line α} (hl : l.queue = s.queue.items) :
    ∃ t, System.exec next s (broadcast s x) = some t ∧ t.busy = false ∧
      t.queue.items = (l.put gossipQueueSize x).queue := by
  obtain ⟨t, ht, hbusy, -, -, hitems⟩ := h.enqueues hfree x
  refine ⟨t, ht, hbusy, hitems.trans ?_⟩
  rw [Line.put, hl]

end GroupChat.PeerQueue
