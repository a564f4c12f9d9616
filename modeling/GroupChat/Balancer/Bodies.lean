import GroupChat.Balancer.Failover

/-!
# The bodies of the requests

`LB.ServeHTTP` reads the body of a `POST` or a `PUT` into a buffer of `bodyPool`, so that
`retryRoundTripper` can send it twice, and gives the buffer back when it returns.  The other
requests are proxied as streams.  `Bodies.next` has the steps of any number of such calls: the reads
of `io.ReadFull`, the attempts to send the request, and what the transports read for each of them.

A transport reads the body when it wants to, and it may go on after its `RoundTrip` has returned.
What it reads of a captured body comes out of the buffer, whoever has the buffer then.

The reading of a body may end with an error, which `ServeHTTP` does not look at.  If the connection
to the client is lost, `net/http` cancels the context of the request, and no transport sends it any
more; if the chunked encoding of the body is broken, it does not.

* `Does` are the steps one by one, and `next_cases` says that there are no others.
* `Sound` is what holds in every run: nobody has a buffer that somebody else has or that is in the
  pool, and a handler that has not returned finds in its buffer what `capture` makes of its body.
* `Faithful` is what one would like: every attempt has been given the beginning of the body, a
  captured body is announced with the length of the body, and a request that is not forwarded is
  answered with an error.
* `faithful_of_whole`: a run keeps the bodies faithful if the bodies that are forwarded have arrived
  as a whole and fit into the buffer, and the transports read in time; and in a run whose transports
  read in time, only then.
* `not_faithful_longBody` is a body that does not fit, and `not_faithful_lateRun` a transport that
  reads too late.
-/

set_option autoImplicit false

namespace GroupChat
namespace Balancer
namespace Bodies

open Transition

/-! ## Calls, buffers and transports

A buffer is a number, and its content a part of the state, because several parties may have the
same one.  An attempt has its own place in the body, so that the two attempts of a request, and
the readers that are left over from earlier ones, can be told apart. -/

/-- How the reading of a body ends. -/
inductive Ending
  /-- With `io.EOF`, where the client has announced the end. -/
  | complete
  /-- With an error, since the chunked encoding is broken. -/
  | malformed
  /-- With an error of the connection. -/
  | lost
  deriving DecidableEq

/-- A request with its body, as it comes in. -/
structure Incoming where
  request : Request
  /-- The body that the client sends. -/
  body : Bytes
  /-- What the calls of `Read` return, one after the other, up to the end or the error. -/
  chunks : List Bytes
  ending : Ending
  chunks_prefix : chunks.flatten <+: body
  chunks_eq : ending = .complete → chunks.flatten = body
  deriving DecidableEq

/-- The bytes that can be read. -/
def Incoming.arrived (x : Incoming) : Bytes := x.chunks.flatten

/-- Is the body read into a buffer?  `r.Body` is never `nil`, and a WebSocket does not get there. -/
def Incoming.buffered (x : Incoming) : Bool :=
  (decide (x.request.method = .post) || decide (x.request.method = .put)) && !x.request.websocket

/-- What `r.Body` is when the request is proxied. -/
inductive Source
  /-- The first `n` bytes of the buffer `buf`; `r.ContentLength` is `n`, and `r.GetBody` reads the
  same bytes. -/
  | captured (buf n : ℕ)
  /-- What the client sends. -/
  | stream
  deriving DecidableEq

/-- Where a call of `ServeHTTP` stands. -/
inductive Stage
  | arrived
  /-- In `io.ReadFull`: `n` bytes have been read into the buffer `buf`. -/
  | reading (buf n : ℕ) (rest : List Bytes)
  /-- Before the pick. -/
  | ready (src : Source)
  | proxying (src : Source)
  | ended (src : Source)
  deriving DecidableEq

/-- The buffer that is read. -/
def Source.buffer? : Source → Option ℕ
  | .captured buf _ => some buf
  | .stream => none

/-- The buffer that the handler has. -/
def Stage.buffer? : Stage → Option ℕ
  | .reading buf _ _ => some buf
  | .ready src | .proxying src => src.buffer?
  | _ => none

/-- What is sent, as soon as something is. -/
def Stage.source? : Stage → Option Source
  | .proxying src => some src
  | .ended src => some src
  | _ => none

structure Handler where
  incoming : Incoming
  stage : Stage
  /-- Has the context of the request been cancelled? -/
  cancelled : Bool
  /-- Has the balancer answered with an error of its own, before anything was sent? -/
  refused : Bool
  /-- How many bytes have been read of a body that is streamed. -/
  streamed : ℕ
  /-- What has been read for the attempts: that of the chosen backend and that of the alternate. -/
  attempts : List Bytes
  deriving DecidableEq

/-! ## The steps

A step is one read, one write into a buffer, or one decision of a handler.  Which transport reads
when is not up to the balancer, so an event says for which attempt it reads and how much it
gets. -/

/-- The call of `ServeHTTP` for a request. -/
def Handler.fresh (x : Incoming) : Handler := ⟨x, .arrived, false, false, 0, []⟩

structure State where
  /-- The buffers, with the bytes that have been written to them. -/
  buffers : List Bytes
  /-- The buffers that are in `bodyPool`. -/
  free : List ℕ
  handlers : List Handler
  deriving DecidableEq

inductive Event
  | arrive (x : Incoming)
  /-- `bodyPool.Get`, which returns a buffer of the pool or a new one. -/
  | get (i buf : ℕ)
  /-- The body is not captured. -/
  | skip (i : ℕ)
  /-- One read of `io.ReadFull`. -/
  | fill (i : ℕ)
  /-- `io.ReadFull` returns; whether it returns an error is not looked at. -/
  | filled (i : ℕ)
  /-- The connection to the client is found to be lost, which cancels the context. -/
  | hangUp (i : ℕ)
  /-- The balancer answers with an error: there is no backend, or none has been sent anything,
  since the context is cancelled or no connection can be made. -/
  | refuse (i : ℕ)
  /-- The first attempt that gets as far as sending the request. -/
  | forward (i : ℕ)
  /-- The attempt with the alternate backend, after the first one has failed. -/
  | retry (i : ℕ)
  /-- A transport reads `k` bytes for an attempt. -/
  | read (i attempt k : ℕ)
  /-- The handler returns, or panics; `bodyPool.Put`. -/
  | finish (i : ℕ)
  deriving DecidableEq

/-- Write into a buffer from the place `n` on. -/
def overwrite (buf : Bytes) (n : ℕ) (bytes : Bytes) : Bytes :=
  buf.take n ++ bytes ++ buf.drop (n + bytes.length)

/-- The state after bytes have been written into a buffer. -/
def State.write (s : State) (buf n : ℕ) (bytes : Bytes) : State :=
  { s with buffers := s.buffers.modify buf fun b ↦ overwrite b n bytes }

/-- The state after a handler has moved. -/
def State.move (s : State) (i : ℕ) (h : Handler) : State :=
  { s with handlers := s.handlers.set i h }

/-- `bodyPool.Get`. -/
def State.get? (s : State) (buf : ℕ) : Option State :=
  if buf ∈ s.free then some { s with free := s.free.erase buf }
  else if buf = s.buffers.length then some { s with buffers := s.buffers ++ [[]] }
  else none

/-- What a transport reads for an attempt that has got `received` so far, and the handler after
that.  A stream cannot be read any more when the handler has returned. -/
def Handler.read (s : State) (h : Handler) (received : Bytes) (k : ℕ) : Option (Bytes × Handler) :=
  match h.stage with
  | .proxying (.captured buf n) | .ended (.captured buf n) =>
    if received.length + k ≤ n then
      (s.buffers[buf]?).map fun bytes ↦ ((bytes.drop received.length).take k, h)
    else none
  | .proxying .stream =>
    let bytes := (h.incoming.arrived.drop h.streamed).take k
    some (bytes, { h with streamed := h.streamed + bytes.length })
  | _ => none

/-- A step of the handler `i`, which is `h`. -/
def step (s : State) (i : ℕ) (h : Handler) : Event → Option State
  | .get _ buf =>
    if h.stage = .arrived ∧ h.incoming.buffered then
      (s.get? buf).map fun t ↦ t.move i { h with stage := .reading buf 0 h.incoming.chunks }
    else none
  | .skip _ =>
    if h.stage = .arrived ∧ !h.incoming.buffered then
      some (s.move i { h with stage := .ready .stream })
    else none
  | .fill _ =>
    match h.stage with
    | .reading buf n (c :: rest) =>
      if n < bodyBufSize then
        let bytes := c.take (bodyBufSize - n)
        some ((s.write buf n bytes).move i
          { h with stage := .reading buf (n + bytes.length) rest })
      else none
    | _ => none
  | .filled _ =>
    match h.stage with
    | .reading buf n rest =>
      if n = bodyBufSize ∨ rest = [] then
        -- a full buffer hides how the reading would have ended
        let met := decide (n < bodyBufSize ∧ h.incoming.ending = .lost)
        some (s.move i { h with
          stage := .ready (.captured buf n), cancelled := h.cancelled || met })
      else none
    | _ => none
  | .hangUp _ => some (s.move i { h with cancelled := true })
  | .refuse _ =>
    match h.stage with
    | .ready src =>
      some ({ s with free := h.stage.buffer?.toList ++ s.free }.move i
        { h with stage := .ended src, refused := true })
    | _ => none
  | .forward _ =>
    match h.stage with
    | .ready src =>
      if h.cancelled then none
      else some (s.move i { h with stage := .proxying src, attempts := [[]] })
    | _ => none
  | .retry _ =>
    match h.stage with
    | .proxying _ =>
      if h.attempts.length = 1 ∧ !h.cancelled then
        some (s.move i { h with attempts := h.attempts ++ [[]] })
      else none
    | _ => none
  | .read _ a k =>
    match h.attempts[a]? with
    | some received =>
      (h.read s received k).map fun r ↦
        s.move i { r.2 with attempts := r.2.attempts.set a (received ++ r.1) }
    | none => none
  | .finish _ =>
    match h.stage with
    | .proxying src =>
      some ({ s with free := h.stage.buffer?.toList ++ s.free }.move i
        { h with stage := .ended src })
    | _ => none
  | .arrive _ => none

/-- The handler that takes the step. -/
def Event.handler : Event → ℕ
  | .arrive _ => 0
  | .get i _ | .skip i | .fill i | .filled i | .hangUp i | .refuse i | .forward i | .retry i
  | .read i _ _ | .finish i => i

/-- One event. -/
def next (s : State) : Event → Option State
  | .arrive x =>
    if x.request.builtin then none
    else some { s with handlers := s.handlers ++ [.fresh x] }
  | a => (s.handlers[a.handler]?).bind fun h ↦ step s a.handler h a

def initial : State := ⟨[], [], []⟩

/-- The handlers, with their clients and transports. -/
def system : System State Event := .ofFun (· = initial) next

/-! ## What the handlers have in their buffers

A handler owns its buffer from `Get` to its return.  Nothing that others do changes a buffer that
they do not own, so what a handler has read is still there when it is sent. -/

/-- A body that has been captured is what `capture` makes of it. -/
def Source.Holds (x : Incoming) (buffers : List Bytes) : Source → Prop
  | .captured buf n =>
    n = (capture x.arrived).body.length ∧
      ∃ b, buffers[buf]? = some b ∧ b.take n = (capture x.arrived).body
  | .stream => True

/-- What a handler has read is in its buffer. -/
def Stage.Holds (x : Incoming) (buffers : List Bytes) : Stage → Prop
  | .arrived => True
  | .reading buf n rest => ∃ b, buffers[buf]? = some b ∧ n ≤ b.length ∧ n ≤ bodyBufSize ∧
      b.take n = x.arrived.take n ∧
        (n = bodyBufSize ∨ x.arrived = x.arrived.take n ++ rest.flatten)
  | .ready src | .proxying src => src.Holds x buffers
  | .ended src => ∀ buf n, src = .captured buf n → n = (capture x.arrived).body.length

structure Handler.Sound (buffers : List Bytes) (h : Handler) : Prop where
  holds : h.stage.Holds h.incoming buffers
  unsent : h.stage.source? = none → h.attempts = [] ∧ h.streamed = 0
  /-- What the attempts have got of a stream is all that has been read of it. -/
  stream : h.stage = .proxying .stream → (h.attempts.map List.length).sum = h.streamed
  sent : ∀ src, h.stage = .proxying src → h.attempts ≠ []
  ended : ∀ src, h.stage = .ended src → h.attempts = [] → h.refused = true

/-- The handler `i` has the buffer. -/
def State.Holder (s : State) (i buf : ℕ) : Prop :=
  ∃ h, s.handlers[i]? = some h ∧ h.stage.buffer? = some buf

/-- **The invariant.** -/
structure Sound (s : State) : Prop where
  handlers : ∀ (i : ℕ) (h : Handler), s.handlers[i]? = some h → h.Sound s.buffers
  nodup : s.free.Nodup
  lt : ∀ buf ∈ s.free, buf < s.buffers.length
  notFree : ∀ i buf, s.Holder i buf → buf ∉ s.free
  exclusive : ∀ i j buf, s.Holder i buf → s.Holder j buf → i = j

/-! ## Buffers of others

The invariant speaks of the contents of buffers.  It is not touched by a write into another
buffer, and every handler but one has another buffer. -/

theorem Source.Holds.congr {x : Incoming} {buffers buffers' : List Bytes} {src : Source}
    (h : src.Holds x buffers)
    (heq : ∀ buf, src.buffer? = some buf → buffers'[buf]? = buffers[buf]?) :
    src.Holds x buffers' := by
  cases src with
  | captured buf n =>
    obtain ⟨hn, b, hb, htake⟩ := h
    exact ⟨hn, b, (heq buf rfl).trans hb, htake⟩
  | stream => trivial

theorem Stage.Holds.congr {x : Incoming} {buffers buffers' : List Bytes} {stage : Stage}
    (h : stage.Holds x buffers)
    (heq : ∀ buf, stage.buffer? = some buf → buffers'[buf]? = buffers[buf]?) :
    stage.Holds x buffers' := by
  cases stage with
  | arrived => trivial
  | reading buf n rest =>
    obtain ⟨b, hb, hrest⟩ := h
    exact ⟨b, (heq buf rfl).trans hb, hrest⟩
  | ready src => exact Source.Holds.congr h heq
  | proxying src => exact Source.Holds.congr h heq
  | ended src => exact h

theorem Source.Holds.lt {x : Incoming} {buffers : List Bytes} {src : Source} {buf : ℕ}
    (h : src.Holds x buffers) (hbuf : src.buffer? = some buf) : buf < buffers.length := by
  cases src with
  | captured buf' n =>
    obtain rfl := Option.some.inj hbuf
    obtain ⟨-, b, hb, -⟩ := h
    exact (List.getElem?_eq_some_iff.mp hb).1
  | stream => simp [Source.buffer?] at hbuf

/-- The buffer of a handler exists. -/
theorem Stage.Holds.lt {x : Incoming} {buffers : List Bytes} {stage : Stage} {buf : ℕ}
    (h : stage.Holds x buffers) (hbuf : stage.buffer? = some buf) : buf < buffers.length := by
  cases stage with
  | reading buf' n rest =>
    obtain rfl := Option.some.inj hbuf
    obtain ⟨b, hb, -⟩ := h
    exact (List.getElem?_eq_some_iff.mp hb).1
  | ready src => exact Source.Holds.lt h hbuf
  | proxying src => exact Source.Holds.lt h hbuf
  | arrived => simp [Stage.buffer?] at hbuf
  | ended src => simp [Stage.buffer?] at hbuf

theorem holder_move {s : State} {i j buf : ℕ} {h' : Handler} (hj : (s.move i h').Holder j buf) :
    (j = i ∧ h'.stage.buffer? = some buf) ∨ (j ≠ i ∧ s.Holder j buf) := by
  obtain ⟨x, hx, hbuf⟩ := hj
  rw [State.move, List.getElem?_set] at hx
  by_cases hij : i = j
  · rw [if_pos hij] at hx
    split at hx
    · exact Or.inl ⟨hij.symm, Option.some.inj hx ▸ hbuf⟩
    · simp at hx
  · rw [if_neg hij] at hx
    exact Or.inr ⟨Ne.symm hij, x, hx, hbuf⟩

/-- A handler moves, and the buffers of the others stay as they are. -/
theorem Sound.move {s t : State} {i : ℕ} {h' : Handler} (hs : Sound s)
    (ht : t.handlers = s.handlers) (hsound : h'.Sound t.buffers)
    (hothers : ∀ j buf, j ≠ i → s.Holder j buf →
      t.buffers[buf]? = s.buffers[buf]? ∧ buf ∉ t.free ∧ h'.stage.buffer? ≠ some buf)
    (hown : ∀ buf, h'.stage.buffer? = some buf → buf ∉ t.free) (hnodup : t.free.Nodup)
    (hlt : ∀ buf ∈ t.free, buf < t.buffers.length) : Sound (t.move i h') := by
  have hholder : ∀ j buf, t.Holder j buf → s.Holder j buf := by
    rintro j buf ⟨x, hx, hbuf⟩
    exact ⟨x, ht ▸ hx, hbuf⟩
  refine ⟨fun j x hx ↦ ?_, hnodup, hlt, fun j buf hj ↦ ?_, fun j k buf hj hk ↦ ?_⟩
  · rw [State.move, List.getElem?_set] at hx
    by_cases hij : i = j
    · rw [if_pos hij] at hx
      split at hx
      · exact Option.some.inj hx ▸ hsound
      · simp at hx
    · rw [if_neg hij, ht] at hx
      have hold := hs.handlers j x hx
      refine ⟨hold.holds.congr fun buf hbuf ↦ ?_, hold.unsent, hold.stream, hold.sent,
        hold.ended⟩
      exact (hothers j buf (Ne.symm hij) ⟨x, hx, hbuf⟩).1
  · rcases holder_move hj with ⟨-, hbuf⟩ | ⟨hne, hold⟩
    · exact hown buf hbuf
    · exact (hothers j buf hne (hholder j buf hold)).2.1
  · rcases holder_move hj with ⟨rfl, hbuf⟩ | ⟨hne, hold⟩
    · rcases holder_move hk with ⟨rfl, -⟩ | ⟨hne, hold⟩
      · rfl
      · exact absurd hbuf (hothers k buf hne (hholder k buf hold)).2.2
    · rcases holder_move hk with ⟨rfl, hbuf⟩ | ⟨-, hold'⟩
      · exact absurd hbuf (hothers j buf hne (hholder j buf hold)).2.2
      · exact hs.exclusive j k buf (hholder j buf hold) (hholder k buf hold')

/-- A handler moves, and keeps its buffer, if it has one. -/
theorem Sound.stay {s : State} {i : ℕ} {h h' : Handler} (hs : Sound s)
    (hi : s.handlers[i]? = some h) (hsound : h'.Sound s.buffers)
    (hbuffer : h'.stage.buffer? = h.stage.buffer?) : Sound (s.move i h') := by
  refine hs.move rfl hsound (fun j buf hne hj ↦ ?_) (fun buf hbuf ↦ ?_) hs.nodup hs.lt
  · refine ⟨rfl, hs.notFree j buf hj, fun hbuf ↦ hne ?_⟩
    exact hs.exclusive j i buf hj ⟨h, hi, hbuffer ▸ hbuf⟩
  · exact hs.notFree i buf ⟨h, hi, hbuffer ▸ hbuf⟩

theorem sound_get {s t : State} {buf : ℕ} (hs : Sound s) (i : ℕ) {h : Handler}
    (hunsent : h.attempts = [] ∧ h.streamed = 0) (ht : s.get? buf = some t) :
    Sound (t.move i { h with stage := .reading buf 0 h.incoming.chunks }) := by
  have hlt : ∀ j buf', s.Holder j buf' → buf' < s.buffers.length := by
    rintro j buf' ⟨x, hx, hbuf'⟩
    exact (hs.handlers j x hx).holds.lt hbuf'
  have hfilled : ∀ b : Bytes, 0 ≤ b.length ∧ 0 ≤ bodyBufSize ∧
      b.take 0 = h.incoming.arrived.take 0 ∧ (0 = bodyBufSize ∨
        h.incoming.arrived = h.incoming.arrived.take 0 ++ h.incoming.chunks.flatten) :=
    fun b ↦ ⟨Nat.zero_le _, Nat.zero_le _, rfl, Or.inr rfl⟩
  rw [State.get?] at ht
  split at ht
  · rename_i hfree
    obtain rfl := Option.some.inj ht
    have hbuf : s.buffers[buf]? = some _ := List.getElem?_eq_getElem (hs.lt buf hfree)
    refine hs.move rfl ⟨⟨_, hbuf, hfilled _⟩, fun _ ↦ hunsent, fun hstage ↦ by simp at hstage,
      fun src hstage ↦ by simp at hstage, fun src hstage ↦ by simp at hstage⟩ ?_ ?_
      (hs.nodup.erase buf) fun buf' hbuf' ↦ hs.lt buf' (List.mem_of_mem_erase hbuf')
    · intro j buf' _ hj
      have hnot := hs.notFree j buf' hj
      refine ⟨rfl, fun hmem ↦ hnot (List.mem_of_mem_erase hmem), fun heq ↦ hnot ?_⟩
      exact Option.some.inj heq ▸ hfree
    · intro buf' hbuf'
      obtain rfl := Option.some.inj hbuf'
      exact hs.nodup.not_mem_erase
  · split at ht
    · rename_i hnew
      obtain rfl := Option.some.inj ht
      subst hnew
      refine hs.move rfl ⟨⟨_, List.getElem?_concat_length, hfilled _⟩, fun _ ↦ hunsent,
        fun hstage ↦ by simp at hstage, fun src hstage ↦ by simp at hstage,
        fun src hstage ↦ by simp at hstage⟩ ?_ ?_ hs.nodup fun buf' hbuf' ↦ ?_
      · intro j buf' _ hj
        have hbuf' := hlt j buf' hj
        refine ⟨List.getElem?_append_left hbuf', hs.notFree j buf' hj, fun heq ↦ ?_⟩
        exact absurd (Option.some.inj heq) hbuf'.ne'
      · intro buf' hbuf'
        obtain rfl := Option.some.inj hbuf'
        exact fun hmem ↦ absurd (hs.lt _ hmem) (lt_irrefl _)
      · rw [List.length_append]
        exact (hs.lt buf' hbuf').trans (Nat.lt_succ_self _)
    · simp at ht

/-! ## Filling a buffer

`io.ReadFull` writes what it reads behind what it has read so far.  The buffer may hold the rest
of an earlier body behind that, which is why only its beginning is spoken of. -/

theorem take_overwrite {b bytes : Bytes} {n : ℕ} (hn : n ≤ b.length) :
    (overwrite b n bytes).take (n + bytes.length) = b.take n ++ bytes := by
  have hlen : (b.take n ++ bytes).length = n + bytes.length := by
    rw [List.length_append, List.length_take, min_eq_left hn]
  rw [overwrite, ← hlen]
  exact List.take_left

theorem le_length_overwrite {b bytes : Bytes} {n : ℕ} (hn : n ≤ b.length) :
    n + bytes.length ≤ (overwrite b n bytes).length := by
  have hle := List.length_take_le (n + bytes.length) (overwrite b n bytes)
  have htake : (overwrite b n bytes).take (n + bytes.length) = b.take n ++ bytes :=
    take_overwrite hn
  have hlen := congrArg List.length htake
  rw [List.length_append, List.length_take, List.length_take, min_eq_left hn] at hlen
  omega

/-- One read of `io.ReadFull`: the buffer has the beginning of the body, and either it is full or
the rest is still to be read. -/
theorem holds_fill {x : Incoming} {buffers : List Bytes} {buf n : ℕ} {c : Bytes} {rest : List Bytes}
    (hn : n < bodyBufSize) (h : (Stage.reading buf n (c :: rest)).Holds x buffers) :
    (Stage.reading buf (n + (c.take (bodyBufSize - n)).length) rest).Holds x
      (buffers.modify buf fun b ↦ overwrite b n (c.take (bodyBufSize - n))) := by
  obtain ⟨b, hb, hle, -, htake, hfull | hbody⟩ := h
  · omega
  · have hlen : (x.arrived.take n).length = n := by
      rw [← htake, List.length_take, min_eq_left hle]
    have hbytes : x.arrived.take (n + (c.take (bodyBufSize - n)).length) =
        x.arrived.take n ++ c.take (bodyBufSize - n) := by
      have hsplit : x.arrived = (x.arrived.take n ++ c.take (bodyBufSize - n)) ++
          (c.drop (bodyBufSize - n) ++ rest.flatten) := by
        rw [List.append_assoc, ← List.append_assoc (c.take _), List.take_append_drop]
        exact hbody
      exact (congrArg (List.take _) hsplit).trans
        (List.take_left' (by rw [List.length_append, hlen]))
    refine ⟨_, by rw [List.getElem?_modify_eq, hb]; rfl, ?_, ?_, ?_, ?_⟩
    · exact le_length_overwrite hle
    · rw [List.length_take]
      omega
    · rw [take_overwrite hle, htake, hbytes]
    · rw [hbytes, List.length_take]
      rcases Nat.le_total c.length (bodyBufSize - n) with hc | hc
      · refine Or.inr ?_
        rw [List.take_of_length_le hc, List.append_assoc]
        exact hbody
      · exact Or.inl (by omega)

/-- `io.ReadFull` returns: what is in the buffer is what `capture` makes of the body. -/
theorem holds_filled {x : Incoming} {buffers : List Bytes} {buf n : ℕ} {rest : List Bytes}
    (h : (Stage.reading buf n rest).Holds x buffers) (hdone : n = bodyBufSize ∨ rest = []) :
    (Source.captured buf n).Holds x buffers := by
  obtain ⟨b, hb, hle, hsize, htake, hbody⟩ := h
  have hlen : n ≤ x.arrived.length := by
    have hlength := congrArg List.length htake
    rw [List.length_take, List.length_take, min_eq_left hle] at hlength
    omega
  have hcapture : (capture x.arrived).body = x.arrived.take n := by
    rcases hdone with rfl | rfl
    · rfl
    · rcases hbody with rfl | hbody
      · rfl
      · have hall : x.arrived.length ≤ n := by
          rw [hbody, List.flatten_nil, List.append_nil]
          exact List.length_take_le _ _
        show x.arrived.take bodyBufSize = x.arrived.take n
        rw [List.take_of_length_le hall, List.take_of_length_le (hall.trans hsize)]
  refine ⟨?_, b, hb, by rw [hcapture, htake]⟩
  rw [hcapture, List.length_take, min_eq_left hlen]

theorem sound_fill {s : State} {i buf n : ℕ} {h : Handler} {c : Bytes} {rest : List Bytes}
    (hs : Sound s) (hi : s.handlers[i]? = some h) (hstage : h.stage = .reading buf n (c :: rest))
    (hn : n < bodyBufSize) :
    Sound ((s.write buf n (c.take (bodyBufSize - n))).move i
      { h with stage := .reading buf (n + (c.take (bodyBufSize - n)).length) rest }) := by
  have hsound := hs.handlers i h hi
  have hholder : s.Holder i buf := ⟨h, hi, by rw [hstage]; rfl⟩
  refine hs.move rfl ⟨holds_fill hn (hstage ▸ hsound.holds), fun _ ↦ ?_, fun hf ↦ by simp at hf,
    fun src hf ↦ by simp at hf, fun src hf ↦ by simp at hf⟩ (fun j buf' hne hj ↦ ?_)
    (fun buf' hbuf' ↦ ?_) hs.nodup fun buf' hbuf' ↦ ?_
  · exact hsound.unsent (by rw [hstage]; rfl)
  · have hother : buf ≠ buf' := fun heq ↦ hne (hs.exclusive j i buf' hj (heq ▸ hholder))
    refine ⟨List.getElem?_modify_ne _ _ hother, hs.notFree j buf' hj, fun heq ↦ ?_⟩
    exact hother (Option.some.inj heq)
  · obtain rfl := Option.some.inj hbuf'
    exact hs.notFree i buf hholder
  · rw [State.write, List.length_modify]
    exact hs.lt buf' hbuf'

theorem sound_finish {s : State} {i : ℕ} {h : Handler} {src : Source} (hs : Sound s)
    (hi : s.handlers[i]? = some h) (hstage : h.stage.buffer? = src.buffer?)
    (hholds : src.Holds h.incoming s.buffers) {refused : Bool}
    (hrefused : h.attempts = [] → refused = true) :
    Sound (({ s with free := h.stage.buffer?.toList ++ s.free } : State).move i
      { h with stage := .ended src, refused := refused }) := by
  have hown : ∀ buf, buf ∈ h.stage.buffer?.toList → s.Holder i buf := fun buf hbuf ↦
    ⟨h, hi, Option.mem_toList.mp hbuf⟩
  refine hs.move rfl ⟨fun buf n hsrc ↦ ?_, fun hf ↦ by simp [Stage.source?] at hf,
    fun hf ↦ by simp at hf, fun src hf ↦ by simp at hf, fun _ _ ↦ hrefused⟩
    (fun j buf hne hj ↦ ⟨rfl, fun hmem ↦ ?_, by simp [Stage.buffer?]⟩)
    (fun buf hbuf ↦ by simp [Stage.buffer?] at hbuf) ?_ fun buf hbuf ↦ ?_
  · subst hsrc
    exact hholds.1
  · rcases List.mem_append.mp hmem with hmem | hmem
    · exact hne (hs.exclusive j i buf hj (hown buf hmem))
    · exact hs.notFree j buf hj hmem
  · refine List.nodup_append.mpr ⟨?_, hs.nodup, fun buf hbuf buf' hbuf' heq ↦ ?_⟩
    · cases h.stage.buffer? with
      | none => exact List.nodup_nil
      | some buf => exact List.nodup_singleton buf
    · exact hs.notFree i buf (hown buf hbuf) (heq ▸ hbuf')
  · rcases List.mem_append.mp hbuf with hmem | hmem
    · exact hholds.lt (hstage ▸ Option.mem_toList.mp hmem)
    · exact hs.lt buf hmem

theorem sound_arrive {s : State} (hs : Sound s) (x : Incoming) :
    Sound { s with handlers := s.handlers ++ [.fresh x] } := by
  have hget : ∀ (i : ℕ) (h : Handler),
      (s.handlers ++ [.fresh x])[i]? = some h →
        s.handlers[i]? = some h ∨ h = .fresh x := by
    intro i h hi
    rw [List.getElem?_append] at hi
    split at hi
    · exact Or.inl hi
    · rw [List.getElem?_singleton] at hi
      split at hi
      · exact Or.inr (Option.some.inj hi).symm
      · simp at hi
  have hholder : ∀ i buf,
      State.Holder { s with handlers := s.handlers ++ [.fresh x] } i buf →
        s.Holder i buf := by
    rintro i buf ⟨h, hi, hbuf⟩
    rcases hget i h hi with hi | rfl
    · exact ⟨h, hi, hbuf⟩
    · simp [Handler.fresh, Stage.buffer?] at hbuf
  refine ⟨fun i h hi ↦ ?_, hs.nodup, hs.lt, fun i buf hi ↦ hs.notFree i buf (hholder i buf hi),
    fun i j buf hi hj ↦ hs.exclusive i j buf (hholder i buf hi) (hholder j buf hj)⟩
  rcases hget i h hi with hi | rfl
  · exact hs.handlers i h hi
  · exact ⟨trivial, fun _ ↦ ⟨rfl, rfl⟩, fun hf ↦ by simp [Handler.fresh] at hf,
      fun src hf ↦ by simp [Handler.fresh] at hf, fun src hf ↦ by simp [Handler.fresh] at hf⟩

/-! ## One step

Every step concerns one handler.  `Sound.move` has what the steps have in common: the others keep
what they have, and only the handler that moves has to be looked at. -/

/-- One of the attempts gets some bytes. -/
theorem sum_set_append {attempts : List Bytes} {a : ℕ} {received : Bytes}
    (ha : attempts[a]? = some received) (bytes : Bytes) :
    ((attempts.set a (received ++ bytes)).map List.length).sum =
      (attempts.map List.length).sum + bytes.length := by
  induction attempts generalizing a with
  | nil => simp at ha
  | cons r attempts ih =>
    cases a with
    | zero =>
      obtain rfl := Option.some.inj ha
      simp only [List.set_cons_zero, List.map_cons, List.sum_cons, List.length_append]
      omega
    | succ a =>
      simp only [List.set_cons_succ, List.map_cons, List.sum_cons, ih ha]
      omega

/-- What a transport reads leaves the handler sound. -/
theorem sound_read {s : State} {h h' : Handler} {a k : ℕ} {received bytes : Bytes}
    (hsound : h.Sound s.buffers) (ha : h.attempts[a]? = some received)
    (hread : h.read s received k = some (bytes, h')) :
    h'.stage = h.stage ∧ h'.incoming = h.incoming ∧ h'.attempts = h.attempts ∧
      Handler.Sound s.buffers { h' with attempts := h'.attempts.set a (received ++ bytes) } := by
  have hsent : h.stage.source? ≠ none := by
    intro hnone
    rw [(hsound.unsent hnone).1] at ha
    simp at ha
  have hset : h.attempts.set a (received ++ bytes) ≠ [] := by
    intro hnil
    have hlength := congrArg List.length hnil
    rw [List.length_set] at hlength
    rw [List.eq_nil_of_length_eq_zero hlength] at ha
    simp at ha
  rw [Handler.read] at hread
  split at hread
  · rename_i buf n hstage
    simp only [Option.ite_none_right_eq_some, Option.map_eq_some_iff, Prod.mk.injEq] at hread
    obtain ⟨-, b, -, -, rfl⟩ := hread
    exact ⟨rfl, rfl, rfl, hsound.holds, fun hnone ↦ absurd hnone hsent,
      fun hf ↦ by simp [hstage] at hf, fun _ _ ↦ hset, fun _ _ hnil ↦ absurd hnil hset⟩
  · rename_i buf n hstage
    simp only [Option.ite_none_right_eq_some, Option.map_eq_some_iff, Prod.mk.injEq] at hread
    obtain ⟨-, b, -, -, rfl⟩ := hread
    exact ⟨rfl, rfl, rfl, hsound.holds, fun hnone ↦ absurd hnone hsent,
      fun hf ↦ by simp [hstage] at hf, fun _ _ ↦ hset, fun _ _ hnil ↦ absurd hnil hset⟩
  · rename_i hstage
    obtain ⟨rfl, rfl⟩ := Prod.mk.inj (Option.some.inj hread)
    refine ⟨rfl, rfl, rfl, hsound.holds, fun hnone ↦ absurd hnone hsent, fun _ ↦ ?_,
      fun _ _ ↦ hset, fun _ _ hnil ↦ absurd hnil hset⟩
    rw [sum_set_append ha, hsound.stream hstage]
  · simp at hread

/-! ## The inversion of a step

A step is a nested case distinction over the place of a handler and over what the client and the
transport do.  `Does` lists what can come of it, with the guards. -/

/-- What the steps do. -/
inductive Does (s : State) : Event → State → Prop
  | arrive (x : Incoming) :
      Does s (.arrive x) { s with handlers := s.handlers ++ [.fresh x] }
  | get {i buf : ℕ} {h : Handler} {t : State} (hi : s.handlers[i]? = some h)
      (hstage : h.stage = .arrived) (ht : s.get? buf = some t) :
      Does s (.get i buf) (t.move i { h with stage := .reading buf 0 h.incoming.chunks })
  | skip {i : ℕ} {h : Handler} (hi : s.handlers[i]? = some h) (hstage : h.stage = .arrived) :
      Does s (.skip i) (s.move i { h with stage := .ready .stream })
  | fill {i buf n : ℕ} {h : Handler} {c : Bytes} {rest : List Bytes}
      (hi : s.handlers[i]? = some h) (hstage : h.stage = .reading buf n (c :: rest))
      (hn : n < bodyBufSize) :
      Does s (.fill i) ((s.write buf n (c.take (bodyBufSize - n))).move i
        { h with stage := .reading buf (n + (c.take (bodyBufSize - n)).length) rest })
  | filled {i buf n : ℕ} {h : Handler} {rest : List Bytes} (hi : s.handlers[i]? = some h)
      (hstage : h.stage = .reading buf n rest) (hdone : n = bodyBufSize ∨ rest = []) :
      Does s (.filled i) (s.move i { h with
        stage := .ready (.captured buf n)
        cancelled := h.cancelled || decide (n < bodyBufSize ∧ h.incoming.ending = .lost) })
  | hangUp {i : ℕ} {h : Handler} (hi : s.handlers[i]? = some h) :
      Does s (.hangUp i) (s.move i { h with cancelled := true })
  | refuse {i : ℕ} {h : Handler} {src : Source} (hi : s.handlers[i]? = some h)
      (hstage : h.stage = .ready src) :
      Does s (.refuse i) (({ s with free := h.stage.buffer?.toList ++ s.free } : State).move i
        { h with stage := .ended src, refused := true })
  | forward {i : ℕ} {h : Handler} {src : Source} (hi : s.handlers[i]? = some h)
      (hstage : h.stage = .ready src) (hcancelled : h.cancelled = false) :
      Does s (.forward i) (s.move i { h with stage := .proxying src, attempts := [[]] })
  | retry {i : ℕ} {h : Handler} {src : Source} (hi : s.handlers[i]? = some h)
      (hstage : h.stage = .proxying src) (hone : h.attempts.length = 1) :
      Does s (.retry i) (s.move i { h with attempts := h.attempts ++ [[]] })
  | read {i a k : ℕ} {h h' : Handler} {received bytes : Bytes} (hi : s.handlers[i]? = some h)
      (ha : h.attempts[a]? = some received) (hread : h.read s received k = some (bytes, h')) :
      Does s (.read i a k)
        (s.move i { h' with attempts := h'.attempts.set a (received ++ bytes) })
  | finish {i : ℕ} {h : Handler} {src : Source} (hi : s.handlers[i]? = some h)
      (hstage : h.stage = .proxying src) :
      Does s (.finish i) (({ s with free := h.stage.buffer?.toList ++ s.free } : State).move i
        { h with stage := .ended src })

/-- **The inversion of a step.** -/
theorem next_cases {s s' : State} {a : Event} (hnext : next s a = some s') : Does s a s' := by
  cases a with
  | arrive x =>
    simp only [Bodies.next, Option.ite_none_left_eq_some, Option.some.injEq] at hnext
    exact hnext.2 ▸ .arrive x
  | get i buf =>
    obtain ⟨h, hi, hstep⟩ := Option.bind_eq_some_iff.mp hnext
    simp only [step, Option.ite_none_right_eq_some, Option.map_eq_some_iff] at hstep
    obtain ⟨⟨hstage, -⟩, t, ht, rfl⟩ := hstep
    exact .get hi hstage ht
  | skip i =>
    obtain ⟨h, hi, hstep⟩ := Option.bind_eq_some_iff.mp hnext
    simp only [step, Option.ite_none_right_eq_some, Option.some.injEq] at hstep
    obtain ⟨⟨hstage, -⟩, rfl⟩ := hstep
    exact .skip hi hstage
  | fill i =>
    obtain ⟨h, hi, hstep⟩ := Option.bind_eq_some_iff.mp hnext
    simp only [step] at hstep
    split at hstep
    · rename_i buf n c rest hstage
      simp only [Option.ite_none_right_eq_some, Option.some.injEq] at hstep
      obtain ⟨hn, rfl⟩ := hstep
      exact .fill hi hstage hn
    · simp at hstep
  | filled i =>
    obtain ⟨h, hi, hstep⟩ := Option.bind_eq_some_iff.mp hnext
    simp only [step] at hstep
    split at hstep
    · rename_i buf n rest hstage
      simp only [Option.ite_none_right_eq_some, Option.some.injEq] at hstep
      obtain ⟨hdone, rfl⟩ := hstep
      exact .filled hi hstage hdone
    · simp at hstep
  | hangUp i =>
    obtain ⟨h, hi, hstep⟩ := Option.bind_eq_some_iff.mp hnext
    exact Option.some.inj hstep ▸ .hangUp hi
  | refuse i =>
    obtain ⟨h, hi, hstep⟩ := Option.bind_eq_some_iff.mp hnext
    simp only [step] at hstep
    split at hstep
    · rename_i src hstage
      exact Option.some.inj hstep ▸ .refuse hi hstage
    · simp at hstep
  | forward i =>
    obtain ⟨h, hi, hstep⟩ := Option.bind_eq_some_iff.mp hnext
    simp only [step] at hstep
    split at hstep
    · rename_i src hstage
      split at hstep
      · simp at hstep
      · rename_i hcancelled
        exact Option.some.inj hstep ▸ .forward hi hstage (by simpa using hcancelled)
    · simp at hstep
  | retry i =>
    obtain ⟨h, hi, hstep⟩ := Option.bind_eq_some_iff.mp hnext
    simp only [step] at hstep
    split at hstep
    · rename_i src hstage
      simp only [Option.ite_none_right_eq_some, Option.some.injEq] at hstep
      obtain ⟨⟨hone, -⟩, rfl⟩ := hstep
      exact .retry hi hstage hone
    · simp at hstep
  | read i attempt k =>
    obtain ⟨h, hi, hstep⟩ := Option.bind_eq_some_iff.mp hnext
    simp only [step] at hstep
    split at hstep
    · rename_i received ha
      obtain ⟨r, hread, rfl⟩ := Option.map_eq_some_iff.mp hstep
      exact .read hi ha hread
    · simp at hstep
  | finish i =>
    obtain ⟨h, hi, hstep⟩ := Option.bind_eq_some_iff.mp hnext
    simp only [step] at hstep
    split at hstep
    · rename_i src hstage
      exact Option.some.inj hstep ▸ .finish hi hstage
    · simp at hstep

/-- **Every step keeps the invariant.** -/
theorem Sound.next {s s' : State} {a : Event} (hs : Sound s) (hnext : next s a = some s') :
    Sound s' := by
  cases next_cases hnext with
  | arrive x => exact sound_arrive hs x
  | @get i buf h t hi hstage ht =>
    exact sound_get hs i ((hs.handlers i h hi).unsent (by rw [hstage]; rfl)) ht
  | @skip i h hi hstage =>
    refine hs.stay hi ⟨trivial, fun _ ↦ ?_, fun hf ↦ by simp at hf, fun src hf ↦ by simp at hf,
      fun src hf ↦ by simp at hf⟩ (by rw [hstage]; rfl)
    exact (hs.handlers i h hi).unsent (by rw [hstage]; rfl)
  | fill hi hstage hn => exact sound_fill hs hi hstage hn
  | @filled i buf n h rest hi hstage hdone =>
    have hsound := hs.handlers i h hi
    refine hs.stay hi ⟨holds_filled (hstage ▸ hsound.holds) hdone, fun _ ↦ ?_,
      fun hf ↦ by simp at hf, fun src hf ↦ by simp at hf, fun src hf ↦ by simp at hf⟩
      (by rw [hstage]; rfl)
    exact hsound.unsent (by rw [hstage]; rfl)
  | @hangUp i h hi =>
    have hsound := hs.handlers i h hi
    exact hs.stay hi ⟨hsound.holds, hsound.unsent, hsound.stream, hsound.sent,
      hsound.ended⟩ rfl
  | @refuse i h src hi hstage =>
    have hholds := (hs.handlers i h hi).holds
    rw [hstage] at hholds
    exact sound_finish hs hi (by rw [hstage]; rfl) hholds fun _ ↦ rfl
  | @forward i h src hi hstage _ =>
    have hsound := hs.handlers i h hi
    obtain ⟨-, hstreamed⟩ := hsound.unsent (by rw [hstage]; rfl)
    have hholds : (Stage.ready src).Holds h.incoming s.buffers := hstage ▸ hsound.holds
    exact hs.stay hi ⟨hholds, fun hf ↦ by simp [Stage.source?] at hf, fun _ ↦ hstreamed.symm,
      fun _ _ ↦ List.cons_ne_nil _ _, fun src hf ↦ by simp at hf⟩ (by rw [hstage]; rfl)
  | @retry i h src hi hstage hone =>
    have hsound := hs.handlers i h hi
    refine hs.stay hi ⟨hsound.holds, fun hf ↦ by simp [hstage, Stage.source?] at hf, fun hf ↦ ?_,
      fun _ _ ↦ by simp, fun _ _ hnil ↦ absurd hnil (by simp)⟩ rfl
    rw [List.map_append, List.sum_append]
    exact hsound.stream hf
  | @read i a k h h' received bytes hi ha hread =>
    obtain ⟨hstage, -, -, hsound⟩ := sound_read (hs.handlers i h hi) ha hread
    exact hs.stay hi hsound (congrArg Stage.buffer? hstage)
  | @finish i h src hi hstage =>
    have hsound := hs.handlers i h hi
    have hholds := hsound.holds
    rw [hstage] at hholds
    refine sound_finish hs hi (by rw [hstage]; rfl) hholds fun hnil ↦ ?_
    exact absurd hnil (hsound.sent src hstage)

theorem sound_initial : Sound initial := by
  refine ⟨fun i h hi ↦ by simp [initial] at hi, List.nodup_nil, fun buf hbuf ↦ ?_, ?_, ?_⟩
  · simp [initial] at hbuf
  · rintro i buf ⟨h, hi, -⟩
    simp [initial] at hi
  · rintro i j buf ⟨h, hi, -⟩
    simp [initial] at hi

/-! ## What the backends get

The bytes that an attempt has been given are compared with the body of the request that it belongs
to.  A body that is announced with a wrong length is read by a backend as something else, so the
length is a part of the statement. -/

/-- Every attempt has been given the beginning of the body that the client sends, and a captured
body that is sent is announced with the length of that body.  Where nothing has been sent, the
balancer has answered with an error. -/
structure Handler.Faithful (h : Handler) : Prop where
  received : ∀ received ∈ h.attempts, received <+: h.incoming.body
  announced : ∀ buf n, h.stage.source? = some (.captured buf n) → h.attempts ≠ [] →
    n = h.incoming.body.length
  refused : ∀ src, h.stage = .ended src → h.attempts = [] → h.refused = true

/-- A captured body that has been sent completely is the body of the client. -/
theorem Handler.Faithful.received_eq {h : Handler} (hf : h.Faithful) {buf : ℕ} {received : Bytes}
    (hsrc : h.stage.source? = some (.captured buf received.length))
    (hmem : received ∈ h.attempts) : received = h.incoming.body :=
  (hf.received received hmem).eq_of_length
    (hf.announced buf received.length hsrc (List.ne_nil_of_mem hmem))

/-- All bodies are forwarded faithfully. -/
def Faithful (s : State) : Prop :=
  ∀ (i : ℕ) (h : Handler), s.handlers[i]? = some h → h.Faithful

/-! The two things that can go wrong are that the buffer does not hold the whole body when it is
sent, and that somebody reads it later. -/

/-- The whole body has arrived, and it fits into the buffer. -/
structure Incoming.Whole (x : Incoming) : Prop where
  arrived : x.arrived = x.body
  fits : x.body.length ≤ bodyBufSize

/-- A captured body that is forwarded is whole. -/
def ForwardsWhole (s : State) : Event → Prop
  | .forward i => ∀ h buf n, s.handlers[i]? = some h → h.stage = .ready (.captured buf n) →
      h.incoming.Whole
  | _ => True

/-- A transport may read for the attempt: the handler is still there; and if the body is a stream,
no other attempt has got anything of it. -/
def Handler.InTime (h : Handler) (a : ℕ) : Prop :=
  ∃ src, h.stage = .proxying src ∧ (src = .stream →
    ∀ b received, b ≠ a → h.attempts[b]? = some received → received = [])

/-- No transport reads too late. -/
def ReadsInTime (s : State) : Event → Prop
  | .read i a _ => ∀ h, s.handlers[i]? = some h → h.InTime a
  | _ => True

/-- A part of a list that lies in its first `n` elements. -/
theorem take_drop_take {b : Bytes} {r k n : ℕ} (h : r + k ≤ n) :
    ((b.take n).drop r).take k = (b.drop r).take k := by
  rw [List.drop_take, List.take_take, min_eq_left (by omega)]

/-- All that has been read of a stream has been read for the only attempt that has got anything. -/
theorem sum_eq_length {attempts : List Bytes} {a : ℕ} {received : Bytes}
    (ha : attempts[a]? = some received)
    (hothers : ∀ b r, b ≠ a → attempts[b]? = some r → r = []) :
    (attempts.map List.length).sum = received.length := by
  induction attempts generalizing a with
  | nil => simp at ha
  | cons r attempts ih =>
    rw [List.map_cons, List.sum_cons]
    cases a with
    | zero =>
      obtain rfl := Option.some.inj ha
      have hzero : (attempts.map List.length).sum = 0 := by
        refine List.sum_eq_zero fun m hm ↦ ?_
        obtain ⟨r', hr', rfl⟩ := List.mem_map.mp hm
        obtain ⟨b, hb⟩ := List.mem_iff_getElem?.mp hr'
        rw [hothers (b + 1) r' (Nat.succ_ne_zero b) hb]
        rfl
      rw [hzero, Nat.add_zero]
    | succ a =>
      rw [hothers 0 r (Nat.succ_ne_zero a).symm rfl, List.length_nil, Nat.zero_add]
      exact ih ha fun b r' hb ↦ hothers (b + 1) r' fun heq ↦ hb (Nat.succ.inj heq)

/-- A transport that reads in time reads the body. -/
theorem read_of_inTime {s : State} {h h' : Handler} {a k : ℕ} {received bytes : Bytes}
    (hsound : h.Sound s.buffers) (hin : h.InTime a) (ha : h.attempts[a]? = some received)
    (hread : h.read s received k = some (bytes, h')) :
    bytes <+: h.incoming.body.drop received.length := by
  obtain ⟨src, hstage, hone⟩ := hin
  have hholds : (Stage.proxying src).Holds h.incoming s.buffers := hstage ▸ hsound.holds
  have harrived : ∀ r, (h.incoming.arrived.drop r).take k <+: h.incoming.body.drop r := fun r ↦
    (List.take_prefix _ _).trans (h.incoming.chunks_prefix.drop r)
  rw [Handler.read, hstage] at hread
  cases src with
  | captured buf n =>
    obtain ⟨hn, b, hb, htake⟩ := hholds
    simp only [hb, Option.ite_none_right_eq_some, Option.map_some, Option.some.injEq,
      Prod.mk.injEq] at hread
    obtain ⟨hle, rfl, -⟩ := hread
    have hsize : n ≤ bodyBufSize := hn ▸ List.length_take_le _ _
    have hcapture : (capture h.incoming.arrived).body = h.incoming.arrived.take bodyBufSize := rfl
    rw [← take_drop_take hle, htake, hcapture, take_drop_take (hle.trans hsize)]
    exact harrived _
  | stream =>
    obtain ⟨rfl, -⟩ := Prod.mk.inj (Option.some.inj hread)
    rw [← hsound.stream hstage, sum_eq_length ha (hone rfl)]
    exact harrived _

/-! ## The condition for a step

Whether the handlers remain faithful is decided where a body is forwarded and where a transport
reads.  All other steps move a handler between places in which nothing has been sent. -/

theorem faithful_move {s t : State} {i : ℕ} {h h' : Handler} (hf : Faithful s)
    (hi : s.handlers[i]? = some h) (ht : t.handlers = s.handlers) :
    Faithful (t.move i h') ↔ h'.Faithful := by
  obtain ⟨hlt, -⟩ := List.getElem?_eq_some_iff.mp hi
  have hget : ∀ j, (t.move i h').handlers[j]? = if i = j then some h' else s.handlers[j]? := by
    intro j
    rw [State.move, ht, List.getElem?_set]
    by_cases hij : i = j
    · rw [if_pos hij, if_pos hij, if_pos hlt]
    · rw [if_neg hij, if_neg hij]
  constructor
  · intro hall
    exact hall i h' (by rw [hget, if_pos rfl])
  · intro hnew j x hx
    rw [hget] at hx
    by_cases hij : i = j
    · rw [if_pos hij] at hx
      exact Option.some.inj hx ▸ hnew
    · rw [if_neg hij] at hx
      exact hf j x hx

/-- A handler that has not sent anything is faithful, if it does not end so. -/
theorem faithful_of_unsent {h : Handler} (hnil : h.attempts = [])
    (hended : ∀ src, h.stage = .ended src → h.refused = true) : h.Faithful :=
  ⟨fun received hmem ↦ by simp [hnil] at hmem, fun _ _ _ hne ↦ absurd hnil hne,
    fun src hstage _ ↦ hended src hstage⟩

/-- What has been captured has the length of the body exactly if the body is whole. -/
theorem length_capture_eq_iff (x : Incoming) :
    (capture x.arrived).body.length = x.body.length ↔ x.Whole := by
  have hle : x.arrived.length ≤ x.body.length := x.chunks_prefix.length_le
  have hcapture : (capture x.arrived).body.length = min bodyBufSize x.arrived.length :=
    List.length_take
  rw [hcapture]
  constructor
  · intro heq
    have hlength : x.arrived.length = x.body.length := by omega
    exact ⟨x.chunks_prefix.eq_of_length hlength, by omega⟩
  · intro hwhole
    rw [hwhole.arrived, min_eq_right hwhole.fits]

/-- A captured body that is forwarded has to be whole. -/
theorem faithful_forward_iff {s : State} {i : ℕ} {h : Handler} {src : Source}
    (hs : Sound s) (hi : s.handlers[i]? = some h) (hstage : h.stage = .ready src) :
    Handler.Faithful { h with stage := .proxying src, attempts := [[]] } ↔
      ForwardsWhole s (.forward i) := by
  have hholds : (Stage.ready src).Holds h.incoming s.buffers := hstage ▸ (hs.handlers i h hi).holds
  constructor
  · intro hnew h₁ buf n hi₁ hstage₁
    obtain rfl := Option.some.inj (hi.symm.trans hi₁)
    obtain rfl := Stage.ready.inj (hstage.symm.trans hstage₁)
    have hlength : n = h.incoming.body.length := hnew.announced buf n rfl (List.cons_ne_nil _ _)
    exact (length_capture_eq_iff h.incoming).mp (hholds.1.symm.trans hlength)
  · intro hkeep
    refine ⟨fun received hmem ↦ ?_, fun buf n hsrc _ ↦ ?_, fun src hended ↦ by simp at hended⟩
    · obtain rfl := List.mem_singleton.mp hmem
      exact List.nil_prefix
    · obtain rfl := Option.some.inj hsrc
      exact hholds.1.trans ((length_capture_eq_iff h.incoming).mpr (hkeep h buf n hi hstage))

/-- What is read in time keeps the handler faithful. -/
theorem faithful_read {s : State} {i a k : ℕ} {h h' : Handler} {received bytes : Bytes}
    (hs : Sound s) (hold : h.Faithful) (hi : s.handlers[i]? = some h)
    (ha : h.attempts[a]? = some received) (hread : h.read s received k = some (bytes, h'))
    (hin : h.InTime a) :
    Handler.Faithful { h' with attempts := h'.attempts.set a (received ++ bytes) } := by
  have hsound := hs.handlers i h hi
  obtain ⟨hstage, hincoming, hattempts, hsound'⟩ := sound_read hsound ha hread
  obtain ⟨rest, hrest⟩ := hold.received received (List.mem_of_getElem? ha)
  have hbytes : received ++ bytes <+: h.incoming.body := by
    have hprefix := read_of_inTime hsound hin ha hread
    rw [← hrest, List.drop_left] at hprefix
    rw [← hrest]
    exact (List.prefix_append_right_inj received).mpr hprefix
  refine ⟨fun received' hmem ↦ ?_, fun buf n hsrc _ ↦ ?_, hsound'.ended⟩
  · rcases List.mem_or_eq_of_mem_set hmem with hmem | rfl
    · exact hincoming ▸ hold.received received' (hattempts ▸ hmem)
    · exact hincoming ▸ hbytes
  · refine hincoming ▸ hold.announced buf n (hstage ▸ hsrc) fun hnil ↦ ?_
    simp [hnil] at ha

/-- `bodyPool.Get` is none of the handlers' business. -/
theorem handlers_get? {s t : State} {buf : ℕ} (ht : s.get? buf = some t) :
    t.handlers = s.handlers := by
  rw [State.get?] at ht
  split at ht
  · exact Option.some.inj ht ▸ rfl
  · split at ht
    · exact Option.some.inj ht ▸ rfl
    · simp at ht

/-! ## The exact condition

The lemmas for single steps are put together: a step keeps the bodies faithful exactly if it meets
the condition, as long as no transport reads too late. -/

/-- **The exact condition for a step**, unless a transport reads too late. -/
theorem faithful_next_iff {s s' : State} {a : Event} (hs : Sound s) (hf : Faithful s)
    (hin : ReadsInTime s a) (hnext : next s a = some s') : Faithful s' ↔ ForwardsWhole s a := by
  have hunsent : ∀ (i : ℕ) (h : Handler), s.handlers[i]? = some h → h.stage.source? = none →
      h.attempts = [] := fun i h hi hnone ↦ ((hs.handlers i h hi).unsent hnone).1
  cases next_cases hnext with
  | arrive x =>
    refine iff_of_true (fun i h hi ↦ ?_) trivial
    rw [List.getElem?_append] at hi
    split at hi
    · exact hf i h hi
    · rw [List.getElem?_singleton] at hi
      split at hi
      · refine Option.some.inj hi ▸ faithful_of_unsent rfl fun src hstage ↦ ?_
        simp [Handler.fresh] at hstage
      · simp at hi
  | @get i buf h t hi hstage ht =>
    refine iff_of_true ((faithful_move hf hi (handlers_get? ht)).mpr
      (faithful_of_unsent ?_ fun src hended ↦ by simp at hended)) trivial
    exact hunsent i h hi (by rw [hstage]; rfl)
  | @skip i h hi hstage =>
    refine iff_of_true ((faithful_move hf hi rfl).mpr
      (faithful_of_unsent ?_ fun src hended ↦ by simp at hended)) trivial
    exact hunsent i h hi (by rw [hstage]; rfl)
  | @fill i buf n h c rest hi hstage hn =>
    refine iff_of_true ((faithful_move hf hi rfl).mpr
      (faithful_of_unsent ?_ fun src hended ↦ by simp at hended)) trivial
    exact hunsent i h hi (by rw [hstage]; rfl)
  | @filled i buf n h rest hi hstage hdone =>
    refine iff_of_true ((faithful_move hf hi rfl).mpr
      (faithful_of_unsent ?_ fun src hended ↦ by simp at hended)) trivial
    exact hunsent i h hi (by rw [hstage]; rfl)
  | @hangUp i h hi =>
    have hold := hf i h hi
    exact iff_of_true ((faithful_move hf hi rfl).mpr
      ⟨hold.received, hold.announced, hold.refused⟩) trivial
  | @refuse i h src hi hstage =>
    refine iff_of_true ((faithful_move hf hi rfl).mpr
      (faithful_of_unsent ?_ fun _ _ ↦ rfl)) trivial
    exact hunsent i h hi (by rw [hstage]; rfl)
  | forward hi hstage => exact (faithful_move hf hi rfl).trans (faithful_forward_iff hs hi hstage)
  | @retry i h src hi hstage hone =>
    have hold := hf i h hi
    refine iff_of_true ((faithful_move hf hi rfl).mpr ⟨fun received hmem ↦ ?_, ?_, ?_⟩) trivial
    · rcases List.mem_append.mp hmem with hmem | hmem
      · exact hold.received received hmem
      · obtain rfl := List.mem_singleton.mp hmem
        exact List.nil_prefix
    · exact fun buf n hsrc _ ↦ hold.announced buf n hsrc ((hs.handlers i h hi).sent src hstage)
    · exact fun src' hended _ ↦ by simp [hstage] at hended
  | @read i a k h h' received bytes hi ha hread =>
    refine iff_of_true ((faithful_move hf hi rfl).mpr ?_) trivial
    exact faithful_read hs (hf i h hi) hi ha hread (hin h hi)
  | @finish i h src hi hstage =>
    have hold := hf i h hi
    have hsent := (hs.handlers i h hi).sent src hstage
    refine iff_of_true ((faithful_move hf hi rfl).mpr
      ⟨hold.received, fun buf n hsrc ↦ ?_, fun _ _ hnil ↦ absurd hnil hsent⟩) trivial
    exact hold.announced buf n (by rw [hstage]; exact hsrc)

/-- **When bodies are forwarded faithfully.**  They are in all states of a run in which the captured
bodies that are forwarded are whole, and the transports read in time.  Among the runs whose
transports read in time, there are no others. -/
theorem faithful_of_whole {l : List Event} {s : State} :
    ((system.when fun s a ↦ ForwardsWhole s a ∧ ReadsInTime s a).Trace initial l s →
      ∀ l₁ t, l₁ <+: l → System.exec next initial l₁ = some t → Faithful t) ∧
    ((system.when ReadsInTime).Trace initial l s →
      (∀ l₁ t, l₁ <+: l → System.exec next initial l₁ = some t → Faithful t) →
      (system.when ForwardsWhole).Trace initial l s) := by
  have hexact : (system.when ReadsInTime).Trace initial l s → _ := fun hin ↦
    hin.forall_prefix_iff_when (I := Faithful) (J := Sound) (C := ForwardsWhole)
      (fun _ _ _ hs hnext ↦ hs.next hnext)
      (fun _ _ _ hs hf hD hnext ↦ faithful_next_iff hs hf hD hnext) sound_initial
      fun i h hi ↦ by simp [initial] at hi
  refine ⟨fun hkeeps ↦ ?_, fun hin ↦ (hexact hin).mp⟩
  have hin : (system.when ReadsInTime).Trace initial l s :=
    hkeeps.imp fun _ _ _ hstep ↦ ⟨hstep.1.2, hstep.2⟩
  exact (hexact hin).mpr (hkeeps.imp fun _ _ _ hstep ↦ ⟨hstep.1.1, hstep.2⟩)

/-- A `POST /message` whose body arrives in one piece. -/
def post (body : Bytes) : Incoming where
  request := Serve.postMessage
  body := body
  chunks := [body]
  ending := .complete
  chunks_prefix := by rw [List.flatten_singleton]
  chunks_eq := fun _ ↦ List.flatten_singleton

/-- The request `i` is captured in the first buffer. -/
def captureRun (i : ℕ) (body : Bytes) : List Event :=
  [.arrive (post body), .get i 0, .fill i, .filled i, .forward i]

/-- A body of two bytes, which the chosen backend and its alternate read. -/
theorem faithful_hi : ∃ s, system.Trace initial
    (captureRun 0 [104, 105] ++ [.read 0 0 1, .retry 0, .read 0 1 2, .finish 0]) s ∧
      Faithful s := by
  obtain ⟨s, hs⟩ : ∃ s, (system.when fun s a ↦ ForwardsWhole s a ∧ ReadsInTime s a).Trace initial
      (captureRun 0 [104, 105] ++ [.read 0 0 1, .retry 0, .read 0 1 2, .finish 0]) s := by
    refine ⟨_, .cons ⟨⟨trivial, trivial⟩, rfl⟩ (.cons ⟨⟨trivial, trivial⟩, rfl⟩
      (.cons ⟨⟨trivial, trivial⟩, rfl⟩ (.cons ⟨⟨trivial, trivial⟩, rfl⟩
        (.cons ⟨⟨?_, trivial⟩, rfl⟩ (.cons ⟨⟨trivial, ?_⟩, rfl⟩
          (.cons ⟨⟨trivial, trivial⟩, rfl⟩ (.cons ⟨⟨trivial, ?_⟩, rfl⟩
            (.cons ⟨⟨trivial, trivial⟩, rfl⟩ (.nil _)))))))))⟩
    · intro h buf n hi _
      obtain rfl := Option.some.inj hi
      exact ⟨rfl, by decide⟩
    · intro h hi
      obtain rfl := Option.some.inj hi
      exact ⟨_, rfl, fun hsrc ↦ by simp at hsrc⟩
    · intro h hi
      obtain rfl := Option.some.inj hi
      exact ⟨_, rfl, fun hsrc ↦ by simp at hsrc⟩
  have ht : system.Trace initial _ s := hs.imp fun _ _ _ hstep ↦ hstep.2
  exact ⟨s, ht, faithful_of_whole.1 hs _ s (List.prefix_refl _) (System.exec_of_trace ht)⟩

/-! ## What goes wrong

Two runs that do not meet the condition, one for each half of it. -/

/-- `io.ReadFull` returns when there is nothing left to read. -/
theorem next_filled {s : State} {i buf n : ℕ} {h : Handler} (hi : s.handlers[i]? = some h)
    (hstage : h.stage = .reading buf n []) (hending : h.incoming.ending ≠ .lost) :
    next s (.filled i) = some (s.move i { h with stage := .ready (.captured buf n) }) := by
  have hstep : step s i h (.filled i) =
      some (s.move i { h with stage := .ready (.captured buf n) }) := by
    simp only [step, hstage, hending, and_false, decide_false, Bool.or_false]
    exact if_pos (Or.inr trivial)
  rw [← hstep]
  exact congrArg (Option.bind · _) hi

/-- A body with one byte more than the buffer has room for. -/
def longBody : Bytes := List.replicate (bodyBufSize + 1) 97

/-- **The lost end**: of a body that does not fit into the buffer the beginning is forwarded. -/
theorem not_faithful_longBody :
    ∃ s, system.Trace initial (captureRun 0 longBody) s ∧ ¬Faithful s := by
  have hending : (post longBody).ending ≠ .lost := fun h ↦ by simp [post] at h
  refine ⟨_, .cons rfl (.cons rfl (.cons rfl (.cons (next_filled rfl rfl hending)
    (.cons rfl (.nil _))))), fun hf ↦ ?_⟩
  have hlength : 0 + (longBody.take (bodyBufSize - 0)).length = longBody.length :=
    (hf 0 _ rfl).announced 0 _ rfl (List.cons_ne_nil _ _)
  simp [longBody] at hlength

/-- **The late read**: the transport of the first request still reads its body when the handler has
returned, and gets what the second request has in the buffer. -/
theorem not_faithful_lateRun : ∃ s, system.Trace initial
    (captureRun 0 [104, 105] ++ .finish 0 :: captureRun 1 [120, 121] ++ [.read 0 0 2]) s ∧
      ¬Faithful s := by
  refine ⟨_, System.trace_of_exec rfl, fun hf ↦ ?_⟩
  exact absurd ((hf 0 _ rfl).received [120, 121] (List.mem_singleton_self _)) (by decide)

end Bodies
end Balancer
end GroupChat
