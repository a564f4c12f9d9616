import GroupChat.Lib.Transition
import Mathlib.Data.List.Basic

/-!
# Readers–writer locks

Threads that take and release readers–writer locks, with the locks reduced to the rule by which
they block: a `Lock` waits until nobody holds the lock, and an `RLock` waits while a writer holds
it *or is already waiting for it*.  A writer therefore has to be seen waiting, so `Lock` takes two
steps: the call, after which the thread is queued, and the acquisition.

Because of the second half of the rule a read lock must not be taken twice by one thread: between
the two acquisitions a writer may queue up behind the first and in front of the second.
`stuck_of_call` says that the two threads then wait for each other forever.  `not_deadlocked` is the
converse for programs that never wait for one lock while they hold another (`Disciplined`): if no
writer is called in such a window (`CallsOutside`), no reachable state is a deadlock.

A lock has no state of its own; who holds it is read off the threads.
-/

set_option autoImplicit false

namespace RWMutex

open Transition

universe u

/-! ## Threads and locks

A program is a list of operations, and a thread the rest of its program with the locks that it
holds.  Whether a thread is blocked depends on the others, so a step is one of the whole list. -/

/-- The operations on the lock `b`. -/
inductive Op (ι : Type u)
  | rLock (b : ι)
  | rUnlock (b : ι)
  | lock (b : ι)
  | unlock (b : ι)
  deriving DecidableEq

/-- A held lock. -/
inductive Hold (ι : Type u)
  | read (b : ι)
  | write (b : ι)
  deriving DecidableEq

/-- A thread: the locks it holds, whether its `Lock` call is waiting, and what it has left to do. -/
structure Thread (ι : Type u) where
  held : List (Hold ι)
  queued : Bool
  todo : List (Op ι)
  deriving DecidableEq

/-- A thread that starts on a program. -/
def Thread.start {ι : Type u} (p : List (Op ι)) : Thread ι := ⟨[], false, p⟩

variable {ι : Type u} [DecidableEq ι]

/-- Does the thread hold the lock in either mode? -/
def Thread.Holds (t : Thread ι) (b : ι) : Prop := .read b ∈ t.held ∨ .write b ∈ t.held

instance (t : Thread ι) (b : ι) : Decidable (t.Holds b) := inferInstanceAs (Decidable (_ ∨ _))

/-- Is the thread waiting in a call of `Lock`? -/
def Thread.Waits (t : Thread ι) (b : ι) : Prop := t.queued = true ∧ t.todo.head? = some (.lock b)

instance (t : Thread ι) (b : ι) : Decidable (t.Waits b) := inferInstanceAs (Decidable (_ ∧ _))

/-- The lock on which the next step of the thread calls `Lock`. -/
def Thread.calls? (t : Thread ι) : Option ι :=
  match t.queued, t.todo with
  | false, .lock b :: _ => some b
  | _, _ => none

/-- The next step of a thread among the threads `ts`; `none` when it is blocked or has nothing left
to do. -/
def Thread.step (ts : List (Thread ι)) (t : Thread ι) : Option (Thread ι) :=
  match t.todo with
  | [] => none
  | .rLock b :: p =>
    if ∀ u ∈ ts, .write b ∉ u.held ∧ ¬ u.Waits b then
      some { t with held := .read b :: t.held, todo := p }
    else none
  | .rUnlock b :: p => some { t with held := t.held.erase (.read b), todo := p }
  | .lock b :: p =>
    if t.queued = false then some { t with queued := true }
    else if ∀ u ∈ ts, ¬ u.Holds b then some ⟨.write b :: t.held, false, p⟩
    else none
  | .unlock b :: p => some { t with held := t.held.erase (.write b), todo := p }

/-- What can happen: a new thread starts, or a thread does its next step. -/
inductive Event (ι : Type u)
  | spawn (p : List (Op ι))
  | step (i : ℕ)

/-- One event. -/
def next (ts : List (Thread ι)) : Event ι → Option (List (Thread ι))
  | .spawn p => some (ts ++ [.start p])
  | .step i => (ts[i]?.bind fun t ↦ t.step ts).map fun t' ↦ ts.set i t'

/-- Threads that run programs from `P`. -/
def system (P : List (Op ι) → Prop) : System (List (Thread ι)) (Event ι) :=
  (System.ofFun (· = []) next).when fun _ a ↦ ∀ p, a = .spawn p → P p

/-- What is reached by events of which the spawned programs are in `P`. -/
theorem reachable_of_exec {P : List (Op ι) → Prop} {l : List (Event ι)} {ts : List (Thread ι)}
    (h : System.exec next [] l = some ts) (hl : ∀ p, .spawn p ∈ l → P p) :
    (system P).Reachable ts := by
  have ht : (System.ofFun (· = []) next).Trace [] l ts := System.trace_of_exec h
  have hP : ∀ ts : List (Thread ι), ∀ a ∈ l, ∀ p, a = .spawn p → P p :=
    fun _ a ha p hp ↦ hl p (hp ▸ ha)
  exact (ht.when hP).reachable rfl

/-- Somebody has something left to do, and whoever has is blocked. -/
def Deadlocked (ts : List (Thread ι)) : Prop :=
  (∃ t ∈ ts, t.todo ≠ []) ∧ ∀ t ∈ ts, t.todo ≠ [] → t.step ts = none

/-! ## Disciplined programs

What is asked of a program: a thread that calls `RLock` holds nothing but, perhaps, a read lock on
the same lock, and one that calls `Lock` holds nothing.  `Reenters` says when a thread is between
two nested read locks, which is the window in which no writer may be called. -/

/-- The rest of a program, run with the given locks held, never waits for one lock while it holds
another one, never waits for `Lock` while it holds any, releases what it holds and nothing else. -/
def Disciplined : List (Hold ι) → List (Op ι) → Prop
  | held, [] => held = []
  | held, .rLock b :: p => (∀ h ∈ held, h = .read b) ∧ Disciplined (.read b :: held) p
  | held, .rUnlock b :: p => .read b ∈ held ∧ Disciplined (held.erase (.read b)) p
  | held, .lock b :: p => held = [] ∧ Disciplined [.write b] p
  | held, .unlock b :: p => held = [.write b] ∧ Disciplined [] p

theorem Disciplined.append {p q : List (Op ι)} (hq : Disciplined [] q) :
    ∀ {held : List (Hold ι)}, Disciplined held p → Disciplined held (p ++ q) := by
  induction p with
  | nil =>
    intro held h
    obtain rfl : held = [] := h
    exact hq
  | cons op p ih =>
    intro held h
    cases op with
    | rLock b => exact ⟨h.1, ih h.2⟩
    | rUnlock b => exact ⟨h.1, ih h.2⟩
    | lock b => exact ⟨h.1, ih h.2⟩
    | unlock b => exact ⟨h.1, ih h.2⟩

theorem Disciplined.flatMap {κ : Type*} {f : κ → List (Op ι)} (l : List κ)
    (h : ∀ x ∈ l, Disciplined [] (f x)) : Disciplined [] (l.flatMap f) := by
  induction l with
  | nil => rfl
  | cons x l ih =>
    rw [List.flatMap_cons]
    exact (ih fun y hy ↦ h y (List.mem_cons_of_mem _ hy)).append (h x List.mem_cons_self)

/-- Does the rest of a program take a read lock on `b` once more before it has released those it
holds? -/
def Reenters (b : ι) : List (Hold ι) → List (Op ι) → Bool
  | _, [] => false
  | held, .rLock c :: p =>
    decide (.read b ∈ held) && (decide (c = b) || Reenters b (.read c :: held) p)
  | held, .rUnlock c :: p => decide (.read b ∈ held) && Reenters b (held.erase (.read c)) p
  | held, .lock c :: p => decide (.read b ∈ held) && Reenters b (.write c :: held) p
  | held, .unlock c :: p => decide (.read b ∈ held) && Reenters b (held.erase (.write c)) p

/-- The condition on a step: `Lock` is called on `b` at a moment when no thread is between two
nested read locks on `b`. -/
def CallsOutside (ts : List (Thread ι)) : Event ι → Prop
  | .spawn _ => True
  | .step i => ∀ t ∈ ts[i]?, ∀ b ∈ t.calls?, ∀ u ∈ ts, Reenters b u.held u.todo = false

instance (ts : List (Thread ι)) : ∀ a, Decidable (CallsOutside ts a)
  | .spawn _ => .isTrue trivial
  | .step i =>
    inferInstanceAs (Decidable (∀ t ∈ ts[i]?, ∀ b ∈ t.calls?, ∀ u ∈ ts, _ = false))

omit [DecidableEq ι] in
theorem calls?_eq_some_iff {t : Thread ι} {b : ι} :
    t.calls? = some b ↔ t.queued = false ∧ t.todo.head? = some (.lock b) := by
  obtain ⟨held, queued, todo⟩ := t
  cases queued with
  | true => simp [Thread.calls?]
  | false =>
    cases todo with
    | nil => simp [Thread.calls?]
    | cons op p => cases op <;> simp [Thread.calls?]

/-- The same for events that meet `CallsOutside`. -/
theorem reachable_when_of_exec {P : List (Op ι) → Prop} {l : List (Event ι)} {ts : List (Thread ι)}
    (h : System.exec (fun ts a ↦ if CallsOutside ts a then next ts a else none) [] l = some ts)
    (hl : ∀ p, .spawn p ∈ l → P p) : ((system P).when CallsOutside).Reachable ts := by
  have ht : ((System.ofFun (· = []) next).when CallsOutside).Trace [] l ts :=
    System.trace_when_of_exec h
  have hP : ∀ ts : List (Thread ι), ∀ a ∈ l, ∀ p, a = .spawn p → P p :=
    fun _ a ha p hp ↦ hl p (hp ▸ ha)
  have hboth : ((system P).when CallsOutside).Trace [] l ts :=
    (ht.when hP).imp fun _ _ _ hs ↦ ⟨hs.2.1, hs.1, hs.2.2⟩
  exact hboth.reachable rfl

/-! ## What a step can do

A thread does its next operation in one of five ways, and the others stay as they are.  The
invariant is proved by going through the five. -/

/-- The five ways in which a thread takes a step. -/
inductive StepOf (ts : List (Thread ι)) (t t' : Thread ι) : Prop
  | rLock (b : ι) (p : List (Op ι)) (htodo : t.todo = .rLock b :: p)
      (hfree : ∀ u ∈ ts, .write b ∉ u.held ∧ ¬ u.Waits b)
      (ht' : t' = ⟨.read b :: t.held, t.queued, p⟩)
  | rUnlock (b : ι) (p : List (Op ι)) (htodo : t.todo = .rUnlock b :: p)
      (ht' : t' = ⟨t.held.erase (.read b), t.queued, p⟩)
  | call (b : ι) (p : List (Op ι)) (htodo : t.todo = .lock b :: p) (hq : t.queued = false)
      (ht' : t' = ⟨t.held, true, t.todo⟩)
  | lock (b : ι) (p : List (Op ι)) (htodo : t.todo = .lock b :: p)
      (hfree : ∀ u ∈ ts, ¬ u.Holds b) (ht' : t' = ⟨.write b :: t.held, false, p⟩)
  | unlock (b : ι) (p : List (Op ι)) (htodo : t.todo = .unlock b :: p)
      (ht' : t' = ⟨t.held.erase (.write b), t.queued, p⟩)

theorem stepOf_of_step {ts : List (Thread ι)} {t t' : Thread ι} (h : t.step ts = some t') :
    StepOf ts t t' := by
  rw [Thread.step] at h
  split at h
  · simp at h
  · rename_i b p htodo
    split at h
    · rename_i hfree
      exact .rLock b p htodo hfree (Option.some.inj h).symm
    · simp at h
  · rename_i b p htodo
    exact .rUnlock b p htodo (Option.some.inj h).symm
  · rename_i b p htodo
    split at h
    · rename_i hq
      exact .call b p htodo hq (Option.some.inj h).symm
    · split at h
      · rename_i hfree
        exact .lock b p htodo hfree (Option.some.inj h).symm
      · simp at h
  · rename_i b p htodo
    exact .unlock b p htodo (Option.some.inj h).symm

theorem read_mem_of_reenters {b : ι} {held : List (Hold ι)} {p : List (Op ι)}
    (h : Reenters b held p = true) : .read b ∈ held := by
  cases p with
  | nil => simp [Reenters] at h
  | cons op p => cases op <;> simp_all [Reenters]

omit [DecidableEq ι] in
theorem not_waits_start (p : List (Op ι)) (b : ι) : ¬ (Thread.start p).Waits b :=
  fun h ↦ by simp [Thread.Waits, Thread.start] at h

omit [DecidableEq ι] in
theorem not_holds_start (p : List (Op ι)) (b : ι) : ¬ (Thread.start p).Holds b :=
  fun h ↦ by simp [Thread.Holds, Thread.start] at h

theorem reenters_start (p : List (Op ι)) (b : ι) :
    Reenters b (Thread.start p).held (Thread.start p).todo = false := by
  by_contra h
  have hmem := read_mem_of_reenters (by simpa using h)
  simp [Thread.start] at hmem

/-! ## The invariant

A writer that waits keeps new readers out, but no reader of the same lock is in its window at that
time, so nobody waits for the writer who is waited for by it. -/

/-- What holds of one thread. -/
structure Thread.Ok (t : Thread ι) : Prop where
  disciplined : Disciplined t.held t.todo
  /-- Only a thread at a `Lock` is queued. -/
  queued : t.queued = true → ∃ b, t.Waits b

/-- The invariant of the runs in which every step meets `CallsOutside`. -/
structure Inv (ts : List (Thread ι)) : Prop where
  ok : ∀ t ∈ ts, t.Ok
  /-- A writer is alone. -/
  exclusive : ∀ (i j : ℕ) (t u : Thread ι) (b : ι), ts[i]? = some t → ts[j]? = some u →
    .write b ∈ t.held → u.Holds b → i = j
  /-- Nobody waits for a lock that another thread holds and will take again before that. -/
  window : ∀ t ∈ ts, ∀ u ∈ ts, ∀ b, t.Waits b → Reenters b u.held u.todo = false

theorem Inv.nil : Inv ([] : List (Thread ι)) := ⟨by simp, by simp, by simp⟩

theorem Thread.Ok.step {ts : List (Thread ι)} {t t' : Thread ι} (h : t.Ok)
    (hs : StepOf ts t t') : t'.Ok := by
  have hd := h.disciplined
  have hnq : ∀ op p, t.todo = op :: p → (∀ b, op ≠ .lock b) → t.queued = false := by
    intro op p htodo hop
    by_contra hq
    obtain ⟨b, hw⟩ := h.queued (by simpa using hq)
    simp [Thread.Waits, htodo, hop b] at hw
  cases hs with
  | rLock b p htodo _ ht' =>
    rw [htodo] at hd
    subst ht'
    exact ⟨hd.2, fun hq ↦ by simp [hnq _ p htodo (by simp)] at hq⟩
  | rUnlock b p htodo ht' =>
    rw [htodo] at hd
    subst ht'
    exact ⟨hd.2, fun hq ↦ by simp [hnq _ p htodo (by simp)] at hq⟩
  | call b p htodo _ ht' =>
    subst ht'
    exact ⟨hd, fun _ ↦ ⟨b, rfl, by simp [htodo]⟩⟩
  | lock b p htodo _ ht' =>
    rw [htodo] at hd
    subst ht'
    have hd : t.held = [] ∧ Disciplined [.write b] p := hd
    exact ⟨by simpa [hd.1] using hd.2, by simp⟩
  | unlock b p htodo ht' =>
    rw [htodo] at hd
    subst ht'
    have hd : t.held = [.write b] ∧ Disciplined [] p := hd
    exact ⟨by simpa [hd.1] using hd.2, fun hq ↦ by simp [hnq _ p htodo (by simp)] at hq⟩

/-! ## What a step gives away

For each property that the invariant speaks of, a lemma says which steps can bring a thread to
have it: to hold a lock, to be in the window, to wait. -/

/-- A step gives a thread a lock only if the rule allows it. -/
theorem StepOf.holds {ts : List (Thread ι)} {t t' : Thread ι} (hs : StepOf ts t t') :
    (∀ b, .write b ∈ t'.held → .write b ∈ t.held ∨ ∀ u ∈ ts, ¬ u.Holds b) ∧
      ∀ b, t'.Holds b → t.Holds b ∨ ∀ u ∈ ts, .write b ∉ u.held := by
  cases hs with
  | rLock b p _ hfree ht' =>
    subst ht'
    refine ⟨fun c hc ↦ Or.inl (by simpa using hc), fun c hc ↦ ?_⟩
    by_cases hcb : c = b
    · exact Or.inr fun u hu ↦ hcb ▸ (hfree u hu).1
    · exact Or.inl (by simpa [Thread.Holds, hcb] using hc)
  | rUnlock b p _ ht' =>
    subst ht'
    exact ⟨fun c hc ↦ Or.inl (List.mem_of_mem_erase hc),
      fun c hc ↦ Or.inl (hc.imp List.mem_of_mem_erase List.mem_of_mem_erase)⟩
  | call b p _ _ ht' =>
    subst ht'
    exact ⟨fun c hc ↦ Or.inl hc, fun c hc ↦ Or.inl hc⟩
  | lock b p _ hfree ht' =>
    subst ht'
    refine ⟨fun c hc ↦ ?_, fun c hc ↦ ?_⟩
    · by_cases hcb : c = b
      · exact Or.inr (hcb ▸ hfree)
      · exact Or.inl (by simpa [hcb] using hc)
    · by_cases hcb : c = b
      · exact Or.inr fun u hu hw ↦ hfree u hu (hcb ▸ Or.inr hw)
      · exact Or.inl (by simpa [Thread.Holds, hcb] using hc)
  | unlock b p _ ht' =>
    subst ht'
    exact ⟨fun c hc ↦ Or.inl (List.mem_of_mem_erase hc),
      fun c hc ↦ Or.inl (hc.imp List.mem_of_mem_erase List.mem_of_mem_erase)⟩

/-- A thread gets between two nested read locks on `b` only by taking the outer one, and nobody
waits for `b` at that moment. -/
theorem StepOf.reenters {ts : List (Thread ι)} {t t' : Thread ι} (hs : StepOf ts t t')
    (hok : t.Ok) {b : ι} (hr : Reenters b t'.held t'.todo = true) :
    Reenters b t.held t.todo = true ∨ ∀ u ∈ ts, ¬ u.Waits b := by
  have hd := hok.disciplined
  have hmem := read_mem_of_reenters hr
  cases hs with
  | rLock c p htodo hfree ht' =>
    subst ht'
    rw [htodo] at hd ⊢
    by_cases hbc : b = c
    · exact Or.inr fun u hu ↦ hbc ▸ (hfree u hu).2
    · have hheld : .read b ∈ t.held := by simpa [hbc] using hmem
      have heq := hd.1 _ hheld
      simp [hbc] at heq
  | rUnlock c p htodo ht' =>
    subst ht'
    rw [htodo]
    exact Or.inl (by simpa [Reenters, List.mem_of_mem_erase hmem] using hr)
  | call c p htodo _ ht' =>
    subst ht'
    exact Or.inl hr
  | lock c p htodo _ ht' =>
    subst ht'
    rw [htodo] at hd
    have hd : t.held = [] ∧ Disciplined [.write c] p := hd
    simp [hd.1] at hmem
  | unlock c p htodo ht' =>
    subst ht'
    rw [htodo] at hd
    have hd : t.held = [.write c] ∧ Disciplined [] p := hd
    simp [hd.1] at hmem

/-- A thread that waits after a step has just called `Lock`, or has not moved. -/
theorem StepOf.waits {ts : List (Thread ι)} {t t' : Thread ι} (hs : StepOf ts t t')
    (hok : t.Ok) {b : ι} (hw : t'.Waits b) :
    t.queued = false ∧ t.todo.head? = some (.lock b) := by
  have hnq : t.queued = true → ∃ b p, t.todo = .lock b :: p := by
    intro hq
    obtain ⟨b, -, hhead⟩ := hok.queued hq
    exact ⟨b, t.todo.tail, (List.cons_head?_tail hhead).symm⟩
  cases hs with
  | rLock c p htodo _ ht' =>
    subst ht'
    obtain ⟨c', p', h'⟩ := hnq hw.1
    simp [htodo] at h'
  | rUnlock c p htodo ht' =>
    subst ht'
    obtain ⟨c', p', h'⟩ := hnq hw.1
    simp [htodo] at h'
  | call c p htodo hq ht' =>
    subst ht'
    exact ⟨hq, hw.2⟩
  | lock c p htodo _ ht' =>
    subst ht'
    simp [Thread.Waits] at hw
  | unlock c p htodo ht' =>
    subst ht'
    obtain ⟨c', p', h'⟩ := hnq hw.1
    simp [htodo] at h'

omit [DecidableEq ι] in
/-- The thread at a place of the list after one thread has been replaced. -/
theorem getElem?_set_cases {ts : List (Thread ι)} {i j : ℕ} {t' u : Thread ι}
    (h : (ts.set i t')[j]? = some u) : i = j ∧ u = t' ∨ i ≠ j ∧ ts[j]? = some u := by
  rw [List.getElem?_set] at h
  split at h
  · rename_i hij
    split at h
    · exact Or.inl ⟨hij, (Option.some.inj h).symm⟩
    · simp at h
  · rename_i hij
    exact Or.inr ⟨hij, h⟩

/-! ## The invariant is kept

Two threads are compared at a time, one of which may be the one that has moved.  The lemmas above
reduce each case to what was known of both before. -/

theorem Inv.step {ts : List (Thread ι)} {i : ℕ} {t t' : Thread ι} (h : Inv ts)
    (ht : ts[i]? = some t) (hs : t.step ts = some t') (hc : CallsOutside ts (.step i)) :
    Inv (ts.set i t') := by
  have hst := stepOf_of_step hs
  have hmem : t ∈ ts := List.mem_of_getElem? ht
  have hok := h.ok t hmem
  have hset : ∀ u ∈ ts.set i t', u ∈ ts ∨ u = t' := fun u hu ↦ List.mem_or_eq_of_mem_set hu
  refine ⟨fun u hu ↦ ?_, fun j k u v b hj hk hu hv ↦ ?_, fun u hu v hv b hw ↦ ?_⟩
  · rcases hset u hu with hold | rfl
    · exact h.ok u hold
    · exact hok.step hst
  · rcases getElem?_set_cases hj with ⟨rfl, rfl⟩ | ⟨-, hj'⟩
    · rcases getElem?_set_cases hk with ⟨rfl, -⟩ | ⟨-, hk'⟩
      · rfl
      · rcases hst.holds.1 b hu with hold | hfree
        · exact h.exclusive i k t v b ht hk' hold hv
        · exact absurd hv (hfree v (List.mem_of_getElem? hk'))
    · rcases getElem?_set_cases hk with ⟨rfl, rfl⟩ | ⟨-, hk'⟩
      · rcases hst.holds.2 b hv with hold | hfree
        · exact h.exclusive j i u t b hj' ht hu hold
        · exact absurd hu (hfree u (List.mem_of_getElem? hj'))
      · exact h.exclusive j k u v b hj' hk' hu hv
  · by_contra hr
    have hr : Reenters b v.held v.todo = true := by simpa using hr
    -- before the step, `v` was not between two read locks on `b`
    have hold : ∀ x ∈ ts, x.Waits b → False := by
      intro x hx hxw
      rcases hset v hv with hv | rfl
      · simp [h.window x hx v hv b hxw] at hr
      · rcases hst.reenters hok hr with hr | hnone
        · simp [h.window x hx t hmem b hxw] at hr
        · exact hnone x hx hxw
    rcases hset u hu with hu | rfl
    · exact hold u hu hw
    · obtain ⟨hq, hhead⟩ := hst.waits hok hw
      have hout := hc t ht b (calls?_eq_some_iff.mpr ⟨hq, hhead⟩)
      rcases hset v hv with hv | rfl
      · simp [hout v hv] at hr
      · rcases hst.reenters hok hr with hr | hnone
        · simp [hout t hmem] at hr
        · cases hst with
          | call c p _ _ ht' =>
            subst ht'
            simp [hout t hmem] at hr
          | rLock c p htodo => simp [htodo] at hhead
          | rUnlock c p htodo => simp [htodo] at hhead
          | lock c p _ _ ht' =>
            subst ht'
            simp [Thread.Waits] at hw
          | unlock c p htodo => simp [htodo] at hhead

theorem Inv.spawn {ts : List (Thread ι)} {p : List (Op ι)} (h : Inv ts) (hp : Disciplined [] p) :
    Inv (ts ++ [.start p]) := by
  have happ : ∀ u ∈ ts ++ [Thread.start p], u ∈ ts ∨ u = .start p := by simp
  have hget : ∀ (j : ℕ) (u : Thread ι), (ts ++ [Thread.start p])[j]? = some u →
      ts[j]? = some u ∨ u = .start p := by
    intro j u hj
    rcases Nat.lt_or_ge j ts.length with hlt | hge
    · rw [List.getElem?_append_left hlt] at hj
      exact Or.inl hj
    · rw [List.getElem?_append_right hge] at hj
      exact Or.inr (by simpa using List.mem_of_getElem? hj)
  refine ⟨fun u hu ↦ ?_, fun j k u v b hj hk hu hv ↦ ?_, fun u hu v hv b hw ↦ ?_⟩
  · rcases happ u hu with hold | rfl
    · exact h.ok u hold
    · exact ⟨hp, by simp [Thread.start]⟩
  · rcases hget j u hj with hj | rfl
    · rcases hget k v hk with hk | rfl
      · exact h.exclusive j k u v b hj hk hu hv
      · exact absurd hv (not_holds_start p b)
    · exact absurd (Or.inr hu) (not_holds_start p b)
  · rcases happ u hu with hu | rfl
    · rcases happ v hv with hv | rfl
      · exact h.window u hu v hv b hw
      · exact reenters_start p b
    · exact absurd hw (not_waits_start p b)

/-- Every event that meets `CallsOutside` keeps the invariant. -/
theorem Inv.next {ts ts' : List (Thread ι)} {a : Event ι} (h : Inv ts)
    (hp : ∀ p, a = .spawn p → Disciplined [] p) (hc : CallsOutside ts a)
    (hs : next ts a = some ts') : Inv ts' := by
  cases a with
  | spawn p =>
    obtain rfl := Option.some.inj hs
    exact h.spawn (hp p rfl)
  | step i =>
    obtain ⟨t', ht', rfl⟩ := Option.map_eq_some_iff.mp hs
    obtain ⟨t, ht, hstep⟩ := Option.bind_eq_some_iff.mp ht'
    exact h.step ht hstep hc

/-! ## Deadlocks

In a state of the invariant somebody can always move: take a thread that waits, and then one of
those it waits for; as these do not wait themselves, they have a step. -/

/-- Who waits for a reader finds no reader, and who waits for a writer finds none. -/
theorem Inv.not_deadlocked {ts : List (Thread ι)} (h : Inv ts) : ¬ Deadlocked ts := by
  rintro ⟨⟨t, ht, htodo⟩, hall⟩
  -- a thread that holds a lock is between two read locks, or could release it
  have hnone : ∀ u ∈ ts, u.held = [] := by
    intro u hu
    by_contra hheld
    have hd := (h.ok u hu).disciplined
    cases hp : u.todo with
    | nil => exact hheld (by simpa [hp, Disciplined] using hd)
    | cons op p =>
      have hblocked := hall u hu (by simp [hp])
      rw [hp] at hd
      cases op with
      | rLock b =>
        have hread : .read b ∈ u.held := by
          obtain ⟨x, hx⟩ := List.exists_mem_of_ne_nil _ hheld
          exact hd.1 x hx ▸ hx
        have hre : Reenters b u.held u.todo = true := by simp [hp, Reenters, hread]
        simp only [Thread.step, hp, ite_eq_right_iff, reduceCtorEq, imp_false] at hblocked
        refine hblocked fun w hw ↦ ⟨fun hwrite ↦ ?_, fun hwait ↦ ?_⟩
        · obtain ⟨i, hi⟩ := List.getElem?_of_mem hw
          obtain ⟨j, hj⟩ := List.getElem?_of_mem hu
          obtain rfl := h.exclusive i j w u b hi hj hwrite (Or.inl hread)
          obtain rfl := Option.some.inj (hi.symm.trans hj)
          simpa using hd.1 _ hwrite
        · simp [h.window w hw u hu b hwait] at hre
      | rUnlock b => simp [Thread.step, hp] at hblocked
      | lock b => exact hheld hd.1
      | unlock b => simp [Thread.step, hp] at hblocked
  have hfree : ∀ b, ∀ u ∈ ts, ¬ u.Holds b := fun b u hu hh ↦ by
    simp [Thread.Holds, hnone u hu] at hh
  -- so a thread at a `Lock` can go on
  have hlock : ∀ u ∈ ts, ∀ b p, u.todo = .lock b :: p → False := by
    intro u hu b p hp
    have hblocked := hall u hu (by simp [hp])
    simp only [Thread.step, hp, if_pos (hfree b)] at hblocked
    split at hblocked <;> simp at hblocked
  have hblocked := hall t ht htodo
  cases hp : t.todo with
  | nil => exact htodo hp
  | cons op p =>
    cases op with
    | rLock b =>
      simp only [Thread.step, hp, ite_eq_right_iff, reduceCtorEq, imp_false] at hblocked
      refine hblocked fun w hw ↦ ⟨fun hwrite ↦ hfree b w hw (Or.inr hwrite), fun hwait ↦ ?_⟩
      exact hlock w hw b w.todo.tail (List.cons_head?_tail hwait.2).symm
    | rUnlock b => simp [Thread.step, hp] at hblocked
    | lock b => exact hlock t ht b p hp
    | unlock b => simp [Thread.step, hp] at hblocked

/-- **Disciplined programs do not deadlock** in a run in which `Lock` is never called between two
nested read locks. -/
theorem not_deadlocked {P : List (Op ι) → Prop} (hP : ∀ p, P p → Disciplined [] p)
    {ts : List (Thread ι)} (h : ((system P).when CallsOutside).Reachable ts) :
    ¬ Deadlocked ts := by
  have hinv : Inv ts := by
    refine h.invariant (I := Inv) ?_ ?_
    · rintro ts rfl
      exact Inv.nil
    · intro ts a ts' hi hs
      exact hi.next (fun p hp ↦ hP p (hs.2.1 p hp)) hs.1 hs.2.2
  exact hinv.not_deadlocked

/-! ## The window

Conversely, a call of `Lock` in the window leads to a state in which both threads are blocked, and
no step of any other thread unblocks them. -/

/-- A thread waits for a lock that another thread holds and will take once more before that. -/
def Stuck (i j : ℕ) (b : ι) (ts : List (Thread ι)) : Prop :=
  (∃ t, ts[i]? = some t ∧ t.Waits b) ∧
    ∃ u, ts[j]? = some u ∧ Reenters b u.held u.todo = true

/-- A thread that is between two nested read locks on `b` stays there while a writer waits. -/
theorem StepOf.reenters_of_waits {ts : List (Thread ι)} {u u' w : Thread ι} {b : ι}
    (hs : StepOf ts u u') (hw : w ∈ ts) (hwait : w.Waits b)
    (hr : Reenters b u.held u.todo = true) : Reenters b u'.held u'.todo = true := by
  have hmem := read_mem_of_reenters hr
  cases hs with
  | rLock c p htodo hfree ht' =>
    subst ht'
    have hcb : c ≠ b := fun he ↦ (hfree w hw).2 (he ▸ hwait)
    rw [htodo] at hr
    simpa [Reenters, hmem, hcb] using hr
  | rUnlock c p htodo ht' =>
    subst ht'
    rw [htodo] at hr
    simpa [Reenters, hmem] using hr
  | call c p _ _ ht' =>
    subst ht'
    exact hr
  | lock c p htodo _ ht' =>
    subst ht'
    rw [htodo] at hr
    simpa [Reenters, hmem] using hr
  | unlock c p htodo ht' =>
    subst ht'
    rw [htodo] at hr
    simpa [Reenters, hmem] using hr

/-- A thread that waits for `b` goes on waiting while somebody reads it. -/
theorem not_step_of_waits {ts : List (Thread ι)} {t u : Thread ι} {b : ι} (hwait : t.Waits b)
    (hu : u ∈ ts) (hread : .read b ∈ u.held) : t.step ts = none := by
  have htodo : t.todo = .lock b :: t.todo.tail := (List.cons_head?_tail hwait.2).symm
  have hbusy : ¬ ∀ x ∈ ts, ¬ x.Holds b := fun h ↦ h u hu (Or.inl hread)
  rw [Thread.step, htodo]
  simp only [hwait.1, Bool.true_eq_false, if_false, if_neg hbusy]

theorem Stuck.next {i j : ℕ} {b : ι} {ts ts' : List (Thread ι)} {a : Event ι}
    (h : Stuck i j b ts) (hs : next ts a = some ts') : Stuck i j b ts' := by
  obtain ⟨⟨t, ht, hwait⟩, u, hu, hr⟩ := h
  have hstill := not_step_of_waits hwait (List.mem_of_getElem? hu) (read_mem_of_reenters hr)
  cases a with
  | spawn p =>
    obtain rfl := Option.some.inj hs
    have hkeep : ∀ (k : ℕ) (x : Thread ι), ts[k]? = some x →
        (ts ++ [Thread.start p])[k]? = some x := fun k x hx ↦ by
      rw [List.getElem?_append_left (List.getElem?_eq_some_iff.mp hx).1, hx]
    exact ⟨⟨t, hkeep i t ht, hwait⟩, u, hkeep j u hu, hr⟩
  | step k =>
    obtain ⟨x', hx', rfl⟩ := Option.map_eq_some_iff.mp hs
    obtain ⟨x, hx, hstep⟩ := Option.bind_eq_some_iff.mp hx'
    have hki : k ≠ i := by
      rintro rfl
      obtain rfl := Option.some.inj (ht.symm.trans hx)
      simp [hstill] at hstep
    refine ⟨⟨t, by rw [List.getElem?_set_ne hki, ht], hwait⟩, ?_⟩
    by_cases hkj : k = j
    · subst hkj
      obtain rfl := Option.some.inj (hu.symm.trans hx)
      have hlt : k < ts.length := (List.getElem?_eq_some_iff.mp hu).1
      exact ⟨x', by rw [List.getElem?_set_self hlt],
        (stepOf_of_step hstep).reenters_of_waits (List.mem_of_getElem? ht) hwait hr⟩
    · exact ⟨u, by rw [List.getElem?_set_ne hkj, hu], hr⟩

/-- **A call of `Lock` in the window is fatal**: the writer and the reader wait for each other in
every later state. -/
theorem stuck_of_call {P : List (Op ι) → Prop} {i j : ℕ} {b : ι} {t u : Thread ι}
    {ts ts₁ ts₂ : List (Thread ι)} (ht : ts[i]? = some t) (hcalls : t.calls? = some b)
    (hu : ts[j]? = some u) (hr : Reenters b u.held u.todo = true)
    (hs : next ts (.step i) = some ts₁) (hrun : (system P).Run ts₁ ts₂) : Stuck i j b ts₂ := by
  obtain ⟨hq, hhead⟩ := calls?_eq_some_iff.mp hcalls
  refine hrun.preserves ?_ fun ts a ts' hst hs ↦ hst.next hs.2
  obtain ⟨t', ht', rfl⟩ := Option.map_eq_some_iff.mp hs
  obtain ⟨x, hx, hstep⟩ := Option.bind_eq_some_iff.mp ht'
  obtain rfl := Option.some.inj (ht.symm.trans hx)
  have htodo : t.todo = .lock b :: t.todo.tail := (List.cons_head?_tail hhead).symm
  have hcalled : t' = { t with queued := true } := by
    rw [Thread.step, htodo] at hstep
    simp only [hq, if_true, Option.some_inj] at hstep
    rw [← hstep, ← htodo]
  have hlt : i < ts.length := (List.getElem?_eq_some_iff.mp ht).1
  refine ⟨⟨t', by rw [List.getElem?_set_self hlt], by rw [hcalled]; exact ⟨rfl, hhead⟩⟩, ?_⟩
  by_cases hij : i = j
  · subst hij
    obtain rfl := Option.some.inj (ht.symm.trans hu)
    exact ⟨t', by rw [List.getElem?_set_self hlt], by rw [hcalled]; exact hr⟩
  · exact ⟨u, by rw [List.getElem?_set_ne hij, hu], hr⟩

end RWMutex
