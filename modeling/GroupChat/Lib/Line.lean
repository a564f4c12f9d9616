import GroupChat.Lib.Window
import Mathlib.Data.List.Perm.Subperm

/-!
# Lines

A line takes items from one program to another one, without promising that they arrive.  In front
of it is a bounded queue, which forgets its oldest item when it is full; one worker takes items from
the queue, several at a time, and sends them as one request; it waits until the request is answered
or given up, whatever may have become of it.  A request that is on its way arrives, or is lost.

What can be said about a line in general is that it does not multiply what is put into it.
`Line.items` is all that is on the line or has passed it, and the lemmas say what each operation
does to it, up to order:

* a put adds the item, and may lose others (`put_subperm`), if not `put_perm`;
* to take, to finish and to deliver neither adds nor loses anything (`take_perm`, `items_finish`,
  `deliver_perm`), but for a batch that cannot be sent (`take_subperm`);
* a loss only loses (`lose_subperm`).

So an item that was put once is delivered at most once (`countP_passed_le`), and if nothing has been
lost, all has been delivered as soon as the line is empty (`passed_perm`).
-/

set_option autoImplicit false

open scoped List

universe u

/-- A line with items of a type. -/
structure Line (α : Type u) where
  /-- The items that wait. -/
  queue : List α
  /-- The worker waits for an answer. -/
  busy : Bool
  /-- The requests on their way. -/
  flight : List (List α)
  /-- To speak about the past: the items that have arrived. -/
  passed : List α

namespace Line

variable {α : Type u}

/-- A line on which nothing has happened. -/
def empty : Line α := ⟨[], false, [], []⟩

/-- Put an item into the queue. -/
def put (cap : ℕ) (l : Line α) (x : α) : Line α := { l with queue := Window.push cap l.queue x }

/-- The worker takes `m` items, at most `batch` of them, and sends them if they can be sent. -/
def take (batch : ℕ) (sendable : List α → Bool) (m : ℕ) (l : Line α) : Option (Line α) :=
  if l.busy = false ∧ 0 < m ∧ m ≤ batch ∧ m ≤ l.queue.length then
    some { l with
      queue := l.queue.drop m, busy := true,
      flight := if sendable (l.queue.take m) then l.flight ++ [l.queue.take m] else l.flight }
  else none

/-- The worker stops to wait: an answer, an error or a timeout. -/
def finish (l : Line α) : Option (Line α) := if l.busy then some { l with busy := false } else none

/-- A request arrives. -/
def deliver (k : ℕ) (l : Line α) : Option (List α × Line α) :=
  l.flight[k]?.map fun items ↦
    (items, { l with flight := l.flight.eraseIdx k, passed := l.passed ++ items })

/-- A request is lost. -/
def lose (k : ℕ) (l : Line α) : Option (Line α) :=
  l.flight[k]?.map fun _ ↦ { l with flight := l.flight.eraseIdx k }

/-- All that is on the line, or has passed it. -/
def items (l : Line α) : List α := l.queue ++ l.flight.flatten ++ l.passed

/-- Nothing is on the line. -/
structure Idle (l : Line α) : Prop where
  queue : l.queue = []
  flight : l.flight = []

variable {cap batch m k : ℕ} {sendable : List α → Bool} {l l' : Line α} {x : α} {b : List α}

theorem flatten_eraseIdx_perm {flight : List (List α)} (h : flight[k]? = some b) :
    b ++ (flight.eraseIdx k).flatten ~ flight.flatten := by
  induction flight generalizing k with
  | nil => simp at h
  | cons c flight ih =>
    cases k with
    | zero =>
      obtain rfl : c = b := by simpa using h
      exact .refl _
    | succ k =>
      have hrest := ih (k := k) (by simpa using h)
      rw [List.eraseIdx_cons_succ, List.flatten_cons, List.flatten_cons]
      calc b ++ (c ++ (flight.eraseIdx k).flatten)
          ~ c ++ (b ++ (flight.eraseIdx k).flatten) := List.perm_append_comm_assoc _ _ _
        _ ~ c ++ flight.flatten := hrest.append_left c

/-! ## The operations

Each operation has a lemma that says what is on the line afterwards, up to order.  Nothing gets
lost but by a put into a full queue, by a batch that cannot be sent, and on the wire. -/

theorem items_put (cap : ℕ) (l : Line α) (x : α) :
    (l.put cap x).items = Window.push cap l.queue x ++ (l.flight.flatten ++ l.passed) :=
  List.append_assoc _ _ _

theorem passed_put (cap : ℕ) (l : Line α) (x : α) : (l.put cap x).passed = l.passed := rfl

theorem cons_items_perm (l : Line α) (x : α) :
    (l.queue ++ [x]) ++ (l.flight.flatten ++ l.passed) ~ x :: l.items := by
  rw [List.append_assoc, items, List.append_assoc]
  exact List.perm_middle

theorem put_subperm (cap : ℕ) (l : Line α) (x : α) : (l.put cap x).items <+~ x :: l.items := by
  have hsub : Window.push cap l.queue x ++ (l.flight.flatten ++ l.passed) <+
      (l.queue ++ [x]) ++ (l.flight.flatten ++ l.passed) :=
    (Window.rtake_suffix _ _).sublist.append (.refl _)
  rw [items_put]
  exact hsub.subperm.trans (cons_items_perm l x).subperm

/-- A queue that is not full. -/
theorem put_perm (h : l.queue.length < cap) : (l.put cap x).items ~ x :: l.items := by
  rw [items_put, Window.push_of_length_lt h]
  exact cons_items_perm l x

/-- What the worker takes, and the line afterwards. -/
theorem take_spec (h : l.take batch sendable m = some l') :
    l'.passed = l.passed ∧ l'.queue = l.queue.drop m ∧
      l'.flight =
        if sendable (l.queue.take m) then l.flight ++ [l.queue.take m] else l.flight := by
  rw [take] at h
  split at h
  · obtain rfl := Option.some.inj h
    exact ⟨rfl, rfl, rfl⟩
  · simp at h

/-- All that the worker has taken is sent. -/
theorem take_perm (h : l.take batch sendable m = some l')
    (hsend : sendable (l.queue.take m) = true) : l'.items ~ l.items := by
  obtain ⟨hpassed, hqueue, hflight⟩ := take_spec h
  rw [items, items, hpassed, hqueue, hflight, if_pos hsend, List.flatten_concat]
  refine .append_right _ ?_
  calc l.queue.drop m ++ (l.flight.flatten ++ l.queue.take m)
      ~ (l.flight.flatten ++ l.queue.take m) ++ l.queue.drop m := List.perm_append_comm
    _ = l.flight.flatten ++ l.queue := by rw [List.append_assoc, List.take_append_drop]
    _ ~ l.queue ++ l.flight.flatten := List.perm_append_comm

theorem take_subperm (h : l.take batch sendable m = some l') : l'.items <+~ l.items := by
  by_cases hsend : sendable (l.queue.take m) = true
  · exact (take_perm h hsend).subperm
  · obtain ⟨hpassed, hqueue, hflight⟩ := take_spec h
    rw [items, items, hpassed, hqueue, hflight, if_neg hsend]
    exact (((List.drop_sublist _ _).append (.refl _)).append (.refl _)).subperm

theorem finish_spec (h : l.finish = some l') :
    l'.queue = l.queue ∧ l'.flight = l.flight ∧ l'.passed = l.passed := by
  rw [finish] at h
  split at h
  · obtain rfl := Option.some.inj h
    exact ⟨rfl, rfl, rfl⟩
  · simp at h

theorem items_finish (h : l.finish = some l') : l'.items = l.items := by
  obtain ⟨hqueue, hflight, hpassed⟩ := finish_spec h
  rw [items, items, hqueue, hflight, hpassed]

theorem deliver_spec (h : l.deliver k = some (b, l')) :
    l.flight[k]? = some b ∧ l'.queue = l.queue ∧ l'.flight = l.flight.eraseIdx k ∧
      l'.passed = l.passed ++ b := by
  obtain ⟨c, hc, heq⟩ := Option.map_eq_some_iff.mp h
  obtain ⟨rfl, rfl⟩ := Prod.mk.inj heq
  exact ⟨hc, rfl, rfl, rfl⟩

theorem deliver_perm (h : l.deliver k = some (b, l')) : l'.items ~ l.items := by
  obtain ⟨hb, hqueue, hflight, hpassed⟩ := deliver_spec h
  rw [items, items, hqueue, hflight, hpassed, List.append_assoc, List.append_assoc]
  refine .append_left _ ?_
  calc (l.flight.eraseIdx k).flatten ++ (l.passed ++ b)
      ~ (l.passed ++ b) ++ (l.flight.eraseIdx k).flatten := List.perm_append_comm
    _ = l.passed ++ (b ++ (l.flight.eraseIdx k).flatten) := List.append_assoc _ _ _
    _ ~ l.passed ++ l.flight.flatten := (flatten_eraseIdx_perm hb).append_left _
    _ ~ l.flight.flatten ++ l.passed := List.perm_append_comm

theorem lose_spec (h : l.lose k = some l') :
    (∃ b, l.flight[k]? = some b) ∧ l'.queue = l.queue ∧ l'.flight = l.flight.eraseIdx k ∧
      l'.passed = l.passed := by
  obtain ⟨b, hb, rfl⟩ := Option.map_eq_some_iff.mp h
  exact ⟨⟨b, hb⟩, rfl, rfl, rfl⟩

theorem lose_subperm (h : l.lose k = some l') : l'.items <+~ l.items := by
  obtain ⟨⟨b, hb⟩, hqueue, hflight, hpassed⟩ := lose_spec h
  rw [items, items, hqueue, hflight, hpassed]
  refine List.Subperm.append (List.Subperm.append (.refl _) ?_) (.refl _)
  exact ((List.sublist_append_right b _).subperm).trans (flatten_eraseIdx_perm hb).subperm

/-! ## What has arrived

`passed` has everything that has arrived, in the order of the requests.  The order of the items is
not that of the puts, since requests may overtake each other. -/

theorem passed_sublist (l : Line α) : l.passed <+ l.items := List.sublist_append_right _ _

/-- **Nothing arrives more often than it is on the line.** -/
theorem countP_passed_le (p : α → Bool) (l : Line α) : l.passed.countP p ≤ l.items.countP p :=
  l.passed_sublist.countP_le

/-- Once nothing is on the line, all of it has arrived. -/
theorem passed_perm (h : l.Idle) : l.passed = l.items := by
  rw [items, h.queue, h.flight]
  rfl

/-- The batch that arrives was on the line. -/
theorem subset_of_deliver (h : l.deliver k = some (b, l')) : b ⊆ l.items := by
  obtain ⟨hb, -⟩ := deliver_spec h
  intro x hx
  have hmem : x ∈ l.flight.flatten := List.mem_flatten_of_mem (List.mem_of_getElem? hb) hx
  exact List.mem_append_left _ (List.mem_append_right _ hmem)

end Line
