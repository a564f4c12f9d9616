import GroupChat.Lib.Simulation
import GroupChat.Py.RoundTrip
import GroupChat.Store.Feed

/-!
# What a reader of the feed reads

The feed leaves the server as a text, and a client takes it apart with a JSON parser.  `Feed` says
what the bytes are the serialisation of; this file says that they are read as exactly that.

* `Feed.Alike` relates two runs of `get_feed_bytes` that keep the feed in two forms, and
  `Feed.simulation`: whatever the form, the same events can happen and have the same effects.
* `Feed.Logged`: only what was put is ever served.
* `Feed.loads_feed`: a call that returns bytes returns the text of a list of entries that were put,
  the same list that is returned where the feed is kept as entries; and `json.loads` makes this list
  of it, as long as the entries are `Readable`.
-/

set_option autoImplicit false

namespace GroupChat

open Transition

universe u v

/-! ## Readable entries

An entry has strings and one number, apart from its id, so what may be lost on the way through a
text is known: surrogates that pair up, and an id that is no JSON value. -/

/-- An entry that comes back from its text. -/
structure Entry.Readable (L : PyLib) (J : JsonLib) (e : Entry) : Prop where
  id : e.id.Readable L J 0
  username : Plain e.username
  text : Plain e.text
  room : Plain e.room
  timestamp : e.timestamp.natAbs < 10 ^ maxIntDigits

theorem Entry.Readable.toObj {L : PyLib} {J : JsonLib} {e : Entry} (h : e.Readable L J) :
    (Value.dict e.toObj).Readable L J 1 := by
  refine .dict 0 ?_ (by simp [Entry.toObj])
  simp only [Entry.toObj, List.forall_mem_cons, List.not_mem_nil, false_imp_iff, implies_true,
    and_true]
  exact ⟨h.id, .str 0 h.username, .str 0 h.username, .str 0 h.text, .str 0 h.text, .str 0 h.room,
    .int 0 h.timestamp, .bool 0 true, .bool 0 false⟩

/-- The text of readable entries is read as their dicts. -/
theorem loads_dumpsBytes {L : PyLib} {J : JsonLib} (hdepth : 2 ≤ J.maxDepth) {msgs : List Entry}
    (hmsgs : ∀ e ∈ msgs, e.Readable L J) {b : Str} (hb : (dumpsBytes L).dumps msgs = some b) :
    loads J b = .ok (.list (msgs.map fun e ↦ .dict e.toObj)) := by
  have hlist : (Value.list (msgs.map fun e ↦ .dict e.toObj)).Readable L J 2 := by
    refine .list 1 fun x hx ↦ ?_
    obtain ⟨e, he, rfl⟩ := List.mem_map.mp hx
    exact (hmsgs e he).toObj
  exact loads_dumps (hlist.mono hdepth) hb

namespace Feed

variable {β : Type u} {β' : Type v} (D : Dumps β) (D' : Dumps β')

/-! ## Two forms of the feed

`Feed` is parametrised by the form in which the feed is kept.  One form is the text, the other the
list of the entries, and the two go through the same states step by step. -/

/-- The two are the same entries. -/
def SameFeed (b : β) (b' : β') : Prop := ∃ msgs, D.dumps msgs = some b ∧ D'.dumps msgs = some b'

/-- Two calls stand at the same place. -/
inductive Pc.Alike : Pc β → Pc β' → Prop
  | idle : Alike .idle .idle
  | check (t : ℚ) : Alike (.check t) (.check t)
  | wait (t : ℚ) : Alike (.wait t) (.wait t)
  | recheck (t now : ℚ) : Alike (.recheck t now) (.recheck t now)
  | snapshot (t now : ℚ) : Alike (.snapshot t now) (.snapshot t now)
  | dump (t now : ℚ) (msgs : List Entry) : Alike (.dump t now msgs) (.dump t now msgs)
  | stamp (t now : ℚ) : Alike (.stamp t now) (.stamp t now)
  | clean (t : ℚ) : Alike (.clean t) (.clean t)
  | finish (t : ℚ) : Alike (.finish t) (.finish t)
  | ret (t : ℚ) {b : β} {b' : β'} (h : SameFeed D D' b b') : Alike (.ret t b) (.ret t b')

/-- Two states that differ in the form of the feed only. -/
structure Alike (s : State β) (s' : State β') : Prop where
  cache : s.cache = s'.cache
  feed : SameFeed D D' s.json.feedJsonCache s'.json.feedJsonCache
  dirty : s.json.feedJsonDirty = s'.json.feedJsonDirty
  stamp : s.json.lastSerializedAt = s'.json.lastSerializedAt
  pc : Pc.Alike D D' s.pc s'.pc
  clock : s.clock = s'.clock
  log : s.log = s'.log

variable {D D'}

theorem SameFeed.nil : SameFeed D D' D.nil D'.nil := ⟨[], D.dumps_nil, D'.dumps_nil⟩

theorem Pc.Alike.of_ret {t : ℚ} {b : β} {pc : Pc β'} (h : Pc.Alike D D' (.ret t b) pc) :
    ∃ b', pc = .ret t b' ∧ SameFeed D D' b b' := by
  cases h with
  | ret t hb => exact ⟨_, rfl, hb⟩

/-- One form raises where the other one does. -/
theorem dumps_eq_none_iff (msgs : List Entry) : D.dumps msgs = none ↔ D'.dumps msgs = none := by
  have h := (D.isSome_dumps msgs).trans (D'.isSome_dumps msgs).symm
  rw [Option.eq_none_iff_forall_ne_some, Option.eq_none_iff_forall_ne_some]
  simp only [Option.isSome_iff_exists] at h
  constructor
  · exact fun hnone b' hb' ↦ (h.mpr ⟨b', hb'⟩).elim hnone
  · exact fun hnone b hb ↦ (h.mp ⟨b, hb⟩).elim hnone

/-! ## Step by step

Neither the flag nor the time depends on the form, so both sides decide alike; and one form raises
where the other does. -/

theorem Alike.fast_iff {s : State β} {s' : State β'} (h : Alike D D' s s') (t : ℚ) :
    s.json.Fast t ↔ s'.json.Fast t := by
  rw [FeedJson.Fast, FeedJson.Fast, h.dirty, h.stamp]

theorem Alike.put {s : State β} {s' : State β'} (h : Alike D D' s s') (now : ℚ) (e : Entry) :
    Alike D D' (put s now e) (put s' now e) := by
  obtain ⟨hcache, hfeed, hdirty, hstamp, hpc, hclock, hlog⟩ := h
  rw [Feed.put, Feed.put, hcache]
  split
  · exact ⟨rfl, hfeed, rfl, hstamp, hpc, rfl, by rw [hlog]⟩
  · exact ⟨rfl, hfeed, hdirty, hstamp, hpc, rfl, hlog⟩

/-- The next step of a call is the same in both. -/
theorem Alike.advance {s t : State β} {s' : State β'} (h : Alike D D' s s')
    (hs : advance D s = some t) : ∃ t', Feed.advance D' s' = some t' ∧ Alike D D' t t' := by
  obtain ⟨cache, json, pc, clock, log⟩ := s
  obtain ⟨cache', json', pc', clock', log'⟩ := s'
  have hfast := h.fast_iff
  obtain ⟨hcache, hfeed, hdirty, hstamp, hpc, hclock, hlog⟩ := h
  simp only at hcache hfeed hdirty hstamp hpc hclock hlog hfast
  cases hpc with
  | idle => simp [Feed.advance] at hs
  | check t =>
    simp only [Feed.advance, hfast] at hs ⊢
    split at hs <;> obtain rfl := Option.some.inj hs
    · rename_i hf
      exact ⟨_, if_pos hf, hcache, hfeed, hdirty, hstamp, .ret t hfeed, hclock, hlog⟩
    · rename_i hf
      exact ⟨_, if_neg hf, hcache, hfeed, hdirty, hstamp, .wait t, hclock, hlog⟩
  | wait t => simp [Feed.advance] at hs
  | recheck t now =>
    simp only [Feed.advance, hfast] at hs ⊢
    split at hs <;> obtain rfl := Option.some.inj hs
    · rename_i hf
      exact ⟨_, if_pos hf, hcache, hfeed, hdirty, hstamp, .ret t hfeed, hclock, hlog⟩
    · rename_i hf
      exact ⟨_, if_neg hf, hcache, hfeed, hdirty, hstamp, .snapshot t now, hclock, hlog⟩
  | snapshot t now =>
    obtain rfl := Option.some.inj hs
    refine ⟨_, rfl, hcache, hfeed, hdirty, hstamp, ?_, hclock, hlog⟩
    rw [hcache]
    exact .dump t now _
  | dump t now msgs =>
    simp only [Feed.advance] at hs ⊢
    split at hs <;> obtain rfl := Option.some.inj hs
    · rename_i b hb
      cases hb' : D'.dumps msgs with
      | none => simp [(dumps_eq_none_iff msgs).mpr hb'] at hb
      | some b' =>
        exact ⟨_, rfl, hcache, ⟨msgs, hb, hb'⟩, hdirty, hstamp, .stamp t now, hclock, hlog⟩
    · rename_i hb
      rw [(dumps_eq_none_iff msgs).mp hb]
      exact ⟨_, rfl, hcache, .nil, hdirty, hstamp, .finish t, hclock, hlog⟩
  | stamp t now =>
    obtain rfl := Option.some.inj hs
    exact ⟨_, rfl, hcache, hfeed, hdirty, rfl, .clean t, hclock, hlog⟩
  | clean t =>
    obtain rfl := Option.some.inj hs
    exact ⟨_, rfl, hcache, hfeed, rfl, hstamp, .finish t, hclock, hlog⟩
  | finish t =>
    obtain rfl := Option.some.inj hs
    exact ⟨_, rfl, hcache, hfeed, hdirty, hstamp, .ret t hfeed, hclock, hlog⟩
  | ret t hb =>
    obtain rfl := Option.some.inj hs
    exact ⟨_, rfl, hcache, hfeed, hdirty, hstamp, .idle, hclock, hlog⟩

/-- **The form of the feed does not matter**: the same events can happen, with the same effects. -/
theorem simulation : System.Simulation (system D) (system D') (Alike D D') where
  init := by
    rintro s ⟨clock, hclock, rfl⟩
    exact ⟨initial D' clock, ⟨clock, hclock, rfl⟩, rfl, .nil, rfl, rfl, .idle, rfl, rfl⟩
  step := by
    intro s a t s' h hs
    cases a with
    | put now e =>
      obtain ⟨hclock, hs⟩ := Option.ite_none_right_eq_some.mp hs
      obtain rfl := Option.some.inj hs
      exact ⟨_, if_pos (h.clock ▸ hclock), h.put now e⟩
    | call now =>
      obtain ⟨cache, json, pc, clock, log⟩ := s
      obtain ⟨cache', json', pc', clock', log'⟩ := s'
      obtain ⟨hcache, hfeed, hdirty, hstamp, hpc, hclock, hlog⟩ := h
      simp only at hcache hfeed hdirty hstamp hpc hclock hlog
      cases hpc with
      | idle =>
        obtain ⟨hle, hs⟩ := Option.ite_none_right_eq_some.mp hs
        obtain rfl := Option.some.inj hs
        exact ⟨_, if_pos (hclock ▸ hle), hcache, hfeed, hdirty, hstamp, .check now, rfl, hlog⟩
      | _ => simp [system, System.ofFun, next] at hs
    | lock now =>
      obtain ⟨cache, json, pc, clock, log⟩ := s
      obtain ⟨cache', json', pc', clock', log'⟩ := s'
      obtain ⟨hcache, hfeed, hdirty, hstamp, hpc, hclock, hlog⟩ := h
      simp only at hcache hfeed hdirty hstamp hpc hclock hlog
      cases hpc with
      | wait t =>
        obtain ⟨hle, hs⟩ := Option.ite_none_right_eq_some.mp hs
        obtain rfl := Option.some.inj hs
        exact ⟨_, if_pos (hclock ▸ hle), hcache, hfeed, hdirty, hstamp, .recheck t now, rfl, hlog⟩
      | _ => simp [system, System.ofFun, next] at hs
    | advance => exact h.advance hs

/-! ## What is served was put

A history variable of `Feed` has all puts.  The bytes, the snapshot in the hands of a call and
what was returned are made of these. -/

theorem eq_of_dumpsEntries {msgs served : List Entry}
    (h : dumpsEntries.dumps msgs = some served) : msgs = served :=
  Option.some.inj (Option.ite_none_right_eq_some.mp h).2

/-- Entries that were put. -/
def Put (log : List (Entry × ℚ)) (msgs : List Entry) : Prop := ∀ e ∈ msgs, ∃ t, (e, t) ∈ log

/-- The entries that a call holds were put. -/
def Pc.Logged (log : List (Entry × ℚ)) : Pc (List Entry) → Prop
  | .dump _ _ msgs => Put log msgs
  | .ret _ msgs => Put log msgs
  | _ => True

/-- Whatever is kept was put. -/
structure Logged (s : State (List Entry)) : Prop where
  cache : Put s.log s.cache.globalMsgCache
  feed : Put s.log s.json.feedJsonCache
  pc : s.pc.Logged s.log

theorem Put.append {log : List (Entry × ℚ)} {msgs : List Entry} (h : Put log msgs)
    (x : Entry × ℚ) : Put (log ++ [x]) msgs := fun e he ↦
  (h e he).imp fun _ ht ↦ List.mem_append_left _ ht

theorem Pc.Logged.append {log : List (Entry × ℚ)} {pc : Pc (List Entry)} (h : pc.Logged log)
    (x : Entry × ℚ) : pc.Logged (log ++ [x]) := by
  cases pc with
  | dump t now msgs => exact Put.append h x
  | ret t msgs => exact Put.append h x
  | _ => trivial

theorem Logged.put {s : State (List Entry)} (h : Logged s) (now : ℚ) (e : Entry) :
    Logged (put s now e) := by
  rw [Feed.put]
  split
  · refine ⟨fun x hx ↦ ?_, h.feed.append _, h.pc.append _⟩
    rcases FeedCache.mem_insert hx with hx | rfl
    · exact h.cache.append _ x hx
    · exact ⟨now, List.mem_append_right _ List.mem_cons_self⟩
  · exact ⟨h.cache, h.feed, h.pc⟩

theorem Logged.advance {s t : State (List Entry)} (h : Logged s)
    (hs : advance dumpsEntries s = some t) : Logged t := by
  obtain ⟨cache, json, pc, clock, log⟩ := s
  obtain ⟨hcache, hfeed, hpc⟩ := h
  have hnil : Put log [] := fun e he ↦ absurd he List.not_mem_nil
  cases pc with
  | idle => simp [Feed.advance] at hs
  | check u =>
    simp only [Feed.advance] at hs
    split at hs <;> obtain rfl := Option.some.inj hs
    · exact ⟨hcache, hfeed, hfeed⟩
    · exact ⟨hcache, hfeed, trivial⟩
  | wait u => simp [Feed.advance] at hs
  | recheck u now =>
    simp only [Feed.advance] at hs
    split at hs <;> obtain rfl := Option.some.inj hs
    · exact ⟨hcache, hfeed, hfeed⟩
    · exact ⟨hcache, hfeed, trivial⟩
  | snapshot u now =>
    obtain rfl := Option.some.inj hs
    exact ⟨hcache, hfeed, hcache⟩
  | dump u now msgs =>
    simp only [Feed.advance] at hs
    split at hs <;> obtain rfl := Option.some.inj hs
    · rename_i b hb
      obtain rfl := eq_of_dumpsEntries hb
      exact ⟨hcache, hpc, trivial⟩
    · exact ⟨hcache, hnil, trivial⟩
  | stamp u now =>
    obtain rfl := Option.some.inj hs
    exact ⟨hcache, hfeed, trivial⟩
  | clean u =>
    obtain rfl := Option.some.inj hs
    exact ⟨hcache, hfeed, trivial⟩
  | finish u =>
    obtain rfl := Option.some.inj hs
    exact ⟨hcache, hfeed, hfeed⟩
  | ret u msgs =>
    obtain rfl := Option.some.inj hs
    exact ⟨hcache, hfeed, trivial⟩

/-! ## Along a run

Whatever a call has returned is made of entries that were put in the run before. -/

/-- **Only what was put is served.** -/
theorem logged_of_trace {s t : State (List Entry)} {l : List Event}
    (h₀ : (system dumpsEntries).init s) (h : (system dumpsEntries).Trace s l t) : Logged t := by
  refine (h.reachable h₀).invariant ?_ ?_
  · rintro s ⟨clock, -, rfl⟩
    exact ⟨by simp [Put, initial, FeedCache.empty],
      by simp [Put, initial, FeedJson.empty, dumpsEntries], trivial⟩
  · intro s a t hs hstep
    cases a with
    | put now e =>
      obtain ⟨-, hstep⟩ := Option.ite_none_right_eq_some.mp hstep
      obtain rfl := Option.some.inj hstep
      exact hs.put now e
    | call now =>
      simp only [system, System.ofFun, next] at hstep
      split at hstep
      · obtain ⟨-, hstep⟩ := Option.ite_none_right_eq_some.mp hstep
        obtain rfl := Option.some.inj hstep
        exact ⟨hs.cache, hs.feed, trivial⟩
      · simp at hstep
    | lock now =>
      simp only [system, System.ofFun, next] at hstep
      split at hstep
      · obtain ⟨-, hstep⟩ := Option.ite_none_right_eq_some.mp hstep
        obtain rfl := Option.some.inj hstep
        exact ⟨hs.cache, hs.feed, trivial⟩
      · simp at hstep
    | advance => exact hs.advance hstep

theorem log_advance {s t : State β} (hs : advance D s = some t) : t.log = s.log := by
  rw [Feed.advance] at hs
  split at hs
  all_goals try split at hs
  all_goals first
    | (obtain rfl := Option.some.inj hs; rfl)
    | simp at hs

/-- Only a put adds to the log. -/
theorem log_next {s t : State β} {a : Event} (hs : next D s a = some t) :
    t.log = s.log ∨ ∃ now e, a = .put now e ∧ t.log = s.log ++ [(e, now)] := by
  cases a with
  | put now e =>
    obtain ⟨-, hs⟩ := Option.ite_none_right_eq_some.mp hs
    obtain rfl := Option.some.inj hs
    rw [Feed.put]
    split
    · exact Or.inr ⟨now, e, rfl, rfl⟩
    · exact Or.inl rfl
  | call now =>
    rw [next] at hs
    split at hs
    · obtain ⟨-, hs⟩ := Option.ite_none_right_eq_some.mp hs
      obtain rfl := Option.some.inj hs
      exact Or.inl rfl
    · simp at hs
  | lock now =>
    rw [next] at hs
    split at hs
    · obtain ⟨-, hs⟩ := Option.ite_none_right_eq_some.mp hs
      obtain rfl := Option.some.inj hs
      exact Or.inl rfl
    · simp at hs
  | advance => exact Or.inl (log_advance hs)

/-- What is in the log was put by an event of the run. -/
theorem put_of_mem_log {s t : State β} {l : List Event} (h₀ : (system D).init s)
    (h : (system D).Trace s l t) {e : Entry} {now : ℚ} (hmem : (e, now) ∈ t.log) :
    .put now e ∈ l := by
  obtain ⟨clock, -, rfl⟩ := h₀
  refine h.induction (I := fun l t ↦ ∀ x ∈ t.log, Event.put x.2 x.1 ∈ l) (by simp [initial]) ?_ _
    hmem
  intro l s a t _ ih hs x hx
  rcases log_next hs with hlog | ⟨now, e, rfl, hlog⟩ <;> rw [hlog] at hx
  · exact List.mem_append_left _ (ih x hx)
  · rcases List.mem_append.mp hx with hx | hx
    · exact List.mem_append_left _ (ih x hx)
    · obtain rfl := List.mem_singleton.mp hx
      exact List.mem_append_right _ List.mem_cons_self

/-! ## The feed as it is read

In the form of entries it is known what is served; by the simulation the text that is served is
the text of these entries; and `json.loads` reads them back from it. -/

/-- **The feed is read as the entries that it is the text of**, in every run: the bytes that a call
returns are parsed to the list that the same run returns where the feed is kept as entries, and all
of these were put. -/
theorem loads_feed {L : PyLib} {J : JsonLib} (hdepth : 2 ≤ J.maxDepth) {s t : State Str}
    {l : List Event} (h₀ : (system (dumpsBytes L)).init s)
    (h : (system (dumpsBytes L)).Trace s l t)
    (hputs : ∀ now e, .put now e ∈ l → e.Readable L J) :
    ∃ s' t', (system dumpsEntries).init s' ∧ (system dumpsEntries).Trace s' l t' ∧
      t'.log = t.log ∧ t'.cache = t.cache ∧
      ∀ time b, t.pc = .ret time b → ∃ msgs, t'.pc = .ret time msgs ∧
        (∀ e ∈ msgs, ∃ now, .put now e ∈ l) ∧
        loads J b = .ok (.list (msgs.map fun e ↦ .dict e.toObj)) := by
  obtain ⟨s', t', h₀', h', hR⟩ := simulation.trace_of_init h₀ h
  refine ⟨s', t', h₀', h', hR.log.symm, hR.cache.symm, fun time b hret ↦ ?_⟩
  obtain ⟨served, hserved, msgs, hb, hmsgs⟩ := (hret ▸ hR.pc).of_ret
  obtain rfl := eq_of_dumpsEntries hmsgs
  have hput : Put t'.log msgs := by
    have hlogged := (logged_of_trace h₀' h').pc
    rwa [hserved] at hlogged
  have hevent : ∀ e ∈ msgs, ∃ now, .put now e ∈ l := fun e he ↦
    (hput e he).imp fun now hmem ↦ put_of_mem_log h₀' h' hmem
  refine ⟨msgs, hserved, hevent, loads_dumpsBytes hdepth (fun e he ↦ ?_) hb⟩
  obtain ⟨now, hmem⟩ := hevent e he
  exact hputs now e hmem

/-- A run in which the second call returns two messages. -/
theorem loads_feed_servedRun : ∃ (t : State Str) (time : ℚ) (b : Str) (msgs : List Entry),
    t.log.length = 2 ∧ t.pc = .ret time b ∧
      loads ⟨fun _ ↦ .nan 0, 2⟩ b = .ok (.list (msgs.map fun e ↦ .dict e.toObj)) := by
  have hrun : (System.exec (next (dumpsBytes asciiLib)) (initial (dumpsBytes asciiLib) 0)
      servedRun).map (fun s ↦ (s.log.length, s.pc.returned)) = some (2, true) := by
    decide +kernel
  obtain ⟨t, ht, hres⟩ := Option.map_eq_some_iff.mp hrun
  obtain ⟨hlog, hret⟩ := Prod.mk.inj hres
  obtain ⟨time, b, hpc⟩ := Pc.returned_iff.mp hret
  have hputs : ∀ now e, .put now e ∈ servedRun →
      e.Readable asciiLib ⟨fun _ ↦ .nan 0, 2⟩ := by
    intro now e hmem
    simp only [servedRun, List.mem_cons, List.not_mem_nil, or_false, reduceCtorEq, false_or,
      Event.put.injEq] at hmem
    have hone : 1 < 10 ^ maxIntDigits := Nat.one_lt_pow (by decide) (by decide)
    have htwo : 2 < 10 ^ maxIntDigits :=
      Nat.lt_of_lt_of_le (by decide) (Nat.le_self_pow (by decide) 10)
    rcases hmem with ⟨-, rfl⟩ | ⟨-, rfl⟩
    · exact ⟨.int 0 hone, plain_lit _, plain_lit _, plain_lit _, hone⟩
    · exact ⟨.int 0 htwo, plain_lit _, plain_lit _, plain_lit _, hone⟩
  obtain ⟨_, _, _, _, _, _, hread⟩ := loads_feed (Nat.le_refl 2) ⟨0, le_rfl, rfl⟩
    (System.trace_of_exec ht) hputs
  obtain ⟨msgs, -, -, hmsgs⟩ := hread time b hpc
  exact ⟨t, time, b, msgs, hlog, hpc, hmsgs⟩

end Feed
end GroupChat
