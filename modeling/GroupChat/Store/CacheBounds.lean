import GroupChat.Store.Cache

/-!
# What the feed cache holds

`_global_msg_cache` is a deque with a maximal length, `_global_msg_ids` a set that is rebuilt when
it has outgrown the deque by 2000 ids.  This file says what both hold after any sequence of calls of
`_cache_put`.

* `accepted` are the messages that a sequence of calls has appended, in order.
* `globalMsgCache_runPuts`: the deque holds the last 20000 of them.
* `getLast?_runPuts`: a message with a new id is appended, whatever has been rebuilt before, since
  the set knows no id that was never put.  The only thing that can keep it out is a timestamp that
  `int` refuses (`runPuts_refused`): that call raises before it comes to the lock.
* `runPuts_bounded` is all of this together.
-/

set_option autoImplicit false

namespace GroupChat

open DedupWindow

variable (L : PyLib)

/-! ## What was accepted

A call either appends its entry or leaves the deque as it is.  The accepted entries are those of
the first kind, whatever has become of them since. -/

/-- The entry that a call appends. -/
def FeedCache.acceptedBy (c : FeedCache) (p : PutCall) : Option Entry :=
  match compactMsg L p.now p.roomId p.msg with
  | .ok (some e) => if c.Accepts e then some e else none
  | _ => none

/-- The entries that a sequence of calls appends, in order. -/
def acceptedFrom : FeedCache → List PutCall → List Entry
  | _, [] => []
  | c, p :: calls => (c.acceptedBy L p).toList ++ acceptedFrom (c.call L p) calls

/-- The same, of the calls of a fresh node. -/
def accepted (calls : List PutCall) : List Entry := acceptedFrom L .empty calls

variable {L}

/-- **The deque holds the last of what was accepted.** -/
theorem globalMsgCache_foldl_call (calls : List PutCall) : ∀ c : FeedCache,
    c.globalMsgCache.length ≤ msgCacheSize →
      (calls.foldl (·.call L) c).globalMsgCache =
        (c.globalMsgCache ++ acceptedFrom L c calls).rtake msgCacheSize := by
  induction calls with
  | nil =>
    intro c hc
    rw [acceptedFrom, List.append_nil, Window.rtake_of_length_le hc]
    rfl
  | cons p calls ih =>
    intro c hc
    have hcall : (c.call L p).globalMsgCache =
        (c.globalMsgCache ++ (c.acceptedBy L p).toList).rtake msgCacheSize := by
      rw [FeedCache.call, FeedCache.cachePut, FeedCache.acceptedBy]
      cases compactMsg L p.now p.roomId p.msg with
      | error e => simp [Window.rtake_of_length_le hc]
      | ok o =>
        cases o with
        | none => simp [Window.rtake_of_length_le hc]
        | some e =>
          simp only
          by_cases ha : c.Accepts e
          · rw [if_pos ha, FeedCache.globalMsgCache_insert ha]
            rfl
          · rw [if_neg ha, FeedCache.insert_of_mem ha]
            simp [Window.rtake_of_length_le hc]
    have hlen : (c.call L p).globalMsgCache.length ≤ msgCacheSize := by
      rw [hcall, Window.length_rtake]
      exact Nat.min_le_left _ _
    rw [List.foldl_cons, ih _ hlen, hcall, acceptedFrom, Window.rtake_rtake_append,
      List.append_assoc]

theorem globalMsgCache_runPuts (calls : List PutCall) :
    (runPuts L calls).globalMsgCache = (accepted L calls).rtake msgCacheSize :=
  globalMsgCache_foldl_call calls .empty (Nat.zero_le _)

/-- What the calls have put. -/
theorem dedup_runPuts (calls : List PutCall) :
    (runPuts L calls).dedup = run msgCacheSize idSlack empty (putKeys L calls) :=
  dedup_foldl_call L calls .empty

/-- A call that comes to the set has an id that can be hashed. -/
theorem key?_of_mem_putKeys {calls : List PutCall} {k : Key} (h : k ∈ putKeys L calls) :
    ∃ q ∈ calls, (Obj.get q.msg "id").key? = some k := by
  obtain ⟨q, hq, hkey⟩ := List.mem_filterMap.mp h
  refine ⟨q, hq, ?_⟩
  rw [PutCall.key?] at hkey
  split at hkey
  · rename_i e he
    rw [← Option.some.inj hkey, ← (eq_of_compactMsg he).2.1]
    exact e.id_key
  · simp at hkey

/-- **A message with a new id is appended.** -/
theorem getLast?_runPuts (calls : List PutCall) {p : PutCall} {e : Entry}
    (he : compactMsg L p.now p.roomId p.msg = .ok (some e))
    (hnew : ∀ q ∈ calls, (Obj.get q.msg "id").key? ≠ some e.key) :
    (runPuts L (calls ++ [p])).globalMsgCache.getLast? = some e := by
  have haccepts : (runPuts L calls).Accepts e := by
    intro hmem
    have hseen : e.key ∈ (runPuts L calls).dedup.seen := hmem
    rw [dedup_runPuts] at hseen
    obtain ⟨q, hq, hkey⟩ := key?_of_mem_putKeys ((mem_of_mem_run _).2 hseen)
    exact hnew q hq hkey
  have hput : (runPuts L (calls ++ [p])).globalMsgCache =
      Window.push msgCacheSize (runPuts L calls).globalMsgCache e := by
    rw [runPuts, List.foldl_append, ← runPuts, List.foldl_cons, List.foldl_nil, FeedCache.call,
      FeedCache.cachePut, he]
    exact FeedCache.globalMsgCache_insert haccepts
  have hfit : [e].length ≤ msgCacheSize := by
    rw [List.length_singleton, msgCacheSize]
    omega
  rw [hput, Window.push, Window.rtake_append_of_le hfit, List.getLast?_concat]

/-! ## The statement

All parts hold in every state of every run; the last one says what a call with a new id does. -/

/-- A message whose timestamp cannot be converted changes nothing. -/
theorem runPuts_refused (calls : List PutCall) {p : PutCall} {err : PyError}
    (hid : (Obj.get p.msg "id").truthy = true)
    (hts : ((Obj.get p.msg "timestamp").or (.int p.now)).toInt L = .error err) :
    runPuts L (calls ++ [p]) = runPuts L calls := by
  have hraised : compactMsg L p.now p.roomId p.msg = .error err := by
    rw [compactMsg, if_neg (by simp [hid]), hts]
  rw [runPuts, List.foldl_append, ← runPuts, List.foldl_cons, List.foldl_nil, FeedCache.call,
    FeedCache.cachePut, hraised]

/-- **The cache is bounded and loses only its oldest.**  After any calls of `_cache_put` the deque
has at most 20000 and the set at most 22000 elements, and the deque holds the last of the messages
that were accepted; a message with an id that was never put is appended, if `int` accepts its
timestamp. -/
theorem runPuts_bounded (L : PyLib) (calls : List PutCall) :
    (runPuts L calls).globalMsgCache.length ≤ 20000 ∧
    (runPuts L calls).globalMsgIds.card ≤ 22000 ∧
    (runPuts L calls).globalMsgCache = (accepted L calls).drop ((accepted L calls).length - 20000) ∧
    ∀ (p : PutCall) (k : Key) (ts : ℤ), (Obj.get p.msg "id").truthy = true →
      (Obj.get p.msg "id").key? = some k →
      ((Obj.get p.msg "timestamp").or (.int p.now)).toInt L = .ok ts →
      (∀ q ∈ calls, (Obj.get q.msg "id").key? ≠ some k) →
        ∃ e, compactMsg L p.now p.roomId p.msg = .ok (some e) ∧
          (runPuts L (calls ++ [p])).globalMsgCache.getLast? = some e := by
  refine ⟨?_, ?_, globalMsgCache_runPuts calls, ?_⟩
  · rw [globalMsgCache_runPuts, Window.length_rtake]
    exact Nat.min_le_left _ _
  · have hcard : (runPuts L calls).dedup.seen.card ≤ msgCacheSize + idSlack := by
      rw [dedup_runPuts]
      exact card_seen_run _
    exact hcard
  · intro p k ts hid hkey hts hnew
    exact ⟨_, compactMsg_of_key hid hts hkey,
      getLast?_runPuts calls (compactMsg_of_key hid hts hkey) hnew⟩

/-- A message with a timestamp that `int` refuses. -/
def refusedPut : PutCall :=
  ⟨1, .str general, [("id", .str (lit "m1")), ("text", .str (lit "hi")),
    ("timestamp", .str (lit "soon"))]⟩

/-- Its id is new, and it is not appended. -/
theorem not_appended_refusedPut :
    (Obj.get refusedPut.msg "id").truthy = true ∧ (Obj.get refusedPut.msg "id").key?.isSome = true ∧
      (runPuts asciiLib ([] ++ [refusedPut])).globalMsgCache.getLast? = none := by
  have hts : ((Obj.get refusedPut.msg "timestamp").or (.int refusedPut.now)).toInt asciiLib =
      .error .valueError := by
    decide +kernel
  refine ⟨rfl, rfl, ?_⟩
  rw [runPuts_refused [] rfl hts]
  rfl

end GroupChat
