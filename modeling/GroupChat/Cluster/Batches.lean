import GroupChat.Cluster.Gossip
import GroupChat.Server.Acceptance
import GroupChat.Server.Uploads

/-!
# One request for many items

The worker of a peer sends what it finds in its queue in one request.  It encodes the batch as a
whole, and `receive_gossip` walks through it in one loop that nothing protects.

* `Produced` is what an item does on the node that gets it: an entry in the feed cache, a broadcast.
  `replay_produced` says that it does nothing else.
* `together` is what a batch does, and `apart` what its items do in requests of their own.
* `transparent_iff`: they are the same if and only if every item that is held up by another one of
  its batch would have done nothing (`Lossless`).
* `not_transparent_publishedRun` is an item that cannot be encoded, and one after it that can.

To compare one request with many, both are written as records of what the node does: the batch up
to the first item that raises, if it can be encoded at all, and requests of their own for all
items.  Whether an item raises depends on the item alone (`raises_iff`), so the records agree up
to that item, and the difference is what the others would have done after it.
-/

set_option autoImplicit false

namespace GroupChat

open Transition

/-! ## What an item does

An item has two effects on the node that gets it, and each of them may raise.  To compare a batch
with its items, the effects are recorded in the order in which they happen, and replaying the
record is the same as handling the items. -/

/-- How the client library encodes the body of a request. -/
structure Encoder where
  /-- Can the value be encoded? -/
  encodes : Value → Bool
  /-- A list is encoded element by element. -/
  encodes_list : ∀ items, encodes (.list items) = true ↔ ∀ x ∈ items, encodes x = true
  /-- What can be encoded is JSON. -/
  serialisable : ∀ v, encodes v = true → v.serialisable = true

/-- What an item does on the node that gets it. -/
inductive Produced
  | entry (e : Entry)
  | broadcast (room : Value) (msg : Obj)

namespace Node

variable (env : Env) (now : ℤ)

/-- What an item produces.  Items are dicts: `broadcast_gossip` puts nothing else into a queue. -/
def produced (n : Node) (item : Obj) : List Produced :=
  match gossipMessage env (.dict item) now with
  | none => []
  | some (room, msg) =>
    match n.store.cachePut env.lib now room msg with
    | .error _ => []
    | .ok store =>
      (((PutCall.entry? env.lib ⟨now, room, msg⟩).filter fun e ↦
        decide (n.store.cache.Accepts e)).map Produced.entry).toList ++
        if ({ n with store := store }.tryBroadcast room (.message msg)).2.isNone then
          [.broadcast room msg]
        else []

/-- What the items of one request produce, up to the first one that raises. -/
def producedInTurn : Node → List Obj → List Produced
  | _, [] => []
  | n, item :: items => n.produced env now item ++
    match n.receiveItem env (.dict item) now with
    | (n', none) => producedInTurn n' items
    | (_, some _) => []

variable (E : Encoder)

/-- What a batch produces on the node that gets it, in one request. -/
def together (n : Node) (items : List Obj) : List Produced :=
  if E.encodes (requestBody (items.map Value.dict)) then n.producedInTurn env now items else []

/-- The node after the request. -/
def afterTogether (n : Node) (items : List Obj) : Node :=
  if E.encodes (requestBody (items.map Value.dict)) then
    n.receiveGossip env (some (requestBody (items.map Value.dict))) now
  else n

/-- What the items produce, each in a request of its own. -/
def apart : Node → List Obj → List Produced
  | _, [] => []
  | n, item :: items =>
    n.together env now E [item] ++ apart (n.afterTogether env now E [item]) items

/-- The node after these requests. -/
def afterApart (n : Node) (items : List Obj) : Node :=
  items.foldl (fun n item ↦ n.afterTogether env now E [item]) n

/-- The batch does what its items do. -/
structure Transparent (n : Node) (items : List Obj) : Prop where
  produced : n.together env now E items = n.apart env now E items
  state : n.afterTogether env now E items = n.afterApart env now E items

/-- The call of `_cache_put` for an item. -/
def itemPut (item : Obj) : Option PutCall :=
  (gossipMessage env (.dict item) now).map fun p ↦ ⟨now, p.1, p.2⟩

/-- The item raises: its message cannot be filed, or its room cannot be looked up. -/
def Raises (item : Obj) : Prop :=
  ∃ p, itemPut env now item = some p ∧
    ((∃ e, compactMsg env.lib now p.roomId p.msg = .error e) ∨ p.roomId.key? = none)

/-- The item does nothing to a feed cache and tells nobody: it is skipped; or its message cannot be
filed; or its room cannot be looked up, and its id is missing or known to the cache. -/
def Void (cache : FeedCache) (item : Obj) : Prop :=
  ∀ p, itemPut env now item = some p →
    (∃ e, compactMsg env.lib now p.roomId p.msg = .error e) ∨
      p.roomId.key? = none ∧ ∀ e, p.entry? env.lib = some e → ¬cache.Accepts e

/-- The feed cache after the calls for some items. -/
def cacheAfter (cache : FeedCache) (items : List Obj) : FeedCache :=
  (items.filterMap (itemPut env now)).foldl (·.call env.lib) cache

/-- What comes after the first item that raises does nothing. -/
def VoidRest (cache : FeedCache) (items : List Obj) : Prop :=
  ∀ before x after, items = before ++ x :: after → (∀ y ∈ before, ¬Raises env now y) →
    Raises env now x → ∀ y ∈ after, Void env now (cacheAfter env now cache (before ++ [x])) y

/-- All items can be encoded, and those after the first one that raises do nothing; or one cannot be
encoded, and those that can do nothing. -/
def Lossless (cache : FeedCache) (items : List Obj) : Prop :=
  ((∀ x ∈ items, E.encodes (.dict x) = true) ∧ VoidRest env now cache items) ∨
    ((¬∀ x ∈ items, E.encodes (.dict x) = true) ∧
      ∀ x ∈ items, E.encodes (.dict x) = true → Void env now cache x)

variable {env : Env} {now : ℤ} {E : Encoder} {n : Node} {item : Obj} {items : List Obj}

/-! ## One item

Whether an item raises depends on the item and not on the node.  This is why it makes sense to ask
what the items after it would have done. -/

/-- Do on a node what was produced. -/
def replay (n : Node) : Produced → Node
  | .entry e => { n with store := n.store.putEntry e }
  | .broadcast room msg => (n.tryBroadcast room (.message msg)).1

theorem gossipMessage_of_itemPut {p : PutCall} (h : itemPut env now item = some p) :
    gossipMessage env (.dict item) now = some (p.roomId, p.msg) ∧ p.now = now := by
  obtain ⟨q, hq, rfl⟩ := Option.map_eq_some_iff.mp h
  exact ⟨hq, rfl⟩

theorem serialisable_canonical (hitem : (Value.dict item).serialisable = true) {msg : Obj}
    (hmsg : (Value.dict msg).serialisable = true) :
    (Frame.message (gossipMessage.canonical env now item msg).2).serialisable = true := by
  have hname := Value.serialisable_or (Obj.serialisable_get hmsg "username")
    (Obj.serialisable_getD (v := .str (lit "Anonymous")) hmsg "client-name" rfl)
  have htext := Value.serialisable_or (Obj.serialisable_get hmsg "text")
    (Obj.serialisable_getD (v := .str []) hmsg "msg" rfl)
  have hroom := Value.serialisable_or (w := .str env.config.defaultRoom)
    (Obj.serialisable_get hitem "room") rfl
  have htime := Obj.serialisable_getD (v := .int now) hmsg "timestamp" rfl
  simp [gossipMessage.canonical, Frame.serialisable, fullMessage, Value.serialisable,
    Value.serialisable.serialisableFields, Obj.serialisable_get hmsg "id", hname, htext, hroom,
    htime]

/-- What the message of an item has is what the item has. -/
theorem serialisable_of_itemPut (hitem : (Value.dict item).serialisable = true) {p : PutCall}
    (h : itemPut env now item = some p) : (Frame.message p.msg).serialisable = true := by
  obtain ⟨hmsg, -⟩ := gossipMessage_of_itemPut h
  have hcanon : ∀ f m, item.get "msg" = .dict (f :: m) →
      (Frame.message (gossipMessage.canonical env now item (f :: m)).2).serialisable = true :=
    fun f m hget ↦ serialisable_canonical hitem (hget ▸ Obj.serialisable_get hitem "msg")
  unfold gossipMessage at hmsg
  simp only at hmsg
  split at hmsg
  · rename_i origin f m horigin hget
    split at hmsg
    · simp at hmsg
    · have hser := hcanon f m hget
      rw [Option.some.inj hmsg] at hser
      exact hser
  · rename_i f m hget hnot
    have hser := hcanon f m hget
    rw [Option.some.inj hmsg] at hser
    exact hser
  · simp at hmsg

/-- **What becomes of an item.**  It is skipped; or its message cannot be filed; or its message is
filed and, unless its room cannot be looked up, broadcast. -/
theorem receiveItem_outcome (n : Node) (hitem : (Value.dict item).serialisable = true) :
    (itemPut env now item = none ∧ n.receiveItem env (.dict item) now = (n, none) ∧
      n.produced env now item = []) ∨
    (∃ p e, itemPut env now item = some p ∧
      compactMsg env.lib now p.roomId p.msg = .error e ∧
      n.receiveItem env (.dict item) now = (n, some e) ∧ n.produced env now item = []) ∨
    ∃ p store, itemPut env now item = some p ∧
      n.store.cachePut env.lib now p.roomId p.msg = .ok store ∧
      n.receiveItem env (.dict item) now =
        { n with store := store }.tryBroadcast p.roomId (.message p.msg) ∧
      n.produced env now item =
        (((p.entry? env.lib).filter fun e ↦ decide (n.store.cache.Accepts e)).map
          Produced.entry).toList ++
        if p.roomId.key?.isSome then [.broadcast p.roomId p.msg] else [] := by
  rw [receiveItem, produced, itemPut]
  cases hmsg : gossipMessage env (.dict item) now with
  | none => exact Or.inl ⟨rfl, rfl, rfl⟩
  | some q =>
    obtain ⟨room, msg⟩ := q
    have hput : itemPut env now item = some ⟨now, room, msg⟩ := by rw [itemPut, hmsg]; rfl
    cases hstore : n.store.cachePut env.lib now room msg with
    | error e =>
      refine Or.inr (Or.inl ⟨⟨now, room, msg⟩, e, rfl, ?_, by simp only [hstore],
        by simp only [hstore]⟩)
      rw [Store.cachePut] at hstore
      split at hstore
      · rename_i e' he'
        rw [he', Except.error.inj hstore]
      · simp at hstore
      · simp at hstore
    | ok store =>
      refine Or.inr (Or.inr ⟨⟨now, room, msg⟩, store, rfl, hstore, by simp only [hstore], ?_⟩)
      have hraised : (({ n with store := store }.tryBroadcast room (.message msg)).2.isNone = true)
          ↔ room.key?.isSome = true := by
        rcases tryBroadcast_cases { n with store := store } room (.message msg) with
          ⟨h, hkey, -⟩ | ⟨h, hkey | ⟨r, -, -, hser⟩⟩
        · rw [h]
          exact iff_of_true rfl hkey
        · rw [h, hkey]
          simp
        · exact absurd (hser.symm.trans (serialisable_of_itemPut hitem hput)) (by simp)
      simp only [hstore, hraised]

/-! ## When an item raises

There are two reasons for an item to raise: its message has no key that can be hashed, or its room
has none.  Neither depends on what the node has cached or who is connected. -/

/-- A broadcast of JSON raises exactly if the room cannot be looked up. -/
theorem snd_tryBroadcast {room : Value} {f : Frame} (hf : f.serialisable = true) (n : Node) :
    (n.tryBroadcast room f).2.isSome = true ↔ room.key? = none := by
  rcases tryBroadcast_cases n room f with ⟨h, hkey, -⟩ | ⟨h, hkey | ⟨r, -, -, hser⟩⟩
  · rw [h]
    exact iff_of_false (by simp) fun hnone ↦ by simp [hnone] at hkey
  · rw [h]
    exact iff_of_true rfl (Option.isSome_eq_false_iff.mp hkey |> Option.isNone_iff_eq_none.mp)
  · exact absurd (hser.symm.trans hf) (by simp)

theorem fst_tryBroadcast_of_unhashable {room : Value} (f : Frame) (h : room.key? = none)
    (n : Node) : (n.tryBroadcast room f).1 = n := by
  rcases tryBroadcast_cases n room f with ⟨-, hkey, -⟩ | ⟨heq, -⟩
  · simp [h] at hkey
  · rw [heq]

theorem cachePut_entry {L : PyLib} {p : PutCall} {st st' : Store}
    (h : st.cachePut L p.now p.roomId p.msg = .ok st') :
    (∃ e, p.entry? L = some e ∧ st' = st.putEntry e) ∨ p.entry? L = none ∧ st' = st := by
  rw [Store.cachePut] at h
  rw [PutCall.entry?]
  cases hmsg : compactMsg L p.now p.roomId p.msg with
  | error e =>
    rw [hmsg] at h
    simp at h
  | ok o =>
    rw [hmsg] at h
    cases o with
    | none => exact Or.inr ⟨rfl, (Except.ok.inj h).symm⟩
    | some e => exact Or.inl ⟨e, rfl, (Except.ok.inj h).symm⟩

/-- Whether an item raises does not depend on the node. -/
theorem raises_iff (n : Node) (hitem : (Value.dict item).serialisable = true) :
    (n.receiveItem env (.dict item) now).2.isSome = true ↔ Raises env now item := by
  rcases receiveItem_outcome n hitem with
    ⟨hput, hrecv, -⟩ | ⟨p, e, hput, he, hrecv, -⟩ | ⟨p, store, hput, hstore, hrecv, -⟩
  · rw [hrecv, Raises, hput]
    simp
  · rw [hrecv]
    exact iff_of_true rfl ⟨p, hput, Or.inl ⟨e, he⟩⟩
  · rw [hrecv, snd_tryBroadcast (serialisable_of_itemPut hitem hput), Raises, hput]
    constructor
    · exact fun hkey ↦ ⟨p, rfl, Or.inr hkey⟩
    · rintro ⟨q, hq, ⟨e, he⟩ | hkey⟩
      · obtain rfl := Option.some.inj hq
        rw [Store.cachePut, he] at hstore
        simp at hstore
      · exact Option.some.inj hq ▸ hkey

theorem produced_eq_nil_iff (n : Node) (hitem : (Value.dict item).serialisable = true) :
    n.produced env now item = [] ↔ Void env now n.store.cache item := by
  rcases receiveItem_outcome n hitem with
    ⟨hput, -, hprod⟩ | ⟨p, e, hput, he, -, hprod⟩ | ⟨p, store, hput, hstore, -, hprod⟩
  · rw [hprod]
    exact iff_of_true rfl fun p hp ↦ absurd (hput.symm.trans hp) (by simp)
  · rw [hprod]
    exact iff_of_true rfl fun q hq ↦ Or.inl ⟨e, Option.some.inj (hput.symm.trans hq) ▸ he⟩
  · have hentry : ((p.entry? env.lib).filter fun e ↦ decide (n.store.cache.Accepts e)) = none ↔
        ∀ e, p.entry? env.lib = some e → ¬n.store.cache.Accepts e := by
      simp [Option.filter_eq_none_iff]
    rw [hprod, List.append_eq_nil_iff, Option.toList_eq_nil_iff, Option.map_eq_none_iff, hentry,
      Void, hput]
    constructor
    · rintro ⟨hold, hroom⟩ q hq
      obtain rfl := Option.some.inj hq
      refine Or.inr ⟨?_, hold⟩
      cases hkey : p.roomId.key? with
      | none => rfl
      | some k => simp [hkey] at hroom
    · intro h
      rcases h p rfl with ⟨e, he⟩ | ⟨hkey, hold⟩
      · rw [Store.cachePut, he] at hstore
        simp at hstore
      · exact ⟨hold, by simp [hkey]⟩

/-! ## Recording and replaying

`produced` is a record of the effects of an item on a node, and `replay` has these effects.  A
batch and its items are compared by their records, and the nodes follow. -/

/-- **An item does what it has produced, and nothing else.** -/
theorem replay_produced (n : Node) (hitem : (Value.dict item).serialisable = true) :
    (n.produced env now item).foldl replay n = (n.receiveItem env (.dict item) now).1 := by
  rcases receiveItem_outcome n hitem with
    ⟨-, hrecv, hprod⟩ | ⟨p, e, -, -, hrecv, hprod⟩ | ⟨p, store, hput, hstore, hrecv, hprod⟩
  · rw [hprod, hrecv]
    rfl
  · rw [hprod, hrecv]
    rfl
  · have hfiled : (((p.entry? env.lib).filter fun e ↦
        decide (n.store.cache.Accepts e)).map Produced.entry).toList.foldl replay n =
          { n with store := store } := by
      obtain ⟨hmsg, hnow⟩ := gossipMessage_of_itemPut hput
      rcases cachePut_entry (hnow.symm ▸ hstore) with ⟨e, he, rfl⟩ | ⟨he, rfl⟩
      · rw [he]
        by_cases hnew : n.store.cache.Accepts e
        · rw [Option.filter_some, if_pos (decide_eq_true hnew)]
          rfl
        · rw [Option.filter_some, if_neg (by simpa using hnew), Store.putEntry_of_not_accepts hnew]
          rfl
      · rw [he]
        rfl
    rw [hprod, hrecv, List.foldl_append, hfiled]
    cases hkey : p.roomId.key? with
    | none => exact (fst_tryBroadcast_of_unhashable _ hkey _).symm
    | some k => rfl

theorem cache_receiveItem (n : Node) (hitem : (Value.dict item).serialisable = true) :
    (n.receiveItem env (.dict item) now).1.store.cache =
      cacheAfter env now n.store.cache [item] := by
  rcases receiveItem_outcome n hitem with
    ⟨hput, hrecv, -⟩ | ⟨p, e, hput, he, hrecv, -⟩ | ⟨p, store, hput, hstore, hrecv, -⟩
  · rw [hrecv, cacheAfter, List.filterMap_cons_none hput]
    rfl
  · obtain ⟨-, rfl⟩ := gossipMessage_of_itemPut hput
    rw [hrecv, cacheAfter, List.filterMap_cons_some hput]
    show n.store.cache = n.store.cache.call env.lib p
    rw [FeedCache.call, FeedCache.cachePut, he]
  · obtain ⟨-, rfl⟩ := gossipMessage_of_itemPut hput
    rw [hrecv, cacheAfter, List.filterMap_cons_some hput]
    have hcache : store.cache = n.store.cache.call env.lib p := by
      rcases Store.cachePut_cache env.lib p.now n.store p.roomId p.msg with
        ⟨store', hstore', hcall⟩ | ⟨e, he, -, -⟩
      · rw [Except.ok.inj (hstore.symm.trans hstore')]
        exact hcall
      · exact absurd (hstore.symm.trans he) (by simp)
    rcases tryBroadcast_spec { n with store := store } p.roomId (.message p.msg) with h | ⟨r, -, h⟩
    · rw [h]
      exact hcache
    · rw [h]
      exact hcache

/-- An item that produces nothing changes nothing. -/
theorem receiveItem_of_void (hitem : (Value.dict item).serialisable = true)
    (h : Void env now n.store.cache item) : (n.receiveItem env (.dict item) now).1 = n := by
  rw [← replay_produced n hitem, (produced_eq_nil_iff n hitem).mpr h]
  rfl

/-! ## A batch

A batch stops at the first item that raises, and loses the others; or it cannot be encoded, and
all of it is lost. -/

theorem gossipItems_requestBody (items : List Obj) :
    gossipItems (requestBody (items.map Value.dict)) = items.map Value.dict := by
  rcases items with _ | ⟨x, _ | ⟨y, items⟩⟩
  · rfl
  · rfl
  · rfl

theorem encodes_requestBody (E : Encoder) (items : List Obj) :
    E.encodes (requestBody (items.map Value.dict)) = true ↔
      ∀ x ∈ items, E.encodes (.dict x) = true := by
  have hlist : E.encodes (.list (items.map Value.dict)) = true ↔
      ∀ x ∈ items, E.encodes (.dict x) = true := by
    rw [E.encodes_list, List.forall_mem_map]
  rcases items with _ | ⟨x, _ | ⟨y, items⟩⟩
  · exact hlist
  · simp [requestBody]
  · exact hlist

theorem together_singleton (n : Node) (item : Obj) :
    n.together env now E [item] =
      if E.encodes (.dict item) then n.produced env now item else [] := by
  have hone : n.producedInTurn env now [item] = n.produced env now item := by
    rw [producedInTurn]
    split
    · exact List.append_nil _
    · exact List.append_nil _
  rw [together, hone]
  rfl

theorem afterTogether_singleton (n : Node) (item : Obj) :
    n.afterTogether env now E [item] =
      if E.encodes (.dict item) then (n.receiveItem env (.dict item) now).1 else n := by
  have hone : receiveItems env now n [.dict item] = (n.receiveItem env (.dict item) now).1 := by
    rw [receiveItems]
    split
    · rename_i n' h
      rw [h]
      rfl
    · rename_i n' e h
      rw [h]
  rw [afterTogether, ← hone]
  rfl

/-- What the items of a batch do is what they have produced. -/
theorem replay_producedInTurn (items : List Obj)
    (hitems : ∀ x ∈ items, (Value.dict x).serialisable = true) : ∀ n : Node,
      (n.producedInTurn env now items).foldl replay n =
        receiveItems env now n (items.map Value.dict) := by
  induction items with
  | nil => exact fun n ↦ rfl
  | cons x items ih =>
    intro n
    have hx := hitems x List.mem_cons_self
    rw [producedInTurn, List.foldl_append, replay_produced n hx, List.map_cons, receiveItems]
    split
    · rename_i n' h
      rw [h]
      exact ih (fun y hy ↦ hitems y (List.mem_cons_of_mem x hy)) n'
    · rename_i n' e h
      rw [h]
      rfl

theorem replay_together (E : Encoder) (n : Node) (items : List Obj) :
    (n.together env now E items).foldl replay n = n.afterTogether env now E items := by
  rw [together, afterTogether]
  split
  · rename_i henc
    have hitems : ∀ x ∈ items, (Value.dict x).serialisable = true := fun x hx ↦
      E.serialisable _ ((encodes_requestBody E items).mp henc x hx)
    rw [replay_producedInTurn items hitems, receiveGossip, gossipItems_requestBody]
  · rfl

theorem replay_apart (E : Encoder) (items : List Obj) : ∀ n : Node,
    (n.apart env now E items).foldl replay n = n.afterApart env now E items := by
  induction items with
  | nil => exact fun n ↦ rfl
  | cons x items ih =>
    intro n
    rw [apart, List.foldl_append, replay_together, ih]
    rfl

/-- If the same is produced, the node is the same. -/
theorem transparent_iff_eq (E : Encoder) (n : Node) (items : List Obj) :
    Transparent env now E n items ↔ n.together env now E items = n.apart env now E items := by
  refine ⟨Transparent.produced, fun h ↦ ⟨h, ?_⟩⟩
  rw [← replay_together, ← replay_apart, h]

/-! ## What is held up

If an item raises then the rest of its batch is not looked at.  This makes no difference exactly
if the rest would have had no effects, one item at a time. -/

/-- **Items of which each can do nothing do nothing together.** -/
theorem apart_eq_nil_iff (E : Encoder) (items : List Obj) : ∀ n : Node,
    n.apart env now E items = [] ↔
      ∀ x ∈ items, E.encodes (.dict x) = true → Void env now n.store.cache x := by
  induction items with
  | nil => simp [apart]
  | cons x items ih =>
    intro n
    rw [apart, List.append_eq_nil_iff, together_singleton, afterTogether_singleton,
      List.forall_mem_cons]
    by_cases henc : E.encodes (.dict x) = true
    · have hx := E.serialisable _ henc
      rw [if_pos henc, if_pos henc, produced_eq_nil_iff n hx]
      constructor
      · rintro ⟨hvoid, hrest⟩
        rw [receiveItem_of_void hx hvoid, ih] at hrest
        exact ⟨fun _ ↦ hvoid, hrest⟩
      · rintro ⟨hvoid, hrest⟩
        rw [receiveItem_of_void hx (hvoid henc), ih]
        exact ⟨hvoid henc, hrest⟩
    · rw [if_neg henc, if_neg henc, ih n]
      exact and_congr (iff_of_true rfl fun h ↦ absurd h henc) Iff.rfl

theorem voidRest_of_raises {cache : FeedCache} {x : Obj} (hx : Raises env now x) :
    VoidRest env now cache (x :: items) ↔
      ∀ y ∈ items, Void env now (cacheAfter env now cache [x]) y := by
  constructor
  · exact fun h ↦ h [] x items rfl (fun y hy ↦ absurd hy List.not_mem_nil) hx
  · rintro h (_ | ⟨y, before⟩) z after heq hbefore hz
    · obtain ⟨rfl, rfl⟩ := List.cons.inj heq
      exact h
    · obtain ⟨rfl, -⟩ := List.cons.inj heq
      exact absurd hx (hbefore x List.mem_cons_self)

theorem voidRest_of_not_raises {cache : FeedCache} {x : Obj} (hx : ¬Raises env now x) :
    VoidRest env now cache (x :: items) ↔
      VoidRest env now (cacheAfter env now cache [x]) items := by
  have hcache : ∀ before, cacheAfter env now cache (x :: before) =
      cacheAfter env now (cacheAfter env now cache [x]) before := by
    intro before
    rw [cacheAfter, cacheAfter, cacheAfter, ← List.singleton_append, List.filterMap_append,
      List.foldl_append]
  constructor
  · intro h before z after heq hbefore hz
    rw [← hcache]
    refine h (x :: before) z after (by rw [heq]; rfl) ?_ hz
    exact List.forall_mem_cons.mpr ⟨hx, hbefore⟩
  · rintro h (_ | ⟨y, before⟩) z after heq hbefore hz
    · obtain ⟨rfl, rfl⟩ := List.cons.inj heq
      exact absurd hz hx
    · obtain ⟨rfl, hrest⟩ := List.cons.inj heq
      rw [List.cons_append, hcache]
      exact h before z after hrest (fun w hw ↦ hbefore w (List.mem_cons_of_mem _ hw)) hz

/-- One loop over items that can be encoded does what they do if and only if it loses nothing. -/
theorem producedInTurn_eq_apart_iff (E : Encoder) (items : List Obj)
    (hitems : ∀ x ∈ items, E.encodes (.dict x) = true) : ∀ n : Node,
      n.producedInTurn env now items = n.apart env now E items ↔
        VoidRest env now n.store.cache items := by
  induction items with
  | nil =>
    intro n
    refine iff_of_true rfl fun before x after heq ↦ ?_
    simp at heq
  | cons x items ih =>
    intro n
    obtain ⟨henc, hrest⟩ := List.forall_mem_cons.mp hitems
    have hx := E.serialisable _ henc
    rw [producedInTurn, apart, together_singleton, afterTogether_singleton, if_pos henc,
      if_pos henc, List.append_cancel_left_eq]
    obtain ⟨n', o, hrecv⟩ : ∃ n' o, n.receiveItem env (.dict x) now = (n', o) := ⟨_, _, rfl⟩
    have hcache : (n.receiveItem env (.dict x) now).1.store.cache =
        cacheAfter env now n.store.cache [x] := cache_receiveItem n hx
    have hraises : (n.receiveItem env (.dict x) now).2.isSome = true ↔ Raises env now x :=
      raises_iff n hx
    rw [hrecv] at hcache hraises ⊢
    cases o with
    | none =>
      rw [ih hrest n', voidRest_of_not_raises fun h ↦ by simpa using hraises.mpr h, ← hcache]
    | some e =>
      rw [voidRest_of_raises (hraises.mp rfl), ← hcache, eq_comm, apart_eq_nil_iff]
      exact ⟨fun h y hy ↦ h y hy (hrest y hy), fun h y hy _ ↦ h y hy⟩

/-- **When batching goes unnoticed.**  The batch does what its items would have done on their own,
in the same order, if and only if nothing of what it holds up would have done anything. -/
theorem transparent_iff (env : Env) (now : ℤ) (E : Encoder) (n : Node) (items : List Obj) :
    Transparent env now E n items ↔ Lossless env now E n.store.cache items := by
  rw [transparent_iff_eq, together, Lossless]
  by_cases hall : ∀ x ∈ items, E.encodes (.dict x) = true
  · rw [if_pos ((encodes_requestBody E items).mpr hall), producedInTurn_eq_apart_iff E items hall]
    exact ⟨fun h ↦ Or.inl ⟨hall, h⟩, fun h ↦ h.elim And.right fun h ↦ absurd hall h.1⟩
  · rw [if_neg fun h ↦ hall ((encodes_requestBody E items).mp h), eq_comm, apart_eq_nil_iff]
    exact ⟨fun h ↦ Or.inr ⟨hall, h⟩, fun h ↦ h.elim (fun h ↦ absurd h.1 hall) And.right⟩

/-! ## A run

The items are published by a node, so they are such as really occur. -/

/-- An encoder that encodes what `json.dumps` does. -/
def plainEncoder : Encoder where
  encodes := Value.serialisable
  encodes_list items := by
    rw [Value.serialisable]
    exact Value.serialisableList_iff items
  serialisable _ h := h

/-- What `broadcast_gossip` puts into the queues, for all that a node has published. -/
def payloads (env : Env) (n : Node) : List Obj :=
  n.published.map fun p ↦
    [("origin", .str env.config.serverId), ("room", p.1), ("msg", .dict p.2)]

/-- The settings of a second node. -/
def peerEnv : Env :=
  { plainEnv with config := { plainEnv.config with serverId := lit "node-2" } }

/-- A form with an upload as its id, for a room that nobody has been in, and an ordinary request. -/
def publishedRun : List Event :=
  [.post (.form (some [("client-name", .str (lit "Mallory")), ("msg", .str (lit "x")),
      ("id", .file 0), ("room", .str (lit "nowhere"))])) [] 0 [],
    postEvent (lit "m2") (lit "hi")]

/-- The second message does not reach the other node, which would have cached and broadcast it. -/
theorem not_transparent_publishedRun : ∃ n, (system plainEnv).Reachable n ∧
    (payloads plainEnv n).length = 2 ∧
      together peerEnv 0 plainEncoder (initial peerEnv) (payloads plainEnv n) = [] ∧
        (apart peerEnv 0 plainEncoder (initial peerEnv) (payloads plainEnv n)).length = 2 ∧
          ¬Transparent peerEnv 0 plainEncoder (initial peerEnv) (payloads plainEnv n) := by
  have hexec : (System.exec (step plainEnv) (initial plainEnv) publishedRun).map (fun n ↦
      ((payloads plainEnv n).length,
        (together peerEnv 0 plainEncoder (initial peerEnv) (payloads plainEnv n)).length,
          (apart peerEnv 0 plainEncoder (initial peerEnv) (payloads plainEnv n)).length)) =
      some (2, 0, 2) := by
    decide +kernel
  obtain ⟨n, hn, hproj⟩ := Option.map_eq_some_iff.mp hexec
  obtain ⟨hlength, hrest⟩ := Prod.ext_iff.mp hproj
  obtain ⟨htogether, hapart⟩ := Prod.ext_iff.mp hrest
  refine ⟨n, System.reachable_of_exec rfl hn, hlength, List.length_eq_zero_iff.mp htogether, hapart,
    fun h ↦ ?_⟩
  have heq := congrArg List.length h.produced
  exact absurd (htogether.symm.trans (heq.trans hapart)) (by decide)

end Node
end GroupChat
