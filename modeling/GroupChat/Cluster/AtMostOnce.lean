import GroupChat.Cluster.Gossip

/-!
# Gossip neither loops nor duplicates

A message that a node publishes is put on the line of each of its peers, and what arrives at the
end of a line is not put on any other line.  So a node applies a publication at most as often as it
comes over the lines that lead there from the origin.

* `Single`: no two addresses that a node keeps lead to the same other node.  The node itself may be
  among its peers; its own items come back to it and are skipped.
* `Lined` and `Tidy` are what a run keeps: the items on a line are publications of the node at its
  beginning, each at most once; what a node has applied has passed the one line that leads there.
* `applied_le_one` is the result for single addresses: every publication is applied at most once on
  every node, never on its origin, and the arrival of a request puts nothing on any line.

Losses, retries and repetitions are steps of the lines, so the theorem holds whatever a line does
with its requests.  What it rests on is that a line is a path from one node to another, and that a
receiving node publishes nothing.
-/

set_option autoImplicit false

open scoped List

namespace GroupChat

open Transition

/-! ## What a request applies

A node applies items of a request in their order, and leaves out those that come from itself or
raise. -/

section Applied

variable {ι : Type*} {env : Env} {now : ℤ}

theorem appliedItems_sublist (env : Env) (now : ℤ) (batch : List (GossipItem ι)) : ∀ n : Node,
    appliedItems env now n batch <+ batch := by
  induction batch with
  | nil => exact fun n ↦ .refl _
  | cons x xs ih =>
    intro n
    rw [appliedItems]
    split
    · exact (ih n).cons x
    · refine .cons_cons x ?_
      split
      · exact ih _
      · exact List.nil_sublist xs

/-- What comes from the node itself is skipped. -/
theorem gossipMessage_own (env : Env) (room : Value) (msg : Obj) (now : ℤ) :
    Node.gossipMessage env (gossipPayload env.config.serverId room msg) now = none := by
  cases msg with
  | nil => rfl
  | cons f msg => exact if_pos rfl

theorem appliedItems_own {batch : List (GossipItem ι)}
    (h : ∀ x ∈ batch, ∃ room msg, x.payload = gossipPayload env.config.serverId room msg) :
    ∀ n : Node, appliedItems env now n batch = [] := by
  induction batch with
  | nil => exact fun n ↦ rfl
  | cons x xs ih =>
    intro n
    obtain ⟨room, msg, hpayload⟩ := h x List.mem_cons_self
    rw [appliedItems, hpayload, gossipMessage_own]
    exact ih (fun y hy ↦ h y (List.mem_cons_of_mem x hy)) n

end Applied

namespace Cluster

variable {ι : Type*} {D : Deployment ι}

/-- No two addresses of a node lead to the same other node. -/
def Single (D : Deployment ι) : Prop :=
  ∀ i, ∀ p ∈ (D.site i).getValidPeers, ∀ q ∈ (D.site i).getValidPeers, ∀ j, j ≠ i →
    D.resolve i p = some j → D.resolve i q = some j → p = q

/-- The item is what its tag says. -/
def Genuine (D : Deployment ι) (s : Cluster ι) (x : GossipItem ι) : Prop :=
  ∃ publication, (s.node x.tag.origin).published[x.tag.index]? = some publication ∧
    x = item D x.tag.origin x.tag.index publication

variable {s s' : Cluster ι}

theorem Genuine.index_lt {x : GossipItem ι} (h : Genuine D s x) :
    x.tag.index < (s.node x.tag.origin).published.length := by
  obtain ⟨publication, hpublication, -⟩ := h
  exact (List.getElem?_eq_some_iff.mp hpublication).1

/-- What is published stays so. -/
theorem Genuine.mono {x : GossipItem ι} (h : Genuine D s x)
    (hgrow : (s.node x.tag.origin).published <+: (s'.node x.tag.origin).published) :
    Genuine D s' x := by
  obtain ⟨publication, hpublication, hitem⟩ := h
  refine ⟨publication, ?_, hitem⟩
  obtain ⟨hlt, hget⟩ := List.getElem?_eq_some_iff.mp hpublication
  exact List.getElem?_eq_some_iff.mpr
    ⟨hlt.trans_le hgrow.length_le, by rw [← hgrow.getElem hlt, hget]⟩

variable [DecidableEq ι]

/-- Is the item the one with the tag? -/
def Carries (t : Tag ι) (x : GossipItem ι) : Bool := decide (x.tag = t)

/-- What is on the lines are publications of the nodes at their beginnings, each of them once. -/
structure Lined (D : Deployment ι) (s : Cluster ι) : Prop where
  line : ∀ i peer, ∀ x ∈ (s.line i peer).items,
    peer ∈ (D.site i).getValidPeers ∧ x.tag.origin = i ∧ Genuine D s x
  once : ∀ i peer t, (s.line i peer).items.countP (Carries t) ≤ 1

/-- The same, and what a node has applied has passed a line that leads there. -/
structure Tidy (D : Deployment ι) (s : Cluster ι) : Prop extends Lined D s where
  applied : ∀ j t, (s.applied j).countP (Carries t) = 0 ∨ t.origin ≠ j ∧
    ∃ peer ∈ (D.site t.origin).getValidPeers, D.resolve t.origin peer = some j ∧
      (s.applied j).countP (Carries t) ≤ (s.line t.origin peer).passed.countP (Carries t)
  genuine : ∀ j, ∀ x ∈ s.applied j, Genuine D s x

theorem carries_iff {t : Tag ι} {x : GossipItem ι} : Carries t x = true ↔ x.tag = t :=
  decide_eq_true_iff

variable {i j : ι} {peer : Str}

/-! ## Publications

`advance` puts what a handler has published on the line of every peer.  There is at most one
publication for each event of a node, and none for the arrival of a request. -/

theorem node_advance (i : ι) (n : Node) (s : Cluster ι) :
    (s.advance D i n).node = Function.update s.node i n := rfl

/-- The lines after a node has published what is new in its state. -/
theorem line_advance (i j : ι) (n : Node) (s : Cluster ι) (peer : Str) :
    (s.advance D i n).line j peer =
      if j = i ∧ peer ∈ (D.site i).getValidPeers then
        (newItems D i (s.node i) n).foldl (Line.put gossipQueueSize) (s.line j peer)
      else s.line j peer := rfl

/-- A line after a node has published at most one message. -/
theorem items_advance {n : Node} {o : Option (Value × Obj)}
    (h : n.published = (s.node i).published ++ o.toList) (j : ι) (peer : Str) :
    ((s.advance D i n).line j peer).items <+~ (s.line j peer).items ∨
      j = i ∧ peer ∈ (D.site i).getValidPeers ∧ ∃ publication, o = some publication ∧
        ((s.advance D i n).line j peer).items <+~
          item D i (s.node i).published.length publication :: (s.line j peer).items := by
  rw [line_advance, newItems_eq h]
  split
  · rename_i hpeer
    cases o with
    | none => exact Or.inl (.refl _)
    | some publication =>
      exact Or.inr ⟨hpeer.1, hpeer.2, publication, rfl, Line.put_subperm _ _ _⟩
  · exact Or.inl (.refl _)

theorem passed_advance {n : Node} {o : Option (Value × Obj)}
    (h : n.published = (s.node i).published ++ o.toList) (j : ι) (peer : Str) :
    ((s.advance D i n).line j peer).passed = (s.line j peer).passed := by
  rw [line_advance, newItems_eq h]
  split
  · cases o with
    | none => rfl
    | some publication => exact Line.passed_put _ _ _
  · rfl

theorem published_advance {n : Node} {o : Option (Value × Obj)}
    (h : n.published = (s.node i).published ++ o.toList) (j : ι) :
    (s.node j).published <+: ((s.advance D i n).node j).published := by
  rw [node_advance, Function.update_apply]
  split
  · rename_i hj
    subst hj
    exact ⟨o.toList, h.symm⟩
  · exact List.prefix_rfl

/-- The arrival of a request publishes nothing. -/
theorem published_receive (batch : List (GossipItem ι)) (now : ℤ) (s : Cluster ι) (j k : ι) :
    ((s.receive D j batch now).node k).published = (s.node k).published := by
  rw [receive]
  simp only [Function.update_apply]
  split
  · rename_i hk
    subst hk
    exact Node.published_receiveGossip _ _ _ _
  · rfl

/-! ## The invariant

`Lined` is about what is on the lines, `Tidy` about what has been applied.  The second needs
`Single`: without it a publication may come over two lines to the same node. -/

theorem Lined.initial (D : Deployment ι) : Lined D (Cluster.initial D) where
  line _ _ _ hx := absurd hx List.not_mem_nil
  once _ _ _ := Nat.zero_le _

/-- A node publishes. -/
theorem Lined.advance (h : Lined D s) {n : Node} {o : Option (Value × Obj)}
    (hn : n.published = (s.node i).published ++ o.toList) : Lined D (s.advance D i n) := by
  have hold : ∀ j peer, ∀ x ∈ (s.line j peer).items, peer ∈ (D.site j).getValidPeers ∧
      x.tag.origin = j ∧ Genuine D (s.advance D i n) x := by
    intro j peer x hx
    obtain ⟨hpeer, horigin, hgenuine⟩ := h.line j peer x hx
    exact ⟨hpeer, horigin, hgenuine.mono (published_advance hn _)⟩
  refine ⟨fun j peer x hx ↦ ?_, fun j peer t ↦ ?_⟩
  · rcases items_advance (D := D) hn j peer with hsub | ⟨rfl, hpeer, publication, rfl, hsub⟩
    · exact hold j peer x (hsub.subset hx)
    · rcases List.mem_cons.mp (hsub.subset hx) with rfl | hx
      · refine ⟨hpeer, rfl, publication, ?_, rfl⟩
        rw [node_advance,
          show (item D j (s.node j).published.length publication).tag.origin = j from rfl,
          Function.update_self, hn]
        exact List.getElem?_concat_length
      · exact hold j peer x hx
  · rcases items_advance (D := D) hn j peer with hsub | ⟨rfl, hpeer, publication, rfl, hsub⟩
    · exact (hsub.countP_le _).trans (h.once j peer t)
    · refine (hsub.countP_le _).trans ?_
      rw [List.countP_cons]
      split
      · rename_i hcarries
        -- the new item has a tag that no item on the line has
        have hnone : (s.line j peer).items.countP (Carries t) = 0 := by
          refine List.countP_eq_zero.mpr fun x hx hx' ↦ ?_
          obtain ⟨-, horigin, hgenuine⟩ := h.line j peer x hx
          have htag : x.tag = (item D j (s.node j).published.length publication).tag :=
            (carries_iff.mp hx').trans (carries_iff.mp hcarries).symm
          have hlt := hgenuine.index_lt
          rw [htag] at hlt
          exact absurd hlt (Nat.lt_irrefl _)
        rw [hnone]
      · exact h.once j peer t

/-- Nothing comes to the lines. -/
theorem Lined.of_subperm (h : Lined D s)
    (hline : ∀ j peer, (s'.line j peer).items <+~ (s.line j peer).items)
    (hnode : ∀ j, (s'.node j).published = (s.node j).published) : Lined D s' := by
  refine ⟨fun j peer x hx ↦ ?_, fun j peer t ↦ ((hline j peer).countP_le _).trans (h.once j peer t)⟩
  obtain ⟨hpeer, horigin, hgenuine⟩ := h.line j peer x ((hline j peer).subset hx)
  exact ⟨hpeer, horigin, hgenuine.mono (by rw [hnode])⟩

theorem items_setLine {l : Line (GossipItem ι)} (hl : l.items <+~ (s.line i peer).items) (j : ι)
    (peer' : Str) : ((s.setLine i peer l).line j peer').items <+~ (s.line j peer').items := by
  rw [line_setLine]
  split
  · rename_i heq
    rw [heq.1, heq.2]
    exact hl
  · exact .refl _

/-- What a line does to the lines. -/
theorem Lined.setLine (h : Lined D s) {l : Line (GossipItem ι)} (hl : LineChange s i peer l) :
    Lined D (s.setLine i peer l) := h.of_subperm (items_setLine hl.items) fun _ ↦ rfl

theorem Lined.deliver (h : Lined D s) {k : ℕ} {now : ℤ} {batch : List (GossipItem ι)}
    {l : Line (GossipItem ι)} (hl : (s.line i peer).deliver k = some (batch, l)) :
    Lined D ((s.setLine i peer l).receive D j batch now) :=
  h.of_subperm (items_setLine (Line.deliver_perm hl).subperm) (published_receive batch now _ j)

theorem Lined.step (h : Lined D s) {a : Event ι} (hstep : s.step D a = some s') : Lined D s' := by
  rcases step_cases hstep with ⟨i, b, n, -, hn, rfl⟩ | ⟨i, peer, l, hl, rfl⟩ |
    ⟨i, peer, k, now, j, batch, l, -, -, hl, rfl⟩
  · obtain ⟨o, ho⟩ := Node.published_step hn
    exact h.advance ho
  · exact h.setLine hl
  · exact h.deliver hl

theorem lined_of_reachable (h : (system D).Reachable s) : Lined D s := by
  refine h.invariant (I := Lined D) ?_ fun s a s' hs hstep ↦ hs.step hstep
  rintro s rfl
  exact .initial D

/-! ## What has been applied

The items applied on a node are, together with those on the way to it, among the publications of
the others, each of them once.  A request that arrives moves items from one part to the other. -/

theorem Tidy.initial (D : Deployment ι) : Tidy D (Cluster.initial D) where
  toLined := .initial D
  applied _ _ := Or.inl rfl
  genuine _ _ hx := absurd hx List.not_mem_nil

theorem Tidy.advance (h : Tidy D s) {n : Node} {o : Option (Value × Obj)}
    (hn : n.published = (s.node i).published ++ o.toList) : Tidy D (s.advance D i n) := by
  refine ⟨h.toLined.advance hn, fun j t ↦ ?_, fun j x hx ↦
    (h.genuine j x hx).mono (published_advance hn _)⟩
  rcases h.applied j t with hzero | ⟨horigin, q, hq, hresolve, hle⟩
  · exact Or.inl hzero
  · exact Or.inr ⟨horigin, q, hq, hresolve, by rwa [passed_advance hn]⟩

theorem Tidy.setLine (h : Tidy D s) {l : Line (GossipItem ι)} (hl : LineChange s i peer l) :
    Tidy D (s.setLine i peer l) := by
  have hpassed : ∀ j peer',
      ((s.setLine i peer l).line j peer').passed = (s.line j peer').passed := by
    intro j peer'
    rw [line_setLine]
    split
    · rename_i heq
      rw [heq.1, heq.2]
      exact hl.passed
    · rfl
  refine ⟨h.toLined.setLine hl, fun j t ↦ ?_, h.genuine⟩
  rcases h.applied j t with hzero | ⟨horigin, q, hq, hresolve, hle⟩
  · exact Or.inl hzero
  · exact Or.inr ⟨horigin, q, hq, hresolve, by rwa [hpassed]⟩

/-- What a request applies: an item that comes from another node, over the line it came on. -/
theorem origin_of_mem_appliedItems (h : Lined D s) {k : ℕ} {now : ℤ} {n : Node}
    {batch : List (GossipItem ι)} {l : Line (GossipItem ι)} {x : GossipItem ι}
    (hl : (s.line i peer).deliver k = some (batch, l))
    (hx : x ∈ appliedItems (D.env j) now n batch) :
    j ≠ i ∧ x.tag.origin = i ∧ peer ∈ (D.site i).getValidPeers ∧ Genuine D s x := by
  have hbatch : ∀ x ∈ batch, peer ∈ (D.site i).getValidPeers ∧ x.tag.origin = i ∧ Genuine D s x :=
    fun x hx ↦ h.line i peer x (Line.subset_of_deliver hl hx)
  obtain ⟨hpeer, horigin, hgenuine⟩ :=
    hbatch x ((appliedItems_sublist (D.env j) now batch _).subset hx)
  refine ⟨?_, horigin, hpeer, hgenuine⟩
  rintro rfl
  rw [appliedItems_own] at hx
  · exact absurd hx List.not_mem_nil
  · intro y hy
    obtain ⟨-, hyorigin, publication, -, hitem⟩ := hbatch y hy
    exact ⟨publication.1, publication.2, by rw [hitem, hyorigin]; rfl⟩

/-- A request arrives. -/
theorem Tidy.deliver (h : Tidy D s) (hsingle : Single D) {k : ℕ} {now : ℤ}
    {batch : List (GossipItem ι)} {l : Line (GossipItem ι)} (hj : D.resolve i peer = some j)
    (hl : (s.line i peer).deliver k = some (batch, l)) :
    Tidy D ((s.setLine i peer l).receive D j batch now) := by
  have hgenuine : ∀ x, Genuine D s x → Genuine D ((s.setLine i peer l).receive D j batch now) x :=
    fun x hx ↦ hx.mono (by rw [published_receive]; exact List.prefix_rfl)
  have hpassed : (s.line i peer).passed ++ batch = l.passed := (Line.deliver_spec hl).2.2.2.symm
  refine ⟨h.toLined.deliver hl, fun j' t ↦ ?_, fun j' x hx ↦ ?_⟩
  · have hgrows : ∀ i' peer', (s.line i' peer').passed.countP (Carries t) ≤
        ((s.setLine i peer l).line i' peer').passed.countP (Carries t) := by
      intro i' peer'
      rw [line_setLine]
      split
      · rename_i heq
        rw [heq.1, heq.2, ← hpassed]
        exact (List.sublist_append_left _ _).countP_le
      · exact Nat.le_refl _
    have hold : ∀ c, c = (s.applied j').countP (Carries t) → c = 0 ∨ t.origin ≠ j' ∧
        ∃ q ∈ (D.site t.origin).getValidPeers, D.resolve t.origin q = some j' ∧
          c ≤ ((s.setLine i peer l).line t.origin q).passed.countP (Carries t) := by
      rintro c rfl
      rcases h.applied j' t with hzero | ⟨horigin, q, hq, hresolve, hle⟩
      · exact Or.inl hzero
      · exact Or.inr ⟨horigin, q, hq, hresolve, hle.trans (hgrows t.origin q)⟩
    simp only [receive, Function.update_apply]
    split
    · rename_i hj'
      subst hj'
      rw [show (s.setLine i peer l).applied j' = s.applied j' from rfl, List.countP_append]
      by_cases happlied : (appliedItems (D.env j') now ((s.setLine i peer l).node j') batch).countP
          (Carries t) = 0
      · exact hold _ (by rw [happlied, Nat.add_zero])
      · -- an item with the tag is in the batch, so the line is one of its origin
        obtain ⟨x, hx, hcarries⟩ := List.countP_pos_iff.mp (Nat.pos_of_ne_zero happlied)
        obtain ⟨hne, horigin, hpeer, -⟩ := origin_of_mem_appliedItems h.toLined hl hx
        obtain rfl : t.origin = i := carries_iff.mp hcarries ▸ horigin
        have hle := (appliedItems_sublist (D.env j') now batch
          ((s.setLine t.origin peer l).node j')).countP_le (p := Carries t)
        have hline : (s.setLine t.origin peer l).line t.origin peer = l := by
          rw [line_setLine, if_pos ⟨rfl, rfl⟩]
        refine Or.inr ⟨hne.symm, peer, hpeer, hj, ?_⟩
        rw [hline, ← hpassed, List.countP_append]
        rcases h.applied j' t with hzero | ⟨-, q, hq, hresolve, hcount⟩
        · omega
        · obtain rfl := hsingle t.origin q hq peer hpeer j' hne hresolve hj
          omega
    · exact hold _ rfl
  · simp only [receive, Function.update_apply] at hx
    split at hx
    · rename_i hj'
      subst hj'
      rcases List.mem_append.mp hx with hx | hx
      · exact hgenuine x (h.genuine j' x hx)
      · exact hgenuine x (origin_of_mem_appliedItems h.toLined hl hx).2.2.2
    · exact hgenuine x (h.genuine j' x hx)

theorem Tidy.step (h : Tidy D s) (hsingle : Single D) {a : Event ι} (hstep : s.step D a = some s') :
    Tidy D s' := by
  rcases step_cases hstep with ⟨i, b, n, -, hn, rfl⟩ | ⟨i, peer, l, hl, rfl⟩ |
    ⟨i, peer, k, now, j, batch, l, -, hj, hl, rfl⟩
  · obtain ⟨o, ho⟩ := Node.published_step hn
    exact h.advance ho
  · exact h.setLine hl
  · exact h.deliver hsingle hj hl

theorem tidy_of_reachable (hsingle : Single D) (h : (system D).Reachable s) : Tidy D s := by
  refine h.invariant (I := Tidy D) ?_ fun s a s' hs hstep ↦ hs.step hsingle hstep
  rintro s rfl
  exact .initial D

/-- **Gossip neither loops nor duplicates.**  What a node applies are publications of other nodes,
each at most once, and the arrival of a request leaves the publications of all nodes and the queues
of all lines as they are. -/
theorem applied_le_one (hsingle : Single D) (h : (system D).Reachable s) :
    (∀ j t, (s.applied j).countP (Carries t) ≤ 1) ∧
      (∀ j, ∀ x ∈ s.applied j, x.tag.origin ≠ j ∧ Genuine D s x) ∧
      ∀ i peer k now s', s.step D (.deliver i peer k now) = some s' → ∀ j,
        (s'.node j).published = (s.node j).published ∧
          ∀ peer', (s'.line j peer').queue = (s.line j peer').queue := by
  have htidy := tidy_of_reachable hsingle h
  refine ⟨fun j t ↦ ?_, fun j x hx ↦ ⟨?_, htidy.genuine j x hx⟩, ?_⟩
  · rcases htidy.applied j t with hzero | ⟨-, q, -, -, hle⟩
    · omega
    · exact hle.trans ((Line.countP_passed_le _ _).trans (htidy.once _ q t))
  · rcases htidy.applied j x.tag with hzero | ⟨horigin, -⟩
    · exact absurd (carries_iff.mpr rfl) (List.countP_eq_zero.mp hzero x hx)
    · exact horigin
  · intro i peer k now s' hstep j
    obtain ⟨j', -, hstep⟩ := Option.bind_eq_some_iff.mp hstep
    obtain ⟨⟨batch, l⟩, hl, rfl⟩ := Option.map_eq_some_iff.mp hstep
    refine ⟨published_receive batch now _ j' j, fun peer' ↦ ?_⟩
    show ((s.setLine i peer l).line j peer').queue = _
    rw [line_setLine]
    split
    · rename_i heq
      rw [heq.1, heq.2]
      exact (Line.deliver_spec hl).2.1
    · rfl

/-! ## Two nodes

Both nodes run on one host, where each is given the addresses of both and takes its own one
out. -/

/-- A node that is given the addresses of both nodes, and takes its own one out. -/
def pairSite (serverId : Str) (port : ℤ) : Site where
  keyring := plainEnv.keyring
  config := { plainEnv.config with serverId := serverId }
  port := port
  peers := [lit "http://localhost:5001", lit "http://localhost:5002/"]

/-- Two nodes on one host. -/
def pair : Deployment Bool where
  lib := asciiLib
  site i := if i then pairSite (lit "node-2") 5002 else pairSite (lit "node-1") 5001
  resolve _ p :=
    if p = lit "http://localhost:5001" then some false
    else if p = lit "http://localhost:5002" then some true
    else none

theorem single_pair : Single pair := by
  have hpeers : ∀ i, (pair.site i).getValidPeers.length = 1 := by decide
  intro i p hp q hq _ _ _ _
  obtain ⟨r, hr⟩ := List.length_eq_one_iff.mp (hpeers i)
  rw [hr, List.mem_singleton] at hp hq
  exact hp.trans hq.symm

/-- A message is posted to the first node, and the second one is told. -/
def toldRun : List (Event Bool) :=
  [.node false (Node.postEvent (lit "m1") (lit "one")), .take false (lit "http://localhost:5002") 1,
    .deliver false (lit "http://localhost:5002") 0 0]

theorem applied_toldRun : ∃ s : Cluster Bool, (system pair).Trace (initial pair) toldRun s ∧
    (s.applied true).length = 1 ∧ (s.applied true).countP (Carries ⟨false, 0⟩) ≤ 1 := by
  have hexec : (System.exec (step pair) (initial pair) toldRun).map
      (fun s ↦ (s.applied true).length) = some 1 := by
    decide +kernel
  obtain ⟨s, hs, hlength⟩ := Option.map_eq_some_iff.mp hexec
  have htrace : (system pair).Trace (initial pair) toldRun s := System.trace_of_exec hs
  exact ⟨s, htrace, hlength, (applied_le_one single_pair (htrace.reachable rfl)).1 true ⟨false, 0⟩⟩

end Cluster

end GroupChat
