import GroupChat.Lib.Line
import GroupChat.Server.Effects

/-!
# Several nodes

The nodes of a deployment tell each other about the messages that they accept.  For each of its
peers, a node has a queue and a worker that posts what is in the queue to `/internal/gossip` of the
peer, up to 100 items in one request: a `Line`.

* `Deployment` has the settings of all nodes, and which node answers at an address.  Which addresses
  a node keeps, out of those it is given, is `Site.getValidPeers`.
* `Cluster` is the state of all nodes and all lines, and `Cluster.step` one event: an event of a
  node, with all that it publishes, a worker that takes a batch or stops waiting for the answer, a
  request that arrives or is lost.  They come in any order.
* `appliedItems` are the items of a request that `receive_gossip` hands to the feed cache, and
  `Cluster.applied` is the history of them.

The items carry a `Tag`, which the program does not have: which publication of which node they are.
-/

set_option autoImplicit false

open scoped List

namespace GroupChat

open Transition

/-! ## Addresses

A deployment gives its nodes lists of addresses, in which a node may find its own under several
names.  What is done about that is the subject of `Cluster.SelfPeers`. -/

/-- What a node runs with, and what gossip reads. -/
structure Site where
  keyring : Keyring
  config : Config
  /-- `PORT`. -/
  port : ℤ
  /-- `PEERS`. -/
  peers : List Str

/-- `p.rstrip('/')`. -/
def rstripSlash (p : Str) : Str := p.rdropWhile (· == 47)

/-- Does `_get_valid_peers` take the address for one of the node itself? -/
def Site.isOwn (site : Site) (peer : Str) : Bool :=
  decide (lit ":" ++ intStr site.port <:+: peer) &&
    (decide (lit "localhost" <:+: peer) || decide (lit "127.0.0.1" <:+: peer))

/-- `_get_valid_peers`. -/
def Site.getValidPeers (site : Site) : List Str :=
  ((site.peers.filter fun p ↦ decide (p.strip ≠ [])).map rstripSlash).filter fun p ↦ !site.isOwn p

/-- The nodes of a deployment. -/
structure Deployment (ι : Type*) where
  lib : PyLib
  site : ι → Site
  /-- The node that answers at an address, as it is seen from a node. -/
  resolve : ι → Str → Option ι

/-- The environment of a node. -/
def Deployment.env {ι : Type*} (D : Deployment ι) (i : ι) : Env :=
  ⟨D.lib, (D.site i).keyring, (D.site i).config⟩

/-! ## Items

An item has the name of the node that it comes from, the room and the message.  A request has up
to 100 of them, and is lost as a whole if one of them cannot be serialised. -/

/-- Which publication of which node. -/
structure Tag (ι : Type*) where
  origin : ι
  /-- How many the node has published before. -/
  index : ℕ
  deriving DecidableEq

/-- An item of a queue. -/
structure GossipItem (ι : Type*) where
  tag : Tag ι
  payload : Value

/-- The item that `broadcast_gossip` makes of its arguments. -/
def gossipPayload (serverId : Str) (room : Value) (msg : Obj) : Value :=
  .dict [("origin", .str serverId), ("room", room), ("msg", .dict msg)]

/-- The body of a request. -/
def requestBody : List Value → Value
  | [item] => item
  | batch => .list batch

/-- `maxsize` of the queue of a peer. -/
def gossipQueueSize : ℕ := 1000

/-- The most items of a request. -/
def gossipBatchSize : ℕ := 100

/-- Can the request be written? -/
def sendable {ι : Type*} (batch : List (GossipItem ι)) : Bool :=
  (requestBody (batch.map GossipItem.payload)).serialisable

/-- The items of a request that are handed to the cache, up to the first one that raises. -/
def appliedItems {ι : Type*} (env : Env) (now : ℤ) : Node → List (GossipItem ι) →
    List (GossipItem ι)
  | _, [] => []
  | n, x :: xs =>
    match Node.gossipMessage env x.payload now with
    | none => appliedItems env now n xs
    | some _ =>
      x :: match n.receiveItem env x.payload now with
        | (n', none) => appliedItems env now n' xs
        | (_, some _) => []

/-! ## The state

Each pair of a node and an address has a line of its own, with the queue, the request on its way
and what has passed.  The lines of a node do not wait for each other. -/

/-- The nodes and the lines between them. -/
structure Cluster (ι : Type*) where
  node : ι → Node
  /-- The lines of a node, by the address of the peer. -/
  line : ι → Str → Line (GossipItem ι)
  /-- To speak about the past: the items that a node has applied. -/
  applied : ι → List (GossipItem ι)

namespace Cluster

variable {ι : Type*} [DecidableEq ι]

/-- Change one line. -/
def setLine (s : Cluster ι) (i : ι) (peer : Str) (l : Line (GossipItem ι)) : Cluster ι :=
  { s with line := Function.update s.line i (Function.update (s.line i) peer l) }

variable (D : Deployment ι)

/-- The item for a publication of a node. -/
def item (i : ι) (index : ℕ) (publication : Value × Obj) : GossipItem ι :=
  ⟨⟨i, index⟩, gossipPayload (D.site i).config.serverId publication.1 publication.2⟩

/-- The items for what a node has published between two states. -/
def newItems (i : ι) (n n' : Node) : List (GossipItem ι) :=
  ((n'.published.drop n.published.length).zipIdx n.published.length).map fun p ↦ item D i p.2 p.1

/-- `broadcast_gossip`: put the items into the queues of all peers. -/
def broadcastGossip (i : ι) (xs : List (GossipItem ι)) (s : Cluster ι) : Cluster ι :=
  { s with line := fun i' peer ↦
      if i' = i ∧ peer ∈ (D.site i).getValidPeers then
        xs.foldl (Line.put gossipQueueSize) (s.line i' peer)
      else s.line i' peer }

/-- A node is in a new state, and has published what is new in it. -/
def advance (i : ι) (n : Node) (s : Cluster ι) : Cluster ι :=
  broadcastGossip D i (newItems D i (s.node i) n) { s with node := Function.update s.node i n }

/-- A request reaches a node. -/
def receive (j : ι) (batch : List (GossipItem ι)) (now : ℤ) (s : Cluster ι) : Cluster ι :=
  { s with
    node := Function.update s.node j ((s.node j).receiveGossip (D.env j)
      (some (requestBody (batch.map GossipItem.payload))) now)
    applied := Function.update s.applied j
      (s.applied j ++ appliedItems (D.env j) now (s.node j) batch) }

/-- What can happen in a cluster. -/
inductive Event (ι : Type*)
  /-- Something happens on a node. -/
  | node (i : ι) (a : Node.Event)
  /-- The worker for a peer takes so many items. -/
  | take (i : ι) (peer : Str) (m : ℕ)
  /-- The worker stops waiting: there is an answer, an error, or a timeout. -/
  | finish (i : ι) (peer : Str)
  /-- One of the requests to a peer arrives. -/
  | deliver (i : ι) (peer : Str) (k : ℕ) (now : ℤ)
  /-- One of the requests to a peer is lost. -/
  | lose (i : ι) (peer : Str) (k : ℕ)

/-- One event; `none` if it cannot happen. -/
def step (s : Cluster ι) : Event ι → Option (Cluster ι)
  | .node i a => ((s.node i).step (D.env i) a).map fun n ↦ s.advance D i n
  | .take i peer m =>
    ((s.line i peer).take gossipBatchSize sendable m).map fun l ↦ s.setLine i peer l
  | .finish i peer => (s.line i peer).finish.map fun l ↦ s.setLine i peer l
  | .deliver i peer k now =>
    (D.resolve i peer).bind fun j ↦
      ((s.line i peer).deliver k).map fun p ↦ (s.setLine i peer p.2).receive D j p.1 now
  | .lose i peer k => ((s.line i peer).lose k).map fun l ↦ s.setLine i peer l

/-- All nodes have just started. -/
def initial : Cluster ι := ⟨fun i ↦ Node.initial (D.env i), fun _ _ ↦ .empty, fun _ ↦ []⟩

/-- A deployment. -/
def system : System (Cluster ι) (Event ι) := .ofFun (· = initial D) (step D)

/-! ## What a step does

A step changes one node, or one line, or one line and the node at its end.  An event of a node
also puts what it publishes on the lines of the node. -/

theorem line_setLine (s : Cluster ι) (i j : ι) (peer peer' : Str) (l : Line (GossipItem ι)) :
    (s.setLine i peer l).line j peer' = if j = i ∧ peer' = peer then l else s.line j peer' := by
  simp only [setLine, Function.update_apply]
  by_cases hj : j = i
  · subst hj
    simp only [if_true, true_and, Function.update_apply]
  · simp only [hj, if_false, false_and]

/-- A change of one line. -/
structure LineChange (s : Cluster ι) (i : ι) (peer : Str) (l : Line (GossipItem ι)) : Prop where
  items : l.items <+~ (s.line i peer).items
  passed : l.passed = (s.line i peer).passed

variable {D}

/-- **The steps of a cluster.** -/
theorem step_cases {s s' : Cluster ι} {a : Event ι} (h : s.step D a = some s') :
    (∃ i b n, a = .node i b ∧ (s.node i).step (D.env i) b = some n ∧ s' = s.advance D i n) ∨
      (∃ i peer l, LineChange s i peer l ∧ s' = s.setLine i peer l) ∨
      ∃ i peer k now j batch l, a = .deliver i peer k now ∧ D.resolve i peer = some j ∧
        (s.line i peer).deliver k = some (batch, l) ∧
        s' = (s.setLine i peer l).receive D j batch now := by
  cases a with
  | node i b =>
    obtain ⟨n, hn, rfl⟩ := Option.map_eq_some_iff.mp h
    exact Or.inl ⟨i, b, n, rfl, hn, rfl⟩
  | take i peer m =>
    obtain ⟨l, hl, rfl⟩ := Option.map_eq_some_iff.mp h
    exact Or.inr (Or.inl ⟨i, peer, l, ⟨Line.take_subperm hl, (Line.take_spec hl).1⟩, rfl⟩)
  | finish i peer =>
    obtain ⟨l, hl, rfl⟩ := Option.map_eq_some_iff.mp h
    refine Or.inr (Or.inl ⟨i, peer, l, ⟨?_, (Line.finish_spec hl).2.2⟩, rfl⟩)
    rw [Line.items_finish hl]
  | deliver i peer k now =>
    obtain ⟨j, hj, h⟩ := Option.bind_eq_some_iff.mp h
    obtain ⟨⟨batch, l⟩, hl, rfl⟩ := Option.map_eq_some_iff.mp h
    exact Or.inr (Or.inr ⟨i, peer, k, now, j, batch, l, rfl, hj, hl, rfl⟩)
  | lose i peer k =>
    obtain ⟨l, hl, rfl⟩ := Option.map_eq_some_iff.mp h
    exact Or.inr (Or.inl ⟨i, peer, l, ⟨Line.lose_subperm hl, (Line.lose_spec hl).2.2.2⟩, rfl⟩)

end Cluster

namespace Node

variable {env : Env} {n n' : Node}

/-- A step publishes at most one message. -/
theorem published_step {a : Event} (h : n.step env a = some n') :
    ∃ o : Option (Value × Obj), n'.published = n.published ++ o.toList := by
  by_cases hjob : ∃ i now nonce, a = .runJob i now nonce
  · obtain ⟨i, now, nonce, rfl⟩ := hjob
    obtain ⟨job, -, -, hpublished, -⟩ := runJob_spec h
    exact ⟨none, hpublished.trans (List.append_nil _).symm⟩
  · exact ⟨_, (leaves_step h fun i now nonce heq ↦ hjob ⟨i, now, nonce, heq⟩).published⟩

/-- A request of another node publishes nothing. -/
theorem published_receiveGossip (env : Env) (n : Node) (data : Option Value) (now : ℤ) :
    (n.receiveGossip env data now).published = n.published := by
  cases data with
  | none => rfl
  | some v =>
    exact (leaves_receiveItems env now (gossipItems v) n).published.trans (List.append_nil _)

end Node

namespace Cluster

variable {ι : Type*} {D : Deployment ι}

/-- The items of what a step has published. -/
theorem newItems_eq {i : ι} {n n' : Node} {o : Option (Value × Obj)}
    (h : n'.published = n.published ++ o.toList) :
    newItems D i n n' = (o.map (item D i n.published.length)).toList := by
  rw [newItems, h, List.drop_left]
  cases o <;> rfl

end Cluster

end GroupChat
