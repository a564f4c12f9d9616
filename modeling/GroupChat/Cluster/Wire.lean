import GroupChat.Cluster.Convergence
import GroupChat.Py.RoundTrip

/-!
# Gossip as text

A `Cluster` hands the items of a request over as they are.  In the program they are written with
`json.dumps`, sent as the body of a request, and read again with `request.json()`.

* `Cluster.receiveText` is what the arrival of such a body does, and `Cluster.wireStep` one event of
  a cluster whose nodes send each other texts, as `_send_urllib_sync` writes them.
* `Cluster.AllReadable`: every message that a node has published comes back from its text.
* `Cluster.wireStep_eq`: as long as this is so, a text does what the items do that it is made of.
* `Cluster.wire_trace_iff`: up to a state in which this is so, both clusters have the same runs.  So
  what holds of every run of a `Cluster` holds of the program that sends texts.
-/

set_option autoImplicit false

namespace GroupChat

open Transition

namespace Cluster

variable {ι : Type*} [DecidableEq ι] (D : Deployment ι) (J : JsonLib)

/-! ## Texts

What is lost between a dictionary and its text is known from `Py.RoundTrip`.  A message that has
passed `receive_gossip` or a handler may still contain values which do not come back. -/

/-- The body of a request: `json.dumps(payload).encode('utf-8')`, which is ASCII. -/
def requestText (batch : List (GossipItem ι)) : Option Str :=
  (requestBody (batch.map GossipItem.payload)).dumps D.lib

/-- The items that are read from a body, with the tags of those that were sent. -/
def reread (batch : List (GossipItem ι)) : Option Value → List (GossipItem ι)
  | some v => batch.zipWith (fun x payload ↦ ⟨x.tag, payload⟩) (Node.gossipItems v)
  | none => []

/-- A body reaches a node. -/
def receiveText (j : ι) (batch : List (GossipItem ι)) (raw : Str) (now : ℤ) (s : Cluster ι) :
    Cluster ι :=
  { s with
    node := Function.update s.node j ((s.node j).receiveGossip (D.env j)
      (loads J raw).toOption now)
    applied := Function.update s.applied j (s.applied j ++
      appliedItems (D.env j) now (s.node j) (reread batch (loads J raw).toOption)) }

/-- One event of a cluster whose nodes send texts. -/
def wireStep (s : Cluster ι) : Event ι → Option (Cluster ι)
  | .deliver i peer k now =>
    (D.resolve i peer).bind fun j ↦
      ((s.line i peer).deliver k).bind fun p ↦
        (requestText D p.1).map fun raw ↦ (s.setLine i peer p.2).receiveText D J j p.1 raw now
  | a => s.step D a

/-- A deployment whose nodes send texts. -/
def wireSystem : System (Cluster ι) (Event ι) := .ofFun (· = initial D) (wireStep D J)

/-- Every message that a node has published comes back from its text. -/
def AllReadable (d : ℕ) (s : Cluster ι) : Prop :=
  ∀ i, ∀ p ∈ (s.node i).published,
    (gossipPayload (D.site i).config.serverId p.1 p.2).Readable D.lib J d

variable {D J} {d : ℕ} {s s' : Cluster ι}

/-! ## A request

A body is one text for all of its items, so it is readable if all of them are. -/

/-- The payloads of a batch are read back. -/
theorem readable_payload (hlined : Lined D s) (hread : AllReadable D J d s) {i : ι} {peer : Str}
    {k : ℕ} {batch : List (GossipItem ι)} {l : Line (GossipItem ι)}
    (hl : (s.line i peer).deliver k = some (batch, l)) :
    ∀ v ∈ batch.map GossipItem.payload, v.Readable D.lib J d := by
  intro v hv
  obtain ⟨x, hx, rfl⟩ := List.mem_map.mp hv
  obtain ⟨-, -, p, hp, hitem⟩ := hlined.line i peer x (Line.subset_of_deliver hl hx)
  rw [hitem]
  exact hread _ p (List.mem_of_getElem? hp)

theorem readable_requestBody {L : PyLib} {vs : List Value} (h : ∀ v ∈ vs, v.Readable L J d) :
    (requestBody vs).Readable L J (d + 1) := by
  rw [requestBody.eq_def]
  split
  · exact (h _ List.mem_cons_self).mono (Nat.le_succ d)
  · exact .list d h

/-- What is read from a body is the items it was made of. -/
theorem receiveText_eq (hdepth : d < J.maxDepth) (hlined : Lined D s)
    (hread : AllReadable D J d s) {i : ι} {peer : Str} {k : ℕ} {batch : List (GossipItem ι)}
    {l : Line (GossipItem ι)} (hl : (s.line i peer).deliver k = some (batch, l)) (j : ι) (now : ℤ)
    (s₁ : Cluster ι) : ∃ raw, requestText D batch = some raw ∧
      s₁.receiveText D J j batch raw now = s₁.receive D j batch now := by
  have hbody := readable_requestBody (readable_payload hlined hread hl)
  have hsome := Value.isSome_dumps D.lib (requestBody (batch.map GossipItem.payload))
  rw [hbody.serialisable] at hsome
  obtain ⟨raw, hraw⟩ := Option.isSome_iff_exists.mp hsome
  have hloads : (loads J raw).toOption = some (requestBody (batch.map GossipItem.payload)) := by
    rw [loads_dumps (hbody.mono hdepth) hraw]
    rfl
  have htags : reread batch (some (requestBody (batch.map GossipItem.payload))) = batch := by
    rw [reread, gossipItems_requestBody (payload_ne_list hlined hl), List.zipWith_map_right]
    rw [List.zipWith_self]
    exact List.map_id' batch
  refine ⟨raw, hraw, ?_⟩
  rw [receiveText, receive, hloads, htags]

/-! ## Runs

The condition is on the state at the end, as what is published stays published.  Under it the two
clusters take the same steps. -/

/-- **As long as everything published comes back, a text does what its items do.** -/
theorem wireStep_eq (hdepth : d < J.maxDepth) (hlined : Lined D s) (hread : AllReadable D J d s)
    (a : Event ι) : s.wireStep D J a = s.step D a := by
  cases a with
  | deliver i peer k now =>
    simp only [wireStep, step]
    cases D.resolve i peer with
    | none => rfl
    | some j =>
      cases hl : (s.line i peer).deliver k with
      | none => rfl
      | some p =>
        obtain ⟨batch, l⟩ := p
        obtain ⟨raw, hraw, heq⟩ := receiveText_eq hdepth hlined hread hl j now (s.setLine i peer l)
        simp only [Option.bind_some, Option.map_some, hraw, heq]
  | _ => rfl

/-- What is published stays published. -/
theorem published_mono {a : Event ι} (h : s.step D a = some s') (i : ι) :
    (s.node i).published <+: (s'.node i).published := by
  rcases step_cases h with ⟨j, b, n, -, hn, rfl⟩ | ⟨j, peer, l, -, rfl⟩ |
    ⟨j, peer, k, now, j', batch, l, -, -, -, rfl⟩
  · obtain ⟨o, ho⟩ := Node.published_step hn
    exact published_advance ho i
  · exact List.prefix_rfl
  · rw [published_receive]
    exact List.prefix_rfl

theorem published_wireStep {a : Event ι} (h : s.wireStep D J a = some s') (i : ι) :
    (s.node i).published <+: (s'.node i).published := by
  cases a with
  | deliver j peer k now =>
    obtain ⟨j', -, h⟩ := Option.bind_eq_some_iff.mp h
    obtain ⟨⟨batch, l⟩, -, h⟩ := Option.bind_eq_some_iff.mp h
    obtain ⟨raw, -, rfl⟩ := Option.map_eq_some_iff.mp h
    rw [receiveText]
    simp only [Function.update_apply]
    split
    · rename_i hi
      subst hi
      rw [Node.published_receiveGossip]
      exact List.prefix_rfl
    · exact List.prefix_rfl
  | node j b => exact published_mono (D := D) (a := .node j b) h i
  | take j peer m => exact published_mono (D := D) (a := .take j peer m) h i
  | finish j peer => exact published_mono (D := D) (a := .finish j peer) h i
  | lose j peer k => exact published_mono (D := D) (a := .lose j peer k) h i

omit [DecidableEq ι] in
theorem AllReadable.of_prefix (h : AllReadable D J d s')
    (hgrow : ∀ i, (s.node i).published <+: (s'.node i).published) : AllReadable D J d s :=
  fun i p hp ↦ h i p ((hgrow i).subset hp)

/-- **Texts refine items.**  Up to a state in which everything that was published comes back from
its text, a cluster that sends texts has the same runs as one that hands over the items. -/
theorem wire_trace_iff (hdepth : d < J.maxDepth) {l : List (Event ι)} {t : Cluster ι}
    (hread : AllReadable D J d t) :
    (wireSystem D J).Trace (initial D) l t ↔ (system D).Trace (initial D) l t := by
  induction l using List.reverseRecOn generalizing t with
  | nil => constructor <;> rintro ⟨⟩ <;> exact .nil _
  | append_singleton l a ih =>
    constructor
    · intro h
      obtain ⟨s, hl, hs⟩ := h.of_concat
      have hread' := hread.of_prefix (published_wireStep hs)
      have hl' := (ih hread').mp hl
      have hlined := lined_of_reachable (hl'.reachable rfl)
      exact hl'.concat ((wireStep_eq hdepth hlined hread' a).symm.trans hs)
    · intro h
      obtain ⟨s, hl, hs⟩ := h.of_concat
      have hread' := hread.of_prefix (published_mono hs)
      have hlined := lined_of_reachable (hl.reachable rfl)
      exact ((ih hread').mpr hl).concat ((wireStep_eq hdepth hlined hread' a).trans hs)

/-- A message is told in a text. -/
theorem wire_toldRun : ∃ t : Cluster Bool,
    (wireSystem pair ⟨fun _ ↦ .nan 0, 3⟩).Trace (initial pair) toldRun t ∧
      (t.applied true).length = 1 := by
  let J : JsonLib := ⟨fun _ ↦ .nan 0, 3⟩
  have hexec : (System.exec (step pair) (initial pair) toldRun).map
      (fun s ↦ ((s.node false).published, (s.node true).published, (s.applied true).length)) =
        some ([(.str general, messageObj (.str (lit "m1")) (lit "Alice") (lit "one")
          (.str general) 0)], [], 1) := by
    with_unfolding_all rfl
  obtain ⟨t, ht, hres⟩ := Option.map_eq_some_iff.mp hexec
  obtain ⟨hfirst, hres⟩ := Prod.mk.inj hres
  obtain ⟨hsecond, hlength⟩ := Prod.mk.inj hres
  have hread : AllReadable pair J 2 t := by
    rintro (_ | _) p hp
    · rw [hfirst, List.mem_singleton] at hp
      subst hp
      have hmsg : (Value.dict (messageObj (.str (lit "m1")) (lit "Alice") (lit "one")
          (.str general) 0)).Readable pair.lib J 1 := by
        refine .dict 0 ?_ (by simp [messageObj])
        simp only [messageObj, List.forall_mem_cons, List.not_mem_nil, false_imp_iff,
          implies_true, and_true]
        exact ⟨.str 0 (plain_lit _), .str 0 (plain_lit _), .str 0 (plain_lit _),
          .str 0 (plain_lit _), .int 0 (Nat.pow_pos (by decide))⟩
      refine .dict 1 ?_ (by simp)
      simp only [List.forall_mem_cons, List.not_mem_nil, false_imp_iff, implies_true, and_true]
      exact ⟨.str 1 (plain_lit _), .str 1 (plain_lit _), hmsg⟩
    · rw [hsecond] at hp
      exact absurd hp List.not_mem_nil
  exact ⟨t, (wire_trace_iff (J := J) (Nat.lt_succ_self 2) hread).mpr (System.trace_of_exec ht),
    hlength⟩

end Cluster
end GroupChat
