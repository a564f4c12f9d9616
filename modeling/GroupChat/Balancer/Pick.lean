import Mathlib.Data.List.MinMax
import Mathlib.Data.Rat.Floor
import Mathlib.Tactic.Positivity

/-!
# Choosing a backend

The load balancer sends a request to the healthy backend with the best score.  `pickExcluding` is
that choice for a given view of the backends, with exact arithmetic for the scores; `exclude` is
the backend that has just failed, and `none` stands for `nil`.

Backends are compared as pointers, so a backend is an element of an arbitrary type `ι` and its
fields are read through a function `view`.

* `pickExcluding_eq`: the loop over the candidates is `List.argmin` of the score.
* `score_lt_score`: the score is strictly monotone in the metrics, since the maxima that it divides
  by are positive and are those of the candidates themselves.
* `pickExcluding_best` collects what a caller may rely on.
-/

set_option autoImplicit false

namespace GroupChat
namespace Balancer

universe u

/-! ## Scores

A score adds three metrics, each divided by its maximum among the candidates and weighted.  The
loops for the maxima and for the best candidate are folds over the same list. -/

/-- The fields of a backend that the choice reads. -/
structure Backend where
  healthy : Bool
  latencyEWMA : ℚ
  cpuPct : ℚ
  activeConns : ℤ
  remoteActiveConn : ℚ

/-- The weights of the score. -/
structure Weights where
  wConn : ℚ
  wLat : ℚ
  wCpu : ℚ

/-- `normalize`. -/
def normalize (val maxVal : ℚ) : ℚ :=
  if maxVal ≤ 0 then 0
  else if val / maxVal < 0 then 0
  else if 1 < val / maxVal then 1
  else val / maxVal

/-- The number of connections that counts: the own one or the reported one. -/
def Backend.conns (b : Backend) : ℚ := max (b.activeConns : ℚ) b.remoteActiveConn

/-- `maxConns`, `maxLat` and `maxCpu`. -/
structure Maxima where
  conns : ℚ
  lat : ℚ
  cpu : ℚ

/-- The pass over the candidates that finds the maxima, which are at least 1. -/
def maxima (bs : List Backend) : Maxima :=
  bs.foldl (fun m b ↦ ⟨max m.conns b.conns, max m.lat b.latencyEWMA, max m.cpu b.cpuPct⟩) ⟨1, 1, 1⟩

/-- `Backend.score`. -/
def Backend.score (cfg : Weights) (m : Maxima) (b : Backend) : ℚ :=
  cfg.wConn * normalize b.conns m.conns + cfg.wLat * normalize b.latencyEWMA m.lat +
    cfg.wCpu * normalize b.cpuPct m.cpu

variable {ι : Type u} [DecidableEq ι]

/-- The backends among which the choice is made: the healthy ones, or all if none of them is. -/
def candidates (backends : List ι) (healthy : ι → Bool) (exclude : Option ι) : List ι :=
  match backends.filter fun b ↦ decide (some b ≠ exclude) && healthy b with
  | [] => backends.filter fun b ↦ decide (some b ≠ exclude)
  | b :: bs => b :: bs

omit [DecidableEq ι] in
/-- The first element with the least score, starting from `best`. -/
def bestOf (score : ι → ℚ) (best : ι) : List ι → ι
  | [] => best
  | b :: bs => bestOf score (if score b < score best then b else best) bs

/-- `LB.pickExcluding`. -/
def pickExcluding (cfg : Weights) (backends : List ι) (view : ι → Backend) (exclude : Option ι) :
    Option ι :=
  match candidates backends (fun b ↦ (view b).healthy) exclude with
  | [] => backends.head?
  | [b] => some b
  | b :: bs => some (bestOf (fun c ↦ (view c).score cfg (maxima ((b :: bs).map view))) b bs)

/-- `LB.pick`. -/
def pick (cfg : Weights) (backends : List ι) (view : ι → Backend) : Option ι :=
  pickExcluding cfg backends view none

theorem mem_of_mem_candidates {backends : List ι} {healthy : ι → Bool} {exclude : Option ι} {b : ι}
    (h : b ∈ candidates backends healthy exclude) : b ∈ backends := by
  rw [candidates] at h
  split at h
  · exact List.mem_of_mem_filter h
  · rename_i c cs hc
    rw [← hc] at h
    exact List.mem_of_mem_filter h

omit [DecidableEq ι] in
theorem bestOf_mem (score : ι → ℚ) (bs : List ι) : ∀ best, bestOf score best bs ∈ best :: bs := by
  induction bs with
  | nil => intro best; exact List.mem_singleton_self best
  | cons b bs ih =>
    intro best
    rcases List.mem_cons.mp (ih (if score b < score best then b else best)) with h | h
    · rw [bestOf, h]
      split <;> simp
    · exact List.mem_cons_of_mem _ (List.mem_cons_of_mem _ h)

/-- The choice is one of the backends. -/
theorem pickExcluding_mem {cfg : Weights} {backends : List ι} {view : ι → Backend}
    {exclude : Option ι} {b : ι} (h : pickExcluding cfg backends view exclude = some b) :
    b ∈ backends := by
  rw [pickExcluding] at h
  split at h
  · exact List.mem_of_mem_head? h
  · rename_i c hc
    obtain rfl := Option.some.inj h
    exact mem_of_mem_candidates (hc ▸ List.mem_singleton_self c)
  · rename_i c cs _ hc
    obtain rfl := Option.some.inj h
    exact mem_of_mem_candidates (hc ▸ bestOf_mem _ _ _)

/-- There is always a choice, unless there is no backend. -/
theorem pickExcluding_eq_none_iff {cfg : Weights} {backends : List ι} {view : ι → Backend}
    {exclude : Option ι} : pickExcluding cfg backends view exclude = none ↔ backends = [] := by
  constructor
  · intro h
    rw [pickExcluding] at h
    split at h
    · exact List.head?_eq_none_iff.mp h
    · simp at h
    · simp at h
  · rintro rfl
    rfl

/-! ## The choice is the best candidate

The loop replaces the best one so far only by one that is strictly better, so that among equals
the first is taken, as in `List.argmin`. -/

omit [DecidableEq ι] in
/-- The loop over the candidates is the fold that defines `List.argmin`. -/
theorem argmin_eq_bestOf (score : ι → ℚ) (best : ι) (bs : List ι) :
    List.argmin score (best :: bs) = some (bestOf score best bs) := by
  suffices H : ∀ best, bs.foldl (List.argAux fun b c ↦ score b < score c) (some best)
      = some (bestOf score best bs) from H best
  induction bs with
  | nil => intro best; rfl
  | cons b bs ih =>
    intro best
    rw [bestOf, ← ih, List.foldl_cons]
    congr 1
    exact (apply_ite some _ _ _).symm

/-- The score by which the candidates are compared. -/
def scoreOf (cfg : Weights) (view : ι → Backend) (cs : List ι) (b : ι) : ℚ :=
  (view b).score cfg (maxima (cs.map view))

theorem pickExcluding_eq (cfg : Weights) (backends : List ι) (view : ι → Backend)
    (exclude : Option ι) :
    pickExcluding cfg backends view exclude =
      if candidates backends (fun b ↦ (view b).healthy) exclude = [] then backends.head?
      else (candidates backends (fun b ↦ (view b).healthy) exclude).argmin
        (scoreOf cfg view (candidates backends (fun b ↦ (view b).healthy) exclude)) := by
  rw [pickExcluding]
  generalize candidates backends (fun b ↦ (view b).healthy) exclude = cs
  rcases cs with _ | ⟨b, _ | ⟨c, cs⟩⟩
  · rfl
  · rfl
  · rw [if_neg (List.cons_ne_nil _ _), argmin_eq_bestOf]
    rfl

/-- There is a candidate unless the excluded backend is the only one. -/
theorem candidates_eq_nil_iff {backends : List ι} {healthy : ι → Bool} {exclude : Option ι} :
    candidates backends healthy exclude = [] ↔ ∀ c ∈ backends, some c = exclude := by
  rw [candidates]
  split
  · simp
  · rename_i b bs hb
    have hm : b ∈ backends.filter fun b ↦ decide (some b ≠ exclude) && healthy b := by
      rw [hb]
      exact List.mem_cons_self
    rw [List.mem_filter] at hm
    simp only [ne_eq, Bool.and_eq_true, decide_eq_true_eq] at hm
    simp only [List.cons_ne_nil, false_iff, not_forall]
    exact ⟨b, hm.1, hm.2.1⟩

theorem ne_exclude_of_mem_candidates {backends : List ι} {healthy : ι → Bool}
    {exclude : Option ι} {b : ι} (h : b ∈ candidates backends healthy exclude) :
    some b ≠ exclude := by
  rw [candidates] at h
  split at h
  · simpa using (List.mem_filter.mp h).2
  · rename_i c cs hc
    rw [← hc, List.mem_filter] at h
    simp only [ne_eq, Bool.and_eq_true, decide_eq_true_eq] at h
    exact h.2.1

/-- If some backend apart from the excluded one is healthy, all candidates are. -/
theorem healthy_of_mem_candidates {backends : List ι} {healthy : ι → Bool} {exclude : Option ι}
    {b c : ι} (hc : c ∈ backends) (hce : some c ≠ exclude) (hch : healthy c = true)
    (h : b ∈ candidates backends healthy exclude) : healthy b = true := by
  rw [candidates] at h
  split at h
  · rename_i hnil
    have hm : c ∈ backends.filter fun b ↦ decide (some b ≠ exclude) && healthy b := by
      simp [hc, hce, hch]
    rw [hnil] at hm
    exact absurd hm List.not_mem_nil
  · rename_i d ds hd
    rw [← hd, List.mem_filter] at h
    simp only [ne_eq, Bool.and_eq_true] at h
    exact h.2.2

/-! ### The score respects the metrics -/

theorem maxima_eq (bs : List Backend) : maxima bs =
    ⟨(bs.map Backend.conns).foldl max 1, (bs.map Backend.latencyEWMA).foldl max 1,
      (bs.map Backend.cpuPct).foldl max 1⟩ := by
  suffices H : ∀ m : Maxima,
      bs.foldl (fun m b ↦ ⟨max m.conns b.conns, max m.lat b.latencyEWMA, max m.cpu b.cpuPct⟩) m
        = ⟨(bs.map Backend.conns).foldl max m.conns,
            (bs.map Backend.latencyEWMA).foldl max m.lat,
            (bs.map Backend.cpuPct).foldl max m.cpu⟩ from H ⟨1, 1, 1⟩
  induction bs with
  | nil => intro m; rfl
  | cons b bs ih => intro m; exact ih _

theorem le_foldl_max {l : List ℚ} {a x : ℚ} (h : x ∈ a :: l) : x ≤ l.foldl max a := by
  have hm : (a :: l).max? = some (l.foldl max a) := List.max?_cons'
  exact (List.max?_eq_some_iff.mp hm).2 x h

theorem normalize_eq_div {x m : ℚ} (hm : 0 < m) (h0 : 0 ≤ x) (hx : x ≤ m) :
    normalize x m = x / m := by
  have h1 : ¬x / m < 0 := not_lt.mpr (by positivity)
  have h2 : ¬1 < x / m := not_lt.mpr ((div_le_one hm).mpr hx)
  rw [normalize, if_neg (not_le.mpr hm), if_neg h1, if_neg h2]

theorem normalize_le_normalize {x y m : ℚ} (hm : 0 < m) (h0 : 0 ≤ x) (hxy : x ≤ y) (hy : y ≤ m) :
    normalize x m ≤ normalize y m := by
  rw [normalize_eq_div hm h0 (hxy.trans hy), normalize_eq_div hm (h0.trans hxy) hy]
  exact div_le_div_of_nonneg_right hxy hm.le

theorem normalize_lt_normalize {x y m : ℚ} (hm : 0 < m) (h0 : 0 ≤ x) (hxy : x < y) (hy : y ≤ m) :
    normalize x m < normalize y m := by
  rw [normalize_eq_div hm h0 (hxy.le.trans hy), normalize_eq_div hm (h0.trans hxy.le) hy]
  exact div_lt_div_of_pos_right hxy hm

/-! ## Better backends

A backend that is not worse in any metric and better in one has the lower score, as soon as the
weights are positive.  The maxima do not get in the way, because both backends are divided by the
same ones. -/

/-- No metric is negative. -/
structure Backend.NonNeg (b : Backend) : Prop where
  conns : 0 ≤ b.conns
  lat : 0 ≤ b.latencyEWMA
  cpu : 0 ≤ b.cpuPct

/-- The metrics of the backend are among those that the maxima are taken of. -/
structure Backend.Within (b : Backend) (m : Maxima) : Prop where
  conns : b.conns ≤ m.conns
  lat : b.latencyEWMA ≤ m.lat
  cpu : b.cpuPct ≤ m.cpu

structure Maxima.Pos (m : Maxima) : Prop where
  conns : 0 < m.conns
  lat : 0 < m.lat
  cpu : 0 < m.cpu

structure Weights.Pos (cfg : Weights) : Prop where
  conn : 0 < cfg.wConn
  lat : 0 < cfg.wLat
  cpu : 0 < cfg.wCpu

/-- `c` is at most equal to `b` in connections, latency and CPU, and smaller in one of them. -/
def Backend.Dominates (c b : Backend) : Prop :=
  (c.conns ≤ b.conns ∧ c.latencyEWMA ≤ b.latencyEWMA ∧ c.cpuPct ≤ b.cpuPct) ∧
    (c.conns < b.conns ∨ c.latencyEWMA < b.latencyEWMA ∨ c.cpuPct < b.cpuPct)

theorem maxima_pos (bs : List Backend) : (maxima bs).Pos := by
  have hpos : ∀ l : List ℚ, 0 < l.foldl max 1 := fun l ↦
    one_pos.trans_le (le_foldl_max List.mem_cons_self)
  rw [maxima_eq]
  exact ⟨hpos _, hpos _, hpos _⟩

theorem within_maxima {bs : List Backend} {b : Backend} (h : b ∈ bs) : b.Within (maxima bs) := by
  have hle : ∀ f : Backend → ℚ, f b ≤ (bs.map f).foldl max 1 := fun f ↦
    le_foldl_max (List.mem_cons_of_mem _ (List.mem_map_of_mem h))
  rw [maxima_eq]
  exact ⟨hle _, hle _, hle _⟩

/-- A backend that is better in one metric and not worse in the others has the smaller score. -/
theorem score_lt_score {cfg : Weights} {m : Maxima} {b c : Backend} (hcfg : cfg.Pos) (hm : m.Pos)
    (hc : c.NonNeg) (hb : b.Within m) (h : c.Dominates b) : c.score cfg m < b.score cfg m := by
  obtain ⟨⟨h1, h2, h3⟩, hlt⟩ := h
  have n1 := mul_le_mul_of_nonneg_left (normalize_le_normalize hm.conns hc.conns h1 hb.conns)
    hcfg.conn.le
  have n2 := mul_le_mul_of_nonneg_left (normalize_le_normalize hm.lat hc.lat h2 hb.lat)
    hcfg.lat.le
  have n3 := mul_le_mul_of_nonneg_left (normalize_le_normalize hm.cpu hc.cpu h3 hb.cpu)
    hcfg.cpu.le
  rw [Backend.score, Backend.score]
  rcases hlt with hlt | hlt | hlt
  · have hs := mul_lt_mul_of_pos_left (normalize_lt_normalize hm.conns hc.conns hlt hb.conns)
      hcfg.conn
    exact add_lt_add_of_lt_of_le (add_lt_add_of_lt_of_le hs n2) n3
  · have hs := mul_lt_mul_of_pos_left (normalize_lt_normalize hm.lat hc.lat hlt hb.lat) hcfg.lat
    exact add_lt_add_of_lt_of_le (add_lt_add_of_le_of_lt n1 hs) n3
  · have hs := mul_lt_mul_of_pos_left (normalize_lt_normalize hm.cpu hc.cpu hlt hb.cpu) hcfg.cpu
    exact add_lt_add_of_le_of_lt (add_le_add n1 n2) hs

/-! ## What a caller may rely on

The parts of the statement are those of the lemmas above: there is an answer, it is a candidate,
no candidate is better, and the excluded backend is only taken if there is no other one. -/

/-- **`pickExcluding` selects correctly.**  It has an answer unless there is no backend; the answer
is a healthy backend other than the excluded one if there is one, else any other backend if there
is one, else the first backend.  Among the candidates it is the first one of least score, and with
positive weights and no negative metric no candidate dominates it. -/
theorem pickExcluding_best (cfg : Weights) (backends : List ι) (view : ι → Backend)
    (exclude : Option ι) :
    (pickExcluding cfg backends view exclude = none ↔ backends = []) ∧
    ∀ b, pickExcluding cfg backends view exclude = some b →
      b ∈ backends ∧
      ((∃ c ∈ backends, some c ≠ exclude ∧ (view c).healthy = true) →
        some b ≠ exclude ∧ (view b).healthy = true) ∧
      ((∃ c ∈ backends, some c ≠ exclude) → some b ≠ exclude) ∧
      ((∀ c ∈ backends, some c = exclude) → backends.head? = some b) ∧
      (∀ cs, cs = candidates backends (fun c ↦ (view c).healthy) exclude → cs ≠ [] →
        (b ∈ cs ∧ (∀ c ∈ cs, scoreOf cfg view cs b ≤ scoreOf cfg view cs c) ∧
          ∀ c ∈ cs, scoreOf cfg view cs c ≤ scoreOf cfg view cs b → cs.idxOf b ≤ cs.idxOf c) ∧
        (cfg.Pos → (∀ c ∈ backends, (view c).NonNeg) →
          ∀ c ∈ cs, ¬(view c).Dominates (view b))) := by
  refine ⟨pickExcluding_eq_none_iff, fun b hb ↦ ?_⟩
  have hbs := pickExcluding_mem hb
  rw [pickExcluding_eq] at hb
  by_cases hnil : candidates backends (fun c ↦ (view c).healthy) exclude = []
  · have hall := candidates_eq_nil_iff.mp hnil
    rw [if_pos hnil] at hb
    refine ⟨hbs, ?_, ?_, fun _ ↦ hb, fun cs hcs hne ↦ absurd (hcs.trans hnil) hne⟩
    · rintro ⟨c, hc, hne, -⟩
      exact absurd (hall c hc) hne
    · rintro ⟨c, hc, hne⟩
      exact absurd (hall c hc) hne
  · rw [if_neg hnil] at hb
    obtain ⟨hmem, hmin, hfst⟩ := List.argmin_eq_some_iff.mp hb
    have hne := ne_exclude_of_mem_candidates hmem
    refine ⟨hbs, ?_, fun _ ↦ hne, fun hall ↦ absurd (candidates_eq_nil_iff.mpr hall) hnil, ?_⟩
    · rintro ⟨c, hc, hce, hch⟩
      exact ⟨hne, @healthy_of_mem_candidates ι _ backends (fun c ↦ (view c).healthy) _ _ c hc hce
        hch hmem⟩
    · rintro cs rfl -
      refine ⟨⟨hmem, hmin, hfst⟩, fun hcfg hnn c hc hdom ↦ ?_⟩
      have hlt := score_lt_score hcfg (maxima_pos _) (hnn c (mem_of_mem_candidates hc))
        (within_maxima (List.mem_map_of_mem hmem)) hdom
      exact absurd (hmin c hc) (not_le.mpr hlt)

/-- The weights without any environment variable. -/
def defaultWeights : Weights := ⟨2 / 5, 7 / 20, 1 / 4⟩

/-- Three backends: an idle one that is not healthy, a busy one and a slow one. -/
def threeBackends : ℕ → Backend
  | 0 => ⟨false, 0, 0, 0, 0⟩
  | 1 => ⟨true, 20, 50, 10, 4⟩
  | _ => ⟨true, 40, 10, 2, 3⟩

theorem pickExcluding_three :
    pickExcluding defaultWeights [0, 1, 2] threeBackends (some 0) = some 2 ∧
      ¬(threeBackends 1).Dominates (threeBackends 2) := by
  have hpick : pickExcluding defaultWeights [0, 1, 2] threeBackends (some 0) = some 2 := by
    decide +kernel
  have hcs : candidates [0, 1, 2] (fun c ↦ (threeBackends c).healthy) (some 0) = [1, 2] := by
    decide +kernel
  have hnn : ∀ c ∈ [0, 1, 2], (threeBackends c).NonNeg := by
    intro c hc
    simp only [List.mem_cons, List.not_mem_nil, or_false] at hc
    rcases hc with rfl | rfl | rfl <;> constructor <;> decide +kernel
  have hbest := ((pickExcluding_best defaultWeights [0, 1, 2] threeBackends (some 0)).2 2 hpick)
  refine ⟨hpick, (hbest.2.2.2.2 [1, 2] hcs.symm (List.cons_ne_nil _ _)).2 ?_ hnn 1 ?_⟩
  · constructor <;> decide +kernel
  · exact List.mem_cons_self

end Balancer
end GroupChat
