import GroupChat.Lib.Hysteresis

/-!
# Health checks

`LB.checkHealth` asks a backend for `/health` and counts the failures and the successes in a row.  A
healthy backend becomes unhealthy after `UnhealthyAfter` failures, and an unhealthy one healthy
again after `HealthyAfter` successes.  The answers are applied one after the other, under the lock
of the backend, whatever the order of the requests was; `checkHealth` is what one of them does.

The counters are machine integers, and the one that is not looked at may grow without bound: the
failures of a backend that stays unhealthy, the successes of one that stays healthy.  It is reset
before it is read again.  So `Tracks` says of the counters only what is read: while the backend is
healthy, `failStreak` is the number of failures at the end of the sequence, and while it is not,
`successStreak` is the number of successes.  From this comes `isHealthy_eq_false_iff`, which
describes the flag by the whole sequence of answers.
-/

set_option autoImplicit false

namespace GroupChat
namespace Balancer

open Hysteresis

/-! ## One check

A probe counts as a success if there was a response with the status 200; what else may have gone
wrong makes no difference. -/

/-- What `client.Get` has returned: an error, or a response with a status code. -/
inductive Probe
  | error
  | response (statusCode : ℤ)
  deriving DecidableEq

/-- `http.StatusOK`. -/
def statusOK : ℤ := 200

/-- `err == nil && resp.StatusCode == http.StatusOK`. -/
def Probe.ok : Probe → Bool
  | .error => false
  | .response statusCode => statusCode == statusOK

/-- The thresholds of the health checks. -/
structure HealthConfig where
  unhealthyAfter : Int64
  healthyAfter : Int64

/-- The fields of a backend that belong to the health checks. -/
structure Health where
  healthy : Bool
  failStreak : Int64
  successStreak : Int64
  deriving DecidableEq

namespace Health

/-- The health of a new backend. -/
def initial : Health := ⟨true, 0, 0⟩

/-- `LB.checkHealth`, once it has got the lock. -/
def checkHealth (cfg : HealthConfig) (b : Health) (probe : Probe) : Health :=
  if probe.ok then
    have b := { b with failStreak := 0, successStreak := b.successStreak + 1 }
    if b.healthy = false ∧ cfg.healthyAfter ≤ b.successStreak then { b with healthy := true } else b
  else
    have b := { b with successStreak := 0, failStreak := b.failStreak + 1 }
    if b.healthy = true ∧ cfg.unhealthyAfter ≤ b.failStreak then { b with healthy := false } else b

/-- The health after a sequence of checks. -/
def after (cfg : HealthConfig) (probes : List Probe) : Health :=
  probes.foldl (checkHealth cfg) initial

/-- `Backend.IsHealthy`. -/
def isHealthy (b : Health) : Bool := b.healthy

theorem after_concat (cfg : HealthConfig) (probes : List Probe) (probe : Probe) :
    after cfg (probes ++ [probe]) = checkHealth cfg (after cfg probes) probe := by
  rw [after, after, List.foldl_append]
  rfl

/-- A counter that is below a threshold does not overflow. -/
theorem toInt_succ {x n : Int64} {k : ℕ} (hx : x.toInt = k) (hlt : (k : ℤ) < n.toInt) :
    (x + 1).toInt = ((k + 1 : ℕ) : ℤ) := by
  have hn := n.toInt_lt
  rw [Int64.toInt_add, hx]
  exact (Int.bmod_eq_of_le (by simp; omega) (by simp; omega)).trans (by simp)

/-! ## The counters

A counter is a machine integer, and is compared with its threshold right after it has been raised.
As long as it is below the threshold it cannot have overflowed. -/

/-- The number of answers that it takes to change the flag. -/
def threshold (n : Int64) : ℕ := n.toInt.toNat

theorem lt_threshold_iff {n : Int64} {k : ℕ} : k < threshold n ↔ (k : ℤ) < n.toInt :=
  Int.lt_toNat

theorem one_le_threshold {n : Int64} (h : 1 ≤ n) : 1 ≤ threshold n := by
  have hint : (1 : Int64).toInt ≤ n.toInt := Int64.le_iff_toInt_le.mp h
  have hone : (1 : Int64).toInt = 1 := rfl
  rw [threshold]
  omega

/-- One more answer of the kind that is counted: the comparison that follows is right. -/
theorem le_succ_iff {x n : Int64} {k : ℕ} (hx : x.toInt = k) (hlt : k < threshold n) :
    n ≤ x + 1 ↔ threshold n ≤ k + 1 := by
  have hlt' := lt_threshold_iff.mp hlt
  rw [Int64.le_iff_toInt_le, toInt_succ hx hlt', threshold]
  omega

/-! ## The invariant

It says of the flag what `Tripped` says of the sequence, and of the counter that is looked at that
it is the streak at its end.  Nothing is said of the other counter. -/

/-- **The invariant.**  The flag is as it should be after the answers, and the counter that the next
change depends on is the length of the streak at the end, which is below its threshold. -/
structure Tracks (cfg : HealthConfig) (probes : List Probe) (b : Health) : Prop where
  flag : b.healthy = false ↔
    Tripped Probe.ok (threshold cfg.unhealthyAfter) (threshold cfg.healthyAfter) probes
  fails : b.healthy = true →
    b.failStreak.toInt = streak (fun p ↦ !p.ok) probes ∧
      streak (fun p ↦ !p.ok) probes < threshold cfg.unhealthyAfter
  successes : b.healthy = false →
    b.successStreak.toInt = streak Probe.ok probes ∧
      streak Probe.ok probes < threshold cfg.healthyAfter

variable {cfg : HealthConfig} {probes : List Probe} {probe : Probe} {b : Health}

theorem tracks_initial (h₁ : 1 ≤ cfg.unhealthyAfter) : Tracks cfg [] initial where
  flag := by
    simp only [initial, Bool.true_eq_false, false_iff]
    exact not_tripped_nil (one_le_threshold h₁)
  fails _ := ⟨rfl, one_le_threshold h₁⟩
  successes h := by simp [initial] at h

theorem not_tripped (h : Tracks cfg probes b) (hb : b.healthy = true) :
    ¬Tripped Probe.ok (threshold cfg.unhealthyAfter) (threshold cfg.healthyAfter) probes := by
  intro htrip
  rw [h.flag.mpr htrip] at hb
  exact absurd hb (by simp)

/-! ## One more answer

There is one lemma for a success and one for a failure.  In each of them the flag changes if the
streak has got long enough, and the other streak begins anew. -/

theorem tracks_success (h₁ : 1 ≤ cfg.unhealthyAfter) (h : Tracks cfg probes b)
    (hok : probe.ok = true) : Tracks cfg (probes ++ [probe]) (checkHealth cfg b probe) := by
  have htrip := tripped_concat_good (n := threshold cfg.healthyAfter) (l := probes)
    (one_le_threshold h₁) hok
  have hsuccesses : streak Probe.ok (probes ++ [probe]) = streak Probe.ok probes + 1 :=
    streak_concat_pos hok
  have hfails : streak (fun p ↦ !p.ok) (probes ++ [probe]) = 0 := streak_concat_neg (by simp [hok])
  have hreset : (0 : Int64).toInt = streak (fun p ↦ !p.ok) (probes ++ [probe]) ∧
      streak (fun p ↦ !p.ok) (probes ++ [probe]) < threshold cfg.unhealthyAfter := by
    rw [hfails]
    exact ⟨rfl, one_le_threshold h₁⟩
  simp only [checkHealth, if_pos hok]
  cases hb : b.healthy with
  | true =>
    have hnot : ¬Tripped Probe.ok (threshold cfg.unhealthyAfter) (threshold cfg.healthyAfter)
        (probes ++ [probe]) := fun ht ↦ not_tripped h hb (htrip.mp ht).1
    rw [if_neg (by simp)]
    exact ⟨iff_of_false (by simp) hnot, fun _ ↦ hreset, fun hf ↦ absurd hf (by simp)⟩
  | false =>
    obtain ⟨hcount, hlt⟩ := h.successes hb
    have hcmp := le_succ_iff hcount hlt
    have htripped := h.flag.mp hb
    by_cases hle : cfg.healthyAfter ≤ b.successStreak + 1
    · have hnot : ¬Tripped Probe.ok (threshold cfg.unhealthyAfter) (threshold cfg.healthyAfter)
          (probes ++ [probe]) := fun ht ↦ by
        have hstreak := (htrip.mp ht).2
        have hge := hcmp.mp hle
        omega
      rw [if_pos ⟨rfl, hle⟩]
      exact ⟨iff_of_false (by simp) hnot, fun _ ↦ hreset, fun hf ↦ absurd hf (by simp)⟩
    · have hstreak : streak Probe.ok probes + 1 < threshold cfg.healthyAfter :=
        not_le.mp fun hge ↦ hle (hcmp.mpr hge)
      rw [if_neg fun hand ↦ hle hand.2]
      refine ⟨iff_of_true rfl ?_, fun ht ↦ absurd ht (by simp), fun _ ↦ ?_⟩
      · exact htrip.mpr ⟨htripped, hsuccesses ▸ hstreak⟩
      · rw [hsuccesses]
        exact ⟨toInt_succ hcount (lt_threshold_iff.mp hlt), hstreak⟩

theorem tracks_failure (h₂ : 1 ≤ cfg.healthyAfter) (h : Tracks cfg probes b)
    (hok : probe.ok = false) : Tracks cfg (probes ++ [probe]) (checkHealth cfg b probe) := by
  have htrip := tripped_concat_bad (m := threshold cfg.unhealthyAfter) (l := probes)
    (one_le_threshold h₂) hok
  have hfails : streak (fun p ↦ !p.ok) (probes ++ [probe]) = streak (fun p ↦ !p.ok) probes + 1 :=
    streak_concat_pos (by simp [hok])
  have hsuccesses : streak Probe.ok (probes ++ [probe]) = 0 := streak_concat_neg hok
  have hreset : (0 : Int64).toInt = streak Probe.ok (probes ++ [probe]) ∧
      streak Probe.ok (probes ++ [probe]) < threshold cfg.healthyAfter := by
    rw [hsuccesses]
    exact ⟨rfl, one_le_threshold h₂⟩
  simp only [checkHealth, hok, Bool.false_eq_true, if_false]
  cases hb : b.healthy with
  | true =>
    obtain ⟨hcount, hlt⟩ := h.fails hb
    have hcmp := le_succ_iff hcount hlt
    by_cases hle : cfg.unhealthyAfter ≤ b.failStreak + 1
    · have htripped := htrip.mpr (Or.inr (hfails ▸ hcmp.mp hle))
      rw [if_pos ⟨rfl, hle⟩]
      exact ⟨iff_of_true rfl htripped, fun ht ↦ absurd ht (by simp), fun _ ↦ hreset⟩
    · have hstreak : streak (fun p ↦ !p.ok) probes + 1 < threshold cfg.unhealthyAfter :=
        not_le.mp fun hge ↦ hle (hcmp.mpr hge)
      have hnot : ¬Tripped Probe.ok (threshold cfg.unhealthyAfter) (threshold cfg.healthyAfter)
          (probes ++ [probe]) := fun ht ↦ by
        rcases htrip.mp ht with ht | hge
        · exact not_tripped h hb ht
        · omega
      rw [if_neg fun hand ↦ hle hand.2]
      refine ⟨iff_of_false (by simp) hnot, fun _ ↦ ?_, fun hf ↦ absurd hf (by simp)⟩
      rw [hfails]
      exact ⟨toInt_succ hcount (lt_threshold_iff.mp hlt), hstreak⟩
  | false =>
    rw [if_neg (by simp)]
    exact ⟨iff_of_true rfl (htrip.mpr (Or.inl (h.flag.mp hb))), fun ht ↦ absurd ht (by simp),
      fun _ ↦ hreset⟩

theorem tracks_after (h₁ : 1 ≤ cfg.unhealthyAfter) (h₂ : 1 ≤ cfg.healthyAfter)
    (probes : List Probe) : Tracks cfg probes (after cfg probes) := by
  induction probes using List.reverseRecOn with
  | nil => exact tracks_initial h₁
  | append_singleton probes probe ih =>
    rw [after_concat]
    cases hok : probe.ok with
    | true => exact tracks_success h₁ ih hok
    | false => exact tracks_failure h₂ ih hok

/-- **Hysteresis.**  A backend is unhealthy after a sequence of answers if and only if there is a
block of at least `UnhealthyAfter` consecutive failures in it, and `HealthyAfter` consecutive
successes have not come since the `UnhealthyAfter`-th failure of the block. -/
theorem isHealthy_eq_false_iff (cfg : HealthConfig) (h₁ : 1 ≤ cfg.unhealthyAfter)
    (h₂ : 1 ≤ cfg.healthyAfter) (probes : List Probe) :
    (after cfg probes).isHealthy = false ↔
      ∃ before block rest, probes = before ++ block ++ rest ∧
        cfg.unhealthyAfter.toInt ≤ block.length ∧ (∀ p ∈ block, p.ok = false) ∧
        ¬∃ run, run <:+: block.drop cfg.unhealthyAfter.toInt.toNat ++ rest ∧
          cfg.healthyAfter.toInt ≤ run.length ∧ ∀ p ∈ run, p.ok = true := by
  refine (tracks_after h₁ h₂ probes).flag.trans ?_
  simp only [Tripped, threshold, Int.toNat_le, Int.lt_toNat]
  constructor
  · rintro ⟨before, block, rest, hl, hlen, hbad, hrun⟩
    refine ⟨before, block, rest, hl, hlen, hbad, ?_⟩
    rintro ⟨run, hinfix, hrunlen, hgood⟩
    exact absurd (hrun run hinfix hgood) (Int.not_lt.mpr hrunlen)
  · rintro ⟨before, block, rest, hl, hlen, hbad, hrun⟩
    refine ⟨before, block, rest, hl, hlen, hbad, fun run hinfix hgood ↦ ?_⟩
    exact Int.not_le.mp fun hrunlen ↦ hrun ⟨run, hinfix, hrunlen, hgood⟩

/-- The thresholds that the balancer is started with. -/
def defaultHealthConfig : HealthConfig := ⟨6, 2⟩

/-- After six failures, a single success does not make the backend healthy. -/
theorem isHealthy_six_failures :
    (after defaultHealthConfig (List.replicate 6 Probe.error ++ [.response 200])).isHealthy =
      false := by
  refine (isHealthy_eq_false_iff defaultHealthConfig (by decide) (by decide) _).mpr
    ⟨[], List.replicate 6 Probe.error, [.response 200], rfl, by decide, by decide, ?_⟩
  rintro ⟨run, hinfix, hlen, -⟩
  have hle : run.length ≤ 1 := hinfix.length_le
  have htwo : (defaultHealthConfig.healthyAfter.toInt : ℤ) = 2 := rfl
  omega

end Health
end Balancer
end GroupChat
