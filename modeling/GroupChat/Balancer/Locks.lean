import GroupChat.Balancer.Pick
import GroupChat.Lib.RWMutex

/-!
# The locks of the backends

Each backend has a readers–writer lock, `mu`.  This file lists the operations on it that each
function of the balancer performs, in order; what the functions do in between does not matter for
whether they block.  Where the operations depend on what was read (which backends are candidates,
whether a scrape succeeded), the outcome is a parameter of the execution.

All the functions are disciplined, but `serveHealth` takes the read lock of a backend a second time:
it calls `score` while it holds it.  A writer that is called in between and the reader wait for each
other from then on (`stuck_of_not_callsOutside`, `deadlocked_serveHealth`); if none is, the balancer
never deadlocks (`not_deadlocked_of_callsOutside`).
-/

set_option autoImplicit false

namespace GroupChat
namespace Balancer

open RWMutex Transition

universe u

variable {ι : Type u} [DecidableEq ι]

/-! ## The functions and their operations

For each function, the calls of `RLock`, `RUnlock`, `Lock` and `Unlock` that it makes, with the
backends on which it makes them. -/

/-- A call of a function of the balancer that takes locks. -/
inductive Execution (ι : Type u)
  | serveHealth
  | serveMetrics
  /-- `healthy` is what `IsHealthy` returns for each backend. -/
  | pickExcluding (exclude : Option ι) (healthy : ι → Bool)
  | checkHealth (b : ι)
  /-- `healthy` is what `IsHealthy` returns, `fetched` whether the response could be decoded. -/
  | scrapeMetrics (b : ι) (healthy fetched : Bool)
  | updateLatency (b : ι)

/-- A section under `b.mu.RLock()`. -/
def readSection (b : ι) : List (Op ι) := [.rLock b, .rUnlock b]

/-- A section under `b.mu.Lock()`. -/
def writeSection (b : ι) : List (Op ι) := [.lock b, .unlock b]

/-- `Backend.IsHealthy`. -/
def isHealthyOps (b : ι) : List (Op ι) := readSection b

/-- `Backend.score`. -/
def scoreOps (b : ι) : List (Op ι) := readSection b

/-- `LB.serveHealth`: the maxima, then for each backend its status, which includes its score. -/
def serveHealthOps (backends : List ι) : List (Op ι) :=
  backends.flatMap readSection ++
    backends.flatMap fun b ↦ [.rLock b] ++ scoreOps b ++ [.rUnlock b]

/-- `LB.serveMetrics`. -/
def serveMetricsOps (backends : List ι) : List (Op ι) := backends.flatMap readSection

/-- `LB.pickExcluding`: the health of the backends, then, if there is a choice, the maxima and the
scores of the candidates. -/
def pickExcludingOps (backends : List ι) (exclude : Option ι) (healthy : ι → Bool) :
    List (Op ι) :=
  (backends.filter fun b ↦ decide (some b ≠ exclude)).flatMap isHealthyOps ++
    match candidates backends healthy exclude with
    | [] => []
    | [_] => []
    | b :: bs => (b :: bs).flatMap readSection ++ (b :: bs).flatMap scoreOps

/-- `LB.scrapeMetrics`. -/
def scrapeMetricsOps (b : ι) (healthy fetched : Bool) : List (Op ι) :=
  isHealthyOps b ++ if healthy && fetched then writeSection b else []

/-- The operations of an execution. -/
def Execution.ops (backends : List ι) : Execution ι → List (Op ι)
  | .serveHealth => serveHealthOps backends
  | .serveMetrics => serveMetricsOps backends
  | .pickExcluding exclude healthy => pickExcludingOps backends exclude healthy
  | .checkHealth b => writeSection b
  | .scrapeMetrics b healthy fetched => scrapeMetricsOps b healthy fetched
  | .updateLatency b => writeSection b

/-! ## Runs of the balancer

The locks are an instance of `RWMutex`, with the executions for programs.  What is to be checked
of each program is that it is disciplined. -/

/-- Any number of executions on a list of backends. -/
def lockSystem (backends : List ι) : System (List (Thread ι)) (Event ι) :=
  RWMutex.system fun p ↦ ∃ e : Execution ι, p = e.ops backends

theorem disciplined_readSection (b : ι) : Disciplined [] (readSection b) := by
  simp [readSection, Disciplined]

theorem disciplined_writeSection (b : ι) : Disciplined [] (writeSection b) := by
  simp [writeSection, Disciplined]

/-- Every function of the balancer is disciplined. -/
theorem disciplined_ops (backends : List ι) (e : Execution ι) :
    Disciplined [] (e.ops backends) := by
  have hread : ∀ l : List ι, Disciplined [] (l.flatMap readSection) :=
    fun l ↦ .flatMap l fun b _ ↦ disciplined_readSection b
  cases e with
  | serveHealth =>
    refine Disciplined.append (.flatMap backends fun b _ ↦ ?_) (hread backends)
    simp [scoreOps, readSection, Disciplined]
  | serveMetrics => exact hread backends
  | pickExcluding exclude healthy =>
    refine Disciplined.append ?_ (hread _)
    split
    · rfl
    · rfl
    · exact (hread _).append (hread _)
  | checkHealth b => exact disciplined_writeSection b
  | scrapeMetrics b healthy fetched =>
    refine Disciplined.append ?_ (disciplined_readSection b)
    split
    · exact disciplined_writeSection b
    · rfl
  | updateLatency b => exact disciplined_writeSection b

/-- **The balancer does not deadlock** in a run in which no writer is called on a backend while a
`serveHealth` is between its two read locks on it. -/
theorem not_deadlocked_of_callsOutside (backends : List ι) {ts : List (Thread ι)}
    (h : ((lockSystem backends).when CallsOutside).Reachable ts) : ¬ Deadlocked ts := by
  refine RWMutex.not_deadlocked ?_ h
  rintro p ⟨e, rfl⟩
  exact disciplined_ops backends e

/-- The condition cannot be spared: a writer that is called in the window waits forever, and so does
a health request. -/
theorem stuck_of_not_callsOutside {backends : List ι} {ts ts₁ ts₂ : List (Thread ι)} {a : Event ι}
    (hc : ¬ CallsOutside ts a) (hs : RWMutex.next ts a = some ts₁)
    (hrun : (lockSystem backends).Run ts₁ ts₂) : ∃ i j b, Stuck i j b ts₂ := by
  cases a with
  | spawn p => exact absurd trivial hc
  | step i =>
    simp only [CallsOutside, not_forall] at hc
    obtain ⟨t, ht, b, hcalls, u, hu, hr⟩ := hc
    obtain ⟨j, hj⟩ := List.getElem?_of_mem hu
    exact ⟨i, j, b, stuck_of_call ht hcalls hj (by simpa using hr) hs hrun⟩

/-- A health request and a latency update, one after the other. -/
def calmRun : List (Event Bool) :=
  [.spawn (serveHealthOps [true]), .step 0, .step 0, .step 0, .step 0, .step 0, .step 0,
    .spawn (writeSection true), .step 1]

/-- The update calls `Lock` after the health request has taken the first of its two read locks. -/
def clashRun : List (Event Bool) :=
  [.spawn (serveHealthOps [true]), .step 0, .step 0, .step 0, .spawn (writeSection true), .step 1]

/-- The programs of the two runs are executions of the balancer. -/
theorem spawn_of_mem {l : List (Event Bool)} {p : List (Op Bool)} (hp : .spawn p ∈ l)
    (hl : l = calmRun ∨ l = clashRun) : ∃ e : Execution Bool, p = e.ops [true] := by
  have hcases : p = serveHealthOps [true] ∨ p = writeSection true := by
    rcases hl with rfl | rfl
    · simpa [calmRun] using hp
    · simpa [clashRun] using hp
  rcases hcases with rfl | rfl
  · exact ⟨.serveHealth, rfl⟩
  · exact ⟨.updateLatency true, rfl⟩

theorem not_deadlocked_calmRun : ¬ Deadlocked
    [(⟨[], false, []⟩ : Thread Bool), ⟨[], true, [.lock true, .unlock true]⟩] :=
  not_deadlocked_of_callsOutside [true]
    (RWMutex.reachable_when_of_exec (show System.exec _ [] calmRun = some _ by decide)
      fun _ hp ↦ spawn_of_mem hp (.inl rfl))

/-- **The deadlock of a health request**: it holds the read lock of the backend and waits for it
behind the writer, which waits for it in turn. -/
theorem deadlocked_serveHealth :
    ∃ ts, (lockSystem [true]).Reachable ts ∧ Deadlocked ts := by
  refine ⟨[⟨[.read true], false, [.rLock true, .rUnlock true, .rUnlock true]⟩,
    ⟨[], true, [.lock true, .unlock true]⟩], ?_, ⟨_, List.mem_cons_self, by simp⟩, by decide⟩
  exact RWMutex.reachable_of_exec (show System.exec _ [] clashRun = some _ by decide)
    fun _ hp ↦ spawn_of_mem hp (.inr rfl)

end Balancer
end GroupChat
