import Orchestrator.Foundation.Saturating
import Orchestrator.Model.Ids

/-!
# Retry, placement and execution policy
-/

namespace Orchestrator

/-- A serializable delay used by retry policy. -/
structure RetryDelay where
  initialMs : UInt64
  multiplier : UInt32
  maxMs : UInt64
  deriving DecidableEq, Repr

namespace RetryDelay

def none : RetryDelay := ⟨0, 1, 0⟩

/-- The delay after the given attempt, in milliseconds. -/
def forAttempt (delay : RetryDelay) (attempt : UInt32) : UInt64 :=
  if attempt = 0 ∨ delay.initialMs = 0 then 0
  else
    let exponent := min (attempt - 1) 20
    let factor := delay.multiplier.saturatingPow exponent
    let product := delay.initialMs.saturatingMul factor.toUInt64
    min product (max delay.maxMs delay.initialMs)

end RetryDelay

/-- Retry policy for transient task failures and timeouts. Primary and fallback
execution share the budget; a fallback selected after the primary exhausts it
receives one final attempt. -/
structure RetryPolicy where
  maxAttempts : UInt32
  delay : RetryDelay
  deriving DecidableEq, Repr

namespace RetryPolicy

def never : RetryPolicy := ⟨1, .none⟩

/-- The expression `max_attempts.max(1)`, which every reader of the budget uses. -/
def budget (retry : RetryPolicy) : UInt32 := max retry.maxAttempts 1

theorem budget_pos (retry : RetryPolicy) : 1 ≤ retry.budget.toNat := by
  rw [budget, UInt32.toNat_max]
  exact Nat.le_max_right _ _

end RetryPolicy

/-- Where a task is permitted to execute. -/
inductive Residency where
  | any
  | region (name : String)
  deriving DecidableEq, Repr

/-- Whether a worker residency satisfies this requirement. -/
def Residency.allows : Residency → Residency → Bool
  | .any, _ => true
  | .region required, .region actual => required == actual
  | .region _, .any => false

/-- Resource and capability requirements for a step. -/
structure ResourceRequirements where
  cpuMillis : UInt32
  memoryMb : UInt32
  gpuCount : UInt16
  capabilities : BTreeSet String
  deriving DecidableEq, Repr

instance : Inhabited ResourceRequirements := ⟨⟨0, 0, 0, ∅⟩⟩

/-- Per-step execution behavior. -/
structure ExecutionPolicy where
  retry : RetryPolicy
  timeoutMs : Option UInt64
  fallbackTask : Option TaskId
  residency : Residency
  resources : ResourceRequirements
  deriving DecidableEq, Repr

/-- Stable metadata describing an executable capability. -/
structure TaskSpec where
  id : TaskId
  version : String
  capability : String
  metadata : BTreeMap String String
  deriving DecidableEq, Repr

/-- A worker's advertised placement and capacity. -/
structure WorkerProfile where
  id : WorkerId
  residency : Residency
  resources : ResourceRequirements
  deriving DecidableEq, Repr

namespace WorkerProfile

/-- Whether this worker can satisfy a step's resource policy. -/
def supports (worker : WorkerProfile) (policy : ExecutionPolicy) : Bool :=
  policy.residency.allows worker.residency &&
    decide (policy.resources.cpuMillis ≤ worker.resources.cpuMillis) &&
    decide (policy.resources.memoryMb ≤ worker.resources.memoryMb) &&
    decide (policy.resources.gpuCount ≤ worker.resources.gpuCount) &&
    policy.resources.capabilities.toList.all worker.resources.capabilities.contains

/-- Whether this worker can run a concrete task as well as its step policy. An
empty worker capability set means local or unrestricted. -/
def supportsTask (worker : WorkerProfile) (task : TaskSpec) (policy : ExecutionPolicy) : Bool :=
  worker.supports policy &&
    (worker.resources.capabilities.isEmpty ||
      worker.resources.capabilities.contains task.capability)

end WorkerProfile

end Orchestrator
