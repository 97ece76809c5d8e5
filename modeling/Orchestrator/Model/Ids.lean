import Orchestrator.Foundation.OrderedMap

/-!
# Identifiers

The macro `id_type!` declares ten wrappers of a string with the same methods.
Here the wrapper is one type indexed by the declared name, and each identifier
type is that wrapper at its own name. Deserialization fills the wrapper without
the check made by `new`, so a blank value is a value of the type.
-/

namespace Orchestrator

/-- The names handed to `id_type!`. -/
inductive IdKind where
  | runId | stepId | taskId | workflowId | attemptId | artifactId | eventId
  | idempotencyKey | workerId | cacheKey
  deriving DecidableEq, Repr

/-- The name as `stringify!` prints it. -/
def IdKind.name : IdKind → String
  | .runId => "RunId"
  | .stepId => "StepId"
  | .taskId => "TaskId"
  | .workflowId => "WorkflowId"
  | .attemptId => "AttemptId"
  | .artifactId => "ArtifactId"
  | .eventId => "EventId"
  | .idempotencyKey => "IdempotencyKey"
  | .workerId => "WorkerId"
  | .cacheKey => "CacheKey"

/-- The identifier type declared under one name. -/
structure Id (kind : IdKind) where
  value : String
  deriving DecidableEq, Repr

abbrev RunId := Id .runId
abbrev StepId := Id .stepId
abbrev TaskId := Id .taskId
abbrev WorkflowId := Id .workflowId
abbrev AttemptId := Id .attemptId
abbrev ArtifactId := Id .artifactId
abbrev EventId := Id .eventId
abbrev IdempotencyKey := Id .idempotencyKey
abbrev WorkerId := Id .workerId
abbrev CacheKey := Id .cacheKey

/-- An identifier was rejected before it entered a workflow definition. -/
structure IdentifierError where
  kind : String
  deriving DecidableEq, Repr

/-- The characters with the Unicode property `White_Space`, which `str::trim` removes. -/
def isWhiteSpace (c : Char) : Bool :=
  (0x09 ≤ c.toNat && c.toNat ≤ 0x0D) || c.toNat == 0x20 || c.toNat == 0x85 ||
    c.toNat == 0xA0 || c.toNat == 0x1680 || (0x2000 ≤ c.toNat && c.toNat ≤ 0x200A) ||
    c.toNat == 0x2028 || c.toNat == 0x2029 || c.toNat == 0x202F || c.toNat == 0x205F ||
    c.toNat == 0x3000

/-- `value.trim().is_empty()`. -/
def isBlank (value : String) : Bool := value.toList.all isWhiteSpace

namespace Id

variable {kind : IdKind}

theorem ext {a b : Id kind} (value : a.value = b.value) : a = b := by
  cases a
  cases b
  exact congrArg Id.mk value

/-- Creates an identifier after rejecting empty or whitespace-only values. -/
def new (value : String) : Except IdentifierError (Id kind) :=
  if isBlank value then .error ⟨kind.name⟩ else .ok ⟨value⟩

/-- Identifiers are ordered as their strings. -/
instance : Ord (Id kind) := ⟨fun a b => compare a.value b.value⟩

instance : Std.TransOrd (Id kind) where
  eq_swap {a b} := show compare a.value b.value = (compare b.value a.value).swap from
    Std.OrientedOrd.eq_swap
  isLE_trans {a b c} hab hbc := show (compare a.value c.value).isLE from
    Std.TransOrd.isLE_trans (b := b.value) hab hbc

instance : Std.LawfulEqOrd (Id kind) where
  compare_self {a} := show compare a.value a.value = .eq from Std.ReflOrd.compare_self
  eq_of_compare h := ext (Std.LawfulEqOrd.eq_of_compare (α := String) h)

instance : ToString (Id kind) := ⟨Id.value⟩

end Id

end Orchestrator
