import Orchestrator.Foundation.Binary64
import Orchestrator.Foundation.OrderedMap

/-!
# Evaluation gates

A gate compares one reported metric with a threshold. The decisions of a gate
list are collected into a map under the metric's name, so that a later gate
replaces the decision of an earlier one on the same metric.
-/

namespace Orchestrator

inductive MetricDirection where
  | atLeast
  | atMost
  deriving DecidableEq, Repr

structure Metric where
  name : String
  value : Binary64
  deriving BEq, Repr

structure EvaluationGate where
  metric : String
  threshold : Binary64
  direction : MetricDirection
  deriving BEq, Repr

structure GateDecision where
  passed : Bool
  metric : String
  observed : Option Binary64
  threshold : Binary64
  direction : MetricDirection
  deriving BEq, Repr

/-- The first metric reported under the gate's name decides. -/
def EvaluationGate.evaluate (gate : EvaluationGate) (metrics : List Metric) : GateDecision :=
  let observed := (metrics.find? (fun metric => metric.name == gate.metric)).map Metric.value
  let passed := observed.any fun value =>
    match gate.direction with
    | .atLeast => gate.threshold.le value
    | .atMost => value.le gate.threshold
  { passed, metric := gate.metric, observed, threshold := gate.threshold
    direction := gate.direction }

/-- Evaluates every gate and returns a decision per metric name. -/
def evaluateGates (gates : List EvaluationGate) (metrics : List Metric) :
    BTreeMap String GateDecision :=
  gates.foldl (fun decisions gate => decisions.insert gate.metric (gate.evaluate metrics)) ∅

end Orchestrator
