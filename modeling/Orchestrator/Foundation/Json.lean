import Orchestrator.Foundation.Binary64
import Orchestrator.Foundation.OrderedMap

/-!
# JSON values

Numbers keep the three representations of an arbitrary-size-free JSON library:
a natural word, a negative word, or a finite double. Objects list their entries
in key order, as an ordered map iterates them.
-/

namespace Json

/-- A JSON number. Doubles are finite: the other patterns have no JSON form. -/
inductive Number where
  | posInt (n : UInt64)
  | negInt (i : Int64)
  | float (x : Binary64) (finite : x.isFinite = true)
  deriving DecidableEq, Repr

/-- Comparison of numbers: doubles compare as numbers, not as bits. -/
def Number.beq : Number → Number → Bool
  | .posInt n, .posInt m => n == m
  | .negInt i, .negInt j => i == j
  | .float x _, .float y _ => x == y
  | _, _ => false

inductive Value where
  | null
  | bool (b : Bool)
  | number (n : Number)
  | string (s : String)
  | array (items : List Value)
  | object (entries : List (String × Value))
  deriving Repr

instance : Inhabited Value := ⟨.null⟩

mutual
/-- Comparison of values, entry by entry. -/
def Value.beq : Value → Value → Bool
  | .null, .null => true
  | .bool a, .bool b => a == b
  | .number n, .number m => n.beq m
  | .string s, .string t => s == t
  | .array xs, .array ys => Value.beqItems xs ys
  | .object es, .object fs => Value.beqEntries es fs
  | _, _ => false

def Value.beqItems : List Value → List Value → Bool
  | [], [] => true
  | x :: xs, y :: ys => x.beq y && Value.beqItems xs ys
  | _, _ => false

def Value.beqEntries : List (String × Value) → List (String × Value) → Bool
  | [], [] => true
  | (k, v) :: es, (l, w) :: fs => k == l && v.beq w && Value.beqEntries es fs
  | _, _ => false
end

instance : BEq Value := ⟨Value.beq⟩

/-- The object holding the entries of a map. -/
def Value.ofMap (m : BTreeMap String Value) : Value := .object m.toList

end Json
