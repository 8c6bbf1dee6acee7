import Drafting.Formula.Assembly

/-!
# Walking a tree

The nodes of an assembly in order, parents before their children and children from left to right,
by a loop that keeps the trees still to be visited. A walk that is to look into every node ends with
a complaint when it meets a node that it cannot look into.

## Main definitions

* `Defect` — what makes an assembly no formula.
* `Joint.symbol?` — the symbol of an operator.
* `Assembly.children` — the parts of a node.
* `Assembly.walk` — the nodes of a tree.
* `Assembly.census` — the nodes of a tree without defects, or its defect.
-/

namespace Drafting

/-- What is found to be in the way when an assembly is no formula. -/
inductive Defect
  | foreign (value : Foreign)
  | unknownOperator (value : Foreign)
  /-- An unknown operator that cannot even be looked up among the known ones. -/
  | unhashable (kind : String)
deriving DecidableEq, Repr

namespace Defect

def message : Defect → String
  | foreign value => "Unknown expression node: " ++ value.kind
  | unknownOperator value => "Unknown operator: " ++ String.ofList value.shown
  | unhashable kind => "unhashable type: '" ++ kind ++ "'"

/-- What is found when an unknown operator is looked up in the table of the known ones. -/
def ofLookup (value : Foreign) : Defect :=
  match value.unhashable? with
  | some kind => unhashable kind
  | none => unknownOperator value

end Defect

/-- The symbol of what joins two operands, looked up in the table of operators. -/
def Joint.symbol? : Joint → Except Defect (List Char)
  | known operator => .ok operator.symbol
  | unknown value => .error (.ofLookup value)

namespace Assembly

def children : Assembly → List Assembly
  | integer _ | decimal _ | reference .. | foreign _ => []
  | parenthesized inner => [inner]
  | call _ argument => [argument]
  | callPair _ first second => [first, second]
  | binary left _ right => [left, right]
  | conditional condition whenTrue whenFalse => [condition, whenTrue, whenFalse]

/-- The number of nodes. -/
def size : Assembly → Nat
  | integer _ | decimal _ | reference .. | foreign _ => 1
  | parenthesized inner => inner.size + 1
  | call _ argument => argument.size + 1
  | callPair _ first second => first.size + second.size + 1
  | binary left _ right => left.size + right.size + 1
  | conditional condition whenTrue whenFalse =>
    condition.size + whenTrue.size + whenFalse.size + 1

/-- The number of nodes of several trees. -/
def totalSize : List Assembly → Nat
  | [] => 0
  | tree :: trees => tree.size + totalSize trees

theorem totalSize_append (trees trees' : List Assembly) :
    totalSize (trees ++ trees') = totalSize trees + totalSize trees' := by
  induction trees with
  | nil => simp [totalSize]
  | cons tree trees ih => simp only [List.cons_append, totalSize, ih, Nat.add_assoc]

theorem size_eq (tree : Assembly) : tree.size = totalSize tree.children + 1 := by
  cases tree <;> simp +arith [size, children, totalSize]

/-- Visits the first tree of the pending ones, and its children before the others. -/
def visit : List Assembly → List Assembly
  | [] => []
  | tree :: pending => tree :: visit (tree.children ++ pending)
termination_by pending => totalSize pending
decreasing_by
  have := size_eq tree
  simp only [totalSize_append, totalSize]
  omega

/-- The nodes of a tree, parents first. -/
def walk (tree : Assembly) : List Assembly := visit [tree]

/-- The foreign value that a node is. -/
def foreign? : Assembly → Option Defect
  | foreign value => some (.foreign value)
  | _ => none

/-- What is found when the symbol of a node is asked for. -/
def unknownOperator? : Assembly → Option Defect
  | binary _ (.unknown value) _ => some (.ofLookup value)
  | _ => none

/-- All nodes of a tree, when each of them can be looked into. A foreign value anywhere is found
before an unknown operator. -/
def census (tree : Assembly) : Except Defect (List Assembly) :=
  let nodes := tree.walk
  match nodes.findSome? foreign?, nodes.findSome? unknownOperator? with
  | some defect, _ => .error defect
  | none, some defect => .error defect
  | none, none => .ok nodes

end Assembly

end Drafting
