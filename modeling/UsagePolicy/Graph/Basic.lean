import UsagePolicy.Policy.Schema
import UsagePolicy.Policy.Vocabulary
import UsagePolicy.Number.Double

/-!
# Object graphs

An object graph holds policy nodes that nobody has checked. A node has a class and values for some
of the fields of its class; a value may be anything, a reference to a node of the graph included, so
nodes can be shared and can contain themselves. Two references are the same node exactly if they are
the same number.
-/

namespace UsagePolicy

/-- The deployment a program runs in. -/
inductive AppEnvironment
  | localRun
  | testRun
  | production
deriving DecidableEq, Repr

/-- A member of one of the closed sets of names. -/
inductive Member
  | policyType (t : PolicyType)
  | multiplicityKind (k : MultiplicityKind)
  | operator (o : Operator)
  | appEnvironment (e : AppEnvironment)
deriving DecidableEq, Repr

/-- The place of a node in its graph. -/
abbrev Ref := Nat

/-- A value of a field, or of anything that stands in for one. -/
inductive Value
  | absent
  | bool (b : Bool)
  | int (i : Int)
  | float (d : Double)
  | text (t : Text)
  | member (m : Member)
  | tuple (items : List Value)
  | list (items : List Value)
  | dict (entries : List (Text × Value))
  | node (r : Ref)
deriving Inhabited

/-- A policy node. Fields without a value are not listed. -/
structure Node where
  nodeClass : NodeClass
  fields : List (Field × Value)
  /-- A node has values for fields of its class only. -/
  mem_fields : ∀ e ∈ fields, e.1 ∈ nodeClass.fields

/-- The nodes of a graph, each at its reference. -/
structure Graph where
  nodes : Array Node

namespace AppEnvironment

/-- All environments. -/
def all : List AppEnvironment := [.localRun, .testRun, .production]

/-- The name in settings. -/
def name : AppEnvironment → Text
  | .localRun => "local"
  | .testRun => "test"
  | .production => "prod"

/-- The environment of a name. -/
def ofName? (t : Text) : Option AppEnvironment := all.find? fun x => x.name = t

end AppEnvironment

namespace Member

/-- The name of the set of a member. -/
def setName : Member → Text
  | .policyType _ => "PolicyType"
  | .multiplicityKind _ => "MultiplicityKind"
  | .operator _ => "Operator"
  | .appEnvironment _ => "AppEnvironment"

/-- The value of a member, a text. -/
def value : Member → Text
  | .policyType t => t.name
  | .multiplicityKind k => k.name
  | .operator o => o.name
  | .appEnvironment e => e.name

/-- The name of a member in its set. -/
def label : Member → Text
  | .appEnvironment .localRun => "LOCAL"
  | .appEnvironment .testRun => "TEST"
  | .appEnvironment .production => "PROD"
  | m => m.value

end Member

namespace Node

/-- The value of a field. -/
def get? (n : Node) (f : Field) : Option Value := n.fields.lookup f

end Node

namespace Graph

/-- The graph without nodes. -/
def empty : Graph := ⟨#[]⟩

/-- The node at a reference. -/
def node? (g : Graph) (r : Ref) : Option Node := g.nodes[r]?

/-- The graph with one more node, and its reference. -/
def add (g : Graph) (n : Node) : Graph × Ref := (⟨g.nodes.push n⟩, g.nodes.size)

/-- The graph with another node at a reference. -/
def set (g : Graph) (r : Ref) (n : Node) : Graph := ⟨g.nodes.setIfInBounds r n⟩

/-- The class of a value, if it is a node. -/
def nodeClass? (g : Graph) : Value → Option NodeClass
  | .node r => (g.node? r).map Node.nodeClass
  | _ => none

/-- The name of the type of a value. -/
def typeName (g : Graph) : Value → Text
  | .absent => "NoneType"
  | .bool _ => "bool"
  | .int _ => "int"
  | .float _ => "float"
  | .text _ => "str"
  | .member m => m.setName
  | .tuple _ => "tuple"
  | .list _ => "list"
  | .dict _ => "dict"
  | .node r => match g.node? r with
    | some n => n.nodeClass.name
    | none => "object"

end Graph

namespace Value

/-- The text that a value is, members of name sets included. -/
def text? : Value → Option Text
  | .text t => some t
  | .member m => some m.value
  | _ => none

/-- The value counts as present: not empty, not zero, not absent. -/
def isTruthy : Value → Bool
  | .absent => false
  | .bool b => b
  | .int i => i != 0
  | .float d => !d.isZero
  | .text t => !t.isEmpty
  | .member _ => true
  | .tuple vs => !vs.isEmpty
  | .list vs => !vs.isEmpty
  | .dict es => !es.isEmpty
  | .node _ => true

end Value

namespace Graph

/-- The values that going through a value gives one after the other, if it can be gone through. A
text gives its code points, a dictionary its keys and a node its fields with their names. -/
def elements? (g : Graph) : Value → Option (List Value)
  | .tuple vs => some vs
  | .list vs => some vs
  | .dict es => some (es.map fun e => .text e.1)
  | .text t => some (t.map fun c => .text [c])
  | .member m => some (m.value.map fun c => .text [c])
  | .node r => (g.node? r).map fun n => n.fields.map fun f => .tuple [.text f.1.name, f.2]
  | _ => none

end Graph

end UsagePolicy
