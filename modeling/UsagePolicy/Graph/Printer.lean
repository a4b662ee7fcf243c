import UsagePolicy.Graph.Basic
import UsagePolicy.Number.Shortest
import UsagePolicy.Text.Printable

/-!
# Printed values

`Graph.shown` prints a value so that its type can be seen: texts are quoted, a node is its class
with its fields between parentheses. `Graph.plain` prints texts without quotes and a node without
its class.

Two things that would print for ever are cut short with a note: a field whose value is its own node,
and a tuple, list or dictionary in a field that is being printed already. A longer way of nodes that
are each other's fields does print for ever, which is a flaw. Without one, no node comes twice until
another field is opened, so nodes and fields bound the nesting. The other flaw is an integer that has
too many digits.

Each field has its own tuple, list or dictionary. A value that is printed as that of a field is told
to come within itself; one that is printed by itself is taken to be in no field yet.
-/

namespace UsagePolicy

/-- How a value is printed. -/
inductive Printing
  /-- So that its type can be seen. -/
  | shown
  /-- As it is read by people. -/
  | plain
deriving DecidableEq

/-- Why a value cannot be printed. -/
inductive PrintFlaw
  /-- The text has no end. -/
  | endless
  /-- An integer has too many digits. -/
  | digits
deriving DecidableEq

namespace PrintFlaw

/-- What is said about a flaw in a text. -/
def message (how : Printing) : PrintFlaw → Text
  | .endless => match how with
    | .shown => "maximum recursion depth exceeded"
    | .plain => "maximum recursion depth exceeded while calling a Python object"
  | .digits => ("Exceeds the limit (" : Text) ++ Text.decimal Text.digitLimit
      ++ (" digits) for integer string conversion; " : Text)
      ++ ("use sys.set_int_max_str_digits() to increase the limit" : Text)

end PrintFlaw

/-- A field of a node, which a tuple, list or dictionary can be told by. -/
abbrev Slot := Ref × Field

namespace Member

/-- A member between angle brackets, with its value. -/
def shown (m : Member) : Text :=
  0x3C :: m.setName ++ 0x2E :: m.label ++ (": " : Text) ++ m.value.quoted ++ [0x3E]

/-- A member with the name of its set. -/
def plain (m : Member) : Text := m.setName ++ 0x2E :: m.label

end Member

namespace Value

mutual

/-- A value printed with a given printer of nodes. -/
def shownWith (node : Ref → Except PrintFlaw Text) : Value → Except PrintFlaw Text
  | .absent => .ok "None"
  | .bool true => .ok "True"
  | .bool false => .ok "False"
  | .int i => if Text.isOversized i then .error .digits else .ok (Text.decimalInt i)
  | .float d => .ok d.text
  | .text t => .ok t.quoted
  | .member m => .ok m.shown
  | .tuple vs => (itemsWith node vs).map fun ts =>
    match ts with
    | [t] => 0x28 :: t ++ (",)" : Text)
    | ts => 0x28 :: Text.join ", " ts ++ [0x29]
  | .list vs => (itemsWith node vs).map fun ts => 0x5B :: Text.join ", " ts ++ [0x5D]
  | .dict es => (entriesWith node es).map fun ts => 0x7B :: Text.join ", " ts ++ [0x7D]
  | .node r => node r

/-- Values printed one by one. -/
def itemsWith (node : Ref → Except PrintFlaw Text) : List Value → Except PrintFlaw (List Text)
  | [] => .ok []
  | v :: vs => (shownWith node v).bind fun t => (itemsWith node vs).map (t :: ·)

/-- Entries of a dictionary printed one by one. -/
def entriesWith (node : Ref → Except PrintFlaw Text) :
    List (Text × Value) → Except PrintFlaw (List Text)
  | [] => .ok []
  | (k, v) :: es => (shownWith node v).bind fun t =>
    (entriesWith node es).map ((k.quoted ++ (": " : Text) ++ t) :: ·)

end

/-- A field of a value, which has fields if it is a node. -/
def slot (v : Value) (f : Field) : List Slot :=
  match v with
  | .node r => [(r, f)]
  | _ => []

/-- What is printed for a tuple, list or dictionary within itself. -/
def note? : Value → Option Text
  | .tuple _ => some "(...)"
  | .list _ => some "[...]"
  | .dict _ => some "\x7b...\x7d"
  | _ => none

end Value

namespace Graph

/-- What is printed for a field whose value is its own node. -/
def selfNote (g : Graph) (r : Ref) : Text :=
  Text.quoted (("<Recursion on " : Text) ++ g.typeName (.node r) ++ (" with id=" : Text)
    ++ Text.decimal r ++ [0x3E])

/-- The field of the node at `r` printed, where the fields in `opened` are being printed already.
The printer of further nodes is told which fields are. -/
def fieldShown (g : Graph) (inner : List Slot → Ref → Except PrintFlaw Text) (opened : List Slot)
    (r : Ref) (f : Field) (v : Value) : Except PrintFlaw Text :=
  match v with
  | .node s => if s = r then .ok (g.selfNote r) else inner opened s
  | v => match v.note? with
    | none => v.shownWith (inner opened)
    | some note =>
      if (r, f) ∈ opened then .ok note else v.shownWith (inner ((r, f) :: opened))

/-- The fields of the node at `r`, each with its name. -/
def fieldsShown (g : Graph) (inner : List Slot → Ref → Except PrintFlaw Text)
    (opened : List Slot) (r : Ref) : List (Field × Value) → Except PrintFlaw (List Text)
  | [] => .ok []
  | (f, v) :: fs => (g.fieldShown inner opened r f v).bind fun t =>
    (fieldsShown g inner opened r fs).map ((f.name ++ 0x3D :: t) :: ·)

/-- A node printed; at most `depth` nodes may stand inside one another. -/
def nodeShown (g : Graph) : (depth : Nat) → (opened : List Slot) → Ref → Except PrintFlaw Text
  | 0, _, _ => .error .endless
  | n + 1, opened, r => match g.node? r with
    | some node => (g.fieldsShown (g.nodeShown n) opened r node.fields).map fun ts =>
      node.nodeClass.name ++ 0x28 :: Text.join ", " ts ++ [0x29]
    | none => .ok (g.typeName (.node r))

/-- The fields of all nodes. -/
def slots (g : Graph) : List Slot :=
  (List.range g.nodes.size).flatMap fun r => match g.node? r with
    | some n => n.fields.map fun e => (r, e.1)
    | none => []

/-- How many nodes may stand inside one another in a text that ends. -/
def nesting (g : Graph) : Nat := g.nodes.size * (g.slots.length + 1)

/-- A value printed with its type, where fields are being printed already. -/
def shownWithin (g : Graph) (opened : List Slot) (v : Value) : Except PrintFlaw Text :=
  v.shownWith (g.nodeShown g.nesting opened)

/-- A value printed plainly, where fields are being printed already. -/
def plainWithin (g : Graph) (opened : List Slot) (v : Value) : Except PrintFlaw Text :=
  match v with
  | .text t => .ok t
  | .member m => .ok m.plain
  | .node r => match g.node? r with
    | some node => (g.fieldsShown (g.nodeShown g.nesting) opened r node.fields).map (Text.join " ")
    | none => .ok (g.typeName v)
  | v => g.shownWithin opened v

/-- A value printed with its type by itself. -/
def shown (g : Graph) (v : Value) : Except PrintFlaw Text := g.shownWithin [] v

/-- A value printed plainly by itself. -/
def plain (g : Graph) (v : Value) : Except PrintFlaw Text := g.plainWithin [] v

end Graph

end UsagePolicy
