import UsagePolicy.Encoding.Failure

/-!
# Outlines

The outline of a value is its encoding with the places left open where further rules and constraints
go. It depends on the value and on what is inside it up to those places, so it is found without
recursion. Faults stand in an outline where the encoding would meet them, and the order of its parts
is the order in which they are encoded.
-/

namespace UsagePolicy

/-- What must stand at an open place. -/
inductive Spot
  | rule (kind : NodeClass)
  | constraint
deriving DecidableEq

/-- An encoding with open places. -/
inductive Outline
  | leaf (v : Value)
  | fault (e : Failure)
  | place (s : Spot) (v : Value) (p : Path)
  | items (os : List Outline)
  | members (ms : List (Text × Outline))

/-- The value of a field of something that may have no such field. -/
def Graph.fieldOf (g : Graph) (v : Value) (f : Field) : Except Failure Value :=
  match v with
  | .node r => match (g.node? r).bind fun n => n.get? f with
    | some x => .ok x
    | none => .error (.noAttribute (g.typeName v) f.name)
  | v => .error (.noAttribute (g.typeName v) f.name)

/-- A value that has no place in the policy model. -/
def Graph.unsupported (g : Graph) (v : Value) (p : Path) : Failure :=
  match g.shown v with
  | .ok t => .encoding (.unsupported p (g.typeName v) t)
  | .error flaw => .unprintable flaw .shown

namespace Outline

/-- An outline that needs a value. -/
def withValue (x : Except Failure Value) (k : Value → Outline) : Outline :=
  match x with
  | .ok v => k v
  | .error e => .fault e

/-- The outlines of the elements of a value, each from its index. -/
def elements (g : Graph) (v : Value) (k : Nat → Value → Outline) : Outline :=
  match g.elements? v with
  | some vs => .items (vs.mapIdx k)
  | none => .fault (.notIterable (g.typeName v))

/-- A member for a value that is there. -/
def ifPresent (key : Text) (x : Except Failure Value) (k : Value → Outline) :
    List (Text × Outline) :=
  match x with
  | .ok .absent => []
  | .ok v => [(key, k v)]
  | .error e => [(key, .fault e)]

/-- A member for a value that is not empty. -/
def ifTruthy (key : Text) (x : Except Failure Value) (k : Value → Outline) :
    List (Text × Outline) :=
  match x with
  | .ok v => if v.isTruthy then [(key, k v)] else []
  | .error e => [(key, .fault e)]

/-- An array with an identifier in it. -/
def identifier (v : Value) : Outline := .items [.members [(Term.id, .leaf v)]]

/-- The text of a literal value in a field. -/
def literal (g : Graph) (opened : List Slot) : Value → Outline
  | .bool true => .leaf (.text "true")
  | .bool false => .leaf (.text "false")
  | v => match g.plainWithin opened v with
    | .ok t => .leaf (.text t)
    | .error flaw => .fault (.unprintable flaw .plain)

/-- The outline of an operand. -/
def expression (g : Graph) (v : Value) (p : Path) : Outline :=
  if g.nodeClass? v = some .literalExpression then
    .members [(Term.value, withValue (g.fieldOf v .value) (literal g (v.slot .value)))]
  else .fault (g.unsupported v p)

/-- The outline of an operator. -/
def operator (g : Graph) (v : Value) (p : Path) : Outline :=
  match v with
  | .member (.operator o) => identifier (.text o.iri)
  | v => match g.shown v with
    | .ok t => .fault (.encoding (.unsupportedOperator p t))
    | .error flaw => .fault (.unprintable flaw .shown)

/-- The combinator that a value equals. -/
def kind? (v : Value) : Option MultiplicityKind := v.text?.bind MultiplicityKind.ofName?

/-- The policy type that a value equals. -/
def policyType? (v : Value) : Option PolicyType := v.text?.bind PolicyType.ofName?

/-- The outline of a comparison. -/
def atomic (g : Graph) (v : Value) (p : Path) : Outline :=
  .members
    [(Term.leftOperand, withValue (g.fieldOf v .leftExpression) fun x =>
        expression g x (p.snoc .leftOperand)),
      (Term.operator, withValue (g.fieldOf v .operator) fun x =>
        operator g x (p.snoc .operator)),
      (Term.rightOperand, withValue (g.fieldOf v .rightExpression) fun x =>
        expression g x (p.snoc .rightOperand))]

/-- The outline of a combination. -/
def multiplicity (g : Graph) (v : Value) (p : Path) : Outline :=
  withValue (g.fieldOf v .kind) fun k =>
    match kind? k with
    | none => .fault (g.unsupported k p)
    | some kind =>
      .members [(Term.combinator kind, withValue (g.fieldOf v .constraints) fun cs =>
        elements g cs fun i c => .place .constraint c (p.snoc (.member kind i)))]

/-- The outline of a constraint. -/
def constraint (g : Graph) (v : Value) (p : Path) : Outline :=
  match g.nodeClass? v with
  | some .atomicConstraint => atomic g v p
  | some .multiplicityConstraint => multiplicity g v p
  | _ => .fault (g.unsupported v p)

/-- The outline of an action. -/
def action (g : Graph) (v : Value) (p : Path) : Outline :=
  match v with
  | .absent => .members []
  | v => .members ((Term.actionType, withValue (g.fieldOf v .type) .leaf)
      :: ifPresent Term.includedIn (g.fieldOf v .includedIn) .leaf
      ++ ifPresent Term.refinement (g.fieldOf v .constraint)
        (fun c => .place .constraint c (p.snoc .refinement)))

/-- The members that all rules share. -/
def ruleMembers (g : Graph) (v : Value) (p : Path) : List (Text × Outline) :=
  (Term.action, withValue (g.fieldOf v .action) fun a => action g a (p.snoc .action))
    :: ifTruthy Term.constraint (g.fieldOf v .constraints)
      (fun cs => elements g cs fun i c => .place .constraint c (p.snoc (.constraint i)))

/-- The outline of a rule. -/
def rule (g : Graph) (v : Value) (p : Path) : Outline :=
  match g.nodeClass? v with
  | some .permission => .members (ruleMembers g v p
      ++ ifTruthy Term.duty (g.fieldOf v .duties)
        (fun ds => elements g ds fun i d => .place (.rule .duty) d (p.snoc (.duty i))))
  | some .prohibition => .members (ruleMembers g v p)
  | some .duty => .members (ruleMembers g v p
      ++ ifPresent Term.consequence (g.fieldOf v .consequence)
        (fun d => .place (.rule .duty) d (p.snoc .consequence)))
  | _ => .fault (g.unsupported v p)

/-- The outline of the rules of one kind in a policy. -/
def policyRules (g : Graph) (v : Value) (f : Field) (kind : NodeClass) (step : Nat → PathStep) :
    Outline :=
  withValue (g.fieldOf v f) fun rs =>
    elements g rs fun i r => .place (.rule kind) r (Path.policy.snoc (step i))

/-- A member for an identifier that is there. -/
def identifierMember (key : Text) : Value → List (Text × Outline)
  | .absent => []
  | v => [(key, identifier v)]

/-- The outline of a policy, given its own identifier and those of its participants. -/
def policy (g : Graph) (v : Value) (id : Text) (type : PolicyType) (assignee assigner : Value) :
    Outline :=
  .members
    ([(Term.id, .leaf (.text id)), (Term.type, .leaf (.text (Term.policyType type))),
      (Term.permission, policyRules g v .permissions .permission .permission),
      (Term.prohibition, policyRules g v .prohibitions .prohibition .prohibition),
      (Term.obligation, policyRules g v .obligations .duty .obligation)]
      ++ identifierMember Term.assignee assignee ++ identifierMember Term.assigner assigner
      ++ ifPresent Term.target (g.fieldOf v .target) identifier)

/-- The outline of what stands at a place. -/
def ofSpot (g : Graph) : Spot → Value → Path → Outline
  | .rule _, v, p => rule g v p
  | .constraint, v, p => constraint g v p

end Outline

end UsagePolicy
