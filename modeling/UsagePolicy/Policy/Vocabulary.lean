import UsagePolicy.Text.Basic

/-!
# Vocabulary

The kinds of policies, the logical combinators and the operators of constraints, each with the name
under which a policy store keeps it, and the terms under which documents name them. Documents are
in expanded form, so every term is a full identifier in the namespace of the schema.
-/

namespace UsagePolicy

/-- What a policy expresses. -/
inductive PolicyType
  | set
  | offer
  | contract
deriving DecidableEq, Repr

/-- The combinator of a multiplicity constraint. -/
inductive MultiplicityKind
  | and
  | or
  | xone
deriving DecidableEq, Repr

/-- The operator of an atomic constraint. -/
inductive Operator
  | eq
  | neq
  | gt
  | geq
  | lt
  | leq
  | isIn
  | hasPart
  | isA
  | isAllOf
  | isAnyOf
  | isNoneOf
deriving DecidableEq, Repr

namespace PolicyType

/-- All policy types. -/
def all : List PolicyType := [.set, .offer, .contract]

/-- The name in payloads. -/
def name : PolicyType → Text
  | .set => "SET"
  | .offer => "OFFER"
  | .contract => "CONTRACT"

/-- The policy type of a name. -/
def ofName? (t : Text) : Option PolicyType := all.find? fun x => x.name = t

end PolicyType

namespace MultiplicityKind

/-- All combinators. -/
def all : List MultiplicityKind := [.and, .or, .xone]

/-- The name in payloads. -/
def name : MultiplicityKind → Text
  | .and => "AND"
  | .or => "OR"
  | .xone => "XONE"

/-- The combinator of a name. -/
def ofName? (t : Text) : Option MultiplicityKind := all.find? fun x => x.name = t

/-- The term of the schema. -/
def term : MultiplicityKind → Text
  | .and => "and"
  | .or => "or"
  | .xone => "xone"

end MultiplicityKind

namespace Operator

/-- All operators. -/
def all : List Operator :=
  [.eq, .neq, .gt, .geq, .lt, .leq, .isIn, .hasPart, .isA, .isAllOf, .isAnyOf, .isNoneOf]

/-- The name in payloads. -/
def name : Operator → Text
  | .eq => "EQ"
  | .neq => "NEQ"
  | .gt => "GT"
  | .geq => "GEQ"
  | .lt => "LT"
  | .leq => "LEQ"
  | .isIn => "IN"
  | .hasPart => "HAS_PART"
  | .isA => "IS_A"
  | .isAllOf => "IS_ALL_OF"
  | .isAnyOf => "IS_ANY_OF"
  | .isNoneOf => "IS_NONE_OF"

/-- The operator of a name. -/
def ofName? (t : Text) : Option Operator := all.find? fun x => x.name = t

/-- The term of the schema. -/
def term : Operator → Text
  | .eq => "eq"
  | .neq => "neq"
  | .gt => "gt"
  | .geq => "gteq"
  | .lt => "lt"
  | .leq => "lteq"
  | .isIn => "isPartOf"
  | .hasPart => "hasPart"
  | .isA => "isA"
  | .isAllOf => "isAllOf"
  | .isAnyOf => "isAnyOf"
  | .isNoneOf => "isNoneOf"

end Operator

namespace Term

/-- The namespace of the schema. -/
def schema : Text := "http://www.w3.org/ns/odrl/2/"

/-- A term of the schema in full. -/
def full (t : Text) : Text := schema ++ t

/-- The key of an identifier. -/
def id : Text := "@id"

/-- The key of a type. -/
def type : Text := "@type"

/-- The key of a literal value. -/
def value : Text := "@value"

/-- The type of the document of a policy. -/
def policyType : PolicyType → Text
  | .set => full "Set"
  | .offer => full "Offer"
  | .contract => full "Agreement"

/-- The key of a policy's permissions. -/
def permission : Text := full "permission"

/-- The key of a policy's prohibitions. -/
def prohibition : Text := full "prohibition"

/-- The key of a policy's obligations. -/
def obligation : Text := full "obligation"

/-- The key of the party a policy is given to. -/
def assignee : Text := full "assignee"

/-- The key of the party that gives a policy. -/
def assigner : Text := full "assigner"

/-- The key of the asset a policy is about. -/
def target : Text := full "target"

/-- The key of a rule's action. -/
def action : Text := full "action"

/-- The key of a rule's constraints. -/
def constraint : Text := full "constraint"

/-- The key of a permission's duties. -/
def duty : Text := full "duty"

/-- The key of the duty that follows when a duty is not fulfilled. -/
def consequence : Text := full "consequence"

/-- The key of an action's name. -/
def actionType : Text := full "type"

/-- The key of the action that includes an action. -/
def includedIn : Text := full "includedIn"

/-- The key of the constraint on an action. -/
def refinement : Text := full "refinement"

/-- The key of the left side of a comparison. -/
def leftOperand : Text := full "leftOperand"

/-- The key of the operator of a comparison. -/
def operator : Text := full "operator"

/-- The key of the right side of a comparison. -/
def rightOperand : Text := full "rightOperand"

/-- The key of the members of a multiplicity constraint. -/
def combinator (k : MultiplicityKind) : Text := full k.term

end Term

/-- The identifier of an operator. -/
def Operator.iri (o : Operator) : Text := Term.full o.term

end UsagePolicy
