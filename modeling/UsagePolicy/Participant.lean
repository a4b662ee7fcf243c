import UsagePolicy.Graph.Keys

/-!
# Participants

A resolver answers an identifier of a participant with an identifier that is valid everywhere, with
nothing, or with a complaint. Besides the identity and tables there are plain functions, which are
adapted to resolvers.
-/

namespace UsagePolicy

/-- What a resolver says when it fails: the name of the failure and its text. -/
structure Complaint where
  name : Text
  text : Text
deriving DecidableEq

/-- A function from participants to identifiers; an absent value means that there is none. -/
abbrev ParticipantFunction := Value → Except Complaint Value

/-- Maps participants to identifiers. -/
inductive Resolver
  /-- Every participant's identifier is valid as it is. -/
  | identity
  /-- The entries of a table, fixed when the resolver is made. -/
  | table (entries : List (Text × Value))
  /-- A plain function. -/
  | adapted (f : ParticipantFunction)

/-- What is said of a value that cannot be looked up. -/
def KeyFlaw.complaint : KeyFlaw → Complaint
  | .unhashable t => ⟨"TypeError", ("unhashable type: '" : Text) ++ t ++ [0x27]⟩
  | .endless => ⟨"RecursionError", "maximum recursion depth exceeded while calling a Python object"⟩

/-- The entry of a table, absent if there is none. -/
def lookUp (g : Graph) (entries : List (Text × Value)) : ParticipantFunction := fun v =>
  match g.keyFlaw? v with
  | some flaw => .error flaw.complaint
  | none => .ok (match v.text? with
    | some k => (entries.lookup k).getD .absent
    | none => .absent)

namespace Resolver

/-- The answer of a resolver about a value of a graph. -/
def resolve (r : Resolver) (g : Graph) : ParticipantFunction :=
  match r with
  | .identity => .ok
  | .table entries => lookUp g entries
  | .adapted f => f

end Resolver

/-- What may be given as a resolver. -/
inductive ResolverArgument
  | resolver (r : Resolver)
  | function (f : ParticipantFunction)
  | other (typeName : Text)

namespace ResolverArgument

/-- The resolver that an argument stands for, or the name of its type if it stands for none. -/
def normalize : ResolverArgument → Except Text Resolver
  | .resolver r => .ok r
  | .function f => .ok (.adapted f)
  | .other t => .error t

end ResolverArgument

end UsagePolicy
