import UsagePolicy.Encoding.Resolution
import UsagePolicy.Encoding.Walk

/-!
# Encoding policies

`Encoding.policyFrom` encodes a policy from where a walk stands: first its type is looked at, then
its participants are resolved, and then its rules are walked through. `encode` is the whole: it
refuses a limit below one and a resolver that is none, and starts a walk of its own.
-/

namespace UsagePolicy

/-- A policy encoded. -/
structure Encoded where
  document : Value
  policyType : PolicyType
  /-- The permissions, prohibitions and obligations together. -/
  ruleCount : Nat

/-- What an encoding of a policy did. -/
structure Encoding where
  /-- The participants that the resolver was asked for, in order. -/
  asked : List Value
  /-- The participants that have no identifier, in order. -/
  omitted : List (Role × Value)
  outcome : Except Failure Encoded
  /-- Where the walk stands at the end. -/
  trail : Trail

/-- Why an encoding does not begin. -/
inductive Refusal
  | limit (given : Int)
  | resolver (typeName : Text)

/-- The message of a refusal. -/
def Refusal.message : Refusal → Text
  | .limit n => ("max_depth must be at least 1, got " : Text) ++ Text.decimalInt n
  | .resolver t =>
    ("participant resolver must provide to_iri() or be callable, got " : Text) ++ t

namespace Encoding

/-- The type of a policy, if it has a known one. -/
def policyType (g : Graph) (v : Value) : Except Failure PolicyType :=
  match g.fieldOf v .type with
  | .error e => .error e
  | .ok x => match Outline.policyType? x with
    | some t => .ok t
    | none => .error (g.unsupported x (Path.policy.snoc .type))

/-- How many values the field of a policy holds. -/
def count (g : Graph) (v : Value) (f : Field) : Nat :=
  match g.fieldOf v f with
  | .ok x => ((g.elements? x).getD []).length
  | .error _ => 0

/-- How many rules a policy has. -/
def ruleCount (g : Graph) (v : Value) : Nat :=
  count g v .permissions + count g v .prohibitions + count g v .obligations

/-- An encoding that fails at its beginning. -/
def failed (e : Failure) (t : Trail) : Encoding := ⟨[], [], .error e, t⟩

/-- Encodes a policy whose type is known. -/
def rules (g : Graph) (limit : Int) (r : Resolver) (id : Text) (v : Value) (type : PolicyType)
    (t : Trail) : Encoding :=
  let participants := Resolution.both g r v
  match participants.outcome with
  | .error e => ⟨participants.asked, participants.omitted, .error e, t⟩
  | .ok (assignee, assigner) =>
    let (document, t) := (Outline.policy g v id type assignee assigner).fill (visitFrom g limit) t
    ⟨participants.asked, participants.omitted,
      document.map fun d => ⟨d, type, ruleCount g v⟩, t⟩

/-- Encodes a policy from where a walk stands. -/
def policyFrom (g : Graph) (limit : Int) (r : Resolver) (id : Text) (v : Value) (t : Trail) :
    Encoding :=
  if g.nodeClass? v = some .policy then
    match policyType g v with
    | .ok type => rules g limit r id v type t
    | .error e => failed e t
  else failed (.encoding (.notAPolicy (g.typeName v))) t

end Encoding

/-- Encodes a policy as a document with the given identifier. The limit applies if none is asked
for. -/
def encode (g : Graph) (limit : Int) (asked : Option Int) (resolver : ResolverArgument)
    (id : Text) (policy : Value) : Except Refusal Encoding :=
  match asked.filter (· < 1) with
  | some n => .error (.limit n)
  | none => match resolver.normalize with
    | .error t => .error (.resolver t)
    | .ok r => .ok (Encoding.policyFrom g (asked.getD limit) r id policy .start)

end UsagePolicy
