import UsagePolicy.Encoding.Encode

/-!
# Visitors

A visitor is called for one value after the other: rules, constraints, operands and whole policies.
What a call leaves on the active path, and how deep the walks have gone so far, is what the next
call starts from.
-/

namespace UsagePolicy

/-- What a visitor is called for. A rule must be of a kind, and a path says where a value stands.
The document of a policy has the given identifier. -/
inductive Call
  | rule (kind : NodeClass) (v : Value) (p : Path)
  | constraint (v : Value) (p : Path)
  | expression (v : Value) (p : Path)
  | policy (id : Text) (v : Value)

/-- A visitor: the limit and the resolver it was made with, and where its walk stands. -/
structure Visitor where
  limit : Int
  resolver : Resolver
  trail : Trail

namespace Visitor

/-- A visitor that has not been called. -/
def fresh (limit : Int) (r : Resolver) : Visitor := ⟨limit, r, .start⟩

/-- The walk of a call. -/
def walk (g : Graph) (x : Visitor) : Call → Walk Value
  | .rule kind v p, t => visitFrom g x.limit (.rule kind) v p t
  | .constraint v p, t => visitFrom g x.limit .constraint v p t
  | .expression v p, t => (Outline.expression g v p).fill (visitFrom g x.limit) t
  | .policy id v, t =>
    let run := Encoding.policyFrom g x.limit x.resolver id v t
    (run.outcome.map Encoded.document, run.trail)

/-- The answer to a call, and the visitor after it. -/
def call (g : Graph) (x : Visitor) (c : Call) : Except Failure Value × Visitor :=
  let (answer, t) := x.walk g c x.trail
  (answer, { x with trail := t })

/-- The visitor after calls, each of them for the values of a graph. -/
def after (x : Visitor) (calls : List (Graph × Call)) : Visitor :=
  calls.foldl (fun x c => (x.call c.1 c.2).2) x

end Visitor

end UsagePolicy
