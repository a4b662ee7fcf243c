import UsagePolicy.Encoding.Outline

/-!
# Resolving the participants of a policy

The assignee is asked for before the assigner, each of them only if it is given. A participant
without an identifier is left out of the document; a complaint of the resolver is a failure, after
which nobody else is asked for.
-/

namespace UsagePolicy

/-- What came of asking a resolver. -/
structure Resolution (α : Type) where
  /-- The participants asked for, in order. -/
  asked : List Value
  /-- The participants that have no identifier, in order. -/
  omitted : List (Role × Value)
  outcome : Except Failure α

namespace Resolution

variable {α β : Type}

/-- A resolution that asks for nobody. -/
def silent (outcome : Except Failure α) : Resolution α := ⟨[], [], outcome⟩

/-- Two resolutions after each other. -/
def bind (x : Resolution α) (k : α → Resolution β) : Resolution β :=
  match x.outcome with
  | .ok a =>
    let y := k a
    ⟨x.asked ++ y.asked, x.omitted ++ y.omitted, y.outcome⟩
  | .error e => ⟨x.asked, x.omitted, .error e⟩

/-- The identifier of a participant in a field, absent if there is none. -/
def participant (g : Graph) (r : Resolver) (opened : List Slot) (role : Role) :
    Value → Resolution Value
  | .absent => silent (.ok .absent)
  | v => match r.resolve g v with
    | .ok .absent => ⟨[v], [(role, v)], .ok .absent⟩
    | .ok identifier => ⟨[v], [], .ok identifier⟩
    | .error c => ⟨[v], [], .error (match g.plainWithin opened v with
      | .ok printed => .encoding (.unresolved role v printed c)
      | .error flaw => .unprintable flaw .plain)⟩

/-- The identifier of the participant of a policy in a role. -/
def role (g : Graph) (r : Resolver) (policy : Value) (role : Role) : Resolution Value :=
  (silent (g.fieldOf policy role.field)).bind (participant g r (policy.slot role.field) role)

/-- The identifiers of the assignee and the assigner of a policy. -/
def both (g : Graph) (r : Resolver) (policy : Value) : Resolution (Value × Value) :=
  (role g r policy .assignee).bind fun assignee =>
    (role g r policy .assigner).bind fun assigner => silent (.ok (assignee, assigner))

end Resolution

end UsagePolicy
