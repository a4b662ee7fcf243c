import UsagePolicy.Policy.Vocabulary

/-!
# Paths

A path leads from where an encoding starts to a value in it, step by step through the terms of the
document. It is written as the text of its root followed by its steps.
-/

namespace UsagePolicy

/-- One step of a path. -/
inductive PathStep
  | type
  | assignee
  | assigner
  | permission (i : Nat)
  | prohibition (i : Nat)
  | obligation (i : Nat)
  | action
  | refinement
  | constraint (i : Nat)
  | duty (i : Nat)
  | consequence
  | member (k : MultiplicityKind) (i : Nat)
  | leftOperand
  | operator
  | rightOperand
deriving DecidableEq, Repr

/-- A root and the steps from it. -/
structure Path where
  root : Text
  steps : List PathStep
deriving DecidableEq, Repr

namespace PathStep

/-- A name with an index. -/
def indexed (name : Text) (i : Nat) : Text := 0x2E :: name ++ 0x5B :: Text.decimal i ++ [0x5D]

/-- A step as it is written. -/
def text : PathStep → Text
  | .type => ".type"
  | .assignee => ".assignee"
  | .assigner => ".assigner"
  | .permission i => indexed "permission" i
  | .prohibition i => indexed "prohibition" i
  | .obligation i => indexed "obligation" i
  | .action => ".action"
  | .refinement => ".refinement"
  | .constraint i => indexed "constraint" i
  | .duty i => indexed "duty" i
  | .consequence => ".consequence"
  | .member k i => indexed k.term i
  | .leftOperand => ".leftOperand"
  | .operator => ".operator"
  | .rightOperand => ".rightOperand"

end PathStep

namespace Path

/-- The path of a policy itself. -/
def policy : Path := ⟨"$", []⟩

/-- The path one step further. -/
def snoc (p : Path) (s : PathStep) : Path := ⟨p.root, p.steps ++ [s]⟩

/-- A path as it is written. -/
def text (p : Path) : Text := p.root ++ p.steps.flatMap PathStep.text

end Path

end UsagePolicy
