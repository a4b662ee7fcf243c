import UsagePolicy.Graph.OfJson
import UsagePolicy.Graph.Printer
import UsagePolicy.Json.Reader
import UsagePolicy.Payload.Issue
import UsagePolicy.Policy.Equality

/-!
# Checking payloads

A payload is checked field by field into the policy model. A field is found under its wire name, or
else under its name; keys that no field takes are issues, after those of the fields. Nothing is
converted: a text is no number and a number no text. A constraint says which of the two kinds it is
by a tag, and its issues lie below that tag.

Operands, multiplicity constraints and duties are checked by reference. For values that are read
already, at most `referenceLimit` references may be open. A class that may hold itself is entered
from itself by one reference, and from another class by one more.
-/

namespace UsagePolicy

namespace Payload

open Json (Members)

/-- How many references may be open at once. -/
def referenceLimit : Nat := 255

/-- The room for further references after opening `count`. A payload's text is limited by its
reader. -/
def openReferences? : Source → (count room : Nat) → Option Nat
  | .payload, _, room => some room
  | .objects, count, room => if count ≤ room then some (room - count) else none

/-- The key and the value of a field. -/
def find? (ms : Members) (f : Field) : Option (Text × Json) :=
  match Json.get? ms f.wireName with
  | some v => some (f.wireName, v)
  | none => (Json.get? ms f.name).map fun v => (f.name, v)

theorem sizeOf_find?_lt {ms : Members} {f : Field} {k : Text} {v : Json}
    (h : find? ms f = some (k, v)) : sizeOf v < sizeOf ms := by
  unfold find? at h
  split at h
  · next w hw =>
    injection h with h
    injection h with _ h
    exact h ▸ Json.sizeOf_get?_lt hw
  · obtain ⟨w, hw, h⟩ := Option.map_eq_some_iff.1 h
    injection h with _ h
    exact h ▸ Json.sizeOf_get?_lt hw

/-- Some field of the class is found under the key. -/
def takes (c : NodeClass) (ms : Members) (k : Text) : Bool :=
  c.fields.any fun f => (find? ms f).any fun e => e.1 == k

/-- The issues of the keys that no field takes. -/
def extras (c : NodeClass) (ms : Members) : List Issue :=
  ms.filterMap fun m => if takes c ms m.1 then none else some ⟨.extra, [.key m.1]⟩

variable {α β : Type}

/-- The record of the fields of a class, if its members hold nothing else. A key with a surrogate
hides all other issues. -/
def record (c : NodeClass) (ms : Members) (mk : α → β) (x : Checked α) : Checked β :=
  if ms.all fun m => m.1.isScalar then .build (extras c ms) mk x else .fail .notUnicode

/-- A field that must be given. -/
def required (ms : Members) (f : Field) (check : Json → Checked α) : Checked α :=
  match find? ms f with
  | some (k, v) => (check v).under (.key k)
  | none => .error [⟨.missing, [.key f.wireName]⟩]

/-- A field that has a default. -/
def optional (ms : Members) (f : Field) (default : α) (check : Json → Checked α) : Checked α :=
  match find? ms f with
  | some (k, v) => (check v).under (.key k)
  | none => .ok default

/-- A check of a value that may be null. -/
def nullable (check : Json → Checked α) : Json → Checked (Option α)
  | .null => .ok none
  | v => (check v).map some

/-- Checks of items, the first of which has index `i`. -/
def items (check : Json → Checked α) (i : Nat) : List Json → Checked (List α)
  | [] => .ok []
  | v :: vs => (((check v).under (.index i)).both (items check (i + 1) vs)).map fun p => p.1 :: p.2

/-- A check of an array. -/
def sequence (s : Source) (check : Json → Checked α) : Json → Checked (List α)
  | .array vs => items check 0 vs
  | _ => .fail (.notASequence s)

/-- A string. -/
def text : Json → Checked Text
  | .text t => .ok t
  | _ => .fail .notAString

/-- A given string and nothing else. -/
def constant (t : Text) : Json → Checked Unit
  | .text u =>
    if u = t then .ok () else .fail (if u.isScalar then .notTheLiteral t else .notUnicode)
  | _ => .fail (.notTheLiteral t)

/-- The name of a member of a set. -/
def member (names : List Text) (ofName? : Text → Option α) : Json → Checked α
  | .text t => match ofName? t with
    | some a => .ok a
    | none => .fail (if t.isScalar then .notAMember names else .notUnicode)
  | _ => .fail (.notAMember names)

/-- A policy type. -/
def policyType : Json → Checked PolicyType :=
  member (PolicyType.all.map PolicyType.name) PolicyType.ofName?

/-- A combinator. -/
def multiplicityKind : Json → Checked MultiplicityKind :=
  member (MultiplicityKind.all.map MultiplicityKind.name) MultiplicityKind.ofName?

/-- An operator. -/
def operator : Json → Checked Operator :=
  member (Operator.all.map Operator.name) Operator.ofName?

/-- A literal keeps its type; what is no literal fails as each of the four types. -/
def literal : Json → Checked Literal
  | .text t => .ok (.text t)
  | .int i => .ok (.int i)
  | .float d => .ok (.float d)
  | .bool b => .ok (.bool b)
  | _ => .error [⟨.notAString, [.key "str"]⟩, ⟨.notAnInteger, [.key "int"]⟩,
      ⟨.notANumber, [.key "float"]⟩, ⟨.notABoolean, [.key "bool"]⟩]

/-- The members of a literal expression. -/
def expressionFields (ms : Members) : Checked Expression :=
  record .literalExpression ms (fun p => ⟨p.2⟩)
    ((optional ms .expressionType () (constant "literal")).both (required ms .value literal))

/-- An operand. -/
def expression (s : Source) (room : Nat) (v : Json) : Checked Expression :=
  match openReferences? s 1 room with
  | none => .fail .tooDeep
  | some _ =>
    match v with
    | .object ms => expressionFields ms
    | _ => .fail (.notANode s .literalExpression)

/-- The members of a comparison. -/
def atomicFields (s : Source) (room : Nat) (ms : Members) : Checked AtomicConstraint :=
  record .atomicConstraint ms (fun p => ⟨p.2.1, p.2.2.1, p.2.2.2⟩)
    ((optional ms .constraintType () (constant "atomic")).both
      ((required ms .leftExpression (expression s room)).both
        ((required ms .operator operator).both
          (required ms .rightExpression (expression s room)))))

/-- The tag of a constraint. -/
def tag? (ms : Members) : Option Json :=
  match Json.get? ms Field.constraintType.name with
  | some v => some v
  | none => Json.get? ms Field.constraintType.wireName

/-- A tag as it is reported. -/
def tagText (v : Json) : Text := (Graph.empty.plain (.ofJson v)).toOption.getD []

mutual

/-- A constraint of the kind that its tag names; `count` references lead to a combination. -/
def constraint (s : Source) (count room : Nat) : Json → Checked Constraint
  | .object ms =>
    match tag? ms with
    | none => .fail .noTag
    | some (.text t) =>
      if t = "atomic" then
        Checked.under (.key "atomic") ((atomicFields s room ms).map Constraint.atomic)
      else if t = "multiplicity" then
        Checked.under (.key "multiplicity")
          (match openReferences? s count room with
          | none => Checked.fail .tooDeep
          | some room => multiplicityFields s room ms)
      else .fail (.unknownTag t)
    | some v => .fail (.unknownTag (tagText v))
  | _ => match s with
    | .payload => .fail (.notADictionary .payload)
    | .objects => .fail .noTagged
termination_by v => sizeOf v

/-- The members of a combination. -/
def multiplicityFields (s : Source) (room : Nat) (ms : Members) : Checked Constraint :=
  record .multiplicityConstraint ms (fun p => .multiplicity p.2.1 p.2.2)
    ((optional ms .constraintType () (constant "multiplicity")).both
      ((required ms .kind multiplicityKind).both
        (match _h : find? ms .constraints with
        | none => .ok []
        | some (k, .array vs) => (constraints s room 0 vs).under (.key k)
        | some (k, _) => .error [⟨.notASequence s, [.key k]⟩])))
termination_by sizeOf ms
decreasing_by
  have := sizeOf_find?_lt _h
  simp only [Json.array.sizeOf_spec] at this
  omega

/-- Constraints, the first of which has index `i`. -/
def constraints (s : Source) (room : Nat) (i : Nat) : List Json → Checked (List Constraint)
  | [] => .ok []
  | v :: vs =>
    (((constraint s 1 room v).under (.index i)).both (constraints s room (i + 1) vs)).map
      fun p => p.1 :: p.2
termination_by vs => sizeOf vs

end

/-- An array of constraints. -/
def constraintSequence (s : Source) (room : Nat) : Json → Checked (List Constraint) :=
  sequence s (constraint s 2 room)

/-- An action. -/
def action (s : Source) (room : Nat) : Json → Checked Action
  | .object ms =>
    record .action ms (fun p => ⟨p.1, p.2.1, p.2.2⟩)
      ((required ms .type text).both
        ((optional ms .includedIn none (nullable text)).both
          (optional ms .constraint none (nullable (constraint s 2 room)))))
  | _ => .fail (.notANode s .action)

/-- The members that all rules share. -/
def ruleFields (s : Source) (room : Nat) (ms : Members) : Checked Rule :=
  ((optional ms .action none (nullable (action s room))).both
    (optional ms .constraints [] (constraintSequence s room))).map fun p => ⟨p.1, p.2⟩

/-- A duty that `count` references lead to, and its consequences below it. -/
def duty (s : Source) (count room : Nat) (v : Json) : Checked Duty :=
  match openReferences? s count room with
  | none => .fail .tooDeep
  | some room =>
    match v with
    | .object ms =>
      record .duty ms (fun p => .mk p.1 p.2)
        ((ruleFields s room ms).both
          (match _h : find? ms .consequence with
          | none => .ok none
          | some (_, .null) => .ok none
          | some (k, w) => Checked.under (.key k) ((duty s 1 room w).map some)))
    | _ => .fail (.notANode s .duty)
termination_by sizeOf v
decreasing_by
  have := sizeOf_find?_lt _h
  simp only [Json.object.sizeOf_spec]
  omega

/-- A rule of no particular kind. -/
def rule (s : Source) (room : Nat) : Json → Checked Rule
  | .object ms => record .rule ms id (ruleFields s room ms)
  | _ => .fail (.notANode s .rule)

/-- A permission. -/
def permission (s : Source) (room : Nat) : Json → Checked Permission
  | .object ms =>
    record .permission ms (fun p => ⟨p.1, p.2⟩)
      ((ruleFields s room ms).both (optional ms .duties [] (sequence s (duty s 2 room))))
  | _ => .fail (.notANode s .permission)

/-- A prohibition. -/
def prohibition (s : Source) (room : Nat) : Json → Checked Prohibition
  | .object ms => record .prohibition ms (fun r => ⟨r⟩) (ruleFields s room ms)
  | _ => .fail (.notANode s .prohibition)

/-- A policy. -/
def policy (s : Source) (room : Nat) : Json → Checked Policy
  | .object ms =>
    record .policy ms
      (fun p => ⟨p.1, p.2.1, p.2.2.1, p.2.2.2.1, p.2.2.2.2.1, p.2.2.2.2.2.1, p.2.2.2.2.2.2⟩)
      ((optional ms .type .set policyType).both
        ((optional ms .permissions [] (sequence s (permission s room))).both
          ((optional ms .prohibitions [] (sequence s (prohibition s room))).both
            ((optional ms .obligations [] (sequence s (duty s 2 room))).both
              ((optional ms .assignee none (nullable text)).both
                ((optional ms .assigner none (nullable text)).both
                  (optional ms .target none (nullable text))))))))
  | _ => .fail (.notANode s .policy)

/-- What a payload is to be. -/
inductive Target
  | node (c : NodeClass)
  | constraint

/-- A value checked as what it is to be. -/
def check (s : Source) (t : Target) (v : Json) : Checked Part :=
  let room := referenceLimit
  match t with
  | .node .policy => (policy s room v).map .policy
  | .node .rule => (rule s room v).map .rule
  | .node .permission => (permission s room v).map .permission
  | .node .prohibition => (prohibition s room v).map .prohibition
  | .node .duty => (duty s 1 room v).map .duty
  | .node .action => (action s room v).map .action
  | .node .atomicConstraint =>
    match v with
    | .object ms => (atomicFields s room ms).map fun a => .constraint (.atomic a)
    | _ => .fail (.notANode s .atomicConstraint)
  | .node .multiplicityConstraint =>
    match v with
    | .object ms => (multiplicityFields s (room - 1) ms).map .constraint
    | _ => .fail (.notANode s .multiplicityConstraint)
  | .node .literalExpression => (expression s room v).map .expression
  | .constraint => (constraint s 2 room v).map .constraint

/-- The value that the text of a payload denotes. -/
def parse (t : Text) : Checked Json :=
  if t.isScalar then
    match Json.read Json.strict t with
    | .ok v => .ok v
    | .error _ => .fail .notJson
  else .fail .notUnicode

/-- The text of a payload checked as what it is to be. -/
def checkText (target : Target) (t : Text) : Checked Part := do
  check .payload target (← parse t)

/-- The text of a payload checked as a policy. -/
def policyOfText (t : Text) : Checked Policy := do
  policy .payload referenceLimit (← parse t)

end Payload

end UsagePolicy
