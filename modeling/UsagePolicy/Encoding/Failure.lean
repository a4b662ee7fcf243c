import UsagePolicy.Encoding.Path
import UsagePolicy.Graph.OfJson
import UsagePolicy.Graph.Printer
import UsagePolicy.Participant

/-!
# Failures of an encoding

An encoding error says which value at which path cannot be encoded. Errors are of four classes, two
of which are refined by others. A value that is not even of the shape the encoder looks into fails
in other ways; `Failure` holds both kinds.
-/

namespace UsagePolicy

/-- The classes of encoding errors. -/
inductive ErrorClass
  | encoding
  | unsupportedVariant
  | depthExceeded
  | participantResolution
deriving DecidableEq, Repr

namespace ErrorClass

/-- All classes. -/
def all : List ErrorClass :=
  [.encoding, .unsupportedVariant, .depthExceeded, .participantResolution]

/-- An error of the first class is also one of the second. -/
def isA : ErrorClass → ErrorClass → Bool
  | _, .encoding => true
  | .depthExceeded, .unsupportedVariant => true
  | c, d => c == d

end ErrorClass

/-- The two participants of a policy. -/
inductive Role
  | assignee
  | assigner
deriving DecidableEq, Repr

namespace Role

/-- The name of a role. -/
def name : Role → Text
  | .assignee => "assignee"
  | .assigner => "assigner"

/-- The field that holds the participant. -/
def field : Role → Field
  | .assignee => .assignee
  | .assigner => .assigner

/-- The step to the participant. -/
def step : Role → PathStep
  | .assignee => .assignee
  | .assigner => .assigner

end Role

/-- Why a value cannot be encoded. Types are given by their names, values as they are printed. -/
inductive EncodingError
  | notAPolicy (typeName : Text)
  | unsupported (path : Path) (typeName shown : Text)
  | unsupportedOperator (path : Path) (shown : Text)
  | cyclic (path : Path) (typeName : Text)
  | tooDeep (path : Path) (limit : Int)
  | unresolved (role : Role) (participant : Value) (printed : Text) (cause : Complaint)

/-- Why an encoding fails. -/
inductive Failure
  | encoding (e : EncodingError)
  | noAttribute (typeName name : Text)
  | notIterable (typeName : Text)
  | unprintable (flaw : PrintFlaw) (how : Printing)

namespace EncodingError

/-- The class of an error. -/
def errorClass : EncodingError → ErrorClass
  | .notAPolicy _ | .unsupported _ _ _ | .unsupportedOperator _ _ => .unsupportedVariant
  | .cyclic _ _ | .tooDeep _ _ => .depthExceeded
  | .unresolved _ _ _ _ => .participantResolution

/-- The message of an error. -/
def message : EncodingError → Text
  | .notAPolicy t => ("Cannot encode " : Text) ++ t ++ (" as a policy" : Text)
  | .unsupported p t _ => ("Unsupported " : Text) ++ t ++ (" at " : Text) ++ p.text
  | .unsupportedOperator p s =>
    ("Unsupported operator " : Text) ++ s ++ (" at " : Text) ++ p.text
  | .cyclic p _ => ("Cyclic policy structure at " : Text) ++ p.text
  | .tooDeep p d => ("Policy nesting exceeds maximum depth of " : Text) ++ Text.decimalInt d
      ++ (" at " : Text) ++ p.text
  | .unresolved r _ printed _ => ("Failed to resolve " : Text) ++ r.name ++ (" '" : Text)
      ++ printed ++ ("' to an IRI" : Text)

/-- A participant in the details of an error; one that has no JSON form is printed. -/
def participantJson (v : Value) (printed : Text) : Json :=
  match v.toJson with
  | .ok j => j
  | .error _ => .text printed

/-- The details of an error, in order. -/
def details : EncodingError → Json.Members
  | .notAPolicy t => [("path", .text Path.policy.text), ("type", .text t)]
  | .unsupported p t s => [("path", .text p.text), ("type", .text t), ("value", .text s)]
  | .unsupportedOperator p s => [("path", .text p.text), ("operator", .text s)]
  | .cyclic p t => [("path", .text p.text), ("type", .text t)]
  | .tooDeep p d => [("path", .text p.text), ("max_depth", .int d)]
  | .unresolved r v printed c => [("path", .text (Path.policy.snoc r.step).text),
      ("participant_id", participantJson v printed), ("error", .text c.text)]

/-- The complaint that an error goes back to. -/
def cause? : EncodingError → Option Complaint
  | .unresolved _ _ _ c => some c
  | _ => none

end EncodingError

namespace Failure

/-- The message of a failure. -/
def message : Failure → Text
  | .encoding e => e.message
  | .noAttribute t a =>
    0x27 :: t ++ ("' object has no attribute '" : Text) ++ a ++ [0x27]
  | .notIterable t => 0x27 :: t ++ ("' object is not iterable" : Text)
  | .unprintable flaw how => flaw.message how

end Failure

end UsagePolicy
