import UsagePolicy.Json.Basic
import UsagePolicy.Policy.Schema
import UsagePolicy.Number.Shortest

/-!
# Issues of payloads and settings

An issue says what is wrong with an input and where. Checks that do not depend on one another all
report, in the order of the fields they look at.
-/

namespace UsagePolicy

/-- Where the input of a check comes from. -/
inductive Source
  /-- The text of a payload, read as JSON. -/
  | payload
  /-- Values that are read already. -/
  | objects
deriving DecidableEq

/-- One step to the place of an issue. -/
inductive PlaceStep
  | key (k : Text)
  | index (i : Nat)
deriving DecidableEq

/-- What is wrong with an input. -/
inductive IssueKind
  | notJson
  | notUnicode
  | extra
  | missing
  | notANode (source : Source) (c : NodeClass)
  | notAString
  | notAnInteger
  | notANumber
  | notABoolean
  | notASequence (source : Source)
  | notADictionary (source : Source)
  | noTagged
  | notAMember (names : List Text)
  | notTheLiteral (t : Text)
  | noTag
  | unknownTag (tag : Text)
  | tooDeep
  | frozen
  | fraction
  | unreadableInteger
  | oversizedInteger
  | notFinite
  | unreadableBoolean
  | below (least : Int)
  | rejected (reason : Text)
deriving DecidableEq

/-- Something wrong and its place. -/
structure Issue where
  kind : IssueKind
  place : List PlaceStep
deriving DecidableEq

namespace IssueKind

/-- Names between quotes, the last one after `or`. -/
def alternatives : List Text → Text
  | [] => []
  | [t] => 0x27 :: t ++ [0x27]
  | [t, u] => 0x27 :: t ++ ("' or '" : Text) ++ u ++ [0x27]
  | t :: ts => 0x27 :: t ++ ("', " : Text) ++ alternatives ts

/-- The code of a kind of issue. -/
def code : IssueKind → Text
  | .notJson => "json_invalid"
  | .notUnicode => "string_unicode"
  | .extra => "extra_forbidden"
  | .missing => "missing"
  | .notANode _ _ => "model_type"
  | .notAString => "string_type"
  | .notAnInteger => "int_type"
  | .notANumber => "float_type"
  | .notABoolean => "bool_type"
  | .notASequence _ => "tuple_type"
  | .notADictionary _ => "dict_type"
  | .noTagged => "model_attributes_type"
  | .notAMember _ => "enum"
  | .notTheLiteral _ => "literal_error"
  | .noTag => "union_tag_not_found"
  | .unknownTag _ => "union_tag_invalid"
  | .tooDeep => "recursion_depth_exceeded"
  | .frozen => "frozen_instance"
  | .fraction => "int_from_float"
  | .unreadableInteger => "int_parsing"
  | .oversizedInteger => "int_parsing_size"
  | .notFinite => "finite_number"
  | .unreadableBoolean => "bool_parsing"
  | .below _ => "greater_than_equal"
  | .rejected _ => "value_error"

/-- The message of a kind of issue. A tag appears in it without surrogates; a reason that holds some
is no issue. -/
def message : IssueKind → Text
  | .notJson => "Invalid JSON"
  | .notUnicode =>
    "Input should be a valid string, unable to parse raw data as a unicode string"
  | .extra => "Extra inputs are not permitted"
  | .missing => "Field required"
  | .notANode .payload _ => "Input should be an object"
  | .notANode .objects c =>
    ("Input should be a valid dictionary or instance of " : Text) ++ c.name
  | .notAString => "Input should be a valid string"
  | .notAnInteger => "Input should be a valid integer"
  | .notANumber => "Input should be a valid number"
  | .notABoolean => "Input should be a valid boolean"
  | .notASequence .payload => "Input should be a valid array"
  | .notASequence .objects => "Input should be a valid tuple"
  | .notADictionary .payload => "Input should be an object"
  | .notADictionary .objects => "Input should be a valid dictionary"
  | .noTagged => "Input should be a valid dictionary or object to extract fields from"
  | .notAMember names => ("Input should be " : Text) ++ alternatives names
  | .notTheLiteral t => ("Input should be " : Text) ++ alternatives [t]
  | .noTag => "Unable to extract tag using discriminator 'constraint_type' | 'constraintType'"
  | .unknownTag tag => ("Input tag '" : Text) ++ tag.withoutSurrogates
      ++ ("' found using 'constraint_type' | 'constraintType' does not match any of the" : Text)
      ++ (" expected tags: 'atomic', 'multiplicity'" : Text)
  | .tooDeep => "Recursion error - maximum validation depth exceeded"
  | .frozen => "Instance is frozen"
  | .fraction => "Input should be a valid integer, got a number with a fractional part"
  | .unreadableInteger =>
    "Input should be a valid integer, unable to parse string as an integer"
  | .oversizedInteger =>
    "Unable to parse input string as an integer, exceeded maximum size"
  | .notFinite => "Input should be a finite number"
  | .unreadableBoolean => "Input should be a valid boolean, unable to interpret input"
  | .below least =>
    ("Input should be greater than or equal to " : Text) ++ Text.decimalInt least
  | .rejected reason => ("Value error, " : Text) ++ reason

end IssueKind

/-- A result, or all the issues that stand in its way. -/
abbrev Checked (α : Type) := Except (List Issue) α

namespace Checked

variable {α β : Type}

/-- A failure with one issue, at the place of the check itself. -/
def fail (k : IssueKind) : Checked α := .error [⟨k, []⟩]

/-- The issues of a check, seen from one step above. -/
def under (s : PlaceStep) : Checked α → Checked α
  | .ok a => .ok a
  | .error es => .error (es.map fun e => ⟨e.kind, s :: e.place⟩)

/-- Two checks after each other; both report. -/
def both (x : Checked α) (y : Checked β) : Checked (α × β) :=
  match x, y with
  | .ok a, .ok b => .ok (a, b)
  | .error e, .ok _ => .error e
  | .ok _, .error e => .error e
  | .error e, .error e' => .error (e ++ e')

/-- The record of the fields of an input, if there are no further issues of the same input. -/
def build (es : List Issue) (mk : α → β) (x : Checked α) : Checked β :=
  match x, es with
  | .ok a, [] => .ok (mk a)
  | .ok _, e :: es => .error (e :: es)
  | .error e, es => .error (e ++ es)

end Checked

end UsagePolicy
