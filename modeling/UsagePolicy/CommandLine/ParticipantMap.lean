import UsagePolicy.Payload.Check

/-!
# Files with a participant map

A participant map is a JSON object whose values are texts. Every other value is reported.
-/

namespace UsagePolicy

namespace ParticipantMap

/-- The texts of members. -/
def texts : Json.Members → Checked (List (Text × Text))
  | [] => .ok []
  | (k, v) :: ms =>
    let entry : Checked Text := (match v with
      | .text t => .ok t
      | _ => .fail .notAString : Checked Text)
    (Checked.both (entry.under (.key k)) (texts ms)).map fun x => (k, x.1) :: x.2

/-- The map of a JSON value. -/
def ofJson : Json → Checked (List (Text × Text))
  | .object ms => texts ms
  | _ => .fail (.notADictionary .payload)

/-- The map that the text of a file denotes. -/
def ofText (t : Text) : Checked (List (Text × Text)) := do
  ofJson (← Payload.parse t)

end ParticipantMap

end UsagePolicy
