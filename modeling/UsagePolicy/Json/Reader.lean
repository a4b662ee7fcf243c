import UsagePolicy.Json.Token

/-!
# Reading JSON

The reader is a pushdown automaton over tokens: a stack of containers under way, and what may come
next. One token makes one step, so reading ends with the text. The first token that cannot stand
where it is gives the flaw of the text and its place.
-/

namespace UsagePolicy

namespace Json

/-- A container under way, its parts last first. -/
inductive Frame
  | array (items : List Json)
  | object (members : Members) (key : Text)

/-- What has been read, and what may come next. -/
inductive Progress
  /-- A value must come. -/
  | value (stack : List Frame)
  /-- An array has been opened: a value or its end may come. -/
  | arrayStart (stack : List Frame)
  /-- An object has been opened: a key or its end may come. -/
  | objectStart (stack : List Frame)
  /-- A key must come after a comma. -/
  | key (members : Members) (stack : List Frame)
  /-- A colon must come after a key. -/
  | colon (members : Members) (key : Text) (stack : List Frame)
  /-- A value is complete. -/
  | after (v : Json) (stack : List Frame)

/-- The members of an object that is complete, each key once, from all of them last first. -/
def closeMembers (members : Members) : Members := mergeRepeated members.reverse

/-- One more container that is not empty fits on the stack. -/
def Dialect.admits (d : Dialect) (stack : List Frame) : Bool :=
  match d.nesting with
  | none => true
  | some n => stack.length < n

namespace Progress

/-- A token where a value must come. -/
def startValue (stack : List Frame) (l : Lexeme) : Except FlawAt Progress :=
  match l.token with
  | .openArray => .ok (.arrayStart stack)
  | .openObject => .ok (.objectStart stack)
  | .text t => .ok (.after (.text t) stack)
  | .scalar v => .ok (.after v stack)
  | .broken e => .error e
  | _ => .error ⟨.value, l.place⟩

/-- A token where a key must come. -/
def startKey (members : Members) (stack : List Frame) (l : Lexeme) : Except FlawAt Progress :=
  match l.token with
  | .text t => .ok (.colon members t stack)
  | .broken e => if l.place.head? = some 0x22 then .error e else .error ⟨.key, l.place⟩
  | _ => .error ⟨.key, l.place⟩

/-- The step that a token makes. -/
def step (d : Dialect) (p : Progress) (l : Lexeme) : Except FlawAt Progress :=
  match p with
  | .value stack => startValue stack l
  | .arrayStart stack =>
    match l.token with
    | .closeArray => .ok (.after (.array []) stack)
    | _ =>
      if d.admits stack then startValue (.array [] :: stack) l else .error ⟨.nesting, l.place⟩
  | .objectStart stack =>
    match l.token with
    | .closeObject => .ok (.after (.object []) stack)
    | _ => if d.admits stack then startKey [] stack l else .error ⟨.nesting, l.place⟩
  | .key members stack => startKey members stack l
  | .colon members k stack =>
    match l.token with
    | .colon => .ok (.value (.object members k :: stack))
    | _ => .error ⟨.colon, l.place⟩
  | .after _ [] => .error ⟨.extra, l.place⟩
  | .after v (.array items :: stack) =>
    match l.token with
    | .comma => .ok (.value (.array (v :: items) :: stack))
    | .closeArray => .ok (.after (.array (v :: items).reverse) stack)
    | _ => .error ⟨.comma, l.place⟩
  | .after v (.object members k :: stack) =>
    match l.token with
    | .comma => .ok (.key ((k, v) :: members) stack)
    | .closeObject => .ok (.after (.object (closeMembers ((k, v) :: members))) stack)
    | _ => .error ⟨.comma, l.place⟩

/-- The value that is read when the text ends. -/
def finish : Progress → Except FlawAt Json
  | .value _ | .arrayStart _ => .error ⟨.value, []⟩
  | .objectStart _ | .key _ _ => .error ⟨.key, []⟩
  | .colon _ _ _ => .error ⟨.colon, []⟩
  | .after v [] => .ok v
  | .after _ _ => .error ⟨.comma, []⟩

/-- All the steps that a list of tokens makes, and the value at their end. -/
def run (d : Dialect) (p : Progress) : List Lexeme → Except FlawAt Json
  | [] => p.finish
  | l :: ls =>
    match p.step d l with
    | .ok p' => run d p' ls
    | .error e => .error e

end Progress

/-- The value that a text denotes. -/
def read (d : Dialect) (t : Text) : Except FlawAt Json :=
  if t.head? = some 0xFEFF then .error ⟨.byteOrderMark, t⟩
  else Progress.run d (.value []) (tokens d t)

/-- What the lenient reader calls a flaw. -/
def Flaw.message : Flaw → Text
  | .value => "Expecting value"
  | .key => "Expecting property name enclosed in double quotes"
  | .colon => "Expecting ':' delimiter"
  | .comma => "Expecting ',' delimiter"
  | .unterminated => "Unterminated string starting at"
  | .control => "Invalid control character at"
  | .escape => "Invalid \\escape"
  | .unicodeEscape => "Invalid \\uXXXX escape"
  | .extra => "Extra data"
  | .byteOrderMark => "Unexpected UTF-8 BOM (decode using utf-8-sig)"
  | .digits n => ("Exceeds the limit (" : Text) ++ Text.decimal digitLimit
      ++ (") for integer string conversion: value has " : Text) ++ Text.decimal n
      ++ (" digits; use sys.set_int_max_str_digits() to increase the limit" : Text)
  | .nesting => "Nesting too deep"
  | .surrogate => "Lone surrogate"

/-- A flaw with its line, its column and its distance from the start of the text. -/
def FlawAt.message (whole : Text) (e : FlawAt) : Text :=
  match e.flaw with
  | .digits n => Flaw.message (.digits n)
  | flaw =>
    let position := whole.length - e.rest.length
    let before := whole.take position
    let column := position - (before.length - (before.reverse.takeWhile (· ≠ 0x0A)).length) + 1
    flaw.message ++ (": line " : Text) ++ Text.decimal (before.count 0x0A + 1)
      ++ (" column " : Text) ++ Text.decimal column ++ (" (char " : Text)
      ++ Text.decimal position ++ (")" : Text)

end Json

end UsagePolicy
