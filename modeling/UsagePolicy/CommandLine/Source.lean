import UsagePolicy.Text.Printable
import UsagePolicy.Text.Utf8

/-!
# Sources of text

A text is read from a file, whose name is brought to a plain form first, and must be UTF-8. A
`FileTree` says which files and directories there are below the present directory.
-/

namespace UsagePolicy

/-- Why a file cannot be read. Files are named as they are looked for. -/
inductive ReadFlaw
  | missing (name : Text)
  | directory (name : Text)
  | notADirectory (name : Text)
  | denied (name : Text)
  | nameTooLong (name : Text)
  | nullByte
  | undecodable (u : Text.UndecodableBytes)

namespace ReadFlaw

/-- A complaint of the system with its number, about a file. -/
def numbered (n : Nat) (reason name : Text) : Text :=
  ("[Errno " : Text) ++ Text.decimal n ++ ("] " : Text) ++ reason ++ (": " : Text) ++ name.quoted

/-- The message of a flaw. -/
def message : ReadFlaw → Text
  | .missing n => numbered 2 "No such file or directory" n
  | .denied n => numbered 13 "Permission denied" n
  | .notADirectory n => numbered 20 "Not a directory" n
  | .directory n => numbered 21 "Is a directory" n
  | .nameTooLong n => numbered 36 "File name too long" n
  | .nullByte => "embedded null byte"
  | .undecodable u => u.message

end ReadFlaw

/-- A file name taken apart: whether it begins at the root, and the names on the way. -/
structure FileName where
  root : Text
  names : List Text
deriving DecidableEq

namespace FileName

/-- The slashes at the beginning: two are a root of their own, any other number is one. -/
def rootOf (t : Text) : Text :=
  match (t.takeWhile (· = 0x2F)).length with
  | 0 => []
  | 2 => [0x2F, 0x2F]
  | _ => [0x2F]

/-- The parts of a file name, without empty ones and single dots. -/
def ofText (t : Text) : FileName :=
  ⟨rootOf t, (Text.splitOn 0x2F t).filter fun n => !n.isEmpty && n != [0x2E]⟩

/-- A file name as it is looked for. -/
def text (n : FileName) : Text :=
  if n.root.isEmpty && n.names.isEmpty then [0x2E] else n.root ++ Text.join [0x2F] n.names

end FileName

/-- The files and directories below the present directory, by the names on the way to them. -/
structure FileTree where
  files : List (List Text × List UInt8)
  directories : List (List Text)

namespace FileTree

/-- There is a directory. -/
def hasDirectory (t : FileTree) (names : List Text) : Bool :=
  names.isEmpty || t.directories.any (fun d => names.isPrefixOf d)
    || t.files.any fun f => names.isPrefixOf f.1 && names != f.1

/-- The longest name that a file may have, in bytes. -/
def nameLimit : Nat := 255

/-- Follows names from a directory, which is given by the names on the way to it. -/
def follow (t : FileTree) (whole : Text) (here : List Text) :
    List Text → Except ReadFlaw (List UInt8)
  | [] => .error (.directory whole)
  | n :: ns =>
    if n = [0x2E, 0x2E] then follow t whole here.dropLast ns
    else if nameLimit < n.utf8.length then .error (.nameTooLong whole)
    else match t.files.lookup (here ++ [n]) with
      | some bytes => if ns.isEmpty then .ok bytes else .error (.notADirectory whole)
      | none =>
        if t.hasDirectory (here ++ [n]) then follow t whole (here ++ [n]) ns
        else .error (.missing whole)

/-- The bytes of a file. Nothing lies outside the present directory but the root. -/
def read (t : FileTree) (n : FileName) : Except ReadFlaw (List UInt8) :=
  if n.text.contains 0 then .error .nullByte
  else if n.root.isEmpty then t.follow n.text [] n.names
  else if n.names.isEmpty then .error (.directory n.text)
  else .error (.missing n.text)

end FileTree

/-- The text of UTF-8 bytes. -/
def decodeFile (bytes : List UInt8) : Except ReadFlaw Text :=
  (Text.ofUtf8 bytes).mapError .undecodable

end UsagePolicy
