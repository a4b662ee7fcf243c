import UsagePolicy.Digest.Sha256
import UsagePolicy.Json.Canonical
import UsagePolicy.Json.Printer
import UsagePolicy.Text.Utf8

/-!
# Structural fingerprint

The fingerprint of a document is the SHA-256 digest of the compact text of its canonical form,
without the member `@id` of the document itself. Documents that differ in the order of keys or in
that identifier only have one fingerprint.
-/

namespace UsagePolicy

namespace Json

/-- The key of an identifier. -/
def idKey : Text := "@id"

/-- Why a value has no fingerprint. -/
inductive FingerprintError
  | notAnObject (v : Json)
  | unencodable (run : Text.UnencodableRun)

/-- The members of a document that its fingerprint covers. -/
def fingerprinted (members : Members) : Members := members.filter fun m => m.1 != idKey

/-- The text whose bytes are digested. -/
def fingerprintText (members : Members) : Text :=
  compact (canonical (.object (fingerprinted members)))

/-- The fingerprint of a document. -/
def fingerprint : Json → Except FingerprintError Text
  | .object members =>
    match (fingerprintText members).utf8? with
    | .ok bytes => .ok (Sha256.hexDigest bytes)
    | .error run => .error (.unencodable run)
  | v => .error (.notAnObject v)

end Json

end UsagePolicy
