import Hanko.Framework.Json.Number

/-!
# A reader of the audit log

The log is a file with one JSON object a line. A reader splits it at its line breaks
and decodes every line; a file that does not end in a line break, or has a line that
is no record, is not a log.
-/

namespace Hanko

/-- A decision, as the log has it. -/
structure AuditRecord where
  ts : Bytes
  issuer : Bytes
  sub : Bytes
  outcome : Bytes
  grantedScope : Bytes
deriving DecidableEq

namespace AuditRecord

def read (line : Bytes) : Option AuditRecord := do
  let v ← Json.unmarshalAny line
  let ts ← v.getString "ts"
  let issuer ← v.getString "issuer"
  let sub ← v.getString "sub"
  let outcome ← v.getString "outcome"
  let grantedScope ← v.getString "granted_scope"
  return ⟨ts, issuer, sub, outcome, grantedScope⟩

/-- The records of a log. -/
def readLog (file : Bytes) : Option (List AuditRecord) :=
  if (file.splitOn 10).getLast? = some [] then (file.splitOn 10).dropLast.mapM read else none

def granted (r : AuditRecord) : Bool := r.outcome = Bytes.lit "granted"

end AuditRecord

end Hanko
