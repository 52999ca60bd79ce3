import HttpReply.Message.Field
import HttpReply.Response.Basic

/-!
Handing a response off as a finished message. The message has stricter rules than the response
under construction, so the hand-off can fail.
-/

namespace HttpReply

/-- A finished message. -/
structure Message where
  status : UInt16
  fields : Fields
  body : String
  deriving DecidableEq, Repr

/-- The size of the body in bytes. -/
def Message.size (m : Message) : Nat :=
  m.body.utf8ByteSize

/-- The cause of a failed hand-off. -/
inductive HandoffError where
  | invalidStatus
  | invalidName
  | invalidValue
  /-- As many names are listed as there is room for. -/
  | tooManyNames
  deriving DecidableEq, Repr

def HandoffError.message : HandoffError → String
  | invalidStatus => "invalid status code"
  | invalidName => "invalid HTTP header name"
  | invalidValue => "failed to parse header value"
  | tooManyNames => "max size reached"

/-- The number of names for which the table of a message has room: three quarters of its 32768
places. A table in which many names collide may give up earlier. -/
def Fields.maxNames : Nat := 24576

/-- Add one header of a response to the fields of a message. The key is judged before the value.
Once `limit` names are listed nothing is added any more, not even under a name that is among them.
-/
def Fields.addEntry (limit : Nat) (fields : Fields) (entry : String × String) :
    Except HandoffError Fields :=
  if !Field.isName entry.1 then .error .invalidName
  else if !Field.isValue entry.2 then .error .invalidValue
  else if limit ≤ fields.length then .error .tooManyNames
  else .ok (Fields.add (Field.canonicalName entry.1) entry.2 fields)

/-- The fields of a message from headers in their order, or the cause for which the first header is
refused that is. -/
def Fields.ofEntries (limit : Nat) (entries : List (String × String)) :
    Except HandoffError Fields :=
  entries.foldlM (addEntry limit) []

/-- The status of a message has three digits. -/
def isMessageStatus (status : UInt16) : Bool :=
  100 ≤ status && status ≤ 999

/-- Hand a response off, to a message that has room for `limit` names. The status is judged first,
and then the headers. A source that is still held is let go of without being closed. -/
def Response.handOff (r : Response) (limit : Nat := Fields.maxNames) :
    Except HandoffError Message :=
  if isMessageStatus r.status then do
    let fields ← Fields.ofEntries limit r.headers.entries
    pure { status := r.status, fields, body := String.join r.body }
  else .error .invalidStatus

end HttpReply
