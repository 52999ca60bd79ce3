/-!
The statuses that have a name. A response carries any sixteen-bit code; a code without a name
has no reason phrase, and is otherwise as good as the others.
-/

namespace HttpReply

/-- A named status of a response. -/
inductive Status where
  | ok
  | created
  | accepted
  | noContent
  | movedPermanently
  | found
  | seeOther
  | notModified
  | temporaryRedirect
  | permanentRedirect
  | badRequest
  | unauthorized
  | forbidden
  | notFound
  | methodNotAllowed
  | unprocessableEntity
  | internalServerError
  | notImplemented
  | badGateway
  | serviceUnavailable
  deriving DecidableEq, Repr

/-- A code that has no name. -/
structure UnknownCode where
  code : UInt16
  deriving DecidableEq, Repr

def UnknownCode.message (e : UnknownCode) : String :=
  "Unknown HTTP status code " ++ e.code.toNat.repr

namespace Status

/-- The named statuses, in the order of their codes. -/
def all : List Status :=
  [.ok, .created, .accepted, .noContent, .movedPermanently, .found, .seeOther, .notModified,
   .temporaryRedirect, .permanentRedirect, .badRequest, .unauthorized, .forbidden, .notFound,
   .methodNotAllowed, .unprocessableEntity, .internalServerError, .notImplemented, .badGateway,
   .serviceUnavailable]

def code : Status → UInt16
  | .ok => 200
  | .created => 201
  | .accepted => 202
  | .noContent => 204
  | .movedPermanently => 301
  | .found => 302
  | .seeOther => 303
  | .notModified => 304
  | .temporaryRedirect => 307
  | .permanentRedirect => 308
  | .badRequest => 400
  | .unauthorized => 401
  | .forbidden => 403
  | .notFound => 404
  | .methodNotAllowed => 405
  | .unprocessableEntity => 422
  | .internalServerError => 500
  | .notImplemented => 501
  | .badGateway => 502
  | .serviceUnavailable => 503

instance : Coe Status UInt16 := ⟨code⟩

/-- The reason phrase. -/
def phrase : Status → String
  | .ok => "OK"
  | .created => "Created"
  | .accepted => "Accepted"
  | .noContent => "No Content"
  | .movedPermanently => "Moved Permanently"
  | .found => "Found"
  | .seeOther => "See Other"
  | .notModified => "Not Modified"
  | .temporaryRedirect => "Temporary Redirect"
  | .permanentRedirect => "Permanent Redirect"
  | .badRequest => "Bad Request"
  | .unauthorized => "Unauthorized"
  | .forbidden => "Forbidden"
  | .notFound => "Not Found"
  | .methodNotAllowed => "Method Not Allowed"
  | .unprocessableEntity => "Unprocessable Entity"
  | .internalServerError => "Internal Server Error"
  | .notImplemented => "Not Implemented"
  | .badGateway => "Bad Gateway"
  | .serviceUnavailable => "Service Unavailable"

/-- The name as one word, every part of it capitalised. -/
def name : Status → String
  | .ok => "Ok"
  | .created => "Created"
  | .accepted => "Accepted"
  | .noContent => "NoContent"
  | .movedPermanently => "MovedPermanently"
  | .found => "Found"
  | .seeOther => "SeeOther"
  | .notModified => "NotModified"
  | .temporaryRedirect => "TemporaryRedirect"
  | .permanentRedirect => "PermanentRedirect"
  | .badRequest => "BadRequest"
  | .unauthorized => "Unauthorized"
  | .forbidden => "Forbidden"
  | .notFound => "NotFound"
  | .methodNotAllowed => "MethodNotAllowed"
  | .unprocessableEntity => "UnprocessableEntity"
  | .internalServerError => "InternalServerError"
  | .notImplemented => "NotImplemented"
  | .badGateway => "BadGateway"
  | .serviceUnavailable => "ServiceUnavailable"

def ofName? (name : String) : Option Status :=
  all.find? (·.name == name)

def ofCode? (code : UInt16) : Option Status :=
  all.find? (·.code == code)

@[simp] theorem ofCode?_code (s : Status) : ofCode? s.code = some s := by
  cases s <;> rfl

/-- A code has the status that it is the code of, and no other. -/
theorem ofCode?_eq_some_iff {code : UInt16} {s : Status} :
    ofCode? code = some s ↔ s.code = code := by
  constructor
  · intro h
    rw [ofCode?] at h
    simpa using List.find?_some h
  · rintro rfl
    exact ofCode?_code s

/-- The named status of a code. The failure carries the code that has no name. -/
def ofCode (code : UInt16) : Except UnknownCode Status :=
  match ofCode? code with
  | some status => .ok status
  | none => .error ⟨code⟩

end Status

end HttpReply
