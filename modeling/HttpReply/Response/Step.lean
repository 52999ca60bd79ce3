import HttpReply.Response.Describe

/-!
Whole runs of a response: how it begins, and the steps that follow. Steps may come in any order,
also after the response has been closed.
-/

namespace HttpReply

/-- A way to begin. -/
inductive Opening (α : Type) where
  | default
  | ok
  | found
  | notFound
  | internalServerError
  | withStatus (status : UInt16)
  | build (status : UInt16) (pairs : List (α × α)) (source : Source)
  /-- As `build`, with pairs that have been collected into headers before. -/
  | buildFrom (status : UInt16) (headers : Headers) (source : Source)

/-- A question that leaves a response as it is. -/
inductive Query where
  | status
  | reason
  | length
  | headers
  | header (key : String)
  | hasHeader (key : String)
  | contentType
  | body
  | isEmpty
  /-- A description in which the `hidden` characters are written by their number. -/
  | describe (layout : Text.Layout) (hidden : Char → Bool := Text.isUnprintable)

/-- One operation on a response. -/
inductive Step (α : Type) where
  | write (chunk : α)
  | append (chunk : α)
  | setHeader (key value : α)
  | deleteHeader (key : String)
  | setContentType (value : α)
  | setStatus (status : UInt16)
  | close
  | query (query : Query)

/-- What a step answers. -/
inductive Answer (α : Type) where
  | done
  | value (value : α)
  | text (text : String)
  | optionalText (text : Option String)
  | truth (truth : Bool)
  | number (number : Nat)
  | headers (headers : Headers)
  | chunks (chunks : List String)

namespace Response

variable {α : Type} [ToString α]

/-- Begin a response. Only building can fail. -/
def start : Opening α → Traced (Except Fault Response)
  | .default => pure (.ok Inhabited.default)
  | .ok => pure (.ok ok)
  | .found => pure (.ok found)
  | .notFound => pure (.ok notFound)
  | .internalServerError => pure (.ok internalServerError)
  | .withStatus status => pure (.ok (withStatus status))
  | .build status pairs source => build status pairs source
  | .buildFrom status headers source => build status headers.entries source

def answer (r : Response) : Query → Answer α
  | .status => .number r.status.toNat
  | .reason => .optionalText r.reason
  | .length => .number r.length
  | .headers => .headers r.headers
  | .header key => .optionalText (r.headers.get? key)
  | .hasHeader key => .truth (r.headers.contains key)
  | .contentType => .optionalText r.contentType
  | .body => .chunks r.body
  | .isEmpty => .truth r.isEmpty
  | .describe layout hidden => .text (r.describe layout hidden)

/-- Take one step. -/
def step (r : Response) : Step α → Traced (Answer α × Response)
  | .write chunk => do
    let (value, r) ← r.write chunk
    pure (.value value, r)
  | .append chunk => do
    let r ← r.append chunk
    pure (.done, r)
  | .setHeader key value => pure (.done, r.setHeader key value)
  | .deleteHeader key =>
    let (removed, r) := r.deleteHeader key
    pure (.optionalText removed, r)
  | .setContentType value => pure (.done, r.setContentType value)
  | .setStatus status => pure (.done, r.setStatus status)
  | .close => do
    let r ← r.close
    pure (.done, r)
  | .query query => pure (r.answer query, r)

/-- Take steps in order, and collect their answers. -/
def stepAll (r : Response) : List (Step α) → Traced (List (Answer α) × Response)
  | [] => pure ([], r)
  | first :: rest => do
    let (answer, r) ← r.step first
    let (answers, r) ← r.stepAll rest
    pure (answer :: answers, r)

end Response

end HttpReply
