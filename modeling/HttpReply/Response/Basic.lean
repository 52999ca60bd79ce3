import HttpReply.Headers.Basic
import HttpReply.Source.Shape
import HttpReply.Status

/-!
A response under construction. Its body grows by writing chunks, and every write brings the count
of bytes and the `Content-Length` header up to date.
-/

namespace HttpReply

/-- A response under construction. -/
structure Response where
  /-- Any sixteen-bit code, whether or not it has a name. -/
  status : UInt16
  headers : Headers := .empty
  /-- The chunks, in the order of writing. -/
  body : List String := []
  /-- The number of bytes written. -/
  length : Nat := 0
  /-- A source that could be closed when the response was built, until the response is closed. -/
  source : Option Source := none

namespace Response

variable {α κ ν : Type} [ToString α] [ToString κ] [ToString ν]

/-- A response without headers and body. -/
def withStatus (status : UInt16) : Response := { status }

def ok : Response := withStatus Status.ok

def found : Response := withStatus Status.found

def notFound : Response := withStatus Status.notFound

def internalServerError : Response := withStatus Status.internalServerError

instance : Inhabited Response := ⟨ok⟩

def setStatus (r : Response) (status : UInt16) : Response :=
  { r with status }

def setHeader (r : Response) (key : κ) (value : ν) : Response :=
  { r with headers := r.headers.set key value }

def setContentType (r : Response) (value : ν) : Response :=
  r.setHeader Headers.contentType value

/-- Remove a header, and answer the text it had. The count of bytes is kept, also when its own
header goes; the next write puts that one back. -/
def deleteHeader (r : Response) (key : String) : Option String × Response :=
  let (removed, headers) := r.headers.remove key
  (removed, { r with headers })

/-- Write the text of `chunk` at the end of the body. An empty text is a chunk too. -/
def append (r : Response) (chunk : α) : Traced Response := do
  let text := toString chunk
  let length := r.length + text.utf8ByteSize
  .report (.bodyWrite text.utf8ByteSize length)
  pure <| { r with body := r.body ++ [text], length }.setHeader Headers.contentLength length

/-- Write a chunk, and give back the value itself, not its text. -/
def write (r : Response) (chunk : α) : Traced (α × Response) := do
  let r ← r.append chunk
  pure (chunk, r)

/-- Write several chunks in order. -/
def appendAll (r : Response) : List α → Traced Response
  | [] => pure r
  | chunk :: rest => do
    let r ← r.append chunk
    r.appendAll rest

/-- Build a response. The headers are set first, then the source is inspected and its chunks are
written. A source that then says it can be closed is kept; one of invalid shape is refused and
asked nothing further. -/
def build (status : UInt16) (pairs : List (κ × ν)) (source : Source) :
    Traced (Except Fault Response) := do
  let (shape, source) ← source.shape
  match shape.chunks? with
  | none => pure (.error .unusableBody)
  | some chunks =>
    let r ← { withStatus status with headers := .ofPairs pairs }.appendAll chunks
    let (closable, source) ← source.isClosable
    pure (.ok { r with source := if closable then some source else none })

/-- Let go of the source, if one is still held. -/
def close (r : Response) : Traced Response := do
  r.source.forM Source.release
  pure { r with source := none }

/-- The reason phrase, if the status has a name. -/
def reason (r : Response) : Option String :=
  (Status.ofCode? r.status).map (·.phrase)

def isEmpty (r : Response) : Bool :=
  r.body.isEmpty

/-- The text under the key of the content type. -/
def contentType (r : Response) : Option String :=
  r.headers.get? Headers.contentType

/-- Take the response apart. A source that is still held is let go of without being closed. -/
def split (r : Response) : UInt16 × Headers × List String :=
  (r.status, r.headers, r.body)

end Response

end HttpReply
