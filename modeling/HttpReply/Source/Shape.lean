import HttpReply.Source.Basic

/-!
The shape of a body source: what it turns out to be once its text, and failing that its parts,
have been asked for.
-/

namespace HttpReply

inductive Shape where
  /-- A text. -/
  | scalar (text : String)
  /-- A sequence of parts. -/
  | chunked (parts : List String)
  /-- Nothing that could be a body. -/
  | invalid
  deriving DecidableEq, Repr

/-- Inspect a source. The text is asked for first, and the parts only if there is none. -/
def Source.shape (source : Source) : Traced (Shape × Source) := do
  match ← source.asText with
  | (some content, source) => pure (.scalar content, source)
  | (none, source) =>
    match ← source.parts with
    | (some pieces, source) => pure (.chunked pieces, source)
    | (none, source) => pure (.invalid, source)

namespace Shape

/-- The chunks of a body of this shape. -/
def chunks? : Shape → Option (List String)
  | scalar text => some [text]
  | chunked parts => some parts
  | invalid => none

open Text

def describe (shape : Shape) (layout : Layout) (hidden : Char → Bool := isUnprintable) : String :=
  String.ofList <|
    match shape with
    | scalar text => layout.enclose (Frame.tuple "Scalar") 0 [quoted hidden text]
    | chunked parts =>
      layout.enclose (Frame.tuple "Chunked") 0
        [layout.enclose Frame.list 1 (parts.map (quoted hidden))]
    | invalid => "Invalid".toList

end Shape

end HttpReply
