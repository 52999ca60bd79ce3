import HttpReply.Source.Shape

/-!
Sequences of questions to one source.
-/

namespace HttpReply

/-- One thing to ask of a source. -/
inductive Act where
  | shape
  | asText
  | parts
  | isClosable
  | close
  deriving DecidableEq, Repr

/-- The answer to an act. -/
inductive ActAnswer where
  | shape (shape : Shape)
  | text (text : Option String)
  | parts (parts : Option (List String))
  | closable (answer : Bool)
  | closed (fault : Option Fault)
  deriving DecidableEq, Repr

namespace Source

/-- Perform one act. -/
def act (source : Source) : Act → Traced (ActAnswer × Source)
  | .shape => do
    let (shape, source) ← source.shape
    pure (.shape shape, source)
  | .asText => do
    let (content, source) ← source.asText
    pure (.text content, source)
  | .parts => do
    let (parts, source) ← source.parts
    pure (.parts parts, source)
  | .isClosable => do
    let (answer, source) ← source.isClosable
    pure (.closable answer, source)
  | .close => do
    let (fault, source) ← source.close
    pure (.closed fault, source)

/-- Perform acts in order on the same source, and collect their answers. -/
def actAll (source : Source) : List Act → Traced (List ActAnswer × Source)
  | [] => pure ([], source)
  | first :: rest => do
    let (answer, source) ← source.act first
    let (answers, source) ← source.actAll rest
    pure (answer :: answers, source)

end Source

end HttpReply
