import HttpReply.Source.Behaviour
import HttpReply.Source.Range

/-!
Body sources. A source may be asked for its text, for its parts, whether it can be closed, and to
close. Asking can change what any question is answered next, so every question also gives the source
that remains.
-/

namespace HttpReply

/-- What repeated requests for parts are given. -/
inductive Supply where
  /-- Never any parts. -/
  | absent
  /-- The same parts each time. -/
  | constant (parts : List String)
  /-- The parts once, and then an empty list each time. -/
  | drained (parts : List String)
  /-- The parts once, and then no parts at all. -/
  | once (parts : List String)
  /-- The integers of a range once, and then no parts at all. -/
  | counted (range : IntegerRange)
  deriving DecidableEq, Repr

/-- One request: its answer, and the supply for the requests that follow. -/
def Supply.take : Supply → Option (List String) × Supply
  | absent => (none, absent)
  | constant parts => (some parts, constant parts)
  | drained parts => (some parts, drained [])
  | once parts => (some parts, absent)
  | counted range => (some (range.toList.map fun n => n.toInt.repr), absent)

/-- A body source. Only a source of a user's own can be closed, and only it records what it is
asked. -/
inductive Source where
  | text (s : String)
  | supplied (supply : Supply)
  | custom (behaviour : Behaviour)
  /-- A source held by another handle, which passes every question on. -/
  | wrapped (inner : Source)

/-- The answer to a question that a source has no answer of its own to. -/
def Capability.denial : (asked : Capability) → asked.Reply
  | .asText => none
  | .parts => none
  | .isClosable => false
  | .close => none

namespace Source

variable {α : Type} [ToString α]

/-- The source of an empty body. -/
def empty : Source := supplied (.constant [])

/-- A source that can be asked nothing. -/
def inert : Source := supplied .absent

/-- A list hands its elements over at the first request. -/
def ofList (items : List α) : Source := supplied (.drained (items.map toString))

/-- An optional element is a list of at most one. -/
def ofOption (item : Option α) : Source := ofList item.toList

/-- A queue: the elements `items`, with each of `front` in turn pushed before all others. -/
def ofQueue (items front : List α) : Source :=
  ofList (front.foldl (fun queue item => item :: queue) items)

/-- An array of fixed size keeps its elements. -/
def ofArray (items : List α) : Source := supplied (.constant (items.map toString))

/-- A stream is used up by the first request. -/
def ofStream (items : List α) : Source := supplied (.once (items.map toString))

/-- The stream of the integers of a range. None of them is formed before the first request. -/
def ofRange (range : IntegerRange) : Source := supplied (.counted range)

/-- Ask one question. -/
def ask : Source → (asked : Capability) → Traced (asked.Reply × Source)
  | text s, .asText => pure (some s, text s)
  | supplied supply, .parts => pure (supply.take.1, supplied supply.take.2)
  | custom behaviour, asked => do
    .record asked
    pure (behaviour asked [], custom (behaviour.after [asked]))
  | wrapped inner, asked => do
    let (answer, inner) ← inner.ask asked
    pure (answer, wrapped inner)
  | source, asked => pure (asked.denial, source)

/-- Ask for the source's text. -/
abbrev asText (source : Source) : Traced (Option String × Source) := source.ask .asText

/-- Ask for the source's parts. -/
abbrev parts (source : Source) : Traced (Option (List String) × Source) := source.ask .parts

/-- Ask whether the source can be closed. -/
abbrev isClosable (source : Source) : Traced (Bool × Source) := source.ask .isClosable

/-- Close the source, and answer the fault if that fails. A source without anything to close
succeeds. -/
abbrev close (source : Source) : Traced (Option Fault × Source) := source.ask .close

/-- Let go of a source. It is asked once more whether it can be closed, and closed only if so. A
failure to close is reported and has no other effect. -/
def release (source : Source) : Traced Unit := do
  let (closable, source) ← source.isClosable
  if closable then
    .report .closingSource
    match ← source.close with
    | (some fault, _) => .report (.closeFailed fault)
    | (none, _) => pure ()

end Source

end HttpReply
