import HttpReply.Source.Basic

/-!
Scripts: a simple sort of sources of a user's own, with a fixed text, a supply of parts and answers
about closing that are used up in their order.
-/

namespace HttpReply

/-- Answers to a question that is asked again and again. The last answer repeats, and without
any answer the question is denied. -/
def nextAnswer : List Bool → Bool × List Bool
  | [] => (false, [])
  | [last] => (last, [last])
  | answer :: rest => (answer, rest)

/-- A source that answers as it is told here. -/
structure Script where
  text : Option String := none
  supply : Supply := .absent
  /-- The answers to whether it can be closed, in the order of asking. -/
  closable : List Bool := []
  /-- The fault with which closing fails, if it does. -/
  closeFault : Option Fault := none
  deriving DecidableEq, Repr

/-- One question to a script. -/
def Script.machine : Machine Script
  | .asText, script => (script.text, script)
  | .parts, script => (script.supply.take.1, { script with supply := script.supply.take.2 })
  | .isClosable, script =>
    ((nextAnswer script.closable).1, { script with closable := (nextAnswer script.closable).2 })
  | .close, script => (script.closeFault, script)

/-- The source that follows a script. -/
def Source.scripted (script : Script) : Source := custom (Script.machine.behaviour script)

end HttpReply
