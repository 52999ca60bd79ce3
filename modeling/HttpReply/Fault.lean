import HttpReply.Text.Layout

/-!
Faults of input and output, as a body source reports them and as a response does that cannot be
built.
-/

namespace HttpReply

open Text

/-- What sort of thing went wrong, by its name. -/
structure FaultKind where
  name : String
  deriving DecidableEq, Repr

def FaultKind.invalidInput : FaultKind := ⟨"InvalidInput"⟩

def FaultKind.other : FaultKind := ⟨"Other"⟩

/-- A failure of input or output, with what it shows of itself. A source may report any, also one
that the operating system described. -/
structure Fault where
  kind : FaultKind
  /-- The message for the reader. -/
  message : String
  /-- The description that a log shows. -/
  description : String
  deriving DecidableEq, Repr

namespace Fault

/-- A fault that is made from a message. It is described on one line by its kind and the quoted
message. -/
def custom (kind : FaultKind) (message : String) (hidden : Char → Bool) : Fault where
  kind
  message
  description := String.ofList <| Layout.oneLine.enclose (Frame.record "Custom") 0
    [labelled "kind".toList kind.name.toList,
     labelled "error".toList (quoted hidden message)]

def invalidInput (message : String) (hidden : Char → Bool := isUnprintable) : Fault :=
  custom .invalidInput message hidden

def other (message : String) (hidden : Char → Bool := isUnprintable) : Fault :=
  custom .other message hidden

/-- A body that is neither a text nor a sequence of parts. -/
def unusableBody : Fault := invalidInput "stringable or iterable required"

end Fault

end HttpReply
