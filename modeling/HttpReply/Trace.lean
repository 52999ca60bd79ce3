import HttpReply.Fault

/-!
What an operation leaves behind beside its value: the events it reports, and the capabilities it
asks of a body source that keeps a record of them.
-/

namespace HttpReply

/-- Something worth a line in a log. -/
inductive Event where
  /-- A chunk of `size` bytes was written and brought the body to `length` bytes. -/
  | bodyWrite (size length : Nat)
  | closingSource
  | closeFailed (fault : Fault)
  deriving DecidableEq, Repr

inductive Level where
  | trace
  | warn
  deriving DecidableEq, Repr

namespace Event

/-- Only a failure is a warning. -/
def level : Event → Level
  | closeFailed _ => .warn
  | _ => .trace

def message : Event → String
  | bodyWrite _ _ => "body write"
  | closingSource => "closing body source"
  | closeFailed fault => "failed to close body source: " ++ fault.description

/-- The named numbers that go with the message. -/
def fields : Event → List (String × Nat)
  | bodyWrite size length => [("size", size), ("length", length)]
  | _ => []

end Event

/-- What a body source can be asked. -/
inductive Capability where
  | asText
  | parts
  | isClosable
  | close
  deriving DecidableEq, Repr

/-- A value together with the events and the recorded calls that led to it, in order. -/
structure Traced (α : Type) where
  value : α
  events : List Event := []
  calls : List Capability := []

namespace Traced

variable {α β : Type}

/-- A value that took no notice of anything. -/
def pure (value : α) : Traced α := ⟨value, [], []⟩

def bind (first : Traced α) (next : α → Traced β) : Traced β where
  value := (next first.value).value
  events := first.events ++ (next first.value).events
  calls := first.calls ++ (next first.value).calls

instance : Monad Traced where
  pure := pure
  bind := bind

instance : LawfulMonad Traced := LawfulMonad.mk' Traced
  (by intro α x; cases x; simp [Functor.map, bind, pure])
  (by intro α β x f; simp [Bind.bind, Pure.pure, bind, pure])
  (by intro α β γ x f g; simp [Bind.bind, bind, List.append_assoc])

/-- Report one event. -/
def report (event : Event) : Traced Unit := ⟨(), [event], []⟩

/-- Record one call. -/
def record (capability : Capability) : Traced Unit := ⟨(), [], [capability]⟩

@[simp] theorem value_pure (a : α) : (Pure.pure a : Traced α).value = a := rfl

@[simp] theorem events_pure (a : α) : (Pure.pure a : Traced α).events = [] := rfl

@[simp] theorem calls_pure (a : α) : (Pure.pure a : Traced α).calls = [] := rfl

@[simp] theorem value_bind (first : Traced α) (next : α → Traced β) :
    (first >>= next).value = (next first.value).value := rfl

@[simp] theorem events_bind (first : Traced α) (next : α → Traced β) :
    (first >>= next).events = first.events ++ (next first.value).events := rfl

@[simp] theorem calls_bind (first : Traced α) (next : α → Traced β) :
    (first >>= next).calls = first.calls ++ (next first.value).calls := rfl

@[simp] theorem value_map (f : α → β) (x : Traced α) : (f <$> x).value = f x.value := rfl

@[simp] theorem events_map (f : α → β) (x : Traced α) : (f <$> x).events = x.events :=
  List.append_nil _

@[simp] theorem calls_map (f : α → β) (x : Traced α) : (f <$> x).calls = x.calls :=
  List.append_nil _

@[simp] theorem value_report (event : Event) : (report event).value = () := rfl

@[simp] theorem events_report (event : Event) : (report event).events = [event] := rfl

@[simp] theorem calls_report (event : Event) : (report event).calls = [] := rfl

@[simp] theorem value_record (capability : Capability) : (record capability).value = () := rfl

@[simp] theorem events_record (capability : Capability) : (record capability).events = [] := rfl

@[simp] theorem calls_record (capability : Capability) :
    (record capability).calls = [capability] := rfl

end Traced

end HttpReply
