import HttpReply.Trace

/-!
Sources of a user's own. What such a source answers may depend on everything that it was asked
before. So it is given by its answers to each question after each sequence of questions, and every
source that keeps a state, of whatever type, is given in this way.
-/

namespace HttpReply

universe u

/-- What a question is answered with. A closing answers the fault with which it fails, if it
does. -/
@[reducible] def Capability.Reply : Capability → Type
  | .asText => Option String
  | .parts => Option (List String)
  | .isClosable => Bool
  | .close => Option Fault

/-- The answer to each question, by the questions that were asked before, the first of them
first. -/
def Behaviour : Type := (asked : Capability) → List Capability → asked.Reply

namespace Behaviour

variable (behaviour : Behaviour) (past : List Capability)

/-- What is left of a behaviour after some questions. -/
def after : Behaviour :=
  fun asked later => behaviour asked (past ++ later)

@[simp] theorem after_apply (asked : Capability) (later : List Capability) :
    behaviour.after past asked later = behaviour asked (past ++ later) := rfl

@[simp] theorem after_after (later : List Capability) :
    (behaviour.after past).after later = behaviour.after (past ++ later) := by
  funext asked last
  simp

end Behaviour

/-- A source that keeps a state: each question is answered from the state and leads to another. -/
def Machine (σ : Type u) : Type u := (asked : Capability) → σ → asked.Reply × σ

namespace Machine

variable {σ : Type u} (machine : Machine σ)

/-- The state after some questions. -/
def stateAfter (state : σ) (past : List Capability) : σ :=
  past.foldl (fun state asked => (machine asked state).2) state

/-- The answers of a machine that begins in a state. -/
def behaviour (state : σ) : Behaviour :=
  fun asked past => (machine asked (machine.stateAfter state past)).1

/-- After some questions a machine goes on from the state that they led to. -/
theorem after_behaviour (state : σ) (past : List Capability) :
    (machine.behaviour state).after past =
      machine.behaviour (machine.stateAfter state past) := by
  funext asked later
  simp only [Behaviour.after_apply, behaviour, stateAfter, List.foldl_append]

end Machine

end HttpReply
