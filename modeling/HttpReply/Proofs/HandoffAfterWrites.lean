import HttpReply.Proofs.Construction
import HttpReply.Proofs.Refusal

/-!
Writing and handing off. A write replaces the content length, and with it whatever a caller may have
put there, by the decimal text of a number, which a message takes whatever the number is. All other
headers are judged as before.
-/

namespace HttpReply

namespace Field

end Field

namespace Response

open HttpReply.Field Fields

section Writes

variable {α : Type} [ToString α] {steps : List (Step α)}
  (hSome : steps ≠ []) (hWrites : ∀ step ∈ steps, step.written?.isSome = true)

include hSome hWrites

end Writes

/-- Where one name fills the message, there is no room for the content length that a write adds. -/
example :
    let r : Response := { withStatus 200 with headers := .ofPairs [("A", "1")] }
    (r.handOff 1).isOk = true ∧ (r.append "x").value.handOff 1 = .error .tooManyNames :=
  ⟨rfl, rfl⟩

end Response

end HttpReply
