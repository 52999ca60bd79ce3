import HttpReply.Proofs.Equality
import HttpReply.Proofs.Refusal
import Mathlib.Data.List.Sort

/-!
Hand-offs of headers in different orders. Whether a hand-off succeeds, and which names the message
lists, depends on the entries alone. Their order shows only among the values of a name that several
keys share.
-/

namespace HttpReply

namespace Fields

open HttpReply.Field

variable {entries others : List (String × String)}

end Fields

namespace Response

open HttpReply.Field Fields

/-- Where two names just fill the message, a third header under one of them has to come before the
last name. -/
example :
    let early : Headers := .ofPairs [("A", "1"), ("a", "2"), ("B", "3")]
    let late : Headers := .ofPairs [("A", "1"), ("B", "3"), ("a", "2")]
    (early == late) = true ∧
    ({ withStatus 200 with headers := early }.handOff 2).isOk = true ∧
    { withStatus 200 with headers := late }.handOff 2 = .error .tooManyNames := by
  cbv

end Response

end HttpReply
