import HttpReply.Headers.Basic

/-!
Histories of headers: finite sequences of settings and removals.
-/

namespace HttpReply

/-- One change to headers. -/
inductive Edit where
  | set (key value : String)
  | remove (key : String)
  deriving DecidableEq, Repr

/-- The key that a change is about. -/
def Edit.key : Edit → String
  | .set key _ => key
  | .remove key => key

/-- Make one change. A removal answers the text that the key had, a setting answers nothing. -/
def Headers.edit (headers : Headers) : Edit → Option String × Headers
  | .set key value => (none, headers.set key value)
  | .remove key => headers.remove key

/-- Make the changes in order, and collect their answers. -/
def Headers.editAll (headers : Headers) : List Edit → List (Option String) × Headers
  | [] => ([], headers)
  | change :: rest =>
    let (answer, headers) := headers.edit change
    let (answers, headers) := headers.editAll rest
    (answer :: answers, headers)

/-- What every edit keeps between two headers is kept by any sequence of edits. -/
theorem Headers.related_editAll {R : Headers → Headers → Prop}
    (hEdit : ∀ a b edit, R a b → R (a.edit edit).2 (b.edit edit).2) {a b : Headers} (h : R a b)
    (edits : List Edit) : R (a.editAll edits).2 (b.editAll edits).2 := by
  induction edits generalizing a b with
  | nil => exact h
  | cons edit rest ih => exact ih (hEdit a b edit h)

end HttpReply
