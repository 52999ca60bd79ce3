import HttpReply.Proofs.ContentLength
import HttpReply.Proofs.Construction

/-!
Taking a response apart and building one from the parts. The chunks are written again, so the new
response differs from the old one at most in the content length, which then has been brought up to
date.
-/

namespace HttpReply.Response

open Headers

/-- The response that its parts make. Its headers are those of the old one, with the content length
set to the length unless the body is empty, and it holds no source. -/
theorem value_build_parts {r : Response} (counted : r.Counted) :
    (build r.status r.headers.entries (.ofList r.body)).value =
      .ok { r with
        headers := if r.body = [] then r.headers else r.headers.set contentLength r.length
        source := none } := by
  have hChunks : (Source.ofList r.body).chunks? = some r.body :=
    congrArg some (map_toString_texts r.body)
  have hSource : (Source.ofList r.body).retained = none := rfl
  rw [value_build, hChunks, hSource, ofPairs_entries]
  rw [Counted] at counted
  by_cases hBody : r.body = []
  · simp [hBody, counted, appendAll, withStatus]
  · simp only [value_appendAll hBody, if_neg hBody, map_toString_texts, withStatus, Nat.zero_add,
      List.nil_append, ← counted]

/-- The parts of a response that a run leads to can always be built again, to a response without a
source. It has the same headers exactly if the body is empty or the content length reads the
length; if not, the length replaces what the content length read, or stands behind all others. -/
theorem build_split {α : Type} [ToString α] {opening : Opening α} {steps : List (Step α)}
    {r : Response} (run : Reaches opening steps r) {status : UInt16} {headers : Headers}
    {body : List String} (h : r.split = (status, headers, body)) :
    ∃ rebuilt, (build status headers.entries (.ofList body)).value = .ok rebuilt ∧
      rebuilt.status = r.status ∧ rebuilt.body = r.body ∧ rebuilt.length = r.length ∧
      rebuilt.source = none ∧
      (rebuilt.headers = r.headers ↔
        body = [] ∨ r.headers.get? contentLength = some (toString r.length)) ∧
      (rebuilt.headers ≠ r.headers →
        (contentLength ∈ r.headers.keys → rebuilt.headers.entries =
          r.headers.entries.map fun entry =>
            if entry.1 = contentLength then (contentLength, toString r.length) else entry) ∧
        (contentLength ∉ r.headers.keys → rebuilt.headers.entries =
          r.headers.entries ++ [(contentLength, toString r.length)])) := by
  obtain ⟨rfl, rfl, rfl⟩ : r.status = status ∧ r.headers = headers ∧ r.body = body := by
    simpa [split] using h
  refine ⟨_, value_build_parts run.counted, rfl, rfl, rfl, rfl, ?_, ?_⟩
  · by_cases hBody : r.body = []
    · simp [hBody]
    · simp only [hBody, false_or]
      exact set_eq_self_iff
  · intro hDiffers
    have hBody : r.body ≠ [] := by
      intro hEmpty
      exact hDiffers (if_pos hEmpty)
    simp only [if_neg hBody]
    constructor
    · intro hPresent
      exact entries_set_of_mem r.length hPresent
    · intro hAbsent
      exact entries_set_of_not_mem r.length hAbsent

/-- A content length that was removed comes back at the end, and one that was set by hand is put
right in its place. -/
theorem build_split_of_stale_length :
    let opening : Opening String := .build 200 [("A", "1")] (.text "é")
    let removed : List (Step String) := [.deleteHeader "Content-Length", .setHeader "B" "2"]
    let overridden : List (Step String) := [.setHeader "Content-Length" "9", .setHeader "B" "2"]
    ∃ r r' rebuilt rebuilt', Reaches opening removed r ∧ Reaches opening overridden r' ∧
      (build r.status r.headers.entries (.ofList r.body)).value = .ok rebuilt ∧
      (build r'.status r'.headers.entries (.ofList r'.body)).value = .ok rebuilt' ∧
      rebuilt.body = ["é"] ∧ rebuilt'.headers ≠ r'.headers ∧
      rebuilt.headers.entries = [("A", "1"), ("B", "2"), ("Content-Length", "2")] ∧
      rebuilt'.headers.entries = [("A", "1"), ("Content-Length", "2"), ("B", "2")] := by
  intro opening removed overridden
  have run : Reaches opening removed _ := reaches_stepAll rfl removed
  have run' : Reaches opening overridden _ := reaches_stepAll rfl overridden
  obtain ⟨rebuilt, hValue, -, hBody, -, -, hSame, hEntries⟩ := build_split run rfl
  obtain ⟨rebuilt', hValue', -, -, -, -, hSame', hEntries'⟩ := build_split run' rfl
  have hDiffers : rebuilt.headers ≠ (opening.opened.stepAll removed).value.2.headers := by
    rw [ne_eq, hSame]
    decide
  have hDiffers' : rebuilt'.headers ≠ (opening.opened.stepAll overridden).value.2.headers := by
    rw [ne_eq, hSame']
    decide
  exact ⟨_, _, rebuilt, rebuilt', run, run', hValue, hValue', hBody, hDiffers',
    ((hEntries hDiffers).2 (by decide)).trans (by decide),
    ((hEntries' hDiffers').1 (by decide)).trans (by decide)⟩

end HttpReply.Response
