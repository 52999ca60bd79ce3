import HttpReply.Proofs.Run
import HttpReply.Source.Script

/-!
The body of a response over whole runs. It begins with the chunks of the opening and only ever
grows at its end, and the count of bytes follows it.
-/

namespace HttpReply

/-- The number of bytes of some chunks together, in UTF-8. -/
def totalBytes : List String → Nat
  | [] => 0
  | chunk :: rest => chunk.utf8ByteSize + totalBytes rest

@[simp] theorem totalBytes_nil : totalBytes [] = 0 := rfl

@[simp] theorem totalBytes_cons (chunk : String) (rest : List String) :
    totalBytes (chunk :: rest) = chunk.utf8ByteSize + totalBytes rest := rfl

@[simp] theorem totalBytes_append (first rest : List String) :
    totalBytes (first ++ rest) = totalBytes first + totalBytes rest := by
  induction first with
  | nil => simp
  | cons chunk first ih => simp [ih, Nat.add_assoc]

theorem utf8ByteSize_join (chunks : List String) :
    (String.join chunks).utf8ByteSize = totalBytes chunks := by
  induction chunks with
  | nil => rfl
  | cons chunk rest ih => rw [String.join_cons, String.utf8ByteSize_append, ih, totalBytes_cons]

@[simp] theorem map_toString_texts (texts : List String) : texts.map toString = texts :=
  List.map_id texts

namespace Response

variable {α : Type} [ToString α]

theorem length_appendAll (r : Response) (chunks : List α) :
    (r.appendAll chunks).value.length = r.length + totalBytes (chunks.map toString) := by
  induction chunks generalizing r with
  | nil => rfl
  | cons chunk rest ih => simp [appendAll, ih, Nat.add_assoc]

theorem length_stepAll (r : Response) (steps : List (Step α)) :
    (r.stepAll steps).value.2.length = r.length + totalBytes (steps.filterMap Step.written?) := by
  induction steps generalizing r with
  | nil => rfl
  | cons first rest ih =>
      rw [response_stepAll_cons, ih, length_step, filterMap_cons_toList, totalBytes_append]
      cases first.written? <;> simp [Nat.add_assoc]

/-- The count of bytes agrees with the body. -/
def Counted (r : Response) : Prop :=
  r.length = totalBytes r.body

theorem body_opened (opening : Opening α) : opening.opened.body = opening.chunks := by
  simp [Opening.opened, withStatus]

theorem counted_opened (opening : Opening α) : opening.opened.Counted := by
  simp [Counted, Opening.opened, withStatus, length_appendAll]

/-- Steps keep the count in agreement, whether or not they write. -/
theorem Counted.stepAll {r : Response} (counted : r.Counted) (steps : List (Step α)) :
    (r.stepAll steps).value.2.Counted := by
  rw [Counted, length_stepAll, body_stepAll, totalBytes_append, counted]

theorem Reaches.counted {opening : Opening α} {steps : List (Step α)} {r : Response}
    (run : Reaches opening steps r) : r.Counted := by
  obtain ⟨-, rfl⟩ := reaches_iff.mp run
  exact (counted_opened opening).stepAll steps

/-- The body of a run: what the opening wrote, then what the steps wrote. -/
theorem Reaches.body_eq {opening : Opening α} {steps : List (Step α)} {r : Response}
    (run : Reaches opening steps r) :
    r.body = opening.chunks ++ steps.filterMap Step.written? := by
  obtain ⟨-, rfl⟩ := reaches_iff.mp run
  rw [body_stepAll, body_opened]

/-- A run that is continued keeps its body as the beginning of what the body becomes. -/
theorem Reaches.body_prefix {opening : Opening α} {earlier steps : List (Step α)}
    {past r : Response} (prior : Reaches opening earlier past) (run : Reaches opening steps r)
    (h : earlier <+: steps) : past.body <+: r.body := by
  rw [prior.body_eq, run.body_eq]
  exact (List.prefix_append_right_inj _).mpr (h.filterMap _)

/-- After any run the body holds the chunks of the opening followed by the texts written, empty
ones included; the length is the number of its bytes; the response is empty exactly when nothing
was written; and each earlier moment of the run had a beginning of this body. -/
theorem body_and_length_of_run {opening : Opening α} {steps : List (Step α)} {r : Response}
    (run : Reaches opening steps r) :
    r.body = opening.chunks ++ steps.filterMap Step.written? ∧
    r.length = totalBytes r.body ∧
    (r.isEmpty = true ↔ r.body = []) ∧
    ∀ earlier, earlier <+: steps →
      ∃ past, Reaches opening earlier past ∧ past.body <+: r.body := by
  refine ⟨run.body_eq, run.counted, List.isEmpty_iff, ?_⟩
  intro earlier h
  have prior := reaches_stepAll (reaches_iff.mp run).1 earlier
  exact ⟨_, prior, prior.body_prefix run h⟩

/-- The texts written after the closing count as those before do, two of them in two bytes each. -/
theorem body_and_length_after_close :
    let opening : Opening String :=
      .build 404 [("Content-Length", "x")]
        (.wrapped (.scripted { supply := .once ["a", "", "é"], closable := [true] }))
    let steps : List (Step String) :=
      [.close, .write "ü", .deleteHeader "Content-Length", .append ""]
    ∃ r, Reaches opening steps r ∧ r.body = ["a", "", "é", "ü", ""] ∧ r.length = 5 ∧
      r.isEmpty = false ∧
      ∃ past, Reaches opening [.close, .write "ü"] past ∧ past.body <+: r.body := by
  intro opening steps
  have run : Reaches opening steps _ := reaches_stepAll rfl steps
  obtain ⟨hBody, hLength, hEmpty, hPast⟩ := body_and_length_of_run run
  have hTexts : opening.chunks ++ steps.filterMap Step.written? = ["a", "", "é", "ü", ""] := rfl
  rw [hTexts] at hBody
  refine ⟨_, run, hBody, ?_, ?_, hPast _ ⟨[.deleteHeader "Content-Length", .append ""], rfl⟩⟩
  · rw [hLength, hBody]
    decide
  · rw [← Bool.not_eq_true, hEmpty, hBody]
    simp

end Response

end HttpReply
