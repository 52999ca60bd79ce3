import HttpReply.Response.Basic

/-!
What writing and closing do to each field of a response, and what its status gives as reason.
-/

namespace HttpReply.Response

variable {α : Type} [ToString α]

@[simp] theorem status_append (r : Response) (chunk : α) :
    (r.append chunk).value.status = r.status := rfl

@[simp] theorem source_append (r : Response) (chunk : α) :
    (r.append chunk).value.source = r.source := rfl

@[simp] theorem body_append (r : Response) (chunk : α) :
    (r.append chunk).value.body = r.body ++ [toString chunk] := rfl

@[simp] theorem length_append (r : Response) (chunk : α) :
    (r.append chunk).value.length = r.length + (toString chunk).utf8ByteSize := rfl

theorem headers_append (r : Response) (chunk : α) :
    (r.append chunk).value.headers =
      r.headers.set Headers.contentLength (r.append chunk).value.length := rfl

@[simp] theorem events_append (r : Response) (chunk : α) :
    (r.append chunk).events =
      [.bodyWrite (toString chunk).utf8ByteSize (r.append chunk).value.length] := rfl

@[simp] theorem calls_append (r : Response) (chunk : α) : (r.append chunk).calls = [] := rfl

@[simp] theorem body_appendAll (r : Response) (chunks : List α) :
    (r.appendAll chunks).value.body = r.body ++ chunks.map toString := by
  induction chunks generalizing r with
  | nil => simp [appendAll]
  | cons chunk rest ih => simp [appendAll, ih]

@[simp] theorem calls_appendAll (r : Response) (chunks : List α) :
    (r.appendAll chunks).calls = [] := by
  induction chunks generalizing r with
  | nil => rfl
  | cons chunk rest ih => simp [appendAll, ih]

/-- The reason is the phrase of the status that has the code. Other codes have none. -/
theorem reason_eq_some_iff {r : Response} {phrase : String} :
    r.reason = some phrase ↔ ∃ s : Status, s.code = r.status ∧ s.phrase = phrase := by
  simp only [reason, Option.map_eq_some_iff, Status.ofCode?_eq_some_iff]

@[simp] theorem value_close (r : Response) : r.close.value = { r with source := none } := rfl

end HttpReply.Response
