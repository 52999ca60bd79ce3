import HttpReply.Source.Shape

/-!
What questions to a source report and record. No question reports an event; only letting go of a
source does. A call that is recorded is the question itself.
-/

namespace HttpReply.Source

universe u

@[simp] theorem events_ask (source : Source) (asked : Capability) :
    (source.ask asked).events = [] := by
  induction source with
  | text s => cases asked <;> rfl
  | supplied supply => cases asked <;> rfl
  | custom behaviour => rfl
  | wrapped inner ih => simp [ask, ih]

theorem eq_of_mem_calls_ask {source : Source} {asked capability : Capability}
    (h : capability ∈ (source.ask asked).calls) : capability = asked := by
  induction source with
  | text s => cases asked <;> cases h
  | supplied supply => cases asked <;> cases h
  | custom behaviour => exact List.mem_singleton.mp h
  | wrapped inner ih => exact ih (by simpa [ask] using h)

/-- A source that keeps a state answers from it, and is then the source that begins in the next
state. -/
theorem ask_machine {σ : Type u} (machine : Machine σ) (state : σ) (asked : Capability) :
    (custom (machine.behaviour state)).ask asked = (do
      .record asked
      pure ((machine asked state).1, custom (machine.behaviour (machine asked state).2))) := by
  rw [ask, Machine.after_behaviour]
  rfl

/-- A source with a text is asked for nothing else. -/
theorem shape_of_text {source rest : Source} {content : String}
    (h : source.asText.value = (some content, rest)) :
    source.shape.value = (.scalar content, rest) := by
  simp [shape, h]

/-- Without a text, an inspection is a request for parts. -/
theorem shape_of_no_text {source rest : Source} (h : source.asText.value = (none, rest)) :
    source.shape.value =
      match rest.parts.value with
      | (some pieces, rest) => (.chunked pieces, rest)
      | (none, rest) => (.invalid, rest) := by
  rcases hParts : rest.parts.value with ⟨_ | pieces, left⟩ <;> simp [shape, h, hParts]

/-- The calls of an inspection. -/
theorem calls_shape (source : Source) :
    source.shape.calls = source.asText.calls ++
      if source.asText.value.1.isNone then source.asText.value.2.parts.calls else [] := by
  rcases hText : source.asText.value with ⟨_ | content, rest⟩
  · rcases hParts : rest.parts.value with ⟨_ | pieces, rest'⟩ <;> simp [shape, hText, hParts]
  · simp [shape, hText]

@[simp] theorem events_shape (source : Source) : source.shape.events = [] := by
  rcases hText : source.asText.value with ⟨_ | content, rest⟩
  · rcases hParts : rest.parts.value with ⟨_ | pieces, rest'⟩ <;> simp [shape, hText, hParts]
  · simp [shape, hText]

end HttpReply.Source
