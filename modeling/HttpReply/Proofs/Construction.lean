import HttpReply.Headers.Lemmas
import HttpReply.Proofs.Body

/-!
Building a response at once and piece by piece. A source is inspected before anything is written,
and from then on only its chunks matter: the response is the one that a status, the settings of the
header pairs and the writes of the chunks make in this order.
-/

namespace HttpReply

namespace Source

/-- An inspection asks for the text and for the parts, and for nothing else. -/
theorem eq_of_mem_calls_shape {source : Source} {capability : Capability}
    (h : capability ∈ source.shape.calls) : capability = .asText ∨ capability = .parts := by
  rw [calls_shape] at h
  rcases List.mem_append.mp h with hText | hParts
  · exact .inl (eq_of_mem_calls_ask hText)
  · split at hParts
    · exact .inr (eq_of_mem_calls_ask hParts)
    · cases hParts

end Source

namespace Response

section Piecewise

variable {κ ν : Type} [ToString κ] [ToString ν]

/-- A response that is given its headers and then its chunks one after the other. -/
def piecewise (status : UInt16) (pairs : List (κ × ν)) (chunks : List String) : Traced Response :=
  let r := pairs.foldl (fun r pair => r.setHeader pair.1 pair.2) (withStatus status)
  chunks.foldlM (fun r chunk => Prod.snd <$> r.write chunk) r

theorem foldl_setHeader (pairs : List (κ × ν)) (r : Response) :
    pairs.foldl (fun r pair => r.setHeader pair.1 pair.2) r =
      { r with headers :=
          pairs.foldl (fun headers pair => headers.set pair.1 pair.2) r.headers } := by
  induction pairs generalizing r with
  | nil => rfl
  | cons pair rest ih => exact ih (r.setHeader pair.1 pair.2)

theorem write_snd (r : Response) (chunk : String) :
    Prod.snd <$> r.write chunk = r.append chunk := by
  simp [write]

theorem foldlM_write (chunks : List String) (r : Response) :
    chunks.foldlM (fun r chunk => Prod.snd <$> r.write chunk) r = r.appendAll chunks := by
  simp only [write_snd]
  induction chunks generalizing r with
  | nil => rfl
  | cons chunk rest ih =>
      rw [List.foldlM_cons, appendAll]
      congr 1
      funext next
      exact ih next

theorem piecewise_eq (status : UInt16) (pairs : List (κ × ν)) (chunks : List String) :
    piecewise status pairs chunks =
      { withStatus status with headers := .ofPairs pairs }.appendAll chunks := by
  rw [piecewise, foldlM_write, foldl_setHeader]
  rfl

/-- However many chunks are written, the content length is set once, to the count of bytes after the
last of them. -/
theorem value_appendAll {α : Type} [ToString α] {chunks : List α} (h : chunks ≠ [])
    (r : Response) :
    (r.appendAll chunks).value =
      { r with
        headers := r.headers.set Headers.contentLength
          (r.length + totalBytes (chunks.map toString))
        body := r.body ++ chunks.map toString
        length := r.length + totalBytes (chunks.map toString) } := by
  induction chunks generalizing r with
  | nil => exact absurd rfl h
  | cons chunk rest ih =>
      cases rest with
      | nil => rfl
      | cons next rest =>
          have hRest := ih (List.cons_ne_nil next rest) (r.append chunk).value
          rw [headers_append, Headers.set_set, body_append, length_append, Nat.add_assoc,
            List.append_assoc] at hRest
          exact hRest

theorem headers_piecewise (status : UInt16) (pairs : List (κ × ν)) {chunks : List String}
    (h : chunks ≠ []) :
    (piecewise status pairs chunks).value.headers =
      (Headers.ofPairs pairs).set Headers.contentLength (totalBytes chunks) := by
  rw [piecewise_eq, value_appendAll h, map_toString_texts]
  simp only [withStatus, Nat.zero_add]

theorem events_build (status : UInt16) (pairs : List (κ × ν)) (source : Source) :
    (build status pairs source).events =
      match source.shape.value.1.chunks? with
      | none => []
      | some chunks => (piecewise status pairs chunks).events := by
  rw [build, Traced.events_bind, Source.events_shape, List.nil_append]
  cases hChunks : source.shape.value.1.chunks? with
  | none => simp [hChunks]
  | some chunks => simp [hChunks, piecewise_eq]

/-- A response is built as it would be piece by piece, and with the same events, and its source is
kept exactly if it then answers that it can be closed. A source that is no body is refused without
an event and asked nothing further. Pairs that are collected before make no difference. -/
theorem build_eq_piecewise (status : UInt16) (pairs : List (κ × ν)) (source : Source) :
    (∀ chunks, source.shape.value.1.chunks? = some chunks →
      ∃ r, (build status pairs source).value = .ok r ∧
        r = { (piecewise status pairs chunks).value with source := r.source } ∧
        (build status pairs source).events = (piecewise status pairs chunks).events ∧
        r.source = (if source.shape.value.2.isClosable.value.1 then
          some source.shape.value.2.isClosable.value.2 else none) ∧
        (chunks = [] → r.headers = .ofPairs pairs) ∧
        (chunks ≠ [] → (∃ pair ∈ pairs, toString pair.1 = Headers.contentLength) →
          r.headers.entries = (Headers.ofPairs pairs).entries.map fun entry =>
            if entry.1 = Headers.contentLength then
              (Headers.contentLength, toString (totalBytes chunks)) else entry)) ∧
    (source.shape.value.1 = .invalid →
      (build status pairs source).value =
          .error (.invalidInput "stringable or iterable required") ∧
        (build status pairs source).events = [] ∧
        .isClosable ∉ (build status pairs source).calls ∧
        .close ∉ (build status pairs source).calls) ∧
    start (.buildFrom status (.ofPairs pairs) source : Opening κ) = build status pairs source := by
  refine ⟨?_, ?_, ?_⟩
  · intro chunks hChunks
    have hValue : (build status pairs source).value =
        .ok { (piecewise status pairs chunks).value with source := source.retained } := by
      rw [value_build, ← chunks?_shape, hChunks, piecewise_eq]
    refine ⟨_, hValue, rfl, by rw [events_build, hChunks], rfl, ?_, ?_⟩
    · rintro rfl
      rw [piecewise_eq]
      rfl
    · intro hSome hPair
      change (piecewise status pairs chunks).value.headers.entries = _
      rw [headers_piecewise status pairs hSome,
        Headers.entries_set_of_mem _ (Headers.mem_keys_ofPairs.mpr hPair)]
      rfl
  · intro hInvalid
    have hChunks : source.shape.value.1.chunks? = none := by rw [hInvalid]; rfl
    have hValue : (build status pairs source).value = .error .unusableBody := by
      rw [value_build, ← chunks?_shape, hChunks]
    have hEvents : (build status pairs source).events = [] := by
      rw [events_build, hChunks]
    have hAsked : ∀ capability ∈ (build status pairs source).calls,
        capability = .asText ∨ capability = .parts := by
      intro capability hMem
      rw [calls_build, ← chunks?_shape, hChunks] at hMem
      exact Source.eq_of_mem_calls_shape (by simpa using hMem)
    exact ⟨hValue, hEvents, fun hMem => by simpa using hAsked _ hMem,
      fun hMem => by simpa using hAsked _ hMem⟩
  · rw [start, build, build, Headers.ofPairs_entries]

/-- A source behind a handle that answers that it can be closed is kept, and the length that a pair
gave is overwritten in the first place. A source without capabilities is refused. -/
theorem build_eq_piecewise_of_closable :
    let pairs : List (String × String) := [("Content-Length", "9"), ("A", "1"), ("A", "2")]
    let source : Source :=
      .wrapped (.scripted { supply := .once ["a", "é"], closable := [true, false] })
    source.shape.value.1.chunks? = some ["a", "é"] ∧
      (∃ r, (build 200 pairs source).value = .ok r ∧ r.source.isSome = true ∧
        r.body = ["a", "é"] ∧ r.headers.entries = [("Content-Length", "3"), ("A", "2")]) ∧
      (build 200 pairs source).events = [.bodyWrite 1 1, .bodyWrite 2 3] ∧
      Source.inert.shape.value.1 = .invalid ∧
      (build 200 pairs Source.inert).value =
        .error (.invalidInput "stringable or iterable required") := by
  intro pairs source
  have hChunks : source.shape.value.1.chunks? = some ["a", "é"] := rfl
  obtain ⟨r, hValue, hEqual, hEvents, hSource, -, hPlace⟩ :=
    (build_eq_piecewise 200 pairs source).1 _ hChunks
  have hEntries := hPlace (by simp) ⟨("Content-Length", "9"), by simp [pairs], rfl⟩
  have hInvalid := (build_eq_piecewise 200 pairs Source.inert).2.1 rfl
  refine ⟨hChunks, ⟨r, hValue, ?_, ?_, hEntries.trans (by decide)⟩, hEvents.trans (by decide), rfl,
    hInvalid.1⟩
  · rw [hSource]
    rfl
  · rw [hEqual]
    rfl

end Piecewise

/-! ## Writes among the steps -/

section Writes

variable {α : Type} [ToString α] {steps : List (Step α)}

/-- Steps that are all writes write the texts that they add to the body, and do nothing else. -/
theorem snd_stepAll_of_written (hWrites : ∀ step ∈ steps, step.written?.isSome = true)
    (r : Response) :
    Prod.snd <$> r.stepAll steps = r.appendAll (steps.filterMap Step.written?) := by
  induction steps generalizing r with
  | nil => rfl
  | cons first rest ih =>
      obtain ⟨hFirst, hRest⟩ := List.forall_mem_cons.mp hWrites
      have hLater := ih hRest
      cases first with
      | write chunk =>
          have hText : r.append (toString chunk) = r.append chunk := rfl
          simp [stepAll, Response.step, write, appendAll, Step.written?, hText, ← hLater]
      | append chunk =>
          have hText : r.append (toString chunk) = r.append chunk := rfl
          simp [stepAll, Response.step, appendAll, Step.written?, hText, ← hLater]
      | _ => cases hFirst

end Writes

end Response

end HttpReply
