import HttpReply.Proofs.Log
import HttpReply.Proofs.SourceCalls

/-!
Where a text is divided into chunks. The number of bytes of the chunks together is that of the text,
and of the settings of the content length only the last one shows, so two divisions of one text lead
to responses that differ in their chunks and in nothing that is made of them.
-/

namespace HttpReply

theorem totalBytes_eq_of_join_eq {first second : List String}
    (h : String.join first = String.join second) : totalBytes first = totalBytes second := by
  rw [← utf8ByteSize_join, ← utf8ByteSize_join, h]

/-- What was not written for the purpose cannot be closed, so it is never held. -/
theorem Source.retained_text (text : String) : (Source.text text).retained = none := rfl

theorem Source.retained_supplied (supply : Supply) : (Source.supplied supply).retained = none := by
  have hText : (supplied supply).asText.value = (none, supplied supply) := rfl
  rw [retained, shape_of_no_text hText]
  rcases hTake : supply.take with ⟨_ | pieces, left⟩ <;> simp [ask, hTake, Capability.denial]

namespace Response

/-- Two responses that differ at most in how their text is divided into chunks, and in the source
they hold. -/
structure SameText (a b : Response) : Prop where
  status : a.status = b.status
  headers : a.headers = b.headers
  length : a.length = b.length
  text : String.join a.body = String.join b.body

/-- A message is made of the joined body, so the chunks do not show in it, and neither do they in
the cause of a refusal. -/
theorem SameText.handOff_eq {a b : Response} (same : SameText a b) (limit : Nat) :
    a.handOff limit = b.handOff limit := by
  rw [handOff, handOff, same.status, same.headers, same.text]

theorem sameText_appendAll {first second : List String} (hFirst : first ≠ [])
    (hSecond : second ≠ []) (hJoin : String.join first = String.join second) (r : Response) :
    SameText (r.appendAll first).value (r.appendAll second).value := by
  have hBytes := totalBytes_eq_of_join_eq hJoin
  rw [value_appendAll hFirst, value_appendAll hSecond, map_toString_texts, map_toString_texts]
  constructor
  · rfl
  · change r.headers.set _ _ = r.headers.set _ _
    rw [hBytes]
  · exact congrArg (r.length + ·) hBytes
  · change String.join (r.body ++ _) = String.join (r.body ++ _)
    rw [String.join_append, String.join_append, hJoin]

theorem source_appendAll {chunks : List String} (h : chunks ≠ []) (r : Response) :
    (r.appendAll chunks).value.source = r.source := by
  rw [value_appendAll h]

/-- Chunks are written with a call each as their texts are in one go. -/
theorem snd_stepAll_writes {α : Type} [ToString α] (r : Response) (chunks : List α) :
    Prod.snd <$> r.stepAll (chunks.map Step.write) = r.appendAll (chunks.map toString) := by
  have hWrites : ∀ step ∈ chunks.map Step.write, step.written?.isSome = true := by
    intro step hStep
    obtain ⟨chunk, -, rfl⟩ := List.mem_map.mp hStep
    rfl
  have hTexts : (chunks.map Step.write).filterMap Step.written? = chunks.map toString := by
    rw [List.filterMap_map, ← List.filterMap_eq_map]
    rfl
  rw [snd_stepAll_of_written hWrites, hTexts]

theorem isWrite_of_mem_log_appendAll {r : Response} {chunks : List String} {line : LogLine}
    (h : line ∈ (r.appendAll chunks).log) : line.IsWrite := by
  rw [log_appendAll] at h
  exact LogLine.isWrite_of_mem_writes h

section Building

variable {κ ν : Type} [ToString κ] [ToString ν]

theorem sameText_build (status : UInt16) (pairs : List (κ × ν)) {whole pieces : Source}
    {text : String} {parts : List String} (hWhole : whole.chunks? = some [text])
    (hPieces : pieces.chunks? = some parts) (hParts : parts ≠ [])
    (hJoin : String.join parts = text) :
    ∃ a b, (build status pairs whole).value = .ok a ∧ (build status pairs pieces).value = .ok b ∧
      SameText a b ∧ a.source = whole.retained ∧ b.source = pieces.retained := by
  have hTexts : String.join [text] = String.join parts := by
    rw [hJoin]
    simp
  have same := sameText_appendAll (List.cons_ne_nil text []) hParts hTexts
    { withStatus status with headers := .ofPairs pairs }
  refine ⟨_, _, (value_build status pairs whole).trans (by rw [hWhole]),
    (value_build status pairs pieces).trans (by rw [hPieces]), ?_, rfl, rfl⟩
  exact ⟨same.status, same.headers, same.length, same.text⟩

theorem isWrite_of_mem_log_build {status : UInt16} {pairs : List (κ × ν)} {source : Source}
    {line : LogLine} (h : line ∈ (build status pairs source).log) : line.IsWrite := by
  rw [log_build] at h
  cases hChunks : source.chunks? with
  | none => simp [hChunks] at h
  | some chunks =>
      rw [hChunks] at h
      exact LogLine.isWrite_of_mem_writes h

end Building

/-- How a text is divided into chunks, at least one, does not show in the status, the length, the
headers or the hand-off, nor in the held source when the chunks are written one after the other or
come from no closable source. Every line of the log is that of a write. -/
theorem chunking_unobservable {α κ ν : Type} [ToString α] [ToString κ] [ToString ν] :
    (∀ (r : Response) (first second : List α), first ≠ [] → second ≠ [] →
      String.join (first.map toString) = String.join (second.map toString) →
      let a := r.stepAll (first.map Step.write)
      let b := r.stepAll (second.map Step.write)
      SameText a.value.2 b.value.2 ∧ a.value.2.source = b.value.2.source ∧
      (∀ limit, a.value.2.handOff limit = b.value.2.handOff limit) ∧
      ∀ line ∈ a.log ++ b.log, line.message = "body write") ∧
    (∀ (status : UInt16) (pairs : List (κ × ν)) (parts : List String) (supply : Supply)
      (m n : Nat), supply.take.1 = some parts → parts ≠ [] →
      ∃ a b, (build status pairs ((Source.text (String.join parts)).layered m)).value = .ok a ∧
        (build status pairs ((Source.supplied supply).layered n)).value = .ok b ∧
        SameText a b ∧ a.source = none ∧ b.source = none ∧
        ∀ limit, a.handOff limit = b.handOff limit) ∧
    ∀ (status : UInt16) (pairs : List (κ × ν)) (whole pieces : Source) (text : String)
      (parts : List String), whole.chunks? = some [text] → pieces.chunks? = some parts →
      parts ≠ [] → String.join parts = text →
      (∃ a b, (build status pairs whole).value = .ok a ∧
        (build status pairs pieces).value = .ok b ∧ SameText a b ∧ a.source = whole.retained ∧
        b.source = pieces.retained ∧ ∀ limit, a.handOff limit = b.handOff limit) ∧
      ∀ line ∈ (build status pairs whole).log ++ (build status pairs pieces).log,
        line.message = "body write" := by
  refine ⟨?_, ?_, ?_⟩
  · intro r first second hFirst hSecond hJoin a b
    have hFirst : first.map toString ≠ [] := by simpa using hFirst
    have hSecond : second.map toString ≠ [] := by simpa using hSecond
    have hA : Prod.snd <$> a = r.appendAll (first.map toString) := snd_stepAll_writes r first
    have hB : Prod.snd <$> b = r.appendAll (second.map toString) := snd_stepAll_writes r second
    have hValueA : a.value.2 = (r.appendAll (first.map toString)).value := congrArg Traced.value hA
    have hValueB : b.value.2 = (r.appendAll (second.map toString)).value := congrArg Traced.value hB
    have same : SameText a.value.2 b.value.2 := by
      rw [hValueA, hValueB]
      exact sameText_appendAll hFirst hSecond hJoin r
    refine ⟨same, ?_, same.handOff_eq, ?_⟩
    · rw [hValueA, hValueB, source_appendAll hFirst, source_appendAll hSecond]
    · intro line hLine
      rw [← Traced.log_map Prod.snd a, ← Traced.log_map Prod.snd b, hA, hB] at hLine
      rcases List.mem_append.mp hLine with h | h <;> exact isWrite_of_mem_log_appendAll h
  · intro status pairs parts supply m n hSupply hParts
    have hWhole : ((Source.text (String.join parts)).layered m).chunks? =
        some [String.join parts] :=
      Source.chunks?_layered _ m
    have hPieces : ((Source.supplied supply).layered n).chunks? = some parts :=
      (Source.chunks?_layered _ n).trans hSupply
    obtain ⟨a, b, ha, hb, same, hHeld, hHeld'⟩ :=
      sameText_build status pairs hWhole hPieces hParts rfl
    rw [Source.retained_layered, Source.retained_text] at hHeld
    rw [Source.retained_layered, Source.retained_supplied] at hHeld'
    exact ⟨a, b, ha, hb, same, hHeld, hHeld', same.handOff_eq⟩
  · intro status pairs whole pieces text parts hWhole hPieces hParts hJoin
    constructor
    · obtain ⟨a, b, ha, hb, same, hHeld, hHeld'⟩ :=
        sameText_build status pairs hWhole hPieces hParts hJoin
      exact ⟨a, b, ha, hb, same, hHeld, hHeld', same.handOff_eq⟩
    · intro line hLine
      rcases List.mem_append.mp hLine with h | h <;> exact isWrite_of_mem_log_build h

/-- A text of three bytes is written in one piece among empty ones and in two pieces, over a length
that was set by hand. Built beside a header with a bad value, from the text and from a stream behind
two handles, it is refused alike. -/
theorem chunking_unobservable_of_split_text :
    let r : Response :=
      { withStatus 200 with headers := .ofPairs [("Content-Length", "x"), ("A", "1")] }
    let a := ((r.stepAll [Step.write "", .write "aé", .write ""]).value.2)
    let b := ((r.stepAll [Step.write "a", .write "é"]).value.2)
    a.body ≠ b.body ∧ SameText a b ∧ a.headers.entries = [("Content-Length", "3"), ("A", "1")] ∧
    a.handOff = b.handOff ∧
    ∃ whole pieces,
      (build 200 [("A", "\n")] (Source.text "aé")).value = .ok whole ∧
      (build 200 [("A", "\n")] ((Source.supplied (.once ["a", "é"])).layered 2)).value =
        .ok pieces ∧
      SameText whole pieces ∧ whole.handOff = pieces.handOff := by
  intro r a b
  obtain ⟨hWrites, hPlain, -⟩ := @chunking_unobservable String String String _ _ _
  have hJoin : String.join (["", "aé", ""].map toString) =
      String.join (["a", "é"].map toString) := by
    decide
  obtain ⟨same, -, hResult, -⟩ :=
    hWrites r ["", "aé", ""] ["a", "é"] (List.cons_ne_nil _ _) (List.cons_ne_nil _ _) hJoin
  obtain ⟨whole, pieces, hWhole, hPieces, sameBuilt, -, -, hBuilt⟩ :=
    hPlain 200 [("A", "\n")] ["a", "é"] (.once ["a", "é"]) 0 2 rfl (List.cons_ne_nil _ _)
  exact ⟨by decide, same, by decide, hResult _, whole, pieces, hWhole, hPieces, sameBuilt,
    hBuilt _⟩

end Response

end HttpReply
