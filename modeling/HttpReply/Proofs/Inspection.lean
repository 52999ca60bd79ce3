import HttpReply.Proofs.Answers

/-!
What an inspection is. It asks for the text and, only if there is none, for the parts; nothing is
lost and nothing added if it is spelled out in these two questions, wherever it stands among other
acts. So it leaves a source with a text alone, and takes of one without a text what a request for
parts takes.
-/

namespace HttpReply

/-- What follows a traced value depends on the value alone. -/
theorem Traced.bind_congr {α β : Type} {x : Traced α} {f g : α → Traced β}
    (h : f x.value = g x.value) : x >>= f = x >>= g := by
  change Traced.bind x f = Traced.bind x g
  rw [bind, bind, h]

/-- The single questions that an act consists of, given the answer to the question for the text. -/
def Act.questions (text : Option String) : Act → List Act
  | .shape => .asText :: if text.isNone then [.parts] else []
  | act => [act]

/-- The answers to the single questions that an answer is made of. -/
def ActAnswer.spelled : ActAnswer → List ActAnswer
  | .shape (.scalar content) => [.text (some content)]
  | .shape (.chunked pieces) => [.text none, .parts (some pieces)]
  | .shape .invalid => [.text none, .parts none]
  | answer => [answer]

namespace Source

variable (source : Source)

theorem actAll_append (first rest : List Act) :
    source.actAll (first ++ rest) = (do
      let (answers, source) ← source.actAll first
      let (later, source) ← source.actAll rest
      pure (answers ++ later, source)) := by
  induction first generalizing source with
  | nil => simp [actAll]
  | cons head tail ih => simp [actAll, ih]

theorem source_actAll_cons (first : Act) (rest : List Act) :
    (source.actAll (first :: rest)).value.2 =
      ((source.act first).value.2.actAll rest).value.2 := rfl

/-! ## Spelling out -/

/-- Acts with every inspection spelled out, by what the source answers when its turn comes. -/
def spellOut (source : Source) : List Act → List Act
  | [] => []
  | act :: rest =>
    act.questions source.asText.value.1 ++ (source.act act).value.2.spellOut rest

/-- One act, spelled out. -/
theorem actAll_questions (act : Act) :
    source.actAll (act.questions source.asText.value.1) =
      (fun asked => (asked.1.spelled, asked.2)) <$> source.act act := by
  cases act with
  | shape =>
      rw [Source.act, shape, bind_assoc, map_bind]
      rcases hText : source.asText.value with ⟨_ | content, rest⟩
      · simp only [Act.questions, Option.isNone_none, if_true, actAll, act, bind_assoc, pure_bind]
        apply Traced.bind_congr
        rw [hText]
        simp only [map_bind, bind_assoc]
        congr 1
        funext asked
        obtain ⟨_ | pieces, rest⟩ := asked <;> simp [ActAnswer.spelled]
      · simp only [Act.questions, Option.isNone_some, Bool.false_eq_true, if_false, actAll, act,
          bind_assoc, pure_bind]
        apply Traced.bind_congr
        simp [hText, ActAnswer.spelled]
  | _ => simp [Act.questions, actAll, act, ActAnswer.spelled]

/-- A sequence of acts, spelled out. -/
theorem actAll_spellOut (acts : List Act) :
    source.actAll (source.spellOut acts) =
      (fun asked => (asked.1.flatMap ActAnswer.spelled, asked.2)) <$> source.actAll acts := by
  induction acts generalizing source with
  | nil => rfl
  | cons first rest ih =>
      rw [spellOut, actAll_append, actAll_questions, bind_map_left, actAll, map_bind]
      apply Traced.bind_congr
      simp [ih]

/-! ## Sources that follow a script -/

namespace Follows

variable {source : Source} {script : Script}

theorem actAll (follows : source.Follows script) (acts : List Act) :
    ∃ rest : Script, (source.actAll acts).value.2.Follows rest ∧ rest.text = script.text := by
  induction acts generalizing source script with
  | nil => exact ⟨script, follows, rfl⟩
  | cons first rest ih =>
      obtain ⟨left, hLeft, hText⟩ := ih (follows.act first).2
      exact ⟨left, hLeft, hText.trans (Script.text_after script first)⟩

/-- No act changes the text. -/
theorem asText_actAll (follows : source.Follows script) (acts : List Act) :
    (source.actAll acts).value.2.asText.value.1 = script.text := by
  obtain ⟨rest, hRest, hText⟩ := follows.actAll acts
  rw [hRest.value_asText, hText]

/-- As the text stays the same, every inspection is spelled out in the same way. -/
theorem spellOut_eq (follows : source.Follows script) (acts : List Act) :
    source.spellOut acts = acts.flatMap (Act.questions script.text) := by
  induction acts generalizing source script with
  | nil => rfl
  | cons first rest ih =>
      rw [spellOut, follows.value_asText, ih (follows.act first).2, Script.text_after,
        List.flatMap_cons]

/-- A source with a text is left by an inspection as it was. -/
theorem source_act_shape (follows : source.Follows script) {content : String}
    (h : script.text = some content) : (source.act .shape).value.2 = source := by
  have hText := follows.value_asText
  rw [h] at hText
  exact congrArg Prod.snd (shape_of_text hText)

theorem source_actAll_filter (follows : source.Follows script) {content : String}
    (h : script.text = some content) (acts : List Act) :
    (source.actAll acts).value.2 = (source.actAll (acts.filter (· ≠ .shape))).value.2 := by
  induction acts generalizing source script with
  | nil => rfl
  | cons first rest ih =>
      rw [source_actAll_cons, ih (follows.act first).2 h]
      by_cases hShape : first = .shape
      · subst hShape
        rw [follows.source_act_shape h]
        rfl
      · rw [List.filter_cons_of_pos (by simpa using hShape)]
        rfl

end Follows

/-- Every sequence of acts comes to the same with its inspections spelled out, as a question for the
text and, without one, a request for the parts. If the source follows a script, inspections leave a
text alone, and without a text each request for parts, direct or by an inspection, is answered by
the number of those before it. -/
theorem inspections_spelled_out (source : Source) :
    (∀ acts : List Act,
      let plain := source.actAll acts
      let spelled := source.actAll (source.spellOut acts)
      spelled.value = (plain.value.1.flatMap ActAnswer.spelled, plain.value.2) ∧
      spelled.calls = plain.calls ∧ spelled.events = plain.events) ∧
    ∀ script, source.Follows script →
      (∀ acts : List Act,
        source.spellOut acts = acts.flatMap (Act.questions script.text) ∧
        (source.actAll acts).value.2.asText.value.1 = script.text) ∧
      (∀ content, script.text = some content → ∀ acts : List Act,
        (source.actAll acts).value.2 = (source.actAll (acts.filter (· ≠ .shape))).value.2 ∧
        ∀ i : Nat, acts[i]? = some .shape →
          (source.actAll acts).value.1[i]? = some (.shape (.scalar content))) ∧
      (script.text = none → ∀ (acts : List Act) (i : Nat),
        let supplied := script.supply.partsAt
          ((acts.take i).countP fun act => act = .parts ∨ act = .shape)
        (acts[i]? = some .parts → (source.actAll acts).value.1[i]? = some (.parts supplied)) ∧
        (acts[i]? = some .shape →
          (source.actAll acts).value.1[i]? = some (.shape (.ofAnswers none supplied)))) ∧
      ∀ (acts : List Act) (i : Nat), acts[i]? = some .isClosable →
        (source.actAll acts).value.1[i]? =
          some (.closable (answerAt script.closable ((acts.take i).count .isClosable))) := by
  constructor
  · intro acts
    simp [actAll_spellOut]
  · intro script follows
    refine ⟨fun acts => ⟨follows.spellOut_eq acts, follows.asText_actAll acts⟩, ?_, ?_, ?_⟩
    · intro content hText acts
      refine ⟨follows.source_actAll_filter hText acts, ?_⟩
      intro i hShape
      rw [follows.getElem?_answers_actAll, hShape, Option.map_some, Script.answerAfter, hText]
      rfl
    · intro hText acts i
      rw [follows.getElem?_answers_actAll, Script.requests_of_no_text hText]
      constructor
      · intro hParts
        rw [hParts]
        rfl
      · intro hShape
        rw [hShape, Option.map_some, Script.answerAfter, hText]
    · intro acts i hAsked
      rw [follows.getElem?_answers_actAll, hAsked]
      rfl

/-- A stream behind a handle is used up by the first inspection, so the request after it and the
next inspection find nothing; a source with a text as well keeps its parts for the request. -/
theorem inspections_spelled_out_of_stream :
    let script : Script := { supply := .once ["a", "é"], closable := [true, false] }
    let source : Source := .wrapped (.scripted script)
    let acts : List Act := [.isClosable, .shape, .parts, .isClosable, .shape]
    let texted : Source := .scripted { text := some "t", supply := .drained ["x"] }
    source.Follows script ∧
    source.spellOut acts =
      [.isClosable, .asText, .parts, .parts, .isClosable, .asText, .parts] ∧
    (source.actAll (source.spellOut acts)).value.1 =
      [.closable true, .text none, .parts (some ["a", "é"]), .parts none, .closable false,
        .text none, .parts none] ∧
    (source.actAll (source.spellOut acts)).calls = (source.actAll acts).calls ∧
    (source.actAll acts).value.1[2]? = some (.parts none) ∧
    (source.actAll acts).value.1[4]? = some (.shape .invalid) ∧
    (source.actAll acts).value.1[3]? = some (.closable false) ∧
    (texted.actAll [.shape, .parts, .shape]).value.1[2]? = some (.shape (.scalar "t")) ∧
    (texted.actAll [.shape, .parts, .shape]).value.2 = (texted.actAll [.parts]).value.2 := by
  intro script source acts texted
  have follows : source.Follows script := .wrapped (.scripted script)
  obtain ⟨hSpelled, hFollows⟩ := inspections_spelled_out source
  obtain ⟨hValue, hCalls, -⟩ := hSpelled acts
  obtain ⟨hQuestions, -, hSupplied, hAsked⟩ := hFollows script follows
  obtain ⟨-, hTexted⟩ := inspections_spelled_out texted
  obtain ⟨-, hKept, -⟩ := hTexted _ (.scripted _)
  obtain ⟨hLeft, hAnswers⟩ := hKept "t" rfl [.shape, .parts, .shape]
  exact ⟨follows, (hQuestions acts).1, congrArg Prod.fst hValue, hCalls,
    (hSupplied rfl acts 2).1 rfl, (hSupplied rfl acts 4).2 rfl, hAsked acts 3 rfl,
    hAnswers 2 rfl, hLeft⟩

end Source

end HttpReply
