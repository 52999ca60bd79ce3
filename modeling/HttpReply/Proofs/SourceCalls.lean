import HttpReply.Proofs.Description
import HttpReply.Proofs.Layers
import HttpReply.Proofs.Run
import HttpReply.Source.Script

/-!
What a run asks of a source of a user's own, and when. The record of the calls is fixed by what the
source answers to them, whatever its answers depend on.
-/

namespace HttpReply

/-! ## Behaviours -/

namespace Behaviour

variable (behaviour : Behaviour)

/-- The questions of an inspection. Parts are asked for only without a text. -/
def inspection : List Capability :=
  [.asText] ++ if (behaviour .asText []).isNone then [.parts] else []

/-- Whether an inspection finds a text or, without one, parts. -/
def isBody : Bool :=
  (behaviour .asText []).isSome || (behaviour .parts [.asText]).isSome

/-- Whether a response keeps the source: it can be a body, and then answers that it can be
closed. -/
def isHeld : Bool :=
  behaviour.isBody && behaviour .isClosable behaviour.inspection

/-- The calls while a response is built. -/
def openingCalls : List Capability :=
  behaviour.inspection ++ if behaviour.isBody then [.isClosable] else []

/-- The calls while a held source is let go of. -/
def closingCalls : List Capability :=
  [.isClosable] ++
    if behaviour .isClosable (behaviour.inspection ++ [.isClosable]) then [.close] else []

end Behaviour

namespace Source

variable (behaviour : Behaviour)

theorem isSome_chunks?_custom : (custom behaviour).chunks?.isSome = behaviour.isBody := by
  cases hText : behaviour .asText [] <;>
    simp [chunks?, ask, hText, Behaviour.isBody]

theorem calls_shape_custom : (custom behaviour).shape.calls = behaviour.inspection := by
  rw [calls_shape]
  rfl

/-- An inspection leaves what is left of the source after its questions. -/
theorem source_shape_custom :
    (custom behaviour).shape.value.2 = custom (behaviour.after behaviour.inspection) := by
  have hAsked : (custom behaviour).asText.value =
      (behaviour .asText [], custom (behaviour.after [.asText])) := rfl
  cases hText : behaviour .asText [] with
  | some content =>
      rw [hText] at hAsked
      rw [shape_of_text hAsked, Behaviour.inspection, hText]
      rfl
  | none =>
      rw [hText] at hAsked
      rw [shape_of_no_text hAsked, Behaviour.inspection, hText]
      cases hParts : behaviour .parts [.asText] <;> simp [ask, hParts]

theorem calls_isClosable_custom : (custom behaviour).isClosable.calls = [.isClosable] := rfl

theorem value_isClosable_after (past : List Capability) :
    (custom (behaviour.after past)).isClosable.value =
      (behaviour .isClosable past, custom (behaviour.after (past ++ [.isClosable]))) := by
  simp [ask]

/-- A source that is let go of is asked whether it can be closed, and closed iff it says so. -/
theorem calls_release_custom : (custom behaviour).release.calls =
    [.isClosable] ++ (if behaviour .isClosable [] then [.close] else []) := by
  rw [release, Traced.calls_bind, calls_isClosable_custom]
  cases hAnswer : behaviour .isClosable [] with
  | false => simp [ask, hAnswer]
  | true =>
      cases hClosed : behaviour .close [.isClosable] <;> simp [ask, hAnswer, hClosed]

theorem retained_custom : (custom behaviour).retained =
    if behaviour .isClosable behaviour.inspection then
      some (custom (behaviour.after (behaviour.inspection ++ [.isClosable])))
    else none := by
  rw [retained, source_shape_custom, value_isClosable_after]

theorem calls_release_retained_custom :
    ((custom behaviour).retained.map fun source => source.release.calls).getD [] =
      if behaviour .isClosable behaviour.inspection then behaviour.closingCalls else [] := by
  rw [retained_custom]
  cases behaviour .isClosable behaviour.inspection with
  | false => rfl
  | true => simp [calls_release_custom, Behaviour.closingCalls]

theorem chunks?_layered (source : Source) (layers : Nat) :
    (source.layered layers).chunks? = source.chunks? := by
  simp only [chunks?, ask_layered, Traced.value_map]
  rcases source.asText.value with ⟨_ | content, rest⟩
  · simp [ask_layered]
  · rfl

theorem retained_layered (source : Source) (layers : Nat) :
    (source.layered layers).retained = source.retained.map (·.layered layers) := by
  simp only [retained, shape_layered, Traced.value_map, ask_layered]
  cases source.shape.value.2.isClosable.value.1 <;> rfl

end Source

namespace Response

variable {α : Type} [ToString α]

/-! ## The record of a run -/

theorem count_close_le_one (behaviour : Behaviour) (closed : Bool) :
    (behaviour.openingCalls ++ if closed then behaviour.closingCalls else []).count .close ≤ 1 := by
  have hOpening : behaviour.openingCalls.count .close = 0 := by
    cases hText : behaviour .asText [] <;> cases hBody : behaviour.isBody <;>
      simp [Behaviour.openingCalls, Behaviour.inspection, hText, hBody]
  have hClosing : behaviour.closingCalls.count .close ≤ 1 := by
    rw [Behaviour.closingCalls]
    split <;> decide
  rw [List.count_append, hOpening, Nat.zero_add]
  cases closed with
  | false => exact Nat.zero_le 1
  | true => exact hClosing

section Record

variable {opening : Opening α} {behaviour : Behaviour} {layers : Nat}
  (hSource : opening.source? = some ((Source.custom behaviour).layered layers))

include hSource

omit [ToString α] in
theorem usable_of_custom : opening.usable = behaviour.isBody := by
  rw [Opening.usable, hSource, Option.all_some, Source.chunks?_layered,
    Source.isSome_chunks?_custom]

theorem calls_start_of_custom : (start opening).calls = behaviour.openingCalls := by
  rw [calls_start, hSource]
  simp only [Source.chunks?_layered, Source.isSome_chunks?_custom, Source.shape_layered,
    Traced.calls_map, Traced.value_map, Source.ask_layered, Source.calls_shape_custom,
    Source.source_shape_custom, Source.calls_isClosable_custom]
  rfl

omit [ToString α] in
theorem calls_release_of_custom :
    ((opening.source?.bind Source.retained).map fun source => source.release.calls).getD [] =
      if behaviour .isClosable behaviour.inspection then behaviour.closingCalls else [] := by
  rw [hSource, Option.bind_some, Source.retained_layered, Option.map_map,
    ← Source.calls_release_retained_custom]
  simp only [Function.comp_def, Source.release_layered]

omit [ToString α] in
theorem isSome_retained_of_custom :
    (opening.source?.bind Source.retained).isSome =
      behaviour .isClosable behaviour.inspection := by
  rw [hSource, Option.bind_some, Source.retained_layered, Option.isSome_map,
    Source.retained_custom]
  cases behaviour .isClosable behaviour.inspection <;> rfl

/-- A run that is under way shows that the opening did not fail. -/
theorem isBody_of_reaches {steps : List (Step α)} {r : Response} (run : Reaches opening steps r) :
    behaviour.isBody = true :=
  (usable_of_custom hSource).symm.trans (reaches_iff.mp run).1

/-- The calls of one step, by what came before it: only the first closing makes any. -/
theorem calls_step_of_custom {before : List (Step α)} {r : Response}
    (prior : Reaches opening before r) (step : Step α) :
    (r.step step).calls =
      if behaviour.isHeld && step.isClose && !before.any Step.isClose then behaviour.closingCalls
      else [] := by
  rw [calls_step, prior.source_eq, Behaviour.isHeld, isBody_of_reaches hSource prior]
  cases step.isClose with
  | false => simp
  | true =>
      cases before.any Step.isClose with
      | true => simp
      | false => simpa using calls_release_of_custom hSource

theorem calls_run_of_custom (steps : List (Step α)) (ending : Ending) :
    (run opening steps ending).calls =
      behaviour.openingCalls ++
        if behaviour.isHeld && steps.any Step.isClose then behaviour.closingCalls else [] := by
  have hHeld := calls_release_of_custom hSource
  rw [calls_run, calls_start_of_custom hSource, usable_of_custom hSource, calls_stepAll,
    source_opened, hHeld, Behaviour.isHeld]
  cases behaviour.isBody <;> cases steps.any Step.isClose <;> simp

theorem isSome_source_of_custom {steps : List (Step α)} {r : Response}
    (run : Reaches opening steps r) :
    r.source.isSome = (behaviour.isHeld && !steps.any Step.isClose) := by
  rw [run.source_eq, Behaviour.isHeld, isBody_of_reaches hSource run,
    ← isSome_retained_of_custom hSource]
  cases steps.any Step.isClose <;> simp

end Record

/-- The calls on a source of a user's own are fixed by its answers, behind any number of handles.
The opening inspects it and, unless it fails, asks whether it can be closed; if so, the first
closing asks again and, if it still can be, closes. No other step and no ending calls anything, and
a description tells that the source is held from the opening until the first closing. -/
theorem sourceCalls_of_run {opening : Opening α} {behaviour : Behaviour} {layers : Nat}
    (hSource : opening.source? = some ((Source.custom behaviour).layered layers)) :
    ((start opening).calls = behaviour.openingCalls ∧
      ((start opening).value = .error .unusableBody ↔
        behaviour .asText [] = none ∧ behaviour .parts [.asText] = none)) ∧
    (∀ (before : List (Step α)) (r : Response) (step : Step α), Reaches opening before r →
      (r.step step).calls =
        if behaviour.isHeld && step.isClose && !before.any Step.isClose then
          behaviour.closingCalls
        else []) ∧
    (∀ steps ending, (run opening steps ending).calls =
      behaviour.openingCalls ++
        if behaviour.isHeld && steps.any Step.isClose then behaviour.closingCalls else []) ∧
    (∀ steps ending, (run opening steps ending).calls.count .close ≤ 1) ∧
    ∀ steps r layout hidden, Reaches opening steps r →
      (closableEnding (behaviour.isHeld && !steps.any Step.isClose) layout).toList <:+
        (r.describe layout hidden).toList := by
  refine ⟨⟨calls_start_of_custom hSource, ?_⟩, ?_, calls_run_of_custom hSource, ?_, ?_⟩
  · rw [value_start, usable_of_custom hSource, Behaviour.isBody]
    cases behaviour .asText [] <;> cases behaviour .parts [.asText] <;> simp
  · intro before r step prior
    exact calls_step_of_custom hSource prior step
  · intro steps ending
    rw [calls_run_of_custom hSource]
    exact count_close_le_one behaviour _
  · intro steps r layout hidden run
    rw [← isSome_source_of_custom hSource run]
    exact closableEnding_suffix_describe r layout hidden

/-- A source behind two handles whose closing fails: it is closed in the first of two closings, and
the hand-off at the end leaves it alone. -/
theorem sourceCalls_of_failing_close :
    let script : Script :=
      { supply := .once ["a"], closable := [true, true, false], closeFault := some (.other "gone") }
    let opening : Opening String := .build 200 [] ((Source.scripted script).layered 2)
    let steps : List (Step String) := [.write "x", .query .body]
    (start opening).calls = [.asText, .parts, .isClosable] ∧
    (run opening [.write "x", .close, .append "y", .close] .handOff).calls =
      [.asText, .parts, .isClosable, .isClosable, .close] ∧
    ∃ r, Reaches opening steps r ∧
      (r.step (.close : Step String)).calls = [.isClosable, .close] ∧
      "closable: true \x7d".toList <:+ (r.describe .oneLine).toList := by
  intro script opening steps
  have hSource : opening.source? =
      some ((Source.custom (Script.machine.behaviour script)).layered 2) := rfl
  obtain ⟨⟨hOpening, _⟩, hStep, hRun, _, hDescribe⟩ := sourceCalls_of_run hSource
  have prior : Reaches opening steps _ := reaches_stepAll rfl steps
  have hEnding : closableEnding
      ((Script.machine.behaviour script).isHeld && !steps.any Step.isClose) .oneLine =
      "closable: true \x7d" := rfl
  refine ⟨hOpening, hRun _ .handOff, _, prior, hStep _ _ .close prior, ?_⟩
  rw [← hEnding]
  exact hDescribe _ _ .oneLine _ prior

end Response

end HttpReply
