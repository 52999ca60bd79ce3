import HttpReply.Proofs.Layers
import HttpReply.Proofs.Run
import HttpReply.Source.Act

/-!
Handles go unnoticed. Every operation that has to do with a source commutes with the handles around
it: it answers, reports and records the same, and what it leaves is the same behind the handles.
Sequences of questions and whole runs of a response follow by induction.
-/

namespace HttpReply

namespace Source

theorem act_layered (source : Source) (layers : Nat) (act : Act) :
    (source.layered layers).act act =
      (fun asked => (asked.1, asked.2.layered layers)) <$> source.act act := by
  cases act with
  | shape => simp [Source.act, shape_layered]
  | _ => simp [Source.act, ask_layered]

theorem actAll_layered (source : Source) (layers : Nat) (acts : List Act) :
    (source.layered layers).actAll acts =
      (fun asked => (asked.1, asked.2.layered layers)) <$> source.actAll acts := by
  induction acts generalizing source with
  | nil => rfl
  | cons first rest ih => simp [actAll, act_layered, ih]

end Source

/-- A response that has that many handles around its source, if it holds one. -/
def Response.layered (r : Response) (layers : Nat) : Response :=
  { r with source := r.source.map (·.layered layers) }

/-- Only a response that is kept can still hold a source. -/
def Outcome.layered (layers : Nat) : Outcome → Outcome
  | .kept r => .kept (r.layered layers)
  | outcome => outcome

/-- An opening that is given its source behind that many handles. -/
def Opening.layered {α : Type} (layers : Nat) : Opening α → Opening α
  | .build status pairs source => .build status pairs (source.layered layers)
  | .buildFrom status headers source => .buildFrom status headers (source.layered layers)
  | opening => opening

namespace Response

/-! ## Steps -/

section Steps

variable {α : Type} (r : Response) (layers : Nat)

theorem describe_layered (layout : Text.Layout) (hidden : Char → Bool) :
    (r.layered layers).describe layout hidden = r.describe layout hidden := by
  simp only [describe, layered, Option.isSome_map]

theorem close_layered :
    (r.layered layers).close = (·.layered layers) <$> r.close := by
  cases hSource : r.source with
  | none => simp [close, layered, hSource]
  | some source => simp [close, layered, hSource, Source.release_layered]

theorem answer_layered (query : Query) :
    ((r.layered layers).answer query : Answer α) = r.answer query := by
  cases query with
  | describe layout hidden => exact congrArg Answer.text (describe_layered r layers layout hidden)
  | _ => rfl

variable [ToString α]

theorem step_layered (step : Step α) : (r.layered layers).step step =
    (fun taken => (taken.1, taken.2.layered layers)) <$> r.step step := by
  cases step with
  | close => simp [Response.step, close_layered]
  | query query => simp [Response.step, answer_layered]
  | _ => rfl

theorem stepAll_layered (steps : List (Step α)) : (r.layered layers).stepAll steps =
    (fun taken => (taken.1, taken.2.layered layers)) <$> r.stepAll steps := by
  induction steps generalizing r with
  | nil => rfl
  | cons first rest ih => simp [stepAll, step_layered, ih]

end Steps

/-! ## Runs -/

/-- The source is only inspected and asked whether it can be closed, and both questions pass through
the handles. -/
theorem build_layered {κ ν : Type} [ToString κ] [ToString ν] (layers : Nat) (status : UInt16)
    (pairs : List (κ × ν)) (source : Source) :
    build status pairs (source.layered layers) =
      Except.map (·.layered layers) <$> build status pairs source := by
  rw [build, Source.shape_layered, bind_map_left, build, map_bind]
  congr 1
  funext inspected
  obtain ⟨shape, rest⟩ := inspected
  cases hChunks : shape.chunks? with
  | none => simp [hChunks, Except.map]
  | some chunks =>
      simp only [hChunks, Source.ask_layered, bind_map_left, map_bind]
      congr 1
      funext r
      congr 1
      funext asked
      obtain ⟨closable, rest⟩ := asked
      cases closable <;> rfl

variable {α : Type} [ToString α]

theorem start_layered (layers : Nat) (opening : Opening α) :
    start (opening.layered layers) = Except.map (·.layered layers) <$> start opening := by
  cases opening with
  | build status pairs source => exact build_layered layers status pairs source
  | buildFrom status headers source => exact build_layered layers status headers.entries source
  | _ => rfl

theorem run_layered (layers : Nat) (opening : Opening α) (steps : List (Step α))
    (ending : Ending) :
    run (opening.layered layers) steps ending =
      Except.map (fun left => (left.1, left.2.layered layers)) <$> run opening steps ending := by
  rw [run, start_layered, bind_map_left, run, map_bind]
  congr 1
  funext begun
  cases begun with
  | error fault => rfl
  | ok r =>
      have hFinish (r : Response) :
          (r.layered layers).finish ending = (r.finish ending).layered layers := by
        cases ending <;> rfl
      simp [Except.map, stepAll_layered, hFinish]

theorem Reaches.layered {opening : Opening α} {steps : List (Step α)} {r : Response}
    (run : Reaches opening steps r) (layers : Nat) :
    Reaches (opening.layered layers) steps (r.layered layers) := by
  induction run with
  | start h =>
      apply Reaches.start
      rw [start_layered, Traced.value_map, h]
      rfl
  | @step steps r prior last ih =>
      have hStep : (r.step last).value.2.layered layers =
          ((r.layered layers).step last).value.2 := by
        rw [step_layered, Traced.value_map]
      rw [hStep]
      exact ih.step last

/-- However many handles are around a source, whatever its answers depend on, nothing tells that
they are there: any questions, and any run of a response that is built from it, are answered,
reported and recorded alike. At every point of a run only the source that is held differs, by the
handles. -/
theorem layers_unnoticed (layers : Nat) :
    (∀ (source : Source) (acts : List Act),
      let plain := source.actAll acts
      let boxed := (source.layered layers).actAll acts
      boxed.value.1 = plain.value.1 ∧ boxed.events = plain.events ∧ boxed.calls = plain.calls ∧
      ∀ act, (boxed.value.2.act act).value.1 = (plain.value.2.act act).value.1 ∧
        (boxed.value.2.act act).events = (plain.value.2.act act).events ∧
        (boxed.value.2.act act).calls = (plain.value.2.act act).calls) ∧
    (∀ (opening : Opening α) (steps : List (Step α)) (ending : Ending),
      let plain := run opening steps ending
      let boxed := run (opening.layered layers) steps ending
      boxed.value = plain.value.map (fun left => (left.1, left.2.layered layers)) ∧
      boxed.events = plain.events ∧ boxed.calls = plain.calls) ∧
    ∀ (opening : Opening α) (steps : List (Step α)) (r : Response), Reaches opening steps r →
      let boxed := r.layered layers
      Reaches (opening.layered layers) steps boxed ∧
      { boxed with source := r.source } = r ∧
      (∀ layout hidden, boxed.describe layout hidden = r.describe layout hidden) ∧
      ∀ step : Step α, (boxed.step step).value.1 = (r.step step).value.1 ∧
        (boxed.step step).events = (r.step step).events ∧
        (boxed.step step).calls = (r.step step).calls := by
  refine ⟨?_, ?_, ?_⟩
  · intro source acts
    simp [Source.actAll_layered, Source.act_layered]
  · intro opening steps ending
    simp [run_layered]
  · intro opening steps r run
    refine ⟨run.layered layers, rfl, describe_layered r layers, ?_⟩
    intro step
    simp [step_layered]

/-- A source whose state counts its closings has a text only after the first of them, and the second
one fails. It behaves so behind three handles too, and a response that is built from it closes it
through the handles. -/
theorem layers_unnoticed_of_counting_source :
    let machine : Machine Nat := fun
      | .asText, closings => (if closings = 0 then none else some "late", closings)
      | .parts, closings => (some ["a", "é"], closings)
      | .isClosable, closings => (true, closings)
      | .close, closings => (if closings = 0 then none else some (.other "gone"), closings + 1)
    let source : Source := .custom (machine.behaviour 0)
    let acts : List Act := [.shape, .close, .shape, .parts, .close]
    let opening : Opening String := .build 200 [("A", "1")] source
    let steps : List (Step String) := [.write "x"]
    ((source.layered 3).actAll acts).value.1 =
      [.shape (.chunked ["a", "é"]), .closed none, .shape (.scalar "late"),
        .parts (some ["a", "é"]), .closed (some (.other "gone"))] ∧
    ((source.layered 3).actAll acts).calls =
      [.asText, .parts, .close, .asText, .parts, .close] ∧
    (run (opening.layered 3) (steps ++ [.close]) .handOff).calls =
      [.asText, .parts, .isClosable, .isClosable, .close] ∧
    ∃ r, Reaches opening steps r ∧ Reaches (opening.layered 3) steps (r.layered 3) ∧
      r.source.isSome = true ∧
      (∀ layout hidden, (r.layered 3).describe layout hidden = r.describe layout hidden) ∧
      ((r.layered 3).step (.close : Step String)).calls = [.isClosable, .close] := by
  intro machine source acts opening steps
  obtain ⟨hActs, hRuns, hReaches⟩ := layers_unnoticed (α := String) 3
  obtain ⟨hAnswers, -, hCalls, -⟩ := hActs source acts
  obtain ⟨-, -, hRunCalls⟩ := hRuns opening (steps ++ [.close]) .handOff
  have run : Reaches opening steps _ := reaches_stepAll rfl steps
  obtain ⟨hBoxed, -, hDescribe, hSteps⟩ := hReaches opening steps _ run
  exact ⟨hAnswers, hCalls, hRunCalls, _, run, hBoxed, rfl, hDescribe, (hSteps .close).2.2⟩

end Response

end HttpReply
