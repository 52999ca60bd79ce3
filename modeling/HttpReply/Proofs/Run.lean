import HttpReply.Headers.Lemmas
import HttpReply.Message.Handoff
import HttpReply.Response.Lemmas
import HttpReply.Response.Step
import HttpReply.Source.Lemmas

/-!
Whole runs of a response. A run begins with an opening, takes steps one after the other and may
use the response up at its end. What an opening builds and what a step changes are stated once
here, one lemma for each field; invariants of runs follow from them by induction over the steps.
-/

namespace HttpReply

/-- The chunks that a source offers as a body: its text, and failing that its parts. A source
that offers neither cannot be a body. -/
def Source.chunks? (source : Source) : Option (List String) :=
  match source.asText.value with
  | (some content, _) => some [content]
  | (none, source) => source.parts.value.1

/-- What is kept of a source after its inspection: the source that remains, if it answers that
it can be closed. -/
def Source.retained (source : Source) : Option Source :=
  let asked := source.shape.value.2.isClosable.value
  if asked.1 then some asked.2 else none

theorem chunks?_shape (source : Source) :
    source.shape.value.1.chunks? = source.chunks? := by
  rw [Source.chunks?]
  rcases hText : source.asText.value with ⟨_ | content, rest⟩
  · rw [Source.shape_of_no_text hText]
    rcases hParts : rest.parts.value with ⟨_ | pieces, left⟩ <;> simp [hParts, Shape.chunks?]
  · rw [Source.shape_of_text hText]
    rfl

/-! ## Openings -/

namespace Opening

variable {α : Type} [ToString α]

def status : Opening α → UInt16
  | .default | .ok => Status.ok
  | .found => Status.found
  | .notFound => Status.notFound
  | .internalServerError => Status.internalServerError
  | .withStatus status | .build status _ _ | .buildFrom status _ _ => status

/-- The texts of the header pairs that an opening sets, in order. -/
def pairs : Opening α → List (String × String)
  | .build _ pairs _ => pairs.map fun pair => (toString pair.1, toString pair.2)
  | .buildFrom _ headers _ => headers.entries
  | _ => []

def source? : Opening α → Option Source
  | .build _ _ source | .buildFrom _ _ source => some source
  | _ => none

def chunks (opening : Opening α) : List String :=
  (opening.source?.bind Source.chunks?).getD []

/-- Whether an opening yields a response: it fails only on a source that cannot be a body. -/
def usable (opening : Opening α) : Bool :=
  opening.source?.all (·.chunks?.isSome)

/-- The response that a usable opening yields. -/
def opened (opening : Opening α) : Response :=
  { (({ Response.withStatus opening.status with headers := .ofPairs opening.pairs }).appendAll
      opening.chunks).value with source := opening.source?.bind Source.retained }

end Opening

namespace Response

variable {α κ ν : Type} [ToString α] [ToString κ] [ToString ν]

theorem value_build (status : UInt16) (pairs : List (κ × ν)) (source : Source) :
    (build status pairs source).value =
      match source.chunks? with
      | none => .error .unusableBody
      | some chunks =>
        .ok { ({ withStatus status with headers := .ofPairs pairs }.appendAll chunks).value with
          source := source.retained } := by
  rw [← chunks?_shape, build, Traced.value_bind]
  cases hChunks : source.shape.value.1.chunks? with
  | none => simp [hChunks]
  | some chunks => simp [hChunks, Source.retained]

theorem calls_build (status : UInt16) (pairs : List (κ × ν)) (source : Source) :
    (build status pairs source).calls =
      source.shape.calls ++
        if source.chunks?.isSome then source.shape.value.2.isClosable.calls else [] := by
  rw [← chunks?_shape, build, Traced.calls_bind]
  cases hChunks : source.shape.value.1.chunks? with
  | none => simp [hChunks]
  | some chunks => simp [hChunks]

/-- An opening fails exactly on a source that cannot be a body. -/
theorem value_start (opening : Opening α) :
    (start opening).value =
      if opening.usable then .ok opening.opened else .error .unusableBody := by
  cases opening with
  | build status pairs source =>
      rw [start, value_build]
      cases hChunks : source.chunks? with
      | none => simp [Opening.usable, Opening.source?, hChunks]
      | some chunks =>
          simp [Opening.usable, Opening.opened, Opening.source?, Opening.chunks, Opening.status,
            Opening.pairs, hChunks, Headers.ofPairs_texts]
  | buildFrom status headers source =>
      rw [start, value_build]
      cases hChunks : source.chunks? with
      | none => simp [Opening.usable, Opening.source?, hChunks]
      | some chunks =>
          simp [Opening.usable, Opening.opened, Opening.source?, Opening.chunks, Opening.status,
            Opening.pairs, hChunks]
  | _ => rfl

theorem source_opened (opening : Opening α) :
    opening.opened.source = opening.source?.bind Source.retained := rfl

theorem eq_opened_of_start {opening : Opening α} {r : Response}
    (h : (start opening).value = .ok r) : opening.usable = true ∧ r = opening.opened := by
  rw [value_start] at h
  cases hUsable : opening.usable with
  | false => simp [hUsable] at h
  | true =>
      rw [hUsable, if_pos rfl] at h
      exact ⟨rfl, (Except.ok.inj h).symm⟩

/-- The calls of an opening: those of one inspection, and one question whether the source can be
closed if it turned out to be a body. -/
theorem calls_start (opening : Opening α) :
    (start opening).calls =
      match opening.source? with
      | none => []
      | some source =>
        source.shape.calls ++
          if source.chunks?.isSome then source.shape.value.2.isClosable.calls else [] := by
  cases opening with
  | build status pairs source => exact calls_build status pairs source
  | buildFrom status headers source => exact calls_build status headers.entries source
  | _ => rfl

end Response

/-! ## Steps -/

namespace Step

variable {α : Type} [ToString α]

/-- The text that a step adds to the body. -/
def written? : Step α → Option String
  | .write chunk | .append chunk => some (toString chunk)
  | _ => none

def isClose : Step α → Bool
  | .close => true
  | _ => false

/-- The status that a step sets. -/
def status? : Step α → Option UInt16
  | .setStatus status => some status
  | _ => none

end Step

namespace Response

variable {α : Type} [ToString α]

theorem body_step (r : Response) (step : Step α) :
    (r.step step).value.2.body = r.body ++ step.written?.toList := by
  cases step with
  | write chunk => rfl
  | append chunk => rfl
  | _ => exact (List.append_nil r.body).symm

theorem length_step (r : Response) (step : Step α) :
    (r.step step).value.2.length = r.length + (step.written?.map String.utf8ByteSize).getD 0 := by
  cases step <;> rfl

theorem source_step (r : Response) (step : Step α) :
    (r.step step).value.2.source = if step.isClose then none else r.source := by
  cases step <;> rfl

theorem status_step (r : Response) (step : Step α) :
    (r.step step).value.2.status = step.status?.getD r.status := by
  cases step <;> rfl

/-- The calls of a step: a closing lets go of the source if one is held, and every other step
leaves it alone. -/
theorem calls_step (r : Response) (step : Step α) :
    (r.step step).calls =
      if step.isClose then (r.source.map fun source => source.release.calls).getD [] else [] := by
  cases step with
  | close => cases hSource : r.source <;> simp [Response.step, close, hSource, Step.isClose]
  | _ => simp [Response.step, write, append, Step.isClose]

/-! ## Sequences of steps -/

theorem filterMap_cons_toList {β γ : Type} (f : β → Option γ) (x : β) (xs : List β) :
    (x :: xs).filterMap f = (f x).toList ++ xs.filterMap f := by
  cases h : f x <;> simp [h]

theorem response_stepAll_cons (r : Response) (first : Step α) (rest : List (Step α)) :
    (r.stepAll (first :: rest)).value.2 = ((r.step first).value.2.stepAll rest).value.2 := rfl

theorem body_stepAll (r : Response) (steps : List (Step α)) :
    (r.stepAll steps).value.2.body = r.body ++ steps.filterMap Step.written? := by
  induction steps generalizing r with
  | nil => exact (List.append_nil r.body).symm
  | cons first rest ih =>
      rw [response_stepAll_cons, ih, body_step, List.append_assoc, filterMap_cons_toList]

/-- The source is held until the first closing. -/
theorem source_stepAll (r : Response) (steps : List (Step α)) :
    (r.stepAll steps).value.2.source = if steps.any Step.isClose then none else r.source := by
  induction steps generalizing r with
  | nil => rfl
  | cons first rest ih =>
      rw [response_stepAll_cons, ih, source_step, List.any_cons]
      cases first.isClose <;> simp

/-- The status is the last one set. -/
theorem status_stepAll (r : Response) (steps : List (Step α)) :
    (r.stepAll steps).value.2.status =
      (steps.filterMap Step.status?).getLast?.getD r.status := by
  induction steps generalizing r with
  | nil => rfl
  | cons first rest ih =>
      rw [response_stepAll_cons, ih, status_step, filterMap_cons_toList]
      cases first.status? <;> simp [List.getLast?_cons]

/-! ## Runs -/

/-- A run that begins with an opening, takes the steps and leads to the response. -/
inductive Reaches (opening : Opening α) : List (Step α) → Response → Prop where
  | start {r : Response} (h : (start opening).value = .ok r) : Reaches opening [] r
  | step {steps : List (Step α)} {r : Response} (prior : Reaches opening steps r)
      (last : Step α) : Reaches opening (steps ++ [last]) (r.step last).value.2

/-- To show something of all runs it is enough to show it of what the opening yields and to keep it
along each step. -/
theorem Reaches.induct {opening : Opening α}
    {motive : (steps : List (Step α)) → (r : Response) → Reaches opening steps r → Prop}
    (opened : ∀ h, motive [] opening.opened (.start h))
    (step : ∀ {steps r} (prior : Reaches opening steps r) (last : Step α),
      motive steps r prior → motive (steps ++ [last]) (r.step last).value.2 (prior.step last))
    {steps : List (Step α)} {r : Response} (run : Reaches opening steps r) :
    motive steps r run := by
  induction run with
  | start h =>
      obtain ⟨_, rfl⟩ := eq_opened_of_start h
      exact opened h
  | step prior last ih => exact step prior last ih

theorem stepAll_append (r : Response) (first rest : List (Step α)) :
    r.stepAll (first ++ rest) = (do
      let (answers, r) ← r.stepAll first
      let (later, r) ← r.stepAll rest
      pure (answers ++ later, r)) := by
  induction first generalizing r with
  | nil => simp [stepAll]
  | cons head tail ih => simp [stepAll, ih]

theorem response_stepAll_concat (r : Response) (steps : List (Step α)) (last : Step α) :
    (r.stepAll (steps ++ [last])).value.2 =
      ((r.stepAll steps).value.2.step last).value.2 := by
  rw [stepAll_append]
  rfl

theorem Reaches.stepAll {opening : Opening α} {before : List (Step α)} {r : Response}
    (prior : Reaches opening before r) (steps : List (Step α)) :
    Reaches opening (before ++ steps) (r.stepAll steps).value.2 := by
  induction steps generalizing before r with
  | nil => simpa [Response.stepAll] using prior
  | cons first rest ih => simpa [Response.stepAll] using ih (prior.step first)

theorem reaches_stepAll {opening : Opening α} (hUsable : opening.usable = true)
    (steps : List (Step α)) : Reaches opening steps (opening.opened.stepAll steps).value.2 := by
  have hStart : (start opening).value = .ok opening.opened := by
    rw [value_start, if_pos hUsable]
  exact (Reaches.start hStart).stepAll steps

/-- A run computes its response: the opening must be usable, and the steps are then taken from
what it opens. -/
theorem reaches_iff {opening : Opening α} {steps : List (Step α)} {r : Response} :
    Reaches opening steps r ↔
      opening.usable = true ∧ (opening.opened.stepAll steps).value.2 = r := by
  constructor
  · intro run
    induction run using Reaches.induct with
    | opened h => exact ⟨(eq_opened_of_start h).1, rfl⟩
    | step prior last ih =>
        obtain ⟨hUsable, rfl⟩ := ih
        exact ⟨hUsable, response_stepAll_concat _ _ _⟩
  · rintro ⟨hUsable, rfl⟩
    exact reaches_stepAll hUsable steps

/-- The source of the opening is held until the first closing. -/
theorem Reaches.source_eq {opening : Opening α} {steps : List (Step α)} {r : Response}
    (run : Reaches opening steps r) :
    r.source = if steps.any Step.isClose then none else opening.source?.bind Source.retained := by
  obtain ⟨-, rfl⟩ := reaches_iff.mp run
  rw [source_stepAll, source_opened]

end Response

/-! ## Endings -/

/-- What becomes of a response at the end of a run. -/
inductive Ending where
  | keep
  | split
  | handOff
  deriving DecidableEq, Repr

/-- What a run leaves behind. -/
inductive Outcome where
  | kept (r : Response)
  | parts (parts : UInt16 × Headers × List String)
  | message (result : Except HandoffError Message)

namespace Response

variable {α : Type} [ToString α]

def finish (r : Response) : Ending → Outcome
  | .keep => .kept r
  | .split => .parts r.split
  | .handOff => .message r.handOff

/-- A whole run with everything it reports and records: the opening, the steps unless the opening
fails, and the ending. -/
def run (opening : Opening α) (steps : List (Step α)) (ending : Ending) :
    Traced (Except Fault (List (Answer α) × Outcome)) := do
  match ← start opening with
  | .error fault => pure (.error fault)
  | .ok r => do
    let (answers, r) ← r.stepAll steps
    pure (.ok (answers, r.finish ending))

/-- Only a closing among the steps asks anything of a source, and only the first one finds it: the
steps after it begin without a source. -/
theorem calls_stepAll (r : Response) (steps : List (Step α)) :
    (r.stepAll steps).calls =
      if steps.any Step.isClose then (r.source.map fun source => source.release.calls).getD []
      else [] := by
  induction steps generalizing r with
  | nil => rfl
  | cons first rest ih =>
      have hCalls : (r.stepAll (first :: rest)).calls =
          (r.step first).calls ++ ((r.step first).value.2.stepAll rest).calls := by
        simp [stepAll]
      rw [hCalls, ih, calls_step, source_step, List.any_cons]
      cases hClose : first.isClose with
      | true => simp
      | false => simp

theorem calls_run (opening : Opening α) (steps : List (Step α)) (ending : Ending) :
    (run opening steps ending).calls =
      (start opening).calls ++
        if opening.usable then (opening.opened.stepAll steps).calls else [] := by
  rw [run, Traced.calls_bind, value_start]
  cases opening.usable <;> simp

end Response

end HttpReply
