import HttpReply.Proofs.Construction

/-!
The log of a run. Read as a list of lines, it tells the chunks of the body, each with its size and
with the length the body then had, and how the source was let go of. Nothing else is reported.
-/

namespace HttpReply

/-- What a log shows of an event. -/
structure LogLine where
  level : Level
  message : String
  fields : List (String × Nat) := []
  deriving DecidableEq, Repr

def Event.line (event : Event) : LogLine where
  level := event.level
  message := event.message
  fields := event.fields

namespace LogLine

/-- The line of a chunk of `size` bytes that brings the body to `length` bytes. -/
def write (size length : Nat) : LogLine where
  level := .trace
  message := "body write"
  fields := [("size", size), ("length", length)]

def closing : LogLine where
  level := .trace
  message := "closing body source"

/-- The line of a source that could not be closed. -/
def failure (fault : Fault) : LogLine where
  level := .warn
  message := "failed to close body source: " ++ fault.description

def IsWrite (line : LogLine) : Prop :=
  line.message = "body write"

instance (line : LogLine) : Decidable line.IsWrite :=
  inferInstanceAs (Decidable (line.message = _))

theorem isWrite_write (size length : Nat) : (write size length).IsWrite := rfl

theorem not_isWrite_closing : ¬ closing.IsWrite := by
  decide

theorem not_isWrite_failure (fault : Fault) : ¬ (failure fault).IsWrite := by
  intro h
  have hFirst := congrArg (fun message => message.toList.head?) h
  simp [failure, String.toList_append] at hFirst

/-- The lines of chunks that are written after `length` bytes, each with the sum of the bytes up to
its own end. -/
def writes (length : Nat) (chunks : List String) : List LogLine :=
  chunks.mapIdx fun i chunk => write chunk.utf8ByteSize (length + totalBytes (chunks.take (i + 1)))

theorem writes_cons (length : Nat) (chunk : String) (rest : List String) :
    writes length (chunk :: rest) =
      write chunk.utf8ByteSize (length + chunk.utf8ByteSize) ::
        writes (length + chunk.utf8ByteSize) rest := by
  simp [writes, List.mapIdx_cons, Nat.add_assoc]

theorem writes_append (length : Nat) (first rest : List String) :
    writes length (first ++ rest) =
      writes length first ++ writes (length + totalBytes first) rest := by
  induction first generalizing length with
  | nil => rfl
  | cons chunk first ih =>
      rw [List.cons_append, writes_cons, ih, writes_cons, List.cons_append, totalBytes_cons,
        Nat.add_assoc]

theorem isWrite_of_mem_writes {length : Nat} {chunks : List String} {line : LogLine}
    (h : line ∈ writes length chunks) : line.IsWrite := by
  obtain ⟨i, hi, rfl⟩ := List.mem_mapIdx.mp h
  exact isWrite_write _ _

end LogLine

/-- What letting go of a source reports: nothing unless it answers that it can be closed, and then
the closing, followed by the fault if it fails. -/
def Source.closingLines (source : Source) : List LogLine :=
  if source.isClosable.value.1 then
    .closing :: (source.isClosable.value.2.close.value.1.map .failure).toList
  else []

/-- What the first closing of a run reports. -/
def Opening.closingLines {α : Type} (opening : Opening α) : List LogLine :=
  ((opening.source?.bind Source.retained).map Source.closingLines).getD []

theorem Source.not_isWrite_of_mem_closingLines {source : Source} {line : LogLine}
    (h : line ∈ source.closingLines) : ¬ line.IsWrite := by
  rw [closingLines] at h
  split at h
  · rcases List.mem_cons.mp h with rfl | hFailure
    · exact LogLine.not_isWrite_closing
    · obtain ⟨fault, -, rfl⟩ := Option.map_eq_some_iff.mp (Option.mem_toList.mp hFailure)
      exact LogLine.not_isWrite_failure fault
  · cases h

namespace Traced

variable {α β : Type}

/-- The lines that lead to a value. -/
def log (x : Traced α) : List LogLine :=
  x.events.map Event.line

@[simp] theorem log_pure (a : α) : (Pure.pure a : Traced α).log = [] := rfl

@[simp] theorem log_bind (first : Traced α) (next : α → Traced β) :
    (first >>= next).log = first.log ++ (next first.value).log :=
  List.map_append

@[simp] theorem log_map (f : α → β) (x : Traced α) : (f <$> x).log = x.log := by
  rw [log, events_map, log]

@[simp] theorem log_report (event : Event) : (report event).log = [event.line] := rfl

end Traced

theorem Source.log_release (source : Source) : source.release.log = source.closingLines := by
  have hAsked : source.isClosable.log = [] := by rw [Traced.log, events_ask]; rfl
  rw [release, Traced.log_bind, hAsked, List.nil_append, closingLines]
  rcases source.isClosable.value with ⟨closable, rest⟩
  cases closable with
  | false => rfl
  | true =>
      have hClosed : rest.close.log = [] := by rw [Traced.log, events_ask]; rfl
      simp only [if_true, Traced.log_bind, Traced.log_report, hClosed]
      rcases rest.close.value with ⟨_ | fault, left⟩ <;> rfl

namespace Response

variable {α : Type} [ToString α]

theorem log_appendAll (r : Response) (chunks : List α) :
    (r.appendAll chunks).log = LogLine.writes r.length (chunks.map toString) := by
  induction chunks generalizing r with
  | nil => rfl
  | cons chunk rest ih =>
      rw [appendAll, Traced.log_bind, ih, List.map_cons, LogLine.writes_cons]
      rfl

theorem log_close (r : Response) :
    r.close.log = (r.source.map Source.closingLines).getD [] := by
  cases hSource : r.source with
  | none => simp [close, hSource]
  | some source => simp [close, hSource, Source.log_release]

/-- A step reports the chunk it writes, and a closing how the source is let go of. -/
theorem log_step (r : Response) (step : Step α) :
    (r.step step).log =
      LogLine.writes r.length step.written?.toList ++
        if step.isClose then (r.source.map Source.closingLines).getD [] else [] := by
  cases step with
  | close =>
      rw [← log_close]
      simp [Response.step, Step.isClose, Step.written?, LogLine.writes]
  | _ => rfl

/-! ## Runs -/

theorem log_build {κ ν : Type} [ToString κ] [ToString ν] (status : UInt16) (pairs : List (κ × ν))
    (source : Source) :
    (build status pairs source).log = (source.chunks?.map (LogLine.writes 0)).getD [] := by
  rw [Traced.log, events_build, chunks?_shape]
  cases source.chunks? with
  | none => rfl
  | some chunks =>
      have hLines := log_appendAll { withStatus status with headers := .ofPairs pairs } chunks
      rw [map_toString_texts] at hLines
      simp only [piecewise_eq]
      exact hLines

/-- An opening reports the chunks it writes, and nothing if it fails. -/
theorem log_start (opening : Opening α) :
    (start opening).log = if opening.usable then LogLine.writes 0 opening.chunks else [] := by
  cases opening with
  | build status pairs source =>
      rw [start, log_build, Opening.usable, Opening.chunks]
      cases hChunks : source.chunks? <;> simp [Opening.source?, hChunks]
  | buildFrom status headers source =>
      rw [start, log_build, Opening.usable, Opening.chunks]
      cases hChunks : source.chunks? <;> simp [Opening.source?, hChunks]
  | _ => rfl

theorem log_run (opening : Opening α) (steps : List (Step α)) (ending : Ending) :
    (run opening steps ending).log =
      (start opening).log ++
        if opening.usable then (opening.opened.stepAll steps).log else [] := by
  rw [run, Traced.log_bind, value_start]
  cases opening.usable <;> simp

/-- A run that takes one step more reports what the step reports in addition. -/
theorem log_run_concat {opening : Opening α} {steps : List (Step α)} {r : Response}
    (prior : Reaches opening steps r) (last : Step α) (ending : Ending) :
    (run opening (steps ++ [last]) ending).log =
      (run opening steps ending).log ++ (r.step last).log := by
  obtain ⟨hUsable, rfl⟩ := reaches_iff.mp prior
  rw [log_run, log_run, hUsable, if_pos rfl, if_pos rfl, List.append_assoc, stepAll_append]
  simp [stepAll]

/-! ## What the lines of a run tell -/

section Lines

variable {opening : Opening α} {steps : List (Step α)} {r : Response}

/-- A step after a run reports the chunk it writes. It reports how the source is let go of if it is
the first closing. -/
theorem Reaches.log_step (prior : Reaches opening steps r) (step : Step α) :
    (r.step step).log =
      LogLine.writes r.length step.written?.toList ++
        if step.isClose && !steps.any Step.isClose then opening.closingLines else [] := by
  rw [Response.log_step, prior.source_eq, Opening.closingLines]
  cases step.isClose <;> cases steps.any Step.isClose <;> rfl

theorem filter_isWrite_writes (length : Nat) (chunks : List String) :
    (LogLine.writes length chunks).filter (·.IsWrite) = LogLine.writes length chunks := by
  apply List.filter_eq_self.mpr
  intro line hLine
  exact decide_eq_true (LogLine.isWrite_of_mem_writes hLine)

theorem filter_not_isWrite_writes (length : Nat) (chunks : List String) :
    (LogLine.writes length chunks).filter (¬ ·.IsWrite) = [] := by
  apply List.filter_eq_nil_iff.mpr
  intro line hLine
  simpa using LogLine.isWrite_of_mem_writes hLine

omit [ToString α] in
theorem not_isWrite_of_mem_closingLines {line : LogLine} (h : line ∈ opening.closingLines) :
    ¬ line.IsWrite := by
  rw [Opening.closingLines] at h
  cases hSource : opening.source?.bind Source.retained with
  | none => simp [hSource] at h
  | some source =>
      have hSome : line ∈ source.closingLines := by simpa [hSource] using h
      exact Source.not_isWrite_of_mem_closingLines hSome

omit [ToString α] in
theorem filter_isWrite_closingLines (closed : Bool) :
    (if closed then opening.closingLines else []).filter (·.IsWrite) = [] := by
  apply List.filter_eq_nil_iff.mpr
  intro line hLine
  cases closed with
  | false => cases hLine
  | true => simpa using not_isWrite_of_mem_closingLines hLine

omit [ToString α] in
theorem filter_not_isWrite_closingLines (closed : Bool) :
    (if closed then opening.closingLines else []).filter (¬ ·.IsWrite) =
      if closed then opening.closingLines else [] := by
  apply List.filter_eq_self.mpr
  intro line hLine
  cases closed with
  | false => cases hLine
  | true => exact decide_eq_true (not_isWrite_of_mem_closingLines hLine)

theorem log_run_nil (h : opening.usable = true) (ending : Ending) :
    (Response.run opening [] ending).log = LogLine.writes 0 opening.chunks := by
  have hNone : (opening.opened.stepAll ([] : List (Step α))).log = [] := rfl
  rw [log_run, log_start, h, if_pos rfl, if_pos rfl, hNone, List.append_nil]

/-- The lines of the writes follow the body. -/
theorem Reaches.filter_isWrite_log (run : Reaches opening steps r) (ending : Ending) :
    (Response.run opening steps ending).log.filter (·.IsWrite) = LogLine.writes 0 r.body := by
  induction run using Reaches.induct with
  | opened h => rw [log_run_nil (eq_opened_of_start h).1, filter_isWrite_writes, body_opened]
  | step prior last ih =>
      rw [log_run_concat prior, List.filter_append, ih, prior.log_step, List.filter_append,
        filter_isWrite_writes, filter_isWrite_closingLines, List.append_nil, body_step,
        LogLine.writes_append, Nat.zero_add, prior.counted]

/-- The other lines of a run are those of its first closing. -/
theorem Reaches.filter_not_isWrite_log (run : Reaches opening steps r) (ending : Ending) :
    (Response.run opening steps ending).log.filter (¬ ·.IsWrite) =
      if steps.any Step.isClose then opening.closingLines else [] := by
  induction run using Reaches.induct with
  | opened h => rw [log_run_nil (eq_opened_of_start h).1, filter_not_isWrite_writes]; rfl
  | @step steps r prior last ih =>
      rw [log_run_concat prior, List.filter_append, ih, prior.log_step, List.filter_append,
        filter_not_isWrite_writes, filter_not_isWrite_closingLines, List.nil_append,
        List.any_append]
      cases hClosed : steps.any Step.isClose <;> cases hLast : last.isClose <;> simp [hLast]

end Lines

/-- An opening that fails reports nothing. In any run that gets under way the lines of writes are
those of the chunks of the body in their order, and the other lines are those of the first closing:
one if a source is held that can still be closed, and after it a warning with the description of
the fault, whatever it is, exactly if the closing fails. No other step reports anything. -/
theorem log_of_run (opening : Opening α) :
    (∀ fault, (start opening).value = .error fault →
      ∀ steps ending, (run opening steps ending).log = []) ∧
    ∀ steps r, Reaches opening steps r → ∀ ending,
      (run opening steps ending).log.filter (·.message = "body write") =
        (r.body.mapIdx fun i chunk =>
          { level := .trace
            message := "body write"
            fields := [("size", chunk.utf8ByteSize),
              ("length", totalBytes (r.body.take (i + 1)))] }) ∧
      (run opening steps ending).log.filter (·.message ≠ "body write") =
        (if steps.any Step.isClose then opening.closingLines else []) ∧
      ∀ step,
        (run opening (steps ++ [step]) ending).log =
          (run opening steps ending).log ++ (r.step step).log ∧
        (r.step step).log =
          (step.written?.toList.map fun text =>
            { level := .trace
              message := "body write"
              fields := [("size", text.utf8ByteSize),
                ("length", r.length + text.utf8ByteSize)] }) ++
            if step.isClose && !steps.any Step.isClose then opening.closingLines else [] := by
  constructor
  · intro fault hFault steps ending
    have hUsable : opening.usable = false := by
      cases hUsable : opening.usable with
      | false => rfl
      | true => simp [value_start, hUsable] at hFault
    rw [log_run, log_start, hUsable]
    rfl
  · intro steps r run ending
    refine ⟨?_, run.filter_not_isWrite_log ending, ?_⟩
    · have hLines := run.filter_isWrite_log ending
      simp only [LogLine.writes, Nat.zero_add] at hLines
      exact hLines
    · intro step
      refine ⟨log_run_concat run step ending, ?_⟩
      rw [run.log_step]
      cases step.written? <;> simp [LogLine.writes, LogLine.write]

/-- A source behind a handle whose closing fails: the first of two closings reports the fault and
the second nothing. A fault of the operating system is reported by its own description, and an
opening without a body reports nothing at all. -/
theorem log_of_failing_close :
    let source : Source := .wrapped (.scripted
      { supply := .once ["a", "é"], closable := [true], closeFault := some (.other "gone") })
    let fault : Fault :=
      { kind := ⟨"Uncategorized"⟩
        message := "Input/output error (os error 5)"
        description :=
          "Os \x7b code: 5, kind: Uncategorized, message: \"Input/output error\" \x7d" }
    let opening : Opening String := .build 200 [] source
    let other : Opening String :=
      .build 200 [] (.scripted { text := some "", closable := [true], closeFault := some fault })
    let refused : Opening String := .build 200 [] .inert
    let steps : List (Step String) := [.close, .write "x", .close]
    (∃ r, Reaches opening steps r ∧ r.body = ["a", "é", "x"] ∧
      (run opening steps .handOff).log.filter (·.message = "body write") =
        [.write 1 1, .write 2 3, .write 1 4] ∧
      (run opening steps .handOff).log.filter (·.message ≠ "body write") =
        [⟨.trace, "closing body source", []⟩,
          ⟨.warn, "failed to close body source: Custom \x7b kind: Other, error: \"gone\" \x7d",
            []⟩]) ∧
    (run other steps .keep).log.filter (·.message ≠ "body write") =
      [⟨.trace, "closing body source", []⟩,
        ⟨.warn, "failed to close body source: " ++ fault.description, []⟩] ∧
    (start refused).value = .error .unusableBody ∧ (run refused steps .keep).log = [] := by
  intro source fault opening other refused steps
  have prior : Reaches opening steps _ := reaches_stepAll rfl steps
  have prior' : Reaches other steps _ := reaches_stepAll rfl steps
  obtain ⟨hWrites, hOthers, -⟩ := (log_of_run opening).2 steps _ prior .handOff
  obtain ⟨-, hOthers', -⟩ := (log_of_run other).2 steps _ prior' .keep
  have hBody : (opening.opened.stepAll steps).value.2.body = ["a", "é", "x"] := by decide
  rw [hBody] at hWrites
  exact ⟨⟨_, prior, hBody, hWrites.trans (by decide), hOthers.trans (by decide)⟩,
    hOthers'.trans (by decide), rfl, (log_of_run refused).1 .unusableBody rfl steps .keep⟩

end Response

end HttpReply
