import HttpReply.Proofs.Equality
import HttpReply.Proofs.LengthField

/-!
Steps in different orders. Writes, header changes, settings of the status and closings do not
depend on one another, so all orders that keep each of the four sequences lead to the same
response. Only the place where the first write puts the content length among the headers depends on
the order, and not even that if the key is there from the beginning.
-/

namespace HttpReply

/-- One sequence made of the members of several, each of them in its own order: at each place, the
next member of any sequence that is not used up. -/
inductive Interleaving {β : Type} : List (List β) → List β → Prop where
  | done {lists : List (List β)} (h : ∀ list ∈ lists, list = []) : Interleaving lists []
  | next {lists : List (List β)} {x : β} {rest all : List β} (i : Nat)
      (h : lists[i]? = some (x :: rest)) (later : Interleaving (lists.set i rest) all) :
      Interleaving lists (x :: all)

namespace Interleaving

variable {β γ K : Type} {lists : List (List β)} {all : List β}

theorem split_of_getElem? {i : Nat} {list : List β} (h : lists[i]? = some list)
    (other : List β) : ∃ before after, lists = before ++ list :: after ∧
      lists.set i other = before ++ other :: after := by
  obtain ⟨hIndex, rfl⟩ := List.getElem?_eq_some_iff.mp h
  obtain ⟨before, after, hLists, -, hSet⟩ := List.exists_of_set hIndex
  exact ⟨before, after, hLists, hSet⟩

/-- Nothing is lost or added. -/
theorem perm (schedule : Interleaving lists all) : all.Perm lists.flatten := by
  induction schedule with
  | done h => rw [List.flatten_eq_nil_iff.mpr h]
  | @next lists x rest all i h later ih =>
      obtain ⟨before, after, hLists, hSet⟩ := split_of_getElem? h rest
      rw [hSet] at ih
      rw [hLists]
      simp only [List.flatten_append, List.flatten_cons, List.cons_append] at ih ⊢
      exact (ih.cons x).trans List.perm_middle.symm

/-- No member of one sequence is of the kind of a member of another. -/
def Apart (kind : β → K) (lists : List (List β)) : Prop :=
  lists.Pairwise fun a b => ∀ x ∈ a, ∀ y ∈ b, kind x ≠ kind y

section Apart

variable {kind : β → K} {before after : List (List β)} {x : β} {rest : List β}

theorem Apart.of_taken (apart : Apart kind (before ++ (x :: rest) :: after)) :
    Apart kind (before ++ rest :: after) := by
  obtain ⟨hBefore, hTail, hAcross⟩ := List.pairwise_append.mp apart
  obtain ⟨hHead, hAfter⟩ := List.pairwise_cons.mp hTail
  refine List.pairwise_append.mpr ⟨hBefore, List.pairwise_cons.mpr ⟨?_, hAfter⟩, ?_⟩
  · intro b hb y hy
    exact hHead b hb y (List.mem_cons_of_mem x hy)
  · intro a ha b hb y hy z hz
    rcases List.mem_cons.mp hb with rfl | hb
    · exact hAcross a ha _ List.mem_cons_self y hy z (List.mem_cons_of_mem x hz)
    · exact hAcross a ha b (List.mem_cons_of_mem _ hb) y hy z hz

theorem Apart.kind_ne_of_mem_before (apart : Apart kind (before ++ (x :: rest) :: after)) {y : β}
    (h : y ∈ before.flatten) : kind y ≠ kind x := by
  obtain ⟨a, ha, hy⟩ := List.mem_flatten.mp h
  obtain ⟨-, -, hAcross⟩ := List.pairwise_append.mp apart
  exact hAcross a ha _ List.mem_cons_self y hy x List.mem_cons_self

/-- What is selected from one of the sequences only comes in the order of that sequence: where a
member is selected, the sequences before its own have nothing that is. -/
theorem filterMap_eq (schedule : Interleaving lists all) (apart : Apart kind lists)
    {f : β → Option γ} {k : K} (hKind : ∀ x, f x ≠ none → kind x = k) :
    all.filterMap f = lists.flatten.filterMap f := by
  induction schedule with
  | done h => rw [List.flatten_eq_nil_iff.mpr h]
  | @next lists x rest all i h later ih =>
      obtain ⟨before, after, rfl, hSet⟩ := split_of_getElem? h rest
      rw [hSet] at ih
      have hAll := ih apart.of_taken
      cases hx : f x with
      | none => simpa [hx] using hAll
      | some value =>
          have hNone : before.flatten.filterMap f = [] := by
            rw [List.filterMap_eq_nil_iff]
            intro y hy
            by_contra hSome
            have hSame : kind y = kind x :=
              (hKind y hSome).trans (hKind x (by simp [hx])).symm
            exact apart.kind_ne_of_mem_before hy hSame
          simpa [hx, hNone] using hAll

end Apart

end Interleaving

/-! ## Kinds of steps -/

namespace Step

/-- What sort of thing a step does. -/
inductive Kind where
  | write
  | edit
  | status
  | close
  | query
  deriving DecidableEq, Repr

def kind {α : Type} : Step α → Kind
  | .write _ | .append _ => .write
  | .setHeader _ _ | .deleteHeader _ | .setContentType _ => .edit
  | .setStatus _ => .status
  | .close => .close
  | .query _ => .query

variable {α : Type} [ToString α]

theorem kind_of_written {step : Step α} (h : step.written? ≠ none) : step.kind = .write := by
  cases step with
  | write chunk => rfl
  | append chunk => rfl
  | _ => exact absurd rfl h

theorem kind_of_edit {step : Step α} (h : step.edit? ≠ none) : step.kind = .edit := by
  cases step with
  | setHeader key value => rfl
  | deleteHeader key => rfl
  | setContentType value => rfl
  | _ => exact absurd rfl h

omit [ToString α] in
theorem kind_of_status {step : Step α} (h : step.status? ≠ none) : step.kind = .status := by
  cases step with
  | setStatus status => rfl
  | _ => exact absurd rfl h

end Step

/-! ## Removals and what they answer -/

/-- The keys that a history removes, each with the answer to its removal. -/
def Headers.removals (headers : Headers) (edits : List Edit) : List (String × Option String) :=
  (edits.zip (headers.editAll edits).1).filterMap fun
    | (.remove key, answer) => some (key, answer)
    | _ => none

variable {α : Type} [ToString α]

/-- The keys that steps remove, each with the answer to its removal. -/
def Response.removals (r : Response) (steps : List (Step α)) : List (String × Option String) :=
  (steps.zip (r.stepAll steps).value.1).filterMap fun
    | (.deleteHeader key, .optionalText answer) => some (key, answer)
    | _ => none

namespace Headers

variable {a b : Headers} {key : String}

theorem removals_cons (headers : Headers) (edit : Edit) (rest : List Edit) :
    headers.removals (edit :: rest) =
      (match edit with
        | .set _ _ => []
        | .remove key => [(key, headers.get? key)]) ++ (headers.edit edit).2.removals rest := by
  cases edit <;> rfl

/-- Removals of other keys are answered alike if the headers agree apart from one key. -/
theorem removals_congr (h : a.erase key = b.erase key) {edits : List Edit}
    (hApart : ∀ edit ∈ edits, edit.key ≠ key) : a.removals edits = b.removals edits := by
  induction edits generalizing a b with
  | nil => rfl
  | cons edit rest ih =>
      obtain ⟨hKey, hRest⟩ := List.forall_mem_cons.mp hApart
      rw [removals_cons, removals_cons, ih (erase_edit_congr h edit) hRest]
      cases edit with
      | set k v => rfl
      | remove k =>
          have hGet : a.get? k = b.get? k := get?_of_erase_eq h hKey
          simp only [hGet]

theorem keys_edit_congr (h : a.keys = b.keys) (edit : Edit) :
    (a.edit edit).2.keys = (b.edit edit).2.keys := by
  cases edit with
  | set k v =>
      change (a.set k v).keys = (b.set k v).keys
      rw [keys_set, keys_set, h]
  | remove k =>
      change (a.erase k).keys = (b.erase k).keys
      rw [keys_erase, keys_erase, h]

theorem keys_editAll_congr (h : a.keys = b.keys) (edits : List Edit) :
    (a.editAll edits).2.keys = (b.editAll edits).2.keys := by
  apply related_editAll (R := fun a b => a.keys = b.keys) _ h
  intro a b edit hSame
  exact keys_edit_congr hSame edit

theorem mem_keys_edit_of_ne (h : key ∈ a.keys) {edit : Edit} (hKey : edit.key ≠ key) :
    key ∈ (a.edit edit).2.keys := by
  cases edit with
  | set k v => exact mem_keys_set.mpr (.inr h)
  | remove k => exact mem_keys_erase.mpr ⟨h, Ne.symm hKey⟩

end Headers

namespace Response

open Headers

variable {r : Response} {steps : List (Step α)}

theorem removals_cons (first : Step α) (rest : List (Step α)) :
    r.removals (first :: rest) =
      (match first with
        | .deleteHeader key => [(key, r.headers.get? key)]
        | _ => []) ++ (r.step first).value.2.removals rest := by
  cases first <;> rfl

/-- As long as no change touches the content length, removals are answered as if nothing were
written. -/
theorem removals_eq (hApart : ∀ edit ∈ steps.filterMap Step.edit?, edit.key ≠ contentLength) :
    r.removals steps = r.headers.removals (steps.filterMap Step.edit?) := by
  induction steps generalizing r with
  | nil => rfl
  | cons first rest ih =>
      rw [filterMap_cons_toList, List.forall_mem_append] at hApart
      obtain ⟨hFirst, hRest⟩ := hApart
      have hLater := removals_congr (erase_contentLength_step r first) hRest
      rw [removals_cons, ih hRest, hLater, filterMap_cons_toList]
      cases first <;> simp [Step.edit?, Headers.editAll, Headers.removals_cons]

/-- A content length that is there from the beginning keeps its place in every write, so the keys
come in the order in which the changes alone leave them. -/
theorem keys_stepAll (hApart : ∀ edit ∈ steps.filterMap Step.edit?, edit.key ≠ contentLength)
    (h : contentLength ∈ r.headers.keys) :
    (r.stepAll steps).value.2.headers.keys =
      (r.headers.editAll (steps.filterMap Step.edit?)).2.keys := by
  induction steps generalizing r with
  | nil => rfl
  | cons first rest ih =>
      rw [filterMap_cons_toList, List.forall_mem_append] at hApart
      obtain ⟨hFirst, hRest⟩ := hApart
      have hStep : (r.step first).value.2.headers.keys =
          (r.headers.editAll first.edit?.toList).2.keys := by
        cases first with
        | write chunk => exact keys_set_of_mem _ h
        | append chunk => exact keys_set_of_mem _ h
        | _ => rfl
      have hMem : contentLength ∈ (r.step first).value.2.headers.keys := by
        rw [hStep]
        cases hEdit : first.edit? with
        | none => exact h
        | some edit => exact mem_keys_edit_of_ne h (hFirst edit (by simp [hEdit]))
      rw [response_stepAll_cons, ih hRest hMem, filterMap_cons_toList, editAll_append]
      exact keys_editAll_congr hStep _

/-- Only writes touch the content length if no change does. -/
theorem touches_eq (hApart : ∀ edit ∈ steps.filterMap Step.edit?, edit.key ≠ contentLength) :
    steps.filterMap Step.touch? = (steps.filterMap Step.written?).map fun _ => .written := by
  induction steps with
  | nil => rfl
  | cons first rest ih =>
      rw [filterMap_cons_toList, List.forall_mem_append] at hApart
      obtain ⟨hFirst, hRest⟩ := hApart
      have hTouch : first.touch? = first.written?.map fun _ => .written := by
        cases first with
        | setHeader key value => exact if_neg (hFirst (.set _ _) List.mem_cons_self)
        | deleteHeader key => exact if_neg (hFirst (.remove key) List.mem_cons_self)
        | _ => rfl
      rw [filterMap_cons_toList, filterMap_cons_toList, ih hRest, hTouch, List.map_append,
        Option.toList_map]

theorem follows_own_reading (r : Response) :
    r.Follows ((r.headers.get? contentLength).map .put) := by
  rw [Follows]
  cases r.headers.get? contentLength <;> rfl

/-- What the content length reads after steps that change other headers only: that depends on what
is written and not on when. -/
theorem get?_contentLength_stepAll
    (hApart : ∀ edit ∈ steps.filterMap Step.edit?, edit.key ≠ contentLength) :
    (r.stepAll steps).value.2.headers.get? contentLength =
      Touch.textAfter (r.length + totalBytes (steps.filterMap Step.written?))
        (((steps.filterMap Step.written?).map fun _ => Touch.written).getLast?.or
          ((r.headers.get? contentLength).map .put)) := by
  have hFollows := (follows_own_reading r).stepAll steps
  rwa [touches_eq hApart, Follows, length_stepAll] at hFollows

/-- The same writes and the same changes, in whatever order to one another, leave every key with the
same reading. -/
theorem get?_stepAll_congr {first second : List (Step α)}
    (hApart : ∀ edit ∈ first.filterMap Step.edit?, edit.key ≠ contentLength)
    (hWritten : first.filterMap Step.written? = second.filterMap Step.written?)
    (hEdited : first.filterMap Step.edit? = second.filterMap Step.edit?) (key : String) :
    (r.stepAll first).value.2.headers.get? key = (r.stepAll second).value.2.headers.get? key := by
  by_cases hKey : key = contentLength
  · have hApart' := hApart
    rw [hEdited] at hApart'
    rw [hKey, get?_contentLength_stepAll hApart, get?_contentLength_stepAll hApart', hWritten]
  · apply get?_of_erase_eq _ hKey
    rw [erase_contentLength_stepAll, erase_contentLength_stepAll, hEdited]

/-! ## Orders of steps -/

section Orders

variable {writes edits statuses closings first second : List (Step α)}
  (hWrites : ∀ step ∈ writes, step.kind = .write) (hEdits : ∀ step ∈ edits, step.kind = .edit)
  (hStatuses : ∀ step ∈ statuses, step.kind = .status)
  (hClosings : ∀ step ∈ closings, step.kind = .close)

include hWrites hEdits hStatuses hClosings

omit [ToString α] in
/-- What is selected by its kind comes in one and the same order. -/
theorem filterMap_eq_of_interleavings
    (hFirst : Interleaving [writes, edits, statuses, closings] first)
    (hSecond : Interleaving [writes, edits, statuses, closings] second)
    {γ : Type} {f : Step α → Option γ} {k : Step.Kind}
    (hKind : ∀ step, f step ≠ none → step.kind = k) : first.filterMap f = second.filterMap f := by
  have apart : Interleaving.Apart Step.kind [writes, edits, statuses, closings] := by
    grind [Interleaving.Apart]
  rw [hFirst.filterMap_eq apart hKind, hSecond.filterMap_eq apart hKind]

omit hEdits in
/-- The changes among all steps are those among the edits. -/
theorem exists_edit_of_interleaving
    (hFirst : Interleaving [writes, edits, statuses, closings] first) {edit : Edit}
    (h : edit ∈ first.filterMap Step.edit?) : ∃ step ∈ edits, step.edit? = some edit := by
  obtain ⟨step, hStep, hEdit⟩ := List.mem_filterMap.mp h
  have hKind : step.kind = .edit := Step.kind_of_edit (by simp [hEdit])
  have hList : step ∈ writes ∨ step ∈ edits ∨ step ∈ statuses ∨ step ∈ closings := by
    simpa using hFirst.perm.mem_iff.mp hStep
  rcases hList with hMem | hMem | hMem | hMem
  · simp [hWrites step hMem] at hKind
  · exact ⟨step, hMem, hEdit⟩
  · simp [hStatuses step hMem] at hKind
  · simp [hClosings step hMem] at hKind

end Orders

/-- However writes, changes of headers other than the content length, settings of the status and
closings are interleaved, each sort in its order, the response comes out the same and removals are
answered alike. Only the place of the content length may differ, and it does not if the content
length was there from the beginning. -/
theorem interleavings_agree (r : Response)
    {writes edits statuses closings first second : List (Step α)}
    (hWrites : ∀ step ∈ writes, step.kind = .write)
    (hEdits : ∀ step ∈ edits, step.kind = .edit)
    (hApart : ∀ step ∈ edits, ∀ edit, step.edit? = some edit → edit.key ≠ contentLength)
    (hStatuses : ∀ step ∈ statuses, step.kind = .status)
    (hClosings : ∀ step ∈ closings, step.kind = .close)
    (hFirst : Interleaving [writes, edits, statuses, closings] first)
    (hSecond : Interleaving [writes, edits, statuses, closings] second) :
    let a := (r.stepAll first).value.2
    let b := (r.stepAll second).value.2
    a.status = b.status ∧ a.body = b.body ∧ a.length = b.length ∧ a.source = b.source ∧
    (a.headers == b.headers) = true ∧
    a.headers.keys.filter (· ≠ contentLength) = b.headers.keys.filter (· ≠ contentLength) ∧
    r.removals first = r.removals second ∧
    (contentLength ∈ r.headers.keys → a.headers = b.headers) := by
  have hSame {γ : Type} {f : Step α → Option γ} {k : Step.Kind}
      (hKind : ∀ step, f step ≠ none → step.kind = k) : first.filterMap f = second.filterMap f :=
    filterMap_eq_of_interleavings hWrites hEdits hStatuses hClosings hFirst hSecond hKind
  have hWritten := hSame fun _ => Step.kind_of_written
  have hEdited := hSame fun _ => Step.kind_of_edit
  have hStatus := hSame fun _ => Step.kind_of_status
  have hClosed : first.any Step.isClose = second.any Step.isClose :=
    (hFirst.perm.trans hSecond.perm.symm).any_eq
  have hOther : ∀ edit ∈ first.filterMap Step.edit?, edit.key ≠ contentLength := by
    intro edit hEdit
    obtain ⟨step, hStep, hSome⟩ :=
      exists_edit_of_interleaving hWrites hStatuses hClosings hFirst hEdit
    exact hApart step hStep edit hSome
  have hOther' : ∀ edit ∈ second.filterMap Step.edit?, edit.key ≠ contentLength := by
    rwa [← hEdited]
  have hGet (key : String) : (r.stepAll first).value.2.headers.get? key =
      (r.stepAll second).value.2.headers.get? key :=
    get?_stepAll_congr hOther hWritten hEdited key
  refine ⟨?_, ?_, ?_, ?_, beq_iff_get?.mpr hGet, ?_, ?_, ?_⟩
  · rw [status_stepAll, status_stepAll, hStatus]
  · rw [body_stepAll, body_stepAll, hWritten]
  · rw [length_stepAll, length_stepAll, hWritten]
  · rw [source_stepAll, source_stepAll, hClosed]
  · rw [← keys_erase, ← keys_erase, erase_contentLength_stepAll, erase_contentLength_stepAll,
      hEdited]
  · rw [removals_eq hOther, removals_eq hOther', hEdited]
  · intro hPresent
    apply eq_of_keys_eq _ hGet
    rw [keys_stepAll hOther hPresent, keys_stepAll hOther' hPresent, hEdited]

/-- Two orders of the same steps, the writes spread over the others and all at the end. The content
length stands in different places, and in the same if a pair had put it there. -/
theorem interleavings_agree_of_late_writes :
    let writes : List (Step String) := [.write "a", .append "é"]
    let edits : List (Step String) := [.setHeader "A" "1", .deleteHeader "B", .setContentType "t"]
    let statuses : List (Step String) := [.setStatus 404]
    let closings : List (Step String) := [.close, .close]
    let first : List (Step String) :=
      [.write "a", .setHeader "A" "1", .close, .append "é", .deleteHeader "B", .setStatus 404,
        .setContentType "t", .close]
    let second : List (Step String) :=
      [.setStatus 404, .setHeader "A" "1", .deleteHeader "B", .close, .close, .setContentType "t",
        .write "a", .append "é"]
    let r : Response := { withStatus 200 with headers := .ofPairs [("B", "2")] }
    let counted : Response := { r with headers := .ofPairs [("Content-Length", "0"), ("B", "2")] }
    Interleaving [writes, edits, statuses, closings] first ∧
    Interleaving [writes, edits, statuses, closings] second ∧
    ((r.stepAll first).value.2.headers == (r.stepAll second).value.2.headers) = true ∧
    (r.stepAll first).value.2.headers.keys = ["Content-Length", "A", "Content-Type"] ∧
    (r.stepAll second).value.2.headers.keys = ["A", "Content-Type", "Content-Length"] ∧
    r.removals second = [("B", some "2")] ∧ r.removals first = r.removals second ∧
    (counted.stepAll first).value.2.headers = (counted.stepAll second).value.2.headers := by
  intro writes edits statuses closings first second r counted
  have hFirst : Interleaving [writes, edits, statuses, closings] first :=
    .next 0 rfl (.next 1 rfl (.next 3 rfl (.next 0 rfl (.next 1 rfl (.next 2 rfl (.next 1 rfl
      (.next 3 rfl (.done (by simp)))))))))
  have hSecond : Interleaving [writes, edits, statuses, closings] second :=
    .next 2 rfl (.next 1 rfl (.next 1 rfl (.next 3 rfl (.next 3 rfl (.next 1 rfl (.next 0 rfl
      (.next 0 rfl (.done (by simp)))))))))
  have hApart : ∀ step ∈ edits, ∀ edit, step.edit? = some edit → edit.key ≠ contentLength := by
    simp only [edits, List.forall_mem_cons, Step.edit?, Option.some.injEq, forall_eq', Edit.key]
    decide
  have hAgree (r : Response) := interleavings_agree r (by simp [writes, Step.kind])
    (by simp [edits, Step.kind]) hApart (by simp [statuses, Step.kind])
    (by simp [closings, Step.kind]) hFirst hSecond
  obtain ⟨-, -, -, -, hEqual, -, hRemovals, -⟩ := hAgree r
  obtain ⟨-, -, -, -, -, -, -, hPlace⟩ := hAgree counted
  exact ⟨hFirst, hSecond, hEqual, by decide, by decide, by decide, hRemovals, hPlace (by decide)⟩

end Response

end HttpReply
