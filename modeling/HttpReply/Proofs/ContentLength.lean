import HttpReply.Headers.Lemmas
import HttpReply.Proofs.Body

/-!
The `Content-Length` header over whole runs. It need not agree with the count of bytes: a pair of
the opening, a setting and a removal all touch the same key. What it reads is decided by the last
of these events and the writes.
-/

namespace HttpReply

/-- An event that touches the key of the content length. -/
inductive Touch where
  /-- A chunk is written. -/
  | written
  /-- A text is put under the key, by a pair of the opening or by a setting. -/
  | put (text : String)
  | removed
  deriving DecidableEq, Repr

/-- What the key holds after its last touch, in a response that counts `length` bytes. -/
def Touch.textAfter (length : Nat) : Option Touch → Option String
  | some .written => some (toString length)
  | some (.put text) => some text
  | some .removed => none
  | none => none

/-- Putting a text under a key touches the content length only if the key is exactly its own. -/
def Touch.put? (key text : String) : Option Touch :=
  if key = Headers.contentLength then some (.put text) else none

variable {α κ ν : Type} [ToString α] [ToString κ] [ToString ν]

/-- The touches of an opening: those of its pairs, and then one for each chunk. -/
def Opening.touches (opening : Opening α) : List Touch :=
  (opening.pairs.filterMap fun pair => Touch.put? pair.1 pair.2) ++
    opening.chunks.map fun _ => .written

/-- The touch of a step, if it is one. -/
def Step.touch? : Step α → Option Touch
  | .write _ | .append _ => some .written
  | .setHeader key value => Touch.put? (toString key) (toString value)
  | .deleteHeader key => if key = Headers.contentLength then some .removed else none
  | .setContentType _ | .setStatus _ | .close | .query _ => none

namespace Response

/-- The content length reads as its last touch left it. -/
def Follows (r : Response) (last : Option Touch) : Prop :=
  r.headers.get? Headers.contentLength = Touch.textAfter r.length last

theorem follows_append (r : Response) (chunk : α) :
    (r.append chunk).value.Follows (some .written) := by
  rw [Follows, headers_append, Headers.get?_set]
  exact if_pos rfl

theorem Follows.setHeader {r : Response} {last : Option Touch} (follows : r.Follows last)
    (key : κ) (value : ν) :
    (r.setHeader key value).Follows ((Touch.put? (toString key) (toString value)).or last) := by
  rw [Follows, Response.setHeader, Headers.get?_set, Touch.put?]
  by_cases h : toString key = Headers.contentLength
  · rw [if_pos h.symm, if_pos h]
    rfl
  · rw [if_neg (Ne.symm h), if_neg h]
    exact follows

/-- Writing chunks touches the key once for each of them, and each makes its own write the last
touch for those that follow. Without any the header is left as it was. -/
theorem Follows.appendAll {r : Response} {last : Option Touch} (follows : r.Follows last)
    (chunks : List α) :
    (r.appendAll chunks).value.Follows ((chunks.map fun _ => Touch.written).getLast?.or last) := by
  induction chunks generalizing r last with
  | nil => exact follows
  | cons chunk rest ih =>
      have hLast : ((chunk :: rest).map fun _ => Touch.written).getLast?.or last =
          (rest.map fun _ => Touch.written).getLast?.or (some .written) := by
        rw [List.map_cons, List.getLast?_cons, Option.or_some, Option.some_or]
      rw [hLast]
      exact ih (follows_append r chunk)

/-- The pairs that touch the key are those from which a look-up takes the last. -/
theorem follows_withPairs (status : UInt16) (pairs : List (String × String)) :
    Follows { withStatus status with headers := .ofPairs pairs }
      (pairs.filterMap fun pair => Touch.put? pair.1 pair.2).getLast? := by
  have hTouches : (pairs.filterMap fun pair => Touch.put? pair.1 pair.2) =
      (pairs.filterMap fun pair =>
        if pair.1 = Headers.contentLength then some pair.2 else none).map .put := by
    rw [List.map_filterMap]
    congr 1
    funext pair
    by_cases h : pair.1 = Headers.contentLength <;> simp [Touch.put?, h]
  rw [Follows, Headers.get?_ofPairs, hTouches, List.getLast?_map]
  cases (List.filterMap _ pairs).getLast? <;> rfl

theorem follows_opened (opening : Opening α) :
    opening.opened.Follows opening.touches.getLast? := by
  rw [Opening.touches, List.getLast?_append]
  exact (follows_withPairs opening.status opening.pairs).appendAll opening.chunks

/-- Each step moves the last touch to its own if it is one, and otherwise leaves the header as it
reads. -/
theorem Follows.step {r : Response} {last : Option Touch} (follows : r.Follows last)
    (step : Step α) : (r.step step).value.2.Follows (step.touch?.or last) := by
  cases step with
  | write chunk => exact follows_append r chunk
  | append chunk => exact follows_append r chunk
  | setHeader key value => exact follows.setHeader key value
  | setContentType value => exact follows.setHeader Headers.contentType value
  | deleteHeader key =>
      change (r.headers.erase key).get? Headers.contentLength =
        Touch.textAfter r.length (Option.or (if key = Headers.contentLength then _ else _) last)
      rw [Headers.get?_erase]
      by_cases h : key = Headers.contentLength
      · rw [if_pos h.symm, if_pos h]
        rfl
      · rw [if_neg (Ne.symm h), if_neg h]
        exact follows
  | setStatus status => exact follows
  | close => exact follows
  | query query => exact follows

/-- The count of bytes changes in a write only, and every write is a touch. -/
theorem length_step_of_no_touch (r : Response) {step : Step α} (h : step.touch? = none) :
    (r.step step).value.2.length = r.length := by
  cases step with
  | write chunk => cases h
  | append chunk => cases h
  | _ => rfl

theorem Follows.stepAll {r : Response} {last : Option Touch} (follows : r.Follows last)
    (steps : List (Step α)) :
    (r.stepAll steps).value.2.Follows ((steps.filterMap Step.touch?).getLast?.or last) := by
  induction steps generalizing r last with
  | nil => exact follows
  | cons first rest ih =>
      have hTouch : first.touch?.toList.getLast? = first.touch? := by
        cases first.touch? <;> rfl
      rw [response_stepAll_cons, filterMap_cons_toList, List.getLast?_append, Option.or_assoc,
        hTouch]
      exact ih (follows.step first)

theorem Reaches.follows {opening : Opening α} {steps : List (Step α)} {r : Response}
    (run : Reaches opening steps r) :
    r.Follows (opening.touches ++ steps.filterMap Step.touch?).getLast? := by
  obtain ⟨-, rfl⟩ := reaches_iff.mp run
  rw [List.getLast?_append]
  exact (follows_opened opening).stepAll steps

/-- After any run the content length reads as the last touch of exactly its key left it: the
decimal text of the length, which is the number of bytes of the body, if that was a write, the
text that was put if it was a pair or a setting, and nothing if it was a removal or if there was
none. A further step that is no touch changes nothing about it. -/
theorem contentLength_of_run {opening : Opening α} {steps : List (Step α)} {r : Response}
    (run : Reaches opening steps r) :
    r.headers.get? Headers.contentLength =
      Touch.textAfter r.length (opening.touches ++ steps.filterMap Step.touch?).getLast? ∧
    r.length = totalBytes r.body ∧
    ∀ step : Step α, step.touch? = none →
      (r.step step).value.2.headers.get? Headers.contentLength =
        r.headers.get? Headers.contentLength := by
  refine ⟨run.follows, run.counted, ?_⟩
  intro step hTouch
  have hLater := run.follows.step step
  rw [hTouch, Option.none_or, Follows, length_step_of_no_touch r hTouch] at hLater
  exact hLater.trans run.follows.symm

/-- A removal takes the key away whose text a pair gave and a write replaced; the next write counts
the bytes from before the removal too. The key in lower case is another key. -/
theorem contentLength_after_removal :
    let opening : Opening String := .build 200 [("Content-Length", "9")] (.text "é")
    let steps : List (Step String) :=
      [.deleteHeader "Content-Length", .append "ab", .setHeader "content-length" "7", .close]
    ∃ r, Reaches opening steps r ∧ r.headers.get? "Content-Length" = some "4" ∧
      r.length = totalBytes r.body ∧
      (r.step (.deleteHeader "content-length" : Step String)).value.2.headers.get?
        "Content-Length" = some "4" := by
  intro opening steps
  have run : Reaches opening steps _ := reaches_stepAll rfl steps
  obtain ⟨hReads, hLength, hOther⟩ := contentLength_of_run run
  have hTouches : (opening.touches ++ steps.filterMap Step.touch?).getLast? = some .written := rfl
  have hText : Touch.textAfter (opening.opened.stepAll steps).value.2.length (some .written) =
      some "4" := by decide
  rw [hTouches, hText] at hReads
  exact ⟨_, run, hReads, hLength, (hOther (.deleteHeader "content-length") rfl).trans hReads⟩

end Response

end HttpReply
