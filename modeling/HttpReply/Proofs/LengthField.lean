import HttpReply.Proofs.ContentLength
import HttpReply.Proofs.Handoff
import HttpReply.Proofs.History

/-!
The content length as a field of a message. Writing maintains one key of the headers, but a message
lists every key that differs from it in case only under the same name, with the value that was put
there.
-/

namespace HttpReply

variable {α : Type} [ToString α]

namespace Headers

/-- The entries of other keys that a message lists with the content length. -/
def caseVariants (headers : Headers) : List (String × String) :=
  headers.entries.filter fun entry =>
    entry.1 ≠ contentLength ∧ Field.canonicalName entry.1 = "content-length"

theorem canonicalName_contentLength : Field.canonicalName contentLength = "content-length" :=
  Field.canonicalName_eq_iff.mpr (by decide)

/-- Of the entries that a condition selects, one that is known can be put first. The others are
those of other keys. -/
theorem perm_filter_of_get? {headers : Headers} {key value : String}
    (h : headers.get? key = some value) {p : String × String → Prop} [DecidablePred p]
    (hp : p (key, value)) :
    (headers.entries.filter (p ·)).Perm
      ((key, value) :: headers.entries.filter fun entry => entry.1 ≠ key ∧ p entry) := by
  obtain ⟨before, after, hEntries, hBefore, hAfter⟩ := split_of_get? h
  have hOthers : ∀ entries : List (String × String), key ∉ entries.map Prod.fst →
      (entries.filter fun entry => entry.1 ≠ key ∧ p entry) = entries.filter (p ·) := by
    intro entries hApart
    refine List.filter_congr fun entry hEntry => decide_eq_decide.mpr (and_iff_right ?_)
    intro hSame
    exact hApart (hSame ▸ List.mem_map_of_mem hEntry)
  have hOwn : ((key, value) :: after).filter (p ·) = (key, value) :: after.filter (p ·) :=
    List.filter_cons_of_pos (decide_eq_true hp)
  rw [hEntries, List.filter_append, List.filter_append, hOwn, List.filter_cons_of_neg (by simp),
    hOthers before hBefore, hOthers after hAfter]
  exact List.perm_middle

/-- What is listed as content length is the value of its own key and those of the variants. -/
theorem perm_caseVariants {headers : Headers} {text : String}
    (h : headers.get? contentLength = some text) :
    ((headers.entries.filter fun entry =>
        Field.canonicalName entry.1 = "content-length").map Prod.snd).Perm
      (text :: headers.caseVariants.map Prod.snd) :=
  (perm_filter_of_get? h canonicalName_contentLength).map Prod.snd

theorem caseVariants_eq_nil_iff {headers : Headers} :
    headers.caseVariants = [] ↔ ∀ key ∈ headers.keys,
      Field.canonicalName key = "content-length" → key = contentLength := by
  simp only [caseVariants, List.filter_eq_nil_iff, decide_eq_true_eq, keys, List.forall_mem_map]
  refine forall₂_congr fun entry _ => ?_
  rw [not_and', not_not]

/-- What an edit makes of the keys other than one depends on these keys only. -/
theorem erase_edit_congr {a b : Headers} {key : String} (h : a.erase key = b.erase key)
    (edit : Edit) : (a.edit edit).2.erase key = (b.edit edit).2.erase key := by
  cases edit with
  | set k v =>
      change (a.set k v).erase key = (b.set k v).erase key
      by_cases hKey : k = key
      · subst hKey
        exact (erase_set_self a k v).trans (h.trans (erase_set_self b k v).symm)
      · rw [erase_set_of_ne a hKey, erase_set_of_ne b hKey, h]
  | remove k =>
      change (a.erase k).erase key = (b.erase k).erase key
      rw [erase_comm, h, erase_comm]

theorem erase_editAll_congr {a b : Headers} {key : String} (h : a.erase key = b.erase key)
    (edits : List Edit) : (a.editAll edits).2.erase key = (b.editAll edits).2.erase key := by
  apply related_editAll (R := fun a b => a.erase key = b.erase key) _ h
  intro a b edit hSame
  exact erase_edit_congr hSame edit

theorem get?_of_erase_eq {a b : Headers} {key k : String} (h : a.erase key = b.erase key)
    (hOther : k ≠ key) : a.get? k = b.get? k := by
  have hGet := congrArg (·.get? k) h
  simpa [hOther] using hGet

end Headers

/-- The change to the headers that a step asks for. A write asks for none. -/
def Step.edit? : Step α → Option Edit
  | .setHeader key value => some (.set (toString key) (toString value))
  | .setContentType value => some (.set Headers.contentType (toString value))
  | .deleteHeader key => some (.remove key)
  | .write _ | .append _ | .setStatus _ | .close | .query _ => none

namespace Response

open Headers

theorem erase_contentLength_append (r : Response) (chunk : α) :
    (r.append chunk).value.headers.erase contentLength = r.headers.erase contentLength := by
  rw [headers_append]
  exact erase_set_self r.headers contentLength _

theorem erase_contentLength_appendAll (r : Response) (chunks : List α) :
    (r.appendAll chunks).value.headers.erase contentLength =
      r.headers.erase contentLength := by
  induction chunks generalizing r with
  | nil => rfl
  | cons chunk rest ih => exact (ih _).trans (erase_contentLength_append r chunk)

theorem erase_contentLength_step (r : Response) (step : Step α) :
    (r.step step).value.2.headers.erase contentLength =
      (r.headers.editAll step.edit?.toList).2.erase contentLength := by
  cases step with
  | write chunk => exact erase_contentLength_append r chunk
  | append chunk => exact erase_contentLength_append r chunk
  | _ => rfl

/-- Apart from the content length, steps leave the headers as the changes they ask for make them. No
write takes part. -/
theorem erase_contentLength_stepAll (r : Response) (steps : List (Step α)) :
    (r.stepAll steps).value.2.headers.erase contentLength =
      (r.headers.editAll (steps.filterMap Step.edit?)).2.erase contentLength := by
  induction steps generalizing r with
  | nil => rfl
  | cons first rest ih =>
      rw [response_stepAll_cons, ih, filterMap_cons_toList, editAll_append]
      exact erase_editAll_congr (erase_contentLength_step r first) _

theorem Reaches.erase_contentLength {opening : Opening α} {steps : List (Step α)} {r : Response}
    (run : Reaches opening steps r) :
    r.headers.erase contentLength =
      ((ofPairs opening.pairs).editAll (steps.filterMap Step.edit?)).2.erase contentLength := by
  obtain ⟨-, rfl⟩ := reaches_iff.mp run
  rw [erase_contentLength_stepAll]
  exact erase_editAll_congr (erase_contentLength_appendAll _ opening.chunks) _

/-- What a key other than the content length reads after a run is what it was last set to by a pair
or a step. -/
theorem Reaches.get?_eq_some_iff {opening : Opening α} {steps : List (Step α)} {r : Response}
    (run : Reaches opening steps r) {key value : String} (hOther : key ≠ contentLength) :
    r.headers.get? key = some value ↔
      LastSet key value (Edit.ofPairs opening.pairs ++ steps.filterMap Step.edit?) := by
  have shows := (shows_ofPairs opening.pairs).editAll (steps.filterMap Step.edit?)
  rw [get?_of_erase_eq run.erase_contentLength hOther]
  exact shows.reads key value

/-- If the last touch of the content length in a run was a write, then a message handed off lists
its own size as content length. It lists nothing else there exactly if no other key of the headers
differs from the content length in case only; for each such key it lists one value in addition, the
value of its entry, which is what a pair or a step last put there. -/
theorem lengthField_of_run {opening : Opening α} {steps : List (Step α)} {r : Response}
    {limit : Nat} {m : Message} (run : Reaches opening steps r)
    (hLast : (opening.touches ++ steps.filterMap Step.touch?).getLast? = some .written)
    (h : r.handOff limit = .ok m) :
    toString m.size ∈ m.fields.values "content-length" ∧
    (m.fields.values "content-length" = [toString m.size] ↔
      ∀ key ∈ r.headers.keys, Field.canonicalName key = "content-length" →
        key = Headers.contentLength) ∧
    (m.fields.values "content-length").Perm
      (toString m.size :: r.headers.caseVariants.map Prod.snd) ∧
    ∀ key value, key ≠ Headers.contentLength → (r.headers.get? key = some value ↔
      LastSet key value (Edit.ofPairs opening.pairs ++ steps.filterMap Step.edit?)) := by
  obtain ⟨-, hMessage⟩ := handOff_eq_ok_iff.mp h
  have hSize : m.size = r.length := by
    rw [run.counted, ← utf8ByteSize_join, Message.size, hMessage]
  have hText : r.headers.get? contentLength = some (toString m.size) := by
    rw [run.follows, hLast, hSize]
    rfl
  have hPerm : (m.fields.values "content-length").Perm
      (toString m.size :: r.headers.caseVariants.map Prod.snd) := by
    rw [hMessage, Fields.values_addAll _ Fields.grouped_nil, ← hMessage]
    exact perm_caseVariants hText
  refine ⟨hPerm.mem_iff.mpr List.mem_cons_self, ?_, hPerm, ?_⟩
  · rw [← caseVariants_eq_nil_iff]
    constructor
    · intro hOnly
      have hLength := hPerm.length_eq
      rw [hOnly] at hLength
      simpa using hLength
    · intro hNone
      rw [hNone] at hPerm
      exact List.perm_singleton.mp hPerm
  · intro key value hOther
    exact run.get?_eq_some_iff hOther

/-- The key in lower case, which a pair gave and a later step set again, is listed beside the size
with the text of the step; the writes in between left it alone. -/
theorem lengthField_of_case_variant :
    let opening : Opening String :=
      .build 200 [("content-length", "7"), ("A", "1")] (.text "é")
    let steps : List (Step String) := [.setHeader "content-length" "9", .append "ab"]
    ∃ r m, Reaches opening steps r ∧ r.handOff = .ok m ∧
      "4" ∈ m.fields.values "content-length" ∧
      m.fields.values "content-length" ≠ ["4"] ∧
      (m.fields.values "content-length").Perm ["4", "9"] ∧
      LastSet "content-length" "9" (Edit.ofPairs opening.pairs ++ steps.filterMap Step.edit?) := by
  intro opening steps
  have run : Reaches opening steps _ := reaches_stepAll rfl steps
  have hLast : (opening.touches ++ steps.filterMap Step.touch?).getLast? = some .written := rfl
  have hEntries : (opening.opened.stepAll steps).value.2.headers.entries =
      [("content-length", "9"), ("A", "1"), ("Content-Length", "4")] := by
    decide
  have hAccepted : ∀ entry ∈ (opening.opened.stepAll steps).value.2.headers.entries,
      Fields.Accepted entry := by
    rw [hEntries]
    decide
  have hSize : (opening.opened.stepAll steps).value.2.headers.size ≤ Fields.maxNames := by
    rw [Headers.size, hEntries]
    decide
  have h := handOff_eq_ok_iff.mpr ⟨⟨rfl, hAccepted, hasRoom_of_size_le hSize⟩, rfl⟩
  obtain ⟨hMem, hOnly, hPerm, hReads⟩ := lengthField_of_run run hLast h
  have hText : toString (String.join (opening.opened.stepAll steps).value.2.body).utf8ByteSize =
      "4" := by
    decide
  have hVariants : (opening.opened.stepAll steps).value.2.headers.caseVariants =
      [("content-length", "9")] := by
    rw [caseVariants, hEntries]
    simp only [Field.canonicalName_eq_iff]
    decide
  simp only [Message.size, hText, hVariants, List.map_cons, List.map_nil] at hMem hOnly hPerm
  refine ⟨_, _, run, h, hMem, ?_, hPerm, (hReads _ _ (by decide)).mp (by decide)⟩
  rw [ne_eq, hOnly]
  intro hAll
  have hKey := hAll "content-length" (by rw [Headers.keys, hEntries]; decide)
    (Field.canonicalName_eq_iff.mpr (by decide))
  exact absurd hKey (by decide)

end Response

end HttpReply
