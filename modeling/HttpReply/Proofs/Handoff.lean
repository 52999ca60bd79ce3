import HttpReply.Proofs.Body
import HttpReply.Proofs.Grouping

/-!
What a hand-off passes on. A message that comes out has everything the response had, and the
count of bytes of a response that a run leads to is the size of the message.
-/

namespace HttpReply

namespace Headers

variable {headers : Headers} {limit : Nat}

/-- There is room for headers if they are not more than the names that there is room for. -/
theorem hasRoom_of_size_le (h : headers.size ≤ limit) :
    Fields.HasRoom limit [] headers.entries :=
  Fields.hasRoom_of_length_le (by simpa [size] using h)

end Headers

namespace Response

variable {α : Type} [ToString α]

/-- A hand-off succeeds exactly if the status and every entry are accepted and there is room for
the entries, and then there is one message it can give. -/
theorem handOff_eq_ok_iff {r : Response} {limit : Nat} {m : Message} :
    r.handOff limit = .ok m ↔
      (isMessageStatus r.status = true ∧ (∀ entry ∈ r.headers.entries, Fields.Accepted entry) ∧
          Fields.HasRoom limit [] r.headers.entries) ∧
        m = { status := r.status, fields := Fields.addAll r.headers.entries [],
              body := String.join r.body } := by
  rw [handOff]
  cases hStatus : isMessageStatus r.status with
  | false => simp
  | true =>
      rw [if_pos rfl]
      constructor
      · intro h
        cases hFields : Fields.ofEntries limit r.headers.entries with
        | error cause => simp [hFields, bind, Except.bind] at h
        | ok fields =>
            obtain ⟨hAccepted, hRoom, rfl⟩ := Fields.foldlM_addEntry_eq_ok_iff.mp hFields
            rw [hFields] at h
            exact ⟨⟨rfl, hAccepted, hRoom⟩, (Except.ok.inj h).symm⟩
      · rintro ⟨⟨_, hAccepted, hRoom⟩, rfl⟩
        have hFields : Fields.ofEntries limit r.headers.entries =
            .ok (Fields.addAll r.headers.entries []) :=
          Fields.foldlM_addEntry_eq_ok_iff.mpr ⟨hAccepted, hRoom, rfl⟩
        rw [hFields]
        rfl

/-- A hand-off after any run loses, doubles and reorders nothing, whatever the message has room for.
The size of the joined body is the length; each name lists the values of exactly those headers whose
keys are listed under it, in their order; no name is listed twice or without a value, and there are
as many values as headers. -/
theorem handOff_of_run {opening : Opening α} {steps : List (Step α)} {r : Response}
    {limit : Nat} {m : Message} (run : Reaches opening steps r) (h : r.handOff limit = .ok m) :
    m.status = r.status ∧
    m.body = String.join r.body ∧
    m.size = r.length ∧
    (∀ name, m.fields.values name =
      (r.headers.entries.filter fun entry => Field.canonicalName entry.1 = name).map Prod.snd) ∧
    (∀ field ∈ m.fields, field.2 ≠ []) ∧
    (m.fields.map Prod.fst).Pairwise (· < ·) ∧
    m.fields.count = r.headers.size := by
  obtain ⟨_, rfl⟩ := handOff_eq_ok_iff.mp h
  have grouped : Fields.Grouped (Fields.addAll r.headers.entries []) :=
    Fields.grouped_nil.addAll _
  refine ⟨rfl, rfl, ?_, ?_, grouped.nonempty, grouped.increasing, ?_⟩
  · exact (utf8ByteSize_join r.body).trans run.counted.symm
  · intro name
    exact Fields.values_addAll _ Fields.grouped_nil name
  · exact (Fields.count_addAll _).trans (Nat.zero_add _)

/-- Keys that differ in case are listed together, in the order of the headers: the key that was
removed and set again comes last. -/
theorem handOff_of_colliding_keys :
    let opening : Opening String :=
      .build 201 [("X-b", "1"), ("A", "2"), ("x-B", "3"), ("a", "4")] (.text "é")
    let steps : List (Step String) := [.append "z", .deleteHeader "A", .setHeader "A" "5"]
    ∃ r m, Reaches opening steps r ∧ r.handOff = .ok m ∧ m.status = 201 ∧ m.body = "éz" ∧
      m.size = 3 ∧ m.fields.values "x-b" = ["1", "3"] ∧ m.fields.values "a" = ["4", "5"] ∧
      (∀ field ∈ m.fields, field.2 ≠ []) ∧ (m.fields.map Prod.fst).Pairwise (· < ·) ∧
      m.fields.count = 5 := by
  intro opening steps
  have run : Reaches opening steps _ := reaches_stepAll rfl steps
  have hEntries : (opening.opened.stepAll steps).value.2.headers.entries =
      [("X-b", "1"), ("x-B", "3"), ("a", "4"), ("Content-Length", "3"), ("A", "5")] := by
    decide
  have hAccepted : ∀ entry ∈ (opening.opened.stepAll steps).value.2.headers.entries,
      Fields.Accepted entry := by
    rw [hEntries]
    decide
  have hSize : (opening.opened.stepAll steps).value.2.headers.size ≤ Fields.maxNames := by
    rw [Headers.size, hEntries]
    decide
  have h := handOff_eq_ok_iff.mpr ⟨⟨rfl, hAccepted, Headers.hasRoom_of_size_le hSize⟩, rfl⟩
  obtain ⟨hStatus, hBody, hLength, hValues, hNonempty, hIncreasing, hCount⟩ := handOff_of_run run h
  refine ⟨_, _, run, h, hStatus, hBody.trans rfl, hLength.trans (by decide),
    (hValues "x-b").trans ?_, (hValues "a").trans ?_, hNonempty, hIncreasing,
    hCount.trans (by decide)⟩
  · simp only [hEntries, Field.canonicalName_eq_iff]
    decide
  · simp only [hEntries, Field.canonicalName_eq_iff]
    decide

end Response

end HttpReply
