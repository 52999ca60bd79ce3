import HttpReply.Proofs.Handoff

/-!
Which responses are refused as messages, and for what cause. The rules for names and values are
stated byte by byte, and a hand-off is refused for the first thing that breaks one of them: the
status, and then the headers in their order, each with its key before its value. A header that
breaks none is refused only if there is no room for it.
-/

namespace HttpReply

namespace Field

/-- The bytes of the signs that a name may contain. -/
def signBytes : List UInt8 :=
  utf8 "!#$%&\x27*+-.^_\x60|~"

/-- A byte that a name may contain: an ASCII letter, a digit or one of the signs. -/
def NameByte (b : UInt8) : Prop :=
  (65 ≤ b ∧ b ≤ 90) ∨ (97 ≤ b ∧ b ≤ 122) ∨ (48 ≤ b ∧ b ≤ 57) ∨ b ∈ signBytes

instance (b : UInt8) : Decidable (NameByte b) :=
  inferInstanceAs (Decidable (_ ∨ _))

/-- A text that can be a name: one to 65535 bytes, all of which a name may contain. -/
structure GoodName (s : String) : Prop where
  nonempty : 1 ≤ s.utf8ByteSize
  short : s.utf8ByteSize ≤ 65535
  bytes : ∀ b ∈ utf8 s, NameByte b

/-- A text that can be a value: its bytes are tabs, or from 32 on and not 127. -/
def GoodValue (s : String) : Prop :=
  ∀ b ∈ utf8 s, b = 9 ∨ (32 ≤ b ∧ b ≠ 127)

theorem isNameByte_iff (b : UInt8) : isNameByte b = true ↔ NameByte b := by
  have h : ∀ n < 256, isNameByte (UInt8.ofNat n) = true ↔ NameByte (UInt8.ofNat n) := by
    decide +kernel
  have hByte := h b.toNat b.toNat_lt
  rwa [UInt8.ofNat_toNat] at hByte

theorem isName_iff (s : String) : isName s = true ↔ GoodName s := by
  have hNonempty : (!(utf8 s).isEmpty) = true ↔ 1 ≤ s.utf8ByteSize := by
    rw [← length_utf8, Nat.one_le_iff_ne_zero, ne_eq, List.length_eq_zero_iff, Bool.not_eq_true',
      ← Bool.not_eq_true, List.isEmpty_iff]
  have hShort : decide ((utf8 s).length ≤ maxNameLength) = true ↔ s.utf8ByteSize ≤ 65535 :=
    decide_eq_true_iff
  have hBytes : (utf8 s).all isNameByte = true ↔ ∀ b ∈ utf8 s, NameByte b := by
    simp only [List.all_eq_true, isNameByte_iff]
  rw [isName, Bool.and_eq_true, Bool.and_eq_true, hNonempty, hShort, hBytes]
  exact ⟨fun ⟨⟨hSome, hLong⟩, hAll⟩ => ⟨hSome, hLong, hAll⟩,
    fun h => ⟨⟨h.nonempty, h.short⟩, h.bytes⟩⟩

theorem isValue_iff (s : String) : isValue s = true ↔ GoodValue s := by
  simp [isValue, GoodValue, isValueByte]

end Field

namespace Fields

open HttpReply.Field

/-- An entry that a message takes: its key can be a name and its value a value. -/
def Good (entry : String × String) : Prop :=
  GoodName entry.1 ∧ GoodValue entry.2

theorem accepted_iff (entry : String × String) : Accepted entry ↔ Good entry :=
  and_congr (isName_iff _) (isValue_iff _)

variable {limit : Nat} {fields : Fields}

/-- The causes that lie in an entry itself. The value counts only if the key can be a name. -/
def Faulty (entry : String × String) : HandoffError → Prop
  | .invalidName => ¬ GoodName entry.1
  | .invalidValue => GoodName entry.1 ∧ ¬ GoodValue entry.2
  | .invalidStatus | .tooManyNames => False

/-- The causes for which an entry is refused when these fields are listed. -/
def Refuses (limit : Nat) (fields : Fields) (entry : String × String) (cause : HandoffError) :
    Prop :=
  Faulty entry cause ∨ cause = .tooManyNames ∧ Good entry ∧ limit ≤ fields.length

theorem addEntry_eq_error_iff {entry : String × String} {cause : HandoffError} :
    addEntry limit fields entry = .error cause ↔ Refuses limit fields entry cause := by
  have hName := isName_iff entry.1
  have hValue := isValue_iff entry.2
  rw [addEntry]
  by_cases hGood : GoodName entry.1
  · by_cases hGoodValue : GoodValue entry.2
    · rw [hName.mpr hGood, hValue.mpr hGoodValue]
      by_cases hRoom : limit ≤ fields.length <;>
        cases cause <;> simp [Refuses, Faulty, Good, hGood, hGoodValue, hRoom]
    · rw [hName.mpr hGood, Bool.eq_false_iff.mpr (mt hValue.mp hGoodValue)]
      cases cause <;> simp [Refuses, Faulty, Good, hGood, hGoodValue]
  · rw [Bool.eq_false_iff.mpr (mt hName.mp hGood)]
    cases cause <;> simp [Refuses, Faulty, Good, hGood]

/-- The entries are refused for the cause that the first one is refused for that is not added. -/
theorem foldlM_addEntry_eq_error_iff {entries : List (String × String)} {cause : HandoffError} :
    entries.foldlM (addEntry limit) fields = .error cause ↔
      ∃ before entry after, entries = before ++ entry :: after ∧ (∀ other ∈ before, Good other) ∧
        HasRoom limit fields before ∧ Refuses limit (addAll before fields) entry cause := by
  induction entries generalizing fields with
  | nil => simp [pure, Except.pure]
  | cons first rest ih =>
      rw [List.foldlM_cons]
      constructor
      · intro h
        cases hFirst : addEntry limit fields first with
        | error found =>
            rw [hFirst] at h
            obtain rfl := Except.error.inj h
            exact ⟨[], first, rest, rfl, by simp, trivial, addEntry_eq_error_iff.mp hFirst⟩
        | ok next =>
            obtain ⟨hAccepted, hLength, rfl⟩ := addEntry_eq_ok_iff.mp hFirst
            rw [hFirst] at h
            obtain ⟨before, entry, after, rfl, hBefore, hRoom, hRefuses⟩ := ih.mp h
            exact ⟨first :: before, entry, after, rfl,
              List.forall_mem_cons.mpr ⟨(accepted_iff first).mp hAccepted, hBefore⟩,
              ⟨hLength, hRoom⟩, hRefuses⟩
      · rintro ⟨before, entry, after, hSplit, hBefore, hRoom, hRefuses⟩
        cases before with
        | nil =>
            obtain ⟨rfl, rfl⟩ := List.cons.inj hSplit
            have hFirst : Refuses limit fields first cause := hRefuses
            rw [addEntry_eq_error_iff.mpr hFirst]
            rfl
        | cons other before =>
            obtain ⟨rfl, rfl⟩ := List.cons.inj hSplit
            obtain ⟨hFirst, hBefore⟩ := List.forall_mem_cons.mp hBefore
            rw [addEntry_eq_ok_iff.mpr ⟨(accepted_iff first).mpr hFirst, hRoom.1, rfl⟩]
            exact ih.mpr ⟨before, entry, after, rfl, hBefore, hRoom.2, hRefuses⟩

/-- With room for all entries only the faults of the entries themselves count. -/
theorem HasRoom.foldlM_addEntry_eq_error_iff {entries : List (String × String)}
    (room : HasRoom limit fields entries) {cause : HandoffError} :
    entries.foldlM (addEntry limit) fields = .error cause ↔
      ∃ before entry after, entries = before ++ entry :: after ∧ (∀ other ∈ before, Good other) ∧
        Faulty entry cause := by
  rw [Fields.foldlM_addEntry_eq_error_iff]
  refine exists_congr fun before => exists_congr fun entry => exists_congr fun after =>
    and_congr_right fun hSplit => and_congr_right fun _ => ?_
  rw [hSplit, hasRoom_append_iff, HasRoom] at room
  obtain ⟨hBefore, hFree, -⟩ := room
  simp [Refuses, hBefore, Nat.not_le.mpr hFree]

end Fields

namespace Response

open HttpReply.Field Fields

/-- The code of a status that a message can have. -/
def ThreeDigits (status : UInt16) : Prop :=
  100 ≤ status.toNat ∧ status.toNat ≤ 999

theorem isMessageStatus_iff (status : UInt16) :
    isMessageStatus status = true ↔ ThreeDigits status := by
  rw [isMessageStatus, Bool.and_eq_true, decide_eq_true_iff, decide_eq_true_iff,
    UInt16.le_iff_toNat_le, UInt16.le_iff_toNat_le]
  rfl

/-- A response can be handed off exactly if its status has three digits, all its entries are good
and there is room for them. -/
theorem exists_handOff_eq_ok_iff {r : Response} {limit : Nat} :
    (∃ m, r.handOff limit = .ok m) ↔
      ThreeDigits r.status ∧ (∀ entry ∈ r.headers.entries, Good entry) ∧
        HasRoom limit [] r.headers.entries := by
  simp only [handOff_eq_ok_iff, isMessageStatus_iff, accepted_iff]
  exact ⟨fun ⟨_, h, _⟩ => h, fun h => ⟨_, h, rfl⟩⟩

/-- The status is judged before the headers, and if it is refused they have no part in it. -/
theorem handOff_eq_error_iff {r : Response} {limit : Nat} {cause : HandoffError} :
    r.handOff limit = .error cause ↔
      (¬ ThreeDigits r.status ∧ cause = .invalidStatus) ∨
        ThreeDigits r.status ∧ Fields.ofEntries limit r.headers.entries = .error cause := by
  by_cases hStatus : ThreeDigits r.status
  · rw [handOff, if_pos ((isMessageStatus_iff _).mpr hStatus)]
    cases ofEntries limit r.headers.entries with
    | ok fields => simp [hStatus, bind, Except.bind, pure, Except.pure]
    | error found => simp [hStatus, bind, Except.bind]
  · rw [handOff, if_neg (mt (isMessageStatus_iff _).mp hStatus)]
    simp [hStatus, eq_comm]

theorem handOff_eq_error_iff_of_hasRoom {r : Response} {limit : Nat}
    (room : HasRoom limit [] r.headers.entries) {cause : HandoffError} :
    r.handOff limit = .error cause ↔
      (¬ ThreeDigits r.status ∧ cause = .invalidStatus) ∨
        ThreeDigits r.status ∧ ∃ before entry after,
          r.headers.entries = before ++ entry :: after ∧ (∀ other ∈ before, Good other) ∧
            Faulty entry cause := by
  rw [handOff_eq_error_iff, ofEntries, room.foldlM_addEntry_eq_error_iff]

/-- A hand-off is refused for the status exactly if this has not three digits. If it has, and there
is room for the headers, it is refused exactly for the first header in order whose key cannot be a
name, or whose key can be one and whose value cannot be a value, and it succeeds if there is none.
Body and source have no part in it. -/
theorem handOff_decided (r : Response) (limit : Nat) :
    (r.handOff limit = .error .invalidStatus ↔ ¬ ThreeDigits r.status) ∧
    (r.headers.size ≤ limit →
      (r.handOff limit = .error .invalidName ↔ ThreeDigits r.status ∧
        ∃ before key value after, r.headers.entries = before ++ (key, value) :: after ∧
          (∀ entry ∈ before, GoodName entry.1 ∧ GoodValue entry.2) ∧ ¬ GoodName key) ∧
      (r.handOff limit = .error .invalidValue ↔ ThreeDigits r.status ∧
        ∃ before key value after, r.headers.entries = before ++ (key, value) :: after ∧
          (∀ entry ∈ before, GoodName entry.1 ∧ GoodValue entry.2) ∧ GoodName key ∧
            ¬ GoodValue value) ∧
      ((∃ m, r.handOff limit = .ok m) ↔ ThreeDigits r.status ∧
        ∀ entry ∈ r.headers.entries, GoodName entry.1 ∧ GoodValue entry.2) ∧
      r.handOff limit ≠ .error .tooManyNames) ∧
    ∀ body length source, ({ r with body, length, source }.handOff limit).map (fun _ => ()) =
      (r.handOff limit).map fun _ => () := by
  refine ⟨?_, ?_, ?_⟩
  · have hFields : Fields.ofEntries limit r.headers.entries ≠ .error .invalidStatus := by
      rw [ofEntries, ne_eq, foldlM_addEntry_eq_error_iff]
      simp [Refuses, Faulty]
    simp [handOff_eq_error_iff, hFields]
  · intro hSize
    have room := Headers.hasRoom_of_size_le hSize
    refine ⟨?_, ?_, ?_, ?_⟩
    · simp [handOff_eq_error_iff_of_hasRoom room, Faulty, Good]
    · simp [handOff_eq_error_iff_of_hasRoom room, Faulty, Good]
    · rw [exists_handOff_eq_ok_iff, and_iff_left room]
      rfl
    · simp [handOff_eq_error_iff_of_hasRoom room, Faulty]
  · intro body length source
    rw [handOff, handOff]
    split
    · cases ofEntries limit r.headers.entries <;> rfl
    · rfl

/-- The first header decides, although the second has a fault that would be judged before its own,
and there is just room for both. -/
theorem handOff_decided_of_two_faults :
    let r : Response := { withStatus 200 with headers := .ofPairs [("A", "\n"), ("b c", "\n")] }
    r.headers.size ≤ 2 ∧ r.handOff 2 = .error .invalidValue ∧ ¬ (∃ m, r.handOff 2 = .ok m) ∧
      { r with status := 99 }.handOff 2 = .error .invalidStatus := by
  intro r
  have hRoom : r.headers.size ≤ 2 := by decide
  obtain ⟨-, hJudged, -⟩ := handOff_decided r 2
  obtain ⟨-, hValue, hSuccess, -⟩ := hJudged hRoom
  have hName : GoodName "A" := (isName_iff _).mp (by decide)
  have hBad : ¬ GoodValue "\n" := fun h => absurd ((isValue_iff _).mpr h) (by decide)
  have hTwoDigits : ¬ ThreeDigits 99 := fun hDigits => absurd hDigits.1 (by decide)
  refine ⟨hRoom, hValue.mpr ⟨⟨by decide, by decide⟩, [], "A", "\n", [("b c", "\n")], rfl, by simp,
    hName, hBad⟩, ?_, (handOff_decided { r with status := 99 } 2).1.mpr hTwoDigits⟩
  rw [hSuccess]
  rintro ⟨-, hGood⟩
  exact hBad (hGood ("A", "\n") (by decide)).2

end Response

end HttpReply
