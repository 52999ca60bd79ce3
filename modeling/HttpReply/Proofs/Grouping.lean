import HttpReply.Message.Handoff

/-!
The fields of a message as groups of values. Adding a value keeps the names in strict order and
moves nothing that is already listed, so what a name lists is what was added under it.
-/

namespace HttpReply

theorem Field.canonicalName_eq_iff {key name : String} :
    Field.canonicalName key = name ↔ key.toList.map Char.toLower = name.toList := by
  rw [Field.canonicalName, ← String.toList_inj, String.toList_map]

namespace Fields

/-- Each name is listed once, in increasing order, and has at least one value. -/
structure Grouped (fields : Fields) : Prop where
  increasing : (fields.map Prod.fst).Pairwise (· < ·)
  nonempty : ∀ field ∈ fields, field.2 ≠ []

/-- The number of values over all names. -/
def count : Fields → Nat
  | [] => 0
  | field :: rest => field.2.length + count rest

theorem grouped_nil : Grouped [] :=
  ⟨.nil, by simp⟩

variable {fields : Fields} (name value : String)

theorem mem_names_add (n : String) :
    n ∈ (add name value fields).map Prod.fst ↔ n = name ∨ n ∈ fields.map Prod.fst := by
  induction fields with
  | nil => simp [add]
  | cons field rest ih =>
      obtain ⟨k, values⟩ := field
      unfold add
      split
      · simp
      · split
        · rename_i hSame
          subst hSame
          simp
        · rw [List.map_cons, List.mem_cons, ih, List.map_cons, List.mem_cons]
          exact or_left_comm

theorem increasing_add (h : (fields.map Prod.fst).Pairwise (· < ·)) :
    ((add name value fields).map Prod.fst).Pairwise (· < ·) := by
  induction fields with
  | nil => simp [add]
  | cons field rest ih =>
      obtain ⟨k, values⟩ := field
      obtain ⟨hFirst, hRest⟩ := List.pairwise_cons.mp h
      unfold add
      split
      · rename_i hBefore
        refine List.pairwise_cons.mpr ⟨?_, h⟩
        intro n hn
        rcases List.mem_cons.mp hn with rfl | hn
        · exact hBefore
        · exact String.lt_trans hBefore (hFirst n hn)
      · rename_i hNotBefore
        split
        · exact h
        · rename_i hOther
          refine List.pairwise_cons.mpr ⟨?_, ih hRest⟩
          intro n hn
          rcases (mem_names_add name value n).mp hn with rfl | hn
          · exact String.not_le.mp fun hLe =>
              hOther (String.le_antisymm hLe (String.not_lt.mp hNotBefore))
          · exact hFirst n hn

theorem nonempty_add (h : ∀ field ∈ fields, field.2 ≠ []) :
    ∀ field ∈ add name value fields, field.2 ≠ [] := by
  induction fields with
  | nil => simp [add]
  | cons field rest ih =>
      obtain ⟨k, values⟩ := field
      obtain ⟨hFirst, hRest⟩ := List.forall_mem_cons.mp h
      unfold add
      split
      · exact List.forall_mem_cons.mpr ⟨List.cons_ne_nil _ _, h⟩
      · split
        · exact List.forall_mem_cons.mpr ⟨by simp, hRest⟩
        · exact List.forall_mem_cons.mpr ⟨hFirst, ih hRest⟩

theorem Grouped.add (grouped : Grouped fields) : Grouped (Fields.add name value fields) :=
  ⟨increasing_add name value grouped.increasing, nonempty_add name value grouped.nonempty⟩

theorem count_add : count (add name value fields) = count fields + 1 := by
  induction fields with
  | nil => rfl
  | cons field rest ih =>
      obtain ⟨k, values⟩ := field
      unfold add
      split
      · simp only [count, List.length_singleton]
        omega
      · split
        · simp only [count, List.length_append, List.length_singleton]
          omega
        · simp only [count, ih]
          omega

/-- A value takes its place under a name that is listed already, or brings in one name more. -/
theorem length_add : (add name value fields).length = fields.length ∨
    (add name value fields).length = fields.length + 1 := by
  induction fields with
  | nil => exact .inr rfl
  | cons field rest ih =>
      unfold add
      split
      · exact .inr rfl
      · split
        · exact .inl rfl
        · exact ih.imp (congrArg Nat.succ) (congrArg Nat.succ)

theorem length_add_le : (add name value fields).length ≤ fields.length + 1 := by
  have h := @length_add fields name value
  omega

theorem values_cons (k : String) (values : List String) (rest : Fields) (n : String) :
    Fields.values ((k, values) :: rest) n = if n = k then values else rest.values n := by
  rw [Fields.values, List.lookup_cons]
  by_cases h : n = k
  · rw [if_pos h, beq_iff_eq.mpr h]
    rfl
  · rw [if_neg h, beq_eq_false_iff_ne.mpr h]
    rfl

theorem values_eq_nil_of_lt (h : ∀ n ∈ fields.map Prod.fst, name < n) :
    fields.values name = [] := by
  induction fields with
  | nil => rfl
  | cons field rest ih =>
      obtain ⟨hFirst, hRest⟩ := List.forall_mem_cons.mp h
      have hOther : name ≠ field.1 := by
        intro hSame
        exact String.lt_irrefl _ (hSame ▸ hFirst)
      rw [values_cons, if_neg hOther]
      exact ih hRest

/-- A value is added after those its name has, and no other name is affected. -/
theorem values_add (h : (fields.map Prod.fst).Pairwise (· < ·)) (n : String) :
    (add name value fields).values n =
      if n = name then fields.values n ++ [value] else fields.values n := by
  induction fields with
  | nil => rw [add, values_cons]; rfl
  | cons field rest ih =>
      obtain ⟨k, values⟩ := field
      obtain ⟨hFirst, hRest⟩ := List.pairwise_cons.mp h
      unfold add
      split
      · rename_i hBefore
        rw [values_cons]
        by_cases hName : n = name
        · have hAll : ∀ m ∈ ((k, values) :: rest).map Prod.fst, name < m :=
            List.forall_mem_cons.mpr
              ⟨hBefore, fun m hm => String.lt_trans hBefore (hFirst m hm)⟩
          rw [if_pos hName, if_pos hName, hName, values_eq_nil_of_lt name hAll, List.nil_append]
        · rw [if_neg hName, if_neg hName]
      · split
        · rename_i hSame
          subst hSame
          rw [values_cons, values_cons]
          by_cases hName : n = name
          · rw [if_pos hName, if_pos hName, if_pos hName]
          · rw [if_neg hName, if_neg hName, if_neg hName]
        · rename_i hOther
          rw [values_cons, values_cons, ih hRest]
          by_cases hKey : n = k
          · rw [if_pos hKey, if_pos hKey, if_neg (hKey ▸ Ne.symm hOther)]
          · rw [if_neg hKey, if_neg hKey]

/-- An entry whose key is a name and whose value is a value. -/
def Accepted (entry : String × String) : Prop :=
  Field.isName entry.1 = true ∧ Field.isValue entry.2 = true

instance (entry : String × String) : Decidable (Accepted entry) :=
  inferInstanceAs (Decidable (_ ∧ _))

/-- The fields of entries that are all accepted: each value is added under the form in which its
key is listed. -/
def addAll (entries : List (String × String)) (fields : Fields) : Fields :=
  entries.foldl (fun fields entry => add (Field.canonicalName entry.1) entry.2 fields) fields

theorem addAll_cons (entry : String × String) (rest : List (String × String)) :
    addAll (entry :: rest) fields =
      addAll rest (add (Field.canonicalName entry.1) entry.2 fields) := rfl

/-- Whether fewer than `limit` names are listed each time that one of the entries is added. -/
def HasRoom (limit : Nat) : Fields → List (String × String) → Prop
  | _, [] => True
  | fields, entry :: rest =>
    fields.length < limit ∧ HasRoom limit (add (Field.canonicalName entry.1) entry.2 fields) rest

section Room

variable {limit : Nat} {entries : List (String × String)}

theorem hasRoom_append_iff (before : List (String × String)) :
    HasRoom limit fields (before ++ entries) ↔
      HasRoom limit fields before ∧ HasRoom limit (addAll before fields) entries := by
  induction before generalizing fields with
  | nil => exact (iff_of_eq (true_and _)).symm
  | cons entry rest ih => rw [List.cons_append, HasRoom, ih, HasRoom, addAll_cons, and_assoc]

/-- Each entry takes the room of one name at most. -/
theorem hasRoom_of_length_le (h : fields.length + entries.length ≤ limit) :
    HasRoom limit fields entries := by
  induction entries generalizing fields with
  | nil => trivial
  | cons entry rest ih =>
      rw [List.length_cons] at h
      have hLength : (add (Field.canonicalName entry.1) entry.2 fields).length ≤
          fields.length + 1 := length_add_le _ _
      exact ⟨by omega, ih (by omega)⟩

end Room

theorem addEntry_eq_ok_iff {limit : Nat} {entry : String × String} {result : Fields} :
    addEntry limit fields entry = .ok result ↔
      Accepted entry ∧ fields.length < limit ∧
        result = add (Field.canonicalName entry.1) entry.2 fields := by
  rw [addEntry, Accepted]
  cases Field.isName entry.1 with
  | false => simp
  | true =>
      cases Field.isValue entry.2 with
      | false => simp
      | true =>
          by_cases h : limit ≤ fields.length
          · simp [h, Nat.not_lt.mpr h]
          · simp [h, Nat.lt_of_not_le h, eq_comm]

theorem foldlM_addEntry_eq_ok_iff {limit : Nat} {entries : List (String × String)}
    {result : Fields} :
    entries.foldlM (addEntry limit) fields = .ok result ↔
      (∀ entry ∈ entries, Accepted entry) ∧ HasRoom limit fields entries ∧
        result = addAll entries fields := by
  induction entries generalizing fields with
  | nil => simp [addAll, HasRoom, pure, Except.pure, eq_comm]
  | cons entry rest ih =>
      rw [List.foldlM_cons, List.forall_mem_cons, addAll_cons, HasRoom]
      constructor
      · intro h
        cases hEntry : addEntry limit fields entry with
        | error cause => simp [hEntry, bind, Except.bind] at h
        | ok next =>
            obtain ⟨hAccepted, hLength, rfl⟩ := addEntry_eq_ok_iff.mp hEntry
            rw [hEntry] at h
            obtain ⟨hRest, hRoom, hResult⟩ := ih.mp h
            exact ⟨⟨hAccepted, hRest⟩, ⟨hLength, hRoom⟩, hResult⟩
      · rintro ⟨⟨hAccepted, hRest⟩, ⟨hLength, hRoom⟩, hResult⟩
        rw [addEntry_eq_ok_iff.mpr ⟨hAccepted, hLength, rfl⟩]
        exact ih.mpr ⟨hRest, hRoom, hResult⟩

variable (entries : List (String × String))

theorem Grouped.addAll (grouped : Grouped fields) : Grouped (Fields.addAll entries fields) := by
  induction entries generalizing fields with
  | nil => exact grouped
  | cons entry rest ih => exact ih (grouped.add _ _)

theorem count_addAll : count (addAll entries fields) = count fields + entries.length := by
  induction entries generalizing fields with
  | nil => rfl
  | cons entry rest ih =>
      rw [addAll_cons, ih, count_add, List.length_cons, Nat.add_assoc, Nat.add_comm 1]

/-- What a name lists in the end: what it had, and then the values of the entries whose keys are
listed under it, in their order. -/
theorem values_addAll (grouped : Grouped fields) (n : String) :
    (addAll entries fields).values n =
      fields.values n ++
        (entries.filter fun entry => Field.canonicalName entry.1 = n).map Prod.snd := by
  induction entries generalizing fields with
  | nil => exact (List.append_nil _).symm
  | cons entry rest ih =>
      rw [addAll_cons, ih (grouped.add _ _), values_add _ _ grouped.increasing]
      by_cases h : n = Field.canonicalName entry.1
      · simp [h]
      · simp [h, Ne.symm h]

end Fields

end HttpReply
