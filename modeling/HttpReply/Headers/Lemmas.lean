import HttpReply.Headers.Basic

/-!
What each operation on headers does to the value under a key, to the list of keys and to the
list of entries.
-/

namespace HttpReply

theorem lookup_setEntry (key value k : String) (entries : List (String × String)) :
    (setEntry key value entries).lookup k =
      if k = key then some value else entries.lookup k := by
  induction entries with
  | nil =>
      by_cases h : k = key
      · simp [setEntry, h]
      · simp [setEntry, List.lookup_cons, beq_eq_false_iff_ne.mpr h, h]
  | cons entry rest ih =>
      obtain ⟨k', v'⟩ := entry
      by_cases hKey : k' = key
      · subst hKey
        by_cases h : k = k'
        · simp [setEntry, h]
        · simp [setEntry, List.lookup_cons, beq_eq_false_iff_ne.mpr h, h]
      · by_cases h : k = k'
        · subst h
          simp [setEntry, hKey]
        · simp only [setEntry, if_neg hKey, List.lookup_cons, beq_eq_false_iff_ne.mpr h, ih]

theorem lookup_filter_ne (key k : String) (entries : List (String × String)) :
    (entries.filter (·.1 ≠ key)).lookup k = if k = key then none else entries.lookup k := by
  induction entries with
  | nil => simp
  | cons entry rest ih =>
      obtain ⟨k', v'⟩ := entry
      by_cases hKey : k' = key
      · subst hKey
        by_cases h : k = k'
        · simpa [h] using ih
        · simpa [h, List.lookup_cons, beq_eq_false_iff_ne.mpr h] using ih
      · by_cases h : k = k'
        · subst h
          simp [hKey]
        · simpa [hKey, List.lookup_cons, beq_eq_false_iff_ne.mpr h] using ih

theorem lookup_isSome_iff (key : String) (entries : List (String × String)) :
    (entries.lookup key).isSome ↔ key ∈ entries.map Prod.fst := by
  induction entries with
  | nil => simp
  | cons entry rest ih =>
      by_cases h : key = entry.1
      · subst h
        simp
      · rw [List.lookup_cons, beq_eq_false_iff_ne.mpr h, ih]
        simp [h]

/-- A key that is present has its value replaced where it stands, and as no other entry has it the
rest is left as it is. -/
theorem setEntry_of_mem {key : String} (value : String) {entries : List (String × String)}
    (hNodup : (entries.map Prod.fst).Nodup) (h : key ∈ entries.map Prod.fst) :
    setEntry key value entries =
      entries.map fun entry => if entry.1 = key then (key, value) else entry := by
  induction entries with
  | nil => cases h
  | cons entry rest ih =>
      obtain ⟨hFresh, hRest⟩ := List.nodup_cons.mp hNodup
      by_cases hKey : entry.1 = key
      · have hSame :
            (rest.map fun entry => if entry.1 = key then (key, value) else entry) = rest := by
          refine (List.map_congr_left fun other hOther => if_neg fun hEq => ?_).trans
            (List.map_id rest)
          exact hFresh (hKey ▸ hEq ▸ List.mem_map_of_mem hOther)
        rw [setEntry, if_pos hKey, List.map_cons, if_pos hKey, hSame]
      · have hMem : key ∈ rest.map Prod.fst := (List.mem_cons.mp h).resolve_left (Ne.symm hKey)
        rw [setEntry, if_neg hKey, List.map_cons, if_neg hKey, ih hRest hMem]

theorem setEntry_setEntry (key value later : String) (entries : List (String × String)) :
    setEntry key later (setEntry key value entries) = setEntry key later entries := by
  induction entries with
  | nil => simp [setEntry]
  | cons entry rest ih =>
      by_cases hKey : entry.1 = key
      · simp [setEntry, hKey]
      · simp [setEntry, hKey, ih]

theorem filter_ne_setEntry_self (key value : String) (entries : List (String × String)) :
    (setEntry key value entries).filter (·.1 ≠ key) = entries.filter (·.1 ≠ key) := by
  induction entries with
  | nil => simp [setEntry]
  | cons entry rest ih =>
      by_cases hKey : entry.1 = key
      · simp [setEntry, hKey]
      · simpa [setEntry, hKey] using ih

theorem filter_ne_setEntry {key other : String} (h : key ≠ other) (value : String)
    (entries : List (String × String)) :
    (setEntry key value entries).filter (·.1 ≠ other) =
      setEntry key value (entries.filter (·.1 ≠ other)) := by
  induction entries with
  | nil => simp [setEntry, h]
  | cons entry rest ih =>
      by_cases hKey : entry.1 = key
      · simp [setEntry, hKey, h]
      · by_cases hOther : entry.1 = other
        · simpa [setEntry, hKey, hOther, h.symm] using ih
        · simpa [setEntry, hKey, hOther] using ih

namespace Headers

variable {κ ν : Type} [ToString κ] [ToString ν]

@[ext] theorem ext {a b : Headers} (h : a.entries = b.entries) : a = b := by
  cases a
  cases b
  simp_all

@[simp] theorem entries_empty : empty.entries = [] := rfl

@[simp] theorem get?_empty (k : String) : empty.get? k = none := rfl

@[simp] theorem get?_set (headers : Headers) (key : κ) (value : ν) (k : String) :
    (headers.set key value).get? k =
      if k = toString key then some (toString value) else headers.get? k :=
  lookup_setEntry _ _ _ _

@[simp] theorem get?_erase (headers : Headers) (key k : String) :
    (headers.erase key).get? k = if k = key then none else headers.get? k :=
  lookup_filter_ne _ _ _

theorem contains_iff_mem_keys (headers : Headers) (key : String) :
    headers.contains key = true ↔ key ∈ headers.keys :=
  lookup_isSome_iff key headers.entries

theorem keys_set_of_mem {headers : Headers} {key : κ} (value : ν)
    (h : toString key ∈ headers.keys) : (headers.set key value).keys = headers.keys :=
  keys_setEntry_of_mem _ h

theorem entries_set_of_not_mem {headers : Headers} {key : κ} (value : ν)
    (h : toString key ∉ headers.keys) :
    (headers.set key value).entries = headers.entries ++ [(toString key, toString value)] :=
  setEntry_of_not_mem _ h

theorem keys_erase (headers : Headers) (key : String) :
    (headers.erase key).keys = headers.keys.filter (· ≠ key) := by
  simp only [keys, erase, List.filter_map]
  rfl

theorem get?_foldl_set (pairs : List (κ × ν)) (headers : Headers) (key : String) :
    (pairs.foldl (fun headers pair => headers.set pair.1 pair.2) headers).get? key =
      (pairs.filterMap fun pair =>
        if toString pair.1 = key then some (toString pair.2) else none).getLast?.or
        (headers.get? key) := by
  induction pairs generalizing headers with
  | nil => rfl
  | cons pair rest ih =>
      rw [List.foldl_cons, ih, get?_set]
      by_cases h : toString pair.1 = key
      · simp [h, List.getLast?_cons, Option.or_some]
      · simp [h, Ne.symm h]

/-- Collected headers hold the value that each key has in the last of its pairs. -/
theorem get?_ofPairs (pairs : List (κ × ν)) (key : String) :
    (ofPairs pairs).get? key =
      (pairs.filterMap fun pair =>
        if toString pair.1 = key then some (toString pair.2) else none).getLast? := by
  rw [ofPairs, get?_foldl_set, get?_empty, Option.or_none]

/-- Only the texts of pairs count. -/
theorem ofPairs_texts (pairs : List (κ × ν)) :
    ofPairs (pairs.map fun pair => (toString pair.1, toString pair.2)) = ofPairs pairs := by
  rw [ofPairs, List.foldl_map]
  rfl

/-! ## Operations after one another -/

theorem entries_set_of_mem {headers : Headers} {key : κ} (value : ν)
    (h : toString key ∈ headers.keys) :
    (headers.set key value).entries = headers.entries.map fun entry =>
      if entry.1 = toString key then (toString key, toString value) else entry :=
  setEntry_of_mem _ headers.nodup_keys h

/-- Of two settings of one key only the later one shows. -/
theorem set_set {μ : Type} [ToString μ] (headers : Headers) (key : κ) (value : μ) (later : ν) :
    (headers.set key value).set key later = headers.set key later :=
  ext (setEntry_setEntry _ _ _ _)

theorem erase_set_self (headers : Headers) (key : κ) (value : ν) :
    (headers.set key value).erase (toString key) = headers.erase (toString key) :=
  ext (filter_ne_setEntry_self _ _ _)

theorem erase_set_of_ne (headers : Headers) {key : κ} {other : String} (h : toString key ≠ other)
    (value : ν) : (headers.set key value).erase other = (headers.erase other).set key value :=
  ext (filter_ne_setEntry h _ _)

theorem erase_comm (headers : Headers) (key other : String) :
    (headers.erase key).erase other = (headers.erase other).erase key := by
  refine ext ?_
  simp only [erase, List.filter_filter, Bool.and_comm]

/-! ## Entries and keys -/

/-- A key that reads as `value` stands in exactly one place, with that value. -/
theorem split_of_get? {headers : Headers} {key value : String}
    (h : headers.get? key = some value) :
    ∃ before after, headers.entries = before ++ (key, value) :: after ∧
      key ∉ before.map Prod.fst ∧ key ∉ after.map Prod.fst := by
  obtain ⟨before, after, hEntries, -⟩ := List.lookup_eq_some_iff.mp h
  have hNodup := headers.nodup_keys
  rw [hEntries, List.map_append, List.map_cons] at hNodup
  obtain ⟨-, hAfter, hApart⟩ := List.nodup_append.mp hNodup
  refine ⟨before, after, hEntries, fun hBefore => ?_, (List.nodup_cons.mp hAfter).1⟩
  exact hApart key hBefore key List.mem_cons_self rfl

theorem entries_foldl_set (entries : List (String × String)) (headers : Headers)
    (h : (headers.keys ++ entries.map Prod.fst).Nodup) :
    (entries.foldl (fun headers entry => headers.set entry.1 entry.2) headers).entries =
      headers.entries ++ entries := by
  induction entries generalizing headers with
  | nil => exact (List.append_nil _).symm
  | cons entry rest ih =>
      have hFresh : toString entry.1 ∉ headers.keys := fun hMem =>
        (List.nodup_append.mp h).2.2 _ hMem _ List.mem_cons_self rfl
      have hEntries := entries_set_of_not_mem entry.2 hFresh
      have hKeys : (headers.set entry.1 entry.2).keys = headers.keys ++ [entry.1] := by
        rw [keys, hEntries, List.map_append]
        rfl
      rw [List.foldl_cons, ih, hEntries, List.append_assoc]
      · rfl
      · rw [hKeys, List.append_assoc]
        exact h

/-- Collecting the entries of headers gives these headers back, in the same order. -/
theorem ofPairs_entries (headers : Headers) : ofPairs headers.entries = headers :=
  ext (entries_foldl_set headers.entries empty headers.nodup_keys)

theorem mem_keys_iff {headers : Headers} {key : String} :
    key ∈ headers.keys ↔ ∃ value, headers.get? key = some value := by
  rw [← contains_iff_mem_keys, contains, Option.isSome_iff_exists]

theorem mem_keys_set {headers : Headers} {key : κ} {value : ν} {k : String} :
    k ∈ (headers.set key value).keys ↔ k = toString key ∨ k ∈ headers.keys := by
  rw [mem_keys_iff, mem_keys_iff, get?_set]
  by_cases h : k = toString key <;> simp [h]

theorem mem_keys_erase {headers : Headers} {key k : String} :
    k ∈ (headers.erase key).keys ↔ k ∈ headers.keys ∧ k ≠ key := by
  rw [keys_erase, List.mem_filter, decide_eq_true_iff]

theorem mem_keys_ofPairs {pairs : List (κ × ν)} {key : String} :
    key ∈ (ofPairs pairs).keys ↔ ∃ pair ∈ pairs, toString pair.1 = key := by
  rw [mem_keys_iff, get?_ofPairs, ← Option.isSome_iff_exists, List.getLast?_isSome, ne_eq,
    List.filterMap_eq_nil_iff]
  simp

theorem keys_set (headers : Headers) (key : κ) (value : ν) :
    (headers.set key value).keys =
      if toString key ∈ headers.keys then headers.keys else headers.keys ++ [toString key] := by
  by_cases h : toString key ∈ headers.keys
  · rw [if_pos h, keys_set_of_mem value h]
  · rw [if_neg h, keys, entries_set_of_not_mem value h, List.map_append]
    rfl

theorem mem_entries_iff {headers : Headers} {key value : String} :
    (key, value) ∈ headers.entries ↔ headers.get? key = some value := by
  constructor
  · intro hMem
    obtain ⟨stored, hStored⟩ := mem_keys_iff.mp (List.mem_map_of_mem hMem)
    obtain ⟨before, after, hEntries, hBefore, hAfter⟩ := split_of_get? hStored
    rw [hEntries, List.mem_append, List.mem_cons] at hMem
    rcases hMem with hMem | hHere | hMem
    · exact absurd (List.mem_map_of_mem hMem) hBefore
    · rw [hStored, (Prod.mk.inj hHere).2]
    · exact absurd (List.mem_map_of_mem hMem) hAfter
  · intro hGet
    obtain ⟨before, after, hEntries, -⟩ := split_of_get? hGet
    rw [hEntries]
    exact List.mem_append_right _ List.mem_cons_self

/-- Headers are their keys in order and what each of them reads. -/
theorem entries_eq_map_keys (headers : Headers) :
    headers.entries = headers.keys.map fun key => (key, (headers.get? key).getD "") := by
  rw [keys, List.map_map]
  symm
  refine (List.map_congr_left ?_).trans (List.map_id _)
  intro entry hEntry
  have hGet : headers.get? entry.1 = some entry.2 := mem_entries_iff.mp hEntry
  simp [hGet]

theorem eq_of_keys_eq {a b : Headers} (hKeys : a.keys = b.keys)
    (hGet : ∀ key, a.get? key = b.get? key) : a = b := by
  apply ext
  rw [entries_eq_map_keys a, entries_eq_map_keys b, hKeys]
  simp only [hGet]

/-- A setting that changes nothing repeats what the key reads. -/
theorem set_eq_self_iff {headers : Headers} {key : κ} {value : ν} :
    headers.set key value = headers ↔ headers.get? (toString key) = some (toString value) := by
  constructor
  · intro h
    rw [← h, get?_set, if_pos rfl]
  · intro h
    apply eq_of_keys_eq
    · exact keys_set_of_mem value (mem_keys_iff.mpr ⟨_, h⟩)
    · intro k
      rw [get?_set]
      split
      · next hKey => rw [hKey, h]
      · rfl

end Headers

end HttpReply
