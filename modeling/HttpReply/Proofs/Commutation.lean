import HttpReply.Proofs.Equality

/-!
Which operations on headers commute, and which undo each other. Operations on different keys never
disagree about what a key reads. They disagree about the order only if both are settings and both
keys arrive. On one key the later setting prevails, a removal undoes an arrival, and a key that is
removed and set again has moved to the end.
-/

namespace HttpReply.Headers

/-- Equal headers that list their keys in the same order are the same headers. -/
theorem eq_iff_keys_eq_of_beq {a b : Headers} (h : (a == b) = true) : a = b ↔ a.keys = b.keys :=
  ⟨congrArg keys, fun hKeys => eq_of_keys_eq hKeys (beq_iff_get?.mp h)⟩

/-! ## Two keys -/

section TwoKeys

variable {κ κ' ν ν' : Type} [ToString κ] [ToString κ'] [ToString ν] [ToString ν']
  {first : κ} {second : κ'} (hApart : toString first ≠ toString second) (headers : Headers)

include hApart

theorem beq_set_comm (value : ν) (other : ν') :
    ((headers.set first value).set second other == (headers.set second other).set first value) =
      true := by
  rw [beq_iff_get?]
  intro k
  simp only [get?_set]
  by_cases hFirst : k = toString first
  · rw [if_pos hFirst, if_pos hFirst, if_neg (hFirst ▸ hApart)]
  · rw [if_neg hFirst, if_neg hFirst]

/-- Two settings add those of their keys that were absent, in the order of the settings. -/
theorem keys_set_set (value : ν) (other : ν') :
    ((headers.set first value).set second other).keys =
      headers.keys ++ [toString first, toString second].filter (· ∉ headers.keys) := by
  rw [keys_set, keys_set]
  by_cases hFirst : toString first ∈ headers.keys <;>
    by_cases hSecond : toString second ∈ headers.keys <;>
      simp [hFirst, hSecond, Ne.symm hApart]

theorem keys_set_comm_iff (value : ν) (other : ν') :
    ((headers.set first value).set second other).keys =
        ((headers.set second other).set first value).keys ↔
      toString first ∈ headers.keys ∨ toString second ∈ headers.keys := by
  rw [keys_set_set hApart, keys_set_set (Ne.symm hApart), List.append_cancel_left_eq]
  by_cases hFirst : toString first ∈ headers.keys <;>
    by_cases hSecond : toString second ∈ headers.keys <;>
      simp [hFirst, hSecond, hApart]

theorem remove_set_of_ne (value : ν) :
    (headers.set first value).remove (toString second) =
      ((headers.remove (toString second)).1,
        (headers.remove (toString second)).2.set first value) := by
  simp only [remove, get?_set, if_neg (Ne.symm hApart), erase_set_of_ne headers hApart]

end TwoKeys

/-- A removal is answered the same after one of another key. -/
theorem answer_remove_of_ne (headers : Headers) {key other : String} (h : key ≠ other) :
    ((headers.remove key).2.remove other).1 = (headers.remove other).1 := by
  simp only [remove, get?_erase, if_neg (Ne.symm h)]

/-! ## One key -/

theorem erase_eq_self {headers : Headers} {key : String} (h : key ∉ headers.keys) :
    headers.erase key = headers := by
  apply ext
  apply List.filter_eq_self.mpr
  intro entry hEntry
  exact decide_eq_true (ne_of_mem_of_not_mem (List.mem_map_of_mem hEntry) h)

/-- A member that is moved to the end of a list has kept its place exactly if it was the last. -/
theorem filter_ne_concat_eq_self_iff {x : String} {xs : List String} (hDistinct : xs.Nodup) :
    xs.filter (· ≠ x) ++ [x] = xs ↔ xs.getLast? = some x := by
  constructor
  · intro hSame
    rw [← hSame, List.getLast?_concat]
  · intro hLast
    obtain ⟨front, rfl⟩ := List.getLast?_eq_some_iff.mp hLast
    have hFront : x ∉ front := fun hMem =>
      (List.nodup_append.mp hDistinct).2.2 x hMem x List.mem_cons_self rfl
    have hKept : front.filter (· ≠ x) = front := by
      apply List.filter_eq_self.mpr
      intro y hy
      exact decide_eq_true (ne_of_mem_of_not_mem hy hFront)
    rw [List.filter_append, hKept]
    simp

section OneKey

variable {κ ν : Type} [ToString κ] [ToString ν] {key : κ} {headers : Headers}

/-- A removal undoes an arrival, and answers what arrived. -/
theorem remove_set_of_not_mem (h : toString key ∉ headers.keys) (value : ν) :
    (headers.set key value).remove (toString key) = (some (toString value), headers) := by
  rw [remove, get?_set, if_pos rfl, erase_set_self, erase_eq_self h]

theorem beq_set_erase {value : String} (h : headers.get? (toString key) = some value) :
    ((headers.erase (toString key)).set key value == headers) = true := by
  rw [beq_iff_get?]
  intro k
  rw [get?_set, get?_erase]
  split
  · next hKey => rw [hKey, h]; rfl
  · rfl

theorem keys_set_erase (value : ν) :
    ((headers.erase (toString key)).set key value).keys =
      headers.keys.filter (· ≠ toString key) ++ [toString key] := by
  have hGone : toString key ∉ (headers.erase (toString key)).keys := fun hMem =>
    (mem_keys_erase.mp hMem).2 rfl
  rw [keys_set, if_neg hGone, keys_erase]

theorem keys_set_erase_eq_iff (value : ν) :
    ((headers.erase (toString key)).set key value).keys = headers.keys ↔
      headers.keys.getLast? = some (toString key) := by
  rw [keys_set_erase]
  exact filter_ne_concat_eq_self_iff headers.nodup_keys

end OneKey

/-- Settings and removals of different keys commute up to equality, and but for two arrivals they
do so in the order of the keys too. A setting leaves no trace once its key is set again, or removed
if it was absent before. A key that is removed and set again moves to the end. -/
theorem operations_commute {κ κ' ν ν' : Type} [ToString κ] [ToString κ'] [ToString ν] [ToString ν']
    (headers : Headers) (key : κ) (other : κ') (value : ν) (later : ν') :
    (toString key ≠ toString other →
      (let forth := (headers.set key value).set other later
       let back := (headers.set other later).set key value
       (forth == back) = true ∧
       (forth.keys = back.keys ↔ toString key ∈ headers.keys ∨ toString other ∈ headers.keys) ∧
       (forth = back ↔ forth.keys = back.keys)) ∧
      (headers.set key value).remove (toString other) =
        ((headers.remove (toString other)).1,
          (headers.remove (toString other)).2.set key value) ∧
      (let forth := (headers.remove (toString key)).2.remove (toString other)
       let back := (headers.remove (toString other)).2.remove (toString key)
       forth.2 = back.2 ∧ forth.1 = (headers.remove (toString other)).1 ∧
       back.1 = (headers.remove (toString key)).1)) ∧
    (headers.set key value).set key later = headers.set key later ∧
    (toString key ∉ headers.keys →
      (headers.set key value).remove (toString key) = (some (toString value), headers)) ∧
    ∀ text, headers.get? (toString key) = some text →
      let removed := headers.remove (toString key)
      let back := removed.2.set key text
      removed.1 = some text ∧ (back == headers) = true ∧
      (back.keys = headers.keys ↔ headers.keys.getLast? = some (toString key)) ∧
      (back = headers ↔ back.keys = headers.keys) := by
  refine ⟨?_, set_set headers key value later, fun hAbsent => remove_set_of_not_mem hAbsent value,
    ?_⟩
  · intro hApart
    refine ⟨?_, remove_set_of_ne hApart headers value, ?_⟩
    · intro forth back
      have hEqual : (forth == back) = true := beq_set_comm hApart headers value later
      exact ⟨hEqual, keys_set_comm_iff hApart headers value later, eq_iff_keys_eq_of_beq hEqual⟩
    · exact ⟨erase_comm headers _ _, answer_remove_of_ne headers hApart,
        answer_remove_of_ne headers (Ne.symm hApart)⟩
  · intro text hPresent removed back
    have hEqual : (back == headers) = true := beq_set_erase hPresent
    exact ⟨hPresent, hEqual, keys_set_erase_eq_iff text, eq_iff_keys_eq_of_beq hEqual⟩

/-- Two arrivals show the order of the settings; an arrival and an overwriting do not. The middle
one of three keys comes last when it is removed and set again, and the last one stays in its
place. -/
theorem operations_commute_of_arrivals :
    let headers : Headers := .ofPairs [("A", "1"), ("b", "2"), ("7", "3")]
    ((headers.set "B" "x").set "a" true == (headers.set "a" true).set "B" "x") = true ∧
    ((headers.set "B" "x").set "a" true).keys ≠ ((headers.set "a" true).set "B" "x").keys ∧
    (headers.set "B" "x").set 7 true = (headers.set 7 true).set "B" "x" ∧
    (headers.set "B" "x").remove "B" = (some "x", headers) ∧
    ((headers.remove "b").2.set "b" "2" == headers) = true ∧
    (headers.remove "b").2.set "b" "2" ≠ headers ∧
    (headers.remove "7").2.set 7 "3" = headers := by
  intro headers
  obtain ⟨hApart, -, hAbsent, -⟩ := operations_commute headers "B" "a" "x" true
  obtain ⟨⟨hEqual, hKeys, -⟩, -⟩ := hApart (by decide)
  obtain ⟨hApart', -⟩ := operations_commute headers "B" (7 : Nat) "x" true
  obtain ⟨⟨-, hKeys', hSame'⟩, -⟩ := hApart' (by decide)
  obtain ⟨-, -, -, hPresent⟩ := operations_commute headers "b" "b" "2" "2"
  obtain ⟨-, hBack, hMoved, hSame⟩ := hPresent "2" (by decide)
  obtain ⟨-, -, -, hPresent'⟩ := operations_commute headers (7 : Nat) "7" "3" "3"
  obtain ⟨-, -, hStayed, hSame''⟩ := hPresent' "3" (by decide)
  refine ⟨hEqual, mt hKeys.mp (by decide), hSame'.mpr (hKeys'.mpr (by decide)), hAbsent (by decide),
    hBack, mt hSame.mp (mt hMoved.mp (by decide)), hSame''.mpr (hStayed.mpr (by decide))⟩

end HttpReply.Headers
