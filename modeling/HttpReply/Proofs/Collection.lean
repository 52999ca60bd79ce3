import HttpReply.Headers.Lemmas
import Mathlib.Data.List.Induction

/-!
Collecting pairs into headers and listing the entries again. A key stands where the first of its
pairs stood and reads what the last of them gave, so pairs come back as they were unless two of them
share a key. Entries never share one, so they always come back.
-/

namespace HttpReply.Headers

variable {κ ν : Type} [ToString κ] [ToString ν]

/-- The texts of pairs. Different keys may have one text, and are then one key. -/
def texts (pairs : List (κ × ν)) : List (String × String) :=
  pairs.map fun pair => (toString pair.1, toString pair.2)

theorem texts_concat (pairs : List (κ × ν)) (last : κ × ν) :
    texts (pairs ++ [last]) = texts pairs ++ [(toString last.1, toString last.2)] :=
  List.map_append

theorem ofPairs_concat (pairs : List (κ × ν)) (last : κ × ν) :
    ofPairs (pairs ++ [last]) = (ofPairs pairs).set last.1 last.2 :=
  List.foldl_append

/-- The keys of pairs that were collected, each where it first occurs. -/
theorem keys_ofPairs (pairs : List (κ × ν)) :
    (ofPairs pairs).keys = ((texts pairs).map Prod.fst).eraseDups := by
  induction pairs using List.reverseRecOn with
  | nil => rfl
  | append_singleton pairs last ih =>
      rw [ofPairs_concat, keys_set, ih, texts_concat, List.map_append, List.eraseDups_append]
      by_cases hKnown : toString last.1 ∈ (texts pairs).map Prod.fst
      · simp [List.removeAll, hKnown]
      · simp [List.removeAll, hKnown, List.eraseDups_cons]

/-- What a key reads is found from the back. -/
theorem get?_ofPairs_eq_lookup (pairs : List (κ × ν)) (key : String) :
    (ofPairs pairs).get? key = (texts pairs).reverse.lookup key := by
  rw [get?_ofPairs, List.getLast?_filterMap, List.lookup_eq_findSome?, texts, ← List.map_reverse,
    List.findSome?_map]
  congr 1
  funext pair
  simp only [Function.comp_apply, beq_iff_eq]
  exact if_congr eq_comm rfl rfl

/-- The value of a key is that of its last pair. -/
theorem mem_entries_ofPairs {pairs : List (κ × ν)} {key value : String} :
    (key, value) ∈ (ofPairs pairs).entries ↔
      ∃ before after, texts pairs = before ++ (key, value) :: after ∧ key ∉ after.map Prod.fst := by
  have hApart (entries : List (String × String)) :
      (∀ entry ∈ entries, (key != entry.1) = true) ↔ key ∉ entries.map Prod.fst := by
    rw [List.mem_map, not_exists]
    exact forall_congr' fun entry => by rw [not_and, bne_iff_ne, ne_comm]
  rw [mem_entries_iff, get?_ofPairs_eq_lookup, List.lookup_eq_some_iff]
  constructor
  · rintro ⟨after, before, hSplit, hAfter⟩
    refine ⟨before.reverse, after.reverse, ?_, ?_⟩
    · rw [List.reverse_eq_iff] at hSplit
      simpa using hSplit
    · rw [List.map_reverse, List.mem_reverse]
      exact (hApart after).mp hAfter
  · rintro ⟨before, after, hSplit, hAfter⟩
    refine ⟨after.reverse, before.reverse, by simp [hSplit], ?_⟩
    apply (hApart after.reverse).mpr
    rwa [List.map_reverse, List.mem_reverse]

/-- Pairs are listed again as they were exactly if no two of them share a key. -/
theorem entries_ofPairs_eq_iff {pairs : List (κ × ν)} :
    (ofPairs pairs).entries = texts pairs ↔ ((texts pairs).map Prod.fst).Nodup := by
  constructor
  · intro hSame
    rw [← hSame]
    exact (ofPairs pairs).nodup_keys
  · intro hDistinct
    rw [← ofPairs_texts]
    exact entries_foldl_set (texts pairs) empty hDistinct

/-- Headers that pairs were collected into list the keys of the pairs in the order in which they
first occur, each with the value of its last occurrence. These are the pairs themselves exactly if
their keys are distinct. The entries of headers of any origin can be collected again, and give the
same headers in the same order. -/
theorem entries_ofPairs_determined (pairs : List (κ × ν)) :
    (ofPairs pairs).entries.map Prod.fst = ((texts pairs).map Prod.fst).eraseDups ∧
    (∀ key value, (key, value) ∈ (ofPairs pairs).entries ↔
      ∃ before after, texts pairs = before ++ (key, value) :: after ∧
        key ∉ after.map Prod.fst) ∧
    ((ofPairs pairs).entries = texts pairs ↔ ((texts pairs).map Prod.fst).Nodup) ∧
    ∀ headers : Headers, ofPairs headers.entries = headers :=
  ⟨keys_ofPairs pairs, fun _ _ => mem_entries_ofPairs, entries_ofPairs_eq_iff, ofPairs_entries⟩

/-- The repeated key keeps the first place and takes the last value; the key in lower case is
another key. -/
example : (ofPairs [("B", "1"), ("A", "2"), ("b", "3"), ("B", "4")]).entries =
    [("B", "4"), ("A", "2"), ("b", "3")] := by
  decide

end HttpReply.Headers
