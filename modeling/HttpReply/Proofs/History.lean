import HttpReply.Headers.Edit
import HttpReply.Headers.Lemmas
import Mathlib.Data.Set.Card

/-!
Headers and their history. A history tells of each key what it was last set to, whether it is
present, and when it arrived; these are properties of the list of edits alone. Headers that were
edited show exactly this, and list the keys that are present in the order of their arrivals.
-/

namespace HttpReply

/-- The edits that collecting pairs amounts to. -/
def Edit.ofPairs {κ ν : Type} [ToString κ] [ToString ν] (pairs : List (κ × ν)) : List Edit :=
  pairs.map fun pair => .set (toString pair.1) (toString pair.2)

/-! ## What a history tells of a key -/

/-- The last setting of the key is to this value, and the key has not been removed since. -/
def LastSet (key value : String) (history : List Edit) : Prop :=
  ∃ before after, history = before ++ .set key value :: after ∧
    (∀ later, .set key later ∉ after) ∧ .remove key ∉ after

/-- The key has been set, and has not been removed since. -/
def Present (key : String) (history : List Edit) : Prop :=
  ∃ value before after, history = before ++ .set key value :: after ∧ .remove key ∉ after

/-- The key was absent when the edit after the first `moment` ones set it, and it has not been
removed since. -/
def ArrivedAt (key : String) (moment : Nat) (history : List Edit) : Prop :=
  ∃ value before after, history = before ++ .set key value :: after ∧
    before.length = moment ∧ ¬ Present key before ∧ .remove key ∉ after

section

variable {history : List Edit} {last : Edit} {key : String}

/-- An edit of a history that is one edit longer is the added one, or stands in the history as
before with the added one behind it. -/
theorem split_concat_iff {edit : Edit} {P : List Edit → List Edit → Prop} :
    (∃ before after, history ++ [last] = before ++ edit :: after ∧ P before after) ↔
      (last = edit ∧ P history []) ∨
        ∃ before after, history = before ++ edit :: after ∧ P before (after ++ [last]) := by
  constructor
  · rintro ⟨before, after, hSplit, hP⟩
    rcases List.eq_nil_or_concat after with rfl | ⟨rest, final, rfl⟩
    · obtain ⟨rfl, hLast⟩ := List.append_inj' hSplit rfl
      exact .inl ⟨List.singleton_inj.mp hLast, hP⟩
    · rw [List.concat_eq_append] at hP hSplit
      rw [← List.cons_append, ← List.append_assoc] at hSplit
      obtain ⟨rfl, hLast⟩ := List.append_inj' hSplit rfl
      obtain rfl := List.singleton_inj.mp hLast
      exact .inr ⟨before, rest, rfl, hP⟩
  · rintro (⟨rfl, hP⟩ | ⟨before, after, rfl, hP⟩)
    · exact ⟨history, [], rfl, hP⟩
    · exact ⟨before, after ++ [last], by simp, hP⟩

theorem not_mem_concat {edit : Edit} {edits : List Edit} :
    edit ∉ edits ++ [last] ↔ edit ∉ edits ∧ last ≠ edit := by
  rw [List.mem_append, List.mem_singleton, not_or, ne_comm, ne_eq]

theorem lastSet_concat {value : String} : LastSet key value (history ++ [last]) ↔
    last = .set key value ∨
      LastSet key value history ∧ (∀ later, last ≠ .set key later) ∧ last ≠ .remove key := by
  rw [LastSet, split_concat_iff]
  refine or_congr (by simp) ⟨?_, ?_⟩
  · rintro ⟨before, after, hSplit, hSet, hRemove⟩
    simp only [not_mem_concat] at hSet hRemove
    exact ⟨⟨before, after, hSplit, fun later => (hSet later).1, hRemove.1⟩,
      fun later => (hSet later).2, hRemove.2⟩
  · rintro ⟨⟨before, after, hSplit, hSet, hRemove⟩, hOther, hKept⟩
    simp only [not_mem_concat]
    exact ⟨before, after, hSplit, fun later => ⟨hSet later, hOther later⟩, hRemove, hKept⟩

theorem present_concat : Present key (history ++ [last]) ↔
    (∃ value, last = .set key value) ∨ Present key history ∧ last ≠ .remove key := by
  simp only [Present, split_concat_iff, exists_or, not_mem_concat]
  refine or_congr (by simp) ⟨?_, ?_⟩
  · rintro ⟨value, before, after, hSplit, hRemove, hKept⟩
    exact ⟨⟨value, before, after, hSplit, hRemove⟩, hKept⟩
  · rintro ⟨⟨value, before, after, hSplit, hRemove⟩, hKept⟩
    exact ⟨value, before, after, hSplit, hRemove, hKept⟩

theorem arrivedAt_concat {moment : Nat} : ArrivedAt key moment (history ++ [last]) ↔
    ((∃ value, last = .set key value) ∧ history.length = moment ∧ ¬ Present key history) ∨
      ArrivedAt key moment history ∧ last ≠ .remove key := by
  simp only [ArrivedAt, split_concat_iff, exists_or, not_mem_concat]
  refine or_congr (by simp) ⟨?_, ?_⟩
  · rintro ⟨value, before, after, hSplit, hMoment, hAbsent, hRemove, hKept⟩
    exact ⟨⟨value, before, after, hSplit, hMoment, hAbsent, hRemove⟩, hKept⟩
  · rintro ⟨⟨value, before, after, hSplit, hMoment, hAbsent, hRemove⟩, hKept⟩
    exact ⟨value, before, after, hSplit, hMoment, hAbsent, hRemove, hKept⟩

theorem ArrivedAt.present {moment : Nat} (arrived : ArrivedAt key moment history) :
    Present key history := by
  obtain ⟨value, before, after, hSplit, -, -, hRemove⟩ := arrived
  exact ⟨value, before, after, hSplit, hRemove⟩

theorem ArrivedAt.lt_length {moment : Nat} (arrived : ArrivedAt key moment history) :
    moment < history.length := by
  obtain ⟨value, before, after, rfl, rfl, -⟩ := arrived
  simp

end

/-! ## What headers show of a history -/

namespace Headers

/-- The headers show what the history tells: the value that each key was last set to, and the keys
that are present, each with a moment of arrival, in the order of these moments. -/
structure Shows (headers : Headers) (history : List Edit) : Prop where
  reads : ∀ key value, headers.get? key = some value ↔ LastSet key value history
  lists : ∀ key, key ∈ headers.keys ↔ Present key history
  arrived : ∀ key ∈ headers.keys, ∃ moment, ArrivedAt key moment history
  ordered : headers.keys.Pairwise fun a b =>
    ∀ i j, ArrivedAt a i history → ArrivedAt b j history → i < j

theorem shows_empty : empty.Shows [] where
  reads := by simp [LastSet]
  lists := by simp [Present, keys]
  arrived := by simp [keys]
  ordered := .nil

variable {headers : Headers} {history : List Edit}

/-- A setting shows. A key that was absent arrives behind all others, and one that was present
keeps its moment and its place. -/
theorem Shows.set (shows : headers.Shows history) (key value : String) :
    (headers.set key value).Shows (history ++ [.set key value]) where
  reads k v := by
    rw [get?_set, lastSet_concat, ← shows.reads]
    change (if k = key then some value else headers.get? k) = some v ↔ _
    by_cases h : k = key
    · simp [h]
    · simp [h, Ne.symm h]
  lists k := by
    rw [mem_keys_set, present_concat, shows.lists]
    change k = key ∨ _ ↔ _
    simp [eq_comm]
  arrived k hk := by
    by_cases hPresent : k ∈ headers.keys
    · obtain ⟨moment, hMoment⟩ := shows.arrived k hPresent
      exact ⟨moment, arrivedAt_concat.mpr (.inr ⟨hMoment, Edit.noConfusion⟩)⟩
    · obtain rfl := (mem_keys_set.mp hk).resolve_right hPresent
      have hAbsent := mt (shows.lists k).mpr hPresent
      exact ⟨history.length, arrivedAt_concat.mpr (.inl ⟨⟨value, rfl⟩, rfl, hAbsent⟩)⟩
  ordered := by
    have hOld : ∀ k ∈ headers.keys, ∀ moment,
        ArrivedAt k moment (history ++ [.set key value]) → ArrivedAt k moment history := by
      intro k hk moment hMoment
      rcases arrivedAt_concat.mp hMoment with ⟨-, -, hAbsent⟩ | ⟨hMoment, -⟩
      · exact absurd ((shows.lists k).mp hk) hAbsent
      · exact hMoment
    have hBefore : headers.keys.Pairwise fun a b => ∀ i j,
        ArrivedAt a i (history ++ [.set key value]) →
          ArrivedAt b j (history ++ [.set key value]) → i < j :=
      shows.ordered.imp_of_mem fun ha hb hLt i j hi hj =>
        hLt i j (hOld _ ha i hi) (hOld _ hb j hj)
    by_cases hPresent : key ∈ headers.keys
    · rwa [keys_set_of_mem value hPresent]
    · rw [keys, entries_set_of_not_mem value hPresent, List.map_append]
      refine List.pairwise_append.mpr ⟨hBefore, List.pairwise_singleton _ _, ?_⟩
      intro a ha b hb i j hi hj
      obtain rfl := List.mem_singleton.mp hb
      have hEarlier : i < history.length := (hOld a ha i hi).lt_length
      rcases arrivedAt_concat.mp hj with ⟨-, rfl, -⟩ | ⟨hMoment, -⟩
      · exact hEarlier
      · exact absurd ((shows.lists _).mpr hMoment.present) hPresent

/-- A removal shows. The keys that stay keep their moments and their order. -/
theorem Shows.erase (shows : headers.Shows history) (key : String) :
    (headers.erase key).Shows (history ++ [.remove key]) where
  reads k v := by
    rw [get?_erase, lastSet_concat, ← shows.reads]
    by_cases h : k = key <;> simp [h, Ne.symm]
  lists k := by
    rw [mem_keys_erase, present_concat, shows.lists]
    simp [eq_comm]
  arrived k hk := by
    obtain ⟨hPresent, hOther⟩ := mem_keys_erase.mp hk
    obtain ⟨moment, hMoment⟩ := shows.arrived k hPresent
    refine ⟨moment, arrivedAt_concat.mpr (.inr ⟨hMoment, fun hSame => ?_⟩)⟩
    exact hOther (Edit.remove.inj hSame).symm
  ordered := by
    rw [keys_erase]
    refine (shows.ordered.filter _).imp fun hLt i j hi hj => hLt i j ?_ ?_
    · exact ((arrivedAt_concat.mp hi).resolve_left (by simp)).1
    · exact ((arrivedAt_concat.mp hj).resolve_left (by simp)).1

theorem Shows.edit (shows : headers.Shows history) (edit : Edit) :
    (headers.edit edit).2.Shows (history ++ [edit]) := by
  cases edit with
  | set key value => exact shows.set key value
  | remove key => exact shows.erase key

theorem Shows.editAll (shows : headers.Shows history) (edits : List Edit) :
    (headers.editAll edits).2.Shows (history ++ edits) := by
  induction edits generalizing headers history with
  | nil => simpa [Headers.editAll] using shows
  | cons edit rest ih => simpa [Headers.editAll] using ih (shows.edit edit)

theorem Shows.size_eq (shows : headers.Shows history) :
    headers.size = Set.ncard {key | Present key history} := by
  have hKeys : {key | Present key history} = (headers.keys.toFinset : Set String) := by
    ext key
    simp [shows.lists]
  have hCard : headers.keys.toFinset.card = headers.keys.length :=
    List.toFinset_card_of_nodup headers.nodup_keys
  rw [hKeys, Set.ncard_coe_finset, hCard]
  exact (List.length_map _).symm

variable {κ ν : Type} [ToString κ] [ToString ν]

theorem editAll_ofPairs (pairs : List (κ × ν)) :
    (empty.editAll (Edit.ofPairs pairs)).2 = ofPairs pairs := by
  rw [ofPairs]
  generalize empty = headers
  induction pairs generalizing headers with
  | nil => rfl
  | cons pair rest ih => exact ih (headers.set pair.1 pair.2)

theorem shows_ofPairs (pairs : List (κ × ν)) : (ofPairs pairs).Shows (Edit.ofPairs pairs) := by
  rw [← editAll_ofPairs]
  exact shows_empty.editAll _

/-! ## What a history is answered -/

theorem editAll_append (headers : Headers) (first rest : List Edit) :
    headers.editAll (first ++ rest) =
      ((headers.editAll first).1 ++ ((headers.editAll first).2.editAll rest).1,
        ((headers.editAll first).2.editAll rest).2) := by
  induction first generalizing headers with
  | nil => rfl
  | cons edit first ih => simp only [List.cons_append, editAll, ih]

theorem length_answers (headers : Headers) (edits : List Edit) :
    (headers.editAll edits).1.length = edits.length := by
  induction edits generalizing headers with
  | nil => rfl
  | cons edit rest ih => simp only [editAll, List.length_cons, ih]

/-- Each edit of a history is answered as it would be by the headers just before it. -/
theorem answer_editAll (headers : Headers) (before : List Edit) (edit : Edit) (after : List Edit) :
    (headers.editAll (before ++ edit :: after)).1[before.length]? =
      some ((headers.editAll before).2.edit edit).1 := by
  rw [editAll_append, ← length_answers headers before, List.getElem?_append_right (Nat.le_refl _),
    Nat.sub_self]
  rfl

/-- Headers that are edited, from collected pairs or from none, are a function of this history. The
keys are those that it leaves present, each reads as it was last set, and they are listed in the
order in which each last arrived. A removal is answered with what its key read just before. -/
theorem editAll_determined {pairs : List (κ × ν)} {edits : List Edit}
    {answers : List (Option String)} {headers : Headers}
    (h : (ofPairs pairs).editAll edits = (answers, headers)) :
    headers.keys.Nodup ∧
    (∀ key value, headers.get? key = some value ↔
      LastSet key value (Edit.ofPairs pairs ++ edits)) ∧
    (∀ key, headers.contains key = true ↔ ∃ value, headers.get? key = some value) ∧
    (∀ key, key ∈ headers.keys ↔ Present key (Edit.ofPairs pairs ++ edits)) ∧
    (∀ key ∈ headers.keys, ∃ moment, ArrivedAt key moment (Edit.ofPairs pairs ++ edits)) ∧
    headers.keys.Pairwise (fun a b => ∀ i j, ArrivedAt a i (Edit.ofPairs pairs ++ edits) →
      ArrivedAt b j (Edit.ofPairs pairs ++ edits) → i < j) ∧
    headers.size = Set.ncard {key | Present key (Edit.ofPairs pairs ++ edits)} ∧
    (headers.isEmpty = true ↔ headers.size = 0) ∧
    ∀ before key after, edits = before ++ .remove key :: after →
      answers[before.length]? = some (((ofPairs pairs).editAll before).2.get? key) := by
  have shows := (shows_ofPairs pairs).editAll edits
  rw [h] at shows
  refine ⟨headers.nodup_keys, shows.reads, ?_, shows.lists, shows.arrived, shows.ordered,
    shows.size_eq, ?_, ?_⟩
  · intro key
    rw [contains_iff_mem_keys, mem_keys_iff]
  · rw [isEmpty, List.isEmpty_iff, size, List.length_eq_zero_iff]
  · rintro before key after rfl
    have hAnswer := answer_editAll (ofPairs pairs) before (.remove key) after
    rw [h] at hAnswer
    exact hAnswer

/-- A pair that repeats a key and a later setting leave the key in its place; a key that is removed
and set again comes last. The key in lower case is another key. -/
theorem editAll_determined_of_return :
    let pairs : List (String × String) := [("B", "2"), ("A", "1"), ("B", "20")]
    let edits : List Edit := [.set "a" "x", .remove "B", .set "A" "10", .set "B" "3", .remove "C"]
    ∃ answers headers, (ofPairs pairs).editAll edits = (answers, headers) ∧
      headers.keys = ["A", "a", "B"] ∧
      LastSet "B" "3" (Edit.ofPairs pairs ++ edits) ∧
      ¬ Present "C" (Edit.ofPairs pairs ++ edits) ∧
      (∀ i j, ArrivedAt "A" i (Edit.ofPairs pairs ++ edits) →
        ArrivedAt "B" j (Edit.ofPairs pairs ++ edits) → i < j) ∧
      headers.size = Set.ncard {key | Present key (Edit.ofPairs pairs ++ edits)} ∧
      answers[1]? = some (some "20") := by
  intro pairs edits
  have h : (ofPairs pairs).editAll edits =
      (((ofPairs pairs).editAll edits).1, ((ofPairs pairs).editAll edits).2) := rfl
  obtain ⟨-, hReads, -, hLists, -, hOrdered, hSize, -, hAnswers⟩ := editAll_determined h
  have hKeys : ((ofPairs pairs).editAll edits).2.keys = ["A", "a", "B"] := by decide
  rw [hKeys] at hOrdered
  refine ⟨_, _, h, hKeys, (hReads "B" "3").mp (by decide), ?_, ?_, hSize, ?_⟩
  · rw [← hLists, hKeys]
    decide
  · exact (List.pairwise_cons.mp hOrdered).1 "B" (by simp)
  · exact (hAnswers [.set "a" "x"] "B" _ rfl).trans (by decide)

end Headers

end HttpReply
