import HttpReply.Headers.Edit
import HttpReply.Proofs.Collection
import Mathlib.Data.List.Nodup
import Mathlib.Data.List.Perm.Subperm

/-!
Equality of headers that disregards the order. It is decided by looking the entries of one side up
in the other, and says that both sides have the same entries. It is an equivalence, and edits keep
it.
-/

namespace HttpReply.Headers

theorem nodup_entries (headers : Headers) : headers.entries.Nodup :=
  List.Nodup.of_map Prod.fst headers.nodup_keys

/-- Headers have the same entries exactly if every key reads the same in both. -/
theorem perm_entries_iff {a b : Headers} :
    a.entries.Perm b.entries ↔ ∀ key, a.get? key = b.get? key := by
  rw [List.perm_ext_iff_of_nodup a.nodup_entries b.nodup_entries]
  constructor
  · intro hMem key
    apply Option.ext
    intro value
    rw [← mem_entries_iff, ← mem_entries_iff]
    exact hMem (key, value)
  · intro hGet entry
    obtain ⟨key, value⟩ := entry
    rw [mem_entries_iff, mem_entries_iff, hGet]

/-- The check looks from one side only. As the keys are distinct, the two sides cannot be of one
size without its being right about the other side too. -/
theorem beq_iff_perm {a b : Headers} : (a == b) = true ↔ a.entries.Perm b.entries := by
  change (a.size == b.size && a.entries.all fun entry => b.get? entry.1 == some entry.2) = true ↔ _
  rw [Bool.and_eq_true, beq_iff_eq, List.all_eq_true]
  constructor
  · rintro ⟨hSize, hFound⟩
    have hSubset : a.entries ⊆ b.entries := by
      intro entry hEntry
      exact mem_entries_iff.mpr (beq_iff_eq.mp (hFound entry hEntry))
    have hLength : b.entries.length ≤ a.entries.length := Nat.le_of_eq hSize.symm
    exact (List.subperm_of_subset a.nodup_entries hSubset).perm_of_length_le hLength
  · intro hPerm
    refine ⟨hPerm.length_eq, ?_⟩
    intro entry hEntry
    exact beq_iff_eq.mpr (mem_entries_iff.mp (hPerm.mem_iff.mp hEntry))

theorem beq_iff_get? {a b : Headers} : (a == b) = true ↔ ∀ key, a.get? key = b.get? key :=
  beq_iff_perm.trans perm_entries_iff

instance : EquivBEq Headers where
  rfl := beq_iff_perm.mpr (List.Perm.refl _)
  symm h := beq_iff_perm.mpr (beq_iff_perm.mp h).symm
  trans h later := beq_iff_perm.mpr ((beq_iff_perm.mp h).trans (beq_iff_perm.mp later))

/-- Pairs that do not share a key can be collected in any order. -/
theorem beq_ofPairs_of_perm {κ ν : Type} [ToString κ] [ToString ν] {pairs others : List (κ × ν)}
    (hDistinct : ((texts pairs).map Prod.fst).Nodup) (hPerm : pairs.Perm others) :
    (ofPairs pairs == ofPairs others) = true := by
  have hTexts : (texts pairs).Perm (texts others) := hPerm.map _
  have hOthers : ((texts others).map Prod.fst).Nodup :=
    (hTexts.map Prod.fst).nodup_iff.mp hDistinct
  rw [beq_iff_perm, entries_ofPairs_eq_iff.mpr hDistinct, entries_ofPairs_eq_iff.mpr hOthers]
  exact hTexts

/-! ## Edits -/

section Edits

variable {a b : Headers}

theorem size_eq_of_beq (h : (a == b) = true) : a.size = b.size :=
  (beq_iff_perm.mp h).length_eq

theorem answer_edit_of_beq (h : (a == b) = true) (edit : Edit) :
    (a.edit edit).1 = (b.edit edit).1 := by
  cases edit with
  | set key value => rfl
  | remove key => exact beq_iff_get?.mp h key

/-- An edit looks at what a key reads and not at where it stands. -/
theorem beq_edit (h : (a == b) = true) (edit : Edit) :
    ((a.edit edit).2 == (b.edit edit).2) = true := by
  rw [beq_iff_get?] at h ⊢
  intro k
  cases edit with
  | set key value =>
      change (a.set key value).get? k = (b.set key value).get? k
      rw [get?_set, get?_set, h]
  | remove key =>
      change (a.erase key).get? k = (b.erase key).get? k
      rw [get?_erase, get?_erase, h]

theorem beq_editAll (h : (a == b) = true) (edits : List Edit) :
    ((a.editAll edits).2 == (b.editAll edits).2) = true := by
  apply related_editAll (R := fun a b => (a == b) = true) _ h
  intro a b edit hEqual
  exact beq_edit hEqual edit

theorem answers_editAll_of_beq (h : (a == b) = true) (edits : List Edit) :
    (a.editAll edits).1 = (b.editAll edits).1 := by
  induction edits generalizing a b with
  | nil => rfl
  | cons edit rest ih =>
      have hRest := ih (beq_edit h edit)
      simp only [editAll, answer_edit_of_beq h edit, hRest]

end Edits

/-- Headers are equal exactly if every key reads the same in both, and exactly if their entries are
the same up to order. Pairs with distinct keys give equal headers in any order, and equal headers
stay equal under any edits and answer them alike. -/
theorem beq_extensional {κ ν : Type} [ToString κ] [ToString ν] :
    (∀ a b : Headers, ((a == b) = true ↔ ∀ key, a.get? key = b.get? key) ∧
      ((a == b) = true ↔ a.entries.Perm b.entries) ∧ (a == b) = (b == a)) ∧
    (∀ a b c : Headers, (a == b) = true → (b == c) = true → (a == c) = true) ∧
    (∀ pairs others : List (κ × ν), (pairs.map fun pair => toString pair.1).Nodup →
      pairs.Perm others → (ofPairs pairs == ofPairs others) = true) ∧
    ∀ a b : Headers, (a == b) = true → ∀ edits : List Edit,
      (a.editAll edits).1 = (b.editAll edits).1 ∧
      ((a.editAll edits).2 == (b.editAll edits).2) = true ∧
      (∀ key, (a.editAll edits).2.get? key = (b.editAll edits).2.get? key ∧
        (a.editAll edits).2.contains key = (b.editAll edits).2.contains key) ∧
      (a.editAll edits).2.size = (b.editAll edits).2.size := by
  refine ⟨fun a b => ⟨beq_iff_get?, beq_iff_perm, BEq.comm⟩, fun a b c => BEq.trans, ?_, ?_⟩
  · intro pairs others hDistinct hPerm
    apply beq_ofPairs_of_perm _ hPerm
    rw [texts, List.map_map]
    exact hDistinct
  · intro a b h edits
    have hEdited := beq_editAll h edits
    have hGet := beq_iff_get?.mp hEdited
    refine ⟨answers_editAll_of_beq h edits, hEdited, ?_, size_eq_of_beq hEdited⟩
    intro key
    exact ⟨hGet key, congrArg Option.isSome (hGet key)⟩

/-- Two orders of the same pairs. The headers are equal without being the same, and stay so when a
key is overwritten, another one removed and set again, and a third one removed in vain. -/
theorem beq_extensional_of_reordered :
    let pairs : List (String × String) := [("A", "1"), ("B", "2"), ("a", "3")]
    let others : List (String × String) := [("a", "3"), ("B", "2"), ("A", "1")]
    let edits : List Edit := [.set "A" "10", .remove "B", .set "B" "20", .remove "C"]
    (ofPairs pairs == ofPairs others) = true ∧ (ofPairs others == ofPairs pairs) = true ∧
    (ofPairs pairs).keys ≠ (ofPairs others).keys ∧
    ((ofPairs pairs).editAll edits).1 = ((ofPairs others).editAll edits).1 ∧
    (((ofPairs pairs).editAll edits).2 == ((ofPairs others).editAll edits).2) = true ∧
    ((ofPairs others).editAll edits).2.get? "A" = some "10" := by
  intro pairs others edits
  obtain ⟨hIff, -, hCollect, hEdits⟩ := beq_extensional (κ := String) (ν := String)
  have hPerm : pairs.Perm others := by decide
  have hEqual := hCollect pairs others (by decide) hPerm
  obtain ⟨hAnswers, hEdited, hReadings, -⟩ := hEdits _ _ hEqual edits
  refine ⟨hEqual, (hIff _ _).2.2.symm.trans hEqual, by decide, hAnswers, hEdited, ?_⟩
  exact (hReadings "A").1.symm.trans (by decide)

end HttpReply.Headers
