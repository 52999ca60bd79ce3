/-!
Ranges of consecutive integers of sixty-four bits. The walk along a range compares before it
counts on, so a range may end at the largest integer. Its members are the integers between its ends,
each once.
-/

namespace HttpReply

theorem toInt_add_one_of_lt {a b : Int64} (h : a < b) : (a + 1).toInt = a.toInt + 1 := by
  have hLower := Int64.le_toInt a
  have hUpper := Int64.toInt_lt b
  have hStep := Int64.lt_iff_toInt_lt.mp h
  rw [Int64.toInt_add, show (1 : Int64).toInt = 1 from rfl]
  exact Int.bmod_eq_of_le (by omega) (by omega)

/-- The integers from `first` up to, but without, `last`. -/
def walk (first last : Int64) : List Int64 :=
  if first < last then first :: walk (first + 1) last else []
termination_by (last.toInt - first.toInt).toNat
decreasing_by
  rename_i h
  have hStep := Int64.lt_iff_toInt_lt.mp h
  rw [toInt_add_one_of_lt h]
  omega

/-- The integers from `first` to `last`, which itself belongs to the range iff `closed`. The
range is empty if `last` comes before `first`. -/
structure IntegerRange where
  first : Int64
  last : Int64
  closed : Bool
  deriving DecidableEq, Repr

/-- The integers of a range in ascending order. -/
def IntegerRange.toList (range : IntegerRange) : List Int64 :=
  if range.closed && range.first ≤ range.last then walk range.first range.last ++ [range.last]
  else walk range.first range.last

/-! ## Members -/

theorem mem_walk {first last : Int64} {n : Int} :
    n ∈ (walk first last).map Int64.toInt ↔ first.toInt ≤ n ∧ n < last.toInt := by
  fun_induction walk first last with
  | case1 first h ih =>
      have hStep := Int64.lt_iff_toInt_lt.mp h
      rw [List.map_cons, List.mem_cons, ih, toInt_add_one_of_lt h]
      omega
  | case2 first h =>
      have hEmpty := mt Int64.lt_iff_toInt_lt.mpr h
      simp only [List.map_nil, List.not_mem_nil, false_iff]
      omega

theorem pairwise_walk (first last : Int64) :
    ((walk first last).map Int64.toInt).Pairwise (· < ·) := by
  fun_induction walk first last with
  | case1 first h ih =>
      refine List.pairwise_cons.mpr ⟨?_, ih⟩
      intro n hn
      have hLower := (mem_walk.mp hn).1
      rw [toInt_add_one_of_lt h] at hLower
      omega
  | case2 first h => exact .nil

namespace IntegerRange

theorem mem_toList {range : IntegerRange} {n : Int} :
    n ∈ range.toList.map Int64.toInt ↔
      range.first.toInt ≤ n ∧
        if range.closed then n ≤ range.last.toInt else n < range.last.toInt := by
  obtain ⟨first, last, closed⟩ := range
  cases closed with
  | false => exact mem_walk
  | true =>
      by_cases h : first ≤ last
      · have hOrder := Int64.le_iff_toInt_le.mp h
        simp only [toList, h, decide_true, Bool.and_self, if_true, List.map_append, List.mem_append,
          mem_walk, List.map_cons, List.map_nil, List.mem_singleton]
        omega
      · have hOrder := mt Int64.le_iff_toInt_le.mpr h
        simp only [toList, h, decide_false, Bool.and_false, Bool.false_eq_true, if_false, mem_walk,
          if_true]
        omega

/-- The integers of a range come in ascending order, each once. -/
theorem pairwise_toList (range : IntegerRange) :
    (range.toList.map Int64.toInt).Pairwise (· < ·) := by
  rw [toList]
  split
  · rw [List.map_append, List.pairwise_append]
    refine ⟨pairwise_walk _ _, List.pairwise_singleton _ _, ?_⟩
    intro n hn last hLast
    obtain rfl := List.mem_singleton.mp hLast
    exact (mem_walk.mp hn).2
  · exact pairwise_walk _ _

/-- A range is empty exactly if its first integer is not in it. -/
theorem map_toList_eq_nil_iff {range : IntegerRange} :
    range.toList.map Int64.toInt = [] ↔
      if range.closed then range.last < range.first else range.last ≤ range.first := by
  simp only [List.eq_nil_iff_forall_not_mem, mem_toList, Int64.lt_iff_toInt_lt,
    Int64.le_iff_toInt_le]
  constructor
  · intro hNone
    have hFirst := hNone range.first.toInt
    cases hClosed : range.closed <;> simp [hClosed] at hFirst ⊢ <;> omega
  · intro hEmpty n
    cases hClosed : range.closed <;> simp [hClosed] at hEmpty ⊢ <;> omega

end IntegerRange

end HttpReply
