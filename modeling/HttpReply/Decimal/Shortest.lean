/-!
The shortest decimal that reads back as a given binary number, computed in exact integer
arithmetic.
-/

namespace HttpReply.Decimal

/-- The number `significand * 2 ^ exponent`. -/
structure Binary where
  significand : Nat
  exponent : Int
  deriving DecidableEq, Repr

/-- The number `coefficient * 10 ^ exponent`. -/
structure Digits where
  coefficient : Nat
  exponent : Int
  deriving DecidableEq, Repr

/-- The leading bit of a significand, implied in the bit pattern of all but the smallest
doubles. -/
def impliedBit : Nat := Nat.pow 2 52

/-- The exponent of the smallest doubles. -/
def leastExponent : Int := -1074

/-- The magnitude of a finite double. An exponent field of zero marks a number without the
implicit leading bit. -/
def Binary.ofMagnitude (bits : Nat) : Binary :=
  let fraction := bits % impliedBit
  let field := bits / impliedBit % Nat.pow 2 11
  if field = 0 then ⟨fraction, leastExponent⟩
  else ⟨impliedBit + fraction, leastExponent + (field - 1 : Nat)⟩

/-- The numbers that round to a given double, measured in quarters of its last place: from `low`
to `high`, with the double itself at `centre`. The ends belong to the range iff `closed`. -/
structure Rounding where
  low : Nat
  centre : Nat
  high : Nat
  closed : Bool
  deriving DecidableEq, Repr

/-- Half a place on either side, but only a quarter below a power of two, where the doubles get
twice as dense. Halfway cases round to the even significand. -/
def Binary.rounding (x : Binary) : Rounding where
  low := 4 * x.significand
    - if x.significand = impliedBit ∧ x.exponent ≠ leastExponent then 1 else 2
  centre := 4 * x.significand
  high := 4 * x.significand + 2
  closed := x.significand % 2 = 0

/-- A common scale for quarters of `2 ^ binary` and multiples of `10 ^ decimal`: `a` quarters are
`d` multiples iff `a * quarter = d * unit`. -/
structure Scale where
  quarter : Nat
  unit : Nat

def Scale.of (binary decimal : Int) : Scale where
  quarter := Nat.pow 2 (binary - 2).toNat * Nat.pow 10 (-decimal).toNat
  unit := Nat.pow 2 (2 - binary).toNat * Nat.pow 10 decimal.toNat

def Rounding.contains (r : Rounding) (s : Scale) (d : Nat) : Bool :=
  if r.closed then r.low * s.quarter ≤ d * s.unit && d * s.unit ≤ r.high * s.quarter
  else r.low * s.quarter < d * s.unit && d * s.unit < r.high * s.quarter

/-- The multiple of the grid's unit that lies in the range and is nearest to its centre. Only the
two neighbours of the centre can be; of two that are equally near the larger is taken. -/
def Rounding.nearest? (r : Rounding) (s : Scale) : Option Nat :=
  let below := r.centre * s.quarter / s.unit
  let above := below + 1
  match r.contains s below, r.contains s above with
  | true, true =>
    if above * s.unit - r.centre * s.quarter ≤ r.centre * s.quarter - below * s.unit then
      some above
    else some below
  | true, false => some below
  | false, true => some above
  | false, false => none

/-- A power of ten above the number. The logarithm of two is rounded up, and the two added
places cover the rounding for negative exponents. -/
def Binary.magnitude (x : Binary) : Int :=
  (x.significand.log2 + 1 + x.exponent) * 30103 / 100000 + 2

/-- The grids that are searched, by their exponents from the coarsest on. The number itself is a
point of the last one. -/
def Binary.grids (x : Binary) : List Int :=
  (List.range ((x.magnitude - min x.exponent 0).toNat + 1)).map fun (step : Nat) =>
    x.magnitude - step

/-- The coarsest grid that meets the range of rounding, and on it the nearest point. -/
def Binary.search (x : Binary) : Option Digits :=
  x.grids.findSome? fun exponent =>
    (x.rounding.nearest? (Scale.of x.exponent exponent)).map (⟨·, exponent⟩)

/-! ## The search succeeds -/

theorem Rounding.contains_of_eq_centre {x : Binary} {s : Scale} {d : Nat} (hQuarter : 0 < s.quarter)
    (h : d * s.unit = x.rounding.centre * s.quarter) : x.rounding.contains s d = true := by
  have hLow : x.rounding.low ≤ x.rounding.centre := Nat.sub_le _ _
  have hHigh : x.rounding.centre < x.rounding.high := by
    simp only [Binary.rounding]
    omega
  have hAbove := Nat.mul_lt_mul_of_pos_right hHigh hQuarter
  rw [contains, h]
  split
  · simp only [Bool.and_eq_true, decide_eq_true_eq]
    exact ⟨Nat.mul_le_mul_right _ hLow, Nat.le_of_lt hAbove⟩
  · rename_i hOpen
    have hBelow : x.rounding.low < x.rounding.centre := by
      simp only [Binary.rounding, decide_eq_true_eq] at hOpen ⊢
      split <;> omega
    simp only [Bool.and_eq_true, decide_eq_true_eq]
    exact ⟨Nat.mul_lt_mul_of_pos_right hBelow hQuarter, hAbove⟩

theorem Rounding.contains_of_nearest? {r : Rounding} {s : Scale} {d : Nat}
    (h : r.nearest? s = some d) : r.contains s d = true := by
  unfold nearest? at h
  grind

/-- A grid that the centre lies on meets the range. -/
theorem Rounding.isSome_nearest? {x : Binary} {s : Scale} (hQuarter : 0 < s.quarter)
    (h : s.unit ∣ x.rounding.centre * s.quarter) : (x.rounding.nearest? s).isSome := by
  have hCentre := contains_of_eq_centre hQuarter (Nat.div_mul_cancel h)
  simp only [nearest?, hCentre]
  cases x.rounding.contains s (x.rounding.centre * s.quarter / s.unit + 1) with
  | false => rfl
  | true =>
      dsimp only
      split <;> rfl

/-- The number is a point of the last grid, as ten is divisible by two. -/
theorem Binary.unit_dvd (x : Binary) :
    (Scale.of x.exponent (min x.exponent 0)).unit ∣
      x.rounding.centre * (Scale.of x.exponent (min x.exponent 0)).quarter := by
  have hTen : (min x.exponent 0).toNat = 0 := by omega
  have hPlaces : (2 - x.exponent).toNat ≤ 2 + (-min x.exponent 0).toNat := by omega
  have hUnit : 2 ^ (2 - x.exponent).toNat ∣ 4 * 10 ^ (-min x.exponent 0).toNat := by
    refine Nat.dvd_trans (Nat.pow_dvd_pow 2 hPlaces) ?_
    rw [Nat.pow_add, show 10 = 2 * 5 from rfl, Nat.mul_pow]
    exact Nat.mul_dvd_mul_left 4 (Nat.dvd_mul_right _ _)
  have hMultiple : x.rounding.centre * (Scale.of x.exponent (min x.exponent 0)).quarter =
      4 * 10 ^ (-min x.exponent 0).toNat * (x.significand * 2 ^ (x.exponent - 2).toNat) := by
    change 4 * x.significand * (2 ^ (x.exponent - 2).toNat * 10 ^ (-min x.exponent 0).toNat) = _
    ac_rfl
  rw [hMultiple]
  change 2 ^ (2 - x.exponent).toNat * 10 ^ (min x.exponent 0).toNat ∣ _
  rw [hTen, Nat.pow_zero, Nat.mul_one]
  exact Nat.dvd_mul_right_of_dvd hUnit _

theorem Binary.min_mem_grids (x : Binary) : min x.exponent 0 ∈ x.grids := by
  have hMagnitude : min x.exponent 0 ≤ x.magnitude := by
    unfold magnitude
    omega
  refine List.mem_map.mpr ⟨(x.magnitude - min x.exponent 0).toNat, List.mem_range.mpr ?_, ?_⟩
  · omega
  · omega

theorem Binary.isSome_search (x : Binary) : x.search.isSome := by
  refine List.findSome?_isSome_iff.mpr ⟨_, x.min_mem_grids, ?_⟩
  rw [Option.isSome_map]
  exact Rounding.isSome_nearest? (Nat.mul_pos (Nat.pow_pos (by decide)) (Nat.pow_pos (by decide)))
    x.unit_dvd

/-- The shortest decimal that reads back as the number. -/
def Binary.shortest (x : Binary) : Digits :=
  x.search.get x.isSome_search

/-- What is found lies in the range of rounding, so it reads back as the number. -/
theorem Binary.contains_shortest (x : Binary) :
    x.rounding.contains (Scale.of x.exponent x.shortest.exponent) x.shortest.coefficient =
      true := by
  have hFound : x.search = some x.shortest := (Option.some_get _).symm
  obtain ⟨exponent, -, hNearest⟩ := List.exists_of_findSome?_eq_some hFound
  obtain ⟨coefficient, hPoint, hDigits⟩ := Option.map_eq_some_iff.mp hNearest
  rw [← hDigits]
  exact Rounding.contains_of_nearest? hPoint

end HttpReply.Decimal
