import Veld.Lib.PairTree

/-!
# The whole units of a balance

`floor_total` of `pool/accounting.py`: entitlements are added up by denominator, and bounds with 256 binary
places decide the whole units of the sum.
-/

namespace Veld.Pool

/-- `groups[d] = groups.get(d, 0) + n`. -/
def addTo (d : Nat) (n : Int) : List (Nat × Int) → List (Nat × Int)
  | [] => [(d, n)]
  | g :: groups => if g.1 = d then (d, g.2 + n) :: groups else g :: addTo d n groups

/-- The numerators by denominator; a negative entitlement is refused. -/
def groupValues : List ℚ → List (Nat × Int) → Option (List (Nat × Int))
  | [], groups => some groups
  | v :: values, groups => if 0 ≤ v then groupValues values (addTo v.den v.num groups) else none

def scale : Int := 2 ^ 256

structure SumBounds where
  lower : Int
  upper : Int
  inexact : Bool

def SumBounds.add (b : SumBounds) (g : Nat × Int) : SumBounds :=
  let quotient := g.2 * scale / g.1
  let remainder := g.2 * scale % g.1
  ⟨b.lower + quotient, b.upper + (quotient + if remainder = 0 then 0 else 1), b.inexact || remainder != 0⟩

def SumBounds.maximum (b : SumBounds) : Int := if b.inexact then (b.upper - 1) / scale else b.upper / scale

/-- `Fraction(n, d)`. -/
def fraction (g : Nat × Int) : ℚ := g.2 / g.1

def floorGroups : List (Nat × Int) → Int
  | [] => 0
  | g :: groups =>
    let b := (g :: groups).foldl SumBounds.add ⟨0, 0, false⟩
    let minimum := b.lower / scale
    if minimum = b.maximum then minimum
    else
      let total := PairTree.pairRoot (· + ·) (fraction g) (groups.map fraction)
      total.num / total.den

def floorTotal (values : List ℚ) : Option Int := (groupValues values []).map floorGroups

/-! ## Groups -/

def groupSum (groups : List (Nat × Int)) : ℚ := (groups.map fraction).sum

theorem groupSum_addTo (d : Nat) (n : Int) (groups : List (Nat × Int)) :
    groupSum (addTo d n groups) = groupSum groups + n / d := by
  induction groups with
  | nil => simp [groupSum, addTo, fraction]
  | cons g groups ih =>
    unfold groupSum at ih ⊢
    by_cases hd : g.1 = d
    · simp [addTo, fraction, hd, add_div, add_right_comm]
    · simp [addTo, hd, ih, add_assoc]

theorem map_groupSum_groupValues (values : List ℚ) (groups : List (Nat × Int)) :
    (groupValues values groups).map groupSum =
      if ∀ v ∈ values, 0 ≤ v then some (groupSum groups + values.sum) else none := by
  induction values generalizing groups with
  | nil => simp [groupValues]
  | cons v values ih =>
    by_cases hv : 0 ≤ v
    · simp [groupValues, hv, ih, groupSum_addTo, Rat.num_div_den, add_assoc]
    · simp [groupValues, hv]

/-! ## Bounds -/

theorem scale_pos : 0 < scale := by norm_num [scale]

/-- The sum is at least the lower bound, and below the upper one unless every quotient was exact. -/
structure SumBounds.Holds (b : SumBounds) (s : ℚ) : Prop where
  lower : b.lower ≤ s * scale
  upper : if b.inexact then s * scale < b.upper else s * scale = b.upper

section
variable {b : SumBounds} {s : ℚ} (h : b.Holds s)
include h

theorem SumBounds.Holds.le_upper : s * scale ≤ b.upper := by
  have hupper := h.upper
  split_ifs at hupper
  · exact hupper.le
  · exact hupper.le

theorem SumBounds.Holds.add (g : Nat × Int) : (b.add g).Holds (s + fraction g) := by
  have hscaled : fraction g * scale = ((g.2 * scale : Int) : ℚ) / g.1 := by
    push_cast [fraction]
    ring
  have hle := Int.floor_le (((g.2 * scale : Int) : ℚ) / g.1)
  have hlt := Int.lt_floor_add_one (((g.2 * scale : Int) : ℚ) / g.1)
  rw [Rat.floor_intCast_div_natCast, ← hscaled] at hle hlt
  refine ⟨?_, ?_⟩
  · push_cast [SumBounds.add]
    linarith [h.lower]
  · by_cases hr : g.2 * scale % g.1 = 0
    · have hexact : ((g.2 * scale / g.1 : Int) : ℚ) = fraction g * scale := by
        rw [hscaled, Int.cast_div_charZero (Int.dvd_of_emod_eq_zero hr), Int.cast_natCast]
      simpa [SumBounds.add, hr, add_mul, hexact] using h.upper
    · have hsum : (s + fraction g) * scale < b.upper + ((g.2 * scale / g.1 : Int) + 1) := by
        linarith [h.le_upper]
      simpa [SumBounds.add, hr] using hsum

theorem SumBounds.Holds.foldl (groups : List (Nat × Int)) :
    (groups.foldl SumBounds.add b).Holds (s + groupSum groups) := by
  induction groups generalizing b s with
  | nil => simpa [groupSum] using h
  | cons g groups ih => simpa [groupSum, add_assoc] using ih (h.add g)

theorem SumBounds.Holds.floor : b.lower / scale ≤ ⌊s⌋ ∧ ⌊s⌋ ≤ b.maximum := by
  have hscale : (0 : ℚ) < scale := by exact_mod_cast scale_pos
  have hfloor := mul_le_mul_of_nonneg_right (Int.floor_le s) hscale.le
  refine ⟨Int.le_floor.mpr (le_of_mul_le_mul_right ?_ hscale), ?_⟩
  · exact le_trans (by exact_mod_cast Int.ediv_mul_le b.lower scale_pos.ne') h.lower
  · have hupper := h.upper
    unfold maximum
    split_ifs at hupper ⊢
    · have hlt : ⌊s⌋ * scale < b.upper := by exact_mod_cast hfloor.trans_lt hupper
      exact (Int.le_ediv_iff_mul_le scale_pos).mpr (Int.le_sub_one_of_lt hlt)
    · have hle : ⌊s⌋ * scale ≤ b.upper := by exact_mod_cast hfloor.trans_eq hupper
      exact (Int.le_ediv_iff_mul_le scale_pos).mpr hle

end

theorem pairRoot_add (x : ℚ) (xs : List ℚ) : PairTree.pairRoot (· + ·) x xs = x + xs.sum := by
  have hsum := PairTree.map_pairRoot (· + ·) (fun x y : List ℚ => List.sum_append) [x] (xs.map fun y => [y])
  simpa [PairTree.pairRoot_append, Function.comp_def] using hsum.symm

theorem floorGroups_eq (groups : List (Nat × Int)) : floorGroups groups = ⌊groupSum groups⌋ := by
  cases groups with
  | nil => simp [floorGroups, groupSum]
  | cons g groups =>
    have hstart : (⟨0, 0, false⟩ : SumBounds).Holds 0 := ⟨by simp, by simp⟩
    obtain ⟨hmin, hmax⟩ := (hstart.foldl (g :: groups)).floor
    rw [zero_add] at hmin hmax
    simp only [floorGroups]
    split
    · rename_i hdecided
      exact le_antisymm hmin (hmax.trans_eq hdecided.symm)
    · rw [pairRoot_add, ← Rat.floor_def']
      simp [groupSum]

/-- The whole units of the exact sum, whatever the denominators and the order. -/
theorem floorTotal_eq_floor_sum (values : List ℚ) :
    floorTotal values = if ∀ v ∈ values, 0 ≤ v then some ⌊values.sum⌋ else none := by
  have hfloor : floorGroups = Int.floor ∘ groupSum := funext floorGroups_eq
  rw [floorTotal, hfloor, ← Option.map_map, map_groupSum_groupValues]
  split_ifs
  · simp [groupSum]
  · rfl

end Veld.Pool
