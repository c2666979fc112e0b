import Mathlib

/-!
# Constant-product pools

A pool of two reserves owned by `shares` units. `worth` is the product of the reserves over the square of the
shares, what one unit is worth at the pool's own price.
-/

namespace ConstantProduct

section Field
variable {K : Type*} [Field K] [LinearOrder K] [IsStrictOrderedRing K]

/-- The reserves' product per squared share. -/
def worth (x y shares : K) : K := x * y / shares ^ 2

/-- Neither reserve falls per share. -/
def LegsGrow (x y shares x' y' shares' : K) : Prop :=
  x / shares ≤ x' / shares' ∧ y / shares ≤ y' / shares'

theorem worth_eq_mul_div (x y shares : K) : worth x y shares = (x / shares) * (y / shares) := by
  unfold worth
  ring

theorem worth_le_of_legsGrow {x y shares x' y' shares' : K} (hx : 0 ≤ x) (hy : 0 ≤ y)
    (hs : 0 < shares) (h : LegsGrow x y shares x' y' shares') :
    worth x y shares ≤ worth x' y' shares' := by
  rw [worth_eq_mul_div, worth_eq_mul_div]
  have hx0 : 0 ≤ x / shares := by positivity
  have hy0 : 0 ≤ y / shares := by positivity
  exact mul_le_mul h.1 h.2 hy0 (hx0.trans h.1)

theorem worth_le_of_product {x y x' y' shares : K} (hs : 0 < shares) (h : x * y ≤ x' * y') :
    worth x y shares ≤ worth x' y' shares := by
  unfold worth
  gcongr

end Field

/-! ## Integer steps -/

theorem cast_ediv_le {n d : Int} (hd : 0 < d) : ((n / d : Int) : ℚ) ≤ (n : ℚ) / d := by
  have hd' : (0 : ℚ) < d := by exact_mod_cast hd
  rw [le_div_iff₀ hd']
  exact_mod_cast Int.ediv_mul_le n hd.ne'

theorem product_le_of_payout {rin rout amt out : Int} (h : out * (rin + amt) ≤ rout * amt) :
    rin * rout ≤ (rin + amt) * (rout - out) := by
  linarith [mul_comm out (rin + amt), mul_comm rout amt, mul_comm rin rout,
    mul_sub (rin + amt) rout out, add_mul rin amt rout]

theorem leg_le_of_burn {reserve shares d paid : Int} (hd : d < shares) (hs : 0 < shares)
    (h : paid * shares ≤ reserve * d) :
    (reserve / shares : ℚ) ≤ (reserve - paid : ℤ) / (shares - d : ℤ) := by
  have hs' : (0 : ℚ) < shares := by exact_mod_cast hs
  have hd' : (0 : ℚ) < (shares - d : ℤ) := by exact_mod_cast sub_pos.mpr hd
  rw [div_le_div_iff₀ hs' hd']
  have key : reserve * (shares - d) ≤ (reserve - paid) * shares := by
    linarith [mul_sub reserve shares d, sub_mul reserve paid shares]
  exact_mod_cast key

theorem leg_le_of_issue {reserve shares deposit minted : Int} (hm : 0 ≤ minted) (hs : 0 < shares)
    (h : minted * reserve ≤ shares * deposit) :
    (reserve / shares : ℚ) ≤ (reserve + deposit : ℤ) / (shares + minted : ℤ) := by
  have hs' : (0 : ℚ) < shares := by exact_mod_cast hs
  have hm' : (0 : ℚ) < (shares + minted : ℤ) := by exact_mod_cast (by omega : 0 < shares + minted)
  rw [div_le_div_iff₀ hs' hm']
  have key : reserve * (shares + minted) ≤ (reserve + deposit) * shares := by
    linarith [mul_add reserve shares minted, add_mul reserve deposit shares,
      mul_comm minted reserve, mul_comm shares deposit]
  exact_mod_cast key

end ConstantProduct
