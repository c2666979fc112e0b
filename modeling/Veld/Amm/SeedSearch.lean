import Veld.Amm.Liquidity

/-!
# The search and the square root of a seed

The binary search of the liveness probe finds the least input that buys anything, and the correction loops of
`IsqrtU128` reach the square root from any estimate.
-/

namespace Veld.Amm

/-! ## The least input -/

/-- The search of the probe, at any fee and up to any bound. -/
def leastInputAt (rin rout fee : Int) (lo hi : Nat) : Nat :=
  if lo < hi then
    let mid := lo + (hi - lo) / 2
    if (swapOut rin rout mid fee).isSome then leastInputAt rin rout fee lo mid
    else leastInputAt rin rout fee (mid + 1) hi
  else lo
termination_by hi - lo

def searchInput (rin rout fee : Int) (bound : Nat) : Option Nat :=
  if (swapOut rin rout bound fee).isSome then some (leastInputAt rin rout fee 1 bound) else none

variable {rin rout fee a b : Int}

theorem grossSwapOut_mono {g : Int} (h : grossSwapOut rin rout a = some g) (hab : a ≤ b) :
    ∃ g', grossSwapOut rin rout b = some g' ∧ g ≤ g' ∧ g' < rout := by
  obtain ⟨hrin, hrout, ha, hg, rfl⟩ := grossSwapOut_eq_some h
  have hlt (c : Int) (hc : 0 < c) : rout * c / (rin + c) < rout :=
    Int.ediv_lt_of_lt_mul (by omega) (mul_lt_mul_of_pos_left (by omega) hrout)
  have hle : rout * a / (rin + a) ≤ rout * b / (rin + b) := by
    refine (Int.le_ediv_iff_mul_le (by omega)).mpr ?_
    have hfloor := Int.ediv_mul_le (rout * a) (by omega : rin + a ≠ 0)
    nlinarith [hlt a ha]
  refine ⟨_, ?_, hle, hlt b (by omega)⟩
  rw [grossSwapOut, if_neg (by omega), if_neg (not_or.mpr ⟨by omega, (hlt b (by omega)).not_ge⟩)]

theorem swapOut_isSome_mono (hfee : 0 ≤ fee) (h : (swapOut rin rout a fee).isSome) (hab : a ≤ b) :
    (swapOut rin rout b fee).isSome := by
  obtain ⟨out, hout⟩ := Option.isSome_iff_exists.mp h
  obtain ⟨hpos, hlt, g, hg, rfl⟩ := swapOut_eq_some hout
  obtain ⟨g', hg', hle, hrout⟩ := grossSwapOut_mono hg hab
  have hdenom : (0 : Int) < feeDenom := by decide
  have hmono : g * (feeDenom - fee) / feeDenom ≤ g' * (feeDenom - fee) / feeDenom :=
    Int.ediv_le_ediv hdenom (mul_le_mul_of_nonneg_right hle (by omega))
  have hnet : g' * (feeDenom - fee) / feeDenom ≤ g' := by
    refine Int.ediv_le_of_le_mul hdenom (mul_le_mul_of_nonneg_left (by omega) ?_)
    have := (grossSwapOut_eq_some hg').2.2.2.1
    omega
  simp only [swapOut, if_neg hlt.not_ge, hg']
  rw [if_neg (not_or.mpr ⟨(hpos.trans_le hmono).not_ge, (hnet.trans_lt hrout).not_ge⟩), Option.isSome_some]

theorem leastInputAt_isLeast {lo hi : Nat} (hfee : 0 ≤ fee) (hle : lo ≤ hi)
    (hhi : (swapOut rin rout hi fee).isSome)
    (hlo : ∀ n : Nat, (swapOut rin rout n fee).isSome → lo ≤ n) :
    IsLeast {n : Nat | (swapOut rin rout n fee).isSome = true} (leastInputAt rin rout fee lo hi) := by
  fun_induction leastInputAt rin rout fee lo hi with
  | case1 lo hi hlt mid hmid ih => exact ih (by omega) hmid hlo
  | case2 lo hi hlt mid hmid ih =>
    refine ih (by omega) hhi fun n hn => ?_
    by_contra hle
    exact hmid (swapOut_isSome_mono hfee hn (by omega))
  | case3 lo hi hge =>
    obtain rfl : lo = hi := by omega
    exact ⟨hhi, hlo⟩

theorem leastInput_eq (lo hi : Nat) : leastInput rin rout lo hi = leastInputAt rin rout ammFeeMinBps lo hi := by
  fun_induction leastInput rin rout lo hi with
  | case1 lo hi hlt mid hmid ih => rw [ih, eq_comm, leastInputAt, if_pos hlt, if_pos hmid]
  | case2 lo hi hlt mid hmid ih => rw [ih, eq_comm, leastInputAt, if_pos hlt, if_neg hmid]
  | case3 lo hi hge => rw [leastInputAt, if_neg hge]

/-- The search finds the least input with an output, and finds nothing only if no input up to the bound has
one; the probe quotes the input it finds. -/
theorem probe_finds_least_input (rin rout : Int) (fee bound : Nat) :
    (∀ n, searchInput rin rout fee bound = some n ↔
      n ≤ bound ∧ IsLeast {n : Nat | (swapOut rin rout n fee).isSome = true} n) ∧
    (searchInput rin rout fee bound = none ↔ ∀ n ≤ bound, swapOut rin rout (n : Nat) fee = none) ∧
    ∀ (P : Profile) (pool : AmmPool) (height : Nat) (sats : Int), minAccountSats ≤ sats → 0 < bound → bound ≤ int64Max →
      probeV2b P pool height (bound + ammSeedLivenessTxFeeUnits) sats =
        (searchInput pool.reserveVeld pool.reserveBtcveld ammFeeMinBps bound).bind fun n =>
          probeSwap P pool true n height := by
  have hfee : (0 : Int) ≤ fee := Int.natCast_nonneg fee
  have hpos (n : Nat) (hn : (swapOut rin rout n fee).isSome) : 1 ≤ n := by
    obtain ⟨out, hout⟩ := Option.isSome_iff_exists.mp hn
    obtain ⟨-, -, g, hg, -⟩ := swapOut_eq_some hout
    have := (grossSwapOut_eq_some hg).2.2.1
    omega
  have hleast (h : (swapOut rin rout bound fee).isSome) := leastInputAt_isLeast hfee (hpos bound h) h hpos
  unfold searchInput
  refine ⟨fun n => ⟨fun h => ?_, fun ⟨hle, hn⟩ => ?_⟩, ⟨fun h n hn => ?_, fun h => ?_⟩,
    fun P pool height sats hsats hbound hmax => ?_⟩
  · split_ifs at h with hsome
    cases h
    exact ⟨(hleast hsome).2 hsome, hleast hsome⟩
  · have hsome := swapOut_isSome_mono hfee hn.1 (Int.ofNat_le.mpr hle)
    rw [if_pos hsome, (hleast hsome).unique hn]
  · by_contra hsome
    rw [if_pos (swapOut_isSome_mono hfee (Option.isSome_iff_ne_none.mpr hsome) (Int.ofNat_le.mpr hn))] at h
    cases h
  · rw [h bound le_rfl]
    rfl
  · unfold probeV2b
    rw [if_neg (by omega)]
    simp only [add_sub_cancel_right, hmax, true_and, Int.toNat_natCast, leastInput_eq]
    split_ifs <;> rfl

/-! ## The square root -/

/-- The first loop of `IsqrtU128` on 128-bit words. -/
def sqrtDownWords (n : Nat) : Nat → Nat
  | 0 => 0
  | x + 1 => if n < (x + 1) * (x + 1) % 2 ^ 128 then sqrtDownWords n x else x + 1

/-- The second loop of `IsqrtU128` on 128-bit words, for at most `fuel` rounds. -/
def sqrtUpWords (n : Nat) : Nat → Nat → Option Nat
  | 0, _ => none
  | fuel + 1, x => if (x + 1) * (x + 1) % 2 ^ 128 ≤ n then sqrtUpWords n fuel (x + 1) else some x

def isqrtWords (estimate n fuel : Nat) : Option Nat :=
  if n = 0 then some 0 else sqrtUpWords n fuel (sqrtDownWords n (estimate + 2))

variable {n x fuel : Nat}

theorem square_mod (hx : x < 2 ^ 64) : x * x % 2 ^ 128 = x * x :=
  Nat.mod_eq_of_lt ((Nat.mul_self_lt_mul_self hx).trans_eq (by norm_num))

theorem sqrtDownWords_le (hx : x < 2 ^ 64) : sqrtDownWords n x ≤ n.sqrt := by
  induction x with
  | zero => exact Nat.zero_le _
  | succ x ih =>
    rw [sqrtDownWords, square_mod hx]
    split_ifs with hlt
    · exact ih (by omega)
    · exact Nat.le_sqrt.mpr (not_lt.mp hlt)

theorem sqrtUpWords_eq (hn : n < 2 ^ 126) (hx : x ≤ n.sqrt) (hfuel : n.sqrt < fuel + x) :
    sqrtUpWords n fuel x = some n.sqrt := by
  have hroot : n.sqrt < 2 ^ 63 := Nat.sqrt_lt.mpr (hn.trans_eq (by norm_num))
  induction fuel generalizing x with
  | zero => omega
  | succ fuel ih =>
    rw [sqrtUpWords, square_mod (by omega)]
    split_ifs with hle
    · exact ih (Nat.le_sqrt.mpr hle) (by omega)
    · rw [hx.antisymm (Nat.le_of_lt_succ (Nat.sqrt_lt.mpr (not_le.mp hle)))]

theorem isqrtWords_eq {estimate : Nat} (hestimate : estimate + 2 < 2 ^ 64) (hn : n < 2 ^ 126) (hfuel : n.sqrt < fuel) :
    isqrtWords estimate n fuel = some n.sqrt := by
  unfold isqrtWords
  split_ifs with hzero
  · rw [hzero, Nat.sqrt_zero]
  · exact sqrtUpWords_eq hn (sqrtDownWords_le hestimate) (by omega)

theorem sqrtDown_le : sqrtDown n x ≤ n.sqrt := by
  fun_induction sqrtDown n x with
  | case1 => exact Nat.zero_le _
  | case2 x hlt ih => exact ih
  | case3 x hge => exact Nat.le_sqrt.mpr (not_lt.mp hge)

theorem sqrtUp_eq (hx : x ≤ n.sqrt) : sqrtUp n x = n.sqrt := by
  fun_induction sqrtUp n x with
  | case1 x hle ih => exact ih (Nat.le_sqrt.mpr hle)
  | case2 x hgt => exact hx.antisymm (Nat.le_of_lt_succ (Nat.sqrt_lt.mpr (not_le.mp hgt)))

theorem isqrtFrom_eq_sqrt (estimate : Nat) : isqrtFrom estimate n = n.sqrt := by
  unfold isqrtFrom
  split_ifs with hzero
  · rw [hzero, Nat.sqrt_zero]
  · exact sqrtUp_eq sqrtDown_le

/-- From every estimate whose square fits, the square root of a product of two amounts is exact; the locked units
of a seed lie between the minimum and the geometric mean of its deposits. -/
theorem seed_root_exact {estimate : Nat} (hestimate : estimate + 2 < 2 ^ 64) :
    (∀ n < 2 ^ 126, ∀ fuel, n.sqrt < fuel → isqrtWords estimate n fuel = some n.sqrt) ∧
    ∀ veld btc market quote, quoteInitialSeedPolicy veld btc market = some quote →
      veld * btc < 2 ^ 126 ∧ quote.grossLp = (veld * btc).toNat.sqrt ∧ minLiquidity ≤ quote.lockedLp ∧
        quote.lockedLp ≤ quote.grossLp ∧ quote.lockedLp * quote.lockedLp ≤ veld * btc := by
  refine ⟨fun n hn fuel => isqrtWords_eq hestimate hn, fun veld btc market quote h => ?_⟩
  obtain ⟨hveld, hbtc, hgross, -, hmin, hlocked⟩ := quoteInitialSeedPolicy_eq_some h
  have hproduct : veld * btc ≤ maxSupplyUnits * ammMaxPoolBtcveldSats := mul_le_mul hveld.2 hbtc.2 hbtc.1 (by decide)
  have hroot : quote.grossLp = (veld * btc).toNat.sqrt := by rw [hgross, isqrtU128, isqrtFrom_eq_sqrt]
  have hsquare := Nat.sqrt_le (veld * btc).toNat
  have hnonneg := mul_nonneg hveld.1 hbtc.1
  refine ⟨hproduct.trans_lt (by decide), hroot, hmin, hlocked, ?_⟩
  have hpos : (0 : Int) ≤ minLiquidity := by decide
  calc quote.lockedLp * quote.lockedLp ≤ quote.grossLp * quote.grossLp :=
        mul_self_le_mul_self (hpos.trans hmin) hlocked
    _ ≤ veld * btc := by
      rw [hroot]
      omega

theorem seed_root_exact_ten : isqrtWords 100 10 4 = some 3 := by
  have hroot : Nat.sqrt 10 = 3 := by norm_num
  rw [← hroot]
  exact (seed_root_exact (by decide : 100 + 2 < 2 ^ 64)).1 10 (by decide) 4 (by omega)

end Veld.Amm
