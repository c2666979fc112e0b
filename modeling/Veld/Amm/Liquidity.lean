import Veld.Lib.ConstantProduct
import Veld.Amm.DryRun

/-!
# Liquidity is never diluted

A pool starts fresh, is seeded by the first ADD and from then on keeps positive reserves and an LP supply that
is the permanent lock plus the positions.
-/

namespace Veld.Amm

open Wire Program ConstantProduct Table

variable {P : Profile} {C : Crypto} {poolId : Bytes} {op : AmmOp} {tx : Transaction} {height : Nat}

/-! ## What a quote says -/

theorem grossSwapOut_eq_some {rin rout amt gross : Int}
    (h : grossSwapOut rin rout amt = some gross) :
    0 < rin ∧ 0 < rout ∧ 0 < amt ∧ 0 < gross ∧ gross = rout * amt / (rin + amt) := by
  unfold grossSwapOut at h
  split_ifs at h with hpos
  dsimp only at h
  split_ifs at h with hgross
  cases h
  exact ⟨by omega, by omega, by omega, by omega, rfl⟩

variable {rin rout amt fee out : Int}

theorem swapOut_eq_some (h : swapOut rin rout amt fee = some out) :
    0 < out ∧ fee < feeDenom ∧ ∃ gross, grossSwapOut rin rout amt = some gross ∧
      out = gross * (feeDenom - fee) / feeDenom := by
  unfold swapOut at h
  split_ifs at h with hfee
  rcases hgross : grossSwapOut rin rout amt with _ | gross <;> simp only [hgross] at h
  · cases h
  · split_ifs at h with hout
    cases h
    exact ⟨by omega, by omega, gross, rfl, rfl⟩

variable {v2b : Bool}

theorem evalFee_eq_some {p : AmmPool} {e : FeeEval} (h : evalFee p v2b amt fee = some e) :
    e.feeBps = fee ∧ swapOut (reserveIn p v2b) (reserveOut p v2b) amt fee = some e.out ∧
      e.postVeld = postVeld p v2b amt e.out ∧ e.postBtc = postBtcveld p v2b amt e.out := by
  unfold evalFee at h
  rcases hout : swapOut (reserveIn p v2b) (reserveOut p v2b) amt fee with _ | out <;>
    simp only [hout] at h
  · cases h
  · split at h
    · cases h
    · split at h <;> cases h <;> exact ⟨rfl, rfl, rfl, rfl⟩

theorem quoteSwap_eq_ok {p : AmmPool} {quote : SwapQuote}
    (h : quoteSwap P p v2b amt height = .ok quote) :
    quote.feeBps ∈ ammBandFeeBps ∧
      swapOut (reserveIn p v2b) (reserveOut p v2b) amt quote.feeBps = some quote.amountOut ∧
      quote.postReserveVeld = postVeld p v2b amt quote.amountOut ∧
      quote.postReserveBtcveld = postBtcveld p v2b amt quote.amountOut := by
  unfold quoteSwap at h
  split at h
  · cases h
  split at h
  · cases h
  split at h
  · cases h
  rcases hgross : grossSwapOut (reserveIn p v2b) (reserveOut p v2b) amt with _ | gross <;>
    simp only [hgross] at h
  · cases h
  split at h
  · cases h
  split at h
  · unfold quoteFlat at h
    rcases hout : swapOut (reserveIn p v2b) (reserveOut p v2b) amt ammFlatFeeBps with _ | out <;>
      simp only [hout] at h
    · cases h
    · cases h
      exact ⟨(by decide : ammFlatFeeBps ∈ ammBandFeeBps), hout, rfl, rfl⟩
  · unfold quoteFourBand at h
    rcases hfixed : (ammBandFeeBps.filterMap (evalFee p v2b amt)).filter (·.fixedPoint) with
      _ | ⟨e, _ | _⟩ <;> simp only [hfixed] at h
    · cases h
    · cases h
      have hmem : e ∈ ammBandFeeBps.filterMap (evalFee p v2b amt) := by
        have : e ∈ (ammBandFeeBps.filterMap (evalFee p v2b amt)).filter (·.fixedPoint) := by
          rw [hfixed]
          simp
        exact (List.mem_filter.mp this).1
      obtain ⟨fee, hfee, he⟩ := List.mem_filterMap.mp hmem
      obtain ⟨rfl, hout, hveld, hbtc⟩ := evalFee_eq_some he
      exact ⟨hfee, hout, hveld, hbtc⟩
    · cases h

/-! ## Exact amounts -/

/-- The output a swap would have without rounding, after a fee of `fee` basis points. -/
def exactSwapOut (rin rout amt fee : Int) : ℚ :=
  (rout * amt : ℤ) / (rin + amt : ℤ) * ((feeDenom - fee : ℤ) / (feeDenom : ℤ))

/-- Each payout and each issue of shares is at most its exact rational value. -/
inductive RoundsForPool (op : AmmOp) (p p' : AmmPool) : Prop
  | swap (v2b : Bool) (fee : Int)
      (action : AmmAction.ofText op.action = some (if v2b then .swapV2B else .swapB2V)) (charged : fee ∈ ammBandFeeBps)
      (taken : reserveIn p' v2b = reserveIn p v2b + op.amt) (shares : p'.lpSupply = p.lpSupply)
      (paid : (reserveOut p v2b - reserveOut p' v2b : ℤ) ≤
        exactSwapOut (reserveIn p v2b) (reserveOut p v2b) op.amt fee)
  | add (action : AmmAction.ofText op.action = some .add) (deposit : p'.reserveVeld - p.reserveVeld = op.amt)
      (byVeld : ((p'.lpSupply - p.lpSupply : ℤ) : ℚ) ≤
        p.lpSupply * (p'.reserveVeld - p.reserveVeld : ℤ) / p.reserveVeld)
      (byBtcveld : ((p'.lpSupply - p.lpSupply : ℤ) : ℚ) ≤
        p.lpSupply * (p'.reserveBtcveld - p.reserveBtcveld : ℤ) / p.reserveBtcveld)
  | remove (action : AmmAction.ofText op.action = some .remove) (burned : p.lpSupply - p'.lpSupply = op.amt)
      (veld : ((p.reserveVeld - p'.reserveVeld : ℤ) : ℚ) ≤
        p.reserveVeld * (p.lpSupply - p'.lpSupply : ℤ) / p.lpSupply)
      (btcveld : ((p.reserveBtcveld - p'.reserveBtcveld : ℤ) : ℚ) ≤
        p.reserveBtcveld * (p.lpSupply - p'.lpSupply : ℤ) / p.lpSupply)

theorem feeDenom_sub_nonneg (h : fee ∈ ammBandFeeBps) : 0 ≤ fee ∧ fee < feeDenom := by
  unfold ammBandFeeBps at h
  fin_cases h <;> decide

theorem swapOut_le_exact (hfee : fee ∈ ammBandFeeBps) (h : swapOut rin rout amt fee = some out) :
    (out : ℚ) ≤ exactSwapOut rin rout amt fee := by
  obtain ⟨-, -, gross, hgross, rfl⟩ := swapOut_eq_some h
  obtain ⟨hrin, -, hamt, -, rfl⟩ := grossSwapOut_eq_some hgross
  have hpos : (0 : ℚ) ≤ ((feeDenom - fee : ℤ) : ℚ) := by
    exact_mod_cast sub_nonneg.mpr (feeDenom_sub_nonneg hfee).2.le
  have hden : (0 : ℚ) < (feeDenom : ℤ) := by norm_num [feeDenom]
  unfold exactSwapOut
  calc ((rout * amt / (rin + amt) * (feeDenom - fee) / feeDenom : ℤ) : ℚ)
      ≤ ((rout * amt / (rin + amt) * (feeDenom - fee) : ℤ) : ℚ) / (feeDenom : ℤ) :=
        cast_ediv_le (by decide)
    _ = ((rout * amt / (rin + amt) : ℤ) : ℚ) * ((feeDenom - fee : ℤ) / (feeDenom : ℤ)) := by
        push_cast
        ring
    _ ≤ (rout * amt : ℤ) / (rin + amt : ℤ) * ((feeDenom - fee : ℤ) / (feeDenom : ℤ)) := by
        gcongr
        exact cast_ediv_le (by omega)

theorem swapOut_mul_le (hfee : fee ∈ ammBandFeeBps) (h : swapOut rin rout amt fee = some out) :
    out * (rin + amt) ≤ rout * amt := by
  obtain ⟨-, -, gross, hgross, rfl⟩ := swapOut_eq_some h
  obtain ⟨hrin, -, hamt, hpos, rfl⟩ := grossSwapOut_eq_some hgross
  have hle : rout * amt / (rin + amt) * (feeDenom - fee) / feeDenom ≤ rout * amt / (rin + amt) := by
    apply Int.ediv_le_of_le_mul (by decide)
    have := (feeDenom_sub_nonneg hfee).1
    nlinarith
  calc _ ≤ rout * amt / (rin + amt) * (rin + amt) := by gcongr
    _ ≤ rout * amt := Int.ediv_mul_le _ (by omega)

/-! ## Positions -/

section
variable {lp : Table Bytes Int} {key : Bytes}

theorem total_creditLp {minted : Int} (h : 0 ≤ minted) :
    Table.total id (creditLp lp key minted) = Table.total id lp + minted := by
  unfold creditLp
  split
  · have := total_insert (f := id) key (lpOf lp key + minted) lp
    simp only [id_eq, Option.map_id_fun] at this
    unfold lpOf at this ⊢
    omega
  · omega

theorem total_debitLp (amt : Int) :
    Table.total id (debitLp lp key amt) = Table.total id lp - amt := by
  unfold debitLp
  split
  · rename_i hzero
    have := total_erase (f := id) key lp
    simp only [Option.map_id_fun, id_eq] at this
    unfold lpOf at hzero
    omega
  · have := total_insert (f := id) key (lpOf lp key - amt) lp
    simp only [id_eq, Option.map_id_fun] at this
    unfold lpOf at this ⊢
    omega

def PositionsPos (lp : Table Bytes Int) : Prop := ∀ k v, lp.lookup k = some v → 0 < v

section
variable (h : PositionsPos lp)
include h

theorem PositionsPos.lpOf_nonneg (key : Bytes) : 0 ≤ lpOf lp key := by
  unfold lpOf
  rcases hl : lp.lookup key with _ | v
  · simp
  · exact (h key v hl).le

theorem PositionsPos.lpOf_le_total (key : Bytes) : lpOf lp key ≤ Table.total id lp := by
  have hsplit := total_erase (f := id) key lp
  have hrest : 0 ≤ Table.total id (lp.erase key) := by
    refine total_nonneg fun k v hv => ?_
    exact (h k v (lookup_erase_eq_some.mp hv).2).le
  simp only [Option.map_id_fun, id_eq] at hsplit
  unfold lpOf
  omega

theorem PositionsPos.insert {v : Int} (hv : 0 < v) : PositionsPos (lp.insert key v) :=
  forall_insert h hv

theorem PositionsPos.creditLp {minted : Int} : PositionsPos (creditLp lp key minted) := by
  unfold Amm.creditLp
  split
  · exact h.insert (by have := h.lpOf_nonneg key; omega)
  · exact h

theorem PositionsPos.debitLp (hres : lpOf lp key - amt ≠ 0 → lpMinPosition ≤ lpOf lp key - amt) :
    PositionsPos (debitLp lp key amt) := by
  unfold Amm.debitLp
  split
  · intro k w hw
    exact h k w (lookup_erase_eq_some.mp hw).2
  · rename_i hne
    have := hres hne
    exact h.insert (by unfold lpMinPosition at this; omega)

end

end

/-! ## Seeded pools -/

/-- A pool nobody has added to. -/
structure Fresh (poolId : Bytes) (s : OpState) : Prop where
  pool : s.pool = newPool poolId
  lp : s.lp = ∅

/-- Positive reserves, and an LP supply that is the lock plus the positions. -/
structure Seeded (s : OpState) : Prop where
  live : s.pool.utxoValid = true
  veld : 0 < s.pool.reserveVeld
  btcveld : 0 < s.pool.reserveBtcveld
  supply : s.pool.lpSupply = s.pool.lockedLp + Table.total id s.lp
  locked : minLiquidity ≤ s.pool.lockedLp
  positions : PositionsPos s.lp

theorem Seeded.supply_pos {s : OpState} (h : Seeded s) : 0 < s.pool.lpSupply := by
  have hlocked := h.locked
  have htotal : 0 ≤ Table.total id s.lp := total_nonneg fun k v hv => (h.positions k v hv).le
  rw [h.supply]
  unfold minLiquidity at hlocked
  omega

theorem Seeded.held_lt_supply {s : OpState} (h : Seeded s) (key : Bytes) :
    lpOf s.lp key < s.pool.lpSupply := by
  have hheld := h.positions.lpOf_le_total key
  have hlocked := h.locked
  rw [h.supply]
  unfold minLiquidity at hlocked
  omega

theorem Seeded.isSeed_eq_false {s : OpState} (h : Seeded s) : isSeed s.pool = false := by
  have := h.supply_pos
  simp [isSeed, h.live]
  omega

variable {s s' : OpState}

theorem Seeded.apply (h : Seeded s)
    (hrun : applyAmmOp P C poolId op tx false height s = .ok () s') : Seeded s' := by
  obtain ⟨-, o, ho, rfl⟩ := applyAmmOp_live.mp hrun
  cases ho with
  | swapV2B _ htest | swapB2V _ htest =>
    have ht := checkSwap_eq_some htest
    exact ⟨rfl, ht.veldLeft, ht.btcveldLeft, h.supply, h.locked, h.positions⟩
  | @add plan _ htest =>
    have ht := checkAdd_eq_some htest
    rcases ht.branch with ⟨hseed, -⟩ | ⟨-, hd⟩
    · rw [h.isSeed_eq_false] at hseed
      cases hseed
    · have hsupply := h.supply
      have hbtc := h.btcveld
      have hveld := h.veld
      have hamt := ht.amtPos
      have hmove := ht.leg
      simp only [canAmmMove, Bool.and_eq_true, decide_eq_true_eq] at hmove
      refine ⟨rfl, ?_, ?_, ?_, ?_, h.positions.creditLp⟩ <;>
        simp only [Outcome.state, chainPool, AddPlan.pool, AddPlan.lpDelta, hd.notSeed,
          Bool.false_eq_true, if_false, total_creditLp hd.minted.le]
      · omega
      · omega
      · omega
      · exact h.locked
  | @remove plan _ htest =>
    have ht := checkRemove_eq_some htest
    have hsupply := h.supply
    have hleft := ht.veldLeft
    refine ⟨rfl, ?_, ?_, ?_, h.locked, h.positions.debitLp ht.residual⟩ <;>
      simp only [Outcome.state, removedPool, chainPool, total_debitLp]
    · unfold dustThresholdUnits at hleft
      omega
    · have hlt := lt_of_le_of_lt ht.held (h.held_lt_supply _)
      have hpaid : plan.btcveld < s.pool.reserveBtcveld := by
        rw [ht.btcveld]
        exact Int.ediv_lt_of_lt_mul ht.supplyPos (mul_lt_mul_of_pos_left hlt ht.btcveldPos)
      omega
    · omega

theorem Fresh.apply (h : Fresh poolId s)
    (hrun : applyAmmOp P C poolId op tx false height s = .ok () s') : Seeded s' := by
  have hpool := h.pool
  obtain ⟨-, o, ho, rfl⟩ := applyAmmOp_live.mp hrun
  cases ho with
  | swapV2B _ htest | swapB2V _ htest =>
    have hlive := (checkSwap_eq_some htest).live
    simp [hpool, newPool] at hlive
  | @add plan _ htest =>
    have ht := checkAdd_eq_some htest
    rcases ht.branch with ⟨-, hs⟩ | ⟨hseed, -⟩
    · have hamt := ht.amtPos
      have hextra := ht.extraPos
      have hempty : PositionsPos s.lp := by
        rw [h.lp]
        intro k v hv
        simp at hv
      refine ⟨rfl, ?_, ?_, ?_, ?_, hempty.creditLp⟩ <;>
        simp only [Outcome.state, chainPool, AddPlan.pool, AddPlan.lpDelta, hs.isSeed, if_true,
          total_creditLp hs.minted]
      · exact hamt
      · rw [hs.useBtc]
        exact hextra
      · rw [h.lp, total_empty]
        omega
      · exact hs.locked
    · simp [hpool, newPool, isSeed] at hseed
  | remove _ htest =>
    have hlive := (checkRemove_eq_some htest).live
    simp [hpool, newPool] at hlive

/-! ## Growth -/

/-- What one LP unit is worth: the product of the reserves per squared unit. -/
def poolWorth (p : AmmPool) : ℚ := worth (p.reserveVeld : ℚ) p.reserveBtcveld p.lpSupply

/-- Neither reserve falls per LP unit. -/
def PoolLegsGrow (p p' : AmmPool) : Prop :=
  LegsGrow (p.reserveVeld : ℚ) p.reserveBtcveld p.lpSupply p'.reserveVeld p'.reserveBtcveld
    p'.lpSupply

theorem poolWorth_le_of_legsGrow (h : Seeded s) (hl : PoolLegsGrow s.pool s'.pool) :
    poolWorth s.pool ≤ poolWorth s'.pool :=
  worth_le_of_legsGrow (by exact_mod_cast h.veld.le) (by exact_mod_cast h.btcveld.le)
    (by exact_mod_cast h.supply_pos) hl

theorem swap_grows {quote : SwapQuote} (h : Seeded s)
    (haction : AmmAction.ofText op.action = some (if v2b then .swapV2B else .swapB2V))
    (ht : SwapTested P C s.pool op v2b tx s.tokens height quote) :
    poolWorth s.pool ≤ poolWorth (swappedPool C s.pool quote tx) ∧
      RoundsForPool op s.pool (swappedPool C s.pool quote tx) := by
  obtain ⟨hfee, hout, hveld, hbtc⟩ := quoteSwap_eq_ok ht.quoted
  have hsupply : (0 : ℚ) < s.pool.lpSupply := by exact_mod_cast h.supply_pos
  have hproduct := product_le_of_payout (swapOut_mul_le hfee hout)
  have hexact := swapOut_le_exact hfee hout
  constructor
  · refine worth_le_of_product hsupply ?_
    cases v2b <;>
      simp only [swappedPool, chainPool, hveld, hbtc, postVeld, postBtcveld, reserveIn, reserveOut,
        if_true, Bool.false_eq_true, if_false] at hproduct ⊢
    · exact_mod_cast (by linarith : s.pool.reserveVeld * s.pool.reserveBtcveld ≤
        (s.pool.reserveVeld - quote.amountOut) * (s.pool.reserveBtcveld + op.amt))
    · exact_mod_cast hproduct
  · refine .swap v2b quote.feeBps haction hfee ?_ rfl ?_
    · cases v2b <;> simp [swappedPool, chainPool, reserveIn, hveld, hbtc, postVeld, postBtcveld]
    · have hpaid : reserveOut s.pool v2b - reserveOut (swappedPool C s.pool quote tx) v2b =
          quote.amountOut := by
        cases v2b <;> simp [swappedPool, chainPool, reserveOut, hveld, hbtc, postVeld, postBtcveld]
      rw [hpaid]
      exact hexact

theorem deposit_grows {plan : AddPlan} (haction : AmmAction.ofText op.action = some .add)
    (hd : DepositTested s.pool op tx plan) :
    PoolLegsGrow s.pool (chainPool C (plan.pool s.pool op.amt) tx) ∧
      RoundsForPool op s.pool (chainPool C (plan.pool s.pool op.amt) tx) := by
  have hv : plan.minted * s.pool.reserveVeld ≤ s.pool.lpSupply * op.amt :=
    (Int.le_ediv_iff_mul_le hd.veldPos).mp hd.byVeld
  have hb : plan.minted * s.pool.reserveBtcveld ≤ s.pool.lpSupply * plan.useBtc :=
    (Int.le_ediv_iff_mul_le hd.btcveldPos).mp hd.byBtcveld
  have hpool : chainPool C (plan.pool s.pool op.amt) tx = chainPool C { s.pool with
      reserveVeld := s.pool.reserveVeld + op.amt
      reserveBtcveld := s.pool.reserveBtcveld + plan.useBtc
      lpSupply := s.pool.lpSupply + plan.minted } tx := by
    simp [AddPlan.pool, AddPlan.lpDelta, hd.notSeed]
  rw [hpool]
  constructor
  · exact ⟨leg_le_of_issue hd.minted.le hd.supplyPos hv, leg_le_of_issue hd.minted.le hd.supplyPos hb⟩
  · have hveld : (0 : ℚ) < s.pool.reserveVeld := by exact_mod_cast hd.veldPos
    have hbtc : (0 : ℚ) < s.pool.reserveBtcveld := by exact_mod_cast hd.btcveldPos
    refine .add haction (by simp [chainPool]) ?_ ?_ <;> simp only [chainPool, add_sub_cancel_left]
    · rw [le_div_iff₀ hveld]
      exact_mod_cast hv
    · rw [le_div_iff₀ hbtc]
      exact_mod_cast hb

theorem remove_grows {plan : RemovePlan} (h : Seeded s)
    (haction : AmmAction.ofText op.action = some .remove)
    (ht : RemoveTested poolId s.pool op tx s.lp s.tokens plan) :
    PoolLegsGrow s.pool (removedPool C s.pool plan op.amt tx) ∧
      RoundsForPool op s.pool (removedPool C s.pool plan op.amt tx) := by
  have hlt := lt_of_le_of_lt ht.held (h.held_lt_supply _)
  have hv : plan.veld * s.pool.lpSupply ≤ s.pool.reserveVeld * op.amt := by
    rw [ht.veld]
    exact Int.ediv_mul_le _ ht.supplyPos.ne'
  have hb : plan.btcveld * s.pool.lpSupply ≤ s.pool.reserveBtcveld * op.amt := by
    rw [ht.btcveld]
    exact Int.ediv_mul_le _ ht.supplyPos.ne'
  have hsupply : (0 : ℚ) < s.pool.lpSupply := by exact_mod_cast ht.supplyPos
  constructor
  · exact ⟨leg_le_of_burn hlt ht.supplyPos hv, leg_le_of_burn hlt ht.supplyPos hb⟩
  · refine .remove haction (by simp [removedPool, chainPool]) ?_ ?_ <;>
      simp only [removedPool, chainPool, sub_sub_cancel]
    · rw [le_div_iff₀ hsupply]
      exact_mod_cast hv
    · rw [le_div_iff₀ hsupply]
      exact_mod_cast hb

theorem apply_grows (h : Seeded s)
    (hrun : applyAmmOp P C poolId op tx false height s = .ok () s') :
    poolWorth s.pool ≤ poolWorth s'.pool ∧ RoundsForPool op s.pool s'.pool ∧
      (AmmAction.ofText op.action = some .add ∨ AmmAction.ofText op.action = some .remove →
        PoolLegsGrow s.pool s'.pool) := by
  obtain ⟨-, o, ho, rfl⟩ := applyAmmOp_live.mp hrun
  cases ho with
  | swapV2B haction htest | swapB2V haction htest =>
    obtain ⟨hworth, hround⟩ := swap_grows h haction (checkSwap_eq_some htest)
    exact ⟨hworth, hround, by simp [haction]⟩
  | add haction htest =>
    rcases (checkAdd_eq_some htest).branch with ⟨hseed, -⟩ | ⟨-, hd⟩
    · rw [h.isSeed_eq_false] at hseed
      cases hseed
    · obtain ⟨hlegs, hround⟩ := deposit_grows (C := C) haction hd
      exact ⟨poolWorth_le_of_legsGrow h hlegs, hround, fun _ => hlegs⟩
  | remove haction htest =>
    obtain ⟨hlegs, hround⟩ := remove_grows (C := C) h haction (checkRemove_eq_some htest)
    exact ⟨poolWorth_le_of_legsGrow h hlegs, hround, fun _ => hlegs⟩

/-! ## Runs -/

/-- An accepted operation, or any change of the token ledger in between. -/
inductive OpStep (P : Profile) (C : Crypto) (poolId : Bytes) : OpState → OpState → Prop
  | apply {op : AmmOp} {tx : Transaction} {height : Nat} {s s' : OpState}
      (run : applyAmmOp P C poolId op tx false height s = .ok () s') : OpStep P C poolId s s'
  | tokens (s : OpState) (l : Ledger) : OpStep P C poolId s { s with tokens := l }

abbrev OpRun (P : Profile) (C : Crypto) (poolId : Bytes) : OpState → OpState → Prop :=
  Relation.ReflTransGen (OpStep P C poolId)

theorem Seeded.step (h : Seeded s) (hstep : OpStep P C poolId s s') :
    Seeded s' ∧ poolWorth s.pool ≤ poolWorth s'.pool := by
  cases hstep with
  | apply hrun => exact ⟨h.apply hrun, (apply_grows h hrun).1⟩
  | tokens l => exact ⟨⟨h.live, h.veld, h.btcveld, h.supply, h.locked, h.positions⟩, le_rfl⟩

theorem Seeded.run (h : Seeded s) (hrun : OpRun P C poolId s s') :
    Seeded s' ∧ poolWorth s.pool ≤ poolWorth s'.pool := by
  induction hrun with
  | refl => exact ⟨h, le_rfl⟩
  | tail _ hstep ih =>
    obtain ⟨hnext, hworth⟩ := ih.1.step hstep
    exact ⟨hnext, ih.2.trans hworth⟩

theorem fresh_or_seeded {l : Ledger} (hrun : OpRun P C poolId ⟨newPool poolId, ∅, l⟩ s) :
    Fresh poolId s ∨ Seeded s := by
  induction hrun with
  | refl => exact .inl ⟨rfl, rfl⟩
  | tail _ hstep ih =>
    rcases ih with hf | hs
    · cases hstep with
      | apply hrun => exact .inr (hf.apply hrun)
      | tokens l => exact .inl ⟨hf.pool, hf.lp⟩
    · exact .inr (hs.step hstep).1

/-- Liquidity providers are never diluted: from any seeded pool and over any run of operations the
product of the reserves per squared LP unit does not fall, and every single operation of the run
rounds for the pool and, when it is an ADD or a REMOVE, lowers neither reserve per unit. -/
theorem liquidity_never_diluted {l : Ledger}
    (hreach : OpRun P C poolId ⟨newPool poolId, ∅, l⟩ s) (hseeded : isSeed s.pool = false)
    (hrun : OpRun P C poolId s s') :
    0 < s.pool.lpSupply ∧ 0 < s'.pool.lpSupply ∧ poolWorth s.pool ≤ poolWorth s'.pool ∧
      ∀ op tx height s'', applyAmmOp P C poolId op tx false height s' = .ok () s'' →
        RoundsForPool op s'.pool s''.pool ∧
          (AmmAction.ofText op.action = some .add ∨ AmmAction.ofText op.action = some .remove →
            PoolLegsGrow s'.pool s''.pool) := by
  have hs : Seeded s := by
    rcases fresh_or_seeded hreach with hf | hs
    · rw [hf.pool] at hseeded
      cases hseeded
    · exact hs
  obtain ⟨hs', hworth⟩ := hs.run hrun
  exact ⟨hs.supply_pos, hs'.supply_pos, hworth, fun op tx height s'' h => (apply_grows hs' h).2⟩

/-- The first ADD of 100 VELD and 100000 satoshi by the launch authority. -/
def sampleSeedOp : AmmOp := ⟨ascii "ADD", aliceAddress, 10000000000, 100000⟩

def sampleSeedTx : Transaction where
  version := 1
  inputs := [⟨.zero, 1, [], 0xFFFFFFFF⟩]
  outputs := [⟨10000000000, poolVeldScript (ascii "VELD:btcVELD")⟩,
    ⟨200000, addressToScript Crypto.blank.sha256 .sample aliceAddress⟩,
    ⟨0, buildOpReturnScript (encodeAmmOp sampleSeedOp)⟩]
  locktime := 0

def sampleSeed : OpM Unit :=
  applyAmmOp .sample .blank (ascii "VELD:btcVELD") sampleSeedOp sampleSeedTx false 1

def sampleSwap : OpM Unit :=
  let op : AmmOp := ⟨ascii "SWAP_V2B", aliceAddress, 100000000, 1⟩
  applyAmmOp .sample .blank (ascii "VELD:btcVELD") op
    ⟨1, [⟨.ones, 0, [], 0xFFFFFFFF⟩, ⟨.zero, 1, [], 0xFFFFFFFF⟩],
      [⟨10100000000, poolVeldScript (ascii "VELD:btcVELD")⟩,
        ⟨0, buildOpReturnScript (encodeAmmOp op)⟩], 0⟩ false 2

def sampleFresh : OpState where
  pool := newPool (ascii "VELD:btcVELD")
  lp := ∅
  tokens :=
    { Ledger.empty .sample Crypto.blank.sha256 with
      tokens := (∅ : Table Bytes Bytes).insert btcveldTokenId aliceAddress
      balances := (∅ : Table Bytes Int).insert (balanceKey btcveldTokenId aliceAddress) 200000 }

theorem liquidity_never_diluted_seed_swap :
    poolWorth (final sampleSeed sampleFresh).pool ≤
      poolWorth (final sampleSwap (final sampleSeed sampleFresh)).pool := by
  have hseed : OpStep .sample .blank (ascii "VELD:btcVELD") sampleFresh
      (final sampleSeed sampleFresh) := .apply (eq_ok_of_succeeds (by decide +kernel))
  have hswap : OpStep .sample .blank (ascii "VELD:btcVELD") (final sampleSeed sampleFresh)
      (final sampleSwap (final sampleSeed sampleFresh)) :=
    .apply (eq_ok_of_succeeds (by decide +kernel))
  exact (liquidity_never_diluted (.single hseed) (by decide +kernel) (.single hswap)).2.2.1

end Veld.Amm
