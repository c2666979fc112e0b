import Veld.Amm.Liquidity

/-!
# The four-band fee

A fee of the four-band schedule is charged when the reserves it leaves lie in the band of that fee.
-/

namespace Veld.Amm

open List

section
variable {p : AmmPool} {veldIn : Bool} {amt f g out out' : Int}

/-- The distance from the anchor that an output leaves. -/
def distanceAfter (p : AmmPool) (veldIn : Bool) (amt out : Int) : Int :=
  anchorCrossDistance (postVeld p veldIn amt out) (postBtcveld p veldIn amt out) p.anchorVeld p.anchorBtcveld

/-- The trade does not move the price away from the anchor. -/
def Heals (p : AmmPool) (veldIn : Bool) (amt out : Int) : Prop :=
  distanceAfter p veldIn amt out * p.reserveBtcveld ≤
    anchorCrossDistance p.reserveVeld p.reserveBtcveld p.anchorVeld p.anchorBtcveld * postBtcveld p veldIn amt out

/-- What the candidate loop asks of a fee that it counts as valid. -/
structure Charged (p : AmmPool) (veldIn : Bool) (amt f out : Int) : Prop where
  output : swapOut (reserveIn p veldIn) (reserveOut p veldIn) amt f = some out
  veld : 0 < postVeld p veldIn amt out
  btcveld : 0 < postBtcveld p veldIn amt out
  fee : Heals p veldIn amt out ∧ f = ammFeeMinBps ∨ ¬Heals p veldIn amt out ∧
    (bandFeeBps (distanceAfter p veldIn amt out) (postBtcveld p veldIn amt out * p.anchorVeld)).1 = f

theorem charged_of_fixedPoint {e : FeeEval} (h : evalFee p veldIn amt f = some e) (hfixed : e.fixedPoint) :
    Charged p veldIn amt f e.out := by
  unfold evalFee at h
  cases hout : swapOut (reserveIn p veldIn) (reserveOut p veldIn) amt f with
  | none => simp [hout] at h
  | some out =>
    simp only [hout] at h
    split_ifs at h with hpos hheals
    · cases h
      rw [not_or, not_le, not_le] at hpos
      exact ⟨hout, hpos.1, hpos.2, .inl ⟨hheals, by simpa using hfixed⟩⟩
    · cases h
      rw [not_or, not_le, not_le] at hpos
      exact ⟨hout, hpos.1, hpos.2, .inr ⟨hheals, eq_of_beq hfixed⟩⟩

theorem swapOut_antitone {rin rout : Int} (hfg : f ≤ g) (hout : swapOut rin rout amt f = some out)
    (hout' : swapOut rin rout amt g = some out') : out' ≤ out := by
  obtain ⟨-, -, gross, hgross, rfl⟩ := swapOut_eq_some hout
  obtain ⟨-, -, gross', hgross', rfl⟩ := swapOut_eq_some hout'
  rw [hgross] at hgross'
  cases hgross'
  have hpos := (grossSwapOut_eq_some hgross).2.2.2.1
  exact Int.ediv_le_ediv (by decide) (mul_le_mul_of_nonneg_left (by omega) hpos.le)

/-- A pool that can quote: both reserves and the anchor are positive. -/
structure Anchored (p : AmmPool) : Prop where
  veld : 0 < p.reserveVeld
  btcveld : 0 < p.reserveBtcveld
  anchorVeld : 0 < p.anchorVeld
  anchorBtcveld : 0 < p.anchorBtcveld

theorem overshoots (hp : Anchored p) (hamt : 0 < amt) (hout : 0 < out) (hworse : ¬Heals p veldIn amt out) :
    if veldIn then postBtcveld p veldIn amt out * p.anchorVeld < postVeld p veldIn amt out * p.anchorBtcveld
    else postVeld p veldIn amt out * p.anchorBtcveld < postBtcveld p veldIn amt out * p.anchorVeld := by
  obtain ⟨hv, hb, hav, hab⟩ := hp
  unfold Heals distanceAfter anchorCrossDistance at hworse
  cases veldIn with
  | true =>
    simp only [postVeld, postBtcveld, if_true] at hworse ⊢
    by_contra hle
    rw [not_lt] at hle
    -- between the old price and the anchor: nearer than before
    have hbefore : p.reserveVeld * p.anchorBtcveld ≤ p.reserveBtcveld * p.anchorVeld := by nlinarith
    rw [abs_of_nonpos (by linarith), abs_of_nonpos (by linarith)] at hworse
    refine hworse ?_
    nlinarith [mul_pos hab hamt, mul_pos hab hout, mul_pos (mul_pos hab hamt) hb, mul_pos (mul_pos hab hv) hout]
  | false =>
    simp only [postVeld, postBtcveld, Bool.false_eq_true, if_false] at hworse ⊢
    by_contra hle
    rw [not_lt] at hle
    have hbefore : p.reserveBtcveld * p.anchorVeld ≤ p.reserveVeld * p.anchorBtcveld := by nlinarith
    rw [abs_of_nonneg (by linarith), abs_of_nonneg (by linarith)] at hworse
    refine hworse ?_
    nlinarith [mul_pos hab hamt, mul_pos hab hout, mul_pos (mul_pos hab hout) hb, mul_pos (mul_pos hab hv) hamt]

theorem distance_le_of_worse (hp : Anchored p) (hamt : 0 < amt) (hpos : 0 < out') (hle : out' ≤ out)
    (hworse : ¬Heals p veldIn amt out') :
    distanceAfter p veldIn amt out' ≤ distanceAfter p veldIn amt out ∧
      postBtcveld p veldIn amt out ≤ postBtcveld p veldIn amt out' := by
  have hover := overshoots hp hamt hpos hworse
  obtain ⟨hv, hb, hav, hab⟩ := hp
  unfold distanceAfter anchorCrossDistance
  cases veldIn with
  | true =>
    simp only [postVeld, postBtcveld, if_true] at hover ⊢
    refine ⟨?_, by omega⟩
    rw [abs_of_pos (by linarith)]
    refine le_trans ?_ (le_abs_self _)
    nlinarith
  | false =>
    simp only [postVeld, postBtcveld, Bool.false_eq_true, if_false] at hover ⊢
    refine ⟨?_, le_rfl⟩
    rw [abs_of_neg (by linarith)]
    refine le_trans ?_ (neg_le_abs _)
    nlinarith

theorem bandFeeBps_mono {delta den delta' den' : Int} (hden : 0 < den) (hdelta : delta' ≤ delta) (hle : den ≤ den') :
    (bandFeeBps delta' den').1 ≤ (bandFeeBps delta den).1 := by
  unfold bandFeeBps feeDenom
  split_ifs <;> omega

theorem ammFeeMinBps_le (hf : f ∈ ammBandFeeBps) : ammFeeMinBps ≤ f := by
  unfold ammBandFeeBps at hf
  fin_cases hf <;> decide

theorem Charged.not_below (hp : Anchored p) (hf : f ∈ ammBandFeeBps) (hlt : f < g) (h : Charged p veldIn amt f out) :
    ¬Charged p veldIn amt g out' := by
  intro h'
  obtain ⟨hpos, -, gross, hgross, -⟩ := swapOut_eq_some h'.output
  have hamt : 0 < amt := (grossSwapOut_eq_some hgross).2.2.1
  have hmin := ammFeeMinBps_le hf
  have hle := swapOut_antitone hlt.le h.output h'.output
  obtain ⟨-, heq⟩ | ⟨hworse, hband'⟩ := h'.fee
  · omega
  obtain ⟨hdistance, hbtc⟩ := distance_le_of_worse hp hamt hpos hle hworse
  obtain ⟨hheals, -⟩ | ⟨-, hband⟩ := h.fee
  -- what heals under the lower fee heals under the higher one
  · refine hworse ?_
    calc distanceAfter p veldIn amt out' * p.reserveBtcveld
        ≤ distanceAfter p veldIn amt out * p.reserveBtcveld := mul_le_mul_of_nonneg_right hdistance hp.btcveld.le
      _ ≤ _ := hheals
      _ ≤ _ := mul_le_mul_of_nonneg_left hbtc (abs_nonneg _)
  · have hmono := bandFeeBps_mono (mul_pos h.btcveld hp.anchorVeld) hdistance
      (mul_le_mul_of_nonneg_right hbtc hp.anchorVeld.le)
    omega

/-- `quoteFourBand` with the candidates in another order. -/
def quoteOver (fees : List Int) (p : AmmPool) (veldIn : Bool) (amt gross : Int) : Except SwapRejectCode SwapQuote :=
  let evals := fees.filterMap (evalFee p veldIn amt)
  match evals.filter (·.fixedPoint) with
  | [e] => .ok ⟨gross, e.out, gross - e.out, e.feeBps, e.rebalances, e.band, e.postVeld, e.postBtc⟩
  | _ => .error (if evals.isEmpty then .invalidState else .feeScheduleNoFixedPoint)

theorem fixedPoint_unique (hp : Anchored p) (hf : f ∈ ammBandFeeBps) (hg : g ∈ ammBandFeeBps) {e e' : FeeEval}
    (he : evalFee p veldIn amt f = some e) (he' : evalFee p veldIn amt g = some e') (hfixed : e.fixedPoint)
    (hfixed' : e'.fixedPoint) : f = g := by
  have hcharged := charged_of_fixedPoint he hfixed
  have hcharged' := charged_of_fixedPoint he' hfixed'
  obtain hlt | heq | hlt := lt_trichotomy f g
  · exact absurd hcharged' (hcharged.not_below hp hf hlt)
  · exact heq
  · exact absurd hcharged (hcharged'.not_below hp hg hlt)

theorem length_fixedPoints (hp : Anchored p) (veldIn : Bool) (amt : Int) :
    ((ammBandFeeBps.filterMap (evalFee p veldIn amt)).filter (·.fixedPoint)).length ≤ 1 := by
  have hpairs : ((ammBandFeeBps.filterMap (evalFee p veldIn amt)).filter (·.fixedPoint)).Pairwise fun _ _ => False := by
    rw [pairwise_filter, pairwise_filterMap]
    refine (by decide : ammBandFeeBps.Pairwise (· ≠ ·)).imp_of_mem ?_
    intro f g hf hg hne e he e' he' hfixed hfixed'
    exact hne (fixedPoint_unique hp hf hg he he' hfixed hfixed')
  cases hl : (ammBandFeeBps.filterMap (evalFee p veldIn amt)).filter (·.fixedPoint) with
  | nil => simp
  | cons e rest =>
    rw [hl, pairwise_cons] at hpairs
    cases rest with
    | nil => simp
    | cons e' rest => exact (hpairs.1 e' mem_cons_self).elim

/-- On a pool with reserves and an anchor at most one fee of the schedule is its own fixed point: the branch for
several is never taken, and the quote does not depend on the order of the candidates. -/
theorem one_fee_is_charged (hp : Anchored p) (veldIn : Bool) (amt : Int) :
    (∀ f ∈ ammBandFeeBps, ∀ g ∈ ammBandFeeBps, ∀ e e', evalFee p veldIn amt f = some e →
      evalFee p veldIn amt g = some e' → e.fixedPoint → e'.fixedPoint → f = g) ∧
    ((ammBandFeeBps.filterMap (evalFee p veldIn amt)).filter (·.fixedPoint)).length ≤ 1 ∧
    ∀ fees : List Int, fees.Perm ammBandFeeBps → ∀ gross,
      quoteOver fees p veldIn amt gross = quoteFourBand p veldIn amt gross := by
  have hlength := length_fixedPoints hp veldIn amt
  refine ⟨fun f hf g hg e e' he he' => fixedPoint_unique hp hf hg he he', hlength, fun fees hperm gross => ?_⟩
  have hevals := hperm.filterMap (evalFee p veldIn amt)
  have hsame : (fees.filterMap (evalFee p veldIn amt)).filter (·.fixedPoint) =
      (ammBandFeeBps.filterMap (evalFee p veldIn amt)).filter (·.fixedPoint) := by
    have hfixed := hevals.filter (·.fixedPoint)
    cases hl : (ammBandFeeBps.filterMap (evalFee p veldIn amt)).filter (·.fixedPoint) with
    | nil => exact (hl ▸ hfixed).eq_nil
    | cons e rest =>
      rw [hl, length_cons] at hlength
      obtain rfl : rest = [] := length_eq_zero_iff.mp (by omega)
      exact (hl ▸ hfixed).eq_singleton
  have hempty : (fees.filterMap (evalFee p veldIn amt)).isEmpty =
      (ammBandFeeBps.filterMap (evalFee p veldIn amt)).isEmpty := by
    rw [Bool.eq_iff_iff, isEmpty_iff_length_eq_zero, isEmpty_iff_length_eq_zero, hevals.length_eq]
  have hfour : quoteFourBand p veldIn amt gross = quoteOver ammBandFeeBps p veldIn amt gross := rfl
  rw [hfour, quoteOver, quoteOver, hsame, hempty]

theorem one_fee_is_charged_sample : Anchored samplePool ∧
    ((ammBandFeeBps.filterMap (evalFee samplePool false 100)).filter (·.fixedPoint)).length ≤ 1 :=
  ⟨⟨by decide, by decide, by decide, by decide⟩,
    (one_fee_is_charged ⟨by decide, by decide, by decide, by decide⟩ false 100).2.1⟩

end

end Veld.Amm
