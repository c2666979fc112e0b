import Veld.Amm.FeeBands

/-!
# The machine arithmetic of a quote

`QuoteSwapLocked` in the words it is computed with: amounts are `int64_t`, products `unsigned __int128`, and the
comparisons of deviations are made on three 64-bit words.
-/

namespace Veld.Amm

open List

def u64 (x : Int) : Int := x % 2 ^ 64
def u128 (x : Int) : Int := x % 2 ^ 128
/-- The conversion to `int64_t`. -/
def i64 (x : Int) : Int := Int.bmod x (2 ^ 64)

structure U192 where
  lo : Int
  mid : Int
  hi : Int

def U192.value (x : U192) : Int := x.lo + 2 ^ 64 * x.mid + 2 ^ 128 * x.hi

def mulU128U64 (a b : Int) : U192 :=
  let alo := u64 a
  let ahi := u64 (a / 2 ^ 64)
  let p0 := u128 (alo * b)
  let p1 := u128 (ahi * b)
  let middle := u128 (p0 / 2 ^ 64 + u64 p1)
  { lo := u64 p0, mid := u64 middle, hi := u64 (u64 (p1 / 2 ^ 64) + u64 (middle / 2 ^ 64)) }

def compareU192 (a b : U192) : Int :=
  if a.hi ≠ b.hi then (if a.hi < b.hi then -1 else 1)
  else if a.mid ≠ b.mid then (if a.mid < b.mid then -1 else 1)
  else if a.lo ≠ b.lo then (if a.lo < b.lo then -1 else 1)
  else 0

def grossSwapOutWords (rin rout amtIn : Int) : Option Int :=
  if rin ≤ 0 ∨ rout ≤ 0 ∨ amtIn ≤ 0 then none
  else
    let gross := i64 (u128 (u64 rout * u64 amtIn) / u128 (u64 rin + u64 amtIn))
    if gross ≤ 0 ∨ rout ≤ gross then none else some gross

def swapOutWords (rin rout amtIn feeBps : Int) : Option Int :=
  if feeDenom ≤ feeBps then none
  else
    match grossSwapOutWords rin rout amtIn with
    | none => none
    | some gross =>
      let out := i64 (u128 (u64 gross * (feeDenom - feeBps)) / feeDenom)
      if out ≤ 0 ∨ rout ≤ out then none else some out

def anchorCrossDistanceWords (veld btcveld anchorVeld anchorBtcveld : Int) : Int :=
  let lhs := u128 (u64 veld * u64 anchorBtcveld)
  let rhs := u128 (u64 btcveld * u64 anchorVeld)
  if rhs ≤ lhs then u128 (lhs - rhs) else u128 (rhs - lhs)

def bandFeeBpsWords (delta den : Int) : Int × Nat :=
  let lhs := mulU128U64 delta feeDenom
  if den = 0 then (100, 4)
  else if compareU192 lhs (mulU128U64 den 500) ≤ 0 then (30, 1)
  else if compareU192 lhs (mulU128U64 den 1000) ≤ 0 then (50, 2)
  else if compareU192 lhs (mulU128U64 den 2000) ≤ 0 then (75, 3)
  else (100, 4)

def postVeldWords (p : AmmPool) (veldIn : Bool) (amtIn out : Int) : Int :=
  i64 (if veldIn then p.reserveVeld + amtIn else p.reserveVeld - out)

def postBtcveldWords (p : AmmPool) (veldIn : Bool) (amtIn out : Int) : Int :=
  i64 (if veldIn then p.reserveBtcveld - out else p.reserveBtcveld + amtIn)

def evalFeeWords (p : AmmPool) (veldIn : Bool) (amtIn charged : Int) : Option FeeEval :=
  match swapOutWords (reserveIn p veldIn) (reserveOut p veldIn) amtIn charged with
  | none => none
  | some out =>
    let veld := postVeldWords p veldIn amtIn out
    let btc := postBtcveldWords p veldIn amtIn out
    if veld ≤ 0 ∨ btc ≤ 0 then none
    else
      let before := anchorCrossDistanceWords p.reserveVeld p.reserveBtcveld p.anchorVeld p.anchorBtcveld
      let delta := anchorCrossDistanceWords veld btc p.anchorVeld p.anchorBtcveld
      let (fee, band) := bandFeeBpsWords delta (u128 (u64 btc * u64 p.anchorVeld))
      if compareU192 (mulU128U64 delta (u64 p.reserveBtcveld)) (mulU128U64 before (u64 btc)) ≤ 0 then
        some ⟨charged, out, veld, btc, true, 1, charged == ammFeeMinBps⟩
      else some ⟨charged, out, veld, btc, false, band, fee == charged⟩

/-- `QuoteSwapLocked` in words. -/
def quoteSwapWords (P : Profile) (p : AmmPool) (veldIn : Bool) (amtIn : Int) (height : Nat) :
    Except SwapRejectCode SwapQuote :=
  if fourBandActive height = false then .error .feeModelNotActive
  else if p.exist = false ∨ p.reserveVeld ≤ 0 ∨ p.reserveBtcveld ≤ 0 ∨ amtIn ≤ 0 then
    .error .invalidState
  else if p.anchorVeld ≤ 0 ∨ p.anchorBtcveld ≤ 0 then .error .invalidAnchor
  else
    match grossSwapOutWords (reserveIn p veldIn) (reserveOut p veldIn) amtIn with
    | none => .error .invalidState
    | some gross =>
      if i64 (int64Max - reserveIn p veldIn) < amtIn then .error .invalidState
      else if flatFeeActive P height then
        match swapOutWords (reserveIn p veldIn) (reserveOut p veldIn) amtIn ammFlatFeeBps with
        | none => .error .invalidState
        | some out =>
          .ok { grossOut := gross, amountOut := out, feeOut := i64 (gross - out), feeBps := ammFlatFeeBps,
                postReserveVeld := postVeldWords p veldIn amtIn out,
                postReserveBtcveld := postBtcveldWords p veldIn amtIn out }
      else
        let evals := ammBandFeeBps.filterMap (evalFeeWords p veldIn amtIn)
        match evals.filter (·.fixedPoint) with
        | [e] => .ok ⟨gross, e.out, i64 (gross - e.out), e.feeBps, e.rebalances, e.band, e.postVeld, e.postBtc⟩
        | _ => .error (if evals.isEmpty then .invalidState else .feeScheduleNoFixedPoint)

/-! ## Words that do not wrap -/

section
variable {a b c d x : Int}

theorem u64_eq (h₀ : 0 ≤ x) (h₁ : x < 2 ^ 64) : u64 x = x := Int.emod_eq_of_lt h₀ h₁

theorem u128_eq (h₀ : 0 ≤ x) (h₁ : x < 2 ^ 128) : u128 x = x := Int.emod_eq_of_lt h₀ h₁

theorem i64_eq (h₀ : 0 ≤ x) (h₁ : x < 2 ^ 63) : i64 x = x := by
  unfold i64
  exact Int.bmod_eq_of_le_mul_two (by omega) (by omega)

theorem mul_lt_pow (ha : 0 ≤ a) (hb : 0 ≤ b) {m n : Nat} (ham : a < 2 ^ m) (hbn : b < 2 ^ n) : a * b < 2 ^ (m + n) := by
  rw [pow_add]
  exact mul_lt_mul'' ham hbn ha hb

theorem mulU128U64_value (ha : 0 ≤ a) (ha' : a < 2 ^ 128) (hb : 0 ≤ b) (hb' : b < 2 ^ 64) :
    (mulU128U64 a b).value = a * b ∧ 0 ≤ (mulU128U64 a b).lo ∧ (mulU128U64 a b).lo < 2 ^ 64 ∧
      0 ≤ (mulU128U64 a b).mid ∧ (mulU128U64 a b).mid < 2 ^ 64 ∧ 0 ≤ (mulU128U64 a b).hi := by
  have hlo : u64 a = a % 2 ^ 64 := rfl
  have hhi : u64 (a / 2 ^ 64) = a / 2 ^ 64 := u64_eq (by omega) (by omega)
  have hprod : a * b = a % 2 ^ 64 * b + 2 ^ 64 * (a / 2 ^ 64 * b) := by
    have := Int.emod_add_mul_ediv a (2 ^ 64)
    calc a * b = (a % 2 ^ 64 + 2 ^ 64 * (a / 2 ^ 64)) * b := by rw [this]
      _ = _ := by ring
  have hp0 : a % 2 ^ 64 * b < 2 ^ 128 := mul_lt_pow (by omega) hb (by omega : a % 2 ^ 64 < 2 ^ 64) hb'
  have hp1 : a / 2 ^ 64 * b < 2 ^ 128 := mul_lt_pow (by omega) hb (by omega : a / 2 ^ 64 < 2 ^ 64) hb'
  have hp1' : a / 2 ^ 64 * b ≤ (2 ^ 64 - 1) * (2 ^ 64 - 1) := mul_le_mul (by omega) (by omega) hb (by omega)
  have hp0₀ : 0 ≤ a % 2 ^ 64 * b := mul_nonneg (by omega) hb
  have hp1₀ : 0 ≤ a / 2 ^ 64 * b := mul_nonneg (by omega) hb
  simp only [mulU128U64, U192.value, hhi, hlo, hprod]
  generalize a % 2 ^ 64 * b = p0 at hp0 hp0₀ ⊢
  generalize a / 2 ^ 64 * b = p1 at hp1 hp1' hp1₀ ⊢
  simp only [u64, u128]
  refine ⟨?_, ?_, ?_, ?_, ?_, ?_⟩ <;> omega

theorem compareU192_le {x y : U192} (hx : 0 ≤ x.lo ∧ x.lo < 2 ^ 64 ∧ 0 ≤ x.mid ∧ x.mid < 2 ^ 64)
    (hy : 0 ≤ y.lo ∧ y.lo < 2 ^ 64 ∧ 0 ≤ y.mid ∧ y.mid < 2 ^ 64) : compareU192 x y ≤ 0 ↔ x.value ≤ y.value := by
  unfold compareU192 U192.value
  split_ifs <;> omega

theorem compare_products (ha : 0 ≤ a) (ha' : a < 2 ^ 128) (hb : 0 ≤ b) (hb' : b < 2 ^ 64) (hc : 0 ≤ c)
    (hc' : c < 2 ^ 128) (hd : 0 ≤ d) (hd' : d < 2 ^ 64) :
    compareU192 (mulU128U64 a b) (mulU128U64 c d) ≤ 0 ↔ a * b ≤ c * d := by
  obtain ⟨hab, hx⟩ := mulU128U64_value ha ha' hb hb'
  obtain ⟨hcd, hy⟩ := mulU128U64_value hc hc' hd hd'
  rw [compareU192_le ⟨hx.1, hx.2.1, hx.2.2.1, hx.2.2.2.1⟩ ⟨hy.1, hy.2.1, hy.2.2.1, hy.2.2.2.1⟩, hab, hcd]

/-- A positive amount of `int64_t`. -/
def Amount (x : Int) : Prop := 0 < x ∧ x ≤ int64Max

theorem Amount.words (h : Amount x) : u64 x = x ∧ i64 x = x ∧ 0 ≤ x ∧ x < 2 ^ 63 := by
  obtain ⟨hpos, hle⟩ := h
  unfold int64Max at hle
  exact ⟨u64_eq (by omega) (by omega), i64_eq (by omega) (by omega), by omega, by omega⟩

theorem Amount.product {y : Int} (h : Amount x) (h' : Amount y) :
    u128 (u64 x * u64 y) = x * y ∧ 0 < x * y ∧ x * y < 2 ^ 126 := by
  obtain ⟨hu, -, h₀, h₁⟩ := h.words
  obtain ⟨hu', -, h₀', h₁'⟩ := h'.words
  have hlt : x * y < 2 ^ 126 := mul_lt_pow h₀ h₀' h₁ h₁'
  have hpos : 0 < x * y := mul_pos h.1 h'.1
  rw [hu, hu']
  exact ⟨u128_eq hpos.le (hlt.trans (by decide)), hpos, hlt⟩

end

/-! ## The parts of a quote -/

section
variable {rin rout amt f gross out : Int}

theorem grossSwapOut_lt (h : grossSwapOut rin rout amt = some gross) : gross < rout := by
  unfold grossSwapOut at h
  split_ifs at h
  dsimp only at h
  split_ifs at h with hbounds
  cases h
  omega

theorem swapOut_le_gross (hf : 0 ≤ f) (hgross : grossSwapOut rin rout amt = some gross)
    (h : swapOut rin rout amt f = some out) : 0 < out ∧ out ≤ gross := by
  obtain ⟨hpos, -, gross', hgross', rfl⟩ := swapOut_eq_some h
  rw [hgross] at hgross'
  cases hgross'
  have hg := (grossSwapOut_eq_some hgross).2.2.2.1
  refine ⟨hpos, Int.ediv_le_of_le_mul (by decide) ?_⟩
  exact mul_le_mul_of_nonneg_left (by omega) hg.le

theorem grossSwapOutWords_eq (hrin : Amount rin) (hrout : Amount rout) (hamt : Amount amt) :
    grossSwapOutWords rin rout amt = grossSwapOut rin rout amt := by
  obtain ⟨hu, -, h₀, h₁⟩ := hrin.words
  obtain ⟨hu', -, h₀', h₁'⟩ := hamt.words
  obtain ⟨hprod, hpos, -⟩ := hrout.product hamt
  have hsum : u128 (u64 rin + u64 amt) = rin + amt := by
    rw [hu, hu']
    exact u128_eq (by omega) (by omega)
  have hquot : i64 (rout * amt / (rin + amt)) = rout * amt / (rin + amt) := by
    refine i64_eq (Int.ediv_nonneg hpos.le (by omega)) (lt_of_le_of_lt ?_ hrout.words.2.2.2)
    exact Int.ediv_le_of_le_mul (by have := hrin.1; omega) (mul_le_mul_of_nonneg_left (by omega) hrout.1.le)
  simp only [grossSwapOutWords, grossSwapOut, hprod, hsum, hquot]

theorem net_bounds (hg : Amount gross) (hf : 0 ≤ f) (hfee : ¬feeDenom ≤ f) :
    0 ≤ gross * (feeDenom - f) ∧ gross * (feeDenom - f) < 2 ^ 77 := by
  have hden : (0 : Int) ≤ feeDenom - f ∧ feeDenom - f < 2 ^ 14 := by
    unfold feeDenom at hfee ⊢
    omega
  exact ⟨mul_nonneg hg.words.2.2.1 hden.1, mul_lt_pow hg.words.2.2.1 hden.1 hg.words.2.2.2 hden.2⟩

theorem swapOutWords_eq (hrin : Amount rin) (hrout : Amount rout) (hamt : Amount amt) (hf : 0 ≤ f) :
    swapOutWords rin rout amt f = swapOut rin rout amt f := by
  unfold swapOutWords swapOut
  rw [grossSwapOutWords_eq hrin hrout hamt]
  split
  · rfl
  · rename_i hfee
    cases hgross : grossSwapOut rin rout amt with
    | none => rfl
    | some gross =>
      have hpos := (grossSwapOut_eq_some hgross).2.2.2.1
      have hg : Amount gross := ⟨hpos, (grossSwapOut_lt hgross).le.trans hrout.2⟩
      obtain ⟨hu, -, h₀, h₁⟩ := hg.words
      obtain ⟨hnet, hlt⟩ := net_bounds hg hf hfee
      have hprod : u128 (u64 gross * (feeDenom - f)) = gross * (feeDenom - f) := by
        rw [hu]
        exact u128_eq hnet (hlt.trans (by decide))
      have hquot : i64 (gross * (feeDenom - f) / feeDenom) = gross * (feeDenom - f) / feeDenom := by
        refine i64_eq (Int.ediv_nonneg hnet (by decide)) (lt_of_le_of_lt ?_ h₁)
        exact Int.ediv_le_of_le_mul (by decide) (mul_le_mul_of_nonneg_left (by omega) h₀)
      simp only [hprod, hquot]

theorem anchorCrossDistanceWords_eq {veld btcveld anchorVeld anchorBtcveld : Int} (hv : Amount veld)
    (hb : Amount btcveld) (hav : Amount anchorVeld) (hab : Amount anchorBtcveld) :
    anchorCrossDistanceWords veld btcveld anchorVeld anchorBtcveld =
        anchorCrossDistance veld btcveld anchorVeld anchorBtcveld ∧
      0 ≤ anchorCrossDistance veld btcveld anchorVeld anchorBtcveld ∧
      anchorCrossDistance veld btcveld anchorVeld anchorBtcveld < 2 ^ 126 := by
  obtain ⟨hl, hl₀, hl₁⟩ := hv.product hab
  obtain ⟨hr, hr₀, hr₁⟩ := hb.product hav
  unfold anchorCrossDistanceWords anchorCrossDistance
  simp only [hl, hr]
  generalize veld * anchorBtcveld = x at *
  generalize btcveld * anchorVeld = y at *
  refine ⟨?_, abs_nonneg _, abs_lt.mpr ⟨by omega, by omega⟩⟩
  split
  · rw [u128_eq (by omega) (by omega), abs_of_nonneg (by omega)]
  · rw [u128_eq (by omega) (by omega), abs_of_neg (by omega)]
    omega

theorem bandFeeBpsWords_eq {delta den : Int} (hdelta : 0 ≤ delta) (hdelta' : delta < 2 ^ 128) (hden : 0 ≤ den)
    (hden' : den < 2 ^ 128) : bandFeeBpsWords delta den = bandFeeBps delta den := by
  have hcompare (edge : Int) (h₀ : 0 ≤ edge) (h₁ : edge < 2 ^ 64) :
      compareU192 (mulU128U64 delta feeDenom) (mulU128U64 den edge) ≤ 0 ↔ feeDenom * delta ≤ edge * den := by
    rw [compare_products hdelta hdelta' (by decide) (by decide) hden hden' h₀ h₁, mul_comm delta, mul_comm den]
  simp only [bandFeeBpsWords, bandFeeBps, hcompare 500 (by decide) (by decide),
    hcompare 1000 (by decide) (by decide), hcompare 2000 (by decide) (by decide)]

end

/-- A pool whose reserves and anchor are amounts. -/
structure InRange (p : AmmPool) : Prop where
  veld : Amount p.reserveVeld
  btcveld : Amount p.reserveBtcveld
  anchorVeld : Amount p.anchorVeld
  anchorBtcveld : Amount p.anchorBtcveld

section
variable {P : Profile} {p : AmmPool} {veldIn : Bool} {amt f out : Int} {height : Nat}

theorem InRange.reserves (hp : InRange p) (veldIn : Bool) :
    Amount (reserveIn p veldIn) ∧ Amount (reserveOut p veldIn) := by
  cases veldIn
  · exact ⟨hp.btcveld, hp.veld⟩
  · exact ⟨hp.veld, hp.btcveld⟩

theorem InRange.post (hp : InRange p) (hroom : amt ≤ int64Max - reserveIn p veldIn) (hamt : 0 < amt) (hout : 0 < out)
    (hlt : out < reserveOut p veldIn) :
    Amount (postVeld p veldIn amt out) ∧ Amount (postBtcveld p veldIn amt out) := by
  have hv := hp.veld
  have hb := hp.btcveld
  unfold Amount at hv hb ⊢
  cases veldIn <;> simp only [postVeld, postBtcveld, reserveIn, reserveOut, Bool.false_eq_true, if_false, if_true]
    at hroom hlt ⊢ <;> omega

theorem evalFeeWords_eq (hp : InRange p) (hamt : Amount amt) (hroom : amt ≤ int64Max - reserveIn p veldIn)
    (hf : f ∈ ammBandFeeBps) : evalFeeWords p veldIn amt f = evalFee p veldIn amt f := by
  obtain ⟨hrin, hrout⟩ := hp.reserves veldIn
  have hfee := (feeDenom_sub_nonneg hf).1
  unfold evalFeeWords evalFee
  rw [swapOutWords_eq hrin hrout hamt hfee]
  cases hswap : swapOut (reserveIn p veldIn) (reserveOut p veldIn) amt f with
  | none => rfl
  | some out =>
    obtain ⟨-, -, gross, hgross, -⟩ := swapOut_eq_some hswap
    obtain ⟨hpos, hle⟩ := swapOut_le_gross hfee hgross hswap
    obtain ⟨hveld, hbtc⟩ := hp.post hroom hamt.1 hpos (hle.trans_lt (grossSwapOut_lt hgross))
    have hveldWords : postVeldWords p veldIn amt out = postVeld p veldIn amt out := hveld.words.2.1
    have hbtcWords : postBtcveldWords p veldIn amt out = postBtcveld p veldIn amt out := hbtc.words.2.1
    obtain ⟨hbefore, hbefore₀, hbefore₁⟩ :=
      anchorCrossDistanceWords_eq hp.veld hp.btcveld hp.anchorVeld hp.anchorBtcveld
    obtain ⟨hdelta, hdelta₀, hdelta₁⟩ := anchorCrossDistanceWords_eq hveld hbtc hp.anchorVeld hp.anchorBtcveld
    obtain ⟨hden, hden₀, hden₁⟩ := hbtc.product hp.anchorVeld
    obtain ⟨hrb, -, hrb₀, hrb₁⟩ := hp.btcveld.words
    obtain ⟨hub, -, hub₀, hub₁⟩ := hbtc.words
    have hband := bandFeeBpsWords_eq hdelta₀ (hdelta₁.trans (by decide)) hden₀.le (hden₁.trans (by decide))
    have hheals := compare_products hdelta₀ (hdelta₁.trans (by decide)) hrb₀ (hrb₁.trans (by decide)) hbefore₀
      (hbefore₁.trans (by decide)) hub₀ (hub₁.trans (by decide))
    simp only [hveldWords, hbtcWords, hbefore, hdelta, hden, hrb, hband]
    simp only [hub, hheals]

theorem i64_fee (hp : InRange p) {gross : Int} (hf : f ∈ ammBandFeeBps)
    (hgross : grossSwapOut (reserveIn p veldIn) (reserveOut p veldIn) amt = some gross)
    (hswap : swapOut (reserveIn p veldIn) (reserveOut p veldIn) amt f = some out) :
    i64 (gross - out) = gross - out := by
  obtain ⟨hpos, hle⟩ := swapOut_le_gross (feeDenom_sub_nonneg hf).1 hgross hswap
  have hlt := grossSwapOut_lt hgross
  have hmax := (hp.reserves veldIn).2.words.2.2.2
  exact i64_eq (by omega) (by omega)

theorem quoteSwapWords_eq (hp : InRange p) (hamt : Amount amt) :
    quoteSwapWords P p veldIn amt height = quoteSwap P p veldIn amt height := by
  obtain ⟨hrin, hrout⟩ := hp.reserves veldIn
  have hroomWords : i64 (int64Max - reserveIn p veldIn) = int64Max - reserveIn p veldIn := by
    have hrin' := hrin
    unfold Amount at hrin'
    exact i64_eq (by omega) (by unfold int64Max at *; omega)
  unfold quoteSwapWords quoteSwap
  rw [grossSwapOutWords_eq hrin hrout hamt, hroomWords]
  cases hgross : grossSwapOut (reserveIn p veldIn) (reserveOut p veldIn) amt with
  | none => rfl
  | some gross =>
    by_cases hroom : int64Max - reserveIn p veldIn < amt
    · simp only [if_pos hroom]
    simp only [if_neg hroom]
    have hroom' : amt ≤ int64Max - reserveIn p veldIn := by omega
    have hevals : ammBandFeeBps.filterMap (evalFeeWords p veldIn amt) =
        ammBandFeeBps.filterMap (evalFee p veldIn amt) :=
      filterMap_congr fun f hf => evalFeeWords_eq hp hamt hroom' hf
    have hflat : swapOutWords (reserveIn p veldIn) (reserveOut p veldIn) amt ammFlatFeeBps =
        swapOut (reserveIn p veldIn) (reserveOut p veldIn) amt ammFlatFeeBps :=
      swapOutWords_eq hrin hrout hamt (by decide)
    simp only [hevals, hflat, quoteFlat, quoteFourBand]
    congr 4
    · cases hswap : swapOut (reserveIn p veldIn) (reserveOut p veldIn) amt ammFlatFeeBps with
      | none => rfl
      | some out =>
        have hf : ammFlatFeeBps ∈ ammBandFeeBps := by decide
        obtain ⟨hpos, hle⟩ := swapOut_le_gross (by decide) hgross hswap
        obtain ⟨hveld, hbtc⟩ := hp.post hroom' hamt.1 hpos (hle.trans_lt (grossSwapOut_lt hgross))
        have hveldWords : postVeldWords p veldIn amt out = postVeld p veldIn amt out := hveld.words.2.1
        have hbtcWords : postBtcveldWords p veldIn amt out = postBtcveld p veldIn amt out := hbtc.words.2.1
        simp only [i64_fee hp hf hgross hswap, hveldWords, hbtcWords]
    · rcases hfixed : (ammBandFeeBps.filterMap (evalFee p veldIn amt)).filter (·.fixedPoint) with
        _ | ⟨e, _ | ⟨e', rest⟩⟩ <;> simp only [hfixed]
      have hmem : e ∈ ammBandFeeBps.filterMap (evalFee p veldIn amt) :=
        (mem_filter.mp (hfixed ▸ mem_singleton_self e)).1
      obtain ⟨fee, hfee, he⟩ := mem_filterMap.mp hmem
      simp only [i64_fee hp hfee hgross (evalFee_eq_some he).2.1]

theorem quoteSwap_gross {quote : SwapQuote} (h : quoteSwap P p veldIn amt height = .ok quote) :
    grossSwapOut (reserveIn p veldIn) (reserveOut p veldIn) amt = some quote.grossOut ∧
      quote.feeOut = quote.grossOut - quote.amountOut ∧ amt ≤ int64Max - reserveIn p veldIn := by
  unfold quoteSwap at h
  split at h
  · cases h
  split at h
  · cases h
  split at h
  · cases h
  rcases hgross : grossSwapOut (reserveIn p veldIn) (reserveOut p veldIn) amt with _ | gross <;>
    simp only [hgross] at h
  · cases h
  split at h
  · cases h
  rename_i hroom
  split at h
  · unfold quoteFlat at h
    split at h <;> cases h
    exact ⟨rfl, rfl, by omega⟩
  · unfold quoteFourBand at h
    dsimp only at h
    split at h <;> cases h
    exact ⟨rfl, rfl, by omega⟩

/-! ## The widths of a quote -/

/-- The products of a reserve and an anchor, before the trade and after it. -/
def crossProducts (p : AmmPool) (veldIn : Bool) (amt out : Int) : List Int :=
  [p.reserveVeld * p.anchorBtcveld, p.reserveBtcveld * p.anchorVeld,
    postVeld p veldIn amt out * p.anchorBtcveld, postBtcveld p veldIn amt out * p.anchorVeld]

/-- The distances and denominators that enter the 192-bit products. -/
def scaled (p : AmmPool) (veldIn : Bool) (amt out : Int) : List Int :=
  [anchorCrossDistance p.reserveVeld p.reserveBtcveld p.anchorVeld p.anchorBtcveld, p.reserveBtcveld * p.anchorVeld,
    distanceAfter p veldIn amt out, postBtcveld p veldIn amt out * p.anchorVeld]

structure Fits (p : AmmPool) (veldIn : Bool) (amt f out gross : Int) : Prop where
  swap : reserveOut p veldIn * amt < 2 ^ 128 ∧ reserveIn p veldIn + amt < 2 ^ 128
  net : 0 ≤ gross * (feeDenom - f) ∧ gross * (feeDenom - f) < 2 ^ 128
  cross : ∀ x ∈ crossProducts p veldIn amt out, 0 ≤ x ∧ x < 2 ^ 128
  wide : ∀ x ∈ scaled p veldIn amt out, ∀ m : Int, 0 ≤ m → m < 2 ^ 64 → (mulU128U64 x m).value = x * m
  exact : ∀ x ∈ scaled p veldIn amt out, ∀ y ∈ scaled p veldIn amt out, ∀ m n : Int, 0 ≤ m → m < 2 ^ 64 →
    0 ≤ n → n < 2 ^ 64 → (compareU192 (mulU128U64 x m) (mulU128U64 y n) ≤ 0 ↔ x * m ≤ y * n)

/-- What an accepted quote promises about a pool. -/
structure Sound (p : AmmPool) (veldIn : Bool) (quote : SwapQuote) : Prop where
  out_pos : 0 < quote.amountOut
  out_le : quote.amountOut ≤ quote.grossOut
  gross_lt : quote.grossOut < reserveOut p veldIn
  fee : quote.feeOut + quote.amountOut = quote.grossOut
  veld : Amount quote.postReserveVeld
  btcveld : Amount quote.postReserveBtcveld
  product : reserveIn p veldIn * reserveOut p veldIn ≤ quote.postReserveVeld * quote.postReserveBtcveld
  /-- the check of `ApplySwap` on the products of the words -/
  check : ¬u128 (u64 quote.postReserveVeld * u64 quote.postReserveBtcveld) <
    u128 (u64 (reserveIn p veldIn) * u64 (reserveOut p veldIn))

theorem InRange.fits (hp : InRange p) (hamt : Amount amt) (hroom : amt ≤ int64Max - reserveIn p veldIn)
    {gross : Int} (hf : f ∈ ammBandFeeBps)
    (hgross : grossSwapOut (reserveIn p veldIn) (reserveOut p veldIn) amt = some gross)
    (hswap : swapOut (reserveIn p veldIn) (reserveOut p veldIn) amt f = some out) : Fits p veldIn amt f out gross := by
  obtain ⟨hrin, hrout⟩ := hp.reserves veldIn
  obtain ⟨hf₀, hf₁⟩ := feeDenom_sub_nonneg hf
  obtain ⟨hpos, hle⟩ := swapOut_le_gross hf₀ hgross hswap
  have hlt := grossSwapOut_lt hgross
  obtain ⟨hveld, hbtc⟩ := hp.post hroom hamt.1 hpos (hle.trans_lt hlt)
  have hg : Amount gross := ⟨by omega, hlt.le.trans hrout.2⟩
  have hcross : ∀ x ∈ crossProducts p veldIn amt out, 0 ≤ x ∧ x < 2 ^ 126 := by
    have hproduct {x y : Int} (h : Amount x) (h' : Amount y) : 0 ≤ x * y ∧ x * y < 2 ^ 126 :=
      ⟨(h.product h').2.1.le, (h.product h').2.2⟩
    simp only [crossProducts, forall_mem_cons, not_mem_nil, false_imp_iff, implies_true, and_true]
    exact ⟨hproduct hp.veld hp.anchorBtcveld, hproduct hp.btcveld hp.anchorVeld, hproduct hveld hp.anchorBtcveld,
      hproduct hbtc hp.anchorVeld⟩
  have hscaled : ∀ x ∈ scaled p veldIn amt out, 0 ≤ x ∧ x < 2 ^ 128 := by
    have hwiden {x : Int} (h : 0 ≤ x ∧ x < 2 ^ 126) : 0 ≤ x ∧ x < 2 ^ 128 := ⟨h.1, h.2.trans (by decide)⟩
    simp only [scaled, forall_mem_cons, not_mem_nil, false_imp_iff, implies_true, and_true]
    exact ⟨hwiden (anchorCrossDistanceWords_eq hp.veld hp.btcveld hp.anchorVeld hp.anchorBtcveld).2,
      hwiden (hcross _ (by simp [crossProducts])),
      hwiden (anchorCrossDistanceWords_eq hveld hbtc hp.anchorVeld hp.anchorBtcveld).2,
      hwiden (hcross _ (by simp [crossProducts]))⟩
  have hnet := net_bounds hg hf₀ (by omega)
  refine ⟨⟨(hrout.product hamt).2.2.trans (by decide), ?_⟩, ⟨hnet.1, hnet.2.trans (by decide)⟩, ?_, ?_, ?_⟩
  · have := hrin.words.2.2.2
    have := hamt.words.2.2.2
    omega
  · exact fun x hx => ⟨(hcross x hx).1, (hcross x hx).2.trans (by decide)⟩
  · exact fun x hx m hm hm' => (mulU128U64_value (hscaled x hx).1 (hscaled x hx).2 hm hm').1
  · exact fun x hx y hy m n hm hm' hn hn' =>
      compare_products (hscaled x hx).1 (hscaled x hx).2 hm hm' (hscaled y hy).1 (hscaled y hy).2 hn hn'

theorem InRange.sound (hp : InRange p) (hamt : Amount amt) {quote : SwapQuote}
    (h : quoteSwap P p veldIn amt height = .ok quote) : Sound p veldIn quote := by
  obtain ⟨hf, hswap, hpv, hpb⟩ := quoteSwap_eq_ok h
  obtain ⟨hgross, hfee, hroom⟩ := quoteSwap_gross h
  obtain ⟨hpos, hle⟩ := swapOut_le_gross (feeDenom_sub_nonneg hf).1 hgross hswap
  have hlt := grossSwapOut_lt hgross
  obtain ⟨hveld, hbtc⟩ := hp.post hroom hamt.1 hpos (hle.trans_lt hlt)
  have hproduct : reserveIn p veldIn * reserveOut p veldIn ≤
      postVeld p veldIn amt quote.amountOut * postBtcveld p veldIn amt quote.amountOut := by
    have hpay := swapOut_mul_le hf hswap
    cases veldIn <;> simp only [postVeld, postBtcveld, reserveIn, reserveOut, Bool.false_eq_true, if_false, if_true]
      at hpay ⊢ <;> linarith
  rw [← hpv, ← hpb] at hproduct
  rw [← hpv] at hveld
  rw [← hpb] at hbtc
  refine ⟨hpos, hle, hlt, by omega, hveld, hbtc, hproduct, ?_⟩
  rw [(hveld.product hbtc).1, ((hp.reserves veldIn).1.product (hp.reserves veldIn).2).1]
  exact not_lt.mpr hproduct

end

/-- For amounts of `int64_t` the machine's quote is the exact one: nothing wraps, every comparison is
exact, and an accepted quote leaves two positive reserves whose product has not fallen. -/
theorem quote_is_exact (P : Profile) (p : AmmPool) (veldIn : Bool) (amt : Int) (height : Nat) (hp : InRange p)
    (hamt : Amount amt) :
    quoteSwapWords P p veldIn amt height = quoteSwap P p veldIn amt height ∧
      (amt ≤ int64Max - reserveIn p veldIn → ∀ f ∈ ammBandFeeBps, ∀ out gross,
        grossSwapOut (reserveIn p veldIn) (reserveOut p veldIn) amt = some gross →
          swapOut (reserveIn p veldIn) (reserveOut p veldIn) amt f = some out → Fits p veldIn amt f out gross) ∧
      ∀ quote, quoteSwap P p veldIn amt height = .ok quote → Sound p veldIn quote :=
  ⟨quoteSwapWords_eq hp hamt, fun hroom _ hf _ _ hgross hswap => hp.fits hamt hroom hf hgross hswap,
    fun _ h => hp.sound hamt h⟩

theorem quote_is_exact_sample : ∃ quote, quoteSwap .sample samplePool true 1000000000 2000 = .ok quote ∧
    quoteSwapWords .sample samplePool true 1000000000 2000 = .ok quote ∧ Sound samplePool true quote := by
  have hp : InRange samplePool := ⟨⟨by decide, by decide⟩, ⟨by decide, by decide⟩, ⟨by decide, by decide⟩,
    ⟨by decide, by decide⟩⟩
  obtain ⟨hwords, -, hsound⟩ :=
    quote_is_exact .sample samplePool true 1000000000 2000 hp ⟨by decide, by decide⟩
  have hquote : ∃ quote, quoteSwap .sample samplePool true 1000000000 2000 = .ok quote := ⟨_, rfl⟩
  obtain ⟨quote, h⟩ := hquote
  exact ⟨quote, h, hwords.trans h, hsound quote h⟩

end Veld.Amm
