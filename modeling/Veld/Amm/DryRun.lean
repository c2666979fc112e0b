import Veld.Amm.Pool
import Veld.Token.Steps

/-!
# The dry run of a block predicts its application

An operation tests, and in a live run writes what the tests computed (`Outcome`).
-/

namespace Veld.Amm

open Wire Program

section
variable (P : Profile) (C : Crypto)

/-- What the tests of an operation compute: the pool and the LP positions it leaves, and the
btcVELD it moves. -/
structure Outcome where
  pool : AmmPool
  lp : Table Bytes Int
  source : Bytes
  dest : Bytes
  amount : Int

def Outcome.tokens (o : Outcome) (l : Ledger) : Ledger :=
  l.transfer btcveldTokenId o.source o.dest o.amount

def Outcome.state (o : Outcome) (l : Ledger) : OpState := ⟨o.pool, o.lp, o.tokens l⟩

def swappedPool (p : AmmPool) (quote : SwapQuote) (tx : Transaction) : AmmPool :=
  chainPool C { p with
    reserveVeld := quote.postReserveVeld
    reserveBtcveld := quote.postReserveBtcveld } tx

def removedPool (p : AmmPool) (plan : RemovePlan) (amt : Int) (tx : Transaction) : AmmPool :=
  chainPool C { p with
    reserveVeld := p.reserveVeld - plan.veld
    reserveBtcveld := p.reserveBtcveld - plan.btcveld
    lpSupply := p.lpSupply - amt } tx

/-- The outcome of an operation by its kind. -/
inductive Computes (poolId : Bytes) (op : AmmOp) (tx : Transaction) (height : Nat) (s : OpState) :
    Outcome → Prop
  | swapV2B {quote : SwapQuote} (action : AmmAction.ofText op.action = some .swapV2B)
      (tested : checkSwap P C s.pool op true tx s.tokens height = some quote) :
      Computes poolId op tx height s
        ⟨swappedPool C s.pool quote tx, s.lp, s.pool.btcveldAddr, op.user, quote.amountOut⟩
  | swapB2V {quote : SwapQuote} (action : AmmAction.ofText op.action = some .swapB2V)
      (tested : checkSwap P C s.pool op false tx s.tokens height = some quote) :
      Computes poolId op tx height s
        ⟨swappedPool C s.pool quote tx, s.lp, op.user, s.pool.btcveldAddr, op.amt⟩
  | add {plan : AddPlan} (action : AmmAction.ofText op.action = some .add)
      (tested : checkAdd P C poolId s.pool op tx s.lp s.tokens height = some plan) :
      Computes poolId op tx height s
        ⟨chainPool C (plan.pool s.pool op.amt) tx, creditLp s.lp (lpKey poolId op.user) plan.minted,
          op.user, s.pool.btcveldAddr, plan.useBtc⟩
  | remove {plan : RemovePlan} (action : AmmAction.ofText op.action = some .remove)
      (tested : checkRemove P C poolId s.pool op tx s.lp s.tokens = some plan) :
      Computes poolId op tx height s
        ⟨removedPool C s.pool plan op.amt tx, debitLp s.lp (lpKey poolId op.user) op.amt,
          s.pool.btcveldAddr, op.user, plan.btcveld⟩

end

variable {P : Profile} {C : Crypto} {poolId : Bytes} {op : AmmOp} {tx : Transaction} {height : Nat}
  {s s' : OpState} {u : Unit}

/-! ## One operation -/

theorem moveTokens_eq_ok {source dest : Bytes} {amount : Int} :
    moveTokens source dest amount s = .ok u s' ↔
      canAmmMove s.tokens btcveldTokenId source dest amount ∧
        s' = { s with tokens := s.tokens.transfer btcveldTokenId source dest amount } := by
  simp only [moveTokens, get_bind_eq_ok, require_bind_eq_ok, set_eq_ok, ammMove_eq_some]
  constructor
  · rintro ⟨_, ⟨hcan, rfl⟩, rfl⟩
    exact ⟨hcan, rfl⟩
  · rintro ⟨hcan, rfl⟩
    exact ⟨_, ⟨hcan, rfl⟩, rfl⟩

structure SwapTested (P : Profile) (C : Crypto) (p : AmmPool) (op : AmmOp) (v2b : Bool)
    (tx : Transaction) (tokens : Ledger) (height : Nat) (quote : SwapQuote) : Prop where
  live : p.utxoValid = true
  quoted : quoteSwap P p v2b op.amt height = .ok quote
  veldLeft : 0 < quote.postReserveVeld
  btcveldLeft : 0 < quote.postReserveBtcveld
  poolOutput : outputPays tx 0 quote.postReserveVeld = true
  leg : swapLeg P C p op v2b tx tokens quote.amountOut = true

variable {tokens : Ledger} {p : AmmPool}

theorem checkSwap_eq_some {v2b : Bool} {quote : SwapQuote}
    (h : checkSwap P C p op v2b tx tokens height = some quote) :
    SwapTested P C p op v2b tx tokens height quote := by
  simp only [checkSwap, bind_eq_some, Option.guard_eq_some', pure_eq_some] at h
  obtain ⟨_, -, _, ⟨hlive, -⟩, _, -, q, hquote, _, -, _, ⟨hveld, hbtc⟩, _, -, _, -, _, -, _, hout, _,
    hleg, rfl⟩ := h
  refine ⟨hlive, ?_, hveld, hbtc, hout, hleg⟩
  rcases hq : quoteSwap P p v2b op.amt height with _ | q' <;> simp_all [Except.toOption]

structure DepositTested (p : AmmPool) (op : AmmOp) (tx : Transaction) (plan : AddPlan) : Prop where
  notSeed : plan.seed = false
  veldPos : 0 < p.reserveVeld
  btcveldPos : 0 < p.reserveBtcveld
  supplyPos : 0 < p.lpSupply
  minted : 0 < plan.minted
  byVeld : plan.minted ≤ p.lpSupply * op.amt / p.reserveVeld
  byBtcveld : plan.minted ≤ p.lpSupply * plan.useBtc / p.reserveBtcveld
  poolOutput : outputPays tx 0 (p.reserveVeld + op.amt) = true

theorem checkedMulDivPositiveI64_eq_some {x y d q : Int}
    (h : checkedMulDivPositiveI64 x y d = some q) : 0 < q ∧ q = x * y / d := by
  unfold checkedMulDivPositiveI64 at h
  split_ifs at h with hpos
  dsimp only at h
  split_ifs at h with hq
  cases h
  have : 0 ≤ x * y / d := by
    have hx : 0 ≤ x := by omega
    have hy : 0 ≤ y := by omega
    have hd : 0 ≤ d := by omega
    positivity
  exact ⟨by omega, rfl⟩

variable {plan : AddPlan}

theorem depositPlan_eq_some (h : depositPlan p op tx = some plan) : DepositTested p op tx plan := by
  simp only [depositPlan, bind_eq_some, Option.guard_eq_some', pure_eq_some] at h
  obtain ⟨_, ⟨hveld, hbtc, hsupply, -⟩, useBtc, -, _, -, fromVeld, hfv, fromBtc, hfb, _, ⟨-, hout⟩,
    rfl⟩ := h
  obtain ⟨hfv0, rfl⟩ := checkedMulDivPositiveI64_eq_some hfv
  obtain ⟨hfb0, rfl⟩ := checkedMulDivPositiveI64_eq_some hfb
  exact ⟨rfl, hveld, hbtc, hsupply, lt_min hfv0 hfb0, min_le_left _ _, min_le_right _ _, hout⟩

/-- What an accepted first ADD has passed. -/
structure SeedTested (op : AmmOp) (tx : Transaction) (plan : AddPlan) : Prop where
  isSeed : plan.seed = true
  useBtc : plan.useBtc = op.extra
  minted : 0 ≤ plan.minted
  locked : minLiquidity ≤ plan.lockedLp
  poolOutput : outputPays tx 0 op.amt = true

theorem quoteInitialSeedPolicy_eq_some {veld btc : Int} {market : Bool} {quote : SeedQuote}
    (h : quoteInitialSeedPolicy veld btc market = some quote) :
    (0 ≤ veld ∧ veld ≤ maxSupplyUnits) ∧ (0 ≤ btc ∧ btc ≤ ammMaxPoolBtcveldSats) ∧
      quote.grossLp = isqrtU128 (veld * btc) ∧ 0 ≤ quote.lpMinted ∧ minLiquidity ≤ quote.lockedLp ∧
      quote.lockedLp ≤ quote.grossLp := by
  unfold quoteInitialSeedPolicy at h
  dsimp only at h
  split_ifs at h with hamounts hgross hsliver
  cases h
  have hlock : (0 : Int) ≤ ammSeedLockVeldUnits ∧ (0 : Int) ≤ ammSeedLockBtcveldSats := by decide
  unfold lockedSeedUnits
  exact ⟨by omega, by omega, rfl, sub_nonneg.mpr (min_le_right _ _),
    le_min (le_max_of_le_left (le_max_left _ _)) (by omega), min_le_right _ _⟩

theorem seedPlan_eq_some (h : seedPlan P C op tx tokens height = some plan) :
    SeedTested op tx plan := by
  simp only [seedPlan, bind_eq_some, Option.guard_eq_some', pure_eq_some] at h
  obtain ⟨quote, hseed, _, hout, rfl⟩ := h
  simp only [seedQuote, bind_eq_some, Option.guard_eq_some', pure_eq_some] at hseed
  obtain ⟨_, -, quote, hquote, change, -, _, -, _, -, _, -, rfl⟩ := hseed
  have hpolicy : quoteInitialSeedPolicy op.amt op.extra (marketSeedAnchorActive P height) =
      some quote := by
    unfold quoteInitialSeedAtHeight at hquote
    rcases hp : quoteInitialSeedPolicy op.amt op.extra (marketSeedAnchorActive P height) with _ | q <;>
      simp only [hp] at hquote
    · cases hquote
    · split at hquote
      · cases hquote
      · split at hquote <;> cases hquote
        rfl
  obtain ⟨-, -, -, hminted, hlocked, -⟩ := quoteInitialSeedPolicy_eq_some hpolicy
  exact ⟨rfl, rfl, hminted, hlocked, hout⟩

structure AddTested (p : AmmPool) (op : AmmOp) (tx : Transaction) (tokens : Ledger)
    (plan : AddPlan) : Prop where
  amtPos : 0 < op.amt
  extraPos : 0 < op.extra
  leg : canAmmMove tokens btcveldTokenId op.user p.btcveldAddr plan.useBtc = true
  branch : (isSeed p ∧ SeedTested op tx plan) ∨
    (isSeed p = false ∧ DepositTested p op tx plan)

variable {lp : Table Bytes Int}

theorem checkAdd_eq_some (h : checkAdd P C poolId p op tx lp tokens height = some plan) :
    AddTested p op tx tokens plan := by
  simp only [checkAdd, bind_eq_some, Option.guard_eq_some', pure_eq_some] at h
  obtain ⟨_, ⟨hamt, hextra, -⟩, plan', hplan, _, -, _, -, _, -, _, -, _, hmove, rfl⟩ := h
  refine ⟨hamt, hextra, hmove, ?_⟩
  unfold addPlan at hplan
  cases hseed : isSeed p <;> simp only [hseed, if_true, Bool.false_eq_true, if_false] at hplan
  · exact .inr ⟨rfl, depositPlan_eq_some hplan⟩
  · exact .inl ⟨rfl, seedPlan_eq_some hplan⟩

structure RemoveTested (poolId : Bytes) (p : AmmPool) (op : AmmOp) (tx : Transaction)
    (lp : Table Bytes Int) (tokens : Ledger) (plan : RemovePlan) : Prop where
  amtPos : 0 < op.amt
  supplyPos : 0 < p.lpSupply
  veldPos : 0 < p.reserveVeld
  btcveldPos : 0 < p.reserveBtcveld
  live : p.utxoValid = true
  held : op.amt ≤ lpOf lp (lpKey poolId op.user)
  residual : lpOf lp (lpKey poolId op.user) - op.amt ≠ 0 →
    lpMinPosition ≤ lpOf lp (lpKey poolId op.user) - op.amt
  veld : plan.veld = p.reserveVeld * op.amt / p.lpSupply
  btcveld : plan.btcveld = p.reserveBtcveld * op.amt / p.lpSupply
  veldLeft : dustThresholdUnits ≤ p.reserveVeld - plan.veld
  poolOutput : outputPays tx 0 (p.reserveVeld - plan.veld) = true
  leg : 0 < plan.btcveld →
    canAmmMove tokens btcveldTokenId p.btcveldAddr op.user plan.btcveld = true

theorem checkRemove_eq_some {plan : RemovePlan}
    (h : checkRemove P C poolId p op tx lp tokens = some plan) :
    RemoveTested poolId p op tx lp tokens plan := by
  simp only [checkRemove, bind_eq_some, Option.guard_eq_some', pure_eq_some] at h
  obtain ⟨_, ⟨hamt, -, hsupply, -, hveld, hbtc, hlive, -⟩, _, -, _, ⟨hheld, hres⟩, _, ⟨-, -, hleft⟩,
    _, ⟨hout, -⟩, _, hmove, rfl⟩ := h
  exact ⟨hamt, hsupply, hveld, hbtc, hlive, hheld, hres, rfl, rfl, hleft, hout, hmove⟩

theorem RemoveTested.btcveld_nonneg {plan : RemovePlan}
    (h : RemoveTested poolId p op tx lp tokens plan) : 0 ≤ plan.btcveld := by
  have := h.amtPos
  have := h.supplyPos
  have := h.btcveldPos
  rw [h.btcveld]
  positivity

theorem applySwap_live {v2b : Bool} :
    applySwap P C op v2b tx false height s = .ok u s' ↔
      ∃ quote, checkSwap P C s.pool op v2b tx s.tokens height = some quote ∧
        s' = ⟨swappedPool C s.pool quote tx, s.lp,
          if v2b then s.tokens.transfer btcveldTokenId s.pool.btcveldAddr op.user quote.amountOut
          else s.tokens.transfer btcveldTokenId op.user s.pool.btcveldAddr op.amt⟩ := by
  simp only [applySwap, get_bind_eq_ok, require_bind_eq_ok, unit_bind_eq_ok, modify_eq_ok,
    Bool.false_eq_true, if_false]
  constructor
  · rintro ⟨quote, htest, s₁, hmove, rfl⟩
    refine ⟨quote, htest, ?_⟩
    cases v2b with
    | true | false =>
      obtain ⟨-, rfl⟩ := moveTokens_eq_ok.mp hmove
      rfl
  · rintro ⟨quote, htest, rfl⟩
    have hleg := (checkSwap_eq_some htest).leg
    refine ⟨quote, htest, ?_⟩
    cases v2b with
    | true => exact ⟨_, moveTokens_eq_ok.mpr ⟨hleg, rfl⟩, rfl⟩
    | false =>
      simp only [swapLeg, Bool.false_eq_true, if_false, Bool.and_eq_true] at hleg
      exact ⟨_, moveTokens_eq_ok.mpr ⟨hleg.2, rfl⟩, rfl⟩

theorem moveRemoveLeg_eq_ok {btcveld : Int} (hnonneg : 0 ≤ btcveld)
    (hcan : 0 < btcveld →
      canAmmMove s.tokens btcveldTokenId s.pool.btcveldAddr op.user btcveld = true) :
    moveRemoveLeg s.pool op btcveld s = .ok u s' ↔
      s' = { s with
        tokens := s.tokens.transfer btcveldTokenId s.pool.btcveldAddr op.user btcveld } := by
  unfold moveRemoveLeg
  split
  · rename_i hpos
    rw [moveTokens_eq_ok]
    simp [hcan hpos]
  · have hzero : btcveld = 0 := by omega
    rw [pure_eq_ok]
    simp only [hzero, Ledger.transfer, true_or, if_true, true_and]
    exact eq_comm

@[simp] theorem recordLock_lp : (recordLock P C op tx height s).lp = s.lp := by
  unfold recordLock
  split
  · split <;> rfl
  · rfl

@[simp] theorem recordLock_tokens : (recordLock P C op tx height s).tokens = s.tokens := by
  unfold recordLock
  split
  · split <;> rfl
  · rfl

theorem AddTested.pool_recordLock (h : AddTested s.pool op tx s.tokens plan) :
    plan.pool (recordLock P C op tx height s).pool op.amt = plan.pool s.pool op.amt := by
  rcases h.branch with ⟨-, hseed⟩ | ⟨hno, -⟩
  · unfold recordLock AddPlan.pool
    rw [if_pos hseed.isSeed, if_pos hseed.isSeed]
    split
    · split <;> rfl
    · rfl
  · have hsame : recordLock P C op tx height s = s := by
      unfold recordLock
      simp [hno]
    rw [hsame]

theorem applyAdd_live :
    applyAdd P C poolId op tx false height s = .ok u s' ↔
      ∃ plan, checkAdd P C poolId s.pool op tx s.lp s.tokens height = some plan ∧
        s' = ⟨chainPool C (plan.pool s.pool op.amt) tx,
          creditLp s.lp (lpKey poolId op.user) plan.minted,
          s.tokens.transfer btcveldTokenId op.user s.pool.btcveldAddr plan.useBtc⟩ := by
  simp only [applyAdd, get_bind_eq_ok, require_bind_eq_ok, unit_bind_eq_ok, modify_eq_ok,
    moveTokens_eq_ok, Bool.false_eq_true, if_false]
  constructor
  · rintro ⟨_, rfl, plan, htest, _, ⟨-, rfl⟩, rfl⟩
    refine ⟨plan, htest, ?_⟩
    simp only [recordLock_lp, recordLock_tokens, (checkAdd_eq_some htest).pool_recordLock]
  · rintro ⟨plan, htest, rfl⟩
    have ht := checkAdd_eq_some htest
    refine ⟨_, rfl, plan, htest, _, ⟨?_, rfl⟩, ?_⟩
    · rw [recordLock_tokens]
      exact ht.leg
    · simp only [recordLock_lp, recordLock_tokens, ht.pool_recordLock]

theorem applyRemove_live :
    applyRemove P C poolId op tx false s = .ok u s' ↔
      ∃ plan, checkRemove P C poolId s.pool op tx s.lp s.tokens = some plan ∧
        s' = ⟨removedPool C s.pool plan op.amt tx, debitLp s.lp (lpKey poolId op.user) op.amt,
          s.tokens.transfer btcveldTokenId s.pool.btcveldAddr op.user plan.btcveld⟩ := by
  simp only [applyRemove, get_bind_eq_ok, require_bind_eq_ok, unit_bind_eq_ok, modify_eq_ok,
    Bool.false_eq_true, if_false]
  constructor
  · rintro ⟨plan, htest, s₁, hmove, rfl⟩
    have htested := checkRemove_eq_some htest
    obtain rfl := (moveRemoveLeg_eq_ok htested.btcveld_nonneg htested.leg).mp hmove
    exact ⟨plan, htest, rfl⟩
  · rintro ⟨plan, htest, rfl⟩
    have htested := checkRemove_eq_some htest
    exact ⟨plan, htest, _, (moveRemoveLeg_eq_ok htested.btcveld_nonneg htested.leg).mpr rfl, rfl⟩

/-- A live operation does what its tests computed, and it succeeds when they pass. -/
theorem applyAmmOp_live :
    applyAmmOp P C poolId op tx false height s = .ok u s' ↔
      (validateAmmEnvelope s.pool op tx ∧
        isCanonicalTokenCreditAddress C.sha256 P op.user = true) ∧
      ∃ o, Computes P C poolId op tx height s o ∧ s' = o.state s.tokens := by
  simp only [applyAmmOp, get_bind_eq_ok, check_bind_eq_ok]
  refine and_congr_right fun henv => ⟨fun h => ?_, ?_⟩
  · rcases haction : AmmAction.ofText op.action with _ | (_ | _ | _ | _) <;>
      simp only [haction] at h
    · exact (throw_ne_ok h).elim
    · obtain ⟨quote, htest, rfl⟩ := applySwap_live.mp h
      exact ⟨_, .swapV2B haction htest, rfl⟩
    · obtain ⟨quote, htest, rfl⟩ := applySwap_live.mp h
      exact ⟨_, .swapB2V haction htest, rfl⟩
    · obtain ⟨plan, htest, rfl⟩ := applyAdd_live.mp h
      exact ⟨_, .add haction htest, rfl⟩
    · obtain ⟨plan, htest, rfl⟩ := applyRemove_live.mp h
      exact ⟨_, .remove haction htest, rfl⟩
  · rintro ⟨o, ho, rfl⟩
    cases ho with
    | swapV2B haction htest | swapB2V haction htest =>
      rw [haction]
      exact applySwap_live.mpr ⟨_, htest, rfl⟩
    | add haction htest =>
      rw [haction]
      exact applyAdd_live.mpr ⟨_, htest, rfl⟩
    | remove haction htest =>
      rw [haction]
      exact applyRemove_live.mpr ⟨_, htest, rfl⟩

theorem computes_of_applyAmmOp_dry (h : applyAmmOp P C poolId op tx true height s = .ok u s') :
    (validateAmmEnvelope s.pool op tx ∧
        isCanonicalTokenCreditAddress C.sha256 P op.user = true) ∧
      ∃ o, Computes P C poolId op tx height s o := by
  simp only [applyAmmOp, get_bind_eq_ok, check_bind_eq_ok] at h
  obtain ⟨henv, h⟩ := h
  refine ⟨henv, ?_⟩
  rcases haction : AmmAction.ofText op.action with _ | (_ | _ | _ | _) <;>
    simp only [haction, applySwap, applyAdd, applyRemove, get_bind_eq_ok, unit_bind_eq_ok,
      require_bind_eq_ok] at h
  · exact (throw_ne_ok h).elim
  · obtain ⟨quote, htest, -⟩ := h
    exact ⟨_, .swapV2B haction htest⟩
  · obtain ⟨quote, htest, -⟩ := h
    exact ⟨_, .swapB2V haction htest⟩
  · obtain ⟨_, -, plan, htest, -⟩ := h
    exact ⟨_, .add haction htest⟩
  · obtain ⟨plan, htest, -⟩ := h
    exact ⟨_, .remove haction htest⟩

/-! ## One block -/

section
variable {V : View} {a : AmmLedger} {p : AmmPool} {lp : Table Bytes Int} {tokens : Ledger}
  {block : Block} {gate : PegGate} {txs : List Transaction} {touches : Nat}

theorem dryRun_of_validateTransactions (hsole : soleOp txs = some (some (op, tx)))
    (h : validateTransactions P C poolId p lp tokens height txs touches) :
    ∃ u s', applyAmmOp P C poolId op tx true height ⟨p, lp, tokens⟩ = .ok u s' := by
  induction txs generalizing touches with
  | nil => simp [soleOp] at hsole
  | cons t rest ih =>
    unfold soleOp at hsole
    simp only [validateTransactions] at h
    generalize (if p.utxoValid = true then poolInputPos p t else none) = pos at h
    split_ifs at h
    rcases hparse : parseAmmOpDetailed t with _ | op' | _ <;> simp only [hparse] at hsole h
    · exact ih hsole (Bool.and_eq_true_iff.mp h).2
    · rcases hrest : soleOp rest with _ | _ | _ <;> simp only [hrest] at hsole
      · cases hsole
      · cases hsole
        simp only [Bool.and_eq_true] at h
        exact succeeds_iff.mp h.1.2
      · cases hsole
    · cases hsole

theorem lookup_maybeCreatePool
    (h : prospectivePool P a poolId height gate = some p) :
    ((maybeCreatePool P poolId height gate a.pools).lookup poolId).filter (·.exist) = some p := by
  unfold prospectivePool at h
  unfold maybeCreatePool
  rcases hpool : a.pool poolId with _ | q <;> simp only [hpool] at h
  · have hno : ((a.pools.lookup poolId).any (·.exist)) = false := by
      unfold AmmLedger.pool at hpool
      rcases hl : a.pools.lookup poolId with _ | q <;> simp_all
    split_ifs at h with hc
    cases h
    simp [hc, hno, newPool]
  · cases h
    unfold AmmLedger.pool at hpool
    have hyes : ((a.pools.lookup poolId).any (·.exist)) := by
      rcases hl : a.pools.lookup poolId with _ | q <;> simp_all
    split <;> simp_all

theorem maybeCreatePool_insert (poolId : Bytes) (height : Nat) (gate : PegGate)
    (pools : Table Bytes AmmPool) (q : AmmPool) :
    (maybeCreatePool P poolId height gate pools).insert poolId q = pools.insert poolId q := by
  unfold maybeCreatePool
  split
  · split
    · rfl
    · exact AList.insert_insert pools
  · rfl

/-- The state the dry run computes for a block: at most the pool is created, or the outcome of the
sole operation replaces pool, positions and token balances. -/
inductive DryRunState (P : Profile) (C : Crypto) (a : AmmLedger) (poolId : Bytes) (block : Block)
    (tokens : Ledger) (gate : PegGate) : AmmState → Prop
  | idle (sole : soleOp block.transactions = some none) :
      DryRunState P C a poolId block tokens gate
        ⟨⟨maybeCreatePool P poolId block.height gate a.pools, a.lp⟩, tokens⟩
  | dormant {found : AmmOp × Transaction} (sole : soleOp block.transactions = some (some found))
      (pool : prospectivePool P a poolId block.height gate = none) :
      DryRunState P C a poolId block tokens gate ⟨a, tokens⟩
  | operation {op : AmmOp} {tx : Transaction} {p : AmmPool} {o : Outcome}
      (sole : soleOp block.transactions = some (some (op, tx)))
      (pool : prospectivePool P a poolId block.height gate = some p)
      (computed : Computes P C poolId op tx block.height ⟨p, a.lp, tokens⟩ o) :
      DryRunState P C a poolId block tokens gate
        ⟨⟨a.pools.insert poolId o.pool, o.lp⟩, o.tokens tokens⟩

theorem applyLive_eq_ok (hpool : prospectivePool P a poolId height gate = some p)
    (henv : validateAmmEnvelope p op tx ∧
      isCanonicalTokenCreditAddress C.sha256 P op.user = true)
    {o : Outcome} (ho : Computes P C poolId op tx height ⟨p, a.lp, tokens⟩ o) :
    applyLive P C poolId op tx height gate ⟨a, tokens⟩ =
      .ok () ⟨⟨a.pools.insert poolId o.pool, o.lp⟩, o.tokens tokens⟩ := by
  have hrun : applyAmmOp P C poolId op tx false height ⟨p, a.lp, tokens⟩ =
      .ok () (o.state tokens) := applyAmmOp_live.mpr ⟨henv, o, ho, rfl⟩
  rw [applyLive, get_bind_eq_ok]
  simp only [lookup_maybeCreatePool hpool, hrun, set_eq_ok, maybeCreatePool_insert]
  rfl

theorem prospectivePool_eq_none_iff :
    prospectivePool P a poolId height gate = none ↔
      a.pool poolId = none ∧ poolCreationAllowed P height gate = false := by
  unfold prospectivePool
  cases a.pool poolId <;> simp

/-- A block the guard accepts is applied, and ends in the state the dry run computed on the token
ledger it read. -/
theorem processBlock_of_validateBlock {frame : TokenValidationFrame}
    (h : validateBlock P C V a poolId block tokens gate frame) :
    ∃ sole read, soleOp block.transactions = some sole ∧
      validationTokens P C V block gate sole.isSome frame tokens = some read ∧
      (frame = .postBlockState → read = tokens) ∧
      ∃ s', DryRunState P C a poolId block read gate s' ∧
        processBlock P C poolId block gate ⟨a, read⟩ = .ok () s' := by
  unfold validateBlock at h
  rcases hsole : soleOp block.transactions with _ | sole <;> simp only [hsole] at h
  · cases h
  split_ifs at h with hgate
  rcases hread : validationTokens P C V block gate sole.isSome frame tokens with _ | read <;>
    simp only [hread] at h
  · cases h
  refine ⟨sole, read, rfl, hread, ?_, ?_⟩
  · rintro rfl
    have hsame : tokens = read := by simpa [validationTokens] using hread
    exact hsame.symm
  simp only [processBlock, require_bind_eq_ok, get_bind_eq_ok, hsole]
  rcases sole with _ | ⟨op, tx⟩
  · exact ⟨_, .idle hsole, none, rfl, by simp⟩
  · have hamm : gate.ammAllowed = true := by simpa using hgate
    rcases hpool : prospectivePool P a poolId block.height gate with _ | p
    · refine ⟨_, .dormant hsole hpool, some (op, tx), rfl, ?_⟩
      simp [hamm, prospectivePool_eq_none_iff.mp hpool]
    · simp only [hpool] at h
      obtain ⟨u, s', hdry⟩ := dryRun_of_validateTransactions hsole h
      obtain ⟨henv, o, ho⟩ := computes_of_applyAmmOp_dry hdry
      refine ⟨_, .operation hsole hpool ho, some (op, tx), rfl, ?_⟩
      have hlive := applyLive_eq_ok hpool henv ho
      have hsome : ¬ (a.pool poolId = none ∧ poolCreationAllowed P block.height gate = false) := by
        rw [← prospectivePool_eq_none_iff, hpool]
        simp
      simp only [check_bind_eq_ok, hsome, if_false]
      exact ⟨hamm, hlive⟩

end

/-- A seeded pool of 100 VELD and a million satoshi at the opening ratio. -/
def samplePool : AmmPool :=
  { newPool (ascii "VELD:btcVELD") with
    reserveVeld := 10000000000
    reserveBtcveld := 1000000
    lpSupply := 100000000
    lockedLp := 100000000
    anchorVeld := 10000000000
    anchorBtcveld := 1000000
    utxoValid := true }

def sampleAmm : AmmLedger := ⟨(∅ : Table Bytes AmmPool).insert (ascii "VELD:btcVELD") samplePool, ∅⟩

/-- A token ledger in which the pool account holds the pool's reserve. -/
def sampleTokens : Ledger :=
  { Ledger.empty .publicMainnet Crypto.blank.sha256 with
    tokens := (∅ : Table Bytes Bytes).insert btcveldTokenId Profile.publicMainnet.issuerAddress
    balances := (∅ : Table Bytes Int).insert
      (balanceKey btcveldTokenId (ascii "AMM:VELD:btcVELD")) 1000000 }

def sampleSwapBlock : Block where
  header := ⟨1, .zero, .zero, 0, 0, 0⟩
  transactions :=
    [⟨1, [⟨.zero, 0, [], 0xFFFFFFFF⟩, ⟨.zero, 1, [], 0xFFFFFFFF⟩],
      [⟨10100000000, poolVeldScript (ascii "VELD:btcVELD")⟩,
        ⟨0, buildOpReturnScript (encodeAmmOp ⟨ascii "SWAP_V2B", aliceAddress, 100000000, 1⟩)⟩], 0⟩]
  height := 1

/-- The guard accepts a swap of 1 VELD, and so does the ledger. -/
theorem processBlock_of_validateBlock_swap :
    ∃ sole read, soleOp sampleSwapBlock.transactions = some sole ∧
      validationTokens .publicMainnet .blank ⟨none, fun _ => none⟩ sampleSwapBlock
        ⟨true, true, true⟩ sole.isSome .postBlockState sampleTokens = some read ∧
      (TokenValidationFrame.postBlockState = .postBlockState → read = sampleTokens) ∧
      ∃ s', DryRunState .publicMainnet .blank sampleAmm (ascii "VELD:btcVELD") sampleSwapBlock read
          ⟨true, true, true⟩ s' ∧
        processBlock .publicMainnet .blank (ascii "VELD:btcVELD") sampleSwapBlock
          ⟨true, true, true⟩ ⟨sampleAmm, read⟩ = .ok () s' :=
  processBlock_of_validateBlock (by decide +kernel)

end Veld.Amm
