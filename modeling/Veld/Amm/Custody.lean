import Veld.Amm.Liquidity
import Veld.Token.BlockSteps

/-!
# The three records of the pool

The pool's btcVELD is recorded as its reserve and as the balance of its token account; its VELD is recorded as
its reserve and as the value of the pool output on the chain.
-/

namespace Veld.Amm

open Wire hiding bind_eq_ok
open Program List

def poolAccount (poolId : Bytes) : Bytes := ascii "AMM:" ++ poolId

theorem canCredit_poolAccount (P : Profile) (C : Crypto) (poolId : Bytes) :
    canCredit P C (poolAccount poolId) = false := by
  rw [Bool.eq_false_iff]
  intro h
  refine colon_notMem_of_isCanonical h ?_
  have : (58 : UInt8) ∈ ascii "AMM:" := by decide
  exact mem_append_left _ this

/-! ## One operation -/

/-- The three records of a seeded pool agree. -/
structure Custody (C : Crypto) (poolId : Bytes) (recorded : Transaction → Prop) (s : OpState) :
    Prop where
  exist : s.pool.exist = true
  account : s.pool.btcveldAddr = poolAccount poolId
  seeded : Seeded s
  reserve : s.pool.reserveBtcveld = s.tokens.balance btcveldTokenId (poolAccount poolId)
  floor : minAccountSats ≤ s.pool.reserveBtcveld
  vout : s.pool.poolVout = 0
  output : ∃ tx, recorded tx ∧ tx.getTxID C = s.pool.poolTxid ∧
    outputPays tx 0 s.pool.reserveVeld = true

theorem Custody.mono {C : Crypto} {poolId : Bytes} {recorded recorded' : Transaction → Prop}
    {s : OpState} (h : Custody C poolId recorded s) (hle : ∀ tx, recorded tx → recorded' tx) :
    Custody C poolId recorded' s :=
  { h with output := let ⟨tx, hr, hid, hout⟩ := h.output; ⟨tx, hle tx hr, hid, hout⟩ }

variable {P : Profile} {C : Crypto} {poolId : Bytes} {op : AmmOp} {tx : Transaction} {height : Nat}
  {s s' : OpState}

variable {o : Outcome}

section
variable (h : Computes P C poolId op tx height s o)
include h

theorem Computes.leg :
    (0 < o.amount → canAmmMove s.tokens btcveldTokenId o.source o.dest o.amount) ∧
      0 ≤ o.amount ∧ (o.source = s.pool.btcveldAddr ∧ o.dest = op.user ∨
        o.source = op.user ∧ o.dest = s.pool.btcveldAddr) := by
  have pos : ∀ {a b : Bytes} {n : Int}, canAmmMove s.tokens btcveldTokenId a b n → 0 ≤ n := by
    intro a b n hn
    simp only [canAmmMove, Bool.and_eq_true, decide_eq_true_eq] at hn
    omega
  cases h with
  | swapV2B _ tested =>
    have hleg := (checkSwap_eq_some tested).leg
    exact ⟨fun _ => hleg, pos hleg, .inl ⟨rfl, rfl⟩⟩
  | swapB2V _ tested =>
    have hleg := (checkSwap_eq_some tested).leg
    simp only [swapLeg, Bool.false_eq_true, if_false, Bool.and_eq_true] at hleg
    exact ⟨fun _ => hleg.2, pos hleg.2, .inr ⟨rfl, rfl⟩⟩
  | add _ tested =>
    have hleg := (checkAdd_eq_some tested).leg
    exact ⟨fun _ => hleg, pos hleg, .inr ⟨rfl, rfl⟩⟩
  | remove _ tested =>
    have ht := checkRemove_eq_some tested
    exact ⟨ht.leg, ht.btcveld_nonneg, .inl ⟨rfl, rfl⟩⟩

theorem Computes.chained :
    o.pool.exist = s.pool.exist ∧ o.pool.btcveldAddr = s.pool.btcveldAddr ∧ o.pool.poolVout = 0 ∧
      o.pool.poolTxid = tx.getTxID C ∧ outputPays tx 0 o.pool.reserveVeld := by
  cases h with
  | swapV2B _ tested | swapB2V _ tested => exact ⟨rfl, rfl, rfl, rfl, (checkSwap_eq_some tested).poolOutput⟩
  | @add plan _ tested =>
    rcases (checkAdd_eq_some tested).branch with ⟨-, ht⟩ | ⟨-, ht⟩
    · simpa [chainPool, AddPlan.pool, ht.isSeed] using ht.poolOutput
    · simpa [chainPool, AddPlan.pool, ht.notSeed] using ht.poolOutput
  | remove _ tested => exact ⟨rfl, rfl, rfl, rfl, (checkRemove_eq_some tested).poolOutput⟩

theorem Computes.reserve (hempty : isSeed s.pool → s.pool.reserveBtcveld = 0)
    (huser : op.user ≠ s.pool.btcveldAddr) :
    o.pool.reserveBtcveld = s.pool.reserveBtcveld -
      (if s.pool.btcveldAddr = o.source then o.amount else 0) +
      if s.pool.btcveldAddr = o.dest then o.amount else 0 := by
  cases h with
  | swapV2B _ tested =>
    have hpost := (quoteSwap_eq_ok (checkSwap_eq_some tested).quoted).2.2.2
    simp only [swappedPool, chainPool, hpost, postBtcveld, if_true, huser.symm, if_false]
    omega
  | swapB2V _ tested =>
    have hpost := (quoteSwap_eq_ok (checkSwap_eq_some tested).quoted).2.2.2
    simp only [swappedPool, chainPool, hpost, postBtcveld, Bool.false_eq_true, if_true,
      huser.symm, if_false]
    omega
  | @add plan _ tested =>
    rcases (checkAdd_eq_some tested).branch with ⟨hseed, ht⟩ | ⟨-, ht⟩
    · simp only [chainPool, AddPlan.pool, ht.isSeed, if_true, huser.symm, if_false, hempty hseed]
      omega
    · simp only [chainPool, AddPlan.pool, ht.notSeed, Bool.false_eq_true, if_true, huser.symm,
        if_false]
      omega
  | remove _ tested =>
    simp only [removedPool, chainPool, if_true, huser.symm, if_false]
    omega

end

theorem canAmmMove_admissible {l : Ledger} {source dest : Bytes} {amount : Int}
    (h : canAmmMove l btcveldTokenId source dest amount) (hne : source ≠ dest) :
    balanceAdmissible (l.balance btcveldTokenId source - amount) ∧
      balanceAdmissible (l.balance btcveldTokenId dest + amount) := by
  simp only [canAmmMove, Bool.and_eq_true, Bool.or_eq_true, beq_iff_eq, decide_eq_true_eq] at h
  obtain ⟨-, h⟩ := h
  have := h.resolve_left hne
  exact ⟨this.1.2, this.2⟩

/-- A pool nobody has seeded, with an empty account, or one whose records agree. -/
def Kept (C : Crypto) (poolId : Bytes) (recorded : Transaction → Prop) (s : OpState) : Prop :=
  Fresh poolId s ∧ s.tokens.balance btcveldTokenId (poolAccount poolId) = 0 ∨
    Custody C poolId recorded s

section
variable {recorded : Transaction → Prop}

section
variable (h : Kept C poolId recorded s)
include h

theorem Kept.account : s.pool.btcveldAddr = poolAccount poolId := by
  rcases h with ⟨h, -⟩ | h
  · rw [h.pool]
    rfl
  · exact h.account

theorem Kept.exist : s.pool.exist := by
  rcases h with ⟨h, -⟩ | h
  · rw [h.pool]
    rfl
  · exact h.exist

theorem Kept.reserve :
    s.pool.reserveBtcveld = s.tokens.balance btcveldTokenId (poolAccount poolId) := by
  rcases h with ⟨h, hzero⟩ | h
  · rw [h.pool, hzero]
    rfl
  · exact h.reserve

theorem Kept.empty_of_isSeed (hseed : isSeed s.pool) : s.pool.reserveBtcveld = 0 := by
  rcases h with ⟨h, -⟩ | h
  · rw [h.pool]
    rfl
  · rw [h.seeded.isSeed_eq_false] at hseed
    cases hseed

theorem Kept.seeded (hrun : applyAmmOp P C poolId op tx false height s = .ok () s') :
    Seeded s' := by
  rcases h with ⟨h, -⟩ | h
  · exact h.apply hrun
  · exact h.seeded.apply hrun

theorem Kept.floor {o : Outcome} (ho : Computes P C poolId op tx height s o)
    (huser : op.user ≠ poolAccount poolId) (hseeded : Seeded (o.state s.tokens))
    (hreserve : o.pool.reserveBtcveld =
      (o.tokens s.tokens).balance btcveldTokenId (poolAccount poolId)) :
    minAccountSats ≤ o.pool.reserveBtcveld := by
  have hpos : 0 < o.pool.reserveBtcveld := hseeded.btcveld
  obtain ⟨hcan, hnonneg, hparties⟩ := ho.leg
  rw [h.account] at hparties
  rw [Outcome.tokens, Ledger.balance_transfer] at hreserve
  rcases hnonneg.lt_or_eq with hamount | hzero
  · rcases hparties with ⟨hs, hd⟩ | ⟨hs, hd⟩
    · have hadm := (canAmmMove_admissible (hcan hamount) (by rw [hs, hd]; exact huser.symm)).1
      rw [hs] at hadm
      simp only [hs, hd, if_true, huser.symm, if_false] at hreserve
      rcases hadm with hadm | hadm <;> omega
    · have hadm := (canAmmMove_admissible (hcan hamount) (by rw [hs, hd]; exact huser)).2
      rw [hd] at hadm
      simp only [hs, hd, if_true, huser.symm, if_false] at hreserve
      rcases hadm with hadm | hadm <;> omega
  · -- only a REMOVE moves nothing, and it needs a seeded pool
    simp only [← hzero, ite_self, sub_zero, add_zero] at hreserve
    rcases h with ⟨-, hempty⟩ | h
    · omega
    · have := h.floor
      have := h.reserve
      omega

theorem Kept.apply (hrun : applyAmmOp P C poolId op tx false height s = .ok () s')
    (hrec : recorded tx) : Custody C poolId recorded s' := by
  have hseeded := h.seeded hrun
  obtain ⟨⟨-, hcanon⟩, o, ho, rfl⟩ := applyAmmOp_live.mp hrun
  have huser : op.user ≠ poolAccount poolId := by
    intro he
    have := canCredit_poolAccount P C poolId
    rw [← he] at this
    exact absurd hcanon (by rw [canCredit] at this; simp [this])
  obtain ⟨hexist, hacct, hvout, htxid, hout⟩ := ho.chained
  have hreserve : o.pool.reserveBtcveld =
      (o.tokens s.tokens).balance btcveldTokenId (poolAccount poolId) := by
    rw [Outcome.tokens, Ledger.balance_transfer, ← h.reserve, ← h.account]
    exact ho.reserve h.empty_of_isSeed (h.account ▸ huser)
  exact
    { exist := hexist.trans h.exist
      account := hacct.trans h.account
      seeded := hseeded
      reserve := hreserve
      floor := h.floor ho huser hseeded hreserve
      vout := hvout
      output := ⟨tx, hrec, htxid.symm, hout⟩ }

end

end

/-! ## Blocks -/

/-- What an accepted AMM block did: nothing but to create the pool, nothing at all, or its sole
operation on the pool. -/
inductive BlockEffect (P : Profile) (C : Crypto) (poolId : Bytes) (block : Block) (gate : PegGate)
    (s : AmmState) : AmmState → Prop
  | idle : BlockEffect P C poolId block gate s
      { s with amm.pools := maybeCreatePool P poolId block.height gate s.amm.pools }
  | dormant : BlockEffect P C poolId block gate s s
  | operation {op : AmmOp} {tx : Transaction} {p : AmmPool} {t : OpState}
      (mem : tx ∈ block.transactions)
      (pool : ((maybeCreatePool P poolId block.height gate s.amm.pools).lookup poolId).filter
        (·.exist) = some p)
      (run : applyAmmOp P C poolId op tx false block.height ⟨p, s.amm.lp, s.tokens⟩ = .ok () t) :
      BlockEffect P C poolId block gate s ⟨⟨s.amm.pools.insert poolId t.pool, t.lp⟩, t.tokens⟩

theorem mem_of_soleOp {txs : List Transaction} (h : soleOp txs = some (some (op, tx))) :
    tx ∈ txs := by
  induction txs with
  | nil => cases h
  | cons t txs ih =>
    unfold soleOp at h
    split at h
    · exact mem_cons_of_mem _ (ih h)
    · cases h
      exact mem_cons_self
    · cases h

theorem processBlock_effect {block : Block} {gate : PegGate} {s s' : AmmState}
    (h : processBlock P C poolId block gate s = .ok () s') :
    BlockEffect P C poolId block gate s s' := by
  simp only [processBlock, get_bind_eq_ok, require_bind_eq_ok] at h
  obtain ⟨sole, hsole, h⟩ := h
  rcases sole with _ | ⟨op, tx⟩
  · simp only [set_eq_ok] at h
    exact h ▸ .idle
  · simp only [check_bind_eq_ok] at h
    obtain ⟨-, h⟩ := h
    split at h
    · obtain ⟨-, rfl⟩ := pure_eq_ok.mp h
      exact .dormant
    · rw [applyLive, get_bind_eq_ok] at h
      rcases hpool : ((maybeCreatePool P poolId block.height gate s.amm.pools).lookup
          poolId).filter (·.exist) with _ | p <;> simp only [hpool] at h
      · simp only [set_eq_ok] at h
        exact h ▸ .idle
      · rcases hrun : applyAmmOp P C poolId op tx false block.height ⟨p, s.amm.lp, s.tokens⟩ with
          ⟨⟨⟩, t⟩ | ⟨e, t⟩ <;> simp only [hrun] at h
        · simp only [set_eq_ok, maybeCreatePool_insert] at h
          exact h ▸ .operation (mem_of_soleOp hsole) hpool hrun
        · simp only [bind_eq_ok, set_eq_ok] at h
          obtain ⟨-, _, -, h⟩ := h
          exact (throw_ne_ok h).elim

/-! ## Runs -/

/-- Token blocks, compensations and AMM blocks in any order, with the AMM blocks applied. -/
inductive Run (P : Profile) (C : Crypto) (poolId : Bytes) (s : AmmState) :
    List Block → AmmState → Prop
  | refl : Run P C poolId s [] s
  | tokenBlock {blocks : List Block} {m : AmmState} {V : View} {gate : PegGate} {block : Block}
      {l : Ledger} (run : Run P C poolId s blocks m)
      (h : Veld.processBlock P C V gate block m.tokens = .ok () l) :
      Run P C poolId s blocks { m with tokens := l }
  | compensation {blocks : List Block} {m : AmmState} {recipient : Bytes} {amount : Nat}
      {l : Ledger} (run : Run P C poolId s blocks m)
      (h : compensateMint P C recipient amount m.tokens = .ok () l) :
      Run P C poolId s blocks { m with tokens := l }
  | ammBlock {blocks : List Block} {m s' : AmmState} {gate : PegGate} {block : Block}
      (run : Run P C poolId s blocks m)
      (h : processBlock P C poolId block gate m = .ok () s') : Run P C poolId s (block :: blocks) s'

/-- A transaction of one of the blocks. -/
def Recorded (blocks : List Block) (tx : Transaction) : Prop :=
  ∃ block ∈ blocks, tx ∈ block.transactions

/-- The invariant of a run: only the peg token exists, and the pool is not yet there, with an empty
account, or kept. -/
structure Agreed (C : Crypto) (poolId : Bytes) (recorded : Transaction → Prop) (s : AmmState) :
    Prop where
  sole : s.tokens.books.SoleToken
  absent : s.amm.pools.lookup poolId = none →
    s.amm.lp = ∅ ∧ s.tokens.balance btcveldTokenId (poolAccount poolId) = 0
  kept : ∀ p, s.amm.pools.lookup poolId = some p → Kept C poolId recorded ⟨p, s.amm.lp, s.tokens⟩

section
variable {recorded recorded' : Transaction → Prop} {m m' : AmmState}

theorem agreed_empty : Agreed C poolId recorded ⟨.empty, Ledger.empty P C.sha256⟩ where
  sole t ht := absurd rfl ht
  absent _ := ⟨rfl, rfl⟩
  kept p hp := by cases hp

variable {l : Ledger} {p : AmmPool}

theorem Kept.of_balance {lp : Table Bytes Int} {l' : Ledger} (h : Kept C poolId recorded ⟨p, lp, l⟩)
    (hbal : l'.balance btcveldTokenId (poolAccount poolId) =
      l.balance btcveldTokenId (poolAccount poolId)) : Kept C poolId recorded ⟨p, lp, l'⟩ := by
  rcases h with ⟨h, hzero⟩ | h
  · exact .inl ⟨⟨h.pool, h.lp⟩, hbal.trans hzero⟩
  · exact .inr ⟨h.exist, h.account, ⟨h.seeded.live, h.seeded.veld, h.seeded.btcveld, h.seeded.supply,
      h.seeded.locked, h.seeded.positions⟩, h.reserve.trans hbal.symm, h.floor, h.vout, h.output⟩

/-- The pool depends on the token ledger only through the balance of its account. -/
theorem Agreed.tokens (h : Agreed C poolId recorded m) (hsole : l.books.SoleToken)
    (hbal : l.balance btcveldTokenId (poolAccount poolId) =
      m.tokens.balance btcveldTokenId (poolAccount poolId)) :
    Agreed C poolId recorded { m with tokens := l } where
  sole := hsole
  absent hnone := ⟨(h.absent hnone).1, hbal.trans (h.absent hnone).2⟩
  kept p hp := (h.kept p hp).of_balance hbal

theorem Agreed.mono (h : Agreed C poolId recorded m) (hle : ∀ tx, recorded tx → recorded' tx) :
    Agreed C poolId recorded' m :=
  { h with kept := fun p hp => (h.kept p hp).imp_right (·.mono hle) }

variable {gate : PegGate} {block : Block}

theorem Agreed.tokenBlock (h : Agreed C poolId recorded m) {V : View}
    (hl : Veld.processBlock P C V gate block m.tokens = .ok () l) :
    Agreed C poolId recorded { m with tokens := l } := by
  obtain ⟨b₀, b₁, hb⟩ := processBlock_books h.sole hl
  have hsole₀ : b₀.SoleToken := hb.opened ▸ h.sole.opened b₀.reserve
  have hout : ¬ canCredit P C (poolAccount poolId) := by
    simp [canCredit_poolAccount P C poolId]
  -- along the markers of the block
  have hrun : b₁.SoleToken ∧ b₁.balance btcveldTokenId (poolAccount poolId) =
      b₀.balance btcveldTokenId (poolAccount poolId) := by
    refine hb.run.invariant (I := fun b => b.SoleToken ∧
      b.balance btcveldTokenId (poolAccount poolId) =
        b₀.balance btcveldTokenId (poolAccount poolId)) (fun tx b b' hstep hI => ?_) ⟨hsole₀, rfl⟩
    refine ⟨?_, (hstep.balance_eq hI.1 hout).trans hI.2⟩
    unfold Books.SoleToken
    rw [hstep.tokens]
    exact hI.1
  have hclosed := hb.closed
  refine h.tokens ?_ ?_
  · rw [hclosed]
    exact hrun.1
  · change l.books.balance _ _ = m.tokens.books.balance _ _
    rw [hclosed]
    refine hrun.2.trans ?_
    rw [hb.opened]
    rfl

theorem Agreed.compensation (h : Agreed C poolId recorded m) {recipient : Bytes} {amount : Nat}
    (hl : compensateMint P C recipient amount m.tokens = .ok () l) :
    Agreed C poolId recorded { m with tokens := l } := by
  have hc := compensateMint_books hl
  have hne : poolAccount poolId ≠ recipient := by
    intro he
    have hacct := hc.account
    rw [← he, canCredit_poolAccount] at hacct
    cases hacct
  refine h.tokens ?_ ?_
  · rw [hc.written]
    exact h.sole
  · change l.books.balance _ _ = m.tokens.books.balance _ _
    rw [hc.written]
    refine (Books.balance_credit m.tokens.books _ _ _ _).trans ?_
    rw [if_neg hne, add_zero]

theorem Agreed.create (h : Agreed C poolId recorded m) (height : Nat) (gate : PegGate) :
    Agreed C poolId recorded
      { m with amm.pools := maybeCreatePool P poolId height gate m.amm.pools } := by
  unfold maybeCreatePool
  split
  · rcases hl : m.amm.pools.lookup poolId with _ | p
    · obtain ⟨hlp, hzero⟩ := h.absent hl
      refine ⟨h.sole, ?_, ?_⟩
      · simp
      · intro p hp
        simp only [Option.any_none, Bool.false_eq_true, if_false, AList.lookup_insert,
          Option.some.injEq] at hp
        exact .inl ⟨⟨hp.symm, hlp⟩, hzero⟩
    · have hexist : (some p).any (·.exist) = true := (h.kept p hl).exist
      rw [if_pos hexist]
      exact h
  · exact h

theorem applyAmmOp_sole {t : OpState} (hsole : s.tokens.books.SoleToken)
    (hrun : applyAmmOp P C poolId op tx false height s = .ok () t) : t.tokens.books.SoleToken := by
  obtain ⟨-, o, -, rfl⟩ := applyAmmOp_live.mp hrun
  have hframe := congrArg Ledger.tokens
    (s.tokens.transfer_frame btcveldTokenId o.source o.dest o.amount)
  intro t ht
  exact hsole t (by rw [← show _ = s.tokens.books.tokens from hframe]; exact ht)

theorem Agreed.ammBlock (h : Agreed C poolId recorded m)
    (hblock : processBlock P C poolId block gate m = .ok () m') :
    Agreed C poolId (fun tx => recorded tx ∨ tx ∈ block.transactions) m' := by
  have hmono : Agreed C poolId (fun tx => recorded tx ∨ tx ∈ block.transactions) m :=
    h.mono fun _ => .inl
  cases processBlock_effect hblock with
  | idle => exact hmono.create block.height gate
  | dormant => exact hmono
  | @operation op tx p t mem pool run =>
    obtain ⟨hp, -⟩ := Option.filter_eq_some_iff.mp pool
    have hkept := (hmono.create (P := P) block.height gate).kept p hp
    have hcustody := hkept.apply run (.inr mem)
    refine ⟨applyAmmOp_sole h.sole run, ?_, ?_⟩
    · simp
    · intro q hq
      simp only [AList.lookup_insert, Option.some.injEq] at hq
      exact hq ▸ .inr hcustody

theorem Agreed.run {s : AmmState} (h : Agreed C poolId recorded s) {blocks : List Block}
    {s' : AmmState} (hrun : Run P C poolId s blocks s') :
    Agreed C poolId (fun tx => recorded tx ∨ Recorded blocks tx) s' := by
  induction hrun with
  | refl => exact h.mono fun _ => .inl
  | tokenBlock _ hl ih => exact ih.tokenBlock hl
  | compensation _ hl ih => exact ih.compensation hl
  | ammBlock _ hblock ih =>
    refine (ih.ammBlock hblock).mono fun tx htx => ?_
    rcases htx with (htx | ⟨b, hb, htx⟩) | htx
    · exact .inl htx
    · exact .inr ⟨b, mem_cons_of_mem _ hb, htx⟩
    · exact .inr ⟨_, mem_cons_self, htx⟩

/-! ## The records -/

theorem Agreed.pool (h : Agreed C poolId recorded m) (hp : m.amm.pool poolId = some p) :
    Kept C poolId recorded ⟨p, m.amm.lp, m.tokens⟩ :=
  h.kept p (Option.filter_eq_some_iff.mp hp).1

def SeededPool (poolId : Bytes) (s : AmmState) : Prop :=
  ∃ p, s.amm.pool poolId = some p ∧ p.utxoValid

theorem Agreed.custody (h : Agreed C poolId recorded m) (hp : m.amm.pool poolId = some p)
    (hseeded : p.utxoValid) : Custody C poolId recorded ⟨p, m.amm.lp, m.tokens⟩ := by
  rcases h.pool hp with ⟨hf, -⟩ | hc
  · have : p = newPool poolId := hf.pool
    rw [this] at hseeded
    cases hseeded
  · exact hc

theorem Agreed.seeded_ammBlock (h : Agreed C poolId recorded m)
    (hblock : processBlock P C poolId block gate m = .ok () m') (hseeded : SeededPool poolId m) :
    SeededPool poolId m' := by
  have hmono : Agreed C poolId (fun tx => recorded tx ∨ tx ∈ block.transactions) m :=
    h.mono fun _ => .inl
  obtain ⟨p, hp, hlive⟩ := hseeded
  obtain ⟨hlookup, hexist⟩ := Option.filter_eq_some_iff.mp hp
  have hsame : maybeCreatePool P poolId block.height gate m.amm.pools = m.amm.pools := by
    unfold maybeCreatePool
    have : ((m.amm.pools.lookup poolId).any (·.exist)) = true := by simp [hlookup, hexist]
    simp [this]
  cases processBlock_effect hblock with
  | idle =>
    rw [hsame]
    exact ⟨p, hp, hlive⟩
  | dormant => exact ⟨p, hp, hlive⟩
  | @operation op tx q t mem pool run =>
    rw [hsame] at pool
    have hcustody := (hmono.pool pool).apply run (.inr mem)
    exact ⟨t.pool, by simp [AmmLedger.pool, hcustody.exist], hcustody.seeded.live⟩

theorem Agreed.seeded_run {s : AmmState} (h : Agreed C poolId recorded s) {blocks : List Block}
    {s' : AmmState} (hrun : Run P C poolId s blocks s') (hseeded : SeededPool poolId s) :
    SeededPool poolId s' := by
  induction hrun with
  | refl => exact hseeded
  | tokenBlock _ _ ih | compensation _ _ ih => exact ih
  | ammBlock hm hblock ih => exact (h.run hm).seeded_ammBlock hblock ih

end

/-- From the empty ledgers: the recorded btcVELD reserve is the balance of the pool account, and a
pool once seeded stays so, with positive reserves, the account floor, and a recorded pool output
that carries the VELD reserve. -/
theorem pool_records_agree {blocks : List Block} {s : AmmState}
    (hrun : Run P C poolId ⟨.empty, Ledger.empty P C.sha256⟩ blocks s) :
    (∀ p, s.amm.pool poolId = some p →
      p.reserveBtcveld = s.tokens.balance btcveldTokenId p.btcveldAddr) ∧
    ∀ p, s.amm.pool poolId = some p → p.utxoValid →
      ∀ later s', Run P C poolId s later s' → ∃ p', s'.amm.pool poolId = some p' ∧
        p'.utxoValid ∧ 0 < p'.reserveVeld ∧ 0 < p'.reserveBtcveld ∧
        minAccountSats ≤ p'.reserveBtcveld ∧ p'.poolVout = 0 ∧
        ∃ block ∈ later ++ blocks, ∃ tx ∈ block.transactions,
          tx.getTxID C = p'.poolTxid ∧ outputPays tx 0 p'.reserveVeld := by
  have hempty : Agreed C poolId (fun _ => False) ⟨.empty, Ledger.empty P C.sha256⟩ := agreed_empty
  have hagreed := hempty.run hrun
  refine ⟨fun p hp => ?_, fun p hp hlive later s' hlater => ?_⟩
  · have hkept := hagreed.pool hp
    rw [show p.btcveldAddr = poolAccount poolId from hkept.account]
    exact hkept.reserve
  · obtain ⟨p', hp', hlive'⟩ := hagreed.seeded_run hlater ⟨p, hp, hlive⟩
    have hc := (hagreed.run hlater).custody hp' hlive'
    obtain ⟨tx, hrec, hid, hout⟩ := hc.output
    refine ⟨p', hp', hlive', hc.seeded.veld, hc.seeded.btcveld, hc.floor, hc.vout, ?_⟩
    rcases hrec with (hrec | ⟨b, hb, htx⟩) | ⟨b, hb, htx⟩
    · exact hrec.elim
    · exact ⟨b, mem_append_right _ hb, tx, htx, hid, hout⟩
    · exact ⟨b, mem_append_left _ hb, tx, htx, hid, hout⟩

def legacySample : Profile := { Profile.sample with transitionV1Required := false }

def blockOf (height : Nat) (txs : List Transaction) : Block where
  header := ⟨1, .zero, .zero, 0, 0, 0⟩
  transactions := txs
  height := height

def sampleFunded : Ledger :=
  final (compensateMint legacySample .blank aliceAddress 200000)
    (final (Veld.processBlock legacySample .blank ⟨none, fun _ => none⟩ ⟨true, true, true⟩
      (blockOf 1 [])) (Ledger.empty legacySample Crypto.blank.sha256))

/-- Then it seeds the pool. -/
def sampleSeeded : AmmState :=
  final (processBlock legacySample .blank (ascii "VELD:btcVELD") (blockOf 2 [sampleSeedTx])
    ⟨true, true, true⟩) ⟨.empty, sampleFunded⟩

theorem pool_records_agree_seed :
    ∃ p, sampleSeeded.amm.pool (ascii "VELD:btcVELD") = some p ∧ p.reserveBtcveld = 100000 ∧
      p.reserveBtcveld = sampleSeeded.tokens.balance btcveldTokenId p.btcveldAddr ∧
      ∃ tx ∈ [sampleSeedTx], tx.getTxID .blank = p.poolTxid ∧
        outputPays tx 0 p.reserveVeld = true := by
  have hregister : Run legacySample .blank (ascii "VELD:btcVELD")
      ⟨.empty, Ledger.empty legacySample Crypto.blank.sha256⟩ []
      ⟨.empty, final (Veld.processBlock legacySample .blank ⟨none, fun _ => none⟩
        ⟨true, true, true⟩ (blockOf 1 [])) (Ledger.empty legacySample Crypto.blank.sha256)⟩ :=
    .tokenBlock .refl (eq_ok_of_succeeds (by decide +kernel))
  have hfunded : Run legacySample .blank (ascii "VELD:btcVELD")
      ⟨.empty, Ledger.empty legacySample Crypto.blank.sha256⟩ [] ⟨.empty, sampleFunded⟩ :=
    .compensation hregister (eq_ok_of_succeeds (by decide +kernel))
  have hseeded : Run legacySample .blank (ascii "VELD:btcVELD")
      ⟨.empty, Ledger.empty legacySample Crypto.blank.sha256⟩ [blockOf 2 [sampleSeedTx]]
      sampleSeeded := .ammBlock hfunded (eq_ok_of_succeeds (by decide +kernel))
  have hagree := pool_records_agree hseeded
  have hlive : (sampleSeeded.amm.pool (ascii "VELD:btcVELD")).any
      (fun p => p.utxoValid && p.reserveBtcveld == 100000) = true := by decide +kernel
  obtain ⟨p, hp, hfacts⟩ := (Option.any_eq_true _ _).mp hlive
  simp only [Bool.and_eq_true, beq_iff_eq] at hfacts
  obtain ⟨p', hp', -, -, -, -, -, block, hblock, tx, htx, hid, hout⟩ :=
    hagree.2 p hp hfacts.1 [] _ .refl
  cases hp.symm.trans hp'
  cases mem_singleton.mp hblock
  exact ⟨p, hp, hfacts.2, hagree.1 p hp, tx, htx, hid, hout⟩

end Veld.Amm
