import Veld.Amm.Custody

/-!
# LP positions over a run of blocks

A refused block leaves pool, positions and tokens as they were, although an operation writes before its last
test.
-/

namespace Veld.Amm

open Wire hiding bind_eq_ok
open Program Table

variable {P : Profile} {C : Crypto} {poolId : Bytes} {op : AmmOp} {tx : Transaction} {height : Nat}
  {s s' : OpState}

/-! ## Refused blocks -/

theorem applyLive_restores {gate : PegGate} {e : Stop} {before after : AmmState}
    (h : applyLive P C poolId op tx height gate before = .error e after) : after = before := by
  unfold applyLive at h
  rw [get_bind_eq_error] at h
  rcases hpool : ((maybeCreatePool P poolId height gate before.amm.pools).lookup
      poolId).filter (·.exist) with _ | p <;> simp only [hpool] at h
  · cases h
  · rcases hrun : applyAmmOp P C poolId op tx false height ⟨p, before.amm.lp, before.tokens⟩ with
      ⟨⟨⟩, t⟩ | ⟨e', t⟩ <;> simp only [hrun] at h
    · cases h
    · rcases bind_eq_error.mp h with h | ⟨_, m, hset, h⟩
      · cases h
      · obtain rfl := set_eq_ok.mp hset
        exact (throw_eq_error.mp h).2.symm

theorem processBlock_restores {block : Block} {gate : PegGate} {e : Stop} {before after : AmmState}
    (h : processBlock P C poolId block gate before = .error e after) : after = before := by
  unfold processBlock at h
  rcases bind_eq_error.mp h with h | ⟨sole, _, hsole, h⟩
  · exact (readOnly_require _ _ before).2 _ _ h
  obtain ⟨-, rfl⟩ := require_eq_ok.mp hsole
  rw [get_bind_eq_error] at h
  rcases sole with _ | ⟨op, tx⟩
  · cases h
  · obtain heq | ⟨-, h⟩ := check_bind_eq_error h
    · exact heq
    split at h
    · exact (pure_ne_error h).elim
    · exact applyLive_restores h

/-- A block that is refused leaves the pools, the LP positions and the token ledger as they were. -/
theorem refused_block_restores {block : Block} {gate : PegGate} {e : Stop} {before after : AmmState}
    (h : processBlock P C poolId block gate before = .error e after) :
    after.amm.pools = before.amm.pools ∧ after.amm.lp = before.amm.lp ∧
      after.tokens = before.tokens := by
  obtain rfl := processBlock_restores h
  exact ⟨rfl, rfl, rfl⟩

def sampleShortSeedTx : Transaction :=
  { sampleSeedTx with outputs := ⟨9999999999, poolVeldScript (ascii "VELD:btcVELD")⟩ ::
      sampleSeedTx.outputs.drop 1 }

def sampleShortSeed : AmmM Unit :=
  processBlock legacySample .blank (ascii "VELD:btcVELD") (blockOf 2 [sampleShortSeedTx])
    ⟨true, true, true⟩

theorem refused_block_restores_short_seed :
    (final (applyAmmOp legacySample .blank (ascii "VELD:btcVELD") sampleSeedOp sampleShortSeedTx
        false 2) ⟨newPool (ascii "VELD:btcVELD"), ∅, sampleFunded⟩).pool.lockedLp ≠ 0 ∧
      succeeds sampleShortSeed ⟨.empty, sampleFunded⟩ = false ∧
      (final sampleShortSeed ⟨.empty, sampleFunded⟩).amm.pools = ∅ ∧
      (final sampleShortSeed ⟨.empty, sampleFunded⟩).tokens = sampleFunded := by
  have hfails : succeeds sampleShortSeed ⟨.empty, sampleFunded⟩ = false := by decide +kernel
  obtain ⟨e, he⟩ := eq_error_of_not_succeeds hfails
  obtain ⟨hpools, -, htokens⟩ := refused_block_restores he
  exact ⟨by decide +kernel, hfails, hpools, htokens⟩

/-! ## Positions -/

/-- No position is below its minimum, and there are not too many. -/
structure Positions (lp : Table Bytes Int) : Prop where
  floor : ∀ k v, lp.lookup k = some v → lpMinPosition ≤ v
  count : lp.entries.length ≤ ammMaxLpIdentities

theorem positions_empty : Positions ∅ where
  floor k v h := by simp at h
  count := Nat.zero_le _

section
variable {lp : Table Bytes Int} {key : Bytes}

theorem Positions.insert (h : Positions lp) {v : Int} (hv : lpMinPosition ≤ v)
    (hcount : lp.lookup key = none → lp.entries.length < ammMaxLpIdentities) :
    Positions (lp.insert key v) where
  floor := forall_insert h.floor hv
  count := by
    rcases hl : lp.lookup key with _ | old
    · have := length_insert_le lp key v
      have := hcount hl
      omega
    · rw [length_insert_of_lookup hl]
      exact h.count

theorem Positions.erase (h : Positions lp) : Positions (lp.erase key) where
  floor k w hw := by
    exact h.floor k w (lookup_erase_eq_some.mp hw).2
  count := (length_erase_le lp key).trans h.count

theorem Positions.creditLp (h : Positions lp) {minted : Int}
    (hnew : lpOf lp key = 0 → 0 < minted →
      lpMinPosition ≤ minted ∧ lp.entries.length < ammMaxLpIdentities) :
    Positions (creditLp lp key minted) := by
  unfold Amm.creditLp
  split
  · rename_i hpos
    rcases hl : lp.lookup key with _ | held
    · have hzero : lpOf lp key = 0 := by simp [lpOf, hl]
      obtain ⟨hfloor, hcount⟩ := hnew hzero hpos
      exact h.insert (by omega) fun _ => hcount
    · have hheld : lpOf lp key = held := by simp [lpOf, hl]
      have hfloor := h.floor key held hl
      exact h.insert (by omega) fun hnone => by simp [hl] at hnone
  · exact h

theorem Positions.debitLp (h : Positions lp) {amt : Int} (hheld : 0 < amt ∧ amt ≤ lpOf lp key)
    (hres : lpOf lp key - amt ≠ 0 → lpMinPosition ≤ lpOf lp key - amt) :
    Positions (debitLp lp key amt) := by
  unfold Amm.debitLp
  split
  · exact h.erase
  · rename_i hne
    refine h.insert (hres hne) fun hnone => ?_
    have hzero : lpOf lp key = 0 := by simp [lpOf, hnone]
    omega

end

theorem checkAdd_position {plan : AddPlan} {p : AmmPool} {lp : Table Bytes Int} {tokens : Ledger}
    (h : checkAdd P C poolId p op tx lp tokens height = some plan)
    (hnew : lpOf lp (lpKey poolId op.user) = 0) (hpos : 0 < plan.minted) :
    lpMinPosition ≤ plan.minted ∧ lp.entries.length < ammMaxLpIdentities := by
  simp only [checkAdd, bind_eq_some, Option.guard_eq_some', pure_eq_some] at h
  obtain ⟨_, -, plan', -, _, -, _, -, _, hroom, _, -, _, -, rfl⟩ := h
  by_contra hno
  refine hroom ⟨hnew, hpos, ?_⟩
  omega

theorem Positions.apply (h : Positions s.lp)
    (hrun : applyAmmOp P C poolId op tx false height s = .ok () s') : Positions s'.lp := by
  obtain ⟨-, o, ho, rfl⟩ := applyAmmOp_live.mp hrun
  cases ho with
  | swapV2B | swapB2V => exact h
  | add _ htest => exact h.creditLp (checkAdd_position htest)
  | remove _ htest =>
    have ht := checkRemove_eq_some htest
    exact h.debitLp ⟨ht.amtPos, ht.held⟩ ht.residual

/-! ## The lock and the opening ratio -/

/-- What of a pool an operation after the seed leaves alone. -/
structure SameAnchor (p p' : AmmPool) : Prop where
  locked : p'.lockedLp = p.lockedLp
  veld : p'.anchorVeld = p.anchorVeld
  btcveld : p'.anchorBtcveld = p.anchorBtcveld

theorem SameAnchor.refl (p : AmmPool) : SameAnchor p p := ⟨rfl, rfl, rfl⟩

theorem SameAnchor.trans {p q r : AmmPool} (h : SameAnchor p q) (h' : SameAnchor q r) :
    SameAnchor p r :=
  ⟨h'.locked.trans h.locked, h'.veld.trans h.veld, h'.btcveld.trans h.btcveld⟩

theorem Seeded.sameAnchor (h : Seeded s)
    (hrun : applyAmmOp P C poolId op tx false height s = .ok () s') :
    SameAnchor s.pool s'.pool := by
  obtain ⟨-, o, ho, rfl⟩ := applyAmmOp_live.mp hrun
  cases ho with
  | swapV2B | swapB2V => exact ⟨rfl, rfl, rfl⟩
  | @add plan _ htest =>
    rcases (checkAdd_eq_some htest).branch with ⟨hseed, -⟩ | ⟨-, hd⟩
    · rw [h.isSeed_eq_false] at hseed
      cases hseed
    · simp only [Outcome.state, chainPool, AddPlan.pool, hd.notSeed, Bool.false_eq_true, if_false]
      exact ⟨rfl, rfl, rfl⟩
  | remove => exact ⟨rfl, rfl, rfl⟩

/-! ## Runs -/

/-- Blocks that were accepted or refused, with any token ledger at each of them. -/
inductive PoolRun (P : Profile) (C : Crypto) (poolId : Bytes) (a : AmmLedger) : AmmLedger → Prop
  | refl : PoolRun P C poolId a a
  | accepted {m : AmmLedger} {l : Ledger} {s' : AmmState} {block : Block} {gate : PegGate}
      (run : PoolRun P C poolId a m)
      (h : processBlock P C poolId block gate ⟨m, l⟩ = .ok () s') : PoolRun P C poolId a s'.amm
  | refused {m : AmmLedger} {l : Ledger} {s' : AmmState} {block : Block} {gate : PegGate} {e : Stop}
      (run : PoolRun P C poolId a m)
      (h : processBlock P C poolId block gate ⟨m, l⟩ = .error e s') : PoolRun P C poolId a s'.amm

/-- The invariant of a run: no pool and no positions, or a pool that is fresh or seeded. -/
structure Tended (poolId : Bytes) (a : AmmLedger) : Prop where
  positions : Positions a.lp
  absent : a.pools.lookup poolId = none → a.lp = ∅
  pool : ∀ p, a.pools.lookup poolId = some p →
    p.exist ∧ ∀ l, Fresh poolId ⟨p, a.lp, l⟩ ∨ Seeded ⟨p, a.lp, l⟩

section
variable {a a' : AmmLedger} {l : Ledger}

theorem tended_empty : Tended poolId .empty where
  positions := positions_empty
  absent _ := rfl
  pool p hp := by simp [AmmLedger.empty] at hp

theorem Tended.create (h : Tended poolId a) (height : Nat) (gate : PegGate) :
    Tended poolId { a with pools := maybeCreatePool P poolId height gate a.pools } := by
  unfold maybeCreatePool
  split
  · rcases hl : a.pools.lookup poolId with _ | p
    · refine ⟨h.positions, ?_, ?_⟩
      · simp
      · intro p hp
        simp only [Option.any_none, Bool.false_eq_true, if_false, AList.lookup_insert,
          Option.some.injEq] at hp
        subst hp
        exact ⟨rfl, fun _ => .inl ⟨rfl, h.absent hl⟩⟩
    · have hexist : (some p).any (·.exist) = true := (h.pool p hl).1
      rw [if_pos hexist]
      exact h
  · exact h

variable {p : AmmPool}

theorem Tended.created_eq (h : Tended poolId a) (hp : a.pools.lookup poolId = some p) (height : Nat)
    (gate : PegGate) : maybeCreatePool P poolId height gate a.pools = a.pools := by
  unfold maybeCreatePool
  have : ((a.pools.lookup poolId).any (·.exist)) = true := by simp [hp, (h.pool p hp).1]
  simp [this]

theorem Tended.seeded (h : Tended poolId a) (hp : a.pools.lookup poolId = some p)
    (hseed : isSeed p = false) (l : Ledger) : Seeded ⟨p, a.lp, l⟩ := by
  rcases (h.pool p hp).2 l with hf | hs
  · rw [show p = newPool poolId from hf.pool] at hseed
    cases hseed
  · exact hs

theorem applyAmmOp_exist (hrun : applyAmmOp P C poolId op tx false height s = .ok () s') :
    s'.pool.exist = s.pool.exist := by
  obtain ⟨-, o, ho, rfl⟩ := applyAmmOp_live.mp hrun
  exact ho.chained.1

theorem Tended.ammBlock (h : Tended poolId a) {block : Block} {gate : PegGate} {s' : AmmState}
    (hblock : processBlock P C poolId block gate ⟨a, l⟩ = .ok () s') :
    Tended poolId s'.amm ∧ ∀ p, a.pools.lookup poolId = some p → isSeed p = false →
      ∃ p', s'.amm.pools.lookup poolId = some p' ∧ isSeed p' = false ∧ SameAnchor p p' := by
  cases processBlock_effect hblock with
  | idle =>
    refine ⟨h.create block.height gate, fun p hp hseed => ⟨p, ?_, hseed, .refl p⟩⟩
    rw [h.created_eq hp]
    exact hp
  | dormant => exact ⟨h, fun p hp hseed => ⟨p, hp, hseed, .refl p⟩⟩
  | @operation op tx p t mem pool run =>
    obtain ⟨hp, hexist⟩ := Option.filter_eq_some_iff.mp pool
    have hcreated := h.create (P := P) block.height gate
    have hseeded : Seeded t := by
      rcases (hcreated.pool p hp).2 l with hf | hs
      · exact hf.apply run
      · exact hs.apply run
    refine ⟨⟨hcreated.positions.apply run, ?_, ?_⟩, ?_⟩
    · simp
    · intro q hq
      simp only [AList.lookup_insert, Option.some.injEq] at hq
      subst hq
      refine ⟨(applyAmmOp_exist run).trans hexist, fun _ => .inr ?_⟩
      exact ⟨hseeded.live, hseeded.veld, hseeded.btcveld, hseeded.supply, hseeded.locked,
        hseeded.positions⟩
    · intro q hq hnot
      rw [h.created_eq hq, hq] at hp
      obtain rfl := Option.some.inj hp
      have hbefore := h.seeded hq hnot l
      exact ⟨t.pool, by simp, hseeded.isSeed_eq_false, hbefore.sameAnchor run⟩

theorem Tended.run (h : Tended poolId a) (hrun : PoolRun P C poolId a a') :
    Tended poolId a' ∧ ∀ p, a.pools.lookup poolId = some p → isSeed p = false →
      ∃ p', a'.pools.lookup poolId = some p' ∧ isSeed p' = false ∧ SameAnchor p p' := by
  induction hrun with
  | refl => exact ⟨h, fun p hp hseed => ⟨p, hp, hseed, .refl p⟩⟩
  | accepted _ hblock ih =>
    obtain ⟨hnext, hanchor⟩ := ih.1.ammBlock hblock
    refine ⟨hnext, fun p hp hseed => ?_⟩
    obtain ⟨q, hq, hqseed, hpq⟩ := ih.2 p hp hseed
    obtain ⟨r, hr, hrseed, hqr⟩ := hanchor q hq hqseed
    exact ⟨r, hr, hrseed, hpq.trans hqr⟩
  | refused _ hblock ih =>
    rw [processBlock_restores hblock]
    exact ih

theorem Tended.supply (h : Tended poolId a) (hp : a.pools.lookup poolId = some p) (l : Ledger) :
    p.lpSupply = p.lockedLp + Table.total id a.lp := by
  rcases (h.pool p hp).2 l with hf | hs
  · rw [show p = newPool poolId from hf.pool, show a.lp = ∅ from hf.lp]
    rfl
  · exact hs.supply

end

/-- Over every run of blocks from the empty ledger the LP supply is the lock plus the positions,
positions keep to their minimum and their number to its ceiling, and from a seeded pool on lock and
opening ratio stay, the supply never falls below the lock and both reserves stay positive. -/
theorem lp_supply_accounted {a : AmmLedger} (hrun : PoolRun P C poolId .empty a) :
    (∀ k v, a.lp.lookup k = some v → lpMinPosition ≤ v) ∧
    a.lp.entries.length ≤ ammMaxLpIdentities ∧
    (∀ p, a.pools.lookup poolId = some p → p.lpSupply = p.lockedLp + Table.total id a.lp) ∧
    (a.pools.lookup poolId = none → a.lp = ∅) ∧
    ∀ p, a.pools.lookup poolId = some p → isSeed p = false → ∀ a', PoolRun P C poolId a a' →
      ∃ p', a'.pools.lookup poolId = some p' ∧ isSeed p' = false ∧
        p'.lockedLp = p.lockedLp ∧ p'.anchorVeld = p.anchorVeld ∧
        p'.anchorBtcveld = p.anchorBtcveld ∧ minLiquidity ≤ p'.lockedLp ∧
        p'.lockedLp ≤ p'.lpSupply ∧ 0 < p'.reserveVeld ∧ 0 < p'.reserveBtcveld := by
  obtain ⟨htended, -⟩ := tended_empty.run hrun
  refine ⟨htended.positions.floor, htended.positions.count, fun p hp => ?_, htended.absent,
    fun p hp hseed a' hlater => ?_⟩
  · exact htended.supply hp (Ledger.empty P C.sha256)
  · obtain ⟨htended', hanchor⟩ := htended.run hlater
    obtain ⟨p', hp', hseed', hsame⟩ := hanchor p hp hseed
    have hs := htended'.seeded hp' hseed' (Ledger.empty P C.sha256)
    have htotal : 0 ≤ Table.total id a'.lp :=
      total_nonneg fun k v hv => (hs.positions k v hv).le
    have hsupply := htended'.supply hp' (Ledger.empty P C.sha256)
    exact ⟨p', hp', hseed', hsame.locked, hsame.veld, hsame.btcveld, hs.locked, by omega, hs.veld,
      hs.btcveld⟩

theorem lp_supply_accounted_seed :
    ∃ p, sampleSeeded.amm.pools.lookup (ascii "VELD:btcVELD") = some p ∧ p.lpSupply ≠ 0 ∧
      p.lpSupply = p.lockedLp + Table.total id sampleSeeded.amm.lp ∧ 0 < p.reserveVeld := by
  have hrun : PoolRun legacySample .blank (ascii "VELD:btcVELD") .empty sampleSeeded.amm :=
    .accepted (l := sampleFunded) .refl (eq_ok_of_succeeds (by decide +kernel))
  obtain ⟨-, -, hsupply, -, hseeded⟩ := lp_supply_accounted hrun
  have hlive : (sampleSeeded.amm.pools.lookup (ascii "VELD:btcVELD")).any
      (fun p => !isSeed p && p.lpSupply != 0) = true := by decide +kernel
  obtain ⟨p, hp, hfacts⟩ := (Option.any_eq_true _ _).mp hlive
  simp only [Bool.and_eq_true, Bool.not_eq_true', bne_iff_ne] at hfacts
  obtain ⟨p', hp', -, -, -, -, -, -, hveld, -⟩ := hseeded p hp hfacts.1 _ .refl
  cases hp.symm.trans hp'
  exact ⟨p, hp, hfacts.2, hsupply p hp, hveld⟩

end Veld.Amm
