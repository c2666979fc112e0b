import Veld.Amm.Custody

/-!
# The peg stays solvent

Blocks, compensations, payouts proven on Bitcoin, freezes and the AMM all write to the token ledger. In
the books each of them moves the supply as it moves the balances, and leaves a reserve that covers it.
-/

namespace Veld

open Wire hiding bind_eq_ok
open Program

namespace Books

/-- The supply is what the accounts hold, no account is below the floor, and the reserve covers it. -/
structure Solvent (rolling : Bool) (b : Books) : Prop where
  sole : b.SoleToken
  backed : Table.total id b.balances = b.supplyOf btcveldTokenId
  floor : ∀ key v, b.balances.lookup key = some v → minAccountSats ≤ v
  covered : rolling → Covered b.reserve (b.supplyOf btcveldTokenId)

variable {b b' : Books} {rolling : Bool} {amount : Int}

theorem total_setBalance (b : Books) (tokenId address : Bytes) (v : Int) :
    Table.total id (b.setBalance tokenId address v).balances =
      Table.total id b.balances - b.balance tokenId address + v := by
  have herase := Table.total_erase (f := id) (balanceKey tokenId address) b.balances
  have hinsert := Table.total_insert (f := id) (balanceKey tokenId address) v b.balances
  simp only [Option.map_id, id] at herase hinsert
  unfold setBalance balance
  split <;> simp only <;> omega

theorem floor_setBalance {tokenId address : Bytes} {v : Int}
    (h : ∀ key w, b.balances.lookup key = some w → minAccountSats ≤ w) (hv : balanceAdmissible v) :
    ∀ key w, (b.setBalance tokenId address v).balances.lookup key = some w → minAccountSats ≤ w := by
  unfold setBalance
  split_ifs with h0
  · exact fun key w hw => h key w (Table.lookup_erase_eq_some.mp hw).2
  · exact Table.forall_insert h (hv.resolve_left h0)

theorem supplyOf_credit (b : Books) (tokenId address : Bytes) (amount : Int) :
    (b.credit tokenId address amount).supplyOf tokenId = b.supplyOf tokenId + amount := by
  simp [credit, setSupply, supplyOf]

theorem Solvent.credit {address : Bytes} {r : Reserve.State} (h : b.Solvent rolling)
    (hv : balanceAdmissible (b.balance btcveldTokenId address + amount))
    (hr : rolling → Covered r (b.supplyOf btcveldTokenId + amount)) :
    { b.credit btcveldTokenId address amount with reserve := r }.Solvent rolling := by
  rw [← supplyOf_credit b _ address] at hr
  refine ⟨h.sole, ?_, floor_setBalance h.floor hv, hr⟩
  change Table.total id (b.setBalance _ _ _).balances = (b.credit _ _ _).supplyOf _
  rw [total_setBalance, supplyOf_credit, h.backed]
  omega

theorem Solvent.transfer {source dest : Bytes} (h : b.Solvent rolling) (hne : source ≠ dest)
    (hs : balanceAdmissible (b.balance btcveldTokenId source - amount))
    (hd : balanceAdmissible (b.balance btcveldTokenId dest + amount)) :
    (b.transfer btcveldTokenId source dest amount).Solvent rolling := by
  refine ⟨h.sole, Eq.trans ?_ h.backed, floor_setBalance (floor_setBalance h.floor hs) hd, h.covered⟩
  rw [Books.transfer, total_setBalance, total_setBalance, balance_setBalance, if_neg hne.symm]
  omega

theorem MarkerStep.solvent {S : Scope} (h : MarkerStep S b b') (hb : b.Solvent S.rolling) :
    b'.Solvent S.rolling := by
  cases h with
  | idle => exact hb
  | transfer registered _ _ ne _ gives receives =>
    cases hb.sole _ registered
    exact hb.transfer ne gives.floor (.inr receives.floor)
  | @redeem record r h =>
    have ht := hb.sole _ h.registered
    have hgives := h.gives.floor
    have hreserve := fun hroll => (h.reserve hroll ht).2.2
    rw [ht, sub_eq_add_neg] at hgives hreserve
    have hnext := hb.credit hgives hreserve
    rw [← ht] at hnext
    exact ⟨hnext.sole, hnext.backed, hnext.floor, hnext.covered⟩
  | mint legacy registered _ _ receives =>
    cases hb.sole _ registered
    exact hb.credit (.inr receives.floor) fun hroll => absurd hroll (by simp [legacy])
  | @transit recipient amount ps r h =>
    unfold transited
    split
    · rename_i h0
      have hcovered := h.covered
      rw [h0, Nat.cast_zero, add_zero] at hcovered
      exact ⟨hb.sole, hb.backed, hb.floor, fun _ => hcovered⟩
    · rename_i h0
      have hnext := hb.credit (.inr (h.credit h0).2.floor) fun _ => h.covered
      exact ⟨hnext.sole, hnext.backed, hnext.floor, hnext.covered⟩

theorem SameAmounts.covered {r r' : Reserve.State} {supply : Int} (h : SameAmounts r r')
    (hr : Covered r supply) : Covered r' supply := by
  unfold Covered at hr ⊢
  rw [h.value, h.principal, h.surplus]
  exact hr

end Books

/-- `FreezeBtcVeldReserve`: a spend nobody authorised stops the reserve. -/
def freezeBtcVeldReserve (P : Profile) (C : Crypto) (unauthorizedSpendTxid bitcoinBlock : Hash256) :
    LedgerM Unit := do
  let l ← get
  let supply := l.supplyOf btcveldTokenId
  check (P.transitionV1Required ∧ l.lastBlockReserveEdges = 0 ∧ 0 ≤ supply) Stop.reject
  let next ← require (Reserve.applyFreeze P C.sha256 l.reserveState unauthorizedSpendTxid bitcoinBlock) Stop.reject
  check (next.accountingHolds supply.toNat = true) Stop.reject
  set { l with reserveState := next, lastBlockReserveEdges := 1 }

/-- What writes to the token ledger, the AMM apart. -/
inductive TokenWrite (P : Profile) (C : Crypto) (l l' : Ledger) : Prop
  | block (V : View) (gate : PegGate) (b : Block) (h : processBlock P C V gate b l = .ok () l')
  | compensation (recipient : Bytes) (amount : Nat) (h : compensateMint P C recipient amount l = .ok () l')
  | payout (V : View) (spend : ProvenSpend) (p : ReservePayout)
      (h : applyFsp2AuthorizedReservePayout P C V spend l = .ok p l')
  | freeze (txid bitcoinBlock : Hash256) (h : freezeBtcVeldReserve P C txid bitcoinBlock l = .ok () l')

variable {P : Profile} {C : Crypto} {l l' : Ledger} {poolId : Bytes}

theorem TokenWrite.solvent (h : TokenWrite P C l l') (hl : l.books.Solvent P.transitionV1Required) :
    l'.books.Solvent P.transitionV1Required := by
  cases h with
  | block V gate block h =>
    obtain ⟨b₀, b₁, hb⟩ := processBlock_books hl.sole h
    have hopen : b₀.Solvent P.transitionV1Required := by
      rw [hb.opened]
      exact ⟨hl.sole.opened _, hl.backed, hl.floor, fun hroll => hb.kept.covered (hl.covered hroll)⟩
    have hrun := hb.run.invariant (I := Books.Solvent P.transitionV1Required) (fun _ _ _ hstep => hstep.solvent) hopen
    rw [hb.closed]
    exact ⟨hrun.sole, hrun.backed, hrun.floor, fun hroll => hb.closing.covered (hrun.covered hroll)⟩
  | compensation recipient amount h =>
    have hc := compensateMint_books h
    rw [hc.written]
    exact hl.credit (.inr hc.receives.floor) fun hroll => (hc.reserve hroll).2.2.covered
  | payout V spend p h =>
    simp only [applyFsp2AuthorizedReservePayout, get_bind_eq_ok, check_bind_eq_ok, require_bind_eq_ok,
      set_bind_eq_ok, pure_eq_ok] at h
    obtain ⟨_, -, ⟨-, -, -, -, -, hsupply⟩, _, -, -, -, v, -, -, next, hnext, -, rfl⟩ := h
    have hholds := (Reserve.applyAuthorized_eq_some hnext).holds
    exact ⟨hl.sole, hl.backed, hl.floor, fun _ => Books.Held.covered ⟨hsupply, hholds⟩⟩
  | freeze txid bitcoinBlock h =>
    simp only [freezeBtcVeldReserve, get_bind_eq_ok, check_bind_eq_ok, require_bind_eq_ok, set_eq_ok] at h
    obtain ⟨⟨-, -, hsupply⟩, next, -, hholds, rfl⟩ := h
    exact ⟨hl.sole, hl.backed, hl.floor, fun _ => Books.Held.covered ⟨hsupply, hholds⟩⟩

namespace Amm

theorem solvent_applyAmmOp {op : AmmOp} {tx : Transaction} {height : Nat} {s t : OpState}
    (hs : s.tokens.books.Solvent P.transitionV1Required)
    (h : applyAmmOp P C poolId op tx false height s = .ok () t) :
    t.tokens.books.Solvent P.transitionV1Required := by
  obtain ⟨-, o, ho, rfl⟩ := applyAmmOp_live.mp h
  obtain ⟨hcan, hnonneg, -⟩ := ho.leg
  change (s.tokens.transfer _ _ _ _).books.Solvent _
  rw [Ledger.transfer]
  split_ifs with hidle
  · exact hs
  · rw [not_or] at hidle
    have hmove := hcan (by omega)
    obtain ⟨hsource, hdest⟩ := canAmmMove_admissible hmove hidle.2
    have hne : s.tokens.balance btcveldTokenId o.dest + o.amount ≠ 0 := by
      simp only [canAmmMove, Bool.and_eq_true, Bool.or_eq_true, beq_iff_eq, decide_eq_true_eq] at hmove
      have := (hmove.2.resolve_left hidle.2).1.1.1
      omega
    rw [Ledger.books_putBalance _ _ _ hne]
    exact hs.transfer hidle.2 hsource hdest

/-- The ledgers that writes of all kinds lead to, in any order. -/
inductive Reached (P : Profile) (C : Crypto) (poolId : Bytes) : AmmState → Prop
  | empty : Reached P C poolId ⟨.empty, Ledger.empty P C.sha256⟩
  | tokens {s : AmmState} {l : Ledger} (before : Reached P C poolId s) (h : TokenWrite P C s.tokens l) :
      Reached P C poolId { s with tokens := l }
  | amm {s s' : AmmState} {gate : PegGate} {block : Block} (before : Reached P C poolId s)
      (h : processBlock P C poolId block gate s = .ok () s') : Reached P C poolId s'

/-- However blocks, compensations, proven payouts, freezes and AMM blocks follow each other from the empty
ledgers: the btcVELD supply is the sum of the balances, no account is below the floor, and a rolling
reserve is worth the supply, the open redemptions and the surplus. -/
theorem peg_stays_solvent {s : AmmState} (h : Reached P C poolId s) :
    Table.total id s.tokens.balances = s.tokens.supplyOf btcveldTokenId ∧
    (∀ key v, s.tokens.balances.lookup key = some v → minAccountSats ≤ v) ∧
    (P.transitionV1Required → (s.tokens.reserveState.reserveValueSats : Int) =
      s.tokens.supplyOf btcveldTokenId + s.tokens.reserveState.openRedemptionPrincipal +
        s.tokens.reserveState.surplusSats) := by
  have hsolvent : s.tokens.books.Solvent P.transitionV1Required := by
    induction h with
    | empty => exact ⟨fun t ht => absurd rfl ht, rfl, fun _ _ hv => (by cases hv), fun _ => rfl⟩
    | tokens _ h ih => exact h.solvent ih
    | amm _ hblock ih =>
      cases processBlock_effect hblock with
      | idle | dormant => exact ih
      | operation _ _ run => exact solvent_applyAmmOp ih run
  exact ⟨hsolvent.backed, hsolvent.floor, hsolvent.covered⟩

theorem peg_stays_solvent_seeded :
    Table.total id sampleSeeded.tokens.balances = 200000 ∧
      Table.total id sampleSeeded.tokens.balances = sampleSeeded.tokens.supplyOf btcveldTokenId := by
  have hseeded : Reached legacySample .blank (ascii "VELD:btcVELD") sampleSeeded :=
    .amm (.tokens (.tokens .empty (.block _ _ _ (eq_ok_of_succeeds (by decide +kernel))))
      (.compensation _ _ (eq_ok_of_succeeds (by decide +kernel)))) (eq_ok_of_succeeds (by decide +kernel))
  exact ⟨by decide +kernel, (peg_stays_solvent hseeded).1⟩

end Amm

end Veld
