import Veld.Token.Block

/-!
# The books of the peg

What the token ledger is for, without its markers, memos and commitments: accounts, supplies, the reserve
record, and what the current block has redeemed and paid out.
-/

namespace Veld

open Wire

structure Books where
  tokens : Table Bytes Bytes
  balances : Table Bytes Int
  supply : Table Bytes Int
  reserve : Reserve.State
  redeems : List TokenTransferRecord
  payouts : List ReservePayout

def Ledger.books (l : Ledger) : Books :=
  ⟨l.tokens, l.balances, l.supply, l.reserveState, l.lastBlockRedeems, l.lastBlockReservePayouts⟩

namespace Books

variable (b : Books)

def balance (tokenId address : Bytes) : Int :=
  (b.balances.lookup (balanceKey tokenId address)).getD 0

def supplyOf (tokenId : Bytes) : Int := (b.supply.lookup tokenId).getD 0

/-- Writes a balance; nothing is kept for an empty account. -/
def setBalance (tokenId address : Bytes) (v : Int) : Books :=
  { b with balances := if v = 0 then b.balances.erase (balanceKey tokenId address)
                       else b.balances.insert (balanceKey tokenId address) v }

def setSupply (tokenId : Bytes) (v : Int) : Books := { b with supply := b.supply.insert tokenId v }

/-- From one account to another. -/
def transfer (tokenId source dest : Bytes) (amount : Int) : Books :=
  (b.setBalance tokenId source (b.balance tokenId source - amount)).setBalance tokenId dest
    (b.balance tokenId dest + amount)

/-- Into an account and into the supply; a negative amount is a burn. -/
def credit (tokenId address : Bytes) (amount : Int) : Books :=
  (b.setBalance tokenId address (b.balance tokenId address + amount)).setSupply tokenId
    (b.supplyOf tokenId + amount)

/-! ## Steps -/

/-- What a marker may refer to: the accounts it can name, its transaction and height. -/
structure Scope where
  rolling : Bool
  account : Bytes → Prop
  txid : Bytes
  height : Nat

/-- The reserve is worth what circulates, what is being redeemed and the surplus. -/
def Covered (r : Reserve.State) (supply : Int) : Prop :=
  (r.reserveValueSats : Int) = supply + r.openRedemptionPrincipal + r.surplusSats

/-- The accounting test of the reserve record, which every block and every mutator ends with. -/
structure Held (r : Reserve.State) (supply : Int) : Prop where
  nonneg : 0 ≤ supply
  holds : r.accountingHolds supply.toNat = true

theorem Held.covered {r : Reserve.State} {supply : Int} (h : Held r supply) : Covered r supply := by
  have := Reserve.State.reserveValue_of_accountingHolds h.holds
  have := h.nonneg
  unfold Covered
  omega

variable {b}

/-- Money may go to an account: it is not overdrawn, and it reaches the floor. -/
structure Receives (b : Books) (tokenId address : Bytes) (amount : Int) : Prop where
  nonneg : 0 ≤ b.balance tokenId address
  floor : minAccountSats ≤ b.balance tokenId address + amount

/-- Money may leave an account: it has it, and keeps nothing or the floor. -/
structure Gives (b : Books) (tokenId address : Bytes) (amount : Int) : Prop where
  enough : amount ≤ b.balance tokenId address
  floor : balanceAdmissible (b.balance tokenId address - amount)

/-- A redeem: out of an account and of the supply, into the open redemptions. -/
structure Redeems (S : Scope) (b : Books) (record : TokenTransferRecord) (r : Reserve.State) :
    Prop where
  registered : b.tokens.lookup record.tokenId ≠ none
  account : S.account record.fromAddr
  pos : 0 < record.amount
  gives : Gives b record.tokenId record.fromAddr record.amount
  txid : record.txid = S.txid
  height : record.blockHeight = S.height
  reserve : S.rolling → record.tokenId = btcveldTokenId →
    (r.openRedemptionPrincipal : Int) = b.reserve.openRedemptionPrincipal + record.amount ∧
    r.reserveValueSats = b.reserve.reserveValueSats ∧
    Covered r (b.supplyOf record.tokenId - record.amount)
  legacy : S.rolling = false → r = b.reserve

/-- A reserve transition: maybe a credit, maybe a payout, and the next reserve record. -/
structure Transits (S : Scope) (b : Books) (recipient : Bytes) (amount : Nat)
    (ps : List ReservePayout) (r : Reserve.State) : Prop where
  rolling : S.rolling = true
  registered : b.tokens.lookup btcveldTokenId ≠ none
  credit : amount ≠ 0 → S.account recipient ∧ Receives b btcveldTokenId recipient amount
  principal : r.openRedemptionPrincipal + (ps.map (·.principalSats)).sum =
    b.reserve.openRedemptionPrincipal
  value : r.reserveValueSats ≤ max spvMaxCustodySats b.reserve.reserveValueSats
  covered : Covered r (b.supplyOf btcveldTokenId + amount)

def redeemed (b : Books) (record : TokenTransferRecord) (r : Reserve.State) : Books :=
  { b.credit record.tokenId record.fromAddr (-record.amount) with
    reserve := r, redeems := b.redeems ++ [record] }

/-- The books after a reserve transition. -/
def transited (b : Books) (recipient : Bytes) (amount : Nat) (ps : List ReservePayout)
    (r : Reserve.State) : Books :=
  { (if amount = 0 then b else b.credit btcveldTokenId recipient amount) with
    reserve := r, payouts := b.payouts ++ ps }

/-- What a marker can do to the books. -/
inductive MarkerStep (S : Scope) (b : Books) : Books → Prop
  | idle : MarkerStep S b b
  | transfer {tokenId source dest : Bytes} {amount : Int}
      (registered : b.tokens.lookup tokenId ≠ none) (hs : S.account source) (hd : S.account dest)
      (ne : source ≠ dest) (pos : 0 < amount) (gives : Gives b tokenId source amount)
      (receives : Receives b tokenId dest amount) :
      MarkerStep S b (b.transfer tokenId source dest amount)
  | redeem {record : TokenTransferRecord} {r : Reserve.State} (h : Redeems S b record r) :
      MarkerStep S b (b.redeemed record r)
  | mint {tokenId address : Bytes} {amount : Int} (legacy : S.rolling = false)
      (registered : b.tokens.lookup tokenId ≠ none) (account : S.account address) (pos : 0 < amount)
      (receives : Receives b tokenId address amount) :
      MarkerStep S b (b.credit tokenId address amount)
  | transit {recipient : Bytes} {amount : Nat} {ps : List ReservePayout} {r : Reserve.State}
      (h : Transits S b recipient amount ps r) : MarkerStep S b (b.transited recipient amount ps r)

inductive MarkerRun {ι : Type} (scope : ι → Scope) : Books → List ι → Books → Prop
  | nil {b : Books} : MarkerRun scope b [] b
  | cons {b b₁ b' : Books} {i : ι} {is : List ι} (step : MarkerStep (scope i) b b₁)
      (rest : MarkerRun scope b₁ is b') : MarkerRun scope b (i :: is) b'

theorem MarkerRun.invariant {ι : Type} {scope : ι → Scope} {I : Books → Prop}
    (hstep : ∀ i b b', MarkerStep (scope i) b b' → I b → I b') {b b' : Books} {is : List ι}
    (h : MarkerRun scope b is b') (hb : I b) : I b' := by
  induction h with
  | nil => exact hb
  | cons step _ ih => exact ih (hstep _ _ _ step hb)

def opened (P : Profile) (b : Books) (r : Reserve.State) : Books :=
  { b with
    tokens := if P.issuerAddress = [] ∨ b.tokens.lookup btcveldTokenId ≠ none then b.tokens
              else b.tokens.insert btcveldTokenId P.issuerAddress
    reserve := r
    redeems := []
    payouts := [] }

structure SameAmounts (r r' : Reserve.State) : Prop where
  value : r'.reserveValueSats = r.reserveValueSats
  principal : r'.openRedemptionPrincipal = r.openRedemptionPrincipal
  surplus : r'.surplusSats = r.surplusSats

theorem SameAmounts.refl (r : Reserve.State) : SameAmounts r r := ⟨rfl, rfl, rfl⟩

/-! ## Accounts -/

theorem balance_setBalance (b : Books) (tokenId address : Bytes) (v : Int) (other : Bytes) :
    (b.setBalance tokenId address v).balance tokenId other =
      if other = address then v else b.balance tokenId other := by
  by_cases hv : v = 0
  · simp only [balance, setBalance, hv, if_true, Table.lookup_erase_ite, balanceKey_inj]
    split <;> rfl
  · simp only [balance, setBalance, hv, if_false, Table.lookup_insert_ite, balanceKey_inj]
    split <;> rfl

theorem balance_transfer (b : Books) {tokenId source dest : Bytes} (amount : Int)
    (hne : source ≠ dest) (address : Bytes) :
    (b.transfer tokenId source dest amount).balance tokenId address =
      b.balance tokenId address + (if address = dest then amount else 0) -
        if address = source then amount else 0 := by
  rw [transfer, balance_setBalance, balance_setBalance]
  by_cases hd : address = dest
  · subst hd
    simp [hne.symm]
  · by_cases hs : address = source
    · subst hs
      simp [hd]
    · simp [hd, hs]

theorem balance_credit (b : Books) (tokenId address : Bytes) (amount : Int) (other : Bytes) :
    (b.credit tokenId address amount).balance tokenId other =
      b.balance tokenId other + if other = address then amount else 0 := by
  change (b.setBalance tokenId address _).balance tokenId other = _
  rw [balance_setBalance]
  split
  · rename_i h
    rw [h]
  · simp

def SoleToken (b : Books) : Prop := ∀ t, b.tokens.lookup t ≠ none → t = btcveldTokenId

theorem SoleToken.opened {P : Profile} {b : Books} (h : b.SoleToken) (r : Reserve.State) :
    (b.opened P r).SoleToken := by
  intro t ht
  simp only [Books.opened] at ht
  split at ht
  · exact h t ht
  · rw [Table.lookup_insert_ite] at ht
    split at ht
    · assumption
    · exact h t ht

theorem MarkerStep.tokens {S : Scope} {b b' : Books} (h : MarkerStep S b b') :
    b'.tokens = b.tokens := by
  cases h with
  | transit h =>
    unfold transited
    split <;> rfl
  | _ => rfl

theorem MarkerStep.balance_eq {S : Scope} {b b' : Books} (h : MarkerStep S b b')
    (hsole : b.SoleToken) {address : Bytes} (hout : ¬ S.account address) :
    b'.balance btcveldTokenId address = b.balance btcveldTokenId address := by
  have ne : ∀ {a}, S.account a → address ≠ a := fun ha he => hout (he ▸ ha)
  cases h with
  | idle => rfl
  | transfer registered hs hd hne =>
    cases hsole _ registered
    rw [balance_transfer b _ hne]
    simp [ne hs, ne hd]
  | redeem h =>
    have ht := hsole _ h.registered
    change (b.credit _ _ _).balance _ _ = _
    rw [ht, balance_credit]
    simp [ne h.account]
  | mint legacy registered account =>
    cases hsole _ registered
    rw [balance_credit]
    simp [ne account]
  | @transit recipient amount ps r h =>
    unfold transited
    split
    · rfl
    · rename_i hm
      change (b.credit _ _ _).balance _ _ = _
      rw [balance_credit]
      simp [ne (h.credit hm).1]

end Books

end Veld
