import Veld.Consensus.SlashEvidence

/-!
# Terms of validators

An operation writes one record: a registration opens a term, every other operation ends one. The rest of a
block settles principals, counts votes and prunes, which opens no term and forgets no slashed key.
-/

namespace Veld.Validators

open Wire Finality Table Chain

variable {env : Env} {s s' : Registry}

/-- What an operation leaves: a record, and the slashed keys with at most that one more. -/
structure Writes (s s' : Registry) (key : Bytes) (r : ValidatorRecord) : Prop where
  written : s'.validators = s.validators.insert key r
  grows : s.slashedPubkeys ⊆ s'.slashedPubkeys
  added : s'.slashedPubkeys ⊆ key :: s.slashedPubkeys
  listed : r.slashed → key ∈ s'.slashedPubkeys ∨ ∃ v, s.validators.lookup key = some v ∧ v.slashed
  opened : r.active → key ∉ s'.slashedPubkeys ∧
    ∀ row ∈ s.validators.entries, row.2.active → row.2.address ≠ r.address

theorem Writes.trim {key : Bytes} {r : ValidatorRecord} (height : Nat) (h : Writes s s' key r) :
    Writes s (trimExpiredCooldowns height s') key r := by
  unfold trimExpiredCooldowns
  split <;> exact ⟨h.written, h.grows, h.added, h.listed, h.opened⟩

theorem Writes.slashed {key : Bytes} {r : ValidatorRecord} (hwritten : s'.validators = s.validators.insert key r)
    (hkeys : s'.slashedPubkeys = key :: s.slashedPubkeys) (hinactive : r.active = false) : Writes s s' key r := by
  refine ⟨hwritten, ?_, hkeys ▸ List.Subset.refl _, fun _ => .inl (hkeys ▸ List.mem_cons_self), fun hactive => ?_⟩
  · exact hkeys ▸ List.subset_cons_self ..
  · cases hinactive.symm.trans hactive

theorem processOp_writes {height : Nat} {tx : Transaction} {data : Bytes}
    (h : processOp env height tx data s = some s') : ∃ key r, Writes s s' key r := by
  simp only [processOp] at h
  split_ifs at h
  split at h
  · cases h
  split_ifs at h
  · simp only [register, bind_eq_some, Option.guard_eq_some', pure_eq_some] at h
    obtain ⟨-, ⟨-, hfree⟩, key, -, -, -, -, -, -, -, -, halone, rfl⟩ := h
    exact ⟨_, _, .trim height ⟨rfl, List.Subset.refl _, List.subset_cons_self ..,
      fun hslashed => absurd hslashed Bool.false_ne_true, fun _ => ⟨hfree, halone⟩⟩⟩
  · simp only [deregister, bind_eq_some, Option.guard_eq_some', pure_eq_some] at h
    obtain ⟨-, -, v, hv, -, -, rfl⟩ := h
    exact ⟨_, _, .trim height ⟨rfl, List.Subset.refl _, List.subset_cons_self ..,
      fun hslashed => .inr ⟨v, hv, hslashed⟩, fun hactive => absurd hactive Bool.false_ne_true⟩⟩
  · simp only [slashEquiv, bind_eq_some, Option.guard_eq_some', pure_eq_some, Prod.exists] at h
    obtain ⟨a, b, -, -, -, v, -, -, -, -, -, -, -, -, -, rfl⟩ := h
    exact ⟨_, _, .slashed rfl rfl rfl⟩
  · unfold slash at h
    split at h
    · simp only [bind_eq_some, Option.guard_eq_some', pure_eq_some] at h
      obtain ⟨_, -, -, -, -, -, _, -, _, -, -, -, v, -, -, -, -, -, rfl⟩ := h
      exact ⟨_, _, .slashed rfl rfl rfl⟩
    · cases h

/-! ## The rest of a block -/

/-- The bond of a record that falls due at a height, or fell due before the upgrade, is marked as paid. -/
def settle (env : Env) (height : Nat) (membership : Table Nat MembershipRecord) (v : ValidatorRecord) :
    ValidatorRecord :=
  let legacy := legacyPrincipalBoundary v
  let due := principalSettlementBoundary env.K membership v height
  if v.principalSettledAt ≠ 0 then v
  else if legacy ≠ 0 ∧ legacy < consensusSecurityUpgradeHeight then { v with principalSettledAt := legacy }
  else if due ≠ 0 ∧ due = height then { v with principalSettledAt := height }
  else v

/-- The loop of `ProcessBlockImpl` over the principals. -/
def settlePrincipals (env : Env) (height : Nat) (s : Registry) : Registry :=
  if consensusSecurityUpgradeActive height then
    { s with validators := mapRows (fun _ v => settle env height s.finalityMembership v) s.validators }
  else s

/-- The loop body of `RecordFinalityQc`. -/
def countVote (K : Context) (carrierHeight : Nat) (s : Registry) (e : SnapshotEntry) : Option Registry := do
  let v ← s.validators.lookup e.pubkeyHex
  guard (pubkeyCommit K e.pubkeyHex = e.pubkeyCommit)
  return { s with
    validators := s.validators.insert e.pubkeyHex
      { v with lastFinalityVoteHeight := max v.lastFinalityVoteHeight carrierHeight } }

def bondYieldVestBlocks : Nat := 90 * blocksPerDay

def shouldEvict (height : Nat) (s : Registry) (key : Bytes) (v : ValidatorRecord) : Bool :=
  let terminal := max v.deregisteredAtHeight v.slashedAtHeight
  let window := if v.bondCustodial then bondYieldVestBlocks + 2 * bondSettlementInterval else 10000
  !v.active && 0 < terminal && terminal < height - window && (s.bondYieldEscrow.lookup key).getD [] = [] &&
    !(consensusSecurityUpgradeActive height && v.bondCustodial && v.bondUnits ≠ 0 && !principalAlreadyPaid v height)

/-- `PruneInactiveValidatorsLocked`. -/
def pruneInactiveValidators (height : Nat) (s : Registry) : Registry :=
  { s with
    validators := keep (fun key v => !shouldEvict height s key v) s.validators
    lastOpHeight := keep (fun address last => height - validatorOpCooldownBlocks ≤ last &&
      s.validators.entries.all fun row => !(shouldEvict height s row.1 row.2 && row.2.address = address))
      s.lastOpHeight }

/-- Steps of a block; what they write beside the records and the evidence is left open. -/
inductive Step (env : Env) (s : Registry) : Registry → Prop
  | op (height : Nat) (tx : Transaction) (out : TxOutput) : Step env s (processOutput env height tx s out)
  | settled (height : Nat) : Step env s (settlePrincipals env height s)
  | counted {height : Nat} {e : SnapshotEntry} {next : Registry} (h : countVote env.K height s e = some next) :
    Step env s next
  | pruned (height : Nat) : Step env s (pruneInactiveValidators height s)
  | rest (escrow : Table Bytes (List BondYieldTranche)) (membership : Table Nat MembershipRecord)
    (totalStaked minStake : Nat) : Step env s { s with
      bondYieldEscrow := escrow, finalityMembership := membership
      totalStaked := totalStaked, minStakeOverride := minStake }

/-- Records go, or change in what no term depends on. -/
structure Maintains (s s' : Registry) : Prop where
  keys : s'.slashedPubkeys = s.slashedPubkeys
  records : ∀ key v', s'.validators.lookup key = some v' → ∃ v, s.validators.lookup key = some v ∧
    v'.active = v.active ∧ v'.slashed = v.slashed ∧ v'.address = v.address

theorem Maintains.refl (s : Registry) : Maintains s s := ⟨rfl, fun _ v hv => ⟨v, hv, rfl, rfl, rfl⟩⟩

theorem settlePrincipals_maintains (height : Nat) : Maintains s (settlePrincipals env height s) := by
  unfold settlePrincipals
  split_ifs
  · refine ⟨rfl, fun key v' hv' => ?_⟩
    rw [lookup_mapRows, Option.map_eq_some_iff] at hv'
    obtain ⟨v, hv, rfl⟩ := hv'
    refine ⟨v, hv, ?_⟩
    unfold settle
    dsimp only
    split_ifs <;> exact ⟨rfl, rfl, rfl⟩
  · exact .refl s

theorem Step.cases (h : Step env s s') : Maintains s s' ∨ ∃ key r, Writes s s' key r := by
  cases h with
  | op height tx out =>
    simp only [processOutput]
    split_ifs
    · cases hop : processOp env height tx (parseOpReturn out.scriptPubkey) s with
      | none => exact .inl (.refl s)
      | some next => exact .inr (processOp_writes hop)
    · exact .inl (.refl s)
  | settled height => exact .inl (settlePrincipals_maintains height)
  | counted hcount =>
    simp only [countVote, bind_eq_some, Option.guard_eq_some', pure_eq_some] at hcount
    obtain ⟨v, hv, -, -, rfl⟩ := hcount
    refine .inl ⟨rfl, fun key v' hv' => ?_⟩
    obtain ⟨rfl, rfl⟩ | ⟨-, hv'⟩ := lookup_insert_eq_some.mp hv'
    · exact ⟨v, hv, rfl, rfl, rfl⟩
    · exact (Maintains.refl s).records _ _ hv'
  | pruned => exact .inl ⟨rfl, fun key v hv => (Maintains.refl s).records _ _ (lookup_keep.mp hv).1⟩
  | rest => exact .inl ⟨rfl, (Maintains.refl s).records⟩

/-- Slashed keys are on the list, those on the list are inactive, and no address has two terms. -/
structure Orderly (s : Registry) : Prop where
  listed : ∀ {key v}, s.validators.lookup key = some v → v.slashed → key ∈ s.slashedPubkeys
  barred : ∀ {key v}, s.validators.lookup key = some v → key ∈ s.slashedPubkeys → v.active = false
  alone : ∀ {key v key' v'}, s.validators.lookup key = some v → s.validators.lookup key' = some v' →
    v.active → v'.active → v.address = v'.address → key = key'

theorem Maintains.orderly (h : Maintains s s') (hs : Orderly s) : Orderly s' where
  listed hv' hslashed := by
    obtain ⟨v, hv, -, hsame, -⟩ := h.records _ _ hv'
    exact h.keys ▸ hs.listed hv (hsame ▸ hslashed)
  barred hv' hmem := by
    obtain ⟨v, hv, hsame, -⟩ := h.records _ _ hv'
    exact hsame ▸ hs.barred hv (h.keys ▸ hmem)
  alone hv' hw' hactive hactive' haddress := by
    obtain ⟨v, hv, hsame, -, hsame'⟩ := h.records _ _ hv'
    obtain ⟨w, hw, hother, -, hother'⟩ := h.records _ _ hw'
    exact hs.alone hv hw (hsame ▸ hactive) (hother ▸ hactive') (by rw [← hsame', haddress, hother'])

theorem Writes.orderly {key : Bytes} {r : ValidatorRecord} (h : Writes s s' key r) (hs : Orderly s) :
    Orderly s' := by
  refine ⟨fun hv hslashed => ?_, fun hv hmem => ?_, fun hv hw hactive hactive' haddress => ?_⟩ <;>
    rw [h.written, lookup_insert_eq_some] at hv
  · obtain ⟨rfl, rfl⟩ | ⟨-, hv⟩ := hv
    · obtain hmem | ⟨v, hv, hbefore⟩ := h.listed hslashed
      · exact hmem
      · exact h.grows (hs.listed hv hbefore)
    · exact h.grows (hs.listed hv hslashed)
  · obtain ⟨rfl, rfl⟩ | ⟨hne, hv⟩ := hv
    · exact Bool.eq_false_iff.mpr fun hactive => (h.opened hactive).1 hmem
    · exact hs.barred hv ((List.mem_cons.mp (h.added hmem)).resolve_left hne)
  · rw [h.written, lookup_insert_eq_some] at hw
    obtain ⟨rfl, rfl⟩ | ⟨-, hv⟩ := hv <;> obtain ⟨rfl, rfl⟩ | ⟨-, hw⟩ := hw
    · rfl
    · exact absurd haddress.symm ((h.opened hactive).2 _ (mem_of_lookup hw) hactive')
    · exact absurd haddress ((h.opened hactive').2 _ (mem_of_lookup hv) hactive)
    · exact hs.alone hv hw hactive hactive' haddress

/-- Whatever order the steps of blocks come in, from the empty registry or from one that is in order: no
address gets two active validators, and a validator that was slashed is never active again. -/
theorem slashed_validator_never_returns (env : Env) (totalStaked minStake : Nat) :
    Orderly (.empty totalStaked minStake) ∧
    ∀ s s', Orderly s → Relation.ReflTransGen (Step env) s s' → Orderly s' ∧
      ∀ key v v', s.validators.lookup key = some v → v.slashed →
        s'.validators.lookup key = some v' → v'.active = false := by
  refine ⟨⟨fun h => (by cases h), fun h => (by cases h), fun h => (by cases h)⟩, fun s s' hs hrun => ?_⟩
  have hlater : Orderly s' ∧ ∀ key ∈ s.slashedPubkeys, key ∈ s'.slashedPubkeys := by
    induction hrun with
    | refl => exact ⟨hs, fun _ hkey => hkey⟩
    | tail _ hstep ih =>
      obtain hm | ⟨key, r, hw⟩ := hstep.cases
      · exact ⟨hm.orderly ih.1, fun k hk => hm.keys ▸ ih.2 k hk⟩
      · exact ⟨hw.orderly ih.1, fun k hk => hw.grows (ih.2 k hk)⟩
  exact ⟨hlater.1, fun key v v' hv hslashed hv' => hlater.1.barred hv' (hlater.2 key (hs.listed hv hslashed))⟩

def soloSlashed : Registry :=
  { soloRegistry with
    validators := (∅ : Table Bytes ValidatorRecord).insert soloKey (convict 2900 soloRecord)
    slashedPubkeys := [soloKey] }

theorem slashed_validator_never_returns_solo :
    Orderly (pruneInactiveValidators 3000 soloSlashed) ∧
      (pruneInactiveValidators 3000 soloSlashed).validators.lookup soloKey = some (convict 2900 soloRecord) ∧
      (convict 2900 soloRecord).active = false := by
  have hrecord : ∀ {key v}, soloSlashed.validators.lookup key = some v →
      key = soloKey ∧ v = convict 2900 soloRecord := by
    intro key v hv
    obtain hrow | ⟨-, hv⟩ := lookup_insert_eq_some.mp hv
    · exact hrow
    · cases hv
  have hs : Orderly soloSlashed := by
    refine ⟨fun hv _ => ?_, fun hv _ => ?_, fun hv hw _ _ _ => (hrecord hv).1.trans (hrecord hw).1.symm⟩
    · exact (hrecord hv).1 ▸ List.mem_cons_self
    · exact (hrecord hv).2 ▸ rfl
  have hlookup : soloSlashed.validators.lookup soloKey = some (convict 2900 soloRecord) := AList.lookup_insert _
  have hkept : (pruneInactiveValidators 3000 soloSlashed).validators.lookup soloKey =
      some (convict 2900 soloRecord) := lookup_keep.mpr ⟨hlookup, by decide +kernel⟩
  obtain ⟨horderly, hnever⟩ := (slashed_validator_never_returns soloEnv 0 0).2 _ _ hs
    (.single (.pruned 3000))
  exact ⟨horderly, hkept, hnever soloKey _ _ hlookup rfl hkept⟩

end Veld.Validators
