import Veld.Consensus.Staking
import Veld.Core.CoinWalk

/-!
# Stakes are backed by outputs

With outpoint backing active, every stake record keeps an unspent output of its own.
-/

namespace Veld.Staking

open Wire Chain List

/-! ## Records -/

section
variable {env : Env} {height : Nat} {tx : Transaction}

theorem consume_zero (records : List StakeRecord) : consume env height tx records 0 = (records, []) := by
  induction records with
  | nil => rfl
  | cons r rest ih =>
    rw [consume, ih]
    split
    · rfl
    · rfl

variable {r : StakeRecord}

theorem consume_skip (rest : List StakeRecord) (remaining : Nat) (h : matured env height r = false) :
    consume env height tx (r :: rest) remaining =
      (r :: (consume env height tx rest remaining).1, (consume env height tx rest remaining).2) := by
  rw [consume, if_pos (by rw [h]; rfl)]

variable {remaining : Nat}

theorem consume_whole (tx : Transaction) (rest : List StakeRecord) (h : matured env height r)
    (hpos : 0 < remaining) (hle : r.amountUnits ≤ remaining) :
    consume env height tx (r :: rest) remaining =
      ({ r with active := false } :: (consume env height tx rest (remaining - r.amountUnits)).1,
        r.amountUnits :: (consume env height tx rest (remaining - r.amountUnits)).2) := by
  rw [consume, if_neg (by rw [h]; decide), if_neg hpos.ne', if_pos hle]

theorem consume_part (tx : Transaction) (rest : List StakeRecord) (h : matured env height r)
    (hpos : 0 < remaining) (hlt : remaining < r.amountUnits) :
    consume env height tx (r :: rest) remaining =
      (rebind env height tx r (r.amountUnits - remaining) :: rest, [remaining]) := by
  rw [consume, if_neg (by rw [h]; decide), if_neg hpos.ne', if_neg (by omega), consume_zero]

/-- What is left of the last record that an unlock reaches. -/
def rebound (env : Env) (height : Nat) (tx : Transaction) (last : StakeRecord) (residual : Nat) : List StakeRecord :=
  if residual = 0 then [] else [rebind env height tx last residual]

theorem mem_rebound {tx : Transaction} {last : StakeRecord} {residual : Nat}
    (h : r ∈ rebound env height tx last residual) : residual ≠ 0 ∧ r = rebind env height tx last residual := by
  unfold rebound at h
  split_ifs at h with hzero
  · cases h
  · exact ⟨hzero, mem_singleton.mp h⟩

/-- The records of an address, split by an unlock: those that leave whole, the last one that is reached,
and the others. -/
structure Split (env : Env) (height : Nat) (tx : Transaction) (records : List StakeRecord) (remaining residual : Nat)
    (full : List StakeRecord) (last : StakeRecord) (others : List StakeRecord) : Prop where
  perm : records.Perm (full ++ last :: others)
  kept : ((consume env height tx records remaining).1.filter StakeRecord.active).Perm
    (rebound env height tx last residual ++ others)
  units : (full.map StakeRecord.amountUnits).sum + last.amountUnits = remaining + residual
  exits : (consume env height tx records remaining).2.sum = remaining

theorem split_last {rest : List StakeRecord} (hactive : ∀ r' ∈ r :: rest, r'.active)
    (hmature : matured env height r) (hpos : 0 < remaining)
    (hlast : remaining ≤ r.amountUnits) :
    Split env height tx (r :: rest) remaining (r.amountUnits - remaining) [] r rest := by
  have hrest : rest.filter StakeRecord.active = rest :=
    filter_eq_self.mpr fun r' h => hactive r' (mem_cons_of_mem _ h)
  obtain heq | hlt := hlast.eq_or_lt
  · have hwhole := consume_whole tx rest hmature hpos heq.ge
    have hzero : r.amountUnits - remaining = 0 := by omega
    have hnone : remaining - r.amountUnits = 0 := by omega
    rw [hnone, consume_zero] at hwhole
    refine ⟨.refl _, ?_, ?_, ?_⟩
    · rw [hwhole, rebound, if_pos hzero, filter_cons_of_neg Bool.false_ne_true, hrest]
      exact .refl _
    · rw [map_nil, sum_nil]
      omega
    · rw [hwhole, sum_singleton, heq]
  · have hpart := consume_part tx rest hmature hpos hlt
    have hkept : (rebind env height tx r (r.amountUnits - remaining)).active :=
      hactive r mem_cons_self
    refine ⟨.refl _, ?_, ?_, ?_⟩
    · rw [hpart, rebound, if_neg (by omega), filter_cons_of_pos hkept, hrest]
      exact .refl _
    · rw [map_nil, sum_nil]
      omega
    · rw [hpart, sum_singleton]

theorem split_of_plan (tx : Transaction) {records : List StakeRecord} {plan : UnlockPlan}
    (hactive : ∀ r ∈ records, r.active) (hplan : plan.valid = false) (hpos : 0 < remaining)
    (hvalid : (planUnlockFrom env height records remaining plan).valid) :
    ∃ full last others,
      (planUnlockFrom env height records remaining plan).consumed = plan.consumed ++ (full ++ [last]) ∧
      Split env height tx records remaining (planUnlockFrom env height records remaining plan).residualUnits
        full last others := by
  induction records generalizing remaining plan with
  | nil => rw [planUnlockFrom, hplan] at hvalid; cases hvalid
  | cons r rest ih =>
    have hr : r.active := hactive r mem_cons_self
    have hrest : ∀ r ∈ rest, r.active = true := fun r h => hactive r (mem_cons_of_mem _ h)
    rw [planUnlockFrom] at hvalid ⊢
    cases hmature : matured env height r with
    | false =>
      simp only [hmature, Bool.not_false, if_true] at hvalid ⊢
      obtain ⟨full, last, others, hconsumed, hsplit⟩ := ih hrest hplan hpos hvalid
      refine ⟨full, last, r :: others, hconsumed, ?_, ?_, hsplit.units, ?_⟩
      · refine (hsplit.perm.cons r).trans (perm_middle.symm.trans ?_)
        exact List.Perm.append_left full (List.Perm.swap ..)
      · rw [consume_skip rest remaining hmature, filter_cons_of_pos hr]
        exact (hsplit.kept.cons r).trans perm_middle.symm
      · rw [consume_skip rest remaining hmature]
        exact hsplit.exits
    | true =>
      simp only [hmature, Bool.not_true, Bool.false_eq_true, if_false] at hvalid ⊢
      by_cases hfull : uint64Max - r.amountUnits < plan.backingInputUnits
      · rw [if_pos hfull] at hvalid
        cases hvalid
      rw [if_neg hfull] at hvalid ⊢
      by_cases hlast : remaining ≤ r.amountUnits
      · rw [if_pos hlast]
        exact ⟨[], r, rest, rfl, split_last hactive hmature hpos hlast⟩
      · rw [if_neg hlast] at hvalid ⊢
        have hle : r.amountUnits ≤ remaining := by omega
        have hless : 0 < remaining - r.amountUnits := by omega
        have hnext : (⟨plan.consumed ++ [r], plan.backingInputUnits + r.amountUnits, plan.residualUnits,
          plan.valid⟩ : UnlockPlan).valid = false := hplan
        obtain ⟨full, last, others, hconsumed, hsplit⟩ := ih hrest hnext hless hvalid
        have hunits := hsplit.units
        have hexits := hsplit.exits
        refine ⟨r :: full, last, others, by rw [hconsumed]; simp, hsplit.perm.cons r, ?_, ?_, ?_⟩
        · rw [consume_whole tx rest hmature hpos hle, filter_cons_of_neg Bool.false_ne_true]
          exact hsplit.kept
        · rw [map_cons, sum_cons]
          omega
        · rw [consume_whole tx rest hmature hpos hle, sum_cons]
          omega

end

/-! ## Backed ledgers -/

structure Backs (env : Env) (coins : Coins) (r : StakeRecord) : Prop where
  active : r.active = true
  vout : r.backingVout = 0
  pos : 0 < r.amountUnits
  output : ∃ u, coins.entries.lookup r.backing = some u ∧ u.value.toNat = r.amountUnits ∧
    u.scriptPubkey = ownerScript env r.address

/-- Every record has an unspent output of its own, the total is their sum, and the stakers fit into one
vault distribution. -/
structure Backed (env : Env) (coins : Coins) (s : StakingLedger) : Prop where
  owned : ∀ row ∈ s.stakes.entries, row.2 ≠ [] ∧ ∀ r ∈ row.2, r.address = row.1
  backs : ∀ r ∈ s.records, Backs env coins r
  distinct : (s.records.map StakeRecord.backing).Nodup
  total : s.totalStake = (s.records.map StakeRecord.amountUnits).sum
  ceiling : s.stakes.entries.length ≤ maxVaultPayoutStakers

theorem Backed.empty (env : Env) (coins : Coins) : Backed env coins StakingLedger.empty :=
  ⟨forall_mem_nil _, forall_mem_nil _, nodup_nil, rfl, Nat.zero_le _⟩

def otherRecords (address : Bytes) (s : StakingLedger) : List StakeRecord :=
  (s.stakes.erase address).entries.flatMap Sigma.snd

section
variable {env : Env} {coins coins' : Coins} {s : StakingLedger} {address : Bytes}

theorem records_perm (address : Bytes) (s : StakingLedger) :
    s.records.Perm ((s.stakes.lookup address).getD [] ++ otherRecords address s) := by
  cases h : s.stakes.lookup address with
  | none =>
    have herase : (s.stakes.erase address).entries = s.stakes.entries :=
      kerase_of_notMem_keys (AList.lookup_eq_none.mp h)
    rw [otherRecords, herase]
    exact .refl _
  | some records =>
    exact (Table.perm_cons_erase h).flatMap_right Sigma.snd

theorem backed_of_vout {r : StakeRecord} (hactive : r.active) (hvout : r.backingVout = 0) :
    recordEconomicallyBacked env r := by
  simp [recordEconomicallyBacked, hactive, hvout, noVout]

theorem Backed.activeBackings (h : Backed env coins s) :
    activeBackings env s = s.records.map StakeRecord.backing := by
  rw [Staking.activeBackings, filter_eq_self.mpr fun r hr => backed_of_vout (h.backs r hr).active (h.backs r hr).vout]

end

/-! ## One transaction -/

theorem isOpReturn_addressToScript (sha256 : Bytes → Hash256) (P : Profile) (address : Bytes) :
    isOpReturn (addressToScript sha256 P address) = false := by
  unfold addressToScript
  repeat' split
  all_goals rfl

section
variable {env : Env} {coins coins' : Coins} {s s' : StakingLedger} {height i : Nat} {tx : Transaction}

variable {r : StakeRecord}

theorem Backs.survives {steps : List CoinStep} (h : Backs env coins r) (hclean : Clean coins steps)
    (hsteps : steps.foldlM applyStep coins = some coins') (hspent : r.backing ∉ spentKeys steps) :
    Backs env coins' r := by
  obtain ⟨u, hu, houtput⟩ := h.output
  have hcreated : r.backing ∉ createdKeys steps := fun hin => by
    rw [hclean.fresh _ hin] at hu
    cases hu
  exact ⟨h.active, h.vout, h.pos, u, by rw [lookup_of_untouched hsteps hcreated hspent, hu], houtput⟩

theorem Backed.notMem_spentKeys (h : Backed env coins s) (hr : r ∈ s.records)
    (hnot : r.backing ∉ spentBackings env s tx) :
    r.backing ∉ spentKeys (coinSteps env.C height i tx) := by
  rw [spentKeys_coinSteps]
  split
  · exact not_mem_nil
  · refine fun hin => hnot (mem_toFinset.mpr (mem_filter.mpr ⟨hin, ?_⟩))
    rw [h.activeBackings]
    exact decide_eq_true (mem_map_of_mem hr)

theorem Backed.replace {steps : List CoinStep} (gone fresh rest : List StakeRecord) (h : Backed env coins s)
    (hclean : Clean coins steps) (hsteps : steps.foldlM applyStep coins = some coins')
    (hgone : s.records.Perm (gone ++ rest)) (hfresh : s'.records.Perm (fresh ++ rest))
    (hunspent : ∀ r ∈ rest, r.backing ∉ spentKeys steps) (hone : fresh.length ≤ 1)
    (hnew : ∀ r ∈ fresh, Backs env coins' r ∧ coins.entries.lookup r.backing = none)
    (howned : ∀ row ∈ s'.stakes.entries, row.2 ≠ [] ∧ ∀ r ∈ row.2, r.address = row.1)
    (htotal : s'.totalStake + (gone.map StakeRecord.amountUnits).sum =
      s.totalStake + (fresh.map StakeRecord.amountUnits).sum)
    (hceiling : s'.stakes.entries.length ≤ maxVaultPayoutStakers) : Backed env coins' s' := by
  have hrest : ∀ r ∈ rest, r ∈ s.records := fun r hr => hgone.mem_iff.mpr (mem_append_right _ hr)
  refine ⟨howned, fun r hr => ?_, ?_, ?_, hceiling⟩
  · obtain hr | hr := mem_append.mp (hfresh.mem_iff.mp hr)
    · exact (hnew r hr).1
    · exact (h.backs r (hrest r hr)).survives hclean hsteps (hunspent r hr)
  · have hdistinct := (hgone.map StakeRecord.backing).nodup_iff.mp h.distinct
    rw [map_append] at hdistinct
    refine (hfresh.map StakeRecord.backing).nodup_iff.mpr ?_
    rw [map_append]
    refine nodup_append.mpr ⟨?_, (nodup_append.mp hdistinct).2.1, ?_⟩
    · match fresh, hone with
      | [], _ => exact nodup_nil
      | [_], _ => exact nodup_singleton _
    · rintro k hk _ hk' rfl
      obtain ⟨new, hmem, rfl⟩ := mem_map.mp hk
      obtain ⟨r, hr, heq⟩ := mem_map.mp hk'
      obtain ⟨u, hu, -⟩ := (h.backs r (hrest r hr)).output
      rw [heq, (hnew new hmem).2] at hu
      cases hu
  · have hsum := (hgone.map StakeRecord.amountUnits).sum_eq
    have hsum' := (hfresh.map StakeRecord.amountUnits).sum_eq
    have htotals := h.total
    rw [map_append, sum_append] at hsum hsum'
    omega

end

section
variable {env : Env} {coins coins' : Coins} {s s' : StakingLedger} {supply height i : Nat} {tx : Transaction}
  {op : CanonicalStakeOp}

theorem lock_eq_some (hactive : stakeOutpointBackingActive env height)
    (h : lock env supply height tx op s = some s') :
    (backedUnits env ((s.stakes.lookup op.address).getD []) = 0 → s.stakes.entries.length < maxVaultPayoutStakers) ∧
      s' = { s with
        stakes := s.stakes.insert op.address ((s.stakes.lookup op.address).getD [] ++ [newRecord env height tx op])
        totalStake := s.totalStake + op.amountUnits } := by
  simp only [lock, refuse, hactive, if_true] at h
  split_ifs at h with _ _ _ _ _ hfull
  exact ⟨fun hzero => not_le.mp fun hle => hfull ⟨hzero, hle⟩, (Option.some.inj h).symm⟩

theorem foldl_sub (amounts : List Nat) (total : Nat) : amounts.foldl (· - ·) total = total - amounts.sum := by
  induction amounts generalizing total with
  | nil => rfl
  | cons a rest ih => rw [foldl_cons, ih, sum_cons, Nat.sub_sub]

theorem unlock_eq_some (hactive : stakeOutpointBackingActive env height)
    (h : unlock env height tx op s = some s') :
    ∃ records, s.stakes.lookup op.address = some records ∧
      (planUnlock env s op.address op.amountUnits height).valid ∧
      s' = release height op.address (consume env height tx records op.amountUnits) s := by
  unfold unlock refuse at h
  cases hlookup : s.stakes.lookup op.address with
  | none =>
    simp only [hlookup, hactive, if_true, ite_self] at h
    cases h
  | some records =>
    simp only [hlookup, hactive, if_true, Bool.true_and] at h
    split_ifs at h with _ _ _ hplan
    exact ⟨records, rfl, by simpa using hplan, (Option.some.inj h).symm⟩

theorem release_rows (address : Bytes) (outcome : List StakeRecord × List Nat) (s : StakingLedger) :
    (release height address outcome s).records =
      outcome.1.filter StakeRecord.active ++ otherRecords address s := by
  simp only [release, StakingLedger.records]
  split
  · rename_i hnone
    rw [hnone]
    rfl
  · rfl

variable {outcome : List StakeRecord × List Nat}

theorem release_owned {address : Bytes} {row : Sigma fun _ : Bytes => List StakeRecord}
    (hrow : row ∈ (release height address outcome s).stakes.entries)
    (hold : ∀ row ∈ s.stakes.entries, row.2 ≠ [] ∧ ∀ r ∈ row.2, r.address = row.1)
    (hkept : ∀ r ∈ outcome.1.filter StakeRecord.active, r.address = address) :
    row.2 ≠ [] ∧ ∀ r ∈ row.2, r.address = row.1 := by
  simp only [release] at hrow
  split at hrow
  · exact hold row ((kerase_sublist _ _).subset hrow)
  · rename_i hne
    obtain rfl | hrow := mem_cons.mp hrow
    · exact ⟨hne, hkept⟩
    · exact hold row ((kerase_sublist _ _).subset hrow)

theorem release_length {address : Bytes} {records : List StakeRecord}
    (hlookup : s.stakes.lookup address = some records) :
    (release height address outcome s).stakes.entries.length ≤ s.stakes.entries.length := by
  simp only [release]
  split
  · exact (kerase_sublist _ _).length_le
  · exact (Table.perm_cons_erase hlookup).length_eq.symm.le

theorem validateBackingSpend_cases (h : validateBackingSpend env s tx height) :
    (stakeTexts tx = [] ∧ spentBackings env s tx = ∅) ∨
      ∃ data op, stakeTexts tx = [data] ∧ parseCanonicalStakeOp data = some op ∧
        backingSpendMatches env s tx height op = true := by
  unfold validateBackingSpend at h
  match htexts : stakeTexts tx with
  | [] => exact .inl ⟨rfl, by simpa [htexts] using h⟩
  | [data] =>
    cases hparse : parseCanonicalStakeOp data with
    | none => simp [htexts, mapM_cons, hparse] at h
    | some op =>
      simp only [htexts, mapM_cons, mapM_nil, hparse, Option.pure_def, some_bind,
        Bool.and_eq_true] at h
      exact .inr ⟨data, op, rfl, hparse, h.2⟩
  | first :: second :: rest =>
    rw [htexts, mapM_cons, mapM_cons] at h
    cases hfirst : parseCanonicalStakeOp first <;> cases hsecond : parseCanonicalStakeOp second <;>
      cases hrest : rest.mapM parseCanonicalStakeOp <;> simp [hfirst, hsecond, hrest] at h

variable {r : StakeRecord} (hclean : Clean coins (coinSteps env.C height i tx))
  (hsteps : (coinSteps env.C height i tx).foldlM applyStep coins = some coins')
include hclean hsteps

theorem backs_output_zero
    (hbinds : bindsOutputZero env tx r.address r.amountUnits) (hactive : r.active)
    (hbacking : r.backing = (tx.getTxID env.C, 0)) (hpos : 0 < r.amountUnits) :
    Backs env coins' r ∧ coins.entries.lookup r.backing = none := by
  unfold bindsOutputZero at hbinds
  cases hout : tx.outputs.head? with
  | none =>
    rw [hout] at hbinds
    cases hbinds
  | some out =>
    rw [hout] at hbinds
    simp only [Option.any_some, Bool.and_eq_true, decide_eq_true_eq] at hbinds
    obtain ⟨hvalue, hscript⟩ := hbinds
    have hspendable : isOpReturn out.scriptPubkey = false := by
      rw [hscript]
      exact isOpReturn_addressToScript _ _ _
    obtain ⟨hcreated, hlookup⟩ := lookup_output_zero hsteps hclean hout hspendable
    refine ⟨⟨hactive, congrArg Prod.snd hbacking, hpos, _, by rw [hbacking]; exact hlookup, hvalue, hscript⟩, ?_⟩
    rw [hbacking]
    exact hclean.fresh _ hcreated

variable (h : Backed env coins s)
include h

theorem Backed.pass 
    (hspent : ∀ r ∈ s.records, r.backing ∉ spentKeys (coinSteps env.C height i tx)) : Backed env coins' s :=
  ⟨h.owned, fun r hr => (h.backs r hr).survives hclean hsteps (hspent r hr), h.distinct, h.total, h.ceiling⟩

variable (hactive : stakeOutpointBackingActive env height)
include hactive

theorem Backed.lock (hpos : 0 < op.amountUnits)
    (hspent : spentBackings env s tx = ∅) (hbinds : bindsOutputZero env tx op.address op.amountUnits)
    (hlock : lock env supply height tx op s = some s') : Backed env coins' s' := by
  obtain ⟨hroom, rfl⟩ := lock_eq_some hactive hlock
  have hbacking : (newRecord env height tx op).backing = (tx.getTxID env.C, 0) := by
    simp only [StakeRecord.backing, newRecord, hactive, if_true]
  have hold := records_perm op.address s
  refine h.replace [] [newRecord env height tx op] s.records hclean hsteps (.refl _)
    ?_ ?_ le_rfl ?_ ?_ ?_ ?_
  · change List.Perm (((s.stakes.lookup op.address).getD [] ++ [newRecord env height tx op]) ++
      otherRecords op.address s) _
    rw [append_assoc]
    exact perm_middle.trans (hold.symm.cons _)
  · intro r hr
    refine h.notMem_spentKeys hr ?_
    rw [hspent]
    exact Finset.notMem_empty _
  · intro r hr
    rw [mem_singleton.mp hr]
    exact backs_output_zero hclean hsteps hbinds rfl hbacking hpos
  · intro row hrow
    obtain rfl | hrow := mem_cons.mp hrow
    · refine ⟨by simp, fun r hr => ?_⟩
      obtain hr | hr := mem_append.mp hr
      · cases hlookup : s.stakes.lookup op.address with
        | none =>
          rw [hlookup] at hr
          cases hr
        | some records =>
          rw [hlookup] at hr
          exact (h.owned _ (Table.mem_of_lookup hlookup)).2 r hr
      · rw [mem_singleton.mp hr]
        rfl
    · exact h.owned row ((kerase_sublist _ _).subset hrow)
  · simp [newRecord]
  · change ((s.stakes.entries.kerase op.address).length + 1) ≤ _
    cases hlookup : s.stakes.lookup op.address with
    | none =>
      rw [hlookup] at hroom
      have := hroom rfl
      have := (kerase_sublist op.address s.stakes.entries).length_le
      omega
    | some records =>
      have hlength := (Table.perm_cons_erase hlookup).length_eq
      exact hlength.symm.le.trans h.ceiling

/-- An unlock spends the outputs of the records that it takes, and binds what is left of the last one to
output zero of its transaction. -/
theorem Backed.unlock (hpos : 0 < op.amountUnits)
    (haction : op.action = .unlock) (hspends : backingSpendMatches env s tx height op)
    (hunlock : unlock env height tx op s = some s') : Backed env coins' s' := by
  obtain ⟨records, hlookup, hvalid, rfl⟩ := unlock_eq_some hactive hunlock
  simp only [backingSpendMatches, haction, Bool.and_eq_true, Bool.or_eq_true, decide_eq_true_eq] at hspends
  obtain ⟨⟨⟨-, hcard⟩, hall⟩, hresidual⟩ := hspends
  have hrow := h.owned _ (Table.mem_of_lookup hlookup)
  have hold := records_perm op.address s
  rw [hlookup, Option.getD_some] at hold
  have hmem : ∀ r ∈ records, r ∈ s.records := fun r hr => hold.mem_iff.mpr (mem_append_left _ hr)
  have hplan : planUnlock env s op.address op.amountUnits height =
      planUnlockFrom env height records op.amountUnits .invalid := by
    simp only [planUnlock, if_neg hpos.ne', hlookup]
  rw [hplan] at hvalid hcard hall hresidual
  obtain ⟨full, last, others, hconsumed, hsplit⟩ := split_of_plan tx
    (fun r hr => (h.backs r (hmem r hr)).active) rfl hpos hvalid
  generalize planUnlockFrom env height records op.amountUnits .invalid = plan at *
  have hconsumed : plan.consumed = full ++ [last] := hconsumed
  have hgone : s.records.Perm (plan.consumed ++ (others ++ otherRecords op.address s)) := by
    refine hold.trans ((hsplit.perm.append_right _).trans ?_)
    rw [hconsumed]
    simp
  have hlast : last ∈ records := hsplit.perm.mem_iff.mpr (by simp)
  have haddress : ∀ r ∈ records, r.address = op.address := hrow.2
  -- the outputs that are spent are those of the records that go
  have hdistinct := (hgone.map StakeRecord.backing).nodup_iff.mp h.distinct
  rw [map_append] at hdistinct
  obtain ⟨hnodup, -, hdisjoint⟩ := nodup_append.mp hdistinct
  have hspent : spentBackings env s tx = (plan.consumed.map StakeRecord.backing).toFinset := by
    refine (Finset.eq_of_subset_of_card_le (fun k hk => ?_) ?_).symm
    · obtain ⟨r, hr, rfl⟩ := mem_map.mp (mem_toFinset.mp hk)
      exact of_decide_eq_true (all_eq_true.mp hall r hr)
    · rw [hcard, toFinset_card_of_nodup hnodup, length_map]
  have hunits := hsplit.units
  have hexits := hsplit.exits
  refine h.replace plan.consumed (rebound env height tx last plan.residualUnits)
    (others ++ otherRecords op.address s) hclean hsteps hgone ?_ ?_ ?_ ?_ ?_ ?_ ?_
  · rw [release_rows, ← append_assoc]
    exact hsplit.kept.append_right _
  · intro r hr
    refine h.notMem_spentKeys (hgone.mem_iff.mpr (mem_append_right _ hr)) ?_
    rw [hspent, mem_toFinset]
    exact fun hin => hdisjoint _ hin _ (mem_map_of_mem hr) rfl
  · unfold rebound
    split <;> simp
  · intro r hr
    obtain ⟨hne, rfl⟩ := mem_rebound hr
    have hbinds := hresidual.resolve_left hne
    rw [← haddress last hlast] at hbinds
    refine backs_output_zero hclean hsteps hbinds (h.backs last (hmem last hlast)).active ?_ (Nat.pos_of_ne_zero hne)
    simp only [StakeRecord.backing, rebind, hactive, if_true]
  · intro row hentry
    refine release_owned hentry (fun row hrow => h.owned row hrow) fun r hr => ?_
    obtain hr | hr := mem_append.mp (hsplit.kept.mem_iff.mp hr)
    · obtain ⟨-, rfl⟩ := mem_rebound hr
      exact haddress last hlast
    · exact haddress r (hsplit.perm.mem_iff.mpr (by simp [hr]))
  · have hsum := (hgone.map StakeRecord.amountUnits).sum_eq
    have htotal := h.total
    have hleft : ((rebound env height tx last plan.residualUnits).map StakeRecord.amountUnits).sum =
        plan.residualUnits := by
      unfold rebound
      split
      · rename_i hzero
        rw [hzero]
        rfl
      · exact sum_singleton
    have htaken : (plan.consumed.map StakeRecord.amountUnits).sum = op.amountUnits + plan.residualUnits := by
      rw [hconsumed, map_append, sum_append, ← hunits]
      simp
    have hreleased : (release height op.address (consume env height tx records op.amountUnits) s).totalStake =
        s.totalStake - op.amountUnits := by
      exact (foldl_sub _ _).trans (by rw [hexits])
    rw [map_append, sum_append] at hsum
    omega
  · exact (release_length hlookup).trans h.ceiling

theorem Backed.transaction 
    (htx : processTransaction env supply height tx s = some s') : Backed env coins' s' := by
  unfold processTransaction at htx
  split_ifs at htx with hcheck
  simp only [hactive, Bool.true_and, Bool.not_eq_true', Bool.not_eq_false] at hcheck
  obtain ⟨hnone, hspent⟩ | ⟨data, op, hone, hparse, hspends⟩ := validateBackingSpend_cases hcheck
  · rw [hnone] at htx
    cases htx
    refine h.pass hclean hsteps fun r hr => h.notMem_spentKeys hr ?_
    rw [hspent]
    exact Finset.notMem_empty _
  · have hop : processStakeOp env supply height tx data s = some s' := by simpa [hone] using htx
    unfold processStakeOp refuse at hop
    simp only [hparse, hactive, if_true] at hop
    split_ifs at hop with hamount
    have hpos : 0 < op.amountUnits := by omega
    cases haction : op.action with
    | lock =>
      simp only [haction] at hop
      simp only [backingSpendMatches, haction, Bool.and_eq_true, decide_eq_true_eq] at hspends
      exact h.lock hclean hsteps hactive hpos hspends.1 hspends.2 hop
    | unlock =>
      simp only [haction] at hop
      exact h.unlock hclean hsteps hactive hpos haction hspends hop

end

section
variable {env : Env} {coins coins' : Coins} {s s' : StakingLedger} {supply height i : Nat} {tx : Transaction}

theorem Backed.transactions {txs : List Transaction} {n : Nat} (h : Backed env coins s)
    (hactive : stakeOutpointBackingActive env height)
    (hclean : Clean coins ((txs.zipIdx n).flatMap fun row => coinSteps env.C height row.2 row.1))
    (hsteps : ((txs.zipIdx n).flatMap fun row => coinSteps env.C height row.2 row.1).foldlM applyStep coins =
      some coins')
    (htxs : txs.foldlM (fun s tx => processTransaction env supply height tx s) s = some s') :
    Backed env coins' s' := by
  induction txs generalizing n coins s with
  | nil =>
    cases htxs
    cases hsteps
    exact h
  | cons tx rest ih =>
    rw [zipIdx_cons, flatMap_cons] at hclean hsteps
    rw [foldlM_append, bind_eq_some] at hsteps
    obtain ⟨mid, htx, hrest⟩ := hsteps
    rw [foldlM_cons, bind_eq_some] at htxs
    obtain ⟨next, hnext, htxs⟩ := htxs
    exact ih (h.transaction hclean.left htx hactive hnext) (hclean.right htx) hrest htxs

end

/-! ## Chains -/

inductive Accepted (env : Env) (X : Custody) (R : TxRules) (engines : List Block → Engines) :
    Ledger → StakingLedger → Prop where
  | start : Accepted env X R engines Ledger.empty StakingLedger.empty
  | block {l l' : Ledger} {s s' : StakingLedger} {b : Block} {supply : Nat} (prior : Accepted env X R engines l s)
      (chain : acceptBlock env.C X R engines l b = some l') (stakes : processBlock env supply b s = some s') :
      Accepted env X R engines l' s'
  | lockup {l : Ledger} {s : StakingLedger} (prior : Accepted env X R engines l s) (address : Bytes)
      (minUnlockHeight : Nat) : Accepted env X R engines l (applySlashBondLockup env address minUnlockHeight s)

section
variable {env : Env} {X : Custody} {R : TxRules} {engines : List Block → Engines} {coins : Coins} {l l' : Ledger}
  {s s' : StakingLedger} {b : Block} {supply : Nat}

theorem Backed.genesis (h : Backed env l.coins s) (hgenesis : isGenesisBlock b)
    (hclean : Clean l.coins (blockSteps env.C b))
    (hsteps : (blockSteps env.C b).foldlM applyStep l.coins = some l'.coins)
    (hinactive : stakeOutpointBackingActive env b.height = false) (hblock : processBlock env supply b s = some s') :
    Backed env l'.coins s' := by
  simp only [isGenesisBlock, Bool.and_eq_true] at hgenesis
  obtain ⟨-, hshape⟩ := hgenesis
  split at hshape
  · rename_i coinbase htxs
    simp only [Bool.and_eq_true, decide_eq_true_eq] at hshape
    have htexts : stakeTexts coinbase = [] := by
      simp [stakeTexts, hshape.2, Validators.parseOpReturn, startsWith, stakePrefix, ascii]
    have hbsteps : blockSteps env.C b = coinSteps env.C b.height 0 coinbase := by
      rw [blockSteps, htxs]
      exact append_nil _
    have hspent : spentKeys (coinSteps env.C b.height 0 coinbase) = [] := by
      rw [spentKeys_coinSteps, if_pos hshape.1]
    rw [hbsteps] at hclean hsteps
    have hsame := h.pass hclean hsteps fun r _ => by rw [hspent]; exact not_mem_nil
    have hstay : processTransaction env supply b.height coinbase s = some s := by
      simp [processTransaction, hinactive, htexts]
    simp only [processBlock, htxs, foldlM_cons, foldlM_nil, hstay, some_bind,
      Option.pure_def, Option.some.injEq] at hblock
    subst hblock
    exact ⟨hsame.owned, hsame.backs, hsame.distinct, hsame.total, hsame.ceiling⟩
  · cases hshape

theorem Backed.block (hactivation : env.backingActivation = 1) (hl : l.Sound) (h : Backed env l.coins s)
    (hchain : acceptBlock env.C X R engines l b = some l') (hblock : processBlock env supply b s = some s') :
    Backed env l'.coins s' := by
  have hclean := acceptBlock_clean hl hchain
  have hsteps := (acceptBlock_balanced hl hchain).2.coins
  simp only [acceptBlock, bind_eq_some, Option.guard_eq_some'] at hchain
  obtain ⟨-, hchecks, -⟩ := hchain
  split_ifs at hchecks
  · have hheight : b.height = 0 := by
      simp only [isGenesisBlock, Bool.and_eq_true, decide_eq_true_eq] at hchecks
      exact hchecks.1
    refine h.genesis hchecks hclean hsteps ?_ hblock
    simp [stakeOutpointBackingActive, hactivation, hheight]
  · have hheight : 0 < b.height := by
      simp only [validateBlock, Bool.and_eq_true, decide_eq_true_eq] at hchecks
      exact hchecks.1.1.1.1.1.1.1.1.1.1.2
    have hactive : stakeOutpointBackingActive env b.height := by
      simp only [stakeOutpointBackingActive, hactivation, Bool.and_eq_true, decide_eq_true_eq]
      exact ⟨by decide, hheight⟩
    simp only [processBlock, bind_eq_some, pure_eq_some] at hblock
    obtain ⟨next, htxs, rfl⟩ := hblock
    have hnext := h.transactions hactive hclean hsteps htxs
    exact ⟨hnext.owned, hnext.backs, hnext.distinct, hnext.total, hnext.ceiling⟩

theorem records_lockup {α : Type} {address : Bytes} {minUnlockHeight : Nat} (f : StakeRecord → α)
    (hf : ∀ (r : StakeRecord) (n : Nat), f { r with unlockHeight := n } = f r) (s : StakingLedger) :
    (applySlashBondLockup env address minUnlockHeight s).records.map f = s.records.map f := by
  have hrows : ∀ rows : List (Sigma fun _ : Bytes => List StakeRecord), ((rows.map fun row =>
      (⟨row.1, if row.1 = address then row.2.map fun r =>
        if recordEconomicallyBacked env r then { r with unlockHeight := max r.unlockHeight minUnlockHeight } else r
        else row.2⟩ : Sigma fun _ : Bytes => List StakeRecord)).flatMap Sigma.snd).map f =
      (rows.flatMap Sigma.snd).map f := by
    intro rows
    induction rows with
    | nil => rfl
    | cons row rest ih =>
      rw [map_cons, flatMap_cons, flatMap_cons, map_append, map_append, ih]
      congr 1
      split
      · rw [map_map]
        refine map_congr_left fun r _ => ?_
        simp only [Function.comp_apply]
        split
        · exact hf _ _
        · rfl
      · rfl
  exact hrows s.stakes.entries

theorem Backs.of_unlockHeight {r : StakeRecord} {n : Nat} (h : Backs env coins { r with unlockHeight := n }) :
    Backs env coins r := ⟨h.active, h.vout, h.pos, h.output⟩

theorem Backed.lockup (h : Backed env coins s) (address : Bytes) (minUnlockHeight : Nat) :
    Backed env coins (applySlashBondLockup env address minUnlockHeight s) := by
  refine ⟨fun row hrow => ?_, fun r hr => ?_, ?_, ?_, ?_⟩
  · obtain ⟨old, hold, rfl⟩ := mem_map.mp hrow
    obtain ⟨hne, howned⟩ := h.owned old hold
    dsimp only
    split
    · refine ⟨by simpa using hne, fun r hr => ?_⟩
      obtain ⟨r₀, hr₀, rfl⟩ := mem_map.mp hr
      split
      · exact howned r₀ hr₀
      · exact howned r₀ hr₀
    · exact ⟨hne, howned⟩
  · have hmem := mem_map_of_mem (f := fun r : StakeRecord => { r with unlockHeight := 0 }) hr
    rw [records_lockup _ (fun _ _ => rfl)] at hmem
    obtain ⟨r₀, hr₀, heq⟩ := mem_map.mp hmem
    have hb := h.backs r₀ hr₀
    have hzero : Backs env coins { r₀ with unlockHeight := 0 } := ⟨hb.active, hb.vout, hb.pos, hb.output⟩
    rw [heq] at hzero
    exact hzero.of_unlockHeight
  · rw [records_lockup _ (fun _ _ => rfl)]
    exact h.distinct
  · rw [records_lockup _ (fun _ _ => rfl)]
    exact h.total
  · change (List.map _ s.stakes.entries).length ≤ _
    rw [length_map]
    exact h.ceiling

theorem Accepted.sound (h : Accepted env X R engines l s) : l.Sound := by
  induction h with
  | start => exact Ledger.sound_empty
  | block _ hchain _ ih => exact (acceptBlock_balanced ih hchain).2.sound ih
  | lockup _ _ _ ih => exact ih

theorem Accepted.backed (hactivation : env.backingActivation = 1) (h : Accepted env X R engines l s) :
    Backed env l.coins s := by
  induction h with
  | start => exact Backed.empty env _
  | block hprior hchain hblock ih => exact ih.block hactivation hprior.sound hchain hblock
  | lockup _ address minUnlockHeight ih => exact ih.lockup address minUnlockHeight

/-- With outpoint backing from the first block on, on every accepted chain: each record has an unspent
output of its own with its amount and its owner's script, the total is the sum of the records, and the
stakers are within their ceiling. -/
theorem stakes_backed_by_outputs (hactivation : env.backingActivation = 1) (h : Accepted env X R engines l s) :
    (∀ r ∈ s.records, ∃ u, l.coins.entries.lookup r.backing = some u ∧ u.value.toNat = r.amountUnits ∧
      u.scriptPubkey = ownerScript env r.address) ∧
    (s.records.map StakeRecord.backing).Nodup ∧
    s.totalStake = (s.records.map StakeRecord.amountUnits).sum ∧
    s.stakes.entries.length ≤ maxVaultPayoutStakers := by
  have hb := h.backed hactivation
  exact ⟨fun r hr => (hb.backs r hr).output, hb.distinct, hb.total, hb.ceiling⟩

end

/-! A stake that is locked in the second block, with an output of the first one. -/

def sampleStakeCrypto : Crypto where
  sha256 bytes :=
    if bytes.length = 21 then ⟨List.replicate 32 1, rfl⟩
    else if bytes = List.replicate 32 1 then ⟨[66, 16, 72, 208] ++ List.replicate 28 0, rfl⟩
    else ⟨(bytes ++ List.replicate 32 0).take 32, Hash256.size_leading _⟩
  verifyP2PKHInputSig _ _ _ := true

def sampleStakeEnv : Env where
  P := Profile.publicMainnet
  C := sampleStakeCrypto
  backingActivation := 1
  minStakeUnits := 1000
  protocolUpgradeActive _ := false
  stakingActivationUnits := 0
  minStakeOverride := 0

def sampleStakeCoinbase (version : UInt32) : Transaction :=
  ⟨version, [⟨.zero, 0xFFFFFFFF, [], 0⟩], [⟨156963470, [0x76]⟩, ⟨156963470, [0x51]⟩], 0⟩

def sampleLockTx : Transaction where
  version := 4
  inputs := [⟨(sampleStakeCoinbase 2).getTxID sampleStakeCrypto, 0, [], 0⟩]
  outputs := [⟨156963470, ownerScript sampleStakeEnv Validators.stakeVaultAddress⟩,
    ⟨0, buildOpReturnScript (ascii "VELD_STAKE|LOCK|" ++ Validators.stakeVaultAddress ++ ascii "|156963470|T1")⟩]
  locktime := 0

def sampleStakeBlock : Block :=
  ⟨⟨2, sampleZeroGenesis.getHash sampleStakeCrypto, .zero, 0, 0, 0⟩, [sampleStakeCoinbase 2], 1⟩

def sampleLockBlock : Block :=
  ⟨⟨3, sampleStakeBlock.getHash sampleStakeCrypto, .zero, 0, 0, 0⟩, [sampleStakeCoinbase 3, sampleLockTx], 2⟩

/-- The chain and the ledger after some blocks. -/
def sampleStakeRun (blocks : List Block) : Option (Ledger × StakingLedger) :=
  blocks.foldlM (fun (l, s) b => do
    let l ← acceptBlock sampleStakeCrypto Custody.sample TxRules.sample (fun _ => Engines.sample) l b
    let s ← processBlock sampleStakeEnv 0 b s
    return (l, s)) (Ledger.empty, StakingLedger.empty)

theorem sampleStakeRun_accepted {blocks : List Block} {l l' : Ledger} {s s' : StakingLedger}
    (hprior : Accepted sampleStakeEnv Custody.sample TxRules.sample (fun _ => Engines.sample) l s)
    (h : blocks.foldlM (fun (l, s) b => do
      let l ← acceptBlock sampleStakeCrypto Custody.sample TxRules.sample (fun _ => Engines.sample) l b
      let s ← processBlock sampleStakeEnv 0 b s
      return (l, s)) (l, s) = some (l', s')) :
    Accepted sampleStakeEnv Custody.sample TxRules.sample (fun _ => Engines.sample) l' s' := by
  induction blocks generalizing l s with
  | nil =>
    cases h
    exact hprior
  | cons b rest ih =>
    simp only [foldlM_cons, bind_eq_some, pure_eq_some] at h
    obtain ⟨⟨l₁, s₁⟩, ⟨_, hchain, _, hblock, heq⟩, hrest⟩ := h
    cases heq
    exact ih (hprior.block hchain hblock) hrest

theorem stakes_backed_by_outputs_locked :
    ∃ l s, Accepted sampleStakeEnv Custody.sample TxRules.sample (fun _ => Engines.sample) l s ∧
      s.totalStake = 156963470 ∧
      ∃ r ∈ s.records, ∃ u, l.coins.entries.lookup r.backing = some u ∧ u.value.toNat = r.amountUnits ∧
        u.scriptPubkey = ownerScript sampleStakeEnv r.address := by
  have hok : ((sampleStakeRun [sampleZeroGenesis, sampleStakeBlock, sampleLockBlock]).map fun (_, s) =>
      (s.totalStake, s.records.length)) = some (156963470, 1) := by decide +kernel
  obtain ⟨⟨l, s⟩, hrun, hvalues⟩ := Option.map_eq_some_iff.mp hok
  obtain ⟨htotal, hlength⟩ := Prod.mk.inj hvalues
  have haccepted := sampleStakeRun_accepted .start hrun
  obtain ⟨hbacked, -⟩ := stakes_backed_by_outputs rfl haccepted
  obtain ⟨r, hr⟩ := exists_mem_of_length_pos (by rw [hlength]; decide)
  exact ⟨l, s, haccepted, htotal, r, hr, hbacked r hr⟩

end Veld.Staking
