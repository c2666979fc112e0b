import Veld.Core.Settlement

/-!
# What the settlements pay out

Each settlement pays out exactly the custody balance it is derived from.
-/

namespace Veld.Chain

open Wire List

@[simp] theorem payoutTotal_nil : payoutTotal [] = 0 := rfl

@[simp] theorem payoutTotal_cons (p : Payout) (rest : List Payout) :
    payoutTotal (p :: rest) = p.2 + payoutTotal rest := sum_cons

@[simp] theorem payoutTotal_append (a b : List Payout) :
    payoutTotal (a ++ b) = payoutTotal a + payoutTotal b := by
  simp [payoutTotal]

@[simp] theorem payoutTotal_change (script : Bytes) (amount : Nat) :
    payoutTotal (changeOutput script amount) = amount := by
  unfold changeOutput
  split
  · simp
  · rw [payoutTotal_nil]
    omega

theorem sum_div_le (total : Nat) (amounts : List Nat) :
    (amounts.map (· / total)).sum ≤ amounts.sum / total := by
  induction amounts with
  | nil => simp
  | cons a rest ih =>
    calc a / total + (rest.map (· / total)).sum ≤ a / total + rest.sum / total := Nat.add_le_add_left ih _
      _ ≤ (a + rest.sum) / total := Nat.div_add_div_le_add_div

theorem sum_shares_le (amount : Nat) (weights : List Nat) :
    (weights.map fun w => amount * w / weights.sum).sum ≤ amount := by
  rcases Nat.eq_zero_or_pos weights.sum with hzero | hpos
  · have hnone : (weights.map fun w => amount * w / weights.sum).sum = 0 := by
      simp [hzero]
    omega
  · have hsum : (weights.map (amount * ·)).sum = amount * weights.sum := by
      simpa using sum_map_mul_left weights id amount
    have hle := sum_div_le weights.sum (weights.map (amount * ·))
    rw [hsum, Nat.mul_div_cancel _ hpos, map_map] at hle
    exact hle

/-! ## The miner pool -/

theorem drawSlots_spec (C : Crypto) (count slots : Nat) (seed : Hash256) {won : List Nat} (hnodup : won.Nodup)
    (hlt : ∀ i ∈ won, i < count) :
    (drawSlots C count slots seed won).Nodup ∧ (∀ i ∈ drawSlots C count slots seed won, i < count) ∧
      (drawSlots C count slots seed won).length ≤ won.length + slots := by
  induction slots generalizing seed won with
  | zero => exact ⟨hnodup, hlt, le_rfl⟩
  | succ slots ih =>
    rw [drawSlots]
    split
    · exact ⟨hnodup, hlt, Nat.le_add_right _ _⟩
    · rename_i pick hpick
      have hlive := mem_of_getElem? hpick
      simp only [mem_filter, mem_range, decide_eq_true_eq] at hlive
      have hnodup' : (won ++ [pick]).Nodup := by
        rw [nodup_append]
        refine ⟨hnodup, nodup_singleton _, ?_⟩
        intro a ha b hb
        rw [mem_singleton.mp hb]
        exact fun heq => hlive.2 (heq ▸ ha)
      have hlt' : ∀ i ∈ won ++ [pick], i < count := by
        intro i hi
        rcases mem_append.mp hi with hmem | hmem
        · exact hlt i hmem
        · rw [mem_singleton.mp hmem]
          exact hlive.1
      obtain ⟨h1, h2, h3⟩ := ih (hash256d C.sha256 seed.bytes) hnodup' hlt'
      refine ⟨h1, h2, ?_⟩
      rw [length_append, length_singleton] at h3
      omega

theorem sum_slots (perSlot remainder first : Nat) {members : List Nat} (hnodup : members.Nodup)
    (hfirst : first ∈ members) :
    (members.map fun i => perSlot + if i = first then remainder else 0).sum =
      perSlot * members.length + remainder := by
  have hslots : ∀ others : List Nat, first ∉ others →
      (others.map fun i => perSlot + if i = first then remainder else 0).sum = perSlot * others.length := by
    intro others hnot
    induction others with
    | nil => simp
    | cons a rest ih =>
      obtain ⟨hne, hrest⟩ := not_or.mp (mt mem_cons.mpr hnot)
      rw [map_cons, sum_cons, ih hrest, if_neg (Ne.symm hne), length_cons]
      ring
  induction members with
  | nil => cases hfirst
  | cons a rest ih =>
    obtain ⟨hnot, hrest⟩ := nodup_cons.mp hnodup
    rw [map_cons, sum_cons, length_cons]
    by_cases heq : a = first
    · rw [if_pos heq, hslots rest (heq ▸ hnot)]
      ring
    · rw [if_neg heq, ih hrest ((mem_cons.mp hfirst).resolve_left (Ne.symm heq))]
      ring

theorem winners_perm {count : Nat} {winners : List Nat} (hnodup : winners.Nodup) (hlt : ∀ i ∈ winners, i < count) :
    ((List.range count).filter (· ∈ winners)).Perm winners := by
  refine (perm_ext_iff_of_nodup (nodup_range.filter _) hnodup).mpr fun i => ?_
  simp only [mem_filter, mem_range, decide_eq_true_eq]
  exact ⟨And.right, fun hi => ⟨hlt i hi, hi⟩⟩

theorem lotteryPayout_total (X : Custody) {eligible : List Bytes} {slots : Nat} {winners : List Nat}
    (balance : Nat) (hnodup : winners.Nodup) (hlt : ∀ i ∈ winners, i < eligible.length)
    (hslots : winners.length ≤ slots) : payoutTotal (lotteryPayout X eligible slots winners balance) = balance := by
  cases winners with
  | nil => simp [lotteryPayout]
  | cons first rest =>
    have hperm := winners_perm hnodup hlt
    have hnodup' : ((List.range eligible.length).filter (· ∈ first :: rest)).Nodup := nodup_range.filter _
    have hfirst : first ∈ (List.range eligible.length).filter (· ∈ first :: rest) :=
      hperm.mem_iff.mpr mem_cons_self
    have hpaid := sum_slots (balance / slots) (balance - balance / slots * slots) first hnodup' hfirst
    rw [hperm.length_eq] at hpaid
    have hle : balance / slots * (first :: rest).length ≤ balance / slots * slots := Nat.mul_le_mul_left _ hslots
    have hdiv : balance / slots * slots ≤ balance := Nat.div_mul_le_self _ _
    have htotal : payoutTotal (((List.range eligible.length).filter (· ∈ first :: rest)).map fun i =>
        (eligible.getD i [], balance / slots + if i = first then balance - balance / slots * slots else 0)) =
        balance / slots * (first :: rest).length + (balance - balance / slots * slots) := by
      rw [payoutTotal, map_map]
      exact hpaid
    simp only [lotteryPayout, payoutTotal_append, payoutTotal_change, htotal]
    omega

variable {balance height : Nat}

theorem poolOutputs_total (C : Crypto) (X : Custody) (E : Engines) (l : Ledger)
    (prevBlockHash : Hash256)
    (hsome : computeExpectedPoolOutputs C X E l prevBlockHash balance height ≠ []) :
    payoutTotal (computeExpectedPoolOutputs C X E l prevBlockHash balance height) = balance := by
  unfold computeExpectedPoolOutputs at hsome ⊢
  split_ifs with hbalance hstaking heligible
  · rw [if_pos hbalance] at hsome
    exact absurd rfl hsome
  · rw [if_neg hbalance, if_pos hstaking] at hsome
    exact absurd rfl hsome
  · simp
  · obtain ⟨hnodup, hlt, hlength⟩ := drawSlots_spec C (eligibleMiners X E).length
      (lotterySlots (eligibleMiners X E).length) (lotterySeed C l.chain prevBlockHash height) nodup_nil
      (forall_mem_nil _)
    rw [length_nil, Nat.zero_add] at hlength
    exact lotteryPayout_total X balance hnodup hlt hlength

/-! ## The endorsement pool -/

theorem payoutTotal_filterMap_le {f : Bytes × Nat → Option Payout} {g : Bytes × Nat → Nat}
    (hf : ∀ row p, f row = some p → p.2 ≤ g row) (rows : List (Bytes × Nat)) :
    payoutTotal (rows.filterMap f) ≤ (rows.map g).sum := by
  induction rows with
  | nil => simp
  | cons row rest ih =>
    rw [filterMap_cons, map_cons, sum_cons]
    split
    · omega
    · rename_i p hp
      have hle := hf row p hp
      rw [payoutTotal_cons]
      omega

theorem endorsementShares_le (E : Engines) (distributable : Nat) :
    payoutTotal (endorsementShares E distributable) ≤ distributable := by
  have hle := sum_shares_le distributable (E.endorsementCounts.map Prod.snd)
  rw [map_map] at hle
  refine (payoutTotal_filterMap_le ?_ _).trans hle
  intro row p hp
  simp only [Option.ite_none_right_eq_some, Option.some.injEq] at hp
  obtain ⟨-, rfl⟩ := hp
  exact Nat.div_le_div_right (Nat.mod_le _ _)

theorem endorsementOutputs_total (X : Custody) (E : Engines) (l : Ledger)
    (hsome : computeExpectedEndorsementFlushOutputs X E l balance height ≠ []) :
    payoutTotal (computeExpectedEndorsementFlushOutputs X E l balance height) = balance := by
  have hle := endorsementShares_le E balance
  unfold computeExpectedEndorsementFlushOutputs at hsome ⊢
  split_ifs at hsome ⊢ with hheight hstaking hbalance hcounts
  · exact absurd rfl hsome
  · exact absurd rfl hsome
  · exact absurd rfl hsome
  · simp
  · revert hsome hle
    cases endorsementShares E balance with
    | nil => exact fun _ hsome => absurd rfl hsome
    | cons first rest =>
      intro hle _
      simp only [payoutTotal_cons] at hle ⊢
      omega

/-! ## The vault -/

theorem vaultPayout_le (X : Custody) (E : Engines) (shares : List (Bytes × Nat)) (balance : Nat) :
    payoutTotal (vaultPayout X E shares balance) ≤ balance := by
  have hpaid : payoutTotal (paidShares E shares) ≤ payoutTotal shares := by
    refine payoutTotal_filterMap_le ?_ _
    intro row p hp
    simp only [Option.ite_none_right_eq_some, Option.some.injEq] at hp
    obtain ⟨-, rfl⟩ := hp
    exact le_rfl
  unfold vaultPayout
  split_ifs with hnone hover
  · simp
  · simp
  · rw [payoutTotal_append, payoutTotal_change]
    omega

theorem vaultOutputs_le (X : Custody) (E : Engines) (l : Ledger) (balance height : Nat) :
    payoutTotal (computeExpectedVaultDistribution X E l balance height) ≤ balance := by
  unfold computeExpectedVaultDistribution
  split_ifs
  · simp
  · simp
  · simp
  · simp
  · exact vaultPayout_le X E _ balance

/-! ## Bonds -/

theorem slashOutputs_total (X : Custody) (equivocation : Bool) (script slasher : Bytes)
    (slasherShare confiscation returned : Nat) :
    payoutTotal (slashOutputs X equivocation script slasher slasherShare confiscation returned) =
      slasherShare + confiscation + returned := by
  have htaken : ∀ amount : Nat, payoutTotal
      (if amount = 0 then ([] : List Payout)
        else if equivocation then [(finalityEquivocationBurnScript, amount)] else [(X.vaultScript, amount)]) =
      amount := by
    intro amount
    split_ifs with hzero
    · rw [hzero, payoutTotal_nil]
    · simp
    · simp
  simp only [slashOutputs, payoutTotal_append, payoutTotal_change, htaken]
  by_cases hpos : 0 < slasherShare
  · by_cases hslasher : slasher = []
    · rw [if_neg (fun h => h.2 hslasher), if_pos ⟨hpos, hslasher⟩, payoutTotal_nil]
      omega
    · rw [if_pos ⟨hpos, hslasher⟩, if_neg (fun h => hslasher h.2), payoutTotal_cons, payoutTotal_nil]
      omega
  · rw [if_neg (fun h => hpos h.1), if_neg (fun h => hpos h.1), payoutTotal_nil]
    omega

theorem ppmOf_add_le {units a b : Nat} (h : a + b ≤ 1000000) : ppmOf units a + ppmOf units b ≤ units := by
  have hsum : units * a + units * b ≤ units * 1000000 := by
    rw [← Nat.mul_add]
    exact Nat.mul_le_mul_left _ h
  unfold ppmOf
  omega

theorem bondMovementOutputs_total (X : Custody) (E : Engines) (row : BondRow) :
    payoutTotal (bondMovementOutputs X E row) = row.units := by
  have hslash : ppmOf row.units slashSlasherPpm + ppmOf row.units slashVaultPpm ≤ row.units :=
    ppmOf_add_le (by decide)
  have hequiv : ppmOf row.units slashEquivSlasherPpm + ppmOf row.units slashEquivBurnPpm ≤ row.units :=
    ppmOf_add_le (by decide)
  unfold bondMovementOutputs
  by_cases hkind : row.kind = 0
  · simp [hkind]
  · by_cases hequivocation : row.kind = 2
    · have hrelease : ¬ (2 : Nat) = 0 := by decide
      simp only [hequivocation, hrelease, if_false, decide_true, if_true, slashOutputs_total]
      split_ifs <;> omega
    · simp only [hkind, hequivocation, decide_false, if_false, Bool.false_eq_true, slashOutputs_total]
      split_ifs <;> omega

theorem bondYieldOutputs_total (X : Custody) (E : Engines) (row : BondRow) :
    payoutTotal (bondYieldOutputs X E row) = row.units := by
  have hbounty : ∀ rate : Nat, rate ≤ 1000000 → ppmOf row.units rate ≤ row.units := by
    intro rate hrate
    have hle : ppmOf row.units rate + ppmOf row.units 0 ≤ row.units := ppmOf_add_le hrate
    omega
  have hslash := hbounty slashSlasherPpm (by decide)
  have hequiv := hbounty slashEquivSlasherPpm (by decide)
  unfold bondYieldOutputs
  by_cases hkind : row.kind = 0
  · simp [hkind]
  · simp only [hkind, if_false, slashOutputs_total]
    split_ifs <;> omega

variable {outputs : BondRow → List Payout}

theorem settleRows_total (E : Engines) (houtputs : ∀ row, payoutTotal (outputs row) = row.units)
    {rows : List BondRow} {paid total : Nat} {outs : List Payout}
    (h : settleRows E outputs rows paid = some (outs, total)) :
    paid + payoutTotal outs = total := by
  induction rows generalizing paid outs total with
  | nil =>
    cases h
    rfl
  | cons row rest ih =>
    rw [settleRows] at h
    split_ifs at h with hskip hover
    · exact ih h
    · obtain ⟨⟨outs', total'⟩, hrest, heq⟩ := Option.map_eq_some_iff.mp h
      cases heq
      have hsum := ih hrest
      rw [payoutTotal_append, houtputs]
      omega

theorem settlementOutputs_total (E : Engines) {custodyScript : Bytes}
    (houtputs : ∀ row, payoutTotal (outputs row) = row.units) {rows : List BondRow}
    (hsome : settlementOutputs E custodyScript outputs rows balance height ≠ []) :
    payoutTotal (settlementOutputs E custodyScript outputs rows balance height) = balance := by
  unfold settlementOutputs at hsome ⊢
  split_ifs at hsome ⊢ with hheight
  · exact absurd rfl hsome
  · revert hsome
    cases hrows : settleRows E outputs (rows.mergeSort BondRow.before) 0 with
    | none => exact fun hsome => absurd rfl hsome
    | some result =>
      obtain ⟨outs, paid⟩ := result
      have htotal := settleRows_total E houtputs hrows
      intro hsome
      simp only at hsome ⊢
      split_ifs at hsome ⊢ with hnone
      · exact absurd rfl hsome
      · rw [payoutTotal_append, payoutTotal_change]
        have hle := not_or.mp hnone
        omega

end Veld.Chain
