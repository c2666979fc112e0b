import Veld.Consensus.SignerBond

/-!
# Locks on the signers' bonds

What each loop over the signers does to their locks: a plan adds what it plans, a release takes what
it is asked for in the order of the map, a slash touches bonds only.
-/

namespace Veld.Btcveld

open Wire List Table

variable {t t' : Table Bytes SignerBond} {addr a : Bytes} {s s' : SignerBond}

def lockedOf (t : Table Bytes SignerBond) (addr : Bytes) : Nat :=
  ((t.lookup addr).map SignerBond.lockedSats).getD 0

def totalLocked (t : Table Bytes SignerBond) : Nat := Table.total SignerBond.lockedSats t

def SameSigners (t t' : Table Bytes SignerBond) : Prop :=
  ∀ addr, (t'.lookup addr).isSome = (t.lookup addr).isSome

structure SameLocks (t t' : Table Bytes SignerBond) : Prop where
  signers : SameSigners t t'
  total : totalLocked t' = totalLocked t
  each : ∀ addr, lockedOf t' addr = lockedOf t addr

theorem SameLocks.refl (t : Table Bytes SignerBond) : SameLocks t t :=
  ⟨fun _ => rfl, rfl, fun _ => rfl⟩

theorem SameLocks.trans {t'' : Table Bytes SignerBond} (h : SameLocks t t') (h' : SameLocks t' t'') :
    SameLocks t t'' :=
  ⟨fun addr => (h'.signers addr).trans (h.signers addr), h'.total.trans h.total,
    fun addr => (h'.each addr).trans (h.each addr)⟩

/-! ## One row -/

theorem sameSigners_insert (h : t.lookup a = some s) : SameSigners t (t.insert a s') := by
  intro addr
  rw [lookup_insert_ite]
  split
  · rename_i heq
    rw [heq, h]
    rfl
  · rfl

theorem lockedOf_insert (t : Table Bytes SignerBond) (a : Bytes) (s' : SignerBond) (addr : Bytes) :
    lockedOf (t.insert a s') addr = if addr = a then s'.lockedSats else lockedOf t addr := by
  unfold lockedOf
  rw [lookup_insert_ite]
  split <;> rfl

theorem lockedOf_of_lookup (h : t.lookup a = some s) : lockedOf t a = s.lockedSats := by
  simp [lockedOf, h]

theorem totalLocked_insert (h : t.lookup a = some s) :
    totalLocked (t.insert a s') + s.lockedSats = totalLocked t + s'.lockedSats :=
  total_insert_of_lookup h

theorem sameLocks_insert (h : t.lookup a = some s) (hlock : s'.lockedSats = s.lockedSats) :
    SameLocks t (t.insert a s') := by
  refine ⟨sameSigners_insert h, ?_, fun addr => ?_⟩
  · have htotal : totalLocked (t.insert a s') + _ = _ := totalLocked_insert h
    omega
  · rw [lockedOf_insert]
    split
    · rename_i heq
      rw [heq, lockedOf_of_lookup h, hlock]
    · rfl

/-! ## Plans -/

/-- What a plan locks for one signer. -/
def planned (plan : List (Bytes × Nat)) (addr : Bytes) : Nat :=
  ((plan.filter (·.1 = addr)).map (·.2)).sum

theorem planned_cons (a : Bytes) (n : Nat) (plan : List (Bytes × Nat)) (addr : Bytes) :
    planned ((a, n) :: plan) addr = (if a = addr then n else 0) + planned plan addr := by
  unfold planned
  by_cases h : a = addr <;> simp [h]

theorem buildLockPlan_sum (keys : List Bytes) (amount : Nat) :
    ((buildLockPlan t keys amount).1.map (·.2)).sum + (buildLockPlan t keys amount).2 = amount := by
  induction keys generalizing amount with
  | nil => simp [buildLockPlan]
  | cons addr keys ih =>
    unfold buildLockPlan
    split
    · exact ih amount
    · rename_i s hs
      have hle : (if s.active then min amount s.free else 0) ≤ amount := by split <;> omega
      generalize (if s.active then min amount s.free else 0) = n at hle
      have hrest := ih (amount - n)
      dsimp only
      split
      · omega
      · rw [map_cons, sum_cons]
        omega

theorem buildLockPlan_known (keys : List Bytes) (amount : Nat) :
    ∀ row ∈ (buildLockPlan t keys amount).1, (t.lookup row.1).isSome := by
  induction keys generalizing amount with
  | nil => simp [buildLockPlan]
  | cons addr keys ih =>
    unfold buildLockPlan
    split
    · exact ih amount
    · rename_i s hs
      intro row hrow
      generalize (if s.active then min amount s.free else 0) = n at hrow
      dsimp only at hrow
      split at hrow
      · exact ih _ row hrow
      · rcases mem_cons.mp hrow with rfl | hrow
        · simp [hs]
        · exact ih _ row hrow

theorem applyLockPlan_locks (plan : List (Bytes × Nat))
    (h : ∀ row ∈ plan, (t.lookup row.1).isSome) :
    SameSigners t (applyLockPlan t plan) ∧
      totalLocked (applyLockPlan t plan) = totalLocked t + (plan.map (·.2)).sum ∧
      ∀ addr, lockedOf (applyLockPlan t plan) addr = lockedOf t addr + planned plan addr := by
  induction plan generalizing t with
  | nil => exact ⟨fun _ => rfl, rfl, fun _ => rfl⟩
  | cons row plan ih =>
    obtain ⟨a, n⟩ := row
    obtain ⟨s, hs⟩ := Option.isSome_iff_exists.mp (h (a, n) mem_cons_self)
    have hsame : SameSigners t (t.insert a { s with lockedSats := s.lockedSats + n }) :=
      sameSigners_insert hs
    have htotal : totalLocked (t.insert a { s with lockedSats := s.lockedSats + n }) + _ = _ :=
      totalLocked_insert hs
    obtain ⟨hsigners, hsum, heach⟩ := ih fun row hrow =>
      (hsame row.1).trans (h row (mem_cons_of_mem _ hrow))
    have hunfold : applyLockPlan t ((a, n) :: plan) =
        applyLockPlan (t.insert a { s with lockedSats := s.lockedSats + n }) plan := by
      simp [applyLockPlan, hs]
    rw [hunfold]
    refine ⟨fun addr => (hsigners addr).trans (hsame addr), ?_, fun addr => ?_⟩
    · rw [hsum, map_cons, sum_cons]
      dsimp only at htotal ⊢
      omega
    · rw [heach, lockedOf_insert, planned_cons]
      split
      · rename_i heq
        rw [heq, lockedOf_of_lookup hs, if_pos rfl]
        dsimp only
        omega
      · rename_i hne
        rw [if_neg (Ne.symm hne)]
        omega

/-! ## Releases -/

theorem releaseFrom_signers (keys : List Bytes) (amount : Nat) :
    SameSigners t (releaseFrom t keys amount) := by
  induction keys generalizing t amount with
  | nil => exact fun _ => rfl
  | cons a keys ih =>
    unfold releaseFrom
    split
    · exact ih amount
    · rename_i s hs
      exact fun addr => (ih _ addr).trans (sameSigners_insert hs addr)

theorem lockedOf_releaseFrom_le (keys : List Bytes) (amount : Nat) (addr : Bytes) :
    lockedOf (releaseFrom t keys amount) addr ≤ lockedOf t addr := by
  induction keys generalizing t amount with
  | nil => exact le_rfl
  | cons a keys ih =>
    unfold releaseFrom
    split
    · exact ih amount
    · rename_i s hs
      refine (ih _).trans ?_
      rw [lockedOf_insert]
      split
      · rename_i heq
        rw [heq, lockedOf_of_lookup hs]
        exact Nat.sub_le ..
      · exact le_rfl

theorem totalLocked_releaseFrom {keys : List Bytes} (hkeys : keys.Nodup) (amount : Nat) :
    totalLocked (releaseFrom t keys amount) + min amount (keys.map (lockedOf t)).sum =
      totalLocked t := by
  induction keys generalizing t amount with
  | nil => simp [releaseFrom]
  | cons a keys ih =>
    obtain ⟨ha, hrest⟩ := nodup_cons.mp hkeys
    rw [map_cons, sum_cons]
    unfold releaseFrom
    split
    · rename_i hnone
      rw [show lockedOf t a = 0 by simp [lockedOf, hnone], Nat.zero_add]
      exact ih hrest amount
    · rename_i s hs
      have htotal : totalLocked (t.insert a
          { s with lockedSats := s.lockedSats - min amount s.lockedSats }) + _ = _ :=
        totalLocked_insert hs
      have hsum : keys.map (lockedOf (t.insert a
          { s with lockedSats := s.lockedSats - min amount s.lockedSats })) =
          keys.map (lockedOf t) := by
        refine map_congr_left fun addr haddr => ?_
        rw [lockedOf_insert, if_neg]
        rintro rfl
        exact ha haddr
      have hnext := ih hrest (amount - min amount s.lockedSats) (t := t.insert a
        { s with lockedSats := s.lockedSats - min amount s.lockedSats })
      rw [hsum] at hnext
      rw [lockedOf_of_lookup hs]
      dsimp only at htotal ⊢
      omega

theorem orderedSigners_perm (t : Table Bytes SignerBond) : (orderedSigners t).Perm t.keys :=
  mergeSort_perm ..

theorem sum_orderedSigners (t : Table Bytes SignerBond) (f : SignerBond → Nat) :
    ((orderedSigners t).map fun a => ((t.lookup a).map f).getD 0).sum = Table.total f t := by
  rw [((orderedSigners_perm t).map _).sum_eq]
  unfold Table.total AList.keys List.keys
  rw [map_map]
  refine congrArg List.sum (map_congr_left fun row hrow => ?_)
  simp [lookup_of_mem hrow]

theorem sum_lockedOf_orderedSigners (t : Table Bytes SignerBond) :
    ((orderedSigners t).map (lockedOf t)).sum = totalLocked t :=
  sum_orderedSigners t SignerBond.lockedSats

theorem totalLocked_release {amount : Nat} (h : amount ≤ totalLocked t) :
    totalLocked (releaseFrom t (orderedSigners t) amount) + amount = totalLocked t := by
  have hnodup : (orderedSigners t).Nodup := (orderedSigners_perm t).nodup_iff.mpr t.nodupKeys
  have htaken := totalLocked_releaseFrom (t := t) hnodup amount
  rw [sum_lockedOf_orderedSigners] at htaken
  omega

/-! ## Slashes and resignations -/

theorem slashShares_locks (want total : Nat) (keys : List Bytes) (taken : Nat) :
    SameLocks t (slashShares want total keys t taken).1 := by
  induction keys generalizing t taken with
  | nil => exact .refl t
  | cons a keys ih =>
    unfold slashShares
    split
    · exact ih taken
    · rename_i s hs
      refine SameLocks.trans ?_ (ih _)
      exact sameLocks_insert hs rfl

theorem slashRemainder_locks (want : Nat) (keys : List Bytes) (taken : Nat) :
    SameLocks t (slashRemainder want keys t taken).1 := by
  unfold slashRemainder
  split
  · exact .refl t
  · split
    · exact .refl t
    · dsimp only
      split
      · exact .refl t
      · rename_i s hs
        exact sameLocks_insert hs rfl

theorem applySlash_locks {A : RedeemArchive} (c : Covenant A) (v : SlashVerdict) :
    SameLocks c.signers (c.applySlash v).signers := by
  unfold Covenant.applySlash
  dsimp only
  split
  · exact .refl _
  · exact (slashShares_locks ..).trans (slashRemainder_locks ..)

theorem applySlash_frame {A : RedeemArchive} (c : Covenant A) (v : SlashVerdict) :
    c.applySlash v = { c with
      signers := (c.applySlash v).signers
      insuranceFundSats := (c.applySlash v).insuranceFundSats } := by
  unfold Covenant.applySlash
  dsimp only
  split <;> rfl

theorem lookup_deactivate (t : Table Bytes SignerBond) (addr : Bytes) :
    (deactivate t).lookup addr = (t.lookup addr).map fun s => { s with active := false } := by
  refine Option.ext fun s => ?_
  rw [Option.map_eq_some_iff]
  change s ∈ (deactivate t).lookup addr ↔ _
  rw [AList.mem_lookup_iff]
  simp only [deactivate, mem_map]
  constructor
  · rintro ⟨row, hrow, heq⟩
    cases heq
    exact ⟨row.2, lookup_of_mem hrow, rfl⟩
  · rintro ⟨s, hs, rfl⟩
    exact ⟨⟨addr, s⟩, mem_of_lookup hs, rfl⟩

theorem deactivate_locks (t : Table Bytes SignerBond) : SameLocks t (deactivate t) := by
  refine ⟨fun addr => ?_, ?_, fun addr => ?_⟩
  · rw [lookup_deactivate, Option.isSome_map]
  · simp [totalLocked, Table.total, deactivate, Function.comp_def]
  · simp only [lockedOf, lookup_deactivate, Option.map_map, Function.comp_def]

end Veld.Btcveld
