import Veld.Consensus.CertAssembler

/-!
# Runs of the assembler

Over every run of calls the buckets of the assembler hold at most one vote of a signer and its counters are the
totals of what its slots hold, within their limits.
-/

namespace Veld.Finality

open Wire List Table

/-! ## Counters -/

/-- The counters are the totals of the slots, within the limits. -/
structure Accounted (sizeofVote : Nat) (c : CertAssembler) : Prop where
  count : c.voteCount = Table.total SignerRoundVotes.count c.signerRounds
  bytes : c.poolBytes = Table.total (SignerRoundVotes.bytes sizeofVote) c.signerRounds
  countLimit : c.voteCount ≤ maxPoolVotes
  bytesLimit : c.poolBytes ≤ maxPoolBytes

structure Slotted (K : Context) (c : CertAssembler) : Prop where
  slot : ∀ k votes, c.pool.lookup k = some votes → ∀ v ∈ votes, v.bucketKey = k ∧
    ∃ slot, c.signerRounds.lookup (v.signerKey K) = some slot ∧ slot.first = v
  once : ∀ k votes, c.pool.lookup k = some votes → (votes.map (SignedVote.signerKey K)).Nodup

def Genuine (K : Context) (offered : List EpochSnapshot) (c : CertAssembler) : Prop :=
  ∀ k votes, c.pool.lookup k = some votes → ∀ v ∈ votes,
    ∃ s ∈ offered, (authenticateVote K v s).isSome

structure Sound (K : Context) (sizeofVote : Nat) (offered : List EpochSnapshot) (c : CertAssembler) :
    Prop where
  accounted : Accounted sizeofVote c
  slotted : Slotted K c
  genuine : Genuine K offered c

section
variable {K : Context} {sizeofVote : Nat} {offered : List EpochSnapshot} {c c' : CertAssembler}
  {v w : SignedVote} {k : BucketKey} {votes : List SignedVote} {slot : SignerRoundVotes}

theorem total_keep_le {κ ν : Type} (f : ν → Nat) (p : κ → ν → Bool) (t : Table κ ν) :
    Table.total f (Table.keep p t) ≤ Table.total f t :=
  (filter_sublist.map _).sum_le_sum fun _ _ => Nat.zero_le _

theorem Accounted.recompute (h : Accounted sizeofVote c) (p : SignerRoundKey → SignerRoundVotes → Bool)
    (hr : c'.signerRounds = Table.keep p c.signerRounds) :
    Accounted sizeofVote (c'.recomputeAccounting sizeofVote) := by
  refine ⟨rfl, rfl, ?_, ?_⟩
  · show Table.total SignerRoundVotes.count c'.signerRounds ≤ maxPoolVotes
    rw [hr]
    exact (total_keep_le _ _ _).trans (h.count ▸ h.countLimit)
  · show Table.total (SignerRoundVotes.bytes sizeofVote) c'.signerRounds ≤ maxPoolBytes
    rw [hr]
    exact (total_keep_le _ _ _).trans (h.bytes ▸ h.bytesLimit)

theorem Accounted.prune (h : Accounted sizeofVote c) (keepFrom : Nat) :
    Accounted sizeofVote (c.pruneBelowEpoch sizeofVote keepFrom) :=
  h.recompute (fun k _ => keepFrom ≤ k.epoch) rfl

theorem Accounted.removeSignerEpoch (h : Accounted sizeofVote c) (epoch : Nat) (signer : Hash256) :
    Accounted sizeofVote (c.removeSignerEpoch K sizeofVote epoch signer) :=
  h.recompute (fun k _ => ¬ (k.epoch = epoch ∧ k.signer = signer)) rfl

theorem hasCapacity_iff : c.hasCapacity sizeofVote v ↔
    c.voteCount < maxPoolVotes ∧ voteBytes sizeofVote v ≤ maxPoolBytes - min c.poolBytes maxPoolBytes := by
  simp [CertAssembler.hasCapacity]

section
variable (h : Accounted sizeofVote c)
include h

theorem Accounted.storeFirst (hcap : c.hasCapacity sizeofVote v)
    (hfree : c.signerRounds.lookup (v.signerKey K) = none) :
    Accounted sizeofVote (c.storeFirst K sizeofVote v) := by
  obtain ⟨hcount, hbytes⟩ := hasCapacity_iff.mp hcap
  have hlimit := h.bytesLimit
  refine ⟨?_, ?_, ?_, ?_⟩
  · show c.voteCount + 1 = Table.total _ (c.signerRounds.insert _ _)
    rw [total_insert_of_fresh hfree, h.count]
    rfl
  · show c.poolBytes + voteBytes sizeofVote v = Table.total _ (c.signerRounds.insert _ _)
    rw [total_insert_of_fresh hfree, h.bytes]
    rfl
  · exact hcount
  · show c.poolBytes + voteBytes sizeofVote v ≤ maxPoolBytes
    omega

theorem Accounted.storeConflict (hcap : c.hasCapacity sizeofVote v)
    (hslot : c.signerRounds.lookup (v.signerKey K) = some slot) (hnone : slot.conflict = none) :
    Accounted sizeofVote (c.storeConflict K sizeofVote v slot) := by
  obtain ⟨hcount, hbytes⟩ := hasCapacity_iff.mp hcap
  have hlimit := h.bytesLimit
  have hold : slot.count = 1 ∧ slot.bytes sizeofVote = voteBytes sizeofVote slot.first := by
    simp [SignerRoundVotes.count, SignerRoundVotes.bytes, hnone]
  have hnew : ({ slot with conflict := some v } : SignerRoundVotes).count = 2 ∧
      ({ slot with conflict := some v } : SignerRoundVotes).bytes sizeofVote =
        voteBytes sizeofVote slot.first + voteBytes sizeofVote v := ⟨rfl, rfl⟩
  have h₁ : Table.total SignerRoundVotes.count _ + slot.count = _ :=
    total_insert_of_lookup (v := { slot with conflict := some v }) hslot
  have h₂ : Table.total (SignerRoundVotes.bytes sizeofVote) _ + slot.bytes sizeofVote = _ :=
    total_insert_of_lookup (v := { slot with conflict := some v }) hslot
  rw [hold.1, hnew.1, ← h.count] at h₁
  rw [hold.2, hnew.2, ← h.bytes] at h₂
  refine ⟨?_, ?_, hcount, ?_⟩
  · show c.voteCount + 1 = Table.total SignerRoundVotes.count
      (c.signerRounds.insert (v.signerKey K) { slot with conflict := some v })
    omega
  · show c.poolBytes + voteBytes sizeofVote v = Table.total (SignerRoundVotes.bytes sizeofVote)
      (c.signerRounds.insert (v.signerKey K) { slot with conflict := some v })
    omega
  · show c.poolBytes + voteBytes sizeofVote v ≤ maxPoolBytes
    omega

theorem Accounted.reclaim : Accounted sizeofVote (c.reclaim K sizeofVote v) := by
  unfold CertAssembler.reclaim
  cases hslot : c.signerRounds.lookup (v.signerKey K) with
  | none => exact h
  | some slot =>
    dsimp only
    split
    · exact h
    · next hconf =>
      have hnone : slot.conflict = none := by simpa using hconf
      have hcount := total_erase (f := SignerRoundVotes.count) (v.signerKey K) c.signerRounds
      have hbytes := total_erase (f := SignerRoundVotes.bytes sizeofVote) (v.signerKey K) c.signerRounds
      simp only [hslot, Option.map_some, Option.getD_some] at hcount hbytes
      have hrow : slot.count = 1 := by simp [SignerRoundVotes.count, hnone]
      have hrowb : slot.bytes sizeofVote = voteBytes sizeofVote slot.first := by
        simp [SignerRoundVotes.bytes, hnone]
      rw [hrow] at hcount
      rw [hrowb] at hbytes
      have h₁ := h.count
      have h₂ := h.bytes
      have h₃ := h.countLimit
      have h₄ := h.bytesLimit
      refine ⟨?_, ?_, ?_, ?_⟩ <;> dsimp only <;> omega

theorem Accounted.removeBucket (k : BucketKey) :
    Accounted sizeofVote (c.removeBucket K sizeofVote k) := by
  unfold CertAssembler.removeBucket
  split
  · exact h
  · next votes _ =>
    have : Accounted sizeofVote (votes.foldl (CertAssembler.reclaim K sizeofVote) c) :=
      List.foldlRecOn votes _ h fun _ h _ _ => h.reclaim
    exact ⟨this.count, this.bytes, this.countLimit, this.bytesLimit⟩

end

/-! ## Slots -/

theorem signerKey_inj (hv : v.bucketKey = k) (hw : w.bucketKey = k)
    (h : pubkeyCommit K v.pubkeyHex = pubkeyCommit K w.pubkeyHex) : v.signerKey K = w.signerKey K := by
  have hkey := hv.trans hw.symm
  simp only [SignedVote.bucketKey, BucketKey.mk.injEq] at hkey
  simp only [SignedVote.signerKey, SignerRoundKey.mk.injEq]
  exact ⟨hkey.1, hkey.2.1, hkey.2.2.1, hkey.2.2.2.1, h⟩

theorem Slotted.commits_nodup (h : Slotted K c) (hk : c.pool.lookup k = some votes) :
    (votes.map fun v => pubkeyCommit K v.pubkeyHex).Nodup := by
  refine List.Nodup.map_on (fun v hv w hw heq => ?_) (h.once k votes hk).of_map
  have hkey := signerKey_inj (h.slot k votes hk v hv).1 (h.slot k votes hk w hw).1 heq
  exact inj_on_of_nodup_map (h.once k votes hk) hv hw hkey

theorem Sound.restrict (h : Sound K sizeofVote offered c) (hacc : Accounted sizeofVote c')
    (hpool : ∀ k votes, c'.pool.lookup k = some votes → ∃ votes', c.pool.lookup k = some votes' ∧
      votes.Sublist votes' ∧ ∀ v ∈ votes, ∀ slot, c.signerRounds.lookup (v.signerKey K) = some slot →
        c'.signerRounds.lookup (v.signerKey K) = some slot) : Sound K sizeofVote offered c' := by
  refine ⟨hacc, ⟨fun k votes hk v hv => ?_, fun k votes hk => ?_⟩, fun k votes hk v hv => ?_⟩ <;>
    obtain ⟨votes', hk', hsub, hslots⟩ := hpool k votes hk
  · obtain ⟨hkey, slot, hslot, hfirst⟩ := h.slotted.slot k votes' hk' v (hsub.subset hv)
    exact ⟨hkey, slot, hslots v hv slot hslot, hfirst⟩
  · exact (h.slotted.once k votes' hk').sublist (hsub.map _)
  · exact h.genuine k votes' hk' v (hsub.subset hv)

theorem Sound.prune (h : Sound K sizeofVote offered c) (keepFrom : Nat) :
    Sound K sizeofVote offered (c.pruneBelowEpoch sizeofVote keepFrom) := by
  refine h.restrict (h.accounted.prune keepFrom) fun k votes hk => ?_
  obtain ⟨hk', hkeep⟩ := lookup_keep.mp hk
  refine ⟨votes, hk', List.Sublist.refl _, fun v hv slot hslot => ?_⟩
  have hepoch : v.epochId = k.epoch := congrArg BucketKey.epoch (h.slotted.slot k votes hk' v hv).1
  exact lookup_keep.mpr ⟨hslot, by simpa [SignedVote.signerKey, hepoch] using hkeep⟩

theorem Sound.removeSignerEpoch (h : Sound K sizeofVote offered c) (epoch : Nat) (signer : Hash256) :
    Sound K sizeofVote offered (c.removeSignerEpoch K sizeofVote epoch signer) := by
  refine h.restrict (h.accounted.removeSignerEpoch epoch signer) fun k votes hk => ?_
  obtain ⟨hk', -⟩ := lookup_keep.mp hk
  rw [lookup_mapRows] at hk'
  obtain ⟨votes', hvotes', rfl⟩ := Option.map_eq_some_iff.mp hk'
  have hsub : (if k.epoch = epoch then votes'.filter fun v => pubkeyCommit K v.pubkeyHex ≠ signer
      else votes').Sublist votes' := by
    split
    · exact filter_sublist
    · exact List.Sublist.refl _
  refine ⟨votes', hvotes', hsub, fun v hv slot hslot => lookup_keep.mpr ⟨hslot, ?_⟩⟩
  have hepoch : v.epochId = k.epoch :=
    congrArg BucketKey.epoch (h.slotted.slot k votes' hvotes' v (hsub.subset hv)).1
  refine decide_eq_true ?_
  rintro ⟨hve, hsigner⟩
  rw [if_pos (hepoch.symm.trans hve)] at hv
  have hne := of_decide_eq_true (mem_filter.mp hv).2
  exact hne hsigner

theorem foldl_reclaim (K : Context) (sizeofVote : Nat) (votes : List SignedVote) (c : CertAssembler) :
    (votes.foldl (CertAssembler.reclaim K sizeofVote) c).pool = c.pool ∧
      ∀ r, r ∉ votes.map (SignedVote.signerKey K) →
        (votes.foldl (CertAssembler.reclaim K sizeofVote) c).signerRounds.lookup r =
          c.signerRounds.lookup r := by
  induction votes generalizing c with
  | nil => exact ⟨rfl, fun _ _ => rfl⟩
  | cons v rest ih =>
    obtain ⟨hpool, hslots⟩ := ih (c.reclaim K sizeofVote v)
    have hone : (c.reclaim K sizeofVote v).pool = c.pool ∧ ∀ r, r ≠ v.signerKey K →
        (c.reclaim K sizeofVote v).signerRounds.lookup r = c.signerRounds.lookup r := by
      unfold CertAssembler.reclaim
      split
      · split
        · exact ⟨rfl, fun _ _ => rfl⟩
        · refine ⟨rfl, fun r hr => ?_⟩
          dsimp only
          rw [lookup_erase_ite, if_neg hr]
      · exact ⟨rfl, fun _ _ => rfl⟩
    refine ⟨hpool.trans hone.1, fun r hr => ?_⟩
    rw [map_cons, mem_cons, not_or] at hr
    exact (hslots r hr.2).trans (hone.2 r hr.1)

theorem Sound.removeBucket (h : Sound K sizeofVote offered c) (k : BucketKey) :
    Sound K sizeofVote offered (c.removeBucket K sizeofVote k) := by
  refine h.restrict (h.accounted.removeBucket k) fun k' votes' hk' => ?_
  unfold CertAssembler.removeBucket at hk' ⊢
  cases hk : c.pool.lookup k with
  | none =>
    simp only [hk] at hk' ⊢
    exact ⟨votes', hk', List.Sublist.refl _, fun _ _ _ hslot => hslot⟩
  | some votes =>
    simp only [hk] at hk' ⊢
    obtain ⟨hpool, hslots⟩ := foldl_reclaim K sizeofVote votes c
    rw [hpool] at hk'
    obtain ⟨hne, hk'⟩ := lookup_erase_eq_some.mp hk'
    refine ⟨votes', hk', List.Sublist.refl _, fun w hw slot hslot => ?_⟩
    rw [hslots _ fun hmem => ?_]
    · exact hslot
    · -- a slot shared with the removed bucket would make the votes one
      obtain ⟨v, hv, heq⟩ := mem_map.mp hmem
      obtain ⟨hvk, sv, hsv, hfirst⟩ := h.slotted.slot k votes hk v hv
      obtain ⟨hwk, sw, hsw, hfirst'⟩ := h.slotted.slot k' votes' hk' w hw
      rw [heq, hsw] at hsv
      cases hsv
      exact hne (hwk.symm.trans ((congrArg _ (hfirst'.symm.trans hfirst)).trans hvk))

/-! ## Offers -/

section
variable (h : Sound K sizeofVote offered c)
include h

theorem Sound.storeConflict (hcap : c.hasCapacity sizeofVote v)
    (hslot : c.signerRounds.lookup (v.signerKey K) = some slot) (hnone : slot.conflict = none) :
    Sound K sizeofVote offered (c.storeConflict K sizeofVote v slot) := by
  refine ⟨h.accounted.storeConflict hcap hslot hnone, ⟨fun k votes hk w hw => ?_, h.slotted.once⟩, h.genuine⟩
  obtain ⟨hkey, slot', hslot', hfirst⟩ := h.slotted.slot k votes hk w hw
  refine ⟨hkey, ?_⟩
  show ∃ slot'', (c.signerRounds.insert _ _).lookup _ = some slot'' ∧ _
  rw [lookup_insert_ite]
  split
  · next heq =>
    rw [heq, hslot] at hslot'
    cases hslot'
    exact ⟨_, rfl, hfirst⟩
  · exact ⟨slot', hslot', hfirst⟩

theorem Sound.storeFirst (hcap : c.hasCapacity sizeofVote v)
    (hfree : c.signerRounds.lookup (v.signerKey K) = none)
    (hv : ∃ s ∈ offered, (authenticateVote K v s).isSome) :
    Sound K sizeofVote offered (c.storeFirst K sizeofVote v) := by
  -- a vote with a slot is of another signer or round
  have hother : ∀ k votes, c.pool.lookup k = some votes → ∀ w ∈ votes, w.signerKey K ≠ v.signerKey K := by
    intro k votes hk w hw heq
    obtain ⟨-, slot, hslot, -⟩ := h.slotted.slot k votes hk w hw
    rw [heq, hfree] at hslot
    cases hslot
  have hold {P : SignedVote → Prop} (hP : ∀ votes, c.pool.lookup v.bucketKey = some votes → ∀ w ∈ votes, P w) :
      ∀ w ∈ (c.pool.lookup v.bucketKey).getD [], P w := by
    cases hl : c.pool.lookup v.bucketKey with
    | none => simp
    | some votes => exact hP votes hl
  have hbucket {P : SignedVote → Prop} (hP : ∀ votes, c.pool.lookup v.bucketKey = some votes → ∀ w ∈ votes, P w)
      (hnew : P v) : ∀ w ∈ (c.pool.lookup v.bucketKey).getD [] ++ [v], P w :=
    forall_mem_append.mpr ⟨hold hP, forall_mem_singleton.mpr hnew⟩
  have hstay : ∀ k votes, c.pool.lookup k = some votes → ∀ w ∈ votes, w.bucketKey = k ∧
      ∃ slot, (c.storeFirst K sizeofVote v).signerRounds.lookup (w.signerKey K) = some slot ∧
        slot.first = w := by
    intro k votes hk w hw
    obtain ⟨hkey, slot, hslot, hfirst⟩ := h.slotted.slot k votes hk w hw
    exact ⟨hkey, slot, (AList.lookup_insert_ne (hother k votes hk w hw)).trans hslot, hfirst⟩
  refine ⟨h.accounted.storeFirst hcap hfree, ⟨forall_insert hstay (hbucket (hstay _)
    ⟨rfl, ⟨v, none⟩, AList.lookup_insert _, rfl⟩), forall_insert h.slotted.once ?_⟩,
    forall_insert h.genuine (hbucket (h.genuine _) hv)⟩
  rw [map_append, map_singleton]
  refine List.Nodup.append ?_ (nodup_singleton _) fun r hr hrv => ?_
  · cases hl : c.pool.lookup v.bucketKey with
    | none => exact nodup_nil
    | some votes => exact h.slotted.once _ votes hl
  · obtain ⟨w, hw, rfl⟩ := mem_map.mp hr
    exact hold (hother _) w hw (mem_singleton.mp hrv)

theorem Sound.enterEpoch (v : SignedVote) :
    Sound K sizeofVote offered (c.enterEpoch sizeofVote v) := by
  unfold CertAssembler.enterEpoch
  split
  · have h' : Sound K sizeofVote offered { c with highestEpoch := v.epochId, haveEpoch := true } :=
      ⟨⟨h.accounted.count, h.accounted.bytes, h.accounted.countLimit, h.accounted.bytesLimit⟩,
        ⟨h.slotted.slot, h.slotted.once⟩, h.genuine⟩
    exact h'.prune _
  · exact h

theorem Sound.store (hv : ∃ s ∈ offered, (authenticateVote K v s).isSome) :
    Sound K sizeofVote offered (c.storeAuthenticatedVote K sizeofVote v).2 := by
  have he := h.enterEpoch v
  unfold CertAssembler.storeAuthenticatedVote CertAssembler.storeInEpoch
  split
  · exact he
  · split
    · next slot hslot =>
      split
      · exact he
      · next hgo =>
        simp only [Bool.or_eq_true, not_or, Bool.not_eq_true', Bool.not_eq_false] at hgo
        obtain ⟨⟨-, hconf⟩, hcap⟩ := hgo
        exact he.storeConflict (by simpa using hcap) hslot (by simpa using hconf)
    · next hfree =>
      split
      · exact he
      · next hcap => exact he.storeFirst (by simpa using hcap) hfree hv

end

def offeredIn (calls : List AssemblerCall) : List EpochSnapshot :=
  calls.filterMap fun
    | .offer _ s => some s
    | _ => none

variable {s : EpochSnapshot}

theorem authenticateVote_vote {a : AuthenticatedVote} (h : authenticateVote K v s = some a) :
    a.vote = v := by
  simp only [authenticateVote, bind_eq_some, Option.guard_eq_some'] at h
  obtain ⟨-, -, i, -, member, -, h⟩ := h
  unfold authenticateVoteForMember at h
  split at h
  · cases h
    rfl
  · cases h

theorem Sound.run (h : Sound K sizeofVote offered c) (call : AssemblerCall)
    (hoffer : ∀ v s, call = .offer v s → s ∈ offered) :
    Sound K sizeofVote offered (call.run K sizeofVote c) := by
  cases call with
  | offer v s =>
    show Sound K sizeofVote offered (c.offer K sizeofVote v s).2
    unfold CertAssembler.offer
    cases ha : authenticateVote K v s with
    | none => exact h
    | some a =>
      dsimp only
      unfold CertAssembler.offerAuthenticated
      split
      · rw [authenticateVote_vote ha]
        exact h.store ⟨s, hoffer v s rfl, by rw [ha]; rfl⟩
      · exact h
  | remove qc => exact h.removeBucket _
  | removeFinalizedClaim qc =>
    show Sound K sizeofVote offered (c.removeFinalizedClaim K sizeofVote qc)
    unfold CertAssembler.removeFinalizedClaim
    split
    · exact (h.removeBucket _).removeBucket _
    · exact h
  | removeSignerEpoch epoch signer => exact h.removeSignerEpoch epoch signer
  | prune keepFrom => exact h.prune keepFrom

theorem sound_empty : Sound K sizeofVote offered .empty := by
  have hnone : ∀ k : BucketKey, (CertAssembler.empty).pool.lookup k = none := fun k => AList.lookup_empty k
  refine ⟨⟨rfl, rfl, Nat.zero_le _, Nat.zero_le _⟩, ⟨fun k votes hk => ?_, fun k votes hk => ?_⟩,
    fun k votes hk => ?_⟩ <;> rw [hnone] at hk <;> cases hk

theorem sound_run (K : Context) (sizeofVote : Nat) (calls : List AssemblerCall) :
    Sound K sizeofVote (offeredIn calls) (assemblerRun K sizeofVote calls) := by
  refine List.foldlRecOn calls _ sound_empty fun c h call hmem => h.run call fun v s heq => ?_
  exact mem_filterMap.mpr ⟨call, hmem, by rw [heq]⟩

/-! ## Bitmaps -/

theorem bitSet_replicate (n i : Nat) : bitSet (List.replicate n 0) i = false := by
  unfold bitSet
  rw [getD_eq_getElem?_getD, List.getElem?_replicate]
  split <;> simp

variable {bitmap : Bytes} {i : Nat}

theorem bitSet_setBit {j : Nat} (h : bitSet (setBit bitmap i) j) :
    j = i ∨ bitSet bitmap j := by
  unfold bitSet setBit at *
  rw [getD_eq_getElem?_getD] at h ⊢
  by_cases hbyte : i / 8 = j / 8
  · rw [hbyte, List.getElem?_modify_eq] at h
    cases hget : bitmap[j / 8]? with
    | none => simp [hget] at h
    | some b =>
      simp only [hget, Option.map_eq_map, Option.map_some, Option.getD_some, UInt8.toNat_or,
        Nat.testBit_or, Bool.or_eq_true] at h ⊢
      rcases h with h | h
      · exact .inr h
      · have hpow : (UInt8.ofNat (2 ^ (i % 8))).toNat = 2 ^ (i % 8) := by
          have : 2 ^ (i % 8) ≤ 2 ^ 7 := Nat.pow_le_pow_right (by omega) (by omega)
          rw [UInt8.toNat_ofNat']
          exact Nat.mod_eq_of_lt (by omega)
        rw [hpow, Nat.testBit_two_pow] at h
        have := of_decide_eq_true h
        omega
  · simp only [List.getElem?_modify, hbyte, if_false] at h
    exact .inr (by simpa using h)

theorem bitSet_foldlM {start : Bytes} (h : votes.foldlM (markSigner K s) start = some bitmap)
    (hi : bitSet bitmap i) :
    bitSet start i ∨ ∃ v ∈ votes, signerIndex s (pubkeyCommit K v.pubkeyHex) = some i := by
  induction votes generalizing start with
  | nil =>
    cases h
    exact .inl hi
  | cons v rest ih =>
    rw [foldlM_cons, bind_eq_some] at h
    obtain ⟨mid, hmid, hrest⟩ := h
    rcases ih hrest with hbit | ⟨w, hw, hidx⟩
    · simp only [markSigner, bind_eq_some] at hmid
      obtain ⟨j, hj, hmid⟩ := hmid
      split_ifs at hmid
      cases hmid
      rcases bitSet_setBit hbit with rfl | hbit
      · exact .inr ⟨v, mem_cons_self, hj⟩
      · exact .inl hbit
    · exact .inr ⟨w, mem_cons_of_mem _ hw, hidx⟩

/-! ## Certificates -/

theorem signerIndex_commit {commit : Hash256} (h : signerIndex s commit = some i) :
    ∃ e, s.entries[i]? = some e ∧ e.pubkeyCommit = commit := by
  unfold signerIndex at h
  dsimp only at h
  split at h
  · next e he =>
    split at h
    · next hcommit =>
      cases h
      exact ⟨e, he, hcommit⟩
    · cases h
  · cases h

theorem authenticateVote_valid {e : SnapshotEntry} (h : (authenticateVote K v s).isSome)
    (hi : signerIndex s (pubkeyCommit K v.pubkeyHex) = some i) (he : s.entries[i]? = some e) :
    signatureValid K (voteMessage K v) e v.signature := by
  obtain ⟨a, ha⟩ := Option.isSome_iff_exists.mp h
  simp only [authenticateVote, bind_eq_some, Option.guard_eq_some', hi, Option.some.injEq,
    exists_eq_left', he] at ha
  obtain ⟨-, hclaim, hauth⟩ := ha
  unfold authenticateVoteForMember at hauth
  split_ifs at hauth
  next hok =>
  simp only [Bool.and_eq_true, decide_eq_true_eq] at hok
  obtain ⟨⟨⟨hwf, -⟩, hhex⟩, hver⟩ := hok
  simp only [voteClaimWellFormed, Bool.and_eq_true, decide_eq_true_eq] at hwf
  simp only [signatureValid, Bool.and_eq_true, decide_eq_true_eq]
  exact ⟨hwf.2, hhex ▸ hver⟩

theorem authenticateVote_claim (h : (authenticateVote K v s).isSome) :
    v.epochId = s.epochId ∧ v.setRoot = s.root := by
  obtain ⟨a, ha⟩ := Option.isSome_iff_exists.mp h
  simp only [authenticateVote, bind_eq_some, Option.guard_eq_some'] at ha
  obtain ⟨-, hclaim, -⟩ := ha
  simp only [voteClaimWellFormed, Bool.and_eq_true, decide_eq_true_eq] at hclaim
  obtain ⟨⟨⟨⟨⟨⟨hepoch, hroot⟩, -⟩, -⟩, -⟩, -⟩, -⟩ := hclaim
  exact ⟨hepoch, hroot⟩

variable {entries : List SnapshotEntry}

theorem checkSigs_collectSigs {message : Bytes} {start : Nat}
    (h : ∀ j e, entries[j]? = some e → bitSet bitmap (start + j) →
      (∃ v ∈ votes, pubkeyCommit K v.pubkeyHex = e.pubkeyCommit) ∧
      ∀ v ∈ votes, pubkeyCommit K v.pubkeyHex = e.pubkeyCommit →
        signatureValid K message e v.signature = true) :
    checkSigs K message bitmap start entries (collectSigs K bitmap votes start entries) := by
  induction entries generalizing start with
  | nil => rfl
  | cons e rest ih =>
    have hrest : checkSigs K message bitmap (start + 1) rest
        (collectSigs K bitmap votes (start + 1) rest) = true := ih fun j e' he' hbit => by
      refine h (j + 1) e' (by simpa using he') ?_
      rwa [show start + (j + 1) = start + 1 + j by omega]
    unfold collectSigs checkSigs
    split
    · next hbit =>
      obtain ⟨⟨w, hw, hwc⟩, hvalid⟩ := h 0 e rfl hbit
      have hfound : (votes.find? fun v => pubkeyCommit K v.pubkeyHex = e.pubkeyCommit).isSome = true :=
        List.find?_isSome.mpr ⟨w, hw, decide_eq_true hwc⟩
      obtain ⟨v, hfind⟩ := Option.isSome_iff_exists.mp hfound
      have hmem := mem_of_find?_eq_some hfind
      have hcommit : pubkeyCommit K v.pubkeyHex = e.pubkeyCommit := by simpa using List.find?_some hfind
      simp only [hfind, Option.map_some, Option.toList_some, singleton_append, Bool.and_eq_true]
      exact ⟨hvalid v hmem hcommit, hrest⟩
    · exact hrest

/-- A certificate assembled from a bucket of authenticated votes. -/
structure Assembled (K : Context) (s : EpochSnapshot) (votes : List SignedVote) (qc : QuorumCert) : Prop where
  wellFormed : qcWellFormed K qc s = true
  claim : ∀ v ∈ votes, v.bucketKey = qc.bucketKey qc.phase
  marked : ∀ i, bitSet qc.bitmap i →
    ∃ v ∈ votes, signerIndex s (pubkeyCommit K v.pubkeyHex) = some i

variable {qc : QuorumCert}

theorem assembleVerifiedBucket_eq_some (h : assembleVerifiedBucket K k votes s = some qc)
    (hclaim : ∀ v ∈ votes, v.bucketKey = k) : Assembled K s votes qc := by
  simp only [assembleVerifiedBucket, bind_eq_some, Option.guard_eq_some', pure_eq_some] at h
  obtain ⟨-, -, bitmap, hbitmap, -, hwf, rfl⟩ := h
  refine ⟨hwf, hclaim, fun i hi => ?_⟩
  rcases bitSet_foldlM hbitmap hi with h | h
  · rw [bitSet_replicate] at h
    cases h
  · exact h

variable {sigs : List Bytes}

theorem tryAssemble_eq_some {phase : Option Phase} {accept : QuorumCert × List Bytes → Bool}
    (h : tryAssemble K s phase accept c = some (qc, sigs)) :
    ∃ k votes, c.pool.lookup k = some votes ∧ k.epoch = s.epochId ∧
      assembleVerifiedBucket K k votes s = some qc ∧ sigs = collectSigs K qc.bitmap votes 0 s.entries := by
  unfold tryAssemble at h
  obtain ⟨row, hrow, hbucket⟩ := exists_of_findSome?_eq_some h
  simp only [assembleBucket, bind_eq_some, Option.guard_eq_some', pure_eq_some,
    Prod.mk.injEq] at hbucket
  obtain ⟨-, ⟨hepoch, -⟩, qc', hqc, -, -, rfl, rfl⟩ := hbucket
  exact ⟨row.1, row.2, lookup_of_mem (mem_mergeSort.mp hrow), hepoch, hqc, rfl⟩

theorem Assembled.accepted (h : Assembled K s votes qc)
    (hauth : ∀ v ∈ votes, (authenticateVote K v s).isSome) :
    certAccepted K qc (collectSigs K qc.bitmap votes 0 s.entries) s ∧ qc.setRoot = s.root ∧
      qc.weight = bitmapWeight s qc.bitmap := by
  have hwf := h.wellFormed
  simp only [qcWellFormed, Bool.and_eq_true, decide_eq_true_eq] at hwf
  obtain ⟨⟨⟨⟨⟨⟨⟨⟨⟨⟨hs, hepoch⟩, hroot⟩, hsched⟩, htarget⟩, hround⟩, hsource⟩, hlen⟩, hextra⟩, hweight⟩,
    hsuper⟩ := hwf
  have hsigs : checkSigs K (certMessage K qc s) qc.bitmap 0 s.entries
      (collectSigs K qc.bitmap votes 0 s.entries) = true := by
    refine checkSigs_collectSigs fun j e he hbit => ?_
    rw [Nat.zero_add] at hbit
    obtain ⟨v, hv, hidx⟩ := h.marked j hbit
    obtain ⟨e', he', hcommit⟩ := signerIndex_commit hidx
    cases he.symm.trans he'
    refine ⟨⟨v, hv, hcommit.symm⟩, fun w hw hwc => ?_⟩
    have hwidx : signerIndex s (pubkeyCommit K w.pubkeyHex) = some j := by
      rw [hwc]
      exact signerIndex_entry hs he
    have hmsg : voteMessage K w = certMessage K qc s := by
      have hkey := h.claim w hw
      simp only [SignedVote.bucketKey, QuorumCert.bucketKey, BucketKey.mk.injEq] at hkey
      obtain ⟨h₁, h₂, h₃, h₄, h₅, h₆⟩ := hkey
      rw [voteMessage, certMessage, h₁, h₂, h₃, h₄, h₅, h₆, hroot]
    exact hmsg ▸ authenticateVote_valid (hauth w hw) hwidx he
  refine ⟨?_, hroot, hweight.symm⟩
  simp only [certAccepted, Bool.and_eq_true, decide_eq_true_eq]
  exact ⟨⟨⟨⟨⟨⟨⟨⟨⟨hs, hepoch⟩, htarget⟩, hround⟩, hlen⟩, hsched⟩, hsource⟩, hextra⟩, hsigs⟩,
    hweight.symm ▸ hsuper⟩

/-! ## The carried form -/

def QuorumCert.carried (qc : QuorumCert) : QuorumCert := { qc with setRoot := .zero, weight := 0 }

/-- `FinalityQcWireSizeFor` with the signatures a certificate has. -/
def qcWireSize (bitmapLength sigCount : Nat) : Nat := 115 + bitmapLength + sigMaxBytes * sigCount

theorem flatMap_id_length (h : ∀ sig ∈ sigs, sig.length = sigMaxBytes) :
    (sigs.flatMap id).length = sigMaxBytes * sigs.length := by
  have hmap : sigs.map (fun sig => (id sig).length) = sigs.map fun _ => sigMaxBytes := map_congr_left h
  rw [length_flatMap, hmap, map_const', sum_replicate, smul_eq_mul, Nat.mul_comm]

theorem qcBody_length (h : ∀ sig ∈ sigs, sig.length = sigMaxBytes) :
    (finQcBinaryPrefix ++ qcBody qc sigs).length = qcWireSize qc.bitmap.length sigs.length := by
  have hpre : finQcBinaryPrefix.length = 18 := rfl
  simp only [qcBody, length_append, putLE_length, flatMap_id_length h, qc.source.hash.size,
    qc.target.hash.size, hpre, qcWireSize]
  omega

theorem decodeQc_qcBody (hsigs : ∀ sig ∈ sigs, sig.length = sigMaxBytes)
    (hepoch : epochOf qc.target.height.toNat = qc.epochId)
    (hround : qc.round = checkpointRound qc.target.height.toNat)
    (hsched : isScheduledCheckpoint qc.target.height.toNat)
    (hsource : sourceRefWellFormed qc.source qc.target) (hbitmap : qc.bitmap ≠ [])
    (hblen : qc.bitmap.length < 256 ^ 2) (hne : sigs ≠ []) (hslen : sigs.length < 256 ^ 2)
    (hsize : (finQcBinaryPrefix ++ qcBody qc sigs).length ≤ maxFinalityQcBytes) :
    decodeQc (finQcBinaryPrefix ++ qcBody qc sigs) = some (qc.carried, sigs) := by
  have hphase : Phase.ofCode qc.phase.code = some qc.phase := by cases qc.phase <;> rfl
  have hcode : qc.phase.code < 256 ^ 1 := by cases qc.phase <;> decide
  have hepoch' : qc.epochId < 256 ^ 8 := by
    rw [← hepoch, epochOf]
    exact lt_of_le_of_lt (Nat.div_le_self _ _) qc.target.height.toNat_lt
  have hround' : qc.round < 256 ^ 4 := by
    rw [hround, checkpointRound]
    refine lt_of_le_of_lt (Nat.div_le_self _ _) (lt_of_lt_of_le (Nat.mod_lt _ (by decide)) (by decide))
  have hread : readMany (takeN sigMaxBytes) sigs.length (sigs.flatMap id ++ []) = some (sigs, []) :=
    readMany_flatMap (fun sig hsig rest => (hsigs sig hsig) ▸ takeN_append sig rest) []
  rw [append_nil] at hread
  have hb0 : qc.bitmap.length ≠ 0 := fun h => hbitmap (eq_nil_of_length_eq_zero h)
  have hs0 : sigs.length ≠ 0 := fun h => hne (eq_nil_of_length_eq_zero h)
  have hhead : (finQcBinaryPrefix ++ qcBody qc sigs).length ≤ maxFinalityQcBytes ∧
      (finQcBinaryPrefix ++ qcBody qc sigs).take finQcBinaryPrefix.length = finQcBinaryPrefix :=
    ⟨hsize, take_left⟩
  have hlast : sourceRefWellFormed qc.source qc.target ∧
      isScheduledCheckpoint qc.target.height.toNat ∧ epochOf qc.target.height.toNat = qc.epochId ∧
      qc.round = checkpointRound qc.target.height.toNat := ⟨hsource, hsched, hepoch, hround⟩
  have hsh : qc.source.height.toNat < 256 ^ 8 := qc.source.height.toNat_lt
  have hth : qc.target.height.toNat < 256 ^ 8 := qc.target.height.toNat_lt
  unfold decodeQc
  rw [drop_left, qcBody]
  -- one field after the other
  refine bind_step (guard_pos hhead) ?_
  refine bind_step (readLE_putLE hepoch' _) ?_
  refine bind_step (readLE_putLE hcode _) ?_
  refine bind_step hphase ?_
  refine bind_step (readLE_putLE hround' _) ?_
  refine bind_step (readLE_putLE hsh _) ?_
  refine bind_step (readHash_bytes _ _) ?_
  refine bind_step (readLE_putLE hth _) ?_
  refine bind_step (readHash_bytes _ _) ?_
  refine bind_step (readLE_putLE hblen _) ?_
  refine bind_step (guard_pos hb0) ?_
  refine bind_step (takeN_append _ _) ?_
  refine bind_step (readLE_putLE hslen _) ?_
  refine bind_step (guard_pos hs0) ?_
  refine bind_step hread ?_
  refine bind_step (guard_pos rfl) ?_
  simp only [UInt64.ofNat_toNat]
  exact (bind_of_eq_some (guard_pos hlast) _).trans rfl

theorem encodeQc_eq (hsigs : ∀ sig ∈ sigs, sig.length = sigMaxBytes) (hbitmap : qc.bitmap ≠ [])
    (hne : sigs ≠ []) :
    encodeQc qc sigs = if qc.bitmap.length ≤ 65535 ∧
        qcWireSize qc.bitmap.length sigs.length ≤ maxFinalityQcBytes then finQcBinaryPrefix ++ qcBody qc sigs
      else [] := by
  have hany : sigs.any (fun sig => sig.length ≠ sigMaxBytes) = false := by
    simpa [any_eq_false] using hsigs
  have hcount : qcWireSize qc.bitmap.length sigs.length ≤ maxFinalityQcBytes → ¬ 65535 < sigs.length := by
    simp only [qcWireSize, sigMaxBytes, maxFinalityQcBytes]
    omega
  unfold encodeQc
  rw [qcBody_length hsigs]
  simp only [hbitmap, hne, hany, Bool.false_eq_true, false_or, or_false]
  split_ifs with h₁ h₂ h₃ h₄ h₅
  · exact absurd (h₁.resolve_right (hcount h₂.2)) (by omega)
  · rfl
  · exact absurd h₃ (by omega)
  · rfl
  · rfl
  · exact absurd ⟨by omega, by omega⟩ h₅

theorem decodeQc_nil : decodeQc [] = none := by
  have hno : ¬ (([] : Bytes).length ≤ maxFinalityQcBytes ∧
      ([] : Bytes).take finQcBinaryPrefix.length = finQcBinaryPrefix) := by
    rintro ⟨-, h⟩
    rw [take_nil] at h
    cases h
  have hguard : (guard (([] : Bytes).length ≤ maxFinalityQcBytes ∧
      ([] : Bytes).take finQcBinaryPrefix.length = finQcBinaryPrefix) : Option Unit) = none := if_neg hno
  rw [decodeQc, hguard]
  rfl

theorem mem_collectSigs {sig : Bytes} {start : Nat}
    (h : sig ∈ collectSigs K bitmap votes start entries) : ∃ v ∈ votes, v.signature = sig := by
  induction entries generalizing start with
  | nil => cases h
  | cons e rest ih =>
    unfold collectSigs at h
    split at h
    · rcases mem_append.mp h with h | h
      · rw [Option.mem_toList, Option.map_eq_some_iff] at h
        obtain ⟨v, hv, rfl⟩ := h
        exact ⟨v, mem_of_find?_eq_some hv, rfl⟩
      · exact ih h
    · exact ih h

/-- An assembled certificate can be carried exactly when its bitmap and its signatures fit. -/
theorem Assembled.carried_iff (h : Assembled K s votes qc)
    (hauth : ∀ v ∈ votes, (authenticateVote K v s).isSome) :
    decodeQc (encodeQc qc (collectSigs K qc.bitmap votes 0 s.entries)) =
        some (qc.carried, collectSigs K qc.bitmap votes 0 s.entries) ↔
      qc.bitmap.length ≤ 65535 ∧
        qcWireSize qc.bitmap.length (collectSigs K qc.bitmap votes 0 s.entries).length ≤
          maxFinalityQcBytes := by
  have hacc := (h.accepted hauth).1
  generalize hcs : collectSigs K qc.bitmap votes 0 s.entries = sigs at hacc ⊢
  simp only [certAccepted, Bool.and_eq_true, decide_eq_true_eq] at hacc
  obtain ⟨⟨⟨⟨⟨⟨⟨⟨⟨-, -⟩, htarget⟩, hround⟩, -⟩, hsched⟩, hsource⟩, -⟩, hcheck⟩, hsuper⟩ := hacc
  have hsigs : ∀ sig ∈ sigs, sig.length = sigMaxBytes := by
    intro sig hsig
    obtain ⟨v, hv, rfl⟩ := mem_collectSigs (hcs ▸ hsig)
    obtain ⟨a, ha⟩ := Option.isSome_iff_exists.mp (hauth v hv)
    simp only [authenticateVote, bind_eq_some, Option.guard_eq_some'] at ha
    obtain ⟨-, hclaim, -⟩ := ha
    simp only [voteClaimWellFormed, Bool.and_eq_true, decide_eq_true_eq] at hclaim
    exact hclaim.2
  -- a supermajority has a signer
  obtain ⟨i, hi⟩ : (s.signers qc.bitmap).Nonempty := by
    by_contra hempty
    rw [Finset.not_nonempty_iff_eq_empty] at hempty
    simp [isSupermajority, bitmapWeight, hempty] at hsuper
  have hi' := hi
  simp only [EpochSnapshot.signers, Finset.mem_filter, Finset.mem_range] at hi'
  have hbitmap : qc.bitmap ≠ [] := by
    intro hnil
    rw [hnil] at hi'
    simp [bitSet] at hi'
  have hne : sigs ≠ [] := by
    rintro rfl
    obtain ⟨sig, hsig, -⟩ := checkSigs_get hcheck (List.getElem?_eq_getElem hi'.1) (by simpa using hi'.2)
    simp at hsig
  rw [encodeQc_eq hsigs hbitmap hne]
  split
  · next hfits =>
    refine ⟨fun _ => hfits, fun _ => decodeQc_qcBody hsigs htarget hround hsched hsource hbitmap ?_ hne ?_ ?_⟩
    · omega
    · have := hfits.2
      simp only [qcWireSize, sigMaxBytes, maxFinalityQcBytes] at this
      omega
    · rw [qcBody_length hsigs]
      exact hfits.2
  · next hno =>
    rw [decodeQc_nil]
    exact ⟨fun heq => absurd heq (by simp), fun hfits => absurd hfits hno⟩

end

/-- In every state the assembler reaches no bucket holds two votes of a signer, the counters are the totals of
the slots and stay within their limits, and a certificate assembled against the snapshot of its votes is
accepted, unchanged, by the verification; the carried form gives it back without the set root and the weight
exactly when it fits. -/
theorem assembler_run_sound (K : Context) (sizeofVote : Nat) (calls : List AssemblerCall) :
    (∀ k votes, (assemblerRun K sizeofVote calls).pool.lookup k = some votes →
      (votes.map fun v => pubkeyCommit K v.pubkeyHex).Nodup) ∧
    Accounted sizeofVote (assemblerRun K sizeofVote calls) ∧
    ∀ s phase accept qc sigs,
      (∀ s' ∈ offeredIn calls, s'.epochId = s.epochId → s'.root = s.root → s' = s) →
      tryAssemble K s phase accept (assemblerRun K sizeofVote calls) = some (qc, sigs) →
      certAccepted K qc sigs s ∧ qc.setRoot = s.root ∧ qc.weight = bitmapWeight s qc.bitmap ∧
        (decodeQc (encodeQc qc sigs) = some (qc.carried, sigs) ↔
          qc.bitmap.length ≤ 65535 ∧ qcWireSize qc.bitmap.length sigs.length ≤ maxFinalityQcBytes) := by
  have hsound := sound_run K sizeofVote calls
  refine ⟨fun k votes hk => hsound.slotted.commits_nodup hk, hsound.accounted, ?_⟩
  intro s phase accept qc sigs hsame hqc
  obtain ⟨k, votes, hk, hepoch, hbucket, rfl⟩ := tryAssemble_eq_some hqc
  have hclaim : ∀ v ∈ votes, v.bucketKey = k := fun v hv => (hsound.slotted.slot k votes hk v hv).1
  have hasm := assembleVerifiedBucket_eq_some hbucket hclaim
  have hauth : ∀ v ∈ votes, (authenticateVote K v s).isSome := by
    intro v hv
    obtain ⟨s', hs', hok⟩ := hsound.genuine k votes hk v hv
    obtain ⟨he, hr⟩ := authenticateVote_claim hok
    have hkey := hasm.claim v hv
    simp only [SignedVote.bucketKey, QuorumCert.bucketKey, BucketKey.mk.injEq] at hkey
    have hwf := hasm.wellFormed
    simp only [qcWellFormed, Bool.and_eq_true, decide_eq_true_eq] at hwf
    obtain ⟨⟨⟨⟨⟨⟨⟨⟨⟨⟨-, hqe⟩, hqr⟩, -⟩, -⟩, -⟩, -⟩, -⟩, -⟩, -⟩, -⟩ := hwf
    rwa [hsame s' hs' (he.symm.trans (hkey.1.trans hqe)) (hr.symm.trans (hkey.2.1.trans hqr))] at hok
  obtain ⟨hacc, hroot, hweight⟩ := hasm.accepted hauth
  exact ⟨hacc, hroot, hweight, hasm.carried_iff hauth⟩

/-! ### Five votes -/

def sevenBallot (i : Nat) : SignedVote :=
  (sevenCert .precommit).vote sevenSnapshot (sevenMember i).pubkeyHex
    (fillSignature (certMessage sevenContext (sevenCert .precommit) sevenSnapshot))

/-- The votes of five members, one of them offered twice. -/
def sevenCalls : List AssemblerCall := [0, 1, 1, 2, 3, 4].map fun i => .offer (sevenBallot i) sevenSnapshot

def sevenAssembled : QuorumCert := { sevenCert .precommit with weight := 5 * bondPerKeyUnits }

theorem sevenCalls_pool : (assemblerRun sevenContext 0 sevenCalls).pool.entries =
      [⟨(sevenBallot 0).bucketKey, (List.range 5).map sevenBallot⟩] ∧
    assembleBucket sevenContext sevenSnapshot none (fun _ => true) (sevenBallot 0).bucketKey
      ((List.range 5).map sevenBallot) =
      some (sevenAssembled, (List.range 5).map fun i => (sevenBallot i).signature) := by
  decide +kernel

theorem sevenCalls_assembles : tryAssemble sevenContext sevenSnapshot none (fun _ => true)
    (assemblerRun sevenContext 0 sevenCalls) =
      some (sevenAssembled, (List.range 5).map fun i => (sevenBallot i).signature) := by
  unfold tryAssemble
  rw [sevenCalls_pool.1, mergeSort_singleton, List.findSome?_cons, sevenCalls_pool.2]

/-- The carried form of an assembled certificate loses its weight. -/
theorem carried_certificate_differs : ∃ qc sigs,
    tryAssemble sevenContext sevenSnapshot none (fun _ => true) (assemblerRun sevenContext 0 sevenCalls) =
      some (qc, sigs) ∧ decodeQc (encodeQc qc sigs) ≠ some (qc, sigs) := by
  refine ⟨_, _, sevenCalls_assembles, ?_⟩
  decide +kernel

theorem assembler_run_sound_seven :
    certAccepted sevenContext sevenAssembled ((List.range 5).map fun i => (sevenBallot i).signature)
      sevenSnapshot = true := by
  have h := (assembler_run_sound sevenContext 0 sevenCalls).2.2 sevenSnapshot none (fun _ => true) _ _
    (fun s' hs' _ _ => ?_) sevenCalls_assembles
  · exact h.1
  · simpa [offeredIn, sevenCalls] using hs'

end Veld.Finality
