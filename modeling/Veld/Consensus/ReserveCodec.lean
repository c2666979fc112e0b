import Veld.Consensus.ReserveTransition

/-!
# RTP1 is canonical

Every byte string that `decodeProof` accepts is the encoding of the claim it decodes to, so no two byte strings
decode to one claim; and a claim that has an encoding is decoded back from it.
-/

namespace Veld.Reserve

open Wire Btcspv Option

variable {sha256 : Bytes → Hash256}

/-! ## Fields -/

theorem Operation.code_of_ofCode {code : Nat} {op : Operation} (h : Operation.ofCode code = some op) :
    code = op.code := by
  unfold Operation.ofCode at h
  split at h <;> cases h <;> rfl

variable {bs rest : Bytes}

theorem readBranch_eq_put {dirs : Nat} {branch : List Hash256}
    (h : readBranch bs = some ((dirs, branch), rest)) :
    bs = putLE 4 dirs ++ (putLE 1 branch.length ++ (branch.flatMap Hash256.bytes ++ rest)) ∧
      dirs ≤ uint32Max ∧ branch.length ≤ 32 ∧
      (branch.length < 32 → dirs >>> branch.length = 0) := by
  simp only [readBranch, bind_eq_some, Prod.exists, guard_eq_some', pure_eq_some,
    Prod.mk.injEq] at h
  obtain ⟨dirs', r1, hdirs, len, r2, hlen, _, ⟨hle, hbits⟩, branch', r3, hmany, ⟨rfl, rfl⟩, rfl⟩ := h
  have hbound := readLE_lt hdirs
  obtain ⟨hr2, rfl⟩ := readMany_eq_flatMap (fun h _ _ => readHash_eq_put (h := h)) hmany
  refine ⟨?_, by unfold uint32Max; omega, hle, hbits⟩
  rw [readLE_eq_put hdirs, readLE_eq_put hlen, hr2]

theorem readParents_eq_put {count total : Nat} {ps : List Bytes}
    (h : readParents count total bs = some (ps, rest)) :
    bs = ps.flatMap (fun p => putLE 4 p.length ++ p) ++ rest ∧ ps.length = count := by
  induction count generalizing total bs ps rest with
  | zero =>
    simp only [readParents, Option.some.injEq, Prod.mk.injEq] at h
    obtain ⟨rfl, rfl⟩ := h
    simp
  | succ count ih =>
    simp only [readParents, bind_eq_some, Prod.exists, guard_eq_some', pure_eq_some,
      Prod.mk.injEq] at h
    obtain ⟨size, r1, hsize, _, -, parent, r2, htake, ps', r3, hrest, rfl, rfl⟩ := h
    obtain ⟨hr2, hcount⟩ := ih hrest
    obtain ⟨hr1, rfl⟩ := takeN_eq_some.mp htake
    refine ⟨?_, by simp [hcount]⟩
    rw [readLE_eq_put hsize, hr1, hr2, List.flatMap_cons]
    simp only [List.append_assoc]

theorem readParentList_eq_put {maxCount : Nat} {ps : List Bytes}
    (h : readParentList maxCount bs = some (ps, rest)) :
    bs = putLE 2 ps.length ++ (ps.flatMap (fun p => putLE 4 p.length ++ p) ++ rest) ∧
      ps ≠ [] ∧ ps.length ≤ maxCount := by
  simp only [readParentList, bind_eq_some, Prod.exists, guard_eq_some'] at h
  obtain ⟨count, r, hcount, _, ⟨hne, hle⟩, h⟩ := h
  obtain ⟨hr, rfl⟩ := readParents_eq_put h
  refine ⟨?_, by simpa using hne, hle⟩
  rw [readLE_eq_put hcount, hr]

theorem readNullifier_eq_put {proof : Btcnull.Proof} {present : Bool}
    (h : readNullifier sha256 bs = some ((proof, present), rest)) :
    ∃ field, bs = putLE 4 field.length ++ (field ++ rest) ∧
      ((present = false ∧ proof = noProof ∧ field = []) ∨
        (present ∧ Btcnull.minProofBytes ≤ field.length ∧
          field.length ≤ Btcnull.maxProofBytes ∧ Btcnull.decodeProof sha256 field = some proof)) := by
  simp only [readNullifier, bind_eq_some, Prod.exists] at h
  obtain ⟨size, r, hsize, field, r', htake, h⟩ := h
  obtain ⟨rfl, rfl⟩ := takeN_eq_some.mp htake
  by_cases hzero : field.length = 0
  · simp only [hzero, if_true, pure_def, Option.some.injEq, Prod.mk.injEq] at h
    obtain ⟨⟨rfl, rfl⟩, rfl⟩ := h
    exact ⟨field, readLE_eq_put hsize, .inl ⟨rfl, rfl, List.length_eq_zero_iff.mp hzero⟩⟩
  · simp only [hzero, if_false, bind_eq_some, guard_eq_some', pure_def,
      Option.some.injEq, Prod.mk.injEq] at h
    obtain ⟨_, ⟨hmin, hmax⟩, proof', hdec, ⟨rfl, rfl⟩, rfl⟩ := h
    exact ⟨field, readLE_eq_put hsize, .inr ⟨rfl, hmin, hmax, hdec⟩⟩

structure Claim.FixedWidths (claim : Claim) : Prop where
  priorVout : claim.priorReserveVout ≤ uint32Max
  priorValue : claim.priorReserveValue ≤ uint64Max
  priorCount : claim.priorTransitionCount ≤ uint64Max
  newVout : claim.newReserveVout ≤ uint32Max
  newValue : claim.newReserveValue ≤ uint64Max

theorem readLE_le_uint32 {v : Nat} (h : readLE 4 bs = some (v, rest)) : v ≤ uint32Max := by
  have := readLE_lt h
  unfold uint32Max
  omega

theorem readLE_le_uint64 {v : Nat} (h : readLE 8 bs = some (v, rest)) : v ≤ uint64Max := by
  have := readLE_lt h
  unfold uint64Max
  omega

variable {claim : Claim}

theorem readFixedFields_eq_put (h : readFixedFields bs = some (claim, rest)) :
    claim.FixedWidths ∧
      bs = putLE 1 claim.operation.code ++ (claim.networkBinding.bytes ++
        (claim.priorCommitment.bytes ++ (claim.priorReserveTxid.bytes ++
        (putLE 4 claim.priorReserveVout ++ (putLE 8 claim.priorReserveValue ++
        (putLE 8 claim.priorTransitionCount ++ (claim.newReserveTxid.bytes ++
        (putLE 4 claim.newReserveVout ++ (putLE 8 claim.newReserveValue ++
        (claim.bitcoinTxid.bytes ++ (claim.bitcoinBlock.bytes ++ rest))))))))))) := by
  obtain ⟨⟨code, _⟩, hcode, h⟩ := bind_eq_some.mp h
  obtain ⟨operation, hop, h⟩ := bind_eq_some.mp h
  obtain ⟨⟨_, _⟩, hbinding, h⟩ := bind_eq_some.mp h
  obtain ⟨⟨_, _⟩, hprior, h⟩ := bind_eq_some.mp h
  obtain ⟨⟨_, _⟩, htxid, h⟩ := bind_eq_some.mp h
  obtain ⟨⟨_, _⟩, hvout, h⟩ := bind_eq_some.mp h
  obtain ⟨⟨_, _⟩, hvalue, h⟩ := bind_eq_some.mp h
  obtain ⟨⟨_, _⟩, hcount, h⟩ := bind_eq_some.mp h
  obtain ⟨⟨_, _⟩, hnewTxid, h⟩ := bind_eq_some.mp h
  obtain ⟨⟨_, _⟩, hnewVout, h⟩ := bind_eq_some.mp h
  obtain ⟨⟨_, _⟩, hnewValue, h⟩ := bind_eq_some.mp h
  obtain ⟨⟨_, _⟩, hbitcoin, h⟩ := bind_eq_some.mp h
  obtain ⟨⟨_, _⟩, hblock, h⟩ := bind_eq_some.mp h
  cases h
  refine ⟨⟨readLE_le_uint32 hvout, readLE_le_uint64 hvalue, readLE_le_uint64 hcount,
    readLE_le_uint32 hnewVout, readLE_le_uint64 hnewValue⟩, ?_⟩
  rw [readLE_eq_put hcode, Operation.code_of_ofCode hop, readHash_eq_put hbinding,
    readHash_eq_put hprior, readHash_eq_put htxid, readLE_eq_put hvout, readLE_eq_put hvalue,
    readLE_eq_put hcount, readHash_eq_put hnewTxid, readLE_eq_put hnewVout,
    readLE_eq_put hnewValue, readHash_eq_put hbitcoin, readHash_eq_put hblock]

/-! ## Claims -/

theorem claimBytes_eq (claim : Claim) (field : Bytes) :
    claimBytes claim field = ascii "RTP1" ++ (putLE 1 claim.operation.code ++
      (claim.networkBinding.bytes ++ (claim.priorCommitment.bytes ++
      (claim.priorReserveTxid.bytes ++ (putLE 4 claim.priorReserveVout ++
      (putLE 8 claim.priorReserveValue ++ (putLE 8 claim.priorTransitionCount ++
      (claim.newReserveTxid.bytes ++ (putLE 4 claim.newReserveVout ++
      (putLE 8 claim.newReserveValue ++ (claim.bitcoinTxid.bytes ++ (claim.bitcoinBlock.bytes ++
      (putLE 4 claim.merkleDirections ++ (putLE 1 claim.merkleBranch.length ++
      (claim.merkleBranch.flatMap Hash256.bytes ++ (claim.exactCommitment.bytes ++
      (putLE 8 claim.mintAmount ++ (putLE 4 claim.bitcoinTx.length ++ (claim.bitcoinTx ++
      (putLE 2 claim.directParents.length ++
      (claim.directParents.flatMap (fun p => putLE 4 p.length ++ p) ++
      (putLE 4 field.length ++ field)))))))))))))))))))))) := by
  unfold claimBytes
  repeat rw [List.append_assoc]

theorem decodeProof_eq_some (h : decodeProof sha256 bs = some claim) :
    claim.Encodable ∧ ∃ field, nullifierEncodes sha256 claim field ∧ bs = claimBytes claim field ∧
      300 ≤ bs.length ∧ bs.length ≤ maxProofBytes := by
  have hfit := parentsFit_of_decodeProof h
  obtain ⟨_, hguard, h⟩ := bind_eq_some.mp h
  obtain ⟨hmax, hmin⟩ := (guard_eq_some' ..).mp hguard
  obtain ⟨⟨magic, _⟩, hmagic, h⟩ := bind_eq_some.mp h
  obtain ⟨_, htag, h⟩ := bind_eq_some.mp h
  obtain ⟨⟨fixed, _⟩, hfixed, h⟩ := bind_eq_some.mp h
  obtain ⟨⟨⟨dirs, branch⟩, _⟩, hbranch, h⟩ := bind_eq_some.mp h
  obtain ⟨⟨_, _⟩, hexact, h⟩ := bind_eq_some.mp h
  obtain ⟨⟨_, _⟩, hmint, h⟩ := bind_eq_some.mp h
  obtain ⟨⟨size, _⟩, hsize, h⟩ := bind_eq_some.mp h
  obtain ⟨_, hlimits, h⟩ := bind_eq_some.mp h
  obtain ⟨⟨tx, _⟩, htx, h⟩ := bind_eq_some.mp h
  obtain ⟨⟨parents, _⟩, hparents, h⟩ := bind_eq_some.mp h
  obtain ⟨⟨⟨proof, present⟩, _⟩, hnull, h⟩ := bind_eq_some.mp h
  obtain ⟨_, hend, h⟩ := bind_eq_some.mp h
  have hclaim := (Option.some.inj h).symm
  obtain ⟨hmagic, -⟩ := takeN_eq_some.mp hmagic
  have htag := (guard_eq_some' ..).mp htag
  obtain ⟨hwidths, hfixed⟩ := readFixedFields_eq_put hfixed
  obtain ⟨hbranch, hdirs, hlen, hbits⟩ := readBranch_eq_put hbranch
  obtain ⟨hlong, hshort⟩ := (guard_eq_some' ..).mp hlimits
  obtain ⟨htx, hsized⟩ := takeN_eq_some.mp htx
  obtain ⟨hparents, hne, hcount⟩ := readParentList_eq_put hparents
  obtain ⟨field, hnull, hfield⟩ := readNullifier_eq_put hnull
  have hend := (guard_eq_some' ..).mp hend
  refine ⟨?_, field, ?_, ?_, hmin, hmax⟩
  · rw [hclaim] at hfit ⊢
    rw [← hsized] at hlong hshort
    exact ⟨hwidths.priorVout, hwidths.priorValue, hwidths.priorCount, hwidths.newVout,
      hwidths.newValue, readLE_le_uint64 hmint, hdirs, hlen, hbits, hlong, hshort, hne, hcount, hfit⟩
  · rw [hclaim]
    exact hfield
  · rw [hclaim, hmagic, htag, hfixed, hbranch, readHash_eq_put hexact, readLE_eq_put hmint,
      readLE_eq_put hsize, htx, hparents, hnull, hend, ← hsized, claimBytes_eq, List.append_nil]

def Claim.nullifierField (sha256 : Bytes → Hash256) (claim : Claim) : Bytes :=
  if claim.hasNullifierProof then Btcnull.encodeProof sha256 claim.nullifierProof else []

theorem nullifierField_of_encodes {field : Bytes} (h : nullifierEncodes sha256 claim field) :
    claim.nullifierField sha256 = field := by
  unfold Claim.nullifierField
  rcases h with ⟨hno, -, rfl⟩ | ⟨hyes, -, -, hdec⟩
  · rw [if_neg (by simp [hno])]
  · rw [if_pos hyes, Btcnull.encodeProof_of_decodeProof hdec]

/-- What `encodeProof` tests of a claim before and after it has written the bytes. -/
structure Claim.Tested (sha256 : Bytes → Hash256) (claim : Claim) : Prop where
  branch : claim.merkleBranch.length ≤ 32
  directions : claim.merkleDirections ≤ uint32Max
  noHighBits : claim.merkleBranch.length < 32 →
    claim.merkleDirections >>> claim.merkleBranch.length = 0
  txLong : 64 < claim.bitcoinTx.length
  txFits : claim.bitcoinTx.length ≤ maxMspvStrippedTxBytes
  parents : claim.directParents ≠ []
  parentCount : claim.directParents.length ≤ maxDirectInputs
  parentsFit : ParentsFit 0 claim.directParents
  nullifier : claim.hasNullifierProof →
    Btcnull.minProofBytes ≤ (claim.nullifierField sha256).length ∧
      (claim.nullifierField sha256).length ≤ Btcnull.maxProofBytes ∧
      (Btcnull.decodeProof sha256 (claim.nullifierField sha256)).isSome
  size : (claimBytes claim (claim.nullifierField sha256)).length ≤ maxProofBytes
  decodes : (decodeProof sha256 (claimBytes claim (claim.nullifierField sha256))).isSome

theorem encodeProof_of_tested (h : claim.Tested sha256) :
    encodeProof sha256 claim = claimBytes claim (claim.nullifierField sha256) :=
  if_pos ⟨h.branch, h.directions, h.noHighBits, h.txLong, h.txFits, h.parents, h.parentCount,
    h.parentsFit, h.nullifier, h.size, h.decodes⟩

theorem tested_of_encodeProof (h : encodeProof sha256 claim ≠ []) : claim.Tested sha256 := by
  unfold encodeProof at h
  by_contra hnot
  exact h (if_neg fun ⟨h₁, h₂, h₃, h₄, h₅, h₆, h₇, h₈, h₉, h₁₀, h₁₁⟩ =>
    hnot ⟨h₁, h₂, h₃, h₄, h₅, h₆, h₇, h₈, h₉, h₁₀, h₁₁⟩)

theorem encodeProof_of_decodeProof (h : decodeProof sha256 bs = some claim) :
    encodeProof sha256 claim = bs := by
  obtain ⟨henc, field, hfield, hbs, -, hmax⟩ := decodeProof_eq_some h
  have hsame := nullifierField_of_encodes hfield
  rw [hbs] at h hmax
  rw [hbs, ← hsame]
  refine encodeProof_of_tested ⟨henc.branch, henc.directions, henc.noHighBits, henc.txLong,
    henc.txFits, henc.parents, henc.parentCount, henc.parentsFit, fun hyes => ?_, ?_, ?_⟩
  · rcases hfield with ⟨hno, -⟩ | ⟨-, hlow, hhigh, hdec⟩
    · rw [hno] at hyes
      cases hyes
    · rw [hsame]
      exact ⟨hlow, hhigh, isSome_of_eq_some hdec⟩
  · rw [hsame]
    exact hmax
  · rw [hsame]
    exact isSome_of_eq_some h

/-- A claim with the proof it does not carry cleared. -/
def Claim.carried (claim : Claim) : Claim :=
  if claim.hasNullifierProof then claim else { claim with nullifierProof := noProof }

structure Claim.Typed (claim : Claim) : Prop extends claim.FixedWidths where
  directions : claim.merkleDirections ≤ uint64Max
  mint : claim.mintAmount ≤ uint64Max

theorem claimBytes_carried (claim : Claim) (field : Bytes) :
    claimBytes claim.carried field = claimBytes claim field := by
  unfold Claim.carried
  split <;> rfl

theorem encodable_carried (htyped : claim.Typed) (h : claim.Tested sha256) :
    claim.carried.Encodable := by
  have henc : claim.Encodable :=
    ⟨htyped.priorVout, htyped.priorValue, htyped.priorCount, htyped.newVout, htyped.newValue,
      htyped.mint, h.directions, h.branch, h.noHighBits, h.txLong, h.txFits, h.parents,
      h.parentCount, h.parentsFit⟩
  unfold Claim.carried
  split
  · exact henc
  · exact ⟨henc.priorVout, henc.priorValue, henc.priorCount, henc.newVout, henc.newValue,
      henc.mint, henc.directions, henc.branch, henc.noHighBits, henc.txLong, henc.txFits,
      henc.parents, henc.parentCount, henc.parentsFit⟩

theorem nullifierEncodes_carried (h : claim.Tested sha256) :
    nullifierEncodes sha256 claim.carried (claim.nullifierField sha256) := by
  have hdec := h.nullifier
  unfold Claim.nullifierField at hdec ⊢
  unfold Claim.carried
  by_cases hyes : claim.hasNullifierProof = true
  · rw [if_pos hyes] at hdec ⊢
    obtain ⟨hlow, hhigh, hsome⟩ := hdec hyes
    rw [if_pos hyes]
    refine .inr ⟨hyes, hlow, hhigh, Btcnull.decodeProof_encodeProof ?_⟩
    -- An encoding of a proof that is not canonical would be empty.
    by_contra hnot
    rw [Btcnull.encodeProof, if_neg hnot] at hlow
    exact absurd hlow (by decide)
  · rw [if_neg hyes, if_neg hyes]
    exact .inl ⟨Bool.eq_false_iff.mpr hyes, rfl, rfl⟩

theorem decodeProof_encodeProof (htyped : claim.Typed) (h : encodeProof sha256 claim ≠ []) :
    decodeProof sha256 (encodeProof sha256 claim) = some claim.carried := by
  have htested := tested_of_encodeProof h
  obtain ⟨decoded, hdec⟩ := isSome_iff_exists.mp htested.decodes
  obtain ⟨-, -, -, -, hmin, hmax⟩ := decodeProof_eq_some hdec
  rw [encodeProof_of_tested htested, ← claimBytes_carried]
  rw [← claimBytes_carried] at hmin hmax
  exact decodeProof_claimBytes (encodable_carried htyped htested)
    (nullifierEncodes_carried htested) hmin hmax

theorem carried_eq_self (claim : Claim) :
    claim.carried = claim ↔ claim.hasNullifierProof ∨ claim.nullifierProof = noProof := by
  unfold Claim.carried
  by_cases hyes : claim.hasNullifierProof = true
  · simp [hyes]
  · rw [if_neg hyes]
    refine ⟨fun h => .inr ?_, fun h => ?_⟩
    · rw [← h]
    · rw [← h.resolve_left hyes]

def sampleUncarried : Claim where
  bitcoinTx := List.replicate 65 0
  directParents := [List.replicate 10 0]
  nullifierProof := ⟨.ones, []⟩

theorem encodeProof_forgets_uncarried :
    sampleUncarried.Typed ∧ encodeProof Crypto.blank.sha256 sampleUncarried ≠ [] ∧
      decodeProof Crypto.blank.sha256 (encodeProof Crypto.blank.sha256 sampleUncarried) ≠
        some sampleUncarried := by
  refine ⟨⟨⟨by decide, by decide, by decide, by decide, by decide⟩, by decide, by decide⟩, ?_, ?_⟩
  · decide +kernel
  · decide +kernel

/-- Accepted bytes are the encoding of their claim; an encoded claim is decoded back, up to a proof
it does not carry. -/
theorem reserve_proof_canonical (sha256 : Bytes → Hash256) :
    (∀ bs claim, decodeProof sha256 bs = some claim → encodeProof sha256 claim = bs) ∧
      (∀ claim : Claim, claim.Typed → encodeProof sha256 claim ≠ [] →
        decodeProof sha256 (encodeProof sha256 claim) = some claim.carried ∧
          (claim.carried = claim ↔
            claim.hasNullifierProof ∨ claim.nullifierProof = noProof)) ∧
      ∀ bs bs' claim, decodeProof sha256 bs = some claim → decodeProof sha256 bs' = some claim →
        bs = bs' := by
  refine ⟨fun bs claim h => encodeProof_of_decodeProof h, fun claim htyped h =>
    ⟨decodeProof_encodeProof htyped h, carried_eq_self claim⟩, fun bs bs' claim h h' => ?_⟩
  rw [← encodeProof_of_decodeProof h, encodeProof_of_decodeProof h']

/-- The same claim with the proof cleared is decoded back. -/
theorem reserve_proof_canonical_sample :
    decodeProof Crypto.blank.sha256 (encodeProof Crypto.blank.sha256 sampleUncarried.carried) =
      some sampleUncarried.carried.carried :=
  ((reserve_proof_canonical Crypto.blank.sha256).2.1 sampleUncarried.carried
    ⟨⟨by decide, by decide, by decide, by decide, by decide⟩, by decide, by decide⟩
    (by decide +kernel)).1

end Veld.Reserve
