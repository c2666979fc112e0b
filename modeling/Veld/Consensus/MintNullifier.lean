import Veld.Lib.SparseMerkle
import Veld.Core.Hash

/-!
# The mint nullifier

`consensus/btcveld_mint_nullifier.h`: the set of Bitcoin outpoints already credited is kept as the root of a
sparse Merkle tree of depth 256 over SHA-256.
-/

namespace Veld.Btcnull

open Wire SparseMerkle List

def treeDepth : Nat := 256
def minProofBytes : Nat := 32
def maxProofBytes : Nat := 32 + treeDepth * 32

structure Proof where
  bitmap : Hash256
  siblings : List Hash256
  deriving DecidableEq

/-- `Bit`. -/
def bitAt (h : Hash256) (depth : Nat) : Bool :=
  (h.bytes.getD (depth / 8) 0).toNat.testBit (7 - depth % 8)

/-- All 256 bits, root depth first. -/
def pathBits (h : Hash256) : List Bool := (List.range treeDepth).map (bitAt h)

def bitmapPopcount (bitmap : Hash256) : Nat := (pathBits bitmap).count true

section
variable (sha256 : Bytes → Hash256)

def keyForOutpoint (outpoint : Bytes) : Hash256 :=
  sha256Domain sha256 "VELD_BTCVELD_MINT_NULLIFIER_KEY_v1|" (putLenPrefixed outpoint)

def emptyLeaf : Hash256 := sha256Domain sha256 "VELD_BTCVELD_MINT_NULLIFIER_EMPTY_LEAF_v1|" []

def occupiedLeaf (key : Hash256) : Hash256 :=
  sha256Domain sha256 "VELD_BTCVELD_MINT_NULLIFIER_OCCUPIED_LEAF_v1|" key.bytes

def node (left right : Hash256) : Hash256 :=
  sha256Domain sha256 "VELD_BTCVELD_MINT_NULLIFIER_NODE_v1|" (left.bytes ++ right.bytes)

/-- The roots of empty subtrees of height `n`, `n - 1`, …, 0. -/
def emptyHashesFrom : Nat → List Hash256
  | 0 => [emptyLeaf sha256]
  | n + 1 =>
    match emptyHashesFrom n with
    | [] => []
    | e :: es => node sha256 e e :: e :: es

/-- `EmptyHashes()`: entry `d` is the root of an empty subtree at depth `d`. -/
def emptyHashes : List Hash256 := emptyHashesFrom sha256 treeDepth

def emptyRoot : Hash256 := (emptyHashes sha256).headD Hash256.zero

/-- `empty[depth + 1]` for the depths 0 to 255: the siblings a proof leaves out. -/
def defaultSiblings : List Hash256 := (emptyHashes sha256).tail

def decodeSiblings : List Hash256 → List Bool → Bytes → Option (List Hash256)
  | _ :: es, false :: bits, bs => decodeSiblings es bits bs
  | e :: es, true :: bits, bs => do
    let (sibling, rest) ← readHash bs
    if sibling = e then none else
    let tail ← decodeSiblings es bits rest
    return sibling :: tail
  | _, _, bs => if bs = [] then some [] else none

def decodeProof (bs : Bytes) : Option Proof := do
  if bs.length < minProofBytes ∨ maxProofBytes < bs.length ∨ (bs.length - 32) % 32 ≠ 0 then none else
  let (bitmap, rest) ← readHash bs
  if bs.length ≠ 32 + bitmapPopcount bitmap * 32 then none else
  let siblings ← decodeSiblings (defaultSiblings sha256) (pathBits bitmap) rest
  return ⟨bitmap, siblings⟩

/-- The loop of `IsCanonicalProof`. -/
def canonicalSiblings : List Hash256 → List Bool → List Hash256 → Bool
  | _ :: es, false :: bits, sibs => canonicalSiblings es bits sibs
  | e :: es, true :: bits, s :: sibs => s != e && canonicalSiblings es bits sibs
  | _ :: _, true :: _, [] => false
  | _, _, sibs => sibs.isEmpty

def isCanonicalProof (p : Proof) : Bool :=
  p.siblings.length == bitmapPopcount p.bitmap &&
    canonicalSiblings (defaultSiblings sha256) (pathBits p.bitmap) p.siblings

/-- `EncodeProof`, empty for a proof that is not canonical. -/
def encodeProof (p : Proof) : Bytes :=
  if isCanonicalProof sha256 p then p.bitmap.bytes ++ p.siblings.flatMap Hash256.bytes else []

/-- The loop of `ExpandSiblings`. -/
def expandLoop : List Hash256 → List Bool → List Hash256 → Option (List Hash256)
  | e :: es, false :: bits, sibs => (expandLoop es bits sibs).map (e :: ·)
  | _ :: es, true :: bits, s :: sibs => (expandLoop es bits sibs).map (s :: ·)
  | _ :: _, true :: _, [] => none
  | _, _, sibs => if sibs = [] then some [] else none

def expandSiblings (p : Proof) : Option (List Hash256) :=
  if isCanonicalProof sha256 p then
    expandLoop (defaultSiblings sha256) (pathBits p.bitmap) p.siblings
  else none

/-- The subtree hashes along a path, root first, the leaf last. -/
def pathHashes : List Bool → List Hash256 → Hash256 → List Hash256
  | b :: bits, s :: sibs, leaf =>
    match pathHashes bits sibs leaf with
    | [] => []
    | h :: hs => (if b then node sha256 s h else node sha256 h s) :: h :: hs
  | _, _, leaf => [leaf]

def computePath (key : Hash256) (occupied : Bool) (p : Proof) : Option (List Hash256) := do
  let sibs ← expandSiblings sha256 p
  return pathHashes sha256 (pathBits key) sibs
    (if occupied then occupiedLeaf sha256 key else emptyLeaf sha256)

def verify (root : Hash256) (outpoint : Bytes) (occupied : Bool) (p : Proof) : Bool :=
  match computePath sha256 (keyForOutpoint sha256 outpoint) occupied p with
  | some path => path.head? == some root
  | none => false

structure InsertResult where
  ok : Bool
  oldRoot : Hash256
  newRoot : Hash256

def insert (currentRoot : Hash256) (outpoint : Bytes) (p : Proof) : InsertResult :=
  let key := keyForOutpoint sha256 outpoint
  let fail : InsertResult := ⟨false, currentRoot, .zero⟩
  match computePath sha256 key false p with
  | none => fail
  | some oldPath =>
    if oldPath.head? ≠ some currentRoot then fail else
    match computePath sha256 key true p with
    | none => fail
    | some newPath => ⟨true, currentRoot, newPath.headD Hash256.zero⟩

end

/-! ## The code against the tree library -/

section
variable {sha256 : Bytes → Hash256}

theorem pathBits_length (h : Hash256) : (pathBits h).length = treeDepth := by simp [pathBits]

theorem bitAt_byte (h : Hash256) {i j : Nat} (hj : j < 8) :
    bitAt h (8 * i + j) = (h.bytes.getD i 0).toNat.testBit (7 - j) := by
  unfold bitAt
  rw [show (8 * i + j) / 8 = i by omega, show (8 * i + j) % 8 = j by omega]

theorem pathBits_injective : Function.Injective pathBits := by
  intro a b h
  have hbit : ∀ d < treeDepth, bitAt a d = bitAt b d := by
    intro d hd
    have := congrArg (·[d]?) h
    simpa [pathBits, hd] using this
  apply Hash256.ext_bytes
  apply ext_getElem (by rw [a.size, b.size])
  intro i hia hib
  have hi : i < 32 := a.size ▸ hia
  apply UInt8.toNat_inj.mp
  apply Nat.eq_of_testBit_eq
  intro k
  by_cases hk : k < 8
  · have := hbit (8 * i + (7 - k)) (by unfold treeDepth; omega)
    rw [bitAt_byte a (by omega), bitAt_byte b (by omega), show 7 - (7 - k) = k by omega] at this
    simpa [getD_eq_getElem?_getD, hia, hib] using this
  · have hlt : ∀ x : UInt8, x.toNat < 2 ^ k := fun x =>
      lt_of_lt_of_le x.toNat_lt (Nat.pow_le_pow_right (by decide) (by omega : 8 ≤ k))
    rw [Nat.testBit_lt_two_pow (hlt _), Nat.testBit_lt_two_pow (hlt _)]

variable (sha256) in
theorem emptyHashesFrom_length (n : Nat) : (emptyHashesFrom sha256 n).length = n + 1 := by
  induction n with
  | zero => rfl
  | succ n ih =>
    unfold emptyHashesFrom
    split
    · rename_i h; rw [h] at ih; simp at ih
    · rename_i e es h; rw [h] at ih; simpa using ih

theorem defaultSiblings_length : (defaultSiblings sha256).length = treeDepth := by
  simp [defaultSiblings, emptyHashes, emptyHashesFrom_length]

theorem expandLoop_of_canonical (es : List Hash256) (bits : List Bool) (sibs : List Hash256)
    (hlen : es.length = bits.length) :
    (if canonicalSiblings es bits sibs then expandLoop es bits sibs else none) =
      expand es bits sibs := by
  induction es generalizing bits sibs with
  | nil =>
    obtain rfl : bits = [] := length_eq_zero_iff.mp hlen.symm
    cases sibs <;> simp [canonicalSiblings, expandLoop, expand]
  | cons e es ih =>
    obtain ⟨b, bits, rfl⟩ := exists_cons_of_length_eq_add_one hlen.symm
    have hrec := fun sibs => ih bits sibs (by simpa using hlen)
    cases b with
    | false =>
      rw [expand, ← hrec]
      cases hc : canonicalSiblings es bits sibs <;> simp [canonicalSiblings, expandLoop, hc]
    | true =>
      cases sibs with
      | nil => simp [canonicalSiblings, expand]
      | cons s sibs =>
        rw [expand, ← hrec]
        by_cases hs : s = e
        · simp [canonicalSiblings, hs]
        · cases hc : canonicalSiblings es bits sibs <;>
            simp [canonicalSiblings, expandLoop, hc, hs]

theorem expand_count {es kept ss : List Hash256} {mask : List Bool}
    (h : expand es mask kept = some ss) : kept.length = mask.count true := by
  induction es generalizing mask kept ss with
  | nil => cases mask <;> cases kept <;> simp_all [expand]
  | cons e es ih =>
    rcases mask with _ | ⟨b, mask⟩
    · simp [expand] at h
    · cases b with
      | false =>
        simp only [expand, Option.map_eq_some_iff] at h
        obtain ⟨rest, hrest, -⟩ := h
        simpa using ih hrest
      | true =>
        rcases kept with _ | ⟨s, kept⟩
        · simp [expand] at h
        · simp only [expand] at h
          split at h
          · cases h
          · rw [Option.map_eq_some_iff] at h
            obtain ⟨rest, hrest, -⟩ := h
            simpa using ih hrest

theorem expandSiblings_eq (p : Proof) :
    expandSiblings sha256 p =
      expand (defaultSiblings sha256) (pathBits p.bitmap) p.siblings := by
  have hloop := expandLoop_of_canonical (defaultSiblings sha256) (pathBits p.bitmap) p.siblings
    (by rw [defaultSiblings_length, pathBits_length])
  unfold expandSiblings isCanonicalProof
  by_cases hcount : p.siblings.length = bitmapPopcount p.bitmap
  · simp [hcount, hloop]
  · have hnone : expand (defaultSiblings sha256) (pathBits p.bitmap) p.siblings = none := by
      cases he : expand (defaultSiblings sha256) (pathBits p.bitmap) p.siblings with
      | none => rfl
      | some ss => exact absurd (expand_count he) hcount
    simp [hcount, hnone]

theorem expandSiblings_length {p : Proof} {ss : List Hash256}
    (h : expandSiblings sha256 p = some ss) : ss.length = treeDepth := by
  rw [expandSiblings_eq] at h
  rw [(expand_eq_some h).1, defaultSiblings_length]

theorem pathHashes_head (bits : List Bool) (sibs : List Hash256) (leaf : Hash256) :
    (pathHashes sha256 bits sibs leaf).head? =
      some (foldPath (node sha256) bits sibs leaf) := by
  induction bits generalizing sibs with
  | nil => cases sibs <;> rfl
  | cons b bits ih =>
    cases sibs with
    | nil => rfl
    | cons s sibs =>
      have hrec := ih sibs
      unfold pathHashes
      split
      · rename_i h; rw [h] at hrec; simp at hrec
      · rename_i h hs heq
        rw [heq] at hrec
        obtain rfl : h = foldPath (node sha256) bits sibs leaf := by simpa using hrec
        simp [foldPath]

/-! ## The encoding -/

theorem decodeSiblings_eq_some {es sibs : List Hash256} {bits : List Bool} {bs : Bytes}
    (hlen : es.length = bits.length) :
    decodeSiblings es bits bs = some sibs ↔
      canonicalSiblings es bits sibs ∧ bs = sibs.flatMap Hash256.bytes := by
  induction es generalizing bits bs sibs with
  | nil => cases sibs <;> simp [decodeSiblings, canonicalSiblings]
  | cons e es ih =>
    obtain ⟨b, bits, rfl⟩ := exists_cons_of_length_eq_add_one hlen.symm
    have hbits : es.length = bits.length := Nat.succ.inj hlen
    cases b with
    | false => exact ih hbits
    | true =>
      simp only [decodeSiblings, bind_eq_some]
      constructor
      · rintro ⟨⟨s, rest⟩, hread, h⟩
        split_ifs at h with hne
        simp only [bind_eq_some, pure_eq_some] at h
        obtain ⟨tail, htail, rfl⟩ := h
        obtain ⟨hcanonical, rfl⟩ := (ih hbits).mp htail
        exact ⟨by simp [canonicalSiblings, hne, hcanonical], readHash_eq_put hread⟩
      · rintro ⟨hcanonical, rfl⟩
        cases sibs with
        | nil => cases hcanonical
        | cons s sibs =>
          simp only [canonicalSiblings, Bool.and_eq_true, bne_iff_ne] at hcanonical
          refine ⟨(s, sibs.flatMap Hash256.bytes), readHash_bytes s _, ?_⟩
          rw [if_neg hcanonical.1, (ih hbits).mpr ⟨hcanonical.2, rfl⟩]
          rfl

theorem flatMap_bytes_length (hs : List Hash256) : (hs.flatMap Hash256.bytes).length = hs.length * 32 := by
  simp [length_flatMap, Hash256.size]

theorem decodeProof_eq_some {bs : Bytes} {p : Proof} : decodeProof sha256 bs = some p ↔
    isCanonicalProof sha256 p ∧ bs = p.bitmap.bytes ++ p.siblings.flatMap Hash256.bytes := by
  have hsibs {bitmap : Hash256} {bs : Bytes} {sibs : List Hash256} :=
    @decodeSiblings_eq_some (defaultSiblings sha256) sibs (pathBits bitmap) bs
      (by rw [defaultSiblings_length, pathBits_length])
  have hbytes (bitmap : Hash256) (sibs : List Hash256) :
      (bitmap.bytes ++ sibs.flatMap Hash256.bytes).length = 32 + sibs.length * 32 := by
    rw [length_append, bitmap.size, flatMap_bytes_length]
  unfold decodeProof
  simp only [isCanonicalProof, Bool.and_eq_true, beq_iff_eq]
  constructor
  · intro h
    split_ifs at h
    simp only [bind_eq_some] at h
    obtain ⟨⟨bitmap, rest⟩, hread, h⟩ := h
    split_ifs at h with hcount
    simp only [bind_eq_some, pure_eq_some] at h
    obtain ⟨sibs, hdecode, rfl⟩ := h
    obtain ⟨hcanonical, rfl⟩ := hsibs.mp hdecode
    have hbs := readHash_eq_put hread
    have hlength := hbytes bitmap sibs
    rw [← hbs] at hlength
    refine ⟨⟨?_, hcanonical⟩, hbs⟩
    dsimp only at hcount ⊢
    omega
  · rintro ⟨⟨hcount, hcanonical⟩, rfl⟩
    have hle : bitmapPopcount p.bitmap ≤ treeDepth := count_le_length.trans (pathBits_length _).le
    rw [if_neg (by rw [hbytes]; unfold minProofBytes maxProofBytes; omega), readHash_bytes, some_bind,
      if_neg (by rw [hbytes, hcount]; exact not_not_intro rfl), hsibs.mpr ⟨hcanonical, rfl⟩]
    rfl

theorem encodeProof_of_decodeProof {bs : Bytes} {p : Proof} (h : decodeProof sha256 bs = some p) :
    encodeProof sha256 p = bs := by
  obtain ⟨hcanonical, rfl⟩ := decodeProof_eq_some.mp h
  rw [encodeProof, if_pos hcanonical]

theorem decodeProof_encodeProof {p : Proof} (h : isCanonicalProof sha256 p) :
    decodeProof sha256 (encodeProof sha256 p) = some p := by
  rw [encodeProof, if_pos h]
  exact decodeProof_eq_some.mpr ⟨h, rfl⟩

end

end Veld.Btcnull
