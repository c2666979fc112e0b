import Veld.Core.Transaction
import Veld.Lib.PairTree

/-!
# The Merkle root of a block

`ComputeMerkleRoot` of `core/block.h`: leaves and branches are hashed under different tags, and an odd
node is promoted to the next level, not duplicated.
-/

namespace Veld

open Wire PairTree List

def leafTag : Bytes := ascii "VeldMerkleLeaf"
def branchTag : Bytes := ascii "VeldMerkleBranch"

section
variable (sha256 : Bytes → Hash256)

def taggedHash (tag data : Bytes) : Hash256 :=
  let tagHash := hash256d sha256 tag
  hash256d sha256 (tagHash.bytes ++ tagHash.bytes ++ data)

/-- The rounds of `ComputeMerkleRoot` over the transaction ids. -/
def merkleRootOf : List Hash256 → Hash256
  | [] => Hash256.zero
  | txid :: rest => pairRoot (fun l r => taggedHash sha256 branchTag (l.bytes ++ r.bytes))
      (taggedHash sha256 leafTag txid.bytes) (rest.map fun txid => taggedHash sha256 leafTag txid.bytes)

def tagged : Hash256 ⊕ Hash256 × Hash256 → Bytes × Bytes
  | .inl txid => (leafTag, txid.bytes)
  | .inr (l, r) => (branchTag, l.bytes ++ r.bytes)

def merkleHash (x : Hash256 ⊕ Hash256 × Hash256) : Hash256 := taggedHash sha256 (tagged x).1 (tagged x).2

/-- What the tagged hash is called on for a list of transaction ids. -/
def merkleInputs : List Hash256 → Set (Bytes × Bytes)
  | [] => ∅
  | txid :: rest => tagged '' (Tree.build txid rest).hashed (merkleHash sha256)

end

def computeMerkleRoot (C : Crypto) (txs : List Transaction) : Hash256 :=
  merkleRootOf C.sha256 (txs.map (·.getTxID C))

theorem tagged_injective : Function.Injective tagged := by
  have htags : leafTag ≠ branchTag := by decide
  rintro (a | ⟨a, b⟩) (c | ⟨c, d⟩) h
  · exact congrArg _ (Hash256.ext_bytes (Prod.mk.inj h).2)
  · exact absurd (Prod.mk.inj h).1 htags
  · exact absurd (Prod.mk.inj h).1.symm htags
  · obtain ⟨hac, hbd⟩ := append_inj (Prod.mk.inj h).2 (by rw [a.size, c.size])
    rw [Hash256.ext_bytes hac, Hash256.ext_bytes hbd]

theorem merkleRootOf_cons (sha256 : Bytes → Hash256) (txid : Hash256) (rest : List Hash256) :
    merkleRootOf sha256 (txid :: rest) = (Tree.build txid rest).digest (merkleHash sha256) :=
  (Tree.digest_build (merkleHash sha256) txid rest).symm

/-- Where the tagged hash does not collide, two blocks with one Merkle root have the same list of
transaction ids, whatever their lengths. -/
theorem merkle_root_determines_txids (C : Crypto) (W : Set (Bytes × Bytes))
    (hcf : Set.InjOn (fun x : Bytes × Bytes => taggedHash C.sha256 x.1 x.2) W) (txs txs' : List Transaction)
    (hne : txs ≠ []) (hne' : txs' ≠ []) (hW : merkleInputs C.sha256 (txs.map (·.getTxID C)) ⊆ W)
    (hW' : merkleInputs C.sha256 (txs'.map (·.getTxID C)) ⊆ W)
    (heq : computeMerkleRoot C txs = computeMerkleRoot C txs') :
    txs.map (·.getTxID C) = txs'.map (·.getTxID C) := by
  obtain ⟨tx, rest, rfl⟩ := exists_cons_of_ne_nil hne
  obtain ⟨tx', rest', rfl⟩ := exists_cons_of_ne_nil hne'
  have hinj : Set.InjOn (merkleHash C.sha256) (Set.preimage tagged W) :=
    fun x hx y hy h => tagged_injective (hcf hx hy h)
  rw [computeMerkleRoot, computeMerkleRoot, map_cons, map_cons, merkleRootOf_cons, merkleRootOf_cons] at heq
  have htree := Tree.digest_injective hinj (Set.image_subset_iff.mp hW) (Set.image_subset_iff.mp hW') heq
  have hleaves := congrArg Tree.leaves htree
  rwa [Tree.leaves_build, Tree.leaves_build] at hleaves

/-- A hash that reads its input as a number to the base 3. -/
def Crypto.baseThree : Crypto :=
  ⟨fun x => ⟨putLE 32 (x.foldl (fun n b => (n * 3 + b.toNat) % 65537) 1), putLE_length 32 _⟩, fun _ _ _ => true⟩

def sampleBody : List Transaction := [⟨1, [], [⟨50, [0x51]⟩], 0⟩, ⟨2, [], [⟨20, [0x52]⟩], 0⟩]

theorem merkleInputs_two (sha256 : Bytes → Hash256) (a b : Hash256) : merkleInputs sha256 [a, b] =
    {x | x ∈ [(branchTag, (taggedHash sha256 leafTag a.bytes).bytes ++ (taggedHash sha256 leafTag b.bytes).bytes),
      (leafTag, a.bytes), (leafTag, b.bytes)]} := by
  ext x
  simp only [merkleInputs, Tree.build, map_cons, map_nil, pairRoot, pairUp, Tree.hashed, Set.image_union,
    Set.image_singleton, Set.mem_union, Set.mem_singleton_iff, or_assoc, Set.mem_ofPred_eq, mem_cons,
    not_mem_nil, or_false]
  rfl

theorem merkle_root_determines_txids_sample :
    sampleBody.map (·.getTxID Crypto.baseThree) = sampleBody.map (·.getTxID Crypto.baseThree) := by
  refine merkle_root_determines_txids Crypto.baseThree _ ?_ sampleBody sampleBody (by decide) (by decide)
    subset_rfl subset_rfl rfl
  rw [sampleBody, map_cons, map_cons, map_nil, merkleInputs_two]
  exact inj_on_of_nodup_map (by decide +kernel)

end Veld
