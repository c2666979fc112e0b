import Veld.Core.Profile
import Veld.Core.Hash

/-!
# The Bitcoin header view

What the proof checks read of `core/btc_header_chain.h`: membership on the selected chain, burial
depth, the validator-observed checkpoint and Merkle inclusion.
-/

namespace Veld.Btcspv

open Wire

structure BtcHeaderRecord where
  blockHash : Hash256
  prevHash : Hash256
  merkleRoot : Hash256
  time : Nat
  bits : Nat
  height : Nat
  chainWork : Nat
  deriving DecidableEq

structure BtcHeaderChain where
  byHash : AList fun _ : Hash256 => BtcHeaderRecord
  bestTip : Hash256
  observedCheckpoint : Hash256
  /-- Entry `i` is the selected block at height `cpHeight + i`. -/
  bestChain : List Hash256
  cpHeight : Nat
  cpTime : Nat

namespace BtcHeaderChain
variable (ch : BtcHeaderChain)

def get (h : Hash256) : Option BtcHeaderRecord := ch.byHash.lookup h

def onBestChain (h : Hash256) : Bool :=
  match ch.get h with
  | some r => ch.cpHeight ≤ r.height && ch.bestChain[r.height - ch.cpHeight]? == some h
  | none => false

/-- `IsFinal`: on the selected chain and at least `k` deep. -/
def isFinal (blockHash : Hash256) (k : Nat) : Bool :=
  match ch.get blockHash, ch.get ch.bestTip with
  | some r, some best => ch.onBestChain blockHash && r.height + k ≤ best.height
  | _, _ => false

/-- `IsFinalForExternalValue`. -/
def isFinalForExternalValue (P : Profile) (blockHash : Hash256) (k : Nat) : Bool :=
  match ch.get blockHash, ch.get ch.bestTip with
  | some r, some best =>
    ch.onBestChain blockHash && r.height + k ≤ best.height &&
      (!P.observationRequired ||
        match ch.get ch.observedCheckpoint with
        | some observed => ch.onBestChain ch.observedCheckpoint && r.height ≤ observed.height
        | none => false)
  | _, _ => false

def foldBranch (sha256 : Bytes → Hash256) (txid : Hash256) (branch : List Hash256) (dirs : Nat) :
    Hash256 :=
  (branch.zipIdx).foldl (fun h (sibling, i) =>
    if dirs.testBit i then hash256d sha256 (sibling.bytes ++ h.bytes)
    else hash256d sha256 (h.bytes ++ sibling.bytes)) txid

def verifyMerkle (sha256 : Bytes → Hash256) (blockHash txid : Hash256) (branch : List Hash256)
    (dirs : Nat) : Bool :=
  match ch.get blockHash with
  | some r => foldBranch sha256 txid branch dirs == r.merkleRoot
  | none => false

end BtcHeaderChain

end Veld.Btcspv
