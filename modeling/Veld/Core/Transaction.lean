import Veld.Core.Hash

/-!
# Transactions and blocks

The records of `core/transaction.h` and `core/block.h` with their serialisation, and the
OP_RETURN carriers of `wallet/wallet.h`.
-/

namespace Veld

open Wire

structure TxInput where
  prevTxHash : Hash256
  prevOutIndex : UInt32
  scriptSig : Bytes
  sequence : UInt32
  deriving DecidableEq

structure TxOutput where
  value : UInt64
  scriptPubkey : Bytes
  deriving DecidableEq

structure Transaction where
  version : UInt32
  inputs : List TxInput
  outputs : List TxOutput
  locktime : UInt32
  deriving DecidableEq

def putVarint (v : Nat) : Bytes :=
  if v < 0xFD then putLE 1 v
  else if v ≤ 0xFFFF then 0xFD :: putLE 2 v
  else if v ≤ 0xFFFFFFFF then 0xFE :: putLE 4 v
  else 0xFF :: putLE 8 v

def putScriptLen (v : Nat) : Bytes :=
  if v < 0xFD then putLE 1 v
  else if v ≤ 0xFFFF then 0xFD :: putLE 2 v
  else 0xFE :: putLE 4 v

def TxInput.serialize (i : TxInput) : Bytes :=
  i.prevTxHash.bytes ++ putLE 4 i.prevOutIndex.toNat ++ putScriptLen i.scriptSig.length ++
    i.scriptSig ++ putLE 4 i.sequence.toNat

def TxOutput.serialize (o : TxOutput) : Bytes :=
  putLE 8 o.value.toNat ++ putScriptLen o.scriptPubkey.length ++ o.scriptPubkey

def Transaction.serialize (tx : Transaction) : Bytes :=
  putLE 4 tx.version.toNat ++
    putVarint tx.inputs.length ++ tx.inputs.flatMap TxInput.serialize ++
    putVarint tx.outputs.length ++ tx.outputs.flatMap TxOutput.serialize ++
    putLE 4 tx.locktime.toNat

def TxInput.isCoinbase (i : TxInput) : Bool :=
  i.prevOutIndex == 0xFFFFFFFF && i.prevTxHash.isZero

def Transaction.isCoinbase (tx : Transaction) : Bool :=
  match tx.inputs with
  | [i] => i.isCoinbase
  | _ => false

structure BlockHeader where
  version : UInt32
  prevBlockHash : Hash256
  merkleRoot : Hash256
  timestamp : UInt64
  bits : UInt32
  nonce : UInt64
  deriving DecidableEq

def BlockHeader.serialize (h : BlockHeader) : Bytes :=
  putLE 4 h.version.toNat ++ h.prevBlockHash.bytes ++ h.merkleRoot.bytes ++
    putLE 8 h.timestamp.toNat ++ putLE 4 h.bits.toNat ++ putLE 8 h.nonce.toNat

structure Block where
  header : BlockHeader
  transactions : List Transaction
  height : Nat

/-- The cryptography the consensus code calls. -/
structure Crypto where
  sha256 : Bytes → Hash256
  verifyP2PKHInputSig : Transaction → Nat → Bytes → Bool

def Transaction.getTxID (C : Crypto) (tx : Transaction) : Hash256 :=
  hash256d C.sha256 tx.serialize

def Block.getHash (C : Crypto) (b : Block) : Hash256 := hash256d C.sha256 b.header.serialize

/-! ## OP_RETURN carriers -/

def buildOpReturnScript (data : Bytes) : Bytes :=
  0x6A ::
    (if data.length ≤ 75 then putLE 1 data.length
     else if data.length ≤ 255 then 0x4C :: putLE 1 data.length
     else 0x4D :: putLE 2 data.length) ++ data

/-- `ParseOpReturn`. -/
def parseOpReturn : Bytes → Bytes
  | 0x6A :: op :: rest =>
    let (len, data) : Nat × Bytes :=
      if op ≤ 75 then (op.toNat, rest)
      else match op, rest with
        | 0x4C, n :: rest' => (n.toNat, rest')
        | 0x4D, lo :: hi :: rest' => (lo.toNat + 256 * hi.toNat, rest')
        | _, _ => (0, op :: rest)
    if len ≤ data.length then data.take len else []
  | _ => []

end Veld
