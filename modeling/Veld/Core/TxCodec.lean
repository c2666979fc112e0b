import Veld.Core.Profile
import Veld.Core.Transaction

/-!
# Reading transactions and blocks

`Transaction::Deserialize` and `Block::Deserialize`. The source returns the number of bytes taken, and 0 for a
failure, which is `none` here.
-/

namespace Veld

open Wire

def maxTransactionsPerBlock : Nat := 4096

/-- `read_varint`, and the length of a script: the 8-byte form is refused. -/
def readTxVarint : Bytes → Option (Nat × Bytes)
  | [] => none
  | first :: rest =>
    if first < 0xFD then some (first.toNat, rest)
    else if first = 0xFD then readLE 2 rest
    else if first = 0xFE then readLE 4 rest
    else none

def TxInput.read (bs : Bytes) : Option (TxInput × Bytes) := do
  let (prevTxHash, bs) ← readHash bs
  let (prevOutIndex, bs) ← readLE 4 bs
  let (scriptLen, bs) ← readTxVarint bs
  guard (scriptLen ≤ maxTransactionScriptSigBytes)
  let (scriptSig, bs) ← takeN scriptLen bs
  let (sequence, bs) ← readLE 4 bs
  return (⟨prevTxHash, UInt32.ofNat prevOutIndex, scriptSig, UInt32.ofNat sequence⟩, bs)

def TxOutput.read (bs : Bytes) : Option (TxOutput × Bytes) := do
  let (value, bs) ← readLE 8 bs
  let (pkLen, bs) ← readTxVarint bs
  let (scriptPubkey, bs) ← takeN pkLen bs
  return (⟨UInt64.ofNat value, scriptPubkey⟩, bs)

def Transaction.read (bs : Bytes) : Option (Transaction × Bytes) := do
  let (version, bs) ← readLE 4 bs
  let (inCount, bs) ← readTxVarint bs
  guard (inCount ≤ maxTransactionInputs)
  let (inputs, bs) ← readMany TxInput.read inCount bs
  let (outCount, bs) ← readTxVarint bs
  guard (outCount ≤ maxTransactionOutputs)
  let (outputs, bs) ← readMany TxOutput.read outCount bs
  let (locktime, bs) ← readLE 4 bs
  return (⟨UInt32.ofNat version, inputs, outputs, UInt32.ofNat locktime⟩, bs)

/-- A reader at an offset, with the number of bytes it took. -/
def deserializeAt {α : Type} (read : Bytes → Option (α × Bytes)) (data : Bytes) (offset : Nat) :
    Option (Nat × α) :=
  (read (data.drop offset)).map fun p => ((data.drop offset).length - p.2.length, p.1)

def Transaction.deserialize : Bytes → Nat → Option (Nat × Transaction) := deserializeAt Transaction.read

def BlockHeader.read (bs : Bytes) : Option (BlockHeader × Bytes) := do
  let (version, bs) ← readLE 4 bs
  let (prevBlockHash, bs) ← readHash bs
  let (merkleRoot, bs) ← readHash bs
  let (timestamp, bs) ← readLE 8 bs
  let (bits, bs) ← readLE 4 bs
  let (nonce, bs) ← readLE 8 bs
  return (⟨UInt32.ofNat version, prevBlockHash, merkleRoot, UInt64.ofNat timestamp,
    UInt32.ofNat bits, UInt64.ofNat nonce⟩, bs)

def Block.serialize (b : Block) : Bytes :=
  b.header.serialize ++ putLE 4 b.transactions.length ++ b.transactions.flatMap Transaction.serialize

/-- The block that is filled keeps its height. -/
def Block.read (out : Block) (bs : Bytes) : Option (Block × Bytes) := do
  let (header, bs) ← BlockHeader.read bs
  let (txCount, bs) ← readLE 4 bs
  guard (txCount ≤ maxTransactionsPerBlock)
  let (transactions, bs) ← readMany Transaction.read txCount bs
  return (⟨header, transactions, out.height⟩, bs)

def Block.deserialize (data : Bytes) (offset : Nat) (out : Block) : Option (Nat × Block) :=
  deserializeAt (Block.read out) data offset

/-! ## What was written is read back -/

structure Transaction.InLimits (tx : Transaction) : Prop where
  inputs : tx.inputs.length ≤ maxTransactionInputs
  outputs : tx.outputs.length ≤ maxTransactionOutputs
  scriptSig : ∀ i ∈ tx.inputs, i.scriptSig.length ≤ maxTransactionScriptSigBytes
  scriptPubkey : ∀ o ∈ tx.outputs, o.scriptPubkey.length < 2 ^ 32

structure Block.InLimits (b : Block) : Prop where
  count : b.transactions.length ≤ maxTransactionsPerBlock
  transactions : ∀ tx ∈ b.transactions, tx.InLimits

theorem readTxVarint_putScriptLen {v : Nat} (h : v < 2 ^ 32) (rest : Bytes) :
    readTxVarint (putScriptLen v ++ rest) = some (v, rest) := by
  unfold putScriptLen
  split
  · rename_i hsmall
    have hval : (UInt8.ofNat v).toNat = v := by
      rw [UInt8.toNat_ofNat']
      omega
    have hlt : UInt8.ofNat v < 0xFD := by
      rw [UInt8.lt_iff_toNat_lt, hval]
      exact hsmall
    simp [putLE, readTxVarint, hlt, hval]
  · split
    · exact readLE_putLE (show v < 256 ^ 2 by omega) rest
    · exact readLE_putLE (show v < 256 ^ 4 by omega) rest

theorem putVarint_eq_putScriptLen {v : Nat} (h : v < 2 ^ 32) : putVarint v = putScriptLen v := by
  unfold putVarint putScriptLen
  rw [if_pos (show v ≤ 0xFFFFFFFF by omega)]

theorem TxInput.read_serialize {i : TxInput}
    (h : i.scriptSig.length ≤ maxTransactionScriptSigBytes) (rest : Bytes) :
    TxInput.read (i.serialize ++ rest) = some (i, rest) := by
  have hlen : i.scriptSig.length < 2 ^ 32 := lt_of_le_of_lt h (by decide)
  simp only [TxInput.read, TxInput.serialize, List.append_assoc, readHash_bytes, readLE_putLE_u32,
    readTxVarint_putScriptLen hlen, guard_pos h, takeN_append, some_bind, Option.pure_def,
    UInt32.ofNat_toNat]

theorem TxOutput.read_serialize {o : TxOutput} (h : o.scriptPubkey.length < 2 ^ 32) (rest : Bytes) :
    TxOutput.read (o.serialize ++ rest) = some (o, rest) := by
  simp only [TxOutput.read, TxOutput.serialize, List.append_assoc, readLE_putLE_u64,
    readTxVarint_putScriptLen h, takeN_append, some_bind, Option.pure_def, UInt64.ofNat_toNat]

theorem Transaction.InLimits.read_serialize {tx : Transaction} (h : tx.InLimits) (rest : Bytes) :
    Transaction.read (tx.serialize ++ rest) = some (tx, rest) := by
  have hin : tx.inputs.length < 2 ^ 32 := lt_of_le_of_lt h.inputs (by decide)
  have hout : tx.outputs.length < 2 ^ 32 := lt_of_le_of_lt h.outputs (by decide)
  simp only [Transaction.read, Transaction.serialize, List.append_assoc, readLE_putLE_u32,
    putVarint_eq_putScriptLen hin, putVarint_eq_putScriptLen hout, readTxVarint_putScriptLen hin,
    readTxVarint_putScriptLen hout, guard_pos h.inputs, guard_pos h.outputs,
    readMany_flatMap fun i hi => TxInput.read_serialize (h.scriptSig i hi),
    readMany_flatMap fun o ho => TxOutput.read_serialize (h.scriptPubkey o ho),
    some_bind, Option.pure_def, UInt32.ofNat_toNat]

theorem BlockHeader.read_serialize (h : BlockHeader) (rest : Bytes) :
    BlockHeader.read (h.serialize ++ rest) = some (h, rest) := by
  simp only [BlockHeader.read, BlockHeader.serialize, List.append_assoc, readHash_bytes,
    readLE_putLE_u32, readLE_putLE_u64, some_bind, Option.pure_def, UInt32.ofNat_toNat,
    UInt64.ofNat_toNat]

theorem Block.InLimits.read_serialize {b : Block} (h : b.InLimits) (out : Block) (rest : Bytes) :
    Block.read out (b.serialize ++ rest) = some ({ b with height := out.height }, rest) := by
  have hcount : b.transactions.length < 256 ^ 4 := lt_of_le_of_lt h.count (by decide)
  simp only [Block.read, Block.serialize, List.append_assoc, BlockHeader.read_serialize,
    readLE_putLE hcount, guard_pos h.count,
    readMany_flatMap fun tx htx => (h.transactions tx htx).read_serialize, some_bind,
    Option.pure_def]

theorem deserializeAt_append {α : Type} {read : Bytes → Option (α × Bytes)} {a : α} {bs back : Bytes}
    (h : read (bs ++ back) = some (a, back)) (front : Bytes) :
    deserializeAt read (front ++ (bs ++ back)) front.length = some (bs.length, a) := by
  simp [deserializeAt, h]

/-- Transactions and blocks within the limits are read back from wherever they stand in the data, and
exactly their bytes are taken. A block comes back with its header and its transactions. -/
theorem deserialize_serialize (front back : Bytes) :
    (∀ tx : Transaction, tx.InLimits →
      Transaction.deserialize (front ++ (tx.serialize ++ back)) front.length =
        some (tx.serialize.length, tx)) ∧
    ∀ b out : Block, b.InLimits →
      Block.deserialize (front ++ (b.serialize ++ back)) front.length out =
        some (b.serialize.length, { b with height := out.height }) :=
  ⟨fun _ h => deserializeAt_append (h.read_serialize back) front,
    fun _ out h => deserializeAt_append (h.read_serialize out back) front⟩

/-- A coinbase and a payment of two outputs, one of them with a script that needs a long length. -/
def paidBlock (height : Nat) : Block where
  header := ⟨2, .zero, .fill 3, 1700000000, 7, 9⟩
  transactions :=
    [⟨1, [⟨.zero, 0xFFFFFFFF, [1, 2, 3], 0⟩], [⟨5000000000, [0x51]⟩], 0⟩,
      ⟨2, [⟨.fill 4, 0, List.replicate 300 7, 0xFFFFFFFF⟩, ⟨.fill 4, 1, [8], 1⟩],
        [⟨40, List.replicate 25 9⟩, ⟨0, []⟩], 5⟩]
  height := height

theorem paidBlock_inLimits (height : Nat) : (paidBlock height).InLimits where
  count := show 2 ≤ 4096 by decide
  transactions := by
    intro tx htx
    simp only [paidBlock, List.mem_cons, List.not_mem_nil, or_false] at htx
    obtain rfl | rfl := htx
    · exact ⟨by decide, by decide, by decide, by decide⟩
    · exact ⟨by decide, by decide, by decide +kernel, by decide⟩

theorem deserialize_serialize_paid :
    (paidBlock 1).InLimits ∧
      Block.deserialize ([1, 2] ++ ((paidBlock 1).serialize ++ [3])) 2 (paidBlock 1) =
        some ((paidBlock 1).serialize.length, paidBlock 1) ∧
      ∀ tx ∈ (paidBlock 1).transactions,
        Transaction.deserialize ([1, 2] ++ (tx.serialize ++ [3])) 2 = some (tx.serialize.length, tx) := by
  have hlimits := paidBlock_inLimits 1
  obtain ⟨htxs, hblocks⟩ := deserialize_serialize [1, 2] [3]
  exact ⟨hlimits, hblocks _ _ hlimits, fun tx htx => htxs tx (hlimits.transactions tx htx)⟩

/-- The height does not survive: a new block has height 0, and no bytes say otherwise. -/
theorem deserialize_height :
    (paidBlock 1).InLimits ∧
      (Block.deserialize (paidBlock 1).serialize 0 (paidBlock 0)).map (fun p => p.2.height) = some 0 ∧
      (paidBlock 1).height = 1 :=
  ⟨paidBlock_inLimits 1, by decide +kernel, rfl⟩

end Veld
