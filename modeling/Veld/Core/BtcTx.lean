import Veld.Core.Hash

/-!
# Bitcoin transactions

The two Bitcoin parsers of `core/btc_deposit_verify.h`: the legacy one of the historical mint proofs and the
witness-aware one of the reserve protocol, with the canonical outpoint name and the OP_RETURN payload.
-/

namespace Veld.Btcspv

open Wire

/-- `ReadVarint`: Bitcoin's CompactSize, also in its longer spellings. -/
def readVarint : Bytes → Option (Nat × Bytes)
  | [] => none
  | c :: rest =>
    if c < 0xfd then some (c.toNat, rest)
    else readLE (if c = 0xfd then 2 else if c = 0xfe then 4 else 8) rest

/-- `ReadCanonicalVarint`: the shortest spelling only. -/
def readCanonicalVarint (bs : Bytes) : Option (Nat × Bytes) := do
  let c ← bs.head?
  let (v, rest) ← readVarint bs
  guard (¬ ((c = 0xfd ∧ v < 0xfd) ∨ (c = 0xfe ∧ v ≤ 0xffff) ∨ (c = 0xff ∧ v ≤ 0xffffffff)))
  return (v, rest)

structure BtcTxOut where
  value : Nat
  spk : Bytes
  deriving DecidableEq

structure BtcPrevout where
  txid : Hash256
  vout : Nat
  deriving DecidableEq

def readPrevout (bs : Bytes) : Option (BtcPrevout × Bytes) := do
  let (txid, rest) ← readHash bs
  let (vout, rest) ← readLE 4 rest
  return (⟨txid, vout⟩, rest)

section
variable (varint : Bytes → Option (Nat × Bytes))

/-- An input: the prevout, then scriptSig and sequence, which are skipped. -/
def readInput (bs : Bytes) : Option (BtcPrevout × Bytes) := do
  let (prev, rest) ← readPrevout bs
  let (scriptLen, rest) ← varint rest
  let (_, rest) ← takeN (scriptLen + 4) rest
  return (prev, rest)

def readOutput (bs : Bytes) : Option (BtcTxOut × Bytes) := do
  let (value, rest) ← readLE 8 bs
  let (scriptLen, rest) ← varint rest
  let (spk, rest) ← takeN scriptLen rest
  return (⟨value, spk⟩, rest)

/-- A counted list of inputs, between one and `limit`. -/
def readInputs (limit : Nat) (bs : Bytes) : Option (List BtcPrevout × Bytes) := do
  let (vin, rest) ← varint bs
  guard (vin ≠ 0 ∧ vin ≤ limit)
  readMany (readInput varint) vin rest

def readOutputs (limit : Nat) (bs : Bytes) : Option (List BtcTxOut × Bytes) := do
  let (vout, rest) ← varint bs
  guard (vout ≠ 0 ∧ vout ≤ limit)
  readMany (readOutput varint) vout rest

end

/-- `ParseBtcTxOutputs`: the outputs of a legacy serialisation. -/
def parseBtcTxOutputs (tx : Bytes) : Option (List BtcTxOut) := do
  guard (10 ≤ tx.length)
  let (_, rest) ← takeN 4 tx
  let (_, rest) ← readInputs readVarint 100000 rest
  let (outs, rest) ← readOutputs readVarint 100000 rest
  guard (rest.length = 4)
  return outs

def maxMspvParentCount : Nat := 128

/-- `ParseBtcTxPrevouts`. -/
def parseBtcTxPrevouts (tx : Bytes) : Option (List BtcPrevout) := do
  guard (5 ≤ tx.length)
  let (_, rest) ← takeN 4 tx
  let (prevouts, _) ← readInputs readVarint maxMspvParentCount rest
  guard (prevouts.all fun p => !(p.txid.isZero && p.vout == 0xffffffff))
  return prevouts

/-- `ParseBtcTxInputPrevout`. -/
def parseBtcTxInputPrevout (tx : Bytes) (vinIndex : Nat) : Option BtcPrevout := do
  guard (5 ≤ tx.length)
  let (vin, rest) ← readVarint (tx.drop 4)
  guard (vin ≠ 0 ∧ vin ≤ 100000 ∧ vinIndex < vin)
  let (_, rest) ← readMany (readInput readVarint) vinIndex rest
  let (prev, _) ← readPrevout rest
  return prev

structure WitnessAwareBtcTx where
  txid : Hash256
  hasWitness : Bool
  prevouts : List BtcPrevout
  outputs : List BtcTxOut
  deriving DecidableEq

def readWitnessItem (bs : Bytes) : Option (Unit × Bytes) := do
  let (len, rest) ← readCanonicalVarint bs
  let (_, rest) ← takeN len rest
  return ((), rest)

def readWitnessStack (bs : Bytes) : Option (Nat × Bytes) := do
  let (count, rest) ← readCanonicalVarint bs
  guard (count ≤ 100000)
  let (_, rest) ← readMany readWitnessItem count rest
  return (count, rest)

def parseWitnessAwareBtcTx (sha256 : Bytes → Hash256) (tx : Bytes) (maxInputs maxOutputs : Nat) :
    Option WitnessAwareBtcTx := do
  guard (10 ≤ tx.length ∧ maxInputs ≠ 0 ∧ maxOutputs ≠ 0)
  let (version, body) ← takeN 4 tx
  let witness := body.head? = some 0
  guard (witness → (body.drop 1).head? = some 1)
  let body := if witness then body.drop 2 else body
  let (prevouts, rest) ← readInputs readCanonicalVarint maxInputs body
  let (outputs, rest) ← readOutputs readCanonicalVarint maxOutputs rest
  if witness then
    let (sizes, locktime) ← readMany readWitnessStack prevouts.length rest
    guard (sizes.any (· ≠ 0))
    guard (locktime.length = 4)
    let stripped := version ++ body.take (body.length - rest.length) ++ locktime
    return ⟨hash256d sha256 stripped, true, prevouts, outputs⟩
  else
    guard (rest.length = 4)
    return ⟨hash256d sha256 tx, false, prevouts, outputs⟩

/-- `ExtractOpReturn`: the data pushed by an OP_RETURN script, empty otherwise. -/
def extractOpReturn : Bytes → Bytes
  | 0x6a :: op :: rest =>
    if op < 0x4c then (if op.toNat ≤ rest.length then rest.take op.toNat else [])
    else match op, rest with
      | 0x4c, n :: data => if n.toNat ≤ data.length then data.take n.toNat else []
      | 0x4d, lo :: hi :: data =>
        if lo.toNat + 256 * hi.toNat ≤ data.length then data.take (lo.toNat + 256 * hi.toNat)
        else []
      | _, _ => []
  | _ => []

/-- `BtcDisplayTxid`: the hash in bitcoind's byte order. -/
def btcDisplayTxid (txid : Hash256) : Bytes := toHex txid.bytes.reverse

/-- `BtcDepositOutpointId`: the canonical name `txid:vout` of an outpoint. -/
def btcDepositOutpointId (txid : Hash256) (vout : Nat) : Bytes :=
  btcDisplayTxid txid ++ ascii ":" ++ toDecimal vout

/-- `btcVELD:<address>` payloads among the outputs. -/
def recipientTags (outs : List BtcTxOut) : List Bytes :=
  outs.filterMap fun o =>
    let data := extractOpReturn o.spk
    if 8 < data.length ∧ data.take 8 = ascii "btcVELD:" then some (data.drop 8) else none

end Veld.Btcspv
