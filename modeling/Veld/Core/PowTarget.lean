import Mathlib

/-!
# Compact targets and block work

`core/btc_pow.h`, `core/pow_target.h` and `core/chain_work.h`: the compact form of a 256-bit
target, its canonical decoding, and the work of a block as the tier ladder measures it.
-/

namespace Veld

structure CompactTarget where
  target : Nat
  negative : Bool
  overflow : Bool
  deriving DecidableEq

def compactToTarget (bits : Nat) : CompactTarget :=
  let size := bits >>> 24
  let mantissa := bits &&& 0x007fffff
  let word := if size ≤ 3 then mantissa >>> (8 * (3 - size)) else mantissa
  { target := if size ≤ 3 then word else (word <<< (8 * (size - 3))) % 2 ^ 256
    negative := word != 0 && bits &&& 0x00800000 != 0
    overflow := word != 0 &&
      (34 < size || (0xff < word && 33 < size) || (0xffff < word && 32 < size)) }

def targetToCompact (t : Nat) : Nat :=
  let size := (t.size + 7) / 8
  let compact := (if size ≤ 3 then (t <<< (8 * (3 - size))) % 2 ^ 64 else t >>> (8 * (size - 3))) % 2 ^ 32
  if compact &&& 0x00800000 ≠ 0 then (compact >>> 8) ||| (((size + 1) <<< 24) % 2 ^ 32)
  else compact ||| ((size <<< 24) % 2 ^ 32)

def veldPowLimitBits : Nat := 0x207fffff

def decodeCanonicalVeldTarget (bits : Nat) : Option Nat :=
  let c := compactToTarget bits
  if c.negative = false ∧ c.overflow = false ∧ c.target ≠ 0 ∧
      c.target ≤ (compactToTarget veldPowLimitBits).target ∧ targetToCompact c.target = bits then
    some c.target
  else none

/-- `BlockWork`. -/
def blockWork (bits : Nat) : Nat :=
  match decodeCanonicalVeldTarget bits with
  | none => 0
  | some t => (2 ^ 256 - 1 - t) / (t + 1) + 1

/-- `BlockWorkForTier`: saturated to 64 bits. -/
def blockWorkForTier (bits : Nat) : Nat := min (blockWork bits) (2 ^ 64 - 1)

end Veld
