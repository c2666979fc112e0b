import Veld.Lib.Wire

/-!
# Hashes

`Hash256` is the 32-byte array of `core/hash.h`. The two cryptographic primitives of the program,
SHA-256 and the ML-DSA input-signature check, are the fields of `Crypto`; everything built from
them (`Hash256d`, the domain-tagged hash) is defined here as in the source.
-/

namespace Veld

open Wire

structure Hash256 where
  bytes : Bytes
  size : bytes.length = 32
  deriving DecidableEq

namespace Hash256

def zero : Hash256 := ⟨List.replicate 32 0, by decide⟩

/-- The hash whose bytes are all `b`. -/
def fill (b : UInt8) : Hash256 := ⟨List.replicate 32 b, List.length_replicate⟩

theorem size_leading (bs : Bytes) : ((bs ++ List.replicate 32 0).take 32).length = 32 := by simp

def isZero (h : Hash256) : Bool := h == zero

def ofBytes? (bs : Bytes) : Option Hash256 :=
  if h : bs.length = 32 then some ⟨bs, h⟩ else none

/-- Lower-case hexadecimal text of a hash. -/
def toHex (h : Hash256) : Bytes := Wire.toHex h.bytes

/-- Lexicographic order of the byte arrays, the order of `std::map<Hash256, _>`. -/
def le (a b : Hash256) : Bool := decide (a.bytes ≤ b.bytes)

theorem ext_bytes {a b : Hash256} (h : a.bytes = b.bytes) : a = b := by
  cases a; cases b; cases h; rfl

end Hash256

def readHash (bs : Bytes) : Option (Hash256 × Bytes) := do
  let (field, rest) ← takeN 32 bs
  let h ← Hash256.ofBytes? field
  return (h, rest)

theorem readHash_bytes (h : Hash256) (rest : Bytes) : readHash (h.bytes ++ rest) = some (h, rest) := by
  have ht := takeN_append h.bytes rest
  rw [h.size] at ht
  simp [readHash, ht, Hash256.ofBytes?, h.size]

theorem readHash_eq_put {h : Hash256} {bs rest : Bytes} (hr : readHash bs = some (h, rest)) :
    bs = h.bytes ++ rest := by
  simp only [readHash, bind_eq_some, Prod.exists, pure_eq_some, Prod.mk.injEq] at hr
  obtain ⟨field, r, htake, h', hof, rfl, rfl⟩ := hr
  obtain ⟨rfl, -⟩ := takeN_eq_some.mp htake
  unfold Hash256.ofBytes? at hof
  split at hof
  · cases hof
    rfl
  · cases hof

section
variable (sha256 : Bytes → Hash256)

def hash256d (bs : Bytes) : Hash256 := sha256 (sha256 bs).bytes

/-- `sha256_domain`: the tag's characters, then the body. -/
def sha256Domain (tag : String) (body : Bytes) : Hash256 := sha256 (ascii tag ++ body)

end

/-- `put_len_prefixed` of `consensus/state_digest.h`. -/
def putLenPrefixed (bs : Bytes) : Bytes := putLE 4 bs.length ++ bs

end Veld
