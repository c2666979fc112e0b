import Veld.Core.Profile
import Veld.Core.Transaction

/-!
# Addresses and authorisation

`Base58CheckDecode_`, `AddressToScript`, `IsCanonicalTokenCreditAddress` of `core/script.h` and
`TxVerifiedSignedBy` of `core/op_authorization.h`.
-/

namespace Veld

open Wire

def base58Alphabet : Bytes :=
  ascii "123456789ABCDEFGHJKLMNPQRSTUVWXYZabcdefghijkmnopqrstuvwxyz"

def carryBytes : Nat → Nat → Bytes
  | 0, _ => []
  | fuel + 1, carry => if carry = 0 then [] else UInt8.ofNat carry :: carryBytes fuel (carry / 256)

/-- `digits := 58 * digits + carry` in base 256; the carry is a 32-bit `int`. -/
def base58Push : Bytes → Nat → Bytes
  | [], carry => carryBytes 4 carry
  | d :: ds, carry =>
    let c := carry + 58 * d.toNat
    UInt8.ofNat c :: base58Push ds (c / 256)

/-- The base-256 digits of a base-58 text, `none` on a foreign character. -/
def base58Digits (address : Bytes) : Option Bytes :=
  address.foldlM (fun digits c => do
    let pos ← base58Alphabet.findIdx? (· == c)
    return base58Push digits pos) [0]

section
variable (sha256 : Bytes → Hash256)

def base58CheckDecode (address : Bytes) : Bytes :=
  if address.length < 25 ∨ 75 < address.length then [] else
  match base58Digits address with
  | none => []
  | some digits =>
    let dec := List.replicate (address.takeWhile (· == 49)).length 0 ++ digits.reverse
    if dec.length < 5 then [] else
    let payload := dec.take (dec.length - 4)
    if (hash256d sha256 payload).bytes.take 4 ≠ dec.drop (dec.length - 4) then [] else
    if payload.length ≠ 21 ∧ payload.length ≠ 49 then [] else payload

def addressToScript (P : Profile) (address : Bytes) : Bytes :=
  match base58CheckDecode sha256 address with
  | [] => []
  | ver :: body =>
    if body.length = 48 then
      if ver = 0x47 ∨ (!P.mainnetPow ∧ ver = 0x70) then 0xC0 :: 1 :: 48 :: body else []
    else if body.length = 20 then
      if ver = 0x05 ∨ (!P.mainnetPow ∧ ver = 0xC4) then 0xA9 :: 0x14 :: (body ++ [0x87])
      else if ver = 0x46 ∨ (!P.mainnetPow ∧ ver = 0x6F) then
        0x76 :: 0xA9 :: 0x14 :: (body ++ [0x88, 0xAC])
      else []
    else []

/-- The 25-byte pay-to-key-hash form. -/
def isP2PKHScript (s : Bytes) : Bool :=
  s.length == 25 && s.take 3 == [0x76, 0xA9, 0x14] && s.drop 23 == [0x88, 0xAC]

def isCanonicalTokenCreditAddress (P : Profile) (address : Bytes) : Bool :=
  isP2PKHScript (addressToScript sha256 P address)

end

/-- `TxVerifiedSignedBy`. -/
def txVerifiedSignedBy (P : Profile) (C : Crypto) (tx : Transaction) (address : Bytes) : Bool :=
  let script := addressToScript C.sha256 P address
  2 ≤ address.length && script.length == 25 &&
    (List.range tx.inputs.length).any fun i => C.verifyP2PKHInputSig tx i script

variable {address : Bytes}

theorem mem_base58Alphabet_of_digits {digits : Bytes} (h : base58Digits address = some digits) :
    ∀ c ∈ address, c ∈ base58Alphabet := by
  unfold base58Digits at h
  generalize ([0] : Bytes) = start at h
  induction address generalizing start with
  | nil => simp
  | cons c rest ih =>
    rw [List.foldlM_cons] at h
    obtain ⟨next, hnext, hrest⟩ := bind_eq_some.mp h
    obtain ⟨pos, hpos, -⟩ := bind_eq_some.mp hnext
    have hc : c ∈ base58Alphabet := by
      obtain ⟨hlt, heq, -⟩ := List.findIdx?_eq_some_iff_getElem.mp hpos
      exact beq_iff_eq.mp heq ▸ List.getElem_mem hlt
    exact List.forall_mem_cons.mpr ⟨hc, ih next hrest⟩

theorem colon_notMem_of_isCanonical {sha256 : Bytes → Hash256} {P : Profile}
    (h : isCanonicalTokenCreditAddress sha256 P address) : 58 ∉ address := by
  intro hcolon
  have hdecode : base58CheckDecode sha256 address = [] := by
    unfold base58CheckDecode
    split
    · rfl
    · cases hdigits : base58Digits address with
      | none => rfl
      | some digits =>
        have := mem_base58Alphabet_of_digits hdigits 58 hcolon
        exact absurd this (by decide)
  simp [isCanonicalTokenCreditAddress, addressToScript, hdecode, isP2PKHScript] at h

theorem isCanonical_of_signed {P : Profile} {C : Crypto} {tx : Transaction}
    (h : txVerifiedSignedBy P C tx address) :
    isCanonicalTokenCreditAddress C.sha256 P address := by
  simp only [txVerifiedSignedBy, Bool.and_eq_true, beq_iff_eq, decide_eq_true_eq] at h
  have hlen := h.1.2
  unfold isCanonicalTokenCreditAddress
  revert hlen
  unfold addressToScript
  split
  · simp
  · rename_i ver body _
    split
    · -- a SHA-384 destination script has 51 bytes
      rename_i h48
      split <;> simp [h48]
    · split
      · rename_i h20
        split
        · simp [h20]
        · split
          · simp [isP2PKHScript, h20]
          · simp
      · simp

/-! ## Fixed inputs -/

/-- One digest for everything, not the zero one. -/
def Hash256.ones : Hash256 := ⟨List.replicate 32 1, by decide⟩

/-- That digest and every signature accepted, for runs on fixed inputs. -/
def Crypto.blank : Crypto := ⟨fun _ => Hash256.ones, fun _ _ _ => true⟩

/-- Three accounts whose checksum is the blank digest. -/
def aliceAddress : Bytes := ascii "VAkXoYhukkJUdpP2uySSJ8Z23zxK8UtdXW"
/-- The public build with the first of them as issuer. -/
def Profile.sample : Profile := { Profile.publicMainnet with issuerAddress := aliceAddress }

end Veld
