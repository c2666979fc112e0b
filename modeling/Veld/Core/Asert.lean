import Veld.Core.PowTarget

/-!
# The difficulty adjustment

`CalculateASERTBits` of `core/asert.h`: the anchor target is scaled by a power of two with a cubic
approximation of the fractional part, clamped to the limit and written in compact form.
-/

namespace Veld

open List

/-! ## Compact form and back -/

/-- The exponent byte of the compact form. -/
def byteLen (t : Nat) : Nat := t.size / 8 + 1

/-- The part of a target that the compact form keeps. -/
def truncTarget (t : Nat) : Nat := t / 2 ^ (8 * byteLen t - 24) * 2 ^ (8 * byteLen t - 24)

def mantissa (t : Nat) : Nat := t / 2 ^ (8 * byteLen t - 24) * 2 ^ (24 - 8 * byteLen t)

section
variable {t t' : Nat}

theorem pow_le_of_size (h : 0 < t) : 2 ^ (t.size - 1) ≤ t :=
  Nat.lt_size.mp (Nat.sub_lt (Nat.size_pos.mpr h) one_pos)

theorem shifted_lt {k c : Nat} (hsize : t.size + c ≤ 8 * k) (hc : c ≤ 24) :
    t / 2 ^ (8 * k - 24) * 2 ^ (24 - 8 * k) < 2 ^ (24 - c) := by
  have hhigh : t < 2 ^ (8 * k - c) := (Nat.lt_size_self t).trans_le (Nat.pow_le_pow_right (by decide) (by omega))
  rcases Nat.lt_or_ge (8 * k) 24 with hk | hk
  · rw [show 8 * k - 24 = 0 by omega, pow_zero, Nat.div_one]
    calc _ < 2 ^ (8 * k - c) * 2 ^ (24 - 8 * k) := Nat.mul_lt_mul_of_pos_right hhigh (by positivity)
      _ = 2 ^ (24 - c) := by rw [← pow_add]; congr 1; omega
  · rw [show 24 - 8 * k = 0 by omega, pow_zero, Nat.mul_one, Nat.div_lt_iff_lt_mul (by positivity), ← pow_add,
      show 24 - c + (8 * k - 24) = 8 * k - c by omega]
    exact hhigh

theorem mantissa_lt (t : Nat) : mantissa t < 2 ^ 23 :=
  shifted_lt (c := 1) (by unfold byteLen; omega) (by decide)

theorem or_shift_eq {a k : Nat} (ha : a < 2 ^ 24) (hk : k < 2 ^ 8) : a ||| (k <<< 24 % 2 ^ 32) = a + k * 2 ^ 24 := by
  have hlt : k <<< 24 < 2 ^ 32 := by
    rw [Nat.shiftLeft_eq]
    omega
  rw [Nat.mod_eq_of_lt hlt, Nat.lor_comm, ← Nat.shiftLeft_add_eq_or_of_lt ha, Nat.shiftLeft_eq, Nat.add_comm]

theorem and_signBit {a : Nat} (ha : a < 2 ^ 24) : a &&& 0x00800000 ≠ 0 ↔ 2 ^ 23 ≤ a := by
  rw [show (0x00800000 : Nat) = 2 ^ 23 by decide, Nat.and_two_pow, Nat.testBit_eq_decide_div_mod_eq]
  have hbit : a / 2 ^ 23 % 2 = 1 ↔ 2 ^ 23 ≤ a := by omega
  simpa using hbit

theorem rawMantissa_eq {k : Nat} (hsize : t.size ≤ 8 * k) :
    (if k ≤ 3 then (t <<< (8 * (3 - k))) % 2 ^ 64 else t >>> (8 * (k - 3))) % 2 ^ 32 =
      t / 2 ^ (8 * k - 24) * 2 ^ (24 - 8 * k) := by
  have hlt : t / 2 ^ (8 * k - 24) * 2 ^ (24 - 8 * k) < 2 ^ 24 := shifted_lt (c := 0) hsize (by decide)
  by_cases hk : k ≤ 3
  · rw [show 8 * k - 24 = 0 by omega, show 24 - 8 * k = 8 * (3 - k) by omega, pow_zero, Nat.div_one] at hlt ⊢
    rw [if_pos hk, Nat.shiftLeft_eq, Nat.mod_eq_of_lt (by omega), Nat.mod_eq_of_lt (by omega)]
  · rw [show 24 - 8 * k = 0 by omega, show 8 * k - 24 = 8 * (k - 3) by omega, pow_zero, Nat.mul_one] at hlt ⊢
    rw [if_neg hk, Nat.shiftRight_eq_div_pow]
    exact Nat.mod_eq_of_lt (by omega)

theorem targetToCompact_eq (h : 0 < t) (hlt : t < 2 ^ 255) : targetToCompact t = mantissa t + byteLen t * 2 ^ 24 := by
  have hpos := Nat.size_pos.mpr h
  have hsize : t.size ≤ 255 := Nat.size_le.mpr hlt
  have hm := mantissa_lt t
  have hraw := rawMantissa_eq (t := t) (k := (t.size + 7) / 8) (by omega)
  have hraw' : _ < 2 ^ 24 := shifted_lt (t := t) (k := (t.size + 7) / 8) (c := 0) (by omega) (by decide)
  unfold targetToCompact
  simp only [hraw, and_signBit hraw']
  by_cases h8 : t.size % 8 = 0
  · -- the top bit of the first byte is set, so the exponent moves up by one byte
    obtain ⟨k, hk⟩ : ∃ k, t.size = 8 * k := ⟨t.size / 8, by omega⟩
    have hlen : byteLen t = k + 1 := by
      unfold byteLen
      omega
    have hlow := pow_le_of_size h
    rw [show (t.size + 7) / 8 = k by omega] at hraw' ⊢
    have htop : 2 ^ 23 ≤ t / 2 ^ (8 * k - 24) * 2 ^ (24 - 8 * k) := by
      rcases Nat.lt_or_ge k 3 with h3 | h3
      · rw [show 8 * k - 24 = 0 by omega, pow_zero, Nat.div_one]
        calc 2 ^ 23 = 2 ^ (t.size - 1) * 2 ^ (24 - 8 * k) := by rw [← pow_add]; congr 1; omega
          _ ≤ _ := Nat.mul_le_mul_right _ hlow
      · rw [show 24 - 8 * k = 0 by omega, pow_zero, Nat.mul_one, Nat.le_div_iff_mul_le (by positivity), ← pow_add]
        exact (Nat.pow_le_pow_right (by decide) (by omega)).trans hlow
    have hshift : (t / 2 ^ (8 * k - 24) * 2 ^ (24 - 8 * k)) >>> 8 = mantissa t := by
      rw [mantissa, hlen, Nat.shiftRight_eq_div_pow]
      rcases Nat.lt_or_ge k 3 with h3 | h3
      · rw [show 8 * k - 24 = 0 by omega, show 8 * (k + 1) - 24 = 0 by omega, pow_zero, Nat.div_one,
          show 24 - 8 * k = 24 - 8 * (k + 1) + 8 by omega, pow_add, ← Nat.mul_assoc, Nat.mul_div_cancel _ (by decide)]
      · rw [show 24 - 8 * k = 0 by omega, show 24 - 8 * (k + 1) = 0 by omega, pow_zero, Nat.mul_one, Nat.mul_one,
          Nat.div_div_eq_div_mul, ← pow_add, show 8 * k - 24 + 8 = 8 * (k + 1) - 24 by omega]
    rw [if_pos htop, hshift, hlen]
    exact or_shift_eq (by omega) (by omega)
  · have hlen : (t.size + 7) / 8 = byteLen t := by
      unfold byteLen
      omega
    rw [hlen] at hraw' ⊢
    have hmant : t / 2 ^ (8 * byteLen t - 24) * 2 ^ (24 - 8 * byteLen t) = mantissa t := rfl
    rw [hmant, if_neg (by omega)]
    exact or_shift_eq (by omega) (by unfold byteLen; omega)

theorem truncTarget_le (t : Nat) : truncTarget t ≤ t := Nat.div_mul_le_self t _

theorem pow_le_truncTarget (h : 0 < t) : 2 ^ (t.size - 1) ≤ truncTarget t := by
  have hlow := pow_le_of_size h
  have hpos := Nat.size_pos.mpr h
  have hsplit : 2 ^ (t.size - 1) = 2 ^ (t.size - 1 - (8 * byteLen t - 24)) * 2 ^ (8 * byteLen t - 24) := by
    rw [← pow_add]
    congr 1
    unfold byteLen
    omega
  rw [truncTarget, hsplit]
  exact Nat.mul_le_mul_right _ ((Nat.le_div_iff_mul_le (by positivity)).mpr (hsplit ▸ hlow))

theorem byteLen_truncTarget (h : 0 < t) : byteLen (truncTarget t) = byteLen t := by
  have hle := Nat.size_le_size (truncTarget_le t)
  have hge := Nat.lt_size.mpr (pow_le_truncTarget h)
  unfold byteLen
  rw [show (truncTarget t).size = t.size by omega]

theorem truncTarget_mono (h : 0 < t) (hle : t ≤ t') : truncTarget t ≤ truncTarget t' := by
  have hsize := Nat.size_le_size hle
  by_cases hlen : byteLen t = byteLen t'
  · rw [truncTarget, truncTarget, hlen]
    exact Nat.mul_le_mul_right _ (Nat.div_le_div_right hle)
  · -- a longer number keeps its top bit, which lies above the shorter one
    calc truncTarget t ≤ t := truncTarget_le t
      _ ≤ 2 ^ t.size := (Nat.lt_size_self t).le
      _ ≤ 2 ^ (t'.size - 1) := Nat.pow_le_pow_right (by decide) (by unfold byteLen at hlen; omega)
      _ ≤ truncTarget t' := pow_le_truncTarget (h.trans_le hle)

theorem compactToTarget_fields {m k : Nat} (hm : m < 2 ^ 23) (hk : k ≤ 32) : compactToTarget (m + k * 2 ^ 24) =
    ⟨if k ≤ 3 then m >>> (8 * (3 - k)) else (m <<< (8 * (k - 3))) % 2 ^ 256, false, false⟩ := by
  have hsize : (m + k * 2 ^ 24) >>> 24 = k := by
    rw [Nat.shiftRight_eq_div_pow]
    omega
  have hmant : (m + k * 2 ^ 24) &&& 0x007fffff = m := by
    rw [show (0x007fffff : Nat) = 2 ^ 23 - 1 by decide, Nat.and_two_pow_sub_one_eq_mod]
    omega
  have hsign : (m + k * 2 ^ 24) &&& 0x00800000 = 0 := by
    rw [show (0x00800000 : Nat) = 2 ^ 23 by decide, Nat.and_two_pow, Nat.testBit_eq_decide_div_mod_eq,
      show (m + k * 2 ^ 24) / 2 ^ 23 % 2 = 0 by omega]
    rfl
  simp only [compactToTarget, hsize, hmant, hsign]
  by_cases h3 : k ≤ 3
  · simp [h3, show ¬34 < k by omega, show ¬33 < k by omega, show ¬32 < k by omega]
  · simp [h3, show ¬34 < k by omega, show ¬33 < k by omega, show ¬32 < k by omega]

/-- The compact form of a target within the limit is canonical and decodes to what it keeps. -/
theorem decode_targetToCompact (h : 0 < t) (hle : t ≤ (compactToTarget veldPowLimitBits).target) :
    decodeCanonicalVeldTarget (targetToCompact t) = some (truncTarget t) := by
  have hlt : t < 2 ^ 255 := hle.trans_lt (by decide)
  have hsize : t.size ≤ 255 := Nat.size_le.mpr hlt
  have hkeep := truncTarget_le t
  have hpos : 0 < truncTarget t := (by positivity : 0 < 2 ^ (t.size - 1)).trans_le (pow_le_truncTarget h)
  have htarget : compactToTarget (targetToCompact t) = ⟨truncTarget t, false, false⟩ := by
    rw [targetToCompact_eq h hlt, compactToTarget_fields (mantissa_lt t) (by unfold byteLen; omega)]
    congr 1
    split
    · rename_i h3
      rw [mantissa, truncTarget, Nat.shiftRight_eq_div_pow, show 24 - 8 * byteLen t = 8 * (3 - byteLen t) by omega,
        Nat.mul_div_cancel _ (by positivity), show 8 * byteLen t - 24 = 0 by omega, pow_zero, Nat.mul_one]
    · rename_i h3
      rw [mantissa, Nat.shiftLeft_eq, show 24 - 8 * byteLen t = 0 by omega, pow_zero, Nat.mul_one,
        show 8 * (byteLen t - 3) = 8 * byteLen t - 24 by omega]
      exact Nat.mod_eq_of_lt (hkeep.trans_lt (hlt.trans (by decide)))
  have hcanonical : targetToCompact (truncTarget t) = targetToCompact t := by
    rw [targetToCompact_eq hpos (hkeep.trans_lt hlt), targetToCompact_eq h hlt, byteLen_truncTarget h]
    congr 1
    rw [mantissa, mantissa, byteLen_truncTarget h, truncTarget, Nat.mul_div_cancel _ (by positivity)]
  simp only [decodeCanonicalVeldTarget, htarget]
  exact if_pos ⟨trivial, trivial, hpos.ne', hkeep.trans hle, hcanonical⟩

end

/-! ## The adjustment -/

/-- The conversion to `__int128`. -/
def i128 (x : Int) : Int := Int.bmod x (2 ^ 128)

def asertExponent (timeDelta : Int) (heightDelta spacing halfLife : Nat) : Int :=
  let delta := i128 (timeDelta - i128 (spacing * i128 (heightDelta + 1)))
  (i128 (delta * 65536)).tdiv halfLife

def asertShifts (e : Int) : Int := if 0 ≤ e then e.tdiv 65536 else -((-e + 65535).tdiv 65536)

def cubicSum (fraction : Nat) : Nat :=
  195766423245049 * fraction + 971821376 * fraction * fraction + 5127 * fraction * fraction * fraction + 2 ^ 47

def asertFactor (fraction : Nat) : Nat := 65536 + (cubicSum fraction % 2 ^ 64) >>> 48

/-- The words of a number, low word first. -/
def toWords : Nat → Nat → List Nat
  | 0, _ => []
  | n + 1, t => t % 2 ^ 32 :: toWords n (t / 2 ^ 32)

def ofWords : List Nat → Nat
  | [] => 0
  | w :: ws => w + 2 ^ 32 * ofWords ws

/-- The loop that multiplies by the factor; the last word is the carry. -/
def mulWords (factor : Nat) : List Nat → Nat → List Nat
  | [], carry => [carry % 2 ^ 32]
  | w :: ws, carry =>
    let word := (w * factor + carry) % 2 ^ 64
    word % 2 ^ 32 :: mulWords factor ws (word / 2 ^ 32)

/-- The loop that moves the bits of the product; `none` when one leaves the 256 bits. -/
def placeBits (product : List Nat) (shifts : Int) : List Nat → Nat → Option Nat
  | [], result => some result
  | bit :: rest, result =>
    if (product.getD (bit / 32) 0).testBit (bit % 32) = false then placeBits product shifts rest result
    else
      let destination : Int := bit + shifts - 16
      if 256 ≤ destination then none
      else placeBits product shifts rest (if 0 ≤ destination then result ||| 2 ^ destination.toNat else result)

def productBits : List Nat := List.range 288

def exponentBound : Int := 512 * 65536

/-- The words of the anchor times the factor of the fraction. -/
def asertProduct (anchor : Nat) (e : Int) : List Nat :=
  mulWords (asertFactor (e - asertShifts e * 65536).toNat) (toWords 8 anchor) 0

/-- The clamps and the encoding of the result. -/
def asertResult (limit limitBits : Nat) : Option Nat → Option Nat
  | none => some limitBits
  | some result =>
    let result := if result = 0 then 1 else result
    let result := if limit < result then limit else result
    if (decodeCanonicalVeldTarget (targetToCompact result)).isSome then some (targetToCompact result) else none

/-- The part of `CalculateASERTBits` after the exponent is known. -/
def asertBitsAt (anchor limit limitBits : Nat) (exponent : Int) : Option Nat :=
  if exponentBound < exponent then some limitBits
  else if exponent < -exponentBound then some 0x01010000
  else asertResult limit limitBits (placeBits (asertProduct anchor exponent) (asertShifts exponent) productBits 0)

def calculateASERTBits (anchorBits : Nat) (timeDelta : Int) (heightDelta spacing halfLife limitBits : Nat) :
    Option Nat :=
  if spacing = 0 ∨ halfLife = 0 then none
  else
    match decodeCanonicalVeldTarget anchorBits, decodeCanonicalVeldTarget limitBits with
    | some anchor, some limit =>
      if limit < anchor then none
      else asertBitsAt anchor limit limitBits (asertExponent timeDelta heightDelta spacing halfLife)
    | _, _ => none

/-! ## The exact adjustment -/

def exactExponent (timeDelta : Int) (heightDelta spacing halfLife : Nat) : Int :=
  ((timeDelta - spacing * (heightDelta + 1)) * 65536).tdiv halfLife

def exactFactor (e : Int) : Nat := 65536 + cubicSum (e % 65536).toNat / 2 ^ 48

/-- The scaled anchor: `anchor * factor * 2^shift`. -/
def exactScaled (anchor : Nat) (e : Int) : ℚ := anchor * exactFactor e * 2 ^ (e / 65536 - 16)

def exactTarget (anchor limit : Nat) (e : Int) : Nat := max 1 (min limit ⌊exactScaled anchor e⌋₊)

section
variable {f f' : Nat} {e e' : Int}

theorem cubicSum_mono (h : f ≤ f') : cubicSum f ≤ cubicSum f' := by
  unfold cubicSum
  gcongr

theorem cubicSum_lt (h : f < 65536) : cubicSum f < 2 ^ 64 :=
  (cubicSum_mono (Nat.le_of_lt_succ h)).trans_lt (by decide)

theorem exactFactor_bounds (e : Int) : 65536 ≤ exactFactor e ∧ exactFactor e < 131072 := by
  have hlt := cubicSum_lt (show (e % 65536).toNat < 65536 by omega)
  unfold exactFactor
  omega

/-- Over a whole octave the factor stays below twice its least value, so the scale never falls. -/
theorem exactScaled_mono (anchor : Nat) (h : e ≤ e') : exactScaled anchor e ≤ exactScaled anchor e' := by
  obtain ⟨hlow, hhigh⟩ := exactFactor_bounds e
  obtain ⟨hlow', hhigh'⟩ := exactFactor_bounds e'
  unfold exactScaled
  rcases eq_or_lt_of_le (Int.ediv_le_ediv (by decide) h : e / 65536 ≤ e' / 65536) with heq | hlt
  · have hfactor : exactFactor e ≤ exactFactor e' := by
      unfold exactFactor
      have := cubicSum_mono (show (e % 65536).toNat ≤ (e' % 65536).toNat by omega)
      omega
    rw [heq]
    gcongr
  · have hpow : (2 : ℚ) ^ (e / 65536 - 16) * 2 ≤ 2 ^ (e' / 65536 - 16) := by
      rw [← zpow_add_one₀ (by norm_num)]
      exact zpow_le_zpow_right₀ (by norm_num) (by omega)
    have hfactor : (exactFactor e : ℚ) ≤ 2 * exactFactor e' := by
      have : exactFactor e ≤ 2 * exactFactor e' := by omega
      exact_mod_cast this
    calc (anchor : ℚ) * exactFactor e * 2 ^ (e / 65536 - 16)
        ≤ anchor * (2 * exactFactor e') * 2 ^ (e / 65536 - 16) := by gcongr
      _ = anchor * exactFactor e' * (2 ^ (e / 65536 - 16) * 2) := by ring
      _ ≤ anchor * exactFactor e' * 2 ^ (e' / 65536 - 16) := by gcongr

theorem exactTarget_mono (anchor limit : Nat) (h : e ≤ e') : exactTarget anchor limit e ≤ exactTarget anchor limit e' :=
  max_le_max le_rfl (min_le_min le_rfl (Nat.floor_mono (exactScaled_mono anchor h)))

end

/-! ## The code against the exact adjustment -/

section
variable {ws : List Nat} {factor carry : Nat}

theorem toWords_eq (n t : Nat) : ofWords (toWords n t) = t % 2 ^ (32 * n) ∧ ∀ w ∈ toWords n t, w < 2 ^ 32 := by
  induction n generalizing t with
  | zero => simp [toWords, ofWords, Nat.mod_one]
  | succ n ih =>
    obtain ⟨hvalue, hwords⟩ := ih (t / 2 ^ 32)
    constructor
    · rw [toWords, ofWords, hvalue, show 32 * (n + 1) = 32 + 32 * n by omega, pow_add, Nat.mod_mul]
    · exact forall_mem_cons.mpr ⟨Nat.mod_lt _ (by decide), hwords⟩

theorem mulWords_eq (hws : ∀ w ∈ ws, w < 2 ^ 32) (hfactor : factor < 2 ^ 18) (hcarry : carry < 2 ^ 32) :
    ofWords (mulWords factor ws carry) = ofWords ws * factor + carry ∧ ∀ w ∈ mulWords factor ws carry, w < 2 ^ 32 := by
  induction ws generalizing carry with
  | nil =>
    simp only [mulWords, ofWords, Nat.mod_eq_of_lt hcarry, forall_mem_singleton]
    exact ⟨by omega, hcarry⟩
  | cons w ws ih =>
    have hw := hws w mem_cons_self
    have hprod : w * factor ≤ (2 ^ 32 - 1) * (2 ^ 18 - 1) := Nat.mul_le_mul (by omega) (by omega)
    obtain ⟨hvalue, hwords⟩ := ih (fun w hw => hws w (mem_cons_of_mem _ hw))
      (show (w * factor + carry) / 2 ^ 32 < 2 ^ 32 by omega)
    have hfull : (w * factor + carry) % 2 ^ 64 = w * factor + carry := Nat.mod_eq_of_lt (by omega)
    constructor
    · simp only [mulWords, ofWords, hfull, hvalue]
      have := Nat.mod_add_div (w * factor + carry) (2 ^ 32)
      linarith
    · simp only [mulWords, hfull]
      exact forall_mem_cons.mpr ⟨Nat.mod_lt _ (by decide), hwords⟩

theorem ofWords_testBit (hws : ∀ w ∈ ws, w < 2 ^ 32) (bit : Nat) :
    (ofWords ws).testBit bit = (ws.getD (bit / 32) 0).testBit (bit % 32) := by
  induction ws generalizing bit with
  | nil => simp [ofWords]
  | cons w ws ih =>
    have hw := hws w mem_cons_self
    rw [ofWords, Nat.add_comm, Nat.testBit_two_pow_mul_add _ hw]
    split
    · rename_i hlt
      rw [show bit / 32 = 0 by omega, show bit % 32 = bit by omega, getD_cons_zero]
    · rename_i hge
      rw [ih (fun w hw => hws w (mem_cons_of_mem _ hw)), show bit / 32 = (bit - 32) / 32 + 1 by omega,
        getD_cons_succ, show (bit - 32) % 32 = bit % 32 by omega]

theorem placeBits_spec {product : List Nat} {P : Nat}
    (hP : ∀ bit, P.testBit bit = (product.getD (bit / 32) 0).testBit (bit % 32))
    (shifts : Int) (bits : List Nat) (r : Nat) :
    match placeBits product shifts bits r with
    | none => ∃ b ∈ bits, P.testBit b ∧ 256 ≤ (b : Int) + shifts - 16
    | some r' => (∀ b ∈ bits, P.testBit b → (b : Int) + shifts - 16 < 256) ∧
        ∀ j, r'.testBit j ↔ r.testBit j ∨ ∃ b ∈ bits, P.testBit b ∧ (b : Int) + shifts - 16 = j := by
  induction bits generalizing r with
  | nil => simp [placeBits]
  | cons bit rest ih =>
    unfold placeBits
    rw [← hP]
    by_cases hbit : P.testBit bit = false
    · rw [if_pos hbit]
      have hrest := ih r
      split at hrest <;> simp_all
    · have hbit' : P.testBit bit = true := by simpa using hbit
      rw [if_neg hbit]
      by_cases hout : 256 ≤ (bit : Int) + shifts - 16
      · simp only [hout, if_true]
        exact ⟨bit, mem_cons_self, hbit', hout⟩
      · simp only [hout, if_false]
        have hrest := ih (if 0 ≤ (bit : Int) + shifts - 16 then r ||| 2 ^ ((bit : Int) + shifts - 16).toNat else r)
        generalize placeBits product shifts rest _ = placed at hrest ⊢
        cases placed with
        | none =>
          obtain ⟨b, hb, h⟩ := hrest
          exact ⟨b, mem_cons_of_mem _ hb, h⟩
        | some r' =>
          refine ⟨forall_mem_cons.mpr ⟨fun _ => by omega, hrest.1⟩, fun j => ?_⟩
          have hplaced :
              (if 0 ≤ (bit : Int) + shifts - 16 then r ||| 2 ^ ((bit : Int) + shifts - 16).toNat else r).testBit j =
              true ↔ r.testBit j ∨ (bit : Int) + shifts - 16 = j := by
            split
            · rw [Nat.testBit_or, Nat.testBit_two_pow, Bool.or_eq_true, decide_eq_true_iff]
              exact or_congr_right (by omega)
            · exact ⟨.inl, fun h => h.resolve_right (by omega)⟩
          rw [hrest.2 j, hplaced, or_assoc]
          simp only [mem_cons, exists_eq_or_imp, hbit', true_and]

end

theorem lt_of_testBit {P n b : Nat} (h : P < 2 ^ n) (hbit : P.testBit b) : b < n :=
  (Nat.pow_lt_pow_iff_right Nat.one_lt_two).mp ((Nat.ge_two_pow_of_testBit hbit).trans_lt h)

theorem floor_scale_testBit (P : Nat) (k : Int) (j : Nat) :
    (⌊(P : ℚ) * 2 ^ k⌋₊).testBit j ↔ ∃ b, P.testBit b ∧ (b : Int) + k = j := by
  obtain ⟨n, rfl | rfl⟩ := k.eq_nat_or_neg
  · have hfloor : ⌊(P : ℚ) * 2 ^ (n : Int)⌋₊ = P <<< n := by
      rw [Nat.shiftLeft_eq, zpow_natCast]
      exact_mod_cast Nat.floor_natCast (R := ℚ) (P * 2 ^ n)
    rw [hfloor, Nat.testBit_shiftLeft, Bool.and_eq_true, decide_eq_true_iff]
    constructor
    · rintro ⟨hle, hbit⟩
      exact ⟨j - n, hbit, by omega⟩
    · rintro ⟨b, hbit, hb⟩
      exact ⟨by omega, by rwa [show j - n = b by omega]⟩
  · have hfloor : ⌊(P : ℚ) * 2 ^ (-(n : Int))⌋₊ = P >>> n := by
      rw [Nat.shiftRight_eq_div_pow, zpow_neg, zpow_natCast, ← div_eq_mul_inv]
      exact_mod_cast Nat.floor_div_eq_div (K := ℚ) P (2 ^ n)
    rw [hfloor, Nat.testBit_shiftRight]
    constructor
    · intro hbit
      exact ⟨n + j, hbit, by omega⟩
    · rintro ⟨b, hbit, hb⟩
      rwa [show n + j = b by omega]

theorem placeBits_eq {anchor factor : Nat} (hanchor : anchor < 2 ^ 256) (hfactor : factor < 2 ^ 18) (shifts : Int) :
    match placeBits (mulWords factor (toWords 8 anchor) 0) shifts productBits 0 with
    | none => 2 ^ 256 ≤ ⌊((anchor * factor : Nat) : ℚ) * 2 ^ (shifts - 16)⌋₊
    | some r => r = ⌊((anchor * factor : Nat) : ℚ) * 2 ^ (shifts - 16)⌋₊ := by
  obtain ⟨hvalue, hwords⟩ := toWords_eq 8 anchor
  rw [Nat.mod_eq_of_lt hanchor] at hvalue
  obtain ⟨hproduct, hproductWords⟩ := mulWords_eq hwords hfactor (by decide : 0 < 2 ^ 32)
  rw [hvalue, Nat.add_zero] at hproduct
  have hlt : anchor * factor < 2 ^ 288 := by
    rw [show 288 = 256 + 32 by decide, Nat.pow_add]
    exact Nat.mul_lt_mul'' hanchor (hfactor.trans (by decide))
  have hbits :=
    placeBits_spec (P := anchor * factor) (fun bit => by rw [← hproduct, ofWords_testBit hproductWords]) shifts
    productBits 0
  generalize placeBits _ shifts productBits 0 = placed at hbits ⊢
  cases placed with
  | none =>
    obtain ⟨b, -, hbit, hb⟩ := hbits
    have htop := (floor_scale_testBit (anchor * factor) (shifts - 16) (b + (shifts - 16)).toNat).mpr ⟨b, hbit, by omega⟩
    exact (Nat.pow_le_pow_right (by decide) (by omega)).trans (Nat.ge_two_pow_of_testBit htop)
  | some r =>
    refine Nat.eq_of_testBit_eq fun j => Bool.eq_iff_iff.mpr ?_
    rw [hbits.2 j, floor_scale_testBit, Nat.zero_testBit]
    constructor
    · rintro (h | ⟨b, -, hbit, hb⟩)
      · cases h
      · exact ⟨b, hbit, by omega⟩
    · rintro ⟨b, hbit, hb⟩
      exact .inr ⟨b, mem_range.mpr (lt_of_testBit hlt hbit), hbit, by omega⟩

section
variable {anchorBits limitBits spacing halfLife anchor limit height : Nat} {time e : Int}

theorem decode_eq_some {bits t : Nat} (h : decodeCanonicalVeldTarget bits = some t) :
    0 < t ∧ t ≤ (compactToTarget veldPowLimitBits).target ∧ targetToCompact t = bits := by
  unfold decodeCanonicalVeldTarget at h
  dsimp only at h
  split at h
  · rename_i hcanonical
    cases h
    exact ⟨Nat.pos_of_ne_zero hcanonical.2.2.1, hcanonical.2.2.2⟩
  · cases h

/-- The arguments the function accepts. -/
structure AsertInput (anchorBits limitBits spacing halfLife anchor limit : Nat) : Prop where
  spacing_pos : 0 < spacing
  spacing_lt : spacing < 2 ^ 32
  halfLife_pos : 0 < halfLife
  halfLife_lt : halfLife < 2 ^ 32
  anchor_ok : decodeCanonicalVeldTarget anchorBits = some anchor
  limit_ok : decodeCanonicalVeldTarget limitBits = some limit
  anchor_le : anchor ≤ limit

/-- A signed 64-bit time and an unsigned 64-bit height. -/
structure AsertDeltas (time : Int) (height : Nat) : Prop where
  time_ge : -2 ^ 63 ≤ time
  time_lt : time < 2 ^ 63
  height_lt : height < 2 ^ 64

theorem asertDelta_bounds (hd : AsertDeltas time height) (hs : spacing < 2 ^ 32) :
    -2 ^ 97 < time - spacing * (height + 1) ∧ time - spacing * (height + 1) < 2 ^ 63 ∧
      (0 : Int) ≤ spacing * (height + 1) := by
  obtain ⟨h₁, h₂, h₃⟩ := hd
  have hprod : spacing * (height + 1) ≤ 2 ^ 32 * 2 ^ 64 := Nat.mul_le_mul hs.le h₃
  have hcast : ((spacing * (height + 1) : Nat) : Int) = (spacing : Int) * (height + 1) := by push_cast; ring
  omega

theorem asertExponent_eq (hd : AsertDeltas time height) (hs : spacing < 2 ^ 32) :
    asertExponent time height spacing halfLife = exactExponent time height spacing halfLife := by
  obtain ⟨hlow, hhigh, hnonneg⟩ := asertDelta_bounds hd hs
  obtain ⟨h₁, h₂, h₃⟩ := hd
  have hi128 (x : Int) (hx : -2 ^ 127 ≤ x) (hx' : x < 2 ^ 127) : i128 x = x :=
    Int.bmod_eq_of_le_mul_two (by omega) (by omega)
  unfold asertExponent exactExponent
  dsimp only
  rw [hi128 (height + 1) (by omega) (by omega)]
  generalize hp : (spacing : Int) * (height + 1) = prod at *
  rw [hi128 prod (by omega) (by omega), hi128 (time - prod) (by omega) (by omega), hi128 _ (by omega) (by omega)]

theorem asertShifts_eq (e : Int) : asertShifts e = e / 65536 := by
  unfold asertShifts
  split
  · rename_i h
    exact Int.tdiv_eq_ediv_of_nonneg h
  · rw [Int.tdiv_eq_ediv_of_nonneg (by omega)]
    omega

theorem asertFactor_eq (e : Int) : asertFactor (e - e / 65536 * 65536).toNat = exactFactor e := by
  have hlt := cubicSum_lt (show (e % 65536).toNat < 65536 by omega)
  rw [show e - e / 65536 * 65536 = e % 65536 by omega, asertFactor, exactFactor, Nat.mod_eq_of_lt hlt,
    Nat.shiftRight_eq_div_pow]

theorem exactTarget_of_large (hlimit : 0 < limit) (hlt : limit < 2 ^ 256)
    (hlarge : 2 ^ 256 ≤ ⌊exactScaled anchor e⌋₊) : exactTarget anchor limit e = limit := by
  rw [exactTarget, min_eq_left (by omega), max_eq_right hlimit]

theorem exactScaled_large (hanchor : 0 < anchor) (he : exponentBound < e) : 2 ^ 256 ≤ ⌊exactScaled anchor e⌋₊ := by
  unfold exponentBound at he
  refine Nat.le_floor ?_
  have hanchor' : (1 : ℚ) ≤ anchor := by exact_mod_cast hanchor
  have hfactor : (1 : ℚ) ≤ exactFactor e := by exact_mod_cast (by decide : 1 ≤ 65536).trans (exactFactor_bounds e).1
  calc ((2 ^ 256 : Nat) : ℚ) = 1 * 1 * 2 ^ (256 : Int) := by norm_num
    _ ≤ anchor * exactFactor e * 2 ^ (e / 65536 - 16) := by
      gcongr
      · norm_num
      · omega

theorem exactScaled_small (hanchor : anchor < 2 ^ 255) (he : e < -exponentBound) : ⌊exactScaled anchor e⌋₊ = 0 := by
  unfold exponentBound at he
  refine Nat.floor_eq_zero.mpr ?_
  have hanchor' : (anchor : ℚ) < 2 ^ 255 := by exact_mod_cast hanchor
  have hfactor : (exactFactor e : ℚ) < 2 ^ 17 := by exact_mod_cast (exactFactor_bounds e).2
  have hunit : (2 : ℚ) ^ 255 * 2 ^ 17 * 2 ^ (-273 : Int) = 2 ^ (-1 : Int) := by
    rw [← pow_add, ← zpow_natCast, ← zpow_add₀ two_ne_zero]
    rfl
  calc (anchor : ℚ) * exactFactor e * 2 ^ (e / 65536 - 16)
      ≤ 2 ^ 255 * 2 ^ 17 * 2 ^ (-273 : Int) := by
        gcongr
        · norm_num
        · omega
    _ = 2 ^ (-1 : Int) := hunit
    _ < 1 := by norm_num

theorem asertBitsAt_eq (hanchor : decodeCanonicalVeldTarget anchorBits = some anchor)
    (hlimit : decodeCanonicalVeldTarget limitBits = some limit) (e : Int) :
    asertBitsAt anchor limit limitBits e = some (targetToCompact (exactTarget anchor limit e)) := by
  obtain ⟨hanchorPos, hanchorMax, -⟩ := decode_eq_some hanchor
  obtain ⟨hlimitPos, hlimitMax, hlimitBits⟩ := decode_eq_some hlimit
  have hmax : (compactToTarget veldPowLimitBits).target < 2 ^ 255 := by decide
  have hwide : limit < 2 ^ 256 := hlimitMax.trans_lt (hmax.trans (by decide))
  unfold asertBitsAt
  by_cases hlarge : exponentBound < e
  · rw [if_pos hlarge, exactTarget_of_large hlimitPos hwide (exactScaled_large hanchorPos hlarge), hlimitBits]
  rw [if_neg hlarge]
  by_cases hsmall : e < -exponentBound
  · rw [if_pos hsmall, exactTarget, exactScaled_small (hanchorMax.trans_lt hmax) hsmall, Nat.min_zero]
    rfl
  rw [if_neg hsmall, asertProduct, asertShifts_eq, asertFactor_eq]
  have hplaced := placeBits_eq (hanchorMax.trans_lt (hmax.trans (by decide)))
    ((exactFactor_bounds e).2.trans (by decide)) (e / 65536)
  have hscaled : ((anchor * exactFactor e : Nat) : ℚ) * 2 ^ (e / 65536 - 16) = exactScaled anchor e := by
    rw [exactScaled, Nat.cast_mul]
  rw [hscaled] at hplaced
  generalize placeBits _ (e / 65536) productBits 0 = placed at hplaced ⊢
  cases placed with
  | none => rw [asertResult, exactTarget_of_large hlimitPos hwide hplaced, hlimitBits]
  | some r =>
    have hclamp : (if limit < (if r = 0 then 1 else r) then limit else if r = 0 then 1 else r) =
        exactTarget anchor limit e := by
      have hr : r = ⌊exactScaled anchor e⌋₊ := hplaced
      rw [exactTarget, ← hr]
      split_ifs <;> omega
    have hbounds : 0 < exactTarget anchor limit e ∧ exactTarget anchor limit e ≤ limit := by
      unfold exactTarget
      omega
    simp only [asertResult, hclamp, decode_targetToCompact hbounds.1 (hbounds.2.trans hlimitMax), Option.isSome_some,
      if_true]

/-- For every accepted input the call succeeds with the compact form of the exact target. -/
theorem calculateASERTBits_eq (hin : AsertInput anchorBits limitBits spacing halfLife anchor limit)
    (hd : AsertDeltas time height) :
    calculateASERTBits anchorBits time height spacing halfLife limitBits =
      some (targetToCompact (exactTarget anchor limit (exactExponent time height spacing halfLife))) := by
  have hguard : ¬(spacing = 0 ∨ halfLife = 0) := by
    have := hin.spacing_pos
    have := hin.halfLife_pos
    omega
  rw [calculateASERTBits, if_neg hguard, hin.anchor_ok, hin.limit_ok]
  dsimp only
  rw [if_neg (not_lt.mpr hin.anchor_le), asertExponent_eq hd hin.spacing_lt]
  exact asertBitsAt_eq hin.anchor_ok hin.limit_ok _

theorem exactExponent_mono {time' : Int} {height' : Nat} (hhalf : 0 < halfLife) (ht : time ≤ time')
    (hh : height' ≤ height) : exactExponent time height spacing halfLife ≤
      exactExponent time' height' spacing halfLife := by
  refine Int.tdiv_le_tdiv (by exact_mod_cast hhalf) ?_
  have hmul : (spacing : Int) * (height' + 1) ≤ spacing * (height + 1) := by gcongr
  omega

/-- The difficulty adjustment is exact and monotone: for every accepted input the products stay inside
their words, the call succeeds with the compact form of the scaled anchor clamped to `[1, limit]`, and
the target does not fall with more time or rise with more blocks. -/
theorem asert_is_exact {anchorBits limitBits spacing halfLife anchor limit : Nat}
    (hin : AsertInput anchorBits limitBits spacing halfLife anchor limit) :
    (∀ time height, AsertDeltas time height →
      |(time - spacing * (height + 1)) * 65536| < 2 ^ 127 ∧
      ∃ bits, calculateASERTBits anchorBits time height spacing halfLife limitBits = some bits ∧
        bits = targetToCompact (exactTarget anchor limit (exactExponent time height spacing halfLife)) ∧
        (decodeCanonicalVeldTarget bits).isSome) ∧
    (∀ fraction < 65536, cubicSum fraction < 2 ^ 64) ∧
    ∀ time time' height height' bits bits' target target', AsertDeltas time height →
      AsertDeltas time' height' → time ≤ time' → height' ≤ height →
      calculateASERTBits anchorBits time height spacing halfLife limitBits = some bits →
      calculateASERTBits anchorBits time' height' spacing halfLife limitBits = some bits' →
      decodeCanonicalVeldTarget bits = some target → decodeCanonicalVeldTarget bits' = some target' →
      target ≤ target' := by
  obtain ⟨hlimit, hlimitMax, -⟩ := decode_eq_some hin.limit_ok
  have hbounds (e : Int) : 0 < exactTarget anchor limit e ∧
      exactTarget anchor limit e ≤ (compactToTarget veldPowLimitBits).target := by
    unfold exactTarget
    omega
  have hdecode (e : Int) := decode_targetToCompact (hbounds e).1 (hbounds e).2
  refine ⟨fun time height hd => ⟨?_, _, calculateASERTBits_eq hin hd, rfl, ?_⟩, fun _ => cubicSum_lt, ?_⟩
  · obtain ⟨hlow, hhigh, -⟩ := asertDelta_bounds hd hin.spacing_lt
    generalize time - spacing * (height + 1) = delta at hlow hhigh ⊢
    exact abs_lt.mpr ⟨by omega, by omega⟩
  · rw [hdecode]
    rfl
  · intro time time' height height' bits bits' target target' hd hd' ht hh h h' htarget htarget'
    rw [calculateASERTBits_eq hin hd, Option.some.injEq] at h
    rw [calculateASERTBits_eq hin hd', Option.some.injEq] at h'
    rw [← h, hdecode, Option.some.injEq] at htarget
    rw [← h', hdecode, Option.some.injEq] at htarget'
    rw [← htarget, ← htarget']
    exact truncTarget_mono (hbounds _).1 (exactTarget_mono anchor limit (exactExponent_mono hin.halfLife_pos ht hh))

theorem asert_is_exact_sample : ∃ bits, calculateASERTBits 0x03123456 600 0 120 3600 0x037fffff = some bits ∧
    (decodeCanonicalVeldTarget bits).isSome := by
  have hin : AsertInput 0x03123456 0x037fffff 120 3600 0x123456 0x7fffff :=
    ⟨by decide, by decide, by decide, by decide, by decide, by decide, by decide⟩
  obtain ⟨-, bits, hbits, -, hcanonical⟩ := (asert_is_exact hin).1 600 0 ⟨by decide, by decide, by decide⟩
  exact ⟨bits, hbits, hcanonical⟩

end

end Veld
