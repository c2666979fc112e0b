import Veld.Lib.Wire

/-!
# Written numbers and joined fields

A number that is written out is read back, and so are fields joined with a separator.
-/

namespace Wire

open List

/-! ## Decimal text -/

theorem toDecimal_eq (n : Nat) :
    toDecimal n = (Nat.toDigits 10 n).map fun c => UInt8.ofNat c.toNat := by
  rw [toDecimal, ascii, Nat.toString_eq_ofList_toDigits, String.toList_ofList]

theorem toNat_of_isDigit {c : Char} (h : c.isDigit) : 48 ≤ c.toNat ∧ c.toNat ≤ 57 := by
  simp only [Char.isDigit, Bool.and_eq_true, decide_eq_true_eq, ge_iff_le,
    UInt32.le_iff_toNat_le] at h
  exact h

theorem isDigit_ofNat {c : Char} (h : c.isDigit) :
    isDigit (UInt8.ofNat c.toNat) ∧ (UInt8.ofNat c.toNat).toNat = c.toNat := by
  obtain ⟨hlow, hhigh⟩ := toNat_of_isDigit h
  have hvalue : (UInt8.ofNat c.toNat).toNat = c.toNat := by
    rw [UInt8.toNat_ofNat']
    omega
  refine ⟨?_, hvalue⟩
  simp only [isDigit, Bool.and_eq_true, decide_eq_true_eq, UInt8.le_iff_toNat_le, hvalue]
  exact ⟨hlow, hhigh⟩

variable {n : Nat}

theorem isDigit_of_mem_toDecimal {c : UInt8} (h : c ∈ toDecimal n) : isDigit c := by
  rw [toDecimal_eq] at h
  obtain ⟨d, hd, rfl⟩ := mem_map.mp h
  exact (isDigit_ofNat (Nat.isDigit_of_mem_toDigits (by omega) (by omega) hd)).1

theorem toDecimal_ne_nil (n : Nat) : toDecimal n ≠ [] := by
  rw [toDecimal_eq, Ne, map_eq_nil_iff]
  exact Nat.toDigits_ne_nil

theorem foldl_digits {digits : List Char} (h : ∀ c ∈ digits, c.isDigit) (start : Nat) :
    (digits.map fun c => UInt8.ofNat c.toNat).foldl (fun n c => n * 10 + (c.toNat - 48)) start =
      Nat.ofDigitChars 10 digits start := by
  induction digits generalizing start with
  | nil => rfl
  | cons c digits ih =>
    have hc := (isDigit_ofNat (h c mem_cons_self)).2
    rw [map_cons, foldl_cons, ih fun d hd => h d (mem_cons_of_mem _ hd), hc,
      Nat.ofDigitChars_cons, Nat.mul_comm]
    rfl

theorem decimalValue_toDecimal (n : Nat) : decimalValue (toDecimal n) = n := by
  have hdigits : ∀ c ∈ Nat.toDigits 10 n, c.isDigit = true := fun c hc =>
    Nat.isDigit_of_mem_toDigits (by omega) (by omega) hc
  rw [decimalValue, toDecimal_eq, foldl_digits hdigits, Nat.ofDigitChars_ten_toDigits]

theorem head_toDigits (h : 0 < n) : (Nat.toDigits 10 n).head? ≠ some '0' := by
  induction n using Nat.strongRecOn with
  | ind n ih =>
    rcases Nat.lt_or_ge n 10 with hlt | hge
    · have hall : ∀ n < 10, 0 < n → (Nat.toDigits 10 n).head? ≠ some '0' := by decide
      exact hall n hlt h
    · rw [Nat.toDigits_of_base_le (by omega) hge, List.head?_append_of_ne_nil _ Nat.toDigits_ne_nil]
      exact ih (n / 10) (by omega) (by omega)

theorem head_toDecimal (h : 0 < n) : (toDecimal n).head? ≠ some 48 := by
  rw [toDecimal_eq, List.head?_map]
  intro heq
  obtain ⟨c, hc, hcode⟩ := Option.map_eq_some_iff.mp heq
  have hdigit : c.isDigit :=
    Nat.isDigit_of_mem_toDigits (by omega) (by omega) (mem_of_head? hc)
  have hvalue := (isDigit_ofNat hdigit).2
  rw [hcode] at hvalue
  have hzero : c = '0' := Char.toNat_inj.mp hvalue.symm
  exact head_toDigits h (hzero ▸ hc)

theorem readDecimal_toDecimal {limit : Nat} (h : n ≤ limit) :
    readDecimal limit (toDecimal n) = some n := by
  have hdigits : (toDecimal n).all isDigit :=
    all_eq_true.mpr fun c hc => isDigit_of_mem_toDecimal hc
  have hhead : ¬((toDecimal n).length ≠ 1 ∧ (toDecimal n).head? = some 48) := by
    rintro ⟨hlen, hzero⟩
    rcases Nat.eq_zero_or_pos n with rfl | hpos
    · exact hlen (by decide)
    · exact head_toDecimal hpos hzero
  rw [readDecimal, if_neg, decimalValue_toDecimal, if_pos h]
  simp only [toDecimal_ne_nil, hdigits, Bool.not_true, Bool.false_eq_true, false_or]
  exact hhead

theorem length_toDecimal {k : Nat} (hk : 0 < k) (h : n < 10 ^ k) : (toDecimal n).length ≤ k := by
  rw [toDecimal_eq, length_map]
  exact (Nat.length_toDigits_le_iff (by omega) hk).mpr h

theorem length_toHex (bs : Bytes) : (toHex bs).length = 2 * bs.length := ofHex_length (ofHex_toHex bs)

/-! ## Joined fields -/

section
variable {sep : UInt8} {pieces : List Bytes}

theorem fields_joinWith (hne : pieces ≠ []) (hsep : ∀ p ∈ pieces, sep ∉ p) :
    fields sep (joinWith sep pieces) = pieces :=
  splitOn_intercalate _ hsep hne

theorem getlines_joinWith (hne : pieces ≠ []) (hsep : ∀ p ∈ pieces, sep ∉ p)
    (hlast : pieces.getLast? ≠ some []) : getlines sep (joinWith sep pieces) = pieces := by
  simp only [getlines, fields_joinWith hne hsep, if_neg hlast]

theorem joinWith_length (p : Bytes) :
    (joinWith sep (p :: pieces)).length = p.length + pieces.length + (pieces.map List.length).sum := by
  induction pieces generalizing p with
  | nil => simp [joinWith]
  | cons q pieces ih =>
    have hstep : joinWith sep (p :: q :: pieces) = p ++ sep :: joinWith sep (q :: pieces) := by
      simp [joinWith]
    rw [hstep, length_append, length_cons, ih, length_cons, map_cons, sum_cons]
    omega

end

variable {bs : Bytes}

theorem bar_notMem_of_digits (h : ∀ c ∈ bs, isDigit c) : (124 : UInt8) ∉ bs :=
  fun hmem => absurd (h _ hmem) (by decide)

theorem bar_notMem_of_lowerHex (h : bs.all isLowerHex) : (124 : UInt8) ∉ bs :=
  fun hmem => absurd (all_eq_true.mp h _ hmem) (by decide)

theorem isLowerHex_hexChar (h : n < 16) : isLowerHex (hexChar n) := by
  have hall : ∀ n < 16, isLowerHex (hexChar n) := by decide
  exact hall n h

theorem all_isLowerHex_toHex (bs : Bytes) : (toHex bs).all isLowerHex := by
  refine all_eq_true.mpr fun c hc => ?_
  obtain ⟨b, -, hc⟩ := mem_flatMap.mp hc
  have hb := UInt8.toNat_lt b
  simp only [mem_cons, not_mem_nil, or_false] at hc
  rcases hc with rfl | rfl
  · exact isLowerHex_hexChar (by omega)
  · exact isLowerHex_hexChar (by omega)

theorem isLowerHexText_toHex (h : n = 2 * bs.length) : isLowerHexText n (toHex bs) := by
  rw [isLowerHexText, Bool.and_eq_true, beq_iff_eq]
  exact ⟨(length_toHex bs).trans h.symm, all_isLowerHex_toHex bs⟩

end Wire
