import Mathlib

/-!
# Byte strings on the wire

Byte strings are lists of bytes. A reader returns the part it read and the bytes that are left, or `none`.
-/

namespace Wire

open List

abbrev Bytes := List UInt8

instance : LawfulBEq Bytes := inferInstance

/-- The bytes of an ASCII literal. -/
def ascii (s : String) : Bytes := s.toList.map fun c => UInt8.ofNat c.toNat

/-! ## Little-endian fields -/

/-- The low `n` bytes of `v`, least significant first. -/
def putLE : Nat → Nat → Bytes
  | 0, _ => []
  | n + 1, v => UInt8.ofNat v :: putLE n (v / 256)

/-- The number a byte string denotes, least significant byte first. -/
def getLE : Bytes → Nat
  | [] => 0
  | b :: bs => b.toNat + 256 * getLE bs

@[simp] theorem putLE_length (n v : Nat) : (putLE n v).length = n := by
  induction n generalizing v with
  | zero => rfl
  | succ n ih => simp [putLE, ih]

theorem getLE_lt (bs : Bytes) : getLE bs < 256 ^ bs.length := by
  induction bs with
  | nil => simp [getLE]
  | cons b bs ih =>
    have hb : b.toNat < 256 := b.toNat_lt
    simp only [getLE, length_cons, pow_succ]
    omega

variable {n v : Nat}

theorem getLE_putLE (h : v < 256 ^ n) : getLE (putLE n v) = v := by
  induction n generalizing v with
  | zero => simp only [pow_zero] at h; simp [putLE, getLE]; omega
  | succ n ih =>
    have hv : v / 256 < 256 ^ n := by
      rw [pow_succ] at h
      exact Nat.div_lt_of_lt_mul (by omega)
    simp only [putLE, getLE, ih hv, UInt8.toNat_ofNat']
    omega

theorem putLE_getLE (bs : Bytes) : putLE bs.length (getLE bs) = bs := by
  induction bs with
  | nil => rfl
  | cons b bs ih =>
    have hlow : UInt8.ofNat (b.toNat + 256 * getLE bs) = b := by
      apply UInt8.toNat_inj.mp
      rw [UInt8.toNat_ofNat']
      have := b.toNat_lt
      omega
    have hhigh : (b.toNat + 256 * getLE bs) / 256 = getLE bs := by
      have := b.toNat_lt
      omega
    simp only [length_cons, getLE, putLE, hlow, hhigh, ih]

/-! ## Splitting -/

/-- The first `n` bytes and the rest. -/
def takeN (n : Nat) (bs : Bytes) : Option (Bytes × Bytes) :=
  if n ≤ bs.length then some (bs.take n, bs.drop n) else none

theorem takeN_eq_some {bs a b : Bytes} : takeN n bs = some (a, b) ↔ bs = a ++ b ∧ a.length = n := by
  unfold takeN
  constructor
  · intro h
    split at h
    · rename_i hn
      obtain ⟨rfl, rfl⟩ := Prod.mk.inj (Option.some.inj h)
      exact ⟨(take_append_drop n bs).symm, by simp [hn]⟩
    · cases h
  · rintro ⟨rfl, rfl⟩
    simp

theorem takeN_append (a b : Bytes) : takeN a.length (a ++ b) = some (a, b) :=
  takeN_eq_some.mpr ⟨rfl, rfl⟩

/-- A little-endian field of `n` bytes. -/
def readLE (n : Nat) (bs : Bytes) : Option (Nat × Bytes) :=
  (takeN n bs).map fun p => (getLE p.1, p.2)

variable {bs rest : Bytes}

theorem readLE_eq_some (h : readLE n bs = some (v, rest)) :
    ∃ field, bs = field ++ rest ∧ field.length = n ∧ getLE field = v := by
  simp only [readLE, Option.map_eq_some_iff, Prod.mk.injEq, Prod.exists] at h
  obtain ⟨field, rest', ht, hv, rfl⟩ := h
  obtain ⟨hbs, hlen⟩ := takeN_eq_some.mp ht
  exact ⟨field, hbs, hlen, hv⟩

theorem readLE_lt (h : readLE n bs = some (v, rest)) : v < 256 ^ n := by
  obtain ⟨field, -, hlen, rfl⟩ := readLE_eq_some h
  exact hlen ▸ getLE_lt field

theorem readLE_eq_put (h : readLE n bs = some (v, rest)) : bs = putLE n v ++ rest := by
  obtain ⟨field, rfl, rfl, rfl⟩ := readLE_eq_some h
  rw [putLE_getLE]

theorem readLE_putLE (h : v < 256 ^ n) (rest : Bytes) :
    readLE n (putLE n v ++ rest) = some (v, rest) := by
  have ht := takeN_append (putLE n v) rest
  rw [putLE_length] at ht
  simp [readLE, ht, getLE_putLE h]

theorem readLE_putLE_u32 (w : UInt32) (rest : Bytes) :
    readLE 4 (putLE 4 w.toNat ++ rest) = some (w.toNat, rest) :=
  readLE_putLE w.toNat_lt rest

theorem readLE_putLE_u64 (w : UInt64) (rest : Bytes) :
    readLE 8 (putLE 8 w.toNat ++ rest) = some (w.toNat, rest) :=
  readLE_putLE w.toNat_lt rest

theorem bind_eq_some.{u} {α β : Type u} {x : Option α} {f : α → Option β} {b : β} :
    (x >>= f) = some b ↔ ∃ a, x = some a ∧ f a = some b :=
  Option.bind_eq_some_iff

theorem some_bind.{u} {α β : Type u} {a : α} {f : α → Option β} : some a >>= f = f a := rfl

theorem pure_eq_some {α : Type*} {a b : α} : (pure a : Option α) = some b ↔ a = b := Option.some_inj

theorem guard_pos {c : Prop} [Decidable c] (h : c) : (guard c : Option Unit) = some () := by
  simp [guard, h]

section
variable {α β : Type} {x : Option α} {a : α} {f : α → Option β}

theorem bind_of_eq_some (h : x = some a) (f : α → Option β) : x >>= f = f a := by
  rw [h]
  rfl

theorem bind_step (h : x = some a) {r : Option β} (hrest : f a = r) : x >>= f = r :=
  (bind_of_eq_some h f).trans hrest

end

/-- `n` items read one after the other. -/
def readMany {α : Type*} (read : Bytes → Option (α × Bytes)) : Nat → Bytes → Option (List α × Bytes)
  | 0, bs => some ([], bs)
  | n + 1, bs => do
    let (a, rest) ← read bs
    let (as, rest') ← readMany read n rest
    return (a :: as, rest')

theorem readMany_length {α : Type*} {read : Bytes → Option (α × Bytes)} {as : List α}
    (h : readMany read n bs = some (as, rest)) : as.length = n := by
  induction n generalizing bs as with
  | zero =>
    cases h
    rfl
  | succ n ih =>
    simp only [readMany, bind_eq_some, Prod.exists, pure_eq_some, Prod.mk.injEq] at h
    obtain ⟨a, r, -, as', r', has, rfl, rfl⟩ := h
    rw [length_cons, ih has]

theorem readMany_flatMap {α : Type*} {read : Bytes → Option (α × Bytes)} {write : α → Bytes}
    {as : List α} (h : ∀ a ∈ as, ∀ rest, read (write a ++ rest) = some (a, rest)) (rest : Bytes) :
    readMany read as.length (as.flatMap write ++ rest) = some (as, rest) := by
  induction as with
  | nil => rfl
  | cons a as ih =>
    have ih := ih fun b hb => h b (by simp [hb])
    simp [readMany, h a (by simp), ih]

theorem readMany_eq_flatMap {α : Type*} {read : Bytes → Option (α × Bytes)} {write : α → Bytes}
    (hread : ∀ a bs rest, read bs = some (a, rest) → bs = write a ++ rest) {as : List α}
    (h : readMany read n bs = some (as, rest)) : bs = as.flatMap write ++ rest ∧ as.length = n := by
  refine ⟨?_, readMany_length h⟩
  induction n generalizing bs as rest with
  | zero =>
    simp only [readMany, Option.some.injEq, Prod.mk.injEq] at h
    obtain ⟨rfl, rfl⟩ := h
    simp
  | succ n ih =>
    simp only [readMany, bind_eq_some, Prod.exists, pure_eq_some, Prod.mk.injEq] at h
    obtain ⟨a, r, ha, as', r', has, rfl, rfl⟩ := h
    rw [hread a bs r ha, ih has, flatMap_cons, append_assoc]

/-! ## Local readers -/

/-- A reader that takes a piece off the front, whatever follows the piece. -/
def Local {α : Type} (read : Bytes → Option (α × Bytes)) : Prop :=
  ∀ bs a rest, read bs = some (a, rest) →
    ∃ used, bs = used ++ rest ∧ ∀ rest', read (used ++ rest') = some (a, rest')

section
variable {α β : Type} {read : Bytes → Option (α × Bytes)}

theorem local_pure (a : α) : Local fun bs => some (a, bs) := by
  rintro bs b rest ⟨⟩
  exact ⟨[], rfl, fun _ => rfl⟩

theorem Local.bind {next : α → Bytes → Option (β × Bytes)} (h : Local read)
    (hnext : ∀ a, Local (next a)) : Local fun bs => read bs >>= fun p => next p.1 p.2 := by
  intro bs b rest hb
  obtain ⟨⟨a, mid⟩, ha, hrest⟩ := Option.bind_eq_some_iff.mp hb
  obtain ⟨used, rfl, hused⟩ := h bs a mid ha
  obtain ⟨used', rfl, hused'⟩ := hnext a mid b rest hrest
  refine ⟨used ++ used', (append_assoc ..).symm, fun rest' => ?_⟩
  simp only [append_assoc, hused, Option.bind_eq_bind, Option.bind_some, hused']

theorem Local.guard (c : Prop) [Decidable c] (h : Local read) :
    Local fun bs => (guard c : Option Unit) >>= fun _ => read bs := by
  intro bs a rest ha
  obtain ⟨_, hc, ha⟩ := Option.bind_eq_some_iff.mp ha
  obtain ⟨used, rfl, hused⟩ := h bs a rest ha
  exact ⟨used, rfl, fun rest' => by simp only [hc, Option.bind_eq_bind, Option.bind_some, hused]⟩

theorem Local.length_lt {a : α} (h : Local read) (hnil : read [] = none)
    (hread : read bs = some (a, rest)) : rest.length < bs.length := by
  obtain ⟨used, rfl, hused⟩ := h bs a rest hread
  cases used with
  | nil => cases hnil.symm.trans (hused [])
  | cons c used => simp

theorem local_takeN (n : Nat) : Local (takeN n) := by
  intro bs field rest h
  obtain ⟨rfl, hlen⟩ := takeN_eq_some.mp h
  exact ⟨field, rfl, fun rest' => takeN_eq_some.mpr ⟨rfl, hlen⟩⟩

theorem local_readLE (n : Nat) : Local (readLE n) := by
  intro bs v rest h
  simp only [readLE, Option.map_eq_some_iff, Prod.mk.injEq, Prod.exists] at h
  obtain ⟨field, _, ht, rfl, rfl⟩ := h
  obtain ⟨used, rfl, hused⟩ := local_takeN n bs _ _ ht
  exact ⟨used, rfl, fun rest' => by simp [readLE, hused]⟩

theorem Local.readMany (h : Local read) (n : Nat) : Local (readMany read n) := by
  induction n with
  | zero => exact local_pure []
  | succ n ih =>
    exact h.bind fun a => ih.bind fun as => local_pure (a :: as)

end

/-! ## Checks with a diagnostic -/

/-- Goes on when the condition holds, stops with the message otherwise. -/
def ensure {ε : Type} (c : Prop) [Decidable c] (msg : ε) : Except ε Unit :=
  if c then .ok () else .error msg

@[simp] theorem ensure_eq_ok {ε : Type} {c : Prop} [Decidable c] {msg : ε} {u : Unit} :
    ensure c msg = .ok u ↔ c := by
  unfold ensure
  split <;> simp_all

/-- The value of an option, or the message. -/
def orElse {ε α : Type} (o : Option α) (msg : ε) : Except ε α :=
  match o with
  | some a => .ok a
  | none => .error msg

@[simp] theorem orElse_eq_ok {ε α : Type} {o : Option α} {msg : ε} {a : α} :
    orElse o msg = .ok a ↔ o = some a := by
  cases o <;> simp [orElse]

theorem bind_eq_ok {ε α β : Type} {x : Except ε α} {f : α → Except ε β} {b : β} :
    x >>= f = .ok b ↔ ∃ a, x = .ok a ∧ f a = .ok b := by
  cases x <;> simp [bind, Except.bind]

theorem eq_ok_of_toOption {ε α : Type} {x : Except ε α} {a : α} (h : x.toOption = some a) :
    x = .ok a := by
  cases x with
  | error e => cases h
  | ok b => cases h; rfl

/-! ## Text -/

/-- The pieces of a text between separators (always at least one piece). -/
def fields (sep : UInt8) (bs : Bytes) : List Bytes := bs.splitOn sep

/-- The pieces as `std::getline` reads them: an empty piece at the end is not one. -/
def getlines (sep : UInt8) (bs : Bytes) : List Bytes :=
  let pieces := fields sep bs
  if pieces.getLast? = some [] then pieces.dropLast else pieces

/-- Pieces with a separator between them. -/
def joinWith (sep : UInt8) (pieces : List Bytes) : Bytes := (pieces.intersperse [sep]).flatten

def startsWith (text : Bytes) (start : String) : Bool := (ascii start).isPrefixOf text

def behind (text : Bytes) (start : String) : Bytes := text.drop (ascii start).length

def hexChar (n : Nat) : UInt8 := if n < 10 then UInt8.ofNat (48 + n) else UInt8.ofNat (87 + n)

/-- Lower-case hexadecimal text. -/
def toHex (bs : Bytes) : Bytes :=
  bs.flatMap fun b => [hexChar (b.toNat / 16), hexChar (b.toNat % 16)]

/-- The value of a hexadecimal digit of either case. -/
def hexNibble (c : UInt8) : Option Nat :=
  if 48 ≤ c ∧ c ≤ 57 then some (c.toNat - 48)
  else if 97 ≤ c ∧ c ≤ 102 then some (c.toNat - 87)
  else if 65 ≤ c ∧ c ≤ 70 then some (c.toNat - 55)
  else none

/-- Bytes of hexadecimal text; `none` on an odd length or a foreign character. -/
def ofHex : Bytes → Option Bytes
  | [] => some []
  | [_] => none
  | hi :: lo :: rest => do
    let h ← hexNibble hi
    let l ← hexNibble lo
    let tail ← ofHex rest
    return UInt8.ofNat (h * 16 + l) :: tail

theorem hexNibble_hexChar (h : n < 16) : hexNibble (hexChar n) = some n := by
  have hall : ∀ n < 16, hexNibble (hexChar n) = some n := by decide
  exact hall n h

theorem ofHex_toHex (bs : Bytes) : ofHex (toHex bs) = some bs := by
  induction bs with
  | nil => rfl
  | cons b bs ih =>
    have hb := UInt8.toNat_lt b
    have hhigh := hexNibble_hexChar (n := b.toNat / 16) (by omega)
    have hlow := hexNibble_hexChar (n := b.toNat % 16) (by omega)
    have hvalue : b.toNat / 16 * 16 + b.toNat % 16 = b.toNat := by omega
    change ofHex (hexChar (b.toNat / 16) :: hexChar (b.toNat % 16) :: toHex bs) = _
    simp only [ofHex, hhigh, hlow, ih, Option.bind_eq_bind, Option.bind_some, Option.pure_def, hvalue,
      UInt8.ofNat_toNat]

theorem ofHex_length {hex : Bytes} (h : ofHex hex = some bs) : hex.length = 2 * bs.length := by
  induction hex using ofHex.induct generalizing bs with
  | case1 =>
    cases h
    rfl
  | case2 => cases h
  | case3 hi lo rest ih =>
    simp only [ofHex, bind_eq_some, pure_eq_some] at h
    obtain ⟨a, -, b, -, tail, htail, rfl⟩ := h
    simp only [length_cons, ih htail]
    omega

def isLowerHex (c : UInt8) : Bool := (48 ≤ c && c ≤ 57) || (97 ≤ c && c ≤ 102)

/-- Lower-case hexadecimal text of `n` digits. -/
def isLowerHexText (n : Nat) (bs : Bytes) : Bool := bs.length == n && bs.all isLowerHex

def isDigit (c : UInt8) : Bool := 48 ≤ c && c ≤ 57

def decimalValue (bs : Bytes) : Nat := bs.foldl (fun n c => n * 10 + (c.toNat - 48)) 0

/-- Decimal text without sign or leading zero, of a number at most `limit`. -/
def readDecimal (limit : Nat) (bs : Bytes) : Option Nat :=
  if bs = [] ∨ !bs.all isDigit ∨ (bs.length ≠ 1 ∧ bs.head? = some 48) then none
  else if decimalValue bs ≤ limit then some (decimalValue bs) else none

def toDecimal (n : Nat) : Bytes := ascii (toString n)

end Wire
