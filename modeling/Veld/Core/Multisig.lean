import Veld.Lib.Program
import Veld.Lib.Wire

/-!
# Multiple signatures

`ReadScriptNum` and `OpCheckMultisig` of `core/script.h`, over any check of a signature against a key.
-/

namespace Veld.Script

open Wire Program List

def maxOpsPerScript : Nat := 201

/-- A number in little-endian sign and magnitude, without padding. -/
def readScriptNum (v : Bytes) (maxSize : Nat) : Option Int :=
  if maxSize < v.length then none
  else
    match v.getLast? with
    | none => some 0
    | some last =>
      if last &&& 0x7F = 0 ∧ v.dropLast.getLast?.all (· &&& 0x80 == 0) = true then none
      else if last &&& 0x80 = 0 then some (getLE v)
      else some (-((getLE v - 2 ^ (8 * v.length - 1) : Nat) : Int))

/-- What `OpCheckMultisig` works on; it is left changed when the check fails. -/
structure SigStack where
  stack : List Bytes
  opCount : Nat

def SigStack.pop (n : Nat) (s : SigStack) : SigStack := { s with stack := s.stack.drop n }

abbrev MultisigM := EStateM Unit SigStack

/-- A count from 0 to `limit`. It is popped before it is compared. -/
def popCount (limit : Nat) : MultisigM Nat := do
  let s ← get
  let top ← require s.stack.head? ()
  let n ← require (readScriptNum top 4) ()
  set (s.pop 1)
  check (0 ≤ n ∧ n ≤ limit) ()
  return n.toNat

def popItems (n : Nat) : MultisigM (List Bytes) := do
  let s ← get
  check (n ≤ s.stack.length) ()
  set (s.pop n)
  return s.stack.take n

section
variable (verify : Bytes → Bytes → Bool)

/-- The keys behind the first one that verifies the signature. -/
def nextKey (sig : Bytes) : List Bytes → Option (List Bytes)
  | [] => none
  | key :: keys => if verify sig key then some keys else nextKey sig keys

def matchSigs : List Bytes → List Bytes → Bool
  | [], _ => true
  | sig :: sigs, keys =>
    match nextKey verify sig keys with
    | none => false
    | some keys => if keys.length < sigs.length then false else matchSigs sigs keys

def opCheckMultisig : MultisigM Unit := do
  let nkeys ← popCount 15
  modify fun s => { s with opCount := s.opCount + nkeys }
  let s ← get
  check (s.opCount ≤ maxOpsPerScript) ()
  let keys ← popItems nkeys
  let nsigs ← popCount nkeys
  let sigs ← popItems nsigs
  let s ← get
  check (s.stack.head? = some []) ()
  set (s.pop 1)
  check (matchSigs verify sigs keys = true) ()

end

/-! ## The walk -/

section
variable {verify : Bytes → Bytes → Bool} {sig key : Bytes} {sigs keys ks : List Bytes}

theorem nextKey_eq_some (h : nextKey verify sig keys = some ks) :
    ∃ key, (key :: ks).Sublist keys ∧ verify sig key := by
  induction keys with
  | nil => cases h
  | cons first keys ih =>
    rw [nextKey] at h
    split at h
    · rename_i hfirst
      cases h
      exact ⟨first, .refl _, hfirst⟩
    · obtain ⟨key, hkey, hok⟩ := ih h
      exact ⟨key, hkey.cons first, hok⟩

theorem nextKey_of_sublist (hok : verify sig key) (h : (key :: ks).Sublist keys) :
    ∃ rest, nextKey verify sig keys = some rest ∧ ks.Sublist rest := by
  induction keys with
  | nil => cases h
  | cons first keys ih =>
    rw [nextKey]
    split
    · exact ⟨keys, rfl, h.of_cons_cons⟩
    · rename_i hfirst
      cases h with
      | cons _ h => exact ih h
      | cons_cons _ h => exact absurd hok hfirst

theorem matchSigs_iff : matchSigs verify sigs keys ↔
    ∃ ks, ks.Sublist keys ∧ List.Forall₂ (fun sig key => verify sig key = true) sigs ks := by
  induction sigs generalizing keys with
  | nil => exact iff_of_true rfl ⟨[], nil_sublist _, .nil⟩
  | cons sig sigs ih =>
    rw [matchSigs]
    constructor
    · intro h
      split at h
      · cases h
      · rename_i rest hnext
        split at h
        · cases h
        · obtain ⟨key, hkey, hok⟩ := nextKey_eq_some hnext
          obtain ⟨ks, hks, hall⟩ := ih.mp h
          exact ⟨key :: ks, (hks.cons_cons key).trans hkey, .cons hok hall⟩
    · rintro ⟨_, hsub, hall⟩
      obtain ⟨key, ks, hok, hrest, rfl⟩ := forall₂_cons_left_iff.mp hall
      obtain ⟨rest, hnext, hks⟩ := nextKey_of_sublist hok hsub
      -- the early end never cuts off a walk that can still succeed
      have hroom : ¬rest.length < sigs.length := by
        rw [hrest.length_eq]
        exact hks.length_le.not_gt
      rw [hnext]
      dsimp only
      rw [if_neg hroom]
      exact ih.mpr ⟨ks, hks, hrest⟩

theorem matchSigs_iff_embedding : matchSigs verify sigs keys ↔
    ∃ f : Fin sigs.length ↪o Fin keys.length, ∀ i, verify (sigs.get i) (keys.get (f i)) := by
  rw [matchSigs_iff]
  constructor
  · rintro ⟨ks, hsub, hall⟩
    obtain ⟨f, hf⟩ := sublist_iff_exists_fin_orderEmbedding_get_eq.mp hsub
    refine ⟨(Fin.castOrderIso hall.length_eq).toOrderEmbedding.trans f, fun i => ?_⟩
    have hi := (forall₂_iff_get.mp hall).2 i.1 i.2 (hall.length_eq ▸ i.2)
    exact hf (Fin.cast hall.length_eq i) ▸ hi
  · rintro ⟨f, hf⟩
    refine ⟨List.ofFn fun i => keys.get (f i), ?_, forall₂_iff_get.mpr ⟨by simp, ?_⟩⟩
    · refine sublist_iff_exists_fin_orderEmbedding_get_eq.mpr
        ⟨(Fin.castOrderIso (by simp)).toOrderEmbedding.trans f, fun i => ?_⟩
      simp
      rfl
    · intro i hi _
      simpa using hf ⟨i, hi⟩

end

/-! ## The stack -/

section
variable {s s' : SigStack} {α β : Type} {a : α}

theorem bind_of_ok {x : MultisigM α} {f : α → MultisigM β} (h : x s = .ok a s') :
    (x >>= f) s = f a s' := by
  change EStateM.bind x f s = _
  rw [EStateM.bind, h]

theorem popCount_eq {top : Bytes} {rest : List Bytes} {ops n limit : Nat}
    (hread : readScriptNum top 4 = some (n : Int)) (hn : n ≤ limit) :
    popCount limit ⟨top :: rest, ops⟩ = .ok n ⟨rest, ops⟩ := by
  simp only [popCount, Program.bind_eq_ok, get_eq_ok, require_eq_ok, set_eq_ok, check_eq_ok, pure_eq_ok]
  exact ⟨_, _, ⟨rfl, rfl⟩, top, _, ⟨rfl, rfl⟩, n, _, ⟨hread, rfl⟩, ⟨⟩, _, rfl, (), _,
    ⟨⟨Int.natCast_nonneg n, Int.ofNat_le.mpr hn⟩, rfl⟩, rfl, rfl⟩

theorem popItems_eq (items rest : List Bytes) (ops : Nat) :
    popItems items.length ⟨items ++ rest, ops⟩ = .ok items ⟨rest, ops⟩ := by
  simp only [popItems, Program.bind_eq_ok, get_eq_ok, set_eq_ok, check_eq_ok, pure_eq_ok]
  refine ⟨_, _, ⟨rfl, rfl⟩, (), _, ⟨?_, rfl⟩, ⟨⟩, _, rfl, take_left, ?_⟩
  · rw [length_append]
    exact Nat.le_add_right ..
  · simp [SigStack.pop]

end

/-- A stack that can be taken apart: from the top the count of the keys, the keys, the count of the
signatures, the signatures and the empty dummy. -/
structure SigStack.Holds (s : SigStack) (keys sigs : List Bytes) : Prop where
  layout : ∃ n m rest, s.stack = n :: (keys ++ m :: (sigs ++ [] :: rest)) ∧
    readScriptNum n 4 = some (keys.length : Int) ∧ readScriptNum m 4 = some (sigs.length : Int)
  atMost : keys.length ≤ 15
  fewer : sigs.length ≤ keys.length
  ops : s.opCount + keys.length ≤ maxOpsPerScript

/-- The check succeeds exactly when the signatures can be given to keys in order, each to one that
verifies it. -/
theorem multisig_succeeds_iff (verify : Bytes → Bytes → Bool) {s : SigStack} {keys sigs : List Bytes}
    (h : s.Holds keys sigs) : succeeds (opCheckMultisig verify) s ↔
      ∃ f : Fin sigs.length ↪o Fin keys.length, ∀ i, verify (sigs.get i) (keys.get (f i)) := by
  obtain ⟨n, m, rest, hstack, hn, hm⟩ := h.layout
  obtain ⟨stack, ops⟩ := s
  obtain rfl : stack = _ := hstack
  have hrun : opCheckMultisig verify ⟨n :: (keys ++ m :: (sigs ++ [] :: rest)), ops⟩ =
      check (matchSigs verify sigs keys = true) () ⟨rest, ops + keys.length⟩ := by
    rw [opCheckMultisig, bind_of_ok (popCount_eq hn h.atMost),
      bind_of_ok (a := ⟨⟩) (modify_eq_ok.mpr rfl), bind_of_ok (get_eq_ok.mpr ⟨rfl, rfl⟩),
      bind_of_ok (a := ()) (check_eq_ok.mpr ⟨h.ops, rfl⟩), bind_of_ok (popItems_eq ..),
      bind_of_ok (popCount_eq hm h.fewer), bind_of_ok (popItems_eq ..),
      bind_of_ok (get_eq_ok.mpr ⟨rfl, rfl⟩),
      bind_of_ok (a := ()) (check_eq_ok.mpr ⟨List.head?_cons, rfl⟩),
      bind_of_ok (a := ⟨⟩) (set_eq_ok.mpr rfl)]
    rfl
  rw [succeeds_iff, ← matchSigs_iff_embedding, hrun]
  simp

/-- The first and the last of three keys, for a check that compares. -/
theorem multisig_succeeds_iff_sample : succeeds (opCheckMultisig fun sig key => sig == key)
    ⟨[[3], [1], [2], [3], [2], [1], [3], []], 0⟩ = true := by
  have hstack : SigStack.Holds ⟨[[3], [1], [2], [3], [2], [1], [3], []], 0⟩ [[1], [2], [3]]
      [[1], [3]] :=
    ⟨⟨[3], [2], [], rfl, by decide, by decide⟩, by decide, by decide, by decide⟩
  refine (multisig_succeeds_iff _ hstack).mpr ⟨OrderEmbedding.ofStrictMono ![0, 2] (by decide), ?_⟩
  decide

end Veld.Script
