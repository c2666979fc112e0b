import Mathlib

/-!
# Radix tries

A binary trie over keys read bit by bit, with the levels on which nothing splits left out: a branch names the
bit that parts its two sides.
-/

namespace RadixTrie

open List

inductive Trie (K V : Type*) where
  | leaf (key : K) (value : V)
  | branch (depth : Nat) (left right : Trie K V)

namespace Trie

variable {K V : Type*} (bit : K → Nat → Bool)

def entries : Trie K V → List (K × V)
  | leaf k v => [(k, v)]
  | branch _ l r => l.entries ++ r.entries

/-- The leaf a key leads to. -/
def terminal (key : K) : Trie K V → K × V
  | leaf k v => (k, v)
  | branch d l r => if bit key d then r.terminal key else l.terminal key

def lookup [DecidableEq K] (key : K) (t : Trie K V) : Option V :=
  if (t.terminal bit key).1 = key then some (t.terminal bit key).2 else none

/-- A new leaf beside a subtree, parted at a bit. -/
def join (key : K) (value : V) (split : Nat) (t : Trie K V) : Trie K V :=
  if bit key split then branch split t (leaf key value) else branch split (leaf key value) t

def graft (key : K) (value : V) (split : Nat) : Trie K V → Trie K V
  | leaf k v => join bit key value split (leaf k v)
  | branch d l r =>
    if d < split then
      if bit key d then branch d l (r.graft key value split) else branch d (l.graft key value split) r
    else join bit key value split (branch d l r)

/-- The keys under a branch agree up to its bit, and differ there from one side to the other. -/
def Sorted : Trie K V → Prop
  | leaf _ _ => True
  | branch d l r => l.Sorted ∧ r.Sorted ∧ (∀ x ∈ l.entries, bit x.1 d = false) ∧
      (∀ x ∈ r.entries, bit x.1 d) ∧
      ∀ x ∈ l.entries ++ r.entries, ∀ y ∈ l.entries ++ r.entries, ∀ i < d, bit x.1 i = bit y.1 i

variable {bit} {t : Trie K V} {key : K} {value : V} {split : Nat}

theorem terminal_mem (bit : K → Nat → Bool) (t : Trie K V) (key : K) : t.terminal bit key ∈ t.entries := by
  induction t with
  | leaf k v => exact mem_singleton_self _
  | branch d l r ihl ihr =>
    unfold terminal
    split
    · exact mem_append_right _ ihr
    · exact mem_append_left _ ihl

theorem Sorted.terminal_eq (h : t.Sorted bit) (hmem : (key, value) ∈ t.entries) :
    t.terminal bit key = (key, value) := by
  induction t with
  | leaf k v => exact (mem_singleton.mp hmem).symm
  | branch d l r ihl ihr =>
    obtain ⟨hl, hr, hleft, hright, -⟩ := h
    rcases mem_append.mp hmem with hmem | hmem
    · have hbit : bit key d = false := hleft _ hmem
      simp only [terminal, hbit]
      exact ihl hl hmem
    · have hbit : bit key d = true := hright _ hmem
      simp only [terminal, hbit]
      exact ihr hr hmem

theorem Sorted.lookup_eq_some [DecidableEq K] (h : t.Sorted bit) :
    t.lookup bit key = some value ↔ (key, value) ∈ t.entries := by
  constructor
  · intro hl
    have hmem := terminal_mem bit t key
    unfold lookup at hl
    generalize t.terminal bit key = x at hl hmem
    split at hl
    · rename_i hkey
      cases hl
      rwa [← hkey]
    · cases hl
  · intro hmem
    rw [lookup, h.terminal_eq hmem, if_pos rfl]

theorem Sorted.lookup_eq_none [DecidableEq K] (h : t.Sorted bit) :
    t.lookup bit key = none ↔ ∀ v, (key, v) ∉ t.entries := by
  rw [Option.eq_none_iff_forall_ne_some]
  exact forall_congr' fun v => not_congr h.lookup_eq_some

theorem mem_join {x : K × V} :
    x ∈ (t.join bit key value split).entries ↔ x = (key, value) ∨ x ∈ t.entries := by
  unfold join
  split
  · simp [entries, or_comm]
  · simp [entries]

theorem mem_graft {x : K × V} :
    x ∈ (t.graft bit key value split).entries ↔ x = (key, value) ∨ x ∈ t.entries := by
  induction t with
  | leaf k v => exact mem_join
  | branch d l r ihl ihr =>
    unfold graft
    split
    · split
      · simp only [entries, mem_append, ihr]
        tauto
      · simp only [entries, mem_append, ihl]
        tauto
    · exact mem_join

theorem Sorted.join (h : t.Sorted bit)
    (hagree : ∀ x ∈ t.entries, ∀ i < split, bit x.1 i = bit key i)
    (hpart : ∀ x ∈ t.entries, bit x.1 split = !bit key split) :
    (t.join bit key value split).Sorted bit := by
  have hall : ∀ x, x = (key, value) ∨ x ∈ t.entries → ∀ i < split, bit x.1 i = bit key i := by
    rintro x (rfl | hx) i hi
    · rfl
    · exact hagree x hx i hi
  unfold Trie.join
  split
  · rename_i hbit
    refine ⟨h, trivial, fun x hx => by rw [hpart x hx, hbit]; rfl, ?_, ?_⟩
    · simp [entries, hbit]
    · intro x hx y hy i hi
      simp only [entries, mem_append, mem_singleton] at hx hy
      rw [hall x hx.symm i hi, hall y hy.symm i hi]
  · rename_i hbit
    refine ⟨trivial, h, ?_, fun x hx => by rw [hpart x hx, Bool.eq_false_iff.mpr hbit]; rfl, ?_⟩
    · simpa [entries] using hbit
    · intro x hx y hy i hi
      simp only [entries, mem_append, mem_singleton] at hx hy
      rw [hall x hx i hi, hall y hy i hi]

theorem Sorted.graft (h : t.Sorted bit)
    (hagree : ∀ i < split, bit (t.terminal bit key).1 i = bit key i)
    (hpart : bit (t.terminal bit key).1 split = !bit key split) :
    (t.graft bit key value split).Sorted bit := by
  induction t with
  | leaf k v =>
    refine Sorted.join trivial (fun x hx => ?_) fun x hx => ?_ <;>
      obtain rfl := mem_singleton.mp hx
    · exact hagree
    · exact hpart
  | branch d l r ihl ihr =>
    have hmem := terminal_mem bit (branch d l r) key
    obtain ⟨hl, hr, hleft, hright, hsame⟩ := id h
    have hnext : bit (terminal bit key (branch d l r)).1 d = bit key d := by
      unfold terminal
      split
      · rename_i hbit
        rw [hright _ (terminal_mem bit r key), hbit]
      · rename_i hbit
        rw [hleft _ (terminal_mem bit l key), Bool.eq_false_iff.mpr hbit]
    unfold Trie.graft
    split
    · rename_i hlt
      -- The leaf goes further down; the sides of this branch still part at its bit.
      have hall : ∀ x, x = (key, value) ∨ x ∈ l.entries ++ r.entries → ∀ i < d,
          bit x.1 i = bit (terminal bit key (branch d l r)).1 i := by
        rintro x (rfl | hx) i hi
        · exact (hagree i (hi.trans hlt)).symm
        · exact hsame x hx _ hmem i hi
      have hboth {rows : List (K × V)} (hsub : ∀ x ∈ rows, x = (key, value) ∨ x ∈ l.entries ++ r.entries) :
          ∀ x ∈ rows, ∀ y ∈ rows, ∀ i < d, bit x.1 i = bit y.1 i := fun x hx y hy i hi =>
        (hall x (hsub x hx) i hi).trans (hall y (hsub y hy) i hi).symm
      cases hbit : bit key d with
      | true =>
        simp only [terminal, hbit, if_true] at hagree hpart
        refine ⟨hl, ihr hr hagree hpart, hleft, fun x hx => ?_, hboth fun x hx => ?_⟩
        · rcases mem_graft.mp hx with rfl | hx
          · exact hbit
          · exact hright x hx
        · simp only [mem_append, mem_graft] at hx ⊢
          tauto
      | false =>
        simp only [terminal, hbit, Bool.false_eq_true, if_false] at hagree hpart
        refine ⟨ihl hl hagree hpart, hr, fun x hx => ?_, hright, hboth fun x hx => ?_⟩
        · rcases mem_graft.mp hx with rfl | hx
          · exact hbit
          · exact hleft x hx
        · simp only [mem_append, mem_graft] at hx ⊢
          tauto
    · rename_i hge
      have hlt : split < d := by
        refine lt_of_le_of_ne (not_lt.mp hge) fun heq => ?_
        subst heq
        rw [hnext] at hpart
        cases hb : bit key split <;> simp [hb] at hpart
      refine Sorted.join h (fun x hx i hi => ?_) fun x hx => ?_
      · rw [hsame x hx _ hmem i (hi.trans hlt), hagree i hi]
      · rw [hsame x hx _ hmem split hlt, hpart]

theorem length_join : (t.join bit key value split).entries.length = t.entries.length + 1 := by
  unfold join
  split
  · exact length_append
  · simp [entries, Nat.add_comm]

theorem length_graft : (t.graft bit key value split).entries.length = t.entries.length + 1 := by
  induction t with
  | leaf k v => exact length_join
  | branch d l r ihl ihr =>
    unfold graft
    split
    · split
      · simp only [entries, length_append, ihr]
        omega
      · simp only [entries, length_append, ihl]
        omega
    · exact length_join

/-! ## Canonical form -/

theorem exists_mem_entries (t : Trie K V) : ∃ x, x ∈ t.entries := by
  induction t with
  | leaf k v => exact ⟨_, mem_singleton_self _⟩
  | branch d l r ihl ihr =>
    obtain ⟨x, hx⟩ := ihl
    exact ⟨x, mem_append_left _ hx⟩

section
variable {d d' : Nat} {l r l' r' : Trie K V}

section
variable (h : (branch d l r).Sorted bit)
include h

theorem Sorted.depth_ne {i : Nat}
    (hagree : ∀ x ∈ (branch d l r).entries, ∀ y ∈ (branch d l r).entries, bit x.1 i = bit y.1 i) :
    d ≠ i := by
  rintro rfl
  obtain ⟨x, hx⟩ := exists_mem_entries l
  obtain ⟨y, hy⟩ := exists_mem_entries r
  have heq := hagree x (mem_append_left _ hx) y (mem_append_right _ hy)
  rw [h.2.2.1 x hx, h.2.2.2.1 y hy] at heq
  cases heq

theorem Sorted.mem_left {x : K × V} :
    x ∈ l.entries ↔ x ∈ (branch d l r).entries ∧ bit x.1 d = false := by
  constructor
  · intro hx
    exact ⟨mem_append_left _ hx, h.2.2.1 x hx⟩
  · rintro ⟨hx, hbit⟩
    rcases mem_append.mp hx with hx | hx
    · exact hx
    · rw [h.2.2.2.1 x hx] at hbit
      cases hbit

theorem Sorted.mem_right {x : K × V} :
    x ∈ r.entries ↔ x ∈ (branch d l r).entries ∧ bit x.1 d := by
  constructor
  · intro hx
    exact ⟨mem_append_right _ hx, h.2.2.2.1 x hx⟩
  · rintro ⟨hx, hbit⟩
    rcases mem_append.mp hx with hx | hx
    · rw [h.2.2.1 x hx] at hbit
      cases hbit
    · exact hx

theorem Sorted.not_leaf (hmem : ∀ x, x ∈ (branch d l r).entries → x = (key, value)) : False := by
  refine h.depth_ne (i := d) (fun x hx y hy => ?_) rfl
  rw [hmem x hx, hmem y hy]

theorem Sorted.depth_le (h' : (branch d' l' r').Sorted bit)
    (hmem : ∀ x, x ∈ (branch d l r).entries ↔ x ∈ (branch d' l' r').entries) : d' ≤ d := by
  by_contra hlt
  refine h.depth_ne (i := d) (fun x hx y hy => ?_) rfl
  exact h'.2.2.2.2 x ((hmem x).mp hx) y ((hmem y).mp hy) d (not_le.mp hlt)

end

end

/-- A sorted trie is determined by its entries, whatever the order they came in. -/
theorem Sorted.ext {t' : Trie K V} (h : t.Sorted bit) (h' : t'.Sorted bit)
    (hmem : ∀ x, x ∈ t.entries ↔ x ∈ t'.entries) : t = t' := by
  induction t generalizing t' with
  | leaf k v =>
    cases t' with
    | leaf k' v' =>
      have heq : (k, v) = (k', v') := mem_singleton.mp ((hmem _).mp (mem_singleton_self _))
      cases heq
      rfl
    | branch d' l' r' =>
      exact (h'.not_leaf fun x hx => mem_singleton.mp ((hmem x).mpr hx)).elim
  | branch d l r ihl ihr =>
    cases t' with
    | leaf k' v' => exact (h.not_leaf fun x hx => mem_singleton.mp ((hmem x).mp hx)).elim
    | branch d' l' r' =>
      obtain rfl : d = d' :=
        le_antisymm (h'.depth_le h fun x => (hmem x).symm) (h.depth_le h' hmem)
      have hleft : l = l' := ihl h.1 h'.1 fun x => by rw [h.mem_left, h'.mem_left, hmem]
      have hright : r = r' := ihr h.2.1 h'.2.1 fun x => by rw [h.mem_right, h'.mem_right, hmem]
      rw [hleft, hright]

end Trie

end RadixTrie
