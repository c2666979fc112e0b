import Mathlib

/-!
# Removal with descendants

A list of items where some depend on others. `sweep child bad l` takes out the items that are `bad` and,
transitively, all that depend on one taken out.
-/

namespace Sweep

open List

variable {α : Type} {child : α → α → Bool} {bad bad' : α → Bool} {l : List α} {x y : α}

/-! ## The closure -/

/-- What goes when the items of `l` that are `bad` go. -/
inductive Doomed (child : α → α → Bool) (bad : α → Bool) (l : List α) : α → Prop
  | root {x : α} : x ∈ l → bad x → Doomed child bad l x
  | step {x y : α} : Doomed child bad l x → y ∈ l → child x y → Doomed child bad l y

theorem Doomed.mem (h : Doomed child bad l x) : x ∈ l := by
  cases h <;> assumption

theorem Doomed.mono (hbad : ∀ z ∈ l, bad z → Doomed child bad' l z) (h : Doomed child bad l x) :
    Doomed child bad' l x := by
  induction h with
  | root hx hb => exact hbad _ hx hb
  | step _ hy hc ih => exact .step ih hy hc

/-- One round: the items already dead and those that depend on one of them. -/
def spread (child : α → α → Bool) (l : List α) (dead : α → Bool) (y : α) : Bool :=
  dead y || l.any fun x => dead x && child x y

/-- The dead items after `n` rounds. -/
def rounds (child : α → α → Bool) (l : List α) (bad : α → Bool) : Nat → α → Bool
  | 0 => bad
  | n + 1 => spread child l (rounds child l bad n)

theorem rounds_succ_of {n : Nat} (h : rounds child l bad n x) :
    rounds child l bad (n + 1) x := by
  simp [rounds, spread, h]

theorem Doomed.of_rounds {n : Nat} (hx : x ∈ l) (h : rounds child l bad n x) :
    Doomed child bad l x := by
  induction n generalizing x with
  | zero => exact .root hx h
  | succ n ih =>
    simp only [rounds, spread, Bool.or_eq_true, any_eq_true, Bool.and_eq_true] at h
    rcases h with h | ⟨p, hp, hdead, hc⟩
    · exact ih hx h
    · exact .step (ih hp hdead) hx hc

/-- A round that adds nothing is the last one. -/
def Settled (child : α → α → Bool) (l : List α) (dead : α → Bool) : Prop :=
  ∀ y ∈ l, spread child l dead y → dead y

theorem Settled.spread {dead : α → Bool} (h : Settled child l dead) :
    Settled child l (spread child l dead) := by
  intro y hy hs
  simp only [Sweep.spread, Bool.or_eq_true, any_eq_true, Bool.and_eq_true] at hs ⊢
  rcases hs with hs | ⟨p, hp, hdead, hc⟩
  · exact hs
  · exact .inr ⟨p, hp, h p hp (by simpa [Sweep.spread] using hdead), hc⟩

theorem settled_or_grows (child : α → α → Bool) (l : List α) (bad : α → Bool) (n : Nat) :
    Settled child l (rounds child l bad n) ∨ n ≤ l.countP (rounds child l bad n) := by
  induction n with
  | zero => exact .inr (Nat.zero_le _)
  | succ n ih =>
    rcases ih with hs | hn
    · exact .inl hs.spread
    · by_cases hs : Settled child l (rounds child l bad n)
      · exact .inl hs.spread
      · -- an item that a round adds makes the count grow
        right
        simp only [Settled, not_forall] at hs
        obtain ⟨y, hy, hnew, hold⟩ := hs
        have hlt : l.countP (rounds child l bad n) < l.countP (rounds child l bad (n + 1)) := by
          rw [countP_eq_length_filter, countP_eq_length_filter]
          have hsub := monotone_filter_right l
            (fun z (hz : rounds child l bad n z) => rounds_succ_of hz)
          refine lt_of_le_of_ne hsub.length_le fun heq => hold ?_
          have hmem : y ∈ l.filter (rounds child l bad (n + 1)) := mem_filter.mpr ⟨hy, hnew⟩
          rw [← hsub.eq_of_length heq] at hmem
          exact (mem_filter.mp hmem).2
        omega

theorem settled_length (child : α → α → Bool) (l : List α) (bad : α → Bool) :
    Settled child l (rounds child l bad l.length) := by
  rcases settled_or_grows child l bad l.length with h | h
  · exact h
  · intro y hy _
    have hall := countP_eq_length.mp (le_antisymm countP_le_length h)
    exact hall y hy

theorem rounds_of_bad {n : Nat} (h : bad x) : rounds child l bad n x := by
  induction n with
  | zero => exact h
  | succ n ih => exact rounds_succ_of ih

theorem rounds_length_iff (hx : x ∈ l) :
    rounds child l bad l.length x ↔ Doomed child bad l x := by
  refine ⟨fun h => .of_rounds hx h, fun h => ?_⟩
  clear hx
  induction h with
  | root _ hb => exact rounds_of_bad hb
  | step hd hy hc ih =>
    refine settled_length child l bad _ hy ?_
    simp only [spread, Bool.or_eq_true, any_eq_true, Bool.and_eq_true]
    exact .inr ⟨_, hd.mem, ih, hc⟩

/-! ## Sweeping -/

/-- The list without the `bad` items and all that depend on them. -/
def sweep (child : α → α → Bool) (bad : α → Bool) (l : List α) : List α :=
  l.filter fun x => !rounds child l bad l.length x

theorem sweep_sublist (child : α → α → Bool) (bad : α → Bool) (l : List α) :
    (sweep child bad l).Sublist l := filter_sublist

theorem mem_sweep : x ∈ sweep child bad l ↔ x ∈ l ∧ ¬ Doomed child bad l x := by
  simp only [sweep, mem_filter, Bool.not_eq_true', ← Bool.not_eq_true]
  exact and_congr_right fun hx => not_congr (rounds_length_iff hx)

theorem mem_sweep_of_child (hy : y ∈ sweep child bad l) (hx : x ∈ l) (hc : child x y) :
    x ∈ sweep child bad l := by
  obtain ⟨hyl, hnot⟩ := mem_sweep.mp hy
  exact mem_sweep.mpr ⟨hx, fun hd => hnot (.step hd hyl hc)⟩

theorem sweep_sublist_sweep (h : ∀ x ∈ l, bad x → Doomed child bad' l x) :
    (sweep child bad' l).Sublist (sweep child bad l) := by
  have hfilter : sweep child bad' l = (sweep child bad l).filter
      fun x => !rounds child l bad' l.length x := by
    rw [sweep, sweep, filter_filter]
    refine filter_congr fun x hx => ?_
    rw [Bool.eq_iff_iff, Bool.and_eq_true, Bool.not_eq_true', Bool.not_eq_true', ← Bool.not_eq_true,
      ← Bool.not_eq_true, rounds_length_iff hx, rounds_length_iff hx]
    exact ⟨fun hn => ⟨hn, fun hd => hn (hd.mono h)⟩, And.left⟩
  rw [hfilter]
  exact filter_sublist

theorem sweep_congr (h : ∀ x ∈ l, bad x → Doomed child bad' l x)
    (h' : ∀ x ∈ l, bad' x → Doomed child bad l x) :
    sweep child bad l = sweep child bad' l :=
  (sweep_sublist_sweep h').antisymm (sweep_sublist_sweep h)

theorem sweep_none (child : α → α → Bool) (l : List α) : sweep child (fun _ => false) l = l := by
  refine filter_eq_self.mpr fun a ha => ?_
  rw [Bool.not_eq_true', ← Bool.not_eq_true, rounds_length_iff ha]
  intro hd
  induction hd with
  | root _ h => cases h
  | step hd _ _ ih => exact ih hd.mem

theorem sweep_sweep (bad bad' : α → Bool) :
    sweep child bad' (sweep child bad l) = sweep child (fun x => bad x || bad' x) l := by
  have key : ∀ x, x ∈ sweep child bad' (sweep child bad l) ↔
      x ∈ sweep child (fun x => bad x || bad' x) l := by
    intro x
    rw [mem_sweep, mem_sweep, mem_sweep]
    constructor
    · rintro ⟨⟨hx, hbad⟩, hbad'⟩
      refine ⟨hx, fun hd => ?_⟩
      -- what the joint sweep dooms was doomed by the first or, staying there, by the second
      have hsplit : Doomed child bad l x ∨ Doomed child bad' (sweep child bad l) x := by
        clear hbad hbad'
        induction hd with
        | @root z hz hb =>
          rw [Bool.or_eq_true] at hb
          by_cases hd : Doomed child bad l z
          · exact .inl hd
          · exact .inr (.root (mem_sweep.mpr ⟨hz, hd⟩) (hb.resolve_left fun h => hd (.root hz h)))
        | @step z y hz hy hc ih =>
          rcases ih hz.mem with h | h
          · exact .inl (.step h hy hc)
          · by_cases hd : Doomed child bad l y
            · exact .inl hd
            · exact .inr (.step h (mem_sweep.mpr ⟨hy, hd⟩) hc)
      exact hsplit.elim hbad hbad'
    · rintro ⟨hx, hnot⟩
      refine ⟨⟨hx, fun hd => hnot (hd.mono fun z hz hb => .root hz (by simp [hb]))⟩, fun hd => hnot ?_⟩
      clear hnot
      induction hd with
      | root hz hb => exact .root (mem_sweep.mp hz).1 (by simp [hb])
      | step _ hy hc ih => exact .step (ih (mem_sweep.mp ‹Doomed _ _ _ _›.mem).1) (mem_sweep.mp hy).1 hc
  -- both are filters of `l`
  rw [sweep, sweep, filter_filter, sweep]
  refine filter_congr fun x hx => ?_
  have h := key x
  rw [sweep, sweep, filter_filter, sweep, mem_filter, mem_filter] at h
  simp only [hx, true_and] at h
  exact Bool.eq_iff_iff.mpr h

/-! ## Making room -/

section
variable [DecidableEq α] (child : α → α → Bool) (rate : α → Nat) (r : Nat) (room : List α → Bool)

/-- Takes out the first item with its dependants until there is room; gives up at an item that is not
cheaper than `r`. -/
def makeRoom : Nat → List α → Bool × List α
  | 0, l => (room l, l)
  | _ + 1, [] => (room [], [])
  | n + 1, x :: t =>
    if room (x :: t) then (true, x :: t)
    else if r ≤ rate x then (false, x :: t)
    else makeRoom n (sweep child (· == x) (x :: t))

/-- The items in front of `a`. -/
def before (l : List α) (a : α) : List α := l.takeWhile (· ≠ a)

/-- `a` is cheap enough, and taking out all in front of it does not make room. -/
def taken (l : List α) (a : α) : Bool :=
  rate a < r && !room (sweep child (fun x => decide (x ∈ before l a)) l)

/-- What is left once room has been made, or nothing cheap is left. -/
def kept (l : List α) : List α := sweep child (taken child rate r room l) l

end

theorem before_eq [DecidableEq α] {p q : List α} (h : x ∉ p) : before (p ++ x :: q) x = p := by
  rw [before, takeWhile_append_of_pos]
  · simp
  · intro y hy
    simpa using fun heq : y = x => h (heq ▸ hy)

theorem before_subset [DecidableEq α] {p q : List α} (hn : (p ++ x :: q).Nodup) (ha : y ∈ p ++ [x]) :
    before (p ++ x :: q) y ⊆ p := by
  obtain ⟨p₁, p₂, heq⟩ := append_of_mem ha
  have hl : p ++ x :: q = p₁ ++ y :: (p₂ ++ q) := by
    rw [← singleton_append, ← append_assoc, heq]
    simp
  have hy : y ∉ p₁ := by
    rw [hl] at hn
    exact fun hmem => (disjoint_of_nodup_append hn) hmem (by simp)
  rw [hl, before_eq hy]
  have hpre : p₁ <+: p := by
    have h₁ : p₁ <+: p ++ [x] := ⟨y :: p₂, heq.symm⟩
    refine prefix_of_prefix_length_le h₁ (prefix_append p [x]) ?_
    have := congrArg List.length heq
    simp only [length_append, length_cons, length_nil] at this
    omega
  exact hpre.subset

theorem exists_split {front : List α} (hx : x ∈ l) (hn : l.Nodup) (hf : front <+: l) (hnot : x ∉ front) :
    ∃ p q, l = p ++ x :: q ∧ x ∉ p ∧ front ⊆ p := by
  obtain ⟨p, q, rfl⟩ := append_of_mem hx
  refine ⟨p, q, rfl, fun hmem => disjoint_of_nodup_append hn hmem mem_cons_self, ?_⟩
  have hpx : p ++ [x] <+: p ++ x :: q := ⟨q, by simp⟩
  rcases prefix_or_prefix_of_prefix hf hpx with h | h
  · intro a ha
    rcases mem_append.mp (h.subset ha) with h' | h'
    · exact h'
    · exact absurd (mem_singleton.mp h' ▸ ha) hnot
  · exact absurd (h.subset (by simp)) hnot

section
variable [DecidableEq α] {rate : α → Nat} {r : Nat} {room : List α → Bool}

structure Front (child : α → α → Bool) (rate : α → Nat) (r : Nat) (room : List α → Bool)
    (l front : List α) : Prop where
  is_front : front <+: l
  taken : ∀ a ∈ front, taken child rate r room l a

theorem exists_next {front t : List α} (hl : sweep child (fun x => decide (x ∈ front)) l = x :: t)
    (hf : front <+: l) (hn : l.Nodup) :
    ∃ p q, l = p ++ x :: q ∧ x ∉ p ∧ front ⊆ p ∧
      ∀ a ∈ p, Doomed child (fun x => decide (x ∈ front)) l a := by
  have hx : x ∈ sweep child (fun x => decide (x ∈ front)) l := hl ▸ mem_cons_self
  obtain ⟨hxl, hstay⟩ := mem_sweep.mp hx
  have hxf : x ∉ front := fun hmem => hstay (.root hxl (by simpa using hmem))
  obtain ⟨p, q, hpq, hxp, hsubset⟩ := exists_split hxl hn hf hxf
  refine ⟨p, q, hpq, hxp, hsubset, fun a ha => ?_⟩
  by_contra hd
  have hal : a ∈ l := hpq ▸ mem_append_left _ ha
  -- an item of `p` that stays would stand before `x`
  have hsub : (sweep child (fun x => decide (x ∈ front)) l) =
      (p.filter fun z => !rounds child l (fun x => decide (x ∈ front)) l.length z) ++
        ((x :: q).filter fun z => !rounds child l (fun x => decide (x ∈ front)) l.length z) := by
    rw [← filter_append, ← hpq, sweep]
  have hmem : a ∈ p.filter fun z => !rounds child l (fun x => decide (x ∈ front)) l.length z := by
    refine mem_filter.mpr ⟨ha, ?_⟩
    rw [Bool.not_eq_true', ← Bool.not_eq_true, rounds_length_iff hal]
    exact hd
  rw [hl] at hsub
  cases hfil : p.filter fun z => !rounds child l (fun x => decide (x ∈ front)) l.length z with
  | nil =>
    rw [hfil] at hmem
    cases hmem
  | cons z zs =>
    rw [hfil, cons_append] at hsub
    have hz : z ∈ p := (mem_filter.mp (hfil ▸ mem_cons_self)).1
    exact hxp ((List.cons.inj hsub).1 ▸ hz)

variable (hroom : ∀ l₁ l₂ : List α, l₁.Sublist l₂ → room l₂ → room l₁)
include hroom

theorem Front.kept_of_room {front : List α} (hf : Front child rate r room l front) (hn : l.Nodup)
    (h : room (sweep child (fun x => decide (x ∈ front)) l) = true) :
    kept child rate r room l = sweep child (fun x => decide (x ∈ front)) l := by
  refine sweep_congr (fun a ha htaken => .root ha ?_) fun a ha hfront => .root ha ?_
  · by_contra hnot
    rw [decide_eq_true_eq] at hnot
    obtain ⟨p, q, hpq, hap, hsub⟩ := exists_split ha hn hf.is_front hnot
    simp only [Sweep.taken, Bool.and_eq_true, Bool.not_eq_true'] at htaken
    have hroom' : room (sweep child (fun x => decide (x ∈ before l a)) l) = true := by
      refine hroom _ _ (sweep_sublist_sweep fun z hz hzf => .root hz ?_) h
      rw [decide_eq_true_eq] at hzf ⊢
      rw [hpq, before_eq hap]
      exact hsub hzf
    exact Bool.false_ne_true (htaken.2.symm.trans hroom')
  · exact hf.taken a (of_decide_eq_true hfront)

section
variable (hn : l.Nodup) (hsort : l.Pairwise fun a b => rate a ≤ rate b)
include hn hsort

theorem Front.of_next {front p q : List α}
    (hfull : room (sweep child (fun x => decide (x ∈ front)) l) = false) (hcheap : rate x < r)
    (hpq : l = p ++ x :: q) (hgone : ∀ a ∈ p, Doomed child (fun x => decide (x ∈ front)) l a) :
    Front child rate r room l (p ++ [x]) := by
  refine ⟨⟨q, by simp [hpq]⟩, fun a ha => ?_⟩
  simp only [Sweep.taken, Bool.and_eq_true, decide_eq_true_eq, Bool.not_eq_true']
  constructor
  · rcases mem_append.mp ha with h | h
    · rw [hpq] at hsort
      exact lt_of_le_of_lt ((pairwise_append.mp hsort).2.2 a h x mem_cons_self) hcheap
    · rw [mem_singleton.mp h]
      exact hcheap
  · rw [Bool.eq_false_iff]
    intro h
    have hsub : before l a ⊆ p := by
      rw [hpq] at hn ⊢
      exact before_subset hn ha
    have := hroom _ _ (sweep_sublist_sweep fun z _ hz =>
      hgone z (hsub (of_decide_eq_true hz))) h
    exact Bool.false_ne_true (hfull.symm.trans this)

theorem makeRoom_front (n : Nat) (front : List α) (hf : Front child rate r room l front)
    (hlen : (sweep child (fun x => decide (x ∈ front)) l).length ≤ n) :
    makeRoom child rate r room n (sweep child (fun x => decide (x ∈ front)) l) =
      (room (kept child rate r room l), kept child rate r room l) := by
  -- what has to go is at least what went, so an empty rest stays empty
  have hsub : (kept child rate r room l).Sublist (sweep child (fun x => decide (x ∈ front)) l) :=
    sweep_sublist_sweep fun a ha h => .root ha (hf.taken a (of_decide_eq_true h))
  induction n generalizing front with
  | zero =>
    have hnil := eq_nil_of_length_eq_zero (Nat.le_zero.mp hlen)
    rw [hnil] at hsub ⊢
    rw [sublist_nil.mp hsub]
    rfl
  | succ n ih =>
    cases hl : sweep child (fun x => decide (x ∈ front)) l with
    | nil =>
      rw [hl] at hsub
      rw [sublist_nil.mp hsub]
      rfl
    | cons x t =>
      rw [makeRoom, ← hl]
      split
      · next hr =>
        rw [hf.kept_of_room hroom hn hr, hr]
      · next hr =>
        obtain ⟨p, q, hpq, hxp, hfp, hgone⟩ := exists_next hl hf.is_front hn
        split
        · next hdear =>
          -- the items from `x` on are too dear, those before it are gone
          have hkept : kept child rate r room l = sweep child (fun x => decide (x ∈ front)) l := by
            refine sweep_congr (fun a ha htaken => ?_) fun a ha h =>
              .root ha (hf.taken a (of_decide_eq_true h))
            simp only [taken, Bool.and_eq_true, decide_eq_true_eq] at htaken
            have hsort' := hsort
            rw [hpq] at ha hsort'
            rcases mem_append.mp ha with h | h
            · exact hgone a h
            · have hle : rate x ≤ rate a := by
                rcases mem_cons.mp h with rfl | h
                · exact le_rfl
                · exact rel_of_pairwise_cons (pairwise_append.mp hsort').2.1 h
              omega
          rw [hkept, Bool.eq_false_iff.mpr hr]
        · next hcheap =>
          have hnext := Front.of_next hroom hn hsort (Bool.eq_false_iff.mpr hr) (not_le.mp hcheap) hpq hgone
          have hstep : sweep child (· == x) (sweep child (fun x => decide (x ∈ front)) l) =
              sweep child (fun z => decide (z ∈ p ++ [x])) l := by
            rw [sweep_sweep]
            refine sweep_congr (fun a ha h => .root ha ?_) fun a ha h => ?_
            · simp only [Bool.or_eq_true, decide_eq_true_eq, beq_iff_eq, mem_append,
                mem_singleton] at h ⊢
              exact h.imp_left fun h => hfp h
            · simp only [decide_eq_true_eq, mem_append, mem_singleton] at h
              rcases h with h | rfl
              · exact (hgone a h).mono fun z hz hzf => .root hz (by simp [of_decide_eq_true hzf])
              · exact .root ha (by simp)
          rw [hstep]
          refine ih _ hnext ?_ (sweep_sublist_sweep fun a ha h => .root ha (hnext.taken a (of_decide_eq_true h)))
          -- `x` itself is gone, so the rest is shorter
          have hshort : (sweep child (· == x) (x :: t)).length < (x :: t).length := by
            refine lt_of_le_of_ne (sweep_sublist _ _ _).length_le fun heq => ?_
            have hmem : x ∈ sweep child (· == x) (x :: t) := by
              rw [(sweep_sublist child (· == x) (x :: t)).eq_of_length heq]
              exact mem_cons_self
            exact (mem_sweep.mp hmem).2 (.root mem_cons_self (by simp))
          rw [← hstep, hl]
          rw [hl] at hlen
          omega

theorem makeRoom_eq :
    makeRoom child rate r room l.length l =
      (room (kept child rate r room l), kept child rate r room l) := by
  have hnil : sweep child (fun x => decide (x ∈ ([] : List α))) l = l := by
    simp only [not_mem_nil, decide_false, sweep_none]
  refine Eq.trans ?_ (makeRoom_front hroom hn hsort l.length [] ⟨List.nil_prefix, by simp⟩ (by rw [hnil]))
  rw [hnil]

end

end

end Sweep
