import Veld.Lib.Quorum

/-!
# Two-phase voting with locks

Members prevote for targets and precommit to them. A correct member moves to higher targets only, has
one target for each height, precommits only to a target that a supermajority has prevoted, and after a
precommit prevotes only for targets over it, or over a higher target that a supermajority has prevoted.
-/

namespace LockedVoting

open List

inductive Ballot (T : Type*) where
  | prevote (target : T)
  | precommit (target : T)

namespace Ballot

variable {T : Type*}

def target : Ballot T → T
  | prevote t => t
  | precommit t => t

end Ballot

/-- Who votes, with which weight, who of them is correct, and how the targets are ordered. -/
structure Election (ι T : Type*) where
  members : Finset ι
  weight : ι → ℕ
  honest : ι → Prop
  height : T → ℕ
  ancestor : T → T → Prop

variable {ι T : Type*} {P : Election ι T} {H H' : List (ι × Ballot T)} {i : ι} {t t' : T}

namespace Election

variable (P) (H)

/-- The correct members of some supermajority have cast the ballot. -/
def Backed (b : Ballot T) : Prop :=
  ∃ Q, Quorum.Supermajority P.members P.weight Q ∧ ∀ i ∈ Q, P.honest i → (i, b) ∈ H

/-- A prevote for `t'` is in order after a precommit to `t`. -/
def Justified (t t' : T) : Prop :=
  ∃ l, (l = t ∨ P.height t < P.height l ∧ P.Backed H (.prevote l)) ∧ (l = t' ∨ P.ancestor l t')

/-- What a correct member may cast after the history. -/
structure Allowed (i : ι) (b : Ballot T) : Prop where
  ordered : ∀ b', (i, b') ∈ H → P.height b'.target ≤ P.height b.target
  single : ∀ b', (i, b') ∈ H → P.height b'.target = P.height b.target → b'.target = b.target
  precommit : ∀ t, b = .precommit t → P.Backed H (.prevote t)
  prevote : ∀ t t', b = .prevote t' → (i, .precommit t) ∈ H → P.Justified H t t'

/-- The histories in which every ballot of a correct member was allowed when it was cast. -/
inductive Valid : List (ι × Ballot T) → Prop where
  | nil : Valid []
  | cons {H : List (ι × Ballot T)} {i : ι} {b : Ballot T} :
    Valid H → (P.honest i → P.Allowed H i b) → Valid ((i, b) :: H)

end Election

open Election

theorem Election.Backed.mono {b : Ballot T} (h : P.Backed H b) (hsub : H ⊆ H') : P.Backed H' b := by
  obtain ⟨Q, hQ, hcast⟩ := h
  exact ⟨Q, hQ, fun i hi hhonest => hsub (hcast i hi hhonest)⟩

theorem Election.Justified.mono (h : P.Justified H t t') (hsub : H ⊆ H') : P.Justified H' t t' := by
  obtain ⟨l, hl, hle⟩ := h
  refine ⟨l, hl.imp_right fun hback => ?_, hle⟩
  exact ⟨hback.1, hback.2.mono hsub⟩

namespace Election.Valid

variable {A B : List (ι × Ballot T)}

theorem suffix (h : P.Valid (A ++ B)) : P.Valid B := by
  induction A with
  | nil => exact h
  | cons c A ih =>
    cases h with
    | cons hA _ => exact ih hA

theorem before {b b' : Ballot T} (h : P.Valid (A ++ (i, b) :: B)) (hi : P.honest i)
    (hmem : (i, b') ∈ A ++ (i, b) :: B) (hlt : P.height b'.target < P.height b.target) :
    (i, b') ∈ B := by
  induction A with
  | nil =>
    rcases mem_cons.mp hmem with heq | hB
    · cases heq
      exact absurd hlt (lt_irrefl _)
    · exact hB
  | cons c A ih =>
    cases h with
    | cons hA hallowed =>
      rcases mem_cons.mp hmem with heq | hmem
      · -- the last ballot cannot be below one that was cast earlier
        cases heq
        have hle := (hallowed hi).ordered b (mem_append_right _ mem_cons_self)
        exact absurd hlt (not_lt.mpr hle)
      · exact ih hA hmem

theorem single_target (h : P.Valid H) (hi : P.honest i) {b b' : Ballot T} (hb : (i, b) ∈ H)
    (hb' : (i, b') ∈ H) (hheight : P.height b.target = P.height b'.target) : b.target = b'.target := by
  induction h with
  | nil => cases hb
  | cons hH hallowed ih =>
    rcases mem_cons.mp hb with heq | hold
    · cases heq
      rcases mem_cons.mp hb' with heq' | hold'
      · cases heq'
        rfl
      · exact ((hallowed hi).single b' hold' hheight.symm).symm
    · rcases mem_cons.mp hb' with heq' | hold'
      · cases heq'
        exact (hallowed hi).single b hold hheight
      · exact ih hold hold'

theorem precommit_backed (h : P.Valid H) (hi : P.honest i) (hmem : (i, .precommit t) ∈ H) :
    P.Backed H (.prevote t) := by
  induction h with
  | nil => cases hmem
  | cons _ hallowed ih =>
    rcases mem_cons.mp hmem with heq | hold
    · cases heq
      exact ((hallowed hi).precommit t rfl).mono (subset_cons_self _ _)
    · exact (ih hold).mono (subset_cons_self _ _)

variable [DecidableEq ι] [DecidablePred P.honest]
  (htrans : ∀ a b c, P.ancestor a b → P.ancestor b c → P.ancestor a c)
  (hfew : Quorum.FewFaulty P.members P.weight P.honest)
include htrans hfew

section
variable (h : P.Valid H) (hcommit : P.Backed H (.precommit t))
include h hcommit

/-- Over a target that a supermajority has precommitted to, only its descendants are prevoted by a
supermajority. -/
theorem prevoted_descends (hsplit : H = A ++ B) (hprevote : P.Backed B (.prevote t'))
    (hheight : P.height t ≤ P.height t') : t' = t ∨ P.ancestor t t' := by
  -- on the time at which `t'` has its quorum of prevotes
  induction hn : B.length using Nat.strong_induction_on generalizing A B t' with
  | _ n ih =>
    subst hsplit
    obtain ⟨Q, hQ, hcast⟩ := hprevote
    obtain ⟨R, hR, hcast'⟩ := hcommit
    obtain ⟨i, hiQ, hiR, hi⟩ := hfew.exists_honest hQ hR
    have hpre := hcast i hiQ hi
    have hcom := hcast' i hiR hi
    rcases hheight.eq_or_lt with heq | hlt
    · exact .inl (h.single_target hi (mem_append_right A hpre) hcom heq.symm)
    · -- member `i` prevoted `t'` when it had precommitted to `t`
      obtain ⟨C, D, rfl⟩ := append_of_mem hpre
      rw [← append_assoc] at h hcom
      have hbefore := h.before hi hcom hlt
      obtain ⟨l, hl, hle⟩ : P.Justified D t t' := by
        cases h.suffix with
        | cons _ hallowed => exact (hallowed hi).prevote t t' rfl hbefore
      have htl : l = t ∨ P.ancestor t l := by
        rcases hl with rfl | ⟨hlower, hback⟩
        · exact .inl rfl
        · refine ih D.length ?_ (A := A ++ C ++ [(i, .prevote t')]) ?_ hback hlower.le rfl
          · simp only [length_append, length_cons] at hn
            omega
          · simp
      rcases htl with rfl | htl
      · exact hle.imp_left Eq.symm
      · rcases hle with rfl | hle
        · exact .inr htl
        · exact .inr (htrans _ _ _ htl hle)

theorem descends (hcommit' : P.Backed H (.precommit t')) (hheight : P.height t ≤ P.height t') :
    t' = t ∨ P.ancestor t t' := by
  obtain ⟨Q, hQ, hcast⟩ := hcommit'
  obtain ⟨i, hiQ, -, hi⟩ := hfew.exists_honest hQ hQ
  exact h.prevoted_descends htrans hfew hcommit (A := []) rfl (h.precommit_backed hi (hcast i hiQ hi)) hheight

/-- Of two targets that are precommitted to, one is an ancestor of the other. -/
theorem comparable (hcommit' : P.Backed H (.precommit t')) :
    t = t' ∨ P.ancestor t t' ∨ P.ancestor t' t := by
  rcases le_total (P.height t) (P.height t') with hle | hle
  · rcases h.descends htrans hfew hcommit hcommit' hle with rfl | hanc
    · exact .inl rfl
    · exact .inr (.inl hanc)
  · rcases h.descends htrans hfew hcommit' hcommit hle with rfl | hanc
    · exact .inl rfl
    · exact .inr (.inr hanc)

end

end Election.Valid

end LockedVoting
