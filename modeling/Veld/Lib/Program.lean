import Mathlib

/-!
# Programs with state and early exit

An imperative function that tests, mutates and may return early is a program in `EStateM ε σ`. A program that
stops keeps the state it had reached.
-/

namespace Program

variable {ε σ α β : Type}

/-- The two ways a function ends early: it reports failure, or it throws. -/
inductive Stop where
  | reject
  | thrown
  deriving DecidableEq

/-- Stops unless the condition holds. -/
def check (c : Prop) [Decidable c] (e : ε) : EStateM ε σ Unit := if c then pure () else throw e

/-- The value of an option; stops when there is none. -/
def require (o : Option α) (e : ε) : EStateM ε σ α :=
  match o with
  | some a => pure a
  | none => throw e

/-- Whether a run ends without a stop; the state it reaches is dropped. -/
def succeeds (x : EStateM ε σ α) (s : σ) : Bool :=
  match x s with
  | .ok _ _ => true
  | .error _ _ => false

/-- The state a run leaves, however it ends. -/
def final (x : EStateM ε σ α) (s : σ) : σ :=
  match x s with
  | .ok _ s' => s'
  | .error _ s' => s'

/-! ## Runs that end -/

variable {x : EStateM ε σ α}

theorem succeeds_iff {s : σ} : succeeds x s ↔ ∃ a s', x s = .ok a s' := by
  unfold succeeds
  cases x s <;> simp

theorem eq_ok_of_succeeds {x : EStateM ε σ Unit} {s : σ} (h : succeeds x s) :
    x s = .ok () (final x s) := by
  obtain ⟨⟨⟩, s', h⟩ := succeeds_iff.mp h
  simp [final, h]

theorem eq_error_of_not_succeeds {s : σ} (h : succeeds x s = false) :
    ∃ e, x s = .error e (final x s) := by
  unfold succeeds at h
  unfold final
  cases hx : x s with
  | ok a s' => simp [hx] at h
  | error e s' => exact ⟨e, rfl⟩

variable {f : α → EStateM ε σ β} {s s' : σ}

theorem bind_eq_ok {b : β} :
    (x >>= f) s = .ok b s' ↔ ∃ a s₁, x s = .ok a s₁ ∧ f a s₁ = .ok b s' := by
  change EStateM.bind x f s = _ ↔ _
  unfold EStateM.bind
  cases x s <;> simp

variable {e : ε}

theorem bind_eq_error :
    (x >>= f) s = .error e s' ↔
      x s = .error e s' ∨ ∃ a s₁, x s = .ok a s₁ ∧ f a s₁ = .error e s' := by
  change EStateM.bind x f s = _ ↔ _
  unfold EStateM.bind
  cases x s <;> simp

@[simp] theorem pure_eq_ok {a b : α} : (pure a : EStateM ε σ α) s = .ok b s' ↔ a = b ∧ s = s' := by
  change EStateM.Result.ok a s = _ ↔ _
  simp

@[simp] theorem pure_ne_error {a : α} : ¬ (pure a : EStateM ε σ α) s = .error e s' := by
  change ¬ EStateM.Result.ok a s = _
  simp

@[simp] theorem throw_ne_ok {b : α} : ¬ (throw e : EStateM ε σ α) s = .ok b s' := by
  change ¬ EStateM.Result.error e s = _
  simp

@[simp] theorem throw_eq_error {e' : ε} :
    (throw e : EStateM ε σ α) s = .error e' s' ↔ e = e' ∧ s = s' := by
  change EStateM.Result.error e s = _ ↔ _
  simp

@[simp] theorem get_eq_ok {t : σ} : (get : EStateM ε σ σ) s = .ok t s' ↔ s = t ∧ s = s' := by
  change EStateM.Result.ok s s = _ ↔ _
  simp

@[simp] theorem set_eq_ok {t : σ} {u : PUnit} :
    (set t : EStateM ε σ PUnit) s = .ok u s' ↔ t = s' := by
  change EStateM.Result.ok PUnit.unit t = _ ↔ _
  simp

@[simp] theorem modify_eq_ok {f : σ → σ} {u : PUnit} :
    (modify f : EStateM ε σ PUnit) s = .ok u s' ↔ f s = s' := by
  change EStateM.Result.ok PUnit.unit (f s) = _ ↔ _
  simp

@[simp] theorem check_eq_ok {c : Prop} [Decidable c] {u : Unit} :
    (check c e : EStateM ε σ Unit) s = .ok u s' ↔ c ∧ s = s' := by
  unfold check
  split <;> simp_all

@[simp] theorem require_eq_ok {o : Option α} {a : α} :
    (require o e : EStateM ε σ α) s = .ok a s' ↔ o = some a ∧ s = s' := by
  unfold require
  cases o <;> simp

/-! ## Runs step by step -/

section
variable {c : Prop} [Decidable c] {b : β}

theorem get_bind_eq_ok {f : σ → EStateM ε σ β} : (get >>= f) s = .ok b s' ↔ f s s = .ok b s' := Iff.rfl

theorem set_bind_eq_ok {t : σ} {f : PUnit → EStateM ε σ β} :
    (set t >>= f) s = .ok b s' ↔ f ⟨⟩ t = .ok b s' := Iff.rfl

theorem modify_bind_eq_ok {g : σ → σ} {f : PUnit → EStateM ε σ β} :
    (modify g >>= f) s = .ok b s' ↔ f ⟨⟩ (g s) = .ok b s' := Iff.rfl

theorem check_bind_eq_ok {f : Unit → EStateM ε σ β} :
    (check c e >>= f) s = .ok b s' ↔ c ∧ f () s = .ok b s' := by
  simp only [bind_eq_ok, check_eq_ok]
  exact ⟨fun ⟨_, _, ⟨hc, rfl⟩, h⟩ => ⟨hc, h⟩, fun ⟨hc, h⟩ => ⟨(), s, ⟨hc, rfl⟩, h⟩⟩

theorem require_bind_eq_ok {o : Option α} :
    (require o e >>= f) s = .ok b s' ↔ ∃ a, o = some a ∧ f a s = .ok b s' := by
  simp [bind_eq_ok]

theorem get_bind_eq_error {f : σ → EStateM ε σ β} : (get >>= f) s = .error e s' ↔ f s s = .error e s' := Iff.rfl

theorem modify_bind_eq_error {g : σ → σ} {f : PUnit → EStateM ε σ β} :
    (modify g >>= f) s = .error e s' ↔ f ⟨⟩ (g s) = .error e s' := Iff.rfl

theorem check_bind_eq_error {e' : ε} {f : Unit → EStateM ε σ β} (h : (check c e >>= f) s = .error e' s') :
    s' = s ∨ c ∧ f () s = .error e' s' := by
  rcases bind_eq_error.mp h with h | ⟨_, _, hok, h⟩
  · unfold check at h
    split at h
    · exact (pure_ne_error h).elim
    · exact .inl (throw_eq_error.mp h).2.symm
  · obtain ⟨hc, rfl⟩ := check_eq_ok.mp hok
    exact .inr ⟨hc, h⟩

theorem unit_bind_eq_ok {x : EStateM ε σ Unit} {f : Unit → EStateM ε σ β} :
    (x >>= f) s = .ok b s' ↔ ∃ t, x s = .ok () t ∧ f () t = .ok b s' :=
  bind_eq_ok.trans ⟨fun ⟨_, t, hx, hf⟩ => ⟨t, hx, hf⟩, fun ⟨t, hx, hf⟩ => ⟨(), t, hx, hf⟩⟩

theorem ite_eq_ok {x y : EStateM ε σ β} :
    (if c then x else y) s = .ok b s' ↔ c ∧ x s = .ok b s' ∨ ¬c ∧ y s = .ok b s' := by
  split <;> simp_all

end

/-! ## Stops without a trace -/

/-- Whatever happens, the state is as before. -/
def ReadOnly (x : EStateM ε σ α) : Prop :=
  ∀ s, (∀ a s', x s = .ok a s' → s' = s) ∧ ∀ e s', x s = .error e s' → s' = s

/-- Stopping with an error of `E` leaves the state as before. -/
def Atomic (E : ε → Prop) (x : EStateM ε σ α) : Prop :=
  ∀ s e s', x s = .error e s' → E e → s' = s

/-- Never stops with an error of `E`. -/
def Quiet (E : ε → Prop) (x : EStateM ε σ α) : Prop := ∀ s e s', x s = .error e s' → ¬ E e

/-- A run that ends leaves what `g` observes. -/
def Keeps {γ : Type} (g : σ → γ) (x : EStateM ε σ α) : Prop := ∀ s a s', x s = .ok a s' → g s' = g s

variable {E : ε → Prop} {c : Prop} [Decidable c] {γ : Type} {g : σ → γ} {written : Bool}

/-- A run that ends leaves what `g` observes; an error of `E` comes before the first write, if at all. -/
structure Guarded (E : ε → Prop) (g : σ → γ) (written : Bool) (x : EStateM ε σ α) : Prop where
  keeps : Keeps g x
  refused : ∀ s e s', x s = .error e s' → E e → written = false ∧ s' = s

theorem readOnly_pure (a : α) : ReadOnly (pure a : EStateM ε σ α) :=
  fun _ => ⟨fun _ _ h => (pure_eq_ok.mp h).2.symm, fun _ _ h => (pure_ne_error h).elim⟩

theorem readOnly_throw (e : ε) : ReadOnly (throw e : EStateM ε σ α) :=
  fun _ => ⟨fun _ _ h => (throw_ne_ok h).elim, fun _ _ h => (throw_eq_error.mp h).2.symm⟩

theorem readOnly_check (c : Prop) [Decidable c] (e : ε) :
    ReadOnly (check c e : EStateM ε σ Unit) := by
  unfold check
  split
  · exact readOnly_pure ()
  · exact readOnly_throw e

theorem readOnly_require (o : Option α) (e : ε) : ReadOnly (require o e : EStateM ε σ α) := by
  unfold require
  split
  · exact readOnly_pure _
  · exact readOnly_throw e

theorem ReadOnly.guarded (h : ReadOnly x) : Guarded E g false x :=
  ⟨fun s a s' hx => congrArg g ((h s).1 a s' hx), fun s e s' hx _ => ⟨rfl, (h s).2 e s' hx⟩⟩

theorem ReadOnly.bind_guarded (hx : ReadOnly x) (hf : ∀ a, Guarded E g false (f a)) :
    Guarded E g false (x >>= f) := by
  refine ⟨fun s b s' h => ?_, fun s e s' h he => ?_⟩
  · obtain ⟨a, s₁, ha, h⟩ := bind_eq_ok.mp h
    rw [(hx s).1 a s₁ ha] at h
    exact (hf a).keeps s b s' h
  · rcases bind_eq_error.mp h with h | ⟨a, s₁, ha, h⟩
    · exact ⟨rfl, (hx s).2 e s' h⟩
    · rw [(hx s).1 a s₁ ha] at h
      exact (hf a).refused s e s' h he

theorem Guarded.after_check {f : Unit → EStateM ε σ β} (h : Guarded E g false (f ())) :
    Guarded E g false (check c e >>= f) :=
  (readOnly_check c e).bind_guarded fun _ => h

theorem Guarded.after_require {o : Option α} (h : ∀ a, Guarded E g false (f a)) :
    Guarded E g false (require o e >>= f) :=
  (readOnly_require o e).bind_guarded h

theorem Guarded.after_get {f : σ → EStateM ε σ β} (h : ∀ s, Guarded E g written (f s)) :
    Guarded E g written (get >>= f) :=
  ⟨fun s => (h s).keeps s, fun s => (h s).refused s⟩

theorem Guarded.atomic (h : Guarded E g written x) : Atomic E x :=
  fun s e s' hx he => (h.refused s e s' hx he).2

theorem Guarded.quiet (h : Guarded E g true x) : Quiet E x :=
  fun s e s' hx he => Bool.noConfusion (h.refused s e s' hx he).1

theorem Guarded.observe {δ : Type} (h : Guarded E g written x) (k : γ → δ) :
    Guarded E (fun s => k (g s)) written x :=
  ⟨fun s a s' hx => congrArg k (h.keeps s a s' hx), h.refused⟩

theorem guarded_of_quiet (hk : Keeps g x) (hq : Quiet E x) : Guarded E g written x :=
  ⟨hk, fun s e s' hx he => (hq s e s' hx he).elim⟩

theorem guarded_pure (a : α) : Guarded E g written (pure a : EStateM ε σ α) :=
  guarded_of_quiet (fun _ _ _ h => (pure_eq_ok.mp h).2 ▸ rfl) fun _ _ _ h => (pure_ne_error h).elim

theorem guarded_modify {t : σ → σ} (h : ∀ s, g (t s) = g s) :
    Guarded E g written (modify t : EStateM ε σ PUnit) := by
  refine guarded_of_quiet (fun s _ _ hx => modify_eq_ok.mp hx ▸ h s) fun s _ _ hx => ?_
  change EStateM.Result.ok PUnit.unit (t s) = _ at hx
  cases hx

theorem guarded_throw (he : ¬ E e) : Guarded E g written (throw e : EStateM ε σ α) :=
  guarded_of_quiet (fun _ _ _ h => (throw_ne_ok h).elim) fun _ _ _ h => (throw_eq_error.mp h).1 ▸ he

theorem guarded_require (o : Option α) (he : ¬ E e) : Guarded E g written (require o e) := by
  cases o with
  | some a => exact guarded_pure a
  | none => exact guarded_throw he

theorem guarded_check (c : Prop) [Decidable c] (he : ¬ E e) : Guarded E g written (check c e) := by
  unfold check
  split
  · exact guarded_pure ()
  · exact guarded_throw he

theorem Guarded.bind (hx : Guarded E g written x) (hf : ∀ a, Guarded E g true (f a)) :
    Guarded E g written (x >>= f) := by
  refine ⟨fun s b s' h => ?_, fun s e s' h he => ?_⟩
  · obtain ⟨a, s₁, ha, h⟩ := bind_eq_ok.mp h
    exact ((hf a).keeps s₁ b s' h).trans (hx.keeps s a s₁ ha)
  · rcases bind_eq_error.mp h with h | ⟨a, s₁, -, h⟩
    · exact hx.refused s e s' h he
    · exact ((hf a).quiet s₁ e s' h he).elim

end Program
