import BusLogic.Proofs.Attempt

/-! Two attempts abreast.

From states that stand in a relation, two attempts may do step by step what corresponds to
each other: then both succeed, with answers that correspond, or both fail, with errors that
do, and they leave states in the same relation (`Abreast`). What holds of the steps holds
of sequences, folds and checks. -/
namespace BusLogic.Attempt

variable {ε δ σ α β γ κ : Type}

/-- Both succeed with answers in the relation `Q`, or both fail with errors in the relation `E`. -/
inductive EndsAlike (E : ε → ε → Prop) (Q : α → β → Prop) : Except ε α → Except ε β → Prop
  | ok {a : α} {b : β} (h : Q a b) : EndsAlike E Q (.ok a) (.ok b)
  | error {e f : ε} (h : E e f) : EndsAlike E Q (.error e) (.error f)

namespace EndsAlike

variable {E : ε → ε → Prop} {Q : α → β → Prop}

theorem same (h : ∀ e, E e e) (x : Except ε α) : EndsAlike E Eq x x := by
  cases x with
  | ok a => exact .ok rfl
  | error e => exact .error (h e)

protected theorem bind {P : γ → κ → Prop} {x : Except ε α} {y : Except ε β} {f : α → Except ε γ} {g : β → Except ε κ}
    (hx : EndsAlike E Q x y) (hf : ∀ a b, Q a b → EndsAlike E P (f a) (g b)) :
    EndsAlike E P (x >>= f) (y >>= g) := by
  cases hx with
  | ok h => exact hf _ _ h
  | error h => exact .error h

protected theorem mapError {D : δ → δ → Prop} {x : Except ε α} {y : Except ε β} {f g : ε → δ} (hx : EndsAlike E Q x y)
    (hf : ∀ e e', E e e' → D (f e) (g e')) : EndsAlike D Q (x.mapError f) (y.mapError g) := by
  cases hx with
  | ok h => exact .ok h
  | error h => exact .error (hf _ _ h)

end EndsAlike

/-- From states in the relation `R`, the two attempts end alike, in states in this relation. -/
def Abreast (R : σ → σ → Prop) (E : ε → ε → Prop) (Q : α → β → Prop) (x : Attempt ε σ α) (y : Attempt ε σ β) : Prop :=
  ∀ s t, R s t → R (outcome x s).2 (outcome y t).2 ∧ EndsAlike E Q (outcome x s).1 (outcome y t).1

namespace Abreast

variable {R : σ → σ → Prop} {E : ε → ε → Prop} {Q : α → β → Prop}

protected theorem pure {a : α} {b : β} (h : Q a b) : Abreast R E Q (pure a) (pure b) :=
  fun _ _ hr => ⟨hr, .ok h⟩

protected theorem throw {e f : ε} (h : E e f) : Abreast R E Q (throw e) (throw f) :=
  fun _ _ hr => ⟨hr, .error h⟩

protected theorem modify {f g : σ → σ} (h : ∀ s t, R s t → R (f s) (g t)) :
    Abreast R E Eq (modify f : Attempt ε σ Unit) (modify g) :=
  fun s t hr => ⟨h s t hr, .ok rfl⟩

protected theorem bind {P : γ → κ → Prop} {x : Attempt ε σ α} {y : Attempt ε σ β} {f : α → Attempt ε σ γ}
    {g : β → Attempt ε σ κ} (hx : Abreast R E Q x y) (hf : ∀ a b, Q a b → Abreast R E P (f a) (g b)) :
    Abreast R E P (x >>= f) (y >>= g) := by
  intro s t hr
  obtain ⟨hstate, hends⟩ := hx s t hr
  rw [outcome_bind, outcome_bind]
  generalize outcome x s = reached at hstate hends ⊢
  generalize outcome y t = reached' at hstate hends ⊢
  obtain ⟨r, s'⟩ := reached
  obtain ⟨r', t'⟩ := reached'
  cases hends with
  | ok h => exact hf _ _ h s' t' hstate
  | error h => exact ⟨hstate, .error h⟩

/-- What comes next may look at the states. -/
protected theorem get {f : σ → Attempt ε σ α} {g : σ → Attempt ε σ β}
    (h : ∀ s t, R s t → Abreast R E Q (f s) (g t)) : Abreast R E Q (get >>= f) (get >>= g) := by
  intro s t hr
  rw [outcome_bind, outcome_bind, outcome_get, outcome_get]
  exact h s t hr s t hr

protected theorem check {c : Prop} [Decidable c] {e : ε} {f : PUnit → Attempt ε σ α} {g : PUnit → Attempt ε σ β}
    (he : E e e) (hf : Abreast R E Q (f ⟨⟩) (g ⟨⟩)) :
    Abreast R E Q (if c then MonadExcept.throw e >>= f else f ⟨⟩) (if c then MonadExcept.throw e >>= g else g ⟨⟩) := by
  split
  · exact fun _ _ hr => ⟨hr, .error he⟩
  · exact hf

/-- Folds over rows that correspond item by item. -/
protected theorem foldlM {V : γ → κ → Prop} {f : α → γ → Attempt ε σ α} {g : α → κ → Attempt ε σ α}
    {xs : List γ} {ys : List κ} (h : List.Forall₂ V xs ys) (hf : ∀ a x y, V x y → Abreast R E Eq (f a x) (g a y))
    (a : α) : Abreast R E Eq (xs.foldlM f a) (ys.foldlM g a) := by
  induction h generalizing a with
  | nil => exact .pure rfl
  | cons hxy _ ih =>
    rw [List.foldlM_cons, List.foldlM_cons]
    exact .bind (hf a _ _ hxy) fun b _ heq => heq ▸ ih b

end Abreast

end BusLogic.Attempt
