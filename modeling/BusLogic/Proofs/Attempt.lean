import BusLogic.Attempt
import Mathlib.Logic.Relation
import Mathlib.Tactic.Common

/-! How attempts are taken apart.

A successful attempt is a chain of successful steps (`outcome_bind_ok`), which is
how its result is traced. What every step of an attempt respects, the attempt
respects, however it ends (`Keeps`); `R` is a preorder on states throughout. An
attempt fails where one of its steps does (`FailsOnly`), and then leaves what the steps
before left (`FailsKeeping`). -/
namespace BusLogic.Attempt

variable {ε σ α β : Type}

@[simp] theorem outcome_map (f : α → β) (x : Attempt ε σ α) (s : σ) :
    outcome (f <$> x) s = ((outcome x s).1.map f, (outcome x s).2) := by
  show outcome (x >>= pure ∘ f) s = _
  rw [outcome_bind]
  rcases outcome x s with ⟨_ | _, _⟩ <;> rfl

/-- How an attempt ends says nothing of the state, which need not be worked out. -/
theorem outcome_of_result {x : Attempt ε σ α} {s : σ} {r : Except ε α} (h : (outcome x s).1 = r) :
    outcome x s = (r, (outcome x s).2) := Prod.ext h rfl

/-- A sequence succeeds step by step. -/
theorem outcome_bind_ok {x : Attempt ε σ α} {f : α → Attempt ε σ β} {s s'' : σ} {b : β}
    (h : outcome (x >>= f) s = (.ok b, s'')) :
    ∃ a s', outcome x s = (.ok a, s') ∧ outcome (f a) s' = (.ok b, s'') := by
  rw [outcome_bind] at h
  split at h
  · rename_i a s' hx
    exact ⟨a, s', hx, h⟩
  · cases h

theorem outcome_ofExcept_ok {r : Except ε α} {s s' : σ} {a : α}
    (h : outcome (ofExcept r) s = (.ok a, s')) : r = .ok a ∧ s = s' := by
  cases h
  exact ⟨rfl, rfl⟩

theorem outcome_get_ok {s s' a : σ} (h : outcome (get : Attempt ε σ σ) s = (.ok a, s')) :
    s = a ∧ s = s' := by
  cases h
  exact ⟨rfl, rfl⟩

/-- What stands behind a check is reached only if the check passes. -/
theorem outcome_check_ok {c : Prop} [Decidable c] {e : ε} {f : PUnit → Attempt ε σ α} {s s' : σ} {a : α}
    (h : outcome (if c then throw e >>= f else f ⟨⟩) s = (.ok a, s')) :
    ¬ c ∧ outcome (f ⟨⟩) s = (.ok a, s') := by
  split at h
  · rw [outcome_bind, outcome_throw] at h
    cases h
  · rename_i hc
    exact ⟨hc, h⟩

/-! ### Outcomes without a state -/

theorem except_bind_ok {x : Except ε α} {f : α → Except ε β} {b : β} (h : x >>= f = .ok b) :
    ∃ a, x = .ok a ∧ f a = .ok b := by
  cases x with
  | error e => cases h
  | ok a => exact ⟨a, rfl, h⟩

theorem except_mapError_ok {ε' : Type} {f : ε → ε'} {x : Except ε α} {a : α} (h : x.mapError f = .ok a) :
    x = .ok a := by
  cases x with
  | error e => cases h
  | ok a' =>
    cases h
    rfl

theorem except_bind_error {x : Except ε α} {f : α → Except ε β} {e : ε} (h : x >>= f = .error e) :
    x = .error e ∨ ∃ a, x = .ok a ∧ f a = .error e := by
  cases x with
  | error e' =>
    cases h
    exact .inl rfl
  | ok a => exact .inr ⟨a, rfl, h⟩

theorem except_mapError_error {ε' : Type} {f : ε → ε'} {x : Except ε α} {e' : ε'}
    (h : x.mapError f = .error e') : ∃ e, x = .error e ∧ f e = e' := by
  cases x with
  | error e =>
    cases h
    exact ⟨e, rfl, rfl⟩
  | ok a => cases h

/-! ### What every step respects -/

instance {τ : Type} {R : τ → τ → Prop} [IsPreorder τ R] (view : σ → τ) :
    IsPreorder σ (InvImage R view) where
  refl s := refl (view s)
  trans _ _ _ := IsTrans.trans (r := R) _ _ _

/-- The state reached stands in the relation `R` to the state before, on success
and on failure. -/
def Keeps (R : σ → σ → Prop) (x : Attempt ε σ α) : Prop := ∀ s, R s (outcome x s).2

namespace Keeps

variable {R : σ → σ → Prop}

theorem reached {x : Attempt ε σ α} {r : Except ε α} {s s' : σ} (hx : Keeps R x) (h : outcome x s = (r, s')) :
    R s s' := by
  have hs := hx s
  rwa [h] at hs

theorem mono {S : σ → σ → Prop} {x : Attempt ε σ α} (h : Keeps R x) (hs : ∀ s t, R s t → S s t) :
    Keeps S x := fun s => hs _ _ (h s)

protected theorem modify {f : σ → σ} (h : ∀ s, R s (f s)) :
    Keeps R (modify f : Attempt ε σ Unit) := h

protected theorem map (f : α → β) {x : Attempt ε σ α} (hx : Keeps R x) : Keeps R (f <$> x) := by
  intro s
  rw [outcome_map]
  exact hx s

protected theorem ite {c : Prop} [Decidable c] {x y : Attempt ε σ α} (hx : Keeps R x)
    (hy : Keeps R y) : Keeps R (if c then x else y) := by
  split
  · exact hx
  · exact hy

variable [IsPreorder σ R]

protected theorem pure (a : α) : Keeps R (pure a : Attempt ε σ α) := fun s => refl s

protected theorem throw (e : ε) : Keeps R (throw e : Attempt ε σ α) := fun s => refl s

protected theorem ofExcept (r : Except ε α) : Keeps R (ofExcept r) := fun s => refl s

protected theorem get : Keeps R (get : Attempt ε σ σ) := fun s => refl s

protected theorem bind {x : Attempt ε σ α} {f : α → Attempt ε σ β} (hx : Keeps R x) (hf : ∀ a, Keeps R (f a)) :
    Keeps R (x >>= f) := by
  intro s
  have h := hx s
  rw [outcome_bind]
  split
  · rename_i a s' heq
    rw [heq] at h
    exact IsTrans.trans _ _ _ h (hf a s')
  · rename_i e s' heq
    rw [heq] at h
    exact h

protected theorem foldlM {f : β → α → Attempt ε σ β} (hf : ∀ b a, Keeps R (f b a)) (b : β) (as : List α) :
    Keeps R (as.foldlM f b) := by
  induction as generalizing b with
  | nil => exact .pure b
  | cons a rest ih =>
    rw [List.foldlM_cons]
    exact .bind (hf b a) ih

/-- A check in front of what comes next. -/
protected theorem check {c : Prop} [Decidable c] {e : ε} {f : PUnit → Attempt ε σ α}
    (hf : Keeps R (f ⟨⟩)) : Keeps R (if c then MonadExcept.throw e >>= f else f ⟨⟩) := by
  split
  · exact fun s => refl s
  · exact hf

end Keeps

/-! ### How attempts fail -/

/-- If the attempt fails from `s`, then in a way of which `E` holds. -/
def FailsOnly (E : ε → Prop) (x : Attempt ε σ α) (s : σ) : Prop := ∀ e s', outcome x s = (.error e, s') → E e

namespace FailsOnly

variable {E : ε → Prop} {s : σ}

theorem mono {E' : ε → Prop} {x : Attempt ε σ α} (hx : FailsOnly E x s) (h : ∀ e, E e → E' e) :
    FailsOnly E' x s := fun e s' ho => h e (hx e s' ho)

protected theorem pure (a : α) : FailsOnly E (pure a : Attempt ε σ α) s := nofun

protected theorem get : FailsOnly E (get : Attempt ε σ σ) s := nofun

protected theorem modify (f : σ → σ) : FailsOnly E (modify f : Attempt ε σ Unit) s := nofun

protected theorem throw {e : ε} (h : E e) : FailsOnly E (throw e : Attempt ε σ α) s := by
  intro e' s' ho
  cases ho
  exact h

protected theorem ofExcept {r : Except ε α} (h : ∀ e, r = .error e → E e) :
    FailsOnly E (ofExcept r : Attempt ε σ α) s := by
  intro e s' ho
  cases ho
  exact h e rfl

protected theorem map (f : α → β) {x : Attempt ε σ α} (hx : FailsOnly E x s) : FailsOnly E (f <$> x) s := by
  intro e s' ho
  rw [outcome_map] at ho
  obtain ⟨hr, hs⟩ := Prod.mk.inj ho
  cases hx' : (outcome x s).1 with
  | ok a =>
    rw [hx'] at hr
    cases hr
  | error e' =>
    rw [hx'] at hr
    cases hr
    exact hx e s' (Prod.ext hx' hs)

/-- A sequence fails in its first step, or in what comes after that step. -/
protected theorem bind {x : Attempt ε σ α} {f : α → Attempt ε σ β} (hx : FailsOnly E x s)
    (hf : ∀ a s', outcome x s = (.ok a, s') → FailsOnly E (f a) s') : FailsOnly E (x >>= f) s := by
  intro e s'' ho
  rw [outcome_bind] at ho
  split at ho
  · rename_i a s' hok
    exact hf a s' hok e s'' ho
  · rename_i e' s' herr
    cases ho
    exact hx e s'' herr

protected theorem check {c : Prop} [Decidable c] {e : ε} {f : PUnit → Attempt ε σ α} (he : c → E e)
    (hf : ¬ c → FailsOnly E (f ⟨⟩) s) : FailsOnly E (if c then MonadExcept.throw e >>= f else f ⟨⟩) s := by
  split
  · rename_i hc
    exact .bind (.throw (he hc)) fun _ _ ho => by cases ho
  · rename_i hc
    exact hf hc

end FailsOnly

/-- If the attempt fails from `s`, then in a state that stands in the relation `R` to `s`. -/
def FailsKeeping (R : σ → σ → Prop) (x : Attempt ε σ α) (s : σ) : Prop := ∀ e t, outcome x s = (.error e, t) → R s t

theorem Keeps.failsKeeping {R : σ → σ → Prop} {x : Attempt ε σ α} (h : Keeps R x) (s : σ) : FailsKeeping R x s :=
  fun _ _ ho => h.reached ho

namespace FailsKeeping

variable {R : σ → σ → Prop} {s : σ}

protected theorem modify (f : σ → σ) : FailsKeeping R (modify f : Attempt ε σ Unit) s := nofun

/-- What cannot fail may do anything. -/
theorem modify_after {x : Attempt ε σ α} (hx : FailsKeeping R x s) (f : α → σ → σ) :
    FailsKeeping R (x >>= fun a => modify (f a)) s := by
  intro e t ho
  rw [outcome_bind] at ho
  split at ho
  · cases ho
  · rename_i e' s' herr
    cases ho
    exact hx e t herr

/-- Only the last step may do more than `R` allows. -/
protected theorem bind [IsPreorder σ R] {x : Attempt ε σ α} {f : α → Attempt ε σ β} (hx : Keeps R x)
    (hf : ∀ a s', outcome x s = (.ok a, s') → FailsKeeping R (f a) s') : FailsKeeping R (x >>= f) s := by
  intro e t ho
  rw [outcome_bind] at ho
  split at ho
  · rename_i a s' hok
    exact IsTrans.trans _ _ _ (hx.reached hok) (hf a s' hok e t ho)
  · rename_i e' s' herr
    cases ho
    exact hx.reached herr

protected theorem check [IsPreorder σ R] {c : Prop} [Decidable c] {e : ε} {f : PUnit → Attempt ε σ α}
    (hf : FailsKeeping R (f ⟨⟩) s) : FailsKeeping R (if c then MonadExcept.throw e >>= f else f ⟨⟩) s := by
  split
  · exact Keeps.failsKeeping (fun s => refl s) s
  · exact hf

end FailsKeeping

end BusLogic.Attempt
