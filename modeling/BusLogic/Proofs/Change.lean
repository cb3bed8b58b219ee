import BusLogic.Proofs.Attempt

/-! Changes that attempts do not notice.

A change turns the state into another, say by giving an arena more room. An attempt does
not notice the change when it ends the same way after it, in the state it would have
reached but for the change (`Change.Unnoticed`). The change may remove the cause of some
errors; an attempt that fails with one of these is left aside. What no step notices, no
sequence of steps notices, and what goes unnoticed in a part of the state goes unnoticed
in the whole (`Change.Unnoticed.within`). -/
namespace BusLogic.Attempt

variable {ε δ σ τ α β : Type}

structure Change (ε σ : Type) where
  /-- The states the change is made to. -/
  fits : σ → Prop
  make : σ → σ
  /-- The errors whose cause the change may remove. -/
  lifts : ε → Prop

/-- The change `c` of a state comes down to the change `d` of a part of it. -/
structure Change.Part (c : Change ε σ) (d : Change δ τ) where
  part : σ → τ
  put : σ → τ → σ
  fits_part : ∀ s, c.fits s → d.fits (part s)
  fits_put : ∀ s t, d.fits t → c.fits (put s t)
  part_make : ∀ s, part (c.make s) = d.make (part s)
  put_make : ∀ s t, put (c.make s) (d.make t) = c.make (put s t)

/-- The whole state, as a part of itself. -/
def Change.whole (c : Change ε σ) : c.Part c where
  part := id
  put _ t := t
  fits_part _ hs := hs
  fits_put _ _ hs := hs
  part_make _ := rfl
  put_make _ _ := rfl

/-- Unless it fails with an error that the change lifts, the attempt does the same whether
the change is made before it or after it. -/
def Change.Unnoticed (c : Change ε σ) (x : Attempt ε σ α) : Prop :=
  ∀ s, c.fits s → (∃ e, (outcome x s).1 = .error e ∧ c.lifts e) ∨
    (c.fits (outcome x s).2 ∧ outcome x (c.make s) = ((outcome x s).1, c.make (outcome x s).2))

namespace Change.Unnoticed

variable {c : Change ε σ}

protected theorem pure (a : α) : c.Unnoticed (pure a : Attempt ε σ α) := fun _ hs => .inr ⟨hs, rfl⟩

protected theorem throw (e : ε) : c.Unnoticed (throw e : Attempt ε σ α) := fun _ hs => .inr ⟨hs, rfl⟩

protected theorem ofExcept (r : Except ε α) : c.Unnoticed (ofExcept r) := fun _ hs => .inr ⟨hs, rfl⟩

protected theorem modify {f : σ → σ} (hfits : ∀ s, c.fits s → c.fits (f s))
    (hmake : ∀ s, f (c.make s) = c.make (f s)) : c.Unnoticed (modify f : Attempt ε σ Unit) :=
  fun s hs => .inr ⟨hfits s hs, Prod.ext rfl (hmake s)⟩

protected theorem bind {x : Attempt ε σ α} {f : α → Attempt ε σ β} (hx : c.Unnoticed x)
    (hf : ∀ a, c.Unnoticed (f a)) : c.Unnoticed (x >>= f) := by
  intro s hs
  have hfirst := hx s hs
  rw [outcome_bind, outcome_bind]
  generalize outcome x s = reached at hfirst ⊢
  rcases reached with ⟨e | a, s'⟩
  · rcases hfirst with ⟨_, he, hlifted⟩ | ⟨hs', hsame⟩
    · cases he
      exact .inl ⟨e, rfl, hlifted⟩
    · rw [hsame]
      exact .inr ⟨hs', rfl⟩
  · rcases hfirst with ⟨e, he, _⟩ | ⟨hs', hsame⟩
    · cases he
    · rw [hsame]
      exact hf a s' hs'

protected theorem map (f : α → β) {x : Attempt ε σ α} (hx : c.Unnoticed x) : c.Unnoticed (f <$> x) :=
  .bind hx fun a => .pure (f a)

/-- What comes next may look at the state, but not at what the change is about. -/
protected theorem get {f : σ → Attempt ε σ α} (hf : ∀ s, c.Unnoticed (f s))
    (hsame : ∀ s, f (c.make s) = f s) : c.Unnoticed (get >>= f) := by
  intro s hs
  have hnext := hf s s hs
  rw [outcome_bind, outcome_bind, outcome_get, outcome_get]
  dsimp only
  rw [hsame]
  exact hnext

protected theorem ite {p : Prop} [Decidable p] {x y : Attempt ε σ α} (hx : c.Unnoticed x) (hy : c.Unnoticed y) :
    c.Unnoticed (if p then x else y) := by
  split
  · exact hx
  · exact hy

protected theorem check {p : Prop} [Decidable p] {e : ε} {f : PUnit → Attempt ε σ α} (hf : c.Unnoticed (f ⟨⟩)) :
    c.Unnoticed (if p then MonadExcept.throw e >>= f else f ⟨⟩) := by
  split
  · exact fun _ hs => .inr ⟨hs, rfl⟩
  · exact hf

protected theorem foldlM {f : β → α → Attempt ε σ β} (hf : ∀ b a, c.Unnoticed (f b a)) (b : β) (as : List α) :
    c.Unnoticed (as.foldlM f b) := by
  induction as generalizing b with
  | nil => exact .pure b
  | cons a rest ih =>
    rw [List.foldlM_cons]
    exact .bind (hf b a) ih

/-- An attempt that carries out another one on a part of its state, puts back what became
of the part, and reports how it ended. -/
protected theorem within {d : Change δ τ} {x : Attempt δ τ α} {y : Attempt ε σ β} (hx : d.Unnoticed x)
    (p : c.Part d) (report : Except δ α → τ → Except ε β)
    (hy : ∀ s, outcome y s =
      (report (outcome x (p.part s)).1 (outcome x (p.part s)).2, p.put s (outcome x (p.part s)).2))
    (hmake : ∀ r t, report r (d.make t) = report r t)
    (hlifts : ∀ e t, d.lifts e → ∃ f, report (.error e) t = .error f ∧ c.lifts f) : c.Unnoticed y := by
  intro s hs
  have hpart := hx (p.part s) (p.fits_part s hs)
  rw [hy, hy, p.part_make]
  rcases hpart with ⟨e, he, hlifted⟩ | ⟨hfits, hsame⟩
  · rw [he]
    exact .inl (hlifts e _ hlifted)
  · rw [hsame]
    exact .inr ⟨p.fits_put s _ hfits, Prod.ext (hmake _ _) (p.put_make s _)⟩

end Change.Unnoticed

end BusLogic.Attempt
