/-! Computations that may fail and still leave their mark.

Wiring a circuit is not transactional: when a bus operation fails half way, the
gates it has already added stay in the netlist. An `Attempt` therefore answers
with a result *and* the state it reached, on success and on failure alike. The
lemmas say what each way of building an attempt does to both. -/
namespace BusLogic

/-- A computation over the state `σ` that may fail with `ε`; the state reached is
kept either way. -/
abbrev Attempt (ε σ : Type) := ExceptT ε (StateM σ)

namespace Attempt

variable {ε σ α β : Type}

/-- The result and the state reached from `s`. -/
def outcome (x : Attempt ε σ α) (s : σ) : Except ε α × σ := x.run.run s

/-- An outcome that was settled without touching the state. -/
def ofExcept (r : Except ε α) : Attempt ε σ α := fun s => (r, s)

@[simp] theorem outcome_pure (a : α) (s : σ) : outcome (pure a : Attempt ε σ α) s = (.ok a, s) := rfl

@[simp] theorem outcome_throw (e : ε) (s : σ) :
    outcome (throw e : Attempt ε σ α) s = (.error e, s) := rfl

@[simp] theorem outcome_ofExcept (r : Except ε α) (s : σ) : outcome (ofExcept r) s = (r, s) := rfl

@[simp] theorem outcome_get (s : σ) : outcome (get : Attempt ε σ σ) s = (.ok s, s) := rfl

@[simp] theorem outcome_modify (f : σ → σ) (s : σ) :
    outcome (modify f : Attempt ε σ Unit) s = (.ok (), f s) := rfl

/-- The second computation runs from the state the first one reached, if the first
one succeeded. -/
theorem outcome_bind (x : Attempt ε σ α) (f : α → Attempt ε σ β) (s : σ) :
    outcome (x >>= f) s =
      match outcome x s with
      | (.ok a, s') => outcome (f a) s'
      | (.error e, s') => (.error e, s') := by
  show StateT.bind x.run (ExceptT.bindCont f) s = _
  unfold StateT.bind
  show (match outcome x s with | (r, s') => ExceptT.bindCont f r s') = _
  rcases outcome x s with ⟨_ | _, _⟩ <;> rfl

end Attempt

end BusLogic
