import BusLogic.Proofs.Script.Formula

/-! Scripts that keep nothing from one tick to the next.

Whether a script uses `CLOCK` or `LATCH` shows in the terms its lines are read into.
A line is read as a statement or, inside a selection, as a branch, so both readings
count (`Line.terms`). -/
namespace BusLogic.Script

/-- The operation a term names, if it names one. -/
def Term.opcode? : Term → Option Opcode
  | .operand (.source op _) | .operand (.reduction op _) | .operator op => some op
  | .operand (.ref _) | .operand (.list _) => none

def Value.terms : Value → List Term
  | .formula ts _ => ts
  | _ => []

def Statement.terms : Statement → List Term
  | .assign _ (.ok v) => v.terms
  | _ => []

def Line.terms (line : Line) : List Term := (statement line.text).terms ++ (value line.text).terms

/-- No line of the script uses `CLOCK` or `LATCH`. -/
def Combinational (source : String) : Prop :=
  ∀ line ∈ linesOf source.toList, ∀ t ∈ line.terms, t.opcode? ≠ some .clock ∧ t.opcode? ≠ some .setReset

instance (source : String) : Decidable (Combinational source) := by
  unfold Combinational
  infer_instance

/-! ### Terms that are read -/

theorem named_source {name : String} {s r : List Char} {op : Opcode} {extent : Option Extent}
    (h : named name s = (.operand (.source op extent), r)) : Opcode.ofSourceWord? name = some op := by
  unfold named at h
  split at h
  · rename_i hop
    cases h
    exact hop
  · split at h
    · split at h <;> cases h
    · cases h

/-- Constant signals have names of their own. -/
theorem terms_source {s : List Char} {op : Opcode} {extent : Option Extent}
    (h : Term.operand (.source op extent) ∈ (terms s).1) : ∃ name, Opcode.ofSourceWord? name = some op := by
  fun_induction terms s with
  | case1 => cases h
  | case2 s t r hterm ts rest hts ih =>
    rcases List.mem_cons.mp h with rfl | hmem
    · unfold term? at hterm
      split at hterm
      · cases hterm
      · split at hterm
        · cases hterm
        · rename_i name r' _
          exact ⟨name, named_source (Option.some.inj hterm)⟩
    · rw [hts] at ih
      exact ih hmem

theorem value_terms {s : List Char} {t : Term} (h : t ∈ (value s).terms) : t ∈ (terms s).1 := by
  unfold value at h
  dsimp only at h
  split at h
  · unfold loop at h
    split at h <;> cases h
  · split at h
    · unfold select at h
      split at h
      · cases h
      · split at h <;> cases h
    · exact h

theorem assigned_terms {target : Target} {s : List Char} {t : Term}
    (h : t ∈ (Statement.assign target (assigned s)).terms) : ∃ r, t ∈ (terms r).1 := by
  unfold assigned at h
  split at h
  · cases h
  · exact ⟨_, value_terms h⟩

theorem declared_terms {s : List Char} {st : Nat → Statement} (hst : ∀ n, (st n).terms = []) :
    (declared s st).terms = [] := by
  unfold declared
  split
  · rfl
  · split
    · rfl
    · exact hst _

theorem statement_terms {s : List Char} {t : Term} (h : t ∈ (statement s).terms) : ∃ r, t ∈ (terms r).1 := by
  unfold statement at h
  dsimp only at h
  split at h
  · split at h <;> cases h
  · split at h
    · unfold inputStatement at h
      split at h
      · cases h
      · split at h
        · rw [declared_terms fun _ => rfl] at h
          cases h
        · cases h
    · split at h
      · unfold outputStatement at h
        split at h
        · cases h
        · split at h
          · rw [declared_terms fun _ => rfl] at h
            cases h
          · exact assigned_terms h
      · unfold plain at h
        split at h
        · cases h
        · split at h
          · rw [declared_terms fun _ => rfl] at h
            cases h
          · split at h
            · exact assigned_terms h
            · exact assigned_terms h

/-- A line whose terms keep nothing from one tick to the next. -/
def Line.Stateless (line : Line) : Prop := ∀ t ∈ line.terms, t.Stateless

theorem Term.stateless {t : Term} {s : List Char} (h : t ∈ (terms s).1) (hclock : t.opcode? ≠ some .clock)
    (hlatch : t.opcode? ≠ some .setReset) : t.Stateless := by
  match t with
  | .operand (.ref r) => trivial
  | .operand (.list l) => trivial
  | .operand (.reduction op l) => exact fun hop => hlatch (congrArg some hop)
  | .operator op => exact fun hop => hlatch (congrArg some hop)
  | .operand (.source op extent) =>
    obtain ⟨name, hname⟩ := terms_source h
    unfold Opcode.ofSourceWord? at hname
    split at hname
    · exact .inl (Option.some.inj hname).symm
    · split at hname
      · exact .inr (Option.some.inj hname).symm
      · split at hname
        · exact absurd hname.symm hclock
        · cases hname

theorem Combinational.stateless {source : String} (h : Combinational source) :
    ∀ line ∈ linesOf source.toList, line.Stateless := by
  intro line hline t ht
  obtain ⟨hclock, hlatch⟩ := h line hline t ht
  rcases List.mem_append.mp ht with hst | hval
  · obtain ⟨r, hr⟩ := statement_terms hst
    exact Term.stateless hr hclock hlatch
  · exact Term.stateless (value_terms hval) hclock hlatch

end BusLogic.Script
