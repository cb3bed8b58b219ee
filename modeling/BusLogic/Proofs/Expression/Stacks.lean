import BusLogic.Proofs.Expression.Steps

/-! The stacks of an expression never run out.

A binary operator that waits has left the operand before it on the stack, a prefix
operator has left none. So there are as many operands as binary operators, and one more
once the operand that was waited for has arrived (`Balanced`). Reducing keeps that count,
which leaves a step of the compiler two ways to fail: the token does not suit its place,
or resolving an operator fails, and then over as many children as the operator takes
(`ResolveFails`). -/
namespace BusLogic.Expression
open Attempt

variable {ν σ : Type} [Node ν σ]

/-- How many of the nodes are binary operators. -/
def binaries (nodes : List ν) : Nat := nodes.countP fun node => Node.arity node = 2

/-- Every operator that waits takes one operand or two, and beside the left operands of
the binary ones there are `spare` operands. -/
structure Stacked (spare : Nat) (e : Expression ν) : Prop where
  arity : ∀ node ∈ e.operators, Node.arity node = 1 ∨ Node.arity node = 2
  count : e.operands.length = binaries e.operators + spare

/-- An operand more than binary operators wait, if the last token was an operand. -/
abbrev Balanced (e : Expression ν) : Prop := e.Stacked (if e.last = .operand then 1 else 0)

/-- `err` is how resolving an operator fails in a state of which `I` holds, over children
of which `P` holds. -/
def ResolveFails (I : σ → Prop) (P : ν → σ → Prop) (err : Error) : Prop :=
  ∃ (node : ν) (children : List ν) (s s' : σ), I s ∧ (∀ child ∈ children, P child s) ∧
    (Node.arity node = 1 ∨ Node.arity node = 2) ∧ children.length = Node.arity node ∧
    outcome (Node.resolve node children) s = (.error err, s')

section Counts
variable {e e' : Expression ν} {node : ν} {rest waiting : List ν} {p : ν → Bool} {s s' : σ} {err : Error}

theorem binaries_cons : binaries (node :: rest) = binaries rest + if Node.arity node = 2 then 1 else 0 := by
  simp [binaries, List.countP_cons]

/-- The operator on top finds its operands. -/
theorem Stacked.arity_le (h : e.Stacked 1) (htop : e.operators = node :: rest) :
    Node.arity node ≤ e.operands.length := by
  have hcount := h.count
  rw [htop, binaries_cons] at hcount
  rcases h.arity node (by rw [htop]; exact List.mem_cons_self) with hn | hn
  · rw [hn]
    omega
  · rw [if_pos hn] at hcount
    omega

theorem Stacked.arity_ne_zero (h : e.Stacked 1) (htop : e.operators = node :: rest) : Node.arity node ≠ 0 := by
  have harity := h.arity node (by rw [htop]; exact List.mem_cons_self)
  omega

/-- Its result takes their place. -/
theorem Stacked.replace (h : e.Stacked 1) (htop : e.operators = node :: rest) (r : ν) :
    Stacked 1 { e with operators := rest, operands := r :: e.operands.drop (Node.arity node) } := by
  have hle := h.arity_le htop
  have hcount := h.count
  rw [htop, binaries_cons] at hcount
  refine ⟨fun other hmem => h.arity other (by rw [htop]; exact List.mem_cons_of_mem _ hmem), ?_⟩
  show (r :: e.operands.drop (Node.arity node)).length = binaries rest + 1
  rw [List.length_cons, List.length_drop]
  rcases h.arity node (by rw [htop]; exact List.mem_cons_self) with hn | hn
  · rw [if_neg (by omega)] at hcount
    omega
  · rw [if_pos hn] at hcount
    omega

/-- The operands of an operator that could not be resolved are gone with it. -/
theorem Stacked.drop (h : e.Stacked 1) (htop : e.operators = node :: rest) :
    Stacked 0 { e with operators := rest, operands := e.operands.drop (Node.arity node) } := by
  have hreplaced := h.replace htop node
  have hcount : (node :: e.operands.drop (Node.arity node)).length = binaries rest + 1 := hreplaced.count
  exact ⟨hreplaced.arity, Nat.succ.inj hcount⟩

/-- With nothing left to reduce there is one operand. -/
theorem Stacked.single (h : e.Stacked 1) (hnone : ∀ top ∈ e.operators.head?, False) :
    ∃ node, e.operands = [node] := by
  have hops : e.operators = [] := by
    cases hwait : e.operators with
    | nil => rfl
    | cons top rest => exact (hnone top (by rw [hwait]; rfl)).elim
  have hcount := h.count
  rw [hops] at hcount
  exact List.length_eq_one_iff.mp hcount

/-- The operator on top leaves the stack with its operands, and its result takes their place
if it can be resolved. -/
theorem outcome_reduceWhile_top (hp : p node) (hpos : Node.arity node ≠ 0)
    (hle : Node.arity node ≤ e.operands.length) :
    outcome (reduceWhile p (node :: rest) : Step ν σ Unit) (e, s) =
      match outcome (Node.resolve node (e.operands.take (Node.arity node)).reverse) s with
      | (.ok r, s') =>
        outcome (reduceWhile p rest)
          ({ e with operators := rest, operands := r :: e.operands.drop (Node.arity node) }, s')
      | (.error err, s') =>
        (.error err, ({ e with operators := rest, operands := e.operands.drop (Node.arity node) }, s')) := by
  rw [outcome_reduceWhile_cons, if_pos hp, outcome_reduce, if_neg (by dsimp only; omega)]
  dsimp only
  rcases outcome (Node.resolve node (e.operands.take (Node.arity node)).reverse) s with ⟨_ | _, _⟩ <;> rfl

theorem stacked_reduceWhile (he : e.Stacked 1) (hwait : e.operators = waiting)
    (h : outcome (reduceWhile p waiting : Step ν σ Unit) (e, s) = (.ok (), (e', s'))) :
    e'.Stacked 1 ∧ e'.last = e.last ∧ ∀ top ∈ e'.operators.head?, p top = false := by
  induction waiting generalizing e s with
  | nil =>
    cases h
    exact ⟨he, rfl, fun top htop => by rw [hwait] at htop; cases htop⟩
  | cons top rest ih =>
    by_cases hp : p top
    · rw [outcome_reduceWhile_top hp (he.arity_ne_zero hwait) (he.arity_le hwait)] at h
      split at h
      · rename_i r s₁ _
        exact ih (e := { e with operators := rest, operands := _ }) (he.replace hwait r) rfl h
      · cases h
    · rw [outcome_reduceWhile_cons, if_neg hp] at h
      cases h
      refine ⟨he, rfl, fun other hother => ?_⟩
      rw [hwait, List.head?_cons, Option.mem_some_iff] at hother
      rw [← hother]
      exact eq_false_of_ne_true hp

/-- Of a reduction that fails the operators that wait are left with their operands. -/
theorem stacked_reduceWhile_error (he : e.Stacked 1) (hwait : e.operators = waiting)
    (h : outcome (reduceWhile p waiting : Step ν σ Unit) (e, s) = (.error err, (e', s'))) :
    e'.Stacked 0 ∧ e'.last = e.last := by
  induction waiting generalizing e s with
  | nil => cases h
  | cons top rest ih =>
    by_cases hp : p top
    · rw [outcome_reduceWhile_top hp (he.arity_ne_zero hwait) (he.arity_le hwait)] at h
      split at h
      · rename_i r s₁ _
        exact ih (e := { e with operators := rest, operands := _ }) (he.replace hwait r) rfl h
      · cases h
        exact ⟨he.drop hwait, rfl⟩
    · rw [outcome_reduceWhile_cons, if_neg hp] at h
      cases h

end Counts

/-! ### Steps that succeed -/

section Ok
variable {e e' : Expression ν} {node : ν} {s s' : σ}

theorem balanced_empty : (empty : Expression ν).Balanced := ⟨nofun, rfl⟩

theorem Category.accepts_operand {last : Category} (h : last.accepts .operand = true) : last ≠ .operand := by
  cases last <;> simp_all [Category.accepts]

theorem Category.accepts_unary {last : Category} (h : last.accepts .unary = true) : last ≠ .operand := by
  cases last <;> simp_all [Category.accepts]

theorem Category.accepts_binary {last : Category} (h : last.accepts .binary = true) : last = .operand := by
  cases last <;> simp_all [Category.accepts]

theorem Balanced.push (he : e.Balanced) (ha : e.last.accepts .operand = true) (node : ν) :
    Balanced ⟨node :: e.operands, e.operators, .operand⟩ := by
  have hcount := he.count
  rw [if_neg (Category.accepts_operand ha)] at hcount
  exact ⟨he.arity, congrArg (· + 1) hcount⟩

theorem balanced_addOperator (he : e.Balanced)
    (h : outcome (addOperator node : Step ν σ Unit) (e, s) = (.ok (), (e', s'))) : e'.Balanced := by
  rcases addOperator_ok h with ⟨hn, ha, rfl, _⟩ | ⟨hn, ha, e₁, hr, rfl⟩
  · have hcount := he.count
    rw [if_neg (Category.accepts_unary ha)] at hcount
    refine ⟨List.forall_mem_cons.mpr ⟨.inl hn, he.arity⟩, ?_⟩
    simp [binaries_cons, hn, hcount]
  · have hone : Stacked 1 { e with last := .binary } := by
      have he₁ := he
      rw [Balanced, if_pos (Category.accepts_binary ha)] at he₁
      exact ⟨he₁.arity, he₁.count⟩
    obtain ⟨he₁, hlast, _⟩ := stacked_reduceWhile hone rfl hr
    refine ⟨List.forall_mem_cons.mpr ⟨.inr hn, he₁.arity⟩, ?_⟩
    simp [binaries_cons, hn, hlast, he₁.count]

end Ok

/-! ### Steps that fail -/

section Fails
variable {I : σ → Prop} {P : ν → σ → Prop} {e : Expression ν} {s : σ} {err : Error} {t : Expression ν × σ}

omit [Node ν σ] in
theorem addOperand_fails {node : ν} (h : outcome (addOperand node : Step ν σ Unit) (e, s) = (.error err, t)) :
    err = .unexpectedToken e.last .operand := by
  rw [outcome_addOperand] at h
  split at h
  · cases h
  · cases h
    rfl

variable (hres : ∀ (node : ν) (children : List ν) (s : σ) (r : ν) (s' : σ), I s →
  outcome (Node.resolve node children) s = (.ok r, s') → I s' ∧ P r s' ∧ ∀ other, P other s → P other s')
include hres

/-- Reducing fails only where resolving does. -/
theorem reduceWhile_fails {p : ν → Bool} {waiting : List ν} (hops : e.Operands I P s) (he : e.Stacked 1)
    (hwait : e.operators = waiting)
    (h : outcome (reduceWhile p waiting : Step ν σ Unit) (e, s) = (.error err, t)) : ResolveFails I P err := by
  induction waiting generalizing e s with
  | nil => cases h
  | cons top rest ih =>
    have harity := he.arity top (by rw [hwait]; exact List.mem_cons_self)
    have hle := he.arity_le hwait
    rw [outcome_reduceWhile_cons] at h
    split at h
    · split at h
      · rename_i t₁ hr
        have hops₁ := operands_reduce hres (e := { e with operators := rest }) hops hr
        obtain ⟨_, _, r, _, he₁⟩ := reduce_ok hr
        exact ih (e := t₁.1) hops₁ (by rw [he₁]; exact he.replace hwait r) (by rw [he₁]) h
      · rename_i err' t₁ hr
        cases h
        rw [outcome_reduce, if_neg (by dsimp only; omega)] at hr
        split at hr
        · cases hr
        · rename_i err₁ s₁ hfail
          cases hr
          refine ⟨top, _, s, s₁, hops.1, fun child hmem => ?_, harity, ?_, hfail⟩
          · exact hops.2 child (List.mem_of_mem_take (List.mem_reverse.mp hmem))
          · rw [List.length_reverse, List.length_take]
            exact Nat.min_eq_left hle
    · cases h

theorem addOperator_fails {node : ν} (hn : Node.arity node = 1 ∨ Node.arity node = 2)
    (hops : e.Operands I P s) (he : e.Balanced)
    (h : outcome (addOperator node : Step ν σ Unit) (e, s) = (.error err, t)) :
    (∃ next, err = .unexpectedToken e.last next) ∨ ResolveFails I P err := by
  rcases hn with hn | hn
  · rw [outcome_addOperator_unary hn] at h
    split at h
    · cases h
    · cases h
      exact .inl ⟨_, rfl⟩
  · rw [outcome_addOperator_binary hn] at h
    split at h
    · rename_i ha
      split at h
      · cases h
      · rename_i err' t' hr
        cases h
        rw [Balanced, if_pos (Category.accepts_binary ha)] at he
        have hone : Stacked 1 { e with last := .binary } := ⟨he.arity, he.count⟩
        exact .inr (reduceWhile_fails hres (e := { e with last := .binary }) hops hone rfl hr)
    · cases h
      exact .inl ⟨_, rfl⟩

theorem compile_fails (hops : e.Operands I P s) (he : e.Balanced)
    (h : outcome (compile : Step ν σ ν) (e, s) = (.error err, t)) :
    err = .malformed .empty ∨ (∃ next, err = .unexpectedToken e.last next) ∨ ResolveFails I P err := by
  by_cases hlast : e.last = .operand
  · rw [outcome_compile hlast] at h
    rw [Balanced, if_pos hlast] at he
    have hone : Stacked 1 { e with last := .finish } := ⟨he.arity, he.count⟩
    split at h
    · rename_i e' s' hr
      obtain ⟨he', _, hnone⟩ := stacked_reduceWhile hone rfl hr
      obtain ⟨node, hnode⟩ := he'.single fun top htop => absurd (hnone top htop) (by simp)
      rw [hnode] at h
      cases h
    · rename_i err' t' hr
      cases h
      exact .inr (.inr (reduceWhile_fails hres (e := { e with last := .finish }) hops hone rfl hr))
  · rw [compile, outcome_bind, outcome_get] at h
    dsimp only at h
    by_cases hstart : e.last = .start
    · rw [if_pos hstart] at h
      cases h
      exact .inl rfl
    · rw [if_neg hstart, outcome_bind, outcome_accept, if_neg (by cases hl : e.last <;> simp_all [Category.accepts])] at h
      cases h
      exact .inr (.inl ⟨_, rfl⟩)

end Fails

end BusLogic.Expression
