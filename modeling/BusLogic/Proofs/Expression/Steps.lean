import BusLogic.Expression.Basic
import BusLogic.Proofs.Change

/-! The steps of the expression compiler, for any kind of node.

An equation for each step says what it answers and what it leaves, so that nothing
later has to open the compiler; the `_ok` lemmas read the equations backwards. What
resolving makes of every node it yields holds of every operand (`Operands`); whatever
it respects in the nodes' own state, every step respects (`Keeps`), and a change of that
state that it does not notice, no step notices (`Unnoticed`). -/
namespace BusLogic.Expression
open Attempt

variable {ν σ α : Type}

theorem outcome_onNodes (x : Attempt Error σ α) (e : Expression ν) (s : σ) :
    outcome (onNodes x : Step ν σ α) (e, s) = ((outcome x s).1, (e, (outcome x s).2)) := rfl

theorem outcome_accept (next : Category) (e : Expression ν) (s : σ) :
    outcome (accept next : Step ν σ Unit) (e, s) =
      if e.last.accepts next then (.ok (), ({ e with last := next }, s))
      else (.error (.unexpectedToken e.last next), (e, s)) := rfl

theorem outcome_addOperand (node : ν) (e : Expression ν) (s : σ) :
    outcome (addOperand node : Step ν σ Unit) (e, s) =
      if e.last.accepts .operand then
        (.ok (), ({ e with operands := node :: e.operands, last := .operand }, s))
      else (.error (.unexpectedToken e.last .operand), (e, s)) := by
  rw [addOperand, outcome_bind, outcome_accept]
  by_cases h : e.last.accepts .operand
  · rw [if_pos h, if_pos h]
    rfl
  · rw [if_neg h, if_neg h]

variable [Node ν σ]

/-- Reducing takes the operator's children off the stack and puts its result there. -/
theorem outcome_reduce (node : ν) (e : Expression ν) (s : σ) :
    outcome (reduce node : Step ν σ Unit) (e, s) =
      if Node.arity node = 0 ∨ e.operands.length < Node.arity node then
        (.error (.malformed (.missingOperands (Node.arity node) e.operands.length)), (e, s))
      else
        match outcome (Node.resolve node (e.operands.take (Node.arity node)).reverse) s with
        | (.ok r, s') => (.ok (), ({ e with operands := r :: e.operands.drop (Node.arity node) }, s'))
        | (.error err, s') => (.error err, ({ e with operands := e.operands.drop (Node.arity node) }, s')) := by
  rw [reduce, outcome_bind, outcome_get]
  dsimp only
  by_cases h : Node.arity node = 0 ∨ e.operands.length < Node.arity node
  · rw [if_pos h, if_pos h]
    rfl
  · rw [if_neg h, if_neg h, outcome_bind, outcome_modify]
    dsimp only
    rw [outcome_bind, outcome_onNodes]
    rcases outcome (Node.resolve node (e.operands.take (Node.arity node)).reverse) s with ⟨_ | _, _⟩ <;> rfl

theorem outcome_reduceWhile_nil (p : ν → Bool) (e : Expression ν) (s : σ) :
    outcome (reduceWhile p [] : Step ν σ Unit) (e, s) = (.ok (), (e, s)) := rfl

theorem outcome_reduceWhile_cons (p : ν → Bool) (top : ν) (rest : List ν) (e : Expression ν) (s : σ) :
    outcome (reduceWhile p (top :: rest) : Step ν σ Unit) (e, s) =
      if p top then
        match outcome (reduce top : Step ν σ Unit) ({ e with operators := rest }, s) with
        | (.ok (), t) => outcome (reduceWhile p rest) t
        | (.error err, t) => (.error err, t)
      else (.ok (), (e, s)) := by
  rw [reduceWhile]
  by_cases h : p top
  · rw [if_pos h, if_pos h, outcome_bind, outcome_modify]
    dsimp only
    rw [outcome_bind]
    rcases outcome (reduce top : Step ν σ Unit) ({ e with operators := rest }, s) with ⟨_ | _, _⟩ <;> rfl
  · rw [if_neg h, if_neg h]
    rfl

/-- Nothing is reduced under an operator that `p` stops at. -/
theorem outcome_reduceWhile_stop {p : ν → Bool} {waiting : List ν} (h : ∀ top ∈ waiting.head?, p top = false)
    (e : Expression ν) (s : σ) : outcome (reduceWhile p waiting : Step ν σ Unit) (e, s) = (.ok (), (e, s)) := by
  cases waiting with
  | nil => rfl
  | cons top rest => rw [outcome_reduceWhile_cons, if_neg (by simp [h top rfl])]

theorem outcome_addOperator_unary {node : ν} (h : Node.arity node = 1) (e : Expression ν) (s : σ) :
    outcome (addOperator node : Step ν σ Unit) (e, s) =
      if e.last.accepts .unary then
        (.ok (), ({ e with operators := node :: e.operators, last := .unary }, s))
      else (.error (.unexpectedToken e.last .unary), (e, s)) := by
  rw [addOperator]
  simp only [h]
  rw [outcome_bind, outcome_accept]
  by_cases ha : e.last.accepts .unary
  · rw [if_pos ha, if_pos ha]
    rfl
  · rw [if_neg ha, if_neg ha]

/-- A binary operator first reduces what binds no weaker. -/
theorem outcome_addOperator_binary {node : ν} (h : Node.arity node = 2) (e : Expression ν) (s : σ) :
    outcome (addOperator node : Step ν σ Unit) (e, s) =
      if e.last.accepts .binary then
        match outcome (reduceWhile (fun top => Node.priority top ≤ Node.priority node) e.operators)
            ({ e with last := .binary }, s) with
        | (.ok (), (e', s')) => (.ok (), ({ e' with operators := node :: e'.operators }, s'))
        | (.error err, t) => (.error err, t)
      else (.error (.unexpectedToken e.last .binary), (e, s)) := by
  rw [addOperator]
  simp only [h]
  rw [outcome_bind, outcome_accept]
  by_cases ha : e.last.accepts .binary
  · rw [if_pos ha, if_pos ha]
    dsimp only
    rw [outcome_bind, outcome_get]
    dsimp only
    rw [outcome_bind]
    generalize outcome (reduceWhile (fun top => Node.priority top ≤ Node.priority node) e.operators :
      Step ν σ Unit) ({ e with last := .binary }, s) = r
    rcases r with ⟨_ | _, _, _⟩ <;> rfl
  · rw [if_neg ha, if_neg ha]

/-- After an operand, ending the expression reduces all that waits. -/
theorem outcome_compile {e : Expression ν} (h : e.last = .operand) (s : σ) :
    outcome (compile : Step ν σ ν) (e, s) =
      match outcome (reduceWhile (fun _ => true) e.operators) ({ e with last := .finish }, s) with
      | (.ok (), (e', s')) =>
        match e'.operands with
        | [node] => (.ok node, (e', s'))
        | operands => (.error (.malformed (.leftover operands.length)), (e', s'))
      | (.error err, t) => (.error err, t) := by
  rw [compile, outcome_bind, outcome_get]
  simp only [h]
  rw [if_neg (by decide), outcome_bind, outcome_accept, h, if_pos (by decide)]
  dsimp only
  rw [outcome_bind, outcome_get]
  dsimp only
  rw [outcome_bind]
  generalize outcome (reduceWhile (fun _ => true) e.operators : Step ν σ Unit)
    ({ e with last := .finish }, s) = r
  rcases r with ⟨err | u, e', s'⟩
  · rfl
  · dsimp only
    rw [outcome_bind, outcome_get]
    dsimp only
    rcases e'.operands with _ | ⟨node, _ | _⟩ <;> rfl

/-! ### Steps that succeed -/

section Ok
variable {node : ν} {e e' : Expression ν} {s s' : σ}

omit [Node ν σ] in
theorem addOperand_ok (h : outcome (addOperand node : Step ν σ Unit) (e, s) = (.ok (), (e', s'))) :
    e.last.accepts .operand ∧ e' = { e with operands := node :: e.operands, last := .operand } ∧ s = s' := by
  rw [outcome_addOperand] at h
  split at h
  · rename_i ha
    cases h
    exact ⟨ha, rfl, rfl⟩
  · cases h

theorem reduce_ok (h : outcome (reduce node : Step ν σ Unit) (e, s) = (.ok (), (e', s'))) :
    Node.arity node ≠ 0 ∧ Node.arity node ≤ e.operands.length ∧ ∃ r,
      outcome (Node.resolve node (e.operands.take (Node.arity node)).reverse) s = (.ok r, s') ∧
      e' = { e with operands := r :: e.operands.drop (Node.arity node) } := by
  rw [outcome_reduce] at h
  split at h
  · cases h
  · rename_i hn
    split at h
    · rename_i r s'' hr
      cases h
      exact ⟨fun h0 => hn (.inl h0), Nat.le_of_not_lt fun hlt => hn (.inr hlt), r, hr, rfl⟩
    · cases h

theorem reduceWhile_cons_ok {p : ν → Bool} {rest : List ν}
    (h : outcome (reduceWhile p (node :: rest) : Step ν σ Unit) (e, s) = (.ok (), (e', s')))
    (hp : p node) :
    ∃ e₁ s₁, outcome (reduce node : Step ν σ Unit) ({ e with operators := rest }, s) = (.ok (), (e₁, s₁)) ∧
      outcome (reduceWhile p rest) (e₁, s₁) = (.ok (), (e', s')) := by
  rw [outcome_reduceWhile_cons, if_pos hp] at h
  split at h
  · rename_i t hr
    exact ⟨t.1, t.2, hr, h⟩
  · cases h

theorem addOperator_ok (h : outcome (addOperator node : Step ν σ Unit) (e, s) = (.ok (), (e', s'))) :
    (Node.arity node = 1 ∧ e.last.accepts .unary ∧
      e' = { e with operators := node :: e.operators, last := .unary } ∧ s = s') ∨
    (Node.arity node = 2 ∧ e.last.accepts .binary ∧ ∃ e₁,
      outcome (reduceWhile (fun top => Node.priority top ≤ Node.priority node) e.operators)
        ({ e with last := .binary }, s) = (.ok (), (e₁, s')) ∧
      e' = { e₁ with operators := node :: e₁.operators }) := by
  have hcases : Node.arity node = 1 ∨ Node.arity node = 2 := by
    unfold addOperator at h
    split at h
    · rename_i hn
      exact .inl hn
    · rename_i hn
      exact .inr hn
    · cases h
  rcases hcases with hn | hn
  · rw [outcome_addOperator_unary hn] at h
    split at h
    · rename_i ha
      cases h
      exact .inl ⟨hn, ha, rfl, rfl⟩
    · cases h
  · rw [outcome_addOperator_binary hn] at h
    split at h
    · rename_i ha
      split at h
      · rename_i e₁ s₁ hr
        cases h
        exact .inr ⟨hn, ha, e₁, hr, rfl⟩
      · cases h
    · cases h

theorem compile_ok (h : outcome (compile : Step ν σ ν) (e, s) = (.ok node, (e', s'))) :
    e.last = .operand ∧
      outcome (reduceWhile (fun _ => true) e.operators) ({ e with last := .finish }, s) = (.ok (), (e', s')) ∧
      e'.operands = [node] := by
  have hlast : e.last = .operand := by
    rw [compile] at h
    obtain ⟨_, _, hget, h₁⟩ := outcome_bind_ok h
    obtain ⟨rfl, rfl⟩ := outcome_get_ok hget
    obtain ⟨_, h₂⟩ := outcome_check_ok h₁
    obtain ⟨_, _, ha, _⟩ := outcome_bind_ok h₂
    rw [outcome_accept] at ha
    generalize e.last = last at ha
    cases last with
    | operand => rfl
    | _ => cases ha
  rw [outcome_compile hlast] at h
  refine ⟨hlast, ?_⟩
  split at h
  · rename_i e₁ s₁ hr
    split at h
    · rename_i node' hone
      cases h
      exact ⟨hr, hone⟩
    · cases h
  · cases h

end Ok

/-! ### What the operands have in common

Every operand was handed to the compiler or is what an operator became. -/

section Operands
variable {I : σ → Prop} {P : ν → σ → Prop}

/-- `I` holds of the nodes' state and `P` of every operand in it. -/
def Operands (I : σ → Prop) (P : ν → σ → Prop) (e : Expression ν) (s : σ) : Prop :=
  I s ∧ ∀ node ∈ e.operands, P node s

variable {e e' : Expression ν} {s s' : σ}

omit [Node ν σ] in
theorem operands_addOperand {node : ν} (he : e.Operands I P s) (hn : P node s)
    (h : outcome (addOperand node : Step ν σ Unit) (e, s) = (.ok (), (e', s'))) :
    e'.Operands I P s' := by
  obtain ⟨_, rfl, rfl⟩ := addOperand_ok h
  exact ⟨he.1, List.forall_mem_cons.mpr ⟨hn, he.2⟩⟩

variable (hres : ∀ (node : ν) (children : List ν) (s : σ) (r : ν) (s' : σ), I s →
  outcome (Node.resolve node children) s = (.ok r, s') → I s' ∧ P r s' ∧ ∀ other, P other s → P other s')
include hres

theorem operands_reduce {node : ν} (he : e.Operands I P s)
    (h : outcome (reduce node : Step ν σ Unit) (e, s) = (.ok (), (e', s'))) : e'.Operands I P s' := by
  obtain ⟨_, _, r, hr, rfl⟩ := reduce_ok h
  obtain ⟨hi, hp, hmono⟩ := hres _ _ _ _ _ he.1 hr
  exact ⟨hi, List.forall_mem_cons.mpr ⟨hp, fun other hmem => hmono other (he.2 other (List.mem_of_mem_drop hmem))⟩⟩

theorem operands_reduceWhile {p : ν → Bool} {waiting : List ν} (he : e.Operands I P s)
    (h : outcome (reduceWhile p waiting : Step ν σ Unit) (e, s) = (.ok (), (e', s'))) :
    e'.Operands I P s' := by
  induction waiting generalizing e s with
  | nil =>
    cases h
    exact he
  | cons top rest ih =>
    by_cases hp : p top
    · obtain ⟨e₁, s₁, hr, h₁⟩ := reduceWhile_cons_ok h hp
      exact ih (operands_reduce hres (e := { e with operators := rest }) he hr) h₁
    · rw [outcome_reduceWhile_cons, if_neg hp] at h
      cases h
      exact he

theorem operands_addOperator {node : ν} (he : e.Operands I P s)
    (h : outcome (addOperator node : Step ν σ Unit) (e, s) = (.ok (), (e', s'))) :
    e'.Operands I P s' := by
  rcases addOperator_ok h with ⟨_, _, rfl, rfl⟩ | ⟨_, _, e₁, hr, rfl⟩
  · exact he
  · have he₁ := operands_reduceWhile hres (e := { e with last := .binary }) he hr
    exact he₁

theorem operands_compile {node : ν} (he : e.Operands I P s)
    (h : outcome (compile : Step ν σ ν) (e, s) = (.ok node, (e', s'))) : P node s' := by
  obtain ⟨_, hr, hone⟩ := compile_ok h
  have he' := operands_reduceWhile hres (e := { e with last := .finish }) he hr
  exact he'.2 node (by rw [hone]; exact List.mem_cons_self)

end Operands

/-! ### What resolving respects -/

section Keeps
variable {R : σ → σ → Prop} [IsPreorder σ R]

omit [Node ν σ] in
theorem keeps_accept (next : Category) : (accept next : Step ν σ Unit).Keeps (InvImage R Prod.snd) := by
  rintro ⟨e, s⟩
  rw [outcome_accept]
  split <;> exact refl s

omit [Node ν σ] in
theorem keeps_addOperand (node : ν) : (addOperand node : Step ν σ Unit).Keeps (InvImage R Prod.snd) :=
  .bind (keeps_accept _) fun _ => .modify fun t => refl t.2

variable (h : ∀ (node : ν) (children : List ν), (Node.resolve node children).Keeps R)
include h

theorem keeps_reduce (node : ν) : (reduce node : Step ν σ Unit).Keeps (InvImage R Prod.snd) := by
  rintro ⟨e, s⟩
  rw [outcome_reduce]
  have hr := h node (e.operands.take (Node.arity node)).reverse s
  split
  · exact refl s
  · split <;> rename_i heq <;> rw [heq] at hr <;> exact hr

theorem keeps_reduceWhile (p : ν → Bool) (waiting : List ν) :
    (reduceWhile p waiting : Step ν σ Unit).Keeps (InvImage R Prod.snd) := by
  induction waiting with
  | nil => exact .pure ()
  | cons top rest ih =>
    exact .ite (.bind (.modify fun t => refl t.2) fun _ => .bind (keeps_reduce h top) fun _ => ih) (.pure ())

theorem keeps_addOperator (node : ν) :
    (addOperator node : Step ν σ Unit).Keeps (InvImage R Prod.snd) := by
  unfold addOperator
  split
  · exact .bind (keeps_accept _) fun _ => .modify fun t => refl t.2
  · exact .bind (keeps_accept _) fun _ => .bind .get fun t => .bind (keeps_reduceWhile h _ _) fun _ =>
      .modify fun t => refl t.2
  · exact .throw _

theorem keeps_compile : (compile : Step ν σ ν).Keeps (InvImage R Prod.snd) := by
  refine .bind .get fun t => .check (.bind (keeps_accept _) fun _ => .bind .get fun t' =>
    .bind (keeps_reduceWhile h _ _) fun _ => .bind .get fun t'' => ?_)
  split
  · exact .pure _
  · exact .throw _

end Keeps

/-! ### What resolving does not notice -/

/-- The change of the nodes' own state, beside an expression that stays as it is. -/
def beside (c : Change Error σ) : Change Error (Expression ν × σ) where
  fits t := c.fits t.2
  make t := (t.1, c.make t.2)
  lifts := c.lifts

/-- The nodes' own state, as a part of what a step goes through. -/
def nodesPart (c : Change Error σ) : (beside c : Change Error (Expression ν × σ)).Part c where
  part := Prod.snd
  put t s := (t.1, s)
  fits_part _ hs := hs
  fits_put _ _ hs := hs
  part_make _ := rfl
  put_make _ _ := rfl

section Unnoticed
variable {c : Change Error σ}

omit [Node ν σ] in
theorem unnoticed_accept (next : Category) : (beside c).Unnoticed (accept next : Step ν σ Unit) := by
  rintro ⟨e, s⟩ hs
  have hmade : outcome (accept next : Step ν σ Unit) ((beside c).make (e, s)) = _ := outcome_accept next e (c.make s)
  rw [hmade, outcome_accept]
  split <;> exact .inr ⟨hs, rfl⟩

omit [Node ν σ] in
theorem unnoticed_onNodes {x : Attempt Error σ α} (hx : c.Unnoticed x) :
    (beside c).Unnoticed (onNodes x : Step ν σ α) :=
  hx.within (nodesPart c) (fun r _ => r) (fun t => outcome_onNodes x t.1 t.2) (fun _ _ => rfl)
    fun e _ he => ⟨e, rfl, he⟩

omit [Node ν σ] in
theorem unnoticed_pushOperand (node : ν) : (beside c).Unnoticed (pushOperand node : Step ν σ Unit) :=
  .modify (fun _ hs => hs) fun _ => rfl

omit [Node ν σ] in
theorem unnoticed_addOperand (node : ν) : (beside c).Unnoticed (addOperand node : Step ν σ Unit) :=
  .bind (unnoticed_accept _) fun _ => unnoticed_pushOperand node

variable (h : ∀ (node : ν) (children : List ν), c.Unnoticed (Node.resolve node children))
include h

theorem unnoticed_reduce (node : ν) : (beside c).Unnoticed (reduce node : Step ν σ Unit) :=
  .get (fun _ => .check (.bind (.modify (fun _ hs => hs) fun _ => rfl) fun _ =>
    .bind (unnoticed_onNodes (h _ _)) fun _ => unnoticed_pushOperand _)) fun _ => rfl

theorem unnoticed_reduceWhile (p : ν → Bool) (waiting : List ν) :
    (beside c).Unnoticed (reduceWhile p waiting : Step ν σ Unit) := by
  induction waiting with
  | nil => exact .pure ()
  | cons top rest ih =>
    exact .ite (.bind (.modify (fun _ hs => hs) fun _ => rfl) fun _ => .bind (unnoticed_reduce h top) fun _ => ih)
      (.pure ())

theorem unnoticed_addOperator (node : ν) : (beside c).Unnoticed (addOperator node : Step ν σ Unit) := by
  unfold addOperator
  split
  · exact .bind (unnoticed_accept _) fun _ => .modify (fun _ hs => hs) fun _ => rfl
  · exact .bind (unnoticed_accept _) fun _ => .get (fun _ => .bind (unnoticed_reduceWhile h _ _) fun _ =>
      .modify (fun _ hs => hs) fun _ => rfl) fun _ => rfl
  · exact .throw _

theorem unnoticed_compile : (beside c).Unnoticed (compile : Step ν σ ν) := by
  refine .get (fun _ => .check (.bind (unnoticed_accept _) fun _ => .get (fun _ =>
    .bind (unnoticed_reduceWhile h _ _) fun _ => .get (fun t => ?_) fun _ => rfl) fun _ => rfl)) fun _ => rfl
  split
  · exact .pure _
  · exact .throw _

end Unnoticed

end BusLogic.Expression
