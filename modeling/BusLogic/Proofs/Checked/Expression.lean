import BusLogic.Proofs.Checked.Wiring

/-! Compiling that notices when its stacks run out.

The children of an operator are split off the stack of operands, the oldest operand first,
at a position that is computed from their number. The compiler compares the two lengths
before it splits, so whatever the nodes are, its steps are realized where resolving an
operator is (`realizes_reduceWhile`). Over buses, that is where the netlist is addressable
and every operand is within it (`realizes_resolve`). -/
namespace BusLogic
open Attempt

namespace Expression.Checked
open BusLogic.Checked

variable {ν σ α : Type}

/-- Runs a checked computation on the nodes' state. -/
def onNodes (x : Attempt (Halt Error) σ α) : Attempt (Halt Error) (Expression ν × σ) α := fun (e, s) =>
  let (r, s) := x.outcome s
  (r, (e, s))

/-- Splits the `n` topmost operands off the stack. They come in the order in which they
were pushed. -/
def splitOff (operands : List ν) (n : Nat) : Except (Halt Error) (List ν × List ν) := do
  let keep ← sub operands.length n
  let (kept, children) ← cut operands.reverse keep
  return (kept.reverse, children)

variable [Node ν σ] (resolve : ν → List ν → Attempt (Halt Error) σ ν)

def reduce (node : ν) : Attempt (Halt Error) (Expression ν × σ) Unit := do
  let n := Node.arity node
  let operands := (← get).1.operands
  if n = 0 ∨ operands.length < n then
    throw (.refused (.malformed (.missingOperands n operands.length)))
  let (kept, children) ← Attempt.ofExcept (splitOff operands n)
  modify fun (e, s) => ({ e with operands := kept }, s)
  let result ← onNodes (resolve node children)
  lift (pushOperand result)

def reduceWhile (p : ν → Bool) : (waiting : List ν) → Attempt (Halt Error) (Expression ν × σ) Unit
  | [] => pure ()
  | top :: rest =>
    if p top then do
      modify fun (e, s) => ({ e with operators := rest }, s)
      reduce resolve top
      reduceWhile p rest
    else pure ()

def addOperator (node : ν) : Attempt (Halt Error) (Expression ν × σ) Unit :=
  match Node.arity node with
  | 1 => do
    lift (accept .unary)
    lift (pushOperator node)
  | 2 => do
    lift (accept .binary)
    reduceWhile resolve (fun top => Node.priority top ≤ Node.priority node) (← get).1.operators
    lift (pushOperator node)
  | n => throw (.refused (.malformed (.operatorArity n)))

def compile : Attempt (Halt Error) (Expression ν × σ) ν := do
  if (← get).1.last = .start then
    throw (.refused (.malformed .empty))
  lift (accept .finish)
  reduceWhile resolve (fun _ => true) (← get).1.operators
  match (← get).1.operands with
  | [node] => return node
  | operands => throw (.refused (.malformed (.leftover operands.length)))

/-! ### Realized steps -/

theorem splitOff_eq {operands : List ν} {n : Nat} (h : n ≤ operands.length) :
    splitOff operands n = .ok (operands.drop n, (operands.take n).reverse) := by
  have hkeep : operands.length - (operands.length - n) = n := by omega
  have hcut : (cut operands.reverse (operands.length - n) : Except (Halt Error) _) =
      .ok ((operands.drop n).reverse, (operands.take n).reverse) := by
    rw [cut_eq (by rw [List.length_reverse]; omega), List.take_reverse, List.drop_reverse, hkeep]
  rw [splitOff, sub_eq h]
  show (cut operands.reverse (operands.length - n) >>= _) = _
  rw [hcut]
  show Except.ok ((operands.drop n).reverse.reverse, _) = _
  rw [List.reverse_reverse]

omit [Node ν σ] in
theorem operands_accept {I : σ → Prop} {P : ν → σ → Prop} {e : Expression ν} {s : σ} {next : Category}
    {t : Expression ν × σ} (he : e.Operands I P s) (h : outcome (accept next : Step ν σ Unit) (e, s) = (.ok (), t)) :
    t.1.Operands I P t.2 := by
  rw [outcome_accept] at h
  split at h
  all_goals cases h
  exact he

omit [Node ν σ] in
theorem realizes_onNodes {x : Attempt (Halt Error) σ α} {y : Attempt Error σ α} {s : σ} (h : x.Realizes y s)
    (e : Expression ν) : (onNodes x).Realizes (Expression.onNodes y) (e, s) := by
  show ((outcome x s).1, (e, (outcome x s).2)) = _
  rw [h]
  rfl

section Steps
variable {resolve} {I : σ → Prop} {P : ν → σ → Prop} {e : Expression ν} {s : σ}
  (hres : ∀ node children (s : σ), I s → (∀ child ∈ children, P child s) →
    (resolve node children).Realizes (Node.resolve node children) s)
include hres

theorem realizes_reduce (node : ν) (he : e.Operands I P s) :
    (reduce resolve node).Realizes (Expression.reduce node) (e, s) := by
  refine .bind .get fun t _ ho => ?_
  cases ho
  refine .check fun hfew => ?_
  have hle : Node.arity node ≤ e.operands.length := Nat.le_of_not_lt fun hlt => hfew (.inr hlt)
  refine .settled (splitOff_eq hle) (.bind (.modify _) fun _ _ ho => ?_)
  cases ho
  refine .bind (realizes_onNodes (hres node _ s he.1 fun child hmem => ?_) _) fun _ _ _ => .lift _
  exact he.2 child (List.mem_of_mem_take (List.mem_reverse.mp hmem))

variable (hkeeps : ∀ (node : ν) (children : List ν) (s : σ) (r : ν) (s' : σ), I s →
  outcome (Node.resolve node children) s = (.ok r, s') → I s' ∧ P r s' ∧ ∀ other, P other s → P other s')
include hkeeps

theorem realizes_reduceWhile (p : ν → Bool) (waiting : List ν) (he : e.Operands I P s) :
    (reduceWhile resolve p waiting).Realizes (Expression.reduceWhile p waiting) (e, s) := by
  induction waiting generalizing e s with
  | nil => exact .pure ()
  | cons top rest ih =>
    rw [reduceWhile, Expression.reduceWhile]
    split
    · refine .bind (.modify _) fun _ _ ho => ?_
      cases ho
      have he₁ : Operands I P { e with operators := rest } s := he
      exact .bind (realizes_reduce hres top he₁) fun _ t hr => ih (operands_reduce hkeeps he₁ hr)
    · exact .pure ()

theorem realizes_addOperator (node : ν) (he : e.Operands I P s) :
    (addOperator resolve node).Realizes (Expression.addOperator node) (e, s) := by
  unfold addOperator Expression.addOperator
  rcases Node.arity node with _ | _ | _ | n
  · exact .throw _
  · exact .bind (.lift _) fun _ _ _ => .lift _
  · refine .bind (.lift _) fun _ t ho => .bind .get fun _ _ hget => ?_
    cases hget
    exact .bind (realizes_reduceWhile hres hkeeps _ _ (operands_accept he ho)) fun _ _ _ => .lift _
  · exact .throw _

theorem realizes_compile (he : e.Operands I P s) :
    (compile resolve).Realizes (Expression.compile : Step ν σ ν) (e, s) := by
  refine .bind .get fun _ _ hget => ?_
  cases hget
  refine .check fun _ => .bind (.lift _) fun _ t ho => .bind .get fun _ _ hget => ?_
  cases hget
  refine .bind (realizes_reduceWhile hres hkeeps _ _ (operands_accept he ho)) fun _ _ _ => .bind .get fun t _ _ => ?_
  rcases t.1.operands with _ | ⟨node, _ | ⟨other, rest⟩⟩
  · exact .throw _
  · exact .pure node
  · exact .throw _

end Steps

end Expression.Checked

/-! ### Over buses -/

namespace Signal.Checked

/-- Wires an operator to its children. -/
def resolve (node : Signal) (children : List Signal) : Attempt (Halt Error) Netlist Signal := do
  match node with
  | .bus _ => throw (.refused (.malformed .operandWithChildren))
  | .operator op =>
    match ← lift (Attempt.ofExcept (toBuses children)) with
    | [a] => .bus <$> Netlist.Checked.applyUnary op a
    | [a, b] => .bus <$> Netlist.Checked.applyBinary op a b
    | buses => throw (.refused (.malformed (.operandCount op buses.length)))

theorem realizes_resolve (node : Signal) (children : List Signal) (net : Netlist) (hn : net.Addressable)
    (hc : ∀ child ∈ children, child.Within net) :
    (resolve node children).Realizes (Signal.resolve node children) net := by
  cases node with
  | bus b => exact .throw _
  | operator op =>
    refine .bind (.lift _) fun buses _ ho => ?_
    obtain ⟨hbuses, rfl⟩ := outcome_ofExcept_ok ho
    have hwithin : ∀ b ∈ buses, b.Within net := fun b hb =>
      hc (.bus b) (by rw [toBuses_ok hbuses]; exact List.mem_map_of_mem hb)
    rcases buses with _ | ⟨a, _ | ⟨b, _ | ⟨c, rest⟩⟩⟩
    · exact .throw _
    · have ha := hwithin a List.mem_cons_self
      exact .map _ (Netlist.Checked.realizes_applyUnary op (ha.addressed hn) net)
    · have ha := hwithin a List.mem_cons_self
      have hb := hwithin b (List.mem_cons_of_mem _ List.mem_cons_self)
      exact .map _ (Netlist.Checked.realizes_applyBinary op (ha.addressed hn) (hb.addressed hn) net)
    · exact .throw _

/-- What an operator becomes is within a netlist that is still addressable. -/
theorem resolve_addressable (node : Signal) (children : List Signal) (net : Netlist) (r : Signal) (net' : Netlist)
    (hn : net.Addressable) (h : outcome (Signal.resolve node children) net = (.ok r, net')) :
    net'.Addressable ∧ r.Within net' ∧ ∀ other : Signal, other.Within net → other.Within net' :=
  ⟨hn.grows ((wires_resolve node children).reached h).grows, (resolve_within node children net r net' hn.intact h).2⟩

end Signal.Checked

end BusLogic
