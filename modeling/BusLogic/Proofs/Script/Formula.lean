import BusLogic.Proofs.Expression.Signal
import BusLogic.Proofs.Script.Growth
import BusLogic.Proofs.Script.View

/-! Formulas compute what they say.

A formula is wired while it is read: an expression that waits for an operand holds the
`NOT`s in front of it and, perhaps, a binary operator with what stands to its left
(`Waits`), and `formula_bits` follows it term by term. -/
namespace BusLogic.Script
open Attempt Run Reference

variable {w : Nat → Bool} {given : List Bool}

/-! ### Operands -/

/-- A term that keeps nothing from one tick to the next: constant signals are `ONE` and
`ZERO`, and no operator is a latch. -/
def Term.Stateless : Term → Prop
  | .operand (.source op _) => op = .one ∨ op = .zero
  | .operand (.reduction op _) | .operator op => op ≠ .setReset
  | .operand (.ref _) | .operand (.list _) => True

/-- A constant signal is one gate, at the level of its opcode, as often as its width says. -/
theorem source_bits {op : Opcode} {extent : Option Extent} {s s' : Session} {b : Bus} (ho : op = .one ∨ op = .zero)
    (h : outcome (Operand.source op extent).evaluate s = (.ok b, s')) (hc : s'.netlist.Consistent w given) :
    s'.view w given = s.view w given ∧ (s.view w given).operand (.source op extent) = some (b.bits w) := by
  obtain ⟨width, _, hask, h₁⟩ := outcome_bind_ok h
  obtain ⟨hwidth, rfl⟩ := ask_ok hask
  obtain ⟨gate, _, hwire, h₂⟩ := outcome_bind_ok h₁
  obtain ⟨net, hgate, rfl⟩ := wire_ok hwire
  cases h₂
  have hlevel : constant? op = some (w gate) := by
    have hlaw := hc.law (Netlist.allocate_ok hgate).2.2
    rcases ho with rfl | rfl
    · rw [show w gate = true from hlaw rfl]
      rfl
    · rw [show w gate = false from hlaw rfl]
      rfl
  have hports := Netlist.ports_allocate op none none s.netlist
  rw [hgate] at hports
  have hinputs := Netlist.inputs_allocate hgate
  rw [if_neg (by rcases ho with rfl | rfl <;> decide), List.append_nil] at hinputs
  refine ⟨Session.view_netlist hinputs hports, ?_⟩
  rw [State.operand, hlevel]
  cases extent with
  | none =>
    cases hwidth
    rfl
  | some e =>
    obtain ⟨n, hn, hw₁⟩ := except_bind_ok hwidth
    obtain ⟨_, _, hw₂⟩ := except_bind_ok hw₁
    obtain ⟨_, _, hw₃⟩ := except_bind_ok hw₂
    cases hw₃
    simp only [Option.bind_eq_bind, Option.bind_some, Session.view_index hn, Bus.bits, Bus.slots,
      List.map_replicate, Option.map_some]
    rfl

theorem reduction_bits {op : Opcode} {l : Listing} {s s' : Session} {b : Bus} (ho : op ≠ .setReset)
    (h : outcome (Operand.reduction op l).evaluate s = (.ok b, s')) (hc : s'.netlist.Consistent w given) :
    s'.view w given = s.view w given ∧ (s.view w given).operand (.reduction op l) = some (b.bits w) := by
  obtain ⟨bus, _, hask, h₁⟩ := outcome_bind_ok h
  obtain ⟨hbus, rfl⟩ := ask_ok hask
  obtain ⟨gate, _, hwire, h₂⟩ := outcome_bind_ok h₁
  obtain ⟨net, hgate, rfl⟩ := wire_ok hwire
  cases h₂
  refine ⟨Session.view_wires ((Netlist.wires_reduce op bus).reached hgate), ?_⟩
  rw [State.operand, Session.view_listing hbus]
  simp only [Option.bind_eq_bind, Option.bind_some, Netlist.reduce_bits hc ho hgate]
  rfl

theorem operand_bits {o : Operand} {s s' : Session} {b : Bus} (ho : (Term.operand o).Stateless)
    (h : outcome o.evaluate s = (.ok b, s')) (hc : s'.netlist.Consistent w given) :
    s'.view w given = s.view w given ∧ (s.view w given).operand o = some (b.bits w) := by
  cases o with
  | ref r =>
    obtain ⟨hr, rfl⟩ := ask_ok h
    exact ⟨rfl, Session.view_ref hr⟩
  | list l =>
    obtain ⟨hl, rfl⟩ := ask_ok h
    exact ⟨rfl, Session.view_listing hl⟩
  | source op extent => exact source_bits ho h hc
  | reduction op l => exact reduction_bits ho h hc

/-! ### Waiting for an operand -/

/-- `k` times the complement. -/
def complements : Nat → Bits → Option Bits
  | 0, bits => some bits
  | k + 1, bits => (complement bits).bind (complements k)

/-- What becomes of an operand behind `k` times `NOT`, and of the binary operator before
them with what stands to its left. -/
def settle (k : Nat) (left : Option (Bits × Opcode)) (bits : Bits) : Option Bits :=
  (complements k bits).bind fun bits =>
    match left with
    | none => some bits
    | some (before, op) => combine before (op, bits)

theorem settle_succ (k : Nat) (left : Option (Bits × Opcode)) (bits : Bits) :
    settle (k + 1) left bits = (complement bits).bind (settle k left) := by
  rw [settle, complements, Option.bind_assoc]
  rfl

/-- The bus and the binary operator to the left of an operand. -/
abbrev Left := Option (Bus × Opcode)

namespace Left

def operators (left : Left) : List Signal := (left.map fun p => .operator p.2).toList

def operands (left : Left) : List Signal := (left.map fun p => .bus p.1).toList

def bits (w : Nat → Bool) (left : Left) : Option (Bits × Opcode) := left.map fun p => (p.1.bits w, p.2)

end Left

/-- Reducing all that waits for the bus `b`. -/
theorem settle_bits {k : Nat} {left : Left} {b : Bus} {p : Signal → Bool} {last : Expression.Category}
    {e' : Expression Signal} {net net' : Netlist}
    (hleft : ∀ q ∈ left, q.2.arity = 2 ∧ q.2 ≠ .setReset)
    (hp : p (.operator .not) ∧ ∀ q ∈ left, p (.operator q.2))
    (h : outcome (Expression.reduceWhile p (List.replicate k (.operator .not) ++ left.operators))
      (⟨.bus b :: left.operands, List.replicate k (.operator .not) ++ left.operators, last⟩, net) =
        (.ok (), (e', net')))
    (hc : net'.Consistent w given) :
    ∃ c, e' = ⟨[.bus c], [], last⟩ ∧ settle k (left.bits w) (b.bits w) = some (c.bits w) := by
  induction k generalizing b net with
  | zero =>
    rcases left with _ | ⟨before, op⟩
    · cases h
      exact ⟨b, rfl, rfl⟩
    · obtain ⟨harity, hop⟩ := hleft _ rfl
      obtain ⟨f, hf⟩ := Netlist.function?_of_arity harity hop
      obtain ⟨e₁, net₁, hr, h₁⟩ := Expression.reduceWhile_cons_ok h (hp.2 _ rfl)
      cases h₁
      obtain ⟨_, _, r, hres, rfl⟩ := Expression.reduce_ok hr
      have hpair : Node.arity (Signal.operator op) = 2 := harity
      rw [hpair] at hres ⊢
      obtain ⟨_, c, heq, rfl, ⟨_, hone, _⟩ | ⟨_, _, htwo, hbinary⟩⟩ := Signal.resolve_ok hres
      · cases hone
      · cases heq
        cases htwo
        exact ⟨c, rfl, Netlist.combine_bits hc hf hbinary⟩
  | succ k ih =>
    obtain ⟨e₁, net₁, hr, h₁⟩ := Expression.reduceWhile_cons_ok h hp.1
    obtain ⟨_, _, r, hres, rfl⟩ := Expression.reduce_ok hr
    obtain ⟨_, c, heq, rfl, ⟨_, hone, hunary⟩ | ⟨_, _, htwo, _⟩⟩ := Signal.resolve_ok hres
    · cases heq
      cases hone
      have h₂ : outcome (Expression.reduceWhile p (List.replicate k (.operator .not) ++ left.operators))
          (⟨.bus c :: left.operands, List.replicate k (.operator .not) ++ left.operators, last⟩, net₁) =
            (.ok (), (e', net')) := h₁
      have hwires : net₁.Wires net' :=
        (Expression.keeps_reduceWhile Signal.wires_resolve p _).reached h₂
      obtain ⟨d, he, hsettle⟩ := ih h₂
      refine ⟨d, he, ?_⟩
      rw [settle_succ, Netlist.complement_bits (hc.of_retains hwires.grows.retains) hunary]
      exact hsettle
    · cases htwo

/-! ### Term by term -/

/-- The stacks of an expression with `top` on the operands. -/
structure Stacks (k : Nat) (left : Left) (top : List Signal) (e : Expression Signal) : Prop where
  operators : e.operators = List.replicate k (.operator .not) ++ left.operators
  operands : e.operands = top ++ left.operands
  binary : ∀ q ∈ left, q.2.arity = 2 ∧ q.2 ≠ .setReset

/-- An expression that waits for an operand. -/
structure Waits (k : Nat) (left : Left) (e : Expression Signal) : Prop extends Stacks k left [] e where
  last : e.last.accepts .operand

/-- An expression that has the operand it waited for. -/
structure Holds (k : Nat) (left : Left) (b : Bus) (e : Expression Signal) : Prop
    extends Stacks k left [.bus b] e where
  last : e.last = .operand

theorem Waits.empty : Waits 0 none .empty := ⟨⟨rfl, rfl, fun _ hq => by cases hq⟩, rfl⟩

theorem feed_operand_ok {o : Operand} {e e' : Expression Signal} {s s' : Session}
    (h : outcome (Term.feed e (.operand o)) s = (.ok e', s')) :
    ∃ b, outcome o.evaluate s = (.ok b, s') ∧ e.last.accepts .operand ∧
      e' = ⟨.bus b :: e.operands, e.operators, .operand⟩ := by
  obtain ⟨b, s₁, hb, h₁⟩ := outcome_bind_ok h
  obtain ⟨p, _, hp, h₂⟩ := outcome_bind_ok h₁
  obtain ⟨net, hadd, rfl⟩ := Run.compile_ok hp
  cases h₂
  obtain ⟨ha, he, rfl⟩ := Expression.addOperand_ok hadd
  exact ⟨b, hb, ha, he⟩

theorem feed_operator_ok {op : Opcode} {e e' : Expression Signal} {s s' : Session}
    (h : outcome (Term.feed e (.operator op)) s = (.ok e', s')) :
    ∃ net, outcome (Expression.addOperator (.operator op)) (e, s.netlist) = (.ok (), (e', net)) ∧
      s' = { s with netlist := net } := by
  obtain ⟨p, _, hp, h₁⟩ := outcome_bind_ok h
  obtain ⟨net, hadd, rfl⟩ := Run.compile_ok hp
  cases h₁
  exact ⟨net, hadd, rfl⟩

/-- Nothing but an operand or `NOT` is taken while an operand is waited for. -/
theorem Waits.feed_operator {k : Nat} {left : Left} {op : Opcode} {e e' : Expression Signal} {s s' : Session}
    (hw : Waits k left e) (h : outcome (Term.feed e (.operator op)) s = (.ok e', s')) :
    op = .not ∧ Waits (k + 1) left e' ∧ s = s' := by
  obtain ⟨net, hadd, rfl⟩ := feed_operator_ok h
  rcases Expression.addOperator_ok hadd with ⟨harity, _, rfl, rfl⟩ | ⟨_, ha, _⟩
  · have hop : op = .not := by
      cases op <;> first | rfl | cases harity
    refine ⟨hop, ⟨⟨?_, hw.operands, hw.binary⟩, rfl⟩, rfl⟩
    rw [hw.operators, hop]
    rfl
  · have hlast := hw.last
    generalize e.last = last at ha hlast
    cases last <;> simp [Expression.Category.accepts] at ha hlast

theorem Waits.feed_operand {k : Nat} {left : Left} {o : Operand} {e e' : Expression Signal} {s s' : Session}
    (hw : Waits k left e) (h : outcome (Term.feed e (.operand o)) s = (.ok e', s')) :
    ∃ b, outcome o.evaluate s = (.ok b, s') ∧ Holds k left b e' := by
  obtain ⟨b, hb, _, rfl⟩ := feed_operand_ok h
  exact ⟨b, hb, ⟨⟨hw.operators, by rw [hw.operands]; rfl, hw.binary⟩, rfl⟩⟩

section Holds
variable {k : Nat} {left : Left} {b : Bus} {e e' : Expression Signal} {s s' : Session} (hh : Holds k left b e)
include hh

/-- No operand follows an operand. -/
theorem Holds.feed_operand {o : Operand} : outcome (Term.feed e (.operand o)) s ≠ (.ok e', s') := by
  intro h
  obtain ⟨_, _, ha, _⟩ := feed_operand_ok h
  rw [hh.last] at ha
  cases ha

/-- A binary operator settles all to its left. -/
theorem Holds.feed_operator {op : Opcode} (hop : op ≠ .setReset)
    (h : outcome (Term.feed e (.operator op)) s = (.ok e', s')) (hc : s'.netlist.Consistent w given) :
    s'.view w given = s.view w given ∧ ∃ c, Waits 0 (some (c, op)) e' ∧
      settle k (left.bits w) (b.bits w) = some (c.bits w) := by
  obtain ⟨net, hadd, rfl⟩ := feed_operator_ok h
  have hwires : s.netlist.Wires net :=
    (Expression.keeps_addOperator Signal.wires_resolve (.operator op)).reached hadd
  refine ⟨Session.view_wires hwires, ?_⟩
  rcases Expression.addOperator_ok hadd with ⟨_, ha, _⟩ | ⟨harity, _, e₁, hr, rfl⟩
  · rw [hh.last] at ha
    cases ha
  · rw [hh.operators, hh.operands] at hr
    have hle {other : Opcode} (ho : other.arity ≤ 2) :
        decide (Node.priority (Signal.operator other) ≤ Node.priority (Signal.operator op)) = true := by
      rw [decide_eq_true_eq, show Node.priority (Signal.operator op) = 2 from harity]
      exact ho
    obtain ⟨c, rfl, hc'⟩ := settle_bits hh.binary
      ⟨hle (by decide), fun q hq => hle (Nat.le_of_eq (hh.binary q hq).1)⟩ hr hc
    refine ⟨c, ⟨⟨rfl, rfl, fun q hq => ?_⟩, rfl⟩, hc'⟩
    cases hq
    exact ⟨harity, hop⟩

/-- The end settles everything. -/
theorem Holds.compile {p : Signal × Expression Signal}
    (h : outcome (Run.compile e Expression.compile) s = (.ok p, s')) (hc : s'.netlist.Consistent w given) :
    s'.view w given = s.view w given ∧ ∃ c, p.1 = .bus c ∧
      settle k (left.bits w) (b.bits w) = some (c.bits w) := by
  obtain ⟨net, hcomp, rfl⟩ := Run.compile_ok h
  have hwires : s.netlist.Wires net := (Expression.keeps_compile Signal.wires_resolve).reached hcomp
  refine ⟨Session.view_wires hwires, ?_⟩
  obtain ⟨_, hr, hone⟩ := Expression.compile_ok hcomp
  rw [hh.operators, hh.operands] at hr
  obtain ⟨c, hp, hc'⟩ := settle_bits hh.binary ⟨rfl, fun _ _ => rfl⟩ hr hc
  rw [hp] at hone
  exact ⟨c, (List.cons.inj hone).1.symm, hc'⟩

end Holds

/-- What is consistent in the end was consistent before. -/
theorem Session.Extends.consistent {s s' : Session} (h : s.Extends s')
    (hc : s'.netlist.Consistent w given) : s.netlist.Consistent w given :=
  hc.of_retains h.grows.retains

/-- Where an operand is waited for, it comes last, or a binary operator follows it, or it has
another `NOT` in front of it. -/
theorem Waits.terms_cases {terms : List Term} {k : Nat} {left : Left} {e e' : Expression Signal}
    {s s₁ s' : Session} {p : Signal × Expression Signal} (hw : Waits k left e)
    (h : outcome (terms.foldlM Term.feed e) s = (.ok e', s₁))
    (h' : outcome (Run.compile e' Expression.compile) s₁ = (.ok p, s')) :
    (∃ o, terms = [.operand o]) ∨ (∃ o op rest, terms = .operand o :: .operator op :: rest) ∨
      ∃ rest, terms = .operator .not :: rest := by
  rcases terms with _ | ⟨o | op, rest⟩
  · cases h
    obtain ⟨net, hcomp, rfl⟩ := Run.compile_ok h'
    have hlast := hw.last
    rw [(Expression.compile_ok hcomp).1] at hlast
    cases hlast
  · obtain ⟨e₁, s₂, hfeed, h₁⟩ := outcome_bind_ok h
    obtain ⟨b, _, hh⟩ := hw.feed_operand hfeed
    rcases rest with _ | ⟨o' | op, rest⟩
    · exact .inl ⟨o, rfl⟩
    · obtain ⟨e₂, s₃, hfeed', _⟩ := outcome_bind_ok h₁
      exact absurd hfeed' hh.feed_operand
    · exact .inr (.inl ⟨o, op, rest, rfl⟩)
  · obtain ⟨e₁, s₂, hfeed, _⟩ := outcome_bind_ok h
    obtain ⟨rfl, _⟩ := hw.feed_operator hfeed
    exact .inr (.inr ⟨rest, rfl⟩)

/-- The terms that follow, up to the end. -/
theorem terms_bits {t : State} {terms : List Term} (hst : ∀ term ∈ terms, term.Stateless)
    {k : Nat} {left : Left} {e e' : Expression Signal} {s s₁ s' : Session} {p : Signal × Expression Signal}
    (hw : Waits k left e) (ht : s.view w given = t)
    (h : outcome (terms.foldlM Term.feed e) s = (.ok e', s₁))
    (h' : outcome (Run.compile e' Expression.compile) s₁ = (.ok p, s'))
    (hc : s'.netlist.Consistent w given) :
    s'.view w given = t ∧ ∃ first rest acc b, t.factors terms = some (first, rest) ∧
      settle k (left.bits w) first = some acc ∧ rest.foldlM combine acc = some (b.bits w) ∧ p.1 = .bus b := by
  have hc₁ : s₁.netlist.Consistent w given :=
    ((extends_compile e' (Expression.keeps_compile Signal.wires_resolve)).reached h').consistent hc
  fun_induction State.factors t terms generalizing k left e s with
  | case1 o =>
    obtain ⟨e₁, s₂, hfeed, h₁⟩ := outcome_bind_ok h
    cases h₁
    obtain ⟨b, hb, hh⟩ := hw.feed_operand hfeed
    obtain ⟨hview, hbits⟩ := operand_bits (hst _ (List.mem_cons_self ..)) hb hc₁
    obtain ⟨hview', c, hp, hset⟩ := hh.compile h' hc
    rw [ht] at hbits
    rw [hbits]
    exact ⟨hview'.trans (hview.trans ht), _, _, _, c, rfl, hset, rfl, hp⟩
  | case2 o op rest ih =>
    obtain ⟨e₁, s₂, hfeed, h₁⟩ := outcome_bind_ok h
    obtain ⟨e₂, s₃, hfeed', h₂⟩ := outcome_bind_ok h₁
    have hc₃ : s₃.netlist.Consistent w given := ((Keeps.foldlM extends_feed e₂ rest).reached h₂).consistent hc₁
    have hc₂ : s₂.netlist.Consistent w given := ((extends_feed e₁ (.operator op)).reached hfeed').consistent hc₃
    obtain ⟨b, hb, hh⟩ := hw.feed_operand hfeed
    obtain ⟨hview, hbits⟩ := operand_bits (hst (.operand o) (by simp)) hb hc₂
    obtain ⟨hview', c, hw', hset⟩ := hh.feed_operator (hst (.operator op) (by simp)) hfeed' hc₃
    obtain ⟨hv, first, more, acc, r, hfac, hset', hfold, hp⟩ :=
      ih (fun term hterm => hst term (by simp [hterm])) hw' (hview'.trans (hview.trans ht)) h₂
    rw [ht] at hbits
    refine ⟨hv, b.bits w, (op, first) :: more, c.bits w, r, ?_, hset, ?_, hp⟩
    · rw [hbits, hfac]
      rfl
    · rw [List.foldlM_cons, show combine (c.bits w) (op, first) = some acc from hset']
      exact hfold
  | case3 rest ih =>
    obtain ⟨e₁, s₂, hfeed, h₁⟩ := outcome_bind_ok h
    obtain ⟨_, hw', rfl⟩ := hw.feed_operator hfeed
    obtain ⟨hv, first, more, acc, r, hfac, hset, hfold, hp⟩ :=
      ih (fun term hterm => hst term (by simp [hterm])) hw' ht h₁
    rw [settle_succ] at hset
    obtain ⟨bits, hbits, hset'⟩ := Option.bind_eq_some_iff.mp hset
    refine ⟨hv, bits, more, acc, r, ?_, hset', hfold, hp⟩
    rw [hfac]
    simp only [Option.bind_eq_bind, Option.bind_some, hbits]
    rfl
  | case4 terms hone htwo hnot =>
    rcases hw.terms_cases h h' with ⟨o, rfl⟩ | ⟨o, op, rest, rfl⟩ | ⟨rest, rfl⟩
    · exact absurd rfl (hone o)
    · exact absurd rfl (htwo o op rest)
    · exact absurd rfl (hnot rest)

/-- **A formula computes what it says.** -/
theorem formula_bits {terms : List Term} {fault : Option Mismatch} {s s' : Session} {b : Bus}
    (hst : ∀ term ∈ terms, term.Stateless) (h : outcome (formula terms fault) s = (.ok b, s'))
    (hc : s'.netlist.Consistent w given) :
    s'.view w given = s.view w given ∧ (s.view w given).formula terms = some (b.bits w) := by
  obtain ⟨e, s₁, hterms, h₁⟩ := outcome_bind_ok h
  obtain ⟨p, s₂, hcomp, h₂⟩ := outcome_bind_ok h₁
  obtain ⟨bus, _, hask, h₃⟩ := outcome_bind_ok h₂
  obtain ⟨hbus, rfl⟩ := ask_ok hask
  obtain ⟨_, _, hask', h₄⟩ := outcome_bind_ok h₃
  obtain ⟨_, rfl⟩ := ask_ok hask'
  cases h₄
  obtain ⟨hview, first, rest, acc, c, hfac, hset, hfold, hp⟩ := terms_bits hst Waits.empty rfl hterms hcomp hc
  rw [hp] at hbus
  cases hbus
  cases hset
  refine ⟨hview, ?_⟩
  rw [State.formula, hfac]
  exact hfold

end BusLogic.Script
