import BusLogic.Proofs.Expression.Precedence
import BusLogic.Proofs.Netlist.Fitting
import BusLogic.Proofs.Script.Steps

/-! Formulas over buses that are there.

A reference stands for the same bus whatever has been wired since, so that a formula over
references does what the compiler does on the buses themselves: it visits the tree that the
priorities pick (`formula_of_visits`). With room for its gates, joining two buses or three
succeeds (`formula_two`, `formula_three`), from left to right. -/
namespace BusLogic

open Expression (Token Phrase)

/-- An operator over two buses joins them bit by bit. -/
theorem Signal.resolve_two {op : Opcode} {a b r : Bus} {net net' : Netlist}
    (h : (Netlist.applyBinary op a b).outcome net = (.ok r, net')) :
    (Node.resolve (Signal.operator op) [.bus a, .bus b]).outcome net = (.ok (Signal.bus r), net') := by
  show (Signal.bus <$> Netlist.applyBinary op a b).outcome net = _
  rw [Attempt.outcome_map, h]
  rfl

namespace Script
open Attempt Run

/-- What a term stands for in the session, if it names a bus or an operator. -/
inductive Session.Reads (s : Session) : Term → Token Signal → Prop
  | ref {r : Ref} {b : Bus} (h : s.ref r = .ok b) : Reads s (.operand (.ref r)) (.operand (.bus b))
  | operator (op : Opcode) : Reads s (.operator op) (.operator (.operator op))

variable {s : Session}

theorem compile_eq_ok {α : Type} {e e' : Expression Signal} {x : Expression.Step Signal Netlist α} {a : α}
    {net : Netlist} (h : outcome x (e, s.netlist) = (.ok a, (e', net))) :
    outcome (compile e x) s = (.ok (a, e'), { s with netlist := net }) := by
  show (((outcome x (e, s.netlist)).1.map (·, (outcome x (e, s.netlist)).2.1)).mapError Failure.of,
    { s with netlist := (outcome x (e, s.netlist)).2.2 }) = _
  rw [h]
  rfl

/-- Terms are fed as the tokens they stand for. -/
theorem feed_reads {terms : List Term} {tokens : List (Token Signal)} (h : List.Forall₂ s.Reads terms tokens)
    {e e' : Expression Signal} {net net' : Netlist}
    (hf : outcome (Expression.feedAll tokens) (e, net) = (.ok (), (e', net'))) :
    outcome (terms.foldlM Term.feed e) { s with netlist := net } = (.ok e', { s with netlist := net' }) := by
  induction h generalizing e net with
  | nil =>
    cases hf
    rfl
  | cons hread _ ih =>
    obtain ⟨_, ⟨e₁, net₁⟩, hfirst, hrest⟩ := outcome_bind_ok hf
    refine bind_eq_ok.mpr ⟨e₁, { s with netlist := net₁ }, ?_, ih hrest⟩
    cases hread with
    | @ref r b href =>
      have hask : outcome (ask (·.ref r)) { s with netlist := net } = (.ok b, { s with netlist := net }) :=
        ask_eq_ok.mpr ⟨href, rfl⟩
      exact bind_eq_ok.mpr ⟨b, _, hask, bind_eq_ok.mpr ⟨_, _, compile_eq_ok hfirst, rfl⟩⟩
    | operator op => exact bind_eq_ok.mpr ⟨_, _, compile_eq_ok hfirst, rfl⟩

/-- **A formula over references visits the tree of its buses.** -/
theorem formula_of_visits {terms : List Term} {t : Phrase Signal} {calls : List (Expression.Call Signal)} {b : Bus}
    {net : Netlist} (hterms : List.Forall₂ s.Reads terms t.tokens) (ht : t.Ordered Node.arity Node.priority)
    (hv : t.Visits s.netlist calls (.bus b) net) :
    outcome (formula terms none) s = (.ok b, { s with netlist := net }) := by
  obtain ⟨_, ⟨e, net₁⟩, hfeed, hcompile⟩ := outcome_bind_ok (Expression.compileText_tokens hv ht)
  refine bind_eq_ok.mpr ⟨e, { s with netlist := net₁ }, feed_reads hterms hfeed, ?_⟩
  exact bind_eq_ok.mpr ⟨_, _, compile_eq_ok hcompile, rfl⟩

/-! ### With room for the gates -/

section Room
variable {r₁ r₂ r₃ : Ref} {op op' : Opcode} {i j k w : Nat}

theorem formula_two (h₁ : s.ref r₁ = .ok (.contiguous i w)) (h₂ : s.ref r₂ = .ok (.contiguous j w))
    (hop : op.arity = 2) (hi : i + w ≤ s.netlist.size) (hj : j + w ≤ s.netlist.size)
    (hroom : s.netlist.size + w ≤ s.netlist.capacity) :
    ∃ net, outcome (formula [.operand (.ref r₁), .operator op, .operand (.ref r₂)] none) s =
        (.ok (.contiguous s.netlist.size w), { s with netlist := net }) ∧
      s.netlist.Grows net ∧ net.size = s.netlist.size + w ∧
      ∀ m < w, net.Has (s.netlist.size + m) op (some (i + m)) (some (j + m)) := by
  obtain ⟨net, hnet, hgrown⟩ := Netlist.applyBinary_contiguous hop hi hj hroom
  refine ⟨net, ?_, hgrown⟩
  have hterms : List.Forall₂ s.Reads [.operand (.ref r₁), .operator op, .operand (.ref r₂)]
      (Phrase.binary (.operator op) (.leaf (.bus (.contiguous i w))) (.leaf (.bus (.contiguous j w)))).tokens :=
    .cons (.ref h₁) (.cons (.operator op) (.cons (.ref h₂) .nil))
  exact formula_of_visits hterms ⟨hop, nofun, nofun, trivial, trivial⟩
    (.binary (.leaf ..) (.leaf ..) (Signal.resolve_two hnet))

theorem formula_three (h₁ : s.ref r₁ = .ok (.contiguous i w)) (h₂ : s.ref r₂ = .ok (.contiguous j w))
    (h₃ : s.ref r₃ = .ok (.contiguous k w)) (hop : op.arity = 2) (hop' : op'.arity = 2)
    (hi : i + w ≤ s.netlist.size) (hj : j + w ≤ s.netlist.size) (hk : k + w ≤ s.netlist.size)
    (hroom : s.netlist.size + w + w ≤ s.netlist.capacity) :
    ∃ net, outcome (formula [.operand (.ref r₁), .operator op, .operand (.ref r₂), .operator op',
        .operand (.ref r₃)] none) s = (.ok (.contiguous (s.netlist.size + w) w), { s with netlist := net }) ∧
      s.netlist.Grows net ∧ net.size = s.netlist.size + w + w ∧
      (∀ m < w, net.Has (s.netlist.size + m) op (some (i + m)) (some (j + m))) ∧
      ∀ m < w, net.Has (s.netlist.size + w + m) op' (some (s.netlist.size + m)) (some (k + m)) := by
  obtain ⟨net₁, hnet₁, hgrown₁, hsize₁, hhas₁⟩ := Netlist.applyBinary_contiguous hop hi hj (by omega)
  have hroom₁ : net₁.size + w ≤ net₁.capacity := by
    rw [hsize₁, hgrown₁.retains.capacity]
    exact hroom
  have hleft : s.netlist.size + w ≤ net₁.size := by omega
  have hright : k + w ≤ net₁.size := by omega
  obtain ⟨net₂, hnet₂, hgrown₂, hsize₂, hhas₂⟩ := Netlist.applyBinary_contiguous hop' hleft hright hroom₁
  rw [hsize₁] at hnet₂ hsize₂ hhas₂
  refine ⟨net₂, ?_, hgrown₁.trans hgrown₂, hsize₂, fun m hm => (hhas₁ m hm).retains hgrown₂.retains, hhas₂⟩
  have hterms : List.Forall₂ s.Reads [.operand (.ref r₁), .operator op, .operand (.ref r₂), .operator op',
        .operand (.ref r₃)]
      (Phrase.binary (.operator op') (.binary (.operator op) (.leaf (.bus (.contiguous i w)))
        (.leaf (.bus (.contiguous j w)))) (.leaf (.bus (.contiguous k w)))).tokens :=
    .cons (.ref h₁) (.cons (.operator op) (.cons (.ref h₂) (.cons (.operator op') (.cons (.ref h₃) .nil))))
  -- operators of one priority: the first is reduced when the second arrives
  have hprior : ∀ o ∈ [Signal.operator op], Node.priority o ≤ Node.priority (Signal.operator op') := by
    intro o ho
    cases List.mem_singleton.mp ho
    exact Nat.le_of_eq (hop.trans hop'.symm)
  exact formula_of_visits hterms ⟨hop', hprior, nofun, ⟨hop, nofun, nofun, trivial, trivial⟩, trivial⟩
    (.binary (.binary (.leaf ..) (.leaf ..) (Signal.resolve_two hnet₁)) (.leaf ..) (Signal.resolve_two hnet₂))

end Room

end Script

end BusLogic
