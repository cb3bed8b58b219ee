import BusLogic.Expression.Signal
import BusLogic.Proofs.Expression.Steps
import BusLogic.Proofs.Netlist.Wiring

/-! Reducing an operator over buses.

An operator that is reduced was wired bit by bit to one bus or pair by pair to two
(`resolve_ok`); whatever becomes of it, gates are only added, and the bus it becomes
is within the netlist. -/
namespace BusLogic.Signal
open Attempt

theorem wires_resolve (node : Signal) (children : List Signal) :
    (resolve node children).Keeps Netlist.Wires := by
  cases node with
  | bus b => exact .throw _
  | operator op =>
    refine .bind (.ofExcept _) fun buses => ?_
    split
    · exact .map _ (Netlist.wires_applyUnary _ _)
    · exact .map _ (Netlist.wires_applyBinary _ _ _)
    · exact .throw _

theorem toBus_ok {node : Signal} {b : Bus} (h : node.toBus = .ok b) : node = .bus b := by
  cases node with
  | operator op => cases h
  | bus b' =>
    cases h
    rfl

theorem toBuses_ok {nodes : List Signal} {buses : List Bus} (h : toBuses nodes = .ok buses) :
    nodes = buses.map .bus := by
  induction nodes generalizing buses with
  | nil =>
    cases h
    rfl
  | cons node rest ih =>
    obtain ⟨b, hb, h₁⟩ := except_bind_ok h
    obtain ⟨bs, hbs, h₂⟩ := except_bind_ok h₁
    cases h₂
    rw [toBus_ok hb, ih hbs]
    rfl

/-- What reducing an operator has wired. -/
theorem resolve_ok {node r : Signal} {children : List Signal} {net net' : Netlist}
    (h : outcome (resolve node children) net = (.ok r, net')) :
    ∃ op c, node = .operator op ∧ r = .bus c ∧
      ((∃ a, children = [.bus a] ∧ outcome (Netlist.applyUnary op a) net = (.ok c, net')) ∨
        ∃ a b, children = [.bus a, .bus b] ∧ outcome (Netlist.applyBinary op a b) net = (.ok c, net')) := by
  cases node with
  | bus b => cases h
  | operator op =>
    obtain ⟨buses, _, hb, h₁⟩ := outcome_bind_ok h
    obtain ⟨hbuses, rfl⟩ := outcome_ofExcept_ok hb
    rw [toBuses_ok hbuses]
    split at h₁
    · rename_i a
      rw [outcome_map] at h₁
      rcases hx : outcome (Netlist.applyUnary op a) net with ⟨_ | c, net₁⟩
      all_goals rw [hx] at h₁; cases h₁
      exact ⟨op, c, rfl, rfl, .inl ⟨a, rfl, hx⟩⟩
    · rename_i a b
      rw [outcome_map] at h₁
      rcases hx : outcome (Netlist.applyBinary op a b) net with ⟨_ | c, net₁⟩
      all_goals rw [hx] at h₁; cases h₁
      exact ⟨op, c, rfl, rfl, .inr ⟨a, b, rfl, hx⟩⟩
    · cases h₁

/-- The bus behind a node, if there is one, is within the netlist. -/
def Within (net : Netlist) : Signal → Prop
  | .operator _ => True
  | .bus b => b.Within net

theorem Within.retains {net net' : Netlist} {node : Signal} (h : node.Within net)
    (hr : net.Retains net') : node.Within net' := by
  cases node with
  | operator op => trivial
  | bus b => exact Bus.Within.retains h hr

theorem resolve_within (node : Signal) (children : List Signal) (net : Netlist) (r : Signal)
    (net' : Netlist) (hi : net.Intact) (h : outcome (resolve node children) net = (.ok r, net')) :
    net'.Intact ∧ r.Within net' ∧ ∀ other : Signal, other.Within net → other.Within net' := by
  have hg := ((wires_resolve node children).reached h).grows
  refine ⟨hg.intact hi, ?_, fun other ho => ho.retains hg.retains⟩
  obtain ⟨op, c, _, rfl, ⟨a, _, hc⟩ | ⟨a, b, _, hc⟩⟩ := resolve_ok h
  · exact Netlist.within_applyUnary hi hc
  · exact Netlist.within_applyBinary hi hc

end BusLogic.Signal
