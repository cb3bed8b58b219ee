import BusLogic.Proofs.Expression.Signal
import BusLogic.Script.Execute

/-! Carrying out a script only adds to the netlist.

No step of a session touches its lines or the gates that are there
(`Session.Advances`). Formulas do less still: whether they succeed or fail, they add
gates and change nothing else (`Session.Extends`). -/
namespace BusLogic.Script
open Run

/-- The lines are the same, and the netlist has grown. -/
structure Session.Advances (s s' : Session) : Prop where
  lines : s'.lines = s.lines
  grows : s.netlist.Grows s'.netlist

instance : IsPreorder Session Session.Advances where
  refl s := ⟨rfl, refl s.netlist⟩
  trans _ _ _ hab hbc := ⟨hbc.lines.trans hab.lines, hab.grows.trans hbc.grows⟩

/-- The netlist has grown, and nothing else is different. -/
structure Session.Extends (s s' : Session) : Prop where
  rest : s' = { s with netlist := s'.netlist }
  grows : s.netlist.Grows s'.netlist

instance : IsPreorder Session Session.Extends where
  refl s := ⟨rfl, refl s.netlist⟩
  trans _ _ _ hab hbc := ⟨hbc.rest.trans (by rw [hab.rest]), hab.grows.trans hbc.grows⟩

open Session (Extends)

theorem Session.Extends.advances {s s' : Session} (h : s.Extends s') : s.Advances s' :=
  ⟨by rw [h.rest], h.grows⟩

theorem Session.Extends.cursor {s s' : Session} (h : s.Extends s') : s'.cursor = s.cursor := by rw [h.rest]

/-! ### Formulas

A formula asks, wires and takes constant signals; what these respect, it respects. -/

section Formulas
variable {α : Type} {R : Session → Session → Prop} [IsPreorder Session R]

theorem keeps_ask (f : Session → Except Error α) : (ask f).Keeps R := fun s => refl s

variable (hwires : ∀ (s : Session) (net : Netlist), s.netlist.Wires net → R s { s with netlist := net })
include hwires

omit [IsPreorder Session R] in
theorem keeps_wire {x : Attempt Error Netlist α} (h : x.Keeps Netlist.Wires) : (wire x).Keeps R :=
  fun s => hwires s _ (h s.netlist)

omit [IsPreorder Session R] in
theorem keeps_compile (e : Expression Signal) {x : Expression.Step Signal Netlist α}
    (h : x.Keeps (InvImage Netlist.Wires Prod.snd)) : (compile e x).Keeps R :=
  fun s => hwires s _ (h (e, s.netlist))

variable (hsource : ∀ op, (wire (Netlist.allocate op none none)).Keeps R)
include hsource

theorem keeps_evaluate (o : Operand) : o.evaluate.Keeps R := by
  cases o with
  | ref r => exact keeps_ask _
  | list l => exact keeps_ask _
  | source op extent => exact .bind (keeps_ask _) fun _ => .bind (hsource op) fun _ => .pure _
  | reduction op l =>
    exact .bind (keeps_ask _) fun bus => .bind (keeps_wire hwires (Netlist.wires_reduce op bus)) fun _ => .pure _

theorem keeps_feed (e : Expression Signal) (t : Term) : (t.feed e).Keeps R := by
  cases t with
  | operand o =>
    exact .bind (keeps_evaluate hwires hsource o) fun bus =>
      .bind (keeps_compile hwires e (Expression.keeps_addOperand _)) fun _ => .pure _
  | operator op =>
    exact .bind (keeps_compile hwires e (Expression.keeps_addOperator Signal.wires_resolve _)) fun _ => .pure _

theorem keeps_formula (terms : List Term) (fault : Option Mismatch) : (formula terms fault).Keeps R :=
  .bind (.foldlM (keeps_feed hwires hsource) _ _) fun e =>
    .bind (keeps_compile hwires e (Expression.keeps_compile Signal.wires_resolve)) fun _ =>
      .bind (keeps_ask _) fun _ => .bind (keeps_ask _) fun _ => .pure _

end Formulas

theorem extends_of_wires (s : Session) (net : Netlist) (h : s.netlist.Wires net) :
    s.Extends { s with netlist := net } := ⟨rfl, h.grows⟩

theorem extends_source (op : Opcode) : (wire (Netlist.allocate op none none)).Keeps Extends :=
  fun s => ⟨rfl, Netlist.grows_allocate op none none s.netlist⟩

theorem extends_compile {α : Type} (e : Expression Signal) {x : Expression.Step Signal Netlist α}
    (h : x.Keeps (InvImage Netlist.Wires Prod.snd)) : (compile e x).Keeps Extends :=
  keeps_compile extends_of_wires e h

theorem extends_evaluate (o : Operand) : o.evaluate.Keeps Extends :=
  keeps_evaluate extends_of_wires extends_source o

theorem extends_feed (e : Expression Signal) (t : Term) : (t.feed e).Keeps Extends :=
  keeps_feed extends_of_wires extends_source e t

theorem extends_formula (terms : List Term) (fault : Option Mismatch) : (formula terms fault).Keeps Extends :=
  keeps_formula extends_of_wires extends_source terms fault

end BusLogic.Script
