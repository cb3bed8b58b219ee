import BusLogic.Proofs.Change
import BusLogic.Proofs.Netlist.Wiring

/-! Room for more gates.

Wiring asks for the capacity of a netlist in one place only, where a gate is allocated,
and then fails or goes on. So a netlist with more room is wired as the smaller one is,
gate for gate and error for error, as long as the smaller one does not run out of room. -/
namespace BusLogic

/-- There is no room for another gate, or for a bus of that width. -/
def Error.IsFull (e : Error) : Prop := ∃ capacity, e = .capacityExceeded capacity

namespace Netlist
open Attempt

/-- Room for `room` gates, which is more than there was, or the same. -/
def moreRoom (room : Nat) : Change Error Netlist where
  fits net := net.capacity ≤ room
  make net := { net with capacity := room }
  lifts := Error.IsFull

section Room
variable {room : Nat}

theorem countPins_room (pins : List Nat) (net : Netlist) :
    pins.foldl countPin { net with capacity := room } = { pins.foldl countPin net with capacity := room } := by
  induction pins generalizing net with
  | nil => rfl
  | cons pin rest ih => exact ih (net.countPin pin)

theorem push_room (net : Netlist) (op : Opcode) (in1 in2 : Option Nat) :
    ({ net with capacity := room } : Netlist).push op in1 in2 =
      { net.push op in1 in2 with capacity := room } := by
  unfold push
  dsimp only
  rw [countPins_room]
  rfl

/-- While there is room, how much there is does not matter. -/
theorem refusal?_room {net : Netlist} (hroom : net.capacity ≤ room) (hfree : net.size < net.capacity)
    (op : Opcode) (in1 in2 : Option Nat) :
    ({ net with capacity := room } : Netlist).refusal? op in1 in2 = net.refusal? op in1 in2 := by
  have hwide : ¬ ({ net with capacity := room } : Netlist).capacity ≤ ({ net with capacity := room } : Netlist).size :=
    Nat.not_le_of_lt (Nat.lt_of_lt_of_le hfree hroom)
  rw [refusal?, refusal?, if_neg hwide, if_neg (Nat.not_le_of_lt hfree)]
  rfl

theorem unnoticed_allocate (op : Opcode) (in1 in2 : Option Nat) :
    (moreRoom room).Unnoticed (allocate op in1 in2) := by
  intro net hroom
  rw [outcome_allocate, outcome_allocate]
  rcases Nat.lt_or_ge net.size net.capacity with hfree | hfull
  · have hsame : ((moreRoom room).make net).refusal? op in1 in2 = net.refusal? op in1 in2 :=
      refusal?_room hroom hfree op in1 in2
    rw [hsame]
    cases net.refusal? op in1 in2 with
    | some e => exact .inr ⟨hroom, rfl⟩
    | none =>
      refine .inr ⟨?_, Prod.ext rfl (push_room net op in1 in2)⟩
      show (net.push op in1 in2).capacity ≤ room
      rw [push_capacity]
      exact hroom
  · have hrefused : net.refusal? op in1 in2 = some (.capacityExceeded net.capacity) := by
      rw [refusal?, if_pos hfull]
    rw [hrefused]
    exact .inl ⟨_, rfl, _, rfl⟩

theorem unnoticed_allocateAll (op : Opcode) (pins : List (Option Nat × Option Nat)) :
    (moreRoom room).Unnoticed (allocateAll op pins) := by
  induction pins with
  | nil => exact .pure ()
  | cons p rest ih => exact .bind (unnoticed_allocate op p.1 p.2) fun _ => ih

theorem unnoticed_applyUnary (op : Opcode) (a : Bus) : (moreRoom room).Unnoticed (applyUnary op a) :=
  .bind (.ofExcept _) fun _ => .get (fun _ => .bind (unnoticed_allocateAll op _) fun _ => .pure _) fun _ => rfl

theorem unnoticed_applyBinary (op : Opcode) (a b : Bus) : (moreRoom room).Unnoticed (applyBinary op a b) :=
  .bind (.ofExcept _) fun _ => .bind (.ofExcept _) fun _ => .bind (.ofExcept _) fun _ =>
    .get (fun _ => .bind (unnoticed_allocateAll op _) fun _ => .pure _) fun _ => rfl

theorem unnoticed_select (selector : Nat) (a b : Bus) : (moreRoom room).Unnoticed (select selector a b) :=
  .check (.bind (unnoticed_allocate _ _ _) fun _ => .bind (unnoticed_applyBinary _ _ _) fun _ =>
    .bind (unnoticed_applyBinary _ _ _) fun _ => unnoticed_applyBinary _ _ _)

theorem unnoticed_allocateTree (op : Opcode) (tree : Tree Nat) : (moreRoom room).Unnoticed (allocateTree op tree) := by
  induction tree with
  | leaf gate => exact .pure gate
  | node left right ihl ihr => exact .bind ihl fun l => .bind ihr fun r => unnoticed_allocate op (some l) (some r)

theorem unnoticed_reduce (op : Opcode) (a : Bus) : (moreRoom room).Unnoticed (reduce op a) := by
  refine .check (.bind (.ofExcept _) fun gates => ?_)
  cases gates with
  | nil => exact .throw _
  | cons gate rest => exact unnoticed_allocateTree op _

theorem unnoticed_addInput (name : String) (width : Nat) : (moreRoom room).Unnoticed (addInput name width) := by
  have hinputs (n : Nat) : (moreRoom room).Unnoticed (allocateInputs n) := by
    induction n with
    | zero => exact .pure ()
    | succ n ih => exact .bind (unnoticed_allocate _ _ _) fun _ => ih
  exact .get (fun _ => .bind (hinputs width) fun _ =>
    .bind (.modify (fun _ hs => hs) fun _ => rfl) fun _ => .pure _) fun _ => rfl

theorem unnoticed_multiplexLevel (selector : Nat) (branches : List Bus) :
    (moreRoom room).Unnoticed (multiplexLevel selector branches) := by
  fun_induction multiplexLevel selector branches with
  | case1 a b rest jp hab ih => exact .bind (.pure a) fun _ => .bind ih fun _ => .pure _
  | case2 a b rest jp hab ih => exact .bind (unnoticed_select selector a b) fun _ => .bind ih fun _ => .pure _
  | case3 => exact .pure _

theorem unnoticed_multiplexLevels (index : Nat) (slots : List (Option Nat)) (branches : List Bus) :
    (moreRoom room).Unnoticed (multiplexLevels index slots branches) := by
  fun_induction multiplexLevels index slots branches with
  | case1 => exact .pure _
  | case2 => exact .throw _
  | case3 index gate slots branches ih => exact .bind (unnoticed_multiplexLevel gate branches) ih

theorem unnoticed_multiplex (selector : Bus) (branches : List Bus) :
    (moreRoom room).Unnoticed (multiplex selector branches) := by
  refine .check (.bind (unnoticed_multiplexLevels _ _ _) fun out => ?_)
  split
  · exact .pure _
  · exact .throw _

end Room

end Netlist

end BusLogic
