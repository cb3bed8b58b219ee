import BusLogic.Proofs.Bus
import BusLogic.Proofs.Netlist.Growth

/-! What the bus operations wire.

Each operation that succeeds has added the gates it promises, next to one another
and in order (`Has`), and answers with a bus over gates that are there
(`Bus.Within`). -/
namespace BusLogic

/-- Every bound slot is a gate of the netlist, and the bus is no wider than the
netlist has room for gates. -/
structure Bus.Within (net : Netlist) (b : Bus) : Prop where
  bound : ∀ gate, some gate ∈ b.slots → gate < net.size
  narrow : b.width ≤ net.capacity

namespace Bus.Within

variable {net net' : Netlist}

theorem retains {b : Bus} (h : b.Within net) (hr : net.Retains net') : b.Within net' :=
  ⟨fun gate hg => Nat.lt_of_lt_of_le (h.bound gate hg) hr.size_le, by rw [hr.capacity]; exact h.narrow⟩

theorem contiguous (hi : net.Intact) {start width : Nat} (h : start + width ≤ net.size) :
    (Bus.contiguous start width).Within net := by
  refine ⟨fun gate hg => ?_, ?_⟩
  · obtain ⟨g, hg, he⟩ := List.mem_map.mp hg
    cases he
    have := (List.mem_range'_1.mp hg).2
    omega
  · have := hi.room
    show width ≤ net.capacity
    omega

theorem single (hi : net.Intact) {gate : Nat} (h : gate < net.size) : (Bus.single gate).Within net :=
  contiguous hi h

theorem unbound {width : Nat} (h : width ≤ net.capacity) : (Bus.unbound width).Within net := by
  refine ⟨fun gate hg => ?_, by rw [width_unbound]; exact h⟩
  rw [slots_unbound] at hg
  cases List.eq_of_mem_replicate hg

theorem fanOut {gate width : Nat} (hg : gate < net.size) (h : width ≤ net.capacity) :
    (Bus.explicit (List.replicate width (some gate))).Within net := by
  refine ⟨fun g hmem => ?_, by simpa [Bus.width] using h⟩
  cases List.eq_of_mem_replicate hmem
  exact hg

theorem slice {b r : Bus} (h : b.Within net) {first last : Nat} (hs : b.slice first last = .ok r) :
    r.Within net := by
  obtain ⟨hle, hlt, hr⟩ := slice_eq_ok hs
  refine ⟨fun gate hg => ?_, ?_⟩
  · rw [hr] at hg
    exact h.bound gate (List.mem_of_mem_drop (List.mem_of_mem_take hg))
  · have := h.narrow
    rw [slice_width hs]
    omega

theorem append {a b : Bus} (ha : a.Within net) (hb : b.Within net)
    (h : a.width + b.width ≤ net.capacity) : (a ++ b).Within net := by
  refine ⟨fun gate hg => ?_, ?_⟩
  · rw [slots_append] at hg
    rcases List.mem_append.mp hg with hg | hg
    · exact ha.bound gate hg
    · exact hb.bound gate hg
  · rw [← length_slots, slots_append, List.length_append, length_slots, length_slots]
    exact h

theorem bind {b b' : Bus} (h : b.Within net) {i gate : Nat} (hg : gate < net.size)
    (hb : b.bind i gate = .ok b') : b'.Within net := by
  obtain ⟨_, hslots⟩ := bind_eq_ok hb
  refine ⟨fun g hmem => ?_, ?_⟩
  · rw [hslots] at hmem
    rcases List.mem_or_eq_of_mem_set hmem with hmem | heq
    · exact h.bound g hmem
    · cases heq
      exact hg
  · have := h.narrow
    rw [← length_slots, hslots, List.length_set, length_slots]
    exact this

theorem gate {b : Bus} (h : b.Within net) {i g : Nat} (hg : b.gate i = .ok g) : g < net.size :=
  h.bound g (List.mem_of_getElem? (gate_eq_ok.mp hg))

end Bus.Within

theorem Tree.balanced_eq_leaf {α : Type} {a b : α} {rest : List α} (h : balanced a rest = .leaf b) :
    a = b := by
  rw [balanced] at h
  split at h
  · cases h
    rfl
  · cases h

namespace Netlist
open Attempt

/-- Gate `i` is there, with this operation and these pins. -/
def Has (net : Netlist) (i : Nat) (op : Opcode) (in1 in2 : Option Nat) : Prop :=
  ∃ g, net.gates[i]? = some g ∧ g.opcode = op ∧ g.in1 = in1 ∧ g.in2 = in2

theorem Has.retains {net net' : Netlist} {i : Nat} {op : Opcode} {in1 in2 : Option Nat}
    (h : net.Has i op in1 in2) (hr : Retains net net') : net'.Has i op in1 in2 := by
  obtain ⟨g, hg, rfl, rfl, rfl⟩ := h
  obtain ⟨g', hg', hs⟩ := hr.gates i g hg
  exact ⟨g', hg', hs.opcode, hs.in1, hs.in2⟩

theorem Has.lt {net : Netlist} {i : Nat} {op : Opcode} {in1 in2 : Option Nat}
    (h : net.Has i op in1 in2) : i < net.size := by
  obtain ⟨g, hg, _⟩ := h
  exact (Array.getElem?_eq_some_iff.mp hg).1

theorem has_push (net : Netlist) (op : Opcode) (in1 in2 : Option Nat) :
    (net.push op in1 in2).Has net.size op in1 in2 := by
  obtain ⟨depth, h⟩ := push_new net op in1 in2
  exact ⟨_, h, rfl, rfl, rfl⟩

theorem allocate_ok {op : Opcode} {in1 in2 : Option Nat} {net net' : Netlist} {gate : Nat}
    (h : (allocate op in1 in2).outcome net = (.ok gate, net')) :
    gate = net.size ∧ net'.size = net.size + 1 ∧ net'.Has gate op in1 in2 := by
  rw [outcome_allocate] at h
  split at h
  · cases h
  · cases h
    exact ⟨rfl, push_size .., has_push ..⟩

/-- A gate for each pair of pins, in order, from the next number on. -/
theorem allocateAll_ok {op : Opcode} {pins : List (Option Nat × Option Nat)} {net net' : Netlist}
    (h : (allocateAll op pins).outcome net = (.ok (), net')) :
    Retains net net' ∧ net'.size = net.size + pins.length ∧
      ∀ k p, pins[k]? = some p → net'.Has (net.size + k) op p.1 p.2 := by
  induction pins generalizing net with
  | nil =>
    cases h
    exact ⟨refl _, rfl, fun k p hk => by cases hk⟩
  | cons p rest ih =>
    obtain ⟨gate, net₁, hfirst, hrest⟩ := outcome_bind_ok h
    obtain ⟨rfl, hsize₁, hhas⟩ := allocate_ok hfirst
    have hgrown : Retains net net₁ := by
      have := (grows_allocate op p.1 p.2 net).retains
      rwa [hfirst] at this
    obtain ⟨hret, hsize, hall⟩ := ih hrest
    refine ⟨hgrown.trans hret, by rw [hsize, hsize₁, List.length_cons]; omega, fun k q hk => ?_⟩
    cases k with
    | zero =>
      cases hk
      exact hhas.retains hret
    | succ k =>
      have := hall k q hk
      rwa [hsize₁, Nat.add_assoc, Nat.add_comm 1 k] at this

theorem applyUnary_ok {op : Opcode} {a r : Bus} {net net' : Netlist}
    (h : (applyUnary op a).outcome net = (.ok r, net')) :
    ∃ xs : List Nat, a.slots = xs.map some ∧ r = .contiguous net.size xs.length ∧
      net'.size = net.size + xs.length ∧
      ∀ k x, xs[k]? = some x → net'.Has (net.size + k) op (some x) none := by
  obtain ⟨xs, _, hxs, h₁⟩ := outcome_bind_ok h
  obtain ⟨hgates, rfl⟩ := outcome_ofExcept_ok hxs
  obtain ⟨_, _, hget, h₂⟩ := outcome_bind_ok h₁
  obtain ⟨rfl, rfl⟩ := outcome_get_ok hget
  obtain ⟨_, _, hall, h₃⟩ := outcome_bind_ok h₂
  cases h₃
  obtain ⟨_, hsize, hhas⟩ := allocateAll_ok hall
  have hslots := Bus.gates_eq_ok.mp hgates
  have hwidth : a.width = xs.length := by rw [← Bus.length_slots, hslots, List.length_map]
  rw [List.length_map] at hsize
  refine ⟨xs, hslots, by rw [hwidth], hsize, fun k x hk => ?_⟩
  exact hhas k _ (by rw [List.getElem?_map, hk]; rfl)

theorem applyBinary_ok {op : Opcode} {a b r : Bus} {net net' : Netlist}
    (h : (applyBinary op a b).outcome net = (.ok r, net')) :
    ∃ (xs ys : List Nat) (ps : List (Nat × Nat)), a.slots = xs.map some ∧ b.slots = ys.map some ∧
      pairs xs ys = .ok ps ∧ r = .contiguous net.size ps.length ∧
      net'.size = net.size + ps.length ∧
      ∀ k p, ps[k]? = some p → net'.Has (net.size + k) op (some p.1) (some p.2) := by
  obtain ⟨xs, _, hx, h₁⟩ := outcome_bind_ok h
  obtain ⟨hxs, rfl⟩ := outcome_ofExcept_ok hx
  obtain ⟨ys, _, hy, h₂⟩ := outcome_bind_ok h₁
  obtain ⟨hys, rfl⟩ := outcome_ofExcept_ok hy
  obtain ⟨ps, _, hp, h₃⟩ := outcome_bind_ok h₂
  obtain ⟨hps, rfl⟩ := outcome_ofExcept_ok hp
  obtain ⟨_, _, hget, h₄⟩ := outcome_bind_ok h₃
  obtain ⟨rfl, rfl⟩ := outcome_get_ok hget
  obtain ⟨_, _, hall, h₅⟩ := outcome_bind_ok h₄
  cases h₅
  obtain ⟨_, hsize, hhas⟩ := allocateAll_ok hall
  rw [List.length_map] at hsize
  refine ⟨xs, ys, ps, Bus.gates_eq_ok.mp hxs, Bus.gates_eq_ok.mp hys, hps, rfl, hsize, fun k p hk => ?_⟩
  exact hhas k _ (by rw [List.getElem?_map, hk]; rfl)

theorem select_ok {selector : Nat} {a b r : Bus} {net net' : Netlist}
    (h : (select selector a b).outcome net = (.ok r, net')) :
    a.width = b.width ∧ ∃ inverted low high net₁ net₂ net₃,
      (allocate .not (some selector) none).outcome net = (.ok inverted, net₁) ∧
      (applyBinary .and a (.single inverted)).outcome net₁ = (.ok low, net₂) ∧
      (applyBinary .and b (.single selector)).outcome net₂ = (.ok high, net₃) ∧
      (applyBinary .or low high).outcome net₃ = (.ok r, net') := by
  rw [select] at h
  obtain ⟨hwidth, h₁⟩ := outcome_check_ok h
  obtain ⟨inverted, net₁, hnot, h₂⟩ := outcome_bind_ok h₁
  obtain ⟨low, net₂, hlow, h₃⟩ := outcome_bind_ok h₂
  obtain ⟨high, net₃, hhigh, hor⟩ := outcome_bind_ok h₃
  exact ⟨not_not.mp hwidth, inverted, low, high, net₁, net₂, net₃, hnot, hlow, hhigh, hor⟩

theorem reduce_ok {op : Opcode} {a : Bus} {gate : Nat} {net net' : Netlist}
    (h : (reduce op a).outcome net = (.ok gate, net')) :
    op.arity = 2 ∧ ∃ (x : Nat) (xs : List Nat), a.slots = (x :: xs).map some ∧
      (allocateTree op (.balanced x xs)).outcome net = (.ok gate, net') := by
  rw [reduce] at h
  obtain ⟨harity, h₁⟩ := outcome_check_ok h
  obtain ⟨gates, _, hg, h₂⟩ := outcome_bind_ok h₁
  obtain ⟨hgates, rfl⟩ := outcome_ofExcept_ok hg
  cases gates with
  | nil => cases h₂
  | cons x xs => exact ⟨not_not.mp harity, x, xs, Bus.gates_eq_ok.mp hgates, h₂⟩

/-! ### Inputs -/

/-- Gates to be driven from outside, from the next number on. -/
theorem allocateInputs_ok {n : Nat} {net net' : Netlist}
    (h : (allocateInputs n).outcome net = (.ok (), net')) :
    net'.size = net.size + n ∧ ∀ k < n, net'.Has (net.size + k) .passthrough none none := by
  induction n generalizing net with
  | zero =>
    cases h
    exact ⟨rfl, fun k hk => absurd hk (Nat.not_lt_zero k)⟩
  | succ n ih =>
    obtain ⟨gate, net₁, hfirst, hrest⟩ := outcome_bind_ok h
    obtain ⟨rfl, hsize₁, hhas⟩ := allocate_ok hfirst
    obtain ⟨hsize, hall⟩ := ih hrest
    have hret := ((grows_allocateInputs n).reached hrest).retains
    refine ⟨by omega, fun k hk => ?_⟩
    cases k with
    | zero => exact hhas.retains hret
    | succ k =>
      have := hall k (by omega)
      rwa [hsize₁, Nat.add_assoc, Nat.add_comm 1 k] at this

theorem ports_allocateInputs (n : Nat) (net : Netlist) :
    net.ports = ((allocateInputs n).outcome net).2.ports := by
  have h : (allocateInputs n).Keeps (InvImage Eq Netlist.ports) := by
    induction n with
    | zero => exact .pure ()
    | succ n ih => exact .bind (fun net => (ports_allocate _ _ _ net).symm) fun _ => ih
  exact h net

/-- The inputs are shown as a port, if there is room for them. -/
theorem outcome_addInput (name : String) (width : Nat) (net : Netlist) :
    (addInput name width).outcome net =
      match (allocateInputs width).outcome net with
      | (.ok (), net') =>
        (.ok (.contiguous net.size width), net'.registerPort name (.contiguous net.size width))
      | (.error e, net') => (.error e, net') := by
  rw [addInput, outcome_bind, outcome_get]
  dsimp only
  rw [outcome_bind]
  rcases (allocateInputs width).outcome net with ⟨_ | _, _⟩ <;> rfl

/-! ### Results are within the netlist -/

section Within
variable {net net' : Netlist} (hi : net.Intact)
include hi

theorem within_applyUnary {op : Opcode} {a r : Bus} (h : (applyUnary op a).outcome net = (.ok r, net')) :
    r.Within net' := by
  obtain ⟨xs, _, rfl, hsize, _⟩ := applyUnary_ok h
  have hi' := ((wires_applyUnary op a).reached h).grows.intact hi
  exact .contiguous hi' (Nat.le_of_eq hsize.symm)

theorem within_applyBinary {op : Opcode} {a b r : Bus}
    (h : (applyBinary op a b).outcome net = (.ok r, net')) : r.Within net' := by
  obtain ⟨_, _, ps, _, _, _, rfl, hsize, _⟩ := applyBinary_ok h
  have hi' := ((wires_applyBinary op a b).reached h).grows.intact hi
  exact .contiguous hi' (Nat.le_of_eq hsize.symm)

theorem within_select {selector : Nat} {a b r : Bus}
    (h : (select selector a b).outcome net = (.ok r, net')) : r.Within net' := by
  obtain ⟨_, inverted, low, high, net₁, net₂, net₃, hnot, hlow, hhigh, hor⟩ := select_ok h
  have hi₁ := ((grows_allocate .not (some selector) none).reached hnot).intact hi
  have hi₂ := ((wires_applyBinary .and a (.single inverted)).reached hlow).grows.intact hi₁
  have hi₃ := ((wires_applyBinary .and b (.single selector)).reached hhigh).grows.intact hi₂
  exact within_applyBinary hi₃ hor

theorem within_reduce {op : Opcode} {a : Bus} {gate : Nat} (ha : a.Within net)
    (h : (reduce op a).outcome net = (.ok gate, net')) : (Bus.single gate).Within net' := by
  have hi' := ((wires_reduce op a).reached h).grows.intact hi
  obtain ⟨_, x, xs, hslots, htree⟩ := reduce_ok h
  refine .single hi' ?_
  cases hb : Tree.balanced x xs with
  | leaf y =>
    rw [hb] at htree
    cases htree
    rw [Tree.balanced_eq_leaf hb] at hslots
    exact ha.bound gate (by rw [hslots]; exact List.mem_cons_self)
  | node left right =>
    rw [hb] at htree
    obtain ⟨l, net₁, _, h₁⟩ := outcome_bind_ok htree
    obtain ⟨r, net₂, _, h₂⟩ := outcome_bind_ok h₁
    exact (allocate_ok h₂).2.2.lt

theorem within_multiplexLevel {selector : Nat} {branches joined : List Bus}
    (hb : ∀ b ∈ branches, b.Within net)
    (h : (multiplexLevel selector branches).outcome net = (.ok joined, net')) :
    ∀ b ∈ joined, b.Within net' := by
  fun_induction multiplexLevel selector branches generalizing net joined with
  | case1 a b rest jp hab =>
    rename_i ih
    obtain ⟨_, _, hsame, h₁⟩ := outcome_bind_ok h
    cases hsame
    obtain ⟨more, net₁, hrest, h₂⟩ := outcome_bind_ok h₁
    cases h₂
    have hret := ((wires_multiplexLevel selector rest).reached hrest).grows.retains
    refine List.forall_mem_cons.mpr ⟨(hb a List.mem_cons_self).retains hret, ?_⟩
    exact ih hi (fun b hmem => hb b (List.mem_cons_of_mem _ (List.mem_cons_of_mem _ hmem))) hrest
  | case2 a b rest jp hab =>
    rename_i ih
    obtain ⟨first, net₁, hfirst, h₁⟩ := outcome_bind_ok h
    obtain ⟨more, net₂, hrest, h₂⟩ := outcome_bind_ok h₁
    cases h₂
    have hgrow := ((wires_select selector a b).reached hfirst).grows
    have hret := ((wires_multiplexLevel selector rest).reached hrest).grows.retains
    refine List.forall_mem_cons.mpr ⟨(within_select hi hfirst).retains hret, ?_⟩
    refine ih (hgrow.intact hi) (fun b hmem => ?_) hrest
    exact (hb b (List.mem_cons_of_mem _ (List.mem_cons_of_mem _ hmem))).retains hgrow.retains
  | case3 =>
    cases h
    exact hb

theorem within_multiplexLevels {index : Nat} {slots : List (Option Nat)} {branches out : List Bus}
    (hb : ∀ b ∈ branches, b.Within net)
    (h : (multiplexLevels index slots branches).outcome net = (.ok out, net')) :
    ∀ b ∈ out, b.Within net' := by
  fun_induction multiplexLevels index slots branches generalizing net with
  | case1 =>
    cases h
    exact hb
  | case2 => cases h
  | case3 index gate slots branches ih =>
    obtain ⟨halved, net₁, hlevel, h₁⟩ := outcome_bind_ok h
    have hgrow := ((wires_multiplexLevel gate branches).reached hlevel).grows
    exact ih halved (hgrow.intact hi) (within_multiplexLevel hi hb hlevel) h₁

theorem within_multiplex {selector r : Bus} {branches : List Bus} (hb : ∀ b ∈ branches, b.Within net)
    (h : (multiplex selector branches).outcome net = (.ok r, net')) : r.Within net' := by
  obtain ⟨_, hlevels⟩ := multiplex_ok h
  exact within_multiplexLevels hi hb hlevels r List.mem_cons_self

end Within

end Netlist

end BusLogic
