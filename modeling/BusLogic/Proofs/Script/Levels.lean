import BusLogic.Proofs.Netlist.Tick
import BusLogic.Proofs.Netlist.Wiring
import BusLogic.Proofs.Script.Reference

/-! What wired buses carry.

A valuation of the gates is consistent with a netlist when every combinational gate
carries the function of its pins, and the inputs carry what is given
(`Netlist.Consistent`). A valuation that is consistent with a netlist is so with all
that it grew from, which is why one valuation of the finished netlist serves for every
step of its construction. Under it, each bus operation that succeeds computes what the
reference evaluator says. -/
namespace BusLogic

/-- What the slots of a bus carry. -/
def Bus.bits (w : Nat → Bool) (b : Bus) : Script.Reference.Bits := b.slots.map (Option.map w)

namespace Tree

def map {α β : Type} (f : α → β) : Tree α → Tree β
  | .leaf a => .leaf (f a)
  | .node left right => .node (left.map f) (right.map f)

/-- The shape of the balanced tree depends on the number of items only. -/
theorem map_balanced {α β : Type} (f : α → β) (a : α) (rest : List α) :
    (balanced a rest).map f = balanced (f a) (rest.map f) := by
  fun_induction balanced a rest with
  | case1 a rest h =>
    rw [balanced, dif_pos (by rwa [List.length_map])]
    rfl
  | case2 a rest h half ihl ihr =>
    rw [map, ihl, ihr]
    conv => rhs; rw [balanced, dif_neg (by rwa [List.length_map])]
    simp only [List.length_map, List.map_take, List.map_drop, List.getElem_map, half]

end Tree

/-- What a combinational gate held has no part in its law. -/
theorem Opcode.Law.forget {op : Opcode} {old a b new : Bool} (h : op.Law old a b new)
    (hop : op.stores = false) : op.Law false a b new := by
  cases op <;> first | exact h | cases hop

namespace Netlist
open Attempt Script.Reference

/-- The gates that are driven from outside, in order. -/
def inputs (net : Netlist) : List Nat :=
  (List.range net.size).filter fun i => net.gates[i]?.any (·.opcode == .passthrough)

/-- Every combinational gate carries the function of its pins, and the inputs carry the
first of the given levels. -/
structure Consistent (net : Netlist) (w : Nat → Bool) (given : List Bool) : Prop where
  law : ∀ {i op in1 in2}, net.Has i op in1 in2 → op.stores = false →
    op.Law false (pinLevel w in1) (pinLevel w in2) (w i)
  inputs : net.inputs.map w <+: given

/-! ### Inputs -/

/-- Gates that are retained are inputs if they were. -/
theorem Retains.filter_inputs {net net' : Netlist} (h : Retains net net') :
    (List.range net.size).filter (fun i => net'.gates[i]?.any (·.opcode == .passthrough)) = net.inputs := by
  refine List.filter_congr fun i hi => ?_
  have hi : i < net.gates.size := List.mem_range.mp hi
  have hg : net.gates[i]? = some net.gates[i] := Array.getElem?_eq_getElem hi
  obtain ⟨g', hg', hs⟩ := h.gates i _ hg
  rw [hg, hg', Option.any_some, Option.any_some, hs.opcode]

/-- The inputs of a netlist come first in all it grows to. -/
theorem Retains.inputs {net net' : Netlist} (h : Retains net net') : net.inputs <+: net'.inputs := by
  obtain ⟨more, hmore⟩ := Nat.exists_eq_add_of_le h.size_le
  rw [← h.filter_inputs, Netlist.inputs, hmore, List.range_add, List.filter_append]
  exact List.prefix_append _ _

theorem inputs_push (net : Netlist) (op : Opcode) (in1 in2 : Option Nat) :
    (net.push op in1 in2).inputs = net.inputs ++ if op = .passthrough then [net.size] else [] := by
  obtain ⟨depth, hnew⟩ := push_new net op in1 in2
  rw [inputs, push_size, List.range_succ, List.filter_append, (retains_push net op in1 in2).filter_inputs,
    List.filter_cons, hnew, Option.any_some]
  by_cases hop : op = .passthrough <;> simp [hop]

theorem inputs_allocate {op : Opcode} {in1 in2 : Option Nat} {net net' : Netlist} {gate : Nat}
    (h : (allocate op in1 in2).outcome net = (.ok gate, net')) :
    net'.inputs = net.inputs ++ if op = .passthrough then [net.size] else [] := by
  rw [outcome_allocate] at h
  split at h
  · cases h
  · cases h
    exact inputs_push net op in1 in2

theorem inputs_allocateInputs {n : Nat} {net net' : Netlist}
    (h : (allocateInputs n).outcome net = (.ok (), net')) :
    net'.inputs = net.inputs ++ List.range' net.size n := by
  induction n generalizing net with
  | zero =>
    cases h
    exact (List.append_nil _).symm
  | succ n ih =>
    obtain ⟨gate, net₁, hfirst, hrest⟩ := outcome_bind_ok h
    obtain ⟨_, hsize, _⟩ := allocate_ok hfirst
    rw [ih hrest, inputs_allocate hfirst, hsize, List.range'_succ, List.append_assoc]
    rfl

/-- A gate that reads another is no input. -/
theorem Wires.inputs {net net' : Netlist} (h : Wires net net') : net.inputs = net'.inputs := by
  have hmin : InvImage Eq Netlist.inputs net net' := h.minimal fun net op x in2 hr => by
    have harity := (refusal?_eq_none hr).2.2.1
    have hop : op ≠ .passthrough := by
      rintro rfl
      simp [Opcode.arity] at harity
    show net.inputs = (net.push op (some x) in2).inputs
    rw [inputs_push, if_neg hop, List.append_nil]
  exact hmin

theorem Consistent.of_retains {net net' : Netlist} {w : Nat → Bool} {given : List Bool}
    (h : net'.Consistent w given) (hr : Retains net net') : net.Consistent w given :=
  ⟨fun hhas => h.law (hhas.retains hr), (hr.inputs.map w).trans h.inputs⟩

/-! ### The values a tick leaves -/

/-- Every gate holds the value it is given. -/
def preset (net : Netlist) (v : Nat → Bool) : Netlist :=
  { net with gates := net.gates.mapIdx fun i g => { g with value := v i } }

theorem revalued_preset (net : Netlist) (v : Nat → Bool) : Revalued net (net.preset v) := by
  refine ⟨fun j => ?_, rfl, rfl, rfl, rfl⟩
  simp only [preset, valueAt, Array.getElem?_mapIdx]
  cases net.gates[j]? with
  | none => rfl
  | some g => rfl

theorem Revalued.inputs {net net' : Netlist} (h : Revalued net net') : net'.inputs = net.inputs := by
  rw [← h.grows.retains.filter_inputs, Netlist.inputs, h.size]

theorem mem_inputs {net : Netlist} {i : Nat} (h : i ∈ net.inputs) :
    ∃ g, net.gates[i]? = some g ∧ g.opcode = .passthrough := by
  have hany := (List.mem_filter.mp h).2
  cases hg : net.gates[i]? with
  | none =>
    rw [hg] at hany
    cases hany
  | some g =>
    rw [hg] at hany
    exact ⟨g, rfl, beq_iff_eq.mp hany⟩

theorem preset_inputs (net : Netlist) (v : Nat → Bool) :
    (net.preset v).inputs.map (net.preset v).valueAt = net.inputs.map v := by
  rw [(revalued_preset net v).inputs]
  refine List.map_congr_left fun i hi => ?_
  obtain ⟨g, hg, _⟩ := mem_inputs hi
  rw [valueAt, preset, Array.getElem?_mapIdx, hg]
  rfl

/-- The values a tick leaves are consistent with the netlist, and with what its inputs
held. -/
theorem consistent_tick {net : Netlist} (hw : net.WellFormed) :
    net.Consistent net.tick.valueAt (net.inputs.map net.valueAt) := by
  have hsettled := tick_settled hw
  have hsame : net.inputs.map net.tick.valueAt = net.inputs.map net.valueAt := by
    refine List.map_congr_left fun i hi => ?_
    obtain ⟨g, hg, hop⟩ := mem_inputs hi
    have hlaw := hsettled i g hg
    rw [hop] at hlaw
    rw [valueAt_eq hg]
    exact hlaw
  refine ⟨?_, hsame ▸ List.prefix_rfl⟩
  rintro i op in1 in2 ⟨g, hg, rfl, rfl, rfl⟩ hop
  exact (hsettled i g hg).forget hop

/-! ### Levels of bound slots -/

theorem levels?_map_some (levels : List Bool) : levels? (levels.map some) = some levels := by
  induction levels with
  | nil => rfl
  | cons level rest ih => rw [List.map_cons, levels?, ih, Option.map_some]

variable {w : Nat → Bool}

theorem bits_of_slots {b : Bus} {xs : List Nat} (h : b.slots = xs.map some) :
    b.bits w = (xs.map w).map some := by
  rw [Bus.bits, h, List.map_map, List.map_map]
  rfl

theorem levels?_bits {b : Bus} {xs : List Nat} (h : b.slots = xs.map some) :
    levels? (b.bits w) = some (xs.map w) := by
  rw [bits_of_slots h, levels?_map_some]

/-- A run of gates carries a list of levels if each gate carries its own. -/
theorem bits_contiguous {α : Type} {start : Nat} {xs : List α} {f : α → Bool}
    (h : ∀ k x, xs[k]? = some x → w (start + k) = f x) :
    (Bus.contiguous start xs.length).bits w = (xs.map f).map some := by
  refine List.ext_getElem? fun k => ?_
  simp only [Bus.bits, Bus.slots, List.map_map, List.getElem?_map]
  cases hk : xs[k]? with
  | none =>
    rw [List.getElem?_eq_none (by simpa using List.getElem?_eq_none_iff.mp hk)]
    rfl
  | some x =>
    have hlt : k < xs.length := (List.getElem?_eq_some_iff.mp hk).1
    rw [List.getElem?_range' hlt, Option.map_some, Option.map_some, Nat.one_mul]
    simp only [Function.comp, Option.map_some, h k x hk]

/-! ### Operators -/

section Operators
variable {given : List Bool} {net net' : Netlist} (hc : net'.Consistent w given)
include hc

omit hc in
/-- Every binary operation but the latch has a function. -/
theorem function?_of_arity {op : Opcode} (harity : op.arity = 2) (hop : op ≠ .setReset) :
    ∃ f, function? op = some f := by
  cases op <;> first | exact absurd rfl hop | exact ⟨_, rfl⟩ | cases harity

theorem Consistent.not {i x : Nat} (h : net'.Has i .not (some x) none) : w i = !w x := hc.law h rfl

theorem Consistent.binary {i x y : Nat} {op : Opcode} {f : Bool → Bool → Bool}
    (h : net'.Has i op (some x) (some y)) (hf : function? op = some f) : w i = f (w x) (w y) := by
  cases op <;> cases hf <;> exact hc.law h rfl

theorem complement_bits {a r : Bus} (h : (applyUnary .not a).outcome net = (.ok r, net')) :
    complement (a.bits w) = some (r.bits w) := by
  obtain ⟨xs, hslots, rfl, _, hhas⟩ := applyUnary_ok h
  rw [complement, levels?_bits hslots, Option.map_some,
    bits_contiguous fun k x hk => hc.not (hhas k x hk), List.map_map, List.map_map]
  rfl

omit hc in
theorem zipLevels_pairs {xs ys : List Nat} {ps : List (Nat × Nat)} (f : Bool → Bool → Bool)
    (h : pairs xs ys = .ok ps) :
    zipLevels f (xs.map w) (ys.map w) = some (ps.map fun p => f (w p.1) (w p.2)) := by
  unfold zipLevels
  unfold pairs at h
  dsimp only at h
  rw [List.length_map, List.length_map]
  by_cases hlen : xs.length = ys.length
  · rw [if_pos hlen] at h ⊢
    cases h
    rw [List.zip, List.map_zipWith, List.zipWith_map]
  · rw [if_neg hlen] at h ⊢
    split at h
    · cases h
      simp [Function.comp_def]
    · rename_i y hone
      cases h
      rcases xs with _ | ⟨x, _ | ⟨x', xs⟩⟩
      · rfl
      · exact absurd rfl (hone x)
      · simp
    · cases h

omit hc in
theorem combine_map_some {op : Opcode} {f : Bool → Bool → Bool} (hf : function? op = some f)
    (left right : List Bool) :
    combine (left.map some) (op, right.map some) = (zipLevels f left right).map (List.map some) := by
  rw [combine, hf, levels?_map_some, levels?_map_some]
  simp only [Option.bind_eq_bind, Option.bind_some]
  cases zipLevels f left right <;> rfl

theorem combine_bits {op : Opcode} {a b r : Bus} {f : Bool → Bool → Bool} (hf : function? op = some f)
    (h : (applyBinary op a b).outcome net = (.ok r, net')) :
    combine (a.bits w) (op, b.bits w) = some (r.bits w) := by
  obtain ⟨xs, ys, ps, hx, hy, hp, rfl, _, hhas⟩ := applyBinary_ok h
  rw [bits_of_slots hx, bits_of_slots hy, combine_map_some hf, zipLevels_pairs f hp, Option.map_some,
    bits_contiguous fun k p hk => hc.binary (hhas k p hk) hf]

/-! ### Reductions -/

theorem allocateTree_level {op : Opcode} {f : Bool → Bool → Bool} (hf : function? op = some f)
    {tree : Tree Nat} {gate : Nat} (h : (allocateTree op tree).outcome net = (.ok gate, net')) :
    w gate = (tree.map w).fold f := by
  induction tree generalizing net net' gate with
  | leaf x =>
    cases h
    rfl
  | node left right ihl ihr =>
    obtain ⟨l, net₁, hl, h₁⟩ := outcome_bind_ok h
    obtain ⟨r, net₂, hr, h₂⟩ := outcome_bind_ok h₁
    have hret₂ := ((grows_allocate op (some l) (some r)).reached h₂).retains
    have hc₂ := hc.of_retains hret₂
    have hret₁ := ((wires_allocateTree op right).reached hr).grows.retains
    rw [hc.binary (allocate_ok h₂).2.2 hf, ihl (hc₂.of_retains hret₁) hl, ihr hc₂ hr]
    rfl

theorem reduce_bits {op : Opcode} {a : Bus} {gate : Nat} (hop : op ≠ .setReset)
    (h : (Netlist.reduce op a).outcome net = (.ok gate, net')) :
    Script.Reference.reduce op (a.bits w) = some (w gate) := by
  obtain ⟨harity, x, xs, hslots, htree⟩ := reduce_ok h
  obtain ⟨f, hf⟩ := function?_of_arity harity hop
  rw [Script.Reference.reduce, hf, levels?_bits hslots]
  simp only [Option.bind_eq_bind, Option.bind_some, List.map_cons]
  rw [allocateTree_level hc hf htree, Tree.map_balanced]
  rfl

/-! ### Multiplexers -/

omit hc in
/-- One level on the right meets every level on the left. -/
theorem zipLevels_singleton (f : Bool → Bool → Bool) (levels : List Bool) (x : Bool) :
    zipLevels f levels [x] = some (levels.map fun level => f level x) := by
  rcases levels with _ | ⟨a, _ | ⟨b, rest⟩⟩
  · rfl
  · rfl
  · rfl

omit hc in
theorem zipLevels_of_length {f : Bool → Bool → Bool} {as bs : List Bool} (h : as.length = bs.length) :
    zipLevels f as bs = some (List.zipWith f as bs) := by
  unfold zipLevels
  rw [if_pos h]

omit hc in
/-- Of two rows, one masked by a level and one by its complement, the other remains. -/
theorem zipWith_masked (s : Bool) {as bs : List Bool} (h : as.length = bs.length) :
    List.zipWith (fun a b => a || b) (as.map fun a => a && !s) (bs.map fun b => b && s) =
      if s then bs else as := by
  induction as generalizing bs with
  | nil =>
    cases bs with
    | nil => cases s <;> rfl
    | cons b bs => cases h
  | cons a as ih =>
    cases bs with
    | nil => cases h
    | cons b bs =>
      rw [List.map_cons, List.map_cons, List.zipWith_cons_cons, ih (Nat.succ.inj h)]
      cases s <;> simp

/-- A two-way multiplexer chooses, between buses that are bound throughout. -/
theorem select_bits {selector : Nat} {a b r : Bus}
    (h : (Netlist.select selector a b).outcome net = (.ok r, net')) :
    r.bits w = if w selector then b.bits w else a.bits w := by
  obtain ⟨hwidth, inverted, low, high, net₁, net₂, net₃, hnot, hlow, hhigh, hor⟩ := select_ok h
  have hret₃ := ((wires_applyBinary .or low high).reached hor).grows.retains
  have hc₃ := hc.of_retains hret₃
  have hret₂ := ((wires_applyBinary .and b (.single selector)).reached hhigh).grows.retains
  have hc₂ := hc₃.of_retains hret₂
  have hret₁ := ((wires_applyBinary .and a (.single inverted)).reached hlow).grows.retains
  have hinv := (hc₂.of_retains hret₁).not (allocate_ok hnot).2.2
  obtain ⟨xs, _, _, hx, _⟩ := applyBinary_ok hlow
  obtain ⟨ys, _, _, hy, _⟩ := applyBinary_ok hhigh
  have hlen : (xs.map w).length = (ys.map w).length := by
    rw [← Bus.length_slots, ← Bus.length_slots, hx, hy, List.length_map, List.length_map] at hwidth
    rw [List.length_map, List.length_map, hwidth]
  have hl := combine_bits hc₂ rfl hlow
  have hh := combine_bits hc₃ rfl hhigh
  have ho := combine_bits hc rfl hor
  have hsingle (x : Nat) : (Bus.single x).bits w = [w x].map some := rfl
  rw [bits_of_slots hx, hsingle, combine_map_some rfl, zipLevels_singleton, hinv, Option.map_some,
    Option.some.injEq] at hl
  rw [bits_of_slots hy, hsingle, combine_map_some rfl, zipLevels_singleton, Option.map_some,
    Option.some.injEq] at hh
  rw [← hl, ← hh, combine_map_some rfl, zipLevels_of_length (by simpa using hlen),
    zipWith_masked _ hlen, Option.map_some, Option.some.injEq] at ho
  rw [← ho, bits_of_slots hx, bits_of_slots hy]
  split <;> rfl

section Rows
variable {same : Bus → Bus → Bool} (hsame : ∀ a b, same a b = true → a.coincides b = true)
include hsame

/-- A level of multiplexers takes one of every two branches, and coinciding branches are
as good as one. -/
theorem multiplexLevelBy_bits {selector n : Nat} {row joined : List Bus} (hn : row.length = 2 * n)
    (h : (multiplexLevelBy same selector row).outcome net = (.ok joined, net')) (j : Nat) :
    (joined.map (Bus.bits w))[j]? = (row.map (Bus.bits w))[2 * j + (w selector).toNat]? := by
  fun_induction apart same row generalizing net joined n j with
  | case1 a b rest ih =>
    obtain ⟨c, more, net₁, rfl, hpair, hrest⟩ := multiplexLevelBy_ok h
    have hret := ((wires_multiplexLevelBy same selector rest).reached hrest).grows.retains
    have hc₁ : c.bits w = if w selector then b.bits w else a.bits w := by
      rcases hpair with ⟨hab, rfl, rfl⟩ | ⟨_, hselect⟩
      · obtain ⟨xs, ha, hb⟩ := Bus.coincides_iff.mp (hsame _ _ hab)
        rw [bits_of_slots ha, bits_of_slots hb]
        split <;> rfl
      · exact select_bits (hc.of_retains hret) hselect
    cases j with
    | zero => cases hs : w selector <;> simp [hc₁, hs]
    | succ j =>
      rw [List.length_cons, List.length_cons] at hn
      rw [show 2 * (j + 1) + (w selector).toNat = 2 * j + (w selector).toNat + 2 by omega]
      exact ih (n := n - 1) (by omega) hrest j
  | case2 row hshort =>
    obtain rfl := eq_nil_of_even hn hshort
    cases h
    rfl

/-- The levels of a selector pick the branch they number. -/
theorem multiplexLevelsBy_bits {index : Nat} {slots : List (Option Nat)} {branches out : List Bus}
    (hlen : branches.length = 2 ^ slots.length)
    (h : (multiplexLevelsBy same index slots branches).outcome net = (.ok out, net')) :
    ∃ xs : List Nat, slots = xs.map some ∧
      (out.map (Bus.bits w))[0]? = (branches.map (Bus.bits w))[number (xs.map w)]? := by
  fun_induction multiplexLevelsBy same index slots branches generalizing net with
  | case1 index branches =>
    cases h
    exact ⟨[], rfl, rfl⟩
  | case2 => cases h
  | case3 index gate slots branches ih =>
    obtain ⟨halved, net₁, hlevel, h₁⟩ := outcome_bind_ok h
    have hret := ((wires_multiplexLevelsBy same (index + 1) slots halved).reached h₁).grows.retains
    rw [List.length_cons, Nat.pow_succ, Nat.mul_comm] at hlen
    have hbits := multiplexLevelBy_bits (hc.of_retains hret) hsame hlen hlevel
    obtain ⟨xs, rfl, hout⟩ := ih halved (length_multiplexLevelBy hlen hlevel) h₁
    refine ⟨gate :: xs, rfl, ?_⟩
    rw [hout, hbits, List.map_cons, number, Nat.add_comm]

theorem multiplexBy_bits {selector r : Bus} {branches : List Bus}
    (h : (multiplexBy same selector branches).outcome net = (.ok r, net')) :
    ∃ xs : List Nat, selector.slots = xs.map some ∧
      (branches.map (Bus.bits w))[number (xs.map w)]? = some (r.bits w) := by
  obtain ⟨hcount, hlevels⟩ := multiplexBy_ok h
  obtain ⟨xs, hslots, hbits⟩ := multiplexLevelsBy_bits hc hsame (length_of_branches? hcount) hlevels
  exact ⟨xs, hslots, hbits.symm⟩

end Rows

theorem multiplex_bits {selector r : Bus} {branches : List Bus}
    (h : (multiplex selector branches).outcome net = (.ok r, net')) :
    ∃ levels, levels? (selector.bits w) = some levels ∧
      (branches.map (Bus.bits w))[number levels]? = some (r.bits w) := by
  rw [← multiplexBy_coincides] at h
  obtain ⟨xs, hslots, hbits⟩ := multiplexBy_bits hc (fun _ _ => id) h
  exact ⟨xs.map w, levels?_bits hslots, hbits⟩

end Operators

end Netlist

end BusLogic
