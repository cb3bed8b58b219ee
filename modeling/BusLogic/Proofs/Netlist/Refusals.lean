import BusLogic.Proofs.Netlist.Wiring

/-! What wiring may refuse.

An allocation checks its pins, and a multiplexer that it is left with one branch. Over
buses within the netlist neither check ever fails: the pins that an operation makes of
its buses are gates that are there, as many as its opcode takes, and halving a row of
`2 ^ n` branches `n` times leaves one. What is left to refuse is what the caller asked
for: more gates than there is room, buses whose widths do not fit, slots that are
unbound (`Error.Ordinary`). Only a reduction may be asked for with an opcode that takes
one input. -/
namespace BusLogic

/-- An error that is none of a gate's pins and none of an expression's form. -/
def Error.Ordinary : Error → Prop
  | .invalidPin _ _ | .invalidArity _ _ _ | .malformed _ => False
  | _ => True

theorem Bus.ordinary_boundFrom {index : Nat} {slots : List (Option Nat)} {e : Error}
    (h : boundFrom index slots = .error e) : e.Ordinary := by
  induction slots generalizing index with
  | nil => cases h
  | cons slot rest ih =>
    cases slot with
    | none =>
      cases h
      trivial
    | some gate =>
      rw [boundFrom] at h
      split at h
      · cases h
      · rename_i e' heq
        cases h
        exact ih heq

theorem Bus.ordinary_gates {b : Bus} {e : Error} (h : b.gates = .error e) : e.Ordinary := ordinary_boundFrom h

theorem Bus.ordinary_slice {b : Bus} {first last : Nat} {e : Error} (h : b.slice first last = .error e) :
    e.Ordinary := by
  unfold slice at h
  split at h
  · cases h
    trivial
  · split at h
    · cases h
      trivial
    · cases b with
      | contiguous start width => cases h
      | explicit slots =>
        dsimp only at h
        split at h <;> cases h

theorem Bus.ordinary_slot {b : Bus} {i : Nat} {e : Error} (h : b.slot i = .error e) : e.Ordinary := by
  unfold slot at h
  split at h
  · split at h
    · cases h
    · cases h
      trivial
  · split at h
    · cases h
    · cases h
      trivial

theorem Bus.ordinary_gate {b : Bus} {i : Nat} {e : Error} (h : b.gate i = .error e) : e.Ordinary := by
  unfold gate at h
  split at h
  · cases h
  · cases h
    trivial
  · rename_i e' hslot
    cases h
    exact ordinary_slot hslot

theorem Bus.ordinary_bind {b : Bus} {i gate : Nat} {e : Error} (h : b.bind i gate = .error e) :
    e.Ordinary := by
  unfold Bus.bind at h
  split at h
  · cases h
    split <;> trivial
  · split at h
    · cases h
      trivial
    · cases h
      trivial
    · cases h

theorem Bus.Within.gates {net : Netlist} {b : Bus} (h : b.Within net) {xs : List Nat} (hx : b.gates = .ok xs) :
    ∀ x ∈ xs, x < net.size := by
  intro x hmem
  apply h.bound
  rw [gates_eq_ok.mp hx]
  exact List.mem_map_of_mem hmem

namespace Netlist
open Attempt

/-! ### Allocations -/

/-- Gates that are there, as many as the opcode takes, a single one first. -/
structure Suited (net : Netlist) (op : Opcode) (in1 in2 : Option Nat) : Prop where
  before : ∀ pin ∈ in1.toList ++ in2.toList, pin < net.size
  count : in1.toList.length + in2.toList.length = op.arity
  first : op.arity = 1 → in1 ≠ none

theorem Suited.retains {net net' : Netlist} {op : Opcode} {in1 in2 : Option Nat} (h : net.Suited op in1 in2)
    (hr : net.Retains net') : net'.Suited op in1 in2 :=
  ⟨fun pin hpin => Nat.lt_of_lt_of_le (h.before pin hpin) hr.size_le, h.count, h.first⟩

theorem Suited.none {net : Netlist} {op : Opcode} (hop : op.arity = 0) : net.Suited op none none :=
  ⟨nofun, hop.symm, fun h => by omega⟩

theorem Suited.one {net : Netlist} {op : Opcode} (hop : op.arity = 1) {x : Nat} (hx : x < net.size) :
    net.Suited op (some x) .none :=
  ⟨by simpa using hx, hop.symm, fun _ => nofun⟩

theorem Suited.two {net : Netlist} {op : Opcode} (hop : op.arity = 2) {x y : Nat} (hx : x < net.size)
    (hy : y < net.size) : net.Suited op (some x) (some y) :=
  ⟨by simpa using ⟨hx, hy⟩, hop.symm, fun _ => nofun⟩

/-- Pins that suit are refused only for want of room. -/
theorem refusal?_suited {net : Netlist} {op : Opcode} {in1 in2 : Option Nat} {e : Error}
    (hs : net.Suited op in1 in2) (h : net.refusal? op in1 in2 = some e) : e = .capacityExceeded net.capacity := by
  unfold refusal? at h
  split at h
  · cases h
    rfl
  · split at h
    · rename_i pin hpin
      have hlt := hs.before pin (List.mem_of_find?_eq_some hpin)
      have hle := List.find?_some hpin
      simp only [decide_eq_true_eq] at hle
      omega
    · dsimp only at h
      split at h
      · rename_i hbad
        rcases hbad with hcount | ⟨hone, hnone⟩
        · exact absurd hs.count hcount
        · exact absurd hnone (hs.first hone)
      · cases h

section Fails
variable {net : Netlist}

theorem fails_allocate {op : Opcode} {in1 in2 : Option Nat} (hs : net.Suited op in1 in2) :
    (allocate op in1 in2).FailsOnly Error.Ordinary net := by
  intro e net' h
  rw [outcome_allocate] at h
  split at h
  · rename_i e' hr
    cases h
    rw [refusal?_suited hs hr]
    trivial
  · cases h

theorem fails_allocateAll {op : Opcode} {pins : List (Option Nat × Option Nat)}
    (hs : ∀ p ∈ pins, net.Suited op p.1 p.2) : (allocateAll op pins).FailsOnly Error.Ordinary net := by
  induction pins generalizing net with
  | nil => exact .pure ()
  | cons p rest ih =>
    refine .bind (fails_allocate (hs p List.mem_cons_self)) fun _ net₁ hfirst => ih fun q hq => ?_
    exact (hs q (List.mem_cons_of_mem p hq)).retains ((grows_allocate op p.1 p.2).reached hfirst).retains

theorem fails_allocateInputs (n : Nat) : (allocateInputs n).FailsOnly Error.Ordinary net := by
  induction n generalizing net with
  | zero => exact .pure ()
  | succ n ih => exact .bind (fails_allocate (.none rfl)) fun _ _ _ => ih

theorem fails_addInput (name : String) (width : Nat) : (addInput name width).FailsOnly Error.Ordinary net :=
  .bind .get fun _ _ _ => .bind (fails_allocateInputs width) fun _ _ _ =>
    .bind (.modify _) fun _ _ _ => .pure _

/-! ### Elementwise operations -/

theorem mem_pairs {xs ys : List Nat} {ps : List (Nat × Nat)} (h : pairs xs ys = .ok ps) {p : Nat × Nat}
    (hp : p ∈ ps) : p.1 ∈ xs ∧ p.2 ∈ ys := by
  unfold pairs at h
  dsimp only at h
  split at h
  · cases h
    exact ⟨(List.of_mem_zip hp).1, (List.of_mem_zip hp).2⟩
  · split at h
    · cases h
      simp only [List.mem_map] at hp
      obtain ⟨y, hy, rfl⟩ := hp
      exact ⟨List.mem_singleton_self _, hy⟩
    · cases h
      simp only [List.mem_map] at hp
      obtain ⟨x, hx, rfl⟩ := hp
      exact ⟨hx, List.mem_singleton_self _⟩
    · cases h

theorem ordinary_pairs {xs ys : List Nat} {e : Error} (h : pairs xs ys = .error e) : e.Ordinary := by
  unfold pairs at h
  dsimp only at h
  split at h
  · cases h
  · split at h
    · cases h
    · cases h
    · cases h
      trivial

theorem fails_applyUnary {op : Opcode} {a : Bus} (hop : op.arity = 1) (ha : a.Within net) :
    (applyUnary op a).FailsOnly Error.Ordinary net := by
  refine .bind (.ofExcept fun _ => Bus.ordinary_gates) fun xs _ hx => ?_
  obtain ⟨hxs, rfl⟩ := outcome_ofExcept_ok hx
  refine .bind .get fun _ _ hget => ?_
  obtain ⟨_, rfl⟩ := outcome_get_ok hget
  refine .bind (fails_allocateAll fun p hp => ?_) fun _ _ _ => .pure _
  simp only [List.mem_map] at hp
  obtain ⟨x, hmem, rfl⟩ := hp
  exact .one hop (ha.gates hxs x hmem)

theorem fails_applyBinary {op : Opcode} {a b : Bus} (hop : op.arity = 2) (ha : a.Within net)
    (hb : b.Within net) : (applyBinary op a b).FailsOnly Error.Ordinary net := by
  refine .bind (.ofExcept fun _ => Bus.ordinary_gates) fun xs _ hx => ?_
  obtain ⟨hxs, rfl⟩ := outcome_ofExcept_ok hx
  refine .bind (.ofExcept fun _ => Bus.ordinary_gates) fun ys _ hy => ?_
  obtain ⟨hys, rfl⟩ := outcome_ofExcept_ok hy
  refine .bind (.ofExcept fun _ => ordinary_pairs) fun ps _ hp => ?_
  obtain ⟨hps, rfl⟩ := outcome_ofExcept_ok hp
  refine .bind .get fun _ _ hget => ?_
  obtain ⟨_, rfl⟩ := outcome_get_ok hget
  refine .bind (fails_allocateAll fun p hmem => ?_) fun _ _ _ => .pure _
  simp only [List.mem_map] at hmem
  obtain ⟨q, hq, rfl⟩ := hmem
  have hmem := mem_pairs hps hq
  exact .two hop (ha.gates hxs _ hmem.1) (hb.gates hys _ hmem.2)

/-! ### Reductions -/

/-- The gate at the root of a tree over gates that are there is there as well. -/
theorem allocateTree_lt {op : Opcode} {tree : Tree Nat} {gate : Nat} {net' : Netlist}
    (ht : ∀ x ∈ tree.toList, x < net.size) (h : (allocateTree op tree).outcome net = (.ok gate, net')) :
    gate < net'.size := by
  cases tree with
  | leaf x =>
    cases h
    exact ht gate (List.mem_singleton_self gate)
  | node left right =>
    obtain ⟨l, net₁, _, h₁⟩ := outcome_bind_ok h
    obtain ⟨r, net₂, _, h₂⟩ := outcome_bind_ok h₁
    exact (allocate_ok h₂).2.2.lt

theorem fails_allocateTree {op : Opcode} (hop : op.arity = 2) {tree : Tree Nat}
    (ht : ∀ x ∈ tree.toList, x < net.size) : (allocateTree op tree).FailsOnly Error.Ordinary net := by
  induction tree generalizing net with
  | leaf x => exact .pure x
  | node left right ihl ihr =>
    have hleft : ∀ x ∈ left.toList, x < net.size := fun x hx => ht x (List.mem_append_left _ hx)
    refine .bind (ihl hleft) fun l net₁ hl => ?_
    have hret := ((wires_allocateTree op left).reached hl).grows.retains
    have hright : ∀ x ∈ right.toList, x < net₁.size :=
      fun x hx => Nat.lt_of_lt_of_le (ht x (List.mem_append_right _ hx)) hret.size_le
    refine .bind (ihr hright) fun r net₂ hr => fails_allocate (.two hop ?_ (allocateTree_lt hright hr))
    have hret₂ := ((wires_allocateTree op right).reached hr).grows.retains
    exact Nat.lt_of_lt_of_le (allocateTree_lt hleft hl) hret₂.size_le

theorem toList_balanced {α : Type} (x : α) (xs : List α) : (Tree.balanced x xs).toList = x :: xs := by
  fun_induction Tree.balanced x xs with
  | case1 x xs h =>
    rw [List.length_eq_zero_iff.mp h]
    rfl
  | case2 x xs h half ihl ihr =>
    rw [Tree.toList, ihl, ihr, List.cons_append, List.cons.injEq]
    refine ⟨rfl, ?_⟩
    rw [List.getElem_cons_drop, List.take_append_drop]

/-- A reduction with an opcode of one input is refused as such; otherwise nothing is
refused but what the bus and the room do not allow. -/
theorem fails_reduce {op : Opcode} {a : Bus} (ha : a.Within net) :
    (reduce op a).FailsOnly (fun e => e.Ordinary ∨ op.arity ≠ 2 ∧ e = .invalidArity op op.arity 2) net := by
  rw [reduce]
  refine .check (fun hop => .inr ⟨hop, rfl⟩) fun hop => ?_
  refine .bind (.ofExcept fun e he => .inl (Bus.ordinary_gates he)) fun xs _ hx => ?_
  obtain ⟨hxs, rfl⟩ := outcome_ofExcept_ok hx
  cases xs with
  | nil => exact .throw (.inl trivial)
  | cons x xs =>
    refine (fails_allocateTree (not_not.mp hop) fun y hy => ?_).mono fun e he => .inl he
    rw [toList_balanced] at hy
    exact ha.gates hxs y hy

/-! ### Multiplexers -/

theorem fails_select (hi : net.Intact) {selector : Nat} {a b : Bus} (hsel : selector < net.size)
    (ha : a.Within net) (hb : b.Within net) : (select selector a b).FailsOnly Error.Ordinary net := by
  rw [select]
  refine .check (fun _ => trivial) fun _ => ?_
  refine .bind (fails_allocate (.one rfl hsel)) fun inverted net₁ hnot => ?_
  have hg₁ := (grows_allocate .not (some selector) none).reached hnot
  have hinv : (Bus.single inverted).Within net₁ := .single (hg₁.intact hi) (allocate_ok hnot).2.2.lt
  refine .bind (fails_applyBinary rfl (ha.retains hg₁.retains) hinv) fun low net₂ hlow => ?_
  have hg₂ := ((wires_applyBinary .and a (.single inverted)).reached hlow).grows
  have hi₂ := hg₂.intact (hg₁.intact hi)
  have hret₂ := hg₁.retains.trans hg₂.retains
  have hsel₂ : (Bus.single selector).Within net₂ := .single hi₂ (Nat.lt_of_lt_of_le hsel hret₂.size_le)
  refine .bind (fails_applyBinary rfl (hb.retains hret₂) hsel₂) fun high net₃ hhigh => ?_
  have hg₃ := ((wires_applyBinary .and b (.single selector)).reached hhigh).grows
  have hlow₂ := within_applyBinary (hg₁.intact hi) hlow
  exact fails_applyBinary rfl (hlow₂.retains hg₃.retains) (within_applyBinary hi₂ hhigh)

theorem fails_multiplexLevel (hi : net.Intact) {selector : Nat} {row : List Bus} (hsel : selector < net.size)
    (hrow : ∀ b ∈ row, b.Within net) : (multiplexLevel selector row).FailsOnly Error.Ordinary net := by
  fun_induction multiplexLevel selector row generalizing net with
  | case1 a b rest jp hab =>
    rename_i ih
    refine .bind (.pure a) fun _ net₁ hsame => .bind ?_ fun _ _ _ => .pure _
    cases hsame
    exact ih hi hsel fun c hc => hrow c (List.mem_cons_of_mem a (List.mem_cons_of_mem b hc))
  | case2 a b rest jp hab =>
    rename_i ih
    have ha := hrow a List.mem_cons_self
    have hb := hrow b (List.mem_cons_of_mem a List.mem_cons_self)
    refine .bind (fails_select hi hsel ha hb) fun _ net₁ hfirst => .bind ?_ fun _ _ _ => .pure _
    have hg := ((wires_select selector a b).reached hfirst).grows
    refine ih (hg.intact hi) (Nat.lt_of_lt_of_le hsel hg.retains.size_le) fun c hc => ?_
    exact (hrow c (List.mem_cons_of_mem a (List.mem_cons_of_mem b hc))).retains hg.retains
  | case3 => exact .pure _

theorem fails_multiplexLevels (hi : net.Intact) {index : Nat} {slots : List (Option Nat)} {row : List Bus}
    (hslots : ∀ gate, some gate ∈ slots → gate < net.size) (hrow : ∀ b ∈ row, b.Within net) :
    (multiplexLevels index slots row).FailsOnly Error.Ordinary net := by
  fun_induction multiplexLevels index slots row generalizing net with
  | case1 => exact .pure _
  | case2 => exact .throw trivial
  | case3 index gate slots row ih =>
    have hgate := hslots gate List.mem_cons_self
    refine .bind (fails_multiplexLevel hi hgate hrow) fun halved net₁ hlevel => ?_
    have hg := ((wires_multiplexLevel gate row).reached hlevel).grows
    refine ih halved (hg.intact hi) (fun x hx => ?_) (within_multiplexLevel hi hrow hlevel)
    exact Nat.lt_of_lt_of_le (hslots x (List.mem_cons_of_mem _ hx)) hg.retains.size_le

theorem fails_multiplex (hi : net.Intact) {selector : Bus} {row : List Bus} (hsel : selector.Within net)
    (hrow : ∀ b ∈ row, b.Within net) : (multiplex selector row).FailsOnly Error.Ordinary net := by
  rw [multiplex]
  refine .check (fun _ => trivial) fun hcount => ?_
  refine .bind (fails_multiplexLevels hi hsel.bound hrow) fun out net₁ hlevels => ?_
  have hlen : out.length = 1 := by
    apply length_multiplexLevels _ hlevels
    rw [Nat.mul_one]
    exact length_of_branches? (not_not.mp hcount)
  obtain ⟨b, rfl⟩ := List.length_eq_one_iff.mp hlen
  exact .pure b

end Fails

end Netlist

end BusLogic
