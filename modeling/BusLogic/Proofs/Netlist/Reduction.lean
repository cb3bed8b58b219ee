import BusLogic.Proofs.Netlist.Fitting
import BusLogic.Proofs.Netlist.Tally
import BusLogic.Proofs.Script.Levels
import Mathlib.Data.Nat.Log

/-! Reductions by balanced trees.

A tree over `n` gates takes `n - 1` gates and is as deep as it is high; the balanced tree
over `n` gates is `⌈log₂ n⌉` high (`height_balanced`). It splits its row after the first
half, the odd item included (`fold_balanced`), so an operation that does not depend on how
a row is split reduces to what it says of the whole row (`fold_eq_of_append`). Where the
room does not suffice, the gates of the tree fill it (`allocateTree_cases`). -/
namespace BusLogic

namespace Tree

def height {α : Type} : Tree α → Nat
  | .leaf _ => 0
  | .node left right => max left.height right.height + 1

/-- Halving a row, the odd item on the left, takes as many steps as its length has binary
digits, rounded up. -/
theorem height_balanced {α : Type} (a : α) (rest : List α) :
    (balanced a rest).height = Nat.clog 2 (rest.length + 1) := by
  fun_induction balanced a rest with
  | case1 a rest h =>
    rw [h]
    rfl
  | case2 a rest h half ihl ihr =>
    have hclog : Nat.clog 2 (rest.length + 1) = Nat.clog 2 ((rest.length + 1 + 2 - 1) / 2) + 1 :=
      Nat.clog_of_two_le (by omega) (by omega)
    have hleft : min half rest.length + 1 = (rest.length + 1 + 2 - 1) / 2 := by omega
    have hright : rest.length - (half + 1) + 1 ≤ (rest.length + 1 + 2 - 1) / 2 := by omega
    rw [height, ihl, ihr, List.length_take, List.length_drop, hclog, hleft,
      max_eq_left (Nat.clog_mono_right 2 hright)]

theorem one_le_length_toList {α : Type} (tree : Tree α) : 1 ≤ tree.toList.length := by
  induction tree with
  | leaf a => exact Nat.le_refl 1
  | node left right ihl ihr =>
    rw [toList, List.length_append]
    omega

/-- An operation that a row's halves determine for the row takes the same value over every
tree. -/
theorem fold_eq_of_append {α : Type} {f : α → α → α} (value : List α → α) (hone : ∀ a, value [a] = a)
    (happend : ∀ xs ys, value (xs ++ ys) = f (value xs) (value ys)) (tree : Tree α) :
    tree.fold f = value tree.toList := by
  induction tree with
  | leaf a => exact (hone a).symm
  | node left right ihl ihr => rw [fold, toList, happend, ihl, ihr]

end Tree

/-- The value of a row that is split after its first half, the odd item included, until
single items are left. -/
def halving (f : Bool → Bool → Bool) (row : List Bool) : Bool :=
  if row.length ≤ 1 then row.headD false
  else f (halving f (row.take ((row.length + 1) / 2))) (halving f (row.drop ((row.length + 1) / 2)))
termination_by row.length
decreasing_by
  · rw [List.length_take]
    omega
  · rw [List.length_drop]
    omega

theorem Tree.fold_balanced (f : Bool → Bool → Bool) (a : Bool) (rest : List Bool) :
    (balanced a rest).fold f = halving f (a :: rest) := by
  fun_induction balanced a rest with
  | case1 a rest h =>
    rw [List.length_eq_zero_iff.mp h, halving, if_pos (by simp)]
    rfl
  | case2 a rest h half ihl ihr =>
    have hhalf : (rest.length + 1 + 1) / 2 = half + 1 := by omega
    rw [fold, ihl, ihr]
    conv_rhs => rw [halving, List.length_cons, if_neg (by omega), hhalf, List.take_succ_cons, List.drop_succ_cons]
    rw [List.getElem_cons_drop]

/-- What a row of levels is reduced to, said of the row as a whole where the operation does
not depend on how it is split. -/
def Opcode.reduction? (op : Opcode) (row : List Bool) : Option Bool :=
  match op with
  | .and => some (row.all id)
  | .or => some (row.any id)
  | .xor => some (row.countP id % 2 = 1)
  | .nand => some (halving (fun a b => !(a && b)) row)
  | .nor => some (halving (fun a b => !(a || b)) row)
  | _ => none

theorem Opcode.fold_of_reduction? {op : Opcode} {a value : Bool} {rest : List Bool}
    (h : value ∈ op.reduction? (a :: rest)) :
    ∃ f, Script.Reference.function? op = some f ∧ (Tree.balanced a rest).fold f = value := by
  cases op with
  | and =>
    cases h
    refine ⟨_, rfl, ?_⟩
    rw [Tree.fold_eq_of_append (fun row => row.all id) (by simp) (by simp), Netlist.toList_balanced]
  | or =>
    cases h
    refine ⟨_, rfl, ?_⟩
    rw [Tree.fold_eq_of_append (fun row => row.any id) (by simp) (by simp), Netlist.toList_balanced]
  | xor =>
    cases h
    refine ⟨_, rfl, ?_⟩
    rw [Tree.fold_eq_of_append (fun row => decide (row.countP id % 2 = 1)) ?_ ?_, Netlist.toList_balanced]
    · decide
    · intro xs ys
      rw [List.countP_append]
      rcases Nat.mod_two_eq_zero_or_one (xs.countP id) with hx | hx <;>
        rcases Nat.mod_two_eq_zero_or_one (ys.countP id) with hy | hy <;> simp [Nat.add_mod, hx, hy]
  | nand =>
    cases h
    exact ⟨_, rfl, Tree.fold_balanced _ a rest⟩
  | nor =>
    cases h
    exact ⟨_, rfl, Tree.fold_balanced _ a rest⟩
  | _ => cases h

namespace Netlist
open Attempt

/-- Gates are added, and all of them are of one operation. -/
structure AppendsOnly (op : Opcode) (net net' : Netlist) : Prop where
  appends : Appends net net'
  opcode : ∀ (i : Nat) (g : Gate), net.size ≤ i → net'.gates[i]? = some g → g.opcode = op

instance (op : Opcode) : IsPreorder Netlist (AppendsOnly op) where
  refl net := ⟨refl net, fun i g hi hg => absurd (Array.getElem?_eq_some_iff.mp hg).1 (Nat.not_lt.mpr hi)⟩
  trans a b c hab hbc := by
    refine ⟨IsTrans.trans _ _ _ hab.appends hbc.appends, fun i g hi hg => ?_⟩
    by_cases hb : i < b.gates.size
    · -- a gate that was there in between has kept its operation
      have hold : b.gates[i]? = some b.gates[i] := Array.getElem?_eq_getElem hb
      obtain ⟨usage, hnew⟩ := hbc.appends i _ hold
      rw [hnew] at hg
      cases hg
      have hop := hab.opcode i _ hi hold
      exact hop
    · exact hbc.opcode i g (Nat.not_lt.mp hb) hg

section Trees
variable {net net' : Netlist} {op : Opcode}

theorem appendsOnly_allocate (op : Opcode) (in1 in2 : Option Nat) :
    (allocate op in1 in2).Keeps (AppendsOnly op) := by
  refine keeps_allocate fun net _ => ⟨fun _ _ hg => push_old net op in1 in2 hg, fun i g hi hg => ?_⟩
  rcases push_cases net op in1 in2 hg with ⟨g', hold, _⟩ | ⟨_, rfl⟩
  · exact absurd (Array.getElem?_eq_some_iff.mp hold).1 (Nat.not_lt.mpr hi)
  · rfl

theorem appendsOnly_allocateTree (op : Opcode) (tree : Tree Nat) :
    (allocateTree op tree).Keeps (AppendsOnly op) := by
  induction tree with
  | leaf gate => exact .pure gate
  | node left right ihl ihr => exact .bind ihl fun l => .bind ihr fun r => appendsOnly_allocate op _ _

/-- One gate less than the tree has leaves. -/
theorem allocateTree_size {tree : Tree Nat} {gate : Nat}
    (h : (allocateTree op tree).outcome net = (.ok gate, net')) :
    net'.size + 1 = net.size + tree.toList.length := by
  induction tree generalizing net net' gate with
  | leaf x =>
    cases h
    rfl
  | node left right ihl ihr =>
    obtain ⟨l, net₁, hl, h₁⟩ := outcome_bind_ok h
    obtain ⟨r, net₂, hr, h₂⟩ := outcome_bind_ok h₁
    have hleft := ihl hl
    have hright := ihr hr
    have hnode := (allocate_ok h₂).2.1
    rw [Tree.toList, List.length_append]
    omega

theorem Retains.depthAt {x : Nat} (h : Retains net net') (hx : x < net.size) : net'.depthAt x = net.depthAt x := by
  have hg : net.gates[x]? = some net.gates[x] := Array.getElem?_eq_getElem hx
  obtain ⟨g', hg', hsame⟩ := h.gates x _ hg
  rw [depthAt_eq hg, depthAt_eq hg', hsame.depth]

/-- A new gate is one deeper than the deeper of its pins. -/
theorem depthAt_allocate {x y gate d : Nat} (hx : net.depthAt x ≤ d) (hy : net.depthAt y ≤ d)
    (h : (allocate op (some x) (some y)).outcome net = (.ok gate, net')) : net'.depthAt gate ≤ d + 1 := by
  rw [outcome_allocate] at h
  split at h
  · cases h
  · cases h
    rw [depthAt_eq (push_last net op (some x) (some y))]
    rcases (depthOver_spec net ((some x).toList ++ (some y).toList)).1 with hzero | ⟨pin, hpin, hdepth⟩
    · show net.depthOver _ ≤ d + 1
      omega
    · show net.depthOver _ ≤ d + 1
      rcases List.mem_append.mp hpin with hpin | hpin
      · cases Option.mem_toList.mp hpin
        omega
      · cases Option.mem_toList.mp hpin
        omega

/-- The root of a tree is no deeper below its leaves than the tree is high. -/
theorem allocateTree_depth {tree : Tree Nat} {gate d : Nat} (hlt : ∀ x ∈ tree.toList, x < net.size)
    (hdepth : ∀ x ∈ tree.toList, net.depthAt x ≤ d)
    (h : (allocateTree op tree).outcome net = (.ok gate, net')) : net'.depthAt gate ≤ d + tree.height := by
  induction tree generalizing net net' gate with
  | leaf x =>
    cases h
    exact hdepth x (List.mem_singleton_self x)
  | node left right ihl ihr =>
    obtain ⟨l, net₁, hl, h₁⟩ := outcome_bind_ok h
    obtain ⟨r, net₂, hr, h₂⟩ := outcome_bind_ok h₁
    obtain ⟨hltl, hltr⟩ := List.forall_mem_append.mp hlt
    obtain ⟨hdl, hdr⟩ := List.forall_mem_append.mp hdepth
    have hret₁ := ((wires_allocateTree op left).reached hl).grows.retains
    have hret₂ := ((wires_allocateTree op right).reached hr).grows.retains
    have hltr₁ : ∀ x ∈ right.toList, x < net₁.size := fun x hx => Nat.lt_of_lt_of_le (hltr x hx) hret₁.size_le
    have hleft : net₂.depthAt l ≤ d + left.height := by
      rw [hret₂.depthAt (allocateTree_lt hltl hl)]
      exact ihl hltl hdl hl
    have hright : net₂.depthAt r ≤ d + right.height := by
      refine ihr hltr₁ (fun x hx => ?_) hr
      rw [hret₁.depthAt (hltr x hx)]
      exact hdr x hx
    have hroot := depthAt_allocate (d := d + max left.height right.height) (by omega) (by omega) h₂
    rw [Tree.height]
    omega

/-- With room for all its gates a tree is built; otherwise its gates take all the room there
is. -/
theorem allocateTree_cases (hi : net.Intact) (hop : op.arity = 2) {tree : Tree Nat}
    (hlt : ∀ x ∈ tree.toList, x < net.size) :
    (∃ gate net', (allocateTree op tree).outcome net = (.ok gate, net') ∧
        net.size + tree.toList.length ≤ net.capacity + 1) ∨
      ∃ net', (allocateTree op tree).outcome net = (.error (.capacityExceeded net.capacity), net') ∧
        net'.size = net.capacity ∧ net.capacity + 1 < net.size + tree.toList.length := by
  induction tree generalizing net with
  | leaf x => exact .inl ⟨x, net, rfl, Nat.succ_le_succ hi.room⟩
  | node left right ihl ihr =>
    have hrpos := right.one_le_length_toList
    obtain ⟨hltl, hltr⟩ := List.forall_mem_append.mp hlt
    rw [Tree.toList, List.length_append, allocateTree]
    rcases ihl hi hltl with ⟨l, net₁, hl, _⟩ | ⟨net₁, hl, hfull, _⟩
    · have hgrown₁ := ((wires_allocateTree op left).reached hl).grows
      have hcap₁ := hgrown₁.retains.capacity
      have hsize₁ := allocateTree_size hl
      have hltr₁ : ∀ x ∈ right.toList, x < net₁.size :=
        fun x hx => Nat.lt_of_lt_of_le (hltr x hx) hgrown₁.retains.size_le
      rcases ihr (hgrown₁.intact hi) hltr₁ with ⟨r, net₂, hr, _⟩ | ⟨net₂, hr, hfull, _⟩
      · have hgrown₂ := ((wires_allocateTree op right).reached hr).grows
        have hcap₂ := hgrown₂.retains.capacity
        have hsize₂ := allocateTree_size hr
        have hroom₂ := (hgrown₂.intact (hgrown₁.intact hi)).room
        have hl₂ : l < net₂.size := Nat.lt_of_lt_of_le (allocateTree_lt hltl hl) hgrown₂.retains.size_le
        have hsuited : net₂.Suited op (some l) (some r) := .two hop hl₂ (allocateTree_lt hltr₁ hr)
        by_cases hspace : net₂.size < net₂.capacity
        · refine .inl ⟨net₂.size, net₂.push op (some l) (some r), ?_, by omega⟩
          simp only [outcome_bind, hl, hr, allocate_of_suited hsuited hspace]
        · refine .inr ⟨net₂, ?_, by omega, by omega⟩
          obtain ⟨e, he⟩ : ∃ e, net₂.refusal? op (some l) (some r) = some e := by
            refine Option.ne_none_iff_exists'.mp fun hnone => hspace (refusal?_eq_none hnone).1
          simp only [outcome_bind, hl, hr, outcome_allocate, he, refusal?_suited hsuited he, hcap₂, hcap₁]
      · refine .inr ⟨net₂, ?_, by omega, by omega⟩
        simp only [outcome_bind, hl, hr, hcap₁]
    · refine .inr ⟨net₁, ?_, hfull, by omega⟩
      simp only [outcome_bind, hl]

end Trees

/-- **A reduction is a balanced tree.** Over any gates, repeated or not, it takes one gate
less than there are bits, all of its operation, and is no deeper than the deepest bit and
the binary logarithm of their number, rounded up. After a tick of all that the netlist may
grow to, the gate that it answers with holds the conjunction, disjunction or parity of the
bits, or what halving their row gives. Without the room for it, the netlist is filled. -/
theorem reduce_balanced (net : Netlist) (hi : net.Intact) (op : Opcode) (hop : op.arity = 2) (a : Bus)
    (xs : List Nat) (ha : a.slots = xs.map some) (hxs : xs ≠ []) (hlt : ∀ x ∈ xs, x < net.size) :
    (xs.length - 1 ≤ net.capacity - net.size →
      ∃ gate net', (reduce op a).outcome net = (.ok gate, net') ∧ net'.Intact ∧ gate < net'.size ∧
        net.AppendsOnly op net' ∧ net'.size = net.size + (xs.length - 1) ∧
        net'.depthAt gate ≤ (xs.map net.depthAt).max?.getD 0 + Nat.clog 2 xs.length ∧
        ∀ later, net'.Retains later → later.WellFormed →
          ∀ value ∈ op.reduction? (xs.map later.tick.valueAt), later.tick.valueAt gate = value) ∧
      (net.capacity - net.size < xs.length - 1 →
        ∃ net', (reduce op a).outcome net = (.error (.capacityExceeded net.capacity), net') ∧
          net.AppendsOnly op net' ∧ net'.size = net.capacity) := by
  obtain ⟨x, xs, rfl⟩ := List.exists_cons_of_ne_nil hxs
  have hout : (reduce op a).outcome net = (allocateTree op (.balanced x xs)).outcome net := by
    rw [reduce, if_neg (not_not.mpr hop)]
    simp only [outcome_bind, outcome_ofExcept, Bus.gates_eq_ok.mpr ha]
  have hleaves : (Tree.balanced x xs).toList = x :: xs := toList_balanced x xs
  have hbelow : ∀ y ∈ (Tree.balanced x xs).toList, y < net.size := by rwa [hleaves]
  have hroom := hi.room
  rcases allocateTree_cases hi hop hbelow with ⟨gate, net', h, hfits⟩ | ⟨net', h, hfull, hshort⟩
  · rw [hleaves] at hfits
    refine ⟨fun _ => ?_, fun hless => absurd hfits (by omega)⟩
    have hsize := allocateTree_size h
    have hgrown := ((wires_allocateTree op (.balanced x xs)).reached h).grows
    rw [hleaves, List.length_cons] at hsize
    refine ⟨gate, net', hout.trans h, hgrown.intact hi, allocateTree_lt hbelow h,
      (appendsOnly_allocateTree op _).reached h, by rw [List.length_cons]; omega, ?_, ?_⟩
    · rw [List.length_cons, ← Tree.height_balanced x xs]
      refine allocateTree_depth hbelow (fun y hy => ?_) h
      rw [hleaves] at hy
      exact List.le_max?_getD_of_mem (List.mem_map_of_mem hy)
    · intro later hret hw value hvalue
      obtain ⟨f, hf, hfold⟩ := Opcode.fold_of_reduction? hvalue
      rw [allocateTree_level ((consistent_tick hw).of_retains hret) hf h, Tree.map_balanced]
      exact hfold
  · rw [hleaves, List.length_cons] at hshort
    refine ⟨fun hfits => absurd hshort ?_, fun _ => ?_⟩
    · rw [List.length_cons] at hfits
      omega
    · exact ⟨net', hout.trans h, (appendsOnly_allocateTree op _).reached h, hfull⟩

/-- Three inputs, the first of them high, and room for five more gates. -/
def inputsSample : Netlist :=
  { Netlist.empty {} with
    gates := #[⟨.passthrough, none, none, true, 0, 0⟩, ⟨.passthrough, none, none, false, 0, 0⟩,
      ⟨.passthrough, none, none, false, 0, 0⟩]
    capacity := 8 }

/-- Five bits over three gates, one after the other and again. -/
def repeatedSample : Bus := .explicit [some 0, some 1, some 0, some 2, some 0]

/-- Four gates reduce five bits, whose parity is that of the three high ones; seven bits do
not fit. -/
theorem reduce_balanced_inputsSample :
    (∃ gate net', (reduce .xor repeatedSample).outcome inputsSample = (.ok gate, net') ∧ net'.size = 7 ∧
        net'.depthAt gate ≤ 3 ∧ net'.tick.valueAt gate = true) ∧
      ∃ net', (reduce .nand (repeatedSample ++ .contiguous 1 2)).outcome inputsSample =
        (.error (.capacityExceeded 8), net') ∧ net'.size = 8 := by
  have hi : inputsSample.Intact := ⟨by decide, by decide⟩
  constructor
  · obtain ⟨gate, net', hok, hi', _, _, hsize, hdepth, hvalue⟩ :=
      (reduce_balanced inputsSample hi .xor rfl repeatedSample [0, 1, 0, 2, 0] rfl (by decide) (by decide)).1
        (by decide)
    obtain rfl : ((reduce .xor repeatedSample).outcome inputsSample).2 = net' := congrArg Prod.snd hok
    have hlevels : [0, 1, 0, 2, 0].map ((reduce .xor repeatedSample).outcome inputsSample).2.tick.valueAt =
        [true, false, true, false, true] := by decide +kernel
    refine ⟨gate, _, hok, hsize, hdepth.trans (by decide), ?_⟩
    refine hvalue _ (refl _) hi'.wired true ?_
    rw [hlevels]
    rfl
  · obtain ⟨net', hfull, _, hsize⟩ :=
      (reduce_balanced inputsSample hi .nand rfl (repeatedSample ++ .contiguous 1 2) [0, 1, 0, 2, 0, 1, 2] rfl
        (by decide) (by decide)).2 (by decide)
    exact ⟨net', hfull, hsize⟩

end Netlist

end BusLogic
