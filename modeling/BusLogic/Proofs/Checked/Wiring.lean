import BusLogic.Proofs.Checked.Basic
import BusLogic.Proofs.Expression.Signal

/-! Wiring that notices when it leaves its bounds.

Bus operations and the compiler of expressions, step by step as in the netlist, but with
every gate, slot and neighbour read by position. In an addressable netlist, over buses
within it, each of them is realized: pins have been compared with the number of gates
(`realizes_allocate`), a row of gates is cut where it has gates (`realizes_reduceGates`),
and a row of branches is even wherever it is halved (`realizes_multiplexLevels`). How far a
gate is from the sources and how often it is read are counts of their own, without bound
here as in the netlist. -/
namespace BusLogic
open Attempt

/-- Intact, with room for so few gates that two widths still add up to a word. -/
structure Netlist.Addressable (net : Netlist) : Prop where
  intact : net.Intact
  capacity : net.capacity < 2 ^ 63

theorem Netlist.Addressable.grows {net net' : Netlist} (h : net.Addressable) (hg : net.Grows net') :
    net'.Addressable :=
  ⟨hg.intact h.intact, by rw [hg.retains.capacity]; exact h.capacity⟩

theorem Bus.Within.addressed {net : Netlist} {b : Bus} (hb : b.Within net) (hn : net.Addressable) : b.Addressed := by
  have hroom := hn.intact.room
  have hcap := hn.capacity
  have hnarrow := hb.narrow
  refine ⟨by omega, fun gate hgate => ?_⟩
  have hlt := hb.bound gate hgate
  omega

namespace Netlist.Checked
open BusLogic.Checked

/-! ### Gates -/

/-- Counts one more reader on each pin, and the depth of what reads them. -/
def countPins : List Nat → Netlist → (depth : Nat) → Except (Halt Error) (Netlist × Nat)
  | [], net, depth => .ok (net, depth)
  | pin :: rest, net, depth => do
    let input ← present net.gates[pin]?
    countPins rest (net.countPin pin) (max depth (input.depth + 1))

def allocate (op : Opcode) (in1 in2 : Option Nat) : Attempt (Halt Error) Netlist Nat := fun net =>
  match net.refusal? op in1 in2 with
  | some e => (.error (.refused e), net)
  | none =>
    match countPins (in1.toList ++ in2.toList) net 0 with
    | .error halt => (.error halt, net)
    | .ok (counted, depth) =>
      (.ok net.size,
        { counted with
          gates := counted.gates.push { opcode := op, in1, in2, value := false, depth, usage := 0 }
          maxDepth := max counted.maxDepth depth })

def allocateAll (op : Opcode) : List (Option Nat × Option Nat) → Attempt (Halt Error) Netlist Unit
  | [] => pure ()
  | (in1, in2) :: rest => do
    let _ ← allocate op in1 in2
    allocateAll op rest

def allocateInputs : Nat → Attempt (Halt Error) Netlist Unit
  | 0 => pure ()
  | n + 1 => do
    let _ ← allocate .passthrough none none
    allocateInputs n

def addInput (name : String) (width : Nat) : Attempt (Halt Error) Netlist Bus := do
  let start := (← get).size
  allocateInputs width
  let bus := Bus.contiguous start width
  modify fun net => net.registerPort name bus
  return bus

/-! ### Buses -/

def applyUnary (op : Opcode) (a : Bus) : Attempt (Halt Error) Netlist Bus := do
  let pins ← Attempt.ofExcept (Bus.Checked.gates a)
  let start := (← get).size
  allocateAll op (pins.map fun x => (some x, none))
  return .contiguous start a.width

/-- Every gate of a row beside the first gate of another, which is read anew each time. -/
def pairAll (one : List Nat) (pair : Nat → Nat → Nat × Nat) : List Nat → Except (Halt Error) (List (Nat × Nat))
  | [] => .ok []
  | gate :: rest => do
    let first ← present one[0]?
    let more ← pairAll one pair rest
    return pair first gate :: more

def pairs (xs ys : List Nat) : Except (Halt Error) (List (Nat × Nat)) :=
  if xs.length = ys.length then .ok (xs.zip ys)
  else if xs.length = 1 then pairAll xs (fun x y => (x, y)) ys
  else if ys.length = 1 then pairAll ys (fun y x => (x, y)) xs
  else .error (.refused (.widthMismatch xs.length ys.length))

def applyBinary (op : Opcode) (a b : Bus) : Attempt (Halt Error) Netlist Bus := do
  let xs ← Attempt.ofExcept (Bus.Checked.gates a)
  let ys ← Attempt.ofExcept (Bus.Checked.gates b)
  let pins ← Attempt.ofExcept (pairs xs ys)
  let start := (← get).size
  allocateAll op (pins.map fun (x, y) => (some x, some y))
  return .contiguous start pins.length

def select (selector : Nat) (a b : Bus) : Attempt (Halt Error) Netlist Bus := do
  if a.width ≠ b.width then
    throw (.refused (.widthMismatch a.width b.width))
  let inverted ← allocate .not (some selector) none
  let low ← applyBinary .and a (.single inverted)
  let high ← applyBinary .and b (.single selector)
  applyBinary .or low high

/-- Combines a row of gates into one: the row is cut after its first half, the odd gate
included. -/
def reduceGates (op : Opcode) : (budget : Nat) → List Nat → Attempt (Halt Error) Netlist Nat
  | 0, _ => throw (.trap .endless)
  | budget + 1, row =>
    match row with
    | [gate] => pure gate
    | [a, b] => allocate op (some a) (some b)
    | row => do
      let last ← Attempt.ofExcept (sub row.length 1)
      let half ← Attempt.ofExcept (add (last / 2) 1)
      let (left, right) ← Attempt.ofExcept (cut row half)
      let l ← reduceGates op budget left
      let r ← reduceGates op budget right
      allocate op (some l) (some r)

def reduce (op : Opcode) (a : Bus) : Attempt (Halt Error) Netlist Nat := do
  if op.arity ≠ 2 then
    throw (.refused (.invalidArity op op.arity 2))
  match ← Attempt.ofExcept (Bus.Checked.gates a) with
  | [] => throw (.refused (.indexOutOfRange 0 0))
  | row => reduceGates op row.length row

/-! ### Multiplexers of many branches -/

/-- Joins the branches of a chunk of two. -/
def join (selector : Nat) (chunk : List Bus) : Attempt (Halt Error) Netlist Bus := do
  let a ← Attempt.ofExcept (present chunk[0]?)
  let b ← Attempt.ofExcept (present chunk[1]?)
  if ← Attempt.ofExcept (Bus.Checked.coincides a b) then return a
  else select selector a b

/-- Halves a row of branches, chunk by chunk. -/
def multiplexLevel (selector : Nat) : List Bus → Attempt (Halt Error) Netlist (List Bus)
  | [] => pure []
  | [a] => do
    let joined ← join selector [a]
    return [joined]
  | a :: b :: rest => do
    let joined ← join selector [a, b]
    let more ← multiplexLevel selector rest
    return joined :: more

/-- One level for each of `n` slots of the selector, from slot `i` on. -/
def multiplexLevels (selector : Bus) : (n i : Nat) → List Bus → Attempt (Halt Error) Netlist (List Bus)
  | 0, _, branches => pure branches
  | n + 1, i, branches => do
    let gate ← Attempt.ofExcept (Bus.Checked.gate selector i)
    let halved ← multiplexLevel gate branches
    multiplexLevels selector n (i + 1) halved

def multiplex (selector : Bus) (branches : List Bus) : Attempt (Halt Error) Netlist Bus := do
  if branches? selector.width ≠ some branches.length then
    throw (.refused (.branchCount selector.width ((branches? selector.width).getD 0) branches.length))
  let out ← multiplexLevels selector selector.width 0 branches
  match out.getLast? with
  | some out => return out
  | none => throw (.refused (.malformed .noBranches))

/-! ### Realized wiring -/

variable {net : Netlist}

theorem depthAt_countPin (net : Netlist) (pin i : Nat) : (net.countPin pin).depthAt i = net.depthAt i := by
  rw [depthAt, depthAt, countPin_gates]
  cases net.gates[i]? with
  | none => rfl
  | some g => by_cases hpin : pin = i <;> simp [hpin]

theorem countPins_eq {pins : List Nat} (hpins : ∀ pin ∈ pins, pin < net.size) (depth : Nat) :
    countPins pins net depth =
      .ok (pins.foldl countPin net, pins.foldl (fun d pin => max d (net.depthAt pin + 1)) depth) := by
  induction pins generalizing net depth with
  | nil => rfl
  | cons pin rest ih =>
    obtain ⟨hpin, hrest⟩ := List.forall_mem_cons.mp hpins
    have hsize : (net.countPin pin).size = net.size := Array.size_modify
    have hdepth : (net.countPin pin).depthAt = net.depthAt := funext (depthAt_countPin net pin)
    have hget : net.gates[pin]? = some net.gates[pin] := Array.getElem?_eq_getElem hpin
    have hread : net.depthAt pin = net.gates[pin].depth := by rw [depthAt, hget]
    rw [countPins, hget]
    show countPins rest (net.countPin pin) (max depth (net.gates[pin].depth + 1)) = _
    rw [ih (by rwa [hsize]), hdepth, ← hread]
    rfl

/-- The pins of a gate that is not refused stand before it. -/
theorem realizes_allocate (op : Opcode) (in1 in2 : Option Nat) (net : Netlist) :
    (allocate op in1 in2).Realizes (Netlist.allocate op in1 in2) net := by
  show allocate op in1 in2 net = _
  rw [outcome_allocate, allocate]
  cases hr : net.refusal? op in1 in2 with
  | some e => rfl
  | none =>
    dsimp only
    rw [countPins_eq (refusal?_eq_none hr).2.1]
    rfl

theorem realizes_allocateAll (op : Opcode) (pins : List (Option Nat × Option Nat)) (net : Netlist) :
    (allocateAll op pins).Realizes (Netlist.allocateAll op pins) net := by
  induction pins generalizing net with
  | nil => exact .pure ()
  | cons pin rest ih => exact .bind (realizes_allocate op pin.1 pin.2 net) fun _ net₁ _ => ih net₁

theorem realizes_allocateInputs (n : Nat) (net : Netlist) :
    (allocateInputs n).Realizes (Netlist.allocateInputs n) net := by
  induction n generalizing net with
  | zero => exact .pure ()
  | succ n ih => exact .bind (realizes_allocate _ _ _ net) fun _ net₁ _ => ih net₁

theorem realizes_addInput (name : String) (width : Nat) (net : Netlist) :
    (addInput name width).Realizes (Netlist.addInput name width) net :=
  .bind .get fun _ _ _ => .bind (realizes_allocateInputs width _) fun _ _ _ => .bind (.modify _) fun _ _ _ => .pure _

theorem realizes_applyUnary (op : Opcode) {a : Bus} (ha : a.Addressed) (net : Netlist) :
    (applyUnary op a).Realizes (Netlist.applyUnary op a) net :=
  .bind (.ofExcept (Bus.Checked.gates_settles ha)) fun _ _ _ => .bind .get fun _ _ _ =>
    .bind (realizes_allocateAll op _ _) fun _ _ _ => .pure _

theorem pairAll_eq (x : Nat) (pair : Nat → Nat → Nat × Nat) (row : List Nat) :
    pairAll [x] pair row = .ok (row.map (pair x)) := by
  induction row with
  | nil => rfl
  | cons gate rest ih =>
    show (pairAll [x] pair rest >>= _) = _
    rw [ih]
    rfl

theorem pairs_settles (xs ys : List Nat) : Settles (pairs xs ys) (Netlist.pairs xs ys) := by
  unfold pairs Netlist.pairs
  dsimp only
  by_cases heq : xs.length = ys.length
  · rw [if_pos heq, if_pos heq]
    exact .ok _
  · rw [if_neg heq, if_neg heq]
    rcases xs with _ | ⟨x, _ | ⟨x', xs⟩⟩
    · rcases ys with _ | ⟨y, _ | ⟨y', ys⟩⟩
      · exact absurd rfl heq
      · exact .ok _
      · exact .error _
    · rw [if_pos List.length_singleton, pairAll_eq]
      exact .ok _
    · rcases ys with _ | ⟨y, _ | ⟨y', ys⟩⟩
      · exact .error _
      · rw [if_neg (by simp), if_pos List.length_singleton, pairAll_eq]
        exact .ok _
      · rw [if_neg (by simp), if_neg (by simp)]
        exact .error _

theorem realizes_applyBinary (op : Opcode) {a b : Bus} (ha : a.Addressed) (hb : b.Addressed) (net : Netlist) :
    (applyBinary op a b).Realizes (Netlist.applyBinary op a b) net :=
  .bind (.ofExcept (Bus.Checked.gates_settles ha)) fun xs _ _ =>
    .bind (.ofExcept (Bus.Checked.gates_settles hb)) fun ys _ _ =>
      .bind (.ofExcept (pairs_settles xs ys)) fun _ _ _ => .bind .get fun _ _ _ =>
        .bind (realizes_allocateAll op _ _) fun _ _ _ => .pure _

theorem realizes_select {selector : Nat} {a b : Bus} (hn : net.Addressable) (hsel : selector < net.size)
    (ha : a.Within net) (hb : b.Within net) : (select selector a b).Realizes (Netlist.select selector a b) net := by
  unfold select Netlist.select
  refine .check fun _ => ?_
  refine .bind (realizes_allocate _ _ _ _) fun inverted net₁ hnot => ?_
  have hg₁ : net.Grows net₁ := (grows_allocate .not (some selector) none).reached hnot
  have hn₁ := hn.grows hg₁
  have hinv : (Bus.single inverted).Within net₁ := .single hn₁.intact (allocate_ok hnot).2.2.lt
  have ha₁ := ha.retains hg₁.retains
  refine .bind (realizes_applyBinary .and (ha₁.addressed hn₁) (hinv.addressed hn₁) net₁) fun low net₂ hlow => ?_
  have hg₂ : net₁.Grows net₂ := ((wires_applyBinary _ _ _).reached hlow).grows
  have hn₂ := hn₁.grows hg₂
  have hsel₂ : (Bus.single selector).Within net₂ :=
    (Bus.Within.single hn.intact hsel).retains (hg₁.retains.trans hg₂.retains)
  have hb₂ := hb.retains (hg₁.retains.trans hg₂.retains)
  refine .bind (realizes_applyBinary .and (hb₂.addressed hn₂) (hsel₂.addressed hn₂) net₂) fun high net₃ hhigh => ?_
  have hg₃ : net₂.Grows net₃ := ((wires_applyBinary _ _ _).reached hhigh).grows
  have hn₃ := hn₂.grows hg₃
  have hlow₃ := (within_applyBinary hn₁.intact hlow).retains hg₃.retains
  exact realizes_applyBinary .or (hlow₃.addressed hn₃) ((within_applyBinary hn₂.intact hhigh).addressed hn₃) net₃

theorem balanced_nil (a : Nat) : Tree.balanced a [] = .leaf a := by
  rw [Tree.balanced.eq_def]
  rfl

/-- A row of more than two gates is cut behind its first half. -/
theorem cut_eq_halves {a : Nat} {rest : List Nat} {half : Nat} (h : half < rest.length) :
    (cut (a :: rest) (half + 1) : Except (Halt Error) _) =
      .ok (a :: rest.take half, rest[half] :: rest.drop (half + 1)) := by
  rw [cut_eq (by rw [List.length_cons]; omega), List.take_succ_cons, List.drop_succ_cons,
    List.drop_eq_getElem_cons h]

/-- A row of gates is combined over the balanced tree over it. -/
theorem realizes_reduceGates (op : Opcode) {a : Nat} {rest : List Nat} {budget : Nat}
    (hbudget : rest.length < budget) (hlen : rest.length < 2 ^ 63) (net : Netlist) :
    (reduceGates op budget (a :: rest)).Realizes (allocateTree op (.balanced a rest)) net := by
  fun_induction Tree.balanced a rest generalizing budget net with
  | case1 a rest h =>
    obtain rfl := List.eq_nil_of_length_eq_zero h
    obtain ⟨budget, rfl⟩ : ∃ k, budget = k + 1 := ⟨budget - 1, by omega⟩
    exact .pure a
  | case2 a rest h half ihl =>
    rename_i ihr
    obtain ⟨budget, rfl⟩ : ∃ k, budget = k + 1 := ⟨budget - 1, by omega⟩
    have hhalf : half < rest.length := by omega
    have hleft : (rest.take half).length = half := List.length_take_of_le (Nat.le_of_lt hhalf)
    have hright : (rest.drop (half + 1)).length = rest.length - (half + 1) := List.length_drop
    rcases rest with _ | ⟨b, _ | ⟨c, rest⟩⟩
    · exact absurd rfl h
    · have hzero : half = 0 := Nat.lt_one_iff.mp hhalf
      simp only [hzero, List.take_zero, List.drop_succ_cons, List.drop_zero,
        List.getElem_cons_zero, balanced_nil]
      exact realizes_allocate op (some a) (some b) net
    · have hlast : (sub (a :: b :: c :: rest).length 1 : Except (Halt Error) Nat) = .ok (b :: c :: rest).length :=
        sub_eq (by simp)
      have hadd : (add ((b :: c :: rest).length / 2) 1 : Except (Halt Error) Nat) = .ok (half + 1) :=
        add_eq (by omega)
      refine .settled hlast (.settled hadd (.settled (cut_eq_halves hhalf) ?_))
      refine .bind (ihl (by omega) (by omega) net) fun l net₁ _ => ?_
      exact .bind (ihr (by omega) (by omega) net₁) fun r net₂ _ => realizes_allocate op _ _ net₂

theorem realizes_reduce (op : Opcode) {a : Bus} (ha : a.Addressed) (net : Netlist) :
    (reduce op a).Realizes (Netlist.reduce op a) net := by
  unfold reduce Netlist.reduce
  refine .check fun _ => ?_
  refine .bind (.ofExcept (Bus.Checked.gates_settles ha)) fun row _ hrow => ?_
  obtain ⟨hgates, rfl⟩ := outcome_ofExcept_ok hrow
  cases row with
  | nil => exact .throw _
  | cons gate rest =>
    refine realizes_reduceGates op (Nat.lt_succ_self _) ?_ net
    have hwidth := ha.width
    rw [← Bus.length_slots, Bus.gates_eq_ok.mp hgates, List.length_map, List.length_cons] at hwidth
    omega

/-- Both branches of a chunk are there. -/
theorem realizes_join {selector : Nat} {a b : Bus} (hn : net.Addressable) (hsel : selector < net.size)
    (ha : a.Within net) (hb : b.Within net) :
    (join selector [a, b]).Realizes (if a.coincides b then pure a else Netlist.select selector a b) net := by
  refine .settled rfl (.settled rfl (.settled (Bus.Checked.coincides_eq (ha.addressed hn) (hb.addressed hn)) ?_))
  split
  · exact .pure a
  · exact realizes_select hn hsel ha hb

theorem multiplexLevel_cons (selector : Nat) (a b : Bus) (rest : List Bus) :
    Netlist.multiplexLevel selector (a :: b :: rest) =
      (if a.coincides b then pure a else Netlist.select selector a b) >>= fun joined =>
        Netlist.multiplexLevel selector rest >>= fun more => pure (joined :: more) := by
  rw [Netlist.multiplexLevel]
  split <;> rfl

theorem realizes_multiplexLevel {selector n : Nat} {row : List Bus} (hn : net.Addressable) (hsel : selector < net.size)
    (heven : row.length = 2 * n) (hrow : ∀ b ∈ row, b.Within net) :
    (multiplexLevel selector row).Realizes (Netlist.multiplexLevel selector row) net := by
  induction n generalizing row net with
  | zero =>
    obtain rfl := List.eq_nil_of_length_eq_zero heven
    exact .pure []
  | succ n ih =>
    rcases row with _ | ⟨a, _ | ⟨b, rest⟩⟩
    · cases heven
    · rw [List.length_singleton] at heven
      omega
    · obtain ⟨ha, hb, hrest⟩ : a.Within net ∧ b.Within net ∧ ∀ c ∈ rest, c.Within net := by simpa using hrow
      have hkeeps : (if a.coincides b then pure a else Netlist.select selector a b).Keeps Netlist.Wires :=
        .ite (.pure a) (wires_select selector a b)
      rw [multiplexLevel_cons]
      refine .bind (realizes_join hn hsel ha hb) fun joined net₁ ho => ?_
      have hg : net.Grows net₁ := (hkeeps.reached ho).grows
      refine .bind ?_ fun more _ _ => .pure (joined :: more)
      exact ih (hn.grows hg) (Nat.lt_of_lt_of_le hsel hg.retains.size_le)
        (by rw [List.length_cons, List.length_cons] at heven; omega) fun c hc => (hrest c hc).retains hg.retains

-- the last chunk of an odd row has no second branch
example (selector : Nat) (a : Bus) (net : Netlist) :
    (outcome (multiplexLevel selector [a]) net).1 = .error (.trap .outOfBounds) := rfl

/-- As long as slots of the selector are left, the row has even length. -/
theorem realizes_multiplexLevels {selector : Bus} (before rest : List (Option Nat)) {row : List Bus} {n : Nat}
    (hslots : selector.slots = before ++ rest) (hn : net.Addressable) (hsel : selector.Within net)
    (hlen : row.length = 2 ^ rest.length * n) (hrow : ∀ b ∈ row, b.Within net) :
    (multiplexLevels selector rest.length before.length row).Realizes
      (Netlist.multiplexLevels before.length rest row) net := by
  induction rest generalizing before row net with
  | nil => exact .pure row
  | cons held rest ih =>
    have hheld := Bus.Checked.getElem?_behind hslots
    have hgate := Bus.Checked.gate_settles (hsel.addressed hn) before.length
    cases held with
    | none =>
      have hnone : selector.gate before.length = .error (.unboundSlot before.length) := by
        rw [Bus.gate, Bus.slot_eq_ok.mpr hheld]
      rw [hnone] at hgate
      show Realizes (Attempt.ofExcept (Bus.Checked.gate selector before.length) >>= _) _ net
      rw [hgate]
      exact .throw _
    | some gate =>
      have hbound : selector.gate before.length = .ok gate := Bus.gate_eq_ok.mpr hheld
      rw [hbound] at hgate
      have heven : row.length = 2 * (2 ^ rest.length * n) := by
        rw [hlen, List.length_cons, Nat.pow_succ, Nat.mul_comm _ 2, Nat.mul_assoc]
      refine .settled hgate (.bind (realizes_multiplexLevel hn (hsel.gate hbound) heven hrow) fun halved net₁ ho => ?_)
      have hg : net.Grows net₁ := ((wires_multiplexLevel gate row).reached ho).grows
      have hnext := ih (before ++ [some gate]) (by rw [hslots, List.append_assoc]; rfl) (hn.grows hg)
        (hsel.retains hg.retains) (length_multiplexLevel heven ho) (within_multiplexLevel hn.intact hrow ho)
      rwa [List.length_append, List.length_singleton] at hnext

theorem realizes_multiplex {selector : Bus} {branches : List Bus} (hn : net.Addressable) (hsel : selector.Within net)
    (hrow : ∀ b ∈ branches, b.Within net) :
    (multiplex selector branches).Realizes (Netlist.multiplex selector branches) net := by
  unfold multiplex Netlist.multiplex
  refine .check fun hcount => ?_
  have hlen : branches.length = 2 ^ selector.slots.length * 1 := by
    rw [Nat.mul_one]
    exact length_of_branches? (not_not.mp hcount)
  have hlevels := realizes_multiplexLevels [] selector.slots rfl hn hsel hlen hrow
  rw [Bus.length_slots] at hlevels
  refine .bind hlevels fun out net₁ ho => ?_
  obtain ⟨b, rfl⟩ := List.length_eq_one_iff.mp (length_multiplexLevels hlen ho)
  exact .pure b

end Netlist.Checked

end BusLogic
