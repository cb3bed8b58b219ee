import BusLogic.Proofs.Netlist.Pairing

/-! A netlist only grows, and stays well formed as it grows.

`Retains` says that every gate keeps its number, its operation, its pins and its
depth; `Intact` is the invariant of the arena: no more gates than its capacity,
and every gate wired to gates before it as its operation asks. Both follow from
what a single allocation does. A bus operation is a run of such allocations, each
of a gate that reads an earlier one (`Wires`), however the operation ends. An old
gate keeps its value as well, and all else but the number of its readers (`Appends`). -/
namespace BusLogic

/-- The same gate, up to its value and the number of its readers. -/
structure Gate.Same (g g' : Gate) : Prop where
  opcode : g'.opcode = g.opcode
  in1 : g'.in1 = g.in1
  in2 : g'.in2 = g.in2
  depth : g'.depth = g.depth

/-- The pins suit the operation and are all below `n`. -/
structure Gate.WiredBelow (n : Nat) (g : Gate) : Prop where
  before : ∀ pin ∈ g.pins, pin < n
  count : g.pins.length = g.opcode.arity
  /-- A single input is the first pin. -/
  first : g.opcode = .not → g.in1.isSome

instance (n : Nat) (g : Gate) : Decidable (g.WiredBelow n) :=
  decidable_of_iff
    ((∀ pin ∈ g.pins, pin < n) ∧ g.pins.length = g.opcode.arity ∧ (g.opcode = .not → g.in1.isSome))
    ⟨fun ⟨hb, hc, hf⟩ => ⟨hb, hc, hf⟩, fun h => ⟨h.before, h.count, h.first⟩⟩

theorem Gate.Same.refl (g : Gate) : g.Same g := ⟨rfl, rfl, rfl, rfl⟩

theorem Gate.Same.trans {g g' g'' : Gate} (h : g.Same g') (h' : g'.Same g'') : g.Same g'' :=
  ⟨h'.opcode.trans h.opcode, h'.in1.trans h.in1, h'.in2.trans h.in2, h'.depth.trans h.depth⟩

theorem Gate.WiredBelow.same {n : Nat} {g g' : Gate} (h : g.WiredBelow n) (hs : g.Same g') :
    g'.WiredBelow n := by
  have hpins : g'.pins = g.pins := by rw [Gate.pins, hs.in1, hs.in2, Gate.pins]
  exact ⟨by rw [hpins]; exact h.before, by rw [hpins, hs.opcode]; exact h.count,
    by rw [hs.opcode, hs.in1]; exact h.first⟩

namespace Netlist

/-- Every gate is still there, and so is the capacity. -/
structure Retains (net net' : Netlist) : Prop where
  capacity : net'.capacity = net.capacity
  gates : ∀ (i : Nat) (g : Gate), net.gates[i]? = some g → ∃ g', net'.gates[i]? = some g' ∧ g.Same g'

/-- Every gate is wired to gates before it, as its operation asks. -/
def WellFormed (net : Netlist) : Prop :=
  ∀ (i : Nat) (g : Gate), net.gates[i]? = some g → g.WiredBelow i

instance (net : Netlist) : Decidable net.WellFormed :=
  decidable_of_iff (∀ i : Fin net.gates.size, net.gates[i].WiredBelow i)
    ⟨fun h i g hg => by
      obtain ⟨hi, rfl⟩ := Array.getElem?_eq_some_iff.mp hg
      exact h ⟨i, hi⟩,
    fun h i => h i _ (Array.getElem?_eq_getElem i.isLt)⟩

/-- Well formed, and with room for every gate. -/
structure Intact (net : Netlist) : Prop where
  room : net.size ≤ net.capacity
  wired : net.WellFormed

/-- Every gate is as it was, but for the number of its readers. -/
def Appends (net net' : Netlist) : Prop :=
  ∀ (i : Nat) (g : Gate), net.gates[i]? = some g → ∃ usage, net'.gates[i]? = some { g with usage }

instance : IsPreorder Netlist Appends where
  refl _ _ g hg := ⟨g.usage, hg⟩
  trans _ _ _ hab hbc i g hg := by
    obtain ⟨_, hb⟩ := hab i g hg
    have hc := hbc i _ hb
    exact hc

instance : IsPreorder Netlist Retains where
  refl _ := ⟨rfl, fun _ g h => ⟨g, h, .refl g⟩⟩
  trans a b c hab hbc := by
    refine ⟨hbc.capacity.trans hab.capacity, fun i g hg => ?_⟩
    obtain ⟨g', hg', hs⟩ := hab.gates i g hg
    obtain ⟨g'', hg'', hs'⟩ := hbc.gates i g' hg'
    exact ⟨g'', hg'', hs.trans hs'⟩

theorem Retains.trans {a b c : Netlist} (hab : Retains a b) (hbc : Retains b c) : Retains a c :=
  IsTrans.trans _ _ _ hab hbc

theorem Retains.size_le {net net' : Netlist} (h : Retains net net') : net.size ≤ net'.size := by
  by_contra hlt
  have hi : net'.size < net.gates.size := by
    simpa [size] using hlt
  obtain ⟨g', hg', _⟩ := h.gates _ _ (Array.getElem?_eq_getElem hi)
  exact absurd (Array.getElem?_eq_some_iff.mp hg').1 (by simp [size])

/-! ### One more gate -/

theorem countPin_gates (net : Netlist) (pin i : Nat) :
    (net.countPin pin).gates[i]? =
      net.gates[i]?.map fun g => if pin = i then { g with usage := net.usageAt pin + 1 } else g := by
  simp only [countPin, Array.getElem?_modify]
  split
  · rfl
  · rw [Option.map_id']

/-- Counting pins touches nothing but the counts. -/
theorem countPins_gates (pins : List Nat) (net : Netlist) (i : Nat) (g : Gate)
    (h : net.gates[i]? = some g) :
    ∃ usage, (pins.foldl countPin net).gates[i]? = some { g with usage } := by
  induction pins generalizing net g with
  | nil => exact ⟨g.usage, h⟩
  | cons pin rest ih =>
    have hpin := countPin_gates net pin i
    rw [h, Option.map_some] at hpin
    obtain ⟨usage, hu⟩ := ih _ _ hpin
    refine ⟨usage, ?_⟩
    rw [List.foldl_cons, hu]
    split <;> rfl

@[simp] theorem countPins_size (pins : List Nat) (net : Netlist) :
    (pins.foldl countPin net).gates.size = net.gates.size := by
  induction pins generalizing net with
  | nil => rfl
  | cons pin rest ih =>
    rw [List.foldl_cons, ih]
    exact Array.size_modify

/-- Counting pins changes neither the capacity, the ports nor the generator. -/
theorem countPins_frame (pins : List Nat) (net : Netlist) :
    (pins.foldl countPin net).capacity = net.capacity ∧
      (pins.foldl countPin net).ports = net.ports ∧
      (pins.foldl countPin net).generator = net.generator := by
  induction pins generalizing net with
  | nil => exact ⟨rfl, rfl, rfl⟩
  | cons pin rest ih => exact ih (net.countPin pin)

section Push
variable (net : Netlist) (op : Opcode) (in1 in2 : Option Nat)

@[simp] theorem push_capacity : (net.push op in1 in2).capacity = net.capacity :=
  (countPins_frame _ net).1

@[simp] theorem push_ports : (net.push op in1 in2).ports = net.ports :=
  (countPins_frame _ net).2.1

@[simp] theorem push_generator : (net.push op in1 in2).generator = net.generator :=
  (countPins_frame _ net).2.2

@[simp] theorem push_size : (net.push op in1 in2).size = net.size + 1 := by
  simp only [push, size, Array.size_push, countPins_size]

/-- The new gate takes the next number. -/
theorem push_new : ∃ depth, (net.push op in1 in2).gates[net.size]? =
    some { opcode := op, in1, in2, value := false, depth, usage := 0 } := by
  simp only [push, Array.getElem?_push, countPins_size, size, if_true]
  exact ⟨_, rfl⟩

/-- An old gate keeps all but its count of readers. -/
theorem push_old {i : Nat} {g : Gate} (h : net.gates[i]? = some g) :
    ∃ usage, (net.push op in1 in2).gates[i]? = some { g with usage } := by
  have hi : i < net.gates.size := (Array.getElem?_eq_some_iff.mp h).1
  obtain ⟨usage, hu⟩ := countPins_gates (in1.toList ++ in2.toList) net i g h
  refine ⟨usage, ?_⟩
  simp only [push, Array.getElem?_push, countPins_size, Nat.ne_of_lt hi, if_false]
  exact hu

theorem retains_push : Retains net (net.push op in1 in2) := by
  refine ⟨push_capacity .., fun i g hg => ?_⟩
  obtain ⟨usage, hu⟩ := push_old net op in1 in2 hg
  exact ⟨_, hu, ⟨rfl, rfl, rfl, rfl⟩⟩

end Push

/-- What an allocation that is not refused may rely on. -/
theorem refusal?_eq_none {net : Netlist} {op : Opcode} {in1 in2 : Option Nat}
    (h : net.refusal? op in1 in2 = none) :
    net.size < net.capacity ∧ (∀ pin ∈ in1.toList ++ in2.toList, pin < net.size) ∧
      (in1.toList ++ in2.toList).length = op.arity ∧ (op.arity = 1 → in1 ≠ none) := by
  unfold refusal? at h
  split at h
  · cases h
  · rename_i hroom
    split at h
    · cases h
    · rename_i hpins
      dsimp only at h
      split at h
      · cases h
      · rename_i harity
        rw [List.find?_eq_none] at hpins
        simp only [not_or, not_and, ne_eq, not_not] at harity
        refine ⟨by omega, fun pin hp => ?_, ?_, harity.2⟩
        · simpa using hpins pin hp
        · rw [List.length_append]
          exact harity.1

/-- An allocation that is not refused wires a gate to earlier ones. -/
theorem WellFormed.push {net : Netlist} (h : net.WellFormed) {op : Opcode} {in1 in2 : Option Nat}
    (hr : net.refusal? op in1 in2 = none) : (net.push op in1 in2).WellFormed := by
  obtain ⟨_, hpins, hcount, hfirst⟩ := refusal?_eq_none hr
  intro i g hg
  have hi : i < net.size + 1 := by
    rw [← push_size net op in1 in2]
    exact (Array.getElem?_eq_some_iff.mp hg).1
  rcases Nat.lt_succ_iff_lt_or_eq.mp hi with hlt | rfl
  · have hold : net.gates[i]? = some net.gates[i] := Array.getElem?_eq_getElem hlt
    obtain ⟨usage, hu⟩ := push_old net op in1 in2 hold
    rw [hu] at hg
    cases hg
    exact (h i _ hold).same ⟨rfl, rfl, rfl, rfl⟩
  · obtain ⟨depth, hnew⟩ := push_new net op in1 in2
    rw [hnew] at hg
    cases hg
    refine ⟨hpins, hcount, fun hnot => ?_⟩
    rw [← Option.ne_none_iff_isSome]
    exact hfirst (by rw [show op = .not from hnot]; rfl)

/-- An allocation that is not refused leaves the arena well formed. -/
theorem Intact.push {net : Netlist} (h : net.Intact) {op : Opcode} {in1 in2 : Option Nat}
    (hr : net.refusal? op in1 in2 = none) : (net.push op in1 in2).Intact := by
  refine ⟨?_, h.wired.push hr⟩
  rw [push_size, push_capacity]
  exact (refusal?_eq_none hr).1

/-- The netlist has grown: its gates are retained, and it is intact if it was. -/
structure Grows (net net' : Netlist) : Prop where
  retains : Retains net net'
  intact : net.Intact → net'.Intact

instance : IsPreorder Netlist Grows where
  refl net := ⟨refl net, id⟩
  trans _ _ _ hab hbc := ⟨hab.retains.trans hbc.retains, hbc.intact ∘ hab.intact⟩

theorem Grows.trans {a b c : Netlist} (hab : Grows a b) (hbc : Grows b c) : Grows a c :=
  IsTrans.trans _ _ _ hab hbc

theorem outcome_allocate (op : Opcode) (in1 in2 : Option Nat) (net : Netlist) :
    (allocate op in1 in2).outcome net =
      match net.refusal? op in1 in2 with
      | some e => (.error e, net)
      | none => (.ok net.size, net.push op in1 in2) := by
  show allocate op in1 in2 net = _
  rfl

theorem keeps_allocate {R : Netlist → Netlist → Prop} [IsPreorder Netlist R] {op : Opcode}
    {in1 in2 : Option Nat}
    (h : ∀ net : Netlist, net.refusal? op in1 in2 = none → R net (net.push op in1 in2)) :
    (allocate op in1 in2).Keeps R := by
  intro net
  rw [outcome_allocate]
  split
  · exact refl net
  · rename_i hr
    exact h net hr

theorem grows_allocate (op : Opcode) (in1 in2 : Option Nat) : (allocate op in1 in2).Keeps Grows :=
  keeps_allocate fun net hr => ⟨retains_push net op in1 in2, fun h => h.push hr⟩

theorem appends_allocate (op : Opcode) (in1 in2 : Option Nat) : (allocate op in1 in2).Keeps Appends :=
  keeps_allocate fun net _ _ _ hg => push_old net op in1 in2 hg

theorem ports_allocate (op : Opcode) (in1 in2 : Option Nat) (net : Netlist) :
    ((allocate op in1 in2).outcome net).2.ports = net.ports := by
  rw [outcome_allocate]
  split
  · rfl
  · exact push_ports _ _ _ _

/-! ### Bus operations

Whatever a bus operation adds reads a gate that was there. Said once per operation,
this yields every property that such an allocation has. -/

/-- One more gate, which reads an earlier one. -/
def Wired (net net' : Netlist) : Prop :=
  ∃ op x in2, net.refusal? op (some x) in2 = none ∧ net' = net.push op (some x) in2

/-- More gates, each of which reads an earlier one. -/
def Wires : Netlist → Netlist → Prop := Relation.ReflTransGen Wired

instance : IsPreorder Netlist Wires := inferInstanceAs (IsPreorder _ (Relation.ReflTransGen _))

theorem Wires.minimal {R : Netlist → Netlist → Prop} [IsPreorder Netlist R]
    (hR : ∀ net op x in2, net.refusal? op (some x) in2 = none → R net (net.push op (some x) in2))
    {net net' : Netlist} (h : Wires net net') : R net net' := by
  induction h with
  | refl => exact refl net
  | tail _ hstep ih =>
    obtain ⟨op, x, in2, hr, rfl⟩ := hstep
    exact IsTrans.trans _ _ _ ih (hR _ op x in2 hr)

theorem Wires.grows {net net' : Netlist} (h : Wires net net') : Grows net net' :=
  h.minimal fun net op x in2 hr => ⟨retains_push net op (some x) in2, fun hi => hi.push hr⟩

theorem Wires.appends {net net' : Netlist} (h : Wires net net') : Appends net net' :=
  h.minimal fun net op x in2 _ _ _ hg => push_old net op (some x) in2 hg

theorem Wires.wellFormed {net net' : Netlist} (h : Wires net net') (hw : net.WellFormed) : net'.WellFormed := by
  induction h with
  | refl => exact hw
  | tail _ hstep ih =>
    obtain ⟨op, x, in2, hr, rfl⟩ := hstep
    exact ih.push hr

/-- Only the gates and their counters change. -/
theorem Wires.frame {net net' : Netlist} (h : Wires net net') :
    net'.ports = net.ports ∧ net'.generator = net.generator := by
  induction h with
  | refl => exact ⟨rfl, rfl⟩
  | tail _ hstep ih =>
    obtain ⟨op, x, in2, _, rfl⟩ := hstep
    rw [push_ports, push_generator]
    exact ih

open Attempt

theorem wires_allocate (op : Opcode) (x : Nat) (in2 : Option Nat) :
    (allocate op (some x) in2).Keeps Wires :=
  keeps_allocate fun _ hr => .single ⟨op, x, in2, hr, rfl⟩

theorem wires_allocateAll (op : Opcode) (pins : List (Nat × Option Nat)) :
    (allocateAll op (pins.map fun p => (some p.1, p.2))).Keeps Wires := by
  induction pins with
  | nil => exact .pure ()
  | cons p rest ih => exact .bind (wires_allocate op p.1 p.2) fun _ => ih

theorem wires_applyUnary (op : Opcode) (a : Bus) : (applyUnary op a).Keeps Wires := by
  refine .bind (.ofExcept _) fun pins => .bind .get fun net => .bind ?_ fun _ => .pure _
  have h := wires_allocateAll op (pins.map fun x => (x, none))
  rwa [List.map_map] at h

theorem wires_applyBinary (op : Opcode) (a b : Bus) : (applyBinary op a b).Keeps Wires := by
  refine .bind (.ofExcept _) fun xs => .bind (.ofExcept _) fun ys => .bind (.ofExcept _) fun pins =>
    .bind .get fun net => .bind ?_ fun _ => .pure _
  have h := wires_allocateAll op (pins.map fun p => (p.1, some p.2))
  rwa [List.map_map] at h

theorem wires_select (selector : Nat) (a b : Bus) : (select selector a b).Keeps Wires := by
  refine .check (.bind (wires_allocate _ _ _) fun inverted => ?_)
  exact .bind (wires_applyBinary _ _ _) fun low => .bind (wires_applyBinary _ _ _) fun high =>
    wires_applyBinary _ _ _

theorem wires_allocateTree (op : Opcode) (tree : Tree Nat) : (allocateTree op tree).Keeps Wires := by
  induction tree with
  | leaf gate => exact .pure gate
  | node left right ihl ihr => exact .bind ihl fun l => .bind ihr fun r => wires_allocate op l (some r)

theorem wires_reduce (op : Opcode) (a : Bus) : (reduce op a).Keeps Wires := by
  refine .check (.bind (.ofExcept _) fun gates => ?_)
  cases gates with
  | nil => exact .throw _
  | cons gate rest => exact wires_allocateTree op _

theorem wires_multiplexLevelBy (same : Bus → Bus → Bool) (selector : Nat) (row : List Bus) :
    (multiplexLevelBy same selector row).Keeps Wires := by
  fun_induction multiplexLevelBy same selector row with
  | case1 a b rest jp hab ih => exact .bind (.pure a) fun _ => .bind ih fun _ => .pure _
  | case2 a b rest jp hab ih => exact .bind (wires_select selector a b) fun _ => .bind ih fun _ => .pure _
  | case3 => exact .pure _

theorem wires_multiplexLevelsBy (same : Bus → Bus → Bool) (index : Nat) (slots : List (Option Nat))
    (row : List Bus) : (multiplexLevelsBy same index slots row).Keeps Wires := by
  fun_induction multiplexLevelsBy same index slots row with
  | case1 => exact .pure _
  | case2 => exact .throw _
  | case3 index gate slots row ih => exact .bind (wires_multiplexLevelBy same gate row) ih

theorem wires_multiplexBy (same : Bus → Bus → Bool) (selector : Bus) (branches : List Bus) :
    (multiplexBy same selector branches).Keeps Wires := by
  refine .check (.bind (wires_multiplexLevelsBy same 0 selector.slots branches) fun out => ?_)
  split
  · exact .pure _
  · exact .throw _

theorem wires_multiplexLevel (selector : Nat) (row : List Bus) : (multiplexLevel selector row).Keeps Wires := by
  rw [← multiplexLevelBy_coincides]
  exact wires_multiplexLevelBy _ _ _

theorem wires_multiplex (selector : Bus) (branches : List Bus) : (multiplex selector branches).Keeps Wires := by
  rw [← multiplexBy_coincides]
  exact wires_multiplexBy _ _ _

/-! ### Inputs -/

theorem grows_allocateInputs (n : Nat) : (allocateInputs n).Keeps Grows := by
  induction n with
  | zero => exact .pure ()
  | succ n ih => exact .bind (grows_allocate _ _ _) fun _ => ih

theorem appends_allocateInputs (n : Nat) : (allocateInputs n).Keeps Appends := by
  induction n with
  | zero => exact .pure ()
  | succ n ih => exact .bind (appends_allocate _ _ _) fun _ => ih

theorem grows_registerPort (net : Netlist) (name : String) (bus : Bus) :
    Grows net (net.registerPort name bus) :=
  ⟨⟨rfl, fun _ g hg => ⟨g, hg, .refl g⟩⟩, fun h => ⟨h.room, h.wired⟩⟩

theorem appends_addInput (name : String) (width : Nat) : (addInput name width).Keeps Appends :=
  .bind .get fun _ => .bind (appends_allocateInputs width) fun _ =>
    .bind (.modify fun _ _ g hg => ⟨g.usage, hg⟩) fun _ => .pure _

theorem grows_addInput (name : String) (width : Nat) : (addInput name width).Keeps Grows :=
  .bind .get fun _ => .bind (grows_allocateInputs width) fun _ =>
    .bind (.modify fun net => grows_registerPort net name _) fun _ => .pure _

end Netlist

end BusLogic
