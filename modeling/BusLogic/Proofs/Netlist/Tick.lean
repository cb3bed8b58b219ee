import BusLogic.Netlist.Tick
import BusLogic.Proofs.Netlist.Growth

/-! A tick is the synchronous step of the circuit.

The pass overwrites values while it reads them. Since a gate reads earlier gates
only, it reads values that are already final, so the values a tick leaves satisfy
the law of every gate at once (`tick_settled`). Nothing else does, given what the
undecided latches drew (`Settled.unique`), and what a combinational gate held
before has no say in it (`tick_congr`). -/
namespace BusLogic

/-- What a tick may make of a gate that held `old`, with `a` and `b` on its pins
after the tick. A latch told to set and to reset at once may take any value. -/
def Opcode.Law (op : Opcode) (old a b new : Bool) : Prop :=
  match op with
  | .zero => new = false
  | .one => new = true
  | .clock => new = !old
  | .passthrough | .input | .output => new = old
  | .setReset => (a = true → b = false → new = false) ∧ (a = false → b = true → new = true) ∧
      (a = false → b = false → new = old)
  | .and => new = (a && b)
  | .or => new = (a || b)
  | .xor => new = (a ^^ b)
  | .nand => new = !(a && b)
  | .nor => new = !(a || b)
  | .not => new = !a

/-- The operations whose next value depends on the last one. -/
def Opcode.stores : Opcode → Bool
  | .clock | .setReset | .passthrough | .input | .output => true
  | _ => false

/-- What a pin carries under a valuation: an absent pin is low. -/
def pinLevel (w : Nat → Bool) (pin : Option Nat) : Bool := pin.elim false w

/-- A latch that `w` tells to set and to reset at once. -/
def Gate.Contested (w : Nat → Bool) (g : Gate) : Prop :=
  g.opcode = .setReset ∧ pinLevel w g.in1 = true ∧ pinLevel w g.in2 = true

theorem Gate.law_settled (g : Gate) (a b : Bool) (h : g.undecided a b = false) :
    g.opcode.Law g.value a b (g.settled a b) := by
  unfold Gate.undecided at h
  unfold Gate.settled Opcode.Law
  cases g.opcode <;> cases a <;> cases b <;> simp at h ⊢

/-- Short of a contested latch, the law leaves no choice. -/
theorem Opcode.Law.functional {op : Opcode} {old a b new new' : Bool} (h : op.Law old a b new)
    (h' : op.Law old a b new') (hc : ¬ (op = .setReset ∧ a = true ∧ b = true)) : new = new' := by
  cases op <;> simp only [Opcode.Law] at h h' <;> try rw [h, h']
  cases a <;> cases b <;> simp_all

theorem Gate.undecided_iff (g : Gate) (w : Nat → Bool) :
    g.undecided (pinLevel w g.in1) (pinLevel w g.in2) = true ↔ g.Contested w := by
  simp [Gate.undecided, Gate.Contested, and_assoc]

theorem pinLevel_congr {w w' : Nat → Bool} {pin : Option Nat} (h : ∀ p ∈ pin, w p = w' p) :
    pinLevel w pin = pinLevel w' pin := by
  cases pin with
  | none => rfl
  | some p => exact h p rfl

/-- Valuations that agree below a gate agree on its pins. -/
theorem Gate.WiredBelow.pinLevel_congr {n : Nat} {g : Gate} (h : g.WiredBelow n) {w w' : Nat → Bool}
    (hw : ∀ p, p < n → w p = w' p) :
    pinLevel w g.in1 = pinLevel w' g.in1 ∧ pinLevel w g.in2 = pinLevel w' g.in2 := by
  have hin (p : Nat) (hp : p ∈ g.pins) : w p = w' p := hw p (h.before p hp)
  constructor
  · exact BusLogic.pinLevel_congr fun p hp => hin p (by simp_all [Gate.pins])
  · exact BusLogic.pinLevel_congr fun p hp => hin p (by simp_all [Gate.pins])

namespace Netlist

theorem level_eq (net : Netlist) (pin : Option Nat) : net.level pin = pinLevel net.valueAt pin := by
  cases pin <;> rfl

theorem valueAt_eq {net : Netlist} {i : Nat} {g : Gate} (h : net.gates[i]? = some g) :
    net.valueAt i = g.value := by
  rw [valueAt, h]

theorem valueAt_of_size_le {net : Netlist} {i : Nat} (h : net.size ≤ i) : net.valueAt i = false := by
  rw [valueAt, Array.getElem?_eq_none h]

/-! ### The pass, gate by gate -/

/-- The value a gate takes when its turn comes. -/
def turn (net : Netlist) (g : Gate) : Bool :=
  if g.undecided (net.level g.in1) (net.level g.in2) then net.generator.draw.1
  else g.settled (net.level g.in1) (net.level g.in2)

/-- The generator after a gate's turn. -/
def turnGenerator (net : Netlist) (g : Gate) : Random.Generator :=
  if g.undecided (net.level g.in1) (net.level g.in2) then net.generator.draw.2 else net.generator

/-- A gate's turn changes its value and, perhaps, the generator. -/
theorem tickGate_eq {net : Netlist} {i : Nat} {g : Gate} (h : net.gates[i]? = some g) :
    net.tickGate i =
      { net with
        gates := net.gates.modify i fun g' => { g' with value := net.turn g }
        generator := net.turnGenerator g } := by
  simp only [tickGate, h, turn, turnGenerator]
  split <;> rfl

theorem tickGate_gates {net : Netlist} {i : Nat} {g : Gate} (h : net.gates[i]? = some g) (j : Nat) :
    (net.tickGate i).gates[j]? =
      net.gates[j]?.map fun g' => if i = j then { g' with value := net.turn g } else g' := by
  rw [tickGate_eq h, Array.getElem?_modify]
  split
  · rfl
  · rw [Option.map_id']

/-- The netlist after the turns of the first `k` gates. -/
def ticked (net : Netlist) (k : Nat) : Netlist := (List.range k).foldl tickGate net

theorem ticked_succ (net : Netlist) (k : Nat) : net.ticked (k + 1) = (net.ticked k).tickGate k := by
  rw [ticked, List.range_succ, List.foldl_append]
  rfl

theorem tick_eq_ticked (net : Netlist) : net.tick = net.ticked net.size := rfl

theorem tickGate_other (net : Netlist) {i j : Nat} (h : i ≠ j) :
    (net.tickGate i).gates[j]? = net.gates[j]? := by
  cases hg : net.gates[i]? with
  | none => rw [tickGate, hg]
  | some g =>
    simp only [tickGate_gates hg, h, if_false, Option.map_id']

/-- A gate whose turn has not come is as it was. -/
theorem ticked_later (net : Netlist) {k j : Nat} (h : k ≤ j) :
    (net.ticked k).gates[j]? = net.gates[j]? := by
  induction k with
  | zero => rfl
  | succ k ih => rw [ticked_succ, tickGate_other _ (by omega), ih (by omega)]

/-- A gate whose turn is over stays as it is. -/
theorem ticked_earlier (net : Netlist) {k j : Nat} (h : j < k) :
    (net.ticked k).gates[j]? = (net.ticked (j + 1)).gates[j]? := by
  induction k with
  | zero => omega
  | succ k ih =>
    rcases Nat.lt_succ_iff_lt_or_eq.mp h with hlt | rfl
    · rw [ticked_succ, tickGate_other _ (by omega), ih hlt]
    · rfl

theorem tick_gates {net : Netlist} {j : Nat} {g : Gate} (h : net.gates[j]? = some g) :
    net.tick.gates[j]? = some { g with value := (net.ticked j).turn g } := by
  have hj : j < net.size := (Array.getElem?_eq_some_iff.mp h).1
  have hturn : (net.ticked j).gates[j]? = some g := by rw [ticked_later net (Nat.le_refl j), h]
  rw [tick_eq_ticked, ticked_earlier net hj, ticked_succ, tickGate_gates hturn, hturn, Option.map_some,
    if_pos rfl]

/-- When its turn comes, a gate reads what its inputs hold after the tick. -/
theorem ticked_level {net : Netlist} (hw : net.WellFormed) {j : Nat} {g : Gate}
    (h : net.gates[j]? = some g) :
    (net.ticked j).level g.in1 = pinLevel net.tick.valueAt g.in1 ∧
      (net.ticked j).level g.in2 = pinLevel net.tick.valueAt g.in2 := by
  have hj : j < net.size := (Array.getElem?_eq_some_iff.mp h).1
  rw [level_eq, level_eq]
  apply (hw j g h).pinLevel_congr
  intro p hp
  rw [valueAt, valueAt, tick_eq_ticked, ticked_earlier net hp, ticked_earlier net (Nat.lt_trans hp hj)]

/-- The value a tick leaves, from the values it leaves on the pins. -/
theorem tick_valueAt {net : Netlist} (hw : net.WellFormed) {j : Nat} {g : Gate}
    (h : net.gates[j]? = some g) :
    net.tick.valueAt j =
      if g.undecided (pinLevel net.tick.valueAt g.in1) (pinLevel net.tick.valueAt g.in2) then
        (net.ticked j).generator.draw.1
      else g.settled (pinLevel net.tick.valueAt g.in1) (pinLevel net.tick.valueAt g.in2) := by
  obtain ⟨h1, h2⟩ := ticked_level hw h
  rw [valueAt_eq (tick_gates h), ← h1, ← h2]
  rfl

/-! ### Settled valuations -/

/-- `w` is a state in which the circuit can settle: every gate obeys its law under
`w`, from the value it holds in `net`. -/
def Settled (net : Netlist) (w : Nat → Bool) : Prop :=
  ∀ (i : Nat) (g : Gate), net.gates[i]? = some g →
    g.opcode.Law g.value (pinLevel w g.in1) (pinLevel w g.in2) (w i)

theorem tick_settled {net : Netlist} (hw : net.WellFormed) : net.Settled net.tick.valueAt := by
  intro i g hg
  rw [tick_valueAt hw hg]
  split
  · rename_i hu
    obtain ⟨hop, h1, h2⟩ := (g.undecided_iff _).mp hu
    rw [hop, h1, h2]
    simp [Opcode.Law]
  · rename_i hu
    exact g.law_settled _ _ (by simpa using hu)

/-- Two settled valuations that agree on contested latches agree on every gate. -/
theorem Settled.unique {net : Netlist} (hw : net.WellFormed) {w w' : Nat → Bool} (h : net.Settled w)
    (h' : net.Settled w')
    (hc : ∀ (i : Nat) (g : Gate), net.gates[i]? = some g → g.Contested w' → w i = w' i)
    (i : Nat) (hi : i < net.size) : w i = w' i := by
  -- pins are smaller numbers, so the pins of `i` agree by induction
  induction i using Nat.strongRecOn with
  | ind i ih =>
    have hg : net.gates[i]? = some net.gates[i] := Array.getElem?_eq_getElem hi
    obtain ⟨h1, h2⟩ := (hw i _ hg).pinLevel_congr fun p hp => ih p hp (Nat.lt_trans hp hi)
    by_cases hcon : net.gates[i].Contested w'
    · exact hc i _ hg hcon
    · have hlaw := h i _ hg
      rw [h1, h2] at hlaw
      exact hlaw.functional (h' i _ hg) hcon

/-! ### What a tick leaves alone -/

/-- The netlist up to values and the generator. -/
structure Revalued (net net' : Netlist) : Prop where
  gates : ∀ j : Nat, net'.gates[j]? = net.gates[j]?.map fun g => { g with value := net'.valueAt j }
  capacity : net'.capacity = net.capacity
  maxDepth : net'.maxDepth = net.maxDepth
  maxUsage : net'.maxUsage = net.maxUsage
  ports : net'.ports = net.ports

theorem Revalued.refl (net : Netlist) : Revalued net net := by
  refine ⟨fun j => ?_, rfl, rfl, rfl, rfl⟩
  cases hg : net.gates[j]? with
  | none => rfl
  | some g => rw [Option.map_some, valueAt_eq hg]

theorem Revalued.trans {a b c : Netlist} (hab : Revalued a b) (hbc : Revalued b c) : Revalued a c := by
  refine ⟨fun j => ?_, hbc.capacity.trans hab.capacity, hbc.maxDepth.trans hab.maxDepth,
    hbc.maxUsage.trans hab.maxUsage, hbc.ports.trans hab.ports⟩
  rw [hbc.gates j, hab.gates j, Option.map_map]
  rfl

theorem Revalued.size {net net' : Netlist} (h : Revalued net net') : net'.size = net.size := by
  have hnone (j : Nat) : net'.gates.size ≤ j ↔ net.gates.size ≤ j := by
    rw [← Array.getElem?_eq_none_iff, ← Array.getElem?_eq_none_iff, h.gates j, Option.map_eq_none_iff]
  exact Nat.le_antisymm ((hnone _).mpr (Nat.le_refl _)) ((hnone _).mp (Nat.le_refl _))

theorem Revalued.gate {net net' : Netlist} (h : Revalued net net') {i : Nat} {g' : Gate}
    (hg' : net'.gates[i]? = some g') : ∃ g, net.gates[i]? = some g ∧ g' = { g with value := g'.value } := by
  have hgate := h.gates i
  rw [hg'] at hgate
  obtain ⟨g, hg, heq⟩ := Option.map_eq_some_iff.mp hgate.symm
  exact ⟨g, hg, by rw [← heq]⟩

/-- Values have no part in being well formed. -/
theorem WellFormed.revalued {net net' : Netlist} (hw : net.WellFormed) (h : Revalued net net') :
    net'.WellFormed := by
  intro i g' hg'
  obtain ⟨g, hg, heq⟩ := h.gate hg'
  rw [heq]
  exact (hw i g hg).same ⟨rfl, rfl, rfl, rfl⟩

theorem Revalued.grows {net net' : Netlist} (h : Revalued net net') : Grows net net' := by
  refine ⟨⟨h.capacity, fun i g hg => ?_⟩, fun hi => ⟨by rw [h.size, h.capacity]; exact hi.room, hi.wired.revalued h⟩⟩
  refine ⟨{ g with value := net'.valueAt i }, ?_, ⟨rfl, rfl, rfl, rfl⟩⟩
  rw [h.gates i, hg, Option.map_some]

/-- Setting the value of one gate, and perhaps the generator. -/
theorem revalued_modify (net : Netlist) (i : Nat) (value : Bool) (generator : Random.Generator) :
    Revalued net
      { net with gates := net.gates.modify i fun g => { g with value }, generator } := by
  refine ⟨fun j => ?_, rfl, rfl, rfl, rfl⟩
  simp only [valueAt, Array.getElem?_modify]
  cases net.gates[j]? with
  | none => split <;> rfl
  | some g => split <;> rfl

theorem revalued_drive (net : Netlist) (i : Nat) (value : Bool) : Revalued net (net.drive i value) :=
  revalued_modify net i value net.generator

theorem revalued_tickGate (net : Netlist) (i : Nat) : Revalued net (net.tickGate i) := by
  cases hg : net.gates[i]? with
  | none =>
    rw [tickGate, hg]
    exact .refl net
  | some g =>
    rw [tickGate_eq hg]
    exact revalued_modify ..

theorem revalued_tick (net : Netlist) : Revalued net net.tick := by
  unfold tick
  generalize List.range net.size = turns
  induction turns generalizing net with
  | nil => exact .refl net
  | cons i rest ih => exact (revalued_tickGate net i).trans (ih _)

theorem revalued_writeSlots (net : Netlist) (value : Nat) (slots : List (Option Nat)) :
    Revalued net (net.writeSlots value slots) := by
  induction slots generalizing net value with
  | nil => exact .refl net
  | cons slot rest ih =>
    cases slot with
    | none => exact ih net (value / 2)
    | some gate => exact (revalued_drive net gate _).trans (ih _ _)

theorem revalued_write (net : Netlist) (bus : Bus) (value : Nat) : Revalued net (net.write bus value) :=
  revalued_writeSlots net value (bus.lowSlots 64)

theorem generator_write (net : Netlist) (bus : Bus) (value : Nat) :
    (net.write bus value).generator = net.generator := by
  unfold write
  generalize bus.lowSlots 64 = slots
  induction slots generalizing net value with
  | nil => rfl
  | cons slot rest ih => cases slot <;> exact ih _ _

/-! ### What a tick depends on -/

attribute [ext] Netlist

/-- Equal but for the values of gates that do not store theirs. -/
structure SameState (net other : Netlist) : Prop where
  size : other.size = net.size
  gates : ∀ (j : Nat) (g : Gate), net.gates[j]? = some g →
    ∃ value, other.gates[j]? = some { g with value } ∧ (g.opcode.stores = true → value = g.value)
  capacity : other.capacity = net.capacity
  maxDepth : other.maxDepth = net.maxDepth
  maxUsage : other.maxUsage = net.maxUsage
  ports : other.ports = net.ports
  generator : other.generator = net.generator

/-- A gate that does not store its value does not look at it. -/
theorem settled_congr (g : Gate) (value a b : Bool) (h : g.opcode.stores = true → value = g.value) :
    ({ g with value } : Gate).settled a b = g.settled a b := by
  unfold Gate.settled
  cases hop : g.opcode <;> simp_all [Opcode.stores]

/-- The turns of a gate in two netlists that agree on its pins and on what will be
drawn. -/
theorem turn_congr {net other : Netlist} {n : Nat} {g : Gate} (hg : g.WiredBelow n)
    (hgates : ∀ p, p < n → other.gates[p]? = net.gates[p]?) (hgen : other.generator = net.generator)
    (value : Bool) (hv : g.opcode.stores = true → value = g.value) :
    other.turn { g with value } = net.turn g ∧
      other.turnGenerator { g with value } = net.turnGenerator g := by
  have hvalue (p : Nat) (hp : p < n) : other.valueAt p = net.valueAt p := by
    rw [valueAt, valueAt, hgates p hp]
  obtain ⟨h1, h2⟩ := hg.pinLevel_congr hvalue
  have hu (a b : Bool) : ({ g with value } : Gate).undecided a b = g.undecided a b := rfl
  simp only [turn, turnGenerator, hu, level_eq, h1, h2, hgen, settled_congr g value _ _ hv, and_self]

/-- Gate by gate the two passes agree: on the gates whose turn is over, and on what
will be drawn next. -/
theorem ticked_congr {net other : Netlist} (hw : net.WellFormed) (h : SameState net other) (k : Nat)
    (hk : k ≤ net.size) :
    (∀ j, j < k → (other.ticked k).gates[j]? = (net.ticked k).gates[j]?) ∧
      (other.ticked k).generator = (net.ticked k).generator := by
  induction k with
  | zero => exact ⟨fun j hj => absurd hj (Nat.not_lt_zero j), h.generator⟩
  | succ k ih =>
    obtain ⟨ihgates, ihgen⟩ := ih (by omega)
    have hg : net.gates[k]? = some net.gates[k] := Array.getElem?_eq_getElem hk
    obtain ⟨value, hg', hv⟩ := h.gates k _ hg
    obtain ⟨hturn, hgen⟩ := turn_congr (hw k _ hg) ihgates ihgen value hv
    have hat : (net.ticked k).gates[k]? = some net.gates[k] := by
      rw [ticked_later net (Nat.le_refl k), hg]
    have hat' : (other.ticked k).gates[k]? = some { net.gates[k] with value } := by
      rw [ticked_later other (Nat.le_refl k), hg']
    rw [ticked_succ, ticked_succ]
    refine ⟨fun j hj => ?_, ?_⟩
    · rcases Nat.lt_succ_iff_lt_or_eq.mp hj with hlt | rfl
      · rw [tickGate_other _ (by omega), tickGate_other _ (by omega), ihgates j hlt]
      · rw [tickGate_gates hat', tickGate_gates hat, hat', hat, hturn, Option.map_some, Option.map_some,
          if_pos rfl, if_pos rfl]
    · rw [tickGate_eq hat', tickGate_eq hat]
      exact hgen

theorem tick_congr {net other : Netlist} (hw : net.WellFormed) (h : SameState net other) :
    other.tick = net.tick := by
  obtain ⟨hgates, hgen⟩ := ticked_congr hw h net.size (Nat.le_refl _)
  have hr := revalued_tick net
  have hr' := revalued_tick other
  have hticked : other.tick = other.ticked net.size := by rw [tick_eq_ticked, h.size]
  have harray : other.tick.gates = net.tick.gates := by
    apply Array.ext_getElem?
    intro j
    rcases Nat.lt_or_ge j net.size with hj | hj
    · rw [hticked, tick_eq_ticked]
      exact hgates j hj
    · have hsize : net.tick.gates.size ≤ j := Nat.le_trans (Nat.le_of_eq hr.size) hj
      have hsize' : other.tick.gates.size ≤ j :=
        Nat.le_trans (Nat.le_of_eq (hr'.size.trans h.size)) hj
      rw [Array.getElem?_eq_none hsize, Array.getElem?_eq_none hsize']
  have hgenerator : other.tick.generator = net.tick.generator := by
    rw [hticked, tick_eq_ticked]
    exact hgen
  exact Netlist.ext harray ((hr'.capacity.trans h.capacity).trans hr.capacity.symm)
    ((hr'.maxDepth.trans h.maxDepth).trans hr.maxDepth.symm)
    ((hr'.maxUsage.trans h.maxUsage).trans hr.maxUsage.symm)
    ((hr'.ports.trans h.ports).trans hr.ports.symm) hgenerator

/-- **A tick is the exact synchronous step of the circuit.** It changes values and
the generator only; every gate obeys its law on the values left on its pins; given
what the contested latches drew, no other valuation obeys these laws; and netlists
that differ only in what their combinational gates held tick to the same netlist. -/
theorem tick_exact (net : Netlist) (hw : net.WellFormed) :
    Revalued net net.tick ∧ net.Settled net.tick.valueAt ∧
      (∀ w : Nat → Bool, net.Settled w →
        (∀ (i : Nat) (g : Gate), net.gates[i]? = some g → g.Contested net.tick.valueAt →
          w i = net.tick.valueAt i) →
        ∀ i, i < net.size → w i = net.tick.valueAt i) ∧
      ∀ other : Netlist, SameState net other → other.tick = net.tick :=
  ⟨revalued_tick net, tick_settled hw, fun _ h hc => h.unique hw (tick_settled hw) hc,
    fun _ h => tick_congr hw h⟩

/-- Two driven gates, a latch they contest, its inverse and a clock. -/
def contestedSample : Netlist :=
  { Netlist.empty {} with
    gates := #[⟨.passthrough, none, none, true, 0, 1⟩, ⟨.passthrough, none, none, true, 0, 1⟩,
      ⟨.setReset, some 0, some 1, false, 1, 1⟩, ⟨.not, some 2, none, false, 2, 0⟩,
      ⟨.clock, none, none, false, 0, 0⟩] }

theorem tick_exact_contestedSample :
    contestedSample.WellFormed ∧
      contestedSample.tick.valueAt 3 = !contestedSample.tick.valueAt 2 ∧
      contestedSample.tick.valueAt 4 = true := by
  have hw : contestedSample.WellFormed := by decide
  obtain ⟨_, hlaws, _, _⟩ := tick_exact contestedSample hw
  exact ⟨hw, hlaws 3 _ rfl, hlaws 4 _ rfl⟩

end Netlist

end BusLogic
