import BusLogic.Proofs.Netlist.Tick
import Mathlib.Order.Lattice.Nat

/-! Numbers on buses.

A number is written slot by slot, so that a gate in several slots takes the bit of the last
of them (`valueAt_writeSlots`), and it is read slot by slot as well (`testBit_readSlots`).
Both look at the first 64 slots and skip what is not there, so what was written is read
again, but for the slots that a later one has overruled. -/
namespace BusLogic.Netlist

variable {net : Netlist}

/-! ### Writing -/

theorem gates_drive (net : Netlist) (i : Nat) (value : Bool) (j : Nat) :
    (net.drive i value).gates[j]? = net.gates[j]?.map fun g => if i = j then { g with value } else g := by
  rw [drive, Array.getElem?_modify]
  by_cases h : i = j <;> simp [h]

theorem valueAt_drive (net : Netlist) {i : Nat} (hi : i < net.size) (value : Bool) (j : Nat) :
    (net.drive i value).valueAt j = if j = i then value else net.valueAt j := by
  by_cases h : j = i
  · subst h
    have hg : net.gates[j]? = some net.gates[j] := Array.getElem?_eq_getElem hi
    simp [valueAt, gates_drive, hg]
  · simp [valueAt, gates_drive, h, Ne.symm h]

@[simp] theorem writeSlots_none (net : Netlist) (value : Nat) (rest : List (Option Nat)) :
    net.writeSlots value (none :: rest) = net.writeSlots (value / 2) rest := rfl

@[simp] theorem writeSlots_some (net : Netlist) (value gate : Nat) (rest : List (Option Nat)) :
    net.writeSlots value (some gate :: rest) =
      (net.drive gate (value % 2 == 1)).writeSlots (value / 2) rest := rfl

/-- A gate that stands in no slot is left alone. -/
theorem gates_writeSlots {slots : List (Option Nat)} {gate : Nat} (h : some gate ∉ slots) (net : Netlist)
    (value : Nat) : (net.writeSlots value slots).gates[gate]? = net.gates[gate]? := by
  induction slots generalizing net value with
  | nil => rfl
  | cons slot rest ih =>
    obtain ⟨hne, hrest⟩ : some gate ≠ slot ∧ some gate ∉ rest := by simpa using h
    cases slot with
    | none => exact ih hrest net (value / 2)
    | some other =>
      have hother : other ≠ gate := fun heq => hne (congrArg some heq.symm)
      simp [ih hrest, gates_drive, hother]

/-- Of the slots in which a gate stands, the last one decides. -/
theorem valueAt_writeSlots {slots : List (Option Nat)} {gate m : Nat} (hgate : gate < net.size)
    (hm : IsGreatest {k | slots[k]? = some (some gate)} m) (value : Nat) :
    (net.writeSlots value slots).valueAt gate = value.testBit m := by
  obtain ⟨hat, hlast⟩ := hm
  induction slots generalizing net value m with
  | nil => cases hat
  | cons slot rest ih =>
    cases m with
    | zero =>
      obtain rfl : slot = some gate := Option.some.inj hat
      -- no later slot has the gate, so it keeps what it is driven with here
      have hrest : some gate ∉ rest := by
        intro hmem
        obtain ⟨k, hk⟩ := List.mem_iff_getElem?.mp hmem
        exact absurd (hlast (a := k + 1) hk) (Nat.not_succ_le_zero k)
      rw [writeSlots_some, valueAt, gates_writeSlots hrest, ← valueAt, valueAt_drive net hgate, if_pos rfl,
        Nat.testBit_zero]
      rfl
    | succ m =>
      have hlater : m ∈ upperBounds {k | rest[k]? = some (some gate)} := by
        intro k hk
        exact Nat.le_of_succ_le_succ (hlast (a := k + 1) hk)
      rw [Nat.testBit_succ]
      cases slot with
      | none => exact ih hgate _ hat hlater
      | some other => exact ih (by rwa [(revalued_drive net other _).size]) _ hat hlater

/-! ### Reading -/

/-- Each bit is what its slot carries; where there is no slot, it is low. -/
theorem testBit_readSlots (net : Netlist) (slots : List (Option Nat)) (j : Nat) :
    (net.readSlots slots).testBit j = net.level (slots[j]?.getD none) := by
  induction slots generalizing j with
  | nil => simp [readSlots, level]
  | cons slot rest ih =>
    rw [readSlots]
    cases j with
    | zero => cases h : net.level slot <;> simp [h, Nat.testBit_zero, Nat.add_mod]
    | succ j =>
      have hhalf : ((net.level slot).toNat + 2 * net.readSlots rest) / 2 = net.readSlots rest := by
        have hbit := Bool.toNat_lt (net.level slot)
        omega
      rw [Nat.testBit_succ, hhalf, ih, List.getElem?_cons_succ]

theorem testBit_readBus (net : Netlist) (bus : Bus) (j : Nat) :
    (net.readBus bus).testBit j = net.level ((bus.slots.take 64)[j]?.getD none) := by
  rw [readBus, Bus.lowSlots_eq_take, testBit_readSlots]

/-- Beyond its slots, and beyond the first 64, a bus shows nothing. -/
theorem testBit_readBus_of_le {bus : Bus} {j : Nat} (hj : min bus.width 64 ≤ j) :
    (net.readBus bus).testBit j = false := by
  have hout : (bus.slots.take 64).length ≤ j := by
    rw [List.length_take, Bus.length_slots, Nat.min_comm]
    exact hj
  rw [testBit_readBus, List.getElem?_eq_none hout]
  rfl

/-! ### Holding -/

/-- A gate that is driven from outside holds through a tick. -/
theorem tick_passthrough {i : Nat} {g : Gate} (hg : net.gates[i]? = some g) (hop : g.opcode = .passthrough) :
    net.tick.gates[i]? = some g := by
  have hturn : (net.ticked i).turn g = g.value := by simp [turn, Gate.undecided, Gate.settled, hop]
  rw [tick_gates hg, hturn]

theorem ticks_passthrough {i : Nat} {g : Gate} (hg : net.gates[i]? = some g) (hop : g.opcode = .passthrough)
    (n : Nat) : (net.ticks n).gates[i]? = some g := by
  induction n generalizing net with
  | zero => exact hg
  | succ n ih => exact ih (tick_passthrough hg hop)

/-! ### What was written -/

/-- The slots with a gate among the first 64. -/
theorem setOf_take_slots (bus : Bus) (gate : Nat) :
    {m | (bus.slots.take 64)[m]? = some (some gate)} = {m | m < 64 ∧ bus.slots[m]? = some (some gate)} := by
  ext m
  by_cases hm : m < 64 <;> simp [List.getElem?_take, hm]

/-- Over distinct gates, a gate has one slot. -/
theorem setOf_slots_of_nodup {gates : List Nat} {gate j : Nat} (hnodup : gates.Nodup) (hj : gates[j]? = some gate) :
    {m | (gates.map some)[m]? = some (some gate)} = {j} := by
  ext m
  have hlt : j < gates.length := (List.getElem?_eq_some_iff.mp hj).1
  have hinj : gates[j]? = gates[m]? ↔ j = m := List.getElem?_inj hlt hnodup
  rw [hj] at hinj
  simp [eq_comm, hinj]

/-- If a gate stands in one of the first 64 slots, it does so in a last one. -/
theorem exists_last_slot {bus : Bus} {gate j : Nat} (hj : j < 64) (hslot : bus.slots[j]? = some (some gate)) :
    ∃ m, IsGreatest {m | m < 64 ∧ bus.slots[m]? = some (some gate)} m := by
  have hbound : BddAbove {m | m < 64 ∧ bus.slots[m]? = some (some gate)} := ⟨64, fun m hm => hm.1.le⟩
  exact ⟨_, Nat.sSup_mem ⟨j, hj, hslot⟩ hbound, fun m hm => le_csSup hbound hm⟩

/-- A gate takes the bit of its last slot. -/
theorem valueAt_write {bus : Bus} {gate m : Nat} (hgate : gate < net.size)
    (hm : IsGreatest {m | m < 64 ∧ bus.slots[m]? = some (some gate)} m) (value : Nat) :
    (net.write bus value).valueAt gate = value.testBit m := by
  rw [write, Bus.lowSlots_eq_take]
  exact valueAt_writeSlots hgate (by rwa [setOf_take_slots]) value

/-- A gate in none of the first 64 slots is left alone. -/
theorem gates_write {bus : Bus} {gate : Nat} (hgate : ∀ m < 64, bus.slots[m]? ≠ some (some gate)) (value : Nat) :
    (net.write bus value).gates[gate]? = net.gates[gate]? := by
  rw [write, Bus.lowSlots_eq_take]
  apply gates_writeSlots
  intro hmem
  obtain ⟨m, hm⟩ := List.mem_iff_getElem?.mp hmem
  have hm' : m ∈ {m | m < 64 ∧ bus.slots[m]? = some (some gate)} := by rwa [← setOf_take_slots]
  exact hgate m hm'.1 hm'.2

/-- Over distinct gates, each takes the bit of its own slot. -/
theorem valueAt_write_of_nodup {bus : Bus} {gates : List Nat} (hslots : bus.slots.take 64 = gates.map some)
    (hnodup : gates.Nodup) {j gate : Nat} (hj : gates[j]? = some gate) (hgate : gate < net.size) (value : Nat) :
    (net.write bus value).valueAt gate = value.testBit j := by
  apply valueAt_write hgate
  rw [← setOf_take_slots, hslots, setOf_slots_of_nodup hnodup hj]
  exact isGreatest_singleton

/-- A gate that is driven from outside still has, after any number of ticks, what was
written. -/
theorem valueAt_ticks_write {gate : Nat} {g : Gate} (hg : net.gates[gate]? = some g) (hop : g.opcode = .passthrough)
    (bus : Bus) (value n : Nat) :
    ((net.write bus value).ticks n).valueAt gate = (net.write bus value).valueAt gate := by
  have hgate : (net.write bus value).gates[gate]? = some { g with value := (net.write bus value).valueAt gate } := by
    rw [(revalued_write net bus value).gates gate, hg, Option.map_some]
  rw [valueAt_eq (ticks_passthrough hgate hop n)]

/-- Over distinct gates that hold the bits of a number, the bus shows the number, as far as
it goes. -/
theorem readBus_of_valueAt {bus : Bus} {gates : List Nat} (hslots : bus.slots.take 64 = gates.map some)
    {value : Nat} (h : ∀ (j gate : Nat), gates[j]? = some gate → net.valueAt gate = value.testBit j) :
    net.readBus bus = value % 2 ^ min bus.width 64 := by
  have hlen : gates.length = min bus.width 64 := by
    rw [← List.length_map some, ← hslots, List.length_take, Bus.length_slots, Nat.min_comm]
  apply Nat.eq_of_testBit_eq
  intro j
  rw [testBit_readBus, hslots, List.getElem?_map, Nat.testBit_mod_two_pow, ← hlen]
  cases hj : gates[j]? with
  | none => simp [level, List.getElem?_eq_none_iff.mp hj]
  | some gate => simp [level, h j gate hj, (List.getElem?_eq_some_iff.mp hj).1]

/-- **What is written on a bus is read from it again**, whatever the bus. Of the first 64
slots, one whose gate is there shows the bit that the last slot with this gate was given;
one that is unbound, or whose gate is not there, shows none, and neither do slots beyond.
Nothing but values has changed, and these only on gates in the first 64 slots. So a bus
over distinct gates shows the number written, as far as it goes, and if the gates are driven
from outside, it does so however many ticks go by. -/
theorem readBus_write (net : Netlist) (bus : Bus) (value : Nat) :
    let written := net.write bus value
    (∀ j < min bus.width 64,
      (∀ gate, bus.slots[j]? = some (some gate) → gate < net.size →
        ∃ m, IsGreatest {m | m < 64 ∧ bus.slots[m]? = some (some gate)} m ∧
          (written.readBus bus).testBit j = value.testBit m) ∧
      ((∀ gate, bus.slots[j]? = some (some gate) → net.size ≤ gate) → (written.readBus bus).testBit j = false)) ∧
    (∀ j, min bus.width 64 ≤ j → (written.readBus bus).testBit j = false) ∧
    (net.Revalued written ∧ written.generator = net.generator ∧
      ∀ gate, (∀ m < 64, bus.slots[m]? ≠ some (some gate)) → written.gates[gate]? = net.gates[gate]?) ∧
    ∀ gates : List Nat, bus.slots.take 64 = gates.map some → gates.Nodup → (∀ gate ∈ gates, gate < net.size) →
      written.readBus bus = value % 2 ^ min bus.width 64 ∧
      ((∀ gate ∈ gates, ∃ g, net.gates[gate]? = some g ∧ g.opcode = .passthrough) →
        ∀ n, (written.ticks n).readBus bus = value % 2 ^ min bus.width 64) := by
  intro written
  have hrevalued : net.Revalued written := revalued_write net bus value
  have hbit (j : Nat) (hj : j < 64) : (written.readBus bus).testBit j = written.level (bus.slots[j]?.getD none) := by
    rw [testBit_readBus, List.getElem?_take_of_lt hj]
  refine ⟨fun j hj => ⟨fun gate hslot hgate => ?_, fun hnone => ?_⟩, fun j hj => testBit_readBus_of_le hj,
    ⟨hrevalued, generator_write net bus value, fun gate hgate => gates_write hgate value⟩, ?_⟩
  · obtain ⟨m, hm⟩ := exists_last_slot (by omega) hslot
    refine ⟨m, hm, ?_⟩
    rw [hbit j (by omega), hslot]
    exact valueAt_write hgate hm value
  · rw [hbit j (by omega)]
    rcases hslot : bus.slots[j]? with _ | _ | gate
    · rfl
    · rfl
    · exact valueAt_of_size_le (by rw [hrevalued.size]; exact hnone gate hslot)
  · intro gates hslots hnodup hin
    have hvalue (j gate : Nat) (hj : gates[j]? = some gate) : written.valueAt gate = value.testBit j :=
      valueAt_write_of_nodup hslots hnodup hj (hin gate (List.mem_of_getElem? hj)) value
    refine ⟨readBus_of_valueAt hslots hvalue, fun hop n => readBus_of_valueAt hslots fun j gate hj => ?_⟩
    obtain ⟨g, hg, hpass⟩ := hop gate (List.mem_of_getElem? hj)
    rw [valueAt_ticks_write hg hpass, hvalue j gate hj]

/-- Two inputs and the negation of the first. -/
def negatedSample : Netlist :=
  { Netlist.empty {} with
    gates := #[⟨.passthrough, none, none, true, 0, 1⟩, ⟨.passthrough, none, none, false, 0, 0⟩,
      ⟨.not, some 0, none, false, 1, 0⟩] }

/-- The first gate twice, with an unbound slot between, and a gate that is not there. -/
def overlappingSample : Bus := .explicit [some 0, none, some 1, some 0, some 7]

/-- Of 5 on five slots, the bit of the first is overruled by that of the fourth, and what is
left is 4; on the two inputs alone, it is 1 for as long as one likes. -/
theorem readBus_write_negatedSample :
    ((negatedSample.write overlappingSample 5).readBus overlappingSample).testBit 0 = false ∧
      ((negatedSample.write overlappingSample 5).readBus overlappingSample).testBit 4 = false ∧
      (negatedSample.write overlappingSample 5).gates[2]? = negatedSample.gates[2]? ∧
      ∀ n, ((negatedSample.write (.contiguous 0 2) 5).ticks n).readBus (.contiguous 0 2) = 1 := by
  obtain ⟨hbits, -, ⟨-, -, hframe⟩, -⟩ := readBus_write negatedSample overlappingSample 5
  obtain ⟨-, -, -, hdistinct⟩ := readBus_write negatedSample (.contiguous 0 2) 5
  have hlast : IsGreatest {m | m < 64 ∧ overlappingSample.slots[m]? = some (some 0)} 3 := by
    refine ⟨by decide, fun m ⟨hm, hslot⟩ => ?_⟩
    have hall : ∀ m < 64, overlappingSample.slots[m]? = some (some 0) → m ≤ 3 := by decide
    exact hall m hm hslot
  refine ⟨?_, (hbits 4 (by decide)).2 (by rintro _ ⟨⟩; decide), hframe 2 (by decide), ?_⟩
  · obtain ⟨m, hm, hbit⟩ := (hbits 0 (by decide)).1 0 rfl (by decide)
    rw [hbit, hm.unique hlast]
    rfl
  · exact (hdistinct [0, 1] rfl (by decide) (by decide)).2 (by decide)

end BusLogic.Netlist
