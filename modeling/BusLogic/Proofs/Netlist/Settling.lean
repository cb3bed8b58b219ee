import BusLogic.Proofs.Netlist.Lockstep

/-! Circuits that come to rest.

Values that obey the law of every gate and contest no latch are left alone by a tick
(`tick_of_settled`). The values a tick leaves obey these laws, and all but clocks obey them
again from there (`Opcode.Law.again`), so a circuit without clocks rests after one tick
unless a latch is contested. A circuit without latches only looks at what its clocks and
its driven gates hold, and two ticks bring that back (`sameState_tick_tick`). -/
namespace BusLogic

/-- Other than a clock, a gate may keep the value that its law gave it. -/
theorem Opcode.Law.again {op : Opcode} {old a b new : Bool} (h : op.Law old a b new) (hop : op ≠ .clock) :
    op.Law new a b new := by
  cases op <;> simp_all [Opcode.Law]

instance (g : Gate) (w : Nat → Bool) : Decidable (g.Contested w) :=
  inferInstanceAs (Decidable (_ ∧ _ ∧ _))

namespace Netlist

/-- No gate has this operation. -/
def Lacks (op : Opcode) (net : Netlist) : Prop := ∀ g ∈ net.gates, g.opcode ≠ op

/-- No latch is told to set and to reset at once. -/
def Uncontested (net : Netlist) : Prop := ∀ g ∈ net.gates, ¬ g.Contested net.valueAt

instance (op : Opcode) (net : Netlist) : Decidable (net.Lacks op) :=
  inferInstanceAs (Decidable (∀ g ∈ net.gates, g.opcode ≠ op))

instance (net : Netlist) : Decidable net.Uncontested :=
  inferInstanceAs (Decidable (∀ g ∈ net.gates, ¬ g.Contested net.valueAt))

theorem Lacks.revalued {op : Opcode} {net net' : Netlist} (h : net.Lacks op) (hr : Revalued net net') :
    net'.Lacks op := by
  intro g' hg'
  obtain ⟨i, hi⟩ := Array.mem_iff_getElem?.mp hg'
  obtain ⟨g, hg, heq⟩ := hr.gate hi
  rw [heq]
  exact h g (Array.mem_of_getElem? hg)

/-- Without latches nothing is drawn. -/
theorem Lacks.calm {net : Netlist} (h : net.Lacks .setReset) : net.CalmFrom 0 := by
  intro i _ ⟨g, hg, hdraws⟩
  have hop := h g (Array.mem_of_getElem? hg)
  simp [Gate.undecided, hop] at hdraws

theorem generator_tick_of_calm {net : Netlist} (h : net.CalmFrom 0) : net.tick.generator = net.generator :=
  generator_ticked_of_calm (Nat.zero_le net.size) h

theorem Revalued.eq_of_valueAt {net net' : Netlist} (h : Revalued net net')
    (hvalue : ∀ i, net'.valueAt i = net.valueAt i) (hgen : net'.generator = net.generator) : net' = net := by
  have hgates : net'.gates = net.gates := gates_eq_of_valueAt rfl (.refl net) h hvalue
  exact Netlist.ext hgates h.capacity h.maxDepth h.maxUsage h.ports hgen

/-! ### Values at rest -/

section Rest
variable {net : Netlist} (hw : net.WellFormed) (hs : net.Settled net.valueAt) (hc : net.Uncontested)
include hw hs hc

theorem tick_valueAt_of_settled (i : Nat) : net.tick.valueAt i = net.valueAt i := by
  by_cases hi : i < net.size
  · apply (tick_settled hw).unique hw hs _ i hi
    intro j g hg hcontested
    exact absurd hcontested (hc g (Array.mem_of_getElem? hg))
  · have hsize := (revalued_tick net).size
    rw [valueAt_of_size_le (Nat.not_lt.mp hi), valueAt_of_size_le (by omega)]

/-- A latch that is not contested by the values before a tick draws nothing in it. -/
theorem calm_of_settled : net.CalmFrom 0 := by
  intro i _ ⟨g, hg, hdraws⟩
  obtain ⟨h1, h2⟩ := ticked_level hw hg
  have hvalues : net.tick.valueAt = net.valueAt := funext (tick_valueAt_of_settled hw hs hc)
  rw [h1, h2, hvalues, Gate.undecided_iff] at hdraws
  exact hc g (Array.mem_of_getElem? hg) hdraws

/-- Values that obey every law and contest no latch stay. -/
theorem tick_of_settled : net.tick = net :=
  (revalued_tick net).eq_of_valueAt (tick_valueAt_of_settled hw hs hc)
    (generator_tick_of_calm (calm_of_settled hw hs hc))

end Rest

/-- Without clocks, the values a tick leaves obey the laws from themselves. -/
theorem settled_tick {net : Netlist} (hw : net.WellFormed) (hclock : net.Lacks .clock) :
    net.tick.Settled net.tick.valueAt := by
  intro i g' hg'
  obtain ⟨g, hg, heq⟩ := (revalued_tick net).gate hg'
  have hlaw := (tick_settled hw i g hg).again (hclock g (Array.mem_of_getElem? hg))
  rw [valueAt_eq hg'] at hlaw ⊢
  rw [heq]
  exact hlaw

/-! ### Clocks -/

theorem tick_clock {net : Netlist} (hw : net.WellFormed) {i : Nat} {g : Gate} (hg : net.gates[i]? = some g)
    (hop : g.opcode = .clock) : net.tick.valueAt i = !net.valueAt i := by
  have hlaw := tick_settled hw i g hg
  rw [hop] at hlaw
  rw [valueAt_eq hg]
  exact hlaw

/-- A clock flips at each tick. -/
theorem ticks_clock {net : Netlist} (hw : net.WellFormed) {i : Nat} {g : Gate} (hg : net.gates[i]? = some g)
    (hop : g.opcode = .clock) (k : Nat) : (ticks (k + 1) net).valueAt i = !(ticks k net).valueAt i := by
  induction k generalizing net g with
  | zero => exact tick_clock hw hg hop
  | succ k ih =>
    have hr := revalued_tick net
    have hg' : net.tick.gates[i]? = some { g with value := net.tick.valueAt i } := by
      rw [hr.gates i, hg, Option.map_some]
    exact ih (hw.revalued hr) hg' hop

/-- Two ticks bring back what a gate other than a latch stores. -/
theorem tick_tick_valueAt {net : Netlist} (hw : net.WellFormed) {i : Nat} {g : Gate} (hg : net.gates[i]? = some g)
    (hlatch : g.opcode ≠ .setReset) (hstores : g.opcode.stores = true) : net.tick.tick.valueAt i = g.value := by
  have hr := revalued_tick net
  have hg' : net.tick.gates[i]? = some { g with value := net.tick.valueAt i } := by
    rw [hr.gates i, hg, Option.map_some]
  have hfirst := tick_settled hw i g hg
  have hsecond := tick_settled (hw.revalued hr) i _ hg'
  cases hop : g.opcode <;> simp_all [Opcode.stores, Opcode.Law]

theorem sameState_tick_tick {net : Netlist} (hw : net.WellFormed) (hlatch : net.Lacks .setReset) :
    SameState net net.tick.tick := by
  have hr := revalued_tick net
  have hr' := hr.trans (revalued_tick net.tick)
  refine ⟨hr'.size, fun i g hg => ?_, hr'.capacity, hr'.maxDepth, hr'.maxUsage, hr'.ports, ?_⟩
  · refine ⟨net.tick.tick.valueAt i, by rw [hr'.gates i, hg, Option.map_some], fun hstores => ?_⟩
    exact tick_tick_valueAt hw hg (hlatch g (Array.mem_of_getElem? hg)) hstores
  · rw [generator_tick_of_calm (hlatch.revalued hr).calm, generator_tick_of_calm hlatch.calm]

/-- **One tick settles a circuit.** Without clocks, and if the values that a tick leaves
contest no latch, a second tick changes nothing, whatever the gates held before. Without
latches the third tick does what the first did, and every clock flips at each tick. -/
theorem tick_settles (net : Netlist) (hw : net.WellFormed) :
    (net.Lacks .clock → net.tick.Uncontested → net.tick.tick = net.tick) ∧
      (net.Lacks .setReset → net.tick.tick.tick = net.tick ∧
        ∀ i g, net.gates[i]? = some g → g.opcode = .clock →
          ∀ k, (ticks (k + 1) net).valueAt i = !(ticks k net).valueAt i) := by
  refine ⟨fun hclock hcalm => ?_, fun hlatch => ⟨?_, fun i g hg hop => ticks_clock hw hg hop⟩⟩
  · exact tick_of_settled (hw.revalued (revalued_tick net)) (settled_tick hw hclock) hcalm
  · exact tick_congr hw (sameState_tick_tick hw hlatch)

/-- A latch that feeds another one, with an inverter in between that holds a stale value. -/
def chainedSample : Netlist :=
  { Netlist.empty {} with
    gates := #[⟨.passthrough, none, none, false, 0, 1⟩, ⟨.passthrough, none, none, true, 0, 1⟩,
      ⟨.setReset, some 0, some 1, false, 1, 2⟩, ⟨.not, some 2, none, true, 2, 1⟩,
      ⟨.setReset, some 2, some 3, true, 3, 0⟩] }

/-- A clock and a driven gate, combined. -/
def clockedSample : Netlist :=
  { Netlist.empty {} with
    gates := #[⟨.clock, none, none, true, 0, 1⟩, ⟨.passthrough, none, none, true, 0, 1⟩,
      ⟨.xor, some 0, some 1, true, 1, 0⟩] }

theorem tick_settles_samples :
    chainedSample.WellFormed ∧ chainedSample.tick ≠ chainedSample ∧ chainedSample.tick.tick = chainedSample.tick ∧
      clockedSample.WellFormed ∧ clockedSample.tick.tick ≠ clockedSample.tick ∧
      clockedSample.tick.tick.tick = clockedSample.tick ∧
      (ticks 8 clockedSample).valueAt 0 = !(ticks 7 clockedSample).valueAt 0 := by
  have hchained : chainedSample.WellFormed := by decide
  have hclocked : clockedSample.WellFormed := by decide
  have hmoves : chainedSample.tick ≠ chainedSample := fun h => by
    have hvalue : chainedSample.tick.valueAt 4 = false := by decide
    rw [h] at hvalue
    exact absurd hvalue (by decide)
  have hflips : clockedSample.tick.tick ≠ clockedSample.tick := fun h => by
    have hvalue : clockedSample.tick.tick.valueAt 0 = !clockedSample.tick.valueAt 0 := by decide
    rw [h] at hvalue
    exact absurd hvalue (by decide)
  obtain ⟨hperiod, hclock⟩ := (tick_settles clockedSample hclocked).2 (by decide)
  exact ⟨hchained, hmoves, (tick_settles chainedSample hchained).1 (by decide) (by decide), hclocked, hflips, hperiod,
    hclock 0 _ rfl rfl 7⟩

end Netlist

end BusLogic
