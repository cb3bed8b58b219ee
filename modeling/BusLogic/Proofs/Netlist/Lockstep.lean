import BusLogic.Proofs.Netlist.Tally

/-! Netlists that run in step.

On its turn a gate reads the gates behind its pins and, if it is a latch told to set and
to reset at once, one drawn bit; nothing else has a say in its value. So take a set of
gates that holds whatever its gates read (`Closed`), and two netlists that agree on it
(`SameOn`): a turn keeps them in agreement, provided that a bit drawn in the set is the
same on both sides (`SameOn.tickGate`), and by induction so do a tick and a whole run.

Two sets of gates give the two results. The gates a netlist had before more were
appended do not notice those, until one of the new latches draws a bit
(`appended_unnoticed`). The gates without a latch in their fan-in do not notice which
bits are drawn at all, and if no latch draws, no gate does (`seed_unnoticed`). -/
namespace BusLogic

/-- The gate without its counters. -/
def Gate.bare (g : Gate) : Gate := { g with depth := 0, usage := 0 }

namespace Netlist

/-- The two netlists have the same gates in `S`, with the same values, up to the counters. -/
def SameOn (S : Nat → Prop) (a b : Netlist) : Prop :=
  ∀ i, S i → b.gates[i]?.map Gate.bare = a.gates[i]?.map Gate.bare

/-- The gates in `S` read gates in `S`. -/
def Closed (S : Nat → Prop) (net : Netlist) : Prop :=
  ∀ i g, S i → net.gates[i]? = some g → ∀ p ∈ g.pins, S p

/-- There is no latch in `S`. -/
def Latchless (S : Nat → Prop) (net : Netlist) : Prop :=
  ∀ i g, S i → net.gates[i]? = some g → g.opcode ≠ .setReset

/-- When its turn comes on the next tick, gate `i` is a latch told to set and to reset at
once. -/
def DrawsAt (net : Netlist) (i : Nat) : Prop :=
  ∃ g, net.gates[i]? = some g ∧ g.undecided ((net.ticked i).level g.in1) ((net.ticked i).level g.in2) = true

/-- On the next tick no latch from gate `first` on draws a bit. -/
def CalmFrom (first : Nat) (net : Netlist) : Prop := ∀ i, first ≤ i → ¬ net.DrawsAt i

instance (net : Netlist) (i : Nat) : Decidable (net.DrawsAt i) :=
  decidable_of_iff (∃ g ∈ net.gates[i]?,
    g.undecided ((net.ticked i).level g.in1) ((net.ticked i).level g.in2) = true) Iff.rfl

instance (first : Nat) (net : Netlist) : Decidable (net.CalmFrom first) :=
  decidable_of_iff (∀ i < net.size, first ≤ i → ¬ net.DrawsAt i)
    ⟨fun h i hi hdraws => h i (Array.getElem?_eq_some_iff.mp hdraws.choose_spec.1).1 hi hdraws,
      fun h i _ hi => h i hi⟩

section SameOn
variable {S : Nat → Prop} {a b : Netlist} (h : SameOn S a b)
include h

theorem SameOn.gate {i : Nat} {g : Gate} (hi : S i) (hg : a.gates[i]? = some g) :
    ∃ g', b.gates[i]? = some g' ∧ g'.bare = g.bare := by
  have hsame := h i hi
  rw [hg, Option.map_some] at hsame
  exact Option.map_eq_some_iff.mp hsame

theorem SameOn.none {i : Nat} (hi : S i) (hg : a.gates[i]? = none) : b.gates[i]? = none := by
  have hsame := h i hi
  rw [hg, Option.map_none] at hsame
  exact Option.map_eq_none_iff.mp hsame

theorem SameOn.valueAt {i : Nat} (hi : S i) : b.valueAt i = a.valueAt i := by
  cases hg : a.gates[i]? with
  | none => rw [Netlist.valueAt, Netlist.valueAt, hg, h.none hi hg]
  | some g =>
    obtain ⟨g', hg', hbare⟩ := h.gate hi hg
    rw [valueAt_eq hg, valueAt_eq hg']
    exact (congrArg Gate.value hbare :)

/-- What a gate in `S` reads and makes of it. -/
theorem SameOn.turn (hc : Closed S a) {i : Nat} {g g' : Gate} (hi : S i) (hg : a.gates[i]? = some g)
    (hbare : g'.bare = g.bare) :
    g'.undecided (b.level g'.in1) (b.level g'.in2) = g.undecided (a.level g.in1) (a.level g.in2) ∧
      g'.settled (b.level g'.in1) (b.level g'.in2) = g.settled (a.level g.in1) (a.level g.in2) := by
  have hin1 : g'.in1 = g.in1 := (congrArg Gate.in1 hbare :)
  have hin2 : g'.in2 = g.in2 := (congrArg Gate.in2 hbare :)
  have hlevel (pin : Option Nat) (hpins : ∀ p ∈ pin, p ∈ g.pins) : b.level pin = a.level pin := by
    rw [level_eq, level_eq]
    exact pinLevel_congr fun p hp => h.valueAt (hc i g hi hg p (hpins p hp))
  have h1 := hlevel g.in1 fun p hp => by simp_all [Gate.pins]
  have h2 := hlevel g.in2 fun p hp => by simp_all [Gate.pins]
  rw [hin1, hin2, h1, h2]
  constructor
  · show g'.bare.undecided _ _ = g.bare.undecided _ _
    rw [hbare]
  · show g'.bare.settled _ _ = g.bare.settled _ _
    rw [hbare]

end SameOn

/-! ### Structure behind values -/

theorem Closed.revalued {S : Nat → Prop} {net net' : Netlist} (hc : Closed S net) (h : Revalued net net') :
    Closed S net' := by
  intro i g' hi hg'
  obtain ⟨g, hg, heq⟩ := h.gate hg'
  rw [heq]
  exact hc i g hi hg

theorem Latchless.revalued {S : Nat → Prop} {net net' : Netlist} (hl : Latchless S net)
    (h : Revalued net net') : Latchless S net' := by
  intro i g' hi hg'
  obtain ⟨g, hg, heq⟩ := h.gate hg'
  rw [heq]
  exact hl i g hi hg

theorem revalued_ticked (net : Netlist) (k : Nat) : Revalued net (net.ticked k) := by
  induction k with
  | zero => exact .refl net
  | succ k ih =>
    rw [ticked_succ]
    exact ih.trans (revalued_tickGate _ k)

/-- Past the last gate there are no more turns. -/
theorem ticked_of_size_le {net : Netlist} {k : Nat} (h : net.size ≤ k) : net.ticked k = net.tick := by
  induction h with
  | refl => rfl
  | @step k hk ih =>
    have hnone : net.tick.gates[k]? = none :=
      Array.getElem?_eq_none (Nat.le_trans (Nat.le_of_eq (revalued_tick net).size) hk)
    rw [ticked_succ, ih, tickGate, hnone]

/-! ### One turn -/

section Turn
variable {S : Nat → Prop} {a b : Netlist} (h : SameOn S a b) (hc : Closed S a)
include h hc

/-- A turn keeps the netlists in agreement, if a bit that is drawn in `S` is the same. -/
theorem SameOn.tickGate {k : Nat}
    (hdraw : ∀ g, S k → a.gates[k]? = some g → g.undecided (a.level g.in1) (a.level g.in2) = true →
      b.generator.draw.1 = a.generator.draw.1) : SameOn S (a.tickGate k) (b.tickGate k) := by
  intro i hi
  by_cases hik : k = i
  · subst hik
    cases hg : a.gates[k]? with
    | none => rw [Netlist.tickGate, Netlist.tickGate, hg, h.none hi hg]; exact h k hi
    | some g =>
      obtain ⟨g', hg', hbare⟩ := h.gate hi hg
      obtain ⟨hundecided, hsettled⟩ := h.turn hc hi hg hbare
      have hturn : b.turn g' = a.turn g := by
        rw [Netlist.turn, Netlist.turn, hundecided, hsettled]
        split
        · rename_i hu
          exact hdraw g hi hg hu
        · rfl
      rw [tickGate_gates hg, tickGate_gates hg', hg, hg', Option.map_some, Option.map_some, Option.map_some,
        Option.map_some, if_pos rfl, if_pos rfl, hturn]
      show some { g'.bare with value := a.turn g } = some { g.bare with value := a.turn g }
      rw [hbare]
  · rw [tickGate_other _ hik, tickGate_other _ hik]
    exact h i hi

/-- After a turn in `S` the generators are still the same. -/
theorem SameOn.generator_tickGate {k : Nat} (hk : S k) (hgen : b.generator = a.generator) :
    (b.tickGate k).generator = (a.tickGate k).generator := by
  cases hg : a.gates[k]? with
  | none =>
    rw [Netlist.tickGate, Netlist.tickGate, hg, h.none hk hg]
    exact hgen
  | some g =>
    obtain ⟨g', hg', hbare⟩ := h.gate hk hg
    rw [tickGate_eq hg, tickGate_eq hg']
    show b.turnGenerator g' = a.turnGenerator g
    rw [turnGenerator, turnGenerator, (h.turn hc hk hg hbare).1, hgen]

end Turn

/-! ### A tick -/

section Tick
variable {S : Nat → Prop} {a b : Netlist} (h : SameOn S a b) (hc : Closed S a)
include h hc

theorem SameOn.ticked (k : Nat)
    (hdraw : ∀ j < k, S j → a.DrawsAt j → (b.ticked j).generator.draw.1 = (a.ticked j).generator.draw.1) :
    SameOn S (a.ticked k) (b.ticked k) := by
  induction k with
  | zero => exact h
  | succ k ih =>
    have hsame := ih fun j hj => hdraw j (Nat.lt_succ_of_lt hj)
    rw [ticked_succ, ticked_succ]
    refine hsame.tickGate (hc.revalued (revalued_ticked a k)) fun g hk hg hu => ?_
    rw [ticked_later a (Nat.le_refl k)] at hg
    exact hdraw k (Nat.lt_succ_self k) hk ⟨g, hg, hu⟩

/-- While all turns are taken in `S`, the generators stay the same too. -/
theorem SameOn.generator_ticked (hgen : b.generator = a.generator) (k : Nat) (hall : ∀ j < k, S j) :
    (b.ticked k).generator = (a.ticked k).generator := by
  have hsame (j : Nat) (hj : ∀ i < j, (b.ticked i).generator = (a.ticked i).generator) :
      SameOn S (a.ticked j) (b.ticked j) := h.ticked hc j fun i hi _ _ => by rw [hj i hi]
  induction k using Nat.strongRecOn with
  | ind k ih =>
    cases k with
    | zero => exact hgen
    | succ k =>
      have hbefore (i : Nat) (hi : i ≤ k) : (b.ticked i).generator = (a.ticked i).generator :=
        ih i (Nat.lt_succ_of_le hi) fun j hj => hall j (by omega)
      rw [ticked_succ, ticked_succ]
      exact (hsame k fun i hi => hbefore i (Nat.le_of_lt hi)).generator_tickGate
        (hc.revalued (revalued_ticked a k)) (hall k (Nat.lt_succ_self k)) (hbefore k (Nat.le_refl k))

/-- A tick keeps the netlists in agreement, if the bits that are drawn in `S` are the same. -/
theorem SameOn.tick
    (hdraw : ∀ j, S j → a.DrawsAt j → (b.ticked j).generator.draw.1 = (a.ticked j).generator.draw.1) :
    SameOn S a.tick b.tick := by
  rw [← ticked_of_size_le (Nat.le_max_left a.size b.size), ← ticked_of_size_le (Nat.le_max_right a.size b.size)]
  exact h.ticked hc _ fun j _ => hdraw j

/-- Where the netlists agree so far, a latch draws in both or in neither. -/
theorem SameOn.drawsAt_iff {j : Nat} (hj : S j) (hsame : SameOn S (a.ticked j) (b.ticked j)) :
    b.DrawsAt j ↔ a.DrawsAt j := by
  have hat : (a.ticked j).gates[j]? = a.gates[j]? := ticked_later a (Nat.le_refl j)
  cases hg : a.gates[j]? with
  | none =>
    have hg' := h.none hj hg
    simp only [DrawsAt, hg, hg', reduceCtorEq, false_and, exists_false]
  | some g =>
    obtain ⟨g', hg', hbare⟩ := h.gate hj hg
    have hturn := (hsame.turn (hc.revalued (revalued_ticked a j)) hj (hat.trans hg) hbare).1
    simp only [DrawsAt, hg, hg', Option.some.injEq, exists_eq_left', hturn]

end Tick

/-- Without draws from gate `first` on, the generator rests there. -/
theorem generator_ticked_of_calm {net : Netlist} {first k : Nat} (hk : first ≤ k)
    (hcalm : net.CalmFrom first) : (net.ticked k).generator = (net.ticked first).generator := by
  induction hk with
  | refl => rfl
  | @step k hk ih =>
    rw [ticked_succ, ← ih]
    cases hg : net.gates[k]? with
    | none => rw [tickGate, ticked_later net (Nat.le_refl k), hg]
    | some g =>
      have hat : (net.ticked k).gates[k]? = some g := by rw [ticked_later net (Nat.le_refl k), hg]
      rw [tickGate_eq hat]
      exact if_neg fun hu => hcalm k hk ⟨g, hg, hu⟩

/-! ### Runs -/

/-- Operations that change values, and leave the circuit alone. -/
def Operation.stimulates : Operation → Bool
  | .tick | .drive _ _ | .write _ _ => true
  | _ => false

deriving instance DecidableEq for Operation

/-- In the course of a run, no latch from gate `first` on draws a bit. -/
def Calm (first : Nat) (net : Netlist) : List Operation → Prop
  | [] => True
  | operation :: rest => (operation = .tick → net.CalmFrom first) ∧ Calm first (net.perform operation) rest

instance decidableCalm (first : Nat) (net : Netlist) : (run : List Operation) → Decidable (net.Calm first run)
  | [] => inferInstanceAs (Decidable True)
  | operation :: rest =>
    have := decidableCalm first (net.perform operation) rest
    inferInstanceAs (Decidable (_ ∧ _))

theorem revalued_perform (net : Netlist) {operation : Operation} (h : operation.stimulates = true) :
    Revalued net (net.perform operation) := by
  cases operation with
  | tick => exact revalued_tick net
  | drive gate value => exact revalued_drive net gate value
  | write bus value => exact revalued_write net bus value
  | _ => cases h

theorem revalued_run (net : Netlist) {run : List Operation} (h : ∀ operation ∈ run, operation.stimulates = true) :
    Revalued net (run.foldl perform net) := by
  induction run generalizing net with
  | nil => exact .refl net
  | cons operation rest ih =>
    obtain ⟨hfirst, hrest⟩ := List.forall_mem_cons.mp h
    exact (revalued_perform net hfirst).trans (ih _ hrest)

section Stimuli
variable {S : Nat → Prop} {a b : Netlist}

theorem SameOn.drive (h : SameOn S a b) (gate : Nat) (value : Bool) :
    SameOn S (a.drive gate value) (b.drive gate value) := by
  intro i hi
  have hset (o : Option Gate) : (o.map fun g => { g with value }).map Gate.bare =
      (o.map Gate.bare).map fun g => { g with value } := by
    cases o <;> rfl
  simp only [Netlist.drive, Array.getElem?_modify]
  split
  · rw [hset, hset, h i hi]
  · exact h i hi

theorem SameOn.write (h : SameOn S a b) (bus : Bus) (value : Nat) :
    SameOn S (a.write bus value) (b.write bus value) := by
  unfold Netlist.write
  generalize bus.lowSlots 64 = slots
  induction slots generalizing a b value with
  | nil => exact h
  | cons slot rest ih =>
    cases slot with
    | none => exact ih h (value / 2)
    | some gate => exact ih (h.drive gate _) (value / 2)

/-- Values that are driven are the same on both sides, so only ticks matter. -/
theorem SameOn.perform (h : SameOn S a b) {operation : Operation} (hs : operation.stimulates = true)
    (htick : operation = .tick → SameOn S a.tick b.tick) :
    SameOn S (a.perform operation) (b.perform operation) := by
  cases operation with
  | tick => exact htick rfl
  | drive gate value => exact h.drive gate value
  | write bus value => exact h.write bus value
  | _ => cases hs

end Stimuli

/-- A stimulus other than a tick leaves the generator alone. -/
theorem generator_perform (net : Netlist) {operation : Operation} (hs : operation.stimulates = true)
    (htick : operation ≠ .tick) : (net.perform operation).generator = net.generator := by
  cases operation with
  | tick => exact absurd rfl htick
  | drive gate value => rfl
  | write bus value => exact generator_write net bus value
  | _ => cases hs

/-! ### Appended gates -/

/-- The second netlist has the gates of the first, as they are, and perhaps more; it will
draw the same bits. -/
structure Prolongs (net net' : Netlist) : Prop where
  size : net.size ≤ net'.size
  gates : SameOn (· < net.size) net net'
  generator : net'.generator = net.generator

instance : IsPreorder Netlist Prolongs where
  refl _ := ⟨Nat.le_refl _, fun _ _ => rfl, rfl⟩
  trans _ _ _ hab hbc :=
    ⟨Nat.le_trans hab.size hbc.size,
      fun i hi => (hbc.gates i (Nat.lt_of_lt_of_le hi hab.size)).trans (hab.gates i hi),
      hbc.generator.trans hab.generator⟩

theorem prolongs_push (net : Netlist) (op : Opcode) (in1 in2 : Option Nat) :
    Prolongs net (net.push op in1 in2) := by
  refine ⟨by rw [push_size]; exact Nat.le_succ _, fun i hi => ?_, push_generator ..⟩
  have hg : net.gates[i]? = some net.gates[i] := Array.getElem?_eq_getElem hi
  obtain ⟨usage, hold⟩ := push_old net op in1 in2 hg
  rw [hold, hg]
  rfl

theorem Wires.prolongs {net net' : Netlist} (h : Wires net net') : Prolongs net net' :=
  h.minimal fun net op x in2 _ => prolongs_push net op (some x) in2

theorem prolongs_allocate (op : Opcode) (in1 in2 : Option Nat) : (allocate op in1 in2).Keeps Prolongs :=
  keeps_allocate fun net _ => prolongs_push net op in1 in2

theorem prolongs_registerPort (net : Netlist) (name : String) (bus : Bus) :
    Prolongs net (net.registerPort name bus) := ⟨Nat.le_refl _, fun _ _ => rfl, rfl⟩

open Attempt in
theorem prolongs_addInput (name : String) (width : Nat) : (addInput name width).Keeps Prolongs := by
  have hinputs (n : Nat) : (allocateInputs n).Keeps Prolongs := by
    induction n with
    | zero => exact .pure ()
    | succ n ih => exact .bind (prolongs_allocate _ _ _) fun _ => ih
  exact .bind .get fun _ => .bind (hinputs width) fun _ =>
    .bind (.modify fun net => prolongs_registerPort net name _) fun _ => .pure _

/-- However it ends, an operation that does not stimulate the circuit only appends to it. -/
theorem prolongs_perform (net : Netlist) {operation : Operation} (h : operation.stimulates = false) :
    Prolongs net (net.perform operation) := by
  cases operation with
  | allocate op in1 in2 => exact prolongs_allocate op in1 in2 net
  | applyUnary op a => exact (wires_applyUnary op a net).prolongs
  | applyBinary op a b => exact (wires_applyBinary op a b net).prolongs
  | select selector a b => exact (wires_select selector a b net).prolongs
  | reduce op a => exact (wires_reduce op a net).prolongs
  | addInput name width => exact prolongs_addInput name width net
  | registerPort name bus => exact prolongs_registerPort net name bus
  | _ => cases h

theorem prolongs_run (net : Netlist) {added : List Operation}
    (h : ∀ operation ∈ added, operation.stimulates = false) : Prolongs net (added.foldl perform net) := by
  induction added generalizing net with
  | nil => exact refl net
  | cons operation rest ih =>
    obtain ⟨hfirst, hrest⟩ := List.forall_mem_cons.mp h
    exact IsTrans.trans _ _ _ (prolongs_perform net hfirst) (ih _ hrest)

/-- Pins point back, so the gates of a netlist read each other only. -/
theorem WellFormed.closed {net : Netlist} (hw : net.WellFormed) (n : Nat) : Closed (· < n) net :=
  fun i g hi hg p hp => Nat.lt_trans ((hw i g hg).before p hp) hi

/-- The first gates take their turns in front of the others, and draw the same bits. -/
theorem SameOn.tick_first {a b : Netlist} {n : Nat} (h : SameOn (· < n) a b) (hw : a.WellFormed)
    (hgen : b.generator = a.generator) : SameOn (· < n) a.tick b.tick := by
  have hc := hw.closed n
  refine h.tick hc fun j hj _ => ?_
  rw [h.generator_ticked hc hgen j fun i hi => Nat.lt_trans hi hj]

section Appended
variable {net wider : Netlist} (hw : net.WellFormed) (h : Prolongs net wider)
include hw h

theorem Prolongs.tick : SameOn (· < net.size) net.tick wider.tick := h.gates.tick_first hw h.generator

/-- If no appended latch draws, the generators are the same after the tick, too. -/
theorem Prolongs.generator_tick (hcalm : wider.CalmFrom net.size) :
    wider.tick.generator = net.tick.generator := by
  rw [tick_eq_ticked wider, generator_ticked_of_calm h.size hcalm]
  exact h.gates.generator_ticked (hw.closed net.size) h.generator net.size fun _ hj => hj

/-- The step lemma: a stimulus keeps the longer netlist in step. -/
theorem Prolongs.perform {operation : Operation} (hs : operation.stimulates = true)
    (hcalm : operation = .tick → wider.CalmFrom net.size) :
    Prolongs (net.perform operation) (wider.perform operation) := by
  have hr := revalued_perform net hs
  have hr' := revalued_perform wider hs
  refine ⟨by rw [hr.size, hr'.size]; exact h.size, ?_, ?_⟩
  · rw [hr.size]
    exact h.gates.perform hs fun _ => h.tick hw
  · by_cases htick : operation = .tick
    · subst htick
      exact h.generator_tick hw (hcalm rfl)
    · rw [generator_perform net hs htick, generator_perform wider hs htick]
      exact h.generator

end Appended

/-- Two netlists that a netlist has grown to agree on its gates, if these hold the same
values in both. -/
theorem Prolongs.sameOn {net a b a' b' : Netlist} (ha : Prolongs net a) (hb : Prolongs net b)
    (hra : Revalued a a') (hrb : Revalued b b') (hvalue : ∀ i < net.size, b'.valueAt i = a'.valueAt i) :
    SameOn (· < net.size) a' b' := by
  intro i hi
  have hbare : b.gates[i]?.map Gate.bare = a.gates[i]?.map Gate.bare := (hb.gates i hi).trans (ha.gates i hi).symm
  have hset (gate : Option Gate) (value : Bool) :
      (gate.map fun g => { g with value }).map Gate.bare = (gate.map Gate.bare).map fun g => { g with value } := by
    cases gate <;> rfl
  rw [hra.gates i, hrb.gates i, hvalue i hi, hset, hset, hbare]

/-- The run lemma. -/
theorem Prolongs.run {net wider : Netlist} (hw : net.WellFormed) (h : Prolongs net wider) {run : List Operation}
    (hrun : ∀ operation ∈ run, operation.stimulates = true) (hcalm : wider.Calm net.size run) :
    Prolongs (run.foldl Netlist.perform net) (run.foldl Netlist.perform wider) := by
  induction run generalizing net wider with
  | nil => exact h
  | cons operation rest ih =>
    obtain ⟨hfirst, hrest⟩ := List.forall_mem_cons.mp hrun
    have hr := revalued_perform net hfirst
    refine ih (hw.revalued hr) (h.perform hw hfirst hcalm.1) hrest ?_
    rw [hr.size]
    exact hcalm.2

/-- **Appending gates never changes what the gates before them compute.** Whatever is
appended to a well formed netlist, with whatever success, a tick leaves the old gates
with the values it would have left without the new ones; and under the same stimuli the
old gates have the same values after every run in which no appended latch is told to set
and to reset at once. -/
theorem appended_unnoticed (net : Netlist) (hw : net.WellFormed) (added : List Operation)
    (hadded : ∀ operation ∈ added, operation.stimulates = false) :
    let wider := added.foldl perform net
    (∀ i < net.size, wider.valueAt i = net.valueAt i) ∧ wider.generator = net.generator ∧
      (∀ i < net.size, wider.tick.valueAt i = net.tick.valueAt i) ∧
      ∀ run : List Operation, (∀ operation ∈ run, operation.stimulates = true) →
        wider.Calm net.size run →
        ∀ i < net.size, (run.foldl perform wider).valueAt i = (run.foldl perform net).valueAt i := by
  intro wider
  have h : Prolongs net wider := prolongs_run net hadded
  refine ⟨fun i hi => h.gates.valueAt hi, h.generator, fun i hi => (h.tick hw).valueAt hi,
    fun run hrun hcalm i hi => ?_⟩
  refine (h.run hw hrun hcalm).gates.valueAt ?_
  rw [(revalued_run net hrun).size]
  exact hi

/-- Two driven gates, a latch they contest, a clock, and what the clock makes of a driven
gate. -/
def latchSample : Netlist :=
  { Netlist.empty {} with
    gates := #[⟨.passthrough, none, none, true, 0, 2⟩, ⟨.passthrough, none, none, true, 0, 1⟩,
      ⟨.setReset, some 0, some 1, false, 1, 0⟩, ⟨.clock, none, none, false, 0, 1⟩,
      ⟨.xor, some 0, some 3, false, 1, 0⟩] }

/-- The sample is given an inverter, a latch of its own behind it, and gates of which only
some can be added. -/
theorem appended_unnoticed_latchSample :
    let added : List Operation := [.applyUnary .not (.contiguous 0 1), .allocate .setReset (some 0) (some 5),
      .allocate .and (some 6) (some 9), .select 4 (.contiguous 0 2) (.explicit [some 2, none]), .addInput "z" 1]
    let run : List Operation := [.tick, .drive 0 false, .write (.contiguous 0 2) 2, .tick]
    latchSample.WellFormed ∧ (added.foldl perform latchSample).size = 11 ∧
      (added.foldl perform latchSample).Calm 5 run ∧
      (added.foldl perform latchSample).tick.valueAt 2 = latchSample.tick.valueAt 2 ∧
      (run.foldl perform (added.foldl perform latchSample)).valueAt 4 = (run.foldl perform latchSample).valueAt 4 := by
  intro added run
  have hw : latchSample.WellFormed := by decide
  have hcalm : (added.foldl perform latchSample).Calm 5 run := by decide +kernel
  obtain ⟨_, _, htick, hrun⟩ := appended_unnoticed latchSample hw added (by decide)
  exact ⟨hw, by decide +kernel, hcalm, htick 2 (by decide), hrun run (by decide) hcalm 4 (by decide)⟩

/-! ### Other bits -/

/-- A pin of gate `i` reads gate `p`. -/
def Reads (net : Netlist) (i p : Nat) : Prop := ∃ g, net.gates[i]? = some g ∧ p ∈ g.pins

/-- Neither the gate nor anything in its fan-in is a latch. -/
def FreeOfLatches (net : Netlist) (i : Nat) : Prop :=
  ∀ j g, Relation.ReflTransGen net.Reads i j → net.gates[j]? = some g → g.opcode ≠ .setReset

theorem closed_freeOfLatches (net : Netlist) : Closed net.FreeOfLatches net :=
  fun _ g hi hg _ hp j g' hj hg' => hi j g' (.head ⟨g, hg, hp⟩ hj) hg'

theorem latchless_freeOfLatches (net : Netlist) : Latchless net.FreeOfLatches net :=
  fun i g hi hg => hi i g .refl hg

/-- Without latches in `S`, what is drawn elsewhere does not matter. -/
theorem SameOn.run_latchless {S : Nat → Prop} {a b : Netlist} (h : SameOn S a b) (hc : Closed S a)
    (hl : Latchless S a) {run : List Operation} (hrun : ∀ operation ∈ run, operation.stimulates = true) :
    SameOn S (run.foldl Netlist.perform a) (run.foldl Netlist.perform b) := by
  induction run generalizing a b with
  | nil => exact h
  | cons operation rest ih =>
    obtain ⟨hfirst, hrest⟩ := List.forall_mem_cons.mp hrun
    have hr := revalued_perform a hfirst
    refine ih (h.perform hfirst fun _ => h.tick hc fun j hj hdraws => ?_) (hc.revalued hr) (hl.revalued hr) hrest
    obtain ⟨g, hg, hu⟩ := hdraws
    have hlatch : g.opcode = .setReset := by
      simp only [Gate.undecided, Bool.and_eq_true, beq_iff_eq] at hu
      exact hu.1.1
    exact absurd hlatch (hl j g hj hg)

/-- Every gate. -/
def anyGate (_ : Nat) : Prop := True

theorem closed_anyGate (net : Netlist) : Closed anyGate net := fun _ _ _ _ _ _ => trivial

section Calm
variable {a b : Netlist} (h : SameOn anyGate a b)
include h

/-- A tick on which no latch draws, from the same values: neither generator is asked. -/
theorem SameOn.tick_calm (hcalm : a.CalmFrom 0) :
    SameOn anyGate a.tick b.tick ∧ a.tick.generator = a.generator ∧ b.tick.generator = b.generator := by
  have hc := closed_anyGate a
  have hsame (k : Nat) : SameOn anyGate (a.ticked k) (b.ticked k) :=
    h.ticked hc k fun j _ _ hdraws => absurd hdraws (hcalm j (Nat.zero_le j))
  have hcalm' : b.CalmFrom 0 := by
    intro i hi
    rw [h.drawsAt_iff hc trivial (hsame i)]
    exact hcalm i hi
  refine ⟨h.tick hc fun j _ hdraws => absurd hdraws (hcalm j (Nat.zero_le j)), ?_, ?_⟩
  · exact generator_ticked_of_calm (Nat.zero_le a.size) hcalm
  · exact generator_ticked_of_calm (Nat.zero_le b.size) hcalm'

theorem SameOn.perform_calm {operation : Operation} (hs : operation.stimulates = true)
    (hcalm : operation = .tick → a.CalmFrom 0) :
    SameOn anyGate (a.perform operation) (b.perform operation) ∧
      (a.perform operation).generator = a.generator ∧ (b.perform operation).generator = b.generator := by
  by_cases htick : operation = .tick
  · subst htick
    exact h.tick_calm (hcalm rfl)
  · exact ⟨h.perform hs fun ht => absurd ht htick, generator_perform a hs htick, generator_perform b hs htick⟩

end Calm

theorem SameOn.run_calm {a b : Netlist} (h : SameOn anyGate a b) {run : List Operation}
    (hrun : ∀ operation ∈ run, operation.stimulates = true) (hcalm : a.Calm 0 run) :
    SameOn anyGate (run.foldl Netlist.perform a) (run.foldl Netlist.perform b) ∧
      (run.foldl Netlist.perform a).generator = a.generator ∧
      (run.foldl Netlist.perform b).generator = b.generator := by
  induction run generalizing a b with
  | nil => exact ⟨h, rfl, rfl⟩
  | cons operation rest ih =>
    obtain ⟨hfirst, hrest⟩ := List.forall_mem_cons.mp hrun
    obtain ⟨hsame, hgen, hgen'⟩ := h.perform_calm hfirst hcalm.1
    obtain ⟨hsame', hrest', hrest''⟩ := ih hsame hrest hcalm.2
    exact ⟨hsame', hrest'.trans hgen, hrest''.trans hgen'⟩

/-- Netlists with the same gates, revalued alike, have the same gates again. -/
theorem gates_eq_of_valueAt {a b a' b' : Netlist} (h : b.gates = a.gates) (ha : Revalued a a')
    (hb : Revalued b b') (hvalue : ∀ i, b'.valueAt i = a'.valueAt i) : b'.gates = a'.gates := by
  apply Array.ext_getElem?
  intro i
  rw [hb.gates i, ha.gates i, h, hvalue i]

/-- **The seed has a say only in what depends on a contested latch.** Two netlists with the
same gates, whatever bits they will draw, go through the same stimuli: a gate without a
latch in its fan-in has the same value in both after every run; and if in the first no
latch is ever told to set and to reset at once, all gates are the same in both, and
neither generator has moved. -/
theorem seed_unnoticed (net other : Netlist) (hgates : other.gates = net.gates) (run : List Operation)
    (hrun : ∀ operation ∈ run, operation.stimulates = true) :
    (∀ i, net.FreeOfLatches i → (run.foldl perform other).valueAt i = (run.foldl perform net).valueAt i) ∧
      (net.Calm 0 run →
        (run.foldl perform other).gates = (run.foldl perform net).gates ∧
          (run.foldl perform net).generator = net.generator ∧
          (run.foldl perform other).generator = other.generator) := by
  have hsame (S : Nat → Prop) : SameOn S net other := fun i _ => by rw [hgates]
  refine ⟨fun i hi => ?_, fun hcalm => ?_⟩
  · have hfree := (hsame net.FreeOfLatches).run_latchless (closed_freeOfLatches net)
      (latchless_freeOfLatches net) hrun
    exact hfree.valueAt hi
  · obtain ⟨hvalues, hgen, hgen'⟩ := (hsame anyGate).run_calm hrun hcalm
    exact ⟨gates_eq_of_valueAt hgates (revalued_run net hrun) (revalued_run other hrun)
      fun i => hvalues.valueAt trivial, hgen, hgen'⟩

/-- The sample with two seeds: what the clock makes of the driven gate is the same even after
the latch has drawn, and all gates are if it never does. -/
theorem seed_unnoticed_latchSample :
    let other : Netlist := { latchSample with generator := .ofSeed 7 }
    let contested : List Operation := [.tick, .drive 1 false, .tick]
    let calm : List Operation := [.drive 0 false, .tick, .write (.contiguous 0 2) 1, .tick]
    latchSample.DrawsAt 2 ∧ latchSample.FreeOfLatches 4 ∧ latchSample.Calm 0 calm ∧
      (contested.foldl perform other).valueAt 4 = (contested.foldl perform latchSample).valueAt 4 ∧
      (calm.foldl perform other).gates = (calm.foldl perform latchSample).gates ∧
      (calm.foldl perform other).generator = .ofSeed 7 := by
  intro other contested calm
  have hreads : Closed (fun i => i = 0 ∨ i = 3 ∨ i = 4) latchSample := by
    rintro i g (rfl | rfl | rfl) hg <;> cases hg <;> decide
  have hlatchless : Latchless (fun i => i = 0 ∨ i = 3 ∨ i = 4) latchSample := by
    rintro i g (rfl | rfl | rfl) hg <;> cases hg <;> decide
  have hfree : latchSample.FreeOfLatches 4 := by
    intro j g hj
    refine hlatchless j g ?_
    induction hj with
    | refl => decide
    | tail _ hread ih =>
      obtain ⟨g', hg', hp⟩ := hread
      exact hreads _ g' ih hg' _ hp
  have hcalm : latchSample.Calm 0 calm := by decide +kernel
  have hcontested := seed_unnoticed latchSample other rfl contested (by decide)
  obtain ⟨hgates, _, hgen⟩ := (seed_unnoticed latchSample other rfl calm (by decide)).2 hcalm
  exact ⟨by decide, hfree, hcalm, hcontested.1 4 hfree, hgates, hgen⟩

end Netlist

end BusLogic
