import BusLogic.Proofs.Netlist.Fitting
import BusLogic.Proofs.Script.Levels

/-! Operations bit by bit.

An elementwise operation pairs the bits of its operands (`Broadcast`) and adds a gate for
each pair (`Adds`), up to the first that is objected to (`Objection`): there is no room, a
pin is not there, or the operation asks for another number of pins. The gates before that
one stay (`Lays`). Before any gate is added, an unbound slot is refused, and so are widths
that do not go together. -/
namespace BusLogic

/-! ### Bound slots -/

/-- Slot `i` is unbound, and no slot before it is. -/
def Bus.FirstUnbound (b : Bus) (i : Nat) : Prop :=
  b.slots[i]? = some none ∧ ∀ k < i, b.slots[k]? ≠ some none

theorem Bus.boundFrom_of_firstUnbound {slots : List (Option Nat)} {i : Nat} (index : Nat)
    (hi : slots[i]? = some none) (hbefore : ∀ k < i, slots[k]? ≠ some none) :
    boundFrom index slots = .error (.unboundSlot (index + i)) := by
  induction slots generalizing index i with
  | nil => cases hi
  | cons slot rest ih =>
    cases i with
    | zero =>
      obtain rfl : slot = none := Option.some.inj hi
      rfl
    | succ i =>
      cases slot with
      | none => exact absurd rfl (hbefore 0 (Nat.succ_pos i))
      | some gate =>
        have hrest := ih (index + 1) hi fun k hk => hbefore (k + 1) (Nat.succ_lt_succ hk)
        rw [boundFrom, hrest, Nat.add_assoc, Nat.add_comm 1 i]

theorem Bus.gates_of_firstUnbound {b : Bus} {i : Nat} (h : b.FirstUnbound i) :
    b.gates = .error (.unboundSlot i) := by
  rw [gates, boundFrom_of_firstUnbound 0 h.1 h.2, Nat.zero_add]

namespace Netlist
open Attempt Script.Reference

/-! ### Pairs -/

/-- The bits that meet in an operation on two buses: those in the same place, or a single
bit and each bit of the other side. Either way the bits keep their sides. -/
structure Broadcast (xs ys : List Nat) (ps : List (Nat × Nat)) : Prop where
  even : xs.length = ys.length → ps = xs.zip ys
  left : ∀ x, xs = [x] → ps = ys.map fun y => (x, y)
  right : ∀ y, ys = [y] → ps = xs.map fun x => (x, y)

/-- One bit on the left meets every bit on the right. -/
theorem singleton_pairs (x : Nat) (ys : List Nat) : pairs [x] ys = .ok (ys.map fun y => (x, y)) := by
  rcases ys with _ | ⟨y, _ | ⟨y', ys⟩⟩
  · rfl
  · rfl
  · rfl

theorem broadcast_of_pairs {xs ys : List Nat} {ps : List (Nat × Nat)} (h : pairs xs ys = .ok ps) :
    Broadcast xs ys ps := by
  constructor
  · intro hlen
    rw [pairs_of_length hlen] at h
    exact (Except.ok.inj h).symm
  · rintro x rfl
    rw [singleton_pairs] at h
    exact (Except.ok.inj h).symm
  · rintro y rfl
    rw [pairs_singleton] at h
    exact (Except.ok.inj h).symm

theorem exists_pairs {xs ys : List Nat} (h : xs.length = ys.length ∨ xs.length = 1 ∨ ys.length = 1) :
    ∃ ps, pairs xs ys = .ok ps := by
  rcases h with hlen | hone | hone
  · exact ⟨_, pairs_of_length hlen⟩
  · obtain ⟨x, rfl⟩ := List.length_eq_one_iff.mp hone
    exact ⟨_, singleton_pairs x ys⟩
  · obtain ⟨y, rfl⟩ := List.length_eq_one_iff.mp hone
    exact ⟨_, pairs_singleton xs y⟩

theorem pairs_of_mismatch {xs ys : List Nat} (hne : xs.length ≠ ys.length) (hx : xs.length ≠ 1)
    (hy : ys.length ≠ 1) : pairs xs ys = .error (.widthMismatch xs.length ys.length) := by
  rw [pairs, if_neg hne]
  · rintro x rfl
    exact hx rfl
  · rintro y rfl
    exact hy rfl

/-! ### Rows of pins -/

section Row
variable {net net' : Netlist} {op : Opcode} {row : List (Nat × Option Nat)}

/-- A gate of `op` on each pin, or pair of pins, of a row has been added, in order, and the
rest is as it was. -/
structure Adds (op : Opcode) (row : List (Nat × Option Nat)) (net net' : Netlist) : Prop where
  size : net'.size = net.size + row.length
  appends : net.Appends net'
  gates : ∀ (k : Nat) p, row[k]? = some p →
    ∃ depth usage, net'.gates[net.size + k]? = some ⟨op, some p.1, p.2, false, depth, usage⟩
  capacity : net'.capacity = net.capacity
  ports : net'.ports = net.ports
  generator : net'.generator = net.generator

/-- Why a gate on `pins` cannot be the one with number `next`: the first of the reasons that
applies. -/
inductive Objection (capacity next : Nat) (op : Opcode) (pins : List Nat) : Error → Prop where
  | full (hfull : capacity ≤ next) : Objection capacity next op pins (.capacityExceeded capacity)
  | pin {pin : Nat} (hroom : next < capacity) (hpin : pins.find? (next ≤ ·) = some pin) :
      Objection capacity next op pins (.invalidPin pin next)
  | arity (hroom : next < capacity) (hpins : ∀ pin ∈ pins, pin < next) (harity : pins.length ≠ op.arity) :
      Objection capacity next op pins (.invalidArity op op.arity pins.length)

/-- Why the gate at place `k` of a row cannot be added, once those before it are. -/
def Objects (net : Netlist) (op : Opcode) (k : Nat) (p : Nat × Option Nat) (e : Error) : Prop :=
  Objection net.capacity (net.size + k) op (p.1 :: p.2.toList) e

/-- The end of an operation on a row of pins: every gate is added, or all before the first
that is objected to. -/
inductive Lays {α : Type} (net : Netlist) (op : Opcode) (row : List (Nat × Option Nat)) (answer : α) :
    Except Error α × Netlist → Prop where
  | all {net' : Netlist} (hfree : ∀ k p, row[k]? = some p → ∀ e, ¬ net.Objects op k p e)
      (hadds : Adds op row net net') : Lays net op row answer (.ok answer, net')
  | upTo {net' : Netlist} {k : Nat} {p : Nat × Option Nat} {e : Error} (hk : row[k]? = some p)
      (hobjects : net.Objects op k p e)
      (hfree : ∀ j q, j < k → row[j]? = some q → ∀ e, ¬ net.Objects op j q e)
      (hadds : Adds op (row.take k) net net') : Lays net op row answer (.error e, net')

theorem Adds.nil (op : Opcode) (net : Netlist) : Adds op [] net net :=
  ⟨rfl, refl net, (fun _ _ hk => nomatch hk), rfl, rfl, rfl⟩

/-- One more gate, and then a row. -/
theorem Adds.cons {p : Nat × Option Nat} (h : Adds op row (net.push op (some p.1) p.2) net') :
    Adds op (p :: row) net net' := by
  have hsize := h.size
  rw [push_size] at hsize
  refine ⟨?_, ?_, ?_, ?_, ?_, ?_⟩
  · rw [hsize, List.length_cons]
    omega
  · intro i g hg
    obtain ⟨usage, hpush⟩ := push_old net op (some p.1) p.2 hg
    have hlast := h.appends i _ hpush
    exact hlast
  · intro k q hk
    cases k with
    | zero =>
      obtain rfl : p = q := Option.some.inj hk
      obtain ⟨depth, hnew⟩ := push_new net op (some p.1) p.2
      obtain ⟨usage, hlast⟩ := h.appends _ _ hnew
      exact ⟨depth, usage, hlast⟩
    | succ k =>
      have hgate := h.gates k q hk
      rwa [push_size, Nat.add_right_comm, Nat.add_assoc] at hgate
  · rw [h.capacity, push_capacity]
  · rw [h.ports, push_ports]
  · rw [h.generator, push_generator]

theorem Adds.has (h : Adds op row net net') {k : Nat} {p : Nat × Option Nat} (hk : row[k]? = some p) :
    net'.Has (net.size + k) op (some p.1) p.2 := by
  obtain ⟨depth, usage, hg⟩ := h.gates k p hk
  exact ⟨_, hg, rfl, rfl, rfl⟩

/-- A gate is refused exactly when there is an objection to it. -/
theorem refusal?_eq_some_iff {p : Nat × Option Nat} {e : Error} :
    net.refusal? op (some p.1) p.2 = some e ↔ net.Objects op 0 p e := by
  have hcount : (some p.1).toList.length + p.2.toList.length = (p.1 :: p.2.toList).length := Nat.add_comm 1 _
  have hpins : (some p.1).toList ++ p.2.toList = p.1 :: p.2.toList := rfl
  rw [refusal?, Objects, Nat.add_zero, hpins, hcount]
  constructor
  · intro h
    split at h
    · rename_i hfull
      cases h
      exact .full hfull
    · rename_i hroom
      split at h
      · rename_i pin hpin
        cases h
        exact .pin (Nat.not_le.mp hroom) hpin
      · rename_i hnone
        dsimp only at h
        split at h
        · rename_i harity
          cases h
          exact .arity (Nat.not_le.mp hroom) (by simpa using hnone) (by simpa using harity)
        · cases h
  · intro h
    cases h with
    | full hfull => rw [if_pos hfull]
    | pin hroom hpin => rw [if_neg (Nat.not_le.mpr hroom), hpin]
    | arity hroom hbelow harity =>
      have hnone : (p.1 :: p.2.toList).find? (net.size ≤ ·) = none := by simpa using hbelow
      rw [if_neg (Nat.not_le.mpr hroom), hnone]
      exact if_pos (.inl harity)

theorem not_objects_of_refusal? {p : Nat × Option Nat} (h : net.refusal? op (some p.1) p.2 = none) (e : Error) :
    ¬ net.Objects op 0 p e := by
  rw [← refusal?_eq_some_iff, h]
  exact nofun

/-- What stands at the next place of the row is the first for the netlist that has grown by
a gate. -/
theorem objects_push {p q : Nat × Option Nat} {k : Nat} {e : Error} :
    (net.push op (some p.1) p.2).Objects op k q e ↔ net.Objects op (k + 1) q e := by
  rw [Objects, Objects, push_capacity, push_size, Nat.add_assoc, Nat.add_comm 1 k]

/-- The step lemma of a row: what follows its first gate, from the netlist with that gate. -/
theorem Lays.cons {α : Type} {p : Nat × Option Nat} {answer : α} {out : Except Error α × Netlist}
    (hfirst : net.refusal? op (some p.1) p.2 = none) (h : Lays (net.push op (some p.1) p.2) op row answer out) :
    Lays net op (p :: row) answer out := by
  have hzero : ∀ q, (p :: row)[0]? = some q → ∀ e, ¬ net.Objects op 0 q e := by
    rintro q ⟨⟩
    exact not_objects_of_refusal? hfirst
  cases h with
  | all hfree hadds =>
    refine .all (fun k q hk e => ?_) hadds.cons
    cases k with
    | zero => exact hzero q hk e
    | succ k => exact fun h => hfree k q hk e (objects_push.mpr h)
  | upTo hk hobjects hfree hadds =>
    refine .upTo (k := _ + 1) hk (objects_push.mp hobjects) (fun j q hj hq e => ?_) hadds.cons
    cases j with
    | zero => exact hzero q hq e
    | succ j => exact fun h => hfree j q (Nat.lt_of_succ_lt_succ hj) hq e (objects_push.mpr h)

/-- By induction on the row, its gates are laid one after the other. -/
theorem lays_allocateAll (op : Opcode) (row : List (Nat × Option Nat)) (net : Netlist) :
    Lays net op row () ((allocateAll op (row.map fun p => (some p.1, p.2))).outcome net) := by
  induction row generalizing net with
  | nil => exact .all (fun _ _ hk => by cases hk) (.nil op net)
  | cons p rest ih =>
    rw [List.map_cons, allocateAll, outcome_bind, outcome_allocate]
    cases hr : net.refusal? op (some p.1) p.2 with
    | some e => exact .upTo (k := 0) rfl (refusal?_eq_some_iff.mp hr) (fun j _ hj => absurd hj j.not_lt_zero) (.nil op net)
    | none => exact (ih _).cons hr

/-- The answer is given once all gates are there. -/
theorem Lays.answer {α : Type} {x : Attempt Error Netlist Unit} (h : Lays net op row () (x.outcome net))
    (answer : α) : Lays net op row answer ((do x; return answer).outcome net) := by
  rw [outcome_bind]
  generalize x.outcome net = out at h
  cases h with
  | all hfree hadds => exact .all hfree hadds
  | upTo hk hobjects hfree hadds => exact .upTo hk hobjects hfree hadds

/-- What has been added in full is there after success. -/
theorem Lays.adds {α : Type} {answer r : α} (h : Lays net op row answer (.ok r, net')) : Adds op row net net' := by
  cases h
  assumption

end Row

/-! ### Elementwise operations -/

section Apply
variable (net : Netlist) (op : Opcode)

theorem lays_applyUnary {a : Bus} {xs : List Nat} (ha : a.slots = xs.map some) :
    Lays net op (xs.map fun x => (x, none)) (Bus.contiguous net.size xs.length) ((applyUnary op a).outcome net) := by
  have hwidth : a.width = xs.length := by rw [← Bus.length_slots, ha, List.length_map]
  have hlays := (lays_allocateAll op (xs.map fun x => (x, none)) net).answer (Bus.contiguous net.size xs.length)
  rw [List.map_map, Function.comp_def] at hlays
  rw [applyUnary, outcome_bind, outcome_ofExcept, Bus.gates_eq_ok.mpr ha]
  simpa only [outcome_bind, outcome_get, hwidth] using hlays

theorem lays_applyBinary {a b : Bus} {xs ys : List Nat} {ps : List (Nat × Nat)} (ha : a.slots = xs.map some)
    (hb : b.slots = ys.map some) (hps : pairs xs ys = .ok ps) :
    Lays net op (ps.map fun p => (p.1, some p.2)) (Bus.contiguous net.size ps.length)
      ((applyBinary op a b).outcome net) := by
  have hlays := (lays_allocateAll op (ps.map fun p => (p.1, some p.2)) net).answer (Bus.contiguous net.size ps.length)
  rw [List.map_map, Function.comp_def] at hlays
  simpa only [applyBinary, outcome_bind, outcome_ofExcept, outcome_get, Bus.gates_eq_ok.mpr ha,
    Bus.gates_eq_ok.mpr hb, hps] using hlays

theorem applyUnary_of_firstUnbound {a : Bus} {i : Nat} (ha : a.FirstUnbound i) :
    (applyUnary op a).outcome net = (.error (.unboundSlot i), net) := by
  rw [applyUnary, outcome_bind, outcome_ofExcept, Bus.gates_of_firstUnbound ha]

theorem applyBinary_of_firstUnbound {a : Bus} {i : Nat} (ha : a.FirstUnbound i) (b : Bus) :
    (applyBinary op a b).outcome net = (.error (.unboundSlot i), net) := by
  rw [applyBinary, outcome_bind, outcome_ofExcept, Bus.gates_of_firstUnbound ha]

theorem applyBinary_of_bound {a b : Bus} {xs : List Nat} {i : Nat} (ha : a.slots = xs.map some)
    (hb : b.FirstUnbound i) : (applyBinary op a b).outcome net = (.error (.unboundSlot i), net) := by
  simp only [applyBinary, outcome_bind, outcome_ofExcept, Bus.gates_eq_ok.mpr ha, Bus.gates_of_firstUnbound hb]

theorem applyBinary_of_mismatch {a b : Bus} {xs ys : List Nat} (ha : a.slots = xs.map some)
    (hb : b.slots = ys.map some) (hne : xs.length ≠ ys.length) (hx : xs.length ≠ 1) (hy : ys.length ≠ 1) :
    (applyBinary op a b).outcome net = (.error (.widthMismatch xs.length ys.length), net) := by
  simp only [applyBinary, outcome_bind, outcome_ofExcept, Bus.gates_eq_ok.mpr ha, Bus.gates_eq_ok.mpr hb,
    pairs_of_mismatch hne hx hy]

/-- **Elementwise operations, to the letter.** The first unbound slot is reported, that of
the first operand before that of the second, and then widths that do not go together;
nothing has changed by then. Otherwise the gates are laid pair by pair, up to the first
objection, and if there is none, the operation answers with the run of new gates. These
carry, after any tick, also of a netlist that has grown since, what the operation makes of
the values that the tick leaves on their pins. -/
theorem elementwise_exact (hw : net.WellFormed) (a : Bus) :
    (∀ i, a.FirstUnbound i →
      (applyUnary op a).outcome net = (.error (.unboundSlot i), net) ∧
        ∀ b, (applyBinary op a b).outcome net = (.error (.unboundSlot i), net)) ∧
    ∀ xs : List Nat, a.slots = xs.map some →
      (Lays net op (xs.map fun x => (x, none)) (.contiguous net.size xs.length) ((applyUnary op a).outcome net) ∧
        ∀ r net', (applyUnary op a).outcome net = (.ok r, net') → net'.WellFormed ∧
          ∀ later, net'.Retains later → later.WellFormed → op = .not → ∀ (k x : Nat), xs[k]? = some x →
            later.tick.valueAt (net.size + k) = !later.tick.valueAt x) ∧
      ∀ b : Bus,
        (∀ i, b.FirstUnbound i → (applyBinary op a b).outcome net = (.error (.unboundSlot i), net)) ∧
        ∀ ys : List Nat, b.slots = ys.map some →
          (xs.length ≠ ys.length → xs.length ≠ 1 → ys.length ≠ 1 →
            (applyBinary op a b).outcome net = (.error (.widthMismatch xs.length ys.length), net)) ∧
          (xs.length = ys.length ∨ xs.length = 1 ∨ ys.length = 1 → ∃ ps, Broadcast xs ys ps ∧
            Lays net op (ps.map fun p => (p.1, some p.2)) (.contiguous net.size ps.length)
              ((applyBinary op a b).outcome net) ∧
            ∀ r net', (applyBinary op a b).outcome net = (.ok r, net') → net'.WellFormed ∧
              ∀ later, net'.Retains later → later.WellFormed → ∀ f, function? op = some f →
                ∀ (k x y : Nat), ps[k]? = some (x, y) →
                  later.tick.valueAt (net.size + k) = f (later.tick.valueAt x) (later.tick.valueAt y)) := by
  refine ⟨fun i hi => ⟨applyUnary_of_firstUnbound net op hi, applyBinary_of_firstUnbound net op hi⟩, ?_⟩
  intro xs ha
  refine ⟨⟨lays_applyUnary net op ha, ?_⟩, fun b => ⟨fun i hi => applyBinary_of_bound net op ha hi, ?_⟩⟩
  · intro r net' h
    refine ⟨((wires_applyUnary op a).reached h).wellFormed hw, fun later hret hlater hnot k x hx => ?_⟩
    subst hnot
    have hadds := (h ▸ lays_applyUnary net .not ha).adds
    have hhas := hadds.has (k := k) (p := (x, none)) (by simp [hx])
    exact (consistent_tick hlater).not (hhas.retains hret)
  · intro ys hb
    refine ⟨fun hne hx hy => applyBinary_of_mismatch net op ha hb hne hx hy, fun hlen => ?_⟩
    obtain ⟨ps, hps⟩ := exists_pairs hlen
    have hlays := lays_applyBinary net op ha hb hps
    refine ⟨ps, broadcast_of_pairs hps, hlays, fun r net' h => ?_⟩
    refine ⟨((wires_applyBinary op a b).reached h).wellFormed hw, fun later hret hlater f hf k x y hk => ?_⟩
    have hhas := (h ▸ hlays).adds.has (k := k) (p := (x, some y)) (by simp [hk])
    exact (consistent_tick hlater).binary (hhas.retains hret) hf

end Apply

/-- Two inputs, the first of them high, and room for two more gates. -/
def crampedSample : Netlist :=
  { Netlist.empty {} with
    gates := #[⟨.passthrough, none, none, true, 0, 0⟩, ⟨.passthrough, none, none, false, 0, 0⟩]
    capacity := 4 }

/-- An unbound slot on the right is reported by number, two negations of three fit, and two
conjunctions with the high input carry the inputs themselves. -/
theorem elementwise_exact_crampedSample :
    (applyBinary .and (.contiguous 0 2) (.explicit [some 1, none])).outcome crampedSample =
        (.error (.unboundSlot 1), crampedSample) ∧
      (∃ net', (applyUnary .not (.explicit [some 0, some 1, some 0])).outcome crampedSample =
          (.error (.capacityExceeded 4), net') ∧ Adds .not [(0, none), (1, none)] crampedSample net') ∧
      ∃ net', (applyBinary .and (.contiguous 0 2) (.single 0)).outcome crampedSample =
          (.ok (.contiguous 2 2), net') ∧
        net'.tick.valueAt (2 + 0) = true ∧ net'.tick.valueAt (2 + 1) = false := by
  have hw : crampedSample.WellFormed := by decide
  refine ⟨?_, ?_, ?_⟩
  · have hpair := ((elementwise_exact crampedSample .and hw (.contiguous 0 2)).2 [0, 1] rfl).2
    exact (hpair (.explicit [some 1, none])).1 1 ⟨rfl, by decide⟩
  · have hlays := ((elementwise_exact crampedSample .not hw (.explicit [some 0, some 1, some 0])).2 [0, 1, 0] rfl).1.1
    generalize (applyUnary .not (.explicit [some 0, some 1, some 0])).outcome crampedSample = out at hlays
    -- while there is room, there is no objection to a negation of an input
    have hfits {k x : Nat} (hk : k < 2) (hx : x < 2) (e : Error) : ¬ crampedSample.Objects .not k (x, none) e := by
      rintro (hfull | ⟨_, hpin⟩ | ⟨_, _, harity⟩)
      · have hfull : 4 ≤ 2 + k := hfull
        omega
      · have habsent : ¬ 2 + k ≤ x := by omega
        simp [crampedSample, Netlist.size, habsent] at hpin
      · exact harity rfl
    have hfull : crampedSample.Objects .not 2 (0, none) (.capacityExceeded 4) := .full (by decide)
    cases hlays with
    | all hfree _ => exact absurd hfull (hfree 2 _ rfl _)
    | @upTo net' k p e hk hobjects hfree hadds =>
      rcases k with _ | _ | _ | k
      · exact absurd (Option.some.inj hk ▸ hobjects) (hfits (by decide) (by decide) e)
      · exact absurd (Option.some.inj hk ▸ hobjects) (hfits (by decide) (by decide) e)
      · cases hk
        rcases hobjects with _ | ⟨hroom, _⟩ | ⟨hroom, _, _⟩
        · exact ⟨net', rfl, hadds⟩
        · exact absurd hroom (by decide)
        · exact absurd hroom (by decide)
      · cases hk
  · obtain ⟨ps, hps, hlays, hvalues⟩ :=
      (((elementwise_exact crampedSample .and hw (.contiguous 0 2)).2 [0, 1] rfl).2 (.single 0)).2 [0] rfl |>.2
        (.inr (.inr rfl))
    obtain rfl := hps.right 0 rfl
    have hok := outcome_of_result (show ((applyBinary .and (.contiguous 0 2) (.single 0)).outcome crampedSample).1 =
      .ok (.contiguous 2 2) from rfl)
    obtain ⟨hw', hvalue⟩ := hvalues _ _ hok
    have hlow := hvalue _ (refl _) hw' _ rfl 0 0 0 rfl
    have hhigh := hvalue _ (refl _) hw' _ rfl 1 1 0 rfl
    refine ⟨_, hok, hlow.trans ?_, hhigh.trans ?_⟩
    · decide +kernel
    · decide +kernel

end Netlist

end BusLogic
