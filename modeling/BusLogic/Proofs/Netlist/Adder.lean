import BusLogic.Proofs.Netlist.Fitting
import BusLogic.Proofs.Netlist.Driving
import Mathlib.Tactic.Ring

/-! The ripple-carry adder.

`RippleAdder n k` says which gates an adder of `n` bits has once `k` of its stages are
wired: a stage adds two bits and the carry of the stage before, and hands its own carry to
the stage behind. Since the values that a tick leaves obey the law of every gate, each
stage of a settled netlist adds its three bits (`RippleAdder.stage_adds`), and by induction
on the stages the whole adds two numbers (`RippleAdder.stages_add`). -/
namespace BusLogic.Netlist

variable {net : Netlist}

/-! ### Numbers on gates -/

theorem slots_contiguous (start n k : Nat) :
    (Bus.contiguous start n).slots[k]? = if k < n then some (some (start + k)) else none := by
  by_cases hk : k < n <;> simp [Bus.slots, hk]

/-- Consecutive gates take the bits of a number, and the others are left alone. -/
theorem valueAt_writeSlots_contiguous {start n : Nat} (hlt : start + n ≤ net.size) (x j : Nat) :
    (net.writeSlots x (Bus.contiguous start n).slots).valueAt j =
      if start ≤ j ∧ j < start + n then x.testBit (j - start) else net.valueAt j := by
  by_cases hj : start ≤ j ∧ j < start + n
  · rw [if_pos hj]
    apply valueAt_writeSlots (by omega)
    constructor
    · simp [slots_contiguous]
      omega
    · intro k hk
      simp only [slots_contiguous, Set.mem_ofPred_eq, Option.ite_none_right_eq_some, Option.some.injEq] at hk
      omega
  · have hout : some j ∉ (Bus.contiguous start n).slots := by simpa [Bus.slots] using hj
    rw [if_neg hj, valueAt, gates_writeSlots hout, ← valueAt]

/-- Gates with the bits of a number show this number. -/
theorem readSlots_contiguous {start n x : Nat} (hx : x < 2 ^ n)
    (h : ∀ j < n, net.valueAt (start + j) = x.testBit j) : net.readSlots (Bus.contiguous start n).slots = x := by
  apply Nat.eq_of_testBit_eq
  intro j
  rw [testBit_readSlots, slots_contiguous]
  by_cases hj : j < n
  · simp [hj, level, h j hj]
  · have hhigh : x < 2 ^ j := Nat.lt_of_lt_of_le hx (Nat.pow_le_pow_right Nat.two_pos (Nat.le_of_not_lt hj))
    simp [hj, level, Nat.testBit_lt_two_pow hhigh]

theorem readSlots_append (net : Netlist) (xs ys : List (Option Nat)) :
    net.readSlots (xs ++ ys) = net.readSlots xs + 2 ^ xs.length * net.readSlots ys := by
  induction xs with
  | nil => simp [readSlots]
  | cons x xs ih =>
    rw [List.cons_append, readSlots, ih, readSlots, List.length_cons, Nat.pow_succ]
    ring

/-! ### The gates of an adder -/

/-- The gate with the carry into stage `j`: the input first, then the last gate of the stage
before. -/
def carryGate (n : Nat) : Nat → Nat
  | 0 => 2 * n
  | j + 1 => 4 * n + 3 + 3 * j

/-- The slots with the sums of the first `k` stages. -/
def sumSlots (n k : Nat) : List (Option Nat) := (List.range k).map fun j => some (4 * n + 1 + 3 * j)

/-- The gates of an adder of `n` bits with `k` stages: two numbers and a carry as inputs, for
each bit whether the numbers differ there and whether both are high, and three gates for
each stage. -/
structure RippleAdder (n k : Nat) (net : Netlist) : Prop where
  intact : net.Intact
  size : net.size = 4 * n + 1 + 3 * k
  input : ∀ i < 2 * n + 1, net.Has i .passthrough none none
  differ : ∀ j < n, net.Has (2 * n + 1 + j) .xor (some j) (some (n + j))
  both : ∀ j < n, net.Has (3 * n + 1 + j) .and (some j) (some (n + j))
  sum : ∀ j < k, net.Has (4 * n + 1 + 3 * j) .xor (some (2 * n + 1 + j)) (some (carryGate n j))
  passed : ∀ j < k, net.Has (4 * n + 2 + 3 * j) .and (some (2 * n + 1 + j)) (some (carryGate n j))
  carried : ∀ j < k, net.Has (4 * n + 3 + 3 * j) .or (some (4 * n + 2 + 3 * j)) (some (3 * n + 1 + j))

namespace RippleAdder
variable {n k : Nat} {net' : Netlist}

/-- A netlist that grows by no gate keeps the adder. -/
theorem grown (h : RippleAdder n k net) (hg : net.Grows net') (hsize : net'.size = net.size) : RippleAdder n k net' := by
  have hkeep := hg.retains
  exact ⟨hg.intact h.intact, hsize.trans h.size, fun i hi => (h.input i hi).retains hkeep,
    fun j hj => (h.differ j hj).retains hkeep, fun j hj => (h.both j hj).retains hkeep,
    fun j hj => (h.sum j hj).retains hkeep, fun j hj => (h.passed j hj).retains hkeep,
    fun j hj => (h.carried j hj).retains hkeep⟩

theorem revalued (h : RippleAdder n k net) (hr : Revalued net net') : RippleAdder n k net' :=
  h.grown hr.grows hr.size

theorem registerPort (h : RippleAdder n k net) (name : String) (bus : Bus) :
    RippleAdder n k (net.registerPort name bus) := h.grown (grows_registerPort net name bus) rfl

/-- One more stage. -/
theorem succ (h : RippleAdder n k net) (hg : net.Grows net') (hsize : net'.size = net.size + 3)
    (hsum : net'.Has net.size .xor (some (2 * n + 1 + k)) (some (carryGate n k)))
    (hpassed : net'.Has (net.size + 1) .and (some (2 * n + 1 + k)) (some (carryGate n k)))
    (hcarried : net'.Has (net.size + 2) .or (some (net.size + 1)) (some (3 * n + 1 + k))) :
    RippleAdder n (k + 1) net' := by
  have hkeep := hg.retains
  have hnext {j : Nat} (hj : j < k + 1) : j < k ∨ j = k := by omega
  rw [h.size] at hsum hpassed hcarried
  refine ⟨hg.intact h.intact, by rw [hsize, h.size]; omega, fun i hi => (h.input i hi).retains hkeep,
    fun j hj => (h.differ j hj).retains hkeep, fun j hj => (h.both j hj).retains hkeep, ?_, ?_, ?_⟩
  · intro j hj
    rcases hnext hj with hlt | rfl
    · exact (h.sum j hlt).retains hkeep
    · exact hsum
  · intro j hj
    rcases hnext hj with hlt | rfl
    · exact (h.passed j hlt).retains hkeep
    · convert hpassed using 1
      omega
  · intro j hj
    rcases hnext hj with hlt | rfl
    · exact (h.carried j hlt).retains hkeep
    · convert hcarried using 1
      · omega
      · congr 1
        omega

end RippleAdder

/-! ### What it computes -/

theorem Settled.law {w : Nat → Bool} (hs : net.Settled w) {i : Nat} {op : Opcode} {in1 in2 : Option Nat}
    (h : net.Has i op in1 in2) : op.Law (net.valueAt i) (pinLevel w in1) (pinLevel w in2) (w i) := by
  obtain ⟨g, hg, rfl, rfl, rfl⟩ := h
  rw [valueAt_eq hg]
  exact hs i g hg

namespace RippleAdder
variable {n k : Nat} {w : Nat → Bool}

/-- A stage adds three bits. -/
theorem stage_adds (h : RippleAdder n k net) (hs : net.Settled w) {j : Nat} (hj : j < k) (hk : k ≤ n) :
    (w (4 * n + 1 + 3 * j)).toNat + 2 * (w (carryGate n (j + 1))).toNat =
      (w j).toNat + (w (n + j)).toNat + (w (carryGate n j)).toNat := by
  have hdiffer : w (2 * n + 1 + j) = (w j ^^ w (n + j)) := hs.law (h.differ j (by omega))
  have hboth : w (3 * n + 1 + j) = (w j && w (n + j)) := hs.law (h.both j (by omega))
  have hsum : w (4 * n + 1 + 3 * j) = (w (2 * n + 1 + j) ^^ w (carryGate n j)) := hs.law (h.sum j hj)
  have hpassed : w (4 * n + 2 + 3 * j) = (w (2 * n + 1 + j) && w (carryGate n j)) := hs.law (h.passed j hj)
  have hcarried : w (4 * n + 3 + 3 * j) = (w (4 * n + 2 + 3 * j) || w (3 * n + 1 + j)) := hs.law (h.carried j hj)
  rw [carryGate, hcarried, hsum, hpassed, hdiffer, hboth]
  cases w j <;> cases w (n + j) <;> cases w (carryGate n j) <;> rfl

/-- The first stages add the first bits, up to the carry that they hand on. -/
theorem stages_add (h : RippleAdder n n net) {after : Netlist} (hs : net.Settled after.valueAt) (hk : k ≤ n) :
    after.readSlots (sumSlots n k) + 2 ^ k * (after.valueAt (carryGate n k)).toNat =
      after.readSlots (Bus.contiguous 0 k).slots + after.readSlots (Bus.contiguous n k).slots +
        (after.valueAt (2 * n)).toNat := by
  -- one more bit at the upper end
  have hlast (start k : Nat) : after.readSlots (Bus.contiguous start (k + 1)).slots =
      after.readSlots (Bus.contiguous start k).slots + 2 ^ k * (after.valueAt (start + k)).toNat := by
    have hsnoc : (Bus.contiguous start (k + 1)).slots = (Bus.contiguous start k).slots ++ [some (start + k)] := by
      simp [Bus.slots, List.range'_concat]
    rw [hsnoc, readSlots_append, Bus.length_slots]
    rfl
  induction k with
  | zero =>
    simp [sumSlots, readSlots, carryGate, Bus.slots]
  | succ k ih =>
    have hstage := h.stage_adds hs (j := k) (by omega) (Nat.le_refl n)
    have hsum : after.readSlots (sumSlots n (k + 1)) =
        after.readSlots (sumSlots n k) + 2 ^ k * (after.valueAt (4 * n + 1 + 3 * k)).toNat := by
      have hsnoc : sumSlots n (k + 1) = sumSlots n k ++ [some (4 * n + 1 + 3 * k)] := by
        simp [sumSlots, List.range_succ]
      rw [hsnoc, readSlots_append, sumSlots, List.length_map, List.length_range]
      rfl
    calc after.readSlots (sumSlots n (k + 1)) + 2 ^ (k + 1) * (after.valueAt (carryGate n (k + 1))).toNat
        = after.readSlots (sumSlots n k) + 2 ^ k * ((after.valueAt (4 * n + 1 + 3 * k)).toNat +
            2 * (after.valueAt (carryGate n (k + 1))).toNat) := by
          rw [hsum]
          ring
      _ = after.readSlots (sumSlots n k) + 2 ^ k * (after.valueAt (carryGate n k)).toNat +
            2 ^ k * (after.valueAt k).toNat + 2 ^ k * (after.valueAt (n + k)).toNat := by
          rw [hstage]
          ring
      _ = _ := by
          rw [ih (by omega), hlast 0, hlast n, Nat.zero_add]
          ring

/-- **The adder adds.** Two numbers and a carry on the inputs show as their sum after a tick,
whatever the gates held before. -/
theorem adds (h : RippleAdder n n net) {x y c : Nat} (hx : x < 2 ^ n) (hy : y < 2 ^ n) (hc : c < 2) :
    let driven := ((net.writeSlots x (Bus.contiguous 0 n).slots).writeSlots y
      (Bus.contiguous n n).slots).writeSlots c (Bus.contiguous (2 * n) 1).slots
    driven.tick.readSlots (sumSlots n n) + 2 ^ n * (driven.tick.valueAt (carryGate n n)).toNat = x + y + c := by
  intro driven
  have hfirst := revalued_writeSlots net x (Bus.contiguous 0 n).slots
  have hsecond := revalued_writeSlots (net.writeSlots x (Bus.contiguous 0 n).slots) y (Bus.contiguous n n).slots
  have hdriven : RippleAdder n n driven :=
    ((h.revalued hfirst).revalued hsecond).revalued (revalued_writeSlots _ c _)
  have hs : driven.Settled driven.tick.valueAt := tick_settled hdriven.intact.wired
  have hsize := h.size
  -- inputs keep what they were driven with
  have hkept {i : Nat} (hi : i < 2 * n + 1) : driven.tick.valueAt i =
      if 2 * n ≤ i then c.testBit (i - 2 * n) else if n ≤ i then y.testBit (i - n) else x.testBit i := by
    have hlaw : driven.tick.valueAt i = driven.valueAt i := hs.law (hdriven.input i hi)
    rw [hlaw, valueAt_writeSlots_contiguous (by rw [hsecond.size, hfirst.size]; omega),
      valueAt_writeSlots_contiguous (by rw [hfirst.size]; omega), valueAt_writeSlots_contiguous (by omega)]
    by_cases h2 : 2 * n ≤ i
    · rw [if_pos (by omega), if_pos h2]
    · rw [if_neg (by omega), if_neg h2]
      by_cases h1 : n ≤ i
      · rw [if_pos (by omega), if_pos h1]
      · rw [if_neg (by omega), if_neg h1, if_pos (by omega), Nat.sub_zero]
  have ha : driven.tick.readSlots (Bus.contiguous 0 n).slots = x := by
    apply readSlots_contiguous hx
    intro j hj
    rw [hkept (by omega), if_neg (by omega), if_neg (by omega), Nat.zero_add]
  have hb : driven.tick.readSlots (Bus.contiguous n n).slots = y := by
    apply readSlots_contiguous hy
    intro j hj
    rw [hkept (by omega), if_neg (by omega), if_pos (by omega), Nat.add_sub_cancel_left]
  have hcin : (driven.tick.valueAt (2 * n)).toNat = c := by
    rw [hkept (by omega), if_pos (Nat.le_refl _), Nat.sub_self]
    rcases Nat.le_one_iff_eq_zero_or_eq_one.mp (Nat.le_of_lt_succ hc) with rfl | rfl <;> rfl
  rw [hdriven.stages_add hs (Nat.le_refl n), ha, hb, hcin]

end RippleAdder

end BusLogic.Netlist
