import BusLogic.Netlist.Tick
import BusLogic.Netlist.Wiring
import BusLogic.Proofs.Bus

/-! The form of a bus does not matter.

A contiguous bus and an explicit one may have the same slots. Each operation on a bus is
a function of its slots, errors included (`slot_eq`, `slice_slots`, `bind_slots`), and
whatever a netlist does with a bus it does with its slots, so two buses are
interchangeable exactly when they have the same slots. To coincide is more than that: an
unbound slot is the same as nothing, so the slots have to be bound as well. -/
namespace BusLogic

namespace Bus

/-! ### Operations as functions of the slots -/

theorem slice_slots (b : Bus) (first last : Nat) :
    (b.slice first last).map slots =
      if first > last then .error (.indexOutOfRange first b.slots.length)
      else if b.slots.length ≤ last then .error (.indexOutOfRange last b.slots.length)
      else .ok ((b.slots.drop first).take (last - first + 1)) := by
  rw [length_slots]
  by_cases hle : first > last
  · unfold slice
    rw [if_pos hle, if_pos hle]
    rfl
  · by_cases hlt : b.width ≤ last
    · unfold slice
      rw [if_neg hle, if_pos hlt, if_neg hle, if_pos hlt]
      rfl
    · rw [if_neg hle, if_neg hlt]
      cases hs : b.slice first last with
      | ok r => rw [← (slice_eq_ok hs).2.2, Except.map]
      | error e =>
        unfold slice at hs
        rw [if_neg hle, if_neg hlt] at hs
        cases b with
        | contiguous start width => cases hs
        | explicit slots =>
          dsimp only at hs
          split at hs <;> cases hs

theorem bind_slots (b : Bus) (i gate : Nat) :
    (b.bind i gate).map slots =
      match b.slots[i]? with
      | none => .error (.indexOutOfRange i b.slots.length)
      | some (some _) => .error (.alreadyBound i)
      | some none => .ok (b.slots.set i (some gate)) := by
  cases b with
  | contiguous start width =>
    simp only [bind, slots, List.getElem?_map, List.length_map, List.length_range']
    split
    · rename_i hi
      rw [List.getElem?_range' (by exact hi)]
      rfl
    · rename_i hi
      rw [List.getElem?_eq_none (by simpa using hi)]
      rfl
  | explicit slots =>
    simp only [bind, Bus.slots]
    rcases slots[i]? with _ | _ | _ <;> rfl

/-- Nothing that is done with buses tells the two apart: answers and errors are the same,
buses that come of them have the same slots, and netlists end up the same. -/
structure Interchangeable (a b : Bus) : Prop where
  width : a.width = b.width
  slot : ∀ i, a.slot i = b.slot i
  gate : ∀ i, a.gate i = b.gate i
  /-- The gates, or the first slot that is unbound. -/
  gates : a.gates = b.gates
  slice : ∀ first last, (a.slice first last).map slots = (b.slice first last).map slots
  bind : ∀ i gate, (a.bind i gate).map slots = (b.bind i gate).map slots
  append : ∀ c : Bus, (a ++ c).slots = (b ++ c).slots ∧ (c ++ a).slots = (c ++ b).slots
  coincides : ∀ c, a.coincides c = b.coincides c ∧ c.coincides a = c.coincides b
  applyUnary : ∀ op net,
    (Netlist.applyUnary op a).outcome net = (Netlist.applyUnary op b).outcome net
  applyBinary : ∀ op c net,
    (Netlist.applyBinary op a c).outcome net = (Netlist.applyBinary op b c).outcome net ∧
      (Netlist.applyBinary op c a).outcome net = (Netlist.applyBinary op c b).outcome net
  select : ∀ selector c net,
    (Netlist.select selector a c).outcome net = (Netlist.select selector b c).outcome net ∧
      (Netlist.select selector c a).outcome net = (Netlist.select selector c b).outcome net
  reduce : ∀ op net, (Netlist.reduce op a).outcome net = (Netlist.reduce op b).outcome net
  write : ∀ (net : Netlist) value, net.write a value = net.write b value
  read : ∀ net : Netlist, net.readBus a = net.readBus b

/-! ### Buses with the same slots -/

section Congruence
variable {a b : Bus} (h : a.slots = b.slots)
include h

theorem width_congr : a.width = b.width := by
  rw [← length_slots, h, length_slots]

theorem slot_congr (i : Nat) : a.slot i = b.slot i := by
  rw [slot_eq, h, ← slot_eq]

theorem gates_congr : a.gates = b.gates := by
  rw [gates, h, gates]

theorem coincides_congr (c : Bus) : a.coincides c = b.coincides c ∧ c.coincides a = c.coincides b := by
  constructor <;> simp only [coincides, h, width_congr h]

theorem applyBinary_congr (op : Opcode) (c : Bus) :
    Netlist.applyBinary op a c = Netlist.applyBinary op b c ∧
      Netlist.applyBinary op c a = Netlist.applyBinary op c b := by
  constructor <;> simp only [Netlist.applyBinary, gates_congr h]

theorem select_congr (selector : Nat) (c : Bus) :
    Netlist.select selector a c = Netlist.select selector b c ∧
      Netlist.select selector c a = Netlist.select selector c b := by
  have hbinary (op : Opcode) (c : Bus) : Netlist.applyBinary op a c = Netlist.applyBinary op b c :=
    (applyBinary_congr h op c).1
  constructor <;> simp only [Netlist.select, width_congr h, hbinary]

theorem interchangeable_of_slots : a.Interchangeable b where
  width := width_congr h
  slot := slot_congr h
  gate i := by rw [gate, slot_congr h, gate]
  gates := gates_congr h
  slice first last := by rw [slice_slots, h, ← slice_slots]
  bind i gate := by rw [bind_slots, h, ← bind_slots]
  append c := by simp only [slots_append, h, and_self]
  coincides := coincides_congr h
  applyUnary op net := by simp only [Netlist.applyUnary, gates_congr h, width_congr h]
  applyBinary op c net := by
    obtain ⟨hleft, hright⟩ := applyBinary_congr h op c
    rw [hleft, hright]
    exact ⟨rfl, rfl⟩
  select selector c net := by
    obtain ⟨hlow, hhigh⟩ := select_congr h selector c
    rw [hlow, hhigh]
    exact ⟨rfl, rfl⟩
  reduce op net := by simp only [Netlist.reduce, gates_congr h]
  write net value := by rw [Netlist.write, lowSlots_eq_take, h, ← lowSlots_eq_take, Netlist.write]
  read net := by rw [Netlist.readBus, lowSlots_eq_take, h, ← lowSlots_eq_take, Netlist.readBus]

end Congruence

/-- What the slots of two interchangeable buses hold is the same. -/
theorem Interchangeable.slots_eq {a b : Bus} (h : a.Interchangeable b) : a.slots = b.slots := by
  apply List.ext_getElem?
  intro i
  apply Option.ext
  intro held
  rw [← slot_eq_ok, ← slot_eq_ok, h.slot i]

/-! ### Coinciding buses -/

/-- Buses coincide when both are bound throughout, to the same gates. -/
theorem coincides_iff_gates {a b : Bus} :
    a.coincides b = true ↔ ∃ xs, a.gates = .ok xs ∧ b.gates = .ok xs := by
  simp only [coincides_iff, gates_eq_ok]

theorem coincides_comm (a b : Bus) : a.coincides b = b.coincides a := by
  rw [Bool.eq_iff_iff, coincides_iff_gates, coincides_iff_gates]
  simp only [and_comm]

theorem coincides_trans {a b c : Bus} (hab : a.coincides b = true) (hbc : b.coincides c = true) :
    a.coincides c = true := by
  rw [coincides_iff_gates] at hab hbc ⊢
  obtain ⟨xs, ha, hb⟩ := hab
  obtain ⟨ys, hb', hc⟩ := hbc
  rw [hb] at hb'
  cases hb'
  exact ⟨xs, ha, hc⟩

theorem coincides_self_iff {a : Bus} : a.coincides a = true ↔ ∃ xs, a.gates = .ok xs := by
  simp only [coincides_iff_gates, and_self]

/-- **A bus is its slots.** Two buses are interchangeable, in every operation on buses and
in everything a netlist does with them, exactly when they have the same slots. They
coincide exactly when both are bound throughout and have the same gates; so coinciding is
symmetric and transitive, and a bus coincides with itself exactly when it is bound
throughout. -/
theorem interchangeable_iff_slots (a b : Bus) :
    (a.Interchangeable b ↔ a.slots = b.slots) ∧
      (a.coincides b = true ↔ ∃ xs, a.gates = .ok xs ∧ b.gates = .ok xs) ∧
      a.coincides b = b.coincides a ∧
      (∀ c, a.coincides b = true → b.coincides c = true → a.coincides c = true) ∧
      (a.coincides a = true ↔ ∃ xs, a.gates = .ok xs) :=
  ⟨⟨Interchangeable.slots_eq, interchangeable_of_slots⟩, coincides_iff_gates, coincides_comm a b,
    fun _ hab hbc => coincides_trans hab hbc, coincides_self_iff⟩

/-- Two gates as a run and slot by slot, and a bus one of whose slots is unbound. -/
theorem interchangeable_iff_slots_pairSample :
    (contiguous 3 2).Interchangeable (explicit [some 3, some 4]) ∧
      ¬ (contiguous 3 2).Interchangeable (explicit [some 3, none]) ∧
      (contiguous 3 2).coincides (explicit [some 3, some 4]) = true ∧
      (explicit [some 3, none]).coincides (explicit [some 3, none]) = false := by
  obtain ⟨hsame, hcoincide, _⟩ := interchangeable_iff_slots (contiguous 3 2) (explicit [some 3, some 4])
  have hdiffer := (interchangeable_iff_slots (contiguous 3 2) (explicit [some 3, none])).1
  exact ⟨hsame.mpr rfl, fun h => absurd (hdiffer.mp h) (by decide), hcoincide.mpr ⟨[3, 4], rfl, rfl⟩, rfl⟩

end Bus

end BusLogic
