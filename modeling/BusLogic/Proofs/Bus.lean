import BusLogic.Bus
import Mathlib.Tactic.Common

/-! Buses through their slots.

Whatever its form, a bus is its list of slots, and each operation that succeeds is
an operation on that list. -/
namespace BusLogic.Bus

@[simp] theorem slots_single (gate : Nat) : (single gate).slots = [some gate] := rfl

@[simp] theorem slots_unbound (width : Nat) : (unbound width).slots = List.replicate width none := rfl

@[simp] theorem width_unbound (width : Nat) : (unbound width).width = width := by
  rw [← length_slots, slots_unbound, List.length_replicate]

/-! ### Slots that are all bound -/

theorem boundFrom_eq_ok (index : Nat) (slots : List (Option Nat)) (xs : List Nat) :
    boundFrom index slots = .ok xs ↔ slots = xs.map some := by
  induction slots generalizing index xs with
  | nil => cases xs <;> simp [boundFrom]
  | cons slot rest ih =>
    cases slot with
    | none => cases xs <;> simp [boundFrom]
    | some gate =>
      cases xs with
      | nil =>
        rw [boundFrom]
        split <;> simp
      | cons x xs =>
        have hrest := ih (index + 1) xs
        rw [boundFrom]
        split
        · rename_i gates heq
          rw [heq] at hrest
          simp only [Except.ok.injEq, List.cons.injEq, List.map_cons, Option.some.injEq] at hrest ⊢
          rw [hrest]
        · rename_i e heq
          rw [heq] at hrest
          simp only [reduceCtorEq, List.map_cons, List.cons.injEq, Option.some.injEq, false_iff] at hrest ⊢
          exact fun h => hrest h.2

/-- The gates of a bus are there exactly when every slot is bound. -/
theorem gates_eq_ok {b : Bus} {xs : List Nat} : b.gates = .ok xs ↔ b.slots = xs.map some :=
  boundFrom_eq_ok 0 b.slots xs

/-- A slot is read by its number, whatever the form of the bus. -/
theorem slot_eq (b : Bus) (i : Nat) :
    b.slot i =
      match b.slots[i]? with
      | some held => .ok held
      | none => .error (.indexOutOfRange i b.slots.length) := by
  cases b with
  | contiguous start width =>
    simp only [slot, slots, List.getElem?_map, List.length_map, List.length_range']
    split
    · rename_i hi
      rw [List.getElem?_range' (by exact hi)]
      simp
    · rename_i hi
      rw [List.getElem?_eq_none (by simpa using hi)]
      rfl
  | explicit slots => rfl

theorem slot_eq_ok {b : Bus} {i : Nat} {held : Option Nat} :
    b.slot i = .ok held ↔ b.slots[i]? = some held := by
  rw [slot_eq]
  split <;> simp_all

theorem gate_eq_ok {b : Bus} {i gate : Nat} : b.gate i = .ok gate ↔ b.slots[i]? = some (some gate) := by
  rw [← slot_eq_ok, Bus.gate]
  split <;> simp_all

/-! ### Slices and bindings -/

theorem slice_eq_ok {b r : Bus} {first last : Nat} (h : b.slice first last = .ok r) :
    first ≤ last ∧ last < b.width ∧ r.slots = (b.slots.drop first).take (last - first + 1) := by
  unfold slice at h
  split at h
  · cases h
  · split at h
    · cases h
    · rename_i h₁ h₂
      refine ⟨by omega, by omega, ?_⟩
      cases b with
      | contiguous start width =>
        cases h
        simp only [Bus.width] at h₂
        rw [slots, slots, ← List.map_drop, ← List.map_take, List.drop_range', Nat.mul_one,
          List.take_range'_of_length_ge (by omega)]
      | explicit slots =>
        dsimp only at h
        split at h
        · rename_i gate heq
          cases h
          rw [slots_single]
          exact heq.symm
        · cases h
          rfl

theorem slice_width {b r : Bus} {first last : Nat} (h : b.slice first last = .ok r) :
    r.width = last - first + 1 := by
  obtain ⟨hle, hlt, hr⟩ := slice_eq_ok h
  rw [← length_slots, hr, List.length_take, List.length_drop, length_slots]
  omega

/-- Binding takes an unbound slot and changes nothing else. -/
theorem bind_eq_ok {b b' : Bus} {i gate : Nat} (h : b.bind i gate = .ok b') :
    b.slots[i]? = some none ∧ b'.slots = b.slots.set i (some gate) := by
  cases b with
  | contiguous start width => cases h
  | explicit slots =>
    dsimp only [bind] at h
    split at h
    · cases h
    · cases h
    · rename_i hnone
      cases h
      exact ⟨hnone, rfl⟩

/-! ### Coinciding buses -/

/-- Buses that coincide are bound throughout, to the same gates. -/
theorem coincides_iff {a b : Bus} :
    a.coincides b = true ↔ ∃ xs : List Nat, a.slots = xs.map some ∧ b.slots = xs.map some := by
  rw [coincides, Bool.and_eq_true, beq_iff_eq, ← length_slots a, ← length_slots b]
  generalize a.slots = as
  generalize b.slots = bs
  induction as generalizing bs with
  | nil =>
    cases bs with
    | nil => exact ⟨fun _ => ⟨[], rfl, rfl⟩, fun _ => ⟨rfl, rfl⟩⟩
    | cons y bs => simp
  | cons x as ih =>
    cases bs with
    | nil => simp
    | cons y bs =>
      simp only [List.length_cons, Nat.add_right_cancel_iff, List.zip_cons_cons, List.all_cons,
        Bool.and_eq_true]
      constructor
      · rintro ⟨hlen, hxy, hall⟩
        obtain ⟨xs, hx, hy⟩ := (ih bs).mp ⟨hlen, hall⟩
        cases x with
        | none => cases hxy
        | some g =>
          cases y with
          | none => cases hxy
          | some g' =>
            have hg : g = g' := by simpa [sameGate] using hxy
            exact ⟨g :: xs, by rw [hx]; rfl, by rw [hy, ← hg]; rfl⟩
      · rintro ⟨xs, hx, hy⟩
        cases xs with
        | nil => cases hx
        | cons g xs =>
          cases hx
          cases hy
          obtain ⟨hlen, hall⟩ := (ih _).mpr ⟨xs, rfl, rfl⟩
          exact ⟨hlen, by simp [sameGate], hall⟩

end BusLogic.Bus
