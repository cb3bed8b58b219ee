import BusLogic.Proofs.Bus

/-! Slices of buses and buses put together.

A slice of a contiguous bus is contiguous, and one of an explicit bus is explicit unless it
is a single bound slot (`ofSlots`). Since a single bound slot has only itself as a slice, a
slice of a slice comes to the same bus, in the same form, as the slice taken at once
(`slice_slice`). On the slots, slicing takes a row out and putting together appends, so a
bus cut in two is put together again (`append_slices`) and a bus put together is cut at its
seam (`slice_append_left`, `slice_append_right`). -/
namespace BusLogic.Bus

variable {b part : Bus} {first last : Nat}

/-! ### When there is a slice, and of which form -/

/-- The slots of an explicit bus that were sliced out. A single bound slot is contiguous. -/
def ofSlots : List (Option Nat) → Bus
  | [some gate] => single gate
  | slots => .explicit slots

theorem slice_contiguous {start width : Nat} (hle : first ≤ last) (hlt : last < width) :
    (contiguous start width).slice first last = .ok (.contiguous (start + first) (last - first + 1)) := by
  rw [slice, if_neg (by omega), Bus.width, if_neg (by omega)]

theorem slice_explicit {slots : List (Option Nat)} (hle : first ≤ last) (hlt : last < slots.length) :
    (explicit slots).slice first last = .ok (ofSlots ((slots.drop first).take (last - first + 1))) := by
  rw [slice, if_neg (by omega), Bus.width, if_neg (by omega)]
  generalize (slots.drop first).take (last - first + 1) = row
  rcases row with _ | ⟨_ | gate, _ | ⟨slot, row⟩⟩ <;> rfl

theorem exists_slice (hle : first ≤ last) (hlt : last < b.width) : ∃ part, b.slice first last = .ok part := by
  cases b with
  | contiguous start width => exact ⟨_, slice_contiguous hle hlt⟩
  | explicit slots => exact ⟨_, slice_explicit hle hlt⟩

/-- A slice is there exactly when its ends are in order and in the bus. -/
theorem exists_slice_iff : (∃ part, b.slice first last = .ok part) ↔ first ≤ last ∧ last < b.width := by
  constructor
  · rintro ⟨part, hpart⟩
    obtain ⟨hle, hlt, _⟩ := slice_eq_ok hpart
    exact ⟨hle, hlt⟩
  · rintro ⟨hle, hlt⟩
    exact exists_slice hle hlt

theorem slots_slice (h : b.slice first last = .ok part) : part.slots = (b.slots.take (last + 1)).drop first := by
  obtain ⟨hle, _, hslots⟩ := slice_eq_ok h
  rw [hslots, List.drop_take]
  congr 1
  omega

/-! ### Slices of slices -/

/-- Slots that were sliced out are sliced as if they had stayed explicit. -/
theorem slice_ofSlots {slots : List (Option Nat)} (hle : first ≤ last) (hlt : last < slots.length) :
    (ofSlots slots).slice first last = .ok (ofSlots ((slots.drop first).take (last - first + 1))) := by
  by_cases hsingle : ∃ gate, slots = [some gate]
  · obtain ⟨gate, rfl⟩ := hsingle
    obtain rfl : last = 0 := Nat.lt_one_iff.mp hlt
    obtain rfl : first = 0 := Nat.le_zero.mp hle
    rfl
  · have hexplicit : ofSlots slots = explicit slots := by
      unfold ofSlots
      split
      · exact absurd ⟨_, rfl⟩ hsingle
      · rfl
    rw [hexplicit, slice_explicit hle hlt]

/-- A slice of a slice is the slice taken at once, form included. -/
theorem slice_slice {first' last' : Nat} (h : b.slice first last = .ok part) (hle : first' ≤ last')
    (hlt : last' ≤ last - first) : part.slice first' last' = b.slice (first + first') (first + last') := by
  obtain ⟨hle₀, hlt₀, _⟩ := slice_eq_ok h
  have hlen : first + last' - (first + first') + 1 = last' - first' + 1 := by omega
  cases b with
  | contiguous start width =>
    simp only [Bus.width] at hlt₀
    rw [slice_contiguous hle₀ hlt₀] at h
    cases h
    rw [slice_contiguous hle (by omega), slice_contiguous (by omega) (by omega), hlen, Nat.add_assoc]
  | explicit slots =>
    simp only [Bus.width] at hlt₀
    rw [slice_explicit hle₀ hlt₀] at h
    cases h
    have hwithin : last' < ((slots.drop first).take (last - first + 1)).length := by
      rw [List.length_take, List.length_drop]
      omega
    rw [slice_ofSlots hle hwithin, slice_explicit (by omega) (by omega), hlen, List.drop_take, List.drop_drop,
      List.take_take, Nat.min_eq_left (by omega)]

/-! ### Cutting and putting together -/

theorem append_slices {k : Nat} (hk : k + 1 < b.width) : ∃ low high,
    b.slice 0 k = .ok low ∧ b.slice (k + 1) (b.width - 1) = .ok high ∧ low ++ high = explicit b.slots := by
  obtain ⟨low, hlow⟩ := exists_slice (Nat.zero_le k) (Nat.lt_of_succ_lt hk)
  obtain ⟨high, hhigh⟩ : ∃ high, b.slice (k + 1) (b.width - 1) = .ok high := exists_slice (by omega) (by omega)
  refine ⟨low, high, hlow, hhigh, congrArg explicit ?_⟩
  have hall : b.slots.take (b.width - 1 + 1) = b.slots := List.take_of_length_le (by rw [length_slots]; omega)
  rw [slots_slice hlow, slots_slice hhigh, hall, List.drop_zero, List.take_append_drop]

theorem append_assoc (a b c : Bus) : a ++ b ++ c = a ++ (b ++ c) :=
  congrArg explicit (List.append_assoc ..)

theorem width_append (a b : Bus) : (a ++ b).width = a.width + b.width := by
  rw [← length_slots, slots_append, List.length_append, length_slots, length_slots]

theorem slice_append_left {a b : Bus} (ha : 0 < a.width) :
    ∃ left, (a ++ b).slice 0 (a.width - 1) = .ok left ∧ left.slots = a.slots := by
  obtain ⟨left, hleft⟩ : ∃ left, (a ++ b).slice 0 (a.width - 1) = .ok left :=
    exists_slice (Nat.zero_le _) (by rw [width_append]; omega)
  refine ⟨left, hleft, ?_⟩
  rw [slots_slice hleft, slots_append, List.drop_zero, Nat.sub_add_cancel ha, ← length_slots, List.take_left]

theorem slice_append_right {a b : Bus} (hb : 0 < b.width) :
    ∃ right, (a ++ b).slice a.width (a.width + b.width - 1) = .ok right ∧ right.slots = b.slots := by
  obtain ⟨right, hright⟩ : ∃ right, (a ++ b).slice a.width (a.width + b.width - 1) = .ok right :=
    exists_slice (by omega) (by rw [width_append]; omega)
  have hall : (a.slots ++ b.slots).take (a.width + b.width - 1 + 1) = a.slots ++ b.slots :=
    List.take_of_length_le (by rw [List.length_append, length_slots, length_slots]; omega)
  refine ⟨right, hright, ?_⟩
  rw [slots_slice hright, slots_append, hall, ← length_slots a, List.drop_left]

/-- **Slicing and putting together.** Of every bus, whatever its form and with slots unbound
or not: a slice is there exactly when its ends are in order and in the bus, and it has the
slots from the one to the other. Cut behind slot `k` and put together again, the bus has
the slots it had. Putting together is associative, and slices that end and start at the
seam have the slots of the parts. A slice of a slice is there exactly when its ends are in
order and in the slice, and it is the slice taken at once from the bus, in the same form. -/
theorem slice_append_laws (b : Bus) :
    (∀ first last, ((∃ part, b.slice first last = .ok part) ↔ first ≤ last ∧ last < b.width) ∧
      ∀ part, b.slice first last = .ok part → part.slots = (b.slots.take (last + 1)).drop first) ∧
    (∀ k, k + 1 < b.width → ∃ low high, b.slice 0 k = .ok low ∧ b.slice (k + 1) (b.width - 1) = .ok high ∧
      (low ++ high).slots = b.slots) ∧
    (∀ c d : Bus, b ++ c ++ d = b ++ (c ++ d)) ∧
    (∀ c : Bus,
      (0 < b.width → ∃ left, (b ++ c).slice 0 (b.width - 1) = .ok left ∧ left.slots = b.slots) ∧
      (0 < c.width → ∃ right, (b ++ c).slice b.width (b.width + c.width - 1) = .ok right ∧ right.slots = c.slots)) ∧
    (∀ first last part, b.slice first last = .ok part → ∀ first' last',
      ((∃ inner, part.slice first' last' = .ok inner) ↔ first' ≤ last' ∧ last' ≤ last - first) ∧
      (first' ≤ last' ∧ last' ≤ last - first →
        part.slice first' last' = b.slice (first + first') (first + last'))) := by
  refine ⟨fun first last => ⟨exists_slice_iff, fun _ => slots_slice⟩, fun k hk => ?_, append_assoc b,
    fun c => ⟨slice_append_left, slice_append_right⟩, fun first last part hpart first' last' => ⟨?_, ?_⟩⟩
  · obtain ⟨low, high, hlow, hhigh, hwhole⟩ := append_slices hk
    exact ⟨low, high, hlow, hhigh, by rw [hwhole]; rfl⟩
  · rw [exists_slice_iff, slice_width hpart, Nat.lt_succ_iff]
  · rintro ⟨hle, hlt⟩
    exact slice_slice hpart hle hlt

/-- A bus with an unbound slot between two gates: a slice of two slots is explicit, and the
bound slot of it is contiguous, as it is when it is taken at once. -/
theorem slice_append_laws_gapSample :
    (explicit [some 7, none, some 4]).slice 1 2 = .ok (explicit [none, some 4]) ∧
      (explicit [none, some 4]).slice 1 1 = (explicit [some 7, none, some 4]).slice 2 2 ∧
      (explicit [some 7, none, some 4]).slice 2 2 = .ok (contiguous 4 1) ∧
      ∃ low high, (explicit [some 7, none, some 4]).slice 0 0 = .ok low ∧
        (explicit [some 7, none, some 4]).slice 1 2 = .ok high ∧ (low ++ high).slots = [some 7, none, some 4] := by
  obtain ⟨_, hcut, _, _, hinner⟩ := slice_append_laws (explicit [some 7, none, some 4])
  exact ⟨rfl, (hinner 1 2 _ rfl 1 1).2 ⟨by decide, by decide⟩, rfl, hcut 0 (by decide)⟩

end BusLogic.Bus
