import BusLogic.Proofs.Netlist.Refusals

/-! Gates that fit.

With pins that are there and room for all of them, gates are added, whether one by one
(`allocate_of_suited`), for each pair of bits (`applyBinary_of_room`), as a multiplexer
(`select_of_room`) or as inputs (`addInput_of_room`). -/
namespace BusLogic.Netlist
open Attempt

variable {net : Netlist} {op : Opcode}

theorem allocate_of_suited {in1 in2 : Option Nat} (hs : net.Suited op in1 in2) (hroom : net.size < net.capacity) :
    (allocate op in1 in2).outcome net = (.ok net.size, net.push op in1 in2) := by
  have hnone : net.refusal? op in1 in2 = none := by
    by_contra hsome
    obtain ⟨e, he⟩ := Option.ne_none_iff_exists'.mp hsome
    obtain rfl := refusal?_suited hs he
    -- a full arena is the only reason left, and it has room
    unfold refusal? at he
    rw [if_neg (Nat.not_le.mpr hroom)] at he
    split at he
    · cases he
    · dsimp only at he
      split at he <;> cases he
  rw [outcome_allocate, hnone]

theorem allocateAll_of_suited {pins : List (Option Nat × Option Nat)} (hs : ∀ p ∈ pins, net.Suited op p.1 p.2)
    (hroom : net.size + pins.length ≤ net.capacity) :
    ∃ net', (allocateAll op pins).outcome net = (.ok (), net') := by
  induction pins generalizing net with
  | nil => exact ⟨net, rfl⟩
  | cons p rest ih =>
    rw [List.length_cons] at hroom
    have hfirst := allocate_of_suited (hs p List.mem_cons_self) (by omega)
    have hlater : ∀ q ∈ rest, (net.push op p.1 p.2).Suited op q.1 q.2 := fun q hq =>
      (hs q (List.mem_cons_of_mem p hq)).retains (retains_push net op p.1 p.2)
    obtain ⟨net', hrest⟩ := ih hlater (by rw [push_size, push_capacity]; omega)
    refine ⟨net', ?_⟩
    rw [allocateAll, outcome_bind, hfirst]
    exact hrest

theorem allocateInputs_of_room {n : Nat} (hroom : net.size + n ≤ net.capacity) :
    ∃ net', (allocateInputs n).outcome net = (.ok (), net') := by
  induction n generalizing net with
  | zero => exact ⟨net, rfl⟩
  | succ n ih =>
    have hsuited : net.Suited .passthrough none none := .none rfl
    have hfirst := allocate_of_suited hsuited (by omega)
    have hroom' : (net.push .passthrough none none).size + n ≤ (net.push .passthrough none none).capacity := by
      rw [push_size, push_capacity]
      omega
    obtain ⟨net', hrest⟩ := ih hroom'
    refine ⟨net', ?_⟩
    rw [allocateInputs, outcome_bind, hfirst]
    exact hrest

/-- Inputs from the next number on, shown as a port. -/
theorem addInput_of_room (name : String) {width : Nat} (hroom : net.size + width ≤ net.capacity) :
    ∃ net', (addInput name width).outcome net = (.ok (.contiguous net.size width), net') ∧ net.Grows net' ∧
      net'.size = net.size + width ∧ ∀ k < width, net'.Has (net.size + k) .passthrough none none := by
  obtain ⟨net', hall⟩ := allocateInputs_of_room hroom
  have hadd := outcome_addInput name width net
  rw [hall] at hadd
  obtain ⟨hsize, hhas⟩ := allocateInputs_ok hall
  exact ⟨_, hadd, (grows_addInput name width).reached hadd, hsize, hhas⟩

/-! ### Elementwise operations -/

theorem pairs_of_length {xs ys : List Nat} (h : xs.length = ys.length) : pairs xs ys = .ok (xs.zip ys) := by
  unfold pairs
  exact if_pos h

/-- One bit on the right meets every bit on the left. -/
theorem pairs_singleton (xs : List Nat) (y : Nat) : pairs xs [y] = .ok (xs.map fun x => (x, y)) := by
  rcases xs with _ | ⟨x, _ | ⟨x', xs⟩⟩
  · rfl
  · rfl
  · rfl

/-- A gate for each pair of bits, from the next number on. -/
theorem applyBinary_of_room {a b : Bus} {xs ys : List Nat} {ps : List (Nat × Nat)} (hop : op.arity = 2)
    (ha : a.slots = xs.map some) (hb : b.slots = ys.map some) (hps : pairs xs ys = .ok ps)
    (hxs : ∀ x ∈ xs, x < net.size) (hys : ∀ y ∈ ys, y < net.size) (hroom : net.size + ps.length ≤ net.capacity) :
    ∃ net', (applyBinary op a b).outcome net = (.ok (.contiguous net.size ps.length), net') ∧
      net.Grows net' ∧ net'.size = net.size + ps.length ∧
      ∀ j p, ps[j]? = some p → net'.Has (net.size + j) op (some p.1) (some p.2) := by
  have hsuited : ∀ p ∈ ps.map fun p => (some p.1, some p.2), net.Suited op p.1 p.2 := by
    intro p hp
    obtain ⟨q, hq, rfl⟩ := List.mem_map.mp hp
    have hmem := mem_pairs hps hq
    exact .two hop (hxs _ hmem.1) (hys _ hmem.2)
  obtain ⟨net', hall⟩ := allocateAll_of_suited hsuited (by simpa using hroom)
  have hok : (applyBinary op a b).outcome net = (.ok (.contiguous net.size ps.length), net') := by
    simp only [applyBinary, outcome_bind, outcome_ofExcept, Bus.gates_eq_ok.mpr ha, Bus.gates_eq_ok.mpr hb, hps,
      outcome_get, hall, outcome_pure]
  obtain ⟨_, hsize, hhas⟩ := allocateAll_ok hall
  refine ⟨net', hok, ((wires_applyBinary op a b).reached hok).grows, by simpa using hsize, fun j p hj => ?_⟩
  exact hhas j _ (by rw [List.getElem?_map, hj]; rfl)

/-- A gate for each two bits of buses of one width. -/
theorem applyBinary_contiguous {x y n : Nat} (hop : op.arity = 2) (hx : x + n ≤ net.size) (hy : y + n ≤ net.size)
    (hroom : net.size + n ≤ net.capacity) :
    ∃ net', (applyBinary op (.contiguous x n) (.contiguous y n)).outcome net = (.ok (.contiguous net.size n), net') ∧
      net.Grows net' ∧ net'.size = net.size + n ∧
      ∀ j < n, net'.Has (net.size + j) op (some (x + j)) (some (y + j)) := by
  have hbelow (z : Nat) (hz : z + n ≤ net.size) : ∀ i ∈ List.range' z n, i < net.size := by
    intro i hi
    rw [List.mem_range'_1] at hi
    omega
  have hlen : ((List.range' x n).zip (List.range' y n)).length = n := by simp
  obtain ⟨net', hok, hgrown, hsize, hhas⟩ := applyBinary_of_room (a := .contiguous x n) (b := .contiguous y n) hop
    rfl rfl (pairs_of_length (by simp)) (hbelow x hx) (hbelow y hy) (by rwa [hlen])
  rw [hlen] at hok hsize
  refine ⟨net', hok, hgrown, hsize, fun j hj => hhas j (x + j, y + j) ?_⟩
  simp [hj]

/-- A two-way multiplexer takes one gate, and three for each bit. -/
theorem select_of_room {selector : Nat} {a b : Bus} {xs ys : List Nat} (hsel : selector < net.size)
    (ha : a.slots = xs.map some) (hb : b.slots = ys.map some) (hlen : xs.length = ys.length)
    (hxs : ∀ x ∈ xs, x < net.size) (hys : ∀ y ∈ ys, y < net.size)
    (hroom : net.size + (1 + 3 * xs.length) ≤ net.capacity) :
    ∃ start net', (select selector a b).outcome net = (.ok (.contiguous start xs.length), net') := by
  have hwidth : ¬ a.width ≠ b.width := by
    rw [← Bus.length_slots, ← Bus.length_slots, ha, hb, List.length_map, List.length_map]
    exact not_not.mpr hlen
  have hand : Opcode.arity .and = 2 := rfl
  have hnot := allocate_of_suited (.one rfl hsel : net.Suited .not (some selector) none) (by omega)
  have hcap₁ := ((grows_allocate .not (some selector) none).reached hnot).retains.capacity
  obtain ⟨_, hsize₁, _⟩ := allocate_ok hnot
  obtain ⟨net₁, hnet₁⟩ : ∃ net₁, net.push .not (some selector) none = net₁ := ⟨_, rfl⟩
  rw [hnet₁] at hnot hsize₁ hcap₁
  have hxs₁ : ∀ x ∈ xs, x < net₁.size := fun x hx => by have := hxs x hx; omega
  have hinv₁ : ∀ x ∈ [net.size], x < net₁.size := by simp [hsize₁]
  obtain ⟨net₂, hlow, hgrown₂, hsize₂, _⟩ := applyBinary_of_room (b := .single net.size) hand ha rfl
    (pairs_singleton xs _) hxs₁ hinv₁ (by rw [List.length_map]; omega)
  have hcap₂ := hgrown₂.retains.capacity
  rw [List.length_map] at hlow hsize₂
  have hys₂ : ∀ y ∈ ys, y < net₂.size := fun y hy => by have := hys y hy; omega
  have hsel₂ : ∀ x ∈ [selector], x < net₂.size := by simp; omega
  obtain ⟨net₃, hhigh, hgrown₃, hsize₃, _⟩ := applyBinary_of_room (b := .single selector) hand hb rfl
    (pairs_singleton ys _) hys₂ hsel₂ (by rw [List.length_map]; omega)
  have hcap₃ := hgrown₃.retains.capacity
  rw [List.length_map, ← hlen] at hhigh hsize₃
  have hlow₃ : net₁.size + xs.length ≤ net₃.size := by omega
  have hhigh₃ : net₂.size + xs.length ≤ net₃.size := by omega
  obtain ⟨net₄, hor, _⟩ := applyBinary_contiguous (show Opcode.arity .or = 2 from rfl) hlow₃ hhigh₃ (by omega)
  refine ⟨net₃.size, net₄, ?_⟩
  rw [select, if_neg hwidth]
  simp only [outcome_bind, hnot, hlow, hhigh, hor]

end BusLogic.Netlist
