import BusLogic.Proofs.Netlist.Fitting
import BusLogic.Proofs.Netlist.Lockstep
import BusLogic.Proofs.Script.Levels
import Mathlib.Tactic.Ring

/-! Multiplexers with and without reuse.

A two-way multiplexer takes one gate, and three for each bit (`select_shape`), and carries
one of its branches bit by bit (`select_bit`). A multiplexer that finishes has branches of
one width, takes that many gates wherever it joins two neighbours (`multiplexBy_shape`), and
picks a branch by number (`multiplexBy_picks`), provided that it takes only coinciding branches for one. One that
never does so finishes if there is room for its gates (`multiplexBy_of_room`), and it
carries what the multiplexer that reuses branches carries, wherever the gates of the
branches hold the same values (`Picks.agree`). -/
namespace BusLogic

/-- The bus has `w` slots, and all of them are bound. -/
def Bus.Bound (w : Nat) (b : Bus) : Prop := ∃ xs : List Nat, xs.length = w ∧ b.slots = xs.map some

theorem Bus.Bound.width {w : Nat} {b : Bus} (h : b.Bound w) : b.width = w := by
  obtain ⟨xs, rfl, hslots⟩ := h
  rw [← length_slots, hslots, List.length_map]

theorem Bus.bound_contiguous (start w : Nat) : (Bus.contiguous start w).Bound w :=
  ⟨List.range' start w, List.length_range', rfl⟩

theorem Bus.bound_of_coincides {a b : Bus} (h : a.coincides b = true) : ∃ w, a.Bound w ∧ b.Bound w := by
  obtain ⟨xs, ha, hb⟩ := coincides_iff.mp h
  exact ⟨xs.length, ⟨xs, rfl, ha⟩, ⟨xs, rfl, hb⟩⟩

theorem Bus.bits_congr {b : Bus} {v w : Nat → Bool} (h : ∀ gate, some gate ∈ b.slots → v gate = w gate) :
    b.bits v = b.bits w := by
  apply List.map_congr_left
  intro slot hslot
  cases slot with
  | none => rfl
  | some gate => exact congrArg some (h gate hslot)

theorem Bus.getElem?_bits {b : Bus} {j gate : Nat} (h : b.slots[j]? = some (some gate)) (v : Nat → Bool) :
    (b.bits v)[j]? = some (some (v gate)) := by
  rw [bits, List.getElem?_map, h]
  rfl

namespace Netlist
open Attempt Script.Reference

/-- The number that the gates of a selector write, the first of them lowest. -/
def selected (w : Nat → Bool) (gates : List Nat) : Nat := (gates.mapIdx fun i gate => (w gate).toNat * 2 ^ i).sum

/-- The weights may start at any power of two. -/
theorem sum_weights (w : Nat → Bool) (gates : List Nat) (k : Nat) :
    (gates.mapIdx fun i gate => (w gate).toNat * 2 ^ (i + k)).sum = 2 ^ k * number (gates.map w) := by
  induction gates generalizing k with
  | nil => rfl
  | cons gate rest ih =>
    rw [List.mapIdx_cons, List.sum_cons, Nat.zero_add, List.map_cons, number]
    simp only [Nat.add_assoc, Nat.add_comm 1 k]
    rw [ih (k + 1)]
    ring

theorem selected_eq_number (w : Nat → Bool) (gates : List Nat) : selected w gates = number (gates.map w) := by
  have hsum := sum_weights w gates 0
  rwa [Nat.pow_zero, Nat.one_mul] at hsum

/-- Whatever values the gates hold, after a tick the bus carries what the branch carries
that `gates` number. -/
def Picks (net : Netlist) (gates : List Nat) (branches : List Bus) (out : Bus) : Prop :=
  ∀ later, net.Revalued later → ∃ chosen, branches[selected later.tick.valueAt gates]? = some chosen ∧
    out.bits later.tick.valueAt = chosen.bits later.tick.valueAt

/-- No two branches are taken for one. -/
def never (_ _ : Bus) : Bool := false

theorem coincides_of_never (a b : Bus) (h : never a b = true) : a.coincides b = true := nomatch h

/-! ### Widths and gates -/

section Select
variable {net net' : Netlist}

theorem applyBinary_single_ok {op : Opcode} {a r : Bus} {y : Nat}
    (h : (applyBinary op a (.single y)).outcome net = (.ok r, net')) :
    ∃ w, a.Bound w ∧ r = .contiguous net.size w ∧ net'.size = net.size + w := by
  obtain ⟨xs, ys, ps, hx, hy, hps, rfl, hsize, _⟩ := applyBinary_ok h
  obtain rfl : [y] = ys := (List.map_inj_right fun _ _ => Option.some.inj).mp hy
  rw [pairs_singleton] at hps
  cases hps
  rw [List.length_map] at hsize ⊢
  exact ⟨xs.length, ⟨xs, rfl, hx⟩, rfl, hsize⟩

/-- A two-way multiplexer is as wide as its branches; it takes one gate, and three for each
bit. -/
theorem select_shape {selector : Nat} {a b r : Bus}
    (h : (select selector a b).outcome net = (.ok r, net')) :
    ∃ w, a.Bound w ∧ b.Bound w ∧ r.Bound w ∧ net'.size = net.size + (1 + 3 * w) := by
  obtain ⟨hwidth, inverted, low, high, net₁, net₂, net₃, hnot, hlow, hhigh, hor⟩ := select_ok h
  obtain ⟨w, ha, rfl, hsize₂⟩ := applyBinary_single_ok hlow
  obtain ⟨w', hb, rfl, hsize₃⟩ := applyBinary_single_ok hhigh
  obtain rfl : w = w' := by rw [← ha.width, hwidth, hb.width]
  obtain ⟨xs, ys, ps, hxs, hys, hps, rfl, hsize, _⟩ := applyBinary_ok hor
  have hx : xs.length = w := by rw [← List.length_map some, ← hxs, Bus.length_slots]; rfl
  have hy : ys.length = w := by rw [← List.length_map some, ← hys, Bus.length_slots]; rfl
  rw [pairs_of_length (hx.trans hy.symm)] at hps
  cases hps
  have hlen : (xs.zip ys).length = w := by rw [List.length_zip, hx, hy, Nat.min_self]
  rw [hlen] at hsize ⊢
  refine ⟨w, ha, hb, Bus.bound_contiguous _ _, ?_⟩
  have hsize₁ := (allocate_ok hnot).2.1
  omega

/-- What a two-way multiplexer carries are the gates it added last. -/
theorem select_last {selector start n : Nat} {a b : Bus}
    (h : (select selector a b).outcome net = (.ok (.contiguous start n), net')) : start + n = net'.size := by
  obtain ⟨_, inverted, low, high, net₁, net₂, net₃, _, _, _, hor⟩ := select_ok h
  obtain ⟨_, _, ps, _, _, _, hr, hsize, _⟩ := applyBinary_ok hor
  cases hr
  exact hsize.symm

/-- Bit by bit, a two-way multiplexer carries one of its branches. -/
theorem select_bit {selector start n : Nat} {a b : Bus} {v : Nat → Bool} {given : List Bool}
    (hc : net'.Consistent v given) (h : (select selector a b).outcome net = (.ok (.contiguous start n), net'))
    {j x y : Nat} (hj : j < n) (hx : a.slots[j]? = some (some x)) (hy : b.slots[j]? = some (some y)) :
    v (start + j) = if v selector then v y else v x := by
  have hout : ((Bus.contiguous start n).bits v)[j]? = some (some (v (start + j))) :=
    Bus.getElem?_bits (by simp [Bus.slots, hj]) v
  rw [select_bits hc h] at hout
  by_cases hsel : v selector
  · rw [if_pos hsel, Bus.getElem?_bits hy] at hout
    simp [hsel, Option.some.inj (Option.some.inj hout)]
  · rw [if_neg hsel, Bus.getElem?_bits hx] at hout
    simp [hsel, Option.some.inj (Option.some.inj hout)]

/-- **A two-way multiplexer chooses, bit by bit**, whatever gates its selector and branches
share. Between branches of one width whose gates are there, and with room for one gate and
three for each bit, it is built from that many gates, added to the netlist as it was, and
after any tick, also of a netlist that has grown since, each of its bits is that of the
second branch if the selector is high, and that of the first if not. Branches of different
widths are refused, and the netlist stays as it was. -/
theorem select_multiplexes (net : Netlist) (selector : Nat) (a b : Bus) :
    (∀ xs ys : List Nat, net.WellFormed → selector < net.size →
      a.slots = xs.map some → b.slots = ys.map some → xs.length = ys.length →
      (∀ x ∈ xs, x < net.size) → (∀ y ∈ ys, y < net.size) →
      net.size + (1 + 3 * xs.length) ≤ net.capacity →
      ∃ start net', (select selector a b).outcome net = (.ok (.contiguous start xs.length), net') ∧
        net'.size = net.size + (1 + 3 * xs.length) ∧ start + xs.length = net'.size ∧
        net.Appends net' ∧ net'.WellFormed ∧
        ∀ later, net'.Retains later → later.WellFormed →
          ∀ (j x y : Nat), xs[j]? = some x → ys[j]? = some y →
            later.tick.valueAt (start + j) =
              if later.tick.valueAt selector then later.tick.valueAt y else later.tick.valueAt x) ∧
      (a.width ≠ b.width →
        (select selector a b).outcome net = (.error (.widthMismatch a.width b.width), net)) := by
  constructor
  · intro xs ys hw hsel ha hb hlen hxs hys hroom
    obtain ⟨start, net', h⟩ := select_of_room hsel ha hb hlen hxs hys hroom
    have hwires := (wires_select selector a b).reached h
    have hi' : net'.Intact := hwires.grows.intact ⟨by omega, hw⟩
    obtain ⟨n, ⟨zs, rfl, hzs⟩, _, _, hsize⟩ := select_shape h
    obtain rfl : xs = zs := (List.map_inj_right fun _ _ => Option.some.inj).mp (ha.symm.trans hzs)
    refine ⟨start, net', h, hsize, select_last h, hwires.appends, hi'.wired, ?_⟩
    intro later hret hlater j x y hx hy
    have hj : j < xs.length := (List.getElem?_eq_some_iff.mp hx).1
    exact select_bit ((consistent_tick hlater).of_retains hret) h hj (by rw [ha, List.getElem?_map, hx]; rfl)
      (by rw [hb, List.getElem?_map, hy]; rfl)
  · intro hwidth
    rw [select, if_pos hwidth]
    rfl

/-- Three inputs, the second of them high. -/
def selectorSample : Netlist :=
  { Netlist.empty {} with
    gates := #[⟨.passthrough, none, none, false, 0, 0⟩, ⟨.passthrough, none, none, true, 0, 0⟩,
      ⟨.passthrough, none, none, false, 0, 0⟩] }

/-- The second input selects between the first two inputs and the last two, and so stands in
both branches; it is high, and what shows are the last two. -/
theorem select_multiplexes_selectorSample :
    (∃ start net', (select 1 (.contiguous 0 2) (.contiguous 1 2)).outcome selectorSample =
        (.ok (.contiguous start 2), net') ∧ net'.size = 10 ∧
      net'.tick.valueAt (start + 0) = true ∧ net'.tick.valueAt (start + 1) = false) ∧
    (select 1 (.contiguous 0 2) (.contiguous 1 1)).outcome selectorSample =
      (.error (.widthMismatch 2 1), selectorSample) := by
  constructor
  · obtain ⟨start, net', h, hsize, _, _, hw, hbit⟩ :=
      (select_multiplexes selectorSample 1 (.contiguous 0 2) (.contiguous 1 2)).1 [0, 1] [1, 2] (by decide)
        (by decide) rfl rfl rfl (by decide) (by decide) (by decide)
    obtain rfl : ((select 1 (.contiguous 0 2) (.contiguous 1 2)).outcome selectorSample).2 = net' :=
      congrArg Prod.snd h
    have hlow := hbit _ (refl _) hw 0 0 1 rfl rfl
    have hhigh := hbit _ (refl _) hw 1 1 2 rfl rfl
    refine ⟨start, _, h, hsize, ?_, ?_⟩
    · rw [hlow]
      decide +kernel
    · rw [hhigh]
      decide +kernel
  · exact (select_multiplexes selectorSample 1 (.contiguous 0 2) (.contiguous 1 1)).2 (by decide)

end Select

section Shape
variable {same : Bus → Bus → Bool} {net net' : Netlist}
  (hsame : ∀ a b, same a b = true → a.coincides b = true)
include hsame

/-- What a level leaves of an even row is bound throughout, and if it is of one width, so is
the row. -/
theorem multiplexLevelBy_shape {selector n : Nat} {row joined : List Bus} (hn : row.length = 2 * n)
    (h : (multiplexLevelBy same selector row).outcome net = (.ok joined, net')) :
    (∀ c ∈ joined, ∃ w, c.Bound w) ∧
      ∀ w, (∀ c ∈ joined, c.width = w) →
        (∀ b ∈ row, b.Bound w) ∧ net'.size = net.size + (1 + 3 * w) * apart same row := by
  fun_induction apart same row generalizing net joined n with
  | case1 a b rest ih =>
    obtain ⟨c, more, net₁, rfl, hpair, hrest⟩ := multiplexLevelBy_ok h
    rw [List.length_cons, List.length_cons] at hn
    obtain ⟨hbound, hwide⟩ := ih (n := n - 1) (by omega) hrest
    -- whether it is reused or joined, the pair is bound and as wide as what stands for it
    obtain ⟨w, ha, hb, hc, hsize⟩ : ∃ w, a.Bound w ∧ b.Bound w ∧ c.Bound w ∧
        net₁.size = net.size + (1 + 3 * w) * (if same a b then 0 else 1) := by
      rcases hpair with ⟨hab, rfl, rfl⟩ | ⟨hab, hselect⟩
      · obtain ⟨w, ha, hb⟩ := Bus.bound_of_coincides (hsame _ _ hab)
        exact ⟨w, ha, hb, ha, by simp [hab]⟩
      · obtain ⟨w, ha, hb, hc, hsize⟩ := select_shape hselect
        exact ⟨w, ha, hb, hc, by simp [hab, hsize]⟩
    refine ⟨List.forall_mem_cons.mpr ⟨⟨w, hc⟩, hbound⟩, fun w' hw' => ?_⟩
    obtain ⟨hcw, hmore⟩ := List.forall_mem_cons.mp hw'
    obtain rfl : w = w' := by rw [← hc.width, hcw]
    obtain ⟨hrow, hsize'⟩ := hwide w hmore
    refine ⟨List.forall_mem_cons.mpr ⟨ha, List.forall_mem_cons.mpr ⟨hb, hrow⟩⟩, ?_⟩
    rw [hsize', hsize, Nat.mul_add, Nat.add_assoc]
  | case2 row hshort =>
    obtain rfl := eq_nil_of_even hn hshort
    cases h
    refine ⟨List.forall_mem_nil _, fun w _ => ⟨List.forall_mem_nil _, ?_⟩⟩
    rw [Nat.mul_zero, Nat.add_zero]

/-- With at least one level, what is left is bound throughout. -/
theorem multiplexLevelsBy_bound {index n : Nat} {slots : List (Option Nat)} {row out : List Bus}
    (hslots : slots ≠ []) (hn : row.length = 2 ^ slots.length * n)
    (h : (multiplexLevelsBy same index slots row).outcome net = (.ok out, net')) : ∀ c ∈ out, ∃ w, c.Bound w := by
  fun_induction multiplexLevelsBy same index slots row generalizing net with
  | case1 => exact absurd rfl hslots
  | case2 => cases h
  | case3 index gate slots row ih =>
    obtain ⟨halved, net₁, hlevel, h₁⟩ := outcome_bind_ok h
    rw [List.length_cons, Nat.pow_succ, Nat.mul_comm _ 2, Nat.mul_assoc] at hn
    cases slots with
    | nil =>
      cases h₁
      exact (multiplexLevelBy_shape hsame hn hlevel).1
    | cons slot rest => exact ih halved (by simp) (length_multiplexLevelBy hn hlevel) h₁

/-- The rows that the levels start from, one for each level: what the levels before it
leave of the branches. If the last row is of one width, so are the branches, and the gates
of the levels are those of the neighbours they join. -/
theorem multiplexLevelsBy_rows {index n w : Nat} {slots : List (Option Nat)} {row out : List Bus}
    (hn : row.length = 2 ^ slots.length * n) (hout : ∀ c ∈ out, c.Bound w)
    (h : (multiplexLevelsBy same index slots row).outcome net = (.ok out, net')) :
    (∀ b ∈ row, b.Bound w) ∧ ∃ rows : List (List Bus), rows.length = slots.length ∧
      (∀ (i : Nat) (halved : List Bus), rows[i]? = some halved →
        ∃ net₁, (multiplexLevelsBy same index (slots.take i) row).outcome net = (.ok halved, net₁)) ∧
      net'.size = net.size + (1 + 3 * w) * (rows.map (apart same)).sum := by
  fun_induction multiplexLevelsBy same index slots row generalizing net with
  | case1 =>
    cases h
    exact ⟨hout, [], rfl, by rintro _ _ ⟨⟩, rfl⟩
  | case2 => cases h
  | case3 index gate slots row ih =>
    obtain ⟨halved, net₁, hlevel, h₁⟩ := outcome_bind_ok h
    rw [List.length_cons, Nat.pow_succ, Nat.mul_comm _ 2, Nat.mul_assoc] at hn
    obtain ⟨hhalved, rows, hrows, hreach, hsize⟩ := ih halved (length_multiplexLevelBy hn hlevel) h₁
    obtain ⟨hrow, hsize₁⟩ := (multiplexLevelBy_shape hsame hn hlevel).2 w fun c hc => (hhalved c hc).width
    refine ⟨hrow, row :: rows, by rw [List.length_cons, hrows, List.length_cons], ?_, ?_⟩
    · intro i later hi
      cases i with
      | zero =>
        cases hi
        exact ⟨net, rfl⟩
      | succ i =>
        obtain ⟨net₂, hreach⟩ := hreach i later hi
        refine ⟨net₂, ?_⟩
        rw [List.take_succ_cons, multiplexLevelsBy, outcome_bind, hlevel]
        exact hreach
    · rw [hsize, hsize₁, List.map_cons, List.sum_cons, Nat.mul_add, Nat.add_assoc]

end Shape

section Success
variable {same : Bus → Bus → Bool} {net net' : Netlist} {selector out : Bus} {branches : List Bus}
  (hsame : ∀ a b, same a b = true → a.coincides b = true)
  (h : (multiplexBy same selector branches).outcome net = (.ok out, net'))
include hsame h

theorem multiplexBy_picks {gates : List Nat} (hw : net'.WellFormed) (hslots : selector.slots = gates.map some) :
    net'.Picks gates branches out := by
  intro later hlater
  have hc := (consistent_tick (hw.revalued hlater)).of_retains hlater.grows.retains
  obtain ⟨xs, hxs, hbits⟩ := multiplexBy_bits hc hsame h
  obtain rfl : gates = xs := (List.map_inj_right fun _ _ => Option.some.inj).mp (hslots.symm.trans hxs)
  rw [← selected_eq_number, List.getElem?_map] at hbits
  obtain ⟨chosen, hchosen, heq⟩ := Option.map_eq_some_iff.mp hbits
  exact ⟨chosen, hchosen, heq.symm⟩

/-- The selector is bound, the branches are as many as it numbers, and all of one width. -/
theorem multiplexBy_shape (hw : net'.WellFormed) : ∃ (gates : List Nat) (w : Nat),
    selector.slots = gates.map some ∧ 1 ≤ gates.length ∧ branches.length = 2 ^ gates.length ∧
      (∀ b ∈ branches, b.Bound w) ∧ out.Bound w ∧
      ∃ rows : List (List Bus), rows.length = gates.length ∧
        (∀ (i : Nat) (halved : List Bus), rows[i]? = some halved →
          ∃ net₁, (multiplexLevelsBy same 0 (selector.slots.take i) branches).outcome net = (.ok halved, net₁)) ∧
        net'.size = net.size + (1 + 3 * w) * (rows.map (apart same)).sum := by
  obtain ⟨hcount, hlevels⟩ := multiplexBy_ok h
  have hlen : branches.length = 2 ^ selector.slots.length * 1 := by rw [length_of_branches? hcount, Nat.mul_one]
  have hne : selector.slots ≠ [] := by
    intro hnil
    rw [← Bus.length_slots, hnil] at hcount
    cases hcount
  obtain ⟨gates, hgates, _⟩ := multiplexBy_bits (consistent_tick hw) hsame h
  obtain ⟨w, hout⟩ := multiplexLevelsBy_bound hsame hne hlen hlevels out List.mem_cons_self
  obtain ⟨hbound, rows, hrows, hreach, hsize⟩ :=
    multiplexLevelsBy_rows hsame hlen (List.forall_mem_singleton.mpr hout) hlevels
  have hk : selector.slots.length = gates.length := by rw [hgates, List.length_map]
  refine ⟨gates, w, hgates, ?_, ?_, hbound, hout, rows, hrows.trans hk, hreach, hsize⟩
  · rw [← hk]
    exact List.length_pos_iff.mpr hne
  · rw [hlen, Nat.mul_one, hk]

end Success

/-! ### All neighbours joined -/

section Room
variable {net : Netlist} {w : Nat}

theorem multiplexLevelBy_of_room {selector n : Nat} {row : List Bus} (hi : net.Intact) (hsel : selector < net.size)
    (hn : row.length = 2 * n) (hrow : ∀ b ∈ row, b.Bound w ∧ b.Within net)
    (hroom : net.size + (1 + 3 * w) * n ≤ net.capacity) :
    ∃ joined net', (multiplexLevelBy never selector row).outcome net = (.ok joined, net') ∧
      joined.length = n ∧ (∀ b ∈ joined, b.Bound w ∧ b.Within net') ∧ net'.size = net.size + (1 + 3 * w) * n := by
  fun_induction apart never row generalizing net n with
  | case1 a b rest ih =>
    obtain ⟨⟨ha, hain⟩, ⟨hb, hbin⟩, hrest⟩ : (a.Bound w ∧ a.Within net) ∧ (b.Bound w ∧ b.Within net) ∧
        ∀ b ∈ rest, b.Bound w ∧ b.Within net := by simpa using hrow
    obtain ⟨xs, hx, hxs⟩ := ha
    obtain ⟨ys, hy, hys⟩ := hb
    have hxin (x : Nat) (hmem : x ∈ xs) : x < net.size := hain.bound x (by rw [hxs]; exact List.mem_map_of_mem hmem)
    have hyin (y : Nat) (hmem : y ∈ ys) : y < net.size := hbin.bound y (by rw [hys]; exact List.mem_map_of_mem hmem)
    obtain ⟨m, rfl⟩ : ∃ m, n = m + 1 := ⟨n - 1, by rw [List.length_cons] at hn; omega⟩
    rw [Nat.mul_succ] at hroom
    obtain ⟨start, net₁, hselect⟩ := select_of_room hsel hxs hys (hx.trans hy.symm) hxin hyin (by rw [hx]; omega)
    have hgrown := ((wires_select selector a b).reached hselect).grows
    have hc := within_select hi hselect
    obtain ⟨v, hav, _, hcv, hsize₁⟩ := select_shape hselect
    obtain rfl : v = w := by rw [← hav.width, ← Bus.length_slots, hxs, List.length_map, hx]
    have hrest₁ : ∀ b ∈ rest, b.Bound v ∧ b.Within net₁ :=
      fun b hb => ⟨(hrest b hb).1, (hrest b hb).2.retains hgrown.retains⟩
    obtain ⟨more, net', hmore, hlen, hwide, hsize⟩ := ih (n := m) (hgrown.intact hi) (by omega)
      (by rw [List.length_cons, List.length_cons] at hn; omega) hrest₁ (by rw [hgrown.retains.capacity]; omega)
    have hret := ((wires_multiplexLevelBy never selector rest).reached hmore).grows.retains
    refine ⟨.contiguous start xs.length :: more, net', ?_, by rw [List.length_cons, hlen],
      List.forall_mem_cons.mpr ⟨⟨hcv, hc.retains hret⟩, hwide⟩, by rw [hsize, hsize₁, Nat.mul_succ]; omega⟩
    rw [multiplexLevelBy, never, if_neg Bool.false_ne_true]
    simp only [outcome_bind, hselect, hmore, outcome_pure]
  | case2 row hshort =>
    obtain rfl := eq_nil_of_even hn hshort
    obtain rfl : n = 0 := by rw [List.length_nil] at hn; omega
    exact ⟨[], net, rfl, rfl, List.forall_mem_nil _, rfl⟩

/-- The levels of a multiplexer take a two-way multiplexer for every branch but one. -/
theorem multiplexLevelsBy_of_room (index : Nat) {gates : List Nat} {row : List Bus} (hi : net.Intact)
    (hgates : ∀ gate ∈ gates, gate < net.size) (hn : row.length = 2 ^ gates.length)
    (hrow : ∀ b ∈ row, b.Bound w ∧ b.Within net)
    (hroom : net.size + (1 + 3 * w) * (2 ^ gates.length - 1) ≤ net.capacity) :
    ∃ out net', (multiplexLevelsBy never index (gates.map some) row).outcome net = (.ok [out], net') ∧
      out.Bound w ∧ net'.size = net.size + (1 + 3 * w) * (2 ^ gates.length - 1) := by
  induction gates generalizing net row index with
  | nil =>
    obtain ⟨out, rfl⟩ := List.length_eq_one_iff.mp hn
    exact ⟨out, net, rfl, (hrow out List.mem_cons_self).1, rfl⟩
  | cons gate rest ih =>
    have hpairs : 2 ^ (gate :: rest).length - 1 = 2 ^ rest.length + (2 ^ rest.length - 1) := by
      have hpos := Nat.two_pow_pos rest.length
      rw [List.length_cons, Nat.pow_succ]
      omega
    rw [hpairs, Nat.mul_add] at hroom ⊢
    obtain ⟨hgate, hrest⟩ := List.forall_mem_cons.mp hgates
    obtain ⟨halved, net₁, hlevel, hlen, hhalved, hsize₁⟩ := multiplexLevelBy_of_room hi hgate
      (by rw [hn, List.length_cons, Nat.pow_succ, Nat.mul_comm]) hrow (by omega)
    have hgrown := ((wires_multiplexLevelBy never gate row).reached hlevel).grows
    obtain ⟨out, net', hlevels, hout, hsize⟩ := ih (index + 1) (hgrown.intact hi)
      (fun x hx => Nat.lt_of_lt_of_le (hrest x hx) hgrown.retains.size_le) hlen hhalved
      (by rw [hgrown.retains.capacity]; omega)
    refine ⟨out, net', ?_, hout, by omega⟩
    rw [List.map_cons, multiplexLevelsBy, outcome_bind, hlevel]
    exact hlevels

theorem multiplexBy_of_room {gates : List Nat} {selector : Bus} {branches : List Bus} (hi : net.Intact)
    (hslots : selector.slots = gates.map some) (hcount : branches? selector.width = some branches.length)
    (hgates : ∀ gate ∈ gates, gate < net.size) (hbranches : ∀ b ∈ branches, b.Bound w ∧ b.Within net)
    (hroom : net.size + (1 + 3 * w) * (2 ^ gates.length - 1) ≤ net.capacity) :
    ∃ out net', (multiplexBy never selector branches).outcome net = (.ok out, net') ∧
      out.Bound w ∧ net'.size = net.size + (1 + 3 * w) * (2 ^ gates.length - 1) := by
  have hlen : branches.length = 2 ^ gates.length := by
    rw [length_of_branches? hcount, hslots, List.length_map]
  obtain ⟨out, net', hlevels, hout, hsize⟩ := multiplexLevelsBy_of_room 0 hi hgates hlen hbranches hroom
  refine ⟨out, net', ?_, hout, hsize⟩
  rw [multiplexBy, if_neg (not_not.mpr hcount), hslots]
  simp only [outcome_bind, hlevels, outcome_pure]

end Room

/-! ### The same values -/

/-- Multiplexers over the same branches, put on the same netlist, carry the same bits after
a tick if the gates of that netlist held the same values and the same bits are drawn. -/
theorem Picks.agree {net a b a' b' : Netlist} {gates : List Nat} {branches : List Bus} {out out' : Bus}
    (hw : a.WellFormed) (ha : Prolongs net a) (hb : Prolongs net b)
    (hgates : ∀ gate ∈ gates, gate < net.size) (hbranches : ∀ branch ∈ branches, branch.Within net)
    (hpick : a.Picks gates branches out) (hpick' : b.Picks gates branches out')
    (hra : Revalued a a') (hrb : Revalued b b') (hvalue : ∀ i < net.size, b'.valueAt i = a'.valueAt i)
    (hgen : b'.generator = a'.generator) : out'.bits b'.tick.valueAt = out.bits a'.tick.valueAt := by
  have hsame := (ha.sameOn hb hra hrb hvalue).tick_first (hw.revalued hra) hgen
  have hnumber : selected b'.tick.valueAt gates = selected a'.tick.valueAt gates := by
    rw [selected_eq_number, selected_eq_number]
    congr 1
    exact List.map_congr_left fun gate hgate => hsame.valueAt (hgates gate hgate)
  obtain ⟨chosen, hchosen, hbits⟩ := hpick a' hra
  obtain ⟨chosen', hchosen', hbits'⟩ := hpick' b' hrb
  rw [hnumber, hchosen] at hchosen'
  cases hchosen'
  have hwithin := hbranches chosen (List.mem_of_getElem? hchosen)
  rw [hbits, hbits']
  exact Bus.bits_congr fun gate hgate => hsame.valueAt (hwithin.bound gate hgate)

end Netlist

end BusLogic
