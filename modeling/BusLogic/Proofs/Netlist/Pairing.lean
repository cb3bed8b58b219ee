import BusLogic.Netlist.Wiring
import BusLogic.Proofs.Attempt
import BusLogic.Proofs.Bus
import Mathlib.Algebra.Group.Nat.Defs

/-! Rows of branches, joined two by two.

A multiplexer halves its row of branches level by level. Which neighbours need no gates
is a parameter here, `same`: with `Bus.coincides` these are the multiplexers of the
netlist (`multiplexBy_coincides`), with a test that never holds every two neighbours are
joined by gates. Whatever the test, a row of `2 ^ n` branches is a single one after `n`
levels (`length_multiplexLevelsBy`). -/
namespace BusLogic.Netlist
open Attempt

/-- Halves a row of branches: neighbours are joined by a two-way multiplexer, or the first
stands for both where `same` holds. -/
def multiplexLevelBy (same : Bus → Bus → Bool) (selector : Nat) : List Bus → Attempt Error Netlist (List Bus)
  | a :: b :: rest => do
    let joined ← if same a b then pure a else select selector a b
    let more ← multiplexLevelBy same selector rest
    return joined :: more
  | rest => pure rest

/-- One level for each slot of the selector. -/
def multiplexLevelsBy (same : Bus → Bus → Bool) (index : Nat) :
    List (Option Nat) → List Bus → Attempt Error Netlist (List Bus)
  | [], branches => pure branches
  | none :: _, _ => throw (.unboundSlot index)
  | some gate :: slots, branches => do
    let halved ← multiplexLevelBy same gate branches
    multiplexLevelsBy same (index + 1) slots halved

/-- The branch whose number is the value of the selector. -/
def multiplexBy (same : Bus → Bus → Bool) (selector : Bus) (branches : List Bus) : Attempt Error Netlist Bus := do
  if branches? selector.width ≠ some branches.length then
    throw (.branchCount selector.width ((branches? selector.width).getD 0) branches.length)
  match ← multiplexLevelsBy same 0 selector.slots branches with
  | [out] => return out
  | _ => throw (.malformed .noBranches)

theorem multiplexLevelBy_coincides (selector : Nat) (row : List Bus) :
    multiplexLevelBy Bus.coincides selector row = multiplexLevel selector row := by
  fun_induction multiplexLevelBy Bus.coincides selector row with
  | case1 a b rest jp hab ih => simp only [multiplexLevel, hab, if_true, jp, ih]
  | case2 a b rest jp hab ih => simp only [multiplexLevel, hab, Bool.false_eq_true, if_false, jp, ih]
  | case3 rest hshort => rw [multiplexLevel]; exact hshort

theorem multiplexLevelsBy_coincides (index : Nat) (slots : List (Option Nat)) (row : List Bus) :
    multiplexLevelsBy Bus.coincides index slots row = multiplexLevels index slots row := by
  fun_induction multiplexLevelsBy Bus.coincides index slots row with
  | case1 => rfl
  | case2 => rfl
  | case3 index gate slots row ih => simp only [multiplexLevels, multiplexLevelBy_coincides, ih]

/-- The multiplexers of the netlist join the neighbours that do not coincide. -/
theorem multiplexBy_coincides : multiplexBy Bus.coincides = multiplex := by
  funext selector branches
  rw [multiplexBy, multiplexLevelsBy_coincides]
  rfl

/-! ### One level -/

section Level
variable {same : Bus → Bus → Bool} {net net' : Netlist}

/-- What becomes of two neighbours. -/
theorem multiplexLevelBy_ok {selector : Nat} {a b : Bus} {rest joined : List Bus}
    (h : (multiplexLevelBy same selector (a :: b :: rest)).outcome net = (.ok joined, net')) :
    ∃ c more net₁, joined = c :: more ∧
      (same a b = true ∧ c = a ∧ net = net₁ ∨
        same a b = false ∧ (select selector a b).outcome net = (.ok c, net₁)) ∧
      (multiplexLevelBy same selector rest).outcome net₁ = (.ok more, net') := by
  rw [multiplexLevelBy] at h
  cases hab : same a b with
  | true =>
    rw [hab, if_pos rfl] at h
    obtain ⟨_, _, hreuse, h₁⟩ := outcome_bind_ok h
    cases hreuse
    obtain ⟨more, _, hmore, h₂⟩ := outcome_bind_ok h₁
    cases h₂
    exact ⟨a, more, net, rfl, .inl ⟨rfl, rfl, rfl⟩, hmore⟩
  | false =>
    rw [hab, if_neg Bool.false_ne_true] at h
    obtain ⟨c, net₁, hselect, h₁⟩ := outcome_bind_ok h
    obtain ⟨more, _, hmore, h₂⟩ := outcome_bind_ok h₁
    cases h₂
    exact ⟨c, more, net₁, rfl, .inr ⟨rfl, hselect⟩, hmore⟩

/-- The number of neighbours that are joined by gates. -/
def apart (same : Bus → Bus → Bool) : List Bus → Nat
  | a :: b :: rest => (if same a b then 0 else 1) + apart same rest
  | _ => 0

/-- A row of even length with no two neighbours is empty. -/
theorem eq_nil_of_even {row : List Bus} {n : Nat} (hn : row.length = 2 * n)
    (hshort : ∀ a b rest, row = a :: b :: rest → False) : row = [] := by
  rcases row with _ | ⟨a, _ | ⟨b, rest⟩⟩
  · rfl
  · rw [List.length_singleton] at hn
    omega
  · exact absurd rfl (hshort a b rest)

/-- A level halves an even row. -/
theorem length_multiplexLevelBy {selector n : Nat} {row joined : List Bus} (hn : row.length = 2 * n)
    (h : (multiplexLevelBy same selector row).outcome net = (.ok joined, net')) : joined.length = n := by
  fun_induction apart same row generalizing net joined n with
  | case1 a b rest ih =>
    obtain ⟨c, more, net₁, rfl, _, hrest⟩ := multiplexLevelBy_ok h
    rw [List.length_cons, List.length_cons] at hn
    rw [List.length_cons, ih (n := n - 1) (by omega) hrest]
    omega
  | case2 row hshort =>
    obtain rfl := eq_nil_of_even hn hshort
    cases h
    rw [List.length_nil] at hn ⊢
    omega

end Level

/-! ### All levels -/

theorem length_multiplexLevelsBy {same : Bus → Bus → Bool} {net net' : Netlist} {index n : Nat}
    {slots : List (Option Nat)} {row out : List Bus} (hn : row.length = 2 ^ slots.length * n)
    (h : (multiplexLevelsBy same index slots row).outcome net = (.ok out, net')) : out.length = n := by
  fun_induction multiplexLevelsBy same index slots row generalizing net with
  | case1 =>
    cases h
    simpa using hn
  | case2 => cases h
  | case3 index gate slots row ih =>
    obtain ⟨halved, net₁, hlevel, h₁⟩ := outcome_bind_ok h
    rw [List.length_cons, Nat.pow_succ, Nat.mul_comm _ 2, Nat.mul_assoc] at hn
    exact ih halved (length_multiplexLevelBy hn hlevel) h₁

theorem length_multiplexLevel {net net' : Netlist} {selector n : Nat} {row joined : List Bus}
    (hn : row.length = 2 * n) (h : (multiplexLevel selector row).outcome net = (.ok joined, net')) :
    joined.length = n := by
  rw [← multiplexLevelBy_coincides] at h
  exact length_multiplexLevelBy hn h

theorem length_multiplexLevels {net net' : Netlist} {index n : Nat} {slots : List (Option Nat)}
    {row out : List Bus} (hn : row.length = 2 ^ slots.length * n)
    (h : (multiplexLevels index slots row).outcome net = (.ok out, net')) : out.length = n := by
  rw [← multiplexLevelsBy_coincides] at h
  exact length_multiplexLevelsBy hn h

/-- A selector tells as many branches apart as it has values. -/
theorem length_of_branches? {selector : Bus} {row : List Bus}
    (h : branches? selector.width = some row.length) : row.length = 2 ^ selector.slots.length := by
  rw [branches?] at h
  split at h
  · rw [Bus.length_slots, ← Nat.one_shiftLeft]
    exact (Option.some.inj h).symm
  · cases h

theorem multiplexBy_ok {same : Bus → Bus → Bool} {selector r : Bus} {branches : List Bus} {net net' : Netlist}
    (h : (multiplexBy same selector branches).outcome net = (.ok r, net')) :
    branches? selector.width = some branches.length ∧
      (multiplexLevelsBy same 0 selector.slots branches).outcome net = (.ok [r], net') := by
  rw [multiplexBy] at h
  obtain ⟨hcount, h₁⟩ := outcome_check_ok h
  obtain ⟨out, net₁, hlevels, h₂⟩ := outcome_bind_ok h₁
  refine ⟨not_not.mp hcount, ?_⟩
  split at h₂
  · cases h₂
    exact hlevels
  · cases h₂

theorem multiplex_ok {selector r : Bus} {branches : List Bus} {net net' : Netlist}
    (h : (multiplex selector branches).outcome net = (.ok r, net')) :
    branches? selector.width = some branches.length ∧
      (multiplexLevels 0 selector.slots branches).outcome net = (.ok [r], net') := by
  rw [← multiplexBy_coincides] at h
  rw [← multiplexLevelsBy_coincides]
  exact multiplexBy_ok h

end BusLogic.Netlist
