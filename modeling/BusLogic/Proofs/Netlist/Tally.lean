import BusLogic.Proofs.Netlist.Tick
import Mathlib.Algebra.Group.Nat.Defs
import Mathlib.Order.Bounds.Defs

/-! The counters of a netlist are exact.

A gate's depth is the length of the longest chain of pins that ends at it, its usage
the number of pins that read it, and the netlist's own two counters are the greatest
of these (`Tallied`). One more gate keeps this so (`Tallied.push`): the count of each
pin's gate is raised before the new gate arrives, twice where both pins read the same
gate. Every operation is a run of such steps and of changes of values and ports,
however it ends, so the counters of every netlist that operations reach are exact. -/
namespace BusLogic

namespace Netlist

/-- A chain of `n` pins ends at gate `i`: a pin of `i` reads a gate, a pin of that gate
the next, and so on. -/
inductive Chain (net : Netlist) : Nat → Nat → Prop
  | start {i : Nat} (hi : i < net.size) : Chain net 0 i
  | pin {n p i : Nat} {g : Gate} (h : Chain net n p) (hg : net.gates[i]? = some g)
    (hp : p ∈ g.pins) : Chain net (n + 1) i

/-- The number of pins that read gate `i`; both pins of one gate count. -/
def readers (net : Netlist) (i : Nat) : Nat := (net.gates.toList.flatMap Gate.pins).count i

/-- The counters say what they are meant to say. -/
structure Tallied (net : Netlist) : Prop where
  depth : ∀ (i : Nat) (g : Gate), net.gates[i]? = some g → IsGreatest {n | net.Chain n i} g.depth
  usage : ∀ (i : Nat) (g : Gate), net.gates[i]? = some g → g.usage = net.readers i
  maxDepth : net.maxDepth = (net.gates.toList.map Gate.depth).max?.getD 0
  maxUsage : net.maxUsage = (net.gates.toList.map Gate.usage).max?.getD 0

/-! ### The greatest of a list -/

theorem max?_getD_append (xs ys : List Nat) :
    (xs ++ ys).max?.getD 0 = max (xs.max?.getD 0) (ys.max?.getD 0) := by
  have heq (l : List Nat) (m : Nat) : l.foldl max m = max m (l.max?.getD 0) := by
    rw [List.foldl_max]
    cases l.max? <;> simp
  have h := heq (xs ++ ys) 0
  rw [List.foldl_append, heq, heq] at h
  omega

/-- Raising one number of a list raises the greatest to it, or leaves it. -/
theorem max?_getD_set {xs : List Nat} {i n : Nat} (hi : i < xs.length) (hn : xs[i] ≤ n) :
    (xs.set i n).max?.getD 0 = max (xs.max?.getD 0) n := by
  have hold : xs = xs.take i ++ [xs[i]] ++ xs.drop (i + 1) := by simp
  have hnew : xs.set i n = xs.take i ++ [n] ++ xs.drop (i + 1) := by
    rw [List.set_eq_take_append_cons_drop, if_pos hi]
    simp
  rw [hnew, max?_getD_append, max?_getD_append]
  conv_rhs => rw [hold, max?_getD_append, max?_getD_append]
  have h1 : ([n].max?).getD 0 = n := rfl
  have h2 : ([xs[i]].max?).getD 0 = xs[i] := rfl
  rw [h1, h2]
  omega

/-! ### Chains -/

/-- Pins read earlier gates, so a chain is no longer than the gates before its end. -/
theorem Chain.length_le {net : Netlist} (hw : net.WellFormed) {n i : Nat} (h : net.Chain n i) : n ≤ i := by
  induction h with
  | start _ => exact Nat.zero_le _
  | pin _ hg hp ih =>
    have hlt := (hw _ _ hg).before _ hp
    omega

/-- Gates wired alike have the same chains. -/
theorem Chain.of_pins {net net' : Netlist} (hsize : net.size ≤ net'.size)
    (h : ∀ (i : Nat) (g : Gate), net.gates[i]? = some g → ∃ g', net'.gates[i]? = some g' ∧ g'.pins = g.pins)
    {n i : Nat} (hc : net.Chain n i) : net'.Chain n i := by
  induction hc with
  | start hi => exact .start (Nat.lt_of_lt_of_le hi hsize)
  | pin _ hg hp ih =>
    obtain ⟨g', hg', hpins⟩ := h _ _ hg
    exact .pin ih hg' (by rw [hpins]; exact hp)

/-! ### Counting pins -/

theorem usageAt_eq {net : Netlist} {i : Nat} {g : Gate} (h : net.gates[i]? = some g) :
    net.usageAt i = g.usage := by
  rw [usageAt, h]

theorem depthAt_eq {net : Netlist} {i : Nat} {g : Gate} (h : net.gates[i]? = some g) :
    net.depthAt i = g.depth := by
  rw [depthAt, h]

/-- Counting pins raises the usage of a gate by the number of pins that read it. -/
theorem countPins_usage (pins : List Nat) (net : Netlist) (i : Nat) (g : Gate)
    (h : net.gates[i]? = some g) :
    (pins.foldl countPin net).gates[i]? = some { g with usage := g.usage + pins.count i } := by
  induction pins generalizing net g with
  | nil => exact h
  | cons pin rest ih =>
    have hpin := countPin_gates net pin i
    rw [h, Option.map_some] at hpin
    rw [List.foldl_cons, ih _ _ hpin]
    by_cases heq : pin = i
    · subst heq
      simp [usageAt_eq h]
      omega
    · simp [heq]

/-- The netlist's greatest usage is kept along with the counts. -/
theorem countPins_maxUsage (pins : List Nat) (net : Netlist) (hpins : ∀ pin ∈ pins, pin < net.size)
    (h : net.maxUsage = (net.gates.toList.map Gate.usage).max?.getD 0) :
    (pins.foldl countPin net).maxUsage =
      ((pins.foldl countPin net).gates.toList.map Gate.usage).max?.getD 0 := by
  induction pins generalizing net with
  | nil => exact h
  | cons pin rest ih =>
    have hp : pin < net.gates.size := hpins pin (List.mem_cons_self ..)
    have hat : net.usageAt pin = net.gates[pin].usage := usageAt_eq (Array.getElem?_eq_getElem hp)
    apply ih (net.countPin pin)
    · intro p hm
      have hlt := hpins p (List.mem_cons_of_mem _ hm)
      simpa [size, countPin] using hlt
    · have hlist : (net.countPin pin).gates.toList.map Gate.usage =
          (net.gates.toList.map Gate.usage).set pin (net.usageAt pin + 1) := by
        apply List.ext_getElem?
        intro j
        rw [List.getElem?_map, Array.getElem?_toList, countPin_gates, List.getElem?_set, List.getElem?_map,
          Array.getElem?_toList, List.length_map, Array.length_toList]
        grind
      rw [hlist, max?_getD_set (by simpa using hp) (by simp [hat])]
      show max net.maxUsage (net.usageAt pin + 1) = _
      rw [h]

theorem countPins_maxDepth (pins : List Nat) (net : Netlist) :
    (pins.foldl countPin net).maxDepth = net.maxDepth := by
  induction pins generalizing net with
  | nil => rfl
  | cons pin rest ih => exact ih (net.countPin pin)

/-- Counting pins leaves alone whatever does not depend on the counts. -/
theorem countPins_map {α : Type} (f : Gate → α) (hf : ∀ (g : Gate) (usage : Nat), f { g with usage } = f g)
    (pins : List Nat) (net : Netlist) :
    (pins.foldl countPin net).gates.toList.map f = net.gates.toList.map f := by
  apply List.ext_getElem?
  intro i
  rw [List.getElem?_map, List.getElem?_map, Array.getElem?_toList, Array.getElem?_toList]
  by_cases hi : i < net.gates.size
  · rw [Array.getElem?_eq_getElem hi, countPins_usage pins net i _ (Array.getElem?_eq_getElem hi)]
    simp [hf]
  · rw [Array.getElem?_eq_none (by simpa using hi), Array.getElem?_eq_none (by simpa using hi)]

/-! ### One more gate -/

/-- The depth of a gate with the given pins. -/
def depthOver (net : Netlist) (pins : List Nat) : Nat :=
  pins.foldl (fun d pin => max d (net.depthAt pin + 1)) 0

/-- The gate that an allocation adds: low and unread. -/
def newGate (net : Netlist) (op : Opcode) (in1 in2 : Option Nat) : Gate :=
  { opcode := op, in1, in2, value := false, depth := net.depthOver (in1.toList ++ in2.toList), usage := 0 }

section Push
variable (net : Netlist) (op : Opcode) (in1 in2 : Option Nat)

theorem push_gates : (net.push op in1 in2).gates =
    ((in1.toList ++ in2.toList).foldl countPin net).gates.push (net.newGate op in1 in2) := rfl

/-- The new gate takes the next number, unread. -/
theorem push_last : (net.push op in1 in2).gates[net.size]? = some (net.newGate op in1 in2) := by
  rw [push_gates, Array.getElem?_push, countPins_size]
  exact if_pos rfl

/-- An old gate is read by the new pins too. -/
theorem push_earlier {i : Nat} {g : Gate} (h : net.gates[i]? = some g) :
    (net.push op in1 in2).gates[i]? =
      some { g with usage := g.usage + (in1.toList ++ in2.toList).count i } := by
  have hi : i < net.gates.size := (Array.getElem?_eq_some_iff.mp h).1
  rw [push_gates, Array.getElem?_push, countPins_size,
    if_neg (Nat.ne_of_lt hi)]
  exact countPins_usage _ net i g h

theorem push_readers (i : Nat) :
    (net.push op in1 in2).readers i = net.readers i + (in1.toList ++ in2.toList).count i := by
  have hpins := countPins_map Gate.pins (fun _ _ => rfl) (in1.toList ++ in2.toList) net
  rw [readers, push_gates, Array.toList_push, List.flatMap_append, List.flatMap_def, hpins,
    ← List.flatMap_def, List.count_append, readers]
  simp [Gate.pins, newGate]

/-- Every gate of the grown netlist is an old one or the new one. -/
theorem push_cases {i : Nat} {g' : Gate} (h : (net.push op in1 in2).gates[i]? = some g') :
    (∃ g, net.gates[i]? = some g ∧
        g' = { g with usage := g.usage + (in1.toList ++ in2.toList).count i }) ∨
      i = net.size ∧ g' = net.newGate op in1 in2 := by
  have hi : i < net.size + 1 := by
    rw [← push_size net op in1 in2]
    exact (Array.getElem?_eq_some_iff.mp h).1
  rcases Nat.lt_succ_iff_lt_or_eq.mp hi with hlt | rfl
  · have hold : net.gates[i]? = some net.gates[i] := Array.getElem?_eq_getElem hlt
    rw [push_earlier net op in1 in2 hold] at h
    exact .inl ⟨_, hold, (Option.some.inj h).symm⟩
  · rw [push_last] at h
    exact .inr ⟨rfl, (Option.some.inj h).symm⟩

end Push

/-- Behind well-formed gates a new gate lengthens no chain that ends at an old one. -/
theorem chain_push_old {net : Netlist} (hw : net.WellFormed) (op : Opcode) (in1 in2 : Option Nat) {n i : Nat}
    (hi : i < net.size) : (net.push op in1 in2).Chain n i ↔ net.Chain n i := by
  constructor
  · intro h
    induction h with
    | start _ => exact .start hi
    | pin _ hg hp ih =>
      rcases push_cases net op in1 in2 hg with ⟨g, hold, rfl⟩ | ⟨rfl, _⟩
      · have hlt := (hw _ _ hold).before _ hp
        exact .pin (ih (by omega)) hold hp
      · omega
  · exact Chain.of_pins (by simp) fun i g hg => ⟨_, push_earlier net op in1 in2 hg, rfl⟩

/-- A chain that ends at the new gate is empty or goes on from one of its pins. -/
theorem chain_push_new {net : Netlist} (hw : net.WellFormed) (op : Opcode) (in1 in2 : Option Nat)
    (hpins : ∀ pin ∈ in1.toList ++ in2.toList, pin < net.size) {n : Nat} :
    (net.push op in1 in2).Chain n net.size ↔
      n = 0 ∨ ∃ m, n = m + 1 ∧ ∃ pin ∈ in1.toList ++ in2.toList, net.Chain m pin := by
  constructor
  · intro h
    cases h with
    | start _ => exact .inl rfl
    | pin hc hg hp =>
      rw [push_last] at hg
      cases hg
      exact .inr ⟨_, rfl, _, hp, (chain_push_old hw op in1 in2 (hpins _ hp)).mp hc⟩
  · rintro (rfl | ⟨m, rfl, pin, hp, hc⟩)
    · exact .start (by simp)
    · exact .pin ((chain_push_old hw op in1 in2 (hpins _ hp)).mpr hc) (push_last net op in1 in2) hp

/-- The depth over some pins is the greatest depth of a pin and one more, or zero. -/
theorem depthOver_spec (net : Netlist) (pins : List Nat) :
    (net.depthOver pins = 0 ∨ ∃ pin ∈ pins, net.depthOver pins = net.depthAt pin + 1) ∧
      ∀ pin ∈ pins, net.depthAt pin + 1 ≤ net.depthOver pins := by
  have h (d : Nat) : let out := pins.foldl (fun d pin => max d (net.depthAt pin + 1)) d
      (out = d ∨ ∃ pin ∈ pins, out = net.depthAt pin + 1) ∧ d ≤ out ∧
        ∀ pin ∈ pins, net.depthAt pin + 1 ≤ out := by
    induction pins generalizing d with
    | nil => simp
    | cons p rest ih => grind
  obtain ⟨hatt, _, hle⟩ := h 0
  exact ⟨hatt, hle⟩

theorem Tallied.isGreatest_depthAt {net : Netlist} (h : net.Tallied) {i : Nat} (hi : i < net.size) :
    IsGreatest {n | net.Chain n i} (net.depthAt i) := by
  have hg : net.gates[i]? = some net.gates[i] := Array.getElem?_eq_getElem hi
  rw [depthAt_eq hg]
  exact h.depth i _ hg

/-- The longest chain that ends at the new gate goes on from its deepest pin. -/
theorem Tallied.isGreatest_depthOver {net : Netlist} (h : net.Tallied) (hw : net.WellFormed) (op : Opcode)
    {in1 in2 : Option Nat} (hpins : ∀ pin ∈ in1.toList ++ in2.toList, pin < net.size) :
    IsGreatest {n | (net.push op in1 in2).Chain n net.size} (net.depthOver (in1.toList ++ in2.toList)) := by
  obtain ⟨hatt, hle⟩ := depthOver_spec net (in1.toList ++ in2.toList)
  simp only [chain_push_new hw op in1 in2 hpins]
  constructor
  · rcases hatt with hzero | ⟨pin, hp, hd⟩
    · exact .inl hzero
    · exact .inr ⟨_, hd, pin, hp, (h.isGreatest_depthAt (hpins pin hp)).1⟩
  · rintro n (rfl | ⟨m, rfl, pin, hp, hc⟩)
    · exact Nat.zero_le _
    · have hm := (h.isGreatest_depthAt (hpins pin hp)).2 hc
      have hd := hle pin hp
      omega

/-- No pin reads the number that the next gate takes. -/
theorem WellFormed.readers_size {net : Netlist} (hw : net.WellFormed) : net.readers net.size = 0 := by
  rw [readers, List.count_eq_zero]
  intro hm
  obtain ⟨g, hg, hp⟩ := List.mem_flatMap.mp hm
  obtain ⟨j, hj, rfl⟩ := List.getElem_of_mem hg
  have hj' : j < net.size := by simpa [size] using hj
  have hlt := (hw j _ (Array.getElem?_eq_getElem hj')).before _ hp
  omega

/-- One more gate keeps every counter exact. -/
theorem Tallied.push {net : Netlist} (h : net.Tallied) (hi : net.Intact) {op : Opcode}
    {in1 in2 : Option Nat} (hr : net.refusal? op in1 in2 = none) : (net.push op in1 in2).Tallied := by
  obtain ⟨_, hpins, _, _⟩ := refusal?_eq_none hr
  refine ⟨fun i g' hg' => ?_, fun i g' hg' => ?_, ?_, ?_⟩
  · rcases push_cases net op in1 in2 hg' with ⟨g, hg, rfl⟩ | ⟨rfl, rfl⟩
    · have hlt : i < net.size := (Array.getElem?_eq_some_iff.mp hg).1
      simp only [chain_push_old hi.wired op in1 in2 hlt]
      exact h.depth i g hg
    · exact h.isGreatest_depthOver hi.wired op hpins
  · rw [push_readers]
    rcases push_cases net op in1 in2 hg' with ⟨g, hg, rfl⟩ | ⟨rfl, rfl⟩
    · rw [← h.usage i g hg]
    · -- No pin, old or new, reads the number the new gate takes.
      have hnew : (in1.toList ++ in2.toList).count net.size = 0 :=
        List.count_eq_zero.mpr fun hm => Nat.lt_irrefl _ (hpins _ hm)
      rw [hnew, hi.wired.readers_size]
      rfl
  · have hdepth := countPins_map Gate.depth (fun _ _ => rfl) (in1.toList ++ in2.toList) net
    rw [push_gates, Array.toList_push, List.map_append, max?_getD_append, hdepth, ← h.maxDepth]
    show max (List.foldl countPin net _).maxDepth _ = _
    rw [countPins_maxDepth]
    rfl
  · have hmax := countPins_maxUsage (in1.toList ++ in2.toList) net hpins h.maxUsage
    rw [push_gates, Array.toList_push, List.map_append, max?_getD_append, ← hmax]
    exact (Nat.max_zero _).symm

/-! ### Values and ports have no part in the counters -/

section View
variable {net net' : Netlist} (hgates : ∀ i : Nat, ∃ value : Gate → Bool, net'.gates[i]? =
  net.gates[i]?.map fun g => { g with value := value g })
include hgates

/-- Whatever does not depend on the values is read off both alike. -/
theorem map_of_view {α : Type} (f : Gate → α) (hf : ∀ (g : Gate) (value : Bool), f { g with value } = f g) :
    net'.gates.toList.map f = net.gates.toList.map f := by
  apply List.ext_getElem?
  intro i
  obtain ⟨value, hi⟩ := hgates i
  rw [List.getElem?_map, List.getElem?_map, Array.getElem?_toList, Array.getElem?_toList, hi,
    Option.map_map]
  congr 1
  funext g
  exact hf g _

theorem gate_of_view {i : Nat} {g' : Gate} (hg' : net'.gates[i]? = some g') :
    ∃ g value, net.gates[i]? = some g ∧ g' = { g with value } := by
  obtain ⟨value, hi⟩ := hgates i
  rw [hi] at hg'
  obtain ⟨g, hg, rfl⟩ := Option.map_eq_some_iff.mp hg'
  exact ⟨g, _, hg, rfl⟩

theorem chain_of_view (n i : Nat) : net'.Chain n i ↔ net.Chain n i := by
  have hsize : net'.size = net.size := by
    simpa [size] using congrArg List.length (map_of_view hgates (fun _ => ()) fun _ _ => rfl)
  constructor
  · apply Chain.of_pins (Nat.le_of_eq hsize)
    intro i g' hg'
    obtain ⟨g, _, hg, rfl⟩ := gate_of_view hgates hg'
    exact ⟨g, hg, rfl⟩
  · apply Chain.of_pins (Nat.le_of_eq hsize.symm)
    intro i g hg
    obtain ⟨value, hi⟩ := hgates i
    rw [hg, Option.map_some] at hi
    exact ⟨_, hi, rfl⟩

theorem readers_of_view (i : Nat) : net'.readers i = net.readers i := by
  rw [readers, List.flatMap_def, map_of_view hgates Gate.pins fun _ _ => rfl, ← List.flatMap_def, readers]

end View

/-- Netlists that agree on pins and counters are tallied alike. -/
theorem Tallied.of_view {net net' : Netlist} (h : net.Tallied)
    (hgates : ∀ i : Nat, ∃ value : Gate → Bool, net'.gates[i]? =
      net.gates[i]?.map fun g => { g with value := value g })
    (hdepth : net'.maxDepth = net.maxDepth) (husage : net'.maxUsage = net.maxUsage) : net'.Tallied := by
  refine ⟨fun i g' hg' => ?_, fun i g' hg' => ?_, ?_, ?_⟩
  · obtain ⟨g, _, hg, rfl⟩ := gate_of_view hgates hg'
    simp only [chain_of_view hgates]
    exact h.depth i g hg
  · obtain ⟨g, _, hg, rfl⟩ := gate_of_view hgates hg'
    rw [readers_of_view hgates]
    exact h.usage i g hg
  · rw [hdepth, h.maxDepth, map_of_view hgates Gate.depth fun _ _ => rfl]
  · rw [husage, h.maxUsage, map_of_view hgates Gate.usage fun _ _ => rfl]

theorem Tallied.revalued {net net' : Netlist} (h : net.Tallied) (hr : Revalued net net') : net'.Tallied :=
  h.of_view (fun j => ⟨fun _ => net'.valueAt j, hr.gates j⟩) hr.maxDepth hr.maxUsage

theorem Tallied.registerPort {net : Netlist} (h : net.Tallied) (name : String) (bus : Bus) :
    (net.registerPort name bus).Tallied :=
  h.of_view (fun _ => ⟨Gate.value, Option.map_id'.symm⟩) rfl rfl

/-! ### Operations -/

/-- What can be asked of a netlist from outside. -/
inductive Operation where
  | allocate (op : Opcode) (in1 in2 : Option Nat)
  | applyUnary (op : Opcode) (a : Bus)
  | applyBinary (op : Opcode) (a b : Bus)
  | select (selector : Nat) (a b : Bus)
  | reduce (op : Opcode) (a : Bus)
  | addInput (name : String) (width : Nat)
  | registerPort (name : String) (bus : Bus)
  | tick
  | drive (gate : Nat) (value : Bool)
  | write (bus : Bus) (value : Nat)

/-- The netlist after an operation, whether it succeeds or fails. -/
def perform (net : Netlist) : Operation → Netlist
  | .allocate op in1 in2 => ((Netlist.allocate op in1 in2).outcome net).2
  | .applyUnary op a => ((Netlist.applyUnary op a).outcome net).2
  | .applyBinary op a b => ((Netlist.applyBinary op a b).outcome net).2
  | .select selector a b => ((Netlist.select selector a b).outcome net).2
  | .reduce op a => ((Netlist.reduce op a).outcome net).2
  | .addInput name width => ((Netlist.addInput name width).outcome net).2
  | .registerPort name bus => net.registerPort name bus
  | .tick => net.tick
  | .drive gate value => net.drive gate value
  | .write bus value => net.write bus value

/-- Intact gates whose counters are exact stay so. -/
structure Accounts (net net' : Netlist) : Prop where
  capacity : net'.capacity = net.capacity
  exact : net.Intact ∧ net.Tallied → net'.Intact ∧ net'.Tallied

instance : IsPreorder Netlist Accounts where
  refl _ := ⟨rfl, id⟩
  trans _ _ _ hab hbc := ⟨hbc.capacity.trans hab.capacity, hbc.exact ∘ hab.exact⟩

theorem accounts_push {net : Netlist} {op : Opcode} {in1 in2 : Option Nat}
    (hr : net.refusal? op in1 in2 = none) : Accounts net (net.push op in1 in2) :=
  ⟨push_capacity .., fun h => ⟨h.1.push hr, h.2.push h.1 hr⟩⟩

theorem accounts_allocate (op : Opcode) (in1 in2 : Option Nat) :
    (allocate op in1 in2).Keeps Accounts :=
  keeps_allocate fun _ hr => accounts_push hr

theorem Wires.accounts {net net' : Netlist} (h : Wires net net') : Accounts net net' :=
  h.minimal fun _ _ _ _ hr => accounts_push hr

theorem Revalued.accounts {net net' : Netlist} (h : Revalued net net') : Accounts net net' :=
  ⟨h.capacity, fun ⟨hi, ht⟩ => ⟨h.grows.intact hi, ht.revalued h⟩⟩

theorem accounts_registerPort (net : Netlist) (name : String) (bus : Bus) :
    Accounts net (net.registerPort name bus) :=
  ⟨rfl, fun ⟨hi, ht⟩ => ⟨(grows_registerPort net name bus).intact hi, ht.registerPort name bus⟩⟩

open Attempt

theorem accounts_allocateInputs (n : Nat) : (allocateInputs n).Keeps Accounts := by
  induction n with
  | zero => exact .pure ()
  | succ n ih => exact .bind (accounts_allocate _ _ _) fun _ => ih

theorem accounts_addInput (name : String) (width : Nat) : (addInput name width).Keeps Accounts :=
  .bind .get fun _ => .bind (accounts_allocateInputs width) fun _ =>
    .bind (.modify fun net => accounts_registerPort net name _) fun _ => .pure _

/-- The step lemma: an operation, however it ends, keeps the counters exact. -/
theorem accounts_perform (net : Netlist) (operation : Operation) :
    Accounts net (net.perform operation) := by
  cases operation with
  | allocate op in1 in2 => exact accounts_allocate op in1 in2 net
  | applyUnary op a => exact (wires_applyUnary op a net).accounts
  | applyBinary op a b => exact (wires_applyBinary op a b net).accounts
  | select selector a b => exact (wires_select selector a b net).accounts
  | reduce op a => exact (wires_reduce op a net).accounts
  | addInput name width => exact accounts_addInput name width net
  | registerPort name bus => exact accounts_registerPort net name bus
  | tick => exact (revalued_tick net).accounts
  | drive gate value => exact (revalued_drive net gate value).accounts
  | write bus value => exact (revalued_write net bus value).accounts

/-- The run lemma. -/
theorem accounts_foldl (net : Netlist) (operations : List Operation) :
    Accounts net (operations.foldl perform net) := by
  induction operations generalizing net with
  | nil => exact refl net
  | cons operation rest ih => exact IsTrans.trans _ _ _ (accounts_perform net operation) (ih _)

theorem empty_exact (settings : Settings) : (empty settings).Intact ∧ (empty settings).Tallied := by
  have hnone (i : Nat) (g : Gate) : (empty settings).gates[i]? ≠ some g := by simp [empty]
  exact ⟨⟨Nat.zero_le _, fun i g h => absurd h (hnone i g)⟩, fun i g h => absurd h (hnone i g),
    fun i g h => absurd h (hnone i g), rfl, rfl⟩

/-! ### How large a counter can grow -/

/-- Every counter is below `limit`. -/
structure CountsBelow (limit : Nat) (net : Netlist) : Prop where
  gates : ∀ (i : Nat) (g : Gate), net.gates[i]? = some g → g.depth < limit ∧ g.usage < limit
  maxDepth : net.maxDepth < limit
  maxUsage : net.maxUsage < limit

/-- The first gate has no pins, any other at most two. -/
theorem WellFormed.readers_le {net : Netlist} (hw : net.WellFormed) (i : Nat) :
    net.readers i ≤ 2 * (net.size - 1) := by
  have hpins (g : Gate) : g.pins.length ≤ 2 := by
    rw [Gate.pins, List.length_append]
    have h1 := Option.length_toList_le (o := g.in1)
    have h2 := Option.length_toList_le (o := g.in2)
    omega
  have hall (gates : List Gate) : (gates.flatMap Gate.pins).length ≤ 2 * gates.length := by
    induction gates with
    | nil => exact Nat.le_refl _
    | cons g rest ih =>
      have hg := hpins g
      rw [List.flatMap_cons, List.length_append, List.length_cons]
      omega
  refine Nat.le_trans List.count_le_length ?_
  cases hgates : net.gates.toList with
  | nil => exact Nat.zero_le _
  | cons g rest =>
    have hg : net.gates[0]? = some g := by rw [← Array.getElem?_toList, hgates]; rfl
    have hnil : g.pins = [] :=
      List.eq_nil_iff_forall_not_mem.mpr fun p hp => Nat.not_lt_zero p ((hw 0 g hg).before p hp)
    have hsize : net.size = rest.length + 1 := by
      rw [size, ← Array.length_toList, hgates, List.length_cons]
    rw [List.flatMap_cons, hnil, List.nil_append, hsize]
    exact hall rest

theorem max?_getD_lt {xs : List Nat} {limit : Nat} (hpos : 0 < limit) (h : ∀ x ∈ xs, x < limit) :
    xs.max?.getD 0 < limit := by
  cases hm : xs.max? with
  | none => exact hpos
  | some m => exact h m (List.max?_mem hm)

/-- Exact counters stay below the limit while the pins that there is room for do. -/
theorem Tallied.countsBelow {net : Netlist} (h : net.Tallied) (hi : net.Intact) {limit : Nat}
    (hpos : 0 < limit) (hroom : 2 * net.capacity ≤ limit) : net.CountsBelow limit := by
  have hgate (i : Nat) (g : Gate) (hg : net.gates[i]? = some g) : g.depth < limit ∧ g.usage < limit := by
    have hlt : i < net.size := (Array.getElem?_eq_some_iff.mp hg).1
    have hdepth : g.depth ≤ i := (h.depth i g hg).1.length_le hi.wired
    have husage := hi.wired.readers_le i
    rw [← h.usage i g hg] at husage
    have hsize := hi.room
    omega
  have hmem {f : Gate → Nat} (hf : ∀ (i : Nat) (g : Gate), net.gates[i]? = some g → f g < limit) :
      ∀ x ∈ net.gates.toList.map f, x < limit := by
    intro x hx
    obtain ⟨g, hg, rfl⟩ := List.mem_map.mp hx
    obtain ⟨i, hat⟩ := List.getElem?_of_mem hg
    exact hf i g (by rw [← Array.getElem?_toList, hat])
  refine ⟨hgate, ?_, ?_⟩
  · rw [h.maxDepth]
    exact max?_getD_lt hpos (hmem fun i g hg => (hgate i g hg).1)
  · rw [h.maxUsage]
    exact max?_getD_lt hpos (hmem fun i g hg => (hgate i g hg).2)

/-- **Depth and fan-out are exact after any operations.** Whatever is asked of a new
netlist, and whether it succeeds or fails: the depth of each gate is the length of the
longest chain of pins that ends at it, its usage the number of pins that read it, and
the netlist's own counters are the greatest of these. With room for at most `2 ^ 31`
gates no counter outgrows 32 bits. -/
theorem counters_exact (settings : Settings) (operations : List Operation) :
    (operations.foldl perform (empty settings)).Tallied ∧
      (settings.capacity ≤ 2 ^ 31 → (operations.foldl perform (empty settings)).CountsBelow (2 ^ 32)) := by
  have hrun := accounts_foldl (empty settings) operations
  obtain ⟨hintact, htallied⟩ := hrun.exact (empty_exact settings)
  refine ⟨htallied, fun hcap => htallied.countsBelow hintact (by decide) ?_⟩
  have hsame : (operations.foldl perform (empty settings)).capacity = settings.capacity := hrun.capacity
  omega

/-- Two inputs, a bus read twice by one gate each, a reduction, and requests that fail. -/
def fanoutSample : List Operation :=
  [.addInput "a" 2, .applyBinary .xor (.contiguous 0 2) (.contiguous 0 2), .reduce .and (.contiguous 0 4),
    .allocate .not (some 9) none, .select 6 (.contiguous 0 2) (.contiguous 2 2), .drive 0 true, .tick]

/-- The netlist holds what fitted: nine gates, the last one five pins deep. -/
theorem counters_exact_fanoutSample :
    IsGreatest {n | (fanoutSample.foldl perform (empty { capacity := 9 })).Chain n 8} 5 ∧
      (fanoutSample.foldl perform (empty { capacity := 9 })).readers 0 = 4 ∧
      (fanoutSample.foldl perform (empty { capacity := 9 })).CountsBelow (2 ^ 32) := by
  obtain ⟨htallied, hbelow⟩ := counters_exact { capacity := 9 } fanoutSample
  have hlast : (fanoutSample.foldl perform (empty { capacity := 9 })).gates[8]? =
      some ⟨.and, some 0, some 7, true, 5, 0⟩ := by decide +kernel
  have hfirst : (fanoutSample.foldl perform (empty { capacity := 9 })).gates[0]? =
      some ⟨.passthrough, none, none, true, 0, 4⟩ := by decide +kernel
  exact ⟨htallied.depth 8 _ hlast, (htallied.usage 0 _ hfirst).symm, hbelow (by decide)⟩

end Netlist

end BusLogic
