import BusLogic.Netlist.Snapshot
import BusLogic.Proofs.Netlist.Lockstep

/-! The digest sees the structure of a netlist, and all of it.

A gate takes seventeen bytes, whatever it is: its operation in one, and each pin in eight,
lowest byte first. A pin stands before its gate, so it is never the number that stands for
an absent pin, and the bytes of a gate tell its operation and its pins (`gateBytes_inj`).
Since all gates take the same number of bytes, the bytes of a netlist fall apart into those
of its gates (`flatMap_gateBytes_inj`). Nothing else goes into them: whatever leaves
operations and pins alone leaves the digest alone (`SameWiring.encoding`). -/
namespace BusLogic

namespace Gate

/-- What a gate does and what it is wired to. -/
def wiring (g : Gate) : Opcode × Option Nat × Option Nat := (g.opcode, g.in1, g.in2)

end Gate

namespace Netlist

/-- Every pin stands before its gate. -/
def PinsBefore (net : Netlist) : Prop :=
  ∀ (i : Nat) (g : Gate), net.gates[i]? = some g → ∀ pin ∈ g.pins, pin < i

/-- As many gates, each of the same operation and wired to the same pins. -/
structure SameWiring (net net' : Netlist) : Prop where
  size : net'.size = net.size
  gates : ∀ (i : Nat) (g g' : Gate), net.gates[i]? = some g → net'.gates[i]? = some g' →
    g'.opcode = g.opcode ∧ g'.in1 = g.in1 ∧ g'.in2 = g.in2

theorem WellFormed.pinsBefore {net : Netlist} (h : net.WellFormed) : net.PinsBefore :=
  fun i g hg => (h i g hg).before

/-! ### Bytes of numbers -/

@[simp] theorem length_littleEndian (n value : Nat) : (littleEndian n value).length = n := by
  induction n generalizing value with
  | zero => rfl
  | succ n ih => rw [littleEndian, List.length_cons, ih]

/-- A number that fits is told by its bytes. -/
theorem littleEndian_inj {n a b : Nat} (ha : a < 256 ^ n) (hb : b < 256 ^ n)
    (h : littleEndian n a = littleEndian n b) : a = b := by
  induction n generalizing a b with
  | zero => omega
  | succ n ih =>
    rw [Nat.pow_succ] at ha hb
    obtain ⟨hlow, hhigh⟩ := List.cons.inj h
    have hmod : a % 256 = b % 256 := congrArg UInt8.toNat hlow
    have hdiv : a / 256 = b / 256 := ih (by omega) (by omega) hhigh
    omega

/-! ### Bytes of gates -/

theorem length_pinBytes (pin : Option Nat) : (pinBytes pin).length = 8 := length_littleEndian ..

/-- A pin below the number that stands for none is told by its bytes, and so is an absent one. -/
theorem pinBytes_inj {a b : Option Nat} (ha : ∀ pin ∈ a, pin < 2 ^ 64 - 1) (hb : ∀ pin ∈ b, pin < 2 ^ 64 - 1)
    (h : pinBytes a = pinBytes b) : a = b := by
  have hmost : 2 ^ 64 - 1 < 256 ^ 8 := by decide
  have hfits (pin : Option Nat) (hpin : ∀ p ∈ pin, p < 2 ^ 64 - 1) : pin.getD (2 ^ 64 - 1) < 256 ^ 8 := by
    cases pin with
    | none => exact hmost
    | some p => exact Nat.lt_trans (hpin p rfl) hmost
  have hraw := littleEndian_inj (hfits a ha) (hfits b hb) h
  cases a with
  | none =>
    cases b with
    | none => rfl
    | some q => exact absurd hraw (Nat.ne_of_gt (hb q rfl))
  | some p =>
    cases b with
    | none => exact absurd hraw (Nat.ne_of_lt (ha p rfl))
    | some q => exact congrArg some hraw

/-- A gate is told by its bytes, as far as it is structure. -/
theorem gateBytes_inj {g g' : Gate} (hg : ∀ pin ∈ g.pins, pin < 2 ^ 64 - 1)
    (hg' : ∀ pin ∈ g'.pins, pin < 2 ^ 64 - 1) (h : gateBytes g = gateBytes g') : g.wiring = g'.wiring := by
  have hpins {g : Gate} (hg : ∀ pin ∈ g.pins, pin < 2 ^ 64 - 1) :
      (∀ pin ∈ g.in1, pin < 2 ^ 64 - 1) ∧ ∀ pin ∈ g.in2, pin < 2 ^ 64 - 1 := by
    simp only [Gate.pins, List.mem_append, Option.mem_toList] at hg
    exact ⟨fun pin hpin => hg pin (.inl hpin), fun pin hpin => hg pin (.inr hpin)⟩
  obtain ⟨h₁, h₂⟩ := hpins hg
  obtain ⟨h₁', h₂'⟩ := hpins hg'
  obtain ⟨hcode, hbytes⟩ := List.cons.inj h
  obtain ⟨hfirst, hsecond⟩ := List.append_inj hbytes (by rw [length_pinBytes, length_pinBytes])
  rw [Gate.wiring, Gate.wiring, Opcode.code_injective hcode, pinBytes_inj h₁ h₁' hfirst, pinBytes_inj h₂ h₂' hsecond]

theorem length_gateBytes (g : Gate) : (gateBytes g).length = 17 := by
  rw [gateBytes, List.length_cons, List.length_append, length_pinBytes, length_pinBytes]

/-- A row of gates is told by its bytes: as all gates take the same number of bytes, those of
the first gate are the first of them. -/
theorem flatMap_gateBytes_inj {gates gates' : List Gate} (h₁ : ∀ g ∈ gates, ∀ pin ∈ g.pins, pin < 2 ^ 64 - 1)
    (h₂ : ∀ g ∈ gates', ∀ pin ∈ g.pins, pin < 2 ^ 64 - 1) (h : gates.flatMap gateBytes = gates'.flatMap gateBytes) :
    gates.map Gate.wiring = gates'.map Gate.wiring := by
  induction gates generalizing gates' with
  | nil =>
    cases gates' with
    | nil => rfl
    | cons g' rest' => cases h
  | cons g rest ih =>
    cases gates' with
    | nil => cases h
    | cons g' rest' =>
      obtain ⟨hg, hrest⟩ := List.forall_mem_cons.mp h₁
      obtain ⟨hg', hrest'⟩ := List.forall_mem_cons.mp h₂
      rw [List.flatMap_cons, List.flatMap_cons] at h
      obtain ⟨hfirst, hmore⟩ := List.append_inj h (by rw [length_gateBytes, length_gateBytes])
      rw [List.map_cons, List.map_cons, gateBytes_inj hg hg' hfirst, ih hrest hrest' hmore]

/-! ### Netlists of the same structure -/

theorem sameWiring_iff {net net' : Netlist} :
    net.SameWiring net' ↔ net.gates.toList.map Gate.wiring = net'.gates.toList.map Gate.wiring := by
  constructor
  · intro h
    refine List.ext_getElem? fun i => ?_
    simp only [List.getElem?_map, Array.getElem?_toList]
    by_cases hi : i < net.gates.size
    · have hi' : i < net'.gates.size := by
        have hsize : net'.gates.size = net.gates.size := h.size
        omega
      have hg := Array.getElem?_eq_getElem hi
      have hg' := Array.getElem?_eq_getElem hi'
      obtain ⟨hop, h₁, h₂⟩ := h.gates i _ _ hg hg'
      rw [hg, hg', Option.map_some, Option.map_some, Gate.wiring, Gate.wiring, hop, h₁, h₂]
    · have hi' : ¬ i < net'.gates.size := by
        have hsize : net'.gates.size = net.gates.size := h.size
        omega
      rw [Array.getElem?_eq_none (Nat.not_lt.mp hi), Array.getElem?_eq_none (Nat.not_lt.mp hi')]
  · intro h
    have hat (i : Nat) : net.gates[i]?.map Gate.wiring = net'.gates[i]?.map Gate.wiring := by
      rw [← Array.getElem?_toList, ← Array.getElem?_toList, ← List.getElem?_map, ← List.getElem?_map, h]
    refine ⟨?_, fun i g g' hg hg' => ?_⟩
    · have hlen := congrArg List.length h
      rw [List.length_map, List.length_map, Array.length_toList, Array.length_toList] at hlen
      exact hlen.symm
    · have hwiring := hat i
      rw [hg, hg', Option.map_some, Option.map_some, Option.some.injEq, Gate.wiring, Gate.wiring] at hwiring
      obtain ⟨hop, hpins⟩ := Prod.mk.inj hwiring
      obtain ⟨h₁, h₂⟩ := Prod.mk.inj hpins
      exact ⟨hop.symm, h₁.symm, h₂.symm⟩

theorem SameWiring.refl (net : Netlist) : net.SameWiring net := sameWiring_iff.mpr rfl

theorem SameWiring.trans {a b c : Netlist} (hab : a.SameWiring b) (hbc : b.SameWiring c) : a.SameWiring c :=
  sameWiring_iff.mpr ((sameWiring_iff.mp hab).trans (sameWiring_iff.mp hbc))

theorem Revalued.sameWiring {net net' : Netlist} (h : net.Revalued net') : net.SameWiring net' := by
  refine ⟨h.size, fun i g g' hg hg' => ?_⟩
  obtain ⟨g₀, hg₀, heq⟩ := h.gate hg'
  rw [hg] at hg₀
  cases hg₀
  rw [heq]
  exact ⟨rfl, rfl, rfl⟩

/-- Netlists of the same structure have the same bytes. -/
theorem SameWiring.encoding {net net' : Netlist} (h : net.SameWiring net') : net'.encoding = net.encoding := by
  have hbytes (gates : List Gate) :
      gates.flatMap gateBytes =
        (gates.map Gate.wiring).flatMap fun w => w.1.code :: (pinBytes w.2.1 ++ pinBytes w.2.2) := by
    rw [List.flatMap_map]
    rfl
  rw [Netlist.encoding, Netlist.encoding, hbytes, hbytes, sameWiring_iff.mp h]

/-- Pins that stand before their gates are below the number that stands for none. -/
theorem PinsBefore.small {net : Netlist} (h : net.PinsBefore) (hsize : net.size < 2 ^ 64) :
    ∀ g ∈ net.gates.toList, ∀ pin ∈ g.pins, pin < 2 ^ 64 - 1 := by
  intro g hg pin hpin
  obtain ⟨i, hi⟩ := List.getElem?_of_mem hg
  rw [Array.getElem?_toList] at hi
  have hbefore : pin < i := h i g hi pin hpin
  have hlt : i < net.size := (Array.getElem?_eq_some_iff.mp hi).1
  omega

/-- The bytes of a netlist tell its structure. -/
theorem sameWiring_of_encoding {net net' : Netlist} (hpins : net.PinsBefore) (hpins' : net'.PinsBefore)
    (hsize : net.size < 2 ^ 64) (hsize' : net'.size < 2 ^ 64) (h : net.encoding = net'.encoding) :
    net.SameWiring net' :=
  sameWiring_iff.mpr (flatMap_gateBytes_inj (hpins.small hsize) (hpins'.small hsize') (List.append_cancel_left h))

/-! ### Operations that the digest does not see -/

/-- Operations that change values or ports, and leave the structure alone. -/
def Operation.keepsWiring : Operation → Bool
  | .registerPort _ _ => true
  | operation => operation.stimulates

theorem sameWiring_perform (net : Netlist) {operation : Operation} (h : operation.keepsWiring = true) :
    net.SameWiring (net.perform operation) := by
  cases operation with
  | registerPort name bus => exact sameWiring_iff.mpr rfl
  | tick => exact (revalued_perform net rfl).sameWiring
  | drive gate value => exact (revalued_perform net rfl).sameWiring
  | write bus value => exact (revalued_perform net rfl).sameWiring
  | _ => cases h

theorem sameWiring_run (net : Netlist) {run : List Operation}
    (h : ∀ operation ∈ run, operation.keepsWiring = true) : net.SameWiring (run.foldl perform net) := by
  induction run generalizing net with
  | nil => exact .refl net
  | cons operation rest ih =>
    obtain ⟨hfirst, hrest⟩ := List.forall_mem_cons.mp h
    exact (sameWiring_perform net hfirst).trans (ih _ hrest)

/-- **The digest is taken of the structure, and of nothing else.** It is the digest of the
netlist's bytes. Two netlists whose pins stand before their gates, and whose gates can be
numbered in 64 bits, have the same bytes exactly when they have as many gates, each of the
same operation and wired to the same pins. Netlists of the same structure have the same digest, whatever their values,
depths, usages, ports, capacity and generator; so ticks, stimuli and new ports, in any
number and order, leave the bytes and the digest as they are. -/
theorem encoding_structural (net : Netlist) :
    net.hash = Digest.hexDigest net.encoding ∧
    (∀ net', net.PinsBefore → net'.PinsBefore → net.size < 2 ^ 64 → net'.size < 2 ^ 64 →
      (net.encoding = net'.encoding ↔ net.SameWiring net')) ∧
    (∀ net', net.SameWiring net' → net'.hash = net.hash) ∧
    (∀ run : List Operation, (∀ operation ∈ run, operation.keepsWiring = true) →
      (run.foldl perform net).encoding = net.encoding ∧ (run.foldl perform net).hash = net.hash) := by
  have hhash {net' : Netlist} (h : net.SameWiring net') : net'.hash = net.hash := by
    rw [hash, hash, h.encoding]
  refine ⟨rfl, fun net' hpins hpins' hsize hsize' => ?_, fun net' h => hhash h, fun run hrun => ?_⟩
  · exact ⟨sameWiring_of_encoding hpins hpins' hsize hsize', fun h => h.encoding.symm⟩
  · exact ⟨(sameWiring_run net hrun).encoding, hhash (sameWiring_run net hrun)⟩

/-- Two inputs and a gate that reads both. -/
def nandSample : List Operation := [.addInput "a" 2, .allocate .nand (some 0) (some 1)]

/-- The same gates in a larger netlist with another seed have the same bytes, even after
stimuli, a tick and another port; one more gate makes a difference. -/
theorem encoding_structural_nandSample :
    (nandSample.foldl perform (empty ⟨8, 0⟩)).encoding =
        ([.drive 0 true, .tick, .registerPort "b" (.single 2)].foldl perform
          (nandSample.foldl perform (empty ⟨100, 7⟩))).encoding ∧
      (nandSample.foldl perform (empty ⟨8, 0⟩)).encoding ≠
        ((nandSample ++ [Operation.allocate .not (some 2) none]).foldl perform (empty ⟨8, 0⟩)).encoding := by
  have hpins (settings : Settings) (run : List Operation) : (run.foldl perform (empty settings)).PinsBefore :=
    ((accounts_foldl (empty settings) run).exact (empty_exact settings)).1.wired.pinsBefore
  have hsize : (nandSample.foldl perform (empty ⟨8, 0⟩)).size = 3 := by decide +kernel
  have hsize' : (nandSample.foldl perform (empty ⟨100, 7⟩)).size = 3 := by decide +kernel
  have hsize'' : ((nandSample ++ [Operation.allocate .not (some 2) none]).foldl perform (empty ⟨8, 0⟩)).size = 4 := by
    decide +kernel
  obtain ⟨_, hiff, _, _⟩ := encoding_structural (nandSample.foldl perform (empty ⟨8, 0⟩))
  obtain ⟨_, _, _, hrun⟩ := encoding_structural (nandSample.foldl perform (empty ⟨100, 7⟩))
  have hsame : (nandSample.foldl perform (empty ⟨8, 0⟩)).SameWiring (nandSample.foldl perform (empty ⟨100, 7⟩)) :=
    sameWiring_iff.mpr (by decide +kernel)
  constructor
  · rw [(hrun [.drive 0 true, .tick, .registerPort "b" (.single 2)] (by decide)).1]
    exact (hiff _ (hpins _ _) (hpins _ _) (by rw [hsize]; decide) (by rw [hsize']; decide)).mpr hsame
  · intro heq
    have hmore := ((hiff _ (hpins _ _) (hpins _ _) (by rw [hsize]; decide) (by rw [hsize'']; decide)).mp heq).size
    rw [hsize, hsize''] at hmore
    exact absurd hmore (by decide)

end Netlist

end BusLogic
