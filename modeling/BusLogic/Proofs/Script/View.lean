import BusLogic.Proofs.Script.Levels
import BusLogic.Proofs.Script.Run

/-! Sessions as the reference evaluator sees them.

Under a valuation of its gates a session looks like a state of the reference evaluator
(`Session.view`). What the session answers looks like what that state answers, and what
is done to its tables shows as the same change of the state's. -/
namespace BusLogic.Script
open Attempt Reference

variable {w : Nat → Bool} {given : List Bool}

/-! ### Slots -/

theorem bits_unbound (width : Nat) : (Bus.unbound width).bits w = List.replicate width none := by
  rw [Bus.bits, Bus.slots_unbound, List.map_replicate]
  rfl

theorem bind_bits {b b' : Bus} {i gate : Nat} (h : b.bind i gate = .ok b') :
    Reference.bind (b.bits w) i (w gate) = some (b'.bits w) := by
  obtain ⟨hfree, hslots⟩ := Bus.bind_eq_ok h
  have hunbound : (b.bits w)[i]? = some none := by rw [Bus.bits, List.getElem?_map, hfree]; rfl
  rw [Reference.bind, if_pos hunbound, Bus.bits, Bus.bits, hslots, List.map_set]
  rfl

theorem bits_single {b : Bus} {gate : Nat} (hwidth : b.width = 1) (hgate : b.gate 0 = .ok gate) :
    b.bits w = [some (w gate)] := by
  rw [← Bus.length_slots] at hwidth
  obtain ⟨slot, hslot⟩ := List.length_eq_one_iff.mp hwidth
  have hfirst := Bus.gate_eq_ok.mp hgate
  rw [hslot] at hfirst
  cases hfirst
  rw [Bus.bits, hslot]
  rfl

theorem slice_bits {b r : Bus} {first last : Nat} (h : b.slice first last = .ok r) :
    slice (b.bits w) first last = some (r.bits w) := by
  obtain ⟨hle, hlt, hslots⟩ := Bus.slice_eq_ok h
  rw [slice, if_pos ⟨hle, by rwa [Bus.bits, List.length_map, Bus.length_slots]⟩, Bus.bits, Bus.bits, hslots,
    List.map_take, List.map_drop]

/-! ### The view -/

variable (w given) in
/-- The session as the reference evaluator would have it. -/
def Session.view (s : Session) : State where
  lines := s.lines
  cursor := s.cursor
  supply := given.drop s.netlist.inputs.length
  buses := s.buses.map fun _ b => b.bits w
  ports := s.netlist.ports.map fun _ b => b.bits w
  counter := s.counter

namespace Session

/-- More gates that are no inputs do not show. -/
theorem view_netlist {s : Session} {net : Netlist} (hi : net.inputs = s.netlist.inputs)
    (hp : net.ports = s.netlist.ports) : ({ s with netlist := net } : Session).view w given = s.view w given := by
  simp only [view, hi, hp]

theorem view_wires {s : Session} {net : Netlist} (h : s.netlist.Wires net) :
    ({ s with netlist := net } : Session).view w given = s.view w given :=
  view_netlist h.inputs.symm h.frame.1

/-! ### What a session answers -/

theorem view_lookup {s : Session} {name : String} {b : Bus} (h : s.lookup name = .ok b) :
    (s.view w given).buses[name]? = some (b.bits w) := by
  rw [view, Std.ExtTreeMap.getElem?_map]
  have hb := lookup_ok h
  rw [bus?] at hb
  rw [hb, Option.map_some]

theorem view_index {s : Session} {i : Index} {n : Nat} (h : s.index i = .ok n) :
    (s.view w given).index i = some n := by
  cases i with
  | literal m =>
    cases h
    rfl
  | constant name =>
    rw [index, constant?] at h
    rw [State.index, view]
    dsimp only
    split at h
    · rename_i m hm
      cases h
      exact hm
    · cases h
  | missing m => cases h

theorem view_ref {s : Session} {r : Ref} {b : Bus} (h : s.ref r = .ok b) :
    (s.view w given).ref r = some (b.bits w) := by
  obtain ⟨whole, hw, ⟨hspan, rfl⟩ | ⟨span, first, last, hspan, hfirst, hlast, hslice⟩⟩ := ref_ok h
  · rw [State.ref, view_lookup hw, hspan]
    rfl
  · rw [State.ref, view_lookup hw, hspan]
    simp only [Option.bind_eq_bind, Option.bind_some, view_index hfirst, view_index hlast]
    exact slice_bits hslice

theorem view_parts {s : Session} {refs : List Ref} {b r : Bus} (h : s.parts b refs = .ok r) :
    ∃ bits, (s.view w given).listing refs = some bits ∧ r.bits w = b.bits w ++ bits := by
  induction refs generalizing b with
  | nil =>
    cases h
    exact ⟨[], rfl, (List.append_nil _).symm⟩
  | cons first rest ih =>
    obtain ⟨part, hpart, h₁⟩ := except_bind_ok h
    obtain ⟨_, _, h₂⟩ := except_bind_ok h₁
    obtain ⟨bits, hbits, hr⟩ := ih h₂
    refine ⟨part.bits w ++ bits, ?_, ?_⟩
    · rw [State.listing, view_ref hpart, hbits]
      rfl
    · rw [hr, Bus.bits, Bus.slots_append, List.map_append, List.append_assoc]
      rfl

theorem view_listing {s : Session} {l : Listing} {b : Bus} (h : s.listing l = .ok b) :
    (s.view w given).listing l.parts = some (b.bits w) := by
  obtain ⟨b', hparts, h₁⟩ := except_bind_ok h
  obtain ⟨_, _, h₂⟩ := except_bind_ok h₁
  cases h₂
  obtain ⟨bits, hbits, hb⟩ := view_parts hparts
  rw [hbits, hb]
  rfl

/-! ### What is done to a session -/

/-- The table of what the buses carry, after one more. -/
theorem bits_insert (t : Table Bus) (name : String) (b : Bus) :
    (t.insert name b).map (fun _ b => b.bits w) = (t.map fun _ b => b.bits w).insert name (b.bits w) := by
  refine Std.ExtTreeMap.ext_getElem? fun key => ?_
  rw [Std.ExtTreeMap.getElem?_map, Std.ExtTreeMap.getElem?_insert, Std.ExtTreeMap.getElem?_insert,
    Std.ExtTreeMap.getElem?_map]
  split <;> rfl

theorem view_setBus (s : Session) (name : String) (b : Bus) :
    ({ s with buses := s.buses.insert name b } : Session).view w given =
      { s.view w given with buses := (s.view w given).buses.insert name (b.bits w) } := by
  rw [Session.view, bits_insert]
  rfl

theorem view_registerPort (s : Session) (name : String) (b : Bus) :
    ({ s with netlist := s.netlist.registerPort name b } : Session).view w given =
      { s.view w given with ports := (s.view w given).ports.insert name (b.bits w) } := by
  rw [Session.view, Netlist.registerPort, bits_insert]
  rfl

theorem view_start (source : String) (settings : Settings) :
    (Session.start source settings).view w given = Reference.State.start source given := by
  have hempty : (∅ : Table Bus).map (fun _ b => b.bits w) = ∅ :=
    Std.ExtTreeMap.ext_getElem? fun key => by
      rw [Std.ExtTreeMap.getElem?_map]
      simp
  rw [Session.view]
  simp only [Session.start, Netlist.empty, hempty]
  rfl

end Session

end BusLogic.Script
