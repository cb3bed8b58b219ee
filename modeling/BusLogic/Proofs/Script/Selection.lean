import BusLogic.Proofs.Netlist.Multiplexer
import BusLogic.Proofs.Script.Soundness
import BusLogic.Proofs.Script.Steps

/-! Selections.

A build comes to sound sessions only, and in a sound session a selection that succeeds has
two to the power of the selector's width branches, all of one width, and picks the one that
the selector numbers. Its gates are those of the neighbours that do not coincide; joining
those that do as well would take more gates and carry the same. -/
namespace BusLogic.Script
open Attempt Run Netlist

/-! ### What is selected -/

/-- The rows that the levels of a multiplexer start from: the branches, and what the first
levels leave of them. -/
structure Rows (selector : Bus) (branches : List Bus) (net : Netlist) (rows : List (List Bus)) : Prop where
  length : rows.length = selector.width
  row : ∀ (i : Nat) (halved : List Bus), rows[i]? = some halved →
    ∃ net', outcome (multiplexLevels 0 (selector.slots.take i) branches) net = (.ok halved, net')

/-- **A selection picks the branch that its selector numbers, and reusing branches that
coincide does not show.** In every sound session, and so wherever a build comes, a selection
succeeds only over a bound selector of at least one gate, with two to the power of that
many branches, all bound and of one width `w`. Then, whatever values the gates hold, a tick
leaves the result with the bits of the branch whose number is the sum of the selector's
bits, each times its power of two. It takes `1 + 3 * w` gates for each two neighbours in the
rows of its levels (`Rows`) that do not coincide, and none for the others. Where there is
room to join them all, the multiplexer without reuse succeeds, takes `1 + 3 * w` gates for
all of them, picks by the same number, and carries the same bits after a tick from the same
values. -/
theorem select_picks (s : Session) (hs : s.Sound) (depth : Nat) (selector : Ref) (fault : Option Mismatch)
    (out : Bus) (t : Session) (h : outcome ((nested depth).select selector fault) s = (.ok out, t)) :
    ∃ (bus : Bus) (gates : List Nat) (branches : List Bus) (u : Session) (w : Nat),
      (s.ref selector = .ok bus ∧ bus.slots = gates.map some ∧
        outcome (body (nested depth).branch (s.lines.size - s.cursor)) s = (.ok branches, u)) ∧
      (1 ≤ gates.length ∧ branches.length = 2 ^ gates.length ∧ (∀ b ∈ branches, b.Bound w) ∧ out.Bound w) ∧
      t.netlist.Picks gates branches out ∧
      (∃ rows, Rows bus branches u.netlist rows ∧
        t.netlist.size = u.netlist.size + (1 + 3 * w) * (rows.map (apart Bus.coincides)).sum) ∧
      (u.netlist.size + (1 + 3 * w) * (2 ^ gates.length - 1) ≤ u.netlist.capacity →
        ∃ plain net, outcome (multiplexBy never bus branches) u.netlist = (.ok plain, net) ∧ plain.Bound w ∧
          net.size = u.netlist.size + (1 + 3 * w) * (2 ^ gates.length - 1) ∧
          net.Picks gates branches plain ∧
          ∀ later later', t.netlist.Revalued later → net.Revalued later' →
            (∀ i < u.netlist.size, later'.valueAt i = later.valueAt i) → later'.generator = later.generator →
            plain.bits later'.tick.valueAt = out.bits later.tick.valueAt) := by
  obtain ⟨bus, branches, u, net, hbus, rfl, hbody, hnet, rfl⟩ := Nested.select_eq_ok.mp h
  have hsafe := Safe.body (P := fun (b : Bus) net => b.Within net) (fun _ _ _ hb hr => hb.retains hr)
    (safe_nested depth).branch hs (s.lines.size - s.cursor)
  obtain ⟨hu, hgrown, hwithin⟩ := hsafe.reached hbody
  have hbusIn := (hs.ref hbus).retains hgrown.retains
  rw [← multiplexBy_coincides] at hnet
  have hwires : Wires u.netlist net := (wires_multiplexBy _ _ _).reached hnet
  have hw := (hwires.grows.intact hu.intact).wired
  obtain ⟨gates, w, hslots, hpos, hlen, hbound, hout, rows, hrows, hreach, hsize⟩ :=
    multiplexBy_shape (fun _ _ => id) hnet hw
  have hpicks := multiplexBy_picks (fun _ _ => id) hnet hw hslots
  have hgates : ∀ gate ∈ gates, gate < u.netlist.size :=
    fun gate hgate => hbusIn.bound gate (by rw [hslots]; exact List.mem_map_of_mem hgate)
  refine ⟨bus, gates, branches, u, w, ⟨hbus, hslots, hbody⟩, ⟨hpos, hlen, hbound, hout⟩, hpicks,
    ⟨rows, ⟨?_, fun i halved hi => ?_⟩, hsize⟩, fun hroom => ?_⟩
  · rw [hrows, ← Bus.length_slots, hslots, List.length_map]
  · simp only [multiplexLevelsBy_coincides] at hreach
    exact hreach i halved hi
  · obtain ⟨plain, net', hplain, hplainBound, hsize'⟩ := multiplexBy_of_room hu.intact hslots (multiplexBy_ok hnet).1
      hgates (fun b hb => ⟨hbound b hb, hwithin b hb⟩) hroom
    have hwires' : Wires u.netlist net' := (wires_multiplexBy _ _ _).reached hplain
    have hpicks' := multiplexBy_picks coincides_of_never hplain (hwires'.grows.intact hu.intact).wired hslots
    refine ⟨plain, net', hplain, hplainBound, hsize', hpicks', fun later later' hlater hlater' hvalue hgen => ?_⟩
    exact hpicks.agree hw hwires.prolongs hwires'.prolongs hgates hwithin hpicks' hlater hlater' hvalue hgen

/-- A selection among four branches, of which two coincide and one is the selector. -/
def choiceSample : String := "IN s /2\nIN a /2\nm = SELECT(s)\na\na\ns\na\nEND\n"

/-- The sample to begin with, its lines at hand. -/
def choiceStart : Session := .ofLines
  [⟨1, "IN s /2".toList⟩, ⟨2, "IN a /2".toList⟩, ⟨3, "m = SELECT(s)".toList⟩, ⟨4, "a".toList⟩,
    ⟨5, "a".toList⟩, ⟨6, "s".toList⟩, ⟨7, "a".toList⟩, ⟨8, "END".toList⟩] {}

theorem start_choiceSample : Session.start choiceSample {} = choiceStart := Session.start_eq (by decide +kernel) {}

/-- The sample at the first branch. -/
def choiceSession : Session :=
  let u := (outcome (upTo (nested 1).statement choiceStart.lines.size 2) choiceStart).2
  { u with cursor := u.cursor + 1 }

theorem sound_choiceSession : choiceSession.Sound := by
  have hstart : choiceStart.Sound := start_choiceSample ▸ Session.sound_start choiceSample {}
  exact (Safe.upTo (safe_nested 1).statement hstart choiceStart.lines.size 2).sound.moved _

def choiceBranches : List Bus := [.contiguous 2 2, .contiguous 2 2, .contiguous 0 2, .contiguous 2 2]

/-- The sample behind its branches. -/
def choiceWired : Session :=
  (outcome (body (nested 1).branch (choiceSession.lines.size - choiceSession.cursor)) choiceSession).2

/-- The sample behind the selection. -/
def choiceSelected : Session := (outcome ((nested 1).select ⟨"s", none⟩ none) choiceSession).2

theorem body_choiceSession :
    outcome (body (nested 1).branch (choiceSession.lines.size - choiceSession.cursor)) choiceSession =
      (.ok choiceBranches, choiceWired) := outcome_of_result (by decide +kernel)

theorem select_choiceSession : outcome ((nested 1).select ⟨"s", none⟩ none) choiceSession =
    (.ok (.contiguous 16 2), choiceSelected) := outcome_of_result (by decide +kernel)

/-- The two branches that coincide save a two-way multiplexer of two bits, seven gates. -/
theorem select_picks_choiceSample :
    choiceSession.Sound ∧ choiceSelected.netlist.size = 4 + 2 * 7 ∧
      choiceSelected.netlist.Picks [0, 1] choiceBranches (.contiguous 16 2) ∧
      ∃ plain net, outcome (multiplexBy never (.contiguous 0 2) choiceBranches) choiceWired.netlist = (.ok plain, net) ∧
        net.size = 4 + 3 * 7 ∧ net.Picks [0, 1] choiceBranches plain := by
  obtain ⟨bus, gates, branches, u, w, ⟨hbus, hslots, hbody⟩, ⟨_, _, hbound, _⟩, hpicks, _, hplain⟩ :=
    select_picks choiceSession sound_choiceSession 1 ⟨"s", none⟩ none _ _ select_choiceSession
  have hselector : choiceSession.ref ⟨"s", none⟩ = .ok (.contiguous 0 2) := by decide +kernel
  obtain rfl : .contiguous 0 2 = bus := Except.ok.inj (hselector.symm.trans hbus)
  obtain rfl : [0, 1] = gates := (List.map_inj_right fun _ _ => Option.some.inj).mp hslots
  rw [body_choiceSession, Prod.mk.injEq, Except.ok.injEq] at hbody
  obtain ⟨hbranches, hu⟩ := hbody
  rw [← hbranches] at hbound hpicks hplain
  rw [← hu] at hplain
  obtain rfl : 2 = w := (hbound (.contiguous 2 2) List.mem_cons_self).width
  have hsize : choiceWired.netlist.size = 4 := by decide +kernel
  have hcapacity : choiceWired.netlist.capacity = 5000 := by decide +kernel
  obtain ⟨plain, net, hbuilt, _, hgrown, hpicks', _⟩ := hplain (by rw [hsize, hcapacity]; decide)
  have hselected : choiceSelected.netlist.size = 4 + 2 * 7 := by decide +kernel
  rw [hsize] at hgrown
  exact ⟨sound_choiceSession, hselected, hpicks, plain, net, hbuilt, hgrown, hpicks'⟩

end BusLogic.Script
