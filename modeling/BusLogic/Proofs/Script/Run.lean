import BusLogic.Proofs.Attempt
import BusLogic.Script.Execute

/-! Steps of a session that succeed.

What a session answers when asked, and what a step that succeeds has done, one
lemma for each: nothing later opens `Run`. -/
namespace BusLogic.Script
open Attempt

/-! ### Answers of a session -/

namespace Session

/-- The session over the given lines, before any of them has been carried out. -/
def ofLines (lines : List Line) (settings : Settings) : Session :=
  ⟨lines.toArray, 0, .empty settings, ∅, none⟩

theorem start_eq {source : String} {lines : List Line} (h : linesOf source.toList = lines)
    (settings : Settings) : start source settings = ofLines lines settings := by
  rw [start, h, ofLines]

theorem lookup_ok {s : Session} {name : String} {b : Bus} (h : s.lookup name = .ok b) :
    s.bus? name = some b := by
  rw [lookup] at h
  split at h
  · rename_i b' hb
    cases h
    exact hb
  · cases h

/-- A reference is a whole bus, or a slice of one whose ends are known. -/
theorem ref_ok {s : Session} {r : Ref} {b : Bus} (h : s.ref r = .ok b) :
    ∃ whole, s.lookup r.name = .ok whole ∧
      ((r.span = none ∧ whole = b) ∨ ∃ span first last, r.span = some span ∧
        s.index span.first = .ok first ∧ s.index (span.last.getD span.first) = .ok last ∧
        whole.slice first last = .ok b) := by
  obtain ⟨whole, hw, h₁⟩ := except_bind_ok h
  refine ⟨whole, hw, ?_⟩
  split at h₁
  · rename_i hnone
    cases h₁
    exact .inl ⟨hnone, rfl⟩
  · rename_i span hsome
    obtain ⟨first, hfirst, h₂⟩ := except_bind_ok h₁
    refine .inr ⟨span, first, ?_⟩
    dsimp only at h₂
    split at h₂
    · rename_i hlast
      exact ⟨first, hsome, hfirst, by rw [hlast]; exact hfirst, h₂⟩
    · rename_i i hlast
      obtain ⟨last, hi, h₃⟩ := except_bind_ok h₂
      exact ⟨last, hsome, hfirst, by rw [hlast]; exact hi, h₃⟩

theorem checkWidth_ok {s : Session} {width : Nat} (h : s.checkWidth width = .ok ()) :
    width ≤ s.netlist.capacity := by
  rw [checkWidth] at h
  split at h
  · cases h
  · rename_i hle
    exact Nat.le_of_not_lt hle

theorem extent_ok {s : Session} {e : Option Extent} {width : Nat}
    (h : s.extent e = .ok (some width)) : width ≤ s.netlist.capacity := by
  cases e with
  | none => cases h
  | some e =>
    obtain ⟨w, _, h₁⟩ := except_bind_ok h
    obtain ⟨_, _, h₂⟩ := except_bind_ok h₁
    obtain ⟨_, hw, h₃⟩ := except_bind_ok h₂
    cases h₃
    exact checkWidth_ok hw

end Session

/-! ### Steps -/

namespace Run

variable {α : Type} {s s' : Session}

theorem outcome_ask (f : Session → Except Error α) (s : Session) :
    outcome (ask f) s = ((f s).mapError .of, s) := rfl

theorem ask_ok {f : Session → Except Error α} {a : α} (h : outcome (ask f) s = (.ok a, s')) :
    f s = .ok a ∧ s = s' := by
  rw [outcome_ask] at h
  obtain ⟨hf, hs⟩ := Prod.mk.inj h
  exact ⟨except_mapError_ok hf, hs⟩

theorem wire_ok {x : Attempt Error Netlist α} {a : α} (h : outcome (wire x) s = (.ok a, s')) :
    ∃ net, outcome x s.netlist = (.ok a, net) ∧ s' = { s with netlist := net } := by
  obtain ⟨hr, hs⟩ := Prod.mk.inj h
  exact ⟨(outcome x s.netlist).2, Prod.ext (except_mapError_ok hr) rfl, hs.symm⟩

theorem compile_ok {e : Expression Signal} {x : Expression.Step Signal Netlist α} {p : α × Expression Signal}
    (h : outcome (compile e x) s = (.ok p, s')) :
    ∃ net, outcome x (e, s.netlist) = (.ok p.1, (p.2, net)) ∧ s' = { s with netlist := net } := by
  have hdef : outcome (compile e x) s =
      (((outcome x (e, s.netlist)).1.map (·, (outcome x (e, s.netlist)).2.1)).mapError .of,
        { s with netlist := (outcome x (e, s.netlist)).2.2 }) := rfl
  rw [hdef] at h
  generalize outcome x (e, s.netlist) = r at h ⊢
  rcases r with ⟨_ | a, e', net⟩
  · cases h
  · cases h
    exact ⟨net, rfl, rfl⟩

theorem on_ok {line : Line} {x : Run α} {a : α} (h : outcome (on line x) s = (.ok a, s')) :
    outcome x s = (.ok a, s') := by
  obtain ⟨hr, hs⟩ := Prod.mk.inj h
  exact Prod.ext (except_mapError_ok hr) hs

end Run

end BusLogic.Script
