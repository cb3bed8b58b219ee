import BusLogic.Proofs.Script.Run

/-! When steps succeed.

A step that succeeds has taken its parts one by one, and taking them one by one is all
it does; so each construct of a script has one lemma that says when it succeeds and
where that leaves the session. -/
namespace BusLogic.Script
open Attempt Run

namespace Session

/-- The lines that are left. -/
def rest (s : Session) : List Line := s.lines.toList.drop s.cursor

theorem rest_cons {s : Session} {line : Line} (h : s.lines[s.cursor]? = some line) :
    s.rest = line :: ({ s with cursor := s.cursor + 1 } : Session).rest := by
  have hlist : s.lines.toList[s.cursor]? = some line := by rw [Array.getElem?_toList, h]
  obtain ⟨hlt, heq⟩ := List.getElem?_eq_some_iff.mp hlist
  rw [rest, List.drop_eq_getElem_cons hlt, heq]
  rfl

theorem rest_eq_cons_iff {s : Session} {line : Line} {rest : List Line} : s.rest = line :: rest ↔
    s.lines[s.cursor]? = some line ∧ ({ s with cursor := s.cursor + 1 } : Session).rest = rest := by
  constructor
  · intro h
    have hline : s.lines[s.cursor]? = some line := by
      rw [← Array.getElem?_toList, ← List.head?_drop]
      exact congrArg List.head? h
    exact ⟨hline, by simpa [rest_cons hline] using h⟩
  · rintro ⟨hline, rfl⟩
    exact rest_cons hline

end Session

/-- A name given a bus stands for it, and other names stand for what they did. -/
theorem buses_insert (buses : Table Bus) (name other : String) (b : Bus) :
    (buses.insert name b)[other]? = if name = other then some b else buses[other]? := by
  rw [Std.ExtTreeMap.getElem?_insert]
  simp

theorem bus?_of_insert {s t : Session} {name : String} {b : Bus} (h : t.buses = s.buses.insert name b)
    (other : String) : t.bus? other = if name = other then some b else s.bus? other := by
  rw [Session.bus?, h, buses_insert]
  rfl

namespace Run

variable {α β : Type} {s t : Session}

theorem bind_eq_ok {x : Run α} {f : α → Run β} {b : β} : outcome (x >>= f) s = (.ok b, t) ↔
    ∃ a u, outcome x s = (.ok a, u) ∧ outcome (f a) u = (.ok b, t) := by
  constructor
  · exact outcome_bind_ok
  · rintro ⟨a, u, hx, hf⟩
    rw [outcome_bind, hx]
    exact hf

theorem pure_eq_ok {a b : α} : outcome (pure a : Run α) s = (.ok b, t) ↔ a = b ∧ s = t := by
  rw [outcome_pure, Prod.mk.injEq, Except.ok.injEq]

theorem get_eq_ok {a : Session} : outcome (get : Run Session) s = (.ok a, t) ↔ s = a ∧ s = t := by
  rw [outcome_get, Prod.mk.injEq, Except.ok.injEq]

theorem modify_eq_ok {f : Session → Session} {u : Unit} :
    outcome (modify f : Run Unit) s = (.ok u, t) ↔ f s = t := by
  rw [outcome_modify, Prod.mk.injEq, Except.ok.injEq]
  exact and_iff_right rfl

theorem ask_eq_ok {f : Session → Except Error α} {a : α} :
    outcome (ask f) s = (.ok a, t) ↔ f s = .ok a ∧ s = t := by
  constructor
  · exact ask_ok
  · rintro ⟨hf, rfl⟩
    rw [outcome_ask, hf]
    rfl

theorem wire_eq_ok {x : Attempt Error Netlist α} {a : α} : outcome (wire x) s = (.ok a, t) ↔
    ∃ net, outcome x s.netlist = (.ok a, net) ∧ t = { s with netlist := net } := by
  constructor
  · exact wire_ok
  · rintro ⟨net, hx, rfl⟩
    show ((outcome x s.netlist).1.mapError _, { s with netlist := (outcome x s.netlist).2 }) = _
    rw [hx]
    rfl

theorem outcome_on (line : Line) (x : Run α) (s : Session) :
    outcome (on line x) s = ((outcome x s).1.mapError (·.atLine line.number), (outcome x s).2) := rfl

theorem on_eq_ok {line : Line} {x : Run α} {a : α} :
    outcome (on line x) s = (.ok a, t) ↔ outcome x s = (.ok a, t) := by
  constructor
  · exact on_ok
  · intro h
    rw [outcome_on, h]
    rfl

theorem check_eq_ok {c : Prop} [Decidable c] {e : Error} {f : PUnit → Run α} {a : α} :
    outcome (if c then raise e >>= f else f ⟨⟩) s = (.ok a, t) ↔
      ¬ c ∧ outcome (f ⟨⟩) s = (.ok a, t) := by
  constructor
  · exact outcome_check_ok
  · rintro ⟨hc, hf⟩
    rwa [if_neg hc]

theorem setBus_eq_ok {name : String} {b : Bus} {u : Unit} : outcome (setBus name b) s = (.ok u, t) ↔
    { s with buses := s.buses.insert name b } = t := modify_eq_ok

theorem setCounter_eq_ok {counter : Option Nat} {u : Unit} :
    outcome (setCounter counter) s = (.ok u, t) ↔ { s with counter } = t := modify_eq_ok

theorem setCursor_eq_ok {cursor : Nat} {u : Unit} :
    outcome (setCursor cursor) s = (.ok u, t) ↔ { s with cursor } = t := modify_eq_ok

theorem nextLine_eq_ok {line : Line} : outcome nextLine s = (.ok line, t) ↔
    s.lines[s.cursor]? = some line ∧ { s with cursor := s.cursor + 1 } = t := by
  unfold nextLine
  rw [bind_eq_ok]
  simp only [get_eq_ok]
  constructor
  · rintro ⟨_, _, ⟨rfl, rfl⟩, h⟩
    split at h
    · cases h
    · rename_i line' hline
      simp only [bind_eq_ok, setCursor_eq_ok, pure_eq_ok] at h
      obtain ⟨_, _, rfl, rfl, rfl⟩ := h
      exact ⟨hline, rfl⟩
  · rintro ⟨hline, rfl⟩
    refine ⟨s, s, ⟨rfl, rfl⟩, ?_⟩
    rw [hline]
    rfl

/-! ### Rows of lines -/

theorem body_succ_eq_ok {each : Line → Run α} {budget : Nat} {as : List α} :
    outcome (body each (budget + 1)) s = (.ok as, t) ↔ ∃ line, s.lines[s.cursor]? = some line ∧
      ((line.isEnd = true ∧ as = [] ∧ { s with cursor := s.cursor + 1 } = t) ∨
        (line.isEnd = false ∧ ∃ a as' u, as = a :: as' ∧
          outcome (each line) { s with cursor := s.cursor + 1 } = (.ok a, u) ∧
          outcome (body each budget) u = (.ok as', t))) := by
  rw [body, bind_eq_ok]
  simp only [nextLine_eq_ok]
  constructor
  · rintro ⟨line, _, ⟨hline, rfl⟩, h⟩
    refine ⟨line, hline, ?_⟩
    by_cases hend : line.isEnd = true
    · rw [if_pos hend, pure_eq_ok] at h
      exact .inl ⟨hend, h.1.symm, h.2⟩
    · rw [if_neg hend] at h
      simp only [bind_eq_ok, pure_eq_ok] at h
      obtain ⟨a, u, hu, as', _, hbody, rfl, rfl⟩ := h
      exact .inr ⟨by simpa using hend, a, as', u, rfl, hu, hbody⟩
  · rintro ⟨line, hline, ⟨hend, rfl, rfl⟩ | ⟨hend, a, as', u, rfl, hu, hbody⟩⟩
    · exact ⟨line, _, ⟨hline, rfl⟩, by rw [if_pos hend]; rfl⟩
    · refine ⟨line, _, ⟨hline, rfl⟩, ?_⟩
      rw [if_neg (by rw [hend]; exact Bool.false_ne_true)]
      simp only [bind_eq_ok, pure_eq_ok]
      exact ⟨a, u, hu, as', t, hbody, rfl, rfl⟩

theorem upTo_succ_eq_ok {each : Line → Run Unit} {stop budget : Nat} {r : Unit} :
    outcome (upTo each stop (budget + 1)) s = (.ok r, t) ↔
      (stop ≤ s.cursor ∧ s = t) ∨ (s.cursor < stop ∧ ∃ line u, s.lines[s.cursor]? = some line ∧
        outcome (each line) { s with cursor := s.cursor + 1 } = (.ok (), u) ∧
        outcome (upTo each stop budget) u = (.ok r, t)) := by
  rw [upTo, bind_eq_ok]
  simp only [get_eq_ok]
  constructor
  · rintro ⟨_, _, ⟨rfl, rfl⟩, h⟩
    by_cases hlt : s.cursor < stop
    · rw [if_pos hlt] at h
      simp only [bind_eq_ok, nextLine_eq_ok] at h
      obtain ⟨line, _, ⟨hline, rfl⟩, _, u, hu, hup⟩ := h
      exact .inr ⟨hlt, line, u, hline, hu, hup⟩
    · rw [if_neg hlt, pure_eq_ok] at h
      exact .inl ⟨Nat.le_of_not_lt hlt, h.2⟩
  · rintro (⟨hle, rfl⟩ | ⟨hlt, line, u, hline, hu, hup⟩)
    · refine ⟨s, s, ⟨rfl, rfl⟩, ?_⟩
      rw [if_neg (Nat.not_lt_of_le hle), pure_eq_ok]
      exact ⟨rfl, rfl⟩
    · refine ⟨s, s, ⟨rfl, rfl⟩, ?_⟩
      rw [if_pos hlt]
      simp only [bind_eq_ok, nextLine_eq_ok]
      exact ⟨line, _, ⟨hline, rfl⟩, (), u, hu, hup⟩

/-- Where the cursor has come far enough, there is nothing to do. -/
theorem upTo_of_le {each : Line → Run Unit} {stop : Nat} (h : stop ≤ s.cursor) (budget : Nat) :
    outcome (upTo each stop budget) s = (.ok (), s) := by
  cases budget with
  | zero => rfl
  | succ budget => exact upTo_succ_eq_ok.mpr (.inl ⟨h, rfl⟩)

theorem between_eq_ok {each : Line → Run Unit} {start stop : Nat} {r : Unit} :
    outcome (between each start stop) s = (.ok r, t) ↔
      ∃ u, outcome (upTo each stop (stop - start)) { s with cursor := start } = (.ok (), u) ∧
        { u with cursor := s.cursor } = t := by
  unfold between
  simp only [bind_eq_ok, get_eq_ok, setCursor_eq_ok]
  constructor
  · rintro ⟨_, _, ⟨rfl, rfl⟩, _, _, rfl, _, u, hup, rfl⟩
    exact ⟨u, hup, rfl⟩
  · rintro ⟨u, hup, rfl⟩
    exact ⟨s, s, ⟨rfl, rfl⟩, (), _, rfl, (), u, hup, rfl⟩

theorem passes_succ_eq_ok {pass : Nat → Run Unit} {n k : Nat} {r : Unit} :
    outcome (passes pass (n + 1) k) s = (.ok r, t) ↔ ∃ u, outcome (pass k) s = (.ok (), u) ∧
      outcome (passes pass n (k + 1)) u = (.ok r, t) := by
  rw [passes, bind_eq_ok]
  constructor
  · rintro ⟨_, u, hu, h⟩
    exact ⟨u, hu, h⟩
  · rintro ⟨u, hu, h⟩
    exact ⟨(), u, hu, h⟩

end Run

/-! ### Constructs -/

/-- A formula succeeds only if nothing is left over. -/
theorem formula_fault {terms : List Term} {fault : Option Mismatch} {b : Bus} {s t : Session}
    (h : outcome (formula terms fault) s = (.ok b, t)) : fault = none := by
  obtain ⟨_, _, _, h⟩ := bind_eq_ok.mp h
  obtain ⟨_, _, _, h⟩ := bind_eq_ok.mp h
  obtain ⟨_, _, _, h⟩ := bind_eq_ok.mp h
  obtain ⟨_, _, h, _⟩ := bind_eq_ok.mp h
  obtain ⟨h, _⟩ := ask_eq_ok.mp h
  cases fault with
  | none => rfl
  | some m => cases h

/-- The session once a target without a slot has been given its value. -/
def Target.give (target : Target) (b : Bus) (s : Session) : Session :=
  match target with
  | .port name => { s with netlist := s.netlist.registerPort name b, buses := s.buses.insert name b }
  | _ => { s with buses := s.buses.insert target.name b }

theorem bindSlot_eq_ok {name : String} {i : Nat} {value : Bus} {s t : Session} {r : Unit} :
    outcome (bindSlot name i value) s = (.ok r, t) ↔ ∃ gate whole bound, value.width = 1 ∧
      value.gate 0 = .ok gate ∧ s.lookup name = .ok whole ∧ whole.bind i gate = .ok bound ∧
      t = { s with buses := s.buses.insert name bound } := by
  unfold bindSlot
  simp only [bind_eq_ok, check_eq_ok, ask_eq_ok, setBus_eq_ok, not_not]
  constructor
  · rintro ⟨hwidth, bound, _, ⟨hbind, rfl⟩, rfl⟩
    obtain ⟨gate, hgate, hbind⟩ := except_bind_ok hbind
    obtain ⟨whole, hwhole, hbind⟩ := except_bind_ok hbind
    exact ⟨gate, whole, bound, hwidth, hgate, hwhole, hbind, rfl⟩
  · rintro ⟨gate, whole, bound, hwidth, hgate, hwhole, hbind, rfl⟩
    refine ⟨hwidth, bound, s, ⟨?_, rfl⟩, rfl⟩
    rw [hgate]
    show (s.lookup name >>= fun whole => whole.bind i gate) = _
    rw [hwhole]
    exact hbind

namespace Nested

variable {n : Nested} {s t : Session}

theorem pass_eq_ok {target source : String} {width start stop k : Nat} {r : Unit} :
    outcome (n.pass target source width start stop k) s = (.ok r, t) ↔ ∃ u next,
      outcome (upTo n.statement stop (stop - start))
        { s with cursor := start, buses := s.buses.insert target (.unbound width), counter := some k } =
          (.ok (), u) ∧
      u.lookup target = .ok next ∧
      t = { u with cursor := s.cursor, buses := u.buses.insert source next } := by
  unfold pass
  simp only [bind_eq_ok, setBus_eq_ok, setCounter_eq_ok, between_eq_ok, ask_eq_ok]
  constructor
  · rintro ⟨_, _, rfl, _, _, rfl, _, _, ⟨u, hup, rfl⟩, next, _, ⟨hnext, rfl⟩, rfl⟩
    exact ⟨u, next, hup, hnext, rfl⟩
  · rintro ⟨u, next, hup, hnext, rfl⟩
    exact ⟨(), _, rfl, (), _, rfl, (), _, ⟨u, hup, rfl⟩, next, _, ⟨hnext, rfl⟩, rfl⟩

theorem loop_eq_ok {target : String} {count : Index} {source : Except Mismatch String} {b : Bus} :
    outcome (n.loop target count source) s = (.ok b, t) ↔ ∃ times name length initial u,
      s.index count = .ok times ∧ source = .ok name ∧ target ≠ "" ∧ bodyLength? 0 s.rest = some length ∧
      s.lookup name = .ok initial ∧
      outcome (passes (n.pass target name initial.width s.cursor (s.cursor + length)) times 0)
        { s with cursor := s.cursor + length + 1 } = (.ok (), u) ∧
      u.lookup target = .ok b ∧
      t = { u with buses := u.buses.insert name initial, counter := s.counter } := by
  unfold loop
  simp only [bind_eq_ok, ask_eq_ok, check_eq_ok, get_eq_ok, setCursor_eq_ok, setBus_eq_ok, setCounter_eq_ok,
    pure_eq_ok]
  constructor
  · rintro ⟨times, _, ⟨htimes, rfl⟩, name, _, ⟨hname, rfl⟩, htarget, _, _, ⟨rfl, rfl⟩, length, _,
      ⟨hlength, rfl⟩, _, _, rfl, initial, _, ⟨hinitial, rfl⟩, _, _, ⟨rfl, rfl⟩, _, u, hpasses, result, _,
      ⟨hresult, rfl⟩, _, _, rfl, _, _, rfl, rfl, rfl⟩
    refine ⟨times, name, length, initial, u, htimes, except_mapError_ok hname, htarget, ?_, hinitial, hpasses,
      hresult, rfl⟩
    rw [Session.rest]
    cases hb : bodyLength? 0 (s.lines.toList.drop s.cursor) with
    | none =>
      rw [hb] at hlength
      cases hlength
    | some n =>
      rw [hb] at hlength
      cases hlength
      rfl
  · rintro ⟨times, name, length, initial, u, htimes, rfl, htarget, hlength, hinitial, hpasses, hresult, rfl⟩
    refine ⟨times, _, ⟨htimes, rfl⟩, name, _, ⟨rfl, rfl⟩, htarget, _, _, ⟨rfl, rfl⟩, length, _, ⟨?_, rfl⟩,
      (), _, rfl, initial, _, ⟨hinitial, rfl⟩, _, _, ⟨rfl, rfl⟩, (), u, hpasses, b, _, ⟨hresult, rfl⟩,
      (), _, rfl, (), _, rfl, rfl, rfl⟩
    rw [Session.rest] at hlength
    rw [hlength]

theorem select_eq_ok {selector : Ref} {fault : Option Mismatch} {b : Bus} :
    outcome (n.select selector fault) s = (.ok b, t) ↔ ∃ bus branches u net,
      s.ref selector = .ok bus ∧ fault = none ∧
      outcome (body n.branch (s.lines.size - s.cursor)) s = (.ok branches, u) ∧
      outcome (Netlist.multiplex bus branches) u.netlist = (.ok b, net) ∧ t = { u with netlist := net } := by
  have hfault {r : Unit} : Session.checkText fault = .ok r ↔ fault = none := by
    cases fault with
    | none => exact ⟨fun _ => rfl, fun _ => rfl⟩
    | some m => exact ⟨nofun, nofun⟩
  unfold select
  simp only [bind_eq_ok, ask_eq_ok, get_eq_ok, wire_eq_ok, hfault]
  constructor
  · rintro ⟨bus, _, ⟨hbus, rfl⟩, _, _, ⟨rfl, rfl⟩, _, _, ⟨rfl, rfl⟩, branches, u, hbody, net, hnet, rfl⟩
    exact ⟨bus, branches, u, net, hbus, rfl, hbody, hnet, rfl⟩
  · rintro ⟨bus, branches, u, net, hbus, rfl, hbody, hnet, rfl⟩
    exact ⟨bus, _, ⟨hbus, rfl⟩, (), _, ⟨rfl, rfl⟩, _, _, ⟨rfl, rfl⟩, branches, u, hbody, net, hnet, rfl⟩

theorem receive_eq_ok {target : Target} {slot : Option Nat} {b : Bus} {r : Unit} :
    outcome (target.receive slot b) s = (.ok r, t) ↔ b.isEmpty = false ∧
      ((∃ i, slot = some i ∧ outcome (bindSlot target.name i b) s = (.ok (), t)) ∨
        (slot = none ∧ t = target.give b s)) := by
  unfold Target.receive
  simp only [check_eq_ok, Bool.not_eq_true]
  refine and_congr_right fun _ => ?_
  cases slot with
  | some i => simp
  | none =>
    cases target with
    | bus name => simpa [setBus_eq_ok, Target.give] using eq_comm
    | slot name i => simpa [setBus_eq_ok, Target.give] using eq_comm
    | port name => simpa [bind_eq_ok, modify_eq_ok, setBus_eq_ok, Target.give, Target.name] using eq_comm

theorem assign_eq_ok {target : Target} {value : Except Mismatch Value} {r : Unit} :
    outcome (n.assign target value) s = (.ok r, t) ↔ ∃ slot v b u, target.check s = .ok slot ∧
      value = .ok v ∧ outcome (n.evaluate target.name v) s = (.ok b, u) ∧ b.isEmpty = false ∧
      ((∃ i, slot = some i ∧ outcome (bindSlot target.name i b) u = (.ok (), t)) ∨
        (slot = none ∧ t = target.give b u)) := by
  unfold assign
  simp only [bind_eq_ok, ask_eq_ok, receive_eq_ok]
  constructor
  · rintro ⟨slot, _, ⟨hslot, rfl⟩, v, _, ⟨hv, rfl⟩, b, u, hb, h⟩
    exact ⟨slot, v, b, u, hslot, except_mapError_ok hv, hb, h⟩
  · rintro ⟨slot, v, b, u, hslot, rfl, hb, h⟩
    exact ⟨slot, s, ⟨hslot, rfl⟩, v, s, ⟨rfl, rfl⟩, b, u, hb, h⟩

theorem declare_eq_ok {name : String} {width : Nat} {r : Unit} :
    outcome (n.execute (.declare name width)) s = (.ok r, t) ↔
      s.checkWidth width = .ok () ∧ t = { s with buses := s.buses.insert name (.unbound width) } := by
  unfold execute
  simp only [bind_eq_ok, ask_eq_ok, setBus_eq_ok]
  constructor
  · rintro ⟨_, _, ⟨hwidth, rfl⟩, rfl⟩
    exact ⟨hwidth, rfl⟩
  · rintro ⟨hwidth, rfl⟩
    exact ⟨(), s, ⟨hwidth, rfl⟩, rfl⟩

theorem input_eq_ok {name : String} {width : Nat} {r : Unit} :
    outcome (n.execute (.input name width)) s = (.ok r, t) ↔
      ∃ b net, outcome (Netlist.addInput name width) s.netlist = (.ok b, net) ∧
        t = { s with netlist := net, buses := s.buses.insert name b } := by
  unfold execute
  simp only [bind_eq_ok, wire_eq_ok, setBus_eq_ok]
  constructor
  · rintro ⟨b, _, ⟨net, hnet, rfl⟩, rfl⟩
    exact ⟨b, net, hnet, rfl⟩
  · rintro ⟨b, net, hnet, rfl⟩
    exact ⟨b, _, ⟨net, hnet, rfl⟩, rfl⟩

theorem block_eq_ok {r : Unit} : outcome (n.execute .block) s = (.ok r, t) ↔
    ∃ rs, outcome (body n.statement (s.lines.size - s.cursor)) s = (.ok rs, t) := by
  unfold execute
  simp only [bind_eq_ok, get_eq_ok, pure_eq_ok]
  constructor
  · rintro ⟨_, _, ⟨rfl, rfl⟩, rs, _, hbody, _, rfl⟩
    exact ⟨rs, hbody⟩
  · rintro ⟨rs, hbody⟩
    exact ⟨_, _, ⟨rfl, rfl⟩, rs, _, hbody, trivial, rfl⟩

end Nested

end BusLogic.Script
