import BusLogic.Proofs.Script.Growth
import BusLogic.Proofs.Script.Steps
import BusLogic.Proofs.Netlist.Wiring

/-! What a single statement may change.

Until it has its value, a statement only adds gates: names, constants and ports are as
they were, and so is every gate but for its readers (`Session.Quiet`). That holds of
formulas and of selections, however deep they are nested, since a loop cannot be a branch.
What a statement does to the names comes after the last step that may fail, so a
statement that fails has changed none of them, and one that succeeds has changed its own
(`Statement.Frame`). -/
namespace BusLogic.Script
open Attempt Run

/-- Gates may have been added, and the lines may have been read further; nothing else is
different. -/
structure Session.Quiet (s t : Session) : Prop where
  buses : t.buses = s.buses
  counter : t.counter = s.counter
  ports : t.netlist.ports = s.netlist.ports
  gates : s.netlist.Appends t.netlist

open Session (Quiet)

instance : IsPreorder Session Quiet where
  refl s := ⟨rfl, rfl, rfl, refl s.netlist⟩
  trans _ _ _ hab hbc := ⟨hbc.buses.trans hab.buses, hbc.counter.trans hab.counter, hbc.ports.trans hab.ports,
    IsTrans.trans _ _ _ hab.gates hbc.gates⟩

/-! ### Values -/

theorem quiet_of_wires (s : Session) (net : Netlist) (h : s.netlist.Wires net) :
    s.Quiet { s with netlist := net } := ⟨rfl, rfl, h.frame.1, h.appends⟩

theorem quiet_source (op : Opcode) : (wire (Netlist.allocate op none none)).Keeps Quiet :=
  fun s => ⟨rfl, rfl, Netlist.ports_allocate op none none s.netlist, Netlist.appends_allocate op none none s.netlist⟩

theorem quiet_setCursor (cursor : Nat) : (setCursor cursor).Keeps Quiet :=
  fun s => ⟨rfl, rfl, rfl, refl s.netlist⟩

theorem quiet_nextLine : nextLine.Keeps Quiet := by
  refine .bind .get fun s => ?_
  split
  · exact .throw _
  · exact .bind (quiet_setCursor _) fun _ => .pure _

theorem quiet_on {α : Type} (line : Line) {x : Run α} (h : x.Keeps Quiet) : (on line x).Keeps Quiet := h

theorem quiet_body {α : Type} {each : Line → Run α} (h : ∀ line, (each line).Keeps Quiet) (budget : Nat) :
    (body each budget).Keeps Quiet := by
  induction budget with
  | zero => exact .throw _
  | succ budget ih =>
    refine .bind quiet_nextLine fun line => .ite (.pure _) ?_
    exact .bind (h line) fun _ => .bind ih fun _ => .pure _

/-- No construct makes more of a selection than its branches do. -/
theorem quiet_select {n : Nested} (h : ∀ line, (n.branch line).Keeps Quiet) (selector : Ref)
    (fault : Option Mismatch) : (n.select selector fault).Keeps Quiet :=
  .bind (keeps_ask _) fun bus => .bind (keeps_ask _) fun _ => .bind .get fun _ =>
    .bind (quiet_body h _) fun branches => keeps_wire quiet_of_wires (Netlist.wires_multiplex bus branches)

/-- A loop that has no target is refused before it does anything. -/
theorem quiet_loop (n : Nested) (count : Index) (source : Except Mismatch String) :
    (n.loop "" count source).Keeps Quiet := by
  refine .bind (keeps_ask _) fun _ => .bind (keeps_ask _) fun _ => ?_
  rw [if_pos rfl]
  exact fun s => refl s

theorem quiet_value {n : Nested} (h : ∀ line, (n.branch line).Keeps Quiet) {target : String} {v : Value}
    (hv : target = "" ∨ ∀ count source, v ≠ .loop count source) : (n.evaluate target v).Keeps Quiet := by
  cases v with
  | fault m => exact .throw _
  | loop count source =>
    rcases hv with rfl | hv
    · exact quiet_loop n count source
    · exact absurd rfl (hv count source)
  | select selector fault => exact quiet_select h selector fault
  | formula terms fault => exact keeps_formula quiet_of_wires quiet_source terms fault

theorem quiet_branch (depth : Nat) (line : Line) : ((nested depth).branch line).Keeps Quiet := by
  induction depth generalizing line with
  | zero => exact .throw _
  | succ depth ih => exact quiet_on line (quiet_value ih (.inl rfl))

/-! ### Statements -/

namespace Statement

/-- The bus that is declared or assigned to. -/
def name? : Statement → Option String
  | .declare name _ | .input name _ => some name
  | .assign target _ => some target.name
  | .fault _ | .block => none

/-- The port that is shown. -/
def port? : Statement → Option String
  | .input name _ => some name
  | .assign (.port name) _ => some name
  | _ => none

/-- Neither a block nor a loop. -/
def single : Statement → Bool
  | .block => false
  | .assign _ (.ok (.loop _ _)) => false
  | _ => true

/-- All that a statement which succeeds does to the names: other buses and ports are as they
were, a port shows the bus of its name, and an assignment to a slot binds this slot, which
was unbound, and no other. -/
structure Frame (st : Statement) (s t : Session) : Prop where
  buses : ∀ other, st.name? ≠ some other → t.bus? other = s.bus? other
  ports : ∀ other, st.port? ≠ some other → t.netlist.port? other = s.netlist.port? other
  shown : ∀ name, st.port? = some name → ∃ b, t.bus? name = some b ∧ t.netlist.port? name = some b
  slot : ∀ name i v, st = .assign (.slot name i) v → ∃ k b b' gate, s.index i = .ok k ∧
    s.bus? name = some b ∧ t.bus? name = some b' ∧ b.slots[k]? = some none ∧ b'.slots = b.slots.set k (some gate)

end Statement

section Statements
variable {n : Nested} {s t : Session} {e : Failure}

/-- Inputs that do not fit show no port. -/
theorem addInput_failsKeeping (name : String) (width : Nat) :
    FailsKeeping Quiet (wire (Netlist.addInput name width)) s := by
  intro e t h
  have hports := Netlist.ports_allocateInputs width s.netlist
  have hgates := Netlist.appends_allocateInputs width s.netlist
  have hout : outcome (wire (Netlist.addInput name width)) s =
      ((outcome (Netlist.addInput name width) s.netlist).1.mapError .of,
        { s with netlist := (outcome (Netlist.addInput name width) s.netlist).2 }) := rfl
  rw [hout, Netlist.outcome_addInput] at h
  generalize outcome (Netlist.allocateInputs width) s.netlist = r at hports hgates h
  rcases r with ⟨_ | _, net⟩
  · cases h
    exact ⟨rfl, rfl, hports.symm, hgates⟩
  · cases h

theorem bindSlot_failsKeeping (name : String) (i : Nat) (value : Bus) :
    FailsKeeping Quiet (bindSlot name i value) s := by
  rw [bindSlot]
  exact .check (.bind (keeps_ask _) fun _ _ _ => .modify _)

theorem receive_failsKeeping (target : Target) (slot : Option Nat) (bus : Bus) :
    FailsKeeping Quiet (target.receive slot bus) s := by
  unfold Target.receive
  refine .check ?_
  cases slot with
  | some i => exact bindSlot_failsKeeping _ i bus
  | none =>
    cases target with
    | bus name => exact .modify _
    | slot name i => exact .modify _
    | port name =>
      intro e t ho
      cases ho

theorem assign_failsKeeping {target : Target} {value : Except Mismatch Value}
    (hsingle : (Statement.assign target value).single = true) (h : ∀ line, (n.branch line).Keeps Quiet) :
    FailsKeeping Quiet (n.assign target value) s := by
  refine .bind (keeps_ask _) fun slot s₁ _ => .bind (keeps_ask _) fun v s₂ hask => ?_
  obtain ⟨hv, rfl⟩ := ask_eq_ok.mp hask
  obtain rfl := except_mapError_ok hv
  have hvalue : (n.evaluate target.name v).Keeps Quiet :=
    quiet_value h (.inr fun count source hloop => by subst hloop; cases hsingle)
  exact .bind hvalue fun bus s₃ _ => receive_failsKeeping target slot bus

/-- A statement that fails has only added gates. -/
theorem execute_failsKeeping {st : Statement} (hsingle : st.single = true)
    (h : ∀ line, (n.branch line).Keeps Quiet) : FailsKeeping Quiet (n.execute st) s := by
  cases st with
  | fault m => exact Keeps.failsKeeping (.throw _) s
  | block => cases hsingle
  | declare name width => exact .bind (keeps_ask _) fun _ _ _ => .modify _
  | input name width =>
    exact (addInput_failsKeeping name width).modify_after fun b s => { s with buses := s.buses.insert name b }
  | assign target value => exact assign_failsKeeping hsingle h

/-! ### What success changes -/

/-- A statement that gives its name a bus, and shows it if it shows a port, changes nothing
else. -/
theorem Statement.Frame.of_insert {st : Statement} {name : String} {b : Bus} (hname : st.name? = some name)
    (hbuses : t.buses = s.buses.insert name b)
    (hports : st.port? = none ∧ t.netlist.ports = s.netlist.ports ∨
      st.port? = some name ∧ t.netlist.ports = s.netlist.ports.insert name b)
    (hslot : ∀ name i v, st = .assign (.slot name i) v → ∃ k whole bound gate, s.index i = .ok k ∧
      s.bus? name = some whole ∧ t.bus? name = some bound ∧ whole.slots[k]? = some none ∧
      bound.slots = whole.slots.set k (some gate)) : st.Frame s t := by
  have hbus := bus?_of_insert hbuses
  refine ⟨fun other hother => ?_, fun other hother => ?_, fun other hother => ?_, hslot⟩
  · rw [hbus, if_neg]
    rintro rfl
    exact hother hname
  · rcases hports with ⟨_, hports⟩ | ⟨hport, hports⟩
    · rw [Netlist.port?, hports]
      rfl
    · rw [Netlist.port?, hports, buses_insert, if_neg]
      · rfl
      · rintro rfl
        exact hother hport
  · rcases hports with ⟨hport, _⟩ | ⟨hport, hports⟩
    · rw [hport] at hother
      cases hother
    · rw [hport] at hother
      cases hother
      refine ⟨b, by rw [hbus, if_pos rfl], ?_⟩
      rw [Netlist.port?, hports, buses_insert, if_pos rfl]

theorem frame_declare {name : String} {width : Nat}
    (h : outcome (n.execute (.declare name width)) s = (.ok (), t)) :
    (Statement.declare name width).Frame s t ∧ t.counter = s.counter ∧ s.netlist.Appends t.netlist := by
  obtain ⟨_, rfl⟩ := Nested.declare_eq_ok.mp h
  exact ⟨.of_insert rfl rfl (.inl ⟨rfl, rfl⟩) (fun _ _ _ h => nomatch h), rfl, refl s.netlist⟩

theorem frame_input {name : String} {width : Nat}
    (h : outcome (n.execute (.input name width)) s = (.ok (), t)) :
    (Statement.input name width).Frame s t ∧ t.counter = s.counter ∧ s.netlist.Appends t.netlist := by
  obtain ⟨b, net, hadd, rfl⟩ := Nested.input_eq_ok.mp h
  have hgates := (Netlist.appends_addInput name width).reached hadd
  have hports := Netlist.ports_allocateInputs width s.netlist
  rw [Netlist.outcome_addInput] at hadd
  generalize outcome (Netlist.allocateInputs width) s.netlist = r at hports hadd
  rcases r with ⟨_ | _, net₁⟩
  · cases hadd
  · cases hadd
    refine ⟨.of_insert rfl rfl (.inr ⟨rfl, ?_⟩) (fun _ _ _ h => nomatch h), rfl, hgates⟩
    show net₁.ports.insert name _ = _
    rw [hports]

/-- The slot that is given a value was checked before the value was known, and is bound after. -/
theorem frame_slot {name : String} {i : Index} {value : Except Mismatch Value} {k : Nat} {b : Bus} {u : Session}
    (hcheck : (Target.slot name i).check s = .ok (some k)) (hquiet : s.Quiet u)
    (h : outcome (bindSlot name k b) u = (.ok (), t)) :
    (Statement.assign (.slot name i) value).Frame s t ∧ t.counter = s.counter ∧ s.netlist.Appends t.netlist := by
  obtain ⟨gate, whole, bound, _, _, hwhole, hbind, rfl⟩ := bindSlot_eq_ok.mp h
  obtain ⟨hfree, hslots⟩ := Bus.bind_eq_ok hbind
  have hbuses : u.buses.insert name bound = s.buses.insert name bound := by rw [hquiet.buses]
  refine ⟨.of_insert rfl hbuses (.inl ⟨rfl, hquiet.ports⟩) ?_, hquiet.counter, hquiet.gates⟩
  rintro _ _ _ ⟨⟩
  obtain ⟨_, _, hcheck⟩ := except_bind_ok hcheck
  obtain ⟨k', hindex, hcheck⟩ := except_bind_ok hcheck
  have hk : k' = k := by
    split at hcheck
    · cases hcheck
      rfl
    · cases hcheck
  have hbus : s.bus? name = some whole := by
    have hat := Session.lookup_ok hwhole
    rwa [Session.bus?, hquiet.buses] at hat
  exact ⟨k, whole, bound, gate, hk ▸ hindex, hbus, by rw [bus?_of_insert hbuses, if_pos rfl], hfree, hslots⟩

theorem frame_assign {target : Target} {value : Except Mismatch Value}
    (hsingle : (Statement.assign target value).single = true) (hbranch : ∀ line, (n.branch line).Keeps Quiet)
    (h : outcome (n.execute (.assign target value)) s = (.ok (), t)) :
    (Statement.assign target value).Frame s t ∧ t.counter = s.counter ∧ s.netlist.Appends t.netlist := by
  obtain ⟨slot, v, b, u, hcheck, rfl, heval, _, hgiven⟩ := Nested.assign_eq_ok.mp h
  have hvalue : (n.evaluate target.name v).Keeps Quiet :=
    quiet_value hbranch (.inr fun count source hloop => by subst hloop; cases hsingle)
  have hquiet := hvalue.reached heval
  rcases hgiven with ⟨k, rfl, hbind⟩ | ⟨rfl, rfl⟩
  · cases target with
    | bus name => cases hcheck
    | port name => cases hcheck
    | slot name i => exact frame_slot hcheck hquiet hbind
  · cases target with
    | bus name =>
      have hbuses : u.buses.insert name b = s.buses.insert name b := by rw [hquiet.buses]
      exact ⟨.of_insert rfl hbuses (.inl ⟨rfl, hquiet.ports⟩) (fun _ _ _ h => nomatch h), hquiet.counter, hquiet.gates⟩
    | port name =>
      have hbuses : u.buses.insert name b = s.buses.insert name b := by rw [hquiet.buses]
      have hports : u.netlist.ports.insert name b = s.netlist.ports.insert name b := by rw [hquiet.ports]
      exact ⟨.of_insert rfl hbuses (.inr ⟨rfl, hports⟩) (fun _ _ _ h => nomatch h), hquiet.counter, hquiet.gates⟩
    | slot name i =>
      -- the check of a slot answers with its number
      obtain ⟨_, _, hcheck⟩ := except_bind_ok hcheck
      obtain ⟨_, _, hcheck⟩ := except_bind_ok hcheck
      split at hcheck <;> cases hcheck

theorem frame_execute {st : Statement} (hsingle : st.single = true) (hbranch : ∀ line, (n.branch line).Keeps Quiet)
    (h : outcome (n.execute st) s = (.ok (), t)) :
    st.Frame s t ∧ t.counter = s.counter ∧ s.netlist.Appends t.netlist := by
  cases st with
  | fault m => cases h
  | block => cases hsingle
  | declare name width => exact frame_declare h
  | input name width => exact frame_input h
  | assign target value => exact frame_assign hsingle hbranch h

end Statements

/-- **A single statement changes the entry of its name, or nothing.** Carried out at any
session, a line that is neither a block nor assigns a loop leaves the constants alone, and
every gate but for its readers. If it fails, all names and ports are as they were; if it
succeeds, all but its own are (`Statement.Frame`). -/
theorem statement_frame (depth : Nat) (line : Line) (hline : (statement line.text).single = true) (s t : Session)
    (r : Except Failure Unit) (h : outcome ((nested depth).statement line) s = (r, t)) :
    s.netlist.Appends t.netlist ∧ (∀ name, t.constant? name = s.constant? name) ∧
      (r = .ok () → (statement line.text).Frame s t) ∧
      ∀ e, r = .error e → t.buses = s.buses ∧ t.netlist.ports = s.netlist.ports := by
  have hconstant (hcounter : t.counter = s.counter) (name : String) : t.constant? name = s.constant? name := by
    rw [Session.constant?, hcounter]
    rfl
  cases depth with
  | zero =>
    cases h
    exact ⟨refl _, fun _ => rfl, nofun, fun _ _ => ⟨rfl, rfl⟩⟩
  | succ depth =>
    have hon := outcome_on line ((nested depth).execute (statement line.text)) s
    obtain ⟨hr, ht⟩ := Prod.mk.inj (hon.symm.trans h)
    cases hout : (outcome ((nested depth).execute (statement line.text)) s).1 with
    | ok _ =>
      obtain ⟨hframe, hcounter, hgates⟩ := frame_execute hline (quiet_branch depth) (Prod.ext hout ht)
      rw [← hr, hout]
      exact ⟨hgates, hconstant hcounter, fun _ => hframe, nofun⟩
    | error e =>
      have hquiet := execute_failsKeeping hline (quiet_branch depth) e t (Prod.ext hout ht)
      rw [← hr, hout]
      exact ⟨hquiet.gates, hconstant hquiet.counter, nofun, fun _ _ => ⟨hquiet.buses, hquiet.ports⟩⟩

/-- A selection with another one for a branch gives a slot its value. -/
def slotSample : String :=
  "IN s /1\nIN a /2\nt /2\nt.1 = SELECT(s)\na.0\nSELECT(s)\na.1\nNOT a.0\nEND\nEND\n"

/-- The line of the outer selection. -/
def slotLine : Line := ⟨4, "t.1 = SELECT(s)".toList⟩

/-- A line that wires gates and then fails. -/
def unknownLine : Line := ⟨5, "s = NOT a AND q".toList⟩

/-- The session with the first lines of `slotSample` carried out, and the fourth one read. -/
def slotSession : Session := { (outcome (upTo (nested 3).statement 3 3) (.start slotSample {})).2 with cursor := 4 }

theorem statement_frame_slotSample :
    (∃ t b b' gate, outcome ((nested 3).statement slotLine) slotSession = (.ok (), t) ∧
        t.bus? "a" = slotSession.bus? "a" ∧ slotSession.bus? "t" = some b ∧ t.bus? "t" = some b' ∧
        b.slots[1]? = some none ∧ b'.slots = b.slots.set 1 (some gate)) ∧
      ∃ e t, outcome ((nested 3).statement unknownLine) slotSession = (.error e, t) ∧
        t.buses = slotSession.buses ∧ t.netlist.ports = slotSession.netlist.ports := by
  constructor
  · have hstatement : statement slotLine.text = .assign (.slot "t" (.literal 1)) (.ok (.select ⟨"s", none⟩ none)) := by
      rfl
    obtain ⟨t, ht⟩ : ∃ t, outcome ((nested 3).statement slotLine) slotSession = (.ok (), t) :=
      ⟨_, outcome_of_result (by decide +kernel)⟩
    obtain ⟨_, _, hframe, _⟩ := statement_frame 3 slotLine (by rw [hstatement]; rfl) slotSession t _ ht
    have hslot := (hframe rfl).slot "t" (.literal 1) (.ok (.select ⟨"s", none⟩ none)) hstatement
    obtain ⟨k, b, b', gate, hk, hb, hb', hfree, hset⟩ := hslot
    cases hk
    refine ⟨t, b, b', gate, ht, ?_, hb, hb', hfree, hset⟩
    exact (hframe rfl).buses "a" (by rw [hstatement]; decide)
  · obtain ⟨t, ht⟩ : ∃ t, outcome ((nested 3).statement unknownLine) slotSession =
        (.error ((Failure.of (.undefinedSymbol "q")).atLine 5), t) := ⟨_, outcome_of_result (by decide +kernel)⟩
    obtain ⟨_, _, _, hfail⟩ := statement_frame 3 unknownLine (by decide +kernel) slotSession t _ ht
    exact ⟨_, t, ht, hfail _ rfl⟩

end BusLogic.Script
