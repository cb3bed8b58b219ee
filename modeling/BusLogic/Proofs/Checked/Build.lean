import BusLogic.Proofs.Checked.Expression
import BusLogic.Proofs.Checked.Scanner
import BusLogic.Proofs.Script.Faults

/-! Carrying out a script by position.

A build, step by step as in the session, but with its lines scanned by bytes, its
expressions compiled from a stack that is split, and its buses read, cut, joined and bound
slot by slot. Where the room for gates is less than half of what a word can count, a build
from a sound session is realized in this way (`realizes_build`): it ends as it does with
nothing checked, and no position was missing and no number too large. -/
namespace BusLogic.Script
open Attempt

/-- A checked step of a session. -/
abbrev CheckedRun := Attempt (Halt Failure) Session

namespace Checked
open BusLogic.Checked

variable {α β : Type}

/-! ### Steps -/

def raise (e : Error) : CheckedRun α := throw (.refused (.of e))

def ask (f : Session → Except (Halt Error) α) : CheckedRun α := fun s => ((f s).mapError (.map .of), s)

def wire (x : Attempt (Halt Error) Netlist α) : CheckedRun α := fun ⟨lines, cursor, netlist, buses, counter⟩ =>
  let (r, netlist) := x.outcome netlist
  (r.mapError (.map .of), ⟨lines, cursor, netlist, buses, counter⟩)

def compile (e : Expression Signal) (x : Attempt (Halt Error) (Expression Signal × Netlist) α) :
    CheckedRun (α × Expression Signal) := fun ⟨lines, cursor, netlist, buses, counter⟩ =>
  let (r, (e, netlist)) := x.outcome (e, netlist)
  ((r.map (·, e)).mapError (.map .of), ⟨lines, cursor, netlist, buses, counter⟩)

def on (line : Line) (x : CheckedRun α) : CheckedRun α := fun s =>
  let (r, s) := x.outcome s
  (r.mapError (.map (·.atLine line.number)), s)

def body (each : Line → CheckedRun α) : (budget : Nat) → CheckedRun (List α)
  | 0 => raise .unexpectedEnd
  | budget + 1 => do
    let line ← lift Run.nextLine
    if ← ask fun _ => Line.Checked.isEnd line then return []
    else
      let first ← each line
      let rest ← body each budget
      return first :: rest

def upTo (each : Line → CheckedRun Unit) (stop : Nat) : (budget : Nat) → CheckedRun Unit
  | 0 => pure ()
  | budget + 1 => do
    if (← get).cursor < stop then
      let line ← lift Run.nextLine
      each line
      upTo each stop budget

def between (each : Line → CheckedRun Unit) (start stop : Nat) : CheckedRun Unit := do
  let resume := (← get).cursor
  lift (Run.setCursor start)
  upTo each stop (stop - start)
  lift (Run.setCursor resume)

def passes (pass : Nat → CheckedRun Unit) : (n k : Nat) → CheckedRun Unit
  | 0, _ => pure ()
  | n + 1, k => do
    pass k
    passes pass n (k + 1)

/-! ### References and lists -/

def ref (s : Session) (r : Ref) : Except (Halt Error) Bus := do
  let bus ← unchecked (s.lookup r.name)
  match r.span with
  | none => return bus
  | some span =>
    let first ← unchecked (s.index span.first)
    let last ← match span.last with
      | none => pure first
      | some last => unchecked (s.index last)
    Bus.Checked.slice bus first last

def parts (s : Session) (bus : Bus) : List Ref → Except (Halt Error) Bus
  | [] => .ok bus
  | r :: rest => do
    let part ← ref s r
    let width ← add bus.width part.width
    unchecked (s.checkWidth width)
    let joined ← Bus.Checked.append bus part
    parts s joined rest

def listing (s : Session) (l : Listing) : Except (Halt Error) Bus := do
  let bus ← parts s (.explicit []) l.parts
  unchecked (Session.checkText l.fault)
  return bus

/-! ### Formulas -/

def operand : Operand → CheckedRun Bus
  | .ref r => ask (ref · r)
  | .list l => ask (listing · l)
  | .source op extent => do
    let width ← lift (Run.ask (·.extent extent))
    let gate ← wire (Netlist.Checked.allocate op none none)
    return match width with
      | some width => .explicit (List.replicate width (some gate))
      | none => .single gate
  | .reduction op l => do
    let bus ← ask (listing · l)
    let gate ← wire (Netlist.Checked.reduce op bus)
    return .single gate

def feed (e : Expression Signal) : Term → CheckedRun (Expression Signal)
  | .operand o => do
    let bus ← operand o
    let (_, e) ← lift (Run.compile e (Expression.addOperand (.bus bus)))
    return e
  | .operator op => do
    let (_, e) ← compile e (Expression.Checked.addOperator Signal.Checked.resolve (.operator op))
    return e

def formula (terms : List Term) (fault : Option Mismatch) : CheckedRun Bus := do
  let e ← terms.foldlM feed .empty
  let (result, _) ← compile e (Expression.Checked.compile Signal.Checked.resolve)
  let bus ← lift (Run.ask fun _ => result.toBus)
  lift (Run.ask fun _ => Session.checkText fault)
  return bus

/-! ### Statements -/

/-- The number of lines before the `END` that closes a construct. -/
def bodyLength? (depth : Nat) : List Line → Except (Halt Error) (Option Nat)
  | [] => .ok none
  | line :: rest => do
    if ← Line.Checked.isEnd line then
      match depth with
      | 0 => return some 0
      | depth + 1 => return (← bodyLength? depth rest).map (· + 1)
    else if ← Line.Checked.opens line then return (← bodyLength? (depth + 1) rest).map (· + 1)
    else return (← bodyLength? depth rest).map (· + 1)

/-- What to do with the lines inside a construct. -/
structure Nested where
  statement : Line → CheckedRun Unit
  branch : Line → CheckedRun Bus

namespace Nested

def pass (nested : Nested) (target source : String) (width start stop k : Nat) : CheckedRun Unit := do
  lift (Run.setBus target (.unbound width))
  lift (Run.setCounter (some k))
  between nested.statement start stop
  let next ← lift (Run.ask (·.lookup target))
  lift (Run.setBus source next)

def loop (nested : Nested) (target : String) (count : Index) (source : Except Mismatch String) : CheckedRun Bus := do
  let count ← lift (Run.ask (·.index count))
  let source ← lift (Run.ask fun _ => source.mapError .mismatch)
  if target = "" then
    throw (.refused (.of (.mismatch ⟨"assignment target", "LOOP"⟩)))
  let start := (← get).cursor
  let length ← ask fun s => do
    match ← bodyLength? 0 (s.lines.toList.drop start) with
    | some length => return length
    | none => throw (.refused .unexpectedEnd)
  let stop := start + length
  lift (Run.setCursor (stop + 1))
  let initial ← lift (Run.ask (·.lookup source))
  let outer := (← get).counter
  passes (nested.pass target source initial.width start stop) count 0
  let result ← lift (Run.ask (·.lookup target))
  lift (Run.setBus source initial)
  lift (Run.setCounter outer)
  return result

def select (nested : Nested) (selector : Ref) (fault : Option Mismatch) : CheckedRun Bus := do
  let selector ← ask (ref · selector)
  lift (Run.ask fun _ => Session.checkText fault)
  let s ← get
  let branches ← body nested.branch (s.lines.size - s.cursor)
  wire (Netlist.Checked.multiplex selector branches)

def evaluate (nested : Nested) (target : String) : Value → CheckedRun Bus
  | .fault m => raise (.mismatch m)
  | .loop count source => nested.loop target count source
  | .select selector fault => nested.select selector fault
  | .formula terms fault => formula terms fault

end Nested

def bindSlot (name : String) (i : Nat) (value : Bus) : CheckedRun Unit := do
  if value.width ≠ 1 then
    throw (.refused (.of (.widthMismatch 1 value.width)))
  let bus ← ask fun s => do
    let gate ← Bus.Checked.gate value 0
    let whole ← unchecked (s.lookup name)
    Bus.Checked.bind whole i gate
  lift (Run.setBus name bus)

def receive (target : Target) (slot : Option Nat) (bus : Bus) : CheckedRun Unit := do
  if bus.isEmpty then
    throw (.refused (.of (.malformed (.zeroWidth target.name))))
  match slot with
  | some i => bindSlot target.name i bus
  | none =>
    match target with
    | .port name => modify fun s => { s with netlist := s.netlist.registerPort name bus }
    | _ => pure ()
    lift (Run.setBus target.name bus)

namespace Nested

def assign (nested : Nested) (target : Target) (value : Except Mismatch Value) : CheckedRun Unit := do
  let slot ← lift (Run.ask target.check)
  let value ← lift (Run.ask fun _ => value.mapError .mismatch)
  let bus ← nested.evaluate target.name value
  receive target slot bus

def execute (nested : Nested) : Statement → CheckedRun Unit
  | .fault m => raise (.mismatch m)
  | .block => do
    let s ← get
    let _ ← body nested.statement (s.lines.size - s.cursor)
  | .declare name width => do
    lift (Run.ask (·.checkWidth width))
    lift (Run.setBus name (.unbound width))
  | .input name width => do
    let bus ← wire (Netlist.Checked.addInput name width)
    lift (Run.setBus name bus)
  | .assign target value => nested.assign target value

end Nested

/-- How to carry out lines that open at most `depth` constructs one inside another. -/
def nested : (depth : Nat) → Nested
  | 0 => ⟨fun _ => raise .unexpectedEnd, fun _ => raise .unexpectedEnd⟩
  | depth + 1 =>
    let inner := nested depth
    { statement := fun line => on line do
        let st ← ask fun _ => Line.Checked.statement line
        inner.execute st
      branch := fun line => on line do
        let v ← ask fun _ => Line.Checked.value line
        inner.evaluate "" v }

/-- Carries out the lines from the cursor to the end. -/
def build : CheckedRun Unit := do
  let s ← get
  upTo (nested s.lines.size).statement s.lines.size (s.lines.size - s.cursor)

end Checked

/-! ### Realized steps -/

/-- Sound, with lines as they are left by trimming, and with room for so few gates that two
widths still add up to a word. -/
structure Session.Addressable (s : Session) : Prop where
  sound : s.Sound
  trimmed : ∀ line ∈ s.lines, line.Trimmed
  capacity : s.netlist.capacity < 2 ^ 63

namespace Session.Addressable

variable {s s' : Session} (hs : s.Addressable)
include hs

theorem netlist : s.netlist.Addressable := ⟨hs.sound.intact, hs.capacity⟩

theorem advances (hsound : s'.Sound) (h : s.Advances s') : s'.Addressable :=
  ⟨hsound, by rw [h.lines]; exact hs.trimmed, by rw [h.grows.retains.capacity]; exact hs.capacity⟩

theorem addressed {b : Bus} (hb : b.Within s.netlist) : b.Addressed := hb.addressed hs.netlist

end Session.Addressable

/-- What comes next is realized from a session that is still addressable, with the result
as promised. -/
theorem Safe.realizes {α β : Type} {s : Session} {x : CheckedRun α} {y : Run α} {f : α → CheckedRun β} {g : α → Run β}
    {Q : α → Session → Prop} (hsafe : Safe y s Q) (hs : s.Addressable) (hx : x.Realizes y s)
    (hf : ∀ a s', s'.Addressable → s.Advances s' → Q a s' → (f a).Realizes (g a) s') :
    (x >>= f).Realizes (y >>= g) s := by
  refine .bind hx fun a s' ho => ?_
  have hsound := hsafe.sound
  have hadv := hsafe.advances
  rw [ho] at hsound hadv
  exact hf a s' (hs.advances hsound hadv) hadv (hsafe.ok a s' ho)

namespace Checked
open BusLogic.Checked

variable {α β : Type} {s : Session}

theorem mapError_unchecked {ε δ : Type} (y : Except ε α) (f : ε → δ) :
    (unchecked y).mapError (.map f) = unchecked (y.mapError f) := by
  cases y <;> rfl

theorem realizes_raise (e : Error) : (raise e : CheckedRun α).Realizes (Run.raise e) s := rfl

theorem realizes_ask {f : Session → Except (Halt Error) α} {g : Session → Except Error α}
    (h : Settles (f s) (g s)) : (ask f).Realizes (Run.ask g) s := by
  show ((f s).mapError (Halt.map Failure.of), s) = _
  rw [h, mapError_unchecked]
  rfl

/-- What is only asked, and settled, is as good as there. -/
theorem realizes_settled {f : Session → Except (Halt Error) α} {a : α} {g : α → CheckedRun β} {y : Run β}
    (h : f s = .ok a) (hg : (g a).Realizes y s) : (ask f >>= g).Realizes y s := by
  have hask : outcome (ask f) s = (.ok a, s) := by
    show ((f s).mapError (Halt.map Failure.of), s) = _
    rw [h]
    rfl
  rw [Realizes, outcome_bind, hask]
  exact hg

theorem realizes_wire {x : Attempt (Halt Error) Netlist α} {y : Attempt Error Netlist α}
    (h : x.Realizes y s.netlist) : (wire x).Realizes (Run.wire y) s := by
  show ((x.outcome s.netlist).1.mapError (Halt.map Failure.of), { s with netlist := (x.outcome s.netlist).2 }) = _
  rw [h, mapError_unchecked]
  rfl

theorem realizes_compile {e : Expression Signal} {x : Attempt (Halt Error) (Expression Signal × Netlist) α}
    {y : Expression.Step Signal Netlist α} (h : x.Realizes y (e, s.netlist)) :
    (compile e x).Realizes (Run.compile e y) s := by
  show (((x.outcome (e, s.netlist)).1.map (·, (x.outcome (e, s.netlist)).2.1)).mapError (Halt.map Failure.of),
    { s with netlist := (x.outcome (e, s.netlist)).2.2 }) = (unchecked (((y.outcome (e, s.netlist)).1.map
      (·, (y.outcome (e, s.netlist)).2.1)).mapError Failure.of), { s with netlist := (y.outcome (e, s.netlist)).2.2 })
  rw [h]
  rcases y.outcome (e, s.netlist) with ⟨_ | _, _⟩ <;> rfl

theorem realizes_on {x : CheckedRun α} {y : Run α} (line : Line) (h : x.Realizes y s) :
    (on line x).Realizes (Run.on line y) s := by
  show ((x.outcome s).1.mapError (Halt.map (·.atLine line.number)), (x.outcome s).2) = _
  rw [h, mapError_unchecked]
  rfl

/-! ### References and lists -/

theorem ref_settles (hs : s.Addressable) (r : Ref) : Settles (ref s r) (s.ref r) := by
  unfold ref Session.ref
  refine .bind (.unchecked _) fun bus hbus => ?_
  have hwithin := hs.addressed (hs.sound.lookup hbus)
  cases r.span with
  | none => exact .ok bus
  | some span =>
    refine .bind (.unchecked _) fun first _ => ?_
    dsimp only
    cases span.last with
    | none => exact Bus.Checked.slice_settles hwithin first first
    | some last => exact .bind (.unchecked _) fun last _ => Bus.Checked.slice_settles hwithin first last

/-- Two widths that the netlist has room for add up to a word. -/
theorem parts_settles (hs : s.Addressable) {bus : Bus} (hbus : bus.Within s.netlist) (refs : List Ref) :
    Settles (parts s bus refs) (s.parts bus refs) := by
  induction refs generalizing bus with
  | nil => exact .ok bus
  | cons r rest ih =>
    refine .bind (ref_settles hs r) fun part hpart => ?_
    have hpart := hs.sound.ref hpart
    have hsum : (add bus.width part.width : Except (Halt Error) Nat) = .ok (bus.width + part.width) := by
      have hleft := hbus.narrow
      have hright := hpart.narrow
      have hcap := hs.capacity
      exact add_eq (by omega)
    have happend := Bus.Checked.append_eq (hs.addressed hbus) (hs.addressed hpart)
    show Settles (add bus.width part.width >>= _) _
    rw [hsum]
    refine .bind (.unchecked (s.checkWidth (bus.width + part.width))) fun _ hwidth => ?_
    rw [happend]
    exact ih (hbus.append hpart (Session.checkWidth_ok hwidth))

-- widths of which the netlist could hold only one
example : parts { Session.ofLines [] {} with buses := (∅ : Table Bus).insert "a" (.contiguous 0 (2 ^ 63)) }
    (.contiguous 0 (2 ^ 63)) [⟨"a", none⟩] = .error (.trap .overflow) := by decide +kernel

theorem listing_settles (hs : s.Addressable) (l : Listing) : Settles (listing s l) (s.listing l) :=
  .bind (parts_settles hs ⟨fun _ hg => absurd hg List.not_mem_nil, Nat.zero_le _⟩ l.parts) fun bus _ =>
    .bind (.unchecked _) fun _ _ => .ok bus

/-! ### Formulas -/

theorem realizes_operand (hs : s.Addressable) (o : Operand) : (operand o).Realizes o.evaluate s := by
  cases o with
  | ref r => exact realizes_ask (ref_settles hs r)
  | list l => exact realizes_ask (listing_settles hs l)
  | source op extent =>
    exact .bind (.lift _) fun _ _ _ => .bind (realizes_wire (Netlist.Checked.realizes_allocate _ _ _ _)) fun _ _ _ => .pure _
  | reduction op l =>
    have hlist : Safe (Run.ask (·.listing l)) s yieldsBus := .ask hs.sound fun _ => hs.sound.listing
    refine hlist.realizes hs (realizes_ask (listing_settles hs l)) fun bus s₁ hs₁ _ hbus => ?_
    exact .bind (realizes_wire (Netlist.Checked.realizes_reduce op (hs₁.addressed hbus) _)) fun _ _ _ => .pure _

theorem realizes_feed (hs : s.Addressable) {e : Expression Signal} (he : yieldsExpression e s) (t : Term) :
    (feed e t).Realizes (t.feed e) s := by
  cases t with
  | operand o => exact .bind (realizes_operand hs o) fun _ _ _ => .bind (.lift _) fun _ _ _ => .pure _
  | operator op =>
    have hadd := Expression.Checked.realizes_addOperator Signal.Checked.realizes_resolve
      Signal.Checked.resolve_addressable (.operator op) (e := e) (s := s.netlist) ⟨hs.netlist, he.2⟩
    exact .bind (realizes_compile hadd) fun _ _ _ => .pure _

theorem realizes_terms (hs : s.Addressable) {e : Expression Signal} (he : yieldsExpression e s) (terms : List Term) :
    (terms.foldlM feed e).Realizes (terms.foldlM Term.feed e) s := by
  induction terms generalizing s e with
  | nil => exact .pure e
  | cons t rest ih =>
    rw [List.foldlM_cons, List.foldlM_cons]
    exact (safe_feed hs.sound he t).realizes hs (realizes_feed hs he t) fun e' s' hs' _ he' => ih hs' he'

theorem realizes_formula (hs : s.Addressable) (terms : List Term) (fault : Option Mismatch) :
    (formula terms fault).Realizes (Script.formula terms fault) s := by
  have hstart : yieldsExpression .empty s := ⟨hs.sound.intact, fun node hn => by cases hn⟩
  refine (safe_terms hs.sound hstart terms).realizes hs (realizes_terms hs hstart terms) fun e s₁ hs₁ _ he => ?_
  have hcompile := Expression.Checked.realizes_compile Signal.Checked.realizes_resolve
    Signal.Checked.resolve_addressable (e := e) (s := s₁.netlist) ⟨hs₁.netlist, he.2⟩
  exact .bind (realizes_compile hcompile) fun _ _ _ => .bind (.lift _) fun _ _ _ => .bind (.lift _) fun _ _ _ => .pure _

/-! ### Lines -/

section Lines
variable {each : Line → CheckedRun α} {each' : Line → Run α} {Q : α → Session → Prop}
  (hsafe : ∀ line (s : Session), s.Sound → Safe (each' line) s Q)
  (heach : ∀ line (s : Session), line.Trimmed → s.Addressable → (each line).Realizes (each' line) s)
include hsafe heach

theorem realizes_body (hs : s.Addressable) (budget : Nat) : (body each budget).Realizes (Run.body each' budget) s := by
  induction budget generalizing s with
  | zero => exact realizes_raise _
  | succ budget ih =>
    refine (safe_nextLine hs.sound).realizes hs (.lift _) fun line s₁ hs₁ _ hline => ?_
    have htrimmed := hs₁.trimmed line hline
    refine realizes_settled (Line.Checked.isEnd_eq htrimmed) ?_
    by_cases hend : line.isEnd = true
    · rw [if_pos hend, if_pos hend]
      exact .pure []
    · rw [if_neg hend, if_neg hend]
      refine (hsafe line s₁ hs₁.sound).realizes hs₁ (heach line s₁ htrimmed hs₁) fun first s₂ hs₂ _ _ => ?_
      exact .bind (ih hs₂) fun rest _ _ => .pure (first :: rest)

end Lines

section Ranges
variable {each : Line → CheckedRun Unit} {each' : Line → Run Unit}
  (hsafe : ∀ line (s : Session), s.Sound → Safe (each' line) s anything)
  (heach : ∀ line (s : Session), line.Trimmed → s.Addressable → (each line).Realizes (each' line) s)
include hsafe heach

theorem realizes_upTo (hs : s.Addressable) (stop budget : Nat) :
    (upTo each stop budget).Realizes (Run.upTo each' stop budget) s := by
  induction budget generalizing s with
  | zero => exact .pure ()
  | succ budget ih =>
    refine .bind .get fun _ _ hget => ?_
    cases hget
    by_cases hstop : s.cursor < stop
    · rw [if_pos hstop, if_pos hstop]
      refine (safe_nextLine hs.sound).realizes hs (.lift _) fun line s₁ hs₁ _ hline => ?_
      have hreal := heach line s₁ (hs₁.trimmed line hline) hs₁
      exact (hsafe line s₁ hs₁.sound).realizes hs₁ hreal fun _ s₂ hs₂ _ _ => ih hs₂
    · rw [if_neg hstop, if_neg hstop]
      exact .pure ()

theorem realizes_between (hs : s.Addressable) (start stop : Nat) :
    (between each start stop).Realizes (Run.between each' start stop) s := by
  refine .bind .get fun _ _ hget => ?_
  cases hget
  refine (Safe.setCursor hs.sound start).realizes hs (.lift _) fun _ s₁ hs₁ _ _ => ?_
  exact .bind (realizes_upTo hsafe heach hs₁ _ _) fun _ _ _ => .lift _

end Ranges

theorem realizes_passes {pass : Nat → CheckedRun Unit} {pass' : Nat → Run Unit} {P : Session → Prop}
    (hsafe : ∀ k (s : Session), s.Sound → P s → Safe (pass' k) s fun _ s' => P s')
    (hpass : ∀ k (s : Session), s.Addressable → P s → (pass k).Realizes (pass' k) s) (hs : s.Addressable) (h : P s)
    (n k : Nat) : (passes pass n k).Realizes (Run.passes pass' n k) s := by
  induction n generalizing s k with
  | zero => exact .pure ()
  | succ n ih => exact (hsafe k s hs.sound h).realizes hs (hpass k s hs h) fun _ s' hs' _ h' => ih hs' h' (k + 1)

theorem bodyLength?_eq {lines : List Line} (h : ∀ line ∈ lines, line.Trimmed) (depth : Nat) :
    bodyLength? depth lines = .ok (Script.bodyLength? depth lines) := by
  induction lines generalizing depth with
  | nil => rfl
  | cons line rest ih =>
    obtain ⟨hline, hrest⟩ := List.forall_mem_cons.mp h
    unfold bodyLength? Script.bodyLength?
    rw [Line.Checked.isEnd_eq hline, Line.Checked.opens_eq hline]
    show (if line.isEnd = true then _ else if line.opens = true then _ else _) = _
    by_cases hend : line.isEnd = true
    · rw [if_pos hend, if_pos hend]
      cases depth with
      | zero => rfl
      | succ depth =>
        dsimp only
        rw [ih hrest]
        rfl
    · rw [if_neg hend, if_neg hend]
      by_cases hopens : line.opens = true
      · rw [if_pos hopens, if_pos hopens, ih hrest]
        rfl
      · rw [if_neg hopens, if_neg hopens, ih hrest]
        rfl

/-! ### Statements -/

theorem realizes_bindSlot (hs : s.Addressable) (name : String) (i : Nat) {value : Bus} (hv : value.Within s.netlist) :
    (bindSlot name i value).Realizes (Script.bindSlot name i value) s := by
  unfold bindSlot Script.bindSlot
  refine .check fun _ => .bind (realizes_ask ?_) fun _ _ _ => .lift _
  exact .bind (Bus.Checked.gate_settles (hs.addressed hv) 0) fun gate _ =>
    .bind (.unchecked _) fun whole _ => Bus.Checked.bind_settles whole i gate

theorem realizes_receive (hs : s.Addressable) (target : Target) (slot : Option Nat) {bus : Bus}
    (hbus : bus.Within s.netlist) : (receive target slot bus).Realizes (target.receive slot bus) s := by
  unfold receive Target.receive
  refine .check fun _ => ?_
  cases slot with
  | some i => exact realizes_bindSlot hs _ i hbus
  | none =>
    cases target with
    | port name => exact .bind (.modify _) fun _ _ _ => .lift _
    | bus name => exact .lift _
    | slot name i => exact .lift _

/-- The lines inside a construct are realized, and are safe. -/
structure Nested.Realizes (c : Nested) (n : Script.Nested) : Prop where
  safe : n.Safe
  statement : ∀ line (s : Session), line.Trimmed → s.Addressable → (c.statement line).Realizes (n.statement line) s
  branch : ∀ line (s : Session), line.Trimmed → s.Addressable → (c.branch line).Realizes (n.branch line) s

namespace Nested.Realizes

variable {c : Nested} {n : Script.Nested} (h : c.Realizes n) (hs : s.Addressable)
include h hs

theorem pass (target source : String) {width : Nat} (hw : width ≤ s.netlist.capacity) (start stop k : Nat) :
    (c.pass target source width start stop k).Realizes (n.pass target source width start stop k) s := by
  refine (Safe.setBus hs.sound target (.unbound hw)).realizes hs (.lift _) fun _ s₁ hs₁ _ _ => ?_
  refine (Safe.setCounter hs₁.sound _).realizes hs₁ (.lift _) fun _ s₂ hs₂ _ _ => ?_
  refine .bind (realizes_between h.safe.statement h.statement hs₂ _ _) fun _ _ _ => ?_
  exact .bind (.lift _) fun _ _ _ => .lift _

theorem loop (target : String) (count : Index) (source : Except Mismatch String) :
    (c.loop target count source).Realizes (n.loop target count source) s := by
  refine .bind (.lift _) fun count s₁ ho₁ => ?_
  obtain ⟨_, rfl⟩ := Run.ask_ok ho₁
  refine .bind (.lift _) fun source s₂ ho₂ => ?_
  obtain ⟨_, rfl⟩ := Run.ask_ok ho₂
  refine .check fun _ => .bind .get fun _ _ hget => ?_
  cases hget
  have hlines : ∀ line ∈ s.lines.toList.drop s.cursor, line.Trimmed := fun line hline =>
    hs.trimmed line (Array.mem_toList_iff.mp (List.mem_of_mem_drop hline))
  have hlength : Settles (do
      match ← bodyLength? 0 (s.lines.toList.drop s.cursor) with
      | some length => return length
      | none => throw (.refused .unexpectedEnd))
      (match Script.bodyLength? 0 (s.lines.toList.drop s.cursor) with
      | some length => .ok length
      | none => .error .unexpectedEnd) := by
    rw [bodyLength?_eq hlines]
    cases Script.bodyLength? 0 (s.lines.toList.drop s.cursor) with
    | some length => exact .ok length
    | none => exact .error _
  refine .bind (realizes_ask hlength) fun length s₃ ho₃ => ?_
  obtain ⟨_, rfl⟩ := Run.ask_ok ho₃
  refine (Safe.setCursor hs.sound _).realizes hs (.lift _) fun _ s₄ hs₄ _ _ => ?_
  refine (safe_lookup hs₄.sound source).realizes hs₄ (.lift _) fun initial s₅ hs₅ _ hinitial => ?_
  refine .bind .get fun _ _ hget => ?_
  cases hget
  have hsafe (k : Nat) (u : Session) (hu : u.Sound) (hi : initial.Within u.netlist) :
      Safe (n.pass target source initial.width s.cursor (s.cursor + length) k) u
        fun _ u' => initial.Within u'.netlist :=
    (h.safe.pass hu target source hi.narrow _ _ k).advancing fun _ _ hadv _ => hi.retains hadv.grows.retains
  have hpasses := realizes_passes hsafe (fun k u hu hi => h.pass hu target source hi.narrow _ _ k) hs₅ hinitial count 0
  refine .bind hpasses fun _ _ _ => .bind (.lift _) fun _ _ _ => ?_
  exact .bind (.lift _) fun _ _ _ => .bind (.lift _) fun _ _ _ => .pure _

theorem select (selector : Ref) (fault : Option Mismatch) :
    (c.select selector fault).Realizes (n.select selector fault) s := by
  have hselector : Safe (Run.ask (·.ref selector)) s yieldsBus := .ask hs.sound fun _ => hs.sound.ref
  refine hselector.realizes hs (realizes_ask (ref_settles hs selector)) fun selector s₁ hs₁ _ hsel => ?_
  refine .bind (.lift _) fun _ s₂ ho₂ => ?_
  obtain ⟨_, rfl⟩ := Run.ask_ok ho₂
  refine .bind .get fun _ _ hget => ?_
  cases hget
  have hsafe := Script.Safe.body (P := fun (b : Bus) net => b.Within net) (fun _ _ _ hb hr => hb.retains hr)
    h.safe.branch hs₁.sound (s₁.lines.size - s₁.cursor)
  refine hsafe.realizes hs₁ (realizes_body h.safe.branch h.branch hs₁ _) fun branches s₃ hs₃ hadv hbranches => ?_
  exact realizes_wire (Netlist.Checked.realizes_multiplex hs₃.netlist (hsel.retains hadv.grows.retains) hbranches)

theorem evaluate (target : String) (v : Value) : (c.evaluate target v).Realizes (n.evaluate target v) s := by
  cases v with
  | fault m => exact realizes_raise _
  | loop count source => exact h.loop hs target count source
  | select selector fault => exact h.select hs selector fault
  | formula terms fault => exact realizes_formula hs terms fault

theorem assign (target : Target) (value : Except Mismatch Value) :
    (c.assign target value).Realizes (n.assign target value) s := by
  refine .bind (.lift _) fun slot s₁ ho₁ => ?_
  obtain ⟨_, rfl⟩ := Run.ask_ok ho₁
  refine .bind (.lift _) fun v s₂ ho₂ => ?_
  obtain ⟨_, rfl⟩ := Run.ask_ok ho₂
  exact (h.safe.evaluate hs.sound _ v).realizes hs (h.evaluate hs _ v)
    fun bus s₃ hs₃ _ hbus => realizes_receive hs₃ target slot hbus

theorem execute (st : Statement) : (c.execute st).Realizes (n.execute st) s := by
  cases st with
  | fault m => exact realizes_raise _
  | block =>
    refine .bind .get fun _ _ hget => ?_
    cases hget
    exact .bind (realizes_body h.safe.statement h.statement hs _) fun _ _ _ => .pure ()
  | declare name width => exact .bind (.lift _) fun _ _ _ => .lift _
  | input name width =>
    exact .bind (realizes_wire (Netlist.Checked.realizes_addInput name width _)) fun _ _ _ => .lift _
  | assign target value => exact h.assign hs target value

end Nested.Realizes

theorem realizes_nested (depth : Nat) : (nested depth).Realizes (Script.nested depth) := by
  induction depth with
  | zero => exact ⟨safe_nested 0, fun _ _ _ _ => realizes_raise _, fun _ _ _ _ => realizes_raise _⟩
  | succ depth ih =>
    refine ⟨safe_nested (depth + 1), fun line s hline hs => ?_, fun line s hline hs => ?_⟩
    · exact realizes_on line (realizes_settled (Line.Checked.statement_eq hline) (ih.execute hs _))
    · exact realizes_on line (realizes_settled (Line.Checked.value_eq hline) (ih.evaluate hs _ _))

theorem realizes_build (hs : s.Addressable) : build.Realizes Session.build s := by
  refine .bind .get fun _ _ hget => ?_
  cases hget
  exact realizes_upTo (safe_nested _).statement (realizes_nested _).statement hs _ _

end Checked

/-! ### Builds -/

/-- Whatever has been done with a script, its session is addressable if the room for gates is. -/
theorem Session.addressable_after (source : String) {settings : Settings} (hcap : settings.capacity < 2 ^ 63)
    (done : List Session.Action) : (done.foldl Session.perform (.start source settings)).Addressable := by
  obtain ⟨hsound, hadvances⟩ := (Session.sound_start source settings).performs done
  refine ⟨hsound, fun line hline => ?_, by rw [hadvances.grows.retains.capacity]; exact hcap⟩
  rw [hadvances.lines] at hline
  exact Line.trimmed_of_mem_linesOf (List.mem_toArray.mp hline)

/-- **A build fails only for what a line says, and keeps within its bounds**, however often
the script has been built before, whatever came of it, and whatever else was done in between.
The line on which it fails explains the failure (`Line.Explains`): pins and operands are
never at fault, opcodes only as `NOT` before a list, and values only if they are empty.
Built by position, with every slot, slice, chunk, split and piece of text looked for where
it is computed to be and every sum held against a word, it ends in the same way and leaves
the same session: it is never stopped by a trap. -/
theorem build_explained_inBounds (source : String) (settings : Settings) (hcap : settings.capacity < 2 ^ 63)
    (done : List Session.Action) :
    let s := done.foldl Session.perform (.start source settings)
    (∀ f s', outcome Session.build s = (.error f, s') →
      ∃ line ∈ linesOf source.toList, f.line = some line.number ∧ line.Explains f.cause) ∧
    Checked.build.Realizes Session.build s ∧ ∀ t s', outcome Checked.build s ≠ (.error (.trap t), s') := by
  intro s
  obtain ⟨hsound, hadvances⟩ := (Session.sound_start source settings).performs done
  have hbuild := Checked.realizes_build (Session.addressable_after source hcap done)
  refine ⟨fun f s' h => ?_, hbuild, hbuild.not_trap⟩
  obtain ⟨line, hline, hexplained⟩ := build_fails hsound h
  rw [hadvances.lines] at hline
  exact ⟨line, List.mem_toArray.mp hline, hexplained⟩

/-- Two lines that fail, with a selection between them. -/
def faultySample : String := "IN a /2\nb = NOT [a]\nm = SELECT(a.0)\na.0\na.1\nEND\nc =\n"

def faultyLines : List Line :=
  [⟨1, "IN a /2".toList⟩, ⟨2, "b = NOT [a]".toList⟩, ⟨3, "m = SELECT(a.0)".toList⟩, ⟨4, "a.0".toList⟩,
    ⟨5, "a.1".toList⟩, ⟨6, "END".toList⟩, ⟨7, "c =".toList⟩]

theorem linesOf_faultySample : linesOf faultySample.toList = faultyLines := by decide +kernel

/-- The sample behind the line that fails first. -/
def faultyRebuilt : Session := (Session.ofLines faultyLines {}).perform .build

theorem build_explained_inBounds_faultySample :
    (outcome Session.build (.start faultySample {})).1 = .error ⟨.invalidArity .not 1 2, some 2⟩ ∧
      (outcome Session.build faultyRebuilt).1 = .error ⟨.malformed .empty, some 7⟩ ∧
      (∃ line ∈ linesOf faultySample.toList, some 7 = some line.number ∧ line.Explains (.malformed .empty)) ∧
      (outcome Checked.build faultyRebuilt).1 = .error (.refused ⟨.malformed .empty, some 7⟩) ∧
      (outcome Checked.build faultyRebuilt).2.bus? "m" = some (.contiguous 5 1) := by
  have hsample := build_explained_inBounds faultySample {} (by decide) [.build]
  rw [Session.start_eq linesOf_faultySample] at hsample ⊢
  have hfirst : (outcome Session.build (.ofLines faultyLines {})).1 = .error ⟨.invalidArity .not 1 2, some 2⟩ := by
    decide +kernel
  have hnext : (outcome Session.build faultyRebuilt).1 = .error ⟨.malformed .empty, some 7⟩ := by decide +kernel
  have hbus : (outcome Session.build faultyRebuilt).2.bus? "m" = some (.contiguous 5 1) := by decide +kernel
  obtain ⟨hexplained, hrealizes, _⟩ := hsample
  change Realizes Checked.build Session.build faultyRebuilt at hrealizes
  exact ⟨hfirst, hnext, hexplained _ _ (outcome_of_result hnext), hrealizes.error hnext,
    (congrArg (·.bus? "m") hrealizes.state).trans hbus⟩

end BusLogic.Script
