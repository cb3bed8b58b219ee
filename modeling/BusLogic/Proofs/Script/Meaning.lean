import BusLogic.Proofs.Script.Combinational
import BusLogic.Proofs.Script.Soundness

/-! A built script computes what it says.

Under a valuation that is consistent with the netlist it ends with, each step of a
session does to its view what the reference evaluator does (`Agrees`). Consistency
passes from the end of a run back to every state before it, since gates are only
added. The values a tick leaves are such a valuation, which makes the reference
evaluator predict every bus and every port. -/
namespace BusLogic.Script
open Attempt Reference

variable (w : Nat → Bool) (given : List Bool)

/-- From `s`, the step advances; where it succeeds it ends no earlier than line `n`, and
if its netlist is then consistent, the reference evaluator goes along. -/
structure Agrees {α β : Type} (n : Nat) (x : Run α) (s : Session) (y : Eval β) (f : α → β) : Prop where
  advances : s.Advances (outcome x s).2
  forward : ∀ a s', outcome x s = (.ok a, s') → n ≤ s'.cursor
  ok : ∀ a s', outcome x s = (.ok a, s') → s'.netlist.Consistent w given →
    y (s.view w given) = some (f a, s'.view w given)

variable {w given}

/-! ### Steps -/

namespace Agrees

variable {α β γ δ : Type} {n : Nat} {s s' : Session} {x : Run α} {y : Eval β} {f : α → β}

theorem failed {e : Failure} (hx : outcome x s = (.error e, s')) (hadv : s.Advances s') :
    Agrees w given n x s y f := by
  refine ⟨by rwa [hx], fun _ _ h => ?_, fun _ _ h => ?_⟩
  all_goals
    rw [hx] at h
    cases h

/-- A step that both sides take, before what comes next. -/
theorem step {x' : Run α} {y' : Eval β} (h : Agrees w given n x' s' y' f) (hx : outcome x s = outcome x' s')
    (hadv : s.Advances s') (hy : y (s.view w given) = y' (s'.view w given)) : Agrees w given n x s y f := by
  refine ⟨?_, by rw [hx]; exact h.forward, by rw [hx, hy]; exact h.ok⟩
  rw [hx]
  exact IsTrans.trans _ _ _ hadv h.advances

theorem bind {m : Nat} {k : α → Run γ} {k' : β → Eval δ} {g : γ → δ} (hx : Agrees w given m x s y f)
    (hk : ∀ a s', s.Advances s' → m ≤ s'.cursor → Agrees w given n (k a) s' (k' (f a)) g) :
    Agrees w given n (x >>= k) s (y >>= k') g := by
  have hadv := hx.advances
  have hforward := hx.forward
  have hok := hx.ok
  rcases hres : outcome x s with ⟨e | a, s₁⟩
  all_goals rw [hres] at hadv
  · exact .failed (by rw [outcome_bind, hres]) hadv
  · have hout : outcome (x >>= k) s = outcome (k a) s₁ := by rw [outcome_bind, hres]
    obtain ⟨hadv', hforward', hok'⟩ := hk a s₁ hadv (hforward a s₁ hres)
    refine ⟨by rw [hout]; exact IsTrans.trans _ _ _ hadv hadv', by rwa [hout], fun c s₂ h hc => ?_⟩
    rw [hout] at h
    rw [h] at hadv'
    -- what comes next only adds gates, so the end vouches for the state in between
    have hy := hok a s₁ hres (hc.of_retains hadv'.grows.retains)
    show (y (s.view w given)).bind _ = _
    rw [hy]
    exact hok' c s₂ h hc

protected theorem pure {a : α} {b : β} (hb : f a = b) (hn : n ≤ s.cursor) :
    Agrees w given n (pure a) s (pure b) f := by
  refine ⟨refl s, fun a' s' h => ?_, fun a' s' h _ => ?_⟩
  · cases h
    exact hn
  · cases h
    rw [hb]
    rfl

protected theorem throw (e : Failure) : Agrees w given n (throw e) s y f := .failed rfl (refl s)

/-- A question is answered from the session as it is. -/
theorem ask {g : Session → Except Error α} {k : α → Run γ} {f : γ → β}
    (h : ∀ a, g s = .ok a → Agrees w given n (k a) s y f) : Agrees w given n (Run.ask g >>= k) s y f := by
  rcases hg : g s with e | a
  · exact .failed (by rw [outcome_bind, Run.outcome_ask, hg]; rfl) (refl s)
  · exact (h a hg).step (by rw [outcome_bind, Run.outcome_ask, hg]; rfl) (refl s) rfl

/-- The reference evaluator answers from the view. -/
theorem answer {b : γ} {g : State → Option γ} {k' : γ → Eval β} (hg : g (s.view w given) = some b)
    (h : Agrees w given n x s (k' b) f) : Agrees w given n x s (Reference.ask g >>= k') f := by
  refine h.step rfl (refl s) ?_
  show ((g (s.view w given)).map _).bind _ = _
  rw [hg]
  rfl

protected theorem get {k : Session → Run α} {k' : State → Eval β}
    (h : Agrees w given n (k s) s (k' (s.view w given)) f) : Agrees w given n (get >>= k) s (get >>= k') f :=
  h.step (by rw [outcome_bind, outcome_get]) (refl s) rfl

theorem check {c : Prop} [Decidable c] {e : Failure} {k : PUnit → Run α}
    (h : ¬ c → Agrees w given n (k ⟨⟩) s y f) : Agrees w given n (if c then throw e >>= k else k ⟨⟩) s y f := by
  split
  · exact .failed (by rw [outcome_bind, outcome_throw]) (refl s)
  · rename_i hc
    exact h hc

theorem on (line : Line) (hx : Agrees w given n x s y f) : Agrees w given n (Run.on line x) s y f :=
  ⟨hx.advances, fun a s' h => hx.forward a s' (Run.on_ok h), fun a s' h => hx.ok a s' (Run.on_ok h)⟩

protected theorem modify {g : Session → Session} {g' : State → State}
    (hview : (g s).view w given = g' (s.view w given)) (hadv : s.Advances (g s)) (hn : n ≤ (g s).cursor) :
    Agrees w given n (modify g) s (modify g') id := by
  refine ⟨hadv, fun _ s' h => ?_, fun _ s' h _ => ?_⟩
  · cases h
    exact hn
  · cases h
    rw [hview]
    rfl

theorem setBus {name : String} {b : Bus} {bits : Bits} (hb : b.bits w = bits) (hn : n ≤ s.cursor) :
    Agrees w given n (Run.setBus name b) s (Reference.setBus name bits) id := by
  rw [← hb]
  exact .modify (Session.view_setBus s name b) ⟨rfl, refl s.netlist⟩ hn

theorem setCounter (counter : Option Nat) (hn : n ≤ s.cursor) :
    Agrees w given n (Run.setCounter counter) s (Reference.setCounter counter) id :=
  .modify rfl ⟨rfl, refl s.netlist⟩ hn

theorem setCursor {cursor : Nat} (hn : n ≤ cursor) :
    Agrees w given n (Run.setCursor cursor) s (Reference.setCursor cursor) id :=
  .modify rfl ⟨rfl, refl s.netlist⟩ hn

theorem nextLine {k : Line → Run α} {k' : Line → Eval β}
    (h : ∀ line ∈ s.lines, Agrees w given n (k line) { s with cursor := s.cursor + 1 } (k' line) f) :
    Agrees w given n (Run.nextLine >>= k) s (Reference.nextLine >>= k') f := by
  rcases hline : s.lines[s.cursor]? with _ | line
  · have hout : outcome (Run.nextLine >>= k) s = (.error (.of .unexpectedEnd), s) := by
      rw [outcome_bind, Run.nextLine, outcome_bind, outcome_get]
      simp only [hline]
      rfl
    exact .failed hout (refl s)
  · refine (h line (Array.mem_of_getElem? hline)).step ?_ ⟨rfl, refl s.netlist⟩ ?_
    · rw [outcome_bind, Run.nextLine, outcome_bind, outcome_get]
      simp only [hline]
      rfl
    · show (((s.lines[s.cursor]?).map _).bind _).bind _ = _
      rw [hline]
      rfl

/-- A bus operation, where the reference evaluator answers from the view. -/
theorem wires {x : Attempt Error Netlist α} {g : State → Option β} (hx : x.Keeps Netlist.Wires)
    (hn : n ≤ s.cursor)
    (h : ∀ a net, outcome x s.netlist = (.ok a, net) → net.Consistent w given →
      g (s.view w given) = some (f a)) :
    Agrees w given n (Run.wire x) s (Reference.ask g) f := by
  refine ⟨⟨rfl, (hx s.netlist).grows⟩, fun a s' ho => ?_, fun a s' ho hc => ?_⟩
  all_goals obtain ⟨net, hout, rfl⟩ := Run.wire_ok ho
  · exact hn
  · show (g (s.view w given)).map _ = _
    rw [h a net hout hc, Session.view_wires (hx.reached hout)]
    rfl

end Agrees

/-! ### Lines -/

/-- A session whose lines keep nothing from one tick to the next. -/
def Session.Stateless (s : Session) : Prop := ∀ line ∈ s.lines, line.Stateless

theorem Session.Stateless.advance {s s' : Session} (h : s.Stateless) (hadv : s.Advances s') : s'.Stateless := by
  intro line hline
  rw [hadv.lines] at hline
  exact h line hline

namespace Agrees

variable {α β : Type} {n : Nat} {s : Session}

section Lines
variable {each : Line → Run α} {each' : Line → Eval β} {f : α → β}
  (he : ∀ (line : Line) (s : Session), line.Stateless → s.Stateless →
    Agrees w given s.cursor (each line) s (each' line) f)
include he

theorem body (hs : s.Stateless) (hn : n ≤ s.cursor) (budget : Nat) :
    Agrees w given n (Run.body each budget) s (Reference.body each' budget) (List.map f) := by
  induction budget generalizing s with
  | zero => exact .throw _
  | succ budget ih =>
    refine .nextLine fun line hline => ?_
    have hs₁ : ({ s with cursor := s.cursor + 1 } : Session).Stateless := hs
    split
    · exact .pure rfl (Nat.le_succ_of_le hn)
    · refine .bind (he line _ (hs line hline) hs₁) fun first s₂ hadv₂ hle₂ => ?_
      have hs₂ := hs₁.advance hadv₂
      refine .bind (ih hs₂ ?_) fun rest s₃ _ hle₃ => .pure rfl hle₃
      exact Nat.le_trans (Nat.le_succ_of_le hn) hle₂

end Lines

section Statements
variable {each : Line → Run Unit} {each' : Line → Eval Unit}
  (he : ∀ (line : Line) (s : Session), line.Stateless → s.Stateless →
    Agrees w given s.cursor (each line) s (each' line) id)
include he

/-- The budget never cuts a run short, since every line taken moves the cursor on. -/
theorem upTo (hs : s.Stateless) (hn : n ≤ s.cursor) {stop budget : Nat} (hb : stop ≤ s.cursor + budget) :
    Agrees w given n (Run.upTo each stop budget) s (Reference.upTo each' stop budget) id := by
  induction budget generalizing s with
  | zero =>
    have hstop : ¬ (s.view w given).cursor < stop := Nat.not_lt.mpr hb
    have hdone : Agrees w given n (Pure.pure ()) s (Pure.pure ()) id := .pure rfl hn
    refine hdone.step rfl (refl s) ?_
    show (if (s.view w given).cursor < stop then none else some ()).map _ = _
    rw [if_neg hstop]
    rfl
  | succ budget ih =>
    refine .get ?_
    by_cases hlt : s.cursor < stop
    · rw [if_pos hlt, if_pos (show (s.view w given).cursor < stop from hlt)]
      refine .nextLine fun line hline => ?_
      have hs₁ : ({ s with cursor := s.cursor + 1 } : Session).Stateless := hs
      refine .bind (he line _ (hs line hline) hs₁) fun _ s₂ hadv₂ hle₂ => ?_
      have hle : s.cursor + 1 ≤ s₂.cursor := hle₂
      exact ih (hs₁.advance hadv₂) (by omega) (by omega)
    · rw [if_neg hlt, if_neg (show ¬ (s.view w given).cursor < stop from hlt)]
      exact .pure rfl hn

theorem between (hs : s.Stateless) (hn : n ≤ s.cursor) (start stop : Nat) :
    Agrees w given n (Run.between each start stop) s (Reference.between each' start stop) id := by
  refine .get (.bind (.setCursor (Nat.le_refl start)) fun _ s₁ hadv₁ hle₁ => ?_)
  have hs₁ := hs.advance hadv₁
  refine .bind (upTo he hs₁ (Nat.zero_le _) (by omega)) fun _ s₂ _ _ => ?_
  exact .setCursor hn

end Statements

theorem passes {pass : Nat → Run Unit} {pass' : Nat → Eval Unit}
    (hp : ∀ (k : Nat) (s : Session), s.Stateless → Agrees w given s.cursor (pass k) s (pass' k) id)
    (hs : s.Stateless) (hn : n ≤ s.cursor) (count k : Nat) :
    Agrees w given n (Run.passes pass count k) s (Reference.passes pass' count k) id := by
  induction count generalizing s k with
  | zero => exact .pure rfl hn
  | succ count ih =>
    exact .bind (hp k s hs) fun _ s₁ hadv hle => ih (hs.advance hadv) (Nat.le_trans hn hle) (k + 1)

end Agrees

/-! ### Statements -/

theorem Reference.addInput_append (name : String) {t : State} {levels later : List Bool}
    (h : t.supply = levels ++ later) :
    Reference.addInput name levels.length t =
      some (levels.map some, { t with supply := later, ports := t.ports.insert name (levels.map some) }) := by
  have hle : levels.length ≤ t.supply.length := by
    rw [h, List.length_append]
    omega
  show (Reference.supplied levels.length t).bind _ = _
  rw [Reference.supplied, if_pos hle, h, List.take_left, List.drop_left]
  rfl

section Statements
variable {n : Nat} {s : Session} (hn : n ≤ s.cursor)
include hn

theorem agrees_formula {terms : List Term} (hst : ∀ t ∈ terms, t.Stateless) (fault : Option Mismatch) :
    Agrees w given n (formula terms fault) s (Reference.ask (·.formula terms)) (Bus.bits w) := by
  refine ⟨(extends_formula terms fault s).advances, fun b s' h => ?_, fun b s' h hc => ?_⟩
  · rwa [((extends_formula terms fault).reached h).cursor]
  · obtain ⟨hview, hbits⟩ := formula_bits hst h hc
    show ((s.view w given).formula terms).map _ = _
    rw [hbits, hview]
    rfl

theorem agrees_addInput (name : String) (width : Nat) :
    Agrees w given n (Run.wire (Netlist.addInput name width)) s (Reference.addInput name width) (Bus.bits w) := by
  refine ⟨⟨rfl, Netlist.grows_addInput name width s.netlist⟩, fun b s' h => ?_, fun b s' h hc => ?_⟩
  all_goals obtain ⟨net, hout, rfl⟩ := Run.wire_ok h
  · exact hn
  · rw [Netlist.outcome_addInput] at hout
    rcases hall : outcome (Netlist.allocateInputs width) s.netlist with ⟨e | _, net₁⟩
    all_goals
      rw [hall] at hout
      cases hout
    have hinputs := Netlist.inputs_allocateInputs hall
    obtain ⟨later, hgiven⟩ : net₁.inputs.map w <+: given := hc.inputs
    have hlater : given.drop net₁.inputs.length = later := by
      rw [← hgiven, List.drop_left' (List.length_map ..)]
    rw [hinputs, List.map_append, List.append_assoc] at hgiven
    have hsupply : (s.view w given).supply = (List.range' s.netlist.size width).map w ++ later := by
      rw [Session.view, ← hgiven, List.drop_left' (List.length_map ..)]
    have hlength : ((List.range' s.netlist.size width).map w).length = width := by
      rw [List.length_map, List.length_range']
    have hbits : ((List.range' s.netlist.size width).map w).map some =
        (Bus.contiguous s.netlist.size width).bits w := (Netlist.bits_of_slots rfl).symm
    have hports := Netlist.ports_allocateInputs width s.netlist
    rw [hall] at hports
    have hview : ({ s with netlist := net₁ } : Session).view w given = { s.view w given with supply := later } := by
      simp only [Session.view, hlater, hports]
    have hadd := Reference.addInput_append name hsupply
    rw [hlength, hbits] at hadd
    rw [hadd, Session.view_registerPort { s with netlist := net₁ }, hview]

theorem agrees_bindSlot (name : String) (i : Nat) (value : Bus) :
    Agrees w given n (bindSlot name i value) s (Reference.bindSlot name i (value.bits w)) id := by
  unfold bindSlot
  refine .check fun hwidth => .ask fun bus hbus => ?_
  obtain ⟨gate, hgate, h₁⟩ := except_bind_ok hbus
  obtain ⟨whole, hwhole, h₂⟩ := except_bind_ok h₁
  rw [bits_single (Decidable.not_not.mp hwidth) hgate]
  refine .answer ?_ (.setBus rfl hn)
  rw [Session.view_lookup hwhole]
  exact bind_bits h₂

end Statements

variable (w given) in
/-- The lines inside a construct do what the reference evaluator does. -/
structure Nested.Agrees (n : Nested) (m : Reference.Nested) : Prop where
  statement : ∀ (line : Line) (s : Session), line.Stateless → s.Stateless →
    Script.Agrees w given s.cursor (n.statement line) s (m.statement line) id
  branch : ∀ (line : Line) (s : Session), line.Stateless → s.Stateless →
    Script.Agrees w given s.cursor (n.branch line) s (m.branch line) (Bus.bits w)

namespace Nested.Agrees

variable {n : Nested} {m : Reference.Nested} (h : n.Agrees w given m) {s : Session} (hs : s.Stateless)
include h hs

theorem pass (target source : String) (width start stop k : Nat) :
    Script.Agrees w given s.cursor (n.pass target source width start stop k) s
      (m.pass target source width start stop k) id := by
  refine .bind (.setBus (bits_unbound width) (Nat.le_refl _)) fun _ s₁ hadv₁ hle₁ => ?_
  refine .bind (.setCounter _ hle₁) fun _ s₂ hadv₂ hle₂ => ?_
  have hs₂ := (hs.advance hadv₁).advance hadv₂
  refine .bind (.between h.statement hs₂ hle₂ _ _) fun _ s₃ _ hle₃ => ?_
  exact .ask fun next hnext => .answer (Session.view_lookup hnext) (.setBus rfl hle₃)

theorem loop (target : String) (count : Index) (source : Except Mismatch String) :
    Script.Agrees w given s.cursor (n.loop target count source) s (m.loop target count source) (Bus.bits w) := by
  refine .ask fun count hcount => .answer (Session.view_index hcount) ?_
  refine .ask fun name hname => ?_
  have hsource : source.toOption = some name := by
    rw [except_mapError_ok hname]
    rfl
  refine .answer hsource (.check fun _ => .get (.ask fun length hlength => ?_))
  have hbody : bodyLength? 0 (s.lines.toList.drop s.cursor) = some length := by
    split at hlength
    · rename_i hsome
      cases hlength
      exact hsome
    · cases hlength
  have hstop : s.cursor ≤ s.cursor + length + 1 := by omega
  refine .answer hbody (.bind (.setCursor hstop) fun _ s₁ hadv₁ hle₁ => ?_)
  refine .ask fun initial hinitial => .answer (Session.view_lookup hinitial) (.get ?_)
  have hwidth : (initial.bits w).length = initial.width := by
    rw [Bus.bits, List.length_map, Bus.length_slots]
  rw [hwidth]
  have hpasses := Script.Agrees.passes
    (fun k s' hs' => h.pass hs' target name initial.width s.cursor (s.cursor + length) k)
    (hs.advance hadv₁) hle₁ count 0
  refine .bind hpasses fun _ s₂ _ hle₂ => ?_
  refine .ask fun result hresult => .answer (Session.view_lookup hresult) ?_
  refine .bind (.setBus rfl hle₂) fun _ s₃ _ hle₃ => ?_
  exact .bind (.setCounter _ hle₃) fun _ s₄ _ hle₄ => .pure rfl hle₄

theorem select (selector : Ref) (fault : Option Mismatch) :
    Script.Agrees w given s.cursor (n.select selector fault) s (m.select selector) (Bus.bits w) := by
  refine .ask fun bus hbus => .answer (Session.view_ref hbus) (.ask fun _ _ => .get ?_)
  have hbody := Script.Agrees.body h.branch hs (Nat.le_refl _) (s.lines.size - s.cursor)
  refine .bind hbody fun branches s₁ _ hle₁ => ?_
  refine .wires (Netlist.wires_multiplex bus branches) hle₁ fun r net hout hc => ?_
  obtain ⟨levels, hlevels, hbranch⟩ := Netlist.multiplex_bits hc hout
  rw [hlevels]
  exact hbranch

theorem evaluate (target : String) {v : Value} (hv : ∀ t ∈ v.terms, t.Stateless) :
    Script.Agrees w given s.cursor (n.evaluate target v) s (m.evaluate target v) (Bus.bits w) := by
  cases v with
  | fault e => exact .throw _
  | loop count source => exact h.loop hs target count source
  | select selector fault => exact h.select hs selector fault
  | formula terms fault => exact agrees_formula (Nat.le_refl _) hv fault

theorem assign (target : Target) {v : Value} (hv : ∀ t ∈ v.terms, t.Stateless) :
    Script.Agrees w given s.cursor (n.assign target (.ok v)) s (m.assign target v) id := by
  refine .ask fun slot hslot => .ask fun v' hv' => ?_
  cases hv'
  cases target with
  | bus name =>
    cases hslot
    refine .bind (h.evaluate hs name hv) fun b s₁ _ hle₁ => ?_
    unfold Target.receive
    exact .check fun _ => .setBus rfl hle₁
  | port name =>
    cases hslot
    refine .bind (h.evaluate hs name hv) fun b s₁ _ hle₁ => ?_
    unfold Target.receive
    refine .check fun _ => ?_
    have hport : Script.Agrees w given s.cursor
        (modify fun s => { s with netlist := s.netlist.registerPort name b }) s₁
        (Reference.setPort name (b.bits w)) id :=
      .modify (Session.view_registerPort s₁ name b) ⟨rfl, Netlist.grows_registerPort _ _ _⟩ hle₁
    exact .bind hport fun _ s₂ _ hle₂ => .setBus rfl hle₂
  | slot name i =>
    obtain ⟨whole, _, h₁⟩ := except_bind_ok hslot
    obtain ⟨j, hj, h₂⟩ := except_bind_ok h₁
    split at h₂
    · cases h₂
      refine .answer (Session.view_index hj) ?_
      refine .bind (h.evaluate hs name hv) fun b s₁ _ hle₁ => ?_
      unfold Target.receive
      exact .check fun _ => agrees_bindSlot hle₁ name j b
    · cases h₂

theorem execute {st : Statement} (hst : ∀ t ∈ st.terms, t.Stateless) :
    Script.Agrees w given s.cursor (n.execute st) s (m.execute st) id := by
  cases st with
  | fault e => exact .throw _
  | block =>
    refine .get ?_
    have hbody := Script.Agrees.body h.statement hs (Nat.le_refl _) (s.lines.size - s.cursor)
    exact .bind hbody fun _ s₁ _ hle₁ => .pure rfl hle₁
  | declare name width => exact .ask fun _ _ => .setBus (bits_unbound width) (Nat.le_refl _)
  | input name width =>
    exact .bind (agrees_addInput (Nat.le_refl _) name width) fun b s₁ _ hle₁ => .setBus rfl hle₁
  | assign target value =>
    cases value with
    | error e => exact .ask fun _ _ => .ask fun _ hnone => by cases hnone
    | ok v => exact h.assign hs target hst

end Nested.Agrees

theorem agrees_nested (depth : Nat) : (nested depth).Agrees w given (Reference.nested depth) := by
  induction depth with
  | zero => exact ⟨fun _ _ _ _ => .throw _, fun _ _ _ _ => .throw _⟩
  | succ depth ih =>
    refine ⟨fun line s hline hs => .on line (ih.execute hs ?_),
      fun line s hline hs => .on line (ih.evaluate hs "" ?_)⟩
    · exact fun t ht => hline t (List.mem_append_left _ ht)
    · exact fun t ht => hline t (List.mem_append_right _ ht)

theorem agrees_build {s : Session} (hs : s.Stateless) :
    Agrees w given s.cursor Session.build s
      (Reference.upTo (Reference.nested s.lines.size).statement s.lines.size (s.lines.size - s.cursor)) id := by
  have hnested : (nested s.lines.size).Agrees w given (Reference.nested s.lines.size) := agrees_nested _
  have hlines : s.lines.size ≤ s.cursor + (s.lines.size - s.cursor) := by omega
  have hrun := Agrees.upTo hnested.statement hs (Nat.le_refl _) hlines
  exact hrun.step (by rw [Session.build, outcome_bind, outcome_get]) (refl s) rfl

/-! ### Whole scripts -/

/-- **A script computes what it says.** Whenever a script without clocks and latches can
be built, the reference evaluator gets through it too, with whatever levels its inputs
hold, and uses up just these; and whatever the other gates hold, after one tick every
bus and every port carries, slot for slot, what the reference evaluator says. -/
theorem build_computes (source : String) (settings : Settings) (s : Session) (hsource : Combinational source)
    (hbuild : outcome Session.build (Session.start source settings) = (.ok (), s)) (v : Nat → Bool) :
    let after := (s.netlist.preset v).tick
    ∃ t, Reference.run source (s.netlist.inputs.map v) = some t ∧ t.supply = [] ∧
      (∀ name, t.buses[name]? = (s.bus? name).map (Bus.bits after.valueAt)) ∧
      ∀ name, t.ports[name]? = (after.port? name).map (Bus.bits after.valueAt) := by
  intro after
  have hsound : s.Sound := by
    have hsafe := (safe_build (Session.sound_start source settings)).sound
    rwa [hbuild] at hsafe
  have hrevalued := Netlist.revalued_preset s.netlist v
  have hconsistent : s.netlist.Consistent after.valueAt (s.netlist.inputs.map v) := by
    have hintact := hrevalued.grows.intact hsound.intact
    have htick := Netlist.consistent_tick hintact.wired
    rw [Netlist.preset_inputs] at htick
    exact htick.of_retains hrevalued.grows.retains
  have hlines : (Session.start source settings).Stateless :=
    fun line hline => hsource.stateless line (List.mem_toArray.mp hline)
  have hagrees := (agrees_build hlines).ok () s hbuild hconsistent
  rw [Session.view_start] at hagrees
  refine ⟨s.view after.valueAt (s.netlist.inputs.map v), ?_, ?_, fun name => ?_, fun name => ?_⟩
  · have hrun : Reference.run source (s.netlist.inputs.map v) =
        (Reference.upTo _ _ _ (Reference.State.start source (s.netlist.inputs.map v))).map Prod.snd := rfl
    rw [hrun]
    exact congrArg (Option.map Prod.snd) hagrees
  · rw [Session.view, ← List.length_map v, List.drop_length]
  · rw [Session.view, Std.ExtTreeMap.getElem?_map]
    rfl
  · have hports : after.ports = s.netlist.ports := ((hrevalued.trans (Netlist.revalued_tick _)).ports)
    rw [Session.view, Std.ExtTreeMap.getElem?_map, Netlist.port?, hports]

/-- A reduction over a list, a loop whose passes turn their source by one slot and invert one
level, and a selection between a list and a formula with a constant. -/
def mixedSample : String :=
  "IN a /2\nIN b /2\np = XOR [a, b.0]\nt = LOOP(2) a\nt.0 = NOT a.1\nt.1 = a.0\nEND\n" ++
    "OUT x = SELECT(p)\n[t.1, b.0]\nt AND NOT b XOR ONE(2)\nEND\n"

def mixedLines : List Line :=
  [⟨1, "IN a /2".toList⟩, ⟨2, "IN b /2".toList⟩, ⟨3, "p = XOR [a, b.0]".toList⟩, ⟨4, "t = LOOP(2) a".toList⟩,
    ⟨5, "t.0 = NOT a.1".toList⟩, ⟨6, "t.1 = a.0".toList⟩, ⟨7, "END".toList⟩, ⟨8, "OUT x = SELECT(p)".toList⟩,
    ⟨9, "[t.1, b.0]".toList⟩, ⟨10, "t AND NOT b XOR ONE(2)".toList⟩, ⟨11, "END".toList⟩]

/-- With only the first input high, the second branch is chosen. -/
theorem build_computes_mixedSample :
    let s := (outcome Session.build (Session.start mixedSample {})).2
    let after := (s.netlist.preset (· == 0)).tick
    Combinational mixedSample ∧ outcome Session.build (Session.start mixedSample {}) = (.ok (), s) ∧
      (after.port? "x").map (Bus.bits after.valueAt) = some [some true, some false] := by
  intro s after
  have hlines : linesOf mixedSample.toList = mixedLines := by decide +kernel
  have hsource : Combinational mixedSample := by
    rw [Combinational, hlines]
    decide +kernel
  have hbuild : outcome Session.build (Session.start mixedSample {}) = (.ok (), s) := by
    apply outcome_of_result
    rw [Session.start_eq hlines]
    decide +kernel
  have hinputs : s.netlist.inputs.map (· == 0) = [true, false, false, false] := by
    dsimp only [s]
    rw [Session.start_eq hlines]
    decide +kernel
  have hsays : (Reference.run mixedSample [true, false, false, false]).bind (fun t => t.ports["x"]?) =
      some [some true, some false] := by
    rw [Reference.run, Reference.State.start, hlines]
    decide +kernel
  obtain ⟨t, hrun, _, _, hports⟩ := build_computes mixedSample {} s hsource hbuild (· == 0)
  rw [hinputs] at hrun
  rw [hrun, Option.bind_some] at hsays
  exact ⟨hsource, hbuild, (hports "x").symm.trans hsays⟩

end BusLogic.Script
