import BusLogic.Proofs.Netlist.Tick
import BusLogic.Proofs.Netlist.Wiring
import BusLogic.Proofs.Script.Growth
import BusLogic.Proofs.Script.Run

/-! Sessions stay sound.

A session is sound when its netlist is intact and every bus it knows, by name or as
a port, has all its gates in the netlist and is no wider than the netlist has room
for (`Session.Sound`). `Safe` is what a step owes a sound session: it leaves it
sound however the step ends, and if it succeeds, its result is as promised. The
steps of a script are safe one by one, so building is, and driving gates, writing
buses and ticking change no more than values. -/
namespace BusLogic.Script
open Attempt Run

/-! ### Soundness -/

structure Session.Sound (s : Session) : Prop where
  intact : s.netlist.Intact
  buses : ∀ name b, s.bus? name = some b → b.Within s.netlist
  ports : ∀ name b, s.netlist.port? name = some b → b.Within s.netlist

/-- From `s`, the step advances to a sound session, and if it succeeds, `Q` holds of its
result and of that session. -/
structure Safe {α : Type} (x : Run α) (s : Session) (Q : α → Session → Prop) : Prop where
  advances : s.Advances (outcome x s).2
  sound : (outcome x s).2.Sound
  ok : ∀ a s', outcome x s = (.ok a, s') → Q a s'

/-- The result is a bus over gates that are there. -/
abbrev yieldsBus (b : Bus) (s : Session) : Prop := b.Within s.netlist

/-- Nothing is said of the result. -/
abbrev anything {α : Type} (_ : α) (_ : Session) : Prop := True

namespace Session.Sound

variable {s : Session} (hs : s.Sound)
include hs

/-- A netlist that has grown without showing other ports keeps a session sound. -/
theorem grow {net : Netlist} (hg : s.netlist.Grows net) (hp : net.ports = s.netlist.ports) :
    ({ s with netlist := net } : Session).Sound where
  intact := hg.intact hs.intact
  buses name b hb := (hs.buses name b hb).retains hg.retains
  ports name b hb := (hs.ports name b (by rwa [Netlist.port?, ← hp])).retains hg.retains

theorem setBus {name : String} {b : Bus} (hb : b.Within s.netlist) :
    ({ s with buses := s.buses.insert name b } : Session).Sound where
  intact := hs.intact
  buses name' b' h := by
    simp only [bus?, Std.ExtTreeMap.getElem?_insert] at h
    split at h
    · cases h
      exact hb
    · exact hs.buses name' b' h
  ports := hs.ports

theorem registerPort {name : String} {b : Bus} (hb : b.Within s.netlist) :
    ({ s with netlist := s.netlist.registerPort name b } : Session).Sound where
  intact := ⟨hs.intact.room, hs.intact.wired⟩
  buses name' b' h := ⟨(hs.buses name' b' h).bound, (hs.buses name' b' h).narrow⟩
  ports name' b' h := by
    simp only [Netlist.port?, Netlist.registerPort, Std.ExtTreeMap.getElem?_insert] at h
    split at h
    · cases h
      exact ⟨hb.bound, hb.narrow⟩
    · exact ⟨(hs.ports name' b' h).bound, (hs.ports name' b' h).narrow⟩

theorem moved (cursor : Nat) : ({ s with cursor } : Session).Sound := ⟨hs.intact, hs.buses, hs.ports⟩

/-! ### What is looked up -/

theorem lookup {name : String} {b : Bus} (h : s.lookup name = .ok b) : b.Within s.netlist :=
  hs.buses name b (lookup_ok h)

theorem ref {r : Ref} {b : Bus} (h : s.ref r = .ok b) : b.Within s.netlist := by
  obtain ⟨whole, hw, ⟨_, rfl⟩ | ⟨_, first, last, _, _, _, hslice⟩⟩ := ref_ok h
  · exact hs.lookup hw
  · exact (hs.lookup hw).slice hslice

theorem parts {refs : List Ref} {b r : Bus} (hb : b.Within s.netlist) (h : s.parts b refs = .ok r) :
    r.Within s.netlist := by
  induction refs generalizing b with
  | nil =>
    cases h
    exact hb
  | cons first rest ih =>
    obtain ⟨part, hpart, h₁⟩ := except_bind_ok h
    obtain ⟨_, hwidth, h₂⟩ := except_bind_ok h₁
    exact ih (hb.append (hs.ref hpart) (checkWidth_ok hwidth)) h₂

theorem listing {l : Listing} {b : Bus} (h : s.listing l = .ok b) : b.Within s.netlist := by
  obtain ⟨b', hparts, h₁⟩ := except_bind_ok h
  obtain ⟨_, _, h₂⟩ := except_bind_ok h₁
  cases h₂
  exact hs.parts ⟨fun _ hg => absurd hg List.not_mem_nil, Nat.zero_le _⟩ hparts

end Session.Sound

/-! ### Safe steps -/

namespace Safe

variable {α β : Type} {s : Session} {Q : α → Session → Prop}

theorem pure (hs : s.Sound) {a : α} (hq : Q a s) : Safe (pure a) s Q := by
  refine ⟨refl s, hs, fun a' s' h => ?_⟩
  cases h
  exact hq

theorem throw (hs : s.Sound) (e : Failure) : Safe (throw e) s Q :=
  ⟨refl s, hs, fun a s' h => by cases h⟩

theorem get (hs : s.Sound) : Safe get s fun _ _ => True := ⟨refl s, hs, fun _ _ _ => trivial⟩

theorem ask (hs : s.Sound) {f : Session → Except Error α} (hq : ∀ a, f s = .ok a → Q a s) :
    Safe (ask f) s Q := by
  refine ⟨refl s, hs, fun a s' h => ?_⟩
  obtain ⟨hf, rfl⟩ := ask_ok h
  exact hq a hf

/-- Where a step that succeeds has come. -/
theorem reached {x : Run α} {u : Session} {a : α} (hx : Safe x s Q) (h : outcome x s = (.ok a, u)) :
    u.Sound ∧ s.netlist.Grows u.netlist ∧ Q a u := by
  have hsound := hx.sound
  have hadv := hx.advances
  rw [h] at hsound hadv
  exact ⟨hsound, hadv.grows, hx.ok a u h⟩

/-- What a step keeps may be used of what it leaves. -/
theorem advancing {x : Run α} {Q' : α → Session → Prop} (hx : Safe x s Q)
    (h : ∀ a s', s.Advances s' → Q a s' → Q' a s') : Safe x s Q' := by
  refine ⟨hx.advances, hx.sound, fun a s' ho => h a s' ?_ (hx.ok a s' ho)⟩
  have hadv := hx.advances
  rwa [ho] at hadv

/-- What comes next starts from a sound session, with the result as promised. -/
theorem bind {x : Run α} {f : α → Run β} {Q' : β → Session → Prop} (hx : Safe x s Q)
    (hf : ∀ a s', s.Advances s' → s'.Sound → Q a s' → Safe (f a) s' Q') : Safe (x >>= f) s Q' := by
  have hadv := hx.advances
  have hsound := hx.sound
  have hok := hx.ok
  rcases hres : outcome x s with ⟨e | a, s'⟩
  all_goals rw [hres] at hadv hsound
  · have hout : outcome (x >>= f) s = (.error e, s') := by rw [outcome_bind, hres]
    refine ⟨by rwa [hout], by rwa [hout], fun b s'' h => ?_⟩
    rw [hout] at h
    cases h
  · have hout : outcome (x >>= f) s = outcome (f a) s' := by rw [outcome_bind, hres]
    obtain ⟨hadv', hsound', hok'⟩ := hf a s' hadv hsound (hok a s' hres)
    exact ⟨by rw [hout]; exact IsTrans.trans _ _ _ hadv hadv', by rwa [hout], by rwa [hout]⟩

theorem check {c : Prop} [Decidable c] {e : Failure} {f : PUnit → Run α} (hs : s.Sound)
    (hf : ¬ c → Safe (f ⟨⟩) s Q) : Safe (if c then MonadExcept.throw e >>= f else f ⟨⟩) s Q := by
  split
  · exact ⟨refl s, hs, fun a s' h => by cases h⟩
  · rename_i hc
    exact hf hc

theorem on {x : Run α} (line : Line) (hx : Safe x s Q) : Safe (on line x) s Q :=
  ⟨hx.advances, hx.sound, fun a s' h => hx.ok a s' (on_ok h)⟩

theorem wire {x : Attempt Error Netlist α} (hg : s.netlist.Grows (x.outcome s.netlist).2)
    (hs : ({ s with netlist := (x.outcome s.netlist).2 } : Session).Sound)
    (hq : ∀ a net, x.outcome s.netlist = (.ok a, net) → Q a { s with netlist := net }) :
    Safe (wire x) s Q := by
  refine ⟨⟨rfl, hg⟩, hs, fun a s' h => ?_⟩
  obtain ⟨net, hr, rfl⟩ := wire_ok h
  exact hq a net hr

/-- A bus operation. -/
theorem wires {x : Attempt Error Netlist α} (hs : s.Sound) (hx : x.Keeps Netlist.Wires)
    (hq : ∀ a net, x.outcome s.netlist = (.ok a, net) → Q a { s with netlist := net }) :
    Safe (Run.wire x) s Q :=
  .wire (hx s.netlist).grows (hs.grow (hx s.netlist).grows (hx s.netlist).frame.1) hq

theorem compile {x : Expression.Step Signal Netlist α} {e : Expression Signal}
    {Q : α × Expression Signal → Session → Prop} (hs : s.Sound)
    (hx : x.Keeps (InvImage Netlist.Wires Prod.snd))
    (hq : ∀ a e' net, x.outcome (e, s.netlist) = (.ok a, (e', net)) →
      Q (a, e') { s with netlist := net }) :
    Safe (compile e x) s Q := by
  have hw : s.netlist.Wires (x.outcome (e, s.netlist)).2.2 := hx (e, s.netlist)
  refine ⟨⟨rfl, hw.grows⟩, hs.grow hw.grows hw.frame.1, fun a s' h => ?_⟩
  obtain ⟨net, hr, rfl⟩ := compile_ok h
  exact hq a.1 a.2 net hr

theorem setBus (hs : s.Sound) (name : String) {b : Bus} (hb : b.Within s.netlist) :
    Safe (setBus name b) s anything :=
  ⟨⟨rfl, refl s.netlist⟩, hs.setBus hb, fun _ _ _ => trivial⟩

theorem setCounter (hs : s.Sound) (counter : Option Nat) : Safe (setCounter counter) s anything :=
  ⟨⟨rfl, refl s.netlist⟩, ⟨hs.intact, hs.buses, hs.ports⟩, fun _ _ _ => trivial⟩

theorem setCursor (hs : s.Sound) (cursor : Nat) : Safe (setCursor cursor) s anything :=
  ⟨⟨rfl, refl s.netlist⟩, hs.moved cursor, fun _ _ _ => trivial⟩

theorem nextLine (hs : s.Sound) : Safe nextLine s anything := by
  refine .bind (.get hs) fun _ _ _ hs' _ => ?_
  split
  · exact .throw hs' _
  · exact .bind (.setCursor hs' _) fun _ _ _ hs'' _ => .pure hs'' trivial

/-- Where each line is safe, so is a body, and what holds of each result when it is
made still holds in the end. -/
theorem body {each : Line → Run α} {P : α → Netlist → Prop}
    (hmono : ∀ a net net', P a net → net.Retains net' → P a net')
    (he : ∀ line (s : Session), s.Sound → Safe (each line) s fun a s' => P a s'.netlist)
    (hs : s.Sound) (budget : Nat) :
    Safe (body each budget) s fun as s' => ∀ a ∈ as, P a s'.netlist := by
  induction budget generalizing s with
  | zero => exact .throw hs _
  | succ budget ih =>
    refine .bind (.nextLine hs) fun line s₁ _ hs₁ _ => ?_
    split
    · exact .pure hs₁ fun a ha => by cases ha
    · refine .bind (he line s₁ hs₁) fun first s₂ _ hs₂ hfirst => ?_
      refine .bind (ih hs₂) fun rest s₃ hadv hs₃ hrest => ?_
      exact .pure hs₃ (List.forall_mem_cons.mpr ⟨hmono _ _ _ hfirst hadv.grows.retains, hrest⟩)

section Lines
variable {each : Line → Run Unit} (he : ∀ line (s : Session), s.Sound → Safe (each line) s anything)
include he

theorem upTo (hs : s.Sound) (stop budget : Nat) : Safe (upTo each stop budget) s anything := by
  induction budget generalizing s with
  | zero => exact .pure hs trivial
  | succ budget ih =>
    refine .bind (.get hs) fun _ s₁ _ hs₁ _ => ?_
    split
    · exact .bind (.nextLine hs₁) fun line s₂ _ hs₂ _ =>
        .bind (he line s₂ hs₂) fun _ s₃ _ hs₃ _ => ih hs₃
    · exact .pure hs₁ trivial

theorem between (hs : s.Sound) (start stop : Nat) : Safe (between each start stop) s anything :=
  .bind (.get hs) fun _ _ _ hs₁ _ => .bind (.setCursor hs₁ _) fun _ _ _ hs₂ _ =>
    .bind (.upTo he hs₂ _ _) fun _ _ _ hs₃ _ => .setCursor hs₃ _

end Lines

theorem passes {pass : Nat → Run Unit} {P : Session → Prop}
    (hp : ∀ k (s : Session), s.Sound → P s → Safe (pass k) s fun _ s' => P s') (hs : s.Sound) (h : P s)
    (n k : Nat) : Safe (passes pass n k) s fun _ s' => P s' := by
  induction n generalizing s k with
  | zero => exact .pure hs h
  | succ n ih => exact .bind (hp k s hs h) fun _ s' _ hs' h' => ih hs' h' (k + 1)

end Safe

/-! ### Formulas -/

theorem safe_evaluate {s : Session} (hs : s.Sound) (o : Operand) : Safe o.evaluate s yieldsBus := by
  cases o with
  | ref r => exact .ask hs fun _ => hs.ref
  | list l => exact .ask hs fun _ => hs.listing
  | source op extent =>
    have hextent : Safe (ask (·.extent extent)) s
        fun width s' => ∀ w, width = some w → w ≤ s'.netlist.capacity :=
      .ask hs fun width h w hw => Session.extent_ok (hw ▸ h)
    refine .bind hextent fun width s₁ _ hs₁ hwidth => ?_
    have hgate : Safe (wire (Netlist.allocate op none none)) s₁ fun gate s' => gate < s'.netlist.size :=
      .wire (Netlist.grows_allocate _ _ _ _)
        (hs₁.grow (Netlist.grows_allocate _ _ _ _) (Netlist.ports_allocate _ _ _ _))
        fun gate net h => (Netlist.allocate_ok h).2.2.lt
    refine .bind hgate fun gate s₂ hadv hs₂ hlt => ?_
    refine .pure hs₂ ?_
    cases width with
    | none => exact .single hs₂.intact hlt
    | some w => exact .fanOut hlt (by rw [hadv.grows.retains.capacity]; exact hwidth w rfl)
  | reduction op l =>
    have hlist : Safe (ask (·.listing l)) s yieldsBus := .ask hs fun _ => hs.listing
    refine .bind hlist fun bus s₁ _ hs₁ hbus => ?_
    have hreduce : Safe (wire (Netlist.reduce op bus)) s₁ fun gate s' => (Bus.single gate).Within s'.netlist :=
      .wires hs₁ (Netlist.wires_reduce op bus) fun _ _ h => Netlist.within_reduce hs₁.intact hbus h
    exact .bind hreduce
      fun gate s₂ _ hs₂ hgate => .pure hs₂ hgate

/-- The operands of an expression part way through are within the netlist. -/
abbrev yieldsExpression (e : Expression Signal) (s : Session) : Prop :=
  e.Operands Netlist.Intact (fun node net => node.Within net) s.netlist

theorem safe_feed {s : Session} (hs : s.Sound) {e : Expression Signal} (he : yieldsExpression e s)
    (t : Term) : Safe (t.feed e) s yieldsExpression := by
  cases t with
  | operand o =>
    refine .bind (safe_evaluate hs o) fun bus s₁ hadv hs₁ hbus => ?_
    have he₁ : yieldsExpression e s₁ :=
      ⟨hs₁.intact, fun node hn => (he.2 node hn).retains hadv.grows.retains⟩
    have hnode : (Signal.bus bus).Within s₁.netlist := hbus
    have hadd : Safe (compile e (Expression.addOperand (.bus bus))) s₁ fun p s' => yieldsExpression p.2 s' :=
      .compile hs₁ (Expression.keeps_addOperand _) fun _ _ _ h => Expression.operands_addOperand he₁ hnode h
    exact .bind hadd fun p s₂ _ hs₂ hp => .pure hs₂ hp
  | operator op =>
    have hkeeps := Expression.keeps_addOperator Signal.wires_resolve (.operator op)
    have hadd : Safe (compile e (Expression.addOperator (.operator op))) s fun p s' => yieldsExpression p.2 s' :=
      .compile hs hkeeps fun _ _ _ h => Expression.operands_addOperator Signal.resolve_within he h
    exact .bind hadd fun p s₁ _ hs₁ hp => .pure hs₁ hp

theorem safe_terms {s : Session} (hs : s.Sound) {e : Expression Signal} (he : yieldsExpression e s)
    (terms : List Term) : Safe (terms.foldlM Term.feed e) s yieldsExpression := by
  induction terms generalizing s e with
  | nil => exact .pure hs he
  | cons t rest ih =>
    rw [List.foldlM_cons]
    exact .bind (safe_feed hs he t) fun e' s' _ hs' he' => ih hs' he'

theorem safe_formula {s : Session} (hs : s.Sound) (terms : List Term) (fault : Option Mismatch) :
    Safe (formula terms fault) s yieldsBus := by
  have hstart : yieldsExpression .empty s := ⟨hs.intact, fun node hn => by cases hn⟩
  refine .bind (safe_terms hs hstart terms) fun e s₁ _ hs₁ he => ?_
  have hkeeps := Expression.keeps_compile Signal.wires_resolve
  have hcompile : Safe (compile e Expression.compile) s₁ fun p s' => p.1.Within s'.netlist :=
    .compile hs₁ hkeeps fun _ _ _ h => Expression.operands_compile Signal.resolve_within he h
  refine .bind hcompile fun p s₂ _ hs₂ hp => ?_
  have hbus : Safe (ask fun _ => p.1.toBus) s₂ yieldsBus := .ask hs₂ fun b hb => by
    rw [Signal.toBus_ok hb] at hp
    exact hp
  refine .bind hbus fun bus s₃ _ hs₃ hbus => ?_
  exact .bind (.ask hs₃ fun _ _ => hbus) fun _ s₄ _ hs₄ hbus => .pure hs₄ hbus

/-! ### Statements -/

theorem safe_lookup {s : Session} (hs : s.Sound) (name : String) :
    Safe (ask (·.lookup name)) s yieldsBus := .ask hs fun _ => hs.lookup

theorem safe_addInput {s : Session} (hs : s.Sound) (name : String) (width : Nat) :
    Safe (wire (Netlist.addInput name width)) s yieldsBus := by
  have hgrow := Netlist.grows_allocateInputs width s.netlist
  have hports := Netlist.ports_allocateInputs width s.netlist
  have hout := Netlist.outcome_addInput name width s.netlist
  rcases hall : outcome (Netlist.allocateInputs width) s.netlist with ⟨_ | _, net⟩
  all_goals rw [hall] at hgrow hports hout
  · refine .wire (Netlist.grows_addInput name width s.netlist) ?_ fun bus net' h => ?_
    · rw [hout]
      exact hs.grow hgrow hports.symm
    · rw [hout] at h
      cases h
  · have hs₁ := hs.grow hgrow hports.symm
    have hbus : (Bus.contiguous s.netlist.size width).Within net :=
      .contiguous hs₁.intact (Nat.le_of_eq (Netlist.allocateInputs_ok hall).1.symm)
    refine .wire (Netlist.grows_addInput name width s.netlist) ?_ fun bus net' h => ?_
    · rw [hout]
      exact hs₁.registerPort hbus
    · rw [hout] at h
      cases h
      exact hbus.retains (Netlist.grows_registerPort net name _).retains

theorem safe_bindSlot {s : Session} (hs : s.Sound) (name : String) (i : Nat) {value : Bus}
    (hv : value.Within s.netlist) : Safe (bindSlot name i value) s anything := by
  unfold bindSlot
  refine .check hs fun _ => ?_
  have hbind : Safe (ask fun s => do
      let gate ← value.gate 0
      (← s.lookup name).bind i gate) s yieldsBus := by
    refine .ask hs fun b hb => ?_
    obtain ⟨gate, hgate, h₁⟩ := except_bind_ok hb
    obtain ⟨whole, hwhole, h₂⟩ := except_bind_ok h₁
    exact (hs.lookup hwhole).bind (hv.gate hgate) h₂
  exact .bind hbind fun bus s₁ _ hs₁ hbus => .setBus hs₁ name hbus

theorem safe_receive {s : Session} (hs : s.Sound) (target : Target) (slot : Option Nat) {bus : Bus}
    (hbus : bus.Within s.netlist) : Safe (target.receive slot bus) s anything := by
  unfold Target.receive
  refine .check hs fun _ => ?_
  cases slot with
  | some i => exact safe_bindSlot hs _ i hbus
  | none =>
    dsimp only
    split
    · rename_i name
      have hport : Safe (modify fun s => { s with netlist := s.netlist.registerPort name bus }) s anything :=
        ⟨⟨rfl, Netlist.grows_registerPort _ _ _⟩, hs.registerPort hbus, fun _ _ _ => trivial⟩
      refine .bind hport fun _ s₁ hadv hs₁ _ => ?_
      exact .setBus hs₁ _ (hbus.retains hadv.grows.retains)
    · exact .setBus hs _ hbus

/-- The lines inside a construct are safe. -/
structure Nested.Safe (n : Nested) : Prop where
  statement : ∀ line (s : Session), s.Sound → Script.Safe (n.statement line) s anything
  branch : ∀ line (s : Session), s.Sound → Script.Safe (n.branch line) s yieldsBus

namespace Nested.Safe

variable {n : Nested} (h : n.Safe) {s : Session} (hs : s.Sound)
include h hs

theorem pass (target source : String) {width : Nat} (hw : width ≤ s.netlist.capacity)
    (start stop k : Nat) : Script.Safe (n.pass target source width start stop k) s anything :=
  .bind (.setBus hs target (.unbound hw)) fun _ _ _ hs₁ _ =>
    .bind (.setCounter hs₁ _) fun _ _ _ hs₂ _ =>
    .bind (.between h.statement hs₂ _ _) fun _ _ _ hs₃ _ =>
    .bind (safe_lookup hs₃ target) fun _ _ _ hs₄ hnext => .setBus hs₄ source hnext

/-- A bus that is within the netlist before the passes is so after them. -/
theorem passes {initial : Bus} (hi : initial.Within s.netlist) (target source : String)
    (start stop count : Nat) :
    Script.Safe (Run.passes (n.pass target source initial.width start stop) count 0) s
      fun _ s' => initial.Within s'.netlist := by
  refine .passes (fun k s hs hi => ?_) hs hi count 0
  exact (h.pass hs target source hi.narrow start stop k).advancing
    fun _ s' hadv _ => hi.retains hadv.grows.retains

theorem loop (target : String) (count : Index) (source : Except Mismatch String) :
    Script.Safe (n.loop target count source) s yieldsBus := by
  refine .bind (.ask (Q := anything) hs fun _ _ => trivial) fun count s₁ _ hs₁ _ => ?_
  refine .bind (.ask (Q := anything) hs₁ fun _ _ => trivial) fun source s₂ _ hs₂ _ => ?_
  refine .check hs₂ fun _ => .bind (.get hs₂) fun _ s₃ _ hs₃ _ => ?_
  refine .bind (.ask (Q := anything) hs₃ fun _ _ => trivial) fun length s₄ _ hs₄ _ => ?_
  refine .bind (.setCursor hs₄ _) fun _ s₅ _ hs₅ _ => ?_
  refine .bind (safe_lookup hs₅ source) fun initial s₆ _ hs₆ hinitial => ?_
  refine .bind (.get hs₆) fun outer s₇ hadv hs₇ _ => ?_
  have hinitial₇ := hinitial.retains hadv.grows.retains
  refine .bind (h.passes hs₇ hinitial₇ _ _ _ _ _)
    fun _ s₈ _ hs₈ hinitial₈ => ?_
  refine .bind (safe_lookup hs₈ target) fun result s₉ hadv₉ hs₉ hresult => ?_
  refine .bind (.setBus hs₉ source (hinitial₈.retains hadv₉.grows.retains))
    fun _ s₁₀ hadv₁₀ hs₁₀ _ => ?_
  refine .bind (.setCounter hs₁₀ _) fun _ s₁₁ hadv₁₁ hs₁₁ _ => ?_
  exact .pure hs₁₁ (hresult.retains (hadv₁₀.grows.trans hadv₁₁.grows).retains)

theorem select (selector : Ref) (fault : Option Mismatch) :
    Script.Safe (n.select selector fault) s yieldsBus := by
  refine .bind (.ask (Q := anything) hs fun _ _ => trivial) fun selector s₁ _ hs₁ _ => ?_
  refine .bind (.ask (Q := anything) hs₁ fun _ _ => trivial) fun _ s₂ _ hs₂ _ => ?_
  refine .bind (.get hs₂) fun _ s₃ _ hs₃ _ => ?_
  have hbody := Script.Safe.body (P := fun (b : Bus) net => b.Within net) (fun _ _ _ hb hr => hb.retains hr)
    h.branch hs₃
  refine .bind (hbody _) fun branches s₄ _ hs₄ hbranches => ?_
  exact .wires hs₄ (Netlist.wires_multiplex _ _) fun _ _ ho => Netlist.within_multiplex hs₄.intact hbranches ho

theorem evaluate (target : String) (v : Value) : Script.Safe (n.evaluate target v) s yieldsBus := by
  cases v with
  | fault m => exact .throw hs _
  | loop count source => exact h.loop hs target count source
  | select selector fault => exact h.select hs selector fault
  | formula terms fault => exact safe_formula hs terms fault

theorem assign (target : Target) (value : Except Mismatch Value) :
    Script.Safe (n.assign target value) s anything := by
  refine .bind (.ask (Q := anything) hs fun _ _ => trivial) fun slot s₁ _ hs₁ _ => ?_
  refine .bind (.ask (Q := anything) hs₁ fun _ _ => trivial) fun v s₂ _ hs₂ _ => ?_
  exact .bind (h.evaluate hs₂ _ v) fun bus s₃ _ hs₃ hbus => safe_receive hs₃ target slot hbus

theorem execute (st : Statement) : Script.Safe (n.execute st) s anything := by
  cases st with
  | fault m => exact .throw hs _
  | block =>
    refine .bind (.get hs) fun _ s₁ _ hs₁ _ => ?_
    have hbody := Script.Safe.body (P := fun _ _ => True) (fun _ _ _ _ _ => trivial) h.statement hs₁
    exact .bind (hbody _) fun _ _ _ hs₂ _ => .pure hs₂ trivial
  | declare name width =>
    have hcheck : Script.Safe (ask (·.checkWidth width)) s fun _ s' => width ≤ s'.netlist.capacity :=
      .ask hs fun _ => Session.checkWidth_ok
    exact .bind hcheck fun _ s₁ _ hs₁ hw => .setBus hs₁ name (.unbound hw)
  | input name width =>
    exact .bind (safe_addInput hs name width)
      fun bus s₁ _ hs₁ hbus => .setBus hs₁ name hbus
  | assign target value => exact h.assign hs target value

end Nested.Safe

theorem safe_nested (depth : Nat) : (nested depth).Safe := by
  induction depth with
  | zero => exact ⟨fun _ _ hs => .throw hs _, fun _ _ hs => .throw hs _⟩
  | succ depth ih =>
    exact ⟨fun line _ hs => .on line (ih.execute hs _),
      fun line _ hs => .on line (ih.evaluate hs _ _)⟩

theorem safe_build {s : Session} (hs : s.Sound) : Safe Session.build s anything :=
  .bind (.get hs) fun _ _ _ hs₁ _ =>
    .upTo (safe_nested _).statement hs₁ _ _

/-! ### Whole runs -/

namespace Session

/-- What can be done with a session from outside. -/
inductive Action where
  /-- Carry out the lines that are left, as far as that goes. -/
  | build
  | tick
  | drive (gate : Nat) (value : Bool)
  | write (bus : Bus) (value : Nat)

def perform (s : Session) : Action → Session
  | .build => (build.outcome s).2
  | .tick => { s with netlist := s.netlist.tick }
  | .drive gate value => { s with netlist := s.netlist.drive gate value }
  | .write bus value => { s with netlist := s.netlist.write bus value }

theorem sound_start (source : String) (settings : Settings) : (start source settings).Sound where
  intact := ⟨Nat.zero_le _, fun i g hg => by simp [start, Netlist.empty] at hg⟩
  buses name b hb := by simp [start, bus?] at hb
  ports name b hb := by simp [start, Netlist.empty, Netlist.port?] at hb

/-- New values leave a session sound. -/
theorem Sound.revalue {s : Session} (hs : s.Sound) {net : Netlist} (h : s.netlist.Revalued net) :
    ({ s with netlist := net } : Session).Sound ∧ s.Advances { s with netlist := net } :=
  ⟨hs.grow h.grows h.ports, ⟨rfl, h.grows⟩⟩

theorem Sound.perform {s : Session} (hs : s.Sound) (a : Action) :
    (s.perform a).Sound ∧ s.Advances (s.perform a) := by
  cases a with
  | build => exact ⟨(safe_build hs).sound, (safe_build hs).advances⟩
  | tick => exact hs.revalue (Netlist.revalued_tick _)
  | drive gate value => exact hs.revalue (Netlist.revalued_drive _ _ _)
  | write bus value => exact hs.revalue (Netlist.revalued_write _ _ _)

theorem Sound.performs {s : Session} (hs : s.Sound) (actions : List Action) :
    (actions.foldl Session.perform s).Sound ∧ s.Advances (actions.foldl Session.perform s) := by
  induction actions generalizing s with
  | nil => exact ⟨hs, refl s⟩
  | cons a rest ih =>
    obtain ⟨hsound, hadv⟩ := hs.perform a
    obtain ⟨hsound', hadv'⟩ := ih hsound
    exact ⟨hsound', IsTrans.trans _ _ _ hadv hadv'⟩

/-- **Whatever is done with a script, in whatever order and with whatever success, its
session stays sound**, with the room it was given, and whatever is done next keeps
every gate's number, operation, pins and depth. -/
theorem sound_after (source : String) (settings : Settings) (done : List Action) (next : Action) :
    let s := done.foldl Session.perform (start source settings)
    s.netlist.capacity = settings.capacity ∧ s.Sound ∧ s.netlist.Retains (s.perform next).netlist := by
  obtain ⟨hsound, hadv⟩ := (sound_start source settings).performs done
  exact ⟨hadv.grows.retains.capacity, hsound, (hsound.perform next).2.grows.retains⟩

end Session

end BusLogic.Script
