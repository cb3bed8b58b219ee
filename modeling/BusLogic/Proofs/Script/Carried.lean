import BusLogic.Proofs.Script.Constructs
import Mathlib.Data.Fintype.EquivFin

/-! Statements carried out one after the other.

A block, a pass of a loop and a whole script all do the same with their lines: they take
them as statements, one after the other (`Carried`). A block stops in front of its `END`
(`block_carried_iff`), a pass in front of the line that the scan found, which no statement
of the body goes beyond (`upTo_carried`), and a build behind the last line
(`build_carried_iff`). What is done with lines depends on their texts, the netlist, the
buses and the counter only (`Carried.copy`). -/
namespace BusLogic.Script
open Attempt Run
open Session (Takes Still Beside)

/-- The lines `W` are statements, which the session carries out. -/
inductive Carried : List Line → Session → Session → Prop
  | nil {s : Session} : Carried [] s s
  | cons {s u t : Session} {l : Line} {V W : List Line} (hl : s.lines[s.cursor]? = some l)
    (hu : outcome (ample.statement l) { s with cursor := s.cursor + 1 } = (.ok (), u))
    (hV : Takes V { s with cursor := s.cursor + 1 } u) (hW : Carried W u t) : Carried (l :: (V ++ W)) s t

section Carried
variable {s u t : Session} {l e : Line} {U V W R : List Line} {n : Nat}

theorem Carried.takes (h : Carried W s t) : s.Takes W t := by
  induction h with
  | nil => exact Still.takes ⟨rfl, rfl⟩
  | cons hl _ hV _ ih => simpa using ((takes_line hl).trans hV).trans ih

/-- The lines behind those that were taken are left. -/
theorem Session.Takes.left (h : s.Takes W t) (hrest : s.rest = W ++ R) : t.rest = R :=
  List.append_cancel_left (h.rest.symm.trans hrest)

theorem Carried.append (hV : Carried V s u) (hW : Carried W u t) : Carried (V ++ W) s t := by
  induction hV with
  | nil => exact hW
  | cons hl hu hV _ ih =>
    rw [List.cons_append, List.append_assoc]
    exact .cons hl hu hV (ih hW)

/-! ### Bodies -/

theorem body_carried {rs : List Unit} (h : outcome (body ample.statement n) s = (.ok rs, t)) :
    ∃ U e u, Carried U s u ∧ u.lines[u.cursor]? = some e ∧ e.isEnd = true ∧
      t = { u with cursor := u.cursor + 1 } := by
  induction n generalizing s rs with
  | zero => cases h
  | succ n ih =>
    obtain ⟨l, hl, ⟨hend, _, rfl⟩ | ⟨_, _, rs', u, _, hu, hbody⟩⟩ := body_succ_eq_ok.mp h
    · exact ⟨[], l, s, .nil, hl, hend, rfl⟩
    · obtain ⟨V, _, hV, _⟩ := spans_ample.statement l _ u () hu
      obtain ⟨U, e, w, hU, he, hend, rfl⟩ := ih hbody
      exact ⟨_, e, w, .cons hl hu hV hU, he, hend, rfl⟩

theorem Carried.body (h : Carried U s u) (hl : u.lines[u.cursor]? = some e) (he : e.isEnd = true)
    (hn : s.lines.size ≤ s.cursor + n) :
    ∃ rs, outcome (body ample.statement n) s = (.ok rs, { u with cursor := u.cursor + 1 }) := by
  induction h generalizing n with
  | @nil s =>
    have hlt : s.cursor < s.lines.size := (Array.getElem?_eq_some_iff.mp hl).1
    obtain ⟨n, rfl⟩ : ∃ m, n = m + 1 := ⟨n - 1, by omega⟩
    exact ⟨[], body_succ_eq_ok.mpr ⟨e, hl, .inl ⟨he, rfl, rfl⟩⟩⟩
  | @cons s u t l V W hl' hu hV _ ih =>
    have hlt : s.cursor < s.lines.size := (Array.getElem?_eq_some_iff.mp hl').1
    obtain ⟨n, rfl⟩ : ∃ m, n = m + 1 := ⟨n - 1, by omega⟩
    have hcursor : u.cursor = s.cursor + 1 + V.length := hV.cursor
    have hlines : u.lines = s.lines := hV.lines
    obtain ⟨rs, hrs⟩ := ih hl (n := n) (by rw [hlines]; omega)
    exact ⟨() :: rs, body_succ_eq_ok.mpr ⟨l, hl', .inr ⟨isEnd_of_ample hu, (), rs, u, rfl, hu, hrs⟩⟩⟩

/-- A block carries out the statements up to an `END`, and takes the `END`. -/
theorem block_carried_iff (hb : statement l.text = .block) : outcome (ample.statement l) s = (.ok (), t) ↔
    ∃ U e u, Carried U s u ∧ u.lines[u.cursor]? = some e ∧ e.isEnd = true ∧
      t = { u with cursor := u.cursor + 1 } := by
  rw [ample_statement, on_eq_ok, hb, Nested.block_eq_ok]
  constructor
  · exact fun ⟨rs, h⟩ => body_carried h
  · rintro ⟨U, e, u, hU, hl, he, rfl⟩
    exact hU.body hl he (by omega)

/-! ### Lines up to a number -/

/-- Lines that close what they open, or behind which there are none, are taken all of them. -/
theorem upTo_carried {r : Unit} (hW : Closes W ∨ R = []) (hrest : s.rest = W ++ R) (hn : W.length ≤ n)
    (h : outcome (upTo ample.statement (s.cursor + W.length) n) s = (.ok r, t)) : Carried W s t := by
  induction n generalizing W s with
  | zero =>
    obtain rfl : W = [] := List.eq_nil_of_length_eq_zero (Nat.le_zero.mp hn)
    obtain ⟨_, rfl⟩ := pure_eq_ok.mp h
    exact .nil
  | succ n ih =>
    obtain ⟨hle, rfl⟩ | ⟨_, l, u, hl, hu, hup⟩ := upTo_succ_eq_ok.mp h
    · obtain rfl : W = [] := List.eq_nil_of_length_eq_zero (by omega)
      exact .nil
    cases W with
    | nil => simp at *
    | cons l' W₁ =>
      obtain ⟨hl', _⟩ := Session.rest_eq_cons_iff.mp hrest
      rw [hl] at hl'
      cases hl'
      obtain ⟨V, W₂, _, rfl, htakes, _, hR, hstop⟩ := statement_within hW hrest hl hu
      rw [hstop] at hup
      rw [List.length_cons, List.length_append] at hn
      exact .cons hl hu (htakes.tail hl) (ih (hW.imp_left (Closes.drop (V := l :: V))) hR (by omega) hup)

theorem Carried.upTo (h : Carried W s t) (hn : W.length ≤ n) :
    outcome (upTo ample.statement (s.cursor + W.length) n) s = (.ok (), t) := by
  induction h generalizing n with
  | nil => exact upTo_of_le (Nat.le_refl _) n
  | @cons s u t l V W hl hu hV _ ih =>
    rw [List.length_cons, List.length_append] at hn
    obtain ⟨n, rfl⟩ : ∃ m, n = m + 1 := ⟨n - 1, by omega⟩
    have hstop : s.cursor + (l :: (V ++ W)).length = u.cursor + W.length := by
      rw [hV.cursor, List.length_cons, List.length_append]
      simp only
      omega
    refine upTo_succ_eq_ok.mpr (.inr ⟨by rw [List.length_cons]; omega, l, u, hl, hu, ?_⟩)
    rw [hstop]
    exact ih (by omega)

theorem rest_start (source : String) (settings : Settings) :
    (Session.start source settings).rest = linesOf source.toList := by
  simp [Session.rest, Session.start]

/-- Building a script carries out all its lines. -/
theorem build_carried_iff (hs : s.cursor ≤ s.lines.size) :
    outcome Session.build s = (.ok (), t) ↔ Carried s.rest s t := by
  have hlen : s.rest.length = s.lines.size - s.cursor := by
    rw [Session.rest, List.length_drop, Array.length_toList]
  have hstop : s.lines.size = s.cursor + s.rest.length := by omega
  rw [outcome_build, ← hlen, hstop]
  constructor
  · exact upTo_carried (R := []) (.inr rfl) (by simp) (Nat.le_refl _)
  · exact fun h => h.upTo (Nat.le_refl _)

end Carried

/-! ### The same texts -/

/-- The two sessions have come to the same. -/
structure Session.Alike (s s' : Session) : Prop where
  netlist : s'.netlist = s.netlist
  buses : s'.buses = s.buses
  counter : s'.counter = s.counter

/-- Wherever the two stand. -/
theorem Session.Alike.moved {s s' : Session} (h : s.Alike s') (m n : Nat) :
    Session.Alike { s with cursor := m } { s' with cursor := n } := ⟨h.netlist, h.buses, h.counter⟩

/-- There is always another name. -/
theorem exists_fresh (names : List String) : ∃ keep, keep ≠ "" ∧ keep ∉ names := by
  obtain ⟨keep, h⟩ := Infinite.exists_notMem_finset ("" :: names).toFinset
  rw [List.mem_toFinset, List.mem_cons, not_or] at h
  exact ⟨keep, h⟩

section Copy
variable {s s' t : Session} {l l' : Line} {V V' W W' T T' : List Line}

/-- A statement on lines with the same texts. -/
theorem statement_copy (hs : s.Alike s') (hl : l'.text = l.text) (hV : V'.map Line.text = V.map Line.text)
    (hrest' : s'.rest = V' ++ T') (ht : s.Takes V t) (h : outcome (ample.statement l) s = (.ok (), t)) :
    ∃ t', outcome (ample.statement l') s' = (.ok (), t') ∧ s'.Takes V' t' ∧ t.Alike t' := by
  obtain ⟨keep, hkeep, hfresh⟩ := exists_fresh ((l :: V).flatMap Line.names)
  have hnames (x : Line) (hx : x ∈ l :: V) : keep ∉ x.names :=
    fun hmem => hfresh (List.mem_flatMap.mpr ⟨x, hx, hmem⟩)
  have hf : Follows keep (s.bus? keep) (s.bus? keep) s.counter s.counter l.loops.toNat t.rest T' V V' s s' :=
    ⟨⟨hs.netlist, fun name _ => by rw [Session.bus?, Session.bus?, hs.buses], rfl,
      by rw [Session.bus?, Session.bus?, hs.buses]⟩, rfl, hs.counter, ht.rest, hrest',
      .of_texts hV fun x hx => hnames x (List.mem_cons_of_mem _ hx)⟩
  obtain ⟨t', W₂, W₂', ht', hf'⟩ := (leads_ample hkeep (V.length + 1)).1 (Nat.lt_succ_self _) (isEnd_of_ample h)
    (.of_text hl (hnames l (List.mem_cons_self ..))) hf h (Nat.le_refl _)
  obtain rfl : W₂ = [] := List.self_eq_append_left.mp hf'.rest
  obtain rfl : W₂' = [] := List.eq_nil_of_length_eq_zero hf'.copied.length
  refine ⟨t', ht', ?_, hf'.netlist, ?_, hf'.right.trans hf'.left.symm⟩
  · obtain ⟨V₀, _, hV₀, _⟩ := spans_ample.statement l' s' t' () ht'
    have hcut := hV₀.rest
    rw [hrest', hf'.rest', List.nil_append] at hcut
    rw [List.append_cancel_right hcut]
    exact hV₀
  · -- the spare name stands for what it did, and so for the same in both
    refine Std.ExtTreeMap.ext_getElem? fun name => ?_
    by_cases hname : name = keep
    · rw [hname]
      exact hf'.spare'.trans hf'.spare.symm
    · exact hf'.buses name hname

theorem Carried.copy (h : Carried W s t) (hs : s.Alike s') (hW : W'.map Line.text = W.map Line.text)
    (hrest' : s'.rest = W' ++ T') : ∃ t', Carried W' s' t' ∧ t.Alike t' := by
  induction h generalizing s' W' with
  | nil =>
    rw [List.map_nil] at hW
    obtain rfl := List.map_eq_nil_iff.mp hW
    exact ⟨s', .nil, hs⟩
  | @cons s u t l V W hl hu hV _ ih =>
    rw [List.map_cons, List.map_append] at hW
    obtain ⟨l', X, rfl, htext, hX⟩ := List.map_eq_cons_iff.mp hW
    obtain ⟨V', W', rfl, hV', hW'⟩ := List.map_eq_append_iff.mp hX
    obtain ⟨hl', hrest⟩ := Session.rest_eq_cons_iff.mp hrest'
    have hrest : ({ s' with cursor := s'.cursor + 1 } : Session).rest = V' ++ (W' ++ T') := by
      rw [← List.append_assoc]
      exact hrest
    obtain ⟨u', hu', htakes, halike⟩ := statement_copy (hs.moved _ _) htext hV' hrest hV hu
    obtain ⟨t', ht', hend⟩ := ih halike hW' (htakes.left hrest)
    exact ⟨t', .cons hl' hu' htakes ht', hend⟩

end Copy

end BusLogic.Script
