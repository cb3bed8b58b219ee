import BusLogic.Proofs.Netlist.Adder
import BusLogic.Proofs.Script.Carried
import BusLogic.Proofs.Script.Joining
import BusLogic.Proofs.Script.Unrolling
import BusLogic.Proofs.Text

/-! A script for adders of every width.

`adderScript n` wires a ripple-carry adder of `n` bits: a loop adds a stage with every pass,
and the name `cin` stands for the carry on the way. With room for them, the script wires
exactly the gates of `RippleAdder n n` (`Adding.passes` for the loop), whose sum is the sum
of the numbers on its inputs (`adderScript_adds`). -/
namespace BusLogic.Script
open Attempt Run
open Session (Takes Still)
open Netlist (carryGate sumSlots RippleAdder)

/-! ### The text -/

/-- The lines of the script for `n` bits. -/
def adderRows (n : Nat) : List String :=
  ["# " ++ toString n ++ "-bit ripple-carry adder",
   "IN a /" ++ toString n,
   "IN b /" ++ toString n,
   "IN cin /1",
   "",
   "p = a XOR b",
   "g = a AND b",
   "sum /" ++ toString n,
   "",
   "# cin carries the running carry through the unrolled chain",
   "c = LOOP(" ++ toString n ++ ") cin",
   "  sum.i = p.i XOR cin",
   "  c = p.i AND cin OR g.i",
   "END",
   "",
   "OUT s = sum",
   "OUT cout = c",
   ""]

def adderScript (n : Nat) : String := "\n".intercalate (adderRows n)

example : adderScript 4 =
    "# 4-bit ripple-carry adder\nIN a /4\nIN b /4\nIN cin /1\n\np = a XOR b\ng = a AND b\nsum /4\n\n" ++
    "# cin carries the running carry through the unrolled chain\nc = LOOP(4) cin\n  sum.i = p.i XOR cin\n" ++
    "  c = p.i AND cin OR g.i\nEND\n\nOUT s = sum\nOUT cout = c\n" := by decide +kernel

/-- What these lines say. -/
def adderTexts (n : Nat) : List (List Char) :=
  ["IN a /".toList ++ decimal n, "IN b /".toList ++ decimal n, "IN cin /1".toList, "p = a XOR b".toList,
   "g = a AND b".toList, "sum /".toList ++ decimal n, "c = LOOP(".toList ++ (decimal n ++ ") cin".toList),
   "sum.i = p.i XOR cin".toList, "c = p.i AND cin OR g.i".toList, "END".toList, "OUT s = sum".toList,
   "OUT cout = c".toList]

theorem toList_toString (n : Nat) : (toString n).toList = decimal n := Nat.toList_repr

/-- A digit is neither a line feed nor blank. -/
theorem plain_of_mem_decimal {n : Nat} {c : Char} (h : c ∈ decimal n) : c ≠ '\n' ∧ Text.isBlank c = false := by
  have hword := isWordChar_of_isDigit (isDigit_decimal h)
  refine ⟨?_, isBlank_of_isWordChar hword⟩
  rintro rfl
  cases hword

theorem lines_adderScript (n : Nat) : Text.lines (adderScript n).toList = (adderRows n).map String.toList := by
  have hdecimal : '\n' ∉ decimal n := fun h => (plain_of_mem_decimal h).1 rfl
  rw [adderScript, String.toList_intercalate]
  apply Text.lines_intercalate
  · simp [adderRows]
  · simp [adderRows, ← toList_toString] at hdecimal ⊢
    exact hdecimal

/-- What the script says. -/
theorem texts_adderScript (n : Nat) : (linesOf (adderScript n).toList).map Line.text = adderTexts n := by
  obtain ⟨d, ds, hcons, _⟩ := decimal_cons n
  have hne {c : Char} {w : List Char} (hw : w.head? = some c) : w ≠ [] :=
    List.ne_nil_of_mem (List.mem_of_head? hw)
  have hnumber {w : List Char} {c : Char} (hw : w.head? = some c) (hc : Text.isBlank c = false) :
      Text.trim (w ++ decimal n) = w ++ decimal n := by
    apply Text.trim_eq_self
    · rw [List.head?_append_of_ne_nil _ (hne hw), hw]
      rintro _ ⟨⟩
      exact hc
    · intro x hx
      rw [List.getLast?_append_of_ne_nil _ (by simp [hcons])] at hx
      exact (plain_of_mem_decimal (List.mem_of_getLast? hx)).2
  have hwithin {w X : List Char} {c x : Char} (hw : w.head? = some c) (hc : Text.isBlank c = false)
      (hX : X.getLast? = some x) (hx : Text.isBlank x = false) :
      Text.trim (w ++ (decimal n ++ X)) = w ++ (decimal n ++ X) := by
    have hX' : X ≠ [] := List.ne_nil_of_mem (List.mem_of_getLast? hX)
    apply Text.trim_eq_self
    · rw [List.head?_append_of_ne_nil _ (hne hw), hw]
      rintro _ ⟨⟩
      exact hc
    · rw [List.getLast?_append_of_ne_nil _ (by simp [hX']), List.getLast?_append_of_ne_nil _ hX', hX]
      rintro _ ⟨⟩
      exact hx
  have hcomment := hwithin (w := "# ".toList) (X := "-bit ripple-carry adder".toList) rfl rfl rfl rfl
  have ha := hnumber (w := "IN a /".toList) rfl rfl
  have hb := hnumber (w := "IN b /".toList) rfl rfl
  have hsum := hnumber (w := "sum /".toList) rfl rfl
  have hloop := hwithin (w := "c = LOOP(".toList) (X := ") cin".toList) rfl rfl rfl rfl
  rw [map_text_linesOf, lines_adderScript]
  simp only [adderRows, List.map_cons, List.map_nil, String.toList_append, toList_toString, List.append_assoc,
    hcomment, ha, hb, hsum, hloop]
  rfl

/-! ### Reading the lines -/

section Reading
variable {n : Nat} (hn : n < 2 ^ 64)
include hn

theorem statement_input_a : statement ("IN a /".toList ++ decimal n) = .input "a" n :=
  declared_decimal hn (.input "a")

theorem statement_input_b : statement ("IN b /".toList ++ decimal n) = .input "b" n :=
  declared_decimal hn (.input "b")

theorem statement_declare_sum : statement ("sum /".toList ++ decimal n) = .declare "sum" n :=
  declared_decimal hn (.declare "sum")

theorem statement_loop_c : statement ("c = LOOP(".toList ++ (decimal n ++ ") cin".toList)) =
    .assign (.bus "c") (.ok (.loop (.literal n) (.ok "cin"))) := by
  have hindex := index_decimal hn (X := ") cin".toList) (by rintro _ ⟨⟩; rfl)
  have heat : eat? ['('] ('(' :: (decimal n ++ ") cin".toList)) = some (decimal n ++ ") cin".toList) := by
    show some (Text.trimStart (decimal n ++ ") cin".toList)) = _
    rw [trimStart_decimal]
  show Statement.assign (.bus "c") (.ok (loop ('(' :: (decimal n ++ ") cin".toList)))) = _
  simp only [loop, heat, hindex]
  rfl

end Reading

/-- A line that assigns a formula, whose terms take up all the text behind the equals sign. -/
theorem statement_formula {line : List Char} {target : Target} {ts : List Term} (text : String)
    (hline : statement line = .assign target (.ok (.formula (terms text.toList).1 (leftover? (terms text.toList).2))))
    (hterms : terms text.toList = (ts, [])) : statement line = .assign target (.ok (.formula ts none)) := by
  rw [hline, hterms]
  rfl

/-! ### Lines with room for their gates -/

/-- Carrying out the line `l` gives the name a bus, and perhaps adds gates. -/
structure Gives (l : Line) (name : String) (b : Bus) (s u : Session) : Prop where
  carried : Carried [l] s u
  buses : u.buses = s.buses.insert name b
  counter : u.counter = s.counter
  grows : s.netlist.Grows u.netlist

section Lines
variable {l : Line} {R : List Line} {s u : Session} {name : String} {b : Bus}

theorem Gives.rest (h : Gives l name b s u) (hrest : s.rest = l :: R) : u.rest = R := h.carried.takes.left hrest

theorem Gives.bus? (h : Gives l name b s u) (other : String) :
    u.bus? other = if name = other then some b else s.bus? other := bus?_of_insert h.buses other

theorem lookup_of_bus? (h : s.bus? name = some b) : s.lookup name = .ok b := by
  rw [Session.lookup, h]

theorem ref_of_bus? (h : s.bus? name = some b) : s.ref ⟨name, none⟩ = .ok b :=
  Session.ref_eq_ok.mpr ⟨b, lookup_of_bus? h, .inl ⟨rfl, rfl⟩⟩

/-- A statement of one line. -/
theorem gives_of_execute {net : Netlist} (hrest : s.rest = l :: R)
    (h : outcome (ample.execute (statement l.text)) { s with cursor := s.cursor + 1 } =
      (.ok (), { s with cursor := s.cursor + 1, netlist := net, buses := s.buses.insert name b }))
    (hgrows : s.netlist.Grows net) :
    Gives l name b s { s with cursor := s.cursor + 1, netlist := net, buses := s.buses.insert name b } := by
  obtain ⟨hl, _⟩ := Session.rest_eq_cons_iff.mp hrest
  have hstill : Still { s with cursor := s.cursor + 1 }
      { s with cursor := s.cursor + 1, netlist := net, buses := s.buses.insert name b } := ⟨rfl, rfl⟩
  have hcarried := Carried.cons hl (by rw [ample_statement, on_eq_ok]; exact h) hstill.takes .nil
  exact ⟨hcarried, rfl, rfl, hgrows⟩

theorem gives_input {width : Nat} (hrest : s.rest = l :: R) (hread : statement l.text = .input name width)
    (hroom : s.netlist.size + width ≤ s.netlist.capacity) :
    ∃ u, Gives l name (.contiguous s.netlist.size width) s u ∧ u.netlist.size = s.netlist.size + width ∧
      ∀ k < width, u.netlist.Has (s.netlist.size + k) .passthrough none none := by
  obtain ⟨net, hnet, hgrows, hadded⟩ := Netlist.addInput_of_room name hroom
  refine ⟨_, gives_of_execute hrest ?_ hgrows, hadded⟩
  rw [hread]
  exact Nested.input_eq_ok.mpr ⟨_, net, hnet, rfl⟩

theorem gives_declare {width : Nat} (hrest : s.rest = l :: R) (hread : statement l.text = .declare name width)
    (hroom : width ≤ s.netlist.capacity) : ∃ u, Gives l name (.unbound width) s u ∧ u.netlist = s.netlist := by
  have hcheck : s.checkWidth width = .ok () := if_neg (Nat.not_lt.mpr hroom)
  refine ⟨_, gives_of_execute hrest ?_ (refl s.netlist), rfl⟩
  rw [hread]
  exact Nested.declare_eq_ok.mpr ⟨hcheck, rfl⟩

/-- A formula assigned to a name. -/
theorem gives_formula {terms : List Term} {net : Netlist} (hrest : s.rest = l :: R)
    (hread : statement l.text = .assign (.bus name) (.ok (.formula terms none)))
    (h : outcome (formula terms none) { s with cursor := s.cursor + 1 } =
      (.ok b, { s with cursor := s.cursor + 1, netlist := net }))
    (hb : b.isEmpty = false) (hgrows : s.netlist.Grows net) :
    Gives l name b s { s with cursor := s.cursor + 1, netlist := net, buses := s.buses.insert name b } := by
  refine gives_of_execute hrest ?_ hgrows
  rw [hread]
  exact Nested.assign_eq_ok.mpr ⟨none, _, b, _, rfl, rfl, h, hb, .inr ⟨rfl, rfl⟩⟩

/-- Two buses of one width, joined bit by bit. -/
theorem gives_join {left right : String} {op : Opcode} {i j w : Nat} (hrest : s.rest = l :: R)
    (hread : statement l.text = .assign (.bus name) (.ok (.formula
      [.operand (.ref ⟨left, none⟩), .operator op, .operand (.ref ⟨right, none⟩)] none)))
    (hleft : s.bus? left = some (.contiguous i w)) (hright : s.bus? right = some (.contiguous j w))
    (hop : op.arity = 2) (hw : 0 < w) (hi : i + w ≤ s.netlist.size) (hj : j + w ≤ s.netlist.size)
    (hroom : s.netlist.size + w ≤ s.netlist.capacity) :
    ∃ u, Gives l name (.contiguous s.netlist.size w) s u ∧ u.netlist.size = s.netlist.size + w ∧
      ∀ m < w, u.netlist.Has (s.netlist.size + m) op (some (i + m)) (some (j + m)) := by
  have hempty : (Bus.contiguous s.netlist.size w).isEmpty = false := by
    simp [Bus.isEmpty, Bus.width]
    omega
  obtain ⟨net, hformula, hgrows, hadded⟩ := formula_two (s := { s with cursor := s.cursor + 1 })
    (ref_of_bus? hleft) (ref_of_bus? hright) hop hi hj hroom
  exact ⟨_, gives_formula hrest hread hformula hempty hgrows, hadded⟩

/-- A bus shown as a port. -/
theorem gives_port {other : String} (hrest : s.rest = l :: R)
    (hread : statement l.text = .assign (.port name) (.ok (.formula [.operand (.ref ⟨other, none⟩)] none)))
    (hother : s.bus? other = some b) (hb : b.isEmpty = false) :
    ∃ u, Gives l name b s u ∧ u.netlist = s.netlist.registerPort name b := by
  have hformula : outcome (formula [.operand (.ref ⟨other, none⟩)] none) { s with cursor := s.cursor + 1 } =
      (.ok b, { s with cursor := s.cursor + 1 }) := formula_ref hother
  refine ⟨_, gives_of_execute hrest ?_ (Netlist.grows_registerPort s.netlist name b), rfl⟩
  rw [hread]
  exact Nested.assign_eq_ok.mpr ⟨none, _, b, _, rfl, rfl, hformula, hb, .inr ⟨rfl, rfl⟩⟩

/-- A formula of one bit bound to a slot. -/
theorem gives_slot {index : Index} {terms : List Term} {k gate : Nat} {whole : Bus} {net : Netlist}
    (hrest : s.rest = l :: R) (hread : statement l.text = .assign (.slot name index) (.ok (.formula terms none)))
    (hwhole : s.lookup name = .ok whole) (hindex : s.index index = .ok k) (hk : k < whole.width)
    (h : outcome (formula terms none) { s with cursor := s.cursor + 1 } =
      (.ok (.contiguous gate 1), { s with cursor := s.cursor + 1, netlist := net }))
    (hbind : whole.bind k gate = .ok b) (hgrows : s.netlist.Grows net) :
    Gives l name b s { s with cursor := s.cursor + 1, netlist := net, buses := s.buses.insert name b } := by
  have hcheck : (Target.slot name index).check { s with cursor := s.cursor + 1 } = .ok (some k) := by
    show (s.lookup name >>= fun bus => s.index index >>= fun i =>
      if i < bus.width then pure (some i) else throw (.indexOutOfRange i bus.width)) = _
    rw [hwhole, hindex]
    exact if_pos hk
  have hgate : (Bus.contiguous gate 1).gate 0 = .ok gate := Bus.gate_eq_ok.mpr rfl
  refine gives_of_execute hrest ?_ hgrows
  rw [hread]
  exact Nested.assign_eq_ok.mpr ⟨some k, _, _, _, hcheck, rfl, h, rfl,
    .inl ⟨k, rfl, bindSlot_eq_ok.mpr ⟨gate, whole, b, rfl, hgate, hwhole, hbind, rfl⟩⟩⟩

end Lines

/-! ### The loop -/

/-- The bus `sum` after `k` passes: the slots of the stages that are there, and the rest
unbound. -/
def sumBus (n k : Nat) : Bus := .explicit (sumSlots n k ++ List.replicate (n - k) none)

theorem bind_sumBus {n k : Nat} (hk : k < n) : (sumBus n k).bind k (4 * n + 1 + 3 * k) = .ok (sumBus n (k + 1)) := by
  have hlen : (sumSlots n k).length = k := by simp [sumSlots]
  have hleft : n - k = (n - (k + 1)) + 1 := by omega
  have hslot : (sumSlots n k ++ List.replicate (n - k) none)[k]? = some none := by
    rw [List.getElem?_append_right (by omega), hlen, Nat.sub_self, hleft]
    rfl
  have hset : (sumSlots n k ++ List.replicate (n - k) none).set k (some (4 * n + 1 + 3 * k)) =
      sumSlots n (k + 1) ++ List.replicate (n - (k + 1)) none := by
    rw [List.set_append_right _ _ (by omega), hlen, Nat.sub_self, hleft, List.replicate_succ, List.set_cons_zero]
    simp [sumSlots, List.range_succ]
  simp only [sumBus, Bus.bind, hslot, hset]

/-- The session in front of pass `k`: `k` stages are wired, `cin` stands for the carry of the
last one, and so does `c`, if there is one. -/
structure Adding (n k : Nat) (s : Session) : Prop where
  adder : RippleAdder n k s.netlist
  room : 7 * n + 1 ≤ s.netlist.capacity
  a : s.bus? "a" = some (.contiguous 0 n)
  b : s.bus? "b" = some (.contiguous n n)
  cin : s.bus? "cin" = some (.contiguous (carryGate n k) 1)
  p : s.bus? "p" = some (.contiguous (2 * n + 1) n)
  g : s.bus? "g" = some (.contiguous (3 * n + 1) n)
  sum : s.bus? "sum" = some (sumBus n k)
  c : 0 < k → s.bus? "c" = some (.contiguous (carryGate n k) 1)

section Loop
variable {s : Session} {name : String} {n k : Nat}

/-- The slot with the number of the pass. -/
theorem ref_of_counter {start : Nat} (h : s.bus? name = some (.contiguous start n)) (hc : s.counter = some k)
    (hk : k < n) : s.ref ⟨name, some ⟨.constant "i", none⟩⟩ = .ok (.contiguous (start + k) 1) := by
  have hindex : s.index (.constant "i") = .ok k := by simp [Session.index, Session.constant?, hc]
  have hslice : (Bus.contiguous start n).slice k k = .ok (.contiguous (start + k) 1) := by
    simp [Bus.slice, Bus.width, hk]
  exact Session.ref_eq_ok.mpr ⟨_, lookup_of_bus? h, .inr ⟨_, k, k, rfl, hindex, hindex, hslice⟩⟩

theorem carryGate_lt (hk : k ≤ n) : carryGate n k < 4 * n + 1 + 3 * k := by
  cases k with
  | zero =>
    simp only [carryGate]
    omega
  | succ k =>
    simp only [carryGate]
    omega

/-- The first line of the body wires the sum of stage `k`. -/
theorem gives_sum {l : Line} {R : List Line} (hrest : s.rest = l :: R) (hl : l.text = "sum.i = p.i XOR cin".toList)
    (hk : k < n) (hcounter : s.counter = some k) (hp : s.bus? "p" = some (.contiguous (2 * n + 1) n))
    (hcin : s.bus? "cin" = some (.contiguous (carryGate n k) 1)) (hsum : s.bus? "sum" = some (sumBus n k))
    (hsize : s.netlist.size = 4 * n + 1 + 3 * k) (hroom : 7 * n + 1 ≤ s.netlist.capacity) :
    ∃ u, Gives l "sum" (sumBus n (k + 1)) s u ∧ u.netlist.size = s.netlist.size + 1 ∧
      u.netlist.Has s.netlist.size .xor (some (2 * n + 1 + k)) (some (carryGate n k)) := by
  have hread : statement l.text = .assign (.slot "sum" (.constant "i")) (.ok (.formula
      [.operand (.ref ⟨"p", some ⟨.constant "i", none⟩⟩), .operator .xor, .operand (.ref ⟨"cin", none⟩)] none)) := by
    rw [hl]
    exact statement_formula "p.i XOR cin" rfl (by decide +kernel)
  have hindex : s.index (.constant "i") = .ok k := by simp [Session.index, Session.constant?, hcounter]
  have hwidth : k < (sumBus n k).width := by
    simp [sumBus, sumSlots, Bus.width]
    omega
  have hcarry := carryGate_lt (Nat.le_of_lt hk)
  have hxor : Opcode.xor.arity = 2 := rfl
  obtain ⟨net, hformula, hgrows, hsize', hhas⟩ := formula_two (s := { s with cursor := s.cursor + 1 })
    (ref_of_counter hp hcounter hk) (ref_of_bus? hcin) hxor (by dsimp only; omega) (by dsimp only; omega)
    (by dsimp only; omega)
  dsimp only at hformula hgrows hsize' hhas
  rw [hsize] at hformula
  refine ⟨_, gives_slot hrest hread (lookup_of_bus? hsum) hindex hwidth hformula (bind_sumBus hk) hgrows, hsize', ?_⟩
  exact hhas 0 Nat.one_pos

/-- The second line wires its carry. -/
theorem gives_carry {l : Line} {R : List Line} (hrest : s.rest = l :: R)
    (hl : l.text = "c = p.i AND cin OR g.i".toList) (hk : k < n) (hcounter : s.counter = some k)
    (hp : s.bus? "p" = some (.contiguous (2 * n + 1) n)) (hcin : s.bus? "cin" = some (.contiguous (carryGate n k) 1))
    (hg : s.bus? "g" = some (.contiguous (3 * n + 1) n)) (hsize : s.netlist.size = 4 * n + 2 + 3 * k)
    (hroom : 7 * n + 1 ≤ s.netlist.capacity) :
    ∃ u, Gives l "c" (.contiguous (carryGate n (k + 1)) 1) s u ∧ u.netlist.size = s.netlist.size + 2 ∧
      u.netlist.Has s.netlist.size .and (some (2 * n + 1 + k)) (some (carryGate n k)) ∧
      u.netlist.Has (s.netlist.size + 1) .or (some s.netlist.size) (some (3 * n + 1 + k)) := by
  have hread : statement l.text = .assign (.bus "c") (.ok (.formula
      [.operand (.ref ⟨"p", some ⟨.constant "i", none⟩⟩), .operator .and, .operand (.ref ⟨"cin", none⟩),
        .operator .or, .operand (.ref ⟨"g", some ⟨.constant "i", none⟩⟩)] none)) := by
    rw [hl]
    exact statement_formula "p.i AND cin OR g.i" rfl (by decide +kernel)
  have hcarry := carryGate_lt (Nat.le_of_lt hk)
  have hand : Opcode.and.arity = 2 := rfl
  have hor : Opcode.or.arity = 2 := rfl
  obtain ⟨net, hformula, hgrows, hsize', hhas, hhas'⟩ := formula_three (s := { s with cursor := s.cursor + 1 })
    (ref_of_counter hp hcounter hk) (ref_of_bus? hcin) (ref_of_counter hg hcounter hk) hand hor
    (by dsimp only; omega) (by dsimp only; omega) (by dsimp only; omega) (by dsimp only; omega)
  dsimp only at hformula hgrows hsize' hhas hhas'
  have hgate : s.netlist.size + 1 = carryGate n (k + 1) := by
    rw [carryGate]
    omega
  rw [hgate] at hformula
  refine ⟨_, gives_formula hrest hread hformula rfl hgrows, hsize', ?_, ?_⟩
  · exact hhas 0 Nat.one_pos
  · exact hhas' 0 Nat.one_pos

/-- **A pass wires a stage.** -/
theorem Adding.pass (h : Adding n k s) (hk : k < n) {l m : Line} {R : List Line} {start : Nat}
    (hbody : s.lines.toList.drop start = l :: m :: R) (hl : l.text = "sum.i = p.i XOR cin".toList)
    (hm : m.text = "c = p.i AND cin OR g.i".toList) :
    ∃ t, outcome (ample.pass "c" "cin" 1 start (start + 2) k) s = (.ok (), t) ∧ Adding n (k + 1) t ∧
      t.lines = s.lines := by
  have hsize := h.adder.size
  obtain ⟨e, he⟩ : ∃ e : Session, e =
    { s with cursor := start, buses := s.buses.insert "c" (.unbound 1), counter := some k } := ⟨_, rfl⟩
  have hrest : e.rest = l :: m :: R := by rw [he]; exact hbody
  have hnet : e.netlist = s.netlist := by rw [he]
  have hcounter : e.counter = some k := by rw [he]
  have hebuses : e.buses = s.buses.insert "c" (.unbound 1) := by rw [he]
  have hebus := bus?_of_insert hebuses
  obtain ⟨u, hu, husize, husum⟩ := gives_sum hrest hl hk hcounter (by simp [hebus, h.p]) (by simp [hebus, h.cin])
    (by simp [hebus, h.sum]) (by rw [hnet]; exact hsize) (by rw [hnet]; exact h.room)
  rw [hnet] at husize husum
  have hucap : u.netlist.capacity = s.netlist.capacity := hnet ▸ hu.grows.retains.capacity
  obtain ⟨v, hv, hvsize, hvpassed, hvcarried⟩ := gives_carry (hu.rest hrest) hm hk (hu.counter.trans hcounter)
    (by simp [hu.bus?, hebus, h.p]) (by simp [hu.bus?, hebus, h.cin]) (by simp [hu.bus?, hebus, h.g]) (by omega)
    (by rw [hucap]; exact h.room)
  rw [husize] at hvsize hvpassed hvcarried
  have hgrows : s.netlist.Grows v.netlist := hnet ▸ hu.grows.trans hv.grows
  have hcarried : Carried [l, m] e v := hu.carried.append hv.carried
  have hup : outcome (upTo ample.statement (start + 2) (start + 2 - start)) e = (.ok (), v) := by
    have hstart : e.cursor = start := by rw [he]
    rw [← hstart]
    exact hcarried.upTo (by simp)
  have hc : v.lookup "c" = .ok (.contiguous (carryGate n (k + 1)) 1) := lookup_of_bus? (by simp [hv.bus?])
  rw [he] at hup
  obtain ⟨t, ht⟩ : ∃ t : Session, t =
    { v with cursor := s.cursor, buses := v.buses.insert "cin" (.contiguous (carryGate n (k + 1)) 1) } := ⟨_, rfl⟩
  have htbuses : t.buses = v.buses.insert "cin" (.contiguous (carryGate n (k + 1)) 1) := by rw [ht]
  have htbus := bus?_of_insert htbuses
  have htnet : t.netlist = v.netlist := by rw [ht]
  have hadder : RippleAdder n (k + 1) t.netlist := by
    rw [htnet]
    exact h.adder.succ hgrows hvsize (husum.retains hv.grows.retains) hvpassed hvcarried
  have htlines : t.lines = s.lines := by
    rw [ht]
    exact hcarried.takes.lines.trans (by rw [he])
  refine ⟨t, Nested.pass_eq_ok.mpr ⟨v, _, hup, hc, ht⟩, ?_, htlines⟩
  refine ⟨hadder, by rw [htnet, hgrows.retains.capacity]; exact h.room, ?_, ?_, ?_, ?_, ?_, ?_, fun _ => ?_⟩
  all_goals simp [htbus, hv.bus?, hu.bus?, hebus, h.a, h.b, h.p, h.g]

/-- The passes that are left wire the stages that are left. -/
theorem Adding.passes (h : Adding n k s) {times : Nat} (htimes : k + times = n) {l m : Line} {R : List Line}
    {start : Nat} (hbody : s.lines.toList.drop start = l :: m :: R)
    (hl : l.text = "sum.i = p.i XOR cin".toList) (hm : m.text = "c = p.i AND cin OR g.i".toList) :
    ∃ t, outcome (Run.passes (ample.pass "c" "cin" 1 start (start + 2)) times k) s = (.ok (), t) ∧ Adding n n t := by
  induction times generalizing k s with
  | zero =>
    obtain rfl : k = n := by omega
    exact ⟨s, rfl, h⟩
  | succ times ih =>
    obtain ⟨u, hu, hadding, hlines⟩ := h.pass (by omega) hbody hl hm
    obtain ⟨t, ht, hdone⟩ := ih hadding (by omega) (by rw [hlines]; exact hbody)
    exact ⟨t, passes_succ_eq_ok.mpr ⟨u, hu, ht⟩, hdone⟩

/-- The loop leaves the last carry in `c`, and `cin` is the input again. -/
theorem Adding.loop (h : Adding n 0 s) (hpos : 0 < n) (hn : n < 2 ^ 64) {l m₁ m₂ e : Line} {R : List Line}
    (hrest : s.rest = l :: m₁ :: m₂ :: e :: R)
    (hl : l.text = "c = LOOP(".toList ++ (decimal n ++ ") cin".toList))
    (hm₁ : m₁.text = "sum.i = p.i XOR cin".toList) (hm₂ : m₂.text = "c = p.i AND cin OR g.i".toList)
    (he : e.text = "END".toList) :
    ∃ t, Carried [l, m₁, m₂, e] s t ∧ t.counter = s.counter ∧ RippleAdder n n t.netlist ∧
      t.bus? "a" = some (.contiguous 0 n) ∧ t.bus? "b" = some (.contiguous n n) ∧
      t.bus? "cin" = some (.contiguous (2 * n) 1) ∧ t.bus? "sum" = some (sumBus n n) ∧
      t.bus? "c" = some (.contiguous (carryGate n n) 1) := by
  obtain ⟨hline, hbody⟩ := Session.rest_eq_cons_iff.mp hrest
  have hlength : bodyLength? 0 ({ s with cursor := s.cursor + 1 } : Session).rest = some 2 := by
    have hend : e.isEnd = true := by
      rw [Line.isEnd, he]
      decide
    have hdepth : depthAfter 0 [m₁, m₂] = some 0 := by
      rw [depthAfter_of_texts (U := [⟨0, "sum.i = p.i XOR cin".toList⟩, ⟨0, "c = p.i AND cin OR g.i".toList⟩])
        (by simp [hm₁, hm₂])]
      decide
    exact bodyLength?_eq_some_iff.mpr ⟨[m₁, m₂], e, R, hbody, rfl, hend, hdepth⟩
  have hfirst : Adding n 0 { s with cursor := s.cursor + 1 + 2 + 1 } :=
    ⟨h.adder, h.room, h.a, h.b, h.cin, h.p, h.g, h.sum, h.c⟩
  obtain ⟨p, hp, hdone⟩ := hfirst.passes (Nat.zero_add n) hbody hm₁ hm₂
  obtain ⟨u, hu⟩ : ∃ u : Session, u =
    { p with buses := p.buses.insert "cin" (.contiguous (2 * n) 1), counter := s.counter } := ⟨_, rfl⟩
  obtain ⟨t, ht⟩ : ∃ t : Session, t =
    { u with buses := u.buses.insert "c" (.contiguous (carryGate n n) 1) } := ⟨_, rfl⟩
  have hloop : outcome (ample.loop "c" (.literal n) (.ok "cin")) { s with cursor := s.cursor + 1 } =
      (.ok (.contiguous (carryGate n n) 1), u) :=
    Nested.loop_eq_ok.mpr ⟨n, "cin", 2, .contiguous (2 * n) 1, p, rfl, rfl, by decide, hlength,
      lookup_of_bus? h.cin, hp, lookup_of_bus? (hdone.c hpos), hu⟩
  have hstatement : outcome (ample.statement l) { s with cursor := s.cursor + 1 } = (.ok (), t) := by
    rw [ample_statement, on_eq_ok, hl, statement_loop_c hn]
    exact Nested.assign_eq_ok.mpr ⟨none, _, _, u, rfl, rfl, hloop, rfl, .inr ⟨rfl, ht⟩⟩
  have hstill := spans_ample.passes hp
  have htakes : Takes [m₁, m₂, e] { s with cursor := s.cursor + 1 } t :=
    takes_of_cursor (by rw [ht, hu]; exact hstill.lines) (by rw [ht, hu]; exact hstill.cursor) (R := R) hbody
  have hubuses : u.buses = p.buses.insert "cin" (.contiguous (2 * n) 1) := by rw [hu]
  have htbuses : t.buses = u.buses.insert "c" (.contiguous (carryGate n n) 1) := by rw [ht]
  have hbus := bus?_of_insert htbuses
  have hbus' := bus?_of_insert hubuses
  refine ⟨t, Carried.cons hline hstatement htakes .nil, by rw [ht, hu], ?_, ?_, ?_, ?_, ?_, ?_⟩
  · rw [ht, hu]
    exact hdone.adder
  all_goals simp [hbus, hbus', hdone.a, hdone.b, hdone.sum]

/-- The first lines wire the inputs. -/
theorem carried_inputs (hn : n < 2 ^ 64) {la lb lc : Line} {R : List Line} (hrest : s.rest = la :: lb :: lc :: R)
    (ha : la.text = "IN a /".toList ++ decimal n) (hb : lb.text = "IN b /".toList ++ decimal n)
    (hc : lc.text = "IN cin /1".toList) (hsize : s.netlist.size = 0) (hroom : 2 * n + 1 ≤ s.netlist.capacity) :
    ∃ t, Carried [la, lb, lc] s t ∧ t.counter = s.counter ∧ s.netlist.Grows t.netlist ∧
      t.netlist.size = 2 * n + 1 ∧ (∀ i < 2 * n + 1, t.netlist.Has i .passthrough none none) ∧
      t.bus? "a" = some (.contiguous 0 n) ∧ t.bus? "b" = some (.contiguous n n) ∧
      t.bus? "cin" = some (.contiguous (2 * n) 1) := by
  have hreadc : statement lc.text = .input "cin" 1 := by
    rw [hc]
    rfl
  obtain ⟨s₁, h₁, hsize₁, hhas₁⟩ := gives_input hrest (by rw [ha]; exact statement_input_a hn) (by omega)
  have hcap₁ := h₁.grows.retains.capacity
  have hrest₁ := h₁.rest hrest
  obtain ⟨s₂, h₂, hsize₂, hhas₂⟩ := gives_input hrest₁ (by rw [hb]; exact statement_input_b hn) (by omega)
  have hcap₂ := h₂.grows.retains.capacity
  obtain ⟨s₃, h₃, hsize₃, hhas₃⟩ := gives_input (h₂.rest hrest₁) hreadc (by omega)
  rw [hsize] at hsize₁ h₁
  rw [Nat.zero_add] at hsize₁
  rw [hsize₁] at hsize₂ h₂
  rw [show s₂.netlist.size = 2 * n by omega] at hsize₃ h₃
  have hgrows := h₂.grows.trans h₃.grows
  refine ⟨s₃, h₁.carried.append (h₂.carried.append h₃.carried), ?_, h₁.grows.trans hgrows, hsize₃, ?_, ?_, ?_, ?_⟩
  · rw [h₃.counter, h₂.counter, h₁.counter]
  · intro i hi
    rcases Nat.lt_or_ge i n with hlt | hge
    · have hhas := hhas₁ i hlt
      rw [hsize, Nat.zero_add] at hhas
      exact hhas.retains hgrows.retains
    rcases Nat.lt_or_ge i (2 * n) with hlt | hge'
    · have hhas := hhas₂ (i - n) (by omega)
      rw [show s₁.netlist.size + (i - n) = i by omega] at hhas
      exact hhas.retains h₃.grows.retains
    · have hhas := hhas₃ 0 Nat.one_pos
      rwa [show s₂.netlist.size + 0 = i by omega] at hhas
  · simp [h₃.bus?, h₂.bus?, h₁.bus?]
  · simp [h₃.bus?, h₂.bus?]
  · simp [h₃.bus?]

/-- The lines in front of the loop wire the inputs and what the stages read. -/
theorem adding_zero (hpos : 0 < n) (hn : n < 2 ^ 64) {la lb lc lp lg ls : Line} {R : List Line}
    (hrest : s.rest = la :: lb :: lc :: lp :: lg :: ls :: R) (ha : la.text = "IN a /".toList ++ decimal n)
    (hb : lb.text = "IN b /".toList ++ decimal n) (hc : lc.text = "IN cin /1".toList)
    (hp : lp.text = "p = a XOR b".toList) (hg : lg.text = "g = a AND b".toList)
    (hs : ls.text = "sum /".toList ++ decimal n) (hintact : s.netlist.Intact) (hsize : s.netlist.size = 0)
    (hroom : 7 * n + 1 ≤ s.netlist.capacity) :
    ∃ t, Carried [la, lb, lc, lp, lg, ls] s t ∧ t.counter = s.counter ∧ Adding n 0 t := by
  have hreadp : statement lp.text = .assign (.bus "p") (.ok (.formula
      [.operand (.ref ⟨"a", none⟩), .operator .xor, .operand (.ref ⟨"b", none⟩)] none)) := by
    rw [hp]
    exact statement_formula "a XOR b" rfl (by decide +kernel)
  have hreadg : statement lg.text = .assign (.bus "g") (.ok (.formula
      [.operand (.ref ⟨"a", none⟩), .operator .and, .operand (.ref ⟨"b", none⟩)] none)) := by
    rw [hg]
    exact statement_formula "a AND b" rfl (by decide +kernel)
  obtain ⟨s₁, hcarried, hcounter, hgrows₁, hsize₁, hinput, hbusa, hbusb, hbusc⟩ :=
    carried_inputs hn hrest ha hb hc hsize (by omega)
  have hcap₁ := hgrows₁.retains.capacity
  have hrest₁ := hcarried.takes.left hrest
  obtain ⟨s₂, h₂, hsize₂, hhas₂⟩ := gives_join hrest₁ hreadp hbusa hbusb rfl hpos (by omega) (by omega) (by omega)
  have hcap₂ := h₂.grows.retains.capacity
  have hrest₂ := h₂.rest hrest₁
  obtain ⟨s₃, h₃, hsize₃, hhas₃⟩ := gives_join hrest₂ hreadg (by simpa [h₂.bus?] using hbusa)
    (by simpa [h₂.bus?] using hbusb) rfl hpos (by omega) (by omega) (by omega)
  have hcap₃ := h₃.grows.retains.capacity
  obtain ⟨s₄, h₄, hnet₄⟩ := gives_declare (h₃.rest hrest₂) (by rw [hs]; exact statement_declare_sum hn) (by omega)
  rw [hsize₁] at hsize₂ hhas₂ h₂
  rw [show s₂.netlist.size = 3 * n + 1 by omega] at hsize₃ hhas₃ h₃
  simp only [Nat.zero_add] at hhas₂ hhas₃
  have hgrows₂ : s₂.netlist.Grows s₄.netlist := h₃.grows.trans h₄.grows
  have hgrows : s₁.netlist.Grows s₄.netlist := h₂.grows.trans hgrows₂
  have hsize₄ : s₄.netlist.size = 4 * n + 1 + 3 * 0 := by
    rw [hnet₄]
    omega
  have hnone {P : Nat → Prop} (j : Nat) (hj : j < 0) : P j := absurd hj j.not_lt_zero
  have hadder : RippleAdder n 0 s₄.netlist :=
    ⟨(hgrows₁.trans hgrows).intact hintact, hsize₄, fun i hi => (hinput i hi).retains hgrows.retains,
      fun j hj => (hhas₂ j hj).retains hgrows₂.retains, fun j hj => (hhas₃ j hj).retains h₄.grows.retains,
      hnone, hnone, hnone⟩
  refine ⟨s₄, hcarried.append (h₂.carried.append (h₃.carried.append h₄.carried)), ?_, hadder, ?_, ?_, ?_, ?_, ?_, ?_, ?_,
    fun h => absurd h (Nat.lt_irrefl 0)⟩
  · rw [h₄.counter, h₃.counter, h₂.counter, hcounter]
  · rw [hgrows.retains.capacity, hcap₁]
    exact hroom
  · simpa [h₄.bus?, h₃.bus?, h₂.bus?] using hbusa
  · simpa [h₄.bus?, h₃.bus?, h₂.bus?] using hbusb
  · simpa [h₄.bus?, h₃.bus?, h₂.bus?, carryGate] using hbusc
  · simp [h₄.bus?, h₃.bus?, h₂.bus?]
  · simp [h₄.bus?, h₃.bus?]
  · simp [h₄.bus?, sumBus, sumSlots, Bus.unbound]

end Loop

/-! ### Building the adder -/

/-- What the script leaves: the gates of an adder, its inputs under their names and its sum on
the ports, and no constant. -/
structure AdderBuilt (n : Nat) (s : Session) : Prop where
  adder : RippleAdder n n s.netlist
  counter : s.counter = none
  a : s.bus? "a" = some (.contiguous 0 n)
  b : s.bus? "b" = some (.contiguous n n)
  cin : s.bus? "cin" = some (.contiguous (2 * n) 1)
  sum : s.netlist.port? "s" = some (sumBus n n)
  cout : s.netlist.port? "cout" = some (.contiguous (carryGate n n) 1)

theorem width_sumBus (n : Nat) : (sumBus n n).width = n := by simp [sumBus, sumSlots, Bus.width]

theorem slots_sumBus (n : Nat) : (sumBus n n).slots = sumSlots n n := by simp [sumBus, Bus.slots]

theorem adderScript_builds {n : Nat} {settings : Settings} (hpos : 0 < n) (hroom : 7 * n + 1 ≤ settings.capacity)
    (hn : n < 2 ^ 64) : ∃ s, outcome Session.build (.start (adderScript n) settings) = (.ok (), s) ∧ AdderBuilt n s := by
  have htexts := texts_adderScript n
  simp only [adderTexts, List.map_eq_cons_iff, List.map_eq_nil_iff] at htexts
  obtain ⟨la, _, hlines, ha, lb, _, rfl, hb, lc, _, rfl, hc, lp, _, rfl, hp, lg, _, rfl, hg, ls, _, rfl, hs,
    ll, _, rfl, hl, m₁, _, rfl, hm₁, m₂, _, rfl, hm₂, le, _, rfl, he, lo, _, rfl, ho, lq, _, rfl, hq, rfl⟩ := htexts
  have hrest : (Session.start (adderScript n) settings).rest = _ := (rest_start _ settings).trans hlines
  have hreado : statement lo.text = .assign (.port "s") (.ok (.formula [.operand (.ref ⟨"sum", none⟩)] none)) := by
    rw [ho]
    exact statement_formula "sum" rfl (by decide +kernel)
  have hreadq : statement lq.text = .assign (.port "cout") (.ok (.formula [.operand (.ref ⟨"c", none⟩)] none)) := by
    rw [hq]
    exact statement_formula "c" rfl (by decide +kernel)
  have hempty : (sumBus n n).isEmpty = false := by
    simp only [Bus.isEmpty, width_sumBus, beq_eq_false_iff_ne]
    omega
  -- the inputs and the gates in front of the loop, the loop, and the two ports
  obtain ⟨s₁, hcarried₁, hcounter₁, hadding⟩ := adding_zero hpos hn hrest ha hb hc hp hg hs
    (Session.sound_start (adderScript n) settings).intact rfl hroom
  have hrest₁ := hcarried₁.takes.left hrest
  obtain ⟨s₂, hcarried₂, hcounter₂, hadder, hbusa, hbusb, hbusc, hsum, hcout⟩ :=
    hadding.loop hpos hn hrest₁ hl hm₁ hm₂ he
  have hrest₂ := hcarried₂.takes.left hrest₁
  obtain ⟨s₃, h₃, hnet₃⟩ := gives_port hrest₂ hreado hsum hempty
  obtain ⟨s₄, h₄, hnet₄⟩ := gives_port (h₃.rest hrest₂) hreadq (by simpa [h₃.bus?] using hcout) rfl
  refine ⟨s₄, ?_, ?_, ?_, ?_, ?_, ?_, ?_, ?_⟩
  · rw [build_carried_iff (Nat.zero_le _), hrest]
    exact hcarried₁.append (hcarried₂.append (h₃.carried.append h₄.carried))
  · rw [hnet₄, hnet₃]
    exact (hadder.registerPort "s" _).registerPort "cout" _
  · rw [h₄.counter, h₃.counter, hcounter₂, hcounter₁]
    rfl
  · simpa [h₄.bus?, h₃.bus?] using hbusa
  · simpa [h₄.bus?, h₃.bus?] using hbusb
  · simpa [h₄.bus?, h₃.bus?] using hbusc
  · rw [Netlist.port?, hnet₄, hnet₃, Netlist.registerPort, Netlist.registerPort, buses_insert, buses_insert]
    simp
  · rw [Netlist.port?, hnet₄, Netlist.registerPort, buses_insert]
    simp

/-- **The script wires an adder of every width.** With room for `7 n + 1` gates it builds and
wires exactly these; no constant is left. Whatever the gates hold, two numbers of `n` bits
and a bit driven on the inputs `a`, `b` and `cin` show as their sum on the ports `s` and
`cout` after one tick. -/
theorem adderScript_adds {n : Nat} {settings : Settings} (hpos : 0 < n) (hroom : 7 * n + 1 ≤ settings.capacity)
    (hcapacity : settings.capacity < 2 ^ 64) :
    ∃ s, outcome Session.build (.start (adderScript n) settings) = (.ok (), s) ∧ s.netlist.size = 7 * n + 1 ∧
      (∀ name, s.constant? name = none) ∧
      ∃ a b cin sum cout, s.bus? "a" = some a ∧ s.bus? "b" = some b ∧ s.bus? "cin" = some cin ∧
        s.netlist.port? "s" = some sum ∧ s.netlist.port? "cout" = some cout ∧
        a.width = n ∧ b.width = n ∧ cin.width = 1 ∧ sum.width = n ∧ cout.width = 1 ∧
        ∀ net, Netlist.Revalued s.netlist net → ∀ x < 2 ^ n, ∀ y < 2 ^ n, ∀ c < 2,
          let after := (((net.writeSlots x a.slots).writeSlots y b.slots).writeSlots c cin.slots).tick
          after.readSlots sum.slots + 2 ^ n * after.readSlots cout.slots = x + y + c := by
  obtain ⟨s, hbuild, h⟩ := adderScript_builds hpos hroom (by omega)
  have hsize : s.netlist.size = 7 * n + 1 := by
    rw [h.adder.size]
    omega
  have hconstant : ∀ name, s.constant? name = none := by
    intro name
    simp [Session.constant?, h.counter]
  refine ⟨s, hbuild, hsize, hconstant, _, _, _, _, _, h.a, h.b, h.cin, h.sum, h.cout, rfl, rfl, rfl, width_sumBus n, rfl, ?_⟩
  intro net hr x hx y hy c hc
  have hadds := (h.adder.revalued hr).adds hx hy hc
  rw [slots_sumBus]
  simpa [Netlist.readSlots, Netlist.level, Bus.slots] using hadds

/-- An adder of sixty-five bits, wider than a machine word, in exactly the room that it needs. -/
theorem adderScript_adds_wideSample : 7 * 65 + 1 ≤ (⟨456, 0⟩ : Settings).capacity ∧
    ∃ s, outcome Session.build (.start (adderScript 65) ⟨456, 0⟩) = (.ok (), s) ∧ s.netlist.size = 456 ∧
      s.constant? "i" = none ∧ ∃ a b cin sum cout, s.bus? "a" = some a ∧ s.bus? "b" = some b ∧
        s.bus? "cin" = some cin ∧ s.netlist.port? "s" = some sum ∧ s.netlist.port? "cout" = some cout ∧
        let after := (((s.netlist.writeSlots (2 ^ 65 - 1) a.slots).writeSlots 0 b.slots).writeSlots 1 cin.slots).tick
        after.readSlots sum.slots + 2 ^ 65 * after.readSlots cout.slots = 2 ^ 65 := by
  have hroom : 7 * 65 + 1 ≤ (⟨456, 0⟩ : Settings).capacity := by decide
  obtain ⟨s, hbuild, hsize, hconstant, a, b, cin, sum, cout, ha, hb, hcin, hsum, hcout, -, -, -, -, -, hadds⟩ :=
    adderScript_adds (n := 65) (by decide) hroom (by decide)
  exact ⟨hroom, s, hbuild, hsize, hconstant "i", a, b, cin, sum, cout, ha, hb, hcin, hsum, hcout,
    hadds s.netlist (.refl _) _ (by decide) 0 (by decide) 1 (by decide)⟩

end BusLogic.Script
