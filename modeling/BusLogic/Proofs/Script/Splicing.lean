import BusLogic.Proofs.Script.Cursor
import BusLogic.Proofs.Text

/-! Blocks taken out of a script.

A block only holds its lines together, so that they do the same without the line that
opens it and the `END` that closes it. Taking the two out (`Splice`) may not give another
`END` to any construct around them: where a statement ends is told by its own lines
(`Whole`), and the scan of a loop around counts one line that opens a construct less and
one that closes a construct less (`Splice.depthAfter_eq`). So the shorter lines do what the
longer ones did (`Splice.replaces`), pass by pass if they are in a loop. A block that is
closed while a script is built is such a pair of lines (`Completes.spliced`). -/
namespace BusLogic.Script
open Attempt Run
open Session (Takes Still Alike)

/-! ### Rows of statements -/

/-- The line `l` with the lines `V` is a statement, whatever follows. -/
def Whole (l : Line) (V : List Line) : Prop := ∀ T, l.extent? (V ++ T) = some V.length

/-- Statements one after the other. -/
inductive IsRow : List Line → Prop
  | nil : IsRow []
  | cons {l : Line} {V W : List Line} (hV : Whole l V) (hW : IsRow W) : IsRow (l :: (V ++ W))

section Rows
variable {l e : Line} {A U V W X T : List Line} {s t : Session}

theorem Whole.isRow (h : Whole l V) : IsRow (l :: V) := by
  simpa using IsRow.cons h .nil

theorem IsRow.append (hV : IsRow V) (hW : IsRow W) : IsRow (V ++ W) := by
  induction hV with
  | nil => exact hW
  | cons hV _ ih =>
    rw [List.cons_append, List.append_assoc]
    exact .cons hV ih

theorem Session.Takes.unique (hV : s.Takes V t) (hW : s.Takes W t) : V = W :=
  List.append_cancel_right (hV.rest.symm.trans hW.rest)

theorem Completes.whole {trace : List Event} {as : List Bus} (h : Completes (.line false l) s trace (.ok as, t)) :
    ∃ V, s.Takes V t ∧ Whole l V := by
  obtain ⟨V, htakes, _, hextent⟩ := h.done.2 h.isEnd_of_line
  exact ⟨V, htakes, hextent rfl⟩

/-- A statement that is carried out takes the lines that the text gives to it. -/
theorem whole_of_ok (h : outcome (ample.statement l) s = (.ok (), t)) (ht : s.Takes V t) : Whole l V := by
  obtain ⟨trace, r, hc⟩ := exists_completes (.line false l) s
  have hr : r = (.ok [], t) := by
    rw [← hc.outcome_eq]
    show outcome ((fun _ => []) <$> ample.statement l) s = _
    rw [outcome_map, h]
    rfl
  rw [hr] at hc
  obtain ⟨W, hW, hwhole⟩ := hc.whole
  rwa [ht.unique hW]

/-- Statements that are carried out close only what they open. -/
theorem Carried.depthAfter_eq (h : Carried W s t) : ∃ d, depthAfter 0 W = some d := by
  induction h with
  | nil => exact ⟨0, rfl⟩
  | @cons s u t l V W _ hu hV _ ih =>
    obtain ⟨d, hd⟩ := ih
    obtain ⟨V₀, Bs, hV₀, hspans⟩ := spans_ample.statement l _ u () hu
    rw [← hV.unique hV₀] at hspans
    refine ⟨d + Bs.countP Line.startsBlock, ?_⟩
    rw [← List.cons_append, depthAfter_append, hspans.depth]
    simpa using depthAfter_add hd (Bs.countP Line.startsBlock)

theorem Carried.cons_inv (h : Carried (l :: X) s t) : ∃ V W u, X = V ++ W ∧ s.lines[s.cursor]? = some l ∧
    outcome (ample.statement l) { s with cursor := s.cursor + 1 } = (.ok (), u) ∧
    Takes V { s with cursor := s.cursor + 1 } u ∧ Carried W u t := by
  generalize hY : l :: X = Y at h
  cases h with
  | nil => cases hY
  | cons hl hu hV hW =>
    cases hY
    exact ⟨_, _, _, rfl, hl, hu, hV, hW⟩

/-- The first statement of lines that are carried out is the one that the text tells. -/
theorem Carried.first (h : Carried (l :: (V ++ X)) s t) (hV : Whole l V) : ∃ u, s.lines[s.cursor]? = some l ∧
    outcome (ample.statement l) { s with cursor := s.cursor + 1 } = (.ok (), u) ∧
    Takes V { s with cursor := s.cursor + 1 } u ∧ Carried X u t := by
  obtain ⟨V₀, W, u, hcut, hl, hu, htakes, hW⟩ := h.cons_inv
  have hlen : V.length = V₀.length := by
    have hextent := hV X
    rw [hcut, whole_of_ok hu htakes W] at hextent
    exact (Option.some.inj hextent).symm
  obtain ⟨rfl, rfl⟩ := List.append_inj hcut hlen
  exact ⟨u, hl, hu, htakes, hW⟩

theorem Carried.split (h : Carried (A ++ X) s t) (hA : IsRow A) : ∃ u, Carried A s u ∧ Carried X u t := by
  induction hA generalizing s with
  | nil => exact ⟨s, .nil, h⟩
  | cons hV _ ih =>
    rw [List.cons_append, List.append_assoc] at h
    obtain ⟨u, hl, hu, htakes, hrest⟩ := h.first hV
    obtain ⟨v, hW, hX⟩ := ih hrest
    exact ⟨v, .cons hl hu htakes hW, hX⟩

/-- A statement for itself. -/
theorem Carried.single (h : Carried (l :: V) s t) (hV : Whole l V) : s.lines[s.cursor]? = some l ∧
    outcome (ample.statement l) { s with cursor := s.cursor + 1 } = (.ok (), t) ∧
    Takes V { s with cursor := s.cursor + 1 } t := by
  rw [← List.append_nil V] at h
  obtain ⟨u, hl, hu, htakes, hnil⟩ := h.first hV
  cases hnil
  exact ⟨hl, hu, htakes⟩

end Rows

/-! ### Lines in place of others -/

/-- Whatever the lines `V` do, lines with the texts of `V'` do. -/
def Replaces (V V' : List Line) : Prop :=
  ∀ ⦃s s' t : Session⦄ ⦃X T : List Line⦄, s.Alike s' → X.map Line.text = V'.map Line.text →
    s'.rest = X ++ T → Carried V s t → ∃ t', Carried X s' t' ∧ t.Alike t'

section Replaces
variable {l e : Line} {A B U U' V V' : List Line}

theorem Replaces.refl (V : List Line) : Replaces V V :=
  fun _ _ _ _ _ hs hX hrest h => h.copy hs hX hrest

theorem Replaces.append {W W' : List Line} (hV : Replaces V V') (hW : Replaces W W') (hrow : IsRow V) :
    Replaces (V ++ W) (V' ++ W') := by
  intro s s' t X T hs hX hrest h
  obtain ⟨u, hu, ht⟩ := h.split hrow
  rw [List.map_append] at hX
  obtain ⟨Y, Z, rfl, hY, hZ⟩ := List.map_eq_append_iff.mp hX
  rw [List.append_assoc] at hrest
  obtain ⟨u', hu', halike⟩ := hV hs hY hrest hu
  obtain ⟨t', ht', hend⟩ := hW halike hZ (hu'.takes.left hrest) ht
  exact ⟨t', hu'.append ht', hend⟩

/-- A block, taken apart. -/
theorem Carried.block_inv {s t : Session} (h : Carried (l :: (U ++ [e])) s t) (hb : statement l.text = .block)
    (hw : Whole l (U ++ [e])) : ∃ u, Carried U { s with cursor := s.cursor + 1 } u ∧
      t = { u with cursor := u.cursor + 1 } := by
  obtain ⟨_, hl, htakes⟩ := h.single hw
  obtain ⟨U₀, e₀, u, hU₀, he₀, _, rfl⟩ := (block_carried_iff hb).mp hl
  have hsame := htakes.unique (hU₀.takes.trans (takes_line he₀))
  obtain ⟨rfl, _⟩ := List.append_inj' hsame rfl
  exact ⟨u, hU₀, rfl⟩

/-- The lines of a block do what the block does. -/
theorem replaces_unblock (hb : statement l.text = .block) (hw : Whole l (U ++ [e])) :
    Replaces (l :: (U ++ [e])) U := by
  intro s s' t X T hs hX hrest h
  obtain ⟨u, hu, rfl⟩ := h.block_inv hb hw
  obtain ⟨u', hu', halike⟩ := hu.copy (hs.moved _ s'.cursor) hX hrest
  exact ⟨u', hu', halike.moved _ u'.cursor⟩

/-- Lines with the texts of a construct are one. -/
theorem map_text_construct {X : List Line} (h : X.map Line.text = (l :: (U ++ [e])).map Line.text) :
    ∃ l' Z e', X = l' :: (Z ++ [e']) ∧ l'.text = l.text ∧ Z.map Line.text = U.map Line.text ∧ e'.text = e.text := by
  rw [List.map_cons, List.map_append] at h
  obtain ⟨l', Y, rfl, hl', hY⟩ := List.map_eq_cons_iff.mp h
  obtain ⟨Z, E, rfl, hZ, hE⟩ := List.map_eq_append_iff.mp hY
  obtain ⟨e', rfl, he'⟩ := List.map_eq_singleton_iff.mp hE
  exact ⟨l', Z, e', rfl, hl', hZ, he'⟩

theorem Line.isEnd_of_text {e e' : Line} (h : e'.text = e.text) : e'.isEnd = e.isEnd := by
  rw [isEnd, isEnd, h]

/-- Other lines in a block. -/
theorem Replaces.block (h : Replaces U U') (hb : statement l.text = .block) (hw : Whole l (U ++ [e]))
    (he : e.isEnd = true) : Replaces (l :: (U ++ [e])) (l :: (U' ++ [e])) := by
  intro s s' t X T hs hX hrest hc
  obtain ⟨u, hu, rfl⟩ := hc.block_inv hb hw
  obtain ⟨l', Z, e', rfl, hl', hZ, he'⟩ := map_text_construct hX
  obtain ⟨hline, hrest⟩ := Session.rest_eq_cons_iff.mp hrest
  have hrest : ({ s' with cursor := s'.cursor + 1 } : Session).rest = Z ++ e' :: T := by
    simpa using hrest
  obtain ⟨u', hu', halike⟩ := h (hs.moved _ _) hZ hrest hu
  obtain ⟨hend, _⟩ := Session.rest_eq_cons_iff.mp (hu'.takes.left hrest)
  have hblock : outcome (ample.statement l') { s' with cursor := s'.cursor + 1 } =
      (.ok (), { u' with cursor := u'.cursor + 1 }) :=
    (block_carried_iff (by rw [hl']; exact hb)).mpr
      ⟨Z, e', u', hu', hend, (Line.isEnd_of_text he').trans he, rfl⟩
  refine ⟨{ u' with cursor := u'.cursor + 1 }, ?_, halike.moved _ _⟩
  simpa using Carried.cons hline hblock (hu'.takes.trans (takes_line hend)) .nil

/-! ### Loops -/

theorem Session.Alike.lookup {s s' : Session} (h : s.Alike s') (name : String) : s'.lookup name = s.lookup name := by
  rw [Session.lookup, Session.lookup, Session.bus?, Session.bus?, h.buses]

theorem Session.Alike.index {s s' : Session} (h : s.Alike s') (i : Index) : s'.index i = s.index i := by
  cases i with
  | constant name => simp only [Session.index, Session.constant?, h.counter]
  | _ => rfl

theorem Session.Alike.check {s s' : Session} (h : s.Alike s') (target : Target) : target.check s' = target.check s := by
  cases target with
  | slot name i => simp only [Target.check, h.lookup, h.index]
  | _ => rfl

theorem Session.Alike.setBus {s s' : Session} (h : s.Alike s') (name : String) (b : Bus) :
    Session.Alike { s with buses := s.buses.insert name b } { s' with buses := s'.buses.insert name b } :=
  ⟨h.netlist, by simp only [h.buses], h.counter⟩

theorem Session.Alike.give {s s' : Session} (h : s.Alike s') (target : Target) (b : Bus) :
    (target.give b s).Alike (target.give b s') := by
  cases target with
  | port name => exact ⟨by simp only [Target.give, h.netlist], by simp only [Target.give, h.buses], h.counter⟩
  | _ => exact h.setBus _ b

/-- A target takes its value in both sessions. -/
theorem Session.Alike.assigned {u u' t : Session} (h : u.Alike u') {target : Target} {slot : Option Nat} {b : Bus}
    (ho : (∃ i, slot = some i ∧ outcome (bindSlot target.name i b) u = (.ok (), t)) ∨
      (slot = none ∧ t = target.give b u)) :
    ∃ t', ((∃ i, slot = some i ∧ outcome (bindSlot target.name i b) u' = (.ok (), t')) ∨
      (slot = none ∧ t' = target.give b u')) ∧ t.Alike t' ∧ u'.Still t' := by
  rcases ho with ⟨i, rfl, ho⟩ | ⟨rfl, rfl⟩
  · obtain ⟨gate, whole, bound, hwidth, hgate, hwhole, hbind, rfl⟩ := bindSlot_eq_ok.mp ho
    rw [← h.lookup] at hwhole
    exact ⟨_, .inl ⟨i, rfl, bindSlot_eq_ok.mpr ⟨gate, whole, bound, hwidth, hgate, hwhole, hbind, rfl⟩⟩,
      h.setBus _ bound, rfl, rfl⟩
  · refine ⟨_, .inr ⟨rfl, rfl⟩, h.give target b, ?_⟩
    cases target <;> exact ⟨rfl, rfl⟩

theorem Replaces.passes {X R R' : List Line} {s s' t : Session} {start start' : Nat} {target source : String}
    {width times k : Nat} {r : Unit} (h : Replaces U U') (hU : Closes U) (hX : X.map Line.text = U'.map Line.text)
    (hs : s.Alike s') (hl : s.lines.toList.drop start = U ++ R) (hr : s'.lines.toList.drop start' = X ++ R')
    (ho : outcome (Run.passes (ample.pass target source width start (start + U.length)) times k) s = (.ok r, t)) :
    ∃ t', outcome (Run.passes (ample.pass target source width start' (start' + X.length)) times k) s' = (.ok (), t') ∧
      t.Alike t' := by
  induction times generalizing s s' k with
  | zero =>
    obtain ⟨_, rfl⟩ := pure_eq_ok.mp ho
    exact ⟨s', rfl, hs⟩
  | succ times ih =>
    obtain ⟨v, hv, ho⟩ := passes_succ_eq_ok.mp ho
    obtain ⟨p, next, hup, hnext, rfl⟩ := Nested.pass_eq_ok.mp hv
    have hp : Carried U (Round.enter ⟨target, source, width, start, start + U.length⟩ k s) p :=
      upTo_carried (.inl hU) hl (by simp) hup
    have henter : Session.Alike (Round.enter ⟨target, source, width, start, start + U.length⟩ k s)
        (Round.enter ⟨target, source, width, start', start' + X.length⟩ k s') :=
      ⟨hs.netlist, (hs.setBus target (.unbound width)).buses, rfl⟩
    obtain ⟨p', hp', halike⟩ := h henter hX hr hp
    have hv' : outcome (ample.pass target source width start' (start' + X.length) k) s' =
        (.ok (), { p' with cursor := s'.cursor, buses := p'.buses.insert source next }) :=
      Nested.pass_eq_ok.mpr ⟨p', next, hp'.upTo (by simp), by rw [halike.lookup]; exact hnext, rfl⟩
    have hleave : Session.Alike { p with cursor := s.cursor, buses := p.buses.insert source next }
        { p' with cursor := s'.cursor, buses := p'.buses.insert source next } :=
      ⟨halike.netlist, (halike.setBus source next).buses, halike.counter⟩
    have hlines : p.lines = s.lines := hp.takes.lines
    have hlines' : p'.lines = s'.lines := hp'.takes.lines
    obtain ⟨t', ht', hend⟩ := ih hleave (by rw [← hl, ← hlines]) (by rw [← hr, ← hlines']) ho
    exact ⟨t', passes_succ_eq_ok.mpr ⟨_, hv', ht'⟩, hend⟩

/-- Other lines in a loop, as long as the scan finds the same end. -/
theorem Replaces.loop {target : Target} {count : Index} {source : Except Mismatch String} (h : Replaces U U')
    (hread : statement l.text = .assign target (.ok (.loop count source))) (hw : Whole l (U ++ [e]))
    (hU : depthAfter 0 U = some 0) (hU' : depthAfter 0 U' = some 0) (he : e.isEnd = true) :
    Replaces (l :: (U ++ [e])) (l :: (U' ++ [e])) := by
  intro s s' t X T hs hX hrest hc
  obtain ⟨_, hl, htakes⟩ := hc.single hw
  rw [ample_statement, on_eq_ok, hread] at hl
  obtain ⟨slot, _, b, u, hslot, hv, hb, hempty, hgive⟩ := Nested.assign_eq_ok.mp hl
  cases hv
  obtain ⟨times, name, length, initial, p, htimes, rfl, htarget, hlength, hinitial, hpasses, hbus, rfl⟩ :=
    Nested.loop_eq_ok.mp hb
  have hbody : ({ s with cursor := s.cursor + 1 } : Session).rest = U ++ e :: t.rest := by
    simpa using htakes.rest
  have hsame : length = U.length := by
    rw [bodyLength?_eq_some_iff.mpr ⟨U, e, t.rest, hbody, rfl, he, hU⟩] at hlength
    exact (Option.some.inj hlength).symm
  subst hsame
  obtain ⟨l', Z, e', rfl, hl', hZ, he'⟩ := map_text_construct hX
  obtain ⟨hline, hrest⟩ := Session.rest_eq_cons_iff.mp hrest
  have hbody' : ({ s' with cursor := s'.cursor + 1 } : Session).rest = Z ++ e' :: T := by
    simpa using hrest
  have hnext := hs.moved (s.cursor + 1) (s'.cursor + 1)
  have hbehind := hs.moved (s.cursor + 1 + U.length + 1) (s'.cursor + 1 + Z.length + 1)
  obtain ⟨p', hpasses', halike⟩ := h.passes ⟨0, hU⟩ hZ hbehind hbody hbody' hpasses
  have hlength' : bodyLength? 0 ({ s' with cursor := s'.cursor + 1 } : Session).rest = some Z.length :=
    bodyLength?_eq_some_iff.mpr ⟨Z, e', T, hbody', rfl, (Line.isEnd_of_text he').trans he,
      (depthAfter_of_texts hZ 0).trans hU'⟩
  have hloop : outcome (ample.loop target.name count (.ok name)) { s' with cursor := s'.cursor + 1 } =
      (.ok b, { p' with buses := p'.buses.insert name initial, counter := s'.counter }) :=
    Nested.loop_eq_ok.mpr ⟨times, name, Z.length, initial, p', by rw [hnext.index]; exact htimes, rfl, htarget,
      hlength', by rw [hnext.lookup]; exact hinitial, hpasses', by rw [halike.lookup]; exact hbus, rfl⟩
  have hrestored : Session.Alike { p with buses := p.buses.insert name initial, counter := s.counter }
      { p' with buses := p'.buses.insert name initial, counter := s'.counter } :=
    ⟨halike.netlist, (halike.setBus name initial).buses, hs.counter⟩
  obtain ⟨t', hgive', hend, hstill⟩ := hrestored.assigned hgive
  have hl : outcome (ample.statement l') { s' with cursor := s'.cursor + 1 } = (.ok (), t') := by
    rw [ample_statement, on_eq_ok, hl', hread]
    exact Nested.assign_eq_ok.mpr ⟨slot, _, b, _, by rw [hnext.check]; exact hslot, rfl, hloop, hempty, hgive'⟩
  have hpassed := spans_ample.passes hpasses'
  have htakes' : Takes (Z ++ [e']) { s' with cursor := s'.cursor + 1 } t' := by
    refine takes_of_cursor (hstill.lines.trans hpassed.lines) (hstill.cursor.trans (hpassed.cursor.trans ?_)) (R := T)
      (by rw [hbody']; simp)
    rw [List.length_append]
    rfl
  exact ⟨t', by simpa using Carried.cons hline hl htakes' .nil, hend⟩

end Replaces

/-! ### A block taken out -/

/-- Of the lines `V`, the first of which is line `c`, line `i` opens a block and line `j`
closes it, in other blocks and loops or in none, and without the two lines `V'` is left. -/
inductive Splice : (c : Nat) → (V : List Line) → (i j : Nat) → (V' : List Line) → Prop
  | here {c d : Nat} {A U B : List Line} {l e : Line} (hA : IsRow A) (hb : statement l.text = .block)
    (hw : Whole l (U ++ [e])) (he : e.isEnd = true) (hU : depthAfter 0 U = some d) :
    Splice c (A ++ l :: (U ++ e :: B)) (c + A.length) (c + A.length + 1 + U.length) (A ++ (U ++ B))
  | block {c i j : Nat} {A U U' B : List Line} {l e : Line} (hA : IsRow A) (hb : statement l.text = .block)
    (hw : Whole l (U ++ [e])) (he : e.isEnd = true) (h : Splice (c + A.length + 1) U i j U') :
    Splice c (A ++ l :: (U ++ e :: B)) i j (A ++ l :: (U' ++ e :: B))
  | loop {c i j : Nat} {A U U' B : List Line} {l e : Line} {target : Target} {count : Index}
    {source : Except Mismatch String} (hA : IsRow A)
    (hread : statement l.text = .assign target (.ok (.loop count source))) (hw : Whole l (U ++ [e]))
    (he : e.isEnd = true) (hU : depthAfter 0 U = some 0) (h : Splice (c + A.length + 1) U i j U') :
    Splice c (A ++ l :: (U ++ e :: B)) i j (A ++ l :: (U' ++ e :: B))

section Splice
variable {c i j : Nat} {V V' : List Line}

theorem Splice.prepend {A : List Line} (hA : IsRow A) (h : Splice (c + A.length) V i j V') :
    Splice c (A ++ V) i j (A ++ V') := by
  generalize hc : c + A.length = d at h
  cases h with
  | @here _ _ A₁ U B l e hA₁ hb hw he hU =>
    subst hc
    rw [← List.append_assoc, ← List.append_assoc, Nat.add_assoc c, ← List.length_append]
    exact .here (hA.append hA₁) hb hw he hU
  | @block _ _ _ A₁ U U' B l e hA₁ hb hw he h =>
    subst hc
    rw [Nat.add_assoc c, ← List.length_append] at h
    rw [← List.append_assoc, ← List.append_assoc]
    exact .block (hA.append hA₁) hb hw he h
  | @loop _ _ _ A₁ U U' B l e _ _ _ hA₁ hread hw he hU h =>
    subst hc
    rw [Nat.add_assoc c, ← List.length_append] at h
    rw [← List.append_assoc, ← List.append_assoc]
    exact .loop (hA.append hA₁) hread hw he hU h

theorem Splice.extend (h : Splice c V i j V') (B : List Line) : Splice c (V ++ B) i j (V' ++ B) := by
  cases h with
  | here hA hb hw he hU => simpa using Splice.here hA hb hw he hU
  | block hA hb hw he h => simpa using Splice.block hA hb hw he h
  | loop hA hread hw he hU h => simpa using Splice.loop hA hread hw he hU h

theorem depthAfter_within {A U U' B : List Line} {l e : Line} (h : ∀ d, depthAfter d U' = depthAfter d U) (depth : Nat) :
    depthAfter depth (A ++ l :: (U' ++ e :: B)) = depthAfter depth (A ++ l :: (U ++ e :: B)) := by
  simp only [depthAfter_append, depthAfter_cons, h]

/-- The scan of a loop around does not notice. -/
theorem Splice.depthAfter_eq (h : Splice c V i j V') (depth : Nat) : depthAfter depth V' = depthAfter depth V := by
  induction h generalizing depth with
  | @here c d A U B l e hA hb hw he hU =>
    have hopen : l.opens = true := by
      rw [Line.opens_eq, (Line.shape_of_block hb).1]
      rfl
    rw [depthAfter_append, depthAfter_append]
    congr 1
    funext a
    have hin : depthAfter a U = some (d + a) := by simpa using depthAfter_add hU a
    have hin' : depthAfter (a + 1) U = some (d + a + 1) := by simpa [Nat.add_assoc] using depthAfter_add hU (a + 1)
    rw [depthAfter_append, hin, depthAfter_cons, Line.nest_opens hopen, Option.bind_some, Option.bind_some,
      depthAfter_append, hin', Option.bind_some, depthAfter_cons, Line.nest_end he, Option.bind_some]
  | block hA hb hw he h ih => exact depthAfter_within ih depth
  | loop hA hread hw he hU h ih => exact depthAfter_within ih depth

/-- **The lines without the two do what they did with them.** -/
theorem Splice.replaces (h : Splice c V i j V') : Replaces V V' := by
  -- in front of the construct and behind it the lines are the same
  have hwithin {A U W B : List Line} {l e : Line} (hA : IsRow A) (hw : Whole l (U ++ [e]))
      (h : Replaces (l :: (U ++ [e])) W) : Replaces (A ++ l :: (U ++ e :: B)) (A ++ (W ++ B)) := by
    have hall := (Replaces.refl A).append (h.append (.refl B) hw.isRow) hA
    simpa using hall
  induction h with
  | here hA hb hw he hU => exact hwithin hA hw (replaces_unblock hb hw)
  | block hA hb hw he _ ih => simpa using hwithin hA hw (ih.block hb hw he)
  | loop hA hread hw he hU h ih =>
    simpa using hwithin hA hw (ih.loop hread hw hU ((h.depthAfter_eq 0).trans hU) he)

/-- The two lines, and the lines that are left. -/
theorem Splice.cut (h : Splice c V i j V') : ∃ P l Q e R, V = P ++ l :: (Q ++ e :: R) ∧ V' = P ++ (Q ++ R) ∧
    i = c + P.length ∧ j = c + P.length + 1 + Q.length ∧ e.isEnd = true ∧ Whole l (Q ++ [e]) := by
  induction h with
  | @here c d A U B l e hA hb hw he hU => exact ⟨A, l, U, e, B, rfl, rfl, rfl, rfl, he, hw⟩
  | @block c i j A U U' B l e hA hb hw he h ih =>
    obtain ⟨P, m, Q, z, R, rfl, rfl, rfl, rfl, hin⟩ := ih
    refine ⟨A ++ l :: P, m, Q, z, R ++ e :: B, by simp, by simp, ?_, ?_, hin⟩ <;> simp <;> omega
  | @loop c i j A U U' B l e _ _ _ hA hread hw he hU h ih =>
    obtain ⟨P, m, Q, z, R, rfl, rfl, rfl, rfl, hin⟩ := ih
    refine ⟨A ++ l :: P, m, Q, z, R ++ e :: B, by simp, by simp, ?_, ?_, hin⟩ <;> simp <;> omega

end Splice

/-! ### Blocks that are closed -/

/-- Line `i` opens a block and line `j` closes it, among the lines that the task took. -/
def Task.Spliced (s t : Session) (i j : Nat) : Task → Prop
  | .line branch l => branch = false ∧ ∃ V V', s.Takes V t ∧ Splice (s.cursor - 1) (l :: V) i j V'
  | .rows branch => branch = false ∧ ∃ U e U', s.Takes (U ++ [e]) t ∧ e.isEnd = true ∧ Splice s.cursor U i j U'
  | .linesTo _ => ∃ V V', s.Takes V t ∧ Splice s.cursor V i j V'
  | .passes round _ _ => ∃ U R U', s.lines.toList.drop round.start = U ++ R ∧
      round.stop = round.start + U.length ∧ Splice round.start U i j U'

section Closed
variable {l : Line} {s t u : Session} {trace : List Event} {as : List Bus} {i j : Nat}

/-- What is done with the result of a construct takes no lines. -/
theorem Line.still_finish {branch : Bool} {c : Construct} {bs : List Bus} (hc : l.construct? branch s = some c)
    (h : outcome (c.finish bs) u = (.ok as, t)) : u.Still t := by
  cases Line.sets hc with
  | rows _ _ _ _ _ hstays => exact ((hstays bs).reached h).toStill
  | passes _ _ _ _ _ _ _ _ hstays => exact (hstays bs u as t h).1

/-- A branch opens no block. -/
theorem branch_of_block {branch : Bool} {c : Construct} (hc : l.construct? branch s = some c)
    (hb : statement l.text = .block) : branch = false := by
  cases Line.sets hc with
  | rows _ hkind _ _ _ _ =>
    rcases hkind with ⟨_, hblock⟩ | ⟨_, hbranch⟩
    · simp [(Line.shape_of_block hb).1] at hblock
    · exact hbranch
  | passes _ hbranch _ _ _ _ _ _ _ => exact hbranch

/-- A line with a construct that holds such lines. -/
theorem spliced_construct {branch : Bool} {c : Construct} (hc : l.construct? branch s = some c)
    (hp : (Task.line branch l).Placed s) (hw : branch = false → ∃ V, s.Takes V t ∧ Whole l V)
    (htakes : ∀ V, s.Takes V u → s.Takes V t) (h : c.task.Spliced c.entry u i j) :
    (Task.line branch l).Spliced s t i j := by
  obtain ⟨p, hcursor, _⟩ := hp
  cases Line.sets hc with
  | rows _ hkind hread htask hentry _ =>
    rw [htask, hentry] at h
    obtain ⟨hs, U, e, U', hU, he, hsplice⟩ := h
    have hbranch : branch = false := by
      rcases hkind with ⟨hs', _⟩ | ⟨_, hbranch⟩
      · simp [hs] at hs'
      · exact hbranch
    obtain ⟨V, hV, hwhole⟩ := hw hbranch
    rw [hV.unique (htakes _ hU)] at hwhole
    have hall := Splice.block (c := p) (A := []) (B := []) .nil (hread hs) hwhole he (by simpa [hcursor] using hsplice)
    exact ⟨hbranch, U ++ [e], _, htakes _ hU, by simpa [hcursor] using hall⟩
  | passes hloop hbranch hread hlength hstart hstop htask hentry _ =>
    rw [htask, hentry] at h
    obtain ⟨U, R, U', hrest, hend, hsplice⟩ := h
    obtain ⟨target, count, source, hread⟩ := hread
    obtain ⟨U₀, e, R₀, hrest₀, rfl, he, hdepth⟩ := bodyLength?_eq_some_iff.mp hlength
    have hcut : U ++ R = U₀ ++ e :: R₀ := by
      rw [← hrest, ← hrest₀, hstart]
      rfl
    obtain ⟨rfl, _⟩ := List.append_inj hcut (by omega)
    obtain ⟨V, hV, hwhole⟩ := hw hbranch
    have hsame : V = U ++ [e] := by
      have hline : l.isEnd = false := by
        by_contra hend
        rw [Line.loops_of_end (by simpa using hend)] at hloop
        cases hloop
      have hcut : V ++ t.rest = (U ++ [e]) ++ R₀ := by
        rw [← hV.rest, hrest₀]
        simp
      have hextent := hwhole t.rest
      rw [← hV.rest, hrest₀, extent?_loop hline hloop hdepth he] at hextent
      exact (List.append_inj hcut (by simpa using (Option.some.inj hextent).symm)).1
    subst hsame
    have hall := Splice.loop (c := p) (A := []) (B := []) .nil hread hwhole he hdepth
      (by simpa [hstart, hcursor] using hsplice)
    exact ⟨hbranch, U ++ [e], _, hV, by simpa [hcursor] using hall⟩

/-- A block that has just been closed. -/
theorem spliced_block {c : Construct} {bs : List Bus} (hc : l.construct? false s = some c)
    (hp : (Task.line false l).Placed s) (hb : statement l.text = .block)
    (h : Completes c.task c.entry trace (.ok bs, u)) (hw : ∃ V, s.Takes V t ∧ Whole l V)
    (htakes : ∀ V, s.Takes V u → s.Takes V t) :
    (Task.line false l).Spliced s t (s.cursor - 1) (u.cursor - 1) := by
  obtain ⟨p, hcursor, _⟩ := hp
  obtain ⟨_, hloop, hselect⟩ := Line.shape_of_block hb
  cases Line.sets hc with
  | passes hloop' => simp [hloop] at hloop'
  | rows _ _ _ htask hentry _ =>
    rw [htask, hentry, hselect] at h
    have hrows := h.outcome_eq
    rw [Task.run, Nested.rows_statement] at hrows
    simp only [bind_eq_ok, get_eq_ok, pure_eq_ok] at hrows
    obtain ⟨_, _, ⟨rfl, rfl⟩, rs, w, hbody, _, rfl⟩ := hrows
    obtain ⟨U, e, v, hU, he, hend, rfl⟩ := body_carried hbody
    obtain ⟨d, hd⟩ := hU.depthAfter_eq
    have htaken := htakes _ (hU.takes.trans (takes_line he))
    obtain ⟨V, hV, hwhole⟩ := hw
    rw [hV.unique htaken] at hwhole
    have hall := Splice.here (c := p) (A := []) (B := []) .nil hb hwhole hend hd
    have hcursor' : v.cursor = s.cursor + U.length := hU.takes.cursor
    refine ⟨rfl, U ++ [e], U, htaken, ?_⟩
    simpa [hcursor, hcursor', Nat.add_assoc, Nat.add_comm 1] using hall

/-- The block stands in the first line of those that are left, -/
theorem spliced_first {branch : Bool} (hl : s.lines[s.cursor]? = some l)
    (h : (Task.line branch l).Spliced { s with cursor := s.cursor + 1 } u i j) :
    branch = false ∧ ∃ V V', s.Takes V u ∧ Splice s.cursor V i j V' := by
  obtain ⟨hbranch, V, V', hV, hsplice⟩ := h
  exact ⟨hbranch, l :: V, V', (takes_line hl).trans hV, hsplice⟩

/-- or in those behind it. -/
theorem spliced_later {U U' : List Line} (hl : s.lines[s.cursor]? = some l)
    (h : Completes (.line false l) { s with cursor := s.cursor + 1 } trace (.ok as, u))
    (hsplice : Splice u.cursor U i j U') :
    ∃ V, s.Takes V u ∧ Splice s.cursor (V ++ U) i j (V ++ U') := by
  obtain ⟨V, hV, hwhole⟩ := h.whole
  have htakes : s.Takes (l :: V) u := (takes_line hl).trans hV
  rw [htakes.cursor] at hsplice
  exact ⟨l :: V, htakes, hsplice.prepend hwhole.isRow⟩

/-- **A block that is closed while a task is done is a block of the lines that the task
takes.** -/
theorem Completes.spliced {task : Task} (h : Completes task s trace (.ok as, t)) (hp : task.Placed s)
    (hi : Event.closes i j ∈ trace) {m : Line} (hm : s.lines[i]? = some m) (hb : statement m.text = .block) :
    task.Spliced s t i j := by
  generalize hr : (Except.ok as, t) = r at h
  induction h generalizing as t with
  | plain hc h => cases hi
  | @construct branch l s c trace r hc h ih =>
    rcases r with ⟨e | bs, u⟩
    · cases hr
    · have hwhole (hbranch : branch = false) : ∃ V, s.Takes V t ∧ Whole l V := by
        have hline := Completes.construct hc h
        rw [← hr, hbranch] at hline
        exact hline.whole
      have hstill : u.Still t := Line.still_finish hc (on_eq_ok.mp hr.symm)
      have htakes (V : List Line) (hV : s.Takes V u) : s.Takes V t := by simpa using hV.trans hstill.takes
      rcases List.mem_append.mp hi with hi | hi
      · exact spliced_construct hc hp hwhole htakes (ih (Line.placed hc) hi (by rw [entry_lines hc]; exact hm) rfl)
      · obtain ⟨rfl, rfl⟩ := Event.closes.inj (List.mem_singleton.mp hi)
        obtain ⟨p, hcursor, hl⟩ := id hp
        rw [hcursor, Nat.add_sub_cancel, hl] at hm
        cases hm
        obtain rfl : branch = false := branch_of_block hc hb
        exact spliced_block hc hp hb h (hwhole rfl) htakes
  | rowsOut hl => cases hr
  | rowsEnd hl he => cases hi
  | rowsFail hl he h ih => cases hr
  | @rowsNext branch s u l trace trace' as' r hl he h h' ih ih' =>
    rcases r with ⟨e | bs, v⟩
    · cases hr
    · obtain ⟨rfl⟩ : t = v := (Prod.mk.inj hr).2
      rcases List.mem_append.mp (List.mem_of_ne_of_mem (by simp) hi) with hi | hi
      · obtain ⟨hbranch, V, V', hV, hsplice⟩ := spliced_first hl (ih ⟨s.cursor, rfl, hl⟩ hi hm rfl)
        obtain ⟨_, U, e, hU, hend, _⟩ := h'.done
        exact ⟨hbranch, V ++ U, e, V' ++ U, by simpa using hV.trans hU, hend, hsplice.extend U⟩
      · have hlines : u.lines = s.lines := (movesOn_each _ l _ _ u he h.outcome_eq).1
        obtain ⟨rfl, U, e, U', hU, hend, hsplice⟩ := ih' trivial hi (by rw [hlines]; exact hm) rfl
        obtain ⟨V, hV, hall⟩ := spliced_later hl h hsplice
        exact ⟨rfl, V ++ U, e, V ++ U', by simpa using hV.trans hU, hend, hall⟩
  | linesDone hs => cases hi
  | linesOut hs hl => cases hr
  | linesFail hs hl h ih => cases hr
  | @linesNext stop s u l trace trace' as' r hs hl h h' ih ih' =>
    subst hr
    rcases List.mem_append.mp (List.mem_of_ne_of_mem (by simp) hi) with hi | hi
    · obtain ⟨_, V, V', hV, hsplice⟩ := spliced_first hl (ih ⟨s.cursor, rfl, hl⟩ hi hm rfl)
      obtain ⟨_, W, hW⟩ := h'.done
      exact ⟨V ++ W, V' ++ W, hV.trans hW, hsplice.extend W⟩
    · have hlines : u.lines = s.lines := (movesOn_each _ l _ _ u h.isEnd_of_line h.outcome_eq).1
      obtain ⟨U, U', hU, hsplice⟩ := ih' trivial hi (by rw [hlines]; exact hm) rfl
      obtain ⟨V, hV, hall⟩ := spliced_later hl h hsplice
      exact ⟨V ++ U, V ++ U', hV.trans hU, hall⟩
  | passesDone => cases hi
  | passesFail h ih => cases hr
  | passesUnknown h hn ih => cases hr
  | @passesNext round times k s u trace trace' as' next r h hn h' ih ih' =>
    subst hr
    obtain ⟨U, R, hrest, _, hstop, hU⟩ := hp.carried h
    rcases List.mem_append.mp hi with hi | hi
    · obtain ⟨V, V', hV, hsplice⟩ := ih trivial hi hm rfl
      rw [hV.unique hU.takes] at hsplice
      exact ⟨U, R, V', hrest, hstop, hsplice⟩
    · have hlines : u.lines = s.lines := hU.takes.lines
      have hlater := ih' (hp.leave hlines next) (List.mem_of_ne_of_mem (by simp) hi)
        (by rw [Round.leave, hlines]; exact hm) rfl
      rwa [Task.Spliced, Round.leave, hlines] at hlater

/-- A block that is carried out is closed, -/
theorem Completes.closes_line (h : Completes (.line false l) s trace (.ok as, t))
    (hb : statement l.text = .block) : ∃ j, .closes (s.cursor - 1) j ∈ trace := by
  generalize hr : (Except.ok as, t) = r at h
  cases h with
  | plain hc h =>
    obtain ⟨_, _, _, hblock⟩ := Line.single_of_none hc ((h ample).trans hr.symm)
    simp [(Line.shape_of_block hb).1] at hblock
  | @construct _ _ _ c trace r hc h =>
    rcases r with ⟨e | bs, u⟩
    · cases hr
    · exact ⟨u.cursor - 1, List.mem_append_right _ (List.mem_singleton.mpr rfl)⟩

/-- if it is the first of the lines that are handed on, -/
theorem Completes.closes_first {branch : Bool} {m : Line} {trace' : List Event} (hl : s.lines[s.cursor]? = some l)
    (h : Completes (.line branch l) { s with cursor := s.cursor + 1 } trace (.ok as, u))
    (hm : s.lines[i]? = some m) (hb : statement m.text = .block)
    (hi : Event.takes false i ∈ .takes branch s.cursor :: (trace ++ trace'))
    (hinner : .takes false i ∈ trace → ∃ j, .closes i j ∈ trace)
    (hlater : .takes false i ∈ trace' → ∃ j, .closes i j ∈ trace') :
    ∃ j, .closes i j ∈ Event.takes branch s.cursor :: (trace ++ trace') := by
  simp only [List.mem_cons, List.mem_append, Event.takes.injEq, reduceCtorEq, false_or] at hi ⊢
  rcases hi with ⟨rfl, rfl⟩ | hi | hi
  · rw [hl] at hm
    cases hm
    obtain ⟨j, hj⟩ := h.closes_line hb
    exact ⟨j, .inl hj⟩
  · obtain ⟨j, hj⟩ := hinner hi
    exact ⟨j, .inl hj⟩
  · obtain ⟨j, hj⟩ := hlater hi
    exact ⟨j, .inr hj⟩

/-- and wherever else it stands. -/
theorem Completes.closes_of_takes {task : Task} (h : Completes task s trace (.ok as, t))
    (hi : Event.takes false i ∈ trace) {m : Line} (hm : s.lines[i]? = some m) (hb : statement m.text = .block) :
    ∃ j, .closes i j ∈ trace := by
  generalize hr : (Except.ok as, t) = r at h
  induction h generalizing as t with
  | plain hc h => cases hi
  | @construct branch l s c trace r hc h ih =>
    rcases r with ⟨e | bs, u⟩
    · cases hr
    · rcases List.mem_append.mp hi with hi | hi
      · obtain ⟨j, hj⟩ := ih hi (by rw [entry_lines hc]; exact hm) rfl
        exact ⟨j, List.mem_append_left _ hj⟩
      · simp [closing] at hi
  | rowsOut hl => cases hi
  | rowsEnd hl he => cases hi
  | rowsFail hl he h ih => cases hr
  | @rowsNext branch s u l trace trace' as' r hl he h h' ih ih' =>
    have hlines : u.lines = s.lines := (movesOn_each _ l _ _ u he h.outcome_eq).1
    rcases r with ⟨e | bs, v⟩
    · cases hr
    · exact h.closes_first hl hm hb hi (fun hi => ih hi hm rfl) fun hi => ih' hi (by rw [hlines]; exact hm) rfl
  | linesDone hs => cases hi
  | linesOut hs hl => cases hi
  | linesFail hs hl h ih => cases hr
  | @linesNext stop s u l trace trace' as' r hs hl h h' ih ih' =>
    have hlines : u.lines = s.lines := (movesOn_each _ l _ _ u h.isEnd_of_line h.outcome_eq).1
    exact h.closes_first hl hm hb hi (fun hi => ih hi hm rfl) fun hi => ih' hi (by rw [hlines]; exact hm) hr
  | passesDone => cases hi
  | passesFail h ih => cases hr
  | passesUnknown h hn ih => cases hr
  | @passesNext round times k s u trace trace' as' next r h hn h' ih ih' =>
    have hlines : u.lines = s.lines := by
      obtain ⟨_, _, htakes⟩ := h.done
      exact htakes.lines
    simp only [List.mem_append, List.mem_cons, reduceCtorEq, false_or] at hi ⊢
    rcases hi with hi | hi
    · obtain ⟨j, hj⟩ := ih hi hm rfl
      exact ⟨j, .inl hj⟩
    · obtain ⟨j, hj⟩ := ih' hi (by rw [Round.leave, hlines]; exact hm) hr
      exact ⟨j, .inr hj⟩

end Closed

/-! ### Scripts -/

/-- Without the numbers of two lines, the lines are those in front, between and behind. -/
theorem filter_cut {P Q R : List Line} {l e : Line}
    (hnodup : ((P ++ l :: (Q ++ e :: R)).map Line.number).Nodup) :
    ((P ++ l :: (Q ++ e :: R)).filter fun m => m.number != l.number && m.number != e.number) = P ++ (Q ++ R) := by
  have hkept {X : List Line} (hl : ∀ m ∈ X, m.number ≠ l.number) (he : ∀ m ∈ X, m.number ≠ e.number) :
      X.filter (fun m => m.number != l.number && m.number != e.number) = X := by
    rw [List.filter_eq_self]
    intro m hm
    simp [hl m hm, he m hm]
  simp only [List.map_append, List.map_cons, List.nodup_append, List.nodup_cons, List.mem_append, List.mem_cons,
    List.mem_map] at hnodup
  have hP : P.filter (fun m => m.number != l.number && m.number != e.number) = P := by
    apply hkept <;> grind
  have hQ : Q.filter (fun m => m.number != l.number && m.number != e.number) = Q := by
    apply hkept <;> grind
  have hR : R.filter (fun m => m.number != l.number && m.number != e.number) = R := by
    apply hkept <;> grind
  simp [List.filter_append, hP, hQ, hR]

/-- A script whose lines read as those without the block does the same. -/
theorem Splice.build {settings : Settings} {source source' : String} {f : Session} {i j : Nat} {V' : List Line}
    (h : Splice 0 (linesOf source.toList) i j V')
    (hbuild : outcome Session.build (.start source settings) = (.ok (), f))
    (htexts : (linesOf source'.toList).map Line.text = V'.map Line.text) :
    ∃ f', outcome Session.build (.start source' settings) = (.ok (), f') ∧ f.Alike f' := by
  have hstart : (Session.start source settings).Alike (.start source' settings) := ⟨rfl, rfl, rfl⟩
  have hrest : (Session.start source' settings).rest = linesOf source'.toList ++ [] := by
    rw [rest_start, List.append_nil]
  rw [build_carried_iff (Nat.zero_le _), rest_start] at hbuild
  obtain ⟨f', hf', halike⟩ := h.replaces hstart htexts hrest hbuild
  refine ⟨f', ?_, halike⟩
  rw [build_carried_iff (Nat.zero_le _), rest_start]
  exact hf'

/-- **A block goes unnoticed.** Every `BLOCK` that is carried out while a script is built is
closed by an `END`, the one that the text gives to it; without these two lines the text
builds as well, with the same gates and ports, the same buses and the same constant. -/
theorem block_unnoticed {source : String} {settings : Settings} {f : Session}
    (hbuild : outcome Session.build (.start source settings) = (.ok (), f)) :
    (∃ trace r, Completes (.linesTo (linesOf source.toList).length) (.start source settings) trace r) ∧
    ∀ trace r, Completes (.linesTo (linesOf source.toList).length) (.start source settings) trace r →
      ∀ i l, .takes false i ∈ trace → (linesOf source.toList)[i]? = some l → statement l.text = .block →
        (∃ j, .closes i j ∈ trace) ∧
        ∀ j, .closes i j ∈ trace → ∃ e, (linesOf source.toList)[j]? = some e ∧ e.isEnd = true ∧
          l.extent? ((linesOf source.toList).drop (i + 1)) = some (j - i) ∧
          ∃ f', outcome Session.build
              (.start (String.ofList (withoutLines l.number e.number source.toList)) settings) = (.ok (), f') ∧
            f'.netlist = f.netlist ∧ f'.buses = f.buses ∧ f'.counter = f.counter := by
  refine ⟨exists_completes _ _, fun trace r h i l hi hl hb => ?_⟩
  have hsize : (Session.start source settings).lines.size = (linesOf source.toList).length := by
    simp [Session.start]
  have hr : ∃ as, r = (.ok as, f) := by
    rw [← hsize] at h
    rw [h.outcome_build] at hbuild
    rcases r with ⟨e | as, t⟩
    · cases hbuild
    · obtain ⟨rfl⟩ : t = f := (Prod.mk.inj hbuild).2
      exact ⟨as, rfl⟩
  obtain ⟨as, rfl⟩ := hr
  have hl' : (Session.start source settings).lines[i]? = some l := by simpa [Session.start] using hl
  refine ⟨h.closes_of_takes hi hl' hb, fun j hj => ?_⟩
  obtain ⟨V, V', hV, hsplice⟩ := h.spliced trivial hj hl' hb
  have hall : V = linesOf source.toList := by
    rw [← rest_start source settings]
    rw [build_carried_iff (Nat.zero_le _)] at hbuild
    exact hV.unique hbuild.takes
  subst hall
  obtain ⟨P, l₀, Q, e, R, hlines, hleft, hi₀, hj₀, he, hwhole⟩ := hsplice.cut
  have hl₀ : l₀ = l := by
    rw [hlines, hi₀] at hl
    simpa [Session.start] using hl
  have hej : (linesOf source.toList)[j]? = some e := by
    rw [hlines, hj₀]
    simp [Session.start, Nat.add_assoc, Nat.add_comm 1]
  have hextent : l.extent? ((linesOf source.toList).drop (i + 1)) = some (j - i) := by
    have hbehind : (linesOf source.toList).drop (i + 1) = (Q ++ [e]) ++ R := by
      rw [hlines, hi₀]
      simp [Session.start]
    rw [hbehind, ← hl₀, hwhole R, hi₀, hj₀, List.length_append, List.length_singleton]
    congr 1
    omega
  have htexts : (linesOf (String.ofList (withoutLines l.number e.number source.toList)).toList).map Line.text =
      V'.map Line.text := by
    have hnodup := nodup_number_linesOf source.toList
    rw [hlines] at hnodup
    rw [String.toList_ofList, map_text_linesOf_withoutLines, hleft, ← hl₀, hlines, filter_cut hnodup]
  obtain ⟨f', hf', halike⟩ := Splice.build hsplice hbuild htexts
  exact ⟨e, hej, he, hextent, f', hf', halike.netlist, halike.buses, halike.counter⟩

/-- A block around a loop with another block and a selection. -/
def blockedSample : String :=
  "BLOCK all\nIN a /2\nIN s /1\nx = a\ny = LOOP(2) x\nBLOCK\nz = SELECT(s)\na.0\na.1\nEND\nEND\n" ++
    "y = NOT x\nEND\nEND all\nOUT o = y"

/-- The same without the outer block. -/
def unblockedSample : String :=
  "IN a /2\nIN s /1\nx = a\ny = LOOP(2) x\nBLOCK\nz = SELECT(s)\na.0\na.1\nEND\nEND\n" ++
    "y = NOT x\nEND\nOUT o = y"

theorem block_unnoticed_blockedSample :
    ∃ f f', outcome Session.build (.start blockedSample {}) = (.ok (), f) ∧
      outcome Session.build (.start unblockedSample {}) = (.ok (), f') ∧
      f'.netlist = f.netlist ∧ f'.buses = f.buses ∧ f'.counter = f.counter := by
  obtain ⟨hok, hsize, hline, hextent, hclose, htext⟩ :
      (outcome Session.build (.start blockedSample {})).1 = .ok () ∧
        (linesOf blockedSample.toList).length = 15 ∧
        (linesOf blockedSample.toList)[0]? = some ⟨1, "BLOCK all".toList⟩ ∧
        Line.extent? ⟨1, "BLOCK all".toList⟩ ((linesOf blockedSample.toList).drop 1) = some 13 ∧
        (linesOf blockedSample.toList)[13]? = some ⟨14, "END all".toList⟩ ∧
        String.ofList (withoutLines 1 14 blockedSample.toList) = unblockedSample := by
    decide +kernel
  have hblock : statement "BLOCK all".toList = .block := rfl
  have hbuild : outcome Session.build (.start blockedSample {}) =
      (.ok (), (outcome Session.build (.start blockedSample {})).2) := by rw [← hok]
  obtain ⟨⟨trace, r, h⟩, hall⟩ := block_unnoticed hbuild
  have hfirst : Event.takes false 0 ∈ trace := by
    cases h with
    | linesDone hs => simp [hsize, Session.start] at hs
    | linesOut hs hl => simp [Session.start, hsize] at hl
    | linesFail => exact List.mem_cons_self
    | linesNext => exact List.mem_cons_self
  obtain ⟨⟨j, hj⟩, hcut⟩ := hall trace r h 0 _ hfirst hline hblock
  obtain ⟨e, he, _, hlast, f', hf', hsame⟩ := hcut j hj
  rw [hextent] at hlast
  obtain rfl : 13 = j := Option.some.inj hlast
  rw [hclose] at he
  cases he
  rw [htext] at hf'
  exact ⟨_, f', hbuild, hf', hsame⟩

end BusLogic.Script
