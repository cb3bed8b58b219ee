import BusLogic.Proofs.Script.Restating

/-! The layout of a script does not matter.

White space between tokens, blank lines and comments may be put into a script (`Relaid`).
A line that a character is put into keeps its tokens, and a line that says nothing only
moves the numbers of those below it, so the lines of the two scripts correspond
(`Relaid.lines`), and the scripts are built alike. -/
namespace BusLogic.Script
open Attempt Text

/-! ### Lines of the same tokens, one by one -/

/-- The rows that say something, numbered from `n` on together with the others. -/
def codeLines (n : Nat) (rows : List (List Char)) : List Line :=
  ((rows.zipIdx n).map fun p => Line.mk p.2 (trim p.1)).filter fun l => isCode l.text

theorem linesOf_eq (source : List Char) : linesOf source = codeLines 1 (lines source) := rfl

theorem codeLines_cons (n : Nat) (row : List Char) (rows : List (List Char)) :
    codeLines n (row :: rows) =
      if isCode (trim row) then ⟨n, trim row⟩ :: codeLines (n + 1) rows else codeLines (n + 1) rows := by
  simp only [codeLines, List.zipIdx_cons, List.map_cons, List.filter_cons]

theorem codeLines_append (n : Nat) (above below : List (List Char)) :
    codeLines n (above ++ below) = codeLines n above ++ codeLines (n + above.length) below := by
  simp only [codeLines, List.zipIdx_append, List.map_append, List.filter_append]

theorem restated_codeLines {image : Nat → Nat} {rows rows' : List (List Char)}
    (h : List.Forall₂ (fun row row' => tokens row = tokens row') rows rows') (n n' : Nat)
    (himage : ∀ k < rows.length, image (n + k) = n' + k) :
    List.Forall₂ (Line.Restated image) (codeLines n rows) (codeLines n' rows') := by
  induction h generalizing n n' with
  | nil => exact .nil
  | @cons row row' rows rows' hrow _ ih =>
    have htext : SameTokens (trim row) (trim row') := sameTokens_trim hrow
    have hrest := ih (n + 1) (n' + 1) fun k hk => by
      rw [Nat.add_right_comm, Nat.add_assoc, himage (k + 1) (Nat.succ_lt_succ hk)]
      omega
    rw [codeLines_cons, codeLines_cons, ← htext.isCode]
    split
    · exact .cons ⟨(himage 0 (Nat.succ_pos _)).symm, htext⟩ hrest
    · exact hrest

theorem restated_codeLines_self {image : Nat → Nat} (rows : List (List Char)) (n n' : Nat)
    (himage : ∀ k < rows.length, image (n + k) = n' + k) :
    List.Forall₂ (Line.Restated image) (codeLines n rows) (codeLines n' rows) :=
  restated_codeLines (List.forall₂_same.mpr fun _ _ => rfl) n n' himage

theorem Line.Restated.trans {f g : Nat → Nat} {l m o : Line} (h : l.Restated f m) (h' : m.Restated g o) :
    l.Restated (g ∘ f) o where
  number := by rw [h'.number, h.number, Function.comp_apply]
  text := ⟨h.text.tokens.trans h'.text.tokens, h.text.left, h'.text.right⟩

theorem restated_trans {f g : Nat → Nat} {ls ms os : List Line} (h : List.Forall₂ (Line.Restated f) ls ms)
    (h' : List.Forall₂ (Line.Restated g) ms os) : List.Forall₂ (Line.Restated (g ∘ f)) ls os := by
  induction h generalizing os with
  | nil =>
    cases h'
    exact .nil
  | cons hl _ ih =>
    cases h' with
    | cons hm hrest => exact .cons (hl.trans hm) (ih hrest)

/-! ### Changes of layout -/

/-- The line numbers when a line is put in below line `n`. -/
def shiftBelow (n k : Nat) : Nat := if k ≤ n then k else k + 1

/-- The second text is the first with other white space, blank lines and comments put in.
What stood on line `n` of the first now stands on line `image n`. -/
inductive Relaid : List Char → List Char → (image : Nat → Nat) → Prop
  | refl (source : List Char) : Relaid source source id
  /-- White space, where it tears neither a word nor a run of dots apart. -/
  | blank {c : Char} (a z : List Char) (hc : isBlank c = true) (hline : c ≠ '\n')
      (hfree : ∀ x y, a.getLast? = some x → z.head? = some y → joins x y = false) : Relaid (a ++ z) (a ++ c :: z) id
  /-- A line that is blank or a comment. -/
  | line {source source' : List Char} (rows : List (List Char)) (row : List Char) (rest : List (List Char))
      (hrow : isCode (trim row) = false) (hsource : lines source = rows ++ rest)
      (hsource' : lines source' = rows ++ row :: rest) : Relaid source source' (shiftBelow rows.length)
  | trans {a b c : List Char} {f g : Nat → Nat} (h : Relaid a b f) (h' : Relaid b c g) : Relaid a c (g ∘ f)

/-- White space put into a text leaves each line its tokens. -/
theorem forall₂_tokens_insert {a z : List Char} {c : Char} (hc : isBlank c = true) (hline : c ≠ '\n')
    (hfree : ∀ x y, a.getLast? = some x → z.head? = some y → joins x y = false) :
    List.Forall₂ (fun row row' => tokens row = tokens row') (lines (a ++ z)) (lines (a ++ c :: z)) := by
  obtain ⟨rows, left, right, rest, hplain, hmore, ⟨start, rfl⟩, ⟨stop, rfl⟩, _⟩ := lines_insert a z hline
  have hrow : tokens (left ++ right) = tokens (left ++ c :: right) := by
    refine (tokens_insert hc fun x y hx hy => hfree x y ?_ ?_).symm
    · rw [List.getLast?_append, hx, Option.some_or]
    · rw [List.head?_append, hy, Option.some_or]
  have hsame (rows : List (List Char)) : List.Forall₂ (fun row row' => tokens row = tokens row') rows rows :=
    List.forall₂_same.mpr fun _ _ => rfl
  rw [hplain, hmore]
  exact List.rel_append (hsame rows) (.cons hrow (hsame rest))

/-- The lines of a script that has been laid out anew say what they said. -/
theorem Relaid.lines {source source' : List Char} {image : Nat → Nat} (h : Relaid source source' image) :
    List.Forall₂ (Line.Restated image) (linesOf source) (linesOf source') := by
  induction h with
  | refl source => exact restated_codeLines_self _ 1 1 fun _ _ => rfl
  | blank a z hc hline hfree => exact restated_codeLines (forall₂_tokens_insert hc hline hfree) 1 1 fun _ _ => rfl
  | line rows row rest hrow hsource hsource' =>
    rw [linesOf_eq, linesOf_eq, hsource, hsource', codeLines_append, codeLines_append, codeLines_cons, hrow]
    refine List.rel_append (restated_codeLines_self rows 1 1 fun k hk => if_pos (by omega)) ?_
    exact restated_codeLines_self rest _ _ fun k _ => (if_neg (by omega)).trans (by omega)
  | trans _ _ ih ih' => exact restated_trans ih ih'

/-- **The layout of a script does not matter.** White space between its tokens, blank lines and
comments may be put into it anywhere, inside constructs too. It is then built to the same
netlist, buses and constants as before, with success or with the same error up to the text
that it quotes, on the line that the line of the error has become. -/
theorem build_relaid {source source' : String} {image : Nat → Nat}
    (h : Relaid source.toList source'.toList image) (settings : Settings) :
    let built := outcome Session.build (.start source settings)
    let built' := outcome Session.build (.start source' settings)
    built'.2.netlist = built.2.netlist ∧ built'.2.buses = built.2.buses ∧ built'.2.constant? = built.2.constant? ∧
      ((built.1 = .ok () ∧ built'.1 = .ok ()) ∨
        ∃ f f', built.1 = .error f ∧ built'.1 = .error f' ∧ f'.cause.blur = f.cause.blur ∧
          f'.line = f.line.map image) := by
  have hstart : (Session.start source settings).Restates image (.start source' settings) := ⟨h.lines, rfl⟩
  obtain ⟨hstate, hends⟩ := abreast_build _ _ hstart
  generalize outcome Session.build (.start source settings) = built at hstate hends ⊢
  generalize outcome Session.build (.start source' settings) = built' at hstate hends ⊢
  obtain ⟨r, s⟩ := built
  obtain ⟨r', s'⟩ := built'
  have hrest : s' = { s with lines := s'.lines } := hstate.rest
  refine ⟨by rw [hrest], by rw [hrest], by rw [hrest]; rfl, ?_⟩
  cases hends with
  | ok _ => exact .inl ⟨rfl, rfl⟩
  | error hf => exact .inr ⟨_, _, rfl, rfl, hf.cause.symm, hf.line⟩

/-- A block whose second line names a bus that there is not. -/
def terseSample : String := "IN a /1\nBLOCK\nb = a AND c\nEND\n"

/-- The block with a comment in it, and a tab. -/
def notedSample : String := "IN a /1\nBLOCK\n# a note\nb\t = a AND c\nEND\n"

theorem relaid_notedSample : Relaid terseSample.toList notedSample.toList (shiftBelow 2) := by
  have hnote : Relaid terseSample.toList "IN a /1\nBLOCK\n# a note\nb = a AND c\nEND\n".toList (shiftBelow 2) :=
    .line ["IN a /1".toList, "BLOCK".toList] "# a note".toList ["b = a AND c".toList, "END".toList, []]
      (by decide +kernel) (by decide +kernel) (by decide +kernel)
  exact .trans hnote (.blank "IN a /1\nBLOCK\n# a note\nb".toList " = a AND c\nEND\n".toList (by decide) (by decide)
    fun x y hx hy => by
      cases hx
      cases hy
      decide)

/-- The block to begin with, its lines at hand. -/
def terseStart : Session := .ofLines
  [⟨1, "IN a /1".toList⟩, ⟨2, "BLOCK".toList⟩, ⟨3, "b = a AND c".toList⟩, ⟨4, "END".toList⟩] ⟨9, 0⟩

theorem start_terseSample : Session.start terseSample ⟨9, 0⟩ = terseStart := Session.start_eq (by decide +kernel) _

/-- The failure moves from line 3 to line 4, and nothing else changes. -/
theorem build_relaid_notedSample :
    Relaid terseSample.toList notedSample.toList (shiftBelow 2) ∧
      (outcome Session.build (.start terseSample ⟨9, 0⟩)).1 = .error ⟨.undefinedSymbol "c", some 3⟩ ∧
      ∃ f, (outcome Session.build (.start notedSample ⟨9, 0⟩)).1 = .error f ∧
        f.cause.blur = .undefinedSymbol "c" ∧ f.line = some 4 := by
  have hfails : (outcome Session.build (.start terseSample ⟨9, 0⟩)).1 = .error ⟨.undefinedSymbol "c", some 3⟩ := by
    rw [start_terseSample]
    decide +kernel
  refine ⟨relaid_notedSample, hfails, ?_⟩
  obtain ⟨_, _, _, ⟨hok, _⟩ | ⟨f, f', hf, hf', hcause, hline⟩⟩ := build_relaid relaid_notedSample ⟨9, 0⟩
  · rw [hfails] at hok
    cases hok
  · rw [hfails] at hf
    cases hf
    exact ⟨f', hf', hcause, hline⟩

end BusLogic.Script
