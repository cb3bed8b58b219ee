import BusLogic.Script.Line
import Mathlib.Data.List.Nodup
import Mathlib.Data.List.TakeWhile

/-! The lines of a text.

A text is split at its line feeds (`lines_append`), and lines put together again are read
as they were (`lines_intercalate`). Any other character put into a text goes into one line
of it (`lines_insert`). Trimming leaves what stands between white space (`trim_eq_iff`).
What a script says is told by its lines one by one
(`map_text_linesOf`), so that lines can be taken out of its text by their numbers
(`map_text_linesOf_withoutLines`). -/
namespace BusLogic.Text
variable {a b text row : List Char}

/-! ### Runs of characters -/

/-- A run of characters ends in front of a character that is none of them. -/
theorem run_append {f : Char → Bool} {w X : List Char} (hw : ∀ c ∈ w, f c = true)
    (hX : ∀ c, X.head? = some c → f c = false) : (w ++ X).takeWhile f = w ∧ (w ++ X).dropWhile f = X := by
  rw [List.takeWhile_append_of_pos hw, List.dropWhile_append_of_pos hw]
  cases X with
  | nil => simp
  | cons c X => simp [hX c rfl]

/-- What follows a run of characters starts with none of them. -/
theorem head?_dropWhile {f : Char → Bool} {s : List Char} {c : Char} (h : (s.dropWhile f).head? = some c) :
    f c = false := by
  have hnot := List.head?_dropWhile_not f s
  rw [h] at hnot
  exact hnot

/-! ### Splitting at line feeds -/

theorem lines_of_not_mem (h : '\n' ∉ a) : lines a = [a] := by
  have hdrop : a.dropWhile (· != '\n') = [] := by
    rw [List.dropWhile_eq_nil_iff]
    intro c hc
    simpa using fun heq : c = '\n' => h (heq ▸ hc)
  rw [lines]
  split
  · rfl
  · next heq => simp [hdrop] at heq

theorem lines_append (h : '\n' ∉ a) : lines (a ++ '\n' :: b) = a :: lines b := by
  have hall : ∀ c ∈ a, (c != '\n') = true := by
    intro c hc
    simpa using fun heq : c = '\n' => h (heq ▸ hc)
  have hdrop : (a ++ '\n' :: b).dropWhile (· != '\n') = '\n' :: b := by
    rw [List.dropWhile_append_of_pos hall]
    simp
  have htake : (a ++ '\n' :: b).takeWhile (· != '\n') = a := by
    rw [List.takeWhile_append_of_pos hall]
    simp
  rw [lines]
  split
  · next heq => simp [hdrop] at heq
  · next heq =>
    rw [hdrop] at heq
    rw [htake, (List.cons.inj heq).2]

theorem not_mem_of_mem_lines (h : row ∈ lines text) : '\n' ∉ row := by
  fun_induction lines text with
  | case1 text hdrop =>
    cases List.mem_singleton.mp h
    intro hmem
    simpa using List.dropWhile_eq_nil_iff.mp hdrop _ hmem
  | case2 text c rest hdrop ih =>
    rcases List.mem_cons.mp h with rfl | h
    · intro hmem
      simpa using List.mem_takeWhile_imp hmem
    · exact ih h

/-- Every character belongs to the first line of what follows, but for a line feed. -/
theorem lines_cons (c : Char) (s : List Char) :
    lines (c :: s) = if c = '\n' then [] :: lines s else (lines s).modifyHead (c :: ·) := by
  split
  · rename_i hc
    subst hc
    exact lines_append (a := []) List.not_mem_nil
  · rename_i hc
    by_cases hs : '\n' ∈ s
    · obtain ⟨first, rest, rfl, hfirst⟩ := List.eq_append_cons_of_mem hs
      rw [lines_append hfirst, ← List.cons_append, lines_append (by simp [hfirst, Ne.symm hc])]
      rfl
    · rw [lines_of_not_mem hs, lines_of_not_mem (by simp [hs, Ne.symm hc])]
      rfl

theorem lines_ne_nil (s : List Char) : lines s ≠ [] := by
  rw [lines]
  split <;> exact List.cons_ne_nil _ _

/-- A text begins with its first line. -/
theorem prefix_of_lines {rows : List (List Char)} (h : lines text = row :: rows) : row <+: text := by
  induction text generalizing row rows with
  | nil =>
    rw [lines_of_not_mem List.not_mem_nil] at h
    cases h
    exact List.prefix_rfl
  | cons c s ih =>
    rw [lines_cons] at h
    split at h
    · cases h
      exact List.nil_prefix
    · obtain ⟨first, rest, hs⟩ := List.exists_cons_of_ne_nil (lines_ne_nil s)
      rw [hs] at h
      cases h
      exact (List.prefix_cons_inj c).mpr (ih hs)

/-- A character put into a text is put into one of its lines. -/
theorem lines_insert (a b : List Char) {c : Char} (hc : c ≠ '\n') : ∃ above left right below,
    lines (a ++ b) = above ++ (left ++ right) :: below ∧ lines (a ++ c :: b) = above ++ (left ++ c :: right) :: below ∧
      left <:+ a ∧ right <+: b ∧ (above = [] → left = a) := by
  induction a with
  | nil =>
    obtain ⟨first, rest, hb⟩ := List.exists_cons_of_ne_nil (lines_ne_nil b)
    refine ⟨[], [], first, rest, hb, ?_, List.suffix_rfl, prefix_of_lines hb, fun _ => rfl⟩
    rw [List.nil_append, lines_cons, if_neg hc, hb]
    rfl
  | cons d a ih =>
    obtain ⟨above, left, right, below, hplain, hmore, hleft, hright, hfirst⟩ := ih
    have hsuffix : left <:+ d :: a := hleft.trans (List.suffix_cons d a)
    rw [List.cons_append, List.cons_append, lines_cons, lines_cons, hplain, hmore]
    by_cases hd : d = '\n'
    · rw [if_pos hd, if_pos hd]
      exact ⟨[] :: above, left, right, below, rfl, rfl, hsuffix, hright, nofun⟩
    · rw [if_neg hd, if_neg hd]
      cases above with
      | nil =>
        obtain rfl := hfirst rfl
        exact ⟨[], d :: left, right, below, rfl, rfl, List.suffix_rfl, hright, fun _ => rfl⟩
      | cons row above => exact ⟨(d :: row) :: above, left, right, below, rfl, rfl, hsuffix, hright, nofun⟩

theorem lines_intercalate {rows : List (List Char)} (hne : rows ≠ []) (h : ∀ row ∈ rows, '\n' ∉ row) :
    lines (List.intercalate ['\n'] rows) = rows := by
  induction rows with
  | nil => exact absurd rfl hne
  | cons row rows ih =>
    cases rows with
    | nil => simpa using lines_of_not_mem (h row (by simp))
    | cons row' rows =>
      rw [List.intercalate_cons_cons, List.append_assoc, List.singleton_append, lines_append (h row (by simp)),
        ih (by simp) fun r hr => h r (List.mem_cons_of_mem _ hr)]

/-! ### Trimming -/

/-- No white space at either end. -/
def Unpadded (t : List Char) : Prop :=
  (∀ c, t.head? = some c → isBlank c = false) ∧ ∀ c, t.getLast? = some c → isBlank c = false

/-- The second text is the first without the white space at its ends. -/
structure Trims (s t : List Char) : Prop where
  around : ∃ left right, s = left ++ t ++ right ∧ (∀ c ∈ left, isBlank c = true) ∧ ∀ c ∈ right, isBlank c = true
  unpadded : Unpadded t

theorem trims_trim (s : List Char) : Trims s (trim s) := by
  have hstart : s.takeWhile isBlank ++ trimStart s = s := List.takeWhile_append_dropWhile
  have hend : trim s ++ ((trimStart s).reverse.takeWhile isBlank).reverse = trimStart s := by
    rw [trim, trimEnd, ← List.reverse_append, List.takeWhile_append_dropWhile, List.reverse_reverse]
  refine ⟨⟨s.takeWhile isBlank, ((trimStart s).reverse.takeWhile isBlank).reverse, ?_, ?_, ?_⟩, ?_, ?_⟩
  · rw [List.append_assoc, hend, hstart]
  · exact fun c hc => List.mem_takeWhile_imp hc
  · exact fun c hc => List.mem_takeWhile_imp (List.mem_reverse.mp hc)
  · intro c hc
    -- what is left begins as the text does behind its first blanks
    have hhead : (trimStart s).head? = some c := by
      rw [← hend, List.head?_append, hc]
      rfl
    exact head?_dropWhile hhead
  · intro c hc
    rw [trim, trimEnd, List.getLast?_reverse] at hc
    exact head?_dropWhile hc

theorem Trims.trim_eq {s t : List Char} (h : Trims s t) : trim s = t := by
  obtain ⟨⟨left, right, rfl, hleft, hright⟩, hfirst, hlast⟩ := h
  have hrev : ∀ c ∈ right.reverse, isBlank c = true := fun c hc => hright c (List.mem_reverse.mp hc)
  rw [trim, trimStart, List.append_assoc, List.dropWhile_append_of_pos hleft]
  cases t with
  | nil =>
    rw [List.nil_append, List.dropWhile_eq_nil_iff.mpr hright]
    rfl
  | cons c t =>
    have hback : ∀ d, (c :: t).reverse.head? = some d → isBlank d = false := by
      intro d hd
      rw [List.head?_reverse] at hd
      exact hlast d hd
    have hkept : (c :: t ++ right).dropWhile isBlank = c :: t ++ right :=
      (run_append (w := []) (X := c :: t ++ right) nofun hfirst).2
    rw [hkept, trimEnd, List.reverse_append, (run_append hrev hback).2, List.reverse_reverse]

theorem trim_eq_iff {s t : List Char} : trim s = t ↔ Trims s t := ⟨fun h => h ▸ trims_trim s, Trims.trim_eq⟩

theorem Unpadded.of_forall (h : ∀ c ∈ a, isBlank c = false) : Unpadded a :=
  ⟨fun c hc => h c (List.mem_of_head? hc), fun c hc => h c (List.mem_of_getLast? hc)⟩

theorem Unpadded.trims (h : Unpadded a) : Trims a a := ⟨⟨[], [], (List.append_nil a).symm, nofun, nofun⟩, h⟩

/-- A text with no blank at its ends is trimmed. -/
theorem trim_eq_self (hfirst : ∀ c, a.head? = some c → isBlank c = false)
    (hlast : ∀ c, a.getLast? = some c → isBlank c = false) : trim a = a :=
  (Unpadded.trims ⟨hfirst, hlast⟩).trim_eq

end BusLogic.Text

namespace BusLogic.Script
variable {source : List Char}

/-! ### What a script says -/

/-- Whether a trimmed line says something. -/
def isCode (text : List Char) : Bool := !text.isEmpty && text.head? != some '#'

theorem map_text_linesOf (source : List Char) :
    (linesOf source).map Line.text = ((Text.lines source).map Text.trim).filter isCode := by
  have hmap : (Text.lines source).map Text.trim =
      (((Text.lines source).zipIdx 1).map fun p => Line.mk p.2 (Text.trim p.1)).map Line.text := by
    rw [List.map_map]
    conv_lhs => rw [← List.zipIdx_map_fst 1 (Text.lines source), List.map_map]
    rfl
  rw [hmap, List.filter_map]
  rfl

/-- No two lines of a script have the same number. -/
theorem nodup_number_linesOf (source : List Char) : ((linesOf source).map Line.number).Nodup := by
  have hall : (((Text.lines source).zipIdx 1).map fun p => Line.mk p.2 (Text.trim p.1)).map Line.number =
      List.range' 1 (Text.lines source).length := by
    rw [List.map_map, ← List.zipIdx_map_snd]
    rfl
  have hsub := List.Sublist.map Line.number (List.filter_sublist (p := fun l : Line => isCode l.text)
    (l := ((Text.lines source).zipIdx 1).map fun p => Line.mk p.2 (Text.trim p.1)))
  rw [hall] at hsub
  exact hsub.nodup List.nodup_range'

/-- Lines are numbered as they stand in the text, those that say nothing included. -/
theorem mem_linesOf {l : Line} : l ∈ linesOf source ↔
    ∃ k raw, (Text.lines source)[k]? = some raw ∧ isCode (Text.trim raw) = true ∧ l = ⟨k + 1, Text.trim raw⟩ := by
  simp only [linesOf, List.mem_filter, List.mem_map, Prod.exists, List.mk_mem_zipIdx_iff_le_and_getElem?_sub]
  constructor
  · rintro ⟨⟨raw, n, ⟨hn, hraw⟩, rfl⟩, hcode⟩
    exact ⟨n - 1, raw, hraw, hcode, by rw [Nat.sub_add_cancel hn]⟩
  · rintro ⟨k, raw, hraw, hcode, rfl⟩
    exact ⟨⟨raw, k + 1, ⟨Nat.le_add_left 1 k, hraw⟩, rfl⟩, hcode⟩

/-! ### Lines taken out -/

/-- The text without its lines number `a` and `b`. -/
def withoutLines (a b : Nat) (source : List Char) : List Char :=
  List.intercalate ['\n'] ((((Text.lines source).zipIdx 1).filter fun p => p.2 != a && p.2 != b).map Prod.fst)

theorem map_text_linesOf_withoutLines (a b : Nat) (source : List Char) :
    (linesOf (withoutLines a b source)).map Line.text =
      ((linesOf source).filter fun l => l.number != a && l.number != b).map Line.text := by
  set rows := (((Text.lines source).zipIdx 1).filter fun p => p.2 != a && p.2 != b).map Prod.fst with hrows
  have hleft : (linesOf (withoutLines a b source)).map Line.text = (rows.map Text.trim).filter isCode := by
    rw [map_text_linesOf, withoutLines, ← hrows]
    by_cases hne : rows = []
    · rw [hne, List.intercalate_nil, Text.lines_of_not_mem List.not_mem_nil]
      rfl
    · rw [Text.lines_intercalate hne]
      intro row hrow
      obtain ⟨p, hp, rfl⟩ := List.mem_map.mp hrow
      exact Text.not_mem_of_mem_lines (List.fst_mem_of_mem_zipIdx (List.mem_filter.mp hp).1)
  rw [hleft, hrows]
  simp only [linesOf, List.filter_filter, List.filter_map, List.map_map]
  congr 1
  apply List.filter_congr
  intro p _
  exact Bool.and_comm ..

end BusLogic.Script
