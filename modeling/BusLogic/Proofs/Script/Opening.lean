import BusLogic.Script.Execute
import Mathlib.Data.List.DropRight
import Mathlib.Tactic.Common

/-! What a line's reading says about the constructs its text opens.

Whether a line opens a construct is decided on its text after the first equals sign
(`Line.opens`), what it means by reading it. Reading a value passes over no equals sign
(`toEquals`), so the text after the first one is the text that is read as the value, and
the two decisions agree: a block, a loop or a selection opens a construct, and no other
statement does. -/
namespace BusLogic.Script
open Text

/-- Whether a text starts with a keyword and an opening parenthesis. -/
def startsWith (keyword : String) (s : List Char) : Bool :=
  (word (trimStart s)).1 == keyword && (word (trimStart s)).2.head? == some '('

namespace Line

/-- Whether the line starts a loop. -/
def loops (line : Line) : Bool := startsWith "LOOP" (afterEquals line.text)

/-- Whether the line starts a selection. -/
def selects (line : Line) : Bool := startsWith "SELECT" (afterEquals line.text)

/-- Whether the line starts with the word `BLOCK`. -/
def startsBlock (line : Line) : Bool := (word line.text).1 == "BLOCK"

theorem opens_eq (line : Line) : line.opens = (line.startsBlock || line.loops || line.selects) := by
  show (_ || ((_ || _) && _)) = _
  rw [Bool.and_or_distrib_right, Bool.or_assoc]
  rfl

end Line

/-! ### The first equals sign -/

/-- The text from its first equals sign on. -/
def toEquals (s : List Char) : List Char := s.dropWhile (· != '=')

theorem afterEquals_eq (s : List Char) :
    Line.afterEquals s = match toEquals s with | [] => s | _ :: rest => rest := rfl

theorem toEquals_dropWhile {p : Char → Bool} (hp : p '=' = false) (s : List Char) :
    toEquals (s.dropWhile p) = toEquals s := by
  induction s with
  | nil => rfl
  | cons c rest ih =>
    rw [List.dropWhile_cons]
    split
    · rename_i hc
      have hne : c ≠ '=' := fun heq => by
        rw [heq, hp] at hc
        cases hc
      rw [ih, toEquals, toEquals, List.dropWhile_cons, if_pos (by simpa using hne)]
    · rfl

theorem toEquals_trimStart (s : List Char) : toEquals (trimStart s) = toEquals s :=
  toEquals_dropWhile (by decide) s

theorem toEquals_word (s : List Char) : toEquals (word s).2 = toEquals s :=
  (toEquals_trimStart _).trans (toEquals_dropWhile (by decide) s)

theorem toEquals_name? {s r : List Char} {name : String} (h : name? s = some (name, r)) :
    toEquals r = toEquals s := by
  unfold name? at h
  split at h
  · cases h
  · cases h
    exact toEquals_word s

theorem toEquals_number? (s : List Char) : toEquals (number? s).2 = toEquals s :=
  (toEquals_trimStart _).trans (toEquals_dropWhile (by decide) s)

theorem toEquals_eat? {mark s r : List Char} (h : eat? mark s = some r) (hm : '=' ∉ mark) :
    toEquals r = toEquals s := by
  induction mark generalizing s with
  | nil =>
    cases h
    exact toEquals_trimStart s
  | cons m mark ih =>
    cases s with
    | nil => simp [eat?] at h
    | cons c s =>
      rw [eat?] at h
      split at h
      · rename_i hmc
        have hne : c ≠ '=' := fun heq => hm (by rw [hmc, heq]; exact List.mem_cons_self ..)
        rw [ih h fun hmem => hm (List.mem_cons_of_mem _ hmem), toEquals, toEquals, List.dropWhile_cons,
          if_pos (by simpa using hne)]
      · cases h

theorem toEquals_index (s : List Char) : toEquals (index s).2 = toEquals s := by
  unfold index
  split
  · have h := toEquals_number? s
    split <;> rename_i heq <;> rwa [heq] at h
  · split
    · rfl
    · rename_i h
      exact toEquals_name? h

theorem toEquals_span? (s : List Char) : toEquals (span? s).2 = toEquals s := by
  unfold span?
  split
  · rfl
  · rename_i r h
    have hr := toEquals_eat? h (by decide)
    have hi := toEquals_index r
    dsimp only
    split
    · rw [hi, hr]
    · rename_i r' h'
      have hi' := toEquals_index r'
      rw [hi', toEquals_eat? h' (by decide), hi, hr]

theorem toEquals_listParts (s : List Char) : toEquals (listParts s).2 = toEquals s := by
  fun_induction listParts s with
  | case1 => rfl
  | case2 s name r hn part r' he =>
    rw [toEquals_eat? he (by decide), toEquals_span?, toEquals_name? hn]
  | case3 s name r hn part he r' hc more r'' hp ih =>
    rw [hp] at ih
    rw [ih, toEquals_eat? hc (by decide), toEquals_span?, toEquals_name? hn]
  | case4 s name r hn part he hc => rw [toEquals_span?, toEquals_name? hn]

theorem toEquals_listing (s : List Char) : toEquals (listing s).2 = toEquals s := by
  unfold listing
  split
  · rename_i h
    exact toEquals_eat? h (by decide)
  · exact toEquals_listParts s

theorem toEquals_extent? (s : List Char) : toEquals (extent? s).2 = toEquals s := by
  unfold extent?
  split
  · rfl
  · rename_i r h
    have hr := toEquals_eat? h (by decide)
    have hi := toEquals_index r
    dsimp only
    split
    · rename_i h'
      rw [toEquals_eat? h' (by decide), hi, hr]
    · rw [hi, hr]

theorem toEquals_named (name : String) (s : List Char) : toEquals (named name s).2 = toEquals s := by
  unfold named
  split
  · exact toEquals_extent? s
  · split
    · split
      · rename_i r h
        exact (toEquals_listing r).trans (toEquals_eat? h (by decide))
      · rfl
    · exact toEquals_span? s

theorem toEquals_term? {s r : List Char} {t : Term} (h : term? s = some (t, r)) :
    toEquals r = toEquals s := by
  unfold term? at h
  split at h
  · rename_i r'
    have hr : (listing (trimStart r')).2 = r := congrArg Prod.snd (Option.some.inj h)
    rw [← hr, toEquals_listing, toEquals_trimStart]
    rfl
  · split at h
    · cases h
    · rename_i name r' hn
      have hnamed := toEquals_named name r'
      rw [Option.some.inj h] at hnamed
      rw [hnamed, toEquals_name? hn]

theorem toEquals_terms (s : List Char) : toEquals (terms s).2 = toEquals s := by
  fun_induction terms s with
  | case1 => rfl
  | case2 s t r hterm ts rest hts ih =>
    rw [hts] at ih
    exact ih.trans (toEquals_term? hterm)

/-! ### Values -/

theorem leftover?_eq_none {s : List Char} (h : leftover? s = none) : s = [] := by
  cases s with
  | nil => rfl
  | cons c rest => cases h

theorem eat?_single {c : Char} {s r : List Char} (h : eat? [c] s = some r) :
    ∃ rest, s = c :: rest ∧ r = trimStart rest := by
  cases s with
  | nil => cases h
  | cons c' rest =>
    rw [eat?] at h
    split at h
    · rename_i heq
      cases h
      exact ⟨rest, by rw [heq], rfl⟩
    · cases h

theorem head?_of_eat? {c : Char} {s r : List Char} (h : eat? [c] s = some r) : s.head? = some c := by
  obtain ⟨rest, rfl, _⟩ := eat?_single h
  rfl

/-- What the keyword in front decides about a value. -/
theorem value_cases (s : List Char) :
    ((word s).1 = "LOOP" ∧ value s = loop (word s).2) ∨
      ((word s).1 = "SELECT" ∧ value s = select (word s).2) ∨
      ((word s).1 ≠ "LOOP" ∧ (word s).1 ≠ "SELECT" ∧
        value s = .formula (terms s).1 (leftover? (terms s).2)) := by
  by_cases hl : (word s).1 = "LOOP"
  · exact .inl ⟨hl, by simp only [value, hl, if_true]⟩
  · by_cases hs : (word s).1 = "SELECT"
    · exact .inr (.inl ⟨hs, by simp only [value, hs, String.reduceEq, if_true, if_false]⟩)
    · exact .inr (.inr ⟨hl, hs, by simp only [value, hl, hs, if_false]⟩)

theorem loop_ok {s : List Char} {count : Index} {source : Except Mismatch String}
    (h : loop s = .loop count source) : s.head? = some '(' := by
  unfold loop at h
  split at h
  · cases h
  · rename_i heat
    exact head?_of_eat? heat

theorem select_ok {s : List Char} {selector : Ref} {fault : Option Mismatch}
    (h : select s = .select selector fault) :
    s.head? = some '(' ∧ (fault = none → toEquals s = []) := by
  unfold select at h
  split at h
  · cases h
  · rename_i r heat
    refine ⟨head?_of_eat? heat, fun hf => ?_⟩
    split at h
    · cases h
    · rename_i name r' hname
      dsimp only at h
      have hfault := (Value.select.inj h).2
      rw [hf] at hfault
      split at hfault
      · cases hfault
      · rename_i r'' heat'
        rw [← toEquals_eat? heat (by decide), ← toEquals_name? hname, ← toEquals_span? r',
          ← toEquals_eat? heat' (by decide), leftover?_eq_none hfault]
        rfl

theorem select_ne_loop (s : List Char) (count : Index) (source : Except Mismatch String) :
    select s ≠ .loop count source := by
  unfold select
  split
  · nofun
  · split <;> nofun

theorem select_ne_formula (s : List Char) (ts : List Term) (fault : Option Mismatch) :
    select s ≠ .formula ts fault := by
  unfold select
  split
  · nofun
  · split <;> nofun

theorem loop_ne_select (s : List Char) (selector : Ref) (fault : Option Mismatch) :
    loop s ≠ .select selector fault := by
  unfold loop
  split <;> nofun

theorem loop_ne_formula (s : List Char) (ts : List Term) (fault : Option Mismatch) :
    loop s ≠ .formula ts fault := by
  unfold loop
  split <;> nofun

/-- A loop starts as one. -/
theorem value_loop {s : List Char} {count : Index} {source : Except Mismatch String}
    (h : value s = .loop count source) : (word s).1 = "LOOP" ∧ (word s).2.head? = some '(' := by
  rcases value_cases s with ⟨hw, hv⟩ | ⟨_, hv⟩ | ⟨_, _, hv⟩
  · rw [hv] at h
    exact ⟨hw, loop_ok h⟩
  · rw [hv] at h
    exact absurd h (select_ne_loop _ _ _)
  · rw [hv] at h
    cases h

/-- A selection starts as one, and if it is complete, it has no equals sign. -/
theorem value_select {s : List Char} {selector : Ref} {fault : Option Mismatch}
    (h : value s = .select selector fault) :
    (word s).1 = "SELECT" ∧ (word s).2.head? = some '(' ∧ (fault = none → toEquals s = []) := by
  rcases value_cases s with ⟨_, hv⟩ | ⟨hw, hv⟩ | ⟨_, _, hv⟩
  · rw [hv] at h
    exact absurd h (loop_ne_select _ _ _)
  · rw [hv] at h
    have hsel := select_ok h
    rw [toEquals_word] at hsel
    exact ⟨hw, hsel⟩
  · rw [hv] at h
    cases h

/-- A formula starts with neither keyword, and if it is complete, it has no equals sign. -/
theorem value_formula {s : List Char} {ts : List Term} {fault : Option Mismatch}
    (h : value s = .formula ts fault) :
    (word s).1 ≠ "LOOP" ∧ (word s).1 ≠ "SELECT" ∧ (terms s).1 = ts ∧
      (fault = none → (terms s).2 = [] ∧ toEquals s = []) := by
  rcases value_cases s with ⟨_, hv⟩ | ⟨_, hv⟩ | ⟨hl, hs, hv⟩
  · rw [hv] at h
    exact absurd h (loop_ne_formula _ _ _)
  · rw [hv] at h
    exact absurd h (select_ne_formula _ _ _)
  · rw [hv] at h
    obtain ⟨hts, hfault⟩ := Value.formula.inj h
    refine ⟨hl, hs, hts, fun hf => ?_⟩
    have hnil := leftover?_eq_none (hfault.trans hf)
    exact ⟨hnil, by rw [← toEquals_terms, hnil]; rfl⟩

/-! ### White space in front -/

theorem isBlank_of_isWordChar {c : Char} (h : isWordChar c = true) : isBlank c = false := by
  unfold isWordChar Char.isAlphanum Char.isAlpha Char.isUpper Char.isLower Char.isDigit at h
  simp only [Bool.or_eq_true, Bool.and_eq_true, decide_eq_true_eq, beq_iff_eq, ge_iff_le,
    UInt32.le_iff_toNat_le] at h
  have hn : c.toNat = c.val.toNat := rfl
  simp only [isBlank, Bool.or_eq_false_iff, Bool.and_eq_false_iff, decide_eq_false_iff_not, beq_eq_false_iff_ne]
  rcases h with ((h | h) | h) | h
  · simp at h; omega
  · simp at h; omega
  · simp at h; omega
  · subst h; decide

theorem trimStart_of_word {s : List Char} (h : (word s).1 ≠ "") : trimStart s = s := by
  cases s with
  | nil => rfl
  | cons c rest =>
    by_cases hc : isWordChar c = true
    · rw [trimStart, List.dropWhile_cons, isBlank_of_isWordChar hc, if_neg Bool.false_ne_true]
    · exact absurd (by simp [word, hc]) h

/-- A complete formula does not start with white space. -/
theorem trimStart_of_terms {s : List Char} (h : (terms s).2 = []) : trimStart s = s := by
  cases s with
  | nil => rfl
  | cons c rest =>
    by_cases hc : isBlank c = true
    · have hbracket : c ≠ '[' := fun heq => by
        rw [heq] at hc
        exact absurd hc (by decide)
      have hword : isWordChar c = false := by
        by_contra hne
        rw [isBlank_of_isWordChar (by simpa using hne)] at hc
        cases hc
      have hterm : term? (c :: rest) = none := by
        unfold term?
        split
        · rename_i heq
          exact absurd (List.cons.inj heq).1 hbracket
        · simp [name?, hword]
      rw [terms.eq_def] at h
      split at h
      · cases h
      · rename_i heq
        rw [hterm] at heq
        cases heq
    · rw [trimStart, List.dropWhile_cons, if_neg hc]

/-! ### Statements -/

theorem declared_cases (s : List Char) (st : Nat → Statement) :
    (∃ m, declared s st = .fault m) ∨ ∃ width, (number? s).2 = [] ∧ declared s st = st width := by
  unfold declared
  split
  · exact .inl ⟨_, rfl⟩
  · rename_i width r hnum
    split
    · exact .inl ⟨_, rfl⟩
    · rename_i hleft
      exact .inr ⟨width, by rw [hnum]; exact leftover?_eq_none hleft, rfl⟩

theorem name?_eq_word {s r : List Char} {name : String} (h : name? s = some (name, r)) :
    word s = (name, r) ∧ name ≠ "" := by
  unfold name? at h
  split at h
  · cases h
  · rename_i hne
    cases h
    exact ⟨rfl, fun hempty => hne (String.ofList_eq_empty_iff.mp hempty)⟩

theorem inputStatement_cases (s : List Char) :
    (∃ m, inputStatement s = .fault m) ∨
      toEquals s = [] ∧ ∃ name width, inputStatement s = .input name width := by
  unfold inputStatement
  split
  · exact .inl ⟨_, rfl⟩
  · rename_i name r hname
    split
    · rename_i r' heat
      rcases declared_cases r' (.input name) with hfault | ⟨width, hnil, hst⟩
      · exact .inl hfault
      · refine .inr ⟨?_, name, width, hst⟩
        rw [← toEquals_name? hname, ← toEquals_eat? heat (by decide), ← toEquals_number?, hnil]
        rfl
    · exact .inl ⟨_, rfl⟩

theorem outputStatement_cases (s : List Char) :
    (∃ m, outputStatement s = .fault m) ∨
      ∃ target r, toEquals r = toEquals s ∧ outputStatement s = .assign target (assigned r) := by
  unfold outputStatement
  split
  · exact .inl ⟨_, rfl⟩
  · rename_i name r hname
    split
    · rename_i r' _
      rcases declared_cases r' fun _ => .fault ⟨"`=`", "/"⟩ with hfault | ⟨_, _, hst⟩
      · exact .inl hfault
      · exact .inl ⟨_, hst⟩
    · exact .inr ⟨_, r, toEquals_name? hname, rfl⟩

theorem plain_cases (s : List Char) :
    (∃ m, plain s = .fault m) ∨
      ((word s).1 ≠ "" ∧ toEquals s = [] ∧ (word s).2.head? = some '/' ∧
        ∃ width, plain s = .declare (word s).1 width) ∨
      ∃ target r, toEquals r = toEquals s ∧ plain s = .assign target (assigned r) := by
  unfold plain
  split
  · exact .inl ⟨_, rfl⟩
  · rename_i name r hname
    obtain ⟨hw, hne⟩ := name?_eq_word hname
    split
    · rename_i r' heat
      rcases declared_cases r' (.declare name) with hfault | ⟨width, hnil, hst⟩
      · exact .inl hfault
      · rw [hw]
        refine .inr (.inl ⟨hne, ?_, head?_of_eat? heat, width, hst⟩)
        rw [← toEquals_name? hname, ← toEquals_eat? heat (by decide), ← toEquals_number?, hnil]
        rfl
    · split
      · exact .inr (.inr ⟨_, r, toEquals_name? hname, rfl⟩)
      · rename_i r' heat
        refine .inr (.inr ⟨_, (index r').2, ?_, rfl⟩)
        rw [toEquals_index, toEquals_eat? heat (by decide), toEquals_name? hname]

/-- What a line can say, and what that tells about its text. -/
theorem statement_cases (s : List Char) :
    (∃ m, statement s = .fault m) ∨
      ((word s).1 = "BLOCK" ∧ toEquals s = [] ∧ statement s = .block) ∨
      ((word s).1 ≠ "BLOCK" ∧ (word s).1 ≠ "" ∧ toEquals s = [] ∧ (word s).2.head? = some '/' ∧
        ∃ width, statement s = .declare (word s).1 width) ∨
      ((word s).1 = "IN" ∧ toEquals s = [] ∧ ∃ name width, statement s = .input name width) ∨
      ((word s).1 ≠ "BLOCK" ∧ ∃ target r, toEquals r = toEquals s ∧
        statement s = .assign target (assigned r)) := by
  have hword := toEquals_word s
  unfold statement
  dsimp only
  split
  · rename_i hblock
    split
    · exact .inl ⟨_, rfl⟩
    · rename_i hleft
      refine .inr (.inl ⟨hblock, ?_, rfl⟩)
      rw [← hword, ← toEquals_word, leftover?_eq_none hleft]
      rfl
  · rename_i hblock
    split
    · rename_i hin
      rcases inputStatement_cases (word s).2 with hfault | ⟨hnil, hst⟩
      · exact .inl hfault
      · exact .inr (.inr (.inr (.inl ⟨hin, hword.symm.trans hnil, hst⟩)))
    · split
      · rcases outputStatement_cases (word s).2 with hfault | ⟨target, r, hr, hst⟩
        · exact .inl hfault
        · exact .inr (.inr (.inr (.inr ⟨hblock, target, r, hr.trans hword, hst⟩)))
      · rcases plain_cases s with hfault | ⟨hne, hnil, hslash, hst⟩ | hassign
        · exact .inl hfault
        · exact .inr (.inr (.inl ⟨hblock, hne, hnil, hslash, hst⟩))
        · exact .inr (.inr (.inr (.inr ⟨hblock, hassign⟩)))

/-- A statement that assigns does not start with `BLOCK`, and assigns what its text after
the first equals sign is read as. -/
theorem statement_assign {s : List Char} {target : Target} {v : Value}
    (h : statement s = .assign target (.ok v)) :
    (word s).1 ≠ "BLOCK" ∧ v = value (trimStart (Line.afterEquals s)) := by
  rcases statement_cases s with ⟨_, hst⟩ | ⟨_, _, hst⟩ | ⟨_, _, _, _, _, hst⟩ | ⟨_, _, _, _, hst⟩ |
    ⟨hblock, target', r, hr, hst⟩
  all_goals rw [hst] at h
  case inr.inr.inr.inr =>
    have hv := (Statement.assign.inj h).2
    unfold assigned at hv
    split at hv
    · cases hv
    · rename_i r' heat
      obtain ⟨rest, rfl, rfl⟩ := eat?_single heat
      have hs : toEquals s = '=' :: rest := hr.symm.trans rfl
      rw [afterEquals_eq, hs]
      exact ⟨hblock, (Except.ok.inj hv).symm⟩
  all_goals cases h

/-- A word that is not empty is a name. -/
theorem name?_of_word {s r : List Char} {name : String} (h : word s = (name, r)) (hne : name ≠ "") :
    name? s = some (name, r) := by
  unfold name?
  split
  · rename_i hnil
    rw [word, hnil] at h
    exact absurd (Prod.mk.inj h).1.symm hne
  · rw [← h]
    rfl

/-- Behind a word, what is left starts with a character that is not blank. -/
theorem trimStart_word (s : List Char) : trimStart (word s).2 = (word s).2 :=
  List.dropWhile_idempotent ..

/-- Where nothing follows a word, no mark stands in front of it. -/
theorem eat?_of_word {m : Char} {s : List Char} (hm : isWordChar m = false) (htrim : trimStart s = s)
    (h : (word s).2 = []) : eat? [m] s = none := by
  cases s with
  | nil => rfl
  | cons c rest =>
    have hc : isWordChar c = true := by
      by_contra hne
      have hrest : (word (c :: rest)).2 = trimStart (c :: rest) := by
        rw [word, List.dropWhile_cons, if_neg hne]
      rw [hrest, htrim] at h
      cases h
    rw [eat?, if_neg]
    rintro rfl
    rw [hm] at hc
    cases hc

/-! ### Lines -/

theorem afterEquals_of_toEquals {s : List Char} (h : toEquals s = []) : Line.afterEquals s = s := by
  rw [afterEquals_eq, h]

theorem startsWith_false {keyword : String} {s : List Char} (h : (word (trimStart s)).1 ≠ keyword) :
    startsWith keyword s = false := by
  rw [startsWith, beq_false_of_ne h, Bool.false_and]

theorem startsWith_true {keyword : String} {s : List Char} (hw : (word (trimStart s)).1 = keyword)
    (hp : (word (trimStart s)).2.head? = some '(') : startsWith keyword s = true := by
  rw [startsWith, hw, hp, beq_self_eq_true, beq_self_eq_true, Bool.and_true]

namespace Line

variable {line : Line}

theorem startsBlock_eq_false (h : (word line.text).1 ≠ "BLOCK") : line.startsBlock = false :=
  beq_false_of_ne h

/-- Without an equals sign, the line itself is what may start a construct. -/
theorem starts_nothing (hnil : toEquals line.text = []) (hne : (word line.text).1 ≠ "")
    (h : ((word line.text).1 ≠ "LOOP" ∧ (word line.text).1 ≠ "SELECT") ∨ (word line.text).2.head? ≠ some '(') :
    line.loops = false ∧ line.selects = false := by
  rw [loops, selects, afterEquals_of_toEquals hnil, startsWith, startsWith, trimStart_of_word hne]
  rcases h with ⟨hl, hs⟩ | hp
  · rw [beq_false_of_ne hl, beq_false_of_ne hs, Bool.false_and]
    exact ⟨rfl, rfl⟩
  · rw [beq_false_of_ne hp, Bool.and_false, Bool.and_false]
    exact ⟨rfl, rfl⟩

theorem shape_of_block (h : statement line.text = .block) :
    line.startsBlock = true ∧ line.loops = false ∧ line.selects = false := by
  rcases statement_cases line.text with ⟨_, hst⟩ | ⟨hw, hnil, _⟩ | ⟨_, _, _, _, _, hst⟩ | ⟨_, _, _, _, hst⟩ |
    ⟨_, _, _, _, hst⟩
  case inr.inl =>
    refine ⟨by rw [startsBlock, hw]; rfl, starts_nothing hnil ?_ (.inl ?_)⟩
    · rw [hw]
      decide
    · rw [hw]
      decide
  all_goals
    rw [hst] at h
    cases h

theorem opens_of_declare {name : String} {width : Nat} (h : statement line.text = .declare name width) :
    line.opens = false := by
  rcases statement_cases line.text with ⟨_, hst⟩ | ⟨_, _, hst⟩ | ⟨hb, hne, hnil, hp, _⟩ | ⟨_, _, _, _, hst⟩ |
    ⟨_, _, _, _, hst⟩
  case inr.inr.inl =>
    obtain ⟨hl, hs⟩ := starts_nothing hnil hne (.inr (by rw [hp]; decide))
    rw [opens_eq, startsBlock_eq_false hb, hl, hs]
    rfl
  all_goals
    rw [hst] at h
    cases h

theorem opens_of_input {name : String} {width : Nat} (h : statement line.text = .input name width) :
    line.opens = false := by
  rcases statement_cases line.text with ⟨_, hst⟩ | ⟨_, _, hst⟩ | ⟨_, _, _, _, _, hst⟩ | ⟨hw, hnil, _⟩ |
    ⟨_, _, _, _, hst⟩
  case inr.inr.inr.inl =>
    obtain ⟨hl, hs⟩ := starts_nothing hnil (by rw [hw]; decide) (.inl (by rw [hw]; decide))
    rw [opens_eq, startsBlock_eq_false (by rw [hw]; decide), hl, hs]
    rfl
  all_goals
    rw [hst] at h
    cases h

section Assign
variable {target : Target}

theorem shape_of_loop {count : Index} {source : Except Mismatch String}
    (h : statement line.text = .assign target (.ok (.loop count source))) :
    line.startsBlock = false ∧ line.loops = true := by
  obtain ⟨hb, hv⟩ := statement_assign h
  obtain ⟨hw, hp⟩ := value_loop hv.symm
  exact ⟨startsBlock_eq_false hb, startsWith_true hw hp⟩

theorem shape_of_select {selector : Ref} {fault : Option Mismatch}
    (h : statement line.text = .assign target (.ok (.select selector fault))) :
    line.startsBlock = false ∧ line.loops = false ∧ line.selects = true := by
  obtain ⟨hb, hv⟩ := statement_assign h
  obtain ⟨hw, hp, _⟩ := value_select hv.symm
  exact ⟨startsBlock_eq_false hb, startsWith_false (by rw [hw]; decide), startsWith_true hw hp⟩

theorem opens_of_formula {ts : List Term} {fault : Option Mismatch}
    (h : statement line.text = .assign target (.ok (.formula ts fault))) : line.opens = false := by
  obtain ⟨hb, hv⟩ := statement_assign h
  obtain ⟨hl, hs, _⟩ := value_formula hv.symm
  rw [opens_eq, startsBlock_eq_false hb, loops, selects, startsWith_false hl, startsWith_false hs]
  rfl

end Assign

/-- A complete formula as a branch starts neither a loop nor a selection. -/
theorem shape_of_branch {ts : List Term} (h : value line.text = .formula ts none) :
    line.loops = false ∧ line.selects = false := by
  obtain ⟨hl, hs, _, hnil⟩ := value_formula h
  obtain ⟨hterms, heq⟩ := hnil rfl
  rw [loops, selects, afterEquals_of_toEquals heq]
  rw [← trimStart_of_terms hterms] at hl hs
  exact ⟨startsWith_false hl, startsWith_false hs⟩

/-- So does a complete selection. -/
theorem shape_of_selectBranch {selector : Ref} (h : value line.text = .select selector none) :
    line.startsBlock = false ∧ line.loops = false ∧ line.selects = true := by
  obtain ⟨hw, hp, hnil⟩ := value_select h
  have htrim : trimStart line.text = line.text := trimStart_of_word (by rw [hw]; decide)
  rw [loops, selects, afterEquals_of_toEquals (hnil rfl)]
  refine ⟨startsBlock_eq_false (by rw [hw]; decide), startsWith_false ?_, startsWith_true ?_ ?_⟩
  all_goals rw [htrim]
  · rw [hw]
    decide
  · exact hw
  · exact hp

/-- `END` opens nothing, and is no statement. -/
theorem shape_of_end (h : line.isEnd = true) :
    line.opens = false ∧ ∃ m, statement line.text = .assign (.bus "END") (.error m) := by
  simp only [isEnd, Bool.and_eq_true, beq_iff_eq, List.isEmpty_iff] at h
  obtain ⟨hw, hnil⟩ := h
  constructor
  · have heq : toEquals line.text = [] := by
      rw [← toEquals_word, ← toEquals_word, hnil]
      rfl
    obtain ⟨hl, hs⟩ := starts_nothing heq (by rw [hw]; decide) (.inl (by rw [hw]; decide))
    rw [opens_eq, startsBlock_eq_false (by rw [hw]; decide), hl, hs]
    rfl
  · have hmark {m : Char} (hm : isWordChar m = false) : eat? [m] (word line.text).2 = none :=
      eat?_of_word hm (trimStart_word _) hnil
    have hname : name? line.text = some ("END", (word line.text).2) :=
      name?_of_word (by rw [← hw]) (by decide)
    simp only [statement, hw, String.reduceEq, if_false, plain, hname, hmark (m := '/') (by decide),
      hmark (m := '.') (by decide), assigned, hmark (m := '=') (by decide)]
    exact ⟨_, rfl⟩

/-- A line that says anything else is no `END`. -/
theorem isEnd_of_statement (h : ∀ m, statement line.text ≠ .assign (.bus "END") (.error m)) : line.isEnd = false := by
  by_contra hne
  obtain ⟨_, m, hst⟩ := shape_of_end (by simpa using hne)
  exact h m hst

theorem loops_of_opens (h : line.opens = false) : line.loops = false := by
  simp only [opens_eq, Bool.or_eq_false_iff] at h
  exact h.1.2

theorem loops_of_end (h : line.isEnd = true) : line.loops = false := loops_of_opens (shape_of_end h).1

end Line

end BusLogic.Script
