import BusLogic.Proofs.Script.Flow
import BusLogic.Proofs.Script.Soundness
import BusLogic.Proofs.Script.Substitution

/-! A loop and its passes written out.

A loop `t = LOOP(n) s` carries out its body `n` times. The same can be said without a
loop: the source is kept under a name of its own, each pass is the target declared anew,
the body with the number of the pass for the constant `i`, and the target assigned to the
source, and in the end the source is what it was (`LoopSite.unrolled`). The two scripts do
the same (`unrolled_builds`): if one can be built, so can the other, and both end with the
same netlist and, except for the name that keeps the source, with the same buses. -/
namespace BusLogic.Script
open Attempt Run Text
open Session (Takes Beside)

/-! ### Names, and lines that copy and declare a bus -/

/-- Words that stand for something else than a bus of that name. -/
def reserved (name : String) : Bool :=
  ["BLOCK", "END", "IN", "OUT", "LOOP", "SELECT"].contains name ||
    (Opcode.ofKeyword? name).isSome || (Opcode.ofSourceWord? name).isSome

/-- Whether a bus can be called so. -/
def isName (name : String) : Bool :=
  name != "" && name.toList.all isWordChar && !reserved name

/-- The text of `name = other`. -/
def copyText (name other : String) : List Char := name.toList ++ ' ' :: '=' :: ' ' :: other.toList

/-- The text of `name /width`. -/
def declareText (name : String) (width : Nat) : List Char := name.toList ++ ' ' :: '/' :: decimal width

section Texts
variable {name other : String}

theorem isName_ne (h : isName name = true) : name ≠ "" := by
  simp only [isName, Bool.and_eq_true, bne_iff_ne] at h
  exact h.1.1

theorem isName_chars (h : isName name = true) : ∀ c ∈ name.toList, isWordChar c = true := by
  simp only [isName, Bool.and_eq_true, List.all_eq_true] at h
  exact h.1.2

theorem isName_plain (h : isName name = true) :
    (name ≠ "BLOCK" ∧ name ≠ "IN" ∧ name ≠ "OUT") ∧ (name ≠ "LOOP" ∧ name ≠ "SELECT") ∧
      Opcode.ofKeyword? name = none ∧ Opcode.ofSourceWord? name = none := by
  simp [isName, reserved] at h
  tauto

theorem word_name (h : isName name = true) {X : List Char} (hX : ∀ c, X.head? = some c → isWordChar c = false) :
    word (name.toList ++ X) = (name, trimStart X) := by
  obtain ⟨htake, hdrop⟩ := run_append (isName_chars h) hX
  rw [word, htake, hdrop, String.ofList_toList]

/-- A line that starts with a name is an assignment or a declaration. -/
theorem statement_name (h : isName name = true) {X : List Char} (hX : ∀ c, X.head? = some c → isWordChar c = false) :
    statement (name.toList ++ X) = plain (name.toList ++ X) ∧
      name? (name.toList ++ X) = some (name, trimStart X) := by
  obtain ⟨⟨hblock, hin, hout⟩, _⟩ := isName_plain h
  have hword := word_name h hX
  exact ⟨by simp only [statement, hword, hblock, hin, hout, if_false], name?_of_word hword (isName_ne h)⟩

theorem value_name (h : isName name = true) :
    value name.toList = .formula [.operand (.ref ⟨name, none⟩)] none := by
  obtain ⟨_, ⟨hloop, hselect⟩, hkeyword, hsource⟩ := isName_plain h
  have hword : word name.toList = (name, []) := by
    have hw := word_name h (X := []) nofun
    rwa [List.append_nil] at hw
  have hname := name?_of_word hword (isName_ne h)
  have hterm : term? name.toList = some (.operand (.ref ⟨name, none⟩), []) := by
    unfold term?
    split
    · rename_i r heq
      have hc := isName_chars h '[' (by rw [heq]; exact List.mem_cons_self ..)
      cases hc
    · rw [hname]
      simp [named, hsource, hkeyword, span?, eat?]
  have hnil : terms [] = ([], []) := by
    rw [terms_eq]
    rfl
  simp only [value, hword, hloop, hselect, if_false]
  rw [terms_eq, hterm]
  simp only [hnil]
  rfl

theorem statement_copyText (hname : isName name = true) (hother : isName other = true) :
    statement (copyText name other) =
      .assign (.bus name) (.ok (.formula [.operand (.ref ⟨other, none⟩)] none)) := by
  have htrim : trimStart (' ' :: other.toList) = other.toList := by
    have hw : trimStart other.toList = other.toList :=
      trimStart_of_word (by
        have hword := word_name hother (X := []) nofun
        rw [List.append_nil] at hword
        rw [hword]
        exact isName_ne hother)
    show trimStart other.toList = _
    exact hw
  obtain ⟨hst, hplain⟩ := statement_name hname (X := ' ' :: '=' :: ' ' :: other.toList) (by simp; decide)
  rw [copyText, hst, plain, hplain]
  show Statement.assign (.bus name) (.ok (value (trimStart (' ' :: other.toList)))) = _
  rw [htrim, value_name hother]

theorem statement_declareText (hname : isName name = true) {width : Nat} (hw : width < 2 ^ 64) :
    statement (declareText name width) = .declare name width := by
  obtain ⟨hst, hplain⟩ := statement_name hname (X := ' ' :: '/' :: decimal width) (by simp; decide)
  rw [declareText, hst, plain, hplain]
  exact declared_decimal hw (.declare name)

/-- A bus by itself is a formula. -/
theorem formula_ref {s : Session} {b : Bus} (h : s.bus? name = some b) :
    outcome (formula [.operand (.ref ⟨name, none⟩)] none) s = (.ok b, s) := by
  have href : s.ref ⟨name, none⟩ = .ok b := by
    rw [Session.ref_eq_ok]
    exact ⟨b, by rw [Session.lookup, h], .inl ⟨rfl, rfl⟩⟩
  have hfeed : outcome (List.foldlM Term.feed .empty [.operand (.ref ⟨name, none⟩)]) s =
      (.ok ⟨[.bus b], [], .operand⟩, s) :=
    bind_eq_ok.mpr ⟨_, s, bind_eq_ok.mpr ⟨b, s, ask_eq_ok.mpr ⟨href, rfl⟩, rfl⟩, rfl⟩
  exact bind_eq_ok.mpr ⟨_, s, hfeed, bind_eq_ok.mpr ⟨(.bus b, ⟨[.bus b], [], .finish⟩), s, rfl, rfl⟩⟩

theorem formula_ref_eq_ok {s t : Session} {b : Bus} :
    outcome (formula [.operand (.ref ⟨name, none⟩)] none) s = (.ok b, t) ↔ s.bus? name = some b ∧ s = t := by
  constructor
  · intro h
    obtain ⟨_, _, hfeed, _⟩ := bind_eq_ok.mp h
    obtain ⟨_, _, hterm, _⟩ := bind_eq_ok.mp hfeed
    obtain ⟨bus, _, hbus, _⟩ := bind_eq_ok.mp hterm
    obtain ⟨whole, hwhole, _⟩ := Session.ref_ok (ask_eq_ok.mp hbus).1
    have hb := Session.lookup_ok hwhole
    rw [formula_ref hb] at h
    cases h
    exact ⟨hb, rfl⟩
  · rintro ⟨hb, rfl⟩
    exact formula_ref hb

/-- What a line `name = other` does. -/
theorem copy_eq_ok (hname : isName name = true) (hother : isName other = true) {l : Line}
    (hl : l.text = copyText name other) {s t : Session} {r : Unit} :
    outcome (ample.statement l) s = (.ok r, t) ↔ ∃ b, s.bus? other = some b ∧ b.isEmpty = false ∧
      t = { s with buses := s.buses.insert name b } := by
  rw [ample_statement, on_eq_ok, hl, statement_copyText hname hother]
  show outcome (ample.assign _ _) s = _ ↔ _
  rw [Nested.assign_eq_ok]
  constructor
  · rintro ⟨slot, v, b, u, hslot, hv, hb, hne, hgive⟩
    cases hv
    obtain ⟨hbus, rfl⟩ := formula_ref_eq_ok.mp hb
    rcases hgive with ⟨i, rfl, _⟩ | ⟨_, rfl⟩
    · cases hslot
    · exact ⟨b, hbus, hne, rfl⟩
  · rintro ⟨b, hbus, hne, rfl⟩
    exact ⟨none, _, b, s, rfl, rfl, formula_ref_eq_ok.mpr ⟨hbus, rfl⟩, hne, .inr ⟨rfl, rfl⟩⟩

/-- What a line `name /width` does. -/
theorem declare_line_eq_ok (hname : isName name = true) {width : Nat} (hw : width < 2 ^ 64) {l : Line}
    (hl : l.text = declareText name width) {s t : Session} {r : Unit} :
    outcome (ample.statement l) s = (.ok r, t) ↔
      s.checkWidth width = .ok () ∧ t = { s with buses := s.buses.insert name (.unbound width) } := by
  rw [ample_statement, on_eq_ok, hl, statement_declareText hname hw, Nested.declare_eq_ok]

theorem isEnd_of_copyText (hname : isName name = true) (hother : isName other = true) {l : Line}
    (hl : l.text = copyText name other) : l.isEnd = false := by
  apply Line.isEnd_of_statement
  intro m hst
  rw [hl, statement_copyText hname hother] at hst
  cases (Statement.assign.inj hst).2

end Texts

/-! ### Loops in a script -/

/-- A loop in a script: the lines around it, its own lines, and what its first line says. -/
structure LoopSite where
  before : List Line
  header : Line
  body : List Line
  close : Line
  after : List Line
  target : String
  source : String
  count : Nat
  reads : statement header.text = .assign (.bus target) (.ok (.loop (.literal count) (.ok source)))
  closed : bodyLength? 0 (body ++ close :: after) = some body.length
  target_name : isName target = true
  source_name : isName source = true
  distinct : target ≠ source
  /-- No branch of a selection in the body starts with the word `BLOCK`. -/
  tidy : ∀ line ∈ branchLines 0 [] body, line.startsBlock = false

namespace LoopSite

/-- All the lines of the script. -/
def lines (L : LoopSite) : List Line := L.before ++ L.header :: (L.body ++ L.close :: L.after)

/-- The first line of the body. -/
def start (L : LoopSite) : Nat := L.before.length + 1

/-- The line that closes the loop. -/
def stop (L : LoopSite) : Nat := L.start + L.body.length

/-- Pass `k` written out, for a source of this width. -/
def passText (L : LoopSite) (width k : Nat) : List (List Char) :=
  declareText L.target width :: (writePass k 0 L.body ++ [copyText L.source L.target])

/-- The lines of the script without the loop, for a source of this width that is kept
under the name `keep`. -/
def unrolled (L : LoopSite) (keep : String) (width : Nat) : List (List Char) :=
  L.before.map Line.text ++ copyText keep L.source ::
    ((List.range' 0 L.count).flatMap (L.passText width) ++ copyText L.source keep :: L.after.map Line.text)

/-- The passes of the loop, in a session that has come to it. -/
def carriesOut (L : LoopSite) (width passes : Nat) (s : Session) : Except Failure Unit × Session :=
  outcome (Run.passes (ample.pass L.target L.source width L.start L.stop) passes 0) { s with cursor := L.stop + 1 }

/-- A session that has come to the loop: the source stands for a bus `initial` with a
width, and the target has a width after every pass that is completed, and to begin with if
there is none. -/
structure Ready (L : LoopSite) (s : Session) (initial : Bus) : Prop where
  cursor : s.cursor = L.before.length
  source : s.bus? L.source = some initial
  wide : 1 ≤ initial.width
  untouched : L.count = 0 → ∃ b, s.bus? L.target = some b ∧ b.isEmpty = false
  passed : ∀ j t, 1 ≤ j → j ≤ L.count → L.carriesOut initial.width j s = (.ok (), t) →
    ∃ b, t.bus? L.target = some b ∧ b.isEmpty = false

theorem close_isEnd (L : LoopSite) : L.close.isEnd = true ∧ depthAfter 0 L.body = some 0 := by
  obtain ⟨V, e, rest, hV, hlen, he, hdepth⟩ := bodyLength?_eq_some_iff.mp L.closed
  obtain ⟨hbody, hcons⟩ := List.append_inj hV hlen.symm
  rw [hbody, (List.cons.inj hcons).1]
  exact ⟨he, hdepth⟩

variable {L : LoopSite} {keep : String}

/-- A name that the header does not mention is neither its target nor its source. -/
theorem ne_of_fresh (hfresh : ∀ line ∈ L.lines, keep ∉ line.names) : L.target ≠ keep ∧ L.source ≠ keep := by
  have hheader := hfresh L.header (List.mem_append_right _ (List.mem_cons_self ..))
  rw [Line.names, L.reads] at hheader
  constructor
  · rintro rfl
    exact hheader (by simp [Statement.names, Target.name])
  · rintro rfl
    exact hheader (by simp [Statement.names, Value.names, Except.toOption])

end LoopSite

/-! ### Numbers in the text fit 64 bits -/

theorem readDigits_lt {base acc n : Nat} {ds : List Char} (hacc : acc < 2 ^ 64)
    (h : readDigits base acc ds = .ok n) : n < 2 ^ 64 := by
  induction ds generalizing acc with
  | nil =>
    cases h
    exact hacc
  | cons c ds ih =>
    rw [readDigits] at h
    split at h
    · cases h
    · split at h
      · rename_i hlt
        exact ih hlt h
      · cases h

theorem index_literal_lt {s r : List Char} {n : Nat} (h : index s = (.literal n, r)) : n < 2 ^ 64 := by
  have hread {ds : List Char} (hds : readNumeral 10 ds = .ok n) : n < 2 ^ 64 := by
    unfold readNumeral at hds
    split at hds
    · cases hds
    · cases hds
    · exact readDigits_lt (by decide) hds
    · exact readDigits_lt (by decide) hds
  unfold index at h
  split at h
  · split at h
    · rename_i m r' hnum
      cases h
      have hfst : (readNumeral 10 (s.takeWhile isDigit)).toOption = some n := congrArg Prod.fst hnum
      cases hds : readNumeral 10 (s.takeWhile isDigit) with
      | error e =>
        rw [hds] at hfst
        cases hfst
      | ok m =>
        rw [hds] at hfst
        cases hfst
        exact hread hds
    · cases h
  · split at h <;> cases h

theorem LoopSite.count_lt (L : LoopSite) : L.count < 2 ^ 64 := by
  obtain ⟨_, hv⟩ := statement_assign L.reads
  rcases value_cases (trimStart (Line.afterEquals L.header.text)) with ⟨_, hloop⟩ | ⟨_, hselect⟩ | ⟨_, _, hformula⟩
  · rw [hloop] at hv
    unfold loop at hv
    split at hv
    · cases hv
    · rename_i r _
      exact index_literal_lt (r := (index r).2) (Prod.ext (Value.loop.inj hv).1.symm rfl)
  · rw [hselect] at hv
    exact absurd hv.symm (select_ne_loop _ _ _)
  · rw [hformula] at hv
    cases hv

/-! ### Passes -/

namespace LoopSite

/-- The loop between two passes, and the script without it in front of the lines `R`. -/
structure Abreast (L : LoopSite) (keep : String) (initial : Bus) (R : List Line) (p p' : Session) : Prop where
  beside : p.Beside keep none (some initial) p'
  counter : p'.counter = none
  rest : p'.rest = R
  body : p.lines.toList.drop L.start = L.body ++ L.close :: L.after
  sound : p.Sound
  room : initial.width ≤ p.netlist.capacity

variable {L : LoopSite} {keep : String} {initial : Bus} {R : List Line} {p p' q : Session} {k : Nat}

/-- A pass in its two forms: the lines that are written out, and the session once the
target is declared. -/
structure Abreast.Opened (L : LoopSite) (keep : String) (initial : Bus) (k : Nat) (R : List Line) (p p' : Session)
    (U : List Line) (last : Line) (p₁ : Session) : Prop where
  copied : Copied keep (some k) none 0 L.body U
  text : last.text = copyText L.source L.target
  follows : Follows keep none (some initial) (some k) none 0 (L.close :: L.after) (last :: R) L.body U
    { p with cursor := L.start, buses := p.buses.insert L.target (.unbound initial.width), counter := some k } p₁
  finishes_iff : ∀ b f, Finishes b p' f ↔ Finishes b p₁ f

section Pass
variable (hkeep : isName keep = true) (hfresh : ∀ line ∈ L.lines, keep ∉ line.names) (hk : k < 2 ^ 64)
  (hwidth : initial.width < 2 ^ 64) {S : List Line} (hS : S.map Line.text = L.passText initial.width k)
  (h : L.Abreast keep initial (S ++ R) p p')
include hfresh hk hwidth hS h

/-- The declaration in front of a pass that is written out. -/
theorem Abreast.opened : ∃ U last p₁, Abreast.Opened L keep initial k R p p' U last p₁ := by
  obtain ⟨htarget, _⟩ := ne_of_fresh hfresh
  obtain ⟨first, _, rfl, hfirst, hX⟩ := List.map_eq_cons_iff.mp hS
  obtain ⟨U, _, rfl, hU, hY⟩ := List.map_eq_append_iff.mp hX
  obtain ⟨last, _, rfl, hlast, hZ⟩ := List.map_eq_cons_iff.mp hY
  cases List.map_eq_nil_iff.mp hZ
  have hcopied : Copied keep (some k) none 0 L.body U := by
    refine copied_writePass hk hU fun l hl => hfresh l ?_
    simp only [lines, List.mem_append, List.mem_cons]
    exact .inr (.inr (.inl hl))
  have hrest := h.rest
  rw [List.cons_append] at hrest
  obtain ⟨hl, hrest₁⟩ := Session.rest_eq_cons_iff.mp hrest
  rw [List.append_assoc, List.singleton_append] at hrest₁
  have hcheck : p'.checkWidth initial.width = .ok () := by
    rw [h.beside.checkWidth, Session.checkWidth, if_neg (Nat.not_lt.mpr h.room)]
  have hdeclare := (declare_line_eq_ok L.target_name hwidth hfirst (r := ())
    (s := { p' with cursor := p'.cursor + 1 })).mpr ⟨hcheck, rfl⟩
  have hbus := h.beside.setBus htarget (.unbound initial.width)
  refine ⟨U, last, _, hcopied, hlast, ?_, fun b f => (Moves.line hl hdeclare).finishes_iff⟩
  exact ⟨⟨hbus.netlist, hbus.buses, hbus.spare, hbus.spare'⟩, rfl, h.counter, h.body, hrest₁, hcopied⟩

include hkeep

/-- A pass of the loop is carried out by the lines that write it out. -/
theorem Abreast.pass (hq : outcome (ample.pass L.target L.source initial.width L.start L.stop k) p = (.ok (), q))
    (hne : ∃ b, q.bus? L.target = some b ∧ b.isEmpty = false) :
    ∃ q', L.Abreast keep initial R q q' ∧ ∀ b f, Finishes b p' f ↔ Finishes b q' f := by
  obtain ⟨_, hsource⟩ := ne_of_fresh hfresh
  obtain ⟨U, last, p₁, hcopied, htext, hf, hiff⟩ := h.opened hfresh hk hwidth hS
  have hstill := spans_ample.pass hq
  have hsafe := safe_ample.pass h.sound L.target L.source h.room L.start L.stop k
  obtain ⟨u, next, hup, hnext, rfl⟩ := Nested.pass_eq_ok.mp hq
  have hlen : L.stop - L.start = L.body.length := Nat.add_sub_cancel_left ..
  rw [hlen] at hup
  obtain ⟨u', hup', hf'⟩ := (leads_ample (isName_ne hkeep) L.body.length).1.upTo (Nat.le_refl _)
    ⟨0, L.close_isEnd.2⟩ hf (Nat.le_refl _) (Nat.le_refl _) hup
  -- the target is what the pass has made of it
  have hbus := Session.lookup_ok hnext
  obtain ⟨b, hb, hempty⟩ := hne
  have hsame : b = next := by
    have hins : ({ u with cursor := p.cursor, buses := u.buses.insert L.source next } : Session).bus? L.target =
        u.bus? L.target := by
      simp only [Session.bus?, buses_insert, L.distinct.symm, if_false]
    rw [hins, hbus] at hb
    exact (Option.some.inj hb).symm
  rw [hsame] at hempty
  obtain ⟨hl, hrest⟩ := Session.rest_eq_cons_iff.mp hf'.rest'
  have hcopy := (copy_eq_ok L.source_name L.target_name htext (r := ())
    (s := { u' with cursor := u'.cursor + 1 })).mpr
      ⟨next, (hf'.buses _ (ne_of_fresh hfresh).1).trans hbus, hempty, rfl⟩
  have hbeside := hf'.toBeside.setBus hsource next
  refine ⟨{ u' with cursor := u'.cursor + 1, buses := u'.buses.insert L.source next },
    ⟨⟨hbeside.netlist, hbeside.buses, hbeside.spare, hbeside.spare'⟩, hf'.right, hrest, ?_, ?_, ?_⟩,
    fun b f => (hiff b f).trans ((finishes_iff_of_upTo hup').trans (Moves.line hl hcopy).finishes_iff)⟩
  · rw [hstill.lines]
    exact h.body
  · have hsound := hsafe.sound
    rw [hq] at hsound
    exact hsound
  · have hadvances := hsafe.advances
    rw [hq] at hadvances
    rw [hadvances.grows.retains.capacity]
    exact h.room

/-- If the script without the loop goes on to its end, the pass can be carried out. -/
theorem Abreast.pass_of_finishes {b : Nat} {f : Session} (hfin : Finishes b p' f) :
    ∃ q, outcome (ample.pass L.target L.source initial.width L.start L.stop k) p = (.ok (), q) := by
  obtain ⟨U, last, p₁, hcopied, htext, hf, hiff⟩ := h.opened hfresh hk hwidth hS
  have hfin₁ := (hiff b f).mp hfin
  have hdepth : depthAfter 0 U = some 0 := by
    rw [hcopied.depthAfter_eq]
    exact L.close_isEnd.2
  have htidy : ∀ line ∈ branchLines 0 [] U, line.startsBlock = false := by
    intro line hline
    have hmem := List.mem_map_of_mem (f := Line.startsBlock) hline
    rw [hcopied.map_startsBlock] at hmem
    obtain ⟨line', hline', heq⟩ := List.mem_map.mp hmem
    rw [← heq]
    exact L.tidy line' hline'
  obtain ⟨u', hup'⟩ := hfin₁.upTo hf.rest' hdepth htidy (Nat.le_refl _)
  obtain ⟨u, hup, hf'⟩ := (leads_ample (isName_ne hkeep) U.length).1.upTo (Nat.le_refl _) ⟨0, hdepth⟩ hf.symm
    (Nat.le_refl _) (Nat.le_refl _) hup'
  -- the last line assigns the target, which is there
  have hfin₂ := (finishes_iff_of_upTo hup').mp hfin₁
  obtain ⟨hl, _⟩ := Session.rest_eq_cons_iff.mp hf'.rest
  obtain ⟨v, hv, _⟩ := hfin₂.line_of_rest hl (isEnd_of_copyText L.source_name L.target_name htext)
  obtain ⟨next, hnext, _⟩ := (copy_eq_ok L.source_name L.target_name htext).mp hv
  have hlookup : u.lookup L.target = .ok next := by
    rw [Session.lookup, hf'.buses _ (ne_of_fresh hfresh).1]
    simp only [Session.bus?] at hnext ⊢
    rw [hnext]
  have hlen : L.stop - L.start = L.body.length := Nat.add_sub_cancel_left ..
  refine ⟨_, Nested.pass_eq_ok.mpr ⟨u, next, ?_, hlookup, rfl⟩⟩
  rw [hlen]
  exact hup

end Pass

section Passes
variable (hkeep : isName keep = true) (hfresh : ∀ line ∈ L.lines, keep ∉ line.names)
  (hwidth : initial.width < 2 ^ 64)
include hkeep hfresh hwidth

/-- All passes, in their two forms. -/
theorem Abreast.passes {n : Nat} (hn : k + n ≤ L.count) {S : List Line}
    (hS : S.map Line.text = (List.range' k n).flatMap (L.passText initial.width))
    (h : L.Abreast keep initial (S ++ R) p p')
    (hne : ∀ j t, 1 ≤ j → j ≤ n →
      outcome (Run.passes (ample.pass L.target L.source initial.width L.start L.stop) j k) p = (.ok (), t) →
        ∃ b, t.bus? L.target = some b ∧ b.isEmpty = false)
    (hq : outcome (Run.passes (ample.pass L.target L.source initial.width L.start L.stop) n k) p = (.ok (), q)) :
    ∃ q', L.Abreast keep initial R q q' ∧ ∀ b f, Finishes b p' f ↔ Finishes b q' f := by
  induction n generalizing k S p p' with
  | zero =>
    cases List.map_eq_nil_iff.mp hS
    obtain ⟨_, rfl⟩ := pure_eq_ok.mp hq
    exact ⟨p', h, fun b f => Iff.rfl⟩
  | succ n ih =>
    rw [List.range'_succ, List.flatMap_cons] at hS
    obtain ⟨S₁, S₂, rfl, hS₁, hS₂⟩ := List.map_eq_append_iff.mp hS
    rw [List.append_assoc] at h
    obtain ⟨u, hu, hq⟩ := passes_succ_eq_ok.mp hq
    have hk : k < 2 ^ 64 := by
      have := L.count_lt
      omega
    have hfirst : ∃ b, u.bus? L.target = some b ∧ b.isEmpty = false :=
      hne 1 u (Nat.le_refl _) (by omega) (passes_succ_eq_ok.mpr ⟨u, hu, rfl⟩)
    obtain ⟨u', hu', hiff⟩ := h.pass hkeep hfresh hk hwidth hS₁ hu hfirst
    obtain ⟨q', hq', hiff'⟩ := ih (by omega) hS₂ hu' (fun j t _ hj ht =>
      hne (j + 1) t (by omega) (by omega) (passes_succ_eq_ok.mpr ⟨u, hu, ht⟩)) hq
    exact ⟨q', hq', fun b f => (hiff b f).trans (hiff' b f)⟩

/-- If the script without the loop goes on to its end, the passes can be carried out. -/
theorem Abreast.passes_of_finishes {n : Nat} (hn : k + n ≤ L.count) {S : List Line}
    (hS : S.map Line.text = (List.range' k n).flatMap (L.passText initial.width))
    (h : L.Abreast keep initial (S ++ R) p p')
    (hne : ∀ j t, 1 ≤ j → j ≤ n →
      outcome (Run.passes (ample.pass L.target L.source initial.width L.start L.stop) j k) p = (.ok (), t) →
        ∃ b, t.bus? L.target = some b ∧ b.isEmpty = false)
    {b : Nat} {f : Session} (hfin : Finishes b p' f) :
    ∃ q, outcome (Run.passes (ample.pass L.target L.source initial.width L.start L.stop) n k) p = (.ok (), q) := by
  induction n generalizing k S p p' with
  | zero => exact ⟨p, rfl⟩
  | succ n ih =>
    rw [List.range'_succ, List.flatMap_cons] at hS
    obtain ⟨S₁, S₂, rfl, hS₁, hS₂⟩ := List.map_eq_append_iff.mp hS
    rw [List.append_assoc] at h
    have hk : k < 2 ^ 64 := by
      have := L.count_lt
      omega
    obtain ⟨u, hu⟩ := h.pass_of_finishes hkeep hfresh hk hwidth hS₁ hfin
    have hfirst : ∃ b, u.bus? L.target = some b ∧ b.isEmpty = false :=
      hne 1 u (Nat.le_refl _) (by omega) (passes_succ_eq_ok.mpr ⟨u, hu, rfl⟩)
    obtain ⟨u', hu', hiff⟩ := h.pass hkeep hfresh hk hwidth hS₁ hu hfirst
    obtain ⟨q, hq⟩ := ih (by omega) hS₂ hu' (fun j t _ hj ht =>
      hne (j + 1) t (by omega) (by omega) (passes_succ_eq_ok.mpr ⟨u, hu, ht⟩)) ((hiff b f).mp hfin)
    exact ⟨q, passes_succ_eq_ok.mpr ⟨u, hu, hq⟩⟩

end Passes

/-! ### The whole loop -/

theorem isEnd_header (L : LoopSite) : L.header.isEnd = false := by
  apply Line.isEnd_of_statement
  intro m hst
  rw [L.reads] at hst
  cases (Statement.assign.inj hst).2

/-- What the line that opens the loop does. -/
theorem header_eq_ok {s t : Session} (hrest : s.rest = L.body ++ L.close :: L.after)
    (hcursor : s.cursor = L.start) (hinitial : s.bus? L.source = some initial) :
    outcome (ample.statement L.header) s = (.ok (), t) ↔
      ∃ q b, L.carriesOut initial.width L.count s = (.ok (), q) ∧ q.bus? L.target = some b ∧ b.isEmpty = false ∧
        t = { q with buses := (q.buses.insert L.source initial).insert L.target b, counter := s.counter } := by
  have hlookup : s.lookup L.source = .ok initial := by rw [Session.lookup, hinitial]
  rw [ample_statement, on_eq_ok, L.reads]
  show outcome (ample.assign _ _) s = _ ↔ _
  rw [Nested.assign_eq_ok]
  constructor
  · rintro ⟨slot, v, b, u, hslot, hv, hb, hne, hgive⟩
    cases hv
    cases hslot
    obtain ⟨times, name, length, bus, q, htimes, hname, _, hlength, hbus, hpasses, hresult, rfl⟩ :=
      Nested.loop_eq_ok.mp hb
    cases htimes
    cases hname
    rw [hlookup] at hbus
    cases hbus
    rw [hrest, L.closed] at hlength
    cases hlength
    rw [hcursor] at hpasses
    rcases hgive with ⟨i, hi, _⟩ | ⟨_, rfl⟩
    · cases hi
    · exact ⟨q, b, hpasses, Session.lookup_ok hresult, hne, rfl⟩
  · rintro ⟨q, b, hq, hb, hne, rfl⟩
    refine ⟨none, _, b, _, rfl, rfl, Nested.loop_eq_ok.mpr ⟨L.count, L.source, L.body.length, initial, q, rfl, rfl,
      isName_ne L.target_name, by rw [hrest]; exact L.closed, hlookup, ?_, ?_, rfl⟩, hne, .inr ⟨rfl, rfl⟩⟩
    · rw [hcursor]
      exact hq
    · show q.lookup L.target = _
      rw [Session.lookup, hb]

/-- Behind the loop, the script without it stands where the source is put back. -/
theorem Abreast.follows (hkeep : isName keep = true) (hfresh : ∀ line ∈ L.lines, keep ∉ line.names)
    (hwide : 1 ≤ initial.width) {last : Line} (hlast : last.text = copyText L.source keep)
    {A : List Line} (hA : A.map Line.text = L.after.map Line.text) (h : L.Abreast keep initial (last :: A) q p')
    (hq : q.rest = L.after) {b : Bus} (hb : q.bus? L.target = some b) :
    ∃ t', (∀ b f, Finishes b p' f ↔ Finishes b t' f) ∧
      Follows keep none (some initial) none none 0 [] [] L.after A
        { q with buses := (q.buses.insert L.source initial).insert L.target b, counter := none } t' := by
  obtain ⟨htarget, hsource⟩ := ne_of_fresh hfresh
  obtain ⟨hl, hrest⟩ := Session.rest_eq_cons_iff.mp h.rest
  have hne : initial.isEmpty = false := beq_false_of_ne (by omega)
  have hcopy := (copy_eq_ok L.source_name hkeep hlast (r := ()) (s := { p' with cursor := p'.cursor + 1 })).mpr
    ⟨initial, h.beside.spare', hne, rfl⟩
  have hbus := (h.beside.setBus hsource initial)
  have hput := hbus.setBus htarget b
  refine ⟨{ p' with cursor := p'.cursor + 1, buses := p'.buses.insert L.source initial },
    fun b f => (Moves.line hl hcopy).finishes_iff, ⟨hbus.netlist, fun name hname => ?_, hput.spare, hbus.spare'⟩, rfl,
    h.counter, ?_, ?_, .of_texts hA fun l hmem => hfresh l ?_⟩
  · -- the target is what it was
    refine (hbus.buses name hname).trans ?_
    simp only [Session.bus?, buses_insert] at hb ⊢
    by_cases heq : L.target = name
    · subst heq
      simp only [L.distinct.symm, if_true, if_false, hb]
    · simp only [heq, if_false]
  · rw [List.append_nil]
    exact hq
  · rw [List.append_nil]
    exact hrest
  · simp only [lines, List.mem_append, List.mem_cons]
    exact .inr (.inr (.inr (.inr hmem)))

end LoopSite

theorem Reaches.sound {b : Nat} {s t : Session} (hs : s.Sound) (h : Reaches s b t) : t.Sound ∧ s.Advances t := by
  induction h with
  | start => exact ⟨hs, refl s⟩
  | @move b b' t u _ hm ih =>
    obtain ⟨ht, hadv⟩ := ih
    have hnext : ({ t with cursor := t.cursor + 1 } : Session).Sound := ⟨ht.intact, ht.buses, ht.ports⟩
    cases hm with
    | @line _ _ _ l hl hu =>
      have hsafe := safe_ample.statement l _ hnext
      have hsound := hsafe.sound
      have hgrows := hsafe.advances
      rw [hu] at hsound hgrows
      exact ⟨hsound, hgrows.lines.trans hadv.lines, hadv.grows.trans hgrows.grows⟩
    | enter hl hb => exact ⟨hnext, hadv.lines, hadv.grows⟩
    | leave hl he => exact ⟨hnext, hadv.lines, hadv.grows⟩

namespace LoopSite

section Whole
variable {L : LoopSite} {keep : String} {initial : Bus} {entry entry' : Session} {b : Nat}
  {first last : Line} {S A : List Line}

/-- The target has a width once the passes are carried out. -/
theorem Ready.passed_all (h : L.Ready entry initial) {q : Session}
    (hq : L.carriesOut initial.width L.count entry = (.ok (), q)) :
    ∃ b, q.bus? L.target = some b ∧ b.isEmpty = false := by
  rcases Nat.eq_zero_or_pos L.count with hzero | hpos
  · rw [carriesOut, hzero] at hq
    obtain ⟨_, rfl⟩ := pure_eq_ok.mp hq
    exact h.untouched hzero
  · exact h.passed L.count q hpos (Nat.le_refl _) hq

/-- In front of the loop, the script without it keeps the source. -/
theorem Ready.abreast (h : L.Ready entry initial) (hkeep : isName keep = true)
    (hfresh : ∀ line ∈ L.lines, keep ∉ line.names) (hsound : entry.Sound)
    (hf : Follows keep none none none none 0 (L.header :: (L.body ++ L.close :: L.after)) (first :: (S ++ last :: A))
      [] [] entry entry') (hfirst : first.text = copyText keep L.source) :
    ∃ p', L.Abreast keep initial (S ++ last :: A) { entry with cursor := L.stop + 1 } p' ∧
      ∀ b f, Finishes b entry' f ↔ Finishes b p' f := by
  obtain ⟨_, hsource⟩ := ne_of_fresh hfresh
  obtain ⟨hl, hrest'⟩ := Session.rest_eq_cons_iff.mp hf.rest'
  obtain ⟨_, hrest⟩ := Session.rest_eq_cons_iff.mp hf.rest
  have hne : initial.isEmpty = false := beq_false_of_ne (Nat.ne_of_gt h.wide)
  have hcopy := (copy_eq_ok hkeep L.source_name hfirst (r := ()) (s := { entry' with cursor := entry'.cursor + 1 })).mpr
    ⟨initial, (hf.buses _ hsource).trans h.source, hne, rfl⟩
  refine ⟨{ entry' with cursor := entry'.cursor + 1, buses := entry'.buses.insert keep initial },
    ⟨⟨hf.netlist, fun name hname => ?_, hf.spare, ?_⟩, hf.right, hrest', ?_, ⟨hsound.intact, hsound.buses, hsound.ports⟩,
      (hsound.buses _ _ h.source).narrow⟩, fun b f => (Moves.line hl hcopy).finishes_iff⟩
  · refine Eq.trans ?_ (hf.buses name hname)
    simp only [Session.bus?, buses_insert, hname.symm, if_false]
  · simp only [Session.bus?, buses_insert, if_true]
  · rw [Session.rest] at hrest
    rw [start, ← h.cursor]
    exact hrest

/-- The line that opens the loop can be carried out exactly if its passes can. -/
theorem Ready.header_eq_ok (h : L.Ready entry initial) (hcounter : entry.counter = none)
    (hrest : entry.rest = L.header :: (L.body ++ L.close :: L.after)) {t : Session} :
    outcome (ample.statement L.header) { entry with cursor := entry.cursor + 1 } = (.ok (), t) ↔
      ∃ q b, L.carriesOut initial.width L.count entry = (.ok (), q) ∧ q.bus? L.target = some b ∧ b.isEmpty = false ∧
        t = { q with buses := (q.buses.insert L.source initial).insert L.target b, counter := none } := by
  obtain ⟨_, hbody⟩ := Session.rest_eq_cons_iff.mp hrest
  rw [LoopSite.header_eq_ok hbody (by rw [start, h.cursor]) h.source]
  show (∃ (q : Session) (b : Bus), L.carriesOut initial.width L.count entry = _ ∧ _ ∧ _ ∧
    t = { q with buses := (q.buses.insert L.source initial).insert L.target b, counter := entry.counter }) ↔ _
  rw [hcounter]

/-- From the loop on, the two scripts go the same way. -/
theorem Ready.finishes (h : L.Ready entry initial) (hkeep : isName keep = true)
    (hfresh : ∀ line ∈ L.lines, keep ∉ line.names) (hsound : entry.Sound) (hwidth : initial.width < 2 ^ 64)
    (hf : Follows keep none none none none 0 (L.header :: (L.body ++ L.close :: L.after)) (first :: (S ++ last :: A))
      [] [] entry entry') (hfirst : first.text = copyText keep L.source)
    (hS : S.map Line.text = (List.range' 0 L.count).flatMap (L.passText initial.width))
    (hlast : last.text = copyText L.source keep) (hA : A.map Line.text = L.after.map Line.text) :
    (∀ f, Finishes b entry f →
      ∃ f', Finishes b entry' f' ∧ f.Beside keep none (some initial) f' ∧ f.counter = none ∧ f'.counter = none) ∧
      ∀ f', Finishes b entry' f' → ∃ f, Finishes b entry f := by
  obtain ⟨p', habreast, hiff⟩ := h.abreast hkeep hfresh hsound hf hfirst
  obtain ⟨hl, _⟩ := Session.rest_eq_cons_iff.mp hf.rest
  -- once the passes are carried out, both scripts stand in front of the same lines
  have hbehind {q : Session} (hq : L.carriesOut initial.width L.count entry = (.ok (), q)) {bus : Bus}
      (hbus : q.bus? L.target = some bus) : ∃ t', (∀ f, Finishes b entry' f ↔ Finishes b t' f) ∧
        Follows keep none (some initial) none none 0 [] [] L.after A
          { q with buses := (q.buses.insert L.source initial).insert L.target bus, counter := none } t' := by
    obtain ⟨q', hq', hiff'⟩ := habreast.passes hkeep hfresh hwidth (by omega) hS h.passed hq
    have hstill := spans_ample.passes hq
    have hrest : q.rest = L.after :=
      hstill.rest_eq.trans (Session.rest_behind (s := { entry with cursor := L.start }) habreast.body)
    obtain ⟨t', hiff'', hfollows⟩ := hq'.follows hkeep hfresh h.wide hlast hA hrest hbus
    exact ⟨t', fun f => (hiff b f).trans ((hiff' b f).trans (hiff'' b f)), hfollows⟩
  constructor
  · intro f hfin
    obtain ⟨t, ht, hfin⟩ := hfin.line_of_rest hl L.isEnd_header
    obtain ⟨q, bus, hq, hbus, hempty, rfl⟩ := (h.header_eq_ok hf.left hf.rest).mp ht
    obtain ⟨t', hiff', hfollows⟩ := hbehind hq hbus
    obtain ⟨f', hfin', hend⟩ := hfollows.finishes (isName_ne hkeep) hfin
    exact ⟨f', (hiff' f').mpr hfin', hend⟩
  · intro f' hfin'
    obtain ⟨q, hq⟩ := habreast.passes_of_finishes hkeep hfresh hwidth (by omega) hS h.passed ((hiff b f').mp hfin')
    obtain ⟨bus, hbus, hempty⟩ := h.passed_all hq
    obtain ⟨t', hiff', hfollows⟩ := hbehind hq hbus
    obtain ⟨f, hfin, _⟩ := hfollows.symm.finishes (isName_ne hkeep) ((hiff' f').mp hfin')
    exact ⟨f, .line hl ((h.header_eq_ok hf.left hf.rest).mpr ⟨q, bus, hq, hbus, hempty, rfl⟩) hfin⟩

end Whole

/-- **A loop does what its passes written out do.** Let a script hold a loop that a build
comes to, outside other loops, with a source that has a width and a target that has one
whenever a pass is completed. Of the script and of the one in which the loop is unrolled,
either both can be built or neither, and then both builds end with the same netlist, with
no counter, and with the same bus under every name but `keep`. -/
theorem unrolled_builds (L : LoopSite) (source unrolled keep : String) (settings : Settings) (b : Nat)
    (entry : Session) (initial : Bus) (hsource : linesOf source.toList = L.lines)
    (hunrolled : (linesOf unrolled.toList).map Line.text = L.unrolled keep initial.width)
    (hkeep : isName keep = true) (hfresh : ∀ line ∈ L.lines, keep ∉ line.names)
    (hcapacity : settings.capacity < 2 ^ 64) (hentry : Reaches (.start source settings) b entry)
    (hready : L.Ready entry initial) :
    let built := outcome Session.build (.start source settings)
    let built' := outcome Session.build (.start unrolled settings)
    (built.1 = .ok () ↔ built'.1 = .ok ()) ∧
      (built.1 = .ok () → built'.2.netlist = built.2.netlist ∧ built.2.counter = none ∧ built'.2.counter = none ∧
        ∀ name, name ≠ keep → built'.2.bus? name = built.2.bus? name) := by
  intro built built'
  have hlines : (Session.start source settings).lines.toList = L.lines := by
    show (linesOf source.toList).toArray.toList = _
    rw [List.toList_toArray, hsource]
  have hlines' : (Session.start unrolled settings).lines.toList = linesOf unrolled.toList := List.toList_toArray ..
  obtain ⟨hsound, hadvances⟩ := hentry.sound (Session.sound_start source settings)
  have hwidth : initial.width < 2 ^ 64 := by
    have hnarrow := (hsound.buses _ _ hready.source).narrow
    rw [hadvances.grows.retains.capacity] at hnarrow
    exact Nat.lt_of_le_of_lt hnarrow hcapacity
  obtain ⟨B, X, hB, hbefore, hX⟩ := List.map_eq_append_iff.mp hunrolled
  obtain ⟨first, Y, rfl, hfirst, hY⟩ := List.map_eq_cons_iff.mp hX
  obtain ⟨S, Z, rfl, hS, hZ⟩ := List.map_eq_append_iff.mp hY
  obtain ⟨last, A, rfl, hlast, hA⟩ := List.map_eq_cons_iff.mp hZ
  -- up to the loop, the lines are the same
  have hstart : Follows keep none none none none 0 (L.header :: (L.body ++ L.close :: L.after))
      (first :: (S ++ last :: A)) L.before B (.start source settings) (.start unrolled settings) := by
    refine ⟨⟨rfl, fun name _ => rfl, rfl, rfl⟩, rfl, rfl, hlines, hlines'.trans hB, .of_texts hbefore ?_⟩
    exact fun l hl => hfresh l (List.mem_append_left _ hl)
  have hrest : entry.rest = L.header :: (L.body ++ L.close :: L.after) := by
    rw [Session.rest, hadvances.lines, hlines, hready.cursor, lines, List.drop_left]
  obtain ⟨entry', W, W', hentry', hf⟩ := hstart.reaches (isName_ne hkeep) hentry (by rw [hrest])
  obtain rfl : W = [] := by
    have hW := hf.rest
    rw [hrest] at hW
    exact List.self_eq_append_left.mp hW
  obtain rfl : W' = [] := List.eq_nil_of_length_eq_zero hf.copied.length
  obtain ⟨hforth, hback⟩ := hready.finishes (b := b) hkeep hfresh hsound hwidth hf hfirst hS hlast hA
  have hok {x : Except Failure Unit × Session} : x.1 = .ok () ↔ ∃ f, x = (.ok (), f) := by
    refine ⟨fun h => ⟨x.2, Prod.ext h rfl⟩, ?_⟩
    rintro ⟨f, rfl⟩
    rfl
  have hbuild (f : Session) : built = (.ok (), f) ↔ Finishes b entry f :=
    build_iff_finishes.trans hentry.finishes_iff
  have hbuild' (f : Session) : built' = (.ok (), f) ↔ Finishes b entry' f :=
    build_iff_finishes.trans hentry'.finishes_iff
  refine ⟨⟨fun h => ?_, fun h => ?_⟩, fun h => ?_⟩
  · obtain ⟨f, hfin⟩ := hok.mp h
    obtain ⟨f', hfin', _⟩ := hforth f ((hbuild f).mp hfin)
    exact hok.mpr ⟨f', (hbuild' f').mpr hfin'⟩
  · obtain ⟨f', hfin'⟩ := hok.mp h
    obtain ⟨f, hfin⟩ := hback f' ((hbuild' f').mp hfin')
    exact hok.mpr ⟨f, (hbuild f).mpr hfin⟩
  · obtain ⟨f, hfin⟩ := hok.mp h
    obtain ⟨f', hfin', hbeside, hcounter, hcounter'⟩ := hforth f ((hbuild f).mp hfin)
    rw [hfin, (hbuild' f').mpr hfin']
    exact ⟨hbeside.netlist, hcounter, hcounter', hbeside.buses⟩

/-- A loop in a block, with a loop inside that counts for itself. -/
def nestedSample : String :=
  "IN a /2\nBLOCK outer\ns = a\nt = LOOP(2) s\nv = LOOP(1) s\nv.0 = s.i\nv.1 = a.1\nEND\n" ++
    "t.0 = v.i\nt.1 = NOT a.i\nEND\nEND\nOUT y = t\n"

/-- The same with the outer loop unrolled. -/
def flatSample : String :=
  "IN a /2\nBLOCK outer\ns = a\nkept = s\n" ++
    "t /2\nv = LOOP(1) s\nv.0 = s.i\nv.1 = a.1\nEND\nt.0 = v.0\nt.1 = NOT a.0\ns = t\n" ++
    "t /2\nv = LOOP(1) s\nv.0 = s.i\nv.1 = a.1\nEND\nt.0 = v.1\nt.1 = NOT a.1\ns = t\n" ++
    "s = kept\nEND\nOUT y = t\n"

def nestedSite : LoopSite where
  before := [⟨1, "IN a /2".toList⟩, ⟨2, "BLOCK outer".toList⟩, ⟨3, "s = a".toList⟩]
  header := ⟨4, "t = LOOP(2) s".toList⟩
  body := [⟨5, "v = LOOP(1) s".toList⟩, ⟨6, "v.0 = s.i".toList⟩, ⟨7, "v.1 = a.1".toList⟩, ⟨8, "END".toList⟩,
    ⟨9, "t.0 = v.i".toList⟩, ⟨10, "t.1 = NOT a.i".toList⟩]
  close := ⟨11, "END".toList⟩
  after := [⟨12, "END".toList⟩, ⟨13, "OUT y = t".toList⟩]
  target := "t"
  source := "s"
  count := 2
  reads := rfl
  closed := by decide +kernel
  target_name := by decide +kernel
  source_name := by decide +kernel
  distinct := by decide
  tidy := by decide +kernel

theorem linesOf_nestedSample : linesOf nestedSample.toList = nestedSite.lines := by decide +kernel

/-- The sample to begin with, its lines at hand. -/
def nestedStart : Session := .ofLines nestedSite.lines {}

theorem start_nestedSample : Session.start nestedSample {} = nestedStart := Session.start_eq linesOf_nestedSample {}

/-- The session behind the next line. -/
def stepped (s : Session) : Session :=
  (outcome (ample.statement (s.lines[s.cursor]?.getD default)) { s with cursor := s.cursor + 1 }).2

theorem moves_stepped {s : Session} (b : Nat) (hlt : s.cursor < s.lines.size)
    (h : (outcome (ample.statement (s.lines[s.cursor]?.getD default)) { s with cursor := s.cursor + 1 }).1 = .ok ()) :
    Moves b s b (stepped s) := by
  have hl : s.lines[s.cursor]? = some (s.lines[s.cursor]?.getD default) := by
    rw [Array.getElem?_eq_getElem hlt]
    rfl
  exact .line hl (outcome_of_result h)

/-- The sample in front of its outer loop. -/
def nestedEntry : Session :=
  let entered := stepped nestedStart
  stepped { entered with cursor := entered.cursor + 1 }

theorem reaches_nestedEntry : Reaches nestedStart 1 nestedEntry := by
  have hinput := moves_stepped (s := nestedStart) 0 (by decide +kernel) (by decide +kernel)
  have hblock := Moves.enter (b := 0) (s := stepped nestedStart) (l := ⟨2, "BLOCK outer".toList⟩)
    (by decide +kernel) rfl
  exact .move (.move (.move .start hinput) hblock) (moves_stepped 1 (by decide +kernel) (by decide +kernel))

theorem ready_nestedEntry : nestedSite.Ready nestedEntry (.contiguous 0 2) where
  cursor := by decide +kernel
  source := by decide +kernel
  wide := by decide
  untouched h := absurd h (by decide)
  passed j t hpos hle h := by
    have hwide : ∀ n ∈ [1, 2], ((nestedSite.carriesOut 2 n nestedEntry).2.bus? "t").any (!·.isEmpty) = true := by
      decide +kernel
    have hcount : nestedSite.count = 2 := rfl
    have hany := hwide j (by simp; omega)
    rw [show nestedSite.carriesOut 2 j nestedEntry = _ from h, Option.any_eq_true] at hany
    obtain ⟨bus, hbus, hempty⟩ := hany
    exact ⟨bus, hbus, by simpa using hempty⟩

/-- Unrolled, the sample is built of the same four gates, and `t` is the second input and the
negation of the second pass. -/
theorem unrolled_builds_nestedSample :
    (outcome Session.build (.start nestedSample {})).1 = .ok () ∧
      (outcome Session.build (.start flatSample {})).1 = .ok () ∧
      (outcome Session.build (.start flatSample {})).2.netlist =
        (outcome Session.build (.start nestedSample {})).2.netlist ∧
      (outcome Session.build (.start flatSample {})).2.netlist.size = 4 ∧
      (outcome Session.build (.start flatSample {})).2.bus? "t" = some (.explicit [some 1, some 3]) := by
  have hboth := unrolled_builds nestedSite nestedSample flatSample "kept" {} 1 nestedEntry (.contiguous 0 2)
    linesOf_nestedSample (by decide +kernel) (by decide +kernel) (by decide +kernel) (by decide)
    (by rw [start_nestedSample]; exact reaches_nestedEntry) ready_nestedEntry
  have hbuilt : (outcome Session.build (.start nestedSample {})).1 = .ok () := by
    rw [start_nestedSample]
    decide +kernel
  have hgates : (outcome Session.build (.start nestedSample {})).2.netlist.size = 4 := by
    rw [start_nestedSample]
    decide +kernel
  have hbus : (outcome Session.build (.start nestedSample {})).2.bus? "t" = some (.explicit [some 1, some 3]) := by
    rw [start_nestedSample]
    decide +kernel
  obtain ⟨hnetlist, _, _, hbuses⟩ := hboth.2 hbuilt
  exact ⟨hbuilt, hboth.1.mp hbuilt, hnetlist, by rw [hnetlist, hgates], (hbuses "t" (by decide)).trans hbus⟩

end LoopSite

end BusLogic.Script
