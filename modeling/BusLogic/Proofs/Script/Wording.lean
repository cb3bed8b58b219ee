import BusLogic.Proofs.Script.Substitution
import BusLogic.Proofs.Script.Tokens

/-! Readings up to the text that they quote.

A line whose text breaks off its statement is read with a mismatch, which tells what was
expected and quotes what was found instead. The quoted text runs to the end of the line, so
it is the one part of a reading in which white space shows; `blur` leaves it out. All else
depends on the tokens: texts of the same tokens say the same, as statements
(`SameTokens.statement`) and as branches (`SameTokens.value`), and they open and close the
same constructs (`SameTokens.isEnd`, `SameTokens.opens`). -/
namespace BusLogic

/-- What was expected, and not what was found. -/
def Mismatch.blur (m : Mismatch) : Mismatch := ⟨m.expected, ""⟩

/-- The error, without the text it quotes. -/
def Error.blur : Error → Error
  | .mismatch m => .mismatch m.blur
  | e => e

namespace Script
open Text

/-! ### Leaving out what was found -/

def Index.blur : Index → Index
  | .missing m => .missing m.blur
  | i => i

def Span.blur (span : Span) : Span := ⟨span.first.blur, span.last.map Index.blur⟩

def Ref.blur (r : Ref) : Ref := ⟨r.name, r.span.map Span.blur⟩

def Listing.blur (l : Listing) : Listing := ⟨l.parts.map Ref.blur, l.fault.map Mismatch.blur⟩

def Extent.blur (e : Extent) : Extent := ⟨e.width.blur, e.fault.map Mismatch.blur⟩

def Operand.blur : Operand → Operand
  | .ref r => .ref r.blur
  | .list l => .list l.blur
  | .source op extent => .source op (extent.map Extent.blur)
  | .reduction op l => .reduction op l.blur

def Term.blur : Term → Term
  | .operand o => .operand o.blur
  | .operator op => .operator op

def Value.blur : Value → Value
  | .fault m => .fault m.blur
  | .loop count source => .loop count.blur (source.mapError Mismatch.blur)
  | .select selector text => .select selector.blur (text.map Mismatch.blur)
  | .formula terms text => .formula (terms.map Term.blur) (text.map Mismatch.blur)

def Target.blur : Target → Target
  | .slot name i => .slot name i.blur
  | target => target

def Statement.blur : Statement → Statement
  | .fault m => .fault m.blur
  | .assign target value => .assign target.blur ((value.mapError Mismatch.blur).map Value.blur)
  | st => st

/-! ### Texts of the same tokens -/

namespace SameTokens

variable {s t : List Char} (h : SameTokens s t)
include h

theorem leftover? : (leftover? s = none ∧ leftover? t = none) ∨
    ∃ m m', leftover? s = some m ∧ leftover? t = some m' ∧ m.blur = m'.blur := by
  rcases h.cases_cons with ⟨rfl, rfl⟩ | ⟨c, s', t', rfl, rfl, _⟩
  · exact .inl ⟨rfl, rfl⟩
  · exact .inr ⟨_, _, rfl, rfl, rfl⟩

theorem index : (index s).1.blur = (index t).1.blur ∧ SameTokens (index s).2 (index t).2 := by
  unfold Script.index
  rw [← h.head?]
  split
  · obtain ⟨hnumber, hrest⟩ := h.number?
    rcases hs : Script.number? s with ⟨_ | n, r⟩ <;> rcases ht : Script.number? t with ⟨_ | n', r'⟩ <;>
      rw [hs, ht] at hnumber hrest
    · exact ⟨rfl, hrest⟩
    · cases hnumber
    · cases hnumber
    · cases hnumber
      exact ⟨rfl, hrest⟩
  · rcases h.name? with ⟨hs, ht⟩ | ⟨name, r, r', hs, ht, hrest⟩
    · rw [hs, ht]
      exact ⟨rfl, h⟩
    · rw [hs, ht]
      exact ⟨rfl, hrest⟩

theorem span? : (span? s).1.map Span.blur = (span? t).1.map Span.blur ∧ SameTokens (span? s).2 (span? t).2 := by
  rw [span?_eq, span?_eq]
  rcases h.eat? '.' with ⟨hs, ht⟩ | ⟨r, r', hs, ht, hrest⟩
  · rw [hs, ht]
    exact ⟨rfl, h⟩
  · obtain ⟨hfirst, hrest⟩ := hrest.index
    rw [hs, ht]
    dsimp only
    rcases hrest.dots with ⟨hs, ht⟩ | ⟨q, q', hs, ht, hlast⟩
    · rw [hs, ht]
      exact ⟨by simp [Span.blur, hfirst], hrest⟩
    · obtain ⟨hlast, hrest⟩ := hlast.index
      rw [hs, ht]
      exact ⟨by simp [Span.blur, hfirst, hlast], hrest⟩

theorem listParts :
    (listParts s).1.blur = (listParts t).1.blur ∧ SameTokens (listParts s).2 (listParts t).2 := by
  induction hn : s.length using Nat.strong_induction_on generalizing s t with
  | _ n ih =>
    rw [listParts_eq, listParts_eq t]
    rcases h.name? with ⟨hs, ht⟩ | ⟨name, r, r', hs, ht, hrest⟩
    · rw [hs, ht]
      exact ⟨rfl, h⟩
    · obtain ⟨hspan, hrest⟩ := hrest.span?
      have hpart : Ref.blur ⟨name, (Script.span? r).1⟩ = Ref.blur ⟨name, (Script.span? r').1⟩ :=
        congrArg (Ref.mk name) hspan
      rw [hs, ht]
      dsimp only
      rcases hrest.eat? ']' with ⟨hclose, hclose'⟩ | ⟨q, q', hclose, hclose', hend⟩
      · rw [hclose, hclose']
        dsimp only
        rcases hrest.eat? ',' with ⟨hcomma, hcomma'⟩ | ⟨q, q', hcomma, hcomma', hnext⟩
        · rw [hcomma, hcomma']
          exact ⟨by simp [Listing.blur, hpart, Mismatch.blur], hrest⟩
        · have hlt : q.length < n := by
            have := length_name?_lt hs
            have := length_span?_le r
            have := length_eat?_le hcomma
            omega
          obtain ⟨hmore, hrest⟩ := ih q.length hlt hnext rfl
          obtain ⟨hparts, hfault⟩ := Listing.mk.inj hmore
          rw [hcomma, hcomma']
          exact ⟨by simp [Listing.blur, hpart, hparts, hfault], hrest⟩
      · rw [hclose, hclose']
        exact ⟨by simp [Listing.blur, hpart], hend⟩

theorem listing : (listing s).1.blur = (listing t).1.blur ∧ SameTokens (listing s).2 (listing t).2 := by
  unfold Script.listing
  rcases h.eat? ']' with ⟨hs, ht⟩ | ⟨r, r', hs, ht, hrest⟩
  · rw [hs, ht]
    exact h.listParts
  · rw [hs, ht]
    exact ⟨rfl, hrest⟩

theorem extent? :
    (extent? s).1.map Extent.blur = (extent? t).1.map Extent.blur ∧ SameTokens (extent? s).2 (extent? t).2 := by
  unfold Script.extent?
  rcases h.eat? '(' with ⟨hs, ht⟩ | ⟨r, r', hs, ht, hrest⟩
  · rw [hs, ht]
    exact ⟨rfl, h⟩
  · obtain ⟨hwidth, hrest⟩ := hrest.index
    rw [hs, ht]
    dsimp only
    rcases hrest.eat? ')' with ⟨hs, ht⟩ | ⟨q, q', hs, ht, hend⟩
    · rw [hs, ht]
      exact ⟨by simp [Extent.blur, hwidth, Mismatch.blur], hrest⟩
    · rw [hs, ht]
      exact ⟨by simp [Extent.blur, hwidth], hend⟩

theorem named (name : String) :
    (named name s).1.blur = (named name t).1.blur ∧ SameTokens (named name s).2 (named name t).2 := by
  unfold Script.named
  cases Opcode.ofSourceWord? name with
  | some op =>
    obtain ⟨hextent, hrest⟩ := h.extent?
    exact ⟨by simp [Term.blur, Operand.blur, hextent], hrest⟩
  | none =>
    dsimp only
    cases Opcode.ofKeyword? name with
    | some op =>
      dsimp only
      rcases h.eat? '[' with ⟨hs, ht⟩ | ⟨r, r', hs, ht, hrest⟩
      · rw [hs, ht]
        exact ⟨rfl, h⟩
      · obtain ⟨hlist, hrest⟩ := hrest.listing
        rw [hs, ht]
        exact ⟨by simp [Term.blur, Operand.blur, hlist], hrest⟩
    | none =>
      obtain ⟨hspan, hrest⟩ := h.span?
      exact ⟨by simp [Term.blur, Operand.blur, Ref.blur, hspan], hrest⟩

theorem term? : (term? s = none ∧ term? t = none) ∨ ∃ x r x' r', term? s = some (x, r) ∧
    term? t = some (x', r') ∧ x.blur = x'.blur ∧ SameTokens r r' := by
  rcases h.cases_cons with ⟨rfl, rfl⟩ | ⟨c, s', t', hs, ht, hbehind, _⟩
  · exact .inl ⟨rfl, rfl⟩
  · by_cases hc : c = '['
    · rw [hs, ht, hc]
      obtain ⟨hlist, hrest⟩ := (sameTokens_trimStart hbehind).listing
      exact .inr ⟨_, _, _, _, rfl, rfl, congrArg (fun l => Term.operand (.list l)) hlist, hrest⟩
    · have hterm (s : List Char) : Script.term? (c :: s) =
          (Script.name? (c :: s)).map fun x => Script.named x.1 x.2 := by
        unfold Script.term?
        split
        · rename_i heq
          exact absurd (List.cons.inj heq).1 hc
        · cases Script.name? (c :: s) <;> rfl
      rcases h.name? with ⟨hnone, hnone'⟩ | ⟨name, r, r', hname, hname', hrest⟩
      · rw [hs] at hnone ⊢
        rw [ht] at hnone' ⊢
        exact .inl ⟨by rw [hterm, hnone, Option.map_none], by rw [hterm, hnone', Option.map_none]⟩
      · obtain ⟨hnamed, hrest⟩ := hrest.named name
        rw [hs] at hname ⊢
        rw [ht] at hname' ⊢
        exact .inr ⟨_, _, _, _, by rw [hterm, hname, Option.map_some], by rw [hterm, hname', Option.map_some],
          hnamed, hrest⟩

theorem terms :
    (terms s).1.map Term.blur = (terms t).1.map Term.blur ∧ SameTokens (terms s).2 (terms t).2 := by
  induction hn : s.length using Nat.strong_induction_on generalizing s t with
  | _ n ih =>
    rw [terms_eq, terms_eq t]
    rcases h.term? with ⟨hs, ht⟩ | ⟨x, r, x', r', hs, ht, hterm, hrest⟩
    · rw [hs, ht]
      exact ⟨rfl, h⟩
    · have hlt := length_term?_lt hs
      obtain ⟨hmore, hrest⟩ := ih r.length (by omega) hrest rfl
      rw [hs, ht]
      exact ⟨by simp [hterm, hmore], hrest⟩

/-! ### Values and statements -/

theorem loop : (loop s).blur = (loop t).blur := by
  unfold Script.loop
  rcases h.eat? '(' with ⟨hs, ht⟩ | ⟨r, r', hs, ht, hrest⟩
  · rw [hs, ht]
    rfl
  · obtain ⟨hcount, hrest⟩ := hrest.index
    rw [hs, ht]
    dsimp only
    rcases hrest.eat? ')' with ⟨hs, ht⟩ | ⟨q, q', hs, ht, hname⟩
    · rw [hs, ht]
      simp [Value.blur, hcount, Except.mapError, Mismatch.blur]
    · rw [hs, ht]
      dsimp only
      rcases hname.name? with ⟨hs, ht⟩ | ⟨source, p, p', hs, ht, hend⟩
      · rw [hs, ht]
        simp [Value.blur, hcount, Except.mapError, Mismatch.blur]
      · rw [hs, ht]
        dsimp only
        rcases hend.leftover? with ⟨hs, ht⟩ | ⟨m, m', hs, ht, hm⟩
        · rw [hs, ht]
          simp [Value.blur, hcount]
        · rw [hs, ht]
          simp [Value.blur, hcount, Except.mapError, hm]

theorem select : (select s).blur = (select t).blur := by
  unfold Script.select
  rcases h.eat? '(' with ⟨hs, ht⟩ | ⟨r, r', hs, ht, hrest⟩
  · rw [hs, ht]
    rfl
  · rw [hs, ht]
    dsimp only
    rcases hrest.name? with ⟨hs, ht⟩ | ⟨name, q, q', hs, ht, hrest⟩
    · rw [hs, ht]
      rfl
    · obtain ⟨hspan, hrest⟩ := hrest.span?
      rw [hs, ht]
      dsimp only
      rcases hrest.eat? ')' with ⟨hs, ht⟩ | ⟨p, p', hs, ht, hend⟩
      · rw [hs, ht]
        simp [Value.blur, Ref.blur, hspan, Mismatch.blur]
      · rw [hs, ht]
        rcases hend.leftover? with ⟨hs, ht⟩ | ⟨m, m', hs, ht, hm⟩
        · simp [Value.blur, Ref.blur, hspan, hs, ht]
        · simp [Value.blur, Ref.blur, hspan, hs, ht, hm]

/-- The same value is read from both. -/
theorem value : (value s).blur = (value t).blur := by
  obtain ⟨hword, hrest⟩ := h.word
  obtain ⟨hterms, hend⟩ := h.terms
  unfold Script.value
  dsimp only
  rw [← hword]
  split
  · exact hrest.loop
  · split
    · exact hrest.select
    · rcases hend.leftover? with ⟨hs, ht⟩ | ⟨m, m', hs, ht, hm⟩
      · simp [Value.blur, hterms, hs, ht]
      · simp [Value.blur, hterms, hs, ht, hm]

theorem assigned : ((assigned s).mapError Mismatch.blur).map Value.blur =
    ((assigned t).mapError Mismatch.blur).map Value.blur := by
  unfold Script.assigned
  rcases h.eat? '=' with ⟨hs, ht⟩ | ⟨r, r', hs, ht, hrest⟩
  · rw [hs, ht]
    rfl
  · rw [hs, ht]
    simp [Except.mapError, Except.map, hrest.value]

theorem declared (make : Nat → Statement) : (declared s make).blur = (declared t make).blur := by
  unfold Script.declared
  obtain ⟨hnumber, hrest⟩ := h.number?
  rcases hs : Script.number? s with ⟨_ | n, r⟩ <;> rcases ht : Script.number? t with ⟨_ | n', r'⟩ <;>
    rw [hs, ht] at hnumber hrest
  · rfl
  · cases hnumber
  · cases hnumber
  · cases hnumber
    dsimp only at hrest ⊢
    rcases hrest.leftover? with ⟨hs, ht⟩ | ⟨m, m', hs, ht, hm⟩
    · rw [hs, ht]
    · rw [hs, ht]
      exact congrArg Statement.fault hm

theorem plain : (plain s).blur = (plain t).blur := by
  unfold Script.plain
  rcases h.name? with ⟨hs, ht⟩ | ⟨name, r, r', hs, ht, hrest⟩
  · rw [hs, ht]
    rfl
  · rw [hs, ht]
    dsimp only
    rcases hrest.eat? '/' with ⟨hs, ht⟩ | ⟨q, q', hs, ht, hwidth⟩
    · rw [hs, ht]
      dsimp only
      rcases hrest.eat? '.' with ⟨hs, ht⟩ | ⟨q, q', hs, ht, hindex⟩
      · rw [hs, ht]
        simp [Statement.blur, Target.blur, hrest.assigned]
      · obtain ⟨hindex, hrest⟩ := hindex.index
        rw [hs, ht]
        simp [Statement.blur, Target.blur, hindex, hrest.assigned]
    · rw [hs, ht]
      exact hwidth.declared _

theorem inputStatement : (inputStatement s).blur = (inputStatement t).blur := by
  unfold Script.inputStatement
  rcases h.name? with ⟨hs, ht⟩ | ⟨name, r, r', hs, ht, hrest⟩
  · rw [hs, ht]
    rfl
  · rw [hs, ht]
    dsimp only
    rcases hrest.eat? '/' with ⟨hs, ht⟩ | ⟨q, q', hs, ht, hwidth⟩
    · rw [hs, ht]
      rfl
    · rw [hs, ht]
      exact hwidth.declared _

theorem outputStatement : (outputStatement s).blur = (outputStatement t).blur := by
  unfold Script.outputStatement
  rcases h.name? with ⟨hs, ht⟩ | ⟨name, r, r', hs, ht, hrest⟩
  · rw [hs, ht]
    rfl
  · rw [hs, ht]
    dsimp only
    rcases hrest.eat? '/' with ⟨hs, ht⟩ | ⟨q, q', hs, ht, hwidth⟩
    · rw [hs, ht]
      simp [Statement.blur, Target.blur, hrest.assigned]
    · rw [hs, ht]
      exact hwidth.declared _

/-- The same statement is read from both. -/
theorem statement : (statement s).blur = (statement t).blur := by
  obtain ⟨hword, hrest⟩ := h.word
  obtain ⟨_, hlabel⟩ := hrest.word
  unfold Script.statement
  dsimp only
  rw [← hword]
  split
  · rcases hlabel.leftover? with ⟨hs, ht⟩ | ⟨m, m', hs, ht, hm⟩
    · rw [hs, ht]
    · rw [hs, ht]
      exact congrArg Statement.fault hm
  · split
    · exact hrest.inputStatement
    · split
      · exact hrest.outputStatement
      · exact h.plain

/-! ### Constructs -/

theorem isEnd (m n : Nat) : Line.isEnd ⟨m, s⟩ = Line.isEnd ⟨n, t⟩ := by
  obtain ⟨hword, hrest⟩ := h.word
  obtain ⟨_, hend⟩ := hrest.word
  have hempty : (Script.word (Script.word s).2).2.isEmpty = (Script.word (Script.word t).2).2.isEmpty := by
    rw [Bool.eq_iff_iff, List.isEmpty_iff, List.isEmpty_iff, hend.eq_nil_iff]
  show ((Script.word s).1 == "END" && (Script.word (Script.word s).2).2.isEmpty) =
    ((Script.word t).1 == "END" && (Script.word (Script.word t).2).2.isEmpty)
  rw [hword, hempty]

theorem opens (m n : Nat) : Line.opens ⟨m, s⟩ = Line.opens ⟨n, t⟩ := by
  obtain ⟨hword, _⟩ := h.word
  obtain ⟨hkeyword, hrest⟩ := (sameTokens_trimStart (tokens_afterEquals h.tokens)).word
  show ((Script.word s).1 == "BLOCK" || Line.startsConstruct (Line.afterEquals s)) =
    ((Script.word t).1 == "BLOCK" || Line.startsConstruct (Line.afterEquals t))
  unfold Line.startsConstruct
  dsimp only
  rw [hword, hkeyword, hrest.head?]

end SameTokens

end Script

end BusLogic
