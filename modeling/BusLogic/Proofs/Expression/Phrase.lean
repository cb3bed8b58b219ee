import Mathlib.Tactic.Common

/-! The trees an infix text can be read as.

Tokens of the form `prefix* operand (binary prefix* operand)*` can be read as many
trees. Priorities pick one: an operator stands below another where it binds tighter
(`Phrase.Ordered`). Appending a binary operator and its operand to an ordered tree
has one place to go (`Phrase.extend`), which shows that there is such a tree for
every text, and that it leans to the left where no priority says otherwise. -/
namespace BusLogic.Expression

variable {ν : Type}

inductive Token (ν : Type) where
  | operand (node : ν)
  | operator (node : ν)
  deriving DecidableEq, Repr

def Token.map {μ : Type} (f : ν → μ) : Token ν → Token μ
  | .operand node => .operand (f node)
  | .operator node => .operator (f node)

/-- A tree of operators over operands. -/
inductive Phrase (ν : Type) where
  | leaf (node : ν)
  | unary (op : ν) (child : Phrase ν)
  | binary (op : ν) (left right : Phrase ν)
  deriving DecidableEq, Repr

namespace Phrase

/-- The tree read from left to right. -/
def tokens : Phrase ν → List (Token ν)
  | .leaf node => [.operand node]
  | .unary op child => .operator op :: child.tokens
  | .binary op left right => left.tokens ++ .operator op :: right.tokens

/-- The binary operators from the root to the left, down to the first token. -/
def leftSpine : Phrase ν → List ν
  | .leaf _ | .unary _ _ => []
  | .binary op left _ => op :: left.leftSpine

/-- The operators from the root to the right, down to the last token. -/
def rightSpine : Phrase ν → List ν
  | .leaf _ => []
  | .unary op child => op :: child.rightSpine
  | .binary op _ right => op :: right.rightSpine

variable (arity priority : ν → Nat)

/-- Each operator has the children it asks for and stands where its priority puts it:
what ends in the left operand of a binary operator binds no weaker, and what begins in
its right operand, or in the operand of a prefix operator, binds tighter. -/
def Ordered : Phrase ν → Prop
  | .leaf _ => True
  | .unary op child =>
    arity op = 1 ∧ (∀ b ∈ child.leftSpine, priority b < priority op) ∧ child.Ordered
  | .binary op left right =>
    arity op = 2 ∧ (∀ o ∈ left.rightSpine, priority o ≤ priority op) ∧
      (∀ b ∈ right.leftSpine, priority b < priority op) ∧ left.Ordered ∧ right.Ordered

instance decidableOrdered : (t : Phrase ν) → Decidable (t.Ordered arity priority)
  | .leaf _ => isTrue trivial
  | .unary _ child =>
    have := decidableOrdered child
    inferInstanceAs (Decidable (_ ∧ _ ∧ _))
  | .binary _ left right =>
    have := decidableOrdered left
    have := decidableOrdered right
    inferInstanceAs (Decidable (_ ∧ _ ∧ _ ∧ _ ∧ _))

/-- Only prefix and binary operators stand on a spine. -/
theorem Ordered.arity_rightSpine {t : Phrase ν} (h : t.Ordered arity priority) :
    ∀ o ∈ t.rightSpine, arity o = 1 ∨ arity o = 2 := by
  induction t with
  | leaf node => simp [rightSpine]
  | unary op child ih => exact List.forall_mem_cons.mpr ⟨.inl h.1, ih h.2.2⟩
  | binary op left right _ ih => exact List.forall_mem_cons.mpr ⟨.inr h.1, ih h.2.2.2.2⟩

/-! ### Other nodes in the same places -/

section Map
variable {μ : Type} (f : ν → μ)

def map : Phrase ν → Phrase μ
  | .leaf node => .leaf (f node)
  | .unary op child => .unary (f op) child.map
  | .binary op left right => .binary (f op) left.map right.map

theorem tokens_map (t : Phrase ν) : (t.map f).tokens = t.tokens.map (Token.map f) := by
  induction t with
  | leaf node => rfl
  | unary op child ih =>
    rw [map, tokens, ih]
    rfl
  | binary op left right ihl ihr =>
    rw [map, tokens, ihl, ihr, tokens, List.map_append]
    rfl

theorem leftSpine_map (t : Phrase ν) : (t.map f).leftSpine = t.leftSpine.map f := by
  induction t with
  | leaf node => rfl
  | unary op child _ => rfl
  | binary op left right ih _ => rw [map, leftSpine, ih, leftSpine, List.map_cons]

theorem rightSpine_map (t : Phrase ν) : (t.map f).rightSpine = t.rightSpine.map f := by
  induction t with
  | leaf node => rfl
  | unary op child ih => rw [map, rightSpine, ih, rightSpine, List.map_cons]
  | binary op left right _ ih => rw [map, rightSpine, ih, rightSpine, List.map_cons]

theorem Ordered.map {arity priority : μ → Nat} {t : Phrase ν}
    (h : t.Ordered (arity ∘ f) (priority ∘ f)) : (t.map f).Ordered arity priority := by
  induction t with
  | leaf node => trivial
  | unary op child ih =>
    refine ⟨h.1, ?_, ih h.2.2⟩
    rw [leftSpine_map, List.forall_mem_map]
    exact h.2.1
  | binary op left right ihl ihr =>
    refine ⟨h.1, ?_, ?_, ihl h.2.2.2.1, ihr h.2.2.2.2⟩
    · rw [rightSpine_map, List.forall_mem_map]
      exact h.2.1
    · rw [leftSpine_map, List.forall_mem_map]
      exact h.2.2.1

end Map

/-! ### One more operator at the end -/

/-- All that is open at the end of the tree binds no weaker than `b`. -/
def Yields (b : ν) (t : Phrase ν) : Prop := ∀ o ∈ t.rightSpine, priority o ≤ priority b

instance (b : ν) (t : Phrase ν) : Decidable (t.Yields priority b) :=
  inferInstanceAs (Decidable (∀ o ∈ t.rightSpine, priority o ≤ priority b))

/-- The tree with the operator `b` and its right operand `u` read after it: `b` takes as
its left operand as much of the end of the tree as yields to it. -/
def extend (b : ν) : (t u : Phrase ν) → Phrase ν
  | .leaf node, u => .binary b (.leaf node) u
  | .unary op child, u =>
    if (Phrase.unary op child).Yields priority b then .binary b (.unary op child) u
    else .unary op (child.extend b u)
  | .binary op left right, u =>
    if (Phrase.binary op left right).Yields priority b then .binary b (.binary op left right) u
    else .binary op left (right.extend b u)

variable {priority} {b : ν} {u : Phrase ν}

theorem extend_of_yields {t : Phrase ν} (h : t.Yields priority b) :
    t.extend priority b u = .binary b t u := by
  cases t with
  | leaf node => rfl
  | unary op child => rw [extend, if_pos h]
  | binary op left right => rw [extend, if_pos h]

theorem tokens_extend (t : Phrase ν) :
    (t.extend priority b u).tokens = t.tokens ++ .operator b :: u.tokens := by
  induction t with
  | leaf node => rfl
  | unary op child ih =>
    rw [extend]
    split
    · rfl
    · rw [tokens, ih, tokens, List.cons_append]
  | binary op left right _ ih =>
    rw [extend]
    split
    · rfl
    · rw [tokens, ih, tokens, List.append_assoc, List.cons_append]

/-- The new operator begins the tree only if the whole tree yields to it. -/
theorem leftSpine_extend (t : Phrase ν) :
    (t.extend priority b u).leftSpine = if t.Yields priority b then b :: t.leftSpine else t.leftSpine := by
  split
  · rename_i h
    rw [extend_of_yields h]
    rfl
  · rename_i h
    cases t with
    | leaf node => exact absurd (fun o ho => by cases ho) h
    | unary op child => rw [extend, if_neg h]; rfl
    | binary op left right => rw [extend, if_neg h]; rfl

/-- What begins in the extended operand of `op` still binds tighter than `op`. -/
theorem leftSpine_extend_lt {op : ν} {child : Phrase ν} (h : ∀ c ∈ child.leftSpine, priority c < priority op)
    (hy : ¬ ∀ o ∈ op :: child.rightSpine, priority o ≤ priority b) :
    ∀ c ∈ (child.extend priority b u).leftSpine, priority c < priority op := by
  rw [leftSpine_extend]
  split
  · rename_i hchild
    refine List.forall_mem_cons.mpr ⟨?_, h⟩
    by_contra hle
    exact hy (List.forall_mem_cons.mpr ⟨Nat.le_of_not_lt hle, hchild⟩)
  · exact h

variable {arity}

theorem Ordered.extend {t : Phrase ν} (ht : t.Ordered arity priority) (hu : u.Ordered arity priority)
    (hb : arity b = 2) (hleft : u.leftSpine = []) : (t.extend priority b u).Ordered arity priority := by
  have hyields {t : Phrase ν} (ht : t.Ordered arity priority) (hy : t.Yields priority b) :
      (Phrase.binary b t u).Ordered arity priority :=
    ⟨hb, hy, by simp [hleft], ht, hu⟩
  induction t with
  | leaf node => exact hyields ht fun o ho => by cases ho
  | unary op child ih =>
    rw [Phrase.extend]
    split
    · rename_i hy
      exact hyields ht hy
    · rename_i hy
      exact ⟨ht.1, leftSpine_extend_lt ht.2.1 hy, ih ht.2.2⟩
  | binary op left right _ ih =>
    rw [Phrase.extend]
    split
    · rename_i hy
      exact hyields ht hy
    · rename_i hy
      exact ⟨ht.1, ht.2.1, leftSpine_extend_lt ht.2.2.1 hy, ht.2.2.2.1, ih ht.2.2.2.2⟩

end Phrase

/-! ### Texts -/

/-- An operand behind its prefix operators. -/
structure Factor (ν : Type) where
  prefixes : List ν
  operand : ν
  deriving DecidableEq, Repr

namespace Factor

def tokens (f : Factor ν) : List (Token ν) := f.prefixes.map .operator ++ [.operand f.operand]

/-- The prefix operators applied to the operand, the last one first. -/
def phrase (f : Factor ν) : Phrase ν := f.prefixes.foldr .unary (.leaf f.operand)

theorem tokens_phrase (f : Factor ν) : f.phrase.tokens = f.tokens := by
  obtain ⟨ops, operand⟩ := f
  induction ops with
  | nil => rfl
  | cons op rest ih =>
    show Token.operator op :: (Factor.mk rest operand).phrase.tokens = _
    rw [ih]
    rfl

theorem leftSpine_phrase (f : Factor ν) : f.phrase.leftSpine = [] := by
  obtain ⟨ops, operand⟩ := f
  cases ops <;> rfl

theorem ordered_phrase {arity : ν → Nat} (priority : ν → Nat) {f : Factor ν}
    (h : ∀ op ∈ f.prefixes, arity op = 1) : f.phrase.Ordered arity priority := by
  obtain ⟨ops, operand⟩ := f
  induction ops with
  | nil => trivial
  | cons op rest ih =>
    obtain ⟨hop, hrest⟩ := List.forall_mem_cons.mp h
    refine ⟨hop, ?_, ih hrest⟩
    rw [show (rest.foldr Phrase.unary (.leaf operand)).leftSpine = [] from leftSpine_phrase ⟨rest, operand⟩]
    exact fun b hb => by cases hb

end Factor

/-- A text: a factor, then binary operators with a factor behind each. -/
structure Chain (ν : Type) where
  first : Factor ν
  rest : List (ν × Factor ν)
  deriving DecidableEq, Repr

namespace Chain

def tokens (c : Chain ν) : List (Token ν) :=
  c.first.tokens ++ c.rest.flatMap fun p => .operator p.1 :: p.2.tokens

/-- Operators stand where their arity allows. -/
structure Fits (arity : ν → Nat) (c : Chain ν) : Prop where
  first : ∀ op ∈ c.first.prefixes, arity op = 1
  rest : ∀ p ∈ c.rest, arity p.1 = 2 ∧ ∀ op ∈ p.2.prefixes, arity op = 1

/-- The text read by priorities, one binary operator after another. -/
def phrase (priority : ν → Nat) (c : Chain ν) : Phrase ν :=
  c.rest.foldl (fun t p => t.extend priority p.1 p.2.phrase) c.first.phrase

/-- The binary operators folded to the left, whatever their priorities. -/
def leftFold (c : Chain ν) : Phrase ν :=
  c.rest.foldl (fun t p => .binary p.1 t p.2.phrase) c.first.phrase

variable {arity priority : ν → Nat}

theorem extends_spec {t : Phrase ν} (ht : t.Ordered arity priority) (rest : List (ν × Factor ν))
    (h : ∀ p ∈ rest, arity p.1 = 2 ∧ ∀ op ∈ p.2.prefixes, arity op = 1) :
    (rest.foldl (fun t p => t.extend priority p.1 p.2.phrase) t).Ordered arity priority ∧
      (rest.foldl (fun t p => t.extend priority p.1 p.2.phrase) t).tokens =
        t.tokens ++ rest.flatMap fun p => .operator p.1 :: p.2.tokens := by
  induction rest generalizing t with
  | nil => exact ⟨ht, (List.append_nil _).symm⟩
  | cons p rest ih =>
    obtain ⟨⟨hb, hops⟩, hrest⟩ := List.forall_mem_cons.mp h
    obtain ⟨hord, htok⟩ :=
      ih (ht.extend (Factor.ordered_phrase priority hops) hb p.2.leftSpine_phrase) hrest
    refine ⟨hord, ?_⟩
    rw [List.foldl_cons, htok, Phrase.tokens_extend, Factor.tokens_phrase, List.flatMap_cons, List.append_assoc]

theorem ordered_phrase {c : Chain ν} (h : c.Fits arity) : (c.phrase priority).Ordered arity priority :=
  (extends_spec (Factor.ordered_phrase priority h.first) c.rest h.rest).1

theorem tokens_phrase {c : Chain ν} (h : c.Fits arity) : (c.phrase priority).tokens = c.tokens := by
  rw [phrase, (extends_spec (Factor.ordered_phrase priority h.first) c.rest h.rest).2, Factor.tokens_phrase]
  rfl

/-- Where priority is arity, every operator yields to a binary one. -/
theorem phrase_arity {c : Chain ν} (h : c.Fits arity) : c.phrase arity = c.leftFold := by
  obtain ⟨first, rest⟩ := c
  have hfold {t : Phrase ν} (ht : t.Ordered arity arity)
      (hrest : ∀ p ∈ rest, arity p.1 = 2 ∧ ∀ op ∈ p.2.prefixes, arity op = 1) :
      rest.foldl (fun t p => t.extend arity p.1 p.2.phrase) t =
        rest.foldl (fun t p => .binary p.1 t p.2.phrase) t := by
    clear h
    induction rest generalizing t with
    | nil => rfl
    | cons p rest ih =>
      obtain ⟨⟨hb, hops⟩, hrest⟩ := List.forall_mem_cons.mp hrest
      have hy : t.Yields arity p.1 := fun o ho => by
        have := ht.arity_rightSpine arity arity o ho
        omega
      have hord := ht.extend (Factor.ordered_phrase arity hops) hb p.2.leftSpine_phrase
      rw [List.foldl_cons, List.foldl_cons, ih hord hrest, Phrase.extend_of_yields hy]
  exact hfold (Factor.ordered_phrase arity h.first) h.rest

end Chain

end BusLogic.Expression
