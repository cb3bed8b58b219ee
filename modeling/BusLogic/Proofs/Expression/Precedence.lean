import Mathlib.Data.List.Basic
import BusLogic.Expression.Signal
import BusLogic.Proofs.Expression.Phrase
import BusLogic.Proofs.Expression.Steps

/-! The compiler reads a text by priorities.

Feeding the tokens of an ordered tree and compiling resolves the operators of the
tree in post-order (`Phrase.Visits`), each with what its children became. What has
been fed is always a tree whose right spine still waits on the stacks
(`feed_tokens`): the operators of the spine are there, the deepest on top, and what
stands to their left is resolved. Since the tokens alone decide what the compiler
does, no two ordered trees read the same. -/
namespace BusLogic.Expression
open Attempt

variable {ν σ : Type}

/-- A call of the compiler to its nodes: an operator and its children. -/
abbrev Call (ν : Type) := ν × List ν

section Visits
variable [Node ν σ]

/-- Resolving the operators of a tree in post-order, from state `s`, makes these
calls, ends in state `s'`, and the root becomes `r`. -/
inductive Phrase.Visits : Phrase ν → (s : σ) → List (Call ν) → (r : ν) → (s' : σ) → Prop
  | leaf (node : ν) (s : σ) : Visits (.leaf node) s [] node s
  | unary {op x r : ν} {child : Phrase ν} {s s₁ s₂ : σ} {calls : List (Call ν)} :
    Visits child s calls x s₁ → outcome (Node.resolve op [x]) s₁ = (.ok r, s₂) →
    Visits (.unary op child) s (calls ++ [(op, [x])]) r s₂
  | binary {op x y r : ν} {left right : Phrase ν} {s s₁ s₂ s₃ : σ} {calls calls' : List (Call ν)} :
    Visits left s calls x s₁ → Visits right s₁ calls' y s₂ →
    outcome (Node.resolve op [x, y]) s₂ = (.ok r, s₃) →
    Visits (.binary op left right) s (calls ++ calls' ++ [(op, [x, y])]) r s₃

/-- Prefix and binary operators resolve, given as many children as they ask for. -/
def Resolvable (ν : Type) {σ : Type} [Node ν σ] : Prop :=
  ∀ (node : ν) (children : List ν) (s : σ), Node.arity node = 1 ∨ Node.arity node = 2 →
    children.length = Node.arity node → ∃ r s', outcome (Node.resolve node children) s = (.ok r, s')

/-- Where operators resolve, every ordered tree can be visited. -/
theorem Phrase.exists_visits (h : Resolvable ν) {priority : ν → Nat} {t : Phrase ν}
    (ht : t.Ordered Node.arity priority) (s : σ) : ∃ calls r s', t.Visits s calls r s' := by
  induction t generalizing s with
  | leaf node => exact ⟨[], node, s, .leaf node s⟩
  | unary op child ih =>
    obtain ⟨harity, _, hchild⟩ := ht
    obtain ⟨calls, x, s₁, hv⟩ := ih hchild s
    obtain ⟨r, s₂, hr⟩ := h op [x] s₁ (.inl harity) harity.symm
    exact ⟨_, r, s₂, .unary hv hr⟩
  | binary op left right ihl ihr =>
    obtain ⟨harity, _, _, hleft, hright⟩ := ht
    obtain ⟨calls, x, s₁, hvl⟩ := ihl hleft s
    obtain ⟨calls', y, s₂, hvr⟩ := ihr hright s₁
    obtain ⟨r, s₃, hr⟩ := h op [x, y] s₂ (.inr harity) harity.symm
    exact ⟨_, r, s₃, .binary hvl hvr hr⟩

/-! ### Feeding a tree -/

def feed : Token ν → Step ν σ Unit
  | .operand node => addOperand node
  | .operator node => addOperator node

def feedAll : List (Token ν) → Step ν σ Unit
  | [] => pure ()
  | token :: rest => do
    feed token
    feedAll rest

/-- Compiles a whole text. -/
def compileText (tokens : List (Token ν)) : Step ν σ ν := do
  feedAll tokens
  compile

theorem outcome_feedAll_append {ts us : List (Token ν)} {x y : Expression ν × σ}
    (h : outcome (feedAll ts : Step ν σ Unit) x = (.ok (), y)) :
    outcome (feedAll (ts ++ us) : Step ν σ Unit) x = outcome (feedAll us : Step ν σ Unit) y := by
  induction ts generalizing x with
  | nil =>
    cases h
    rfl
  | cons token rest ih =>
    obtain ⟨_, x₁, hfirst, hrest⟩ := outcome_bind_ok h
    rw [List.cons_append, feedAll, outcome_bind, hfirst]
    exact ih hrest

/-- An operator leaves the stack with its children, once `p` lets it. -/
theorem outcome_reduceWhile_resolve {p : ν → Bool} {op r : ν} (children : List ν) {rest vals : List ν}
    {last : Category} {s s' : σ} (hp : p op) (harity : Node.arity op = children.length)
    (hpos : children ≠ []) (hr : outcome (Node.resolve op children) s = (.ok r, s')) :
    outcome (reduceWhile p (op :: rest) : Step ν σ Unit)
        (⟨children.reverse ++ vals, op :: rest, last⟩, s) =
      outcome (reduceWhile p rest : Step ν σ Unit) (⟨r :: vals, rest, last⟩, s') := by
  have hlen : children.length = children.reverse.length := List.length_reverse.symm
  rw [outcome_reduceWhile_cons, if_pos hp, outcome_reduce]
  dsimp only
  rw [if_neg, harity, hlen, List.take_left, List.drop_left, List.reverse_reverse, hr]
  rintro (h0 | hlt)
  · exact hpos (List.eq_nil_of_length_eq_zero (harity ▸ h0))
  · rw [harity, List.length_append, List.length_reverse] at hlt
    omega

/-- After the tokens of an ordered tree its right spine waits on the stacks, on top of
what was there, with all to the left of the spine resolved; reducing the spine then
completes the visit. The tree must not begin with an operator that the one on top of
the stack yields to. -/
theorem feed_tokens {t : Phrase ν} {calls : List (Call ν)} {r : ν} {s s' : σ}
    (hv : t.Visits s calls r s') (ht : t.Ordered Node.arity Node.priority) (e : Expression ν)
    (hlast : e.last.accepts .operand ∧ e.last.accepts .unary)
    (htop : ∀ b ∈ t.leftSpine, ∀ top ∈ e.operators.head?, Node.priority b < Node.priority top) :
    ∃ xs s₁, outcome (feedAll t.tokens : Step ν σ Unit) (e, s) =
        (.ok (), (⟨xs ++ e.operands, t.rightSpine.reverse ++ e.operators, .operand⟩, s₁)) ∧
      ∀ (p : ν → Bool) (vals rest : List ν) (last : Category), (∀ o ∈ t.rightSpine, p o) →
        outcome (reduceWhile p (t.rightSpine.reverse ++ rest) : Step ν σ Unit)
            (⟨xs ++ vals, t.rightSpine.reverse ++ rest, last⟩, s₁) =
          outcome (reduceWhile p rest : Step ν σ Unit) (⟨r :: vals, rest, last⟩, s') := by
  induction hv generalizing e with
  | leaf node s =>
    refine ⟨[node], s, ?_, fun p vals rest last _ => rfl⟩
    rw [Phrase.tokens, feedAll, outcome_bind]
    simp only [feed]
    rw [outcome_addOperand, if_pos hlast.1]
    rfl
  | @unary op x r child s s₁ s₂ calls hchild hr ih =>
    obtain ⟨harity, hleft, hord⟩ := ht
    obtain ⟨xs, s₀, hfeed, hclose⟩ := ih hord ⟨e.operands, op :: e.operators, .unary⟩ ⟨rfl, rfl⟩
      (fun b hb top htop => by cases htop; exact hleft b hb)
    have hspine (rest : List ν) :
        (Phrase.unary op child).rightSpine.reverse ++ rest = child.rightSpine.reverse ++ op :: rest := by
      simp [Phrase.rightSpine]
    refine ⟨xs, s₀, ?_, fun p vals rest last hp => ?_⟩
    · rw [Phrase.tokens, feedAll, outcome_bind]
      simp only [feed]
      rw [outcome_addOperator_unary harity, if_pos hlast.2, hspine]
      exact hfeed
    · obtain ⟨hop, hp⟩ := List.forall_mem_cons.mp hp
      rw [hspine, hclose p vals (op :: rest) last hp]
      exact outcome_reduceWhile_resolve [x] hop harity (List.cons_ne_nil _ _) hr
  | @binary op x y r left right s s₁ s₂ s₃ calls calls' hl hr hres ihl ihr =>
    obtain ⟨harity, hyield, hleft, hordl, hordr⟩ := ht
    obtain ⟨htop₀, htopl⟩ := List.forall_mem_cons.mp htop
    obtain ⟨xs, sl, hfeedl, hclosel⟩ := ihl hordl e hlast htopl
    obtain ⟨ys, sr, hfeedr, hcloser⟩ := ihr hordr ⟨x :: e.operands, op :: e.operators, .binary⟩ ⟨rfl, rfl⟩
      (fun b hb top htop => by cases htop; exact hleft b hb)
    have hspine (rest : List ν) :
        (Phrase.binary op left right).rightSpine.reverse ++ rest = right.rightSpine.reverse ++ op :: rest := by
      simp [Phrase.rightSpine]
    have hadd : outcome (addOperator op : Step ν σ Unit)
        (⟨xs ++ e.operands, left.rightSpine.reverse ++ e.operators, .operand⟩, sl) =
          (.ok (), (⟨x :: e.operands, op :: e.operators, .binary⟩, s₁)) := by
      rw [outcome_addOperator_binary harity, if_pos (show Category.operand.accepts .binary = true from rfl)]
      dsimp only
      rw [hclosel _ e.operands e.operators .binary (fun o ho => decide_eq_true (hyield o ho)),
        outcome_reduceWhile_stop]
      exact fun top htop => decide_eq_false (Nat.not_le_of_lt (htop₀ top htop))
    refine ⟨ys ++ [x], sr, ?_, fun p vals rest last hp => ?_⟩
    · rw [Phrase.tokens, outcome_feedAll_append hfeedl, feedAll, outcome_bind]
      simp only [feed]
      rw [hadd, hspine, List.append_assoc]
      exact hfeedr
    · obtain ⟨hop, hp⟩ := List.forall_mem_cons.mp hp
      rw [hspine, List.append_assoc]
      rw [show [x] ++ vals = x :: vals from rfl, hcloser p (x :: vals) (op :: rest) last hp]
      exact outcome_reduceWhile_resolve [x, y] hop harity (List.cons_ne_nil _ _) hres

/-- Compiling the text of an ordered tree visits the tree. -/
theorem compileText_tokens {t : Phrase ν} {calls : List (Call ν)} {r : ν} {s s' : σ}
    (hv : t.Visits s calls r s') (ht : t.Ordered Node.arity Node.priority) :
    outcome (compileText t.tokens : Step ν σ ν) (.empty, s) = (.ok r, (⟨[r], [], .finish⟩, s')) := by
  obtain ⟨xs, s₁, hfeed, hclose⟩ := feed_tokens hv ht .empty ⟨rfl, rfl⟩ (fun b _ top h => by cases h)
  have hreduce := hclose (fun _ => true) [] [] .finish fun _ _ => rfl
  rw [outcome_reduceWhile_nil] at hreduce
  rw [compileText, outcome_bind, hfeed]
  dsimp only
  rw [outcome_compile rfl]
  simp only [empty, List.append_nil] at hreduce ⊢
  rw [hreduce]

end Visits

/-! ### One tree only -/

/-- Nodes that become the tree they are compiled from. An operator that has not been
resolved is a leaf. -/
@[reducible] def growing (arity priority : ν → Nat) : Node (Phrase ν) Unit where
  arity
    | .leaf node => arity node
    | _ => 0
  priority
    | .leaf node => priority node
    | _ => 0
  resolve
    | .leaf op, [child] => pure (.unary op child)
    | .leaf op, [left, right] => pure (.binary op left right)
    | _, _ => throw (.malformed .empty)

theorem Phrase.visits_growing (arity priority : ν → Nat) (t : Phrase ν) :
    ∃ calls, @Visits _ _ (growing arity priority) (t.map .leaf) () calls t () := by
  let _ := growing arity priority
  induction t with
  | leaf node => exact ⟨[], .leaf _ _⟩
  | unary op child ih =>
    obtain ⟨calls, hchild⟩ := ih
    exact ⟨_, .unary hchild rfl⟩
  | binary op left right ihl ihr =>
    obtain ⟨calls, hleft⟩ := ihl
    obtain ⟨calls', hright⟩ := ihr
    exact ⟨_, .binary hleft hright rfl⟩

/-- No two ordered trees read the same. -/
theorem Phrase.Ordered.unique {arity priority : ν → Nat} {t u : Phrase ν} (ht : t.Ordered arity priority)
    (hu : u.Ordered arity priority) (h : t.tokens = u.tokens) : t = u := by
  let _ := growing arity priority
  have hmap {t : Phrase ν} (ht : t.Ordered arity priority) :
      (t.map Phrase.leaf).Ordered Node.arity Node.priority := by
    apply Phrase.Ordered.map
    exact ht
  obtain ⟨_, hvt⟩ := t.visits_growing arity priority
  obtain ⟨_, hvu⟩ := u.visits_growing arity priority
  have hcompile := compileText_tokens hvt (hmap ht)
  rw [tokens_map, h, ← tokens_map, compileText_tokens hvu (hmap hu)] at hcompile
  exact (Except.ok.inj (Prod.mk.inj hcompile).1).symm

/-! ### The calls that are made -/

/-- The same nodes, with a record of every call. -/
@[reducible] def traced (inst : Node ν σ) : Node ν (σ × List (Call ν)) where
  arity := inst.arity
  priority := inst.priority
  resolve node children := fun (s, calls) =>
    let (r, s) := outcome (inst.resolve node children) s
    (r, (s, calls ++ [(node, children)]))

theorem Phrase.Visits.traced [inst : Node ν σ] {t : Phrase ν} {s s' : σ} {calls : List (Call ν)} {r : ν}
    (h : t.Visits s calls r s') (before : List (Call ν)) :
    @Visits _ _ (Expression.traced inst) t (s, before) calls r (s', before ++ calls) := by
  have hresolve {op r : ν} {children : List ν} {s s' : σ} (log : List (Call ν))
      (hr : outcome (inst.resolve op children) s = (.ok r, s')) :
      outcome ((Expression.traced inst).resolve op children) (s, log) = (.ok r, (s', log ++ [(op, children)])) := by
    show ((outcome (inst.resolve op children) s).1, ((outcome (inst.resolve op children) s).2, _)) = _
    rw [hr]
  let _ := Expression.traced inst
  induction h generalizing before with
  | leaf node s =>
    rw [List.append_nil]
    exact .leaf node _
  | unary _ hr ih =>
    rw [← List.append_assoc]
    exact .unary (ih before) (hresolve _ hr)
  | binary _ _ hr ihl ihr =>
    rw [← List.append_assoc, ← List.append_assoc]
    exact .binary (ihl before) (ihr _) (hresolve _ hr)

/-- Whenever the tree can be visited, compiling the tokens succeeds and gives what the root
becomes, and the calls it makes are those of the visit, in their order. -/
def Phrase.Compiles [inst : Node ν σ] (t : Phrase ν) (tokens : List (Token ν)) : Prop :=
  ∀ s calls r s', t.Visits s calls r s' →
    (∃ e, outcome (compileText tokens : Step ν σ ν) (.empty, s) = (.ok r, (e, s'))) ∧
    ∃ e, outcome (@compileText _ _ (traced inst) tokens) (.empty, (s, [])) = (.ok r, (e, (s', calls)))

theorem Phrase.Ordered.compiles [inst : Node ν σ] {t : Phrase ν} (ht : t.Ordered Node.arity Node.priority) :
    t.Compiles t.tokens := by
  intro s calls r s' hv
  have htraced := @compileText_tokens _ _ (traced inst) _ _ _ _ _ (hv.traced []) ht
  exact ⟨⟨_, compileText_tokens hv ht⟩, ⟨_, htraced⟩⟩

/-! ### Every text -/

/-- The tree of a text is the one ordered tree that reads so. -/
theorem Chain.ordered_iff {arity priority : ν → Nat} {text : Chain ν} (h : text.Fits arity) (t : Phrase ν) :
    t.Ordered arity priority ∧ t.tokens = text.tokens ↔ t = text.phrase priority := by
  constructor
  · rintro ⟨hord, htok⟩
    exact hord.unique (ordered_phrase h) (htok.trans (tokens_phrase h).symm)
  · rintro rfl
    exact ⟨ordered_phrase h, tokens_phrase h⟩

/-- **Compiling a text visits the tree that the priorities make of it.** There is exactly
one ordered tree that reads as the text. Whenever it can be visited, compiling succeeds,
and the calls it makes are those of a visit to the tree in post-order, each with what its
children became; and where operators resolve, given as many children as they ask for, it
can be visited from every state. Over buses, where priority is arity, that tree applies
prefix operators first and folds the binary ones to the left. -/
theorem compileText_postorder [Node ν σ] (text : Chain ν) (hfits : text.Fits Node.arity) :
    (∃ t : Phrase ν,
      (∀ u : Phrase ν, u.Ordered Node.arity Node.priority ∧ u.tokens = text.tokens ↔ u = t) ∧
      t.Compiles text.tokens ∧ (Resolvable ν → ∀ s, ∃ calls r s', t.Visits s calls r s')) ∧
    ∀ signals : Chain Signal, signals.Fits Signal.arity →
      (∀ u : Phrase Signal, u.Ordered Node.arity Node.priority ∧ u.tokens = signals.tokens ↔ u = signals.leftFold) ∧
      signals.leftFold.Compiles signals.tokens := by
  constructor
  · have hord : (text.phrase Node.priority).Ordered Node.arity Node.priority := Chain.ordered_phrase hfits
    refine ⟨text.phrase Node.priority, Chain.ordered_iff hfits, ?_, fun hres => Phrase.exists_visits hres hord⟩
    rw [← Chain.tokens_phrase hfits]
    exact hord.compiles
  · intro signals hsignals
    have htree : ∀ u : Phrase Signal, u.Ordered Signal.arity Signal.arity ∧ u.tokens = signals.tokens ↔
        u = signals.phrase Signal.arity := Chain.ordered_iff hsignals
    rw [Chain.phrase_arity hsignals] at htree
    obtain ⟨hord, htok⟩ := (htree signals.leftFold).mpr rfl
    refine ⟨htree, ?_⟩
    rw [← htok]
    exact Phrase.Ordered.compiles hord

/-! A text whose operators wait in no order of their priorities: `- a * - b + c`, where
`*` binds tighter than `-` and `+` weaker. -/

/-- Nodes that write out what they become, and want one child or two. -/
structure Inscription where
  text : List Char
  arity : Nat
  priority : Nat
  deriving DecidableEq

/-- The state counts the operators that have been resolved. -/
instance : Node Inscription Nat where
  arity := Inscription.arity
  priority := Inscription.priority
  resolve
    | ⟨text, 1, _⟩, [x] => do
      modify (· + 1)
      pure ⟨text ++ x.text, 0, 0⟩
    | ⟨text, 2, _⟩, [x, y] => do
      modify (· + 1)
      pure ⟨['('] ++ x.text ++ text ++ y.text ++ [')'], 0, 0⟩
    | _, _ => throw (.malformed .empty)

theorem resolvable_inscription : Resolvable Inscription := by
  rintro ⟨text, arity, priority⟩ children s (harity | harity) hlen
  · obtain rfl : arity = 1 := harity
    obtain ⟨x, rfl⟩ := List.length_eq_one_iff.mp hlen
    exact ⟨_, _, rfl⟩
  · obtain rfl : arity = 2 := harity
    obtain ⟨x, y, rfl⟩ := List.length_eq_two.mp hlen
    exact ⟨_, _, rfl⟩

def minus : Inscription := ⟨['-'], 1, 2⟩
def times : Inscription := ⟨['*'], 2, 1⟩
def plus : Inscription := ⟨['+'], 2, 3⟩
def letter (c : Char) : Inscription := ⟨[c], 0, 0⟩

def mixedText : Chain Inscription where
  first := ⟨[minus], letter 'a'⟩
  rest := [(times, ⟨[minus], letter 'b'⟩), (plus, ⟨[], letter 'c'⟩)]

def mixedTree : Phrase Inscription :=
  .binary plus (.unary minus (.binary times (.leaf (letter 'a')) (.unary minus (.leaf (letter 'b')))))
    (.leaf (letter 'c'))

/-- The inner operators of `- (a * - b) + c` are resolved first, four calls in all. -/
theorem compileText_mixedText : mixedText.Fits Node.arity ∧
    (∀ s, ∃ calls r s', mixedTree.Visits s calls r s') ∧
    ∃ calls r, mixedTree.Visits 0 calls r 4 ∧ calls.map (fun call => call.1.text) = [['-'], ['*'], ['-'], ['+']] ∧
      r.text = "(-(a*-b)+c)".toList ∧
      ∃ e, outcome (@compileText _ _ (traced inferInstance) mixedText.tokens) (.empty, (0, [])) =
        (.ok r, (e, (4, calls))) := by
  have hfits : mixedText.Fits Node.arity := ⟨by decide, by decide⟩
  refine ⟨hfits, ?_⟩
  obtain ⟨⟨t, htree, hcompiles, hvisits⟩, _⟩ := compileText_postorder mixedText hfits
  obtain rfl : mixedTree = t := (htree mixedTree).mp ⟨by decide, by decide⟩
  have hclosed : mixedTree.Visits 0 [(minus, [letter 'b']), (times, [letter 'a', ⟨['-', 'b'], 0, 0⟩]),
      (minus, [⟨"(a*-b)".toList, 0, 0⟩]), (plus, [⟨"-(a*-b)".toList, 0, 0⟩, letter 'c'])]
      ⟨"(-(a*-b)+c)".toList, 0, 0⟩ 4 :=
    .binary (.unary (.binary (.leaf _ _) (.unary (.leaf _ _) rfl) rfl) rfl) (.leaf _ _) rfl
  exact ⟨hvisits resolvable_inscription, _, _, hclosed, rfl, rfl, (hcompiles _ _ _ _ hclosed).2⟩

end BusLogic.Expression
