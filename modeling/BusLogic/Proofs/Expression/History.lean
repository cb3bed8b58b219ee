import BusLogic.Proofs.Expression.Precedence
import BusLogic.Proofs.Expression.Stacks

/-! Whatever the compiler has been fed.

Tokens may arrive in any order, and a token that is refused does not end the text. Which
tokens are let in depends on their categories alone (`accepted`), and whatever they were,
and however resolving went, the stacks are balanced (`balanced_attempted`): a reduction
that fails has taken an operator off with all its operands, after a binary operator was
let in that waits for none of them. So the stacks never run out, and a step that lets its
token in fails only by the answer of a call to the nodes (`Answers`). -/
namespace BusLogic.Expression
open Attempt

variable {ν σ : Type}

/-- A call to the nodes and its answer. -/
structure Resolution (ν : Type) where
  node : ν
  children : List ν
  answer : Except Error ν

/-- The same nodes, with a record of every call and its answer. -/
@[reducible] def recorded (inst : Node ν σ) : Node ν (σ × List (Resolution ν)) where
  arity := inst.arity
  priority := inst.priority
  resolve node children := fun (s, made) =>
    let (r, s) := outcome (inst.resolve node children) s
    (r, (s, made ++ [⟨node, children, r⟩]))

/-- How a step ends is what its calls answered: it succeeds if all of them did, and fails
with the answer of the last. -/
def Explains {α : Type} (made : List (Resolution ν)) : Except Error α → Prop
  | .ok _ => ∀ call ∈ made, ∃ r, call.answer = .ok r
  | .error err => ∃ before last, made = before ++ [last] ∧ last.answer = .error err ∧
    ∀ call ∈ before, ∃ r, call.answer = .ok r

/-- With a record kept a step does the same, and the calls on record explain how it ends. -/
def Answers {α : Type} (x : Step ν σ α) (x' : Step ν (σ × List (Resolution ν)) α) (e : Expression ν) (s : σ) : Prop :=
  ∀ log, ∃ r e' s' made, outcome x (e, s) = (r, (e', s')) ∧ outcome x' (e, (s, log)) = (r, (e', (s', log ++ made))) ∧
    Explains made r

theorem Explains.cons {α : Type} {made : List (Resolution ν)} {r : Except Error α} {call : Resolution ν} {x : ν}
    (hcall : call.answer = .ok x) (h : Explains made r) : Explains (call :: made) r := by
  cases r with
  | ok a => exact List.forall_mem_cons.mpr ⟨⟨x, hcall⟩, h⟩
  | error err =>
    obtain ⟨before, last, rfl, hlast, hbefore⟩ := h
    exact ⟨call :: before, last, rfl, hlast, List.forall_mem_cons.mpr ⟨⟨x, hcall⟩, hbefore⟩⟩

/-- The error of a step is among the answers. -/
theorem Answers.blames {α : Type} {x : Step ν σ α} {x' : Step ν (σ × List (Resolution ν)) α} {e : Expression ν}
    {s : σ} {err : Error} (h : Answers x x' e s) (herr : (outcome x (e, s)).1 = .error err) :
    ∃ call ∈ (outcome x' (e, (s, []))).2.2.2, call.answer = .error err := by
  obtain ⟨r, e', s', made, hplain, hrecord, hexplains⟩ := h []
  rw [hplain] at herr
  cases herr
  obtain ⟨before, last, rfl, hanswer, _⟩ := hexplains
  rw [hrecord]
  exact ⟨last, by simp, hanswer⟩

/-- A step without calls. -/
theorem Answers.silent {α : Type} {x : Step ν σ α} {x' : Step ν (σ × List (Resolution ν)) α} {e e' : Expression ν}
    {s : σ} {a : α} (h : outcome x (e, s) = (.ok a, (e', s)))
    (h' : ∀ log, outcome x' (e, (s, log)) = (.ok a, (e', (s, log)))) : Answers x x' e s := by
  intro log
  refine ⟨.ok a, e', s, [], h, ?_, nofun⟩
  rw [h' log, List.append_nil]

section Reducing
variable [inst : Node ν σ] {e e' : Expression ν} {node : ν} {rest waiting : List ν} {p : ν → Bool} {s s' : σ}
  {err : Error}

theorem outcome_recorded (children : List ν) (log : List (Resolution ν)) :
    outcome ((recorded inst).resolve node children) (s, log) =
      ((outcome (inst.resolve node children) s).1, ((outcome (inst.resolve node children) s).2,
        log ++ [⟨node, children, (outcome (inst.resolve node children) s).1⟩])) := rfl

/-- Reducing fails only by what a call answers. -/
theorem answers_reduceWhile (he : e.Stacked 1) (hwait : e.operators = waiting) :
    Answers (reduceWhile p waiting) (@reduceWhile _ _ (recorded inst) p waiting) e s := by
  induction waiting generalizing e s with
  | nil => exact .silent (a := ()) rfl fun _ => rfl
  | cons top rest ih =>
    by_cases hp : p top
    · intro log
      have hpos := he.arity_ne_zero hwait
      have hle := he.arity_le hwait
      have hplain := @outcome_reduceWhile_top ν σ inst e top rest p s hp hpos hle
      have hrecord := @outcome_reduceWhile_top _ _ (recorded inst) e top rest p (s, log) hp hpos hle
      rw [outcome_recorded] at hrecord
      generalize outcome (Node.resolve top (e.operands.take (Node.arity top)).reverse) s = answer at hplain hrecord
      rcases answer with ⟨err | r, s₁⟩
      · exact ⟨.error err, _, s₁, [_], hplain, hrecord, [], _, rfl, rfl, nofun⟩
      · let call : Resolution ν := ⟨top, (e.operands.take (Node.arity top)).reverse, .ok r⟩
        obtain ⟨r', e', s', made, hrest, hrest', hexplains⟩ := ih (he.replace hwait r) rfl (log ++ [call])
        have hcall : call.answer = .ok r := rfl
        refine ⟨r', e', s', call :: made, hplain.trans hrest, hrecord.trans (hrest'.trans ?_), hexplains.cons hcall⟩
        rw [List.append_assoc]
        rfl
    · have hstop : outcome (reduceWhile p (top :: rest) : Step ν σ Unit) (e, s) = (.ok (), (e, s)) := by
        rw [outcome_reduceWhile_cons, if_neg hp]
      refine .silent hstop fun log => ?_
      rw [@outcome_reduceWhile_cons _ _ (recorded inst), if_neg hp]

end Reducing

/-! ### What is let in -/

/-- An operator that takes neither one operand nor two has no category. -/
def Token.category? [Node ν σ] : Token ν → Option Category
  | .operand _ => some .operand
  | .operator node =>
    if Node.arity node = 1 then some .unary else if Node.arity node = 2 then some .binary else none

/-- A binary operator follows an operand; operands and prefix operators follow all else. -/
def Category.admits : Category → Category → Bool
  | .operand, next => next == .binary
  | .start, next | .unary, next | .binary, next => next == .operand || next == .unary
  | .finish, _ => false

/-- The categories of the tokens that were let in, the latest first. -/
def accepted [Node ν σ] (history : List (Token ν)) : List Category :=
  history.foldl (fun seen token => (token.category?.filter (seen.headD .start).admits).toList ++ seen) []

/-- What a history of calls leaves, whether they succeeded or not. -/
def attempted [Node ν σ] (history : List (Token ν)) (t : Expression ν × σ) : Expression ν × σ :=
  history.foldl (fun t token => (outcome (feed token : Step ν σ Unit) t).2) t

theorem Category.admits_eq {last next : Category} (h : next ≠ .finish) : last.admits next = last.accepts next := by
  cases last <;> cases next <;> first | rfl | exact absurd rfl h

section Feeding
variable [inst : Node ν σ] {e : Expression ν} {token : Token ν} {next : Category} {s : σ}

theorem Token.category?_cases (h : token.category? = some next) :
    (∃ node, token = .operand node ∧ next = .operand) ∨
      (∃ node, token = .operator node ∧ Node.arity node = 1 ∧ next = .unary) ∨
      ∃ node, token = .operator node ∧ Node.arity node = 2 ∧ next = .binary := by
  cases token with
  | operand node =>
    cases h
    exact .inl ⟨node, rfl, rfl⟩
  | operator node =>
    rw [category?] at h
    split at h
    · rename_i hn
      cases h
      exact .inr (.inl ⟨node, rfl, hn, rfl⟩)
    · split at h
      · rename_i hn
        cases h
        exact .inr (.inr ⟨node, rfl, hn, rfl⟩)
      · cases h

theorem Token.category?_proper (h : token.category? = some next) :
    next = .operand ∨ next = .unary ∨ next = .binary := by
  rcases category?_cases h with ⟨_, _, rfl⟩ | ⟨_, _, _, rfl⟩ | ⟨_, _, _, rfl⟩ <;> simp

theorem Token.accepts_eq (h : token.category? = some next) (last : Category) :
    last.accepts next = last.admits next := by
  rw [Category.admits_eq]
  rintro rfl
  rcases category?_proper h with h | h | h <;> cases h

theorem outcome_addOperator_other {node : ν} (hone : Node.arity node ≠ 1) (htwo : Node.arity node ≠ 2) :
    outcome (addOperator node : Step ν σ Unit) (e, s) =
      (.error (.malformed (.operatorArity (Node.arity node))), (e, s)) := by
  unfold addOperator
  split
  · rename_i hn
    exact absurd hn hone
  · rename_i hn
    exact absurd hn htwo
  · rename_i n hn _
    rfl

/-- A token out of place is refused, and nothing changes. -/
theorem outcome_feed_refused (h : token.category? = some next) (ha : e.last.admits next = false) :
    outcome (feed token : Step ν σ Unit) (e, s) = (.error (.unexpectedToken e.last next), (e, s)) := by
  rw [← Token.accepts_eq h] at ha
  have hrefused : ¬ e.last.accepts next = true := Bool.eq_false_iff.mp ha
  rcases Token.category?_cases h with ⟨node, rfl, rfl⟩ | ⟨node, rfl, hn, rfl⟩ | ⟨node, rfl, hn, rfl⟩
  · exact (outcome_addOperand node e s).trans (if_neg hrefused)
  · exact (outcome_addOperator_unary hn e s).trans (if_neg hrefused)
  · exact (outcome_addOperator_binary hn e s).trans (if_neg hrefused)

/-- A token that is let in is the last, even where resolving an operator in front of it
fails, and the stacks are balanced. -/
theorem balanced_feed (he : e.Balanced) (h : token.category? = some next) (ha : e.last.admits next = true) :
    (outcome (feed token : Step ν σ Unit) (e, s)).2.1.Balanced ∧
      (outcome (feed token : Step ν σ Unit) (e, s)).2.1.last = next := by
  rw [← Token.accepts_eq h] at ha
  rcases Token.category?_cases h with ⟨node, rfl, rfl⟩ | ⟨node, rfl, hn, rfl⟩ | ⟨node, rfl, hn, rfl⟩
  · have hok : outcome (feed (.operand node) : Step ν σ Unit) (e, s) = _ :=
      (outcome_addOperand node e s).trans (if_pos ha)
    rw [hok]
    exact ⟨he.push ha node, rfl⟩
  · have hok : outcome (feed (.operator node) : Step ν σ Unit) (e, s) = _ :=
      (outcome_addOperator_unary hn e s).trans (if_pos ha)
    have hbalanced := balanced_addOperator he hok
    rw [hok]
    exact ⟨hbalanced, rfl⟩
  · have hout : outcome (feed (.operator node) : Step ν σ Unit) (e, s) = _ :=
      (outcome_addOperator_binary hn e s).trans (if_pos ha)
    rw [Balanced, if_pos (Category.accepts_binary ha)] at he
    have hone : Stacked 1 { e with last := .binary } := ⟨he.arity, he.count⟩
    rw [hout]
    generalize hr : outcome (reduceWhile (fun top => Node.priority top ≤ Node.priority node) e.operators :
      Step ν σ Unit) ({ e with last := .binary }, s) = r
    rcases r with ⟨err | u, e', s'⟩
    · obtain ⟨hzero, hlast⟩ := stacked_reduceWhile_error hone rfl hr
      exact ⟨by rw [Balanced, hlast]; exact hzero, hlast⟩
    · obtain ⟨hkept, hlast, _⟩ := stacked_reduceWhile hone rfl hr
      refine ⟨⟨List.forall_mem_cons.mpr ⟨.inr hn, hkept.arity⟩, ?_⟩, hlast⟩
      simp [binaries_cons, hn, hlast, hkept.count]

/-- A token that is let in fails only by what a call answers. -/
theorem answers_feed (he : e.Balanced) (h : token.category? = some next) (ha : e.last.admits next = true) :
    Answers (feed token) (@feed _ _ (recorded inst) token) e s := by
  rw [← Token.accepts_eq h] at ha
  rcases Token.category?_cases h with ⟨node, rfl, rfl⟩ | ⟨node, rfl, hn, rfl⟩ | ⟨node, rfl, hn, rfl⟩
  · exact .silent ((outcome_addOperand node e s).trans (if_pos ha)) fun log =>
      (outcome_addOperand node e (s, log)).trans (if_pos ha)
  · exact .silent ((outcome_addOperator_unary hn e s).trans (if_pos ha)) fun log =>
      (@outcome_addOperator_unary _ _ (recorded inst) _ hn e (s, log)).trans (if_pos ha)
  · intro log
    rw [Balanced, if_pos (Category.accepts_binary ha)] at he
    have hone : Stacked 1 { e with last := .binary } := ⟨he.arity, he.count⟩
    have hanswers : Answers (reduceWhile (fun top => Node.priority top ≤ Node.priority node) e.operators)
        (@reduceWhile _ _ (recorded inst) (fun top => (recorded inst).priority top ≤ (recorded inst).priority node)
          e.operators)
        { e with last := .binary } s := answers_reduceWhile hone rfl
    obtain ⟨r, e', s', made, hplain, hrecord, hexplains⟩ := hanswers log
    have hout : outcome (feed (.operator node) : Step ν σ Unit) (e, s) = _ :=
      (outcome_addOperator_binary hn e s).trans (if_pos ha)
    have hout' : outcome (@feed _ _ (recorded inst) (.operator node)) (e, (s, log)) = _ :=
      (@outcome_addOperator_binary _ _ (recorded inst) _ hn e (s, log)).trans (if_pos ha)
    rw [hplain] at hout
    rw [hrecord] at hout'
    cases r with
    | ok u => exact ⟨.ok (), _, s', made, hout, hout', hexplains⟩
    | error err => exact ⟨.error err, e', s', made, hout, hout', hexplains⟩

/-- The text does not end where an operand is missing. -/
theorem outcome_compile_refused (hlast : e.last = .unary ∨ e.last = .binary) :
    outcome (compile : Step ν σ ν) (e, s) = (.error (.unexpectedToken e.last .finish), (e, s)) := by
  rw [compile, outcome_bind, outcome_get]
  dsimp only
  rcases hlast with hlast | hlast
  · rw [if_neg (by simp [hlast]), outcome_bind, outcome_accept, if_neg (by simp [hlast, Category.accepts])]
  · rw [if_neg (by simp [hlast]), outcome_bind, outcome_accept, if_neg (by simp [hlast, Category.accepts])]

theorem outcome_compile_empty (hstart : e.last = .start) :
    outcome (compile : Step ν σ ν) (e, s) = (.error (.malformed .empty), (e, s)) := by
  rw [compile, outcome_bind, outcome_get]
  dsimp only
  rw [if_pos hstart]
  rfl

/-- After an operand, the end of the text fails only by what a call answers. -/
theorem answers_compile (he : e.Balanced) (hlast : e.last = .operand) :
    Answers compile (@compile _ _ (recorded inst)) e s := by
  intro log
  rw [Balanced, if_pos hlast] at he
  have hone : Stacked 1 { e with last := .finish } := ⟨he.arity, he.count⟩
  have hanswers : Answers (reduceWhile (fun _ => true) e.operators)
      (@reduceWhile _ _ (recorded inst) (fun _ => true) e.operators) { e with last := .finish } s :=
    answers_reduceWhile hone rfl
  obtain ⟨r, e', s', made, hplain, hrecord, hexplains⟩ := hanswers log
  have hout := outcome_compile hlast s
  have hout' := @outcome_compile _ _ (recorded inst) _ hlast (s, log)
  rw [hplain] at hout
  rw [hrecord] at hout'
  cases r with
  | error err => exact ⟨.error err, e', s', made, hout, hout', hexplains⟩
  | ok u =>
    obtain ⟨hkept, _, hnone⟩ := stacked_reduceWhile hone rfl hplain
    obtain ⟨node, hnode⟩ := hkept.single fun top htop => absurd (hnone top htop) (by simp)
    dsimp only at hout hout'
    rw [hnode] at hout hout'
    exact ⟨.ok node, e', s', made, hout, hout', hexplains⟩

end Feeding

/-! ### Any history -/

section Histories
variable [inst : Node ν σ]

theorem outcome_feed_none {token : Token ν} (h : token.category? = none) (e : Expression ν) (s : σ) :
    ∃ n, outcome (feed token : Step ν σ Unit) (e, s) = (.error (.malformed (.operatorArity n)), (e, s)) := by
  cases token with
  | operand node => cases h
  | operator node =>
    rw [Token.category?] at h
    split at h
    · cases h
    · split at h
      · cases h
      · rename_i hone htwo
        exact ⟨_, outcome_addOperator_other hone htwo⟩

/-- The stacks are balanced, the last category is that of the token let in last, and no
other categories are let in than those of tokens. -/
structure Follows (seen : List Category) (e : Expression ν) : Prop where
  balanced : e.Balanced
  last : e.last = seen.headD .start
  proper : ∀ c ∈ seen, c = .operand ∨ c = .unary ∨ c = .binary

/-- One more call, however it ends. -/
theorem Follows.feed {seen : List Category} {t : Expression ν × σ} (h : t.1.Follows seen) (token : Token ν) :
    (outcome (feed token : Step ν σ Unit) t).2.1.Follows
      ((token.category?.filter (seen.headD .start).admits).toList ++ seen) := by
  obtain ⟨e, s⟩ := t
  cases hcat : token.category? with
  | none =>
    obtain ⟨n, hrefused⟩ := outcome_feed_none hcat e s
    rw [hrefused]
    exact h
  | some next =>
    rw [← h.last]
    cases ha : e.last.admits next with
    | false =>
      rw [outcome_feed_refused hcat ha, Option.filter_some, ha]
      exact h
    | true =>
      obtain ⟨hbalanced, hlast⟩ := balanced_feed (s := s) h.balanced hcat ha
      rw [Option.filter_some, ha]
      exact ⟨hbalanced, hlast, List.forall_mem_cons.mpr ⟨Token.category?_proper hcat, h.proper⟩⟩

/-- Any calls, however they end. -/
theorem follows_attempted (history : List (Token ν)) (s : σ) :
    (attempted history (.empty, s)).1.Follows (accepted history) := by
  have hrun (seen : List Category) (t : Expression ν × σ) (h : t.1.Follows seen) :
      (attempted history t).1.Follows (history.foldl
        (fun seen token => (token.category?.filter (seen.headD .start).admits).toList ++ seen) seen) := by
    induction history generalizing seen t with
    | nil => exact h
    | cons token rest ih => exact ih _ _ (h.feed token)
  exact hrun [] (.empty, s) ⟨balanced_empty, rfl, nofun⟩

/-- **What a call does is decided by the tokens let in before it.** After any calls, failed
ones included, an operator of the wrong arity and a token out of place are refused, each
with its error, and leave everything as it was. Any other token fails only by what a call
to the nodes answers. The text cannot be ended before a token is let in, nor where an
operand is missing; elsewhere the end succeeds unless a call fails, and then with its
error. The stacks never run out and nothing is left on them: no error says so, unless a
call answers with it. -/
theorem history_classified (history : List (Token ν)) (s₀ : σ) (e : Expression ν) (s : σ)
    (hhistory : attempted history (.empty, s₀) = (e, s)) (last : Category)
    (hlast : (accepted history).headD .start = last) :
    e.last = last ∧
      (∀ node, Node.arity node ≠ 1 → Node.arity node ≠ 2 →
        outcome (addOperator node : Step ν σ Unit) (e, s) =
          (.error (.malformed (.operatorArity (Node.arity node))), (e, s))) ∧
      (∀ token next, token.category? = some next → last.admits next = false →
        outcome (feed token : Step ν σ Unit) (e, s) = (.error (.unexpectedToken last next), (e, s))) ∧
      (∀ token next, token.category? = some next → last.admits next = true →
        Answers (feed token) (@feed _ _ (recorded inst) token) e s) ∧
      (accepted history = [] →
        outcome (compile : Step ν σ ν) (e, s) = (.error (.malformed .empty), (e, s))) ∧
      (last = .unary ∨ last = .binary →
        outcome (compile : Step ν σ ν) (e, s) = (.error (.unexpectedToken last .finish), (e, s))) ∧
      (last = .operand → Answers compile (@compile _ _ (recorded inst)) e s) ∧
      (accepted history = [] ∨ last = .unary ∨ last = .binary ∨ last = .operand) ∧
      ∀ reason, (∃ needed available, reason = .missingOperands needed available) ∨ (∃ n, reason = .leftover n) →
        (∀ token, (outcome (feed token : Step ν σ Unit) (e, s)).1 = .error (.malformed reason) →
          ∃ call ∈ (outcome (@feed _ _ (recorded inst) token) (e, (s, []))).2.2.2,
            call.answer = .error (.malformed reason)) ∧
        ((outcome (compile : Step ν σ ν) (e, s)).1 = .error (.malformed reason) →
          ∃ call ∈ (outcome (@compile _ _ (recorded inst)) (e, (s, []))).2.2.2,
            call.answer = .error (.malformed reason)) := by
  have hfollows : e.Follows (accepted history) := by
    have hrun := follows_attempted history s₀
    rwa [hhistory] at hrun
  obtain ⟨hbalanced, hat, hproper⟩ := hfollows
  rw [hlast] at hat
  have hempty : accepted history = [] → e.last = .start := by
    intro hnil
    rw [hat, ← hlast, hnil]
    rfl
  have hcases : accepted history = [] ∨ last = .unary ∨ last = .binary ∨ last = .operand := by
    cases hseen : accepted history with
    | nil => exact .inl rfl
    | cons c rest =>
      rw [hseen] at hlast hproper
      have hc : c = last := hlast
      rcases hproper c List.mem_cons_self with h | h | h <;> simp [← hc, h]
  have hwaits : last = .unary ∨ last = .binary →
      outcome (compile : Step ν σ ν) (e, s) = (.error (.unexpectedToken last .finish), (e, s)) := by
    rw [← hat]
    exact outcome_compile_refused
  subst hat
  refine ⟨rfl, fun node => outcome_addOperator_other, fun token next => outcome_feed_refused,
    fun token next => answers_feed hbalanced, fun hnil => outcome_compile_empty (hempty hnil), hwaits,
    answers_compile hbalanced, hcases, fun reason hreason => ⟨fun token herr => ?_, fun herr => ?_⟩⟩
  · cases hcat : token.category? with
    | none =>
      obtain ⟨n, hrefused⟩ := outcome_feed_none hcat e s
      rw [hrefused] at herr
      rcases hreason with ⟨_, _, rfl⟩ | ⟨_, rfl⟩ <;> cases herr
    | some next =>
      cases ha : e.last.admits next with
      | false =>
        rw [outcome_feed_refused hcat ha] at herr
        cases herr
      | true => exact (answers_feed hbalanced hcat ha).blames herr
  · rcases hcases with hnil | hunary | hbinary | hoperand
    · rw [outcome_compile_empty (hempty hnil)] at herr
      rcases hreason with ⟨_, _, rfl⟩ | ⟨_, rfl⟩ <;> cases herr
    · rw [hwaits (.inl hunary)] at herr
      cases herr
    · rw [hwaits (.inr hbinary)] at herr
      cases herr
    · exact (answers_compile hbalanced hoperand).blames herr

end Histories

/-- Nodes that resolve operators as long as the state lasts. -/
structure Coin where
  arity : Nat
  deriving DecidableEq

instance : Node Coin Nat where
  arity := Coin.arity
  priority := Coin.arity
  resolve _ _
    | 0 => (.error (.malformed .operandWithChildren), 0)
    | n + 1 => (.ok ⟨0⟩, n)

/-- Of these tokens the second operator finds the first one waiting; the third operator is out
of place, and the fourth takes three operands. -/
def coinSample : List (Token Coin) :=
  [.operand ⟨0⟩, .operator ⟨2⟩, .operand ⟨0⟩, .operator ⟨2⟩, .operator ⟨2⟩, .operator ⟨3⟩, .operand ⟨0⟩]

/-- The first operator cannot be resolved and is lost with its operands, but the operand behind
the second is there, and the text ends well. -/
theorem history_classified_coinSample :
    accepted coinSample = [.operand, .binary, .operand, .binary, .operand] ∧
      ∃ e s, attempted coinSample (.empty, 0) = (e, s) ∧ e.last = .operand ∧
        Answers compile (@compile _ _ (recorded inferInstance)) e s ∧
        (outcome (compile : Step Coin Nat Coin) (e, s)).1 = .ok ⟨0⟩ := by
  have haccepted : accepted coinSample = [.operand, .binary, .operand, .binary, .operand] := by decide
  have hclassified := history_classified coinSample 0 _ _ rfl .operand (by rw [haccepted]; rfl)
  obtain ⟨hlast, _, _, _, _, _, hcompile, _⟩ := hclassified
  exact ⟨haccepted, _, _, rfl, hlast, hcompile rfl, by decide⟩

end BusLogic.Expression
