import BusLogic.Proofs.Script.Constructs
import BusLogic.Proofs.Script.Tokens

/-! Slots and loops over other buses.

A loop collects its result under the name of its target, and where the target is a slot this
is the name of the whole bus. So whatever the lines of the loop do, in the end the name stands
for the result itself (`Nested.lookup_loop`), and the slot to be bound is one of the bus it would
be bound to. No bus takes its own gate: one gate wide, it has no slot left for it
(`Bus.bind_self`). The assignment fails, then, and what the loop left is there to stay
(`Nested.assign_slot_loop`). -/
namespace BusLogic

/-- Why a bus, which has the name `name`, does not take itself into its slot `i`. -/
def Bus.selfRefusal (name : String) (i : Nat) (b : Bus) : Error :=
  if b.width = 0 then .malformed (.zeroWidth name)
  else if b.width ≠ 1 then .widthMismatch 1 b.width
  else if b.slots = [none] then .unboundSlot 0
  else if i = 0 then .alreadyBound 0
  else .indexOutOfRange i 1

/-- A bus of one slot has a gate to give or a slot to take it, never both. -/
theorem Bus.bind_self {b : Bus} (hwidth : b.width = 1) (name : String) (i : Nat) :
    (b.gate 0 >>= b.bind i) = .error (b.selfRefusal name i) := by
  have hrefusal : b.selfRefusal name i =
      if b.slots = [none] then .unboundSlot 0 else if i = 0 then .alreadyBound 0 else .indexOutOfRange i 1 := by
    simp only [selfRefusal, hwidth, Nat.one_ne_zero, ne_eq, not_true_eq_false, if_false]
  rw [hrefusal]
  cases b with
  | contiguous start width =>
    obtain rfl : width = 1 := hwidth
    cases i with
    | zero => rfl
    | succ i => exact congrArg Except.error (if_neg (by omega))
  | explicit slots =>
    obtain ⟨held, rfl⟩ := List.length_eq_one_iff.mp hwidth
    cases held with
    | none => rfl
    | some gate => cases i <;> rfl

namespace Script
open Attempt Run Text

/-! ### A bus into itself -/

/-- The result of a loop is what its target stands for afterwards, unless the loop is over the
target itself. -/
theorem Nested.lookup_loop {n : Nested} {target source : String} {count : Index} {b : Bus} {s t : Session}
    (h : outcome (n.loop target count (.ok source)) s = (.ok b, t)) (hne : source ≠ target) :
    t.lookup target = .ok b := by
  obtain ⟨_, name, _, initial, u, _, hname, _, _, _, _, hresult, rfl⟩ := Nested.loop_eq_ok.mp h
  cases hname
  rw [Session.lookup, bus?_of_insert (s := u) rfl, if_neg hne, Session.lookup_ok hresult]

theorem outcome_receive_self {s : Session} {name : String} {b : Bus} (h : s.lookup name = .ok b) (index : Index)
    (i : Nat) :
    outcome ((Target.slot name index).receive (some i) b) s = (.error (.of (b.selfRefusal name i)), s) := by
  unfold Target.receive bindSlot
  by_cases hzero : b.width = 0
  · have hempty : b.isEmpty = true := beq_iff_eq.mpr hzero
    rw [if_pos hempty, Bus.selfRefusal, if_pos hzero]
    rfl
  · have hempty : ¬ b.isEmpty = true := fun h => hzero (beq_iff_eq.mp h)
    by_cases hwidth : b.width = 1
    · have hself : (b.gate 0 >>= fun gate => s.lookup name >>= fun whole => whole.bind i gate) =
          .error (b.selfRefusal name i) := by
        rw [h]
        exact Bus.bind_self hwidth name i
      simp only [if_neg hempty, hwidth, ne_eq, not_true_eq_false, if_false, outcome_ask_bind, Target.name]
      rw [hself]
    · rw [if_neg hempty, Bus.selfRefusal, if_neg hzero, if_pos hwidth]
      simp only [ne_eq, hwidth, not_false_eq_true, if_true]
      rfl

theorem exists_of_check_slot {name : String} {i : Index} {s : Session} {slot : Option Nat}
    (h : (Target.slot name i).check s = .ok slot) : ∃ j, slot = some j := by
  obtain ⟨bus, _, h⟩ := except_bind_ok h
  obtain ⟨j, _, h⟩ := except_bind_ok h
  split at h
  · cases h
    exact ⟨j, rfl⟩
  · cases h

/-- A loop over another bus may get through, but its result is refused. -/
theorem Nested.assign_slot_loop {n : Nested} {name source : String} {i count : Index} {j : Nat} {b : Bus}
    {s t : Session} (hcheck : (Target.slot name i).check s = .ok (some j))
    (hloop : outcome (n.loop name count (.ok source)) s = (.ok b, t)) (hne : source ≠ name) :
    outcome (n.assign (.slot name i) (.ok (.loop count (.ok source)))) s =
      (.error (.of (b.selfRefusal name j)), t) := by
  have hevaluate : outcome (n.evaluate name (.loop count (.ok source))) s = (.ok b, t) := hloop
  rw [Nested.assign_ok, hcheck]
  show outcome (n.evaluate name _ >>= (Target.slot name i).receive (some j)) s = _
  rw [outcome_bind, hevaluate]
  exact outcome_receive_self (Nested.lookup_loop hloop hne) i j

/-! ### What such a line is read as -/

/-- The readings of a line that gives a slot of the bus `name` the result of a loop over the bus
`source`. Text that is out of place may cut them short. -/
inductive SlotLoop (name source : String) : Statement → Prop
  | fault (m : Mismatch) : SlotLoop name source (.fault m)
  | unread (i : Index) (m : Mismatch) : SlotLoop name source (.assign (.slot name i) (.error m))
  | unsourced (i count : Index) (m : Mismatch) :
      SlotLoop name source (.assign (.slot name i) (.ok (.loop count (.error m))))
  | loop (i count : Index) : SlotLoop name source (.assign (.slot name i) (.ok (.loop count (.ok source))))

/-- However the line is read, and whatever the lines of its loop do, it fails. -/
theorem SlotLoop.fails {name source : String} {st : Statement} (h : SlotLoop name source st) (hne : source ≠ name)
    (n : Nested) (s : Session) : ∃ f t, outcome (n.execute st) s = (.error f, t) := by
  rcases ho : outcome (n.execute st) s with ⟨f | _, t⟩
  · exact ⟨f, t, rfl⟩
  · exfalso
    cases h with
    | fault m => cases ho
    | unread i m =>
      obtain ⟨_, _, _, _, _, hv, _⟩ := Nested.assign_eq_ok.mp ho
      cases hv
    | unsourced i count m =>
      obtain ⟨_, _, _, _, _, hv, hloop, _⟩ := Nested.assign_eq_ok.mp ho
      cases hv
      obtain ⟨_, _, _, _, _, _, hsource, _⟩ := Nested.loop_eq_ok.mp hloop
      cases hsource
    | loop i count =>
      obtain ⟨slot, _, b, u, hcheck, hv, hloop, _⟩ := Nested.assign_eq_ok.mp ho
      cases hv
      obtain ⟨j, rfl⟩ := exists_of_check_slot hcheck
      have hrefused := Nested.assign_slot_loop hcheck hloop hne
      rw [show n.execute _ = n.assign _ _ from rfl, hrefused] at ho
      cases ho

/-- A statement that starts with a name and a dot is about a slot, for no keyword has a dot
behind it. -/
theorem statement_of_dot {s rest : List Char} {name : String} (hword : word s = (name, '.' :: rest))
    (hname : name? s = some (name, '.' :: rest)) :
    (∃ m, statement s = .fault m) ∨
      statement s = .assign (.slot name (index (trimStart rest)).1) (assigned (index (trimStart rest)).2) := by
  have hplain : plain s = .assign (.slot name (index (trimStart rest)).1) (assigned (index (trimStart rest)).2) := by
    rw [plain, hname]
    rfl
  rw [statement, hword, hplain]
  dsimp only
  split
  · exact .inl ⟨_, rfl⟩
  · split
    · exact .inl ⟨_, rfl⟩
    · split
      · exact .inl ⟨_, rfl⟩
      · exact .inr rfl

section Reading
variable {s w : List Char} {ts : List (List Char)} (hs : trimStart s = s)
include hs

theorem word_of_tokens (h : tokens s = w :: ts) (hw : w.all isWordChar = true) :
    ∃ r, word s = (String.ofList w, r) ∧ name? s = some (String.ofList w, r) ∧ tokens r = ts ∧ trimStart r = r := by
  obtain ⟨htake, hdrop⟩ := takeWhile_of_tokens (fun _ => id) hs h
  rw [List.takeWhile_eq_self_iff.mpr (List.all_eq_true.mp hw)] at htake
  rw [List.dropWhile_eq_nil_iff.mpr (List.all_eq_true.mp hw)] at hdrop
  obtain ⟨c, w, rfl⟩ := List.exists_cons_of_ne_nil (ne_nil_of_mem_tokens (h ▸ List.mem_cons_self : w ∈ tokens s))
  refine ⟨trimStart (s.dropWhile isWordChar), ?_, ?_, ?_, List.dropWhile_idempotent ..⟩
  · rw [word, htake]
  · rw [name?, htake]
  · rw [tokens_trimStart, hdrop]
    rfl

/-- An index takes a word, or the digits that it starts with. -/
theorem index_of_tokens (h : tokens s = w :: ts) (hw : w.all isWordChar = true) :
    ∃ i r w', index s = (i, r) ∧ w'.all isWordChar = true ∧ tokens r = pushToken w' ts ∧ trimStart r = r := by
  unfold index
  split
  · obtain ⟨_, hdrop⟩ := takeWhile_of_tokens (fun _ => isWordChar_of_isDigit) hs h
    have hrest : (w.dropWhile isDigit).all isWordChar = true := by
      rw [List.all_eq_true] at hw ⊢
      exact fun c hc => hw c ((List.dropWhile_suffix isDigit).subset hc)
    have hr : tokens (number? s).2 = pushToken (w.dropWhile isDigit) ts := by rw [number?, tokens_trimStart, hdrop]
    have htrim : trimStart (number? s).2 = (number? s).2 := List.dropWhile_idempotent ..
    split <;> rename_i heq <;> rw [heq] at hr htrim <;> exact ⟨_, _, _, rfl, hrest, hr, htrim⟩
  · obtain ⟨r, _, hname, hr, htrim⟩ := word_of_tokens hs h hw
    rw [hname]
    exact ⟨_, r, [], rfl, rfl, hr, htrim⟩

/-- A mark is found right behind an index, unless more of a word is in between. -/
theorem eat?_of_pushToken {c : Char} (h : tokens s = pushToken w ([c] :: ts)) (hw : w.all isWordChar = true)
    (hc : isWordChar c = false) :
    eat? [c] s = none ∨ ∃ r, eat? [c] s = some r ∧ tokens r = ts ∧ trimStart r = r := by
  cases w with
  | nil => exact .inr (eat?_of_tokens hs h).1
  | cons d w =>
    have hne : c ≠ d := by
      rintro rfl
      simp [hc] at hw
    exact .inl ((eat?_of_tokens hs h).2 c hne)

/-- The head of a loop, from after its keyword. -/
theorem loop_of_tokens {count : List Char} {source : String}
    (h : tokens s = [['('], count, [')'], source.toList]) (hcount : count.all isWordChar = true)
    (hsource : source.toList.all isWordChar = true) :
    ∃ c, (∃ m, loop s = .loop c (.error m)) ∨ loop s = .loop c (.ok source) := by
  obtain ⟨r, heat, hr, hrtrim⟩ := (eat?_of_tokens hs h).1
  obtain ⟨c, r', w, hi, hw, hr', hrtrim'⟩ := index_of_tokens hrtrim hr hcount
  refine ⟨c, ?_⟩
  unfold loop
  simp only [heat, hi]
  rcases eat?_of_pushToken hrtrim' hr' hw (by decide) with hnone | ⟨r'', hsome, hr'', hrtrim''⟩
  · rw [hnone]
    exact .inl ⟨_, rfl⟩
  · obtain ⟨z, _, hname, hz, hztrim⟩ := word_of_tokens hrtrim'' hr'' hsource
    obtain rfl : z = [] := eq_nil_of_tokens hztrim hz
    rw [String.ofList_toList] at hname
    simp only [hsome, hname]
    exact .inr rfl

/-- A loop behind an equals sign, which more of a word may stand in front of. -/
theorem assigned_of_tokens {count : List Char} {source : String}
    (h : tokens s = pushToken w [['='], "LOOP".toList, ['('], count, [')'], source.toList])
    (hw : w.all isWordChar = true) (hcount : count.all isWordChar = true)
    (hsource : source.toList.all isWordChar = true) :
    (∃ m, assigned s = .error m) ∨
      ∃ c, (∃ m, assigned s = .ok (.loop c (.error m))) ∨ assigned s = .ok (.loop c (.ok source)) := by
  unfold assigned
  rcases eat?_of_pushToken hs h hw (by decide) with hnone | ⟨r, hsome, hr, hrtrim⟩
  · rw [hnone]
    exact .inl ⟨_, rfl⟩
  · obtain ⟨r', hword, _, hr', hrtrim'⟩ := word_of_tokens hrtrim hr (by decide)
    have hvalue : value r = loop r' := by
      rw [value, hword]
      rfl
    rw [hsome]
    dsimp only
    rw [hvalue]
    obtain ⟨c, ⟨m, hloop⟩ | hloop⟩ := loop_of_tokens hrtrim' hr' hcount hsource
    · exact .inr ⟨c, .inl ⟨m, by rw [hloop]⟩⟩
    · exact .inr ⟨c, .inr (by rw [hloop])⟩

/-- A line of these tokens is read as such a line. -/
theorem slotLoop_statement {slot count : List Char} {name source : String}
    (h : tokens s = [name.toList, ['.'], slot, ['='], "LOOP".toList, ['('], count, [')'], source.toList])
    (hwords : ∀ w ∈ [name.toList, slot, count, source.toList], w.all isWordChar = true) :
    SlotLoop name source (statement s) := by
  obtain ⟨r, hword, hname, hr, hrtrim⟩ := word_of_tokens hs h (hwords _ (by simp))
  obtain ⟨rest, rfl, hrest, _⟩ := cons_of_tokens hrtrim hr
  rw [String.ofList_toList] at hword hname
  obtain ⟨i, r, w, hi, hw, hr, hrtrim⟩ := index_of_tokens (s := trimStart rest) (List.dropWhile_idempotent ..)
    ((tokens_trimStart rest).trans hrest) (hwords slot (by simp))
  rcases statement_of_dot hword hname with ⟨m, hfault⟩ | hslot
  · rw [hfault]
    exact .fault m
  · rw [hslot, hi]
    obtain ⟨m, hv⟩ | ⟨c, ⟨m, hv⟩ | hv⟩ :=
      assigned_of_tokens hrtrim hr hw (hwords count (by simp)) (hwords source.toList (by simp))
    · rw [hv]
      exact .unread i m
    · rw [hv]
      exact .unsourced i c m
    · rw [hv]
      exact .loop i c

end Reading

/-- **A slot cannot be given the result of a loop over another bus.** Whatever the session, the
count, the slot and the lines of the loop, the line fails. If the loop itself gets through, to
the bus `b`, the failure is that `b` does not take itself, and all that the loop did is
kept. -/
theorem slot_loop_refused {raw slot count : List Char} {name source : String}
    (htokens : tokens raw = [name.toList, ['.'], slot, ['='], "LOOP".toList, ['('], count, [')'], source.toList])
    (hwords : ∀ w ∈ [name.toList, slot, count, source.toList], w.all isWordChar = true) (hne : source ≠ name)
    (depth number : Nat) (s : Session) :
    (∃ f t, outcome ((nested depth).statement ⟨number, trim raw⟩) s = (.error f, t)) ∧
      ∀ i c j b t, statement (trim raw) = .assign (.slot name i) (.ok (.loop c (.ok source))) →
        (Target.slot name i).check s = .ok (some j) → outcome ((nested depth).loop name c (.ok source)) s = (.ok b, t) →
          outcome ((nested (depth + 1)).statement ⟨number, trim raw⟩) s =
            (.error ⟨b.selfRefusal name j, some number⟩, t) := by
  constructor
  · cases depth with
    | zero => exact ⟨_, _, rfl⟩
    | succ depth =>
      have htrim := (sameTokens_trim (rfl : tokens raw = tokens raw)).left
      have hread := slotLoop_statement htrim ((tokens_trim raw).trans htokens) hwords
      obtain ⟨f, t, hfails⟩ := hread.fails hne (nested depth) s
      exact ⟨_, t, by rw [nested, outcome_on, hfails]; rfl⟩
  · intro i c j b t hread hcheck hloop
    have hrefused := Nested.assign_slot_loop hcheck hloop hne
    rw [nested, outcome_on, hread, Nested.execute, hrefused]
    rfl

/-- A script that stands in front of the loop on its third line, with `b` an input and `a` a bus
of one slot. -/
def negatingSample : Session where
  lines := #[⟨1, "IN b /1".toList⟩, ⟨2, "a /1".toList⟩, ⟨3, "a.0 = LOOP(2) b".toList⟩, ⟨4, "a.0 = NOT b".toList⟩,
    ⟨5, "END".toList⟩]
  cursor := 3
  netlist := (outcome (Netlist.addInput "b" 1) (.empty ⟨9, 0⟩)).2
  buses := Std.ExtTreeMap.insert (Std.ExtTreeMap.insert ∅ "b" (.contiguous 0 1)) "a" (.unbound 1)
  counter := none

/-- The loop negates `b` twice; then the slot of `a` is bound already. -/
theorem slot_loop_refused_negatingSample :
    (outcome ((nested 1).loop "a" (.literal 2) (.ok "b")) negatingSample).1 = .ok (.explicit [some 2]) ∧
      (outcome ((nested 2).statement ⟨3, trim "a.0 = LOOP(2) b".toList⟩) negatingSample).1 =
        .error ⟨.alreadyBound 0, some 3⟩ := by
  have hloop : (outcome ((nested 1).loop "a" (.literal 2) (.ok "b")) negatingSample).1 = .ok (.explicit [some 2]) := by
    decide +kernel
  have htokens : tokens "a.0 = LOOP(2) b".toList =
      ["a".toList, ['.'], ['0'], ['='], "LOOP".toList, ['('], ['2'], [')'], "b".toList] := by decide +kernel
  have hrefused := (slot_loop_refused htokens (by decide) (by decide) 1 3 negatingSample).2 (.literal 0) (.literal 2) 0
    _ _ (by rfl) (by decide +kernel) (outcome_of_result hloop)
  rw [hrefused]
  exact ⟨hloop, rfl⟩

end Script

end BusLogic
