import BusLogic.Proofs.Attempt
import BusLogic.Proofs.Bus
import Mathlib.Algebra.Group.Nat.Defs

/-! Computations that notice when they leave their bounds.

A machine reads rows by position and computes with numbers of 64 bits. A checked
computation obtains all that it reads and computes in that way, and so it can end in one
more way than the computation it stands for: it traps where a position is not there, where
a number leaves its word, and where a loop does not come to an end. It realizes the other
one where it ends as that does and leaves the same state (`Attempt.Realizes`), and there it
has not trapped. Over a bus whose gates and width are addressed (`Bus.Addressed`), reading
slots, cutting slices and binding slots are realized. -/
namespace BusLogic

/-- Where a checked computation breaks off. -/
inductive Trap where
  /-- There is nothing at the position that is read, or nowhere to cut. -/
  | outOfBounds
  /-- A number falls below zero or does not fit 64 bits. -/
  | overflow
  /-- A loop has taken more turns than there is anything to take. -/
  | endless
  deriving DecidableEq, Repr

/-- How a checked computation fails: by itself, or as the one it stands for. -/
inductive Halt (ε : Type) where
  | trap (t : Trap)
  | refused (e : ε)
  deriving DecidableEq, Repr

/-- The same halt, with the failure seen differently. -/
def Halt.map {ε δ : Type} (f : ε → δ) : Halt ε → Halt δ
  | .trap t => .trap t
  | .refused e => .refused (f e)

namespace Checked

variable {ε α β : Type}

/-! ### Reading and computing -/

/-- What stands at a position. -/
def present : Option α → Except (Halt ε) α
  | some a => .ok a
  | none => .error (.trap .outOfBounds)

/-- A sum that fits 64 bits. -/
def add (a b : Nat) : Except (Halt ε) Nat :=
  if a + b < 2 ^ 64 then .ok (a + b) else .error (.trap .overflow)

/-- A difference that is not negative. -/
def sub (a b : Nat) : Except (Halt ε) Nat := if b ≤ a then .ok (a - b) else .error (.trap .overflow)

/-- A row cut in two before position `k`. -/
def cut (row : List α) (k : Nat) : Except (Halt ε) (List α × List α) :=
  if k ≤ row.length then .ok (row.take k, row.drop k) else .error (.trap .outOfBounds)

/-- The items at positions `first` to `last`. -/
def range (row : List α) (first last : Nat) : Except (Halt ε) (List α) :=
  if first ≤ last ∧ last < row.length then .ok ((row.drop first).take (last - first + 1))
  else .error (.trap .outOfBounds)

/-- The row with another item at position `i`. -/
def write (row : List α) (i : Nat) (a : α) : Except (Halt ε) (List α) :=
  if i < row.length then .ok (row.set i a) else .error (.trap .outOfBounds)

theorem add_eq {a b : Nat} (h : a + b < 2 ^ 64) : (add a b : Except (Halt ε) Nat) = .ok (a + b) := if_pos h

theorem sub_eq {a b : Nat} (h : b ≤ a) : (sub a b : Except (Halt ε) Nat) = .ok (a - b) := if_pos h

theorem cut_eq {row : List α} {k : Nat} (h : k ≤ row.length) :
    (cut row k : Except (Halt ε) _) = .ok (row.take k, row.drop k) := if_pos h

/-! ### Settled outcomes -/

/-- An outcome of which there is nothing to check. -/
def unchecked (y : Except ε α) : Except (Halt ε) α := y.mapError .refused

/-- The checked outcome is the other one, with what that one refuses. -/
def Settles (x : Except (Halt ε) α) (y : Except ε α) : Prop := x = unchecked y

namespace Settles

protected theorem unchecked (y : Except ε α) : Settles (unchecked y) y := rfl

theorem ok (a : α) : Settles (.ok a) (.ok a : Except ε α) := rfl

theorem error (e : ε) : Settles (.error (.refused e)) (.error e : Except ε α) := rfl

theorem bind {x : Except (Halt ε) α} {y : Except ε α} {f : α → Except (Halt ε) β} {g : α → Except ε β}
    (hx : Settles x y) (hf : ∀ a, y = .ok a → Settles (f a) (g a)) : Settles (x >>= f) (y >>= g) := by
  cases y with
  | error e =>
    rw [hx]
    exact .error e
  | ok a =>
    rw [hx]
    exact hf a rfl

end Settles

end Checked

/-! ### Realizing an attempt -/

namespace Attempt

variable {ε σ α β : Type}

/-- An attempt that has nothing to check. -/
def lift (y : Attempt ε σ α) : Attempt (Halt ε) σ α := fun s =>
  (Checked.unchecked (outcome y s).1, (outcome y s).2)

/-- From `s`, the checked attempt ends as the other one does and leaves the same state. -/
def Realizes (x : Attempt (Halt ε) σ α) (y : Attempt ε σ α) (s : σ) : Prop :=
  outcome x s = (Checked.unchecked (outcome y s).1, (outcome y s).2)

namespace Realizes

variable {s : σ}

protected theorem lift (y : Attempt ε σ α) : Realizes (lift y) y s := rfl

protected theorem pure (a : α) : Realizes (pure a) (pure a : Attempt ε σ α) s := rfl

protected theorem throw (e : ε) : Realizes (throw (.refused e)) (throw e : Attempt ε σ α) s := rfl

protected theorem get : Realizes get (get : Attempt ε σ σ) s := rfl

protected theorem modify (f : σ → σ) : Realizes (modify f) (modify f : Attempt ε σ Unit) s := rfl

protected theorem ofExcept {x : Except (Halt ε) α} {y : Except ε α} (h : Checked.Settles x y) :
    Realizes (ofExcept x) (ofExcept y) s := by
  rw [Realizes, outcome_ofExcept, outcome_ofExcept, h]

/-- What is only computed, and settled, is as good as there. -/
theorem settled {x : Except (Halt ε) α} {a : α} {f : α → Attempt (Halt ε) σ β} {y : Attempt ε σ β}
    (hx : x = .ok a) (hf : Realizes (f a) y s) : Realizes (ofExcept x >>= f) y s := by
  rw [Realizes, outcome_bind, outcome_ofExcept, hx]
  exact hf

/-- What comes next is realized from where the attempt that is realized has come. -/
protected theorem bind {x : Attempt (Halt ε) σ α} {y : Attempt ε σ α} {f : α → Attempt (Halt ε) σ β}
    {g : α → Attempt ε σ β} (hx : Realizes x y s)
    (hf : ∀ a s', outcome y s = (.ok a, s') → Realizes (f a) (g a) s') : Realizes (x >>= f) (y >>= g) s := by
  rw [Realizes, outcome_bind, outcome_bind, hx]
  rcases hy : outcome y s with ⟨e | a, s'⟩
  · rfl
  · exact hf a s' hy

protected theorem map (f : α → β) {x : Attempt (Halt ε) σ α} {y : Attempt ε σ α} (hx : Realizes x y s) :
    Realizes (f <$> x) (f <$> y) s := by
  rw [Realizes, outcome_map, outcome_map, hx]
  rcases outcome y s with ⟨_ | _, _⟩ <;> rfl

protected theorem check {c : Prop} [Decidable c] {e : ε} {f : PUnit → Attempt (Halt ε) σ α}
    {g : PUnit → Attempt ε σ α} (hf : ¬ c → Realizes (f ⟨⟩) (g ⟨⟩) s) :
    Realizes (if c then MonadExcept.throw (.refused e) >>= f else f ⟨⟩)
      (if c then MonadExcept.throw e >>= g else g ⟨⟩) s := by
  split
  · exact .bind (.throw e) fun _ _ ho => by cases ho
  · rename_i hc
    exact hf hc

theorem error {x : Attempt (Halt ε) σ α} {y : Attempt ε σ α} {e : ε} (h : Realizes x y s)
    (hy : (outcome y s).1 = .error e) : (outcome x s).1 = .error (.refused e) := by
  rw [h, hy]
  rfl

theorem state {x : Attempt (Halt ε) σ α} {y : Attempt ε σ α} (h : Realizes x y s) :
    (outcome x s).2 = (outcome y s).2 := congrArg Prod.snd h

theorem not_trap {x : Attempt (Halt ε) σ α} {y : Attempt ε σ α} (h : Realizes x y s) (t : Trap) (s' : σ) :
    outcome x s ≠ (.error (.trap t), s') := by
  rw [h]
  rcases outcome y s with ⟨_ | _, _⟩ <;> rintro ⟨⟩

end Realizes

end Attempt

/-! ### Buses -/

/-- The width of the bus and the numbers of its gates leave room for one more bit in a word. -/
structure Bus.Addressed (b : Bus) : Prop where
  width : b.width < 2 ^ 63
  gates : ∀ gate, some gate ∈ b.slots → gate < 2 ^ 63

namespace Bus.Checked
open BusLogic.Checked

/-- What slot `i` holds, read by position. -/
def read (b : Bus) (i : Nat) : Except (Halt Error) (Option Nat) :=
  match b with
  | .contiguous start _ => do
    let gate ← add start i
    return some gate
  | .explicit slots => present slots[i]?

def slot (b : Bus) (i : Nat) : Except (Halt Error) (Option Nat) :=
  if i < b.width then read b i else .error (.refused (.indexOutOfRange i b.width))

def gate (b : Bus) (i : Nat) : Except (Halt Error) Nat := do
  match ← slot b i with
  | some gate => return gate
  | none => throw (.refused (.unboundSlot i))

/-- `n` slots from slot `i` on. -/
def slotsFrom (b : Bus) : (n i : Nat) → Except (Halt Error) (List (Option Nat))
  | 0, _ => .ok []
  | n + 1, i => do
    let held ← read b i
    let rest ← slotsFrom b n (i + 1)
    return held :: rest

/-- The gates of `n` slots from slot `i` on. -/
def gatesFrom (b : Bus) : (n i : Nat) → Except (Halt Error) (List Nat)
  | 0, _ => .ok []
  | n + 1, i => do
    match ← read b i with
    | none => throw (.refused (.unboundSlot i))
    | some gate =>
      let rest ← gatesFrom b n (i + 1)
      return gate :: rest

def gates (b : Bus) : Except (Halt Error) (List Nat) := gatesFrom b b.width 0

/-- Whether two buses hold the same gates in `n` slots from slot `i` on. -/
def sameFrom (a b : Bus) : (n i : Nat) → Except (Halt Error) Bool
  | 0, _ => .ok true
  | n + 1, i => do
    let x ← read a i
    let y ← read b i
    if sameGate x y then sameFrom a b n (i + 1) else return false

def coincides (a b : Bus) : Except (Halt Error) Bool :=
  if a.width = b.width then sameFrom a b a.width 0 else .ok false

def append (a b : Bus) : Except (Halt Error) Bus := do
  let left ← slotsFrom a a.width 0
  let right ← slotsFrom b b.width 0
  return .explicit (left ++ right)

/-- Slots `first` to `last`, `width` in all. -/
def sliceSlots (slots : List (Option Nat)) (first last width : Nat) : Except (Halt Error) Bus := do
  match ← present slots[first]? with
  | some gate => if width = 1 then return single gate else .explicit <$> range slots first last
  | none => .explicit <$> range slots first last

def slice (b : Bus) (first last : Nat) : Except (Halt Error) Bus := do
  if first > last then
    throw (.refused (.indexOutOfRange first b.width))
  if b.width ≤ last then
    throw (.refused (.indexOutOfRange last b.width))
  let gap ← sub last first
  let width ← add gap 1
  match b with
  | .contiguous start _ =>
    let start ← add start first
    return .contiguous start width
  | .explicit slots => sliceSlots slots first last width

def bind (b : Bus) (i gate : Nat) : Except (Halt Error) Bus :=
  match b with
  | .contiguous _ width =>
    .error (.refused (if i < width then .alreadyBound i else .indexOutOfRange i width))
  | .explicit slots => do
    if slots.length ≤ i then
      throw (.refused (.indexOutOfRange i slots.length))
    match ← present slots[i]? with
    | some _ => throw (.refused (.alreadyBound i))
    | none => .explicit <$> write slots i (some gate)

/-! ### Over addressed buses -/

variable {a b : Bus}

theorem read_eq (hb : b.Addressed) {i : Nat} {held : Option Nat} (h : b.slots[i]? = some held) :
    read b i = .ok held := by
  cases b with
  | contiguous start width =>
    have hmem := List.mem_of_getElem? h
    rw [slots, List.getElem?_map, Option.map_eq_some_iff] at h
    obtain ⟨gate, hgate, rfl⟩ := h
    have hi : i < width := by simpa using (List.getElem?_eq_some_iff.mp hgate).1
    obtain rfl : start + i = gate := by simpa [List.getElem?_range' hi] using hgate
    have hlt := hb.gates _ hmem
    rw [read, add_eq (by omega)]
    rfl
  | explicit slots =>
    rw [read, show slots[i]? = some held from h]
    rfl

theorem slot_settles (hb : b.Addressed) (i : Nat) : Settles (slot b i) (b.slot i) := by
  rw [slot, slot_eq]
  split
  · rename_i hi
    rw [← length_slots] at hi
    have hget := List.getElem?_eq_getElem hi
    rw [hget, read_eq hb hget]
    exact .ok _
  · rename_i hi
    rw [← length_slots] at hi ⊢
    rw [List.getElem?_eq_none (Nat.le_of_not_lt hi)]
    exact .error _

theorem gate_settles (hb : b.Addressed) (i : Nat) : Settles (gate b i) (b.gate i) := by
  rw [gate, Bus.gate, slot_settles hb i]
  rcases b.slot i with e | held
  · exact .error e
  · cases held with
    | none => exact .error _
    | some gate => exact .ok gate

/-- The slots behind the first ones are read one after another. -/
theorem getElem?_behind {before rest : List (Option Nat)} {held : Option Nat} (h : b.slots = before ++ held :: rest) :
    b.slots[before.length]? = some held := by
  rw [h, List.getElem?_append_right (Nat.le_refl _), Nat.sub_self]
  rfl

theorem slotsFrom_eq (hb : b.Addressed) (before rest : List (Option Nat)) (h : b.slots = before ++ rest) :
    slotsFrom b rest.length before.length = .ok rest := by
  induction rest generalizing before with
  | nil => rfl
  | cons held rest ih =>
    have hrest := ih (before ++ [held]) (by rw [h, List.append_assoc]; rfl)
    rw [List.length_append, List.length_singleton] at hrest
    rw [List.length_cons, slotsFrom, read_eq hb (getElem?_behind h)]
    show (slotsFrom b rest.length (before.length + 1) >>= _) = _
    rw [hrest]
    rfl

theorem gatesFrom_settles (hb : b.Addressed) (before rest : List (Option Nat)) (h : b.slots = before ++ rest) :
    Settles (gatesFrom b rest.length before.length) (boundFrom before.length rest) := by
  induction rest generalizing before with
  | nil => exact .ok []
  | cons held rest ih =>
    have hrest := ih (before ++ [held]) (by rw [h, List.append_assoc]; rfl)
    rw [List.length_append, List.length_singleton] at hrest
    rw [List.length_cons, gatesFrom, read_eq hb (getElem?_behind h), boundFrom.eq_def]
    cases held with
    | none => exact .error _
    | some gate =>
      show Settles (gatesFrom b rest.length (before.length + 1) >>= _) _
      rw [hrest]
      dsimp only
      cases boundFrom (before.length + 1) rest with
      | error e => exact .error e
      | ok gates => exact .ok (gate :: gates)

theorem gates_settles (hb : b.Addressed) : Settles (gates b) b.gates := by
  rw [gates, ← length_slots]
  exact gatesFrom_settles hb [] b.slots rfl

theorem sameFrom_eq (ha : a.Addressed) (hb : b.Addressed) (before before' rest rest' : List (Option Nat))
    (h : a.slots = before ++ rest) (h' : b.slots = before' ++ rest') (hbefore : before.length = before'.length)
    (hrest : rest.length = rest'.length) :
    sameFrom a b rest.length before.length = .ok ((rest.zip rest').all fun (x, y) => sameGate x y) := by
  induction rest generalizing before before' rest' with
  | nil => rfl
  | cons x rest ih =>
    cases rest' with
    | nil => cases hrest
    | cons y rest' =>
      have hnext := ih (before ++ [x]) (before' ++ [y]) rest' (by rw [h, List.append_assoc]; rfl)
        (by rw [h', List.append_assoc]; rfl) (by simp [hbefore]) (Nat.succ.inj hrest)
      rw [List.length_append, List.length_singleton] at hnext
      rw [List.length_cons, sameFrom, read_eq ha (getElem?_behind h), hbefore, read_eq hb (getElem?_behind h'),
        ← hbefore, List.zip_cons_cons, List.all_cons]
      show (if sameGate x y = true then sameFrom a b rest.length (before.length + 1) else .ok false) =
        .ok (sameGate x y && _)
      cases sameGate x y with
      | false => rfl
      | true => exact hnext

theorem coincides_eq (ha : a.Addressed) (hb : b.Addressed) : coincides a b = .ok (a.coincides b) := by
  rw [coincides, Bus.coincides]
  split
  · rename_i hwidth
    have hsame := sameFrom_eq ha hb [] [] a.slots b.slots rfl rfl rfl (by rw [length_slots, length_slots, hwidth])
    rw [length_slots] at hsame
    rw [beq_iff_eq.mpr hwidth, Bool.true_and]
    exact hsame
  · rename_i hwidth
    rw [beq_eq_false_iff_ne.mpr hwidth, Bool.false_and]

theorem append_eq (ha : a.Addressed) (hb : b.Addressed) : append a b = .ok (a ++ b) := by
  have hleft := slotsFrom_eq ha [] a.slots rfl
  have hright := slotsFrom_eq hb [] b.slots rfl
  rw [length_slots, List.length_nil] at hleft hright
  rw [append, hleft, hright]
  rfl

theorem sliceSlots_settles {slots : List (Option Nat)} {first last : Nat} (hle : first ≤ last)
    (hlt : last < (explicit slots).width) :
    Settles (sliceSlots slots first last (last - first + 1)) ((explicit slots).slice first last) := by
  have hfirst : first < slots.length := Nat.lt_of_le_of_lt hle hlt
  have hrange : (range slots first last : Except (Halt Error) _) = .ok ((slots.drop first).take (last - first + 1)) :=
    if_pos ⟨hle, hlt⟩
  have hpart : (slots.drop first).take (last - first + 1) =
      slots[first] :: (slots.drop (first + 1)).take (last - first) := by
    rw [List.drop_eq_getElem_cons hfirst, List.take_succ_cons]
  have htail : ((slots.drop (first + 1)).take (last - first)).length = last - first := by
    rw [List.length_take, List.length_drop]
    exact Nat.min_eq_left (by simp only [width] at hlt; omega)
  unfold sliceSlots Bus.slice
  rw [if_neg (Nat.not_lt.mpr hle), if_neg (Nat.not_le.mpr hlt), List.getElem?_eq_getElem hfirst, hrange]
  dsimp only
  rw [hpart]
  generalize (slots.drop (first + 1)).take (last - first) = tail at htail
  show Settles (match slots[first] with | some gate => _ | none => _) _
  cases slots[first] with
  | none => exact .ok _
  | some gate =>
    cases tail with
    | nil =>
      have hone : last - first + 1 = 1 := by rw [← htail, List.length_nil]
      dsimp only
      rw [if_pos hone]
      exact .ok _
    | cons held tail =>
      have hmore : last - first + 1 ≠ 1 := by
        rw [← htail, List.length_cons]
        omega
      dsimp only
      rw [if_neg hmore]
      exact .ok _

theorem slice_settles (hb : b.Addressed) (first last : Nat) : Settles (slice b first last) (b.slice first last) := by
  have hwidth := hb.width
  by_cases hle : first > last
  · unfold slice Bus.slice
    rw [if_pos hle, if_pos hle]
    exact .error _
  by_cases hlt : b.width ≤ last
  · unfold slice Bus.slice
    rw [if_neg hle, if_neg hle, if_pos hlt, if_pos hlt]
    exact .error _
  unfold slice
  rw [if_neg hle, if_neg hlt, sub_eq (by omega)]
  show Settles (add (last - first) 1 >>= _) _
  rw [add_eq (by omega)]
  cases b with
  | contiguous start width =>
    have hgate : start + first < 2 ^ 63 := by
      refine hb.gates _ (List.mem_map_of_mem (List.mem_range'_1.mpr ?_))
      simp only [Bus.width] at hlt
      omega
    unfold Bus.slice
    rw [if_neg hle, if_neg hlt]
    show Settles (add start first >>= _) _
    rw [add_eq (by omega)]
    exact .ok _
  | explicit slots => exact sliceSlots_settles (by omega) (Nat.lt_of_not_le hlt)

theorem bind_settles (b : Bus) (i gate : Nat) : Settles (bind b i gate) (b.bind i gate) := by
  cases b with
  | contiguous start width => exact .error _
  | explicit slots =>
    rw [bind, Bus.bind]
    by_cases hi : slots.length ≤ i
    · rw [if_pos hi, List.getElem?_eq_none hi]
      exact .error _
    · have hlt := Nat.lt_of_not_le hi
      rw [if_neg hi, List.getElem?_eq_getElem hlt]
      show Settles (match slots[i] with | some _ => _ | none => _) _
      cases slots[i] with
      | some _ => exact .error _
      | none =>
        show Settles (Bus.explicit <$> write slots i (some gate)) _
        rw [write, if_pos hlt]
        exact .ok _

end Bus.Checked

end BusLogic
