import BusLogic.Netlist.Snapshot
import BusLogic.Proofs.Numeral
import BusLogic.Proofs.Text

/-! What a netlist shows of itself can be read back.

Whether a gate opens a row or ends one is told by its number alone, so a row is put together
gate by gate: behind the first of them there are only cells up to the 32nd, which ends the
row (`cellsText_within`). The text of all gates is therefore a list of rows (`tableRows`),
the last of them with what is left over, and each row gives its values again
(`readRow_rowText`). The text of a port has the highest slot first, where a numeral has its
highest digit, so that it spells the number that the bus shows (`spells_portBits`). -/
namespace BusLogic.Netlist
open Text

/-! ### Cells and rows -/

/-- What a row begins with: the number of its first gate, in five columns or more, and three
spaces. -/
def rowLabel (first : Nat) : List Char := List.leftpad 5 ' ' (Nat.toDigits 10 first) ++ [' ', ' ', ' ']

def cellText (value : Bool) : List Char := [if value then '1' else '0', ' ']

/-- A row with these values. Without any it is empty. -/
def rowText (first : Nat) : List Bool → List Char
  | [] => []
  | value :: rest => rowLabel first ++ (value :: rest).flatMap cellText

theorem toList_inColumn (width n : Nat) : (inColumn width n).toList = List.leftpad width ' ' (Nat.toDigits 10 n) := by
  simp [inColumn, List.leftpad, Nat.toString_eq_repr, ← String.length_toList, Nat.toList_repr]

/-- The text of the gates from number `index` on. -/
def cellsText (index : Nat) (gates : List Gate) : List Char := (String.join (gateCells index gates)).toList

@[simp] theorem cellsText_nil (index : Nat) : cellsText index [] = [] := rfl

theorem cellsText_cons (index : Nat) (g : Gate) (rest : List Gate) : cellsText index (g :: rest) =
    (if index % 32 = 0 then rowLabel index else []) ++ cellText g.value ++
      (if (index + 1) % 32 = 0 then ['\n'] else []) ++ cellsText (index + 1) rest := by
  simp only [cellsText, gateCells, String.toList_join, List.flatMap_cons, String.toList_append]
  congr 2
  · congr 1
    · split <;> simp [rowLabel, toList_inColumn]
    · cases g.value <;> rfl
  · split <;> rfl

theorem cellsText_append (index : Nat) (a b : List Gate) :
    cellsText index (a ++ b) = cellsText index a ++ cellsText (index + a.length) b := by
  induction a generalizing index with
  | nil => rfl
  | cons g rest ih =>
    have hindex : index + 1 + rest.length = index + (g :: rest).length := by simp [Nat.add_comm, Nat.add_left_comm]
    rw [List.cons_append, cellsText_cons, cellsText_cons, ih, hindex]
    simp only [List.append_assoc]

/-- Behind the first gate of a row come cells and nothing else, up to the end of the row. -/
theorem cellsText_within {k : Nat} (hk : 0 < k) (hlt : k < 32) (r : Nat) {gates : List Gate}
    (hlen : k + gates.length ≤ 32) : cellsText (32 * r + k) gates =
      (gates.map Gate.value).flatMap cellText ++ if k + gates.length = 32 then ['\n'] else [] := by
  induction gates generalizing k with
  | nil => simp [Nat.ne_of_lt hlt]
  | cons g rest ih =>
    rw [List.length_cons] at hlen
    rw [cellsText_cons, if_neg (by omega), List.map_cons, List.flatMap_cons, List.length_cons]
    by_cases hend : k + 1 = 32
    · -- the gate that ends the row is the last of them
      obtain rfl : rest = [] := List.eq_nil_of_length_eq_zero (by omega)
      rw [if_pos (by omega)]
      simp [hend]
    · rw [if_neg (by omega), Nat.add_assoc, ih (by omega) (by omega) (by omega)]
      simp [Nat.add_comm, Nat.add_left_comm]

/-- As many gates as a row can take make one row, which is ended if it is full. -/
theorem cellsText_row (r : Nat) {gates : List Gate} (hlen : gates.length ≤ 32) : cellsText (32 * r) gates =
    rowText (32 * r) (gates.map Gate.value) ++ if gates.length = 32 then ['\n'] else [] := by
  cases gates with
  | nil => rfl
  | cons g rest =>
    rw [List.length_cons] at hlen
    rw [cellsText_cons, if_pos (by omega), if_neg (by omega), cellsText_within (by decide) (by decide) r (by omega)]
    simp [rowText, Nat.add_comm]

/-! ### The table -/

/-- The rows of a table of values, 32 to a row, of which the first has number `r`. -/
def tableRows (r : Nat) (values : List Bool) : List (List Char) :=
  (List.range (values.length / 32 + 1)).map fun k => rowText (32 * (r + k)) ((values.drop (32 * k)).take 32)

theorem tableRows_of_lt (r : Nat) {values : List Bool} (h : values.length < 32) :
    tableRows r values = [rowText (32 * r) values] := by
  rw [tableRows, Nat.div_eq_of_lt h]
  simp [List.take_of_length_le (Nat.le_of_lt h)]

/-- A full row comes before the others. -/
theorem tableRows_append (r : Nat) {full : List Bool} (h : full.length = 32) (values : List Bool) :
    tableRows r (full ++ values) = rowText (32 * r) full :: tableRows (r + 1) values := by
  have hcount : (full ++ values).length / 32 = values.length / 32 + 1 := by
    rw [List.length_append, h]
    omega
  have hlater (k : Nat) : (full ++ values).drop (32 * (k + 1)) = values.drop (32 * k) := by
    rw [List.drop_append, List.drop_eq_nil_of_le (by omega), h]
    simp [Nat.mul_add]
  rw [tableRows, hcount, List.range_succ_eq_map, List.map_cons, List.map_map]
  congr 1
  · simp [← h]
  · apply List.map_congr_left
    intro k _
    simp [hlater, Nat.add_comm, Nat.add_left_comm]

/-- The text of gates that begin a row, and a line feed behind it, are the rows, each ended. -/
theorem cellsText_rows (r : Nat) (gates : List Gate) :
    cellsText (32 * r) gates ++ ['\n'] = (tableRows r (gates.map Gate.value)).flatMap (· ++ ['\n']) := by
  -- over the number of full rows
  induction hn : gates.length / 32 generalizing r gates with
  | zero =>
    have hlt : gates.length < 32 := by omega
    rw [cellsText_row r (by omega), if_neg (by omega), tableRows_of_lt r (by simpa using hlt)]
    simp
  | succ n ih =>
    have hfirst : (gates.take 32).length = 32 := by
      rw [List.length_take]
      omega
    have hrest := ih (r + 1) (gates.drop 32) (by rw [List.length_drop]; omega)
    rw [← List.take_append_drop 32 gates, cellsText_append, cellsText_row r (by omega), hfirst, if_pos rfl,
      List.append_assoc, ← Nat.mul_succ, hrest, List.map_append, tableRows_append r (by rw [List.length_map, hfirst]),
      List.flatMap_cons]

/-! ### Reading a row -/

/-- The values of cells, if there is nothing but cells. -/
def readCells : List Char → Option (List Bool)
  | [] => some []
  | '0' :: ' ' :: rest => (readCells rest).map (false :: ·)
  | '1' :: ' ' :: rest => (readCells rest).map (true :: ·)
  | _ => none

/-- The values of a row, behind the number that it begins with and three characters more. -/
def readRow (row : List Char) : Option (List Bool) :=
  readCells (((row.dropWhile (· == ' ')).dropWhile isDigit).drop 3)

theorem readCells_flatMap (values : List Bool) : readCells (values.flatMap cellText) = some values := by
  induction values with
  | nil => rfl
  | cons value rest ih => cases value <;> simp [cellText, readCells, ih]

theorem readRow_rowText (first : Nat) (values : List Bool) : readRow (rowText first values) = some values := by
  cases values with
  | nil => rfl
  | cons value rest =>
    set cells := (value :: rest).flatMap cellText with hcells
    -- the number ends at the first space behind it, so it does not run into the cells
    obtain ⟨d, ds, hd⟩ := List.exists_cons_of_ne_nil (Nat.toDigits_ne_nil (n := first) (b := 10))
    have hdigits : ∀ c ∈ d :: ds, isDigit c = true := by
      intro c hc
      exact isDigit_of_mem_toDigits (n := first) (hd ▸ hc)
    have hspace : d ≠ ' ' := by
      rintro rfl
      exact absurd (hdigits _ (List.mem_cons_self ..)) (by decide)
    have hrow : rowText first (value :: rest) =
        List.replicate (5 - (d :: ds).length) ' ' ++ (d :: ds ++ (' ' :: ' ' :: ' ' :: cells)) := by
      simp [rowText, rowLabel, List.leftpad, hd, hcells]
    have hpad := run_append (f := (· == ' ')) (w := List.replicate (5 - (d :: ds).length) ' ')
      (X := d :: ds ++ (' ' :: ' ' :: ' ' :: cells)) (by simp) (by simpa using hspace)
    have hnumber := run_append (X := ' ' :: ' ' :: ' ' :: cells) hdigits (by simp [isDigit])
    rw [readRow, hrow, hpad.2, hnumber.2]
    exact readCells_flatMap (value :: rest)

theorem rowText_begins {first : Nat} {values : List Bool} (h : 0 < values.length) :
    rowLabel first <+: rowText first values := by
  cases values with
  | nil => cases h
  | cons value rest => exact List.prefix_append ..

theorem rowText_no_newline (first : Nat) (values : List Bool) : '\n' ∉ rowText first values := by
  cases values with
  | nil => exact List.not_mem_nil
  | cons value rest =>
    have hdigits : '\n' ∉ Nat.toDigits 10 first := by
      intro hmem
      exact absurd (isDigit_of_mem_toDigits hmem) (by decide)
    have hcell (value : Bool) : '\n' ∉ cellText value := by cases value <;> decide
    simp [rowText, rowLabel, List.leftpad, hdigits, hcell]

/-! ### Reading the table -/

theorem length_tableRows (r : Nat) (values : List Bool) : (tableRows r values).length = values.length / 32 + 1 := by
  simp [tableRows]

theorem tableRows_at {r : Nat} {row : List Char} {values : List Bool} (h : (tableRows 0 values)[r]? = some row) :
    row = rowText (32 * r) ((values.drop (32 * r)).take 32) := by
  obtain ⟨hlt, rfl⟩ := List.getElem?_eq_some_iff.mp h
  simp [tableRows]

/-- Pieces of 32 put together again are the whole, as far as they go. -/
theorem flatten_pieces (values : List Bool) (m : Nat) :
    ((List.range m).map fun k => (values.drop (32 * k)).take 32).flatten = values.take (32 * m) := by
  induction m with
  | zero => simp
  | succ m ih =>
    rw [List.range_succ, List.map_append, List.flatten_append, ih, Nat.mul_succ, List.take_add]
    simp

theorem readRow_tableRows (r : Nat) (values : List Bool) :
    ((tableRows r values).mapM readRow).map List.flatten = some values := by
  have hread : readRow ∘ (fun k => rowText (32 * (r + k)) ((values.drop (32 * k)).take 32)) =
      fun k => pure ((values.drop (32 * k)).take 32) := by
    funext k
    exact readRow_rowText ..
  rw [tableRows, List.mapM_map, hread, List.mapM_pure]
  show some _ = _
  rw [flatten_pieces, List.take_of_length_le (by omega)]

theorem getLast?_tableRows (r : Nat) {values : List Bool} (h : 32 ∣ values.length) : (tableRows r values).getLast? = some [] := by
  have hall : values.drop (32 * (values.length / 32)) = [] := by
    rw [Nat.mul_div_cancel' h, List.drop_length]
  simp [tableRows, List.getLast?_range, hall, rowText]

/-! ### Ports -/

/-- A character of a port's text as a binary digit: an unbound slot counts as low. -/
def portDigit (c : Char) : Char := if c = '?' then '0' else c

theorem digit_slotChar (net : Netlist) (slot : Option Nat) :
    Digit 2 (portDigit (net.slotChar slot)) (net.level slot).toNat := by
  refine ⟨Bool.toNat_lt _, .inl ?_⟩
  cases slot with
  | none => rfl
  | some gate =>
    rw [slotChar, level]
    cases net.valueAt gate <;> rfl

theorem spells_slots (net : Netlist) (slots : List (Option Nat)) :
    Spells 2 ((slots.map net.slotChar).reverse.map portDigit) (net.readSlots slots) := by
  induction slots with
  | nil => exact spells_nil 2
  | cons slot rest ih =>
    have h := ih.concat (net.digit_slotChar slot)
    rw [Nat.add_comm] at h
    simpa [readSlots] using h

theorem spells_portBits (net : Netlist) {bus : Bus} (h : bus.width ≤ 64) :
    Spells 2 ((net.portBits bus).map portDigit) (net.readBus bus) := by
  rw [readBus, Bus.lowSlots_eq_take, List.take_of_length_le (by simpa using h)]
  exact net.spells_slots bus.slots

theorem mem_portBits (net : Netlist) (bus : Bus) : ∀ c ∈ net.portBits bus, c ∈ ['0', '1', '?'] := by
  intro c hc
  simp only [portBits, List.mem_reverse, List.mem_map] at hc
  obtain ⟨slot, -, rfl⟩ := hc
  cases slot with
  | none => simp [slotChar]
  | some gate => cases h : net.valueAt gate <;> simp [slotChar, h]

theorem toList_dumpPorts (net : Netlist) : net.dumpPorts.toList =
    net.ports.toList.flatMap fun (name, bus) => name.toList ++ [':', ' '] ++ net.portBits bus ++ ['\n'] := by
  simp [dumpPorts, String.toList_join, List.flatMap_map]

/-! ### Both texts -/

theorem toList_dumpGates (net : Netlist) :
    net.dumpGates.toList = (tableRows 0 (net.gates.toList.map Gate.value)).flatMap (· ++ ['\n']) := by
  rw [dumpGates, String.toList_append]
  exact cellsText_rows 0 net.gates.toList

/-- **What a netlist shows of itself can be read back.** The text of the gates has a row for
each 32 of them and one more, all ended by line feeds. A row that holds a gate begins with
the number of its first one. Row by row the cells are the values of the gates, 32 to a row,
and altogether those of all gates in order; if the rows come out even, the last one is
empty. The text of the ports has a line for each, its name and then its slots. Of a port
with 64 slots or fewer, these are the number that the bus shows, in binary, with unbound
slots as zeros. -/
theorem dumps_readBack (net : Netlist) :
    (∃ rows : List (List Char), net.dumpGates.toList = rows.flatMap (· ++ ['\n']) ∧ (∀ row ∈ rows, '\n' ∉ row) ∧
      rows.length = net.size / 32 + 1 ∧
      (∀ r row, rows[r]? = some row → (32 * r < net.size → rowLabel (32 * r) <+: row) ∧
        readRow row = some (((net.gates.toList.map Gate.value).drop (32 * r)).take 32)) ∧
      (rows.mapM readRow).map List.flatten = some (net.gates.toList.map Gate.value) ∧
      (32 ∣ net.size → rows.getLast? = some [])) ∧
    ∃ digits : Bus → List Char,
      net.dumpPorts.toList =
        (net.ports.toList.flatMap fun (name, bus) => name.toList ++ [':', ' '] ++ digits bus ++ ['\n']) ∧
      ∀ name bus, net.port? name = some bus → (∀ c ∈ digits bus, c ∈ ['0', '1', '?']) ∧
        (digits bus).length = bus.width ∧ (bus.width ≤ 64 → Spells 2 ((digits bus).map portDigit) (net.readBus bus)) := by
  have hsize : (net.gates.toList.map Gate.value).length = net.size := by simp [size]
  constructor
  · refine ⟨tableRows 0 (net.gates.toList.map Gate.value), toList_dumpGates net, ?_, ?_, ?_, readRow_tableRows 0 _, ?_⟩
    · intro row hrow
      obtain ⟨k, -, rfl⟩ := List.mem_map.mp hrow
      exact rowText_no_newline _ _
    · rw [length_tableRows, hsize]
    · intro r row hrow
      rw [tableRows_at hrow]
      refine ⟨fun hr => rowText_begins ?_, readRow_rowText ..⟩
      simpa [size] using hr
    · rw [← hsize]
      exact getLast?_tableRows 0
  · refine ⟨net.portBits, toList_dumpPorts net, fun name bus _ => ⟨mem_portBits net bus, ?_, spells_portBits net⟩⟩
    simp [portBits]

/-- Thirty-two gates, all low but the second, and a port over the first three numbers with an
unbound slot between. -/
def evenSample : Netlist :=
  { Netlist.empty {} with
    gates := (Array.replicate 32 ⟨.passthrough, none, none, false, 0, 0⟩).modify 1 fun g => { g with value := true }
    ports := (∅ : Table Bus).insert "q" (.explicit [some 0, some 1, none, some 1]) }

/-- Two rows, of which the second is empty; and the port shows 10. -/
theorem dumps_readBack_evenSample :
    (∃ rows : List (List Char), evenSample.dumpGates.toList = rows.flatMap (· ++ ['\n']) ∧ rows.length = 2 ∧
      rows.getLast? = some []) ∧
    ∃ digits, evenSample.dumpPorts.toList = ['q', ':', ' '] ++ digits ++ ['\n'] ∧ Spells 2 (digits.map portDigit) 10 := by
  obtain ⟨⟨rows, htext, -, hlength, -, -, hlast⟩, digits, hports, hdigits⟩ := dumps_readBack evenSample
  refine ⟨⟨rows, htext, hlength, hlast (by decide)⟩, digits (.explicit [some 0, some 1, none, some 1]), ?_, ?_⟩
  · have hlist : evenSample.ports.toList = [("q", .explicit [some 0, some 1, none, some 1])] := by rfl
    rw [hports, hlist]
    simp
  · have hport : evenSample.port? "q" = some (.explicit [some 0, some 1, none, some 1]) := by rfl
    exact (hdigits "q" _ hport).2.2 (by decide)

end BusLogic.Netlist
