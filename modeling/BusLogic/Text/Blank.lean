/-! White space: the characters with the Unicode property `White_Space`, and
trimming them from a text. -/
namespace BusLogic.Text

/-- Whether a character is white space. -/
def isBlank (c : Char) : Bool :=
  let n := c.toNat
  (0x09 ≤ n && n ≤ 0x0d) || n == 0x20 || n == 0x85 || n == 0xa0 || n == 0x1680 ||
    (0x2000 ≤ n && n ≤ 0x200a) || n == 0x2028 || n == 0x2029 || n == 0x202f || n == 0x205f ||
    n == 0x3000

/-- The text from its first character that is not blank. -/
def trimStart (text : List Char) : List Char := text.dropWhile isBlank

def trimEnd (text : List Char) : List Char := (text.reverse.dropWhile isBlank).reverse

def trim (text : List Char) : List Char := trimEnd (trimStart text)

/-- The pieces between line feeds. -/
def lines (text : List Char) : List (List Char) :=
  match _ : text.dropWhile (· != '\n') with
  | [] => [text]
  | _ :: rest => text.takeWhile (· != '\n') :: lines rest
termination_by text.length
decreasing_by
  rename_i h
  have := (List.dropWhile_suffix (l := text) (· != '\n')).length_le
  rw [h, List.length_cons] at this
  omega

end BusLogic.Text
