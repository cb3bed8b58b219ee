/-! Numbers in columns. -/
namespace BusLogic.Text

/-- A number aligned to the right in a column; a longer one takes what it needs. -/
def inColumn (width n : Nat) : String :=
  let digits := toString n
  String.ofList (List.replicate (width - digits.length) ' ') ++ digits

end BusLogic.Text
