/-! The categories of tokens in an infix expression and which may follow which. -/
namespace BusLogic.Expression

/-- What the compiler has just seen, or is about to see. -/
inductive Category where
  | start
  | operand
  | unary
  | binary
  | finish
  deriving DecidableEq, Repr, Inhabited

namespace Category

/-- An operand may be followed by a binary operator or the end; everything before
the end but an operand waits for an operand, with prefix operators in front. -/
def accepts : Category → Category → Bool
  | .start, .unary | .start, .operand => true
  | .unary, .unary | .unary, .operand => true
  | .binary, .unary | .binary, .operand => true
  | .operand, .binary | .operand, .finish => true
  | _, _ => false

def name : Category → String
  | .start => "start"
  | .operand => "operand"
  | .unary => "unary operator"
  | .binary => "binary operator"
  | .finish => "end"

end Category

end BusLogic.Expression
