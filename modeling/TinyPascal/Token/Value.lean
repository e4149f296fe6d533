import TinyPascal.Number.Decimal
import TinyPascal.Token.Basic

/-!
# The numbers that literals stand for
-/

namespace TinyPascal

set_option autoImplicit false

/-- The number a literal stands for: one for `true`, zero for `false`, and what
the numeral writes otherwise. A text that is no numeral counts as zero. -/
def Token.value (token : Token) : Binary64 :=
  match token.kind with
  | .trueLit => .one
  | .falseLit => .zero
  | _ => (Numeral.value? token.lexeme).getD .zero

end TinyPascal
