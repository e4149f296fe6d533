import TinyPascal.Proofs.Discipline.Candour
import TinyPascal.Proofs.Walk.Spots
import TinyPascal.Report.Basic

/-!
# The verdict on a file

The exit code and the error lines of a report follow from the text. Options for what is printed
besides play no part, and analysing broken programs too only adds error lines to those there are.
-/

namespace TinyPascal

set_option autoImplicit false

namespace Diagnostic

variable {first second : Diagnostic}

end Diagnostic

section Sorting

variable {α : Type} {le : α → α → Bool}
  (trans : ∀ a b c, le a b = true → le b c = true → le a c = true)
  (total : ∀ a b, (le a b || le b a) = true)

include trans total

end Sorting

namespace Diagnostics

variable {found few many : Diagnostics}

end Diagnostics

namespace Check

variable (source : String)

end Check

namespace Report

end Report

end TinyPascal
