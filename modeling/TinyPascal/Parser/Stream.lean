import TinyPascal.Lexer.Scan

/-!
# The token stream of the parser

The grammar knows no comments and no lexical faults, but both are passed on as
soon as the token behind them is pulled. An arrival is a token of the grammar
together with everything that happens when it is pulled.
-/

namespace TinyPascal

set_option autoImplicit false

inductive ParseEvent where
  | scanned (token : Token)
  | reported (diagnostic : Diagnostic)
  | comment (token : Token)
  | consumed (token : Token)
deriving DecidableEq, Repr

namespace ParseEvent

def diagnostic? : ParseEvent → Option Diagnostic
  | reported diagnostic => some diagnostic
  | _ => none

def comment? : ParseEvent → Option Token
  | comment token => some token
  | _ => none

def consumed? : ParseEvent → Option Token
  | consumed token => some token
  | _ => none

end ParseEvent

structure Arrival where
  token : Token
  events : List ParseEvent
deriving DecidableEq, Repr, Inhabited

/-- The tokens of the grammar in order, and the end of the text. Whether an
unclosed comment hides that end is known in advance, but asked only there. -/
structure Stream where
  arrivals : List Arrival
  ending : Arrival
  truncated : Bool
deriving DecidableEq, Repr, Inhabited

namespace Stream

def faultEvents (item : Item) : List ParseEvent := item.faults.map .reported

/-- Pulls everything in `items`; `carried` holds the events of the comments
passed since the last token. -/
def gather (ending : Item) : List ParseEvent → List Item → List Arrival × Arrival
  | carried, [] => ([], ⟨ending.token, carried ++ faultEvents ending⟩)
  | carried, item :: items =>
      let events := carried ++ .scanned item.token :: faultEvents item
      if item.token.kind = .comment then
        gather ending (events ++ [.comment item.token]) items
      else
        let (arrivals, last) := gather ending [] items
        (⟨item.token, events⟩ :: arrivals, last)

def ofScan (scan : Scan) : Stream :=
  let (arrivals, ending) := gather scan.ending [] scan.items
  ⟨arrivals, ending, scan.truncated⟩

def ofText (source : String) : Stream := ofScan (.ofText source)

end Stream

end TinyPascal
