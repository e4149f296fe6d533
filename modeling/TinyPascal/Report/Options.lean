/-!
# Options of the command line

Each option is a switch with a long name; two have a letter as well, and letters
may share one dash. A switch may be given once.
-/

namespace TinyPascal

set_option autoImplicit false

inductive Switch where
  | showTree | listTokens | verbose | timing | analyzeBroken
deriving DecidableEq, Repr

namespace Switch

def all : List Switch := [.showTree, .listTokens, .verbose, .timing, .analyzeBroken]

def longName : Switch → String
  | showTree => "--show-ast"
  | listTokens => "--tokens"
  | verbose => "--verbose"
  | timing => "--timing"
  | analyzeBroken => "--analyze-broken"

def ofLetter? : Char → Option Switch
  | 'v' => some verbose
  | 't' => some timing
  | _ => none

def ofArgument? (argument : String) : Option (List Switch) :=
  match all.find? fun switch => switch.longName = argument, argument.toList with
  | some switch, _ => some [switch]
  | none, '-' :: letters => letters.mapM ofLetter?
  | none, _ => none

end Switch

structure Options where
  showTree : Bool
  listTokens : Bool
  verbose : Bool
  timing : Bool
  analyzeBroken : Bool
deriving DecidableEq, Repr

namespace Options

def ofSwitches (on : List Switch) : Options :=
  ⟨on.contains .showTree, on.contains .listTokens, on.contains .verbose, on.contains .timing,
    on.contains .analyzeBroken⟩

/-- The options that arguments switch on, each at most once. -/
def ofArguments? (arguments : List String) : Option Options := do
  let on := (← arguments.mapM Switch.ofArgument?).flatten
  if Switch.all.all fun switch => on.count switch ≤ 1 then some (ofSwitches on) else none

end Options

/-- What the command line asks for: one path, and options before or behind
it. -/
structure Request where
  path : String
  options : Options
deriving DecidableEq, Repr

namespace Request

/-- An argument with a dash in front is an option, a lone dash apart. -/
def isOption (argument : String) : Bool := argument.startsWith "-" && argument != "-"

/-- Behind a lone double dash there are no options, only paths. -/
def ofArguments? (arguments : List String) : Option Request :=
  let before := arguments.takeWhile (· != "--")
  let behind := (arguments.dropWhile (· != "--")).drop 1
  match before.filter (fun argument => !isOption argument) ++ behind with
  | [path] => (Options.ofArguments? (before.filter isOption)).map fun options => ⟨path, options⟩
  | _ => none

end Request

end TinyPascal
