/-!
# Token kinds

The closed list of token kinds, the reserved words, and the classes of kinds
that the grammar and the checker ask about.
-/

namespace TinyPascal

set_option autoImplicit false

inductive Kind where
  | lparen | rparen | dot | semicolon | colon | comma | assign
  | equal | notEqual | less | lessEqual | greater | greaterEqual
  | plus | minus | times | divide
  | orOp | andOp | notOp
  | intLit | realLit | trueLit | falseLit
  | programKw | varKw | integerKw | realKw | booleanKw | procedureKw
  | beginKw | endKw | ifKw | thenKw | elseKw | whileKw | doKw | forKw | toKw | downtoKw
  | ident | comment | unknown | eof
deriving DecidableEq, Repr, Inhabited

namespace Kind

/-- Every kind once, in the order of the declaration. -/
def all : List Kind :=
  [.lparen, .rparen, .dot, .semicolon, .colon, .comma, .assign,
   .equal, .notEqual, .less, .lessEqual, .greater, .greaterEqual,
   .plus, .minus, .times, .divide,
   .orOp, .andOp, .notOp,
   .intLit, .realLit, .trueLit, .falseLit,
   .programKw, .varKw, .integerKw, .realKw, .booleanKw, .procedureKw,
   .beginKw, .endKw, .ifKw, .thenKw, .elseKw, .whileKw, .doKw, .forKw, .toKw, .downtoKw,
   .ident, .comment, .unknown, .eof]

/-- The tag under which a kind is listed when a token is shown. -/
def name : Kind → String
  | lparen => "LParen"
  | rparen => "RParen"
  | dot => "Dot"
  | semicolon => "Semicolon"
  | colon => "Colon"
  | comma => "Comma"
  | assign => "Assign"
  | equal => "Equal"
  | notEqual => "NotEqual"
  | less => "LessThan"
  | lessEqual => "LessThanEqual"
  | greater => "GreaterThan"
  | greaterEqual => "GreaterThanEqual"
  | plus => "Plus"
  | minus => "Minus"
  | times => "Multiply"
  | divide => "Divide"
  | orOp => "Or"
  | andOp => "And"
  | notOp => "Not"
  | intLit => "IntConst"
  | realLit => "RealConst"
  | trueLit => "True"
  | falseLit => "False"
  | programKw => "Program"
  | varKw => "Var"
  | integerKw => "Integer"
  | realKw => "Real"
  | booleanKw => "Boolean"
  | procedureKw => "Procedure"
  | beginKw => "Begin"
  | endKw => "End"
  | ifKw => "If"
  | thenKw => "Then"
  | elseKw => "Else"
  | whileKw => "While"
  | doKw => "Do"
  | forKw => "For"
  | toKw => "To"
  | downtoKw => "Downto"
  | ident => "Ident"
  | comment => "Comment"
  | unknown => "Other"
  | eof => "Eof"

def ofName? (tag : String) : Option Kind :=
  all.find? fun kind => kind.name = tag

def describe : Kind → String
  | lparen => "'('"
  | rparen => "')'"
  | dot => "'.'"
  | semicolon => "';'"
  | colon => "':'"
  | comma => "','"
  | assign => "':='"
  | equal => "'='"
  | notEqual => "'<>'"
  | less => "'<'"
  | lessEqual => "'<='"
  | greater => "'>'"
  | greaterEqual => "'>='"
  | plus => "'+'"
  | minus => "'-'"
  | times => "'*'"
  | divide => "'/'"
  | orOp => "'or'"
  | andOp => "'and'"
  | notOp => "'not'"
  | intLit => "integer constant"
  | realLit => "real constant"
  | trueLit => "'true'"
  | falseLit => "'false'"
  | programKw => "'program'"
  | varKw => "'var'"
  | integerKw => "'integer'"
  | realKw => "'real'"
  | booleanKw => "'boolean'"
  | procedureKw => "'procedure'"
  | beginKw => "'begin'"
  | endKw => "'end'"
  | ifKw => "'if'"
  | thenKw => "'then'"
  | elseKw => "'else'"
  | whileKw => "'while'"
  | doKw => "'do'"
  | forKw => "'for'"
  | toKw => "'to'"
  | downtoKw => "'downto'"
  | ident => "identifier"
  | comment => "comment"
  | unknown => "unrecognized symbol"
  | eof => "end of file"

/-- The reserved words. They are compared letter by letter, so `Begin` is an
ordinary identifier. -/
def reserved : List (String × Kind) :=
  [("program", programKw), ("var", varKw), ("integer", integerKw), ("real", realKw),
   ("boolean", booleanKw), ("procedure", procedureKw), ("begin", beginKw), ("end", endKw),
   ("if", ifKw), ("then", thenKw), ("else", elseKw), ("while", whileKw), ("do", doKw),
   ("for", forKw), ("to", toKw), ("downto", downtoKw), ("not", notOp), ("or", orOp),
   ("and", andOp), ("true", trueLit), ("false", falseLit)]

def ofReserved? (word : String) : Option Kind :=
  reserved.lookup word

/-- Reserved words keep their own kind; every other word is an identifier. -/
def ofWord (word : String) : Kind :=
  (ofReserved? word).getD ident

def isRelational : Kind → Bool
  | equal | notEqual | less | lessEqual | greater | greaterEqual => true
  | _ => false

/-- The binary operators on truth values. Negation is not among them. -/
def isLogical : Kind → Bool
  | orOp | andOp => true
  | _ => false

def isSign : Kind → Bool
  | plus | minus => true
  | _ => false

def isAdditive : Kind → Bool
  | plus | minus | orOp => true
  | _ => false

def isMultiplicative : Kind → Bool
  | times | divide | andOp => true
  | _ => false

def isLiteral : Kind → Bool
  | intLit | realLit | trueLit | falseLit => true
  | _ => false

def isTypeName : Kind → Bool
  | integerKw | realKw | booleanKw => true
  | _ => false

end Kind

end TinyPascal
