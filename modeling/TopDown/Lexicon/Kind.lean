/-!
# Kinds of token

The terminals of the statement language, with end-of-input and a kind for text that no rule covers.
Sets of kinds are lists in the order of `Kind.all`, so that each set is written in one way.
-/

namespace TopDown

inductive Kind where
  | endOfInput | unrecognized
  | identifier | number
  | kwRead | kwWrite | kwVar | kwLet | kwIf | kwThen | kwElse | kwEndif | kwUntil | kwRepeat
  | assign | arrow | openParen | closeParen | comma
  | plus | minus | times | divide
  | less | greater | equals
  deriving DecidableEq, Inhabited

namespace Kind

/-- Every kind, in the order in which kinds are listed. -/
def all : List Kind :=
  [.endOfInput, .unrecognized, .identifier, .number,
    .kwRead, .kwWrite, .kwVar, .kwLet, .kwIf, .kwThen, .kwElse, .kwEndif, .kwUntil, .kwRepeat,
    .assign, .arrow, .openParen, .closeParen, .comma, .plus, .minus, .times, .divide,
    .less, .greater, .equals]

theorem mem_all (k : Kind) : k ∈ all := by
  cases k <;> decide

/-- The code of the kind, as descriptions of tokens show it. -/
def code : Kind → String
  | endOfInput => "EOF"
  | unrecognized => "UNRECOGNIZED"
  | identifier => "IDENTIFIER"
  | number => "NUMBER"
  | kwRead => "READ"
  | kwWrite => "WRITE"
  | kwVar => "VAR"
  | kwLet => "LET"
  | kwIf => "IF"
  | kwThen => "THEN"
  | kwElse => "ELSE"
  | kwEndif => "ENDIF"
  | kwUntil => "UNTIL"
  | kwRepeat => "REPEAT"
  | assign => "ASSIGN"
  | arrow => "ARROW"
  | openParen => "LPAREN"
  | closeParen => "RPAREN"
  | comma => "COMMA"
  | plus => "PLUS"
  | minus => "MINUS"
  | times => "TIMES"
  | divide => "DIVIDE"
  | less => "LESS"
  | greater => "GREATER"
  | equals => "EQUALS"

/-- The name of the kind, as messages and tree labels show it. -/
def name : Kind → String
  | endOfInput => "end-of-input"
  | unrecognized => "unrecognized"
  | identifier => "identifier"
  | number => "number"
  | kwRead => "read"
  | kwWrite => "write"
  | kwVar => "var"
  | kwLet => "let"
  | kwIf => "if"
  | kwThen => "then"
  | kwElse => "else"
  | kwEndif => "endif"
  | kwUntil => "until"
  | kwRepeat => "repeat"
  | assign => "assign"
  | arrow => "arrow"
  | openParen => "open-paren"
  | closeParen => "close-paren"
  | comma => "comma"
  | plus => "plus"
  | minus => "minus"
  | times => "times"
  | divide => "divide"
  | less => "less"
  | greater => "greater"
  | equals => "equals"

/-- The one lexeme of the kind, if the kind is a reserved word or operator. -/
def spelling : Kind → Option String
  | endOfInput | unrecognized | identifier | number => none
  | kwRead => "read"
  | kwWrite => "write"
  | kwVar => "var"
  | kwLet => "let"
  | kwIf => "if"
  | kwThen => "then"
  | kwElse => "else"
  | kwEndif => "endif"
  | kwUntil => "until"
  | kwRepeat => "repeat"
  | assign => "="
  | arrow => "<-"
  | openParen => "("
  | closeParen => ")"
  | comma => ","
  | plus => "+"
  | minus => "-"
  | times => "*"
  | divide => "/"
  | less => "<"
  | greater => ">"
  | equals => "=="

/-- The kind with the given code. -/
def ofCode? (code : String) : Option Kind :=
  all.find? (·.code = code)

/-- The kind that reserves `lexeme`. -/
def reserved? (lexeme : String) : Option Kind :=
  all.find? (·.spelling = some lexeme)

end Kind

end TopDown
