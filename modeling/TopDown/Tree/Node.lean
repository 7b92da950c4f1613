import TopDown.Lexicon.Kind

/-!
# Nodes

A node of a parse tree has a role and a label. A non-terminal shows its name between angle brackets,
and so does the wrapper of a terminal, named for the kind; the lexeme stands below it. An empty
alternative leaves a leaf of its own, and an error carries its message.
-/

namespace TopDown

inductive Role where
  | root | nonterminal | terminal | empty | error
  deriving DecidableEq, Inhabited

namespace Role

def all : List Role :=
  [.root, .nonterminal, .terminal, .empty, .error]

def name : Role → String
  | root => "root"
  | nonterminal => "nonterminal"
  | terminal => "terminal"
  | empty => "empty"
  | error => "error"

/-- The role with the given name. -/
def ofName? (name : String) : Option Role :=
  all.find? (·.name = name)

end Role

structure Node where
  role : Role
  label : String
  deriving DecidableEq, Inhabited

namespace Node

def root : Node :=
  ⟨.root, "Parse Tree"⟩

def nonterminal (name : String) : Node :=
  ⟨.nonterminal, "<" ++ name ++ ">"⟩

/-- The wrapper of a terminal of the given kind. -/
def wrapper (kind : Kind) : Node :=
  nonterminal kind.name

def terminal (lexeme : String) : Node :=
  ⟨.terminal, lexeme⟩

def empty : Node :=
  ⟨.empty, "EMPTY"⟩

def error (message : String) : Node :=
  ⟨.error, message⟩

end Node

end TopDown
