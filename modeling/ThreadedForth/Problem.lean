/-!
# ThreadedForth.Problem

Problems: what can go wrong in a Forth program. A problem has a kind, an optional context (the
word or name it is about) and a text; the wording of every problem the interpreter raises
stands in this module and nowhere else.
-/

namespace ThreadedForth

namespace Problem

/-- The kinds of problems. -/
inductive Kind where
  /-- No particular kind. -/
  | general
  /-- A value was needed and the stack had none. -/
  | stackUnderflow
  /-- A value of the wrong type. -/
  | typeMismatch
  /-- A name without a visible definition, or no name where one was due. -/
  | unknownWord
  /-- An operation that the current mode does not allow. -/
  | modeError
  /-- The input ended inside a definition. -/
  | truncatedDefinition
  /-- A divisor was zero. -/
  | divisionByZero
  /-- Too many calls were open at once. -/
  | stackOverflow
  deriving DecidableEq, Repr

namespace Kind

/-- The name of the kind, as reports show it. -/
def label : Kind → String
  | general => "ForthError"
  | stackUnderflow => "StackUnderflow"
  | typeMismatch => "TypeMismatch"
  | unknownWord => "UnknownWord"
  | modeError => "ModeError"
  | truncatedDefinition => "TruncatedDefinition"
  | divisionByZero => "DivisionByZero"
  | stackOverflow => "StackOverflow"

/-- The text of a problem that says nothing more particular. -/
def usualText : Kind → String
  | general => "forth error"
  | stackUnderflow => "stack underflow"
  | typeMismatch => "integer expected"
  | unknownWord => "unknown word"
  | modeError => "end-definition without begin-definition"
  | truncatedDefinition => "end of input inside a definition"
  | divisionByZero => "division by zero"
  | stackOverflow => "call nesting too deep"

/-- Every kind. -/
def all : List Kind :=
  [general, stackUnderflow, typeMismatch, unknownWord, modeError, truncatedDefinition,
   divisionByZero, stackOverflow]

/-- The kind with the given label. -/
def ofLabel? (s : String) : Option Kind := all.find? (·.label = s)

end Kind

end Problem

/-- Something wrong with a Forth program. -/
structure Problem where
  /-- The kind of problem. -/
  kind : Problem.Kind
  /-- The word or name it is about, if any. -/
  context : Option String
  /-- What is wrong. -/
  text : String
  deriving DecidableEq, Repr

namespace Problem

/-- A problem of a kind; without a text, or with an empty one, it says the kind's usual text. -/
def of (kind : Kind) (context text : Option String) : Problem where
  kind := kind
  context := context
  text :=
    match text with
    | none => kind.usualText
    | some t => if t.isEmpty then kind.usualText else t

/-- The full message: the context, if there is one, and the text. -/
def message (p : Problem) : String :=
  match p.context with
  | none => p.text
  | some c => c ++ ": " ++ p.text

/-! ### The problems the interpreter raises -/

/-- The operation needed a value that the stack did not have. -/
def underflow (op : Option String) : Problem := .of .stackUnderflow op none

/-- The operation needed an integer and met the value shown as `got`. -/
def integerExpected (op : Option String) (got : String) : Problem :=
  .of .typeMismatch op (some ("integer expected, got " ++ got))

/-- `execute` needed a word reference and met the value shown as `got`. -/
def referenceExpected (got : String) : Problem :=
  .of .typeMismatch (some "execute") (some ("word reference expected, got " ++ got))

/-- `emit` met a number that is no character code. -/
def notACharacter (code : String) : Problem :=
  .of .typeMismatch (some "emit") (some ("not a character code: " ++ code))

/-- The divisor of the operation was zero. -/
def zeroDivisor (op : String) : Problem := .of .divisionByZero (some op) none

/-- The name has no visible definition. -/
def unknown (name : String) : Problem := .of .unknownWord (some name) none

/-- The word reads a name from the input, and the input had none. -/
def missingName (op : String) : Problem := .of .unknownWord (some op) (some "missing word name")

/-- A definition was begun while another one, shown as `quotedName`, was open. -/
def alreadyDefining (quotedName : String) : Problem :=
  .of .modeError (some ":") (some ("already defining " ++ quotedName))

/-- A definition was ended while none was open. -/
def notDefining : Problem := .of .modeError (some ";") none

/-- A cell was added to a finished word. -/
def alreadyFinished (name : String) : Problem :=
  .of .modeError (some name) (some "cannot extend a finished definition")

/-- The input ended inside a definition, whose name is given if it was already read. -/
def truncated (name : Option String) : Problem := .of .truncatedDefinition name none

/-- The call of the word would have exceeded the nesting limit. -/
def tooDeep (name : String) : Problem := .of .stackOverflow (some name) none

end Problem

end ThreadedForth
