/-!
# ThreadedForth.Primitive

The built-in operations. They fall into two families by what they can touch: a *data word* sees
the operand stack alone and may write text (`ThreadedForth.Primitive.Data`), a *system word*
works on the dictionary, the mode or the input, or calls another word
(`ThreadedForth.Primitive.System`).
-/

namespace ThreadedForth

/-- Built-in words that see the operand stack alone. -/
inductive DataWord where
  /-- `dup ( a -- a a )` -/
  | dup
  /-- `drop ( a -- )` -/
  | drop
  /-- `swap ( a b -- b a )` -/
  | swap
  /-- `over ( a b -- a b a )` -/
  | copyOver
  /-- `rot ( a b c -- b c a )` -/
  | rot
  /-- `depth ( -- n )` -/
  | depth
  /-- `. ( a -- )`, which prints `a`. -/
  | dot
  /-- `.s ( -- )`, which prints the whole stack. -/
  | dotS
  /-- `+ ( a b -- a+b )` -/
  | add
  /-- `- ( a b -- a-b )` -/
  | sub
  /-- `* ( a b -- a*b )` -/
  | mul
  /-- `/ ( a b -- q )`, the quotient rounded down. -/
  | div
  /-- `mod ( a b -- r )`, the remainder, which has the sign of the divisor. -/
  | mod
  /-- `negate ( a -- -a )` -/
  | negate
  /-- `cr ( -- )`, which prints a line end. -/
  | cr
  /-- `emit ( n -- )`, which prints the character with code `n`. -/
  | emit
  /-- `space ( -- )`, which prints a space. -/
  | space
  deriving DecidableEq, Repr

/-- Built-in words that work on the interpreter itself. -/
inductive SystemWord where
  /-- `:` begins a definition. -/
  | colon
  /-- `;` ends a definition, also while compiling. -/
  | semicolon
  /-- `'` reads a name and pushes a reference to its word. -/
  | tick
  /-- `execute ( ref -- )` calls the word referred to. -/
  | execute
  /-- `words` lists the visible names. -/
  | words
  /-- `see` reads a name and lists the definition of its word. -/
  | see
  deriving DecidableEq, Repr

/-- A built-in operation. -/
inductive Primitive where
  /-- An operation on the stack. -/
  | data (w : DataWord)
  /-- An operation on the interpreter. -/
  | system (w : SystemWord)
  /-- An operation added by a host under a name, which does nothing. -/
  | inert (name : String)
  deriving DecidableEq, Repr

/-- The name of a data word. -/
def DataWord.name : DataWord → String
  | dup => "dup"
  | drop => "drop"
  | swap => "swap"
  | copyOver => "over"
  | rot => "rot"
  | depth => "depth"
  | dot => "."
  | dotS => ".s"
  | add => "+"
  | sub => "-"
  | mul => "*"
  | div => "/"
  | mod => "mod"
  | negate => "negate"
  | cr => "cr"
  | emit => "emit"
  | space => "space"

/-- The name of a system word. -/
def SystemWord.name : SystemWord → String
  | colon => ":"
  | semicolon => ";"
  | tick => "'"
  | execute => "execute"
  | words => "words"
  | see => "see"

namespace Primitive

/-- The name of a primitive. -/
def name : Primitive → String
  | data w => w.name
  | system w => w.name
  | inert name => name

/-- Does the primitive run even while a definition is being compiled? -/
def isImmediate : Primitive → Bool
  | system .semicolon => true
  | _ => false

/-- The primitives of a fresh dictionary, in the order of their handles. -/
def builtins : List Primitive :=
  [system .colon, system .semicolon, system .tick, system .execute, system .words, system .see,
   data .dup, data .drop, data .swap, data .copyOver, data .rot, data .depth, data .dot, data .dotS,
   data .add, data .sub, data .mul, data .div, data .mod, data .negate,
   data .cr, data .emit, data .space]

end Primitive

end ThreadedForth
