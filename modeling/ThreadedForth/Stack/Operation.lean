import ThreadedForth.Stack
import ThreadedForth.Word
/-!
# ThreadedForth.Stack.Operation

What a host can do with a bare operand stack, and what it is answered. The answers (`Reply`) are the
same for all that a host works on, be it a stack, a dictionary (`Dictionary.Edit`) or a whole
interpreter (`Session.Command`). Where an operation carries a name, it is the context of the problem
it may raise.
-/

namespace ThreadedForth

/-- The answer of a host operation. -/
inductive Reply where
  /-- Nothing worth saying. -/
  | nothing
  /-- A number: a depth, a length or a handle. -/
  | count (n : Nat)
  /-- The handle that a look-up found. -/
  | handle? (h : Option Nat)
  /-- A stack value. -/
  | value (v : Value)
  /-- Stack values, bottom first. -/
  | values (vs : List Value)
  /-- A text. -/
  | text (s : String)
  /-- Several texts. -/
  | texts (ss : List String)
  /-- A dictionary entry, if there is one. -/
  | word? (w : Option Word)
  /-- Dictionary entries, oldest first. -/
  | words (ws : List Word)
  deriving DecidableEq, Repr

namespace Stack

/-- An operation on a stack. -/
inductive Operation where
  /-- Put a value on top. -/
  | push (v : Value)
  /-- Take the top value. -/
  | pop (name : Option String)
  /-- Look at the top value. -/
  | peek (name : Option String)
  /-- Take the top value, which has to be an integer. -/
  | popInt (name : Option String)
  /-- Look at the value `n` places below the top. -/
  | pick (n : Int) (name : Option String)
  /-- How many values there are. -/
  | depth
  /-- Take all values away. -/
  | clear
  /-- The printed forms of all values. -/
  | describe
  /-- The inspected form of the stack. -/
  | inspect
  deriving DecidableEq, Repr

/-- Perform an operation. -/
def perform (s : Stack) : Operation → Outcome Stack Reply
  | .push v => .ok .nothing (v :: s)
  | .pop name => (pop name s).map .value
  | .peek name => (peek name s).map .value
  | .popInt name => (popInt name s).map fun n => .value (.int n)
  | .pick n name => (pick name n s).map .value
  | .depth => .ok (.count s.length) s
  | .clear => .ok .nothing []
  | .describe => (Outcome.ofText? s.describe? s).map .texts
  | .inspect => (Outcome.ofText? s.inspect? s).map .text

end Stack

end ThreadedForth
