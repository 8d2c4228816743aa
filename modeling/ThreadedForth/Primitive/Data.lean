import ThreadedForth.Primitive
import ThreadedForth.Stack
/-!
# ThreadedForth.Primitive.Data

What the data words do. Each is a function from stacks to outcomes whose result is the text it
writes. The order of checks is part of the meaning: the rearranging words (`dup`, `drop`,
`swap`, `over`, `rot`) look before they take, so a failure leaves the stack as it was, while
arithmetic takes its operands one by one, the top one first, and a failure leaves them taken.
-/

namespace ThreadedForth

namespace Stack

/-- `dup ( a -- a a )` -/
def dup : Stack → Outcome Stack String
  | a :: s => .ok "" (a :: a :: s)
  | s => underflow (some "dup") s

/-- `drop ( a -- )` -/
def discard : Stack → Outcome Stack String
  | _ :: s => .ok "" s
  | s => underflow (some "drop") s

/-- `swap ( a b -- b a )` -/
def swap : Stack → Outcome Stack String
  | b :: a :: s => .ok "" (a :: b :: s)
  | s => underflow (some "swap") s

/-- `over ( a b -- a b a )` -/
def copyOver : Stack → Outcome Stack String
  | b :: a :: s => .ok "" (a :: b :: a :: s)
  | s => underflow (some "over") s

/-- `rot ( a b c -- b c a )` -/
def rot : Stack → Outcome Stack String
  | c :: b :: a :: s => .ok "" (a :: c :: b :: s)
  | s => underflow (some "rot") s

/-- `depth ( -- n )` -/
def pushDepth (s : Stack) : Outcome Stack String := .ok "" (.int s.length :: s)

/-- Print the top value and a space. -/
def printTop (s : Stack) : Outcome Stack String :=
  (pop (some ".") s).bind fun v s => (Outcome.ofText? v.describe? s).map (· ++ " ")

/-- Print a summary of the stack on a line. -/
def printAll (s : Stack) : Outcome Stack String := (Outcome.ofText? s.summary? s).map (· ++ "\n")

/-- Replace the top value `b` and the one below it, `a`, by `f a b`. -/
def binary (op : String) (f : Int → Int → Int) (s : Stack) : Outcome Stack String :=
  (popInt (some op) s).bind fun b s =>
  (popInt (some op) s).bind fun a s => .ok "" (.int (f a b) :: s)

/-- Like `binary`, for an operation that has no result for `b = 0`. -/
def division (op : String) (f : Int → Int → Int) (s : Stack) : Outcome Stack String :=
  (popInt (some op) s).bind fun b s =>
  (popInt (some op) s).bind fun a s =>
    if b = 0 then .fail (.raise (.zeroDivisor op)) s else .ok "" (.int (f a b) :: s)

/-- `negate ( a -- -a )` -/
def negate (s : Stack) : Outcome Stack String :=
  (popInt (some "negate") s).bind fun a s => .ok "" (.int (-a) :: s)

/-- The character with the given code, if there is one. -/
def charOf? (code : Int) : Option Char :=
  if 0 ≤ code ∧ code.toNat.isValidChar then some (Char.ofNat code.toNat) else none

/-- Print the character whose code is on top. -/
def printChar (s : Stack) : Outcome Stack String :=
  (popInt (some "emit") s).bind fun code s =>
    match charOf? code with
    | some c => .ok c.toString s
    | none =>
      (Outcome.ofText? (Numeral.written? code) s).bind fun shown s =>
        .fail (.raise (.notACharacter shown)) s

end Stack

/-- Run a data word; the result is the text it writes. -/
def DataWord.run : DataWord → Stack → Outcome Stack String
  | dup => Stack.dup
  | drop => Stack.discard
  | swap => Stack.swap
  | copyOver => Stack.copyOver
  | rot => Stack.rot
  | depth => Stack.pushDepth
  | dot => Stack.printTop
  | dotS => Stack.printAll
  | add => Stack.binary "+" (· + ·)
  | sub => Stack.binary "-" (· - ·)
  | mul => Stack.binary "*" (· * ·)
  | div => Stack.division "/" Int.fdiv
  | mod => Stack.division "mod" Int.fmod
  | negate => Stack.negate
  | cr => .ok "\n"
  | emit => Stack.printChar
  | space => .ok " "

end ThreadedForth
