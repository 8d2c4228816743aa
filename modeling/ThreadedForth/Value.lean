import ThreadedForth.Numeral
import ThreadedForth.Text
/-!
# ThreadedForth.Value

The values an operand stack can hold. Programs produce integers and word references; a host
may push truth values and texts as well, which no arithmetic accepts.

A value has two textual forms. `describe?` is what `.` prints; `inspect?` is the form used
when a whole stack is inspected, in which texts are quoted and references spelled out. Both
fail only on a number of too many digits.
-/

namespace ThreadedForth

/-- A reference to a dictionary entry, with the name the entry had when it was taken. A host can
forge one, so the handle need not be valid. -/
structure WordRef where
  /-- The index of the entry. -/
  handle : Int
  /-- The name of the entry. -/
  name : String
  deriving DecidableEq, Repr

/-- A stack value. -/
inductive Value where
  /-- An integer of any size. -/
  | int (n : Int)
  /-- A word reference. -/
  | ref (r : WordRef)
  /-- A truth value. -/
  | bool (b : Bool)
  /-- A text. -/
  | text (s : String)
  deriving DecidableEq, Repr

/-- The printed form of a truth value. -/
def truthText : Bool → String
  | true => "True"
  | false => "False"

namespace WordRef

/-- The printed form of a reference. -/
def describe (r : WordRef) : String := "<word " ++ r.name ++ ">"

/-- The inspected form of a reference. -/
def inspect? (r : WordRef) : Option String :=
  (Numeral.written? r.handle).map fun h =>
    "WordRef(handle=" ++ h ++ ", name=" ++ Text.quoted r.name ++ ")"

end WordRef

namespace Value

/-- The printed form of a value. -/
def describe? : Value → Option String
  | int n => Numeral.written? n
  | ref r => some r.describe
  | bool b => some (truthText b)
  | text s => some s

/-- The inspected form of a value. -/
def inspect? : Value → Option String
  | int n => Numeral.written? n
  | ref r => r.inspect?
  | bool b => some (truthText b)
  | text s => some (Text.quoted s)

/-- Is the value an integer? -/
def isInt : Value → Bool
  | int _ => true
  | _ => false

end Value

end ThreadedForth
