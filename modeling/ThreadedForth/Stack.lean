import ThreadedForth.Outcome
import ThreadedForth.Text
import ThreadedForth.Value
/-!
# ThreadedForth.Stack

The operand stack: a list of values, **top first**. Operations that can fail name the word that
asked for them, which becomes the context of the problem.
-/

namespace ThreadedForth

/-- An operand stack, top first. -/
abbrev Stack := List Value

namespace Stack

/-- Fail because the stack holds too few values. -/
def underflow {α : Type} (op : Option String) (s : Stack) : Outcome Stack α :=
  .fail (.raise (.underflow op)) s

/-- Take the top value. -/
def pop (op : Option String) : Stack → Outcome Stack Value
  | [] => underflow op []
  | v :: s => .ok v s

/-- Look at the top value. -/
def peek (op : Option String) : Stack → Outcome Stack Value
  | [] => underflow op []
  | v :: s => .ok v (v :: s)

/-- Look at the value `n` places below the top. A negative `n` counts from the bottom, -1 being
the bottom itself. -/
def pick (op : Option String) (n : Int) (s : Stack) : Outcome Stack Value :=
  if s.length ≤ n then underflow op s
  else
    match itemAt? s.reverse (-(n + 1)) with
    | some v => .ok v s
    | none => .fail (.noItem (-(n + 1))) s

/-- Take the top value, which has to be an integer; a value that is none is taken all the
same. -/
def popInt (op : Option String) : Stack → Outcome Stack Int
  | [] => underflow op []
  | .int n :: s => .ok n s
  | v :: s =>
    (Outcome.ofText? v.describe? s).bind fun got s => .fail (.raise (.integerExpected op got)) s

/-- The printed forms of all values, bottom first. -/
def describe? (s : Stack) : Option (List String) := s.reverse.mapM Value.describe?

/-- The depth in angle brackets and the printed forms of all values, bottom first. -/
def summary? (s : Stack) : Option String :=
  s.describe?.map fun items =>
    String.ofList (Text.trimEnd
      ("<" ++ s.length.repr ++ "> " ++ String.intercalate " " items).toList)

/-- The inspected form of the whole stack, bottom first. -/
def inspect? (s : Stack) : Option String :=
  (s.reverse.mapM Value.inspect?).map fun items =>
    "OperandStack([" ++ String.intercalate ", " items ++ "])"

/-! ### Equations -/

@[simp] theorem pop_cons (op : Option String) (v : Value) (s : Stack) :
    pop op (v :: s) = .ok v s := rfl

/-- A value that is no integer is shown in the problem: its printed form always exists. -/
theorem popInt_of_not_int (op : Option String) {v : Value} (h : v.isInt = false) (s : Stack) :
    ∃ got, v.describe? = some got ∧
      popInt op (v :: s) = .fail (.raise (.integerExpected op got)) s := by
  cases v <;> simp_all [Value.isInt, Value.describe?, popInt]

end Stack

end ThreadedForth
